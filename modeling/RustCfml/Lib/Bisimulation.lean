import Mathlib

/-!
# Comparing graphs by assuming what is being compared

Two values of a graph are bisimilar when some relation between nodes holds of them and is closed
under one step of comparing. `compare` looks for one: it walks both graphs in step and **takes a
pair it has met before as equal**.
-/

namespace Bisimulation

open List

/-- A value is a leaf or a node of the graph. -/
inductive Val (N L : Type) where
  | leaf (l : L)
  | node (a : N)

/-- Pairs that are to be related; `none` is one that cannot be. -/
abbrev Steps (N L : Type) := List (Option (Val N L × Val N L))

variable {N L : Type} (leafEq : L → L → Bool) (alike : N → N → Bool) (steps : N → N → Steps N L)

def Related (R : N → N → Prop) : Val N L → Val N L → Prop
  | .leaf x, .leaf y => leafEq x y = true
  | .node a, .node b => R a b
  | _, _ => False

def AllRelated (R : N → N → Prop) (todo : Steps N L) : Prop :=
  ∀ s ∈ todo, ∃ x y, s = some (x, y) ∧ Related leafEq R x y

/-- Related nodes have related contents. -/
def Closed (R : N → N → Prop) : Prop := ∀ a b, R a b → AllRelated leafEq R (steps a b)

def Bisimilar (x y : Val N L) : Prop := ∃ R, Closed leafEq steps R ∧ Related leafEq R x y

abbrev Seen (N : Type) := List (N × N)

def loop (cmp : Val N L → Val N L → Seen N → Option (Bool × Seen N)) : Steps N L → Seen N →
    Option (Bool × Seen N)
  | [], seen => some (true, seen)
  | none :: _, seen => some (false, seen)
  | some (x, y) :: rest, seen =>
    match cmp x y seen with
    | some (true, seen) => loop cmp rest seen
    | other => other

def onValues (nodes : N → N → Seen N → Option (Bool × Seen N)) : Val N L → Val N L → Seen N →
    Option (Bool × Seen N)
  | .leaf x, .leaf y, seen => some (leafEq x y, seen)
  | .node a, .node b, seen => nodes a b seen
  | _, _, seen => some (false, seen)

/-- A pair that was met before counts as equal; out of frames there is no answer. -/
def compareNodes [DecidableEq N] : Nat → N → N → Seen N → Option (Bool × Seen N)
  | 0, a, b, seen =>
    if alike a b = false then some (false, seen) else if a = b then some (true, seen) else none
  | frames + 1, a, b, seen =>
    if alike a b = false then some (false, seen)
    else if a = b ∨ (a, b) ∈ seen then some (true, seen)
    else loop (onValues leafEq (compareNodes frames)) (steps a b) ((a, b) :: seen)

def compare [DecidableEq N] (frames : Nat) : Val N L → Val N L → Seen N → Option (Bool × Seen N) :=
  onValues leafEq (compareNodes leafEq alike steps frames)

variable {leafEq steps}

variable {R : N → N → Prop} {seen : Seen N} {nodes : N → N → Seen N → Option (Bool × Seen N)}

variable {S : N → N → Prop} {x y : Val N L} {seen' : Seen N}
  {cmp : Val N L → Val N L → Seen N → Option (Bool × Seen N)} {frames : Nat}

lemma Related.mono (h : ∀ a b, R a b → S a b) (hxy : Related leafEq R x y) :
    Related leafEq S x y := by
  cases x <;> cases y
  iterate 3 exact hxy
  · exact h _ _ hxy

lemma AllRelated.mono (h : ∀ a b, R a b → S a b) {todo : Steps N L}
    (ht : AllRelated leafEq R todo) : AllRelated leafEq S todo := by
  intro s hs
  obtain ⟨x, y, rfl, hxy⟩ := ht s hs
  exact ⟨x, y, rfl, hxy.mono h⟩

/-- The same, or met before. -/
def Within (seen : Seen N) (a b : N) : Prop := a = b ∨ (a, b) ∈ seen

lemma Within.mono (h : seen ⊆ seen') (a b : N) (hab : Within seen a b) : Within seen' a b :=
  hab.imp_right (h ·)

variable (leafEq steps) in
/-- What a comparison adds to the pairs it has met. -/
structure Walked (seen seen' : Seen N) : Prop where
  sub : seen ⊆ seen'
  added : ∀ p ∈ seen', p ∉ seen → AllRelated leafEq (Within seen') (steps p.1 p.2)

lemma Walked.refl (seen : Seen N) : Walked leafEq steps seen seen :=
  ⟨fun _ h => h, fun _ h hn => absurd h hn⟩

lemma Walked.trans {s1 s2 s3 : Seen N} (h : Walked leafEq steps s1 s2)
    (h' : Walked leafEq steps s2 s3) : Walked leafEq steps s1 s3 := by
  refine ⟨fun p hp => h'.sub (h.sub hp), fun p hp hnew => ?_⟩
  by_cases hmid : p ∈ s2
  · exact (h.added p hmid hnew).mono (Within.mono h'.sub)
  · exact h'.added p hp hmid

lemma loop_true (hcmp : ∀ x y seen seen', cmp x y seen = some (true, seen') →
      Walked leafEq steps seen seen' ∧ Related leafEq (Within seen') x y) :
    ∀ (todo : Steps N L) {seen seen' : Seen N}, loop cmp todo seen = some (true, seen') →
      Walked leafEq steps seen seen' ∧ AllRelated leafEq (Within seen') todo := by
  intro todo
  induction todo with
  | nil =>
    rintro seen _ ⟨⟩
    exact ⟨.refl seen, fun s hs => by cases hs⟩
  | cons s rest ih =>
    intro seen seen' h
    rcases s with _ | ⟨x, y⟩
    · cases h
    · rw [loop] at h
      split at h
      · next mid hmid =>
        obtain ⟨hw, hxy⟩ := hcmp x y seen mid hmid
        obtain ⟨hw', hrest⟩ := ih h
        refine ⟨hw.trans hw', fun s hs => ?_⟩
        rcases mem_cons.1 hs with rfl | hs
        · exact ⟨x, y, rfl, hxy.mono (Within.mono hw'.sub)⟩
        · exact hrest s hs
      · next other => exact absurd h (other seen')

lemma onValues_true (h : ∀ a b seen seen', nodes a b seen = some (true, seen') →
      Walked leafEq steps seen seen' ∧ Within seen' a b) (x y : Val N L) (seen seen' : Seen N)
    (hxy : onValues leafEq nodes x y seen = some (true, seen')) :
    Walked leafEq steps seen seen' ∧ Related leafEq (Within seen') x y := by
  cases x <;> cases y
  · obtain ⟨hleaf, rfl⟩ := Prod.mk.inj (Option.some.inj hxy)
    exact ⟨.refl seen, hleaf⟩
  · cases hxy
  · cases hxy
  · exact h _ _ seen seen' hxy

variable [DecidableEq N] {alike}

lemma compareNodes_true : ∀ (frames : Nat) (a b : N) (seen seen' : Seen N),
    compareNodes leafEq alike steps frames a b seen = some (true, seen') →
      Walked leafEq steps seen seen' ∧ Within seen' a b := by
  intro frames
  induction frames with
  | zero =>
    intro a b seen seen' h
    rw [compareNodes] at h
    split_ifs at h with hkind heq
    · cases h
    · cases h
      exact ⟨.refl seen, .inl heq⟩
  | succ frames ih =>
    intro a b seen seen' h
    rw [compareNodes] at h
    split_ifs at h with hkind hmet
    · cases h
    · cases h
      exact ⟨.refl seen, hmet⟩
    · obtain ⟨hw, hsteps⟩ := loop_true (onValues_true ih) _ h
      refine ⟨⟨fun p hp => hw.sub (mem_cons_of_mem _ hp), fun p hp hnew => ?_⟩,
        .inr (hw.sub mem_cons_self)⟩
      by_cases hself : p = (a, b)
      · rw [hself]
        exact hsteps
      · exact hw.added p hp fun hmem => (mem_cons.1 hmem).elim hself hnew

omit [DecidableEq N] in
lemma onValues_false (h : ∀ a b seen seen', nodes a b seen = some (false, seen') → ¬R a b)
    (x y : Val N L)
    (seen seen' : Seen N) (hxy : onValues leafEq nodes x y seen = some (false, seen')) :
    ¬Related leafEq R x y := by
  cases x <;> cases y
  · simpa [Related] using (Prod.mk.inj (Option.some.inj hxy)).1
  · exact id
  · exact id
  · exact h _ _ seen seen' hxy

omit [DecidableEq N] in
lemma loop_false (hcmp : ∀ x y seen seen', cmp x y seen = some (false, seen') →
      ¬Related leafEq R x y) :
    ∀ (todo : Steps N L) (seen seen' : Seen N), loop cmp todo seen = some (false, seen') →
      ¬AllRelated leafEq R todo := by
  intro todo
  induction todo with
  | nil =>
    intro seen seen' h
    cases h
  | cons s rest ih =>
    intro seen seen' h hall
    obtain ⟨x, y, rfl, hxy⟩ := hall s mem_cons_self
    rw [loop] at h
    split at h
    · exact ih _ _ h (forall_mem_cons.1 hall).2
    · exact hcmp x y seen seen' h hxy

lemma compareNodes_false (hkind : ∀ a b, alike a b = false → none ∈ steps a b)
    (hR : Closed leafEq steps R) : ∀ (frames : Nat) (a b : N) (seen seen' : Seen N),
    compareNodes leafEq alike steps frames a b seen = some (false, seen') → ¬R a b := by
  have hnone : ∀ a b, alike a b = false → ¬R a b := by
    intro a b hk hab
    obtain ⟨x, y, hxy, -⟩ := hR a b hab _ (hkind a b hk)
    cases hxy
  intro frames
  induction frames with
  | zero =>
    intro a b seen seen' h
    rw [compareNodes] at h
    split_ifs at h with hk
    · exact hnone a b hk
    · cases h
  | succ frames ih =>
    intro a b seen seen' h
    rw [compareNodes] at h
    split_ifs at h with hk
    · exact hnone a b hk
    · cases h
    · exact fun hab => loop_false (onValues_false ih) _ _ _ h (hR a b hab)

/-- **An answer is right**, where leaves equal themselves and a node has no difference to itself. -/
theorem compare_iff (hkind : ∀ a b, alike a b = false → none ∈ steps a b)
    (hleaf : ∀ l, leafEq l l = true) (hself : ∀ a, ∀ s ∈ steps a a, ∃ x, s = some (x, x))
    {answer : Bool}
    (h : compare leafEq alike steps frames x y [] = some (answer, seen)) :
    answer = true ↔ Bisimilar leafEq steps x y := by
  cases answer with
  | false =>
    refine iff_of_false Bool.noConfusion ?_
    rintro ⟨R, hR, hxy⟩
    exact onValues_false (compareNodes_false hkind hR frames) x y [] seen h hxy
  | true =>
    refine iff_of_true rfl ?_
    obtain ⟨hw, hxy⟩ := onValues_true (compareNodes_true frames) x y [] seen h
    refine ⟨Within seen, fun a b hab s hs => ?_, hxy⟩
    rcases hab with rfl | hmem
    · obtain ⟨v, rfl⟩ := hself a s hs
      refine ⟨v, v, rfl, ?_⟩
      cases v
      · exact hleaf _
      · exact .inl rfl
    · exact hw.added _ hmem not_mem_nil s hs

variable [Fintype N]

/-- How many pairs are still to be met. -/
def unmet (seen : Seen N) : Nat := (Finset.univ.filter fun p : N × N => p ∉ seen).card

lemma unmet_le (h : seen ⊆ seen') : unmet seen' ≤ unmet seen := by
  refine Finset.card_le_card fun p hp => ?_
  simp [Finset.mem_filter, Finset.mem_univ] at hp ⊢
  exact fun hmem => hp (h hmem)

lemma unmet_cons {p : N × N} (h : p ∉ seen) : unmet (p :: seen) < unmet seen := by
  refine Finset.card_lt_card ⟨fun q hq => ?_, fun hsub => ?_⟩
  · simp only [Finset.mem_filter, Finset.mem_univ, true_and] at hq ⊢
    exact fun hmem => hq (mem_cons_of_mem _ hmem)
  · have hp := hsub (Finset.mem_filter.2 ⟨Finset.mem_univ p, h⟩)
    exact (Finset.mem_filter.1 hp).2 mem_cons_self

omit [DecidableEq N] [Fintype N] in
lemma onValues_isSome (h : ∀ a b, (nodes a b seen).isSome) (x y : Val N L) :
    (onValues leafEq nodes x y seen).isSome := by
  cases x <;> cases y
  · rfl
  · rfl
  · rfl
  · exact h _ _

lemma compareNodes_isSome : ∀ (frames : Nat) (a b : N) (seen : Seen N), unmet seen < frames →
    (compareNodes leafEq alike steps frames a b seen).isSome := by
  intro frames
  induction frames with
  | zero => exact fun a b seen h => absurd h (Nat.not_lt_zero _)
  | succ frames ih =>
    have hloop : ∀ (todo : Steps N L) (seen : Seen N), unmet seen < frames →
        (loop (onValues leafEq (compareNodes leafEq alike steps frames)) todo seen).isSome := by
      intro todo
      induction todo with
      | nil => exact fun seen _ => rfl
      | cons s rest ihrest =>
        intro seen hlt
        rcases s with _ | ⟨x, y⟩
        · rfl
        · rw [loop]
          split
          · next mid hmid =>
            -- what a step adds to the pairs met leaves fewer of them
            have hsub := (onValues_true (compareNodes_true frames) x y seen mid hmid).1.sub
            exact ihrest mid (Nat.lt_of_le_of_lt (unmet_le hsub) hlt)
          · exact onValues_isSome (fun a b => ih a b seen hlt) x y
    intro a b seen hlt
    rw [compareNodes]
    split_ifs with hkind hmet
    · rfl
    · rfl
    · have hnew := unmet_cons fun hmem => hmet (.inr hmem)
      exact hloop _ _ (by omega)

lemma compare_isSome (h : Fintype.card N * Fintype.card N < frames) (x y : Val N L) :
    (compare leafEq alike steps frames x y []).isSome := by
  refine onValues_isSome (fun a b => compareNodes_isSome frames a b [] ?_) x y
  refine Nat.lt_of_le_of_lt ?_ h
  rw [← Fintype.card_prod]
  exact Finset.card_le_univ _

end Bisimulation
