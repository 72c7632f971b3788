import RustCfml.Sanitize.Policy

/-!
# Whole matches

`full_match` makes one search and looks at the span it returns. The search is leftmost-first: of the
matches at one place it returns the one the pattern **prefers**, by the order of its alternatives
and the greed of its repetitions, and that need not be the longest. It is the longest for a tidy
pattern: one that is anchored at its end, or whose shape puts every longer match first.
-/

namespace RustCfml.Sanitize

open List Option

/-- A place in a text: what is before it, backwards, and what is after. -/
abbrev Place := List Char × List Char

/-- A compiled pattern. Groups do not show, and counted repetitions are sequences. -/
inductive Pattern where
  | empty
  | chars (p : Char → Bool)
  /-- `^`, `$`, `\b` and the like. -/
  | look (p : Place → Bool)
  | concat (r s : Pattern)
  | alternation (r s : Pattern)
  | star (greedy : Bool) (r : Pattern)

namespace Pattern

inductive Matches : Pattern → Place → Place → Prop where
  | empty (x : Place) : Matches .empty x x
  | chars {p : Char → Bool} {b a : List Char} {c : Char} (h : p c = true) :
      Matches (.chars p) (b, c :: a) (c :: b, a)
  | look {p : Place → Bool} {x : Place} (h : p x = true) : Matches (.look p) x x
  | concat {r s : Pattern} {x y z : Place} (hr : Matches r x y) (hs : Matches s y z) :
      Matches (.concat r s) x z
  | left {r s : Pattern} {x y : Place} (h : Matches r x y) : Matches (.alternation r s) x y
  | right {r s : Pattern} {x y : Place} (h : Matches s x y) : Matches (.alternation r s) x y
  | done {greedy : Bool} {r : Pattern} (x : Place) : Matches (.star greedy r) x x
  | more {greedy : Bool} {r : Pattern} {x y z : Place} (hr : Matches r x y)
      (hs : Matches (.star greedy r) y z) : Matches (.star greedy r) x z

/-- A repetition, an iteration that takes nothing being the last one. -/
def repeated (step : Place → List Place) (greedy : Bool) : Nat → Place → List Place
  | 0, x => [x]
  | n + 1, x =>
    let more := (step x).flatMap fun y =>
      if y.2.length < x.2.length then repeated step greedy n y else [y]
    if greedy then more ++ [x] else x :: more

def ends : Pattern → Place → List Place
  | .empty, x => [x]
  | .chars p, (b, c :: a) => if p c then [(c :: b, a)] else []
  | .chars _, (_, []) => []
  | .look p, x => if p x then [x] else []
  | .concat r s, x => (ends r x).flatMap (ends s)
  | .alternation r s, x => ends r x ++ ends s x
  | .star greedy r, x => repeated (ends r) greedy x.2.length x

def search (r : Pattern) (b : List Char) : List Char → Option (Place × Place)
  | [] => (r.ends (b, [])).head?.map fun y => ((b, []), y)
  | c :: a =>
    match (r.ends (b, c :: a)).head? with
    | some y => some ((b, c :: a), y)
    | none => search r (c :: b) a

def offset (x : Place) : Nat := (String.ofList x.1.reverse).utf8ByteSize

def regex (r : Pattern) : Regex where
  find value := (r.search [] value.toList).map fun m => (offset m.1, offset m.2)

def MatchesWhole (r : Pattern) (v : List Char) : Prop := Matches r ([], v) (v.reverse, [])

/-! ## Tidy patterns -/

/-- A sequence of characters and assertions: at most one match at a place, of one width. -/
def single : Pattern → Bool
  | .empty | .chars _ | .look _ => true
  | .concat r s => r.single && s.single
  | .alternation _ _ | .star _ _ => false

def minWidth : Pattern → Nat
  | .empty | .look _ | .star _ _ => 0
  | .chars _ => 1
  | .concat r s => r.minWidth + s.minWidth
  | .alternation r s => min r.minWidth s.minWidth

def maxWidth : Pattern → Option Nat
  | .empty | .look _ => some 0
  | .chars _ => some 1
  | .concat r s => r.maxWidth.bind fun m => s.maxWidth.map (m + ·)
  | .alternation r s => r.maxWidth.bind fun m => s.maxWidth.map (max m ·)
  | .star _ _ => none

/-- The characters that a match which takes something may begin with. -/
def starts : Pattern → Char → Bool
  | .empty, _ | .look _, _ => false
  | .chars p, c => p c
  | .concat r s, c => r.starts c || (r.minWidth == 0 && s.starts c)
  | .alternation r s, c => r.starts c || s.starts c
  | .star _ r, c => r.starts c

/-- The longer matches come first. Only the last factor of a sequence may vary in width, or the next
one begins with what the repetition before it does not take; repetitions are greedy; of two
alternatives the second is not wider than the first, or they begin differently. -/
inductive Tidy : Pattern → Prop where
  | single {r : Pattern} (h : r.single = true) : Tidy r
  | anchored {r : Pattern} {p : Place → Bool} (h : ∀ x, p x = true → x.2 = []) :
      Tidy (.concat r (.look p))
  | front {r s : Pattern} (hr : r.single = true) (hs : Tidy s) : Tidy (.concat r s)
  | back {r s : Pattern} (hr : Tidy r) (hs : s.single = true) : Tidy (.concat r s)
  | run {p : Char → Bool} {s : Pattern} (hs : Tidy s) (htakes : 0 < s.minWidth)
      (happart : ∀ c, p c = true → s.starts c = false) : Tidy (.concat (.star true (.chars p)) s)
  | star {r : Pattern} (h : r.single = true) : Tidy (.star true r)
  | wider {r s : Pattern} (hr : Tidy r) (hs : Tidy s) {n : Nat} (hmax : s.maxWidth = some n)
      (hle : n ≤ r.minWidth) : Tidy (.alternation r s)
  | apart {r s : Pattern} (hr : Tidy r) (hs : Tidy s) (hrtakes : 0 < r.minWidth)
      (hstakes : 0 < s.minWidth)
      (happart : ∀ c, r.starts c = true → s.starts c = false) : Tidy (.alternation r s)

variable {r : Pattern} {x y z : Place}

lemma Matches.takes (h : Matches r x y) : ∃ w, x.2 = w ++ y.2 ∧ y.1 = w.reverse ++ x.1 := by
  induction h with
  | empty x => exact ⟨[], rfl, rfl⟩
  | @chars p b a c _ => exact ⟨[c], rfl, rfl⟩
  | look _ => exact ⟨[], rfl, rfl⟩
  | concat _ _ ihr ihs =>
    obtain ⟨u, hu, hu'⟩ := ihr
    obtain ⟨w, hw, hw'⟩ := ihs
    exact ⟨u ++ w, by rw [hu, hw, append_assoc], by rw [hw', hu', reverse_append, append_assoc]⟩
  | left _ ih | right _ ih => exact ih
  | done x => exact ⟨[], rfl, rfl⟩
  | more _ _ ihr ihs =>
    obtain ⟨u, hu, hu'⟩ := ihr
    obtain ⟨w, hw, hw'⟩ := ihs
    exact ⟨u ++ w, by rw [hu, hw, append_assoc], by rw [hw', hu', reverse_append, append_assoc]⟩

lemma Matches.eq_of_length (h : Matches r x y) (hlen : ¬y.2.length < x.2.length) : y = x := by
  obtain ⟨w, hw, hw'⟩ := h.takes
  have hnil : w = [] := by
    rw [hw, length_append] at hlen
    exact eq_nil_of_length_eq_zero (by omega)
  rw [hnil] at hw hw'
  exact Prod.ext hw' hw.symm

lemma mem_repeated {greedy : Bool} (hr : ∀ x y, y ∈ r.ends x ↔ Matches r x y) (n : Nat)
    (hn : x.2.length ≤ n) : z ∈ repeated r.ends greedy n x ↔ Matches (.star greedy r) x z := by
  constructor
  · induction n generalizing x with
    | zero =>
      intro h
      rw [mem_singleton.1 h]
      exact .done x
    | succ n ih =>
      intro h
      have hcases : z ∈ (r.ends x).flatMap (fun y =>
          if y.2.length < x.2.length then repeated r.ends greedy n y else [y]) ∨ z = x := by
        rw [repeated] at h
        cases greedy with
        | true => exact (mem_append.1 h).imp_right mem_singleton.1
        | false => exact (mem_cons.1 h).symm
      rcases hcases with h | rfl
      · obtain ⟨y, hy, hz⟩ := mem_flatMap.1 h
        split at hz
        · exact .more ((hr x y).1 hy) (ih (by omega) hz)
        · rw [mem_singleton.1 hz]
          exact .more ((hr x y).1 hy) (.done y)
      · exact .done z
  · intro h
    generalize hs : Pattern.star greedy r = s at h
    induction h generalizing n with
    | done x =>
      cases hs
      cases n with
      | zero => exact mem_singleton.2 rfl
      | succ n => cases greedy <;> simp [repeated]
    | @more _ _ x y z hxy _ _ ih =>
      cases hs
      by_cases hlt : y.2.length < x.2.length
      · obtain ⟨m, rfl⟩ : ∃ m, n = m + 1 := ⟨n - 1, by omega⟩
        have hz : z ∈ (r.ends x).flatMap (fun y =>
            if y.2.length < x.2.length then repeated r.ends greedy m y else [y]) :=
          mem_flatMap.2 ⟨y, (hr x y).2 hxy, by rw [if_pos hlt]; exact ih m (by omega) rfl⟩
        rw [repeated]
        cases greedy with
        | true => exact mem_append_left _ hz
        | false => exact mem_cons_of_mem _ hz
      · have hyx := hxy.eq_of_length hlt
        rw [hyx] at ih
        exact ih n hn rfl
    | _ => cases hs

theorem mem_ends (r : Pattern) (x y : Place) : y ∈ r.ends x ↔ Matches r x y := by
  induction r generalizing x y with
  | empty =>
    rw [ends, mem_singleton]
    exact ⟨fun h => h ▸ .empty x, fun h => by cases h; rfl⟩
  | chars p =>
    obtain ⟨b, _ | ⟨c, a⟩⟩ := x
    · exact ⟨(fun h => by cases h), (fun h => by cases h)⟩
    · rw [ends]
      split
      next hp =>
        rw [mem_singleton]
        exact ⟨fun h => h ▸ .chars hp, fun h => by cases h; rfl⟩
      next hp =>
        refine ⟨(fun h => by cases h), fun h => ?_⟩
        cases h with
        | chars h => exact absurd h hp
  | look p =>
    rw [ends]
    split
    next hp =>
      rw [mem_singleton]
      refine ⟨fun h => ?_, fun h => by cases h; rfl⟩
      rw [h]
      exact .look hp
    next hp =>
      refine ⟨(fun h => by cases h), fun h => ?_⟩
      cases h with
      | look h => exact absurd h hp
  | concat r s ihr ihs =>
    rw [ends, mem_flatMap]
    constructor
    · rintro ⟨m, hm, hy⟩
      exact .concat ((ihr x m).1 hm) ((ihs m y).1 hy)
    · intro h
      cases h with
      | concat hr hs => exact ⟨_, (ihr _ _).2 hr, (ihs _ _).2 hs⟩
  | alternation r s ihr ihs =>
    rw [ends, mem_append, ihr, ihs]
    constructor
    · rintro (h | h)
      · exact .left h
      · exact .right h
    · intro h
      cases h with
      | left h => exact .inl h
      | right h => exact .inr h
  | star greedy r ih => exact mem_repeated ih _ le_rfl

lemma size_eq_zero {cs : List Char} : (String.ofList cs).utf8ByteSize = 0 ↔ cs = [] := by
  rw [String.utf8ByteSize_eq_zero_iff, ← String.toList_eq_nil_iff, String.toList_ofList]

lemma start_of_search {b a : List Char} {m : Place × Place} (h : r.search b a = some m) :
    m.2 ∈ (r.ends m.1).head? ∧ ∃ w, m.1.1 = w ++ b ∧ (w = [] → m.1 = (b, a)) := by
  induction a generalizing b with
  | nil =>
    rw [search] at h
    obtain ⟨y, hy, rfl⟩ := map_eq_some_iff.1 h
    exact ⟨hy, [], rfl, fun _ => rfl⟩
  | cons c a ih =>
    rw [search] at h
    split at h
    next y hy =>
      cases h
      exact ⟨hy, [], rfl, fun _ => rfl⟩
    next =>
      obtain ⟨hm, w, hw, -⟩ := ih h
      exact ⟨hm, w ++ [c], by rw [hw, append_assoc]; rfl, fun hnil => by simp at hnil⟩

lemma search_of_head {v : List Char} {y : Place} (h : (r.ends ([], v)).head? = some y) :
    r.search [] v = some (([], v), y) := by
  cases v with
  | nil => rw [search, h, map_some]
  | cons c a => rw [search, h]

lemma offset_eq_size {value : String} (h : Matches r ([], value.toList) y) :
    offset y = value.utf8ByteSize ↔ y.2 = [] := by
  obtain ⟨w, hw, hw'⟩ := h.takes
  have hy : y.1.reverse = w := by rw [hw', append_nil, reverse_reverse]
  have hvalue : value = String.ofList w ++ String.ofList y.2 := by
    rw [← String.ofList_append, ← hw, String.ofList_toList]
  rw [offset, hy, hvalue, String.utf8ByteSize_append, ← size_eq_zero]
  omega

lemma fullMatch_regex (r : Pattern) (value : String) : r.regex.fullMatch value = true ↔
    ∃ y, (r.ends ([], value.toList)).head? = some y ∧ y.2 = [] := by
  have hends {x y : Place} (h : (r.ends x).head? = some y) : Matches r x y :=
    (mem_ends r x y).1 (mem_of_mem_head? h)
  unfold Regex.fullMatch regex
  constructor
  · intro h
    cases hs : r.search [] value.toList with
    | none => simp [hs] at h
    | some m =>
      obtain ⟨hm, w, hw, hstart⟩ := start_of_search hs
      simp only [hs, map_some, Bool.and_eq_true, beq_iff_eq] at h
      rw [offset, size_eq_zero, reverse_eq_nil_iff, hw, append_nil] at h
      rw [hstart h.1] at hm
      exact ⟨m.2, hm, (offset_eq_size (hends hm)).1 h.2⟩
  · rintro ⟨y, hy, hnil⟩
    simp [search_of_head hy]
    exact ⟨size_eq_zero.2 rfl, (offset_eq_size (hends hy)).2 hnil⟩

/-! ## The longer matches first -/

lemma Matches.minWidth_le (h : Matches r x y) : y.2.length + r.minWidth ≤ x.2.length := by
  induction h with
  | empty | look | done => simp [minWidth]
  | chars => simp [minWidth]
  | concat _ _ ihr ihs =>
    rw [minWidth]
    omega
  | left _ ih | right _ ih =>
    rw [minWidth]
    omega
  | more _ _ ihr ihs =>
    rw [minWidth] at ihs ⊢
    omega

lemma Matches.le_maxWidth (h : Matches r x y) : ∀ {n : Nat}, r.maxWidth = some n →
    x.2.length ≤ y.2.length + n := by
  induction h with
  | empty | look =>
    rintro n ⟨⟩
    simp
  | chars =>
    rintro n ⟨⟩
    simp
  | concat _ _ ihr ihs =>
    intro n hn
    obtain ⟨m, hm, hn⟩ := bind_eq_some_iff.1 hn
    obtain ⟨k, hk, rfl⟩ := map_eq_some_iff.1 hn
    have h1 := ihr hm
    have h2 := ihs hk
    omega
  | left _ ih =>
    intro n hn
    obtain ⟨m, hm, hn⟩ := bind_eq_some_iff.1 hn
    obtain ⟨k, hk, rfl⟩ := map_eq_some_iff.1 hn
    have h1 := ih hm
    omega
  | right _ ih =>
    intro n hn
    obtain ⟨m, hm, hn⟩ := bind_eq_some_iff.1 hn
    obtain ⟨k, hk, rfl⟩ := map_eq_some_iff.1 hn
    have h1 := ih hk
    omega
  | done | more => nofun

lemma Matches.starts (h : Matches r x y) (hlt : y.2.length < x.2.length) :
    ∃ c a, x.2 = c :: a ∧ r.starts c = true := by
  induction h with
  | empty | look | done => exact absurd hlt (lt_irrefl _)
  | chars h => exact ⟨_, _, rfl, h⟩
  | @concat r s x y z hr hs ihr ihs =>
    by_cases hfirst : y.2.length < x.2.length
    · obtain ⟨c, a, hx, hc⟩ := ihr hfirst
      exact ⟨c, a, hx, by simp [Pattern.starts, hc]⟩
    · have hsame := hr.eq_of_length hfirst
      have hzero : r.minWidth = 0 := by
        have := hr.minWidth_le
        rw [hsame] at this
        omega
      obtain ⟨c, a, hx, hc⟩ := ihs (by rw [hsame]; exact hlt)
      exact ⟨c, a, hsame ▸ hx, by simp [Pattern.starts, hc, hzero]⟩
  | left _ ih | right _ ih =>
    obtain ⟨c, a, hx, hc⟩ := ih hlt
    exact ⟨c, a, hx, by simp [Pattern.starts, hc]⟩
  | @more _ r x y z hr _ ihr ihs =>
    by_cases hfirst : y.2.length < x.2.length
    · exact ihr hfirst
    · have hsame := hr.eq_of_length hfirst
      rw [hsame] at ihs
      exact ihs hlt

lemma maxWidth_of_single (h : r.single = true) : r.maxWidth = some r.minWidth := by
  induction r with
  | empty | chars | look => rfl
  | concat r s ihr ihs =>
    obtain ⟨hr, hs⟩ := Bool.and_eq_true_iff.1 h
    rw [maxWidth, ihr hr, ihs hs]
    rfl
  | alternation | star => cases h

lemma ends_of_single (h : r.single = true) (x : Place) : r.ends x = [] ∨ ∃ y, r.ends x = [y] := by
  induction r generalizing x with
  | empty => exact .inr ⟨x, rfl⟩
  | chars p =>
    obtain ⟨b, _ | ⟨c, a⟩⟩ := x
    · exact .inl rfl
    · rw [ends]
      split
      · exact .inr ⟨_, rfl⟩
      · exact .inl rfl
  | look p =>
    rw [ends]
    split
    · exact .inr ⟨x, rfl⟩
    · exact .inl rfl
  | concat r s ihr ihs =>
    obtain ⟨hr, hs⟩ := Bool.and_eq_true_iff.1 h
    rw [ends]
    rcases ihr hr x with hnone | ⟨y, hy⟩
    · rw [hnone]
      exact .inl rfl
    · rw [hy, flatMap_singleton]
      exact ihs hs y
  | alternation | star => cases h

lemma ends_eq_nil (htakes : 0 < r.minWidth) (h : ∀ c a, x.2 = c :: a → r.starts c = false) :
    r.ends x = [] := by
  refine eq_nil_iff_forall_not_mem.2 fun y hy => ?_
  have hm := (mem_ends r x y).1 hy
  have hle := hm.minWidth_le
  obtain ⟨c, a, hx, hc⟩ := hm.starts (by omega)
  rw [h c a hx] at hc
  cases hc

/-- The places a pattern reaches, the ones behind which the least is left first. -/
def Descending (places : List Place) : Prop := places.Pairwise fun y z => y.2.length ≤ z.2.length

lemma descending_repeated (h : r.single = true) (n : Nat) (x : Place) :
    Descending (repeated r.ends true n x) ∧ ∀ z ∈ repeated r.ends true n x,
    z.2.length ≤ x.2.length := by
  induction n generalizing x with
  | zero =>
    refine ⟨pairwise_singleton _ _, fun z hz => ?_⟩
    rw [mem_singleton.1 hz]
  | succ n ih =>
    rw [repeated, if_pos rfl]
    have hmore : Descending ((r.ends x).flatMap fun y =>
          if y.2.length < x.2.length then repeated r.ends true n y else [y]) ∧
        ∀ z ∈ (r.ends x).flatMap fun y =>
          if y.2.length < x.2.length then repeated r.ends true n y else [y],
              z.2.length ≤ x.2.length := by
      rcases ends_of_single h x with hnone | ⟨y, hy⟩
      · rw [hnone]
        exact ⟨.nil, nofun⟩
      · have hle := ((mem_ends r x y).1 (hy ▸ mem_singleton_self y)).minWidth_le
        rw [hy, flatMap_singleton]
        split
        · exact ⟨(ih y).1, fun z hz => ((ih y).2 z hz).trans (by omega)⟩
        · refine ⟨pairwise_singleton _ _, fun z hz => ?_⟩
          rw [mem_singleton.1 hz]
          omega
    refine ⟨pairwise_append.2 ⟨hmore.1, pairwise_singleton _ _, fun y hy z hz => ?_⟩,
      fun z hz => ?_⟩
    · rw [mem_singleton.1 hz]
      exact hmore.2 y hy
    · rcases mem_append.1 hz with hz | hz
      · exact hmore.2 z hz
      · rw [mem_singleton.1 hz]

/-- Behind a shorter run there is a character of the run, and the next factor does not begin with
it. -/
lemma descending_run {p : Char → Bool} {s : Pattern} (hs : ∀ x, Descending (s.ends x))
    (htakes : 0 < s.minWidth)
    (happart : ∀ c, p c = true → s.starts c = false) (n : Nat) (x : Place) :
    Descending ((repeated (Pattern.chars p).ends true n x).flatMap s.ends) := by
  induction n generalizing x with
  | zero =>
    rw [repeated, flatMap_singleton]
    exact hs x
  | succ n ih =>
    rw [repeated, if_pos rfl]
    rw [flatMap_append, flatMap_singleton]
    obtain ⟨b, _ | ⟨c, a⟩⟩ := x
    · exact hs _
    · rw [ends]
      split
      · next hc =>
        have hnone : s.ends (b, c :: a) = [] := by
          refine ends_eq_nil htakes fun c' a' hx => ?_
          obtain ⟨rfl, -⟩ := cons.inj hx
          exact happart c hc
        rw [hnone, append_nil, flatMap_singleton, if_pos (by simp)]
        exact ih _
      · exact hs _

lemma Tidy.descending (h : Tidy r) (x : Place) : Descending (r.ends x) := by
  induction h generalizing x with
  | single h =>
    rcases ends_of_single h x with hnone | ⟨y, hy⟩
    · rw [hnone]
      exact .nil
    · rw [hy]
      exact pairwise_singleton _ _
  | @anchored r p h =>
    have hend : ∀ z ∈ (Pattern.concat r (.look p)).ends x, z.2 = [] := by
      intro z hz
      cases (mem_ends _ x z).1 hz with
      | concat _ hlook =>
        cases hlook with
        | look hp => exact h _ hp
    exact pairwise_of_forall_mem_list fun y hy z hz => by rw [hend y hy, hend z hz]
  | front hr hs ih =>
    rw [ends]
    rcases ends_of_single hr x with hnone | ⟨y, hy⟩
    · rw [hnone]
      exact .nil
    · rw [hy, flatMap_singleton]
      exact ih y
  | @back r s hr hs ih =>
    have hwidth : ∀ {y z : Place}, z ∈ s.ends y → y.2.length = z.2.length + s.minWidth := by
      intro y z hz
      have hm := (mem_ends s y z).1 hz
      have hmin := hm.minWidth_le
      have hmax := hm.le_maxWidth (maxWidth_of_single hs)
      omega
    refine pairwise_flatMap.2 ⟨fun y _ => ?_, (ih x).imp fun hle a ha b hb => ?_⟩
    · rcases ends_of_single hs y with hnone | ⟨z, hz⟩
      · rw [hnone]
        exact .nil
      · rw [hz]
        exact pairwise_singleton _ _
    · have ha := hwidth ha
      have hb := hwidth hb
      omega
  | run hs htakes happart ih => exact descending_run ih htakes happart _ x
  | star h => exact (descending_repeated h _ x).1
  | @wider r s hr hs n hmax hle ihr ihs =>
    refine pairwise_append.2 ⟨ihr x, ihs x, fun y hy z hz => ?_⟩
    have hmin := ((mem_ends r x y).1 hy).minWidth_le
    have hz := ((mem_ends s x z).1 hz).le_maxWidth hmax
    omega
  | @apart r s hr hs hrtakes hstakes happart ihr ihs =>
    rw [ends]
    cases hends : r.ends x with
    | nil => exact ihs x
    | cons y ys =>
      have hm := (mem_ends r x y).1 (hends ▸ mem_cons_self)
      have hle := hm.minWidth_le
      obtain ⟨c, a, hx, hc⟩ := hm.starts (by omega)
      have hnone : s.ends x = [] := by
        refine ends_eq_nil hstakes fun c' a' hx' => ?_
        obtain ⟨rfl, -⟩ := cons.inj (hx.symm.trans hx')
        exact happart c hc
      rw [hnone, append_nil, ← hends]
      exact ihr x

/-- `[a-z]*\.(com|de)` -/
def hostName : Pattern :=
  .concat (.star true (.chars fun c => 'a' ≤ c ∧ c ≤ 'z')) (.concat (.chars (· = '.'))
    (.alternation (.concat (.chars (· = 'c')) (.concat (.chars (· = 'o')) (.chars (· = 'm'))))
      (.concat (.chars (· = 'd')) (.chars (· = 'e')))))

def shortFirst : Pattern :=
  .alternation (.chars (· = 'a')) (.concat (.chars (· = 'a')) (.chars (· = 'b')))

end Pattern

end RustCfml.Sanitize
