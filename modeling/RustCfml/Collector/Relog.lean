import Mathlib

/-!
# The re-log walk

`relog_cycle_nodes` enters the containers below a displaced value into the collector's log, up to a
budget. It is said to follow the edges that the collector classifies, and **follows fewer**: what is
held by a native object, such as the value of a resolved future, it does not see. And the budget is
read at the head of the loop but spent inside it: a component would spend one for every captured
scope, and past zero a `usize` wraps.
-/

namespace RustCfml.Relog

open List

mutual

inductive Value (A : Type) where
  | scalar
  | handle (a : A)
  | function (f : Function A)
  | component (properties : List (Value A)) (methods : List (Function A))
  | closure (capturedVars body : List (Value A))
  | column (cells : List (Value A))
  | native (values : List (Value A))

inductive Function (A : Type) where
  | mk (capturedScope : Option A) (defaults body : List (Value A))

end

variable {A : Type}

def Function.capturedScope : Function A → Option A
  | .mk scope _ _ => scope

/-- What a container holds: the values the walk looks at, and the ones only the collector does (an
instance's native parent, and its data maps where they are nodes of their own). -/
structure Node (A : Type) where
  values : List (Value A)
  hidden : List (Value A)

mutual

def classify : Value A → List A
  | .scalar => []
  | .handle a => [a]
  | .function f => classifyFunction f
  | .component properties methods => classifyAll properties ++ classifyFunctions methods
  | .closure capturedVars body => classifyAll capturedVars ++ classifyAll body
  | .column cells => classifyAll cells
  | .native values => classifyAll values

def classifyFunction : Function A → List A
  | .mk scope defaults body => scope.toList ++ (classifyAll defaults ++ classifyAll body)

def classifyFunctions : List (Function A) → List A
  | [] => []
  | f :: fs => classifyFunction f ++ classifyFunctions fs

def classifyAll : List (Value A) → List A
  | [] => []
  | v :: vs => classify v ++ classifyAll vs

end

/-- A container lies below the value, by the edges the collector follows. -/
inductive Reaches (heap : A → Node A) (v : Value A) : A → Prop where
  | start {a : A} (h : a ∈ classify v) : Reaches heap v a
  | step {a b : A} (h : Reaches heap v a) {w : Value A}
      (hw : w ∈ (heap a).values ++ (heap a).hidden) (hb : b ∈ classify w) : Reaches heap v b

structure Walk (A : Type) where
  budget : UInt64
  /-- The containers of `relog_first_sight`, which are those entered. -/
  entered : List A
  stack : List (Value A)

section

variable [DecidableEq A] (heap : A → Node A)

def push (w : Walk A) (vs : List (Value A)) : Walk A := { w with stack := vs.reverse ++ w.stack }

def enter (w : Walk A) (a : A) : Walk A :=
  if a ∈ w.entered then w
  else push { w with budget := w.budget - 1, entered := a :: w.entered } (heap a).values

def visit (w : Walk A) : Value A → Walk A
  | .handle a => enter heap w a
  | .function f => f.capturedScope.toList.foldl (enter heap) w
  | .component properties methods =>
    (methods.filterMap Function.capturedScope).foldl (enter heap) (push w properties)
  | .closure capturedVars _ => push w capturedVars
  | .column cells => push w cells
  | _ => w

def step (w : Walk A) : Option (Walk A) :=
  match w.stack with
  | [] => none
  | v :: rest => if w.budget = 0 then none else some (visit heap { w with stack := rest } v)

def walk : Nat → Walk A → Walk A
  | 0, w => w
  | n + 1, w =>
    match step heap w with
    | none => w
    | some w' => walk n w'

def started (budget : UInt64) (v : Value A) : Walk A := ⟨budget, [], [v]⟩

end

def enters : Value A → List A
  | .handle a => [a]
  | .function f => f.capturedScope.toList
  | .component _ methods => methods.filterMap Function.capturedScope
  | _ => []

def opens : Value A → List (Value A)
  | .component properties _ => properties
  | .closure capturedVars _ => capturedVars
  | .column cells => cells
  | _ => []

lemma visit_eq [DecidableEq A] (heap : A → Node A) (w : Walk A) (v : Value A) :
    visit heap w v = (enters v).foldl (enter heap) (push w (opens v)) := by
  cases v <;> rfl

mutual

/-- The containers that a value brings into the walk's sight. -/
def sight : Value A → List A
  | .handle a => [a]
  | .function f => f.capturedScope.toList
  | .component properties methods =>
    methods.filterMap Function.capturedScope ++ sightAll properties
  | .closure capturedVars _ => sightAll capturedVars
  | .column cells => sightAll cells
  | _ => []

def sightAll : List (Value A) → List A
  | [] => []
  | v :: vs => sight v ++ sightAll vs

end

/-- A container lies below the value, by the edges the walk follows. -/
inductive Sees (heap : A → Node A) (v : Value A) : A → Prop where
  | start {a : A} (h : a ∈ sight v) : Sees heap v a
  | step {a b : A} (h : Sees heap v a) {w : Value A} (hw : w ∈ (heap a).values)
      (hb : b ∈ sight w) : Sees heap v b

/-- No turn has two containers to enter: the methods of a component captured one scope at most. -/
inductive Walkable : Value A → Prop where
  | mk {v : Value A} (values : ∀ u ∈ opens v, Walkable u)
      (one : ∀ a ∈ enters v, ∀ b ∈ enters v, a = b) : Walkable v

/-- The start and what the containers below it hold can be walked. -/
structure WalkableFrom (heap : A → Node A) (v : Value A) : Prop where
  value : Walkable v
  values : ∀ a, Sees heap v a → ∀ u ∈ (heap a).values, Walkable u

lemma mem_sightAll {vs : List (Value A)} {a : A} : a ∈ sightAll vs ↔ ∃ v ∈ vs, a ∈ sight v := by
  induction vs with
  | nil => simp [sightAll]
  | cons v vs ih => simp [sightAll, ih]

lemma mem_sight {v : Value A} {a : A} : a ∈ sight v ↔ a ∈ enters v ∨ a ∈ sightAll (opens v) := by
  cases v <;> simp [sight, sightAll, enters, opens]

lemma mem_classifyFunctions {fs : List (Function A)} {a : A}
    (h : a ∈ fs.filterMap Function.capturedScope) : a ∈ classifyFunctions fs := by
  induction fs with
  | nil => cases h
  | cons f fs ih =>
    obtain ⟨scope, defaults, body⟩ := f
    rw [classifyFunctions, mem_append, classifyFunction]
    cases scope with
    | none => exact .inr (ih h)
    | some b =>
      rcases mem_cons.1 h with rfl | h
      · exact .inl (by simp)
      · exact .inr (ih h)

mutual

/-- What the walk sees the collector sees. -/
theorem classify_of_sight : ∀ (v : Value A) {a : A}, a ∈ sight v → a ∈ classify v
  | .scalar, _, h => by cases h
  | .handle _, _, h => h
  | .function (.mk scope _ _), _, h => by
    rw [classify, classifyFunction]
    exact mem_append_left _ h
  | .component properties methods, _, h => by
    rw [classify, mem_append]
    rcases mem_append.1 h with h | h
    · exact .inr (mem_classifyFunctions h)
    · exact .inl (classifyAll_of_sightAll properties h)
  | .closure capturedVars _, _, h => by
    rw [classify]
    exact mem_append_left _ (classifyAll_of_sightAll capturedVars h)
  | .column cells, _, h => classifyAll_of_sightAll cells h
  | .native _, _, h => by cases h

theorem classifyAll_of_sightAll : ∀ (vs : List (Value A)) {a : A},
    a ∈ sightAll vs → a ∈ classifyAll vs
  | [], _, h => by cases h
  | v :: vs, _, h => by
    rw [classifyAll, mem_append]
    rcases mem_append.1 h with h | h
    · exact .inl (classify_of_sight v h)
    · exact .inr (classifyAll_of_sightAll vs h)

end

lemma Sees.reaches {heap : A → Node A} {v : Value A} {a : A} (h : Sees heap v a) :
    Reaches heap v a := by
  induction h with
  | start h => exact .start (classify_of_sight v h)
  | step _ hw hb ih => exact .step ih (mem_append_left _ hw) (classify_of_sight _ hb)

lemma sizeOf_opens (v : Value A) : sizeOf (opens v) ≤ sizeOf v := by
  cases v <;> simp [opens] <;> omega

/-! ## One turn -/

section

variable {heap : A → Node A} {start : Value A}

def Covered (w : Walk A) (a : A) : Prop := a ∈ w.entered ∨ ∃ v ∈ w.stack, a ∈ sight v

structure Inv (heap : A → Node A) (start : Value A) (budget : Nat) (w : Walk A) : Prop where
  spent : w.entered.length + w.budget.toNat = budget
  nodup : w.entered.Nodup
  walkable : ∀ v ∈ w.stack, Walkable v
  below : ∀ a, Covered w a → Sees heap start a

/-- Nothing is lost from one state to the next, and what is entered has its contents covered. -/
structure Takes (heap : A → Node A) (w w' : Walk A) : Prop where
  mono : ∀ b, Covered w b → Covered w' b
  fresh : ∀ a ∈ w'.entered, a ∈ w.entered ∨ ∀ v ∈ (heap a).values, ∀ b ∈ sight v, Covered w' b

lemma Takes.refl (w : Walk A) : Takes heap w w := ⟨fun _ h => h, fun _ h => .inl h⟩

lemma Takes.trans {w w1 w2 : Walk A} (h : Takes heap w w1) (h' : Takes heap w1 w2) :
    Takes heap w w2 := by
  refine ⟨fun b hb => h'.mono b (h.mono b hb), fun a ha => ?_⟩
  rcases h'.fresh a ha with ha | ha
  · exact (h.fresh a ha).imp_right fun hbelow v hv b hb => h'.mono b (hbelow v hv b hb)
  · exact .inr ha

variable {budget : Nat} {w : Walk A}

lemma Inv.push (h : Inv heap start budget w) {vs : List (Value A)} (hvs : ∀ v ∈ vs, Walkable v)
    (hbelow : ∀ a ∈ sightAll vs, Sees heap start a) : Inv heap start budget (push w vs) ∧
    Takes heap w (Relog.push w vs) ∧ ∀ a ∈ sightAll vs, Covered (Relog.push w vs) a := by
  refine ⟨⟨h.spent, h.nodup, fun v hv => ?_, ?_⟩, ⟨?_, fun a ha => .inl ha⟩, fun a ha => ?_⟩
  · rcases mem_append.1 hv with hv | hv
    · exact hvs v (mem_reverse.1 hv)
    · exact h.walkable v hv
  · rintro a (ha | ⟨v, hv, ha⟩)
    · exact h.below a (.inl ha)
    · rcases mem_append.1 hv with hv | hv
      · exact hbelow a (mem_sightAll.2 ⟨v, mem_reverse.1 hv, ha⟩)
      · exact h.below a (.inr ⟨v, hv, ha⟩)
  · rintro a (ha | ⟨v, hv, ha⟩)
    · exact .inl ha
    · exact .inr ⟨v, mem_append_right _ hv, ha⟩
  · obtain ⟨v, hv, hav⟩ := mem_sightAll.1 ha
    exact .inr ⟨v, mem_append_left _ (mem_reverse.2 hv), hav⟩

lemma sizeOf_reverse_append (vs rest : List (Value A)) :
    sizeOf (vs.reverse ++ rest) + 1 = sizeOf vs + sizeOf rest := by
  induction vs generalizing rest with
  | nil => simp; omega
  | cons v vs ih =>
    have h := ih (v :: rest)
    simp [reverse_cons, List.cons.sizeOf_spec] at h ⊢
    omega

variable [DecidableEq A]

lemma Inv.enter (hwalk : WalkableFrom heap start) (h : Inv heap start budget w) (hb : w.budget ≠ 0)
    {a : A} (ha : Sees heap start a) :
    Inv heap start budget (enter heap w a) ∧ Takes heap w (Relog.enter heap w a) := by
  unfold Relog.enter
  split
  · exact ⟨h, .refl w⟩
  · next hnew =>
    have hpos : 1 ≤ w.budget.toNat := by
      rw [Nat.one_le_iff_ne_zero]
      exact fun hzero => hb (UInt64.toNat_inj.1 hzero)
    have hspend : (w.budget - 1).toNat = w.budget.toNat - 1 :=
      UInt64.toNat_sub_of_le _ _ (UInt64.le_iff_toNat_le.2 hpos)
    have hmid : Inv heap start budget ⟨w.budget - 1, a :: w.entered, w.stack⟩ := by
      refine ⟨?_, nodup_cons.2 ⟨hnew, h.nodup⟩, h.walkable, ?_⟩
      · have := h.spent
        simp [hspend]
        omega
      · rintro b (hb | hb)
        · exact (mem_cons.1 hb).elim (fun heq => heq ▸ ha) fun hb => h.below b (.inl hb)
        · exact h.below b (.inr hb)
    have hbelow : ∀ b ∈ sightAll (heap a).values, Sees heap start b := by
      intro b hb
      obtain ⟨v, hv, hb⟩ := mem_sightAll.1 hb
      exact .step ha hv hb
    obtain ⟨hinv, htakes, hin⟩ := hmid.push (hwalk.values a ha) hbelow
    refine ⟨hinv, fun b hb => htakes.mono b (hb.imp_left (mem_cons_of_mem _)), fun c hc => ?_⟩
    rcases mem_cons.1 hc with rfl | hc
    · exact .inr fun v hv b hb => hin b (mem_sightAll.2 ⟨v, hv, hb⟩)
    · exact .inl hc

variable (heap) in
lemma mem_entered_enter (w : Walk A) (a : A) : a ∈ (enter heap w a).entered := by
  unfold enter
  split
  · next hmem => exact hmem
  · exact mem_cons_self

variable {as : List A} {v : Value A} {w' : Walk A}

lemma foldl_enter_of_mem (h : ∀ a ∈ as, a ∈ w.entered) : as.foldl (enter heap) w = w := by
  induction as with
  | nil => rfl
  | cons a as ih =>
    rw [foldl_cons, enter, if_pos (h a mem_cons_self)]
    exact ih (forall_mem_cons.1 h).2

variable (heap w) in
lemma foldl_enter (one : ∀ a ∈ as, ∀ b ∈ as, a = b) :
    as = [] ∨ ∃ a ∈ as, as.foldl (enter heap) w = enter heap w a := by
  cases as with
  | nil => exact .inl rfl
  | cons a as =>
    refine .inr ⟨a, mem_cons_self, ?_⟩
    rw [foldl_cons]
    refine foldl_enter_of_mem fun b hb => ?_
    rw [one b (mem_cons_of_mem _ hb) a mem_cons_self]
    exact mem_entered_enter heap w a

lemma Inv.enters (hwalk : WalkableFrom heap start) (h : Inv heap start budget w) (hb : w.budget ≠ 0)
    (one : ∀ a ∈ as, ∀ b ∈ as, a = b) (hbelow : ∀ a ∈ as, Sees heap start a) :
    Inv heap start budget (as.foldl (Relog.enter heap) w) ∧
    Takes heap w (as.foldl (Relog.enter heap) w) ∧
      ∀ a ∈ as, Covered (as.foldl (Relog.enter heap) w) a := by
  rcases foldl_enter heap w one with rfl | ⟨a, ha, heq⟩
  · exact ⟨h, .refl w, fun a ha => by cases ha⟩
  · rw [heq]
    obtain ⟨hinv, htakes⟩ := h.enter hwalk hb (hbelow a ha)
    exact ⟨hinv, htakes, fun b hmem => .inl (one a ha b hmem ▸ mem_entered_enter heap w a)⟩

lemma Inv.visit (hwalk : WalkableFrom heap start) (h : Inv heap start budget w) (hb : w.budget ≠ 0)
    (hv : Walkable v)
    (hbelow : ∀ a ∈ sight v, Sees heap start a) : Inv heap start budget (visit heap w v) ∧
    Takes heap w (Relog.visit heap w v) ∧ ∀ a ∈ sight v, Covered (Relog.visit heap w v) a := by
  obtain ⟨values, one⟩ := hv
  rw [visit_eq]
  obtain ⟨hinv, htakes, hin⟩ := h.push values fun a ha => hbelow a (mem_sight.2 (.inr ha))
  obtain ⟨hinv', htakes', hin'⟩ :=
    hinv.enters hwalk hb one fun a ha => hbelow a (mem_sight.2 (.inl ha))
  refine ⟨hinv', htakes.trans htakes', fun a ha => ?_⟩
  exact (mem_sight.1 ha).elim (hin' a) fun ha => htakes'.mono a (hin a ha)

lemma step_eq_some (h : step heap w = some w') : ∃ v rest, w.stack = v :: rest ∧
    w.budget ≠ 0 ∧ w' = visit heap ⟨w.budget, w.entered, rest⟩ v := by
  unfold step at h
  split at h
  · cases h
  · next v rest hstack =>
    split at h
    · cases h
    · next hb => exact ⟨v, rest, hstack, hb, (Option.some.inj h).symm⟩

lemma Inv.step (hwalk : WalkableFrom heap start) (h : Inv heap start budget w)
    (hstep : step heap w = some w') : Inv heap start budget w' ∧ Takes heap w w' := by
  obtain ⟨v, rest, hstack, hb, rfl⟩ := step_eq_some hstep
  have hmem : ∀ u ∈ rest, u ∈ w.stack := fun u hu => hstack ▸ mem_cons_of_mem _ hu
  have hv : v ∈ w.stack := hstack ▸ mem_cons_self
  have hrest : Inv heap start budget ⟨w.budget, w.entered, rest⟩ :=
    ⟨h.spent, h.nodup, fun u hu => h.walkable u (hmem u hu), fun a ha =>
      h.below a (ha.imp_right fun ⟨u, hu, hau⟩ => ⟨u, hmem u hu, hau⟩)⟩
  obtain ⟨hinv, htakes, hin⟩ :=
    hrest.visit hwalk hb (h.walkable v hv) fun a ha => h.below a (.inr ⟨v, hv, ha⟩)
  refine ⟨hinv, ⟨?_, htakes.fresh⟩⟩
  -- what lay below the value taken off is what its visit covers
  rintro b (hb | ⟨u, hu, hb⟩)
  · exact htakes.mono b (.inl hb)
  · rw [hstack] at hu
    rcases mem_cons.1 hu with rfl | hu
    · exact hin b hb
    · exact htakes.mono b (.inr ⟨u, hu, hb⟩)

lemma Inv.walk (hwalk : WalkableFrom heap start) : ∀ (n : Nat) {w : Walk A},
    Inv heap start budget w →
    Inv heap start budget (walk heap n w) ∧ Takes heap w (Relog.walk heap n w)
  | 0, w, h => ⟨h, .refl w⟩
  | n + 1, w, h => by
    rw [Relog.walk]
    split
    · exact ⟨h, .refl w⟩
    · next w' hstep =>
      obtain ⟨hinv, htakes⟩ := h.step hwalk hstep
      obtain ⟨hinv', htakes'⟩ := Inv.walk hwalk n hinv
      exact ⟨hinv', htakes.trans htakes'⟩

variable (heap) in
lemma entered_enters (w : Walk A) (one : ∀ a ∈ as, ∀ b ∈ as, a = b) :
    as.foldl (enter heap) w = w ∨ (as.foldl (enter heap) w).entered.length =
    w.entered.length + 1 := by
  rcases foldl_enter heap w one with rfl | ⟨a, -, heq⟩
  · exact .inl rfl
  · rw [heq, enter]
    split
    · exact .inl rfl
    · exact .inr rfl

variable (heap) in
lemma visit_progress (w : Walk A) (hv : Walkable v) :
    (visit heap w v).entered.length = w.entered.length + 1 ∨
      (visit heap w v).entered = w.entered ∧
      sizeOf (visit heap w v).stack < sizeOf (v :: w.stack) := by
  obtain ⟨-, one⟩ := hv
  rw [visit_eq]
  rcases entered_enters heap (push w (opens v)) one with heq | hlen
  · rw [heq]
    refine .inr ⟨rfl, ?_⟩
    have hsize := sizeOf_reverse_append (opens v) w.stack
    have hopens := sizeOf_opens v
    rw [List.cons.sizeOf_spec]
    show sizeOf ((opens v).reverse ++ w.stack) < _
    omega
  · exact .inl hlen

lemma walk_ends (hwalk : WalkableFrom heap start) {S : Finset A}
    (hS : ∀ a, Sees heap start a → a ∈ S)
    (hbudget : S.card < budget) : ∀ (left size : Nat) {w : Walk A}, Inv heap start budget w →
      S.card - w.entered.length = left → sizeOf w.stack = size →
      ∃ n, (walk heap n w).stack = [] := by
  have hcard : ∀ {w : Walk A}, Inv heap start budget w → w.entered.length ≤ S.card := by
    intro w h
    rw [← toFinset_card_of_nodup h.nodup]
    exact Finset.card_le_card fun a ha => hS a (h.below a (.inl (List.mem_toFinset.1 ha)))
  intro left
  induction left using Nat.strong_induction_on with
  | _ left ihleft =>
    intro size
    induction size using Nat.strong_induction_on with
    | _ size ihsize =>
      intro w h hleft hsize
      rcases hstack : w.stack with _ | ⟨v, rest⟩
      · exact ⟨0, hstack⟩
      · have hspent := h.spent
        have hlen := hcard h
        have hb : w.budget ≠ 0 := by
          intro hzero
          rw [hzero] at hspent
          exact absurd hspent (by simp; omega)
        obtain ⟨w', hstep⟩ : ∃ w', step heap w = some w' := by
          unfold step
          rw [hstack]
          exact ⟨_, if_neg hb⟩
        obtain ⟨hinv, -⟩ := h.step hwalk hstep
        have hlen' := hcard hinv
        have hnext : ∃ n, (walk heap n w').stack = [] := by
          obtain ⟨v', rest', hstack', -, hw'⟩ := step_eq_some hstep
          have hv' : Walkable v' := h.walkable v' (hstack' ▸ mem_cons_self)
          have hprogress := visit_progress heap ⟨w.budget, w.entered, rest'⟩ hv'
          rw [← hw', ← hstack'] at hprogress
          rcases hprogress with hmore | ⟨hsame, hlt⟩
          · dsimp only at hmore
            exact ihleft _ (by omega) _ hinv rfl rfl
          · exact ihsize _ (by omega) hinv (by rw [hsame]; exact hleft) rfl
        obtain ⟨n, hn⟩ := hnext
        refine ⟨n + 1, ?_⟩
        rw [walk, hstep]
        exact hn

end

/-- A struct that holds a closure over another one, and that one the first. -/
def mutualHolding : Fin 2 → Node (Fin 2) := fun a =>
  if a = 0 then ⟨[.closure [.scalar, .handle 1] []], []⟩ else ⟨[.handle 0], []⟩

def empties : Fin 2 → Node (Fin 2) := fun _ => ⟨[], []⟩

/-- A resolved future: a native object that holds its value. -/
def resolvedFuture : Value (Fin 2) := .native [.handle 0]

end RustCfml.Relog
