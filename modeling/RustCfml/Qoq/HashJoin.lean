import RustCfml.Qoq.Engine
import RustCfml.Qoq.SortOrder

/-!
# The hash-join chain against the nested loops

The detector accepts a chain of inner joins whose every `ON` is one equality of two bound columns,
or a comma join whose `WHERE` has such an equality for each new table. **Both ways make the same
combinations in the same order up to the test they apply** (`hashJoinChain_eq`, `nestedLoop_eq`);
what is left is a question about single rows: on which of them do the keys and the `ON` conditions
disagree, and does the `WHERE` clause drop them?
-/

namespace RustCfml.Qoq

open RowProduct List Option

/-! ## Detector and driver -/

section

variable {ω : Type}

/-- Column `lc` of table `lt` against column `rc` of table `rt`. -/
structure Equi where
  lt : Nat
  lc : Nat
  rt : Nat
  rc : Nat
  deriving DecidableEq

def equiPair : Expr ω → Option Equi
  | .binary (.resolvedColumn lt lc) .eq (.resolvedColumn rt rc) =>
    if lt ≠ rt then some ⟨lt, lc, rt, rc⟩ else none
  | _ => none

def collectEquiConjuncts : Expr ω → List Equi
  | .binary left .and right => collectEquiConjuncts left ++ collectEquiConjuncts right
  | e => (equiPair e).toList

/-- The pair as a probe for join `k`, the new table on the right. -/
def Equi.probe (k : Nat) (e : Equi) : Option Equi :=
  if e.lt = k + 1 ∧ e.rt ≤ k then some ⟨e.rt, e.rc, e.lt, e.lc⟩
  else if e.rt = k + 1 ∧ e.lt ≤ k then some e
  else none

def onProbes : Nat → List (Join ω) → Option (List Equi)
  | _, [] => some []
  | k, j :: js => do
    let pair ← j.on.bind equiPair
    let p ← pair.probe k
    let ps ← onProbes (k + 1) js
    return p :: ps

/-- The first conjunct, not used yet, that links table `k + 1` to an earlier one. -/
def takeProbe (k : Nat) : List (Equi × Bool) → Option (Equi × List (Equi × Bool))
  | [] => none
  | (e, used) :: rest =>
    match if used then none else e.probe k with
    | some p => some (p, (e, true) :: rest)
    | none => (takeProbe k rest).map fun (p, rest') => (p, (e, used) :: rest')

/-- Pattern 2: one conjunct of the `WHERE` clause for each of the `n` tables from `k + 1` on. -/
def whereProbes : (n k : Nat) → List (Equi × Bool) → Option (List Equi)
  | 0, _, _ => some []
  | n + 1, k, conjuncts => do
    let (p, conjuncts') ← takeProbe k conjuncts
    let ps ← whereProbes n (k + 1) conjuncts'
    return p :: ps

def explicitProbes (core : SelectCore ω) : Option (List Equi) :=
  if core.joins.all fun j => j.joinType = .inner && j.on.isSome then onProbes 0 core.joins else none

def commaProbes (core : SelectCore ω) : Option (List Equi) :=
  let whereEq := (core.whereClause.map collectEquiConjuncts).getD []
  if core.joins.all fun j => j.joinType = .cross && j.on.isNone then
    if whereEq.isEmpty then none
    else whereProbes core.joins.length 0 (whereEq.map fun e => (e, false))
  else none

/-- The detector of `try_hash_join_chain`. -/
def probes (core : SelectCore ω) : Option (List Equi) :=
  if core.joins.isEmpty then none else (explicitProbes core).or (commaProbes core)

namespace Engine

variable (E : Engine ω)

def cellKey (tables : TableSet) (inter : Intersection) (ti ci : Nat) : List Char :=
  groupKey E.platform (tables.value inter ti ci)

/-- One probe: index the new table by key, then look every row in hand up. -/
def hashJoinStep (tables : TableSet) (inters : List Intersection) (p : Equi) : List Intersection :=
  match tables[p.rt]? with
  | none => []
  | some right =>
    let idx := indexBy (fun r => groupKey E.platform (right.get r p.rc)) (rowNumbers right.rowCount)
    inters.flatMap fun inter =>
      match indexGet idx (E.cellKey tables inter p.lt p.lc) with
      | some rows => rows.map fun r => inter ++ [r]
      | none => []

def hashJoinChain (core : SelectCore ω) (ps : List Equi) : List Intersection :=
  ps.foldl (E.hashJoinStep core.tables) ((rowNumbers core.first.rowCount).map fun r => [r])

def maxIntersections : Nat := 30000000

def buildCoreIntersections (core : SelectCore ω) : Except String (List Intersection) :=
  match probes core with
  | some ps => .ok (E.hashJoinChain core ps)
  | none => E.nestedLoop core maxIntersections

end Engine

/-! ## What the detector accepts -/

def ProbesFrom : Nat → List Equi → Prop
  | _, [] => True
  | k, p :: ps => p.lt ≤ k ∧ p.rt = k + 1 ∧ ProbesFrom (k + 1) ps

def JoinsFrom : Nat → List (Join ω) → Prop
  | _, [] => True
  | k, j :: js =>
    ((j.joinType = .inner ∧ ∃ e, j.on.bind equiPair = some e ∧ e.lt < k + 2 ∧ e.rt < k + 2) ∨
      (j.joinType = .cross ∧ j.on = none)) ∧ JoinsFrom (k + 1) js

lemma Equi.probe_spec {k : Nat} {e p : Equi} (h : e.probe k = some p) :
    (p.lt ≤ k ∧ p.rt = k + 1) ∧ e.lt < k + 2 ∧ e.rt < k + 2 := by
  rw [Equi.probe] at h
  split at h
  · cases h
    dsimp only
    omega
  · split at h
    · cases h
      omega
    · cases h

lemma onProbes_spec : ∀ {js : List (Join ω)} {k : Nat} {ps : List Equi},
    (∀ j ∈ js, j.joinType = .inner) →
    onProbes k js = some ps → ProbesFrom k ps ∧ ps.length = js.length ∧ JoinsFrom k js := by
  intro js
  induction js with
  | nil =>
    intro k ps _ h
    cases h
    exact ⟨trivial, rfl, trivial⟩
  | cons j js ih =>
    intro k ps hinner h
    rw [onProbes] at h
    obtain ⟨e, he, h⟩ := bind_eq_some_iff.1 h
    obtain ⟨p, hp, h⟩ := bind_eq_some_iff.1 h
    obtain ⟨ps', hps', h⟩ := bind_eq_some_iff.1 h
    cases h
    obtain ⟨⟨hlt, hrt⟩, hcols⟩ := Equi.probe_spec hp
    obtain ⟨hfrom, hlen, hjoins⟩ := ih (fun j' hj' => hinner j' (mem_cons_of_mem _ hj')) hps'
    exact ⟨⟨hlt, hrt, hfrom⟩, congrArg (· + 1) hlen, .inl ⟨hinner j mem_cons_self, e, he, hcols⟩,
      hjoins⟩

lemma takeProbe_spec {k : Nat} : ∀ {cs cs' : List (Equi × Bool)} {p : Equi},
    takeProbe k cs = some (p, cs') → p.lt ≤ k ∧ p.rt = k + 1 := by
  intro cs
  induction cs with
  | nil => intro cs' p h; cases h
  | cons c rest ih =>
    intro cs' p h
    obtain ⟨e, used⟩ := c
    rw [takeProbe] at h
    split at h
    · next p' hp' =>
      cases h
      cases used with
      | true => cases hp'
      | false => exact (Equi.probe_spec hp').1
    · obtain ⟨⟨p', rest'⟩, htake, heq⟩ := map_eq_some_iff.1 h
      cases heq
      exact ih htake

lemma whereProbes_spec : ∀ {n k : Nat} {cs : List (Equi × Bool)} {ps : List Equi},
    whereProbes n k cs = some ps → ProbesFrom k ps ∧ ps.length = n := by
  intro n
  induction n with
  | zero =>
    intro k cs ps h
    cases h
    exact ⟨trivial, rfl⟩
  | succ n ih =>
    intro k cs ps h
    rw [whereProbes] at h
    obtain ⟨⟨p, cs'⟩, htake, h⟩ := bind_eq_some_iff.1 h
    obtain ⟨ps', hps', h⟩ := bind_eq_some_iff.1 h
    cases h
    obtain ⟨hlt, hrt⟩ := takeProbe_spec htake
    obtain ⟨hfrom, hlen⟩ := ih hps'
    exact ⟨⟨hlt, hrt, hfrom⟩, congrArg (· + 1) hlen⟩

lemma joinsFrom_of_cross : ∀ {js : List (Join ω)} {k : Nat},
    (∀ j ∈ js, j.joinType = .cross ∧ j.on = none) → JoinsFrom k js
  | [], _, _ => trivial
  | j :: _, _, h =>
    ⟨.inr (h j mem_cons_self), joinsFrom_of_cross fun j' hj' => h j' (mem_cons_of_mem _ hj')⟩

lemma probes_spec {core : SelectCore ω} {ps : List Equi} (h : probes core = some ps) :
    ProbesFrom 0 ps ∧ ps.length = core.joins.length ∧ JoinsFrom 0 core.joins := by
  rw [probes] at h
  split at h
  · cases h
  · rcases or_eq_some_iff.1 h with h | ⟨_, h⟩
    · rw [explicitProbes] at h
      split at h
      · next hall =>
        refine onProbes_spec (fun j hj => ?_) h
        have := List.all_eq_true.1 hall j hj
        simp at this
        exact this.1
      · cases h
    · rw [commaProbes] at h
      split at h
      · next hall =>
        split at h
        · cases h
        · obtain ⟨hfrom, hlen⟩ := whereProbes_spec h
          refine ⟨hfrom, hlen, joinsFrom_of_cross fun j hj => ?_⟩
          have := List.all_eq_true.1 hall j hj
          simpa only [Bool.and_eq_true, decide_eq_true_eq, isNone_iff_eq_none] using this
      · cases h

/-! ## Both ways, as filters of one product -/

def layer (j : Join ω) (keep : Intersection → Bool) : Layer Nat :=
  ⟨rowNumbers j.table.rowCount, keep⟩

def combinations (core : SelectCore ω) : List Intersection :=
  growAll (core.joins.map fun j => layer j fun _ => true)
    ((rowNumbers core.first.rowCount).map fun r => [r])

lemma TableSet.value_take (tables : TableSet) (inter : Intersection) {n ti : Nat} (ci : Nat)
    (h : ti < n) : TableSet.value tables (inter.take n) ti ci = tables.value inter ti ci := by
  rw [TableSet.value, TableSet.value, getElem?_take_of_lt h]

namespace Engine

variable (E : Engine ω)

def keyEqual (tables : TableSet) (p : Equi) (inter : Intersection) : Bool :=
  E.cellKey tables inter p.lt p.lc = E.cellKey tables inter p.rt p.rc

variable {j : Join ω} {k : Nat} {core : SelectCore ω}

variable {p e : Equi} {ps : List Equi}

lemma hashJoinStep_eq {tables : TableSet} (hj : tables[k + 1]? = some j.table) (hlt : p.lt ≤ k)
    (hrt : p.rt = k + 1)
    {inters : List Intersection} (hlen : ∀ inter ∈ inters, inter.length = k + 1) :
    E.hashJoinStep tables inters p = grow (layer j (E.keyEqual tables p)) inters := by
  rw [hashJoinStep, hrt, hj]
  show inters.flatMap _ = inters.flatMap _
  refine flatMap_congr fun inter hmem => ?_
  have hwidth : inter.length = k + 1 := hlen inter hmem
  -- the row just appended is the one the right-hand key is read from
  have hright : ∀ r, E.cellKey tables (inter ++ [r]) p.rt p.rc =
      groupKey E.platform (j.table.get r p.rc) := by
    intro r
    rw [cellKey, TableSet.value, hrt, hj, ← hwidth, getElem?_concat_length]
    rfl
  have hleft : ∀ r, E.cellKey tables (inter ++ [r]) p.lt p.lc =
      E.cellKey tables inter p.lt p.lc := by
    intro r
    rw [cellKey, ← TableSet.value_take tables (inter ++ [r]) p.lc (Nat.lt_succ_of_le hlt),
      take_append_of_le_length (by rw [hwidth]), take_of_length_le (by rw [hwidth])]
    rfl
  have hget := indexGet_indexBy (fun r => groupKey E.platform (j.table.get r p.rc))
    (rowNumbers j.table.rowCount) (E.cellKey tables inter p.lt p.lc)
  calc
    _ = ((indexGet (indexBy (fun r => groupKey E.platform (j.table.get r p.rc))
          (rowNumbers j.table.rowCount)) (E.cellKey tables inter p.lt p.lc)).getD []).map
            fun r => inter ++ [r] := by
      cases indexGet (indexBy (fun r => groupKey E.platform (j.table.get r p.rc))
        (rowNumbers j.table.rowCount)) (E.cellKey tables inter p.lt p.lc) <;> rfl
    _ = _ := by
      rw [hget]
      show _ = List.filter _ ((rowNumbers j.table.rowCount).map _)
      rw [List.filter_map]
      congr 1
      refine filter_congr fun r _ => ?_
      show _ = decide (E.cellKey tables (inter ++ [r]) p.lt p.lc =
        E.cellKey tables (inter ++ [r]) p.rt p.rc)
      rw [hleft r, hright r]
      exact decide_eq_decide.2 eq_comm

variable (tables : TableSet)

lemma foldl_hashJoinStep : ∀ {ps : List Equi} {js : List (Join ω)} {k : Nat}
    {inters : List Intersection}, ProbesFrom k ps → ps.length = js.length →
      tables.drop (k + 1) = js.map Join.table → (∀ inter ∈ inters, inter.length = k + 1) →
        ps.foldl (E.hashJoinStep tables) inters =
          growAll (js.zipWith (fun j p => layer j (E.keyEqual tables p)) ps) inters := by
  intro ps
  induction ps with
  | nil =>
    intro js k inters _ hlen _ _
    cases js with
    | nil => rfl
    | cons j js => cases hlen
  | cons p ps ih =>
    intro js k inters hps hlen htables hwidth
    cases js with
    | nil => cases hlen
    | cons j js =>
      obtain ⟨hlt, hrt, hps⟩ := hps
      have hj : tables[k + 1]? = some j.table := by
        have := congrArg (·[0]?) htables
        simpa using this
      have hdrop : tables.drop (k + 1 + 1) = js.map Join.table := by
        have := congrArg tail htables
        simpa using this
      rw [foldl_cons, E.hashJoinStep_eq hj hlt hrt hwidth]
      exact ih hps (Nat.succ.inj hlen) hdrop (length_of_mem_grow hwidth)

lemma keyEqual_take {n : Nat} (hl : p.lt < n) (hr : p.rt < n)
    (inter : Intersection) : E.keyEqual tables p (inter.take n) = E.keyEqual tables p inter := by
  rw [keyEqual, keyEqual, cellKey, cellKey, cellKey, cellKey, TableSet.value_take _ _ _ hl,
    TableSet.value_take _ _ _ hr]

lemma passes_keyEqual (tables : TableSet) (inter : Intersection) :
    ∀ {ps : List Equi} {js : List (Join ω)} {k : Nat}, ProbesFrom k ps → ps.length = js.length →
      passes (k + 1) (js.zipWith (fun j p => layer j (E.keyEqual tables p)) ps) inter =
        ps.all fun p => E.keyEqual tables p inter
  | [], [], _, _, _ => rfl
  | p :: ps, j :: js, k, hps, hlen => by
    obtain ⟨hlt, hrt, hps⟩ := hps
    show (E.keyEqual tables p (inter.take (k + 1 + 1)) && _) = (E.keyEqual tables p inter && _)
    rw [E.keyEqual_take tables (Nat.lt_succ_of_lt (Nat.lt_succ_of_le hlt))
      (by rw [hrt]; exact Nat.lt_succ_self _)]
    exact congrArg _ (passes_keyEqual tables inter hps (Nat.succ.inj hlen))

lemma free_keyLayers (tables : TableSet) : ∀ {ps : List Equi} {js : List (Join ω)},
    ps.length = js.length → (js.zipWith (fun j p => layer j (E.keyEqual tables p)) ps).map .free =
        js.map fun j => layer j fun _ => true
  | [], [], _ => rfl
  | _ :: _, _ :: _, hlen => congrArg _ (free_keyLayers tables (Nat.succ.inj hlen))

lemma length_seed (n : Nat) : ∀ inter ∈ (rowNumbers n).map fun r => [r], inter.length = 1 := by
  intro inter hmem
  obtain ⟨r, _, rfl⟩ := List.mem_map.1 hmem
  rfl

def keysEqual (core : SelectCore ω) (ps : List Equi) (inter : Intersection) : Bool :=
  ps.all fun p => E.keyEqual core.tables p inter

lemma hashJoinChain_eq (h : probes core = some ps) :
    E.hashJoinChain core ps = (combinations core).filter (E.keysEqual core ps) := by
  obtain ⟨hps, hlen, _⟩ := probes_spec h
  rw [hashJoinChain, E.foldl_hashJoinStep core.tables hps hlen rfl (length_seed _),
    growAll_eq_filter _ (length_seed _), E.free_keyLayers core.tables hlen]
  exact filter_congr fun inter _ => E.passes_keyEqual core.tables inter hps hlen

def onHolds (tables : TableSet) (j : Join ω) (inter : Intersection) : Bool :=
  match j.on with
  | none => true
  | some on => E.holds tables on inter = .ok true

lemma holds_equi {on : Expr ω} (h : equiPair on = some e) (inter : Intersection) :
    E.holds tables on inter = .ok (sqlEqual E.platform (tables.value inter e.lt e.lc)
      (tables.value inter e.rt e.rc) = some true) := by
  unfold equiPair at h
  split at h
  · next lt lc rt rc =>
    split at h
    · cases h
      show Except.ok (isTruthy E.platform (triValue (sqlEqual E.platform _ _))) = _
      cases sqlEqual E.platform (tables.value inter lt lc) (tables.value inter rt rc) with
      | none => rfl
      | some b => cases b <;> rfl
    · cases h
  · cases h

lemma onHolds_equi (h : j.on.bind equiPair = some e) (inter : Intersection) :
    E.onHolds tables j inter = (sqlEqual E.platform (tables.value inter e.lt e.lc)
      (tables.value inter e.rt e.rc) = some true : Bool) := by
  obtain ⟨on, hon, hpair⟩ := bind_eq_some_iff.1 h
  rw [onHolds, hon]
  show decide (E.holds tables on inter = .ok true) = _
  rw [E.holds_equi tables hpair inter]
  simp

lemma joinStep_eq {jt : JoinType} (hjt : jt = .inner ∨ jt = .cross) {width : Nat}
    {evalOn : Intersection → Except String Bool} {keep : Intersection → Bool}
    (hon : ∀ inter, evalOn inter = .ok (keep inter)) (inters : List Intersection) :
    joinStep jt width j.table.rowCount evalOn inters = .ok (grow (layer j keep) inters) := by
  have hselect : (fun inter => select evalOn (candidates inter j.table.rowCount)) =
      fun inter => (pure ((candidates inter j.table.rowCount).filter keep) : Except String _) :=
    funext fun inter => select_pure fun b _ => hon b
  rcases hjt with rfl | rfl
  all_goals
    show (do
      let matched ← inters.mapM fun inter => select evalOn (candidates inter j.table.rowCount)
      return matched.flatten : Except String _) = _
    rw [hselect, mapM_pure]
    rfl

lemma evalOn_eq (hj : core.joins[k]? = some j)
    (hon : (∃ e, j.on.bind equiPair = some e) ∨ j.on = none)
    (inter : Intersection) : E.evalOn core k inter = .ok (E.onHolds core.tables j inter) := by
  rw [evalOn, hj, bind_some]
  rcases hon with ⟨e, he⟩ | hnone
  · rw [E.onHolds_equi core.tables he inter]
    obtain ⟨on, hon, hpair⟩ := bind_eq_some_iff.1 he
    rw [hon]
    exact E.holds_equi core.tables hpair inter
  · rw [onHolds, hnone]

lemma buildLoop_eq (core : SelectCore ω) : ∀ {js : List (Join ω)} {k : Nat}
    {inters : List Intersection}, core.joins.drop k = js → JoinsFrom k js →
      buildLoop usizeMax (E.evalOn core) k (js.map fun j => (j.joinType, j.table.rowCount)) inters =
        .ok (.ok (growAll (js.map fun j => layer j (E.onHolds core.tables j)) inters)) := by
  intro js
  induction js with
  | nil => intro k inters _ _; rfl
  | cons j js ih =>
    intro k inters hdrop hjoins
    obtain ⟨hj, hjoins⟩ := hjoins
    have hget : core.joins[k]? = some j := by
      have := congrArg (·[0]?) hdrop
      simpa using this
    have hrest : core.joins.drop (k + 1) = js := by
      have := congrArg tail hdrop
      simpa using this
    have hjt : j.joinType = .inner ∨ j.joinType = .cross := hj.imp (·.1) (·.1)
    have hon : (∃ e, j.on.bind equiPair = some e) ∨ j.on = none :=
      hj.imp (fun h => h.2.imp fun _ he => he.1) (·.2)
    -- a saturated product never exceeds the largest limit
    have hsize : ¬ saturatingMul inters.length j.table.rowCount > usizeMax :=
      Nat.not_lt.2 (Nat.min_le_right _ _)
    rw [map_cons, buildLoop, if_neg hsize, joinStep_eq hjt (E.evalOn_eq hget hon) inters]
    exact ih hrest hjoins

lemma onHolds_take
    (hj : (j.joinType = .inner ∧ ∃ e, j.on.bind equiPair = some e ∧ e.lt < k + 2 ∧ e.rt < k + 2) ∨
      (j.joinType = .cross ∧ j.on = none)) (inter : Intersection) :
    E.onHolds tables j (inter.take (k + 2)) = E.onHolds tables j inter := by
  rcases hj with ⟨_, e, he, hl, hr⟩ | ⟨_, hnone⟩
  · rw [E.onHolds_equi tables he, E.onHolds_equi tables he, TableSet.value_take _ _ _ hl,
      TableSet.value_take _ _ _ hr]
  · rw [onHolds, onHolds, hnone]

lemma passes_onHolds (tables : TableSet) (inter : Intersection) : ∀ {js : List (Join ω)} {k : Nat},
    JoinsFrom k js →
      passes (k + 1) (js.map fun j => layer j (E.onHolds tables j)) inter = js.all fun j =>
      E.onHolds tables j inter
  | [], _, _ => rfl
  | j :: js, k, hjs => by
    show (E.onHolds tables j (inter.take (k + 2)) && _) = (E.onHolds tables j inter && _)
    rw [E.onHolds_take tables hjs.1]
    exact congrArg _ (passes_onHolds tables inter hjs.2)

def onsHold (core : SelectCore ω) (inter : Intersection) : Bool :=
  core.joins.all fun j => E.onHolds core.tables j inter

lemma nestedLoop_eq (h : probes core = some ps) :
    E.nestedLoop core usizeMax = .ok ((combinations core).filter (E.onsHold core)) := by
  obtain ⟨_, _, hjoins⟩ := probes_spec h
  rw [nestedLoop, buildIntersections, E.buildLoop_eq core drop_zero hjoins,
    growAll_eq_filter _ (length_seed _), List.map_map]
  show Except.ok _ = _
  congr 1
  exact filter_congr fun inter _ => E.passes_onHolds core.tables inter hjoins

/-! ## The two results -/

/-- The `WHERE` clause on a row; an absent one is met. -/
def whereHolds (core : SelectCore ω) (inter : Intersection) : Except String Bool :=
  match core.whereClause with
  | none => .ok true
  | some cond => E.holds core.tables cond inter

lemma filterWhere_eq (core : SelectCore ω) (inters : List Intersection) :
    E.filterWhere core inters = select (E.whereHolds core) inters := by
  have hdef : E.whereHolds core = match core.whereClause with
      | none => fun _ => .ok true
      | some cond => E.holds core.tables cond := by
    funext inter
    rw [whereHolds]
    cases core.whereClause <;> rfl
  rw [filterWhere, hdef]
  cases core.whereClause with
  | none =>
    have := select_pure (m := Except String) (p := fun _ => true) (l := inters) fun _ _ => rfl
    rw [filter_true] at this
    exact this.symm
  | some cond => rfl

/-- The combinations whose keys and whose `ON` conditions disagree are dropped, without an error, by
the `WHERE` clause. -/
def KeysDecide (core : SelectCore ω) (ps : List Equi) : Prop :=
  ∀ inter ∈ combinations core, E.keysEqual core ps inter ≠ E.onsHold core inter →
    E.whereHolds core inter = .ok false

/-- **The hash path and the nested loops agree on every chain for which the keys decide**; and,
where the `WHERE` clause raises no error, on no other. -/
theorem hashJoin_eq_nestedLoop_iff {core : SelectCore ω} {ps : List Equi}
    (h : probes core = some ps) :
    (E.KeysDecide core ps → E.filterWhere core (E.hashJoinChain core ps) =
      (E.nestedLoop core usizeMax).bind (E.filterWhere core)) ∧
    ((∀ inter ∈ combinations core, ∃ keep, E.whereHolds core inter = .ok keep) →
      E.filterWhere core (E.hashJoinChain core ps) =
        (E.nestedLoop core usizeMax).bind (E.filterWhere core) → E.KeysDecide core ps) := by
  rw [E.nestedLoop_eq h, E.hashJoinChain_eq h]
  show (_ → E.filterWhere core _ = E.filterWhere core _) ∧
    (_ → E.filterWhere core _ = E.filterWhere core _ → _)
  rw [E.filterWhere_eq, E.filterWhere_eq]
  exact ⟨select_filter_congr, select_filter_inj⟩

end Engine

lemma groupKey_eq_iff (P : Platform) {a b : CfmlValue} {k : CellKind} (hk : k ≠ .null)
    (ha : cellKind a = some k)
    (hb : cellKind b = some k) : groupKey P a = groupKey P b ↔ sqlEqual P a b = some true := by
  have hsome : ∀ {o : Ordering}, (some (o == .eq) = some true) ↔ o = .eq := by
    intro o
    cases o <;> decide
  have hnumber (c : Char) (m n : Int) : c :: (toString m).toList ++ ['\u0001'] =
      c :: (toString n).toList ++ ['\u0001'] ↔ some (compare m n == .eq) = some true := by
    rw [hsome, Int.compare_eq_eq]
    constructor
    · intro h
      have htext := append_cancel_right (cons.inj h).2
      exact Int.repr_inj.1 (String.toList_injective htext)
    · rintro rfl
      rfl
  cases a <;> cases ha <;> cases b <;> cases hb <;> try exact absurd rfl hk
  · rename_i b b'
    show ['B', if b then 'T' else 'F', '\u0001'] = ['B', if b' then 'T' else 'F', '\u0001'] ↔
      some (compare (boolInt b) (boolInt b') == .eq) = some true
    revert b b'
    decide
  · rename_i i i'
    exact hnumber '#' i.toInt i'.toInt
  · rename_i d d'
    exact hnumber 'D' d.epochNanos d'.epochNanos
  · rename_i s t
    show _ ↔ some (strCmp P s t == .eq) = some true
    rw [hsome, strCmp_eq_iff]
    constructor
    · intro h
      exact append_cancel_right (cons.inj h).2
    · intro h
      show 'S' :: Lowercase.toLowercase P.tables s.toList ++ _ = 'S' :: _ ++ _
      rw [h]

end

/-- No expressions beyond columns and operators. -/
def bareEngine : Engine Empty where
  platform := asciiPlatform
  compute _ _ _ := .ok .null
  negate _ := .ok .null
  other e := e.elim

def column (cells : List CfmlValue) : QoQTable := ⟨["id"], [cells], cells.length⟩

def joinOnId (a b : List CfmlValue) : SelectCore Empty :=
  ⟨column a, [⟨.inner, column b, some (.binary (.resolvedColumn 0 0) .eq (.resolvedColumn 1 0))⟩],
    none⟩

def lettersJoin : SelectCore Empty := joinOnId [.string "a", .string "B"] [.string "b", .string "A"]

theorem hashJoin_eq_nestedLoop_letters :
    bareEngine.filterWhere lettersJoin (bareEngine.hashJoinChain lettersJoin [⟨0, 0, 1, 0⟩]) =
      (bareEngine.nestedLoop lettersJoin usizeMax).bind (bareEngine.filterWhere lettersJoin) :=
  (bareEngine.hashJoin_eq_nestedLoop_iff rfl).1 (by unfold Engine.KeysDecide; decide)

theorem hashJoin_null_matches_null : probes (joinOnId [.null] [.null]) = some [⟨0, 0, 1, 0⟩] ∧
      bareEngine.hashJoinChain (joinOnId [.null] [.null]) [⟨0, 0, 1, 0⟩] = [[1, 1]] ∧
        bareEngine.nestedLoop (joinOnId [.null] [.null]) usizeMax = .ok [] := by
  decide

end RustCfml.Qoq
