import RustCfml.Qoq.Engine

/-!
# Joins as relations

`IsJoin` is what a join of rows in hand with the next table is, without a word on loops: the pairs
that meet the `ON` condition, the left rows that meet no right row (`LEFT`, `FULL`) and the right
rows that meet no left row (`RIGHT`, `FULL`), with 0 for the missing side. **It is left-major for
all joins but one**: `RIGHT` has the loop over the new table outside, and its rows are in
right-major order, unmatched right rows in their places.
-/

namespace RustCfml.Qoq

open RowProduct List

/-! ## The definition -/

def JoinType.keepsLeft : JoinType → Bool
  | .left | .full => true
  | _ => false

def JoinType.keepsRight : JoinType → Bool
  | .right | .full => true
  | _ => false

/-- Where the left part of a combination stands; the missing side is behind all of them. -/
def leftPos (rows : List Intersection) (x : Intersection) : Nat := rows.idxOf x.dropLast

def rightRow (x : Intersection) : Nat := x.getLast?.getD 0

def LeftMajor (rows : List Intersection) (x y : Intersection) : Prop :=
  leftPos rows x < leftPos rows y ∨ leftPos rows x = leftPos rows y ∧ rightRow x < rightRow y

def RightMajor (rows : List Intersection) (x y : Intersection) : Prop :=
  rightRow x < rightRow y ∨ rightRow x = rightRow y ∧ leftPos rows x < leftPos rows y

def JoinType.order : JoinType → List Intersection → Intersection → Intersection → Prop
  | .right => RightMajor
  | _ => LeftMajor

/-- `out` is the join of `rows`, combinations of `width` tables, with a table of `n` rows. -/
structure IsJoin (jt : JoinType) (width n : Nat) (on : Intersection → Bool)
    (rows out : List Intersection) : Prop where
  mem : ∀ x, x ∈ out ↔ (∃ l ∈ rows, ∃ r ∈ rowNumbers n, on (l ++ [r]) = true ∧ x = l ++ [r]) ∨
    (jt.keepsLeft = true ∧ ∃ l ∈ rows, (∀ r ∈ rowNumbers n, on (l ++ [r]) = false) ∧ x = l ++ [0]) ∨
    (jt.keepsRight = true ∧ ∃ r ∈ rowNumbers n, (∀ l ∈ rows, on (l ++ [r]) = false) ∧
      x = List.replicate width 0 ++ [r])
  ordered : out.Pairwise (jt.order rows)

def IsJoinChain (on : Nat → Intersection → Bool) :
    Nat → List (JoinType × Nat) → List Intersection → List Intersection → Prop
  | _, [], rows, out => out = rows
  | k, (jt, n) :: joins, rows, out =>
    ∃ next, IsJoin jt (k + 1) n (on k) rows next ∧ IsJoinChain on (k + 1) joins next out

def seed (firstRows : Nat) : List Intersection := (rowNumbers firstRows).map fun r => [r]

/-- Combinations of `width` rows, each there once and none of them missing altogether. -/
structure Rows (width : Nat) (rows : List Intersection) : Prop where
  nodup : rows.Nodup
  width_eq : ∀ l ∈ rows, l.length = width
  present : ∀ l ∈ rows, ∃ r ∈ l, r ≠ 0

lemma mem_rowNumbers {r n : Nat} : r ∈ rowNumbers n ↔ 1 ≤ r ∧ r ≤ n := by
  rw [rowNumbers, mem_range'_1]
  omega

lemma rowNumbers_increasing (n : Nat) : (rowNumbers n).Pairwise (· < ·) := pairwise_lt_range' 1

lemma rows_seed (n : Nat) : Rows 1 (seed n) where
  nodup := (rowNumbers_increasing n).nodup.map fun _ _ h => (cons.inj h).1
  width_eq l hl := by
    obtain ⟨r, _, rfl⟩ := mem_map.1 hl
    rfl
  present l hl := by
    obtain ⟨r, hr, rfl⟩ := mem_map.1 hl
    have := (mem_rowNumbers.1 hr).1
    exact ⟨r, mem_singleton_self r, by omega⟩

lemma Rows.missing_notMem {width : Nat} {rows : List Intersection} (h : Rows width rows) :
    replicate width 0 ∉ rows := by
  intro hmem
  obtain ⟨r, hr, hne⟩ := h.present _ hmem
  exact hne (eq_of_mem_replicate hr)

@[simp] lemma leftPos_append (rows : List Intersection) (l : Intersection) (r : Nat) :
    leftPos rows (l ++ [r]) = rows.idxOf l := by
  rw [leftPos, dropLast_concat]

@[simp] lemma rightRow_append (l : Intersection) (r : Nat) : rightRow (l ++ [r]) = r := by
  rw [rightRow, getLast?_concat, Option.getD_some]

lemma Rows.idxOf_increasing {width : Nat} {rows : List Intersection} (h : Rows width rows) :
    rows.Pairwise fun l l' => rows.idxOf l < rows.idxOf l' := by
  rw [pairwise_iff_getElem]
  intro i j hi hj hij
  rwa [h.nodup.idxOf_getElem i hi, h.nodup.idxOf_getElem j hj]

lemma IsJoin.rows {jt : JoinType} {width n : Nat} {on : Intersection → Bool}
    {rows out : List Intersection} (h : IsJoin jt width n on rows out) (hrows : Rows width rows) :
    Rows (width + 1) out where
  nodup := by
    refine h.ordered.imp fun {x y} hlt heq => ?_
    subst heq
    cases jt <;> simp [JoinType.order, LeftMajor, RightMajor] at hlt
  width_eq x hx := by
    rcases (h.mem x).1 hx with ⟨l, hl, r, _, _, rfl⟩ | ⟨_, l, hl, _, rfl⟩ | ⟨_, r, _, _, rfl⟩
    iterate 2 simp [hrows.width_eq l hl]
    · simp
  present x hx := by
    rcases (h.mem x).1 hx with ⟨l, hl, r, hr, _, rfl⟩ | ⟨_, l, hl, _, rfl⟩ | ⟨_, r, hr, _, rfl⟩
    · have := (mem_rowNumbers.1 hr).1
      exact ⟨r, by simp, by omega⟩
    · obtain ⟨r, hr, hne⟩ := hrows.present l hl
      exact ⟨r, mem_append_left _ hr, hne⟩
    · have := (mem_rowNumbers.1 hr).1
      exact ⟨r, by simp, by omega⟩

/-! ## The loops -/

lemma select_id {α : Type} (p : α → Bool) (xs : List α) : select (m := Id) p xs = xs.filter p :=
  select_pure fun _ _ => rfl

lemma mapM_id {α β : Type} (f : α → Id β) : ∀ xs : List α, xs.mapM f = (xs.map f : List β)
  | [] => rfl
  | x :: xs => by
    rw [mapM_cons, mapM_id f xs]
    rfl

section

variable {width n : Nat} {on : Intersection → Bool} {rows : List Intersection}

def matchesOf (on : Intersection → Bool) (n : Nat) (l : Intersection) : List Intersection :=
  (candidates l n).filter on

variable {x l : Intersection} {r : Nat} {keeps : Bool}

lemma mem_matchesOf : x ∈ matchesOf on n l ↔ ∃ r ∈ rowNumbers n, on (l ++ [r]) = true ∧
    x = l ++ [r] := by
  rw [matchesOf, mem_filter, candidates, mem_map]
  constructor
  · rintro ⟨⟨r, hr, rfl⟩, hon⟩
    exact ⟨r, hr, hon, rfl⟩
  · rintro ⟨r, hr, hon, rfl⟩
    exact ⟨⟨r, hr, rfl⟩, hon⟩

lemma matchesOf_eq_nil : matchesOf on n l = [] ↔ ∀ r ∈ rowNumbers n, on (l ++ [r]) = false := by
  rw [matchesOf, filter_eq_nil_iff, candidates, forall_mem_map]
  simp

lemma matchesOf_increasing (l : Intersection) : (matchesOf on n l).Pairwise fun x y =>
    rightRow x < rightRow y := by
  refine Pairwise.filter _ ?_
  rw [candidates, pairwise_map]
  simpa using rowNumbers_increasing n

def leftBlock (keeps : Bool) (on : Intersection → Bool) (n : Nat) (l : Intersection) :
    List Intersection :=
  if (matchesOf on n l).isEmpty && keeps then [l ++ [0]] else matchesOf on n l

lemma leftBlock_false : leftBlock false on n = matchesOf on n := by
  funext l
  rw [leftBlock, Bool.and_false]
  rfl

lemma leftBlock_true (l : Intersection) :
    leftBlock true on n l = if (matchesOf on n l).isEmpty then [l ++ [0]] else
    matchesOf on n l := by
  rw [leftBlock, Bool.and_true]

lemma mem_leftBlock : x ∈ leftBlock keeps on n l ↔
    (∃ r ∈ rowNumbers n, on (l ++ [r]) = true ∧ x = l ++ [r]) ∨
      (keeps = true ∧ (∀ r ∈ rowNumbers n, on (l ++ [r]) = false) ∧ x = l ++ [0]) := by
  rw [← mem_matchesOf, ← matchesOf_eq_nil, leftBlock]
  cases hms : matchesOf on n l with
  | nil => cases keeps <;> simp
  | cons y ys => simp

lemma leftBlock_increasing (keeps : Bool) (l : Intersection) :
    (leftBlock keeps on n l).Pairwise fun x y => rightRow x < rightRow y := by
  rw [leftBlock]
  split
  · exact pairwise_singleton _ _
  · exact matchesOf_increasing l

lemma leftPos_of_mem_leftBlock (h : x ∈ leftBlock keeps on n l) :
    leftPos rows x = rows.idxOf l := by
  rcases mem_leftBlock.1 h with ⟨r, _, _, rfl⟩ | ⟨_, _, rfl⟩
  · exact leftPos_append rows l r
  · exact leftPos_append rows l 0

lemma leftMajor_flatMap (hrows : Rows width rows) (keeps : Bool) :
    (rows.flatMap (leftBlock keeps on n)).Pairwise (LeftMajor rows) := by
  rw [pairwise_flatMap]
  constructor
  · intro l _
    refine Pairwise.imp_of_mem ?_ (leftBlock_increasing keeps l)
    intro x y hx hy hlt
    exact .inr ⟨(leftPos_of_mem_leftBlock hx).trans (leftPos_of_mem_leftBlock hy).symm, hlt⟩
  · refine hrows.idxOf_increasing.imp fun {l l'} hlt x hx y hy => .inl ?_
    rwa [leftPos_of_mem_leftBlock hx, leftPos_of_mem_leftBlock hy]

lemma isJoin_flatMap (jt : JoinType) (hrows : Rows width rows) (hjt : jt ≠ .right)
    (hkeeps : jt.keepsRight = false) :
    IsJoin jt width n on rows (rows.flatMap (leftBlock jt.keepsLeft on n)) where
  mem x := by
    simp [mem_flatMap, mem_leftBlock, hkeeps]
    constructor
    · rintro ⟨l, hl, ⟨r, hr⟩ | ⟨hk, hx⟩⟩
      · exact .inl ⟨l, hl, r, hr⟩
      · exact .inr ⟨hk, l, hl, hx⟩
    · rintro (⟨l, hl, r, hr⟩ | ⟨hk, l, hl, hx⟩)
      · exact ⟨l, hl, .inl ⟨r, hr⟩⟩
      · exact ⟨l, hl, .inr ⟨hk, hx⟩⟩
  ordered := by
    have horder : jt.order = LeftMajor := by cases jt <;> first | rfl | exact absurd rfl hjt
    rw [horder]
    exact leftMajor_flatMap hrows jt.keepsLeft

def unmatchedRight (on : Intersection → Bool) (n : Nat) (rows : List Intersection) : List Nat :=
  (rowNumbers n).filter fun r => rows.all fun l => !on (l ++ [r])

lemma mem_unmatchedRight : r ∈ unmatchedRight on n rows ↔ r ∈ rowNumbers n ∧ ∀ l ∈ rows,
    on (l ++ [r]) = false := by
  simp [unmatchedRight, mem_filter]

lemma isJoin_full (hrows : Rows width rows) :
    IsJoin .full width n on rows (rows.flatMap (leftBlock true on n) ++
      (unmatchedRight on n rows).map fun r => replicate width 0 ++ [r]) where
  mem x := by
    have hleft :=
      (show IsJoin .left width n on rows _ from isJoin_flatMap .left hrows (by decide) rfl).mem x
    rw [mem_append, show (rows.flatMap (leftBlock true on n)) =
      rows.flatMap (leftBlock (JoinType.keepsLeft .left) on n) from rfl, hleft, mem_map]
    simp [JoinType.keepsLeft, JoinType.keepsRight, mem_unmatchedRight, or_assoc]
    constructor
    · rintro (h | h | ⟨r, hr, rfl⟩)
      · exact .inl h
      · exact .inr (.inl h)
      · exact .inr (.inr ⟨r, hr.1, hr.2, rfl⟩)
    · rintro (h | h | ⟨r, hr, hon, rfl⟩)
      · exact .inl h
      · exact .inr (.inl h)
      · exact .inr (.inr ⟨r, ⟨hr, hon⟩, rfl⟩)
  ordered := by
    -- the missing left side is behind every left row
    have hmissing : rows.idxOf (replicate width 0) = rows.length :=
      idxOf_eq_length hrows.missing_notMem
    refine pairwise_append.2 ⟨leftMajor_flatMap hrows true, ?_, ?_⟩
    · rw [pairwise_map]
      refine ((rowNumbers_increasing n).filter _).imp fun hlt => .inr ?_
      simpa using hlt
    · intro x hx y hy
      obtain ⟨l, hl, hxl⟩ := mem_flatMap.1 hx
      obtain ⟨r, _, rfl⟩ := mem_map.1 hy
      refine .inl ?_
      rw [leftPos_of_mem_leftBlock hxl, leftPos_append, hmissing]
      exact idxOf_lt_length_of_mem hl

def rightBlock (width : Nat) (on : Intersection → Bool) (rows : List Intersection) (r : Nat) :
    List Intersection :=
  let ms := (rows.map fun l => l ++ [r]).filter on
  if ms.isEmpty then [List.replicate width 0 ++ [r]] else ms

lemma mem_rightBlock : x ∈ rightBlock width on rows r ↔
    (∃ l ∈ rows, on (l ++ [r]) = true ∧ x = l ++ [r]) ∨
      ((∀ l ∈ rows, on (l ++ [r]) = false) ∧ x = replicate width 0 ++ [r]) := by
  have hmem : ∀ y, y ∈ (rows.map fun l => l ++ [r]).filter on ↔
      ∃ l ∈ rows, on (l ++ [r]) = true ∧ y = l ++ [r] := by
    intro y
    rw [mem_filter, mem_map]
    constructor
    · rintro ⟨⟨l, hl, rfl⟩, hon⟩
      exact ⟨l, hl, hon, rfl⟩
    · rintro ⟨l, hl, hon, rfl⟩
      exact ⟨⟨l, hl, rfl⟩, hon⟩
  have hnil : (rows.map fun l => l ++ [r]).filter on = [] ↔ ∀ l ∈ rows, on (l ++ [r]) = false := by
    rw [filter_eq_nil_iff, forall_mem_map]
    simp
  rw [← hmem, ← hnil]
  simp only [rightBlock]
  cases hms : (rows.map fun l => l ++ [r]).filter on with
  | nil | cons y ys => simp

lemma rightRow_of_mem_rightBlock (h : x ∈ rightBlock width on rows r) : rightRow x = r := by
  rcases mem_rightBlock.1 h with ⟨l, _, _, rfl⟩ | ⟨_, rfl⟩
  · exact rightRow_append l r
  · exact rightRow_append _ r

lemma rightBlock_increasing (hrows : Rows width rows) (r : Nat) :
    (rightBlock width on rows r).Pairwise fun x y => leftPos rows x < leftPos rows y := by
  simp only [rightBlock]
  split
  · exact pairwise_singleton _ _
  · refine Pairwise.filter _ ?_
    rw [pairwise_map]
    simpa using hrows.idxOf_increasing

lemma isJoin_right (hrows : Rows width rows) :
    IsJoin .right width n on rows ((rowNumbers n).flatMap (rightBlock width on rows)) where
  mem x := by
    simp [mem_flatMap, mem_rightBlock, JoinType.keepsLeft, JoinType.keepsRight]
    constructor
    · rintro ⟨r, hr, ⟨l, hl, hx⟩ | hx⟩
      · exact .inl ⟨l, hl, r, hr, hx⟩
      · exact .inr ⟨r, hr, hx⟩
    · rintro (⟨l, hl, r, hr, hx⟩ | ⟨r, hr, hx⟩)
      · exact ⟨r, hr, .inl ⟨l, hl, hx⟩⟩
      · exact ⟨r, hr, .inr hx⟩
  ordered := by
    show List.Pairwise (RightMajor rows) _
    rw [pairwise_flatMap]
    constructor
    · intro r _
      refine Pairwise.imp_of_mem ?_ (rightBlock_increasing hrows r)
      intro x y hx hy hlt
      exact .inr ⟨(rightRow_of_mem_rightBlock hx).trans (rightRow_of_mem_rightBlock hy).symm, hlt⟩
    · refine (rowNumbers_increasing n).imp fun {r r'} hlt x hx y hy => .inl ?_
      rwa [rightRow_of_mem_rightBlock hx, rightRow_of_mem_rightBlock hy]

lemma zip_map_flatMap {α β γ : Type} (f : α → β) (g : α × β → List γ) : ∀ xs : List α,
    (xs.zip (xs.map f)).flatMap g = xs.flatMap fun x => g (x, f x)
  | [] => rfl
  | x :: xs => by rw [map_cons, zip_cons_cons, flatMap_cons, flatMap_cons, zip_map_flatMap]

lemma not_any_matchesOf (hr : r ∈ rowNumbers n) :
    (!(rows.map (matchesOf on n)).flatten.any fun x => decide (x.getLast? = some r)) =
      rows.all fun l => !on (l ++ [r]) := by
  rw [Bool.eq_iff_iff]
  simp only [Bool.not_eq_true', any_eq_false, mem_flatten, mem_map, decide_eq_true_eq, all_eq_true]
  constructor
  · intro h l hl
    rw [← Bool.not_eq_true]
    intro hon
    exact h _ ⟨_, ⟨l, hl, rfl⟩, mem_matchesOf.2 ⟨r, hr, hon, rfl⟩⟩ getLast?_concat
  · rintro h x ⟨_, ⟨l, hl, rfl⟩, hx⟩ hlast
    obtain ⟨r', _, hon, rfl⟩ := mem_matchesOf.1 hx
    rw [getLast?_concat, Option.some.injEq] at hlast
    subst hlast
    exact absurd hon (by rw [h l hl]; decide)

lemma isJoin_joinStep (jt : JoinType) (hrows : Rows width rows) :
    IsJoin jt width n on rows (joinStep (m := Id) jt width n on rows) := by
  have hselect : ∀ l, select (m := Id) on (candidates l n) = matchesOf on n l :=
    fun l => select_id on _
  have hmatched : (rows.mapM fun l => select (m := Id) on (candidates l n)) =
      (rows.map (matchesOf on n) : List _) := by
    rw [mapM_id, funext hselect]
  have hinner : (rows.mapM fun l => select (m := Id) on (candidates l n)).flatten =
      rows.flatMap (leftBlock false on n) := by
    rw [hmatched, leftBlock_false]
    rfl
  cases jt with
  | inner =>
    rw [show joinStep (m := Id) .inner width n on rows = _ from hinner]
    exact isJoin_flatMap .inner hrows (by decide) rfl
  | cross =>
    rw [show joinStep (m := Id) .cross width n on rows = _ from hinner]
    exact isJoin_flatMap .cross hrows (by decide) rfl
  | left =>
    have hstep : joinStep (m := Id) .left width n on rows = rows.flatMap (leftBlock true on n) := by
      show (rows.mapM fun l => (if (select (m := Id) on (candidates l n)).isEmpty then [l ++ [0]]
        else select (m := Id) on (candidates l n) : Id (List Intersection))).flatten = _
      rw [mapM_id]
      simp only [hselect]
      exact congrArg (fun f => (rows.map f).flatten) (funext fun l => (leftBlock_true l).symm)
    rw [hstep]
    exact isJoin_flatMap .left hrows (by decide) rfl
  | right =>
    have hstep : joinStep (m := Id) .right width n on rows =
        (rowNumbers n).flatMap (rightBlock width on rows) := by
      show ((rowNumbers n).mapM fun r =>
        (if (select (m := Id) on (rows.map fun l => l ++ [r])).isEmpty
          then [replicate width 0 ++ [r]]
          else select (m := Id) on (rows.map fun l => l ++ [r]) : Id (List Intersection))).flatten =
            _
      rw [mapM_id]
      simp only [select_id, flatMap_def]
      rfl
    rw [hstep]
    exact isJoin_right hrows
  | full =>
    have hstep : joinStep (m := Id) .full width n on rows = rows.flatMap (leftBlock true on n) ++
        (unmatchedRight on n rows).map fun r => replicate width 0 ++ [r] := by
      simp only [joinStep, hmatched]
      show ((rows.zip (rows.map (matchesOf on n))).flatMap _) ++
        ((rowNumbers n).filter fun r => !(rows.map (matchesOf on n)).flatten.any
          fun x => decide (x.getLast? = some r)).map (fun r => replicate width 0 ++ [r]) = _
      rw [zip_map_flatMap, filter_congr fun r hr => not_any_matchesOf hr]
      simp only [← leftBlock_true]
      rfl
    rw [hstep]
    exact isJoin_full hrows

end

/-- The limit is met before the join of `mid` with a table of `n` rows. -/
def StopsAt (maxSize : Nat) (on : Nat → Intersection → Bool) (k : Nat)
    (joins : List (JoinType × Nat)) (rows : List Intersection) (size : Nat) : Prop :=
  ∃ before jt n after mid, joins = before ++ (jt, n) :: after ∧
    IsJoinChain on k before rows mid ∧ size = saturatingMul mid.length n ∧ maxSize < size

lemma buildLoop_joins (maxSize : Nat) (on : Nat → Intersection → Bool) :
    ∀ (joins : List (JoinType × Nat)) (k : Nat) {rows : List Intersection}, Rows (k + 1) rows →
      (∃ out, buildLoop (m := Id) maxSize on k joins rows = .ok out ∧
        IsJoinChain on k joins rows out) ∨
      ∃ size, buildLoop (m := Id) maxSize on k joins rows = .error size ∧
        StopsAt maxSize on k joins rows size
  | [], _, rows, _ => .inl ⟨rows, rfl, rfl⟩
  | (jt, n) :: joins, k, rows, hrows => by
    have hloop : buildLoop (m := Id) maxSize on k ((jt, n) :: joins) rows =
        if saturatingMul rows.length n > maxSize then .error (saturatingMul rows.length n)
        else buildLoop (m := Id) maxSize on (k + 1) joins
          (joinStep (m := Id) jt (k + 1) n (on k) rows) := rfl
    rw [hloop]
    by_cases hsize : saturatingMul rows.length n > maxSize
    · rw [if_pos hsize]
      exact .inr ⟨_, rfl, [], jt, n, joins, rows, rfl, rfl, rfl, hsize⟩
    · rw [if_neg hsize]
      have hjoin := @isJoin_joinStep _ n (on k) _ jt hrows
      rcases buildLoop_joins maxSize on joins (k + 1) (hjoin.rows hrows) with
        ⟨out, hout, hchain⟩ | ⟨size, hout, before, jt', n', after, mid, rfl, hchain, hsize'⟩
      · exact .inl ⟨out, hout, _, hjoin, hchain⟩
      · exact .inr ⟨size, hout, (jt, n) :: before, jt', n', after, mid, rfl, ⟨_, hjoin, hchain⟩,
          hsize'⟩

/-- The nested loops make the joins of the chain one after the other, or stop at the limit. -/
theorem buildIntersections_joins (firstRows : Nat) (joins : List (JoinType × Nat)) (maxSize : Nat)
    (on : Nat → Intersection → Bool) :
    (∃ out, buildIntersections (m := Id) firstRows joins maxSize on = .ok out ∧
      IsJoinChain on 0 joins (seed firstRows) out) ∨
    ∃ size, buildIntersections (m := Id) firstRows joins maxSize on = .error size ∧
      StopsAt maxSize on 0 joins (seed firstRows) size :=
  buildLoop_joins maxSize on joins 0 (rows_seed firstRows)

theorem rightJoin_not_leftMajor :
    buildIntersections (m := Id) 2 [(.right, 2)] 100 (fun _ _ => true) =
        .ok [[1, 1], [2, 1], [1, 2], [2, 2]] ∧
      ¬ [[1, 1], [2, 1], [1, 2], [2, 2]].Pairwise (LeftMajor (seed 2)) := by
  refine ⟨rfl, fun h => ?_⟩
  have hsecond := (pairwise_cons.1 (pairwise_cons.1 h).2).1 [1, 2] mem_cons_self
  -- the second left row came before the first one
  rcases hsecond with hlt | ⟨heq, -⟩
  · exact absurd hlt (by decide)
  · exact absurd heq (by decide)

end RustCfml.Qoq
