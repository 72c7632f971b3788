import RustCfml.Lib.StableSort
import RustCfml.Qoq.GroupKeys
import RustCfml.Qoq.Having

/-!
# `ORDER BY`, `LIMIT` and `DISTINCT` on columns

The result of a select is a list of columns beside a list of sort-key columns, and nothing but the
positions holds a row together. **Each of them does the same to every column**: it chooses
positions.
-/

namespace RustCfml.Qoq

open Comparator StableSort List

/-! ## The functions -/

def keyAt (keys : Columns) (c a : Nat) : CfmlValue := (keys[c]?.bind (·[a]?)).getD .null

def cmpFrom (P : Platform) (keys : Columns) (a b : Nat) : Nat → List SortDirection → Ordering
  | _, [] => .eq
  | c, dir :: dirs =>
    let ord := compareTotal P (keyAt keys c a) (keyAt keys c b)
    let ord := if dir = .desc then ord.swap else ord
    if ord ≠ .eq then ord else cmpFrom P keys a b (c + 1) dirs

def rowCmp (P : Platform) (keys : Columns) (dirs : List SortDirection) (a b : Nat) : Ordering :=
  cmpFrom P keys a b 0 dirs

def sortCols (P : Platform) (data keys : Columns) (dirs : List SortDirection) (rowCount : Nat) :
    Option Columns :=
  if dirs.isEmpty ∨ rowCount < 2 then some data
  else data.mapM fun col => moveOut (col.map some) (positions (rowCmp P keys dirs) rowCount)

def saturatingAdd (a b : Nat) : Nat := min (a + b) usizeMax

def applyLimitCols (data : Columns) (limit : Option LimitClause) (rowCount : Nat) : Columns × Nat :=
  match limit with
  | none => (data, rowCount)
  | some l =>
    let start := min l.offset rowCount
    let stop := min (saturatingAdd l.offset l.count) rowCount
    (data.map fun col => if start = 0 then col.take stop else (col.take stop).drop start,
      stop - start)

section

variable {P : Platform}

lemma compareTotal_swap (a b : CfmlValue) : compareTotal P a b = (compareTotal P b a).swap := by
  unfold compareTotal
  cases a.isNull <;> cases b.isNull <;> try rfl
  dsimp only
  rw [compareSql_swap P a b]
  cases compareSql P b a <;> rfl

lemma compareTotal_null_left (v : CfmlValue) : (compareTotal P .null v).isLE = true := by
  cases v <;> rfl

lemma isNull_of_isLE_null {v : CfmlValue} (h : (compareTotal P v .null).isLE = true) :
    v = .null := by
  cases v <;> first | rfl | exact nomatch h

variable {col : List CfmlValue} {keys : Columns}

lemma transCmp_column (h : TotalOrderOn (compareTotal P) {v | v ∈ col}) :
    Std.TransCmp fun a b : Nat => compareTotal P (col[a]?.getD .null) (col[b]?.getD .null) where
  eq_swap := compareTotal_swap _ _
  isLE_trans := by
    intro a b c hab hbc
    have hmem : ∀ i : Nat, col[i]?.getD CfmlValue.null ≠ .null →
        col[i]?.getD CfmlValue.null ∈ col := by
      intro i hi
      cases hget : col[i]? with
      | none => rw [hget] at hi; exact absurd rfl hi
      | some v => exact mem_of_getElem? hget
    by_cases ha : col[a]?.getD CfmlValue.null = .null
    · rw [ha]
      exact compareTotal_null_left _
    · have hb : col[b]?.getD CfmlValue.null ≠ .null := by
        intro hb
        rw [hb] at hab
        exact ha (isNull_of_isLE_null hab)
      have hc : col[c]?.getD CfmlValue.null ≠ .null := by
        intro hc
        rw [hc] at hbc
        exact hb (isNull_of_isLE_null hbc)
      rw [Ordering.isLE_iff_ne_gt] at hab hbc ⊢
      exact h.trans _ (hmem a ha) _ (hmem b hb) _ (hmem c hc) hab hbc

/-- The order `ORDER BY` asks for, key by key: rows by the cells of the key's column, the other way
round where the key is descending. -/
def keyCmps (P : Platform) (keys : Columns) : Nat → List SortDirection → List (Nat → Nat → Ordering)
  | _, [] => []
  | c, dir :: dirs =>
    (fun a b =>
      if dir = .desc then compareTotal P (keyAt keys c b) (keyAt keys c a)
      else compareTotal P (keyAt keys c a) (keyAt keys c b)) :: keyCmps P keys (c + 1) dirs

lemma cmpFrom_eq (keys : Columns) (a b : Nat) : ∀ (c : Nat) (dirs : List SortDirection),
    cmpFrom P keys a b c dirs = lexAll (keyCmps P keys c dirs) a b
  | _, [] => rfl
  | c, dir :: dirs => by
    have hswap : (compareTotal P (keyAt keys c a) (keyAt keys c b)).swap =
        compareTotal P (keyAt keys c b) (keyAt keys c a) := (compareTotal_swap _ _).symm
    rw [cmpFrom, keyCmps, lexAll, cmpFrom_eq keys a b (c + 1) dirs, hswap]
    generalize (if dir = .desc then compareTotal P (keyAt keys c b) (keyAt keys c a)
      else compareTotal P (keyAt keys c a) (keyAt keys c b)) = ord
    cases ord <;> rfl

lemma rowCmp_eq_lexAll (keys : Columns) (dirs : List SortDirection) :
    rowCmp P keys dirs = lexAll (keyCmps P keys 0 dirs) := by
  funext a b
  exact cmpFrom_eq keys a b 0 dirs

lemma keyAt_eq {c : Nat} (h : keys[c]? = some col) (a : Nat) :
    keyAt keys c a = col[a]?.getD .null := by
  rw [keyAt, h, Option.bind_some]

lemma transCmp_rowCmp (h : ∀ col ∈ keys, TotalOrderOn (compareTotal P) {v | v ∈ col})
    (dirs : List SortDirection) : Std.TransCmp (rowCmp P keys dirs) := by
  have hkey : ∀ c, Std.TransCmp fun a b => compareTotal P (keyAt keys c a) (keyAt keys c b) := by
    intro c
    cases hcol : keys[c]? with
    | none =>
      have hnull : ∀ a, keyAt keys c a = .null := fun a => by rw [keyAt, hcol]; rfl
      exact { eq_swap := fun {a b} => by simp only [hnull]; rfl,
              isLE_trans := fun {a b c} _ _ => by simp only [hnull]; rfl }
    | some col =>
      simp only [keyAt_eq hcol]
      exact transCmp_column (h col (mem_of_getElem? hcol))
  have hall : ∀ (dirs : List SortDirection) (c : Nat), ∀ cmp ∈ keyCmps P keys c dirs,
      Std.TransCmp cmp := by
    intro dirs
    induction dirs with
    | nil => exact fun c cmp hcmp => nomatch hcmp
    | cons dir dirs ih =>
      intro c cmp hcmp
      rcases mem_cons.1 hcmp with rfl | hcmp
      · cases dir with
        | asc => exact hkey c
        | desc => exact @Std.TransCmp.opposite _ _ (hkey c)
      · exact ih (c + 1) cmp hcmp
  rw [rowCmp_eq_lexAll]
  exact transCmp_lexAll (hall dirs 0)

end

/-! ## Positions -/

def chosen (positions : List Nat) (col : List CfmlValue) : List CfmlValue :=
  positions.map fun i => col[i]?.getD .null

def slice {α : Type} (limit : Option LimitClause) (xs : List α) : List α :=
  match limit with
  | none => xs
  | some l => (xs.drop l.offset).take l.count

lemma chosen_range {col : List CfmlValue} {n : Nat} (h : col.length = n) :
    chosen (range n) col = col := map_range_getD h

lemma map_chosen_range {data : Columns} {width n : Nat} (h : Filled data width n) :
    data.map (chosen (range n)) = data := by
  conv_rhs => rw [← map_id data]
  exact map_congr_left fun col hcol => chosen_range (h.height_eq col hcol)

lemma mapM_some {α β : Type} {f : α → Option β} {g : α → β} : ∀ {xs : List α},
    (∀ x ∈ xs, f x = some (g x)) → xs.mapM f = some (xs.map g)
  | [], _ => rfl
  | x :: xs, h => by
    rw [mapM_cons, h x mem_cons_self, mapM_some fun y hy => h y (mem_cons_of_mem _ hy)]
    rfl

lemma cut_eq_slice {α : Type} {xs : List α} {n : Nat} (hlen : xs.length = n) (hsize : n ≤ usizeMax)
    (l : LimitClause) :
    (xs.take (min (saturatingAdd l.offset l.count) n)).drop (min l.offset n) =
    slice (some l) xs := by
  rw [slice, drop_take, saturatingAdd]
  by_cases hoff : l.offset ≤ n
  · rw [Nat.min_eq_left hoff, take_eq_take_iff, length_drop, hlen]
    omega
  · rw [Nat.min_eq_right (by omega), drop_eq_nil_of_le (by omega), drop_eq_nil_of_le (by omega),
      take_nil, take_nil]

section

variable {P : Platform} {data keys : Columns} {width n : Nat}

lemma sortCols_eq (h : Filled data width n) (dirs : List SortDirection) :
    sortCols P data keys dirs n = some (data.map (chosen
      (if dirs.isEmpty ∨ n < 2 then range n else positions (rowCmp P keys dirs) n))) := by
  rw [sortCols]
  split
  · rw [map_chosen_range h]
  · have hmove : ∀ col ∈ data, moveOut (col.map some) (positions (rowCmp P keys dirs) n) =
        some (chosen (positions (rowCmp P keys dirs) n) col) := by
      intro col hcol
      have hperm := positions_perm (rowCmp P keys dirs) n
      refine moveOut_eq CfmlValue.null (hperm.nodup_iff.2 nodup_range) fun i hi => ?_
      have hlt : i < col.length := by
        rw [h.height_eq col hcol]
        exact mem_range.1 (hperm.mem_iff.1 hi)
      exact ⟨col[i], getElem?_eq_getElem hlt, by rw [getElem?_map, getElem?_eq_getElem hlt]; rfl⟩
    exact mapM_some hmove

lemma applyLimitCols_eq {order : List Nat} (hlen : order.length = n) (hsize : n ≤ usizeMax)
    (limit : Option LimitClause) : applyLimitCols (data.map (chosen order)) limit n =
      (data.map (chosen (slice limit order)), (slice limit order).length) := by
  cases limit with
  | none => exact congrArg (Prod.mk _) hlen.symm
  | some l =>
    have hcol : ∀ col, (chosen order col).length = n := fun col => by rw [chosen, length_map, hlen]
    have hslice : ∀ col, slice (some l) (chosen order col) = chosen (slice (some l) order) col :=
      fun col => by simp only [slice, chosen, map_take, map_drop]
    rw [applyLimitCols, map_map]
    refine Prod.ext (map_congr_left fun col _ => ?_) ?_
    · rw [← hslice, ← cut_eq_slice (hcol col) hsize l]
      simp only [Function.comp]
      split
      · next hzero => rw [hzero, drop_zero]
      · rfl
    · rw [← cut_eq_slice hlen hsize l, length_drop, length_take]
      show min (saturatingAdd l.offset l.count) n - min l.offset n = _
      rw [hlen, Nat.min_eq_left (Nat.min_le_right _ _)]

lemma applyKeepMask_eq (h : Filled data width n) (keep : List Bool) : applyKeepMask data keep =
      data.map (chosen ((((range n).zip keep).filter (·.2)).map (·.1))) := by
  refine map_congr_left fun col hcol => ?_
  conv_lhs => rw [← chosen_range (h.height_eq col hcol)]
  exact retain_map _ _ _

lemma mem_kept {keep : List Bool} (hlen : keep.length = n) (j : Nat) :
    j ∈ (((range n).zip keep).filter (·.2)).map (·.1) ↔ keep[j]? = some true := by
  constructor
  · intro h
    obtain ⟨⟨i, b⟩, hp, rfl⟩ := mem_map.1 h
    obtain ⟨hzip, hb⟩ := mem_filter.1 hp
    obtain ⟨m, hm⟩ := mem_iff_getElem?.1 hzip
    rw [getElem?_zip_eq_some] at hm
    have hmi : m = i := by
      have := (List.getElem?_eq_some_iff.1 hm.1).2
      rwa [getElem_range] at this
    subst hmi
    have hbt : b = true := hb
    rw [hbt] at hm
    exact hm.2
  · intro h
    have hj : j < n := hlen ▸ (List.getElem?_eq_some_iff.1 h).1
    refine mem_map.2 ⟨(j, true), mem_filter.2 ⟨?_, rfl⟩, rfl⟩
    refine mem_iff_getElem?.2 ⟨j, ?_⟩
    rw [getElem?_zip_eq_some]
    exact ⟨getElem?_range hj, h⟩

lemma kept_increasing {keep : List Bool} (hlen : keep.length = n) :
    ((((range n).zip keep).filter (·.2)).map (·.1)).Pairwise (· < ·) := by
  have hsub : ((((range n).zip keep).filter (·.2)).map (·.1)).Sublist (range n) := by
    refine (filter_sublist.map _).trans ?_
    rw [map_fst_zip (by rw [length_range, hlen])]
  exact pairwise_lt_range.sublist hsub

end

end RustCfml.Qoq
