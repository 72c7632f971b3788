import RustCfml.Common.QueryMutation
import RustCfml.Lib.FirstOf

/-!
# `append_query` and `prepend_query`, row by row

The two methods work column by column: first the columns of the other query that this one
lacks are added, filled with `Null`, then every column is extended by the cells of the
column that answers to its name. Read by rows that is a concatenation:
**the old rows, padded with `Null` in the new columns, and the other query's rows, each
giving a column the value under its name or `Null`.**
-/

namespace RustCfml.QueryData

open List

variable {α : Type} [Cell α]

/-- The first `n` rows of some columns; a column too short for a row gives `Null`. -/
def rowsOf (n : Nat) (cols : List (List α)) : List (List α) :=
  (List.range n).map fun r => cols.map fun col => col[r]?.getD Cell.null

def rows (q : QueryData α) : List (List α) := rowsOf q.rowCount q.data

def valueFor (other : QueryData α) (r : Nat) (name : String) : α :=
  (((other.columnIndexCi name).bind fun i => other.data[i]?).bind fun col => col[r]?).getD Cell.null

def newColumns (q other : QueryData α) : List String :=
  FirstOf.dedupBy asciiFold (q.columns.map asciiFold) other.columns

omit [Cell α] in
lemma columnIndexCi_eq_none_iff {q : QueryData α} {name : String} :
    q.columnIndexCi name = none ↔ asciiFold name ∉ q.columns.map asciiFold := by
  rw [columnIndexCi, findIdx?_eq_none_iff, mem_map]
  simp only [Bool.eq_false_iff, ne_eq, eqIgnoreAsciiCase_iff, not_exists, not_and]

lemma extendColumns_eq (q : QueryData α) (names : List String) : q.extendColumns names =
      ⟨q.columns ++ FirstOf.dedupBy asciiFold (q.columns.map asciiFold) names, q.data ++ replicate
          (FirstOf.dedupBy asciiFold (q.columns.map asciiFold) names).length
          (replicate q.rowCount Cell.null)⟩ := by
  induction names generalizing q with
  | nil => simp [extendColumns, FirstOf.dedupBy]
  | cons k ks ih =>
    rw [extendColumns, FirstOf.dedupBy]
    cases hk : q.columnIndexCi k with
    | some i =>
      have hmem : asciiFold k ∈ q.columns.map asciiFold := by
        by_contra hmem
        rw [columnIndexCi_eq_none_iff.2 hmem] at hk
        cases hk
      rw [if_pos hmem]
      exact ih q
    | none =>
      rw [if_neg (columnIndexCi_eq_none_iff.1 hk)]
      dsimp only
      rw [ih, rowCount_pushColumn]
      -- the name just added is in front of the seen ones or behind them
      have hseen : FirstOf.dedupBy asciiFold
          ((q.pushColumn k (replicate q.rowCount Cell.null)).columns.map asciiFold) ks =
          FirstOf.dedupBy asciiFold (asciiFold k :: q.columns.map asciiFold) ks := by
        apply FirstOf.dedupBy_congr
        intro key
        simp [pushColumn, or_comm]
      rw [hseen]
      simp [pushColumn, replicate_succ]

lemma rowsOf_zipWith_append {n m : Nat} {cols more : List (List α)}
    (hlen : cols.length = more.length) (hcols : ∀ col ∈ cols, col.length = n) :
    rowsOf (n + m) (zipWith (· ++ ·) cols more) = rowsOf n cols ++ rowsOf m more := by
  rw [rowsOf, range_add, map_append, map_map]
  congr 1
  · refine map_congr_left fun r hr => ?_
    have hr := mem_range.1 hr
    rw [map_zipWith]
    apply ext_getElem (by simp [hlen])
    intro i hi _
    have hi : i < cols.length := by
      simp at hi
      omega
    have hcol := hcols cols[i] (getElem_mem _)
    simp [getElem?_append_left (show r < cols[i].length by omega)]
  · refine map_congr_left fun r _ => ?_
    simp only [Function.comp_apply, map_zipWith]
    apply ext_getElem (by simp [hlen])
    intro i hi _
    have hi : i < cols.length := by
      simp at hi
      omega
    have hcol := hcols cols[i] (getElem_mem _)
    simp [getElem?_append_right (show cols[i].length ≤ n + r by omega), hcol]

lemma rowsOf_pad (n k : Nat) (cols : List (List α)) :
    rowsOf n (cols ++ replicate k (replicate n Cell.null)) =
      (rowsOf n cols).map (· ++ replicate k Cell.null) := by
  rw [rowsOf, rowsOf, map_map]
  refine map_congr_left fun r hr => ?_
  simp [mem_range.1 hr]

lemma rowsOf_columnOrNull (n : Nat) (other : QueryData α) (names : List String) :
    rowsOf n (names.map other.columnOrNull) = (range n).map fun r =>
    names.map (other.valueFor r) := by
  refine map_congr_left fun r _ => ?_
  rw [map_map]
  refine map_congr_left fun name _ => ?_
  rw [Function.comp_apply, columnOrNull, valueFor]
  cases other.columnIndexCi name with
  | none => by_cases hr : r < other.rowCount <;> simp [hr]
  | some i => cases hcol : other.data[i]? <;> simp [hcol]

section

variable {q other : QueryData α} (h : Rectangular q) (ho : Rectangular other)

include h ho

lemma rowCount_of_no_columns (hnil : (q.extendColumns other.columns).data = []) :
    q.rowCount = 0 ∧ other.rowCount = 0 := by
  rw [extendColumns_eq, append_eq_nil_iff] at hnil
  have hq : q.columns = [] := length_eq_zero_iff.1 (by rw [h.aligned, hnil.1]; rfl)
  have hnew := hnil.2
  rw [hq, replicate_eq_nil_iff, length_eq_zero_iff] at hnew
  have hother : other.columns = [] := by
    cases hc : other.columns with
    | nil => rfl
    | cons c cs => simp [hc, FirstOf.dedupBy] at hnew
  have hdata : other.data = [] := length_eq_zero_iff.1 (by rw [← ho.aligned, hother]; rfl)
  exact ⟨by simp [rowCount, hnil.1], by simp [rowCount, hdata]⟩

lemma rowCount_extended {f : String → List α → List α} {m : Nat}
    (hm : m = q.rowCount + other.rowCount)
    (hf : ∀ c col, col.length = q.rowCount → (f c col).length = m) :
    rowCount ⟨(q.extendColumns other.columns).columns, zipWith f
      (q.extendColumns other.columns).columns (q.extendColumns other.columns).data⟩ = m := by
  obtain ⟨hrect, hcount⟩ := h.extendColumns other.columns
  by_cases hd : (q.extendColumns other.columns).data = []
  · have hzero := rowCount_of_no_columns h ho hd
    rw [rowCount, hd, zipWith_nil_right, hm, hzero.1, hzero.2]
    rfl
  · rw [← hcount] at hf
    refine (hrect.uniform.zipWith _ rfl hf).rowCount ?_
    simp only [ne_eq, zipWith_eq_nil_iff, hd, or_false]
    intro hnil
    exact hd (length_eq_zero_iff.1 (by rw [← hrect.aligned, hnil]; rfl))

end

def rowsFor (other : QueryData α) (names : List String) : List (List α) :=
  (List.range other.rowCount).map fun r => names.map (other.valueFor r)

/-- **Appending and prepending, row by row.** -/
theorem append_prepend_rows (q other : RectQuery α) :
    let names := q.columns ++ newColumns q.toQueryData other.toQueryData
    let padded := q.rows.map
      (· ++ List.replicate (newColumns q.toQueryData other.toQueryData).length Cell.null)
    (q.appendQuery other.toQueryData).columns = names ∧
      (q.appendQuery other.toQueryData).rows = padded ++ other.rowsFor names ∧
      (q.prependQuery other.toQueryData).columns = names ∧
      (q.prependQuery other.toQueryData).rows = other.rowsFor names ++ padded := by
  obtain ⟨q, h⟩ := q
  obtain ⟨other, ho⟩ := other
  dsimp only
  set wide := q.extendColumns other.columns
  have hext : wide = _ := extendColumns_eq q other.columns
  have hrect := (h.extendColumns other.columns).1
  have hcount := (h.extendColumns other.columns).2
  have hcolumns : wide.columns = q.columns ++ newColumns q other := by rw [hext]; rfl
  have hpad : rowsOf q.rowCount wide.data =
      q.rows.map (· ++ List.replicate (newColumns q other).length Cell.null) := by
    rw [hext]
    exact rowsOf_pad _ _ _
  have hlevel : ∀ col ∈ wide.data, col.length = q.rowCount := by
    intro col hcol
    rw [hrect.level col hcol, hcount]
  have hmore : ∀ col ∈ wide.columns.map other.columnOrNull,
      col.length = other.rowCount := by
    intro col hcol
    obtain ⟨c, -, rfl⟩ := List.mem_map.1 hcol
    exact ho.length_columnOrNull c
  have hlen : wide.data.length =
      (wide.columns.map other.columnOrNull).length := by
    rw [length_map, hrect.aligned]
  refine ⟨hcolumns, ?_, hcolumns, ?_⟩
  · have happend : (q.appendQuery other).rowCount = q.rowCount + other.rowCount :=
      rowCount_extended h ho rfl fun c col hcol => by
        rw [length_append, hcol, ho.length_columnOrNull c]
    have hdata : (q.appendQuery other).data = List.zipWith (· ++ ·)
        wide.data
        (wide.columns.map other.columnOrNull) := by
      rw [appendQuery, zipWith_map_right, zipWith_comm]
    rw [rows, happend, hdata, rowsOf_zipWith_append hlen hlevel, hpad, rowsOf_columnOrNull,
      hcolumns]
    rfl
  · have hprepend : (q.prependQuery other).rowCount = other.rowCount + q.rowCount :=
      rowCount_extended h ho (Nat.add_comm _ _) fun c col hcol => by
        rw [length_append, hcol, ho.length_columnOrNull c]
    have hdata : (q.prependQuery other).data = List.zipWith (· ++ ·)
        (wide.columns.map other.columnOrNull)
        wide.data := by
      rw [prependQuery, zipWith_map_left]
    rw [rows, hprepend, hdata, rowsOf_zipWith_append hlen.symm hmore, hpad, rowsOf_columnOrNull,
      hcolumns]
    rfl

/-- A query without the other's column is given it: its column list does not stay. -/
theorem append_adds_column : let q : QueryData CfmlValue := ⟨["a"], [[.int 1]]⟩
    let other : QueryData CfmlValue := ⟨["b"], [[.int 2]]⟩
    q.Rectangular ∧ other.Rectangular ∧ (q.appendQuery other).columns ≠ q.columns := by
  refine ⟨⟨rfl, ?_⟩, ⟨rfl, ?_⟩, by decide⟩ <;> simp [rowCount]

end RustCfml.QueryData
