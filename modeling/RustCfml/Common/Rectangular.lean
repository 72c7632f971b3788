import RustCfml.Common.QueryData

/-!
# Which mutators keep a query rectangular

**`set_column` is the one that does not keep it.** Its truncation is guarded by
`rows > 0`, so on a query with no rows a non-empty value list goes in at its own length,
beside columns that are still empty.
-/

namespace RustCfml.QueryData

open List

variable {α : Type}

/-- All columns of one length, and one name per column. -/
structure Rectangular (q : QueryData α) : Prop where
  aligned : q.columns.length = q.data.length
  level : ∀ col ∈ q.data, col.length = q.rowCount

/-- The same with the common length named; at no columns at all, any `n` will do. -/
def Uniform (n : Nat) (q : QueryData α) : Prop :=
  q.columns.length = q.data.length ∧ ∀ col ∈ q.data, col.length = n

variable {q other : QueryData α} {n m : Nat} {fs : List (List α → Except Panic (List α))}

lemma Uniform.rowCount (h : Uniform n q) (hne : q.data ≠ []) : q.rowCount = n := by
  cases hd : q.data with
  | nil => exact absurd hd hne
  | cons col cols => simpa [QueryData.rowCount, hd] using h.2 col (by simp [hd])

lemma Uniform.rectangular (h : Uniform n q) : Rectangular q := by
  refine ⟨h.1, fun col hcol => ?_⟩
  rw [h.rowCount (ne_nil_of_mem hcol)]
  exact h.2 col hcol

lemma Rectangular.uniform (h : Rectangular q) : Uniform q.rowCount q := ⟨h.aligned, h.level⟩

lemma Uniform.pushColumn (h : Uniform n q) (name : String)
    {col : List α} (hcol : col.length = n) : Uniform n (q.pushColumn name col) := by
  refine ⟨by simp [QueryData.pushColumn, h.1], fun c hc => ?_⟩
  simp [QueryData.pushColumn] at hc
  rcases hc with hc | rfl
  · exact h.2 c hc
  · exact hcol

lemma Uniform.zipWith (h : Uniform n q)
    {β : Type} {f : β → List α → List α} (bs : List β) (hbs : bs.length = q.columns.length)
    (hf : ∀ b col, col.length = n → (f b col).length = m) :
    Uniform m { q with data := zipWith f bs q.data } := by
  refine ⟨by simp [hbs, h.1], fun col hcol => ?_⟩
  obtain ⟨i, hi, rfl⟩ := mem_iff_getElem.1 hcol
  simp only [getElem_zipWith]
  exact hf _ _ (h.2 _ (getElem_mem _))

variable {cols : List (List α)} {values : List α}

lemma eachColumn_ok (hcols : ∀ col ∈ cols, col.length = n)
    (hok : ∀ f ∈ fs, ∀ col, col.length = n → ∃ col', f col = .ok col' ∧ col'.length = m)
    (hlen : fs.length = cols.length) : (eachColumn fs cols).1.length = cols.length ∧
      ∀ col ∈ (eachColumn fs cols).1, col.length = m := by
  induction fs generalizing cols with
  | nil =>
    cases cols with
    | nil => simp [eachColumn]
    | cons c cs => simp at hlen
  | cons f fs ih =>
    cases cols with
    | nil => simp at hlen
    | cons col cols =>
      obtain ⟨col', hf, hcol'⟩ := hok f (by simp) col (hcols col (by simp))
      have hcols' : ∀ c ∈ cols, c.length = n := fun c hc => hcols c (by simp [hc])
      obtain ⟨hl, hall⟩ := ih hcols' (fun g hg => hok g (by simp [hg])) (by simpa using hlen)
      simp only [eachColumn, hf]
      refine ⟨by simp [hl], fun d hd => ?_⟩
      rcases mem_cons.1 hd with rfl | hd
      · exact hcol'
      · exact hall d hd

lemma eachColumn_panic (hcols : ∀ col ∈ cols, col.length = n)
    (hpanic : ∀ f ∈ fs, ∀ col, col.length = n → ∃ p, f col = .error p) :
    (eachColumn fs cols).1 = cols := by
  cases fs with
  | nil => simp [eachColumn]
  | cons f fs =>
    cases cols with
    | nil => simp [eachColumn]
    | cons col cols =>
      obtain ⟨p, hp⟩ := hpanic f (by simp) col (hcols col (by simp))
      simp [eachColumn, hp]

/-- A loop over the columns whose body, at this length, either always goes through to length `m` or
always panics. -/
lemma Uniform.eachColumn (h : Uniform n q) (hlen : fs.length = q.data.length)
    (hfs : (∀ f ∈ fs, ∀ col, col.length = n → ∃ col', f col = .ok col' ∧ col'.length = m) ∨
      (∀ f ∈ fs, ∀ col, col.length = n → ∃ p, f col = .error p)) :
    Rectangular { q with data := (QueryData.eachColumn fs q.data).1 } := by
  rcases hfs with hok | hpanic
  · obtain ⟨hl, hall⟩ := eachColumn_ok h.2 hok hlen
    exact Uniform.rectangular (n := m) ⟨h.1.trans hl.symm, hall⟩
  · rw [eachColumn_panic h.2 hpanic]
    exact h.rectangular

/-! ## The mutators, one by one -/

lemma Rectangular.new (columns : List String) : Rectangular (new (α := α) columns) :=
  Uniform.rectangular (n := 0) ⟨by simp [QueryData.new], by simp [QueryData.new]⟩

lemma Rectangular.swapRows (h : Rectangular q) (r1 r2 : Nat) :
    Rectangular (q.swapRows r1 r2).state := by
  refine h.uniform.eachColumn (m := q.rowCount) (by simp) ?_
  by_cases hr : r1 < q.rowCount ∧ r2 < q.rowCount
  · refine .inl fun f hf col hcol => ?_
    obtain ⟨-, -, rfl⟩ := mem_map.1 hf
    have h1 : r1 < col.length := by omega
    have h2 : r2 < col.length := by omega
    refine ⟨(col.set r1 col[r2]).set r2 col[r1], ?_, by simpa using hcol⟩
    simp [swapCells, getElem?_eq_getElem h1, getElem?_eq_getElem h2]
  · refine .inr fun f hf col hcol => ?_
    obtain ⟨-, -, rfl⟩ := mem_map.1 hf
    by_cases h1 : r1 < col.length
    · have h2 : col[r2]? = none := getElem?_eq_none (by omega)
      exact ⟨_, by simp only [swapCells, getElem?_eq_getElem h1, h2]; rfl⟩
    · exact ⟨_, by simp only [swapCells, getElem?_eq_none (Nat.le_of_not_lt h1)]; rfl⟩

lemma Rectangular.reverseRows (h : Rectangular q) : Rectangular q.reverseRows := by
  refine Uniform.rectangular (n := q.rowCount) ⟨by simp [QueryData.reverseRows, h.aligned], ?_⟩
  intro col hcol
  obtain ⟨c, hc, rfl⟩ := mem_map.1 hcol
  simpa using h.level c hc

lemma Rectangular.removeColumnByName (h : Rectangular q) (name : String) :
    Rectangular (q.removeColumnByName name).1 := by
  unfold QueryData.removeColumnByName
  cases q.columnIndexCi name with
  | none => exact h
  | some i =>
    refine Uniform.rectangular (n := q.rowCount) ⟨?_, fun col hcol => ?_⟩
    · simp only [length_eraseIdx, h.aligned]
    · exact h.level col (mem_of_mem_eraseIdx hcol)

lemma Rectangular.storeColumn (h : Rectangular q) (name : String)
    (hv : values.length = q.rowCount) :
    Rectangular (q.storeColumn name values) := by
  unfold QueryData.storeColumn
  cases q.columnIndexCi name with
  | none => exact (h.uniform.pushColumn name hv).rectangular
  | some ci =>
    refine Uniform.rectangular (n := q.rowCount) ⟨by simp [h.aligned], fun c hc => ?_⟩
    rcases mem_or_eq_of_mem_set hc with hc | rfl
    · exact h.level c hc
    · exact hv

def OnlyColumn (q : QueryData α) (name : String) : Prop :=
  ∀ i < q.columns.length, q.columnIndexCi name = some i

instance (q : QueryData α) (name : String) : Decidable (q.OnlyColumn name) :=
  inferInstanceAs (Decidable (∀ i < q.columns.length, _))

lemma storeColumn_rectangular_iff (h : Rectangular q) (hrows : q.rowCount = 0) (name : String)
    (hv : values ≠ []) :
    Rectangular (q.storeColumn name values) ↔ q.OnlyColumn name := by
  have hlen : 0 < values.length := length_pos_iff.2 hv
  -- an old column that survives the store is still empty
  have hshort : Rectangular (q.storeColumn name values) →
      ∀ col ∈ (q.storeColumn name values).data, values ∈ (q.storeColumn name values).data →
        col.length = values.length := fun hr col hc hm =>
    (hr.level col hc).trans (hr.level values hm).symm
  unfold QueryData.storeColumn OnlyColumn at *
  cases hci : q.columnIndexCi name with
  | none =>
    simp only [hci, pushColumn] at hshort ⊢
    constructor
    · intro hr i hi
      have hi' : i < q.data.length := h.aligned ▸ hi
      have hmem : q.data[i] ∈ q.data := getElem_mem hi'
      have := hshort hr _ (mem_append_left _ hmem) (by simp)
      rw [h.level _ hmem, hrows] at this
      omega
    · intro hall
      have hnil : q.columns = [] := by
        rcases q.columns.length.eq_zero_or_pos with h0 | h0
        · exact length_eq_zero_iff.1 h0
        · exact absurd (hall 0 h0) (by simp)
      have hdata : q.data = [] := length_eq_zero_iff.1 (by rw [← h.aligned, hnil]; rfl)
      exact Uniform.rectangular (n := values.length) ⟨by simp [hnil, hdata], by simp [hdata]⟩
  | some ci =>
    have hlt : ci < q.data.length := by
      rw [← h.aligned]
      exact (findIdx?_eq_some_iff_findIdx_eq.1 hci).1
    simp only [hci, Option.some.injEq] at hshort ⊢
    constructor
    · intro hr i hi
      by_contra hne
      have hi' : i < q.data.length := h.aligned ▸ hi
      have hmem : q.data[i] ∈ q.data.set ci values := by
        rw [← getElem_set_ne hne (by simpa using hi')]
        exact getElem_mem _
      have := hshort hr _ hmem (mem_set hlt values)
      rw [h.level _ (getElem_mem hi'), hrows] at this
      omega
    · intro hall
      refine Uniform.rectangular (n := values.length) ⟨by simp [h.aligned], fun c hc => ?_⟩
      obtain ⟨i, hi, rfl⟩ := mem_iff_getElem.1 hc
      have hi' : i < q.columns.length := by simpa [h.aligned] using hi
      simp [← hall i hi']

variable [Cell α]

@[simp] lemma length_resize (n : Nat) (col : List α) : (resize n col).length = n := by
  simp [resize]; omega

lemma rowCount_pushColumn (q : QueryData α) (name : String) :
    (q.pushColumn name (replicate q.rowCount Cell.null)).rowCount = q.rowCount := by
  cases hd : q.data with
  | nil | cons col cols => simp [QueryData.pushColumn, rowCount, hd]

section

variable (h : Rectangular q)
include h

lemma Rectangular.extendColumns (ks : List String) :
    Rectangular (q.extendColumns ks) ∧ (q.extendColumns ks).rowCount = q.rowCount := by
  induction ks generalizing q with
  | nil => exact ⟨h, rfl⟩
  | cons k ks ih =>
    unfold QueryData.extendColumns
    cases q.columnIndexCi k with
    | some _ => exact ih h
    | none =>
      obtain ⟨hr, hc⟩ := ih (h.uniform.pushColumn k (length_replicate ..)).rectangular
      exact ⟨hr, hc.trans (rowCount_pushColumn q k)⟩

lemma Rectangular.setCellNamed (row : Nat)
    (name : String) (val : α) : Rectangular (q.setCellNamed row name val).state.1 := by
  unfold QueryData.setCellNamed
  split
  · exact h
  cases q.columnIndexCi name with
  | none => exact (h.uniform.pushColumn name (by simp)).rectangular
  | some ci =>
    dsimp only
    cases hcol : q.data[ci]? with
    | none => exact h
    | some col =>
      dsimp only
      split
      · refine Uniform.rectangular (n := q.rowCount) ⟨by simp [h.aligned], fun c hc => ?_⟩
        rcases mem_or_eq_of_mem_set hc with hc | rfl
        · exact h.level c hc
        · simpa using h.level col (mem_of_getElem? hcol)
      · exact h

lemma Rectangular.pushRowPositional (vals : List α) : Rectangular (q.pushRowPositional vals) := by
  have hz := h.uniform.zipWith (m := q.rowCount + 1) (f := fun v col => col ++ [v])
    (resize q.columns.length vals) (by simp) (by simp)
  rw [zipWith_comm] at hz
  exact hz.rectangular

lemma Rectangular.pushRowNamed (row : ValueMap α) : Rectangular (q.pushRowNamed row) :=
  ((h.extendColumns row.keys).1.uniform.zipWith (m := (q.extendColumns row.keys).rowCount + 1)
    _ rfl (fun _ col hcol => by simp [hcol])).rectangular

lemma Rectangular.insertRowNamed (at_ : Nat) (row : ValueMap α) :
    Rectangular (q.insertRowNamed at_ row).state := by
  have hq := (h.extendColumns row.keys).1
  refine hq.uniform.eachColumn (m := (q.extendColumns row.keys).rowCount + 1)
    (by simp [hq.aligned]) ?_
  -- every column has the same length, so the position is in range for all or for none
  by_cases hat : at_ ≤ (q.extendColumns row.keys).rowCount
  · refine .inl fun f hf col hcol => ?_
    obtain ⟨c, -, rfl⟩ := mem_map.1 hf
    rw [← hcol] at hat ⊢
    exact ⟨_, if_pos hat, length_insertIdx_of_le_length hat _⟩
  · refine .inr fun f hf col hcol => ?_
    obtain ⟨c, -, rfl⟩ := mem_map.1 hf
    rw [← hcol] at hat
    exact ⟨_, if_neg hat⟩

lemma Rectangular.removeRow (row : Nat) : Rectangular (q.removeRow row).state.1 := by
  unfold QueryData.removeRow
  split
  · exact h
  · rename_i hrow
    split
    · exact h
    · refine h.uniform.eachColumn (m := q.rowCount - 1) (by simp) (.inl fun f hf col hcol => ?_)
      obtain ⟨-, -, rfl⟩ := mem_map.1 hf
      have hlt : row < col.length := by omega
      exact ⟨_, if_pos hlt, by rw [length_eraseIdx_of_lt hlt, hcol]⟩

lemma Rectangular.addColumn (name : String) (values : List α) :
    Rectangular (q.addColumn name values) := by
  unfold QueryData.addColumn
  dsimp only
  split
  · -- a longer column extends every other one to its own length
    have hdata : Uniform values.length { q with data := q.data.map (resize values.length) } := by
      refine ⟨by simp [h.aligned], fun col hcol => ?_⟩
      obtain ⟨c, -, rfl⟩ := mem_map.1 hcol
      simp
    exact (hdata.pushColumn name rfl).rectangular
  · split
    · exact (h.uniform.pushColumn name (by simp)).rectangular
    · exact (h.uniform.pushColumn name (by omega)).rectangular

end

lemma Rectangular.length_columnOrNull (h : Rectangular other)
    (name : String) : (other.columnOrNull name).length = other.rowCount := by
  unfold columnOrNull
  cases hi : other.columnIndexCi name with
  | none => simp
  | some i =>
    have hlt : i < other.data.length := by
      rw [← h.aligned]
      exact (findIdx?_eq_some_iff_findIdx_eq.1 hi).1
    simpa [getElem?_eq_getElem hlt] using h.level _ (getElem_mem hlt)

lemma Rectangular.appendQuery (h : Rectangular q) (ho : Rectangular other) :
    Rectangular (q.appendQuery other) :=
  ((h.extendColumns other.columns).1.uniform.zipWith
    (m := (q.extendColumns other.columns).rowCount + other.rowCount) _ rfl
    (fun c col hcol => by simp [hcol, ho.length_columnOrNull c])).rectangular

lemma Rectangular.prependQuery (h : Rectangular q) (ho : Rectangular other) :
    Rectangular (q.prependQuery other) :=
  ((h.extendColumns other.columns).1.uniform.zipWith
    (m := other.rowCount + (q.extendColumns other.columns).rowCount) _ rfl
    (fun c col hcol => by simp [hcol, ho.length_columnOrNull c])).rectangular

lemma length_columnValues {rows : Nat} (hr : rows ≠ 0) (values : List α) :
    (columnValues rows values).length = rows := by
  unfold columnValues
  split
  · simp
  · split
    · simp; omega
    · omega

lemma columnValues_zero (values : List α) : columnValues 0 values = values := by
  simp [columnValues]

/-- **`set_column` keeps the shape exactly when** the query has rows, or the value list is empty, or
there is no other column for it to disagree with. -/
theorem setColumn_rectangular_iff (h : Rectangular q) (name : String) (values : List α) :
    Rectangular (q.setColumn name values) ↔ q.rowCount ≠ 0 ∨ values = [] ∨ q.OnlyColumn name := by
  unfold setColumn
  by_cases hr : q.rowCount = 0
  · rw [hr, columnValues_zero]
    by_cases hv : values = []
    · simp [hv, true_or, or_true]
      exact h.storeColumn name (by simp [hr])
    · simpa [hv] using storeColumn_rectangular_iff h hr name hv
  · simp [hr, true_or]
    exact h.storeColumn name (length_columnValues hr values)

end RustCfml.QueryData
