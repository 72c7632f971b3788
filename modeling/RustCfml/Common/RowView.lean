import RustCfml.Common.Rectangular

/-!
# The row view, in closed form

* `Rectangular.rowAt_eq` — the row is the map of the entries `(name, shown cell)`, in column
  order, so **of several columns with one folded name the last one wins**;
* `fromNamedRows_eq` — when the rows bring no new names, column `c` of the result is what
  each row answers for `c`.
-/

namespace RustCfml.QueryData

open List

variable {α : Type} [Cell α]

def shownAt (row : Nat) (col : List α) : α := shown (col[row]?.getD Cell.null)

def rowEntries (q : QueryData α) (row : Nat) : List (String × α) :=
  (q.columns.zip q.data).map fun p => (p.1, shownAt row p.2)

variable {q : QueryData α} {row : Nat}

lemma rowCells_eq {names : List String} {cols : List (List α)}
    (hlen : names.length = cols.length) (hrow : ∀ col ∈ cols, row < col.length) (m : ValueMap α) :
    rowCells row names cols m =
    .ok (ValueMap.ofEntries ((names.zip cols).map fun p => (p.1, shownAt row p.2)) m) := by
  induction names generalizing cols m with
  | nil => rw [rowCells]; rfl
  | cons c cs ih =>
    cases cols with
    | nil => simp at hlen
    | cons col cols =>
      have hlt : row < col.length := hrow col (by simp)
      have hrow' : ∀ d ∈ cols, row < d.length := fun d hd => hrow d (by simp [hd])
      have hcell : shownAt row col = shown col[row] := by
        rw [shownAt, getElem?_eq_getElem hlt]
        rfl
      rw [rowCells, getElem?_eq_getElem hlt]
      dsimp only
      rw [ih (by simpa using hlen) hrow', ← hcell]
      rfl

lemma Rectangular.rowAt_eq (h : Rectangular q) (hrow : row < q.rowCount) :
    q.rowAt row = .ok (some (ValueMap.ofEntries (q.rowEntries row) [])) := by
  have hcols : ∀ col ∈ q.data, row < col.length := fun col hcol => by rwa [h.level col hcol]
  rw [rowAt, if_neg (Nat.not_le.2 hrow), rowCells_eq h.aligned hcols]
  rfl

def viewColumn (q : QueryData α) (name : String) : Option (List α) :=
  ValueMap.get? (q.columns.zip q.data).reverse name

def viewCell (q : QueryData α) (row : Nat) (name : String) : α :=
  ((q.viewColumn name).map (shownAt row)).getD Cell.emptyString

lemma viewCell_congr {a b : String} (h : asciiFold a = asciiFold b) :
    q.viewCell row a = q.viewCell row b := by
  rw [viewCell, viewColumn, ValueMap.get?_congr h]
  rfl

variable {c : String} {columns : List String} {rows : List (ValueMap α)}

omit [Cell α] in
lemma exists_viewColumn (h : q.columns.length = q.data.length) (hc : c ∈ q.columns) :
    ∃ k col, q.viewColumn c = some col ∧ asciiFold k = asciiFold c ∧
    (k, col) ∈ q.columns.zip q.data := by
  have hnames : (q.columns.zip q.data).map Prod.fst = q.columns := map_fst_zip (by omega)
  have hmem : asciiFold c ∈ (q.columns.zip q.data).reverse.map fun e => asciiFold e.1 := by
    rw [map_reverse, mem_reverse]
    obtain ⟨p, hp, rfl⟩ := mem_map.1 (hnames ▸ hc)
    exact mem_map.2 ⟨p, hp, rfl⟩
  obtain ⟨col, hcol, k, hk, hin⟩ := ValueMap.exists_get?_of_mem hmem
  exact ⟨k, col, hcol, hk, mem_reverse.1 hin⟩

lemma get?_rowEntries (h : q.columns.length = q.data.length) (hc : c ∈ q.columns) :
    ValueMap.get? (ValueMap.ofEntries (q.rowEntries row) []) c = some (q.viewCell row c) := by
  obtain ⟨k, col, hcol, -, -⟩ := exists_viewColumn h hc
  rw [ValueMap.get?_ofEntries, rowEntries, ← map_reverse, ValueMap.get?_map, viewCell]
  show ((q.viewColumn c).map _).or _ = _
  rw [hcol]
  rfl

lemma extendColumns_of_known {ks : List String}
    (h : ∀ k ∈ ks, ∃ c ∈ q.columns, asciiFold c = asciiFold k) : q.extendColumns ks = q := by
  induction ks with
  | nil => rfl
  | cons k ks ih =>
    obtain ⟨c, hc, hfold⟩ := h k (by simp)
    have hsome : (q.columnIndexCi k).isSome := by
      rw [columnIndexCi, findIdx?_isSome, any_eq_true]
      exact ⟨c, hc, eqIgnoreAsciiCase_iff.2 hfold⟩
    obtain ⟨i, hi⟩ := Option.isSome_iff_exists.1 hsome
    rw [extendColumns, hi]
    exact ih fun k' hk' => h k' (by simp [hk'])

omit [Cell α] in
lemma zipWith_push {β : Type} (f : β → List α) (g : β → α) (bs : List β) :
    zipWith (fun b col => col ++ [g b]) bs (bs.map f) = bs.map fun b => f b ++ [g b] := by
  induction bs with
  | nil => rfl
  | cons b bs ih => rw [map_cons, zipWith_cons_cons, ih, map_cons]

lemma foldl_pushRowNamed (done : List (ValueMap α))
    (h : ∀ row ∈ rows, ∀ k ∈ row.keys, ∃ c ∈ columns, asciiFold c = asciiFold k) :
    rows.foldl pushRowNamed ⟨columns, columns.map fun c => done.map fun row => rowValue row c⟩ =
      ⟨columns, columns.map fun c => (done ++ rows).map fun row => rowValue row c⟩ := by
  induction rows generalizing done with
  | nil => rw [append_nil]; rfl
  | cons row rows ih =>
    have hrow : pushRowNamed ⟨columns, columns.map fun c => done.map fun r => rowValue r c⟩ row =
        ⟨columns, columns.map fun c => (done ++ [row]).map fun r => rowValue r c⟩ := by
      rw [pushRowNamed, extendColumns_of_known (h row (by simp))]
      simp [zipWith_push]
    rw [foldl_cons, hrow, ih _ fun r hr => h r (by simp [hr]), append_assoc]
    rfl

lemma fromNamedRows_eq (h : ∀ row ∈ rows, ∀ k ∈ row.keys, ∃ c ∈ columns,
      asciiFold c = asciiFold k) :
    fromNamedRows columns rows =
    ⟨columns, columns.map fun c => rows.map fun row => rowValue row c⟩ :=
  foldl_pushRowNamed [] h

end RustCfml.QueryData
