import RustCfml.Qoq.Pipeline

/-!
# Columns and rows

Every pipeline ends in columns, but each fills them in its own way: a row at a time, a
chunk at a time, a whole column at a time, out of one flat buffer. **All of them make
`rowsToCols` of the output rows**; this file says so once, for each way of filling.
-/

namespace RustCfml.Qoq

open List Option

lemma emptyColumns_eq (n : Nat) : emptyColumns n = rowsToCols [] n := by
  simp [emptyColumns, rowsToCols]

variable (rows : List (List CfmlValue))

lemma length_rowsToCols (n : Nat) : (rowsToCols rows n).length = n := by
  simp [rowsToCols]

variable {n i : Nat} {row : List CfmlValue} {α : Type}

lemma map_range_getD (h : row.length = n) : (range n).map (fun i => row[i]?.getD .null) = row := by
  refine ext_getElem? fun i => ?_
  rw [getElem?_map]
  by_cases hi : i < n
  · rw [getElem?_range hi, map_some, getElem?_eq_getElem (h ▸ hi), getD_some]
  · rw [getElem?_eq_none (by simpa using hi), getElem?_eq_none (by omega)]
    rfl

lemma extendColumns_rowsToCols (rows more : List (List CfmlValue)) (n : Nat) :
    extendColumns (rowsToCols rows n) (rowsToCols more n) = rowsToCols (rows ++ more) n := by
  simp [extendColumns, rowsToCols, zipWith_map]

lemma pushRow_rowsToCols (h : row.length = n) :
    pushRow (rowsToCols rows n) row = rowsToCols (rows ++ [row]) n := by
  conv_lhs => rw [← map_range_getD h]
  simp [pushRow, rowsToCols, zipWith_map]

lemma foldl_pushRow : ∀ {rows : List (List CfmlValue)} (done : List (List CfmlValue)),
    (∀ row ∈ rows, row.length = n) → rows.foldl pushRow (rowsToCols done n) =
    rowsToCols (done ++ rows) n
  | [], done, _ => by rw [append_nil]; rfl
  | row :: rows, done, h => by
    rw [foldl_cons, pushRow_rowsToCols done (h row mem_cons_self),
      foldl_pushRow _ (forall_mem_cons.1 h).2, append_assoc]
    rfl

lemma foldl_extendColumns :
    ∀ (chunks : List (List (List CfmlValue))) (done : List (List CfmlValue)),
      (chunks.map (rowsToCols · n)).foldl extendColumns (rowsToCols done n) =
      rowsToCols (done ++ chunks.flatten) n
  | [], done => by rw [flatten_nil, append_nil]; rfl
  | chunk :: chunks, done => by
    rw [map_cons, foldl_cons, extendColumns_rowsToCols, foldl_extendColumns, append_assoc]
    rfl

lemma rowsToCols_map {β : Type} (v : α → β → CfmlValue) (xs : List α) (es : List β) :
    rowsToCols (xs.map fun x => es.map (v x)) es.length = es.map fun e => xs.map fun x =>
    v x e := by
  refine ext_getElem? fun i => ?_
  rw [rowsToCols, getElem?_map, getElem?_map]
  by_cases hi : i < es.length
  · rw [getElem?_range hi, getElem?_eq_getElem hi, map_some, map_some, List.map_map]
    congr 2
    funext x
    simp [hi]
  · rw [getElem?_eq_none (by simpa using hi), getElem?_eq_none (by omega)]
    rfl

lemma length_padRow (n : Nat) (row : List CfmlValue) : (padRow n row).length = n := by
  rw [padRow, length_append, length_take, length_replicate]
  omega

lemma padRow_getD (hi : i < n) (row : List CfmlValue) :
    (padRow n row)[i]?.getD .null = row[i]?.getD .null := by
  rw [padRow]
  by_cases hrow : i < row.length
  · rw [getElem?_append_left (by rw [length_take]; omega), getElem?_take_of_lt hi]
  · rw [getElem?_append_right (by rw [length_take]; omega), getElem?_eq_none (l := row) (by omega),
      getElem?_replicate]
    split <;> rfl

lemma flatMap_padRow_getElem? (hi : i < n) : ∀ (rows : List (List CfmlValue)) (r : Nat),
    (rows.flatMap (padRow n))[r * n + i]? = rows[r]?.bind fun row => (padRow n row)[i]?
  | [], r => rfl
  | row :: rows, 0 => by
    rw [flatMap_cons, Nat.zero_mul, Nat.zero_add,
      getElem?_append_left (by rw [length_padRow]; exact hi)]
    rfl
  | row :: rows, r + 1 => by
    have hsucc : (r + 1) * n + i = n + (r * n + i) := by rw [Nat.succ_mul]; omega
    rw [flatMap_cons, hsucc, getElem?_append_right (by rw [length_padRow]; omega),
      length_padRow, Nat.add_sub_cancel_left, flatMap_padRow_getElem? hi rows r]
    rfl

lemma rowsToColsParallel_eq (n : Nat) : rowsToColsParallel rows n = rowsToCols rows n := by
  refine map_congr_left fun ci hci => ?_
  have hci := mem_range.1 hci
  refine ext_getElem? fun r => ?_
  rw [getElem?_map, getElem?_map]
  by_cases hr : r < rows.length
  · rw [getElem?_range hr, map_some, flatMap_padRow_getElem? hci rows r,
      getElem?_eq_getElem hr, map_some, bind_some, padRow_getD hci]
  · rw [getElem?_eq_none (by simpa using hr), getElem?_eq_none (l := rows) (by omega)]
    rfl

lemma transpose_eq (n : Nat) : transpose rows n = rowsToCols rows n := by
  rw [transpose]
  split
  · exact rowsToColsParallel_eq rows n
  · rfl

lemma placeColumns_map (slot : α → Option (List CfmlValue)) (col : α → List CfmlValue) :
    ∀ es : List α,
    SqlEngine.placeColumns (es.map slot) ((es.filter fun e => (slot e).isNone).map col) =
        es.map fun e => (slot e).getD (col e)
  | [] => rfl
  | e :: es => by
    rw [map_cons, map_cons, filter_cons]
    cases h : slot e with
    | some c => exact congrArg (c :: ·) (placeColumns_map slot col es)
    | none => exact congrArg (col e :: ·) (placeColumns_map slot col es)

end RustCfml.Qoq
