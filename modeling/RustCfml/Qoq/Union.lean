import RustCfml.Lib.FirstOf
import RustCfml.Qoq.CoreShape

/-!
# Chains of `UNION` and `UNION ALL`

`run_statement` runs the cores of a statement one after the other, appends their columns and then,
**once and at the end**, drops repeated rows if any of the operators was a plain `UNION`.
-/

namespace RustCfml.Qoq

open Fallible FirstOf List

/-! ## The statement -/

structure Table where
  data : Columns
  rowCount : Nat

def CoreResult.table (r : CoreResult) : Table := ⟨r.data, r.rowCount⟩

def Table.append (t arm : Table) : Table :=
  ⟨extendColumns t.data arm.data, t.rowCount + arm.rowCount⟩

/-- The first of the rows with one key. -/
def Table.dedup (P : Platform) (t : Table) : Table :=
  let (data, rowCount) := dedupCols P t.data t.rowCount
  ⟨data, rowCount⟩

abbrev Arms := List (Bool × Table)

def Table.appendAll (first : Table) (arms : Arms) : Table :=
  arms.foldl (fun t arm => t.append arm.2) first

/-- The loop over the arms and the `any_distinct` behind it. -/
def mergeArms (P : Platform) (first : Table) (arms : Arms) : Table :=
  let merged := first.appendAll arms
  if arms.any fun arm => !arm.1 then merged.dedup P else merged

/-- `UNION` removes the double rows of all there is so far, `UNION ALL` appends. -/
def unionFold (P : Platform) (first : Table) (arms : Arms) : Table :=
  arms.foldl (fun t arm => if arm.1 then t.append arm.2 else (t.append arm.2).dedup P) first

namespace SqlEngine

variable {σ κ : Type} (E : SqlEngine (Except String) σ κ)

def columnCountMismatch (expected found : Nat) : String :=
  s!"Query of Queries: UNION column count mismatch ({expected} vs {found})"

def runArms (run : SelectBody σ κ → Except String CoreResult) (width : Nat) : List (Union σ κ) →
    Except String Arms
  | [] => .ok []
  | u :: us => do
    let arm ← run u.select
    if arm.columns.length ≠ width then .error (columnCountMismatch width arm.columns.length)
    else do
      let arms ← runArms run width us
      return (u.all, arm.table) :: arms

def runChainWith (merge : Table → Arms → Table) (par : Option Pool)
    (sources : List (String × QueryData CfmlValue)) (stmt : SelectStatement σ κ) :
    Except String (List String × Table) := do
  let body ← E.runCore par sources stmt.body []
  let arms ← runArms (E.runCore par sources · []) body.columns.length stmt.unions
  return (body.columns, merge body.table arms)

/-- The arms one after the other, each of the width of the first. -/
def runChain (par : Option Pool) (sources : List (String × QueryData CfmlValue))
    (stmt : SelectStatement σ κ) : Except String (List String × Table) :=
  E.runChainWith (mergeArms E.platform) par sources stmt

def foldChain (par : Option Pool) (sources : List (String × QueryData CfmlValue))
    (stmt : SelectStatement σ κ) : Except String (List String × Table) :=
  E.runChainWith (unionFold E.platform) par sources stmt

end SqlEngine

def Table.ofRows (n : Nat) (rows : List (List CfmlValue)) : Table :=
  ⟨rowsToCols rows n, rows.length⟩

def cellsKey (P : Platform) (row : List CfmlValue) : List Char := row.flatMap (groupKey P)

variable {n : Nat} {xs rows ys : List (List CfmlValue)} {α : Type}

lemma rowKeys_rowsToCols (P : Platform) (h : ∀ row ∈ rows, row.length = n) :
    (range rows.length).map (rowKey P (rowsToCols rows n)) = rows.map (cellsKey P) := by
  refine ext_getElem? fun i => ?_
  rw [getElem?_map, getElem?_map]
  by_cases hi : i < rows.length
  · rw [getElem?_range hi, getElem?_eq_getElem hi, Option.map_some, Option.map_some]
    have hrow := map_range_getD (h _ (getElem_mem hi))
    conv_rhs => rw [← hrow, cellsKey, flatMap_map]
    simp [rowKey, rowsToCols, flatMap_map, hi]
  · rw [getElem?_eq_none (by simpa using hi), getElem?_eq_none (by omega)]
    rfl

lemma retain_keepMask (key : α → List Char) (cell : α → CfmlValue) :
    ∀ (seen : List (List Char)) (rows : List α),
      retain (keepMask seen (rows.map key)) (rows.map cell) = (dedupBy key seen rows).map cell
  | _, [] => rfl
  | seen, row :: rows => by
    have ih := retain_keepMask key cell (key row :: seen) rows
    by_cases hseen : key row ∈ seen
    · -- a key met again changes nothing about what is met
      have hcongr : dedupBy key (key row :: seen) rows = dedupBy key seen rows :=
        dedupBy_congr key rows fun k =>
          ⟨fun hk => (mem_cons.1 hk).elim (· ▸ hseen) id, mem_cons_of_mem _⟩
      rw [dedupBy, if_pos hseen, ← hcongr, ← ih]
      simp [keepMask, retain, hseen]
    · rw [dedupBy, if_neg hseen, map_cons, map_cons, map_cons, ← ih]
      simp [keepMask, retain, hseen]

lemma keptCount_keepMask (key : α → List Char) (seen : List (List Char))
    (rows : List α) : keptCount (keepMask seen (rows.map key)) =
    (dedupBy key seen rows).length := by
  have hcells := retain_keepMask key (fun _ => CfmlValue.null) seen rows
  have hlen :
      (retain (keepMask seen (rows.map key)) (rows.map fun _ => CfmlValue.null)).length = _ :=
    length_retain (by rw [length_keepMask, length_map, length_map])
  rw [← hlen, hcells, length_map]

open Table

lemma Table.dedup_ofRows (P : Platform) (h : ∀ row ∈ rows, row.length = n) :
    (ofRows n rows).dedup P = ofRows n (dedupBy (cellsKey P) [] rows) := by
  simp only [dedup, ofRows, dedupCols, dedupKeepMask, rowKeys_rowsToCols P h, keptCount_keepMask,
    applyKeepMask]
  congr 1
  rw [rowsToCols, map_map]
  exact map_congr_left fun ci _ => retain_keepMask (cellsKey P) _ [] rows

lemma Table.append_ofRows (n : Nat) (xs ys : List (List CfmlValue)) :
    (ofRows n xs).append (ofRows n ys) = ofRows n (xs ++ ys) := by
  simp only [Table.append, ofRows, extendColumns_rowsToCols, length_append]

lemma Table.ofRows_injective (hx : ∀ row ∈ xs, row.length = n) (hy : ∀ row ∈ ys, row.length = n)
    (h : ofRows n xs = ofRows n ys) : xs = ys := by
  obtain ⟨hdata, hlen⟩ := Table.mk.inj h
  refine ext_getElem hlen fun i hi hi' => ?_
  rw [← map_range_getD (hx _ (getElem_mem hi)), ← map_range_getD (hy _ (getElem_mem hi'))]
  refine map_congr_left fun ci hci => ?_
  have hcol := congrArg (fun cols : Columns => cols[ci]?) hdata
  simp only [rowsToCols, getElem?_map, getElem?_range (mem_range.1 hci), Option.map_some,
    Option.some.injEq] at hcol
  have hcell := congrArg (fun col : List CfmlValue => col[i]?) hcol
  simpa [hi, hi'] using hcell

/-! ## The chain -/

def armsOf (n : Nat) (arms : List (Bool × List (List CfmlValue))) : Arms :=
  arms.map fun arm => (arm.1, Table.ofRows n arm.2)

def RowsOf (n : Nat) (arms : List (Bool × List (List CfmlValue))) : Prop :=
  ∀ arm ∈ arms, ∀ row ∈ arm.2, row.length = n

lemma appendAll_armsOf (n : Nat) : ∀ (arms : List (Bool × List (List CfmlValue)))
    (xs : List (List CfmlValue)),
    (ofRows n xs).appendAll (armsOf n arms) = ofRows n (xs ++ (arms.map Prod.snd).flatten)
  | [], xs => by simp [appendAll, armsOf]
  | (all, ys) :: arms, xs => by
    have ih := appendAll_armsOf n arms (xs ++ ys)
    rw [← append_ofRows, append_assoc] at ih
    exact ih

lemma forall_mem_append (hx : ∀ row ∈ xs, row.length = n) (hy : ∀ row ∈ ys, row.length = n) :
    ∀ row ∈ xs ++ ys, row.length = n := fun row hrow => (mem_append.1 hrow).elim (hx row) (hy row)

lemma unionFold_armsOf (P : Platform) :
    ∀ {arms : List (Bool × List (List CfmlValue))} {xs : List (List CfmlValue)},
      (∀ row ∈ xs, row.length = n) → RowsOf n arms → unionFold P (ofRows n xs) (armsOf n arms) =
            ofRows n (chain (cellsKey P) xs arms) ∧ ∀ row ∈ chain (cellsKey P) xs arms,
            row.length = n
  | [], xs, hx, _ => ⟨rfl, hx⟩
  | (all, ys) :: arms, xs, hx, harms => by
    have hxy := forall_mem_append hx (harms _ mem_cons_self)
    have hrest : RowsOf n arms := fun arm harm => harms arm (mem_cons_of_mem _ harm)
    cases all with
    | true =>
      have ih := unionFold_armsOf P hxy hrest
      rw [← append_ofRows] at ih
      exact ih
    | false =>
      have hdedup : ∀ row ∈ dedupBy (cellsKey P) [] (xs ++ ys), row.length = n :=
        fun row hrow => hxy row ((dedupBy_sublist _ _ _).mem hrow)
      have ih := unionFold_armsOf P hdedup hrest
      rw [← dedup_ofRows P hxy, ← append_ofRows] at ih
      exact ih

def settledRows (first : Table) (arms : Arms) : Nat :=
  settled first.rowCount 0 (arms.map fun arm => (arm.1, arm.2.rowCount))

/-- Behind the last `UNION` no row has the key of an earlier one; or there is no `UNION`. -/
def NoLateRepeat (P : Platform) (first : Table) (arms : Arms) : Prop :=
  let merged := first.appendAll arms
  (∃ arm ∈ arms, arm.1 = false) → ∀ j, settledRows first arms ≤ j → j < merged.rowCount →
    ∀ i < j, rowKey P merged.data i ≠ rowKey P merged.data j

lemma mergeArms_eq_unionFold_iff (P : Platform)
    {arms : List (Bool × List (List CfmlValue))} (hx : ∀ row ∈ xs, row.length = n)
    (harms : RowsOf n arms) :
    mergeArms P (ofRows n xs) (armsOf n arms) = unionFold P (ofRows n xs) (armsOf n arms) ↔
      NoLateRepeat P (ofRows n xs) (armsOf n arms) := by
  obtain ⟨hfold, hchain⟩ := unionFold_armsOf P hx harms
  have hflat : ∀ row ∈ (arms.map Prod.snd).flatten, row.length = n := by
    intro row hrow
    obtain ⟨ys, hys, hrow⟩ := mem_flatten.1 hrow
    obtain ⟨arm, harm, rfl⟩ := mem_map.1 hys
    exact harms arm harm row hrow
  have hall := forall_mem_append hx hflat
  rw [hfold, NoLateRepeat, mergeArms, appendAll_armsOf]
  by_cases hunion : ∃ arm ∈ arms, arm.1 = false
  · have hany : (armsOf n arms).any (fun arm => !arm.1) = true := by
      simpa [armsOf] using hunion
    have hunion' : ∃ arm ∈ armsOf n arms, arm.1 = false := by simpa [armsOf] using hunion
    have hkeys := dedupBy_eq_chain_iff (cellsKey P) xs arms
    have hsettled : settledRows (ofRows n xs) (armsOf n arms) =
        settled xs.length 0 (arms.map fun arm => (arm.1, arm.2.length)) := by
      rw [settledRows, armsOf, map_map]
      rfl
    dsimp only at hkeys
    rw [← rowKeys_rowsToCols P hall] at hkeys
    rw [if_pos hany, dedup_ofRows P hall, hsettled, forall_prop_of_true hunion']
    rw [show (ofRows n (dedupBy (cellsKey P) [] (xs ++ (arms.map Prod.snd).flatten)) =
        ofRows n (chain (cellsKey P) xs arms)) ↔ _ from
      ⟨ofRows_injective (fun row hrow => hall row ((dedupBy_sublist _ _ _).mem hrow)) hchain,
        congrArg _⟩, hkeys, length_map, length_range]
    refine forall_congr' fun j => imp_congr_right fun _ => forall_congr' fun hj => ?_
    refine forall_congr' fun i => forall_congr' fun hij => ?_
    rw [getElem?_map, getElem?_map, getElem?_range hj, getElem?_range (hij.trans hj)]
    simp [ofRows]
  · have hallarms : ∀ arm ∈ arms, arm.1 = true := by simpa using hunion
    have hany : (armsOf n arms).any (fun arm => !arm.1) = false := by simpa [armsOf] using hallarms
    have hnone : ¬∃ arm ∈ armsOf n arms, arm.1 = false := by simpa [armsOf] using hallarms
    rw [hany, chain_of_all _ _ hallarms]
    exact ⟨fun _ h => absurd h hnone, fun _ => rfl⟩

namespace SqlEngine

variable {σ κ : Type} (E : SqlEngine (Except String) σ κ)

lemma exists_rows_of_rect {r : CoreResult} {k : Nat} (h : r.Rect r.columns.length k) :
    ∃ rows : List (List CfmlValue), (∀ row ∈ rows, row.length = r.columns.length) ∧
      r.table = ofRows r.columns.length rows := by
  obtain ⟨rows, hlen, hrows, hdata⟩ := h.data.exists_rows
  refine ⟨rows, hrows, ?_⟩
  rw [CoreResult.table, hdata, ofRows, hlen]

lemma exists_rows_of_runArms {par : Option Pool} {sources : List (String × QueryData CfmlValue)}
    {width : Nat} : ∀ {us : List (Union σ κ)} {arms : Arms},
    runArms (E.runCore par sources · []) width us = .ok arms →
        ∃ rows, RowsOf width rows ∧ arms = armsOf width rows
  | [], _, h => by
    cases h
    exact ⟨[], (fun _ h => nomatch h), rfl⟩
  | u :: us, _, h => by
    rw [runArms] at h
    obtain ⟨arm, harm, h⟩ := bind_eq_ok h
    split at h
    · cases h
    · next hwidth =>
      obtain ⟨rest, hrest, h⟩ := bind_eq_ok h
      cases h
      obtain rfl := not_not.1 hwidth
      obtain ⟨ys, hys, htable⟩ := exists_rows_of_rect (E.rect_runCore harm)
      obtain ⟨more, hmore, rfl⟩ := exists_rows_of_runArms hrest
      refine ⟨(u.all, ys) :: more, fun a ha => ?_, ?_⟩
      · rcases mem_cons.1 ha with rfl | ha
        · exact hys
        · exact hmore a ha
      · rw [htable]
        rfl

/-- The chain has the rows SQL's reading gives it exactly where no row behind the last `UNION`
repeats an earlier one. -/
theorem runChain_eq_foldChain_iff (par : Option Pool)
    (sources : List (String × QueryData CfmlValue))
    (stmt : SelectStatement σ κ) : E.runChain par sources stmt = E.foldChain par sources stmt ↔
    ∀ body arms, E.runCore par sources stmt.body [] = .ok body →
    runArms (E.runCore par sources · []) body.columns.length stmt.unions = .ok arms →
    NoLateRepeat E.platform body.table arms := by
  rw [runChain, foldChain, runChainWith, runChainWith]
  cases hbody : E.runCore par sources stmt.body [] with
  | error e => exact ⟨(fun _ _ _ h => nomatch h), fun _ => rfl⟩
  | ok body =>
    simp only [bind, Except.bind]
    cases harms : runArms (E.runCore par sources · []) body.columns.length stmt.unions with
    | error e =>
      refine ⟨fun _ b arms hb ha => ?_, fun _ => rfl⟩
      cases hb
      rw [harms] at ha
      cases ha
    | ok arms =>
      obtain ⟨xs, hx, htable⟩ := exists_rows_of_rect (E.rect_runCore hbody)
      obtain ⟨rows, hrows, rfl⟩ := E.exists_rows_of_runArms harms
      have hiff := mergeArms_eq_unionFold_iff E.platform hx hrows
      rw [← htable] at hiff
      show (Except.ok _ = Except.ok _) ↔ _
      rw [Except.ok.injEq, Prod.mk.injEq, and_iff_right rfl, hiff]
      refine ⟨fun h b arms hb ha => ?_, fun h => h _ _ rfl harms⟩
      cases hb
      rw [harms] at ha
      cases ha
      exact h

end SqlEngine

def selectOne : SelectBody Empty Unit where
  distinct := false
  top := none
  columns := [⟨.literal (.int 1), some "n"⟩]
  fromTable := none
  joins := []
  whereClause := none
  groupBy := []
  having := none

def unionThenAll : SelectStatement Empty Unit where
  body := selectOne
  unions := [⟨false, selectOne⟩, ⟨true, selectOne⟩]
  orderBy := []
  limit := none

theorem runChain_ne_foldChain_unionThenAll : plainEngine.runChain none [] unionThenAll =
    .ok (["n"], ⟨[[.int 1]], 1⟩) ∧
      plainEngine.foldChain none [] unionThenAll = .ok (["n"], ⟨[[.int 1, .int 1]], 2⟩) ∧
      plainEngine.runChain none [] unionThenAll ≠ plainEngine.foldChain none [] unionThenAll := by
  have hrun : plainEngine.runChain none [] unionThenAll = .ok (["n"], ⟨[[.int 1]], 1⟩) := rfl
  have hfold : plainEngine.foldChain none [] unionThenAll = .ok (["n"], ⟨[[.int 1, .int 1]], 2⟩) :=
    rfl
  refine ⟨hrun, hfold, fun h => ?_⟩
  rw [hrun, hfold] at h
  simp at h

end RustCfml.Qoq
