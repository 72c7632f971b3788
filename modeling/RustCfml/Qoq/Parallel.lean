import RustCfml.Lib.Fallible
import RustCfml.Qoq.ColumnMajor
import RustCfml.Qoq.Purity

/-!
# The pipelines agree

A select on one table can be run in four ways: with or without the fused path, with or
without the thread pool. The errors differ (a column at a time meets another failing cell
first than a row at a time, and the pool reports whichever it likes), so results are
compared with `Same`: **the same columns, rows and sort keys, or an error in both**.
-/

namespace RustCfml.Qoq

open RowProduct Fallible List

lemma Pool.collect_same (pool : Pool) {α β : Type} (f : α → Except String β) (xs : List α) :
    Same (pool.collect (xs.map f)) (xs.mapM f) := by
  cases hrun : xs.mapM f with
  | ok ys =>
    rw [mapM_eq_ok_iff.1 hrun, pool.collect_ok]
    exact .refl _
  | error e =>
    obtain ⟨x, hx, hfail⟩ := exists_of_mapM_error hrun
    obtain ⟨e', _, hcollect⟩ := pool.collect_error _ e (mem_map.2 ⟨x, hx, hfail⟩)
    rw [hcollect]
    exact Eq.refl none

lemma Pool.collect_cut_same (pool : Pool) {α β : Type} {run : List α → Except String (List β)}
    (hrun : ∀ chunks : List (List α),
      run chunks.flatten = (do let parts ← chunks.mapM run; return parts.flatten))
    (xs : List α) :
    Same (do let parts ← pool.collect ((pool.cut xs).map run); return parts.flatten) (run xs) := by
  have h := Same.bind (pool.collect_same run (pool.cut xs))
    fun parts => .refl (pure parts.flatten : Except String (List β))
  rw [← hrun, pool.flatten_cut] at h
  exact h

lemma poolFor_none (n : Nat) : poolFor none n = none := by
  rw [poolFor]
  split <;> rfl

namespace SqlEngine

variable {σ κ : Type} (E : SqlEngine (Except String) σ κ)

/-! ## The stages in a pool -/

section

variable {par : Option Pool} {tables : SourceTables}

variable {exprs orderBy : List (SqlExpr σ κ)} {rows : List Nat} {cond : Option (CompiledExpr σ κ)}

variable (inters : List Intersection)

lemma filterWhere_same
    (hpure : ∀ c ∈ cond, ∀ inter, E.pureEngine.whereHolds tables c inter =
      E.whereHolds tables c inter) :
    Same (E.filterWhere par tables cond inters) (E.filterWhere none tables cond inters) := by
  cases cond with
  | none => exact .refl _
  | some c =>
    have hnone : E.filterWhere none tables (some c) inters =
        select (E.whereHolds tables c) inters := by
      rw [filterWhere, poolFor_none]
    rw [hnone, filterWhere]
    cases poolFor par inters.length with
    | none => exact .refl _
    | some pool =>
      have htest : E.pureEngine.whereHolds tables c = E.whereHolds tables c := funext (hpure c rfl)
      dsimp only
      rw [htest]
      exact pool.collect_cut_same (select_flatten _) inters

lemma survivors_same (rowCount : Nat)
    (hpure : ∀ c ∈ cond, ∀ inter, E.pureEngine.whereHolds tables c inter =
      E.whereHolds tables c inter) :
    Same (E.survivors par tables cond rowCount) (E.survivors none tables cond rowCount) := by
  cases cond with
  | none => exact .refl _
  | some c =>
    have hnone : E.survivors none tables (some c) rowCount =
        select (fun r => E.whereHolds tables c [r]) (rowNumbers rowCount) := by
      rw [survivors, poolFor_none]
    rw [hnone, survivors]
    cases poolFor par rowCount with
    | none => exact .refl _
    | some pool =>
      dsimp only
      simp only [hpure c rfl]
      rw [select_eq_mapM]
      exact Same.bind (pool.collect_same _ _) fun _ => .refl _

lemma projectRow_pureEngine
    (hpure : ∀ e ∈ exprs ++ orderBy, ∀ ctx, E.pureEngine.eval tables ctx e = E.eval tables ctx e)
    (ctx : RowCtx) :
    E.pureEngine.projectRow tables exprs orderBy ctx = E.projectRow tables exprs orderBy ctx := by
  have hkey : ∀ row, ∀ e ∈ orderBy,
      E.pureEngine.orderKey tables ctx row e = E.orderKey tables ctx row e := by
    intro row e he
    rw [orderKey, orderKey, hpure e (mem_append_right _ he)]
  rw [projectRow, projectRow, mapM_congr fun e he => hpure e (mem_append_left _ he) ctx]
  simp [fun row => mapM_congr (hkey row)]

def outputRows (tables : SourceTables) (exprs orderBy : List (SqlExpr σ κ))
    (inters : List Intersection) : Except String (List (List CfmlValue × List CfmlValue)) :=
  inters.mapM fun inter => E.projectRow tables exprs orderBy (.row inter)

lemma length_projectRow {ctx : RowCtx}
    {out : List CfmlValue × List CfmlValue} (h : E.projectRow tables exprs orderBy ctx = .ok out) :
    out.1.length = exprs.length ∧ out.2.length = orderBy.length := by
  rw [projectRow] at h
  cases hrow : exprs.mapM (E.eval tables ctx) with
  | error e => rw [hrow] at h; cases h
  | ok row =>
    cases hkeys : orderBy.mapM (E.orderKey tables ctx row) with
    | error e => rw [hrow] at h; simp only [bind, Except.bind, hkeys] at h; cases h
    | ok keys =>
      rw [hrow] at h
      simp only [bind, Except.bind, hkeys] at h
      cases h
      exact ⟨length_mapM hrow, length_mapM hkeys⟩

def outputColumns (exprs orderBy : List (SqlExpr σ κ))
    (out : List (List CfmlValue × List CfmlValue)) : Columns × Columns :=
  (rowsToCols (out.map Prod.fst) exprs.length, rowsToCols (out.map Prod.snd) orderBy.length)

variable {n k : Nat} {pool : Pool} {groupBy : List (SqlExpr σ κ)}

lemma foldl_pushRow_both : ∀ {out : List (List CfmlValue × List CfmlValue)}
    (data keys : List (List CfmlValue)), (∀ o ∈ out, o.1.length = n ∧ o.2.length = k) →
      out.foldl (fun (cols : Columns × Columns) o => (pushRow cols.1 o.1, pushRow cols.2 o.2))
          (rowsToCols data n, rowsToCols keys k) =
        (rowsToCols (data ++ out.map Prod.fst) n, rowsToCols (keys ++ out.map Prod.snd) k)
  | [], data, keys, _ => by simp
  | o :: out, data, keys, h => by
    obtain ⟨hn, hk⟩ := h o mem_cons_self
    rw [foldl_cons, pushRow_rowsToCols data hn, pushRow_rowsToCols keys hk,
      foldl_pushRow_both _ _ fun o' ho' => h o' (mem_cons_of_mem _ ho')]
    simp

lemma projectRows_eq (tables : SourceTables) (exprs orderBy : List (SqlExpr σ κ))
    (inters : List Intersection) : E.projectRows tables exprs orderBy inters = (do
      let out ← E.outputRows tables exprs orderBy inters
      return outputColumns exprs orderBy out) := by
  have hloop : E.projectRows tables exprs orderBy inters = (do
      let out ← E.outputRows tables exprs orderBy inters
      return out.foldl (fun (cols : Columns × Columns) o =>
        (pushRow cols.1 o.1, pushRow cols.2 o.2))
        (emptyColumns exprs.length, emptyColumns orderBy.length)) := foldlM_eq_mapM _ _ inters _
  rw [hloop, emptyColumns_eq, emptyColumns_eq]
  cases hout : E.outputRows tables exprs orderBy inters with
  | error e => rfl
  | ok out =>
    show Except.ok (foldl _ _ out) = _
    rw [foldl_pushRow_both [] [] (mapM_forall hout fun inter o ho => E.length_projectRow ho)]
    rfl

lemma foldl_extendColumns_both :
    ∀ (chunks : List (List (List CfmlValue × List CfmlValue))) (data keys : List (List CfmlValue)),
      (chunks.map fun out =>
        (rowsToCols (out.map Prod.fst) n, rowsToCols (out.map Prod.snd) k)).foldl
          (fun (cols : Columns × Columns) chunk =>
            (extendColumns cols.1 chunk.1, extendColumns cols.2 chunk.2))
          (rowsToCols data n, rowsToCols keys k) =
          (rowsToCols (data ++ chunks.flatten.map Prod.fst) n,
          rowsToCols (keys ++ chunks.flatten.map Prod.snd) k)
  | [], data, keys => by simp
  | chunk :: chunks, data, keys => by
    rw [map_cons, foldl_cons]
    dsimp only
    rw [extendColumns_rowsToCols, extendColumns_rowsToCols, foldl_extendColumns_both]
    simp

lemma execSimple_none (tables : SourceTables) (exprs orderBy : List (SqlExpr σ κ))
    (inters : List Intersection) : E.execSimple none tables exprs orderBy inters = (do
      let out ← E.outputRows tables exprs orderBy inters
      let (data, keys) := outputColumns exprs orderBy out
      return (data, keys, inters.length)) := by
  rw [execSimple, poolFor_none]
  dsimp only
  rw [projectRows_eq]
  cases E.outputRows tables exprs orderBy inters <;> rfl

lemma execSimple_pool {inters : List Intersection} (hpool : poolFor par inters.length = some pool) :
    Same (E.execSimple par tables exprs orderBy inters)
    (E.pureEngine.execSimple none tables exprs orderBy inters) := by
  let outputs := E.pureEngine.outputRows tables exprs orderBy
  have hchunk : E.pureEngine.projectRows tables exprs orderBy = fun chunk => (do
      let out ← outputs chunk
      return outputColumns exprs orderBy out) :=
    funext fun chunk => E.pureEngine.projectRows_eq tables exprs orderBy chunk
  rw [execSimple_none, execSimple, hpool]
  dsimp only
  rw [hchunk, emptyColumns_eq, emptyColumns_eq]
  -- the pool against the loop over the same chunks, then the chunks against the whole
  refine (Same.bind (pool.collect_same _ _) fun _ => .refl _).trans (.of_eq ?_)
  have hwhole := mapM_flatten
    (fun inter => E.pureEngine.projectRow tables exprs orderBy (.row inter)) (pool.cut inters)
  rw [pool.flatten_cut] at hwhole
  rw [show E.pureEngine.outputRows tables exprs orderBy inters = _ from hwhole, mapM_then]
  show _ = (((pool.cut inters).mapM outputs >>= _) >>= _)
  cases (pool.cut inters).mapM outputs with
  | error e => rfl
  | ok parts =>
    have hcols := foldl_extendColumns_both (n := exprs.length) (k := orderBy.length) parts [] []
    exact congrArg
      (fun cols : Columns × Columns => (.ok (cols.1, cols.2, inters.length) : Except String Body))
      hcols

lemma execSimple_same (hpure : ∀ e ∈ exprs ++ orderBy,
      ∀ ctx, E.pureEngine.eval tables ctx e = E.eval tables ctx e) :
    Same (E.execSimple par tables exprs orderBy inters)
    (E.execSimple none tables exprs orderBy inters) := by
  cases hpool : poolFor par inters.length with
  | none => exact .of_eq (by rw [execSimple, execSimple, hpool, poolFor_none])
  | some pool =>
    have hrows : E.pureEngine.outputRows tables exprs orderBy inters =
        E.outputRows tables exprs orderBy inters :=
      mapM_congr fun inter _ => E.projectRow_pureEngine hpure (.row inter)
    refine (E.execSimple_pool hpool).trans (.of_eq ?_)
    rw [execSimple_none, execSimple_none, hrows]

section

variable (hworker : E.worker = E.toThreadOps)
  (hpure : ∀ e ∈ groupBy, ∀ ctx, E.pureEngine.eval tables ctx e = E.eval tables ctx e)
include hworker hpure

lemma partition_same :
    Same (E.partition par tables groupBy inters) (E.partition none tables groupBy inters) := by
  have hkey : E.pureEngine.partitionKey tables groupBy = E.partitionKey tables groupBy := by
    funext inter
    have hplatform : E.pureEngine.platform = E.platform := congrArg ThreadOps.platform hworker
    rw [partitionKey, partitionKey, mapM_congr fun e he => hpure e he (.row inter), hplatform]
  rw [partition, partition, poolFor_none]
  cases poolFor par inters.length with
  | none => exact .refl _
  | some pool =>
    dsimp only
    rw [hkey]
    refine (Same.bind (pool.collect_same _ _) fun _ => .refl _).trans (.of_eq ?_)
    -- the loop pairs each key with its row at once, the pool zips them afterwards
    have hpairs : inters.mapM (fun inter => do
        let key ← E.partitionKey tables groupBy inter
        return (key, inter)) = (do
          let keys ← inters.mapM (E.partitionKey tables groupBy)
          return keys.zip inters) := by
      induction inters with
      | nil => rfl
      | cons inter inters ih =>
        rw [mapM_cons, mapM_cons, ih]
        cases E.partitionKey tables groupBy inter with
        | error e => rfl
        | ok key => cases inters.mapM (E.partitionKey tables groupBy) <;> rfl
    rw [hpairs]
    cases inters.mapM (E.partitionKey tables groupBy) <;> rfl

lemma execAggregate_same {having : Option (SqlExpr σ κ)} :
    Same (E.execAggregate par tables groupBy having exprs orderBy inters)
      (E.execAggregate none tables groupBy having exprs orderBy inters) := by
  rw [execAggregate, execAggregate]
  cases groupBy.isEmpty with
  | true => exact .refl _
  | false => exact Same.bind (E.partition_same inters hworker hpure) fun _ => .refl _

end

/-! ## A row at a time and a column at a time -/

def cellValue (tables : SourceTables) (e : SqlExpr σ κ) (r : Nat) : CfmlValue :=
  (E.eval tables (.row [r]) e).toOption.getD .null

def Evaluates (tables : SourceTables) (exprs : List (SqlExpr σ κ)) (rows : List Nat) : Prop :=
  ∀ e ∈ exprs, ∀ r ∈ rows, E.eval tables (.row [r]) e = .ok (E.cellValue tables e r)

lemma exists_fails_of_not_evaluates (h : ¬E.Evaluates tables exprs rows) :
    ∃ e ∈ exprs, ∃ r ∈ rows, (E.eval tables (.row [r]) e).toOption = none := by
  rw [Evaluates] at h
  push Not at h
  obtain ⟨e, he, r, hr, hne⟩ := h
  refine ⟨e, he, r, hr, ?_⟩
  rw [cellValue] at hne
  cases hv : E.eval tables (.row [r]) e with
  | error err => rfl
  | ok v => rw [hv] at hne; exact absurd rfl hne

lemma evalColumns_of_evaluates (h : E.Evaluates tables exprs rows) :
    E.evalColumns none tables exprs rows =
    .ok (exprs.map fun e => rows.map (E.cellValue tables e)) := by
  rw [evalColumns, poolFor_none]
  exact mapM_ok fun e he => mapM_ok (h e he)

lemma evalColumns_fails (h : ¬E.Evaluates tables exprs rows) :
    (E.evalColumns none tables exprs rows).toOption = none := by
  obtain ⟨e, he, r, hr, hfail⟩ := E.exists_fails_of_not_evaluates h
  rw [evalColumns, poolFor_none]
  exact mapM_fails he (mapM_fails hr hfail)

lemma evalColumns_pool (hpool : poolFor par rows.length = some pool) :
    Same (E.evalColumns par tables exprs rows) (do
      let out ← rows.mapM fun r => exprs.mapM (E.pureEngine.eval tables (.row [r]))
      return rowsToCols out exprs.length) := by
  let evalRow := fun r => exprs.mapM (E.pureEngine.eval tables (.row [r]))
  have hchunk : (fun chunk : List Nat => chunk.foldlM (fun cols r => do
        let row ← exprs.mapM (E.pureEngine.eval tables (.row [r]))
        return pushRow cols row) (emptyColumns exprs.length)) = fun chunk => (do
          let out ← chunk.mapM evalRow
          return rowsToCols out exprs.length) := by
    funext chunk
    rw [foldlM_eq_mapM, emptyColumns_eq]
    cases hout : chunk.mapM evalRow with
    | error e => rfl
    | ok out =>
      show Except.ok (foldl pushRow _ out) = _
      rw [foldl_pushRow [] (mapM_forall hout fun r row hrow => length_mapM hrow)]
      rfl
  rw [evalColumns, hpool]
  dsimp only
  rw [hchunk]
  refine (Same.bind (pool.collect_same _ _) fun _ => .refl _).trans (.of_eq ?_)
  have hwhole := mapM_flatten evalRow (pool.cut rows)
  rw [pool.flatten_cut] at hwhole
  rw [mapM_then, hwhole]
  cases (pool.cut rows).mapM (mapM evalRow) with
  | error e => rfl
  | ok parts =>
    have hcols := foldl_extendColumns (n := exprs.length) parts []
    rw [← emptyColumns_eq] at hcols
    exact congrArg Except.ok hcols

section

variable (rows : List Nat)
  (hpure : ∀ e ∈ exprs, ∀ ctx, E.pureEngine.eval tables ctx e = E.eval tables ctx e)
include hpure

lemma evalColumns_same :
    Same (E.evalColumns par tables exprs rows) (E.evalColumns none tables exprs rows) := by
  cases hpool : poolFor par rows.length with
  | none => exact .of_eq (by rw [evalColumns, evalColumns, hpool, poolFor_none])
  | some pool =>
    refine (E.evalColumns_pool hpool).trans ?_
    rw [mapM_congr fun r _ => mapM_congr fun e he => hpure e he (.row [r])]
    by_cases hall : E.Evaluates tables exprs rows
    · have hrows : rows.mapM (fun r => exprs.mapM (E.eval tables (.row [r]))) =
          .ok (rows.map fun r => exprs.map fun e => E.cellValue tables e r) :=
        mapM_ok fun r hr => mapM_ok fun e he => hall e he r hr
      rw [hrows, E.evalColumns_of_evaluates hall]
      exact .of_eq
        (congrArg Except.ok (rowsToCols_map (fun r e => E.cellValue tables e r) rows exprs))
    · obtain ⟨e, he, r, hr, hfail⟩ := E.exists_fails_of_not_evaluates hall
      have hrows : (rows.mapM fun r => exprs.mapM (E.eval tables (.row [r]))).toOption = none :=
        mapM_fails hr (mapM_fails he hfail)
      rw [Same, toOption_bind, hrows, E.evalColumns_fails hall]
      rfl

lemma buildColsForExprs_same :
    Same (E.buildColsForExprs par tables exprs rows) (E.buildColsForExprs none tables exprs rows) :=
  Same.bind (.refl _) fun _ => Same.bind
    (E.evalColumns_same rows fun e he => hpure e (mem_filter.1 he).1) fun _ => .refl _

end

lemma execNoJoinFused_same (rowCount : Nat)
    (hcond : ∀ c ∈ cond, ∀ inter, E.pureEngine.whereHolds tables c inter =
      E.whereHolds tables c inter)
    (hpure : ∀ e ∈ exprs ++ orderBy, ∀ ctx, E.pureEngine.eval tables ctx e = E.eval tables ctx e) :
    Same (E.execNoJoinFused par tables cond exprs orderBy rowCount)
      (E.execNoJoinFused none tables cond exprs orderBy rowCount) := by
  refine Same.bind (E.survivors_same rowCount hcond) fun rows => ?_
  refine Same.bind (E.buildColsForExprs_same rows fun e he => hpure e (mem_append_left _ he))
    fun data => ?_
  refine Same.bind (E.buildColsForExprs_same rows fun e he => ?_) fun built => .refl _
  exact hpure e (mem_append_right _ (mem_filter.1 he).1)

end

end SqlEngine

end RustCfml.Qoq
