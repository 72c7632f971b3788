import RustCfml.Qoq.Parallel

/-!
# The fused path against the general one

The fused path of a one-table select never builds row combinations: it works on row numbers, reads
passthrough columns straight from the table and fills the others a column at a time. **It has the
rows of the general pipeline** as long as every bound column lies inside the data (`PassthroughOk`),
which binding sees to (`passthroughOk_bindExpr`).
-/

namespace RustCfml.Qoq

open RowProduct Fallible List
open Option hiding bind_assoc

namespace SqlEngine

variable {σ κ : Type} (E : SqlEngine (Except String) σ κ)

section

variable {par : Option Pool} {tables : SourceTables}

/-- A passthrough reads the cells that evaluating its column would give. -/
def PassthroughOk (tables : SourceTables) (e : SqlExpr σ κ) : Prop :=
  ∀ ti ci, passthrough e = some (ti, ci) → ∃ src, sourceColumn tables ti ci = .ok src ∧
    ∀ r, 1 ≤ r → passthroughCell src r = tables.unnamed.value [r] ti ci

variable {e : SqlExpr σ κ} {r : Nat} {cond : Option (CompiledExpr σ κ)}

lemma eval_of_passthrough {ti ci : Nat} (h : passthrough e = some (ti, ci))
    (ctx : RowCtx) : E.eval tables ctx e = .ok (tables.unnamed.value ctx.current ti ci) := by
  cases e with
  | resolvedColumn ti' ci' name => cases h; rfl
  | _ => cases h

def passthroughSlot (tables : SourceTables) (rows : List Nat) (e : SqlExpr σ κ) :
    Option (List CfmlValue) := (passthrough e).map fun _ => rows.map (E.cellValue tables e)

variable {exprs orderBy : List (SqlExpr σ κ)} {rows : List Nat}

lemma buildColsForExprs_slots (hrows : ∀ r ∈ rows, 1 ≤ r)
    (hpass : ∀ e ∈ exprs, PassthroughOk tables e) :
    E.buildColsForExprs none tables exprs rows = (do
      let cols ← E.evalColumns none tables (exprs.filter fun e => (passthrough e).isNone) rows
      return placeColumns (exprs.map (E.passthroughSlot tables rows)) cols) := by
  rw [buildColsForExprs, mapM_ok (g := E.passthroughSlot tables rows)]
  · rfl
  intro e he
  cases hp : passthrough e with
  | none => rw [passthroughSlot, hp]; rfl
  | some slot =>
    obtain ⟨ti, ci⟩ := slot
    obtain ⟨src, hsrc, hcells⟩ := hpass e he ti ci hp
    rw [passthroughSlot, hp]
    dsimp only
    rw [hsrc]
    show Except.ok (some (rows.map (passthroughCell src))) = Except.ok (some _)
    congr 2
    refine map_congr_left fun r hr => ?_
    rw [hcells r (hrows r hr), cellValue, E.eval_of_passthrough hp]
    rfl

lemma evaluates_filter_iff :
    E.Evaluates tables (exprs.filter fun e => (passthrough e).isNone) rows ↔
      E.Evaluates tables exprs rows := by
  refine ⟨fun h e he r hr => ?_, fun h e he => h e (mem_filter.1 he).1⟩
  cases hp : passthrough e with
  | none => exact h e (mem_filter.2 ⟨he, by rw [hp]; rfl⟩) r hr
  | some slot =>
    rw [cellValue, E.eval_of_passthrough hp]
    rfl

section

variable (hrows : ∀ r ∈ rows, 1 ≤ r) (hpass : ∀ e ∈ exprs, PassthroughOk tables e)
include hrows hpass

lemma buildColsForExprs_of_evaluates (h : E.Evaluates tables exprs rows) :
    E.buildColsForExprs none tables exprs rows =
    .ok (exprs.map fun e => rows.map (E.cellValue tables e)) := by
  rw [E.buildColsForExprs_slots hrows hpass,
    E.evalColumns_of_evaluates (E.evaluates_filter_iff.2 h)]
  have hslots := placeColumns_map (E.passthroughSlot tables rows)
    (fun e => rows.map (E.cellValue tables e)) exprs
  have hfilter : (exprs.filter fun e => (passthrough e).isNone) =
      exprs.filter fun e => (E.passthroughSlot tables rows e).isNone := by
    refine filter_congr fun e _ => ?_
    rw [passthroughSlot, isNone_map]
  show Except.ok (placeColumns _ _) = _
  rw [hfilter, hslots]
  congr 1
  refine map_congr_left fun e _ => ?_
  rw [passthroughSlot]
  cases passthrough e <;> rfl

lemma buildColsForExprs_fails (h : ¬E.Evaluates tables exprs rows) :
    (E.buildColsForExprs none tables exprs rows).toOption = none := by
  rw [E.buildColsForExprs_slots hrows hpass, toOption_bind,
    E.evalColumns_fails (mt E.evaluates_filter_iff.1 h)]
  rfl

end

/-! ## The fused path against the general one -/

def keyExprs (orderBy : List (SqlExpr σ κ)) : List (SqlExpr σ κ) :=
  orderBy.filter fun e => (intAlias e).isNone

def keyValue (tables : SourceTables) (exprs : List (SqlExpr σ κ)) (r : Nat) (e : SqlExpr σ κ) :
    CfmlValue :=
  match intAlias e with
  | some slot => ((exprs.map fun e' => E.cellValue tables e' r)[slot]?).getD .null
  | none => E.cellValue tables e r

lemma projectRow_of_evaluates
    (hexprs : E.Evaluates tables exprs rows) (hkeys : E.Evaluates tables (keyExprs orderBy) rows)
    (hr : r ∈ rows) : E.projectRow tables exprs orderBy (.row [r]) =
      .ok (exprs.map (fun e => E.cellValue tables e r),
        orderBy.map (E.keyValue tables exprs r)) := by
  have hkey : ∀ e ∈ orderBy, E.orderKey tables (.row [r])
      (exprs.map fun e => E.cellValue tables e r) e = .ok (E.keyValue tables exprs r e) := by
    intro e he
    rw [orderKey, keyValue]
    cases halias : intAlias e with
    | some slot => rfl
    | none => exact hkeys e (mem_filter.2 ⟨he, by rw [halias]; rfl⟩) r hr
  rw [projectRow, mapM_ok fun e he => hexprs e he r hr]
  show ((orderBy.mapM _ : Except String _) >>= _) = _
  rw [mapM_ok hkey]
  rfl

lemma projectRow_fails (he : e ∈ exprs ++ keyExprs orderBy)
    (hfail : (E.eval tables (.row [r]) e).toOption = none) :
    (E.projectRow tables exprs orderBy (.row [r])).toOption = none := by
  rw [projectRow, toOption_bind]
  rcases mem_append.1 he with he | he
  · rw [mapM_fails he hfail]
    rfl
  · obtain ⟨he, halias⟩ := mem_filter.1 he
    cases (List.mapM (E.eval tables (.row [r])) exprs).toOption with
    | none => rfl
    | some row =>
      show (List.mapM (E.orderKey tables (.row [r]) row) orderBy >>= _).toOption = none
      rw [toOption_bind, mapM_fails he]
      · rfl
      · rw [orderKey, isNone_iff_eq_none.1 halias]
        exact hfail

lemma aliasColumn_eq (rows : List Nat) (slot : Nat) :
    ((exprs.map fun e => rows.map (E.cellValue tables e))[slot]?).getD
    (replicate rows.length .null) =
      rows.map fun r => ((exprs.map fun e => E.cellValue tables e r)[slot]?).getD .null := by
  simp
  cases exprs[slot]? with
  | some e => rfl
  | none => simp

section

variable (hrows : ∀ r ∈ rows, 1 ≤ r) (hpass : ∀ e ∈ exprs ++ orderBy, PassthroughOk tables e)
include hrows hpass

lemma fusedColumns_eq
    (hexprs : E.Evaluates tables exprs rows) (hkeys : E.Evaluates tables (keyExprs orderBy) rows) :
    (do
      let data ← E.buildColsForExprs none tables exprs rows
      let slots := orderBy.map fun e => (intAlias e).map fun slot =>
        data[slot]?.getD (replicate rows.length .null)
      let built ← E.buildColsForExprs none tables (keyExprs orderBy) rows
      return (data, placeColumns slots built, rows.length) : Except String Body) =
      .ok (exprs.map (fun e => rows.map (E.cellValue tables e)),
        orderBy.map (fun e => rows.map fun r => E.keyValue tables exprs r e), rows.length) := by
  have hkeyPass : ∀ e ∈ keyExprs orderBy, PassthroughOk tables e := fun e he =>
    hpass e (mem_append_right _ (mem_filter.1 he).1)
  rw [E.buildColsForExprs_of_evaluates hrows (fun e he => hpass e (mem_append_left _ he)) hexprs,
    E.buildColsForExprs_of_evaluates hrows hkeyPass hkeys]
  show Except.ok (_, placeColumns _ _, _) = _
  have hplace := placeColumns_map
    (fun e : SqlExpr σ κ => (intAlias e).map fun slot =>
      ((exprs.map fun e => rows.map (E.cellValue tables e))[slot]?).getD
        (replicate rows.length .null))
    (fun e => rows.map (E.cellValue tables e)) orderBy
  simp only [isNone_map] at hplace
  rw [keyExprs, hplace]
  congr 3
  refine map_congr_left fun e _ => ?_
  cases halias : intAlias e with
  | none => simp [keyValue, halias]
  | some slot =>
    simp only [keyValue, halias, map_some, getD_some]
    exact E.aliasColumn_eq rows slot

lemma fusedColumns_same : Same (do
      let data ← E.buildColsForExprs none tables exprs rows
      let slots := orderBy.map fun e => (intAlias e).map fun slot =>
        data[slot]?.getD (replicate rows.length .null)
      let built ← E.buildColsForExprs none tables (keyExprs orderBy) rows
      return (data, placeColumns slots built, rows.length) : Except String Body)
      (E.execSimple none tables exprs orderBy (rows.map fun r => [r])) := by
  have hkeyPass : ∀ e ∈ keyExprs orderBy, PassthroughOk tables e := fun e he =>
    hpass e (mem_append_right _ (mem_filter.1 he).1)
  have hexprPass : ∀ e ∈ exprs, PassthroughOk tables e := fun e he =>
    hpass e (mem_append_left _ he)
  rw [execSimple_none]
  -- the general path fails as soon as one of the expressions fails on one of the rows
  have hgeneral : ∀ e ∈ exprs ++ keyExprs orderBy, ∀ r ∈ rows,
      (E.eval tables (.row [r]) e).toOption = none →
      (E.outputRows tables exprs orderBy (rows.map fun r => [r])).toOption = none := by
    intro e he r hr hfail
    exact mapM_fails (List.mem_map.2 ⟨r, hr, rfl⟩) (E.projectRow_fails he hfail)
  by_cases hexprs : E.Evaluates tables exprs rows
  · by_cases hkeys : E.Evaluates tables (keyExprs orderBy) rows
    · rw [E.fusedColumns_eq hrows hpass hexprs hkeys, outputRows, mapM_ok (g := fun inter =>
        (exprs.map (fun e => E.cellValue tables e (inter.headD 0)),
          orderBy.map (E.keyValue tables exprs (inter.headD 0))))]
      · refine .of_eq (congrArg Except.ok ?_)
        simp only [List.map_map, length_map, Function.comp_def, headD_cons]
        rw [rowsToCols_map (fun r e => E.cellValue tables e r) rows exprs,
          rowsToCols_map (fun r e => E.keyValue tables exprs r e) rows orderBy]
      · intro inter hinter
        obtain ⟨r, hr, rfl⟩ := List.mem_map.1 hinter
        exact E.projectRow_of_evaluates hexprs hkeys hr
    · obtain ⟨e, he, r, hr, hfail⟩ := E.exists_fails_of_not_evaluates hkeys
      rw [Same, toOption_bind (E.outputRows _ _ _ _), hgeneral e (mem_append_right _ he) r hr hfail,
        E.buildColsForExprs_of_evaluates hrows hexprPass hexprs]
      show (E.buildColsForExprs none tables (keyExprs orderBy) rows >>= _).toOption = none
      rw [toOption_bind, E.buildColsForExprs_fails hrows hkeyPass hkeys]
      rfl
  · obtain ⟨e, he, r, hr, hfail⟩ := E.exists_fails_of_not_evaluates hexprs
    rw [Same, toOption_bind (E.outputRows _ _ _ _), hgeneral e (mem_append_left _ he) r hr hfail,
      toOption_bind, E.buildColsForExprs_fails hrows hexprPass hexprs]
    rfl

end

lemma survivors_pos {rowCount : Nat} (h : E.survivors none tables cond rowCount = .ok rows) :
    ∀ r ∈ rows, 1 ≤ r := by
  have hnumbers : ∀ r ∈ rowNumbers rowCount, 1 ≤ r := fun r hr => (mem_range'_1.1 hr).1
  cases cond with
  | none =>
    cases h
    exact hnumbers
  | some c =>
    rw [survivors, poolFor_none] at h
    exact fun r hr => hnumbers r (select_sublist h |>.subset hr)

lemma filterWhere_single (cond : Option (CompiledExpr σ κ)) (rowCount : Nat) :
    E.filterWhere none tables cond ((rowNumbers rowCount).map fun r => [r]) = (do
      let rows ← E.survivors none tables cond rowCount
      return rows.map fun r => [r]) := by
  cases cond with
  | none => rfl
  | some c =>
    rw [filterWhere, poolFor_none, survivors, poolFor_none]
    exact select_map _ _ _

/-- **One row after the other, the fused path and the general one agree.** -/
theorem execNoJoinFused_same_general (rowCount : Nat)
    (hpass : ∀ e ∈ exprs ++ orderBy, PassthroughOk tables e) :
    Same (E.execNoJoinFused none tables cond exprs orderBy rowCount) (do
      let filtered ← E.filterWhere none tables cond ((rowNumbers rowCount).map fun r => [r])
      E.execSimple none tables exprs orderBy filtered) := by
  rw [filterWhere_single, bind_assoc]
  refine Same.bind_of_ok (.refl _) fun rows hrows => ?_
  exact E.fusedColumns_same (E.survivors_pos hrows) hpass

end

/-- `Engine::parallel`, as `execute` sets it. -/
def poolOf (pool : Pool) (stmt : SelectStatement σ κ) : Option Pool :=
  if E.isParallelSafe stmt then some pool else none

/-- A worker has the request's settings, and the expressions of the core ask for no closure. -/
structure CorePure (tables : SourceTables) (core : BoundCore σ κ) : Prop where
  worker : E.worker = E.toThreadOps
  cond : ∀ c ∈ core.whereClause.map compile, ∀ inter,
    E.pureEngine.whereHolds tables c inter = E.whereHolds tables c inter
  groupBy : ∀ e ∈ core.groupBy, ∀ ctx, E.pureEngine.eval tables ctx e = E.eval tables ctx e
  output : ∀ e ∈ core.exprs ++ core.orderBy,
    ∀ ctx, E.pureEngine.eval tables ctx e = E.eval tables ctx e

variable {core : BoundCore σ κ} {t : SourceTable}

variable {tables : SourceTables}

lemma runGeneral_same (par : Option Pool) (h : E.CorePure tables core) :
    Same (E.runGeneral par tables core) (E.runGeneral none tables core) := by
  rw [runGeneral, runGeneral]
  refine Same.bind (.refl _) fun inters => Same.bind (E.filterWhere_same inters h.cond)
    fun filtered => ?_
  split
  · exact E.execAggregate_same filtered h.worker h.groupBy
  · exact E.execSimple_same filtered h.output

lemma coreIntersections_single (t : SourceTable) (h : core.joins = []) :
    E.coreIntersections [t] core = .ok ((rowNumbers t.rowCount).map fun r => [r]) := by
  rw [coreIntersections, h]
  rfl

lemma runPicked_none_same (hjoins : core.joins = [])
    (hpass : ∀ e ∈ core.exprs ++ core.orderBy, PassthroughOk [t] e) :
    Same (E.runPicked none [t] core) (E.runGeneral none [t] core) := by
  rw [runPicked, fusedTable]
  split
  · next t' hfused =>
    split at hfused
    · next hcond =>
      cases hfused
      simp only [Bool.and_eq_true, Bool.not_eq_true'] at hcond
      have hbranch : (E.coreHasAggregate core || !core.groupBy.isEmpty) = false := by
        rw [hcond.1.1.1, hcond.1.1.2]
        rfl
      rw [runGeneral, E.coreIntersections_single t hjoins, hbranch]
      exact E.execNoJoinFused_same_general t.rowCount hpass
    · cases hfused
  · exact .refl _

lemma runPicked_same (par : Option Pool)
    (hjoins : core.joins = []) (hpass : ∀ e ∈ core.exprs ++ core.orderBy, PassthroughOk [t] e)
    (hpure : E.CorePure [t] core) :
    Same (E.runPicked par [t] core) (E.runGeneral none [t] core) := by
  refine Same.trans ?_ (E.runPicked_none_same hjoins hpass)
  rw [runPicked, runPicked]
  cases E.fusedTable [t] core with
  | none => exact E.runGeneral_same par hpure
  | some t' => exact E.execNoJoinFused_same t'.rowCount hpure.cond hpure.output

lemma expandColumns_forall {p : SqlExpr σ κ → Prop}
    (hcolumn : ∀ table name, p (.column table name)) {columns cols : List (SelectColumn σ κ)}
    (hp : ∀ c ∈ columns, p c.expr) (h : expandColumns tables columns = .ok cols) : ∀ c ∈ cols,
    p c.expr := by
  have hstar : ∀ t : SourceTable, ∀ c ∈ (starColumns t : List (SelectColumn σ κ)), p c.expr := by
    intro t c hc
    obtain ⟨col, _, rfl⟩ := List.mem_map.1 hc
    exact hcolumn _ _
  have hpart : ∀ sc ∈ columns, ∀ part, expandColumn tables sc = .ok part → ∀ c ∈ part,
      p c.expr := by
    intro sc hsc part hpart
    rw [expandColumn] at hpart
    split at hpart
    · cases hpart
      intro c hc
      obtain ⟨t, _, hc⟩ := mem_flatMap.1 hc
      exact hstar t c hc
    · split at hpart
      · cases hpart
        exact hstar _
      · cases hpart
    · cases hpart
      intro c hc
      rw [mem_singleton.1 hc]
      exact hp sc hsc
  obtain ⟨parts, hparts, h⟩ := bind_eq_ok h
  cases h
  intro c hc
  obtain ⟨part, hmem, hc⟩ := mem_flatten.1 hc
  obtain ⟨sc, hsc, hsc'⟩ := exists_of_mem_mapM hparts hmem
  exact hpart sc hsc part hsc' c hc

lemma resolveColumn_single {table : Option String} {name : String} {ti ci : Nat}
    (h : SourceTables.resolveColumn [t] table name = some (ti, ci)) : ti = 0 ∧
    ci < t.columns.length := by
  have hlt : ∀ {ci : Nat}, t.columnIndex name = some ci → ci < t.columns.length := fun h =>
    (findIdx?_eq_some_iff_getElem.1 h).1
  cases table with
  | none =>
    simp only [SourceTables.resolveColumn, firstWithColumn] at h
    cases hcol : t.columnIndex name with
    | none => rw [hcol] at h; cases h
    | some ci' =>
      rw [hcol] at h
      cases h
      exact ⟨rfl, hlt hcol⟩
  | some hint =>
    obtain ⟨ti', hti, h⟩ := bind_eq_some_iff.1 h
    obtain ⟨t', ht', h⟩ := bind_eq_some_iff.1 h
    obtain ⟨ci', hci, h⟩ := bind_eq_some_iff.1 h
    cases h
    have hzero : ti = 0 := by
      have := (findIdx?_eq_some_iff_getElem.1 hti).1
      simpa using this
    subst hzero
    cases ht'
    exact ⟨rfl, hlt hci⟩

lemma passthroughOk_bindExpr (ht : t.columns.length ≤ t.data.length)
    {e : SqlExpr σ κ} (h : passthrough e = none) : PassthroughOk [t] (E.bindExpr [t] e) := by
  intro ti ci hp
  have hresolved : ∃ table name, e = .column table name ∧
      SourceTables.resolveColumn [t] table name = some (ti, ci) := by
    cases e with
    | column table name =>
      rw [bindExpr] at hp
      cases hres : SourceTables.resolveColumn [t] table name with
      | none => rw [hres] at hp; cases hp
      | some slot =>
        rw [hres] at hp
        cases hp
        exact ⟨table, name, rfl, hres⟩
    | resolvedColumn _ _ _ => cases h
    | _ => rw [bindExpr] at hp; cases hp
  obtain ⟨table, name, -, hres⟩ := hresolved
  obtain ⟨rfl, hci⟩ := resolveColumn_single hres
  obtain ⟨src, hdata⟩ : ∃ src, t.data[ci]? = some src :=
    ⟨_, getElem?_eq_getElem (Nat.lt_of_lt_of_le hci ht)⟩
  refine ⟨src, ?_, fun r hr => ?_⟩
  · simp [sourceColumn, hdata]
  · show _ = QoQTable.get _ _ _
    rw [passthroughCell, if_neg (by omega), QoQTable.get]
    show _ = if r = 0 then _ else ((t.data[ci]?.bind fun col => col[r - 1]?).getD .null)
    rw [if_neg (by omega), hdata]
    rfl

lemma exprsArePure_iff {es : List (SqlExpr σ κ)} : E.exprsArePure es = true ↔ ∀ e ∈ es,
    E.exprIsPure e = true := by
  induction es with
  | nil => simp [exprsArePure]
  | cons e es ih => rw [exprsArePure, Bool.and_eq_true, ih, forall_mem_cons]

/-- `is_parallel_safe` looks at the statement as it was parsed; what it found out holds of
    the bound core. -/
lemma corePure_of_isParallelSafe (hworker : E.worker = E.toThreadOps)
    (hlower : ∀ s, lower E.platform (lower E.platform s) = lower E.platform s)
    {stmt : SelectStatement σ κ} (hsafe : E.isParallelSafe stmt = true)
    {cols : List (SelectColumn σ κ)} (hcols : expandColumns tables stmt.body.columns = .ok cols) :
    E.CorePure tables (E.bindCore tables stmt.body cols stmt.orderBy) := by
  simp only [isParallelSafe, coreIsPure, Bool.and_eq_true, List.all_eq_true] at hsafe
  obtain ⟨⟨⟨⟨⟨⟨-, -⟩, hwhere⟩, hgroup⟩, -⟩, hcolumns⟩, -⟩ := hsafe.1
  have heval : ∀ e, E.exprIsPure e = true →
    ∀ ctx, E.pureEngine.eval tables ctx (E.bindExpr tables e) =
      E.eval tables ctx (E.bindExpr tables e) := fun e he ctx =>
    E.pureEngine_eq hworker ▸
      E.eval_refusing hlower tables ctx _ ((E.exprIsPure_bindExpr tables e).trans he)
  refine ⟨hworker, ?_, ?_, ?_⟩
  · intro c hc inter
    obtain ⟨w, hw, rfl⟩ := map_eq_some_iff.1 hc
    have hpure : E.exprIsPure w = true := by
      have := (E.optionIsPure_bindOption tables stmt.body.whereClause).trans hwhere
      rw [show E.bindOption tables stmt.body.whereClause = some w from hw] at this
      exact this
    rw [E.pureEngine_eq hworker, whereHolds, whereHolds,
      E.evalCompiled_refusing hlower tables _ _ (E.compiledIsPure_compile w hpure)]
    rfl
  · have hbound := (E.exprsArePure_bindList tables stmt.body.groupBy).trans hgroup
    exact fun e he ctx => E.pureEngine_eq hworker ▸
      E.eval_refusing hlower tables ctx e (E.exprsArePure_iff.1 hbound e he)
  · intro e he ctx
    rcases mem_append.1 he with he | he
    · obtain ⟨c, hc, rfl⟩ := List.mem_map.1 he
      exact heval _ (expandColumns_forall (p := fun e => E.exprIsPure e = true) (fun _ _ => rfl)
        hcolumns hcols c hc) ctx
    · obtain ⟨ob, hob, rfl⟩ := List.mem_map.1 he
      exact heval _ (hsafe.2 ob hob) ctx

end SqlEngine

def rowPool : Pool where
  cut xs := xs.map fun x => [x]
  flatten_cut xs := by induction xs <;> simp_all
  collect rs := rs.mapM id
  collect_ok xs := by rw [mapM_eq_ok_iff, List.map_id]
  collect_error rs e he := by
    cases hrun : rs.mapM id with
    | ok ys =>
      rw [mapM_eq_ok_iff, List.map_id] at hrun
      rw [hrun] at he
      obtain ⟨y, _, hy⟩ := List.mem_map.1 he
      cases hy
    | error e' =>
      obtain ⟨r, hr, hre⟩ := exists_of_mapM_error hrun
      exact ⟨e', hre ▸ hr, rfl⟩

def bigIds : SelectBody Empty Unit where
  distinct := false
  top := none
  columns := [⟨.column none "id", none⟩]
  fromTable := some (.named "t" none)
  joins := []
  whereClause := some (.binary (.literal (.int 1)) .lt (.column none "id"))
  groupBy := []
  having := none

def asciiLower (c : Char) : Char := if c = 'Σ' then 'σ' else c.toLower

lemma toLowercase_asciiPlatform (cs : List Char) :
    Lowercase.toLowercase asciiPlatform.tables cs = cs.map asciiLower := by
  have h : ∀ (cs before : List Char),
      Lowercase.lowerFrom asciiPlatform.tables before cs = cs.map asciiLower := by
    intro cs
    induction cs with
    | nil => intro _; rfl
    | cons c cs ih =>
      intro before
      have hcased : ∀ l, Lowercase.nearestCased asciiPlatform.tables l = false := fun l => by
        rw [Lowercase.nearestCased]
        split <;> rfl
      rw [Lowercase.lowerFrom, ih, map_cons, Lowercase.lowerAt, asciiLower, hcased]
      split <;> rfl
  exact h cs []

lemma asciiLower_asciiLower (c : Char) : asciiLower (asciiLower c) = asciiLower c := by
  rw [asciiLower, asciiLower]
  by_cases hc : c = 'Σ'
  · rw [if_pos hc]
    decide
  · rw [if_neg hc, Char.toLower_toLower_eq_toLower]
    split
    · next h =>
      -- no character is lower-cased to a capital letter
      have hupper : c.toLower = c := by
        refine Char.toLower_eq_of_not_isUpper fun hup => ?_
        rw [Char.toLower_eq_of_isUpper hup] at h
        have hnat := congrArg Char.toNat h
        simp only [Char.isUpper, decide_eq_true_eq] at hup
        have hle : c.toNat ≤ 90 := hup.2
        rw [Char.toNat_ofNat, if_pos (.inl (by omega))] at hnat
        have : ('Σ' : Char).toNat = 931 := rfl
        omega
      exact absurd (hupper ▸ h) hc
    · rfl

lemma lower_lower_asciiPlatform (s : String) :
    lower asciiPlatform (lower asciiPlatform s) = lower asciiPlatform s := by
  simp only [lower, toLowercase_asciiPlatform, String.toList_ofList, List.map_map]
  congr 2
  funext c
  exact asciiLower_asciiLower c

/-- A platform in a zone, which reads a text as midnight there. -/
def zoned (midnight : Int64) : ThreadOps (Except String) :=
  { plainOps with platform :=
    { asciiPlatform with parseDate := fun _ => some ⟨midnight, 0, .dateTime⟩ } }

/-- After `setTimeZone("Asia/Kolkata")` on a host that runs in UTC; the statement's one parameter is
an instant past midnight in Kolkata and before it in UTC. -/
def kolkataEngine : SqlEngine (Except String) Empty Unit :=
  { plainEngine with
    toThreadOps := zoned 1767205800
    worker := zoned 1767225600
    params := ⟨[.dateTime ⟨1767210000, 0, .dateTime⟩], []⟩ }

/-- `SELECT 1 FROM t WHERE ? > '2026-01-01 00:00:00'` -/
def thisYear : SelectBody Empty Unit :=
  let year : SqlExpr Empty Unit := .literal (.string "2026-01-01 00:00:00")
  { bigIds with
    columns := [⟨.literal (.int 1), none⟩]
    whereClause := some (.binary (.param (.positional 0)) .gt year) }

/-- A table of a thousand rows, from which number on the pool is used. -/
def thousand : SourceTable := idTable (List.replicate 1000 .null)

def selectedRows (r : Except String CoreResult) : Option Nat := r.toOption.map CoreResult.rowCount

end RustCfml.Qoq
