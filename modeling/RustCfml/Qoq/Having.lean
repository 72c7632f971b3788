import RustCfml.Qoq.Union

/-!
# `HAVING`

A `HAVING` clause keeps groups: those that `GROUP BY` makes, or all rows as the one group when there
is no `GROUP BY`. **Every other select forgets the clause**: it projects its rows one by one, and a
select without `FROM` gives its one row.
-/

namespace RustCfml.Qoq

open Fallible FirstOf List

def CoreResult.rows (r : CoreResult) : List (List CfmlValue) :=
  (List.range r.rowCount).map fun i => r.data.map fun col => col[i]?.getD .null

/-- What a select is to be computed from: the rows that `WHERE` leaves and the groups they make. -/
structure Plan (σ κ : Type) where
  tables : SourceTables
  filtered : List Intersection
  groups : List (List Intersection)
  having : Option (SqlExpr σ κ)
  exprs : List (SqlExpr σ κ)
  /-- `has_agg || !core.group_by.is_empty()` -/
  aggregated : Bool
  top : Option Nat

namespace SqlEngine

variable {σ κ : Type} (E : SqlEngine (Except String) σ κ)

def filteredOf (par : Option Pool) (tables : SourceTables) (core : BoundCore σ κ) :
    Except String (List Intersection) := do
  let inters ← E.coreIntersections tables core
  E.filterWhere par tables (core.whereClause.map compile) inters

def groupsOf (par : Option Pool) (tables : SourceTables) (core : BoundCore σ κ)
    (filtered : List Intersection) :
    Except String (List (List Intersection)) :=
  if core.groupBy.isEmpty then pure [filtered] else E.partition par tables core.groupBy filtered

def boundPlan (tables : SourceTables) (bound : BoundCore σ κ) (filtered : List Intersection)
    (groups : List (List Intersection)) (top : Option Nat) : Plan σ κ :=
  ⟨tables, filtered, groups, bound.having, bound.exprs, E.coreHasAggregate bound ||
    !bound.groupBy.isEmpty, top⟩

/-- A select without `FROM` has one row, which belongs to no table and which `TOP` does not take
away. -/
def planOf (par : Option Pool) (sources : List (String × QueryData CfmlValue))
    (core : SelectBody σ κ) (orderBy : List (OrderByExpr σ κ)) : Except String (Plan σ κ) := do
  let tables ← E.resolveTables sources core
  if tables.isEmpty then
    return ⟨[], [[]], [[[]]], core.having, core.columns.map SelectColumn.expr, false, none⟩
  else do
    let cols ← expandColumns tables core.columns
    let bound := E.bindCore tables core cols orderBy
    let filtered ← E.filteredOf par tables bound
    let groups ← E.groupsOf par tables bound filtered
    return E.boundPlan tables bound filtered groups core.top

def Passes (plan : Plan σ κ) (part : List Intersection) : Prop :=
  ∀ h, plan.having = some h →
    ∃ v, E.eval plan.tables (.group part) h = .ok v ∧ isTruthy E.platform v = true

/-- A row is evaluated over the group, or over a row of it; a pool has its own copy of the
engine. -/
def ComesFrom (plan : Plan σ κ) (part : List Intersection) (row : List CfmlValue) : Prop :=
  ∃ ctx, (ctx = .group part ∨ ∃ inter ∈ part, ctx = .row inter) ∧
    (plan.exprs.mapM (E.eval plan.tables ctx) = .ok row ∨
      plan.exprs.mapM (E.pureEngine.eval plan.tables ctx) = .ok row)

/-- **Each output row comes from a group for which the clause is true.** -/
def HavingFilters (plan : Plan σ κ) (r : CoreResult) : Prop :=
  ∀ row ∈ r.rows, ∃ part ∈ plan.groups, E.Passes plan part ∧ E.ComesFrom plan part row

/-- The select groups its rows, or gives none (`WHERE` leaves none, or `TOP 0`), or its clause is
true of the rows that `WHERE` leaves as one group. -/
def HavingHeeded (plan : Plan σ κ) : Prop :=
  plan.aggregated = true ∨ plan.filtered = [] ∨ plan.top = some 0 ∨ E.Passes plan plan.filtered

end SqlEngine

lemma rows_rowsToCols (names : List String) (keys : Columns) {n : Nat}
    {rows : List (List CfmlValue)}
    (h : ∀ row ∈ rows, row.length = n) :
    (CoreResult.mk names rows.length (rowsToCols rows n) keys).rows = rows := by
  refine ext_getElem? fun i => ?_
  rw [CoreResult.rows, getElem?_map]
  by_cases hi : i < rows.length
  · have hrow := map_range_getD (h _ (getElem_mem hi))
    rw [getElem?_range hi, getElem?_eq_getElem hi, Option.map_some]
    conv_rhs => rw [← hrow]
    simp [rowsToCols, hi]
  · rw [getElem?_eq_none (by simpa using hi), getElem?_eq_none (by omega)]
    rfl

lemma retain_map {α : Type} (cell : α → CfmlValue) (xs : List α) (keep : List Bool) :
    retain keep (xs.map cell) = (((xs.zip keep).filter (·.2)).map (·.1)).map cell := by
  simp only [retain, zip_map_left, filter_map, map_map]
  rfl

lemma applyKeepMask_rowsToCols (rows : List (List CfmlValue)) (n : Nat) (keep : List Bool) :
    applyKeepMask (rowsToCols rows n) keep =
    rowsToCols (((rows.zip keep).filter (·.2)).map (·.1)) n := by
  rw [applyKeepMask, rowsToCols, map_map]
  exact map_congr_left fun ci _ => retain_map _ rows keep

lemma length_kept {α : Type} : ∀ {rows : List α} {keep : List Bool}, rows.length = keep.length →
    (((rows.zip keep).filter (·.2)).map (·.1)).length = keptCount keep
  | [], [], _ => rfl
  | row :: rows, true :: keep, h => by
    have ih := length_kept (Nat.succ.inj h)
    rw [keptCount, count_cons_self, ← keptCount, ← ih]
    rfl
  | row :: rows, false :: keep, h => by
    have ih := length_kept (Nat.succ.inj h)
    rw [keptCount, count_cons_of_ne (by decide), ← keptCount, ← ih]
    rfl

def Body.Of (body : Body) (n : Nat) (rows : List (List CfmlValue)) : Prop :=
  body.1 = rowsToCols rows n ∧ body.2.2 = rows.length ∧ ∀ row ∈ rows, row.length = n

namespace SqlEngine

variable {σ κ : Type} (E : SqlEngine (Except String) σ κ)

variable {body : Body} {tables : SourceTables} {exprs orderBy : List (SqlExpr σ κ)}
  {par : Option Pool} {n : Nat} {rows : List (List CfmlValue)} {inters : List Intersection}

lemma of_distinctBody
    (h : body.Of n rows) : ∃ rows', (E.distinctBody body).Of n rows' ∧ ∀ row ∈ rows',
    row ∈ rows := by
  obtain ⟨hdata, hcount, hlen⟩ := h
  let keep := dedupKeepMask E.platform body.1 body.2.2
  have hkeep : rows.length = keep.length := by rw [length_dedupKeepMask, hcount]
  have hsub : ∀ row ∈ ((rows.zip keep).filter (·.2)).map (·.1), row ∈ rows := by
    intro row hrow
    obtain ⟨p, hp, rfl⟩ := mem_map.1 hrow
    exact (of_mem_zip (mem_filter.1 hp).1).1
  refine ⟨((rows.zip keep).filter (·.2)).map (·.1),
    ⟨?_, ?_, fun row hrow => hlen row (hsub row hrow)⟩, hsub⟩
  · show applyKeepMask body.1 keep = _
    rw [hdata]
    exact applyKeepMask_rowsToCols rows n keep
  · exact (length_kept hkeep).symm

lemma of_topBody (top : Nat)
    (h : body.Of n rows) : ∃ rows', (topBody top body).Of n rows' ∧ ∀ row ∈ rows', row ∈ rows := by
  obtain ⟨data, keys, rowCount⟩ := body
  obtain ⟨hdata, hcount, hlen⟩ := h
  rw [topBody]
  split
  · next hlt =>
    refine ⟨rows.take top, ⟨?_, ?_, fun row hrow => hlen row (mem_of_mem_take hrow)⟩,
      fun row hrow => mem_of_mem_take hrow⟩
    · show truncateCols top data = _
      rw [show data = _ from hdata]
      simp [truncateCols, rowsToCols, map_take]
    · have : rows.length = rowCount := hcount.symm
      show top = _
      rw [length_take]
      omega
  · exact ⟨rows, ⟨hdata, hcount, hlen⟩, fun _ h => h⟩

lemma mem_rows_finishCore (core : SelectBody σ κ) (names : List String) (h : body.Of n rows) :
    ∀ row ∈ (E.finishCore core names body).rows, row ∈ rows := by
  obtain ⟨rows1, h1, hsub1⟩ : ∃ rows1,
      (if core.distinct then E.distinctBody body else body : Body).Of n rows1 ∧
        ∀ row ∈ rows1, row ∈ rows := by
    split
    · exact E.of_distinctBody h
    · exact ⟨rows, h, fun _ h => h⟩
  have hrows : ∀ {b : Body} {rows' : List (List CfmlValue)}, b.Of n rows' →
      (CoreResult.mk names b.2.2 b.1 b.2.1).rows = rows' := by
    intro b rows' hb
    rw [hb.1, hb.2.1]
    exact rows_rowsToCols names _ hb.2.2
  intro row hrow
  rw [finishCore] at hrow
  cases htop : core.top with
  | none =>
    rw [htop] at hrow
    exact hsub1 row (hrows h1 ▸ hrow)
  | some top =>
    rw [htop] at hrow
    obtain ⟨rows2, h2, hsub2⟩ := of_topBody top h1
    exact hsub1 row (hsub2 row (hrows h2 ▸ hrow))

lemma keptCount_eq_zero {P : Platform} {data : Columns} {rowCount : Nat} :
    keptCount (dedupKeepMask P data rowCount) = 0 ↔ rowCount = 0 := by
  cases rowCount with
  | zero => simp [keptCount, dedupKeepMask, keepMask]
  | succ n =>
    -- the first row is always kept
    rw [dedupKeepMask, range_succ_eq_map, map_cons, keepMask, keptCount]
    simp

lemma rowCount_finishCore (core : SelectBody σ κ) (names : List String) (body : Body) :
    (E.finishCore core names body).rowCount = 0 ↔ body.2.2 = 0 ∨ core.top = some 0 := by
  have hdistinct : (if core.distinct then E.distinctBody body else body : Body).2.2 = 0 ↔
      body.2.2 = 0 := by
    split
    · exact keptCount_eq_zero
    · rfl
  rw [← hdistinct, finishCore]
  generalize (if core.distinct then E.distinctBody body else body : Body) = b
  cases core.top with
  | none => simp
  | some n =>
    show (topBody n b).2.2 = 0 ↔ _
    rw [topBody]
    split
    · next h =>
      have hpos : b.2.2 ≠ 0 := Nat.ne_of_gt (Nat.lt_of_le_of_lt (Nat.zero_le n) h)
      simp [hpos]
    · next h =>
      have hle : b.2.2 ≤ n := Nat.le_of_not_gt h
      show b.2.2 = 0 ↔ b.2.2 = 0 ∨ some n = some 0
      rw [Option.some.injEq]
      omega

/-! ## The two pipelines -/

variable {out : List CfmlValue × List CfmlValue} {having : Option (SqlExpr σ κ)}
  {core : SelectBody σ κ} {r : CoreResult}

lemma projectRow_ok {ctx : RowCtx} (h : E.projectRow tables exprs orderBy ctx = .ok out) :
    exprs.mapM (E.eval tables ctx) = .ok out.1 := by
  obtain ⟨row, hrow, h⟩ := bind_eq_ok h
  obtain ⟨keys, _, h⟩ := bind_eq_ok h
  cases h
  exact hrow

lemma aggregateRow_some {part : List Intersection}
    (h : E.aggregateRow tables having exprs orderBy part = .ok (some out)) :
    exprs.mapM (E.eval tables (.group part)) = .ok out.1 ∧ ∀ hv, having = some hv →
        ∃ v, E.eval tables (.group part) hv = .ok v ∧ isTruthy E.platform v = true := by
  cases having with
  | none =>
    obtain ⟨out', hout, h⟩ := bind_eq_ok h
    cases h
    exact ⟨E.projectRow_ok hout, fun hv heq => nomatch heq⟩
  | some hv =>
    obtain ⟨v, hval, h⟩ := bind_eq_ok h
    split at h
    · next htrue =>
      obtain ⟨out', hout, h⟩ := bind_eq_ok h
      cases h
      refine ⟨E.projectRow_ok hout, fun hv' heq => ?_⟩
      cases heq
      exact ⟨v, hval, htrue⟩
    · cases h

lemma rows_execAggregate {groupBy : List (SqlExpr σ κ)}
    (h : E.execAggregate par tables groupBy having exprs orderBy inters = .ok body) :
    ∃ parts rows, (if groupBy.isEmpty then pure [inters]
        else E.partition par tables groupBy inters) = Except.ok parts ∧
      body.Of exprs.length rows ∧ ∀ row ∈ rows, ∃ part ∈ parts,
        exprs.mapM (E.eval tables (.group part)) = .ok row ∧ ∀ hv, having = some hv →
            ∃ v, E.eval tables (.group part) hv = .ok v ∧ isTruthy E.platform v = true := by
  -- the groups, then one output row or none for each
  have hsplit : ∃ parts found, (if groupBy.isEmpty then pure [inters]
      else E.partition par tables groupBy inters) = Except.ok parts ∧
      parts.mapM (E.aggregateRow tables having exprs orderBy) = .ok found ∧
      body = (transpose ((found.filterMap id).map Prod.fst) exprs.length,
        transpose ((found.filterMap id).map Prod.snd) orderBy.length,
            (found.filterMap id).length) := by
    rw [execAggregate] at h
    split at h
    · next hempty =>
      obtain ⟨parts, hparts, h⟩ := bind_eq_ok h
      obtain ⟨found, hfound, h⟩ := bind_eq_ok h
      cases h
      exact ⟨parts, found, by rw [if_pos hempty]; exact hparts, hfound, rfl⟩
    · next hempty =>
      obtain ⟨parts, hparts, h⟩ := bind_eq_ok h
      obtain ⟨found, hfound, h⟩ := bind_eq_ok h
      cases h
      exact ⟨parts, found, by rw [if_neg hempty]; exact hparts, hfound, rfl⟩
  obtain ⟨parts, found, hparts, hfound, rfl⟩ := hsplit
  have hrow : ∀ row ∈ (found.filterMap id).map Prod.fst, ∃ part ∈ parts,
      exprs.mapM (E.eval tables (.group part)) = .ok row ∧ ∀ hv, having = some hv →
          ∃ v, E.eval tables (.group part) hv = .ok v ∧ isTruthy E.platform v = true := by
    intro row hrow
    obtain ⟨out, hout, rfl⟩ := mem_map.1 hrow
    obtain ⟨o, ho, hsome⟩ := mem_filterMap.1 hout
    cases hsome
    obtain ⟨part, hpart, hagg⟩ := exists_of_mem_mapM hfound ho
    exact ⟨part, hpart, E.aggregateRow_some hagg⟩
  refine ⟨parts, _, hparts, ⟨transpose_eq _ _, (length_map _).symm, fun row hmem => ?_⟩, hrow⟩
  obtain ⟨part, _, heval, _⟩ := hrow row hmem
  exact length_mapM heval

lemma rows_execSimple_none (h : E.execSimple none tables exprs orderBy inters = .ok body) :
    ∃ rows, body.Of exprs.length rows ∧ rows.length = inters.length ∧
      ∀ row ∈ rows, ∃ inter ∈ inters, exprs.mapM (E.eval tables (.row inter)) = .ok row := by
  rw [execSimple_none] at h
  obtain ⟨out, hout, h⟩ := bind_eq_ok h
  cases h
  have hrow : ∀ row ∈ out.map Prod.fst, ∃ inter ∈ inters,
      exprs.mapM (E.eval tables (.row inter)) = .ok row := by
    intro row hmem
    obtain ⟨o, ho, rfl⟩ := mem_map.1 hmem
    obtain ⟨inter, hinter, hproj⟩ := exists_of_mem_mapM hout ho
    exact ⟨inter, hinter, E.projectRow_ok hproj⟩
  have hlen : (out.map Prod.fst).length = inters.length := by rw [length_map, length_mapM hout]
  refine ⟨out.map Prod.fst, ⟨rfl, hlen.symm, fun row hmem => ?_⟩, hlen, hrow⟩
  · obtain ⟨inter, _, heval⟩ := hrow row hmem
    exact length_mapM heval

lemma rows_execSimple (h : E.execSimple par tables exprs orderBy inters = .ok body) :
    ∃ rows, body.Of exprs.length rows ∧ rows.length = inters.length ∧ ∀ row ∈ rows,
    ∃ inter ∈ inters,
      exprs.mapM (E.eval tables (.row inter)) = .ok row ∨
        exprs.mapM (E.pureEngine.eval tables (.row inter)) = .ok row := by
  cases hpool : poolFor par inters.length with
  | none =>
    rw [execSimple, hpool, ← poolFor_none inters.length, ← execSimple] at h
    obtain ⟨rows, hof, hlen, hrows⟩ := E.rows_execSimple_none h
    exact ⟨rows, hof, hlen, fun row hrow => (hrows row hrow).imp fun _ hi => ⟨hi.1, .inl hi.2⟩⟩
  | some pool =>
    obtain ⟨rows, hof, hlen, hrows⟩ :=
      E.pureEngine.rows_execSimple_none ((E.execSimple_pool hpool).eq_ok h)
    exact ⟨rows, hof, hlen, fun row hrow => (hrows row hrow).imp fun _ hi => ⟨hi.1, .inr hi.2⟩⟩

/-- Grouped: the clause is looked at. Otherwise: one group, and its rows as they are. -/
structure Dispatched (plan : Plan σ κ) (r : CoreResult) : Prop where
  grouped : plan.aggregated = true → E.HavingFilters plan r
  single : plan.aggregated = false → plan.groups = [plan.filtered] ∧
    (∀ row ∈ r.rows, E.ComesFrom plan plan.filtered row) ∧
    (r.rowCount = 0 ↔ plan.filtered = [] ∨ plan.top = some 0)

lemma dispatched_runPicked {bound : BoundCore σ κ} (hhaving : bound.having.isSome)
    (h : E.runPicked par tables bound = .ok body) :
    ∃ filtered groups, E.filteredOf par tables bound = .ok filtered ∧
      E.groupsOf par tables bound filtered = .ok groups ∧
      ∀ (core : SelectBody σ κ) (names : List String),
        E.Dispatched (E.boundPlan tables bound filtered groups core.top)
        (E.finishCore core names body) := by
  -- with a clause the fused path is never taken
  have hfused : E.fusedTable tables bound = none := by
    unfold fusedTable
    split
    · rw [if_neg (by simp [Option.isNone_eq_false_iff.2 hhaving])]
    · rfl
  rw [runPicked, hfused] at h
  obtain ⟨inters, hinters, h⟩ := bind_eq_ok h
  obtain ⟨filtered, hfiltered, h⟩ := bind_eq_ok h
  have hrows : E.filteredOf par tables bound = .ok filtered := by
    rw [filteredOf, hinters]
    exact hfiltered
  split at h
  · next hagg =>
    obtain ⟨parts, rows, hparts, hof, hfrom⟩ := E.rows_execAggregate h
    refine ⟨filtered, parts, hrows, hparts, fun core names => ⟨fun _ row hrow => ?_, fun hno => ?_⟩⟩
    · obtain ⟨part, hpart, heval, hpass⟩ :=
        hfrom row (E.mem_rows_finishCore core names hof row hrow)
      exact ⟨part, hpart, hpass, .group part, .inl rfl, .inl heval⟩
    · exact absurd (hagg.symm.trans hno) (by decide)
  · next hagg =>
    have hempty : bound.groupBy.isEmpty = true := by
      revert hagg
      cases bound.groupBy.isEmpty <;> simp
    obtain ⟨rows, hof, hlen, hfrom⟩ := E.rows_execSimple h
    refine ⟨filtered, [filtered], hrows, if_pos hempty, fun core names =>
      ⟨fun hyes => absurd hyes hagg, fun _ => ⟨rfl, fun row hrow => ?_, ?_⟩⟩⟩
    · obtain ⟨inter, hinter, heval⟩ := hfrom row (E.mem_rows_finishCore core names hof row hrow)
      exact ⟨.row inter, .inr ⟨inter, hinter, rfl⟩, heval⟩
    · rw [E.rowCount_finishCore, hof.2.1, hlen, length_eq_zero_iff]
      rfl

lemma dispatched_runNoFrom {orderBy : List (OrderByExpr σ κ)}
    (h : E.runNoFrom core orderBy = .ok r) :
    E.Dispatched ⟨[], [[]], [[[]]], core.having, core.columns.map SelectColumn.expr, false,
      none⟩ r := by
  obtain ⟨row, hrow, h⟩ := bind_eq_ok h
  obtain ⟨keys, _, h⟩ := bind_eq_ok h
  cases h
  refine ⟨fun hyes => (nomatch hyes), fun _ => ⟨rfl, fun out hout => ?_, by simp⟩⟩
  have hsame : out = row := by
    rw [mem_singleton.1 hout]
    show (row.map fun v => [v]).map _ = row
    rw [map_map]
    exact map_id row
  subst hsame
  refine ⟨.row [], .inr ⟨[], mem_singleton_self _, rfl⟩, .inl ?_⟩
  -- no column is a star, or there would be no row
  rw [mapM_map]
  rw [← hrow]
  refine mapM_congr fun c hc => ?_
  split
  · next hstar =>
    have hfail := mapM_fails (f := fun c : SelectColumn σ κ =>
      if c.expr.isStar then .error "Query of Queries: '*' requires a FROM clause"
      else E.eval [] (.row []) c.expr) hc (by simp only [hstar, if_true]; rfl)
    rw [hrow] at hfail
    exact nomatch hfail
  · rfl

lemma dispatched_runCore {sources : List (String × QueryData CfmlValue)}
    {orderBy : List (OrderByExpr σ κ)}
    (hhaving : core.having.isSome) (h : E.runCore par sources core orderBy = .ok r) :
    ∃ plan, E.planOf par sources core orderBy = .ok plan ∧ E.Dispatched plan r := by
  obtain ⟨tables, htables, h⟩ := bind_eq_ok h
  by_cases hempty : tables.isEmpty = true
  · rw [if_pos hempty] at h
    refine ⟨_, ?_, E.dispatched_runNoFrom h⟩
    rw [planOf, htables]
    show (if tables.isEmpty then _ else _) = _
    rw [if_pos hempty]
    rfl
  · rw [if_neg hempty] at h
    obtain ⟨cols, hcols, h⟩ := bind_eq_ok h
    obtain ⟨body, hbody, h⟩ := bind_eq_ok h
    cases h
    have hbound : (E.bindCore tables core cols orderBy).having.isSome := by
      show (E.bindOption tables core.having).isSome
      cases hc : core.having with
      | none => rw [hc] at hhaving; exact absurd hhaving (by simp)
      | some hv => rfl
    obtain ⟨filtered, groups, hfiltered, hgroups, hdisp⟩ := E.dispatched_runPicked hbound hbody
    refine ⟨_, ?_, hdisp core _⟩
    rw [planOf, htables]
    show (if tables.isEmpty then _ else _) = _
    rw [if_neg hempty, hcols]
    show (E.filteredOf par tables (E.bindCore tables core cols orderBy) >>= _) = _
    rw [hfiltered]
    show (E.groupsOf par tables (E.bindCore tables core cols orderBy) filtered >>= _) = _
    rw [hgroups]
    rfl

end SqlEngine

def idQuery (cells : List CfmlValue) : List (String × QueryData CfmlValue) :=
  [("t", ⟨["id"], [cells]⟩)]

def havingTwo (groupBy : List (SqlExpr Empty Unit)) : SelectBody Empty Unit where
  distinct := false
  top := none
  columns := [⟨.column none "id", none⟩]
  fromTable := some (.named "t" none)
  joins := []
  whereClause := none
  groupBy := groupBy
  having := some (.binary (.column none "id") .eq (.literal (.int 2)))

end RustCfml.Qoq
