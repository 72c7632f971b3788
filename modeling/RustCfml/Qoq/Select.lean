import RustCfml.Qoq.Pipeline

/-!
# `execution.rs`: running a select statement

`run_core` resolves the tables of one core, expands `*`, binds every expression, compiles the
`WHERE` clause and picks a pipeline; `run_statement` joins the cores of a `UNION`, sorts and cuts
the result.
-/

namespace RustCfml.Qoq

section

variable {σ κ : Type}

namespace SqlEngine

section

variable {m : Type → Type} (E : SqlEngine m σ κ)

mutual

/-- An aggregate function is called somewhere in the expression. -/
def hasAggregate : SqlExpr σ κ → Bool
  | .function name args _ => E.isAggregate name || hasAggregateList args
  | .binary left _ right => hasAggregate left || hasAggregate right
  | .unary _ expr => hasAggregate expr
  | .cast expr _ => hasAggregate expr
  | .isNull expr _ => hasAggregate expr
  | .case operand whens elseExpr =>
    hasAggregateOption operand || hasAggregateWhens whens || hasAggregateOption elseExpr
  | .inList expr _ list => hasAggregate expr || hasAggregateList list
  | .between expr _ low high => hasAggregate expr || hasAggregate low || hasAggregate high
  | .like expr _ pattern _ _ => hasAggregate expr || hasAggregate pattern
  | _ => false

def hasAggregateOption : Option (SqlExpr σ κ) → Bool
  | none => false
  | some e => hasAggregate e

def hasAggregateList : List (SqlExpr σ κ) → Bool
  | [] => false
  | e :: es => hasAggregate e || hasAggregateList es

def hasAggregateWhens : List (SqlExpr σ κ × SqlExpr σ κ) → Bool
  | [] => false
  | (w, t) :: rest => hasAggregate w || hasAggregate t || hasAggregateWhens rest

end

mutual

/-- No registered function and no subquery. -/
def exprIsPure : SqlExpr σ κ → Bool
  | .function name args _ =>
    (E.registry.customs (lower E.platform name)).isNone &&
      (E.registry.dynamics (lower E.platform name)).isNone && exprsArePure args
  | .scalarSubquery _ => false
  | .inSubquery _ _ _ => false
  | .binary left _ right => exprIsPure left && exprIsPure right
  | .unary _ expr => exprIsPure expr
  | .cast expr _ => exprIsPure expr
  | .isNull expr _ => exprIsPure expr
  | .case operand whens elseExpr =>
    optionIsPure operand && whensArePure whens && optionIsPure elseExpr
  | .inList expr _ list => exprIsPure expr && exprsArePure list
  | .between expr _ low high => exprIsPure expr && exprIsPure low && exprIsPure high
  | .like expr _ pattern escape _ => exprIsPure expr && exprIsPure pattern && optionIsPure escape
  | .star _ | .column _ _ | .resolvedColumn _ _ _ | .literal _ | .param _ => true

def optionIsPure : Option (SqlExpr σ κ) → Bool
  | none => true
  | some e => exprIsPure e

def exprsArePure : List (SqlExpr σ κ) → Bool
  | [] => true
  | e :: es => exprIsPure e && exprsArePure es

def whensArePure : List (SqlExpr σ κ × SqlExpr σ κ) → Bool
  | [] => true
  | (w, t) :: rest => exprIsPure w && exprIsPure t && whensArePure rest

end

def tableRefIsPure : TableRef σ → Bool
  | .named _ _ => true
  | .derived _ _ => false

def coreIsPure (core : SelectBody σ κ) : Bool :=
  core.fromTable.all tableRefIsPure &&
    core.joins.all (fun j => tableRefIsPure j.table && E.optionIsPure j.on) &&
    E.optionIsPure core.whereClause && E.exprsArePure core.groupBy &&
    E.optionIsPure core.having && core.columns.all fun c => E.exprIsPure c.expr

/-- The statement may run on the pool. -/
def isParallelSafe (stmt : SelectStatement σ κ) : Bool :=
  E.coreIsPure stmt.body && stmt.unions.all (fun u => E.coreIsPure u.select) &&
    stmt.orderBy.all fun ob => E.exprIsPure ob.expr

def starColumns (t : SourceTable) : List (SelectColumn σ κ) :=
  t.columns.map fun col => ⟨.column (some t.name) col, some col⟩

def expandColumn (tables : SourceTables) (sc : SelectColumn σ κ) :
    Except String (List (SelectColumn σ κ)) :=
  match sc.expr with
  | .star none => .ok (tables.flatMap starColumns)
  | .star (some tn) =>
    match tables.find? fun t => eqIgnoreAsciiCase t.name tn with
    | some t => .ok (starColumns t)
    | none => .error s!"Query of Queries: unknown table '{tn}' in {tn}.*"
  | _ => .ok [sc]

def expandColumns (tables : SourceTables) (columns : List (SelectColumn σ κ)) :
    Except String (List (SelectColumn σ κ)) := do
  let parts ← columns.mapM (expandColumn tables)
  return parts.flatten

/-- The name a column asks for: its alias, the name of the column or function, its number. -/
def baseName (i : Nat) (sc : SelectColumn σ κ) : String :=
  match sc.aliasName, sc.expr with
  | some a, _ => a
  | none, .column _ name => name
  | none, .resolvedColumn _ _ name => name
  | none, .function name _ _ => name
  | none, _ => s!"column_{i}"

/-- The `while` of `derive_column_names`: `base`, `base_2`, `base_3`, … until one is new. As many
names as are taken can be refused, so that many tries and one more are enough. -/
def freshName (base : String) (seen : List String) : (tries n : Nat) → String → String
  | 0, _, name => name
  | tries + 1, n, name =>
    if seen.contains (lower E.platform name) then
      freshName base seen tries (n + 1) s!"{base}_{n + 1}"
    else name

def deriveNames : Nat → List String → List (SelectColumn σ κ) → List String
  | _, _, [] => []
  | i, seen, sc :: rest =>
    let base := baseName i sc
    let name := E.freshName base seen (seen.length + 1) 1 base
    name :: deriveNames (i + 1) (lower E.platform name :: seen) rest

def deriveColumnNames (cols : List (SelectColumn σ κ)) : List String := E.deriveNames 0 [] cols

end

variable (E : SqlEngine (Except String) σ κ)

structure BoundCore (σ κ : Type) where
  joins : List (JoinClause σ κ)
  whereClause : Option (SqlExpr σ κ)
  groupBy : List (SqlExpr σ κ)
  having : Option (SqlExpr σ κ)
  exprs : List (SqlExpr σ κ)
  orderBy : List (SqlExpr σ κ)

/-- Every column is looked up once, before any row is read. -/
def bindCore (tables : SourceTables) (core : SelectBody σ κ) (cols : List (SelectColumn σ κ))
    (orderBy : List (OrderByExpr σ κ)) : BoundCore σ κ where
  joins := core.joins.map fun j => { j with on := E.bindOption tables j.on }
  whereClause := E.bindOption tables core.whereClause
  groupBy := E.bindList tables core.groupBy
  having := E.bindOption tables core.having
  exprs := cols.map fun c => E.bindExpr tables c.expr
  orderBy := orderBy.map fun ob => E.bindExpr tables ob.expr

def viewEngine (tables : SourceTables) : Engine (SqlExpr σ κ) where
  platform := E.platform
  compute := E.compute
  negate := E.negate
  other e _ inter := E.eval tables (.row inter) e

/-- The row combinations of the joined tables. -/
def coreIntersections (tables : SourceTables) (core : BoundCore σ κ) :
    Except String (List Intersection) :=
  match tables.unnamed with
  | [] => .ok []
  | first :: rest =>
    (E.viewEngine tables).buildCoreIntersections
      { first
        joins := List.zipWith (fun (j : JoinClause σ κ) t => ⟨j.joinType, t, j.on.map SqlExpr.view⟩)
          core.joins rest
        whereClause := core.whereClause.map SqlExpr.view }

def coreHasAggregate (core : BoundCore σ κ) : Bool :=
  E.hasAggregateList core.exprs || E.hasAggregateOption core.having

/-- The general pipeline: combinations, filter, then grouping or projection. -/
def runGeneral (par : Option Pool) (tables : SourceTables) (core : BoundCore σ κ) :
    Except String Body := do
  let inters ← E.coreIntersections tables core
  let filtered ← E.filterWhere par tables (core.whereClause.map compile) inters
  if E.coreHasAggregate core || !core.groupBy.isEmpty then
    E.execAggregate par tables core.groupBy core.having core.exprs core.orderBy filtered
  else E.execSimple par tables core.exprs core.orderBy filtered

/-- The one table of a select without joins and groups. -/
def fusedTable (tables : SourceTables) (core : BoundCore σ κ) : Option SourceTable :=
  match tables with
  | [t] =>
    if !E.coreHasAggregate core && core.groupBy.isEmpty && core.having.isNone && core.joins.isEmpty
    then some t else none
  | _ => none

/-- The pipeline that `run_core` picks. -/
def runPicked (par : Option Pool) (tables : SourceTables) (core : BoundCore σ κ) :
    Except String Body :=
  match E.fusedTable tables core with
  | some t =>
    E.execNoJoinFused par tables (core.whereClause.map compile) core.exprs core.orderBy t.rowCount
  | none => E.runGeneral par tables core

/-- `DISTINCT`: the sort keys lose the rows the data loses. -/
def distinctBody (body : Body) : Body :=
  let (data, keys, rowCount) := body
  let keep := dedupKeepMask E.platform data rowCount
  (applyKeepMask data keep, applyKeepMask keys keep, keptCount keep)

def topBody (n : Nat) (body : Body) : Body :=
  let (data, keys, rowCount) := body
  if rowCount > n then (truncateCols n data, truncateCols n keys, n) else body

/-- `DISTINCT`, then `TOP`. -/
def finishCore (core : SelectBody σ κ) (names : List String) (body : Body) : CoreResult :=
  let body := if core.distinct then E.distinctBody body else body
  let (data, keys, rowCount) :=
    match core.top with
    | some n => topBody n body
    | none => body
  ⟨names, rowCount, data, keys⟩

def runCoreWith (pipeline : BoundCore σ κ → Except String Body) (tables : SourceTables)
    (core : SelectBody σ κ) (orderBy : List (OrderByExpr σ κ)) : Except String CoreResult := do
  let cols ← expandColumns tables core.columns
  let body ← pipeline (E.bindCore tables core cols orderBy)
  return E.finishCore core (E.deriveColumnNames cols) body

def runCoreOn (par : Option Pool) (tables : SourceTables) (core : SelectBody σ κ)
    (orderBy : List (OrderByExpr σ κ)) : Except String CoreResult :=
  E.runCoreWith (E.runPicked par tables) tables core orderBy

/-- The general pipeline, one row after the other. -/
def runCorePlain (tables : SourceTables) (core : SelectBody σ κ)
    (orderBy : List (OrderByExpr σ κ)) : Except String CoreResult :=
  E.runCoreWith (E.runGeneral none tables) tables core orderBy

/-- `run_no_from`: one row, evaluated without tables. -/
def runNoFrom (core : SelectBody σ κ) (orderBy : List (OrderByExpr σ κ)) :
    Except String CoreResult := do
  let row ← core.columns.mapM fun c =>
    if c.expr.isStar then .error "Query of Queries: '*' requires a FROM clause"
    else E.eval [] (.row []) c.expr
  let keys ← orderBy.mapM fun ob => E.orderKey [] (.row []) row ob.expr
  return ⟨E.deriveColumnNames core.columns, 1, row.map fun v => [v], keys.map fun v => [v]⟩

def fromQueryData (name : String) (q : QueryData CfmlValue) : SourceTable :=
  ⟨⟨q.columns, q.data, q.rowCount⟩, name⟩

def resolveTableRef (sources : List (String × QueryData CfmlValue)) : TableRef σ →
    Except String SourceTable
  | .named name aliasName =>
    match sources.find? fun s => eqIgnoreAsciiCase s.1 name with
    | some (_, q) => .ok (fromQueryData (aliasName.getD name) q)
    | none => .error s!"Query of Queries: table '{name}' not found (no such query variable)"
  | .derived select aliasName => do
    let q ← E.runSubquery select
    return fromQueryData aliasName q

def resolveTables (sources : List (String × QueryData CfmlValue)) (core : SelectBody σ κ) :
    Except String SourceTables :=
  match core.fromTable with
  | none => .ok []
  | some t => (t :: core.joins.map JoinClause.table).mapM (E.resolveTableRef sources)

def runCore (par : Option Pool) (sources : List (String × QueryData CfmlValue))
    (core : SelectBody σ κ) (orderBy : List (OrderByExpr σ κ)) : Except String CoreResult := do
  let tables ← E.resolveTables sources core
  if tables.isEmpty then E.runNoFrom core orderBy else E.runCoreOn par tables core orderBy

end SqlEngine

end

end RustCfml.Qoq
