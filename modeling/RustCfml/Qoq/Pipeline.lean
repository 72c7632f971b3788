import RustCfml.Qoq.Compiled
import RustCfml.Qoq.HashJoin

/-!
# `execution.rs`: from a select to its rows

One `SELECT` core is run by one of several pipelines. A select over one table without grouping takes
a fused path that works on row numbers and fills whole columns; and **each stage has a parallel
form**, taken from a thousand rows on when the statement is pure, that cuts the rows into chunks,
works on the chunks in a thread pool and puts the pieces together again.
-/

namespace RustCfml.Qoq

open RowProduct

structure Pool where
  cut : {α : Type} → List α → List (List α)
  flatten_cut : ∀ {α : Type} (xs : List α), (cut xs).flatten = xs
  collect : {α : Type} → List (Except String α) → Except String (List α)
  collect_ok : ∀ {α : Type} (xs : List α), collect (xs.map .ok) = .ok xs
  collect_error : ∀ {α : Type} (rs : List (Except String α)) (e : String), .error e ∈ rs →
    ∃ e', .error e' ∈ rs ∧ collect rs = .error e'

def parallelRowThreshold : Nat := 1000

/-- `self.parallel && n >= PARALLEL_ROW_THRESHOLD`, with the pool that is then used. -/
def poolFor (par : Option Pool) (n : Nat) : Option Pool :=
  if n ≥ parallelRowThreshold then par else none

abbrev Columns := List (List CfmlValue)

def emptyColumns (n : Nat) : Columns := List.replicate n []

def pushRow (cols : Columns) (row : List CfmlValue) : Columns :=
  List.zipWith (fun col v => col ++ [v]) cols row

def extendColumns (cols more : Columns) : Columns := List.zipWith (· ++ ·) cols more

def rowsToCols (rows : List (List CfmlValue)) (colCount : Nat) : Columns :=
  (List.range colCount).map fun ci => rows.map fun row => row[ci]?.getD .null

def padRow (colCount : Nat) (row : List CfmlValue) : List CfmlValue :=
  row.take colCount ++ List.replicate (colCount - row.length) .null

def rowsToColsParallel (rows : List (List CfmlValue)) (colCount : Nat) : Columns :=
  let flat := rows.flatMap (padRow colCount)
  (List.range colCount).map fun ci =>
    (List.range rows.length).map fun r => flat[r * colCount + ci]?.getD .null

def parallelBuildThreshold : Nat := 5000

def transpose (rows : List (List CfmlValue)) (colCount : Nat) : Columns :=
  if rows.length ≥ parallelBuildThreshold ∧ colCount ≥ 2 then rowsToColsParallel rows colCount
  else rowsToCols rows colCount

def rowKey (P : Platform) (data : Columns) (i : Nat) : List Char :=
  data.flatMap fun col => groupKey P (col[i]?.getD .null)

/-- `seen.insert(key)` for one key after the other. -/
def keepMask : List (List Char) → List (List Char) → List Bool
  | _, [] => []
  | seen, k :: ks => (!seen.contains k) :: keepMask (k :: seen) ks

def dedupKeepMask (P : Platform) (data : Columns) (rowCount : Nat) : List Bool :=
  keepMask [] ((List.range rowCount).map (rowKey P data))

def retain (keep : List Bool) (col : List CfmlValue) : List CfmlValue :=
  ((col.zip keep).filter (·.2)).map (·.1)

def applyKeepMask (data : Columns) (keep : List Bool) : Columns := data.map (retain keep)

def keptCount (keep : List Bool) : Nat := keep.count true

def dedupCols (P : Platform) (data : Columns) (rowCount : Nat) : Columns × Nat :=
  let keep := dedupKeepMask P data rowCount
  (applyKeepMask data keep, keptCount keep)

def truncateCols (n : Nat) (data : Columns) : Columns := data.map (List.take n)

structure CoreResult where
  columns : List String
  rowCount : Nat
  data : Columns
  sortKeys : Columns

abbrev Body := Columns × Columns × Nat

/-- The slot of the output column an `ORDER BY 2` means: `(n - 1).max(0) as usize`. -/
def aliasSlot (n : Int64) : Nat := (n - 1).toInt.toNat

def intAlias {σ κ : Type} : SqlExpr σ κ → Option Nat
  | .literal (.int n) => some (aliasSlot n)
  | _ => none

def passthrough {σ κ : Type} : SqlExpr σ κ → Option (Nat × Nat)
  | .resolvedColumn ti ci _ => some (ti, ci)
  | _ => none

def passthroughCell (src : List CfmlValue) (r : Nat) : CfmlValue :=
  if r = 0 then .null else src[r - 1]?.getD .null

namespace SqlEngine

variable {σ κ : Type} (E : SqlEngine (Except String) σ κ)

/-- The engine with a `PureInvoker`. -/
def refusing : SqlEngine (Except String) σ κ :=
  { E with invokeCustom := fun _ _ =>
      .error "Query of Queries: custom function reached the parallel path (internal error)" }

/-- `pure_engine`, as it computes on a worker thread. -/
def pureEngine : SqlEngine (Except String) σ κ := { E.refusing with toThreadOps := E.worker }

lemma pureEngine_eq (h : E.worker = E.toThreadOps) : E.pureEngine = E.refusing := by
  rw [pureEngine, h]
  rfl

def whereHolds (tables : SourceTables) (cond : CompiledExpr σ κ) (inter : Intersection) :
    Except String Bool := (E.evalCompiled tables (.row inter) cond).map (isTruthy E.platform)

def filterWhere (par : Option Pool) (tables : SourceTables) (cond : Option (CompiledExpr σ κ))
    (inters : List Intersection) : Except String (List Intersection) :=
  match cond with
  | none => .ok inters
  | some cond =>
    match poolFor par inters.length with
    | some pool => do
      let chunks ← pool.collect
        ((pool.cut inters).map (select (E.pureEngine.whereHolds tables cond)))
      return chunks.flatten
    | none => select (E.whereHolds tables cond) inters

def orderKey (tables : SourceTables) (ctx : RowCtx) (row : List CfmlValue) (e : SqlExpr σ κ) :
    Except String CfmlValue :=
  match intAlias e with
  | some slot => .ok (row[slot]?.getD .null)
  | none => E.eval tables ctx e

def projectRow (tables : SourceTables) (exprs orderBy : List (SqlExpr σ κ)) (ctx : RowCtx) :
    Except String (List CfmlValue × List CfmlValue) := do
  let row ← exprs.mapM (E.eval tables ctx)
  let keys ← orderBy.mapM (E.orderKey tables ctx row)
  return (row, keys)

/-- The loop of `exec_simple` over some of the rows. -/
def projectRows (tables : SourceTables) (exprs orderBy : List (SqlExpr σ κ))
    (inters : List Intersection) : Except String (Columns × Columns) :=
  inters.foldlM (fun (data, keys) inter => do
      let (row, key) ← E.projectRow tables exprs orderBy (.row inter)
      return (pushRow data row, pushRow keys key))
    (emptyColumns exprs.length, emptyColumns orderBy.length)

def execSimple (par : Option Pool) (tables : SourceTables) (exprs orderBy : List (SqlExpr σ κ))
    (inters : List Intersection) : Except String Body :=
  match poolFor par inters.length with
  | some pool => do
    let chunks ← pool.collect
      ((pool.cut inters).map (E.pureEngine.projectRows tables exprs orderBy))
    let (data, keys) := chunks.foldl
      (fun (data, keys) chunk => (extendColumns data chunk.1, extendColumns keys chunk.2))
      (emptyColumns exprs.length, emptyColumns orderBy.length)
    return (data, keys, inters.length)
  | none => do
    let (data, keys) ← E.projectRows tables exprs orderBy inters
    return (data, keys, inters.length)

/-- Phase 1 of `exec_no_join_fused`: the rows that pass the `WHERE` clause. -/
def survivors (par : Option Pool) (tables : SourceTables) (cond : Option (CompiledExpr σ κ))
    (rowCount : Nat) : Except String (List Nat) :=
  match cond with
  | none => .ok (rowNumbers rowCount)
  | some cond =>
    match poolFor par rowCount with
    | some pool => do
      let found ← pool.collect ((rowNumbers rowCount).map fun r =>
        (E.pureEngine.whereHolds tables cond [r]).map fun keep => if keep then some r else none)
      return found.filterMap id
    | none => select (fun r => E.whereHolds tables cond [r]) (rowNumbers rowCount)

def sourceColumn (tables : SourceTables) (ti ci : Nat) : Except String (List CfmlValue) :=
  match tables[ti]?.bind fun t => t.data[ci]? with
  | some col => .ok col
  | none => .error "index out of bounds"

/-- The columns of the expressions that have to be evaluated: all of them row by row in the chunks
of a pool, or one after the other. -/
def evalColumns (par : Option Pool) (tables : SourceTables) (exprs : List (SqlExpr σ κ))
    (rows : List Nat) : Except String Columns :=
  match poolFor par rows.length with
  | some pool => do
    let chunks ← pool.collect ((pool.cut rows).map fun chunk =>
      chunk.foldlM (fun cols r => do
          let row ← exprs.mapM (E.pureEngine.eval tables (.row [r]))
          return pushRow cols row)
        (emptyColumns exprs.length))
    return chunks.foldl extendColumns (emptyColumns exprs.length)
  | none => exprs.mapM fun e => rows.mapM fun r => E.eval tables (.row [r]) e

/-- Each expression's column in its place: the passthrough ones as they are, the others taken from
those evaluated. -/
def placeColumns : List (Option (List CfmlValue)) → Columns → Columns
  | [], _ => []
  | some col :: slots, cols => col :: placeColumns slots cols
  | none :: slots, [] => [] :: placeColumns slots []
  | none :: slots, col :: cols => col :: placeColumns slots cols

def buildColsForExprs (par : Option Pool) (tables : SourceTables) (exprs : List (SqlExpr σ κ))
    (rows : List Nat) : Except String Columns := do
  let slots ← exprs.mapM fun e =>
    match passthrough e with
    | some (ti, ci) => do
      let src ← sourceColumn tables ti ci
      return some (rows.map (passthroughCell src))
    | none => return none
  let cols ← E.evalColumns par tables (exprs.filter fun e => (passthrough e).isNone) rows
  return placeColumns slots cols

def execNoJoinFused (par : Option Pool) (tables : SourceTables) (cond : Option (CompiledExpr σ κ))
    (exprs orderBy : List (SqlExpr σ κ)) (rowCount : Nat) : Except String Body := do
  let rows ← E.survivors par tables cond rowCount
  let data ← E.buildColsForExprs par tables exprs rows
  let slots := orderBy.map fun e => (intAlias e).map fun slot =>
    data[slot]?.getD (List.replicate rows.length .null)
  let built ← E.buildColsForExprs par tables (orderBy.filter fun e => (intAlias e).isNone) rows
  return (data, placeColumns slots built, rows.length)

def partitionKey (tables : SourceTables) (groupBy : List (SqlExpr σ κ)) (inter : Intersection) :
    Except String (List Char) := do
  let vals ← groupBy.mapM (E.eval tables (.row inter))
  return vals.flatMap (groupKey E.platform)

def groupRows (keyed : List (List Char × Intersection)) : List (List Intersection) :=
  (indexBy Prod.fst keyed).map fun group => group.2.map Prod.snd

def partition (par : Option Pool) (tables : SourceTables) (groupBy : List (SqlExpr σ κ))
    (inters : List Intersection) : Except String (List (List Intersection)) :=
  match poolFor par inters.length with
  | some pool => do
    let keys ← pool.collect (inters.map (E.pureEngine.partitionKey tables groupBy))
    return groupRows (keys.zip inters)
  | none => do
    let keyed ← inters.mapM fun inter => do
      let key ← E.partitionKey tables groupBy inter
      return (key, inter)
    return groupRows keyed

def aggregateRow (tables : SourceTables) (having : Option (SqlExpr σ κ))
    (exprs orderBy : List (SqlExpr σ κ)) (part : List Intersection) :
    Except String (Option (List CfmlValue × List CfmlValue)) := do
  match having with
  | none => return some (← E.projectRow tables exprs orderBy (.group part))
  | some h =>
    let v ← E.eval tables (.group part) h
    if isTruthy E.platform v then return some (← E.projectRow tables exprs orderBy (.group part))
    else return none

def execAggregate (par : Option Pool) (tables : SourceTables) (groupBy : List (SqlExpr σ κ))
    (having : Option (SqlExpr σ κ)) (exprs orderBy : List (SqlExpr σ κ))
    (inters : List Intersection) : Except String Body := do
  let partitions ← if groupBy.isEmpty then pure [inters] else E.partition par tables groupBy inters
  let found ← partitions.mapM (E.aggregateRow tables having exprs orderBy)
  let rows := found.filterMap id
  return (transpose (rows.map Prod.fst) exprs.length, transpose (rows.map Prod.snd) orderBy.length,
    rows.length)

end SqlEngine

end RustCfml.Qoq
