import RustCfml.Lib.FirstOf
import RustCfml.Qoq.Ast

/-!
# `execution.rs`: evaluating an expression

`eval` walks the expression tree, on one row or on one group of rows. A function of the registry may
be a CFML closure, which runs in the VM and may do anything, so **the evaluator is written over a
monad `m`**: two evaluations are the same only if they ask the VM the same questions in the same
order.
-/

namespace RustCfml.Qoq

open RowProduct

structure SourceTable extends QoQTable where
  name : String

abbrev SourceTables := List SourceTable

def SourceTables.unnamed (tables : SourceTables) : TableSet := tables.map SourceTable.toQoQTable

inductive QoQFnKind where
  | scalar | aggregate
deriving DecidableEq

/-- `QoQFunctionRegistry`; every map is keyed by the lower-cased name. -/
structure Registry (m : Type → Type) where
  scalars : String → Option (List CfmlValue → m CfmlValue)
  aggregates : String → Option (List CfmlValue → m CfmlValue)
  customs : String → Option (CfmlValue × QoQFnKind)
  dynamics : String → Option ((List CfmlValue → m CfmlValue) × QoQFnKind)

structure QoQParams where
  positional : List CfmlValue
  named : ValueMap CfmlValue

/-- What is computed under the settings of the thread it runs on: the time zone in which a text is
read as a date and a date is written, and the number of digits. -/
structure ThreadOps (m : Type → Type) where
  platform : Platform
  /-- `arith`, concatenation and the bit operators of `apply_binary`. -/
  compute : BinaryOp → CfmlValue → CfmlValue → m CfmlValue
  negate : CfmlValue → m CfmlValue
  /-- `functions::cast_value`. -/
  castValue : CfmlValue → String → m CfmlValue
  /-- `functions::call_scalar`, the built-in functions. -/
  callScalar : String → List CfmlValue → Option (m CfmlValue)
  /-- `aggregate_numeric`. -/
  aggregateNumeric : String → List CfmlValue → CfmlValue

structure SqlEngine (m : Type → Type) (σ κ : Type) extends ThreadOps m where
  /-- The same on a worker of the thread pool, which has the process's settings and not those that
  the request has made on its own thread. -/
  worker : ThreadOps m
  fail : {α : Type} → String → m α
  registry : Registry m
  params : QoQParams
  /-- `Invoker::invoke_custom`. -/
  invokeCustom : CfmlValue → List CfmlValue → m CfmlValue
  /-- `run_statement` on a subquery. -/
  runSubquery : σ → m (QueryData CfmlValue)
  /-- `like::compile`, `Compiled::matches` and `like::like_match`. -/
  likeCompile : String → Option Char → κ
  likeMatches : κ → String → Bool
  likeMatch : String → String → Option Char → Bool

inductive RowCtx where
  | row (inter : Intersection)
  | group (part : List Intersection)

/-- The row a column is read from; the missing row of an empty group reads as `NULL` everywhere, as
row number 0 does. -/
def RowCtx.current : RowCtx → Intersection
  | .row inter => inter
  | .group part => part.head?.getD []

def RowCtx.partition : RowCtx → List Intersection
  | .row [] => []
  | .row inter => [inter]
  | .group part => part

def QoQTable.columnIndex (t : QoQTable) (name : String) : Option Nat :=
  t.columns.findIdx? fun c => eqIgnoreAsciiCase c name

def firstWithColumn (name : String) : Nat → SourceTables → Option (Nat × Nat)
  | _, [] => none
  | ti, t :: ts =>
    match t.columnIndex name with
    | some ci => some (ti, ci)
    | none => firstWithColumn name (ti + 1) ts

def SourceTables.resolveColumn (tables : SourceTables) : Option String → String → Option (Nat × Nat)
  | some hint, name => do
    let ti ← tables.findIdx? fun t => eqIgnoreAsciiCase t.name hint
    let t ← tables[ti]?
    let ci ← t.columnIndex name
    return (ti, ci)
  | none, name => firstWithColumn name 0 tables

def lower (P : Platform) (name : String) : String :=
  String.ofList (Lowercase.toLowercase P.tables name.toList)

def isBuiltinAggregate (P : Platform) (name : String) : Bool :=
  ["count", "sum", "avg", "min", "max", "group_concat", "string_agg"].contains (lower P name)

def membershipResult (foundNull negated : Bool) : CfmlValue :=
  if foundNull then .null else .bool negated

/-- The values an `IN` item stands for: an array parameter is expanded. -/
def inCandidates : CfmlValue → List CfmlValue
  | .array elems => elems
  | v => [v]

def memberOf (P : Platform) (target : CfmlValue) (negated : Bool) : Bool → List CfmlValue →
    Except Bool CfmlValue
  | foundNull, [] => .error foundNull
  | foundNull, v :: vs =>
    match sqlEqual P target v with
    | some true => .ok (.bool !negated)
    | some false => memberOf P target negated foundNull vs
    | none => memberOf P target negated true vs

def membership (negated : Bool) : Except Bool CfmlValue → CfmlValue
  | .ok found => found
  | .error foundNull => membershipResult foundNull negated

namespace SqlEngine

variable {m : Type → Type} [Monad m] {σ κ : Type} (E : SqlEngine m σ κ)

def evalColumn (tables : SourceTables) (ctx : RowCtx) (table : Option String) (name : String) :
    m CfmlValue :=
  match ctx with
  | .group [] => pure .null
  | _ =>
    match tables.resolveColumn table name with
    | some (ti, ci) => pure (tables.unnamed.value ctx.current ti ci)
    | none =>
      let qualifier := (table.map (· ++ ".")).getD ""
      E.fail s!"Query of Queries: column '{qualifier}{name}' not found"

def evalParam : ParamRef → m CfmlValue
  | .positional i =>
    match E.params.positional[i]? with
    | some v => pure v
    | none => E.fail s!"Query of Queries: positional parameter #{i + 1} has no value"
  | .named n =>
    match E.params.named.get? n with
    | some v => pure v
    | none => E.fail s!"Query of Queries: named parameter ':{n}' has no value"

def isAggregate (name : String) : Bool :=
  let key := lower E.platform name
  isBuiltinAggregate E.platform name || (E.registry.aggregates key).isSome ||
    (E.registry.customs key).any (·.2 = .aggregate) ||
    (E.registry.dynamics key).any (·.2 = .aggregate)

def getDynamic (name : String) (kind : QoQFnKind) : Option (List CfmlValue → m CfmlValue) :=
  ((E.registry.dynamics (lower E.platform name)).filter (·.2 = kind)).map (·.1)

def callScalarFn (name : String) (args : List CfmlValue) : m CfmlValue :=
  match E.callScalar name args with
  | some r => r
  | none =>
    match E.registry.scalars (lower E.platform name) with
    | some f => f args
    | none =>
      match E.getDynamic name .scalar with
      | some f => f args
      | none =>
        match E.registry.customs (lower E.platform name) with
        | some (f, .scalar) => E.invokeCustom f args
        | _ => E.fail s!"Query of Queries: unknown function '{name}'"

/-- The end of `eval_aggregate_call`: a registered aggregate, each argument as the array of its
values. -/
def callAggregateFn (name : String) (arrays : List (List CfmlValue)) : m CfmlValue :=
  let lname := lower E.platform name
  let key := lower E.platform lname
  let args := arrays.map CfmlValue.array
  match if (E.registry.scalars key).isSome then none else E.registry.aggregates key with
  | some f => f args
  | none =>
    match E.getDynamic lname .aggregate with
    | some f => f args
    | none =>
      match E.registry.customs key with
      | some (f, .aggregate) => E.invokeCustom f args
      | _ => E.fail s!"Query of Queries: unknown aggregate function '{name}'"

def dropNulls (vals : List CfmlValue) : List CfmlValue := vals.filter fun v => !v.isNull

/-- `dedup_values`: `retain` by whether the key goes into the set of those seen. -/
def dedupValues (vals : List CfmlValue) : List CfmlValue :=
  FirstOf.dedupBy (groupKey E.platform) [] vals

def aggregateColumn (distinct : Bool) (vals : List CfmlValue) : List CfmlValue :=
  if distinct then E.dedupValues (dropNulls vals) else vals

def countValue (distinct : Bool) (vals : List CfmlValue) : CfmlValue :=
  let vals := dropNulls vals
  .int (Int64.ofNat (if distinct then E.dedupValues vals else vals).length)

def concatValues (sep : String) (vals : List CfmlValue) : CfmlValue :=
  match (dropNulls vals).map (asString E.platform) with
  | [] => .null
  | parts => .string (sep.intercalate parts)

def isConcat (lname : String) : Bool := lname = "group_concat" || lname = "string_agg"

def applyUnary : UnaryOp → CfmlValue → m CfmlValue
  | .not, v => pure (triValue ((tri E.platform v).map (!·)))
  | .neg, v => E.negate v
  | .plus, v => pure v

def applyBinary (l : CfmlValue) (op : BinaryOp) (r : CfmlValue) : m CfmlValue :=
  match op.test with
  | some test => pure (triValue ((compareSql E.platform l r).map test))
  | none => E.compute op l r

def betweenValue (negated : Bool) (v lo hi : CfmlValue) : CfmlValue :=
  match compareSql E.platform v lo, compareSql E.platform v hi with
  | some cLo, some cHi => .bool ((cLo != .lt && cHi != .gt) ^^ negated)
  | _, _ => .null

def likeConst (compiled : κ) (negated : Bool) (v : CfmlValue) : CfmlValue :=
  if v.isNull then .null
  else .bool (E.likeMatches compiled (asString E.platform v) ^^ negated)

def whenMet (ov : Option CfmlValue) (wv : CfmlValue) : Bool :=
  match ov with
  | some o => sqlEqual E.platform o wv = some true
  | none => isTruthy E.platform wv

/-! ## The walk -/

mutual

def eval (tables : SourceTables) (ctx : RowCtx) : SqlExpr σ κ → m CfmlValue
  | .literal v => pure v
  | .star _ => E.fail "Query of Queries: '*' is only valid in a SELECT list"
  | .column table name => E.evalColumn tables ctx table name
  | .resolvedColumn ti ci _ => pure (tables.unnamed.value ctx.current ti ci)
  | .param p => E.evalParam p
  | .function name args distinct =>
    if E.isAggregate name then evalAggregateCall tables ctx name distinct args
    else do
      let vals ← evalAll tables ctx args
      E.callScalarFn name vals
  | .cast expr ty => do
    let v ← eval tables ctx expr
    E.castValue v ty
  | .unary op expr => do
    let v ← eval tables ctx expr
    E.applyUnary op v
  | .binary left .and right => do
    let l ← eval tables ctx left
    if tri E.platform l = some false then return .bool false
    let r ← eval tables ctx right
    return and3 (tri E.platform l) (tri E.platform r)
  | .binary left .or right => do
    let l ← eval tables ctx left
    if tri E.platform l = some true then return .bool true
    let r ← eval tables ctx right
    return or3 (tri E.platform l) (tri E.platform r)
  | .binary left op right => do
    let l ← eval tables ctx left
    let r ← eval tables ctx right
    E.applyBinary l op r
  | .case operand whens elseExpr => do
    let ov ← evalOption tables ctx operand
    let found ← evalWhens tables ctx ov whens
    match found with
    | some v => return v
    | none =>
      let other ← evalOption tables ctx elseExpr
      return other.getD .null
  | .isNull expr negated => do
    let v ← eval tables ctx expr
    return .bool (v.isNull ^^ negated)
  | .inList expr negated list => do
    let target ← eval tables ctx expr
    if target.isNull then return .null
    evalInItems tables ctx target negated false list
  | .inSubquery expr negated select => do
    let target ← eval tables ctx expr
    if target.isNull then return .null
    let q ← E.runSubquery select
    return membership negated (memberOf E.platform target negated false (q.data.head?.getD []))
  | .between expr negated low high => do
    let v ← eval tables ctx expr
    let lo ← eval tables ctx low
    let hi ← eval tables ctx high
    return E.betweenValue negated v lo hi
  | .like expr negated pattern escape compiled => do
    let v ← eval tables ctx expr
    if v.isNull then return .null
    match compiled with
    | some c => return E.likeConst c negated v
    | none =>
      let p ← eval tables ctx pattern
      if p.isNull then return .null
      let esc ← evalOption tables ctx escape
      let escChar := esc.bind fun e => (asString E.platform e).toList.head?
      return .bool (E.likeMatch (asString E.platform v) (asString E.platform p) escChar ^^ negated)
  | .scalarSubquery select => do
    let q ← E.runSubquery select
    return (q.data.head?.bind List.head?).getD .null

def evalOption (tables : SourceTables) (ctx : RowCtx) : Option (SqlExpr σ κ) → m (Option CfmlValue)
  | none => pure none
  | some e => do
    let v ← eval tables ctx e
    return some v

def evalAll (tables : SourceTables) (ctx : RowCtx) : List (SqlExpr σ κ) → m (List CfmlValue)
  | [] => pure []
  | e :: es => do
    let v ← eval tables ctx e
    let vs ← evalAll tables ctx es
    return v :: vs

def evalWhens (tables : SourceTables) (ctx : RowCtx) (ov : Option CfmlValue) :
    List (SqlExpr σ κ × SqlExpr σ κ) → m (Option CfmlValue)
  | [] => pure none
  | (w, t) :: rest => do
    let wv ← eval tables ctx w
    if E.whenMet ov wv then do
      let v ← eval tables ctx t
      return some v
    else evalWhens tables ctx ov rest

def evalInItems (tables : SourceTables) (ctx : RowCtx) (target : CfmlValue) (negated : Bool) :
    Bool → List (SqlExpr σ κ) → m CfmlValue
  | foundNull, [] => pure (membershipResult foundNull negated)
  | foundNull, item :: rest => do
    let v ← eval tables ctx item
    match memberOf E.platform target negated foundNull (inCandidates v) with
    | .ok found => return found
    | .error foundNull' => evalInItems tables ctx target negated foundNull' rest

def collectArgs (tables : SourceTables) (part : List Intersection) : List (SqlExpr σ κ) →
    m (List (List CfmlValue))
  | [] => pure []
  | e :: es => do
    let col ← part.mapM fun inter => eval tables (.row inter) e
    let cols ← collectArgs tables part es
    return col :: cols

/-- The separator of `GROUP_CONCAT`, read on the first row. -/
def evalSeparator (tables : SourceTables) (part : List Intersection) : List (SqlExpr σ κ) → m String
  | [] => pure ","
  | e :: _ =>
    match part with
    | [] => pure ","
    | inter :: _ => do
      let v ← eval tables (.row inter) e
      return asString E.platform v

def evalAggregateCall (tables : SourceTables) (ctx : RowCtx) (name : String) (distinct : Bool) :
    List (SqlExpr σ κ) → m CfmlValue
  | [] =>
    let lname := lower E.platform name
    if lname = "count" then pure (.int (Int64.ofNat ctx.partition.length))
    else if isBuiltinAggregate E.platform lname then
      E.fail s!"Query of Queries: {lname} requires an argument"
    else E.callAggregateFn name []
  | arg :: rest =>
    let lname := lower E.platform name
    if lname = "count" && arg.isStar then pure (.int (Int64.ofNat ctx.partition.length))
    else do
      let col ← ctx.partition.mapM fun inter => eval tables (.row inter) arg
      if lname = "count" then return E.countValue distinct col
      else if isConcat lname then do
        let sep ← evalSeparator tables ctx.partition rest
        return E.concatValues sep (E.aggregateColumn distinct col)
      else if isBuiltinAggregate E.platform lname then
        return E.aggregateNumeric lname (E.aggregateColumn distinct col)
      else do
        let cols ← collectArgs tables ctx.partition rest
        E.callAggregateFn name (col :: cols)

end

end SqlEngine

end RustCfml.Qoq
