import RustCfml.Lib.RowProduct
import RustCfml.Qoq.Compare

/-!
# `execution.rs`, `intersection.rs`, `table.rs`: joins and filters

A select over several tables works on *intersections*: one 1-based row number per table, in `FROM`
order, 0 standing for the missing side of an outer join. **`build_core_intersections` takes the hash
path whenever the chain's shape allows it**, so the two have to mean the same.
-/

namespace RustCfml.Qoq

open RowProduct

/-- A table by columns. -/
structure QoQTable where
  columns : List String
  data : List (List CfmlValue)
  rowCount : Nat

/-- Row 0 is the NULL sentinel, and so is every cell outside the data. -/
def QoQTable.get (t : QoQTable) (row col : Nat) : CfmlValue :=
  if row = 0 then .null else ((t.data[col]?.bind (·[row - 1]?)).getD .null)

abbrev TableSet := List QoQTable

abbrev Intersection := List Nat

/-- A cell of a row combination; row 0 is the row of nulls of an outer join. -/
def TableSet.value (tables : TableSet) (inter : Intersection) (ti ci : Nat) : CfmlValue :=
  match tables[ti]? with
  | some t => t.get (inter[ti]?.getD 0) ci
  | none => .null

inductive BinaryOp where
  | eq | neq | lt | lte | gt | gte | and | or | add | sub | mul | div | mod | concat
  | bitAnd | bitOr | bitXor
deriving DecidableEq

inductive UnaryOp where
  | not | neg | plus
deriving DecidableEq

inductive Expr (ω : Type) where
  | literal (v : CfmlValue)
  | resolvedColumn (ti ci : Nat)
  | binary (left : Expr ω) (op : BinaryOp) (right : Expr ω)
  | unary (op : UnaryOp) (expr : Expr ω)
  | isNull (expr : Expr ω) (negated : Bool)
  | other (e : ω)

/-- The evaluator's surroundings: the comparator's platform, the operators that compute (`arith`,
concatenation, bit operations, negation) and the `other` expressions. -/
structure Engine (ω : Type) where
  platform : Platform
  compute : BinaryOp → CfmlValue → CfmlValue → Except String CfmlValue
  negate : CfmlValue → Except String CfmlValue
  other : ω → TableSet → Intersection → Except String CfmlValue

def numericStringValue (cs : List Char) : Option F64 := (F64.parse (trim cs)).filter F64.isFinite

/-- `x != 0.0`: both zeros are equal to it, a NaN is not. -/
def F64.nonZero (x : F64) : Bool := x.magnitude ≠ 0

def stringIsTrue (P : Platform) (s : String) : Bool :=
  let trimmed := trim s.toList
  let lower := Lowercase.toLowercase P.tables trimmed
  if trimmed = [] then false
  else if lower = "false".toList ∨ lower = "no".toList ∨ lower = "0".toList then false
  else ((numericStringValue trimmed).map F64.nonZero).getD true

mutual

def isTrue (P : Platform) : CfmlValue → Bool
  | .null => false
  | .bool b => b
  | .int i => i ≠ 0
  | .double d => F64.nonZero d
  | .timeSpan d => F64.nonZero d
  | .dateTime _ => true
  | .string s => stringIsTrue P s
  | .array elems => !elems.isEmpty
  -- the current row of the column, or its first one
  | .queryColumn cells row => ((cellsTrue P cells)[row]?.or (cellsTrue P cells).head?).getD false
  | .struct entries => !entries.isEmpty
  | .query columns data => QueryData.rowCount ⟨columns, data⟩ ≠ 0
  | .binary bytes => !bytes.isEmpty
  | .inst _ => true
  | .code => true

def cellsTrue (P : Platform) : List CfmlValue → List Bool
  | [] => []
  | cell :: cells => isTrue P cell :: cellsTrue P cells

end

/-- Three-valued truth: `none` is unknown. -/
def tri (P : Platform) : CfmlValue → Option Bool
  | .null => none
  | v => some (isTrue P v)

/-- Unknown is not true. -/
def isTruthy (P : Platform) (v : CfmlValue) : Bool := tri P v = some true

def triValue : Option Bool → CfmlValue
  | some b => .bool b
  | none => .null

def and3 : Option Bool → Option Bool → CfmlValue
  | some false, _ => .bool false
  | _, some false => .bool false
  | some true, some true => .bool true
  | _, _ => .null

def or3 : Option Bool → Option Bool → CfmlValue
  | some true, _ => .bool true
  | _, some true => .bool true
  | some false, some false => .bool false
  | _, _ => .null

def BinaryOp.test : BinaryOp → Option (Ordering → Bool)
  | .eq => some (· == .eq)
  | .neq => some (· != .eq)
  | .lt => some (· == .lt)
  | .lte => some (· != .gt)
  | .gt => some (· == .gt)
  | .gte => some (· != .lt)
  | _ => none

namespace Engine

variable {ω : Type} (E : Engine ω)

def applyUnary : UnaryOp → CfmlValue → Except String CfmlValue
  | .not, v => .ok (triValue ((tri E.platform v).map (!·)))
  | .neg, v => E.negate v
  | .plus, v => .ok v

def applyBinary (l : CfmlValue) (op : BinaryOp) (r : CfmlValue) : Except String CfmlValue :=
  match op.test with
  | some test => .ok (triValue ((compareSql E.platform l r).map test))
  | none => E.compute op l r

def eval (tables : TableSet) (inter : Intersection) : Expr ω → Except String CfmlValue
  | .literal v => .ok v
  | .resolvedColumn ti ci => .ok (tables.value inter ti ci)
  | .binary left .and right => do
    let l ← eval tables inter left
    if tri E.platform l = some false then return .bool false
    let r ← eval tables inter right
    return and3 (tri E.platform l) (tri E.platform r)
  | .binary left .or right => do
    let l ← eval tables inter left
    if tri E.platform l = some true then return .bool true
    let r ← eval tables inter right
    return or3 (tri E.platform l) (tri E.platform r)
  | .binary left op right => do
    let l ← eval tables inter left
    let r ← eval tables inter right
    E.applyBinary l op r
  | .unary op expr => do
    let v ← eval tables inter expr
    E.applyUnary op v
  | .isNull expr negated => do
    let v ← eval tables inter expr
    return .bool (v.isNull ^^ negated)
  | .other e => E.other e tables inter

def holds (tables : TableSet) (cond : Expr ω) (inter : Intersection) : Except String Bool :=
  (E.eval tables inter cond).map (isTruthy E.platform)

end Engine

inductive JoinType where
  | inner | left | right | full | cross
deriving DecidableEq

structure Join (ω : Type) where
  joinType : JoinType
  table : QoQTable
  on : Option (Expr ω)

structure SelectCore (ω : Type) where
  first : QoQTable
  joins : List (Join ω)
  whereClause : Option (Expr ω)

def SelectCore.tables {ω : Type} (core : SelectCore ω) : TableSet :=
  core.first :: core.joins.map Join.table

def usizeMax : Nat := 2 ^ 64 - 1

def saturatingMul (a b : Nat) : Nat := min (a * b) usizeMax

def rowNumbers (n : Nat) : List Nat := List.range' 1 n

section

variable {m : Type → Type} [Monad m]

def candidates (inter : Intersection) (rightRows : Nat) : List Intersection :=
  (rowNumbers rightRows).map fun r => inter ++ [r]

/-- One table joined to what the tables before it gave. -/
def joinStep (jt : JoinType) (width rightRows : Nat) (evalOn : Intersection → m Bool)
    (inters : List Intersection) : m (List Intersection) :=
  match jt with
  | .inner | .cross => do
    let matched ← inters.mapM fun inter => select evalOn (candidates inter rightRows)
    return matched.flatten
  | .left => do
    let matched ← inters.mapM fun inter => do
      let ms ← select evalOn (candidates inter rightRows)
      return if ms.isEmpty then [inter ++ [0]] else ms
    return matched.flatten
  | .right => do
    let matched ← (rowNumbers rightRows).mapM fun r => do
      let ms ← select evalOn (inters.map fun inter => inter ++ [r])
      return if ms.isEmpty then [List.replicate width 0 ++ [r]] else ms
    return matched.flatten
  | .full => do
    let matched ← inters.mapM fun inter => select evalOn (candidates inter rightRows)
    let leftRows := (inters.zip matched).flatMap fun (inter, ms) =>
      if ms.isEmpty then [inter ++ [0]] else ms
    let unmatched := (rowNumbers rightRows).filter fun r =>
      !matched.flatten.any fun inter => inter.getLast? = some r
    return leftRows ++ unmatched.map fun r => List.replicate width 0 ++ [r]

/-- The loop over the joins; `k` counts them and the rows in hand have width `k + 1`. -/
def buildLoop (maxSize : Nat) (evalOn : Nat → Intersection → m Bool) :
    Nat → List (JoinType × Nat) → List Intersection → m (Except Nat (List Intersection))
  | _, [], inters => return .ok inters
  | k, (jt, rightRows) :: joins, inters =>
    let upperBound := saturatingMul inters.length rightRows
    if upperBound > maxSize then return .error upperBound
    else do
      let next ← joinStep jt (k + 1) rightRows (evalOn k) inters
      buildLoop maxSize evalOn (k + 1) joins next

def buildIntersections (firstRows : Nat) (joins : List (JoinType × Nat)) (maxSize : Nat)
    (evalOn : Nat → Intersection → m Bool) : m (Except Nat (List Intersection)) :=
  buildLoop maxSize evalOn 0 joins ((rowNumbers firstRows).map fun r => [r])

end

namespace Engine

variable {ω : Type} (E : Engine ω)

def evalOn (core : SelectCore ω) (k : Nat) (inter : Intersection) : Except String Bool :=
  match core.joins[k]?.bind Join.on with
  | none => .ok true
  | some on => E.holds core.tables on inter

def tooManyCombinations (size maxSize : Nat) : String :=
  s!"Query of Queries: join would materialise {size} row combinations, exceeding the limit " ++
    s!"of {maxSize}. Add an explicit `JOIN ... ON` (filtered as it builds) or reduce the data."

/-- All combinations that pass their `ON`s, refused beyond a size. -/
def nestedLoop (core : SelectCore ω) (maxSize : Nat) : Except String (List Intersection) := do
  let built ← buildIntersections core.first.rowCount
    (core.joins.map fun j => (j.joinType, j.table.rowCount)) maxSize (E.evalOn core)
  match built with
  | .ok inters => .ok inters
  | .error size => .error (tooManyCombinations size maxSize)

def filterWhere (core : SelectCore ω) (inters : List Intersection) :
    Except String (List Intersection) :=
  match core.whereClause with
  | none => .ok inters
  | some cond => select (E.holds core.tables cond) inters

end Engine

end RustCfml.Qoq
