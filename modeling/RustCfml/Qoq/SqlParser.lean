import RustCfml.Qoq.Ast
import RustCfml.Qoq.SqlLexer

/-!
# `parser.rs`: recursive descent, and the stack it takes

The parser of the query language, one definition per `parse_` function. The others are written over
those three as parameters, `Knots`, and **`knots n` is the parser with room for `n` nested
activations of them**; with no room left the outcome is `overflow`, which in the program is the end
of the process.
-/

namespace RustCfml.Qoq
namespace Sql

/-- `Statement::Select`, with its subqueries. -/
inductive Query where
  | select (statement : SelectStatement Query Unit)

abbrev SqlTree := SqlExpr Query Unit

def maxNestingDepth : Nat := 512

structure ParserState where
  /-- The current token and those after it. -/
  tokens : List Token
  paramIndex : Nat
  depth : Nat

inductive Outcome (α : Type) where
  | ok (a : α) (s : ParserState)
  | error (message : String)
  | overflow

def Parse (α : Type) : Type := ParserState → Outcome α

namespace Parse

variable {α β : Type}

def pure (a : α) : Parse α := fun s => .ok a s

def bind (p : Parse α) (f : α → Parse β) : Parse β := fun s =>
  match p s with
  | .ok a s' => f a s'
  | .error message => .error message
  | .overflow => .overflow

instance : Monad Parse where
  pure := Parse.pure
  bind := Parse.bind

def fail (message : String) : Parse α := fun _ => .error message

def outOfStack : Parse α := fun _ => .overflow

end Parse

def Token.debug : Token → String
  | .select => "Select" | .from => "From" | .where => "Where" | .and => "And" | .or => "Or"
  | .not => "Not" | .in => "In" | .between => "Between" | .like => "Like" | .escape => "Escape"
  | .is => "Is" | .null => "Null" | .true => "True" | .false => "False" | .as => "As" | .on => "On"
  | .order => "Order" | .by => "By" | .asc => "Asc" | .desc => "Desc" | .group => "Group"
  | .having => "Having" | .limit => "Limit" | .offset => "Offset" | .top => "Top"
  | .distinct => "Distinct" | .case => "Case" | .when => "When" | .then => "Then" | .else => "Else"
  | .end => "End" | .exists => "Exists" | .cast => "Cast" | .convert => "Convert" | .join => "Join"
  | .inner => "Inner" | .left => "Left" | .right => "Right" | .full => "Full" | .outer => "Outer"
  | .cross => "Cross" | .union => "Union" | .all => "All"
  | .identifier name => s!"Identifier({name.quote})"
  | .string text => s!"String({text.quote})"
  | .number text => s!"Number({text.quote})"
  | .namedParam name => s!"NamedParam({name.quote})"
  | .eq => "Eq" | .neq => "Neq" | .neq2 => "Neq2" | .lt => "Lt" | .lte => "Lte" | .gt => "Gt"
  | .gte => "Gte" | .plus => "Plus" | .minus => "Minus" | .star => "Star" | .slash => "Slash"
  | .mod => "Mod" | .concat => "Concat" | .amp => "Amp" | .pipe => "Pipe" | .caret => "Caret"
  | .lParen => "LParen" | .rParen => "RParen" | .comma => "Comma" | .dot => "Dot"
  | .param => "Param"
  | .eof => "Eof"
  | .error message => s!"Error({message.quote})"

/-! ## Tokens -/

def ParserState.current (s : ParserState) : Token := s.tokens.head?.getD .eof

def current : Parse Token := fun s => .ok s.current s

def advance : Parse Unit := fun s => .ok () { s with tokens := s.tokens.tail }

def eat (tok : Token) : Parse Bool := do
  if (← current) = tok then
    advance
    return true
  else return false

def expect (tok : Token) : Parse Unit := do
  let got ← current
  if got = tok then advance else Parse.fail s!"expected {tok.debug}, got {got.debug}"

def parseIdent : Parse String := do
  match ← current with
  | .identifier name =>
    advance
    return name
  | other => Parse.fail s!"expected identifier, got {other.debug}"

def parseUsize (text : String) : Option Nat :=
  let cs := text.toList
  if !cs.isEmpty && cs.all F64.isDigit && F64.digitsVal cs < 2 ^ 64 then
    some (F64.digitsVal cs)
  else none

def parseUint : Parse Nat := do
  match ← current with
  | .number text =>
    match parseUsize text with
    | some n =>
      advance
      return n
    | none => Parse.fail s!"expected a non-negative integer, got '{text}'"
  | other => Parse.fail s!"expected an integer, got {other.debug}"

def rounds {α : Type} (step : α → Parse (Option α)) : Nat → α → Parse α
  | 0, _ => Parse.outOfStack
  | n + 1, a => do
    match ← step a with
    | none => return a
    | some a' => rounds step n a'

def repeatRounds {α : Type} (step : α → Parse (Option α)) (a : α) : Parse α := fun s =>
  rounds step (s.tokens.length + 1) a s

def commaList {α : Type} (item : Parse α) : Parse (List α) := do
  let first ← item
  repeatRounds (fun items => do
    if ← eat .comma then
      let next ← item
      return some (items ++ [next])
    else return none) [first]

def optional {α : Type} (keyword : Token) (clause : Parse α) : Parse (Option α) := do
  if ← eat keyword then
    let a ← clause
    return some a
  else return none

/-! ## Expressions -/

structure Knots where
  expr : Parse SqlTree
  select : Parse (SelectStatement Query Unit)
  unary : Parse SqlTree

def enterDepth : Parse Unit := fun s =>
  if maxNestingDepth ≤ s.depth then
    .error s!"SQL expression nesting too deep (limit {maxNestingDepth} levels)"
  else .ok () { s with depth := s.depth + 1 }

def leaveDepth : Parse Unit := fun s => .ok () { s with depth := s.depth - 1 }

/-- The loops of `parse_or`, `parse_and`, `parse_concat`, `parse_additive` and `parse_term`:
operands joined by operators of one strength, from the left. -/
def chain (operand : Parse SqlTree) (op : Token → Option BinaryOp) : Parse SqlTree := do
  let first ← operand
  repeatRounds (fun left => do
    match op (← current) with
    | none => return none
    | some o =>
      advance
      let right ← operand
      return some (.binary left o right)) first

def orOp : Token → Option BinaryOp
  | .or => some .or
  | _ => none

def andOp : Token → Option BinaryOp
  | .and => some .and
  | _ => none

def concatOp : Token → Option BinaryOp
  | .concat => some .concat
  | _ => none

def additiveOp : Token → Option BinaryOp
  | .plus => some .add
  | .minus => some .sub
  | .pipe => some .bitOr
  | .caret => some .bitXor
  | _ => none

def termOp : Token → Option BinaryOp
  | .star => some .mul
  | .slash => some .div
  | .mod => some .mod
  | .amp => some .bitAnd
  | _ => none

def comparisonOp : Token → Option BinaryOp
  | .eq => some .eq
  | .neq | .neq2 => some .neq
  | .lt => some .lt
  | .lte => some .lte
  | .gt => some .gt
  | .gte => some .gte
  | _ => none

section

variable (L : Lowercase.CaseTables) (K : Knots)

def parseTerm : Parse SqlTree := chain K.unary termOp

def parseAdditive : Parse SqlTree := chain (parseTerm K) additiveOp

def parseConcat : Parse SqlTree := chain (parseAdditive K) concatOp

def parseIn (left : SqlTree) (negated : Bool) : Parse SqlTree := do
  expect .in
  expect .lParen
  if (← current) = .select then
    let select ← K.select
    expect .rParen
    return .inSubquery left negated (.select select)
  else
    let list ← commaList K.expr
    expect .rParen
    return .inList left negated list

def parseBetween (left : SqlTree) (negated : Bool) : Parse SqlTree := do
  expect .between
  let low ← parseConcat K
  expect .and
  let high ← parseConcat K
  return .between left negated low high

def parseLike (left : SqlTree) (negated : Bool) : Parse SqlTree := do
  expect .like
  let pattern ← parseConcat K
  if ← eat .escape then
    let escape ← parseConcat K
    return .like left negated pattern (some escape) none
  else return .like left negated pattern none none

def parsePostfix (left : SqlTree) : Parse SqlTree := do
  match ← current with
  | .is =>
    advance
    let negated ← eat .not
    expect .null
    return .isNull left negated
  | .in => parseIn K left false
  | .between => parseBetween K left false
  | .like => parseLike K left false
  | .not =>
    advance
    match ← current with
    | .in => parseIn K left true
    | .between => parseBetween K left true
    | .like => parseLike K left true
    | other => Parse.fail s!"expected IN, BETWEEN or LIKE after NOT, got {other.debug}"
  | _ => return left

def parsePredicate : Parse SqlTree := do
  let left ← parseConcat K
  match comparisonOp (← current) with
  | some op =>
    advance
    let right ← parseConcat K
    return .binary left op right
  | none => parsePostfix K left

def parseNot : Parse SqlTree := do
  if ← eat .not then
    let expr ← parsePredicate K
    return .unary .not expr
  else parsePredicate K

def parseAnd : Parse SqlTree := chain (parseNot K) andOp

def parseOr : Parse SqlTree := chain (parseAnd K) orOp

def parseExpr : Parse SqlTree := do
  enterDepth
  let r ← parseOr K
  leaveDepth
  return r

def numberLiteral (text : String) : Except String CfmlValue :=
  let cs := text.toList
  let asDouble :=
    match F64.parse cs with
    | some d => .ok (CfmlValue.double d)
    | none => .error s!"invalid number '{text}': invalid float literal"
  if cs.contains '.' then asDouble
  else if cs.all F64.isDigit && !cs.isEmpty && F64.digitsVal cs < 2 ^ 63 then
    .ok (.int (Int64.ofNat (F64.digitsVal cs)))
  else asDouble

def parseFunctionArgs : Parse (List SqlTree × Bool) := do
  let distinct ← eat .distinct
  if (← current) = .rParen then return ([], distinct)
  else
    let args ← commaList K.expr
    return (args, distinct)

def parseCall (name : String) : Parse SqlTree := do
  let (args, distinct) ← parseFunctionArgs K
  expect .rParen
  return .function name args distinct

def parseWhens : Parse (List (SqlTree × SqlTree)) :=
  repeatRounds (fun whens => do
    if ← eat .when then
      let cond ← K.expr
      expect .then
      let value ← K.expr
      return some (whens ++ [(cond, value)])
    else return none) []

def parseOperand : Parse (Option SqlTree) := do
  if (← current) = .when then return none
  else
    let e ← K.expr
    return some e

def parseCase : Parse SqlTree := do
  expect .case
  let operand ← parseOperand K
  let whens ← parseWhens K
  if whens.isEmpty then Parse.fail "CASE requires at least one WHEN"
  else
    let elseExpr ← optional .else K.expr
    expect .end
    return .case operand whens elseExpr

def skipUint : Parse Unit := fun s =>
  match parseUint s with
  | .ok _ s' => .ok () s'
  | _ => .ok () s

def parseTypeName : Parse String := do
  let name ← parseIdent
  if ← eat .lParen then
    skipUint
    if ← eat .comma then skipUint
    expect .rParen
  return Lowercase.lowerString L name

def parseCastWith (keyword separator : Token) : Parse SqlTree := do
  expect keyword
  expect .lParen
  let expr ← K.expr
  expect separator
  let ty ← parseTypeName L
  expect .rParen
  return .cast expr ty

def parseCast : Parse SqlTree := parseCastWith L K .cast .as

def parseConvert : Parse SqlTree := parseCastWith L K .convert .comma

def parseParens : Parse SqlTree := do
  advance
  if (← current) = .select then
    let select ← K.select
    expect .rParen
    return .scalarSubquery (.select select)
  else
    let expr ← K.expr
    expect .rParen
    return expr

/-- A name: a call, a qualified column or star, or a column. -/
def parseNamed (name : String) : Parse SqlTree := do
  advance
  if ← eat .lParen then parseCall K name
  else if ← eat .dot then
    if ← eat .star then return .star (some name)
    else
      let col ← parseIdent
      return .column (some name) col
  else return .column none name

/-- `?`: the next index. -/
def parseParam : Parse SqlTree := fun s =>
  .ok (.param (.positional s.paramIndex))
    { s with tokens := s.tokens.tail, paramIndex := s.paramIndex + 1 }

def leaf (e : SqlTree) : Parse SqlTree := do
  advance
  return e

def parsePrimary : Parse SqlTree := do
  match ← current with
  | .number text =>
    advance
    match numberLiteral text with
    | .ok v => return .literal v
    | .error message => Parse.fail message
  | .string text => leaf (.literal (.string text))
  | .null => leaf (.literal .null)
  | .true => leaf (.literal (.bool true))
  | .false => leaf (.literal (.bool false))
  | .star => leaf (.star none)
  | .param => parseParam
  | .namedParam name => leaf (.param (.named name))
  | .case => parseCase K
  | .cast => parseCast L K
  | .convert => parseConvert L K
  | .lParen => parseParens K
  | .left =>
    advance
    expect .lParen
    parseCall K "left"
  | .right =>
    advance
    expect .lParen
    parseCall K "right"
  | .identifier name => parseNamed K name
  | other => Parse.fail s!"unexpected token in expression: {other.debug}"

def parseUnary : Parse SqlTree := do
  if ← eat .minus then
    let expr ← K.unary
    return .unary .neg expr
  else if ← eat .plus then
    let expr ← K.unary
    return .unary .plus expr
  else parsePrimary L K

/-! ## Statements -/

def parseOptionalAlias : Parse (Option String) := do
  if ← eat .as then
    let name ← parseIdent
    return some name
  else
    match ← current with
    | .identifier _ =>
      let name ← parseIdent
      return some name
    | _ => return none

def parseSelectColumn : Parse (SelectColumn Query Unit) := do
  let expr ← K.expr
  let aliasName ← parseOptionalAlias
  return ⟨expr, aliasName⟩

def parseDotted (name : String) : Parse String :=
  repeatRounds (fun name => do
    if ← eat .dot then
      let segment ← parseIdent
      return some (name ++ "." ++ segment)
    else return none) name

def parseTableRef : Parse (TableRef Query) := do
  if ← eat .lParen then
    let select ← K.select
    expect .rParen
    let _ ← eat .as
    let aliasName ← parseIdent
    return .derived (.select select) aliasName
  else
    let first ← parseIdent
    let name ← parseDotted first
    let aliasName ← parseOptionalAlias
    return .named name aliasName

def parseJoinWithOn (joinType : JoinType) : Parse (JoinClause Query Unit) := do
  let table ← parseTableRef K
  expect .on
  let on ← K.expr
  return ⟨joinType, table, some on⟩

def parseCross : Parse (JoinClause Query Unit) := do
  let table ← parseTableRef K
  return ⟨.cross, table, none⟩

/-- `LEFT`, `RIGHT` and `FULL`, with an optional `OUTER`. -/
def parseOuter (joinType : JoinType) : Parse (JoinClause Query Unit) := do
  advance
  let _ ← eat .outer
  expect .join
  parseJoinWithOn K joinType

def parseJoin : Parse (Option (JoinClause Query Unit)) := do
  match ← current with
  | .comma =>
    advance
    some <$> parseCross K
  | .cross =>
    advance
    expect .join
    some <$> parseCross K
  | .join | .inner =>
    let _ ← eat .inner
    expect .join
    some <$> parseJoinWithOn K .inner
  | .left => some <$> parseOuter K .left
  | .right => some <$> parseOuter K .right
  | .full => some <$> parseOuter K .full
  | _ => return none

def parseFrom : Parse (TableRef Query × List (JoinClause Query Unit)) := do
  let seed ← parseTableRef K
  let joins ← repeatRounds (fun joins => do
    match ← parseJoin K with
    | none => return none
    | some join => return some (joins ++ [join])) []
  return (seed, joins)

def parseSelectCore : Parse (SelectBody Query Unit) := do
  expect .select
  let distinct ← eat .distinct
  let top ← optional .top parseUint
  let columns ← commaList (parseSelectColumn K)
  let tables ← optional .from (parseFrom K)
  let whereClause ← optional .where K.expr
  let groupBy ← optional .group (do
    expect .by
    commaList K.expr)
  let having ← optional .having K.expr
  return ⟨distinct, top, columns, tables.map Prod.fst, (tables.map Prod.snd).getD [], whereClause,
    groupBy.getD [], having⟩

def parseOrderByItem : Parse (OrderByExpr Query Unit) := do
  let expr ← K.expr
  if ← eat .asc then return ⟨expr, .asc⟩
  else if ← eat .desc then return ⟨expr, .desc⟩
  else return ⟨expr, .asc⟩

def parseLimit : Parse LimitClause := do
  let first ← parseUint
  if ← eat .comma then
    let count ← parseUint
    return ⟨first, count⟩
  else if ← eat .offset then
    let offset ← parseUint
    return ⟨offset, first⟩
  else return ⟨0, first⟩

def parseUnionArm : Parse (Union Query Unit) := do
  if ← eat .all then
    let select ← parseSelectCore K
    return ⟨true, select⟩
  else
    let _ ← eat .distinct
    let select ← parseSelectCore K
    return ⟨false, select⟩

def parseUnions : Parse (List (Union Query Unit)) :=
  repeatRounds (fun unions => do
    if ← eat .union then
      let arm ← parseUnionArm K
      return some (unions ++ [arm])
    else return none) []

def liftTop (body : SelectBody Query Unit) (limit : Option LimitClause) :
    SelectBody Query Unit × Option LimitClause :=
  match limit, body.top with
  | none, some n => ({ body with top := none }, some ⟨0, n⟩)
  | _, _ => (body, limit)

def parseSelectStatementInner : Parse (SelectStatement Query Unit) := do
  let body ← parseSelectCore K
  let unions ← parseUnions K
  let orderBy ← optional .order (do
    expect .by
    commaList (parseOrderByItem K))
  let limit ← optional .limit parseLimit
  return ⟨(liftTop body limit).1, unions, orderBy.getD [], (liftTop body limit).2⟩

def parseSelectStatement : Parse (SelectStatement Query Unit) := do
  enterDepth
  let r ← parseSelectStatementInner K
  leaveDepth
  return r

end

/-- The parser with room for `n` nested activations. -/
def knots (L : Lowercase.CaseTables) : Nat → Knots
  | 0 => ⟨Parse.outOfStack, Parse.outOfStack, Parse.outOfStack⟩
  | n + 1 => ⟨parseExpr (knots L n), parseSelectStatement (knots L n), parseUnary L (knots L n)⟩

def parseStatement (select : Parse (SelectStatement Query Unit)) : Parse Query := do
  let first ← current
  if first ≠ .select then Parse.fail s!"expected SELECT, got {first.debug}"
  else
    let statement ← select
    match ← current with
    | .error message => Parse.fail s!"lex error: {message}"
    | .eof => return .select statement
    | other => Parse.fail s!"unexpected token after statement: {other.debug}"

/-- `parse`, with room for `n` nested activations. -/
def parse (T : SqlTables) (L : Lowercase.CaseTables) (n : Nat) (sql : String) : Outcome Query :=
  parseStatement (knots L n).select ⟨lex T sql, 0, 0⟩

end Sql
end RustCfml.Qoq
