import RustCfml.Common.Value
import RustCfml.Lib.F64Text
import RustCfml.Lib.Lowercase

/-!
# `compare.rs`: the comparator of query-of-queries

One comparator serves every SQL comparison, `ORDER BY`, `MIN` and `MAX`; one key serves `GROUP BY`,
`DISTINCT` and the hash join. Neither has a column type to go by: **the variant of each cell
decides**, pair by pair.
-/

namespace RustCfml.Qoq

open Lowercase

structure Platform where
  tables : CaseTables
  /-- `CfmlDate::from_numeric`. -/
  fromNumeric : F64 → Option CfmlDate
  /-- `datetime::parse::parse_date`. -/
  parseDate : String → Option CfmlDate
  /-- `CfmlDate::to_cfml_string`. -/
  toCfmlString : CfmlDate → String
  /-- `as_string` of a double, a time span, a binary or a container. -/
  renderOther : CfmlValue → String

def parseNum (s : String) : Option F64 :=
  let t := trim s.toList
  if t = [] then none else F64.parse t

/-- `fmt_num`: an integral double below 1e15 as an integer, any other by `Display`. -/
def fmtNum (n : F64) : String :=
  if n.isIntegral && n.absLt 1000000000000000 then toString n.truncInt
  else String.ofList n.display

section

variable (P : Platform)

def strCmpLoop (full : Ordering) : List Char → List Char → Ordering
  | a :: as, b :: bs =>
    if isAscii a && isAscii b then
      if a.toLower = b.toLower then strCmpLoop full as bs
      else compare a.toLower.toNat b.toLower.toNat
    else full
  | [], bs => if bs.all isAscii then compare 0 bs.length else full
  | a :: as, [] => if (a :: as).all isAscii then compare (a :: as).length 0 else full

def strCmp (a b : String) : Ordering :=
  strCmpLoop (cmpChars (toLowercase P.tables a.toList) (toLowercase P.tables b.toList))
    a.toList b.toList

def asString : CfmlValue → String
  | .null => ""
  | .bool b => if b then "true" else "false"
  | .int i => toString i.toInt
  | .dateTime d => P.toCfmlString d
  | .string s => s
  | v => P.renderOther v

def dateVs (d : CfmlDate) (other : CfmlValue) : Ordering :=
  let asDate := match other with
    | .int i => P.fromNumeric (F64.ofInt i.toInt)
    | .double f => P.fromNumeric f
    | .string s => P.parseDate (String.ofList (trim s.toList))
    | _ => none
  match asDate with
  | some o => compare d.epochNanos o.epochNanos
  | none => strCmp P (P.toCfmlString d) (asString P other)

/-- `Class`: what a value compares as when its kind is not the other's. -/
inductive Class where
  | num (x : F64)
  | str (s : String)

def classify : CfmlValue → Class
  | .int i => .num (F64.ofInt i.toInt)
  | .double d => .num d
  | .bool b => .num (if b then F64.one else F64.zero)
  | .string s => .str s
  | v => .str (asString P v)

/-- The mixed-kind comparison at the end of `compare_sql`. -/
def classCmp : Class → Class → Ordering
  | .num x, .num y => x.totalCmp y
  | .str x, .str y => strCmp P x y
  | .num x, .str y =>
    match parseNum y with
    | some yn => x.totalCmp yn
    | none => strCmp P (fmtNum x) y
  | .str x, .num y =>
    match parseNum x with
    | some xn => xn.totalCmp y
    | none => strCmp P x (fmtNum y)

def boolInt (b : Bool) : Int := if b then 1 else 0

def compareNonNull : CfmlValue → CfmlValue → Ordering
  | .string a, .string b => strCmp P a b
  | .int a, .int b => compare a.toInt b.toInt
  | .double a, .double b => a.totalCmp b
  | .bool a, .bool b => compare (boolInt a) (boolInt b)
  | .bool a, .int b => compare (boolInt a) b.toInt
  | .int a, .bool b => compare a.toInt (boolInt b)
  | .dateTime a, .dateTime b => compare a.epochNanos b.epochNanos
  | .dateTime d, other => dateVs P d other
  | other, .dateTime d => (dateVs P d other).swap
  | a, b => classCmp P (classify P a) (classify P b)

def compareSql (a b : CfmlValue) : Option Ordering :=
  if a.isNull || b.isNull then none else some (compareNonNull P a b)

def compareTotal (a b : CfmlValue) : Ordering :=
  match a.isNull, b.isNull with
  | true, true => .eq
  | true, false => .lt
  | false, true => .gt
  | false, false => (compareSql P a b).getD .eq

def sqlEqual (a b : CfmlValue) : Option Bool := (compareSql P a b).map (· == .eq)

def groupKey : CfmlValue → List Char
  | .null => ['N', '\u0001']
  | .bool b => ['B', if b then 'T' else 'F', '\u0001']
  | .int i => '#' :: (toString i.toInt).toList ++ ['\u0001']
  | .double d => '#' :: (fmtNum d).toList ++ ['\u0001']
  | .string s => 'S' :: toLowercase P.tables s.toList ++ ['\u0001']
  | .dateTime d => 'D' :: (toString d.epochNanos).toList ++ ['\u0001']
  | v => 'S' :: toLowercase P.tables (asString P v).toList ++ ['\u0001']

end

end RustCfml.Qoq
