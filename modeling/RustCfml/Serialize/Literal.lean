import RustCfml.Common.Value
import RustCfml.Serialize.Lexer

/-!
# `serialize` and `evaluate`

The expression grammar is cut to what `serialize` writes: the parser descends one level per bracket,
argument and minus sign, up to 64 levels, and a literal's value is made as it is parsed. **An
expression that holds an interpolation runs text of a string**, so `evaluate` has no value for it
here, whatever the text would give.
-/

namespace RustCfml.Serialize

open Gregorian

inductive Value where
  | null
  | bool (b : Bool)
  | int (i : I64)
  /-- The kind is a date and time, a date or a time; the text is the same for all of them. -/
  | date (d : CfmlDate) (kind : DateKind)
  | str (s : String)
  | array (items : List Value)
  | struct (members : List (String × Value))
  | query (columns : List (String × List Value))

/-- `resolve_tz` past the trimming: three names are known, the others are the database's. -/
def lookupZone (utc gmt : Zone) (fromStrInsensitive : Text → Option Zone) (t : Text) :
    Option Zone :=
  let upper := t.map Char.toUpper
  if upper = "UTC".toList ∨ upper = "Z".toList then some utc
  else if upper = "GMT".toList then some gmt
  else fromStrInsensitive t

/-- The request's zone and the zone database. -/
structure Zones where
  current : Zone
  utc : Zone
  gmt : Zone
  fromStrInsensitive : Text → Option Zone
  name_ne : current.name ≠ []
  name_chars : ∀ c ∈ current.name, c ≠ '#' ∧ c ≠ '"' ∧ isWhitespace c = false
  found : lookupZone utc gmt fromStrInsensitive current.name = some current

namespace Zones

variable (zs : Zones)

def resolveTz (id : Text) : Option Zone :=
  let t := trim id
  if t = [] then some zs.utc else lookupZone zs.utc zs.gmt zs.fromStrInsensitive t

/-- An empty argument is the zone of the request. -/
def argTz (id : Text) : Option Zone :=
  if trim id = [] then some zs.current else zs.resolveTz id

end Zones

def joinWith {α : Type} (separator : α) : List (List α) → List α
  | [] => []
  | [t] => t
  | t :: ts => t ++ separator :: joinWith separator ts

def decimal (i : Int) : Text :=
  if i < 0 then '-' :: Nat.toDigits 10 i.natAbs else Nat.toDigits 10 i.natAbs

def dateFields (z : Zone) (d : CfmlDate) : List Int :=
  let w := Clock.ofTimestamp (z.localIn d)
  [w.year, w.month, w.day, w.hour, w.minute, w.second, (d.nanos / 1000000 : Nat)]

/-- A call that makes the date again. -/
def serializeDate (z : Zone) (d : CfmlDate) : Text :=
  "createDateTime(".toList ++
    joinWith ',' ((dateFields z d).map decimal ++ ['"' :: (z.name ++ ['"'])]) ++ [')']

def emptyDefaultScopeMarker : String := "__cfml_empty_default_scope__"

def isReservedComponentKey (k : String) : Bool :=
  "__".toList.isPrefixOf k.toList &&
    ("__funcmeta_".toList.isPrefixOf k.toList || "__closure_".toList.isPrefixOf k.toList ||
      "__arrow_".toList.isPrefixOf k.toList ||
      ["__variables", "__name", "__source_file", "__source_names", "__metadata", "__properties",
        "__super", "__super_map", "__rust_extends", "__extends", "__extends_chain", "__implements",
        "__implements_chain", "__implements_fqns", "__implements_src", "__accessors",
        "__declarative", "__dyn_include", "__is_interface", "__is_super", "__class_name",
        "__instance_id", "__static", "__cfc_body__", "__cfc_static_init__", "__java_shim",
        "__java_class", "__dynamic_proxy", "__proxy_method", "__proxy_target"].any
        (eqIgnoreAsciiCase k))

/-- A component's and an argument scope's own members are not written. -/
def keepsMember {α : Type} (members : ValueMap α) (k : String) : Bool :=
  let has (key : String) := (ValueMap.get? members key).isSome
  let isCfc := has "__variables" && (has "this" || has "__name")
  let isArgs := has "__arguments_scope"
  k != emptyDefaultScopeMarker &&
    (!isArgs || (k != "__arguments_scope" && k != "__arguments_params")) &&
    (!isCfc || !(isReservedComponentKey k || eqIgnoreAsciiCase k "this"))

mutual

def Value.serialize (zs : Zones) : Value → Text
  | .null => "nullValue()".toList
  | .bool true => "true".toList
  | .bool false => "false".toList
  | .int i => decimal i
  | .date d _ => serializeDate zs.current d
  | .str s => cfmlLiteralString s.toList
  | .array items => '[' :: (joinWith ',' (serializeItems zs items) ++ [']'])
  | .struct members =>
    '\x7b' :: (joinWith ',' (serializeMembers zs (keepsMember members) members) ++ ['\x7d'])
  | .query columns => "query(".toList ++ (joinWith ',' (serializeColumns zs columns) ++ [')'])
termination_by structural v => v

def serializeItems (zs : Zones) : List Value → List Text
  | [] => []
  | v :: vs => v.serialize zs :: serializeItems zs vs
termination_by structural vs => vs

def serializeMembers (zs : Zones) (keep : String → Bool) : List (String × Value) → List Text
  | [] => []
  | (k, v) :: ms =>
    if keep k then
      (cfmlLiteralString k.toList ++ ':' :: v.serialize zs) :: serializeMembers zs keep ms
    else serializeMembers zs keep ms
termination_by structural ms => ms

def serializeColumns (zs : Zones) : List (String × List Value) → List Text
  | [] => []
  | (name, cells) :: cs =>
    (cfmlLiteralString name.toList ++ ':' :: '[' ::
      (joinWith ',' (serializeItems zs cells) ++ [']']))
      :: serializeColumns zs cs
termination_by structural cs => cs

end

abbrev Parser (α : Type) := List Token → Option (α × List Token)

section

variable {α : Type} (item : Parser α) (close : Token) (trailing : Bool)

/-- Items with commas between them, up to the closing token; in brackets and braces a comma may
stand before it. -/
def rounds : Nat → Parser (List α)
  | 0, _ => none
  | fuel + 1, toks => do
    let (a, rest) ← item toks
    match rest with
    | .comma :: rest =>
      if trailing ∧ rest.head? = some close then some ([a], rest.tail)
      else do
        let (as, rest) ← rounds fuel rest
        some (a :: as, rest)
    | tok :: rest => if tok = close then some ([a], rest) else none
    | [] => none

def listOf : Parser (List α) := fun toks =>
  if toks.head? = some close then some ([], toks.tail)
  else rounds item close trailing toks.length toks

end

def parseMember (inner : Parser Value) : Parser (String × Value)
  | .string k :: .colon :: rest => do
    let (v, rest) ← inner rest
    some ((String.ofList k, v), rest)
  | _ => none

/-- With a name or without. -/
def parseArgument (inner : Parser Value) : Parser (Option String × Value)
  | .string k :: .colon :: rest => do
    let (v, rest) ← inner rest
    some ((some (String.ofList k), v), rest)
  | toks => do
    let (v, rest) ← inner toks
    some ((none, v), rest)

def createDateTime (zs : Zones) : List (Option String × Value) → Option Value
  | [(none, .int year), (none, .int month), (none, .int day), (none, .int hour),
      (none, .int minute), (none, .int second), (none, .int milli), (none, .str id)] => do
    let z ← zs.argTz id.toList
    let d ← (z.makeDate year month day hour minute second milli).toOption
    some (.date d .dateTime)
  | _ => none

def call (zs : Zones) (name : Text) (args : List (Option String × Value)) : Option Value :=
  let lower := name.map Char.toLower
  if lower = "nullvalue".toList then some .null
  else if lower = "createdatetime".toList then createDateTime zs args
  else none

/-- The least integer has no positive. -/
def negate : Value → Option Value
  | .int i =>
    if h : i.1 = -9223372036854775808 then none
    else some (.int ⟨-i.1, by have := i.2; omega⟩)
  | _ => none

def parsePrimary (zs : Zones) (inner : Parser Value) : Parser Value
  | .boolean b :: rest => some (.bool b, rest)
  | .integer i :: rest => some (.int i, rest)
  | .string s :: rest => some (.str (String.ofList s), rest)
  | .lParen :: rest => do
    let (v, rest) ← inner rest
    match rest with
    | .rParen :: rest => some (v, rest)
    | _ => none
  | .lBracket :: rest => do
    let (vs, rest) ← listOf inner .rBracket true rest
    some (.array vs, rest)
  | .lBrace :: rest => do
    let (ms, rest) ← listOf (parseMember inner) .rBrace true rest
    some (.struct (ValueMap.ofEntries ms []), rest)
  | .identifier name :: .lParen :: rest => do
    let (args, rest) ← listOf (parseArgument inner) .rParen false rest
    let v ← call zs name args
    some (v, rest)
  | _ => none

def parseUnary (zs : Zones) (inner : Parser Value) : Parser Value
  | .minus :: rest => do
    let (v, rest) ← inner rest
    let v ← negate v
    some (v, rest)
  | toks => parsePrimary zs inner toks

def maxExprDepth : Nat := 64

/-- An expression, with so many levels left: at none the nesting is too deep. -/
def parseExpression (zs : Zones) : Nat → Parser Value
  | 0 => fun _ => none
  | levels + 1 => parseUnary zs (parseExpression zs levels)

/-- The whole script is one `return`. -/
def parseReturn (zs : Zones) (toks : List Token) : Option Value :=
  match toks with
  | .returnWord :: rest =>
    match parseExpression zs maxExprDepth rest with
    | some (v, [.semicolon]) => some v
    | _ => none
  | _ => none

inductive Outcome where
  | value (v : Value)
  /-- A text of the expression opens an interpolation: it runs, or it fails the expression. -/
  | interpolates
  | other

/-- A token with an interpolation would run code. -/
def evaluate (zs : Zones) (expr : Text) : Outcome :=
  let toks := lex ("return (".toList ++ expr ++ ");\n".toList)
  if ∃ t ∈ toks, t.Bad then .interpolates
  else
    match parseReturn zs toks with
    | some v => .value v
    | none => .other

end RustCfml.Serialize
