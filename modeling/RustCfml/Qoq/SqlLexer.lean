import RustCfml.Lib.Uppercase

/-!
# `lexer.rs`: the tokens of a query

The text is read from the left; white space and comments go, and what is left starts a token by its
first character. A character that starts none, and a literal that does not end, become error tokens,
which the parser refuses wherever it meets them.
-/

namespace RustCfml.Qoq
namespace Sql

open Uppercase

inductive Token where
  | select | from | where | and | or | not | in | between | like | escape | is | null | true | false
  | as | on | order | by | asc | desc | group | having | limit | offset | top | distinct | case | when
  | then | else | end | exists | cast | convert
  | join | inner | left | right | full | outer | cross | union | all
  | identifier (name : String)
  | string (text : String)
  | number (text : String)
  | namedParam (name : String)
  | eq | neq | neq2 | lt | lte | gt | gte | plus | minus | star | slash | mod | concat | amp | pipe
  | caret | lParen | rParen | comma | dot | param
  | eof
  | error (message : String)
deriving DecidableEq

/-- The Unicode data the lexer reads: upper case, letters, and letters and digits. -/
structure SqlTables where
  upper : UpperTable
  alphabetic : Char → Bool
  alphanumeric : Char → Bool
  ascii : ∀ c : Char, c.toNat < 128 → alphabetic c = c.isAlpha ∧ alphanumeric c = c.isAlphanum

def SqlTables.asciiLetters : SqlTables :=
  ⟨.asciiLetters, Char.isAlpha, Char.isAlphanum, fun _ _ => ⟨rfl, rfl⟩⟩

def isAsciiWhitespace (c : Char) : Bool := c == ' ' || c == '\t' || c == '\n' || c == '\r' ||
    c.toNat == 12

def dropLine : List Char → List Char
  | [] => []
  | c :: cs => if c = '\n' then cs else dropLine cs

def dropBlock : List Char → List Char
  | [] => []
  | c :: cs => if c = '*' ∧ cs.head? = some '/' then cs.tail else dropBlock cs

def skipTrivia : Nat → List Char → List Char
  | 0, cs => cs
  | _, [] => []
  | n + 1, c :: cs =>
    if isAsciiWhitespace c then skipTrivia n cs
    else if c = '-' ∧ cs.head? = some '-' then skipTrivia n (dropLine (c :: cs))
    else if c = '/' ∧ cs.head? = some '*' then skipTrivia n (dropBlock cs.tail)
    else c :: cs

def readNumber (seenDot : Bool) : List Char → List Char × List Char
  | [] => ([], [])
  | c :: cs =>
    if c.isDigit then ((c :: (readNumber seenDot cs).1), (readNumber seenDot cs).2)
    else if c = '.' ∧ seenDot = false then ((c :: (readNumber true cs).1), (readNumber true cs).2)
    else ([], c :: cs)

/-- Up to a closing character that is not doubled; nothing comes back if there is none. -/
def readQuoted (close : Char) : List Char → Option (List Char × List Char)
  | [] => none
  | [c] => if c = close then some ([], []) else none
  | c :: c' :: cs =>
    if c = close then
      if c' = close then (readQuoted close cs).map fun r => (close :: r.1, r.2) else
        some ([], c' :: cs)
    else (readQuoted close (c' :: cs)).map fun r => (c :: r.1, r.2)

def keywords : List (String × Token) :=
  [("SELECT", .select), ("FROM", .from), ("WHERE", .where), ("AND", .and), ("OR", .or),
    ("NOT", .not),
   ("IN", .in), ("BETWEEN", .between), ("LIKE", .like), ("ESCAPE", .escape), ("IS", .is),
     ("NULL", .null),
   ("TRUE", .true), ("FALSE", .false), ("AS", .as), ("ON", .on), ("ORDER", .order), ("BY", .by),
   ("ASC", .asc), ("DESC", .desc), ("GROUP", .group), ("HAVING", .having), ("LIMIT", .limit),
   ("OFFSET", .offset), ("TOP", .top), ("DISTINCT", .distinct), ("CASE", .case), ("WHEN", .when),
   ("THEN", .then), ("ELSE", .else), ("END", .end), ("EXISTS", .exists), ("CAST", .cast),
   ("CONVERT", .convert), ("JOIN", .join), ("INNER", .inner), ("LEFT", .left), ("RIGHT", .right),
   ("FULL", .full), ("OUTER", .outer), ("CROSS", .cross), ("UNION", .union), ("ALL", .all)]

def identifierOrKeyword (T : SqlTables) (s : String) : Token :=
  (keywords.lookup (toUppercase T.upper s)).getD (.identifier s)

def quoted (close : Char) (failed : String) (token : String → Token) (cs : List Char) :
    Token × List Char :=
  match readQuoted close cs with
  | some (text, rest) => (token (.ofList text), rest)
  | none => (.error failed, [])

def orNext (next : Char) (two one : Token) (cs : List Char) : Token × List Char :=
  if cs.head? = some next then (two, cs.tail) else (one, cs)

def tokenFrom (T : SqlTables) (c : Char) (cs : List Char) : Token × List Char :=
  match c with
  | '=' => (.eq, cs)
  | '<' => if cs.head? = some '>' then (.neq, cs.tail) else orNext '=' .lte .lt cs
  | '>' => orNext '=' .gte .gt cs
  | '!' => orNext '=' .neq2 (.error "unexpected '!'") cs
  | '+' => (.plus, cs)
  | '-' => (.minus, cs)
  | '*' => (.star, cs)
  | '/' => (.slash, cs)
  | '%' => (.mod, cs)
  | '|' => orNext '|' .concat .pipe cs
  | '&' => (.amp, cs)
  | '^' => (.caret, cs)
  | '(' => (.lParen, cs)
  | ')' => (.rParen, cs)
  | ',' => (.comma, cs)
  | '.' =>
    if cs.head?.any Char.isDigit then
      (.number (.ofList ('.' :: (readNumber true cs).1)), (readNumber true cs).2)
    else (.dot, cs)
  | '?' => (.param, cs)
  | ':' =>
    let name := cs.takeWhile fun c => T.alphanumeric c || c == '_'
    let rest := cs.dropWhile fun c => T.alphanumeric c || c == '_'
    if name.isEmpty then (.error "expected name after ':'", rest) else
      (.namedParam (.ofList name), rest)
  | '[' => quoted ']' "unterminated quoted identifier" .identifier cs
  | c =>
    -- the quote, the double quote and the grave accent close what they open
    if c.toNat = 39 then quoted c "unterminated string literal" .string cs
    else if c.toNat = 34 ∨ c.toNat = 96 then
      quoted c "unterminated quoted identifier" .identifier cs
    else if c.isDigit then
      (.number (.ofList (c :: (readNumber false cs).1)), (readNumber false cs).2)
    else if T.alphabetic c || c == '_' then
      let more := cs.takeWhile fun c => T.alphanumeric c || c == '_' || c == '$'
      (identifierOrKeyword T (.ofList (c :: more)), cs.dropWhile fun c => T.alphanumeric c ||
        c == '_' || c == '$')
    else (.error s!"unexpected character '{c}'", cs)

def lexFrom (T : SqlTables) : Nat → List Char → List Token
  | 0, _ => []
  | n + 1, cs =>
    match skipTrivia cs.length cs with
    | [] => []
    | c :: rest => (tokenFrom T c rest).1 :: lexFrom T n (tokenFrom T c rest).2

def lex (T : SqlTables) (sql : String) : List Token := lexFrom T (sql.toList.length + 1) sql.toList

example : lex .asciiLetters "SELECT a.b -- all\n|| 'it''s' <> .5" =
    [.select, .identifier "a", .dot, .identifier "b", .concat, .string "it's", .neq,
      .number ".5"] := by
  decide +kernel

end Sql
end RustCfml.Qoq
