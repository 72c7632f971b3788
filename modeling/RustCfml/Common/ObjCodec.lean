import RustCfml.Common.Value
import RustCfml.Lib.ByteReader

/-!
# `objcodec.rs`: the binary form behind `objectSave` / `objectLoad`

Every value is a tag byte and a payload; counts and byte lengths are LEB128 varints.
-/

namespace RustCfml.ObjCodec

open ByteReader

def maxDepth : Nat := 128

/-- Why `encode` did not return bytes: its own error, or a panic of the row view on a query with
columns of different lengths. -/
inductive EncodeError where
  | message (text : String)
  | panic (p : Panic)

/-- `put_len`: seven bits a byte, lowest first, the high bit on every byte but the last. -/
def putLen (n : Nat) : Bytes :=
  let b := UInt8.ofNat (n &&& 0x7f)
  if n >>> 7 = 0 then [b] else (b ||| 0x80) :: putLen (n >>> 7)
termination_by n
decreasing_by
  rw [Nat.shiftRight_eq_div_pow] at *
  omega

def stringBytes (s : String) : Bytes := s.toByteArray.data.toList

def putBytes (b : Bytes) : Bytes := putLen b.length ++ b

/-- A length, then the bytes. -/
def putText (s : String) : Bytes := putBytes (stringBytes s)

def putI64 (i : Int64) : Bytes := leBytes 8 i.toUInt64.toNat

def putF64 (d : F64) : Bytes := leBytes 8 d.bits.toNat

def kindByte : DateKind → UInt8
  | .dateTime => 0
  | .date => 1
  | .time => 2

def encodeMap (enc : CfmlValue → Except EncodeError Bytes) (m : ValueMap CfmlValue) :
    Except EncodeError Bytes := do
  let parts ← m.mapM fun e => do
    let v ← enc e.2
    pure (putText e.1 ++ v)
  pure (9 :: putLen m.length ++ parts.flatten)

def encodeCell (enc : CfmlValue → Except EncodeError Bytes) (row : ValueMap CfmlValue)
    (c : String) : Except EncodeError Bytes :=
  match row.get? c with
  | some cell => enc cell
  | none => .ok [0]

/-- The cells of a row, by the row's own view of them. -/
def encodeRow (enc : CfmlValue → Except EncodeError Bytes) (q : QueryData CfmlValue)
    (r : Nat) : Except EncodeError Bytes :=
  match q.rowAt r with
  | .error p => .error (.panic p)
  | .ok row => do
    let cells ← q.columns.mapM (encodeCell enc (row.getD []))
    pure cells.flatten

def encodeQuery (enc : CfmlValue → Except EncodeError Bytes) (q : QueryData CfmlValue) :
    Except EncodeError Bytes := do
  let rows ← (List.range q.rowCount).mapM (encodeRow enc q)
  pure (10 :: putLen q.columns.length ++ q.columns.flatMap putText ++
    (putLen q.rowCount ++ rows.flatten))

/-- `enc`, by the levels still allowed. -/
def enc : Nat → CfmlValue → Except EncodeError Bytes
  | 0, _ => .error (.message "value is nested too deeply (or contains a reference to itself)")
  | levels + 1, v =>
    match v.scalar with
    | .null => .ok [0]
    | .bool false => .ok [1]
    | .bool true => .ok [2]
    | .int i => .ok (3 :: putI64 i)
    | .double d => .ok (4 :: putF64 d)
    | .timeSpan d => .ok (5 :: putF64 d)
    | .string s => .ok (6 :: putText s)
    | .binary b => .ok (7 :: putBytes b)
    | .array xs => do
      let parts ← xs.mapM (enc levels)
      pure (8 :: putLen xs.length ++ parts.flatten)
    | .struct m => encodeMap (enc levels) m
    | .inst m => encodeMap (enc levels) m
    | .query columns data => encodeQuery (enc levels) ⟨columns, data⟩
    | .dateTime d => .ok (11 :: putI64 d.secs ++ leBytes 4 d.nanos.val ++ [kindByte d.kind])
    | .queryColumn _ _ => .ok [0]
    | .code => .ok [0]

def encode (v : CfmlValue) : Except EncodeError Bytes := enc (maxDepth + 1) v

abbrev Reader (α : Type) := ByteReader.Reader String α

def fail {α : Type} (text : String) : Reader α := fun _ => .error text

def take (n : Nat) : Reader Bytes := fun b =>
  if n ≤ b.length then .ok (b.take n, b.drop n) else .error "truncated data"

def byte : Reader UInt8
  | [] => .error "truncated data"
  | b :: rest => .ok (b, rest)

/-- The loop of `Reader::len`, over the shifts still to come. -/
def lenLoop : List Nat → Nat → Reader Nat
  | [], _ => fail "length overflow"
  | shift :: shifts, n => do
    let b ← byte
    let n := n ||| ((b &&& 0x7f).toNat <<< shift) % 2 ^ 64
    if b &&& 0x80 = 0 then
      let left ← get
      if n > left.length then fail "length exceeds data" else pure n
    else lenLoop shifts n

def shifts : List Nat := (List.range 10).map (7 * ·)

def len : Reader Nat := lenLoop shifts 0

def text : Reader String := do
  let n ← len
  let raw ← take n
  match String.fromUTF8? ⟨raw.toArray⟩ with
  | some s => pure s
  | none => fail "invalid UTF-8 in string"

def fixed8 : Reader UInt64 := do
  let b ← take 8
  pure (UInt64.ofNat (ofLeBytes b))

def fromEpoch (secs : Int64) (nanos : Nat) (kind : DateKind) : CfmlDate :=
  ⟨secs + Int64.ofNat (nanos / 1000000000), ⟨nanos % 1000000000, Nat.mod_lt _ (by decide)⟩, kind⟩

def kindOfByte (b : UInt8) : DateKind :=
  match b.toNat with
  | 1 => .date
  | 2 => .time
  | _ => .dateTime

def structLoop (value : Reader CfmlValue) : Nat → ValueMap CfmlValue → Reader (ValueMap CfmlValue)
  | 0, m => pure m
  | n + 1, m => do
    let k ← text
    let v ← value
    structLoop value n (m.insert k v)

/-- One cell for each column, under the column's name. -/
def rowLoop (value : Reader CfmlValue) : List String → ValueMap CfmlValue →
    Reader (ValueMap CfmlValue)
  | [], m => pure m
  | c :: cs, m => do
    let v ← value
    rowLoop value cs (m.insert c v)

def queryOfRows (cols : List String) (rows : List (ValueMap CfmlValue)) : CfmlValue :=
  let q : QueryData CfmlValue := QueryData.fromNamedRows cols rows
  .query q.columns q.data

/-- Column names, then rows, each count checked against what is left. -/
def readQuery (value : Reader CfmlValue) : Reader CfmlValue := do
  let ncols ← len
  let cols ← times text ncols
  let nrows ← len
  let rows ← times (rowLoop value cols []) nrows
  pure (queryOfRows cols rows)

def readDate : Reader CfmlValue := do
  let secs ← fixed8
  let nanos ← take 4
  let kind ← byte
  pure (.dateTime (fromEpoch secs.toInt64 (ofLeBytes nanos) (kindOfByte kind)))

def value : Nat → Reader CfmlValue
  | 0 => fail "nesting too deep"
  | levels + 1 => do
    let tag ← byte
    match tag.toNat with
    | 0 => pure .null
    | 1 => pure (.bool false)
    | 2 => pure (.bool true)
    | 3 => do let n ← fixed8; pure (.int n.toInt64)
    | 4 => do let n ← fixed8; pure (.double ⟨n⟩)
    | 5 => do let n ← fixed8; pure (.timeSpan ⟨n⟩)
    | 6 => do let s ← text; pure (.string s)
    | 7 => do
      let n ← len
      let b ← take n
      pure (.binary b)
    | 8 => do
      let n ← len
      let xs ← times (value levels) n
      pure (.array xs)
    | 9 => do
      let n ← len
      let m ← structLoop (value levels) n []
      pure (.struct m)
    | 10 => readQuery (value levels)
    | 11 => readDate
    | t => fail ("unknown value tag " ++ toString t)

/-- Nothing may be left over. -/
def decode (bytes : Bytes) : Except String CfmlValue :=
  match value (maxDepth + 1) bytes with
  | .error e => .error e
  | .ok (v, []) => .ok v
  | .ok (_, left) => .error (toString left.length ++ " unexpected trailing bytes")

end RustCfml.ObjCodec
