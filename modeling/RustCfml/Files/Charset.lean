import RustCfml.Lib.Utf8
import RustCfml.Lib.Utf16

/-!
# Character sets (`cfml-common/src/charset.rs`)

`decode` turns a whole byte sequence into text: nothing is refused, what cannot be decoded becomes
U+FFFD, and a byte-order mark wins over the character set that was asked for, except over the
single-byte ones, which cannot carry one.
-/

namespace RustCfml.Files

inductive Charset where
  | utf8
  | utf16Bom
  | utf16Be
  | utf16Le
  | latin1
  | cp1252
  | usAscii
deriving DecidableEq

def Charset.singleByte : Charset → Bool
  | .latin1 | .cp1252 | .usAscii => true
  | .utf8 | .utf16Bom | .utf16Be | .utf16Le => false

def cp1252High : List Nat :=
  [0x20AC, 0xFFFD, 0x201A, 0x0192, 0x201E, 0x2026, 0x2020, 0x2021,
   0x02C6, 0x2030, 0x0160, 0x2039, 0x0152, 0xFFFD, 0x017D, 0xFFFD,
   0xFFFD, 0x2018, 0x2019, 0x201C, 0x201D, 0x2022, 0x2013, 0x2014,
   0x02DC, 0x2122, 0x0161, 0x203A, 0x0153, 0xFFFD, 0x017E, 0x0178]

def latin1Char (b : UInt8) : Char := Char.ofNat b.toNat

def cp1252Char (b : UInt8) : Char :=
  if 0x80 ≤ b.toNat ∧ b.toNat ≤ 0x9F then Char.ofNat (cp1252High.getD (b.toNat - 0x80) 0)
  else latin1Char b

def usAsciiChar (b : UInt8) : Char := if b.toNat ≤ 0x7F then latin1Char b else '�'

def decodeUtf16 (bytes : List UInt8) (bigEndian : Bool) : List Char :=
  Utf16.lossy (Utf16.units bigEndian bytes)

/-- The charset that a mark in front names, and the mark's length. -/
def sniffBom : List UInt8 → Option (Charset × Nat)
  | 0xEF :: 0xBB :: 0xBF :: _ => some (.utf8, 3)
  | 0xFE :: 0xFF :: _ => some (.utf16Be, 2)
  | 0xFF :: 0xFE :: _ => some (.utf16Le, 2)
  | _ => none

/-- Too few bytes to tell. -/
def couldStartBom : List UInt8 → Bool
  | [] | [0xEF] | [0xEF, 0xBB] | [0xFE] | [0xFF] => true
  | _ => false

/-- All bytes at once, with no mark in front. -/
def decodeWhole : Charset → List UInt8 → List Char
  | .latin1, bytes => bytes.map latin1Char
  | .cp1252, bytes => bytes.map cp1252Char
  | .usAscii, bytes => bytes.map usAsciiChar
  | .utf16Be, bytes | .utf16Bom, bytes => decodeUtf16 bytes true
  | .utf16Le, bytes => decodeUtf16 bytes false
  | .utf8, bytes => Utf8.lossy bytes

/-- A mark in front is looked for where the charset has one. -/
def decode (bytes : List UInt8) (cs : Charset) : List Char :=
  match cs with
  | .latin1 => bytes.map latin1Char
  | .cp1252 => bytes.map cp1252Char
  | .usAscii => bytes.map usAsciiChar
  | .utf8 | .utf16Bom | .utf16Be | .utf16Le =>
    match sniffBom bytes with
    | some (.utf16Be, skip) => decodeUtf16 (bytes.drop skip) true
    | some (.utf16Le, skip) => decodeUtf16 (bytes.drop skip) false
    | some (_, skip) => Utf8.lossy (bytes.drop skip)
    | none =>
      match cs with
      | .utf16Be | .utf16Bom => decodeUtf16 bytes true
      | .utf16Le => decodeUtf16 bytes false
      | _ => Utf8.lossy bytes

/-- A decoder that is given the bytes in blocks. -/
structure StreamDecoder where
  cs : Charset
  tail : List UInt8
  /-- The mark has been looked for. -/
  sniffed : Bool

def StreamDecoder.new (cs : Charset) : StreamDecoder := ⟨cs, [], false⟩

/-- The first half of `push_slow`: the block joins the tail and the mark is looked for. -/
def StreamDecoder.receive (d : StreamDecoder) (bytes : List UInt8) : StreamDecoder × Bool :=
  let tail := d.tail ++ bytes
  if d.sniffed || d.cs.singleByte then (⟨d.cs, tail, true⟩, true)
  else
    match sniffBom tail with
    | some (bomCs, skip) => (⟨bomCs, tail.drop skip, true⟩, true)
    | none =>
      if 3 ≤ tail.length || !couldStartBom tail then (⟨d.cs, tail, true⟩, true)
      else (⟨d.cs, tail, false⟩, false)

/-- The UTF-16 arm of `decodable_prefix_len`: whole units, and not a last one that is a high
surrogate and waits for its other half. -/
def utf16PrefixLen (bigEndian : Bool) (tail : List UInt8) : Nat :=
  let whole := tail.length - tail.length % 2
  if 2 ≤ whole then
    match tail.drop (whole - 2) with
    | a :: b :: _ => if Utf16.IsHigh (Utf16.unit bigEndian a b) then whole - 2 else whole
    | _ => whole
  else whole

def StreamDecoder.decodablePrefixLen (d : StreamDecoder) : Nat :=
  match d.cs with
  | .latin1 | .cp1252 | .usAscii => d.tail.length
  | .utf8 =>
    match Utf8.validate d.tail with
    | .ok => d.tail.length
    -- a wrong byte anywhere: decode through to the end
    | .invalid => d.tail.length
    | .incomplete validUpTo => validUpTo
  | .utf16Be | .utf16Bom => utf16PrefixLen true d.tail
  | .utf16Le => utf16PrefixLen false d.tail

/-- The second half of `push_slow`. -/
def StreamDecoder.drain (d : StreamDecoder) : StreamDecoder × List Char :=
  let split := d.decodablePrefixLen
  ({ d with tail := d.tail.drop split }, decodeWhole d.cs (d.tail.take split))

def StreamDecoder.pushSlow (d : StreamDecoder) (bytes : List UInt8) : StreamDecoder × List Char :=
  match d.receive bytes with
  | (d, true) => d.drain
  | (d, false) => (d, [])

/-- UTF-8 in the middle of a stream takes the fast way. -/
def StreamDecoder.pushInto (d : StreamDecoder) (bytes : List UInt8) : StreamDecoder × List Char :=
  if d.sniffed && d.tail.isEmpty && d.cs = .utf8 then
    match Utf8.validate bytes with
    | .ok => (d, Utf8.lossy bytes)
    | .incomplete valid => ({ d with tail := bytes.drop valid }, Utf8.lossy (bytes.take valid))
    | .invalid => d.pushSlow bytes
  else d.pushSlow bytes

def StreamDecoder.finish (d : StreamDecoder) : List Char :=
  if d.tail.isEmpty then [] else decodeWhole d.cs d.tail

def StreamDecoder.text (d : StreamDecoder) : List (List UInt8) → List Char
  | [] => d.finish
  | block :: blocks => (d.pushInto block).2 ++ (d.pushInto block).1.text blocks

/-- What is still to come, if all the rest came at once. -/
def StreamDecoder.whole (d : StreamDecoder) (after : List UInt8) : List Char :=
  if d.sniffed then decodeWhole d.cs (d.tail ++ after) else decode (d.tail ++ after) d.cs

@[simp] lemma decodeWhole_nil (cs : Charset) : decodeWhole cs [] = [] := by cases cs <;> rfl

variable {bytes : List UInt8} {cs : Charset}

lemma decode_singleByte (h : cs.singleByte = true) (bytes : List UInt8) :
    decode bytes cs = decodeWhole cs bytes := by
  cases cs with
  | latin1 | cp1252 | usAscii => rfl
  | utf8 | utf16Bom | utf16Be | utf16Le => cases h

lemma sniffBom_charset {skip : Nat}
    (h : sniffBom bytes = some (cs, skip)) : cs = .utf8 ∨ cs = .utf16Be ∨ cs = .utf16Le := by
  unfold sniffBom at h
  split at h <;> simp_all

lemma decode_of_mark {bomCs : Charset} {skip : Nat} (hcs : cs.singleByte = false)
    (h : sniffBom bytes = some (bomCs, skip)) :
    decode bytes cs = decodeWhole bomCs (bytes.drop skip) := by
  obtain rfl | rfl | rfl := sniffBom_charset h
  all_goals
    cases cs with
    | latin1 | cp1252 | usAscii => cases hcs
    | utf8 | utf16Bom | utf16Be | utf16Le =>
      rw [decode, h]
      rfl

lemma decode_of_noMark (cs : Charset) (h : sniffBom bytes = none) :
    decode bytes cs = decodeWhole cs bytes := by
  cases cs with
  | latin1 | cp1252 | usAscii => rfl
  | utf8 | utf16Bom | utf16Be | utf16Le =>
    rw [decode, h]
    rfl

lemma sniffBom_append {mark : Charset × Nat} (h : sniffBom bytes = some mark) (after : List UInt8) :
    sniffBom (bytes ++ after) = some mark ∧ mark.2 ≤ bytes.length := by
  unfold sniffBom at h
  split at h
  iterate 3
    · cases h
      exact ⟨rfl, by simp⟩
  · cases h

lemma sniffBom_append_none (h : sniffBom bytes = none)
    (hstart : (3 ≤ bytes.length || !couldStartBom bytes) = true)
    (after : List UInt8) : sniffBom (bytes ++ after) = none := by
  cases hmark : sniffBom (bytes ++ after) with
  | none => rfl
  | some mark =>
    exfalso
    unfold sniffBom at hmark
    split at hmark
    case h_4 => cases hmark
    -- the bytes in hand are part of the mark, or have it
    all_goals
      rename_i heq
      rcases bytes with _ | ⟨a, _ | ⟨b, _ | ⟨c, bytes⟩⟩⟩
    all_goals simp_all [couldStartBom, sniffBom]

end RustCfml.Files
