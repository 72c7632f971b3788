import RustCfml.Common.Key
import RustCfml.Lib.Pieces
import RustCfml.Lib.Utf8

/-!
# Binary as text (`cfml-stdlib/src/builtins.rs`, encoding helpers)

**What each encoder writes, its decoder reads back** (`uuDecode_uuEncode`,
`base64DecodeBytes_base64EncodeBytes`, `hexDecode_hexEncode`), and base64 also passes the check the
precise decoder makes first (`luceeBase64Decode_base64EncodeBytes`). The induction is by groups.
-/

namespace RustCfml.Crypto

open Pieces List

inductive CfmlError where
  | runtime (message : String)
  | custom (kind message : String)

def asciiText (bytes : List UInt8) : List Char := bytes.map fun b => Char.ofNat b.toNat

def group (b0 b1 b2 : UInt8) : Nat := b0.toNat * 65536 + b1.toNat * 256 + b2.toNat

def sixBits (n k : Nat) : Nat := n / 64 ^ k % 64

def ofSixBits (a b c d : Nat) : Nat := a * 262144 + b * 4096 + c * 64 + d

def groupOf (chunk : List UInt8) : Nat := group (chunk.getD 0 0) (chunk.getD 1 0) (chunk.getD 2 0)

def byte0 (n : Nat) : UInt8 := .ofNat (n / 65536 % 256)

def byte1 (n : Nat) : UInt8 := .ofNat (n / 256 % 256)

def byte2 (n : Nat) : UInt8 := .ofNat (n % 256)

@[simp] lemma sixBits_lt (n k : Nat) : sixBits n k < 64 := Nat.mod_lt _ (by decide)

lemma group_lt (b0 b1 b2 : UInt8) : group b0 b1 b2 < 16777216 := by
  have h0 := b0.toNat_lt
  have h1 := b1.toNat_lt
  have h2 := b2.toNat_lt
  rw [group]
  omega

variable {k n : Nat} {chunk bytes : List UInt8} {b : UInt8} {cs : List Char}

lemma ofSixBits_sixBits (h : n < 16777216) :
    ofSixBits (sixBits n 3) (sixBits n 2) (sixBits n 1) (sixBits n 0) = n := by
  simp only [ofSixBits, sixBits]
  omega

@[simp] lemma byte0_group (b0 b1 b2 : UInt8) : byte0 (group b0 b1 b2) = b0 := by
  have h1 := b1.toNat_lt
  have h2 := b2.toNat_lt
  have h0 := b0.toNat_lt
  have hdiv : group b0 b1 b2 / 65536 % 256 = b0.toNat := by
    rw [group]
    omega
  rw [byte0, hdiv, UInt8.ofNat_toNat]

@[simp] lemma byte1_group (b0 b1 b2 : UInt8) : byte1 (group b0 b1 b2) = b1 := by
  have h1 := b1.toNat_lt
  have h2 := b2.toNat_lt
  have hdiv : group b0 b1 b2 / 256 % 256 = b1.toNat := by
    rw [group]
    omega
  rw [byte1, hdiv, UInt8.ofNat_toNat]

lemma byte2_group (b0 b1 b2 : UInt8) : byte2 (group b0 b1 b2) = b2 := by
  have h2 := b2.toNat_lt
  have hdiv : group b0 b1 b2 % 256 = b2.toNat := by
    rw [group]
    omega
  rw [byte2, hdiv, UInt8.ofNat_toNat]

/-! ## UU -/

def uuChar (k : Nat) : UInt8 := .ofNat (k + 32)

/-- `b.wrapping_sub(32) & 63`. -/
def uuVal (b : UInt8) : Nat := (b.toNat + 224) % 256 % 64

def uuTriple (triple : List UInt8) : List UInt8 :=
  let n := groupOf triple
  [uuChar (sixBits n 3), uuChar (sixBits n 2), uuChar (sixBits n 1), uuChar (sixBits n 0)]

def uuLine (chunk : List UInt8) : List UInt8 :=
  uuChar chunk.length :: (chunks 3 chunk).flatMap uuTriple

def uuEncode (data : List UInt8) : List Char :=
  (chunks 45 data).flatMap fun chunk => asciiText (uuLine chunk) ++ ['\n']

/-- The inner loop of `uu_decode`: four characters give three bytes. -/
def uuQuads : List UInt8 → List UInt8
  | a :: b :: c :: d :: rest =>
    let n := ofSixBits (uuVal a) (uuVal b) (uuVal c) (uuVal d)
    byte0 n :: byte1 n :: byte2 n :: uuQuads rest
  | _ => []

def uuDecodeLine (line : List Char) : List UInt8 :=
  match Utf8.encode line with
  | [] => []
  | first :: rest => (uuQuads rest).take (uuVal first)

def uuDecode (s : List Char) : List UInt8 := (lines s).flatMap uuDecodeLine

lemma uuVal_uuChar (h : k < 64) : uuVal (uuChar k) = k := by
  have hk := @Utf8.toNat_byte (k + 32) (by omega)
  rw [uuVal, uuChar, hk]
  omega

lemma uuQuads_uuTriple (triple rest : List UInt8) : uuQuads (uuTriple triple ++ rest) =
      triple.getD 0 0 :: triple.getD 1 0 :: triple.getD 2 0 :: uuQuads rest := by
  have hn := group_lt (triple.getD 0 0) (triple.getD 1 0) (triple.getD 2 0)
  simp only [uuTriple, groupOf, cons_append, nil_append, uuQuads, uuVal_uuChar,
    sixBits_lt, ofSixBits_sixBits hn, byte0_group, byte1_group, byte2_group]

variable (data : List UInt8)

lemma uuQuads_flatMap : ∃ zeros, uuQuads ((chunks 3 data).flatMap uuTriple) = data ++ zeros := by
  induction data using chunks_induction (n := 3) (by decide) with
  | empty => exact ⟨[], rfl⟩
  | last l hne hlt =>
    rw [chunks_of_lt hne hlt, flatMap_singleton]
    have hquads := uuQuads_uuTriple l []
    rw [append_nil] at hquads
    rw [hquads]
    rcases l with _ | ⟨a, _ | ⟨b, _ | ⟨c, l⟩⟩⟩
    · exact absurd rfl hne
    · exact ⟨[0, 0], rfl⟩
    · exact ⟨[0], rfl⟩
    · exact absurd hlt (by simp)
  | full a l ha ih =>
    obtain ⟨zeros, hzeros⟩ := ih
    match a, ha with
    | [x, y, z], ha =>
      refine ⟨zeros, ?_⟩
      rw [chunks_append (by decide) ha, flatMap_cons, uuQuads_uuTriple, hzeros]
      rfl

/-- Bytes between the space and the underscore. -/
def Printable (b : UInt8) : Prop := 32 ≤ b.toNat ∧ b.toNat < 128

lemma printable_uuChar (h : k < 64) : Printable (uuChar k) := by
  have hk := @Utf8.toNat_byte (k + 32) (by omega)
  rw [Printable, uuChar, hk]
  omega

lemma printable_uuLine (h : chunk.length < 64) : ∀ b ∈ uuLine chunk, Printable b := by
  intro b hb
  obtain rfl | hb := mem_cons.1 hb
  · exact printable_uuChar h
  · obtain ⟨triple, -, hb⟩ := mem_flatMap.1 hb
    simp only [uuTriple, mem_cons, not_mem_nil, or_false] at hb
    obtain rfl | rfl | rfl | rfl := hb <;> exact printable_uuChar (sixBits_lt _ _)

lemma encode_asciiText (h : ∀ b ∈ bytes, Printable b) :
    Utf8.encode (asciiText bytes) = bytes := Utf8.encode_ascii bytes fun b hb => (h b hb).2

lemma toNat_asciiChar (h : Printable b) : (Char.ofNat b.toNat).toNat = b.toNat := by
  have hvalid : b.toNat.isValidChar := Or.inl (by have := h.2; omega)
  rw [Char.ofNat, dif_pos hvalid]
  rfl

lemma ne_of_mem_asciiText (h : ∀ b ∈ bytes, Printable b) {c : Char}
    (hc : c ∈ asciiText bytes) : 32 ≤ c.toNat ∧ c.toNat < 128 := by
  obtain ⟨b, hb, rfl⟩ := mem_map.1 hc
  rw [toNat_asciiChar (h b hb)]
  exact h b hb

lemma uuDecodeLine_uuLine (h : chunk.length < 64) :
    uuDecodeLine (asciiText (uuLine chunk)) = chunk := by
  rw [uuDecodeLine, encode_asciiText (printable_uuLine h), uuLine]
  dsimp only
  obtain ⟨zeros, hzeros⟩ := uuQuads_flatMap chunk
  rw [uuVal_uuChar h, hzeros, take_left]

lemma length_le_of_mem_chunks (hn : 1 ≤ n) (data : List UInt8) : ∀ chunk ∈ chunks n data,
    chunk.length ≤ n := by
  induction data using chunks_induction hn with
  | empty => simp
  | last l hne hlt =>
    intro chunk hc
    rw [chunks_of_lt hne hlt, mem_singleton] at hc
    rw [hc]
    exact Nat.le_of_lt hlt
  | full a l ha ih =>
    intro chunk hc
    rw [chunks_append hn ha] at hc
    obtain rfl | hc := mem_cons.1 hc
    · exact Nat.le_of_eq ha
    · exact ih chunk hc

theorem uuDecode_uuEncode : uuDecode (uuEncode data) = data := by
  have hshort : ∀ chunk ∈ chunks 45 data, chunk.length < 64 := by
    intro chunk hc
    have := length_le_of_mem_chunks (by decide) data chunk hc
    omega
  have hlines : lines (uuEncode data) = (chunks 45 data).map fun chunk =>
      asciiText (uuLine chunk) := by
    refine lines_flatMap _ _ ?_
    intro chunk hc c hmem
    have hnat := ne_of_mem_asciiText (printable_uuLine (hshort chunk hc)) hmem
    constructor <;> (rintro rfl; exact absurd hnat.1 (by decide))
  rw [uuDecode, hlines, flatMap_map]
  have hback : ∀ chunk ∈ chunks 45 data, uuDecodeLine (asciiText (uuLine chunk)) = chunk :=
    fun chunk hc => uuDecodeLine_uuLine (hshort chunk hc)
  rw [flatMap_congr hback, flatMap_id']
  exact flatten_chunks (by decide) data

/-! ## Base64 -/

/-- `B64_ALPHABET`, by index. -/
def b64Char (k : Nat) : UInt8 :=
  if k < 26 then .ofNat (k + 65)
  else if k < 52 then .ofNat (k - 26 + 97)
  else if k < 62 then .ofNat (k - 52 + 48)
  else if k = 62 then 43
  else 47

def b64Reverse (b : UInt8) : Option Nat :=
  let c := b.toNat
  if 65 ≤ c ∧ c ≤ 90 then some (c - 65)
  else if 97 ≤ c ∧ c ≤ 122 then some (c - 97 + 26)
  else if 48 ≤ c ∧ c ≤ 57 then some (c - 48 + 52)
  else if c = 43 then some 62
  else if c = 47 then some 63
  else none

def b64Val (b : UInt8) : Nat := (b64Reverse b).getD 0

def pad : UInt8 := 61

def b64Chunk (chunk : List UInt8) : List UInt8 :=
  let n := groupOf chunk
  [b64Char (sixBits n 3), b64Char (sixBits n 2),
    if 1 < chunk.length then b64Char (sixBits n 1) else pad,
    if 2 < chunk.length then b64Char (sixBits n 0) else pad]

def base64Bytes (data : List UInt8) : List UInt8 := (chunks 3 data).flatMap b64Chunk

def base64EncodeBytes (data : List UInt8) : List Char := asciiText (base64Bytes data)

/-- The first loop of `base64_decode_bytes`: groups without padding, and what it stops at. -/
def b64Whole : List UInt8 → List UInt8 × List UInt8
  | c0 :: c1 :: c2 :: c3 :: rest =>
    if c0 = pad ∨ c1 = pad ∨ c2 = pad ∨ c3 = pad then ([], c0 :: c1 :: c2 :: c3 :: rest)
    else
      let n := ofSixBits (b64Val c0) (b64Val c1) (b64Val c2) (b64Val c3)
      (byte0 n :: byte1 n :: byte2 n :: (b64Whole rest).1, (b64Whole rest).2)
  | rest => ([], rest)

/-- A group whose third and fourth character may be missing or padding. -/
def b64Group (c0 c1 : UInt8) (c2 c3 : Option UInt8) : List UInt8 :=
  let has2 := c2.any (· != pad)
  let has3 := c3.any (· != pad)
  let n := ofSixBits (b64Val c0) (b64Val c1) (if has2 then b64Val (c2.getD 0) else 0)
    (if has3 then b64Val (c3.getD 0) else 0)
  byte0 n :: ((if has2 then [byte1 n] else []) ++ if has3 then [byte2 n] else [])

def b64Rest : List UInt8 → List UInt8
  | c0 :: c1 :: c2 :: c3 :: rest =>
    if c0 = pad ∨ c1 = pad then [] else b64Group c0 c1 (some c2) (some c3) ++ b64Rest rest
  | [c0, c1, c2] => if c0 = pad ∨ c1 = pad then [] else b64Group c0 c1 (some c2) none
  | [c0, c1] => if c0 = pad ∨ c1 = pad then [] else b64Group c0 c1 none none
  | _ => []

def b64Valid (b : UInt8) : Bool := b == pad || (b64Reverse b).isSome

def base64DecodeBytes (s : List Char) : List UInt8 :=
  let raw := Utf8.encode s
  let chars := if raw.any fun b => !b64Valid b then raw.filter b64Valid else raw
  (b64Whole chars).1 ++ b64Rest (b64Whole chars).2

def coderError (message : String) : CfmlError :=
  .custom "lucee.runtime.coder.CoderException" message

def b64Body (c : Char) : Bool := c.isAlphanum || c == '+' || c == '/'

def preciseCheck (chars : List Char) : Except CfmlError Unit :=
  if chars.length % 4 ≠ 0 then
    .error (coderError
      s!"cannot convert the input to a binary, invalid length ({chars.length}) of the string")
  else
    let padding := (chars.reverse.takeWhile (· == '=')).length
    let body := chars.reverse.dropWhile (· == '=')
    if 3 < padding then
      .error (coderError s!"invalid padding length [{padding}], maximal length is [3]")
    else
      match body.findIdx? fun c => !b64Body c with
      | some j =>
        let c := body.getD j ' '
        .error (coderError
          s!"invalid character [{c}] in base64 string at position [{body.length - j}]")
      | none => .ok ()

def luceeBase64Decode (data : List Char) (precise : Bool) : Except CfmlError (List UInt8) :=
  if data.isEmpty then .ok []
  else do
    if precise then preciseCheck data
    let decoded := base64DecodeBytes data
    if decoded.isEmpty then .error (coderError "cannot convert the input to a binary")
    else .ok decoded

lemma b64Char_spec : ∀ k < 64, b64Reverse (b64Char k) = some k ∧ b64Char k ≠ pad ∧
    Printable (b64Char k) ∧ b64Body (Char.ofNat (b64Char k).toNat) = true := by
  unfold Printable
  decide

@[simp] lemma b64Val_b64Char (h : k < 64) : b64Val (b64Char k) = k := by
  rw [b64Val, (b64Char_spec k h).1]
  rfl

@[simp] lemma b64Char_ne_pad (n k : Nat) : b64Char (sixBits n k) ≠ pad :=
  (b64Char_spec _ (sixBits_lt n k)).2.1

variable {x y z : UInt8} {rest : List UInt8}

lemma b64Rest_whole : ∀ chars, (b64Whole chars).1 ++ b64Rest (b64Whole chars).2 = b64Rest chars
  | c0 :: c1 :: c2 :: c3 :: chars => by
    rw [b64Whole]
    split
    next => rfl
    next hpad =>
      rw [not_or, not_or, not_or] at hpad
      simp [b64Rest, b64Group, hpad, ← b64Rest_whole chars]
  | [] | [_] | [_, _] | [_, _, _] => rfl

lemma b64Rest_pads (m : Nat) : b64Rest (replicate m pad) = [] := by
  rcases m with _ | _ | _ | _ | m <;> simp [replicate_succ, b64Rest]

lemma b64Rest_full : b64Rest (b64Chunk [x, y, z] ++ rest) = x :: y :: z :: b64Rest rest := by
  have hgroup : groupOf [x, y, z] = group x y z := rfl
  simp [b64Chunk, hgroup, b64Rest, b64Group, ofSixBits_sixBits (group_lt x y z), byte2_group]

lemma b64Rest_two (m : Nat) :
    b64Rest ([3, 2, 1].map (fun k => b64Char (sixBits (group x y 0) k)) ++ replicate m pad) =
    [x, y] := by
  have hzero : sixBits (group x y 0) 0 = 0 := by
    simp [sixBits, group]
    omega
  have hsix := ofSixBits_sixBits (group_lt x y 0)
  rw [hzero] at hsix
  rcases m with _ | m <;> simp [replicate_succ, b64Rest, b64Group, hsix, b64Rest_pads]

lemma b64Rest_one (m : Nat) :
    b64Rest ([3, 2].map (fun k => b64Char (sixBits (group x 0 0) k)) ++ replicate m pad) = [x] := by
  have hzero : sixBits (group x 0 0) 0 = 0 ∧ sixBits (group x 0 0) 1 = 0 := by
    simp [sixBits, group]
    omega
  have hsix := ofSixBits_sixBits (group_lt x 0 0)
  rw [hzero.1, hzero.2] at hsix
  rcases m with _ | _ | m <;> simp [replicate_succ, b64Rest, b64Group, hsix, b64Rest_pads]

/-- An encoding is letters and padding, and any padding will do to read it back. -/
lemma base64Bytes_shape : ∃ (body : List Nat) (k : Nat),
    base64Bytes data = body.map b64Char ++ replicate k pad ∧ (∀ i ∈ body, i < 64) ∧ k ≤ 2 ∧
      (body.length + k) % 4 = 0 ∧ ∀ m, b64Rest (body.map b64Char ++ replicate m pad) = data := by
  unfold base64Bytes
  induction data using chunks_induction (n := 3) (by decide) with
  | empty => exact ⟨[], 0, rfl, by simp, by omega, rfl, b64Rest_pads⟩
  | last l hne hlt =>
    rw [chunks_of_lt hne hlt, flatMap_singleton]
    rcases l with _ | ⟨a, _ | ⟨b, _ | ⟨c, l⟩⟩⟩
    · exact absurd rfl hne
    · exact ⟨[3, 2].map (sixBits (group a 0 0)), 2, rfl, by simp, by omega, by simp,
        b64Rest_one⟩
    · exact ⟨[3, 2, 1].map (sixBits (group a b 0)),
        1, by simp [b64Chunk, groupOf], by simp, by omega, by simp,
        b64Rest_two⟩
    · exact absurd hlt (by simp)
  | full a l ha ih =>
    obtain ⟨body, k, hbytes, hlt, hk, hmod, hback⟩ := ih
    rw [chunks_append (by decide) ha, flatMap_cons, hbytes]
    rcases a with _ | ⟨x, _ | ⟨y, _ | ⟨z, _ | ⟨w, a⟩⟩⟩⟩
    iterate 3 cases ha
    · have hfull : b64Chunk [x, y, z] = ([3, 2, 1, 0].map (sixBits (group x y z))).map b64Char := by
        simp [b64Chunk, groupOf]
      refine ⟨[3, 2, 1, 0].map (sixBits (group x y z)) ++ body, k, ?_, ?_, hk, ?_, fun m => ?_⟩
      · rw [hfull, map_append, append_assoc]
      · intro i hi
        obtain hi | hi := mem_append.1 hi
        · obtain ⟨j, -, rfl⟩ := mem_map.1 hi
          exact sixBits_lt _ _
        · exact hlt i hi
      · simp only [length_append, length_map, length_cons, length_nil]
        omega
      · rw [map_append, append_assoc, ← hfull, b64Rest_full, hback]
        rfl
    · simp at ha

lemma base64DecodeBytes_eq (s : List Char) :
    base64DecodeBytes s = b64Rest ((Utf8.encode s).filter b64Valid) := by
  rw [base64DecodeBytes]
  split
  next => exact b64Rest_whole _
  next hall =>
    rw [filter_eq_self.2 (by simpa using hall)]
    exact b64Rest_whole _

variable {body : List Nat} {m : Nat}

lemma base64EncodeBytes_eq {data : List UInt8}
    (h : base64Bytes data = body.map b64Char ++ replicate m pad) :
    base64EncodeBytes data = asciiText (body.map b64Char) ++ replicate m '=' := by
  rw [base64EncodeBytes, h, asciiText, asciiText, map_append, map_replicate]
  rfl

lemma filter_letters (h : ∀ i ∈ body, i < 64) (m : Nat) :
    (Utf8.encode (asciiText (body.map b64Char) ++ replicate m '=')).filter b64Valid =
      body.map b64Char ++ replicate m pad := by
  have hpads : replicate m '=' = asciiText (replicate m pad) := by
    rw [asciiText, map_replicate]
    rfl
  have hall : ∀ b ∈ body.map b64Char ++ replicate m pad, b64Valid b = true ∧ Printable b := by
    intro b hb
    obtain hb | hb := mem_append.1 hb
    · obtain ⟨i, hi, rfl⟩ := mem_map.1 hb
      obtain ⟨hrev, -, hprint, -⟩ := b64Char_spec i (h i hi)
      exact ⟨by simp [b64Valid, hrev], hprint⟩
    · rw [eq_of_mem_replicate hb]
      exact ⟨rfl, by decide, by decide⟩
  rw [hpads, asciiText, asciiText, ← map_append]
  exact (congrArg _ (encode_asciiText fun b hb => (hall b hb).2)).trans
    (filter_eq_self.2 fun b hb => (hall b hb).1)

theorem base64DecodeBytes_base64EncodeBytes : base64DecodeBytes (base64EncodeBytes data) =
    data := by
  obtain ⟨body, k, hbytes, hlt, -, -, hback⟩ := base64Bytes_shape data
  rw [base64DecodeBytes_eq, base64EncodeBytes_eq hbytes, filter_letters hlt, hback]

lemma padding_of_ne (h : ∀ c ∈ cs, c ≠ '=') : cs.takeWhile (· == '=') = [] ∧
    cs.dropWhile (· == '=') = cs := by
  cases cs with
  | nil => exact ⟨rfl, rfl⟩
  | cons c cs =>
    have hc : ¬ (c == '=') = true := by simpa using h c mem_cons_self
    exact ⟨takeWhile_cons_of_neg hc, dropWhile_cons_of_neg hc⟩

lemma pads_all (m : Nat) : ∀ c ∈ replicate m '=', (c == '=') = true := by
  intro c hc
  rw [eq_of_mem_replicate hc]
  rfl

lemma preciseCheck_base64EncodeBytes : preciseCheck (base64EncodeBytes data) = .ok () := by
  obtain ⟨body, k, hbytes, hlt, hk, hmod, -⟩ := base64Bytes_shape data
  have htext := base64EncodeBytes_eq hbytes
  have hbody : ∀ c ∈ (asciiText (body.map b64Char)).reverse, b64Body c = true := by
    intro c hc
    obtain ⟨b, hb, rfl⟩ := mem_map.1 (mem_reverse.1 hc)
    obtain ⟨i, hi, rfl⟩ := mem_map.1 hb
    exact (b64Char_spec i (hlt i hi)).2.2.2
  have hlen : (base64EncodeBytes data).length = body.length + k := by simp [htext, asciiText]
  -- read backwards: the padding, then characters of the alphabet
  have hrev : (base64EncodeBytes data).reverse =
      replicate k '=' ++ (asciiText (body.map b64Char)).reverse := by
    rw [htext, reverse_append, reverse_replicate]
  obtain ⟨htake, hdrop⟩ := padding_of_ne fun c hc heq => absurd (heq ▸ hbody c hc) (by decide)
  have hfind : (asciiText (body.map b64Char)).reverse.findIdx? (fun c => !b64Body c) = none := by
    rw [findIdx?_eq_none_iff]
    intro c hc
    simp [hbody c hc]
  rw [preciseCheck, hlen, if_neg (by omega), hrev, takeWhile_append_of_pos (pads_all k),
    dropWhile_append_of_pos (pads_all k), htake, hdrop, append_nil, length_replicate]
  dsimp only
  rw [if_neg (by omega), hfind]

theorem luceeBase64Decode_base64EncodeBytes (precise : Bool) :
    luceeBase64Decode (base64EncodeBytes data) precise = .ok data := by
  have hback := base64DecodeBytes_base64EncodeBytes data
  unfold luceeBase64Decode
  split
  next hempty =>
    rw [List.isEmpty_iff.1 hempty] at hback
    rw [← hback]
    rfl
  next hne =>
    have hdata : ¬ data.isEmpty = true := by
      intro hempty
      rw [List.isEmpty_iff.1 hempty] at hne
      exact hne rfl
    cases precise with
    | false => simp [hback, hdata]
    | true =>
      simp only [if_true, preciseCheck_base64EncodeBytes, hback, if_neg hdata]
      rfl

/-! ## Foreign characters, and the alphabet for URLs -/

def toUrl (c : Char) : Char := if c = '+' then '-' else if c = '/' then '_' else c

def ofUrl (c : Char) : Char := if c = '-' then '+' else if c = '_' then '/' else c

def base64urlEncode (data : List UInt8) : List Char :=
  (((base64EncodeBytes data).map toUrl).reverse.dropWhile (· == '=')).reverse

def base64urlDecode (s : List Char) : List UInt8 :=
  let t := s.map ofUrl
  base64DecodeBytes (t ++ replicate ((4 - (Utf8.encode t).length % 4) % 4) '=')

def urlBody (c : Char) : Bool := c.isAlphanum || c == '-' || c == '_'

/-- In the alphabet or padding; what is not may be put in anywhere. -/
def kept (body : Char → Bool) (c : Char) : Bool := body c || c == '='

lemma b64Valid_ascii : ∀ n < 128, kept b64Body (Char.ofNat n) = false →
    b64Valid (.ofNat n) = false := by decide

lemma filter_encodeChar {c : Char} (h : kept b64Body c = false) :
    (Utf8.encodeChar c).filter b64Valid = [] := by
  refine filter_eq_nil_iff.2 fun b hb => ?_
  rw [Bool.not_eq_true]
  by_cases hc : c.toNat < 0x80
  · rw [Utf8.encodeChar, if_pos hc, mem_singleton] at hb
    rw [hb]
    exact b64Valid_ascii c.toNat hc (by rwa [Char.ofNat_toNat])
  · have hbig := Utf8.le_of_mem_encodeChar (Nat.le_of_not_lt hc) hb
    have hpad : b ≠ pad := by
      rintro rfl
      exact absurd hbig (by decide)
    have hrev : b64Reverse b = none := by
      unfold b64Reverse
      dsimp only
      split_ifs <;> first | omega | rfl
    simp [b64Valid, hpad, hrev]

lemma filter_encode {p : Char → Bool} {f : Char → Char}
    (h : ∀ c, p c = false → kept b64Body (f c) = false)
    (t : List Char) : (Utf8.encode (t.map f)).filter b64Valid =
    (Utf8.encode ((t.filter p).map f)).filter b64Valid := by
  simp only [Utf8.encode]
  induction t with
  | nil => rfl
  | cons c t ih =>
    cases hc : p c with
    | true => simp [hc, ih]
    | false => simp [hc, filter_encodeChar (h c hc), ih]

lemma url_spec : ∀ k < 64, let c := Char.ofNat (b64Char k).toNat
    ofUrl (toUrl c) = c ∧ toUrl c ≠ '=' := by
  decide

def urlTexts (data : List UInt8) : List (List Char) :=
  [(base64EncodeBytes data).map toUrl, base64urlEncode data]

lemma urlTexts_eq (hlt : ∀ i ∈ body, i < 64) {k : Nat}
    (hbytes : base64Bytes data = body.map b64Char ++ replicate k pad) {text : List Char}
    (h : text ∈ urlTexts data) :
    ∃ m, text = (asciiText (body.map b64Char)).map toUrl ++ replicate m '=' := by
  have hpadded : (base64EncodeBytes data).map toUrl =
      (asciiText (body.map b64Char)).map toUrl ++ replicate k '=' := by
    rw [base64EncodeBytes_eq hbytes, map_append, map_replicate]
    rfl
  obtain rfl | rfl : text = _ ∨ text = _ := by simpa [urlTexts] using h
  · exact ⟨k, hpadded⟩
  · refine ⟨0, ?_⟩
    have hne : ∀ c ∈ ((asciiText (body.map b64Char)).map toUrl).reverse, c ≠ '=' := by
      simp only [asciiText, mem_reverse, map_map, mem_map]
      rintro c ⟨i, hi, rfl⟩
      exact (url_spec i (hlt i hi)).2
    rw [base64urlEncode, hpadded, reverse_append, reverse_replicate,
      dropWhile_append_of_pos (pads_all k),
      (padding_of_ne hne).2, reverse_reverse, replicate_zero, append_nil]

/-- **What Base64 writes is read back**, also with other characters in between, in both
alphabets. -/
theorem base64_read_back (data : List UInt8) :
    (∀ t, t.filter (kept b64Body) = base64EncodeBytes data → base64DecodeBytes t = data) ∧
      (∀ t, t.filter (fun c => kept b64Body c || kept urlBody c) ∈ urlTexts data →
        base64urlDecode t = data) ∧
      ∀ chars, (b64Whole chars).1 ++ b64Rest (b64Whole chars).2 = b64Rest chars := by
  obtain ⟨body, k, hbytes, hlt, hk, hmod, hback⟩ := base64Bytes_shape data
  refine ⟨fun t ht => ?_, fun t ht => ?_, b64Rest_whole⟩
  · have hfilter := filter_encode (f := id) (p := kept b64Body) (fun c hc => hc) t
    rw [ht, map_id, map_id, base64EncodeBytes_eq hbytes, filter_letters hlt] at hfilter
    rw [base64DecodeBytes_eq, hfilter, hback]
  · obtain ⟨m, hm⟩ := urlTexts_eq data hlt hbytes ht
    have hfilter :=
      filter_encode (f := ofUrl) (p := fun c => kept b64Body c || kept urlBody c) (fun c hc => by
      obtain ⟨hplain, hurl⟩ := Bool.or_eq_false_iff.1 hc
      simp only [kept, urlBody, Bool.or_eq_false_iff, beq_eq_false_iff_ne] at hurl
      rw [ofUrl, if_neg hurl.1.1.2, if_neg hurl.1.2]
      exact hplain) t
    have hletters : ((asciiText (body.map b64Char)).map toUrl ++ replicate m '=').map ofUrl =
        asciiText (body.map b64Char) ++ replicate m '=' := by
      simp only [asciiText, map_append, map_replicate, map_map]
      exact congrArg (· ++ _) (map_congr_left fun i hi => (url_spec i (hlt i hi)).1)
    rw [hm, hletters, filter_letters hlt] at hfilter
    simp only [base64urlDecode, base64DecodeBytes_eq]
    generalize (4 - (Utf8.encode (t.map ofUrl)).length % 4) % 4 = q
    have hpads : (Utf8.encode (replicate q '=')).filter b64Valid = replicate q pad :=
      @filter_letters [] (by simp) q
    rw [Utf8.encode] at hfilter hpads ⊢
    rw [flatMap_append, filter_append, hfilter, hpads, append_assoc, replicate_append_replicate,
      hback]

/-- A blank and a letter of another script, put into the encoding of two bytes. -/
theorem base64_read_back_inserted : ['A', ' ', 'Q', 'é', 'I', '='].filter (kept b64Body) =
    base64EncodeBytes [1, 2] ∧
    base64DecodeBytes ['A', ' ', 'Q', 'é', 'I', '='] = [1, 2] :=
  ⟨by decide, (base64_read_back [1, 2]).1 _ (by decide)⟩

/-- The decoder for URLs reads the plus of the other alphabet. -/
theorem plus_in_url : ¬∀ data t, t.filter (kept urlBody) = base64urlEncode data →
    base64urlDecode t = data := by
  intro h
  exact absurd (h [0] ['+', 'A', 'A'] (by decide)) (by decide)

/-! ## Hex -/

def hexChar (k : Nat) : UInt8 := if k < 10 then .ofNat (k + 48) else .ofNat (k - 10 + 65)

/-- `to_digit(16)`. -/
def hexVal (b : UInt8) : Option Nat :=
  let c := b.toNat
  if 48 ≤ c ∧ c ≤ 57 then some (c - 48)
  else if 65 ≤ c ∧ c ≤ 70 then some (c - 65 + 10)
  else if 97 ≤ c ∧ c ≤ 102 then some (c - 97 + 10)
  else none

def hexBytes (data : List UInt8) : List UInt8 :=
  data.flatMap fun b => [hexChar (b.toNat / 16), hexChar (b.toNat % 16)]

def hexEncode (data : List UInt8) : List Char := asciiText (hexBytes data)

/-- `u8::from_str_radix(_, 16)` on two bytes; a sign before one digit is accepted. -/
def fromHexPair (a b : UInt8) : Option Nat :=
  if a.toNat = 43 then hexVal b
  else do
    let hi ← hexVal a
    let lo ← hexVal b
    return hi * 16 + lo

/-- The loop of `hex_decode`. -/
def hexPairs : List UInt8 → Except String (List UInt8)
  | a :: b :: rest =>
    match fromHexPair a b with
    | none => .error "Invalid hex: invalid digit found in string"
    | some v => (UInt8.ofNat v :: ·) <$> hexPairs rest
  | _ => .ok []

def hexDecode (s : List Char) : Except String (List UInt8) :=
  let bytes := Utf8.encode (trim s)
  if bytes.length % 2 ≠ 0 then .error "Invalid hex string length" else hexPairs bytes

lemma hexChar_spec : ∀ k < 16, hexVal (hexChar k) = some k ∧ (hexChar k).toNat ≠ 43 ∧
    Printable (hexChar k) ∧ isWhitespace (Char.ofNat (hexChar k).toNat) = false := by
  unfold Printable
  decide

lemma hexPairs_hexBytes : hexPairs (hexBytes data) = .ok data := by
  induction data with
  | nil => rfl
  | cons b data ih =>
    have hlt := b.toNat_lt
    obtain ⟨hhi, hsign, -⟩ := hexChar_spec (b.toNat / 16) (by omega)
    obtain ⟨hlo, -⟩ := hexChar_spec (b.toNat % 16) (by omega)
    have hpair : fromHexPair (hexChar (b.toNat / 16)) (hexChar (b.toNat % 16)) = some b.toNat := by
      have hsum : b.toNat / 16 * 16 + b.toNat % 16 = b.toNat := by omega
      simp [fromHexPair, hsign, hhi, hlo, hsum]
    have hcons : hexBytes (b :: data) =
        hexChar (b.toNat / 16) :: hexChar (b.toNat % 16) :: hexBytes data := rfl
    rw [hcons, hexPairs, hpair]
    dsimp only
    rw [ih, UInt8.ofNat_toNat]
    rfl

lemma spec_of_mem_hexBytes {data : List UInt8} (h : b ∈ hexBytes data) :
    Printable b ∧ isWhitespace (Char.ofNat b.toNat) = false := by
  obtain ⟨x, -, hb⟩ := mem_flatMap.1 h
  have hlt := x.toNat_lt
  simp only [mem_cons, not_mem_nil, or_false] at hb
  obtain rfl | rfl := hb
  · exact (hexChar_spec (x.toNat / 16) (by omega)).2.2
  · exact (hexChar_spec (x.toNat % 16) (by omega)).2.2

lemma trim_of_none (h : ∀ c ∈ cs, isWhitespace c = false) : trim cs = cs := by
  have hdrop : ∀ l : List Char, (∀ c ∈ l, isWhitespace c = false) →
      l.dropWhile isWhitespace = l := by
    intro l hl
    cases l with
    | nil => rfl
    | cons c l => exact dropWhile_cons_of_neg (by simp [hl c mem_cons_self])
  rw [trim, hdrop cs h, hdrop cs.reverse (by simpa using h), reverse_reverse]

theorem hexDecode_hexEncode : hexDecode (hexEncode data) = .ok data := by
  have htrim : trim (hexEncode data) = hexEncode data := by
    apply trim_of_none
    intro c hc
    obtain ⟨b, hb, rfl⟩ := mem_map.1 hc
    exact (spec_of_mem_hexBytes hb).2
  have hbytes : Utf8.encode (hexEncode data) = hexBytes data :=
    encode_asciiText fun b hb => (spec_of_mem_hexBytes hb).1
  have heven : (hexBytes data).length % 2 = 0 := by simp [hexBytes, length_flatMap]
  rw [hexDecode, htrim, hbytes, if_neg (by omega), hexPairs_hexBytes]

end RustCfml.Crypto
