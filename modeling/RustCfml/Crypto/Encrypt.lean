import RustCfml.Crypto.Ciphers
import RustCfml.Lib.Fallible
import RustCfml.Lib.Uppercase

/-!
# `encrypt` and `decrypt` (`cfml-stdlib/src/builtins.rs`)

Both resolve the algorithm, the key and the encoding from the same arguments, so **what one of them
was given is what the other gets** (`fnDecrypt_fnEncrypt`): the parts are `runBlockCipher_back`,
`transform_transform`, the three encodings, and that text is found again in its UTF-8.
-/

namespace RustCfml.Crypto

open Uppercase List

def splitSlash : List Char → List (List Char)
  | [] => [[]]
  | c :: cs =>
    if c = '/' then [] :: splitSlash cs
    else
      match splitSlash cs with
      | [] => [[c]]
      | part :: parts => (c :: part) :: parts

/-- `ok_or_else`. -/
def orError {α : Type} (x : Option α) (e : CfmlError) : Except CfmlError α :=
  match x with
  | some a => .ok a
  | none => .error e

def CipherMode.parse : Option String → Option CipherMode
  | none => some .ecb
  | some name =>
    if name = "" ∨ name = "ECB" then some .ecb else if name = "CBC" then some .cbc else none

def parsePadding : Option String → Option Bool
  | none => some true
  | some name =>
    if name = "" ∨ name = "PKCS5PADDING" ∨ name = "PKCS7PADDING" then some true
    else if name = "NOPADDING" then some false
    else none

def Transformation.parse (U : UpperTable) (spec verb : String) :
    Except CfmlError Transformation := do
  let upper := toUppercase U spec
  let parts := (splitSlash upper.toList).map String.ofList
  let algo ← orError (BlockAlgo.parse (parts.getD 0 ""))
    (.runtime s!"Unsupported {verb} algorithm: {upper}")
  let modeName := parts.getD 1 ""
  let mode ← orError (CipherMode.parse parts[1]?) (.runtime
    s!"Unsupported {verb} mode [{modeName}] in [{upper}]: RustCFML implements ECB and CBC")
  let paddingName := parts.getD 2 ""
  let padded ← orError (parsePadding parts[2]?) (.runtime
    (s!"Unsupported {verb} padding [{paddingName}] in [{upper}]: " ++
      "RustCFML implements PKCS5Padding, PKCS7Padding and NoPadding"))
  return ⟨algo, mode, padded⟩

/-- No algorithm, or the legacy one: there is no block cipher behind it. -/
def isCfmxCompat (algorithm : String) : Bool :=
  (trim algorithm.toList).isEmpty || eqIgnoreAsciiCase algorithm "cfmx_compat"

/-- The key's own bytes, cut or filled up with zeros. -/
def rawKey (key : String) (algo : BlockAlgo) : List UInt8 :=
  let bytes := Utf8.encode key.toList
  bytes.take algo.targetKeyLen ++ List.replicate (algo.targetKeyLen - bytes.length) 0

/-- A key of eight units or more is Base64 of a length that the algorithm takes; another one is used
raw, or refused if `precise`. -/
def resolveCipherKey (key : String) (algo : BlockAlgo) (precise : Bool) :
    Except CfmlError (List UInt8) :=
  if (Utf16.encode key.toList).length < 8 then .ok (rawKey key algo)
  else
    match luceeBase64Decode key.toList precise with
    | .ok decoded =>
      if algo.acceptsKeyLen decoded.length then .ok decoded
      else if precise then .error (.custom "java.lang.RuntimeException"
        s!"Invalid key length for {algo.label}: {decoded.length} bytes")
      else .ok (rawKey key algo)
    | .error e => if precise then .error e else .ok (rawKey key algo)

/-- The arguments that `encrypt` and `decrypt` share. -/
structure CipherArgs where
  key : String
  /-- Empty when it is not given. -/
  algorithm : String
  encoding : Option String
  /-- `cipher_iv_arg`. -/
  iv : Option (List UInt8)
  /-- `cipher_precise_arg`. -/
  precise : Bool

def CipherArgs.encodingName (U : UpperTable) (args : CipherArgs) : String :=
  match args.encoding with
  | some name => toUppercase U name
  | none => "UU"

/-- Where the system gives no random bytes the call fails. -/
def randomIv (random : Option (Nat → UInt8)) (len : Nat) : Except CfmlError (List UInt8) :=
  match random with
  | some next => .ok ((List.range len).map next)
  | none =>
    .error (.runtime ("A feedback-mode cipher (e.g. AES/CBC) with no explicit IV needs a secure " ++
      "random source: rebuild with the `security` feature, or pass an IV."))

def wrongIvLength (block : Nat) : CfmlError :=
  .runtime s!"Wrong IV length: must be {block} bytes long"

def unsupportedEncoding (encoding : String) : CfmlError :=
  .runtime s!"Unsupported encoding: {encoding}"

def encodeBytes (encoding : String) (ciphertext : List UInt8) : Except CfmlError (List Char) :=
  if encoding = "UU" then .ok (uuEncode ciphertext)
  else if encoding = "BASE64" then .ok (base64EncodeBytes ciphertext)
  else if encoding = "HEX" then .ok (hexEncode ciphertext)
  else .error (unsupportedEncoding encoding)

def decodeBytes (encoding : String) (encoded : List Char) (precise : Bool) :
    Except CfmlError (List UInt8) :=
  if encoding = "UU" then .ok (uuDecode encoded)
  else if encoding = "BASE64" then luceeBase64Decode encoded precise
  else if encoding = "HEX" then (hexDecode encoded).mapError .runtime
  else .error (unsupportedEncoding encoding)

section

variable (S : BlockCiphers) (U : UpperTable) (random : Option (Nat → UInt8))

/-- The vector, and whether it is put in front of the ciphertext. -/
def encryptIv (args : CipherArgs) (t : Transformation) : Except CfmlError (List UInt8 × Bool) :=
  match args.iv, t.mode with
  | some iv, _ => .ok (iv, false)
  | none, .cbc => (·, true) <$> randomIv random t.algo.blockSize
  | none, .ecb => .ok ([], false)

/-- The vector that was given, or the first block of the ciphertext. -/
def decryptIv (args : CipherArgs) (t : Transformation) (ciphertext : List UInt8) :
    Except CfmlError (List UInt8 × List UInt8) :=
  match args.iv, t.mode with
  | some iv, _ => .ok (iv, ciphertext)
  | none, .cbc =>
    if ciphertext.length < t.algo.blockSize then
      .error (.runtime (s!"Input too short: a {t.algo.label} ciphertext carries its " ++
        s!"{t.algo.blockSize}-byte IV in the first block"))
    else .ok (ciphertext.take t.algo.blockSize, ciphertext.drop t.algo.blockSize)
  | none, .ecb => .ok ([], ciphertext)

/-- Only the chained mode has a vector, of one block. -/
def checkIv (t : Transformation) (iv : List UInt8) : Except CfmlError Unit :=
  if t.mode ≠ .ecb ∧ iv.length ≠ t.algo.blockSize then .error (wrongIvLength t.algo.blockSize)
  else .ok ()

def encryptBytes (args : CipherArgs) (plain : List UInt8) : Except CfmlError (List UInt8) :=
  if isCfmxCompat args.algorithm then .ok (CfmxCompat.transform args.key.toList plain)
  else do
    let t ← Transformation.parse U args.algorithm "encryption"
    let key ← resolveCipherKey args.key t.algo args.precise
    let iv ← encryptIv random args t
    checkIv t iv.1
    let out ← runBlockCipher S t key iv.1 plain true
    return if iv.2 then iv.1 ++ out else out

def decryptBytes (args : CipherArgs) (ciphertext : List UInt8) : Except CfmlError (List UInt8) :=
  if isCfmxCompat args.algorithm then .ok (CfmxCompat.transform args.key.toList ciphertext)
  else do
    let t ← Transformation.parse U args.algorithm "decryption"
    let key ← resolveCipherKey args.key t.algo args.precise
    let body ← decryptIv args t ciphertext
    checkIv t body.1
    runBlockCipher S t key body.1 body.2 false

def fnEncrypt (plaintext : String) (args : CipherArgs) : Except CfmlError String := do
  let ciphertext ← encryptBytes S U random args (Utf8.encode plaintext.toList)
  let encoded ← encodeBytes (args.encodingName U) ciphertext
  return .ofList encoded

def fnDecrypt (encoded : String) (args : CipherArgs) : Except CfmlError String := do
  let ciphertext ← decodeBytes (args.encodingName U) encoded.toList args.precise
  let plain ← decryptBytes S U args ciphertext
  return .ofList (Utf8.lossy plain)

end

lemma decodeBytes_encodeBytes {encoding : String} {bytes : List UInt8} {encoded : List Char}
    (h : encodeBytes encoding bytes = .ok encoded) (precise : Bool) :
    decodeBytes encoding encoded precise = .ok bytes := by
  unfold encodeBytes at h
  unfold decodeBytes
  by_cases huu : encoding = "UU"
  · rw [if_pos huu] at h ⊢
    cases h
    rw [uuDecode_uuEncode]
  · rw [if_neg huu] at h ⊢
    by_cases hb64 : encoding = "BASE64"
    · rw [if_pos hb64] at h ⊢
      cases h
      exact luceeBase64Decode_base64EncodeBytes bytes precise
    · rw [if_neg hb64] at h ⊢
      by_cases hhex : encoding = "HEX"
      · rw [if_pos hhex] at h ⊢
        cases h
        rw [hexDecode_hexEncode]
        rfl
      · rw [if_neg hhex] at h
        cases h

lemma orError_eq_ok {α : Type} {x : Option α} {e : CfmlError} {a : α} : orError x e = .ok a ↔
    x = some a := by
  cases x <;> simp [orError]

lemma parse_verb {U : UpperTable} {spec verb : String} {t : Transformation}
    (h : Transformation.parse U spec verb = .ok t) (verb' : String) :
    Transformation.parse U spec verb' = .ok t := by
  unfold Transformation.parse at h ⊢
  obtain ⟨algo, halgo, h⟩ := Fallible.bind_eq_ok h
  obtain ⟨mode, hmode, h⟩ := Fallible.bind_eq_ok h
  obtain ⟨padded, hpadded, h⟩ := Fallible.bind_eq_ok h
  rw [orError_eq_ok] at halgo hmode hpadded
  dsimp only
  rw [halgo, hmode, hpadded]
  exact h

variable {S : BlockCiphers} {U : UpperTable} {random : Option (Nat → UInt8)} {args : CipherArgs}

lemma decryptIv_encryptIv {t : Transformation} {iv : List UInt8 × Bool}
    (h : encryptIv random args t = .ok iv) (out : List UInt8) :
    decryptIv args t (if iv.2 then iv.1 ++ out else out) = .ok (iv.1, out) := by
  unfold encryptIv at h
  unfold decryptIv
  cases hgiven : args.iv with
  | some given =>
    rw [hgiven] at h
    cases h
    rfl
  | none =>
    rw [hgiven] at h
    cases hmode : t.mode with
    | ecb =>
      rw [hmode] at h
      cases h
      rfl
    | cbc =>
      rw [hmode] at h
      dsimp only at h ⊢
      cases random with
      | none => cases h
      | some next =>
        cases h
        have hlen : ((range t.algo.blockSize).map next).length = t.algo.blockSize := by simp
        rw [if_pos rfl, if_neg (by rw [length_append, hlen]; omega)]
        rw [take_left' hlen, drop_left' hlen]

lemma decryptBytes_encryptBytes (hinv : S.Inverts) {plain ciphertext : List UInt8}
    (h : encryptBytes S U random args plain = .ok ciphertext) :
    decryptBytes S U args ciphertext = .ok plain := by
  unfold encryptBytes at h
  unfold decryptBytes
  split
  next hcompat =>
    rw [if_pos hcompat] at h
    cases h
    rw [CfmxCompat.transform_transform]
  next hcompat =>
    rw [if_neg hcompat] at h
    obtain ⟨t, ht, h⟩ := Fallible.bind_eq_ok h
    obtain ⟨key, hkey, h⟩ := Fallible.bind_eq_ok h
    obtain ⟨iv, hiv, h⟩ := Fallible.bind_eq_ok h
    obtain ⟨u, hcheck, h⟩ := Fallible.bind_eq_ok h
    obtain ⟨out, hout, h⟩ := Fallible.bind_eq_ok h
    cases h
    rw [parse_verb ht]
    simp only [Except.bind, bind]
    rw [hkey]
    dsimp only
    rw [decryptIv_encryptIv hiv out]
    dsimp only
    rw [hcheck]
    exact runBlockCipher_back hinv hout

/-- **The text comes back.** -/
theorem fnDecrypt_fnEncrypt (hinv : S.Inverts) {text encoded : String}
    (h : fnEncrypt S U random text args = .ok encoded) : fnDecrypt S U encoded args = .ok text := by
  obtain ⟨ciphertext, hcipher, h⟩ := Fallible.bind_eq_ok h
  obtain ⟨chars, hchars, h⟩ := Fallible.bind_eq_ok h
  cases h
  have hdecoded := decodeBytes_encodeBytes hchars args.precise
  have hplain := decryptBytes_encryptBytes hinv hcipher
  unfold fnDecrypt
  rw [String.toList_ofList, hdecoded]
  simp only [Except.bind, bind]
  rw [hplain]
  simp [Utf8.lossy_encode]
  rfl

def xorCiphers : BlockCiphers where
  encryptBlock _ key block := block.map (· ^^^ key.getD 0 0)
  decryptBlock _ key block := block.map (· ^^^ key.getD 0 0)
  length_encryptBlock _ _ _ := length_map _
  length_decryptBlock _ _ _ := length_map _

lemma xorCiphers_inverts : xorCiphers.Inverts := by
  intro cipher key block _ _
  have hxor : ∀ x : UInt8, ((· ^^^ key.getD 0 0) ∘ (· ^^^ key.getD 0 0)) x = x := by
    intro x
    exact (UInt8.xor_assoc x _ _).trans (by rw [UInt8.xor_self, UInt8.xor_zero])
  change map _ (map _ block) = block
  rw [map_map]
  exact (map_congr_left fun x _ => hxor x).trans (map_id' block)

def cbcArgs : CipherArgs := ⟨"secret", "AES/CBC/PKCS5Padding", some "Base64", none, true⟩

theorem fnDecrypt_fnEncrypt_cbc : ∃ encoded,
    fnEncrypt xorCiphers .asciiLetters (some UInt8.ofNat) "text" cbcArgs = .ok encoded ∧
      fnDecrypt xorCiphers .asciiLetters encoded cbcArgs = .ok "text" := by
  have hok : (fnEncrypt xorCiphers .asciiLetters (some UInt8.ofNat) "text" cbcArgs).isOk =
      true := by
    decide +kernel
  cases h : fnEncrypt xorCiphers .asciiLetters (some UInt8.ofNat) "text" cbcArgs with
  | error e =>
    rw [h] at hok
    cases hok
  | ok encoded => exact ⟨encoded, rfl, fnDecrypt_fnEncrypt xorCiphers_inverts h⟩

end RustCfml.Crypto
