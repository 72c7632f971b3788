import RustCfml.Crypto.Encodings
import RustCfml.Lib.Utf16

/-!
# The ciphers (`cfml-stdlib/src/builtins.rs`, cipher helpers)

The block ciphers are code of other crates and are a parameter, `BlockCiphers`: for each cipher and
key a map on blocks and one back. **Whatever is encrypted under a transformation, a key and an
initialisation vector, is decrypted to what it was under the same** (`runBlockCipher_back`).
-/

namespace RustCfml.Crypto

open Pieces List

/-- The three shift registers of the legacy stream cipher. -/
structure CfmxCompat where
  lfsrA : UInt32
  lfsrB : UInt32
  lfsrC : UInt32

namespace CfmxCompat

def maskA : UInt32 := 0x80000062
def maskB : UInt32 := 0x40000020
def maskC : UInt32 := 0x10000002
def rot0A : UInt32 := 0x7fffffff
def rot0B : UInt32 := 0x3fffffff
def rot0C : UInt32 := 0x0fffffff
def rot1A : UInt32 := 0x80000000
def rot1B : UInt32 := 0xc0000000
def rot1C : UInt32 := 0xf0000000

def initA : UInt32 := 0x13579bdf
def initB : UInt32 := 0x2468ace0
def initC : UInt32 := 0xfdb97531

/-- The seed: the key's UTF-16 units, repeated over the first twelve; an empty key is sized as
`Default Seed` and filled with zeros. -/
def seed (key : List Char) : List Nat :=
  let keyChars := Utf16.encode key
  let sizedLen := if keyChars.isEmpty then 12 else keyChars.length
  let start := keyChars ++ List.replicate (max sizedLen 12 - keyChars.length) 0
  (List.range (12 - keyChars.length)).foldl
    (fun seed i => seed.set (keyChars.length + i) (seed.getD i 0)) start

/-- Four units of the seed, shifted into a register; a register never starts at zero. -/
def feed (init : UInt32) (seed : List Nat) : UInt32 :=
  let lfsr := (List.range 4).foldl
    (fun (lfsr : UInt32) i => (lfsr <<< 8) ||| UInt32.ofNat (seed.getD (i + 4) 0)) init
  if lfsr = 0 then init else lfsr

def new (key : List Char) : CfmxCompat :=
  ⟨feed initA (seed key), feed initB (seed key), feed initC (seed key)⟩

/-- One step of a register, with the bit that it puts out. -/
def clock (lfsr mask rot0 rot1 : UInt32) : UInt32 × UInt32 :=
  if lfsr &&& 1 ≠ 0 then (1, (lfsr ^^^ (mask >>> 1)) ||| rot1) else (0, (lfsr >>> 1) &&& rot0)

/-- One round of `transform_byte`: the first register chooses which of the others is stepped. -/
def round (s : CfmxCompat × UInt32 × UInt32 × UInt8) : CfmxCompat × UInt32 × UInt32 × UInt8 :=
  let (⟨lfsrA, lfsrB, lfsrC⟩, b, c, crypto) := s
  let (bit, lfsrA') := clock lfsrA maskA rot0A rot1A
  if bit ≠ 0 then
    let (b', lfsrB') := clock lfsrB maskB rot0B rot1B
    (⟨lfsrA', lfsrB', lfsrC⟩, b', c, (crypto <<< 1) ||| ((b' ^^^ c).toUInt8 &&& 1))
  else
    let (c', lfsrC') := clock lfsrC maskC rot0C rot1C
    (⟨lfsrA', lfsrB, lfsrC'⟩, b, c', (crypto <<< 1) ||| ((b ^^^ c').toUInt8 &&& 1))

/-- Eight rounds give one byte. -/
def keystream (s : CfmxCompat) : CfmxCompat × UInt8 :=
  let r := (List.range 8).foldl (fun r _ => round r) (s, s.lfsrB &&& 1, s.lfsrC &&& 1, 0)
  (r.1, r.2.2.2)

/-- The same for both directions. -/
def transformByte (s : CfmxCompat) (target : UInt8) : CfmxCompat × UInt8 :=
  (s.keystream.1, target ^^^ s.keystream.2)

def transformFrom (s : CfmxCompat) : List UInt8 → List UInt8
  | [] => []
  | b :: data => (s.transformByte b).2 :: (s.transformByte b).1.transformFrom data

def transform (key : List Char) (data : List UInt8) : List UInt8 := (new key).transformFrom data

lemma transformFrom_transformFrom (data : List UInt8) :
    ∀ s : CfmxCompat, s.transformFrom (s.transformFrom data) = data := by
  induction data with
  | nil => exact fun _ => rfl
  | cons b data ih =>
    intro s
    have hxor : b ^^^ s.keystream.2 ^^^ s.keystream.2 = b := by
      rw [UInt8.xor_assoc, UInt8.xor_self, UInt8.xor_zero]
    simp [transformFrom, transformByte, hxor, ih]

/-- Transforming twice with one key gives the data back. -/
theorem transform_transform (key : List Char) (data : List UInt8) :
    transform key (transform key data) = data := transformFrom_transformFrom data (new key)

end CfmxCompat

/-! ## Padding -/

/-- Always at least one byte, a whole block where the data ends with one. -/
def pkcsPad (data : List UInt8) (block : Nat) : List UInt8 :=
  let pad := block - data.length % block
  data ++ List.replicate pad (.ofNat pad)

def notPadded : String := "Given final block not properly padded"

/-- The last byte says how many there are, and all of them say the same. -/
def pkcsUnpad (data : List UInt8) (block : Nat) : Except String (List UInt8) :=
  match data.getLast? with
  | none => .error notPadded
  | some last =>
    let pad := last.toNat
    if pad = 0 ∨ block < pad ∨ data.length < pad then .error notPadded
    else
      let keep := data.length - pad
      if (data.drop keep).any fun b => b.toNat != pad then .error notPadded
      else .ok (data.take keep)

variable {block : Nat} {data : List UInt8}

lemma length_pkcsPad (hblock : 1 ≤ block) (data : List UInt8) :
    (pkcsPad data block).length % block = 0 := by
  have hlt : data.length % block < block := Nat.mod_lt _ hblock
  have hsum : data.length + (block - data.length % block) = block * (data.length / block + 1) := by
    have := Nat.div_add_mod data.length block
    rw [Nat.mul_add, Nat.mul_one]
    omega
  rw [pkcsPad, length_append, length_replicate, hsum, Nat.mul_mod_right]

lemma pkcsUnpad_pkcsPad (hblock : 1 ≤ block) (hsmall : block < 256) (data : List UInt8) :
    pkcsUnpad (pkcsPad data block) block = .ok data := by
  obtain ⟨pad, hpad⟩ : ∃ pad, pad = block - data.length % block := ⟨_, rfl⟩
  have hlt : data.length % block < block := Nat.mod_lt _ hblock
  have hpos : 1 ≤ pad := by omega
  have hle : pad ≤ block := by omega
  have hbyte : (UInt8.ofNat pad).toNat = pad := Utf8.toNat_byte (by omega)
  have hlast : (data ++ replicate pad (UInt8.ofNat pad)).getLast? = some (.ofNat pad) := by
    obtain ⟨k, rfl⟩ : ∃ k, pad = k + 1 := ⟨pad - 1, by omega⟩
    rw [replicate_succ', ← append_assoc, getLast?_concat]
  rw [pkcsPad, ← hpad, pkcsUnpad, hlast]
  dsimp only
  rw [hbyte, length_append, length_replicate, Nat.add_sub_cancel, drop_left, take_left,
    if_neg (by omega), if_neg]
  simp [hbyte]

/-- The block ciphers of the crates, by key size. -/
inductive Cipher where
  | aes128
  | aes192
  | aes256
  | des
  | tdesEde3
  | blowfish
deriving DecidableEq

def Cipher.blockSize : Cipher → Nat
  | .aes128 | .aes192 | .aes256 => 16
  | .des | .tdesEde3 | .blowfish => 8

/-- The key lengths that `new_from_slice` takes. -/
def Cipher.takesKey : Cipher → Nat → Bool
  | .aes128, n => n == 16
  | .aes192, n => n == 24
  | .aes256, n => n == 32
  | .des, n => n == 8
  | .tdesEde3, n => n == 24
  | .blowfish, n => 4 ≤ n && n ≤ 56

/-- The block ciphers of the crates: `encrypt_block` and `decrypt_block` work in place, so they keep
the length. -/
structure BlockCiphers where
  encryptBlock : Cipher → List UInt8 → List UInt8 → List UInt8
  decryptBlock : Cipher → List UInt8 → List UInt8 → List UInt8
  length_encryptBlock : ∀ cipher key block, (encryptBlock cipher key block).length = block.length
  length_decryptBlock : ∀ cipher key block, (decryptBlock cipher key block).length = block.length

/-- What is assumed of the ciphers: a block is recovered with the key it was made with. -/
def BlockCiphers.Inverts (S : BlockCiphers) : Prop :=
  ∀ cipher key block, cipher.takesKey key.length = true → block.length = cipher.blockSize →
    S.decryptBlock cipher key (S.encryptBlock cipher key block) = block

inductive BlockAlgo where
  | aes
  | des
  | desEde
  | blowfish
deriving DecidableEq

namespace BlockAlgo

def parse (name : String) : Option BlockAlgo :=
  if name = "AES" then some .aes
  else if name = "DES" then some .des
  else if name = "DESEDE" ∨ name = "DESEDE3" ∨ name = "TRIPLEDES" then some .desEde
  else if name = "BLOWFISH" then some .blowfish
  else none

def label : BlockAlgo → String
  | .aes => "AES"
  | .des => "DES"
  | .desEde => "DESEDE"
  | .blowfish => "BLOWFISH"

def blockSize : BlockAlgo → Nat
  | .aes => 16
  | _ => 8

/-- The length a passphrase is cut or filled up to. -/
def targetKeyLen : BlockAlgo → Nat
  | .aes => 16
  | .des => 8
  | .desEde => 24
  | .blowfish => 16

/-- The lengths a decoded key may have. -/
def acceptsKeyLen : BlockAlgo → Nat → Bool
  | .aes, len => len == 16 || len == 24 || len == 32
  | .des, len => len == 8
  | .desEde, len => len == 16 || len == 24
  | .blowfish, len => 4 ≤ len && len ≤ 56

end BlockAlgo

inductive CipherMode where
  | ecb
  | cbc
deriving DecidableEq

/-- An algorithm string, as in `AES/CBC/PKCS5Padding`. -/
structure Transformation where
  algo : BlockAlgo
  mode : CipherMode
  padded : Bool

def xorBlock (a b : List UInt8) : List UInt8 := List.zipWith (· ^^^ ·) a b

section

variable (S : BlockCiphers) (cipher : Cipher) (key : List UInt8)

def ecbEncrypt (data : List UInt8) : List UInt8 :=
  ((chunks cipher.blockSize data).map (S.encryptBlock cipher key)).flatten

def ecbDecrypt (data : List UInt8) : List UInt8 :=
  ((chunks cipher.blockSize data).map (S.decryptBlock cipher key)).flatten

/-- Each block is XORed with the one before it, encrypted, and the first with the vector. -/
def cbcEncryptFrom : List UInt8 → List (List UInt8) → List (List UInt8)
  | _, [] => []
  | prev, b :: blocks =>
    S.encryptBlock cipher key (xorBlock b prev) ::
      cbcEncryptFrom (S.encryptBlock cipher key (xorBlock b prev)) blocks

/-- Each block is decrypted and XORed with the ciphertext before it. -/
def cbcDecryptFrom : List UInt8 → List (List UInt8) → List (List UInt8)
  | _, [] => []
  | prev, b :: blocks => xorBlock (S.decryptBlock cipher key b) prev :: cbcDecryptFrom b blocks

def cbcEncrypt (iv data : List UInt8) : List UInt8 :=
  (cbcEncryptFrom S cipher key iv (chunks cipher.blockSize data)).flatten

def cbcDecrypt (iv data : List UInt8) : List UInt8 :=
  (cbcDecryptFrom S cipher key iv (chunks cipher.blockSize data)).flatten

/-- The body of the macro that is made for each cipher: pad, or check, then run the mode. -/
def cipherOps (t : Transformation) (iv data : List UInt8) (encrypt : Bool) :
    Except String (List UInt8) :=
  let block := t.algo.blockSize
  if !t.padded && data.length % block != 0 then
    .error s!"Input length not multiple of {block} bytes"
  else if !cipher.takesKey key.length then .error s!"{t.algo.label} init error: Invalid Length"
  else
    match t.mode with
    | .ecb =>
      if encrypt then
        .ok (ecbEncrypt S cipher key (if t.padded then pkcsPad data block else data))
      else if data.length % block != 0 then .error "a block that is not whole"
      else
        let out := ecbDecrypt S cipher key data
        if t.padded then pkcsUnpad out block else .ok out
    | .cbc =>
      if iv.length != block then .error s!"{t.algo.label} init error: Invalid Length"
      else if encrypt then
        .ok (cbcEncrypt S cipher key iv (if t.padded then pkcsPad data block else data))
      else
        let failed := s!"{t.algo.label} decryption error: Unpad Error"
        if data.length % block != 0 then .error failed
        else
          let out := cbcDecrypt S cipher key iv data
          if t.padded then (pkcsUnpad out block).mapError fun _ => failed else .ok out

end

/-- A two-key triple DES key, with its first part again at the end. -/
def fullKey (key : List UInt8) : List UInt8 := if key.length = 16 then key ++ key.take 8 else key

def runBlockCipher (S : BlockCiphers) (t : Transformation) (key iv data : List UInt8)
    (encrypt : Bool) :
    Except CfmlError (List UInt8) :=
  Except.mapError CfmlError.runtime <|
    match t.algo with
    | .aes =>
      if key.length = 16 then cipherOps S .aes128 key t iv data encrypt
      else if key.length = 24 then cipherOps S .aes192 key t iv data encrypt
      else if key.length = 32 then cipherOps S .aes256 key t iv data encrypt
      else .error s!"Invalid AES key length: {key.length} bytes (expected 16, 24, or 32)"
    | .des => cipherOps S .des key t iv data encrypt
    | .desEde => cipherOps S .tdesEde3 (fullKey key) t iv data encrypt
    | .blowfish => cipherOps S .blowfish key t iv data encrypt

/-! ## Decrypting undoes encrypting -/

lemma Cipher.blockSize_pos (cipher : Cipher) : 1 ≤ cipher.blockSize := by cases cipher <;> decide

lemma Cipher.blockSize_lt (cipher : Cipher) : cipher.blockSize < 256 := by cases cipher <;> decide

lemma length_xorBlock {a b : List UInt8} (h : a.length = b.length) :
    (xorBlock a b).length = a.length := by
  rw [xorBlock, length_zipWith, h, Nat.min_self]

lemma xorBlock_xorBlock : ∀ (a b : List UInt8), a.length = b.length → xorBlock (xorBlock a b) b = a
  | [], [], _ => rfl
  | x :: a, y :: b, h => by
    have ih := xorBlock_xorBlock a b (Nat.succ.inj h)
    have hxor : x ^^^ y ^^^ y = x := by rw [UInt8.xor_assoc, UInt8.xor_self, UInt8.xor_zero]
    simp only [xorBlock, zipWith_cons_cons, hxor] at ih ⊢
    rw [ih]

section

variable {S : BlockCiphers} {cipher : Cipher} {key iv : List UInt8}

lemma length_flatten_blocks {n : Nat} : ∀ (blocks : List (List UInt8)),
    (∀ b ∈ blocks, b.length = n) →
    blocks.flatten.length % n = 0
  | [], _ => by simp
  | b :: blocks, h => by
    have ih := length_flatten_blocks blocks (forall_mem_cons.1 h).2
    rw [flatten_cons, length_append, h b mem_cons_self, Nat.add_mod_left, ih]

lemma chunks_ecbEncrypt (hdata : data.length % cipher.blockSize = 0) :
    chunks cipher.blockSize (ecbEncrypt S cipher key data) =
        (chunks cipher.blockSize data).map (S.encryptBlock cipher key) ∧
      (ecbEncrypt S cipher key data).length % cipher.blockSize = 0 := by
  have hlen : ∀ b ∈ (chunks cipher.blockSize data).map (S.encryptBlock cipher key),
      b.length = cipher.blockSize := by
    intro b hb
    obtain ⟨p, hp, rfl⟩ := mem_map.1 hb
    rw [S.length_encryptBlock, length_of_mem_chunks cipher.blockSize_pos data hdata p hp]
  exact ⟨chunks_flatten cipher.blockSize_pos _ hlen, length_flatten_blocks _ hlen⟩

lemma ecbDecrypt_ecbEncrypt (hinv : S.Inverts) (hkey : cipher.takesKey key.length = true)
    (hdata : data.length % cipher.blockSize = 0) :
    ecbDecrypt S cipher key (ecbEncrypt S cipher key data) = data := by
  have hback : ∀ p ∈ chunks cipher.blockSize data,
      (S.decryptBlock cipher key ∘ S.encryptBlock cipher key) p = p := fun p hp =>
    hinv cipher key p hkey (length_of_mem_chunks cipher.blockSize_pos data hdata p hp)
  rw [ecbDecrypt, (chunks_ecbEncrypt hdata).1, map_map, map_congr_left hback, map_id',
    flatten_chunks cipher.blockSize_pos]

lemma length_cbcEncryptFrom : ∀ (blocks : List (List UInt8)) (prev : List UInt8),
    prev.length = cipher.blockSize → (∀ b ∈ blocks, b.length = cipher.blockSize) →
      ∀ b ∈ cbcEncryptFrom S cipher key prev blocks, b.length = cipher.blockSize
  | [], _, _, _ => by simp [cbcEncryptFrom]
  | p :: blocks, prev, hprev, h => by
    have hp := h p mem_cons_self
    have hfirst : (S.encryptBlock cipher key (xorBlock p prev)).length = cipher.blockSize := by
      rw [S.length_encryptBlock, length_xorBlock (by rw [hp, hprev]), hp]
    intro b hb
    obtain rfl | hb := mem_cons.1 hb
    · exact hfirst
    · exact length_cbcEncryptFrom blocks _ hfirst (forall_mem_cons.1 h).2 b hb

lemma cbcDecryptFrom_cbcEncryptFrom (hinv : S.Inverts) (hkey : cipher.takesKey key.length = true) :
    ∀ (blocks : List (List UInt8)) (prev : List UInt8), prev.length = cipher.blockSize →
      (∀ b ∈ blocks, b.length = cipher.blockSize) →
      cbcDecryptFrom S cipher key prev (cbcEncryptFrom S cipher key prev blocks) = blocks
  | [], _, _, _ => rfl
  | p :: blocks, prev, hprev, h => by
    have hp := h p mem_cons_self
    have hxor :
      (xorBlock p prev).length = cipher.blockSize := by rw [length_xorBlock (by rw [hp, hprev]), hp]
    have hnext : (S.encryptBlock cipher key (xorBlock p prev)).length = cipher.blockSize := by
      rw [S.length_encryptBlock, hxor]
    have ih := cbcDecryptFrom_cbcEncryptFrom hinv hkey blocks _ hnext
      (forall_mem_cons.1 h).2
    rw [cbcEncryptFrom, cbcDecryptFrom, ih, hinv cipher key _ hkey hxor,
      xorBlock_xorBlock p prev (by rw [hp, hprev])]

lemma chunks_cbcEncrypt (hiv : iv.length = cipher.blockSize)
    (hdata : data.length % cipher.blockSize = 0) :
    chunks cipher.blockSize (cbcEncrypt S cipher key iv data) =
        cbcEncryptFrom S cipher key iv (chunks cipher.blockSize data) ∧
      (cbcEncrypt S cipher key iv data).length % cipher.blockSize = 0 := by
  have hlen := @length_cbcEncryptFrom S cipher key (chunks cipher.blockSize data) iv hiv
    (length_of_mem_chunks cipher.blockSize_pos data hdata)
  exact ⟨chunks_flatten cipher.blockSize_pos _ hlen, length_flatten_blocks _ hlen⟩

lemma cbcDecrypt_cbcEncrypt (hinv : S.Inverts) (hkey : cipher.takesKey key.length = true)
    (hiv : iv.length = cipher.blockSize) (hdata : data.length % cipher.blockSize = 0) :
    cbcDecrypt S cipher key iv (cbcEncrypt S cipher key iv data) = data := by
  rw [cbcDecrypt, (chunks_cbcEncrypt hiv hdata).1, cbcDecryptFrom_cbcEncryptFrom hinv hkey _ _ hiv
      (length_of_mem_chunks cipher.blockSize_pos data hdata), flatten_chunks cipher.blockSize_pos]

variable {t : Transformation} {out : List UInt8}

lemma length_prepared (hpad : t.padded = false → data.length % cipher.blockSize = 0) :
    (if t.padded then pkcsPad data cipher.blockSize else data).length % cipher.blockSize = 0 := by
  split
  · exact length_pkcsPad cipher.blockSize_pos data
  next hno => exact hpad (by simpa using hno)

/-- **What one cipher encrypts it decrypts**, in either mode, padded or not. -/
theorem cipherOps_back (hinv : S.Inverts) (hblock : t.algo.blockSize = cipher.blockSize)
    (h : cipherOps S cipher key t iv data true = .ok out) :
    cipherOps S cipher key t iv out false = .ok data := by
  unfold cipherOps at h ⊢
  dsimp only at h ⊢
  rw [hblock] at h ⊢
  split at h
  · cases h
  next hwhole =>
    split at h
    · cases h
    next hkey =>
      have hkey : cipher.takesKey key.length = true := by simpa using hkey
      have hdata : t.padded = false → data.length % cipher.blockSize = 0 := by
        intro hno
        simpa [hno] using hwhole
      have hprep := @length_prepared data cipher t hdata
      cases hmode : t.mode with
      | ecb =>
        rw [hmode] at h
        dsimp only at h ⊢
        rw [if_pos rfl] at h
        cases h
        obtain ⟨-, hlen⟩ := @chunks_ecbEncrypt _ S cipher key hprep
        have hback := ecbDecrypt_ecbEncrypt hinv hkey hprep
        rw [if_neg (by simp [hlen]), if_neg (by simp [hkey]), if_neg (by decide),
          if_neg (by simp [hlen]), hback]
        split
        · exact pkcsUnpad_pkcsPad cipher.blockSize_pos cipher.blockSize_lt data
        · rfl
      | cbc =>
        rw [hmode] at h
        dsimp only at h ⊢
        split at h
        · cases h
        next hiv =>
          have hiv : iv.length = cipher.blockSize := by simpa using hiv
          rw [if_pos rfl] at h
          cases h
          obtain ⟨-, hlen⟩ := @chunks_cbcEncrypt _ S cipher key iv hiv hprep
          have hback := cbcDecrypt_cbcEncrypt hinv hkey hiv hprep
          rw [if_neg (by simp [hlen]), if_neg (by simp [hkey]), if_neg (by simp [hiv]),
            if_neg (by decide), if_neg (by simp [hlen]), hback]
          split
          · rw [pkcsUnpad_pkcsPad cipher.blockSize_pos cipher.blockSize_lt data]
            rfl
          · rfl

lemma mapError_eq_ok {ε ε' α : Type} {f : ε → ε'} {x : Except ε α} {a : α} :
    Except.mapError f x = .ok a ↔ x = .ok a := by
  cases x <;> simp [Except.mapError]

/-- The same behind the choice of the cipher by algorithm and key length. -/
theorem runBlockCipher_back (hinv : S.Inverts) (h : runBlockCipher S t key iv data true = .ok out) :
    runBlockCipher S t key iv out false = .ok data := by
  unfold runBlockCipher at h ⊢
  rw [mapError_eq_ok] at h ⊢
  cases halgo : t.algo with
  | aes =>
    rw [halgo] at h
    dsimp only at h ⊢
    by_cases h16 : key.length = 16
    · rw [if_pos h16] at h ⊢
      exact cipherOps_back hinv (by rw [halgo]; rfl) h
    · rw [if_neg h16] at h ⊢
      by_cases h24 : key.length = 24
      · rw [if_pos h24] at h ⊢
        exact cipherOps_back hinv (by rw [halgo]; rfl) h
      · rw [if_neg h24] at h ⊢
        by_cases h32 : key.length = 32
        · rw [if_pos h32] at h ⊢
          exact cipherOps_back hinv (by rw [halgo]; rfl) h
        · rw [if_neg h32] at h
          cases h
  | des | desEde | blowfish =>
    rw [halgo] at h
    exact cipherOps_back hinv (by rw [halgo]; rfl) h

end

end RustCfml.Crypto
