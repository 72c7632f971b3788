import RustCfml.Common.Key
import RustCfml.Lib.Comparator
import RustCfml.Lib.Pieces
import RustCfml.Lib.Utf8

/-!
# The identity of a key (`key.rs`)

A key carries a hash of its name that folds case eight bytes at a time. **The hash and the pointer
in front of the comparison never decide it**, the order compares the same folded bytes, and the map
over such keys is the `ValueMap` over their names (`names_insert`). -/

namespace RustCfml

open List Utf8 Pieces Comparator

def fxSeed : BitVec 64 := 0x517cc1b727220a95

def caseBit : BitVec 64 := 0x2020202020202020

/-- `u64::from_le_bytes` of the bytes and zeros behind them. -/
def leWord : List UInt8 → BitVec 64
  | [] => 0
  | b :: bs => b.toBitVec.setWidth 64 ||| leWord bs <<< 8

/-- The case bits of a whole chunk, and of the bytes that are there of the last one. -/
def caseBits (n : Nat) : BitVec 64 := if n = 8 then caseBit else caseBit &&& (1 <<< (n * 8) - 1)

def words (bytes : List UInt8) : List (BitVec 64) :=
  (chunks 8 bytes).map fun c => leWord c ||| caseBits c.length

def mix (h w : BitVec 64) : BitVec 64 := (h.rotateLeft 5 ^^^ w) * fxSeed

def asBytes (s : String) : List UInt8 := encode s.toList

def foldHash (key : String) : BitVec 64 :=
  (words (asBytes key)).foldl mix (.ofNat 64 (asBytes key).length)

/-- What the loop has behind each chunk. -/
def foldHashes (key : String) : List (BitVec 64) :=
  (words (asBytes key)).scanl mix (.ofNat 64 (asBytes key).length)

lemma lowerByte_or (b : UInt8) : lowerByte b ||| 0x20 = b ||| 0x20 := by
  have hall : ∀ n < 256, lowerByte (.ofNat n) ||| 0x20 = .ofNat n ||| 0x20 := by decide +kernel
  simpa using hall b.toNat b.toNat_lt

lemma leWord_or : ∀ c : List UInt8, leWord c ||| leWord (replicate c.length 0x20) =
    leWord (c.map (· ||| 0x20))
  | [] => rfl
  | b :: c => by
    rw [map_cons, leWord, leWord, ← leWord_or c, length_cons, replicate_succ, leWord]
    simp only [BitVec.shiftLeft_or_distrib, UInt8.toBitVec_or, BitVec.setWidth_or]
    ac_rfl

lemma caseBits_eq : ∀ n ≤ 8, caseBits n = leWord (replicate n 0x20) := by decide

lemma word_lower {c : List UInt8} (h : c.length ≤ 8) :
    leWord (c.map lowerByte) ||| caseBits (c.map lowerByte).length =
    leWord c ||| caseBits c.length := by
  have hlower := leWord_or (c.map lowerByte)
  rw [length_map, map_map] at hlower
  rw [length_map, caseBits_eq _ h, leWord_or, hlower]
  simp [Function.comp_def, lowerByte_or]

lemma words_lower (bytes : List UInt8) : words (bytes.map lowerByte) = words bytes := by
  unfold words
  induction bytes using chunks_induction (n := 8) (by decide) with
  | empty => rfl
  | last l hne hlt =>
    rw [chunks_of_lt hne hlt, chunks_of_lt (by simpa using hne) (by simpa using hlt)]
    simp only [map_cons, map_nil, word_lower hlt.le]
  | full a l ha ih =>
    rw [map_append, chunks_append (by decide) (by simpa using ha), chunks_append (by decide) ha,
      map_cons, map_cons,
      ih, word_lower ha.le]

def foldedBytes (s : String) : List UInt8 := (asBytes s).map lowerByte

lemma foldedBytes_eq (s : String) : foldedBytes s = encode (asciiFold s) := by
  rw [foldedBytes, asciiFold, asBytes, encode, encode, flatMap_map, map_flatMap]
  simp only [encodeChar_toLower]

lemma foldedBytes_inj {a b : String} : foldedBytes a = foldedBytes b ↔
    eqIgnoreAsciiCase a b = true := by
  rw [eqIgnoreAsciiCase_iff, foldedBytes_eq, foldedBytes_eq]
  refine ⟨fun h => ?_, congrArg encode⟩
  rw [← lossy_encode (asciiFold a), h, lossy_encode]

lemma foldHash_congr {a b : String} (h : eqIgnoreAsciiCase a b = true) :
    foldHash a = foldHash b ∧ foldHashes a = foldHashes b := by
  have hbytes := foldedBytes_inj.2 h
  have hwords := congrArg words hbytes
  have hlen := congrArg length hbytes
  rw [foldedBytes, foldedBytes, words_lower, words_lower] at hwords
  rw [foldedBytes, foldedBytes, length_map, length_map] at hlen
  rw [foldHash, foldHashes, hwords, hlen]
  exact ⟨rfl, rfl⟩

/-! ## Keys -/

/-- The names are behind shared pointers; `arc` is what each of them holds. -/
structure Key (arc : Nat → String) where
  hash : BitVec 64
  name : Nat
  hashed : hash = foldHash (arc name)

structure KeyRef where
  hash : BitVec 64
  name : String
  hashed : hash = foldHash name

def KeyRef.new (name : String) : KeyRef := ⟨_, name, rfl⟩

variable {arc : Nat → String} {α : Type}

namespace Key

/-- `Key::new` and `to_key`; which pointer holds the name is the interner's choice. -/
def new (name : Nat) : Key arc := ⟨_, name, rfl⟩

def asStr (k : Key arc) : String := arc k.name

def eq (a b : Key arc) : Bool :=
  a.hash == b.hash && (a.name == b.name || eqIgnoreAsciiCase a.asStr b.asStr)

def equivalent (k : Key arc) (r : KeyRef) : Bool :=
  k.hash == r.hash && eqIgnoreAsciiCase k.asStr r.name

def cmpFrom : List UInt8 → List UInt8 → Ordering
  | x :: xs, y :: ys =>
    if lowerByte x = lowerByte y then cmpFrom xs ys else
      compare (lowerByte x).toNat (lowerByte y).toNat
  | [], ys => compare 0 ys.length
  | x :: xs, [] => compare (x :: xs).length 0

def cmp (a b : Key arc) : Ordering := cmpFrom (asBytes a.asStr) (asBytes b.asStr)

end Key

namespace KeyRef

def eq (a b : KeyRef) : Bool := a.hash == b.hash && eqIgnoreAsciiCase a.name b.name

def equivalent (r : KeyRef) (k : Key arc) : Bool :=
  r.hash == k.hash && eqIgnoreAsciiCase r.name k.asStr

end KeyRef

lemma hash_guard (a b : String) : (foldHash a == foldHash b && eqIgnoreAsciiCase a b) =
    eqIgnoreAsciiCase a b := by
  cases h : eqIgnoreAsciiCase a b with
  | false => exact Bool.and_false _
  | true => simp [(foldHash_congr h).1]

lemma Key.eq_eq (a b : Key arc) : a.eq b = eqIgnoreAsciiCase a.asStr b.asStr := by
  have hptr : (a.name == b.name || eqIgnoreAsciiCase a.asStr b.asStr) =
      eqIgnoreAsciiCase a.asStr b.asStr := by
    by_cases h : a.name = b.name
    · simp [asStr, h]
    · simp [h]
  rw [Key.eq, hptr, a.hashed, b.hashed]
  exact hash_guard _ _

lemma Key.cmpFrom_eq : ∀ xs ys : List UInt8, cmpFrom xs ys =
    compare ((xs.map lowerByte).map UInt8.toNat) ((ys.map lowerByte).map UInt8.toNat)
  | [], [] => rfl
  | [], _ :: _ => rfl
  | _ :: _, [] => rfl
  | x :: xs, y :: ys => by
    have ih := cmpFrom_eq xs ys
    rw [cmpFrom, ih]
    refine .trans ?_ List.compareLex_cons_cons.symm
    split
    next h => rw [h, Nat.compare_eq_eq.2 rfl]; rfl
    next h =>
      have hne : compare (lowerByte x).toNat (lowerByte y).toNat ≠ .eq :=
        fun heq => h (UInt8.toNat_inj.1 (Nat.compare_eq_eq.1 heq))
      cases hcmp : compare (lowerByte x).toNat (lowerByte y).toNat with
      | eq => exact absurd hcmp hne
      | lt | gt => rfl

abbrev KeyMap (arc : Nat → String) (α : Type) := List (Key arc × α)

namespace KeyMap

/-- `IndexMap::insert`: a key that is found keeps its place and its spelling. -/
def insert : KeyMap arc α → Key arc → α → KeyMap arc α
  | [], k, v => [(k, v)]
  | (k', v') :: m, k, v => if k.eq k' then (k', v) :: m else (k', v') :: insert m k v

/-- What a map can be: removing, retaining and sorting leave entries that were there. -/
inductive Reached : KeyMap arc α → Prop
  | empty : Reached []
  | insert {m} (k v) : Reached m → Reached (m.insert k v)
  | leave {m m'} : m' <+~ m → Reached m → Reached m'

def names (m : KeyMap arc α) : ValueMap α := m.map fun e => (e.1.asStr, e.2)

lemma names_insert (m : KeyMap arc α) (k : Key arc) (v : α) :
    (m.insert k v).names = m.names.insert k.asStr v := by
  induction m with
  | nil => rfl
  | cons e m ih =>
    obtain ⟨k', v'⟩ := e
    rw [names] at ih
    by_cases hk : asciiFold k'.asStr = asciiFold k.asStr
    · simp [insert, names, ValueMap.insert, Key.eq_eq, hk]
    · simp [insert, names, ValueMap.insert, Key.eq_eq, hk, Ne.symm hk, ih]

lemma Reached.distinct {m : KeyMap arc α} (h : Reached m) : m.names.Distinct := by
  induction h with
  | empty => exact ValueMap.distinct_nil
  | insert k v _ ih =>
    rw [names_insert]
    exact ih.insert _ _
  | leave hsub _ ih =>
    obtain ⟨l, hperm, hsub⟩ := hsub
    exact (((hperm.map _).map _).nodup_iff).1 (((hsub.map _).map _).nodup ih)

end KeyMap

/-- **The identity of keys.** -/
theorem key_identity (arc : Nat → String) :
    (∀ a b : Key arc, a.eq b = true ↔ eqIgnoreAsciiCase a.asStr b.asStr = true) ∧
      (∀ a b : Key arc, a.eq b = true → a.hash = b.hash ∧ foldHashes a.asStr = foldHashes b.asStr) ∧
      TotalOrderOn (@Key.cmp arc) Set.univ ∧ (∀ a b : Key arc, a.cmp b = .eq ↔ a.eq b = true) ∧
      (∀ (r : KeyRef) (a b : Key arc), r.name = a.asStr → r.equivalent b = a.eq b ∧
        b.equivalent r = b.eq a ∧
        ∀ r' : KeyRef, r'.name = b.asStr → r.eq r' = a.eq b) ∧
      ∀ (α : Type) (m : KeyMap arc α), m.Reached →
        m.Pairwise fun e e' => ¬ eqIgnoreAsciiCase e.1.asStr e'.1.asStr = true := by
  refine ⟨fun a b => by rw [Key.eq_eq], ?_, ?_, ?_, ?_, ?_⟩
  · intro a b h
    rw [Key.eq_eq] at h
    rw [a.hashed, b.hashed]
    exact foldHash_congr h
  · exact .of_key compare (fun k => (foldedBytes k.asStr).map UInt8.toNat) fun a _ b _ =>
      Key.cmpFrom_eq _ _
  · intro a b
    rw [Key.cmp, Key.cmpFrom_eq, Std.LawfulEqOrd.compare_eq_iff_eq, Key.eq_eq, ← foldedBytes_inj]
    exact (map_injective_iff.2 fun _ _ => UInt8.toNat_inj.1).eq_iff
  · intro r a b hr
    rw [KeyRef.equivalent, Key.equivalent, r.hashed, b.hashed, hr, Key.eq_eq, Key.eq_eq]
    refine ⟨hash_guard _ _, hash_guard _ _, fun r' hr' => ?_⟩
    rw [KeyRef.eq, r.hashed, r'.hashed, hr, hr']
    exact hash_guard _ _
  · intro α m h
    have hdistinct := h.distinct
    rw [ValueMap.Distinct, KeyMap.names, map_map, Nodup, pairwise_map] at hdistinct
    exact hdistinct.imp fun hne heq => hne (eqIgnoreAsciiCase_iff.1 heq)

end RustCfml
