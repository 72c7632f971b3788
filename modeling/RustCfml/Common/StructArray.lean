import RustCfml.Common.VersionedMap
import RustCfml.Lib.Decimal
import RustCfml.Lib.Uppercase

/-!
# Structs used as arrays

Keys are texts, and a text is a number in several spellings. **Nothing is lost as long as the
keys stand for different integers, none of them 0 (which moves onto the new value's key) and
none of them the largest 64-bit integer (which has no successor).**
-/

namespace RustCfml.StructArray

open Uppercase List

variable {α : Type} (U : UpperTable)

def parseI64 (k : String) : Option Int64 :=
  (Decimal.parse (-2 ^ 63) (2 ^ 63 - 1) k.toList).map Int64.ofInt

def keyText (n : Int64) : String := String.ofList (Decimal.ofInt n.toInt)

def notANumber (k : String) : String :=
  let upper := toUppercase U k
  s!"can't cast struct to an array, key [{upper}] is not a number"

def maxKeyLoop : List String → Int64 → Except String Int64
  | [], max => .ok max
  | k :: ks, max =>
    match parseI64 k with
    | some n => maxKeyLoop ks (if max ≤ n then n else max)
    | none => .error (notANumber U k)

def structArrayMaxKey (m : ValueMap α) : Except String Int64 := maxKeyLoop U m.keys 0

def structArrayPush (m : ValueMap α) (value : α) : Except String (ValueMap α) := do
  let max ← structArrayMaxKey U m
  return m.insert (keyText (max + 1)) value

/-- The entries `struct_array_unshift` puts back, under their new keys. -/
def shifted (m : ValueMap α) : List (String × α) :=
  m.keys.filterMap fun k => (m.get? k).map fun v => (keyText ((parseI64 k).getD 0 + 1), v)

def structArrayUnshift (m : ValueMap α) (value : α) : Except String (ValueMap α) := do
  let _ ← structArrayMaxKey U m
  return ValueMap.ofEntries (shifted m) (ValueMap.insert [] "1" value)

lemma parseI64_keyText (n : Int64) : parseI64 (keyText n) = some n := by
  have hlo : -2 ^ 63 ≤ n.toInt := n.le_toInt
  have hhi : n.toInt ≤ 2 ^ 63 - 1 := Int.le_sub_one_of_lt n.toInt_lt
  rw [parseI64, keyText, String.toList_ofList, Decimal.parse_ofInt hlo hhi]
  simp

lemma asciiFold_of_parseI64 {k : String} {n : Int64} (h : parseI64 k = some n) :
    asciiFold k = k.toList := by
  obtain ⟨i, hi, -⟩ := Option.map_eq_some_iff.1 h
  exact Decimal.map_toLower_of_parse hi

lemma parseI64_congr {k k' : String} {n n' : Int64} (hn : parseI64 k = some n)
    (hn' : parseI64 k' = some n') (h : asciiFold k = asciiFold k') : n = n' := by
  rw [asciiFold_of_parseI64 hn, asciiFold_of_parseI64 hn'] at h
  rw [parseI64, h] at hn
  rw [parseI64, hn] at hn'
  exact Option.some.inj hn'

lemma toInt_add_one {n : Int64} (h : n ≠ Int64.maxValue) : (n + 1).toInt = n.toInt + 1 := by
  have hne : n.toInt ≠ 2 ^ 63 - 1 := fun heq => h (Int64.toInt_inj.1 (heq.trans (by decide)))
  have hlo : -2 ^ 63 ≤ n.toInt := n.le_toInt
  have hhi : n.toInt < 2 ^ 63 := n.toInt_lt
  rw [Int64.toInt_add, show (1 : Int64).toInt = 1 from rfl]
  exact Int.bmod_eq_of_le (by omega) (by omega)

lemma maxKeyLoop_error {ks : List String} {max : Int64} (h : ∃ k ∈ ks, parseI64 k = none) :
    ∃ k ∈ ks, parseI64 k = none ∧ maxKeyLoop U ks max = .error (notANumber U k) := by
  induction ks generalizing max with
  | nil => exact absurd h (by simp)
  | cons k ks ih =>
    rw [maxKeyLoop]
    cases hk : parseI64 k with
    | none => exact ⟨k, by simp, hk, rfl⟩
    | some n =>
      have hrest : ∃ k ∈ ks, parseI64 k = none := by simpa [hk] using h
      obtain ⟨k', hmem, hnone, herr⟩ := ih hrest
      exact ⟨k', by simp [hmem], hnone, herr⟩

lemma maxKeyLoop_ok {ks : List String} {max : Int64} (h : ∀ k ∈ ks, parseI64 k ≠ none) :
    ∃ r, maxKeyLoop U ks max = .ok r ∧ max ≤ r ∧ (∀ k ∈ ks, ∀ n, parseI64 k = some n → n ≤ r) ∧
      (r = max ∨ ∃ k ∈ ks, parseI64 k = some r) := by
  induction ks generalizing max with
  | nil => exact ⟨max, rfl, Int64.le_refl _, by simp, .inl rfl⟩
  | cons k ks ih =>
    obtain ⟨n, hn⟩ := Option.ne_none_iff_exists'.1 (h k (by simp))
    obtain ⟨r, hr, hle, hall, hmem⟩ :=
      @ih (if max ≤ n then n else max) fun k hk => h k (by simp [hk])
    have hboth : max ≤ r ∧ n ≤ r := by
      split at hle
      · next hmax => exact ⟨Int64.le_trans hmax hle, hle⟩
      · next hmax => exact ⟨hle, Int64.le_trans (Int64.le_of_lt (Int64.not_le.1 hmax)) hle⟩
    refine ⟨r, by rw [maxKeyLoop, hn]; exact hr, hboth.1, ?_, ?_⟩
    · intro k' hk' n' hn'
      rcases mem_cons.1 hk' with rfl | hk'
      · rw [hn] at hn'
        exact Option.some.inj hn' ▸ hboth.2
      · exact hall k' hk' n' hn'
    · rcases hmem with rfl | ⟨k', hk', hr'⟩
      · split
        · exact .inr ⟨k, by simp, hn⟩
        · exact .inl rfl
      · exact .inr ⟨k', by simp [hk'], hr'⟩

def Numbered (m : ValueMap α) : Prop := ∀ k ∈ m.keys, ∃ n, parseI64 k = some n ∧ n ≠ Int64.maxValue

def movedKey (k : String) : String :=
  String.ofList (Decimal.ofInt (((parseI64 k).getD 0).toInt + 1))

variable {U} {m : ValueMap α}

lemma Numbered.maxKey (h : Numbered m) : ∃ r, structArrayMaxKey U m = .ok r ∧
    (∀ k ∈ m.keys, ∀ n, parseI64 k = some n → n ≤ r) ∧ r ≠ Int64.maxValue := by
  obtain ⟨r, hr, -, hall, hmem⟩ := @maxKeyLoop_ok U m.keys 0 fun k hk => by
    obtain ⟨n, hn, -⟩ := h k hk
    simp [hn]
  refine ⟨r, hr, hall, ?_⟩
  rcases hmem with rfl | ⟨k, hk, hn⟩
  · decide
  · obtain ⟨n, hn', hne⟩ := h k hk
    rw [hn] at hn'
    exact Option.some.inj hn' ▸ hne

lemma Numbered.push (h : Numbered m) (value : α) : ∃ key, m.get? key = none ∧
    structArrayPush U m value = .ok (m ++ [(key, value)]) := by
  obtain ⟨r, hr, hall, hne⟩ := h.maxKey (U := U)
  have hfresh : asciiFold (keyText (r + 1)) ∉ m.map fun e => asciiFold e.1 := by
    intro hmem
    obtain ⟨e, he, heq⟩ := mem_map.1 hmem
    have hk : e.1 ∈ m.keys := mem_map_of_mem he
    obtain ⟨n, hn, -⟩ := h _ hk
    have hle := Int64.le_iff_toInt_le.1 (hall _ hk n hn)
    rw [parseI64_congr hn (parseI64_keyText _) heq, toInt_add_one hne] at hle
    omega
  refine ⟨keyText (r + 1), ValueMap.get?_eq_none_iff.2 hfresh, ?_⟩
  rw [structArrayPush, hr]
  exact congrArg Except.ok (ValueMap.insert_fresh hfresh)

lemma Numbered.keyText_succ (h : Numbered m) {k : String} (hk : k ∈ m.keys) :
    keyText ((parseI64 k).getD 0 + 1) = movedKey k := by
  obtain ⟨n, hn, hne⟩ := h k hk
  rw [keyText, movedKey, hn, Option.getD_some, toInt_add_one hne]

lemma Numbered.shifted_eq (h : Numbered m) (hd : m.Distinct) :
    shifted m = m.map fun e => (movedKey e.1, e.2) := by
  rw [shifted, ValueMap.keys, filterMap_map, ← filterMap_eq_map]
  refine filterMap_congr fun e he => ?_
  have hget : m.get? e.1 = some e.2 := ValueMap.get?_of_mem hd he
  simp [hget, h.keyText_succ (mem_map_of_mem he)]

lemma Numbered.distinct_moved (h : Numbered m) (value : α) (hzero : ∀ e ∈ m, parseI64 e.1 ≠ some 0)
    (hapart : m.Pairwise fun a b => parseI64 a.1 ≠ parseI64 b.1) :
    ValueMap.Distinct (("1", value) :: m.map fun e => (movedKey e.1, e.2)) := by
  have hfold : ∀ e ∈ m, ∃ n, parseI64 e.1 = some n ∧
      asciiFold (movedKey e.1) = Decimal.ofInt (n.toInt + 1) := by
    intro e he
    obtain ⟨n, hn, -⟩ := h _ (mem_map_of_mem he)
    refine ⟨n, hn, ?_⟩
    rw [asciiFold, movedKey, String.toList_ofList, Decimal.map_toLower_ofInt, hn, Option.getD_some]
  rw [ValueMap.Distinct, map_cons, map_map, nodup_cons]
  constructor
  · intro hmem
    obtain ⟨e, he, heq⟩ := mem_map.1 hmem
    obtain ⟨n, hn, hn'⟩ := hfold e he
    simp only [Function.comp_apply, hn', show asciiFold "1" = Decimal.ofInt 1 by decide] at heq
    have hone : n.toInt + 1 = 1 := Decimal.ofInt_inj heq
    have hn0 : n = 0 := Int64.toInt_inj.1 (show n.toInt = (0 : Int64).toInt by
      rw [Int64.toInt_zero]; omega)
    exact hzero e he (hn0 ▸ hn)
  · rw [List.Nodup, pairwise_map]
    apply hapart.imp_of_mem
    intro a b ha hb hne heq
    obtain ⟨n, hn, hn'⟩ := hfold a ha
    obtain ⟨n', hb', hb''⟩ := hfold b hb
    simp only [Function.comp_apply, hn', hb''] at heq
    have hsucc : n.toInt + 1 = n'.toInt + 1 := Decimal.ofInt_inj heq
    have heq' : n = n' := Int64.toInt_inj.1 (by omega)
    exact hne (by rw [hn, hb', heq'])

/-- **Struct arrays.** A struct with a key that is no number is refused as it is. -/
theorem push_unshift_spec (U : UpperTable) {m : ValueMap α} (hd : m.Distinct) (value : α) :
    ((∃ k ∈ m.keys, parseI64 k = none) → ∃ k ∈ m.keys, parseI64 k = none ∧
      structArrayPush U m value = .error (notANumber U k) ∧
      structArrayUnshift U m value = .error (notANumber U k)) ∧
      (Numbered m → ∃ key, m.get? key = none ∧
      structArrayPush U m value = .ok (m ++ [(key, value)])) ∧
    (Numbered m → (∀ e ∈ m, parseI64 e.1 ≠ some 0) →
      (m.Pairwise fun a b => parseI64 a.1 ≠ parseI64 b.1) → structArrayUnshift U m value =
        .ok (("1", value) :: m.map fun e => (movedKey e.1, e.2))) := by
  refine ⟨fun hnone => ?_, fun h => h.push value, fun h hzero hapart => ?_⟩
  · obtain ⟨k, hk, hparse, herr⟩ := @maxKeyLoop_error U m.keys 0 hnone
    refine ⟨k, hk, hparse, ?_, ?_⟩
    · rw [structArrayPush, structArrayMaxKey, herr]
      rfl
    · rw [structArrayUnshift, structArrayMaxKey, herr]
      rfl
  · obtain ⟨r, hr, -⟩ := h.maxKey (U := U)
    have hmoved := h.distinct_moved value hzero hapart
    rw [structArrayUnshift, hr, h.shifted_eq hd]
    exact congrArg Except.ok (ValueMap.ofEntries_of_distinct (m := [("1", value)]) hmoved)

/-- A sparse struct, with a negative key and one written with a leading zero. -/
theorem push_unshift_spec_sparse : (∃ key, ValueMap.get? [("07", true), ("-1", false)] key = none ∧
      structArrayPush .asciiLetters [("07", true), ("-1", false)] true =
        .ok [("07", true), ("-1", false), (key, true)]) ∧
      structArrayUnshift .asciiLetters [("07", true), ("-1", false)] true =
        .ok [("1", true), (movedKey "07", true), (movedKey "-1", false)] := by
  have hspec := push_unshift_spec .asciiLetters
    (show ValueMap.Distinct [("07", true), ("-1", false)] by decide) true
  have hnum : Numbered [("07", true), ("-1", false)] := by
    intro k hk
    simp [ValueMap.keys] at hk
    rcases hk with rfl | rfl
    · exact ⟨7, by decide, by decide⟩
    · exact ⟨-1, by decide, by decide⟩
  exact ⟨hspec.2.1 hnum, hspec.2.2 hnum (by decide) (by decide)⟩

/-- A key that is no number: nothing is put under key 1. -/
theorem unshift_refused : structArrayUnshift .asciiLetters [("a", true)] false =
      .error "can't cast struct to an array, key [A] is not a number" := by
  decide +kernel

end RustCfml.StructArray
