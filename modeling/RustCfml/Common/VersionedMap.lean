import RustCfml.Common.Key

/-!
# The map with its mutation counter

`ValueMap` in `dynamic.rs` pairs the ordered map with a `u32` that **every** `&mut` accessor bumps,
whether it changes anything or not.
-/

namespace RustCfml

open List

namespace ValueMap

variable {α : Type}

def getKey? (m : ValueMap α) (k : String) : Option String :=
  (m.find? fun e => eqIgnoreAsciiCase e.1 k).map Prod.fst

def shiftRemove (m : ValueMap α) (k : String) : ValueMap α :=
  m.filter fun e => !eqIgnoreAsciiCase e.1 k

@[simp] lemma getKey?_nil (k : String) : getKey? ([] : ValueMap α) k = none := rfl

@[simp] lemma getKey?_cons (k' : String) (v : α) (m : ValueMap α) (k : String) :
    getKey? ((k', v) :: m) k = if asciiFold k' = asciiFold k then some k' else getKey? m k := by
  unfold getKey?
  by_cases h : asciiFold k' = asciiFold k <;> simp [eqIgnoreAsciiCase, h]

variable {m : ValueMap α}

lemma getKey?_congr {a b : String} (h : asciiFold a = asciiFold b) : getKey? m a = getKey? m b := by
  unfold getKey? eqIgnoreAsciiCase
  rw [h]

lemma get?_eq_none_iff {k : String} : get? m k = none ↔ asciiFold k ∉ m.map fun e =>
    asciiFold e.1 := by
  induction m with
  | nil => simp
  | cons e m ih =>
    obtain ⟨k', v⟩ := e
    rw [get?_cons, map_cons, mem_cons, not_or, ← ih]
    by_cases hk : asciiFold k' = asciiFold k
    · simp [hk]
    · simp [hk, Ne.symm hk]

lemma get?_of_mem (h : Distinct m) {e : String × α} (he : e ∈ m) : get? m e.1 = some e.2 := by
  induction m with
  | nil => cases he
  | cons e' m ih =>
    obtain ⟨hnew, hrest⟩ := nodup_cons.1 h
    rw [get?_cons]
    rcases mem_cons.1 he with rfl | he
    · rw [if_pos rfl]
    · have hne : asciiFold e'.1 ≠ asciiFold e.1 := by
        intro heq
        exact hnew (mem_map.2 ⟨e, he, heq.symm⟩)
      rw [if_neg hne]
      exact ih hrest he

lemma asciiFold_getKey? {k k' : String} (h : getKey? m k = some k') :
    asciiFold k' = asciiFold k := by
  obtain ⟨e, he, rfl⟩ := Option.map_eq_some_iff.1 h
  have hmatch := find?_some he
  exact eqIgnoreAsciiCase_iff.1 hmatch

lemma isSome_getKey? (m : ValueMap α) (k : String) : (getKey? m k).isSome = (get? m k).isSome := by
  unfold getKey? get?
  rw [Option.isSome_map, Option.isSome_map]

lemma getKey?_insert (m : ValueMap α) (k : String) (v : α) (k1 : String) :
    getKey? (insert m k v) k1 =
      if asciiFold k = asciiFold k1 then some ((getKey? m k1).getD k) else getKey? m k1 := by
  induction m with
  | nil => simp [insert]
  | cons e m ih =>
    obtain ⟨k', v'⟩ := e
    by_cases hk : asciiFold k' = asciiFold k
    · by_cases h1 : asciiFold k = asciiFold k1 <;> simp [insert, hk, h1]
    · have hi : insert ((k', v') :: m) k v = (k', v') :: insert m k v := by simp [insert, hk]
      rw [hi, getKey?_cons, getKey?_cons, ih]
      by_cases h1 : asciiFold k' = asciiFold k1
      · have h2 : ¬ asciiFold k = asciiFold k1 := fun h => hk (h1.trans h.symm)
        rw [if_pos h1, if_neg h2, if_pos h1]
      · rw [if_neg h1, if_neg h1]

lemma Distinct.filter (h : Distinct m) (p : String × α → Bool) : Distinct (m.filter p) :=
  h.sublist (filter_sublist.map _)

/-- Where no two keys fold together, filtering by the stored spelling is a filter on what a
    lookup finds. -/
lemma get?_filter_keys (h : Distinct m) (p : String → Bool) (k : String) :
    get? (m.filter fun e => p e.1) k = if (getKey? m k).any p then get? m k else none := by
  induction m with
  | nil => rfl
  | cons e m ih =>
    obtain ⟨k', v⟩ := e
    have hdistinct : Distinct m := (nodup_cons.1 h).2
    rw [get?_cons, getKey?_cons]
    by_cases hk : asciiFold k' = asciiFold k
    · -- no later entry folds to this key
      have hnone : get? m k = none := get?_eq_none_iff.2 (hk ▸ (nodup_cons.1 h).1)
      have hrest : get? (m.filter fun e => p e.1) k = none := by rw [ih hdistinct, hnone, ite_self]
      rw [if_pos hk, if_pos hk, filter_cons]
      cases hp : p k' with
      | true => simp [hp, hk]
      | false => simp [hp, hrest]
    · rw [if_neg hk, if_neg hk, ← ih hdistinct, filter_cons]
      split
      · rw [get?_cons, if_neg hk]
      · rfl

lemma get?_shiftRemove (m : ValueMap α) (k k1 : String) :
    get? (shiftRemove m k) k1 = if asciiFold k = asciiFold k1 then none else get? m k1 := by
  induction m with
  | nil => simp [shiftRemove]
  | cons e m ih =>
    obtain ⟨k', v'⟩ := e
    rw [shiftRemove, filter_cons, ← shiftRemove]
    by_cases hk : asciiFold k' = asciiFold k
    · simp only [eqIgnoreAsciiCase, hk, beq_self_eq_true, Bool.not_true, Bool.false_eq_true,
        if_false, ih, get?_cons]
      split <;> rfl
    · have hkeep : (!eqIgnoreAsciiCase k' k) = true := by simp [eqIgnoreAsciiCase, hk]
      rw [if_pos hkeep, get?_cons, get?_cons, ih]
      exact ite_ite_comm _ _ _ _ fun h1 h => hk (h1.trans h.symm)

end ValueMap

/-- A map with its mutation counter, which wraps. -/
structure VersionedMap (α : Type) where
  entries : ValueMap α
  version : UInt32
  distinct : entries.Distinct

namespace VersionedMap

variable {α : Type}

def empty : VersionedMap α := ⟨[], 0, nodup_nil⟩

def get? (m : VersionedMap α) (k : String) : Option α := m.entries.get? k

def getKey? (m : VersionedMap α) (k : String) : Option String := m.entries.getKey? k

def containsKey (m : VersionedMap α) (k : String) : Bool := (m.get? k).isSome

def insert (m : VersionedMap α) (k : String) (v : α) : VersionedMap α :=
  ⟨m.entries.insert k v, m.version + 1, m.distinct.insert k v⟩

def shiftRemove (m : VersionedMap α) (k : String) : VersionedMap α :=
  ⟨m.entries.shiftRemove k, m.version + 1, m.distinct.filter _⟩

lemma get?_insert (m : VersionedMap α) (k : String) (v : α) (k1 : String) :
    (m.insert k v).get? k1 = if asciiFold k = asciiFold k1 then some v else m.get? k1 :=
  m.entries.get?_insert k v k1

lemma getKey?_insert (m : VersionedMap α) (k : String) (v : α) (k1 : String) :
    (m.insert k v).getKey? k1 =
      if asciiFold k = asciiFold k1 then some ((m.getKey? k1).getD k) else m.getKey? k1 :=
  m.entries.getKey?_insert k v k1

lemma get?_shiftRemove (m : VersionedMap α) (k k1 : String) :
    (m.shiftRemove k).get? k1 = if asciiFold k = asciiFold k1 then none else m.get? k1 :=
  m.entries.get?_shiftRemove k k1

lemma getKey?_shiftRemove (m : VersionedMap α) {k k1 : String} (h : ¬ asciiFold k = asciiFold k1) :
    (m.shiftRemove k).getKey? k1 = m.getKey? k1 := by
  show ValueMap.getKey? (m.entries.filter _) k1 = _
  unfold getKey?
  induction m.entries with
  | nil => rfl
  | cons e es ih =>
    obtain ⟨k', v'⟩ := e
    rw [filter_cons, ValueMap.getKey?_cons]
    by_cases hk : asciiFold k' = asciiFold k
    · have h1 : ¬ asciiFold k' = asciiFold k1 := fun h' => h (hk.symm.trans h')
      rw [if_neg (by simp [eqIgnoreAsciiCase, hk]), ih, if_neg h1]
    · rw [if_pos (by simp [eqIgnoreAsciiCase, hk]), ValueMap.getKey?_cons, ih]

def removeAll (ks : List String) (m : VersionedMap α) : VersionedMap α := ks.foldl shiftRemove m

def insertAll (es : List (String × α)) (m : VersionedMap α) : VersionedMap α :=
  es.foldl (fun m e => m.insert e.1 e.2) m

lemma get?_removeAll (ks : List String) (m : VersionedMap α) (k : String) :
    (m.removeAll ks).get? k = if asciiFold k ∈ ks.map asciiFold then none else m.get? k := by
  induction ks generalizing m with
  | nil => rfl
  | cons k' ks ih =>
    show (removeAll ks (m.shiftRemove k')).get? k = _
    rw [ih, get?_shiftRemove]
    simp only [map_cons, mem_cons]
    by_cases hmem : asciiFold k ∈ ks.map asciiFold
    · rw [if_pos hmem, if_pos (.inr hmem)]
    · by_cases hk : asciiFold k' = asciiFold k
      · rw [if_neg hmem, if_pos hk, if_pos (.inl hk.symm)]
      · rw [if_neg hmem, if_neg hk, if_neg (not_or.2 ⟨Ne.symm hk, hmem⟩)]

lemma getKey?_removeAll {ks : List String} (m : VersionedMap α) {k : String}
    (h : asciiFold k ∉ ks.map asciiFold) : (m.removeAll ks).getKey? k = m.getKey? k := by
  induction ks generalizing m with
  | nil => rfl
  | cons k' ks ih =>
    rw [map_cons, mem_cons, not_or] at h
    show (removeAll ks (m.shiftRemove k')).getKey? k = _
    rw [ih _ h.2, getKey?_shiftRemove m (Ne.symm h.1)]

lemma get?_insertAll {es : ValueMap α} (hes : es.Distinct) (m : VersionedMap α) (k : String) :
    (m.insertAll es).get? k = (es.get? k).or (m.get? k) := by
  induction es generalizing m with
  | nil => rfl
  | cons e es ih =>
    obtain ⟨k', v⟩ := e
    obtain ⟨hnew, hes⟩ := nodup_cons.1 hes
    show (insertAll es (m.insert k' v)).get? k = _
    rw [ih hes, get?_insert, ValueMap.get?_cons]
    by_cases hk : asciiFold k' = asciiFold k
    · -- the entry just inserted is the only one of its fold
      have hnone : ValueMap.get? es k = none := ValueMap.get?_eq_none_iff.2 (hk ▸ hnew)
      rw [hnone, if_pos hk, if_pos hk]
      rfl
    · rw [if_neg hk, if_neg hk]

end VersionedMap

end RustCfml
