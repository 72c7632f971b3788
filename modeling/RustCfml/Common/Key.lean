import Mathlib

/-!
# Keys that fold ASCII case, and the ordered map built on them

CFML identifiers are case-insensitive and case-preserving: `s.FOO` and `s["foo"]` reach
one slot, and `structKeyList` reports the casing the key was first written with.
`key.rs` buys that with a `Key` whose equality is `eq_ignore_ascii_case`; its hash is a
guard in front of that comparison and never decides it, so **the key's meaning is its
folded text** and that is what is modelled here.
-/

namespace RustCfml

open List

/-- The ASCII fold `eq_ignore_ascii_case` compares by. -/
def asciiFold (s : String) : List Char := s.toList.map Char.toLower

def eqIgnoreAsciiCase (a b : String) : Bool := asciiFold a == asciiFold b

@[simp] lemma eqIgnoreAsciiCase_iff {a b : String} : eqIgnoreAsciiCase a b = true ↔
    asciiFold a = asciiFold b := by
  simp [eqIgnoreAsciiCase]

def isWhitespace (c : Char) : Bool :=
  let n := c.toNat
  (9 ≤ n && n ≤ 13) || n == 0x20 || n == 0x85 || n == 0xA0 || n == 0x1680 ||
    (0x2000 ≤ n && n ≤ 0x200A) || n == 0x2028 || n == 0x2029 || n == 0x202F || n == 0x205F ||
    n == 0x3000

def trim (cs : List Char) : List Char :=
  ((cs.dropWhile isWhitespace).reverse.dropWhile isWhitespace).reverse

abbrev ValueMap (α : Type) := List (String × α)

namespace ValueMap

variable {α : Type}

def get? (m : ValueMap α) (k : String) : Option α :=
  (m.find? fun e => eqIgnoreAsciiCase e.1 k).map Prod.snd

def insert : ValueMap α → String → α → ValueMap α
  | [], k, v => [(k, v)]
  | (k', v') :: m, k, v =>
    if eqIgnoreAsciiCase k' k then (k', v) :: m else (k', v') :: insert m k v

def keys (m : ValueMap α) : List String := m.map Prod.fst

def Distinct (m : ValueMap α) : Prop := (m.map fun e => asciiFold e.1).Nodup

instance (m : ValueMap α) : Decidable (Distinct m) := inferInstanceAs (Decidable (List.Nodup _))

variable {m : ValueMap α} {k : String}

lemma insert_fresh {v : α} (h : asciiFold k ∉ m.map fun e => asciiFold e.1) :
    insert m k v = m ++ [(k, v)] := by
  induction m with
  | nil => rfl
  | cons e m ih =>
    obtain ⟨k', v'⟩ := e
    simp only [map_cons, mem_cons, not_or] at h
    have hk : ¬ eqIgnoreAsciiCase k' k = true := by
      rw [eqIgnoreAsciiCase_iff]
      exact fun h' => h.1 h'.symm
    simp [insert, hk, ih h.2]

lemma map_fold_insert (m : ValueMap α) (k : String) (v : α) :
    (insert m k v).map (fun e => asciiFold e.1) =
      if asciiFold k ∈ m.map fun e => asciiFold e.1 then m.map fun e => asciiFold e.1
      else (m.map fun e => asciiFold e.1) ++ [asciiFold k] := by
  induction m with
  | nil => simp [insert]
  | cons e m ih =>
    obtain ⟨k', v'⟩ := e
    by_cases hk : asciiFold k' = asciiFold k
    · simp [insert, hk]
    · have hk' : ¬ asciiFold k = asciiFold k' := fun h => hk h.symm
      simp only [insert, eqIgnoreAsciiCase_iff, hk, if_false, map_cons, ih, mem_cons, hk', false_or]
      split <;> simp

lemma distinct_nil : Distinct ([] : ValueMap α) := nodup_nil

lemma Distinct.insert (h : Distinct m) (k : String) (v : α) : Distinct (insert m k v) := by
  unfold Distinct at *
  rw [map_fold_insert]
  split
  · exact h
  · rename_i hk
    exact nodup_append.2 ⟨h, by simp, by
      intro a ha b hb
      simp only [mem_singleton] at hb
      rintro rfl
      exact hk (hb ▸ ha)⟩

@[simp] lemma get?_nil (k : String) : get? ([] : ValueMap α) k = none := rfl

@[simp] lemma get?_cons (k' : String) (v : α) (m : ValueMap α) (k : String) :
    get? ((k', v) :: m) k = if asciiFold k' = asciiFold k then some v else get? m k := by
  unfold get?
  by_cases h : asciiFold k' = asciiFold k <;> simp [eqIgnoreAsciiCase, h]

lemma get?_insert (m : ValueMap α) (k : String) (v : α) (k1 : String) :
    get? (insert m k v) k1 = if asciiFold k = asciiFold k1 then some v else get? m k1 := by
  induction m with
  | nil => simp [insert]
  | cons e m ih =>
    obtain ⟨k', v'⟩ := e
    by_cases hk : asciiFold k' = asciiFold k
    · by_cases h1 : asciiFold k = asciiFold k1 <;> simp [insert, hk, h1]
    · have hi : insert ((k', v') :: m) k v = (k', v') :: insert m k v := by simp [insert, hk]
      rw [hi, get?_cons, get?_cons, ih]
      exact ite_ite_comm _ _ _ _ fun h1 h => hk (h1.trans h.symm)

lemma get?_map {β : Type} (g : α → β) (m : ValueMap α) (k : String) :
    get? (m.map fun e => (e.1, g e.2)) k = (get? m k).map g := by
  induction m with
  | nil => rfl
  | cons e m ih =>
    rw [map_cons, get?_cons, get?_cons, ih]
    split
    · rfl
    · rfl

lemma get?_congr {a b : String} (h : asciiFold a = asciiFold b) : get? m a = get? m b := by
  unfold get? eqIgnoreAsciiCase
  rw [h]

/-- The map a loop of inserts leaves: a later entry overwrites an earlier one of its fold. -/
def ofEntries (es : List (String × α)) (m : ValueMap α) : ValueMap α :=
  es.foldl (fun m e => insert m e.1 e.2) m

lemma get?_append (m m' : ValueMap α) (k : String) :
    get? (m ++ m') k = (get? m k).or (get? m' k) := by
  induction m with
  | nil => rw [nil_append, get?_nil, Option.none_or]
  | cons e m ih =>
    obtain ⟨k', v⟩ := e
    rw [cons_append, get?_cons, get?_cons, ih]
    split
    · rfl
    · rfl

lemma get?_ofEntries (es : List (String × α)) (m : ValueMap α) (k : String) :
    get? (ofEntries es m) k = (get? es.reverse k).or (get? m k) := by
  induction es generalizing m with
  | nil => rw [reverse_nil, get?_nil, Option.none_or]; rfl
  | cons e es ih =>
    rw [reverse_cons, get?_append, Option.or_assoc]
    show get? (ofEntries es (insert m e.1 e.2)) k = _
    rw [ih, get?_insert, get?_cons, get?_nil]
    split <;> simp

lemma mem_keys_insert {k1 : String} {v : α} (h : k1 ∈ (insert m k v).keys) : k1 ∈ m.keys ∨
    k1 = k := by
  induction m with
  | nil => exact .inr (by simpa [insert, keys] using h)
  | cons e m ih =>
    obtain ⟨k', v'⟩ := e
    rw [insert] at h
    split at h
    · exact .inl h
    · rcases mem_cons.1 h with rfl | h
      · exact .inl mem_cons_self
      · rcases ih h with h | h
        · exact .inl (mem_cons_of_mem _ h)
        · exact .inr h

lemma mem_keys_ofEntries {es : List (String × α)}
    (h : k ∈ (ofEntries es m).keys) : k ∈ m.keys ∨ k ∈ es.map Prod.fst := by
  induction es generalizing m with
  | nil => exact .inl h
  | cons e es ih =>
    rcases ih (show k ∈ (ofEntries es (insert m e.1 e.2)).keys from h) with h | h
    · rcases mem_keys_insert h with h | rfl
      · exact .inl h
      · exact .inr mem_cons_self
    · exact .inr (mem_cons_of_mem _ h)

lemma ofEntries_of_distinct {es : ValueMap α} (h : Distinct (m ++ es)) :
    ofEntries es m = m ++ es := by
  induction es generalizing m with
  | nil => rw [append_nil]; rfl
  | cons e es ih =>
    have hsplit : m ++ e :: es = m ++ [e] ++ es := by simp
    have hfresh : asciiFold e.1 ∉ m.map fun e => asciiFold e.1 := by
      intro hmem
      rw [Distinct, map_append, nodup_append] at h
      exact h.2.2 _ hmem _ (by simp) rfl
    show ofEntries es (insert m e.1 e.2) = _
    rw [insert_fresh hfresh, hsplit, ih (hsplit ▸ h)]

lemma exists_get?_of_mem {es : ValueMap α} (h : asciiFold k ∈ es.map fun e => asciiFold e.1) :
    ∃ v, get? es k = some v ∧ ∃ k', asciiFold k' = asciiFold k ∧ (k', v) ∈ es := by
  induction es with
  | nil => simp at h
  | cons e es ih =>
    obtain ⟨k', v⟩ := e
    rw [get?_cons]
    by_cases hk : asciiFold k' = asciiFold k
    · exact ⟨v, if_pos hk, k', hk, mem_cons_self⟩
    · have hmem : asciiFold k ∈ es.map fun e => asciiFold e.1 := by
        rcases mem_cons.1 h with h | h
        · exact absurd h.symm hk
        · exact h
      obtain ⟨w, hw, k1, hk1, hin⟩ := ih hmem
      exact ⟨w, by rw [if_neg hk, hw], k1, hk1, mem_cons_of_mem _ hin⟩

end ValueMap

end RustCfml
