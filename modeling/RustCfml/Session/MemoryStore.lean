import RustCfml.Lib.Lowercase

/-!
# The in-process session store

Sessions are kept per application, but in **one map**: the key is the application's name in lower
case, a unit separator and the session id, and the id is read back as what stands behind the *last*
separator.
-/

namespace RustCfml.Session

open Lowercase List

/-- What the store keeps of a session, but for its variables. -/
structure SessionData where
  createdSecs : Nat
  lastAccessedSecs : Nat
  timeoutSecs : Nat
  authUser : Option String
  authRoles : List String
  appName : String
deriving DecidableEq

def SessionData.isExpired (s : SessionData) (now : Nat) : Bool :=
  now - s.lastAccessedSecs > s.timeoutSecs

def unitSeparator : Char := Char.ofNat 0x1f

/-- Application and id in one text, the name lower-cased. -/
def compositeKey (T : CaseTables) (app id : String) : List Char :=
  toLowercase T app.toList ++ unitSeparator :: id.toList

/-- What is behind the last separator. -/
def idFromKey (key : List Char) : List Char := (key.reverse.takeWhile (· ≠ unitSeparator)).reverse

abbrev MemoryStore := AList fun _ : List Char => SessionData

namespace MemoryStore

/-- A record that has run out is taken away when it is asked for. -/
def get (T : CaseTables) (m : MemoryStore) (now : Nat) (app id : String) :
    Option SessionData × MemoryStore :=
  match m.lookup (compositeKey T app id) with
  | some s => if s.isExpired now then (none, m.erase (compositeKey T app id)) else (some s, m)
  | none => (none, m)

def set (T : CaseTables) (m : MemoryStore) (app id : String) (data : SessionData) : MemoryStore :=
  m.insert (compositeKey T app id) data

def remove (T : CaseTables) (m : MemoryStore) (app id : String) : MemoryStore :=
  m.erase (compositeKey T app id)

/-- The record goes over to the new id. -/
def rotate (T : CaseTables) (m : MemoryStore) (app oldId newId : String) : MemoryStore :=
  match m.lookup (compositeKey T app oldId) with
  | some data => (m.erase (compositeKey T app oldId)).insert (compositeKey T app newId) data
  | none => m

/-- Some application holds the id unexpired. -/
def idIssued (m : MemoryStore) (now : Nat) (id : String) : Bool :=
  m.entries.any fun e => idFromKey e.1 == id.toList && !e.2.isExpired now

/-- The reaper: what has run out, and the store without it. -/
def takeExpired (m : MemoryStore) (now : Nat) : List (String × List Char) × MemoryStore :=
  let expired := m.entries.filter fun e => e.2.isExpired now
  (expired.map fun e => (e.2.appName, idFromKey e.1), expired.foldl (fun m e => m.erase e.1) m)

def Holds (T : CaseTables) (m : MemoryStore) (now : Nat) (app id : String) : Prop :=
  ∃ s, m.lookup (compositeKey T app id) = some s ∧ s.isExpired now = false

instance (T : CaseTables) (m : MemoryStore) (now : Nat) (app id : String) :
    Decidable (Holds T m now app id) :=
  match h : m.lookup (compositeKey T app id) with
  | some s =>
    if hs : s.isExpired now = false then isTrue ⟨s, h, hs⟩
    else isFalse fun ⟨s', h', hs'⟩ => hs (by rw [h] at h'; cases h'; exact hs')
  | none => isFalse fun ⟨s, h', _⟩ => by rw [h] at h'; cases h'

end MemoryStore

lemma takeWhile_append_separator {xs : List Char} (h : unitSeparator ∉ xs) (ys : List Char) :
    (xs ++ unitSeparator :: ys).takeWhile (· ≠ unitSeparator) = xs := by
  induction xs with
  | nil => simp
  | cons x xs ih =>
    rw [mem_cons, not_or] at h
    rw [cons_append, takeWhile_cons_of_pos (by simpa using Ne.symm h.1), ih h.2]

lemma idFromKey_compositeKey (T : CaseTables) (app : String) {id : String}
    (h : unitSeparator ∉ id.toList) : idFromKey (compositeKey T app id) = id.toList := by
  have hrev : unitSeparator ∉ id.toList.reverse := fun hmem => h (mem_reverse.1 hmem)
  rw [idFromKey, compositeKey, reverse_append, reverse_cons, append_assoc,
    singleton_append, takeWhile_append_separator hrev, reverse_reverse]

namespace MemoryStore

variable {T : CaseTables} {m : MemoryStore} {now : Nat} {app id : String}

variable {k : List Char} {s : SessionData}

lemma get_eq_some (h : (m.get T now app id).1 = some s) :
    m.lookup (compositeKey T app id) = some s ∧ s.isExpired now = false := by
  rw [get] at h
  cases hlookup : m.lookup (compositeKey T app id) with
  | none => rw [hlookup] at h; cases h
  | some r =>
    rw [hlookup] at h
    dsimp only at h
    split at h
    · cases h
    · next hlive =>
      cases h
      exact ⟨rfl, by simpa using hlive⟩

lemma get_isSome_iff : (m.get T now app id).1.isSome = true ↔ Holds T m now app id := by
  constructor
  · intro h
    obtain ⟨s, hs⟩ := Option.isSome_iff_exists.1 h
    exact ⟨s, get_eq_some hs⟩
  · rintro ⟨s, hlookup, hlive⟩
    rw [get, hlookup]
    dsimp only
    rw [hlive]
    rfl

lemma lookup_get (hlive : s.isExpired now = false) :
    (m.get T now app id).2.lookup k = some s ↔ m.lookup k = some s := by
  rw [get]
  cases hown : m.lookup (compositeKey T app id) with
  | none => rfl
  | some r =>
    dsimp only
    split
    · next hexpired =>
      by_cases hk : k = compositeKey T app id
      · subst hk
        rw [AList.lookup_erase, hown]
        refine ⟨(fun h => nomatch h), fun h => ?_⟩
        cases h
        rw [hlive] at hexpired
        cases hexpired
      · rw [AList.lookup_erase_ne hk]
    · rfl

lemma mem_keys_get (h : k ∈ (m.get T now app id).2) : k ∈ m := by
  rw [get] at h
  split at h
  · split at h
    · exact ((AList.mem_erase).1 h).2
    · exact h
  · exact h

lemma mem_keys_set {data : SessionData} (h : k ∈ m.set T app id data) :
    k = compositeKey T app id ∨ k ∈ m := (AList.mem_insert m).1 h

lemma mem_keys_rotate {newId : String} (h : k ∈ m.rotate T app id newId) :
    k = compositeKey T app newId ∨ k ∈ m := by
  rw [rotate] at h
  split at h
  · exact ((AList.mem_insert _).1 h).imp_right fun h' => ((AList.mem_erase).1 h').2
  · exact .inr h

lemma mem_keys_takeExpired (h : k ∈ (m.takeExpired now).2) : k ∈ m := by
  have hfold : ∀ (es : List (Sigma fun _ : List Char => SessionData)) (m : MemoryStore),
      k ∈ es.foldl (fun m e => m.erase e.1) m → k ∈ m := by
    intro es
    induction es with
    | nil => exact fun _ h => h
    | cons e es ih => exact fun m h => ((AList.mem_erase).1 (ih _ h)).2
  exact hfold _ _ h

lemma idIssued_iff_mem {id : String} : m.idIssued now id = true ↔
    ∃ k s, m.lookup k = some s ∧ idFromKey k = id.toList ∧ s.isExpired now = false := by
  rw [idIssued, any_eq_true]
  constructor
  · rintro ⟨⟨k, s⟩, he, hmatch⟩
    rw [Bool.and_eq_true, beq_iff_eq, Bool.not_eq_true'] at hmatch
    exact ⟨k, s, AList.mem_lookup_iff.2 he, hmatch.1, hmatch.2⟩
  · rintro ⟨k, s, hlookup, hid, hlive⟩
    refine ⟨⟨k, s⟩, AList.mem_lookup_iff.1 hlookup, ?_⟩
    rw [Bool.and_eq_true, beq_iff_eq, Bool.not_eq_true']
    exact ⟨hid, hlive⟩

lemma idIssued_get (T : CaseTables) (m : MemoryStore) (now : Nat) (app id id' : String) :
    (m.get T now app id).2.idIssued now id' = m.idIssued now id' := by
  rw [Bool.eq_iff_iff, idIssued_iff_mem, idIssued_iff_mem]
  constructor
  · rintro ⟨k, s, hlookup, hid, hlive⟩
    exact ⟨k, s, (lookup_get hlive).1 hlookup, hid, hlive⟩
  · rintro ⟨k, s, hlookup, hid, hlive⟩
    exact ⟨k, s, (lookup_get hlive).2 hlookup, hid, hlive⟩

end MemoryStore

end RustCfml.Session
