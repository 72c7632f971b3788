import RustCfml.Lib.Assoc
import RustCfml.Lib.Lowercase

/-!
# Interned names (`cfml-common/src/name.rs`)

A name carries its lowercase form. `intern` looks for a spelling under the read lock, lets go of it
and **looks again under the write lock**: of two threads that found nothing, the second gets the
name of the first. -/

namespace RustCfml

open List Lowercase

structure Name where
  orig : String
  /-- Absent where it would be the spelling again. -/
  lower? : Option String

namespace Name

def newUnshared (T : CaseTables) (s : String) : Name where
  orig := s
  lower? :=
    if s.toList.any Char.isUpper || s.toList.any (!isAscii ·) then
      if lowerString T s = s then none else some (lowerString T s)
    else none

def lower (n : Name) : String := n.lower?.getD n.orig

lemma lower_newUnshared (T : CaseTables) (s : String) :
    (newUnshared T s).lower = lowerString T s := by
  unfold lower newUnshared
  dsimp only
  split
  · split
    next hsame => exact hsame.symm
    next => rfl
  next hplain =>
    simp only [Bool.or_eq_true, any_eq_true, not_or, not_exists, not_and,
      Bool.not_eq_true] at hplain
    have hmap : s.toList.map Char.toLower = s.toList := by
      refine (map_congr_left fun c hc => ?_).trans (map_id _)
      exact Char.toLower_eq_of_not_isUpper (by simpa using hplain.1 c hc)
    rw [lowerString, toLowercase, lowerFrom_ascii T fun c hc => by simpa using hplain.2 c hc, hmap]
    simp

end Name

/-- The table and the calls of `intern`; an `Arc` is the number of its allocation. -/
structure Interner where
  table : List (String × Nat)
  arcs : List Name
  /-- A thread has died with the write lock. -/
  poisoned : Bool
  /-- The calls between the two locks. -/
  missed : List String
  returned : List (String × Nat)

namespace Interner

inductive Op where
  | read (s : String)
  | write (s : String)
  | poison

def init : Interner := ⟨[], [], false, [], []⟩

def hit? (σ : Interner) (s : String) : Option Nat := if σ.poisoned then none else σ.table.lookup s

variable (T : CaseTables)

/-- A new name, which a poisoned table does not take. -/
def add (σ : Interner) (s : String) : Interner :=
  { σ with
    arcs := σ.arcs ++ [.newUnshared T s]
    table := if σ.poisoned then σ.table else (s, σ.arcs.length) :: σ.table
    returned := (s, σ.arcs.length) :: σ.returned }

def step (σ : Interner) : Op → Interner
  | .read s =>
    match σ.hit? s with
    | some p => { σ with returned := (s, p) :: σ.returned }
    | none => { σ with missed := s :: σ.missed }
  | .write s =>
    if s ∈ σ.missed then
      let σ := { σ with missed := σ.missed.erase s }
      match σ.hit? s with
      | some p => { σ with returned := (s, p) :: σ.returned }
      | none => σ.add T s
    else σ
  | .poison => { σ with poisoned := true }

/-- What came back has the spelling asked for and its lowercase form; and unless a thread died with
the lock, one spelling is one `Arc`. -/
structure Shares (σ : Interner) : Prop where
  named : ∀ a ∈ σ.returned, ∃ n, σ.arcs[a.2]? = some n ∧ n.orig = a.1 ∧ n.lower = lowerString T a.1
  once : σ.poisoned = false → ∀ a ∈ σ.returned, ∀ b ∈ σ.returned, a.1 = b.1 ↔ a.2 = b.2

structure Sound (σ : Interner) : Prop where
  made : ∀ e ∈ σ.table ++ σ.returned, σ.arcs[e.2]? = some (.newUnshared T e.1)
  shared : σ.poisoned = false → ∀ e ∈ σ.returned, σ.table.lookup e.1 = some e.2

variable {T} {σ : Interner} {s : String}

lemma Sound.hit (h : σ.Sound T) {p : Nat} (hp : σ.hit? s = some p) :
    Sound T { σ with returned := (s, p) :: σ.returned } := by
  have hlookup : σ.table.lookup s = some p := by
    unfold hit? at hp
    split at hp
    · cases hp
    · exact hp
  refine ⟨fun e he => ?_, fun hok => forall_mem_cons.2 ⟨hlookup, h.shared hok⟩⟩
  simp only [mem_append, mem_cons] at he
  obtain he | rfl | he := he
  · exact h.made e (mem_append_left _ he)
  · exact h.made _ (mem_append_left _ (Assoc.mem_of_lookup hlookup))
  · exact h.made e (mem_append_right _ he)

lemma Sound.add (h : σ.Sound T) (hmiss : σ.hit? s = none) : (σ.add T s).Sound T := by
  have hold : ∀ e ∈ σ.table ++ σ.returned,
      (σ.arcs ++ [.newUnshared T s])[e.2]? = some (.newUnshared T e.1) := by
    intro e he
    have hget := h.made e he
    rwa [getElem?_append_left (List.getElem?_eq_some_iff.1 hget).1]
  have hnew : (σ.arcs ++ [.newUnshared T s])[σ.arcs.length]? = some (.newUnshared T s) :=
    getElem?_concat_length
  obtain ⟨htable, hreturned⟩ := forall_mem_append.1 hold
  refine ⟨forall_mem_append.2 ⟨?_, forall_mem_cons.2 ⟨hnew, hreturned⟩⟩, fun hok => ?_⟩
  · simp only [Interner.add]
    split
    · exact htable
    · exact forall_mem_cons.2 ⟨hnew, htable⟩
  · have hok : σ.poisoned = false := hok
    have hnone : σ.table.lookup s = none := by simpa [hit?, hok] using hmiss
    simp only [Interner.add, hok, Bool.false_eq_true, if_false, lookup_cons]
    refine forall_mem_cons.2 ⟨by simp, fun e he => ?_⟩
    -- no call has returned for a spelling that is not in the table
    have hfound := h.shared hok e he
    have hne : (e.1 == s) = false := by
      rw [beq_eq_false_iff_ne]
      rintro heq
      cases (heq ▸ hfound).symm.trans hnone
    rw [hne]
    exact hfound

lemma Sound.step (h : σ.Sound T) (op : Op) : (σ.step T op).Sound T := by
  cases op with
  | read s =>
    simp only [Interner.step]
    split
    next p hp => exact h.hit hp
    next => exact ⟨h.made, h.shared⟩
  | write s =>
    have herased : Sound T { σ with missed := σ.missed.erase s } := ⟨h.made, h.shared⟩
    simp only [Interner.step]
    split
    · split
      next p hp => exact herased.hit hp
      next hp => exact herased.add hp
    · exact h
  | poison => exact ⟨h.made, fun h => by cases h⟩

lemma Sound.shares (h : σ.Sound T) : σ.Shares T := by
  have hmade := (forall_mem_append.1 h.made).2
  refine ⟨fun a ha => ⟨_, hmade a ha, rfl, Name.lower_newUnshared T a.1⟩, fun hok a ha b hb => ?_⟩
  refine ⟨fun heq => ?_, fun heq => ?_⟩
  · exact Option.some_inj.1 ((h.shared hok a ha).symm.trans (heq ▸ h.shared hok b hb))
  · have hname := Option.some_inj.1 ((hmade a ha).symm.trans (heq ▸ hmade b hb))
    exact congrArg Name.orig hname

variable (T) in
/-- **Interning is sound in every interleaving** of the calls, with a thread dying at any moment. -/
theorem interned_once (ops : List Op) : (ops.foldl (step T) init).Shares T := by
  have hinit : init.Sound T := ⟨by simp [init], by simp [init]⟩
  exact (foldlRecOn ops (step T) hinit fun _ h op _ => h.step op).shares

end Interner

end RustCfml
