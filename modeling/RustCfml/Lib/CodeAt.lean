import Mathlib

/-!
# Segments of a program at a position

`At code p seg`: the segment stands in the program from position `p` on. A program laid out
as a concatenation is taken apart with `at_append` and `at_cons`, position by position.
-/

namespace CodeAt

open List

variable {β : Type*} {code : List β} {p : Nat}

def At (code : List β) (p : Nat) (seg : List β) : Prop :=
  ∀ i x, seg[i]? = some x → code[p + i]? = some x

lemma at_self : At code 0 code := by
  intro i x h
  rw [Nat.zero_add]
  exact h

lemma at_append {a b : List β} : At code p (a ++ b) ↔ At code p a ∧ At code (p + a.length) b := by
  constructor
  · intro h
    constructor
    · intro i x hi
      exact h i x (by rw [getElem?_append_left (List.getElem?_eq_some_iff.1 hi).1, hi])
    · intro i x hi
      rw [Nat.add_assoc]
      exact h (a.length + i) x (by
        rw [getElem?_append_right (Nat.le_add_right _ _), Nat.add_sub_cancel_left, hi])
  · rintro ⟨ha, hb⟩ i x hi
    by_cases hlt : i < a.length
    · rw [getElem?_append_left hlt] at hi
      exact ha i x hi
    · rw [getElem?_append_right (Nat.le_of_not_lt hlt)] at hi
      have := hb (i - a.length) x hi
      rwa [Nat.add_assoc, Nat.add_sub_cancel' (Nat.le_of_not_lt hlt)] at this

lemma at_cons {x : β} {a : List β} : At code p (x :: a) ↔ code[p]? = some x ∧
    At code (p + 1) a := by
  rw [← singleton_append, at_append]
  refine and_congr_left fun _ => ⟨fun h => h 0 x rfl, fun h i y hi => ?_⟩
  cases i with
  | zero =>
    cases hi
    exact h
  | succ i => cases hi

/-- What takes a concatenation apart, as one rule for `simp only`. -/
lemma at_layout : (∀ {β : Type} {code : List β} {p : Nat} {a b : List β},
      At code p (a ++ b) ↔ At code p a ∧ At code (p + a.length) b) ∧
    (∀ {β γ : Type} {f : β → γ} {a b : List β}, (a ++ b).map f = a.map f ++ b.map f) ∧
    (∀ {β γ : Type} {f : β → γ} {a : List β}, (a.map f).length = a.length) ∧
    (∀ {β : Type} {a b : List β}, (a ++ b).length = a.length + b.length) ∧
    (∀ {β : Type} {x : β} {a : List β}, (x :: a).length = a.length + 1) ∧
    (∀ {β : Type}, ([] : List β).length = 0) ∧ (∀ {n : Nat}, 0 + n = n) ∧ ∀ {l m n : Nat},
    l + (m + n) = l + m + n :=
  ⟨at_append, map_append, length_map _, length_append, length_cons, length_nil, Nat.zero_add _,
    (Nat.add_assoc ..).symm⟩

end CodeAt
