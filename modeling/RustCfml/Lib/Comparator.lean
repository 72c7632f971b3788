import Mathlib

/-!
# Comparators that are total orders on a set

The one way to prove it is `TotalOrderOn.of_key`: **on `S` the comparator compares a key**,
and keys are compared by a lawful comparator. The one way to refute it is a triple.
-/

namespace Comparator

variable {α β : Type}

structure TotalOrderOn (cmp : α → α → Ordering) (S : Set α) : Prop where
  refl : ∀ a ∈ S, cmp a a ≠ .gt
  antisymm : ∀ a ∈ S, ∀ b ∈ S, cmp a b ≠ .gt → cmp b a ≠ .gt → cmp a b = .eq
  total : ∀ a ∈ S, ∀ b ∈ S, cmp a b ≠ .gt ∨ cmp b a ≠ .gt
  trans : ∀ a ∈ S, ∀ b ∈ S, ∀ c ∈ S, cmp a b ≠ .gt → cmp b c ≠ .gt → cmp a c ≠ .gt

lemma TotalOrderOn.mono {cmp : α → α → Ordering} {S T : Set α} (h : TotalOrderOn cmp T)
    (hst : S ⊆ T) : TotalOrderOn cmp S where
  refl a ha := h.refl a (hst ha)
  antisymm a ha b hb := h.antisymm a (hst ha) b (hst hb)
  total a ha b hb := h.total a (hst ha) b (hst hb)
  trans a ha b hb c hc := h.trans a (hst ha) b (hst hb) c (hst hc)

lemma TotalOrderOn.of_key {cmp : α → α → Ordering} {S : Set α} (kcmp : β → β → Ordering)
    [Std.TransCmp kcmp] (key : α → β) (h : ∀ a ∈ S, ∀ b ∈ S, cmp a b = kcmp (key a) (key b)) :
    TotalOrderOn cmp S where
  refl a ha := by
    rw [h a ha a ha, show kcmp (key a) (key a) = .eq from Std.ReflCmp.compare_self]
    exact Ordering.noConfusion
  antisymm a ha b hb := by
    rw [h a ha b hb, h b hb a ha, @Std.OrientedCmp.eq_swap _ kcmp _ (key b) (key a)]
    cases kcmp (key a) (key b) <;> simp
  total a ha b hb := by
    rw [h a ha b hb, h b hb a ha, @Std.OrientedCmp.eq_swap _ kcmp _ (key b) (key a)]
    cases kcmp (key a) (key b) <;> simp
  trans a ha b hb c hc := by
    rw [h a ha b hb, h b hb c hc, h a ha c hc]
    simp only [← Ordering.isLE_iff_ne_gt]
    exact Std.TransCmp.isLE_trans

end Comparator
