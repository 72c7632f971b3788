import Mathlib

/-!
# Sorting positions

A table is sorted by sorting the numbers of its rows and then moving the cells of every column to
their places. `positions cmp n` is a stable sort of `0 .. n-1`; **for a lawful comparator it is the
one list of these numbers in which each is before the next, ties by number** (`positions_strict`).
-/

namespace StableSort

open List

/-- The first comparator that tells two apart decides. -/
def lexAll {α : Type} : List (α → α → Ordering) → α → α → Ordering
  | [], _, _ => .eq
  | cmp :: cmps, a, b => (cmp a b).then (lexAll cmps a b)

lemma isLE_then_iff (o o' : Ordering) : (o.then o').isLE = true ↔ o = .lt ∨
    (o = .eq ∧ o'.isLE = true) := by
  cases o <;> simp [Ordering.then]

lemma transCmp_lexAll {α : Type} : ∀ {cmps : List (α → α → Ordering)},
    (∀ cmp ∈ cmps, Std.TransCmp cmp) → Std.TransCmp (lexAll cmps)
  | [], _ => { eq_swap := rfl, isLE_trans := fun _ _ => rfl }
  | cmp :: cmps, h => by
    have hcmp : Std.TransCmp cmp := h cmp mem_cons_self
    have hrest : Std.TransCmp (lexAll cmps) := transCmp_lexAll (forall_mem_cons.1 h).2
    refine { eq_swap := ?_, isLE_trans := ?_ }
    · intro a b
      show (cmp a b).then _ = ((cmp b a).then _).swap
      rw [Ordering.swap_then, ← hcmp.eq_swap, ← hrest.eq_swap]
    · intro a b c hab hbc
      show ((cmp a c).then _).isLE = true
      rw [isLE_then_iff]
      rcases (isLE_then_iff _ _).1 hab with hab | ⟨hab, hab'⟩ <;>
        rcases (isLE_then_iff _ _).1 hbc with hbc | ⟨hbc, hbc'⟩
      · exact .inl (Std.TransCmp.lt_trans hab hbc)
      · exact .inl (Std.TransCmp.lt_of_lt_of_eq hab hbc)
      · exact .inl (Std.TransCmp.lt_of_eq_of_lt hab hbc)
      · exact .inr ⟨Std.TransCmp.eq_trans hab hbc, Std.TransCmp.isLE_trans hab' hbc'⟩

lemma not_both_sublist {l : List Nat} (hl : l.Nodup) {a b : Nat} (hab : [a, b].Sublist l)
    (hba : [b, a].Sublist l) : False := by
  have hidx : l.Pairwise fun x y => l.idxOf x < l.idxOf y := by
    rw [pairwise_iff_getElem]
    intro i j hi hj hij
    rwa [hl.idxOf_getElem i hi, hl.idxOf_getElem j hj]
  rw [pairwise_iff_forall_sublist] at hidx
  exact Nat.lt_asymm (hidx hab) (hidx hba)

lemma pair_sublist_range {n a b : Nat} (hab : a < b) (hb : b < n) : [a, b].Sublist (range n) := by
  refine sublist_of_subperm_of_pairwise (r := (· ≤ ·))
    (subperm_of_subset (by simpa using hab.ne) ?_) ?_ ?_
  · intro x hx
    simp at hx
    rcases hx with rfl | rfl
    · exact mem_range.2 (hab.trans hb)
    · exact mem_range.2 hb
  · simpa using hab.le
  · exact pairwise_le_range

def positions (cmp : Nat → Nat → Ordering) (n : Nat) : List Nat :=
  (List.range n).mergeSort fun a b => (cmp a b).isLE

lemma positions_perm (cmp : Nat → Nat → Ordering) (n : Nat) : (positions cmp n).Perm (range n) :=
  mergeSort_perm _ _

section

variable {cmp : Nat → Nat → Ordering} [hcmp : Std.TransCmp cmp] (n : Nat)

include hcmp

lemma positions_strict : (positions cmp n).Pairwise fun a b => cmp a b = .lt ∨
    (cmp a b = .eq ∧ a < b) := by
  have htrans : ∀ a b c, (cmp a b).isLE = true → (cmp b c).isLE = true → (cmp a c).isLE = true :=
    fun _ _ _ => Std.TransCmp.isLE_trans
  have htotal : ∀ a b, ((cmp a b).isLE || (cmp b a).isLE) = true := by
    intro a b
    rw [hcmp.eq_swap (a := b) (b := a)]
    cases cmp a b <;> rfl
  have hnodup : (positions cmp n).Nodup := (positions_perm cmp n).nodup_iff.2 nodup_range
  rw [pairwise_iff_forall_sublist]
  intro a b hsub
  have hle : (cmp a b).isLE = true :=
    (pairwise_iff_forall_sublist.1 (pairwise_mergeSort htrans htotal (range n))) hsub
  cases hab : cmp a b with
  | lt => exact .inl rfl
  | gt => rw [hab] at hle; exact nomatch hle
  | eq =>
    refine .inr ⟨rfl, ?_⟩
    have hne : a ≠ b := by
      have := hnodup.sublist hsub
      simpa using this
    rcases Nat.lt_or_gt_of_ne hne with hlt | hgt
    · exact hlt
    · -- the two would stand the other way round as well
      have hmem : ∀ x ∈ [a, b], x < n := fun x hx =>
        mem_range.1 ((positions_perm cmp n).mem_iff.1 (hsub.subset hx))
      have hba : (cmp b a).isLE = true := by rw [hcmp.eq_swap, hab]; rfl
      have hback : [b, a].Sublist (positions cmp n) := pair_sublist_mergeSort htrans htotal hba
        (pair_sublist_range hgt (hmem a (mem_cons_self)))
      exact (not_both_sublist hnodup hsub hback).elim

end

def moveOut {α : Type} : List (Option α) → List Nat → Option (List α)
  | _, [] => some []
  | cells, i :: places =>
    match cells[i]? with
    | some (some v) => (moveOut (cells.set i none) places).map (v :: ·)
    | _ => none

lemma moveOut_eq {α : Type} (fill : α) :
    ∀ {places : List Nat} {cells : List (Option α)} {col : List α},
    places.Nodup → (∀ i ∈ places, ∃ v, col[i]? = some v ∧ cells[i]? = some (some v)) →
      moveOut cells places = some (places.map fun i => col[i]?.getD fill)
  | [], _, _, _, _ => rfl
  | i :: places, cells, col, hnodup, hcells => by
    obtain ⟨hi, hrest⟩ := nodup_cons.1 hnodup
    obtain ⟨v, hcol, hcell⟩ := hcells i mem_cons_self
    have hleft : ∀ j ∈ places, ∃ w, col[j]? = some w ∧ (cells.set i none)[j]? = some (some w) := by
      intro j hj
      obtain ⟨w, hw, hcj⟩ := hcells j (mem_cons_of_mem _ hj)
      have hne : i ≠ j := fun h => hi (h ▸ hj)
      exact ⟨w, hw, by rw [getElem?_set_ne hne, hcj]⟩
    have ih := moveOut_eq fill hrest hleft
    simp [moveOut, hcell, ih, hcol]

end StableSort
