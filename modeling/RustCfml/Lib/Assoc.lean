import Mathlib

/-!
# Association lists

What `List.lookup` finds after the list was filtered by key or one of its keys was given a new
value.
-/

namespace Assoc

open List

variable {κ α : Type} [DecidableEq κ] {l : List (κ × α)} {k : κ} {v : α}

lemma lookup_filter (p : κ → Bool) :
    (l.filter fun e => p e.1).lookup k = if p k then l.lookup k else none := by
  induction l with
  | nil => simp
  | cons e l ih =>
    obtain ⟨k', v⟩ := e
    rw [filter_cons]
    by_cases hk : k = k'
    · subst hk
      by_cases hp : p k = true
      · simp [hp]
      · simp [hp, ih]
    · have hne : (k == k') = false := by simpa using hk
      by_cases hp : p k' = true
      iterate 2 simp [hp, lookup_cons, hne, ih]

lemma lookup_map_key (k' : κ) (w : α) : (l.map fun e => if e.1 = k' then (k', w) else e).lookup k =
      if k = k' then (l.lookup k').map fun _ => w else l.lookup k := by
  induction l with
  | nil => simp
  | cons e l ih =>
    obtain ⟨j, v⟩ := e
    rw [map_cons]
    by_cases hj : j = k'
    · subst hj
      by_cases hk : k = j
      · simp [hk]
      · have hne : (k == j) = false := by simpa using hk
        rw [if_pos rfl, lookup_cons, hne, ih, if_neg hk, if_neg hk, lookup_cons, hne]
    · rw [if_neg hj, lookup_cons, ih]
      by_cases hk : k = k'
      · subst hk
        have hne : (k == j) = false := by simpa using fun h : k = j => hj h.symm
        simp [lookup_cons, hne]
      · rw [if_neg hk, if_neg hk, lookup_cons]

lemma mem_of_lookup (h : l.lookup k = some v) : (k, v) ∈ l := by
  obtain ⟨l1, l2, rfl, -⟩ := lookup_eq_some_iff.1 h
  exact mem_append_right _ mem_cons_self

lemma lookup_of_mem (hl : (l.map Prod.fst).Nodup) (h : (k, v) ∈ l) : l.lookup k = some v := by
  induction l with
  | nil => cases h
  | cons e l ih =>
    obtain ⟨k', v'⟩ := e
    obtain ⟨hfresh, hrest⟩ := nodup_cons.1 hl
    rcases mem_cons.1 h with heq | hmem
    · obtain ⟨rfl, rfl⟩ := Prod.mk.inj heq
      simp
    · have hkey : k ∈ l.map Prod.fst := mem_map.2 ⟨(k, v), hmem, rfl⟩
      have hne : (k == k') = false := by simpa using fun heq : k = k' => hfresh (heq ▸ hkey)
      rw [lookup_cons, hne, ih hrest hmem]

end Assoc
