import Mathlib

/-!
# The first element of each key

`dedupBy key seen xs` keeps from `xs` the elements whose key was not met before, neither in
`seen` nor earlier in `xs`. Dropping repetitions in the middle of a list and dropping them at
its end differ only in what comes after the middle: **`dedupBy_append_eq_iff` says when the
tail of a list may be left out of the dropping.**
-/

namespace FirstOf

open List

variable {α γ : Type} [DecidableEq γ] (key : α → γ)

def dedupBy : List γ → List α → List α
  | _, [] => []
  | seen, x :: xs =>
    if key x ∈ seen then dedupBy seen xs else x :: dedupBy (key x :: seen) xs

lemma dedupBy_congr : ∀ {seen seen' : List γ} (xs : List α), (∀ k, k ∈ seen ↔ k ∈ seen') →
    dedupBy key seen xs = dedupBy key seen' xs
  | _, _, [], _ => rfl
  | seen, seen', x :: xs, h => by
    have hcons : ∀ k, k ∈ key x :: seen ↔ k ∈ key x :: seen' :=
      fun k => by rw [mem_cons, mem_cons, h k]
    rw [dedupBy, dedupBy,
      if_congr (h (key x)) (dedupBy_congr xs h) (congrArg (x :: ·) (dedupBy_congr xs hcons))]

lemma dedupBy_append : ∀ (seen : List γ) (xs ys : List α),
    dedupBy key seen (xs ++ ys) = dedupBy key seen xs ++ dedupBy key (xs.map key ++ seen) ys
  | _, [], _ => rfl
  | seen, x :: xs, ys => by
    rw [cons_append, dedupBy, dedupBy]
    split
    · next hx =>
      rw [dedupBy_append seen xs ys]
      congr 1
      refine dedupBy_congr key ys fun k => ?_
      simp only [map_cons, cons_append, mem_cons]
      refine ⟨.inr, ?_⟩
      rintro (rfl | hk)
      · exact mem_append_right _ hx
      · exact hk
    · rw [dedupBy_append (key x :: seen) xs ys, cons_append]
      congr 2
      refine dedupBy_congr key ys fun k => ?_
      simp only [map_cons, cons_append, mem_cons, mem_append]
      tauto

lemma dedupBy_sublist : ∀ (seen : List γ) (xs : List α), (dedupBy key seen xs).Sublist xs
  | _, [] => .slnil
  | seen, x :: xs => by
    rw [dedupBy]
    split
    · exact (dedupBy_sublist seen xs).cons x
    · exact (dedupBy_sublist _ xs).cons_cons x

lemma mem_map_dedupBy (seen : List γ) (xs : List α) (k : γ) :
    k ∈ (dedupBy key seen xs).map key ++ seen ↔ k ∈ xs.map key ++ seen := by
  induction xs generalizing seen with
  | nil => rfl
  | cons x xs ih =>
    rw [dedupBy]
    split
    · next hx =>
      rw [ih seen, map_cons, cons_append, mem_cons]
      refine ⟨.inr, ?_⟩
      rintro (rfl | hk)
      · exact mem_append_right _ hx
      · exact hk
    · have h := ih (key x :: seen)
      simp only [map_cons, cons_append, mem_cons, mem_append] at h ⊢
      tauto

lemma dedupBy_eq_self_iff : ∀ {seen : List γ} {xs : List α},
    dedupBy key seen xs = xs ↔ (xs.map key).Nodup ∧ ∀ x ∈ xs, key x ∉ seen
  | _, [] => by simp [dedupBy]
  | seen, x :: xs => by
    rw [dedupBy]
    split
    · next hx =>
      have hlt : dedupBy key seen xs ≠ x :: xs := fun h => by
        have := (dedupBy_sublist key seen xs).length_le
        rw [h] at this
        exact absurd this (by simp)
      refine ⟨fun h => absurd h hlt, fun h => absurd hx (h.2 x mem_cons_self)⟩
    · next hx =>
      rw [cons.injEq, dedupBy_eq_self_iff]
      simp only [true_and, map_cons, nodup_cons, mem_cons, forall_eq_or_imp, hx,
        not_false_eq_true, not_or, mem_map, not_exists, not_and]
      refine ⟨fun ⟨hnd, hnew⟩ => ⟨⟨fun y hy => (hnew y hy).1, hnd⟩, fun y hy => (hnew y hy).2⟩,
        fun ⟨⟨hne, hnd⟩, hnew⟩ => ⟨hnd, fun y hy => ⟨hne y hy, hnew y hy⟩⟩⟩

lemma nodup_dedupBy (seen : List γ) (xs : List α) : ((dedupBy key seen xs).map key).Nodup ∧
    ∀ k ∈ (dedupBy key seen xs).map key, k ∉ seen := by
  induction xs generalizing seen with
  | nil => exact ⟨nodup_nil, fun _ h => nomatch h⟩
  | cons x xs ih =>
    rw [dedupBy]
    split
    · exact ih seen
    · next hx =>
      obtain ⟨hnd, hnew⟩ := ih (key x :: seen)
      refine ⟨nodup_cons.2 ⟨fun h => hnew _ h mem_cons_self, hnd⟩, fun k hk => ?_⟩
      rcases mem_cons.1 hk with rfl | hk
      · exact hx
      · exact fun h => hnew k hk (mem_cons_of_mem _ h)

lemma dedupBy_dedupBy_append (xs ys : List α) :
    dedupBy key [] (dedupBy key [] xs ++ ys) = dedupBy key [] (xs ++ ys) := by
  have hidem : dedupBy key [] (dedupBy key [] xs) = dedupBy key [] xs :=
    (dedupBy_eq_self_iff key).2 ⟨(nodup_dedupBy key [] xs).1, fun _ _ h => nomatch h⟩
  rw [dedupBy_append, dedupBy_append, hidem]
  congr 1
  exact dedupBy_congr key ys fun k => mem_map_dedupBy key [] xs k

/-- Dropping the repetitions of the whole list drops none of its tail exactly where the tail's keys
are new. -/
lemma dedupBy_append_eq_iff {xs ys : List α} : dedupBy key [] (xs ++ ys) = dedupBy key [] xs ++ ys ↔
      (ys.map key).Nodup ∧ ∀ y ∈ ys, key y ∉ xs.map key := by
  rw [dedupBy_append, append_cancel_left_eq, dedupBy_eq_self_iff, append_nil]

omit [DecidableEq γ] in
lemma nodup_drop_iff {ks : List γ} {n : Nat} :
    ((ks.drop n).Nodup ∧ ∀ k ∈ ks.drop n, k ∉ ks.take n) ↔
      ∀ j, n ≤ j → j < ks.length → ∀ i < j, ks[i]? ≠ ks[j]? := by
  rw [nodup_iff_getElem?_ne_getElem?]
  constructor
  · rintro ⟨hnd, hnew⟩ j hnj hj i hij heq
    by_cases hin : i < n
    · refine hnew (ks[j]) (mem_of_getElem? (i := j - n) ?_)
        (mem_of_getElem? (i := i) ?_)
      · rw [getElem?_drop, Nat.add_sub_cancel' hnj, getElem?_eq_getElem hj]
      · rw [getElem?_take_of_lt hin, heq, getElem?_eq_getElem hj]
    · refine hnd (i - n) (j - n) (by omega) (by rw [length_drop]; omega) ?_
      rw [getElem?_drop, getElem?_drop, Nat.add_sub_cancel' hnj, Nat.add_sub_cancel' (by omega),
        heq]
  · intro h
    refine ⟨fun i j hij hj => ?_, fun k hk hk' => ?_⟩
    · rw [length_drop] at hj
      rw [getElem?_drop, getElem?_drop]
      exact h (n + j) (by omega) (by omega) (n + i) (by omega)
    · obtain ⟨j, hj⟩ := mem_iff_getElem?.1 hk
      obtain ⟨i, hi⟩ := mem_iff_getElem?.1 hk'
      have hin : i < n := by
        have := (List.getElem?_eq_some_iff.1 hi).1
        rw [length_take] at this
        omega
      rw [getElem?_drop] at hj
      rw [getElem?_take_of_lt hin] at hi
      exact h (n + j) (by omega) (List.getElem?_eq_some_iff.1 hj).1 i (by omega) (hi.trans hj.symm)

/-- Lists joined from the left: one marked `false` has the repetitions of all so far dropped behind
it. -/
def chain : List α → List (Bool × List α) → List α
  | acc, [] => acc
  | acc, (all, ys) :: arms =>
    chain (if all then acc ++ ys else dedupBy key [] (acc ++ ys)) arms

/-- How much of the joined list the last dropping saw. -/
def settled (total done : Nat) : List (Bool × Nat) → Nat
  | [] => done
  | (all, n) :: arms => settled (total + n) (if all then done else total + n) arms

lemma chain_eq : ∀ (arms : List (Bool × List α)) (xs : List α) (done : Nat), done ≤ xs.length →
      let all := xs ++ (arms.map Prod.snd).flatten
      let n := settled xs.length done (arms.map fun arm => (arm.1, arm.2.length))
      chain key (dedupBy key [] (xs.take done) ++ xs.drop done) arms =
        dedupBy key [] (all.take n) ++ all.drop n
  | [], xs, done, _ => by simp [chain, settled]
  | (true, ys) :: arms, xs, done, hdone => by
    have ih := chain_eq arms (xs ++ ys) done (by rw [length_append]; omega)
    rw [take_append_of_le_length hdone, drop_append_of_le_length hdone, ← append_assoc] at ih
    simpa [chain, settled] using ih
  | (false, ys) :: arms, xs, done, hdone => by
    have ih := chain_eq arms (xs ++ ys) (xs ++ ys).length le_rfl
    -- what was settled before is settled again with the rest
    have hagain : dedupBy key [] (dedupBy key [] (xs.take done) ++ (xs.drop done ++ ys)) =
        dedupBy key [] (xs ++ ys) := by
      rw [dedupBy_dedupBy_append, ← append_assoc, take_append_drop]
    rw [take_length, drop_length, append_nil] at ih
    simpa [chain, settled, hagain] using ih

/-- Dropping the repetitions of the whole chain once, at its end, is the chain exactly where nothing
that came after the last dropping repeats something. -/
lemma dedupBy_eq_chain_iff (xs : List α) (arms : List (Bool × List α)) :
    let all := xs ++ (arms.map Prod.snd).flatten
    let ks := all.map key
    dedupBy key [] all = chain key xs arms ↔
      ∀ j, settled xs.length 0 (arms.map fun arm => (arm.1, arm.2.length)) ≤ j → j < ks.length →
        ∀ i < j, ks[i]? ≠ ks[j]? := by
  intro all ks
  have hchain := chain_eq key arms xs 0 (Nat.zero_le _)
  rw [show dedupBy key [] (xs.take 0) ++ xs.drop 0 = xs from rfl] at hchain
  rw [hchain]
  generalize settled xs.length 0 (arms.map fun arm => (arm.1, arm.2.length)) = n
  conv_lhs => rw [← take_append_drop n all]
  rw [dedupBy_append_eq_iff, ← nodup_drop_iff, map_drop, ← map_take]
  simp [ks, ← map_drop]

lemma chain_of_all : ∀ {arms : List (Bool × List α)} (xs : List α), (∀ arm ∈ arms, arm.1 = true) →
    chain key xs arms = xs ++ (arms.map Prod.snd).flatten
  | [], xs, _ => (append_nil xs).symm
  | (all, ys) :: arms, xs, h => by
    obtain rfl : all = true := h _ mem_cons_self
    rw [chain, if_pos rfl, chain_of_all _ (forall_mem_cons.1 h).2]
    simp

end FirstOf
