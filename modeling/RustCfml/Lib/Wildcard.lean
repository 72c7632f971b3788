import Mathlib

/-!
# Wildcard patterns

* **Search.** A matcher that looks for a piece of the text needs no element at an open end:
  an `any` at the front is the freedom to start anywhere (`matches_any_iff`), one at the back
  the freedom to stop anywhere (`matches_append_any`).
* **Greedy matching with one point to return to.** `greedy` keeps only the last `any` it
  passed. That this is enough is the one fact with an argument in it: whatever an earlier
  `any` could still take, the last one can take as well (`matches_skip`).
-/

namespace Wildcard

open List

variable {α : Type}

inductive Elem (α : Type) where
  | any
  | one
  | lit (c : α)
deriving DecidableEq

inductive Matches (same : α → α → Prop) : List (Elem α) → List α → Prop
  | nil : Matches same [] []
  | stop {es : List (Elem α)} {t : List α} : Matches same es t → Matches same (.any :: es) t
  | more {es : List (Elem α)} {x : α} {t : List α} :
      Matches same (.any :: es) t → Matches same (.any :: es) (x :: t)
  | one {es : List (Elem α)} {x : α} {t : List α} :
      Matches same es t → Matches same (.one :: es) (x :: t)
  | lit {es : List (Elem α)} {c x : α} {t : List α} :
      same c x → Matches same es t → Matches same (.lit c :: es) (x :: t)

variable {same : α → α → Prop} {es es' : List (Elem α)} {t : List α}

/-! ## One element at a time -/

@[simp] lemma matches_nil_iff : Matches same [] t ↔ t = [] := by
  constructor
  · intro h
    cases h
    rfl
  · rintro rfl
    exact .nil

@[simp] lemma matches_one_iff : Matches same (.one :: es) t ↔ ∃ x u, t = x :: u ∧
    Matches same es u := by
  constructor
  · intro h
    cases h with
    | one h => exact ⟨_, _, rfl, h⟩
  · rintro ⟨x, u, rfl, h⟩
    exact .one h

@[simp] lemma matches_lit_iff {c : α} :
    Matches same (.lit c :: es) t ↔ ∃ x u, t = x :: u ∧ same c x ∧ Matches same es u := by
  constructor
  · intro h
    cases h with
    | lit hc h => exact ⟨_, _, rfl, hc, h⟩
  · rintro ⟨x, u, rfl, hc, h⟩
    exact .lit hc h

lemma Matches.any_append (h : Matches same es t) : ∀ s : List α, Matches same (.any :: es) (s ++ t)
  | [] => .stop h
  | _ :: s => .more (h.any_append s)

lemma matches_any_iff : Matches same (.any :: es) t ↔ ∃ s u, t = s ++ u ∧ Matches same es u := by
  constructor
  · intro h
    generalize hes : Elem.any :: es = es0 at h
    induction h with
    | stop h _ => exact ⟨[], _, rfl, (cons.inj hes).2 ▸ h⟩
    | more _ ih =>
      obtain ⟨s, u, rfl, hu⟩ := ih hes
      exact ⟨_ :: s, u, rfl, hu⟩
    | nil | one | lit => cases hes
  · rintro ⟨s, u, rfl, h⟩
    exact h.any_append s

lemma matches_append : Matches same (es ++ es') t ↔ ∃ s u, t = s ++ u ∧ Matches same es s ∧
    Matches same es' u := by
  induction es generalizing t with
  | nil => simp
  | cons e es ih =>
    cases e with
    | any =>
      rw [cons_append, matches_any_iff]
      constructor
      · rintro ⟨a, b, rfl, h⟩
        obtain ⟨c, d, rfl, hc, hd⟩ := ih.1 h
        exact ⟨a ++ c, d, (append_assoc a c d).symm, hc.any_append a, hd⟩
      · rintro ⟨s, u, rfl, hs, hu⟩
        obtain ⟨a, b, rfl, hb⟩ := matches_any_iff.1 hs
        exact ⟨a, b ++ u, append_assoc a b u, ih.2 ⟨b, u, rfl, hb, hu⟩⟩
    | one =>
      rw [cons_append, matches_one_iff]
      constructor
      · rintro ⟨x, b, rfl, h⟩
        obtain ⟨c, d, rfl, hc, hd⟩ := ih.1 h
        exact ⟨x :: c, d, rfl, .one hc, hd⟩
      · rintro ⟨s, u, rfl, hs, hu⟩
        obtain ⟨x, b, rfl, hb⟩ := matches_one_iff.1 hs
        exact ⟨x, b ++ u, rfl, ih.2 ⟨b, u, rfl, hb, hu⟩⟩
    | lit c =>
      rw [cons_append, matches_lit_iff]
      constructor
      · rintro ⟨x, b, rfl, hx, h⟩
        obtain ⟨c, d, rfl, hc, hd⟩ := ih.1 h
        exact ⟨x :: c, d, rfl, .lit hx hc, hd⟩
      · rintro ⟨s, u, rfl, hs, hu⟩
        obtain ⟨x, b, rfl, hx, hb⟩ := matches_lit_iff.1 hs
        exact ⟨x, b ++ u, rfl, hx, ih.2 ⟨b, u, rfl, hb, hu⟩⟩

lemma matches_append_any : Matches same (es ++ [.any]) t ↔ ∃ s u, t = s ++ u ∧
    Matches same es s := by
  rw [matches_append]
  constructor
  · rintro ⟨s, u, rfl, hs, -⟩
    exact ⟨s, u, rfl, hs⟩
  · rintro ⟨s, u, rfl, hs⟩
    refine ⟨s, u, rfl, hs, ?_⟩
    rw [← append_nil u]
    exact Matches.nil.any_append u

lemma matches_map_lit {cs : List α} : Matches same (cs.map .lit) t ↔ List.Forall₂ same cs t := by
  induction cs generalizing t with
  | nil => simp
  | cons c cs ih =>
    rw [map_cons, matches_lit_iff, forall₂_cons_left_iff]
    simp only [ih]
    constructor
    · rintro ⟨x, u, rfl, hx, hu⟩
      exact ⟨x, u, hx, hu, rfl⟩
    · rintro ⟨x, u, hx, hu, rfl⟩
      exact ⟨x, u, rfl, hx, hu⟩

/-- The letters that are left, those the last `any` may still give up included. -/
def left {β : Type} (t : List α) : Option (β × List α) → Nat
  | none => t.length + 1
  | some (_, r) => max r.length t.length

/-- The elements are met one by one; at a letter that does not fit, the last `any` takes one letter
more and the matching goes on behind it. -/
def greedy (same : α → α → Bool) (es : List (Elem α)) (t : List α)
    (back : Option (List (Elem α) × List α)) : Bool :=
  match t with
  | [] => (es.dropWhile fun e => e matches .any).isEmpty
  | x :: t' =>
    match es with
    | .any :: es' => greedy same es' (x :: t') (some (es', x :: t'))
    | .one :: es' => greedy same es' t' back
    | .lit c :: es' =>
      if same c x then greedy same es' t' back
      else
        match back with
        | some (bs, _ :: r) => greedy same bs r (some (bs, r))
        | _ => false
    | [] =>
      match back with
      | some (bs, _ :: r) => greedy same bs r (some (bs, r))
      | _ => false
termination_by (left t back, es.length)
decreasing_by
  iterate 3
    · rw [Prod.lex_def]
      cases back <;> simp only [left, length_cons] <;> omega
  all_goals
    rw [Prod.lex_def]
    simp only [left, length_cons]
    omega

section

variable {same : α → α → Bool} {x c : α} {back : Option (List (Elem α) × List α)}

lemma greedy_any : greedy same (.any :: es) (x :: t) back = greedy same es (x :: t)
    (some (es, x :: t)) := by
  rw [greedy]

lemma greedy_one : greedy same (.one :: es) (x :: t) back = greedy same es t back := by
  rw [greedy]

lemma greedy_lit_of_same (h : same c x = true) :
    greedy same (.lit c :: es) (x :: t) back = greedy same es t back := by
  conv_lhs => rw [greedy.eq_def]
  exact if_pos h

lemma greedy_stuck (hes : es = [] ∨ ∃ c es', es = .lit c :: es' ∧ same c x = false) :
    greedy same es (x :: t) back =
      match back with
      | some (bs, _ :: r) => greedy same bs r (some (bs, r))
      | _ => false := by
  rcases hes with rfl | ⟨c, es', rfl, hc⟩
  · conv_lhs => rw [greedy.eq_def]
  · conv_lhs => rw [greedy.eq_def]
    exact if_neg (by simp [hc])

lemma greedy_stuck_end (hes : es = [] ∨ ∃ c es', es = .lit c :: es' ∧ same c x = false)
    (hback : ∀ bs y r, back = some (bs, y :: r) → False) :
    greedy same es (x :: t) back = false := by
  rw [greedy_stuck hes]
  match back, hback with
  | none, _ => rfl
  | some (_, []), _ => rfl
  | some (bs, y :: r), hback => exact (hback bs y r rfl).elim

end

def Single (es : List (Elem α)) : Prop := ∀ e ∈ es, e ≠ .any

lemma Matches.length_eq (h : Matches same es t) (hes : Single es) : es.length = t.length := by
  induction h with
  | nil => rfl
  | stop | more => exact absurd rfl (hes _ mem_cons_self)
  | one _ ih | lit _ _ ih => exact congrArg (· + 1) (ih (forall_mem_cons.1 hes).2)

/-- **What an earlier `any` can still take, the last one can take as well**: if the elements before
the last `any` fit somewhere further on, what stands behind it fits further on too. -/
theorem matches_skip {qs : List (Elem α)} {s r : List α} (hq : Single qs)
    (hlen : qs.length = s.length)
    (h : Matches same (.any :: (qs ++ .any :: es)) r) (hr : r <:+ s ++ t) :
    Matches same (.any :: es) t := by
  obtain ⟨a, u, rfl, hu⟩ := matches_any_iff.1 h
  obtain ⟨v, w, rfl, hv, hw⟩ := matches_append.1 hu
  obtain ⟨b, c, rfl, hc⟩ := matches_any_iff.1 hw
  have hvlen : v.length = s.length := (hv.length_eq hq).symm.trans hlen
  -- `b ++ c` stands behind as many letters as `t` does, so it is a tail of `t`
  have hbc : b ++ c <:+ t := by
    obtain ⟨d, hd⟩ := hr
    have htail : b ++ c <:+ s ++ t := ⟨d ++ (a ++ v), by rw [← hd]; simp⟩
    refine suffix_of_suffix_length_le htail (suffix_append s t) ?_
    have := congrArg length hd
    simp at this ⊢
    omega
  obtain ⟨d, rfl⟩ := hbc
  exact matches_any_iff.2 ⟨d ++ b, c, by simp, hc⟩

/-- What the greedy matcher returns to. -/
def Behind (es : List (Elem α)) (t : List α) : Option (List (Elem α) × List α) → Prop
  | none => True
  | some (bs, r) => ∃ qs s, Single qs ∧ qs.length = s.length ∧ bs = qs ++ es ∧ r = s ++ t

/-- The text fits behind the last `any`, that one taking at least one letter more. -/
def Later (same : α → α → Prop) : Option (List (Elem α) × List α) → Prop
  | none => False
  | some (bs, r) => ∃ y u, r = y :: u ∧ Matches same (.any :: bs) u

lemma behind_self : Behind es t (some (es, t)) := ⟨[], [], nofun, rfl, rfl, rfl⟩

variable {back : Option (List (Elem α) × List α)}

lemma Behind.next {e : Elem α} {x : α} (h : Behind (e :: es) (x :: t) back) (he : e ≠ .any) :
    Behind es t back := by
  cases back with
  | none => trivial
  | some b =>
    obtain ⟨qs, s, hqs, hlen, hbs, hr⟩ := h
    refine ⟨qs ++ [e], s ++ [x], ?_, by simp [hlen], by simp [hbs], by simp [hr]⟩
    intro d hd
    rcases mem_append.1 hd with hd | hd
    · exact hqs d hd
    · rw [mem_singleton.1 hd]
      exact he

lemma matches_or_later : Matches same es t ∨ Later same (some (es, t)) ↔
    Matches same (.any :: es) t := by
  constructor
  · rintro (h | ⟨y, u, rfl, h⟩)
    · exact .stop h
    · exact .more h
  · intro h
    cases h with
    | stop h => exact .inl h
    | more h => exact .inr ⟨_, _, rfl, h⟩

lemma Behind.matches_of_later
    (h : Behind (.any :: es) t back) (hlater : Later same back) : Matches same (.any :: es) t := by
  cases back with
  | none => cases hlater
  | some b =>
    obtain ⟨qs, s, hqs, hlen, hbs, hr⟩ := h
    obtain ⟨y, u, hu, hmatch⟩ := hlater
    rw [hbs] at hmatch
    exact matches_skip hqs hlen hmatch ⟨[y], by rw [← hr, hu]; rfl⟩

lemma Behind.not_later (h : Behind es [] back) : ¬ Later same back := by
  cases back with
  | none => exact id
  | some b =>
    rintro ⟨y, u, hu, hmatch⟩
    obtain ⟨qs, s, hqs, hlen, hbs, hr⟩ := h
    rw [hbs] at hmatch
    obtain ⟨a, v, rfl, hv⟩ := matches_any_iff.1 hmatch
    obtain ⟨w, z, rfl, hw, -⟩ := matches_append.1 hv
    have hwlen := hw.length_eq hqs
    have hslen := congrArg length (hr.symm.trans hu)
    simp at hslen
    omega

lemma not_later (h : ∀ bs y r, back = some (bs, y :: r) → False) : ¬ Later same back := by
  cases back with
  | none => exact id
  | some b =>
    rintro ⟨y, u, hu, -⟩
    exact h b.1 y u (by rw [← hu])

lemma matches_nil_right : Matches same es [] ↔ (es.dropWhile fun e => e matches .any).isEmpty =
    true := by
  induction es with
  | nil => simp
  | cons e es ih =>
    cases e with
    | any =>
      rw [dropWhile_cons_of_pos rfl, ← ih]
      constructor
      · intro h
        cases h with
        | stop h => exact h
      · exact .stop
    | one | lit c => simp

theorem greedy_iff {same : α → α → Bool} {es : List (Elem α)} {t : List α}
    (hback : Behind es t back) : greedy same es t back = true ↔
      Matches (fun c x => same c x = true) es t ∨ Later (fun c x => same c x = true) back := by
  fun_induction greedy same es t back with
  | case1 es back =>
    rw [← matches_nil_right]
    exact (or_iff_left hback.not_later).symm
  | case2 back x t es ih =>
    rw [ih behind_self, matches_or_later]
    exact (or_iff_left_of_imp hback.matches_of_later).symm
  | case3 back x t es ih =>
    rw [ih (hback.next nofun), matches_one_iff]
    simp
  | case4 back x t c es hc ih =>
    rw [ih (hback.next nofun), matches_lit_iff]
    simp [hc]
  | case5 x t c es hc bs y r ih =>
    rw [ih behind_self, matches_or_later, matches_lit_iff]
    simp [hc, Later]
  | case6 back x t c es hc hnone =>
    simp [hc, not_later hnone]
  | case7 x t bs y r ih =>
    rw [ih behind_self, matches_or_later]
    simp [Later]
  | case8 back x t hnone =>
    simp [not_later hnone]

end Wildcard
