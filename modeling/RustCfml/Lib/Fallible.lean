import RustCfml.Lib.RowProduct

/-!
# Traversals that may fail

A computation in `Except ε` ends with a value or with an error. Doing the same work in
another order may meet another error first, so two orders are compared up to *which* error
it is: **`Same x y` says that `x` and `y` succeed with the same value or both fail.**
-/

namespace Fallible

open RowProduct List

variable {ε : Type} {α β γ : Type}

/-- Both succeed with the same value, or both fail. -/
def Same (x y : Except ε α) : Prop := x.toOption = y.toOption

lemma Same.refl (x : Except ε α) : Same x x := rfl

variable {f g : α → Except ε β} {x y : Except ε α} {xs : List α} {ys : List β}

lemma Same.trans {z : Except ε α} (h : Same x y) (h' : Same y z) : Same x z := Eq.trans h h'

lemma Same.of_eq (h : x = y) : Same x y := h ▸ Same.refl x

lemma Same.eq_ok {a : α} (h : Same x y) (hx : x = .ok a) : y = .ok a := by
  subst hx
  cases y with
  | error e => cases h
  | ok b => cases h; rfl

lemma toOption_bind (x : Except ε α) (f : α → Except ε β) :
    (x >>= f).toOption = x.toOption.bind fun a => (f a).toOption := by
  cases x <;> rfl

lemma bind_eq_ok {b : β} (h : (x >>= f) = .ok b) : ∃ a, x = .ok a ∧ f a = .ok b := by
  cases x with
  | error e => cases h
  | ok a => exact ⟨a, rfl, h⟩

lemma Same.bind (h : Same x y) (hfg : ∀ a, Same (f a) (g a)) : Same (x >>= f) (y >>= g) := by
  rw [Same, toOption_bind, toOption_bind, show x.toOption = y.toOption from h]
  congr 1
  funext a
  exact hfg a

lemma Same.bind_of_ok (h : Same x y) (hfg : ∀ a, y = .ok a → Same (f a) (g a)) :
    Same (x >>= f) (y >>= g) := by
  refine (Same.bind h fun _ => .refl _).trans ?_
  cases hy : y with
  | error e => rfl
  | ok a => exact hfg a hy

lemma mapM_ok {g : α → β} : ∀ {xs : List α}, (∀ x ∈ xs, f x = .ok (g x)) →
    xs.mapM f = .ok (xs.map g)
  | [], _ => rfl
  | x :: xs, h => by
    rw [mapM_cons, h x mem_cons_self, mapM_ok (forall_mem_cons.1 h).2]
    rfl

lemma mapM_fails : ∀ {xs : List α} {x : α}, x ∈ xs → (f x).toOption = none →
    (xs.mapM f).toOption = none
  | y :: xs, x, hx, hf => by
    rw [mapM_cons, toOption_bind]
    rcases mem_cons.1 hx with rfl | hx
    · rw [hf]
      rfl
    · cases (f y).toOption with
      | none => rfl
      | some b =>
        show (mapM f xs >>= _).toOption = none
        rw [toOption_bind, mapM_fails hx hf]
        rfl

lemma mapM_eq_ok_iff : ∀ {xs : List α} {ys : List β}, xs.mapM f = .ok ys ↔ xs.map f = ys.map .ok
  | [], ys => by cases ys <;> simp [pure, Except.pure]
  | x :: xs, ys => by
    rw [mapM_cons, map_cons]
    cases hx : f x with
    | error e => cases ys <;> simp [bind, Except.bind]
    | ok b =>
      cases ys with
      | nil => cases xs.mapM f <;> simp [bind, Except.bind, pure, Except.pure]
      | cons y ys =>
        rw [map_cons, cons.injEq, ← mapM_eq_ok_iff]
        cases xs.mapM f <;> simp [bind, Except.bind, pure, Except.pure]

lemma exists_of_mapM_error {e : ε} : ∀ {xs : List α}, xs.mapM f = .error e → ∃ x ∈ xs,
    f x = .error e
  | [], h => by cases h
  | x :: xs, h => by
    rw [mapM_cons] at h
    cases hx : f x with
    | error e' =>
      rw [hx] at h
      cases h
      exact ⟨x, mem_cons_self, hx⟩
    | ok b =>
      cases hxs : xs.mapM f with
      | error e' =>
        rw [hx, hxs] at h
        cases h
        obtain ⟨y, hy, hfy⟩ := exists_of_mapM_error hxs
        exact ⟨y, mem_cons_of_mem _ hy, hfy⟩
      | ok bs => rw [hx, hxs] at h; cases h

lemma mapM_then (f : α → Except ε β) (h : β → γ) : ∀ xs : List α,
    xs.mapM (fun x => do let b ← f x; return h b) = (do let bs ← xs.mapM f; return bs.map h)
  | [] => rfl
  | x :: xs => by
    rw [mapM_cons, mapM_cons, mapM_then f h xs]
    cases f x with
    | error e => rfl
    | ok b => cases xs.mapM f <;> rfl

lemma mapM_congr : ∀ {xs : List α}, (∀ x ∈ xs, f x = g x) → xs.mapM f = xs.mapM g
  | [], _ => rfl
  | x :: xs, h => by
    rw [mapM_cons, mapM_cons, h x mem_cons_self, mapM_congr (forall_mem_cons.1 h).2]

lemma length_mapM (h : xs.mapM f = .ok ys) : ys.length = xs.length := by
  have := congrArg length (mapM_eq_ok_iff.1 h)
  rw [length_map, length_map] at this
  exact this.symm

lemma exists_of_mem_mapM {b : β} (h : xs.mapM f = .ok ys) (hb : b ∈ ys) : ∃ x ∈ xs,
    f x = .ok b := by
  have hmem : Except.ok b ∈ xs.map f := by
    rw [mapM_eq_ok_iff.1 h]
    exact mem_map_of_mem hb
  exact mem_map.1 hmem

lemma mapM_forall {p : β → Prop} (h : xs.mapM f = .ok ys) (hp : ∀ x b, f x = .ok b → p b) :
    ∀ b ∈ ys, p b := by
  intro b hb
  obtain ⟨x, _, hx⟩ := exists_of_mem_mapM h hb
  exact hp x b hx

lemma foldlM_eq_mapM (f : α → Except ε β) (push : γ → β → γ) : ∀ (xs : List α) (init : γ),
    xs.foldlM (fun acc x => do let b ← f x; return push acc b) init =
      (do let bs ← xs.mapM f; return bs.foldl push init)
  | [], _ => rfl
  | x :: xs, init => by
    rw [foldlM_cons, mapM_cons]
    cases f x with
    | error e => rfl
    | ok b =>
      show foldlM _ (push init b) xs = _
      rw [foldlM_eq_mapM f push xs]
      cases xs.mapM f <;> rfl

/-- What is done chunk by chunk, and what is done to the whole: `run` on an append is `run` on the
two parts. -/
lemma run_flatten (run : List α → Except ε (List β)) (hnil : run [] = .ok [])
    (happend : ∀ xs ys, run (xs ++ ys) = (do let a ← run xs; let b ← run ys; return a ++ b)) :
    ∀ chunks : List (List α),
    run chunks.flatten = (do let parts ← chunks.mapM run; return parts.flatten)
  | [] => hnil
  | chunk :: chunks => by
    rw [flatten_cons, happend, mapM_cons, run_flatten run hnil happend chunks]
    cases run chunk with
    | error e => rfl
    | ok a => cases chunks.mapM run <;> rfl

lemma mapM_flatten (f : α → Except ε β) (chunks : List (List α)) :
    chunks.flatten.mapM f = (do let parts ← chunks.mapM (mapM f); return parts.flatten) := by
  refine run_flatten (mapM f) rfl (fun xs ys => ?_) chunks
  rw [mapM_append]

lemma select_append (test : α → Except ε Bool) : ∀ xs ys : List α,
    select test (xs ++ ys) = (do let a ← select test xs; let b ← select test ys; return a ++ b)
  | [], ys => by
    show select test ys = (do let b ← select test ys; return [] ++ b)
    cases select test ys <;> rfl
  | x :: xs, ys => by
    rw [cons_append, select, select, select_append test xs ys]
    cases test x with
    | error e => rfl
    | ok keep =>
      cases select test xs with
      | error e => rfl
      | ok a =>
        cases select test ys with
        | error e => rfl
        | ok b => cases keep <;> rfl

lemma select_flatten (test : α → Except ε Bool) (chunks : List (List α)) :
    select test chunks.flatten = (do let parts ← chunks.mapM (select test); return parts.flatten) :=
  run_flatten (select test) rfl (select_append test) chunks

lemma select_map (g : α → β) (test : β → Except ε Bool) : ∀ xs : List α,
    select test (xs.map g) = (do let kept ← select (fun x => test (g x)) xs; return kept.map g)
  | [] => rfl
  | x :: xs => by
    rw [map_cons, select, select, select_map g test xs]
    cases test (g x) with
    | error e => rfl
    | ok keep =>
      cases select (fun x => test (g x)) xs with
      | error e => rfl
      | ok a => cases keep <;> rfl

lemma select_eq_mapM (test : α → Except ε Bool) : ∀ xs : List α, select test xs = (do
      let marked ← xs.mapM fun x => (test x).map fun (keep : Bool) => if keep then some x else none
      return marked.filterMap id)
  | [] => rfl
  | x :: xs => by
    rw [select, mapM_cons, select_eq_mapM test xs]
    cases test x with
    | error e => rfl
    | ok keep =>
      generalize (xs.mapM fun x => (test x).map fun (keep : Bool) => if keep then some x else
        none) = marked
      cases marked with
      | error e => rfl
      | ok tail => cases keep <;> rfl

lemma select_sublist {test : α → Except ε Bool} : ∀ {xs ys : List α}, select test xs = .ok ys →
    ys.Sublist xs
  | [], _, h => by
    cases h
    exact .slnil
  | x :: xs, ys, h => by
    rw [select] at h
    cases hx : test x with
    | error e => rw [hx] at h; cases h
    | ok keep =>
      cases hxs : select test xs with
      | error e => rw [hx, hxs] at h; cases h
      | ok rest =>
        rw [hx, hxs] at h
        cases keep with
        | true => cases h; exact (select_sublist hxs).cons_cons x
        | false => cases h; exact (select_sublist hxs).cons x

end Fallible
