import Mathlib

/-!
# Loops over a text

A hand-written scanner is a loop with an index: it looks at the character under the index and at
what follows, changes its state, and moves the index on, by one character or past a stretch that
another scanner has measured. One round of the loop is a function (`Loop.body`) that either ends the
scan or says how many characters to skip beyond the one it looked at, so **a loop always moves on**,
and the loop itself (`Loop.run`) is a structural recursion that can be evaluated.
-/

namespace Scanner

open List

variable {α σ β : Type}

inductive Action (σ β : Type) where
  | stop (result : β)
  | go (state : σ) (skip : Nat)

/-- A loop: its body, at a character with the rest of the text behind it, and its result when the
text ends. -/
structure Loop (α σ β : Type) where
  body : σ → α → List α → Action σ β
  atEnd : σ → β

namespace Loop

variable (L : Loop α σ β)

def runFrom : Nat → σ → List α → β
  | _, s, [] => L.atEnd s
  | skip + 1, s, _ :: rest => runFrom skip s rest
  | 0, s, c :: rest =>
    match L.body s c rest with
    | .stop result => result
    | .go s' skip => runFrom skip s' rest

def run (s : σ) (text : List α) : β := L.runFrom 0 s text

lemma runFrom_eq (skip : Nat) (s : σ) (text : List α) :
    L.runFrom skip s text = L.run s (text.drop skip) := by
  induction text generalizing skip with
  | nil => cases skip <;> simp [run, runFrom]
  | cons c rest ih =>
    cases skip with
    | zero => rfl
    | succ skip => simpa [runFrom] using ih skip

@[simp] lemma run_nil (s : σ) : L.run s [] = L.atEnd s := rfl

lemma run_cons (s : σ) (c : α) (rest : List α) : L.run s (c :: rest) =
      match L.body s c rest with
      | .stop result => result
      | .go s' skip => L.run s' (rest.drop skip) := by
  rw [run, runFrom]
  cases L.body s c rest with
  | stop result => rfl
  | go s' skip => exact L.runFrom_eq skip s' rest

variable {rest : List α} {s : σ} {c : α}

lemma run_stop {result : β} (h : L.body s c rest = .stop result) :
    L.run s (c :: rest) = result := by
  rw [run_cons, h]

lemma run_go (s' : σ) (skip : Nat)
    (h : L.body s c rest = .go s' skip) : L.run s (c :: rest) = L.run s' (rest.drop skip) := by
  rw [run_cons, h]

theorem run_rule {I : σ → List α → Prop} {Q : β → Prop} (hend : ∀ s, I s [] → Q (L.atEnd s))
    (hstop : ∀ s c rest result, I s (c :: rest) → L.body s c rest = .stop result → Q result)
    (hgo : ∀ s c rest s' skip, I s (c :: rest) → L.body s c rest = .go s' skip →
      I s' (rest.drop skip)) :
    ∀ s text, I s text → Q (L.run s text)
  | s, [], h => hend s h
  | s, c :: rest, h => by
    rw [run_cons]
    split
    next result hbody => exact hstop s c rest result h hbody
    next s' skip hbody => exact run_rule hend hstop hgo s' _ (hgo s c rest s' skip h hbody)
  termination_by _ text => text.length
  decreasing_by
    simp only [length_drop, length_cons]
    omega

end Loop

section

variable {γ : Type} (emit : α → List α → List γ × Nat)

def rewriteLoop : Loop α (List γ) (List γ) where
  body out c rest := .go (out ++ (emit c rest).1) (emit c rest).2
  atEnd out := out

/-- The loop that writes as it goes: at each place, some output and some characters to skip. -/
def rewrite (text : List α) : List γ := (rewriteLoop emit).run [] text

lemma rewriteLoop_run (out : List γ) : ∀ text, (rewriteLoop emit).run out text = out ++
    rewrite emit text
  | [] => (append_nil out).symm
  | c :: rest => by
    rw [rewrite, (rewriteLoop emit).run_go _ _ rfl, (rewriteLoop emit).run_go _ _ rfl,
      rewriteLoop_run,
      rewriteLoop_run ([] ++ _)]
    simp
  termination_by text => text.length
  decreasing_by all_goals simp only [length_drop, length_cons]; omega

@[simp] lemma rewrite_nil : rewrite emit [] = [] := rfl

lemma rewrite_cons (c : α) (rest : List α) :
    rewrite emit (c :: rest) = (emit c rest).1 ++ rewrite emit (rest.drop (emit c rest).2) := by
  rw [rewrite, (rewriteLoop emit).run_go _ _ rfl, rewriteLoop_run, nil_append]

end

end Scanner
