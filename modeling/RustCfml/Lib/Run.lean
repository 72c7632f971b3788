import Mathlib

/-!
# Runs of a state machine, and the exact form of an invariant

The usual invariant rule is one implication: guarded steps preserve `P`, so a run of
guarded steps stays in `P`. **`along_iff_eachStep` is the exact form**: when the guard is
not only enough but also necessary for a step to stay in `P`, the runs that stay in `P`
are precisely the guarded ones.
-/

namespace StateMachine

variable {σ ι : Type*} (step : σ → ι → σ)

def Along (P : σ → Prop) : σ → List ι → Prop
  | s, [] => P s
  | s, op :: ops => P s ∧ Along P (step s op) ops

/-- Every operation of the run meets `G` in the state it is applied to. -/
def EachStep (G : σ → ι → Prop) : σ → List ι → Prop
  | _, [] => True
  | s, op :: ops => G s op ∧ EachStep G (step s op) ops

variable {step}

variable {s : σ} {ops : List ι} {G : σ → ι → Prop} {P I : σ → Prop}

lemma Along.head (h : Along step P s ops) : P s := by
  cases ops with
  | nil => exact h
  | cons op ops => exact h.1

theorem along_iff_eachStep (hstep : ∀ s op, P s → (P (step s op) ↔ G s op)) :
    ∀ {s : σ} {ops : List ι}, P s → (Along step P s ops ↔ EachStep step G s ops) := by
  intro s ops
  induction ops generalizing s with
  | nil => exact fun hs => ⟨fun _ => trivial, fun _ => hs⟩
  | cons op ops ih =>
    intro hs
    constructor
    · rintro ⟨-, htail⟩
      exact ⟨(hstep s op hs).1 htail.head, (ih htail.head).1 htail⟩
    · rintro ⟨hg, htail⟩
      have hs' : P (step s op) := (hstep s op hs).2 hg
      exact ⟨hs, (ih hs').2 htail⟩

/-- **The invariant rule.** Guarded steps keep an invariant, so a run of them stays in whatever the
invariant implies. -/
theorem along_of_invariant (himp : ∀ s, I s → P s) (hstep : ∀ s op, I s → G s op → I (step s op))
    (hs : I s)
    (hguard : EachStep step G s ops) : Along step P s ops := by
  induction ops generalizing s with
  | nil => exact himp s hs
  | cons op ops ih => exact ⟨himp s hs, ih (hstep s op hs hguard.1) hguard.2⟩

/-- **The invariant rule for what happens in a step.** In a run of guarded steps every step does
what an invariant of the states and the guard make it do. -/
theorem eachStep_of_invariant {Q : σ → ι → Prop}
    (hstep : ∀ s op, I s → G s op → Q s op ∧ I (step s op)) (hs : I s)
    (hguard : EachStep step G s ops) : EachStep step Q s ops := by
  induction ops generalizing s with
  | nil => trivial
  | cons op ops ih =>
    obtain ⟨hg, htail⟩ := hguard
    obtain ⟨hq, hs'⟩ := hstep s op hs hg
    exact ⟨hq, ih hs' htail⟩

lemma eachStep_congr_of_invariant {Q : σ → ι → Prop}
    (hstep : ∀ s op, I s → (G s op ↔ Q s op) ∧ I (step s op))
    (hs : I s) : EachStep step G s ops ↔ EachStep step Q s ops := by
  induction ops generalizing s with
  | nil => exact Iff.rfl
  | cons op ops ih =>
    obtain ⟨hiff, hs'⟩ := hstep s op hs
    exact and_congr hiff (ih hs')

end StateMachine
