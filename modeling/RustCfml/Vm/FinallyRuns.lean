import RustCfml.Vm.Run

/-!
# How often a `finally` body runs

The compiler emits a copy of a `finally` body on every way out of its `try` that it knows of. **A
run is balanced when the copies started, together with the statements control is still in, make up
the statements entered** (`Balanced`): every leaving ran the body once. -/

namespace RustCfml.Vm

open Codegen List

section

variable {α κ σ : Type}

/-- Executions of the `TryStart` at `t`, of a statement with a `finally` body. -/
def entered (code : List (Instr α κ)) (t : Nat) (trace : List (State σ)) : Nat :=
  trace.countP fun s => s.ip == t && (code[s.ip]?).any Instr.enters

/-- Executions of the first instruction of a copy of its `finally` body. -/
def started (code : List (Instr α κ)) (t : Nat) (trace : List (State σ)) : Nat :=
  trace.countP fun s => (code[s.ip]?).any fun ins => ins.starts == some t

/-- Every leaving of a `try` statement has run its `finally` body once. -/
def Balanced (code : List (Instr α κ)) (trace : List (State σ)) : Status σ → Prop
  | .running s => ∃ ins, code[s.ip]? = some ins ∧
      ∀ t, started code t trace + ins.pendingBefore.count t = entered code t trace
  | _ => ∀ t, started code t trace = entered code t trace

def Owes (code : List (Instr α κ)) (t : Nat) (pending : List Nat) : Prop :=
  ∃ j, code[t]? = some j ∧ j.pendingBefore.Perm pending

/-- A raise arrives where the same bodies are pending, and so does a jump or return out of an
inlined copy. -/
structure Settles (H : Host α κ σ) (code : List (Instr α κ)) (s : State σ) (ins : Instr α κ) :
    Prop where
  caught : Raises H s ins → ∀ h rest, s.tryStack = h :: rest → Owes code h.catchIp ins.place.pending
  uncaught : Raises H s ins → s.tryStack = [] → ins.place.pending = []
  jumps : ins.escapes = true → ∀ t, ins.op = .jump t → Owes code t ins.place.pending
  returns : ins.escapes = true → ins.op = .ret → ins.place.pending = []

variable {H : Host α κ σ} {code : List (Instr α κ)}

variable {ins : Instr α κ} {trace : List (State σ)} {s : State σ} {pending : List Nat}

lemma owes_of_lands {t : Nat} (h : Lands code t pending) : Owes code t pending := by
  obtain ⟨j, hj, hpending⟩ := h
  exact ⟨j, hj, hpending ▸ Perm.refl _⟩

lemma count_pendingBefore {i : Nat} (h : Edges code i ins) (t : Nat) :
    ins.pendingBefore.count t + (if i == t && ins.enters then 1 else 0) =
      (if ins.starts == some t then 1 else 0) + ins.place.pending.count t := by
  cases hstarts : ins.starts with
  | some u =>
    have henters : ins.enters = false := by
      cases h' : ins.enters with
      | false => rfl
      | true => cases hstarts.symm.trans (h.entry h').1
    rw [Instr.pendingBefore, hstarts, henters, Bool.and_false, count_cons]
    simp [Nat.add_comm]
  | none =>
    rw [Instr.pendingBefore, hstarts]
    cases henters : ins.enters with
    | false => simp
    | true =>
      obtain ⟨-, rest, hrest⟩ := h.entry henters
      rw [hrest, count_cons]
      simp

lemma balance_snoc (hins : code[s.ip]? = some ins) (hedges : Edges code s.ip ins)
    (h : ∀ t, started code t trace + ins.pendingBefore.count t = entered code t trace) (t : Nat) :
    started code t (trace ++ [s]) + ins.place.pending.count t = entered code t (trace ++ [s]) := by
  have hcount := count_pendingBefore hedges t
  have hs : started code t (trace ++ [s]) =
      started code t trace + if ins.starts == some t then 1 else 0 := by
    rw [started, countP_append, countP_singleton, hins, Option.any_some]
    rfl
  have he : entered code t (trace ++ [s]) =
      entered code t trace + if s.ip == t && ins.enters then 1 else 0 := by
    rw [entered, countP_append, countP_singleton, hins, Option.any_some]
    rfl
  have := h t
  omega

lemma balanced_running_iff (h : ∀ t, started code t trace + pending.count t =
      entered code t trace) :
    Balanced code trace (.running s) ↔ Owes code s.ip pending := by
  refine exists_congr fun j => and_congr_right fun _ => ?_
  rw [perm_iff_count]
  refine forall_congr' fun t => ?_
  have := h t
  omega

lemma balanced_ended_iff (h : ∀ t, started code t trace + pending.count t = entered code t trace) :
    (∀ t, started code t trace = entered code t trace) ↔ pending = [] := by
  rw [eq_nil_iff_forall_not_mem]
  refine forall_congr' fun t => ?_
  have := h t
  rw [← count_eq_zero]
  omega

lemma balanced_raise_iff (hins : code[s.ip]? = some ins) (hraise : Raises H s ins)
    (hbal : ∀ t, started code t trace + ins.place.pending.count t = entered code t trace) :
    Balanced code trace (step H code s) ↔ Settles H code s ins := by
  have hplain := hraise.isPlain
  have hop {op : Op α κ} {p : Prop} (hop : op.isPlain = false) (h : ins.op = op) : p := by
    rw [h, hop] at hplain
    cases hplain
  obtain ⟨e, d, heff⟩ := id hraise
  rw [Vm.step, hins]
  show Balanced _ _ (Vm.apply s (effect H ins.op s.ip s.data)) ↔ _
  rw [heff, Vm.apply]
  cases hstack : s.tryStack with
  | nil =>
    refine (balanced_ended_iff hbal).trans ⟨fun hp => ⟨?_, fun _ _ => hp, fun _ _ => hop rfl,
      fun _ => hop rfl⟩, fun hs => hs.uncaught hraise hstack⟩
    intro _ h rest hcons
    cases hstack.symm.trans hcons
  | cons h rest =>
    refine (balanced_running_iff hbal).trans ⟨fun ho => ⟨?_, ?_, fun _ _ => hop rfl,
      fun _ => hop rfl⟩, fun hs => hs.caught hraise h rest hstack⟩
    · intro _ h' rest' hcons
      cases hstack.symm.trans hcons
      exact ho
    · intro _ hnil
      cases hstack.symm.trans hnil

lemma Settles.quiet (hraise : ¬ Raises H s ins)
    (hjump : ∀ t, ins.op ≠ .jump t) (hret : ins.op ≠ .ret) : Settles H code s ins :=
  ⟨fun h => absurd h hraise, fun h => absurd h hraise, fun _ t h => absurd h (hjump t),
    fun _ h => absurd h hret⟩

/-- **One step keeps the balance exactly when it settles.** -/
theorem balanced_step_iff {body : Block α κ} (hins : (compileFunction body)[s.ip]? = some ins)
    (h : ∀ t, started (compileFunction body) t trace + ins.pendingBefore.count t =
      entered (compileFunction body) t trace) :
    Balanced (compileFunction body) (trace ++ [s]) (step H (compileFunction body) s) ↔
      Settles H (compileFunction body) s ins := by
  have hbal := balance_snoc hins (compile_edges hins) h
  by_cases hraise : Raises H s ins
  · exact balanced_raise_iff hins hraise hbal
  have hgoes := step_goes (H := H) hins
  generalize step H (compileFunction body) s = next at hgoes ⊢
  cases hgoes with
  | on hplain _ hnext =>
    refine iff_of_true ((balanced_running_iff hbal).2 (owes_of_lands hnext.lands))
      (.quiet hraise (fun t hop => ?_) fun hop => ?_)
    iterate 2
      · rw [hop] at hplain
        cases hplain
  | opens hop _ hnext | closes hop _ hnext =>
    exact iff_of_true ((balanced_running_iff hbal).2 (owes_of_lands hnext.lands))
      (.quiet hraise (fun t h => nomatch hop.symm.trans h) fun h => nomatch hop.symm.trans h)
  | caught h | uncaught h => exact absurd h hraise
  | jumps hop _ hlands =>
    refine (balanced_running_iff hbal).trans ⟨fun ho => ⟨fun h => absurd h hraise,
      fun h => absurd h hraise, fun _ t hop' => ?_, fun _ h => nomatch hop.symm.trans h⟩,
        fun hs => ?_⟩
    · cases hop.symm.trans hop'
      exact ho
    · cases hescapes : ins.escapes with
      | false => exact owes_of_lands (hlands hescapes)
      | true => exact hs.jumps hescapes _ hop
  | returns hop hnone =>
    refine (balanced_ended_iff hbal).trans ⟨fun hp => ⟨fun h => absurd h hraise,
      fun h => absurd h hraise, fun _ t h => (nomatch hop.symm.trans h), fun _ _ => hp⟩,
        fun hs => ?_⟩
    cases hescapes : ins.escapes with
    | false => exact hnone hescapes
    | true => exact hs.returns hescapes hop

lemma balanced_start (body : Block α κ) (d : Data σ) :
    Balanced (compileFunction body) [] (.running (start d)) := by
  obtain ⟨ins, hins, hpending, -⟩ := (compileFunction_part body).2
  refine ⟨ins, hins, fun t => ?_⟩
  rw [hpending]
  rfl

/-- **Balance over runs.** The first `n` turns of a run are balanced throughout exactly when every
instruction they execute settles. -/
theorem balanced_iff (H : Host α κ σ) (body : Block α κ) (d : Data σ) (n : Nat) :
    (∀ k ≤ n, Balanced (compileFunction body) (visited H (compileFunction body) k (start d))
      (after H (compileFunction body) k (start d))) ↔
    ∀ s ∈ visited H (compileFunction body) n (start d), ∀ ins,
      (compileFunction body)[s.ip]? = some ins → Settles H (compileFunction body) s ins := by
  induction n with
  | zero =>
    refine iff_of_true (fun k hk => ?_) fun s hs => nomatch hs
    rw [Nat.le_zero.1 hk]
    exact balanced_start body d
  | succ n ih =>
    have hk (P : Nat → Prop) : (∀ k ≤ n + 1, P k) ↔ (∀ k ≤ n, P k) ∧ P (n + 1) :=
      ⟨fun h => ⟨fun k hk => h k (Nat.le_succ_of_le hk), h _ (Nat.le_refl _)⟩, fun h k hk =>
        (Nat.le_succ_iff.1 hk).elim (h.1 k) fun hk => hk ▸ h.2⟩
    rw [hk, ih, visited_succ, after_succ, forall_mem_append]
    refine and_congr_right fun hsettles => ?_
    have hnow := (ih.2 hsettles) n (Nat.le_refl n)
    cases hstatus : after H (compileFunction body) n (start d) with
    | running s =>
      rw [hstatus] at hnow
      obtain ⟨ins, hins, hbal⟩ := hnow
      rw [forall_mem_singleton]
      refine (balanced_step_iff hins hbal).trans ⟨fun h ins' hins' => ?_, fun h => h ins hins⟩
      cases hins.symm.trans hins'
      exact h
    | returned v d' | failed e d' =>
      rw [hstatus] at hnow
      refine iff_of_true ?_ (forall_mem_nil _)
      rw [append_nil]
      exact hnow

def throwInCatch : Block Unit Unit :=
  .cons (.tryFinally (.cons (.throwS none) .nil)
    (.catchB none "e" (.cons (.throwS none) .nil) .noCatch) (.cons (.atom ()) .nil)) .nil

/-- `try { try { throw; } catch (any e) { rethrow; } } finally { atom }` -/
def rethrowInside : Block Unit Unit :=
  .cons (.tryFinally (.cons (.tryS (.cons (.throwS none) .nil)
    (.catchB none "e" (.cons .rethrow .nil) .noCatch)) .nil) .noCatch (.cons (.atom ()) .nil)) .nil

/-- **What goes wrong**: both programs end with the error, having entered the `try` at 1 once; the
first has run its `finally` body never, the second twice. -/
theorem throw_in_catch_skips_finally :
    (∃ e d, after yes (compileFunction throwInCatch) 30 (start fresh) = .failed e d) ∧
      entered (compileFunction throwInCatch)
      1 (visited yes (compileFunction throwInCatch) 30 (start fresh)) = 1 ∧
      started (compileFunction throwInCatch)
      1 (visited yes (compileFunction throwInCatch) 30 (start fresh)) = 0 ∧
      (∃ e d, after yes (compileFunction rethrowInside) 30 (start fresh) = .failed e d) ∧
      entered (compileFunction rethrowInside)
      1 (visited yes (compileFunction rethrowInside) 30 (start fresh)) = 1 ∧
      started (compileFunction rethrowInside)
      1 (visited yes (compileFunction rethrowInside) 30 (start fresh)) = 2 :=
  ⟨⟨_, _, rfl⟩, rfl, rfl, ⟨_, _, rfl⟩, rfl, rfl⟩

end

end RustCfml.Vm
