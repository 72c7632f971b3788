import RustCfml.Codegen.SourceFlow
import RustCfml.Vm.Run

/-!
# Compiled code follows a source-level result

`Simulates` relates a state of the machine to a result of the source semantics: the machine produces
the events of the result and then arrives where the outcome says, with the world of the outcome and
the operand stack it started from. **Running out of fuel is matched by running on**: the machine is
still running after at least as many turns.
-/

namespace RustCfml.Vm

open Codegen CodeAt List

section

variable {α κ σ : Type}

def opEvents : Op α κ → List (Event α κ)
  | .exec a => [.exec a]
  | .eval e => [.eval e]
  | _ => []

def events (code : List (Instr α κ)) (trace : List (State σ)) : List (Event α κ) :=
  trace.flatMap fun s => ((code[s.ip]?).map fun ins => opEvents ins.op).getD []

variable (H : Host α κ σ) (code : List (Instr α κ))

def Reaches (n : Nat) (s : State σ) (trace : List (Event α κ)) (next : Status σ) : Prop :=
  after H code n s = next ∧ events code (visited H code n s) = trace

/-- Where a piece of code leaves to: behind it, and to its loop; out of a loop it returns. -/
structure Exits where
  next : Nat
  break? : Option Nat
  continue? : Option Nat

/-- The machine gets to `target`, or returns from the function. -/
def Arrives (s : State σ) (trace : List (Event α κ)) (stack : List CfmlValue) (w : World σ) :
    Option Nat → Prop
  | some target => ∃ n d, Reaches H code n s trace (.running ⟨target, [], d⟩) ∧
      d.world = w ∧ d.stack = stack
  | none => ∃ n d, Reaches H code n s trace (.returned .null d) ∧ d.world = w

/-- Unless the result entered a `for` without a condition, the machine follows it. -/
def Simulates (x : Exits) (stack : List CfmlValue) (fuel : Nat) (s : State σ) (r : Result α κ σ) :
    Prop :=
  r.openFor = false →
    match r.outcome with
    | .done w => Arrives H code s r.trace stack w (some x.next)
    | .breaks w => Arrives H code s r.trace stack w x.break?
    | .continues w => Arrives H code s r.trace stack w x.continue?
    | .fails e w => ∃ n d, Reaches H code n s r.trace (.failed e d) ∧ d.world = w
    | .outOfFuel => ∃ n s', fuel ≤ n ∧ Reaches H code n s r.trace (.running s')

variable {H code}

/-! ## Turns -/

lemma events_append (a b : List (State σ)) :
    events code (a ++ b) = events code a ++ events code b :=
  flatMap_append

lemma reaches_refl (s : State σ) : Reaches H code 0 s [] (.running s) := ⟨rfl, rfl⟩

variable {r : Result α κ σ} {t : Nat} {ins : Instr α κ} {a : List (Event α κ)} {d' : Data σ}

variable {b : List (Event α κ)} {w : World σ} {mid ip : Nat} {k : World σ → Result α κ σ}
  {e v : CfmlValue} {jumpsOn : Bool}

lemma Reaches.trans {n m : Nat} {s s' : State σ} {next : Status σ}
    (h : Reaches H code n s a (.running s'))
    (h' : Reaches H code m s' b next) : Reaches H code (n + m) s (a ++ b) next := by
  refine ⟨?_, ?_⟩
  · rw [after_add, h.1]
    exact h'.1
  · rw [visited_add, h.1, events_append, h.2, h'.2]

lemma reaches_step {s : State σ} (h : code[s.ip]? = some ins) :
    Reaches H code 1 s (opEvents ins.op) (apply s (effect H ins.op s.ip s.data)) := by
  refine ⟨?_, ?_⟩
  · rw [after_one, step, h]
  · rw [visited_one]
    show ((code[s.ip]?).map fun ins => opEvents ins.op).getD [] ++ [] = _
    rw [h, append_nil]
    rfl

variable {x : Exits} {stack : List CfmlValue} {fuel n : Nat} {s s' : State σ}

lemma Arrives.after {target : Option Nat} (h : Reaches H code n s a (.running s'))
    (h' : Arrives H code s' b stack w target) : Arrives H code s (a ++ b) stack w target := by
  cases target with
  | some t | none =>
    obtain ⟨m, d, hr, hd⟩ := h'
    exact ⟨n + m, d, h.trans hr, hd⟩

lemma Simulates.after (h : Reaches H code n s a (.running s'))
    (h' : Simulates H code x stack fuel s' r) :
    Simulates H code x stack (n + fuel) s { r with trace := a ++ r.trace } := by
  intro hopen
  have h' := h' hopen
  obtain ⟨trace, outcome, opened⟩ := r
  cases outcome with
  | done w | breaks w | continues w => exact Arrives.after h h'
  | fails e w =>
    obtain ⟨m, d, hr, hd⟩ := h'
    exact ⟨n + m, d, h.trans hr, hd⟩
  | outOfFuel =>
    obtain ⟨m, s'', hm, hr⟩ := h'
    exact ⟨n + m, s'', Nat.add_le_add_left hm n, h.trans hr⟩

lemma Simulates.mono {fuel' : Nat} (hle : fuel' ≤ fuel)
    (h : Simulates H code x stack fuel s r) : Simulates H code x stack fuel' s r := by
  intro hopen
  have h := h hopen
  obtain ⟨trace, outcome, opened⟩ := r
  cases outcome with
  | outOfFuel =>
    obtain ⟨m, s'', hm, hr⟩ := h
    exact ⟨m, s'', Nat.le_trans hle hm, hr⟩
  | done w | breaks w | continues w | fails e w => exact h

lemma Simulates.silent (h : Reaches H code n s [] (.running s'))
    (h' : Simulates H code x stack fuel s' r) : Simulates H code x stack (n + fuel) s r :=
    h'.after h

lemma simulates_done {s : State σ} (hip : s.ip = x.next) (htry : s.tryStack = [])
    (hstack : s.data.stack = stack) :
    Simulates H code x stack fuel s (.pure (.done s.data.world)) := by
  intro _
  obtain ⟨ip, tryStack, d⟩ := s
  cases hip
  cases htry
  exact ⟨0, d, reaches_refl _, rfl, hstack⟩

/-- The rule for `Result.bind`: `r` is simulated up to exits `y`, and from wherever it arrives the
rest is simulated. -/
lemma simulates_bind {y : Exits} {k : Outcome σ → Result α κ σ}
    (hr : Simulates H code y stack fuel s r) (hdone : ∀ d, d.stack = stack →
      Simulates H code x stack fuel ⟨y.next, [], d⟩ (k (.done d.world)))
    (hbreaks : ∀ w trace, Arrives H code s trace stack w y.break? →
      Simulates H code x stack fuel s ⟨trace ++ (k (.breaks w)).trace, (k (.breaks w)).outcome,
        (k (.breaks w)).openFor⟩)
    (hcontinues : ∀ w trace, Arrives H code s trace stack w y.continue? →
      Simulates H code x stack fuel s ⟨trace ++ (k (.continues w)).trace,
        (k (.continues w)).outcome,
        (k (.continues w)).openFor⟩)
    (hfails : ∀ e w, k (.fails e w) = .pure (.fails e w))
    (hfuel : k .outOfFuel = .pure .outOfFuel) : Simulates H code x stack fuel s (r.bind k) := by
  intro hopen
  obtain ⟨trace, outcome, opened⟩ := r
  obtain ⟨hopened, hrest⟩ := Bool.or_eq_false_iff.1 hopen
  have hr := hr hopened
  cases outcome with
  | done w =>
    obtain ⟨n, d, hreach, rfl, hstack⟩ := hr
    exact (((hdone d hstack).after hreach).mono (Nat.le_add_left _ _)) hrest
  | breaks w => exact hbreaks w trace hr hrest
  | continues w => exact hcontinues w trace hr hrest
  | fails e w =>
    have heq : (⟨trace, .fails e w, opened⟩ : Result α κ σ).bind k =
        ⟨trace, .fails e w, opened⟩ := by
      rw [Result.bind, hfails, Result.pure, append_nil, Bool.or_false]
    rw [heq]
    exact hr
  | outOfFuel =>
    have heq : (⟨trace, .outOfFuel, opened⟩ : Result α κ σ).bind k =
        ⟨trace, .outOfFuel, opened⟩ := by
      rw [Result.bind, hfuel, Result.pure, append_nil, Bool.or_false]
    rw [heq]
    exact hr

lemma simulates_andThen (hr : Simulates H code ⟨mid, x.break?, x.continue?⟩ stack fuel s r)
    (hk : ∀ d, d.stack = stack → Simulates H code x stack fuel ⟨mid, [], d⟩ (k d.world)) :
    Simulates H code x stack fuel s (r.bind (Outcome.andThen k)) := by
  refine simulates_bind hr hk ?_ ?_ (fun _ _ => rfl) rfl
  · intro w trace h _
    show Arrives H code s (trace ++ []) stack w x.break?
    rw [append_nil]
    exact h
  · intro w trace h _
    show Arrives H code s (trace ++ []) stack w x.continue?
    rw [append_nil]
    exact h

lemma simulates_around {next : Nat}
    (hr : Simulates H code ⟨mid, some x.next, some next⟩ stack fuel s r)
    (hmid : ∀ d, d.stack = stack → Simulates H code x stack fuel ⟨mid, [], d⟩ (k d.world))
    (hnext : ∀ d, d.stack = stack → Simulates H code x stack fuel ⟨next, [], d⟩ (k d.world)) :
    Simulates H code x stack fuel s (r.bind (Outcome.around k)) := by
  refine simulates_bind hr hmid ?_ ?_ (fun _ _ => rfl) rfl
  · intro w trace h _
    show Arrives H code s (trace ++ []) stack w (some x.next)
    rw [append_nil]
    exact h
  · rintro w trace ⟨n, d, hreach, rfl, hstack⟩
    exact ((hnext d hstack).after hreach).mono (Nat.le_add_left _ _)

lemma simulates_caught (hr : Simulates H code ⟨x.next, some x.next, x.continue?⟩ stack fuel s r) :
    Simulates H code x stack fuel s (r.bind Outcome.caught) := by
  refine simulates_bind hr (fun d hd => simulates_done rfl rfl hd) ?_ ?_ (fun _ _ => rfl) rfl
  · intro w trace h _
    show Arrives H code s (trace ++ []) stack w (some x.next)
    rw [append_nil]
    exact h
  · intro w trace h _
    show Arrives H code s (trace ++ []) stack w x.continue?
    rw [append_nil]
    exact h

variable {pos : Nat} {place : Place} {d : Data σ}

section

variable (h : code[pos]? = some ins) (hevents : opEvents ins.op = [])
  (heff : effect H ins.op pos d = .goto t d')
include h hevents heff

lemma reaches_goto : Reaches H code 1 ⟨pos, [], d⟩ [] (.running ⟨t, [], d'⟩) := by
  have hstep := reaches_step (H := H) (s := ⟨pos, [], d⟩) h
  rw [hevents, show effect H ins.op (State.mk pos [] d).ip (State.mk pos [] d).data = _ from heff]
    at hstep
  exact hstep

lemma simulates_goto (hr : Simulates H code x stack fuel ⟨t, [], d'⟩ r) :
    Simulates H code x stack (1 + fuel) ⟨pos, [], d⟩ r := hr.silent (reaches_goto h hevents heff)

end

lemma simulates_raise (h : code[pos]? = some ins) (heff : effect H ins.op pos d = .raise e d')
    (hw : d'.world = w)
    (hr : r = ⟨opEvents ins.op, .fails e w, false⟩) :
    Simulates H code x stack fuel ⟨pos, [], d⟩ r := by
  intro _
  have hstep := reaches_step (H := H) (s := ⟨pos, [], d⟩) h
  rw [show effect H ins.op (State.mk pos [] d).ip (State.mk pos [] d).data = _ from heff] at hstep
  rw [hr]
  exact ⟨1, d', hstep, hw⟩

lemma simulates_evaluate {e : κ} {k : CfmlValue → World σ → Result α κ σ}
    (h : code[pos]? = some (.plain place (.eval e)))
    (hk : ∀ v w, Simulates H code x stack fuel ⟨pos + 1, [], (d.withWorld w).push v⟩ (k v w)) :
    Simulates H code x stack (1 + fuel) ⟨pos, [], d⟩ (evaluate H (.other e) d.world k) := by
  have hstep := reaches_step (H := H) (s := ⟨pos, [], d⟩) h
  rw [evaluate]
  have heff : effect H (.eval e) pos d =
      pushOrRaise pos (d.withWorld (H.eval e d.world).1) (H.eval e d.world).2 := rfl
  cases hval : H.eval e d.world with
  | mk w result =>
    rw [hval] at heff
    cases result with
    | ok v =>
      have hreach : Reaches H code 1 ⟨pos, [], d⟩ [.eval e]
          (.running ⟨pos + 1, [], (d.withWorld w).push v⟩) := by
        rw [show effect H (Instr.plain place (.eval e)).op (State.mk pos [] d).ip
          (State.mk pos [] d).data = _ from heff] at hstep
        exact hstep
      exact (hk v w).after hreach
    | error v => exact simulates_raise h heff rfl rfl

lemma effect_branch {b : Bool} (hv : condition H v = .ok b) :
    branch H ip t (d.push v) jumpsOn = .goto (if b = jumpsOn then t else ip + 1) d := by
  simp [branch, Data.push, hv]

lemma effect_branch_error (hv : condition H v = .error e) :
    branch H ip t (d.push v) jumpsOn = raiseNow d e := by
  simp [branch, Data.push, hv]

lemma simulates_test (jumpsOn : Bool) {e : κ} {k : Bool → World σ → Result α κ σ}
    {op : Op α κ} (hop : ∀ d, effect H op (pos + 1) d = branch H (pos + 1) t d jumpsOn)
    (hevents : opEvents op = []) (heval : code[pos]? = some (.plain place (.eval e)))
    (hjump : code[pos + 1]? = some (.plain place op)) (hstack : d.stack = stack)
    (hk : ∀ b d', d'.stack = stack → Simulates H code x stack fuel
      ⟨if b = jumpsOn then t else pos + 2, [], d'⟩ (k b d'.world)) :
    Simulates H code x stack (2 + fuel) ⟨pos, [], d⟩ (test H (.other e) d.world k) := by
  have hsum : 2 + fuel = 1 + (1 + fuel) := by omega
  rw [hsum]
  refine simulates_evaluate heval fun v w => ?_
  cases hv : condition H v with
  | ok b =>
    have heff := hop ((d.withWorld w).push v)
    rw [effect_branch hv] at heff
    exact simulates_goto hjump hevents heff (hk b (d.withWorld w) hstack)
  | error e' =>
    have heff := hop ((d.withWorld w).push v)
    rw [effect_branch_error hv] at heff
    exact simulates_raise hjump heff rfl
      (by rw [show opEvents (Instr.plain place op).op = [] from hevents]; rfl)

end

end RustCfml.Vm
