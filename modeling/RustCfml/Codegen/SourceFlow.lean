import RustCfml.Vm.Machine

/-!
# What control flow means in the source language

The meaning of the trees built from `if`, `for`, `while`, `do`, `switch`, `break` and `continue`
over atomic statements and opaque conditions (`Node.isFlow`). **Fuel counts iterations**: every loop
may go round that often, so a run that does not end has been around some loop that many times.
-/

namespace RustCfml.Codegen

open Vm

inductive Event (α κ : Type) where
  | exec (a : α)
  | eval (e : κ)

inductive Outcome (σ : Type) where
  | done (w : World σ)
  | breaks (w : World σ)
  | continues (w : World σ)
  | fails (e : CfmlValue) (w : World σ)
  | outOfFuel

structure Result (α κ σ : Type) where
  trace : List (Event α κ)
  outcome : Outcome σ
  /-- Was a `for` without a condition entered? -/
  openFor : Bool

section

variable {α κ σ : Type}

def Expr.isOther : Expr κ → Bool
  | .other _ => true
  | _ => false

def Node.isFlow : {c : Category} → Node α κ c → Bool
  | _, .nil | _, .noElse | _, .noDefault | _, .atom _ | _, .breakS | _, .continueS => true
  | _, .cons s rest => s.isFlow && rest.isFlow
  | _, .ifS cond thenB rest => cond.isOther && thenB.isFlow && rest.isFlow
  | _, .elseB body => body.isFlow
  | _, .elseIf cond body rest => cond.isOther && body.isFlow && rest.isFlow
  | _, .forS init cond increment body =>
    init.isFlow && cond.all Expr.isOther && increment.all Expr.isOther && body.isFlow
  | _, .whileS cond body => cond.isOther && body.isFlow
  | _, .doS body cond => body.isFlow && cond.isOther
  | _, .switchS e cases => e.isOther && cases.isFlow
  | _, .default body => body.isFlow
  | _, .case value values body rest =>
    value.isOther && values.all Expr.isOther && body.isFlow && rest.isFlow
  | _, _ => false

namespace Result

def pure (o : Outcome σ) : Result α κ σ := ⟨[], o, false⟩

def cons (event : Event α κ) (r : Result α κ σ) : Result α κ σ :=
  { r with trace := event :: r.trace }

def bind (r : Result α κ σ) (k : Outcome σ → Result α κ σ) : Result α κ σ :=
  ⟨r.trace ++ (k r.outcome).trace, (k r.outcome).outcome, r.openFor || (k r.outcome).openFor⟩

end Result

def Outcome.andThen (k : World σ → Result α κ σ) : Outcome σ → Result α κ σ
  | .done w => k w
  | o => .pure o

/-- A loop goes on after its body also at a `continue`, and ends at a `break`. -/
def Outcome.around (k : World σ → Result α κ σ) : Outcome σ → Result α κ σ
  | .done w | .continues w => k w
  | .breaks w => .pure (.done w)
  | o => .pure o

/-- A `switch` ends at a `break`. -/
def Outcome.caught : Outcome σ → Result α κ σ
  | .breaks w => .pure (.done w)
  | o => .pure o

variable (H : Host α κ σ)

def evaluate (e : Expr κ) (w : World σ) (k : CfmlValue → World σ → Result α κ σ) : Result α κ σ :=
  match e with
  | .other e =>
    match H.eval e w with
    | (w', .ok v) => .cons (.eval e) (k v w')
    | (w', .error x) => .cons (.eval e) (.pure (.fails x w'))
  | _ => .pure (.done w)

def test (cond : Expr κ) (w : World σ) (k : Bool → World σ → Result α κ σ) : Result α κ σ :=
  evaluate H cond w fun v w' =>
    match condition H v with
    | .ok b => k b w'
    | .error x => .pure (.fails x w')

/-- Does one of the values equal `x`? All of them are evaluated. -/
def matchValues (x : CfmlValue) : List (Expr κ) → Bool → World σ → (Bool → World σ → Result α κ σ) →
    Result α κ σ
  | [], found, w, k => k found w
  | e :: es, found, w, k =>
    evaluate H e w fun v w' => matchValues x es (found || compareValues H .eq x v) w' k

/-- `while`, and `for` with its increment `next`. -/
def loop (cond : World σ → (Bool → World σ → Result α κ σ) → Result α κ σ)
    (body next : World σ → Result α κ σ) : Nat → World σ → Result α κ σ
  | 0, _ => .pure .outOfFuel
  | n + 1, w => cond w fun b w' =>
    if b then
      (body w').bind (Outcome.around fun w =>
        (next w).bind (Outcome.andThen (loop cond body next n)))
    else .pure (.done w')

def doLoop (cond : Expr κ) (body : World σ → Result α κ σ) : Nat → World σ → Result α κ σ
  | 0, _ => .pure .outOfFuel
  | n + 1, w => (body w).bind (Outcome.around fun w => test H cond w fun b w' =>
    if b then doLoop cond body n w' else .pure (.done w'))

def increment (e : Option (Expr κ)) (w : World σ) : Result α κ σ :=
  match e with
  | none => .pure (.done w)
  | some e => evaluate H e w fun _ w' => .pure (.done w')

/-- The meaning of a node, and of cases for the value the `switch` looks for. -/
structure Meaning (α κ σ : Type) where
  run : World σ → Result α κ σ
  dispatch : CfmlValue → World σ → Result α κ σ

def Meaning.of (run : World σ → Result α κ σ) : Meaning α κ σ := ⟨run, fun _ => run⟩

def meaning (fuel : Nat) : {c : Category} → Node α κ c → Meaning α κ σ
  | _, .nil | _, .noElse | _, .noDefault => .of fun w => .pure (.done w)
  | _, .cons s rest =>
    .of fun w => ((meaning fuel s).run w).bind (Outcome.andThen (meaning fuel rest).run)
  | _, .atom a => .of fun w =>
    match H.exec a w with
    | (w', none) => .cons (.exec a) (.pure (.done w'))
    | (w', some x) => .cons (.exec a) (.pure (.fails x w'))
  | _, .breakS => .of fun w => .pure (.breaks w)
  | _, .continueS => .of fun w => .pure (.continues w)
  | _, .ifS cond thenB rest | _, .elseIf cond thenB rest => .of fun w =>
    test H cond w fun b w' => if b then (meaning fuel thenB).run w' else (meaning fuel rest).run w'
  | _, .elseB body | _, .default body => .of (meaning fuel body).run
  | _, .forS init cond inc body => .of fun w =>
    ((meaning fuel init).run w).bind (Outcome.andThen fun w =>
      match cond with
      | some cond => loop (test H cond) (meaning fuel body).run (increment H inc) fuel w
      | none => { loop (fun w k => k true w) (meaning fuel body).run (increment H inc) fuel w with
          openFor := true })
  | _, .whileS cond body => .of fun w =>
    loop (test H cond) (meaning fuel body).run (fun w => .pure (.done w)) fuel w
  | _, .doS body cond => .of (doLoop H cond (meaning fuel body).run fuel)
  | _, .switchS e cases => .of fun w =>
    evaluate H e w fun v w' => ((meaning fuel cases).dispatch v w').bind Outcome.caught
  | _, .case value values body rest =>
    let bodies :=
      fun w => ((meaning fuel body).run w).bind (Outcome.andThen (meaning fuel rest).run)
    ⟨bodies, fun x w => evaluate H value w fun v w' =>
      matchValues H x values (compareValues H .eq x v) w' fun found w'' =>
        if found then bodies w'' else (meaning fuel rest).dispatch x w''⟩
  | _, _ => .of fun w => .pure (.done w)

lemma meaning_cons (fuel : Nat) (s : Stmt α κ) (rest : Block α κ) (w : World σ) :
    (meaning H fuel (.cons s rest)).run w
      = ((meaning H fuel s).run w).bind (Outcome.andThen (meaning H fuel rest).run) := by
  rw [meaning]
  rfl

end

end RustCfml.Codegen
