import RustCfml.Codegen.Bytecode
import RustCfml.Common.Value

/-!
# The dispatch loop of one frame

A frame runs one function's code. **The try stack is touched in exactly three places**, `TryStart`,
`TryEnd` and a raise, and `step` is where: a raise pops the innermost handler, cuts the operand
stack back to the height it had at `TryStart`, pushes the exception and continues at the catch
position.
-/

namespace RustCfml.Vm

open Codegen

structure World (σ : Type) where
  vars : ValueMap CfmlValue
  host : σ

/-- What the rest of the VM does, which the instructions call. -/
structure Host (α κ σ : Type) where
  exec : α → World σ → World σ × Option CfmlValue
  eval : κ → World σ → World σ × Except CfmlValue CfmlValue
  /-- `to_condition`, of what is not a boolean. -/
  toCondition : CfmlValue → Except CfmlValue Bool
  /-- The comparison operators where a side is not an integer; an undefined counter of the fused
  comparison is `none`. -/
  compare : CmpOp → Option CfmlValue → CfmlValue → Bool
  /-- `+` and `-` where a side is not an integer or the result is not exact. -/
  arith : ArithOp → CfmlValue → CfmlValue → Except CfmlValue CfmlValue
  /-- `numeric_step` of what is not an integer, or past the range. -/
  numericStep : Option CfmlValue → Int64 → Except CfmlValue CfmlValue
  /-- The counter of `ForLoopStep` that is not an integer, or past the range. -/
  forStep : Option CfmlValue → Int64 → CfmlValue
  undefined : String → CfmlValue
  /-- `op_throw` wraps what is not a struct. -/
  wrap : CfmlValue → CfmlValue
  noException : CfmlValue
  catches : String → CfmlValue → Bool
  forInPrepare : CfmlValue → World σ → World σ × CfmlValue
  iterLen : CfmlValue → World σ → CfmlValue
  /-- The element at an index, `none` past the end. -/
  forInElement : CfmlValue → CfmlValue → World σ → World σ × Except CfmlValue (Option CfmlValue)
  forInExit : CfmlValue → World σ → World σ

/-- What an instruction may change but for the control: stack, locals, world and last error. -/
structure Data (σ : Type) where
  /-- The operand stack, top first. -/
  stack : List CfmlValue
  temps : List (Var × CfmlValue)
  world : World σ
  lastException : Option CfmlValue
  saved : List (Option CfmlValue)

/-- An open `try`: where to go, and how far to cut the stack. -/
structure Handler where
  catchIp : Nat
  stackDepth : Nat

structure State (σ : Type) where
  ip : Nat
  tryStack : List Handler
  data : Data σ

/-- What an instruction asks of the loop. -/
inductive Effect (σ : Type) where
  | goto (ip : Nat) (d : Data σ)
  | openHandler (catchIp : Nat) (d : Data σ)
  | closeHandler (d : Data σ)
  | raise (e : CfmlValue) (d : Data σ)
  | finish (v : CfmlValue) (d : Data σ)

/-- A frame goes on, returns, or ends with an error that no handler took. -/
inductive Status (σ : Type) where
  | running (s : State σ)
  | returned (v : CfmlValue) (d : Data σ)
  | failed (e : CfmlValue) (d : Data σ)

section

variable {α κ σ : Type}

namespace Data

def push (d : Data σ) (v : CfmlValue) : Data σ := { d with stack := v :: d.stack }

/-- The top of the stack, `Null` when there is none, and the rest. -/
def popped (d : Data σ) : CfmlValue × Data σ :=
  (d.stack.headD .null, { d with stack := d.stack.tail })

def withWorld (d : Data σ) (w : World σ) : Data σ := { d with world := w }

def load (d : Data σ) : Var → Option CfmlValue
  | .named name => d.world.vars.get? name
  | x => some (((d.temps.find? fun e => e.1 = x).map (·.2)).getD .null)

def store (d : Data σ) (x : Var) (v : CfmlValue) : Data σ :=
  match x with
  | .named name => { d with world := { d.world with vars := d.world.vars.insert name v } }
  | x => { d with temps := (x, v) :: d.temps }

end Data

def CmpOp.holds (op : CmpOp) (i j : Int) : Bool :=
  match op with
  | .lt => i < j
  | .lte => i ≤ j
  | .gt => i > j
  | .gte => i ≥ j
  | .eq => i = j
  | .neq => i ≠ j

def inI64 (n : Int) : Bool := -9223372036854775808 ≤ n && n ≤ 9223372036854775807

def isExact (n : Int) : Bool := -9007199254740992 ≤ n && n ≤ 9007199254740992

def intArith (op : ArithOp) (i j : Int64) : Option Int64 :=
  match op with
  | .add => if inI64 (i.toInt + j.toInt) then some (i + j) else none
  | .sub =>
    if isExact i.toInt && isExact j.toInt && isExact (i.toInt - j.toInt) then some (i - j) else none

variable (H : Host α κ σ)

/-- Integers where both are and the result is exact; the host's arithmetic otherwise. -/
def arithValues (op : ArithOp) (a b : CfmlValue) : Except CfmlValue CfmlValue :=
  match a, b with
  | .int i, .int j =>
    match intArith op i j with
    | some k => .ok (.int k)
    | none => H.arith op a b
  | a, b => H.arith op a b

def compareValues (op : CmpOp) (a b : CfmlValue) : Bool :=
  match a, b with
  | .int i, .int j => CmpOp.holds op i.toInt j.toInt
  | a, b => H.compare op (some a) b

def numericStep (v : Option CfmlValue) (k : Int64) : Except CfmlValue CfmlValue :=
  match v with
  | some (.int i) => if inI64 (i.toInt + k.toInt) then .ok (.int (i + k)) else H.numericStep v k
  | v => H.numericStep v k

def cmpConst (v : Option CfmlValue) (op : CmpOp) (c : Int64) : Bool :=
  match v with
  | some (.int i) => CmpOp.holds op i.toInt c.toInt
  | v => H.compare op v (.int c)

/-- The step of a counted loop. -/
def forStep (v : Option CfmlValue) (k : Int64) : CfmlValue :=
  match v with
  | some (.int i) => if inI64 (i.toInt + k.toInt) then .int (i + k) else H.forStep v k
  | v => H.forStep v k

def condition : CfmlValue → Except CfmlValue Bool
  | .bool b => .ok b
  | v => H.toCondition v

def raiseNow (d : Data σ) (e : CfmlValue) : Effect σ := .raise e { d with lastException := some e }

def pushOrRaise (ip : Nat) (d : Data σ) : Except CfmlValue CfmlValue → Effect σ
  | .ok v => .goto (ip + 1) (d.push v)
  | .error e => raiseNow d e

/-- `Increment`, `Decrement` and `AddLocalConst`. -/
def stepVar (ip : Nat) (d : Data σ) (x : Var) (k : Int64) : Effect σ :=
  match numericStep H (d.load x) k with
  | .ok v => .goto (ip + 1) (d.store x v)
  | .error e => raiseNow d e

def branch (ip target : Nat) (d : Data σ) (jumpsOn : Bool) : Effect σ :=
  match d.stack with
  | [] => .goto (ip + 1) d
  | v :: rest =>
    match condition H v with
    | .ok b => .goto (if b = jumpsOn then target else ip + 1) { d with stack := rest }
    | .error e => raiseNow { d with stack := rest } e

def effect (op : Op α κ) (ip : Nat) (d : Data σ) : Effect σ :=
  match op with
  | .lineInfo => .goto (ip + 1) d
  | .exec a =>
    match H.exec a d.world with
    | (w, none) => .goto (ip + 1) (d.withWorld w)
    | (w, some e) => raiseNow (d.withWorld w) e
  | .eval e => pushOrRaise ip (d.withWorld (H.eval e d.world).1) (H.eval e d.world).2
  | .null => .goto (ip + 1) (d.push .null)
  | .integer n => .goto (ip + 1) (d.push (.int n))
  | .defaultMessage => .goto (ip + 1) (d.push (.string "An error occurred"))
  | .loadLocal (.named name) =>
    match d.load (.named name) with
    | some v => .goto (ip + 1) (d.push v)
    | none => raiseNow d (H.undefined name)
  | .loadLocal x => .goto (ip + 1) (d.push ((d.load x).getD .null))
  | .storeLocal x => .goto (ip + 1) (d.popped.2.store x d.popped.1)
  | .declareLocal _ => .goto (ip + 1) d
  | .dup => .goto (ip + 1) (d.push (d.stack.headD .null))
  | .pop => .goto (ip + 1) d.popped.2
  | .cmp op =>
    .goto (ip + 1)
      (d.popped.2.popped.2.push (.bool (compareValues H op d.popped.2.popped.1 d.popped.1)))
  | .arith op =>
    pushOrRaise ip d.popped.2.popped.2 (arithValues H op d.popped.2.popped.1 d.popped.1)
  | .or =>
    pushOrRaise ip d.popped.2.popped.2 (do
      let a ← condition H d.popped.2.popped.1
      let b ← condition H d.popped.1
      return .bool (a || b))
  | .increment x => stepVar H ip d x 1
  | .decrement x => stepVar H ip d x (-1)
  | .addLocalConst x k => stepVar H ip d x k
  | .jump target => .goto target d
  | .jumpIfFalse target => branch H ip target d false
  | .jumpIfTrue target => branch H ip target d true
  | .jumpIfLocalCmpConstFalse name c op target =>
    .goto (if cmpConst H (d.load (.named name)) op c.toInt64 then ip + 1 else target) d
  | .forLoopStep name limit op step target =>
    let v := forStep H (d.load (.named name)) step.toInt64
    .goto (if cmpConst H (some v) op limit.toInt64 then target else ip + 1)
      (d.store (.named name) v)
  | .forInPrepare =>
    .goto (ip + 1) ((d.popped.2.withWorld (H.forInPrepare d.popped.1 d.world).1).push
      (H.forInPrepare d.popped.1 d.world).2)
  | .iterLen => .goto (ip + 1) (d.popped.2.push (H.iterLen d.popped.1 d.world))
  | .forInStep target =>
    let rest := d.popped.2.popped.2
    match H.forInElement d.popped.2.popped.1 d.popped.1 d.world with
    | (w, .ok none) => .goto target (rest.withWorld w)
    | (w, .ok (some v)) => .goto (ip + 1) ((rest.withWorld w).push v)
    | (w, .error e) => raiseNow (rest.withWorld w) e
  | .forInExit => .goto (ip + 1) (d.popped.2.withWorld (H.forInExit d.popped.1 d.world))
  | .tryStart catchIp => .openHandler catchIp d
  | .tryEnd => .closeHandler d
  | .throw => raiseNow d.popped.2 (H.wrap d.popped.1)
  | .rethrow => .raise (d.lastException.getD H.noException) d
  | .ret => .finish d.popped.1 d.popped.2
  | .catchMatch type => .goto (ip + 1) (d.push (.bool (H.catches type (d.stack.headD .null))))
  | .saveException => .goto (ip + 1) { d with saved := d.lastException :: d.saved }
  | .restoreException =>
    match d.saved with
    | [] => .goto (ip + 1) d
    | e :: saved => .goto (ip + 1) { d with lastException := e, saved }
  | .setLastExceptionFromLocal x =>
    match d.load x with
    | none | some .null => .goto (ip + 1) d
    | some v => .goto (ip + 1) { d with lastException := some v }

def apply (s : State σ) : Effect σ → Status σ
  | .goto ip d => .running ⟨ip, s.tryStack, d⟩
  | .openHandler catchIp d =>
    .running ⟨s.ip + 1, ⟨catchIp, d.stack.length⟩ :: s.tryStack, d⟩
  | .closeHandler d => .running ⟨s.ip + 1, s.tryStack.tail, d⟩
  | .raise e d =>
    match s.tryStack with
    | [] => .failed e d
    | h :: rest =>
      .running ⟨h.catchIp, rest,
        { d with stack := e :: d.stack.drop (d.stack.length - h.stackDepth) }⟩
  | .finish v d => .returned v d

/-- One turn of the loop; past the end of the code the frame returns `Null`. -/
def step (code : List (Instr α κ)) (s : State σ) : Status σ :=
  match code[s.ip]? with
  | none => .returned .null s.data
  | some i => apply s (effect H i.op s.ip s.data)

end

end RustCfml.Vm
