import RustCfml.Codegen.Ast

/-!
# The instructions the control-flow compiler emits

**An instruction also carries the place it was emitted at**: which `try` statements still owe their
`finally` body there, which `try` bodies it stands in, and which ones its statement stands in.
-/

namespace RustCfml.Codegen

/-- Names of run-time variables: the program's, and the compiler's own temporaries, which carry the
position they were made at. -/
inductive Var where
  | named (name : String)
  | switchV (n : Nat)
  | iter (n : Nat)
  | idx (n : Nat)
  | cap (n : Nat)
  | retval
deriving DecidableEq

inductive Op (α κ : Type) where
  | lineInfo
  | exec (a : α)
  | eval (e : κ)
  | null
  | integer (n : Int64)
  /-- The message of a `throw` without one. -/
  | defaultMessage
  | loadLocal (x : Var)
  | storeLocal (x : Var)
  | declareLocal (x : Var)
  | dup
  | pop
  | cmp (op : CmpOp)
  | arith (op : ArithOp)
  | or
  | increment (x : Var)
  | decrement (x : Var)
  | addLocalConst (x : Var) (k : Int64)
  | jump (target : Nat)
  | jumpIfFalse (target : Nat)
  | jumpIfTrue (target : Nat)
  | jumpIfLocalCmpConstFalse (name : String) (c : Int32) (op : CmpOp) (target : Nat)
  | forLoopStep (name : String) (limit : Int32) (op : CmpOp) (step : Int32) (target : Nat)
  | forInPrepare
  | iterLen
  | forInStep (target : Nat)
  | forInExit
  | tryStart (catchIp : Nat)
  | tryEnd
  | throw
  | rethrow
  | ret
  | catchMatch (type : String)
  | saveException
  | restoreException
  | setLastExceptionFromLocal (x : Var)

/-- Where an instruction was emitted. `try` statements are named by the position of their
`TryStart`. -/
structure Place where
  /-- The `try` statements entered whose `finally` body has not started, innermost first. -/
  pending : List Nat
  /-- The `try` bodies the instruction stands in. -/
  opens : List Nat
  /-- The `try` bodies its statement stands in. -/
  lexical : List Nat

structure Instr (α κ : Type) where
  op : Op α κ
  place : Place
  /-- The `TryStart` of a statement with a `finally` body. -/
  enters : Bool
  /-- The first instruction of a copy of the `finally` body of this `try`. -/
  starts : Option Nat
  /-- A jump or return out of a `finally` copy that was emitted inline. -/
  escapes : Bool

inductive Slot (α κ : Type) where
  | instr (i : Instr α κ)
  | breakJump (place : Place) (escapes : Bool)
  | continueJump (place : Place) (escapes : Bool)
  | endJump (place : Place)

section

variable {α κ : Type}

def Instr.plain (place : Place) (op : Op α κ) : Instr α κ := ⟨op, place, false, none, false⟩

def Instr.pendingBefore (i : Instr α κ) : List Nat :=
  match i.starts with
  | some t => t :: i.place.pending
  | none => if i.enters then i.place.pending.tail else i.place.pending

def ops (place : Place) (code : List (Op α κ)) : List (Slot α κ) :=
  code.map fun op => .instr (.plain place op)

def Slot.patchEnd (target : Nat) : Slot α κ → Slot α κ
  | .endJump place => .instr (.plain place (.jump target))
  | slot => slot

def Slot.patchBreaks (target : Nat) : Slot α κ → Slot α κ
  | .breakJump place escapes => .instr ⟨.jump target, place, false, none, escapes⟩
  | slot => slot

def Slot.patchLoop (breakTarget continueTarget : Nat) : Slot α κ → Slot α κ
  | .breakJump place escapes => .instr ⟨.jump breakTarget, place, false, none, escapes⟩
  | .continueJump place escapes => .instr ⟨.jump continueTarget, place, false, none, escapes⟩
  | slot => slot

end

end RustCfml.Codegen
