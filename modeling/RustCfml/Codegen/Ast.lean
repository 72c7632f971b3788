import RustCfml.Common.Key

/-!
# The syntax tree the control-flow compiler reads

**The shapes that the counted-loop fusion recognises are not opaque.** Reading a variable,
an integer literal, a comparison, a sum or difference, an assignment of one and the four
increments and decrements have constructors of their own, because the matchers below look
inside them and because what they mean at run time is the point of the fusion.
-/

namespace RustCfml.Codegen

inductive CmpOp where
  | lt | lte | gt | gte | eq | neq
deriving DecidableEq

inductive ArithOp where
  | add | sub
deriving DecidableEq

/-- What the fused instructions look at is spelled out; any other expression is opaque. -/
inductive Expr (κ : Type) where
  | other (e : κ)
  | ident (name : String)
  | int (n : Int64)
  | cmp (op : CmpOp) (left right : Expr κ)
  | arith (op : ArithOp) (left right : Expr κ)
  /-- `name = left ± right` in expression position. -/
  | assign (name : String) (op : ArithOp) (left right : Expr κ)
  /-- `name++`, `name--`, or with the operator in front. -/
  | postfixOp (op : ArithOp) (name : String)
  | prefixOp (op : ArithOp) (name : String)

inductive Category where
  | stmt | block | elses | cases | catches
deriving DecidableEq

/-- Statements and the lists they are made of, in one family so that recursion is structural. -/
inductive Node (α κ : Type) : Category → Type where
  | atom (a : α) : Node α κ .stmt
  | expr (e : Expr κ) : Node α κ .stmt
  /-- `name += k` and `name -= k`. -/
  | assignConst (name : String) (op : ArithOp) (k : Int64) : Node α κ .stmt
  /-- `name = left ± right` as an assignment statement. -/
  | assign (name : String) (op : ArithOp) (left right : Expr κ) : Node α κ .stmt
  | output (body : Node α κ .block) : Node α κ .stmt
  | ifS (cond : Expr κ) (thenB : Node α κ .block) (rest : Node α κ .elses) : Node α κ .stmt
  /-- `init` is empty or one statement. -/
  | forS (init : Node α κ .block) (cond increment : Option (Expr κ)) (body : Node α κ .block) :
      Node α κ .stmt
  | forIn (name : String) (declared capped : Bool) (iterable : Expr κ) (body : Node α κ .block) :
      Node α κ .stmt
  | whileS (cond : Expr κ) (body : Node α κ .block) : Node α κ .stmt
  | doS (body : Node α κ .block) (cond : Expr κ) : Node α κ .stmt
  | switchS (e : Expr κ) (cases : Node α κ .cases) : Node α κ .stmt
  | tryS (body : Node α κ .block) (catches : Node α κ .catches) : Node α κ .stmt
  | tryFinally (body : Node α κ .block) (catches : Node α κ .catches) (fin : Node α κ .block) :
      Node α κ .stmt
  | throwS (e : Option (Expr κ)) : Node α κ .stmt
  | rethrow : Node α κ .stmt
  | returnS (e : Option (Expr κ)) : Node α κ .stmt
  | breakS : Node α κ .stmt
  | continueS : Node α κ .stmt
  | nil : Node α κ .block
  | cons (s : Node α κ .stmt) (rest : Node α κ .block) : Node α κ .block
  | noElse : Node α κ .elses
  | elseB (body : Node α κ .block) : Node α κ .elses
  | elseIf (cond : Expr κ) (body : Node α κ .block) (rest : Node α κ .elses) : Node α κ .elses
  | noDefault : Node α κ .cases
  | default (body : Node α κ .block) : Node α κ .cases
  /-- A case has at least one value. -/
  | case (value : Expr κ) (values : List (Expr κ)) (body : Node α κ .block)
      (rest : Node α κ .cases) : Node α κ .cases
  | noCatch : Node α κ .catches
  | catchB (type : Option String) (var : String) (body : Node α κ .block)
      (rest : Node α κ .catches) : Node α κ .catches

section

variable {α κ : Type}

abbrev Stmt (α κ : Type) := Node α κ .stmt

abbrev Block (α κ : Type) := Node α κ .block

def Node.isNil : Block α κ → Bool
  | .nil => true
  | .cons _ _ => false

def Node.isNoElse : Node α κ .elses → Bool
  | .noElse => true
  | _ => false

def Node.isNoCatch : Node α κ .catches → Bool
  | .noCatch => true
  | _ => false

def Node.last : Block α κ → Option (Stmt α κ)
  | .nil => none
  | .cons s rest => (Node.last rest).or (some s)

def CmpOp.flip : CmpOp → CmpOp
  | .lt => .gt
  | .lte => .gte
  | .gt => .lt
  | .gte => .lte
  | .eq => .eq
  | .neq => .neq

def fitsI32 (c : Int64) : Bool := -2147483648 ≤ c.toInt && c.toInt ≤ 2147483647

/-- A comparison of a local with a constant; with the constant in front it is turned round. -/
def matchLocalCmpConst : Expr κ → Option (String × Int64 × CmpOp)
  | .cmp op (.ident name) (.int c) => if fitsI32 c then some (name, c, op) else none
  | .cmp op (.int c) (.ident name) => some (name, c, op.flip)
  | _ => none

/-- The step of `name = name + k`, `name = k + name` and `name = name - k`; `same` is the comparison
of the two names. -/
def matchStep (same : String → String → Bool) (name : String) : ArithOp → Expr κ → Expr κ →
    Option (String × Int64)
  | .add, .ident l, .int k => if same l name then some (name, k) else none
  | .add, .int k, .ident r => if same r name then some (name, k) else none
  | .sub, .ident l, .int k => if same l name then some (name, -k) else none
  | _, _, _ => none

def ArithOp.unit : ArithOp → Int64
  | .add => 1
  | .sub => -1

def matchIncDecIdentifier : Expr κ → Option (String × Int64)
  | .postfixOp op name => some (name, op.unit)
  | .prefixOp op name => some (name, op.unit)
  | .assign name op left right => matchStep (· == ·) name op left right
  | _ => none

def matchStrideStatement : Stmt α κ → Option (String × Int64)
  | .expr e => (matchIncDecIdentifier e).filter fun (_, step) => fitsI32 step
  | .assignConst name .add k => some (name, k)
  | .assignConst name .sub k => some (name, -k)
  | .assign name op left right => matchStep eqIgnoreAsciiCase name op left right
  | _ => none

/-- Not in an inner loop. -/
def hasTopLevelContinue : {c : Category} → Node α κ c → Bool
  | _, .continueS => true
  | _, .ifS _ thenB rest => hasTopLevelContinue thenB || hasTopLevelContinue rest
  | _, .switchS _ cases => hasTopLevelContinue cases
  | _, .tryS body catches => hasTopLevelContinue body || hasTopLevelContinue catches
  | _, .tryFinally body catches fin =>
    hasTopLevelContinue body || hasTopLevelContinue catches || hasTopLevelContinue fin
  | _, .output body => hasTopLevelContinue body
  | _, .cons s rest => hasTopLevelContinue s || hasTopLevelContinue rest
  | _, .elseB body => hasTopLevelContinue body
  | _, .elseIf _ body rest => hasTopLevelContinue body || hasTopLevelContinue rest
  | _, .default body => hasTopLevelContinue body
  | _, .case _ _ body rest => hasTopLevelContinue body || hasTopLevelContinue rest
  | _, .catchB _ _ body rest => hasTopLevelContinue body || hasTopLevelContinue rest
  | _, _ => false

/-- The counted `for` loop: both parts match and name the same variable. -/
def countedFor (cond : Expr κ) (increment : Option (Expr κ)) :
    Option (String × Int64 × CmpOp × Int64) := do
  let (name, limit, op) ← matchLocalCmpConst cond
  let (name', step) ← increment.bind matchIncDecIdentifier
  if name = name' then return (name, limit, op, step) else none

def countedBody (cond : Expr κ) (body : Block α κ) : Option (String × Int64 × CmpOp × Int64) := do
  let (name, limit, op) ← matchLocalCmpConst cond
  let (name', step) ← body.last.bind matchStrideStatement
  if eqIgnoreAsciiCase name name' && !hasTopLevelContinue body then return (name, limit, op, step)
  else none

end

end RustCfml.Codegen
