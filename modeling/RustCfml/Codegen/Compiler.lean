import RustCfml.Codegen.Bytecode

/-!
# `compiler.rs`: control flow

**`finally_stack` holds emitters, not statements.** The source keeps the statements of each open
`finally` and compiles them again at every exit, with the stack emptied (`return`, `break`,
`continue`) or popped by one (`rethrow`).
-/

namespace RustCfml.Codegen

section

variable {α κ : Type}

def compileExpression : Expr κ → List (Op α κ)
  | .other e => [.eval e]
  | .ident name => [.loadLocal (.named name)]
  | .int n => [.integer n]
  | .cmp op left right => compileExpression left ++ compileExpression right ++ [.cmp op]
  | .arith op left right => compileExpression left ++ compileExpression right ++ [.arith op]
  | .assign name op left right =>
    compileExpression left ++ compileExpression right ++ [.arith op, .storeLocal (.named name)]
  | .postfixOp op name =>
    [.loadLocal (.named name), .dup, .integer 1, .arith op, .storeLocal (.named name)]
  | .prefixOp op name =>
    [.loadLocal (.named name), .integer op.unit, .arith .add, .dup, .storeLocal (.named name)]

def incDecStatement : Expr κ → Option (Op α κ)
  | .postfixOp .add name | .prefixOp .add name => some (.increment (.named name))
  | .postfixOp .sub name | .prefixOp .sub name => some (.decrement (.named name))
  | _ => none

def discard (e : Expr κ) : List (Op α κ) :=
  match incDecStatement e with
  | some op => [op]
  | none => compileExpression e ++ [.pop]

def expressionStatement : Expr κ → List (Op α κ)
  | .ident _ => []
  | e => discard e

def condJumpFalse (cond : Expr κ) (target : Nat) : List (Op α κ) :=
  match matchLocalCmpConst cond with
  | some (name, c, op) => [.jumpIfLocalCmpConstFalse name c.toInt32 op target]
  | none => compileExpression cond ++ [.jumpIfFalse target]

def condLength (α : Type) (cond : Expr κ) : Nat := (condJumpFalse cond 0 : List (Op α κ)).length

/-! ## The compile-time stacks -/

/-- What the code of a statement depends on besides the `finally` stack. -/
structure Site where
  /-- Depth of the `finally` stack at the innermost frame, if there is one. -/
  breakDepth : Option Nat
  /-- The same at the innermost loop. -/
  continueDepth : Option Nat
  catchVar : Option String
  place : Place
  /-- The `try` whose `finally` copy starts with the next statement. -/
  mark : Option Nat
  /-- Would a `break`, `continue` or `return` here leave an inline `finally` copy? -/
  breakEscapes : Bool
  continueEscapes : Bool
  returnEscapes : Bool

structure Finally (α κ : Type) where
  /-- The `try` statement, unless its `finally` body is empty. -/
  owner : Option Nat
  lexical : List Nat
  /-- The body compiled with an empty `finally` stack. -/
  detached : Site → Nat → List (Slot α κ)
  /-- The body compiled with the rest of the stack. -/
  popped : Site → Nat → List (Slot α κ)

structure Ctx (α κ : Type) where
  site : Site
  /-- `finally_stack`, innermost first. -/
  finallys : List (Finally α κ)

def Ctx.place (cx : Ctx α κ) : Place := cx.site.place

/-- The parts of a statement stand behind its line. -/
def Ctx.parts (cx : Ctx α κ) : Ctx α κ := { cx with site := { cx.site with mark := none } }

def Ctx.at (cx : Ctx α κ) (place : Place) : Ctx α κ :=
  { cx with site := { cx.site with place, mark := none } }

def Ctx.copy (cx : Ctx α κ) (t : Nat) : Ctx α κ :=
  { cx with site := { cx.site with mark := some t } }

def Ctx.enterLoop (cx : Ctx α κ) : Ctx α κ :=
  { cx with site := { cx.site with
      breakDepth := some cx.finallys.length, continueDepth := some cx.finallys.length,
      mark := none, breakEscapes := false, continueEscapes := false } }

/-- A `switch` pushes a frame that `continue` skips. -/
def Ctx.enterSwitch (cx : Ctx α κ) : Ctx α κ :=
  { cx with site := { cx.site with
      breakDepth := some cx.finallys.length, mark := none, breakEscapes := false } }

def Finally.start (f : Finally α κ) (pending : List Nat) : List Nat :=
  match f.owner with
  | some _ => pending.tail
  | none => pending

def Finally.place (f : Finally α κ) (place : Place) : Place :=
  ⟨f.start place.pending, place.opens, f.lexical⟩

/-- Where an exit's inline copy of `f` stands. -/
def Site.detach (site : Site) (f : Finally α κ) : Site :=
  { site with place := f.place site.place,
              breakEscapes := true, continueEscapes := true, returnEscapes := true }

/-- Where a `rethrow`'s inline copy of `f` stands: a `return` in it still sees the rest of the
stack. -/
def Site.popFor (site : Site) (f : Finally α κ) : Site :=
  { site with place := f.place site.place, breakEscapes := true, continueEscapes := true }

/-- The `finally` bodies run before an exit, innermost first. -/
def inlineFinallys : List (Finally α κ) → Site → Nat → List (Slot α κ)
  | [], _, _ => []
  | f :: fs, site, pos =>
    let code := f.detached (site.detach f) pos
    code ++ inlineFinallys fs (site.detach f) (pos + code.length)

def afterFinallys (fs : List (Finally α κ)) (place : Place) : Place :=
  { place with pending := fs.foldl (fun pending f => f.start pending) place.pending }

def Ctx.above (cx : Ctx α κ) (depth : Nat) : List (Finally α κ) :=
  cx.finallys.take (cx.finallys.length - depth)

def breakOutOfClosure (cx : Ctx α κ) (pos : Nat) : List (Slot α κ) :=
  inlineFinallys cx.finallys cx.site pos ++
    [.instr (.plain (afterFinallys cx.finallys cx.place) .null),
     .instr ⟨.ret, afterFinallys cx.finallys cx.place, false, none, cx.site.returnEscapes⟩]

def breakCode (cx : Ctx α κ) (pos : Nat) : List (Slot α κ) :=
  match cx.site.breakDepth with
  | none => breakOutOfClosure cx pos
  | some depth =>
    inlineFinallys (cx.above depth) cx.site pos ++
      [.breakJump (afterFinallys (cx.above depth) cx.place) cx.site.breakEscapes]

def continueCode (cx : Ctx α κ) (pos : Nat) : List (Slot α κ) :=
  match cx.site.continueDepth with
  | none => breakOutOfClosure cx pos
  | some depth =>
    inlineFinallys (cx.above depth) cx.site pos ++
      [.continueJump (afterFinallys (cx.above depth) cx.place) cx.site.continueEscapes]

def returnValue : Option (Expr κ) → List (Op α κ)
  | some e => compileExpression e
  | none => [.null]

def returnCode (cx : Ctx α κ) (e : Option (Expr κ)) (pos : Nat) : List (Slot α κ) :=
  let value : List (Slot α κ) := ops cx.place (returnValue e)
  if cx.finallys.isEmpty then
    value ++ [.instr ⟨.ret, cx.place, false, none, cx.site.returnEscapes⟩]
  else
    -- the value waits in a temporary, so that the bodies run on a clean operand stack
    let stash : List (Slot α κ) := ops cx.place [.declareLocal .retval, .storeLocal .retval]
    value ++ stash ++ inlineFinallys cx.finallys cx.site (pos + value.length + stash.length) ++
      [.instr (.plain (afterFinallys cx.finallys cx.place) (.loadLocal .retval)),
       .instr ⟨.ret, afterFinallys cx.finallys cx.place, false, none, cx.site.returnEscapes⟩]

def throwCode (cx : Ctx α κ) (e : Option (Expr κ)) : List (Slot α κ) :=
  match e with
  | some e => ops cx.place (compileExpression e ++ [.throw])
  | none => ops cx.place [.defaultMessage, .throw]

def rethrowOps (catchVar : Option String) : List (Op α κ) :=
  match catchVar with
  | some x => [.setLastExceptionFromLocal (.named x), .rethrow]
  | none => [.rethrow]

def rethrowCode (cx : Ctx α κ) (pos : Nat) : List (Slot α κ) :=
  match cx.finallys with
  | [] => ops cx.place (rethrowOps cx.site.catchVar)
  | f :: _ =>
    ops cx.place [.saveException] ++ f.popped (cx.site.popFor f) (pos + 1) ++
      ops (afterFinallys [f] cx.place) (.restoreException :: rethrowOps cx.site.catchVar)

/-- `compile_if`. -/
def ifCode (place : Place) (cond : Expr κ) (hasElse : Bool) (thenPos : Nat)
    (thenCode elseCode : List (Slot α κ)) : List (Slot α κ) :=
  let elsePos := thenPos + thenCode.length + 1
  if hasElse then
    ops place (condJumpFalse cond elsePos) ++ thenCode ++
      ops place [.jump (elsePos + elseCode.length)] ++
      elseCode.map (Slot.patchEnd (elsePos + elseCode.length))
  else ops place (condJumpFalse cond (thenPos + thenCode.length)) ++ thenCode

def elseIfCode (place : Place) (cond : Expr κ) (bodyPos : Nat) (body rest : List (Slot α κ)) :
    List (Slot α κ) :=
  ops place (condJumpFalse cond (bodyPos + body.length + 1)) ++ body ++ [.endJump place] ++ rest

/-- The generic loop of `compile_for` and `compile_while`: `body` stands at `bodyPos`, after the
condition at `start`, and `after` behind it. -/
def loopCode (place : Place) (cond : Expr κ) (start bodyPos continueTo : Nat)
    (body : List (Slot α κ)) (after : List (Op α κ)) : List (Slot α κ) :=
  let loopEnd := bodyPos + body.length + after.length + 1
  ops place (condJumpFalse cond loopEnd) ++ body.map (Slot.patchLoop loopEnd continueTo) ++
    ops place (after ++ [.jump start])

/-- `compile_for_counted`: `body` stands behind the entry check at `start`. -/
def countedCode (place : Place) (name : String) (limit : Int64) (op : CmpOp) (step : Int64)
    (start : Nat) (body : List (Slot α κ)) : List (Slot α κ) :=
  let stepPos := start + 1 + body.length
  ops place [.jumpIfLocalCmpConstFalse name limit.toInt32 op (stepPos + 1)] ++
    body.map (Slot.patchLoop (stepPos + 1) stepPos) ++
    ops place [.forLoopStep name limit.toInt32 op step.toInt32 (start + 1)]

def countedDoCode (place : Place) (name : String) (limit : Int64) (op : CmpOp) (step : Int64)
    (start : Nat) (body : List (Slot α κ)) : List (Slot α κ) :=
  let stepPos := start + body.length
  body.map (Slot.patchLoop (stepPos + 1) stepPos) ++
    ops place [.forLoopStep name limit.toInt32 op step.toInt32 start]

def doCode (place : Place) (cond : Expr κ) (start : Nat) (body : List (Slot α κ)) :
    List (Slot α κ) :=
  let condPos := start + body.length
  let test : List (Op α κ) := compileExpression cond ++ [.jumpIfTrue start]
  body.map (Slot.patchLoop (condPos + test.length) condPos) ++ ops place test

/-- The part of `compile_for_in` before the loop; `n` numbers its temporaries. -/
def forInSetup (name : String) (declared capped : Bool) (iterable : Expr κ) (n : Nat) :
    List (Op α κ) :=
  compileExpression iterable ++
    [.forInPrepare, .declareLocal (.iter n), .declareLocal (.idx n), .storeLocal (.iter n)] ++
    (if capped then
      [.declareLocal (.cap n), .loadLocal (.iter n), .iterLen, .storeLocal (.cap n)] else []) ++
    [.integer 1, .storeLocal (.idx n)] ++ (if declared then [.declareLocal (.named name)] else [])

def forInHead (name : String) (capped : Bool) (n loopEnd : Nat) : List (Op α κ) :=
  (if capped then
    [.loadLocal (.idx n), .loadLocal (.cap n), .cmp .lte, .jumpIfFalse loopEnd] else []) ++
    [.loadLocal (.iter n), .loadLocal (.idx n), .forInStep loopEnd, .storeLocal (.named name)]

def forInCode (place : Place) (name : String) (capped : Bool) (n start bodyPos : Nat)
    (body : List (Slot α κ)) : List (Slot α κ) :=
  let continueTo := bodyPos + body.length
  ops place (forInHead name capped n (continueTo + 2)) ++
    body.map (Slot.patchLoop (continueTo + 2) continueTo) ++
    ops place [.increment (.idx n), .jump start, .loadLocal (.iter n), .forInExit]

def caseTest (x : Var) (value : Expr κ) (values : List (Expr κ)) : List (Op α κ) :=
  (.loadLocal x :: compileExpression value ++ [.cmp .eq]) ++
    values.flatMap fun v => .loadLocal x :: compileExpression v ++ [.cmp .eq, .or]

/-- The dispatch section: a test and a jump for each case, and the jump to the default. -/
def dispatchOps (x : Var) : Node α κ .cases → List Nat → List (Op α κ)
  | .case value values _ rest, starts =>
    caseTest x value values ++ [.jumpIfTrue (starts.headD 0)] ++ dispatchOps x rest starts.tail
  | .noDefault, starts | .default _, starts => [.jump (starts.headD 0)]

def switchSetup (e : Expr κ) (x : Var) : List (Op α κ) :=
  compileExpression e ++ [.declareLocal x, .storeLocal x]

def catchCode (place : Place) (type : Option String) (var : String) (pos : Nat)
    (body rest : List (Slot α κ)) : List (Slot α κ) :=
  ops place [.catchMatch (type.getD "any"), .jumpIfFalse (pos + 4 + body.length + 1),
    .declareLocal (.named var), .storeLocal (.named var)] ++ body ++ [.endJump place] ++ rest

def Place.enter (place : Place) (t : Nat) (owes : Bool) : Place :=
  ⟨if owes then t :: place.pending else place.pending, t :: place.opens, t :: place.lexical⟩

/-- The place of the rest of the statement before its `finally`. -/
def Place.owing (place : Place) (t : Nat) (owes : Bool) : Place :=
  ⟨if owes then t :: place.pending else place.pending, place.opens, place.lexical⟩

def tryStartSlot (place : Place) (t : Nat) (owes : Bool) (catchIp : Nat) : Slot α κ :=
  .instr ⟨.tryStart catchIp, place.owing t owes, owes, none, false⟩

/-- The general shape of `compile_try` at `t`. -/
def tryCode (place : Place) (t : Nat) (owes hasFinally : Bool)
    (body catches unmatched after : List (Slot α κ)) : List (Slot α κ) :=
  let catchStart := t + 1 + body.length + 2
  let tail : List (Slot α κ) :=
    if hasFinally then
      ops (place.owing t owes) [.pop, .saveException] ++ unmatched ++
        ops place [.restoreException, .rethrow]
    else ops place [.pop, .rethrow]
  let endPos := catchStart + catches.length + tail.length
  [tryStartSlot place t owes catchStart] ++ body ++ ops (place.enter t owes) [.tryEnd] ++
    ops (place.owing t owes) [.jump endPos] ++ catches.map (Slot.patchEnd endPos) ++ tail ++ after

def tryOnlyFinallyCode (place : Place) (t : Nat) (owes : Bool)
    (body normal handler : List (Slot α κ)) : List (Slot α κ) :=
  let handlerStart := t + 1 + body.length + 1 + normal.length + 1
  [tryStartSlot place t owes handlerStart] ++ body ++ ops (place.enter t owes) [.tryEnd] ++
    normal ++ ops place [.jump (handlerStart + 1 + handler.length + 2)] ++
    ops (place.owing t owes) [.saveException] ++ handler ++ ops place [.restoreException, .rethrow]

/-- The code of a node; for a block also the code without its last statement, for cases the
positions of their bodies, the default last. -/
structure Out (α κ : Type) where
  code : List (Slot α κ)
  init : List (Slot α κ)
  starts : List Nat

/-- Every statement begins with its line. -/
def Out.stmt (cx : Ctx α κ) (code : List (Slot α κ)) : Out α κ :=
  ⟨.instr ⟨.lineInfo, cx.place, false, cx.site.mark, false⟩ :: code, [], []⟩

/-- The entry `compile_try` pushes, `emit` being the compiler of the `finally` body. -/
def Finally.push (cx : Ctx α κ) (t : Nat) (owes : Bool) (emit : Ctx α κ → Nat → List (Slot α κ)) :
    Ctx α κ :=
  ⟨cx.site, ⟨if owes then some t else none, cx.place.lexical,
    fun site pos => emit (Ctx.copy ⟨site, []⟩ t) pos,
    fun site pos => emit (Ctx.copy ⟨site, cx.finallys⟩ t) pos⟩ :: cx.finallys⟩

def compile : {c : Category} → Node α κ c → Ctx α κ → Nat → Out α κ
  | _, .nil, _, _ => ⟨[], [], []⟩
  | _, .cons s rest, cx, pos =>
    let a := (compile s cx pos).code
    let b := compile rest cx.parts (pos + a.length)
    ⟨a ++ b.code, if rest.isNil then [] else a ++ b.init, []⟩
  | _, .atom a, cx, _ => .stmt cx (ops cx.place [.exec a])
  | _, .expr e, cx, _ => .stmt cx (ops cx.place (expressionStatement e))
  | _, .assignConst name .add k, cx, _ => .stmt cx (ops cx.place [.addLocalConst (.named name) k])
  | _, .assignConst name .sub k, cx, _ =>
    .stmt cx (ops cx.place [.addLocalConst (.named name) (-k)])
  | _, .assign name op left right, cx, _ =>
    .stmt cx (ops cx.place (compileExpression left ++ compileExpression right ++
      [.arith op, .storeLocal (.named name)]))
  | _, .output body, cx, pos => .stmt cx (compile body cx.parts (pos + 1)).code
  | _, .ifS cond thenB rest, cx, pos =>
    let thenPos := pos + 1 + condLength α cond
    let thenCode := (compile thenB cx.parts thenPos).code
    .stmt cx (ifCode cx.place cond (!rest.isNoElse) thenPos thenCode
      (compile rest cx.parts (thenPos + thenCode.length + 1)).code)
  | _, .noElse, _, _ => ⟨[], [], []⟩
  | _, .elseB body, cx, pos => ⟨(compile body cx pos).code, [], []⟩
  | _, .elseIf cond body rest, cx, pos =>
    let bodyPos := pos + condLength α cond
    let bodyCode := (compile body cx bodyPos).code
    ⟨elseIfCode cx.place cond bodyPos bodyCode
      (compile rest cx (bodyPos + bodyCode.length + 1)).code, [], []⟩
  | _, .forS init cond increment body, cx, pos =>
    let initCode := (compile init cx.parts (pos + 1)).code
    let start := pos + 1 + initCode.length
    match cond with
    -- without a condition only the initialiser is emitted
    | none => .stmt cx initCode
    | some cond =>
      match countedFor cond increment with
      | some (name, limit, op, step) =>
        .stmt cx (initCode ++ countedCode cx.place name limit op step start
          (compile body cx.enterLoop (start + 1)).code)
      | none =>
        let bodyPos := start + condLength α cond
        let bodyCode := (compile body cx.enterLoop bodyPos).code
        .stmt cx (initCode ++ loopCode cx.place cond start bodyPos (bodyPos + bodyCode.length)
          bodyCode ((increment.map discard).getD []))
  | _, .forIn name declared capped iterable body, cx, pos =>
    let n := pos + 1 + (compileExpression iterable : List (Op α κ)).length + 1
    let setup : List (Op α κ) := forInSetup name declared capped iterable n
    let start := pos + 1 + setup.length
    let bodyPos := start + (forInHead name capped n 0 : List (Op α κ)).length
    .stmt cx (ops cx.place setup ++ forInCode cx.place name capped n start bodyPos
      (compile body cx.enterLoop bodyPos).code)
  | _, .whileS cond body, cx, pos =>
    match countedBody cond body with
    | some (name, limit, op, step) =>
      .stmt cx (countedCode cx.place name limit op step (pos + 1)
        (compile body cx.enterLoop (pos + 2)).init)
    | none =>
      let bodyPos := pos + 1 + condLength α cond
      .stmt cx (loopCode cx.place cond (pos + 1) bodyPos (pos + 1)
        (compile body cx.enterLoop bodyPos).code [])
  | _, .doS body cond, cx, pos =>
    match countedBody cond body with
    | some (name, limit, op, step) =>
      .stmt cx (countedDoCode cx.place name limit op step (pos + 1)
        (compile body cx.enterLoop (pos + 1)).init)
    | none => .stmt cx (doCode cx.place cond (pos + 1) (compile body cx.enterLoop (pos + 1)).code)
  | _, .switchS e cases, cx, pos =>
    let n := pos + 1 + (compileExpression e : List (Op α κ)).length
    let setup : List (Op α κ) := switchSetup e (.switchV n)
    let bodiesPos := pos + 1 + setup.length + (dispatchOps (.switchV n) cases []).length
    let out := compile cases cx.enterSwitch bodiesPos
    .stmt cx (ops cx.place setup ++ ops cx.place (dispatchOps (.switchV n) cases out.starts) ++
      out.code.map (Slot.patchBreaks (bodiesPos + out.code.length)))
  | _, .noDefault, _, pos => ⟨[], [], [pos]⟩
  | _, .default body, cx, pos => ⟨(compile body cx pos).code, [], [pos]⟩
  | _, .case _ _ body rest, cx, pos =>
    let bodyCode := (compile body cx pos).code
    let out := compile rest cx (pos + bodyCode.length)
    ⟨bodyCode ++ out.code, [], pos :: out.starts⟩
  | _, .tryS body catches, cx, pos =>
    let t := pos + 1
    let bodyCode := (compile body (cx.at (cx.place.enter t false)) (t + 1)).code
    .stmt cx (tryCode cx.place t false false bodyCode
      (compile catches cx.parts (t + 1 + bodyCode.length + 2)).code [] [])
  | _, .tryFinally body catches fin, cx, pos =>
    let t := pos + 1
    let owes := !fin.isNil
    let inner := Finally.push cx t owes fun cx pos => (compile fin cx pos).code
    let copy := fun pos => (compile fin (cx.copy t) pos).code
    let bodyCode := (compile body (inner.at (cx.place.enter t owes)) (t + 1)).code
    if catches.isNoCatch then
      let normal := copy (t + 1 + bodyCode.length + 1)
      .stmt cx (tryOnlyFinallyCode cx.place t owes bodyCode normal
        (copy (t + 1 + bodyCode.length + 1 + normal.length + 2)))
    else
      let catchStart := t + 1 + bodyCode.length + 2
      let catchCode := (compile catches (inner.at (cx.place.owing t owes)) catchStart).code
      let unmatched := copy (catchStart + catchCode.length + 2)
      .stmt cx (tryCode cx.place t owes true bodyCode catchCode unmatched
        (copy (catchStart + catchCode.length + 2 + unmatched.length + 2)))
  | _, .noCatch, _, _ => ⟨[], [], []⟩
  | _, .catchB type var body rest, cx, pos =>
    let bodyCode :=
      (compile body { cx with site := { cx.site with catchVar := some var } } (pos + 4)).code
    ⟨catchCode cx.place type var pos bodyCode
      (compile rest cx (pos + 4 + bodyCode.length + 1)).code, [], []⟩
  | _, .throwS e, cx, _ => .stmt cx (throwCode cx e)
  | _, .rethrow, cx, pos => .stmt cx (rethrowCode cx (pos + 1))
  | _, .returnS e, cx, pos => .stmt cx (returnCode cx e (pos + 1))
  | _, .breakS, cx, pos => .stmt cx (breakCode cx (pos + 1))
  | _, .continueS, cx, pos => .stmt cx (continueCode cx (pos + 1))

def Ctx.function : Ctx α κ := ⟨⟨none, none, none, ⟨[], [], []⟩, none, false, false, false⟩, []⟩

def Slot.resolve (breakTarget continueTarget endTarget : Nat) : Slot α κ → Instr α κ
  | .instr i => i
  | .breakJump place escapes => ⟨.jump breakTarget, place, false, none, escapes⟩
  | .continueJump place escapes => ⟨.jump continueTarget, place, false, none, escapes⟩
  | .endJump place => .plain place (.jump endTarget)

def compileFunction (body : Block α κ) : List (Instr α κ) :=
  ((compile body Ctx.function 0).code ++ ops ⟨[], [], []⟩ [.null, .ret]).map (Slot.resolve 0 0 0)

end

end RustCfml.Codegen
