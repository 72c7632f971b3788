import RustCfml.Common.Value
import RustCfml.Common.VersionedMap

/-!
# A `local` scope that escaped as a value

Reading `local` as a value hands out a struct that *is* the scope: writes through it are locals of
the frame, locals of the frame show up in it. The frame keeps its own map for speed, so from then on
there are **two replicas of one scope**, and `sync_escaped_local` reconciles them before every
instruction of the frame.
-/

namespace RustCfml.Vm

/-- The keys a frame got from its caller or as parameters, in the three stores they are kept in: a
bit set of engine names, a bit per declared parameter, and the rest. -/
structure InheritedKeys where
  structural : List String
  params : List String
  data : List String

namespace InheritedKeys

def structuralNames : List String := ["this", "__variables", "super", "variables", "__static"]

def containsKey (i : InheritedKeys) (k : String) : Bool :=
  if structuralNames.contains k then i.structural.contains k
  else i.params.any (eqIgnoreAsciiCase · k) || i.data.any (eqIgnoreAsciiCase · k)

def removeCiKey (i : InheritedKeys) (k : String) : InheritedKeys :=
  let structural := i.structural.filter fun s => !eqIgnoreAsciiCase s k
  if i.params.any (eqIgnoreAsciiCase · k) then
    { i with structural, params := i.params.eraseP (eqIgnoreAsciiCase · k) }
  else { i with structural, data := i.data.eraseP (eqIgnoreAsciiCase · k) }

end InheritedKeys

structure LocalFrame where
  /-- `func.param_keys()`. -/
  params : List String
  suppliedBits : UInt64
  /-- `arguments_supplied`, for the parameters from the 65th on. -/
  supplied : Option (List String)
  locals : VersionedMap CfmlValue
  declaredLocals : List String
  inherited : InheritedKeys
  slotNames : List String
  slots : List (Option CfmlValue)
  slotBlocked : UInt64

structure EscapedLocal where
  handle : VersionedMap CfmlValue
  handleVer : UInt32
  localsVer : UInt32
  pendingResync : Bool

/-- A frame whose `local` has escaped. -/
structure Replicas where
  frame : LocalFrame
  esc : EscapedLocal

/-- `escaped_local_handle`, the first time: the handle is made of a view of the scope and rebuilt at
the next instruction. -/
def escapedLocalHandle (frame : LocalFrame) (view : VersionedMap CfmlValue) : Replicas :=
  ⟨frame, ⟨view, view.version, 0, true⟩⟩

/-- The engine's own keys: `this`, `super` and whatever starts with `__`. -/
def isBridgeKey (k : String) : Bool :=
  eqIgnoreAsciiCase k "this" || eqIgnoreAsciiCase k "super" || k.toList.take 2 == ['_', '_']

def localViewVisible (inherited : InheritedKeys) (k : String) : Bool :=
  !inherited.containsKey k && !isBridgeKey k

namespace LocalFrame

def visible (f : LocalFrame) : ValueMap CfmlValue :=
  f.locals.entries.filter fun e => localViewVisible f.inherited e.1

def declareLocal (f : LocalFrame) (k : String) : LocalFrame :=
  { f with
    declaredLocals :=
      if f.declaredLocals.any (eqIgnoreAsciiCase · k) then f.declaredLocals else
        k :: f.declaredLocals
    inherited := f.inherited.removeCiKey k }

def spillSlotsForWriteback (f : LocalFrame) : LocalFrame :=
  { f with
    locals := (f.slotNames.zip f.slots).foldl (fun locals slot => match slot.2 with
        | some v => locals.insert slot.1 v
        | none => locals)
      f.locals
    slots := f.slots.map fun _ => none
    slotBlocked := (-1 : UInt64) }

def argumentsScopeKey : String := "__arguments__"

def isSupplied (f : LocalFrame) (i : Nat) (pk : String) : Bool :=
  if i < 64 then f.suppliedBits.toNat.testBit i
  else (f.supplied.getD []).any (eqIgnoreAsciiCase · pk)

def argumentsScope (f : LocalFrame) : CfmlValue :=
  let values := f.params.zipIdx.foldl
    (fun m p => ValueMap.insert m p.1 (if f.isSupplied p.2 p.1 then
      (f.locals.get? p.1).getD .null else .null)) []
  let marked := ValueMap.insert values "__arguments_scope" (.bool true)
  .struct (if f.params.isEmpty then marked
    else ValueMap.insert marked "__arguments_params" (.array (f.params.map .string)))

def isParam (f : LocalFrame) (k : String) : Bool := f.params.any (eqIgnoreAsciiCase · k)

/-- The frame keeps what was passed before a local takes the parameter's place. -/
def materialiseArguments (f : LocalFrame) : LocalFrame :=
  if f.locals.containsKey argumentsScopeKey then f
  else { f with locals := f.locals.insert argumentsScopeKey f.argumentsScope }

def pullEntry (f : LocalFrame) (k : String) (v : CfmlValue) : LocalFrame :=
  if isBridgeKey k then f
  else
    let f₁ := if f.isParam k then f.materialiseArguments else f
    let f₂ := if f.isParam k || f.inherited.containsKey k then f₁.declareLocal k else f₁
    { f₂ with locals := f₂.locals.insert k v }

def goneKeys (f : LocalFrame) (entries : ValueMap CfmlValue) : List String :=
  f.locals.entries.keys.filter fun k =>
    localViewVisible f.inherited k && !entries.any fun e => eqIgnoreAsciiCase e.1 k

def pull (f : LocalFrame) (entries : ValueMap CfmlValue) (frameChanged : Bool) : LocalFrame :=
  let f₁ := if frameChanged then f
    else { f with locals := f.locals.removeAll (f.goneKeys entries) }
  entries.foldl (fun f e => f.pullEntry e.1 e.2) f₁

end LocalFrame

namespace Replicas

/-- Both counters are read again, so that a sync does not trigger the next one. -/
def recordVersions (r : Replicas) : Replicas :=
  { r with esc := { r.esc with
      handleVer := r.esc.handle.version
      localsVer := r.frame.locals.version } }

def pushEscapedLocal (r : Replicas) : Replicas :=
  let visible := r.frame.visible
  let stale := r.esc.handle.entries.keys.filter fun hk =>
    !visible.any fun e => eqIgnoreAsciiCase e.1 hk
  recordVersions { r with esc := { r.esc with
      handle := (r.esc.handle.removeAll stale).insertAll visible } }

def handleChanged (r : Replicas) : Bool := r.esc.handle.version != r.esc.handleVer

def frameChanged (r : Replicas) : Bool := r.frame.locals.version != r.esc.localsVer

def syncEscapedLocal (r : Replicas) : Replicas :=
  if r.esc.pendingResync then
    let frame := if r.frame.slots.isEmpty then r.frame else r.frame.spillSlotsForWriteback
    pushEscapedLocal ⟨frame, { r.esc with pendingResync := false }⟩
  else if !r.handleChanged && !r.frameChanged then r
  else
    let pulled : Replicas :=
      if r.handleChanged then { r with frame := r.frame.pull r.esc.handle.entries r.frameChanged }
      else r
    if r.frameChanged then pulled.pushEscapedLocal else pulled.recordVersions

end Replicas

/-- Writes and deletes on either replica; a declaration changes what of the frame is its own. -/
inductive Edit where
  | framePut (k : String) (v : CfmlValue)
  | frameRemove (k : String)
  | frameDeclare (k : String)
  | handlePut (k : String) (v : CfmlValue)
  | handleRemove (k : String)

namespace Edit

def apply (r : Replicas) : Edit → Replicas
  | framePut k v => { r with frame := { r.frame with locals := r.frame.locals.insert k v } }
  | frameRemove k => { r with frame := { r.frame with locals := r.frame.locals.shiftRemove k } }
  | frameDeclare k => { r with frame := r.frame.declareLocal k }
  | handlePut k v => { r with esc := { r.esc with handle := r.esc.handle.insert k v } }
  | handleRemove k => { r with esc := { r.esc with handle := r.esc.handle.shiftRemove k } }

def frameKey? : Edit → Option String
  | framePut k _ => some k
  | frameRemove k => some k
  | _ => none

def handleKey? : Edit → Option String
  | handlePut k _ => some k
  | handleRemove k => some k
  | _ => none

end Edit

def Replicas.edit (r : Replicas) (edits : List Edit) : Replicas := edits.foldl Edit.apply r

end RustCfml.Vm
