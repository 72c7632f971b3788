import RustCfml.Common.Value
import RustCfml.Lib.Lowercase

/-!
# The realtime registry

Membership is kept twice, with the connection and in an index by channel and room. **Names are
lower-cased when a room is joined, left or sent to, but not when a connection is put into its
own.** And the history of a channel keeps frames, not whom they were for: what was sent to a
room, or to all but one, is replayed to whoever asks.
-/

namespace RustCfml.Realtime

open Lowercase

/-- A frame as it goes over the wire. -/
structure WireEnvelope where
  t : String
  ch : String
  ev : Option String
  d : CfmlValue
  id : String
  refId : Option String

/-- Whom a frame is for. -/
inductive Address where
  | channel (channel : String) (except : Option String)
  | room (channel room : String) (except : Option String)
  | direct

def Address.except : Address → Option String
  | channel _ e => e
  | room _ _ e => e
  | direct => none

structure Delivery where
  receiver : String
  frame : WireEnvelope
  address : Address

/-- A connection, with the rooms it is in. -/
structure ConnEntry where
  id : String
  channel : String
  rooms : List String

/-- Connections by id and members by room, each a mirror of the other. -/
structure Registry where
  nodeId : String
  seq : Nat
  conns : List ConnEntry
  /-- `(channel, room)` to the members. -/
  rooms : String × String → List String
  history : String → List (WireEnvelope × Address)
  historyCap : String → Nat

namespace Registry

def init (nodeId : String) : Registry := ⟨nodeId, 1, [], fun _ => [], fun _ => [], fun _ => 0⟩

def conn? (σ : Registry) (id : String) : Option ConnEntry := σ.conns.find? (·.id = id)

def newConnId (σ : Registry) (uuid : String) : String := σ.nodeId ++ ":" ++ uuid

def nextId (σ : Registry) : String × Registry :=
  (σ.nodeId ++ ":" ++ toString σ.seq, { σ with seq := (σ.seq + 1) % 2 ^ 64 })

section

variable (T : CaseTables)

/-- A connection joins the room of its own id, as the id is written. -/
def register (σ : Registry) (channel uuid : String) : Registry :=
  let channel := lowerString T channel
  let id := σ.newConnId uuid
  { σ with
    rooms := Function.update σ.rooms (channel, id) ((σ.rooms (channel, id)).insert id)
    conns := ⟨id, channel, [id]⟩ :: σ.conns.filter (·.id ≠ id) }

/-- A connection leaves every room. -/
def unregister (σ : Registry) (id : String) : Registry :=
  match σ.conn? id with
  | none => σ
  | some entry =>
    { σ with
      conns := σ.conns.filter (·.id ≠ id)
      rooms := fun k =>
        if k.1 = entry.channel ∧ k.2 ∈ entry.rooms then (σ.rooms k).filter (· ≠ id) else σ.rooms k }

def editRooms (id : String) (f : List String → List String) (e : ConnEntry) : ConnEntry :=
  if e.id = id then { e with rooms := f e.rooms } else e

/-- Rooms are kept by their lower-cased names. -/
def join (σ : Registry) (id room : String) : Registry :=
  let room := lowerString T room
  match σ.conn? id with
  | none => σ
  | some entry =>
    { σ with
      conns := σ.conns.map (editRooms id (List.insert room))
      rooms := Function.update σ.rooms (entry.channel, room)
        ((σ.rooms (entry.channel, room)).insert id) }

def leave (σ : Registry) (id room : String) : Registry :=
  let room := lowerString T room
  match σ.conn? id with
  | none => σ
  | some entry =>
    { σ with
      conns := σ.conns.map (editRooms id (List.filter (· ≠ room)))
      rooms := Function.update σ.rooms (entry.channel, room)
        ((σ.rooms (entry.channel, room)).filter (· ≠ id)) }

/-- A connection that is gone gets nothing. -/
def emitTo (σ : Registry) (id : String) (frame : WireEnvelope) (address : Address) :
    List Delivery :=
  match σ.conn? id with
  | some _ => [⟨id, frame, address⟩]
  | none => []

def broadcastLocal (σ : Registry) (channel : String) (frame : WireEnvelope)
    (except : Option String) : List Delivery :=
  (σ.conns.filter fun e => e.channel = lowerString T channel ∧ some e.id ≠ except).map fun e =>
    ⟨e.id, frame, .channel channel except⟩

/-- The members of the room, but for the excluded one. -/
def toRoomLocal (σ : Registry) (channel room : String) (frame : WireEnvelope)
    (except : Option String) : List Delivery :=
  ((σ.rooms (lowerString T channel, lowerString T room)).filter fun id =>
    some id ≠ except ∧ (σ.conn? id).isSome).map fun id => ⟨id, frame, .room channel room except⟩

def setHistoryCap (σ : Registry) (channel : String) (cap : Nat) : Registry :=
  if cap = 0 then σ
  else { σ with historyCap := Function.update σ.historyCap (lowerString T channel) cap }

/-- Only where the channel has a history, of which the oldest is dropped. -/
def recordHistory (σ : Registry) (channel : String) (frame : WireEnvelope) (address : Address) :
    Registry :=
  let channel := lowerString T channel
  let cap := σ.historyCap channel
  if cap = 0 then σ
  else
    let ring := σ.history channel ++ [(frame, address)]
    { σ with history := Function.update σ.history channel (ring.drop (ring.length - cap)) }

/-- Decimal digits, after an optional `+`, of a number below 2⁶⁴. -/
def parseU64 (cs : List Char) : Option Nat :=
  let digits := match cs with
    | '+' :: ds => ds
    | ds => ds
  if digits = [] ∨ digits.any (fun c => !c.isDigit) then none
  else
    let n := digits.foldl (fun n c => n * 10 + (c.toNat - '0'.toNat)) 0
    if n < 2 ^ 64 then some n else none

/-- An id is a node's name and a number. -/
def parseEventId (id : String) : Option (String × Nat) :=
  let back := id.toList.reverse
  let tail := back.takeWhile (· ≠ ':')
  match back.drop tail.length with
  | _ :: front => (parseU64 tail.reverse).map fun seq => (.ofList front.reverse, seq)
  | [] => none

def seqOf (f : WireEnvelope × Address) : Option Nat := (parseEventId f.1.id).map Prod.snd

/-- Every retained frame with a greater number, to whoever asks. -/
def replaySince (σ : Registry) (channel lastEventId id : String) : Registry × List Delivery :=
  match parseEventId lastEventId with
  | none => (σ, [])
  | some (node, lastSeq) =>
    if node ≠ σ.nodeId then (σ, [])
    else
      let ring := σ.history (lowerString T channel)
      let oldest := (ring.filterMap seqOf).min?.getD 0
      let missed := ring.filter fun f => (seqOf f).any (lastSeq < ·)
      let frames := missed.flatMap fun f => σ.emitTo id f.1 f.2
      if ring ≠ [] ∧ lastSeq < oldest then
        let (resetId, σ') := σ.nextId
        (σ', σ.emitTo id ⟨"reset", channel, none, .null, resetId, none⟩ .direct ++ frames)
      else (σ, frames)

/-- What the sockets, an application's calls and the peers do. -/
inductive Op where
  | setHistoryCap (channel : String) (cap : Nat)
  | register (channel uuid : String)
  | unregister (id : String)
  | join (id room : String)
  | leave (id room : String)
  | broadcast (channel : String) (frame : WireEnvelope) (except : Option String)
  | toRoom (channel room : String) (frame : WireEnvelope) (except : Option String)
  /-- From a peer, or a whisper: delivered and not recorded. -/
  | broadcastLocal (channel : String) (frame : WireEnvelope) (except : Option String)
  | toRoomLocal (channel room : String) (frame : WireEnvelope) (except : Option String)
  | emitTo (id : String) (frame : WireEnvelope)
  | replaySince (channel lastEventId id : String)

def perform (σ : Registry) : Op → Registry × List Delivery
  | .setHistoryCap channel cap => (σ.setHistoryCap T channel cap, [])
  | .register channel uuid => (σ.register T channel uuid, [])
  | .unregister id => (σ.unregister id, [])
  | .join id room => (σ.join T id room, [])
  | .leave id room => (σ.leave T id room, [])
  | .broadcast channel frame except =>
    (σ.recordHistory T (lowerString T channel) frame (.channel channel except),
      σ.broadcastLocal T channel frame except)
  | .toRoom channel room frame except =>
    (σ.recordHistory T (lowerString T channel) frame (.room channel room except),
      σ.toRoomLocal T channel room frame except)
  | .broadcastLocal channel frame except => (σ, σ.broadcastLocal T channel frame except)
  | .toRoomLocal channel room frame except => (σ, σ.toRoomLocal T channel room frame except)
  | .emitTo id frame => (σ, σ.emitTo id frame .direct)
  | .replaySince channel lastEventId id => σ.replaySince T channel lastEventId id

def step (σ : Registry) (op : Op) : Registry := (σ.perform T op).1

def deliveries (σ : Registry) (op : Op) : List Delivery := (σ.perform T op).2

def Member (σ : Registry) (id channel room : String) : Prop :=
  ∃ e ∈ σ.conns, e.id = id ∧ e.channel = lowerString T channel ∧ lowerString T room ∈ e.rooms

/-- Only members get what is for a room, nobody gets what excludes them, and what is for the room
named after a connection goes to that connection. -/
structure Isolated (σ : Registry) (op : Op) : Prop where
  members : ∀ d ∈ σ.deliveries T op, ∀ channel room except,
    d.address = .room channel room except → σ.Member T d.receiver channel room
  excluded : ∀ d ∈ σ.deliveries T op, d.address.except ≠ some d.receiver
  own : ∀ e ∈ σ.conns, ∀ channel frame except, lowerString T channel = e.channel →
    (op = .toRoom channel e.id frame except ∨ op = .toRoomLocal channel e.id frame except) →
    (σ.deliveries T op).map Delivery.receiver = if except = some e.id then [] else [e.id]

def Unused (σ : Registry) (id : String) : Prop := ∀ e ∈ σ.conns, e.id ≠ id ∧ id ∉ e.rooms

/-- The id of a new connection is unused and does not change when it is lower-cased; a connection
does not join the room of another nor leave its own; and what is not for a whole channel is only
sent where no history is kept. -/
def Discreet (σ : Registry) : Op → Prop
  | .register _ uuid =>
    σ.Unused (σ.newConnId uuid) ∧ lowerString T (σ.newConnId uuid) = σ.newConnId uuid
  | .join id room => ∀ e ∈ σ.conns, e.id = lowerString T room → e.id = id
  | .leave id room => lowerString T room ≠ id
  | .broadcast channel _ except =>
    except ≠ none → σ.historyCap (lowerString T (lowerString T channel)) = 0
  | .toRoom channel _ _ _ => σ.historyCap (lowerString T (lowerString T channel)) = 0
  | _ => True

end

end Registry

end RustCfml.Realtime
