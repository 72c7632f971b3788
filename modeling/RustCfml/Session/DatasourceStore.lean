import RustCfml.Common.Key
import RustCfml.Lib.Run
import RustCfml.Lib.SipHash
import RustCfml.Session.MemoryStore

/-!
# Sessions in a database table

All nodes share one table, keyed by session id and application. A `set` that changes nothing but the
time of the last access is skipped: each node remembers, for every session it has written, the
expiry and a hash of the content of **its own last write**, and compares with that.
-/

namespace RustCfml.Session

open StateMachine

structure StoredSession (V : Type) extends SessionData where
  vars : V
deriving DecidableEq

variable {V ι : Type}

namespace StoredSession

def u64Max : Nat := 2 ^ 64 - 1

def expiresAt (d : StoredSession V) : Nat := min (d.lastAccessedSecs + d.timeoutSecs) u64Max

def SameContent (d d' : StoredSession V) : Prop :=
  d.vars = d'.vars ∧ d.authUser = d'.authUser ∧ d.authRoles = d'.authRoles

instance [DecidableEq V] (d d' : StoredSession V) : Decidable (d.SameContent d') := by
  unfold SameContent
  infer_instance

lemma SameContent.trans {d d' d'' : StoredSession V} (h : d.SameContent d')
    (h' : d'.SameContent d'') : d.SameContent d'' :=
  ⟨h.1.trans h'.1, h.2.1.trans h'.2.1, h.2.2.trans h'.2.2⟩

end StoredSession

/-- `serde_json`, on records. -/
structure Codec (V : Type) where
  toJson : StoredSession V → Option String
  fromJson : String → Option (StoredSession V)

/-- The record can be written, and what is read back is it. -/
def Codec.Readable (C : Codec V) (d : StoredSession V) : Prop :=
  ∃ d' ∈ (C.toJson d).bind C.fromJson, d'.SameContent d

def contentHash (C : Codec V) (d : StoredSession V) (fallbackJson : String) : UInt64 :=
  let probe := { d with createdSecs := 0, lastAccessedSecs := 0 }
  match C.toJson probe with
  | some j => SipHash.hashStr j
  | none => SipHash.hashStr fallbackJson

/-- The primary key, `(cfid, app_name)`. -/
abbrev RowKey := String × String

structure Row where
  key : RowKey
  expiresAt : Int
  data : String

abbrev Table := List Row

def toI64 (n : Nat) : Int := if n < 2 ^ 63 then n else (n : Int) - 2 ^ 64

namespace Table

def row? (t : Table) (k : RowKey) : Option Row := t.find? (·.key = k)

def selectData (t : Table) (k : RowKey) (now : Nat) : Option String :=
  (t.find? fun r => r.key = k ∧ toI64 now < r.expiresAt).map Row.data

def update (t : Table) (k : RowKey) (data : String) (exp : Int) : Table :=
  t.map fun r => if r.key = k then ⟨k, exp, data⟩ else r

def insert (t : Table) (k : RowKey) (data : String) (exp : Int) : Table := ⟨k, exp, data⟩ :: t

def delete (t : Table) (k : RowKey) : Table := t.filter (·.key ≠ k)

/-- `UPDATE .. SET cfid = ?` -/
def rekey (t : Table) (old new : RowKey) : Table :=
  t.map fun r => if r.key = old then { r with key := new } else r

end Table

abbrev TouchCache := List (String × (Nat × UInt64))

namespace TouchCache

def touchCacheMax : Nat := 10000

def erase (c : TouchCache) (k : String) : TouchCache := c.filter (·.1 ≠ k)

def put (c : TouchCache) (k : String) (v : Nat × UInt64) : TouchCache := (k, v) :: c.erase k

/-- What `set` does after the write. -/
def remember (c : TouchCache) (k : String) (v : Nat × UInt64) : TouchCache :=
  if touchCacheMax ≤ c.length ∧ (c.lookup k).isNone then [(k, v)] else c.put k v

/-- What `rotate` does. -/
def rename (c : TouchCache) (old new : String) : TouchCache :=
  match c.lookup old with
  | some v => (c.erase old).put new v
  | none => c

end TouchCache

structure DbNode where
  appName : String
  touchCache : TouchCache

/-- `part`: the application's name, or the store's own. -/
def DbNode.part (n : DbNode) (app : String) : String :=
  let trimmed := trim app.toList
  if trimmed = [] then n.appName else .ofList trimmed

def cacheKey (k : RowKey) : String := k.2 ++ "\u001f" ++ k.1

structure DbCluster (ι V : Type) where
  table : Table
  nodes : ι → DbNode
  lastSet : RowKey → Option (StoredSession V)

/-- The outcome of a statement is decided by the database. -/
inductive DbOp (ι V : Type) where
  | get (n : ι) (app id : String) (now : Nat) (ok : Bool)
  | set (n : ι) (app id : String) (data : StoredSession V) (updateOk insertOk : Bool)
  | remove (n : ι) (app id : String) (ok : Bool)
  | rotate (n : ι) (app oldId newId : String) (ok : Bool)
  | takeExpired (n : ι) (now : Nat) (ok : Bool) (deleteOk : RowKey → Bool)

namespace DbCluster

variable [DecidableEq ι] (C : Codec V)

def key (σ : DbCluster ι V) (n : ι) (app id : String) : RowKey := (id, (σ.nodes n).part app)

def editCache (σ : DbCluster ι V) (n : ι) (f : TouchCache → TouchCache) : ι → DbNode :=
  Function.update σ.nodes n { σ.nodes n with touchCache := f (σ.nodes n).touchCache }

/-- `get` -/
def read (σ : DbCluster ι V) (n : ι) (app id : String) (now : Nat) (ok : Bool) :
    Option (StoredSession V) :=
  if ok then (σ.table.selectData (σ.key n app id) now).bind C.fromJson else none

/-- The expiry this node wrote last, if that write and this one have the same hash and a quarter of
the timeout has not passed between them. -/
def throttle? (σ : DbCluster ι V) (n : ι) (k : RowKey) (data : StoredSession V) (hash : UInt64) :
    Option Nat :=
  match (σ.nodes n).touchCache.lookup (cacheKey k) with
  | some (prevExp, prevHash) =>
    if prevHash = hash ∧ data.expiresAt - prevExp < max (data.timeoutSecs / 4) 1 then some prevExp
    else none
  | none => none

/-- The statements of a `set`: an `UPDATE`, and an `INSERT` when it has touched no row. -/
def upsert (t : Table) (k : RowKey) (json : String) (exp : Int) (updateOk insertOk : Bool) :
    Table × Bool :=
  if updateOk ∧ (t.row? k).isSome then (t.update k json exp, true)
  else if insertOk ∧ (t.row? k).isNone then (t.insert k json exp, updateOk)
  else (t, false)

def set (σ : DbCluster ι V) (n : ι) (app id : String) (data : StoredSession V)
    (updateOk insertOk : Bool) : DbCluster ι V :=
  let k := σ.key n app id
  match C.toJson data with
  | none => { σ with lastSet := Function.update σ.lastSet k none }
  | some json =>
    let hash := contentHash C data json
    match σ.throttle? n k data hash with
    | some _ => { σ with lastSet := Function.update σ.lastSet k (some data) }
    | none =>
      let written := upsert σ.table k json (toI64 data.expiresAt) updateOk insertOk
      { table := written.1
        nodes := σ.editCache n (·.remember (cacheKey k) (data.expiresAt, hash))
        lastSet := Function.update σ.lastSet k (if written.2 then some data else none) }

def remove (σ : DbCluster ι V) (n : ι) (app id : String) (ok : Bool) : DbCluster ι V :=
  let k := σ.key n app id
  { table := if ok then σ.table.delete k else σ.table
    nodes := σ.editCache n (·.erase (cacheKey k))
    lastSet := Function.update σ.lastSet k none }

def rotateOk (t : Table) (old new : RowKey) (ok : Bool) : Bool :=
  ok && ((t.row? old).isNone || decide (old = new) || (t.row? new).isNone)

def rotate (σ : DbCluster ι V) (n : ι) (app oldId newId : String) (ok : Bool) : DbCluster ι V :=
  let old := σ.key n app oldId
  let new := σ.key n app newId
  let nodes := σ.editCache n (·.rename (cacheKey old) (cacheKey new))
  if rotateOk σ.table old new ok then
    { table := σ.table.rekey old new
      nodes
      lastSet :=
        if (σ.table.row? old).isSome then
          Function.update (Function.update σ.lastSet old none) new (σ.lastSet old)
        else σ.lastSet }
  else
    { σ with nodes, lastSet := Function.update (Function.update σ.lastSet old none) new none }

def claimed (σ : DbCluster ι V) (now : Nat) (ok : Bool) (deleteOk : RowKey → Bool) : List RowKey :=
  if ok then
    (σ.table.filter fun r =>
      r.expiresAt ≤ toI64 now ∧ r.key.1 ≠ "" ∧ deleteOk r.key = true).map Row.key
  else []

def takeExpired (σ : DbCluster ι V) (n : ι) (now : Nat) (ok : Bool) (deleteOk : RowKey → Bool) :
    DbCluster ι V :=
  let gone := σ.claimed now ok deleteOk
  { table := σ.table.filter (·.key ∉ gone)
    nodes := σ.editCache n fun c => c.filter fun e => e.1 ∉ gone.map cacheKey
    lastSet := fun k => if k ∈ gone then none else σ.lastSet k }

def step (σ : DbCluster ι V) : DbOp ι V → DbCluster ι V
  | .get _ _ _ _ _ => σ
  | .set n app id data updateOk insertOk => σ.set C n app id data updateOk insertOk
  | .remove n app id ok => σ.remove n app id ok
  | .rotate n app oldId newId ok => σ.rotate n app oldId newId ok
  | .takeExpired n now ok deleteOk => σ.takeExpired n now ok deleteOk

/-- A `get` whose statement succeeds finds the record that was last set, as long as that has not
    expired. -/
def KeepsLast (σ : DbCluster ι V) : DbOp ι V → Prop
  | .get n app id now true => ∀ d ∈ σ.lastSet (σ.key n app id), now < d.expiresAt →
      ∃ d' ∈ σ.read C n app id now true, d'.SameContent d
  | _ => True

def Alone (σ : DbCluster ι V) (n : ι) (k : RowKey) : Prop :=
  ∀ m, m ≠ n → (σ.nodes m).touchCache.lookup (cacheKey k) = none

/-- The session is written through one node at a time: no other node remembers it when it is set,
removed, rotated or swept. -/
def Exclusive (σ : DbCluster ι V) : DbOp ι V → Prop
  | .get _ _ _ _ _ => True
  | .set n app id data updateOk insertOk =>
    let k := σ.key n app id
    σ.Alone n k ∧ unitSeparator ∉ k.2.toList ∧ updateOk = true ∧ insertOk = true ∧
      C.Readable data ∧ data.expiresAt < 2 ^ 63 ∧ ∀ json ∈ C.toJson data,
        (∀ d ∈ σ.lastSet k, ∀ json' ∈ C.toJson d,
          contentHash C d json' = contentHash C data json → d.SameContent data) ∧
        ∀ prevExp ∈ σ.throttle? n k data (contentHash C data json), data.expiresAt ≤ prevExp
  | .remove n app id _ => σ.Alone n (σ.key n app id)
  | .rotate n app oldId newId ok =>
    let old := σ.key n app oldId
    let new := σ.key n app newId
    σ.Alone n old ∧ σ.Alone n new ∧ unitSeparator ∉ old.2.toList ∧
      rotateOk σ.table old new ok = true
  | .takeExpired n now ok deleteOk => ∀ k ∈ σ.claimed now ok deleteOk, σ.Alone n k

def init (appNames : ι → String) : DbCluster ι V := ⟨[], fun n => ⟨appNames n, []⟩, fun _ => none⟩

end DbCluster

end RustCfml.Session
