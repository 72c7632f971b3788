import RustCfml.Lib.Run

/-!
# Named locks

`<cflock>` takes a reader-writer lock out of a table that all requests share. A request keeps the
locks it holds in a list, and **re-entry is decided from that list alone**: a name that is in it is
granted at once, whatever the mode asked for and the mode held, and a placeholder is pushed that
stands for no lock at all. The list and the bodies the request is in are two things: `__cflock_end`
takes an entry out by its name, **whichever body goes on under it**.
-/

namespace RustCfml.Locks

abbrev LockId := Nat

/-- What a lock block asks for. -/
structure LockOpts where
  name : String
  ltype : String
  timeoutMs : Nat
  throwOnTimeout : Bool
  label : String
deriving DecidableEq

def LockOpts.isExclusive (opts : LockOpts) : Bool := opts.ltype != "readonly"

inductive HeldLock where
  | write (lock : LockId)
  | read (lock : LockId)
  | reentrant
deriving DecidableEq

namespace HeldLock

def lock? : HeldLock → Option LockId
  | write l => some l
  | read l => some l
  | reentrant => none

def isWrite : HeldLock → Bool
  | write _ => true
  | _ => false

def isRead : HeldLock → Bool
  | read _ => true
  | _ => false

end HeldLock

/-- An entry of `held_locks`, with the block it was made for. -/
structure Held where
  opts : LockOpts
  guard : HeldLock

def Held.name (h : Held) : String := h.opts.name

structure Request where
  held : List Held
  waiting : Option (LockOpts × LockId)
  /-- The lock blocks in whose bodies the request is, the innermost first. -/
  bodies : List LockOpts

namespace Request

def init : Request := ⟨[], none, []⟩

def arcs (l : LockId) (r : Request) : Nat :=
  r.held.countP (fun h => h.guard.lock? = some l) + if r.waiting.map Prod.snd = some l then 1 else 0

def guards (l : LockId) (r : Request) : Nat := r.held.countP fun h => h.guard.lock? = some l

def writeGuards (l : LockId) (r : Request) : Nat := r.held.countP fun h => h.guard = .write l

def entriesOf (name : String) (r : Request) : List Held := r.held.filter (·.name = name)

/-- `__cflock_end` with the block's name: the newest entry of that name goes. -/
def release (name : String) (r : Request) : Request :=
  { r with held := r.held.eraseP (·.name = name) }

def inBody (name : String) (r : Request) : Bool := r.bodies.any (·.name = name)

end Request

structure Server where
  namedLocks : List (String × LockId)
  requests : List Request
  allocated : Nat

namespace Server

def namedLockCap : Nat := 1024

def init : Server := ⟨[], [], 0⟩

def strongCount (σ : Server) (l : LockId) : Nat :=
  σ.namedLocks.countP (fun e => e.2 = l) + (σ.requests.map (Request.arcs l)).sum

def contains (σ : Server) (name : String) : Bool := σ.namedLocks.any (·.1 = name)

/-- `evict_idle_named_locks`: in a full table the locks that nobody has a handle of are dropped. -/
def evictIdleNamedLocks (σ : Server) (newName : String) : Server :=
  if namedLockCap ≤ σ.namedLocks.length ∧ σ.contains newName = false then
    { σ with namedLocks := σ.namedLocks.filter fun e => 1 < σ.strongCount e.2 }
  else σ

def getOrCreate (σ : Server) (name : String) : Server × LockId :=
  match σ.namedLocks.lookup name with
  | some l => (σ, l)
  | none =>
    ({ σ with
        namedLocks := (name, σ.allocated) :: σ.namedLocks
        allocated := σ.allocated + 1 }, σ.allocated)

def setRequest (σ : Server) (i : Nat) (r : Request) : Server :=
  { σ with requests := σ.requests.set i r }

/-- Whether the lock itself lets one more in. -/
def grants (σ : Server) (l : LockId) (exclusive : Bool) : Bool :=
  if exclusive then (σ.requests.map (Request.guards l)).sum = 0
  else (σ.requests.map (Request.writeGuards l)).sum = 0

/-- The first half of `acquire_named_lock`. -/
def lookup (σ : Server) (i : Nat) (r : Request) (opts : LockOpts) : Server :=
  if r.held.any (·.name = opts.name) then
    σ.setRequest i { r with held := ⟨opts, .reentrant⟩ :: r.held, bodies := opts :: r.bodies }
  else
    let found := (σ.evictIdleNamedLocks opts.name).getOrCreate opts.name
    found.1.setRequest i { r with waiting := some (opts, found.2) }

/-- The second half: the request is parked until the lock lets it in. -/
def acquire (σ : Server) (i : Nat) (r : Request) (opts : LockOpts) (l : LockId) : Server :=
  if σ.grants l opts.isExclusive then
    let guard := if opts.isExclusive then HeldLock.write l else .read l
    σ.setRequest i ⟨⟨opts, guard⟩ :: r.held, none, opts :: r.bodies⟩
  else σ

inductive Op where
  | start
  /-- `__cflock_start` -/
  | lookup (i : Nat) (opts : LockOpts)
  | acquire (i : Nat)
  /-- The time is up: an error or `false`, and the body is not entered. -/
  | timeout (i : Nat)
  /-- The innermost body is left, however. -/
  | leave (i : Nat)
  /-- `__cflock_end` -/
  | release (i : Nat) (name : String)
  /-- The request is over and drops what it still has. -/
  | finish (i : Nat)

/-- A request that is parked does nothing but wait. -/
def step (σ : Server) : Op → Server
  | .start => { σ with requests := σ.requests ++ [.init] }
  | .lookup i opts =>
    match σ.requests[i]? with
    | some r => if r.waiting.isNone then σ.lookup i r opts else σ
    | none => σ
  | .acquire i =>
    match σ.requests[i]? with
    | some ⟨held, some (opts, l), bodies⟩ => σ.acquire i ⟨held, some (opts, l), bodies⟩ opts l
    | _ => σ
  | .timeout i =>
    match σ.requests[i]? with
    | some ⟨held, some (opts, _), bodies⟩ =>
      if 0 < opts.timeoutMs then σ.setRequest i ⟨held, none, bodies⟩ else σ
    | _ => σ
  | .leave i =>
    match σ.requests[i]? with
    | some r =>
      if r.waiting.isNone then σ.setRequest i { r with bodies := r.bodies.tail } else σ
    | none => σ
  | .release i name =>
    match σ.requests[i]? with
    | some r => if r.waiting.isNone then σ.setRequest i (r.release name) else σ
    | none => σ
  | .finish i =>
    match σ.requests[i]? with
    | some r => if r.waiting.isNone then σ.setRequest i .init else σ
    | none => σ

/-- While one request is in the body of an exclusive lock, no other is in the body of a lock of
    that name. -/
def Exclusion (σ : Server) : Prop :=
  σ.requests.Pairwise fun r r' => ∀ b ∈ r.bodies, ∀ b' ∈ r'.bodies, b.name = b'.name →
    b.isExclusive = false ∧ b'.isExclusive = false

instance (σ : Server) : Decidable σ.Exclusion := by
  unfold Exclusion
  infer_instance

/-- A request does not re-enter a lock exclusively that it only reads. -/
def NoUpgrade (σ : Server) : Op → Prop
  | .lookup i opts => opts.isExclusive = true → ∀ r ∈ σ.requests[i]?,
      ∀ h ∈ r.held, h.name = opts.name → h.guard.isRead = false
  | _ => True

instance (σ : Server) (op : Op) : Decidable (σ.NoUpgrade op) :=
  match op with
  | .lookup i opts => inferInstanceAs (Decidable (opts.isExclusive = true → ∀ r ∈ σ.requests[i]?,
      ∀ h ∈ r.held, h.name = opts.name → h.guard.isRead = false))
  | .start | .acquire _ | .timeout _ | .leave _ | .release _ _ | .finish _ => isTrue trivial

/-- A request does not release its last entry of a name while it is in a body of that name. -/
def KeepsGuard (σ : Server) : Op → Prop
  | .release i name => ∀ r ∈ σ.requests[i]?,
      r.inBody name = true → (r.entriesOf name).tail.isEmpty = false
  | _ => True

instance (σ : Server) (op : Op) : Decidable (σ.KeepsGuard op) :=
  match op with
  | .release i name => inferInstanceAs (Decidable (∀ r ∈ σ.requests[i]?,
      r.inBody name = true → (r.entriesOf name).tail.isEmpty = false))
  | .start | .lookup _ _ | .acquire _ | .timeout _ | .leave _ | .finish _ => isTrue trivial

/-- Nothing is upgraded, and no body goes on without its lock. -/
def Guarded (σ : Server) (op : Op) : Prop := σ.NoUpgrade op ∧ σ.KeepsGuard op

end Server

end RustCfml.Locks
