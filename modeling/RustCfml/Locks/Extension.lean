import RustCfml.Locks.Exclusion
import RustCfml.Locks.Release

/-!
# Extensions and the shared scopes (`cfml-vm/src/foreign.rs`)

A native extension may write a scope that requests share only under the scope's lock, and the test
is whether its name is in `held_locks`. **The mode is not asked**, so a read-only lock is enough; on
the command line, where a lock is reported as taken and leaves no entry, no write is allowed; and
**the name is worked out anew at each call**: a session without an id is locked by the application's
lock, and the first write gives it an id, under which the request has no lock. -/

namespace RustCfml.Locks

open StateMachine List

/-- What a call of an extension comes back with. -/
inductive Status where
  | ok
  | badHandle
  | noScope
  | unlocked
deriving DecidableEq

def sharedScopes : List String := ["application", "session", "server"]

def readOnlyScopes : List String := ["cgi", "url", "form", "cookie"]

def normaliseScope (name : String) : String := .ofList ((trim name.toList).map Char.toLower)

/-- What the locks of a request's scopes are named by. -/
structure ScopeKeys where
  app : String
  session : Option String
  requestId : Nat

def ScopeKeys.scopeLockKeyFor (keys : ScopeKeys) (scope : String) : String :=
  scopeLockKey scope keys.app keys.session keys.requestId

def scopeLabel (scope : String) : String := "[" ++ scope ++ "] scope lock"

/-- The lock that `h_lock` asks for when it is given a scope. -/
def hLockOpts (keys : ScopeKeys) (scope : String) (exclusive : Bool) (timeoutMs : Nat) : LockOpts :=
  let name := normaliseScope scope
  ⟨keys.scopeLockKeyFor name, if exclusive then "exclusive" else "readonly", timeoutMs, true,
    scopeLabel name⟩

/-- Where requests run. The command line has no server state: `acquire_named_lock` only says that it
has the lock, and what is kept here is what it has said so of. -/
inductive Host where
  | server (σ : Server)
  | commandLine (answered : List LockOpts)

abbrev Scopes (V : Type) := String → Option (ValueMap V)

namespace Host

def step : Host → Server.Op → Host
  | server σ, op => server (σ.step op)
  | commandLine answered, .lookup _ opts => commandLine (opts :: answered)
  | commandLine answered, .release _ name => commandLine (answered.eraseP (·.name = name))
  | h, _ => h

def heldLocks : Host → Nat → List Held
  | server σ, i => ((σ.requests[i]?).map Request.held).getD []
  | commandLine _, _ => []

/-- The lock calls that have succeeded and are not undone. -/
def taken : Host → Nat → List LockOpts
  | server σ, i => ((server σ).heldLocks i).map Held.opts
  | commandLine answered, _ => answered

def holdsLock (h : Host) (i : Nat) (name : String) : Bool := (h.heldLocks i).any (·.name = name)

variable {V : Type} (h : Host) (i : Nat) (keys : ScopeKeys)

/-- `writable` -/
def writable (scope : String) : Status :=
  if scope ∈ readOnlyScopes then .noScope
  else if scope ∉ sharedScopes then .ok
  else if h.holdsLock i (keys.scopeLockKeyFor scope) then .ok
  else .unlocked

/-- Whether the call gets as far as the container. A session's container is not handed out, and
`h_scope_delete` has no other way to it. -/
def permitted (scope : String) (deletes : Bool) : Status :=
  match h.writable i keys scope with
  | .ok => if deletes = true ∧ scope = "session" then .noScope else .ok
  | code => code

/-- What `h_scope_set` and `h_scope_delete` share: `edit` is what is done to the container, if the
value's handle names one. -/
def scopeEdit (scope : String) (deletes : Bool) (edit : Option (ValueMap V → ValueMap V))
    (scopes : Scopes V) : Status × Scopes V :=
  let name := normaliseScope scope
  match h.permitted i keys name deletes, edit, scopes name with
  | .ok, none, _ => (.badHandle, scopes)
  | .ok, some _, none => (if name = "session" then .ok else .noScope, scopes)
  | .ok, some edit, some s => (.ok, Function.update scopes name (some (edit s)))
  | code, _, _ => (code, scopes)

def hScopeSet (scope key : String) (value : Option V) : Scopes V → Status × Scopes V :=
  h.scopeEdit i keys scope false (value.map fun v s => s.insert key v)

def hScopeDelete (scope key : String) : Scopes V → Status × Scopes V :=
  h.scopeEdit i keys scope true (some (·.eraseP (eqIgnoreAsciiCase ·.1 key)))

/-- The request has a write guard of the lock that is in the table under this name. -/
def HoldsExclusive (name : String) : Prop :=
  ∃ σ r, h = server σ ∧ σ.requests[i]? = some r ∧
    ∃ g ∈ r.held, ∃ l, g.guard = .write l ∧ (name, l) ∈ σ.namedLocks

def Sound : Host → Prop
  | server σ => σ.Sound
  | commandLine _ => True

variable {h i keys}

lemma writable_shared {scope : String} (hshared : scope ∈ sharedScopes) :
    h.writable i keys scope = .ok ↔ h.holdsLock i (keys.scopeLockKeyFor scope) = true := by
  have hwrite : scope ∉ readOnlyScopes := by
    simp [sharedScopes] at hshared
    rcases hshared with rfl | rfl | rfl <;> simp [readOnlyScopes]
  simp [writable, hwrite, hshared]

lemma writable_of_effect {scope : String} {deletes : Bool}
    {edit : Option (ValueMap V → ValueMap V)} {scopes : Scopes V}
    (heffect : (h.scopeEdit i keys scope deletes edit scopes).2 ≠ scopes) :
    h.writable i keys (normaliseScope scope) = .ok := by
  by_contra hcode
  apply heffect
  unfold scopeEdit permitted
  dsimp only
  generalize h.writable i keys (normaliseScope scope) = code at hcode ⊢
  cases code with
  | ok => exact absurd rfl hcode
  | _ => rfl

lemma mem_heldLocks_server {σ : Server} {e : Held} :
    e ∈ (server σ).heldLocks i ↔ ∃ r, σ.requests[i]? = some r ∧ e ∈ r.held := by
  rw [heldLocks]
  cases σ.requests[i]? with
  | none | some r => simp

lemma holdsLock_of_taken {σ : Server} {opts : LockOpts} (hopts : opts ∈ (server σ).taken i) :
    (server σ).holdsLock i opts.name = true := by
  obtain ⟨e, he, rfl⟩ := mem_map.1 hopts
  exact any_eq_true.2 ⟨e, he, by simp [Held.name]⟩

end Host

/-- The requests with what names their scopes now. -/
structure Machine where
  host : Host
  keys : Nat → ScopeKeys

namespace Machine

inductive Op where
  | locks (op : Server.Op)
  | hLock (i : Nat) (scope : String) (exclusive : Bool) (timeoutMs : Nat)
  /-- The request's application is set, or its session opened or rotated. -/
  | rekey (i : Nat) (keys : ScopeKeys)
  /-- An extension that the request has called sets or deletes a key of the scope; `minted` is the
  id that a session which waits for its first write is given. -/
  | write (i : Nat) (scope : String) (deletes : Bool) (minted : Option String)

def step (m : Machine) : Op → Machine
  | .locks op => { m with host := m.host.step op }
  | .hLock i scope exclusive timeoutMs =>
    { m with host := m.host.step (.lookup i (hLockOpts (m.keys i) scope exclusive timeoutMs)) }
  | .rekey i keys => { m with keys := Function.update m.keys i keys }
  | .write i scope deletes minted =>
    let scope := normaliseScope scope
    if scope = "session" ∧ m.host.permitted i (m.keys i) scope deletes = .ok ∧
        (m.keys i).session = none then
      { m with keys := Function.update m.keys i { m.keys i with session := minted } }
    else m

/-- The name of the scope's lock at this moment. -/
def lockName (m : Machine) (i : Nat) (scope : String) : String :=
  (m.keys i).scopeLockKeyFor (normaliseScope scope)

/-- What a write to a shared scope comes to: it takes effect only under the scope's exclusive lock,
and whoever has taken a lock of that scope exclusively may write. -/
def WriteRight (m : Machine) : Op → Prop
  | .write i scope deletes _ =>
    normaliseScope scope ∈ sharedScopes →
      (∀ (V : Type) (edit : Option (ValueMap V → ValueMap V)) (scopes : Scopes V),
        (m.host.scopeEdit i (m.keys i) scope deletes edit scopes).2 ≠ scopes →
          m.host.HoldsExclusive i (m.lockName i scope)) ∧
      ((∃ opts ∈ m.host.taken i,
          opts.label = scopeLabel (normaliseScope scope) ∧ opts.isExclusive = true) →
        m.host.permitted i (m.keys i) (normaliseScope scope) deletes = .ok)
  | _ => True

/-- No lock is re-entered exclusively that is only read. A write is not made with read-only locks of
the scope alone; and if the request has taken the scope's lock exclusively, it is on the server, the
lock has the name that the scope's lock has now, and no key of the session is deleted. -/
def Meets (m : Machine) : Op → Prop
  | .locks op => ∀ σ, m.host = .server σ → σ.NoUpgrade op
  | .hLock i scope exclusive timeoutMs => ∀ σ, m.host = .server σ →
      σ.NoUpgrade (.lookup i (hLockOpts (m.keys i) scope exclusive timeoutMs))
  | .rekey _ _ => True
  | .write i scope deletes _ =>
    (m.host.holdsLock i (m.lockName i scope) = true →
      ∃ e ∈ m.host.heldLocks i, e.name = m.lockName i scope ∧ e.opts.isExclusive = true) ∧
    ∀ opts ∈ m.host.taken i, opts.label = scopeLabel (normaliseScope scope) →
      opts.isExclusive = true → (∃ σ, m.host = .server σ) ∧ opts.name = m.lockName i scope ∧
        ¬ (deletes = true ∧ normaliseScope scope = "session")

variable {m : Machine}

lemma sound_step {h : Host} (hs : h.Sound) {op : Server.Op}
    (hm : ∀ σ, h = .server σ → σ.NoUpgrade op) : (h.step op).Sound := by
  cases h with
  | server σ => exact Server.Sound.step hs op (hm σ rfl)
  | commandLine answered => cases op <;> trivial

lemma exclusive_of_effect {i : Nat} {scope : String} {deletes : Bool} {minted : Option String}
    {V : Type} {edit : Option (ValueMap V → ValueMap V)} {scopes : Scopes V} (hs : m.host.Sound)
    (hm : m.Meets (.write i scope deletes minted)) (hshared : normaliseScope scope ∈ sharedScopes)
    (heffect : (m.host.scopeEdit i (m.keys i) scope deletes edit scopes).2 ≠ scopes) :
    m.host.HoldsExclusive i (m.lockName i scope) := by
  obtain ⟨e, he, hname, hx⟩ :=
    hm.1 ((Host.writable_shared hshared).1 (Host.writable_of_effect heffect))
  cases hhost : m.host with
  | server σ =>
    rw [hhost] at he hs
    obtain ⟨r, hr, he⟩ := Host.mem_heldLocks_server.1 he
    obtain ⟨g, hg, l, -, hin, hwrite⟩ := Server.Sound.guard_of_held hs (mem_of_getElem? hr) he
    exact ⟨σ, r, rfl, hr, g, hg, l, hwrite hx, hname ▸ hin⟩
  | commandLine answered =>
    rw [hhost] at he
    cases he

lemma writeRight_of_meets (m : Machine) (op : Op) (hs : m.host.Sound) (hm : m.Meets op) :
    m.WriteRight op ∧ (m.step op).host.Sound := by
  cases op with
  | locks op => exact ⟨trivial, sound_step hs hm⟩
  | hLock i scope exclusive timeoutMs => exact ⟨trivial, sound_step hs hm⟩
  | rekey i keys => exact ⟨trivial, hs⟩
  | write i scope deletes minted =>
    refine ⟨fun hshared => ⟨fun V edit scopes => exclusive_of_effect hs hm hshared, ?_⟩, ?_⟩
    · rintro ⟨opts, hopts, hlabel, hx⟩
      obtain ⟨⟨σ, hσ⟩, hname, hdelete⟩ := hm.2 opts hopts hlabel hx
      have hheld : m.host.holdsLock i (m.lockName i scope) = true := by
        rw [hσ] at hopts ⊢
        exact hname ▸ Host.holdsLock_of_taken hopts
      rw [Host.permitted, (Host.writable_shared hshared).2 hheld]
      exact if_neg hdelete
    · dsimp only [step]
      split
      · exact hs
      · exact hs

/-- Every request is one of the application `site`, and its session has no id. -/
def siteKeys : Nat → ScopeKeys := fun _ => ⟨"site", none, 0⟩

def site : Machine := ⟨.server .init, siteKeys⟩

/-- An extension takes the lock of a scope and writes there. -/
def lockAndWrite (scope : String) (exclusive : Bool) : List Op :=
  [.locks .start, .hLock 0 scope exclusive 0, .locks (.acquire 0), .write 0 scope false (some "s")]

end Machine

end RustCfml.Locks
