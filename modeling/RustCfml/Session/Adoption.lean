import RustCfml.Lib.Run
import RustCfml.Session.MemoryStore

/-!
# Which session id a request gets

A browser sends one cookie to every application on a host, and it can send anything. Where the
application has no session under it, the id is still **kept where another application holds it** and
dropped otherwise, which stops an attacker from choosing the id a victim will log in under. **The
eager path mints a fresh id whatever was kept**; and the question is only asked on the way through
`Application.cfc`: a `<cfapplication>` tag, or a login without session management, **takes the id as
it comes**.
-/

namespace RustCfml.Session

open Lowercase StateMachine List Option

/-- How a request comes by its session: through `Application.cfc` with session management on,
through a `<cfapplication>` tag with it on, or not at all. -/
inductive Mode where
  | component
  | tag
  | off
deriving DecidableEq

structure AppConfig where
  name : String
  sessionTimeout : Nat
  lazySessionCreation : Bool
  mode : Mode

/-- `Uuid::new_v4().to_string()`: some text of hex digits and dashes. -/
structure MintedId where
  text : String
  noSeparator : unitSeparator ∉ text.toList
  nonempty : text ≠ ""

/-- The session fields of the virtual machine that runs the request, the store it shares with the
others, and, for the record, every id minted so far. -/
structure RequestState where
  store : MemoryStore
  minted : List String
  app : AppConfig
  sessionId : Option String
  recordCreated : Bool
  lazyPending : Bool

variable (T : CaseTables)

namespace RequestState

/-- An empty id is none. -/
def sessionKey (r : RequestState) : Option String :=
  match r.sessionId with
  | some sid => if sid.isEmpty then none else some sid
  | none => none

def sessionRecord (r : RequestState) (now : Nat) : Option SessionData × RequestState :=
  match r.sessionKey with
  | some sid =>
    let (found, store) := r.store.get T now r.app.name sid
    (found, { r with store })
  | none => (none, r)

def storeSessionRecord (r : RequestState) (data : SessionData) : RequestState :=
  match r.sessionKey with
  | some sid => { r with store := r.store.set T r.app.name sid data }
  | none => r

def freshRecord (r : RequestState) (now timeout : Nat) : SessionData :=
  ⟨now, now, timeout, none, [], r.app.name⟩

def mint (r : RequestState) (id : MintedId) : RequestState :=
  { r with sessionId := some id.text, minted := id.text :: r.minted }

/-- The session is created at once, or at the first write. -/
def createOrDefer (r : RequestState) (now : Nat) (id : MintedId) : RequestState :=
  if r.app.lazySessionCreation then { r with lazyPending := true }
  else
    let r₁ := r.mint id
    { r₁.storeSessionRecord T (r₁.freshRecord now r.app.sessionTimeout) with recordCreated := true }

def lifecycle (r : RequestState) (now : Nat) (id : MintedId) : RequestState :=
  let sid := r.sessionId.getD ""
  let (existing, r₁) := if sid.isEmpty then (none, r) else r.sessionRecord T now
  match existing with
  | some session =>
    r₁.storeSessionRecord T
      { session with lastAccessedSecs := now, timeoutSecs := r.app.sessionTimeout }
  | none =>
    let issued := !sid.isEmpty && r₁.store.idIssued now sid
    let r₂ := if !sid.isEmpty && !issued then { r₁ with sessionId := none } else r₁
    r₂.createOrDefer T now id

/-- The session part of `apply_cfapplication_settings`. -/
def applyCfapplicationSettings (r : RequestState) (now : Nat) : RequestState :=
  let sid := r.sessionId.getD ""
  match if sid.isEmpty then (none, r) else r.sessionRecord T now with
  | (some session, r₁) =>
    r₁.storeSessionRecord T
      { session with lastAccessedSecs := now, timeoutSecs := r.app.sessionTimeout }
  | (none, r₁) => { r₁ with lazyPending := true }

def lazyInitSessionIfPending (r : RequestState) (now : Nat) (id : MintedId) : RequestState :=
  if !r.lazyPending then r
  else
    let r₁ := if (r.sessionId.getD "").isEmpty then r.mint id else r
    { r₁.storeSessionRecord T (r₁.freshRecord now r.app.sessionTimeout) with
      recordCreated := true
      lazyPending := false }

def syncSessionScopeToStore (r : RequestState) (now : Nat) (snapEmpty : Bool) : RequestState :=
  match r.sessionRecord T now with
  | (some rec, r₁) => r₁.storeSessionRecord T { rec with lastAccessedSecs := now }
  | (none, r₁) =>
    if snapEmpty then r₁ else r₁.storeSessionRecord T (r₁.freshRecord now r.app.sessionTimeout)

end RequestState

/-- What a request's code does to its session. -/
inductive Action where
  | write
  | login (user : String) (roles : List String)
  | logout
  | invalidate
  | rotate (snapEmpty : Bool)
  | sync (snapEmpty : Bool)

namespace Action

def apply (r : RequestState) (now : Nat) (id : MintedId) : Action → RequestState
  | write => r.lazyInitSessionIfPending T now id
  | login user roles =>
    let r₁ := r.lazyInitSessionIfPending T now id
    let (found, r₂) := r₁.sessionRecord T now
    r₂.storeSessionRecord T
      { found.getD (r₂.freshRecord now 1800) with authUser := some user, authRoles := roles }
  | logout =>
    match r.sessionRecord T now with
    | (some rec, r₁) => r₁.storeSessionRecord T { rec with authUser := none, authRoles := [] }
    | (none, r₁) => r₁
  | invalidate =>
    match r.sessionId with
    | some sid => { r with store := r.store.remove T r.app.name sid }
    | none => r
  | rotate snapEmpty =>
    let r₁ := r.syncSessionScopeToStore T now snapEmpty
    match r₁.sessionId with
    | some old =>
      { r₁.mint id with store := r₁.store.rotate T r₁.app.name old id.text }
    | none => r₁
  | sync snapEmpty => r.syncSessionScopeToStore T now snapEmpty

end Action

/-- A request: the application it reaches, its cookie, when it comes, the id it would be given, and
what its code does, each at a time and with an id to mint if need be. -/
structure Request where
  app : AppConfig
  cookie : Option String
  now : Nat
  id : MintedId
  body : List (Nat × MintedId × Action)

structure Server where
  store : MemoryStore
  minted : List String

namespace Request

def arrival (r : Request) (s : Server) : RequestState :=
  ⟨s.store, s.minted, r.app, r.cookie, false, false⟩

def start (r : Request) (s : Server) : RequestState :=
  match r.app.mode with
  | .component => (r.arrival s).lifecycle T r.now r.id
  | .tag => (r.arrival s).applyCfapplicationSettings T r.now
  | .off => r.arrival s

def after (r : Request) (s : Server) (n : Nat) : RequestState :=
  (r.body.take n).foldl (fun st a => a.2.2.apply T st a.1 a.2.1) (r.start T s)

end Request

/-- Requests one after the other, and the sweeps of the reaper. -/
inductive Event where
  | request (r : Request)
  | reap (now : Nat)

def Server.step (s : Server) : Event → Server
  | .request r =>
    let st := r.after T s r.body.length
    ⟨st.store, st.minted⟩
  | .reap now => { s with store := (s.store.takeExpired now).2 }

def Server.empty : Server := ⟨∅, []⟩

def Server.Issued (s : Server) (now : Nat) (id : String) : Prop :=
  id ∈ s.minted ∧ ∃ app, s.store.Holds T now app id

/-- At every point the request's id is one it was given itself, or the one it presented and then one
the server had issued. -/
def Request.AdoptsOnlyIssued (r : Request) (s : Server) : Prop :=
  ∀ n, ∃ new, (r.after T s n).minted = new ++ s.minted ∧
    ∀ id, (r.after T s n).sessionId = some id → id ≠ "" →
      id ∈ new ∨ (r.cookie = some id ∧ s.Issued T r.now id)

/-- An id that another application holds is the id of this application's session, created at once or
at the first write, if it has sessions. -/
def Request.KeepsSharedId (r : Request) (s : Server) : Prop :=
  r.app.mode ≠ .off → ∀ id, r.cookie = some id → id ≠ "" → ¬s.store.Holds T r.now r.app.name id →
    (∃ app, s.store.Holds T r.now app id) → ∀ now' id',
      let st := (r.start T s).lazyInitSessionIfPending T now' id'
      st.sessionId = some id ∧ (st.store.lookup (compositeKey T r.app.name id)).isSome = true

def Event.Proper (s : Server) : Event → Prop
  | .request r => r.AdoptsOnlyIssued T s ∧ r.KeepsSharedId T s
  | .reap _ => True

/-- The sessions of an `Application.cfc` are created lazily, or the request does not present an id
that only other applications hold; without one, an id that is presented is one that the server
issued. -/
def Request.Vetted (r : Request) (s : Server) : Prop :=
  match r.app.mode with
  | .component => r.app.lazySessionCreation = true ∨
      ∀ id ∈ r.cookie, s.store.Holds T r.now r.app.name id ∨ s.store.idIssued r.now id = false
  | .tag | .off => ∀ id ∈ r.cookie, id = "" ∨ s.store.idIssued r.now id = true

/-- The application's name has no separator, and the request's id is vetted. -/
def Event.Unambiguous (s : Server) : Event → Prop
  | .request r => unitSeparator ∉ toLowercase T r.app.name.toList ∧ r.Vetted T s
  | .reap _ => True

/-! ## The keys of the store -/

/-- Every record is filed under an id the server minted, by an application whose name has no
separator. -/
structure Server.Keyed (s : Server) : Prop where
  keys : ∀ k ∈ s.store, ∃ app id, k = compositeKey T app id ∧
    unitSeparator ∉ toLowercase T app.toList ∧ id ∈ s.minted
  ids : ∀ id ∈ s.minted, unitSeparator ∉ id.toList

variable {T}

lemma Server.keyed_empty : Server.empty.Keyed T where
  keys := fun _ h => absurd h (AList.notMem_empty _)
  ids := fun _ h => nomatch h

variable {now : Nat} {id app : String} {s : Server}

lemma mem_of_holds {m : MemoryStore} (h : m.Holds T now app id) : compositeKey T app id ∈ m := by
  obtain ⟨s, hlookup, _⟩ := h
  exact AList.lookup_isSome.1 (isSome_iff_exists.2 ⟨s, hlookup⟩)

lemma Server.Keyed.minted_of_holds (h : s.Keyed T) (hholds : s.store.Holds T now app id) :
    id ∈ s.minted := by
  obtain ⟨app', id', hkey, happ', hid'⟩ := h.keys _ (mem_of_holds hholds)
  -- read from the back: what stands behind the separator of a filed key has none itself
  have hid : unitSeparator ∉ id.toList := by
    intro hmem
    have hcount := congrArg (count unitSeparator) hkey
    rw [compositeKey, compositeKey, count_append, count_append, count_cons_self,
      count_cons_self, count_eq_zero.2 happ', count_eq_zero.2 (h.ids id' hid')] at hcount
    have hpos := count_pos_iff.2 hmem
    omega
  have hback := congrArg idFromKey hkey
  rw [idFromKey_compositeKey T app hid, idFromKey_compositeKey T app' (h.ids id' hid')] at hback
  exact String.toList_injective hback ▸ hid'

lemma Server.Keyed.idIssued_iff (h : s.Keyed T) :
    s.store.idIssued now id = true ↔ ∃ app, s.store.Holds T now app id := by
  rw [MemoryStore.idIssued_iff_mem]
  constructor
  · rintro ⟨k, r, hlookup, hid, hlive⟩
    have hk : k ∈ s.store := AList.lookup_isSome.1 (isSome_iff_exists.2 ⟨r, hlookup⟩)
    obtain ⟨app, id', rfl, _, hid'⟩ := h.keys k hk
    rw [idFromKey_compositeKey T app (h.ids id' hid')] at hid
    exact ⟨app, r, String.toList_injective hid ▸ hlookup, hlive⟩
  · rintro ⟨app, r, hlookup, hlive⟩
    have hid := h.ids id (h.minted_of_holds ⟨r, hlookup, hlive⟩)
    exact ⟨_, r, hlookup, idFromKey_compositeKey T app hid, hlive⟩

open RequestState

def RequestState.server (st : RequestState) : Server := ⟨st.store, st.minted⟩

structure Tracked (T : CaseTables) (r : Request) (s : Server) (st : RequestState) : Prop where
  keyed : st.server.Keyed T
  app : st.app = r.app
  adopted : ∃ new, st.minted = new ++ s.minted ∧ ∀ id, st.sessionId = some id → id ≠ "" →
    id ∈ new ∨ (r.cookie = some id ∧ s.Issued T r.now id)

lemma RequestState.sessionId_of_sessionKey {st : RequestState} {sid : String}
    (h : st.sessionKey = some sid) : st.sessionId = some sid ∧ sid ≠ "" := by
  rw [sessionKey] at h
  split at h
  · next hsid =>
    split at h
    · cases h
    · next hne =>
      cases h
      exact ⟨hsid, fun hempty => hne (by rw [hempty]; rfl)⟩
  · cases h

namespace Tracked

variable {r : Request} {s : Server} {st : RequestState}

lemma minted_sessionKey (h : Tracked T r s st) {sid : String} (hkey : st.sessionKey = some sid) :
    sid ∈ st.minted := by
  obtain ⟨hsid, hne⟩ := sessionId_of_sessionKey hkey
  obtain ⟨new, hminted, hadopted⟩ := h.adopted
  rw [hminted, mem_append]
  exact (hadopted sid hsid hne).imp_right fun hissued => hissued.2.1

lemma sessionRecord (h : Tracked T r s st) (now : Nat) :
    Tracked T r s (st.sessionRecord T now).2 := by
  rw [RequestState.sessionRecord]
  split
  · exact ⟨⟨fun k hk => h.keyed.keys k (MemoryStore.mem_keys_get hk), h.keyed.ids⟩, h.app,
      h.adopted⟩
  · exact h

lemma storeSessionRecord (h : Tracked T r s st)
    (hname : unitSeparator ∉ toLowercase T r.app.name.toList)
    (data : SessionData) : Tracked T r s (st.storeSessionRecord T data) := by
  rw [RequestState.storeSessionRecord]
  split
  · next sid hkey =>
    refine ⟨⟨fun k hk => ?_, h.keyed.ids⟩, h.app, h.adopted⟩
    rcases MemoryStore.mem_keys_set hk with rfl | hk
    · exact ⟨st.app.name, sid, rfl, h.app ▸ hname, h.minted_sessionKey hkey⟩
    · exact h.keyed.keys k hk
  · exact h

lemma mint (h : Tracked T r s st) (id : MintedId) : Tracked T r s (st.mint id) := by
  obtain ⟨new, hminted, -⟩ := h.adopted
  refine ⟨⟨fun k hk => ?_, fun id' hid' => ?_⟩, h.app, id.text :: new, congrArg _ hminted,
    fun id' hid' _ => ?_⟩
  · obtain ⟨app, id', hkey, happ, hid'⟩ := h.keyed.keys k hk
    exact ⟨app, id', hkey, happ, mem_cons_of_mem _ hid'⟩
  · rcases mem_cons.1 hid' with rfl | hid'
    · exact id.noSeparator
    · exact h.keyed.ids id' hid'
  · cases hid'
    exact .inl mem_cons_self

section

variable (h : Tracked T r s st) (hname : unitSeparator ∉ toLowercase T r.app.name.toList)
    (now : Nat)
include h hname

lemma lazyInit (id : MintedId) : Tracked T r s (st.lazyInitSessionIfPending T now id) := by
  rw [lazyInitSessionIfPending]
  split
  · exact h
  · have hmint : Tracked T r s (if (st.sessionId.getD "").isEmpty then st.mint id else st) := by
      split
      · exact h.mint id
      · exact h
    have hstore := hmint.storeSessionRecord hname
      ((if (st.sessionId.getD "").isEmpty then st.mint id else st).freshRecord now
        st.app.sessionTimeout)
    exact ⟨hstore.keyed, hstore.app, hstore.adopted⟩

lemma sync (snapEmpty : Bool) : Tracked T r s (st.syncSessionScopeToStore T now snapEmpty) := by
  have hread := h.sessionRecord now
  rw [syncSessionScopeToStore]
  split
  · next rec r₁ hr1 =>
    rw [hr1] at hread
    exact hread.storeSessionRecord hname _
  · next r₁ hr1 =>
    rw [hr1] at hread
    split
    · exact hread
    · exact hread.storeSessionRecord hname _

lemma apply (id : MintedId) (a : Action) : Tracked T r s (a.apply T st now id) := by
  cases a with
  | write => exact h.lazyInit hname now id
  | login user roles =>
    exact ((h.lazyInit hname now id).sessionRecord now).storeSessionRecord hname _
  | logout =>
    have hread := h.sessionRecord now
    rw [Action.apply]
    split
    · next rec r₁ hr1 =>
      rw [hr1] at hread
      exact hread.storeSessionRecord hname _
    · next r₁ hr1 =>
      rw [hr1] at hread
      exact hread
  | invalidate =>
    rw [Action.apply]
    split
    · exact ⟨⟨fun k hk => h.keyed.keys k ((AList.mem_erase).1 hk).2, h.keyed.ids⟩, h.app, h.adopted⟩
    · exact h
  | rotate snapEmpty =>
    have hsync := h.sync hname now snapEmpty
    rw [Action.apply]
    dsimp only
    split
    · next old hold =>
      have hmint := hsync.mint id
      refine ⟨⟨fun k hk => ?_, hmint.keyed.ids⟩, hmint.app, hmint.adopted⟩
      rcases MemoryStore.mem_keys_rotate hk with rfl | hk
      · exact ⟨_, id.text, rfl, hsync.app ▸ hname, mem_cons_self⟩
      · exact hmint.keyed.keys k hk
    · exact hsync
  | sync snapEmpty => exact h.sync hname now snapEmpty

end

end Tracked

namespace Request

variable {r : Request} {s : Server}

lemma lifecycle_of_empty (h : (r.cookie.getD "").isEmpty = true) :
    (r.arrival s).lifecycle T r.now r.id = (r.arrival s).createOrDefer T r.now r.id := by
  simp [lifecycle, arrival, h]

variable {id : String}

section

variable (hcookie : r.cookie = some id) (hid : id.isEmpty = false)
include hcookie hid

lemma sessionRecord_arrival :
    (r.arrival s).sessionRecord T r.now = ((s.store.get T r.now r.app.name id).1,
        { r.arrival s with store := (s.store.get T r.now r.app.name id).2 }) := by
  have hkey : (r.arrival s).sessionKey = some id := by simp [sessionKey, arrival, hcookie, hid]
  rw [sessionRecord, hkey]
  rfl

lemma lifecycle_of_get {found : SessionData}
    (hget : (s.store.get T r.now r.app.name id).1 = some found) :
    (r.arrival s).lifecycle T r.now r.id =
    ((r.arrival s).sessionRecord T r.now).2.storeSessionRecord T
      { found with lastAccessedSecs := r.now, timeoutSecs := r.app.sessionTimeout } := by
  have hrecord := r.sessionRecord_arrival (T := T) (s := s) hcookie hid
  have hsid : (r.arrival s).sessionId = some id := hcookie
  simp only [lifecycle, hsid, getD_some, hid, Bool.false_eq_true, if_false]
  rw [hrecord, hget]
  rfl

lemma lifecycle_of_miss (hget : (s.store.get T r.now r.app.name id).1 = none) :
    (r.arrival s).lifecycle T r.now r.id =
      (if s.store.idIssued r.now id then ((r.arrival s).sessionRecord T r.now).2
        else { ((r.arrival s).sessionRecord T r.now).2 with sessionId := none }).createOrDefer T
        r.now r.id := by
  have hrecord := r.sessionRecord_arrival (T := T) (s := s) hcookie hid
  have hissued := MemoryStore.idIssued_get T s.store r.now r.app.name id id
  have hsid : (r.arrival s).sessionId = some id := hcookie
  simp only [lifecycle, hsid, getD_some, hid, Bool.false_eq_true, if_false]
  rw [hrecord]
  simp [hget, hissued]
  cases s.store.idIssued r.now id <;> rfl

end

lemma tracked_arrival (hkeyed : s.Keyed T)
    (hissued : ∀ id, r.cookie = some id → id ≠ "" → s.Issued T r.now id) :
    Tracked T r s (r.arrival s) :=
  ⟨hkeyed, rfl, [], rfl, fun id hid hne => .inr ⟨hid, hissued id hid hne⟩⟩

lemma tracked_createOrDefer {st : RequestState} (h : Tracked T r s st)
    (hname : unitSeparator ∉ toLowercase T r.app.name.toList) (now : Nat) (id : MintedId) :
    Tracked T r s (st.createOrDefer T now id) := by
  rw [createOrDefer]
  split
  · exact ⟨h.keyed, h.app, h.adopted⟩
  · have hstore :=
      (h.mint id).storeSessionRecord hname ((st.mint id).freshRecord now st.app.sessionTimeout)
    exact ⟨hstore.keyed, hstore.app, hstore.adopted⟩

lemma isEmpty_eq_false (h : id ≠ "") : id.isEmpty = false := by
  rw [← Bool.not_eq_true, String.isEmpty_iff]
  exact h

section

variable (hkeyed : s.Keyed T) (hname : unitSeparator ∉ toLowercase T r.app.name.toList)
include hkeyed hname

lemma tracked_lifecycle : Tracked T r s ((r.arrival s).lifecycle T r.now r.id) := by
  cases hempty : (r.cookie.getD "").isEmpty with
  | true =>
    rw [lifecycle_of_empty hempty]
    refine tracked_createOrDefer (tracked_arrival hkeyed fun id hid hne => ?_) hname _ _
    rw [hid, getD_some, isEmpty_eq_false hne] at hempty
    cases hempty
  | false =>
    obtain ⟨id, hcookie⟩ : ∃ id, r.cookie = some id := by
      cases hc : r.cookie with
      | none => rw [hc] at hempty; cases hempty
      | some id => exact ⟨id, rfl⟩
    have hid : id.isEmpty = false := by rwa [hcookie, getD_some] at hempty
    cases hget : (s.store.get T r.now r.app.name id).1 with
    | some found =>
      -- the application's own record: filed under a minted id
      have hholds : s.store.Holds T r.now r.app.name id := ⟨found, MemoryStore.get_eq_some hget⟩
      rw [lifecycle_of_get hcookie hid hget]
      refine ((tracked_arrival hkeyed fun id' hid' _ => ?_).sessionRecord _).storeSessionRecord
        hname _
      rw [hcookie] at hid'
      cases hid'
      exact ⟨hkeyed.minted_of_holds hholds, _, hholds⟩
    | none =>
      rw [lifecycle_of_miss hcookie hid hget]
      refine tracked_createOrDefer ?_ hname _ _
      split
      · next hissued =>
        obtain ⟨app, hholds⟩ := hkeyed.idIssued_iff.1 hissued
        refine (tracked_arrival hkeyed fun id' hid' _ => ?_).sessionRecord _
        rw [hcookie] at hid'
        cases hid'
        exact ⟨hkeyed.minted_of_holds hholds, app, hholds⟩
      · -- dropped: the request goes on without an id
        rw [sessionRecord_arrival hcookie hid]
        exact ⟨⟨fun k hk => hkeyed.keys k (MemoryStore.mem_keys_get hk), hkeyed.ids⟩, rfl, [], rfl,
          fun _ h => nomatch h⟩

omit hname in
/-- An id that was issued may be taken as it comes. -/
lemma tracked_arrival_of_issued
    (hcookie : ∀ id ∈ r.cookie, id = "" ∨ s.store.idIssued r.now id = true) :
    Tracked T r s (r.arrival s) := by
  refine tracked_arrival hkeyed fun id hid hne => ?_
  obtain ⟨app, hholds⟩ := hkeyed.idIssued_iff.1 ((hcookie id hid).resolve_left hne)
  exact ⟨hkeyed.minted_of_holds hholds, app, hholds⟩

omit hkeyed in
lemma tracked_applyCfapplicationSettings {st : RequestState} (h : Tracked T r s st) (now : Nat) :
    Tracked T r s (st.applyCfapplicationSettings T now) := by
  have hread : Tracked T r s (if (st.sessionId.getD "").isEmpty then (none, st)
      else st.sessionRecord T now).2 := by
    split
    · exact h
    · exact h.sessionRecord now
  rw [applyCfapplicationSettings]
  split
  · next session r₁ hr =>
    rw [hr] at hread
    exact hread.storeSessionRecord hname _
  · next r₁ hr =>
    rw [hr] at hread
    exact ⟨hread.keyed, hread.app, hread.adopted⟩

lemma tracked_start (hvetted : r.Vetted T s) : Tracked T r s (r.start T s) := by
  unfold Vetted at hvetted
  unfold start
  split at hvetted
  · exact tracked_lifecycle hkeyed hname
  · exact tracked_applyCfapplicationSettings hname (tracked_arrival_of_issued hkeyed hvetted) _
  · exact tracked_arrival_of_issued hkeyed hvetted

lemma tracked_after (hvetted : r.Vetted T s) (n : Nat) : Tracked T r s (r.after T s n) := by
  have hfold : ∀ (body : List (Nat × MintedId × Action)) (st : RequestState), Tracked T r s st →
      Tracked T r s (body.foldl (fun st a => a.2.2.apply T st a.1 a.2.1) st) := by
    intro body
    induction body with
    | nil => exact fun _ h => h
    | cons a body ih => exact fun st h => ih _ (h.apply hname a.1 a.2.1 a.2.2)
  exact hfold _ _ (tracked_start hkeyed hname hvetted)

end

/-- Where the id is kept, creation of the session is pending. -/
lemma start_of_shared (hkeyed : s.Keyed T) (hvetted : r.Vetted T s) (hmode : r.app.mode ≠ .off)
    (hcookie : r.cookie = some id) (hne : id ≠ "") (hown : ¬s.store.Holds T r.now r.app.name id)
    (hother : ∃ app, s.store.Holds T r.now app id) :
    r.start T s = { r.arrival s with
      store := (s.store.get T r.now r.app.name id).2, lazyPending := true } := by
  have hid := isEmpty_eq_false hne
  have hissued : s.store.idIssued r.now id = true := hkeyed.idIssued_iff.2 hother
  have hget : (s.store.get T r.now r.app.name id).1 = none := by
    rw [← not_isSome_iff_eq_none, MemoryStore.get_isSome_iff]
    exact hown
  have hrecord := r.sessionRecord_arrival (T := T) (s := s) hcookie hid
  unfold Vetted at hvetted
  unfold start
  split at hvetted
  · have hlazy : r.app.lazySessionCreation = true := by
      rcases hvetted with hlazy | hheld
      · exact hlazy
      · rcases hheld id hcookie with hholds | hnot
        · exact absurd hholds hown
        · rw [hissued] at hnot
          cases hnot
    rw [lifecycle_of_miss hcookie hid hget, if_pos hissued, hrecord, createOrDefer]
    exact if_pos hlazy
  · have hsid : (r.arrival s).sessionId = some id := hcookie
    simp only [applyCfapplicationSettings, hsid, getD_some, hid, Bool.false_eq_true, if_false]
    rw [hrecord, hget]
    exact congrArg (fun kept => { r.arrival s with
      store := (s.store.get T r.now r.app.name id).2, sessionId := kept, lazyPending := true }) hsid
  · next hoff => exact absurd hoff hmode

lemma keepsSharedId_of_vetted (hkeyed : s.Keyed T) (hvetted : r.Vetted T s) :
    r.KeepsSharedId T s := by
  intro hmode id hcookie hne hown hother now' id'
  have hid := isEmpty_eq_false hne
  have hkept : ((r.arrival s).sessionId.getD "").isEmpty = false := by
    rw [show (r.arrival s).sessionId = some id from hcookie]
    exact hid
  have hkey : ∀ (store : MemoryStore) (pending : Bool),
      ({ r.arrival s with store := store, lazyPending := pending } : RequestState).sessionKey =
        some id := by
    intro store pending
    simp [sessionKey, arrival, hcookie, hid]
  simp only [start_of_shared hkeyed hvetted hmode hcookie hne hown hother,
    lazyInitSessionIfPending, hkept, Bool.not_true, Bool.false_eq_true, if_false,
    storeSessionRecord, hkey]
  refine ⟨hcookie, ?_⟩
  rw [MemoryStore.set, show (r.arrival s).app.name = r.app.name from rfl, AList.lookup_insert]
  rfl

end Request

/-- **In every run of the server** in which each request is unambiguous, each request adopts only
ids the server issued and keeps an id that another application holds. -/
theorem Server.proper_of_unambiguous (events : List Event)
    (h : EachStep (Server.step T) (Event.Unambiguous T) Server.empty events) :
    EachStep (Server.step T) (Event.Proper T) Server.empty events := by
  refine eachStep_of_invariant (I := Server.Keyed T)
    (fun s e hkeyed hclear => ?_) Server.keyed_empty h
  cases e with
  | request r =>
    obtain ⟨hname, hvetted⟩ := hclear
    have htracked := fun n => Request.tracked_after (r := r) hkeyed hname hvetted n
    exact ⟨⟨fun n => (htracked n).adopted, Request.keepsSharedId_of_vetted hkeyed hvetted⟩,
      (htracked r.body.length).keyed⟩
  | reap now =>
    exact ⟨trivial, fun k hk => hkeyed.keys k (MemoryStore.mem_keys_takeExpired hk), hkeyed.ids⟩

def asciiOnly : CaseTables := .asciiLetters

def idOne : MintedId := ⟨"1f2e", by decide, by decide⟩

def idTwo : MintedId := ⟨"9c0b", by decide, by decide⟩

def shopVisit : Request := ⟨⟨"shop", 1800, false, .component⟩, none, 0, idOne, []⟩

/-- The same browser at the blog, with the shop's cookie. -/
def blogVisit (lazySessionCreation : Bool) : Request :=
  ⟨⟨"blog", 1800, lazySessionCreation, .component⟩, some "1f2e", 10, idTwo, [(10, idTwo, .write)]⟩

theorem proper_lazyBlog : EachStep (Server.step asciiOnly) (Event.Proper asciiOnly) Server.empty
      [.request shopVisit, .request (blogVisit true), .reap 5000] :=
  Server.proper_of_unambiguous _
    ⟨⟨by decide, .inr fun _ h => nomatch h⟩, ⟨by decide, .inl rfl⟩, trivial, trivial⟩

/-- A page with a `<cfapplication>` tag, and a cookie with an id nobody minted. -/
def plantedVisit : Request :=
  ⟨⟨"wiki", 1800, true, .tag⟩, some "evil", 10, idTwo, [(10, idTwo, .write)]⟩

/-- The shop holds the id, and the blog's session is created under another one; and the wiki's
session is created under the id that was planted. -/
theorem eagerBlog_replaces_id : let s := Server.empty.step asciiOnly (.request shopVisit)
    s.store.Holds asciiOnly 10 "shop" "1f2e" ∧ ¬s.store.Holds asciiOnly 10 "blog" "1f2e" ∧
      ((blogVisit false).after asciiOnly s 1).sessionId = some "9c0b" ∧
      ¬(blogVisit false).KeepsSharedId asciiOnly s ∧
          ¬plantedVisit.AdoptsOnlyIssued asciiOnly s := by
  have hshop :
      (Server.empty.step asciiOnly (.request shopVisit)).store.Holds asciiOnly 10 "shop"
          "1f2e" := by
    decide
  have hblog :
      ¬(Server.empty.step asciiOnly (.request shopVisit)).store.Holds asciiOnly 10 "blog"
          "1f2e" := by
    decide
  refine ⟨hshop, hblog, rfl, fun hkeeps => ?_, fun hadopts => ?_⟩
  · have hkept := (hkeeps (by decide) "1f2e" rfl (by decide) hblog ⟨"shop", hshop⟩ 10 idTwo).1
    exact absurd hkept (by decide)
  · obtain ⟨new, hminted, hall⟩ := hadopts 1
    have hnew : new = [] := append_left_eq_self.1 hminted.symm
    rcases hall "evil" rfl (by decide) with hin | ⟨-, hissued, -⟩
    · rw [hnew] at hin
      cases hin
    · exact absurd hissued (by decide)

end RustCfml.Session
