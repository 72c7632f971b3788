import RustCfml.Common.Key
import RustCfml.Lib.Blocks
import RustCfml.Lib.Lowercase
import RustCfml.Locks.NamedLock

/-!
# Leaving a lock block

A lock block is rewritten into calls. **The call is given the attributes and not the lock**: they
are evaluated anew, and the newest lock held under the name they give now is released. In script the
call is a finally part, and a `rethrow` in the body runs it **once before the exception is raised
and again in the handler**. -/

namespace RustCfml.Locks

open Blocks Lowercase List Option

structure LockAttrs where
  name : Option String
  scope : Option String
  ltype : Option String
  timeoutMs : Option Nat
  throwOnTimeout : Option Bool

/-- What the runtime reads of the request and what the server answers. -/
structure Context (ε : Type) where
  tables : CaseTables
  applicationName : ε → Option String
  sessionId : ε → Option String
  requestId : ε → Nat
  /-- The lock behind a name, or `none` when the time is up. -/
  grant : LockOpts → ε → Option LockId × ε
  bindLockE : String → ε → ε
  lockE : ε → String
  /-- The exception that `rethrow` raises: what the innermost catch variable holds. -/
  caught : ε → String

/-- `scope_lock_key` -/
def scopeLockKey (scope app : String) (session : Option String) (requestId : Nat) : String :=
  match scope with
  | "server" => "\u001flock:server"
  | "application" => "\u001flock:app:" ++ app
  | "session" =>
    match session with
    | some sid => "\u001flock:sess:" ++ app ++ ":" ++ sid
    | none => "\u001flock:app:" ++ app
  | "request" => "\u001flock:req:" ++ toString requestId
  | other => "\u001flock:scope:" ++ other

def nonEmpty (s : Option String) : Option String := s.filter (· ≠ "")

section

variable {ε : Type} (C : Context ε)

/-- `parse_lock_opts` -/
def parseLockOpts (env : ε) (attrs : LockAttrs) : Except String LockOpts :=
  let opts (name label : String) : LockOpts :=
    { name, label
      ltype := (nonEmpty (attrs.ltype.map (lowerString C.tables))).getD "exclusive"
      timeoutMs := attrs.timeoutMs.getD 0
      throwOnTimeout := attrs.throwOnTimeout.getD true }
  let scope := attrs.scope.map fun s => lowerString C.tables (.ofList (trim s.toList))
  match nonEmpty attrs.name, nonEmpty scope with
  | some _, some _ => .error "invalid attribute combination"
  | some n, none => .ok (opts n ("lock with name [" ++ n ++ "]"))
  | none, some s =>
    .ok (opts (scopeLockKey s ((C.applicationName env).getD "") (C.sessionId env) (C.requestId env))
      ("[" ++ s ++ "] scope lock"))
  | none, none => .ok (opts "default" "lock with name [default]")

def lockTimeoutMessage (opts : LockOpts) : String :=
  let secs := opts.timeoutMs / 1000
  let duration :=
    if opts.timeoutMs % 1000 = 0 then toString secs ++ " second" ++ (if secs = 1 then "" else "s")
    else toString opts.timeoutMs ++ " milliseconds"
  "a timeout occurred after " ++ duration ++ " trying to acquire a " ++
    (if opts.isExclusive then "exclusive" else "read-only") ++ " " ++ opts.label ++ "."

/-- A lock block that was executed, or a call of `__cflock_end` before a `rethrow`: the locks held
before and after. -/
structure Visit where
  before : List Held
  after : List Held
  stable : Bool

def Visit.Released (v : Visit) : Prop := v.after = v.before

structure VmState (ε : Type) where
  env : ε
  held : List Held
  visits : List Visit

abbrev AttrExpr (ε : Type) := ε → Except String LockAttrs × ε

def evalOpts (attrs : AttrExpr ε) (env : ε) : Except String LockOpts × ε :=
  match attrs env with
  | (.ok a, env') => (parseLockOpts C env' a, env')
  | (.error e, env') => (.error e, env')

/-- `__cflock_start` -/
def lockStart (attrs : AttrExpr ε) (s : VmState ε) : Except String Bool × VmState ε :=
  match evalOpts C attrs s.env with
  | (.error e, env) => (.error e, { s with env })
  | (.ok opts, env) =>
    if s.held.any (·.name = opts.name) then
      (.ok true, { s with env, held := ⟨opts, .reentrant⟩ :: s.held })
    else
      match C.grant opts env with
      | (some l, env) =>
        let guard := if opts.isExclusive then HeldLock.write l else .read l
        (.ok true, { s with env, held := ⟨opts, guard⟩ :: s.held })
      | (none, env) =>
        if opts.throwOnTimeout then (.error (lockTimeoutMessage opts), { s with env })
        else (.ok false, { s with env })

/-- `__cflock_end` -/
def lockEnd (attrs : AttrExpr ε) : Prog (VmState ε) String := fun s =>
  match evalOpts C attrs s.env with
  | (.error e, env) => some (.throws e, { s with env })
  | (.ok opts, env) => some (.normal, { s with env, held := s.held.eraseP (·.name = opts.name) })

/-! ## The two lowerings -/

inductive Form where
  | tag
  | script

def ifLockStart (attrs : AttrExpr ε) (body : Prog (VmState ε) String) : Prog (VmState ε) String :=
  fun s =>
    match lockStart C attrs s with
    | (.ok true, s') => body s'
    | (.ok false, s') => some (.normal, s')
    | (.error e, s') => some (.throws e, s')

def caughtLockE (e : String) (s : VmState ε) : VmState ε := { s with env := C.bindLockE e s.env }

def throwLockE : Prog (VmState ε) String := fun s => some (.throws (C.lockE s.env), s)

def lower (form : Form) (attrs : AttrExpr ε) (body : Prog (VmState ε) String) :
    Prog (VmState ε) String :=
  match form with
  | .tag => ifLockStart C attrs
      ((body.seq (lockEnd C attrs)).tryCatch (caughtLockE C)
        ((lockEnd C attrs).seq (throwLockE C)))
  | .script => ifLockStart C attrs (body.tryFinally (lockEnd C attrs) (lockEnd C attrs))

def endName (attrs : AttrExpr ε) (env : ε) : Option String :=
  match (evalOpts C attrs env).1 with
  | .ok opts => some opts.name
  | .error _ => none

/-- The name of the lock that is released when the body was left by `x`. -/
def releaseName (form : Form) (attrs : AttrExpr ε) (x : Exit String) (env : ε) : Option String :=
  match form, x with
  | .script, .returns | .script, .breaks | .script, .continues =>
    -- the call before the jump is still under the handler, which makes another
    match evalOpts C attrs env with
    | (.ok opts, _) => some opts.name
    | (.error _, env') => endName C attrs env'
  | .script, _ => endName C attrs env
  | .tag, .normal =>
    match evalOpts C attrs env with
    | (.ok opts, _) => some opts.name
    | (.error e, env') => endName C attrs (C.bindLockE e env')
  | .tag, .throws e => endName C attrs (C.bindLockE e env)
  | .tag, _ => none

/-- The block is left where a call stands, and the attributes give the name they gave. -/
def stableAt (form : Form) (attrs : AttrExpr ε) (body : Prog (VmState ε) String) (s : VmState ε) :
    Bool :=
  match lockStart C attrs s with
  | (.ok true, s₁) =>
    match body s₁ with
    | some (x, s₂) => releaseName C form attrs x s₂.env = s₁.held.head?.map Held.name
    | none => true
  | _ => true

def lockBlock (form : Form) (attrs : AttrExpr ε) (body : Prog (VmState ε) String) :
    Prog (VmState ε) String := fun s =>
  (lower C form attrs body s).map fun r =>
    (r.1, { r.2 with
      visits := r.2.visits ++ [⟨s.held, r.2.held, stableAt C form attrs body s⟩] })

/-- The call that a `rethrow` makes: it is stable if it finds nothing to release. -/
def rethrowEnd (attrs : AttrExpr ε) : Prog (VmState ε) String := fun s =>
  (lockEnd C attrs s).map fun r =>
    (r.1, { r.2 with
      visits := r.2.visits ++ [⟨s.held, r.2.held,
        (endName C attrs s.env).all fun name => !s.held.any (·.name = name)⟩] })

/-- Programs: actions and conditions are any code that is not a lock call. -/
def interp :
    Interp (ε → Exit String × ε) (ε → Bool × ε) (Form × AttrExpr ε) (VmState ε) String where
  act a s := some ((a s.env).1, { s with env := (a s.env).2 })
  cond c s := ((c s.env).1, { s with env := (c s.env).2 })
  caught := caughtLockE C
  current s := C.caught s.env
  block b := lockBlock C b.1 b.2
  final b :=
    match b.1 with
    | .tag => none
    | .script => some (rethrowEnd C b.2)

abbrev Program (ε : Type) := Stmt (ε → Exit String × ε) (ε → Bool × ε) (Form × AttrExpr ε)

/-! ## One block -/

lemma cons_eraseP_ne {α : Type} {p : α → Bool} {h : α} (hp : p h = false) : ∀ l : List α,
    h :: l.eraseP p ≠ l
  | [] => by simp
  | a :: l => by
    intro heq
    obtain ⟨rfl, htail⟩ := cons.inj heq
    rw [eraseP_cons_of_neg (by simp [hp])] at htail
    exact cons_eraseP_ne hp l htail

lemma eraseP_name_iff (h : Held) (rest : List Held) (name : String) :
    (h :: rest).eraseP (fun e => decide (e.name = name)) = rest ↔ name = h.name := by
  by_cases hname : h.name = name
  · rw [eraseP_cons_of_pos (by simpa using hname)]
    exact ⟨fun _ => hname.symm, fun _ => rfl⟩
  · rw [eraseP_cons_of_neg (by simpa using hname)]
    exact ⟨fun heq => absurd heq (cons_eraseP_ne (by simpa using hname) rest),
      fun heq => absurd heq.symm hname⟩

variable {C}

lemma lockStart_visits (attrs : AttrExpr ε) (s : VmState ε) :
    (lockStart C attrs s).2.visits = s.visits := by
  unfold lockStart
  split
  · rfl
  · split
    · rfl
    · split
      · rfl
      · split <;> rfl

variable {attrs : AttrExpr ε} {s s₃ s₂ s₁ s' : VmState ε} {y x : Exit String}
   {body : Prog (VmState ε) String}

lemma lockStart_held {r : Except String Bool} (h : lockStart C attrs s = (r, s₁)) :
    (∃ e, r = .ok true ∧ s₁.held = e :: s.held) ∨ (r ≠ .ok true ∧ s₁.held = s.held) := by
  unfold lockStart at h
  split at h
  · obtain ⟨rfl, rfl⟩ := Prod.mk.inj h
    exact .inr ⟨by simp, rfl⟩
  · split at h
    · obtain ⟨rfl, rfl⟩ := Prod.mk.inj h
      exact .inl ⟨_, rfl, rfl⟩
    · split at h
      · obtain ⟨rfl, rfl⟩ := Prod.mk.inj h
        exact .inl ⟨_, rfl, rfl⟩
      · split at h
        all_goals
          obtain ⟨rfl, rfl⟩ := Prod.mk.inj h
          exact .inr ⟨by simp, rfl⟩

lemma lockEnd_cases (attrs : AttrExpr ε) (s : VmState ε) :
    ∃ x s', lockEnd C attrs s = some (x, s') ∧ s'.visits = s.visits ∧
    s'.env = (evalOpts C attrs s.env).2 ∧
      ((∃ e, x = .throws e ∧ (evalOpts C attrs s.env).1 = .error e ∧ s'.held = s.held) ∨
        ∃ opts, x = .normal ∧ (evalOpts C attrs s.env).1 = .ok opts ∧
          s'.held = s.held.eraseP (·.name = opts.name)) := by
  unfold lockEnd
  split
  next e env heq => exact ⟨_, _, rfl, rfl, by rw [heq], .inl ⟨e, rfl, by rw [heq], rfl⟩⟩
  next opts env heq => exact ⟨_, _, rfl, rfl, by rw [heq], .inr ⟨opts, rfl, by rw [heq], rfl⟩⟩

/-- Where control goes once the body is left: one call or two, and an exit. -/
structure Leaves (form : Form) (attrs : AttrExpr ε) (x : Exit String) (s₂ s₃ : VmState ε) :
    Prop where
  visits : s₃.visits = s₂.visits
  held : ∀ h rest, s₂.held = h :: rest →
    (s₃.held = rest ↔ releaseName C form attrs x s₂.env = some h.name)

lemma lockEnd_held_iff (h : lockEnd C attrs s = some (x, s')) {e : Held} {rest : List Held}
    (hheld : s.held = e :: rest) : s'.held = rest ↔ endName C attrs s.env = some e.name := by
  obtain ⟨y, s'', heq, -, -, hcases⟩ := lockEnd_cases (C := C) attrs s
  obtain ⟨rfl, rfl⟩ := Prod.mk.inj (some.inj (h.symm.trans heq))
  rcases hcases with ⟨err, -, heval, hsame⟩ | ⟨opts, -, heval, hgone⟩
  · rw [endName, heval, hsame, hheld]
    exact ⟨fun hcons => absurd hcons (cons_ne_self _ _), fun hnone => absurd hnone (by simp)⟩
  · rw [endName, heval, hgone, hheld, eraseP_name_iff, some.injEq]

lemma lockEnd_visits (h : lockEnd C attrs s = some (x, s')) : s'.visits = s.visits := by
  obtain ⟨y, s'', heq, hvisits, -⟩ := lockEnd_cases (C := C) attrs s
  obtain ⟨rfl, rfl⟩ := Prod.mk.inj (some.inj (h.symm.trans heq))
  exact hvisits

lemma andResume_state (h : (lockEnd C attrs).andResume x s₂ = some (y, s₃)) :
    ∃ z, lockEnd C attrs s₂ = some (z, s₃) := by
  obtain ⟨z, s', heq, -⟩ := lockEnd_cases (C := C) attrs s₂
  refine ⟨z, ?_⟩
  rw [Prog.andResume, heq] at h
  split at h
  next heq' =>
    obtain ⟨rfl, rfl⟩ := Prod.mk.inj (some.inj heq')
    rw [heq, (Prod.mk.inj (some.inj h)).2]
  next => rw [heq, (Prod.mk.inj (some.inj h)).2]

/-- A jump out of the body: the call before it, and if that throws the one in the handler. -/
lemma leaves_jump (hx : x.jumps = true) (hbody : body s₁ = some (x, s₂))
    (h : (body.tryFinally (lockEnd C attrs) (lockEnd C attrs)) s₁ = some (y, s₃)) :
    s₃.visits = s₂.visits ∧ ∀ e rest, s₂.held = e :: rest → (s₃.held = rest ↔
      (match evalOpts C attrs s₂.env with
        | (.ok opts, _) => some opts.name
        | (.error _, env') => endName C attrs env') = some e.name) := by
  obtain ⟨z, s', heq, hvisits, henv, hcases⟩ := lockEnd_cases (C := C) attrs s₂
  have hpair : evalOpts C attrs s₂.env = ((evalOpts C attrs s₂.env).1, s'.env) := by rw [henv]
  rw [hpair]
  rcases hcases with ⟨err, rfl, heval, hsame⟩ | ⟨opts, rfl, heval, hgone⟩
  · simp only [Prog.tryFinally, Prog.inlined, hbody, hx, if_true, Prog.andResume, heq] at h
    obtain ⟨z, hz⟩ := andResume_state h
    rw [heval]
    exact ⟨(lockEnd_visits hz).trans hvisits,
      fun e rest hheld => lockEnd_held_iff hz (hsame.trans hheld)⟩
  · have hs3 : s' = s₃ := by
      simp only [Prog.tryFinally, Prog.inlined, hbody, hx, if_true, Prog.andResume, heq] at h
      cases x with
      | normal | throws => cases hx
      | returns | breaks | continues => exact (Prod.mk.inj (some.inj h)).2
    subst hs3
    refine ⟨hvisits, fun e rest hheld => ?_⟩
    rw [lockEnd_held_iff heq hheld, endName, heval]

lemma leaves_script (hbody : body s₁ = some (x, s₂))
    (h : (body.tryFinally (lockEnd C attrs) (lockEnd C attrs)) s₁ = some (y, s₃)) :
    Leaves (C := C) .script attrs x s₂ s₃ := by
  cases x with
  | normal =>
    have hend : lockEnd C attrs s₂ = some (y, s₃) := by
      simpa [Prog.tryFinally, Prog.inlined, hbody, Exit.jumps] using h
    exact ⟨lockEnd_visits hend, fun e rest hheld => lockEnd_held_iff hend hheld⟩
  | throws err =>
    have hresume : (lockEnd C attrs).andResume (.throws err) s₂ = some (y, s₃) := by
      simpa [Prog.tryFinally, Prog.inlined, hbody, Exit.jumps] using h
    obtain ⟨z, hend⟩ := andResume_state hresume
    exact ⟨lockEnd_visits hend, fun e rest hheld => lockEnd_held_iff hend hheld⟩
  | returns | breaks | continues =>
    obtain ⟨hvisits, hheld⟩ := leaves_jump rfl hbody h
    exact ⟨hvisits, hheld⟩

lemma handler_state {e : String}
    (h : ((lockEnd C attrs).seq (throwLockE C)) (caughtLockE C e s₂) = some (y, s₃)) :
    ∃ z, lockEnd C attrs (caughtLockE C e s₂) = some (z, s₃) := by
  obtain ⟨z, s', heq, -⟩ := lockEnd_cases (C := C) attrs (caughtLockE C e s₂)
  refine ⟨z, ?_⟩
  rw [Prog.seq, heq] at h
  split at h
  next heq' =>
    obtain ⟨rfl, rfl⟩ := Prod.mk.inj (some.inj heq')
    rw [throwLockE] at h
    rw [heq, (Prod.mk.inj (some.inj h)).2]
  next => rw [heq, (Prod.mk.inj (some.inj h)).2]

lemma leaves_handler {e : String}
    (h : ((lockEnd C attrs).seq (throwLockE C)) (caughtLockE C e s₂) = some (y, s₃)) :
    s₃.visits = s₂.visits ∧ ∀ e' rest, s₂.held = e' :: rest →
      (s₃.held = rest ↔ endName C attrs (C.bindLockE e s₂.env) = some e'.name) := by
  obtain ⟨z, hz⟩ := handler_state h
  have hvisits : s₃.visits = (caughtLockE C e s₂).visits := lockEnd_visits hz
  exact ⟨hvisits, fun e' rest hheld => lockEnd_held_iff hz hheld⟩

lemma leaves_tag (hbody : body s₁ = some (x, s₂))
    (h : ((body.seq (lockEnd C attrs)).tryCatch (caughtLockE C)
      ((lockEnd C attrs).seq (throwLockE C))) s₁ = some (y, s₃)) :
    Leaves (C := C) .tag attrs x s₂ s₃ := by
  rw [Prog.tryCatch, Prog.seq, hbody] at h
  cases x with
  | normal =>
    obtain ⟨z, s', heq, hvisits, henv, hcases⟩ := lockEnd_cases (C := C) attrs s₂
    rcases hcases with ⟨e, rfl, heval, hsame⟩ | ⟨opts, rfl, heval, hgone⟩
    · simp only [heq] at h
      obtain ⟨hv, hheld⟩ := leaves_handler h
      refine ⟨hv.trans hvisits, fun e' rest hs2 => ?_⟩
      rw [hheld e' rest (hsame.trans hs2), henv, releaseName]
      have hpair :
        evalOpts C attrs s₂.env = (.error e, (evalOpts C attrs s₂.env).2) := by rw [← heval]
      rw [hpair]
    · simp only [heq] at h
      obtain ⟨-, rfl⟩ := Prod.mk.inj (some.inj h)
      refine ⟨hvisits, fun e' rest hs2 => ?_⟩
      have hpair :
        evalOpts C attrs s₂.env = (.ok opts, (evalOpts C attrs s₂.env).2) := by rw [← heval]
      rw [lockEnd_held_iff heq hs2, releaseName, hpair, endName, heval]
  | throws e =>
    obtain ⟨hv, hheld⟩ := leaves_handler h
    exact ⟨hv, fun e' rest hs2 => hheld e' rest hs2⟩
  | returns | breaks | continues =>
    obtain ⟨-, rfl⟩ := Prod.mk.inj (some.inj h)
    refine ⟨rfl, fun e' rest hs2 => ?_⟩
    rw [hs2]
    exact ⟨fun hcons => absurd hcons (cons_ne_self _ _),
      fun hnone => absurd hnone (by simp [releaseName])⟩

lemma leaves_lower {form : Form} (hstart : lockStart C attrs s = (.ok true, s₁))
    (h : lower C form attrs body s = some (y, s₃)) :
    ∃ x s₂, body s₁ = some (x, s₂) ∧ Leaves (C := C) form attrs x s₂ s₃ := by
  cases form with
  | tag =>
    rw [lower, ifLockStart, hstart] at h
    cases hbody : body s₁ with
    | none =>
      simp only [Prog.tryCatch, Prog.seq, hbody] at h
      exact absurd h (by simp)
    | some r => exact ⟨r.1, r.2, rfl, leaves_tag hbody h⟩
  | script =>
    rw [lower, ifLockStart, hstart] at h
    cases hbody : body s₁ with
    | none =>
      simp only [Prog.tryFinally, Prog.inlined, hbody] at h
      exact absurd h (by simp)
    | some r => exact ⟨r.1, r.2, rfl, leaves_script hbody h⟩

/-! ## Programs -/

/-- What a stretch of a program adds to the record: its blocks have all released their locks exactly
when they were all stable, and in that case no lock is left over or missing. -/
def Tidy (s s' : VmState ε) : Prop :=
  ∃ new, s'.visits = s.visits ++ new ∧
    ((∀ v ∈ new, v.Released) ↔ ∀ v ∈ new, v.stable = true) ∧
      ((∀ v ∈ new, v.Released) → s'.held = s.held)

lemma tidy_of_eq (hvisits : s'.visits = s.visits) (hheld : s'.held = s.held) : Tidy s s' :=
  ⟨[], by simp [hvisits], by simp, fun _ => hheld⟩

lemma tidy_steps : Steps (Tidy (ε := ε)) where
  refl s := tidy_of_eq rfl rfl
  trans := by
    rintro a b c ⟨n1, hv1, hiff1, hheld1⟩ ⟨n2, hv2, hiff2, hheld2⟩
    refine ⟨n1 ++ n2, by rw [hv2, hv1, append_assoc], ?_, fun hall => ?_⟩
    · rw [forall_mem_append, forall_mem_append, hiff1, hiff2]
    · rw [forall_mem_append] at hall
      rw [hheld2 hall.2, hheld1 hall.1]

lemma tidy_lockBlock (form : Form) (attrs : AttrExpr ε)
    (hbody : body.Ensures Tidy) : (lockBlock C form attrs body).Ensures Tidy := by
  intro s y s' h
  obtain ⟨⟨y', s₃⟩, hlower, heq⟩ := map_eq_some_iff.1 h
  obtain ⟨rfl, rfl⟩ := Prod.mk.inj heq
  cases hstart : lockStart C attrs s with
  | mk r s₁ =>
    have hv1 : s₁.visits = s.visits := by
      have := lockStart_visits (C := C) attrs s
      rwa [hstart] at this
    rcases lockStart_held hstart with ⟨e, rfl, hheld1⟩ | ⟨hr, hheld1⟩
    · obtain ⟨x, s₂, hrun, hleaves⟩ := leaves_lower hstart hlower
      obtain ⟨new, hv2, hiff, hheld2⟩ := hbody s₁ x s₂ hrun
      have hstable : stableAt C form attrs body s = true ↔
          releaseName C form attrs x s₂.env = some e.name := by
        rw [stableAt, hstart]
        simp [hrun, hheld1]
      -- with the body's blocks in order, the lock of this one is on top when the body is left
      have hmain (hall : ∀ v ∈ new, v.Released) :
          s₃.held = s.held ↔ stableAt C form attrs body s = true := by
        rw [hstable]
        exact hleaves.held e s.held ((hheld2 hall).trans hheld1)
      refine ⟨new ++ [⟨s.held, s₃.held, stableAt C form attrs body s⟩], ?_, ?_, fun hall => ?_⟩
      · simp [hleaves.visits, hv2, hv1]
      · simp only [forall_mem_append, forall_mem_singleton]
        constructor
        · rintro ⟨hall, hlast⟩
          exact ⟨hiff.1 hall, (hmain hall).1 hlast⟩
        · rintro ⟨hall, hlast⟩
          exact ⟨hiff.2 hall, (hmain (hiff.2 hall)).2 hlast⟩
      · exact hall _ (mem_append_right _ mem_cons_self)
    · -- the body was not entered
      have hs3 : s₃ = s₁ := by
        cases form with
        | tag | script =>
          rw [lower, ifLockStart, hstart] at hlower
          match r, hr, hlower with
          | .ok true, hr, _ => exact absurd rfl hr
          | .ok false, _, hlower => exact (Prod.mk.inj (some.inj hlower)).2.symm
          | .error _, _, hlower => exact (Prod.mk.inj (some.inj hlower)).2.symm
      have hstable : stableAt C form attrs body s = true := by
        rw [stableAt, hstart]
        match r, hr with
        | .ok true, hr => exact absurd rfl hr
        | .ok false, _ => rfl
        | .error _, _ => rfl
      subst hs3
      exact ⟨[⟨s.held, s₃.held, stableAt C form attrs body s⟩], by simp [hv1],
        by simp [Visit.Released, hheld1, hstable], fun _ => hheld1⟩

lemma eraseP_eq_self_iff (held : List Held) (name : String) :
    held.eraseP (fun e => decide (e.name = name)) = held ↔ ∀ e ∈ held, ¬ e.name = name := by
  constructor
  · intro heq e he hname
    have hlen :=
      length_eraseP_of_mem he (p := fun e => decide (e.name = name)) (by simpa using hname)
    have hpos := length_pos_of_mem he
    rw [heq] at hlen
    omega
  · exact fun h => eraseP_of_forall_not fun e he => by simpa using h e he

lemma tidy_rethrowEnd (attrs : AttrExpr ε) : (rethrowEnd C attrs).Ensures Tidy := by
  intro s y s' h
  obtain ⟨⟨y', s₁⟩, hend, heq⟩ := map_eq_some_iff.1 h
  obtain ⟨rfl, rfl⟩ := Prod.mk.inj heq
  obtain ⟨z, s₂, hcase, hvisits, -, hcases⟩ := lockEnd_cases (C := C) attrs s
  obtain ⟨rfl, rfl⟩ := Prod.mk.inj (some.inj (hend.symm.trans hcase))
  refine ⟨[⟨s.held, s₁.held, _⟩], by rw [hvisits], ?_, fun hall => hall _ mem_cons_self⟩
  simp only [forall_mem_singleton, Visit.Released, endName]
  rcases hcases with ⟨err, -, heval, hsame⟩ | ⟨opts, -, heval, hgone⟩
  · simp [heval, hsame]
  · rw [heval, hgone, eraseP_eq_self_iff]
    simp

variable (C)

lemma tidy_exec (fuel : Nat) (program : Program ε) :
    (program.exec (interp C) fuel .skip).Ensures Tidy := by
  refine Stmt.ensures_exec (interp C) tidy_steps (fun a s x s' h => ?_)
    (fun c s => tidy_of_eq rfl rfl) (fun e s => tidy_of_eq rfl rfl)
    (fun b body hbody => tidy_lockBlock b.1 b.2 hbody) (fun b p hp => ?_) fuel program
    fun s x s' h => ?_
  · obtain ⟨-, rfl⟩ := Prod.mk.inj (some.inj h)
    exact tidy_of_eq rfl rfl
  · obtain ⟨form, attrs⟩ := b
    cases form with
    | tag => cases hp
    | script =>
      obtain rfl := some.inj hp
      exact tidy_rethrowEnd attrs
  · obtain ⟨-, rfl⟩ := Prod.mk.inj (some.inj h)
    exact tidy_of_eq rfl rfl

end

def oneVariable : Context String where
  tables := .asciiLetters
  applicationName _ := some "shop"
  sessionId _ := none
  requestId _ := 0
  grant _ env := (some 0, env)
  bindLockE _ env := env
  lockE _ := ""
  caught _ := ""

def nameFromVariable : AttrExpr String := fun x => (.ok ⟨some x, none, none, none, none⟩, x)

def scriptReturn : Program String :=
  .block (.script, nameFromVariable) (.act fun x => (.returns, x))

/-- `<cflock name="#x#"> <cfreturn> </cflock>` -/
def tagReturn : Program String := .block (.tag, nameFromVariable) (.act fun x => (.returns, x))

/-- `lock name="#x#" { x = "b"; }` -/
def scriptRename : Program String :=
  .block (.script, nameFromVariable) (.act fun _ => (.normal, "b"))

end RustCfml.Locks
