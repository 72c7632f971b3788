import RustCfml.Lib.Run

/-!
# The schedule wheel

One timer thread moves due schedules from the waiting ones to a queue, and a pool of runners takes
them from there, runs them and puts the periodic ones back. **A woken runner counts as idle until it
has the lock**, so a task that falls due in between gets no runner (`burst_unserved`). And **a
schedule's cancellation is not looked at once it is due**: its body starts all the same
(`cancelledDue_starts`).
-/

namespace RustCfml.Schedule

open StateMachine List Option

def maxRunners : Nat := 64

structure Task where
  /-- Milliseconds, and whether the rate is fixed; the callers pass on positive periods only. -/
  period : Option (Nat × Bool)
  permits : Bool
  runAt : Nat
  first : Bool

abbrev Job := Nat × Task

inductive Event where
  | cancelled (id : Nat)
  | started (id : Nat)
  | sent (id : Nat)
deriving DecidableEq

structure State where
  /-- Due times, the earliest first. -/
  heap : List (Nat × Nat)
  tasks : List Job
  pending : List Job
  nextId : Nat
  /-- The timer has queued a task and not notified the runners yet. -/
  notifying : Bool
  /-- Runners on their way to the queue, parked, and woken but without the lock. -/
  looping : Nat
  parked : Nat
  woken : Nat
  /-- Runners with a task: before its permit, before its body, and in its body. -/
  waiting : List Job
  ready : List Job
  executing : List Job
  log : List Event
  /-- The schedules whose task has been dropped. -/
  finished : List Nat

namespace State

def init : State := ⟨[], [], [], 0, false, 0, 0, 0, [], [], [], [], []⟩

/-- `idle_runners` is lowered when a woken runner has the lock again. -/
def idleRunners (s : State) : Nat := s.parked + s.woken

def liveRunners (s : State) : Nat :=
  s.looping + s.parked + s.woken + s.waiting.length + s.ready.length + s.executing.length

def isCancelled (s : State) (id : Nat) : Bool := decide (.cancelled id ∈ s.log)

def resolve (s : State) (id : Nat) : State :=
  { s with log := .sent id :: s.log, finished := id :: s.finished }

end State

def pushHeap (entry : Nat × Nat) : List (Nat × Nat) → List (Nat × Nat) :=
  List.orderedInsert (fun a b => a.1 < b.1 ∨ a.1 = b.1 ∧ a.2 ≤ b.2) entry

def takeJob (id : Nat) : List Job → Option (Task × List Job)
  | [] => none
  | job :: jobs =>
    if job.1 = id then some (job.2, jobs) else (takeJob id jobs).map fun r => (r.1, job :: r.2)

/-- Fixed rate: the missed ticks are skipped. -/
def skipMissed (period now n : Nat) : Nat :=
  if 0 < period ∧ n ≤ now then skipMissed period now (n + period) else n
  termination_by now + 1 - n

def nextRun (runAt period now : Nat) (fixedRate : Bool) : Nat :=
  if fixedRate then skipMissed period now (runAt + period) else now + period

inductive Op where
  | schedule (now delay : Nat) (period : Option (Nat × Bool)) (permits : Bool)
  | cancel (id : Nat)
  /-- The timer retires the cancelled schedules. -/
  | sweep
  /-- The timer looks at its heap; `spawned`: a runner, if one is asked for, can be started. -/
  | fire (now : Nat) (spawned : Bool)
  | notify
  /-- A parked runner wakes by itself. -/
  | wake
  /-- A runner, from its loop or woken, has the lock. -/
  | take (fromWait : Bool)
  /-- `acquire` looks at its loop condition: there is a permit or not. -/
  | acquire (id : Nat) (free : Bool)
  | start (id : Nat)
  /-- The body is over; `some true` is a terminated run. -/
  | finish (id : Nat) (res : Option Bool) (now : Nat)

namespace State

def wakeOne (s : State) : State :=
  if 0 < s.parked then { s with parked := s.parked - 1, woken := s.woken + 1 } else s

/-- The end of a pass of `timer_loop`. -/
def queue (s : State) (id : Nat) (task : Task) (spawned : Bool) : State :=
  { s with
    pending := s.pending ++ [(id, task)]
    looping := if s.idleRunners = 0 ∧ s.liveRunners < maxRunners ∧ spawned then s.looping + 1
      else s.looping
    notifying := true }

def fire (s : State) (now : Nat) (spawned : Bool) : State :=
  match s.heap with
  | [] => s
  | (due, id) :: heap =>
    match takeJob id s.tasks with
    | none => { s with heap }
    | some (task, tasks) =>
      if now < due then s
      else if s.isCancelled id then { s with heap, tasks }.resolve id
      else { s with heap, tasks }.queue id task spawned

def take (s : State) : State :=
  match s.pending with
  | [] => { s with parked := s.parked + 1 }
  | job :: pending =>
    if job.2.permits then { s with pending, waiting := job :: s.waiting }
    else { s with pending, ready := job :: s.ready }

def rearm (s : State) (id next : Nat) (task : Task) : State :=
  { s with
    tasks := (id, { task with first := false, runAt := next }) :: s.tasks
    heap := pushHeap (next, id) s.heap }

/-- `run_once` after the body. -/
def finishRun (s : State) (id : Nat) (task : Task) (res : Option Bool) (now : Nat) : State :=
  match task.period with
  | none =>
    if task.first ∧ res.isSome then s.resolve id else { s with finished := id :: s.finished }
  | some (period, fixedRate) =>
    if res.getD true ∨ s.isCancelled id then s.resolve id
    else s.rearm id (nextRun task.runAt period now fixedRate) task

def step (s : State) : Op → State
  | .schedule now delay period permits =>
    { s with
      tasks := (s.nextId, ⟨period, permits, now + delay, true⟩) :: s.tasks
      heap := pushHeap (now + delay, s.nextId) s.heap
      nextId := s.nextId + 1 }
  | .cancel id => { s with log := .cancelled id :: s.log }
  | .sweep =>
    let dead := (s.tasks.filter fun job => s.isCancelled job.1).map Prod.fst
    { s with
      tasks := s.tasks.filter fun job => !s.isCancelled job.1
      log := dead.map .sent ++ s.log
      finished := dead ++ s.finished }
  | .fire now spawned => if s.notifying then s else s.fire now spawned
  | .notify => if s.notifying then { s with notifying := false }.wakeOne else s
  | .wake => s.wakeOne
  | .take true => if 0 < s.woken then { s with woken := s.woken - 1 }.take else s
  | .take false => if 0 < s.looping then { s with looping := s.looping - 1 }.take else s
  | .acquire id free =>
    match takeJob id s.waiting with
    | none => s
    | some (task, waiting) =>
      if free then { s with waiting, ready := (id, task) :: s.ready }
      else if s.isCancelled id then { s with waiting, looping := s.looping + 1 }.resolve id
      else s
  | .start id =>
    match takeJob id s.ready with
    | none => s
    | some (task, ready) =>
      { s with ready, executing := (id, task) :: s.executing, log := .started id :: s.log }
  | .finish id res now =>
    match takeJob id s.executing with
    | none => s
    | some (task, executing) =>
      { s with executing, looping := s.looping + 1 }.finishRun id task res now

/-! ## Every due task is taken -/

/-- A due task does not stay in the queue while fewer than 64 bodies run: some runner is about to
take it, or to start a body, without any body having to end first. -/
def Served (s : State) : Prop :=
  s.pending ≠ [] → s.executing.length < maxRunners →
    0 < s.looping ∨ 0 < s.woken ∨ s.notifying = true ∧ 0 < s.parked ∨ s.ready ≠ []

/-- Nothing falls due while a woken runner has not got the lock yet, runners can be started, and
when all 64 are there none of them has to wait for a permit. -/
def Unhurried (s : State) : Op → Prop
  | .fire _ spawned =>
    s.woken = 0 ∧ spawned = true ∧ (maxRunners ≤ s.liveRunners + 1 → s.waiting = [])
  | .take _ => s.liveRunners = maxRunners → ∀ job ∈ s.pending.head?, job.2.permits = false
  | _ => True

/-- There is a runner on its way for each queued task, or there are 64 and none of them is
parked. -/
structure Manned (s : State) : Prop where
  enough : s.pending.length ≤ s.looping + s.woken ∨
    0 < s.notifying.toNat ∧ 0 < s.parked ∧ s.pending.length ≤ s.looping + s.woken + 1 ∨
    s.liveRunners = maxRunners ∧ s.parked = 0
  most : s.liveRunners ≤ maxRunners
  permitted : s.liveRunners = maxRunners → s.waiting.length = 0

end State

lemma takeJob_perm {id : Nat} {jobs rest : List Job} {task : Task}
    (h : takeJob id jobs = some (task, rest)) : jobs.Perm ((id, task) :: rest) := by
  induction jobs generalizing rest with
  | nil => cases h
  | cons job jobs ih =>
    rw [takeJob] at h
    split at h
    next hid =>
      obtain ⟨rfl, rfl⟩ := Prod.mk.inj (some.inj h)
      subst hid
      exact .refl _
    next =>
      obtain ⟨r, hr, he⟩ := map_eq_some_iff.1 h
      obtain ⟨rfl, rfl⟩ := Prod.mk.inj he
      exact ((ih hr).cons job).trans (.swap _ _ _)

lemma takeJob_none {id : Nat} {jobs : List Job} (h : takeJob id jobs = none) : ∀ job ∈ jobs,
    job.1 ≠ id := by
  induction jobs with
  | nil => simp
  | cons job jobs ih =>
    rw [takeJob] at h
    split at h
    next => cases h
    next hid => simpa [hid] using ih (by simpa using h)

namespace State

variable {s : State}

lemma Manned.served (h : s.Manned) : s.Served := by
  intro hp he
  have hpos := length_pos_of_ne_nil hp
  have hready : s.ready ≠ [] ↔ 0 < s.ready.length := length_pos_iff.symm
  rw [hready]
  rcases h.enough with hle | ⟨hn, hpark, -⟩ | ⟨hlive, hpark⟩
  · omega
  · exact .inr (.inr (.inl ⟨by cases hb : s.notifying <;> simp_all, hpark⟩))
  · have hw := h.permitted hlive
    unfold liveRunners at hlive
    omega

lemma Manned.wakeOne (h : s.Manned) (n : Bool) (_ : n.toNat ≤ s.notifying.toNat) :
    ({ s with notifying := n }.wakeOne).Manned := by
  obtain ⟨he, hm, hp⟩ := h
  unfold State.wakeOne
  simp only [liveRunners] at he hm hp
  dsimp only
  split
  next hpos =>
    constructor <;> simp only [liveRunners] <;> omega
  next hpos =>
    constructor <;> simp only [liveRunners] <;> omega

lemma Manned.queue (h : s.Manned) (hn : s.notifying = false) (hw : s.woken = 0)
    (hp : maxRunners ≤ s.liveRunners + 1 → s.waiting = []) (id : Nat) (task : Task) :
    (s.queue id task true).Manned := by
  obtain ⟨he, hm, hp'⟩ := h
  rw [← length_eq_zero_iff] at hp
  unfold State.queue
  simp only [liveRunners, idleRunners, hn, Bool.toNat_false, and_true] at he hm hp hp' ⊢
  split
  all_goals
    constructor <;> simp only [liveRunners, length_append, length_singleton, Bool.toNat_true] <;>
      omega

lemma Manned.take (he : s.pending.length ≤ s.looping + s.woken + 1 ∨
      0 < s.notifying.toNat ∧ 0 < s.parked ∧ s.pending.length ≤ s.looping + s.woken + 2 ∨
      s.liveRunners + 1 = maxRunners ∧ s.parked = 0)
    (hm : s.liveRunners + 1 ≤ maxRunners)
    (hp : s.liveRunners + 1 = maxRunners → s.waiting.length = 0)
    (hj : s.liveRunners + 1 = maxRunners → ∀ job ∈ s.pending.head?, job.2.permits = false) :
    s.take.Manned := by
  unfold State.take
  simp only [liveRunners] at he hm hp hj
  cases hpend : s.pending with
  | nil =>
    constructor <;> simp only [liveRunners, length_nil] <;> omega
  | cons job rest =>
    simp only [hpend, length_cons, head?_cons, mem_def, some.injEq, forall_eq'] at he hj
    dsimp only
    split
    next hperm =>
      simp only [hperm, Bool.true_eq_false, imp_false] at hj
      constructor <;> simp only [liveRunners, length_cons] <;> omega
    next =>
      constructor <;> simp only [liveRunners, length_cons] <;> omega

lemma Manned.step (h : s.Manned) (op : Op) (hg : s.Unhurried op) : (s.step op).Manned := by
  have ⟨he, hm, hp⟩ := h
  cases op with
  | schedule | cancel | sweep => exact ⟨he, hm, hp⟩
  | fire now spawned =>
    obtain ⟨hw, rfl, hp⟩ := hg
    simp only [State.step, State.fire]
    split
    next => exact h
    next hn =>
      split
      next => exact h
      next due id heap _ =>
        split
        next => exact ⟨he, hm, h.permitted⟩
        next task tasks _ =>
          split
          next => exact h
          next =>
            split
            next => exact ⟨he, hm, h.permitted⟩
            next =>
              exact Manned.queue (s := { s with heap, tasks }) ⟨he, hm,
                h.permitted⟩ (by simpa using hn) hw
                hp _ _
  | notify =>
    simp only [State.step]
    split
    next => exact h.wakeOne false (Nat.zero_le _)
    next => exact h
  | wake => exact h.wakeOne s.notifying le_rfl
  | take fromWait =>
    cases fromWait
    all_goals
      simp only [State.step]
      split
      next hpos =>
        have hlive := hg
        simp only [Unhurried, liveRunners] at hlive he hm hp
        apply Manned.take
        all_goals simp only [liveRunners]
        · omega
        · omega
        · omega
        · exact fun hl => hlive (by omega)
      next => exact h
  | acquire id free =>
    simp only [State.step]
    split
    next => exact h
    next task waiting ht =>
      have hlen := (takeJob_perm ht).length_eq
      simp at hlen
      simp only [liveRunners] at he hm hp
      split
      next =>
        constructor <;> simp only [liveRunners, length_cons] <;> omega
      next =>
        split
        next =>
          constructor <;> simp only [liveRunners, resolve] <;> omega
        next => exact h
  | start id =>
    simp only [State.step]
    split
    next => exact h
    next task ready ht =>
      have hlen := (takeJob_perm ht).length_eq
      simp at hlen
      simp only [liveRunners] at he hm hp
      constructor <;> simp only [liveRunners, length_cons] <;> omega
  | finish id res now =>
    simp only [State.step]
    split
    next => exact h
    next task executing ht =>
      have hlen := (takeJob_perm ht).length_eq
      simp at hlen
      simp only [liveRunners] at he hm hp
      simp only [finishRun]
      split
      all_goals
        split
        all_goals
          constructor <;> simp only [liveRunners, resolve, rearm] <;> omega

/-- In every run in which nothing falls due at a bad time, no due task stays behind. -/
theorem served_of_unhurried {ops : List Op} (h : EachStep State.step Unhurried .init ops) :
    Along State.step Served .init ops :=
  along_of_invariant (fun _ => Manned.served) (fun _ op hs hg => hs.step op hg)
    ⟨.inl (Nat.zero_le _), Nat.zero_le _, fun _ => rfl⟩ h

def oneRun : List Op :=
  [.schedule 0 0 none false, .fire 0 true, .notify, .take false, .start 0, .finish 0 (some false) 0]

theorem served_oneRun : EachStep State.step Unhurried .init oneRun ∧
    Along State.step Served .init oneRun :=
  have h : EachStep State.step Unhurried .init oneRun :=
    ⟨trivial, ⟨rfl, rfl, fun h => absurd h (by decide)⟩, trivial, fun h => absurd h (by decide),
      trivial,
      trivial, trivial⟩
  ⟨h, served_of_unhurried h⟩

/-- Its runner is parked, and two more fall due before it is back. -/
def burst : List Op :=
  oneRun ++ [.take false, .schedule 0 0 none false, .schedule 0 0 none false, .fire 0 true, .notify,
    .fire 0 true, .notify, .take true, .start 1]

/-- The third stays in the queue while the second runs, and there is no other runner. -/
theorem burst_unserved : ¬ Along State.step Served .init burst := by
  intro h
  have hlast : (burst.foldl State.step .init).Served := h.2.2.2.2.2.2.2.2.2.2.2.2.2.2.2
  have := hlast (by decide) (by decide)
  revert this
  decide

/-! ## Every schedule is in its place -/

def running (s : State) : List Job := s.waiting ++ s.ready ++ s.executing

def InTime : List Event → Prop
  | [] => True
  | .started id :: log => .cancelled id ∉ log ∧ InTime log
  | _ :: log => InTime log

structure Kept (s : State) : Prop where
  /-- An unfinished schedule is waiting, pending or running, and only one of these, once. -/
  onePlace : ∀ id < s.nextId, id ∉ s.finished →
    (s.tasks.map Prod.fst).count id + (s.pending.map Prod.fst).count id +
      (s.running.map Prod.fst).count id = 1
  heaped : ∀ job ∈ s.tasks, (job.2.runAt, job.1) ∈ s.heap
  notTwice : (s.running.map Prod.fst).Nodup
  oneResult : ∀ id, s.log.count (.sent id) ≤ 1
  inTime : InTime s.log

/-- No schedule is cancelled between falling due and the start of its body. -/
def Undisturbed (s : State) : Op → Prop
  | .cancel id => ∀ job ∈ s.pending ++ s.waiting ++ s.ready, job.1 ≠ id
  | _ => True

def places (s : State) (id : Nat) : Nat :=
  (s.tasks.map Prod.fst).count id + (s.pending.map Prod.fst).count id +
    (s.running.map Prod.fst).count id + s.finished.count id

/-- The invariant; a schedule of `out` has been taken out of its place. -/
structure Placed (s : State) (out : List Nat) : Prop where
  places : ∀ n, s.places n + out.count n = if n < s.nextId then 1 else 0
  heaped : ∀ job ∈ s.tasks, (job.2.runAt, job.1) ∈ s.heap
  sent : ∀ id, s.log.count (.sent id) ≤ s.finished.count id
  due : ∀ job ∈ s.pending ++ s.waiting ++ s.ready, .cancelled job.1 ∉ s.log
  inTime : InTime s.log

lemma Placed.kept (h : s.Placed []) : s.Kept := by
  have hone : ∀ id, s.places id ≤ 1 := fun id => by
    have := h.places id
    split at this <;> omega
  refine ⟨fun id hid hf => ?_, h.heaped, nodup_iff_count_le_one.2 fun id => ?_, fun id => ?_,
    h.inTime⟩
  · have := h.places id
    rw [if_pos hid, State.places, count_eq_zero_of_not_mem hf, count_nil] at this
    exact this
  · have := hone id
    rw [State.places] at this
    omega
  · have := hone id
    rw [State.places] at this
    exact (h.sent id).trans (by omega)

lemma count_takeJob {id : Nat} {jobs rest : List Job} {task : Task}
    (h : takeJob id jobs = some (task, rest)) (n : Nat) :
    (jobs.map Prod.fst).count n = (rest.map Prod.fst).count n + if id = n then 1 else 0 := by
  rw [((takeJob_perm h).map Prod.fst).count_eq, map_cons, count_cons]
  simp

lemma Placed.resolve {id : Nat} (h : s.Placed [id]) : (s.resolve id).Placed [] := by
  refine ⟨fun n => ?_, h.heaped, fun n => ?_, ?_, h.inTime⟩
  · change _ = if n < s.nextId then 1 else 0
    rw [← h.places n]
    simp only [State.places, State.resolve, running, count_cons, count_nil]
    omega
  · have := h.sent n
    simp only [State.resolve, count_cons, beq_iff_eq, Event.sent.injEq]
    omega
  · simpa [State.resolve] using h.due

lemma mem_pushHeap {e e' : Nat × Nat} {heap : List (Nat × Nat)} :
    e ∈ pushHeap e' heap ↔ e = e' ∨ e ∈ heap := mem_orderedInsert _

lemma Placed.fire (h : s.Placed []) (now : Nat) (spawned : Bool) :
    (s.fire now spawned).Placed [] := by
  obtain ⟨hp, hh, hs, hd, ht⟩ := h
  unfold State.fire
  split
  next => exact ⟨hp, hh, hs, hd, ht⟩
  next due id heap hheap =>
    rw [hheap] at hh
    split
    next hnone =>
      -- a stale entry is no waiting schedule's
      refine ⟨hp, fun job hjob => ?_, hs, hd, ht⟩
      have hne := takeJob_none hnone job hjob
      simpa [hne] using hh job hjob
    next task tasks hsome =>
      have hcount := count_takeJob hsome
      have hmem := fun job => (takeJob_perm hsome).mem_iff (a := job)
      have hheap' : ∀ job ∈ tasks, (job.2.runAt, job.1) ∈ heap := by
        intro job hjob
        have hne : job.1 ≠ id := by
          intro heq
          have h1 := hcount id
          have h2 := hp id
          have h3 := count_pos_iff.2 (mem_map_of_mem (f := Prod.fst) hjob)
          rw [heq] at h3
          simp only [State.places] at h2
          split at h2 <;> simp at h1 <;> omega
        simpa [hne] using hh job ((hmem job).2 (by simp [hjob]))
      split
      next => exact ⟨hp, by rwa [hheap], hs, hd, ht⟩
      next =>
        split
        next =>
          refine Placed.resolve ⟨fun n => ?_, hheap', hs, hd, ht⟩
          rw [← hp n]
          simp only [State.places, running, hcount n, count_cons, count_nil, beq_iff_eq]
          omega
        next hc =>
          refine ⟨fun n => ?_, hheap', hs, ?_, ht⟩
          · change _ = if n < s.nextId then 1 else 0
            rw [← hp n]
            simp only [State.places, State.queue, running, hcount n, map_append, count_append,
              map_cons, map_nil, count_cons, count_nil, beq_iff_eq]
            omega
          · intro job hjob
            have hjob : job ∈ s.pending ++ s.waiting ++ s.ready ∨ job = (id, task) := by
              simp [State.queue] at hjob ⊢
              tauto
            rcases hjob with hjob | rfl
            · exact hd job hjob
            · simpa [State.queue, isCancelled] using hc

lemma Placed.take (h : s.Placed []) : s.take.Placed [] := by
  obtain ⟨hp, hh, hs, hd, ht⟩ := h
  unfold State.take
  split
  next => exact ⟨hp, hh, hs, hd, ht⟩
  next job pending hpend =>
    split
    all_goals
      refine ⟨fun n => ?_, hh, hs, ?_, ht⟩
      · change _ = if n < s.nextId then 1 else 0
        rw [← hp n]
        simp only [State.places, running, hpend, map_append, count_append, map_cons, count_cons]
        omega
      · rw [hpend] at hd
        simp only [cons_append, mem_append, mem_cons] at hd ⊢
        exact fun j hj => hd j (by tauto)

lemma Placed.finishRun {id : Nat} (h : s.Placed [id]) (task : Task) (res : Option Bool)
    (now : Nat) :
    (s.finishRun id task res now).Placed [] := by
  have hresolve := h.resolve
  obtain ⟨hp, hh, hs, hd, ht⟩ := h
  unfold State.finishRun
  split
  next =>
    split
    next => exact hresolve
    next =>
      refine ⟨hresolve.places, hh, fun n => (hs n).trans ?_, hd, ht⟩
      exact count_le_count_cons
  next period fixedRate _ =>
    split
    next => exact hresolve
    next =>
      generalize nextRun task.runAt period now fixedRate = next
      refine ⟨fun n => ?_, fun job hjob => ?_, hs, hd, ht⟩
      · change _ = if n < s.nextId then 1 else 0
        rw [← hp n]
        simp only [State.places, rearm, running, map_cons, count_cons, count_nil]
        omega
      · simp only [rearm, mem_cons] at hjob
        rw [rearm, mem_pushHeap]
        rcases hjob with rfl | hjob
        · exact .inl rfl
        · exact .inr (hh job hjob)

lemma count_sweep (jobs : List Job) (p : Job → Bool) (n : Nat) :
    ((jobs.filter fun j => !p j).map Prod.fst).count n + ((jobs.filter p).map Prod.fst).count n =
      (jobs.map Prod.fst).count n := by
  rw [← ((filter_append_perm p jobs).map Prod.fst).count_eq, map_append, count_append]
  exact Nat.add_comm _ _

lemma inTime_sent (ids : List Nat) {log : List Event} (h : InTime log) :
    InTime (ids.map .sent ++ log) := by
  induction ids with
  | nil => exact h
  | cons id ids ih => exact ih

lemma Placed.sweep (h : s.Placed []) : (s.step .sweep).Placed [] := by
  obtain ⟨hp, hh, hs, hd, ht⟩ := h
  refine ⟨fun n => ?_, fun job hjob => hh job (mem_filter.1 hjob).1, fun n => ?_, ?_,
    inTime_sent _ ht⟩
  · change _ = if n < s.nextId then 1 else 0
    rw [← hp n]
    have := count_sweep s.tasks (fun job => s.isCancelled job.1) n
    simp [State.places, State.step, running]
    omega
  · have := hs n
    have hcount := count_map_of_injective
      ((s.tasks.filter fun job => s.isCancelled job.1).map Prod.fst) Event.sent
      (fun _ _ => Event.sent.inj) n
    simp only [State.step, count_append, hcount]
    omega
  · simpa [State.step] using hd

lemma Placed.step (h : s.Placed []) (op : Op) (hg : s.Undisturbed op) : (s.step op).Placed [] := by
  have ⟨hp, hh, hs, hd, ht⟩ := h
  cases op with
  | schedule now delay period permits =>
    refine ⟨fun n => ?_, fun job hjob => ?_, hs, hd, ht⟩
    · have hnext : (if n < s.nextId + 1 then 1 else 0) =
          (if n < s.nextId then 1 else 0) + if s.nextId = n then 1 else 0 := by
        split_ifs <;> omega
      change _ = if n < s.nextId + 1 then 1 else 0
      rw [hnext, ← hp n]
      simp only [State.places, State.step, running, map_cons, count_cons, beq_iff_eq]
      omega
    · simp only [State.step, mem_cons] at hjob
      rw [State.step, mem_pushHeap]
      rcases hjob with rfl | hjob
      · exact .inl rfl
      · exact .inr (hh job hjob)
  | cancel id =>
    refine ⟨hp, hh, ?_, fun job hjob => ?_, ht⟩
    · simpa [State.step] using hs
    · have hne := hg job hjob
      simpa [State.step, hne] using hd job hjob
  | sweep => exact h.sweep
  | fire now spawned =>
    simp only [State.step]
    split
    next => exact h
    next => exact h.fire now spawned
  | notify =>
    simp only [State.step, State.wakeOne]
    split
    next => split <;> exact ⟨hp, hh, hs, hd, ht⟩
    next => exact h
  | wake =>
    simp only [State.step, State.wakeOne]
    split <;> exact ⟨hp, hh, hs, hd, ht⟩
  | take fromWait =>
    cases fromWait
    all_goals
      simp only [State.step]
      split
      next => exact Placed.take ⟨hp, hh, hs, hd, ht⟩
      next => exact h
  | acquire id free =>
    simp only [State.step]
    split
    next => exact h
    next task waiting hsome =>
      have hcount := count_takeJob hsome
      have hmem := fun job => (takeJob_perm hsome).mem_iff (a := job)
      split
      next =>
        refine ⟨fun n => ?_, hh, hs, fun job hjob => hd job ?_, ht⟩
        · change _ = if n < s.nextId then 1 else 0
          rw [← hp n]
          simp only [State.places, running, map_append, count_append, hcount n, map_cons,
            count_cons, beq_iff_eq]
          omega
        · simp only [mem_append, mem_cons, hmem] at hjob ⊢
          tauto
      next =>
        split
        next =>
          refine Placed.resolve ⟨fun n => ?_, hh, hs, fun job hjob => hd job ?_, ht⟩
          · rw [← hp n]
            simp only [State.places, running, map_append, count_append, hcount n, count_cons,
              count_nil, beq_iff_eq]
            omega
          · simp only [mem_append, hmem, mem_cons] at hjob ⊢
            tauto
        next => exact h
  | start id =>
    simp only [State.step]
    split
    next => exact h
    next task ready hsome =>
      have hcount := count_takeJob hsome
      have hmem := fun job => (takeJob_perm hsome).mem_iff (a := job)
      refine ⟨fun n => ?_, hh, ?_, fun job hjob => ?_, ?_, ht⟩
      · change _ = if n < s.nextId then 1 else 0
        rw [← hp n]
        simp only [State.places, running, map_append, count_append, hcount n, map_cons, count_cons,
          beq_iff_eq]
        omega
      · simpa using hs
      · have := hd job (by
          simp only [mem_append, hmem, mem_cons] at hjob ⊢
          tauto)
        simpa using this
      · exact hd (id, task) (by simp [hmem])
  | finish id res now =>
    simp only [State.step]
    split
    next => exact h
    next task executing hsome =>
      have hcount := count_takeJob hsome
      refine Placed.finishRun (s := { s with executing, looping := s.looping + 1 })
        ⟨fun n => ?_, hh, hs, hd, ht⟩ task res now
      rw [← hp n]
      simp only [State.places, running, map_append, count_append, hcount n, count_cons, count_nil,
        beq_iff_eq]
      omega

/-- In every run in which no schedule is cancelled between falling due and its start, the books are
kept. -/
theorem kept_of_undisturbed {ops : List Op} (h : EachStep State.step Undisturbed .init ops) :
    Along State.step Kept .init ops :=
  along_of_invariant (fun _ => Placed.kept) (fun _ op hs hg => hs.step op hg)
    ⟨fun _ => rfl, by simp [init], fun _ => Nat.zero_le _, by simp [init], trivial⟩ h

/-- A second schedule is cancelled before it falls due. -/
def thenCancelled : List Op := oneRun ++ [.schedule 0 5 none false, .cancel 1, .fire 5 true]

theorem kept_thenCancelled : EachStep State.step Undisturbed .init thenCancelled ∧
    Along State.step Kept .init thenCancelled :=
  have h : EachStep State.step Undisturbed .init thenCancelled :=
    ⟨trivial, trivial, trivial, trivial, trivial, trivial, trivial, fun _ hjob => (nomatch hjob),
      trivial, trivial⟩
  ⟨h, kept_of_undisturbed h⟩

def cancelledDue : List Op :=
  [.schedule 0 0 none false, .fire 0 true, .cancel 0, .take false, .start 0]

theorem cancelledDue_starts : ¬ Along State.step Kept .init cancelledDue := by
  intro h
  have hlast : (cancelledDue.foldl State.step .init).Kept := h.2.2.2.2.2
  have hlog : (cancelledDue.foldl State.step .init).log = [.started 0, .cancelled 0] := by decide
  have := hlast.inTime
  rw [hlog] at this
  exact this.1 (by simp)

end State
end RustCfml.Schedule
