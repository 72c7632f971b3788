import RustCfml.Lib.Run

/-!
# The executor pool

A bounded queue and up to `maxConcurrent` workers. A submission that finds the queue full is dealt
with by the pool's policy; any other is queued, and **a worker is started for it only after it has
been queued**.
-/

namespace RustCfml.Async

open StateMachine

/-- What a submission does that finds the queue full. -/
inductive RejectPolicy where
  | discard
  | discardOldest
  | abort
  | callerRuns
deriving DecidableEq

abbrev TaskId := Nat

inductive ThreadResult (R : Type) where
  | completed (r : R)
  | discarded
  | terminated (reason : String)
  | rejected (message : String)

/-- Where a worker thread is in its loop. -/
inductive Worker where
  | idle
  | holding (t : TaskId)
  | running (t : TaskId)

namespace Worker

def task : Worker → List TaskId
  | idle => []
  | holding t => [t]
  | running t => [t]

def isRunning : Worker → Bool
  | running _ => true
  | _ => false

def weight : Worker → Nat
  | idle => 1
  | holding _ => 3
  | running _ => 2

end Worker

structure Config where
  maxConcurrent : Nat
  queueCapacity : Nat
  policy : RejectPolicy
  /-- Whether there is a `spawn_fn`. -/
  spawner : Bool
  max_pos : 0 < maxConcurrent
  capacity_pos : 0 < queueCapacity

def Config.newValue (maxConcurrent queueCapacity : Nat) (policy : RejectPolicy) (spawner : Bool) :
    Config := ⟨max maxConcurrent 1, max queueCapacity 1, policy, spawner, by omega, by omega⟩

/-- The pool's lock-protected state, with what has been sent to the futures. -/
structure Pool (R : Type) where
  submitted : Nat
  queue : List TaskId
  liveWorkers : Nat
  workers : List Worker
  /-- Bodies running on the threads that submitted them. -/
  callers : List TaskId
  cancelled : List TaskId
  resolved : List (TaskId × ThreadResult R)

inductive Op (R : Type) where
  | submit
  /-- The next thing the worker does; `result` is what a body that ends has produced. -/
  | worker (i : Nat) (result : Option R)
  | caller (i : Nat) (result : Option R)
  | cancel (t : TaskId)
  /-- `shutdown()`, or `shutdownNow()` -/
  | shutdown (dropQueued : Bool)

namespace Pool

variable {R : Type}

def init : Pool R := ⟨0, [], 0, [], [], [], []⟩

def send (σ : Pool R) (t : TaskId) (r : ThreadResult R) : Pool R :=
  { σ with resolved := σ.resolved ++ [(t, r)] }

/-- The queue takes the task; a worker is started while there are fewer than allowed. -/
def enqueue (c : Config) (σ : Pool R) (t : TaskId) : Pool R :=
  let σ := { σ with queue := σ.queue ++ [t] }
  if σ.liveWorkers < c.maxConcurrent then
    { σ with liveWorkers := σ.liveWorkers + 1, workers := σ.workers ++ [.idle] }
  else σ

/-- Where the queue is full the policy decides. -/
def submit (c : Config) (σ : Pool R) : Pool R :=
  let t := σ.submitted
  let σ := { σ with submitted := t + 1 }
  if c.queueCapacity ≤ σ.queue.length then
    match c.policy with
    | .discard => σ.send t .discarded
    | .discardOldest =>
      match σ.queue with
      | [] => σ.enqueue c t
      | old :: queue => ({ σ with queue }.send old .discarded).enqueue c t
    | .abort => σ.send t (.rejected "Task rejected: executor queue is full")
    | .callerRuns =>
      if c.spawner then { σ with callers := σ.callers ++ [t] }
      else σ.send t (.terminated "No thread spawner available")
  else σ.enqueue c t

def bodyResult : Option R → ThreadResult R
  | some r => .completed r
  | none => .terminated "Task produced no result"

def setWorker (σ : Pool R) (i : Nat) (w : Worker) : Pool R :=
  { σ with workers := σ.workers.set i w }

/-- Take a task, run it, send its result; end where there is none. -/
def workerStep (c : Config) (σ : Pool R) (i : Nat) (result : Option R) : Worker → Pool R
  | .idle =>
    match σ.queue with
    | t :: queue => { σ with queue }.setWorker i (.holding t)
    | [] => { σ with liveWorkers := σ.liveWorkers - 1, workers := σ.workers.eraseIdx i }
  | .holding t =>
    if t ∈ σ.cancelled then (σ.send t .discarded).setWorker i .idle
    else if c.spawner then σ.setWorker i (.running t)
    else (σ.send t (.terminated "No thread spawner available")).setWorker i .idle
  | .running t => (σ.send t (bodyResult result)).setWorker i .idle

def shutdownAll (σ : Pool R) (dropQueued : Bool) : Pool R :=
  if dropQueued then
    { σ with
      queue := []
      cancelled := σ.cancelled ++ σ.queue
      resolved := σ.resolved ++ σ.queue.map fun t => (t, .discarded) }
  else σ

def step (c : Config) (σ : Pool R) : Op R → Pool R
  | .submit => σ.submit c
  | .worker i result =>
    match σ.workers[i]? with
    | some w => σ.workerStep c i result w
    | none => σ
  | .caller i result =>
    match σ.callers[i]? with
    | some t => { σ with callers := σ.callers.eraseIdx i }.send t (bodyResult result)
    | none => σ
  | .cancel t => { σ with cancelled := t :: σ.cancelled }
  | .shutdown dropQueued => σ.shutdownAll dropQueued

def running (σ : Pool R) : Nat := σ.workers.countP Worker.isRunning

def settled (σ : Pool R) : List TaskId := σ.resolved.map Prod.fst

/-- Queued, with a worker, or run by the caller. -/
def pending (σ : Pool R) : List TaskId := σ.queue ++ σ.workers.flatMap Worker.task ++ σ.callers

/-- A bound on the number of steps that workers and callers can still take. -/
def work (σ : Pool R) : Nat :=
  3 * σ.queue.length + (σ.workers.map Worker.weight).sum + σ.callers.length

/-- In the state before a step: no more than the allowed number of queued tasks run; every
submission is resolved once or else pending, and no longer pending when nobody has anything left to
do, which is after `work` steps at the latest; a queued task has a worker; and a submission that is
not queued finds every worker running and the queue full. -/
structure Promised (c : Config) (σ : Pool R) (op : Op R) : Prop where
  concurrency : σ.running ≤ c.maxConcurrent
  once : (σ.settled ++ σ.pending).Perm (List.range σ.submitted)
  resolved : σ.workers = [] → σ.callers = [] → σ.settled.Perm (List.range σ.submitted)
  worker_progress : ∀ i result, i < σ.workers.length → (σ.step c (.worker i result)).work < σ.work
  caller_progress : ∀ i result, i < σ.callers.length → (σ.step c (.caller i result)).work < σ.work
  served : σ.queue ≠ [] → σ.workers ≠ []
  rejection : op = .submit → c.queueCapacity ≤ σ.queue.length →
    σ.running = c.maxConcurrent ∧ σ.queue.length = c.queueCapacity

/-- A submission that finds the queue full finds `live_workers` at its bound, and no worker that is
between two tasks or has not yet taken its first. -/
def Saturated (c : Config) (σ : Pool R) (op : Op R) : Prop :=
  op = .submit → c.queueCapacity ≤ σ.queue.length →
    σ.liveWorkers = c.maxConcurrent ∧ ∀ w ∈ σ.workers, w.isRunning = true

end Pool

end RustCfml.Async
