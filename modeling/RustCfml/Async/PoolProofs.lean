import RustCfml.Async.ExecutorPool

/-!
# What the pool keeps, and what it does not

`Pool.promised_iff_saturated`: a run keeps every promise exactly when each submission that found
the queue full found all workers at work. All promises but the last hold in every run.
-/

namespace RustCfml.Async
namespace Pool

open StateMachine List

variable {R : Type} {c : Config} {σ : Pool R}

structure Sound (c : Config) (σ : Pool R) : Prop where
  live : σ.liveWorkers = σ.workers.length
  bound : σ.liveWorkers ≤ c.maxConcurrent
  capacity : σ.queue.length ≤ c.queueCapacity
  once : (σ.settled ++ σ.pending).Perm (List.range σ.submitted)
  served : σ.queue ≠ [] → σ.workers ≠ []

lemma sound_init (c : Config) : Sound c (init : Pool R) :=
  ⟨rfl, Nat.zero_le _, Nat.zero_le _, Perm.refl _, fun h => absurd rfl h⟩

/-! ## The bookkeeping, as counts -/

def tally (σ : Pool R) (t : TaskId) : Nat :=
  σ.settled.count t + σ.queue.count t + (σ.workers.flatMap Worker.task).count t + σ.callers.count t

lemma once_iff {σ : Pool R} : (σ.settled ++ σ.pending).Perm (range σ.submitted) ↔
    ∀ t, σ.tally t = (range σ.submitted).count t := by
  rw [perm_iff_count]
  refine forall_congr' fun t => ?_
  rw [tally, pending, count_append, count_append, count_append]
  omega

@[simp] lemma settled_send (σ : Pool R) (t : TaskId) (r : ThreadResult R) :
    (σ.send t r).settled = σ.settled ++ [t] := by
  simp [settled, send]

@[simp] lemma queue_send (σ : Pool R) (t : TaskId) (r : ThreadResult R) :
    (σ.send t r).queue = σ.queue := rfl

variable {i : Nat} {w : Worker} {ws : List Worker}

section

variable {α : Type} {l : List α} {a : α}

lemma perm_eraseIdx (hi : l[i]? = some a) : l.Perm (a :: l.eraseIdx i) := by
  obtain ⟨h, rfl⟩ := List.getElem?_eq_some_iff.1 hi
  exact (getElem_cons_eraseIdx_perm h).symm

lemma perm_set (hi : l[i]? = some a) (b : α) : (l.set i b).Perm (b :: l.eraseIdx i) :=
  set_perm_cons_eraseIdx (List.getElem?_eq_some_iff.1 hi).1 b

end

lemma count_set (hi : ws[i]? = some w) (w' : Worker)
    (t : TaskId) : ((ws.set i w').flatMap Worker.task).count t + w.task.count t =
      (ws.flatMap Worker.task).count t + w'.task.count t := by
  rw [((perm_set hi w').flatMap_right _).count_eq, ((perm_eraseIdx hi).flatMap_right _).count_eq,
    flatMap_cons, flatMap_cons, count_append, count_append]
  omega

lemma count_eraseIdx {ts : List TaskId} {t : TaskId} (hi : ts[i]? = some t) (x : TaskId) :
    (ts.eraseIdx i).count x + [t].count x = ts.count x := by
  simp only [(perm_eraseIdx hi).count_eq x, count_cons, count_nil, Nat.zero_add]

/-! ## Submissions -/

lemma tally_enqueue (σ : Pool R) (t x : TaskId) :
    (σ.enqueue c t).tally x = σ.tally x + [t].count x := by
  unfold enqueue tally settled
  dsimp only
  split
  · simp [flatMap_append, flatMap_cons, flatMap_nil, Worker.task]
    omega
  · simp
    omega

lemma tally_send (σ : Pool R) (t x : TaskId) (r : ThreadResult R) :
    (σ.send t r).tally x = σ.tally x + [t].count x := by
  rw [tally, settled_send, tally, count_append, send]
  dsimp only
  omega

lemma Sound.enqueue (hlive : σ.liveWorkers = σ.workers.length)
    (hbound : σ.liveWorkers ≤ c.maxConcurrent) (hroom : σ.queue.length < c.queueCapacity)
    {t : TaskId} (hcount : ∀ x, σ.tally x + [t].count x = (range σ.submitted).count x) :
    Sound c (σ.enqueue c t) := by
  have honce : ((σ.enqueue c t).settled ++ (σ.enqueue c t).pending).Perm
      (range (σ.enqueue c t).submitted) := by
    have hsub : (σ.enqueue c t).submitted = σ.submitted := by
      unfold Pool.enqueue
      dsimp only
      split <;> rfl
    exact once_iff.2 fun x => by rw [tally_enqueue, hsub, hcount]
  unfold Pool.enqueue at honce ⊢
  dsimp only at honce ⊢
  have hpos := c.max_pos
  by_cases hlt : σ.liveWorkers < c.maxConcurrent
  · rw [if_pos hlt] at honce ⊢
    refine ⟨by simp [hlive], hlt, by simp; omega, honce, by simp⟩
  · rw [if_neg hlt] at honce ⊢
    refine ⟨hlive, hbound, by simp; omega, honce, fun _ hnil => ?_⟩
    dsimp only at hnil
    rw [hnil, length_nil] at hlive
    omega

lemma count_range_succ (n x : Nat) : (range (n + 1)).count x = (range n).count x + [n].count x := by
  rw [range_succ, count_append]

lemma Sound.answer (h : Sound c σ) (r : ThreadResult R) :
    Sound c ({ σ with submitted := σ.submitted + 1 }.send σ.submitted r) := by
  refine ⟨h.live, h.bound, h.capacity, once_iff.2 fun x => ?_, h.served⟩
  have hold := once_iff.1 h.once x
  rw [tally_send, tally]
  rw [tally] at hold
  simp only [send, settled, count_range_succ] at hold ⊢
  omega

lemma Sound.submit (h : Sound c σ) : Sound c (σ.submit c) := by
  have hcount (x : TaskId) :
      σ.tally x + [σ.submitted].count x = (range (σ.submitted + 1)).count x := by
    rw [once_iff.1 h.once x, count_range_succ]
  unfold Pool.submit
  dsimp only
  by_cases hfull : c.queueCapacity ≤ σ.queue.length
  · rw [if_pos hfull]
    cases c.policy with
    | discard | abort => exact h.answer _
    | callerRuns =>
      dsimp only
      split
      · refine ⟨h.live, h.bound, h.capacity, once_iff.2 fun x => ?_, h.served⟩
        have := hcount x
        simp [tally, settled] at this ⊢
        omega
      · exact h.answer _
    | discardOldest =>
      cases hq : σ.queue with
      | nil =>
        have hpos := c.capacity_pos
        rw [hq, length_nil] at hfull
        omega
      | cons old queue =>
        have hcap := h.capacity
        rw [hq, length_cons] at hcap
        have hroom : queue.length < c.queueCapacity := hcap
        refine Sound.enqueue
          (σ := { σ with submitted := σ.submitted + 1, queue := queue }.send old .discarded)
          h.live h.bound (by simpa using hroom) fun x => ?_
        have := hcount x
        rw [tally_send]
        simp only [tally, settled, send, hq, count_cons, count_nil] at this ⊢
        omega
  · rw [if_neg hfull]
    exact Sound.enqueue (σ := { σ with submitted := σ.submitted + 1 }) h.live h.bound
      (Nat.not_le.1 hfull) hcount

lemma Sound.setWorker (h : Sound c σ) {w' : Worker} (hi : σ.workers[i]? = some w)
    {τ : Pool R} (hlive : τ.liveWorkers = σ.liveWorkers) (hworkers : τ.workers = σ.workers)
    (hcallers : τ.callers = σ.callers) (hsub : τ.submitted = σ.submitted)
    (hqueue : τ.queue.length ≤ σ.queue.length)
    (hmoved : ∀ x, τ.settled.count x + τ.queue.count x + w'.task.count x =
      σ.settled.count x + σ.queue.count x + w.task.count x) : Sound c (τ.setWorker i w') := by
  refine ⟨?_, hlive ▸ h.bound, Nat.le_trans hqueue h.capacity, once_iff.2 fun x => ?_,
    fun _ hnil => ?_⟩
  · simp [Pool.setWorker, hlive, hworkers, h.live]
  · have hold := once_iff.1 h.once x
    have hset := count_set hi w' x
    have hx := hmoved x
    simp only [tally, settled, Pool.setWorker, hworkers, hcallers, hsub] at hold hset hx ⊢
    omega
  · have hlen := congrArg length hnil
    rw [Pool.setWorker, length_set, hworkers, length_nil] at hlen
    obtain ⟨hlt, -⟩ := List.getElem?_eq_some_iff.1 hi
    omega

lemma Sound.workerStep (h : Sound c σ) (hi : σ.workers[i]? = some w)
    (result : Option R) : Sound c (σ.workerStep c i result w) := by
  cases w with
  | idle =>
    cases hq : σ.queue with
    | nil =>
      obtain ⟨hlt, -⟩ := List.getElem?_eq_some_iff.1 hi
      have hlive := h.live
      have hbound := h.bound
      have hcap := h.capacity
      simp only [Pool.workerStep, hq]
      refine ⟨?_, ?_, ?_, once_iff.2 fun x => ?_, ?_⟩
      · simp only [length_eraseIdx_of_lt hlt]
        omega
      · dsimp only
        omega
      · simp
      · have hold := once_iff.1 h.once x
        have herase := ((perm_eraseIdx hi).flatMap_right Worker.task).count_eq x
        simpa [tally, settled, herase, Worker.task, hq] using hold
      · simp
    | cons t queue =>
      simp only [Pool.workerStep, hq]
      refine h.setWorker hi rfl rfl rfl rfl (by simp [hq]) fun x => ?_
      simp only [settled, hq, Worker.task, count_cons, count_nil]
      omega
  | holding t =>
    simp only [Pool.workerStep]
    split
    · refine h.setWorker hi rfl rfl rfl rfl le_rfl fun x => ?_
      simp [settled_send, queue_send, Worker.task]
      omega
    · split
      · exact h.setWorker hi rfl rfl rfl rfl le_rfl fun x => rfl
      · refine h.setWorker hi rfl rfl rfl rfl le_rfl fun x => ?_
        simp [settled_send, queue_send, Worker.task]
        omega
  | running t =>
    refine h.setWorker hi rfl rfl rfl rfl le_rfl fun x => ?_
    simp [settled_send, queue_send, Worker.task]
    omega

lemma Sound.step (h : Sound c σ) (op : Op R) : Sound c (σ.step c op) := by
  cases op with
  | submit => exact h.submit
  | worker i result =>
    simp only [Pool.step]
    split
    next w hi => exact h.workerStep hi result
    next => exact h
  | caller i result =>
    simp only [Pool.step]
    split
    next t hi =>
      refine ⟨h.live, h.bound, h.capacity, once_iff.2 fun x => ?_, h.served⟩
      have hold := once_iff.1 h.once x
      have herase := count_eraseIdx hi x
      rw [tally_send]
      simp only [tally, settled, send] at hold ⊢
      omega
    next => exact h
  | cancel t => exact ⟨h.live, h.bound, h.capacity, h.once, h.served⟩
  | shutdown dropQueued =>
    simp only [Pool.step, shutdownAll]
    split
    · refine ⟨h.live, h.bound, Nat.zero_le _, once_iff.2 fun x => ?_, fun hne => absurd rfl hne⟩
      have hold := once_iff.1 h.once x
      have hid : (Prod.fst ∘ fun t : TaskId => (t, (ThreadResult.discarded : ThreadResult R))) =
        id := rfl
      simp [tally, settled, hid, map_id] at hold ⊢
      omega
    · exact h

lemma weight_set (hi : ws[i]? = some w) (w' : Worker) :
    ((ws.set i w').map Worker.weight).sum + w.weight = (ws.map Worker.weight).sum + w'.weight := by
  rw [((perm_set hi w').map _).sum_eq, ((perm_eraseIdx hi).map _).sum_eq, map_cons, map_cons,
    sum_cons, sum_cons]
  omega

lemma work_workerStep (hi : σ.workers[i]? = some w) (result : Option R) :
    (σ.workerStep c i result w).work < σ.work := by
  have hset := weight_set hi
  cases w with
  | idle =>
    cases hq : σ.queue with
    | nil =>
      have herase := ((perm_eraseIdx hi).map Worker.weight).sum_eq
      simp [Pool.workerStep, work, hq, sum_cons, Worker.weight] at herase ⊢
      omega
    | cons t queue =>
      have := hset (.holding t)
      simp [Pool.workerStep, Pool.setWorker, work, hq, Worker.weight] at this ⊢
      omega
  | holding t =>
    have hidle := hset .idle
    have hrun := hset (.running t)
    simp only [Worker.weight] at hidle hrun
    simp only [Pool.workerStep]
    split
    · simp only [Pool.setWorker, send, work]
      omega
    · split
      all_goals
        simp only [Pool.setWorker, send, work]
        omega
  | running t =>
    have hidle := hset .idle
    simp only [Worker.weight] at hidle
    simp only [Pool.workerStep, Pool.setWorker, send, work]
    omega

lemma running_le (σ : Pool R) : σ.running ≤ σ.workers.length := countP_le_length

lemma running_eq_iff (h : Sound c σ) : σ.running = c.maxConcurrent ↔
    σ.liveWorkers = c.maxConcurrent ∧ ∀ w ∈ σ.workers, w.isRunning = true := by
  have hlive := h.live
  have hbound := h.bound
  have hle := running_le σ
  rw [← countP_eq_length (p := Worker.isRunning)]
  unfold running at hle ⊢
  omega

lemma promised_iff (h : Sound c σ) (op : Op R) : Promised c σ op ↔ Saturated c σ op := by
  constructor
  · intro hp hop hfull
    exact (running_eq_iff h).1 (hp.rejection hop hfull).1
  · intro hs
    have hlive := h.live
    have hbound := h.bound
    refine ⟨?_, h.once, fun hw hcallers => ?_, fun i result hi => ?_, fun i result hi => ?_,
      h.served,
      fun hop hfull => ⟨(running_eq_iff h).2 (hs hop hfull), Nat.le_antisymm h.capacity hfull⟩⟩
    · have := running_le σ
      omega
    · -- without workers the queue is empty
      have hqueue : σ.queue = [] := by
        by_contra hne
        exact h.served hne hw
      have hall := h.once
      simpa [pending, hqueue, hw, hcallers] using hall
    · simp only [Pool.step, getElem?_eq_getElem hi]
      exact work_workerStep (getElem?_eq_getElem hi) result
    · simp only [Pool.step, getElem?_eq_getElem hi, work, send, length_eraseIdx_of_lt hi]
      omega

/-- **The pool.** For every pool and every interleaving, all promises are kept at every step exactly
when every submission that finds the queue full finds all workers at work. -/
theorem promised_iff_saturated (c : Config) (ops : List (Op R)) :
    EachStep (Pool.step c) (Promised c) init ops ↔ EachStep (Pool.step c) (Saturated c) init ops :=
  eachStep_congr_of_invariant (I := Sound c) (fun _ op h => ⟨promised_iff h op, h.step op⟩)
    (sound_init c)

end Pool

open StateMachine

def fourWorkers : Config := .newValue 4 1 .discard true

theorem second_submission_discarded :
    let σ : Pool Unit := [.submit, .submit].foldl (Pool.step fourWorkers) .init
    σ.resolved = [(1, .discarded)] ∧ σ.running = 0 ∧
      ¬EachStep (Pool.step fourWorkers)
          (Pool.Promised fourWorkers) .init [.submit, (.submit : Op Unit)] := by
  refine ⟨rfl, rfl, ?_⟩
  rintro ⟨-, h, -⟩
  exact absurd (h.rejection rfl (by decide)).1 (by decide)

end RustCfml.Async
