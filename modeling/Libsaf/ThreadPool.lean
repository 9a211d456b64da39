/-
`saf::ThreadPool`: submitters push tasks under the mutex, and the workers wait
on the condition variable for them.  A worker ends when it leaves `work`.
-/
import Libsaf.Machine
import Mathlib.Data.List.Perm.Basic
import Mathlib.Data.List.Range

namespace Libsaf

/-- Where a worker is in `work`: on its way to the mutex, blocked in the wait,
past the critical section with its task, or out of the function. -/
inductive Worker where
  | lock
  | waiting
  | running (task : Nat)
  | ended
deriving Repr, DecidableEq

/-- The task a worker has taken and not yet executed. -/
def Worker.task : Worker → List Nat
  | .running task => [task]
  | _ => []

/-- Tasks are named by the order in which they were given to `run`. -/
structure ThreadPool where
  stop : Bool
  tasks : List Nat
  workers : List Worker
deriving Repr, DecidableEq

namespace ThreadPool

/-- `notify_one`: the worker the condition variable chose, if one waited. -/
def notifyOne (s : ThreadPool) (woken : Option Nat) : ThreadPool :=
  match woken with
  | some i => { s with workers := s.workers.set i .lock }
  | none => s

/-- `notify_all`. -/
def notifyAll (s : ThreadPool) : ThreadPool :=
  { s with workers := s.workers.map fun worker =>
      if worker = .waiting then .lock else worker }

/-- `start`, with its assertion. -/
def startWorkers (s : ThreadPool) (count : Nat) : Option ThreadPool :=
  if s.workers = [] then
    some { s with workers := List.replicate count .lock }
  else none

/-- The critical section of `work`: the test of the wait, then that of
`_stop`, then the front of the queue. -/
def take (s : ThreadPool) : Worker × ThreadPool :=
  if s.stop = true then (.ended, s)
  else
    match s.tasks with
    | [] => (.waiting, s)
    | task :: tasks => (.running task, { s with tasks := tasks })

end ThreadPool

/-- The pool, how many tasks were given to `run`, those that `run` refused
after a stop, and the tasks executed so far. -/
structure PoolTrace where
  pool : ThreadPool
  submitted : Nat
  refused : List Nat
  executed : List Nat
deriving Repr, DecidableEq

namespace PoolTrace

def start : PoolTrace := ⟨⟨false, [], []⟩, 0, [], []⟩

/-- `run`.  Without workers the caller executes the task itself. -/
def runTask (s : PoolTrace) (woken : Option Nat) : PoolTrace :=
  if s.pool.stop = true then
    { s with
      submitted := s.submitted + 1
      refused := s.refused ++ [s.submitted] }
  else if s.pool.workers = [] then
    { s with
      submitted := s.submitted + 1
      executed := s.executed ++ [s.submitted] }
  else
    { s with
      pool := ThreadPool.notifyOne
        { s.pool with tasks := s.pool.tasks ++ [s.submitted] } woken
      submitted := s.submitted + 1 }

/-- One step of worker `i` in `work`; `none` where it has none. -/
def work (s : PoolTrace) (i : Nat) : Option PoolTrace :=
  match s.pool.workers[i]? with
  | some .lock =>
      let (worker, pool) := s.pool.take
      some { s with
        pool := { pool with workers := pool.workers.set i worker } }
  | some (.running task) =>
      some { s with
        pool := { s.pool with workers := s.pool.workers.set i .ended }
        executed := s.executed ++ [task] }
  | _ => none

/-- Every worker waits or has ended. -/
def Quiescent (s : PoolTrace) : Prop :=
  ∀ worker ∈ s.pool.workers, worker = .waiting ∨ worker = .ended

/-- No task was executed twice, and nothing is left undone when no worker can
go on. -/
def Once (s : PoolTrace) : Prop :=
  s.executed.Nodup ∧
    (s.Quiescent → ∀ task < s.submitted, task ∈ s.executed)

instance (s : PoolTrace) : Decidable s.Quiescent :=
  inferInstanceAs
    (Decidable (∀ worker ∈ s.pool.workers, worker = .waiting ∨ worker = .ended))

instance (s : PoolTrace) : Decidable s.Once :=
  inferInstanceAs (Decidable (_ ∧ _))

end PoolTrace

/-- `run` with the worker that is notified, a step of a worker, the end of a
worker's wait for no reason, and the two parts of `stop`. -/
inductive PoolStep where
  | start (count : Nat)
  | run (woken : Option Nat)
  | work (i : Nat)
  | wake (i : Nat)
  | stop
  | join
deriving Repr, DecidableEq

/-- Exactly a waiting worker is notified, and `join` returns when all workers
have left `work`. -/
def poolMachine : Machine PoolTrace PoolStep where
  enabled s
    | .start _ => s.pool.workers = []
    | .run none => .waiting ∉ s.pool.workers
    | .run (some i) => s.pool.workers[i]? = some .waiting
    | .work i => s.pool.workers[i]?.any fun worker =>
        worker ≠ .waiting ∧ worker ≠ .ended
    | .wake i => s.pool.workers[i]? = some .waiting
    | .stop => True
    | .join => s.pool.stop = true ∧ ∀ worker ∈ s.pool.workers, worker = .ended
  exec s
    | .start count => (s.pool.startWorkers count).map fun pool =>
        { s with pool := pool }
    | .run woken => some (s.runTask woken)
    | .work i => s.work i
    | .wake i => some { s with pool := s.pool.notifyOne (some i) }
    | .stop => some { s with
        pool := ThreadPool.notifyAll { s.pool with stop := true } }
    | .join => some { s with pool := { s.pool with workers := [] } }

/-- The labels of a run without `start` and `stop`. -/
def PoolStep.serves : PoolStep → Bool
  | .run _ | .work _ | .wake _ => true
  | _ => false

def PoolStep.submits : PoolStep → Bool
  | .run _ => true
  | _ => false

instance (s : PoolTrace) (step : PoolStep) :
    Decidable (poolMachine.enabled s step) :=
  match step with
  | .start _ => inferInstanceAs (Decidable (s.pool.workers = []))
  | .run none => inferInstanceAs (Decidable (.waiting ∉ s.pool.workers))
  | .run (some i) => inferInstanceAs
      (Decidable (s.pool.workers[i]? = some .waiting))
  | .work i => inferInstanceAs (Decidable
      ((s.pool.workers[i]?.any fun worker =>
        worker ≠ .waiting ∧ worker ≠ .ended) = true))
  | .wake i => inferInstanceAs (Decidable
      (s.pool.workers[i]? = some .waiting))
  | .stop => isTrue trivial
  | .join => inferInstanceAs (Decidable
      (s.pool.stop = true ∧ ∀ worker ∈ s.pool.workers, worker = .ended))

/-- One worker moves and the others stay where they are. -/
theorem workers_set {workers : List Worker} {i : Nat} {worker : Worker}
    (h : workers[i]? = some worker) (next : Worker) :
    ∃ others, workers.Perm (worker :: others) ∧
      (workers.set i next).Perm (next :: others) := by
  obtain ⟨hi, rfl⟩ := List.getElem?_eq_some_iff.mp h
  exact ⟨workers.eraseIdx i, (List.getElem_cons_eraseIdx_perm hi).symm,
    List.set_perm_cons_eraseIdx hi next⟩

namespace PoolTrace

/-- The tasks between the queue and their execution. -/
def held (s : PoolTrace) : List Nat := s.pool.workers.flatMap Worker.task

/-- Every task is in one place: executed, with a worker, queued or refused. -/
def Accounted (s : PoolTrace) : Prop :=
  (s.executed ++ s.held ++ s.pool.tasks ++ s.refused).Perm
    (List.range s.submitted)

/-- What a worker takes along when it moves. -/
theorem held_set {workers : List Worker} {i : Nat} {worker : Worker}
    (h : workers[i]? = some worker) (next : Worker) :
    (worker.task ++ (workers.set i next).flatMap Worker.task).Perm
      (next.task ++ workers.flatMap Worker.task) := by
  obtain ⟨others, hworkers, hset⟩ := workers_set h next
  have hbefore := hworkers.flatMap_right Worker.task
  have hafter := hset.flatMap_right Worker.task
  rw [List.flatMap_cons] at hbefore hafter
  rw [List.perm_iff_count] at hbefore hafter ⊢
  intro task
  have hb := hbefore task
  have ha := hafter task
  simp only [List.count_append] at hb ha ⊢
  omega

theorem held_eq_nil {workers : List Worker}
    (h : ∀ worker ∈ workers, worker = .lock ∨ worker = .waiting ∨
      worker = .ended) : workers.flatMap Worker.task = [] := by
  rw [List.flatMap_eq_nil_iff]
  intro worker hworker
  rcases h worker hworker with rfl | rfl | rfl <;> rfl

theorem held_notifyAll (s : ThreadPool) :
    s.notifyAll.workers.flatMap Worker.task =
      s.workers.flatMap Worker.task := by
  rw [ThreadPool.notifyAll, List.flatMap_map]
  apply List.flatMap_congr
  intro worker _
  split
  · next h => rw [h]; rfl
  · rfl

/-- A waiting worker has no task, so notifying it moves none. -/
theorem held_notifyOne {s : ThreadPool} {i : Nat}
    (h : s.workers[i]? = some .waiting) :
    ((s.notifyOne (some i)).workers.flatMap Worker.task).Perm
      (s.workers.flatMap Worker.task) :=
  held_set h .lock

theorem Accounted.of_count {s t : PoolTrace} (h : s.Accounted)
    (hcount : ∀ task,
      (t.executed ++ t.held ++ t.pool.tasks ++ t.refused).count task +
        (List.range s.submitted).count task =
      (s.executed ++ s.held ++ s.pool.tasks ++ s.refused).count task +
        (List.range t.submitted).count task) : t.Accounted := by
  rw [Accounted, List.perm_iff_count] at h ⊢
  intro task
  have hs := h task
  have ht := hcount task
  omega

theorem Accounted.runTask {s : PoolTrace} (h : s.Accounted)
    {woken : Option Nat}
    (hwoken : ∀ i, woken = some i → s.pool.workers[i]? = some .waiting) :
    (s.runTask woken).Accounted := by
  unfold PoolTrace.runTask
  split
  · apply h.of_count
    intro task
    simp only [held, List.range_succ, List.count_append]
    omega
  · split
    · apply h.of_count
      intro task
      simp only [held, List.range_succ, List.count_append]
      omega
    · apply h.of_count
      intro task
      cases woken with
      | none =>
          simp only [held, ThreadPool.notifyOne, List.range_succ,
            List.count_append]
          omega
      | some i =>
          have hheld := (held_notifyOne (hwoken i rfl)).count_eq task
          simp only [ThreadPool.notifyOne] at hheld
          simp only [held, ThreadPool.notifyOne, List.range_succ,
            List.count_append]
          omega

/-- What a worker takes away from the queue is its task. -/
theorem take_spec (s : ThreadPool) :
    s.take.1.task ++ s.take.2.tasks = s.tasks ∧
      s.take.2.workers = s.workers ∧ s.take.2.stop = s.stop := by
  unfold ThreadPool.take
  split
  · exact ⟨rfl, rfl, rfl⟩
  · split
    · exact ⟨rfl, rfl, rfl⟩
    · next htasks => exact ⟨htasks.symm, rfl, rfl⟩

/-- The two steps of `work`. -/
theorem work_cases {s t : PoolTrace} {i : Nat} (h : s.work i = some t) :
    (s.pool.workers[i]? = some .lock ∧
      t = { s with pool := { s.pool.take.2 with
        workers := s.pool.workers.set i s.pool.take.1 } }) ∨
    (∃ task, s.pool.workers[i]? = some (.running task) ∧
      t = { s with
        pool := { s.pool with workers := s.pool.workers.set i .ended }
        executed := s.executed ++ [task] }) := by
  unfold work at h
  split at h
  · next hlock =>
      obtain ⟨-, hworkers, -⟩ := take_spec s.pool
      refine Or.inl ⟨hlock, ?_⟩
      rw [← hworkers]
      exact (Option.some.inj h).symm
  · next task hrunning => exact Or.inr ⟨task, hrunning, (Option.some.inj h).symm⟩
  · cases h

theorem Accounted.work {s t : PoolTrace} (h : s.Accounted) {i : Nat}
    (hexec : s.work i = some t) : t.Accounted := by
  rcases work_cases hexec with ⟨hlock, rfl⟩ | ⟨done, hrunning, rfl⟩
  · apply h.of_count
    intro task
    have hheld := (held_set hlock s.pool.take.1).count_eq task
    have htake := congrArg (List.count task) (take_spec s.pool).1
    simp only [Worker.task, List.count_append, List.nil_append] at hheld htake
    simp only [held, List.count_append]
    omega
  · apply h.of_count
    intro task
    have hheld := (held_set hrunning .ended).count_eq task
    simp only [Worker.task, List.count_append, List.nil_append] at hheld
    simp only [held, List.count_append]
    omega

theorem Accounted.step {s : PoolTrace} (h : s.Accounted) {step : PoolStep}
    (henabled : poolMachine.enabled s step) :
    ∃ t, poolMachine.exec s step = some t ∧ t.Accounted := by
  cases step with
  | start count =>
      have hnone : s.pool.workers = [] := henabled
      refine ⟨{ s with pool := { s.pool with
        workers := List.replicate count .lock } }, ?_, ?_⟩
      · simp [poolMachine, ThreadPool.startWorkers, hnone]
      · apply h.of_count
        intro task
        have hheld :
            (List.replicate count Worker.lock).flatMap Worker.task = [] :=
          held_eq_nil fun worker hworker =>
            Or.inl (List.eq_of_mem_replicate hworker)
        simp only [held, hheld, hnone, List.flatMap_nil]
  | run woken =>
      refine ⟨s.runTask woken, rfl, h.runTask ?_⟩
      rintro i rfl
      exact henabled
  | work i =>
      have hlive : ∃ worker, s.pool.workers[i]? = some worker ∧
          worker ≠ .waiting ∧ worker ≠ .ended := by
        simpa [poolMachine, Option.any_eq_true] using henabled
      obtain ⟨worker, hworker, hwaiting, hended⟩ := hlive
      have hexec : ∃ t, s.work i = some t := by
        unfold PoolTrace.work
        rw [hworker]
        cases worker with
        | lock => exact ⟨_, rfl⟩
        | waiting => exact absurd rfl hwaiting
        | running task => exact ⟨_, rfl⟩
        | ended => exact absurd rfl hended
      obtain ⟨t, hexec⟩ := hexec
      exact ⟨t, hexec, h.work hexec⟩
  | wake i =>
      refine ⟨_, rfl, h.of_count fun task => ?_⟩
      have hheld := (held_notifyOne henabled).count_eq task
      simp only [ThreadPool.notifyOne] at hheld
      simp only [held, ThreadPool.notifyOne, List.count_append]
      omega
  | stop =>
      refine ⟨_, rfl, h.of_count fun task => ?_⟩
      simp only [held, held_notifyAll]
      rfl
  | join =>
      refine ⟨_, rfl, h.of_count fun task => ?_⟩
      have hheld : s.pool.workers.flatMap Worker.task = [] :=
        held_eq_nil fun worker hworker =>
          Or.inr (Or.inr (henabled.2 worker hworker))
      simp only [held, hheld, List.flatMap_nil]

theorem Accounted.nodup {s : PoolTrace} (h : s.Accounted) :
    s.executed.Nodup := by
  have hall := h.nodup_iff.mpr List.nodup_range
  rw [List.append_assoc, List.append_assoc] at hall
  exact (List.nodup_append.mp hall).1

end PoolTrace

/-- No task is executed twice, whoever submits, starts and stops. -/
theorem threadPool_at_most_once (word : List PoolStep)
    (hlegal : poolMachine.Legal .start word) :
    poolMachine.Holds (fun s => s.executed.Nodup) .start word := by
  have hrun : poolMachine.Holds PoolTrace.Accounted .start word := by
    apply Machine.holds_of_step (G := poolMachine.enabled)
    · intro s step hs henabled
      exact hs.step henabled
    · exact List.Perm.refl _
    · exact hlegal
  exact hrun.mono fun s hs => hs.nodup

namespace PoolTrace

/-- A pool of `n` workers that was not stopped.  A worker ends with the one
task it has executed, and while one waits there is another on its way for every
queued task. -/
structure Serving (n : Nat) (s : PoolTrace) : Prop where
  live : s.pool.stop = false
  size : s.pool.workers.length = n
  refused : s.refused = []
  ended : s.executed.length = s.pool.workers.count .ended
  awake : s.pool.workers.count .waiting = 0 ∨
    s.pool.tasks.length ≤ s.pool.workers.count .lock

variable {n : Nat}

theorem count_set {workers : List Worker} {i : Nat} {worker : Worker}
    (h : workers[i]? = some worker) (next pc : Worker) :
    (workers.set i next).count pc + [worker].count pc =
      workers.count pc + [next].count pc := by
  obtain ⟨others, hworkers, hset⟩ := workers_set h next
  simp only [hworkers.count_eq, hset.count_eq, List.count_cons, List.count_nil]
  omega

theorem Serving.runTask {s : PoolTrace} (h : s.Serving n) (hn : 1 ≤ n)
    {woken : Option Nat}
    (hwoken : poolMachine.enabled s (.run woken)) :
    (s.runTask woken).Serving n ∧
      (s.runTask woken).submitted = s.submitted + 1 := by
  have hsome : s.pool.workers ≠ [] := by
    intro hnone
    have hsize := h.size
    rw [hnone, List.length_nil] at hsize
    omega
  unfold PoolTrace.runTask
  rw [if_neg (by simp [h.live]), if_neg hsome]
  cases woken with
  | none =>
      have hnone : s.pool.workers.count .waiting = 0 :=
        List.count_eq_zero.mpr hwoken
      exact ⟨⟨h.live, h.size, h.refused, h.ended, Or.inl hnone⟩, rfl⟩
  | some i =>
      have hended := count_set hwoken .lock .ended
      have hlock := count_set hwoken .lock .lock
      have hin : 0 < s.pool.workers.count .waiting :=
        List.count_pos_iff.mpr (List.mem_of_getElem? hwoken)
      simp only [List.count_singleton, beq_iff_eq, reduceCtorEq, if_true,
        if_false, beq_self_eq_true] at hended hlock
      refine ⟨⟨h.live, (List.length_set ..).trans h.size, h.refused, ?_, ?_⟩, rfl⟩
      · exact h.ended.trans hended.symm
      · right
        have hawake := h.awake
        simp only [ThreadPool.notifyOne, List.length_append,
          List.length_singleton]
        omega

theorem Serving.wake {s : PoolTrace} (h : s.Serving n) {i : Nat}
    (hwaiting : s.pool.workers[i]? = some .waiting) :
    Serving n { s with pool := s.pool.notifyOne (some i) } := by
  have hended := count_set hwaiting .lock .ended
  have hlock := count_set hwaiting .lock .lock
  have hwait := count_set hwaiting .lock .waiting
  simp only [List.count_singleton, beq_iff_eq, reduceCtorEq, if_true, if_false,
    beq_self_eq_true] at hended hlock hwait
  refine ⟨h.live, (List.length_set ..).trans h.size, h.refused,
    h.ended.trans hended.symm, ?_⟩
  have hawake := h.awake
  simp only [ThreadPool.notifyOne]
  omega

theorem Serving.work {s t : PoolTrace} (h : s.Serving n) {i : Nat}
    (hexec : s.work i = some t) :
    t.Serving n ∧ t.submitted = s.submitted := by
  rcases work_cases hexec with ⟨hlock, rfl⟩ | ⟨done, hrunning, rfl⟩
  · cases htasks : s.pool.tasks with
    | nil =>
        have htake : s.pool.take = (.waiting, s.pool) := by
          simp [ThreadPool.take, h.live, htasks]
        have hended := count_set hlock .waiting .ended
        simp only [List.count_singleton, beq_iff_eq, reduceCtorEq, if_false]
          at hended
        rw [htake]
        refine ⟨⟨h.live, (List.length_set ..).trans h.size, h.refused,
          h.ended.trans hended.symm, Or.inr ?_⟩, rfl⟩
        simp only [htasks, List.length_nil, Nat.zero_le]
    | cons task tasks =>
        have htake : s.pool.take =
            (.running task, { s.pool with tasks := tasks }) := by
          simp [ThreadPool.take, h.live, htasks]
        have hended := count_set hlock (.running task) .ended
        have hlocked := count_set hlock (.running task) .lock
        have hwait := count_set hlock (.running task) .waiting
        simp only [List.count_singleton, beq_iff_eq, reduceCtorEq, if_true,
          if_false, beq_self_eq_true] at hended hlocked hwait
        rw [htake]
        refine ⟨⟨h.live, (List.length_set ..).trans h.size, h.refused,
          h.ended.trans hended.symm, ?_⟩, rfl⟩
        have hawake := h.awake
        rw [htasks, List.length_cons] at hawake
        simp only
        omega
  · have hended := count_set hrunning .ended .ended
    have hlock := count_set hrunning .ended .lock
    have hwait := count_set hrunning .ended .waiting
    simp only [List.count_singleton, beq_iff_eq, reduceCtorEq, if_true, if_false,
      beq_self_eq_true] at hended hlock hwait
    refine ⟨⟨h.live, (List.length_set ..).trans h.size, h.refused, ?_, ?_⟩, rfl⟩
    · have hbefore := h.ended
      simp only [List.length_append, List.length_singleton]
      omega
    · have hawake := h.awake
      simp only
      omega

theorem serving_start (n : Nat) :
    Serving n ⟨⟨false, [], List.replicate n .lock⟩, 0, [], []⟩ where
  live := rfl
  size := List.length_replicate
  refused := rfl
  ended := by simp [List.count_replicate]
  awake := Or.inr (Nat.zero_le _)

/-- A pool at rest has executed one task per worker that has ended, and if some
worker is left, all of them. -/
theorem Serving.at_rest {s : PoolTrace} (h : s.Serving n) (hs : s.Accounted)
    (hrest : s.Quiescent) :
    s.executed.length + s.pool.tasks.length = s.submitted ∧
      (s.pool.tasks = [] ∨ s.executed.length = n) := by
  have hheld : s.held = [] := by
    apply held_eq_nil
    intro worker hworker
    exact Or.inr (hrest worker hworker)
  have hlength := hs.length_eq
  rw [hheld, h.refused, List.append_nil, List.append_nil, List.length_append,
    List.length_range] at hlength
  refine ⟨hlength, ?_⟩
  rcases h.awake with hnone | hawake
  · right
    have hall : ∀ worker ∈ s.pool.workers, Worker.ended = worker := by
      intro worker hworker
      rcases hrest worker hworker with rfl | rfl
      · exact absurd hworker (List.count_eq_zero.mp hnone)
      · rfl
    exact h.ended.trans ((List.count_eq_length.mpr hall).trans h.size)
  · left
    have hlock : s.pool.workers.count .lock = 0 := by
      rw [List.count_eq_zero]
      intro hin
      rcases hrest _ hin with hpc | hpc <;> cases hpc
    exact List.eq_nil_of_length_eq_zero (by omega)

theorem Serving.once {s : PoolTrace} (h : s.Serving n) (hs : s.Accounted)
    (hfew : s.submitted ≤ n) : s.Once := by
  refine ⟨hs.nodup, fun hrest task htask => ?_⟩
  obtain ⟨hlength, hdone⟩ := h.at_rest hs hrest
  have hnone : s.pool.tasks = [] := by
    rcases hdone with hnone | hall
    · exact hnone
    · exact List.eq_nil_of_length_eq_zero (by omega)
  have hheld : s.held = [] := by
    apply held_eq_nil
    intro worker hworker
    exact Or.inr (hrest worker hworker)
  have hall := hs.mem_iff.mpr (List.mem_range.mpr htask)
  rw [hheld, hnone, h.refused] at hall
  simpa using hall

/-- With more tasks than workers, a pool that has come to rest has left some of
them in the queue. -/
theorem Serving.not_once {s : PoolTrace} (h : s.Serving n) (hs : s.Accounted)
    (hrest : s.Quiescent)
    (hended : s.pool.workers.count .ended = n) (hmany : n < s.submitted) :
    ¬ s.Once := by
  intro honce
  have hlength := (h.at_rest hs hrest).1
  have hsub : List.range s.submitted ⊆ s.executed := by
    intro task htask
    exact honce.2 hrest task (List.mem_range.mp htask)
  have hle := (List.subperm_of_subset List.nodup_range hsub).length_le
  rw [List.length_range, h.ended, hended] at hle
  omega

/-- A step of submitters and workers. -/
theorem Serving.step {s : PoolTrace} (h : s.Serving n) (hn : 1 ≤ n)
    {step : PoolStep} (henabled : poolMachine.enabled s step)
    (hserves : step.serves = true) {t : PoolTrace}
    (hexec : poolMachine.exec s step = some t) :
    t.Serving n ∧
      t.submitted = s.submitted + if step.submits = true then 1 else 0 := by
  cases step with
  | run woken =>
      cases hexec
      exact h.runTask hn henabled
  | work i => exact h.work hexec
  | wake i =>
      cases hexec
      exact ⟨h.wake henabled, rfl⟩
  | start count => cases hserves
  | stop => cases hserves
  | join => cases hserves

/-- A run of submitters and workers. -/
theorem Serving.run (hn : 1 ≤ n) {s : PoolTrace} {word : List PoolStep}
    (h : s.Serving n) (hs : s.Accounted)
    (hserves : ∀ step ∈ word, step.serves = true)
    (hlegal : poolMachine.Legal s word) :
    ∃ t, poolMachine.run s word = some t ∧ t.Serving n ∧ t.Accounted ∧
      t.submitted = s.submitted + word.countP PoolStep.submits := by
  induction word generalizing s with
  | nil => exact ⟨s, rfl, h, hs, rfl⟩
  | cons step word ih =>
      obtain ⟨s', hexec, hs'⟩ := hs.step hlegal.1
      obtain ⟨hserving, hsubmitted⟩ :=
        h.step hn hlegal.1 (hserves step List.mem_cons_self) hexec
      have hrest : ∀ step ∈ word, step.serves = true := by
        intro step hstep
        exact hserves step (List.mem_cons_of_mem _ hstep)
      obtain ⟨t, hrun, ht, hacc, hcount⟩ :=
        ih hserving hs' hrest (hlegal.2 s' hexec)
      refine ⟨t, by simpa [Machine.run, hexec] using hrun, ht, hacc, ?_⟩
      rw [hcount, hsubmitted, List.countP_cons]
      omega

/-- With no more tasks than workers the pool does what it promises. -/
theorem Serving.holds (hn : 1 ≤ n) {s : PoolTrace} {word : List PoolStep}
    (h : s.Serving n) (hs : s.Accounted)
    (hserves : ∀ step ∈ word, step.serves = true)
    (hfew : s.submitted + word.countP PoolStep.submits ≤ n)
    (hlegal : poolMachine.Legal s word) :
    poolMachine.Holds Once s word := by
  rw [Machine.holds_iff_prefix]
  rintro front ⟨back, rfl⟩
  have hfront : ∀ step ∈ front, step.serves = true := by
    intro step hstep
    exact hserves step (List.mem_append_left _ hstep)
  obtain ⟨t, hrun, ht, hacc, hcount⟩ :=
    h.run hn hs hfront (Machine.meets_append.mp hlegal).1
  rw [List.countP_append] at hfew
  exact ⟨t, hrun, ht.once hacc (by omega)⟩

/-- Workers before `j` have ended, the others have not begun. -/
structure Served (j : Nat) (s : PoolTrace) : Prop where
  live : s.pool.stop = false
  ended : ∀ i < j, s.pool.workers[i]? = some .ended
  begun : ∀ i, j ≤ i → i < s.pool.workers.length →
    s.pool.workers[i]? = some .lock

/-- Worker `j` takes the first task, executes it and ends. -/
theorem Served.next {j : Nat} {s : PoolTrace} (h : s.Served j)
    (hj : j < s.pool.workers.length) {task : Nat} {tasks : List Nat}
    (htasks : s.pool.tasks = task :: tasks) :
    ∃ t, poolMachine.run s [.work j, .work j] = some t ∧
      poolMachine.Legal s [.work j, .work j] ∧ t.Served (j + 1) ∧
      t.pool.workers.length = s.pool.workers.length ∧
      t.pool.tasks = tasks := by
  have hlock := h.begun j (Nat.le_refl j) hj
  let s' : PoolTrace := { s with
    pool := ⟨false, tasks, s.pool.workers.set j (.running task)⟩ }
  let t : PoolTrace := { s with
    pool := ⟨false, tasks, s.pool.workers.set j .ended⟩
    executed := s.executed ++ [task] }
  have hfirst : poolMachine.exec s (.work j) = some s' := by
    simp [poolMachine, work, hlock, ThreadPool.take, h.live, htasks, s']
  have hrunning : s'.pool.workers[j]? = some (.running task) := by
    simp [s', hj]
  have hsecond : poolMachine.exec s' (.work j) = some t := by
    simp [poolMachine, work, hrunning, s', t, List.set_set]
  have hfirst' : poolMachine.enabled s (.work j) := by
    simp [poolMachine, hlock]
  have hsecond' : poolMachine.enabled s' (.work j) := by
    simp [poolMachine, hrunning]
  refine ⟨t, (Machine.run_cons hfirst).trans (Machine.run_cons hsecond),
    Machine.meets_cons hfirst' hfirst ⟨hsecond', fun _ _ => trivial⟩,
    ⟨rfl, ?_, ?_⟩, List.length_set .., rfl⟩
  · intro i hi
    by_cases heq : i = j
    · simp [t, heq, hj]
    · have hold := h.ended i (by omega)
      simp only [t]
      rw [List.getElem?_set_ne (Ne.symm heq)]
      exact hold
  · intro i hi hlength
    have hne : j ≠ i := by omega
    simp only [t, List.length_set] at hlength ⊢
    rw [List.getElem?_set_ne hne]
    exact h.begun i (by omega) hlength

/-- The first `j` workers run one after the other, each its whole `work`. -/
def serveAll (j : Nat) : List PoolStep :=
  (List.range j).flatMap fun i => [.work i, .work i]

theorem Served.all {s : PoolTrace} (h : s.Served 0) {j : Nat}
    (hj : j ≤ s.pool.workers.length) (htasks : j ≤ s.pool.tasks.length) :
    ∃ t, poolMachine.run s (serveAll j) = some t ∧
      poolMachine.Legal s (serveAll j) ∧ t.Served j ∧
      t.pool.workers.length = s.pool.workers.length ∧
      t.pool.tasks.length + j = s.pool.tasks.length := by
  induction j with
  | zero => exact ⟨s, rfl, trivial, h, rfl, rfl⟩
  | succ j ih =>
      obtain ⟨s', hrun, hlegal, hserved, hsize, hleft⟩ :=
        ih (by omega) (by omega)
      obtain ⟨task, tasks, hcons⟩ := List.exists_cons_of_length_pos
        (show 0 < s'.pool.tasks.length by omega)
      obtain ⟨t, hrun', hlegal', hserved', hsize', htail⟩ :=
        hserved.next (by omega) hcons
      have hword : serveAll (j + 1) = serveAll j ++ [.work j, .work j] := by
        simp [serveAll, List.range_succ]
      rw [hword]
      refine ⟨t, (Machine.run_front hrun).trans hrun', hlegal.append hrun hlegal',
        hserved', hsize'.trans hsize, ?_⟩
      rw [htail]
      rw [hcons, List.length_cons] at hleft
      omega

/-- The submitters are done before the first worker begins. -/
theorem submit_all (k : Nat) {s : PoolTrace} (hlive : s.pool.stop = false)
    (hn : 1 ≤ n) (hworkers : s.pool.workers = List.replicate n .lock) :
    ∃ t, poolMachine.run s (List.replicate k (.run none)) = some t ∧
      poolMachine.Legal s (List.replicate k (.run none)) ∧
      t.pool.stop = false ∧ t.pool.workers = List.replicate n .lock ∧
      t.pool.tasks.length = s.pool.tasks.length + k := by
  induction k generalizing s with
  | zero => exact ⟨s, rfl, trivial, hlive, hworkers, rfl⟩
  | succ k ih =>
      let s' : PoolTrace := { s with
        pool := { s.pool with tasks := s.pool.tasks ++ [s.submitted] }
        submitted := s.submitted + 1 }
      have hsome : s.pool.workers ≠ [] := by
        simp [hworkers]
        omega
      have hexec : poolMachine.exec s (.run none) = some s' := by
        simp [poolMachine, runTask, hlive, hsome, ThreadPool.notifyOne, s']
      have henabled : poolMachine.enabled s (.run none) := by
        simp [poolMachine, hworkers]
      obtain ⟨t, hrun, hlegal, ht, hsame, hlength⟩ := ih (s := s') hlive hworkers
      rw [List.replicate_succ]
      refine ⟨t, (Machine.run_cons hexec).trans hrun,
        Machine.meets_cons henabled hexec hlegal, ht, hsame, ?_⟩
      rw [hlength]
      simp only [s', List.length_append, List.length_singleton]
      omega

/-- All tasks are submitted and then every worker runs. -/
def overload (n k : Nat) : List PoolStep :=
  List.replicate k (.run none) ++ serveAll n

theorem overload_serves (n k : Nat) :
    ∀ step ∈ overload n k, step.serves = true := by
  intro step hstep
  rcases List.mem_append.mp hstep with hrun | hwork
  · rw [List.eq_of_mem_replicate hrun]
    rfl
  · obtain ⟨i, _, hi⟩ := List.mem_flatMap.mp hwork
    simp only [List.mem_cons, List.not_mem_nil, or_false, or_self] at hi
    rw [hi]
    rfl

theorem countP_overload (n k : Nat) :
    (overload n k).countP PoolStep.submits = k := by
  have hnone : (serveAll n).countP PoolStep.submits = 0 := by
    rw [List.countP_eq_zero]
    intro step hstep
    obtain ⟨i, _, hi⟩ := List.mem_flatMap.mp hstep
    simp only [List.mem_cons, List.not_mem_nil, or_false, or_self] at hi
    rw [hi]
    exact Bool.false_ne_true
  rw [overload, List.countP_append, hnone, List.countP_replicate]
  simp [PoolStep.submits]

/-- The schedule in which all workers end before the queue is empty. -/
theorem overload_run {k : Nat} (hn : 1 ≤ n) (hk : n < k) {s : PoolTrace}
    (hlive : s.pool.stop = false)
    (hworkers : s.pool.workers = List.replicate n .lock) :
    ∃ t, poolMachine.run s (overload n k) = some t ∧
      poolMachine.Legal s (overload n k) ∧ t.Quiescent ∧
      t.pool.workers.count .ended = n := by
  obtain ⟨s', hrun, hlegal, hlive', hworkers', hlength⟩ :=
    submit_all k hlive hn hworkers
  have hbegun : s'.Served 0 := by
    refine ⟨hlive', fun i hi => absurd hi (Nat.not_lt_zero i), fun i _ hi => ?_⟩
    rw [hworkers', List.length_replicate] at hi
    simp [hworkers', hi]
  have hsize : s'.pool.workers.length = n := by simp [hworkers']
  obtain ⟨t, hrun', hlegal', hserved, hsame, _⟩ :=
    hbegun.all (j := n) (by omega) (by omega)
  have hall : ∀ worker ∈ t.pool.workers, Worker.ended = worker := by
    intro worker hworker
    obtain ⟨i, hi, rfl⟩ := List.mem_iff_getElem.mp hworker
    have hended := hserved.ended i (by omega)
    rw [List.getElem?_eq_getElem hi] at hended
    exact (Option.some.inj hended).symm
  refine ⟨t, (Machine.run_front hrun).trans hrun', hlegal.append hrun hlegal',
    fun worker hworker => Or.inr (hall worker hworker).symm, ?_⟩
  rw [List.count_eq_length.mpr hall, hsame, hsize]

end PoolTrace

/-- Tasks of a pool.  A worker executes one task and ends, so all tasks given
to `run` after `start n` are executed, in every schedule, exactly when there are
no more of them than workers. -/
theorem threadPool_once_iff {n : Nat} (hn : 1 ≤ n) (k : Nat) :
    (∀ word : List PoolStep, (∀ step ∈ word, step.serves = true) →
      word.countP PoolStep.submits = k →
      poolMachine.Legal .start (.start n :: word) →
      poolMachine.Holds PoolTrace.Once .start (.start n :: word)) ↔ k ≤ n := by
  let s : PoolTrace := ⟨⟨false, [], List.replicate n .lock⟩, 0, [], []⟩
  have hstart : poolMachine.exec .start (.start n) = some s := rfl
  have hserving : s.Serving n := PoolTrace.serving_start n
  have hacc : s.Accounted := by
    have hheld : (List.replicate n Worker.lock).flatMap Worker.task = [] :=
      PoolTrace.held_eq_nil fun worker hworker =>
        Or.inl (List.eq_of_mem_replicate hworker)
    simp [PoolTrace.Accounted, PoolTrace.held, s, hheld]
  constructor
  · intro hall
    by_contra hmany
    obtain ⟨t, hrun, hlegal, hrest, hended⟩ :=
      PoolTrace.overload_run (k := k) hn (by omega) (s := s) rfl rfl
    obtain ⟨_, t', ht', hholds⟩ := hall (PoolTrace.overload n k)
      (PoolTrace.overload_serves n k) (PoolTrace.countP_overload n k)
      (Machine.meets_cons rfl hstart hlegal)
    obtain rfl : s = t' := Option.some.inj (hstart.symm.trans ht')
    obtain ⟨u, hu, honce⟩ := hholds.last
    obtain rfl : t = u := Option.some.inj (hrun.symm.trans hu)
    obtain ⟨t'', hrun'', ht, htacc, hcount⟩ := hserving.run hn hacc
      (PoolTrace.overload_serves n k) hlegal
    obtain rfl : t = t'' := Option.some.inj (hrun.symm.trans hrun'')
    rw [PoolTrace.countP_overload] at hcount
    exact ht.not_once htacc hrest hended (by omega) honce
  · intro hfew word hserves hcount hlegal
    have hholds : poolMachine.Holds PoolTrace.Once s word := by
      apply hserving.holds hn hacc hserves _ (hlegal.2 s hstart)
      rw [hcount]
      simpa [s] using hfew
    refine ⟨⟨List.nodup_nil, fun _ task htask => ?_⟩, s, hstart, hholds⟩
    exact absurd htask (Nat.not_lt_zero task)

/-- One worker and one task. -/
theorem threadPool_once_single :
    poolMachine.Holds PoolTrace.Once .start
      [.start 1, .work 0, .run (some 0), .work 0, .work 0] :=
  (threadPool_once_iff (n := 1) (Nat.le_refl 1) 1).mpr (Nat.le_refl 1)
    [.work 0, .run (some 0), .work 0, .work 0] (by decide +kernel) rfl
    (by decide +kernel)

/-- One worker and two tasks: the worker ends after the first. -/
theorem threadPool_leaves_task :
    poolMachine.Legal .start [.start 1, .run none, .run none, .work 0, .work 0] ∧
      ¬ poolMachine.Holds PoolTrace.Once .start
        [.start 1, .run none, .run none, .work 0, .work 0] := by
  exact ⟨by decide +kernel, Machine.not_holds_of_run (by decide +kernel)⟩

end Libsaf
