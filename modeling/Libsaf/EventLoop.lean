/-
The functor queue of `saf::EventLoop`.  Any thread appends under the mutex;
`runFunctors` swaps the whole queue into a local vector and calls its
elements one after the other, without the mutex.
-/
import Libsaf.Machine

namespace Libsaf

universe u v

variable {F : Type u} {T : Type v}

/-- `functors` is the member behind the mutex; `batch` is what a running
`runFunctors` still has to call of its local vector. -/
structure FunctorQueue (F : Type u) where
  functors : List F
  batch : List F
deriving Repr, DecidableEq

namespace FunctorQueue

def empty : FunctorQueue F := ⟨[], []⟩

/-- One critical section of `queueInLoop`. -/
def queueInLoop (q : FunctorQueue F) (functor : F) : FunctorQueue F :=
  { q with functors := q.functors ++ [functor] }

/-- The critical section of `runFunctors`. -/
def swapFunctors (q : FunctorQueue F) : FunctorQueue F :=
  { functors := [], batch := q.functors }

/-- The next functor of the batch and the queue while it is called. -/
def nextFunctor (q : FunctorQueue F) : Option (F × FunctorQueue F) :=
  match q.batch with
  | [] => none
  | functor :: rest => some (functor, { q with batch := rest })

/-- Everything queued and not yet called, in the order of the calls. -/
def pending (q : FunctorQueue F) : List F := q.batch ++ q.functors

@[simp] theorem pending_queueInLoop (q : FunctorQueue F) (functor : F) :
    (q.queueInLoop functor).pending = q.pending ++ [functor] := by
  simp [pending, queueInLoop]

theorem mem_pending_queueInLoop {q : FunctorQueue F} {functor queued : F} :
    functor ∈ (q.queueInLoop queued).pending ↔
      functor ∈ q.pending ∨ functor = queued := by
  rw [pending_queueInLoop, List.mem_append, List.mem_singleton]

/-- A call of `runFunctors` starts when the previous one has returned. -/
theorem pending_swapFunctors {q : FunctorQueue F} (h : q.batch = []) :
    q.swapFunctors.pending = q.pending := by
  simp [pending, swapFunctors, h]

theorem head?_batch_of_nextFunctor {q q' : FunctorQueue F} {functor : F}
    (h : q.nextFunctor = some (functor, q')) :
    q.batch.head? = some functor := by
  obtain ⟨functors, batch⟩ := q
  cases batch with
  | nil => cases h
  | cons head rest =>
      cases h
      rfl

theorem pending_nextFunctor {q q' : FunctorQueue F} {functor : F}
    (h : q.nextFunctor = some (functor, q')) :
    q.pending = functor :: q'.pending := by
  obtain ⟨functors, batch⟩ := q
  cases batch with
  | nil => cases h
  | cons head rest =>
      cases h
      rfl

/-- The functor that is called was pending, and so are those that are left. -/
theorem mem_pending_nextFunctor {q q' : FunctorQueue F} {functor next : F}
    (h : q.nextFunctor = some (next, q')) :
    functor ∈ q.pending ↔ functor = next ∨ functor ∈ q'.pending := by
  rw [pending_nextFunctor h, List.mem_cons]

end FunctorQueue

/-- The steps of the threads that share one loop: a thread queues a functor,
and the loop thread enters `runFunctors`, calls the next functor of the batch,
or returns.  A functor that queues further functors while it runs is a
`queueInLoop` step of the loop thread. -/
inductive FunctorStep (T : Type v) (F : Type u) where
  | queueInLoop (thread : T) (functor : F)
  | swapFunctors
  | callFunctor
  | returnFunctors
deriving Repr, DecidableEq

/-- The queue with its history: all functors in lock order, and those called. -/
structure FunctorTrace (F : Type u) where
  queue : FunctorQueue F
  running : Bool
  queued : List F
  executed : List F
deriving Repr, DecidableEq

def FunctorTrace.start : FunctorTrace F := ⟨.empty, false, [], []⟩

/-- The loop thread is inside at most one call of `runFunctors`, and the call
returns when its local vector is used up. -/
def functorMachine (T : Type v) (F : Type u) :
    Machine (FunctorTrace F) (FunctorStep T F) where
  enabled s
    | .queueInLoop _ _ => True
    | .swapFunctors => s.running = false
    | .callFunctor => s.running = true ∧ s.queue.batch ≠ []
    | .returnFunctors => s.running = true ∧ s.queue.batch = []
  exec s
    | .queueInLoop _ functor => some { s with
        queue := s.queue.queueInLoop functor
        queued := s.queued ++ [functor] }
    | .swapFunctors => some { s with
        queue := s.queue.swapFunctors
        running := true }
    | .callFunctor => s.queue.nextFunctor.map fun next => { s with
        queue := next.2
        executed := s.executed ++ [next.1] }
    | .returnFunctors => some { s with running := false }

/-- The functors called, the rest of the batch and the queue together are all
functors queued, and between two calls there is no batch. -/
structure FunctorTrace.Intact (s : FunctorTrace F) : Prop where
  order : s.executed ++ s.queue.batch ++ s.queue.functors = s.queued
  idle : s.running = false → s.queue.batch = []

theorem functorMachine_step (s : FunctorTrace F) (step : FunctorStep T F)
    (hs : s.Intact) (hstep : (functorMachine T F).enabled s step) :
    ∃ s', (functorMachine T F).exec s step = some s' ∧ s'.Intact := by
  have horder : s.executed ++ s.queue.pending = s.queued := by
    rw [FunctorQueue.pending, ← List.append_assoc]
    exact hs.order
  cases step with
  | queueInLoop thread functor =>
      refine ⟨_, rfl, ?_, hs.idle⟩
      rw [List.append_assoc]
      change s.executed ++ (s.queue.queueInLoop functor).pending = _
      rw [FunctorQueue.pending_queueInLoop, ← List.append_assoc, horder]
  | swapFunctors =>
      refine ⟨_, rfl, ?_, fun h => by cases h⟩
      rw [List.append_assoc]
      change s.executed ++ s.queue.swapFunctors.pending = _
      rw [FunctorQueue.pending_swapFunctors (hs.idle hstep), horder]
  | callFunctor =>
      obtain ⟨hrunning, hbatch⟩ := hstep
      obtain ⟨functor, rest, hcons⟩ := List.exists_cons_of_ne_nil hbatch
      have hnext : s.queue.nextFunctor =
          some (functor, { s.queue with batch := rest }) := by
        rw [FunctorQueue.nextFunctor, hcons]
      refine ⟨_, by simp only [functorMachine, hnext, Option.map_some]; rfl,
        ?_, fun h => ?_⟩
      · rw [FunctorQueue.pending_nextFunctor hnext] at horder
        simpa [FunctorQueue.pending] using horder
      · exact absurd (hrunning.symm.trans h) (by decide)
  | returnFunctors => exact ⟨_, rfl, hs.order, fun _ => hstep.2⟩

/-- A step inside one call of `runFunctors`. -/
theorem functorMachine_batch_step {called pending : List F}
    {s s' : FunctorTrace F} {step : FunctorStep T F}
    (hs : s.running = true ∧ s.executed ++ s.queue.batch = called ++ pending)
    (henabled : (functorMachine T F).enabled s step)
    (hreturn : step ≠ .returnFunctors)
    (hexec : (functorMachine T F).exec s step = some s') :
    s'.running = true ∧ s'.executed ++ s'.queue.batch = called ++ pending := by
  obtain ⟨hrunning, hbatch⟩ := hs
  cases step with
  | queueInLoop thread functor =>
      obtain rfl := Option.some.inj hexec
      exact ⟨hrunning, hbatch⟩
  | swapFunctors => exact absurd (hrunning.symm.trans henabled) (by decide)
  | callFunctor =>
      obtain ⟨⟨functor, q⟩, hnext, rfl⟩ := Option.map_eq_some_iff.mp hexec
      refine ⟨hrunning, ?_⟩
      unfold FunctorQueue.nextFunctor at hnext
      split at hnext
      · cases hnext
      · next hcons =>
          cases hnext
          rw [hcons] at hbatch
          simpa using hbatch
  | returnFunctors => exact absurd rfl hreturn

/-- Inside one call of `runFunctors`, the functors called since its swap and
the rest of its batch are what was pending at the swap, whatever is queued in
the meantime. -/
theorem functorMachine_batch (called pending : List F) {s s' : FunctorTrace F}
    {word : List (FunctorStep T F)} (hrunning : s.running = true)
    (hs : s.executed ++ s.queue.batch = called ++ pending)
    (hlegal : (functorMachine T F).Legal s word)
    (hword : FunctorStep.returnFunctors ∉ word)
    (hrun : (functorMachine T F).run s word = some s') :
    s'.executed ++ s'.queue.batch = called ++ pending := by
  have hreturns : (functorMachine T F).Meets
      (fun _ step => step ≠ .returnFunctors) s word := by
    refine Machine.meets_of_forall fun step hstep _ => ?_
    rintro rfl
    exact hword hstep
  exact (Machine.invariant_run (fun _ _ _ h hG hexec =>
    functorMachine_batch_step h hG.1 hG.2 hexec) ⟨hrunning, hs⟩
    (hlegal.and hreturns) hrun).2

/-- Functor queue of the event loop.  In every state of every interleaving
nothing is lost, duplicated or reordered; and a call of `runFunctors`, from
its swap to its return, calls exactly the functors that were pending at the
swap. -/
theorem functorQueue_intact :
    (∀ word : List (FunctorStep T F), (functorMachine T F).Legal .start word →
      (functorMachine T F).Holds
        (fun s => s.executed ++ s.queue.batch ++ s.queue.functors = s.queued)
        .start word) ∧
    (∀ (front body : List (FunctorStep T F)) (s s' : FunctorTrace F),
      (functorMachine T F).Legal .start
        (front ++ .swapFunctors :: (body ++ [.returnFunctors])) →
      .returnFunctors ∉ body →
      (functorMachine T F).run .start front = some s →
      (functorMachine T F).run .start
        (front ++ .swapFunctors :: (body ++ [.returnFunctors])) = some s' →
      s'.executed = s.executed ++ s.queue.functors) := by
  constructor
  · intro word hlegal
    exact (Machine.holds_of_step functorMachine_step ⟨rfl, fun _ => rfl⟩
      hlegal).mono fun s hs => hs.order
  · intro front body s s' hlegal hbody hfront hrun
    rw [Machine.run_append, hfront, Option.bind_some, Machine.run] at hrun
    obtain ⟨hswap, hlegal⟩ := (Machine.meets_append.mp hlegal).2 s hfront
    obtain ⟨hinside, hreturn⟩ := Machine.meets_append.mp (hlegal _ rfl)
    simp only [functorMachine, Option.bind_some] at hrun
    rw [Machine.run_append] at hrun
    obtain ⟨t, ht, hlast⟩ := Option.bind_eq_some_iff.mp hrun
    have hbatch := functorMachine_batch s.executed s.queue.functors rfl rfl
      hinside hbody ht
    obtain ⟨_, hempty⟩ := (hreturn t ht).1
    cases hlast
    rwa [hempty, List.append_nil] at hbatch

instance (s : FunctorTrace F) (step : FunctorStep T F) :
    Decidable ((functorMachine T F).enabled s step) :=
  match step with
  | .queueInLoop _ _ => isTrue trivial
  | .swapFunctors => inferInstanceAs (Decidable (s.running = false))
  | .callFunctor => inferInstanceAs
      (Decidable (s.running = true ∧ s.queue.batch ≠ []))
  | .returnFunctors => inferInstanceAs
      (Decidable (s.running = true ∧ s.queue.batch = []))

/-- While functor 1 runs, functor 2 is queued; it waits for the next call. -/
theorem functorQueue_intact_nested :
    (functorMachine Bool Nat).Holds
      (fun s => s.executed ++ s.queue.batch ++ s.queue.functors = s.queued)
      .start [.queueInLoop false 1, .swapFunctors, .callFunctor,
        .queueInLoop true 2, .returnFunctors] ∧
      ∀ s', (functorMachine Bool Nat).run .start
        [.queueInLoop false 1, .swapFunctors, .callFunctor,
          .queueInLoop true 2, .returnFunctors] = some s' →
        s'.executed = [1] :=
  ⟨functorQueue_intact.1 _ (by decide),
    fun s' hrun => functorQueue_intact.2 [.queueInLoop false 1]
      [.callFunctor, .queueInLoop true 2] _ s' (by decide) (by decide) rfl hrun⟩

end Libsaf
