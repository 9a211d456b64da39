/-
The passes of `EventLoop::start`.  A pass polls, lets the handlers of the active
descriptors run, calls functors and then timers; behind the loop the functors
are called once more.  A functor waits for the end of the handlers of its pass
or of the next one, and for nothing else.
-/
import Libsaf.EventLoop

namespace Libsaf

universe u

variable {F : Type u}

/-- Where the thread of the loop is.  `polling` is `poll` and the handlers,
`timers` is `runTimers` and the test of `_quit`, and `left` is behind the
loop. -/
inductive PassPhase where
  | polling
  | functors
  | timers
  | left
  | lastFunctors
  | returned
deriving Repr, DecidableEq

namespace PassPhase

/-- The phase in which a call of `runFunctors` is, that is made in this phase. -/
def runs : PassPhase → Option PassPhase
  | .polling => some .functors
  | .left => some .lastFunctors
  | _ => none

/-- The phase after a call of `runFunctors`. -/
def ran : PassPhase → Option PassPhase
  | .functors => some .timers
  | .lastFunctors => some .returned
  | _ => none

/-- The pass whose call of `runFunctors` finds a functor that is queued now. -/
def due (phase : PassPhase) (pass : Nat) : Nat :=
  match phase with
  | .polling | .left => pass
  | _ => pass + 1

/-- The loop has been left. -/
def Behind (phase : PassPhase) : Prop :=
  phase = .left ∨ phase = .lastFunctors ∨ phase = .returned

instance (phase : PassPhase) : Decidable phase.Behind :=
  inferInstanceAs (Decidable (_ ∨ _ ∨ _))

theorem Behind.runs {phase next : PassPhase} (h : phase.Behind)
    (hruns : phase.runs = some next) : next.Behind := by
  rcases h with rfl | rfl | rfl
  · exact Or.inr (Or.inl (Option.some.inj hruns).symm)
  · cases hruns
  · cases hruns

theorem Behind.ran {phase next : PassPhase} (h : phase.Behind)
    (hran : phase.ran = some next) : next.Behind := by
  rcases h with rfl | rfl | rfl
  · cases hran
  · exact Or.inr (Or.inr (Option.some.inj hran).symm)
  · cases hran

end PassPhase

/-- Every functor is kept with the pass in which it is due, and with the pass in
which it was called.  `queued` are all functors that were queued, and `stopped`
is the pass in which `stop` was called first.  The call of `runFunctors` behind
the loop counts as a pass. -/
structure LoopPass (F : Type u) where
  queue : FunctorQueue (Nat × F)
  phase : PassPhase
  pass : Nat
  quit : Bool
  queued : List (Nat × F)
  called : List ((Nat × F) × Nat)
  stopped : Option Nat

/-- Any thread may queue a functor or stop the loop, and so may the handlers,
the functors and the timers of the loop. -/
inductive PassStep (F : Type u) where
  | queueInLoop (functor : F)
  | stop
  | swapFunctors
  | callFunctor
  | returnFunctors
  | test
deriving Repr, DecidableEq

namespace LoopPass

/-- `start` is about to test `_quit`. -/
def start : LoopPass F := ⟨.empty, .timers, 0, false, [], [], none⟩

def queueInLoop (s : LoopPass F) (functor : F) : LoopPass F :=
  { s with
    queue := s.queue.queueInLoop (s.phase.due s.pass, functor)
    queued := s.queued ++ [(s.phase.due s.pass, functor)] }

/-- The next functor of the batch is called. -/
def callFunctor (s : LoopPass F) : Option (LoopPass F) :=
  s.queue.nextFunctor.map fun (functor, queue) => { s with
    queue := queue
    called := s.called ++ [(functor, s.pass)] }

/-- The test of the `while` loop. -/
def test (s : LoopPass F) : LoopPass F :=
  { s with
    phase := if s.quit then .left else .polling
    pass := s.pass + 1 }

end LoopPass

def passMachine (F : Type u) : Machine (LoopPass F) (PassStep F) where
  enabled s
    | .queueInLoop _ => True
    | .stop => True
    | .swapFunctors => s.phase.runs.isSome
    | .callFunctor => s.queue.batch ≠ []
    | .returnFunctors => s.phase.ran.isSome ∧ s.queue.batch = []
    | .test => s.phase = .timers
  exec s
    | .queueInLoop functor => some (s.queueInLoop functor)
    | .stop => some { s with
        quit := true
        stopped := s.stopped.or (some s.pass) }
    | .swapFunctors => s.phase.runs.map fun phase => { s with
        queue := s.queue.swapFunctors
        phase := phase }
    | .callFunctor => s.callFunctor
    | .returnFunctors => s.phase.ran.map fun phase => { s with phase := phase }
    | .test => some s.test

namespace LoopPass

/-- What every step keeps. -/
structure Punctual (s : LoopPass F) : Prop where
  order : s.called.map Prod.fst ++ s.queue.pending = s.queued
  called : ∀ call ∈ s.called, call.2 = call.1.1
  batch : ∀ functor ∈ s.queue.batch, functor.1 = s.pass
  idle : s.phase.ran = none → s.queue.batch = []
  queued : ∀ functor ∈ s.queue.functors, functor.1 = s.phase.due s.pass
  stopped : ∀ pass, s.stopped = some pass → s.quit = true ∧
    (s.pass = pass ∨ s.pass = pass + 1 ∧ s.phase.Behind)

/-- What is known of a stop stays so in a later phase of the pass. -/
theorem Punctual.stopped_phase {s : LoopPass F} (h : s.Punctual)
    {phase : PassPhase} (hphase : s.phase.Behind → phase.Behind) :
    ∀ pass, s.stopped = some pass → s.quit = true ∧
      (s.pass = pass ∨ s.pass = pass + 1 ∧ phase.Behind) := by
  intro pass hpass
  obtain ⟨hquit, hpassed⟩ := h.stopped pass hpass
  exact ⟨hquit, hpassed.imp_right (And.imp_right hphase)⟩

theorem start_punctual : (start : LoopPass F).Punctual where
  order := rfl
  called _ h := by cases h
  batch _ h := by cases h
  idle _ := rfl
  queued _ h := by cases h
  stopped _ h := by cases h

theorem Punctual.queueInLoop {s : LoopPass F} (h : s.Punctual) (functor : F) :
    (s.queueInLoop functor).Punctual where
  order := by
    rw [LoopPass.queueInLoop, FunctorQueue.pending_queueInLoop,
      ← List.append_assoc, h.order]
  called := h.called
  batch := h.batch
  idle := h.idle
  queued f hf := by
    rcases List.mem_append.mp hf with hold | hnew
    · exact h.queued f hold
    · rw [List.mem_singleton.mp hnew]
      rfl
  stopped := h.stopped

theorem Punctual.stop {s : LoopPass F} (h : s.Punctual) :
    Punctual { s with quit := true, stopped := s.stopped.or (some s.pass) } where
  order := h.order
  called := h.called
  batch := h.batch
  idle := h.idle
  queued := h.queued
  stopped pass hpass := by
    refine ⟨rfl, ?_⟩
    cases hstopped : s.stopped with
    | none =>
        obtain rfl : s.pass = pass := by simpa [hstopped] using hpass
        exact Or.inl rfl
    | some old =>
        obtain rfl : old = pass := by simpa [hstopped] using hpass
        exact (h.stopped old hstopped).2

/-- The functors queued so far are those of this pass. -/
theorem Punctual.swapFunctors {s : LoopPass F} {phase : PassPhase}
    (h : s.Punctual) (hruns : s.phase.runs = some phase) :
    Punctual { s with
      queue := s.queue.swapFunctors
      phase := phase } := by
  have hdue : s.phase.due s.pass = s.pass := by
    cases hphase : s.phase <;> simp [hphase, PassPhase.runs] at hruns <;> rfl
  have hran : phase.ran ≠ none := by
    cases hphase : s.phase <;> simp [hphase, PassPhase.runs] at hruns <;>
      subst hruns <;> decide
  have hidle : s.queue.batch = [] := by
    apply h.idle
    cases hphase : s.phase <;> simp [hphase, PassPhase.runs] at hruns <;> rfl
  refine ⟨?_, h.called, fun f hf => ?_, fun hnone => absurd hnone hran,
    fun _ hf => absurd hf List.not_mem_nil,
    h.stopped_phase fun hbehind => hbehind.runs hruns⟩
  · rw [FunctorQueue.pending_swapFunctors hidle, h.order]
  · rw [h.queued f hf, hdue]

theorem Punctual.callFunctor {s : LoopPass F} (h : s.Punctual)
    (hbatch : s.queue.batch ≠ []) :
    ∃ s', s.callFunctor = some s' ∧ s'.Punctual := by
  obtain ⟨functor, rest, hcons⟩ := List.exists_cons_of_ne_nil hbatch
  have hnext : s.queue.nextFunctor =
      some (functor, { s.queue with batch := rest }) := by
    rw [FunctorQueue.nextFunctor, hcons]
  refine ⟨{ s with
      queue := { s.queue with batch := rest }
      called := s.called ++ [(functor, s.pass)] },
    by rw [LoopPass.callFunctor, hnext, Option.map_some], ?_⟩
  refine ⟨?_, fun call hcall => ?_, fun f hf => ?_, fun hidle => ?_, h.queued,
    h.stopped⟩
  · rw [← h.order, FunctorQueue.pending_nextFunctor hnext, List.map_append,
      List.append_assoc]
    rfl
  · rcases List.mem_append.mp hcall with hold | hnew
    · exact h.called call hold
    · rw [List.mem_singleton.mp hnew]
      exact (h.batch functor (by rw [hcons]; exact List.mem_cons_self)).symm
  · exact h.batch f (by rw [hcons]; exact List.mem_cons_of_mem functor hf)
  · exact absurd (h.idle hidle) hbatch

theorem Punctual.returnFunctors {s : LoopPass F} {phase : PassPhase}
    (h : s.Punctual) (hran : s.phase.ran = some phase)
    (hbatch : s.queue.batch = []) :
    Punctual { s with phase := phase } := by
  have hdue : s.phase.due s.pass = phase.due s.pass := by
    cases hphase : s.phase <;> simp [hphase, PassPhase.ran] at hran <;>
      subst hran <;> rfl
  refine ⟨h.order, h.called, h.batch, fun _ => hbatch, fun f hf => ?_,
    h.stopped_phase fun hbehind => hbehind.ran hran⟩
  rw [h.queued f hf, hdue]

theorem Punctual.test {s : LoopPass F} (h : s.Punctual)
    (hphase : s.phase = .timers) : s.test.Punctual := by
  have hbatch : s.queue.batch = [] := h.idle (by rw [hphase]; rfl)
  refine ⟨h.order, h.called, fun f hf => ?_, fun _ => hbatch, fun f hf => ?_,
    fun pass hpass => ?_⟩
  · change f ∈ s.queue.batch at hf
    rw [hbatch] at hf
    cases hf
  · have hdue := h.queued f hf
    rw [hphase] at hdue
    rw [hdue, LoopPass.test]
    cases s.quit <;> rfl
  · obtain ⟨hquit, hnow | ⟨_, hbehind⟩⟩ := h.stopped pass hpass
    · refine ⟨hquit, Or.inr ⟨congrArg (· + 1) hnow, Or.inl ?_⟩⟩
      rw [LoopPass.test, hquit]
      rfl
    · rw [hphase] at hbehind
      exact absurd hbehind (by decide)

theorem Punctual.step {s : LoopPass F} (h : s.Punctual) {step : PassStep F}
    (henabled : (passMachine F).enabled s step) :
    ∃ s', (passMachine F).exec s step = some s' ∧ s'.Punctual := by
  cases step with
  | queueInLoop functor => exact ⟨_, rfl, h.queueInLoop functor⟩
  | stop => exact ⟨_, rfl, h.stop⟩
  | swapFunctors =>
      obtain ⟨phase, hruns⟩ := Option.isSome_iff_exists.mp henabled
      exact ⟨_, by simp only [passMachine, hruns, Option.map_some],
        h.swapFunctors hruns⟩
  | callFunctor => exact h.callFunctor henabled
  | returnFunctors =>
      obtain ⟨hran, hbatch⟩ := henabled
      obtain ⟨phase, hran⟩ := Option.isSome_iff_exists.mp hran
      exact ⟨_, by simp only [passMachine, hran, Option.map_some],
        h.returnFunctors hran hbatch⟩
  | test => exact ⟨_, rfl, h.test henabled⟩

end LoopPass

/-- The passes of the loop.  In every interleaving the functors called, those of
the batch and those of the queue are, in this order, all that were queued; one
that is queued before the functors of a pass are called is called in that pass,
and any other in the next one, if there is one; none is ever overdue; and no
pass begins once `stop` was called, but for the last call of `runFunctors`. -/
theorem loop_punctual {word : List (PassStep F)}
    (hlegal : (passMachine F).Legal .start word) :
    (passMachine F).Holds (fun s =>
        s.called.map Prod.fst ++ s.queue.batch ++ s.queue.functors =
          s.queued ∧
        (∀ call ∈ s.called, call.2 = call.1.1) ∧
        (∀ functor ∈ s.queue.batch, functor.1 = s.pass) ∧
        (∀ functor ∈ s.queue.functors, functor.1 = s.phase.due s.pass) ∧
        ∀ pass, s.stopped = some pass →
          s.pass = pass ∨ s.pass = pass + 1 ∧ s.phase.Behind)
      .start word := by
  have hrun := Machine.holds_of_step
    (fun s step h hstep => LoopPass.Punctual.step h hstep)
    LoopPass.start_punctual hlegal
  exact hrun.mono fun s h =>
    ⟨(List.append_assoc ..).trans h.order, h.called, h.batch, h.queued,
      fun pass hpass => (h.stopped pass hpass).2⟩

instance (s : LoopPass F) (step : PassStep F) :
    Decidable ((passMachine F).enabled s step) :=
  match step with
  | .queueInLoop _ => isTrue trivial
  | .stop => isTrue trivial
  | .swapFunctors => inferInstanceAs (Decidable (s.phase.runs.isSome = true))
  | .callFunctor => inferInstanceAs (Decidable (s.queue.batch ≠ []))
  | .returnFunctors => inferInstanceAs
      (Decidable (s.phase.ran.isSome = true ∧ s.queue.batch = []))
  | .test => inferInstanceAs (Decidable (s.phase = .timers))

/-- A functor queues another and stops the loop; the second is called behind
it. -/
theorem loop_punctual_stopped :
    (passMachine Nat).Holds (fun s =>
        s.called.map Prod.fst ++ s.queue.batch ++ s.queue.functors =
          s.queued ∧
        (∀ call ∈ s.called, call.2 = call.1.1) ∧
        (∀ functor ∈ s.queue.batch, functor.1 = s.pass) ∧
        (∀ functor ∈ s.queue.functors, functor.1 = s.phase.due s.pass) ∧
        ∀ pass, s.stopped = some pass →
          s.pass = pass ∨ s.pass = pass + 1 ∧ s.phase.Behind)
      .start
      [.test, .queueInLoop 1, .swapFunctors, .callFunctor, .queueInLoop 2, .stop,
        .returnFunctors, .test, .swapFunctors, .callFunctor, .returnFunctors] :=
  loop_punctual (by decide)

end Libsaf
