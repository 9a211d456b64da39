/-
The functors of an event loop at its exit.  `runFunctors` calls what was queued
when it began; it is called in every pass of the `while` loop of `start`, once
behind that loop and once in the destructor.  Functors that are queued in the
last of these calls are never called.
-/
import Libsaf.EventLoop
import Libsaf.WorkTree

namespace Libsaf

universe u

variable {F : Type u}

/-- Where the thread of the loop is: in the `while` loop of `start` or behind it,
behind `start`, or behind the destructor; and whether it is in `runFunctors`. -/
inductive ExitPhase where
  | looping
  | loopFunctors
  | left
  | lastFunctors
  | returned
  | destructFunctors
  | destructed
deriving Repr, DecidableEq

/-- The phase in which a call of `runFunctors` is, that is made in this phase. -/
def ExitPhase.runs : ExitPhase → Option ExitPhase
  | .looping => some .loopFunctors
  | .left => some .lastFunctors
  | .returned => some .destructFunctors
  | _ => none

/-- The phase after a call of `runFunctors`. -/
def ExitPhase.ran : ExitPhase → Option ExitPhase
  | .loopFunctors => some .looping
  | .lastFunctors => some .returned
  | .destructFunctors => some .destructed
  | _ => none

/-- A functor is the root of the tree of functors that it queues when it runs.
`calling` is what the functor that is being called has still to queue; `queued`
are the functors that others queued and `executed` those that were called. -/
structure LoopExit (F : Type u) where
  queue : FunctorQueue (WorkTree F)
  calling : List (WorkTree F)
  phase : ExitPhase
  queued : List (WorkTree F)
  executed : List F

/-- `leave` is the test of `_quit` that ends the `while` loop. -/
inductive ExitStep (F : Type u) where
  | queueInLoop (functor : WorkTree F)
  | swapFunctors
  | callFunctor
  | queueNext
  | returnFunctors
  | leave

namespace LoopExit

def start : LoopExit F := ⟨.empty, [], .looping, [], []⟩

/-- The next functor of the batch is called. -/
def callFunctor (s : LoopExit F) : Option (LoopExit F) :=
  s.queue.nextFunctor.map fun (functor, queue) => { s with
    queue := queue
    calling := functor.makes
    executed := s.executed ++ [functor.item] }

/-- It queues the next functor on its own loop. -/
def queueNext (s : LoopExit F) : Option (LoopExit F) :=
  match s.calling with
  | [] => none
  | functor :: rest => some { s with
      queue := s.queue.queueInLoop functor
      calling := rest }

end LoopExit

/-- Others queue functors as long as the loop has not left its `while` loop. -/
def exitMachine (F : Type u) : Machine (LoopExit F) (ExitStep F) where
  enabled s
    | .queueInLoop _ => s.phase = .looping ∨ s.phase = .loopFunctors
    | .swapFunctors => s.phase.runs.isSome
    | .callFunctor => s.calling = [] ∧ s.queue.batch ≠ []
    | .queueNext => s.calling ≠ []
    | .returnFunctors => s.phase.ran.isSome ∧ s.calling = [] ∧
        s.queue.batch = []
    | .leave => s.phase = .looping
  exec s
    | .queueInLoop functor => some { s with
        queue := s.queue.queueInLoop functor
        queued := s.queued ++ [functor] }
    | .swapFunctors => s.phase.runs.map fun phase => { s with
        queue := s.queue.swapFunctors
        phase := phase }
    | .callFunctor => s.callFunctor
    | .queueNext => s.queueNext
    | .returnFunctors => s.phase.ran.map fun phase => { s with phase := phase }
    | .leave => some { s with phase := .left }

namespace LoopExit

open WorkTree

/-- What was called and what waits are all functors, and outside `runFunctors`
there is no batch. -/
structure Intact (s : LoopExit F) : Prop where
  account : (s.executed ++ forestItems (s.calling ++ s.queue.pending)).Perm
    (forestItems s.queued)
  idle : s.phase.ran = none → s.calling = [] ∧ s.queue.batch = []

/-- How many calls of `runFunctors` are still to begin after the `while` loop. -/
def callsLeft : ExitPhase → Option Nat
  | .looping | .loopFunctors => none
  | .left => some 2
  | .lastFunctors | .returned => some 1
  | .destructFunctors | .destructed => some 0

/-- Behind the `while` loop: there is a call of `runFunctors` for every level of
what waits. -/
def Fits (s : LoopExit F) : Prop :=
  ∀ calls ∈ callsLeft s.phase,
    (∀ tree ∈ s.queue.batch, tree.Within (calls + 1)) ∧
      ∀ tree ∈ s.calling ++ s.queue.functors, tree.Within calls

variable {s s' : LoopExit F}

theorem start_intact : (start : LoopExit F).Intact :=
  ⟨by simp [start, FunctorQueue.empty, FunctorQueue.pending],
    fun _ => ⟨rfl, rfl⟩⟩

theorem runs_idle {phase phase' : ExitPhase} (h : phase.runs = some phase') :
    phase.ran = none ∧ phase'.ran ≠ none := by
  cases phase <;> cases h <;> exact ⟨rfl, by decide⟩

theorem intact_step (h : s.Intact) {step : ExitStep F}
    (henabled : (exitMachine F).enabled s step)
    (hexec : (exitMachine F).exec s step = some s') : s'.Intact := by
  obtain ⟨haccount, hidle⟩ := h
  cases step with
  | queueInLoop functor =>
      cases hexec
      refine ⟨?_, hidle⟩
      simp only [FunctorQueue.pending_queueInLoop, ← List.append_assoc,
        forestItems_append] at haccount ⊢
      exact haccount.append_right _
  | swapFunctors =>
      obtain ⟨phase, hphase, rfl⟩ := Option.map_eq_some_iff.mp hexec
      obtain ⟨hran, hruns⟩ := runs_idle hphase
      obtain ⟨hcalling, hbatch⟩ := hidle hran
      refine ⟨?_, fun hnone => absurd hnone hruns⟩
      rw [← FunctorQueue.pending_swapFunctors hbatch] at haccount
      exact haccount
  | callFunctor =>
      obtain ⟨⟨functor, queue⟩, hnext, rfl⟩ := Option.map_eq_some_iff.mp hexec
      refine ⟨?_, fun hnone => absurd (hidle hnone).2 henabled.2⟩
      rw [henabled.1, List.nil_append, FunctorQueue.pending_nextFunctor hnext,
        forestItems_cons, items_eq] at haccount
      simpa using haccount
  | queueNext =>
      have hqueue : s.queueNext = some s' := hexec
      unfold queueNext at hqueue
      split at hqueue
      · cases hqueue
      · next functor rest hcalling =>
          cases hqueue
          refine ⟨?_, fun hnone => absurd (hidle hnone).1 henabled⟩
          rw [hcalling] at haccount
          refine (List.Perm.append_left _ (forestItems_perm ?_)).trans haccount
          rw [FunctorQueue.pending_queueInLoop, ← List.append_assoc]
          exact List.perm_append_singleton functor _
  | returnFunctors =>
      obtain ⟨phase, _, rfl⟩ := Option.map_eq_some_iff.mp hexec
      exact ⟨haccount, fun _ => henabled.2⟩
  | leave =>
      cases hexec
      have hlooping : s.phase = .looping := henabled
      exact ⟨haccount, fun _ => hidle (by rw [hlooping]; rfl)⟩

theorem fits_iff {calls : Nat} (hcalls : callsLeft s.phase = some calls) :
    s.Fits ↔ (∀ tree ∈ s.queue.batch, tree.Within (calls + 1)) ∧
      ∀ tree ∈ s.calling ++ s.queue.functors, tree.Within calls := by
  simp [Fits, hcalls]

theorem callsLeft_runs {phase phase' : ExitPhase} {calls : Nat}
    (hphase : phase.runs = some phase') (hcalls : callsLeft phase = some calls) :
    ∃ calls', callsLeft phase' = some calls' ∧ calls = calls' + 1 := by
  cases phase <;> cases hphase <;> cases hcalls <;> exact ⟨_, rfl, rfl⟩

theorem callsLeft_ran {phase phase' : ExitPhase}
    (hphase : phase.ran = some phase') : callsLeft phase' = callsLeft phase := by
  cases phase <;> cases hphase <;> rfl

/-- Behind the `while` loop every step keeps the calls and the levels in step. -/
theorem fits_step (h : s.Intact) {step : ExitStep F}
    (henabled : (exitMachine F).enabled s step)
    (hexec : (exitMachine F).exec s step = some s') {calls : Nat}
    (hcalls : callsLeft s.phase = some calls) :
    ∃ calls', callsLeft s'.phase = some calls' ∧ (s'.Fits ↔ s.Fits) := by
  cases step with
  | queueInLoop functor =>
      rcases henabled with hphase | hphase <;> rw [hphase] at hcalls <;>
        cases hcalls
  | swapFunctors =>
      obtain ⟨phase, hphase, rfl⟩ := Option.map_eq_some_iff.mp hexec
      obtain ⟨hcalling, hbatch⟩ := h.idle (runs_idle hphase).1
      obtain ⟨calls', hcalls', rfl⟩ := callsLeft_runs hphase hcalls
      have hs := fits_iff hcalls
      have hs' := fits_iff (s := { s with
        queue := s.queue.swapFunctors
        phase := phase }) hcalls'
      refine ⟨calls', hcalls', hs'.trans (Iff.trans ?_ hs.symm)⟩
      simp [FunctorQueue.swapFunctors, hcalling, hbatch]
  | callFunctor =>
      obtain ⟨⟨functor, queue⟩, hnext, rfl⟩ := Option.map_eq_some_iff.mp hexec
      have hs := fits_iff hcalls
      have hs' := fits_iff (s := { s with
        queue := queue
        calling := functor.makes
        executed := s.executed ++ [functor.item] }) hcalls
      refine ⟨calls, hcalls, hs'.trans (Iff.trans ?_ hs.symm)⟩
      rw [henabled.1]
      obtain ⟨rest, hbatch, rfl⟩ :
          ∃ rest, s.queue.batch = functor :: rest ∧
            queue = { s.queue with batch := rest } := by
        unfold FunctorQueue.nextFunctor at hnext
        split at hnext
        · cases hnext
        · next first rest hbatch =>
            cases hnext
            exact ⟨rest, hbatch, rfl⟩
      simp only [hbatch, List.forall_mem_cons, List.nil_append,
        List.forall_mem_append, Within]
      constructor
      · rintro ⟨hrest, hmakes, hfunctors⟩
        exact ⟨⟨hmakes, hrest⟩, hfunctors⟩
      · rintro ⟨⟨hmakes, hrest⟩, hfunctors⟩
        exact ⟨hrest, hmakes, hfunctors⟩
  | queueNext =>
      have hqueue : s.queueNext = some s' := hexec
      unfold queueNext at hqueue
      split at hqueue
      · cases hqueue
      · next functor rest hcalling =>
          cases hqueue
          have hs := fits_iff hcalls
          have hs' := fits_iff (s := { s with
            queue := s.queue.queueInLoop functor
            calling := rest }) hcalls
          refine ⟨calls, hcalls, hs'.trans (Iff.trans ?_ hs.symm)⟩
          rw [hcalling]
          simp only [FunctorQueue.queueInLoop, List.cons_append,
            List.forall_mem_cons, List.forall_mem_append, List.not_mem_nil,
            false_implies, implies_true, and_true]
          constructor
          · rintro ⟨hbatch, hrest, hfunctors, hfunctor⟩
            exact ⟨hbatch, hfunctor, hrest, hfunctors⟩
          · rintro ⟨hbatch, hfunctor, hrest, hfunctors⟩
            exact ⟨hbatch, hrest, hfunctors, hfunctor⟩
  | returnFunctors =>
      obtain ⟨phase, hphase, rfl⟩ := Option.map_eq_some_iff.mp hexec
      have hcalls' : callsLeft phase = some calls :=
        (callsLeft_ran hphase).trans hcalls
      have hs := fits_iff hcalls
      have hs' := fits_iff (s := { s with phase := phase }) hcalls'
      exact ⟨calls, hcalls', hs'.trans hs.symm⟩
  | leave =>
      have hlooping : s.phase = .looping := henabled
      rw [hlooping] at hcalls
      cases hcalls

/-- To the end of the run. -/
theorem fits_run {word : List (ExitStep F)} (h : s.Intact)
    (hlegal : (exitMachine F).Legal s word)
    (hrun : (exitMachine F).run s word = some s') {calls : Nat}
    (hcalls : callsLeft s.phase = some calls) :
    s'.Intact ∧ (s'.Fits ↔ s.Fits) := by
  induction word generalizing s calls with
  | nil =>
      obtain rfl := Option.some.inj hrun
      exact ⟨h, Iff.rfl⟩
  | cons step word ih =>
      obtain ⟨t, hexec, hrest⟩ := Option.bind_eq_some_iff.mp hrun
      obtain ⟨calls', hcalls', hiff⟩ := fits_step h hlegal.1 hexec hcalls
      obtain ⟨hintact, hfits⟩ := ih (intact_step h hlegal.1 hexec)
        (hlegal.2 t hexec) hrest hcalls'
      exact ⟨hintact, hfits.trans hiff⟩

theorem intact_run {word : List (ExitStep F)} (h : s.Intact)
    (hlegal : (exitMachine F).Legal s word)
    (hrun : (exitMachine F).run s word = some s') : s'.Intact :=
  Machine.invariant_run
    (fun _ _ _ hs henabled hexec => intact_step hs henabled hexec) h hlegal hrun

/-- Behind the destructor only the queue can hold functors. -/
theorem drained_iff (h : s.Intact) (hphase : s.phase = .destructed) :
    s.executed.Perm (forestItems s.queued) ↔ s.Fits := by
  obtain ⟨hcalling, hbatch⟩ := h.idle (by rw [hphase]; rfl)
  have haccount := h.account
  rw [hcalling, List.nil_append, FunctorQueue.pending, hbatch,
    List.nil_append] at haccount
  have hcalls : callsLeft s.phase = some 0 := by rw [hphase]; rfl
  rw [perm_done_iff haccount, fits_iff hcalls, hcalling, hbatch,
    List.nil_append, within_zero_iff]
  simp

instance (s : LoopExit F) : ∀ step, Decidable ((exitMachine F).enabled s step)
  | .queueInLoop _ => inferInstanceAs (Decidable (_ ∨ _))
  | .swapFunctors => inferInstanceAs (Decidable (_ = true))
  | .callFunctor => inferInstanceAs (Decidable (_ = [] ∧ _ ≠ []))
  | .queueNext => inferInstanceAs (Decidable (_ ≠ []))
  | .returnFunctors => inferInstanceAs (Decidable (_ = true ∧ _ = [] ∧ _ = []))
  | .leave => inferInstanceAs (Decidable (_ = _))

/-- Everything that was queued is called until the destructor returns if and
only if the functors that waited when the `while` loop was left queue functors
that queue none. -/
theorem functors_drained_iff {front back : List (ExitStep F)} {t : LoopExit F}
    (hlegal : (exitMachine F).Legal .start (front ++ .leave :: back))
    (hleave : (exitMachine F).run .start front = some t)
    (hrun : (exitMachine F).run .start (front ++ .leave :: back) = some s)
    (hdestructed : s.phase = .destructed) :
    s.executed.Perm (forestItems s.queued) ↔
      ∀ tree ∈ t.queue.functors, tree.Within 2 := by
  obtain ⟨hfront, hback⟩ := Machine.meets_append.mp hlegal
  obtain ⟨hleft, hback⟩ := hback t hleave
  have ht : t.Intact := intact_run start_intact hfront hleave
  have hlooping : t.phase = .looping := hleft
  obtain ⟨hcalling, hbatch⟩ := ht.idle (by rw [hlooping]; rfl)
  let left : LoopExit F := { t with phase := .left }
  have hexec : (exitMachine F).exec t .leave = some left := rfl
  have hcalls : callsLeft left.phase = some 2 := rfl
  rw [Machine.run_front hleave, Machine.run_cons hexec] at hrun
  obtain ⟨hs, hfits⟩ := fits_run (intact_step ht hleft hexec) (hback _ hexec)
    hrun hcalls
  rw [drained_iff hs hdestructed, hfits, fits_iff hcalls, hcalling, hbatch]
  simp [left]

/-- A functor that queues another one when it runs. -/
def chainTwo : WorkTree Nat := .node 1 [.node 2 []]

/-- A functor that queues one that queues a third one. -/
def chainThree : WorkTree Nat := .node 1 [.node 2 [.node 3 []]]

/-- A call of `runFunctors` with one functor, and what it queues. -/
def runOne (made : Nat) : List (ExitStep Nat) :=
  [.swapFunctors, .callFunctor] ++ List.replicate made .queueNext ++
    [.returnFunctors]

theorem functors_drained_iff_two :
    [1, 2].Perm (forestItems [chainTwo]) ↔ ∀ tree ∈ [chainTwo], tree.Within 2 :=
  @functors_drained_iff Nat
    ⟨⟨[], []⟩, [], .destructed, [chainTwo], [1, 2]⟩ [.queueInLoop chainTwo]
    (runOne 1 ++ runOne 0) ⟨⟨[chainTwo], []⟩, [], .looping, [chainTwo], []⟩
    (by decide) rfl rfl rfl

/-- The third functor of a chain is still queued when the destructor returns. -/
theorem functors_dropped :
    let word := .queueInLoop chainThree :: .leave :: (runOne 1 ++ runOne 1)
    (exitMachine Nat).Legal .start word ∧
      ∃ s, (exitMachine Nat).run .start word = some s ∧
        s.phase = .destructed ∧ s.queue.functors = [.node 3 []] ∧
        ¬ s.executed.Perm (forestItems s.queued) :=
  ⟨by decide, _, rfl, rfl, rfl, by decide⟩

end LoopExit

end Libsaf
