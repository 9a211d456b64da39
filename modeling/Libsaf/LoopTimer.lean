/-
`EventLoop::addTimer` and `cancelTimer` on one loop and any number of threads.
On the thread of the loop they act at once, on another they queue a functor; so
a cancel of the loop's thread can overtake an addition that is still queued.
-/
import Libsaf.EventLoop
import Libsaf.TimerRun

namespace Libsaf

universe v

variable {T : Type v}

/-- A functor of `addTimer` or of `cancelTimer`.  `timers` are those for which
`addTimer` had returned the id when it was cancelled. -/
inductive TimerTask where
  | addTimer (timer : Nat)
  | cancelTimer (fd : Int) (timers : List Nat)
deriving Repr, DecidableEq

/-- The timer that a functor adds. -/
def TimerTask.addition : TimerTask → Option Nat
  | .addTimer timer => some timer
  | .cancelTimer _ _ => none

def TimerTask.operation : TimerTask → TimerOp
  | .addTimer timer => .addTimer timer
  | .cancelTimer fd _ => .cancelTimer fd

/-- A call of `addTimer`, before and after its `runInLoop`. -/
inductive AddTimerCall where
  | created (timer : Nat)
  | passed (timer : Nat)
deriving Repr, DecidableEq

/-- `adding` are the calls of `addTimer` under way, `calling` says that the
loop is inside `runFunctors`, and `executing` is the timer whose
`handleTimeout` is being executed.  The rest is history: the ids that
`addTimer` returned, the timers added and cancelled by the loop, those called
in spite of it, and those whose id was read when they were gone. -/
structure LoopTimers (T : Type v) where
  run : TimerRun
  functors : FunctorQueue TimerTask
  calling : Bool
  adding : T → Option AddTimerCall
  executing : Option Nat
  returned : List (Nat × Int)
  added : List Nat
  cancelled : List Nat
  late : List Nat
  dangling : List Nat

/-- `addTimer` is cut into its three lines.  `garbage` is what `getFd` finds in
a deleted timer. -/
inductive LoopTimerStep (T : Type v) where
  | createTimer (thread : T) (interval : Int) (repeated : Bool) (now : Int)
  | runInLoop (thread : T)
  | getFd (thread : T) (garbage : Int)
  | cancelTimer (thread : T) (fd : Int)
  | swapFunctors
  | callFunctor
  | returnFunctors
  | popTimer (now : Int)
  | returnFromTimeout
deriving Repr, DecidableEq

namespace LoopTimers

def start : LoopTimers T :=
  { run := .start
    functors := .empty
    calling := false
    adding := fun _ => none
    executing := none
    returned := []
    added := []
    cancelled := []
    late := []
    dangling := [] }

/-- The functor of `addTimer`. -/
def addTimer (s : LoopTimers T) (timer : Nat) : Option (LoopTimers T) :=
  (timerMachine.exec s.run (.addTimer timer)).map fun run =>
    { s with run := run, added := timer :: s.added }

/-- The functor of `cancelTimer`. -/
def cancelTimer (s : LoopTimers T) (fd : Int) (timers : List Nat) :
    Option (LoopTimers T) :=
  (timerMachine.exec s.run (.cancelTimer fd)).map fun run =>
    { s with run := run, cancelled := timers ++ s.cancelled }

def call (s : LoopTimers T) : TimerTask → Option (LoopTimers T)
  | .addTimer timer => s.addTimer timer
  | .cancelTimer fd timers => s.cancelTimer fd timers

def queueInLoop (s : LoopTimers T) (task : TimerTask) : LoopTimers T :=
  { s with functors := s.functors.queueInLoop task }

/-- The timers with an id, as the callers of `addTimer` know it. -/
def named (s : LoopTimers T) (fd : Int) : List Nat :=
  (s.returned.filter fun entry => entry.2 = fd).map Prod.fst

/-- The timer that `popTimer` is about to call. -/
def first (s : LoopTimers T) : Option Nat := s.run.queue.heap[1]?.join

/-- `popTimer` up to the call of `handleTimeout`. -/
def popTimer (s : LoopTimers T) (now : Int) : Option (LoopTimers T) :=
  (timerMachine.exec s.run (.popTimer now)).map fun run =>
    { s with
      run := run
      executing := s.first
      late := s.late ++ s.first.toList.filter fun timer =>
        timer ∈ s.cancelled ∧ timer ∈ s.added }

variable [DecidableEq T]

/-- The first line of `addTimer`. -/
def createTimer (s : LoopTimers T) (thread : T) (interval : Int)
    (repeated : Bool) (now : Int) : Option (LoopTimers T) :=
  let timer := (s.run.queue.createTimer interval repeated now).1
  (timerMachine.exec s.run (.createTimer interval repeated now)).map fun run =>
    { s with
      run := run
      adding := Function.update s.adding thread (some (.created timer)) }

/-- `EventLoop::runInLoop`. -/
def runInLoop (s : LoopTimers T) (loop thread : T) (task : TimerTask) :
    Option (LoopTimers T) :=
  if thread = loop then s.call task else some (s.queueInLoop task)

/-- The call of `addTimer` goes on to its last line. -/
def pass (s : LoopTimers T) (thread : T) (timer : Nat) : LoopTimers T :=
  { s with
    adding := Function.update s.adding thread (some (.passed timer)) }

/-- The last line of `addTimer`. -/
def getFd (s : LoopTimers T) (thread : T) (timer : Nat) (garbage : Int) :
    LoopTimers T :=
  { s with
    adding := Function.update s.adding thread none
    returned := s.returned ++
      [(timer, ((s.run.queue.memory timer).map Timer.fd).getD garbage)]
    dangling :=
      if s.run.queue.memory timer = none then s.dangling ++ [timer]
      else s.dangling }

/-- The thread of the loop is between two events of its loop. -/
def Free (s : LoopTimers T) (loop : T) : Prop :=
  s.adding loop = none ∧ s.calling = false ∧ s.run.firing = []

end LoopTimers

/-- A thread is in one call at a time.  The callbacks and functors of the
application call `addTimer` and `cancelTimer` on the thread of the loop. -/
def loopTimerMachine [DecidableEq T] (loop : T) :
    Machine (LoopTimers T) (LoopTimerStep T) where
  enabled s
    | .createTimer thread _ _ _ => s.adding thread = none
    | .runInLoop thread => ∃ timer, s.adding thread = some (.created timer)
    | .getFd thread _ => ∃ timer, s.adding thread = some (.passed timer)
    | .cancelTimer thread _ => s.adding thread = none
    | .swapFunctors => s.Free loop
    | .callFunctor => s.adding loop = none ∧ s.calling = true ∧
        s.functors.batch ≠ []
    | .returnFunctors => s.adding loop = none ∧ s.calling = true ∧
        s.functors.batch = []
    | .popTimer _ => s.Free loop ∧ 1 < s.run.queue.heap.length
    | .returnFromTimeout => s.adding loop = none ∧ s.run.firing ≠ []
  exec s
    | .createTimer thread interval repeated now =>
        s.createTimer thread interval repeated now
    | .runInLoop thread =>
        match s.adding thread with
        | some (.created timer) =>
            (s.pass thread timer).runInLoop loop thread (.addTimer timer)
        | _ => none
    | .getFd thread garbage =>
        match s.adding thread with
        | some (.passed timer) => some (s.getFd thread timer garbage)
        | _ => none
    | .cancelTimer thread fd =>
        s.runInLoop loop thread (.cancelTimer fd (s.named fd))
    | .swapFunctors => some { s with
        functors := s.functors.swapFunctors
        calling := true }
    | .callFunctor => s.functors.nextFunctor.bind fun (task, functors) =>
        { s with functors := functors }.call task
    | .returnFunctors => some { s with calling := false }
    | .popTimer now => s.popTimer now
    | .returnFromTimeout =>
        (timerMachine.exec s.run .returnFromTimeout).map fun run =>
          { s with run := run, executing := none }

/-- The timer that an operation adds. -/
def TimerOp.adds : TimerOp → Option Nat
  | .addTimer timer => some timer
  | _ => none

namespace TimerRun

variable {s s' : TimerRun}

/-- The timer that an operation deletes. -/
def drops (s : TimerRun) : TimerOp → Option Nat
  | .cancelTimer fd => s.queue.timers fd
  | .returnFromTimeout => s.firing.head?.join
  | _ => none

/-- The id of the timer that was created as number `p`. -/
def idOf (p : Nat) : Int := toInt (TimerQueue.StartFd - (p + 1))

theorem KeepsIds.none (h : s.KeepsIds s') {p : Nat}
    (hp : s.queue.memory p = none) : s'.queue.memory p = none := by
  rcases h.2.2 p with hnone | hfd
  · exact hnone
  · rw [hp, Option.map_none, Option.map_eq_none_iff] at hfd
    exact hfd

/-- The addition moves a timer to the heap. -/
theorem addTimer_owners (h : s.Safe) (hroom : s.queue.heap.length < 2 ^ 31)
    {p : Nat} (hp : p ∈ s.created) (hfresh : s.Fresh (.addTimer p))
    (hexec : timerMachine.exec s (.addTimer p) = some s') :
    (∀ x, some x ∈ s'.queue.heap ↔ some x ∈ s.queue.heap ∨ x = p) ∧
      s'.created = s.created.erase p ∧ s'.firing = s.firing ∧
      ∀ x, s'.queue.memory x = none ↔ s.queue.memory x = none := by
  obtain ⟨t, ht⟩ := h.accounted.memory (Or.inl hp)
  obtain ⟨q', hrun, _, hsifted, _⟩ :=
    TimerQueue.addTimer_spec h.consistent hroom ht
      (h.accounted.not_mem_heap (Or.inl hp)) (hfresh t ht)
  simp only [timerMachine, hrun, Option.map_some, Option.some.injEq] at hexec
  subst hexec
  refine ⟨fun x => ?_, rfl, rfl, hsifted.none_iff⟩
  simpa using hsifted.heap.mem_iff (a := some x)

/-- A cancel takes out the timer with the id. -/
theorem cancelTimer_owners (h : s.Safe) {fd : Int}
    (hroom : s.Room (.cancelTimer fd))
    (hexec : timerMachine.exec s (.cancelTimer fd) = some s') :
    (∀ x, some x ∈ s'.queue.heap ↔
        some x ∈ s.queue.heap ∧ s.queue.timers fd ≠ some x) ∧
      s'.created = s.created ∧ s'.firing = s.firing ∧
      ∀ x, s'.queue.memory x = none ↔
        s.queue.memory x = none ∨ s.queue.timers fd = some x := by
  cases hentry : s.queue.timers fd with
  | none =>
      simp only [timerMachine, TimerQueue.cancelTimer_of_none hentry,
        Option.map_some, Option.some.injEq] at hexec
      subst hexec
      exact ⟨by simp, rfl, rfl, by simp⟩
  | some p =>
      obtain ⟨q', hrun, _, hdeleted, hsifted, _⟩ :=
        TimerQueue.cancelTimer_spec h.consistent
          (hroom (by rw [hentry]; exact Option.some_ne_none p)) hentry
      simp only [timerMachine, hrun, Option.map_some,
        Option.some.injEq] at hexec
      subst hexec
      have hheap : (q'.heap ++ [some p]).Perm s.queue.heap := hsifted.heap
      have hout : some p ∉ q'.heap := h.consistent.linked.not_mem hheap
      refine ⟨fun x => ?_, rfl, rfl, fun x => ?_⟩
      · rw [← hheap.mem_iff, List.mem_append, List.mem_singleton]
        constructor
        · intro hx
          refine ⟨Or.inl hx, ?_⟩
          rintro ⟨⟩
          exact hout hx
        · rintro ⟨hx | hx, hne⟩
          · exact hx
          · exact absurd hx.symm hne
      · rcases eq_or_ne x p with rfl | hne
        · simp [hdeleted]
        · simpa [hne, Ne.symm hne] using hsifted.none_iff x

/-- The first timer is popped; a one-shot timer leaves the heap. -/
theorem popTimer_owners (h : s.Safe) (hroom : s.queue.heap.length < 2 ^ 31)
    (hlt : 1 < s.queue.heap.length) {now : Int}
    (hexec : timerMachine.exec s (.popTimer now) = some s') :
    ∃ p, s.queue.heap[1]? = some (some p) ∧ s'.created = s.created ∧
      (∀ x, some x ∈ s'.queue.heap → some x ∈ s.queue.heap) ∧
      (s'.firing = some p :: s.firing ∨
        s'.firing = none :: s.firing ∧ some p ∈ s'.queue.heap) ∧
      ∀ x, s'.queue.memory x = none ↔ s.queue.memory x = none := by
  obtain ⟨p, t, hp, ht, _⟩ :=
    h.consistent.linked.linked 1 (Nat.le_refl 1) hlt
  refine ⟨p, hp, ?_⟩
  cases hrepeated : t.repeated with
  | false =>
      obtain ⟨q', hrun, _, hsifted, _⟩ :=
        TimerQueue.popTimer_once h.consistent hroom hp ht hrepeated now
      simp only [timerMachine, hrun, Option.map_some,
        Option.some.injEq] at hexec
      subst hexec
      refine ⟨rfl, fun x hx => ?_, Or.inl rfl, hsifted.none_iff⟩
      exact hsifted.heap.subset (List.mem_append_left _ hx)
  | true =>
      obtain ⟨q', hrun, _, hsifted, _⟩ :=
        TimerQueue.popTimer_repeated h.consistent hroom hp ht hrepeated now
      simp only [timerMachine, hrun, Option.map_some,
        Option.some.injEq] at hexec
      subst hexec
      refine ⟨rfl, fun x hx => hsifted.heap.subset hx, Or.inr ⟨rfl, ?_⟩,
        fun x => ?_⟩
      · exact hsifted.heap.mem_iff.mpr (List.mem_of_getElem? hp)
      · rw [hsifted.none_iff]
        rcases eq_or_ne x p with rfl | hne
        · simp [ht]
        · simp [hne]

/-- The local of `popTimer` goes out of scope. -/
theorem returnFromTimeout_owners
    (hexec : timerMachine.exec s .returnFromTimeout = some s') :
    s'.queue.heap = s.queue.heap ∧ s'.created = s.created ∧
      s'.firing = s.firing.tail ∧
      ∀ x, s'.queue.memory x = none ↔
        s.queue.memory x = none ∨ s.firing.head? = some (some x) := by
  obtain ⟨queue, created, firing⟩ := s
  match firing with
  | [] => cases hexec
  | none :: rest =>
      cases hexec
      exact ⟨rfl, rfl, rfl, by simp⟩
  | some p :: rest =>
      simp only [timerMachine, Option.map_eq_some_iff] at hexec
      obtain ⟨q', hdelete, rfl⟩ := hexec
      simp only [TimerQueue.delete, Option.bind_eq_bind,
        Option.bind_eq_some_iff, Option.some.injEq] at hdelete
      obtain ⟨_, _, rfl⟩ := hdelete
      refine ⟨rfl, rfl, rfl, fun x => ?_⟩
      rcases eq_or_ne x p with rfl | hne
      · simp
      · simp [hne, Ne.symm hne]

/-- The operations that make no timer. -/
theorem keepsIds_step (h : s.Safe) (hnumbered : s.Numbered) {op : TimerOp}
    (henabled : timerMachine.enabled s op) (hroom : s.Room op)
    (hold : ∀ interval repeated now,
      op ≠ .createTimer interval repeated now)
    (hexec : timerMachine.exec s op = some s') : s.KeepsIds s' := by
  have keep : ∀ {P : TimerRun → Prop},
      (∃ t, timerMachine.exec s op = some t ∧ t.Safe ∧ s.KeepsIds t ∧ P t) →
      s.KeepsIds s' := by
    rintro P ⟨t, ht, _, hkeep, _⟩
    obtain rfl : s' = t := Option.some.inj (hexec.symm.trans ht)
    exact hkeep
  cases op with
  | createTimer interval repeated now => exact absurd rfl (hold _ _ _)
  | addTimer timer =>
      exact keep (addTimer_step h hroom henabled (hnumbered.fresh h henabled))
  | cancelTimer fd => exact keep (cancelTimer_step h hroom)
  | popTimer now => exact keep (popTimer_step h hroom henabled now)
  | returnFromTimeout => exact keep (returnFromTimeout_step h henabled)

/-- Every timer in memory is in the heap, waits for its addition, or is in a
local of `popTimer`. -/
theorem Safe.memory_iff (h : s.Safe) {p : Nat} :
    s.queue.memory p ≠ none ↔
      some p ∈ s.queue.heap ∨ p ∈ s.created ∨ some p ∈ s.firing := by
  rw [h.accounted.live p]
  simp [owners, List.reduceOption_mem_iff]

theorem Safe.lt_next (h : s.Safe) {p : Nat}
    (hp : s.queue.memory p ≠ none) : p < s.queue.next := by
  by_contra hge
  exact hp (h.accounted.fresh p (Nat.not_lt.mp hge))

theorem Safe.created_nodup (h : s.Safe) : s.created.Nodup := by
  have hnodup := h.accounted.nodup
  rw [owners, List.append_assoc, List.nodup_append] at hnodup
  exact (List.nodup_append.mp hnodup.2.1).1

end TimerRun

namespace LoopTimers

variable {s s' : LoopTimers T} {loop : T}

/-- How the parts of the state fit together.  Every timer that was created and
not added waits in one place only. -/
structure Wired (s : LoopTimers T) : Prop where
  safe : s.run.Safe
  numbered : s.run.Numbered
  idle : s.calling = false → s.functors.batch = []
  queued : ∀ p, .addTimer p ∈ s.functors.pending → p ∈ s.run.created
  once : (s.functors.pending.filterMap TimerTask.addition).Nodup
  made : ∀ thread p, s.adding thread = some (.created p) →
    p ∈ s.run.created ∧ .addTimer p ∉ s.functors.pending
  own : ∀ thread other p, s.adding thread = some (.created p) →
    s.adding other = some (.created p) → other = thread
  passed : ∀ thread p, s.adding thread = some (.passed p) →
    p < s.run.queue.next ∧ ∀ other, s.adding other ≠ some (.created p)
  named : ∀ p fd, (p, fd) ∈ s.returned → p < s.run.queue.next ∧
    (∀ thread, s.adding thread ≠ some (.created p)) ∧
    (s.run.queue.memory p ≠ none → fd = TimerRun.idOf p)
  cancels : ∀ fd timers, .cancelTimer fd timers ∈ s.functors.pending →
    ∀ p ∈ timers, (p, fd) ∈ s.returned
  cancelled : ∀ p ∈ s.cancelled, ∃ fd, (p, fd) ∈ s.returned
  added : ∀ p ∈ s.added, p < s.run.queue.next ∧ p ∉ s.run.created
  single : s.run.firing.length ≤ 1
  firing : ∀ p, some p ∈ s.run.firing → s.executing = some p

/-- A timer whose addition is being passed on or made. -/
structure Unadded (s : LoopTimers T) (p : Nat) : Prop where
  created : p ∈ s.run.created
  unqueued : .addTimer p ∉ s.functors.pending
  unmade : ∀ thread, s.adding thread ≠ some (.created p)

theorem start_wired : (start : LoopTimers T).Wired where
  safe := TimerRun.start_safe
  numbered := TimerRun.start_numbered
  idle _ := rfl
  queued _ h := absurd h List.not_mem_nil
  once := List.nodup_nil
  made _ _ h := by cases h
  own _ _ _ h := by cases h
  passed _ _ h := by cases h
  named _ _ h := absurd h List.not_mem_nil
  cancels _ _ h := absurd h List.not_mem_nil
  cancelled _ h := absurd h List.not_mem_nil
  added _ h := absurd h List.not_mem_nil
  single := Nat.zero_le _
  firing _ h := absurd h List.not_mem_nil

/-- An operation of the queue that makes no timer. -/
theorem Wired.run_step (h : s.Wired) (op : TimerOp)
    (henabled : timerMachine.enabled s.run op) (hroom : s.run.Room op)
    (hold : ∀ interval repeated now,
      op ≠ .createTimer interval repeated now) :
    ∃ run, timerMachine.exec s.run op = some run ∧ run.Safe ∧ run.Numbered ∧
      s.run.KeepsIds run := by
  obtain ⟨run, hexec, hsafe⟩ := TimerRun.safe_step h.safe op henabled
    (h.numbered.fresh h.safe henabled) hroom
  have hkeep := TimerRun.keepsIds_step h.safe h.numbered henabled hroom hold
    hexec
  exact ⟨run, hexec, hsafe, h.numbered.keep hkeep, hkeep⟩

/-- The rest of the state when an operation of the queue was made. -/
theorem Wired.withRun (h : s.Wired) {run : TimerRun}
    (executing : Option Nat) (hsafe : run.Safe)
    (hnumbered : run.Numbered) (hkeep : s.run.KeepsIds run)
    (hqueued : ∀ p, .addTimer p ∈ s.functors.pending → p ∈ run.created)
    (hmade : ∀ thread p, s.adding thread = some (.created p) →
      p ∈ run.created)
    (hcreated : ∀ p ∈ run.created, p ∈ s.run.created)
    (hsingle : run.firing.length ≤ 1)
    (hfiring : ∀ p, some p ∈ run.firing → executing = some p) :
    Wired { s with run := run, executing := executing } := by
  have hnext : run.queue.next = s.run.queue.next := hkeep.2.1
  refine ⟨hsafe, hnumbered, h.idle, hqueued, h.once,
    fun thread p hp => ⟨hmade thread p hp, (h.made thread p hp).2⟩, h.own,
    fun thread p hp => ?_, fun p fd hp => ?_, h.cancels, h.cancelled,
    fun p hp => ?_, hsingle, hfiring⟩
  · exact ⟨hnext ▸ (h.passed thread p hp).1, (h.passed thread p hp).2⟩
  · obtain ⟨hlt, hunmade, hid⟩ := h.named p fd hp
    exact ⟨hnext ▸ hlt, hunmade, fun hlive => hid fun hnone =>
      hlive (hkeep.none hnone)⟩
  · obtain ⟨hlt, hout⟩ := h.added p hp
    exact ⟨hnext ▸ hlt, fun hin => hout (hcreated p hin)⟩

/-- The functor of `addTimer`, for a timer that nobody else is to add. -/
theorem Wired.addTimer (h : s.Wired) {p : Nat} (hp : s.Unadded p)
    (hroom : s.run.queue.heap.length < 2 ^ 31) :
    ∃ run, timerMachine.exec s.run (.addTimer p) = some run ∧
      Wired { s with run := run, added := p :: s.added } := by
  have henabled : timerMachine.enabled s.run (.addTimer p) := hp.created
  obtain ⟨run, hexec, hsafe, hnumbered, hkeep⟩ :=
    h.run_step _ henabled hroom (by simp)
  obtain ⟨_, hcreated, hfiring, _⟩ := TimerRun.addTimer_owners h.safe hroom
    hp.created (h.numbered.fresh h.safe henabled) hexec
  have hnodup := h.safe.created_nodup
  have hmem : ∀ x, x ∈ run.created ↔ x ≠ p ∧ x ∈ s.run.created := by
    intro x
    rw [hcreated]
    exact hnodup.mem_erase_iff
  have hw := h.withRun s.executing hsafe hnumbered hkeep
    (fun x hx => (hmem x).mpr ⟨fun heq => hp.unqueued (heq ▸ hx),
      h.queued x hx⟩)
    (fun thread x hx => (hmem x).mpr ⟨fun heq => hp.unmade thread (heq ▸ hx),
      (h.made thread x hx).1⟩)
    (fun x hx => ((hmem x).mp hx).2) (hfiring ▸ h.single) (hfiring ▸ h.firing)
  refine ⟨run, hexec, hsafe, hnumbered, hw.idle, hw.queued, hw.once, hw.made,
    hw.own, hw.passed, hw.named, hw.cancels, hw.cancelled, fun x hx => ?_,
    hw.single, hw.firing⟩
  rcases List.mem_cons.mp hx with rfl | hold
  · have hlt : x < s.run.queue.next :=
      h.safe.lt_next (h.safe.memory_iff.mpr (Or.inr (Or.inl hp.created)))
    exact ⟨hkeep.2.1 ▸ hlt, fun hin => ((hmem x).mp hin).1 rfl⟩
  · exact hw.added x hold

/-- The functor of `cancelTimer`. -/
theorem Wired.cancelTimer (h : s.Wired) {fd : Int} {timers : List Nat}
    (hroom : s.run.Room (.cancelTimer fd))
    (htimers : ∀ p ∈ timers, (p, fd) ∈ s.returned) :
    ∃ run, timerMachine.exec s.run (.cancelTimer fd) = some run ∧
      Wired { s with run := run, cancelled := timers ++ s.cancelled } := by
  obtain ⟨run, hexec, hsafe, hnumbered, hkeep⟩ :=
    h.run_step (.cancelTimer fd) trivial hroom (by simp)
  obtain ⟨_, hcreated, hfiring, _⟩ :=
    TimerRun.cancelTimer_owners h.safe hroom hexec
  have hw := h.withRun s.executing hsafe hnumbered hkeep
    (hcreated ▸ h.queued) (hcreated ▸ fun thread p hp => (h.made thread p hp).1)
    (fun x hx => hcreated ▸ hx) (hfiring ▸ h.single) (hfiring ▸ h.firing)
  refine ⟨run, hexec, hsafe, hnumbered, hw.idle, hw.queued, hw.once, hw.made,
    hw.own, hw.passed, hw.named, hw.cancels, fun p hp => ?_, hw.added,
    hw.single, hw.firing⟩
  rcases List.mem_append.mp hp with hnew | hold
  · exact ⟨fd, htimers p hnew⟩
  · exact h.cancelled p hold

theorem Wired.queueInLoop (h : s.Wired) {task : TimerTask}
    (hadd : ∀ p, task = .addTimer p → s.Unadded p)
    (hcancel : ∀ fd timers, task = .cancelTimer fd timers →
      ∀ p ∈ timers, (p, fd) ∈ s.returned)
    (hidle : s.calling = false → s.functors.batch = []) :
    (s.queueInLoop task).Wired := by
  have hmem : ∀ other, other ∈ (s.functors.queueInLoop task).pending ↔
      other ∈ s.functors.pending ∨ other = task :=
    fun _ => FunctorQueue.mem_pending_queueInLoop
  refine ⟨h.safe, h.numbered, hidle, fun p hp => ?_, ?_,
    fun thread p hp => ⟨(h.made thread p hp).1, fun hin => ?_⟩, h.own,
    h.passed, h.named, fun fd timers hin => ?_, h.cancelled, h.added, h.single,
    h.firing⟩
  · rcases (hmem _).mp hp with hold | hnew
    · exact h.queued p hold
    · exact (hadd p hnew.symm).created
  · change ((s.functors.queueInLoop task).pending.filterMap
      TimerTask.addition).Nodup
    rw [FunctorQueue.pending_queueInLoop, List.filterMap_append]
    cases task with
    | cancelTimer fd timers =>
        rw [show [TimerTask.cancelTimer fd timers].filterMap TimerTask.addition
          = [] from rfl, List.append_nil]
        exact h.once
    | addTimer p =>
        apply List.Nodup.append h.once (List.nodup_singleton p)
        intro x hx hsame
        obtain rfl := List.mem_singleton.mp hsame
        obtain ⟨other, hother, haddition⟩ := List.mem_filterMap.mp hx
        cases other with
        | cancelTimer _ _ => cases haddition
        | addTimer y =>
            obtain rfl := Option.some.inj haddition
            exact (hadd y rfl).unqueued hother
  · rcases (hmem _).mp hin with hold | hnew
    · exact (h.made thread p hp).2 hold
    · exact (hadd p hnew.symm).unmade thread hp
  · rcases (hmem _).mp hin with hold | hnew
    · exact h.cancels fd timers hold
    · exact hcancel fd timers hnew.symm

/-- A functor is taken off the batch. -/
theorem Wired.nextFunctor (h : s.Wired) {task : TimerTask}
    {functors : FunctorQueue TimerTask} (hcalling : s.calling = true)
    (hnext : s.functors.nextFunctor = some (task, functors)) :
    Wired { s with functors := functors } ∧
      (∀ p, task = .addTimer p → Unadded { s with functors := functors } p) ∧
      ∀ fd timers, task = .cancelTimer fd timers →
        ∀ p ∈ timers, (p, fd) ∈ s.returned := by
  have hpending := FunctorQueue.pending_nextFunctor hnext
  have hsub : ∀ other, other ∈ functors.pending → other ∈ s.functors.pending :=
    fun other hin => hpending ▸ List.mem_cons_of_mem task hin
  have hhead : task ∈ s.functors.pending := hpending ▸ List.mem_cons_self
  have honce := h.once
  rw [hpending] at honce
  refine ⟨⟨h.safe, h.numbered, fun hidle => ?_, fun p hp => h.queued p
    (hsub _ hp), ?_, fun thread p hp => ⟨(h.made thread p hp).1, fun hin =>
      (h.made thread p hp).2 (hsub _ hin)⟩, h.own, h.passed, h.named,
    fun fd timers hin => h.cancels fd timers (hsub _ hin), h.cancelled,
    h.added, h.single, h.firing⟩, ?_, ?_⟩
  · exact absurd (hcalling.symm.trans hidle) (by decide)
  · exact honce.sublist ((List.sublist_cons_self task _).filterMap _)
  · rintro p rfl
    refine ⟨h.queued p hhead, fun hin => ?_, fun thread hp =>
      (h.made thread p hp).2 hhead⟩
    rw [List.filterMap_cons_some (f := TimerTask.addition) rfl,
      List.nodup_cons] at honce
    exact honce.1 (List.mem_filterMap.mpr ⟨_, hin, rfl⟩)
  · rintro fd timers rfl
    exact h.cancels fd timers hhead

theorem Wired.popTimer (h : s.Wired) (hidle : s.run.firing = [])
    (hroom : s.run.queue.heap.length < 2 ^ 31)
    (hlt : 1 < s.run.queue.heap.length) (now : Int) (late : List Nat) :
    ∃ run p, timerMachine.exec s.run (.popTimer now) = some run ∧
      s.first = some p ∧
      Wired { s with run := run, executing := some p, late := late } := by
  obtain ⟨run, hexec, hsafe, hnumbered, hkeep⟩ :=
    h.run_step (.popTimer now) hlt hroom (by simp)
  obtain ⟨p, hp, hcreated, _, hfired, _⟩ :=
    TimerRun.popTimer_owners h.safe hroom hlt hexec
  have hfirst : s.first = some p := by rw [first, hp]; rfl
  have hlocal : run.firing = [some p] ∨ run.firing = [none] := by
    rcases hfired with hfired | ⟨hfired, _⟩
    · exact Or.inl (hidle ▸ hfired)
    · exact Or.inr (hidle ▸ hfired)
  have hw := h.withRun (some p) hsafe hnumbered hkeep
    (hcreated ▸ h.queued) (hcreated ▸ fun thread p hp => (h.made thread p hp).1)
    (fun x hx => hcreated ▸ hx)
    (by rcases hlocal with hlocal | hlocal <;> simp [hlocal])
    (fun x hx => by
      rcases hlocal with hlocal | hlocal <;> simp [hlocal] at hx
      rw [hx])
  exact ⟨run, p, hexec, hfirst, hw.safe, hw.numbered, hw.idle, hw.queued,
    hw.once, hw.made, hw.own, hw.passed, hw.named, hw.cancels, hw.cancelled,
    hw.added, hw.single, hw.firing⟩

theorem Wired.returnFromTimeout (h : s.Wired) (hfiring : s.run.firing ≠ []) :
    ∃ run, timerMachine.exec s.run .returnFromTimeout = some run ∧
      Wired { s with run := run, executing := none } := by
  obtain ⟨run, hexec, hsafe, hnumbered, hkeep⟩ :=
    h.run_step .returnFromTimeout hfiring trivial (by simp)
  obtain ⟨_, hcreated, htail, _⟩ := TimerRun.returnFromTimeout_owners hexec
  have hempty : run.firing = [] := by
    obtain ⟨ptr, rest, hcons⟩ := List.exists_cons_of_ne_nil hfiring
    have hsingle := h.single
    rw [hcons, List.length_cons] at hsingle
    rw [htail, hcons, List.tail_cons]
    exact List.eq_nil_of_length_eq_zero (by omega)
  exact ⟨run, hexec, h.withRun none hsafe hnumbered hkeep
    (hcreated ▸ h.queued) (hcreated ▸ fun thread p hp => (h.made thread p hp).1)
    (fun x hx => hcreated ▸ hx) (by simp [hempty]) (by simp [hempty])⟩

variable [DecidableEq T]

/-- A call of `addTimer` leaves its first line. -/
theorem Wired.pass (h : s.Wired) {thread : T} {p : Nat}
    (hp : s.adding thread = some (.created p)) :
    (s.pass thread p).Wired ∧ (s.pass thread p).Unadded p := by
  have hadding : ∀ other q,
      (s.pass thread p).adding other = some (.created q) →
        other ≠ thread ∧ s.adding other = some (.created q) := by
    intro other q hq
    by_cases hother : other = thread
    · subst hother
      simp [LoopTimers.pass] at hq
    · simp only [LoopTimers.pass, Function.update_of_ne hother] at hq
      exact ⟨hother, hq⟩
  have hunmade : ∀ other,
      (s.pass thread p).adding other ≠ some (.created p) := by
    intro other hq
    obtain ⟨hne, hq⟩ := hadding other p hq
    exact hne (h.own thread other p hp hq)
  obtain ⟨hcreated, hunqueued⟩ := h.made thread p hp
  have hlt : p < s.run.queue.next :=
    h.safe.lt_next (h.safe.memory_iff.mpr (Or.inr (Or.inl hcreated)))
  refine ⟨⟨h.safe, h.numbered, h.idle, h.queued, h.once,
    fun other q hq => h.made other q (hadding other q hq).2,
    fun other third q hq hr => h.own other third q (hadding other q hq).2
      (hadding third q hr).2, fun other q hq => ?_, fun q fd hq => ?_,
    h.cancels, h.cancelled, h.added, h.single, h.firing⟩,
    hcreated, hunqueued, hunmade⟩
  · by_cases hother : other = thread
    · subst hother
      simp only [LoopTimers.pass, Function.update_self, Option.some.injEq,
        AddTimerCall.passed.injEq] at hq
      subst hq
      exact ⟨hlt, hunmade⟩
    · simp only [LoopTimers.pass, Function.update_of_ne hother] at hq
      obtain ⟨hbound, hnone⟩ := h.passed other q hq
      exact ⟨hbound, fun third hr => hnone third (hadding third q hr).2⟩
  · obtain ⟨hbound, hnone, hid⟩ := h.named q fd hq
    exact ⟨hbound, fun third hr => hnone third (hadding third q hr).2, hid⟩

/-- A thread begins a call of `addTimer`. -/
theorem Wired.createTimer (h : s.Wired) (thread : T)
    (interval : Int) (repeated : Bool) (now : Int)
    (hfew : s.run.queue.next + 1 < 2 ^ 32) :
    ∃ run, s.createTimer thread interval repeated now = some { s with
        run := run
        adding := Function.update s.adding thread
          (some (.created s.run.queue.next)) } ∧
      Wired { s with
        run := run
        adding := Function.update s.adding thread
          (some (.created s.run.queue.next)) } ∧
      timerMachine.exec s.run (.createTimer interval repeated now) =
        some run := by
  let p := s.run.queue.next
  let run : TimerRun := { s.run with
    queue := (s.run.queue.createTimer interval repeated now).2
    created := p :: s.run.created }
  have hexec : timerMachine.exec s.run (.createTimer interval repeated now) =
      some run := rfl
  have hsafe : run.Safe := by
    obtain ⟨run', hexec', hsafe, _⟩ :=
      TimerRun.createTimer_step h.safe interval repeated now
    obtain rfl : run = run' := Option.some.inj (hexec.symm.trans hexec')
    exact hsafe
  have hnumbered : run.Numbered :=
    h.numbered.create hfew interval repeated now
  have hold : ∀ q, s.run.queue.memory q ≠ none → q ≠ p := by
    rintro q hq rfl
    exact hq (h.safe.accounted.fresh _ (Nat.le_refl _))
  have hwaits : ∀ q ∈ s.run.created, q ≠ p := fun q hq =>
    hold q (h.safe.memory_iff.mpr (Or.inr (Or.inl hq)))
  have hadding : ∀ other q,
      Function.update s.adding thread (some (.created p)) other =
          some (.created q) →
        other = thread ∧ q = p ∨ s.adding other = some (.created q) := by
    intro other q hq
    by_cases hother : other = thread
    · subst hother
      rw [Function.update_self] at hq
      cases hq
      exact Or.inl ⟨rfl, rfl⟩
    · rw [Function.update_of_ne hother] at hq
      exact Or.inr hq
  have hunmade : ∀ {q}, q < p →
      (∀ other, s.adding other ≠ some (.created q)) → ∀ other,
      Function.update s.adding thread (some (.created p)) other ≠
        some (.created q) := by
    intro q hlt hnone other hq
    rcases hadding other q hq with ⟨_, rfl⟩ | hq
    · exact Nat.lt_irrefl _ hlt
    · exact hnone other hq
  refine ⟨run, rfl, ⟨hsafe, hnumbered, h.idle,
    fun q hq => List.mem_cons_of_mem p (h.queued q hq), h.once,
    fun other q hq => ?_, fun other third q hq hr => ?_,
    fun other q hq => ?_, fun q fd hq => ?_, h.cancels, h.cancelled,
    fun q hq => ?_, h.single, h.firing⟩, hexec⟩
  · rcases hadding other q hq with ⟨_, rfl⟩ | hq
    · exact ⟨List.mem_cons_self, fun hin => hwaits p (h.queued p hin) rfl⟩
    · obtain ⟨hcreated, hunqueued⟩ := h.made other q hq
      exact ⟨List.mem_cons_of_mem p hcreated, hunqueued⟩
  · rcases hadding other q hq with ⟨rfl, rfl⟩ | hold'
    · rcases hadding third p hr with ⟨rfl, _⟩ | hold'
      · rfl
      · exact absurd rfl (hwaits p (h.made third p hold').1)
    · rcases hadding third q hr with ⟨rfl, rfl⟩ | hthird
      · exact absurd rfl (hwaits p (h.made other p hold').1)
      · exact h.own other third q hold' hthird
  · have hq' : Function.update s.adding thread (some (.created p)) other =
        some (.passed q) := hq
    by_cases hother : other = thread
    · subst hother
      rw [Function.update_self] at hq'
      cases hq'
    · rw [Function.update_of_ne hother] at hq'
      obtain ⟨hlt, hnone⟩ := h.passed other q hq'
      exact ⟨Nat.lt_succ_of_lt hlt, hunmade hlt hnone⟩
  · obtain ⟨hlt, hnone, hid⟩ := h.named q fd hq
    refine ⟨Nat.lt_succ_of_lt hlt, hunmade hlt hnone, fun hlive => hid ?_⟩
    have hne : q ≠ p := Nat.ne_of_lt hlt
    simpa [run, TimerQueue.createTimer, p, hne] using hlive
  · obtain ⟨hlt, hout⟩ := h.added q hq
    refine ⟨Nat.lt_succ_of_lt hlt, fun hin => ?_⟩
    rcases List.mem_cons.mp hin with rfl | hin
    · exact Nat.lt_irrefl _ hlt
    · exact hout hin

theorem Wired.getFd (h : s.Wired) {thread : T} {p : Nat}
    (hp : s.adding thread = some (.passed p)) (garbage : Int) :
    (s.getFd thread p garbage).Wired := by
  have hadding : ∀ other call,
      (s.getFd thread p garbage).adding other = some call →
        s.adding other = some call := by
    intro other call hq
    by_cases hother : other = thread
    · subst hother
      simp [LoopTimers.getFd] at hq
    · simpa only [LoopTimers.getFd, Function.update_of_ne hother] using hq
  refine ⟨h.safe, h.numbered, h.idle, h.queued, h.once,
    fun other q hq => h.made other q (hadding other _ hq),
    fun other third q hq hr => h.own other third q (hadding other _ hq)
      (hadding third _ hr), fun other q hq => ?_, fun q fd hq => ?_,
    fun fd timers hin q hq => ?_, fun q hq => ?_, h.added, h.single, h.firing⟩
  · obtain ⟨hlt, hnone⟩ := h.passed other q (hadding other _ hq)
    exact ⟨hlt, fun third hr => hnone third (hadding third _ hr)⟩
  · rcases List.mem_append.mp hq with hold | hnew
    · obtain ⟨hlt, hnone, hid⟩ := h.named q fd hold
      exact ⟨hlt, fun third hr => hnone third (hadding third _ hr), hid⟩
    · obtain ⟨rfl, rfl⟩ := Prod.mk.inj (List.mem_singleton.mp hnew)
      obtain ⟨hlt, hnone⟩ := h.passed thread q hp
      refine ⟨hlt, fun third hr => hnone third (hadding third _ hr),
        fun hlive => ?_⟩
      obtain ⟨t, ht⟩ := Option.ne_none_iff_exists'.mp hlive
      have ht' : s.run.queue.memory q = some t := ht
      rw [ht', Option.map_some, Option.getD_some]
      exact h.numbered.ids q t ht'
  · exact List.mem_append_left _ (h.cancels fd timers hin q hq)
  · obtain ⟨fd, hfd⟩ := h.cancelled q hq
    exact ⟨fd, List.mem_append_left _ hfd⟩

/-- The operation of the queue that a step makes. -/
def operation (loop : T) (s : LoopTimers T) :
    LoopTimerStep T → Option TimerOp
  | .createTimer _ interval repeated now =>
      some (.createTimer interval repeated now)
  | .runInLoop thread =>
      match s.adding thread with
      | some (.created timer) =>
          if thread = loop then some (.addTimer timer) else none
      | _ => none
  | .cancelTimer thread fd =>
      if thread = loop then some (.cancelTimer fd) else none
  | .callFunctor => s.functors.batch.head?.map TimerTask.operation
  | .popTimer now => some (.popTimer now)
  | .returnFromTimeout => some .returnFromTimeout
  | .getFd _ _ | .swapFunctors | .returnFunctors => none

/-- The timer that a step adds to the queue. -/
def adds (loop : T) (s : LoopTimers T) (step : LoopTimerStep T) : Option Nat :=
  (s.operation loop step).bind TimerOp.adds

/-- The timer that a step deletes. -/
def drops (loop : T) (s : LoopTimers T) (step : LoopTimerStep T) :
    Option Nat :=
  (s.operation loop step).bind s.run.drops

/-- A step that changes the heap can number its slots by an `int`. -/
def Room (loop : T) (s : LoopTimers T) (step : LoopTimerStep T) : Prop :=
  ∀ op ∈ s.operation loop step, s.run.Room op

/-- Fewer than `2 ^ 32` timers are created. -/
def Few (loop : T) (s : LoopTimers T) (step : LoopTimerStep T) : Prop :=
  ∀ op ∈ s.operation loop step, s.run.Few op

/-- The timer whose `handleTimeout` is being executed after a step. -/
def executes (s : LoopTimers T) : LoopTimerStep T → Option Nat
  | .popTimer _ => s.first
  | .returnFromTimeout => none
  | _ => s.executing

/-- The timers that a step calls late or whose id it reads too late. -/
def lates (s : LoopTimers T) : LoopTimerStep T → List Nat
  | .popTimer _ => s.first.toList.filter fun timer =>
      timer ∈ s.cancelled ∧ timer ∈ s.added
  | _ => []

def dangles (s : LoopTimers T) : LoopTimerStep T → List Nat
  | .getFd thread _ =>
      match s.adding thread with
      | some (.passed timer) =>
          if s.run.queue.memory timer = none then [timer] else []
      | _ => []
  | _ => []

instance (thread : T) :
    Decidable (∃ timer, s.adding thread = some (.created timer)) :=
  match s.adding thread with
  | some (.created timer) => isTrue ⟨timer, rfl⟩
  | some (.passed _) => isFalse (by simp)
  | none => isFalse (by simp)

instance (thread : T) :
    Decidable (∃ timer, s.adding thread = some (.passed timer)) :=
  match s.adding thread with
  | some (.passed timer) => isTrue ⟨timer, rfl⟩
  | some (.created _) => isFalse (by simp)
  | none => isFalse (by simp)

instance : Decidable (s.Free loop) :=
  inferInstanceAs (Decidable (s.adding loop = none ∧ s.calling = false ∧
    s.run.firing = []))

instance (step : LoopTimerStep T) :
    Decidable ((loopTimerMachine loop).enabled s step) :=
  match step with
  | .createTimer thread _ _ _ =>
      inferInstanceAs (Decidable (s.adding thread = none))
  | .runInLoop thread => inferInstanceAs
      (Decidable (∃ timer, s.adding thread = some (.created timer)))
  | .getFd thread _ => inferInstanceAs
      (Decidable (∃ timer, s.adding thread = some (.passed timer)))
  | .cancelTimer thread _ =>
      inferInstanceAs (Decidable (s.adding thread = none))
  | .swapFunctors => inferInstanceAs (Decidable (s.Free loop))
  | .callFunctor => inferInstanceAs (Decidable (s.adding loop = none ∧
      s.calling = true ∧ s.functors.batch ≠ []))
  | .returnFunctors => inferInstanceAs (Decidable (s.adding loop = none ∧
      s.calling = true ∧ s.functors.batch = []))
  | .popTimer _ => inferInstanceAs
      (Decidable (s.Free loop ∧ 1 < s.run.queue.heap.length))
  | .returnFromTimeout => inferInstanceAs
      (Decidable (s.adding loop = none ∧ s.run.firing ≠ []))

instance (step : LoopTimerStep T) : Decidable (s.Room loop step) :=
  inferInstanceAs (Decidable (∀ op ∈ s.operation loop step, s.run.Room op))

instance (step : LoopTimerStep T) : Decidable (s.Few loop step) :=
  inferInstanceAs (Decidable (∀ op ∈ s.operation loop step, s.run.Few op))

/-- What a step does. -/
structure Effect (loop : T) (s s' : LoopTimers T) (step : LoopTimerStep T) :
    Prop where
  quiet : s.operation loop step = none → s'.run = s.run
  operation : ∀ op ∈ s.operation loop step,
    timerMachine.enabled s.run op ∧ timerMachine.exec s.run op = some s'.run
  added : s'.added = (s.adds loop step).toList ++ s.added
  cancelled : s'.cancelled = s.cancelled ∨ ∃ fd timers,
    s.operation loop step = some (.cancelTimer fd) ∧
      s'.cancelled = timers ++ s.cancelled ∧
      ∀ p ∈ timers, (p, fd) ∈ s.returned
  late : s'.late = s.late ++ s.lates step
  dangling : s'.dangling = s.dangling ++ s.dangles step
  executing : s'.executing = s.executes step
  passed : ∀ thread p, s'.adding thread = some (.passed p) →
    s.adding thread = some (.passed p) ∨
      s.adding thread = some (.created p) ∧ s.drops loop step = none
  waits : ∀ thread p, s.adding thread = some (.passed p) →
    s'.adding thread = some (.passed p) ∨
      ∃ garbage, step = .getFd thread garbage

/-- The state after a functor was called. -/
def called (s : LoopTimers T) (run : TimerRun) : TimerTask → LoopTimers T
  | .addTimer timer => { s with run := run, added := timer :: s.added }
  | .cancelTimer _ timers =>
      { s with run := run, cancelled := timers ++ s.cancelled }

omit [DecidableEq T] in
theorem Wired.call (h : s.Wired) {task : TimerTask}
    (hadd : ∀ p, task = .addTimer p → s.Unadded p)
    (hcancel : ∀ fd timers, task = .cancelTimer fd timers →
      ∀ p ∈ timers, (p, fd) ∈ s.returned)
    (hroom : s.run.Room task.operation) :
    ∃ run, s.call task = some (s.called run task) ∧
      (s.called run task).Wired ∧
      timerMachine.enabled s.run task.operation ∧
      timerMachine.exec s.run task.operation = some run := by
  cases task with
  | addTimer p =>
      have hp := hadd p rfl
      obtain ⟨run, hexec, hw⟩ := h.addTimer hp hroom
      refine ⟨run, ?_, hw, hp.created, hexec⟩
      rw [LoopTimers.call, LoopTimers.addTimer, hexec]
      rfl
  | cancelTimer fd timers =>
      obtain ⟨run, hexec, hw⟩ := h.cancelTimer hroom (hcancel fd timers rfl)
      refine ⟨run, ?_, hw, trivial, hexec⟩
      rw [LoopTimers.call, LoopTimers.cancelTimer, hexec]
      rfl

/-- A step that calls a functor, from a state `t` that agrees with `s` but for
the call of `addTimer` and the queue. -/
theorem effect_call {step : LoopTimerStep T} {task : TimerTask}
    {t : LoopTimers T} {run : TimerRun}
    (hoperation : s.operation loop step = some task.operation)
    (henabled : timerMachine.enabled s.run task.operation)
    (hexec : timerMachine.exec s.run task.operation = some run)
    (hcancel : ∀ fd timers, task = .cancelTimer fd timers →
      ∀ p ∈ timers, (p, fd) ∈ s.returned)
    (hsame : t = { s with adding := t.adding, functors := t.functors })
    (hlates : s.lates step = []) (hdangles : s.dangles step = [])
    (hpop : ∀ now, step ≠ .popTimer now) (hreturn : step ≠ .returnFromTimeout)
    (hpassed : ∀ thread p, t.adding thread = some (.passed p) →
      s.adding thread = some (.passed p) ∨
        s.adding thread = some (.created p) ∧ s.drops loop step = none)
    (hwaits : ∀ thread p, s.adding thread = some (.passed p) →
      t.adding thread = some (.passed p)) :
    s.Effect loop (t.called run task) step := by
  rw [hsame]
  refine ⟨fun hnone => ?_, fun op hop => ?_, ?_, ?_, ?_, ?_, ?_, ?_, ?_⟩
  · rw [hoperation] at hnone
    cases hnone
  · obtain rfl := Option.some.inj (hoperation.symm.trans hop)
    cases task <;> exact ⟨henabled, hexec⟩
  · rw [adds, hoperation]
    cases task <;> rfl
  · cases task with
    | addTimer timer => exact Or.inl rfl
    | cancelTimer fd timers =>
        exact Or.inr ⟨fd, timers, hoperation, rfl, hcancel fd timers rfl⟩
  · rw [hlates, List.append_nil]
    cases task <;> rfl
  · rw [hdangles, List.append_nil]
    cases task <;> rfl
  · cases step with
    | popTimer now => exact absurd rfl (hpop now)
    | returnFromTimeout => exact absurd rfl hreturn
    | _ => cases task <;> rfl
  · cases task <;> exact hpassed
  · intro thread p hp
    left
    cases task <;> exact hwaits thread p hp

/-- A step that leaves the queue of the timers alone. -/
theorem effect_quiet {step : LoopTimerStep T}
    (hoperation : s.operation loop step = none) (hrun : s'.run = s.run)
    (hadded : s'.added = s.added) (hcancelled : s'.cancelled = s.cancelled)
    (hlate : s'.late = s.late) (hdangling : s'.dangling = s.dangling ++
      s.dangles step) (hexecuting : s'.executing = s.executing)
    (hpassed : ∀ thread p, s'.adding thread = some (.passed p) →
      s.adding thread = some (.passed p) ∨
        s.adding thread = some (.created p))
    (hwaits : ∀ thread p, s.adding thread = some (.passed p) →
      s'.adding thread = some (.passed p) ∨
        ∃ garbage, step = .getFd thread garbage) :
    s.Effect loop s' step := by
  have hdrops : s.drops loop step = none := by rw [drops, hoperation]; rfl
  refine ⟨fun _ => hrun, fun op hop => ?_, ?_, Or.inl hcancelled, ?_,
    hdangling, ?_, fun thread p hp => ?_, hwaits⟩
  · rw [hoperation] at hop
    cases hop
  · rw [adds, hoperation]
    exact hadded
  · cases step with
    | popTimer now => cases hoperation
    | _ => rw [hlate]; exact (List.append_nil _).symm
  · cases step with
    | popTimer now => cases hoperation
    | returnFromTimeout => cases hoperation
    | _ => exact hexecuting
  · exact (hpassed thread p hp).imp_right fun hcreated => ⟨hcreated, hdrops⟩

/-- `addTimer` passes its functor on. -/
theorem Wired.runInLoop_step (h : s.Wired) {thread : T} {p : Nat}
    (hp : s.adding thread = some (.created p))
    (hroom : s.Room loop (.runInLoop thread)) :
    ∃ s', (loopTimerMachine loop).exec s (.runInLoop thread) = some s' ∧
      s'.Wired ∧ s.Effect loop s' (.runInLoop thread) := by
  obtain ⟨ht, hunadded⟩ := h.pass hp
  have hexec : (loopTimerMachine loop).exec s (.runInLoop thread) =
      (s.pass thread p).runInLoop loop thread (.addTimer p) := by
    simp only [loopTimerMachine, hp]
  have hadd : ∀ q, TimerTask.addTimer p = .addTimer q →
      (s.pass thread p).Unadded q := by
    rintro q ⟨⟩
    exact hunadded
  have hpassed : ∀ other q,
      (s.pass thread p).adding other = some (.passed q) →
        s.adding other = some (.passed q) ∨
          s.adding other = some (.created q) := by
    intro other q hq
    by_cases hother : other = thread
    · subst hother
      simp only [LoopTimers.pass, Function.update_self, Option.some.injEq,
        AddTimerCall.passed.injEq] at hq
      subst hq
      exact Or.inr hp
    · simp only [LoopTimers.pass, Function.update_of_ne hother] at hq
      exact Or.inl hq
  have hwaits : ∀ other q, s.adding other = some (.passed q) →
      (s.pass thread p).adding other = some (.passed q) := by
    intro other q hq
    have hother : other ≠ thread := by
      rintro rfl
      rw [hp] at hq
      cases hq
    simpa only [LoopTimers.pass, Function.update_of_ne hother] using hq
  rw [hexec, LoopTimers.runInLoop]
  by_cases hthread : thread = loop
  · have hoperation : s.operation loop (.runInLoop thread) =
        some (.addTimer p) := by
      simp only [operation, hp, if_pos hthread]
    obtain ⟨run, hcall, hw, henabled, hop⟩ := ht.call hadd (by simp)
      (hroom _ hoperation)
    refine ⟨_, by rw [if_pos hthread, hcall], hw, effect_call hoperation
      henabled hop (by simp) rfl rfl rfl (by simp) (by simp)
      (fun other q hq => ?_) hwaits⟩
    refine (hpassed other q hq).imp_right fun hcreated => ⟨hcreated, ?_⟩
    rw [drops, hoperation]
    rfl
  · have hoperation : s.operation loop (.runInLoop thread) = none := by
      simp only [operation, hp, if_neg hthread]
    refine ⟨_, by rw [if_neg hthread], ht.queueInLoop hadd (by simp) ht.idle,
      effect_quiet hoperation rfl rfl rfl rfl (List.append_nil _).symm rfl
        hpassed fun other q hq => Or.inl (hwaits other q hq)⟩

omit [DecidableEq T] in
theorem mem_named {fd : Int} {p : Nat} :
    p ∈ s.named fd ↔ (p, fd) ∈ s.returned := by
  simp [named]

theorem Wired.cancelTimer_step (h : s.Wired) {thread : T} {fd : Int}
    (hroom : s.Room loop (.cancelTimer thread fd)) :
    ∃ s', (loopTimerMachine loop).exec s (.cancelTimer thread fd) = some s' ∧
      s'.Wired ∧ s.Effect loop s' (.cancelTimer thread fd) := by
  have hexec : (loopTimerMachine loop).exec s (.cancelTimer thread fd) =
      s.runInLoop loop thread (.cancelTimer fd (s.named fd)) := rfl
  have hcancel : ∀ fd' timers,
      TimerTask.cancelTimer fd (s.named fd) = .cancelTimer fd' timers →
        ∀ p ∈ timers, (p, fd') ∈ s.returned := by
    rintro _ _ ⟨⟩ p hp
    exact mem_named.mp hp
  have hadd : ∀ p, TimerTask.cancelTimer fd (s.named fd) = .addTimer p →
      s.Unadded p := by simp
  rw [hexec, LoopTimers.runInLoop]
  by_cases hthread : thread = loop
  · have hoperation : s.operation loop (.cancelTimer thread fd) =
        some (.cancelTimer fd) := if_pos hthread
    obtain ⟨run, hcall, hw, henabled, hop⟩ := h.call hadd hcancel
      (hroom _ hoperation)
    exact ⟨_, by rw [if_pos hthread, hcall], hw, effect_call hoperation
      henabled hop hcancel rfl rfl rfl (by simp) (by simp)
      (fun _ _ hp => Or.inl hp) fun _ _ hp => hp⟩
  · have hoperation : s.operation loop (.cancelTimer thread fd) = none :=
      if_neg hthread
    exact ⟨_, by rw [if_neg hthread], h.queueInLoop hadd hcancel h.idle,
      effect_quiet hoperation rfl rfl rfl rfl (List.append_nil _).symm rfl
        (fun _ _ hp => Or.inl hp) fun _ _ hp => Or.inl hp⟩

theorem Wired.callFunctor_step (h : s.Wired) (hcalling : s.calling = true)
    (hbatch : s.functors.batch ≠ []) (hroom : s.Room loop .callFunctor) :
    ∃ s', (loopTimerMachine loop).exec s .callFunctor = some s' ∧
      s'.Wired ∧ s.Effect loop s' .callFunctor := by
  obtain ⟨task, batch, hcons⟩ := List.exists_cons_of_ne_nil hbatch
  have hnext : s.functors.nextFunctor =
      some (task, { s.functors with batch := batch }) := by
    rw [FunctorQueue.nextFunctor, hcons]
  have hoperation : s.operation loop .callFunctor = some task.operation := by
    rw [operation, hcons]
    rfl
  obtain ⟨ht, hadd, hcancel⟩ := h.nextFunctor hcalling hnext
  obtain ⟨run, hcall, hw, henabled, hop⟩ := ht.call hadd hcancel
    (hroom _ hoperation)
  refine ⟨_, ?_, hw, effect_call hoperation henabled hop hcancel rfl rfl rfl
    (by simp) (by simp) (fun _ _ hp => Or.inl hp) fun _ _ hp => hp⟩
  simp only [loopTimerMachine, hnext, Option.bind_some]
  exact hcall

theorem Wired.createTimer_step (h : s.Wired) {thread : T} {interval : Int}
    {repeated : Bool} {now : Int} (hidle : s.adding thread = none)
    (hfew : s.Few loop (.createTimer thread interval repeated now)) :
    ∃ s', (loopTimerMachine loop).exec s
        (.createTimer thread interval repeated now) = some s' ∧
      s'.Wired ∧
      s.Effect loop s' (.createTimer thread interval repeated now) := by
  obtain ⟨run, hexec, hw, hop⟩ := h.createTimer thread interval
    repeated now (hfew _ rfl)
  refine ⟨_, hexec, hw, (fun hnone => by cases hnone), fun op hin => ?_, rfl,
    Or.inl rfl, (List.append_nil _).symm, (List.append_nil _).symm, rfl,
    fun other p hp => ?_, fun other p hp => ?_⟩
  · obtain rfl := Option.some.inj hin
    exact ⟨trivial, hop⟩
  · left
    by_cases hother : other = thread
    · subst hother
      have hp' : Function.update s.adding other _ other =
        some (AddTimerCall.passed p) := hp
      rw [Function.update_self] at hp'
      cases hp'
    · exact (Function.update_of_ne hother ..).symm.trans hp
  · left
    have hother : other ≠ thread := by
      rintro rfl
      rw [hidle] at hp
      cases hp
    exact (Function.update_of_ne hother ..).trans hp

theorem Wired.getFd_step (h : s.Wired) {thread : T} {p : Nat}
    (hp : s.adding thread = some (.passed p)) (garbage : Int) :
    ∃ s', (loopTimerMachine loop).exec s (.getFd thread garbage) = some s' ∧
      s'.Wired ∧ s.Effect loop s' (.getFd thread garbage) := by
  refine ⟨s.getFd thread p garbage, by simp only [loopTimerMachine, hp],
    h.getFd hp garbage, effect_quiet rfl rfl rfl rfl rfl ?_ rfl
      (fun other q hq => ?_) fun other q hq => ?_⟩
  · simp only [LoopTimers.getFd, dangles, hp]
    split
    · rfl
    · exact (List.append_nil _).symm
  · by_cases hother : other = thread
    · subst hother
      simp [LoopTimers.getFd] at hq
    · simp only [LoopTimers.getFd, Function.update_of_ne hother] at hq
      exact Or.inl hq
  · by_cases hother : other = thread
    · exact Or.inr ⟨garbage, by rw [hother]⟩
    · left
      simpa only [LoopTimers.getFd, Function.update_of_ne hother] using hq

theorem Wired.popTimer_step (h : s.Wired) {now : Int}
    (hidle : s.run.firing = []) (hlt : 1 < s.run.queue.heap.length)
    (hroom : s.Room loop (.popTimer now)) :
    ∃ s', (loopTimerMachine loop).exec s (.popTimer now) = some s' ∧
      s'.Wired ∧ s.Effect loop s' (.popTimer now) := by
  obtain ⟨run, p, hop, hfirst, hw⟩ := h.popTimer hidle (hroom _ rfl) hlt now
    (s.late ++ s.lates (.popTimer now))
  refine ⟨_, ?_, hw, (fun hnone => by cases hnone), fun op hin => ?_, rfl,
    Or.inl rfl, rfl, (List.append_nil _).symm, hfirst.symm,
    fun _ _ hp => Or.inl hp, fun _ _ hp => Or.inl hp⟩
  · simp only [loopTimerMachine, LoopTimers.popTimer, hop, hfirst, lates,
      Option.map_some]
  · obtain rfl := Option.some.inj hin
    exact ⟨hlt, hop⟩

theorem Wired.returnFromTimeout_step (h : s.Wired)
    (hfiring : s.run.firing ≠ []) :
    ∃ s', (loopTimerMachine loop).exec s .returnFromTimeout = some s' ∧
      s'.Wired ∧ s.Effect loop s' .returnFromTimeout := by
  obtain ⟨run, hop, hw⟩ := h.returnFromTimeout hfiring
  refine ⟨_, ?_, hw, (fun hnone => by cases hnone), fun op hin => ?_, rfl,
    Or.inl rfl, (List.append_nil _).symm, (List.append_nil _).symm, rfl,
    fun _ _ hp => Or.inl hp, fun _ _ hp => Or.inl hp⟩
  · simp only [loopTimerMachine, hop, Option.map_some]
  · obtain rfl := Option.some.inj hin
    exact ⟨hfiring, hop⟩

/-- A step is without fault and keeps the parts together. -/
theorem Wired.step (h : s.Wired) {step : LoopTimerStep T}
    (henabled : (loopTimerMachine loop).enabled s step)
    (hfew : s.Few loop step) (hroom : s.Room loop step) :
    ∃ s', (loopTimerMachine loop).exec s step = some s' ∧ s'.Wired ∧
      s.Effect loop s' step := by
  have hquiet : ∀ (functors : FunctorQueue TimerTask) (calling : Bool),
      functors.pending = s.functors.pending →
      (calling = false → functors.batch = []) →
      Wired { s with functors := functors, calling := calling } := by
    intro functors calling hpending hidle
    refine ⟨h.safe, h.numbered, hidle, ?_, ?_, ?_, h.own, h.passed, h.named,
      ?_, h.cancelled, h.added, h.single, h.firing⟩
    · rw [hpending]
      exact h.queued
    · rw [hpending]
      exact h.once
    · rw [hpending]
      exact h.made
    · rw [hpending]
      exact h.cancels
  cases step with
  | createTimer thread interval repeated now =>
      exact h.createTimer_step henabled hfew
  | runInLoop thread =>
      obtain ⟨p, hp⟩ := henabled
      exact h.runInLoop_step hp hroom
  | getFd thread garbage =>
      obtain ⟨p, hp⟩ := henabled
      exact h.getFd_step hp garbage
  | cancelTimer thread fd => exact h.cancelTimer_step hroom
  | swapFunctors =>
      refine ⟨_, rfl, hquiet _ _ ?_ (by simp), effect_quiet rfl rfl rfl rfl rfl
        (List.append_nil _).symm rfl (fun _ _ hp => Or.inl hp)
        fun _ _ hp => Or.inl hp⟩
      exact FunctorQueue.pending_swapFunctors (h.idle henabled.2.1)
  | callFunctor =>
      exact h.callFunctor_step henabled.2.1 henabled.2.2 hroom
  | returnFunctors =>
      exact ⟨_, rfl, hquiet _ _ rfl fun _ => henabled.2.2,
        effect_quiet rfl rfl rfl rfl rfl (List.append_nil _).symm rfl
        (fun _ _ hp => Or.inl hp) fun _ _ hp => Or.inl hp⟩
  | popTimer now =>
      exact h.popTimer_step henabled.1.2.2 henabled.2 hroom
  | returnFromTimeout => exact h.returnFromTimeout_step henabled.2

end LoopTimers

end Libsaf
