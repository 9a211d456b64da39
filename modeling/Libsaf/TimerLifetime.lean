/-
The lifetime of the `Timer` objects of an `EventLoop`.  A repeated timer that
cancels itself in its callback is deleted under it, and `addTimer` on another
thread reads the id of a timer that the loop may have called and deleted.
-/
import Libsaf.LoopTimer

namespace Libsaf

universe v

variable {T : Type v}

namespace TimerRun

variable {s s' : TimerRun}

/-- The timers in memory after an operation. -/
theorem memory_step (h : s.Safe) (hnumbered : s.Numbered) {op : TimerOp}
    (henabled : timerMachine.enabled s op) (hroom : s.Room op)
    (hexec : timerMachine.exec s op = some s') {p : Nat}
    (hp : p < s.queue.next) :
    s'.queue.memory p = none ↔
      s.queue.memory p = none ∨ s.drops op = some p := by
  cases op with
  | createTimer interval repeated now =>
      cases hexec
      simp [drops, Nat.ne_of_lt hp]
  | addTimer timer =>
      obtain ⟨_, _, _, hmemory⟩ := addTimer_owners h hroom henabled
        (hnumbered.fresh h henabled) hexec
      simpa [drops] using hmemory p
  | cancelTimer fd =>
      obtain ⟨_, _, _, hmemory⟩ := cancelTimer_owners h hroom hexec
      exact hmemory p
  | popTimer now =>
      obtain ⟨_, _, _, _, _, hmemory⟩ :=
        popTimer_owners h hroom henabled hexec
      simpa [drops] using hmemory p
  | returnFromTimeout =>
      obtain ⟨_, _, _, hmemory⟩ := returnFromTimeout_owners hexec
      rw [hmemory p, drops, Option.join_eq_some_iff]

end TimerRun

namespace LoopTimers

variable {s s' : LoopTimers T} {loop : T}

/-- No timer was deleted while its `handleTimeout` is being executed, and no id
was read from a deleted timer. -/
structure Alive (s : LoopTimers T) : Prop where
  executing : ∀ p, s.executing = some p → s.run.queue.memory p ≠ none
  dangling : s.dangling = []

/-- A timer whose id `addTimer` is still to read is there. -/
structure Held (s : LoopTimers T) : Prop where
  wired : s.Wired
  alive : s.Alive
  passed : ∀ thread p, s.adding thread = some (.passed p) →
    s.run.queue.memory p ≠ none

/-- An id was read too late, or will be. -/
def Broken (s : LoopTimers T) : Prop :=
  s.dangling ≠ [] ∨ ∃ thread p, s.adding thread = some (.passed p) ∧
    s.run.queue.memory p = none

theorem start_held : (start : LoopTimers T).Held where
  wired := start_wired
  alive := ⟨by simp [start], rfl⟩
  passed _ _ h := by cases h

/-- When all calls of `addTimer` have returned, what was to be read was read. -/
theorem Broken.not_alive (h : s.Broken)
    (hreturned : ∀ thread, s.adding thread = none) : ¬ s.Alive := by
  intro halive
  rcases h with hdangling | ⟨thread, p, hp, _⟩
  · exact hdangling halive.dangling
  · rw [hreturned thread] at hp
    cases hp

variable [DecidableEq T]

/-- The id with which a step cancels on the thread of the loop. -/
def cancelsFd (loop : T) (s : LoopTimers T) : LoopTimerStep T → Option Int
  | .cancelTimer thread fd => if thread = loop then some fd else none
  | .callFunctor =>
      match s.functors.batch.head? with
      | some (.cancelTimer fd _) => some fd
      | _ => none
  | _ => none

/-- No cancel names a timer of the heap whose callback is being executed: that
timer is a repeated one.  And until a call of `addTimer` has read the id of its
timer, the loop neither cancels that timer nor ends its `popTimer`. -/
def Careful (loop : T) (s : LoopTimers T) (step : LoopTimerStep T) : Prop :=
  (∀ fd ∈ s.cancelsFd loop step, ∀ p ∈ s.run.queue.heap.reduceOption,
    TimerRun.idOf p = fd → s.executing ≠ some p ∧
      ∀ thread, s.adding thread ≠ some (.passed p)) ∧
  (step = .returnFromTimeout → ∀ p ∈ s.run.firing.reduceOption,
    ∀ thread, s.adding thread ≠ some (.passed p))

/-- The same, by the timers that a step deletes. -/
def Owned (loop : T) (s : LoopTimers T) (step : LoopTimerStep T) : Prop :=
  ∀ p ∈ s.drops loop step,
    (s.executing = some p → step = .returnFromTimeout) ∧
      ∀ thread, s.adding thread ≠ some (.passed p)

omit [DecidableEq T] in
/-- The table finds the timer of the heap with the id. -/
theorem Wired.timers_iff (h : s.Wired) {fd : Int} {p : Nat} :
    s.run.queue.timers fd = some p ↔
      p ∈ s.run.queue.heap.reduceOption ∧ TimerRun.idOf p = fd := by
  rw [h.safe.consistent.owned fd p, List.reduceOption_mem_iff]
  refine and_congr_right fun hin => ?_
  obtain ⟨i, t, _, _, _, ht, _⟩ := h.safe.consistent.linked.live hin
  rw [ht, Option.map_some, Option.some.injEq, h.numbered.ids p t ht]
  rfl

omit [DecidableEq T] in
/-- The end of `popTimer` finds the timer of its only local. -/
theorem Wired.head_firing (h : s.Wired) {p : Nat} :
    s.run.firing.head?.join = some p ↔ p ∈ s.run.firing.reduceOption := by
  rw [List.reduceOption_mem_iff, Option.join_eq_some_iff]
  have hsingle := h.single
  match hfiring : s.run.firing with
  | [] => simp
  | [ptr] => simp [eq_comm]
  | _ :: _ :: _ => simp [hfiring] at hsingle

/-- A timer is deleted by a cancel or by the end of its `popTimer`. -/
theorem Wired.drops_iff (h : s.Wired) {step : LoopTimerStep T} {p : Nat} :
    s.drops loop step = some p ↔
      (∃ fd ∈ s.cancelsFd loop step,
        p ∈ s.run.queue.heap.reduceOption ∧ TimerRun.idOf p = fd) ∨
      step = .returnFromTimeout ∧ p ∈ s.run.firing.reduceOption := by
  cases step with
  | cancelTimer thread fd =>
      by_cases hthread : thread = loop
      · simp [drops, operation, cancelsFd, hthread, TimerRun.drops,
          h.timers_iff, and_comm, eq_comm]
      · simp [drops, operation, cancelsFd, hthread]
  | callFunctor =>
      rcases hhead : s.functors.batch.head? with _ | task
      · simp [drops, operation, cancelsFd, hhead]
      · cases task with
        | addTimer timer =>
            simp [drops, operation, cancelsFd, hhead, TimerTask.operation,
              TimerRun.drops]
        | cancelTimer fd timers =>
            simp [drops, operation, cancelsFd, hhead, TimerTask.operation,
              TimerRun.drops, h.timers_iff, and_comm, eq_comm]
  | returnFromTimeout =>
      simp [drops, operation, cancelsFd, TimerRun.drops, h.head_firing]
  | runInLoop thread =>
      have hnone : s.drops loop (.runInLoop thread) = none := by
        unfold drops operation
        dsimp only
        split
        · split <;> rfl
        · rfl
      simp [hnone, cancelsFd]
  | _ => simp [drops, operation, cancelsFd, TimerRun.drops]

theorem Wired.careful_iff (h : s.Wired) {step : LoopTimerStep T} :
    s.Careful loop step ↔ s.Owned loop step := by
  constructor
  · rintro ⟨hcancel, hreturn⟩ p hp
    rcases h.drops_iff.mp hp with ⟨fd, hfd, hin, hid⟩ | ⟨rfl, hin⟩
    · obtain ⟨hexecuting, hread⟩ := hcancel fd hfd p hin hid
      exact ⟨fun hexec => absurd hexec hexecuting, hread⟩
    · exact ⟨fun _ => rfl, hreturn rfl p hin⟩
  · intro howned
    refine ⟨fun fd hfd p hin hid => ?_, fun hstep p hin => ?_⟩
    · obtain ⟨hexecuting, hread⟩ :=
        howned p (h.drops_iff.mpr (Or.inl ⟨fd, hfd, hin, hid⟩))
      refine ⟨fun hexec => ?_, hread⟩
      rw [hexecuting hexec] at hfd
      cases hfd
    · exact (howned p (h.drops_iff.mpr (Or.inr ⟨hstep, hin⟩))).2

theorem Effect.memory {step : LoopTimerStep T} (h : s.Effect loop s' step)
    (hs : s.Wired) (hroom : s.Room loop step) {p : Nat}
    (hp : p < s.run.queue.next) :
    s'.run.queue.memory p = none ↔
      s.run.queue.memory p = none ∨ s.drops loop step = some p := by
  unfold drops
  cases hop : s.operation loop step with
  | none =>
      rw [h.quiet hop]
      simp
  | some op =>
      obtain ⟨henabled, hexec⟩ := h.operation op hop
      exact TimerRun.memory_step hs.safe hs.numbered henabled (hroom op hop)
        hexec hp

/-- A timer that is not dropped stays. -/
theorem Effect.stays {step : LoopTimerStep T} (h : s.Effect loop s' step)
    (hs : s.Wired) (hroom : s.Room loop step) {p : Nat}
    (hp : s.run.queue.memory p ≠ none) (hdrops : s.drops loop step ≠ some p) :
    s'.run.queue.memory p ≠ none := by
  rw [ne_eq, h.memory hs hroom (hs.safe.lt_next hp)]
  exact not_or.mpr ⟨hp, hdrops⟩

omit [DecidableEq T] in
theorem Held.dangles (h : s.Held) (step : LoopTimerStep T) :
    s.dangles step = [] := by
  cases step with
  | getFd thread garbage =>
      unfold LoopTimers.dangles
      dsimp only
      split
      · next p hp => rw [if_neg (h.passed thread p hp)]
      · rfl
  | _ => rfl

theorem Held.step (h : s.Held) (hs' : s'.Wired) {step : LoopTimerStep T}
    (heffect : s.Effect loop s' step)
    (henabled : (loopTimerMachine loop).enabled s step)
    (hroom : s.Room loop step) (howned : s.Owned loop step) : s'.Held := by
  have hstays : ∀ p, s.run.queue.memory p ≠ none →
      s.drops loop step ≠ some p → s'.run.queue.memory p ≠ none :=
    fun p => heffect.stays h.wired hroom
  refine ⟨hs', ⟨fun p hp => ?_, ?_⟩, fun thread p hp => ?_⟩
  · rw [heffect.executing] at hp
    cases step with
    | popTimer now =>
        have hin : some p ∈ s.run.queue.heap := by
          have hfirst : s.first = some p := hp
          rw [first, Option.join_eq_some_iff] at hfirst
          exact List.mem_of_getElem? hfirst
        exact hstays p (h.wired.safe.memory_iff.mpr (Or.inl hin))
          (by simp [drops, operation, TimerRun.drops])
    | returnFromTimeout => cases hp
    | _ =>
        refine hstays p (h.alive.executing p hp) fun hdrops => ?_
        exact absurd ((howned p hdrops).1 hp) (by simp)
  · rw [heffect.dangling, h.alive.dangling, h.dangles step]
    rfl
  · rcases heffect.passed thread p hp with hold | ⟨hcreated, hnone⟩
    · exact hstays p (h.passed thread p hold) fun hdrops =>
        (howned p hdrops).2 thread hold
    · have hwaits := (h.wired.made thread p hcreated).1
      apply hstays p (h.wired.safe.memory_iff.mpr (Or.inr (Or.inl hwaits)))
      rw [hnone]
      simp

/-- A step that is not `Owned` deletes a timer under its callback or under the
call that made it. -/
theorem Held.broken (h : s.Held) {step : LoopTimerStep T}
    (heffect : s.Effect loop s' step) (hroom : s.Room loop step)
    (halive : s'.Alive) (hnot : ¬ s.Owned loop step) : s'.Broken := by
  unfold Owned at hnot
  push Not at hnot
  obtain ⟨p, hdrops, hnot⟩ := hnot
  have hgone : ∀ hp : p < s.run.queue.next, s'.run.queue.memory p = none :=
    fun hp => (heffect.memory h.wired hroom hp).mpr (Or.inr hdrops)
  by_cases hown : s.executing = some p → step = .returnFromTimeout
  · obtain ⟨thread, hpassed⟩ := hnot hown
    have hlt := (h.wired.passed thread p hpassed).1
    rcases heffect.waits thread p hpassed with hwaits | ⟨garbage, rfl⟩
    · exact Or.inr ⟨thread, p, hwaits, hgone hlt⟩
    · cases hdrops
  · push Not at hown
    obtain ⟨hexecuting, hstep⟩ := hown
    have hlt := h.wired.safe.lt_next (h.alive.executing p hexecuting)
    have hexecuting' : s'.executing = some p := by
      rw [heffect.executing]
      cases step with
      | popTimer now => cases hdrops
      | returnFromTimeout => exact absurd rfl hstep
      | _ => exact hexecuting
    exact absurd (hgone hlt) (halive.executing p hexecuting')

theorem Broken.step (h : s.Broken) (hs : s.Wired) {step : LoopTimerStep T}
    (heffect : s.Effect loop s' step) (hroom : s.Room loop step) :
    s'.Broken := by
  rcases h with hdangling | ⟨thread, p, hpassed, hgone⟩
  · left
    rw [heffect.dangling]
    exact List.append_ne_nil_of_left_ne_nil hdangling _
  · rcases heffect.waits thread p hpassed with hwaits | ⟨garbage, rfl⟩
    · have hlt := (hs.passed thread p hpassed).1
      exact Or.inr ⟨thread, p, hwaits,
        (heffect.memory hs hroom hlt).mpr (Or.inl hgone)⟩
    · left
      rw [heffect.dangling]
      apply List.append_ne_nil_of_right_ne_nil
      simp [LoopTimers.dangles, hpassed, hgone]

/-- A run that ends with no call of `addTimer` under way has met `Careful`: what
is broken stays so to its end. -/
theorem Held.meets {word : List (LoopTimerStep T)} (h : s.Held)
    (hword : (loopTimerMachine loop).Meets
      (fun s step => ((loopTimerMachine loop).enabled s step ∧
        s.Few loop step) ∧ s.Room loop step) s word)
    (hreturned : ∀ t, (loopTimerMachine loop).run s word = some t →
      ∀ thread, t.adding thread = none)
    (hholds : (loopTimerMachine loop).Holds Alive s word) :
    (loopTimerMachine loop).Meets (Careful loop) s word := by
  apply Machine.meets_of_doomed (I := Held) (B := fun s => s.Wired ∧ s.Broken)
    _ _ _ h hword _ hholds
  · rintro s step hs ⟨⟨henabled, hfew⟩, hroom⟩ hcareful
    obtain ⟨s', hexec, hs', heffect⟩ := hs.wired.step henabled hfew hroom
    exact ⟨s', hexec, hs.step hs' heffect henabled hroom
      (hs.wired.careful_iff.mp hcareful)⟩
  · rintro s step s' hs ⟨⟨henabled, hfew⟩, hroom⟩ hnot hexec halive
    rw [hs.wired.careful_iff] at hnot
    obtain ⟨t, ht, hs', heffect⟩ := hs.wired.step henabled hfew hroom
    obtain rfl : s' = t := Option.some.inj (hexec.symm.trans ht)
    exact ⟨hs', hs.broken heffect hroom halive hnot⟩
  · rintro s step s' ⟨hs, hbroken⟩ _ ⟨⟨henabled, hfew⟩, hroom⟩ hexec
    obtain ⟨t, ht, hs', heffect⟩ := hs.step henabled hfew hroom
    obtain rfl : s' = t := Option.some.inj (hexec.symm.trans ht)
    exact ⟨hs', hbroken.step hs heffect hroom⟩
  · intro t hrun halive hbroken
    exact hbroken.2.not_alive (hreturned t hrun) halive

instance (s : LoopTimers Bool) (loop : Bool) (step : LoopTimerStep Bool) :
    Decidable (s.Careful loop step) :=
  inferInstanceAs (Decidable (
    (∀ fd ∈ s.cancelsFd loop step, ∀ p ∈ s.run.queue.heap.reduceOption,
      TimerRun.idOf p = fd → s.executing ≠ some p ∧
        ∀ thread, s.adding thread ≠ some (.passed p)) ∧
    (step = .returnFromTimeout → ∀ p ∈ s.run.firing.reduceOption,
      ∀ thread, s.adding thread ≠ some (.passed p))))

end LoopTimers

open LoopTimers

/-- Lifetime.  In runs that create fewer than `2 ^ 32` timers and have room for
the positions: if no callback of a repeated timer cancels its own id, and if
between `runInLoop` and `getFd` of a call of `addTimer` the loop neither cancels
the timer nor ends its `popTimer`, then no timer dies under its callback and no
id is read too late; and a run at whose end no call of `addTimer` is under way
is so only then. -/
theorem loopTimers_lifetime_iff [DecidableEq T] (loop : T)
    (word : List (LoopTimerStep T))
    (hlegal : (loopTimerMachine loop).Legal .start word)
    (hfew : (loopTimerMachine loop).Meets (Few loop) .start word)
    (hroom : (loopTimerMachine loop).Meets (Room loop) .start word) :
    ((loopTimerMachine loop).Meets (Careful loop) .start word →
      (loopTimerMachine loop).Holds Alive .start word) ∧
    ((∀ t, (loopTimerMachine loop).run .start word = some t →
        ∀ thread, t.adding thread = none) →
      ((loopTimerMachine loop).Holds Alive .start word ↔
        (loopTimerMachine loop).Meets (Careful loop) .start word)) := by
  have hword := (hlegal.and hfew).and hroom
  have henough : (loopTimerMachine loop).Meets (Careful loop) .start word →
      (loopTimerMachine loop).Holds Alive .start word := by
    intro hcareful
    have hrun : (loopTimerMachine loop).Holds Held .start word := by
      apply Machine.holds_of_step _ start_held (hword.and hcareful)
      rintro s step hs ⟨⟨⟨henabled, hfew⟩, hroom⟩, hcareful⟩
      obtain ⟨s', hexec, hs', heffect⟩ := hs.wired.step henabled hfew hroom
      exact ⟨s', hexec, hs.step hs' heffect henabled hroom
        (hs.wired.careful_iff.mp hcareful)⟩
    exact hrun.mono fun s hs => hs.alive
  exact ⟨henough, fun hreturned =>
    ⟨start_held.meets hword hreturned, henough⟩⟩

/-- Another thread adds a one-shot timer, which is called. -/
theorem loopTimers_lifetime_iff_once :
    (loopTimerMachine false).Holds Alive .start
      [.createTimer true 5 false 0, .runInLoop true, .getFd true 0,
        .swapFunctors, .callFunctor, .returnFunctors, .popTimer 6,
        .cancelTimer false (-12346), .returnFromTimeout] :=
  (loopTimers_lifetime_iff false _ (by decide +kernel) (by decide +kernel)
    (by decide +kernel)).1 (by decide +kernel)

/-- A repeated timer cancels itself; and a timer is called and deleted before
the other thread that adds it reads its id. -/
theorem loopTimers_lifetime_fails :
    let cancelled : List (LoopTimerStep Bool) :=
      [.createTimer false 5 true 0, .runInLoop false, .getFd false 0,
        .popTimer 6, .cancelTimer false (-12346)]
    let read : List (LoopTimerStep Bool) :=
      [.createTimer true 5 false 0, .runInLoop true, .swapFunctors,
        .callFunctor, .returnFunctors, .popTimer 6, .returnFromTimeout,
        .getFd true 0]
    ((loopTimerMachine false).Legal .start cancelled ∧
      ¬ (loopTimerMachine false).Holds Alive .start cancelled) ∧
    (loopTimerMachine false).Legal .start read ∧
      ¬ (loopTimerMachine false).Holds Alive .start read := by
  intro cancelled read
  have hdead : ((loopTimerMachine false).run .start cancelled).map
      (fun t => (t.executing, (t.run.queue.memory 0).isNone)) =
        some (some 0, true) := by
    decide +kernel
  have hdangling : ((loopTimerMachine false).run .start read).map
      LoopTimers.dangling = some [0] := by
    decide +kernel
  refine ⟨⟨by decide +kernel, Machine.not_holds_of_view hdead ?_⟩,
    by decide +kernel, Machine.not_holds_of_view hdangling ?_⟩
  · intro t hlast halive
    obtain ⟨hexecuting, hnone⟩ := Prod.mk.inj hlast
    exact halive.executing 0 hexecuting (Option.isNone_iff_eq_none.mp hnone)
  · intro t hdangling halive
    rw [halive.dangling] at hdangling
    cases hdangling

end Libsaf
