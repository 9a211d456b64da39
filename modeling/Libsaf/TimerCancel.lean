/-
The effect of `EventLoop::cancelTimer` over runs.  A cancel takes the timer out
for good, unless the loop executes it before the addition that it refers to.
-/
import Libsaf.LoopTimer

namespace Libsaf

universe v

variable {T : Type v}

namespace TimerRun

variable {s s' : TimerRun}

/-- The heap after an operation. -/
theorem heap_step (h : s.Safe) (hnumbered : s.Numbered) {op : TimerOp}
    (henabled : timerMachine.enabled s op) (hroom : s.Room op)
    (hexec : timerMachine.exec s op = some s') :
    (∀ x, some x ∈ s'.queue.heap → some x ∈ s.queue.heap ∨ op.adds = some x) ∧
      ∀ x, op.adds = some x → some x ∈ s'.queue.heap := by
  cases op with
  | createTimer interval repeated now =>
      cases hexec
      exact ⟨fun _ hx => Or.inl hx, by simp [TimerOp.adds]⟩
  | addTimer p =>
      obtain ⟨hheap, _⟩ := addTimer_owners h hroom henabled
        (hnumbered.fresh h henabled) hexec
      constructor
      · intro x hx
        exact ((hheap x).mp hx).imp_right fun heq => congrArg some heq.symm
      · intro x hx
        exact (hheap x).mpr (Or.inr (Option.some.inj hx).symm)
  | cancelTimer fd =>
      obtain ⟨hheap, _⟩ := cancelTimer_owners h hroom hexec
      exact ⟨fun x hx => Or.inl ((hheap x).mp hx).1,
        by simp [TimerOp.adds]⟩
  | popTimer now =>
      obtain ⟨p, _, _, hheap, _⟩ := popTimer_owners h hroom henabled hexec
      exact ⟨fun x hx => Or.inl (hheap x hx),
        by simp [TimerOp.adds]⟩
  | returnFromTimeout =>
      obtain ⟨hheap, _⟩ := returnFromTimeout_owners hexec
      exact ⟨fun x hx => Or.inl (hheap ▸ hx),
        by simp [TimerOp.adds]⟩

end TimerRun

namespace LoopTimers

variable {s s' : LoopTimers T} {loop : T}

/-- A timer is out of the queue.  It is deleted, but for a one-shot timer in
its own callback, which `popTimer` deletes when that returns. -/
structure Gone (s : LoopTimers T) (p : Nat) : Prop where
  heap : some p ∉ s.run.queue.heap
  timers : ∀ fd, s.run.queue.timers fd ≠ some p
  deleted : s.run.queue.memory p = none ∨ s.executing = some p

/-- When the addition and a cancel of a timer were executed, the timer is gone,
and its callback was not called since. -/
structure Effective (s : LoopTimers T) : Prop where
  gone : ∀ p ∈ s.cancelled, p ∈ s.added → s.Gone p
  late : s.late = []

theorem Wired.gone (h : s.Wired) {p : Nat} (hadded : p ∈ s.added)
    (hheap : some p ∉ s.run.queue.heap) : s.Gone p := by
  refine ⟨hheap, fun fd hentry => ?_, ?_⟩
  · exact hheap ((h.safe.consistent.owned fd p).mp hentry).1
  · by_cases hlive : s.run.queue.memory p = none
    · exact Or.inl hlive
    · right
      rcases h.safe.memory_iff.mp hlive with hin | hin | hin
      · exact absurd hin hheap
      · exact absurd hin (h.added p hadded).2
      · exact h.firing p hin

/-- The timer of a returned id is found under it. -/
theorem Wired.entry (h : s.Wired) {p : Nat} {fd : Int}
    (hreturned : (p, fd) ∈ s.returned) (hheap : some p ∈ s.run.queue.heap) :
    s.run.queue.timers fd = some p := by
  have hlive : s.run.queue.memory p ≠ none :=
    h.safe.memory_iff.mpr (Or.inl hheap)
  obtain ⟨t, ht⟩ := Option.ne_none_iff_exists'.mp hlive
  have hfd : t.fd = fd :=
    (h.numbered.ids p t ht).trans ((h.named p fd hreturned).2.2 hlive).symm
  exact (h.safe.consistent.owned fd p).mpr ⟨hheap, by rw [ht, ← hfd]; rfl⟩

variable [DecidableEq T]

/-- No addition is executed of which a cancel has been executed. -/
def InOrder (loop : T) (s : LoopTimers T) (step : LoopTimerStep T) : Prop :=
  ∀ p ∈ s.adds loop step, p ∉ s.cancelled

instance (step : LoopTimerStep T) : Decidable (s.InOrder loop step) :=
  inferInstanceAs
    (Decidable (∀ p ∈ s.adds loop step, p ∉ s.cancelled))

/-- The heap after a step. -/
theorem Effect.heap {step : LoopTimerStep T} (h : s.Effect loop s' step)
    (hs : s.Wired) (hroom : s.Room loop step) :
    (∀ x, some x ∈ s'.run.queue.heap →
        some x ∈ s.run.queue.heap ∨ s.adds loop step = some x) ∧
      ∀ x, s.adds loop step = some x → some x ∈ s'.run.queue.heap := by
  unfold adds
  cases hop : s.operation loop step with
  | none =>
      rw [h.quiet hop]
      exact ⟨fun _ hx => Or.inl hx, by simp⟩
  | some op =>
      obtain ⟨henabled, hexec⟩ := h.operation op hop
      exact TimerRun.heap_step hs.safe hs.numbered henabled (hroom op hop)
        hexec

/-- The timers that are added stay so, and so do those that are cancelled. -/
theorem Effect.grows {step : LoopTimerStep T} (h : s.Effect loop s' step) :
    (∀ p ∈ s.added, p ∈ s'.added) ∧ ∀ p ∈ s.cancelled, p ∈ s'.cancelled := by
  constructor
  · intro p hp
    rw [h.added]
    exact List.mem_append_right _ hp
  · intro p hp
    rcases h.cancelled with hsame | ⟨_, timers, _, hnew, _⟩
    · rw [hsame]
      exact hp
    · rw [hnew]
      exact List.mem_append_right timers hp

/-- What the loop did last: nothing that is cancelled is in the heap. -/
theorem Effective.step (h : s.Effective) (hs : s.Wired) (hs' : s'.Wired)
    {step : LoopTimerStep T} (heffect : s.Effect loop s' step)
    (henabled : (loopTimerMachine loop).enabled s step)
    (hroom : s.Room loop step) (horder : s.InOrder loop step) :
    s'.Effective := by
  obtain ⟨hheap, _⟩ := heffect.heap hs hroom
  have hout : ∀ p ∈ s'.cancelled, p ∈ s'.added →
      some p ∉ s'.run.queue.heap := by
    intro p hcancelled hadded hin
    rw [heffect.added, List.mem_append, Option.mem_toList] at hadded
    have hold : p ∈ s.cancelled → False := by
      intro hp
      have hadds : s.adds loop step ≠ some p := fun heq => horder p heq hp
      exact (h.gone p hp (hadded.resolve_left hadds)).heap
        ((hheap p hin).resolve_right hadds)
    rcases heffect.cancelled with hsame | ⟨fd, timers, hop, hnew, hreturned⟩
    · exact hold (hsame ▸ hcancelled)
    · rw [hnew, List.mem_append] at hcancelled
      rcases hcancelled with htimers | hp
      · have hbefore : some p ∈ s.run.queue.heap := by
          refine (hheap p hin).resolve_right ?_
          rw [adds, hop]
          simp [TimerOp.adds]
        obtain ⟨_, hexec⟩ := heffect.operation _ hop
        obtain ⟨hafter, _⟩ :=
          TimerRun.cancelTimer_owners hs.safe (hroom _ hop) hexec
        exact ((hafter p).mp hin).2 (hs.entry (hreturned p htimers) hbefore)
      · exact hold hp
  refine ⟨fun p hcancelled hadded => hs'.gone hadded (hout p hcancelled hadded),
    ?_⟩
  rw [heffect.late, h.late, List.nil_append]
  cases step with
  | popTimer now =>
      obtain ⟨run, p, _, hfirst, _⟩ := hs.popTimer henabled.1.2.2
        (hroom _ rfl) henabled.2 now []
      have hin : some p ∈ s.run.queue.heap := by
        rw [first, Option.join_eq_some_iff] at hfirst
        exact List.mem_of_getElem? hfirst
      have hlive : ¬ (p ∈ s.cancelled ∧ p ∈ s.added) :=
        fun hboth => (h.gone p hboth.1 hboth.2).heap hin
      rw [lates, hfirst, Option.toList_some,
        List.filter_cons_of_neg (by simpa using hlive), List.filter_nil]
  | _ => rfl

/-- An addition out of order leaves a cancelled timer in the heap. -/
theorem Effective.inOrder (h : s'.Effective) (hs : s.Wired)
    {step : LoopTimerStep T} (heffect : s.Effect loop s' step)
    (hroom : s.Room loop step) : s.InOrder loop step := by
  intro p hadds hcancelled
  have hadded : p ∈ s'.added := by
    rw [heffect.added, hadds]
    exact List.mem_append_left _ (Option.mem_toList.mpr rfl)
  exact (h.gone p (heffect.grows.2 p hcancelled) hadded).heap
    ((heffect.heap hs hroom).2 p hadds)

end LoopTimers

open LoopTimers

/-- Cancellation.  Of the runs that create fewer than `2 ^ 32` timers and have
room for the positions, those keep cancelled timers out of the queue and their
callbacks uncalled in which the loop executes no addition after a cancel of
it. -/
theorem loopTimers_cancel_iff [DecidableEq T] (loop : T)
    (word : List (LoopTimerStep T))
    (hlegal : (loopTimerMachine loop).Legal .start word)
    (hfew : (loopTimerMachine loop).Meets (Few loop) .start word)
    (hroom : (loopTimerMachine loop).Meets (Room loop) .start word) :
    (loopTimerMachine loop).Holds Effective .start word ↔
      (loopTimerMachine loop).Meets (InOrder loop) .start word := by
  apply Machine.holds_iff_meets (I := fun s => s.Wired ∧ s.Effective)
    (E := fun s step => (((loopTimerMachine loop).enabled s step ∧
      s.Few loop step) ∧ s.Room loop step))
  · exact fun s hs => hs.2
  · rintro s step ⟨hs, heffective⟩ ⟨⟨henabled, hfew⟩, hroom⟩ horder
    obtain ⟨s', hexec, hs', heffect⟩ := hs.step henabled hfew hroom
    exact ⟨s', hexec, hs',
      heffective.step hs hs' heffect henabled hroom horder⟩
  · rintro s step s' ⟨hs, _⟩ ⟨⟨henabled, hfew⟩, hroom⟩ hexec heffective
    obtain ⟨t, ht, _, heffect⟩ := hs.step henabled hfew hroom
    obtain rfl : t = s' := Option.some.inj (ht.symm.trans hexec)
    exact heffective.inOrder hs heffect hroom
  · exact ⟨start_wired, fun p hp => absurd hp List.not_mem_nil, rfl⟩
  · exact (hlegal.and hfew).and hroom

/-- Another thread adds a timer and cancels it. -/
theorem loopTimers_cancel_iff_queued :
    (loopTimerMachine false).Holds Effective .start
      [.createTimer true 5 false 0, .runInLoop true, .getFd true 0,
        .cancelTimer true (-12346), .swapFunctors, .callFunctor, .callFunctor,
        .returnFunctors] :=
  (loopTimers_cancel_iff false _ (by decide +kernel) (by decide +kernel)
    (by decide +kernel)).mpr (by decide +kernel)

/-- Another thread adds a timer and hands its id to the thread of the loop,
which cancels it, then executes the addition and later calls the timer. -/
theorem loopTimers_cancel_overtakes :
    let word : List (LoopTimerStep Bool) :=
      [.createTimer true 5 false 0, .runInLoop true, .getFd true 0,
        .cancelTimer false (-12346), .swapFunctors, .callFunctor,
        .returnFunctors, .popTimer 6]
    (loopTimerMachine false).Legal .start word ∧
      ¬ (loopTimerMachine false).Holds Effective .start word := by
  intro word
  have hlate : ((loopTimerMachine false).run .start word).map
      LoopTimers.late = some [0] := by
    decide +kernel
  refine ⟨by decide +kernel, Machine.not_holds_of_view hlate ?_⟩
  intro t hlate heffective
  rw [heffective.late] at hlate
  cases hlate

end Libsaf
