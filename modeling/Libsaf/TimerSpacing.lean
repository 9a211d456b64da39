/-
When timers are called.  Over runs of the queue in which `popTimer` is called as
`EventLoop::runTimers` does, when `checkTimers` says so, a timer is never called
before its interval is over, counted from its creation or from the last time it
was set anew, and a one-shot timer is called once at most.  The clock may jump.
-/
import Libsaf.TimerPass
import Libsaf.TimerRun

namespace Libsaf

/-- A call of a timer: the clock that `checkTimers` read before it, and the one
that `popTimer` read. -/
structure TimerCall where
  checked : Int
  now : Int
deriving Repr, DecidableEq

/-- Every call is decided when more than the interval has passed since the timer
was set, which is at `since` and at every call. -/
def Spaced (interval : Int) : Int → List TimerCall → Prop
  | _, [] => True
  | since, call :: calls =>
      since + interval < call.checked ∧ Spaced interval call.now calls

/-- The clock when the timer was set for the last time. -/
def lastSet : Int → List TimerCall → Int
  | since, [] => since
  | _, call :: calls => lastSet call.now calls

theorem spaced_append {interval since : Int} {calls : List TimerCall}
    {call : TimerCall} : Spaced interval since (calls ++ [call]) ↔
      Spaced interval since calls ∧
        lastSet since calls + interval < call.checked := by
  induction calls generalizing since with
  | nil => simp [Spaced, lastSet]
  | cons first rest ih => simp [Spaced, lastSet, ih, and_assoc]

theorem lastSet_append (since : Int) (calls : List TimerCall)
    (call : TimerCall) : lastSet since (calls ++ [call]) = call.now := by
  induction calls generalizing since with
  | nil => rfl
  | cons first rest ih => exact ih first.now

/-- The run with its history: what `createTimer` was told about each timer, the
clock then, and the calls of the timer. -/
structure TimerHistory where
  run : TimerRun
  interval : Nat → Int
  repeated : Nat → Bool
  since : Nat → Int
  calls : Nat → List TimerCall

/-- `popTimer` comes with the clock that was read before it. -/
inductive ClockedOp where
  | createTimer (interval : Int) (repeated : Bool) (now : Int)
  | addTimer (timer : Nat)
  | cancelTimer (fd : Int)
  | popTimer (checked now : Int)
  | returnFromTimeout
deriving Repr, DecidableEq

def ClockedOp.timerOp : ClockedOp → TimerOp
  | .createTimer interval repeated now => .createTimer interval repeated now
  | .addTimer timer => .addTimer timer
  | .cancelTimer fd => .cancelTimer fd
  | .popTimer _ now => .popTimer now
  | .returnFromTimeout => .returnFromTimeout

namespace TimerHistory

def start : TimerHistory :=
  { run := .start
    interval := fun _ => 0
    repeated := fun _ => false
    since := fun _ => 0
    calls := fun _ => [] }

/-- The timer in the first slot of the heap. -/
def first (s : TimerHistory) : Option Nat := s.run.queue.heap[1]?.join

/-- The history after an operation. -/
def record (s : TimerHistory) : ClockedOp → TimerHistory
  | .createTimer interval repeated now =>
      let timer := s.run.queue.next
      { s with
        interval := Function.update s.interval timer interval
        repeated := Function.update s.repeated timer repeated
        since := Function.update s.since timer now
        calls := Function.update s.calls timer [] }
  | .popTimer checked now =>
      match s.first with
      | none => s
      | some timer => { s with
          calls := Function.update s.calls timer
            (s.calls timer ++ [⟨checked, now⟩]) }
  | _ => s

/-- The timestamps are of type `long`. -/
def InLong (s : TimerHistory) : ClockedOp → Prop
  | .createTimer interval _ now =>
      -2 ^ 63 ≤ now + interval ∧ now + interval < 2 ^ 63
  | .popTimer _ now => ∀ timer ∈ s.first,
      -2 ^ 63 ≤ now + s.interval timer ∧ now + s.interval timer < 2 ^ 63
  | _ => True

/-- `checkTimers` returned `true` before `popTimer` is called. -/
def Checked (s : TimerHistory) : ClockedOp → Prop
  | .popTimer checked _ => s.run.queue.checkTimers checked = some true
  | _ => True

end TimerHistory

def clockedMachine : Machine TimerHistory ClockedOp where
  enabled s op := timerMachine.enabled s.run op.timerOp ∧ s.Checked op
  exec s op := (timerMachine.exec s.run op.timerOp).map fun run =>
    { s.record op with run := run }

namespace TimerRun

/-- The timer is in the heap, or will be added to it. -/
def Waits (s : TimerRun) (p : Nat) (t : Timer) : Prop :=
  s.queue.memory p = some t ∧ (some p ∈ s.queue.heap ∨ p ∈ s.created)

/-- But for some, the timers that wait have waited before, and their heap index
alone may have changed. -/
def KeepsWaiting (s s' : TimerRun) (except : Nat → Prop) : Prop :=
  ∀ x t', s'.Waits x t' → ¬except x → ∃ t, s.Waits x t ∧ t.core = t'.core

theorem core_of_sifted {q q' : TimerQueue} (h : TimerQueue.Sifted q q')
    {x : Nat} {t' : Timer} (ht : q'.memory x = some t') :
    ∃ t, q.memory x = some t ∧ t.core = t'.core := by
  have hcore := h.memory x
  rw [ht, Option.map_some, eq_comm, Option.map_eq_some_iff] at hcore
  exact hcore

theorem createTimer_waiting (s : TimerRun) (interval : Int) (repeated : Bool)
    (now : Int) : s.KeepsWaiting { s with
        queue := (s.queue.createTimer interval repeated now).2
        created := s.queue.next :: s.created } (· = s.queue.next) := by
  rintro x t' ⟨ht', hplace⟩ hne
  refine ⟨t', ⟨?_, ?_⟩, rfl⟩
  · rw [← ht']
    exact (Function.update_of_ne hne _ _).symm
  · exact hplace.imp id fun hcreated =>
      (List.mem_cons.mp hcreated).resolve_left hne

theorem addTimer_waiting {s s' : TimerRun} (h : s.Safe) {p : Nat}
    (hroom : s.queue.heap.length < 2 ^ 31) (hp : p ∈ s.created)
    (hfresh : s.Fresh (.addTimer p))
    (hexec : timerMachine.exec s (.addTimer p) = some s') :
    s.KeepsWaiting s' fun _ => False := by
  obtain ⟨t, ht⟩ := h.accounted.memory (Or.inl hp)
  obtain ⟨q', hrun, _, hsifted, _⟩ :=
    TimerQueue.addTimer_spec h.consistent hroom ht
      (h.accounted.not_mem_heap (Or.inl hp)) (hfresh t ht)
  obtain rfl : { s with queue := q', created := s.created.erase p } = s' := by
    simpa [timerMachine, hrun] using hexec
  rintro x t' ⟨ht', hplace⟩ _
  obtain ⟨u, hu, hcore⟩ := core_of_sifted hsifted ht'
  refine ⟨u, ⟨hu, ?_⟩, hcore⟩
  rcases hplace with hheap | hcreated
  · have hin : some x ∈ s.queue.heap ++ [some p] :=
      hsifted.heap.mem_iff.mp hheap
    rcases List.mem_append.mp hin with hold | hnew
    · exact Or.inl hold
    · obtain rfl : x = p := by simpa using hnew
      exact Or.inr hp
  · exact Or.inr (List.mem_of_mem_erase hcreated)

theorem cancelTimer_waiting {s s' : TimerRun} (h : s.Safe) {fd : Int}
    (hroom : s.Room (.cancelTimer fd))
    (hexec : timerMachine.exec s (.cancelTimer fd) = some s') :
    s.KeepsWaiting s' fun _ => False := by
  rcases hentry : s.queue.timers fd with _ | p
  · obtain rfl : s = s' := by
      simpa [timerMachine, TimerQueue.cancelTimer_of_none hentry] using hexec
    exact fun x t ht _ => ⟨t, ht, rfl⟩
  · obtain ⟨q', hrun, _, hdeleted, hsifted, _⟩ :=
      TimerQueue.cancelTimer_spec h.consistent
        (hroom (by rw [hentry]; exact Option.some_ne_none p)) hentry
    obtain rfl : { s with queue := q' } = s' := by
      simpa [timerMachine, hrun] using hexec
    rintro x t' ⟨ht', hplace⟩ _
    have hne : x ≠ p := by
      rintro rfl
      change q'.memory x = some t' at ht'
      rw [hdeleted] at ht'
      cases ht'
    obtain ⟨u, hu, hcore⟩ := core_of_sifted hsifted ht'
    refine ⟨u, ⟨?_, ?_⟩, hcore⟩
    · rw [← hu]
      exact (Function.update_of_ne hne _ _).symm
    · refine hplace.imp (fun hheap => ?_) id
      exact hsifted.heap.mem_iff.mp (List.mem_append_left _ hheap)

theorem returnFromTimeout_waiting {s s' : TimerRun}
    (hexec : timerMachine.exec s .returnFromTimeout = some s') :
    s.KeepsWaiting s' fun _ => False := by
  obtain ⟨queue, created, firing⟩ := s
  rcases firing with _ | ⟨_ | p, rest⟩
  · cases hexec
  · cases hexec
    exact fun x t ht _ => ⟨t, ht, rfl⟩
  · obtain ⟨q', hdelete, rfl⟩ := Option.map_eq_some_iff.mp hexec
    obtain ⟨_, _, heq⟩ := Option.bind_eq_some_iff.mp hdelete
    cases heq
    rintro x t' ⟨ht', hplace⟩ _
    have hne : x ≠ p := by
      rintro rfl
      simp at ht'
    refine ⟨t', ⟨?_, hplace⟩, rfl⟩
    rw [← ht']
    exact (Function.update_of_ne hne _ _).symm

/-- A one-shot timer that is called waits no longer. -/
theorem popTimer_once_waiting {s s' : TimerRun} (h : s.Safe)
    (hroom : s.queue.heap.length < 2 ^ 31) {p : Nat} {t : Timer}
    (hroot : s.queue.Root p t) (honce : t.repeated = false) {now : Int}
    (hexec : timerMachine.exec s (.popTimer now) = some s') :
    s.KeepsWaiting s' (fun _ => False) ∧ ∀ u, ¬s'.Waits p u := by
  obtain ⟨q', hrun, _, hsifted, _⟩ :=
    TimerQueue.popTimer_once h.consistent hroom hroot.slot hroot.timer honce now
  obtain rfl : { s with queue := q', firing := some p :: s.firing } = s' := by
    simpa [timerMachine, hrun] using hexec
  have hout : some p ∉ q'.heap :=
    h.consistent.linked.not_mem (show (q'.heap ++ [some p]).Perm s.queue.heap
      from hsifted.heap)
  constructor
  · rintro x t' ⟨ht', hplace⟩ _
    obtain ⟨u, hu, hcore⟩ := core_of_sifted hsifted ht'
    refine ⟨u, ⟨hu, hplace.imp (fun hheap => ?_) id⟩, hcore⟩
    exact hsifted.heap.mem_iff.mp (List.mem_append_left _ hheap)
  · rintro u ⟨_, hheap | hcreated⟩
    · exact hout hheap
    · exact h.accounted.not_mem_heap (Or.inl hcreated) hroot.mem

/-- A repeated timer is set anew. -/
theorem popTimer_repeated_waiting {s s' : TimerRun} (h : s.Safe)
    (hroom : s.queue.heap.length < 2 ^ 31) {p : Nat} {t : Timer}
    (hroot : s.queue.Root p t) (hrepeated : t.repeated = true) {now : Int}
    (hexec : timerMachine.exec s (.popTimer now) = some s') :
    s.KeepsWaiting s' (· = p) ∧ ∀ u, s'.Waits p u →
      u.core = { t with timestamp := toLong (now + t.interval) }.core := by
  obtain ⟨q', hrun, _, hsifted, _⟩ :=
    TimerQueue.popTimer_repeated h.consistent hroom hroot.slot hroot.timer
      hrepeated now
  obtain rfl : { s with queue := q', firing := none :: s.firing } = s' := by
    simpa [timerMachine, hrun] using hexec
  constructor
  · rintro x t' ⟨ht', hplace⟩ hne
    obtain ⟨u, hu, hcore⟩ := core_of_sifted hsifted ht'
    refine ⟨u, ⟨?_, hplace.imp (fun hheap => ?_) id⟩, hcore⟩
    · rw [← hu]
      exact (Function.update_of_ne hne _ _).symm
    · exact hsifted.heap.mem_iff.mp hheap
  · rintro u ⟨hu, _⟩
    obtain ⟨v, hv, hcore⟩ := core_of_sifted hsifted hu
    obtain rfl : { t with timestamp := toLong (now + t.interval) } = v := by
      simpa using hv
    exact hcore.symm

end TimerRun

namespace TimerHistory

/-- A timer that waits has the interval and the timestamp of its history, and if
it is called once only it has not been called. -/
structure Follows (s : TimerHistory) (p : Nat) (t : Timer) : Prop where
  interval : t.interval = s.interval p
  repeated : t.repeated = s.repeated p
  timestamp : t.timestamp = lastSet (s.since p) (s.calls p) + s.interval p
  once : t.repeated = false → s.calls p = []

structure Timed (s : TimerHistory) : Prop where
  safe : s.run.Safe
  numbered : s.run.Numbered
  spaced : ∀ p, Spaced (s.interval p) (s.since p) (s.calls p)
  once : ∀ p, s.repeated p = false → (s.calls p).length ≤ 1
  waiting : ∀ p t, s.run.Waits p t → s.Follows p t

theorem start_timed : start.Timed where
  safe := TimerRun.start_safe
  numbered := TimerRun.start_numbered
  spaced _ := trivial
  once _ _ := Nat.zero_le 1
  waiting p t h := by cases h.1

/-- The heap index is not part of the history. -/
theorem Follows.of_core {s : TimerHistory} {p : Nat} {t t' : Timer}
    (h : s.Follows p t) (hcore : t.core = t'.core) : s.Follows p t' := by
  obtain ⟨_, hinterval, htimestamp, hrepeated⟩ := Timer.core_eq hcore
  exact ⟨hinterval ▸ h.interval, hrepeated ▸ h.repeated,
    htimestamp ▸ h.timestamp, hrepeated ▸ h.once⟩

/-- A step that calls no timer and creates none. -/
theorem Timed.keep {s : TimerHistory} (h : s.Timed) {run : TimerRun}
    (hsafe : run.Safe) (hnumbered : run.Numbered)
    (hkeeps : s.run.KeepsWaiting run fun _ => False) :
    Timed { s with run := run } where
  safe := hsafe
  numbered := hnumbered
  spaced := h.spaced
  once := h.once
  waiting p t' ht' := by
    obtain ⟨t, ht, hcore⟩ := hkeeps p t' ht' id
    have hset := (h.waiting p t ht).of_core hcore
    exact ⟨hset.interval, hset.repeated, hset.timestamp, hset.once⟩

theorem Timed.createTimer {s : TimerHistory} (h : s.Timed) {interval : Int}
    {repeated : Bool} {now : Int} {run : TimerRun}
    (hlow : -2 ^ 63 ≤ now + interval) (hhigh : now + interval < 2 ^ 63)
    (hrun : run = { s.run with
      queue := (s.run.queue.createTimer interval repeated now).2
      created := s.run.queue.next :: s.run.created })
    (hsafe : run.Safe) (hnumbered : run.Numbered) :
    Timed
      { s.record (.createTimer interval repeated now) with run := run } := by
  subst hrun
  refine ⟨hsafe, hnumbered, fun p => ?_, fun p hrepeated => ?_,
    fun p t ht => ?_⟩
  · rcases eq_or_ne p s.run.queue.next with rfl | hne
    · simp [record, Spaced]
    · simpa [record, hne] using h.spaced p
  · rcases eq_or_ne p s.run.queue.next with rfl | hne
    · simp [record]
    · simp only [record, Function.update_of_ne hne] at hrepeated ⊢
      exact h.once p hrepeated
  · rcases eq_or_ne p s.run.queue.next with rfl | hne
    · have hmemory := ht.1
      simp only [TimerQueue.createTimer, Function.update_self,
        Option.some.injEq] at hmemory
      subst hmemory
      constructor <;> simp [record, lastSet, toLong_eq hlow hhigh]
    · obtain ⟨u, hu, hcore⟩ :=
        s.run.createTimer_waiting interval repeated now p t ht hne
      have hset := (h.waiting p u hu).of_core hcore
      constructor
      · simpa [record, hne] using hset.interval
      · simpa [record, hne] using hset.repeated
      · simpa [record, hne] using hset.timestamp
      · simpa [record, hne] using hset.once

/-- The call of a timer that `checkTimers` found due. -/
theorem Timed.popTimer {s : TimerHistory} (h : s.Timed) {checked now : Int}
    {run : TimerRun} (hroom : s.run.queue.heap.length < 2 ^ 31)
    (hlt : 1 < s.run.queue.heap.length)
    (hchecked : s.Checked (.popTimer checked now))
    (hlong : s.InLong (.popTimer checked now))
    (hexec : timerMachine.exec s.run (.popTimer now) = some run)
    (hsafe : run.Safe) (hnumbered : run.Numbered) :
    Timed { s.record (.popTimer checked now) with run := run } := by
  obtain ⟨p, t, hroot⟩ := h.safe.consistent.linked.root hlt
  have hfirst : s.first = some p := by
    rw [first, hroot.slot]
    rfl
  have hset : s.Follows p t := h.waiting p t ⟨hroot.timer, Or.inl hroot.mem⟩
  have hdue : t.timestamp < checked := by
    have heq := hchecked
    rw [Checked, hroot.checkTimers, Option.some.injEq] at heq
    exact of_decide_eq_true heq
  obtain ⟨hlow, hhigh⟩ := hlong p hfirst
  have hother : ∀ x u, x ≠ p → s.run.KeepsWaiting run (· = p) →
      run.Waits x u →
        Follows { s.record (.popTimer checked now) with run := run } x u := by
    intro x u hne hkeeps hu
    obtain ⟨v, hv, hcore⟩ := hkeeps x u hu hne
    have hset := (h.waiting x v hv).of_core hcore
    constructor
    · simpa [record, hfirst] using hset.interval
    · simpa [record, hfirst] using hset.repeated
    · simpa [record, hfirst, hne] using hset.timestamp
    · simpa [record, hfirst, hne] using hset.once
  refine ⟨hsafe, hnumbered, fun x => ?_, fun x hrepeated => ?_,
    fun x u hu => ?_⟩
  · rcases eq_or_ne x p with rfl | hne
    · simp only [record, hfirst, Function.update_self]
      rw [spaced_append, ← hset.timestamp]
      exact ⟨h.spaced x, hdue⟩
    · simpa [record, hfirst, hne] using h.spaced x
  · rcases eq_or_ne x p with rfl | hne
    · have hnever : s.calls x = [] := by
        apply hset.once
        rw [hset.repeated]
        simpa [record, hfirst] using hrepeated
      simp [record, hfirst, hnever]
    · simp only [record, hfirst, Function.update_of_ne hne] at hrepeated ⊢
      exact h.once x hrepeated
  · cases hrepeated : t.repeated with
    | false =>
        obtain ⟨hkeeps, hgone⟩ :=
          TimerRun.popTimer_once_waiting h.safe hroom hroot hrepeated hexec
        have hne : x ≠ p := by
          rintro rfl
          exact hgone u hu
        exact hother x u hne (fun y v hv _ => hkeeps y v hv id) hu
    | true =>
        obtain ⟨hkeeps, hanew⟩ :=
          TimerRun.popTimer_repeated_waiting h.safe hroom hroot hrepeated hexec
        rcases eq_or_ne x p with rfl | hne
        · obtain ⟨_, hinterval, htimestamp, hsame⟩ :=
            Timer.core_eq (hanew u hu)
          dsimp only at hinterval htimestamp hsame
          constructor
          · simpa [record, hfirst, hinterval] using hset.interval
          · simpa [record, hfirst, hsame] using hset.repeated
          · rw [htimestamp, hset.interval, toLong_eq hlow hhigh]
            simp [record, hfirst, lastSet_append]
          · intro honce
            rw [hsame, hrepeated] at honce
            cases honce
        · exact hother x u hne hkeeps hu

theorem Timed.step {s : TimerHistory} (h : s.Timed) {op : ClockedOp}
    (henabled : clockedMachine.enabled s op) (hfew : s.run.Few op.timerOp)
    (hroom : s.run.Room op.timerOp) (hlong : s.InLong op) :
    ∃ s', clockedMachine.exec s op = some s' ∧ s'.Timed := by
  obtain ⟨hallowed, hchecked⟩ := henabled
  have hfresh := h.numbered.fresh h.safe hallowed
  obtain ⟨run, hexec, hsafe⟩ :=
    TimerRun.safe_step h.safe op.timerOp hallowed hfresh hroom
  have hnumbered : run.Numbered :=
    TimerRun.numbered_step h.numbered h.safe hallowed hfew hroom hexec
  refine ⟨{ s.record op with run := run }, ?_, ?_⟩
  · simp only [clockedMachine, hexec, Option.map_some]
  · cases op with
    | createTimer interval repeated now =>
        exact h.createTimer hlong.1 hlong.2 (Option.some.inj hexec).symm hsafe
          hnumbered
    | addTimer timer =>
        exact h.keep hsafe hnumbered
          (TimerRun.addTimer_waiting h.safe hroom hallowed hfresh hexec)
    | cancelTimer fd =>
        exact h.keep hsafe hnumbered
          (TimerRun.cancelTimer_waiting h.safe hroom hexec)
    | popTimer checked now =>
        exact h.popTimer hroom hallowed hchecked hlong hexec hsafe hnumbered
    | returnFromTimeout =>
        exact h.keep hsafe hnumbered (TimerRun.returnFromTimeout_waiting hexec)

end TimerHistory

/-- No timer is called early.  In every run that creates fewer than `2 ^ 32`
timers and has room for them, with cancels at any time and callbacks that add
and cancel timers, each call of a timer is decided more than its interval after
the timer was created or last set anew, whatever the clock does in between, and
a one-shot timer is called at most once. -/
theorem timers_spaced {word : List ClockedOp}
    (hlegal : clockedMachine.Legal .start word)
    (hfew : clockedMachine.Meets (fun s op => s.run.Few op.timerOp) .start word)
    (hroom : clockedMachine.Meets (fun s op => s.run.Room op.timerOp) .start
      word)
    (hlong : clockedMachine.Meets TimerHistory.InLong .start word) :
    clockedMachine.Holds (fun s => ∀ p,
        Spaced (s.interval p) (s.since p) (s.calls p) ∧
        (s.repeated p = false → (s.calls p).length ≤ 1)) .start word := by
  have hrun := Machine.holds_of_step
    (fun s op h hop =>
      TimerHistory.Timed.step h hop.1.1 hop.1.2 hop.2.1 hop.2.2)
    TimerHistory.start_timed ((hlegal.and hfew).and (hroom.and hlong))
  exact hrun.mono fun s h p => ⟨h.spaced p, h.once p⟩

instance (s : TimerHistory) (op : ClockedOp) :
    Decidable (clockedMachine.enabled s op) :=
  match op with
  | .createTimer _ _ _ => inferInstanceAs (Decidable (True ∧ True))
  | .addTimer timer => inferInstanceAs
      (Decidable (timer ∈ s.run.created ∧ True))
  | .cancelTimer _ => inferInstanceAs (Decidable (True ∧ True))
  | .popTimer checked _ => inferInstanceAs
      (Decidable (1 < s.run.queue.heap.length ∧
        s.run.queue.checkTimers checked = some true))
  | .returnFromTimeout => inferInstanceAs
      (Decidable (s.run.firing ≠ [] ∧ True))

instance (s : TimerHistory) (op : ClockedOp) : Decidable (s.InLong op) :=
  match op with
  | .createTimer interval _ now => inferInstanceAs
      (Decidable (-2 ^ 63 ≤ now + interval ∧ now + interval < 2 ^ 63))
  | .addTimer _ => isTrue trivial
  | .cancelTimer _ => isTrue trivial
  | .popTimer _ now => inferInstanceAs
      (Decidable (∀ timer ∈ s.first, -2 ^ 63 ≤ now + s.interval timer ∧
        now + s.interval timer < 2 ^ 63))
  | .returnFromTimeout => isTrue trivial

/-- A repeated timer is called twice, the second time while a one-shot timer is
cancelled from its callback. -/
theorem timers_spaced_twice :
    clockedMachine.Holds (fun s => ∀ p,
        Spaced (s.interval p) (s.since p) (s.calls p) ∧
        (s.repeated p = false → (s.calls p).length ≤ 1)) .start
      [.createTimer 5 true 0, .addTimer 0, .createTimer 30 false 1, .addTimer 1,
        .popTimer 6 7, .returnFromTimeout, .popTimer 13 13,
        .cancelTimer (-12347), .returnFromTimeout] :=
  timers_spaced (by decide +kernel) (by decide +kernel) (by decide +kernel)
    (by decide +kernel)

end Libsaf
