/-
The dispatch loop of `EventLoop::start`.  A batch of ready watchers is filled
by the poller, and each of them calls its observer for the events it was found
with; between two calls only the loop itself runs, and during a call the
handler may do anything to the watchers of the loop.  The loop holds pointers
to the watchers of the batch, so it must not come to one that was destroyed.
-/
import Libsaf.IOFd
import Mathlib.Data.Fintype.Basic

namespace Libsaf

universe u

variable {I : Type u}

def POLLERR : BitVec 32 := 0x008#32
def POLLHUP : BitVec 32 := 0x010#32
def POLLNVAL : BitVec 32 := 0x020#32
def POLLRDHUP : BitVec 32 := 0x2000#32

/-- The methods of `IOFdObserver`, and the callbacks that stand in for them
where there is no observer. -/
inductive IOReport where
  | close
  | error
  | read
  | write
deriving Repr, DecidableEq

/-- The conditions of the four branches of `handleEvent`. -/
def IOReport.isDue (revents : BitVec 32) : IOReport → Bool
  | .close => revents &&& POLLHUP ≠ 0#32 ∧ revents &&& POLLIN = 0#32
  | .error => revents &&& (POLLERR ||| POLLNVAL) ≠ 0#32
  | .read => revents &&& (POLLIN ||| POLLPRI ||| POLLRDHUP) ≠ 0#32
  | .write => revents &&& POLLOUT ≠ 0#32

/-- What `handleEvent` calls first, or after the call that is given.  It
returns after a close. -/
def nextReport (revents : BitVec 32) : Option IOReport → Option IOReport
  | none =>
      if IOReport.isDue revents .close then some .close
      else [IOReport.error, .read, .write].find? (IOReport.isDue revents)
  | some .close => none
  | some .error => [IOReport.read, .write].find? (IOReport.isDue revents)
  | some .read => [IOReport.write].find? (IOReport.isDue revents)
  | some .write => none

/-- A call of an observer, with the loop that its watcher is attached to. -/
structure ObserverCall (I : Type u) where
  watcher : I
  report : IOReport
  looper : Option Nat
deriving Repr, DecidableEq

/-- `activeFds` are the entries of the batch that `handleEvent` was not called
for yet, and `current` is the call that is under way.  A watcher that is not
`alive` was destroyed. -/
structure Dispatch (I : Type u) where
  watchers : Watchers I
  alive : I → Bool
  observed : I → Bool
  revents : I → BitVec 32
  activeFds : List I
  current : Option (I × IOReport)
  calls : List (ObserverCall I)

/-- Between `poll` and the end of its batch the steps other than `resume` are
those of a handler.  `construct` makes a new watcher in place of one that was
destroyed. -/
inductive DispatchStep (I : Type u) where
  | poll (ready : List (I × BitVec 32))
  | call (i : I) (call : IOFdCall)
  | setObserver (i : I) (isSet : Bool)
  | destroy (i : I)
  | construct (i : I) (fd : Int)
  | resume
deriving Repr, DecidableEq

namespace Dispatch

def start (number : I → Int) : Dispatch I :=
  { watchers := .start number
    alive := fun _ => true
    observed := fun _ => false
    revents := fun _ => 0#32
    activeFds := []
    current := none
    calls := [] }

/-- `_handling` of a watcher. -/
def Handling (s : Dispatch I) (i : I) : Prop :=
  ∃ report ≠ IOReport.close, s.current = some (i, report)

/-- What a call adds to the log if there is an observer. -/
def observe (s : Dispatch I) (i : I) (report : IOReport) :
    List (ObserverCall I) :=
  if s.observed i then [⟨i, report, (s.watchers.io i).looper⟩] else []

variable [DecidableEq I]

def clear (revents : I → BitVec 32) (i : I) : I → BitVec 32 :=
  Function.update revents i 0#32

/-- `setREvent` for the entries that `epoll_wait` has returned. -/
def setREvents : (I → BitVec 32) → List (I × BitVec 32) → I → BitVec 32
  | revents, [] => revents
  | revents, (i, events) :: ready =>
      setREvents (Function.update revents i events) ready

/-- `handleEvent` of a watcher calls its observer.  A close is reported with
the events cleared. -/
def report (s : Dispatch I) (i : I) (report : IOReport) (rest : List I) :
    Dispatch I :=
  { s with
    revents := if report = .close then clear s.revents i else s.revents
    activeFds := rest
    current := some (i, report)
    calls := s.calls ++ s.observe i report }

/-- The loop goes over the batch up to the next call. -/
def advance : Dispatch I → List I → Option (Dispatch I)
  | s, [] => some { s with activeFds := [], current := none }
  | s, i :: rest =>
      if s.alive i = false then none
      else match nextReport (s.revents i) none with
        | some report => some (s.report i report rest)
        | none => advance { s with revents := clear s.revents i } rest

/-- The events after a call; `handleEvent` returns at once from a close. -/
def reventsAfter (s : Dispatch I) (i : I) (report : IOReport) :
    I → BitVec 32 :=
  if report = .close then s.revents else clear s.revents i

/-- A handler returns. -/
def resume (s : Dispatch I) : Option (Dispatch I) :=
  s.current.bind fun (i, report) =>
    match nextReport (s.revents i) (some report) with
    | some next => some (s.report i next s.activeFds)
    | none =>
        { s with revents := s.reventsAfter i report }.advance s.activeFds

end Dispatch

/-- The kernel reports watchers of its set, with any events.  A watcher is
destroyed while it is detached and not in `handleEvent`, as its destructor
asserts.  A new one takes the place of one that the loop has no pointer to, and
has a descriptor of its own. -/
def dispatchMachine (I : Type u) [DecidableEq I] (loop : Nat) :
    Machine (Dispatch I) (DispatchStep I) where
  enabled s
    | .poll ready => s.current = none ∧ s.activeFds = [] ∧
        ∀ entry ∈ ready, (s.watchers.poller.interest
          (s.watchers.io entry.1).fd).map EpollEvent.data = some entry.1
    | .call i call => s.alive i = true ∧
        (watcherMachine I loop).enabled s.watchers (i, call)
    | .setObserver i _ => s.alive i = true
    | .destroy i => s.alive i = true ∧ (s.watchers.io i).looper = none ∧
        ¬s.Handling i
    | .construct i fd => s.alive i = false ∧ i ∉ s.activeFds ∧
        ¬s.Handling i ∧ ∀ j, j ≠ i → (s.watchers.io j).fd ≠ fd
    | .resume => s.current ≠ none
  exec s
    | .poll ready => { s with
        revents := Dispatch.setREvents s.revents ready }.advance
          (ready.map Prod.fst)
    | .call i call => ((watcherMachine I loop).exec s.watchers (i, call)).map
        fun watchers => { s with watchers := watchers }
    | .setObserver i isSet => some { s with
        observed := Function.update s.observed i isSet }
    | .destroy i => some { s with alive := Function.update s.alive i false }
    | .construct i fd => some { s with
        watchers := { s.watchers with
          io := Function.update s.watchers.io i (IOFd.ofFd fd) }
        alive := Function.update s.alive i true
        observed := Function.update s.observed i false
        revents := Dispatch.clear s.revents i }
    | .resume => s.resume

namespace Watchers

variable [DecidableEq I]

/-- The watchers that exist at a time have different descriptors, and the
poller knows no others. -/
structure Live (s : Watchers I) (loop : Nat) : Prop where
  wired : s.Wired loop fun i => (s.io i).fd
  distinct : Function.Injective fun i => (s.io i).fd
  table : ∀ n, (∀ i, (s.io i).fd ≠ n) → s.poller.fds n = none

variable {s : Watchers I} {loop : Nat}

omit [DecidableEq I] in
/-- A watcher in the kernel set is attached. -/
theorem Live.looper (h : s.Live loop) {i : I}
    (hready : (s.poller.interest (s.io i).fd).map EpollEvent.data = some i) :
    (s.io i).looper = some loop := by
  have hinterest := (h.wired.each i).interest
  split at hinterest
  · next hadded =>
      apply (h.wired.each i).attached
      rw [hadded]
      decide
  · rw [hinterest] at hready
    cases hready

/-- A call concerns its own watcher only. -/
theorem Live.call (h : s.Live loop) {i : I} {call : IOFdCall}
    (hstep : (watcherMachine I loop).enabled s (i, call)) :
    ∃ s', (watcherMachine I loop).exec s (i, call) = some s' ∧
      s'.Live loop ∧ (s'.io i).looper = call.looper loop (s.io i) ∧
      ∀ j, j ≠ i → s'.io j = s.io j := by
  have hcall : call = .attachInLoop ∨ call = .detachInLoop ∨
      (s.io i).looper = some loop := by
    cases call <;> simp_all [watcherMachine]
  obtain ⟨f', p', hexec, hwired, ht, hfd, hlooper⟩ :=
    IOFdCall.exec_spec (h.wired.each i) call hcall
  have hfds : (fun j => (Function.update s.io i f' j).fd) =
      fun j => (s.io j).fd := by
    funext j
    rcases eq_or_ne j i with rfl | hj
    · simpa using hfd
    · simp [hj]
  refine ⟨⟨Function.update s.io i f', p'⟩,
    by simp only [watcherMachine, hexec, Option.map_some], ⟨?_, ?_, ?_⟩,
    (congrArg IOFd.looper (Function.update_self i f' s.io)).trans hlooper,
    fun j hj => Function.update_of_ne hj f' s.io⟩
  · change Watchers.Wired _ loop fun j => (Function.update s.io i f' j).fd
    rw [hfds]
    exact h.wired.update h.distinct hfd hwired ht
  · change Function.Injective fun j => (Function.update s.io i f' j).fd
    rw [hfds]
    exact h.distinct
  · intro n hn
    have hold : ∀ j, (s.io j).fd ≠ n := fun j => congrFun hfds j ▸ hn j
    exact (ht.fds n (hold i).symm).trans (h.table n hold)

/-- A new watcher takes the place of a detached one. -/
theorem Live.construct (h : s.Live loop) {i : I} {fd : Int}
    (hlooper : (s.io i).looper = none)
    (hfresh : ∀ j, j ≠ i → (s.io j).fd ≠ fd) :
    Live ⟨Function.update s.io i (IOFd.ofFd fd), s.poller⟩ loop := by
  obtain ⟨hnew, _⟩ := (h.wired.each i).new_of_detached hlooper
  -- the descriptor of the old watcher has left the poller too
  have hknown : ∀ n, (∀ j, j ≠ i → (s.io j).fd ≠ n) →
      s.poller.fds n = none ∧ s.poller.interest n = none := by
    intro n hn
    by_cases hi : (s.io i).fd = n
    · obtain rfl := hi
      have htable := (h.wired.each i).table
      have hinterest := (h.wired.each i).interest
      rw [if_pos hnew] at htable
      rw [hnew] at hinterest
      exact ⟨htable, hinterest⟩
    · have hall : ∀ j, (s.io j).fd ≠ n := by
        intro j
        rcases eq_or_ne j i with rfl | hj
        · exact hi
        · exact hn j hj
      refine ⟨h.table n hall, Option.eq_none_iff_forall_ne_some.mpr ?_⟩
      intro event hevent
      obtain ⟨j, hj⟩ := h.wired.interest n event hevent
      exact hall j hj
  refine ⟨⟨fun j => ?_, fun j => rfl, fun n event hevent => ?_,
    h.wired.rejected⟩, fun j k hjk => ?_, fun n hn => ?_⟩
  · rcases eq_or_ne j i with rfl | hj
    · obtain ⟨hfds, hinterest⟩ := hknown fd hfresh
      constructor <;> simp [IOFd.ofFd, hfds, hinterest]
    · simpa [hj] using h.wired.each j
  · by_contra hnone
    have hothers : ∀ j, j ≠ i → (s.io j).fd ≠ n := by
      intro j hj heq
      exact hnone ⟨j, by simpa [hj] using heq⟩
    exact absurd (hevent.symm.trans (hknown n hothers).2) (by simp)
  · rcases eq_or_ne j i with rfl | hj <;> rcases eq_or_ne k j with rfl | hk
    · rfl
    · simp only [Function.update_self, Function.update_of_ne hk] at hjk
      exact absurd hjk.symm (hfresh k hk)
    · rfl
    · rcases eq_or_ne k i with rfl | hki
      · simp only [Function.update_self, Function.update_of_ne hj] at hjk
        exact absurd hjk (hfresh j hj)
      · simp only [Function.update_of_ne hj, Function.update_of_ne hki] at hjk
        exact h.distinct hjk
  · refine (hknown n fun j hj heq => hn j ?_).1
    simpa [hj] using heq

end Watchers

namespace Dispatch

/-- Observers are only called for attached watchers. -/
def OnlyAttached (loop : Nat) (s : Dispatch I) : Prop :=
  ∀ call ∈ s.calls, call.looper = some loop

variable [DecidableEq I] {loop : Nat} {s : Dispatch I}

/-- The stored events of a watcher have calls to come, later in the batch or
after the call that is under way. -/
def Due (s : Dispatch I) (i : I) : Prop :=
  i ∈ s.activeFds ∧ nextReport (s.revents i) none ≠ none ∨
    ∃ report, s.current = some (i, report) ∧
      nextReport (s.revents i) (some report) ≠ none

/-- No watcher is detached while it has calls to come, and none of the batch is
destroyed before the loop has come to it. -/
def KeepsBatch (s : Dispatch I) : DispatchStep I → Prop
  | .call i .detachInLoop => ¬ s.Due i
  | .destroy i => i ∉ s.activeFds
  | _ => True

/-- A batch has every watcher once.  One that is detached while it has calls to
come has an observer and keeps it, and is not attached again. -/
def Unrelieved (s : Dispatch I) : DispatchStep I → Prop
  | .poll ready => (ready.map Prod.fst).Nodup
  | .call i .detachInLoop => s.Due i → s.observed i = true
  | .call i .attachInLoop => s.Due i → (s.watchers.io i).looper ≠ none
  | .setObserver i isSet => s.Due i → isSet = true
  | _ => True

/-- The loop is between two batches. -/
def Idle (s : Dispatch I) : Prop := s.current = none ∧ s.activeFds = []

/-- An attached watcher exists. -/
structure Sound (loop : Nat) (s : Dispatch I) : Prop where
  live : s.watchers.Live loop
  exist : ∀ i, (s.watchers.io i).looper ≠ none → s.alive i = true

/-- The loop comes to every watcher of the batch once. -/
structure Distinct (s : Dispatch I) : Prop where
  batch : s.activeFds.Nodup
  current : ∀ i report, s.current = some (i, report) → i ∉ s.activeFds

/-- The watchers of a batch exist, and are attached where they have calls to
come. -/
def Awaits (loop : Nat) (s : Dispatch I) (batch : List I) : Prop :=
  ∀ i ∈ batch, s.alive i = true ∧
    (nextReport (s.revents i) none ≠ none →
      (s.watchers.io i).looper = some loop)

/-- A run that is good so far. -/
structure Safe (loop : Nat) (s : Dispatch I) : Prop extends s.Sound loop where
  attached : s.OnlyAttached loop
  batch : s.Awaits loop s.activeFds
  current : ∀ i report, s.current = some (i, report) →
    nextReport (s.revents i) (some report) ≠ none →
      (s.watchers.io i).looper = some loop

/-- An observer whose watcher was detached. -/
def Detached (s : Dispatch I) (i : I) : Prop :=
  s.observed i = true ∧ (s.watchers.io i).looper = none

/-- The loop will come to a watcher that was destroyed, or call the observer of
one that was detached. -/
def Strays (s : Dispatch I) (batch : List I) : Prop :=
  ∃ i ∈ batch, s.alive i = false ∨
    nextReport (s.revents i) none ≠ none ∧ s.Detached i

def Stray (s : Dispatch I) : Prop :=
  s.Strays s.activeFds ∨ ∃ i report, s.current = some (i, report) ∧
    nextReport (s.revents i) (some report) ≠ none ∧ s.Detached i

omit [DecidableEq I] in
theorem Idle.not_stray (h : s.Idle) : ¬ s.Stray := by
  rintro (⟨i, hmem, _⟩ | ⟨i, report, hcurrent, _⟩)
  · rw [h.2] at hmem
    cases hmem
  · rw [h.1] at hcurrent
    cases hcurrent

omit [DecidableEq I] in
theorem Safe.looper (h : s.Safe loop) {i : I} (hdue : s.Due i) :
    (s.watchers.io i).looper = some loop := by
  obtain ⟨hmem, hnext⟩ | ⟨report, hcurrent, hnext⟩ := hdue
  · exact (h.batch i hmem).2 hnext
  · exact h.current i report hcurrent hnext

omit [DecidableEq I] in
theorem Due.stray {i : I} (hdue : s.Due i) (h : s.Detached i) : s.Stray := by
  obtain ⟨hmem, hnext⟩ | ⟨report, hcurrent, hnext⟩ := hdue
  · exact Or.inl ⟨i, hmem, Or.inr ⟨hnext, h⟩⟩
  · exact Or.inr ⟨i, report, hcurrent, hnext, h⟩

theorem nextReport_clear {revents : I → BitVec 32} {i j : I}
    {last : Option IOReport} (h : nextReport (clear revents i j) last ≠ none) :
    j ≠ i ∧ nextReport (revents j) last ≠ none := by
  rcases eq_or_ne j i with rfl | hj
  · refine absurd ?_ h
    rw [clear, Function.update_self]
    rcases last with _ | last
    · decide
    · cases last <;> decide
  · rw [clear, Function.update_of_ne hj] at h
    exact ⟨hj, h⟩

/-- A close is only reported first. -/
theorem nextReport_ne_close (revents : BitVec 32) (last : IOReport) :
    nextReport revents (some last) ≠ some .close := by
  intro h
  cases last with
  | close | write => cases h
  | error | read => simpa using List.mem_of_find?_eq_some h

/-- What the loop leaves alone on its way to the next call. -/
structure Proceeds (s s' : Dispatch I) : Prop where
  watchers : s'.watchers = s.watchers
  alive : s'.alive = s.alive

theorem advance_proceeds {batch : List I} {s' : Dispatch I}
    (hexec : s.advance batch = some s') : s.Proceeds s' := by
  induction batch generalizing s with
  | nil =>
      obtain rfl := Option.some.inj hexec
      exact ⟨rfl, rfl⟩
  | cons i rest ih =>
      rw [advance] at hexec
      split at hexec
      · cases hexec
      · split at hexec
        · obtain rfl := Option.some.inj hexec
          exact ⟨rfl, rfl⟩
        · obtain ⟨hwatchers, halive⟩ := ih hexec
          exact ⟨hwatchers, halive⟩

theorem advance_distinct {batch : List I} {s' : Dispatch I}
    (hbatch : batch.Nodup) (hexec : s.advance batch = some s') :
    s'.Distinct := by
  induction batch generalizing s with
  | nil =>
      obtain rfl := Option.some.inj hexec
      exact ⟨List.nodup_nil, fun i report hi => by cases hi⟩
  | cons i rest ih =>
      obtain ⟨hi, hrest⟩ := List.nodup_cons.mp hbatch
      rw [advance] at hexec
      split at hexec
      · cases hexec
      · split at hexec
        · obtain rfl := Option.some.inj hexec
          exact ⟨hrest, fun j report hj => by cases hj; exact hi⟩
        · exact ih hrest hexec

/-- A handler returns, and the loop goes on with the same watcher or with the
rest of the batch. -/
theorem resume_cases {s' : Dispatch I} (hexec : s.resume = some s') :
    ∃ i report, s.current = some (i, report) ∧
      ((∃ next ≠ IOReport.close,
          nextReport (s.revents i) (some report) = some next ∧
          s' = s.report i next s.activeFds) ∨
        nextReport (s.revents i) (some report) = none ∧
          { s with revents := s.reventsAfter i report }.advance s.activeFds =
            some s') := by
  obtain ⟨⟨i, report⟩, hi, hexec⟩ := Option.bind_eq_some_iff.mp hexec
  refine ⟨i, report, hi, ?_⟩
  cases hnext : nextReport (s.revents i) (some report) with
  | some next =>
      simp only [hnext, Option.some.injEq] at hexec
      refine Or.inl ⟨next, ?_, rfl, hexec.symm⟩
      rintro rfl
      exact nextReport_ne_close _ _ hnext
  | none =>
      simp only [hnext] at hexec
      exact Or.inr ⟨rfl, hexec⟩

theorem Sound.step (h : s.Sound loop) {step : DispatchStep I}
    {s' : Dispatch I} (hstep : (dispatchMachine I loop).enabled s step)
    (hexec : (dispatchMachine I loop).exec s step = some s') :
    s'.Sound loop := by
  have hsame : ∀ t : Dispatch I, s.Proceeds t → t.Sound loop := by
    rintro t ⟨hwatchers, halive⟩
    refine ⟨?_, ?_⟩
    · rw [hwatchers]
      exact h.live
    · rw [hwatchers, halive]
      exact h.exist
  cases step with
  | poll ready =>
      obtain ⟨hwatchers, halive⟩ := advance_proceeds hexec
      exact hsame s' ⟨hwatchers, halive⟩
  | call i call =>
      obtain ⟨watchers, hcall, hlive, _, hothers⟩ := h.live.call hstep.2
      simp only [dispatchMachine, hcall, Option.map_some,
        Option.some.injEq] at hexec
      subst hexec
      refine ⟨hlive, fun j hj => ?_⟩
      rcases eq_or_ne j i with rfl | hne
      · exact hstep.1
      · exact h.exist j (hothers j hne ▸ hj)
  | setObserver i isSet =>
      obtain rfl := Option.some.inj hexec
      exact hsame _ ⟨rfl, rfl⟩
  | destroy i =>
      obtain rfl := Option.some.inj hexec
      refine ⟨h.live, fun j hj => ?_⟩
      rcases eq_or_ne j i with rfl | hne
      · exact absurd hstep.2.1 hj
      · exact (Function.update_of_ne hne ..).trans (h.exist j hj)
  | construct i fd =>
      obtain ⟨hdead, _, _, hfresh⟩ := hstep
      obtain rfl := Option.some.inj hexec
      have hlooper : (s.watchers.io i).looper = none :=
        by_contra fun hsome => by simp [h.exist i hsome] at hdead
      refine ⟨h.live.construct hlooper hfresh, fun j hj => ?_⟩
      rcases eq_or_ne j i with rfl | hne
      · exact Function.update_self ..
      · simp only [Function.update_of_ne hne] at hj ⊢
        exact h.exist j hj
  | resume =>
      obtain ⟨i, report, _, ⟨next, _, _, rfl⟩ | ⟨_, hadvance⟩⟩ :=
        resume_cases hexec
      · exact hsame _ ⟨rfl, rfl⟩
      · obtain ⟨hwatchers, halive⟩ := advance_proceeds hadvance
        exact hsame s' ⟨hwatchers, halive⟩

theorem Distinct.step (h : s.Distinct) {step : DispatchStep I}
    {s' : Dispatch I} (hstep : s.Unrelieved step)
    (hexec : (dispatchMachine I loop).exec s step = some s') :
    s'.Distinct := by
  cases step with
  | poll ready => exact advance_distinct hstep hexec
  | call i call =>
      obtain ⟨watchers, _, rfl⟩ := Option.map_eq_some_iff.mp hexec
      exact ⟨h.batch, h.current⟩
  | resume =>
      obtain ⟨i, report, hi, ⟨next, _, _, rfl⟩ | ⟨_, hadvance⟩⟩ :=
        resume_cases hexec
      · exact ⟨h.batch, fun j last hj => by cases hj; exact h.current i _ hi⟩
      · exact advance_distinct h.batch hadvance
  | setObserver | destroy | construct =>
      obtain rfl := Option.some.inj hexec
      exact ⟨h.batch, h.current⟩

theorem Awaits.report {batch : List I} (h : s.Awaits loop batch) (i : I)
    (report : IOReport) (rest : List I) :
    (s.report i report rest).Awaits loop batch := by
  refine fun j hj => ⟨(h j hj).1, fun hnext => (h j hj).2 ?_⟩
  simp only [Dispatch.report] at hnext
  split at hnext
  · exact (nextReport_clear hnext).2
  · exact hnext

theorem Awaits.clear {batch : List I} (h : s.Awaits loop batch) (i : I) :
    Awaits loop { s with revents := clear s.revents i } batch :=
  fun j hj => ⟨(h j hj).1, fun hnext => (h j hj).2 (nextReport_clear hnext).2⟩

/-- The call for an attached watcher. -/
theorem Sound.report (h : s.Sound loop) (hattached : s.OnlyAttached loop)
    {i : I} (report : IOReport) {rest : List I}
    (hlooper : (s.watchers.io i).looper = some loop)
    (hrest : s.Awaits loop rest) : (s.report i report rest).Safe loop := by
  refine ⟨⟨h.live, h.exist⟩, fun call hcall => ?_, hrest.report i report rest,
    fun j last hcurrent _ => ?_⟩
  · rcases List.mem_append.mp hcall with hold | hnew
    · exact hattached call hold
    · rw [observe] at hnew
      split at hnew
      · rw [List.mem_singleton.mp hnew]
        exact hlooper
      · cases hnew
  · cases hcurrent
    exact hlooper

/-- The loop goes on to the next call, or to the end of the batch. -/
theorem Sound.advance {batch : List I} (h : s.Sound loop)
    (hattached : s.OnlyAttached loop) (hbatch : s.Awaits loop batch) :
    ∃ s', s.advance batch = some s' ∧ s'.Safe loop := by
  induction batch generalizing s with
  | nil =>
      exact ⟨_, rfl, ⟨h.live, h.exist⟩, hattached, hbatch,
        fun i report hcurrent => by cases hcurrent⟩
  | cons i rest ih =>
      obtain ⟨halive, hlooper⟩ := hbatch i List.mem_cons_self
      have hrest : s.Awaits loop rest :=
        fun j hj => hbatch j (List.mem_cons_of_mem i hj)
      rw [Dispatch.advance, if_neg (by simp [halive])]
      cases hnext : nextReport (s.revents i) none with
      | some report =>
          exact ⟨_, rfl, h.report hattached report (hlooper (by simp [hnext]))
            hrest⟩
      | none => exact ih ⟨h.live, h.exist⟩ hattached (hrest.clear i)

theorem Safe.resume (h : s.Safe loop) (hcurrent : s.current ≠ none) :
    ∃ s', s.resume = some s' ∧ s'.Safe loop := by
  obtain ⟨⟨i, report⟩, hi⟩ := Option.ne_none_iff_exists'.mp hcurrent
  unfold Dispatch.resume
  rw [hi, Option.bind_some]
  dsimp only
  cases hnext : nextReport (s.revents i) (some report) with
  | some next =>
      exact ⟨_, rfl, h.toSound.report h.attached next
        (h.current i report hi (by simp [hnext])) h.batch⟩
  | none =>
      refine Sound.advance (s := { s with
        revents := s.reventsAfter i report
        current := some (i, report) }) ⟨h.live, h.exist⟩ h.attached ?_
      unfold reventsAfter
      split
      · exact h.batch
      · exact h.batch.clear i

/-- Where no watcher of the batch is detached before its calls or destroyed,
each step ends without a fault and all calls are good. -/
theorem Safe.step (h : s.Safe loop) (step : DispatchStep I)
    (hstep : (dispatchMachine I loop).enabled s step)
    (hkeeps : s.KeepsBatch step) :
    ∃ s', (dispatchMachine I loop).exec s step = some s' ∧ s'.Safe loop := by
  cases step with
  | poll ready =>
      refine Sound.advance (s := { s with
        revents := setREvents s.revents ready }) ⟨h.live, h.exist⟩ h.attached
        fun i hi => ?_
      obtain ⟨entry, hentry, rfl⟩ := List.mem_map.mp hi
      have hlooper := h.live.looper (hstep.2.2 entry hentry)
      exact ⟨h.exist _ (by simp [hlooper]), fun _ => hlooper⟩
  | call i call =>
      obtain ⟨watchers, hcall, hlive, hlooper, hothers⟩ := h.live.call hstep.2
      have hexec : (dispatchMachine I loop).exec s (.call i call) =
          some { s with watchers := watchers } := by
        simp only [dispatchMachine, hcall, Option.map_some]
      have hkept : ∀ j, s.Due j → (watchers.io j).looper = some loop := by
        intro j hj
        rcases eq_or_ne j i with rfl | hne
        · rw [hlooper]
          cases call with
          | attachInLoop => rfl
          | detachInLoop => exact absurd hj hkeeps
          | _ => exact h.looper hj
        · rw [hothers j hne]
          exact h.looper hj
      exact ⟨_, hexec, h.toSound.step hstep hexec, h.attached,
        fun j hj => ⟨(h.batch j hj).1, fun hnext =>
          hkept j (Or.inl ⟨hj, hnext⟩)⟩,
        fun j report hcurrent hnext =>
          hkept j (Or.inr ⟨report, hcurrent, hnext⟩)⟩
  | setObserver i isSet =>
      exact ⟨_, rfl, h.toSound.step hstep rfl, h.attached, h.batch, h.current⟩
  | destroy i =>
      refine ⟨_, rfl, h.toSound.step hstep rfl, h.attached, fun j hj => ?_,
        h.current⟩
      have hne : j ≠ i := by
        rintro rfl
        exact hkeeps hj
      exact ⟨(Function.update_of_ne hne ..).trans (h.batch j hj).1,
        (h.batch j hj).2⟩
  | construct i fd =>
      refine ⟨_, rfl, h.toSound.step hstep rfl, h.attached, fun j hj => ?_,
        fun j report hcurrent hnext => ?_⟩
      · have hne : j ≠ i := by
          rintro rfl
          exact hstep.2.1 hj
        simp only [Function.update_of_ne hne, Dispatch.clear]
        exact h.batch j hj
      · obtain ⟨hne, hnext⟩ := nextReport_clear hnext
        simp only [Function.update_of_ne hne]
        exact h.current j report hcurrent hnext
  | resume => exact h.resume hstep

/-- The loop does not get past a watcher that it should not come to. -/
theorem Strays.advance {batch : List I} {s' : Dispatch I}
    (h : s.Strays batch) (hexec : s.advance batch = some s')
    (hgood : s'.OnlyAttached loop) : s'.Stray := by
  induction batch generalizing s with
  | nil => exact absurd h (by simp [Strays])
  | cons j rest ih =>
      obtain ⟨i, hi, hstray⟩ := h
      rw [Dispatch.advance] at hexec
      split at hexec
      · cases hexec
      next halive =>
      rcases eq_or_ne i j with rfl | hne
      · obtain ⟨hnext, hobserved, hlooper⟩ := hstray.resolve_left halive
        obtain ⟨report, hreport⟩ := Option.ne_none_iff_exists'.mp hnext
        simp only [hreport, Option.some.injEq] at hexec
        subst hexec
        have hcall := hgood ⟨i, report, (s.watchers.io i).looper⟩
          (List.mem_append_right _ (by simp [observe, hobserved]))
        exact absurd (hlooper.symm.trans hcall) (by simp)
      · have hmem := (List.mem_cons.mp hi).resolve_left hne
        have hkept : nextReport (clear s.revents j i) none =
            nextReport (s.revents i) none := by
          rw [clear, Function.update_of_ne hne]
        cases hnext : nextReport (s.revents j) none with
        | some report =>
            simp only [hnext, Option.some.injEq] at hexec
            subst hexec
            refine Or.inl ⟨i, hmem, hstray.imp_right fun hdue => ⟨?_, hdue.2⟩⟩
            simp only [Dispatch.report]
            split
            · rw [hkept]
              exact hdue.1
            · exact hdue.1
        | none =>
            simp only [hnext] at hexec
            refine ih (s := { s with revents := clear s.revents j })
              ⟨i, hmem, hstray.imp_right fun hdue => ⟨?_, hdue.2⟩⟩ hexec
            rw [hkept]
            exact hdue.1

theorem Stray.resume {s' : Dispatch I} (h : s.Stray) (hdistinct : s.Distinct)
    (hexec : s.resume = some s') (hgood : s'.OnlyAttached loop) :
    s'.Stray := by
  obtain ⟨j, last, hj, hcases⟩ := resume_cases hexec
  obtain ⟨i, hmem, hstray⟩ | ⟨i, report, hi, hnext, hobserved, hlooper⟩ := h
  · have hne : i ≠ j := by
      rintro rfl
      exact hdistinct.current i last hj hmem
    obtain ⟨next, hclose, _, rfl⟩ | ⟨_, hadvance⟩ := hcases
    · refine Or.inl ⟨i, hmem, hstray.imp_right fun hdue => ⟨?_, hdue.2⟩⟩
      simp only [Dispatch.report, if_neg hclose]
      exact hdue.1
    · have hkept : s.reventsAfter j last i = s.revents i := by
        unfold reventsAfter
        split
        · rfl
        · rw [clear, Function.update_of_ne hne]
      refine Strays.advance (s := { s with revents := s.reventsAfter j last })
        ⟨i, hmem, hstray.imp_right fun hdue => ⟨?_, hdue.2⟩⟩ hadvance hgood
      simp only [hkept]
      exact hdue.1
  · obtain ⟨rfl, rfl⟩ : i = j ∧ report = last := by
      simpa using hi.symm.trans hj
    obtain ⟨next, _, _, rfl⟩ | ⟨hnone, _⟩ := hcases
    · have hcall := hgood ⟨i, next, (s.watchers.io i).looper⟩
        (List.mem_append_right _ (by simp [observe, hobserved]))
      exact absurd (hlooper.symm.trans hcall) (by simp)
    · exact absurd hnone hnext

/-- What a handler does to a watcher that the loop should not come to does not
make it good again. -/
theorem Stray.step {s' : Dispatch I} (h : s.Stray) (hsound : s.Sound loop)
    (hdistinct : s.Distinct) (step : DispatchStep I)
    (hstep : (dispatchMachine I loop).enabled s step)
    (hunrelieved : s.Unrelieved step)
    (hexec : (dispatchMachine I loop).exec s step = some s')
    (hgood : s'.OnlyAttached loop) : s'.Stray := by
  cases step with
  | poll ready => exact absurd h (Idle.not_stray ⟨hstep.1, hstep.2.1⟩)
  | call j call =>
      obtain ⟨watchers, hcall, _, hlooper, hothers⟩ :=
        hsound.live.call hstep.2
      simp only [dispatchMachine, hcall, Option.map_some,
        Option.some.injEq] at hexec
      subst hexec
      have hkept : ∀ i, s.Due i → s.Detached i →
          (watchers.io i).looper = none := by
        intro i hdue hdetached
        rcases eq_or_ne i j with rfl | hne
        · rw [hlooper]
          cases call with
          | attachInLoop => exact absurd hdetached.2 (hunrelieved hdue)
          | detachInLoop => rfl
          | _ => exact absurd (hdetached.2.symm.trans hstep.2) (by simp)
        · rw [hothers i hne]
          exact hdetached.2
      obtain ⟨i, hmem, hdead | ⟨hnext, hdetached⟩⟩ |
        ⟨i, report, hi, hnext, hdetached⟩ := h
      · exact Or.inl ⟨i, hmem, Or.inl hdead⟩
      · exact Or.inl ⟨i, hmem, Or.inr ⟨hnext, hdetached.1,
          hkept i (Or.inl ⟨hmem, hnext⟩) hdetached⟩⟩
      · exact Or.inr ⟨i, report, hi, hnext, hdetached.1,
          hkept i (Or.inr ⟨report, hi, hnext⟩) hdetached⟩
  | setObserver j isSet =>
      obtain rfl := Option.some.inj hexec
      have hkept : ∀ i, s.Due i → s.observed i = true →
          Function.update s.observed j isSet i = true := by
        intro i hdue hobserved
        rcases eq_or_ne i j with rfl | hne
        · rw [Function.update_self]
          exact hunrelieved hdue
        · rwa [Function.update_of_ne hne]
      obtain ⟨i, hmem, hdead | ⟨hnext, hdetached⟩⟩ |
        ⟨i, report, hi, hnext, hdetached⟩ := h
      · exact Or.inl ⟨i, hmem, Or.inl hdead⟩
      · exact Or.inl ⟨i, hmem, Or.inr ⟨hnext,
          hkept i (Or.inl ⟨hmem, hnext⟩) hdetached.1, hdetached.2⟩⟩
      · exact Or.inr ⟨i, report, hi, hnext,
          hkept i (Or.inr ⟨report, hi, hnext⟩) hdetached.1, hdetached.2⟩
  | destroy j =>
      obtain rfl := Option.some.inj hexec
      obtain ⟨i, hmem, hstray⟩ | ⟨i, report, hi, hnext, hdetached⟩ := h
      · refine Or.inl ⟨i, hmem, hstray.imp_left fun hdead => ?_⟩
        rcases eq_or_ne i j with rfl | hne
        · exact Function.update_self ..
        · exact (Function.update_of_ne hne ..).trans hdead
      · exact Or.inr ⟨i, report, hi, hnext, hdetached⟩
  | construct j fd =>
      obtain ⟨_, hbatch, hhandling, _⟩ := hstep
      obtain rfl := Option.some.inj hexec
      obtain ⟨i, hmem, hstray⟩ | ⟨i, report, hi, hnext, hdetached⟩ := h
      · have hne : i ≠ j := by
          rintro rfl
          exact hbatch hmem
        refine Or.inl ⟨i, hmem, ?_⟩
        simpa only [Detached, Function.update_of_ne hne, clear] using hstray
      · have hne : i ≠ j := by
          rintro rfl
          refine hhandling ⟨report, ?_, hi⟩
          rintro rfl
          exact hnext rfl
        refine Or.inr ⟨i, report, hi, ?_⟩
        simpa only [Detached, Function.update_of_ne hne, clear] using
          And.intro hnext hdetached
  | resume => exact h.resume hdistinct hexec hgood

/-- A step that does not keep the batch leaves the loop on its way to a watcher
that it should not come to. -/
theorem Safe.breaks {s' : Dispatch I} (h : s.Safe loop)
    (step : DispatchStep I)
    (hstep : (dispatchMachine I loop).enabled s step)
    (hunrelieved : s.Unrelieved step) (hnot : ¬ s.KeepsBatch step)
    (hexec : (dispatchMachine I loop).exec s step = some s') :
    s'.Stray := by
  cases step with
  | call i call =>
      cases call with
      | detachInLoop =>
          have hdue : s.Due i := not_not.mp hnot
          obtain ⟨watchers, hcall, _, hlooper, _⟩ := h.live.call hstep.2
          simp only [dispatchMachine, hcall, Option.map_some,
            Option.some.injEq] at hexec
          subst hexec
          exact Due.stray hdue ⟨hunrelieved hdue, hlooper⟩
      | _ => exact absurd trivial hnot
  | destroy i =>
      obtain rfl := Option.some.inj hexec
      exact Or.inl ⟨i, not_not.mp hnot, Or.inl (Function.update_self ..)⟩
  | _ => exact absurd trivial hnot

omit [DecidableEq I] in
theorem start_safe {number : I → Int} (hnumber : Function.Injective number) :
    (start number).Safe loop where
  live := ⟨Watchers.start_wired loop number, hnumber, fun _ _ => rfl⟩
  exist _ _ := rfl
  attached _ hcall := by cases hcall
  batch _ hi := by cases hi
  current _ _ hcurrent := by cases hcurrent

end Dispatch

/-- Dispatch.  Over every run of the loop, with any batches, any events and any
behaviour of the handlers, the loop comes to no destroyed watcher and observers
are only called for attached ones, as long as no watcher is detached while it
has calls to come and none of the batch is destroyed; and a run that ends
between two batches, and in which such a watcher keeps its observer and is not
attached again, has this only then. -/
theorem dispatch_attached_iff {I : Type u} [DecidableEq I] (loop : Nat)
    {number : I → Int} (hnumber : Function.Injective number)
    (word : List (DispatchStep I))
    (hlegal : (dispatchMachine I loop).Legal (.start number) word) :
    ((dispatchMachine I loop).Meets Dispatch.KeepsBatch (.start number) word →
      (dispatchMachine I loop).Holds (Dispatch.OnlyAttached loop)
        (.start number) word) ∧
    ((dispatchMachine I loop).Meets Dispatch.Unrelieved (.start number) word →
      (∀ t, (dispatchMachine I loop).run (.start number) word = some t →
        t.Idle) →
      ((dispatchMachine I loop).Holds (Dispatch.OnlyAttached loop)
          (.start number) word ↔
        (dispatchMachine I loop).Meets Dispatch.KeepsBatch (.start number)
          word)) := by
  have henough :
      (dispatchMachine I loop).Meets Dispatch.KeepsBatch (.start number) word →
        (dispatchMachine I loop).Holds (Dispatch.OnlyAttached loop)
          (.start number) word := by
    intro hkeeps
    have hrun : (dispatchMachine I loop).Holds (Dispatch.Safe loop)
        (.start number) word := by
      apply Machine.holds_of_step _ (Dispatch.start_safe hnumber)
        (hlegal.and hkeeps)
      intro s step hs hstep
      exact hs.step step hstep.1 hstep.2
    exact hrun.mono fun s hs => hs.attached
  refine ⟨henough, fun hunrelieved hidle => ⟨?_, henough⟩⟩
  apply Machine.meets_of_doomed
    (E := fun s step => (dispatchMachine I loop).enabled s step ∧
      s.Unrelieved step)
    (I := fun s => Dispatch.Safe loop s ∧ s.Distinct)
    (B := fun s => Dispatch.Sound loop s ∧ s.Distinct ∧
      (s.OnlyAttached loop → s.Stray))
  · intro s step hs hstep hkeeps
    obtain ⟨s', hexec, hs'⟩ := hs.1.step step hstep.1 hkeeps
    exact ⟨s', hexec, hs', hs.2.step hstep.2 hexec⟩
  · intro s step s' hs hstep hnot hexec _
    exact ⟨hs.1.toSound.step hstep.1 hexec, hs.2.step hstep.2 hexec,
      fun _ => hs.1.breaks step hstep.1 hstep.2 hnot hexec⟩
  · intro s step s' hs hgood hstep hexec
    obtain ⟨hsound, hdistinct, hstray⟩ := hs
    exact ⟨hsound.step hstep.1 hexec, hdistinct.step hstep.2 hexec,
      (hstray hgood).step hsound hdistinct step hstep.1 hstep.2 hexec⟩
  · exact ⟨Dispatch.start_safe hnumber, List.nodup_nil, fun i report hi => by
      cases hi⟩
  · exact hlegal.and hunrelieved
  · exact fun t ht hgood hdoomed =>
      (hidle t ht).not_stray (hdoomed.2.2 hgood)

variable [DecidableEq I]

instance (s : Dispatch I) (i : I) : Decidable (s.Handling i) :=
  match hcurrent : s.current with
  | none => isFalse (by simp [Dispatch.Handling, hcurrent])
  | some (j, report) => decidable_of_iff (report ≠ .close ∧ j = i)
      (by simp [Dispatch.Handling, hcurrent])

instance (s : Dispatch I) (i : I) : Decidable (s.Due i) :=
  have : Decidable (∃ report, s.current = some (i, report) ∧
      nextReport (s.revents i) (some report) ≠ none) :=
    match hcurrent : s.current with
    | none => isFalse (by simp)
    | some (j, report) =>
        decidable_of_iff (j = i ∧ nextReport (s.revents i) (some report) ≠ none)
          (by aesop)
  inferInstanceAs (Decidable
    (i ∈ s.activeFds ∧ nextReport (s.revents i) none ≠ none ∨ _))

instance (s : Dispatch I) (step : DispatchStep I) :
    Decidable (s.KeepsBatch step) :=
  match step with
  | .call i call =>
      match call with
      | .detachInLoop => inferInstanceAs (Decidable (¬ s.Due i))
      | .attachInLoop | .enableReadInLoop | .enableWriteInLoop
      | .disableReadInLoop | .disableWriteInLoop | .disableAllInLoop =>
          isTrue trivial
  | .destroy i => inferInstanceAs (Decidable (i ∉ s.activeFds))
  | .poll _ | .setObserver _ _ | .construct _ _ | .resume => isTrue trivial

instance [Fintype I] (loop : Nat) (s : Dispatch I) (step : DispatchStep I) :
    Decidable ((dispatchMachine I loop).enabled s step) :=
  match step with
  | .poll ready =>
      -- the list is finite, and so is the type, which is too large
      have : Decidable (∀ entry ∈ ready, (s.watchers.poller.interest
          (s.watchers.io entry.1).fd).map EpollEvent.data = some entry.1) :=
        List.decidableBAll _ ready
      inferInstanceAs (Decidable (s.current = none ∧ s.activeFds = [] ∧
        ∀ entry ∈ ready, (s.watchers.poller.interest
          (s.watchers.io entry.1).fd).map EpollEvent.data = some entry.1))
  | .call i call => inferInstanceAs
      (Decidable (s.alive i = true ∧
        (watcherMachine I loop).enabled s.watchers (i, call)))
  | .setObserver i _ => inferInstanceAs (Decidable (s.alive i = true))
  | .destroy i => inferInstanceAs
      (Decidable (s.alive i = true ∧ (s.watchers.io i).looper = none ∧
        ¬s.Handling i))
  | .construct i fd => inferInstanceAs
      (Decidable (s.alive i = false ∧ i ∉ s.activeFds ∧ ¬s.Handling i ∧
        ∀ j, j ≠ i → (s.watchers.io j).fd ≠ fd))
  | .resume => inferInstanceAs (Decidable (s.current ≠ none))

/-- Two sockets that are watched for input. -/
def watchTwo : List (DispatchStep Bool) :=
  [.setObserver true true, .setObserver false true,
    .call true .attachInLoop, .call true .enableReadInLoop,
    .call false .attachInLoop, .call false .enableReadInLoop]

/-- The first socket finds its end of stream and detaches itself; the other
one is read.  Then the first is destroyed, and another one takes its place. -/
theorem dispatch_attached_iff_self :
    (dispatchMachine Bool 0).Holds (Dispatch.OnlyAttached 0)
      (.start fun i => if i then 7 else 8)
      (watchTwo ++ [.poll [(true, POLLIN), (false, POLLIN)],
        .call true .detachInLoop, .resume, .destroy true, .resume,
        .construct true 9, .call true .attachInLoop]) :=
  (dispatch_attached_iff 0 (fun i j => by cases i <;> cases j <;> decide) _
    (by decide +kernel)).1 (by decide +kernel)

/-- The handler of the first socket detaches the other one, which is in the
same batch, and may destroy it too. -/
def detachOther : List (DispatchStep Bool) :=
  watchTwo ++ [.poll [(true, POLLIN), (false, POLLIN)],
    .call false .detachInLoop, .resume]

theorem dispatch_not_attached :
    (dispatchMachine Bool 0).Legal (.start fun i => if i then 7 else 8)
        detachOther ∧
      ¬(dispatchMachine Bool 0).Holds (Dispatch.OnlyAttached 0)
        (.start fun i => if i then 7 else 8) detachOther := by
  have hlast : ((dispatchMachine Bool 0).run
      (.start fun i => if i then 7 else 8) detachOther).map Dispatch.calls =
        some [⟨true, .read, some 0⟩, ⟨false, .read, none⟩] := by
    decide +kernel
  refine ⟨by decide +kernel, Machine.not_holds_of_view hlast ?_⟩
  intro t hcalls hattached
  have hstray := hattached ⟨false, .read, none⟩ (by simp [hcalls])
  cases hstray

/-- Where the handler destroys the other socket as well, the loop comes to a
dangling pointer. -/
example :
    let word := watchTwo ++ [.poll [(true, POLLIN), (false, POLLIN)],
      .call false .detachInLoop, .destroy false, .resume]
    (dispatchMachine Bool 0).Legal (.start fun i => if i then 7 else 8) word ∧
      ((dispatchMachine Bool 0).run (.start fun i => if i then 7 else 8)
        word).isNone := by
  decide +kernel

end Libsaf
