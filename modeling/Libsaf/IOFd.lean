/-
The methods of `saf::IOFd` that change what a loop watches, and the
registration invariant they keep together with `EPollPoller`: over any
sequence of calls the kernel set holds exactly the attached descriptors with
events.
-/
import Libsaf.Machine
import Libsaf.EPollPoller

namespace Libsaf

universe u

variable {I : Type u} [DecidableEq I]

namespace IOFd

/-- `_looper->updateFd(this)` on the thread of `loop`: a null `_looper` is
dereferenced, and another loop aborts in `assertInLoopThread`. -/
def update (loop : Nat) (addr : I) (f : IOFd) (p : EPollPoller I) :
    Option (IOFd × EPollPoller I) :=
  if f.looper = some loop then p.updateFd addr f else none

/-- Add the bits of `mask` to the events, unless one of them is there. -/
def enable (mask : BitVec 32) (loop : Nat) (addr : I) (f : IOFd)
    (p : EPollPoller I) : Option (IOFd × EPollPoller I) :=
  if f.events &&& mask = 0#32 then
    update loop addr { f with events := f.events ||| mask } p
  else some (f, p)

/-- Take the bits of `mask` out of the events, if one of them is there. -/
def disable (mask : BitVec 32) (loop : Nat) (addr : I) (f : IOFd)
    (p : EPollPoller I) : Option (IOFd × EPollPoller I) :=
  if f.events &&& mask ≠ 0#32 then
    update loop addr { f with events := f.events &&& ~~~mask } p
  else some (f, p)

def enableReadInLoop (loop : Nat) (addr : I) (f : IOFd) (p : EPollPoller I) :=
  enable kReadEvent loop addr f p

def enableWriteInLoop (loop : Nat) (addr : I) (f : IOFd) (p : EPollPoller I) :=
  enable kWriteEvent loop addr f p

def disableReadInLoop (loop : Nat) (addr : I) (f : IOFd) (p : EPollPoller I) :=
  disable kReadEvent loop addr f p

def disableWriteInLoop (loop : Nat) (addr : I) (f : IOFd)
    (p : EPollPoller I) :=
  disable kWriteEvent loop addr f p

def disableAllInLoop (loop : Nat) (addr : I) (f : IOFd) (p : EPollPoller I) :
    Option (IOFd × EPollPoller I) :=
  if f.events ≠ 0#32 then update loop addr { f with events := 0#32 } p
  else some (f, p)

/-- The result tells whether there was a loop to detach from. -/
def detachInLoop (loop : Nat) (addr : I) (f : IOFd) (p : EPollPoller I) :
    Option (Bool × IOFd × EPollPoller I) :=
  match f.looper with
  | none => some (false, f, p)
  | some _ => do
      if f.looper ≠ some loop then none
      let (f, p) ← disableAllInLoop loop addr f p
      let (f, p) ← p.removeFd addr f
      return (true, { f with looper := none }, p)

/-- Attaching an object of another loop would detach it there, which aborts
because this is not the thread of that loop. -/
def attachInLoop (loop : Nat) (addr : I) (f : IOFd) (p : EPollPoller I) :
    Option (IOFd × EPollPoller I) := do
  if f.looper = some loop then
    return (f, p)
  let (_, f, p) ← detachInLoop loop addr f p
  let f := { f with looper := some loop }
  if f.events ≠ 0#32 then update loop addr f p else return (f, p)

omit [DecidableEq I] in
theorem enabled_and_ne_zero (events : BitVec 32) {mask : BitVec 32}
    (hmask : mask ≠ 0#32) :
    (if events &&& mask = 0#32 then events ||| mask else events) &&& mask ≠
      0#32 := by
  split
  · next hbits =>
      rw [BitVec.and_or_distrib_right, hbits, BitVec.and_self, BitVec.zero_or]
      exact hmask
  · next hbits => exact hbits

omit [DecidableEq I] in
theorem enabled_and_of_disjoint (events : BitVec 32) {mask other : BitVec 32}
    (hmask : mask &&& other = 0#32) :
    (if events &&& mask = 0#32 then events ||| mask else events) &&& other =
      events &&& other := by
  split
  · rw [BitVec.and_or_distrib_right, hmask, BitVec.or_zero]
  · rfl

omit [DecidableEq I] in
theorem disabled_and_eq_zero (events : BitVec 32) {mask : BitVec 32} :
    (if events &&& mask ≠ 0#32 then events &&& ~~~mask else events) &&& mask =
      0#32 := by
  split
  · rw [BitVec.and_assoc, BitVec.and_comm (~~~mask), BitVec.and_not_self]
    exact BitVec.and_zero
  · next hbits => exact not_not.mp hbits

end IOFd

namespace EPollPoller

/-- A call on the watcher `f` ends without a fault, with these events, wired,
and with no other descriptor concerned. -/
def Rewires (p : EPollPoller I) (loop : Nat) (addr : I) (f : IOFd)
    (result : Option (IOFd × EPollPoller I)) (events : BitVec 32) : Prop :=
  ∃ status p', result =
      some ({ f with events := events, status := status }, p') ∧
    p'.Wired loop addr { f with events := events, status := status } ∧
    p.Touches p' f.fd

variable {p : EPollPoller I} {loop : Nat} {addr : I} {f : IOFd}

omit [DecidableEq I] in
theorem Wired.rewires_self (h : p.Wired loop addr f) :
    p.Rewires loop addr f (some (f, p)) f.events :=
  ⟨f.status, p, rfl, h, Touches.refl p f.fd⟩

theorem Wired.update (h : p.Wired loop addr f) (hlooper : f.looper = some loop)
    {events : BitVec 32} (hevents : events ≠ 0#32 ∨ f.events ≠ 0#32) :
    p.Rewires loop addr f
      (IOFd.update loop addr { f with events := events } p) events := by
  rw [IOFd.update, if_pos hlooper]
  exact updateFd_spec h hlooper hevents

theorem Wired.enable (h : p.Wired loop addr f) (hlooper : f.looper = some loop)
    {mask : BitVec 32} (hmask : mask ≠ 0#32) :
    p.Rewires loop addr f (IOFd.enable mask loop addr f p)
      (if f.events &&& mask = 0#32 then f.events ||| mask else f.events) := by
  unfold IOFd.enable
  split
  · refine h.update hlooper (Or.inl fun hzero => hmask ?_)
    exact (BitVec.or_eq_zero_iff.mp hzero).2
  · exact h.rewires_self

theorem Wired.disable (h : p.Wired loop addr f)
    (hlooper : f.looper = some loop) (mask : BitVec 32) :
    p.Rewires loop addr f (IOFd.disable mask loop addr f p)
      (if f.events &&& mask ≠ 0#32 then f.events &&& ~~~mask
        else f.events) := by
  unfold IOFd.disable
  split
  · next hbits =>
      refine h.update hlooper (Or.inr fun hzero => hbits ?_)
      rw [hzero, BitVec.zero_and]
  · exact h.rewires_self

theorem Wired.disableAll (h : p.Wired loop addr f)
    (hlooper : f.looper = some loop) :
    p.Rewires loop addr f (IOFd.disableAllInLoop loop addr f p) 0#32 := by
  unfold IOFd.disableAllInLoop
  split
  · next hbits => exact h.update hlooper (Or.inr hbits)
  · next hzero => exact not_not.mp hzero ▸ h.rewires_self

/-- A detached watcher has left the table and the kernel set. -/
theorem Wired.detach (h : p.Wired loop addr f)
    (hlooper : f.looper = some loop) :
    ∃ p', f.detachInLoop loop addr p =
        some (true, ⟨f.fd, 0#32, .NEW, none⟩, p') ∧
      p'.Wired loop addr ⟨f.fd, 0#32, .NEW, none⟩ ∧ p.Touches p' f.fd := by
  obtain ⟨fd, events, status, looper⟩ := f
  obtain rfl : looper = some loop := hlooper
  obtain ⟨status', p₁, hdisable, h₁, ht₁⟩ := h.disableAll rfl
  obtain ⟨p₂, hremove, h₂, ht₂⟩ := removeFd_spec h₁ rfl
  refine ⟨p₂, ?_, ?_, ht₁.trans ht₂⟩
  · simp only [IOFd.detachInLoop, ne_eq, not_true_eq_false, if_false,
      hdisable, hremove, Option.bind_eq_bind, Option.bind_some,
      Option.pure_def]
  · exact ⟨h₂.table, h₂.interest, h₂.events, fun hnew => absurd rfl hnew,
      Or.inl rfl⟩

omit [DecidableEq I] in
/-- A watcher without a loop has no events. -/
theorem Wired.new_of_detached (h : p.Wired loop addr f)
    (hlooper : f.looper = none) : f.status = .NEW ∧ f.events = 0#32 := by
  have hnew : f.status = .NEW := by
    by_contra hstatus
    rw [h.attached hstatus] at hlooper
    cases hlooper
  refine ⟨hnew, ?_⟩
  by_contra hevents
  rw [h.events.mp hevents] at hnew
  cases hnew

/-- Attaching changes neither the table nor the kernel set. -/
theorem Wired.attach (h : p.Wired loop addr f) :
    f.attachInLoop loop addr p = some ({ f with looper := some loop }, p) ∧
      p.Wired loop addr { f with looper := some loop } := by
  rcases h.own with hnone | hsome
  · obtain ⟨-, hevents⟩ := h.new_of_detached hnone
    refine ⟨?_, h.table, h.interest, h.events, fun _ => rfl, Or.inr rfl⟩
    simp [IOFd.attachInLoop, IOFd.detachInLoop, hnone, hevents]
  · obtain ⟨fd, events, status, looper⟩ := f
    obtain rfl : looper = some loop := hsome
    exact ⟨by simp [IOFd.attachInLoop], h⟩

end EPollPoller

/-- The calls of the source, on the thread of the loop. -/
inductive IOFdCall where
  | attachInLoop
  | detachInLoop
  | enableReadInLoop
  | enableWriteInLoop
  | disableReadInLoop
  | disableWriteInLoop
  | disableAllInLoop
deriving Repr, DecidableEq

def IOFdCall.exec (loop : Nat) (addr : I) (f : IOFd) (p : EPollPoller I) :
    IOFdCall → Option (IOFd × EPollPoller I)
  | .attachInLoop => f.attachInLoop loop addr p
  | .detachInLoop => (f.detachInLoop loop addr p).map Prod.snd
  | .enableReadInLoop => f.enableReadInLoop loop addr p
  | .enableWriteInLoop => f.enableWriteInLoop loop addr p
  | .disableReadInLoop => f.disableReadInLoop loop addr p
  | .disableWriteInLoop => f.disableWriteInLoop loop addr p
  | .disableAllInLoop => f.disableAllInLoop loop addr p

/-- The loop of a watcher after a call. -/
def IOFdCall.looper (loop : Nat) (f : IOFd) : IOFdCall → Option Nat
  | .attachInLoop => some loop
  | .detachInLoop => none
  | .enableReadInLoop | .enableWriteInLoop | .disableReadInLoop
  | .disableWriteInLoop | .disableAllInLoop => f.looper

/-- All watchers of a loop and its poller. -/
structure Watchers (I : Type u) where
  io : I → IOFd
  poller : EPollPoller I

def Watchers.start (number : I → Int) : Watchers I :=
  ⟨fun i => IOFd.ofFd (number i), .empty⟩

/-- Attaching and detaching is always allowed; the other methods need an
attached object. -/
def watcherMachine (I : Type u) [DecidableEq I] (loop : Nat) :
    Machine (Watchers I) (I × IOFdCall) where
  enabled s
    | (_, .attachInLoop) | (_, .detachInLoop) => True
    | (i, _) => (s.io i).looper = some loop
  exec s step := (step.2.exec loop step.1 (s.io step.1) s.poller).map fun r =>
    ⟨Function.update s.io step.1 r.1, r.2⟩

instance (loop : Nat) (s : Watchers I) (step : I × IOFdCall) :
    Decidable ((watcherMachine I loop).enabled s step) := by
  obtain ⟨i, call⟩ := step
  cases call <;> unfold watcherMachine <;> dsimp only <;> infer_instance

/-- Every watcher is wired under its own descriptor, and the poller knows no
other descriptor. -/
structure Watchers.Wired (s : Watchers I) (loop : Nat) (number : I → Int) :
    Prop where
  each : ∀ i, s.poller.Wired loop i (s.io i)
  numbered : ∀ i, (s.io i).fd = number i
  interest : ∀ n event, s.poller.interest n = some event → ∃ i, number i = n
  rejected : s.poller.rejected = 0

/-- A call keeps one watcher wired, so it keeps them all. -/
theorem Watchers.Wired.update {s : Watchers I} {loop : Nat} {number : I → Int}
    (hnumber : Function.Injective number) (h : s.Wired loop number) {i : I}
    {f' : IOFd} {p' : EPollPoller I} (hfd : f'.fd = (s.io i).fd)
    (hwired : p'.Wired loop i f') (ht : s.poller.Touches p' (s.io i).fd) :
    Watchers.Wired ⟨Function.update s.io i f', p'⟩ loop number := by
  constructor
  · intro j
    by_cases hj : j = i
    · subst hj
      simpa using hwired
    · have hne : (s.io j).fd ≠ (s.io i).fd := by
        rw [h.numbered, h.numbered]
        exact fun heq => hj (hnumber heq)
      simpa [hj] using (h.each j).of_touches ht hne
  · intro j
    by_cases hj : j = i
    · subst hj
      simp [hfd, h.numbered]
    · simp [hj, h.numbered]
  · intro n event hevent
    by_cases hn : n = (s.io i).fd
    · exact ⟨i, by rw [hn, h.numbered]⟩
    · rw [ht.interest n hn] at hevent
      exact h.interest n event hevent
  · rw [ht.rejected, h.rejected]

theorem IOFdCall.exec_spec {p : EPollPoller I} {loop : Nat} {addr : I}
    {f : IOFd} (h : p.Wired loop addr f) (call : IOFdCall)
    (hcall : call = .attachInLoop ∨ call = .detachInLoop ∨
      f.looper = some loop) :
    ∃ f' p', call.exec loop addr f p = some (f', p') ∧
      p'.Wired loop addr f' ∧ p.Touches p' f.fd ∧ f'.fd = f.fd ∧
      f'.looper = call.looper loop f := by
  have ofRewires : ∀ {result events},
      p.Rewires loop addr f result events →
      ∃ f' p', result = some (f', p') ∧ p'.Wired loop addr f' ∧
        p.Touches p' f.fd ∧ f'.fd = f.fd ∧ f'.looper = f.looper := by
    rintro result events ⟨status, p', hresult, hwired, ht⟩
    exact ⟨_, p', hresult, hwired, ht, rfl, rfl⟩
  cases call with
  | attachInLoop =>
      obtain ⟨hattach, hwired⟩ := h.attach
      exact ⟨_, p, hattach, hwired, EPollPoller.Touches.refl p f.fd, rfl, rfl⟩
  | detachInLoop =>
      rcases h.own with hnone | hsome
      · exact ⟨f, p, by simp [IOFdCall.exec, IOFd.detachInLoop, hnone], h,
          EPollPoller.Touches.refl p f.fd, rfl, hnone⟩
      · obtain ⟨p', hdetach, hwired, ht⟩ := h.detach hsome
        exact ⟨_, p', by simp [IOFdCall.exec, hdetach], hwired, ht, rfl, rfl⟩
  | enableReadInLoop =>
      exact ofRewires (h.enable (by simpa using hcall) (by decide))
  | enableWriteInLoop =>
      exact ofRewires (h.enable (by simpa using hcall) (by decide))
  | disableReadInLoop => exact ofRewires (h.disable (by simpa using hcall) _)
  | disableWriteInLoop => exact ofRewires (h.disable (by simpa using hcall) _)
  | disableAllInLoop => exact ofRewires (h.disableAll (by simpa using hcall))

theorem watcherMachine_step {loop : Nat} {number : I → Int}
    (hnumber : Function.Injective number) (s : Watchers I)
    (step : I × IOFdCall) (hs : s.Wired loop number)
    (hstep : (watcherMachine I loop).enabled s step) :
    ∃ s', (watcherMachine I loop).exec s step = some s' ∧
      s'.Wired loop number := by
  obtain ⟨i, call⟩ := step
  have hcall : call = .attachInLoop ∨ call = .detachInLoop ∨
      (s.io i).looper = some loop := by
    cases call <;> simp_all [watcherMachine]
  obtain ⟨f', p', hexec, hwired, ht, hfd, _⟩ :=
    IOFdCall.exec_spec (hs.each i) call hcall
  refine ⟨_, by simp only [watcherMachine, hexec, Option.map_some]; rfl, ?_⟩
  exact hs.update hnumber hfd hwired ht

omit [DecidableEq I] in
theorem Watchers.start_wired (loop : Nat) (number : I → Int) :
    (Watchers.start number).Wired loop number := by
  refine ⟨fun i => ?_, fun i => rfl, ?_, rfl⟩
  · constructor <;> simp [Watchers.start, EPollPoller.empty, IOFd.ofFd]
  · intro n event hevent
    cases hevent

/-- The kernel set, the table and the states of the watchers agree. -/
structure Watchers.Registered (s : Watchers I) (loop : Nat) : Prop where
  interest : ∀ n event, s.poller.interest n = some event ↔
    ∃ i, (s.io i).fd = n ∧ (s.io i).looper = some loop ∧
      (s.io i).events ≠ 0#32 ∧ event = ⟨(s.io i).events, i⟩
  added : ∀ i, (s.io i).status = .ADDED ↔
    (s.io i).looper = some loop ∧ (s.io i).events ≠ 0#32
  deleted : ∀ i, (s.io i).status = .DELETED ↔
    s.poller.fds (s.io i).fd = some i ∧ (s.io i).events = 0#32
  fresh : ∀ i, (s.io i).status = .NEW ↔ s.poller.fds (s.io i).fd ≠ some i
  rejected : s.poller.rejected = 0

omit [DecidableEq I] in
theorem Watchers.Wired.registered {s : Watchers I} {loop : Nat}
    {number : I → Int} (h : s.Wired loop number) : s.Registered loop := by
  have hadded : ∀ i, (s.io i).status = .ADDED ↔
      (s.io i).looper = some loop ∧ (s.io i).events ≠ 0#32 := by
    intro i
    rw [(h.each i).events]
    constructor
    · intro hstatus
      exact ⟨(h.each i).attached (by rw [hstatus]; decide), hstatus⟩
    · exact And.right
  refine ⟨?_, hadded, ?_, ?_, h.rejected⟩
  · intro n event
    constructor
    · intro hevent
      obtain ⟨i, rfl⟩ := h.interest n event hevent
      have hentry := (h.each i).interest
      rw [h.numbered i, hevent] at hentry
      split at hentry
      · next hstatus =>
          obtain ⟨hlooper, hevents⟩ := (hadded i).mp hstatus
          exact ⟨i, h.numbered i, hlooper, hevents, Option.some.inj hentry⟩
      · cases hentry
    · rintro ⟨i, rfl, hlooper, hevents, rfl⟩
      rw [(h.each i).interest, if_pos ((hadded i).mpr ⟨hlooper, hevents⟩)]
  · intro i
    have hevents := (h.each i).events
    rw [(h.each i).table]
    cases hstatus : (s.io i).status <;> simp_all
  · intro i
    rw [(h.each i).table]
    cases hstatus : (s.io i).status <;> simp

/-- Poller registration.  Over any calls on watchers with different
descriptors no assertion fails, no `epoll_ctl` is rejected, and the kernel
set holds exactly the attached watchers with events. -/
theorem watchers_registered (loop : Nat) (number : I → Int)
    (hnumber : Function.Injective number) (word : List (I × IOFdCall))
    (hlegal : (watcherMachine I loop).Legal (.start number) word) :
    (watcherMachine I loop).Holds (fun s => s.Registered loop)
      (.start number) word :=
  (Machine.holds_of_step (watcherMachine_step hnumber)
    (Watchers.start_wired loop number) hlegal).mono
    fun _ hs => hs.registered

/-- Two sockets, one of them through all three states and back. -/
theorem watchers_registered_two :
    (watcherMachine Bool 0).Holds (fun s => s.Registered 0)
      (.start fun i => if i then 7 else 8)
      [(true, .attachInLoop), (false, .attachInLoop),
        (true, .enableReadInLoop), (true, .enableWriteInLoop),
        (false, .enableReadInLoop), (true, .disableWriteInLoop),
        (true, .disableReadInLoop), (true, .enableReadInLoop),
        (true, .detachInLoop), (false, .disableAllInLoop)] :=
  watchers_registered 0 _ (fun i j => by cases i <;> cases j <;> decide) _
    (by decide)

end Libsaf
