/-
`saf::EPollPoller`: the table of watched descriptors and the interest set of
the kernel.  Every `assert` of the source is a test here, and `none` is the
failing assertion.  Watchers are compared by address, which is the type `I`.
-/
import Mathlib.Tactic.Common
import Mathlib.Logic.Function.Basic

namespace Libsaf

universe u

variable {I : Type u}

/-- `IOFd::Status`. -/
inductive IOFdStatus where
  | NEW
  | ADDED
  | DELETED
deriving Repr, DecidableEq

def POLLIN : BitVec 32 := 0x001#32
def POLLPRI : BitVec 32 := 0x002#32
def POLLOUT : BitVec 32 := 0x004#32

/-- The part of an `IOFd` that registration reads and writes.  `looper` is
the loop the object is attached to, `none` for the null pointer. -/
structure IOFd where
  fd : Int
  events : BitVec 32
  status : IOFdStatus
  looper : Option Nat
deriving Repr, DecidableEq

namespace IOFd

def kReadEvent : BitVec 32 := POLLIN ||| POLLPRI
def kWriteEvent : BitVec 32 := POLLOUT

/-- `IOFd(fd)`. -/
def ofFd (fd : Int) : IOFd :=
  { fd := fd, events := 0#32, status := .NEW, looper := none }

def isReading (f : IOFd) : Bool := f.events &&& kReadEvent ≠ 0#32
def isWriting (f : IOFd) : Bool := f.events &&& kWriteEvent ≠ 0#32
def isNoneEvent (f : IOFd) : Bool := f.events = 0#32

end IOFd

inductive EpollCtl where
  | ADD
  | MOD
  | DEL
deriving Repr, DecidableEq

/-- `struct epoll_event`. -/
structure EpollEvent (I : Type u) where
  events : BitVec 32
  data : I
deriving Repr, DecidableEq

/-- The interest set of an epoll descriptor. -/
abbrev InterestSet (I : Type u) := Int → Option (EpollEvent I)

/-- `epoll_ctl`: adding a present descriptor fails with `EEXIST`, changing or
deleting an absent one with `ENOENT`. -/
def epollCtl (interest : InterestSet I) (operation : EpollCtl) (fd : Int)
    (event : EpollEvent I) : Option (InterestSet I) :=
  match operation, interest fd with
  | .ADD, none => some (Function.update interest fd (some event))
  | .MOD, some _ => some (Function.update interest fd (some event))
  | .DEL, some _ => some (Function.update interest fd none)
  | _, _ => none

/-- `fds` is the table of the poller, `interest` the set in the kernel, and
`rejected` counts the calls of `epoll_ctl` that failed, which the source does
not look at. -/
structure EPollPoller (I : Type u) where
  fds : Int → Option I
  interest : InterestSet I
  rejected : Nat

namespace EPollPoller

def empty : EPollPoller I := ⟨fun _ => none, fun _ => none, 0⟩

def controlFd (p : EPollPoller I) (operation : EpollCtl) (addr : I)
    (watcher : IOFd) : EPollPoller I :=
  match epollCtl p.interest operation watcher.fd ⟨watcher.events, addr⟩ with
  | some interest => { p with interest := interest }
  | none => { p with rejected := p.rejected + 1 }

variable [DecidableEq I]

def hasFd (p : EPollPoller I) (addr : I) (watcher : IOFd) : Bool :=
  p.fds watcher.fd = some addr

def updateFd (p : EPollPoller I) (addr : I) (watcher : IOFd) :
    Option (IOFd × EPollPoller I) :=
  match watcher.status with
  | .NEW =>
      if p.fds watcher.fd = none then
        let watcher := { watcher with status := .ADDED }
        let p := { p with fds := Function.update p.fds watcher.fd (some addr) }
        some (watcher, p.controlFd .ADD addr watcher)
      else none
  | .DELETED =>
      if p.hasFd addr watcher then
        let watcher := { watcher with status := .ADDED }
        some (watcher, p.controlFd .ADD addr watcher)
      else none
  | .ADDED =>
      if p.hasFd addr watcher then
        if watcher.isNoneEvent then
          let p := p.controlFd .DEL addr watcher
          some ({ watcher with status := .DELETED }, p)
        else some (watcher, p.controlFd .MOD addr watcher)
      else none

def removeFd (p : EPollPoller I) (addr : I) (watcher : IOFd) :
    Option (IOFd × EPollPoller I) :=
  if !p.hasFd addr watcher then some (watcher, p)
  else if !watcher.isNoneEvent then none
  else if watcher.status ≠ .ADDED ∧ watcher.status ≠ .DELETED then none
  else
    let p := { p with fds := Function.update p.fds watcher.fd none }
    let p := if watcher.status = .ADDED then p.controlFd .DEL addr watcher
      else p
    some ({ watcher with status := .NEW }, p)

/-- How one watcher stands in the poller of its loop: what its status says
about the table, the kernel set and its own events. -/
structure Wired (p : EPollPoller I) (loop : Nat) (addr : I) (f : IOFd) :
    Prop where
  table : p.fds f.fd = if f.status = .NEW then none else some addr
  interest : p.interest f.fd =
    if f.status = .ADDED then some ⟨f.events, addr⟩ else none
  events : f.events ≠ 0#32 ↔ f.status = .ADDED
  attached : f.status ≠ .NEW → f.looper = some loop
  own : f.looper = none ∨ f.looper = some loop

/-- Nothing is changed but the entries of the descriptor `fd`, and no call of
`epoll_ctl` has failed. -/
structure Touches (p p' : EPollPoller I) (fd : Int) : Prop where
  fds : ∀ other, other ≠ fd → p'.fds other = p.fds other
  interest : ∀ other, other ≠ fd → p'.interest other = p.interest other
  rejected : p'.rejected = p.rejected

omit [DecidableEq I] in
theorem Touches.refl (p : EPollPoller I) (fd : Int) : p.Touches p fd :=
  ⟨fun _ _ => rfl, fun _ _ => rfl, rfl⟩

omit [DecidableEq I] in
theorem Touches.trans {p₁ p₂ p₃ : EPollPoller I} {fd : Int}
    (h₁ : p₁.Touches p₂ fd) (h₂ : p₂.Touches p₃ fd) : p₁.Touches p₃ fd :=
  ⟨fun other h => (h₂.fds other h).trans (h₁.fds other h),
    fun other h => (h₂.interest other h).trans (h₁.interest other h),
    h₂.rejected.trans h₁.rejected⟩

omit [DecidableEq I] in
/-- A watcher with another descriptor is not concerned. -/
theorem Wired.of_touches {p p' : EPollPoller I} {loop : Nat} {addr : I}
    {f : IOFd} {fd : Int} (h : p.Wired loop addr f) (ht : p.Touches p' fd)
    (hfd : f.fd ≠ fd) : p'.Wired loop addr f :=
  ⟨(ht.fds _ hfd).trans h.table, (ht.interest _ hfd).trans h.interest,
    h.events, h.attached, h.own⟩

/-- A first registration enters the table and the kernel set. -/
theorem updateFd_new {p : EPollPoller I} {addr : I} {f : IOFd}
    (hstatus : f.status = .NEW) (htable : p.fds f.fd = none)
    (hinterest : p.interest f.fd = none) :
    p.updateFd addr f = some ({ f with status := .ADDED }, { p with
      fds := Function.update p.fds f.fd (some addr)
      interest := Function.update p.interest f.fd
        (some ⟨f.events, addr⟩) }) := by
  simp [updateFd, hstatus, htable, controlFd, epollCtl, hinterest]

/-- A known descriptor enters the kernel set again. -/
theorem updateFd_deleted {p : EPollPoller I} {addr : I} {f : IOFd}
    (hstatus : f.status = .DELETED) (htable : p.fds f.fd = some addr)
    (hinterest : p.interest f.fd = none) :
    p.updateFd addr f = some ({ f with status := .ADDED }, { p with
      interest := Function.update p.interest f.fd
        (some ⟨f.events, addr⟩) }) := by
  simp [updateFd, hasFd, hstatus, htable, controlFd, epollCtl, hinterest]

/-- Without events a descriptor leaves the kernel set and stays known. -/
theorem updateFd_none {p : EPollPoller I} {addr : I} {f : IOFd}
    {event : EpollEvent I} (hstatus : f.status = .ADDED)
    (htable : p.fds f.fd = some addr) (hinterest : p.interest f.fd = some event)
    (hevents : f.events = 0#32) :
    p.updateFd addr f = some ({ f with status := .DELETED }, { p with
      interest := Function.update p.interest f.fd none }) := by
  simp [updateFd, hasFd, hstatus, htable, controlFd, epollCtl, hinterest,
    IOFd.isNoneEvent, hevents]

/-- With other events the entry of the kernel set is replaced. -/
theorem updateFd_mod {p : EPollPoller I} {addr : I} {f : IOFd}
    {event : EpollEvent I} (hstatus : f.status = .ADDED)
    (htable : p.fds f.fd = some addr) (hinterest : p.interest f.fd = some event)
    (hevents : f.events ≠ 0#32) :
    p.updateFd addr f = some (f, { p with
      interest := Function.update p.interest f.fd
        (some ⟨f.events, addr⟩) }) := by
  simp [updateFd, hasFd, hstatus, htable, controlFd, epollCtl, hinterest,
    IOFd.isNoneEvent, hevents]

/-- `updateFd` after the events of an attached watcher have been changed to
`events`, where not both the old and the new events are zero. -/
theorem updateFd_spec {p : EPollPoller I} {loop : Nat} {addr : I} {f : IOFd}
    (h : p.Wired loop addr f) (hlooper : f.looper = some loop)
    {events : BitVec 32} (hevents : events ≠ 0#32 ∨ f.events ≠ 0#32) :
    ∃ status p', p.updateFd addr { f with events := events } =
        some ({ f with events := events, status := status }, p') ∧
      p'.Wired loop addr { f with events := events, status := status } ∧
      p.Touches p' f.fd := by
  obtain ⟨htable, hinterest, hadded, -, -⟩ := h
  obtain ⟨fd, old, status, looper⟩ := f
  cases status with
  | NEW =>
      simp only [if_true, reduceCtorEq, if_false, iff_false, not_not]
        at htable hinterest hadded
      have hnew : events ≠ 0#32 := hevents.resolve_right (not_not.mpr hadded)
      refine ⟨.ADDED, _, updateFd_new (f := ⟨fd, events, .NEW, looper⟩)
        rfl htable hinterest, ?_, ?_⟩
      · constructor <;> simp_all
      · constructor <;> simp +contextual [Function.update]
  | DELETED =>
      simp only [reduceCtorEq, if_false, iff_false, not_not]
        at htable hinterest hadded
      have hnew : events ≠ 0#32 := hevents.resolve_right (not_not.mpr hadded)
      refine ⟨.ADDED, _, updateFd_deleted (f := ⟨fd, events, .DELETED, looper⟩)
        rfl htable hinterest, ?_, ?_⟩
      · constructor <;> simp_all
      · constructor <;> simp +contextual [Function.update]
  | ADDED =>
      simp only [if_true, reduceCtorEq, if_false] at htable hinterest
      by_cases hnone : events = 0#32
      · subst hnone
        refine ⟨.DELETED, _, updateFd_none (f := ⟨fd, 0#32, .ADDED, looper⟩)
          rfl htable hinterest rfl, ?_, ?_⟩
        · constructor <;> simp_all
        · constructor <;> simp +contextual [Function.update]
      · refine ⟨.ADDED, _, updateFd_mod (f := ⟨fd, events, .ADDED, looper⟩)
          rfl htable hinterest hnone, ?_, ?_⟩
        · constructor <;> simp_all
        · constructor <;> simp +contextual [Function.update]

/-- `removeFd` for a watcher whose events have been disabled. -/
theorem removeFd_spec {p : EPollPoller I} {loop : Nat} {addr : I} {f : IOFd}
    (h : p.Wired loop addr f) (hevents : f.events = 0#32) :
    ∃ p', p.removeFd addr f = some ({ f with status := .NEW }, p') ∧
      p'.Wired loop addr { f with status := .NEW } ∧ p.Touches p' f.fd := by
  obtain ⟨fd, events, status, looper⟩ := f
  obtain ⟨htable, hinterest, hstatus, hattached, hown⟩ := h
  simp only at htable hinterest hstatus hattached hown hevents ⊢
  cases status with
  | NEW =>
      simp only [if_true, reduceCtorEq, if_false] at htable hinterest
      refine ⟨p, by simp [removeFd, hasFd, htable], ?_, Touches.refl p fd⟩
      constructor <;> simp [htable, hinterest, hevents, hown]
  | ADDED => exact absurd hevents (hstatus.mpr rfl)
  | DELETED =>
      simp only [reduceCtorEq, if_false] at htable hinterest
      refine ⟨{ p with fds := Function.update p.fds fd none }, by
        simp [removeFd, hasFd, htable, IOFd.isNoneEvent, hevents], ?_, ?_⟩
      · constructor <;> simp [hinterest, hevents, hown]
      · constructor <;> simp +contextual [Function.update]

end EPollPoller

end Libsaf
