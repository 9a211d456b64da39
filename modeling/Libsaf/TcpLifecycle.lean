/-
The life of a `saf::TcpConnection`: its establishment, `close` and `shutdown`
from any thread, and the close that the peer causes.  `_status` is atomic, so a
step is one load or one store of it together with what only the loop thread can
see.  The first close is final as long as no other end of the connection is
under way while `closeInLoop` runs.
-/
import Libsaf.EventLoop
import Libsaf.TcpConnection
import Mathlib.Data.Fintype.Basic
import Mathlib.Data.List.TakeWhile

namespace Libsaf

universe u v

variable {I : Type u} {T : Type v}

/-- The two methods that end a connection, and the functors they pass to
`runInLoop`. -/
inductive EndCall where
  | close
  | shutdown
deriving Repr, DecidableEq

/-- Where a thread is in `close` or `shutdown`: it has found `kConnected`, or it
has stored `kDisconnecting` and calls `runInLoop`. -/
inductive CallPc where
  | idle
  | loaded (call : EndCall)
  | stored (call : EndCall)
deriving Repr, DecidableEq

/-- The thread will still store to `_status` or have `closeInLoop` run. -/
def CallPc.ends : CallPc → Bool
  | .loaded _ | .stored .close => true
  | .idle | .stored .shutdown => false

/-- Where the loop thread is: at the two loads of the assertion in
`handleCloseInLoop`, or at the beginning of `closeInLoop`.  `aborted` is the
process that the failed assertion ended. -/
inductive LoopPc where
  | idle
  | assertConnected
  | assertDisconnecting
  | closeInLoop
  | aborted
deriving Repr, DecidableEq

/-- What `handleEvent` finds: a hang-up without input, a read that returns 0,
or something that does not end the connection. -/
inductive SocketEvent where
  | hangUp
  | endOfStream
  | other
deriving Repr, DecidableEq

/-- The stores to `_status`, the runs of `closeInLoop` and the calls of the
callbacks that are set. -/
inductive TcpEvent where
  | store (status : TcpStatus)
  | closeInLoop
  | connectChange
  | closeCallback
deriving Repr, DecidableEq

/-- `active` says that the socket is in the current batch of the poller and was
not dispatched yet; `established` that `onConnectEstablishedInLoop` was called;
`shutdowns` counts the calls of `Socket::shutdown`. -/
structure TcpLifecycle (I : Type u) (T : Type v) where
  conn : TcpConnection
  poller : EPollPoller I
  functors : FunctorQueue EndCall
  running : Bool
  active : Bool
  established : Bool
  pc : LoopPc
  calls : T → CallPc
  shutdowns : Nat
  trace : List TcpEvent

/-- The loop thread too calls `close` and `shutdown`, from its callbacks. -/
inductive LifecycleStep (T : Type v) where
  | onConnectEstablished
  | load (thread : T) (call : EndCall)
  | store (thread : T)
  | runInLoop (thread : T)
  | poll
  | dispatch (event : SocketEvent)
  | swapFunctors
  | callFunctor
  | returnFunctors
  | loopStep
deriving Repr, DecidableEq

namespace TcpLifecycle

def start (poller : EPollPoller I) (fd : Int)
    (writeComplete connectChange close : Bool) : TcpLifecycle I T :=
  { conn := TcpConnection.ofSocket fd writeComplete connectChange close
    poller := poller
    functors := .empty
    running := false
    active := false
    established := false
    pc := .idle
    calls := fun _ => .idle
    shutdowns := 0
    trace := [] }

/-- The loop thread is inside no method of the connection. -/
def Free (loopThread : T) (s : TcpLifecycle I T) : Prop :=
  s.pc = .idle ∧ s.calls loopThread = .idle

/-- The body of a functor: `closeInLoop` begins, or the socket is shut down
unless output is pending. -/
def invoke (s : TcpLifecycle I T) : EndCall → TcpLifecycle I T
  | .close => { s with pc := .closeInLoop }
  | .shutdown =>
      if !s.conn.socket.isWriting then { s with shutdowns := s.shutdowns + 1 }
      else s

def callback (isSet : Bool) (event : TcpEvent) : List TcpEvent :=
  if isSet then [event] else []

variable [DecidableEq I]

def onConnectEstablished (loop : Nat) (addr : I) (s : TcpLifecycle I T) :
    Option (TcpLifecycle I T) :=
  (s.conn.onConnectEstablishedInLoop loop addr s.poller).map
    fun (conn, poller) => { s with
      conn := conn
      poller := poller
      established := true
      trace := s.trace ++ .store .kConnected ::
        callback conn.connectChangeCallback .connectChange }

/-- `closeInLoop` with its callbacks. -/
def closeInLoop (loop : Nat) (addr : I) (s : TcpLifecycle I T) :
    Option (TcpLifecycle I T) :=
  (s.conn.closeInLoop loop addr s.poller).map fun (conn, poller) => { s with
    conn := conn
    poller := poller
    pc := .idle
    trace := s.trace ++ .closeInLoop :: .store .kDisconnected ::
      (callback conn.connectChangeCallback .connectChange ++
        callback conn.closeCallback .closeCallback) }

/-- The loop thread goes on inside `handleCloseInLoop`. -/
def loopStep (loop : Nat) (addr : I) (s : TcpLifecycle I T) :
    Option (TcpLifecycle I T) :=
  match s.pc with
  | .idle | .aborted => none
  | .assertConnected =>
      if s.conn.status = .kConnected then some { s with pc := .closeInLoop }
      else some { s with pc := .assertDisconnecting }
  | .assertDisconnecting =>
      if s.conn.status = .kDisconnecting then some { s with pc := .closeInLoop }
      else some { s with pc := .aborted }
  | .closeInLoop => s.closeInLoop loop addr

end TcpLifecycle

/-- Events of the socket are only found while it is in the kernel set, batches
are dispatched before functors run, and a connection is established once. -/
def lifecycleMachine [DecidableEq I] [DecidableEq T] (loop : Nat) (addr : I)
    (loopThread : T) : Machine (TcpLifecycle I T) (LifecycleStep T) where
  enabled s
    | .onConnectEstablished => s.Free loopThread ∧ s.established = false
    | .load thread _ => s.pc ≠ .aborted ∧ s.calls thread = .idle ∧
        (thread = loopThread → s.Free loopThread)
    | .store thread => s.pc ≠ .aborted ∧ ∃ call, s.calls thread = .loaded call
    | .runInLoop thread =>
        s.pc ≠ .aborted ∧ ∃ call, s.calls thread = .stored call
    | .poll => s.Free loopThread ∧ s.running = false ∧ s.active = false ∧
        s.poller.interest s.conn.socket.fd ≠ none
    | .dispatch _ => s.Free loopThread ∧ s.active = true
    | .swapFunctors =>
        s.Free loopThread ∧ s.running = false ∧ s.active = false
    | .callFunctor =>
        s.Free loopThread ∧ s.running = true ∧ s.functors.batch ≠ []
    | .returnFunctors =>
        s.Free loopThread ∧ s.running = true ∧ s.functors.batch = []
    | .loopStep => s.pc ≠ .idle ∧ s.pc ≠ .aborted
  exec s
    | .onConnectEstablished => s.onConnectEstablished loop addr
    | .load thread call => some { s with
        calls := Function.update s.calls thread
          (if s.conn.status ≠ .kConnected then .idle else .loaded call) }
    | .store thread =>
        match s.calls thread with
        | .loaded call => some { s with
            conn := s.conn.changeStatus .kDisconnecting
            calls := Function.update s.calls thread (.stored call)
            trace := s.trace ++ [.store .kDisconnecting] }
        | _ => none
    | .runInLoop thread =>
        match s.calls thread with
        | .stored call =>
            let s := { s with calls := Function.update s.calls thread .idle }
            if thread = loopThread then some (s.invoke call)
            else some { s with functors := s.functors.queueInLoop call }
        | _ => none
    | .poll => some { s with active := true }
    | .dispatch event => some { s with
        active := false
        pc := if event = .other then .idle else .assertConnected }
    | .swapFunctors => some { s with
        functors := s.functors.swapFunctors
        running := true }
    | .callFunctor => s.functors.nextFunctor.map fun (call, functors) =>
        { s with functors := functors }.invoke call
    | .returnFunctors => some { s with running := false }
    | .loopStep => s.loopStep loop addr

/-- The steps that only move threads and functors. -/
def LifecycleStep.Quiet : LifecycleStep T → Prop
  | .onConnectEstablished | .store _ | .loopStep => False
  | _ => True

theorem LifecycleStep.quiet_or (step : LifecycleStep T) :
    step.Quiet ∨ step = .onConnectEstablished ∨
      (∃ thread, step = .store thread) ∨ step = .loopStep := by
  cases step with
  | onConnectEstablished => exact Or.inr (Or.inl rfl)
  | store thread => exact Or.inr (Or.inr (Or.inl ⟨thread, rfl⟩))
  | loopStep => exact Or.inr (Or.inr (Or.inr rfl))
  | _ => exact Or.inl trivial

/-- The order of the states. -/
def TcpStatus.rank : TcpStatus → Nat
  | .kConnecting => 0
  | .kConnected => 1
  | .kDisconnecting => 2
  | .kDisconnected => 3

/-- The status that an event stores. -/
def TcpEvent.status : TcpEvent → Option TcpStatus
  | .store status => some status
  | _ => none

namespace TcpLifecycle

/-- All values of `_status`, in order. -/
def statuses (trace : List TcpEvent) : List TcpStatus :=
  .kConnecting :: trace.filterMap TcpEvent.status

/-- The calls of the connect-change callback from the first store of
`kDisconnected` on. -/
def disconnects (trace : List TcpEvent) : Nat :=
  (trace.dropWhile (· ≠ .store .kDisconnected)).count .connectChange

/-- The status only moves forward, `closeInLoop` runs at most once, and so does
the notification that the connection is gone. -/
structure Forward (s : TcpLifecycle I T) : Prop where
  status : (statuses s.trace).Pairwise fun a b => a.rank ≤ b.rank
  once : s.trace.count .closeInLoop ≤ 1
  notified : disconnects s.trace ≤ 1

/-- A call of `close` or `shutdown` has found `kConnected` and not stored yet,
or a call of `close` has not come to `closeInLoop`. -/
def UnderWay (s : TcpLifecycle I T) : Prop :=
  (∃ thread, (s.calls thread).ends = true) ∨ .close ∈ s.functors.pending

/-- `closeInLoop` only runs while nothing else is under way that ends the
connection. -/
def ClosesAlone (s : TcpLifecycle I T) : LifecycleStep T → Prop
  | .loopStep => s.pc = .closeInLoop → ¬ s.UnderWay
  | _ => True

/-- Nothing is under way, and the loop thread is not about to run
`closeInLoop`. -/
def Settled (s : TcpLifecycle I T) : Prop :=
  ¬ s.UnderWay ∧ s.pc ≠ .closeInLoop

/-- The connection is not established, and nothing has happened to it. -/
structure Before (loop : Nat) (addr : I) (s : TcpLifecycle I T) : Prop where
  status : s.conn.status = .kConnecting
  trace : s.trace = []
  established : s.established = false
  wired : s.poller.Wired loop addr s.conn.socket
  interest : s.poller.interest s.conn.socket.fd = none
  pending : s.functors.pending = []
  active : s.active = false
  pc : s.pc = .idle
  calls : ∀ thread, s.calls thread = .idle

/-- The connection is established and not closed. -/
structure Opened (loop : Nat) (addr : I) (s : TcpLifecycle I T) : Prop where
  status : s.conn.status = .kConnected ∨ s.conn.status = .kDisconnecting
  established : s.established = true
  attached : s.conn.Attached s.poller loop addr
  sorted : (statuses s.trace).Pairwise fun a b => a.rank ≤ b.rank
  below : ∀ a ∈ statuses s.trace, a.rank ≤ s.conn.status.rank
  once : .closeInLoop ∉ s.trace
  assertion : s.pc = .assertDisconnecting → s.conn.status = .kDisconnecting

/-- The connection was closed, for good so far. -/
structure Gone (s : TcpLifecycle I T) : Prop where
  status : s.conn.status = .kDisconnected
  established : s.established = true
  forward : s.Forward
  closed : .closeInLoop ∈ s.trace
  stored : .store .kDisconnected ∈ s.trace

/-- Between two calls of `runFunctors` no batch is left. -/
def Between (s : TcpLifecycle I T) : Prop :=
  s.running = false → s.functors.batch = []

theorem statuses_append (trace more : List TcpEvent) :
    statuses (trace ++ more) =
      statuses trace ++ more.filterMap TcpEvent.status := by
  simp [statuses]

theorem mem_statuses {trace : List TcpEvent} {status : TcpStatus}
    (h : .store status ∈ trace) : status ∈ statuses trace :=
  List.mem_cons_of_mem _ (List.mem_filterMap.mpr ⟨_, h, rfl⟩)

section

variable {loop : Nat} {addr : I} {s : TcpLifecycle I T}

theorem Opened.rank_le (h : s.Opened loop addr) :
    ∀ a ∈ statuses s.trace, a.rank ≤ 2 := by
  intro a ha
  rcases h.status with hstatus | hstatus
  · exact Nat.le_trans (h.below a ha) (by rw [hstatus]; decide)
  · exact Nat.le_trans (h.below a ha) (by rw [hstatus]; decide)

/-- Before the first close there is no store of `kDisconnected`. -/
theorem Opened.not_stored (h : s.Opened loop addr) :
    ∀ event ∈ s.trace, decide (event ≠ .store .kDisconnected) = true := by
  intro event hevent
  apply decide_eq_true
  rintro rfl
  exact absurd (h.rank_le _ (mem_statuses hevent)) (by decide)

theorem Opened.forward (h : s.Opened loop addr) : s.Forward := by
  refine ⟨h.sorted, ?_, ?_⟩
  · rw [List.count_eq_zero_of_not_mem h.once]
    exact Nat.zero_le 1
  · have hnone : s.trace.dropWhile (· ≠ .store .kDisconnected) = [] := by
      rw [List.dropWhile_eq_nil_iff]
      exact h.not_stored
    rw [disconnects, hnone]
    exact Nat.zero_le 1

theorem Before.forward (h : s.Before loop addr) : s.Forward := by
  refine ⟨?_, ?_, ?_⟩ <;> rw [h.trace] <;> decide

/-- What `closeInLoop` adds to the trace of an open connection. -/
theorem Opened.close_forward (h : s.Opened loop addr)
    (change close : Bool) {s' : TcpLifecycle I T}
    (htrace : s'.trace = s.trace ++ .closeInLoop :: .store .kDisconnected ::
      (callback change .connectChange ++ callback close .closeCallback)) :
    s'.Forward := by
  have hstatus : (callback change .connectChange ++
      callback close .closeCallback).filterMap TcpEvent.status = [] := by
    cases change <;> cases close <;> rfl
  have hclose : (callback change .connectChange ++
      callback close .closeCallback).count .closeInLoop = 0 := by
    cases change <;> cases close <;> rfl
  have hchange : (callback change .connectChange ++
      callback close .closeCallback).count .connectChange ≤ 1 := by
    cases change <;> cases close <;> decide
  refine ⟨?_, ?_, ?_⟩
  · have hstore : (TcpEvent.closeInLoop :: .store .kDisconnected ::
        (callback change .connectChange ++
          callback close .closeCallback)).filterMap TcpEvent.status =
        [.kDisconnected] := congrArg (TcpStatus.kDisconnected :: ·) hstatus
    rw [htrace, statuses_append, hstore, List.pairwise_append]
    refine ⟨h.sorted, List.pairwise_singleton _ _, ?_⟩
    intro a ha b hb
    rw [List.mem_singleton.mp hb]
    exact Nat.le_trans (h.rank_le a ha) (by decide)
  · rw [htrace, List.count_append, List.count_eq_zero_of_not_mem h.once,
      List.count_cons_self, List.count_cons_of_ne (by simp), hclose]
  · rw [disconnects, htrace, List.dropWhile_append_of_pos h.not_stored,
      List.dropWhile_cons_of_pos (by simp),
      List.dropWhile_cons_of_neg (by simp), List.count_cons_of_ne (by simp)]
    exact hchange

/-- What a step leaves alone that only moves threads and functors. -/
structure Leaves (s s' : TcpLifecycle I T) : Prop where
  conn : s'.conn = s.conn
  poller : s'.poller = s.poller
  established : s'.established = s.established
  trace : s'.trace = s.trace
  assertion : s'.pc = .assertDisconnecting → s.pc = .assertDisconnecting

/-- An open connection stays open, unless the loop thread goes to the second
half of its assertion. -/
theorem Opened.frame {s' : TcpLifecycle I T} (h : s.Opened loop addr)
    (hconn : s'.conn = s.conn) (hpoller : s'.poller = s.poller)
    (hestablished : s'.established = s.established)
    (htrace : s'.trace = s.trace)
    (hpc : s'.pc = .assertDisconnecting → s.conn.status = .kDisconnecting) :
    s'.Opened loop addr := by
  obtain ⟨hstatus, hest, hattached, hsorted, hbelow, honce, _⟩ := h
  rw [← hconn] at hstatus hattached hbelow hpc
  rw [← hestablished] at hest
  rw [← hpoller] at hattached
  rw [← htrace] at hsorted hbelow honce
  exact ⟨hstatus, hest, hattached, hsorted, hbelow, honce, hpc⟩

theorem Opened.leaves {s' : TcpLifecycle I T} (h : s.Opened loop addr)
    (hleaves : s.Leaves s') : s'.Opened loop addr := by
  apply h.frame hleaves.conn hleaves.poller hleaves.established hleaves.trace
  intro hpc
  exact h.assertion (hleaves.assertion hpc)

theorem Gone.frame {s' : TcpLifecycle I T} (h : s.Gone)
    (hconn : s'.conn = s.conn) (hestablished : s'.established = s.established)
    (htrace : s'.trace = s.trace) : s'.Gone := by
  obtain ⟨hstatus, hest, ⟨hsorted, honce, hnotified⟩, hclosed, hstored⟩ := h
  rw [← hconn] at hstatus
  rw [← hestablished] at hest
  rw [← htrace] at hsorted honce hnotified hclosed hstored
  exact ⟨hstatus, hest, ⟨hsorted, honce, hnotified⟩, hclosed, hstored⟩

/-- A store of `kDisconnecting` after one of `kDisconnected` moves back. -/
theorem Gone.store_back {s' : TcpLifecycle I T} (h : s.Gone)
    (htrace : s'.trace = s.trace ++ [.store .kDisconnecting]) :
    ¬s'.Forward := by
  intro hforward
  have hsorted := hforward.status
  rw [htrace, statuses_append, List.pairwise_append] at hsorted
  have hback : TcpStatus.kDisconnected.rank ≤ TcpStatus.kDisconnecting.rank :=
    hsorted.2.2 _ (mem_statuses h.stored) _ List.mem_cons_self
  exact absurd hback (by decide)

/-- A run of `closeInLoop` after the first one is the second. -/
theorem Gone.close_again {s' : TcpLifecycle I T} (h : s.Gone)
    {more : List TcpEvent}
    (htrace : s'.trace = s.trace ++ .closeInLoop :: more) : ¬s'.Forward := by
  intro hforward
  have honce := hforward.once
  have hbefore : 0 < s.trace.count .closeInLoop :=
    List.count_pos_iff.mpr h.closed
  rw [htrace, List.count_append, List.count_cons_self] at honce
  omega

/-- A functor or an inline call only moves the program counter. -/
theorem invoke_leaves (s : TcpLifecycle I T) (call : EndCall) :
    s.Leaves (s.invoke call) := by
  cases call with
  | close =>
      exact ⟨rfl, rfl, rfl, rfl, fun hpc => by cases hpc⟩
  | shutdown =>
      unfold invoke
      by_cases hwriting : (!s.conn.socket.isWriting) = true
      · simp only [if_pos hwriting]
        exact ⟨rfl, rfl, rfl, rfl, id⟩
      · simp only [if_neg hwriting]
        exact ⟨rfl, rfl, rfl, rfl, id⟩

end

section

variable [DecidableEq I] [DecidableEq T] {loop : Nat} {addr : I}
  {loopThread : T} {s : TcpLifecycle I T}

/-- The steps that neither store to the status nor end in such a store. -/
theorem quiet_step (step : LifecycleStep T) (hquiet : step.Quiet)
    (hstep : (lifecycleMachine loop addr loopThread).enabled s step) :
    ∃ s', (lifecycleMachine loop addr loopThread).exec s step = some s' ∧
      s.Leaves s' := by
  cases step with
  | load thread call => exact ⟨_, rfl, rfl, rfl, rfl, rfl, id⟩
  | runInLoop thread =>
      obtain ⟨_, call, hcall⟩ := hstep
      let t : TcpLifecycle I T :=
        { s with calls := Function.update s.calls thread .idle }
      have ht := invoke_leaves t call
      by_cases hthread : thread = loopThread
      · refine ⟨t.invoke call, ?_, ht.conn, ht.poller, ht.established,
          ht.trace, ht.assertion⟩
        simp only [lifecycleMachine, hcall, if_pos hthread, t]
      · refine ⟨{ t with functors := s.functors.queueInLoop call }, ?_, rfl,
          rfl, rfl, rfl, id⟩
        simp only [lifecycleMachine, hcall, if_neg hthread, t]
  | poll => exact ⟨_, rfl, rfl, rfl, rfl, rfl, id⟩
  | dispatch event =>
      refine ⟨_, rfl, rfl, rfl, rfl, rfl, fun hpc => ?_⟩
      simp only at hpc
      split at hpc <;> cases hpc
  | swapFunctors => exact ⟨_, rfl, rfl, rfl, rfl, rfl, id⟩
  | callFunctor =>
      obtain ⟨call, rest, hcons⟩ := List.exists_cons_of_ne_nil hstep.2.2
      let t : TcpLifecycle I T :=
        { s with functors := { s.functors with batch := rest } }
      have ht := invoke_leaves t call
      refine ⟨t.invoke call, ?_, ht.conn, ht.poller, ht.established, ht.trace,
        ht.assertion⟩
      simp [lifecycleMachine, FunctorQueue.nextFunctor, hcons, t]
  | returnFunctors => exact ⟨_, rfl, rfl, rfl, rfl, rfl, id⟩
  | onConnectEstablished | store | loopStep => exact hquiet.elim

theorem before_step (h : s.Before loop addr) (step : LifecycleStep T)
    (hstep : (lifecycleMachine loop addr loopThread).enabled s step) :
    ∃ s', (lifecycleMachine loop addr loopThread).exec s step = some s' ∧
      (s'.Before loop addr ∨ s'.Opened loop addr) := by
  cases step with
  | onConnectEstablished =>
      obtain ⟨socket, p', hrun, hattached, _⟩ :=
        TcpConnection.onConnectEstablishedInLoop_spec h.wired
      refine ⟨_, by simp only [lifecycleMachine, onConnectEstablished, hrun,
        Option.map_some]; rfl, Or.inr ⟨Or.inl rfl, rfl, hattached, ?_, ?_, ?_,
          fun hpc => ?_⟩⟩
      · simp only [h.trace]
        cases s.conn.connectChangeCallback <;> decide
      · simp only [h.trace]
        cases s.conn.connectChangeCallback <;> decide
      · simp only [h.trace]
        cases s.conn.connectChangeCallback <;> decide
      · exact absurd (h.pc.symm.trans hpc) (by decide)
  | load thread call =>
      refine ⟨_, rfl, Or.inl ⟨h.status, h.trace, h.established, h.wired,
        h.interest, h.pending, h.active, h.pc, fun other => ?_⟩⟩
      rcases eq_or_ne other thread with rfl | hne
      · simp [h.status]
      · simpa [hne] using h.calls other
  | store thread =>
      obtain ⟨_, call, hcall⟩ := hstep
      rw [h.calls thread] at hcall
      cases hcall
  | runInLoop thread =>
      obtain ⟨_, call, hcall⟩ := hstep
      rw [h.calls thread] at hcall
      cases hcall
  | poll => exact absurd h.interest hstep.2.2.2
  | dispatch event => exact absurd (h.active.symm.trans hstep.2) (by decide)
  | swapFunctors =>
      have hbatch := (List.append_eq_nil_iff.mp h.pending).1
      refine ⟨_, rfl, Or.inl ⟨h.status, h.trace, h.established, h.wired,
        h.interest, ?_, h.active, h.pc, h.calls⟩⟩
      exact (FunctorQueue.pending_swapFunctors hbatch).trans h.pending
  | callFunctor =>
      exact absurd (List.append_eq_nil_iff.mp h.pending).1 hstep.2.2
  | returnFunctors =>
      exact ⟨_, rfl, Or.inl ⟨h.status, h.trace, h.established, h.wired,
        h.interest, h.pending, h.active, h.pc, h.calls⟩⟩
  | loopStep => exact absurd h.pc hstep.1

/-- A store of `kDisconnecting` while the connection is open. -/
theorem opened_store (h : s.Opened loop addr) {thread : T}
    (hstep : (lifecycleMachine loop addr loopThread).enabled s
      (.store thread)) :
    ∃ s', (lifecycleMachine loop addr loopThread).exec s (.store thread) =
      some s' ∧ s'.Opened loop addr := by
  obtain ⟨_, call, hcall⟩ := hstep
  refine ⟨{ s with
      conn := s.conn.changeStatus .kDisconnecting
      calls := Function.update s.calls thread (.stored call)
      trace := s.trace ++ [.store .kDisconnecting] },
    by simp only [lifecycleMachine, hcall],
    ⟨Or.inr rfl, h.established, ⟨h.attached.wired, h.attached.looper⟩,
      ?_, ?_, ?_, fun _ => rfl⟩⟩
  · rw [statuses_append, List.pairwise_append]
    refine ⟨h.sorted, List.pairwise_singleton _ _, ?_⟩
    intro a ha b hb
    obtain rfl : b = .kDisconnecting := List.mem_singleton.mp hb
    exact h.rank_le a ha
  · intro a ha
    rw [statuses_append] at ha
    rcases List.mem_append.mp ha with hold | hnew
    · exact h.rank_le a hold
    · obtain rfl : a = .kDisconnecting := List.mem_singleton.mp hnew
      exact Nat.le_refl _
  · simpa using h.once

omit [DecidableEq T] in
/-- The loop thread closes an open connection only in `closeInLoop`, which
leaves the calls that are under way where they are. -/
theorem opened_loopStep (h : s.Opened loop addr) (hpc : s.pc ≠ .idle)
    (habort : s.pc ≠ .aborted) :
    ∃ s', s.loopStep loop addr = some s' ∧
      (s'.Opened loop addr ∨
        s.pc = .closeInLoop ∧ s'.Gone ∧ (s'.Settled ↔ ¬ s.UnderWay)) := by
  cases hwhere : s.pc with
  | idle => exact absurd hwhere hpc
  | aborted => exact absurd hwhere habort
  | assertConnected =>
      by_cases hconnected : s.conn.status = .kConnected
      · exact ⟨{ s with pc := .closeInLoop },
          by simp [loopStep, hwhere, hconnected],
          Or.inl (h.frame rfl rfl rfl rfl fun hpc => by cases hpc)⟩
      · exact ⟨{ s with pc := .assertDisconnecting },
          by simp [loopStep, hwhere, hconnected],
          Or.inl (h.frame rfl rfl rfl rfl
            fun _ => h.status.resolve_left hconnected)⟩
  | assertDisconnecting =>
      exact ⟨{ s with pc := .closeInLoop },
        by simp [loopStep, hwhere, h.assertion hwhere],
        Or.inl (h.frame rfl rfl rfl rfl fun hpc => by cases hpc)⟩
  | closeInLoop =>
      obtain ⟨socket, p', hrun, _, _⟩ := h.attached.closeInLoop
      let change := callback s.conn.connectChangeCallback .connectChange
      let close := callback s.conn.closeCallback .closeCallback
      let t : TcpLifecycle I T := { s with
        conn := { s.conn with status := .kDisconnected, socket := socket }
        poller := p'
        pc := .idle
        trace := s.trace ++
          .closeInLoop :: .store .kDisconnected :: (change ++ close) }
      have hgone : t.Gone := ⟨rfl, h.established, h.close_forward _ _ rfl,
        by simp [t], by simp [t]⟩
      have hidle : t.pc ≠ .closeInLoop := by simp [t]
      exact ⟨t, by simp [loopStep, hwhere, closeInLoop, hrun, t, change, close],
        Or.inr ⟨rfl, hgone, and_iff_left hidle⟩⟩

theorem opened_step (h : s.Opened loop addr) (step : LifecycleStep T)
    (hstep : (lifecycleMachine loop addr loopThread).enabled s step) :
    ∃ s', (lifecycleMachine loop addr loopThread).exec s step = some s' ∧
      (s'.Opened loop addr ∨
        s'.Gone ∧ (s'.Settled ↔ s.ClosesAlone step)) := by
  rcases step.quiet_or with hquiet | rfl | ⟨thread, rfl⟩ | rfl
  · obtain ⟨s', hexec, hleaves⟩ := quiet_step step hquiet hstep
    exact ⟨s', hexec, Or.inl (h.leaves hleaves)⟩
  · exact absurd (h.established.symm.trans hstep.2) (by decide)
  · obtain ⟨s', hexec, hopened⟩ := opened_store h hstep
    exact ⟨s', hexec, Or.inl hopened⟩
  · obtain ⟨s', hexec, hopened | ⟨hpc, hgone, hsettled⟩⟩ :=
      opened_loopStep h hstep.1 hstep.2
    · exact ⟨s', hexec, Or.inl hopened⟩
    · exact ⟨s', hexec, Or.inr ⟨hgone, hsettled.trans
        ⟨fun halone _ => halone, fun halone => halone hpc⟩⟩⟩

omit [DecidableEq I] in
/-- A thread goes on with nothing else that ends the connection. -/
theorem exists_ends_update {calls : T → CallPc} {thread : T} {pc : CallPc}
    (h : (calls thread).ends = pc.ends) :
    (∃ other, (Function.update calls thread pc other).ends = true) ↔
      ∃ other, (calls other).ends = true := by
  refine exists_congr fun other => ?_
  rcases eq_or_ne other thread with rfl | hne
  · rw [Function.update_self, h]
  · rw [Function.update_of_ne hne]

omit [DecidableEq I] [DecidableEq T] in
/-- A functor that is called: `close` brings the loop thread to `closeInLoop`,
and `shutdown` does not touch what is under way. -/
theorem settled_invoke (s : TcpLifecycle I T) (call : EndCall) :
    (s.invoke call).Settled ↔ call = .shutdown ∧ s.Settled := by
  cases call with
  | close => simp [Settled, invoke]
  | shutdown =>
      unfold invoke
      by_cases hwriting : (!s.conn.socket.isWriting) = true
      · simp [hwriting, Settled, UnderWay]
      · simp [hwriting, Settled]

omit [DecidableEq I] in
/-- The last line of `close` or `shutdown` leaves as much under way as before:
where it was `close`, its functor is queued or called now. -/
theorem settled_runInLoop {thread : T} {call : EndCall}
    (hcall : s.calls thread = .stored call) (queued : Bool) :
    Settled (
      let s := { s with calls := Function.update s.calls thread .idle }
      if queued then s.invoke call
      else { s with functors := s.functors.queueInLoop call }) ↔
      s.Settled := by
  cases call with
  | close =>
      have hbefore : ¬ s.Settled :=
        fun h => h.1 (Or.inl ⟨thread, by rw [hcall]; rfl⟩)
      refine iff_of_false ?_ hbefore
      cases queued with
      | true => simp [settled_invoke]
      | false =>
          exact fun h => h.1 (Or.inr (FunctorQueue.mem_pending_queueInLoop.mpr
            (Or.inr rfl)))
  | shutdown =>
      have hcalls := @exists_ends_update T _ s.calls thread .idle
        (by rw [hcall]; rfl)
      cases queued with
      | true =>
          rw [if_pos rfl, settled_invoke, and_iff_right rfl]
          simp [Settled, UnderWay, hcalls]
      | false => simp [Settled, UnderWay, hcalls]

/-- What only moves threads and functors leaves as much under way as before,
once the connection is gone. -/
theorem Gone.settled_quiet {s' : TcpLifecycle I T} (h : s.Gone)
    (hbetween : s.Between) (step : LifecycleStep T) (hquiet : step.Quiet)
    (hstep : (lifecycleMachine loop addr loopThread).enabled s step)
    (hexec : (lifecycleMachine loop addr loopThread).exec s step = some s') :
    s'.Settled ↔ s.Settled := by
  cases step with
  | load thread call =>
      obtain rfl := Option.some.inj hexec
      have hcalls := @exists_ends_update T _ s.calls thread .idle
        (by rw [hstep.2.1])
      simp [Settled, UnderWay, h.status, hcalls]
  | runInLoop thread =>
      obtain ⟨_, call, hcall⟩ := hstep
      have hsettled := settled_runInLoop hcall (decide (thread = loopThread))
      by_cases hthread : thread = loopThread
      · simp only [lifecycleMachine, hcall, if_pos hthread] at hexec
        obtain rfl := Option.some.inj hexec
        simpa [hthread] using hsettled
      · simp only [lifecycleMachine, hcall, if_neg hthread] at hexec
        obtain rfl := Option.some.inj hexec
        simpa [hthread] using hsettled
  | poll =>
      obtain rfl := Option.some.inj hexec
      exact Iff.rfl
  | dispatch event =>
      obtain rfl := Option.some.inj hexec
      have hpc : (if event = .other then LoopPc.idle else .assertConnected) ≠
          .closeInLoop := by
        split <;> simp
      exact and_congr_right fun _ =>
        iff_of_true hpc (by rw [hstep.1.1]; decide)
  | swapFunctors =>
      obtain rfl := Option.some.inj hexec
      have hpending := FunctorQueue.pending_swapFunctors (hbetween hstep.2.1)
      simp [Settled, UnderWay, hpending]
  | callFunctor =>
      simp only [lifecycleMachine, Option.map_eq_some_iff] at hexec
      obtain ⟨⟨call, functors⟩, hnext, rfl⟩ := hexec
      have hmem := @FunctorQueue.mem_pending_nextFunctor _ _ _ .close _ hnext
      have hidle : s.pc ≠ .closeInLoop := by
        rw [hstep.1.1]
        decide
      rw [settled_invoke, Settled, Settled, UnderWay, UnderWay, hmem]
      cases call <;> simp [hidle]
  | returnFunctors =>
      obtain rfl := Option.some.inj hexec
      exact Iff.rfl
  | onConnectEstablished | store | loopStep => exact hquiet.elim

omit [DecidableEq T] in
/-- A failed assertion is the end, and leaves the connection as it is. -/
theorem gone_loopStep (h : s.Gone) (hpc : s.pc ≠ .idle)
    (habort : s.pc ≠ .aborted) (hclose : s.pc ≠ .closeInLoop) :
    ∃ s', s.loopStep loop addr = some s' ∧ s'.Gone ∧
      (s'.Settled ↔ s.Settled) := by
  cases hwhere : s.pc with
  | idle => exact absurd hwhere hpc
  | assertConnected =>
      refine ⟨{ s with pc := .assertDisconnecting },
        by simp [loopStep, hwhere, h.status], h.frame rfl rfl rfl, ?_⟩
      exact and_congr_right fun _ => iff_of_true (by simp) hclose
  | assertDisconnecting =>
      refine ⟨{ s with pc := .aborted },
        by simp [loopStep, hwhere, h.status], h.frame rfl rfl rfl, ?_⟩
      exact and_congr_right fun _ => iff_of_true (by simp) hclose
  | closeInLoop => exact absurd hwhere hclose
  | aborted => exact absurd hwhere habort

/-- A step of a connection that is gone changes it only where something was
under way, and then breaks the order. -/
theorem gone_step (h : s.Gone) (hbetween : s.Between) (step : LifecycleStep T)
    (hstep : (lifecycleMachine loop addr loopThread).enabled s step) :
    (∃ s', (lifecycleMachine loop addr loopThread).exec s step = some s' ∧
      s'.Gone ∧ (s'.Settled ↔ s.Settled)) ∨
    ¬ s.Settled ∧
      ∀ s', (lifecycleMachine loop addr loopThread).exec s step = some s' →
        ¬ s'.Forward := by
  rcases step.quiet_or with hquiet | rfl | ⟨thread, rfl⟩ | rfl
  · obtain ⟨s', hexec, hleaves⟩ := quiet_step step hquiet hstep
    exact Or.inl ⟨s', hexec,
      h.frame hleaves.conn hleaves.established hleaves.trace,
      h.settled_quiet hbetween step hquiet hstep hexec⟩
  · exact absurd (h.established.symm.trans hstep.2) (by decide)
  · obtain ⟨_, call, hcall⟩ := hstep
    refine Or.inr ⟨fun hsettled => hsettled.1 (Or.inl ⟨thread, ?_⟩),
      fun s' hexec => ?_⟩
    · rw [hcall]
      rfl
    · simp only [lifecycleMachine, hcall, Option.some.injEq] at hexec
      exact h.store_back (hexec ▸ rfl)
  · by_cases hclose : s.pc = .closeInLoop
    · refine Or.inr ⟨fun hsettled => hsettled.2 hclose, fun s' hexec => ?_⟩
      simp only [lifecycleMachine, loopStep, hclose, closeInLoop,
        Option.map_eq_some_iff] at hexec
      obtain ⟨⟨conn, poller⟩, _, rfl⟩ := hexec
      exact h.close_again rfl
    · exact Or.inl (gone_loopStep h hstep.1 hstep.2 hclose)

omit [DecidableEq I] [DecidableEq T] in
/-- What is called from a batch does not touch the queue. -/
theorem between_invoke (s : TcpLifecycle I T) (call : EndCall) :
    (s.invoke call).Between ↔ s.Between := by
  cases call with
  | close => exact Iff.rfl
  | shutdown =>
      unfold invoke
      by_cases hwriting : (!s.conn.socket.isWriting) = true
      · simp only [if_pos hwriting]
        exact Iff.rfl
      · simp only [if_neg hwriting]

/-- The batch is empty again when `runFunctors` returns. -/
theorem between_step {s' : TcpLifecycle I T} (h : s.Between)
    (step : LifecycleStep T)
    (hstep : (lifecycleMachine loop addr loopThread).enabled s step)
    (hexec : (lifecycleMachine loop addr loopThread).exec s step = some s') :
    s'.Between := by
  cases step with
  | onConnectEstablished =>
      simp only [lifecycleMachine, onConnectEstablished,
        Option.map_eq_some_iff] at hexec
      obtain ⟨⟨conn, poller⟩, _, rfl⟩ := hexec
      exact h
  | store thread =>
      obtain ⟨_, call, hcall⟩ := hstep
      simp only [lifecycleMachine, hcall, Option.some.injEq] at hexec
      exact hexec ▸ h
  | runInLoop thread =>
      obtain ⟨_, call, hcall⟩ := hstep
      by_cases hthread : thread = loopThread
      · simp only [lifecycleMachine, hcall, if_pos hthread,
          Option.some.injEq] at hexec
        rw [← hexec, between_invoke]
        exact h
      · simp only [lifecycleMachine, hcall, if_neg hthread,
          Option.some.injEq] at hexec
        exact hexec ▸ h
  | swapFunctors =>
      obtain rfl := Option.some.inj hexec
      exact fun hrunning => by cases hrunning
  | callFunctor =>
      simp only [lifecycleMachine, Option.map_eq_some_iff] at hexec
      obtain ⟨⟨call, functors⟩, _, rfl⟩ := hexec
      rw [between_invoke]
      exact fun hrunning => absurd (hstep.2.1.symm.trans hrunning) (by decide)
  | returnFunctors =>
      obtain rfl := Option.some.inj hexec
      exact fun _ => hstep.2.2
  | loopStep =>
      simp only [lifecycleMachine, loopStep] at hexec
      split at hexec
      · cases hexec
      · cases hexec
      · split at hexec <;> exact Option.some.inj hexec ▸ h
      · split at hexec <;> exact Option.some.inj hexec ▸ h
      · simp only [closeInLoop, Option.map_eq_some_iff] at hexec
        obtain ⟨⟨conn, poller⟩, _, rfl⟩ := hexec
        exact h
  | _ =>
      obtain rfl := Option.some.inj hexec
      exact h

/-- What holds in every state of a run that closes the connection while nothing
else is under way. -/
def Alive (loop : Nat) (addr : I) (s : TcpLifecycle I T) : Prop :=
  s.Between ∧
    (s.Before loop addr ∨ s.Opened loop addr ∨ s.Gone ∧ s.Settled)

/-- The connection is gone while something is under way, or the order is broken
already. -/
def Doomed (s : TcpLifecycle I T) : Prop :=
  s.Between ∧ (s.Forward → s.Gone ∧ ¬ s.Settled)

omit [DecidableEq I] [DecidableEq T] in
theorem Alive.forward (h : s.Alive loop addr) : s.Forward := by
  rcases h.2 with hbefore | hopened | hgone
  · exact hbefore.forward
  · exact hopened.forward
  · exact hgone.1.forward

theorem alive_step (h : s.Alive loop addr) (step : LifecycleStep T)
    (hstep : (lifecycleMachine loop addr loopThread).enabled s step)
    (halone : s.ClosesAlone step) :
    ∃ s', (lifecycleMachine loop addr loopThread).exec s step = some s' ∧
      s'.Alive loop addr := by
  obtain ⟨hbetween, hbefore | hopened | ⟨hgone, hsettled⟩⟩ := h
  · obtain ⟨s', hexec, hs'⟩ := before_step hbefore step hstep
    exact ⟨s', hexec, between_step hbetween step hstep hexec,
      hs'.imp_right Or.inl⟩
  · obtain ⟨s', hexec, hs'⟩ := opened_step hopened step hstep
    exact ⟨s', hexec, between_step hbetween step hstep hexec,
      Or.inr (hs'.imp_right fun hs' => ⟨hs'.1, hs'.2.mpr halone⟩)⟩
  · obtain ⟨s', hexec, hs', hiff⟩ | ⟨hnot, _⟩ := gone_step hgone hbetween step hstep
    · exact ⟨s', hexec, between_step hbetween step hstep hexec,
        Or.inr (Or.inr ⟨hs', hiff.mpr hsettled⟩)⟩
    · exact absurd hsettled hnot

/-- Where `closeInLoop` runs while something is under way, that is carried out
on a connection which is gone. -/
theorem alive_break {s' : TcpLifecycle I T} (h : s.Alive loop addr)
    (step : LifecycleStep T)
    (hstep : (lifecycleMachine loop addr loopThread).enabled s step)
    (hnot : ¬ s.ClosesAlone step)
    (hexec : (lifecycleMachine loop addr loopThread).exec s step = some s') :
    s'.Doomed := by
  refine ⟨between_step h.1 step hstep hexec, fun _ => ?_⟩
  have hclose : step = .loopStep ∧ s.pc = .closeInLoop := by
    cases step with
    | loopStep => exact ⟨rfl, by_contra fun hpc => hnot fun h => absurd h hpc⟩
    | _ => exact absurd trivial hnot
  obtain ⟨rfl, hpc⟩ := hclose
  obtain ⟨_, hbefore | hopened | ⟨_, hsettled⟩⟩ := h
  · exact absurd (hbefore.pc.symm.trans hpc) (by decide)
  · obtain ⟨t, ht, hs'⟩ := opened_step hopened .loopStep hstep
    obtain rfl : t = s' := Option.some.inj (ht.symm.trans hexec)
    rcases hs' with hs' | ⟨hgone, hiff⟩
    · simp only [lifecycleMachine, loopStep, hpc, closeInLoop,
        Option.map_eq_some_iff] at hexec
      obtain ⟨⟨conn, poller⟩, _, rfl⟩ := hexec
      exact absurd (List.mem_append_right _ List.mem_cons_self) hs'.once
    · exact ⟨hgone, mt hiff.mp hnot⟩
  · exact absurd hpc hsettled.2

theorem doomed_step {s' : TcpLifecycle I T} (h : s.Doomed)
    (hforward : s.Forward) (step : LifecycleStep T)
    (hstep : (lifecycleMachine loop addr loopThread).enabled s step)
    (hexec : (lifecycleMachine loop addr loopThread).exec s step = some s') :
    s'.Doomed := by
  obtain ⟨hbetween, hdoomed⟩ := h
  obtain ⟨hgone, hnot⟩ := hdoomed hforward
  refine ⟨between_step hbetween step hstep hexec, fun hforward' => ?_⟩
  obtain ⟨t, ht, hs', hiff⟩ | ⟨_, hback⟩ := gone_step hgone hbetween step hstep
  · obtain rfl : t = s' := Option.some.inj (ht.symm.trans hexec)
    exact ⟨hs', mt hiff.mp hnot⟩
  · exact absurd hforward' (hback s' hexec)

omit [DecidableEq I] [DecidableEq T] in
/-- A connection on a poller that does not know its descriptor. -/
theorem start_alive {poller : EPollPoller I} {fd : Int}
    (hfds : poller.fds fd = none) (hinterest : poller.interest fd = none)
    (writeComplete connectChange close : Bool) :
    (start poller fd writeComplete connectChange close :
      TcpLifecycle I T).Alive loop addr := by
  have hwired : poller.Wired loop addr (IOFd.ofFd fd) := by
    constructor <;> simp [IOFd.ofFd, hfds, hinterest]
  exact ⟨fun _ => rfl,
    Or.inl ⟨rfl, rfl, rfl, hwired, hinterest, rfl, rfl, rfl, fun _ => rfl⟩⟩

end

end TcpLifecycle

/-- Life of a connection.  If `closeInLoop` only runs while no other `close` or
`shutdown` is between its load and its store and no other `close` waits to be
run, then the status only moves forward, and the connection is closed and
reported gone at most once, whatever the peer and the loop do; and in a run at
whose end nothing is under way this holds only then. -/
theorem tcp_lifecycle_iff [DecidableEq I] [DecidableEq T] {loop : Nat}
    {addr : I} (loopThread : T) {poller : EPollPoller I} {fd : Int}
    {writeComplete connectChange close : Bool} (hfds : poller.fds fd = none)
    (hinterest : poller.interest fd = none) (word : List (LifecycleStep T))
    (hlegal : (lifecycleMachine loop addr loopThread).Legal
      (.start poller fd writeComplete connectChange close) word) :
    ((lifecycleMachine loop addr loopThread).Meets TcpLifecycle.ClosesAlone
        (.start poller fd writeComplete connectChange close) word →
      (lifecycleMachine loop addr loopThread).Holds TcpLifecycle.Forward
        (.start poller fd writeComplete connectChange close) word) ∧
    ((∀ t, (lifecycleMachine loop addr loopThread).run
        (.start poller fd writeComplete connectChange close) word = some t →
          t.Settled) →
      ((lifecycleMachine loop addr loopThread).Holds TcpLifecycle.Forward
          (.start poller fd writeComplete connectChange close) word ↔
        (lifecycleMachine loop addr loopThread).Meets TcpLifecycle.ClosesAlone
          (.start poller fd writeComplete connectChange close) word)) := by
  have hstart : TcpLifecycle.Alive loop addr
      (.start poller fd writeComplete connectChange close :
        TcpLifecycle I T) :=
    TcpLifecycle.start_alive hfds hinterest writeComplete connectChange close
  have henough : (lifecycleMachine loop addr loopThread).Meets
        TcpLifecycle.ClosesAlone
        (.start poller fd writeComplete connectChange close) word →
      (lifecycleMachine loop addr loopThread).Holds TcpLifecycle.Forward
        (.start poller fd writeComplete connectChange close) word := by
    intro halone
    have hrun : (lifecycleMachine loop addr loopThread).Holds
        (TcpLifecycle.Alive loop addr)
        (.start poller fd writeComplete connectChange close) word := by
      apply Machine.holds_of_step _ hstart (hlegal.and halone)
      intro s step hs hstep
      exact TcpLifecycle.alive_step hs step hstep.1 hstep.2
    exact hrun.mono fun s hs => hs.forward
  refine ⟨henough, fun hsettled => ⟨?_, henough⟩⟩
  apply Machine.meets_of_doomed
    (E := (lifecycleMachine loop addr loopThread).enabled)
    (I := TcpLifecycle.Alive loop addr) (B := TcpLifecycle.Doomed)
  · exact fun s step hs hstep halone =>
      TcpLifecycle.alive_step hs step hstep halone
  · exact fun s step s' hs hstep hnot hexec _ =>
      TcpLifecycle.alive_break hs step hstep hnot hexec
  · exact fun s step s' hs hforward hstep hexec =>
      TcpLifecycle.doomed_step hs hforward step hstep hexec
  · exact hstart
  · exact hlegal
  · exact fun t ht hforward hdoomed =>
      (hdoomed.2 hforward).2 (hsettled t ht)

instance (pc : CallPc) : Decidable (∃ call, pc = .loaded call) :=
  match pc with
  | .loaded call => isTrue ⟨call, rfl⟩
  | .idle => isFalse (by simp)
  | .stored _ => isFalse (by simp)

instance (pc : CallPc) : Decidable (∃ call, pc = .stored call) :=
  match pc with
  | .stored call => isTrue ⟨call, rfl⟩
  | .idle => isFalse (by simp)
  | .loaded _ => isFalse (by simp)

instance (loopThread : T) (s : TcpLifecycle I T) :
    Decidable (s.Free loopThread) :=
  inferInstanceAs (Decidable (s.pc = .idle ∧ s.calls loopThread = .idle))

instance [Fintype T] (s : TcpLifecycle I T) : Decidable s.UnderWay :=
  inferInstanceAs (Decidable ((∃ thread, (s.calls thread).ends = true) ∨
    .close ∈ s.functors.pending))

instance [Fintype T] (s : TcpLifecycle I T) : Decidable s.Settled :=
  inferInstanceAs (Decidable (¬ s.UnderWay ∧ s.pc ≠ .closeInLoop))

instance [Fintype T] (s : TcpLifecycle I T) (step : LifecycleStep T) :
    Decidable (s.ClosesAlone step) :=
  match step with
  | .loopStep => inferInstanceAs
      (Decidable (s.pc = .closeInLoop → ¬ s.UnderWay))
  | .onConnectEstablished | .load _ _ | .store _ | .runInLoop _ | .poll
  | .dispatch _ | .swapFunctors | .callFunctor | .returnFunctors =>
      isTrue trivial

instance [DecidableEq I] [DecidableEq T] (loop : Nat) (addr : I)
    (loopThread : T) (s : TcpLifecycle I T) (step : LifecycleStep T) :
    Decidable ((lifecycleMachine loop addr loopThread).enabled s step) :=
  match step with
  | .onConnectEstablished => inferInstanceAs
      (Decidable (s.Free loopThread ∧ s.established = false))
  | .load thread _ => inferInstanceAs
      (Decidable (s.pc ≠ .aborted ∧ s.calls thread = .idle ∧
        (thread = loopThread → s.Free loopThread)))
  | .store thread => inferInstanceAs
      (Decidable (s.pc ≠ .aborted ∧ ∃ call, s.calls thread = .loaded call))
  | .runInLoop thread => inferInstanceAs
      (Decidable (s.pc ≠ .aborted ∧ ∃ call, s.calls thread = .stored call))
  | .poll => inferInstanceAs
      (Decidable (s.Free loopThread ∧ s.running = false ∧ s.active = false ∧
        s.poller.interest s.conn.socket.fd ≠ none))
  | .dispatch _ => inferInstanceAs
      (Decidable (s.Free loopThread ∧ s.active = true))
  | .swapFunctors => inferInstanceAs
      (Decidable (s.Free loopThread ∧ s.running = false ∧ s.active = false))
  | .callFunctor => inferInstanceAs
      (Decidable (s.Free loopThread ∧ s.running = true ∧
        s.functors.batch ≠ []))
  | .returnFunctors => inferInstanceAs
      (Decidable (s.Free loopThread ∧ s.running = true ∧
        s.functors.batch = []))
  | .loopStep => inferInstanceAs
      (Decidable (s.pc ≠ .idle ∧ s.pc ≠ .aborted))

/-- Thread `false` shuts down, which a `close` of the loop thread `true` finds;
then the end of stream closes the connection. -/
theorem tcp_lifecycle_iff_shutdown :
    (lifecycleMachine 0 () true).Holds TcpLifecycle.Forward
      (.start .empty 7 false true true)
      [.onConnectEstablished, .load false .shutdown, .store false,
        .runInLoop false, .load true .close, .swapFunctors, .callFunctor,
        .returnFunctors, .poll, .dispatch .endOfStream, .loopStep, .loopStep,
        .loopStep, .load false .close, .swapFunctors] :=
  (tcp_lifecycle_iff true rfl rfl _ (by decide +kernel)).1 (by decide +kernel)

/-- Thread `false` has found `kConnected` when the peer closes; its store moves
the status back, and its functor closes the connection again. -/
def closeRace : List (LifecycleStep Bool) :=
  [.onConnectEstablished, .load false .close, .poll, .dispatch .endOfStream,
    .loopStep, .loopStep, .store false, .runInLoop false, .swapFunctors,
    .callFunctor, .loopStep]

theorem tcp_lifecycle_not_forward :
    (lifecycleMachine 0 () true).Legal (.start .empty 7 false true true)
        closeRace ∧
      ((lifecycleMachine 0 () true).run (.start .empty 7 false true true)
        closeRace).map (fun s => TcpLifecycle.disconnects s.trace) = some 2 ∧
      ¬(lifecycleMachine 0 () true).Holds TcpLifecycle.Forward
        (.start .empty 7 false true true) closeRace := by
  have hcalls : ((lifecycleMachine 0 () true).run
      (.start .empty 7 false true true) closeRace).map
        (fun s => TcpLifecycle.disconnects s.trace) = some 2 := by
    decide +kernel
  refine ⟨by decide +kernel, hcalls, Machine.not_holds_of_view hcalls ?_⟩
  intro t htwice hforward
  have honce := hforward.notified
  omega

end Libsaf
