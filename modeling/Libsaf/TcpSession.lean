/-
The established `saf::TcpConnection` on its loop, with everything that can
happen to it: messages, `close` and `shutdown` from any thread, the events of
the socket, and the functors of the loop.  Each step of this machine is one
action on the wire, so the properties of the wire hold over runs exactly as
long as the actions meet their conditions.
-/
import Libsaf.TcpLifecycle
import Libsaf.TcpOutput
import Libsaf.TcpWire

namespace Libsaf

universe u v

variable {I : Type u} {T : Type v}

/-- What the connection passes to its loop. -/
inductive SessionFunctor where
  | sendInLoop (copied : List UInt8)
  | writeComplete
  | endCall (call : EndCall)
deriving Repr, DecidableEq

def SessionFunctor.message : SessionFunctor → Option (List UInt8)
  | .sendInLoop copied => some copied
  | _ => none

/-- `active` says that the socket is in the current batch of the poller and was
not dispatched yet, `writable` that `handleEvent` has still to call
`onWriteInIOFd`. -/
structure TcpSession (I : Type u) (T : Type v) where
  wire : TcpWire I
  functors : FunctorQueue SessionFunctor
  running : Bool
  active : Bool
  writable : Bool
  pc : LoopPc
  calls : T → CallPc

/-- The callbacks run on the loop thread; what they do are steps of that
thread.  The result is what `write` returns if it is called. -/
inductive SessionStep (T : Type v) where
  | send (thread : T) (data : List UInt8) (result : WriteResult)
  | load (thread : T) (call : EndCall)
  | store (thread : T)
  | runInLoop (thread : T)
  | poll
  | dispatch (event : SocketEvent) (writable : Bool)
  | handleWrite (result : WriteResult)
  | swapFunctors
  | callFunctor (result : WriteResult)
  | returnFunctors
  | loopStep
deriving Repr, DecidableEq

namespace TcpSession

/-- The loop thread is inside no method of the connection. -/
def Free (loopThread : T) (s : TcpSession I T) : Prop :=
  s.pc = .idle ∧ s.calls loopThread = .idle

/-- A null pointer ends the process. -/
def after (s : TcpSession I T) (wire : TcpWire I) : TcpSession I T :=
  { s with wire := wire, pc := if wire.faulted then .aborted else s.pc }

/-- The body of a functor of `close` or `shutdown`. -/
def invoke (s : TcpSession I T) : EndCall → TcpSession I T
  | .close => { s with pc := .closeInLoop }
  | .shutdown => { s with wire := s.wire.shutdownInLoop }

variable [DecidableEq I]

/-- A new connection on the descriptor `fd`, established on its loop. -/
def start (loop : Nat) (addr : I) (poller : EPollPoller I) (fd : Int)
    (writeComplete connectChange close : Bool) : Option (TcpSession I T) :=
  ((TcpConnection.ofSocket fd writeComplete connectChange
    close).onConnectEstablishedInLoop loop addr poller).map
      fun (conn, poller) =>
        { wire :=
            { conn := conn
              poller := poller
              requested := false
              halfClosed := false
              closed := none
              faulted := false }
          functors := .empty
          running := false
          active := false
          writable := false
          pc := .idle
          calls := fun _ => .idle }

def sendInLoop (loop : Nat) (addr : I) (s : TcpSession I T)
    (data : List UInt8) (result : WriteResult) : TcpSession I T :=
  let (complete, wire) := s.wire.sendInLoop loop addr data result
  { s.after wire with
    functors :=
      if complete then s.functors.queueInLoop .writeComplete else s.functors }

/-- `Connection::send`. -/
def send [DecidableEq T] (loop : Nat) (addr : I) (loopThread : T)
    (s : TcpSession I T) (thread : T) (data : List UInt8)
    (result : WriteResult) : TcpSession I T :=
  if thread = loopThread then s.sendInLoop loop addr data result
  else { s with functors := s.functors.queueInLoop (.sendInLoop data) }

/-- The next functor of `runFunctors` is called. -/
def callFunctor (loop : Nat) (addr : I) (s : TcpSession I T)
    (result : WriteResult) : Option (TcpSession I T) :=
  s.functors.nextFunctor.map fun (functor, functors) =>
    let s := { s with functors := functors }
    match functor with
    | .sendInLoop copied => s.sendInLoop loop addr copied result
    | .writeComplete => s
    | .endCall call => s.invoke call

/-- The loop thread goes on inside `handleCloseInLoop`. -/
def loopStep (loop : Nat) (addr : I) (s : TcpSession I T) :
    Option (TcpSession I T) :=
  match s.pc with
  | .idle | .aborted => none
  | .assertConnected =>
      if s.wire.conn.status = .kConnected then
        some { s with pc := .closeInLoop }
      else some { s with pc := .assertDisconnecting }
  | .assertDisconnecting =>
      if s.wire.conn.status = .kDisconnecting then
        some { s with pc := .closeInLoop }
      else some { s with pc := .aborted }
  | .closeInLoop =>
      some ({ s with pc := .idle }.after (s.wire.closeInLoop loop addr))

/-- What a step does to the connection. -/
def action [DecidableEq T] (loopThread : T) (s : TcpSession I T) :
    SessionStep T → WireAction
  | .send thread data result =>
      if thread = loopThread then .sendInLoop data result else .none
  | .store _ => .changeStatus .kDisconnecting
  | .runInLoop thread =>
      if thread = loopThread ∧ s.calls thread = .stored .shutdown then
        .shutdownInLoop
      else .none
  | .handleWrite result => .handleWriteInLoop result
  | .callFunctor result =>
      match s.functors.batch with
      | .sendInLoop copied :: _ => .sendInLoop copied result
      | .endCall .shutdown :: _ => .shutdownInLoop
      | _ => .none
  | .loopStep => if s.pc = .closeInLoop then .closeInLoop else .none
  | _ => .none

end TcpSession

/-- Events of the socket are only found while it is in the kernel set, batches
are dispatched before functors run, and the kernel writes at most what it is
given. -/
def sessionMachine [DecidableEq I] [DecidableEq T] (loop : Nat) (addr : I)
    (loopThread : T) : Machine (TcpSession I T) (SessionStep T) where
  enabled s
    | .send thread data result => s.pc ≠ .aborted ∧
        (thread = loopThread → s.Free loopThread) ∧ result.Fits data.length
    | .load thread _ => s.pc ≠ .aborted ∧ s.calls thread = .idle ∧
        (thread = loopThread → s.Free loopThread)
    | .store thread => s.pc ≠ .aborted ∧ ∃ call, s.calls thread = .loaded call
    | .runInLoop thread =>
        s.pc ≠ .aborted ∧ ∃ call, s.calls thread = .stored call
    | .poll => s.Free loopThread ∧ s.running = false ∧ s.active = false ∧
        s.writable = false ∧
        s.wire.poller.interest s.wire.conn.socket.fd ≠ none
    | .dispatch _ _ => s.Free loopThread ∧ s.active = true
    | .handleWrite result => s.Free loopThread ∧ s.writable = true ∧
        result.Fits s.wire.conn.outputBuffer.readableBytes
    | .swapFunctors => s.Free loopThread ∧ s.running = false ∧
        s.active = false ∧ s.writable = false
    | .callFunctor result => s.Free loopThread ∧ s.running = true ∧
        s.functors.batch ≠ [] ∧
        ∀ m ∈ s.functors.batch.head?.bind SessionFunctor.message,
          result.Fits m.length
    | .returnFunctors =>
        s.Free loopThread ∧ s.running = true ∧ s.functors.batch = []
    | .loopStep => s.pc ≠ .idle ∧ s.pc ≠ .aborted
  exec s
    | .send thread data result =>
        some (s.send loop addr loopThread thread data result)
    | .load thread call => some { s with
        calls := Function.update s.calls thread
          (if s.wire.conn.status ≠ .kConnected then .idle else .loaded call) }
    | .store thread =>
        match s.calls thread with
        | .loaded call => some { s with
            wire := { s.wire with
              conn := s.wire.conn.changeStatus .kDisconnecting }
            calls := Function.update s.calls thread (.stored call) }
        | _ => none
    | .runInLoop thread =>
        match s.calls thread with
        | .stored call =>
            let s := { s with calls := Function.update s.calls thread .idle }
            if thread = loopThread then some (s.invoke call)
            else some { s with
              functors := s.functors.queueInLoop (.endCall call) }
        | _ => none
    | .poll => some { s with active := true }
    | .dispatch event writable => some { s with
        active := false
        writable := if event = .hangUp then false else writable
        pc := if event = .other then .idle else .assertConnected }
    | .handleWrite result => some { s.after
        (s.wire.handleWriteInLoop loop addr result).2 with writable := false }
    | .swapFunctors => some { s with
        functors := s.functors.swapFunctors
        running := true }
    | .callFunctor result => s.callFunctor loop addr result
    | .returnFunctors => some { s with running := false }
    | .loopStep => s.loopStep loop addr

namespace TcpSession

variable [DecidableEq I] [DecidableEq T] {loop : Nat} {addr : I}
  {loopThread : T} {s : TcpSession I T}

omit [DecidableEq T] in
theorem sendInLoop_wire (data : List UInt8) (result : WriteResult) :
    (s.sendInLoop loop addr data result).wire =
      s.wire.apply loop addr (.sendInLoop data result) := rfl

omit [DecidableEq T] in
theorem loopStep_wire (hpc : s.pc ≠ .idle) (habort : s.pc ≠ .aborted) :
    ∃ s', s.loopStep loop addr = some s' ∧
      s'.wire = s.wire.apply loop addr
        (if s.pc = .closeInLoop then .closeInLoop else .none) := by
  unfold loopStep
  cases hwhere : s.pc with
  | idle => exact absurd hwhere hpc
  | aborted => exact absurd hwhere habort
  | assertConnected =>
      by_cases hstatus : s.wire.conn.status = .kConnected
      · exact ⟨_, if_pos hstatus, rfl⟩
      · exact ⟨_, if_neg hstatus, rfl⟩
  | assertDisconnecting =>
      by_cases hstatus : s.wire.conn.status = .kDisconnecting
      · exact ⟨_, if_pos hstatus, rfl⟩
      · exact ⟨_, if_neg hstatus, rfl⟩
  | closeInLoop => exact ⟨_, rfl, rfl⟩

/-- A step that may be taken is one action on the wire, which it fits. -/
theorem action_step (s : TcpSession I T) (step : SessionStep T)
    (hstep : (sessionMachine loop addr loopThread).enabled s step) :
    s.wire.Fits (s.action loopThread step) ∧
      ∃ s', (sessionMachine loop addr loopThread).exec s step = some s' ∧
        s'.wire = s.wire.apply loop addr (s.action loopThread step) := by
  cases step with
  | send thread data result =>
      obtain ⟨_, _, hfits⟩ := hstep
      by_cases hthread : thread = loopThread
      · refine ⟨by rw [action, if_pos hthread]; exact hfits, _, rfl, ?_⟩
        rw [action, if_pos hthread, send, if_pos hthread]
        exact sendInLoop_wire data result
      · refine ⟨by rw [action, if_neg hthread]; trivial, _, rfl, ?_⟩
        rw [action, if_neg hthread, send, if_neg hthread]
        rfl
  | load thread call => exact ⟨trivial, _, rfl, rfl⟩
  | store thread =>
      obtain ⟨_, call, hcall⟩ := hstep
      exact ⟨trivial, _, by simp only [sessionMachine, hcall]; rfl, rfl⟩
  | runInLoop thread =>
      obtain ⟨_, call, hcall⟩ := hstep
      by_cases hthread : thread = loopThread
      · refine ⟨?_, { s with
          calls := Function.update s.calls thread .idle }.invoke call,
          by simp only [sessionMachine, hcall, if_pos hthread], ?_⟩
        · cases call <;>
            simp [action, hthread ▸ hcall, hthread, TcpWire.Fits]
        · cases call <;> simp [action, hthread ▸ hcall, hthread] <;> rfl
      · refine ⟨by simp [action, hthread, TcpWire.Fits], { s with
          calls := Function.update s.calls thread .idle
          functors := s.functors.queueInLoop (.endCall call) },
          by simp only [sessionMachine, hcall, if_neg hthread], ?_⟩
        simp [action, hthread, TcpWire.apply]
  | poll => exact ⟨trivial, _, rfl, rfl⟩
  | dispatch event writable => exact ⟨trivial, _, rfl, rfl⟩
  | handleWrite result => exact ⟨hstep.2.2, _, rfl, rfl⟩
  | swapFunctors => exact ⟨trivial, _, rfl, rfl⟩
  | callFunctor result =>
      obtain ⟨_, _, hbatch, hfits⟩ := hstep
      obtain ⟨functor, rest, hcons⟩ := List.exists_cons_of_ne_nil hbatch
      rw [hcons] at hfits
      simp only [sessionMachine, callFunctor, FunctorQueue.nextFunctor, hcons,
        action]
      cases functor with
      | sendInLoop copied => exact ⟨hfits copied rfl, _, rfl, rfl⟩
      | writeComplete => exact ⟨trivial, _, rfl, rfl⟩
      | endCall call =>
          cases call with
          | close => exact ⟨trivial, _, rfl, rfl⟩
          | shutdown => exact ⟨trivial, _, rfl, rfl⟩
  | returnFunctors => exact ⟨trivial, _, rfl, rfl⟩
  | loopStep =>
      refine ⟨?_, loopStep_wire hstep.1 hstep.2⟩
      rw [action]
      split <;> trivial

omit [DecidableEq T] in
/-- An established connection has nothing to write, on a poller that did not
know its descriptor. -/
theorem start_spec {poller : EPollPoller I} {fd : Int}
    {writeComplete connectChange close : Bool} (hfds : poller.fds fd = none)
    (hinterest : poller.interest fd = none)
    (hs : start loop addr poller fd writeComplete connectChange close =
      some s) :
    s.wire.Open loop addr ∧ s.wire.conn.outputBuffer.readableBytes = 0 ∧
      s.wire.requested = false := by
  have hwired : poller.Wired loop addr (IOFd.ofFd fd) := by
    constructor <;> simp [IOFd.ofFd, hfds, hinterest]
  obtain ⟨socket, p', hrun, hattached, _, hwriting⟩ :=
    TcpConnection.onConnectEstablishedInLoop_spec
      (c := TcpConnection.ofSocket fd writeComplete connectChange close) hwired
  rw [start, hrun, Option.map_some, Option.some.injEq] at hs
  rw [← hs]
  have hoff : socket.isWriting = false := by
    rw [hwriting]
    simp [TcpConnection.ofSocket, IOFd.ofFd, IOFd.isWriting]
  refine ⟨⟨rfl, hattached, rfl, fun hon => ?_⟩, rfl, rfl⟩
  exact absurd (hoff.symm.trans hon) (by decide)

/-- A property of the wire holds over a run exactly when its condition is met
by all steps. -/
theorem holds_wire_iff {P : TcpWire I → Prop}
    {G : TcpWire I → WireAction → Prop}
    (hiff : ∀ (w : TcpWire I) (a : WireAction), w.Sound loop addr → P w →
      w.Fits a → (P (w.apply loop addr a) ↔ G w a))
    (hs : s.wire.Sound loop addr) (hP : P s.wire) {word : List (SessionStep T)}
    (hlegal : (sessionMachine loop addr loopThread).Legal s word) :
    (sessionMachine loop addr loopThread).Holds (fun s => P s.wire) s word ↔
      (sessionMachine loop addr loopThread).Meets
        (fun s step => G s.wire (s.action loopThread step)) s word := by
  apply Machine.holds_iff_view (J := TcpWire.Sound loop addr) action_step
  · exact fun w a hw hfits => hw.apply hfits
  · exact hiff
  · exact hs
  · exact hP
  · exact hlegal

end TcpSession

instance (w : TcpWire I) (action : WireAction) : Decidable (w.Takes action) :=
  match action with
  | .handleWriteInLoop (.wrote (n + 1)) => isTrue fun _ => ⟨n, rfl⟩
  | .handleWriteInLoop (.wrote 0) => decidable_of_iff
      (¬w.conn.socket.isWriting = true) (by simp [TcpWire.Takes])
  | .handleWriteInLoop (.failed _) => decidable_of_iff
      (¬w.conn.socket.isWriting = true) (by simp [TcpWire.Takes])
  | .none | .changeStatus _ | .sendInLoop _ _ | .shutdownInLoop
  | .closeInLoop => isTrue trivial

instance (w : TcpWire I) (action : WireAction) :
    Decidable (w.Spares action) :=
  match action with
  | .handleWriteInLoop result => inferInstanceAs
      (Decidable (w.conn.socket.isWriting = true →
        result = .wrote w.conn.outputBuffer.readableBytes →
        w.requested = true → w.halfClosed = true))
  | .none | .changeStatus _ | .sendInLoop _ _ | .shutdownInLoop
  | .closeInLoop => isTrue trivial

instance (w : TcpWire I) (action : WireAction) :
    Decidable (w.Refuses action) :=
  match action with
  | .sendInLoop data result => inferInstanceAs
      (Decidable (w.closed ≠ none → data = [] ∨
        w.conn.outputBuffer.readableBytes = 0 ∧ ¬result.Alive))
  | .none | .changeStatus _ | .handleWriteInLoop _ | .shutdownInLoop
  | .closeInLoop => isTrue trivial

instance (loopThread : T) (s : TcpSession I T) :
    Decidable (s.Free loopThread) :=
  inferInstanceAs (Decidable (s.pc = .idle ∧ s.calls loopThread = .idle))

instance [DecidableEq I] [DecidableEq T] (loop : Nat) (addr : I)
    (loopThread : T) (s : TcpSession I T) (step : SessionStep T) :
    Decidable ((sessionMachine loop addr loopThread).enabled s step) :=
  match step with
  | .send thread data result => inferInstanceAs
      (Decidable (s.pc ≠ .aborted ∧ (thread = loopThread → s.Free loopThread) ∧
        result.Fits data.length))
  | .load thread _ => inferInstanceAs
      (Decidable (s.pc ≠ .aborted ∧ s.calls thread = .idle ∧
        (thread = loopThread → s.Free loopThread)))
  | .store thread => inferInstanceAs
      (Decidable (s.pc ≠ .aborted ∧ ∃ call, s.calls thread = .loaded call))
  | .runInLoop thread => inferInstanceAs
      (Decidable (s.pc ≠ .aborted ∧ ∃ call, s.calls thread = .stored call))
  | .poll => inferInstanceAs
      (Decidable (s.Free loopThread ∧ s.running = false ∧ s.active = false ∧
        s.writable = false ∧
        s.wire.poller.interest s.wire.conn.socket.fd ≠ none))
  | .dispatch _ _ => inferInstanceAs
      (Decidable (s.Free loopThread ∧ s.active = true))
  | .handleWrite result => inferInstanceAs
      (Decidable (s.Free loopThread ∧ s.writable = true ∧
        result.Fits s.wire.conn.outputBuffer.readableBytes))
  | .swapFunctors => inferInstanceAs
      (Decidable (s.Free loopThread ∧ s.running = false ∧
        s.active = false ∧ s.writable = false))
  | .callFunctor result => inferInstanceAs
      (Decidable (s.Free loopThread ∧ s.running = true ∧
        s.functors.batch ≠ [] ∧
        ∀ m ∈ s.functors.batch.head?.bind SessionFunctor.message,
          result.Fits m.length))
  | .returnFunctors => inferInstanceAs
      (Decidable (s.Free loopThread ∧ s.running = true ∧
        s.functors.batch = []))
  | .loopStep => inferInstanceAs (Decidable (s.pc ≠ .idle ∧ s.pc ≠ .aborted))

/-- Pending output.  Over every run of a connection, whatever is sent and
whatever the kernel answers, output that waits on an open connection is watched
for in every state exactly as long as every write of a writable event takes
something. -/
theorem tcp_flow_iff [DecidableEq I] [DecidableEq T] {loop : Nat} {addr : I}
    (loopThread : T) {poller : EPollPoller I} {fd : Int}
    {writeComplete connectChange close : Bool} (hfds : poller.fds fd = none)
    (hinterest : poller.interest fd = none) {s : TcpSession I T}
    (hs : TcpSession.start loop addr poller fd writeComplete connectChange
      close = some s)
    (word : List (SessionStep T))
    (hlegal : (sessionMachine loop addr loopThread).Legal s word) :
    (sessionMachine loop addr loopThread).Holds (fun s => s.wire.Flows) s
        word ↔
      (sessionMachine loop addr loopThread).Meets
        (fun s step => s.wire.Takes (s.action loopThread step)) s word := by
  obtain ⟨hopen, hempty, _⟩ := TcpSession.start_spec hfds hinterest hs
  apply TcpSession.holds_wire_iff
  · exact fun w a hw hflows hfits => hw.flows_iff hflows hfits
  · exact Or.inl hopen
  · exact fun _ hpending => absurd hempty hpending
  · exact hlegal

/-- The first write stops short, the next one takes the rest. -/
theorem tcp_flow_iff_short :
    (sessionMachine 0 () true).Holds (fun s => s.wire.Flows)
      ((TcpSession.start 0 () .empty 7 false false false).get rfl)
      [.send true [1, 2] (.wrote 1), .poll, .dispatch .other true,
        .handleWrite (.wrote 1)] :=
  (tcp_flow_iff true rfl rfl (Option.some_get _).symm _
    (by decide +kernel)).mpr (by decide +kernel)

/-- The first write stops short, and the write of the writable event answers
`EAGAIN`: one byte waits, and nobody watches for it. -/
def stallRun : List (SessionStep Bool) :=
  [.send true [1, 2] (.wrote 1), .poll, .dispatch .other true,
    .handleWrite (.failed EWOULDBLOCK)]

theorem tcp_flow_not_again :
    (sessionMachine 0 () true).Legal
        ((TcpSession.start 0 () .empty 7 false false false).get rfl)
        stallRun ∧
      ¬(sessionMachine 0 () true).Holds (fun s => s.wire.Flows)
        ((TcpSession.start 0 () .empty 7 false false false).get rfl)
        stallRun := by
  have hlast : ((sessionMachine 0 () true).run
      ((TcpSession.start 0 () .empty 7 false false false).get rfl)
      stallRun).map (fun s => decide (s.wire.closed = none ∧
        s.wire.conn.outputBuffer.readableBytes ≠ 0 ∧
        s.wire.conn.socket.isWriting = false)) = some true := by
    decide +kernel
  refine ⟨by decide +kernel, Machine.not_holds_of_view hlast ?_⟩
  intro t ht hflows
  obtain ⟨hclosed, hpending, hoff⟩ := of_decide_eq_true ht
  exact absurd (hoff.symm.trans (hflows hclosed hpending)) (by decide)

/-- Graceful shutdown.  In every state a connection that was told to shut down,
is not closed, and has nothing left to write was shut down, exactly as long as
no writable event takes the last bytes that waited when it was told. -/
theorem tcp_halfClose_iff [DecidableEq I] [DecidableEq T] {loop : Nat}
    {addr : I} (loopThread : T) {poller : EPollPoller I} {fd : Int}
    {writeComplete connectChange close : Bool} (hfds : poller.fds fd = none)
    (hinterest : poller.interest fd = none) {s : TcpSession I T}
    (hs : TcpSession.start loop addr poller fd writeComplete connectChange
      close = some s)
    (word : List (SessionStep T))
    (hlegal : (sessionMachine loop addr loopThread).Legal s word) :
    (sessionMachine loop addr loopThread).Holds (fun s => s.wire.HalfCloses) s
        word ↔
      (sessionMachine loop addr loopThread).Meets
        (fun s step => s.wire.Spares (s.action loopThread step)) s word := by
  obtain ⟨hopen, _, hrequested⟩ := TcpSession.start_spec hfds hinterest hs
  apply TcpSession.holds_wire_iff
  · exact fun w a hw hhalf hfits => hw.halfCloses_iff hhalf hfits
  · exact Or.inl hopen
  · exact fun hrequested' =>
      absurd (hrequested.symm.trans hrequested') (by decide)
  · exact hlegal

/-- Nothing waits when `shutdown` is called. -/
theorem tcp_halfClose_iff_empty :
    (sessionMachine 0 () true).Holds (fun s => s.wire.HalfCloses)
      ((TcpSession.start 0 () .empty 7 false false false).get rfl)
      [.send true [1, 2] (.wrote 2), .load true .shutdown, .store true,
        .runInLoop true, .send false [3] (.wrote 0), .swapFunctors,
        .callFunctor (.wrote 0), .returnFunctors, .poll, .dispatch .other true,
        .handleWrite (.wrote 1)] :=
  (tcp_halfClose_iff true rfl rfl (Option.some_get _).symm _
    (by decide +kernel)).mpr (by decide +kernel)

/-- One byte waits when `shutdown` is called; it is written, and the socket
stays open. -/
def lateDrain : List (SessionStep Bool) :=
  [.send true [1, 2] (.wrote 1), .load true .shutdown, .store true,
    .runInLoop true, .poll, .dispatch .other true, .handleWrite (.wrote 1)]

theorem tcp_halfClose_not_late :
    (sessionMachine 0 () true).Legal
        ((TcpSession.start 0 () .empty 7 false false false).get rfl)
        lateDrain ∧
      ¬(sessionMachine 0 () true).Holds (fun s => s.wire.HalfCloses)
        ((TcpSession.start 0 () .empty 7 false false false).get rfl)
        lateDrain := by
  have hlast : ((sessionMachine 0 () true).run
      ((TcpSession.start 0 () .empty 7 false false false).get rfl)
      lateDrain).map (fun s => decide ((s.wire.requested = true ∧
        s.wire.closed = none) ∧ (s.wire.conn.outputBuffer.readableBytes = 0 ∧
        s.wire.conn.socket.isWriting = false) ∧
        s.wire.halfClosed = false)) = some true := by
    decide +kernel
  refine ⟨by decide +kernel, Machine.not_holds_of_view hlast ?_⟩
  intro t ht hhalf
  obtain ⟨⟨hrequested, hclosed⟩, ⟨hempty, hoff⟩, hnot⟩ := of_decide_eq_true ht
  exact absurd (hnot.symm.trans (hhalf hrequested hclosed hempty hoff))
    (by decide)

/-- Sends after the close.  Nothing is written to the socket of a closed
connection, nothing is watched for, and its null pointer is not used, exactly
as long as every message that is sent after the close is refused. -/
theorem tcp_silent_iff [DecidableEq I] [DecidableEq T] {loop : Nat} {addr : I}
    (loopThread : T) {poller : EPollPoller I} {fd : Int}
    {writeComplete connectChange close : Bool} (hfds : poller.fds fd = none)
    (hinterest : poller.interest fd = none) {s : TcpSession I T}
    (hs : TcpSession.start loop addr poller fd writeComplete connectChange
      close = some s)
    (word : List (SessionStep T))
    (hlegal : (sessionMachine loop addr loopThread).Legal s word) :
    (sessionMachine loop addr loopThread).Holds (fun s => s.wire.Silent) s
        word ↔
      (sessionMachine loop addr loopThread).Meets
        (fun s step => s.wire.Refuses (s.action loopThread step)) s word := by
  obtain ⟨hopen, _, _⟩ := TcpSession.start_spec hfds hinterest hs
  apply TcpSession.holds_wire_iff
  · exact fun w a hw hsilent hfits => hw.silent_iff hsilent hfits
  · exact Or.inl hopen
  · exact ⟨hopen.faulted, by simp [hopen.closed]⟩
  · exact hlegal

/-- The peer resets the connection, which is closed; a message that another
thread has queued is sent, and the kernel refuses it. -/
theorem tcp_silent_iff_reset :
    (sessionMachine 0 () true).Holds (fun s => s.wire.Silent)
      ((TcpSession.start 0 () .empty 7 false false true).get rfl)
      [.send false [1, 2] (.wrote 0), .poll, .dispatch .hangUp false, .loopStep,
        .loopStep, .swapFunctors, .callFunctor (.failed EPIPE)] :=
  (tcp_silent_iff true rfl rfl (Option.some_get _).symm _
    (by decide +kernel)).mpr (by decide +kernel)

/-- The end of stream overtakes a message that another thread has queued; the
message is written short, and its rest uses the null pointer. -/
def lateSend : List (SessionStep Bool) :=
  [.send false [1, 2] (.wrote 0), .poll, .dispatch .endOfStream false,
    .loopStep, .loopStep, .swapFunctors, .callFunctor (.wrote 1)]

theorem tcp_silent_not_late :
    (sessionMachine 0 () true).Legal
        ((TcpSession.start 0 () .empty 7 false false true).get rfl)
        lateSend ∧
      ¬(sessionMachine 0 () true).Holds (fun s => s.wire.Silent)
        ((TcpSession.start 0 () .empty 7 false false true).get rfl)
        lateSend := by
  have hlast : ((sessionMachine 0 () true).run
      ((TcpSession.start 0 () .empty 7 false false true).get rfl)
      lateSend).map (fun s => s.wire.faulted) = some true := by
    decide +kernel
  refine ⟨by decide +kernel, Machine.not_holds_of_view hlast ?_⟩
  intro t hfaulted hsilent
  exact absurd (hsilent.1.symm.trans hfaulted) (by decide)

end Libsaf
