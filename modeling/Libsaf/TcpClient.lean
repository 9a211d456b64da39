/-
`saf::TcpClient` with its `TcpConnector` and the connections they make.  Any
thread may call `connect` and `disconnect`, which act on the atomic
`_connecting` and then on the loop; the loop calls functors, lets timers
expire, and dispatches the events of the connecting socket.
-/
import Libsaf.EventLoop
import Libsaf.TcpConnection
import Libsaf.TcpConnector

namespace Libsaf

universe u v

variable {A : Type u} {T : Type v}

/-- What is queued on the loop.  A functor of `disconnect` is known by the
number of calls of `connect` before it, and `onRetryInLoop` by the epoch of the
failure. -/
inductive ClientTask (A : Type u) where
  | connect (addr : A)
  | disconnect (called : Nat)
  | reconnect
  | onRetryInLoop (failure : Nat)
deriving Repr, DecidableEq

/-- Where a thread is in `connect` or `disconnect`: it has found `_connecting`
unset, or it has stored it. -/
inductive ClientPc (A : Type u) where
  | idle
  | loaded (addr : A)
  | connecting (addr : A)
  | disconnecting (called : Nat)
deriving Repr, DecidableEq

/-- Calls on the stack of the loop's thread that wait for the application to
return from the connect change callback: `closeInLoop` of a connection, or
`close` in the functor of `disconnect`. -/
inductive CallbackFrame where
  | closeInLoop (c : Nat)
  | disconnect
deriving Repr, DecidableEq

/-- An attempt, with whether a connection was open, and a new connection, with
what was found in `_connection`; `finished` says whether the functor of a
`disconnect` had run and `connect` was not called since that `disconnect`. -/
inductive ClientEvent where
  | attempt (opened finished : Bool)
  | newConnection (found : Option Nat) (finished : Bool)
deriving Repr, DecidableEq

/-- The connection was established and is not closed. -/
def TcpStatus.isOpen (status : TcpStatus) : Bool :=
  status = .kConnected ∨ status = .kDisconnecting

/-- Connections are numbered.  `report` is the next call of `handleEvent` for
the connecting socket, `frames` the stack of the loop's thread, and an assertion
that fails makes the program `aborted`.  `connects` counts the calls of
`connect`, and `disconnects` is for the functors of `disconnect` that ran. -/
structure TcpClient (A : Type u) (T : Type v) where
  reconnectDelay : Int
  addr : A
  connecting : Bool
  connection : Option Nat
  connector : TcpConnector A
  made : Nat
  status : Nat → TcpStatus
  closeCallback : Nat → Bool
  functors : FunctorQueue (ClientTask A)
  running : Bool
  report : Option (BitVec 32 × IOReport)
  frames : List CallbackFrame
  calls : T → ClientPc A
  aborted : Bool
  connects : Nat
  disconnects : List Nat
  log : List ClientEvent

/-- `errno` is what a connect leaves if the step makes one. -/
inductive TcpClientStep (A : Type u) (T : Type v) where
  | setReconnectDelay (delay : Int)
  | connect (thread : T) (addr : A)
  | store (thread : T)
  | disconnect (thread : T)
  | runInLoop (thread : T) (errno : Int)
  | swapFunctors
  | callFunctor (errno : Int)
  | returnFunctors
  | fireTimer (i : Nat) (errno : Int)
  | socketError (error : Int)
  | poll (revents : BitVec 32)
  | handleReport
  | endCall (c : Nat)
  | closeInLoop (c : Nat)
  | returnCallback
deriving Repr, DecidableEq

namespace TcpClient

def start (addr : A) : TcpClient A T :=
  { reconnectDelay := 0
    addr := addr
    connecting := false
    connection := none
    connector := .start addr
    made := 0
    status := fun _ => .kConnecting
    closeCallback := fun _ => false
    functors := .empty
    running := false
    report := none
    frames := []
    calls := fun _ => .idle
    aborted := false
    connects := 0
    disconnects := []
    log := [] }

/-- There is a connection, and it is open. -/
def isOpen (s : TcpClient A T) : Bool :=
  s.connection.any fun c => (s.status c).isOpen

/-- The functor of a `disconnect` ran, and no `connect` was called after that
`disconnect`. -/
def isFinished (s : TcpClient A T) : Bool :=
  s.connects ∈ s.disconnects

/-- `TcpConnector::connectInLoop`; the log shows whether it makes an
attempt. -/
def connectInLoop (s : TcpClient A T) (errno : Int) : TcpClient A T :=
  { s with
    connector := s.connector.connectInLoop s.reconnectDelay errno
    log := if s.connector.stopping then s.log
      else s.log ++ [.attempt s.isOpen s.isFinished] }

/-- The functor of `connect`. -/
def connectFunctor (s : TcpClient A T) (addr : A) (errno : Int) :
    TcpClient A T :=
  { s with
    addr := addr
    connector := { s.connector with
      connectedCallback := true
      addr := addr
      stopping := false } }.connectInLoop errno

/-- The functor of `disconnect`.  Without its close callback a connection that
is closed only calls the application. -/
def disconnectFunctor (s : TcpClient A T) (called : Nat) : TcpClient A T :=
  let s := { s with
    connector := s.connector.disconnect
    disconnects := s.disconnects ++ [called] }
  match s.connection with
  | none => s
  | some c =>
      let s := { s with
        closeCallback := Function.update s.closeCallback c false }
      if s.status c = .kConnected then
        { s with
          status := Function.update s.status c .kDisconnected
          frames := .disconnect :: s.frames }
      else { s with connection := none }

/-- A new connection is established at once. -/
def newConnectionInLoop (s : TcpClient A T) : TcpClient A T :=
  { s with
    connection := some s.made
    connector := { s.connector with
      socket := none
      epoch := s.connector.epoch + 1 }
    made := s.made + 1
    status := Function.update s.status s.made .kConnected
    closeCallback := Function.update s.closeCallback s.made true
    log := s.log ++ [.newConnection s.connection s.isFinished] }

def queueInLoop (s : TcpClient A T) (task : ClientTask A) : TcpClient A T :=
  { s with functors := s.functors.queueInLoop task }

/-- `onClosedInConnection` asserts in `removeConnectionInLoop` that the
connection is that of the client. -/
def onClosedInConnection (s : TcpClient A T) (c : Nat) : TcpClient A T :=
  if s.connection = some c then
    let s := { s with
      closeCallback := Function.update s.closeCallback c false
      connection := none }
    if s.connecting ∧ 0 < s.reconnectDelay then s.queueInLoop .reconnect else s
  else { s with aborted := true }

/-- The application returns from the connect change callback. -/
def returnCallback (s : TcpClient A T) : Option (TcpClient A T) :=
  match s.frames with
  | [] => none
  | .closeInLoop c :: rest =>
      let s := { s with frames := rest }
      some (if s.closeCallback c then s.onClosedInConnection c else s)
  | .disconnect :: rest => some { s with frames := rest, connection := none }

/-- A method of the connector that `handleEvent` calls.  The socket must not be
destroyed there: `~IOFd` asserts that it is not being handled. -/
def handle (s : TcpClient A T) : IOReport → TcpClient A T
  | .close =>
      if s.connector.handleCloseInLoop then
        s.queueInLoop (.onRetryInLoop s.connector.epoch)
      else s
  | .error =>
      let (queues, connector) := s.connector.handleErrorInLoop
      let s := { s with connector := connector }
      if queues then s.queueInLoop (.onRetryInLoop s.connector.epoch) else s
  | .read => s
  | .write =>
      let (isConnected, connector) :=
        s.connector.handleWriteInLoop s.reconnectDelay
      if connector.socket.isNone then { s with aborted := true }
      else
        let s := { s with connector := connector }
        if isConnected then s.newConnectionInLoop else s

/-- The next report of the dispatch that is under way; a null `_socket` would
be a fault. -/
def handleReport (s : TcpClient A T) : Option (TcpClient A T) :=
  s.report.bind fun (revents, report) =>
    if s.connector.socket.isSome then
      some { s.handle report with
        report := (nextReport revents (some report)).map (revents, ·) }
    else none

variable [DecidableEq T]

/-- `connect` returns if it finds `_connecting` set. -/
def load (s : TcpClient A T) (thread : T) (addr : A) : TcpClient A T :=
  if s.connecting then s
  else { s with calls := Function.update s.calls thread (.loaded addr) }

def callTask (loop : T) (s : TcpClient A T) (errno : Int) :
    ClientTask A → TcpClient A T
  | .connect addr => s.connectFunctor addr errno
  | .disconnect called => s.disconnectFunctor called
  | .reconnect => s.load loop s.addr
  | .onRetryInLoop failure => { s with
      connector := s.connector.onRetryInLoop s.reconnectDelay failure }

/-- The functor of a call is called at once on the thread of the loop. -/
def runInLoop (loop : T) (s : TcpClient A T) (thread : T) (errno : Int)
    (task : ClientTask A) : TcpClient A T :=
  let s := { s with calls := Function.update s.calls thread .idle }
  if thread = loop then s.callTask loop errno task else s.queueInLoop task

/-- The thread of the loop may call the client; it is in no handler of the
connecting socket. -/
def Callable (loop : T) (s : TcpClient A T) : Prop :=
  s.calls loop = .idle ∧ s.report = none

/-- The thread of the loop is in no call of the application. -/
def Free (loop : T) (s : TcpClient A T) : Prop :=
  s.Callable loop ∧ s.frames = []

end TcpClient

/-- The functor that a thread is about to pass to the loop. -/
def ClientPc.task : ClientPc A → Option (ClientTask A)
  | .connecting addr => some (.connect addr)
  | .disconnecting called => some (.disconnect called)
  | .idle | .loaded _ => none

def ClientPc.isLoaded : ClientPc A → Bool
  | .loaded _ => true
  | .idle | .connecting _ | .disconnecting _ => false

def ClientTask.isConnect : ClientTask A → Bool
  | .connect _ => true
  | .disconnect _ | .reconnect | .onRetryInLoop _ => false

/-- A thread makes one call at a time, and the loop does one thing at a time.
An open connection may close whenever the loop is free. -/
def tcpClientMachine (A : Type u) [DecidableEq T] (loop : T) :
    Machine (TcpClient A T) (TcpClientStep A T) where
  enabled s step := s.aborted = false ∧ match step with
    | .setReconnectDelay _ | .socketError _ => True
    | .connect thread _ | .disconnect thread => s.calls thread = .idle ∧
        (thread = loop → s.Callable loop)
    | .store thread => (s.calls thread).isLoaded = true
    | .runInLoop thread _ => (s.calls thread).task.isSome = true
    | .swapFunctors => s.Free loop ∧ s.running = false
    | .callFunctor _ => s.Free loop ∧ s.running = true ∧
        s.functors.batch ≠ []
    | .returnFunctors => s.Free loop ∧ s.running = true ∧
        s.functors.batch = []
    | .fireTimer i _ => s.Free loop ∧ s.running = false ∧
        i < s.connector.timers.length
    | .poll _ => s.Free loop ∧ s.running = false ∧
        s.connector.socket.map ConnectingSocket.attached = some true
    | .handleReport => s.report.isSome = true
    | .endCall c => s.status c = .kConnected
    | .closeInLoop c => s.Free loop ∧ (s.status c).isOpen = true
    | .returnCallback => s.Callable loop ∧ s.frames ≠ []
  exec s
    | .setReconnectDelay delay => some { s with reconnectDelay := delay }
    | .connect thread addr => some
        ({ s with connects := s.connects + 1 }.load thread addr)
    | .store thread =>
        match s.calls thread with
        | .loaded addr => some { s with
            connecting := true
            calls := Function.update s.calls thread (.connecting addr) }
        | .idle | .connecting _ | .disconnecting _ => none
    | .disconnect thread => some { s with
        connecting := false
        calls := Function.update s.calls thread (.disconnecting s.connects) }
    | .runInLoop thread errno => (s.calls thread).task.map fun task =>
        s.runInLoop loop thread errno task
    | .swapFunctors => some { s with
        functors := s.functors.swapFunctors
        running := true }
    | .callFunctor errno => s.functors.nextFunctor.map fun (task, functors) =>
        { s with functors := functors }.callTask loop errno task
    | .returnFunctors => some { s with running := false }
    | .fireTimer i errno => some ({ s with
        connector := { s.connector with
          timers := s.connector.timers.eraseIdx i } }.connectInLoop errno)
    | .socketError error => some { s with
        connector := { s.connector with
          socket := s.connector.socket.map fun socket =>
            { socket with error := error } } }
    | .poll revents => some { s with
        report := (nextReport revents none).map (revents, ·) }
    | .handleReport => s.handleReport
    | .endCall c => some { s with
        status := Function.update s.status c .kDisconnecting }
    | .closeInLoop c => some { s with
        status := Function.update s.status c .kDisconnected
        frames := .closeInLoop c :: s.frames }
    | .returnCallback => s.returnCallback

/-- The step calls a functor of this kind on the loop. -/
def TcpClient.callsFunctor [DecidableEq T] (loop : T)
    (kind : ClientTask A → Bool) (s : TcpClient A T) :
    TcpClientStep A T → Bool
  | .callFunctor _ => s.functors.batch.head?.any kind
  | .runInLoop thread _ => thread = loop ∧ (s.calls thread).task.any kind
  | _ => false

instance [DecidableEq A] [DecidableEq T] (loop : T) (s : TcpClient A T) :
    Decidable (s.Callable loop) :=
  inferInstanceAs (Decidable (s.calls loop = .idle ∧ s.report = none))

instance [DecidableEq A] [DecidableEq T] (loop : T) (s : TcpClient A T) :
    Decidable (s.Free loop) :=
  inferInstanceAs (Decidable (s.Callable loop ∧ s.frames = []))

instance [DecidableEq A] [DecidableEq T] (loop : T) (s : TcpClient A T)
    (step : TcpClientStep A T) :
    Decidable ((tcpClientMachine A loop).enabled s step) :=
  match step with
  | .setReconnectDelay _ | .socketError _ => inferInstanceAs
      (Decidable (s.aborted = false ∧ True))
  | .connect thread _ | .disconnect thread => inferInstanceAs
      (Decidable (s.aborted = false ∧ s.calls thread = .idle ∧
        (thread = loop → s.Callable loop)))
  | .store thread => inferInstanceAs
      (Decidable (s.aborted = false ∧ (s.calls thread).isLoaded = true))
  | .runInLoop thread _ => inferInstanceAs
      (Decidable (s.aborted = false ∧ (s.calls thread).task.isSome = true))
  | .swapFunctors => inferInstanceAs
      (Decidable (s.aborted = false ∧ s.Free loop ∧ s.running = false))
  | .callFunctor _ => inferInstanceAs
      (Decidable (s.aborted = false ∧ s.Free loop ∧ s.running = true ∧
        s.functors.batch ≠ []))
  | .returnFunctors => inferInstanceAs
      (Decidable (s.aborted = false ∧ s.Free loop ∧ s.running = true ∧
        s.functors.batch = []))
  | .fireTimer i _ => inferInstanceAs
      (Decidable (s.aborted = false ∧ s.Free loop ∧ s.running = false ∧
        i < s.connector.timers.length))
  | .poll _ => inferInstanceAs
      (Decidable (s.aborted = false ∧ s.Free loop ∧ s.running = false ∧
        s.connector.socket.map ConnectingSocket.attached = some true))
  | .handleReport => inferInstanceAs
      (Decidable (s.aborted = false ∧ s.report.isSome = true))
  | .endCall c => inferInstanceAs
      (Decidable (s.aborted = false ∧ s.status c = .kConnected))
  | .closeInLoop c => inferInstanceAs
      (Decidable (s.aborted = false ∧ s.Free loop ∧
        (s.status c).isOpen = true))
  | .returnCallback => inferInstanceAs
      (Decidable (s.aborted = false ∧ s.Callable loop ∧ s.frames ≠ []))

namespace TcpClient

/-- While a handler of the connecting socket is to be called there is a socket,
and the loop does nothing else. -/
def Handling (loop : T) (s : TcpClient A T) : Prop :=
  s.report.isSome = true → s.connector.socket.isSome = true ∧
    s.calls loop = .idle ∧ s.frames = []

/-- The client when the functor of `connect` makes its attempt. -/
def restarted (s : TcpClient A T) (addr : A) : TcpClient A T :=
  { s with
    addr := addr
    connector := { s.connector with
      connectedCallback := true
      addr := addr
      stopping := false } }

theorem connectFunctor_eq (s : TcpClient A T) (addr : A) (errno : Int) :
    s.connectFunctor addr errno = (s.restarted addr).connectInLoop errno := rfl

/-- An attempt is an event. -/
theorem mem_log_connectInLoop {s : TcpClient A T} {errno : Int}
    {event : ClientEvent} :
    event ∈ (s.connectInLoop errno).log ↔ event ∈ s.log ∨
      s.connector.stopping = false ∧
        event = .attempt s.isOpen s.isFinished := by
  change event ∈ (if s.connector.stopping then s.log else _) ↔ _
  cases s.connector.stopping with
  | true => simp
  | false => simp

@[simp] theorem disconnectFunctor_report (s : TcpClient A T) (called : Nat) :
    (s.disconnectFunctor called).report = s.report := by
  unfold disconnectFunctor
  dsimp only
  split
  · rfl
  · split <;> rfl

theorem disconnectFunctor_log (s : TcpClient A T) (called : Nat) :
    (s.disconnectFunctor called).log = s.log := by
  unfold disconnectFunctor
  dsimp only
  split
  · rfl
  · split <;> rfl

theorem disconnectFunctor_spec (s : TcpClient A T) (called : Nat) :
    (s.disconnectFunctor called).connector = s.connector.disconnect ∧
      (s.disconnectFunctor called).functors = s.functors ∧
      (s.disconnectFunctor called).running = s.running ∧
      (s.disconnectFunctor called).calls = s.calls ∧
      (s.disconnectFunctor called).connects = s.connects ∧
      (s.disconnectFunctor called).disconnects =
        s.disconnects ++ [called] := by
  unfold disconnectFunctor
  dsimp only
  split
  · exact ⟨rfl, rfl, rfl, rfl, rfl, rfl⟩
  · split <;> exact ⟨rfl, rfl, rfl, rfl, rfl, rfl⟩

@[simp] theorem onClosedInConnection_report (s : TcpClient A T) (c : Nat) :
    (s.onClosedInConnection c).report = s.report := by
  unfold onClosedInConnection
  dsimp only
  split
  · split <;> rfl
  · rfl

/-- A handler other than that of the write event leaves the socket, the stack
and the calls as they are. -/
theorem handle_spec (s : TcpClient A T) {report : IOReport}
    (hreport : report ≠ .write) :
    (s.handle report).connector.socket.isSome = s.connector.socket.isSome ∧
      (s.handle report).calls = s.calls ∧
      (s.handle report).frames = s.frames := by
  cases report with
  | write => exact absurd rfl hreport
  | read => exact ⟨rfl, rfl, rfl⟩
  | close =>
      simp only [handle]
      split <;> exact ⟨rfl, rfl, rfl⟩
  | error =>
      have hsocket : s.connector.handleErrorInLoop.2.socket.isSome =
          s.connector.socket.isSome := by
        rw [← Option.isSome_map (f := ConnectingSocket.attached),
          s.connector.handleErrorInLoop_spec.2.2.2, Option.isSome_map]
      simp only [handle]
      split <;> exact ⟨hsocket, rfl, rfl⟩

variable [DecidableEq T] {loop : T} {s : TcpClient A T}

@[simp] theorem load_report (thread : T) (addr : A) :
    (s.load thread addr).report = s.report := by
  unfold load
  split <;> rfl

theorem load_log (thread : T) (addr : A) :
    (s.load thread addr).log = s.log := by
  unfold load
  split <;> rfl

@[simp] theorem callTask_report (errno : Int) (task : ClientTask A) :
    (s.callTask loop errno task).report = s.report := by
  cases task with
  | connect addr => rfl
  | disconnect called => exact disconnectFunctor_report s called
  | reconnect => exact load_report loop s.addr
  | onRetryInLoop failure => rfl

theorem store_cases {thread : T} {s' : TcpClient A T}
    (hexec : (tcpClientMachine A loop).exec s (.store thread) = some s') :
    ∃ addr, s.calls thread = .loaded addr ∧ s' = { s with
      connecting := true
      calls := Function.update s.calls thread (.connecting addr) } := by
  simp only [tcpClientMachine] at hexec
  split at hexec
  · next addr hcall => exact ⟨addr, hcall, (Option.some.inj hexec).symm⟩
  all_goals cases hexec

theorem runInLoop_cases {thread : T} {errno : Int} {s' : TcpClient A T}
    (hexec : (tcpClientMachine A loop).exec s (.runInLoop thread errno) =
      some s') :
    ∃ task, (s.calls thread).task = some task ∧
      s' = s.runInLoop loop thread errno task := by
  obtain ⟨task, htask, hs'⟩ := Option.map_eq_some_iff.mp hexec
  exact ⟨task, htask, hs'.symm⟩

theorem callFunctor_cases {errno : Int} {s' : TcpClient A T}
    (hexec : (tcpClientMachine A loop).exec s (.callFunctor errno) =
      some s') :
    ∃ task functors, s.functors.nextFunctor = some (task, functors) ∧
      s' = ({ s with functors := functors } :
        TcpClient A T).callTask loop errno task := by
  obtain ⟨⟨task, functors⟩, hnext, hs'⟩ := Option.map_eq_some_iff.mp hexec
  exact ⟨task, functors, hnext, hs'.symm⟩

theorem callsFunctor_runInLoop {kind : ClientTask A → Bool} {thread : T}
    {errno : Int} {task : ClientTask A} (hthread : thread = loop)
    (htask : (s.calls thread).task = some task) (hkind : kind task = true) :
    s.callsFunctor loop kind (.runInLoop thread errno) = true := by
  rw [callsFunctor, htask, Option.any_some, hkind]
  exact decide_eq_true ⟨hthread, rfl⟩

theorem callsFunctor_callFunctor {kind : ClientTask A → Bool} {errno : Int}
    {task : ClientTask A} {functors : FunctorQueue (ClientTask A)}
    (hnext : s.functors.nextFunctor = some (task, functors))
    (hkind : kind task = true) :
    s.callsFunctor loop kind (.callFunctor errno) = true := by
  rw [callsFunctor, FunctorQueue.head?_batch_of_nextFunctor hnext]
  exact hkind

/-- What such a step does. -/
theorem callsFunctor_cases {kind : ClientTask A → Bool}
    {step : TcpClientStep A T} {s' : TcpClient A T}
    (hcalls : s.callsFunctor loop kind step = true)
    (hexec : (tcpClientMachine A loop).exec s step = some s') :
    ∃ task calls functors errno, kind task = true ∧
      s' = ({ s with calls := calls, functors := functors } :
        TcpClient A T).callTask loop errno task := by
  cases step with
  | runInLoop thread errno =>
      obtain ⟨task, htask, rfl⟩ := runInLoop_cases hexec
      rw [callsFunctor, htask, Option.any_some] at hcalls
      obtain ⟨hthread, hkind⟩ := of_decide_eq_true hcalls
      refine ⟨task, Function.update s.calls thread .idle, s.functors, errno,
        hkind, ?_⟩
      rw [runInLoop, if_pos hthread]
  | callFunctor errno =>
      obtain ⟨task, functors, hnext, rfl⟩ := callFunctor_cases hexec
      rw [callsFunctor, FunctorQueue.head?_batch_of_nextFunctor hnext]
        at hcalls
      exact ⟨task, s.calls, functors, errno, hcalls, rfl⟩
  | _ => cases hcalls

omit [DecidableEq T] in
theorem handleReport_cases {s' : TcpClient A T}
    (hexec : s.handleReport = some s') :
    ∃ revents report, s.report = some (revents, report) ∧
      s.connector.socket.isSome = true ∧ s' = { s.handle report with
        report := (nextReport revents (some report)).map (revents, ·) } := by
  obtain ⟨⟨revents, report⟩, hreport, hs'⟩ := Option.bind_eq_some_iff.mp hexec
  refine ⟨revents, report, hreport, ?_⟩
  dsimp only at hs'
  split at hs'
  · next hsocket => exact ⟨hsocket, (Option.some.inj hs').symm⟩
  · cases hs'

omit [DecidableEq T] in
/-- At most the connection is taken away, and a reconnect queued. -/
theorem returnCallback_spec {s' : TcpClient A T}
    (hexec : s.returnCallback = some s') :
    s'.connector = s.connector ∧ s'.log = s.log ∧ s'.running = s.running ∧
      s'.calls = s.calls ∧ s'.connects = s.connects ∧
      s'.disconnects = s.disconnects ∧
      (∀ task ∈ s'.functors.pending,
        task ∈ s.functors.pending ∨ task = .reconnect) ∧
      s'.functors.batch = s.functors.batch ∧
      (s.isOpen = false → s'.isOpen = false) := by
  have hsame : ∀ task ∈ s.functors.pending,
      task ∈ s.functors.pending ∨ task = .reconnect := fun _ => Or.inl
  have hqueued : ∀ task ∈ (s.functors.queueInLoop .reconnect).pending,
      task ∈ s.functors.pending ∨ task = .reconnect :=
    fun _ => FunctorQueue.mem_pending_queueInLoop.mp
  unfold returnCallback onClosedInConnection at hexec
  split at hexec
  · cases hexec
  · obtain rfl := Option.some.inj hexec
    dsimp only
    split
    · split
      · split
        · exact ⟨rfl, rfl, rfl, rfl, rfl, rfl, hqueued, rfl, fun _ => rfl⟩
        · exact ⟨rfl, rfl, rfl, rfl, rfl, rfl, hsame, rfl, fun _ => rfl⟩
      · exact ⟨rfl, rfl, rfl, rfl, rfl, rfl, hsame, rfl, id⟩
    · exact ⟨rfl, rfl, rfl, rfl, rfl, rfl, hsame, rfl, id⟩
  · obtain rfl := Option.some.inj hexec
    exact ⟨rfl, rfl, rfl, rfl, rfl, rfl, hsame, rfl, fun _ => rfl⟩

omit [DecidableEq T] in
theorem mem_log_handle {report : IOReport} {event : ClientEvent}
    (hmem : event ∈ (s.handle report).log) :
    event ∈ s.log ∨ event = .newConnection s.connection s.isFinished := by
  cases report with
  | read => exact Or.inl hmem
  | close =>
      simp only [handle] at hmem
      split at hmem <;> exact Or.inl hmem
  | error =>
      simp only [handle] at hmem
      split at hmem <;> exact Or.inl hmem
  | write =>
      simp only [handle] at hmem
      split at hmem
      · exact Or.inl hmem
      · split at hmem
        · exact (List.mem_append.mp hmem).imp_right List.mem_singleton.mp
        · exact Or.inl hmem

theorem mem_log_callTask {errno : Int} {task : ClientTask A}
    {event : ClientEvent} :
    event ∈ (s.callTask loop errno task).log ↔ event ∈ s.log ∨
      task.isConnect = true ∧ event = .attempt s.isOpen s.isFinished := by
  cases task with
  | connect addr =>
      refine (mem_log_connectInLoop (s := s.restarted addr)).trans ?_
      exact or_congr_right (and_congr_left fun _ => iff_of_true rfl rfl)
  | disconnect called =>
      simp [callTask, disconnectFunctor_log, ClientTask.isConnect]
  | reconnect => simp [callTask, load_log, ClientTask.isConnect]
  | onRetryInLoop failure => simp [callTask, ClientTask.isConnect]

/-- The events of a step: an attempt of a functor or a timer, or a connection
that a handler makes. -/
theorem mem_log_step {step : TcpClientStep A T} {s' : TcpClient A T}
    (hexec : (tcpClientMachine A loop).exec s step = some s')
    {event : ClientEvent} (hmem : event ∈ s'.log) :
    event ∈ s.log ∨
      event = .attempt s.isOpen s.isFinished ∧
        (s.callsFunctor loop ClientTask.isConnect step = true ∨
          s.connector.stopping = false ∧
            ∃ i errno, step = .fireTimer i errno) ∨
      event = .newConnection s.connection s.isFinished ∧
        step = .handleReport ∧ s.connector.socket.isSome = true := by
  cases step with
  | connect thread addr =>
      obtain rfl := Option.some.inj hexec
      rw [load_log] at hmem
      exact Or.inl hmem
  | store thread =>
      obtain ⟨addr, _, rfl⟩ := store_cases hexec
      exact Or.inl hmem
  | runInLoop thread errno =>
      obtain ⟨task, htask, rfl⟩ := runInLoop_cases hexec
      unfold runInLoop at hmem
      split at hmem
      · next heq =>
          rcases mem_log_callTask.mp hmem with hold | ⟨hconnect, rfl⟩
          · exact Or.inl hold
          · exact Or.inr (Or.inl ⟨rfl,
              Or.inl (callsFunctor_runInLoop heq htask hconnect)⟩)
      · exact Or.inl hmem
  | callFunctor errno =>
      obtain ⟨task, functors, hnext, rfl⟩ := callFunctor_cases hexec
      rcases mem_log_callTask.mp hmem with hold | ⟨hconnect, rfl⟩
      · exact Or.inl hold
      · exact Or.inr (Or.inl ⟨rfl,
          Or.inl (callsFunctor_callFunctor hnext hconnect)⟩)
  | fireTimer i errno =>
      obtain rfl := Option.some.inj hexec
      rcases mem_log_connectInLoop.mp hmem with hold | ⟨hgoes, rfl⟩
      · exact Or.inl hold
      · exact Or.inr (Or.inl ⟨rfl, Or.inr ⟨hgoes, i, errno, rfl⟩⟩)
  | handleReport =>
      obtain ⟨revents, report, _, hsocket, rfl⟩ := handleReport_cases hexec
      refine (mem_log_handle hmem).imp_right fun heq => ?_
      exact Or.inr ⟨heq, rfl, hsocket⟩
  | returnCallback =>
      rw [(returnCallback_spec hexec).2.1] at hmem
      exact Or.inl hmem
  | _ =>
      obtain rfl := Option.some.inj hexec
      exact Or.inl hmem

/-- Whoever calls the functor of `connect` makes an attempt. -/
theorem attempt_mem_log {step : TcpClientStep A T} {s' : TcpClient A T}
    (hexec : (tcpClientMachine A loop).exec s step = some s')
    (hconnect : s.callsFunctor loop ClientTask.isConnect step = true) :
    .attempt s.isOpen s.isFinished ∈ s'.log := by
  obtain ⟨task, calls, functors, errno, hkind, rfl⟩ :=
    callsFunctor_cases hconnect hexec
  exact mem_log_callTask.mpr (Or.inr ⟨hkind, rfl⟩)

/-- No step is a fault, and there is a socket for each handler. -/
theorem step_handling (h : s.Handling loop) (step : TcpClientStep A T)
    (hstep : (tcpClientMachine A loop).enabled s step) :
    ∃ s', (tcpClientMachine A loop).exec s step = some s' ∧
      s'.Handling loop := by
  have hnone : ∀ {t : TcpClient A T}, t.report = s.report →
      s.report = none → t.Handling loop := by
    intro t ht hs hreport
    rw [ht, hs] at hreport
    cases hreport
  -- a thread other than that of the loop does not touch what the handlers use
  have hother : ∀ (t : TcpClient A T) (thread : T) (pc : ClientPc A),
      (thread = loop → s.report = none) → t.report = s.report →
      t.connector = s.connector → t.frames = s.frames →
      t.calls = Function.update s.calls thread pc → t.Handling loop := by
    intro t thread pc hthread hreport hconnector hframes hcalls hsome
    rw [hreport] at hsome
    obtain ⟨hsocket, hidle, hempty⟩ := h hsome
    refine ⟨hconnector ▸ hsocket, ?_, hframes.trans hempty⟩
    have hne : loop ≠ thread := by
      rintro rfl
      rw [hthread rfl] at hsome
      cases hsome
    rw [hcalls, Function.update_of_ne hne]
    exact hidle
  have hbusy : ∀ {thread : T}, s.calls thread ≠ .idle → thread = loop →
      s.report = none := by
    rintro thread hcall rfl
    by_contra hreport
    exact hcall (h (Option.isSome_iff_ne_none.mpr hreport)).2.1
  obtain ⟨_, hstep⟩ := hstep
  cases step with
  | setReconnectDelay delay => exact ⟨_, rfl, h⟩
  | connect thread addr =>
      refine ⟨_, rfl, ?_⟩
      unfold load
      split
      · exact h
      · exact hother _ thread (.loaded addr) (fun heq => (hstep.2 heq).2) rfl
          rfl rfl rfl
  | store thread =>
      obtain ⟨addr, hcall⟩ : ∃ addr, s.calls thread = .loaded addr := by
        change (s.calls thread).isLoaded = true at hstep
        cases hcall : s.calls thread with
        | loaded addr => exact ⟨addr, rfl⟩
        | idle => rw [hcall] at hstep; cases hstep
        | connecting addr => rw [hcall] at hstep; cases hstep
        | disconnecting called => rw [hcall] at hstep; cases hstep
      refine ⟨_, by simp only [tcpClientMachine, hcall]; rfl, ?_⟩
      exact hother _ thread (.connecting addr)
        (hbusy (by rw [hcall]; exact fun heq => by cases heq)) rfl rfl rfl rfl
  | disconnect thread =>
      refine ⟨_, rfl, ?_⟩
      exact hother _ thread (.disconnecting s.connects)
        (fun heq => (hstep.2 heq).2) rfl rfl rfl rfl
  | runInLoop thread errno =>
      obtain ⟨task, htask⟩ := Option.isSome_iff_exists.mp hstep
      refine ⟨_, by simp only [tcpClientMachine, htask]; rfl, ?_⟩
      have hcall : s.calls thread ≠ .idle := by
        intro heq
        rw [heq] at htask
        cases htask
      unfold runInLoop
      split
      · next heq => exact hnone (callTask_report ..) (hbusy hcall heq)
      · exact hother _ thread .idle (hbusy hcall) rfl rfl rfl rfl
  | swapFunctors => exact ⟨_, rfl, h⟩
  | callFunctor errno =>
      obtain ⟨task, rest, hcons⟩ := List.exists_cons_of_ne_nil hstep.2.2
      refine ⟨_, by simp only [tcpClientMachine, FunctorQueue.nextFunctor,
        hcons, Option.map_some]; rfl, ?_⟩
      exact hnone (callTask_report ..) hstep.1.1.2
  | returnFunctors => exact ⟨_, rfl, h⟩
  | fireTimer i errno => exact ⟨_, rfl, hnone rfl hstep.1.1.2⟩
  | socketError error =>
      refine ⟨_, rfl, fun hsome => ?_⟩
      obtain ⟨hsocket, hrest⟩ := h hsome
      exact ⟨(Option.isSome_map ..).trans hsocket, hrest⟩
  | poll revents =>
      obtain ⟨⟨⟨hidle, _⟩, hframes⟩, _, hattached⟩ := hstep
      refine ⟨_, rfl, fun _ => ⟨?_, hidle, hframes⟩⟩
      rw [← Option.isSome_map (f := ConnectingSocket.attached), hattached]
      rfl
  | handleReport =>
      obtain ⟨⟨revents, report⟩, hreport⟩ := Option.isSome_iff_exists.mp hstep
      obtain ⟨hsocket, hidle, hframes⟩ := h hstep
      refine ⟨_, by simp only [tcpClientMachine, TcpClient.handleReport,
        hreport, Option.bind_some, if_pos hsocket]; rfl, fun hsome => ?_⟩
      have hwrite : report ≠ .write := by
        rintro rfl
        cases hsome
      obtain ⟨hsocket', hcalls, hframes'⟩ := s.handle_spec hwrite
      exact ⟨hsocket'.trans hsocket, hcalls ▸ hidle, hframes'.trans hframes⟩
  | endCall c => exact ⟨_, rfl, h⟩
  | closeInLoop c => exact ⟨_, rfl, hnone rfl hstep.1.1.2⟩
  | returnCallback =>
      obtain ⟨⟨_, hreport⟩, hframes⟩ := hstep
      obtain ⟨frame, rest, hcons⟩ := List.exists_cons_of_ne_nil hframes
      simp only [tcpClientMachine, TcpClient.returnCallback, hcons]
      cases frame with
      | closeInLoop c =>
          refine ⟨_, rfl, hnone ?_ hreport⟩
          split
          · rw [onClosedInConnection_report]
          · rfl
      | disconnect => exact ⟨_, rfl, hnone rfl hreport⟩

omit [DecidableEq T] in
theorem start_handling (addr : A) :
    (start addr : TcpClient A T).Handling loop := fun h => by cases h

end TcpClient

end Libsaf
