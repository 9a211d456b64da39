/-
Who owns the connections of a server and of a `TcpClient`, and its
`TcpConnector`, while functors that work on them wait in the loops.  Most
functors hold a shared pointer; `Connection::send`, the rest of a UDP write and
the retry after a connector event hold the bare `this`.
-/
import Libsaf.SharedWork
import Libsaf.TcpConnection
import Libsaf.TcpConnector

namespace Libsaf

universe u v w

variable {A : Type u} {K : Type v} {T : Type w}

/-- The shared pointers that are not in functors: an entry of the server's
`_connections`, the vector of `checkExpiredInLoop`, the two members of the
client, the functor of a retry timer, and copies of the application. -/
inductive TargetOwner (K : Type v) where
  | entry (key : K)
  | deletes
  | connection
  | connector
  | timer
  | application
deriving Repr, DecidableEq

/-- The functors that work on a connection or on the connector.  Object 0 is
the connector. -/
inductive TargetTask where
  | onConnectEstablishedInLoop (x : Nat)
  | handleReadInLoop (x : Nat)
  | closeInLoop (x : Nat)
  | shutdown (x : Nat)
  | writeComplete (x : Nat)
  | removeConnectionInLoop (x : Nat)
  | sendInLoop (x : Nat)
  | handleWriteInLoop (x : Nat)
  | onRetryInLoop
deriving Repr, DecidableEq

def TargetTask.target : TargetTask → Nat
  | .onConnectEstablishedInLoop x | .handleReadInLoop x | .closeInLoop x
  | .shutdown x | .writeComplete x | .removeConnectionInLoop x
  | .sendInLoop x | .handleWriteInLoop x => x
  | .onRetryInLoop => 0

/-- The functor captures a shared pointer, not only `this`. -/
def TargetTask.pins : TargetTask → Bool
  | .sendInLoop _ | .handleWriteInLoop _ | .onRetryInLoop => false
  | _ => true

def targetCapture : Capture TargetTask Nat :=
  ⟨TargetTask.target, TargetTask.pins⟩

/-- A server has a connection under its key and on a loop of its cluster. -/
inductive TargetOrigin (K : Type v) (T : Type w) where
  | server (key : K) (loop : T)
  | client
deriving Repr, DecidableEq

/-- `writeComplete` tells whether the application has set that callback, and
`delay` is the reconnect delay of the client. -/
structure TargetConfig (T : Type w) where
  loops : Finset T
  serverLoop : T
  clientLoop : T
  server_mem : serverLoop ∈ loops
  client_mem : clientLoop ∈ loops
  udp : Bool
  writeComplete : Bool
  delay : Int

/-- `bound` is set from `bindDefaultCallbacks` to `unbindDefaultCallbacks`, and
with it the close callback, and the sender fd of a UDP connection. -/
structure TargetFlags (A : Type u) (K : Type v) (T : Type w) where
  next : Nat
  origin : Nat → TargetOrigin K T
  status : Nat → TcpStatus
  bound : Nat → Bool
  writing : Nat → Bool
  connector : TcpConnector A

abbrev TargetWork (K : Type v) (T : Type w) :=
  SharedWork (TargetOwner K) Nat T TargetTask

abbrev TargetStep (K : Type v) (T : Type w) :=
  WorkStep (TargetOwner K) Nat T TargetTask

structure SharedTargets (A : Type u) (K : Type v) (T : Type w) where
  work : TargetWork K T
  flags : TargetFlags A K T

/-- What a write comes to: all bytes at once, some and a rest, or an error. -/
inductive WriteOutcome where
  | all
  | rest
  | error
deriving Repr, DecidableEq

/-- `stopped` tells that the application stopped the server in the
connect-change callback of the close, before the close callback is tested. -/
inductive SharedStep (A : Type u) (K : Type v) (T : Type w) where
  | newConnection (key : K) (loop : T)
  | recvMessage (key : K)
  | send (thread : T) (x : Nat) (outcome : WriteOutcome)
  | close (thread : T) (x : Nat) (stopped : Bool)
  | shutdown (thread : T) (x : Nat)
  | handleClose (x : Nat) (stopped : Bool)
  | stop (key : K)
  | clear (key : K)
  | expire (key : K)
  | clearDeletes (x : Nat)
  | share (x : Nat)
  | release (x : Nat)
  | connect (addr : A) (errno : Int)
  | connectTimer (errno : Int)
  | connectorWrite (error : Int)
  | connectorError
  | connectorClose
  | disconnect
  | dropClient
  | swapFunctors (loop : T)
  | callFunctor (loop : T) (outcome : WriteOutcome) (stopped : Bool)
  | returnFunctor (loop : T)
  | returnFunctors (loop : T)
deriving Repr, DecidableEq

namespace TargetFlags

variable (config : TargetConfig T) (f : TargetFlags A K T)

/-- `getLooper`. -/
def loopOf (x : Nat) : T :=
  match f.origin x with
  | .server _ loop => loop
  | .client => config.clientLoop

def isUdp (x : Nat) : Bool :=
  match f.origin x with
  | .server _ _ => config.udp
  | .client => false

def changeStatus (x : Nat) (status : TcpStatus) : TargetFlags A K T :=
  { f with status := Function.update f.status x status }

def unbindDefaultCallbacks (x : Nat) : TargetFlags A K T :=
  { f with bound := Function.update f.bound x false }

/-- A connection with its callbacks bound. -/
def newConnection (origin : TargetOrigin K T) (status : TcpStatus) :
    TargetFlags A K T :=
  { f with
    next := f.next + 1
    origin := Function.update f.origin f.next origin
    status := Function.update f.status f.next status
    bound := Function.update f.bound f.next true
    writing := Function.update f.writing f.next false }

end TargetFlags

namespace SharedTargets

/-- The connector of a client that was just made. -/
def start (addr : A) : SharedTargets A K T :=
  { work :=
      { made := [0]
        count := fun x => if x = 0 then 1 else 0
        owners := [(.connector, 0)]
        work := fun _ => .idle }
    flags :=
      { next := 1
        origin := fun _ => .client
        status := fun _ => .kConnecting
        bound := fun _ => false
        writing := fun _ => false
        connector := .start addr } }

section

variable [DecidableEq K]

/-- The object that a shared pointer holds. -/
def object (work : TargetWork K T) (owner : TargetOwner K) : Option Nat :=
  (work.owners.find? fun p => p.1 = owner).map Prod.snd

/-- `reset` of a shared pointer, or the erasing of its entry. -/
def reset (work : TargetWork K T) (owner : TargetOwner K) :
    Option (TargetStep K T) :=
  (object work owner).map (.drop owner)

end

/-- The timer that `onRetryInLoop` has added holds the connector. -/
def armed (old new : TcpConnector A) : Option (TargetStep K T) :=
  if old.timers.length < new.timers.length then some (.take .timer 0) else none

/-- A call and the one operation on shared pointers or queues that it ends
with, if any. -/
abbrev Effect (A : Type u) (K : Type v) (T : Type w) :=
  TargetFlags A K T × Option (TargetStep K T)

variable (config : TargetConfig T)

section

variable [DecidableEq K] (work : TargetWork K T) (f : TargetFlags A K T)

/-- The server queues the removal; the client removes the connection at once. -/
def onClosedInConnection (x : Nat) : Effect A K T :=
  match f.origin x with
  | .server _ _ => (f, some (.queueInLoop config.serverLoop
      (.removeConnectionInLoop x)))
  | .client => (f.unbindDefaultCallbacks x, reset work .connection)

def closeInLoop (x : Nat) (stopped : Bool) : Effect A K T :=
  let f := f.changeStatus x .kDisconnected
  if f.bound x ∧ stopped = false then onClosedInConnection config work f x
  else (f, none)

/-- The removal erases the entry of the key, whatever it holds. -/
def removeConnectionInLoop (x : Nat) : Effect A K T :=
  let f' := f.unbindDefaultCallbacks x
  match f.origin x with
  | .server key _ => (f', reset work (.entry key))
  | .client => (f', none)

end

variable (f : TargetFlags A K T)

/-- `UdpConnection::handleWriteInLoop`. -/
def handleWriteInLoop (x : Nat) (outcome : WriteOutcome) : Effect A K T :=
  if f.bound x then
    match outcome with
    | .all => ({ f with writing := Function.update f.writing x false }, none)
    | .rest => (f, some (.queueInLoop (f.loopOf config x)
        (.handleWriteInLoop x)))
    | .error => (f, none)
  else (f, none)

/-- TCP queues the write-complete callback when all was written at once. -/
def sendInLoop (x : Nat) (outcome : WriteOutcome) : Effect A K T :=
  if f.isUdp config x then
    if f.writing x then (f, none)
    else handleWriteInLoop config
      { f with writing := Function.update f.writing x true } x outcome
  else if outcome = .all ∧ config.writeComplete then
    (f, some (.queueInLoop (f.loopOf config x) (.writeComplete x)))
  else (f, none)

def connectInLoop (errno : Int) : Effect A K T :=
  let connector := f.connector.connectInLoop config.delay errno
  ({ f with connector := connector }, armed f.connector connector)

def onRetryInLoop : Effect A K T :=
  let connector := f.connector.onRetryInLoop config.delay f.connector.epoch
  ({ f with connector := connector }, armed f.connector connector)

variable [DecidableEq K] [DecidableEq T] (work : TargetWork K T)

/-- `Connection::send`. -/
def send (thread : T) (x : Nat) (outcome : WriteOutcome) : Effect A K T :=
  if thread = f.loopOf config x then sendInLoop config f x outcome
  else (f, some (.queueInLoop (f.loopOf config x) (.sendInLoop x)))

/-- `TcpConnection::close` has a guard that `UdpConnection::close` has not. -/
def close (thread : T) (x : Nat) (stopped : Bool) : Effect A K T :=
  if f.isUdp config x = false ∧ f.status x ≠ .kConnected then (f, none)
  else
    let f := f.changeStatus x .kDisconnecting
    if thread = f.loopOf config x then closeInLoop config work f x stopped
    else (f, some (.queueInLoop (f.loopOf config x) (.closeInLoop x)))

/-- `TcpConnection::shutdown`. -/
def shutdown (thread : T) (x : Nat) : Effect A K T :=
  if f.status x ≠ .kConnected then (f, none)
  else
    let f := f.changeStatus x .kDisconnecting
    if thread = f.loopOf config x then (f, none)
    else (f, some (.queueInLoop (f.loopOf config x) (.shutdown x)))

/-- The body of a functor.  What the application does in the callbacks are
steps of their own. -/
def runTask (task : TargetTask) (outcome : WriteOutcome) (stopped : Bool) :
    Effect A K T :=
  match task with
  | .onConnectEstablishedInLoop x => (f.changeStatus x .kConnected, none)
  | .handleReadInLoop _ | .shutdown _ | .writeComplete _ => (f, none)
  | .closeInLoop x => closeInLoop config work f x stopped
  | .removeConnectionInLoop x => removeConnectionInLoop work f x
  | .sendInLoop x => sendInLoop config f x outcome
  | .handleWriteInLoop x => handleWriteInLoop config f x outcome
  | .onRetryInLoop => onRetryInLoop config f

/-- The `SO_ERROR` of the connecting socket. -/
def withError (connector : TcpConnector A) (error : Int) : TcpConnector A :=
  { connector with
    socket := connector.socket.map fun socket =>
      { socket with error := error } }

def word (e : Effect A K T) : TargetFlags A K T × List (TargetStep K T) :=
  (e.1, e.2.toList)

/-- The operations of a step, in order, and the flags after it. -/
def operations (s : SharedTargets A K T) :
    SharedStep A K T → TargetFlags A K T × List (TargetStep K T)
  | .newConnection key loop =>
      (s.flags.newConnection (.server key loop) .kConnecting,
        .make (.entry key) s.flags.next ::
          ((reset s.work (.entry key)).toList ++
            [.queueInLoop loop (.onConnectEstablishedInLoop s.flags.next)]))
  | .recvMessage key =>
      (s.flags, ((object s.work (.entry key)).map fun x =>
        .queueInLoop (s.flags.loopOf config x) (.handleReadInLoop x)).toList)
  | .send thread x outcome =>
      word (send config s.flags thread x outcome)
  | .close thread x stopped =>
      word (close config s.flags s.work thread x stopped)
  | .shutdown thread x =>
      word (shutdown config s.flags thread x)
  | .handleClose x stopped =>
      word (closeInLoop config s.work s.flags x stopped)
  | .stop key =>
      match object s.work (.entry key) with
      | none => (s.flags, [])
      | some x =>
          word (close config (s.flags.unbindDefaultCallbacks x) s.work
            config.serverLoop x false)
  | .clear key => (s.flags, (reset s.work (.entry key)).toList)
  | .expire key =>
      match object s.work (.entry key) with
      | none => (s.flags, [])
      | some x => (s.flags, [.take .deletes x, .drop (.entry key) x])
  | .clearDeletes x => (s.flags, [.drop .deletes x])
  | .share x => (s.flags, [.take .application x])
  | .release x => (s.flags, [.drop .application x])
  | .connect addr errno =>
      word (connectInLoop config { s.flags with
        connector := { s.flags.connector with
          addr := addr
          stopping := false
          connectedCallback := true } } errno)
  | .connectTimer errno =>
      let e : Effect A K T := connectInLoop config { s.flags with
        connector := { s.flags.connector with
          timers := s.flags.connector.timers.tail } } errno
      (e.1, e.2.toList ++ [.drop .timer 0])
  | .connectorWrite error =>
      let old := withError s.flags.connector error
      let new := old.handleWriteInLoop config.delay
      let f := { s.flags with connector := new.2 }
      if new.1 then
        (f.newConnection .client .kConnected,
          .make .connection f.next :: (reset s.work .connection).toList)
      else (f, (armed old new.2).toList)
  | .connectorError =>
      let new := s.flags.connector.handleErrorInLoop
      ({ s.flags with connector := new.2 },
        if new.1 then [.queueInLoop config.clientLoop .onRetryInLoop] else [])
  | .connectorClose =>
      (s.flags, if s.flags.connector.handleCloseInLoop then
        [.queueInLoop config.clientLoop .onRetryInLoop] else [])
  | .disconnect =>
      let f := { s.flags with connector := s.flags.connector.disconnect }
      match object s.work .connection with
      | none => (f, [])
      | some x =>
          let e := close config (f.unbindDefaultCallbacks x) s.work
            config.clientLoop x false
          (e.1, e.2.toList ++ [.drop .connection x])
  | .dropClient =>
      (s.flags, (reset s.work .connection).toList ++ [.drop .connector 0])
  | .swapFunctors loop => (s.flags, [.swapFunctors loop])
  | .callFunctor loop outcome stopped =>
      match (s.work.work loop).queue.batch with
      | [] => (s.flags, [.callFunctor loop])
      | task :: _ =>
          if s.work.count task.target = 0 then (s.flags, [.callFunctor loop])
          else
            let e := runTask config s.flags s.work task outcome stopped
            (e.1, .callFunctor loop :: e.2.toList)
  | .returnFunctor loop => (s.flags, [.returnFunctor loop])
  | .returnFunctors loop => (s.flags, [.returnFunctors loop])

/-- A member function is called on an object that exists, and what the poller
reports is not reported during `runFunctors`. -/
def Enabled (s : SharedTargets A K T) : SharedStep A K T → Prop
  | .newConnection key loop => loop ∈ config.loops ∧
      (config.udp = true → object s.work (.entry key) = none)
  | .recvMessage key => config.udp = true ∧ object s.work (.entry key) ≠ none
  | .send _ x _ | .close _ x _ | .share x => x ≠ 0 ∧ s.work.count x ≠ 0
  | .shutdown _ x =>
      x ≠ 0 ∧ s.work.count x ≠ 0 ∧ s.flags.isUdp config x = false
  | .handleClose x _ => x ≠ 0 ∧ s.work.count x ≠ 0 ∧
      s.flags.isUdp config x = false ∧
      (s.flags.status x = .kConnected ∨ s.flags.status x = .kDisconnecting) ∧
      (s.work.work (s.flags.loopOf config x)).running = false
  | .stop key | .clear key => object s.work (.entry key) ≠ none
  | .expire key => config.udp = true ∧ object s.work (.entry key) ≠ none
  | .clearDeletes x => (.deletes, x) ∈ s.work.owners
  | .release x => (.application, x) ∈ s.work.owners
  | .connect _ _ | .disconnect | .dropClient => (.connector, 0) ∈ s.work.owners
  | .connectTimer _ => (.timer, 0) ∈ s.work.owners
  | .connectorWrite _ | .connectorError | .connectorClose =>
      s.work.count 0 ≠ 0 ∧ (s.work.work config.clientLoop).running = false
  | .swapFunctors loop =>
      s.work.Enabled targetCapture config.loops (.swapFunctors loop)
  | .callFunctor loop _ _ =>
      s.work.Enabled targetCapture config.loops (.callFunctor loop)
  | .returnFunctor loop =>
      s.work.Enabled targetCapture config.loops (.returnFunctor loop)
  | .returnFunctors loop =>
      s.work.Enabled targetCapture config.loops (.returnFunctors loop)

end SharedTargets

/-- The threads of the server, of the client and of the application. -/
def sharedMachine [DecidableEq K] [DecidableEq T] (config : TargetConfig T) :
    Machine (SharedTargets A K T) (SharedStep A K T) where
  enabled := SharedTargets.Enabled config
  exec s step := some
    { work := s.work.applyAll targetCapture
        (SharedTargets.operations config s step).2
      flags := (SharedTargets.operations config s step).1 }

end Libsaf
