/-
`saf::UdpServer` with its connections and their loops.  Datagrams are received
on the loop of the server into one buffer and handed as functors to the loops of
the connections; any thread may close a connection; a timer closes those that
have expired; and `stop` closes what it finds in the table.
-/
import Libsaf.BufferRead
import Libsaf.MachineInt
import Libsaf.ServerTable
import Libsaf.TcpServer
import Libsaf.UdpConnection

namespace Libsaf

universe u v

variable {K : Type u} {T : Type v}

/-- The thread of the server and those of the worker loops, the descriptor of
the acceptor's socket, and which callbacks the server has. -/
structure UdpServerConfig (T : Type v) where
  master : T
  pairs : List T
  fd : Int
  recvMessage : Bool
  writeComplete : Bool
  connectChange : Bool

/-- The loop of a connection. -/
def UdpServerConfig.loopOf (config : UdpServerConfig T) (c : Nat) : T :=
  getNextLoop config.master config.pairs c

/-- One worker loop, and all callbacks. -/
def UdpServerConfig.oneWorker : UdpServerConfig Bool :=
  ⟨false, [true], 5, true, true, true⟩

/-- What is queued on the loop of a connection.  `accepted` is the time at which
`recvMessageInLoop` took the datagram. -/
inductive UdpTask where
  | onConnectEstablished (c : Nat)
  | handleRead (c : Nat) (data : List UInt8) (accepted : Int)
  | closeInLoop (c : Nat)
deriving Repr, DecidableEq

/-- The methods of a connection that call its callbacks. -/
inductive UdpCall where
  | onConnectEstablished
  | handleRead (data : List UInt8)
  | closeInLoop
deriving Repr, DecidableEq

/-- The calls of the callbacks; `connected` is what `isConnected` says then. -/
inductive UdpCallback where
  | connectChange (connected : Bool)
  | message
deriving Repr, DecidableEq

/-- A datagram that was accepted. -/
structure Datagram (K : Type u) where
  key : K
  data : List UInt8
  accepted : Int
deriving Repr, DecidableEq

/-- A connection that the check removed at the time `now`, and the times at
which datagrams of its peer had been accepted until then. -/
structure Expiry where
  conn : Nat
  now : Int
  accepted : List Int
deriving Repr, DecidableEq

/-- Where the thread of the server is: between two events, in
`checkExpiredInLoop` with the entries still to be tested and those to be
closed, or in the functor of `stop`. -/
inductive UdpPhase where
  | running
  | checking (now : Int) (rest deletes : List Nat)
  | stopping (rest : List Nat)
  | stopped
deriving Repr, DecidableEq

namespace UdpPhase

/-- The thread of the server has returned to its loop. -/
def isIdle : UdpPhase → Bool
  | .running | .stopped => true
  | .checking _ _ _ | .stopping _ => false

/-- The entries that the check has still to test. -/
def toCheck : UdpPhase → List Nat
  | .checking _ rest _ => rest
  | .running | .stopping _ | .stopped => []

/-- The expired connections that the check has still to close. -/
def toExpire : UdpPhase → List Nat
  | .checking _ _ deletes => deletes
  | .running | .stopping _ | .stopped => []

/-- The entries that `stop` has still to visit. -/
def toVisit : UdpPhase → List Nat
  | .stopping rest => rest
  | .running | .checking _ _ _ | .stopped => []

def isChecking : UdpPhase → Bool
  | .checking _ _ _ => true
  | .running | .stopping _ | .stopped => false

end UdpPhase

/-- A loop goes by the name of its thread, and `tasks` holds what is queued on
it and not yet called.  `frames` are the connections whose `closeInLoop` waits
on a thread for the connect-change callback, the innermost first.  `calls`,
`callbacks`, `received` and `expired` are the history. -/
structure UdpServer (K : Type u) (T : Type v) where
  table : ServerTable K
  conns : Nat → UdpConnection
  inputBuffer : Buffer
  tasks : T → List UdpTask
  frames : T → List Nat
  phase : UdpPhase
  clock : Int
  calls : Nat → List UdpCall
  callbacks : Nat → List UdpCallback
  received : List (Datagram K)
  expired : List Expiry

/-- `now` is what `timestamp` returns, and `left` the input buffer as the
message callback leaves it. -/
inductive UdpServerStep (K : Type u) (T : Type v) where
  | recvDatagram (key : K) (data : List UInt8) (now : Int)
  | checkExpired (now : Int)
  | checkEntry (c : Nat)
  | closeExpired
  | checked
  | close (thread : T) (c : Nat)
  | callFunctor (thread : T) (now : Int) (left : Buffer)
  | returnCallback (thread : T)
  | swapRemovals
  | callRemoval
  | returnRemovals
  | stop
  | visit (c : Nat)
  | stopped
deriving Repr, DecidableEq

namespace UdpServer

def start : UdpServer K T :=
  { table := .start
    conns := fun _ => .ofAddr
    inputBuffer := Buffer.ofSize Buffer.kInitialSize
    tasks := fun _ => []
    frames := fun _ => []
    phase := .running
    clock := 0
    calls := fun _ => []
    callbacks := fun _ => []
    received := []
    expired := [] }

/-- A call of a method of a connection and of the callback, if it is set. -/
def log (s : UdpServer K T) (c : Nat) (call : UdpCall)
    (callback : Option UdpCallback) : UdpServer K T :=
  { s with
    calls := Function.update s.calls c (s.calls c ++ [call])
    callbacks := Function.update s.callbacks c
      (s.callbacks c ++ callback.toList) }

/-- `UdpConnection::onConnectEstablishedInLoop`. -/
def onConnectEstablishedInLoop (s : UdpServer K T) (c : Nat) :
    UdpServer K T :=
  let conn := (s.conns c).onConnectEstablishedInLoop
  { s with
    table := { s.table with
      established := Function.update s.table.established c true }
    conns := Function.update s.conns c conn }.log c .onConnectEstablished
      (if conn.connectChangeCallback then
        some (.connectChange conn.connecting) else none)

/-- `UdpConnection::handleReadInLoop`. -/
def handleReadInLoop (s : UdpServer K T) (c : Nat) (data : List UInt8)
    (now : Int) (left : Buffer) : Option (UdpServer K T) :=
  ((s.conns c).handleReadInLoop data left).map fun conn =>
    { s with
      table := { s.table with
        activedTime := Function.update s.table.activedTime c now }
      conns := Function.update s.conns c conn }.log c (.handleRead data)
        (if conn.recvMessageCallback then some .message else none)

/-- The datagrams of the peer of a connection, by the time of their arrival. -/
def acceptedFrom [DecidableEq K] (s : UdpServer K T) (c : Nat) : List Int :=
  (s.received.filter fun datagram =>
    s.table.made[c]? = some datagram.key).map Datagram.accepted

variable [DecidableEq T]

/-- `UdpConnection::closeInLoop` up to the return of its connect-change
callback. -/
def closeInLoop (s : UdpServer K T) (thread : T) (c : Nat) : UdpServer K T :=
  let conn := (s.conns c).closeInLoop
  { s with
    conns := Function.update s.conns c conn
    frames := Function.update s.frames thread (c :: s.frames thread) }.log c
      .closeInLoop
      (if conn.connectChangeCallback then
        some (.connectChange conn.connecting) else none)

def queueInLoop (s : UdpServer K T) (loop : T) (task : UdpTask) :
    UdpServer K T :=
  { s with tasks := Function.update s.tasks loop (s.tasks loop ++ [task]) }

/-- `UdpConnection::close`: on the thread of its loop the functor is called at
once. -/
def close (config : UdpServerConfig T) (s : UdpServer K T) (thread : T)
    (c : Nat) : UdpServer K T :=
  let s := { s with
    table := { s.table with
      closing := Function.update s.table.closing c true }
    conns := Function.update s.conns c (s.conns c).closeInLoop }
  if thread = config.loopOf c then s.closeInLoop thread c
  else s.queueInLoop (config.loopOf c) (.closeInLoop c)

/-- The next functor of a loop is called. -/
def callFunctor (s : UdpServer K T) (thread : T) (now : Int) (left : Buffer) :
    Option (UdpServer K T) :=
  match s.tasks thread with
  | [] => none
  | task :: rest =>
      let s := { s with
        tasks := Function.update s.tasks thread rest
        clock := now }
      match task with
      | .onConnectEstablished c => some (s.onConnectEstablishedInLoop c)
      | .handleRead c data _ => s.handleReadInLoop c data now left
      | .closeInLoop c => some (s.closeInLoop thread c)

/-- The connect-change callback returns, and the close callback is called. -/
def returnCallback (s : UdpServer K T) (thread : T) :
    Option (UdpServer K T) :=
  match s.frames thread with
  | [] => none
  | c :: rest => some { s with
      table := s.table.closeInLoop c
      frames := Function.update s.frames thread rest }

variable [DecidableEq K]

/-- The connection of a peer, a new one where there is none. -/
def connectionOf (config : UdpServerConfig T) (s : UdpServer K T) (key : K)
    (now : Int) : Nat × UdpServer K T :=
  match s.table.connections key with
  | some c => (c, s)
  | none =>
      let c := s.table.made.length
      (c, { s with
        table := s.table.newConnectionInLoop key now
        conns := Function.update s.conns c
          (UdpConnection.ofAddr.bindDefaultCallbacks config.fd
            config.recvMessage config.writeComplete config.connectChange)
        }.queueInLoop (config.loopOf c) (.onConnectEstablished c))

/-- `UdpServer::recvMessageInLoop`. -/
def recvMessageInLoop (config : UdpServerConfig T) (s : UdpServer K T)
    (key : K) (now : Int) : Option (UdpServer K T) :=
  let (c, t) := s.connectionOf config key now
  t.inputBuffer.retrieveAllAsString.map fun (copied, inputBuffer) =>
    ({ t with inputBuffer := inputBuffer } : UdpServer K T).queueInLoop
      (config.loopOf c) (.handleRead c copied now)

/-- `UdpAcceptor::handleReadInLoop` with a datagram that was received.  What
`recvfrom` delivers goes into the history here, before the buffer is read. -/
def recvDatagram (config : UdpServerConfig T) (s : UdpServer K T) (key : K)
    (data : List UInt8) (now : Int) : Option (UdpServer K T) :=
  (s.inputBuffer.readFrom data).bind fun inputBuffer =>
    (recvMessageInLoop config { s with
      inputBuffer := inputBuffer
      clock := now
      received := s.received ++ [⟨key, data, now⟩] } key now).map
        fun s => { s with inputBuffer := s.inputBuffer.retrieveAll }

/-- The connections that are stored in the table. -/
def stored (s : UdpServer K T) : List Nat :=
  (List.range s.table.made.length).filter fun c =>
    s.table.made[c]?.bind s.table.connections = some c

/-- The next entry in the first loop of `checkExpiredInLoop`. -/
def checkEntry (s : UdpServer K T) (c : Nat) : Option (UdpServer K T) :=
  match s.phase with
  | .checking now rest deletes =>
      let rest := rest.filter (· ≠ c)
      if s.table.isExpired now c then some { s with
        table := { s.table with
          connections := fun key =>
            (s.table.connections key).filter (· ≠ c)
          dropped := Function.update s.table.dropped c true }
        phase := .checking now rest (deletes ++ [c])
        expired := s.expired ++ [⟨c, now, s.acceptedFrom c⟩] }
      else some { s with phase := .checking now rest deletes }
  | _ => none

/-- The next connection in its second loop. -/
def closeExpired (config : UdpServerConfig T) (s : UdpServer K T) :
    Option (UdpServer K T) :=
  match s.phase with
  | .checking now rest (c :: deletes) =>
      some ({ s with phase := .checking now rest deletes }.close config
        config.master c)
  | _ => none

/-- The functor of `stop` takes the close callback and the socket away from the
next connection and closes it. -/
def visit (config : UdpServerConfig T) (s : UdpServer K T) (c : Nat) :
    Option (UdpServer K T) :=
  match s.phase with
  | .stopping rest =>
      some ({ s with
        table := { s.table with
          closeCallback := Function.update s.table.closeCallback c false }
        conns := Function.update s.conns c (s.conns c).unbindDefaultCallbacks
        phase := .stopping (rest.filter (· ≠ c)) }.close config
          config.master c)
  | _ => none

/-- `removeConnectionInLoop` takes the socket away, too. -/
def callRemoval (s : UdpServer K T) : Option (UdpServer K T) :=
  ((serverMachine K .udp).exec s.table .callFunctor).map fun table =>
    { s with
      table := table
      conns := fun c =>
        if s.table.functors.batch.head? = some c then
          (s.conns c).unbindDefaultCallbacks
        else s.conns c }

/-- The thread of the server is between two events of its loop. -/
def Free (config : UdpServerConfig T) (s : UdpServer K T) : Prop :=
  s.frames config.master = [] ∧ s.phase.isIdle = true

end UdpServer

/-- Only the running server receives and checks, and the functor of `stop` is
called once.  The application knows a connection from its callbacks; on the
thread of the server it closes it between two events or in a callback. -/
def udpServerMachine (K : Type u) [DecidableEq K] [DecidableEq T]
    (config : UdpServerConfig T) :
    Machine (UdpServer K T) (UdpServerStep K T) where
  enabled s
    | .recvDatagram _ data now => s.Free config ∧ s.phase = .running ∧
        data.length ≤ 65536 ∧ s.clock ≤ now
    | .checkExpired now => s.Free config ∧ s.phase = .running ∧ s.clock ≤ now
    | .checkEntry c => c ∈ s.phase.toCheck
    | .closeExpired => s.frames config.master = [] ∧ s.phase.toCheck = [] ∧
        s.phase.toExpire ≠ []
    | .checked => s.frames config.master = [] ∧ s.phase.isChecking = true ∧
        s.phase.toCheck = [] ∧ s.phase.toExpire = []
    | .close thread c => c < s.table.made.length ∧ s.callbacks c ≠ [] ∧
        (thread = config.master →
          s.phase.isIdle = true ∨ s.frames config.master ≠ [])
    | .callFunctor thread now _ => s.frames thread = [] ∧
        s.tasks thread ≠ [] ∧ s.clock ≤ now ∧
        (thread = config.master → s.phase.isIdle = true)
    | .returnCallback thread => s.frames thread ≠ []
    | .swapRemovals => s.Free config ∧
        (serverMachine K .udp).enabled s.table .swapFunctors
    | .callRemoval => s.Free config ∧
        (serverMachine K .udp).enabled s.table .callFunctor
    | .returnRemovals => s.Free config ∧
        (serverMachine K .udp).enabled s.table .returnFunctors
    | .stop => s.Free config ∧ s.phase = .running
    | .visit c => s.frames config.master = [] ∧ c ∈ s.phase.toVisit
    | .stopped => s.frames config.master = [] ∧ s.phase = .stopping []
  exec s
    | .recvDatagram key data now => s.recvDatagram config key data now
    | .checkExpired now =>
        some { s with phase := .checking now s.stored [], clock := now }
    | .checkEntry c => s.checkEntry c
    | .closeExpired => s.closeExpired config
    | .checked => some { s with phase := .running }
    | .close thread c => some (s.close config thread c)
    | .callFunctor thread now left => s.callFunctor thread now left
    | .returnCallback thread => s.returnCallback thread
    | .swapRemovals =>
        ((serverMachine K .udp).exec s.table .swapFunctors).map
          fun table => { s with table := table }
    | .callRemoval => s.callRemoval
    | .returnRemovals =>
        ((serverMachine K .udp).exec s.table .returnFunctors).map
          fun table => { s with table := table }
    | .stop => some { s with phase := .stopping s.stored }
    | .visit c => s.visit config c
    | .stopped => some { s with
        table := { s.table with connections := fun _ => none }
        phase := .stopped }

/-- The connection of a task, and the method that it calls. -/
def UdpTask.conn : UdpTask → Nat
  | .onConnectEstablished c | .handleRead c _ _ | .closeInLoop c => c

def UdpTask.call : UdpTask → UdpCall
  | .onConnectEstablished _ => .onConnectEstablished
  | .handleRead _ data _ => .handleRead data
  | .closeInLoop _ => .closeInLoop

/-- The callback that a method calls, if the server has it. -/
def UdpServerConfig.callback (config : UdpServerConfig T) :
    UdpCall → Option UdpCallback
  | .onConnectEstablished =>
      if config.connectChange then some (.connectChange true) else none
  | .handleRead _ => if config.recvMessage then some .message else none
  | .closeInLoop =>
      if config.connectChange then some (.connectChange false) else none

/-- The calls that a connection is still to get by the tasks of a list. -/
def callsOf (tasks : List UdpTask) (c : Nat) : List UdpCall :=
  (tasks.filter fun task => task.conn = c).map UdpTask.call

@[simp] theorem callsOf_nil (c : Nat) : callsOf [] c = [] := rfl

@[simp] theorem callsOf_append (front back : List UdpTask) (c : Nat) :
    callsOf (front ++ back) c = callsOf front c ++ callsOf back c := by
  simp [callsOf]

theorem callsOf_singleton (task : UdpTask) (c : Nat) :
    callsOf [task] c = if task.conn = c then [task.call] else [] := by
  by_cases h : task.conn = c <;> simp [callsOf, h]

theorem callsOf_eq_nil {tasks : List UdpTask} {c : Nat}
    (h : ∀ task ∈ tasks, task.conn ≠ c) : callsOf tasks c = [] := by
  rw [callsOf, List.map_eq_nil_iff, List.filter_eq_nil_iff]
  simpa using h

namespace UdpServer

variable {config : UdpServerConfig T} {s : UdpServer K T}

/-- The calls that a connection has had, and those that are queued for it. -/
def upcoming (config : UdpServerConfig T) (s : UdpServer K T) (c : Nat) :
    List UdpCall :=
  s.calls c ++ callsOf (s.tasks (config.loopOf c)) c

/-- How the parts of the state fit together. -/
structure Wired (config : UdpServerConfig T) (s : UdpServer K T) : Prop where
  tasks : ∀ loop, ∀ task ∈ s.tasks loop,
    loop = config.loopOf task.conn ∧ task.conn < s.table.made.length ∧
      (task.call = .closeInLoop → s.table.closing task.conn = true)
  fresh : ∀ c, s.table.made.length ≤ c → s.calls c = []
  callbacks : ∀ c, s.callbacks c = (s.calls c).filterMap config.callback
  flags : ∀ c < s.table.made.length,
    (s.conns c).recvMessageCallback = config.recvMessage ∧
      (s.conns c).connectChangeCallback = config.connectChange
  buffer : s.inputBuffer.asString = []
  stored : ∀ key c, s.table.connections key = some c →
    s.table.made[c]? = some key
  phase : ∀ c, c ∈ s.phase.toCheck ∨ c ∈ s.phase.toExpire ∨
    c ∈ s.phase.toVisit → c < s.table.made.length
  frames : ∀ thread, ∀ c ∈ s.frames thread, c < s.table.made.length ∧
    s.table.closing c = true
  removals : ∀ c ∈ s.table.functors.pending, c < s.table.made.length

theorem start_wired : (start : UdpServer K T).Wired config where
  tasks _ _ h := absurd h List.not_mem_nil
  fresh _ _ := rfl
  callbacks _ := rfl
  flags _ h := absurd h (Nat.not_lt_zero _)
  buffer := rfl
  stored _ _ h := by cases h
  phase _ h := by rcases h with h | h | h <;> cases h
  frames _ _ h := absurd h List.not_mem_nil
  removals _ h := absurd h List.not_mem_nil

/-- No functor waits for a connection that is yet to be made. -/
theorem Wired.upcoming_fresh (h : s.Wired config) {c : Nat}
    (hc : s.table.made.length ≤ c) : s.upcoming config c = [] := by
  rw [upcoming, h.fresh c hc, callsOf_eq_nil, List.append_nil]
  intro task htask heq
  have hlt := (h.tasks _ task htask).2.1
  omega

/-- Everything but the entries of the connections themselves. -/
theorem Wired.withTable (h : s.Wired config) {table : ServerTable K}
    (hmade : table.made = s.table.made)
    (hstored : ∀ key c, table.connections key = some c →
      s.table.connections key = some c)
    (hclosing : ∀ c, s.table.closing c = true → table.closing c = true)
    (hremovals : ∀ c ∈ table.functors.pending, c < s.table.made.length) :
    Wired config { s with table := table } := by
  constructor
  · intro loop task htask
    obtain ⟨hloop, hconn, hclose⟩ := h.tasks loop task htask
    exact ⟨hloop, hmade ▸ hconn, fun hcall => hclosing _ (hclose hcall)⟩
  · exact fun c hc => h.fresh c (hmade ▸ hc)
  · exact h.callbacks
  · exact fun c hc => h.flags c (hmade ▸ hc)
  · exact h.buffer
  · exact fun key c hkey => hmade ▸ h.stored key c (hstored key c hkey)
  · exact fun c hc => hmade ▸ h.phase c hc
  · intro thread c hc
    obtain ⟨hmem, hclose⟩ := h.frames thread c hc
    exact ⟨hmade ▸ hmem, hclosing c hclose⟩
  · exact fun c hc => hmade ▸ hremovals c hc

/-- Connections keep their callbacks. -/
theorem Wired.withConns (h : s.Wired config) {conns : Nat → UdpConnection}
    (hconns : ∀ c, (conns c).recvMessageCallback =
        (s.conns c).recvMessageCallback ∧
      (conns c).connectChangeCallback = (s.conns c).connectChangeCallback) :
    Wired config { s with conns := conns } := by
  refine ⟨h.tasks, h.fresh, h.callbacks, fun c hc => ?_, h.buffer, h.stored,
    h.phase, h.frames, h.removals⟩
  obtain ⟨hmessage, hchange⟩ := h.flags c hc
  exact ⟨(hconns c).1.trans hmessage, (hconns c).2.trans hchange⟩

/-- One connection changes something else. -/
theorem Wired.updateConn (h : s.Wired config) {c : Nat} {conn : UdpConnection}
    (hmessage : conn.recvMessageCallback = (s.conns c).recvMessageCallback)
    (hchange : conn.connectChangeCallback =
      (s.conns c).connectChangeCallback) :
    Wired config { s with conns := Function.update s.conns c conn } := by
  refine h.withConns fun d => ?_
  by_cases hd : d = c
  · subst hd
    rw [Function.update_self]
    exact ⟨hmessage, hchange⟩
  · rw [Function.update_of_ne hd]
    exact ⟨rfl, rfl⟩

theorem Wired.withPhase (h : s.Wired config) {phase : UdpPhase}
    (hphase : ∀ c, c ∈ phase.toCheck ∨ c ∈ phase.toExpire ∨
      c ∈ phase.toVisit → c < s.table.made.length) (now : Int) :
    Wired config { s with phase := phase, clock := now } :=
  ⟨h.tasks, h.fresh, h.callbacks, h.flags, h.buffer, h.stored, hphase,
    h.frames, h.removals⟩

theorem Wired.withFrames (h : s.Wired config) {frames : T → List Nat}
    (hframes : ∀ thread, ∀ c ∈ frames thread, c < s.table.made.length ∧
      s.table.closing c = true) :
    Wired config { s with frames := frames } :=
  ⟨h.tasks, h.fresh, h.callbacks, h.flags, h.buffer, h.stored, h.phase,
    hframes, h.removals⟩

/-- A method of a connection is called. -/
theorem Wired.log (h : s.Wired config) {c : Nat}
    (hc : c < s.table.made.length) (call : UdpCall) :
    (s.log c call (config.callback call)).Wired config := by
  refine ⟨h.tasks, fun d hd => ?_, fun d => ?_, h.flags, h.buffer, h.stored,
    h.phase, h.frames, h.removals⟩
  · have hne : d ≠ c := by
      rintro rfl
      exact absurd hd (Nat.not_le.mpr hc)
    simp only [UdpServer.log, Function.update_of_ne hne]
    exact h.fresh d hd
  · by_cases hd : d = c
    · subst hd
      simp [UdpServer.log, h.callbacks d, List.filterMap_cons]
      cases config.callback call <;> rfl
    · simp only [UdpServer.log, Function.update_of_ne hd]
      exact h.callbacks d

theorem upcoming_log (c : Nat) (call : UdpCall)
    (callback : Option UdpCallback) (d : Nat) :
    (s.log c call callback).upcoming config d =
      if d = c then s.calls c ++ call :: callsOf (s.tasks (config.loopOf c)) c
      else s.upcoming config d := by
  split
  · next h =>
      subst h
      simp [upcoming, UdpServer.log]
  · next h => simp [upcoming, UdpServer.log, h]

variable [DecidableEq T]

theorem Wired.queueInLoop (h : s.Wired config) (task : UdpTask)
    (hconn : task.conn < s.table.made.length)
    (hclose : task.call = .closeInLoop →
      s.table.closing task.conn = true) :
    (s.queueInLoop (config.loopOf task.conn) task).Wired config := by
  refine ⟨fun loop queued hqueued => ?_, h.fresh, h.callbacks, h.flags,
    h.buffer, h.stored, h.phase, h.frames, h.removals⟩
  by_cases hloop : loop = config.loopOf task.conn
  · subst hloop
    simp only [UdpServer.queueInLoop, Function.update_self, List.mem_append,
      List.mem_singleton] at hqueued
    rcases hqueued with hold | rfl
    · exact h.tasks _ queued hold
    · exact ⟨rfl, hconn, hclose⟩
  · simp only [UdpServer.queueInLoop, Function.update_of_ne hloop] at hqueued
    exact h.tasks loop queued hqueued

/-- A functor that is queued is the last of what a connection is to get. -/
theorem Wired.closeInLoop (h : s.Wired config) (thread : T) {c : Nat}
    (hc : c < s.table.made.length) (hclosing : s.table.closing c = true) :
    (s.closeInLoop thread c).Wired config := by
  have hconn : (s.conns c).closeInLoop.connectChangeCallback =
      config.connectChange := (h.flags c hc).2
  have hcallback : (if (s.conns c).closeInLoop.connectChangeCallback then
      some (UdpCallback.connectChange (s.conns c).closeInLoop.connecting)
      else none) = config.callback .closeInLoop := by
    rw [hconn]
    rfl
  have hconns : Wired config { s with
      conns := Function.update s.conns c (s.conns c).closeInLoop } :=
    h.updateConn rfl rfl
  have hframes : Wired config { s with
      conns := Function.update s.conns c (s.conns c).closeInLoop
      frames := Function.update s.frames thread (c :: s.frames thread) } := by
    apply hconns.withFrames
    intro other d hd
    by_cases hother : other = thread
    · subst hother
      rw [Function.update_self, List.mem_cons] at hd
      rcases hd with rfl | hold
      · exact ⟨hc, hclosing⟩
      · exact h.frames other d hold
    · rw [Function.update_of_ne hother] at hd
      exact h.frames other d hd
  have hlog := hframes.log hc .closeInLoop
  rw [← hcallback] at hlog
  exact hlog

theorem upcoming_closeInLoop (thread : T) (c d : Nat) :
    (s.closeInLoop thread c).upcoming config d =
      if d = c then
        s.calls c ++ .closeInLoop :: callsOf (s.tasks (config.loopOf c)) c
      else s.upcoming config d :=
  upcoming_log ..

theorem Wired.close (h : s.Wired config) (thread : T) {c : Nat}
    (hc : c < s.table.made.length) :
    (s.close config thread c).Wired config := by
  have hbegun : Wired config { s with
      table := { s.table with
        closing := Function.update s.table.closing c true }
      conns := Function.update s.conns c (s.conns c).closeInLoop } := by
    have htable : Wired config { s with table := { s.table with
        closing := Function.update s.table.closing c true } } := by
      refine h.withTable rfl (fun _ _ hkey => hkey) (fun d hd => ?_) h.removals
      by_cases heq : d = c
      · subst heq
        exact Function.update_self ..
      · simpa [heq] using hd
    exact htable.updateConn rfl rfl
  have hclosing : Function.update s.table.closing c true c = true :=
    Function.update_self ..
  unfold UdpServer.close
  split
  · exact hbegun.closeInLoop thread hc hclosing
  · exact hbegun.queueInLoop (.closeInLoop c) hc fun _ => hclosing

omit [DecidableEq T] in
theorem Wired.onConnectEstablishedInLoop (h : s.Wired config) {c : Nat}
    (hc : c < s.table.made.length) :
    (s.onConnectEstablishedInLoop c).Wired config := by
  have hconn : (s.conns c).onConnectEstablishedInLoop.connectChangeCallback =
      config.connectChange := (h.flags c hc).2
  have hcallback :
      (if (s.conns c).onConnectEstablishedInLoop.connectChangeCallback then
        some (UdpCallback.connectChange
          (s.conns c).onConnectEstablishedInLoop.connecting)
        else none) = config.callback .onConnectEstablished := by
    rw [hconn]
    rfl
  have htable : Wired config { s with table := { s.table with
      established := Function.update s.table.established c true } } :=
    h.withTable rfl (fun _ _ hkey => hkey) (fun _ hd => hd) h.removals
  have hconns : Wired config { s with
      table := { s.table with
        established := Function.update s.table.established c true }
      conns := Function.update s.conns c
        (s.conns c).onConnectEstablishedInLoop } :=
    htable.updateConn rfl rfl
  have hlog := hconns.log hc .onConnectEstablished
  rw [← hcallback] at hlog
  exact hlog

omit [DecidableEq T] in
/-- The input buffer takes any datagram, whatever is left in it. -/
theorem Wired.handleReadInLoop (h : s.Wired config) {c : Nat}
    (hc : c < s.table.made.length) (data : List UInt8) (now : Int)
    (left : Buffer) :
    ∃ conn, s.handleReadInLoop c data now left = some ({ s with
        table := { s.table with
          activedTime := Function.update s.table.activedTime c now }
        conns := Function.update s.conns c conn }.log c (.handleRead data)
          (config.callback (.handleRead data))) ∧
      Wired config ({ s with
        table := { s.table with
          activedTime := Function.update s.table.activedTime c now }
        conns := Function.update s.conns c conn }.log c (.handleRead data)
          (config.callback (.handleRead data))) := by
  obtain ⟨buffer, happend, _⟩ := (s.conns c).inputBuffer.append_spec data
  let conn : UdpConnection := { s.conns c with
    inputBuffer := if (s.conns c).recvMessageCallback then left
      else buffer.retrieveAll }
  have hread : (s.conns c).handleReadInLoop data left = some conn := by
    rw [UdpConnection.handleReadInLoop, happend, Option.map_some]
  have hcallback : (if conn.recvMessageCallback then some UdpCallback.message
      else none) = config.callback (.handleRead data) := by
    rw [show conn.recvMessageCallback = config.recvMessage from
      (h.flags c hc).1]
    rfl
  refine ⟨conn, ?_, ?_⟩
  · rw [UdpServer.handleReadInLoop, hread, Option.map_some, hcallback]
  · have htable : Wired config { s with table := { s.table with
        activedTime := Function.update s.table.activedTime c now } } :=
      h.withTable rfl (fun _ _ hkey => hkey) (fun _ hd => hd) h.removals
    have hconns : Wired config { s with
        table := { s.table with
          activedTime := Function.update s.table.activedTime c now }
        conns := Function.update s.conns c conn } :=
      htable.updateConn rfl rfl
    exact hconns.log hc (.handleRead data)

/-- The activity times after the call of a functor. -/
def activedAfter (s : UdpServer K T) (task : UdpTask) (now : Int) :
    Nat → Int :=
  match task with
  | .handleRead c _ _ => Function.update s.table.activedTime c now
  | .onConnectEstablished _ | .closeInLoop _ => s.table.activedTime

/-- What the call of a functor does to the rest of the server. -/
structure Called (s s' : UdpServer K T) (thread : T) (task : UdpTask)
    (rest : List UdpTask) (now : Int) : Prop where
  head : s.tasks thread = task :: rest
  tasks : s'.tasks = Function.update s.tasks thread rest
  calls : s'.calls = Function.update s.calls task.conn
    (s.calls task.conn ++ [task.call])
  frames : s'.frames =
    if task.call = .closeInLoop then
      Function.update s.frames thread (task.conn :: s.frames thread)
    else s.frames
  made : s'.table.made = s.table.made
  connections : s'.table.connections = s.table.connections
  closing : s'.table.closing = s.table.closing
  activedTime : s'.table.activedTime = s.activedAfter task now
  clock : s'.clock = now
  phase : s'.phase = s.phase
  received : s'.received = s.received
  expired : s'.expired = s.expired

/-- A functor of the connections is called. -/
theorem Wired.callFunctor (h : s.Wired config) {thread : T} (now : Int)
    (left : Buffer) (hsome : s.tasks thread ≠ []) :
    ∃ s', s.callFunctor thread now left = some s' ∧ s'.Wired config ∧
      (∀ c, s'.upcoming config c = s.upcoming config c) ∧
      ∃ task rest, s.Called s' thread task rest now := by
  obtain ⟨task, rest, htasks⟩ := List.exists_cons_of_ne_nil hsome
  obtain ⟨hthread, hconn, hclose⟩ := h.tasks thread task (by simp [htasks])
  let t : UdpServer K T := { s with
    tasks := Function.update s.tasks thread rest
    clock := now }
  have ht : t.Wired config := by
    refine ⟨fun loop queued hqueued => ?_, h.fresh, h.callbacks, h.flags,
      h.buffer, h.stored, h.phase, h.frames, h.removals⟩
    by_cases hloop : loop = thread
    · subst hloop
      simp only [t, Function.update_self] at hqueued
      exact h.tasks _ queued (by simp [htasks, hqueued])
    · simp only [t, Function.update_of_ne hloop] at hqueued
      exact h.tasks loop queued hqueued
  have hupcoming : ∀ c, s.upcoming config c =
      t.calls c ++ (if c = task.conn then [task.call] else []) ++
        callsOf (t.tasks (config.loopOf c)) c := by
    intro c
    by_cases hloop : config.loopOf c = thread
    · have hcons : callsOf (task :: rest) c =
          callsOf [task] c ++ callsOf rest c := callsOf_append [task] rest c
      simp [upcoming, t, hloop, htasks, hcons, callsOf_singleton, eq_comm]
    · have hne : c ≠ task.conn := by
        rintro rfl
        exact hloop hthread.symm
      simp [upcoming, t, hloop, hne]
  have hcalled : ∀ s' : UdpServer K T,
      (∀ d, s'.upcoming config d = if d = task.conn then
        t.calls task.conn ++ task.call ::
          callsOf (t.tasks (config.loopOf task.conn)) task.conn
        else t.upcoming config d) →
      ∀ d, s'.upcoming config d = s.upcoming config d := by
    intro s' hs' d
    rw [hs' d, hupcoming d]
    by_cases hd : d = task.conn
    · subst hd
      simp
    · simp [hd, upcoming]
  cases task with
  | onConnectEstablished c =>
      refine ⟨t.onConnectEstablishedInLoop c, ?_,
        ht.onConnectEstablishedInLoop hconn, hcalled _ fun d =>
          upcoming_log c .onConnectEstablished _ d,
        .onConnectEstablished c, rest, htasks, rfl, rfl, rfl, rfl, rfl, rfl,
        rfl, rfl, rfl, rfl, rfl⟩
      simp only [UdpServer.callFunctor, htasks, t]
  | handleRead c data accepted =>
      obtain ⟨conn, hread, hwired⟩ := ht.handleReadInLoop hconn data now left
      refine ⟨_, ?_, hwired, hcalled _ fun d =>
          upcoming_log c (.handleRead data) _ d,
        .handleRead c data accepted, rest, htasks, rfl, rfl, rfl, rfl, rfl,
        rfl, rfl, rfl, rfl, rfl, rfl⟩
      simp only [UdpServer.callFunctor, htasks]
      exact hread
  | closeInLoop c =>
      refine ⟨t.closeInLoop thread c, ?_,
        ht.closeInLoop thread hconn (hclose rfl),
        hcalled _ fun d => upcoming_closeInLoop thread c d,
        .closeInLoop c, rest, htasks, rfl, rfl, rfl, rfl, rfl, rfl, rfl, rfl,
        rfl, rfl, rfl⟩
      simp only [UdpServer.callFunctor, htasks, t]

variable [DecidableEq K]

/-- What a datagram puts on the loop of its connection. -/
def passed (s : UdpServer K T) (key : K) (data : List UInt8) (now : Int)
    (c : Nat) : List UdpTask :=
  (if s.table.connections key = none then [.onConnectEstablished c] else []) ++
    [.handleRead c data now]

/-- A connection is made for a peer that has none. -/
structure Made (s s' : UdpServer K T) (key : K) (now : Int) (c : Nat) :
    Prop where
  unknown : s.table.connections key = none
  conn : c = s.table.made.length
  made : s'.table.made = s.table.made ++ [key]
  connections : s'.table.connections =
    Function.update s.table.connections key (some c)
  activedTime : s'.table.activedTime =
    Function.update s.table.activedTime c now
  closing : s'.table.closing = Function.update s.table.closing c false

/-- The peer has a connection already. -/
structure Known (s s' : UdpServer K T) (key : K) (c : Nat) : Prop where
  known : s.table.connections key = some c
  table : s'.table = s.table

/-- What a datagram does to the server. -/
structure Accepted (config : UdpServerConfig T) (s s' : UdpServer K T)
    (key : K) (data : List UInt8) (now : Int) (c : Nat) : Prop where
  found : s.Known s' key c ∨ s.Made s' key now c
  tasks : s'.tasks = Function.update s.tasks (config.loopOf c)
    (s.tasks (config.loopOf c) ++ s.passed key data now c)
  calls : s'.calls = s.calls
  frames : s'.frames = s.frames
  received : s'.received = s.received ++ [⟨key, data, now⟩]
  clock : s'.clock = now
  phase : s'.phase = s.phase
  expired : s'.expired = s.expired

omit [DecidableEq T] in
theorem Wired.newConnectionInLoop (h : s.Wired config) (key : K) (now : Int) :
    Wired config { s with
      table := s.table.newConnectionInLoop key now
      conns := Function.update s.conns s.table.made.length
        (UdpConnection.ofAddr.bindDefaultCallbacks config.fd
          config.recvMessage config.writeComplete config.connectChange) } := by
  have hlength : (s.table.newConnectionInLoop key now).made.length =
      s.table.made.length + 1 := by
    simp [ServerTable.newConnectionInLoop]
  have hle : s.table.made.length ≤
      (s.table.newConnectionInLoop key now).made.length := by
    omega
  have hbelow : ∀ c, c < s.table.made.length →
      c < (s.table.newConnectionInLoop key now).made.length :=
    fun c hc => Nat.lt_of_lt_of_le hc hle
  have hclosing : ∀ c, c < s.table.made.length →
      (s.table.newConnectionInLoop key now).closing c =
        s.table.closing c := by
    intro c hc
    exact Function.update_of_ne (Nat.ne_of_lt hc) ..
  constructor
  · intro loop task htask
    obtain ⟨hloop, hconn, hclose⟩ := h.tasks loop task htask
    exact ⟨hloop, hbelow _ hconn, fun hcall =>
      (hclosing _ hconn).trans (hclose hcall)⟩
  · exact fun c hc => h.fresh c (Nat.le_trans hle hc)
  · exact h.callbacks
  · intro c hc
    by_cases hnew : c = s.table.made.length
    · subst hnew
      simp [UdpConnection.bindDefaultCallbacks, UdpConnection.ofAddr]
    · simp only [Function.update_of_ne hnew]
      have hlt : c < s.table.made.length + 1 := hlength ▸ hc
      exact h.flags c (by omega)
  · exact h.buffer
  · intro other c hother
    change Function.update s.table.connections key
      (some s.table.made.length) other = some c at hother
    change (s.table.made ++ [key])[c]? = some other
    by_cases hkey : other = key
    · subst hkey
      rw [Function.update_self] at hother
      obtain rfl := Option.some.inj hother
      simp
    · rw [Function.update_of_ne hkey] at hother
      have hmade := h.stored other c hother
      rw [List.getElem?_append_left (List.getElem?_eq_some_iff.mp hmade).1]
      exact hmade
  · exact fun c hc => hbelow c (h.phase c hc)
  · intro thread c hc
    obtain ⟨hmem, hclose⟩ := h.frames thread c hc
    exact ⟨hbelow c hmem, (hclosing c hmem).trans hclose⟩
  · exact fun c hc => hbelow c (h.removals c hc)

/-- A datagram is passed to the connection of its peer, unchanged. -/
theorem Wired.recvDatagram (h : s.Wired config) (key : K)
    {data : List UInt8} (now : Int) (hdata : data.length ≤ 65536) :
    ∃ s' c, s.recvDatagram config key data now = some s' ∧ s'.Wired config ∧
      s.Accepted config s' key data now c := by
  obtain ⟨buffer, hread, hstring⟩ := s.inputBuffer.readFrom_spec hdata
  rw [h.buffer, List.nil_append] at hstring
  obtain ⟨emptied, hretrieve, hempty⟩ :=
    buffer.retrieveAsString_spec (Nat.le_refl buffer.readableBytes)
  have hwhole : data.take buffer.readableBytes = data := by
    rw [← Buffer.length_asString, hstring, List.take_length]
  rw [hstring, hwhole] at hretrieve
  let u : UdpServer K T := { s with
    inputBuffer := buffer
    clock := now
    received := s.received ++ [⟨key, data, now⟩] }
  cases hkey : s.table.connections key with
  | some c =>
      have hc : c < s.table.made.length :=
        (List.getElem?_eq_some_iff.mp (h.stored key c hkey)).1
      have hfound : u.connectionOf config key now = (c, u) := by
        simp [connectionOf, u, hkey]
      let t : UdpServer K T := { s with
        inputBuffer := emptied.retrieveAll
        clock := now
        received := s.received ++ [⟨key, data, now⟩] }
      have ht : t.Wired config :=
        ⟨h.tasks, h.fresh, h.callbacks, h.flags, rfl, h.stored, h.phase,
          h.frames, h.removals⟩
      refine ⟨t.queueInLoop (config.loopOf c) (.handleRead c data now), c, ?_,
        ht.queueInLoop (.handleRead c data now) hc (fun hcall => by cases hcall),
        Or.inl ⟨hkey, rfl⟩, ?_, rfl, rfl, rfl, rfl, rfl, rfl⟩
      · simp only [UdpServer.recvDatagram, hread, Option.bind_some,
          recvMessageInLoop]
        change Option.map _ (Option.map _
          (u.connectionOf config key now).2.inputBuffer.retrieveAllAsString) = _
        rw [hfound]
        simp only [u, Buffer.retrieveAllAsString, hretrieve, Option.map_some]
        rfl
      · simp [passed, hkey, UdpServer.queueInLoop, t]
  | none =>
      let c := s.table.made.length
      let v : UdpServer K T := { u with
        table := s.table.newConnectionInLoop key now
        conns := Function.update s.conns c
          (UdpConnection.ofAddr.bindDefaultCallbacks config.fd
            config.recvMessage config.writeComplete config.connectChange) }
      have hfound : u.connectionOf config key now =
          (c, v.queueInLoop (config.loopOf c) (.onConnectEstablished c)) := by
        simp [connectionOf, u, v, c, hkey]
      let t : UdpServer K T := { v with inputBuffer := emptied.retrieveAll }
      have ht : t.Wired config := by
        have hnew := h.newConnectionInLoop key now
        exact ⟨hnew.tasks, hnew.fresh, hnew.callbacks, hnew.flags, rfl,
          hnew.stored, hnew.phase, hnew.frames, hnew.removals⟩
      have hc : c < t.table.made.length := by
        simp [t, v, c, ServerTable.newConnectionInLoop]
      have hestablish := ht.queueInLoop (.onConnectEstablished c) hc
        (fun hcall => by cases hcall)
      refine ⟨(t.queueInLoop (config.loopOf c)
          (.onConnectEstablished c)).queueInLoop (config.loopOf c)
            (.handleRead c data now), c, ?_,
        hestablish.queueInLoop (.handleRead c data now) hc
          (fun hcall => by cases hcall),
        Or.inr ⟨hkey, rfl, rfl, rfl, rfl, rfl⟩, ?_, rfl, rfl, rfl, rfl, rfl,
        rfl⟩
      · simp only [UdpServer.recvDatagram, hread, Option.bind_some,
          recvMessageInLoop]
        change Option.map _ (Option.map _
          (u.connectionOf config key now).2.inputBuffer.retrieveAllAsString) = _
        rw [hfound]
        simp only [u, v, UdpServer.queueInLoop, Buffer.retrieveAllAsString,
          hretrieve, Option.map_some]
        rfl
      · simp [passed, hkey, UdpServer.queueInLoop, t, v, u]

/-- The calls that a connection is to get because of a datagram. -/
theorem Accepted.upcoming {s' : UdpServer K T} {key : K} {data : List UInt8}
    {now : Int} {c : Nat} (h : s.Accepted config s' key data now c) (d : Nat) :
    s'.upcoming config d =
      s.upcoming config d ++ callsOf (s.passed key data now c) d := by
  rw [UdpServer.upcoming, h.calls, h.tasks]
  by_cases hloop : config.loopOf d = config.loopOf c
  · simp [UdpServer.upcoming, hloop]
  · have hnone : callsOf (s.passed key data now c) d = [] := by
      apply callsOf_eq_nil
      rintro task htask rfl
      have hconn : task.conn = c := by
        simp only [passed, List.mem_append, List.mem_singleton] at htask
        rcases htask with hnew | rfl
        · split at hnew
          · rw [List.mem_singleton.mp hnew]
            rfl
          · exact absurd hnew List.not_mem_nil
        · rfl
      exact hloop (congrArg config.loopOf hconn)
    simp [UdpServer.upcoming, hloop, hnone]

/-- The thread and the connection for which a step calls `close`. -/
def closesOn (config : UdpServerConfig T) (s : UdpServer K T) :
    UdpServerStep K T → Option (T × Nat)
  | .close thread c => some (thread, c)
  | .closeExpired => s.phase.toExpire.head?.map fun c => (config.master, c)
  | .visit c => some (config.master, c)
  | _ => none

/-- A connection is found in its entry of the table. -/
def IsStored (s : UdpServer K T) (c : Nat) : Prop :=
  s.table.made[c]?.bind s.table.connections = some c

/-- What a call of `close` does to the server. -/
structure Closed (config : UdpServerConfig T) (s s' : UdpServer K T)
    (thread : T) (c : Nat) : Prop where
  bound : c < s.table.made.length
  calls : s'.calls =
    if thread = config.loopOf c then
      Function.update s.calls c (s.calls c ++ [.closeInLoop])
    else s.calls
  tasks : s'.tasks =
    if thread = config.loopOf c then s.tasks
    else Function.update s.tasks (config.loopOf c)
      (s.tasks (config.loopOf c) ++ [.closeInLoop c])
  frames : s'.frames =
    if thread = config.loopOf c then
      Function.update s.frames thread (c :: s.frames thread)
    else s.frames
  made : s'.table.made = s.table.made
  connections : s'.table.connections = s.table.connections
  activedTime : s'.table.activedTime = s.table.activedTime
  closing : s'.table.closing = Function.update s.table.closing c true
  clock : s'.clock = s.clock
  toCheck : s'.phase.toCheck = s.phase.toCheck
  received : s'.received = s.received
  expired : s'.expired = s.expired

/-- The check finds that a connection has expired. -/
def Expires (s s' : UdpServer K T) (step : UdpServerStep K T) : Prop :=
  ∃ c now rest deletes, step = .checkEntry c ∧
    s.phase = .checking now rest deletes ∧ s.table.isExpired now c = true ∧
    s'.expired = s.expired ++ [⟨c, now, s.acceptedFrom c⟩]

/-- What the other steps do to the server. -/
structure Quiet (s s' : UdpServer K T) (step : UdpServerStep K T) : Prop where
  calls : s'.calls = s.calls
  tasks : s'.tasks = s.tasks
  made : s'.table.made = s.table.made
  connections : ∀ key c, s'.table.connections key = some c →
    s.table.connections key = some c
  kept : ¬ s.Expires s' step → step ≠ .callRemoval → step ≠ .stopped →
    s'.table.connections = s.table.connections
  activedTime : s'.table.activedTime = s.table.activedTime
  closing : s'.table.closing = s.table.closing
  clock : s.clock ≤ s'.clock
  checking : (∀ c ∈ s.phase.toCheck, s.IsStored c) →
    ∀ c ∈ s'.phase.toCheck, s'.IsStored c
  received : s'.received = s.received
  expired : s'.expired = s.expired ∨ s.Expires s' step

/-- What a step does to the server. -/
inductive Effect (config : UdpServerConfig T) (s s' : UdpServer K T) :
    UdpServerStep K T → Prop where
  | accepted (key : K) (data : List UInt8) (now : Int) (c : Nat)
      (h : s.Accepted config s' key data now c) :
      Effect config s s' (.recvDatagram key data now)
  | called (thread : T) (now : Int) (left : Buffer) (task : UdpTask)
      (rest : List UdpTask) (h : s.Called s' thread task rest now)
      (hupcoming : ∀ c, s'.upcoming config c = s.upcoming config c) :
      Effect config s s' (.callFunctor thread now left)
  | closed (step : UdpServerStep K T) (thread : T) (c : Nat)
      (hcloses : s.closesOn config step = some (thread, c))
      (h : s.Closed config s' thread c) : Effect config s s' step
  | quiet (step : UdpServerStep K T)
      (hcloses : s.closesOn config step = none)
      (hother : ∀ key data now, step ≠ .recvDatagram key data now)
      (h : s.Quiet s' step) : Effect config s s' step

omit [DecidableEq K] in
theorem closed_close (thread : T) {c : Nat} (hc : c < s.table.made.length) :
    s.Closed config (s.close config thread c) thread c := by
  unfold UdpServer.close
  by_cases hthread : thread = config.loopOf c
  · constructor
    · exact hc
    all_goals simp only [if_pos hthread]; rfl
  · constructor
    · exact hc
    all_goals simp only [if_neg hthread]; rfl

omit [DecidableEq K] in
/-- `close` adds one call of `closeInLoop`, on the thread of the loop before all
that is queued. -/
theorem Closed.upcoming {s' : UdpServer K T} {thread : T} {c : Nat}
    (h : s.Closed config s' thread c) (d : Nat) :
    s'.upcoming config d =
      if d ≠ c then s.upcoming config d
      else if thread = config.loopOf c then
        s.calls c ++ .closeInLoop :: callsOf (s.tasks (config.loopOf c)) c
      else s.upcoming config c ++ [.closeInLoop] := by
  rw [UdpServer.upcoming, h.calls, h.tasks]
  by_cases hthread : thread = config.loopOf c
  · by_cases hd : d = c
    · subst hd
      simp [hthread]
    · simp [hthread, hd, UdpServer.upcoming]
  · by_cases hloop : config.loopOf d = config.loopOf c
    · by_cases hd : d = c
      · subst hd
        simp [hthread, UdpServer.upcoming, callsOf_singleton, UdpTask.conn,
          UdpTask.call]
      · simp [hthread, hd, Ne.symm hd, hloop, UdpServer.upcoming,
          callsOf_singleton, UdpTask.conn]
    · have hd : d ≠ c := by
        rintro rfl
        exact hloop rfl
      simp [hthread, hd, hloop, UdpServer.upcoming]

omit [DecidableEq T] [DecidableEq K] in
theorem mem_stored {c : Nat} :
    c ∈ s.stored ↔ c < s.table.made.length ∧ s.IsStored c := by
  simp [stored, IsStored]

omit [DecidableEq T] in
theorem Wired.checkExpired (h : s.Wired config) {now : Int}
    (hclock : s.clock ≤ now) :
    Wired config { s with phase := .checking now s.stored [], clock := now } ∧
      s.Quiet { s with phase := .checking now s.stored [], clock := now }
        (.checkExpired now) := by
  refine ⟨h.withPhase (fun c hc => ?_) now, rfl, rfl, rfl, fun _ _ hkey => hkey,
    fun _ _ _ => rfl, rfl, rfl, hclock, fun _ c hc => (mem_stored.mp hc).2,
    rfl, Or.inl rfl⟩
  rcases hc with hc | hc | hc
  · exact (mem_stored.mp hc).1
  · exact absurd hc List.not_mem_nil
  · exact absurd hc List.not_mem_nil

omit [DecidableEq T] in
theorem Wired.checkEntry (h : s.Wired config) {c : Nat}
    (hc : c ∈ s.phase.toCheck) :
    ∃ s', s.checkEntry c = some s' ∧ s'.Wired config ∧
      s.Quiet s' (.checkEntry c) := by
  cases hphase : s.phase with
  | running => simp [hphase, UdpPhase.toCheck] at hc
  | stopping rest => simp [hphase, UdpPhase.toCheck] at hc
  | stopped => simp [hphase, UdpPhase.toCheck] at hc
  | checking now rest deletes =>
      have hbound : ∀ d, d ∈ rest ∨ d ∈ deletes → d < s.table.made.length := by
        intro d hd
        apply h.phase
        rw [hphase]
        exact hd.imp_right Or.inl
      have hin : c ∈ rest := by
        rw [hphase] at hc
        exact hc
      have hchecking : ∀ rest' deletes',
          (∀ d, d ∈ rest' ∨ d ∈ deletes' → d ∈ rest ∨ d ∈ deletes) → ∀ d,
          d ∈ (UdpPhase.checking now rest' deletes').toCheck ∨
            d ∈ (UdpPhase.checking now rest' deletes').toExpire ∨
            d ∈ (UdpPhase.checking now rest' deletes').toVisit →
          d < s.table.made.length := by
        intro rest' deletes' hsub d hd
        apply hbound d
        apply hsub d
        simpa [UdpPhase.toCheck, UdpPhase.toExpire, UdpPhase.toVisit] using hd
      by_cases hexpired : s.table.isExpired now c = true
      · have htable : Wired config { s with table := { s.table with
            connections := fun key =>
              (s.table.connections key).filter (· ≠ c)
            dropped := Function.update s.table.dropped c true } } := by
          refine h.withTable rfl (fun key d hkey => ?_) (fun _ hd => hd)
            h.removals
          exact (Option.filter_eq_some_iff.mp hkey).1
        have hphased := htable.withPhase
          (hchecking (rest.filter (· ≠ c)) (deletes ++ [c]) fun d hd => by
            rcases hd with hd | hd
            · exact Or.inl (List.mem_filter.mp hd).1
            · rcases List.mem_append.mp hd with hd | hd
              · exact Or.inr hd
              · exact Or.inl (List.mem_singleton.mp hd ▸ hin)) s.clock
        let t : UdpServer K T := { s with
          table := { s.table with
            connections := fun key =>
              (s.table.connections key).filter (· ≠ c)
            dropped := Function.update s.table.dropped c true }
          phase := .checking now (rest.filter (· ≠ c)) (deletes ++ [c])
          expired := s.expired ++ [⟨c, now, s.acceptedFrom c⟩] }
        have hexec : s.checkEntry c = some t := by
          simp only [UdpServer.checkEntry, hphase, if_pos hexpired, t]
        have hexpires : s.Expires t (.checkEntry c) :=
          ⟨c, now, rest, deletes, rfl, hphase, hexpired, rfl⟩
        refine ⟨t, hexec, ⟨hphased.tasks, hphased.fresh, hphased.callbacks,
            hphased.flags, hphased.buffer, hphased.stored, hphased.phase,
            hphased.frames, hphased.removals⟩,
          rfl, rfl, rfl, fun key d hkey => (Option.filter_eq_some_iff.mp hkey).1,
          fun hnot => absurd hexpires hnot, rfl, rfl, Int.le_refl _,
          fun hstored d hd => ?_, rfl, Or.inr hexpires⟩
        obtain ⟨hd, hne⟩ := List.mem_filter.mp hd
        obtain ⟨key, hmade, hkey⟩ := Option.bind_eq_some_iff.mp
          (hstored d (by rw [hphase]; exact hd))
        refine Option.bind_eq_some_iff.mpr ⟨key, hmade, ?_⟩
        exact Option.filter_eq_some_iff.mpr ⟨hkey, hne⟩
      · have hphased := h.withPhase
          (hchecking (rest.filter (· ≠ c)) deletes fun d hd =>
            hd.imp_left fun hd => (List.mem_filter.mp hd).1) s.clock
        refine ⟨_, by
            simp only [UdpServer.checkEntry, hphase, if_neg hexpired],
          hphased, rfl, rfl, rfl, fun _ _ hkey => hkey, fun _ _ _ => rfl, rfl,
          rfl, Int.le_refl _, fun hstored d hd => ?_, rfl, Or.inl rfl⟩
        apply hstored d
        rw [hphase]
        exact (List.mem_filter.mp hd).1

omit [DecidableEq K] in
theorem Wired.closeExpired (h : s.Wired config)
    (hsome : s.phase.toExpire ≠ []) :
    ∃ s' c, s.closeExpired config = some s' ∧ s'.Wired config ∧
      s.closesOn config .closeExpired = some (config.master, c) ∧
      s.Closed config s' config.master c := by
  cases hphase : s.phase with
  | running => exact absurd (by rw [hphase]; rfl) hsome
  | stopping rest => exact absurd (by rw [hphase]; rfl) hsome
  | stopped => exact absurd (by rw [hphase]; rfl) hsome
  | checking now rest deletes =>
      obtain ⟨c, deletes, rfl⟩ := List.exists_cons_of_ne_nil
        (show deletes ≠ [] by rw [hphase] at hsome; exact hsome)
      have hc : c < s.table.made.length := by
        apply h.phase
        rw [hphase]
        exact Or.inr (Or.inl List.mem_cons_self)
      let t : UdpServer K T :=
        { s with phase := .checking now rest deletes }
      have ht : t.Wired config := by
        apply h.withPhase _ s.clock
        intro d hd
        apply h.phase
        rw [hphase]
        rcases hd with hd | hd | hd
        · exact Or.inl hd
        · exact Or.inr (Or.inl (List.mem_cons_of_mem c hd))
        · exact Or.inr (Or.inr hd)
      have hclosed : t.Closed config (t.close config config.master c)
          config.master c := closed_close config.master hc
      refine ⟨t.close config config.master c, c, ?_, ht.close _ hc, ?_,
        hc, hclosed.calls, hclosed.tasks, hclosed.frames, hclosed.made,
        hclosed.connections, hclosed.activedTime, hclosed.closing,
        hclosed.clock, ?_, hclosed.received, hclosed.expired⟩
      · simp only [UdpServer.closeExpired, hphase, t]
      · simp [closesOn, hphase, UdpPhase.toExpire]
      · rw [hclosed.toCheck, hphase]
        rfl

omit [DecidableEq K] in
theorem Wired.visit (h : s.Wired config) {c : Nat}
    (hc : c ∈ s.phase.toVisit) :
    ∃ s', s.visit config c = some s' ∧ s'.Wired config ∧
      s.Closed config s' config.master c := by
  have hbound : c < s.table.made.length := h.phase c (Or.inr (Or.inr hc))
  cases hphase : s.phase with
  | running => rw [hphase] at hc; exact absurd hc List.not_mem_nil
  | checking now rest deletes =>
      rw [hphase] at hc
      exact absurd hc List.not_mem_nil
  | stopped => rw [hphase] at hc; exact absurd hc List.not_mem_nil
  | stopping rest =>
      let t : UdpServer K T := { s with
        table := { s.table with
          closeCallback := Function.update s.table.closeCallback c false }
        conns := Function.update s.conns c (s.conns c).unbindDefaultCallbacks
        phase := .stopping (rest.filter (· ≠ c)) }
      have ht : t.Wired config := by
        have htable : Wired config { s with table := { s.table with
            closeCallback :=
              Function.update s.table.closeCallback c false } } :=
          h.withTable rfl (fun _ _ hkey => hkey) (fun _ hd => hd) h.removals
        have hconns : Wired config { s with
            table := { s.table with
              closeCallback := Function.update s.table.closeCallback c false }
            conns := Function.update s.conns c
              (s.conns c).unbindDefaultCallbacks } :=
          htable.updateConn rfl rfl
        apply hconns.withPhase _ s.clock
        intro d hd
        apply h.phase
        rw [hphase]
        rcases hd with hd | hd | hd
        · exact absurd hd List.not_mem_nil
        · exact absurd hd List.not_mem_nil
        · exact Or.inr (Or.inr (List.mem_filter.mp hd).1)
      have hclosed : t.Closed config (t.close config config.master c)
          config.master c := closed_close config.master hbound
      refine ⟨t.close config config.master c, ?_, ht.close _ hbound, hbound,
        hclosed.calls, hclosed.tasks, hclosed.frames, hclosed.made,
        hclosed.connections, hclosed.activedTime, hclosed.closing,
        hclosed.clock, ?_, hclosed.received, hclosed.expired⟩
      · simp only [UdpServer.visit, hphase, t]
      · rw [hclosed.toCheck, hphase]
        rfl

/-- The close callback queues the removal of a connection that is closing. -/
theorem Wired.returnCallback (h : s.Wired config) {thread : T}
    (hsome : s.frames thread ≠ []) :
    ∃ s', s.returnCallback thread = some s' ∧ s'.Wired config ∧
      s.Quiet s' (.returnCallback thread) := by
  obtain ⟨c, rest, hframes⟩ := List.exists_cons_of_ne_nil hsome
  obtain ⟨hc, hclosing⟩ := h.frames thread c (by simp [hframes])
  have hsame : (s.table.closeInLoop c).closing = s.table.closing :=
    Function.update_eq_self_iff.mpr hclosing.symm
  have htable : Wired config { s with table := s.table.closeInLoop c } := by
    refine h.withTable rfl (fun _ _ hkey => hkey)
      (fun d hd => (congrFun hsame d).trans hd) fun d hd => ?_
    unfold ServerTable.closeInLoop at hd
    split at hd
    · rcases FunctorQueue.mem_pending_queueInLoop.mp hd with hold | rfl
      · exact h.removals d hold
      · exact hc
    · exact h.removals d hd
  have hreturned : Wired config { s with
      table := s.table.closeInLoop c
      frames := Function.update s.frames thread rest } := by
    apply htable.withFrames
    intro other d hd
    change d < s.table.made.length ∧ (s.table.closeInLoop c).closing d = true
    rw [hsame]
    by_cases hother : other = thread
    · subst hother
      rw [Function.update_self] at hd
      exact h.frames other d (by simp [hframes, hd])
    · rw [Function.update_of_ne hother] at hd
      exact h.frames other d hd
  refine ⟨_, by simp only [UdpServer.returnCallback, hframes], hreturned,
    rfl, rfl, rfl, fun _ _ hkey => hkey, fun _ _ _ => rfl, rfl, hsame,
    Int.le_refl _, fun hstored => hstored, rfl, Or.inl rfl⟩

theorem removeConnectionInLoop_connections (table : ServerTable K) (c : Nat)
    {key : K} {d : Nat}
    (hkey : (table.removeConnectionInLoop c).connections key = some d) :
    table.connections key = some d := by
  unfold ServerTable.removeConnectionInLoop at hkey
  dsimp only at hkey
  split at hkey
  · exact hkey
  · next own hmade =>
      split at hkey
      · exact hkey
      · by_cases hown : key = own
        · subst hown
          simp at hkey
        · simpa [hown] using hkey

theorem removeConnectionInLoop_rest (table : ServerTable K) (c : Nat) :
    (table.removeConnectionInLoop c).made = table.made ∧
      (table.removeConnectionInLoop c).closing = table.closing ∧
      (table.removeConnectionInLoop c).activedTime = table.activedTime ∧
      (table.removeConnectionInLoop c).functors = table.functors := by
  unfold ServerTable.removeConnectionInLoop
  dsimp only
  split
  · exact ⟨rfl, rfl, rfl, rfl⟩
  · split <;> exact ⟨rfl, rfl, rfl, rfl⟩

theorem not_toCheck_of_isIdle {phase : UdpPhase} (h : phase.isIdle = true)
    (c : Nat) : c ∉ phase.toCheck := by
  cases phase with
  | running => exact List.not_mem_nil
  | stopped => exact List.not_mem_nil
  | checking now rest deletes => cases h
  | stopping rest => cases h

omit [DecidableEq T] in
theorem Wired.callRemoval (h : s.Wired config) (hidle : s.phase.isIdle = true)
    (hbatch : s.table.functors.batch ≠ []) :
    ∃ s', s.callRemoval = some s' ∧ s'.Wired config ∧
      s.Quiet s' .callRemoval := by
  obtain ⟨c, batch, hcons⟩ := List.exists_cons_of_ne_nil hbatch
  have hnext : s.table.functors.nextFunctor =
      some (c, { s.table.functors with batch := batch }) := by
    rw [FunctorQueue.nextFunctor, hcons]
  let left : ServerTable K := { s.table with
    functors := { s.table.functors with batch := batch } }
  let table := left.removeConnectionInLoop c
  have hexec : (serverMachine K .udp).exec s.table .callFunctor = some table := by
    simp only [serverMachine, hnext, Option.map_some, table, left]
  obtain ⟨hmade, hclosing, hactived, hfunctors⟩ :=
    removeConnectionInLoop_rest left c
  have hconnections : ∀ key d, table.connections key = some d →
      s.table.connections key = some d :=
    fun key d hkey => removeConnectionInLoop_connections left c hkey
  have htable : Wired config { s with table := table } := by
    refine h.withTable hmade hconnections
      (fun d hd => (congrFun hclosing d).trans hd) fun d hd => ?_
    change d ∈ (left.removeConnectionInLoop c).functors.pending at hd
    rw [hfunctors] at hd
    exact h.removals d
      ((FunctorQueue.mem_pending_nextFunctor hnext).mpr (Or.inr hd))
  have hconns : Wired config { s with
      table := table
      conns := fun d =>
        if s.table.functors.batch.head? = some d then
          (s.conns d).unbindDefaultCallbacks
        else s.conns d } := by
    apply htable.withConns
    intro d
    split <;> exact ⟨rfl, rfl⟩
  refine ⟨_, by rw [UdpServer.callRemoval, hexec]; rfl, hconns, rfl, rfl, hmade,
    hconnections, fun _ hnot => absurd rfl hnot, hactived, hclosing,
    Int.le_refl _, fun _ d hd => ?_, rfl, Or.inl rfl⟩
  exact absurd hd (not_toCheck_of_isIdle hidle d)

end UdpServer

open UdpServer in
/-- What a step keeps and what it does. -/
theorem udpServer_step [DecidableEq T] [DecidableEq K]
    {config : UdpServerConfig T} {s : UdpServer K T} (h : s.Wired config)
    {step : UdpServerStep K T}
    (henabled : (udpServerMachine K config).enabled s step) :
    ∃ s', (udpServerMachine K config).exec s step = some s' ∧
      s'.Wired config ∧ s.Effect config s' step := by
  cases step with
  | recvDatagram key data now =>
      obtain ⟨s', c, hexec, hs', haccepted⟩ :=
        h.recvDatagram key now henabled.2.2.1
      exact ⟨s', hexec, hs', .accepted key data now c haccepted⟩
  | checkExpired now =>
      obtain ⟨hs', hquiet⟩ := h.checkExpired henabled.2.2
      exact ⟨_, rfl, hs', .quiet _ rfl (by simp) hquiet⟩
  | checkEntry c =>
      obtain ⟨s', hexec, hs', hquiet⟩ := h.checkEntry henabled
      exact ⟨s', hexec, hs', .quiet _ rfl (by simp) hquiet⟩
  | closeExpired =>
      obtain ⟨s', c, hexec, hs', hcloses, hclosed⟩ :=
        h.closeExpired henabled.2.2
      exact ⟨s', hexec, hs', .closed _ config.master c hcloses hclosed⟩
  | checked =>
      refine ⟨_, rfl, h.withPhase (fun c hc => ?_) s.clock, .quiet _ rfl (by simp)
        ⟨rfl, rfl, rfl, fun _ _ hkey => hkey, fun _ _ _ => rfl, rfl, rfl,
          Int.le_refl _,
          fun _ c hc => absurd hc List.not_mem_nil, rfl, Or.inl rfl⟩⟩
      rcases hc with hc | hc | hc <;> exact absurd hc List.not_mem_nil
  | close thread c =>
      exact ⟨_, rfl, h.close thread henabled.1,
        .closed _ thread c rfl (closed_close thread henabled.1)⟩
  | callFunctor thread now left =>
      obtain ⟨s', hexec, hs', hupcoming, task, rest, hcalled⟩ :=
        h.callFunctor now left henabled.2.1
      exact ⟨s', hexec, hs', .called thread now left task rest hcalled
        hupcoming⟩
  | returnCallback thread =>
      obtain ⟨s', hexec, hs', hquiet⟩ := h.returnCallback henabled
      exact ⟨s', hexec, hs', .quiet _ rfl (by simp) hquiet⟩
  | swapRemovals =>
      refine ⟨_, rfl, h.withTable rfl (fun _ _ hkey => hkey) (fun _ hd => hd)
        fun c hc => ?_, .quiet _ rfl (by simp)
        ⟨rfl, rfl, rfl, fun _ _ hkey => hkey, fun _ _ _ => rfl, rfl, rfl,
          Int.le_refl _,
          fun hstored => hstored, rfl, Or.inl rfl⟩⟩
      apply h.removals
      simpa [FunctorQueue.pending, FunctorQueue.swapFunctors] using Or.inr hc
  | callRemoval =>
      obtain ⟨s', hexec, hs', hquiet⟩ :=
        h.callRemoval henabled.1.2 henabled.2.2
      exact ⟨s', hexec, hs', .quiet _ rfl (by simp) hquiet⟩
  | returnRemovals =>
      exact ⟨_, rfl, h.withTable rfl (fun _ _ hkey => hkey) (fun _ hd => hd)
        h.removals, .quiet _ rfl (by simp)
        ⟨rfl, rfl, rfl, fun _ _ hkey => hkey, fun _ _ _ => rfl, rfl, rfl,
          Int.le_refl _,
          fun hstored => hstored, rfl, Or.inl rfl⟩⟩
  | stop =>
      refine ⟨_, rfl, h.withPhase (fun c hc => ?_) s.clock, .quiet _ rfl (by simp)
        ⟨rfl, rfl, rfl, fun _ _ hkey => hkey, fun _ _ _ => rfl, rfl, rfl,
          Int.le_refl _,
          fun _ c hc => absurd hc List.not_mem_nil, rfl, Or.inl rfl⟩⟩
      rcases hc with hc | hc | hc
      · exact absurd hc List.not_mem_nil
      · exact absurd hc List.not_mem_nil
      · exact (mem_stored.mp hc).1
  | visit c =>
      obtain ⟨s', hexec, hs', hclosed⟩ := h.visit henabled.2
      exact ⟨s', hexec, hs', .closed _ config.master c rfl hclosed⟩
  | stopped =>
      have hnone : ∀ (key : K) (c : Nat), (none : Option Nat) = some c →
          s.table.connections key = some c := by
        intro key c hkey
        cases hkey
      have htable : Wired config { s with table := { s.table with
          connections := fun _ => none } } :=
        h.withTable rfl hnone (fun _ hd => hd) h.removals
      refine ⟨_, rfl, htable.withPhase (fun c hc => ?_) s.clock,
        .quiet _ rfl (by simp) ⟨rfl, rfl, rfl, hnone,
          fun _ _ hnot => absurd rfl hnot, rfl, rfl, Int.le_refl _,
          fun _ c hc => absurd hc List.not_mem_nil, rfl, Or.inl rfl⟩⟩
      rcases hc with hc | hc | hc <;> exact absurd hc List.not_mem_nil

theorem udpServer_recvDatagram [DecidableEq T] [DecidableEq K]
    (config : UdpServerConfig T) (s : UdpServer K T) (key : K)
    (data : List UInt8) (now : Int) :
    (udpServerMachine K config).exec s (.recvDatagram key data now) =
      s.recvDatagram config key data now := rfl

/-- The first datagram makes the first connection. -/
theorem UdpServer.start_recvDatagram [DecidableEq T] [DecidableEq K]
    (config : UdpServerConfig T) (key : K) {data : List UInt8} (now : Int)
    (hdata : data.length ≤ 65536) :
    ∃ s', (udpServerMachine K config).exec .start (.recvDatagram key data now) =
        some s' ∧ s'.Wired config ∧
      UdpServer.start.Accepted config s' key data now 0 ∧
      UdpServer.start.Made s' key now 0 := by
  obtain ⟨s', c, hexec, hs', haccepted⟩ :=
    (start_wired : (start : UdpServer K T).Wired config).recvDatagram key now
      hdata
  rcases haccepted.found with hknown | hmade
  · cases hknown.known
  · obtain rfl : c = 0 := hmade.conn
    exact ⟨s', (udpServer_recvDatagram ..).trans hexec, hs', haccepted, hmade⟩

end Libsaf
