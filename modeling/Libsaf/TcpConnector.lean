/-
`saf::TcpConnector`: one non-blocking connect at a time, and timers that retry
it.  Nothing cancels a timer; `connectInLoop` returns at once while `_stopping`
is set.
-/
import Libsaf.Dispatch

namespace Libsaf

universe u

variable {A : Type u}

def EINTR : Int := 4
def EAGAIN : Int := 11
def EADDRINUSE : Int := 98
def EADDRNOTAVAIL : Int := 99
def ENETUNREACH : Int := 101
def EISCONN : Int := 106
def ECONNREFUSED : Int := 111
def EINPROGRESS : Int := 115

inductive ConnectorStatus where
  | kDisconnected
  | kConnecting
  | kConnected
deriving Repr, DecidableEq

/-- The object that `_socket` owns, and its pending `SO_ERROR`. -/
structure ConnectingSocket where
  attached : Bool
  error : Int
deriving Repr, DecidableEq

/-- `epoch` counts the attempts and the connections made so far.  A timer is
known by the epoch of the failure that it retries. -/
structure TcpConnector (A : Type u) where
  stopping : Bool
  addr : A
  connectedCallback : Bool
  status : ConnectorStatus
  socket : Option ConnectingSocket
  timers : List Nat
  epoch : Nat
deriving Repr, DecidableEq

namespace TcpConnector

def start (addr : A) : TcpConnector A :=
  { stopping := true
    addr := addr
    connectedCallback := false
    status := .kDisconnected
    socket := none
    timers := []
    epoch := 0 }

def resetSocket (s : TcpConnector A) : TcpConnector A :=
  { s with socket := none }

/-- `disconnect`, on the thread of the loop. -/
def disconnect (s : TcpConnector A) : TcpConnector A :=
  { s with stopping := true, status := .kDisconnected }.resetSocket

def onConnectingInLoop (s : TcpConnector A) : TcpConnector A :=
  { s with
    status := .kConnecting
    socket := s.socket.map fun socket => { socket with attached := true } }

/-- A timer is added if the reconnect delay of the client is positive. -/
def onRetryInLoop (s : TcpConnector A) (delay : Int) (failure : Nat) :
    TcpConnector A :=
  let s := { s with status := .kDisconnected }.resetSocket
  if 0 < delay then { s with timers := s.timers ++ [failure] } else s

/-- `errno` is what the connect of the new socket leaves, or zero. -/
def connectInLoop (s : TcpConnector A) (delay errno : Int) : TcpConnector A :=
  if s.stopping then s
  else
    let s := { s with socket := some ⟨false, 0⟩, epoch := s.epoch + 1 }
    if errno ∈ [0, EINPROGRESS, EINTR, EISCONN] then s.onConnectingInLoop
    else if errno ∈ [EAGAIN, EADDRINUSE, EADDRNOTAVAIL, ECONNREFUSED,
        ENETUNREACH] then
      s.onRetryInLoop delay s.epoch
    else s.resetSocket

/-- `getSocketError` clears what it returns. -/
def getSocketError (s : TcpConnector A) : Int × TcpConnector A :=
  ((s.socket.map ConnectingSocket.error).getD 0,
    { s with socket := s.socket.map fun socket => { socket with error := 0 } })

/-- The flag tells whether the connected callback is called. -/
def handleWriteInLoop (s : TcpConnector A) (delay : Int) :
    Bool × TcpConnector A :=
  if s.status = .kConnecting then
    let s : TcpConnector A := { s with
      socket := s.socket.map fun socket => { socket with attached := false } }
    let err := s.getSocketError.1
    let s := s.getSocketError.2
    if err ≠ 0 then (false, s.onRetryInLoop delay s.epoch)
    else (s.connectedCallback, { s with status := .kConnected })
  else (false, { s with status := .kDisconnected })

/-- The flag tells whether `onRetryInLoop` is queued. -/
def handleErrorInLoop (s : TcpConnector A) : Bool × TcpConnector A :=
  if s.status = .kConnecting then (true, s.getSocketError.2) else (false, s)

def handleCloseInLoop (s : TcpConnector A) : Bool :=
  s.status = .kConnecting

variable (s : TcpConnector A)

@[simp] theorem onRetryInLoop_stopping (delay : Int) (failure : Nat) :
    (s.onRetryInLoop delay failure).stopping = s.stopping := by
  unfold onRetryInLoop
  dsimp only
  split <;> rfl

@[simp] theorem onRetryInLoop_socket (delay : Int) (failure : Nat) :
    (s.onRetryInLoop delay failure).socket = none := by
  unfold onRetryInLoop
  dsimp only
  split <;> rfl

@[simp] theorem onRetryInLoop_epoch (delay : Int) (failure : Nat) :
    (s.onRetryInLoop delay failure).epoch = s.epoch := by
  unfold onRetryInLoop
  dsimp only
  split <;> rfl

theorem mem_onRetryInLoop {s : TcpConnector A} {delay : Int} {failure n : Nat}
    (h : n ∈ (s.onRetryInLoop delay failure).timers) :
    n ∈ s.timers ∨ n = failure := by
  unfold onRetryInLoop at h
  dsimp only at h
  split at h
  · exact (List.mem_append.mp h).imp_right List.mem_singleton.mp
  · exact Or.inl h

theorem connectInLoop_stopping (delay errno : Int) :
    (s.connectInLoop delay errno).stopping = s.stopping := by
  unfold connectInLoop
  dsimp only
  split
  · rfl
  · split
    · rfl
    · split
      · rw [onRetryInLoop_stopping]
      · rfl

/-- An attempt begins a new epoch, and a timer that it adds is of that epoch. -/
theorem connectInLoop_spec {s : TcpConnector A} (h : s.stopping = false)
    (delay errno : Int) :
    (s.connectInLoop delay errno).epoch = s.epoch + 1 ∧
      ∀ n ∈ (s.connectInLoop delay errno).timers,
        n ∈ s.timers ∨ n = s.epoch + 1 := by
  unfold connectInLoop
  rw [if_neg (by simp [h])]
  dsimp only
  split
  · exact ⟨rfl, fun n hn => Or.inl hn⟩
  · split
    · refine ⟨onRetryInLoop_epoch .., fun n hn => ?_⟩
      exact (mem_onRetryInLoop hn :)
    · exact ⟨rfl, fun n hn => Or.inl hn⟩

/-- Where the callback is called, nothing else was done but to detach the
socket; otherwise a timer may have been added. -/
theorem handleWriteInLoop_spec (delay : Int) :
    (s.handleWriteInLoop delay).2.stopping = s.stopping ∧
      (s.handleWriteInLoop delay).2.epoch = s.epoch ∧
      ((s.handleWriteInLoop delay).2.socket.isSome → s.socket.isSome) ∧
      ∀ n ∈ (s.handleWriteInLoop delay).2.timers,
        n ∈ s.timers ∨ n = s.epoch := by
  unfold handleWriteInLoop getSocketError
  dsimp only
  split
  · split
    · refine ⟨onRetryInLoop_stopping .., onRetryInLoop_epoch .., fun h => ?_,
        fun n hn => ?_⟩
      · rw [onRetryInLoop_socket] at h
        cases h
      · exact mem_onRetryInLoop hn
    · exact ⟨rfl, rfl, by simp, fun n hn => Or.inl hn⟩
  · exact ⟨rfl, rfl, id, fun n hn => Or.inl hn⟩

theorem handleErrorInLoop_spec :
    (s.handleErrorInLoop).2.stopping = s.stopping ∧
      (s.handleErrorInLoop).2.epoch = s.epoch ∧
      (s.handleErrorInLoop).2.timers = s.timers ∧
      ((s.handleErrorInLoop).2.socket.map ConnectingSocket.attached) =
        s.socket.map ConnectingSocket.attached := by
  unfold handleErrorInLoop getSocketError
  split
  · refine ⟨rfl, rfl, rfl, ?_⟩
    rw [Option.map_map]
    rfl
  · exact ⟨rfl, rfl, rfl, rfl⟩

end TcpConnector

end Libsaf
