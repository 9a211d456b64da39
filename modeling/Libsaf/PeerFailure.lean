/-
What peers and the kernel can do to a `saf::TcpServer`: `accept4` and
`shutdown(2)` may fail.  `Socket` reports both failures with `LOG_FATAL`, so
that `log` aborts before the recovery in `TcpAcceptor` is reached.
-/
import Libsaf.TcpServer
import Libsaf.LogRecord

namespace Libsaf

universe u v

variable {K : Type u} {T : Type v}

/-- The errors of `accept4` that a peer or a shortage causes. -/
inductive AcceptErrno where
  | EAGAIN
  | ECONNABORTED
  | EINTR
  | EMFILE
deriving Repr, DecidableEq

/-- What `accept4` returns.  A descriptor comes with the key of the connection
and the time; a failure with what the calls of `accept` and `open` in the
recovery would return. -/
inductive AcceptResult (K : Type u) where
  | descriptor (key : K) (now : Int)
  | failed (errno : AcceptErrno) (second : Option Nat) (opened : Nat)
deriving Repr, DecidableEq

/-- What `shutdown(2)` returns. -/
inductive ShutdownResult where
  | zero
  | ENOTCONN
deriving Repr, DecidableEq

/-- The server with the sockets of its connections and its acceptor: `writing`
is `isWriting()`, `gone` the peers that closed or reset, `idleFd` the open
descriptor behind `_idleFd`.  `logs` are the levels that `log` was called with,
`exhausted` counts the failures with `EMFILE` and `drained` how often that
branch was reached. -/
structure PeerServer (K : Type u) (T : Type v) where
  server : TcpServer K T
  writing : Nat → Bool
  gone : Nat → Bool
  idleFd : Option Nat
  logs : List LogLevel
  exhausted : Nat
  drained : Nat

/-- `run` is any other step of the server, with what `shutdown(2)` returns if the
step calls it. -/
inductive PeerStep (K : Type u) (T : Type v) where
  | accept (result : AcceptResult K)
  | run (step : TcpServerStep K T) (result : ShutdownResult)
  | setWriting (c : Nat) (writing : Bool)
  | peerGone (c : Nat)
deriving Repr, DecidableEq

/-- The connection whose functor of `shutdown` is called in the step. -/
def TcpServer.shutdownCalled [DecidableEq T] (loopOf : Nat → T)
    (s : TcpServer K T) : TcpServerStep K T → Option Nat
  | .runInLoop thread =>
      match s.calls thread with
      | .stored .shutdown c => if thread = loopOf c then some c else none
      | _ => none
  | .callFunctor thread =>
      match s.tasks thread with
      | .endCall .shutdown c :: _ => some c
      | _ => none
  | _ => none

namespace PeerServer

def start (idleFd : Nat) : PeerServer K T :=
  { server := .start
    writing := fun _ => false
    gone := fun _ => false
    idleFd := some idleFd
    logs := []
    exhausted := 0
    drained := 0 }

/-- `log`, with the level that is set as `gLogLevel`. -/
def log (gLogLevel : LogLevel) (s : PeerServer K T) (level : LogLevel) :
    Option (PeerServer K T) :=
  let s := { s with logs := s.logs ++ [level] }
  if level.toNat < gLogLevel.toNat then some s
  else if LogLevel.FATAL.toNat ≤ level.toNat then none
  else some s

def closeIdle (s : PeerServer K T) : PeerServer K T := { s with idleFd := none }

/-- The branch of `EMFILE`: the idle descriptor makes room for one `accept`. -/
def drain (s : PeerServer K T) (second : Option Nat) (opened : Nat) :
    PeerServer K T :=
  let s := { s.closeIdle with idleFd := second }
  { s.closeIdle with
    idleFd := some opened
    drained := s.drained + 1 }

/-- `handleReadInLoop` when `accept4` fails.  A call of `log` that returns keeps
`errno`. -/
def acceptFailed (gLogLevel : LogLevel) (s : PeerServer K T)
    (errno : AcceptErrno) (second : Option Nat) (opened : Nat) :
    Option (PeerServer K T) := do
  let s := { s with
    exhausted :=
      if errno = AcceptErrno.EMFILE then s.exhausted + 1 else s.exhausted }
  -- `Socket::accept`
  let s ← s.log gLogLevel .FATAL
  -- `TcpAcceptor::handleReadInLoop`
  let s ← s.log gLogLevel .ERROR
  if errno = .EMFILE then some (s.drain second opened) else some s

/-- `Socket::shutdown`. -/
def shutdown (gLogLevel : LogLevel) (s : PeerServer K T)
    (result : ShutdownResult) : Option (PeerServer K T) :=
  match result with
  | .zero => some s
  | .ENOTCONN => s.log gLogLevel .FATAL

section Run

variable [DecidableEq T] [DecidableEq K]

/-- A step of the server, and the body of the functor of `shutdown` when it is
called.  A socket that is detached is not watched for writing. -/
def run (gLogLevel : LogLevel) (master : T) (pairs : List T)
    (s : PeerServer K T) (step : TcpServerStep K T) (result : ShutdownResult) :
    Option (PeerServer K T) :=
  ((tcpServerMachine K master pairs).exec s.server step).bind fun server =>
    let s' := { s with
      server := server
      writing := fun c => s.writing c && server.attached c }
    match s.server.shutdownCalled (getNextLoop master pairs) step with
    | some c => if s.writing c then some s' else s'.shutdown gLogLevel result
    | none => some s'

/-- The thread of a loop is between two events. -/
def LoopFree (master : T) (pairs : List T) (s : PeerServer K T) (c : Nat) :
    Prop :=
  s.server.calls (getNextLoop master pairs c) = .idle ∧
    (getNextLoop master pairs c = master → s.server.Free master)

end Run

/-- A loop closes what a peer has closed; `accept4` has a step of its own. -/
def Arrives (s : PeerServer K T) : TcpServerStep K T → Prop
  | .accept _ _ => False
  | .peerClose c => s.gone c = true
  | _ => True

end PeerServer

/-- `shutdown(2)` finds the socket connected unless the peer is gone. -/
def peerMachine (K : Type u) [DecidableEq K] [DecidableEq T]
    (gLogLevel : LogLevel) (master : T) (pairs : List T) :
    Machine (PeerServer K T) (PeerStep K T) where
  enabled s
    | .accept _ => s.server.Free master ∧ s.server.phase = .running ∧
        s.server.table.running = false
    | .run step result =>
        (tcpServerMachine K master pairs).enabled s.server step ∧
        s.Arrives step ∧
        (result = .ENOTCONN → ∀ c ∈ s.server.shutdownCalled
          (getNextLoop master pairs) step, s.gone c = true)
    | .setWriting c _ => s.server.attached c = true ∧ s.LoopFree master pairs c
    | .peerGone c => c < s.server.table.made.length
  exec s
    | .accept (.descriptor key now) =>
        s.run gLogLevel master pairs (.accept key now) .zero
    | .accept (.failed errno second opened) =>
        s.acceptFailed gLogLevel errno second opened
    | .run step result => s.run gLogLevel master pairs step result
    | .setWriting c writing =>
        some { s with writing := Function.update s.writing c writing }
    | .peerGone c => some { s with gone := Function.update s.gone c true }

namespace PeerServer

/-- `FATAL` was never logged, every `EMFILE` reached its branch, and `_idleFd` is
open. -/
def Unharmed (s : PeerServer K T) : Prop :=
  .FATAL ∉ s.logs ∧ s.drained = s.exhausted ∧ s.idleFd.isSome

/-- The calls of `accept4` and `shutdown(2)` that the step makes succeed. -/
def Succeeds [DecidableEq T] (loopOf : Nat → T) (s : PeerServer K T) :
    PeerStep K T → Prop
  | .accept (.descriptor _ _) => True
  | .accept (.failed _ _ _) => False
  | .run step result => ∀ c ∈ s.server.shutdownCalled loopOf step,
      s.writing c = false → result = .zero
  | .setWriting _ _ | .peerGone _ => True

variable {s s' : PeerServer K T}

theorem log_logs {gLogLevel level : LogLevel}
    (h : s.log gLogLevel level = some s') : s'.logs = s.logs ++ [level] := by
  unfold log at h
  split at h
  · cases h
    rfl
  · split at h
    · cases h
    · cases h
      rfl

/-- Whatever follows, a failed `accept4` was logged as `FATAL`. -/
theorem acceptFailed_logs {gLogLevel : LogLevel} {errno : AcceptErrno}
    {second : Option Nat} {opened : Nat}
    (h : s.acceptFailed gLogLevel errno second opened = some s') :
    .FATAL ∈ s'.logs := by
  obtain ⟨t, hfatal, h⟩ := Option.bind_eq_some_iff.mp h
  obtain ⟨t', herror, h⟩ := Option.bind_eq_some_iff.mp h
  have hlogs : s'.logs = t'.logs := by
    split at h <;> cases h <;> rfl
  rw [hlogs, log_logs herror, log_logs hfatal]
  simp

section Step

variable [DecidableEq T] [DecidableEq K] {gLogLevel : LogLevel} {master : T}
  {pairs : List T}

/-- A step of the server whose `shutdown(2)` succeeds logs nothing. -/
theorem run_of_succeeds (gLogLevel : LogLevel) {step : TcpServerStep K T}
    {result : ShutdownResult} {server : TcpServer K T}
    (hexec : (tcpServerMachine K master pairs).exec s.server step = some server)
    (h : s.Succeeds (getNextLoop master pairs) (.run step result)) :
    s.run gLogLevel master pairs step result = some { s with
      server := server
      writing := fun c => s.writing c && server.attached c } := by
  rw [run, hexec, Option.bind_some]
  split
  · next c hcalled =>
      split
      · rfl
      · next hwriting =>
          obtain rfl := h c hcalled (by simpa using hwriting)
          rfl
  · rfl

/-- One that fails was logged as `FATAL`. -/
theorem succeeds_of_run {step : TcpServerStep K T} {result : ShutdownResult}
    (hrun : s.run gLogLevel master pairs step result = some s')
    (hlogs : .FATAL ∉ s'.logs) :
    s.Succeeds (getNextLoop master pairs) (.run step result) := by
  intro c hcalled hwriting
  obtain ⟨server, _, hrun⟩ := Option.bind_eq_some_iff.mp hrun
  rw [Option.mem_def] at hcalled
  simp only [hcalled, hwriting] at hrun
  cases result with
  | zero => rfl
  | ENOTCONN =>
      refine absurd ?_ hlogs
      rw [log_logs hrun]
      simp

/-- A step whose calls succeed does no harm. -/
theorem unharmed_step {step : PeerStep K T}
    (hwired : s.server.Wired (getNextLoop master pairs)) (hs : s.Unharmed)
    (henabled : (peerMachine K gLogLevel master pairs).enabled s step)
    (hsucceeds : s.Succeeds (getNextLoop master pairs) step) :
    ∃ s', (peerMachine K gLogLevel master pairs).exec s step = some s' ∧
      s'.server.Wired (getNextLoop master pairs) ∧ s'.Unharmed := by
  cases step with
  | accept result =>
      cases result with
      | failed errno second opened => exact hsucceeds.elim
      | descriptor key now =>
          obtain ⟨server, hexec, hwired'⟩ :=
            TcpServer.step_wired hwired (.accept key now) henabled
          have hzero : s.Succeeds (getNextLoop master pairs)
              (.run (.accept key now) .zero) := by
            intro c hcalled
            cases hcalled
          exact ⟨_, run_of_succeeds gLogLevel hexec hzero, hwired', hs⟩
  | run step result =>
      obtain ⟨server, hexec, hwired'⟩ :=
        TcpServer.step_wired hwired step henabled.1
      exact ⟨_, run_of_succeeds gLogLevel hexec hsucceeds, hwired', hs⟩
  | setWriting c writing => exact ⟨_, rfl, hwired, hs⟩
  | peerGone c => exact ⟨_, rfl, hwired, hs⟩

/-- The calls of a step that does no harm succeeded. -/
theorem succeeds_of_step {step : PeerStep K T}
    (hexec : (peerMachine K gLogLevel master pairs).exec s step = some s')
    (hs' : s'.Unharmed) : s.Succeeds (getNextLoop master pairs) step := by
  cases step with
  | accept result =>
      cases result with
      | descriptor key now => trivial
      | failed errno second opened =>
          exact absurd (acceptFailed_logs hexec) hs'.1
  | run step result => exact succeeds_of_run hexec hs'.1
  | setWriting c writing => trivial
  | peerGone c => trivial

end Step

end PeerServer

open PeerServer in
/-- No peer and no shortage of the kernel harms a server if and only if every
`accept4` returns a descriptor and every `shutdown(2)` succeeds. -/
theorem no_fatal_iff {K : Type u} {T : Type v} [DecidableEq K] [DecidableEq T]
    (gLogLevel : LogLevel) (master : T) (pairs : List T) (idleFd : Nat)
    (word : List (PeerStep K T))
    (hlegal : (peerMachine K gLogLevel master pairs).Legal (.start idleFd) word) :
    (peerMachine K gLogLevel master pairs).Holds Unharmed (.start idleFd) word ↔
      (peerMachine K gLogLevel master pairs).Meets
        (Succeeds (getNextLoop master pairs)) (.start idleFd) word := by
  apply Machine.holds_iff_meets
    (I := fun s => s.server.Wired (getNextLoop master pairs) ∧ s.Unharmed)
    (E := (peerMachine K gLogLevel master pairs).enabled)
  · exact fun s hs => hs.2
  · intro s step hs henabled hsucceeds
    exact unharmed_step hs.1 hs.2 henabled hsucceeds
  · intro s step s' _ _ hexec hs'
    exact succeeds_of_step hexec hs'
  · exact ⟨TcpServer.start_wired, by simp [start, Unharmed]⟩
  · exact hlegal

namespace PeerServer

instance (s : PeerServer K T) : DecidablePred s.Arrives
  | .accept _ _ => isFalse id
  | .peerClose c => inferInstanceAs (Decidable (s.gone c = true))
  | .load _ _ _ | .store _ | .runInLoop _ | .callFunctor _ | .swapRemovals
  | .callRemoval | .returnRemovals | .stop | .visit _ | .stopped => isTrue trivial

instance [DecidableEq K] [DecidableEq T] (gLogLevel : LogLevel) (master : T)
    (pairs : List T) (s : PeerServer K T) (step : PeerStep K T) :
    Decidable ((peerMachine K gLogLevel master pairs).enabled s step) :=
  match step with
  | .accept _ => inferInstanceAs (Decidable (s.server.Free master ∧
      s.server.phase = .running ∧ s.server.table.running = false))
  | .run step result =>
      inferInstanceAs (Decidable
        ((tcpServerMachine K master pairs).enabled s.server step ∧
        s.Arrives step ∧
        (result = .ENOTCONN → ∀ c ∈ s.server.shutdownCalled
          (getNextLoop master pairs) step, s.gone c = true)))
  | .setWriting c _ => inferInstanceAs (Decidable
      (s.server.attached c = true ∧
        s.server.calls (getNextLoop master pairs c) = .idle ∧
        (getNextLoop master pairs c = master → s.server.Free master)))
  | .peerGone c => inferInstanceAs (Decidable (c < s.server.table.made.length))

instance [DecidableEq T] (loopOf : Nat → T) (s : PeerServer K T) :
    ∀ step, Decidable (s.Succeeds loopOf step)
  | .accept (.descriptor _ _) => isTrue trivial
  | .accept (.failed _ _ _) => isFalse id
  | .run step result => inferInstanceAs (Decidable
      (∀ c ∈ s.server.shutdownCalled loopOf step,
        s.writing c = false → result = .zero))
  | .setWriting _ _ | .peerGone _ => isTrue trivial

instance (s : PeerServer K T) : Decidable s.Unharmed :=
  inferInstanceAs (Decidable (_ ∧ _ ∧ _ = true))

end PeerServer

/-- A connection is established on the first worker and shut down from the
thread of the server; then its peer resets it. -/
def shutdownRun {T : Type} (server worker : T) (result : ShutdownResult) :
    List (PeerStep Nat T) :=
  [.accept (.descriptor 5 0), .run (.callFunctor worker) .zero,
    .run (.load server .shutdown 0) .zero, .run (.store server) .zero,
    .run (.runInLoop server) .zero, .peerGone 0,
    .run (.callFunctor worker) result]

theorem no_fatal_iff_shutdown :
    (peerMachine Nat .INFO (0 : Fin 3) [1, 2]).Holds PeerServer.Unharmed
      (.start 9) (shutdownRun 0 2 .zero) :=
  (no_fatal_iff .INFO 0 [1, 2] 9 _ (by decide +kernel)).mpr (by decide +kernel)

/-- The process aborts when `accept4` finds no connection or no descriptor, and
when the functor of `shutdown` runs behind the reset. -/
theorem fatal_logged :
    let M := peerMachine Nat .DEBUG (0 : Fin 3) [1, 2]
    let refused (errno : AcceptErrno) : List (PeerStep Nat (Fin 3)) :=
      [.accept (.failed errno none 9)]
    (∀ errno, M.Legal (.start 9) (refused errno) ∧
      ¬ M.Holds PeerServer.Unharmed (.start 9) (refused errno)) ∧
    M.Legal (.start 9) (shutdownRun 0 2 .ENOTCONN) ∧
      ¬ M.Holds PeerServer.Unharmed (.start 9) (shutdownRun 0 2 .ENOTCONN) := by
  refine ⟨fun errno => ⟨?_, Machine.not_holds_of_fault ?_⟩, ?_,
    Machine.not_holds_of_fault ?_⟩
  · cases errno <;> decide +kernel
  · cases errno <;> decide +kernel
  · decide +kernel
  · decide +kernel

end Libsaf
