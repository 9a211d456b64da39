/-
How many connections a `saf::TcpClient` has at a time.  Timers of earlier
attempts and functors of earlier calls may start an attempt; the connecting
socket, the retry functors and the closing of a connection never do harm.
-/
import Libsaf.TcpClient

namespace Libsaf

universe u v

variable {A : Type u} {T : Type v}

/-- An attempt was made without an open connection, and a new connection did
not replace another one. -/
def ClientEvent.Single : ClientEvent → Prop
  | .attempt opened _ => opened = false
  | .newConnection found _ => found = none

/-- The timer that expires in a step. -/
def TcpClientStep.timer : TcpClientStep A T → Option Nat
  | .fireTimer i _ => some i
  | _ => none

namespace TcpClient

/-- There was never more than one connection, nor an attempt for another. -/
def Single (s : TcpClient A T) : Prop := ∀ event ∈ s.log, event.Single

section

variable [DecidableEq T]

/-- Where a timer or the functor of `connect` makes an attempt, no connection
is open. -/
def Vacant (loop : T) (s : TcpClient A T) (step : TcpClientStep A T) : Prop :=
  (s.callsFunctor loop ClientTask.isConnect step = true → s.isOpen = false) ∧
    ∀ _i ∈ step.timer, s.connector.stopping = true ∨ s.isOpen = false

/-- The functor of `connect` is called while the connector is stopped, and a
timer expires before the next attempt or connection is made, or when the
connector is stopped. -/
def Fresh (loop : T) (s : TcpClient A T) (step : TcpClientStep A T) : Prop :=
  (s.callsFunctor loop ClientTask.isConnect step = true →
      s.connector.stopping = true) ∧
    ∀ i ∈ step.timer, s.connector.stopping = true ∨
      s.connector.timers[i]? = some s.connector.epoch

end

/-- The connection of the client is open, or the callback on the stack will
take it away. -/
structure Tidy (s : TcpClient A T) : Prop where
  socket : s.connector.socket.isSome = true → s.isOpen = false
  closed : ∀ c, s.connection = some c → (s.status c).isOpen = true ∨
    .disconnect ∈ s.frames ∨ .closeInLoop c ∈ s.frames
  bound : ∀ c, s.closeCallback c = true → s.connection = some c
  unbound : .disconnect ∈ s.frames → ∀ c, s.closeCallback c = false
  kept : ∀ c, s.connection = some c →
    s.closeCallback c = true ∨ .disconnect ∈ s.frames

variable {s : TcpClient A T}

theorem isOpen_eq_false_iff : s.isOpen = false ↔
    ∀ c, s.connection = some c → (s.status c).isOpen = false := by
  unfold isOpen
  cases s.connection with
  | none => simp
  | some c => simp

/-- A connection that closes is not open. -/
theorem isOpen_closed (h : s.isOpen = false) (c : Nat) :
    isOpen { s with
      status := Function.update s.status c .kDisconnected } = false := by
  refine isOpen_eq_false_iff.mpr fun d hd => ?_
  change (Function.update s.status c .kDisconnected d).isOpen = false
  rcases eq_or_ne d c with rfl | hne
  · rw [Function.update_self]
    decide
  · rw [Function.update_of_ne hne]
    exact isOpen_eq_false_iff.mp h d hd

/-- A half-closed connection is as open as it was. -/
theorem isOpen_halfClosed {c : Nat} (hc : s.status c = .kConnected) (d : Nat) :
    (Function.update s.status c .kDisconnecting d).isOpen =
      (s.status d).isOpen := by
  rcases eq_or_ne d c with rfl | hne
  · rw [Function.update_self, hc]
    decide
  · rw [Function.update_of_ne hne]

/-- Only the connection of the client had a close callback. -/
theorem unbound_of_bound
    (h : ∀ d, s.closeCallback d = true → s.connection = some d) {c : Nat}
    (hconnection : s.connection = some c) (d : Nat) :
    Function.update s.closeCallback c false d = false := by
  rcases eq_or_ne d c with rfl | hne
  · exact Function.update_self ..
  · rw [Function.update_of_ne hne]
    refine Bool.eq_false_iff.mpr fun hbound => hne ?_
    exact Option.some.inj ((h d hbound).symm.trans hconnection)

theorem Tidy.connection_eq_none (h : s.Tidy) (hframes : s.frames = [])
    (hsocket : s.connector.socket.isSome = true) : s.connection = none := by
  cases hconnection : s.connection with
  | none => rfl
  | some c =>
      have hclosed := isOpen_eq_false_iff.mp (h.socket hsocket) c hconnection
      rcases h.closed c hconnection with hopen | hframe | hframe
      · exact absurd (hopen.symm.trans hclosed) (by decide)
      · rw [hframes] at hframe
        cases hframe
      · rw [hframes] at hframe
        cases hframe

/-- The connector changes and makes no socket. -/
theorem Tidy.setConnector (h : s.Tidy) {connector : TcpConnector A}
    (hsocket : connector.socket.isSome = true →
      s.connector.socket.isSome = true) :
    Tidy { s with connector := connector } :=
  ⟨fun hsome => h.socket (hsocket hsome), h.closed, h.bound, h.unbound, h.kept⟩

theorem Tidy.connectInLoop (h : s.Tidy)
    (hvacant : s.connector.stopping = true ∨ s.isOpen = false) (errno : Int) :
    (s.connectInLoop errno).Tidy := by
  refine ⟨fun hsocket => ?_, h.closed, h.bound, h.unbound, h.kept⟩
  change s.isOpen = false
  rcases hvacant with hstopping | hvacant
  · have hconnector : (s.connectInLoop errno).connector = s.connector :=
      if_pos hstopping
    exact h.socket (hconnector ▸ hsocket)
  · exact hvacant

theorem Tidy.connectFunctor (h : s.Tidy) (hvacant : s.isOpen = false)
    (addr : A) (errno : Int) : (s.connectFunctor addr errno).Tidy := by
  have ht : (s.restarted addr).Tidy :=
    ⟨h.socket, h.closed, h.bound, h.unbound, h.kept⟩
  rw [connectFunctor_eq]
  exact ht.connectInLoop (Or.inr hvacant) errno

theorem Tidy.disconnectFunctor (h : s.Tidy) (called : Nat) :
    (s.disconnectFunctor called).Tidy := by
  unfold TcpClient.disconnectFunctor
  dsimp only
  split
  · refine ⟨fun hsocket => ?_, h.closed, h.bound, h.unbound, h.kept⟩
    cases hsocket
  · next c hconnection =>
      have hunbound := unbound_of_bound h.bound hconnection
      split
      · refine ⟨fun hsocket => (by cases hsocket), fun d _ => ?_,
          fun d hd => ?_, fun _ => hunbound, fun d _ => ?_⟩
        · exact Or.inr (Or.inl (List.mem_cons_self ..))
        · exact absurd (hd.symm.trans (hunbound d)) (by decide)
        · exact Or.inr (List.mem_cons_self ..)
      · refine ⟨fun hsocket => (by cases hsocket), fun d hd => ?_,
          fun d hd => ?_, fun _ => hunbound, fun d hd => ?_⟩
        · cases hd
        · exact absurd (hd.symm.trans (hunbound d)) (by decide)
        · cases hd

theorem Tidy.newConnectionInLoop (h : s.Tidy) (hframes : s.frames = [])
    (hconnection : s.connection = none) : s.newConnectionInLoop.Tidy := by
  refine ⟨fun hsocket => (by cases hsocket), fun c hc => ?_, fun c hc => ?_,
    fun hframe => ?_, fun c hc => ?_⟩
  · obtain rfl : s.made = c := Option.some.inj hc
    refine Or.inl ?_
    change (Function.update s.status s.made .kConnected s.made).isOpen = true
    rw [Function.update_self]
    decide
  · change Function.update s.closeCallback s.made true c = true at hc
    change some s.made = some c
    rcases eq_or_ne c s.made with rfl | hne
    · rfl
    · rw [Function.update_of_ne hne] at hc
      have hbound := h.bound c hc
      rw [hconnection] at hbound
      cases hbound
  · change _ ∈ s.frames at hframe
    rw [hframes] at hframe
    cases hframe
  · obtain rfl : s.made = c := Option.some.inj hc
    exact Or.inl (Function.update_self ..)

theorem Tidy.closeInLoop (h : s.Tidy) (c : Nat) :
    Tidy { s with
      status := Function.update s.status c .kDisconnected
      frames := .closeInLoop c :: s.frames } := by
  refine ⟨fun hsocket => ?_, fun d hd => ?_, h.bound, fun hframe => ?_,
    fun d hd => ?_⟩
  · exact isOpen_closed (h.socket hsocket) c
  · change (Function.update s.status c .kDisconnected d).isOpen = true ∨ _
    rcases eq_or_ne d c with rfl | hne
    · exact Or.inr (Or.inr (List.mem_cons_self ..))
    · rw [Function.update_of_ne hne]
      rcases h.closed d hd with hopen | hframe | hframe
      · exact Or.inl hopen
      · exact Or.inr (Or.inl (List.mem_cons_of_mem _ hframe))
      · exact Or.inr (Or.inr (List.mem_cons_of_mem _ hframe))
  · refine h.unbound ?_
    exact (List.mem_cons.mp hframe).resolve_left (fun heq => by cases heq)
  · exact (h.kept d hd).imp_right (List.mem_cons_of_mem _)

/-- A half-closed connection is open. -/
theorem Tidy.endCall (h : s.Tidy) {c : Nat} (hc : s.status c = .kConnected) :
    Tidy { s with status := Function.update s.status c .kDisconnecting } := by
  refine ⟨fun hsocket => ?_, fun d hd => ?_, h.bound, h.unbound, h.kept⟩
  · refine isOpen_eq_false_iff.mpr fun d hd => ?_
    exact (isOpen_halfClosed hc d).trans
      (isOpen_eq_false_iff.mp (h.socket hsocket) d hd)
  · change (Function.update s.status c .kDisconnecting d).isOpen = true ∨ _
    rw [isOpen_halfClosed hc d]
    exact h.closed d hd

/-- The close callback takes the connection away. -/
theorem onClosedInConnection_tidy
    (h : ∀ d, s.closeCallback d = true → s.connection = some d) {c : Nat}
    (hc : s.closeCallback c = true) : (s.onClosedInConnection c).Tidy := by
  have hconnection := h c hc
  have hnone := unbound_of_bound h hconnection
  have hremoved : Tidy { s with
      closeCallback := Function.update s.closeCallback c false
      connection := none } := by
    refine ⟨fun _ => rfl, fun d hd => (by cases hd), fun d hd => ?_,
      fun _ => hnone, fun d hd => (by cases hd)⟩
    exact absurd (hd.symm.trans (hnone d)) (by decide)
  unfold onClosedInConnection
  rw [if_pos hconnection]
  dsimp only
  split
  · exact ⟨hremoved.socket, hremoved.closed, hremoved.bound, hremoved.unbound,
      hremoved.kept⟩
  · exact hremoved

/-- `closeInLoop` goes on without a close callback. -/
theorem Tidy.popFrame (h : s.Tidy) {c : Nat} {rest : List CallbackFrame}
    (hframes : s.frames = .closeInLoop c :: rest)
    (hc : s.closeCallback c = false) : Tidy { s with frames := rest } := by
  have hdisconnect : .disconnect ∈ s.frames → .disconnect ∈ rest := by
    intro hframe
    rw [hframes] at hframe
    exact (List.mem_cons.mp hframe).resolve_left (fun heq => by cases heq)
  refine ⟨h.socket, fun d hd => ?_, h.bound, fun hframe => ?_, fun d hd => ?_⟩
  · rcases h.closed d hd with hopen | hframe | hframe
    · exact Or.inl hopen
    · exact Or.inr (Or.inl (hdisconnect hframe))
    · rw [hframes] at hframe
      rcases List.mem_cons.mp hframe with heq | hrest
      · cases heq
        rcases h.kept c hd with hbound | hframe
        · exact absurd (hbound.symm.trans hc) (by decide)
        · exact Or.inr (Or.inl (hdisconnect hframe))
      · exact Or.inr (Or.inr hrest)
  · exact h.unbound (by rw [hframes]; exact List.mem_cons_of_mem _ hframe)
  · exact (h.kept d hd).imp_right hdisconnect

theorem Tidy.returnCallback (h : s.Tidy) {s' : TcpClient A T}
    (hexec : s.returnCallback = some s') : s'.Tidy := by
  unfold TcpClient.returnCallback at hexec
  split at hexec
  · cases hexec
  · next c rest hframes =>
      obtain rfl := Option.some.inj hexec
      split
      · next hc =>
          exact onClosedInConnection_tidy (s := { s with frames := rest })
            h.bound hc
      · next hc => exact h.popFrame hframes (Bool.eq_false_iff.mpr hc)
  · next rest hframes =>
      obtain rfl := Option.some.inj hexec
      have hunbound := h.unbound (by rw [hframes]; exact List.mem_cons_self ..)
      refine ⟨fun _ => rfl, fun d hd => (by cases hd), fun d hd => ?_,
        fun _ => hunbound, fun d hd => (by cases hd)⟩
      exact absurd (hd.symm.trans (hunbound d)) (by decide)

theorem Tidy.queueInLoop (h : s.Tidy) (task : ClientTask A) :
    (s.queueInLoop task).Tidy :=
  ⟨h.socket, h.closed, h.bound, h.unbound, h.kept⟩

/-- No handler of the connecting socket does harm. -/
theorem Tidy.handle (h : s.Tidy) (hframes : s.frames = [])
    (hsocket : s.connector.socket.isSome = true) (report : IOReport) :
    (s.handle report).Tidy := by
  cases report with
  | close =>
      simp only [TcpClient.handle]
      split
      · exact h.queueInLoop _
      · exact h
  | error =>
      have ht : Tidy { s with
          connector := s.connector.handleErrorInLoop.2 } :=
        h.setConnector fun _ => hsocket
      simp only [TcpClient.handle]
      split
      · exact ht.queueInLoop _
      · exact ht
  | read => exact h
  | write =>
      have ht : Tidy { s with
          connector :=
            (s.connector.handleWriteInLoop s.reconnectDelay).2 } :=
        h.setConnector fun _ => hsocket
      simp only [TcpClient.handle]
      split
      · exact ⟨h.socket, h.closed, h.bound, h.unbound, h.kept⟩
      · split
        · exact ht.newConnectionInLoop hframes
            (h.connection_eq_none hframes hsocket)
        · exact ht

variable [DecidableEq T] {loop : T}

theorem Tidy.load (h : s.Tidy) (thread : T) (addr : A) :
    (s.load thread addr).Tidy := by
  unfold TcpClient.load
  split
  · exact h
  · exact ⟨h.socket, h.closed, h.bound, h.unbound, h.kept⟩

theorem Tidy.callTask (h : s.Tidy) {task : ClientTask A}
    (hvacant : task.isConnect = true → s.isOpen = false) (errno : Int) :
    (s.callTask loop errno task).Tidy := by
  cases task with
  | connect addr => exact h.connectFunctor (hvacant rfl) addr errno
  | disconnect called => exact h.disconnectFunctor called
  | reconnect => exact h.load loop s.addr
  | onRetryInLoop failure =>
      refine h.setConnector fun hsocket => ?_
      rw [TcpConnector.onRetryInLoop_socket] at hsocket
      cases hsocket

/-- A step that is allowed keeps the client tidy. -/
theorem step_tidy (h : s.Tidy) (hhandling : s.Handling loop)
    (step : TcpClientStep A T)
    (hstep : (tcpClientMachine A loop).enabled s step)
    (hvacant : s.Vacant loop step) {s' : TcpClient A T}
    (hexec : (tcpClientMachine A loop).exec s step = some s') : s'.Tidy := by
  have hsame : ∀ {t : TcpClient A T}, t.connector = s.connector →
      t.connection = s.connection → t.status = s.status →
      t.closeCallback = s.closeCallback → t.frames = s.frames → t.Tidy := by
    intro t hconnector hconnection hstatus hcallback hframes
    have hopen : t.isOpen = s.isOpen := by
      rw [isOpen, isOpen, hconnection, hstatus]
    constructor
    · rw [hconnector, hopen]
      exact h.socket
    · rw [hconnection, hstatus, hframes]
      exact h.closed
    · rw [hcallback, hconnection]
      exact h.bound
    · rw [hframes, hcallback]
      exact h.unbound
    · rw [hconnection, hcallback, hframes]
      exact h.kept
  cases step with
  | setReconnectDelay delay =>
      obtain rfl := Option.some.inj hexec
      exact hsame rfl rfl rfl rfl rfl
  | connect thread addr =>
      obtain rfl := Option.some.inj hexec
      unfold load
      split <;> exact hsame rfl rfl rfl rfl rfl
  | store thread =>
      obtain ⟨addr, _, rfl⟩ := store_cases hexec
      exact hsame rfl rfl rfl rfl rfl
  | disconnect thread =>
      obtain rfl := Option.some.inj hexec
      exact hsame rfl rfl rfl rfl rfl
  | runInLoop thread errno =>
      obtain ⟨task, htask, rfl⟩ := runInLoop_cases hexec
      have hreturned := hsame (t := { s with
        calls := Function.update s.calls thread .idle }) rfl rfl rfl rfl rfl
      unfold runInLoop
      split
      · next heq =>
          refine hreturned.callTask (fun hconnect => ?_) errno
          exact hvacant.1 (callsFunctor_runInLoop heq htask hconnect)
      · exact hsame rfl rfl rfl rfl rfl
  | swapFunctors =>
      obtain rfl := Option.some.inj hexec
      exact hsame rfl rfl rfl rfl rfl
  | callFunctor errno =>
      obtain ⟨task, functors, hnext, rfl⟩ := callFunctor_cases hexec
      have hcalled := hsame (t := { s with functors := functors })
        rfl rfl rfl rfl rfl
      exact hcalled.callTask (fun hconnect =>
        hvacant.1 (callsFunctor_callFunctor hnext hconnect)) errno
  | returnFunctors =>
      obtain rfl := Option.some.inj hexec
      exact hsame rfl rfl rfl rfl rfl
  | fireTimer i errno =>
      obtain rfl := Option.some.inj hexec
      have ht : Tidy { s with
          connector := { s.connector with
            timers := s.connector.timers.eraseIdx i } } :=
        h.setConnector fun hsocket => hsocket
      exact ht.connectInLoop (hvacant.2 i rfl) errno
  | socketError error =>
      obtain rfl := Option.some.inj hexec
      refine h.setConnector fun hsocket => ?_
      exact (Option.isSome_map ..).symm.trans hsocket
  | poll revents =>
      obtain rfl := Option.some.inj hexec
      exact hsame rfl rfl rfl rfl rfl
  | handleReport =>
      obtain ⟨revents, report, hreport, hsocket, rfl⟩ :=
        handleReport_cases hexec
      obtain ⟨_, hframes⟩ := (hhandling (by rw [hreport]; rfl)).2
      have ht := h.handle hframes hsocket report
      exact ⟨ht.socket, ht.closed, ht.bound, ht.unbound, ht.kept⟩
  | endCall c =>
      obtain rfl := Option.some.inj hexec
      exact h.endCall hstep.2
  | closeInLoop c =>
      obtain rfl := Option.some.inj hexec
      exact h.closeInLoop c
  | returnCallback => exact h.returnCallback hexec

/-- What a step adds to the log was done without an open connection. -/
theorem step_single (h : s.Tidy) (hhandling : s.Handling loop)
    (hsingle : s.Single) {step : TcpClientStep A T}
    (hstep : (tcpClientMachine A loop).enabled s step)
    (hvacant : s.Vacant loop step) {s' : TcpClient A T}
    (hexec : (tcpClientMachine A loop).exec s step = some s') :
    s'.Single := by
  intro event hmem
  rcases mem_log_step hexec hmem with hold | ⟨rfl, hconnect⟩ |
    ⟨rfl, rfl, hsocket⟩
  · exact hsingle event hold
  · rcases hconnect with hconnect | ⟨hgoes, i, errno, rfl⟩
    · exact hvacant.1 hconnect
    · refine (hvacant.2 i rfl).resolve_left fun hstopping => ?_
      exact absurd (hstopping.symm.trans hgoes) (by decide)
  · exact h.connection_eq_none (hhandling hstep.2).2.2 hsocket

/-- A step after which there was only one connection has met its condition. -/
theorem vacant_of_single {step : TcpClientStep A T} {s' : TcpClient A T}
    (hexec : (tcpClientMachine A loop).exec s step = some s')
    (hsingle : s'.Single) : s.Vacant loop step := by
  refine ⟨fun hconnect => hsingle _ (attempt_mem_log hexec hconnect),
    fun i hi => ?_⟩
  cases step with
  | fireTimer j errno =>
      obtain rfl := Option.some.inj hexec
      cases hstopping : s.connector.stopping with
      | true => exact Or.inl rfl
      | false =>
          refine Or.inr (hsingle (.attempt s.isOpen s.isFinished) ?_)
          exact mem_log_connectInLoop.mpr (Or.inr ⟨hstopping, rfl⟩)
  | _ => cases hi

/-- A failure of this epoch has happened, and no connection was made since. -/
def Failed (s : TcpClient A T) (n : Nat) : Prop :=
  n ≤ s.connector.epoch ∧ (n = s.connector.epoch → s.isOpen = false)

/-- Every retry is for a failure, and a stopped connector has nothing to
do. -/
structure Current (s : TcpClient A T) : Prop where
  stopped : s.connector.stopping = true →
    s.connector.socket = none ∧ s.isOpen = false
  timers : ∀ n ∈ s.connector.timers, s.Failed n
  functors : ∀ n, .onRetryInLoop n ∈ s.functors.pending → s.Failed n
  idle : s.running = false → s.functors.batch = []

omit [DecidableEq T] in
/-- A step that makes an attempt or a connection begins an epoch; the others
open no connection. -/
theorem Failed.next {t : TcpClient A T} {n : Nat} (h : s.Failed n)
    (hnext : s.connector.epoch < t.connector.epoch ∨
      t.connector.epoch = s.connector.epoch ∧
        (s.isOpen = false → t.isOpen = false)) : t.Failed n := by
  rcases hnext with hlt | ⟨heq, hopen⟩
  · refine ⟨Nat.le_of_lt (Nat.lt_of_le_of_lt h.1 hlt), fun hn => ?_⟩
    exact absurd (hn ▸ h.1) (Nat.not_le_of_lt hlt)
  · exact ⟨heq ▸ h.1, fun hn => hopen (h.2 (hn.trans heq))⟩

omit [DecidableEq T] in
/-- The connection may be closed or taken away. -/
theorem Current.frame {t : TcpClient A T} (h : s.Current)
    (hconnector : t.connector = s.connector)
    (hopen : s.isOpen = false → t.isOpen = false)
    (hpending : ∀ n, .onRetryInLoop n ∈ t.functors.pending →
      .onRetryInLoop n ∈ s.functors.pending)
    (hidle : t.running = false → t.functors.batch = []) : t.Current := by
  have hkeep : ∀ {n}, s.Failed n → t.Failed n := fun hn =>
    hn.next (Or.inr ⟨by rw [hconnector], hopen⟩)
  refine ⟨fun hstopping => ?_, fun n hn => ?_, fun n hn => ?_, hidle⟩
  · rw [hconnector] at hstopping ⊢
    exact ⟨(h.stopped hstopping).1, hopen (h.stopped hstopping).2⟩
  · rw [hconnector] at hn
    exact hkeep (h.timers n hn)
  · exact hkeep (h.functors n (hpending n hn))

omit [DecidableEq T] in
/-- No connection is open, and the connector changes. -/
theorem Current.setConnector (h : s.Current) (hclosed : s.isOpen = false)
    {connector : TcpConnector A} (hepoch : s.connector.epoch ≤ connector.epoch)
    (htimers : ∀ n ∈ connector.timers,
      n ∈ s.connector.timers ∨ n ≤ connector.epoch)
    (hstopped : connector.stopping = true → connector.socket = none)
    {log : List ClientEvent} :
    Current { s with connector := connector, log := log } := by
  have hfailed : ∀ {n}, n ≤ connector.epoch →
      Failed { s with connector := connector, log := log } n :=
    fun hn => ⟨hn, fun _ => hclosed⟩
  refine ⟨fun hstopping => ⟨hstopped hstopping, hclosed⟩, fun n hn => ?_,
    fun n hn => ?_, h.idle⟩
  · rcases htimers n hn with hold | hnew
    · exact hfailed ((h.timers n hold).1.trans hepoch)
    · exact hfailed hnew
  · exact hfailed ((h.functors n hn).1.trans hepoch)

omit [DecidableEq T] in
theorem Current.connectInLoop (h : s.Current) (hclosed : s.isOpen = false)
    (errno : Int) : (s.connectInLoop errno).Current := by
  by_cases hstopping : s.connector.stopping = true
  · refine h.frame (if_pos hstopping) (fun _ => hclosed) (fun n hn => hn) ?_
    exact h.idle
  · obtain ⟨hepoch, htimers⟩ := TcpConnector.connectInLoop_spec
      (Bool.eq_false_iff.mpr hstopping) s.reconnectDelay errno
    refine h.setConnector hclosed (hepoch ▸ Nat.le_succ _) (fun n hn => ?_)
      fun hgoes => ?_
    · exact (htimers n hn).imp_right fun heq =>
        Nat.le_of_eq (heq.trans hepoch.symm)
    · rw [TcpConnector.connectInLoop_stopping] at hgoes
      exact absurd hgoes hstopping

omit [DecidableEq T] in
/-- The functor of `disconnect` leaves no open connection. -/
theorem disconnectFunctor_isOpen (called : Nat) :
    (s.disconnectFunctor called).isOpen = false := by
  unfold disconnectFunctor
  dsimp only
  split
  · next hconnection => simp only [isOpen, hconnection, Option.any_none]
  · next c hconnection =>
      split
      · refine isOpen_eq_false_iff.mpr fun d hd => ?_
        obtain rfl : c = d := Option.some.inj (hconnection.symm.trans hd)
        change (Function.update s.status c .kDisconnected c).isOpen = false
        rw [Function.update_self]
        decide
      · rfl

omit [DecidableEq T] in
theorem Current.disconnectFunctor (h : s.Current) (called : Nat) :
    (s.disconnectFunctor called).Current := by
  obtain ⟨hconnector, hfunctors, hrunning, _⟩ :=
    s.disconnectFunctor_spec called
  have hclosed := s.disconnectFunctor_isOpen called
  have hfailed : ∀ {n}, s.Failed n → (s.disconnectFunctor called).Failed n :=
    fun hn => hn.next (Or.inr ⟨by rw [hconnector]; rfl, fun _ => hclosed⟩)
  refine ⟨fun _ => ⟨by rw [hconnector]; rfl, hclosed⟩, fun n hn => ?_,
    fun n hn => ?_, ?_⟩
  · rw [hconnector] at hn
    exact hfailed (h.timers n hn)
  · rw [hfunctors] at hn
    exact hfailed (h.functors n hn)
  · rw [hrunning, hfunctors]
    exact h.idle

omit [DecidableEq T] in
theorem Current.onRetryInLoop (h : s.Current) {failure : Nat}
    (hfailure : s.Failed failure) (delay : Int) :
    Current { s with
      connector := s.connector.onRetryInLoop delay failure } := by
  have hfailed : ∀ {n}, s.Failed n → Failed { s with
      connector := s.connector.onRetryInLoop delay failure } n :=
    fun hn => hn.next (Or.inr ⟨s.connector.onRetryInLoop_epoch delay failure,
      fun hclosed => hclosed⟩)
  refine ⟨fun hstopping => ?_, fun n hn => ?_,
    fun n hn => hfailed (h.functors n hn), h.idle⟩
  · refine ⟨s.connector.onRetryInLoop_socket delay failure, ?_⟩
    exact (h.stopped
      ((s.connector.onRetryInLoop_stopping delay failure).symm.trans
        hstopping)).2
  · rcases TcpConnector.mem_onRetryInLoop hn with hold | rfl
    · exact hfailed (h.timers n hold)
    · exact hfailed hfailure

omit [DecidableEq T] in
theorem Current.queueInLoop (h : s.Current) {task : ClientTask A}
    (htask : ∀ n, task = .onRetryInLoop n → s.Failed n) :
    (s.queueInLoop task).Current := by
  refine ⟨h.stopped, h.timers, fun n hn => ?_, h.idle⟩
  rcases FunctorQueue.mem_pending_queueInLoop.mp hn with hold | hnew
  · exact h.functors n hold
  · exact htask n hnew.symm

omit [DecidableEq T] in
/-- A failure that a handler finds is one of this epoch. -/
theorem Current.handle (h : s.Current) (htidy : s.Tidy)
    (hsocket : s.connector.socket.isSome = true) (report : IOReport) :
    (s.handle report).Current := by
  have hclosed := htidy.socket hsocket
  have hgoes : s.connector.stopping ≠ true := by
    intro hstopping
    rw [(h.stopped hstopping).1] at hsocket
    cases hsocket
  cases report with
  | close =>
      simp only [TcpClient.handle]
      split
      · refine h.queueInLoop fun n hn => ?_
        cases hn
        exact ⟨Nat.le_refl _, fun _ => hclosed⟩
      · exact h
  | error =>
      obtain ⟨hstopping, hepoch, htimers, _⟩ :=
        s.connector.handleErrorInLoop_spec
      have ht : Current { s with
          connector := s.connector.handleErrorInLoop.2 } :=
        h.setConnector hclosed (Nat.le_of_eq hepoch.symm)
          (fun n hn => Or.inl (htimers ▸ hn))
          fun hstop => absurd (hstopping.symm.trans hstop) hgoes
      simp only [TcpClient.handle]
      split
      · refine ht.queueInLoop fun n hn => ?_
        cases hn
        exact ⟨Nat.le_refl _, fun _ => hclosed⟩
      · exact ht
  | read => exact h
  | write =>
      obtain ⟨hstopping, hepoch, _, htimers⟩ :=
        s.connector.handleWriteInLoop_spec s.reconnectDelay
      have ht : Current { s with connector :=
          (s.connector.handleWriteInLoop s.reconnectDelay).2 } :=
        h.setConnector hclosed (Nat.le_of_eq hepoch.symm)
          (fun n hn => (htimers n hn).imp_right
            fun heq => Nat.le_of_eq (heq.trans hepoch.symm))
          fun hstop => absurd (hstopping.symm.trans hstop) hgoes
      simp only [TcpClient.handle]
      split
      · exact ⟨h.stopped, h.timers, h.functors, h.idle⟩
      · split
        · refine ⟨fun hstop => absurd (hstopping.symm.trans hstop) hgoes,
            fun n hn => ?_, fun n hn => ?_, ht.idle⟩
          · exact (ht.timers n hn).next (Or.inl (Nat.lt_succ_self _))
          · exact (ht.functors n hn).next (Or.inl (Nat.lt_succ_self _))
        · exact ht

theorem Current.load (h : s.Current) (thread : T) (addr : A) :
    (s.load thread addr).Current := by
  unfold TcpClient.load
  split
  · exact h
  · exact h.frame rfl id (fun n hn => hn) h.idle

theorem Current.callTask (h : s.Current) {task : ClientTask A}
    (hvacant : task.isConnect = true → s.isOpen = false)
    (hfailed : ∀ n, task = .onRetryInLoop n → s.Failed n) (errno : Int) :
    (s.callTask loop errno task).Current := by
  cases task with
  | connect addr =>
      have ht : (s.restarted addr).Current :=
        ⟨fun hstop => (by cases hstop), h.timers, h.functors, h.idle⟩
      exact ht.connectInLoop (hvacant rfl) errno
  | disconnect called => exact h.disconnectFunctor called
  | reconnect => exact h.load loop s.addr
  | onRetryInLoop failure =>
      exact h.onRetryInLoop (hfailed failure rfl) s.reconnectDelay

omit [DecidableEq T] in
theorem Current.returnCallback (h : s.Current) {s' : TcpClient A T}
    (hexec : s.returnCallback = some s') : s'.Current := by
  obtain ⟨hconnector, _, hrunning, _, _, _, hpending, hbatch, hopen⟩ :=
    returnCallback_spec hexec
  refine h.frame hconnector hopen (fun n hn => ?_) fun hidle => ?_
  · exact (hpending _ hn).resolve_right fun heq => by cases heq
  · exact hbatch.trans (h.idle (hrunning ▸ hidle))

/-- A stopped client has no open connection, and neither has one whose last
failure is to be retried. -/
theorem Current.vacant (h : s.Current) {step : TcpClientStep A T}
    (hfresh : s.Fresh loop step) : s.Vacant loop step := by
  refine ⟨fun hconnect => (h.stopped (hfresh.1 hconnect)).2, fun i hi => ?_⟩
  refine (hfresh.2 i hi).imp_right fun htimer => ?_
  exact (h.timers _ (List.mem_of_getElem? htimer)).2 rfl

theorem step_current (h : s.Current) (htidy : s.Tidy)
    (step : TcpClientStep A T)
    (hstep : (tcpClientMachine A loop).enabled s step)
    (hvacant : s.Vacant loop step) {s' : TcpClient A T}
    (hexec : (tcpClientMachine A loop).exec s step = some s') :
    s'.Current := by
  obtain ⟨_, hstep⟩ := hstep
  cases step with
  | setReconnectDelay delay =>
      obtain rfl := Option.some.inj hexec
      exact h.frame rfl id (fun n hn => hn) h.idle
  | connect thread addr =>
      obtain rfl := Option.some.inj hexec
      exact Current.load (s := { s with connects := s.connects + 1 })
        (h.frame rfl id (fun n hn => hn) h.idle) thread addr
  | store thread =>
      obtain ⟨addr, _, rfl⟩ := store_cases hexec
      exact h.frame rfl id (fun n hn => hn) h.idle
  | disconnect thread =>
      obtain rfl := Option.some.inj hexec
      exact h.frame rfl id (fun n hn => hn) h.idle
  | runInLoop thread errno =>
      obtain ⟨task, htask, rfl⟩ := runInLoop_cases hexec
      -- `connect` and `disconnect` pass no retry functor
      have hnot : ∀ n, task ≠ .onRetryInLoop n := by
        rintro n rfl
        cases hcall : s.calls thread <;> rw [hcall] at htask <;> cases htask
      have hreturned : Current { s with
          calls := Function.update s.calls thread .idle } :=
        h.frame rfl id (fun n hn => hn) h.idle
      unfold runInLoop
      split
      · next heq =>
          refine hreturned.callTask (fun hconnect => ?_)
            (fun n hn => absurd hn (hnot n)) errno
          exact hvacant.1 (callsFunctor_runInLoop heq htask hconnect)
      · exact hreturned.queueInLoop fun n hn => absurd hn (hnot n)
  | swapFunctors =>
      obtain rfl := Option.some.inj hexec
      refine h.frame rfl id (fun n hn => ?_) fun hrunning => by cases hrunning
      change _ ∈ s.functors.swapFunctors.pending at hn
      rwa [FunctorQueue.pending_swapFunctors (h.idle hstep.2)] at hn
  | callFunctor errno =>
      obtain ⟨task, functors, hnext, rfl⟩ := callFunctor_cases hexec
      have hcalled : Current { s with functors := functors } := by
        refine h.frame rfl id (fun n hn => ?_) fun hidle => ?_
        · exact (FunctorQueue.mem_pending_nextFunctor hnext).mpr (Or.inr hn)
        · exact absurd (hstep.2.1.symm.trans hidle) (by decide)
      refine hcalled.callTask (fun hconnect =>
        hvacant.1 (callsFunctor_callFunctor hnext hconnect)) (fun n hn => ?_)
        errno
      refine h.functors n ?_
      exact (FunctorQueue.mem_pending_nextFunctor hnext).mpr (Or.inl hn.symm)
  | returnFunctors =>
      obtain rfl := Option.some.inj hexec
      exact h.frame rfl id (fun n hn => hn) fun _ => hstep.2.2
  | fireTimer i errno =>
      obtain rfl := Option.some.inj hexec
      have ht : Current { s with
          connector := { s.connector with
            timers := s.connector.timers.eraseIdx i } } :=
        ⟨h.stopped, fun n hn => h.timers n (List.mem_of_mem_eraseIdx hn),
          h.functors, h.idle⟩
      refine ht.connectInLoop ?_ errno
      rcases hvacant.2 i rfl with hstopping | hclosed
      · exact (h.stopped hstopping).2
      · exact hclosed
  | socketError error =>
      obtain rfl := Option.some.inj hexec
      refine ⟨fun hstopping => ?_, h.timers, h.functors, h.idle⟩
      obtain ⟨hsocket, hclosed⟩ := h.stopped hstopping
      refine ⟨?_, hclosed⟩
      change Option.map _ s.connector.socket = none
      rw [hsocket]
      rfl
  | poll revents =>
      obtain rfl := Option.some.inj hexec
      exact h.frame rfl id (fun n hn => hn) h.idle
  | handleReport =>
      obtain ⟨revents, report, hreport, hsocket, rfl⟩ :=
        handleReport_cases hexec
      exact (h.handle htidy hsocket report).frame rfl id (fun n hn => hn)
        (h.handle htidy hsocket report).idle
  | endCall c =>
      obtain rfl := Option.some.inj hexec
      refine h.frame rfl (fun hclosed => ?_) (fun n hn => hn) h.idle
      refine isOpen_eq_false_iff.mpr fun d hd => ?_
      exact (isOpen_halfClosed hstep d).trans
        (isOpen_eq_false_iff.mp hclosed d hd)
  | closeInLoop c =>
      obtain rfl := Option.some.inj hexec
      exact h.frame rfl (fun hclosed => isOpen_closed hclosed c)
        (fun n hn => hn) h.idle
  | returnCallback => exact h.returnCallback hexec

omit [DecidableEq T] in
theorem start_tidy (addr : A) : (start addr : TcpClient A T).Tidy := by
  refine ⟨fun _ => rfl, ?_, ?_, ?_, ?_⟩ <;> intros <;> contradiction

omit [DecidableEq T] in
theorem start_current (addr : A) : (start addr : TcpClient A T).Current := by
  refine ⟨fun _ => ⟨rfl, rfl⟩, fun n hn => ?_, fun n hn => ?_, fun _ => rfl⟩
  · cases hn
  · cases hn

end TcpClient

/-- One connection per client.  In every run there is never more than one
connection, nor an attempt for another, exactly as long as each timer and each
functor of `connect` that makes an attempt finds no open connection.  They do
if they are fresh. -/
theorem tcpClient_single_iff {A : Type u} {T : Type v} [DecidableEq T]
    (loop : T) (addr : A) (word : List (TcpClientStep A T))
    (hlegal : (tcpClientMachine A loop).Legal (.start addr) word) :
    ((tcpClientMachine A loop).Holds TcpClient.Single (.start addr) word ↔
      (tcpClientMachine A loop).Meets (TcpClient.Vacant loop) (.start addr)
        word) ∧
    ((tcpClientMachine A loop).Meets (TcpClient.Fresh loop) (.start addr)
        word →
      (tcpClientMachine A loop).Holds TcpClient.Single (.start addr) word) := by
  have hsingle : (TcpClient.start addr : TcpClient A T).Single :=
    fun event hmem => by cases hmem
  constructor
  · apply Machine.holds_iff_meets (E := (tcpClientMachine A loop).enabled)
      (I := fun s => s.Handling loop ∧ s.Tidy ∧ s.Single)
    · exact fun s hs => hs.2.2
    · intro s step hs hstep hvacant
      obtain ⟨s', hexec, hhandling⟩ :=
        TcpClient.step_handling hs.1 step hstep
      exact ⟨s', hexec, hhandling,
        TcpClient.step_tidy hs.2.1 hs.1 step hstep hvacant hexec,
        TcpClient.step_single hs.2.1 hs.1 hs.2.2 hstep hvacant hexec⟩
    · exact fun s step s' hs _ hexec hs' =>
        TcpClient.vacant_of_single hexec hs'
    · exact ⟨TcpClient.start_handling addr, TcpClient.start_tidy addr, hsingle⟩
    · exact hlegal
  · intro hfresh
    have hrun : (tcpClientMachine A loop).Holds (fun s => (s.Handling loop ∧
        s.Tidy ∧ s.Single) ∧ s.Current) (.start addr) word := by
      refine Machine.holds_of_step (fun s step hs hstep => ?_)
        ⟨⟨TcpClient.start_handling addr, TcpClient.start_tidy addr, hsingle⟩,
          TcpClient.start_current addr⟩ (hlegal.and hfresh)
      obtain ⟨⟨hhandling, htidy, hlog⟩, hcurrent⟩ := hs
      have hvacant := hcurrent.vacant hstep.2
      obtain ⟨s', hexec, hhandling'⟩ :=
        TcpClient.step_handling hhandling step hstep.1
      exact ⟨s', hexec, ⟨hhandling',
        TcpClient.step_tidy htidy hhandling step hstep.1 hvacant hexec,
        TcpClient.step_single htidy hhandling hlog hstep.1 hvacant hexec⟩,
        TcpClient.step_current hcurrent htidy step hstep.1 hvacant hexec⟩
    exact hrun.mono fun s hs => hs.1.2.2

namespace TcpClient

instance [DecidableEq T] (loop : T) (s : TcpClient A T)
    (step : TcpClientStep A T) : Decidable (s.Vacant loop step) :=
  inferInstanceAs (Decidable
    ((s.callsFunctor loop ClientTask.isConnect step = true → s.isOpen = false) ∧
      ∀ _i ∈ step.timer, s.connector.stopping = true ∨ s.isOpen = false))

instance [DecidableEq T] (loop : T) (s : TcpClient A T)
    (step : TcpClientStep A T) : Decidable (s.Fresh loop step) :=
  inferInstanceAs (Decidable
    ((s.callsFunctor loop ClientTask.isConnect step = true →
        s.connector.stopping = true) ∧
      ∀ i ∈ step.timer, s.connector.stopping = true ∨
        s.connector.timers[i]? = some s.connector.epoch))

end TcpClient

/-- The first attempt is refused, and the timer makes another one, which
succeeds.  The thread of the loop is `true`. -/
def retriedRun : List (TcpClientStep Nat Bool) :=
  [.setReconnectDelay 1, .connect false 5, .store false, .runInLoop false 0,
    .swapFunctors, .callFunctor EINPROGRESS, .returnFunctors,
    .poll (POLLERR ||| POLLHUP ||| POLLOUT), .handleReport, .swapFunctors,
    .callFunctor 0, .returnFunctors, .fireTimer 0 EINPROGRESS, .poll POLLOUT,
    .handleReport, .closeInLoop 0, .returnCallback]

/-- The first attempt is refused.  The application disconnects and connects
again, and the timer of the first attempt expires during the second one. -/
def restartedRun : List (TcpClientStep Nat Bool) :=
  [.setReconnectDelay 1, .connect true 5, .store true,
    .runInLoop true ECONNREFUSED, .disconnect true, .runInLoop true 0,
    .connect true 5, .store true, .runInLoop true EINPROGRESS,
    .fireTimer 0 EINPROGRESS, .poll POLLOUT, .handleReport]

theorem tcpClient_single_iff_runs :
    (tcpClientMachine Nat true).Holds TcpClient.Single (.start 5)
        restartedRun ∧
      (tcpClientMachine Nat true).Holds TcpClient.Single (.start 5)
        retriedRun :=
  ⟨(tcpClient_single_iff true 5 restartedRun (by decide +kernel)).1.mpr
      (by decide +kernel),
    (tcpClient_single_iff true 5 retriedRun (by decide +kernel)).2
      (by decide +kernel)⟩

/-- The first attempt is refused.  The application disconnects and connects
again, and the timer of the first attempt expires when the second one has
succeeded. -/
def staleRun : List (TcpClientStep Nat Bool) :=
  [.setReconnectDelay 1, .connect true 5, .store true,
    .runInLoop true EINPROGRESS, .poll (POLLERR ||| POLLHUP ||| POLLOUT),
    .handleReport, .swapFunctors, .callFunctor 0, .returnFunctors,
    .disconnect true, .runInLoop true 0, .connect true 5, .store true,
    .runInLoop true EINPROGRESS, .poll POLLOUT, .handleReport,
    .fireTimer 0 EINPROGRESS, .poll POLLOUT, .handleReport]

theorem tcpClient_not_single :
    (tcpClientMachine Nat true).Legal (.start 5) staleRun ∧
      ¬(tcpClientMachine Nat true).Holds TcpClient.Single (.start 5)
        staleRun := by
  have hlog : ((tcpClientMachine Nat true).run (.start 5) staleRun).map
      TcpClient.log = some [.attempt false false, .attempt false false,
        .newConnection none false, .attempt true false,
        .newConnection (some 0) false] := by
    decide +kernel
  refine ⟨by decide +kernel, Machine.not_holds_of_view hlog ?_⟩
  intro t hlog hsingle
  have hreplaced : ClientEvent.Single (.newConnection (some 0) false) := by
    refine hsingle _ ?_
    rw [hlog]
    decide
  cases hreplaced

end Libsaf
