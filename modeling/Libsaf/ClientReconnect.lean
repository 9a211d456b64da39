/-
The automatic reconnect of `saf::TcpClient`.  The close callback queues a call
of `connect` if it finds `_connecting` set, and that call returns at once if it
finds `_connecting` set.
-/
import Libsaf.TcpClient

namespace Libsaf

universe u v

variable {A : Type u} {T : Type v}

def ClientTask.isReconnect : ClientTask A → Bool
  | .reconnect => true
  | .connect _ | .disconnect _ | .onRetryInLoop _ => false

def ClientEvent.isAttempt : ClientEvent → Bool
  | .attempt _ _ => true
  | .newConnection _ _ => false

/-- The thread is in `connect` and has passed the guard. -/
def ClientPc.isConnecting : ClientPc A → Bool
  | .loaded _ | .connecting _ => true
  | .idle | .disconnecting _ => false

/-- What there is when a close callback and the functor that it queued have
run: `disconnect` was called since the last `connect`, an attempt was made since
the close, a retry is scheduled. -/
structure ReconnectOutcome where
  ended : Bool
  started : Bool
  scheduled : Bool
deriving Repr, DecidableEq

/-- A client and its closes.  `waiting` are the numbers of attempts made before
the closes whose functors are queued, in the order of the functors, and
`current` is that of the functor that has passed the guard of `connect`. -/
structure ReconnectTrace (A : Type u) (T : Type v) where
  client : TcpClient A T
  ended : Bool
  waiting : List Nat
  current : Option Nat
  outcomes : List ReconnectOutcome

namespace TcpClient

/-- The calls of `connectInLoop` that made an attempt. -/
def attempts (s : TcpClient A T) : Nat :=
  s.log.countP ClientEvent.isAttempt

/-- The functors of close callbacks that are queued. -/
def reconnects (s : TcpClient A T) : Nat :=
  s.functors.pending.countP ClientTask.isReconnect

/-- Between two calls of `runFunctors` there is no batch. -/
def Idle (s : TcpClient A T) : Prop :=
  s.running = false → s.functors.batch = []

/-- The step calls the close callback of the connection, and the client is to
reconnect. -/
def closesConnection (s : TcpClient A T) : TcpClientStep A T → Bool
  | .returnCallback =>
      match s.frames with
      | .closeInLoop c :: _ =>
          s.closeCallback c ∧ s.connection = some c ∧ 0 < s.reconnectDelay
      | _ => false
  | _ => false

/-- The step executes the functor of a `connect`, or a retry timer that finds
`_stopping` unset. -/
def starts [DecidableEq T] (loop : T) (s : TcpClient A T) :
    TcpClientStep A T → Bool
  | .fireTimer _ _ => !s.connector.stopping
  | step => s.callsFunctor loop ClientTask.isConnect step

/-- The step calls the functor of a close callback. -/
def callsReconnect (s : TcpClient A T) : TcpClientStep A T → Bool
  | .callFunctor _ => s.functors.batch.head?.any ClientTask.isReconnect
  | _ => false

end TcpClient

namespace ReconnectTrace

def start (addr : A) : ReconnectTrace A T :=
  { client := .start addr
    ended := false
    waiting := []
    current := none
    outcomes := [] }

/-- The closes that end with the step because `connect` is not called, or
returns at its guard. -/
def ignored (s : ReconnectTrace A T) (step : TcpClientStep A T) : List Nat :=
  if s.client.closesConnection step ∧ s.client.connecting = false then
    [s.client.attempts]
  else if s.client.callsReconnect step ∧ s.client.connecting then
    s.waiting.head?.toList
  else []

def waitingAfter (s : ReconnectTrace A T) (step : TcpClientStep A T) :
    List Nat :=
  if s.client.closesConnection step ∧ s.client.connecting then
    s.waiting ++ [s.client.attempts]
  else if s.client.callsReconnect step then s.waiting.tail
  else s.waiting

def endedAfter (s : ReconnectTrace A T) : TcpClientStep A T → Bool
  | .connect _ _ => false
  | .disconnect _ => true
  | _ => s.ended

/-- What is known in the state after the step about a close before which there
were `n` attempts. -/
def outcome (s : ReconnectTrace A T) (client : TcpClient A T) (n : Nat) :
    ReconnectOutcome :=
  { ended := s.ended
    started := n < client.attempts
    scheduled := client.connector.timers ≠ [] }

variable [DecidableEq T] (loop : T)

/-- The close that ends with the step because its functor returns from
`connect`. -/
def finished (s : ReconnectTrace A T) : TcpClientStep A T → List Nat
  | .runInLoop thread _ => if thread = loop then s.current.toList else []
  | _ => []

def currentAfter (s : ReconnectTrace A T) (step : TcpClientStep A T) :
    Option Nat :=
  if s.client.callsReconnect step ∧ s.client.connecting = false then
    s.waiting.head?
  else if s.finished loop step ≠ [] then none
  else s.current

def after (s : ReconnectTrace A T) (step : TcpClientStep A T)
    (client : TcpClient A T) : ReconnectTrace A T :=
  { client := client
    ended := s.endedAfter step
    waiting := s.waitingAfter step
    current := s.currentAfter loop step
    outcomes := s.outcomes ++
      (s.ignored step ++ s.finished loop step).map (s.outcome client) }

end ReconnectTrace

/-- The client with the closes of its connections. -/
def reconnectMachine (A : Type u) [DecidableEq T] (loop : T) :
    Machine (ReconnectTrace A T) (TcpClientStep A T) where
  enabled s step := (tcpClientMachine A loop).enabled s.client step
  exec s step := ((tcpClientMachine A loop).exec s.client step).map
    (s.after loop step)

namespace TcpClient

variable {s s' : TcpClient A T}

theorem attempts_eq_of_log {t : TcpClient A T} (h : t.log = s.log) :
    t.attempts = s.attempts := by
  rw [attempts, h, attempts]

theorem reconnects_eq_of_functors {t : TcpClient A T}
    (h : t.functors = s.functors) : t.reconnects = s.reconnects := by
  rw [reconnects, h, reconnects]

theorem reconnects_queueInLoop (task : ClientTask A) :
    (s.queueInLoop task).reconnects =
      s.reconnects + [task].countP ClientTask.isReconnect := by
  rw [reconnects, queueInLoop, FunctorQueue.pending_queueInLoop,
    List.countP_append, reconnects]

/-- An attempt is counted. -/
theorem attempts_connectInLoop (errno : Int) :
    (s.connectInLoop errno).attempts =
      s.attempts + if s.connector.stopping then 0 else 1 := by
  change List.countP _ (if s.connector.stopping then s.log else _) = _
  cases s.connector.stopping with
  | true => rfl
  | false => exact List.countP_append

theorem attempts_connectFunctor (addr : A) (errno : Int) :
    (s.connectFunctor addr errno).attempts = s.attempts + 1 :=
  attempts_connectInLoop (s := s.restarted addr) errno

variable [DecidableEq T] {loop : T}

theorem load_functors (thread : T) (addr : A) :
    (s.load thread addr).functors = s.functors := by
  unfold load
  split <;> rfl

theorem callTask_functors (errno : Int) (task : ClientTask A) :
    (s.callTask loop errno task).functors = s.functors := by
  cases task with
  | connect addr => rfl
  | disconnect called => exact (s.disconnectFunctor_spec called).2.1
  | reconnect => exact load_functors loop s.addr
  | onRetryInLoop failure => rfl

theorem callTask_running (errno : Int) (task : ClientTask A) :
    (s.callTask loop errno task).running = s.running := by
  cases task with
  | connect addr => rfl
  | disconnect called => exact (s.disconnectFunctor_spec called).2.2.1
  | reconnect =>
      change (s.load loop s.addr).running = s.running
      unfold load
      split <;> rfl
  | onRetryInLoop failure => rfl

theorem attempts_callTask (errno : Int) (task : ClientTask A) :
    (s.callTask loop errno task).attempts =
      s.attempts + if task.isConnect then 1 else 0 := by
  cases task with
  | connect addr => exact attempts_connectFunctor addr errno
  | disconnect called =>
      exact attempts_eq_of_log (s.disconnectFunctor_log called)
  | reconnect => exact attempts_eq_of_log (load_log loop s.addr)
  | onRetryInLoop failure => rfl

omit [DecidableEq T] in
/-- A handler of the connecting socket queues no reconnect and makes no
attempt. -/
theorem handle_counts (report : IOReport) :
    (s.handle report).reconnects = s.reconnects ∧
      (s.handle report).attempts = s.attempts ∧
      (s.handle report).functors.batch = s.functors.batch ∧
      (s.handle report).running = s.running := by
  cases report with
  | read => exact ⟨rfl, rfl, rfl, rfl⟩
  | close =>
      simp only [handle]
      split
      · exact ⟨reconnects_queueInLoop _, rfl, rfl, rfl⟩
      · exact ⟨rfl, rfl, rfl, rfl⟩
  | error =>
      simp only [handle]
      split
      · exact ⟨reconnects_queueInLoop _, rfl, rfl, rfl⟩
      · exact ⟨rfl, rfl, rfl, rfl⟩
  | write =>
      simp only [handle]
      split
      · exact ⟨rfl, rfl, rfl, rfl⟩
      · split
        · exact ⟨rfl, List.countP_append, rfl, rfl⟩
        · exact ⟨rfl, rfl, rfl, rfl⟩

/-- An attempt is made by the functor of a `connect` or by a timer. -/
theorem attempts_step {step : TcpClientStep A T}
    (hexec : (tcpClientMachine A loop).exec s step = some s') :
    s'.attempts = s.attempts + if s.starts loop step then 1 else 0 := by
  cases step with
  | connect thread addr =>
      obtain rfl := Option.some.inj hexec
      exact attempts_eq_of_log (load_log
        (s := { s with connects := s.connects + 1 }) thread addr)
  | store thread =>
      obtain ⟨addr, _, rfl⟩ := store_cases hexec
      rfl
  | runInLoop thread errno =>
      obtain ⟨task, htask, rfl⟩ := runInLoop_cases hexec
      have hstarts : s.starts loop (.runInLoop thread errno) =
          decide (thread = loop ∧ task.isConnect = true) := by
        simp only [starts, callsFunctor, htask, Option.any_some]
      rw [hstarts]
      unfold runInLoop
      dsimp only
      by_cases hthread : thread = loop
      · simp only [hthread, if_true, true_and, decide_eq_true_eq]
        exact attempts_callTask
          (s := { s with calls := Function.update s.calls loop .idle })
          errno task
      · simp only [hthread, if_false, false_and, decide_false,
          Bool.false_eq_true]
        rfl
  | callFunctor errno =>
      obtain ⟨task, functors, hnext, rfl⟩ := callFunctor_cases hexec
      have hstarts : s.starts loop (.callFunctor errno : TcpClientStep A T) =
          task.isConnect := by
        simp only [starts, callsFunctor,
          FunctorQueue.head?_batch_of_nextFunctor hnext, Option.any_some]
      rw [hstarts]
      exact attempts_callTask (s := { s with functors := functors }) errno task
  | fireTimer i errno =>
      obtain rfl := Option.some.inj hexec
      have hattempts := attempts_connectInLoop errno (s := { s with
        connector := { s.connector with
          timers := s.connector.timers.eraseIdx i } })
      rw [hattempts]
      cases hstopping : s.connector.stopping <;>
        simp only [starts, hstopping] <;> rfl
  | handleReport =>
      obtain ⟨revents, report, _, _, rfl⟩ := handleReport_cases hexec
      exact (s.handle_counts report).2.1
  | returnCallback =>
      exact attempts_eq_of_log (returnCallback_spec hexec).2.1
  | _ =>
      obtain rfl := Option.some.inj hexec
      rfl

omit [DecidableEq T] in
theorem closesConnection_iff {c : Nat} {rest : List CallbackFrame}
    (hframes : s.frames = .closeInLoop c :: rest) :
    s.closesConnection (.returnCallback : TcpClientStep A T) = true ↔
      s.closeCallback c = true ∧ s.connection = some c ∧
        0 < s.reconnectDelay := by
  unfold closesConnection
  rw [hframes]
  exact decide_eq_true_iff

omit [DecidableEq T] in
/-- The close callback queues a reconnect if it finds `_connecting` set. -/
theorem reconnects_returnCallback (hexec : s.returnCallback = some s') :
    s'.reconnects = s.reconnects +
      if s.closesConnection (.returnCallback : TcpClientStep A T) ∧
        s.connecting then 1 else 0 := by
  unfold returnCallback at hexec
  split at hexec
  · cases hexec
  · next c rest hframes =>
      obtain rfl := Option.some.inj hexec
      have hcloses := closesConnection_iff hframes
      unfold onClosedInConnection
      dsimp only
      split
      · next hcallback =>
          split
          · next hconnection =>
              split
              · next hdelay =>
                  rw [if_pos ⟨hcloses.mpr ⟨hcallback, hconnection, hdelay.2⟩,
                    hdelay.1⟩]
                  exact reconnects_queueInLoop _
              · next hdelay =>
                  rw [if_neg fun h => hdelay ⟨h.2, (hcloses.mp h.1).2.2⟩]
                  rfl
          · next hconnection =>
              rw [if_neg fun h => hconnection (hcloses.mp h.1).2.1]
              rfl
      · next hcallback =>
          rw [if_neg fun h => hcallback (hcloses.mp h.1).1]
          rfl
  · next rest hframes =>
      obtain rfl := Option.some.inj hexec
      unfold closesConnection
      rw [hframes]
      rfl

/-- The reconnects that are queued change with the close callback and with the
calls of their functors. -/
theorem reconnects_step (h : s.Idle) {step : TcpClientStep A T}
    (henabled : (tcpClientMachine A loop).enabled s step)
    (hexec : (tcpClientMachine A loop).exec s step = some s') :
    s'.reconnects + (if s.callsReconnect step then 1 else 0) =
      s.reconnects +
        if s.closesConnection step ∧ s.connecting then 1 else 0 := by
  cases step with
  | connect thread addr =>
      obtain rfl := Option.some.inj hexec
      exact reconnects_eq_of_functors (load_functors
        (s := { s with connects := s.connects + 1 }) thread addr)
  | store thread =>
      obtain ⟨addr, _, rfl⟩ := store_cases hexec
      rfl
  | runInLoop thread errno =>
      obtain ⟨task, htask, rfl⟩ := runInLoop_cases hexec
      unfold runInLoop
      dsimp only
      split
      · exact reconnects_eq_of_functors (callTask_functors
          (s := { s with calls := Function.update s.calls thread .idle })
          errno task)
      · have hother : task.isReconnect = false := by
          cases hpc : s.calls thread with
          | idle | loaded addr => rw [hpc] at htask; cases htask
          | connecting addr | disconnecting called =>
              rw [hpc] at htask
              cases htask
              rfl
        have hqueued := reconnects_queueInLoop
          (s := { s with calls := Function.update s.calls thread .idle }) task
        rw [List.countP_singleton, hother] at hqueued
        exact hqueued
  | callFunctor errno =>
      obtain ⟨task, functors, hnext, rfl⟩ := callFunctor_cases hexec
      have hsame : ({ s with functors := functors }.callTask loop errno
          task).reconnects = { s with functors := functors }.reconnects :=
        reconnects_eq_of_functors (callTask_functors errno task)
      have hcalls : s.callsReconnect (.callFunctor errno :
          TcpClientStep A T) = task.isReconnect := by
        rw [callsReconnect, FunctorQueue.head?_batch_of_nextFunctor hnext]
        rfl
      rw [hsame, hcalls]
      simp only [reconnects, FunctorQueue.pending_nextFunctor hnext,
        List.countP_cons]
      rfl
  | swapFunctors =>
      obtain rfl := Option.some.inj hexec
      have hbatch := h henabled.2.2
      simp only [reconnects, FunctorQueue.pending_swapFunctors hbatch]
      rfl
  | handleReport =>
      obtain ⟨revents, report, _, _, rfl⟩ := handleReport_cases hexec
      exact (s.handle_counts report).1
  | returnCallback => exact reconnects_returnCallback hexec
  | _ =>
      obtain rfl := Option.some.inj hexec
      rfl

theorem idle_step (h : s.Idle) {step : TcpClientStep A T}
    (henabled : (tcpClientMachine A loop).enabled s step)
    (hexec : (tcpClientMachine A loop).exec s step = some s') : s'.Idle := by
  have hsame : ∀ {t : TcpClient A T}, t.functors.batch = s.functors.batch →
      t.running = s.running → t.Idle := by
    intro t hbatch hrunning hidle
    rw [hbatch]
    exact h (hrunning.symm.trans hidle)
  cases step with
  | connect thread addr =>
      obtain rfl := Option.some.inj hexec
      unfold load
      split
      · exact h
      · exact h
  | store thread =>
      obtain ⟨addr, _, rfl⟩ := store_cases hexec
      exact h
  | runInLoop thread errno =>
      obtain ⟨task, _, rfl⟩ := runInLoop_cases hexec
      unfold runInLoop
      dsimp only
      split
      · exact hsame (congrArg _ (callTask_functors errno task))
          (callTask_running errno task)
      · exact h
  | callFunctor errno =>
      obtain ⟨task, functors, _, rfl⟩ := callFunctor_cases hexec
      intro hrunning
      rw [callTask_running] at hrunning
      exact absurd (henabled.2.2.1.symm.trans hrunning) (by decide)
  | swapFunctors =>
      obtain rfl := Option.some.inj hexec
      intro hrunning
      cases hrunning
  | returnFunctors =>
      obtain rfl := Option.some.inj hexec
      exact fun _ => henabled.2.2.2
  | handleReport =>
      obtain ⟨revents, report, _, _, rfl⟩ := handleReport_cases hexec
      obtain ⟨_, _, hbatch, hrunning⟩ := s.handle_counts report
      exact hsame hbatch hrunning
  | returnCallback =>
      have hspec := returnCallback_spec hexec
      exact hsame hspec.2.2.2.2.2.2.2.1 hspec.2.2.1
  | _ =>
      obtain rfl := Option.some.inj hexec
      exact h

/-- While the thread of the loop is in `connect` it does nothing else. -/
theorem connecting_step (h : s.Handling loop)
    (hconnecting : (s.calls loop).isConnecting = true)
    {step : TcpClientStep A T}
    (henabled : (tcpClientMachine A loop).enabled s step)
    (hexec : (tcpClientMachine A loop).exec s step = some s') :
    (s'.calls loop).isConnecting = true ∨
      ∃ errno, step = .runInLoop loop errno := by
  have hbusy : s.calls loop ≠ .idle := by
    intro hidle
    rw [hidle] at hconnecting
    cases hconnecting
  have hother : ∀ {thread : T} {pc : ClientPc A}, s.calls thread = .idle →
      (Function.update s.calls thread pc loop).isConnecting = true := by
    intro thread pc hthread
    have hne : loop ≠ thread := by
      rintro rfl
      exact hbusy hthread
    rw [Function.update_of_ne hne]
    exact hconnecting
  obtain ⟨_, henabled⟩ := henabled
  cases step with
  | setReconnectDelay delay | socketError error =>
      obtain rfl := Option.some.inj hexec
      exact Or.inl hconnecting
  | connect thread addr =>
      obtain rfl := Option.some.inj hexec
      left
      unfold load
      split
      · exact hconnecting
      · exact hother henabled.1
  | store thread =>
      obtain ⟨addr, _, rfl⟩ := store_cases hexec
      left
      dsimp only
      by_cases hthread : loop = thread
      · rw [hthread, Function.update_self]
        rfl
      · rw [Function.update_of_ne hthread]
        exact hconnecting
  | disconnect thread =>
      obtain rfl := Option.some.inj hexec
      exact Or.inl (hother henabled.1)
  | runInLoop thread errno =>
      by_cases hthread : thread = loop
      · rw [hthread]
        exact Or.inr ⟨errno, rfl⟩
      · obtain ⟨task, _, rfl⟩ := runInLoop_cases hexec
        left
        unfold runInLoop
        dsimp only
        rw [if_neg hthread]
        change (Function.update s.calls thread .idle loop).isConnecting = true
        rw [Function.update_of_ne (Ne.symm hthread)]
        exact hconnecting
  | handleReport => exact absurd (h henabled).2.1 hbusy
  | endCall c =>
      obtain rfl := Option.some.inj hexec
      exact Or.inl hconnecting
  | swapFunctors | callFunctor errno | returnFunctors | fireTimer i errno
  | poll revents | closeInLoop c => exact absurd henabled.1.1.1 hbusy
  | returnCallback => exact absurd henabled.1.1 hbusy

/-- The functor of a close callback only calls `connect`. -/
theorem callsReconnect_cases {step : TcpClientStep A T}
    (hcalls : s.callsReconnect step = true)
    (hexec : (tcpClientMachine A loop).exec s step = some s') :
    ∃ functors, s' = { s with functors := functors }.load loop s.addr := by
  cases step with
  | callFunctor errno =>
      obtain ⟨task, functors, hnext, rfl⟩ := callFunctor_cases hexec
      rw [callsReconnect, FunctorQueue.head?_batch_of_nextFunctor hnext,
        Option.any_some] at hcalls
      cases task with
      | reconnect => exact ⟨functors, rfl⟩
      | connect addr | disconnect called | onRetryInLoop failure => cases hcalls
  | _ => cases hcalls

/-- The end of `connect` on the thread of the loop is an attempt. -/
theorem attempts_runInLoop {errno : Int}
    (hconnecting : (s.calls loop).isConnecting = true)
    (hexec : (tcpClientMachine A loop).exec s (.runInLoop loop errno) =
      some s') : s'.attempts = s.attempts + 1 := by
  obtain ⟨task, htask, rfl⟩ := runInLoop_cases hexec
  cases hpc : s.calls loop with
  | idle | disconnecting called =>
      rw [hpc] at hconnecting
      cases hconnecting
  | loaded addr =>
      rw [hpc] at htask
      cases htask
  | connecting addr =>
      rw [hpc] at htask
      obtain rfl := Option.some.inj htask
      unfold runInLoop
      dsimp only
      rw [if_pos rfl]
      exact attempts_connectFunctor addr errno

end TcpClient

namespace ReconnectTrace

variable {s s' : ReconnectTrace A T}

/-- Each close has an outcome for which an attempt is made or a retry is
scheduled, unless `disconnect` was called since the last `connect`. -/
def Reconnected (s : ReconnectTrace A T) : Prop :=
  ∀ outcome ∈ s.outcomes, outcome.ended = true ∨ outcome.started = true ∨
    outcome.scheduled = true

/-- No close ends because its callback finds `_connecting` unset, or because
its functor returns at the guard of `connect`, unless `disconnect` was called
since the last `connect`. -/
def Unguarded (s : ReconnectTrace A T) (step : TcpClientStep A T) : Prop :=
  s.ignored step ≠ [] → s.ended = true

/-- Nothing else does the work of a functor that returns at the guard: no other
`connect` and no timer is executed while it waits, and no timer is there then. -/
def Unaided [DecidableEq T] (loop : T) (s : ReconnectTrace A T)
    (step : TcpClientStep A T) : Prop :=
  (s.waiting ≠ [] → s.client.starts loop step = false) ∧
    (s.ignored step ≠ [] → s.client.connector.timers = [])

variable [DecidableEq T] {loop : T}

/-- Each functor of a close callback that is queued is known, and that which is
in `connect`. -/
structure Followed (loop : T) (s : ReconnectTrace A T) : Prop where
  handling : s.client.Handling loop
  idle : s.client.Idle
  paired : s.waiting.length = s.client.reconnects
  waiting : ∀ n ∈ s.waiting, n ≤ s.client.attempts
  current : ∀ n, s.current = some n → n ≤ s.client.attempts ∧
    (s.client.calls loop).isConnecting = true

omit [DecidableEq T] in
theorem not_callsReconnect {client : TcpClient A T} {step : TcpClientStep A T}
    (h : client.closesConnection step = true) :
    ¬ client.callsReconnect step = true := by
  cases step with
  | returnCallback => exact fun hcalls => by cases hcalls
  | _ => cases h

omit [DecidableEq T] in
theorem start_followed (addr : A) :
    (start addr : ReconnectTrace A T).Followed loop where
  handling := TcpClient.start_handling addr
  idle _ := rfl
  paired := rfl
  waiting n hn := by cases hn
  current n hn := by cases hn

/-- Step lemma. -/
theorem Followed.step (h : s.Followed loop) {step : TcpClientStep A T}
    (henabled : (reconnectMachine A loop).enabled s step) :
    ∃ s', (reconnectMachine A loop).exec s step = some s' ∧
      (tcpClientMachine A loop).exec s.client step = some s'.client ∧
      s'.Followed loop := by
  obtain ⟨client, hexec, hhandling⟩ :=
    TcpClient.step_handling h.handling step henabled
  have hle : s.client.attempts ≤ client.attempts := by
    rw [TcpClient.attempts_step hexec]
    exact Nat.le_add_right _ _
  refine ⟨_, congrArg (Option.map (s.after loop step)) hexec, hexec,
    hhandling, TcpClient.idle_step h.idle henabled hexec, ?_, fun n hn => ?_,
    fun n hn => ?_⟩
  · have hreconnects := TcpClient.reconnects_step h.idle henabled hexec
    have hpaired := h.paired
    change (s.waitingAfter step).length = client.reconnects
    unfold waitingAfter
    by_cases hqueues : s.client.closesConnection step = true ∧
        s.client.connecting = true
    · rw [if_pos hqueues] at hreconnects ⊢
      rw [List.length_append, hpaired, List.length_singleton]
      rw [if_neg (not_callsReconnect hqueues.1)] at hreconnects
      exact hreconnects.symm
    · rw [if_neg hqueues] at hreconnects ⊢
      split
      · next hcalls =>
          rw [if_pos hcalls] at hreconnects
          rw [List.length_tail, hpaired]
          omega
      · next hcalls =>
          rw [if_neg hcalls] at hreconnects
          rw [hpaired]
          exact hreconnects.symm
  · change n ∈ s.waitingAfter step at hn
    change n ≤ client.attempts
    unfold waitingAfter at hn
    split at hn
    · rcases List.mem_append.mp hn with hold | hnew
      · exact Nat.le_trans (h.waiting n hold) hle
      · rw [List.mem_singleton.mp hnew]
        exact hle
    · split at hn
      · exact Nat.le_trans (h.waiting n (List.mem_of_mem_tail hn)) hle
      · exact Nat.le_trans (h.waiting n hn) hle
  · change s.currentAfter loop step = some n at hn
    change n ≤ client.attempts ∧ (client.calls loop).isConnecting = true
    unfold currentAfter at hn
    split at hn
    · next hcalls =>
        refine ⟨Nat.le_trans (h.waiting n (List.mem_of_mem_head? hn)) hle, ?_⟩
        obtain ⟨functors, rfl⟩ :=
          TcpClient.callsReconnect_cases hcalls.1 hexec
        unfold TcpClient.load
        rw [if_neg (by simp [hcalls.2])]
        change (Function.update s.client.calls loop _ loop).isConnecting = true
        rw [Function.update_self]
        rfl
    · split at hn
      · cases hn
      · next hfinished =>
          obtain ⟨hn', hconnecting⟩ := h.current n hn
          refine ⟨Nat.le_trans hn' hle, ?_⟩
          rcases TcpClient.connecting_step h.handling hconnecting henabled
            hexec with hstill | ⟨errno, rfl⟩
          · exact hstill
          · rw [finished, if_pos rfl, hn] at hfinished
            exact absurd (by simp) hfinished

/-- A close that ends at the guard of `connect` ends without an attempt. -/
theorem ignored_spec {step : TcpClientStep A T} {client : TcpClient A T}
    (hexec : (tcpClientMachine A loop).exec s.client step = some client)
    {n : Nat} (hn : n ∈ s.ignored step) :
    client.attempts = s.client.attempts ∧
      client.connector = s.client.connector := by
  unfold ignored at hn
  split at hn
  · next hcloses =>
      cases step with
      | returnCallback =>
          have hspec := TcpClient.returnCallback_spec hexec
          exact ⟨TcpClient.attempts_eq_of_log hspec.2.1, hspec.1⟩
      | _ => cases hcloses.1
  · split at hn
    · next hcalls =>
        obtain ⟨functors, rfl⟩ :=
          TcpClient.callsReconnect_cases hcalls.1 hexec
        unfold TcpClient.load
        rw [if_pos hcalls.2]
        exact ⟨rfl, rfl⟩
    · cases hn

/-- A close whose functor has passed the guard ends with an attempt. -/
theorem Followed.finished_spec (h : s.Followed loop)
    {step : TcpClientStep A T} {client : TcpClient A T}
    (hexec : (tcpClientMachine A loop).exec s.client step = some client)
    {n : Nat} (hn : n ∈ s.finished loop step) : n < client.attempts := by
  cases step with
  | runInLoop thread errno =>
      change n ∈ if thread = loop then s.current.toList else [] at hn
      split at hn
      · next hthread =>
          subst hthread
          obtain ⟨hle, hconnecting⟩ := h.current n (Option.mem_toList.mp hn)
          rw [TcpClient.attempts_runInLoop hconnecting hexec]
          exact Nat.lt_succ_of_le hle
      · cases hn
  | _ => cases hn

theorem Followed.reconnected_step (h : s.Followed loop)
    (hreconnected : s.Reconnected) {step : TcpClientStep A T}
    (hunguarded : s.Unguarded step) {client : TcpClient A T}
    (hexec : (tcpClientMachine A loop).exec s.client step = some client) :
    (s.after loop step client).Reconnected := by
  intro outcome hmem
  rcases List.mem_append.mp hmem with hold | hnew
  · exact hreconnected outcome hold
  obtain ⟨n, hn, rfl⟩ := List.mem_map.mp hnew
  rcases List.mem_append.mp hn with hignored | hfinished
  · exact Or.inl (hunguarded (List.ne_nil_of_mem hignored))
  · exact Or.inr (Or.inl (decide_eq_true (h.finished_spec hexec hfinished)))

/-- No attempt has been made since the closes whose functors are queued. -/
def Pending (s : ReconnectTrace A T) : Prop :=
  ∀ n ∈ s.waiting, n = s.client.attempts

omit [DecidableEq T] in
theorem Pending.ignored (h : s.Pending) {step : TcpClientStep A T} {n : Nat}
    (hn : n ∈ s.ignored step) : n = s.client.attempts := by
  unfold ReconnectTrace.ignored at hn
  split at hn
  · exact List.mem_singleton.mp hn
  · split at hn
    · exact h n (List.mem_of_mem_head? (Option.mem_toList.mp hn))
    · cases hn

theorem Pending.after (h : s.Pending) {step : TcpClientStep A T}
    (hunaided : s.Unaided loop step) {client : TcpClient A T}
    (hexec : (tcpClientMachine A loop).exec s.client step = some client) :
    (s.after loop step client).Pending := by
  have hsame : s.client.starts loop step = false →
      client.attempts = s.client.attempts := by
    intro hstarts
    rw [TcpClient.attempts_step hexec, hstarts]
    rfl
  have hwaits : ∀ n ∈ s.waiting, n = client.attempts := by
    intro n hn
    rw [hsame (hunaided.1 (List.ne_nil_of_mem hn))]
    exact h n hn
  intro n hn
  change n ∈ s.waitingAfter step at hn
  change n = client.attempts
  unfold waitingAfter at hn
  split at hn
  · next hcloses =>
      have hstarts : s.client.starts loop step = false := by
        cases step with
        | returnCallback => rfl
        | _ => cases hcloses.1
      rcases List.mem_append.mp hn with hold | hnew
      · exact hwaits n hold
      · rw [hsame hstarts]
        exact List.mem_singleton.mp hnew
  · split at hn
    · exact hwaits n (List.mem_of_mem_tail hn)
    · exact hwaits n hn

/-- A functor that returns at the guard, and whose work nobody does, leaves the
close without a reconnect. -/
theorem Pending.unguarded (h : s.Pending) {step : TcpClientStep A T}
    (hunaided : s.Unaided loop step) {client : TcpClient A T}
    (hexec : (tcpClientMachine A loop).exec s.client step = some client)
    (hreconnected : (s.after loop step client).Reconnected) :
    s.Unguarded step := by
  intro hignored
  obtain ⟨n, hn⟩ := List.exists_mem_of_ne_nil _ hignored
  obtain ⟨hattempts, hconnector⟩ := ignored_spec hexec hn
  have hmem : s.outcome client n ∈ (s.after loop step client).outcomes := by
    apply List.mem_append_right
    exact List.mem_map_of_mem (List.mem_append_left _ hn)
  rcases hreconnected _ hmem with hended | hstarted | hscheduled
  · exact hended
  · have hlt : n < client.attempts := of_decide_eq_true hstarted
    rw [hattempts, h.ignored hn] at hlt
    exact absurd hlt (Nat.lt_irrefl _)
  · have htimers : client.connector.timers ≠ [] := of_decide_eq_true hscheduled
    rw [hconnector, hunaided.2 hignored] at htimers
    exact absurd rfl htimers

end ReconnectTrace

open ReconnectTrace

/-- Automatic reconnect.  If no close ends at the guard of `connect` unless
`disconnect` was called since the last `connect`, then when a close callback and
the functor that it queued have run, an attempt was made since the close or a
retry is scheduled, unless `disconnect` was called since the last `connect`; and
a run in which no other `connect` and no timer does the work of such a functor
has this only then. -/
theorem tcpClient_reconnects_iff {A : Type u} {T : Type v} [DecidableEq T]
    (loop : T) (addr : A) (word : List (TcpClientStep A T))
    (hlegal : (reconnectMachine A loop).Legal (.start addr) word) :
    ((reconnectMachine A loop).Meets Unguarded (.start addr) word →
      (reconnectMachine A loop).Holds Reconnected (.start addr) word) ∧
    ((reconnectMachine A loop).Meets (Unaided loop) (.start addr) word →
      ((reconnectMachine A loop).Holds Reconnected (.start addr) word ↔
        (reconnectMachine A loop).Meets Unguarded (.start addr) word)) := by
  have hstep : ∀ (s : ReconnectTrace A T) (step : TcpClientStep A T),
      s.Followed loop ∧ s.Reconnected →
      (reconnectMachine A loop).enabled s step → s.Unguarded step →
      ∃ client, (tcpClientMachine A loop).exec s.client step = some client ∧
        (reconnectMachine A loop).exec s step =
          some (s.after loop step client) ∧
        (s.after loop step client).Followed loop ∧
        (s.after loop step client).Reconnected := by
    intro s step hs henabled hunguarded
    obtain ⟨client, hclient, _⟩ :=
      TcpClient.step_handling hs.1.handling step henabled
    have hafter : (reconnectMachine A loop).exec s step =
        some (s.after loop step client) :=
      congrArg (Option.map (s.after loop step)) hclient
    obtain ⟨s', hexec, _, hs'⟩ := hs.1.step henabled
    obtain rfl := Option.some.inj (hafter.symm.trans hexec)
    exact ⟨client, hclient, hafter, hs',
      hs.1.reconnected_step hs.2 hunguarded hclient⟩
  have hstart : (start addr : ReconnectTrace A T).Followed loop ∧
      (start addr : ReconnectTrace A T).Reconnected :=
    ⟨start_followed addr, fun _ hmem => by cases hmem⟩
  constructor
  · intro hunguarded
    have hrun : (reconnectMachine A loop).Holds
        (fun s => s.Followed loop ∧ s.Reconnected) (.start addr) word := by
      refine Machine.holds_of_step (fun s step hs hG => ?_) hstart
        (hlegal.and hunguarded)
      obtain ⟨client, _, hafter, hs'⟩ := hstep s step hs hG.1 hG.2
      exact ⟨_, hafter, hs'⟩
    exact hrun.mono fun s hs => hs.2
  · intro hunaided
    apply Machine.holds_iff_meets
      (E := fun s step => (reconnectMachine A loop).enabled s step ∧
        s.Unaided loop step)
      (I := fun s => (s.Followed loop ∧ s.Reconnected) ∧ s.Pending)
    · exact fun s hs => hs.1.2
    · intro s step hs hE hunguarded
      obtain ⟨client, hclient, hafter, hs'⟩ :=
        hstep s step hs.1 hE.1 hunguarded
      exact ⟨_, hafter, hs', hs.2.after hE.2 hclient⟩
    · intro s step s' hs hE hexec hreconnected
      obtain ⟨client, hclient, rfl⟩ := Option.map_eq_some_iff.mp hexec
      exact hs.2.unguarded hE.2 hclient hreconnected
    · exact ⟨hstart, fun n hn => by cases hn⟩
    · exact hlegal.and hunaided

instance [DecidableEq A] [DecidableEq T] (loop : T) (s : ReconnectTrace A T)
    (step : TcpClientStep A T) :
    Decidable ((reconnectMachine A loop).enabled s step) :=
  inferInstanceAs (Decidable ((tcpClientMachine A loop).enabled s.client step))

instance (s : ReconnectTrace A T) (step : TcpClientStep A T) :
    Decidable (s.Unguarded step) :=
  inferInstanceAs (Decidable (s.ignored step ≠ [] → s.ended = true))

instance (s : ReconnectTrace A T) : Decidable s.Reconnected :=
  inferInstanceAs (Decidable (∀ outcome ∈ s.outcomes, outcome.ended = true ∨
    outcome.started = true ∨ outcome.scheduled = true))

/-- The peer closes the connection, and another thread disconnects and is on its
way to connect again when the functor of the close callback runs. -/
theorem tcpClient_reconnects_iff_again :
    (reconnectMachine Nat true).Holds Reconnected (.start 5)
      [.setReconnectDelay 1, .connect true 5, .store true,
        .runInLoop true EINPROGRESS, .poll POLLOUT, .handleReport,
        .closeInLoop 0, .returnCallback, .disconnect false,
        .runInLoop false 0, .connect false 5, .swapFunctors, .callFunctor 0,
        .store true, .runInLoop true EINPROGRESS] :=
  (tcpClient_reconnects_iff true 5 _ (by decide +kernel)).1 (by decide +kernel)

/-- The peer closes the connection that the application has made.  The functor
of the close callback calls `connect`, which returns. -/
theorem tcpClient_not_reconnected :
    (reconnectMachine Nat true).Legal (.start 5)
        [.setReconnectDelay 1, .connect true 5, .store true,
          .runInLoop true EINPROGRESS, .poll POLLOUT, .handleReport,
          .closeInLoop 0, .returnCallback, .swapFunctors, .callFunctor 0] ∧
      ¬ (reconnectMachine Nat true).Holds Reconnected (.start 5)
        [.setReconnectDelay 1, .connect true 5, .store true,
          .runInLoop true EINPROGRESS, .poll POLLOUT, .handleReport,
          .closeInLoop 0, .returnCallback, .swapFunctors, .callFunctor 0] :=
  ⟨by decide +kernel, Machine.not_holds_of_run (by decide +kernel)⟩

end Libsaf
