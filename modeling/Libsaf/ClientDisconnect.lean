/-
When a `disconnect` of `saf::TcpClient` is final.  The connector stays stopped
until the functor of `connect` runs, so that timers, retry functors and events
start nothing; but an automatic reconnect that is still queued calls `connect`
itself, and an earlier `connect` may still be queued.
-/
import Libsaf.TcpClient

namespace Libsaf

universe u v

variable {A : Type u} {T : Type v}

def ClientEvent.isFinished : ClientEvent → Bool
  | .attempt _ finished | .newConnection _ finished => finished

/-- A functor that is, or calls, that of `connect`. -/
def ClientTask.mayConnect : ClientTask A → Bool
  | .connect _ | .reconnect => true
  | .disconnect _ | .onRetryInLoop _ => false

def ClientTask.isDisconnect : ClientTask A → Bool
  | .disconnect _ => true
  | .connect _ | .reconnect | .onRetryInLoop _ => false

/-- The thread is in `connect`. -/
def ClientPc.mayConnect : ClientPc A → Bool
  | .loaded _ | .connecting _ => true
  | .idle | .disconnecting _ => false

namespace TcpClient

/-- Nothing was started or established after a `disconnect` and before the next
`connect`. -/
def Final (s : TcpClient A T) : Prop :=
  ∀ event ∈ s.log, event.isFinished = false

/-- The functor of `connect` is not called after that of a `disconnect` unless
`connect` was called since. -/
def Due [DecidableEq T] (loop : T) (s : TcpClient A T)
    (step : TcpClientStep A T) : Prop :=
  s.callsFunctor loop ClientTask.isConnect step = true → s.isFinished = false

/-- When the functor of a `disconnect` is called, no thread is in `connect`, and
nothing that would call it or its functor is queued. -/
def Clear [DecidableEq T] (loop : T) (s : TcpClient A T)
    (step : TcpClientStep A T) : Prop :=
  s.callsFunctor loop ClientTask.isDisconnect step = true →
    (∀ task ∈ s.functors.pending, task.mayConnect = false) ∧
      ∀ thread, (s.calls thread).mayConnect = false

/-- After a `disconnect` the connector is stopped.  What is known of the calls
of `connect` lies in the past. -/
structure Ended (s : TcpClient A T) : Prop where
  stopped : s.isFinished = true →
    s.connector.stopping = true ∧ s.connector.socket = none
  disconnects : ∀ n ∈ s.disconnects, n ≤ s.connects
  functors : ∀ n, .disconnect n ∈ s.functors.pending → n ≤ s.connects
  calls : ∀ thread n, s.calls thread = .disconnecting n → n ≤ s.connects
  idle : s.running = false → s.functors.batch = []

variable {s : TcpClient A T}

/-- A step that neither starts nor calls anything new. -/
theorem Ended.frame {t : TcpClient A T} (h : s.Ended)
    (hstopped : s.connector.stopping = true → s.connector.socket = none →
      t.connector.stopping = true ∧ t.connector.socket = none)
    (hconnects : t.connects = s.connects)
    (hdisconnects : t.disconnects = s.disconnects)
    (hpending : ∀ n, .disconnect n ∈ t.functors.pending →
      .disconnect n ∈ s.functors.pending)
    (hcalls : ∀ thread n, t.calls thread = .disconnecting n →
      s.calls thread = .disconnecting n)
    (hidle : t.running = false → t.functors.batch = []) : t.Ended := by
  refine ⟨fun hfinished => ?_, fun n hn => ?_, fun n hn => ?_,
    fun thread n hn => ?_, hidle⟩
  · rw [isFinished, hconnects, hdisconnects] at hfinished
    obtain ⟨hstopping, hsocket⟩ := h.stopped hfinished
    exact hstopped hstopping hsocket
  · rw [hdisconnects] at hn
    exact hconnects ▸ h.disconnects n hn
  · exact hconnects ▸ h.functors n (hpending n hn)
  · exact hconnects ▸ h.calls thread n (hcalls thread n hn)

/-- A stopped connector makes no attempt. -/
theorem Ended.connectInLoop (h : s.Ended) (errno : Int) :
    (s.connectInLoop errno).Ended := by
  have hconnector : s.connector.stopping = true →
      (s.connectInLoop errno).connector = s.connector := fun h => if_pos h
  refine h.frame (fun hstopping hsocket => ?_) rfl rfl (fun n hn => hn)
    (fun thread n hn => hn) h.idle
  rw [hconnector hstopping]
  exact ⟨hstopping, hsocket⟩

theorem Ended.connectFunctor (h : s.Ended) (hdue : s.isFinished = false)
    (addr : A) (errno : Int) : (s.connectFunctor addr errno).Ended := by
  have ht : (s.restarted addr).Ended := by
    refine ⟨fun hfinished => ?_, h.disconnects, h.functors, h.calls, h.idle⟩
    exact absurd (hfinished.symm.trans hdue) (by decide)
  rw [connectFunctor_eq]
  exact ht.connectInLoop errno

theorem Ended.disconnectFunctor (h : s.Ended) {called : Nat}
    (hcalled : called ≤ s.connects) : (s.disconnectFunctor called).Ended := by
  obtain ⟨hconnector, hfunctors, hrunning, hcalls, hconnects, hdisconnects⟩ :=
    s.disconnectFunctor_spec called
  refine ⟨fun _ => ?_, fun n hn => ?_, ?_, ?_, ?_⟩
  · rw [hconnector]
    exact ⟨rfl, rfl⟩
  · rw [hdisconnects] at hn
    rw [hconnects]
    rcases List.mem_append.mp hn with hold | hnew
    · exact h.disconnects n hold
    · exact List.mem_singleton.mp hnew ▸ hcalled
  · rw [hfunctors, hconnects]
    exact h.functors
  · rw [hcalls, hconnects]
    exact h.calls
  · rw [hrunning, hfunctors]
    exact h.idle

theorem Ended.queueInLoop (h : s.Ended) {task : ClientTask A}
    (htask : ∀ n, task = .disconnect n → n ≤ s.connects) :
    (s.queueInLoop task).Ended := by
  refine ⟨h.stopped, h.disconnects, fun n hn => ?_, h.calls, h.idle⟩
  rcases FunctorQueue.mem_pending_queueInLoop.mp hn with hold | hnew
  · exact h.functors n hold
  · exact htask n hnew.symm

/-- There are handlers only where there is a socket. -/
theorem Ended.not_finished_of_socket (h : s.Ended)
    (hsocket : s.connector.socket.isSome = true) : s.isFinished = false := by
  refine Bool.eq_false_iff.mpr fun hfinished => ?_
  rw [(h.stopped hfinished).2] at hsocket
  cases hsocket

theorem Ended.handle (h : s.Ended)
    (hsocket : s.connector.socket.isSome = true) (report : IOReport) :
    (s.handle report).Ended := by
  have hgoes := h.not_finished_of_socket hsocket
  have hconnector : ∀ connector : TcpConnector A,
      Ended { s with connector := connector } := fun connector =>
    ⟨fun hfinished => absurd (hfinished.symm.trans hgoes) (by decide),
      h.disconnects, h.functors, h.calls, h.idle⟩
  cases report with
  | close =>
      simp only [TcpClient.handle]
      split
      · exact h.queueInLoop fun n hn => by cases hn
      · exact h
  | error =>
      simp only [TcpClient.handle]
      split
      · exact (hconnector _).queueInLoop fun n hn => by cases hn
      · exact hconnector _
  | read => exact h
  | write =>
      simp only [TcpClient.handle]
      split
      · exact ⟨h.stopped, h.disconnects, h.functors, h.calls, h.idle⟩
      · split
        · refine ⟨fun hfinished => ?_, h.disconnects, h.functors, h.calls,
            h.idle⟩
          exact absurd (hfinished.symm.trans hgoes) (by decide)
        · exact hconnector _

theorem Ended.returnCallback (h : s.Ended) {s' : TcpClient A T}
    (hexec : s.returnCallback = some s') : s'.Ended := by
  obtain ⟨hconnector, _, hrunning, hcalls, hconnects, hdisconnects, hpending,
    hbatch, _⟩ := returnCallback_spec hexec
  refine h.frame (fun hstopping hsocket => ?_) hconnects hdisconnects
    (fun n hn => ?_) (fun thread n hn => hcalls ▸ hn) fun hidle => ?_
  · rw [hconnector]
    exact ⟨hstopping, hsocket⟩
  · exact (hpending _ hn).resolve_right fun heq => by cases heq
  · exact hbatch.trans (h.idle (hrunning ▸ hidle))

variable [DecidableEq T] {loop : T}

/-- A thread goes on to another place, other than that of `disconnect`. -/
theorem Ended.setCall (h : s.Ended) (thread : T) (pc : ClientPc A)
    (hpc : ∀ n, pc = .disconnecting n → n ≤ s.connects) :
    Ended { s with calls := Function.update s.calls thread pc } := by
  refine ⟨h.stopped, h.disconnects, h.functors, fun other n hn => ?_, h.idle⟩
  change Function.update s.calls thread pc other = .disconnecting n at hn
  rcases eq_or_ne other thread with rfl | hne
  · rw [Function.update_self] at hn
    exact hpc n hn
  · rw [Function.update_of_ne hne] at hn
    exact h.calls other n hn

theorem Ended.load (h : s.Ended) (thread : T) (addr : A) :
    (s.load thread addr).Ended := by
  unfold TcpClient.load
  split
  · exact h
  · exact h.setCall thread (.loaded addr) fun n hn => by cases hn

theorem Ended.callTask (h : s.Ended) {task : ClientTask A}
    (hdue : task.isConnect = true → s.isFinished = false)
    (hcalled : ∀ n, task = .disconnect n → n ≤ s.connects) (errno : Int) :
    (s.callTask loop errno task).Ended := by
  cases task with
  | connect addr => exact h.connectFunctor (hdue rfl) addr errno
  | disconnect called => exact h.disconnectFunctor (hcalled called rfl)
  | reconnect => exact h.load loop s.addr
  | onRetryInLoop failure =>
      refine h.frame (fun hstopping _ => ?_) rfl rfl (fun n hn => hn)
        (fun thread n hn => hn) h.idle
      exact ⟨(s.connector.onRetryInLoop_stopping ..).trans hstopping,
        s.connector.onRetryInLoop_socket ..⟩

omit [DecidableEq T] in
/-- A call of `connect` ends what a `disconnect` has begun. -/
theorem Ended.not_finished (h : s.Ended) :
    isFinished { s with connects := s.connects + 1 } = false := by
  refine decide_eq_false fun hmem => ?_
  exact absurd (h.disconnects _ hmem) (Nat.not_succ_le_self _)

omit [DecidableEq T] in
theorem Ended.connect (h : s.Ended) :
    Ended { s with connects := s.connects + 1 } := by
  refine ⟨fun hfinished => ?_, fun n hn => ?_, fun n hn => ?_,
    fun thread n hn => ?_, h.idle⟩
  · exact absurd (hfinished.symm.trans h.not_finished) (by decide)
  · exact Nat.le_succ_of_le (h.disconnects n hn)
  · exact Nat.le_succ_of_le (h.functors n hn)
  · exact Nat.le_succ_of_le (h.calls thread n hn)

theorem step_ended (h : s.Ended) (step : TcpClientStep A T)
    (hstep : (tcpClientMachine A loop).enabled s step)
    (hdue : s.Due loop step) {s' : TcpClient A T}
    (hexec : (tcpClientMachine A loop).exec s step = some s') : s'.Ended := by
  obtain ⟨_, hstep⟩ := hstep
  cases step with
  | setReconnectDelay delay =>
      obtain rfl := Option.some.inj hexec
      exact ⟨h.stopped, h.disconnects, h.functors, h.calls, h.idle⟩
  | connect thread addr =>
      obtain rfl := Option.some.inj hexec
      exact h.connect.load thread addr
  | store thread =>
      obtain ⟨addr, _, rfl⟩ := store_cases hexec
      have ht := h.setCall thread (.connecting addr) fun n hn => by cases hn
      exact ⟨ht.stopped, ht.disconnects, ht.functors, ht.calls, ht.idle⟩
  | disconnect thread =>
      obtain rfl := Option.some.inj hexec
      have ht := h.setCall thread (.disconnecting s.connects)
        fun n hn => by cases hn; exact Nat.le_refl _
      exact ⟨ht.stopped, ht.disconnects, ht.functors, ht.calls, ht.idle⟩
  | runInLoop thread errno =>
      obtain ⟨task, htask, rfl⟩ := runInLoop_cases hexec
      have hcalled : ∀ n, task = .disconnect n → n ≤ s.connects := by
        rintro n rfl
        refine h.calls thread n ?_
        cases hcall : s.calls thread <;> rw [hcall] at htask <;> cases htask
        rfl
      have hreturned := h.setCall thread .idle fun n hn => by cases hn
      unfold runInLoop
      split
      · next heq =>
          refine hreturned.callTask (fun hconnect => ?_) hcalled errno
          exact hdue (callsFunctor_runInLoop heq htask hconnect)
      · exact hreturned.queueInLoop hcalled
  | swapFunctors =>
      obtain rfl := Option.some.inj hexec
      refine ⟨h.stopped, h.disconnects, fun n hn => ?_, h.calls,
        fun hrunning => by cases hrunning⟩
      change _ ∈ s.functors.swapFunctors.pending at hn
      rw [FunctorQueue.pending_swapFunctors (h.idle hstep.2)] at hn
      exact h.functors n hn
  | callFunctor errno =>
      obtain ⟨task, functors, hnext, rfl⟩ := callFunctor_cases hexec
      have hcalled : Ended { s with functors := functors } := by
        refine ⟨h.stopped, h.disconnects, fun n hn => h.functors n ?_, h.calls,
          fun hidle => absurd (hstep.2.1.symm.trans hidle) (by decide)⟩
        exact (FunctorQueue.mem_pending_nextFunctor hnext).mpr (Or.inr hn)
      refine hcalled.callTask (fun hconnect =>
        hdue (callsFunctor_callFunctor hnext hconnect))
        (fun n hn => h.functors n ?_) errno
      exact (FunctorQueue.mem_pending_nextFunctor hnext).mpr (Or.inl hn.symm)
  | returnFunctors =>
      obtain rfl := Option.some.inj hexec
      exact ⟨h.stopped, h.disconnects, h.functors, h.calls, fun _ => hstep.2.2⟩
  | fireTimer i errno =>
      obtain rfl := Option.some.inj hexec
      have ht : Ended { s with
          connector := { s.connector with
            timers := s.connector.timers.eraseIdx i } } :=
        ⟨h.stopped, h.disconnects, h.functors, h.calls, h.idle⟩
      exact ht.connectInLoop errno
  | socketError error =>
      obtain rfl := Option.some.inj hexec
      refine h.frame (fun hstopping hsocket => ⟨hstopping, ?_⟩) rfl rfl
        (fun n hn => hn) (fun thread n hn => hn) h.idle
      change Option.map _ s.connector.socket = none
      rw [hsocket]
      rfl
  | poll revents =>
      obtain rfl := Option.some.inj hexec
      exact ⟨h.stopped, h.disconnects, h.functors, h.calls, h.idle⟩
  | handleReport =>
      obtain ⟨revents, report, _, hsocket, rfl⟩ := handleReport_cases hexec
      have ht := h.handle hsocket report
      exact ⟨ht.stopped, ht.disconnects, ht.functors, ht.calls, ht.idle⟩
  | endCall c =>
      obtain rfl := Option.some.inj hexec
      exact ⟨h.stopped, h.disconnects, h.functors, h.calls, h.idle⟩
  | closeInLoop c =>
      obtain rfl := Option.some.inj hexec
      exact ⟨h.stopped, h.disconnects, h.functors, h.calls, h.idle⟩
  | returnCallback => exact h.returnCallback hexec

/-- What a step adds to the log was done by a client that is not finished. -/
theorem step_final (h : s.Ended) (hfinal : s.Final) {step : TcpClientStep A T}
    (hdue : s.Due loop step) {s' : TcpClient A T}
    (hexec : (tcpClientMachine A loop).exec s step = some s') : s'.Final := by
  intro event hmem
  rcases mem_log_step hexec hmem with hold | ⟨rfl, hconnect⟩ |
    ⟨rfl, _, hsocket⟩
  · exact hfinal event hold
  · rcases hconnect with hconnect | ⟨hgoes, _⟩
    · exact hdue hconnect
    · refine Bool.eq_false_iff.mpr fun hfinished => ?_
      exact absurd ((h.stopped hfinished).1.symm.trans hgoes) (by decide)
  · exact h.not_finished_of_socket hsocket

/-- A step after which nothing was started has met its condition. -/
theorem due_of_final {step : TcpClientStep A T} {s' : TcpClient A T}
    (hexec : (tcpClientMachine A loop).exec s step = some s')
    (hfinal : s'.Final) : s.Due loop step :=
  fun hconnect => hfinal _ (attempt_mem_log hexec hconnect)

/-- Nothing is left that would connect a client that is finished. -/
structure Settled (s : TcpClient A T) : Prop where
  tasks : ∀ task ∈ s.functors.pending, task.mayConnect = false
  calls : ∀ thread, (s.calls thread).mayConnect = false
  unbound : ∀ c, s.connection = some c → s.closeCallback c = false

omit [DecidableEq T] in
theorem mayConnect_of_isConnect {task : ClientTask A}
    (h : task.isConnect = true) : task.mayConnect = true := by
  cases task with
  | connect addr => rfl
  | _ => cases h

/-- Nothing that is left calls the functor of `connect`. -/
theorem Settled.due (h : s.Settled) (step : TcpClientStep A T) :
    s.callsFunctor loop ClientTask.isConnect step = false := by
  refine Bool.eq_false_iff.mpr fun hcalls => ?_
  cases step with
  | callFunctor errno =>
      obtain ⟨task, hhead, hconnect⟩ := (Option.any_eq_true _ _).mp hcalls
      have hpending : task ∈ s.functors.pending :=
        List.mem_append_left _ (List.mem_of_head? hhead)
      exact absurd ((mayConnect_of_isConnect hconnect).symm.trans
        (h.tasks task hpending)) (by decide)
  | runInLoop thread errno =>
      obtain ⟨task, htask, hconnect⟩ :=
        (Option.any_eq_true _ _).mp (of_decide_eq_true hcalls).2
      have hnot := h.calls thread
      cases hcall : s.calls thread with
      | connecting addr => rw [hcall] at hnot; cases hnot
      | disconnecting called =>
          rw [hcall] at htask
          cases htask
          cases hconnect
      | idle => rw [hcall] at htask; cases htask
      | loaded addr => rw [hcall] at htask; cases htask
  | _ => cases hcalls

omit [DecidableEq T] in
/-- A step that makes nothing ready to connect. -/
theorem Settled.frame {t : TcpClient A T}
    (h : s.isFinished = true → s.Settled) (hconnects : t.connects = s.connects)
    (hdisconnects : t.disconnects = s.disconnects)
    (htasks : ∀ task ∈ t.functors.pending,
      task ∈ s.functors.pending ∨ task.mayConnect = false)
    (hcalls : ∀ thread, (s.calls thread).mayConnect = false →
      (t.calls thread).mayConnect = false)
    (hunbound : ∀ c, t.connection = some c →
      s.connection = some c ∧ t.closeCallback c = s.closeCallback c)
    (hfinished : t.isFinished = true) : t.Settled := by
  rw [isFinished, hconnects, hdisconnects] at hfinished
  have hsettled := h hfinished
  refine ⟨fun task htask => ?_, fun thread => hcalls thread
    (hsettled.calls thread), fun c hc => ?_⟩
  · exact (htasks task htask).elim (hsettled.tasks task) id
  · obtain ⟨hconnection, hsame⟩ := hunbound c hc
    exact hsame.trans (hsettled.unbound c hconnection)

omit [DecidableEq T] in
theorem disconnectFunctor_settled (called : Nat)
    (htasks : ∀ task ∈ s.functors.pending, task.mayConnect = false)
    (hcalls : ∀ thread, (s.calls thread).mayConnect = false) :
    (s.disconnectFunctor called).Settled := by
  obtain ⟨_, hfunctors, _, hsame, _, _⟩ := s.disconnectFunctor_spec called
  refine ⟨hfunctors ▸ htasks, fun thread => hsame ▸ hcalls thread, ?_⟩
  unfold disconnectFunctor
  dsimp only
  split
  · next hconnection =>
      intro c hc
      cases hconnection.symm.trans hc
  · next c hconnection =>
      split
      · intro d hd
        obtain rfl : c = d := Option.some.inj (hconnection.symm.trans hd)
        exact Function.update_self ..
      · intro d hd
        cases hd

omit [DecidableEq T] in
theorem handle_isFinished (report : IOReport) :
    (s.handle report).isFinished = s.isFinished := by
  cases report with
  | read => rfl
  | close | error =>
      simp only [handle]
      split <;> rfl
  | write =>
      simp only [handle]
      split
      · rfl
      · split <;> rfl

omit [DecidableEq T] in
/-- Most steps leave alone what is queued, the calls and the connection. -/
theorem Settled.same {t : TcpClient A T}
    (h : s.isFinished = true → s.Settled) (hconnects : t.connects = s.connects)
    (hdisconnects : t.disconnects = s.disconnects)
    (hfunctors : t.functors = s.functors) (hcalls : t.calls = s.calls)
    (hconnection : t.connection = s.connection)
    (hcallback : t.closeCallback = s.closeCallback)
    (hfinished : t.isFinished = true) : t.Settled :=
  Settled.frame h hconnects hdisconnects
    (fun task htask => Or.inl (hfunctors ▸ htask))
    (fun thread hthread => hcalls ▸ hthread)
    (fun c hc => ⟨hconnection ▸ hc, by rw [hcallback]⟩) hfinished

theorem mayConnect_update {calls : T → ClientPc A} (thread : T)
    {pc : ClientPc A} (hpc : pc.mayConnect = false) (other : T)
    (hother : (calls other).mayConnect = false) :
    (Function.update calls thread pc other).mayConnect = false := by
  rcases eq_or_ne other thread with rfl | hne
  · rwa [Function.update_self]
  · rwa [Function.update_of_ne hne]

theorem settled_runInLoop {thread : T} {errno : Int} {task : ClientTask A}
    (hsettled : s.isFinished = true → s.Settled)
    (hclear : s.Clear loop (.runInLoop thread errno))
    (htask : (s.calls thread).task = some task) :
    (s.runInLoop loop thread errno task).isFinished = true →
      (s.runInLoop loop thread errno task).Settled := by
  cases hcall : s.calls thread with
  | idle => rw [hcall] at htask; cases htask
  | loaded addr => rw [hcall] at htask; cases htask
  | connecting addr =>
      rw [hcall] at htask
      cases htask
      intro hfinished
      have hbefore : s.isFinished = true := by
        unfold runInLoop at hfinished
        split at hfinished <;> exact hfinished
      have hnot := (hsettled hbefore).calls thread
      rw [hcall] at hnot
      cases hnot
  | disconnecting called =>
      have hcalls := htask
      rw [hcall] at htask
      cases htask
      unfold runInLoop
      split
      · next heq =>
          obtain ⟨htasks, hnone⟩ :=
            hclear (callsFunctor_runInLoop heq hcalls rfl)
          exact fun _ => disconnectFunctor_settled called htasks
            fun other => mayConnect_update thread rfl other (hnone other)
      · refine Settled.frame hsettled rfl rfl (fun task hmem => ?_)
          (mayConnect_update thread rfl) fun c hc => ⟨hc, rfl⟩
        refine (FunctorQueue.mem_pending_queueInLoop.mp hmem).imp_right ?_
        rintro rfl
        rfl

theorem settled_callFunctor {errno : Int} {task : ClientTask A}
    {functors : FunctorQueue (ClientTask A)}
    (hsettled : s.isFinished = true → s.Settled)
    (hclear : s.Clear loop (.callFunctor errno))
    (hnext : s.functors.nextFunctor = some (task, functors)) :
    (({ s with functors := functors } : TcpClient A T).callTask loop errno
        task).isFinished = true →
      (({ s with functors := functors } : TcpClient A T).callTask loop errno
        task).Settled := by
  have hmem : task ∈ s.functors.pending :=
    (FunctorQueue.mem_pending_nextFunctor hnext).mpr (Or.inl rfl)
  have hcalled : ∀ other ∈ functors.pending,
      other ∈ s.functors.pending := fun other hother =>
    (FunctorQueue.mem_pending_nextFunctor hnext).mpr (Or.inr hother)
  cases task with
  | connect addr =>
      intro hfinished
      cases (hsettled hfinished).tasks _ hmem
  | disconnect called =>
      obtain ⟨htasks, hnone⟩ :=
        hclear (callsFunctor_callFunctor hnext rfl)
      exact fun _ => disconnectFunctor_settled called
        (s := { s with functors := functors })
        (fun other hother => htasks other (hcalled other hother)) hnone
  | reconnect =>
      intro hfinished
      have hbefore : s.isFinished = true := by
        simp only [callTask] at hfinished
        unfold load at hfinished
        split at hfinished <;> exact hfinished
      cases (hsettled hbefore).tasks _ hmem
  | onRetryInLoop failure =>
      exact Settled.frame hsettled rfl rfl
        (fun other hother => Or.inl (hcalled other hother))
        (fun thread hthread => hthread) fun c hc => ⟨hc, rfl⟩

omit [DecidableEq T] in
theorem settled_returnCallback {s' : TcpClient A T}
    (hsettled : s.isFinished = true → s.Settled)
    (hreturn : s.returnCallback = some s') :
    s'.isFinished = true → s'.Settled := by
  unfold returnCallback at hreturn
  split at hreturn
  · cases hreturn
  · next c rest hframes =>
      obtain rfl := Option.some.inj hreturn
      split
      · next hbound =>
          unfold onClosedInConnection
          split
          · -- the connection of a finished client has no close callback
            next hconnection =>
              intro hfinished
              have hbefore : s.isFinished = true := by
                dsimp only at hfinished
                split at hfinished <;> exact hfinished
              have hnot := (hsettled hbefore).unbound c hconnection
              exact absurd (hbound.symm.trans hnot) (by decide)
          · exact Settled.same hsettled rfl rfl rfl rfl rfl rfl
      · exact Settled.same hsettled rfl rfl rfl rfl rfl rfl
  · obtain rfl := Option.some.inj hreturn
    exact Settled.frame hsettled rfl rfl (fun task htask => Or.inl htask)
      (fun thread hthread => hthread) fun c hc => by cases hc

/-- The functor of a `disconnect` that is called in the clear settles the
client. -/
theorem step_settled (h : s.Ended) (hsettled : s.isFinished = true → s.Settled)
    (step : TcpClientStep A T)
    (hstep : (tcpClientMachine A loop).enabled s step)
    (hclear : s.Clear loop step) {s' : TcpClient A T}
    (hexec : (tcpClientMachine A loop).exec s step = some s') :
    s'.isFinished = true → s'.Settled := by
  cases step with
  | connect thread addr =>
      obtain rfl := Option.some.inj hexec
      intro hfinished
      have hnot := h.not_finished
      unfold load at hfinished
      split at hfinished <;>
        exact absurd (hfinished.symm.trans hnot) (by decide)
  | store thread =>
      obtain ⟨addr, hcall, rfl⟩ := store_cases hexec
      intro hfinished
      have hnot := (hsettled hfinished).calls thread
      rw [hcall] at hnot
      cases hnot
  | disconnect thread =>
      obtain rfl := Option.some.inj hexec
      exact Settled.frame hsettled rfl rfl (fun task htask => Or.inl htask)
        (mayConnect_update thread rfl) fun c hc => ⟨hc, rfl⟩
  | runInLoop thread errno =>
      obtain ⟨task, htask, rfl⟩ := runInLoop_cases hexec
      exact settled_runInLoop hsettled hclear htask
  | swapFunctors =>
      obtain rfl := Option.some.inj hexec
      refine Settled.frame hsettled rfl rfl (fun task hmem => Or.inl ?_)
        (fun thread hthread => hthread) fun c hc => ⟨hc, rfl⟩
      change task ∈ s.functors.swapFunctors.pending at hmem
      rwa [FunctorQueue.pending_swapFunctors (h.idle hstep.2.2)] at hmem
  | callFunctor errno =>
      obtain ⟨task, functors, hnext, rfl⟩ := callFunctor_cases hexec
      exact settled_callFunctor hsettled hclear hnext
  | handleReport =>
      obtain ⟨revents, report, _, hsocket, rfl⟩ := handleReport_cases hexec
      intro hfinished
      have hgoes := h.not_finished_of_socket hsocket
      have hbefore := (handle_isFinished (s := s) report).symm.trans hfinished
      exact absurd (hbefore.symm.trans hgoes) (by decide)
  | returnCallback => exact settled_returnCallback hsettled hexec
  | _ =>
      obtain rfl := Option.some.inj hexec
      exact Settled.same hsettled rfl rfl rfl rfl rfl rfl

omit [DecidableEq T] in
theorem start_ended (addr : A) : (start addr : TcpClient A T).Ended := by
  refine ⟨fun hfinished => (by cases hfinished), fun n hn => (by cases hn),
    fun n hn => (by cases hn), fun thread n hn => (by cases hn), fun _ => rfl⟩

end TcpClient

/-- `disconnect` is final.  In every run nothing is started or established
between the functor of a `disconnect` and the next call of `connect`, exactly
as long as the functor of `connect` is not called there.  It is not if each
functor of `disconnect` is called in the clear. -/
theorem tcpClient_final_iff {A : Type u} {T : Type v} [DecidableEq T]
    (loop : T) (addr : A) (word : List (TcpClientStep A T))
    (hlegal : (tcpClientMachine A loop).Legal (.start addr) word) :
    ((tcpClientMachine A loop).Holds TcpClient.Final (.start addr) word ↔
      (tcpClientMachine A loop).Meets (TcpClient.Due loop) (.start addr)
        word) ∧
    ((tcpClientMachine A loop).Meets (TcpClient.Clear loop) (.start addr)
        word →
      (tcpClientMachine A loop).Holds TcpClient.Final (.start addr) word) := by
  have hfinal : (TcpClient.start addr : TcpClient A T).Final :=
    fun event hmem => by cases hmem
  constructor
  · apply Machine.holds_iff_meets (E := (tcpClientMachine A loop).enabled)
      (I := fun s => s.Handling loop ∧ s.Ended ∧ s.Final)
    · exact fun s hs => hs.2.2
    · intro s step hs hstep hdue
      obtain ⟨s', hexec, hhandling⟩ := TcpClient.step_handling hs.1 step hstep
      exact ⟨s', hexec, hhandling,
        TcpClient.step_ended hs.2.1 step hstep hdue hexec,
        TcpClient.step_final hs.2.1 hs.2.2 hdue hexec⟩
    · exact fun s step s' hs _ hexec hs' => TcpClient.due_of_final hexec hs'
    · exact ⟨TcpClient.start_handling addr, TcpClient.start_ended addr, hfinal⟩
    · exact hlegal
  · intro hclear
    have hrun : (tcpClientMachine A loop).Holds (fun s => (s.Handling loop ∧
        s.Ended ∧ s.Final) ∧ (s.isFinished = true → s.Settled)) (.start addr)
        word := by
      refine Machine.holds_of_step (fun s step hs hstep => ?_)
        ⟨⟨TcpClient.start_handling addr, TcpClient.start_ended addr, hfinal⟩,
          fun hfinished => by cases hfinished⟩ (hlegal.and hclear)
      obtain ⟨⟨hhandling, hended, hlog⟩, hsettled⟩ := hs
      have hdue : s.Due loop step := fun hcalls =>
        Bool.eq_false_iff.mpr fun hfinished => absurd
          (hcalls.symm.trans ((hsettled hfinished).due step)) (by decide)
      obtain ⟨s', hexec, hhandling'⟩ :=
        TcpClient.step_handling hhandling step hstep.1
      exact ⟨s', hexec, ⟨hhandling',
        TcpClient.step_ended hended step hstep.1 hdue hexec,
        TcpClient.step_final hended hlog hdue hexec⟩,
        TcpClient.step_settled hended hsettled step hstep.1 hstep.2 hexec⟩
    exact hrun.mono fun s hs => hs.1.2.2

namespace TcpClient

instance [DecidableEq T] (loop : T) (s : TcpClient A T)
    (step : TcpClientStep A T) : Decidable (s.Due loop step) :=
  inferInstanceAs (Decidable
    (s.callsFunctor loop ClientTask.isConnect step = true →
      s.isFinished = false))

instance [DecidableEq T] [Fintype T] (loop : T) (s : TcpClient A T)
    (step : TcpClientStep A T) : Decidable (s.Clear loop step) :=
  inferInstanceAs (Decidable
    (s.callsFunctor loop ClientTask.isDisconnect step = true →
      (∀ task ∈ s.functors.pending, task.mayConnect = false) ∧
        ∀ thread, (s.calls thread).mayConnect = false))

end TcpClient

/-- An established connection is closed by its peer.  The thread of the loop,
`true`, disconnects and connects again before the automatic reconnect runs. -/
def reconnectedRun : List (TcpClientStep Nat Bool) :=
  [.setReconnectDelay 1, .connect true 5, .store true,
    .runInLoop true EINPROGRESS, .poll POLLOUT, .handleReport, .closeInLoop 0,
    .returnCallback, .disconnect true, .runInLoop true 0, .connect true 5,
    .store true, .runInLoop true EINPROGRESS, .swapFunctors, .callFunctor 0,
    .returnFunctors]

/-- A thread disconnects while the timer of a refused attempt is pending. -/
def refusedRun : List (TcpClientStep Nat Bool) :=
  [.setReconnectDelay 1, .connect true 5, .store true,
    .runInLoop true ECONNREFUSED, .disconnect false, .runInLoop false 0,
    .swapFunctors, .callFunctor 0, .returnFunctors, .fireTimer 0 EINPROGRESS]

theorem tcpClient_final_iff_runs :
    (tcpClientMachine Nat true).Holds TcpClient.Final (.start 5)
        reconnectedRun ∧
      (tcpClientMachine Nat true).Holds TcpClient.Final (.start 5)
        refusedRun :=
  ⟨(tcpClient_final_iff true 5 reconnectedRun (by decide +kernel)).1.mpr
      (by decide +kernel),
    (tcpClient_final_iff true 5 refusedRun (by decide +kernel)).2
      (by decide +kernel)⟩

/-- An established connection is closed by its peer, and the application
disconnects before the automatic reconnect runs. -/
def lostRun : List (TcpClientStep Nat Bool) :=
  [.setReconnectDelay 1, .connect true 5, .store true,
    .runInLoop true EINPROGRESS, .poll POLLOUT, .handleReport, .closeInLoop 0,
    .returnCallback, .disconnect true, .runInLoop true 0, .swapFunctors,
    .callFunctor 0, .store true, .runInLoop true EINPROGRESS]

/-- Another thread connects, and the thread of the loop disconnects before the
functor runs. -/
def overtakenRun : List (TcpClientStep Nat Bool) :=
  [.connect false 5, .store false, .runInLoop false 0, .disconnect true,
    .runInLoop true 0, .swapFunctors, .callFunctor EINPROGRESS]

theorem tcpClient_not_final :
    ((tcpClientMachine Nat true).Legal (.start 5) lostRun ∧
      ¬(tcpClientMachine Nat true).Holds TcpClient.Final (.start 5)
        lostRun) ∧
    ((tcpClientMachine Nat true).Legal (.start 5) overtakenRun ∧
      ¬(tcpClientMachine Nat true).Holds TcpClient.Final (.start 5)
        overtakenRun) := by
  have hstarted : ∀ {word : List (TcpClientStep Nat Bool)},
      (((tcpClientMachine Nat true).run (.start 5) word).map fun s =>
        decide (.attempt false true ∈ s.log)) = some true →
      ¬(tcpClientMachine Nat true).Holds TcpClient.Final (.start 5)
        word := by
    intro word hrun
    refine Machine.not_holds_of_view hrun fun t hstarted hfinal => ?_
    cases hfinal _ (of_decide_eq_true hstarted)
  exact ⟨⟨by decide +kernel, hstarted (by decide +kernel)⟩, by decide +kernel,
    hstarted (by decide +kernel)⟩

end Libsaf
