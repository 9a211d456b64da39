/-
`TcpServer::stop`.  Its functor calls `close` for every connection of the table,
and `close` acts only on a connection that is `kConnected`.  What is connecting
or half closed then stays open, unless somebody else is closing it.
-/
import Libsaf.TcpServer

namespace Libsaf

universe u v

variable {K : Type u} {T : Type v}

namespace ServerPc

/-- The connection that a call of `close` is about to close. -/
def closes : ServerPc → Option Nat
  | .loaded .close c | .stored .close c => some c
  | .loaded .shutdown _ | .stored .shutdown _ | .idle => none

theorem on_of_closes {pc : ServerPc} {c : Nat} (h : pc.closes = some c) :
    pc.On c := by
  unfold closes at h
  split at h
  · exact Option.some.inj h
  · exact Option.some.inj h
  all_goals cases h

end ServerPc

namespace TcpServer

/-- The functor that closes a connection is queued on its loop. -/
def CloseQueued (loopOf : Nat → T) (s : TcpServer K T) (c : Nat) : Prop :=
  .endCall .close c ∈ s.tasks (loopOf c)

/-- A call of `close` has found `kConnected`, and its functor was not called
yet. -/
def Closing (loopOf : Nat → T) (s : TcpServer K T) (c : Nat) : Prop :=
  s.CloseQueued loopOf c ∨ ∃ thread, (s.calls thread).closes = some c

/-- The connection is closed, or will be. -/
def Going (loopOf : Nat → T) (s : TcpServer K T) (c : Nat) : Prop :=
  s.status c = .kDisconnected ∨ s.Closing loopOf c

/-- The functor of `stop` has begun, and the connection is not before it. -/
def Passed (s : TcpServer K T) (c : Nat) : Prop :=
  s.phase ≠ .running ∧ c ∉ s.phase.rest

/-- The functors have run that were pending when the functor of `stop` had. -/
def Drained (s : TcpServer K T) : Prop :=
  s.phase = .stopped ∧ ∀ loop, s.remaining loop = 0

/-- Once the functor of `stop` and the functors that were pending on the loops
then have run, every connection is closed and detached, and none will be
established. -/
def Closed (s : TcpServer K T) : Prop :=
  s.phase = .stopped → (∀ loop, s.remaining loop = 0) →
    (∀ c < s.table.made.length,
      s.status c = .kDisconnected ∧ s.attached c = false) ∧
    ∀ loop c, .onConnectEstablished c ∉ s.tasks loop

/-- When `stop` begins, a connection that is not in the table is being closed;
one of the table is when it is visited, or it is connected; and no `shutdown`
that is late stores over `kDisconnected` after that, unless the connection is
being closed once more. -/
def Reaches (loopOf : Nat → T) (s : TcpServer K T) : TcpServerStep K T → Prop
  | .stop => ∀ c < s.table.made.length,
      s.table.made[c]?.bind s.table.connections = some c ∨ s.Going loopOf c
  | .visit c => s.status c = .kConnected ∨ s.Going loopOf c
  | .store thread => ∀ c, s.calls thread = .loaded .shutdown c → s.Passed c →
      s.status c ≠ .kDisconnected ∨ s.Closing loopOf c
  | _ => True

/-- When the last of the pending functors is called, no connection is left to a
`close` of another thread that is under way, or whose functor was queued after
the functor of `stop`; and no call stores from then on. -/
def InTime (loopOf : Nat → T) (s : TcpServer K T) : TcpServerStep K T → Prop
  | .stopped => (∀ loop, s.tasks loop = []) → ∀ thread,
      ∀ c ∈ (s.calls thread).closes, s.status c = .kDisconnected
  | .callFunctor thread => s.phase = .stopped → s.remaining thread ≤ 1 →
      (∀ loop, loop ≠ thread → s.remaining loop = 0) →
      ∀ c < s.table.made.length, s.Closing loopOf c →
        s.status c = .kDisconnected ∨ .endCall .close c ∈
          (s.tasks (loopOf c)).take (s.remaining (loopOf c))
  | .store _ => ¬ s.Drained
  | _ => True

def Stoppable (loopOf : Nat → T) (s : TcpServer K T)
    (step : TcpServerStep K T) : Prop :=
  s.Reaches loopOf step ∧ s.InTime loopOf step

/-- `stop` has left the connection open, and nobody closes it. -/
def Lost (loopOf : Nat → T) (s : TcpServer K T) (c : Nat) : Prop :=
  s.Passed c ∧ ¬ s.Going loopOf c

/-- Nobody closes what `stop` has left open: neither the peer nor a `close` that
begins later. -/
def Unaided (loopOf : Nat → T) (s : TcpServer K T)
    (step : TcpServerStep K T) : Prop :=
  ∀ c, s.Lost loopOf c →
    step ≠ .peerClose c ∧ ∀ thread, step ≠ .load thread .close c

/-- What the functor of `stop` has done so far. -/
structure Visited (loopOf : Nat → T) (s : TcpServer K T) : Prop where
  going : ∀ c < s.table.made.length, s.Passed c → s.Going loopOf c
  rest : ∀ c ∈ s.phase.rest, c < s.table.made.length
  drained : s.Drained → ∀ c < s.table.made.length, s.status c = .kDisconnected

variable {loopOf : Nat → T} {master : T} {s s' : TcpServer K T}

/-- Nothing is left to do for a connection when the pending functors have
run. -/
theorem Wired.closed (h : s.Wired loopOf) (hvisited : s.Visited loopOf) :
    s.Closed := by
  intro hphase hremaining
  have hstatus := hvisited.drained ⟨hphase, hremaining⟩
  refine ⟨fun c hc => ⟨hstatus c hc, h.detached c (hstatus c hc)⟩,
    fun loop c hmem => ?_⟩
  obtain ⟨_, hconnecting, hc⟩ := (h.establish loop c).2 hmem
  exact absurd (hconnecting.symm.trans (hstatus c hc)) (by decide)

theorem start_visited : (start : TcpServer K T).Visited loopOf where
  going _ hc := absurd hc (Nat.not_lt_zero _)
  rest _ hc := absurd hc List.not_mem_nil
  drained _ _ hc := absurd hc (Nat.not_lt_zero _)

/-- A connection that is being closed was made. -/
theorem Wired.closing_made (h : s.Wired loopOf) {c : Nat}
    (hc : s.Closing loopOf c) : c < s.table.made.length := by
  apply h.made
  rcases hc with hqueued | ⟨thread, hthread⟩
  · exact (h.endCall _ _ c hqueued).2
  · exact h.calls thread c (ServerPc.on_of_closes hthread)

/-- The calls of `close` under way, one thread apart. -/
theorem going_iff_thread (thread : T) {c : Nat} :
    s.Going loopOf c ↔ s.status c = .kDisconnected ∨
      s.CloseQueued loopOf c ∨ (s.calls thread).closes = some c ∨
      ∃ other, other ≠ thread ∧ (s.calls other).closes = some c := by
  refine or_congr_right (or_congr_right ⟨fun hc => ?_, fun hc => ?_⟩)
  · obtain ⟨other, hother⟩ := hc
    by_cases hthread : other = thread
    · exact Or.inl (hthread ▸ hother)
    · exact Or.inr ⟨other, hthread, hother⟩
  · rcases hc with hc | ⟨other, _, hother⟩
    · exact ⟨thread, hc⟩
    · exact ⟨other, hother⟩

variable [DecidableEq T]

/-- A thread goes on with its call. -/
theorem going_setCall {thread : T} {pc : ServerPc} {c : Nat} :
    Going loopOf { s with calls := Function.update s.calls thread pc } c ↔
      s.status c = .kDisconnected ∨ s.CloseQueued loopOf c ∨
        pc.closes = some c ∨
        ∃ other, other ≠ thread ∧ (s.calls other).closes = some c := by
  have hsame := Function.exists_update_iff s.calls
    (fun _ pc => ServerPc.closes pc = some c) (a := thread) (b := pc)
  exact or_congr_right (or_congr_right hsame)

/-- A call of `load` begins to close a connection that is `kConnected`. -/
theorem going_load {thread : T} {call : EndCall} {c d : Nat}
    (hidle : s.calls thread = .idle) :
    (s.load thread call d).Going loopOf c ↔
      s.Going loopOf c ∨ s.status c = .kConnected ∧ call = .close ∧ d = c := by
  unfold load
  rw [going_setCall, going_iff_thread thread, hidle]
  by_cases hconnected : s.status d = .kConnected
  · rw [if_neg (by simpa using hconnected)]
    cases call with
    | close =>
        simp only [ServerPc.closes, Option.some.injEq, reduceCtorEq, false_or,
          true_and]
        constructor
        · rintro (hc | hc | rfl | hc)
          · exact Or.inl (Or.inl hc)
          · exact Or.inl (Or.inr (Or.inl hc))
          · exact Or.inr ⟨hconnected, rfl⟩
          · exact Or.inl (Or.inr (Or.inr hc))
        · rintro ((hc | hc | hc) | ⟨_, rfl⟩)
          · exact Or.inl hc
          · exact Or.inr (Or.inl hc)
          · exact Or.inr (Or.inr (Or.inr hc))
          · exact Or.inr (Or.inr (Or.inl rfl))
    | shutdown => simp [ServerPc.closes]
  · rw [if_pos hconnected]
    have hnot : ¬ (s.status c = .kConnected ∧ call = .close ∧ d = c) := by
      rintro ⟨hc, _, rfl⟩
      exact hconnected hc
    simp [hnot]

theorem closing_store {thread : T} {call : EndCall} {c d : Nat}
    (hcall : s.calls thread = .loaded call d) :
    (s.store thread call d).Closing loopOf c ↔ s.Closing loopOf c := by
  refine or_congr_right (exists_congr fun other => ?_)
  change (Function.update s.calls thread _ other).closes = some c ↔ _
  rcases eq_or_ne other thread with rfl | hne
  · rw [Function.update_self, hcall]
    cases call <;> rfl
  · rw [Function.update_of_ne hne]

/-- Only a `shutdown` that is late takes a connection back. -/
theorem going_store {thread : T} {call : EndCall} {c d : Nat}
    (hcall : s.calls thread = .loaded call d) :
    (s.store thread call d).Going loopOf c ↔
      s.Going loopOf c ∧
        ¬ (call = .shutdown ∧ d = c ∧ ¬ s.Closing loopOf c) := by
  unfold Going
  rw [closing_store hcall]
  change Function.update s.status d .kDisconnecting c = .kDisconnected ∨ _ ↔ _
  rcases eq_or_ne c d with rfl | hne
  · rw [Function.update_self]
    cases call with
    | close =>
        have hclosing : s.Closing loopOf c :=
          Or.inr ⟨thread, by rw [hcall]; rfl⟩
        simp [hclosing]
    | shutdown => simpa using Or.inr
  · rw [Function.update_of_ne hne]
    simp [hne.symm]

omit [DecidableEq T] in
theorem going_closeInLoop {c d : Nat} :
    (s.closeInLoop d).Going loopOf c ↔ s.Going loopOf c ∨ c = d := by
  unfold Going
  rw [closeInLoop_status, or_right_comm]
  rfl

theorem going_queueInLoop {call : EndCall} {c d : Nat} :
    (s.queueInLoop (loopOf d) (.endCall call d)).Going loopOf c ↔
      s.Going loopOf c ∨ call = .close ∧ c = d := by
  have hqueued : (s.queueInLoop (loopOf d) (.endCall call d)).CloseQueued
      loopOf c ↔ s.CloseQueued loopOf c ∨ call = .close ∧ c = d := by
    unfold CloseQueued
    rw [mem_queueInLoop, LoopTask.endCall.injEq]
    refine or_congr_right ⟨fun hc => ⟨hc.2.1.symm, hc.2.2⟩, fun hc => ?_⟩
    exact ⟨by rw [hc.2], hc.1.symm, hc.2⟩
  unfold Going Closing
  rw [hqueued, or_right_comm (b := call = .close ∧ c = d), ← or_assoc]
  rfl

/-- The functor of `close` is called or queued. -/
theorem going_runInLoop {thread : T} {call : EndCall} {c d : Nat}
    (hcall : s.calls thread = .stored call d) :
    (s.runInLoop loopOf thread call d).Going loopOf c ↔ s.Going loopOf c := by
  have hreturned : s.Going loopOf c ↔
      Going loopOf { s with calls := Function.update s.calls thread .idle } c ∨
        call = .close ∧ c = d := by
    rw [going_setCall, going_iff_thread (s := s) thread, hcall]
    cases call with
    | shutdown => simp [ServerPc.closes]
    | close =>
        simp only [ServerPc.closes, Option.some.injEq, reduceCtorEq, false_or,
          true_and, eq_comm (a := d)]
        rw [or_assoc, or_assoc, or_comm (a := c = d)]
  rw [hreturned]
  unfold TcpServer.runInLoop
  split
  · cases call with
    | shutdown => simp [TcpServer.invoke]
    | close => exact going_closeInLoop.trans (or_congr_right (by simp))
  · exact going_queueInLoop

/-- A functor that closes a connection is called. -/
theorem Wired.going_callFunctor (h : s.Wired loopOf) {loop : T}
    {task : LoopTask} {rest : List LoopTask}
    (hcons : s.tasks loop = task :: rest) (hcalls : s'.calls = s.calls)
    (htasks : s'.tasks = Function.update s.tasks loop rest)
    (hstatus : ∀ c, s'.status c = .kDisconnected ↔
      s.status c = .kDisconnected ∨ task = .endCall .close c) {c : Nat} :
    s'.Going loopOf c ↔ s.Going loopOf c := by
  have hqueued : s.CloseQueued loopOf c ↔
      task = .endCall .close c ∨ s'.CloseQueued loopOf c := by
    unfold CloseQueued
    rw [htasks]
    rcases eq_or_ne (loopOf c) loop with rfl | hne
    · rw [hcons, Function.update_self, List.mem_cons, eq_comm]
    · rw [Function.update_of_ne hne]
      refine ⟨Or.inr, fun hc => hc.resolve_left fun htask => hne ?_⟩
      exact ((h.endCall loop .close c (by simp [hcons, htask])).1).symm
  unfold Going Closing
  rw [hstatus, hqueued, hcalls, or_assoc, or_assoc]

/-- A step takes a connection back: `shutdown` had found `kConnected`, and
stores over the `kDisconnected` of a close that is over. -/
def TakesBack (loopOf : Nat → T) (s : TcpServer K T)
    (step : TcpServerStep K T) (c : Nat) : Prop :=
  ∃ thread, step = .store thread ∧ s.calls thread = .loaded .shutdown c ∧
    ¬ s.Closing loopOf c

/-- A step closes a connection, or begins to. -/
def Begins (s : TcpServer K T) (step : TcpServerStep K T) (c : Nat) : Prop :=
  step = .peerClose c ∨ s.status c = .kConnected ∧
    (step = .visit c ∨ ∃ thread, step = .load thread .close c)

variable [DecidableEq K] {pairs : List T}

theorem exec_store {thread : T}
    (hexec : (tcpServerMachine K master pairs).exec s (.store thread) =
      some s') :
    ∃ call c, s.calls thread = .loaded call c ∧ s' = s.store thread call c := by
  simp only [tcpServerMachine] at hexec
  split at hexec
  · next call c hcall => exact ⟨call, c, hcall, (Option.some.inj hexec).symm⟩
  all_goals cases hexec

theorem exec_runInLoop {thread : T}
    (hexec : (tcpServerMachine K master pairs).exec s (.runInLoop thread) =
      some s') :
    ∃ call c, s.calls thread = .stored call c ∧
      s' = s.runInLoop (getNextLoop master pairs) thread call c := by
  simp only [tcpServerMachine] at hexec
  split at hexec
  · next call c hcall => exact ⟨call, c, hcall, (Option.some.inj hexec).symm⟩
  all_goals cases hexec

theorem exec_peerClose {c : Nat}
    (hexec : (tcpServerMachine K master pairs).exec s (.peerClose c) =
      some s') : s' = s.closeInLoop c := by
  simp only [tcpServerMachine, Option.ite_none_right_eq_some] at hexec
  exact (Option.some.inj hexec.2).symm

/-- The removals change the table only. -/
theorem exec_removals {step : TcpServerStep K T}
    (hstep : step = .swapRemovals ∨ step = .callRemoval ∨
      step = .returnRemovals)
    (henabled : (tcpServerMachine K master pairs).enabled s step)
    (hexec : (tcpServerMachine K master pairs).exec s step = some s') :
    ∃ table, s' = { s with table := table } ∧ table.made = s.table.made := by
  rcases hstep with rfl | rfl | rfl
  · cases hexec
    exact ⟨_, rfl, rfl⟩
  · obtain ⟨c, rest, hcons⟩ := List.exists_cons_of_ne_nil henabled.2.2
    simp only [tcpServerMachine, ServerTable.callFunctor_exec hcons,
      Option.map_some, Option.some.injEq] at hexec
    exact ⟨_, hexec.symm, removeConnectionInLoop_made _ c⟩
  · cases hexec
    exact ⟨_, rfl, rfl⟩

/-- A new connection is not going. -/
theorem Wired.going_accept (h : s.Wired (getNextLoop master pairs))
    (key : K) (now : Int) {c : Nat} :
    (s.newConnectionInLoop master pairs key now).Going
        (getNextLoop master pairs) c ↔
      s.Going (getNextLoop master pairs) c := by
  refine or_congr ?_ (or_congr_left ?_)
  · change Function.update s.status s.table.made.length .kConnecting c =
      .kDisconnected ↔ _
    rcases eq_or_ne c s.table.made.length with rfl | hne
    · rw [Function.update_self]
      refine ⟨(fun hc => by cases hc), fun hc => ?_⟩
      exact absurd (h.made _ (by rw [hc]; decide)) (Nat.lt_irrefl _)
    · rw [Function.update_of_ne hne]
  · exact mem_queueInLoop.trans (by simp [CloseQueued])

/-- What a step does for the connections that are to be closed. -/
theorem Wired.going_iff (h : s.Wired (getNextLoop master pairs))
    {step : TcpServerStep K T}
    (henabled : (tcpServerMachine K master pairs).enabled s step)
    (hexec : (tcpServerMachine K master pairs).exec s step = some s')
    (c : Nat) :
    s'.Going (getNextLoop master pairs) c ↔
      s.Going (getNextLoop master pairs) c ∧
          ¬ s.TakesBack (getNextLoop master pairs) step c ∨
        s.Begins step c := by
  cases step with
  | accept key now =>
      cases hexec
      rw [h.going_accept key now]
      simp [TakesBack, Begins]
  | load thread call d =>
      cases hexec
      rw [going_load henabled.1]
      simp [TakesBack, Begins]
  | store thread =>
      obtain ⟨call, d, hcall, rfl⟩ := exec_store hexec
      rw [going_store hcall]
      simp [TakesBack, Begins, hcall]
  | runInLoop thread =>
      obtain ⟨call, d, hcall, rfl⟩ := exec_runInLoop hexec
      rw [going_runInLoop hcall]
      simp [TakesBack, Begins]
  | callFunctor thread =>
      obtain ⟨task, rest, hcons⟩ := List.exists_cons_of_ne_nil henabled.2.1
      obtain ⟨t, ht, _, _, _, hcalls, htasks, _, hstatus⟩ :=
        h.callFunctor_spec hcons
      obtain rfl : s' = t := Option.some.inj (hexec.symm.trans ht)
      rw [h.going_callFunctor hcons hcalls htasks hstatus]
      simp [TakesBack, Begins]
  | peerClose d =>
      rw [exec_peerClose hexec, going_closeInLoop]
      simp [TakesBack, Begins, eq_comm]
  | visit d =>
      cases hexec
      refine (going_load (s := { s with table := _, phase := _ })
        henabled.1).trans ?_
      simp [TakesBack, Begins]
  | swapRemovals | callRemoval | returnRemovals =>
      obtain ⟨table, rfl, _⟩ := exec_removals (by simp) henabled hexec
      simp [TakesBack, Begins]
      rfl
  | stop | stopped =>
      cases hexec
      simp [TakesBack, Begins]
      rfl

/-- Where the functor of `stop` is after a step. -/
def nextPhase (s : TcpServer K T) : TcpServerStep K T → StopPhase
  | .stop => .visiting s.stored
  | .visit c => .visiting (s.phase.rest.filter (· ≠ c))
  | .stopped => .stopped
  | _ => s.phase

/-- What a step does for the functor of `stop` and after it. -/
structure Effect (s s' : TcpServer K T) (step : TcpServerStep K T) : Prop where
  phase : s'.phase = s.nextPhase step
  made : s'.phase ≠ .running → s'.table.made = s.table.made
  remaining : step = .stopped ∨ (∃ thread, step = .callFunctor thread) ∨
    s'.remaining = s.remaining
  closed : (∃ thread, step = .store thread) ∨
    ∀ c, s.status c = .kDisconnected → s'.status c = .kDisconnected

theorem Wired.effect (h : s.Wired (getNextLoop master pairs))
    {step : TcpServerStep K T}
    (henabled : (tcpServerMachine K master pairs).enabled s step)
    (hexec : (tcpServerMachine K master pairs).exec s step = some s') :
    s.Effect s' step := by
  cases step with
  | accept key now =>
      cases hexec
      refine ⟨rfl, fun hphase => absurd henabled.2.1 hphase, by simp; rfl,
        Or.inr fun c hc => ?_⟩
      have hne : c ≠ s.table.made.length :=
        Nat.ne_of_lt (h.made c (by rw [hc]; decide))
      exact (Function.update_of_ne hne ..).trans hc
  | store thread =>
      obtain ⟨call, d, hcall, rfl⟩ := exec_store hexec
      exact ⟨rfl, fun _ => rfl, Or.inr (Or.inr rfl), Or.inl ⟨thread, rfl⟩⟩
  | runInLoop thread =>
      obtain ⟨call, d, hcall, rfl⟩ := exec_runInLoop hexec
      unfold TcpServer.runInLoop
      split
      · cases call with
        | close =>
            refine ⟨rfl, fun _ => rfl, Or.inr (Or.inr rfl), Or.inr fun c hc => ?_⟩
            exact closeInLoop_status.mpr (Or.inl hc)
        | shutdown =>
            exact ⟨rfl, fun _ => rfl, Or.inr (Or.inr rfl), Or.inr fun c hc => hc⟩
      · exact ⟨rfl, fun _ => rfl, Or.inr (Or.inr rfl), Or.inr fun c hc => hc⟩
  | callFunctor thread =>
      obtain ⟨task, rest, hcons⟩ := List.exists_cons_of_ne_nil henabled.2.1
      obtain ⟨t, ht, _, hphase, hmade, _, _, _, hstatus⟩ :=
        h.callFunctor_spec hcons
      obtain rfl : s' = t := Option.some.inj (hexec.symm.trans ht)
      exact ⟨hphase, fun _ => hmade, Or.inr (Or.inl ⟨thread, rfl⟩),
        Or.inr fun c hc => (hstatus c).mpr (Or.inl hc)⟩
  | peerClose d =>
      rw [exec_peerClose hexec]
      exact ⟨rfl, fun _ => rfl, Or.inr (Or.inr rfl),
        Or.inr fun c hc => closeInLoop_status.mpr (Or.inl hc)⟩
  | swapRemovals | callRemoval | returnRemovals =>
      obtain ⟨table, rfl, hmade⟩ := exec_removals (by simp) henabled hexec
      exact ⟨rfl, fun _ => hmade, Or.inr (Or.inr rfl), Or.inr fun c hc => hc⟩
  | stopped =>
      cases hexec
      exact ⟨rfl, fun _ => rfl, Or.inl rfl, Or.inr fun c hc => hc⟩
  | load | stop | visit =>
      cases hexec
      exact ⟨rfl, fun _ => rfl, Or.inr (Or.inr rfl), Or.inr fun c hc => hc⟩

/-- What a step does for the connections that `stop` has passed. -/
theorem Effect.passed_iff {step : TcpServerStep K T} (h : s.Effect s' step)
    (henabled : (tcpServerMachine K master pairs).enabled s step) (c : Nat) :
    s'.Passed c ↔
      s.Passed c ∨ step = .stop ∧ c ∉ s.stored ∨ step = .visit c := by
  unfold Passed
  rw [h.phase]
  cases step with
  | stop => simp [nextPhase, henabled.2, StopPhase.rest]
  | visit d =>
      have hphase : s.phase ≠ .running := by
        intro hrunning
        have hrest : d ∈ s.phase.rest := henabled.2
        rw [hrunning] at hrest
        cases hrest
      simp only [nextPhase, StopPhase.rest]
      simp [hphase, imp_iff_not_or]
      exact or_congr_right eq_comm
  | stopped => simp [nextPhase, henabled.2, StopPhase.rest]
  | _ => simp [nextPhase]

omit [DecidableEq T] [DecidableEq K] in
/-- The connections of the table that are still to be visited were made. -/
theorem Effect.rest_step {step : TcpServerStep K T} (h : s.Effect s' step)
    (hrest : ∀ c ∈ s.phase.rest, c < s.table.made.length) :
    ∀ c ∈ s'.phase.rest, c < s'.table.made.length := by
  intro c hc
  have hphase : s'.phase ≠ .running := by
    intro hrunning
    rw [hrunning] at hc
    cases hc
  rw [h.made hphase]
  rw [h.phase] at hc
  cases step with
  | stop => exact List.mem_range.mp (List.mem_filter.mp hc).1
  | visit d => exact hrest c (List.mem_filter.mp hc).1
  | stopped => cases hc
  | _ => exact hrest c hc

omit [DecidableEq K] in
/-- The last functor that was pending closes the last connections. -/
theorem Visited.callFunctor_step (hs : s.Visited loopOf) {thread : T} {task : LoopTask} {rest : List LoopTask}
    (hcons : s.tasks thread = task :: rest)
    (hstatus : ∀ c, s'.status c = .kDisconnected ↔
      s.status c = .kDisconnected ∨ task = .endCall .close c)
    (hremaining : s'.remaining =
      Function.update s.remaining thread (s.remaining thread - 1))
    (hphase : s.phase = .stopped)
    (hintime : s.InTime loopOf (.callFunctor thread))
    (hdrained : ∀ loop, s'.remaining loop = 0) {c : Nat}
    (hc : c < s.table.made.length) : s'.status c = .kDisconnected := by
  have hlast : s.remaining thread ≤ 1 := by
    have hzero := hdrained thread
    rw [hremaining, Function.update_self] at hzero
    omega
  have hothers : ∀ loop, loop ≠ thread → s.remaining loop = 0 := by
    intro loop hne
    have hzero := hdrained loop
    rwa [hremaining, Function.update_of_ne hne] at hzero
  have hpassed : s.Passed c := by simp [Passed, hphase, StopPhase.rest]
  rw [hstatus]
  rcases hs.going c hc hpassed with hclosed | hclosing
  · exact Or.inl hclosed
  · refine (hintime hphase hlast hothers c hc hclosing).imp_right fun hmem => ?_
    have hloop : loopOf c = thread := by
      by_contra hne
      rw [hothers _ hne, List.take_zero] at hmem
      cases hmem
    rw [hloop, hcons] at hmem
    have hone := (List.take_sublist_take_left hlast).subset hmem
    exact (List.mem_singleton.mp hone).symm

/-- When the functor of `stop` and those that were pending have run, all are
closed, and they stay so. -/
theorem Visited.drained_step (hs : s.Visited (getNextLoop master pairs))
    (h : s.Wired (getNextLoop master pairs)) {step : TcpServerStep K T}
    (henabled : (tcpServerMachine K master pairs).enabled s step)
    (hexec : (tcpServerMachine K master pairs).exec s step = some s')
    (hgoing : ∀ c < s'.table.made.length, s'.Passed c →
      s'.Going (getNextLoop master pairs) c)
    (hintime : s.InTime (getNextLoop master pairs) step)
    (hdrained : s'.Drained) :
    ∀ c < s'.table.made.length, s'.status c = .kDisconnected := by
  intro c hc
  have heffect := h.effect henabled hexec
  have hmade := heffect.made (by rw [hdrained.1]; simp)
  have hphase := heffect.phase.symm.trans hdrained.1
  have hkept : s.phase = .stopped → s'.remaining = s.remaining →
      s'.status c = .kDisconnected := by
    intro hphase hremaining
    have hold : s.Drained :=
      ⟨hphase, fun loop => hremaining ▸ hdrained.2 loop⟩
    rcases heffect.closed with ⟨thread, rfl⟩ | hclosed
    · exact absurd hold hintime
    · exact hclosed c (hs.drained hold c (hmade ▸ hc))
  cases step with
  | stop => cases hphase
  | visit d => cases hphase
  | stopped =>
      cases hexec
      have hempty : ∀ loop, s.tasks loop = [] := fun loop =>
        List.length_eq_zero_iff.mp (hdrained.2 loop)
      rcases hgoing c hc ⟨by simp [TcpServer.stopped], List.not_mem_nil⟩ with
        hclosed | hqueued | ⟨thread, hthread⟩
      · exact hclosed
      · have hmem : .endCall .close c ∈ s.tasks (getNextLoop master pairs c) :=
          hqueued
        rw [hempty] at hmem
        cases hmem
      · exact hintime hempty thread c hthread
  | callFunctor thread =>
      obtain ⟨task, rest, hcons⟩ := List.exists_cons_of_ne_nil henabled.2.1
      obtain ⟨t, ht, _, _, _, _, _, hremaining, hstatus⟩ :=
        h.callFunctor_spec hcons
      obtain rfl : s' = t := Option.some.inj (hexec.symm.trans ht)
      exact hs.callFunctor_step hcons hstatus hremaining hphase hintime
        hdrained.2 (hmade ▸ hc)
  | _ => exact hkept hphase (by simpa using heffect.remaining)

theorem Visited.step (hs : s.Visited (getNextLoop master pairs))
    (h : s.Wired (getNextLoop master pairs)) {step : TcpServerStep K T}
    (henabled : (tcpServerMachine K master pairs).enabled s step)
    (hexec : (tcpServerMachine K master pairs).exec s step = some s')
    (hstoppable : s.Stoppable (getNextLoop master pairs) step) :
    s'.Visited (getNextLoop master pairs) := by
  obtain ⟨hreaches, hintime⟩ := hstoppable
  have heffect := h.effect henabled hexec
  have hgoing : ∀ c < s'.table.made.length, s'.Passed c →
      s'.Going (getNextLoop master pairs) c := by
    intro c hc hpassed
    rw [heffect.made hpassed.1] at hc
    rw [h.going_iff henabled hexec]
    rcases (heffect.passed_iff henabled c).mp hpassed with
      hpassed | ⟨rfl, hstored⟩ | rfl
    · refine Or.inl ⟨hs.going c hc hpassed, ?_⟩
      rintro ⟨thread, rfl, hcall, hnot⟩
      exact (hs.going c hc hpassed).elim
        ((hreaches c hcall hpassed).resolve_right hnot) hnot
    · refine Or.inl ⟨(hreaches c hc).resolve_left fun hin => hstored ?_, ?_⟩
      · exact List.mem_filter.mpr ⟨List.mem_range.mpr hc, decide_eq_true hin⟩
      · rintro ⟨thread, hstep, _⟩
        cases hstep
    · rcases hreaches with hconnected | hgoing
      · exact Or.inr (Or.inr ⟨hconnected, Or.inl rfl⟩)
      · refine Or.inl ⟨hgoing, ?_⟩
        rintro ⟨thread, hstep, _⟩
        cases hstep
  exact ⟨hgoing, heffect.rest_step hs.rest,
    hs.drained_step h henabled hexec hgoing hintime⟩

/-- What `stop` has left open stays so when nobody closes it. -/
theorem Lost.step {c : Nat} (hlost : s.Lost (getNextLoop master pairs) c)
    (h : s.Wired (getNextLoop master pairs)) {step : TcpServerStep K T}
    (henabled : (tcpServerMachine K master pairs).enabled s step)
    (hunaided : s.Unaided (getNextLoop master pairs) step)
    (hexec : (tcpServerMachine K master pairs).exec s step = some s') :
    s'.Lost (getNextLoop master pairs) c := by
  obtain ⟨hpassed, hnot⟩ := hlost
  obtain ⟨hpeer, hload⟩ := hunaided c ⟨hpassed, hnot⟩
  refine ⟨((h.effect henabled hexec).passed_iff henabled c).mpr
    (Or.inl hpassed), ?_⟩
  rw [h.going_iff henabled hexec]
  rintro (⟨hgoing, _⟩ | hclose | ⟨_, rfl | ⟨thread, hthread⟩⟩)
  · exact hnot hgoing
  · exact hpeer hclose
  · exact hpassed.2 henabled.2
  · exact hload thread hthread

/-- A step that does not reach a connection loses it. -/
theorem Wired.lost (h : s.Wired (getNextLoop master pairs))
    (hs : s.Visited (getNextLoop master pairs)) {step : TcpServerStep K T}
    (henabled : (tcpServerMachine K master pairs).enabled s step)
    (hexec : (tcpServerMachine K master pairs).exec s step = some s')
    (hnot : ¬ s.Reaches (getNextLoop master pairs) step) :
    ∃ c < s'.table.made.length, s'.Lost (getNextLoop master pairs) c := by
  have heffect := h.effect henabled hexec
  have hlost : ∀ c < s.table.made.length,
      (s.Passed c ∨ step = .stop ∧ c ∉ s.stored ∨ step = .visit c) →
      ¬ (s.Going (getNextLoop master pairs) c ∧
        ¬ s.TakesBack (getNextLoop master pairs) step c) →
      ¬ s.Begins step c →
      ∃ c < s'.table.made.length, s'.Lost (getNextLoop master pairs) c := by
    intro c hc hpassed hgoing hbegins
    have hpassed' := (heffect.passed_iff henabled c).mpr hpassed
    refine ⟨c, by rwa [heffect.made hpassed'.1], hpassed', ?_⟩
    rw [h.going_iff henabled hexec]
    exact not_or.mpr ⟨hgoing, hbegins⟩
  cases step with
  | stop =>
      simp only [Reaches, not_forall, not_or] at hnot
      obtain ⟨c, hc, hstored, hgoing⟩ := hnot
      apply hlost c hc (Or.inr (Or.inl ⟨rfl, fun hin => hstored ?_⟩))
        (fun hkeep => hgoing hkeep.1) (by simp [Begins])
      exact of_decide_eq_true (List.mem_filter.mp hin).2
  | visit c =>
      obtain ⟨hconnected, hgoing⟩ := not_or.mp hnot
      exact hlost c (hs.rest c henabled.2) (Or.inr (Or.inr rfl))
        (fun hkeep => hgoing hkeep.1) (by simp [Begins, hconnected])
  | store thread =>
      simp only [Reaches, not_forall, not_or] at hnot
      obtain ⟨c, hcall, hpassed, _, hclosing⟩ := hnot
      have hc : s.status c ≠ .kConnecting :=
        h.calls thread c (by rw [hcall]; exact rfl)
      exact hlost c (h.made c hc) (Or.inl hpassed)
        (fun hkeep => hkeep.2 ⟨thread, rfl, hcall, hclosing⟩) (by simp [Begins])
  | _ => exact absurd trivial hnot

/-- A close that comes too late shows at once. -/
theorem Wired.inTime (h : s.Wired (getNextLoop master pairs))
    (hs : s.Visited (getNextLoop master pairs)) {step : TcpServerStep K T}
    (henabled : (tcpServerMachine K master pairs).enabled s step)
    (hexec : (tcpServerMachine K master pairs).exec s step = some s')
    (hclosed : s'.Closed) : s.InTime (getNextLoop master pairs) step := by
  cases step with
  | stopped =>
      cases hexec
      intro hempty thread c hthread
      have hc := h.closing_made (Or.inr ⟨thread, hthread⟩)
      exact ((hclosed rfl fun loop => by simp [TcpServer.stopped, hempty]).1
        c hc).1
  | callFunctor thread =>
      obtain ⟨task, rest, hcons⟩ := List.exists_cons_of_ne_nil henabled.2.1
      obtain ⟨t, ht, _, hphase', hmade, _, _, hremaining, hstatus⟩ :=
        h.callFunctor_spec hcons
      obtain rfl : s' = t := Option.some.inj (hexec.symm.trans ht)
      intro hphase hlast hothers c hc hclosing
      have hzero : ∀ loop, s'.remaining loop = 0 := by
        intro loop
        rw [hremaining]
        rcases eq_or_ne loop thread with rfl | hne
        · rw [Function.update_self]
          omega
        · rw [Function.update_of_ne hne]
          exact hothers loop hne
      have hdisconnected := ((hclosed (hphase'.trans hphase) hzero).1 c
        (hmade ▸ hc)).1
      rcases (hstatus c).mp hdisconnected with hold | rfl
      · exact Or.inl hold
      · by_cases hone : s.remaining thread = 0
        · refine Or.inl (hs.drained ⟨hphase, fun loop => ?_⟩ c hc)
          by_cases hloop : loop = thread
          · rw [hloop, hone]
          · exact hothers loop hloop
        · right
          have hloop := (h.endCall thread .close c (by simp [hcons])).1
          rw [← hloop, hcons, show s.remaining thread = 1 by omega]
          simp
  | store thread =>
      obtain ⟨call, c, hcall, rfl⟩ := exec_store hexec
      rintro ⟨hphase, hremaining⟩
      have hc : s.status c ≠ .kConnecting :=
        h.calls thread c (by rw [hcall]; exact rfl)
      have hdisconnected := ((hclosed hphase hremaining).1 c (h.made c hc)).1
      change Function.update s.status c _ c = _ at hdisconnected
      rw [Function.update_self] at hdisconnected
      cases hdisconnected
  | _ => trivial

end TcpServer

open TcpServer

namespace TcpServer

variable [Fintype T] [DecidableEq T] [DecidableEq K]

instance (loopOf : Nat → T) (s : TcpServer K T) (c : Nat) :
    Decidable (s.Closing loopOf c) :=
  inferInstanceAs (Decidable (.endCall .close c ∈ s.tasks (loopOf c) ∨
    ∃ thread, (s.calls thread).closes = some c))

instance (loopOf : Nat → T) (s : TcpServer K T) (c : Nat) :
    Decidable (s.Going loopOf c) :=
  inferInstanceAs (Decidable
    (s.status c = .kDisconnected ∨ s.Closing loopOf c))

instance (s : TcpServer K T) (c : Nat) : Decidable (s.Passed c) :=
  inferInstanceAs (Decidable (s.phase ≠ .running ∧ c ∉ s.phase.rest))

instance (s : TcpServer K T) : Decidable s.Drained :=
  inferInstanceAs (Decidable
    (s.phase = .stopped ∧ ∀ loop, s.remaining loop = 0))

instance (loopOf : Nat → T) (s : TcpServer K T) (step : TcpServerStep K T) :
    Decidable (s.Reaches loopOf step) :=
  match step with
  | .stop => inferInstanceAs (Decidable (∀ c < s.table.made.length,
      s.table.made[c]?.bind s.table.connections = some c ∨ s.Going loopOf c))
  | .visit c => inferInstanceAs
      (Decidable (s.status c = .kConnected ∨ s.Going loopOf c))
  | .store thread =>
      match hcall : s.calls thread with
      | .loaded .shutdown c => decidable_of_iff
          (s.Passed c → s.status c ≠ .kDisconnected ∨ s.Closing loopOf c)
          (by simp [Reaches, hcall])
      | .loaded .close _ | .stored _ _ | .idle =>
          isTrue (by simp [Reaches, hcall])
  | .accept _ _ | .load _ _ _ | .runInLoop _ | .callFunctor _ | .peerClose _
  | .swapRemovals | .callRemoval | .returnRemovals | .stopped => isTrue trivial

instance (loopOf : Nat → T) (s : TcpServer K T) (step : TcpServerStep K T) :
    Decidable (s.InTime loopOf step) :=
  match step with
  | .stopped => inferInstanceAs (Decidable ((∀ loop, s.tasks loop = []) →
      ∀ thread, ∀ c ∈ (s.calls thread).closes, s.status c = .kDisconnected))
  | .callFunctor thread => inferInstanceAs (Decidable (s.phase = .stopped →
      s.remaining thread ≤ 1 →
      (∀ loop, loop ≠ thread → s.remaining loop = 0) →
      ∀ c < s.table.made.length, s.Closing loopOf c →
        s.status c = .kDisconnected ∨ .endCall .close c ∈
          (s.tasks (loopOf c)).take (s.remaining (loopOf c))))
  | .store _ => inferInstanceAs (Decidable (¬ s.Drained))
  | .accept _ _ | .load _ _ _ | .runInLoop _ | .peerClose _ | .swapRemovals
  | .callRemoval | .returnRemovals | .stop | .visit _ => isTrue trivial

instance (loopOf : Nat → T) (s : TcpServer K T) (step : TcpServerStep K T) :
    Decidable (s.Stoppable loopOf step) :=
  inferInstanceAs (Decidable
    (s.Reaches loopOf step ∧ s.InTime loopOf step))

end TcpServer

/-- The server stops before the functor that establishes a connection runs. -/
def unestablishedRun : List (TcpServerStep Nat (Fin 3)) :=
  [.accept 5 0, .stop, .visit 0, .stopped, .callFunctor 2]

/-- A connection was shut down before the server stops. -/
def halfClosedRun : List (TcpServerStep Nat (Fin 3)) :=
  [.accept 5 0, .callFunctor 2, .load 1 .shutdown 0, .store 1, .runInLoop 1,
    .stop, .visit 0, .stopped, .callFunctor 2]

end Libsaf
