/-
`saf::TcpServer` with its connections and their loops.  Connections are made on
the loop of the server and established by a functor on a loop of the cluster;
any thread may close or shut down a connection; and `stop` closes what it finds
in the table.  `_status` is atomic, so a call of `close` or `shutdown` is a
load, a store and a call of `runInLoop`.
-/
import Libsaf.MachineInt
import Libsaf.ServerTable
import Libsaf.TcpLifecycle

namespace Libsaf

universe u v

variable {K : Type u} {T : Type v}

/-- What is queued on the loop of a connection. -/
inductive LoopTask where
  | onConnectEstablished (c : Nat)
  | endCall (call : EndCall) (c : Nat)
deriving Repr, DecidableEq

/-- Where a thread is in `close` or `shutdown` of a connection. -/
inductive ServerPc where
  | idle
  | loaded (call : EndCall) (c : Nat)
  | stored (call : EndCall) (c : Nat)
deriving Repr, DecidableEq

namespace ServerPc

/-- The connection that a thread is at work on. -/
def On (c : Nat) : ServerPc → Prop
  | .idle => False
  | .loaded _ d | .stored _ d => d = c

/-- The connection whose status is to be stored. -/
def toStore : ServerPc → Option Nat
  | .loaded _ c => some c
  | .idle | .stored _ _ => none

/-- The connection whose functor is to be passed to its loop. -/
def toRun : ServerPc → Option Nat
  | .stored _ c => some c
  | .idle | .loaded _ _ => none

end ServerPc

/-- Whether the functor of `stop` has begun, and which entries of the table it
has still to visit. -/
inductive StopPhase where
  | running
  | visiting (rest : List Nat)
  | stopped
deriving Repr, DecidableEq

namespace StopPhase

def isVisiting : StopPhase → Bool
  | .visiting _ => true
  | .running | .stopped => false

def rest : StopPhase → List Nat
  | .visiting rest => rest
  | .running | .stopped => []

end StopPhase

/-- A loop goes by the name of its thread.  `tasks` holds what is queued on a
loop and not yet called; `remaining` counts those of them that were pending when
the functor of `stop` had run. -/
structure TcpServer (K : Type u) (T : Type v) where
  table : ServerTable K
  status : Nat → TcpStatus
  attached : Nat → Bool
  tasks : T → List LoopTask
  calls : T → ServerPc
  phase : StopPhase
  remaining : T → Nat

/-- `visit` is the load of `close` for the next entry of the table; the store
and the call of `runInLoop` follow as steps of the server's thread. -/
inductive TcpServerStep (K : Type u) (T : Type v) where
  | accept (key : K) (now : Int)
  | load (thread : T) (call : EndCall) (c : Nat)
  | store (thread : T)
  | runInLoop (thread : T)
  | callFunctor (thread : T)
  | peerClose (c : Nat)
  | swapRemovals
  | callRemoval
  | returnRemovals
  | stop
  | visit (c : Nat)
  | stopped
deriving Repr, DecidableEq

/-- `EventLoopCluster::getNextLoop` for the connection of this number; its
`_counter` is an `int`.  Without worker loops it is the loop of the server. -/
def getNextLoop (master : T) (pairs : List T) (c : Nat) : T :=
  pairs.getD (toSize (toInt (c + 1)) % pairs.length) master

namespace TcpServer

def start : TcpServer K T :=
  { table := .start
    status := fun _ => .kConnecting
    attached := fun _ => false
    tasks := fun _ => []
    calls := fun _ => .idle
    phase := .running
    remaining := fun _ => 0 }

/-- `TcpConnection::closeInLoop`, with the close callback. -/
def closeInLoop (s : TcpServer K T) (c : Nat) : TcpServer K T :=
  { s with
    table := s.table.closeInLoop c
    status := Function.update s.status c .kDisconnected
    attached := Function.update s.attached c false }

/-- The body of a functor of `close` or `shutdown`. -/
def invoke (s : TcpServer K T) (call : EndCall) (c : Nat) : TcpServer K T :=
  match call with
  | .close => s.closeInLoop c
  | .shutdown => s

/-- `onConnectEstablishedInLoop`. -/
def onConnectEstablishedInLoop (s : TcpServer K T) (c : Nat) :
    TcpServer K T :=
  { s with
    table := { s.table with
      established := Function.update s.table.established c true }
    status := Function.update s.status c .kConnected
    attached := Function.update s.attached c true }

/-- The thread of the server is between two events of its loop. -/
def Free (master : T) (s : TcpServer K T) : Prop :=
  s.calls master = .idle ∧ s.phase.isVisiting = false

variable [DecidableEq T]

def queueInLoop (s : TcpServer K T) (loop : T) (task : LoopTask) :
    TcpServer K T :=
  { s with tasks := Function.update s.tasks loop (s.tasks loop ++ [task]) }

/-- The next functor of a loop is called. -/
def callFunctor (s : TcpServer K T) (loop : T) : Option (TcpServer K T) :=
  match s.tasks loop with
  | [] => none
  | task :: rest =>
      let s := { s with
        tasks := Function.update s.tasks loop rest
        remaining := Function.update s.remaining loop (s.remaining loop - 1) }
      match task with
      | .onConnectEstablished c => some (s.onConnectEstablishedInLoop c)
      | .endCall call c => some (s.invoke call c)

variable [DecidableEq K]

def newConnectionInLoop (master : T) (pairs : List T) (s : TcpServer K T)
    (key : K) (now : Int) : TcpServer K T :=
  let c := s.table.made.length
  { s with
    table := s.table.newConnectionInLoop key now
    status := Function.update s.status c .kConnecting
    attached := Function.update s.attached c false }.queueInLoop
      (getNextLoop master pairs c) (.onConnectEstablished c)

/-- The connections that are stored in the table. -/
def stored (s : TcpServer K T) : List Nat :=
  (List.range s.table.made.length).filter fun c =>
    s.table.made[c]?.bind s.table.connections = some c

/-- `close` and `shutdown` return unless they find `kConnected`. -/
def load (s : TcpServer K T) (thread : T) (call : EndCall) (c : Nat) :
    TcpServer K T :=
  { s with
    calls := Function.update s.calls thread
      (if s.status c ≠ .kConnected then .idle else .loaded call c) }

def store (s : TcpServer K T) (thread : T) (call : EndCall) (c : Nat) :
    TcpServer K T :=
  { s with
    table := { s.table with
      closing := Function.update s.table.closing c
        (call = .close || s.table.closing c) }
    status := Function.update s.status c .kDisconnecting
    calls := Function.update s.calls thread (.stored call c) }

/-- On the thread of its loop a functor is called at once. -/
def runInLoop (loopOf : Nat → T) (s : TcpServer K T) (thread : T)
    (call : EndCall) (c : Nat) : TcpServer K T :=
  let s := { s with calls := Function.update s.calls thread .idle }
  if thread = loopOf c then s.invoke call c
  else s.queueInLoop (loopOf c) (.endCall call c)

/-- The functor of `stop` takes away the close callback of the next connection
and begins to close it. -/
def visit (master : T) (s : TcpServer K T) (c : Nat) : TcpServer K T :=
  { s with
    table := { s.table with
      closeCallback := Function.update s.table.closeCallback c false }
    phase := .visiting (s.phase.rest.filter (· ≠ c)) }.load master .close c

/-- The table is cleared. -/
def stopped (s : TcpServer K T) : TcpServer K T :=
  { s with
    table := { s.table with connections := fun _ => none }
    phase := .stopped
    remaining := fun loop => (s.tasks loop).length }

end TcpServer

/-- A thread makes one call at a time.  While the functor of `stop` runs, the
thread of the server does nothing else; afterwards nothing is accepted. -/
def tcpServerMachine (K : Type u) [DecidableEq K] [DecidableEq T] (master : T)
    (pairs : List T) : Machine (TcpServer K T) (TcpServerStep K T) where
  enabled s
    | .accept _ _ => s.Free master ∧ s.phase = .running ∧
        s.table.running = false
    | .load thread _ c => s.calls thread = .idle ∧ c < s.table.made.length ∧
        (thread = master → s.Free master)
    | .store thread => (s.calls thread).toStore.isSome
    | .runInLoop thread => (s.calls thread).toRun.isSome
    | .callFunctor thread => s.calls thread = .idle ∧ s.tasks thread ≠ [] ∧
        (thread = master → s.Free master)
    | .peerClose c => s.attached c = true ∧
        s.calls (getNextLoop master pairs c) = .idle ∧
        (getNextLoop master pairs c = master → s.Free master)
    | .swapRemovals => s.Free master ∧
        (serverMachine K .tcp).enabled s.table .swapFunctors
    | .callRemoval => s.Free master ∧
        (serverMachine K .tcp).enabled s.table .callFunctor
    | .returnRemovals => s.Free master ∧
        (serverMachine K .tcp).enabled s.table .returnFunctors
    | .stop => s.Free master ∧ s.phase = .running
    | .visit c => s.calls master = .idle ∧ c ∈ s.phase.rest
    | .stopped => s.calls master = .idle ∧ s.phase = .visiting []
  exec s
    | .accept key now => some (s.newConnectionInLoop master pairs key now)
    | .load thread call c => some (s.load thread call c)
    | .store thread =>
        match s.calls thread with
        | .loaded call c => some (s.store thread call c)
        | .idle | .stored _ _ => none
    | .runInLoop thread =>
        match s.calls thread with
        | .stored call c =>
            some (s.runInLoop (getNextLoop master pairs) thread call c)
        | .idle | .loaded _ _ => none
    | .callFunctor thread => s.callFunctor thread
    | .peerClose c =>
        -- the assertion of `handleCloseInLoop`
        if s.status c = .kConnected ∨ s.status c = .kDisconnecting then
          some (s.closeInLoop c)
        else none
    | .swapRemovals =>
        ((serverMachine K .tcp).exec s.table .swapFunctors).map
          fun table => { s with table := table }
    | .callRemoval =>
        ((serverMachine K .tcp).exec s.table .callFunctor).map
          fun table => { s with table := table }
    | .returnRemovals =>
        ((serverMachine K .tcp).exec s.table .returnFunctors).map
          fun table => { s with table := table }
    | .stop => some { s with phase := .visiting s.stored }
    | .visit c => some (s.visit master c)
    | .stopped => some s.stopped

namespace TcpServer

/-- How the parts of the state fit together: functors that establish, functors
that close, and calls under way. -/
structure Wired (loopOf : Nat → T) (s : TcpServer K T) : Prop where
  made : ∀ c, s.status c ≠ .kConnecting → c < s.table.made.length
  establish : ∀ loop c, (s.tasks loop).count (.onConnectEstablished c) ≤ 1 ∧
    (.onConnectEstablished c ∈ s.tasks loop →
      loop = loopOf c ∧ s.status c = .kConnecting ∧ c < s.table.made.length)
  endCall : ∀ loop call c, .endCall call c ∈ s.tasks loop →
    loop = loopOf c ∧ s.status c ≠ .kConnecting
  calls : ∀ thread c, (s.calls thread).On c → s.status c ≠ .kConnecting
  detached : ∀ c, s.status c = .kDisconnected → s.attached c = false
  attached : ∀ c, s.attached c = true → s.status c ≠ .kConnecting

variable {loopOf : Nat → T} {master : T} {s : TcpServer K T}

/-- What is closed stays closed. -/
theorem closeInLoop_status {c d : Nat} :
    (s.closeInLoop c).status d = .kDisconnected ↔
      s.status d = .kDisconnected ∨ d = c := by
  change Function.update s.status c .kDisconnected d = .kDisconnected ↔ _
  rcases eq_or_ne d c with rfl | hne
  · simp
  · simp [hne]

/-- A connection that no functor will establish changes its status. -/
theorem Wired.changeStatus (h : s.Wired loopOf) {c : Nat}
    (hbound : c < s.table.made.length)
    (hnone : ∀ loop, .onConnectEstablished c ∉ s.tasks loop)
    {status : TcpStatus} (hstatus : status ≠ .kConnecting)
    {attached : Nat → Bool}
    (hattached : ∀ d, d ≠ c → attached d = s.attached d)
    (hdetached : status = .kDisconnected → attached c = false)
    {table : ServerTable K} (hmade : table.made = s.table.made) :
    Wired loopOf { s with
      table := table
      status := Function.update s.status c status
      attached := attached } := by
  have hkeep : ∀ d, s.status d ≠ .kConnecting →
      Function.update s.status c status d ≠ .kConnecting := by
    intro d hd
    rcases eq_or_ne d c with rfl | hne
    · rwa [Function.update_self]
    · rwa [Function.update_of_ne hne]
  constructor
  · intro d hd
    change Function.update s.status c status d ≠ .kConnecting at hd
    rcases eq_or_ne d c with rfl | hne
    · exact hmade ▸ hbound
    · rw [Function.update_of_ne hne] at hd
      exact hmade ▸ h.made d hd
  · intro loop d
    refine ⟨(h.establish loop d).1, fun hmem => ?_⟩
    obtain ⟨hloop, hconnecting, hd⟩ := (h.establish loop d).2 hmem
    have hne : d ≠ c := by
      rintro rfl
      exact hnone loop hmem
    refine ⟨hloop, ?_, hmade ▸ hd⟩
    exact (Function.update_of_ne hne ..).trans hconnecting
  · exact fun loop call d hmem =>
      (h.endCall loop call d hmem).imp_right (hkeep d)
  · exact fun thread d hon => hkeep d (h.calls thread d hon)
  · intro d hd
    change Function.update s.status c status d = .kDisconnected at hd
    rcases eq_or_ne d c with rfl | hne
    · rw [Function.update_self] at hd
      exact hdetached hd
    · rw [Function.update_of_ne hne] at hd
      exact (hattached d hne).trans (h.detached d hd)
  · intro d hd
    change Function.update s.status c status d ≠ .kConnecting
    rcases eq_or_ne d c with rfl | hne
    · rwa [Function.update_self]
    · exact hkeep d (h.attached d ((hattached d hne).symm.trans hd))

/-- A connection that was established will not be again. -/
theorem Wired.not_establishing (h : s.Wired loopOf) {c : Nat}
    (hc : s.status c ≠ .kConnecting) (loop : T) :
    .onConnectEstablished c ∉ s.tasks loop :=
  fun hmem => hc ((h.establish loop c).2 hmem).2.1

theorem Wired.establishes (h : s.Wired loopOf) {c : Nat}
    (hbound : c < s.table.made.length)
    (hnone : ∀ loop, .onConnectEstablished c ∉ s.tasks loop) :
    (s.onConnectEstablishedInLoop c).Wired loopOf := by
  refine h.changeStatus hbound hnone (by decide) (fun d hne => ?_)
    (fun hstatus => by cases hstatus) rfl
  exact Function.update_of_ne hne ..

theorem Wired.closeInLoop (h : s.Wired loopOf) {c : Nat}
    (hc : s.status c ≠ .kConnecting) : (s.closeInLoop c).Wired loopOf := by
  refine h.changeStatus (h.made c hc) (h.not_establishing hc) (by decide)
    (fun d hne => ?_) (fun _ => ?_) rfl
  · exact Function.update_of_ne hne ..
  · exact Function.update_self ..

theorem Wired.invoke (h : s.Wired loopOf) {c : Nat}
    (hc : s.status c ≠ .kConnecting) (call : EndCall) :
    (s.invoke call c).Wired loopOf := by
  cases call with
  | close => exact h.closeInLoop hc
  | shutdown => exact h

variable [DecidableEq T]

theorem Wired.setCall (h : s.Wired loopOf) (thread : T) (pc : ServerPc)
    (hpc : ∀ c, pc.On c → s.status c ≠ .kConnecting) :
    Wired loopOf { s with calls := Function.update s.calls thread pc } := by
  refine ⟨h.made, h.establish, h.endCall, fun other c hon => ?_, h.detached,
    h.attached⟩
  change (Function.update s.calls thread pc other).On c at hon
  rcases eq_or_ne other thread with rfl | hne
  · rw [Function.update_self] at hon
    exact hpc c hon
  · rw [Function.update_of_ne hne] at hon
    exact h.calls other c hon

theorem Wired.load (h : s.Wired loopOf) (thread : T) (call : EndCall)
    (c : Nat) : (s.load thread call c).Wired loopOf := by
  refine h.setCall thread _ fun d hon => ?_
  split at hon
  · cases hon
  · next hconnected =>
      obtain rfl : c = d := hon
      rw [Classical.not_not.mp hconnected]
      decide

theorem Wired.store (h : s.Wired loopOf) {thread : T} {call : EndCall}
    {c : Nat} (hcall : s.calls thread = .loaded call c) :
    (s.store thread call c).Wired loopOf := by
  have hc : s.status c ≠ .kConnecting :=
    h.calls thread c (by rw [hcall]; exact rfl)
  let t : TcpServer K T := { s with
    table := { s.table with
      closing := Function.update s.table.closing c
        (call = .close || s.table.closing c) }
    status := Function.update s.status c .kDisconnecting }
  have ht : t.Wired loopOf :=
    h.changeStatus (h.made c hc) (h.not_establishing hc) (by decide)
      (fun _ _ => rfl) (fun hstatus => by cases hstatus) rfl
  refine ht.setCall thread _ fun d hon => ?_
  obtain rfl : c = d := hon
  change Function.update s.status c .kDisconnecting c ≠ .kConnecting
  rw [Function.update_self]
  decide

theorem mem_queueInLoop {loop other : T} {task queued : LoopTask} :
    task ∈ (s.queueInLoop loop queued).tasks other ↔
      task ∈ s.tasks other ∨ other = loop ∧ task = queued := by
  change task ∈ Function.update s.tasks loop (s.tasks loop ++ [queued]) other ↔
    _
  rcases eq_or_ne other loop with rfl | hne
  · simp
  · simp [hne]

theorem Wired.queueEndCall (h : s.Wired loopOf) {c : Nat}
    (hc : s.status c ≠ .kConnecting) (call : EndCall) :
    (s.queueInLoop (loopOf c) (.endCall call c)).Wired loopOf := by
  refine ⟨h.made, fun other d => ⟨?_, fun hmem => ?_⟩,
    fun other call' d hmem => ?_, h.calls, h.detached, h.attached⟩
  · change (Function.update s.tasks (loopOf c) _ other).count _ ≤ 1
    rcases eq_or_ne other (loopOf c) with rfl | hne
    · rw [Function.update_self, List.count_append,
        List.count_singleton, if_neg (by simp)]
      exact (h.establish (loopOf c) d).1
    · rw [Function.update_of_ne hne]
      exact (h.establish other d).1
  · rcases mem_queueInLoop.mp hmem with hold | ⟨_, hnew⟩
    · exact (h.establish other d).2 hold
    · cases hnew
  · rcases mem_queueInLoop.mp hmem with hold | ⟨hother, hnew⟩
    · exact h.endCall other call' d hold
    · cases hnew
      exact ⟨hother, hc⟩

theorem Wired.runInLoop (h : s.Wired loopOf) {thread : T} {call : EndCall}
    {c : Nat} (hcall : s.calls thread = .stored call c) :
    (s.runInLoop loopOf thread call c).Wired loopOf := by
  have hc : s.status c ≠ .kConnecting :=
    h.calls thread c (by rw [hcall]; exact rfl)
  have hreturned := h.setCall thread .idle fun d hon => by cases hon
  unfold TcpServer.runInLoop
  split
  · exact hreturned.invoke hc call
  · exact hreturned.queueEndCall hc call

/-- A functor that is called leaves the queue. -/
theorem Wired.dequeue (h : s.Wired loopOf) {loop : T} {task : LoopTask}
    {rest : List LoopTask} (hcons : s.tasks loop = task :: rest)
    (remaining : T → Nat) :
    Wired loopOf { s with
      tasks := Function.update s.tasks loop rest
      remaining := remaining } := by
  have hsub : ∀ other, (Function.update s.tasks loop rest other).Sublist
      (s.tasks other) := by
    intro other
    rcases eq_or_ne other loop with rfl | hne
    · rw [Function.update_self, hcons]
      exact List.sublist_cons_self task rest
    · rw [Function.update_of_ne hne]
  refine ⟨h.made, fun other c => ⟨?_, fun hmem => ?_⟩,
    fun other call c hmem => ?_, h.calls, h.detached, h.attached⟩
  · exact ((hsub other).count_le _).trans (h.establish other c).1
  · exact (h.establish other c).2 ((hsub other).subset hmem)
  · exact h.endCall other call c ((hsub other).subset hmem)

/-- There was only one functor that establishes the connection. -/
theorem Wired.not_mem_establish (h : s.Wired loopOf) {loop : T} {c : Nat}
    {rest : List LoopTask}
    (hcons : s.tasks loop = .onConnectEstablished c :: rest) (other : T) :
    .onConnectEstablished c ∉ Function.update s.tasks loop rest other := by
  obtain ⟨hcount, hmem⟩ := h.establish loop c
  have hloop := (hmem (by simp [hcons])).1
  intro hother
  rcases eq_or_ne other loop with rfl | hne
  · rw [Function.update_self] at hother
    rw [hcons, List.count_cons_self] at hcount
    have hpos := List.count_pos_iff.mpr hother
    omega
  · rw [Function.update_of_ne hne] at hother
    exact hne (((h.establish other c).2 hother).1.trans hloop.symm)

/-- The call of a functor, with what it does to the connection. -/
theorem Wired.callFunctor_spec (h : s.Wired loopOf) {loop : T}
    {task : LoopTask} {rest : List LoopTask}
    (hcons : s.tasks loop = task :: rest) :
    ∃ s', s.callFunctor loop = some s' ∧ s'.Wired loopOf ∧
      s'.phase = s.phase ∧ s'.table.made = s.table.made ∧
      s'.calls = s.calls ∧ s'.tasks = Function.update s.tasks loop rest ∧
      s'.remaining =
        Function.update s.remaining loop (s.remaining loop - 1) ∧
      ∀ c, s'.status c = .kDisconnected ↔
        s.status c = .kDisconnected ∨ task = .endCall .close c := by
  have hdequeued := h.dequeue hcons
    (Function.update s.remaining loop (s.remaining loop - 1))
  unfold TcpServer.callFunctor
  rw [hcons]
  cases task with
  | onConnectEstablished c =>
      obtain ⟨_, hconnecting, hbound⟩ :=
        (h.establish loop c).2 (by simp [hcons])
      refine ⟨_, rfl, hdequeued.establishes hbound (h.not_mem_establish hcons),
        rfl, rfl, rfl, rfl, rfl, fun d => ?_⟩
      change Function.update s.status c .kConnected d = .kDisconnected ↔ _
      rcases eq_or_ne d c with rfl | hne
      · simp [hconnecting]
      · simp [hne]
  | endCall call c =>
      have hc := (h.endCall loop call c (by simp [hcons])).2
      refine ⟨_, rfl, hdequeued.invoke hc call, ?_⟩
      cases call with
      | shutdown => exact ⟨rfl, rfl, rfl, rfl, rfl, fun d => by simp [TcpServer.invoke]⟩
      | close =>
          refine ⟨rfl, rfl, rfl, rfl, rfl, fun d => ?_⟩
          refine (closeInLoop_status (s := s)).trans (or_congr_right ?_)
          simp [eq_comm]

theorem Wired.newConnectionInLoop [DecidableEq K] {pairs : List T}
    (h : s.Wired (getNextLoop master pairs)) (key : K) (now : Int) :
    (s.newConnectionInLoop master pairs key now).Wired
      (getNextLoop master pairs) := by
  have hmade : (s.newConnectionInLoop master pairs key now).table.made =
      s.table.made ++ [key] := rfl
  have hold : ∀ {d : Nat}, d < s.table.made.length →
      (s.newConnectionInLoop master pairs key now).status d = s.status d :=
    fun hd => Function.update_of_ne (Nat.ne_of_lt hd) ..
  have hkeep : ∀ d, s.status d ≠ .kConnecting →
      (s.newConnectionInLoop master pairs key now).status d ≠ .kConnecting :=
    fun d hd => hold (h.made d hd) ▸ hd
  refine ⟨fun d hd => ?_, fun loop d => ⟨?_, fun hmem => ?_⟩,
    fun loop call d hmem => ?_,
    fun thread d hon => hkeep d (h.calls thread d hon), fun d hd => ?_,
    fun d hd => ?_⟩
  · rw [hmade, List.length_append, List.length_singleton]
    change Function.update s.status _ .kConnecting d ≠ .kConnecting at hd
    rcases eq_or_ne d s.table.made.length with rfl | hne
    · exact Nat.lt_succ_self _
    · rw [Function.update_of_ne hne] at hd
      exact Nat.lt_succ_of_lt (h.made d hd)
  · change (Function.update s.tasks _ _ loop).count _ ≤ 1
    rcases eq_or_ne loop (getNextLoop master pairs s.table.made.length) with
      rfl | hne
    · rw [Function.update_self, List.count_append, List.count_singleton]
      split
      · next heq =>
          have hnot : .onConnectEstablished d ∉
              s.tasks (getNextLoop master pairs s.table.made.length) := by
            intro hmem
            have hd := ((h.establish _ d).2 hmem).2.2
            simp only [beq_iff_eq, LoopTask.onConnectEstablished.injEq] at heq
            omega
          rw [List.count_eq_zero_of_not_mem hnot]
      · exact (h.establish _ d).1
    · rw [Function.update_of_ne hne]
      exact (h.establish loop d).1
  · rw [hmade, List.length_append, List.length_singleton]
    rcases mem_queueInLoop.mp hmem with hmem | ⟨rfl, heq⟩
    · obtain ⟨hloop, hconnecting, hd⟩ := (h.establish loop d).2 hmem
      exact ⟨hloop, (hold hd).trans hconnecting, Nat.lt_succ_of_lt hd⟩
    · cases heq
      exact ⟨rfl, Function.update_self .., Nat.lt_succ_self _⟩
  · rcases mem_queueInLoop.mp hmem with hmem | ⟨_, heq⟩
    · exact (h.endCall loop call d hmem).imp_right (hkeep d)
    · cases heq
  · change Function.update s.status _ .kConnecting d = .kDisconnected at hd
    change Function.update s.attached _ false d = false
    rcases eq_or_ne d s.table.made.length with rfl | hne
    · exact Function.update_self ..
    · rw [Function.update_of_ne hne] at hd ⊢
      exact h.detached d hd
  · change Function.update s.attached _ false d = true at hd
    rcases eq_or_ne d s.table.made.length with rfl | hne
    · rw [Function.update_self] at hd
      cases hd
    · rw [Function.update_of_ne hne] at hd
      exact hkeep d (h.attached d hd)

omit [DecidableEq T] in
theorem Wired.setTable (h : s.Wired loopOf) {table : ServerTable K}
    (hmade : table.made = s.table.made) :
    Wired loopOf { s with table := table } := by
  refine ⟨fun c hc => hmade ▸ h.made c hc, fun loop c => ?_, h.endCall,
    h.calls, h.detached, h.attached⟩
  refine ⟨(h.establish loop c).1, fun hmem => ?_⟩
  obtain ⟨hloop, hconnecting, hc⟩ := (h.establish loop c).2 hmem
  exact ⟨hloop, hconnecting, hmade ▸ hc⟩

variable [DecidableEq K] {pairs : List T}

/-- What a removal leaves of the server. -/
theorem removeConnectionInLoop_made (table : ServerTable K) (c : Nat) :
    (table.removeConnectionInLoop c).made = table.made := by
  unfold ServerTable.removeConnectionInLoop
  dsimp only
  split
  · rfl
  · split <;> rfl

/-- A step keeps the parts of the server together. -/
theorem step_wired (h : s.Wired (getNextLoop master pairs))
    (step : TcpServerStep K T)
    (hstep : (tcpServerMachine K master pairs).enabled s step) :
    ∃ s', (tcpServerMachine K master pairs).exec s step = some s' ∧
      s'.Wired (getNextLoop master pairs) := by
  cases step with
  | accept key now => exact ⟨_, rfl, h.newConnectionInLoop key now⟩
  | load thread call c => exact ⟨_, rfl, h.load thread call c⟩
  | store thread =>
      obtain ⟨call, c, hcall⟩ : ∃ call c, s.calls thread = .loaded call c := by
        change (s.calls thread).toStore.isSome at hstep
        cases hcall : s.calls thread with
        | loaded call c => exact ⟨call, c, rfl⟩
        | idle => rw [hcall] at hstep; cases hstep
        | stored call c => rw [hcall] at hstep; cases hstep
      refine ⟨s.store thread call c, ?_, h.store hcall⟩
      simp only [tcpServerMachine, hcall]
  | runInLoop thread =>
      obtain ⟨call, c, hcall⟩ : ∃ call c, s.calls thread = .stored call c := by
        change (s.calls thread).toRun.isSome at hstep
        cases hcall : s.calls thread with
        | stored call c => exact ⟨call, c, rfl⟩
        | idle => rw [hcall] at hstep; cases hstep
        | loaded call c => rw [hcall] at hstep; cases hstep
      refine ⟨s.runInLoop (getNextLoop master pairs) thread call c, ?_,
        h.runInLoop hcall⟩
      simp only [tcpServerMachine, hcall]
  | callFunctor thread =>
      obtain ⟨task, rest, hcons⟩ := List.exists_cons_of_ne_nil hstep.2.1
      obtain ⟨s', hcall, hwired, _⟩ := h.callFunctor_spec hcons
      exact ⟨s', hcall, hwired⟩
  | peerClose c =>
      have hc := h.attached c hstep.1
      have hopen : s.status c = .kConnected ∨
          s.status c = .kDisconnecting := by
        cases hstatus : s.status c with
        | kConnecting => exact absurd hstatus hc
        | kConnected => exact Or.inl rfl
        | kDisconnecting => exact Or.inr rfl
        | kDisconnected =>
            have hattached := hstep.1
            rw [h.detached c hstatus] at hattached
            cases hattached
      exact ⟨_, if_pos hopen, h.closeInLoop hc⟩
  | swapRemovals => exact ⟨_, rfl, h.setTable rfl⟩
  | callRemoval =>
      obtain ⟨c, rest, hcons⟩ := List.exists_cons_of_ne_nil hstep.2.2
      have hmade := removeConnectionInLoop_made
        { s.table with functors := { s.table.functors with batch := rest } } c
      refine ⟨_, ?_, h.setTable hmade⟩
      simp only [tcpServerMachine, ServerTable.callFunctor_exec hcons,
        Option.map_some]
  | returnRemovals => exact ⟨_, rfl, h.setTable rfl⟩
  | stop =>
      exact ⟨_, rfl, h.made, h.establish, h.endCall, h.calls, h.detached,
        h.attached⟩
  | visit c =>
      let t : TcpServer K T := { s with
        table := { s.table with
          closeCallback := Function.update s.table.closeCallback c false }
        phase := .visiting (s.phase.rest.filter (· ≠ c)) }
      have ht : t.Wired (getNextLoop master pairs) :=
        ⟨h.made, h.establish, h.endCall, h.calls, h.detached, h.attached⟩
      exact ⟨_, rfl, ht.load master .close c⟩
  | stopped =>
      exact ⟨_, rfl, h.made, h.establish, h.endCall, h.calls, h.detached,
        h.attached⟩

omit [DecidableEq T] [DecidableEq K] in
theorem start_wired : (start : TcpServer K T).Wired loopOf := by
  refine ⟨fun c hc => absurd rfl hc, fun loop c => ⟨?_, fun hmem => ?_⟩,
    fun loop call c hmem => ?_, fun thread c hon => ?_, fun c hc => ?_,
    fun c hc => ?_⟩
  · exact Nat.zero_le 1
  all_goals contradiction

instance (master : T) (s : TcpServer K T) : Decidable (s.Free master) :=
  inferInstanceAs (Decidable
    (s.calls master = .idle ∧ s.phase.isVisiting = false))

end TcpServer

instance [DecidableEq K] [DecidableEq T] (master : T) (pairs : List T)
    (s : TcpServer K T) (step : TcpServerStep K T) :
    Decidable ((tcpServerMachine K master pairs).enabled s step) :=
  match step with
  | .accept _ _ => inferInstanceAs (Decidable (s.Free master ∧
      s.phase = .running ∧ s.table.running = false))
  | .load thread _ c => inferInstanceAs (Decidable
      (s.calls thread = .idle ∧ c < s.table.made.length ∧
        (thread = master → s.Free master)))
  | .store thread => inferInstanceAs
      (Decidable ((s.calls thread).toStore.isSome = true))
  | .runInLoop thread => inferInstanceAs
      (Decidable ((s.calls thread).toRun.isSome = true))
  | .callFunctor thread => inferInstanceAs (Decidable
      (s.calls thread = .idle ∧ s.tasks thread ≠ [] ∧
        (thread = master → s.Free master)))
  | .peerClose c => inferInstanceAs (Decidable (s.attached c = true ∧
      s.calls (getNextLoop master pairs c) = .idle ∧
      (getNextLoop master pairs c = master → s.Free master)))
  | .swapRemovals => inferInstanceAs (Decidable (s.Free master ∧
      (serverMachine K .tcp).enabled s.table .swapFunctors))
  | .callRemoval => inferInstanceAs (Decidable (s.Free master ∧
      (serverMachine K .tcp).enabled s.table .callFunctor))
  | .returnRemovals => inferInstanceAs (Decidable (s.Free master ∧
      (serverMachine K .tcp).enabled s.table .returnFunctors))
  | .stop => inferInstanceAs
      (Decidable (s.Free master ∧ s.phase = .running))
  | .visit c => inferInstanceAs
      (Decidable (s.calls master = .idle ∧ c ∈ s.phase.rest))
  | .stopped => inferInstanceAs
      (Decidable (s.calls master = .idle ∧ s.phase = .visiting []))

end Libsaf
