/-
The output of a `saf::TcpConnection` that several threads send on.  The loop
thread writes at once, the others queue copies, and the kernel takes as much as
it likes; the stream is made of whole messages in the order in which
`sendInLoop` ran.
-/
import Libsaf.EventLoop
import Libsaf.MessageOrder
import Libsaf.TcpConnection

namespace Libsaf

universe u v

variable {I : Type u} {T : Type v}

/-- What a connection queues on its loop: a message of another thread, copied,
and the call of the write-complete callback. -/
inductive OutputFunctor (T : Type v) where
  | sendInLoop (thread : T) (copied : List UInt8)
  | writeComplete
deriving Repr, DecidableEq

/-- The message that a functor will send. -/
def OutputFunctor.message : OutputFunctor T → Option (T × List UInt8)
  | .sendInLoop thread copied => some (thread, copied)
  | .writeComplete => none

/-- A connection on its loop, with the messages sent in the order of the calls
and those that `sendInLoop` was executed for. -/
structure TcpOutput (I : Type u) (T : Type v) where
  conn : TcpConnection
  poller : EPollPoller I
  functors : FunctorQueue (OutputFunctor T)
  running : Bool
  sent : List (T × List UInt8)
  executed : List (T × List UInt8)

/-- `send` may be called at any time; a callback of the loop thread that sends
is such a step.  The result is what `write` returns if it is called. -/
inductive OutputStep (T : Type v) where
  | send (thread : T) (data : List UInt8) (result : WriteResult)
  | handleWrite (result : WriteResult)
  | swapFunctors
  | callFunctor (result : WriteResult)
  | returnFunctors
deriving Repr, DecidableEq

namespace TcpOutput

/-- The messages that wait for their functor. -/
def queued (s : TcpOutput I T) : List (T × List UInt8) :=
  s.functors.pending.filterMap OutputFunctor.message

variable [DecidableEq I]

/-- A new connection on the descriptor `fd`, established on its loop. -/
def start (loop : Nat) (addr : I) (poller : EPollPoller I) (fd : Int)
    (writeComplete connectChange close : Bool) : Option (TcpOutput I T) :=
  ((TcpConnection.ofSocket fd writeComplete connectChange
    close).onConnectEstablishedInLoop loop addr poller).map
      fun (conn, poller) => ⟨conn, poller, .empty, false, [], []⟩

/-- `sendInLoop` for the message of a thread. -/
def execute (loop : Nat) (addr : I) (s : TcpOutput I T) (thread : T)
    (data : List UInt8) (result : WriteResult) : Option (TcpOutput I T) :=
  (s.conn.sendInLoop loop addr s.poller data result).map
    fun (complete, conn, poller) => { s with
      conn := conn
      poller := poller
      functors :=
        if complete then s.functors.queueInLoop .writeComplete else s.functors
      executed := s.executed ++ [(thread, data)] }

/-- `Connection::send`. -/
def send [DecidableEq T] (loop : Nat) (addr : I) (loopThread : T)
    (s : TcpOutput I T) (thread : T) (data : List UInt8)
    (result : WriteResult) : Option (TcpOutput I T) :=
  let s := { s with sent := s.sent ++ [(thread, data)] }
  if thread = loopThread then s.execute loop addr thread data result
  else some { s with
    functors := s.functors.queueInLoop (.sendInLoop thread data) }

def handleWrite (loop : Nat) (addr : I) (s : TcpOutput I T)
    (result : WriteResult) : Option (TcpOutput I T) :=
  (s.conn.handleWriteInLoop loop addr s.poller result).map
    fun (_, conn, poller) => { s with conn := conn, poller := poller }

/-- The next functor of `runFunctors` is called. -/
def callFunctor (loop : Nat) (addr : I) (s : TcpOutput I T)
    (result : WriteResult) : Option (TcpOutput I T) :=
  s.functors.nextFunctor.bind fun (functor, functors) =>
    let s := { s with functors := functors }
    match functor with
    | .sendInLoop thread copied => s.execute loop addr thread copied result
    | .writeComplete => some s

end TcpOutput

/-- The kernel writes at most what it is given, and the peer is not gone. -/
def outputMachine [DecidableEq I] [DecidableEq T] (loop : Nat) (addr : I)
    (loopThread : T) : Machine (TcpOutput I T) (OutputStep T) where
  enabled s
    | .send _ data result => result.Fits data.length ∧ result.Alive
    | .handleWrite result =>
        s.running = false ∧ result.Fits s.conn.outputBuffer.readableBytes ∧
          result.Alive
    | .swapFunctors => s.running = false
    | .callFunctor result => s.running = true ∧ s.functors.batch ≠ [] ∧
        (∀ m ∈ s.functors.batch.head?.bind OutputFunctor.message,
          result.Fits m.2.length) ∧ result.Alive
    | .returnFunctors => s.running = true ∧ s.functors.batch = []
  exec s
    | .send thread data result =>
        s.send loop addr loopThread thread data result
    | .handleWrite result => s.handleWrite loop addr result
    | .swapFunctors => some { s with
        functors := s.functors.swapFunctors
        running := true }
    | .callFunctor result => s.callFunctor loop addr result
    | .returnFunctors => some { s with running := false }

namespace TcpOutput

/-- The kernel and the buffer hold the messages executed, in this order and
each in one piece; every message is either executed or queued; and the messages
of every thread keep their order. -/
structure Delivers [DecidableEq T] (s : TcpOutput I T) : Prop where
  stream : s.conn.accepted ++ s.conn.outputBuffer.asString =
    (s.executed.map Prod.snd).flatten
  once : (s.executed ++ s.queued).Perm s.sent
  order : ∀ thread, ofSender thread (s.executed ++ s.queued) =
    ofSender thread s.sent

variable [DecidableEq I] [DecidableEq T] {loop : Nat} {addr : I}
  {loopThread : T} {s : TcpOutput I T}

/-- What every step keeps. -/
structure Intact (loop : Nat) (addr : I) (loopThread : T)
    (s : TcpOutput I T) : Prop where
  attached : s.conn.Attached s.poller loop addr
  stream : s.conn.output = (s.executed.map Prod.snd).flatten
  messages : KeepsOrder loopThread s.executed s.queued s.sent
  idle : s.running = false → s.functors.batch = []

omit [DecidableEq I] in
theorem Intact.delivers (h : s.Intact loop addr loopThread) : s.Delivers :=
  ⟨h.stream, h.messages.once, h.messages.order⟩

omit [DecidableEq I] [DecidableEq T] in
theorem queued_queueInLoop (functors : FunctorQueue (OutputFunctor T))
    (functor : OutputFunctor T) :
    (functors.queueInLoop functor).pending.filterMap OutputFunctor.message =
      functors.pending.filterMap OutputFunctor.message ++
        functor.message.toList := by
  rw [FunctorQueue.pending_queueInLoop, List.filterMap_append]
  cases functor <;> rfl

/-- What the execution of one message changes. -/
structure Executes (loop : Nat) (addr : I) (s s' : TcpOutput I T)
    (m : T × List UInt8) : Prop where
  attached : s'.conn.Attached s'.poller loop addr
  output : s'.conn.output = s.conn.output ++ m.2
  queued : s'.queued = s.queued
  batch : s'.functors.batch = s.functors.batch
  running : s'.running = s.running
  sent : s'.sent = s.sent
  executed : s'.executed = s.executed ++ [m]

omit [DecidableEq T] in
theorem execute_spec (h : s.conn.Attached s.poller loop addr)
    (thread : T) {data : List UInt8} {result : WriteResult}
    (hfits : result.Fits data.length) (halive : result.Alive) :
    ∃ s', s.execute loop addr thread data result = some s' ∧
      s.Executes loop addr s' (thread, data) := by
  obtain ⟨complete, conn, poller, hrun, hattached, houtput⟩ :=
    h.sendInLoop hfits halive
  let functors :=
    if complete then s.functors.queueInLoop .writeComplete else s.functors
  refine ⟨⟨conn, poller, functors, s.running, s.sent,
    s.executed ++ [(thread, data)]⟩, by rw [execute, hrun]; rfl,
    hattached, houtput, ?_, ?_, rfl, rfl, rfl⟩
  · cases complete
    · rfl
    · exact (queued_queueInLoop s.functors .writeComplete).trans
        (List.append_nil _)
  · cases complete <;> rfl

omit [DecidableEq I] in
/-- An executed message keeps everything intact that the account of messages
allows. -/
theorem Executes.intact {s' : TcpOutput I T} {m : T × List UInt8}
    (h : s.Executes loop addr s' m)
    (hstream : s.conn.output = (s.executed.map Prod.snd).flatten)
    (hmessages : KeepsOrder loopThread (s.executed ++ [m]) s.queued s.sent)
    (hidle : s.running = false → s.functors.batch = []) :
    s'.Intact loop addr loopThread := by
  refine ⟨h.attached, ?_, ?_, ?_⟩
  · rw [h.output, hstream, h.executed]
    simp
  · rw [h.executed, h.queued, h.sent]
    exact hmessages
  · rw [h.running, h.batch]
    exact hidle

theorem send_step (h : s.Intact loop addr loopThread) (thread : T)
    {data : List UInt8} {result : WriteResult}
    (hfits : result.Fits data.length) (halive : result.Alive) :
    ∃ s', s.send loop addr loopThread thread data result = some s' ∧
      s'.Intact loop addr loopThread := by
  let s₁ : TcpOutput I T := { s with sent := s.sent ++ [(thread, data)] }
  by_cases hthread : thread = loopThread
  · have hattached : s₁.conn.Attached s₁.poller loop addr := h.attached
    obtain ⟨s', hrun, hexec⟩ := execute_spec hattached thread hfits halive
    refine ⟨s', by rw [send, if_pos hthread]; exact hrun, ?_⟩
    exact hexec.intact h.stream (h.messages.now hthread) h.idle
  · let s' : TcpOutput I T := { s₁ with
      functors := s.functors.queueInLoop (.sendInLoop thread data) }
    have hqueued : s'.queued = s.queued ++ [(thread, data)] :=
      queued_queueInLoop s.functors _
    refine ⟨s', by rw [send, if_neg hthread], h.attached, h.stream, ?_, h.idle⟩
    rw [hqueued]
    exact h.messages.post hthread

theorem handleWrite_step (h : s.Intact loop addr loopThread)
    {result : WriteResult}
    (hfits : result.Fits s.conn.outputBuffer.readableBytes) :
    ∃ s', s.handleWrite loop addr result = some s' ∧
      s'.Intact loop addr loopThread := by
  obtain ⟨complete, conn, poller, hrun, hattached, houtput⟩ :=
    h.attached.handleWriteInLoop hfits
  exact ⟨⟨conn, poller, s.functors, s.running, s.sent, s.executed⟩,
    by rw [handleWrite, hrun]; rfl, hattached, houtput.trans h.stream,
    h.messages, h.idle⟩

theorem callFunctor_step (h : s.Intact loop addr loopThread)
    {result : WriteResult} (hrunning : s.running = true)
    (hbatch : s.functors.batch ≠ [])
    (hfits : ∀ m ∈ s.functors.batch.head?.bind OutputFunctor.message,
      result.Fits m.2.length) (halive : result.Alive) :
    ∃ s', s.callFunctor loop addr result = some s' ∧
      s'.Intact loop addr loopThread := by
  obtain ⟨functor, rest, hcons⟩ := List.exists_cons_of_ne_nil hbatch
  let functors : FunctorQueue (OutputFunctor T) :=
    { s.functors with batch := rest }
  have hnext : s.functors.nextFunctor = some (functor, functors) := by
    rw [FunctorQueue.nextFunctor, hcons]
  have hpending : s.functors.pending = functor :: functors.pending :=
    FunctorQueue.pending_nextFunctor hnext
  let s₁ : TcpOutput I T := { s with functors := functors }
  have hidle : s₁.running = false → s₁.functors.batch = [] := by
    intro hstopped
    exact absurd (hrunning.symm.trans hstopped) (by decide)
  cases functor with
  | sendInLoop thread copied =>
      have hqueued : s.queued = (thread, copied) :: s₁.queued := by
        rw [queued, hpending]
        rfl
      have hattached : s₁.conn.Attached s₁.poller loop addr := h.attached
      have hfits' : result.Fits copied.length :=
        hfits (thread, copied) (by rw [hcons]; rfl)
      obtain ⟨s', hrun, hexec⟩ := execute_spec hattached thread hfits' halive
      refine ⟨s', by rw [callFunctor, hnext]; exact hrun, ?_⟩
      exact hexec.intact h.stream (hqueued ▸ h.messages).run hidle
  | writeComplete =>
      have hqueued : s.queued = s₁.queued := by
        rw [queued, hpending]
        rfl
      exact ⟨s₁, by rw [callFunctor, hnext]; rfl, h.attached, h.stream,
        hqueued ▸ h.messages, hidle⟩

theorem intact_step (h : s.Intact loop addr loopThread) (step : OutputStep T)
    (hstep : (outputMachine loop addr loopThread).enabled s step) :
    ∃ s', (outputMachine loop addr loopThread).exec s step = some s' ∧
      s'.Intact loop addr loopThread := by
  cases step with
  | send thread data result => exact send_step h thread hstep.1 hstep.2
  | handleWrite result => exact handleWrite_step h hstep.2.1
  | swapFunctors =>
      refine ⟨_, rfl, h.attached, h.stream, ?_, fun hrunning => by cases hrunning⟩
      change KeepsOrder loopThread s.executed
        (s.functors.swapFunctors.pending.filterMap OutputFunctor.message) s.sent
      rw [FunctorQueue.pending_swapFunctors (h.idle hstep)]
      exact h.messages
  | callFunctor result =>
      obtain ⟨hrunning, hbatch, hfits, halive⟩ := hstep
      exact callFunctor_step h hrunning hbatch hfits halive
  | returnFunctors =>
      exact ⟨_, rfl, h.attached, h.stream, h.messages, fun _ => hstep.2⟩

end TcpOutput

/-- An established connection has sent nothing, on a poller that did not know
its descriptor. -/
theorem TcpOutput.start_intact [DecidableEq I] [DecidableEq T] {loop : Nat}
    {addr : I} (loopThread : T) {poller : EPollPoller I} {fd : Int}
    {writeComplete connectChange close : Bool} (hfds : poller.fds fd = none)
    (hinterest : poller.interest fd = none) {s : TcpOutput I T}
    (hs : TcpOutput.start loop addr poller fd writeComplete connectChange close =
      some s) : s.Intact loop addr loopThread := by
  have hwired : poller.Wired loop addr (IOFd.ofFd fd) := by
    constructor <;> simp [IOFd.ofFd, hfds, hinterest]
  obtain ⟨socket, p', hrun, hattached, _⟩ :=
    TcpConnection.onConnectEstablishedInLoop_spec
      (c := TcpConnection.ofSocket fd writeComplete connectChange close) hwired
  rw [TcpOutput.start, hrun, Option.map_some, Option.some.injEq] at hs
  rw [← hs]
  exact ⟨hattached, rfl, KeepsOrder.nil, fun _ => rfl⟩

/-- Output stream of a connection.  In every state of every interleaving of
sends, functors and writable events, with any short or failed writes, what left
for the kernel and what waits in the buffer are the whole messages in the order
of their execution, and no message is lost, repeated or overtaken by a later
one of its thread. -/
theorem tcp_output_delivers [DecidableEq I] [DecidableEq T] {loop : Nat}
    {addr : I} (loopThread : T) {poller : EPollPoller I} {fd : Int}
    {writeComplete connectChange close : Bool} (hfds : poller.fds fd = none)
    (hinterest : poller.interest fd = none) {s : TcpOutput I T}
    (hs : TcpOutput.start loop addr poller fd writeComplete connectChange close =
      some s)
    (word : List (OutputStep T))
    (hlegal : (outputMachine loop addr loopThread).Legal s word) :
    (outputMachine loop addr loopThread).Holds TcpOutput.Delivers s word := by
  have hrun : (outputMachine loop addr loopThread).Holds
      (TcpOutput.Intact loop addr loopThread) s word :=
    Machine.holds_of_step (fun s step hs hstep =>
      TcpOutput.intact_step hs step hstep)
      (TcpOutput.start_intact loopThread hfds hinterest hs) hlegal
  exact hrun.mono fun s hs => hs.delivers

instance (length : Nat) (result : WriteResult) :
    Decidable (result.Fits length) :=
  match result with
  | .wrote n => inferInstanceAs (Decidable (n ≤ length))
  | .failed _ => isTrue trivial

instance (result : WriteResult) : Decidable result.Alive :=
  match result with
  | .wrote _ => isTrue trivial
  | .failed errno => inferInstanceAs
      (Decidable (errno ≠ EPIPE ∧ errno ≠ ECONNRESET))

instance [DecidableEq I] [DecidableEq T] (loop : Nat) (addr : I)
    (loopThread : T) (s : TcpOutput I T) (step : OutputStep T) :
    Decidable ((outputMachine loop addr loopThread).enabled s step) :=
  match step with
  | .send _ data result => inferInstanceAs
      (Decidable (result.Fits data.length ∧ result.Alive))
  | .handleWrite result => inferInstanceAs
      (Decidable (s.running = false ∧
        result.Fits s.conn.outputBuffer.readableBytes ∧ result.Alive))
  | .swapFunctors => inferInstanceAs (Decidable (s.running = false))
  | .callFunctor result => inferInstanceAs
      (Decidable (s.running = true ∧ s.functors.batch ≠ [] ∧
        (∀ m ∈ s.functors.batch.head?.bind OutputFunctor.message,
          result.Fits m.2.length) ∧ result.Alive))
  | .returnFunctors => inferInstanceAs
      (Decidable (s.running = true ∧ s.functors.batch = []))

/-- The loop thread `true` and another one send; a write stops short, and one
is interrupted. -/
theorem tcp_output_delivers_short :
    (outputMachine 0 () true).Holds TcpOutput.Delivers
      ((TcpOutput.start 0 () .empty 7 true false false).get rfl)
      [.send false [1, 2] (.wrote 0), .send true [3, 4, 5] (.wrote 1),
        .swapFunctors, .callFunctor (.wrote 0), .returnFunctors,
        .handleWrite (.wrote 3), .handleWrite (.failed 4),
        .send true [6] (.wrote 1)] :=
  tcp_output_delivers true rfl rfl (Option.some_get _).symm _
    (by decide +kernel)

end Libsaf
