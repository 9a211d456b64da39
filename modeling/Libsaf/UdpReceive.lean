/-
The read event of `saf::UdpAcceptor`.  It does not look at what `readFrom`
returns: a `recvfrom` that fails is passed on like a datagram, with the address
as it was constructed and whatever the buffer holds.
-/
import Libsaf.UdpServer

namespace Libsaf

universe u v

variable {K : Type u} {T : Type v} [DecidableEq K] [DecidableEq T]

namespace UdpServer

/-- `UdpAcceptor::handleReadInLoop`.  `received` is a datagram with the key of
its sender, or nothing when `recvfrom` returns -1; `noPeer` is the key of an
address as it is constructed. -/
def handleReadEvent (config : UdpServerConfig T) (noPeer : K)
    (recvMessageCallback : Bool) (s : UdpServer K T)
    (received : Option (K × List UInt8)) (now : Int) :
    Option (UdpServer K T) :=
  (s.inputBuffer.readFromFd (received.map Prod.snd)).bind fun read =>
    let datagrams : List (Datagram K) :=
      received.toList.map fun r => ⟨r.1, r.2, now⟩
    let s := { s with
      inputBuffer := read.2
      clock := now
      received := s.received ++ datagrams }
    let peerAddr := (received.map Prod.fst).getD noPeer
    (if recvMessageCallback then s.recvMessageInLoop config peerAddr now
      else some s).map fun s =>
        { s with inputBuffer := s.inputBuffer.retrieveAll }

/-- With a datagram it is the step of the running server. -/
theorem handleReadEvent_received (config : UdpServerConfig T) (noPeer key : K)
    (s : UdpServer K T) (data : List UInt8) (now : Int) :
    s.handleReadEvent config noPeer true (some (key, data)) now =
      s.recvDatagram config key data now := by
  simp only [handleReadEvent, recvDatagram, Option.map_some, Option.getD_some,
    Buffer.readFromFd, Option.bind_map, if_pos]
  rfl

/-- Nothing happened: the table, the connections that were ever made, and what
is queued on any loop are the same, and the buffer is empty. -/
structure Untouched (s s' : UdpServer K T) : Prop where
  connections : s'.table.connections = s.table.connections
  made : s'.table.made = s.table.made
  tasks : s'.tasks = s.tasks
  functors : s'.table.functors = s.table.functors
  buffer : s'.inputBuffer.asString = []

variable {config : UdpServerConfig T} {s s' : UdpServer K T}

omit [DecidableEq K] in
theorem tasks_prefix_queueInLoop (s : UdpServer K T) (loop other : T)
    (task : UdpTask) :
    s.tasks other <+: (s.queueInLoop loop task).tasks other := by
  by_cases heq : other = loop
  · subst heq
    exact ⟨[task], by simp [queueInLoop]⟩
  · exact ⟨[], by simp [queueInLoop, Function.update_of_ne heq]⟩

/-- Finding the connection of a peer takes nothing off a loop. -/
theorem tasks_prefix_connectionOf (config : UdpServerConfig T)
    (s : UdpServer K T) (key : K) (now : Int) (loop : T) :
    s.tasks loop <+: (s.connectionOf config key now).2.tasks loop := by
  unfold connectionOf
  split
  · exact List.prefix_rfl
  · exact tasks_prefix_queueInLoop { s with
      table := s.table.newConnectionInLoop key now
      conns := Function.update s.conns s.table.made.length
        (UdpConnection.ofAddr.bindDefaultCallbacks config.fd config.recvMessage
          config.writeComplete config.connectChange) } _ loop _

/-- The callback queues one functor more, which reads what the buffer held. -/
theorem recvMessageInLoop_queues (config : UdpServerConfig T)
    (s : UdpServer K T) (key : K) (now : Int) :
    ∃ s' c front data, s.recvMessageInLoop config key now = some s' ∧
      s.tasks (config.loopOf c) <+: front ∧
      s'.tasks (config.loopOf c) = front ++ [.handleRead c data now] := by
  let t := (s.connectionOf config key now).2
  let c := (s.connectionOf config key now).1
  let data := t.inputBuffer.asString.take t.inputBuffer.readableBytes
  obtain ⟨inputBuffer, hretrieve, _⟩ :=
    t.inputBuffer.retrieveAsString_spec (Nat.le_refl _)
  let u : UdpServer K T := { t with inputBuffer := inputBuffer }
  refine ⟨u.queueInLoop (config.loopOf c) (.handleRead c data now), c,
    t.tasks (config.loopOf c), data, ?_,
    tasks_prefix_connectionOf config s key now _, ?_⟩
  · rw [recvMessageInLoop]
    exact Option.map_eq_some_iff.mpr ⟨_, hretrieve, rfl⟩
  · simp [queueInLoop, u]

/-- With the callback a `recvfrom` that fails queues a functor, as a datagram
would. -/
theorem failed_receive_queues (config : UdpServerConfig T) (noPeer : K)
    (s : UdpServer K T) (now : Int) :
    ∃ s' c front data, s.handleReadEvent config noPeer true none now = some s' ∧
      s.tasks (config.loopOf c) <+: front ∧
      s'.tasks (config.loopOf c) = front ++ [.handleRead c data now] := by
  obtain ⟨buffer, hread, _⟩ := s.inputBuffer.readFromFd_none
  obtain ⟨s', c, front, data, hrecv, hfront, htasks⟩ := recvMessageInLoop_queues
    config { s with
      inputBuffer := buffer
      clock := now
      received := s.received ++ [] } noPeer now
  refine ⟨{ s' with inputBuffer := s'.inputBuffer.retrieveAll }, c, front, data,
    ?_, hfront, htasks⟩
  rw [handleReadEvent, Option.map_none, hread]
  exact Option.map_eq_some_iff.mpr ⟨s', hrecv, rfl⟩

omit [DecidableEq K] [DecidableEq T] in
/-- What was queued shows. -/
theorem not_untouched {loop : T} {front : List UdpTask} {task : UdpTask}
    (hfront : s.tasks loop <+: front) (htasks : s'.tasks loop = front ++ [task]) :
    ¬ s.Untouched s' := by
  intro h
  have hlength := hfront.length_le
  rw [← h.tasks, htasks, List.length_append, List.length_singleton] at hlength
  omega

/-- A `recvfrom` that fails changes nothing, and leaves the buffer empty, if and
only if the acceptor has no callback to pass it on to. -/
theorem failed_receive_iff (config : UdpServerConfig T) (noPeer : K)
    (recvMessageCallback : Bool) (s : UdpServer K T) (now : Int) :
    (∃ s', s.handleReadEvent config noPeer recvMessageCallback none now =
        some s' ∧ s.Untouched s') ↔ recvMessageCallback = false := by
  cases recvMessageCallback with
  | true =>
      obtain ⟨t, c, front, data, hexec, hfront, htasks⟩ :=
        failed_receive_queues config noPeer s now
      constructor
      · rintro ⟨s', hexec', hs'⟩
        obtain rfl : t = s' := Option.some.inj (hexec.symm.trans hexec')
        exact absurd hs' (not_untouched hfront htasks)
      · intro h
        cases h
  | false =>
      obtain ⟨buffer, hread, _⟩ := s.inputBuffer.readFromFd_none
      refine ⟨fun _ => rfl, fun _ => ⟨{ s with
        inputBuffer := buffer.retrieveAll
        clock := now
        received := s.received ++ [] }, ?_, rfl, rfl, rfl, rfl, rfl⟩⟩
      rw [handleReadEvent, Option.map_none, hread]
      rfl

/-- Where nobody has the address of no peer, a connection is made for it, and
gets what the buffer holds as a message. -/
theorem failed_receive_connects {noPeer : K} (now : Int)
    (hnone : s.table.connections noPeer = none) :
    ∃ s', s.handleReadEvent config noPeer true none now = some s' ∧
      s'.table.connections noPeer = some s.table.made.length ∧
      s'.tasks (config.loopOf s.table.made.length) =
        s.tasks (config.loopOf s.table.made.length) ++
          [.onConnectEstablished s.table.made.length,
            .handleRead s.table.made.length s.inputBuffer.asString now] := by
  obtain ⟨buffer, hread, hcontent⟩ := s.inputBuffer.readFromFd_none
  obtain ⟨inputBuffer, hretrieve, _⟩ :=
    buffer.retrieveAsString_spec (Nat.le_refl _)
  have hall : buffer.asString.take buffer.readableBytes =
      s.inputBuffer.asString := by
    rw [← hcontent, ← Buffer.length_asString, List.take_length]
  rw [hall] at hretrieve
  let c := s.table.made.length
  let t : UdpServer K T := { s with
    inputBuffer := buffer
    clock := now
    received := s.received ++ [] }
  let made : UdpServer K T := UdpServer.queueInLoop { t with
    table := s.table.newConnectionInLoop noPeer now
    conns := Function.update s.conns c
      (UdpConnection.ofAddr.bindDefaultCallbacks config.fd config.recvMessage
        config.writeComplete config.connectChange) }
    (config.loopOf c) (.onConnectEstablished c)
  have hmade : t.connectionOf config noPeer now = (c, made) := by
    simp [connectionOf, t, made, c, hnone]
  let received : UdpServer K T := UdpServer.queueInLoop { made with
    inputBuffer := inputBuffer } (config.loopOf c) (.handleRead c s.inputBuffer.asString now)
  have hrecv : t.recvMessageInLoop config noPeer now = some received := by
    rw [recvMessageInLoop, hmade]
    exact Option.map_eq_some_iff.mpr ⟨_, hretrieve, rfl⟩
  refine ⟨{ received with inputBuffer := inputBuffer.retrieveAll }, ?_, ?_, ?_⟩
  · rw [handleReadEvent, Option.map_none, hread]
    exact Option.map_eq_some_iff.mpr ⟨received, hrecv, rfl⟩
  · exact Function.update_self ..
  · simp [received, made, queueInLoop, t, c]

/-- The first event of a server, which finds no datagram. -/
theorem failed_receive_start :
    ∃ s', handleReadEvent .oneWorker "0.0.0.0:0" true start none 7 = some s' ∧
      s'.table.connections "0.0.0.0:0" = some 0 ∧
      s'.tasks true = [.onConnectEstablished 0, .handleRead 0 [] 7] ∧
      ¬ start.Untouched s' := by
  obtain ⟨s', hexec, hconnections, htasks⟩ := @failed_receive_connects
    String Bool _ _ .oneWorker start "0.0.0.0:0" 7 rfl
  refine ⟨s', hexec, hconnections, htasks, ?_⟩
  exact not_untouched (List.prefix_append _ [.onConnectEstablished 0]) htasks

end UdpServer

end Libsaf
