/-
The session of the ping-pong example: a client that sends its message when it
is connected, a server that sends back what it reads, and a client that does the
same from then on.  The bytes between the two ends go round and are never lost,
repeated or reordered, however the kernel cuts the reads and the writes.
-/
import Libsaf.BufferRead
import Libsaf.MachineInt
import Libsaf.TcpOutput
import Mathlib.Data.List.Rotate

namespace Libsaf

universe u

section Period

variable {α : Type u}

/-- What follows `d` in its own repetition after `m` is `m`, rotated. -/
theorem rotate_of_append_eq {d c m : List α} (h : d ++ c = m ++ d) :
    c = m.rotate d.length := by
  induction hlen : d.length using Nat.strongRecOn generalizing d with
  | _ n ih =>
      subst hlen
      rcases List.append_eq_append_iff.mp h with ⟨t, hm, hc⟩ | ⟨t, hd, ht⟩
      · rw [hm, List.rotate_append_length_eq, hc]
      · by_cases hempty : m = []
        · rw [hempty] at h ⊢
          rw [List.rotate_nil]
          simpa using h
        · have hshort : t.length < d.length := by
            rw [hd, List.length_append]
            have := List.length_pos_iff.mpr hempty
            omega
          have hback : t ++ c = m ++ t := by rw [← ht, hd]
          rw [ih t.length hshort hback rfl, hd, List.length_append,
            ← List.rotate_rotate, List.rotate_length]

/-- Such a word has the period of `m`. -/
theorem getElem?_of_append_eq {d c m : List α} (hm : m ≠ [])
    (h : d ++ c = m ++ d) {i : Nat} (hi : i < d.length) :
    d[i]? = m[i % m.length]? := by
  induction i using Nat.strongRecOn with
  | _ i ih =>
      have hat : d[i]? = (m ++ d)[i]? := by
        rw [← h, List.getElem?_append_left hi]
      have hpos := List.length_pos_iff.mpr hm
      by_cases hfirst : i < m.length
      · rw [hat, List.getElem?_append_left hfirst, Nat.mod_eq_of_lt hfirst]
      · rw [hat, List.getElem?_append_right (Nat.not_lt.mp hfirst),
          ih (i - m.length) (by omega) (by omega),
          Nat.mod_eq_sub_mod (Nat.not_lt.mp hfirst)]

end Period

variable {I : Type u} [DecidableEq I]

namespace TcpConnection

/-- While output is written and kept, the status and the interest in reading
stay, and the kernel only takes more. -/
structure Continues (c c' : TcpConnection) : Prop where
  status : c'.status = c.status
  reading : c'.socket.isReading = c.socket.isReading
  accepted : c.accepted <+: c'.accepted

variable {p p' : EPollPoller I} {loop : Nat} {addr : I} {c c' : TcpConnection}

omit [DecidableEq I] in
theorem Continues.refl (c : TcpConnection) : c.Continues c :=
  ⟨rfl, rfl, List.prefix_refl _⟩

theorem Attached.enableWrite_continues (h : c.Attached p loop addr)
    (hrun : c.enableWrite loop addr p = some (c', p')) : c.Continues c' := by
  obtain ⟨status, q, henable, _⟩ :=
    h.wired.enable h.looper (show IOFd.kWriteEvent ≠ 0#32 by decide)
  simp only [TcpConnection.enableWrite, IOFd.enableWriteInLoop, henable,
    Option.bind_eq_bind, Option.bind_some, Option.pure_def, Option.some.injEq,
    Prod.mk.injEq] at hrun
  obtain ⟨rfl, rfl⟩ := hrun
  refine ⟨rfl, ?_, List.prefix_refl _⟩
  simp only [IOFd.isReading]
  rw [IOFd.enabled_and_of_disjoint _ (by decide)]

theorem Attached.disableWrite_continues (h : c.Attached p loop addr)
    (hrun : c.disableWrite loop addr p = some (c', p')) : c.Continues c' := by
  obtain ⟨status, q, hdisable, _⟩ := h.wired.disable h.looper IOFd.kWriteEvent
  simp only [TcpConnection.disableWrite, IOFd.disableWriteInLoop, hdisable,
    Option.bind_eq_bind, Option.bind_some, Option.pure_def, Option.some.injEq,
    Prod.mk.injEq] at hrun
  obtain ⟨rfl, rfl⟩ := hrun
  refine ⟨rfl, ?_, List.prefix_refl _⟩
  simp only [IOFd.isReading]
  split
  · rw [BitVec.and_assoc,
      show ~~~IOFd.kWriteEvent &&& IOFd.kReadEvent = IOFd.kReadEvent by decide]
  · rfl

theorem Attached.keepOutput_continues (h : c.Attached p loop addr)
    {remaining : List UInt8}
    (hrun : c.keepOutput loop addr p remaining = some (c', p')) :
    c.Continues c' := by
  unfold TcpConnection.keepOutput at hrun
  split at hrun
  · obtain ⟨buffer, _, hrun⟩ := Option.bind_eq_some_iff.mp hrun
    dsimp only at hrun
    split at hrun
    · have hattached : Attached { c with outputBuffer := buffer } p loop addr :=
        ⟨h.wired, h.looper⟩
      have hcont := hattached.enableWrite_continues hrun
      exact ⟨hcont.status, hcont.reading, hcont.accepted⟩
    · obtain ⟨rfl, rfl⟩ := Prod.mk.inj (Option.some.inj hrun)
      exact ⟨rfl, rfl, List.prefix_refl _⟩
  · obtain ⟨rfl, rfl⟩ := Prod.mk.inj (Option.some.inj hrun)
    exact .refl c

omit [DecidableEq I] in
theorem Continues.trans {c'' : TcpConnection} (h : c.Continues c')
    (h' : c'.Continues c'') : c.Continues c'' :=
  ⟨h'.status.trans h.status, h'.reading.trans h.reading,
    h.accepted.trans h'.accepted⟩

theorem Attached.sendInLoop_continues (h : c.Attached p loop addr)
    {data : List UInt8} {result : WriteResult} {done : Bool}
    (hrun : c.sendInLoop loop addr p data result = some (done, c', p')) :
    c.Continues c' := by
  have hkept : ∀ {remaining : List UInt8} {b : TcpConnection},
      b.Attached p loop addr → c.Continues b →
      (b.keepOutput loop addr p remaining).map (false, ·) =
        some (done, c', p') → c.Continues c' := by
    intro remaining b hb hcb hmap
    obtain ⟨⟨b', q⟩, hkeep, heq⟩ := Option.map_eq_some_iff.mp hmap
    obtain ⟨-, rfl, -⟩ : false = done ∧ b' = c' ∧ q = p' := by simpa using heq
    exact hcb.trans (hb.keepOutput_continues hkeep)
  unfold TcpConnection.sendInLoop at hrun
  split at hrun
  · cases result with
    | wrote n =>
        have hwritten : c.Continues (c.writeInLoop data (.wrote n)) :=
          ⟨rfl, rfl, List.prefix_append _ _⟩
        have hattached : (c.writeInLoop data (.wrote n)).Attached p loop addr :=
          ⟨h.wired, h.looper⟩
        generalize c.writeInLoop data (.wrote n) = b at hrun hwritten hattached
        dsimp only at hrun
        split at hrun
        · obtain ⟨-, rfl, -⟩ :
              b.writeCompleteCallback = done ∧ b = c' ∧ p = p' := by
            simpa using hrun
          exact hwritten
        · exact hkept hattached hwritten hrun
    | failed errno =>
        dsimp only at hrun
        split at hrun
        · obtain ⟨-, rfl, -⟩ : false = done ∧ c = c' ∧ p = p' := by
            simpa [writeInLoop] using hrun
          exact .refl c
        · exact hkept h (.refl c) hrun
  · exact hkept h (.refl c) hrun

theorem Attached.handleWriteInLoop_continues (h : c.Attached p loop addr)
    {result : WriteResult} {done : Bool}
    (hrun : c.handleWriteInLoop loop addr p result = some (done, c', p')) :
    c.Continues c' := by
  have hstop : ∀ {b : TcpConnection} {called : Bool}, b.Attached p loop addr →
      c.Continues b → (b.disableWrite loop addr p).map (called, ·) =
        some (done, c', p') → c.Continues c' := by
    intro b called hb hcb hmap
    obtain ⟨⟨b', q⟩, hdisable, heq⟩ := Option.map_eq_some_iff.mp hmap
    obtain ⟨-, rfl, -⟩ : called = done ∧ b' = c' ∧ q = p' := by simpa using heq
    exact hcb.trans (hb.disableWrite_continues hdisable)
  have hattached : ∀ accepted outputBuffer, Attached { c with
      accepted := accepted, outputBuffer := outputBuffer } p loop addr :=
    fun _ _ => ⟨h.wired, h.looper⟩
  unfold TcpConnection.handleWriteInLoop at hrun
  split at hrun
  · match result, hrun with
    | .wrote (n + 1), hrun =>
        obtain ⟨buffer, _, hrun⟩ := Option.bind_eq_some_iff.mp hrun
        have hwritten : c.Continues { c with
            accepted := c.accepted ++ c.outputBuffer.asString.take (n + 1)
            outputBuffer := buffer } := ⟨rfl, rfl, List.prefix_append _ _⟩
        dsimp only [writeInLoop] at hrun
        split at hrun
        · exact hstop (hattached _ buffer) hwritten hrun
        · obtain ⟨-, heq⟩ := Prod.mk.inj (Option.some.inj hrun)
          obtain ⟨rfl, -⟩ := Prod.mk.inj heq
          exact hwritten
    | .wrote 0, hrun =>
        have hwritten : c.Continues { c with
            accepted := c.accepted ++ c.outputBuffer.asString.take 0 } :=
          ⟨rfl, rfl, List.prefix_append _ _⟩
        exact hstop (hattached _ c.outputBuffer) hwritten hrun
    | .failed errno, hrun => exact hstop h (.refl c) hrun
  · obtain ⟨-, heq⟩ := Prod.mk.inj (Option.some.inj hrun)
    obtain ⟨rfl, -⟩ := Prod.mk.inj heq
    exact .refl c

/-- The socket is attached and watched for reading. -/
theorem onConnectEstablishedInLoop_reads (h : p.Wired loop addr c.socket) :
    ∃ socket p', c.onConnectEstablishedInLoop loop addr p =
        some ({ c with status := .kConnected, socket := socket }, p') ∧
      Attached { c with status := .kConnected, socket := socket } p' loop addr ∧
      socket.isReading = true := by
  obtain ⟨hattach, hwired⟩ := h.attach
  obtain ⟨status, p', hrun, hwired', _⟩ :=
    hwired.enable rfl (show IOFd.kReadEvent ≠ 0#32 by decide)
  refine ⟨_, p', ?_, ⟨hwired', rfl⟩, ?_⟩
  · simp [onConnectEstablishedInLoop, changeStatus, hattach,
      IOFd.enableReadInLoop, hrun]
  · exact decide_eq_true (IOFd.enabled_and_ne_zero _ (by decide))

end TcpConnection

/-- A view of bytes in the vector of a buffer. -/
structure NetString where
  data : Nat
  length : Nat
deriving Repr, DecidableEq

/-- The bytes that are in view, as long as the vector is not changed. -/
def NetString.bytes (str : NetString) (buffer : Buffer) : List UInt8 :=
  (buffer.buffer.drop str.data).take str.length

def Buffer.retrieveAllAsNetString (b : Buffer) : NetString × Buffer :=
  (⟨b.readerIndex, b.readableBytes⟩, b.retrieveAll)

/-- The indices are reset, and the bytes are still in view. -/
theorem Buffer.retrieveAllAsNetString_bytes (b : Buffer) :
    b.retrieveAllAsNetString.1.bytes b.retrieveAllAsNetString.2 =
      b.asString := rfl

/-- A connection on its loop and the poller of the loop.  `received` are all
bytes that `readv` returned. -/
structure EchoEnd (I : Type u) where
  conn : TcpConnection
  poller : EPollPoller I
  inputBuffer : Buffer
  received : List UInt8

namespace EchoEnd

/-- A new connection on a poller that does not know its descriptor. -/
def ofSocket (fd : Int) : EchoEnd I :=
  { conn := TcpConnection.ofSocket fd false true true
    poller := .empty
    inputBuffer := Buffer.ofSize Buffer.kInitialSize
    received := [] }

variable (loop : Nat) (addr : I)

/-- `onConnectEstablishedInLoop` up to its callback. -/
def establish (s : EchoEnd I) : Option (EchoEnd I) :=
  (s.conn.onConnectEstablishedInLoop loop addr s.poller).map
    fun (conn, poller) => { s with conn := conn, poller := poller }

/-- `Connection::send` on the thread of the loop. -/
def send (s : EchoEnd I) (data : List UInt8) (result : WriteResult) :
    Option (EchoEnd I) :=
  (s.conn.sendInLoop loop addr s.poller data result).map
    fun (_, conn, poller) => { s with conn := conn, poller := poller }

def handleWrite (s : EchoEnd I) (result : WriteResult) : Option (EchoEnd I) :=
  (s.conn.handleWriteInLoop loop addr s.poller result).map
    fun (_, conn, poller) => { s with conn := conn, poller := poller }

omit [DecidableEq I] in
/-- `handleReadInLoop` up to its callback, when `readv` returns data. -/
def handleRead (s : EchoEnd I) (data : List UInt8) : Option (EchoEnd I) :=
  (s.inputBuffer.readFd (some data)).map fun (_, inputBuffer) =>
    { s with inputBuffer := inputBuffer, received := s.received ++ data }

end EchoEnd

/-- The counters are those of the client's `Session`, of type `int64_t`. -/
structure PingPong (I : Type u) where
  client : EchoEnd I
  server : EchoEnd I
  readBytes : Int
  writeBytes : Int
  readMessages : Int

/-- `n` is the number of bytes that `readv` returns and `result` what `write`
returns in the callback, if it is called there. -/
inductive PingPongStep where
  | clientEstablished (result : WriteResult)
  | serverEstablished
  | clientRead (n : Nat) (result : WriteResult)
  | clientWrite (result : WriteResult)
  | serverRead (n : Nat) (result : WriteResult)
  | serverWrite (result : WriteResult)
deriving Repr, DecidableEq

namespace PingPong

/-- The sockets of the two ends are `fd` and `peer`. -/
def start (fd peer : Int) : PingPong I :=
  ⟨.ofSocket fd, .ofSocket peer, 0, 0, 0⟩

/-- The bytes that the kernel has taken at one end and not returned at the
other. -/
def toServer (s : PingPong I) : List UInt8 :=
  s.client.conn.accepted.drop s.server.received.length

def toClient (s : PingPong I) : List UInt8 :=
  s.server.conn.accepted.drop s.client.received.length

variable (loop : Nat) (addr : I)

/-- The receive callback of the client. -/
def clientMessage (s : PingPong I) (result : WriteResult) :
    Option (PingPong I) :=
  let buffer := s.client.inputBuffer
  (s.client.send loop addr buffer.asString result).map fun client => { s with
    client := { client with inputBuffer := buffer.retrieveAll }
    readBytes := toLong (s.readBytes + buffer.readableBytes)
    writeBytes := toLong (s.writeBytes + buffer.readableBytes)
    readMessages := toLong (s.readMessages + 1) }

/-- The receive callback of the server.  The buffer is empty when its bytes are
sent. -/
def serverMessage (s : PingPong I) (result : WriteResult) :
    Option (PingPong I) :=
  let (str, buffer) := s.server.inputBuffer.retrieveAllAsNetString
  ({ s.server with inputBuffer := buffer }.send loop addr (str.bytes buffer)
    result).map fun server => { s with server := server }

end PingPong

/-- The end reads what is on the way, as much as the areas take. -/
def EchoEnd.Reads (s : EchoEnd I) (onWay : List UInt8) (n : Nat)
    (result : WriteResult) : Prop :=
  s.conn.socket.isReading = true ∧ 0 < n ∧ n ≤ onWay.length ∧
    n ≤ s.inputBuffer.readAreas.sum ∧
    result.Fits (s.inputBuffer.readableBytes + n) ∧ result.Alive

open PingPong in
/-- The two ends run on different loops.  The kernel writes at most what it is
given, and neither end is closed. -/
def pingPongMachine (message : List UInt8) (loop : Nat) (addr : I) (peer : Nat)
    (peerAddr : I) : Machine (PingPong I) PingPongStep where
  enabled s
    | .clientEstablished result => s.client.conn.status = .kConnecting ∧
        result.Fits message.length ∧ result.Alive
    | .serverEstablished => s.server.conn.status = .kConnecting
    | .clientRead n result => s.client.Reads s.toClient n result
    | .clientWrite result =>
        result.Fits s.client.conn.outputBuffer.readableBytes
    | .serverRead n result => s.server.Reads s.toServer n result
    | .serverWrite result =>
        result.Fits s.server.conn.outputBuffer.readableBytes
  exec s
    | .clientEstablished result =>
        ((s.client.establish loop addr).bind fun client =>
          client.send loop addr message result).map
            fun client => { s with client := client }
    | .serverEstablished => (s.server.establish peer peerAddr).map
        fun server => { s with server := server }
    | .clientRead n result => (s.client.handleRead (s.toClient.take n)).bind
        fun client => clientMessage loop addr { s with client := client } result
    | .clientWrite result => (s.client.handleWrite loop addr result).map
        fun client => { s with client := client }
    | .serverRead n result => (s.server.handleRead (s.toServer.take n)).bind
        fun server => serverMessage peer peerAddr { s with server := server }
          result
    | .serverWrite result => (s.server.handleWrite peer peerAddr result).map
        fun server => { s with server := server }

namespace EchoEnd

variable {loop : Nat} {addr : I} {first : List UInt8} {s s' : EchoEnd I}

/-- What the end has sent of its own accord. -/
def sent (first : List UInt8) (s : EchoEnd I) : List UInt8 :=
  if s.conn.status = .kConnecting then [] else first

/-- Output that waits is watched for. -/
def Fed (s : EchoEnd I) : Prop :=
  s.conn.outputBuffer.readableBytes ≠ 0 → s.conn.socket.isWriting = true

omit [DecidableEq I] in
theorem fed_of_waits (h : s'.conn.Waiting ∨ s.conn.Alike s'.conn)
    (hfed : s.Fed) : s'.Fed := by
  intro hmore
  rcases h with hwaiting | ⟨hsocket, hbuffer⟩
  · exact hwaiting.1
  · rw [hbuffer] at hmore
    rw [hsocket]
    exact hfed hmore

/-- Between two events: all that was received has been sent back, behind what
the end has sent of its own accord. -/
structure Echoes (loop : Nat) (addr : I) (first : List UInt8) (s : EchoEnd I) :
    Prop where
  input : s.inputBuffer.asString = []
  output : s.conn.output = s.sent first ++ s.received
  phase :
    (s.conn.status = .kConnecting ∧ s.poller.Wired loop addr s.conn.socket ∧
      s.conn.socket.events = 0#32 ∧ s.received = []) ∨
    (s.conn.status = .kConnected ∧ s.conn.Attached s.poller loop addr ∧
      s.conn.socket.isReading = true)

/-- What a call of `send` changes. -/
structure Sends (loop : Nat) (addr : I) (s s' : EchoEnd I)
    (data : List UInt8) : Prop where
  attached : s'.conn.Attached s'.poller loop addr
  output : s'.conn.output = s.conn.output ++ data
  continues : s.conn.Continues s'.conn
  input : s'.inputBuffer = s.inputBuffer
  received : s'.received = s.received
  fed : s.Fed → s'.Fed

/-- What the establishment changes. -/
structure Opens (loop : Nat) (addr : I) (s s' : EchoEnd I) : Prop where
  attached : s'.conn.Attached s'.poller loop addr
  status : s'.conn.status = .kConnected
  reading : s'.conn.socket.isReading = true
  output : s'.conn.output = []
  accepted : s'.conn.accepted = s.conn.accepted
  input : s'.inputBuffer = s.inputBuffer
  received : s.received = [] ∧ s'.received = []
  fed : s'.Fed

/-- What an event changes that brings `data`. -/
structure Passes (loop : Nat) (addr : I) (first : List UInt8)
    (s s' : EchoEnd I) (data : List UInt8) : Prop where
  echoes : s'.Echoes loop addr first
  received : s'.received = s.received ++ data
  accepted : s.conn.accepted <+: s'.conn.accepted

omit [DecidableEq I] in
theorem ofSocket_echoes (fd : Int) (loop : Nat) (addr : I)
    (first : List UInt8) : (ofSocket fd).Echoes loop addr first := by
  refine ⟨rfl, rfl, Or.inl ⟨rfl, ?_, rfl, rfl⟩⟩
  constructor <;> simp [ofSocket, TcpConnection.ofSocket, IOFd.ofFd,
    EPollPoller.empty]

theorem send_spec (h : s.conn.Attached s.poller loop addr) {data : List UInt8}
    {result : WriteResult} (hfits : result.Fits data.length)
    (halive : result.Alive) :
    ∃ s', s.send loop addr data result = some s' ∧
      s.Sends loop addr s' data := by
  obtain ⟨done, conn, poller, hrun, hattached, hwaits, houtput⟩ :=
    h.sendInLoop_spec hfits
  refine ⟨{ s with conn := conn, poller := poller }, ?_, hattached,
    houtput halive, h.sendInLoop_continues hrun, rfl, rfl, fed_of_waits hwaits⟩
  rw [send, hrun, Option.map_some]

theorem Echoes.opens (h : s.Echoes loop addr first)
    (hstatus : s.conn.status = .kConnecting) :
    ∃ s', s.establish loop addr = some s' ∧ s.Opens loop addr s' := by
  obtain ⟨_, hwired, _, hreceived⟩ | ⟨hconnected, _⟩ := h.phase
  · obtain ⟨socket, p', hrun, hattached, hreading⟩ :=
      TcpConnection.onConnectEstablishedInLoop_reads hwired
    have houtput : s.conn.output = [] := by
      rw [h.output, sent, if_pos hstatus, hreceived]
      rfl
    refine ⟨{ s with
        conn := { s.conn with status := .kConnected, socket := socket }
        poller := p' },
      ?_, hattached, rfl, hreading, houtput, rfl, rfl,
      ⟨hreceived, hreceived⟩, ?_⟩
    · rw [establish, hrun, Option.map_some]
    · intro hmore
      have hempty := (List.append_eq_nil_iff.mp houtput).2
      exact absurd (Buffer.asString_eq_nil_iff _ |>.mp hempty) hmore
  · rw [hstatus] at hconnected
    cases hconnected

omit [DecidableEq I] in
theorem Echoes.connected (h : s.Echoes loop addr first)
    (hreading : s.conn.socket.isReading = true) :
    s.conn.status = .kConnected ∧ s.conn.Attached s.poller loop addr := by
  obtain ⟨_, _, hevents, _⟩ | ⟨hstatus, hattached, _⟩ := h.phase
  · simp [IOFd.isReading, hevents] at hreading
  · exact ⟨hstatus, hattached⟩

omit [DecidableEq I] in
/-- What is read and sent again keeps the account. -/
theorem Echoes.passes (h : s.Echoes loop addr first)
    (hreading : s.conn.socket.isReading = true)
    (hattached : s'.conn.Attached s'.poller loop addr) {data : List UInt8}
    (houtput : s'.conn.output = s.conn.output ++ data)
    (hcontinues : s.conn.Continues s'.conn)
    (hinput : s'.inputBuffer.asString = [])
    (hreceived : s'.received = s.received ++ data) :
    s.Passes loop addr first s' data := by
  obtain ⟨hstatus, _⟩ := h.connected hreading
  refine ⟨⟨hinput, ?_, Or.inr ⟨?_, hattached, ?_⟩⟩, hreceived,
    hcontinues.accepted⟩
  · rw [houtput, h.output, sent, sent, hcontinues.status, hreceived,
      List.append_assoc]
  · rw [hcontinues.status, hstatus]
  · rw [hcontinues.reading, hreading]

/-- The end is established and sends `first`. -/
theorem Echoes.opens_send (h : s.Echoes loop addr first)
    (hstatus : s.conn.status = .kConnecting) {result : WriteResult}
    (hfits : result.Fits first.length) (halive : result.Alive) :
    ∃ s', ((s.establish loop addr).bind fun s =>
        s.send loop addr first result) = some s' ∧
      s.Passes loop addr first s' [] ∧ s'.Fed := by
  obtain ⟨s₁, hestablish, hopens⟩ := h.opens hstatus
  obtain ⟨s', hsend, hsends⟩ := send_spec hopens.attached hfits halive
  refine ⟨s', by rw [hestablish, Option.bind_some, hsend], ⟨⟨?_, ?_,
    Or.inr ⟨?_, hsends.attached, ?_⟩⟩, ?_, ?_⟩, hsends.fed hopens.fed⟩
  · rw [hsends.input, hopens.input, h.input]
  · rw [hsends.output, hopens.output, sent, hsends.continues.status,
      hopens.status, hsends.received, hopens.received.2]
    simp
  · rw [hsends.continues.status, hopens.status]
  · rw [hsends.continues.reading, hopens.reading]
  · rw [hsends.received, hopens.received.1, hopens.received.2]
    rfl
  · rw [← hopens.accepted]
    exact hsends.continues.accepted

omit [DecidableEq I] in
/-- The end is established and sends nothing. -/
theorem Echoes.of_opens (h : s.Echoes loop addr [])
    (hopens : s.Opens loop addr s') : s.Passes loop addr [] s' [] := by
  refine ⟨⟨?_, ?_, Or.inr ⟨hopens.status, hopens.attached, hopens.reading⟩⟩,
    ?_, ?_⟩
  · rw [hopens.input, h.input]
  · rw [hopens.output, sent, hopens.received.2]
    simp
  · rw [hopens.received.1, hopens.received.2]
    rfl
  · rw [hopens.accepted]

omit [DecidableEq I] in
theorem Echoes.handleRead (h : s.Echoes loop addr first) {data : List UInt8}
    (hsum : data.length ≤ s.inputBuffer.readAreas.sum) :
    ∃ inputBuffer, s.handleRead data = some { s with
        inputBuffer := inputBuffer
        received := s.received ++ data } ∧
      inputBuffer.asString = data := by
  obtain ⟨inputBuffer, hread, hcontent⟩ := s.inputBuffer.readFd_spec hsum
  refine ⟨inputBuffer, ?_, ?_⟩
  · rw [EchoEnd.handleRead, hread, Option.map_some]
  · rw [hcontent, h.input, List.nil_append]

/-- What is read is sent, whatever the callback leaves of the empty buffer. -/
theorem Echoes.replies (h : s.Echoes loop addr first) {onWay : List UInt8}
    {n : Nat} {result : WriteResult} (hreads : s.Reads onWay n result) :
    ∃ inputBuffer done conn poller,
      s.handleRead (onWay.take n) = some { s with
        inputBuffer := inputBuffer
        received := s.received ++ onWay.take n } ∧
      inputBuffer.asString = onWay.take n ∧
      s.conn.sendInLoop loop addr s.poller (onWay.take n) result =
        some (done, conn, poller) ∧
      ∀ b : Buffer, b.asString = [] →
        s.Passes loop addr first ⟨conn, poller, b, s.received ++ onWay.take n⟩
          (onWay.take n) ∧
        (s.Fed → Fed ⟨conn, poller, b, s.received ++ onWay.take n⟩) := by
  obtain ⟨hreading, _, hway, hsum, hfits, halive⟩ := hreads
  have hlength : (onWay.take n).length = n := by
    rw [List.length_take]
    omega
  have hempty : s.inputBuffer.readableBytes = 0 :=
    (Buffer.asString_eq_nil_iff _).mp h.input
  rw [hempty, Nat.zero_add] at hfits
  rw [← hlength] at hsum hfits
  obtain ⟨inputBuffer, hread, hcontent⟩ := h.handleRead hsum
  obtain ⟨_, hattached⟩ := h.connected hreading
  obtain ⟨done, conn, poller, hrun, hattached', hwaits, houtput⟩ :=
    hattached.sendInLoop_spec hfits
  refine ⟨inputBuffer, done, conn, poller, hread, hcontent, hrun, ?_⟩
  intro b hb
  refine ⟨h.passes hreading hattached' (houtput halive)
    (hattached.sendInLoop_continues hrun) hb rfl, ?_⟩
  exact fed_of_waits hwaits

theorem Echoes.handleWrite (h : s.Echoes loop addr first)
    {result : WriteResult}
    (hfits : result.Fits s.conn.outputBuffer.readableBytes) :
    ∃ s', s.handleWrite loop addr result = some s' ∧
      s.Passes loop addr first s' [] ∧
      ((∃ n, result = .wrote (n + 1)) → s.Fed → s'.Fed) := by
  obtain ⟨_, _, hevents, _⟩ | ⟨_, hattached, hreading⟩ := h.phase
  · have hwriting : s.conn.socket.isWriting = false := by
      simp [IOFd.isWriting, hevents]
    refine ⟨s, ?_, ⟨h, (List.append_nil _).symm, List.prefix_refl _⟩,
      fun _ hfed => hfed⟩
    rw [EchoEnd.handleWrite, TcpConnection.handleWriteInLoop, hwriting]
    rfl
  · obtain ⟨done, conn, poller, hrun, hattached', hdrains, houtput⟩ :=
      hattached.handleWriteInLoop_spec hfits
    refine ⟨{ s with conn := conn, poller := poller }, ?_, ?_, ?_⟩
    · rw [EchoEnd.handleWrite, hrun, Option.map_some]
    · exact h.passes hreading hattached'
        (houtput.trans (List.append_nil _).symm)
        (hattached.handleWriteInLoop_continues hrun) h.input
        (List.append_nil _).symm
    · rintro ⟨n, rfl⟩ hfed
      by_cases hwriting : s.conn.socket.isWriting = true
      · exact (hdrains.of_wrote hwriting).2.mpr
      · have hsame : conn = s.conn := hdrains.of_idle hwriting
        intro hmore
        dsimp only at hmore ⊢
        rw [hsame] at hmore ⊢
        exact hfed hmore

end EchoEnd

namespace PingPong

variable {message : List UInt8} {loop : Nat} {addr : I} {peer : Nat}
  {peerAddr : I} {s s' : PingPong I}

/-- What holds between two events. -/
structure Account (message : List UInt8) (loop : Nat) (addr : I) (peer : Nat)
    (peerAddr : I) (s : PingPong I) : Prop where
  client : s.client.Echoes loop addr message
  server : s.server.Echoes peer peerAddr []
  toServer : s.server.received <+: s.client.conn.accepted
  toClient : s.client.received <+: s.server.conn.accepted
  readBytes : s.readBytes = toLong s.client.received.length
  writeBytes : s.writeBytes = s.readBytes
  readMessages : ∃ n : Nat, s.readMessages = toLong n ∧
    n ≤ s.client.received.length

omit [DecidableEq I] in
theorem start_account (fd peerFd : Int) : (start fd peerFd).Account message loop
    addr peer peerAddr :=
  { client := EchoEnd.ofSocket_echoes fd loop addr message
    server := EchoEnd.ofSocket_echoes peerFd peer peerAddr []
    toServer := List.prefix_refl _
    toClient := List.prefix_refl _
    readBytes := (@toLong_eq 0 (by decide) (by decide)).symm
    writeBytes := rfl
    readMessages := ⟨0, (@toLong_eq 0 (by decide) (by decide)).symm,
      Nat.le_refl 0⟩ }

/-- What is read at one end was taken at the other. -/
theorem received_prefix {received accepted : List UInt8}
    (h : received <+: accepted) (n : Nat) :
    received ++ (accepted.drop received.length).take n <+: accepted := by
  obtain ⟨onWay, rfl⟩ := h
  rw [List.drop_left]
  exact (List.prefix_append_right_inj _).mpr (List.take_prefix n onWay)

omit [DecidableEq I] in
/-- An event at the client that reads nothing. -/
theorem Account.client_passes (h : s.Account message loop addr peer peerAddr)
    {client : EchoEnd I}
    (hpasses : s.client.Passes loop addr message client []) :
    Account message loop addr peer peerAddr { s with client := client } := by
  have hreceived : client.received = s.client.received := by
    rw [hpasses.received, List.append_nil]
  exact
    { client := hpasses.echoes
      server := h.server
      toServer := h.toServer.trans hpasses.accepted
      toClient := hreceived ▸ h.toClient
      readBytes := hreceived ▸ h.readBytes
      writeBytes := h.writeBytes
      readMessages := hreceived ▸ h.readMessages }

omit [DecidableEq I] in
/-- The client reads a message. -/
theorem Account.client_counts (h : s.Account message loop addr peer peerAddr)
    {client : EchoEnd I} {data : List UInt8}
    (hpasses : s.client.Passes loop addr message client data)
    (hdata : s.client.received ++ data <+: s.server.conn.accepted)
    (hmore : 1 ≤ data.length) :
    Account message loop addr peer peerAddr { s with
      client := client
      readBytes := toLong (s.readBytes + data.length)
      writeBytes := toLong (s.writeBytes + data.length)
      readMessages := toLong (s.readMessages + 1) } :=
  { client := hpasses.echoes
    server := h.server
    toServer := h.toServer.trans hpasses.accepted
    toClient := by
      dsimp only
      rw [hpasses.received]
      exact hdata
    readBytes := by
      dsimp only
      rw [hpasses.received, List.length_append, h.readBytes, toLong_add_toLong,
        Int.natCast_add]
    writeBytes := congrArg (fun n : Int => toLong (n + data.length)) h.writeBytes
    readMessages := by
      obtain ⟨n, hn, hle⟩ := h.readMessages
      refine ⟨n + 1, ?_, ?_⟩
      · dsimp only
        rw [hn, toLong_add_toLong]
        rfl
      · dsimp only
        rw [hpasses.received, List.length_append]
        omega }

omit [DecidableEq I] in
/-- An event at the server. -/
theorem Account.server_passes (h : s.Account message loop addr peer peerAddr)
    {server : EchoEnd I} {data : List UInt8}
    (hpasses : s.server.Passes peer peerAddr [] server data)
    (hdata : s.server.received ++ data <+: s.client.conn.accepted) :
    Account message loop addr peer peerAddr { s with server := server } :=
  { client := h.client
    server := hpasses.echoes
    toServer := by
      dsimp only
      rw [hpasses.received]
      exact hdata
    toClient := h.toClient.trans hpasses.accepted
    readBytes := h.readBytes
    writeBytes := h.writeBytes
    readMessages := h.readMessages }

theorem Account.clientRead (h : s.Account message loop addr peer peerAddr)
    {n : Nat} {result : WriteResult}
    (hreads : s.client.Reads s.toClient n result) :
    ∃ s', (pingPongMachine message loop addr peer peerAddr).exec s
        (.clientRead n result) = some s' ∧
      s'.Account message loop addr peer peerAddr ∧
      (s.client.Fed → s'.client.Fed) ∧ s'.server = s.server := by
  obtain ⟨inputBuffer, done, conn, poller, hread, hcontent, hrun, hpasses⟩ :=
    h.client.replies hreads
  obtain ⟨hpasses, hfed⟩ := hpasses inputBuffer.retrieveAll rfl
  have hdata : s.client.received ++ s.toClient.take n <+:
      s.server.conn.accepted := received_prefix h.toClient n
  have hpos : 1 ≤ (s.toClient.take n).length := by
    have hn : 0 < n := hreads.2.1
    have hway : n ≤ s.toClient.length := hreads.2.2.1
    rw [List.length_take]
    omega
  have hbytes : inputBuffer.readableBytes = (s.toClient.take n).length := by
    rw [← inputBuffer.length_asString, hcontent]
  refine ⟨_, ?_, h.client_counts hpasses hdata hpos, hfed, rfl⟩
  simp only [pingPongMachine, hread, Option.bind_some, clientMessage,
    EchoEnd.send, hcontent, hrun, Option.map_some, hbytes]

theorem Account.serverRead (h : s.Account message loop addr peer peerAddr)
    {n : Nat} {result : WriteResult}
    (hreads : s.server.Reads s.toServer n result) :
    ∃ s', (pingPongMachine message loop addr peer peerAddr).exec s
        (.serverRead n result) = some s' ∧
      s'.Account message loop addr peer peerAddr ∧
      (s.server.Fed → s'.server.Fed) ∧ s'.client = s.client := by
  obtain ⟨inputBuffer, done, conn, poller, hread, hcontent, hrun, hpasses⟩ :=
    h.server.replies hreads
  obtain ⟨hpasses, hfed⟩ := hpasses inputBuffer.retrieveAll rfl
  have hdata : s.server.received ++ s.toServer.take n <+:
      s.client.conn.accepted := received_prefix h.toServer n
  refine ⟨_, ?_, h.server_passes hpasses hdata, hfed, rfl⟩
  simp only [pingPongMachine, hread, Option.bind_some, serverMessage,
    Buffer.retrieveAllAsNetString_bytes, hcontent]
  simp only [Buffer.retrieveAllAsNetString, EchoEnd.send, hrun, Option.map_some]

/-- Both ends watch for the output that waits. -/
def Live (s : PingPong I) : Prop := s.client.Fed ∧ s.server.Fed

end PingPong

/-- At a writable event the kernel takes something. -/
def PingPongStep.Writes : PingPongStep → Prop
  | .clientWrite result => ∃ n, result = .wrote (n + 1)
  | .serverWrite result => ∃ n, result = .wrote (n + 1)
  | _ => True

namespace PingPong

variable {message : List UInt8} {loop : Nat} {addr : I} {peer : Nat}
  {peerAddr : I} {s s' : PingPong I}

theorem Account.step (h : s.Account message loop addr peer peerAddr)
    {step : PingPongStep}
    (hstep : (pingPongMachine message loop addr peer peerAddr).enabled s step) :
    ∃ s', (pingPongMachine message loop addr peer peerAddr).exec s step =
        some s' ∧
      s'.Account message loop addr peer peerAddr ∧
      (step.Writes → s.Live → s'.Live) := by
  cases step with
  | clientEstablished result =>
      obtain ⟨hstatus, hfits, halive⟩ := hstep
      obtain ⟨client, hrun, hpasses, hfed⟩ :=
        h.client.opens_send hstatus hfits halive
      refine ⟨{ s with client := client }, ?_, h.client_passes hpasses,
        fun _ hlive => ⟨hfed, hlive.2⟩⟩
      simp only [pingPongMachine, hrun, Option.map_some]
  | serverEstablished =>
      obtain ⟨server, hrun, hopens⟩ := h.server.opens hstep
      refine ⟨{ s with server := server }, ?_,
        h.server_passes (h.server.of_opens hopens)
          (by rw [List.append_nil]; exact h.toServer),
        fun _ hlive => ⟨hlive.1, hopens.fed⟩⟩
      simp only [pingPongMachine, hrun, Option.map_some]
  | clientRead n result =>
      obtain ⟨s', hrun, haccount, hfed, hserver⟩ := h.clientRead hstep
      refine ⟨s', hrun, haccount, fun _ hlive => ⟨hfed hlive.1, ?_⟩⟩
      rw [hserver]
      exact hlive.2
  | clientWrite result =>
      obtain ⟨client, hrun, hpasses, hfed⟩ := h.client.handleWrite hstep
      refine ⟨{ s with client := client }, ?_, h.client_passes hpasses,
        fun hwrites hlive => ⟨hfed hwrites hlive.1, hlive.2⟩⟩
      simp only [pingPongMachine, hrun, Option.map_some]
  | serverRead n result =>
      obtain ⟨s', hrun, haccount, hfed, hclient⟩ := h.serverRead hstep
      refine ⟨s', hrun, haccount, fun _ hlive => ⟨?_, hfed hlive.2⟩⟩
      rw [hclient]
      exact hlive.1
  | serverWrite result =>
      obtain ⟨server, hrun, hpasses, hfed⟩ := h.server.handleWrite hstep
      refine ⟨{ s with server := server }, ?_,
        h.server_passes hpasses (by rw [List.append_nil]; exact h.toServer),
        fun hwrites hlive => ⟨hlive.1, hfed hwrites hlive.2⟩⟩
      simp only [pingPongMachine, hrun, Option.map_some]

/-- The bytes between the client and itself, the oldest first: on the way to the
client, waiting at the server, on the way there, and waiting at the client. -/
def around (s : PingPong I) : List UInt8 :=
  s.toClient ++ s.server.conn.outputBuffer.asString ++
    (s.toServer ++ s.client.conn.outputBuffer.asString)

omit [DecidableEq I] in
/-- The bytes that came round once are followed by those that go round. -/
theorem Account.around (h : s.Account message loop addr peer peerAddr) :
    s.client.received ++ s.around =
      s.client.sent message ++ s.client.received := by
  have hserver : s.server.conn.output = s.server.received := by
    rw [h.server.output, EchoEnd.sent, ite_self, List.nil_append]
  obtain ⟨toClient, hclient⟩ := h.toClient
  obtain ⟨toServer, htoServer⟩ := h.toServer
  have htoClient : s.toClient = toClient := by
    rw [PingPong.toClient, ← hclient, List.drop_left]
  have htoServer' : s.toServer = toServer := by
    rw [PingPong.toServer, ← htoServer, List.drop_left]
  have hback : s.client.received ++
      (s.toClient ++ s.server.conn.outputBuffer.asString) =
        s.server.received := by
    rw [htoClient, ← List.append_assoc, hclient]
    exact hserver
  have hforth : s.server.received ++
      (s.toServer ++ s.client.conn.outputBuffer.asString) =
        s.client.sent message ++ s.client.received := by
    rw [htoServer', ← List.append_assoc, htoServer]
    exact h.client.output
  rw [PingPong.around, ← List.append_assoc, hback, hforth]

omit [DecidableEq I] in
/-- Below the largest `int64_t` the counters are the numbers themselves. -/
theorem Account.counted (h : s.Account message loop addr peer peerAddr)
    (hfew : s.client.received.length < 2 ^ 63) :
    s.readBytes = s.client.received.length ∧ s.readMessages ≤ s.readBytes := by
  obtain ⟨n, hn, hle⟩ := h.readMessages
  have hbytes : s.readBytes = s.client.received.length := by
    rw [h.readBytes, toLong_eq (by omega) (by omega)]
  refine ⟨hbytes, ?_⟩
  rw [hbytes, hn, toLong_eq (by omega) (by omega)]
  omega

/-- The step establishes an end or moves bytes. -/
def Moves (s : PingPong I) : PingPongStep → Prop
  | .clientWrite result => s.client.conn.socket.isWriting = true ∧
      ∃ n, result = .wrote (n + 1)
  | .serverWrite result => s.server.conn.socket.isWriting = true ∧
      ∃ n, result = .wrote (n + 1)
  | _ => True

omit [DecidableEq I] in
/-- An end that is established reads what is on the way. -/
theorem reads_one {loop : Nat} {addr : I} {first onWay : List UInt8}
    {e : EchoEnd I} (h : e.Echoes loop addr first)
    (hconnected : e.conn.status ≠ .kConnecting) (hway : onWay ≠ []) :
    e.Reads onWay 1 (.wrote 0) := by
  obtain ⟨hstatus, _⟩ | ⟨_, _, hreading⟩ := h.phase
  · exact absurd hstatus hconnected
  · have hareas : 1 ≤ e.inputBuffer.readAreas.sum := by
      have hextra : 1 ≤ Buffer.gExtraBufferLen := by decide
      unfold Buffer.readAreas
      split
      · simp only [List.sum_cons, List.sum_nil]
        omega
      · simp only [List.sum_cons, List.sum_nil]
        omega
    exact ⟨hreading, Nat.one_pos, List.length_pos_iff.mpr hway, hareas,
      Nat.zero_le _, trivial⟩

/-- When bytes go round, some end can read or write them. -/
theorem Account.moves (h : s.Account message loop addr peer peerAddr)
    (hlive : s.Live) (hmessage : message ≠ []) :
    ∃ step, (pingPongMachine message loop addr peer peerAddr).enabled s step ∧
      s.Moves step := by
  by_cases hclient : s.client.conn.status = .kConnecting
  · exact ⟨.clientEstablished (.wrote 0), ⟨hclient, Nat.zero_le _, trivial⟩,
      trivial⟩
  by_cases hserver : s.server.conn.status = .kConnecting
  · exact ⟨.serverEstablished, hserver, trivial⟩
  have haround : s.around ≠ [] := by
    have hsent : s.client.sent message = message := if_neg hclient
    rw [rotate_of_append_eq h.around, hsent, ne_eq, List.rotate_eq_nil_iff]
    exact hmessage
  by_cases htoClient : s.toClient = []
  · by_cases hback : s.server.conn.outputBuffer.readableBytes = 0
    · by_cases htoServer : s.toServer = []
      · have hforth : s.client.conn.outputBuffer.readableBytes ≠ 0 := by
          intro hforth
          rw [PingPong.around, htoClient, htoServer,
            (Buffer.asString_eq_nil_iff _).mpr hback,
            (Buffer.asString_eq_nil_iff _).mpr hforth] at haround
          exact haround rfl
        exact ⟨.clientWrite (.wrote 1), Nat.one_le_iff_ne_zero.mpr hforth,
          hlive.1 hforth, 0, rfl⟩
      · exact ⟨.serverRead 1 (.wrote 0), reads_one h.server hserver htoServer,
          trivial⟩
    · exact ⟨.serverWrite (.wrote 1), Nat.one_le_iff_ne_zero.mpr hback,
        hlive.2 hback, 0, rfl⟩
  · exact ⟨.clientRead 1 (.wrote 0), reads_one h.client hclient htoClient,
      trivial⟩

end PingPong

omit [DecidableEq I] in
instance (s : EchoEnd I) (onWay : List UInt8) (n : Nat)
    (result : WriteResult) : Decidable (s.Reads onWay n result) :=
  inferInstanceAs (Decidable (_ ∧ _ ∧ _ ∧ _ ∧ _ ∧ _))

instance (message : List UInt8) (loop : Nat) (addr : I) (peer : Nat)
    (peerAddr : I) (s : PingPong I) (step : PingPongStep) :
    Decidable ((pingPongMachine message loop addr peer peerAddr).enabled s
      step) :=
  match step with
  | .clientEstablished result => inferInstanceAs
      (Decidable (_ = _ ∧ result.Fits _ ∧ result.Alive))
  | .serverEstablished => inferInstanceAs (Decidable (_ = _))
  | .clientRead n result => inferInstanceAs
      (Decidable (s.client.Reads _ n result))
  | .clientWrite result => inferInstanceAs (Decidable (result.Fits _))
  | .serverRead n result => inferInstanceAs
      (Decidable (s.server.Reads _ n result))
  | .serverWrite result => inferInstanceAs (Decidable (result.Fits _))

/-- The message goes round.  In every state of every interleaving, with any cut
of the reads and any short or interrupted write, the bytes on the way and in the
buffers are the message, rotated by the number of bytes that the client has
read; what it has read is the message again and again; and its counters say how
much that is, as far as 64 bits can. -/
theorem pingPong_circulates {message : List UInt8} {loop : Nat} {addr : I}
    {peer : Nat} {peerAddr : I} (fd peerFd : Int) {word : List PingPongStep}
    (hword : (pingPongMachine message loop addr peer peerAddr).Legal
      (.start fd peerFd) word) :
    (pingPongMachine message loop addr peer peerAddr).Holds (fun s =>
        s.around = (s.client.sent message).rotate s.client.received.length ∧
        (∀ i < s.client.received.length, message ≠ [] →
          s.client.received[i]? = message[i % message.length]?) ∧
        s.readBytes = toLong s.client.received.length ∧
        s.writeBytes = s.readBytes ∧
        (s.client.received.length < 2 ^ 63 →
          s.readBytes = s.client.received.length ∧
            s.readMessages ≤ s.readBytes))
      (.start fd peerFd) word := by
  have hrun := Machine.holds_of_step
    (fun s step h hstep => by
      obtain ⟨s', hexec, haccount, _⟩ := PingPong.Account.step h hstep
      exact ⟨s', hexec, haccount⟩)
    (PingPong.start_account fd peerFd) hword
  refine hrun.mono fun s h => ⟨rotate_of_append_eq h.around, ?_, h.readBytes,
    h.writeBytes, h.counted⟩
  intro i hi hmessage
  have hconnected : s.client.conn.status ≠ .kConnecting := by
    intro hstatus
    obtain ⟨_, _, _, hnone⟩ | ⟨hother, _⟩ := h.client.phase
    · rw [hnone] at hi
      exact Nat.not_lt_zero i hi
    · rw [hstatus] at hother
      cases hother
  have hsent : s.client.sent message = message := if_neg hconnected
  have haround := h.around
  rw [hsent] at haround
  exact getElem?_of_append_eq hmessage haround hi

/-- The first write stops short, and one is interrupted. -/
theorem pingPong_circulates_two :
    (pingPongMachine [1, 2] 0 () 1 ()).Holds (fun s =>
        s.around = (s.client.sent [1, 2]).rotate s.client.received.length ∧
        (∀ i < s.client.received.length, ([1, 2] : List UInt8) ≠ [] →
          s.client.received[i]? = ([1, 2] : List UInt8)[i % 2]?) ∧
        s.readBytes = toLong s.client.received.length ∧
        s.writeBytes = s.readBytes ∧
        (s.client.received.length < 2 ^ 63 →
          s.readBytes = s.client.received.length ∧
            s.readMessages ≤ s.readBytes))
      (.start 7 8)
      [.clientEstablished (.wrote 1), .serverEstablished,
        .serverRead 1 (.wrote 1), .clientRead 1 (.wrote 0),
        .clientWrite (.wrote 2), .serverRead 2 (.failed 11),
        .clientWrite (.failed 4)] :=
  pingPong_circulates 7 8 (by decide +kernel)

/-- The session never stalls when the kernel takes something at each writable
event: in every state some step is possible that establishes an end or moves
bytes. -/
theorem pingPong_moves {message : List UInt8} (hmessage : message ≠ [])
    {loop : Nat} {addr : I} {peer : Nat} {peerAddr : I} (fd peerFd : Int)
    {word : List PingPongStep}
    (hword : (pingPongMachine message loop addr peer peerAddr).Legal
      (.start fd peerFd) word)
    (hwrites : ∀ step ∈ word, step.Writes) :
    (pingPongMachine message loop addr peer peerAddr).Holds (fun s =>
        ∃ step, (pingPongMachine message loop addr peer peerAddr).enabled s
          step ∧ s.Moves step)
      (.start fd peerFd) word := by
  have hlive : (PingPong.start fd peerFd : PingPong I).Live := by
    constructor
    · exact fun hmore => absurd rfl hmore
    · exact fun hmore => absurd rfl hmore
  have hrun := Machine.holds_of_step
    (P := fun s => PingPong.Account message loop addr peer peerAddr s ∧ s.Live)
    (fun s step h hstep => by
      obtain ⟨s', hexec, haccount, hkeeps⟩ := h.1.step hstep.1
      exact ⟨s', hexec, haccount, hkeeps hstep.2 h.2⟩)
    ⟨PingPong.start_account fd peerFd, hlive⟩
    (hword.and (Machine.meets_of_forall fun step hstep _ => hwrites step hstep))
  exact hrun.mono fun s h => h.1.moves h.2 hmessage

/-- Two bytes, and a kernel that takes one at a time. -/
theorem pingPong_moves_two :
    (pingPongMachine [1, 2] 0 () 1 ()).Holds (fun s =>
        ∃ step, (pingPongMachine [1, 2] 0 () 1 ()).enabled s step ∧
          s.Moves step)
      (.start 7 8)
      [.clientEstablished (.wrote 1), .serverEstablished,
        .serverRead 1 (.wrote 0), .clientWrite (.wrote 1),
        .serverWrite (.wrote 1), .clientRead 1 (.wrote 1)] := by
  refine pingPong_moves (by decide) 7 8 ?_ ?_
  · decide +kernel
  · simp [PingPongStep.Writes]

end Libsaf
