/-
`saf::TcpConnection`: the methods that run on the thread of the loop.  The
outcome of a system call is a parameter; a callback that is set is reported to
the caller, who lets the environment act.
-/
import Libsaf.Buffer
import Libsaf.IOFd

namespace Libsaf

universe u

variable {I : Type u} [DecidableEq I]

/-- The states of `_status`. -/
inductive TcpStatus where
  | kDisconnected
  | kConnecting
  | kConnected
  | kDisconnecting
deriving Repr, DecidableEq

def EWOULDBLOCK : Int := 11
def EPIPE : Int := 32
def ECONNRESET : Int := 104

/-- What `write` returns: a count of bytes, or -1 with `errno`. -/
inductive WriteResult where
  | wrote (n : Nat)
  | failed (errno : Int)
deriving Repr, DecidableEq

/-- The kernel writes no more than it was given. -/
def WriteResult.Fits (length : Nat) : WriteResult → Prop
  | .wrote n => n ≤ length
  | .failed _ => True

/-- The peer is not known to be gone. -/
def WriteResult.Alive : WriteResult → Prop
  | .wrote _ => True
  | .failed errno => errno ≠ EPIPE ∧ errno ≠ ECONNRESET

/-- `accepted` are the bytes which the kernel took from all calls of `write`.
Of a callback it matters here whether it is set. -/
structure TcpConnection where
  status : TcpStatus
  socket : IOFd
  outputBuffer : Buffer
  accepted : List UInt8
  writeCompleteCallback : Bool
  connectChangeCallback : Bool
  closeCallback : Bool

namespace TcpConnection

/-- `TcpConnection(loop, socket, ...)` with the callbacks set as given. -/
def ofSocket (fd : Int) (writeComplete connectChange close : Bool) :
    TcpConnection :=
  { status := .kConnecting
    socket := IOFd.ofFd fd
    outputBuffer := Buffer.ofSize Buffer.kInitialSize
    accepted := []
    writeCompleteCallback := writeComplete
    connectChangeCallback := connectChange
    closeCallback := close }

def changeStatus (c : TcpConnection) (status : TcpStatus) : TcpConnection :=
  { c with status := status }

def writeInLoop (c : TcpConnection) (buffer : List UInt8) :
    WriteResult → TcpConnection
  | .wrote n => { c with accepted := c.accepted ++ buffer.take n }
  | .failed _ => c

/-- `_socket->enableWriteInLoop()`. -/
def enableWrite (loop : Nat) (addr : I) (c : TcpConnection)
    (p : EPollPoller I) : Option (TcpConnection × EPollPoller I) := do
  let (socket, p) ← c.socket.enableWriteInLoop loop addr p
  return ({ c with socket := socket }, p)

/-- `_socket->disableWriteInLoop()`. -/
def disableWrite (loop : Nat) (addr : I) (c : TcpConnection)
    (p : EPollPoller I) : Option (TcpConnection × EPollPoller I) := do
  let (socket, p) ← c.socket.disableWriteInLoop loop addr p
  return ({ c with socket := socket }, p)

/-- The end of `sendInLoop`: the `remaining` bytes wait in the buffer. -/
def keepOutput (loop : Nat) (addr : I) (c : TcpConnection) (p : EPollPoller I)
    (remaining : List UInt8) : Option (TcpConnection × EPollPoller I) :=
  if remaining.length > 0 then
    (c.outputBuffer.append remaining).bind fun outputBuffer =>
      let c := { c with outputBuffer := outputBuffer }
      if !c.socket.isWriting then c.enableWrite loop addr p else some (c, p)
  else some (c, p)

/-- The first result tells whether the write-complete callback is queued. -/
def sendInLoop (loop : Nat) (addr : I) (c : TcpConnection) (p : EPollPoller I)
    (data : List UInt8) (result : WriteResult) :
    Option (Bool × TcpConnection × EPollPoller I) :=
  if !c.socket.isWriting && c.outputBuffer.readableBytes == 0 then
    let c := c.writeInLoop data result
    match result with
    | .wrote n =>
        if data.length - n = 0 then some (c.writeCompleteCallback, c, p)
        else (c.keepOutput loop addr p (data.drop n)).map (false, ·)
    | .failed errno =>
        -- the fault error: the message is given up
        if errno ≠ EWOULDBLOCK ∧ (errno = EPIPE ∨ errno = ECONNRESET) then
          some (false, c, p)
        else (c.keepOutput loop addr p data).map (false, ·)
  else (c.keepOutput loop addr p data).map (false, ·)

/-- The first result tells whether the write-complete callback is called. -/
def handleWriteInLoop (loop : Nat) (addr : I) (c : TcpConnection)
    (p : EPollPoller I) (result : WriteResult) :
    Option (Bool × TcpConnection × EPollPoller I) :=
  if c.socket.isWriting then
    let c := c.writeInLoop c.outputBuffer.asString result
    match result with
    | .wrote (n + 1) =>
        (c.outputBuffer.retrieve (n + 1)).bind fun outputBuffer =>
          let c := { c with outputBuffer := outputBuffer }
          if c.outputBuffer.readableBytes = 0 then
            (c.disableWrite loop addr p).map (c.writeCompleteCallback, ·)
          else some (false, c, p)
    | _ => (c.disableWrite loop addr p).map (false, ·)
  else some (false, c, p)

/-- `closeInLoop` up to its callbacks. -/
def closeInLoop (loop : Nat) (addr : I) (c : TcpConnection)
    (p : EPollPoller I) : Option (TcpConnection × EPollPoller I) := do
  let (_, socket, p) ← c.socket.detachInLoop loop addr p
  return ({ c with socket := socket }.changeStatus .kDisconnected, p)

/-- `onConnectEstablishedInLoop` up to its callback. -/
def onConnectEstablishedInLoop (loop : Nat) (addr : I) (c : TcpConnection)
    (p : EPollPoller I) : Option (TcpConnection × EPollPoller I) := do
  let c := c.changeStatus .kConnected
  let (socket, p) ← c.socket.attachInLoop loop addr p
  let (socket, p) ← socket.enableReadInLoop loop addr p
  return ({ c with socket := socket }, p)

/-- The socket is attached to the loop and registered as its events say. -/
structure Attached (c : TcpConnection) (p : EPollPoller I) (loop : Nat)
    (addr : I) : Prop where
  wired : p.Wired loop addr c.socket
  looper : c.socket.looper = some loop

/-- The bytes that left for the kernel and those that still wait. -/
def output (c : TcpConnection) : List UInt8 :=
  c.accepted ++ c.outputBuffer.asString

/-- Output waits in the buffer, and the socket is watched for writing. -/
def Waiting (c : TcpConnection) : Prop :=
  c.socket.isWriting = true ∧ c.outputBuffer.readableBytes ≠ 0

/-- Neither the socket nor the waiting output is changed. -/
def Alike (c c' : TcpConnection) : Prop :=
  c'.socket = c.socket ∧ c'.outputBuffer = c.outputBuffer

/-- What a writable event does to the waiting output and to the interest. -/
def Drains (c : TcpConnection) (result : WriteResult) (c' : TcpConnection) :
    Prop :=
  if c.socket.isWriting then
    match result with
    | .wrote (n + 1) =>
        c'.outputBuffer.readableBytes =
            c.outputBuffer.readableBytes - (n + 1) ∧
          (c'.socket.isWriting = true ↔ c'.outputBuffer.readableBytes ≠ 0)
    | _ => c'.outputBuffer = c.outputBuffer ∧ c'.socket.isWriting = false
  else c' = c

variable {p : EPollPoller I} {loop : Nat} {addr : I} {c : TcpConnection}

/-- Of the connection only the write interest of its socket is changed. -/
theorem Attached.enableWrite (h : c.Attached p loop addr) :
    ∃ socket p', c.enableWrite loop addr p =
        some ({ c with socket := socket }, p') ∧
      Attached { c with socket := socket } p' loop addr ∧
      socket.isWriting = true := by
  obtain ⟨status, p', hrun, hwired, _⟩ :=
    h.wired.enable h.looper (show IOFd.kWriteEvent ≠ 0#32 by decide)
  refine ⟨_, p', ?_, ⟨hwired, h.looper⟩, ?_⟩
  · simp [TcpConnection.enableWrite, IOFd.enableWriteInLoop, hrun]
  · exact decide_eq_true (IOFd.enabled_and_ne_zero _ (by decide))

theorem Attached.disableWrite (h : c.Attached p loop addr) :
    ∃ socket p', c.disableWrite loop addr p =
        some ({ c with socket := socket }, p') ∧
      Attached { c with socket := socket } p' loop addr ∧
      socket.isWriting = false := by
  obtain ⟨status, p', hrun, hwired, _⟩ :=
    h.wired.disable h.looper IOFd.kWriteEvent
  refine ⟨_, p', ?_, ⟨hwired, h.looper⟩, ?_⟩
  · simp [TcpConnection.disableWrite, IOFd.disableWriteInLoop, hrun]
  · exact decide_eq_false (not_not.mpr (IOFd.disabled_and_eq_zero _))

/-- Bytes that are kept wait for a writable event. -/
theorem Attached.keepOutput (h : c.Attached p loop addr)
    (remaining : List UInt8) :
    ∃ c' p', c.keepOutput loop addr p remaining = some (c', p') ∧
      c'.Attached p' loop addr ∧ (c'.Waiting ∨ c.Alike c') ∧
      c'.output = c.output ++ remaining := by
  unfold TcpConnection.keepOutput
  by_cases hlen : remaining.length > 0
  · obtain ⟨buffer, happend, hcontent⟩ := c.outputBuffer.append_spec remaining
    have hattached : Attached { c with outputBuffer := buffer } p loop addr :=
      ⟨h.wired, h.looper⟩
    have houtput : c.accepted ++ buffer.asString = c.output ++ remaining := by
      rw [hcontent, output, List.append_assoc]
    have hreadable : buffer.readableBytes ≠ 0 := by
      rw [← buffer.length_asString, hcontent, List.length_append]
      omega
    rw [if_pos hlen, happend, Option.bind_some]
    by_cases hwriting : c.socket.isWriting = true
    · exact ⟨_, p, by simp [hwriting], hattached,
        Or.inl ⟨hwriting, hreadable⟩, houtput⟩
    · obtain ⟨socket, p', hrun, hattached', hwriting'⟩ := hattached.enableWrite
      exact ⟨_, p', by simp [hwriting, hrun], hattached',
        Or.inl ⟨hwriting', hreadable⟩, houtput⟩
  · obtain rfl : remaining = [] := by simpa using hlen
    exact ⟨c, p, by simp, h, Or.inr ⟨rfl, rfl⟩, by simp⟩

/-- What is not written waits; the message of a living peer goes to the end of
the output. -/
theorem Attached.sendInLoop_spec (h : c.Attached p loop addr)
    {data : List UInt8} {result : WriteResult}
    (hfits : result.Fits data.length) :
    ∃ done c' p', c.sendInLoop loop addr p data result = some (done, c', p') ∧
      c'.Attached p' loop addr ∧ (c'.Waiting ∨ c.Alike c') ∧
      (result.Alive → c'.output = c.output ++ data) := by
  unfold TcpConnection.sendInLoop
  by_cases hdirect :
      (!c.socket.isWriting && c.outputBuffer.readableBytes == 0) = true
  · have hempty : c.outputBuffer.asString = [] := by
      rw [c.outputBuffer.asString_eq_nil_iff]
      simp only [Bool.and_eq_true, beq_iff_eq] at hdirect
      exact hdirect.2
    rw [if_pos hdirect]
    cases result with
    | wrote n =>
        let c₁ : TcpConnection := c.writeInLoop data (.wrote n)
        have houtput₁ : c₁.output = c.output ++ data.take n := by
          simp [c₁, writeInLoop, output, hempty]
        have hattached₁ : c₁.Attached p loop addr := ⟨h.wired, h.looper⟩
        by_cases hall : data.length - n = 0
        · refine ⟨c.writeCompleteCallback, c₁, p, by simp [hall, c₁]; rfl,
            hattached₁, Or.inr ⟨rfl, rfl⟩, fun _ => ?_⟩
          rw [houtput₁, List.take_of_length_le (by omega)]
        · obtain ⟨c', p', hrun, hattached, hkept, houtput⟩ :=
            hattached₁.keepOutput (data.drop n)
          refine ⟨false, c', p', by simp [hall, c₁, hrun], hattached, hkept,
            fun _ => ?_⟩
          rw [houtput, houtput₁, List.append_assoc, List.take_append_drop]
    | failed errno =>
        by_cases hgone : errno ≠ EWOULDBLOCK ∧
            (errno = EPIPE ∨ errno = ECONNRESET)
        · refine ⟨false, c, p, by simp only [if_pos hgone]; rfl, h,
            Or.inr ⟨rfl, rfl⟩, fun halive => ?_⟩
          exact absurd hgone.2 (not_or.mpr halive)
        · obtain ⟨c', p', hrun, hattached, hkept, houtput⟩ := h.keepOutput data
          refine ⟨false, c', p', ?_, hattached, hkept, fun _ => houtput⟩
          simp only [if_neg hgone, writeInLoop, hrun, Option.map_some]
  · rw [if_neg hdirect]
    obtain ⟨c', p', hrun, hattached, hkept, houtput⟩ := h.keepOutput data
    exact ⟨false, c', p', by rw [hrun]; rfl, hattached, hkept,
      fun _ => houtput⟩

/-- A message of a living peer goes to the end of the output. -/
theorem Attached.sendInLoop (h : c.Attached p loop addr)
    {data : List UInt8} {result : WriteResult} (hfits : result.Fits data.length)
    (halive : result.Alive) :
    ∃ done c' p', c.sendInLoop loop addr p data result = some (done, c', p') ∧
      c'.Attached p' loop addr ∧ c'.output = c.output ++ data := by
  obtain ⟨done, c', p', hrun, hattached, _, houtput⟩ := h.sendInLoop_spec hfits
  exact ⟨done, c', p', hrun, hattached, houtput halive⟩

/-- A writable event moves bytes from the buffer to the kernel, and watches on
for the next one only if bytes were moved and bytes are left. -/
theorem Attached.handleWriteInLoop_spec (h : c.Attached p loop addr)
    {result : WriteResult}
    (hfits : result.Fits c.outputBuffer.readableBytes) :
    ∃ done c' p', c.handleWriteInLoop loop addr p result = some (done, c', p') ∧
      c'.Attached p' loop addr ∧ c.Drains result c' ∧
      c'.output = c.output := by
  unfold TcpConnection.handleWriteInLoop Drains
  by_cases hwriting : c.socket.isWriting = true
  · simp only [hwriting, if_true]
    match result, hfits with
    | .wrote (n + 1), hfits =>
        obtain ⟨buffer, hretrieve, hcontent⟩ :=
          c.outputBuffer.retrieve_spec (show n + 1 ≤ _ from hfits)
        let c₁ : TcpConnection := { c with
          accepted := c.accepted ++ c.outputBuffer.asString.take (n + 1)
          outputBuffer := buffer }
        have houtput₁ : c₁.output = c.output := by
          simp [c₁, output, hcontent]
        have hattached₁ : c₁.Attached p loop addr := ⟨h.wired, h.looper⟩
        have hreadable : buffer.readableBytes =
            c.outputBuffer.readableBytes - (n + 1) := by
          rw [← buffer.length_asString, hcontent, List.length_drop,
            c.outputBuffer.length_asString]
        by_cases hdrained : buffer.readableBytes = 0
        · obtain ⟨socket, p', hrun, hattached, hoff⟩ :=
            hattached₁.disableWrite
          refine ⟨c.writeCompleteCallback, _, p', ?_, hattached,
            ⟨hreadable, ?_⟩, houtput₁⟩
          · simp only [writeInLoop, hretrieve, Option.bind_some, hdrained,
              if_true]
            exact congrArg (Option.map (c.writeCompleteCallback, ·)) hrun
          · simp [hoff, c₁, hdrained]
        · exact ⟨false, c₁, p, by simp [writeInLoop, hretrieve, hdrained, c₁],
            hattached₁, ⟨hreadable, by simp [c₁, hwriting, hdrained]⟩, houtput₁⟩
    | .wrote 0, _ =>
        obtain ⟨socket, p', hrun, hattached, hoff⟩ := h.disableWrite
        exact ⟨false, _, p', by simp [writeInLoop, hrun], hattached,
          ⟨rfl, hoff⟩, rfl⟩
    | .failed errno, _ =>
        obtain ⟨socket, p', hrun, hattached, hoff⟩ := h.disableWrite
        exact ⟨false, _, p', by simp [writeInLoop, hrun], hattached,
          ⟨rfl, hoff⟩, rfl⟩
  · simp only [hwriting]
    exact ⟨false, c, p, rfl, h, rfl, rfl⟩

theorem Attached.handleWriteInLoop (h : c.Attached p loop addr)
    {result : WriteResult}
    (hfits : result.Fits c.outputBuffer.readableBytes) :
    ∃ done c' p', c.handleWriteInLoop loop addr p result = some (done, c', p') ∧
      c'.Attached p' loop addr ∧ c'.output = c.output := by
  obtain ⟨done, c', p', hrun, hattached, _, houtput⟩ :=
    h.handleWriteInLoop_spec hfits
  exact ⟨done, c', p', hrun, hattached, houtput⟩

omit [DecidableEq I] in
theorem Drains.of_wrote {c' : TcpConnection} {n : Nat}
    (h : c.Drains (.wrote (n + 1)) c') (hwriting : c.socket.isWriting = true) :
    c'.outputBuffer.readableBytes = c.outputBuffer.readableBytes - (n + 1) ∧
      (c'.socket.isWriting = true ↔ c'.outputBuffer.readableBytes ≠ 0) := by
  simpa only [Drains, if_pos hwriting] using h

omit [DecidableEq I] in
theorem Drains.of_stopped {c' : TcpConnection} {result : WriteResult}
    (h : c.Drains result c') (hwriting : c.socket.isWriting = true)
    (hstopped : ¬∃ n, result = .wrote (n + 1)) :
    c'.outputBuffer = c.outputBuffer ∧ c'.socket.isWriting = false := by
  match result, hstopped, h with
  | .wrote (n + 1), hstopped, _ => exact absurd ⟨n, rfl⟩ hstopped
  | .wrote 0, _, h => simpa only [Drains, if_pos hwriting] using h
  | .failed errno, _, h => simpa only [Drains, if_pos hwriting] using h

omit [DecidableEq I] in
theorem Drains.of_idle {c' : TcpConnection} {result : WriteResult}
    (h : c.Drains result c') (hwriting : ¬c.socket.isWriting = true) :
    c' = c := by
  simpa only [Drains, if_neg hwriting] using h

/-- A socket which the poller does not know is attached and registered. -/
theorem onConnectEstablishedInLoop_spec (h : p.Wired loop addr c.socket) :
    ∃ socket p', c.onConnectEstablishedInLoop loop addr p =
        some ({ c with status := .kConnected, socket := socket }, p') ∧
      Attached { c with status := .kConnected, socket := socket } p' loop addr ∧
      socket.fd = c.socket.fd ∧ socket.isWriting = c.socket.isWriting := by
  obtain ⟨hattach, hwired⟩ := h.attach
  obtain ⟨status, p', hrun, hwired', _⟩ :=
    hwired.enable rfl (show IOFd.kReadEvent ≠ 0#32 by decide)
  refine ⟨_, p', ?_, ⟨hwired', rfl⟩, rfl, ?_⟩
  · simp [onConnectEstablishedInLoop, changeStatus, hattach,
      IOFd.enableReadInLoop, hrun]
  · simp only [IOFd.isWriting]
    rw [IOFd.enabled_and_of_disjoint _ (by decide)]

/-- An attached socket leaves the loop and the poller. -/
theorem Attached.closeInLoop (h : c.Attached p loop addr) :
    ∃ socket p', c.closeInLoop loop addr p =
        some ({ c with status := .kDisconnected, socket := socket }, p') ∧
      p'.Wired loop addr socket ∧ socket.looper = none := by
  obtain ⟨p', hrun, hwired, _⟩ := h.wired.detach h.looper
  refine ⟨_, p', ?_, hwired, rfl⟩
  simp [TcpConnection.closeInLoop, changeStatus, hrun]

/-- Without a loop and without events, keeping output uses the null pointer. -/
theorem keepOutput_shut (hlooper : c.socket.looper = none)
    (hevents : c.socket.events = 0#32) (remaining : List UInt8) :
    c.keepOutput loop addr p remaining =
      if remaining = [] then some (c, p) else none := by
  cases remaining with
  | nil => rfl
  | cons byte rest =>
      obtain ⟨buffer, happend, _⟩ := c.outputBuffer.append_spec (byte :: rest)
      simp [keepOutput, happend, IOFd.isWriting, hevents, enableWrite,
        IOFd.enableWriteInLoop, IOFd.enable, IOFd.update, hlooper]

/-- Nothing of the message goes anywhere: there is nothing in it, or the kernel
is asked and answers that the peer is gone. -/
def Refused (c : TcpConnection) (data : List UInt8) (result : WriteResult) :
    Prop :=
  data = [] ∨ c.outputBuffer.readableBytes = 0 ∧ ¬result.Alive

variable (p loop addr) in
/-- On a closed connection `sendInLoop` writes to the socket or uses the null
pointer, unless the message is refused. -/
theorem sendInLoop_shut (hlooper : c.socket.looper = none)
    (hevents : c.socket.events = 0#32) {data : List UInt8}
    {result : WriteResult} (hfits : result.Fits data.length) :
    (c.sendInLoop loop addr p data result = none ∧ ¬c.Refused data result) ∨
      ∃ done c', c.sendInLoop loop addr p data result = some (done, c', p) ∧
        c.Alike c' ∧ (c'.accepted = c.accepted ↔ c.Refused data result) := by
  have hkeep : ∀ c' : TcpConnection, c'.socket = c.socket →
      ∀ remaining, c'.keepOutput loop addr p remaining =
        if remaining = [] then some (c', p) else none := by
    intro c' hsocket
    exact keepOutput_shut (hsocket ▸ hlooper) (hsocket ▸ hevents)
  have hwriting : c.socket.isWriting = false := by
    simp [IOFd.isWriting, hevents]
  unfold TcpConnection.sendInLoop Refused
  by_cases hempty : c.outputBuffer.readableBytes = 0
  · simp only [hwriting, hempty, Bool.not_false, beq_self_eq_true,
      Bool.and_self, if_true, true_and]
    cases result with
    | wrote n =>
        have halive : ¬¬(WriteResult.wrote n).Alive := not_not.mpr trivial
        by_cases hall : data.length - n = 0
        · refine Or.inr ⟨c.writeCompleteCallback,
            c.writeInLoop data (.wrote n), by simp only [hall, if_true]; rfl,
            ⟨rfl, rfl⟩, ?_⟩
          have htake : data.take n = data := List.take_of_length_le (by omega)
          simp [writeInLoop, htake, halive]
        · refine Or.inl ⟨?_, ?_⟩
          · have hleft : data.drop n ≠ [] := by
              rw [ne_eq, List.drop_eq_nil_iff]
              omega
            simp only [hall, if_false, hkeep (c.writeInLoop data (.wrote n)) rfl,
              if_neg hleft, Option.map_none]
          · rintro (rfl | hgone)
            · exact hall (by simp)
            · exact halive hgone
    | failed errno =>
        by_cases hgone : errno = EPIPE ∨ errno = ECONNRESET
        · have hfault : errno ≠ EWOULDBLOCK ∧
              (errno = EPIPE ∨ errno = ECONNRESET) := by
            refine ⟨?_, hgone⟩
            rcases hgone with rfl | rfl <;> decide
          refine Or.inr ⟨_, _, by simp only [if_pos hfault]; rfl, ⟨rfl, rfl⟩, ?_⟩
          simp only [WriteResult.Alive, true_iff]
          exact Or.inr fun halive => hgone.elim halive.1 halive.2
        · have halive : ¬¬(WriteResult.failed errno).Alive :=
            not_not.mpr (not_or.mp hgone)
          have hfault : ¬(errno ≠ EWOULDBLOCK ∧
              (errno = EPIPE ∨ errno = ECONNRESET)) := fun h => hgone h.2
          simp only [if_neg hfault, writeInLoop, hkeep c rfl, halive, or_false]
          by_cases hdata : data = []
          · exact Or.inr ⟨false, c, by simp [hdata], ⟨rfl, rfl⟩, by simp [hdata]⟩
          · exact Or.inl ⟨by simp [hdata], hdata⟩
  · simp only [hwriting, hempty, beq_iff_eq, Bool.and_eq_true, and_false,
      if_false, hkeep c rfl, false_and, or_false]
    by_cases hdata : data = []
    · exact Or.inr ⟨false, c, by simp [hdata], ⟨rfl, rfl⟩, by simp [hdata]⟩
    · exact Or.inl ⟨by simp [hdata], hdata⟩

end TcpConnection

end Libsaf
