/-
`saf::UdpConnection`: the methods that run on the thread of the loop.  The
outcome of `sendto` is a function of the datagram, and of a callback it matters
here whether it is set; a callback that is set is reported to the caller, who
lets the environment act.
-/
import Libsaf.Buffer
import Libsaf.Machine

namespace Libsaf

/-- `sent` are the datagrams that were passed to `sendto`. -/
structure UdpConnection where
  connecting : Bool
  writing : Bool
  senderFd : Int
  inputBuffer : Buffer
  outputBuffer : Buffer
  recvMessageCallback : Bool
  writeCompleteCallback : Bool
  connectChangeCallback : Bool
  sent : List (List UInt8)
deriving Repr, DecidableEq

/-- What `handleWriteInLoop` leaves to do: nothing, the call of the
write-complete callback, or a functor that calls it again. -/
inductive UdpWrite where
  | done
  | complete
  | again
deriving Repr, DecidableEq

namespace UdpConnection

/-- `UdpConnection(loop, key, addr)`.  The constructor leaves `_connecting` and
`_senderFd` unset; nothing here reads them before they are set. -/
def ofAddr : UdpConnection :=
  { connecting := false
    writing := false
    senderFd := 0
    inputBuffer := Buffer.ofSize Buffer.kInitialSize
    outputBuffer := Buffer.ofSize Buffer.kInitialSize
    recvMessageCallback := false
    writeCompleteCallback := false
    connectChangeCallback := false
    sent := [] }

/-- `bindDefaultCallbacks` of the server; callbacks that the server does not
have are not set. -/
def bindDefaultCallbacks (c : UdpConnection) (fd : Int)
    (recvMessage writeComplete connectChange : Bool) : UdpConnection :=
  { c with
    senderFd := fd
    recvMessageCallback := recvMessage || c.recvMessageCallback
    writeCompleteCallback := writeComplete || c.writeCompleteCallback
    connectChangeCallback := connectChange || c.connectChangeCallback }

/-- `unbindDefaultCallbacks` of the server. -/
def unbindDefaultCallbacks (c : UdpConnection) : UdpConnection :=
  { c with senderFd := 0 }

/-- `handleReadInLoop`; `left` is the input buffer as the message callback
leaves it. -/
def handleReadInLoop (c : UdpConnection) (data : List UInt8) (left : Buffer) :
    Option UdpConnection :=
  (c.inputBuffer.append data).map fun inputBuffer =>
    { c with
      inputBuffer :=
        if c.recvMessageCallback then left else inputBuffer.retrieveAll }

/-- `onConnectEstablishedInLoop` up to its callback. -/
def onConnectEstablishedInLoop (c : UdpConnection) : UdpConnection :=
  { c with connecting := true }

/-- `closeInLoop` up to its callbacks, and the first line of `close`. -/
def closeInLoop (c : UdpConnection) : UdpConnection :=
  { c with connecting := false }

def handleWriteInLoop (c : UdpConnection) (sendto : List UInt8 → Int) :
    Option (UdpWrite × UdpConnection) :=
  if c.senderFd = 0 then some (.done, c)
  else
    let n := sendto c.outputBuffer.asString
    let c := { c with sent := c.sent ++ [c.outputBuffer.asString] }
    if n > 0 then
      (c.outputBuffer.retrieve n.toNat).map fun outputBuffer =>
        let c := { c with outputBuffer := outputBuffer }
        if c.outputBuffer.readableBytes = 0 then
          (if c.writeCompleteCallback then .complete else .done,
            { c with writing := false })
        else (.again, c)
    else
      -- an error, or an empty datagram: `_writing` stays set
      some (.done, c)

def sendInLoop (c : UdpConnection) (data : List UInt8)
    (sendto : List UInt8 → Int) : Option (UdpWrite × UdpConnection) :=
  (c.outputBuffer.append data).bind fun outputBuffer =>
    let c := { c with outputBuffer := outputBuffer }
    if !c.writing then
      { c with writing := true }.handleWriteInLoop sendto
    else some (.done, c)

end UdpConnection

/-- A datagram is sent whole, or the call fails. -/
def sendtoResult (whole : Bool) (datagram : List UInt8) : Int :=
  if whole then datagram.length else -1

/-- A call of `sendInLoop`, or of a queued `handleWriteInLoop`, with the outcome
of the `sendto` that it may make.  Sends of a write-complete callback follow the
call that made it, because the callback is called last. -/
inductive UdpSendStep where
  | sendInLoop (payload : List UInt8) (whole : Bool)
  | handleWriteInLoop (whole : Bool)
deriving Repr, DecidableEq

/-- A connection, how many functors of `handleWriteInLoop` are queued, how often
the write-complete callback was called, and the payloads given to
`sendInLoop`. -/
structure UdpSender where
  conn : UdpConnection
  queued : Nat
  completed : Nat
  payloads : List (List UInt8)
deriving Repr, DecidableEq

namespace UdpSender

/-- A connection that was bound to the socket `fd` and has sent nothing. -/
def ofFd (fd : Int) (writeComplete : Bool) : UdpSender :=
  { conn := UdpConnection.ofAddr.bindDefaultCallbacks fd true writeComplete true
    queued := 0
    completed := 0
    payloads := [] }

/-- What is done with the result of a method. -/
def after (s : UdpSender) (write : UdpWrite) (conn : UdpConnection) :
    UdpSender :=
  match write with
  | .done => { s with conn := conn }
  | .complete => { s with conn := conn, completed := s.completed + 1 }
  | .again => { s with conn := conn, queued := s.queued + 1 }

/-- Every payload was passed to `sendto` as a datagram of its own, in order. -/
def Independent (s : UdpSender) : Prop := s.conn.sent = s.payloads

instance (s : UdpSender) : Decidable s.Independent :=
  inferInstanceAs (Decidable (s.conn.sent = s.payloads))

end UdpSender

def udpSendMachine : Machine UdpSender UdpSendStep where
  enabled s
    | .sendInLoop _ _ => True
    | .handleWriteInLoop _ => 0 < s.queued
  exec s
    | .sendInLoop payload whole =>
        (s.conn.sendInLoop payload (sendtoResult whole)).map
          fun (write, conn) =>
            { s with payloads := s.payloads ++ [payload] }.after write conn
    | .handleWriteInLoop whole =>
        (s.conn.handleWriteInLoop (sendtoResult whole)).map
          fun (write, conn) =>
            { s with queued := s.queued - 1 }.after write conn

/-- `sendto` has taken the payload, and it was not empty. -/
def UdpSendStep.Delivered : UdpSendStep → Prop
  | .sendInLoop payload whole => payload ≠ [] ∧ whole = true
  | .handleWriteInLoop _ => True

instance (step : UdpSendStep) : Decidable step.Delivered :=
  match step with
  | .sendInLoop payload whole =>
      inferInstanceAs (Decidable (payload ≠ [] ∧ whole = true))
  | .handleWriteInLoop _ => isTrue trivial

instance (s : UdpSender) (step : UdpSendStep) :
    Decidable (udpSendMachine.enabled s step) :=
  match step with
  | .sendInLoop _ _ => isTrue trivial
  | .handleWriteInLoop _ => inferInstanceAs (Decidable (0 < s.queued))

namespace UdpConnection

/-- The datagram is sent whole, and the next payload finds `_writing` unset. -/
theorem handleWriteInLoop_whole {c : UdpConnection} (hfd : c.senderFd ≠ 0)
    (hsome : c.outputBuffer.asString ≠ []) :
    ∃ outputBuffer, outputBuffer.asString = [] ∧
      c.handleWriteInLoop (sendtoResult true) =
        some (if c.writeCompleteCallback then .complete else .done,
          { c with
            outputBuffer := outputBuffer
            writing := false
            sent := c.sent ++ [c.outputBuffer.asString] }) := by
  have hlength := c.outputBuffer.length_asString
  have hpos : 0 < c.outputBuffer.asString.length :=
    List.length_pos_iff.mpr hsome
  obtain ⟨outputBuffer, hretrieve, hstring⟩ :=
    c.outputBuffer.retrieve_spec (Nat.le_of_eq hlength)
  rw [List.drop_length] at hstring
  have hread : outputBuffer.readableBytes = 0 := by
    rw [← Buffer.length_asString, hstring, List.length_nil]
  rw [hlength] at hretrieve hpos
  refine ⟨outputBuffer, hstring, ?_⟩
  simp [handleWriteInLoop, hfd, sendtoResult, hpos, hretrieve, hread]

/-- Otherwise the datagram stays in the buffer, and `_writing` stays set. -/
theorem handleWriteInLoop_short {c : UdpConnection} (hfd : c.senderFd ≠ 0)
    {whole : Bool} (hshort : ¬ (c.outputBuffer.asString ≠ [] ∧ whole = true)) :
    c.handleWriteInLoop (sendtoResult whole) =
      some (.done, { c with sent := c.sent ++ [c.outputBuffer.asString] }) := by
  have hn : ¬ sendtoResult whole c.outputBuffer.asString > 0 := by
    cases whole with
    | false => simp [sendtoResult]
    | true =>
        have hempty : c.outputBuffer.asString = [] := by
          by_contra hsome
          exact hshort ⟨hsome, rfl⟩
        simp [sendtoResult, hempty]
  simp [handleWriteInLoop, hfd, hn]

/-- While `_writing` is set, a payload is only put behind the others. -/
theorem sendInLoop_writing {c : UdpConnection} (hwriting : c.writing = true)
    (payload : List UInt8) (sendto : List UInt8 → Int) :
    ∃ outputBuffer, c.sendInLoop payload sendto =
      some (.done, { c with outputBuffer := outputBuffer }) := by
  obtain ⟨outputBuffer, happend, _⟩ := c.outputBuffer.append_spec payload
  exact ⟨outputBuffer, by simp [sendInLoop, happend, hwriting]⟩

end UdpConnection

namespace UdpSender

/-- The connection is bound and waits for the next payload. -/
structure Ready (s : UdpSender) : Prop where
  bound : s.conn.senderFd ≠ 0
  writing : s.conn.writing = false
  output : s.conn.outputBuffer.asString = []
  queued : s.queued = 0
  independent : s.Independent

/-- A `sendto` did not take its datagram: `_writing` is set, and nobody will
clear it. -/
structure Stuck (s : UdpSender) : Prop where
  writing : s.conn.writing = true
  queued : s.queued = 0
  short : s.conn.sent.length ≤ s.payloads.length

theorem ofFd_ready {fd : Int} (hfd : fd ≠ 0) (writeComplete : Bool) :
    (ofFd fd writeComplete).Ready :=
  ⟨hfd, rfl, rfl, rfl, rfl⟩

variable {s : UdpSender}

/-- The payload is alone in the datagram that is passed to `sendto`. -/
theorem Ready.sendInLoop (h : s.Ready) (payload : List UInt8) (whole : Bool) :
    ∃ t, udpSendMachine.exec s (.sendInLoop payload whole) = some t ∧
      t.Independent ∧
      (payload ≠ [] ∧ whole = true → t.Ready) ∧
      (¬ (payload ≠ [] ∧ whole = true) → t.Stuck) := by
  obtain ⟨outputBuffer, happend, hstring⟩ :=
    s.conn.outputBuffer.append_spec payload
  rw [h.output, List.nil_append] at hstring
  let conn : UdpConnection := { s.conn with
    outputBuffer := outputBuffer
    writing := true }
  have hcall : s.conn.sendInLoop payload (sendtoResult whole) =
      conn.handleWriteInLoop (sendtoResult whole) := by
    simp [UdpConnection.sendInLoop, happend, h.writing, conn]
  have hsent : s.conn.sent ++ [conn.outputBuffer.asString] =
      s.payloads ++ [payload] := by
    rw [h.independent]
    exact congrArg (fun datagram => s.payloads ++ [datagram]) hstring
  by_cases hwhole : payload ≠ [] ∧ whole = true
  · obtain ⟨hsome, rfl⟩ := hwhole
    have hsome' : conn.outputBuffer.asString ≠ [] := by
      rw [show conn.outputBuffer.asString = payload from hstring]
      exact hsome
    obtain ⟨emptied, hempty, hwrite⟩ :=
      conn.handleWriteInLoop_whole h.bound hsome'
    let t := ({ s with payloads := s.payloads ++ [payload] } : UdpSender).after
      (if conn.writeCompleteCallback then .complete else .done)
      { conn with
        outputBuffer := emptied
        writing := false
        sent := conn.sent ++ [conn.outputBuffer.asString] }
    have hexec : udpSendMachine.exec s (.sendInLoop payload true) = some t := by
      simp only [udpSendMachine, hcall, hwrite, Option.map_some]
      rfl
    have hready : t.Ready := by
      unfold t
      split
      · exact ⟨h.bound, rfl, hempty, h.queued, hsent⟩
      · exact ⟨h.bound, rfl, hempty, h.queued, hsent⟩
    exact ⟨t, hexec, hready.independent, fun _ => hready,
      fun hnot => absurd ⟨hsome, rfl⟩ hnot⟩
  · have hshort : ¬ (conn.outputBuffer.asString ≠ [] ∧ whole = true) := by
      rw [show conn.outputBuffer.asString = payload from hstring]
      exact hwhole
    let t : UdpSender := { s with
      conn := { conn with sent := conn.sent ++ [conn.outputBuffer.asString] }
      payloads := s.payloads ++ [payload] }
    have hexec : udpSendMachine.exec s (.sendInLoop payload whole) = some t := by
      simp only [udpSendMachine, hcall,
        conn.handleWriteInLoop_short h.bound hshort, Option.map_some]
      rfl
    refine ⟨t, hexec, hsent, fun hnot => absurd hnot hwhole, fun _ => ?_⟩
    exact ⟨rfl, h.queued, Nat.le_of_eq (congrArg List.length hsent)⟩

/-- The next payload waits for a `sendto` that nobody makes. -/
theorem Stuck.step (h : s.Stuck) {step : UdpSendStep}
    (henabled : udpSendMachine.enabled s step) {t : UdpSender}
    (hexec : udpSendMachine.exec s step = some t) : ¬ t.Independent := by
  cases step with
  | handleWriteInLoop whole =>
      have hqueued : 0 < s.queued := henabled
      rw [h.queued] at hqueued
      exact absurd hqueued (Nat.lt_irrefl 0)
  | sendInLoop payload whole =>
      obtain ⟨outputBuffer, hsend⟩ :=
        UdpConnection.sendInLoop_writing h.writing payload (sendtoResult whole)
      simp only [udpSendMachine, hsend, Option.map_some, after,
        Option.some.injEq] at hexec
      obtain rfl := hexec
      intro hsame
      have hlength := congrArg List.length hsame
      have hshort := h.short
      simp only [List.length_append, List.length_singleton] at hlength
      omega

/-- From a connection that waits for a payload. -/
theorem Ready.independent_iff (h : s.Ready) {word : List UdpSendStep}
    (hlegal : udpSendMachine.Legal s word) :
    udpSendMachine.Holds Independent s word ↔
      ∀ step ∈ word.dropLast, step.Delivered := by
  induction word generalizing s with
  | nil => exact ⟨fun _ step hstep => absurd hstep List.not_mem_nil,
      fun _ => h.independent⟩
  | cons step word ih =>
      cases step with
      | handleWriteInLoop whole =>
          have hqueued : 0 < s.queued := hlegal.1
          rw [h.queued] at hqueued
          exact absurd hqueued (Nat.lt_irrefl 0)
      | sendInLoop payload whole =>
          obtain ⟨t, hexec, hsame, hwhole, hshort⟩ := h.sendInLoop payload whole
          have hrest := hlegal.2 t hexec
          have hholds : udpSendMachine.Holds Independent s
              (.sendInLoop payload whole :: word) ↔
                udpSendMachine.Holds Independent t word := by
            constructor
            · rintro ⟨_, t', ht', hholds⟩
              obtain rfl : t = t' := Option.some.inj (hexec.symm.trans ht')
              exact hholds
            · exact fun hholds => ⟨h.independent, t, hexec, hholds⟩
          rw [hholds]
          cases word with
          | nil => exact ⟨fun _ step hstep => absurd hstep List.not_mem_nil,
              fun _ => hsame⟩
          | cons next word =>
              rw [List.dropLast_cons_of_ne_nil (List.cons_ne_nil next word),
                List.forall_mem_cons]
              by_cases hdone : payload ≠ [] ∧ whole = true
              · rw [ih (hwhole hdone) hrest]
                exact ⟨fun hall => ⟨hdone, hall⟩, fun hall => hall.2⟩
              · constructor
                · rintro ⟨_, u, hu, hholds⟩
                  exact absurd hholds.head
                    ((hshort hdone).step hrest.1 hu)
                · exact fun hall => absurd hall.1 hdone

end UdpSender

/-- Independent datagrams.  Every payload given to a bound connection is passed
to `sendto` as a datagram of its own exactly when all of them but the last are
not empty and are sent: otherwise `_writing` stays set, and the payloads that
follow are only put into the buffer. -/
theorem udpSend_independent_iff {fd : Int} (hfd : fd ≠ 0) (writeComplete : Bool)
    (word : List UdpSendStep)
    (hlegal : udpSendMachine.Legal (UdpSender.ofFd fd writeComplete) word) :
    udpSendMachine.Holds UdpSender.Independent
        (UdpSender.ofFd fd writeComplete) word ↔
      ∀ step ∈ word.dropLast, step.Delivered :=
  (UdpSender.ofFd_ready hfd writeComplete).independent_iff hlegal

theorem udpSend_independent_iff_three :
    udpSendMachine.Holds UdpSender.Independent (UdpSender.ofFd 5 true)
      [.sendInLoop [1, 2] true, .sendInLoop [3] true, .sendInLoop [4] false] :=
  (udpSend_independent_iff (by decide) true _ (by decide +kernel)).mpr
    (by decide +kernel)

/-- The first `sendto` fails, and the second payload is not passed on; and so
it is behind an empty payload. -/
theorem udpSend_not_independent :
    ¬ udpSendMachine.Holds UdpSender.Independent (UdpSender.ofFd 5 true)
        [.sendInLoop [1] false, .sendInLoop [2] true] ∧
      ¬ udpSendMachine.Holds UdpSender.Independent (UdpSender.ofFd 5 true)
        [.sendInLoop [] true, .sendInLoop [2] true] := by
  constructor
  · rw [(UdpSender.ofFd_ready (by decide) true).independent_iff
      (by decide +kernel)]
    decide +kernel
  · rw [(UdpSender.ofFd_ready (by decide) true).independent_iff
      (by decide +kernel)]
    decide +kernel

end Libsaf
