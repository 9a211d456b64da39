/-
`Buffer` refines a queue of bytes: over any sequence of calls the readable
bytes are the content of the queue, and every string handed out is the front
of the queue.
-/
import Libsaf.Machine
import Libsaf.Fifo
import Libsaf.Buffer

namespace Libsaf

inductive BufferOp where
  | append (data : List UInt8)
  | retrieve (len : Nat)
  | retrieveAll
  | retrieveAsString (len : Nat)
  | retrieveAllAsString
deriving Repr, DecidableEq

/-- A buffer and the strings its callers have got from it, in order. -/
structure BufferRun where
  buffer : Buffer
  strings : List (List UInt8)
deriving Repr, DecidableEq

def BufferRun.ofSize (initialSize : Nat) : BufferRun :=
  ⟨Buffer.ofSize initialSize, []⟩

/-- The callers keep the documented bound on the length they retrieve. -/
def BufferOp.Bounded (readable : Nat) : BufferOp → Prop
  | .retrieve len | .retrieveAsString len => len ≤ readable
  | _ => True

instance (readable : Nat) (op : BufferOp) : Decidable (op.Bounded readable) := by
  cases op <;> unfold BufferOp.Bounded <;> infer_instance

def bufferMachine : Machine BufferRun BufferOp where
  enabled s op := op.Bounded s.buffer.readableBytes
  exec s
    | .append data => (s.buffer.append data).map fun b => ⟨b, s.strings⟩
    | .retrieve len => (s.buffer.retrieve len).map fun b => ⟨b, s.strings⟩
    | .retrieveAll => some ⟨s.buffer.retrieveAll, s.strings⟩
    | .retrieveAsString len => (s.buffer.retrieveAsString len).map fun r =>
        ⟨r.2, s.strings ++ [r.1]⟩
    | .retrieveAllAsString => s.buffer.retrieveAllAsString.map fun r =>
        ⟨r.2, s.strings ++ [r.1]⟩

instance (s : BufferRun) (op : BufferOp) :
    Decidable (bufferMachine.enabled s op) :=
  inferInstanceAs (Decidable (op.Bounded s.buffer.readableBytes))

/-- The purpose of the class: a queue of bytes, and the strings taken. -/
structure ByteQueue where
  fifo : Fifo UInt8
  strings : List (List UInt8)

def ByteQueue.empty : ByteQueue := ⟨.empty, []⟩

/-- Take the front of the queue and record it as a string handed out. -/
def ByteQueue.hand (q : ByteQueue) (len : Nat) : ByteQueue :=
  ⟨q.fifo.take len, q.strings ++ [q.fifo.content.take len]⟩

def byteQueueMachine : Machine ByteQueue BufferOp where
  enabled q op := op.Bounded q.fifo.content.length
  exec q
    | .append data => some ⟨q.fifo.push data, q.strings⟩
    | .retrieve len => some ⟨q.fifo.take len, q.strings⟩
    | .retrieveAll => some ⟨q.fifo.take q.fifo.content.length, q.strings⟩
    | .retrieveAsString len => some (q.hand len)
    | .retrieveAllAsString => some (q.hand q.fifo.content.length)

/-- The buffer shows the content of the queue, and both have handed out the
same strings. -/
structure BufferRun.Shows (s : BufferRun) (q : ByteQueue) : Prop where
  content : s.buffer.asString = q.fifo.content
  strings : s.strings = q.strings

theorem BufferRun.Shows.readable {s : BufferRun} {q : ByteQueue}
    (h : s.Shows q) : s.buffer.readableBytes = q.fifo.content.length := by
  rw [← h.content, Buffer.length_asString]

/-- Handing out a string is the same step on both sides. -/
theorem BufferRun.Shows.hand {s : BufferRun} {q : ByteQueue}
    (h : s.Shows q) {len : Nat} (hlen : len ≤ s.buffer.readableBytes) :
    ∃ b', s.buffer.retrieveAsString len =
        some (s.buffer.asString.take len, b') ∧
      BufferRun.Shows ⟨b', s.strings ++ [s.buffer.asString.take len]⟩
        (q.hand len) := by
  obtain ⟨b', hcall, hcontent⟩ := s.buffer.retrieveAsString_spec hlen
  refine ⟨b', hcall, ?_, ?_⟩
  · simp only [ByteQueue.hand, Fifo.content_take, hcontent, h.content]
  · simp only [ByteQueue.hand, h.strings, h.content]

theorem bufferMachine_simulates (s : BufferRun) (q : ByteQueue) (op : BufferOp)
    (h : s.Shows q) (hop : bufferMachine.enabled s op) :
    ∃ s' q', bufferMachine.exec s op = some s' ∧
      byteQueueMachine.exec q op = some q' ∧ s'.Shows q' := by
  cases op with
  | append data =>
      obtain ⟨b', hcall, hcontent⟩ := s.buffer.append_spec data
      refine ⟨⟨b', s.strings⟩, _, by simp [bufferMachine, hcall], rfl, ?_,
        h.strings⟩
      rw [hcontent, Fifo.content_push, h.content]
  | retrieve len =>
      obtain ⟨b', hcall, hcontent⟩ := s.buffer.retrieve_spec hop
      refine ⟨⟨b', s.strings⟩, _, by simp [bufferMachine, hcall], rfl, ?_,
        h.strings⟩
      rw [hcontent, Fifo.content_take, h.content]
  | retrieveAll =>
      refine ⟨_, _, rfl, rfl, ?_, h.strings⟩
      rw [Fifo.content_take, List.drop_length, Buffer.asString_retrieveAll]
  | retrieveAsString len =>
      obtain ⟨b', hcall, hshows⟩ := h.hand hop
      exact ⟨_, _, by simp [bufferMachine, hcall], rfl, hshows⟩
  | retrieveAllAsString =>
      obtain ⟨b', hcall, hshows⟩ := h.hand (Nat.le_refl _)
      have hexec := congrArg (Option.map fun r : List UInt8 × Buffer =>
        BufferRun.mk r.2 (s.strings ++ [r.1])) hcall
      refine ⟨_, _, hexec, rfl, ?_⟩
      rw [← h.readable]
      exact hshows

/-- The bytes appended by one call. -/
def BufferOp.appended : BufferOp → List UInt8
  | .append data => data
  | _ => []

/-- The queue has been fed exactly the appended bytes, call after call. -/
theorem byteQueueMachine_pushed {q q' : ByteQueue} {word : List BufferOp}
    (hrun : byteQueueMachine.run q word = some q') :
    q'.fifo.pushed = q.fifo.pushed ++ word.flatMap BufferOp.appended := by
  induction word generalizing q with
  | nil =>
      obtain rfl := Option.some.inj hrun
      simp
  | cons op word ih =>
      cases op <;>
        simp only [Machine.run, byteQueueMachine, Option.bind_some] at hrun <;>
        rw [ih hrun] <;>
        simp [BufferOp.appended, Fifo.push, Fifo.take, ByteQueue.hand]

/-- No assertion fails, the indices stay in order, the readable bytes are all
appended bytes without the prefix retrieved, and the strings handed out are
the successive fronts of the queue. -/
theorem buffer_refines_byteQueue (initialSize : Nat) (word : List BufferOp)
    (hlegal : bufferMachine.Legal (.ofSize initialSize) word) :
    ∃ s q, bufferMachine.run (.ofSize initialSize) word = some s ∧
      byteQueueMachine.run .empty word = some q ∧
      s.buffer.asString =
        (word.flatMap BufferOp.appended).drop q.fifo.taken ∧
      s.strings = q.strings ∧
      s.buffer.readerIndex ≤ s.buffer.writerIndex ∧
      s.buffer.writerIndex ≤ s.buffer.buffer.length := by
  obtain ⟨s, q, hs, hq, hshows⟩ := Machine.simulates bufferMachine_simulates
    (s := .ofSize initialSize) (t := .empty) ⟨rfl, rfl⟩ hlegal
  refine ⟨s, q, hs, hq, ?_, hshows.strings, s.buffer.reader_le_writer,
    s.buffer.writer_le_size⟩
  rw [hshows.content, Fifo.content, byteQueueMachine_pushed hq]
  rfl

/-- Growth, compaction and both kinds of retrieval in one run. -/
theorem buffer_refines_byteQueue_mixed :
    ∃ s q, bufferMachine.run (.ofSize 4)
        [.append [1, 2, 3, 4], .retrieve 3, .append [5, 6],
          .retrieveAsString 2, .append [7, 8, 9, 10, 11],
          .retrieveAllAsString] = some s ∧
      byteQueueMachine.run .empty
        [.append [1, 2, 3, 4], .retrieve 3, .append [5, 6],
          .retrieveAsString 2, .append [7, 8, 9, 10, 11],
          .retrieveAllAsString] = some q ∧
      s.buffer.asString =
        [1, 2, 3, 4, 5, 6, 7, 8, 9, 10, 11].drop q.fifo.taken ∧
      s.strings = q.strings ∧
      s.buffer.readerIndex ≤ s.buffer.writerIndex ∧
      s.buffer.writerIndex ≤ s.buffer.buffer.length :=
  buffer_refines_byteQueue 4 _ (by decide)

end Libsaf
