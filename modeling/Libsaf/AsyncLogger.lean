/-
`saf::AsyncLogger`: appenders fill the current buffer under the mutex, and the
writer thread takes the filled buffers over, writes them without the mutex and
recycles the last of them.  Buffers are shared pointers, that is addresses: one
buffer may be reached through several names at once.
-/
import Libsaf.Machine
import Libsaf.MachineInt
import Mathlib.Data.List.Nodup

namespace Libsaf

/-- The bytes of `_data` before `_curr`. -/
structure FixedBuffer (SIZE : Nat) where
  data : List UInt8
  fits : data.length ≤ SIZE
deriving Repr, DecidableEq

namespace FixedBuffer

variable {SIZE : Nat}

def empty : FixedBuffer SIZE := ⟨[], Nat.zero_le _⟩

def length (b : FixedBuffer SIZE) : Nat := b.data.length

def avail (b : FixedBuffer SIZE) : Nat := SIZE - b.data.length

/-- A line that does not fit is dropped. -/
def append (b : FixedBuffer SIZE) (line : List UInt8) : FixedBuffer SIZE :=
  if h : b.avail > line.length then
    { data := b.data ++ line
      fits := by unfold avail at h; rw [List.length_append]; omega }
  else b

theorem data_append {b : FixedBuffer SIZE} {line : List UInt8}
    (h : line.length < b.avail) : (b.append line).data = b.data ++ line := by
  rw [append, dif_pos h]

end FixedBuffer

/-- The bytes handed to the file, and how many of them were flushed. -/
structure LogFile where
  content : List UInt8
  flushed : Nat
deriving Repr, DecidableEq

/-- Where the writer is in `threadFunc`.  `measure i` is the test of the loop
over the buffers and the sum, `write i` the call of `LogFile::append`. -/
inductive WriterPc where
  | test
  | lock
  | waiting
  | measure (i : Nat)
  | write (i : Nat)
  | flush
  | reset
  | clear
  | exited
deriving Repr, DecidableEq

abbrev LogBuffer := FixedBuffer (128 * 1024)

/-- `writeBuffers`, `emptyBuffer` and `writtenLen` are the locals of
`threadFunc`.  Addresses from `next` on were never used. -/
structure AsyncLogger where
  running : Bool
  file : LogFile
  memory : Nat → LogBuffer
  next : Nat
  currBuffer : Nat
  buffers : List Nat
  pc : WriterPc
  writeBuffers : List Nat
  emptyBuffer : Nat
  writtenLen : Int

namespace AsyncLogger

/-- `new Buffer`. -/
def newBuffer (s : AsyncLogger) : Nat × AsyncLogger :=
  (s.next, { s with
    memory := Function.update s.memory s.next .empty
    next := s.next + 1 })

/-- `AsyncLogger(path)`, with the writer not started. -/
def start : AsyncLogger :=
  { running := false
    file := ⟨[], 0⟩
    memory := fun _ => .empty
    next := 1
    currBuffer := 0
    buffers := []
    pc := .exited
    writeBuffers := []
    emptyBuffer := 0
    writtenLen := 0 }

/-- The first part of `append`: a buffer without room is put aside. -/
def rotate (s : AsyncLogger) (len : Nat) : AsyncLogger :=
  if (s.memory s.currBuffer).avail ≤ len then
    let (buffer, t) := s.newBuffer
    { t with buffers := s.buffers ++ [s.currBuffer], currBuffer := buffer }
  else s

/-- `_currBuffer->append(line, len)`. -/
def appendCurr (s : AsyncLogger) (line : List UInt8) : AsyncLogger :=
  { s with
    memory := Function.update s.memory s.currBuffer
      ((s.memory s.currBuffer).append line) }

/-- `append`, one critical section. -/
def append (s : AsyncLogger) (line : List UInt8) : AsyncLogger :=
  (s.rotate line.length).appendCurr line

/-- The end of the critical section of `threadFunc`. -/
def takeOver (s : AsyncLogger) : AsyncLogger :=
  { s with
    writeBuffers := s.buffers ++ [s.currBuffer]
    buffers := s.writeBuffers
    currBuffer := s.emptyBuffer
    emptyBuffer := s.currBuffer
    writtenLen := 0
    pc := .measure 0 }

/-- One step of `threadFunc`; `none` is the failed assertion or an access out
of range.  The wait ends at any time: by a signal, by the timeout or for no
reason. -/
def threadFunc (s : AsyncLogger) : Option AsyncLogger :=
  match s.pc with
  | .test =>
      if s.running then
        if s.writeBuffers = [] then some { s with pc := .lock } else none
      else some { s with pc := .exited }
  | .lock =>
      if s.buffers = [] then some { s with pc := .waiting }
      else some s.takeOver
  | .waiting => some s.takeOver
  | .measure i =>
      if i < s.writeBuffers.length then do
        let buffer ← s.writeBuffers[i]?
        some { s with
          writtenLen := toInt (s.writtenLen + (s.memory buffer).length)
          pc := .write i }
      else some { s with pc := .flush }
  | .write i => do
      let buffer ← s.writeBuffers[i]?
      some { s with
        file := { s.file with
          content := s.file.content ++ (s.memory buffer).data }
        pc := .measure (i + 1) }
  | .flush =>
      if s.writtenLen > 0 then
        some { s with
          file := { s.file with flushed := s.file.content.length }
          pc := .reset }
      else some { s with pc := .reset }
  | .reset =>
      some { s with
        memory := Function.update s.memory s.emptyBuffer .empty
        pc := .clear }
  | .clear => some { s with writeBuffers := [], pc := .test }
  | .exited => none

/-- `start`: the new thread begins with its own spare buffer. -/
def startThread (s : AsyncLogger) : Option AsyncLogger :=
  if s.running then none
  else
    let (buffer, t) := s.newBuffer
    some { t with
      running := true
      writeBuffers := []
      emptyBuffer := buffer
      pc := .test }

/-- How many of `writeBuffers` were written. -/
def written (s : AsyncLogger) : Nat :=
  match s.pc with
  | .measure i => i
  | .write i => i
  | .flush => s.writeBuffers.length
  | .reset => s.writeBuffers.length
  | .clear => s.writeBuffers.length
  | _ => 0

/-- The not yet written part of `writeBuffers`. -/
def unwritten (s : AsyncLogger) : List Nat := s.writeBuffers.drop s.written

/-- The bytes of a list of buffers, in order. -/
def contents (s : AsyncLogger) (buffers : List Nat) : List UInt8 :=
  buffers.flatMap fun buffer => (s.memory buffer).data

end AsyncLogger

/-- A thread appends a line, the writer takes a step, `stop` asks the writer to
end, and `start` runs it anew.  The order of the appends is that of the
mutex. -/
inductive LoggerStep where
  | append (line : List UInt8)
  | threadFunc
  | stop
  | start
deriving Repr, DecidableEq

/-- The logger and all lines appended, in lock order. -/
structure LoggerTrace where
  logger : AsyncLogger
  lines : List (List UInt8)

def LoggerTrace.start : LoggerTrace := ⟨.start, []⟩

/-- Lines are shorter than a buffer, and the writer is started when no other
one runs. -/
def loggerMachine : Machine LoggerTrace LoggerStep where
  enabled s
    | .append line => line.length < 128 * 1024
    | .threadFunc => s.logger.pc ≠ .exited
    | .stop => True
    | .start => s.logger.running = false ∧ s.logger.pc = .exited
  exec s
    | .append line => some ⟨s.logger.append line, s.lines ++ [line]⟩
    | .threadFunc => s.logger.threadFunc.map fun logger =>
        { s with logger := logger }
    | .stop => some { s with logger := { s.logger with running := false } }
    | .start => s.logger.startThread.map fun logger =>
        { s with logger := logger }

namespace AsyncLogger

/-- The buffers that may hold bytes which are not in the file. -/
def pending (s : AsyncLogger) : List Nat :=
  s.unwritten ++ s.buffers ++ [s.currBuffer]

/-- No buffer is reset while it may hold unwritten bytes, and the current
buffer is none of those that wait to be written. -/
structure Unshared (s : AsyncLogger) : Prop where
  reset : s.pc = .reset → s.emptyBuffer ∉ s.pending
  current : s.currBuffer ∉ s.unwritten ++ s.buffers

/-- Between two rounds the writer holds no buffers but the spare one. -/
def Idle (s : AsyncLogger) : Prop :=
  s.pc = .test ∨ s.pc = .lock ∨ s.pc = .waiting

/-- The aliasing invariant.  The spare buffer is never current or filled; it is
empty whenever it may become current. -/
structure Recycles (s : AsyncLogger) : Prop where
  nodup : s.pending.Nodup
  spare : s.pc ≠ .exited → s.emptyBuffer ∉ s.buffers ++ [s.currBuffer]
  idle : s.Idle → s.writeBuffers = [] ∧ (s.memory s.emptyBuffer).data = []
  cleared : s.pc = .clear → (s.memory s.emptyBuffer).data = []
  exited : s.pc = .exited → s.writeBuffers = []
  index : ∀ i, s.pc = .write i → i < s.writeBuffers.length
  fresh : ∀ buffer, buffer = s.emptyBuffer ∨ buffer ∈ s.pending →
    buffer < s.next

theorem Recycles.unshared {s : AsyncLogger} (h : s.Recycles) : s.Unshared := by
  refine ⟨fun hpc => ?_, ?_⟩
  · have hnone : s.unwritten = [] := by simp [unwritten, written, hpc]
    rw [pending, hnone, List.nil_append]
    exact h.spare (by simp [hpc])
  · have hnodup := h.nodup
    rw [pending, List.nodup_append] at hnodup
    exact fun hin => hnodup.2.2 _ hin _ (List.mem_singleton_self _) rfl

theorem contents_append (s : AsyncLogger) (front back : List Nat) :
    s.contents (front ++ back) = s.contents front ++ s.contents back :=
  List.flatMap_append

theorem contents_singleton (s : AsyncLogger) (buffer : Nat) :
    s.contents [buffer] = (s.memory buffer).data := by
  simp [contents]

/-- Only the buffers that are listed matter. -/
theorem contents_congr {s t : AsyncLogger} {buffers : List Nat}
    (h : ∀ buffer ∈ buffers, t.memory buffer = s.memory buffer) :
    t.contents buffers = s.contents buffers := by
  apply List.flatMap_congr
  intro buffer hbuffer
  rw [h buffer hbuffer]

/-- The file and all bytes that are still to be written, in order. -/
def bytes (s : AsyncLogger) : List UInt8 :=
  s.file.content ++ s.contents s.pending

theorem Idle.live {s : AsyncLogger} (h : s.Idle) : s.pc ≠ .exited := by
  rcases h with hpc | hpc | hpc <;> simp [hpc]

/-- A new current buffer is empty, and the old one waits to be written. -/
theorem Recycles.rotate {s : AsyncLogger} (h : s.Recycles) {len : Nat}
    (hlen : len < 128 * 1024) :
    (s.rotate len).Recycles ∧ (s.rotate len).bytes = s.bytes ∧
      len < ((s.rotate len).memory (s.rotate len).currBuffer).avail := by
  unfold AsyncLogger.rotate
  split
  · let t : AsyncLogger := { s.newBuffer.2 with
      buffers := s.buffers ++ [s.currBuffer], currBuffer := s.next }
    have hpending : t.pending = s.pending ++ [s.next] := by
      simp [t, pending, unwritten, written, newBuffer]
    have hold : ∀ buffer ∈ s.pending, t.memory buffer = s.memory buffer := by
      intro buffer hbuffer
      have hne : buffer ≠ s.next := Nat.ne_of_lt (h.fresh buffer (Or.inr hbuffer))
      simp [t, newBuffer, hne]
    have hnew : t.memory s.next = .empty := by simp [t, newBuffer]
    change t.Recycles ∧ t.bytes = s.bytes ∧ len < (t.memory s.next).avail
    have hempty : t.memory s.emptyBuffer = s.memory s.emptyBuffer := by
      have hne : s.emptyBuffer ≠ s.next :=
        Nat.ne_of_lt (h.fresh s.emptyBuffer (Or.inl rfl))
      simp [t, newBuffer, hne]
    refine ⟨⟨?_, ?_, ?_, ?_, h.exited, h.index, ?_⟩, ?_, ?_⟩
    · rw [hpending, ← List.concat_eq_append]
      apply List.Nodup.concat _ h.nodup
      intro hin
      exact Nat.lt_irrefl _ (h.fresh s.next (Or.inr hin))
    · intro hlive hin
      rcases List.mem_append.mp hin with hold | hnext
      · exact h.spare hlive hold
      · have hlt := h.fresh s.emptyBuffer (Or.inl rfl)
        rw [List.mem_singleton] at hnext
        exact Nat.ne_of_lt hlt hnext
    · intro hidle
      exact ⟨(h.idle hidle).1, hempty ▸ (h.idle hidle).2⟩
    · intro hpc
      exact hempty ▸ h.cleared hpc
    · intro buffer hbuffer
      change buffer < s.next + 1
      rw [hpending] at hbuffer
      rcases hbuffer with hspare | hin
      · exact Nat.lt_succ_of_lt (h.fresh buffer (Or.inl hspare))
      · rcases List.mem_append.mp hin with hold | hnext
        · exact Nat.lt_succ_of_lt (h.fresh buffer (Or.inr hold))
        · rw [List.mem_singleton.mp hnext]
          exact Nat.lt_succ_self _
    · unfold bytes
      rw [hpending, contents_append, contents_singleton, hnew,
        contents_congr hold]
      simp [t, newBuffer, FixedBuffer.empty]
    · rw [hnew]
      exact hlen
  · next hroom => exact ⟨h, rfl, Nat.lt_of_not_le hroom⟩

theorem Recycles.appendCurr {s : AsyncLogger} (h : s.Recycles)
    {line : List UInt8}
    (hroom : line.length < (s.memory s.currBuffer).avail) :
    (s.appendCurr line).Recycles ∧
      (s.appendCurr line).bytes = s.bytes ++ line := by
  have hother : ∀ buffer, buffer ≠ s.currBuffer →
      (s.appendCurr line).memory buffer = s.memory buffer := by
    intro buffer hne
    simp [AsyncLogger.appendCurr, hne]
  have hempty : s.pc ≠ .exited → (s.appendCurr line).memory s.emptyBuffer =
      s.memory s.emptyBuffer := by
    intro hlive
    apply hother
    intro heq
    exact h.spare hlive (by simp [heq])
  have hfront : ∀ buffer ∈ s.unwritten ++ s.buffers,
      (s.appendCurr line).memory buffer = s.memory buffer := by
    rintro buffer hbuffer
    apply hother
    rintro rfl
    exact h.unshared.current hbuffer
  have hcurr : ((s.appendCurr line).memory s.currBuffer).data =
      (s.memory s.currBuffer).data ++ line := by
    simp [AsyncLogger.appendCurr, FixedBuffer.data_append hroom]
  refine ⟨⟨h.nodup, h.spare, ?_, ?_, h.exited, h.index, h.fresh⟩, ?_⟩
  · intro hidle
    exact ⟨(h.idle hidle).1, (congrArg FixedBuffer.data
      (hempty hidle.live)).trans (h.idle hidle).2⟩
  · intro hpc
    have hlive : s.pc ≠ .exited := by
      rw [show s.pc = .clear from hpc]
      simp
    exact (congrArg FixedBuffer.data (hempty hlive)).trans (h.cleared hpc)
  · calc (s.appendCurr line).bytes
        = s.file.content ++ ((s.appendCurr line).contents
            (s.unwritten ++ s.buffers) ++
            (s.appendCurr line).contents [s.currBuffer]) := by
          rw [← contents_append]
          rfl
      _ = s.file.content ++ (s.contents (s.unwritten ++ s.buffers) ++
            (s.contents [s.currBuffer] ++ line)) := by
          rw [contents_congr hfront, contents_singleton, contents_singleton,
            hcurr]
      _ = s.bytes ++ line := by
          simp only [bytes, pending, contents_append, List.append_assoc]

theorem Recycles.append {s : AsyncLogger} (h : s.Recycles)
    {line : List UInt8} (hline : line.length < 128 * 1024) :
    (s.append line).Recycles ∧ (s.append line).bytes = s.bytes ++ line := by
  obtain ⟨hrotate, hbytes, hroom⟩ := h.rotate hline
  rw [← hbytes]
  exact hrotate.appendCurr hroom

/-- The writer takes the filled buffers and the current one; its spare buffer
is empty and becomes the current one. -/
theorem Recycles.takeOver {s : AsyncLogger} (h : s.Recycles) (hidle : s.Idle) :
    s.takeOver.Recycles ∧ s.takeOver.bytes = s.bytes := by
  obtain ⟨hnone, hempty⟩ := h.idle hidle
  have hspare := h.spare hidle.live
  have hpending : s.pending = s.buffers ++ [s.currBuffer] := by
    simp [pending, unwritten, hnone]
  have hpending' : s.takeOver.pending = s.pending ++ [s.emptyBuffer] := by
    rw [hpending]
    simp [pending, unwritten, written, AsyncLogger.takeOver, hnone]
  refine ⟨⟨?_, ?_, ?_, ?_, ?_, ?_, ?_⟩, ?_⟩
  · rw [hpending', ← List.concat_eq_append]
    apply List.Nodup.concat _ h.nodup
    rw [hpending]
    exact hspare
  · intro _ hin
    simp only [AsyncLogger.takeOver, hnone, List.nil_append,
      List.mem_singleton] at hin
    exact hspare (by simp [hin])
  · rintro (hpc | hpc | hpc) <;> cases hpc
  · intro hpc
    cases hpc
  · intro hpc
    cases hpc
  · intro i hpc
    cases hpc
  · intro buffer hbuffer
    change buffer = s.currBuffer ∨ buffer ∈ s.takeOver.pending at hbuffer
    rw [hpending', List.mem_append, List.mem_singleton] at hbuffer
    apply h.fresh
    rcases hbuffer with hcurr | hold | hspare'
    · exact Or.inr (by simp [pending, hcurr])
    · exact Or.inr hold
    · exact Or.inl hspare'
  · unfold bytes
    rw [hpending', contents_append, contents_singleton]
    change s.file.content ++ (s.contents s.pending ++
      (s.memory s.emptyBuffer).data) = _
    rw [hempty, List.append_nil]

/-- The steps of the writer that leave all buffers as they are. -/
theorem Recycles.advance {s : AsyncLogger} (h : s.Recycles) {pc : WriterPc}
    {file : LogFile} {n : Int} (hlive : s.pc ≠ .exited)
    (hunwritten : List.Sublist
      (unwritten { s with pc := pc, file := file, writtenLen := n })
      s.unwritten)
    (hidle : Idle { s with pc := pc } → s.Idle) (hclear : pc ≠ .clear)
    (hexited : pc = .exited → s.writeBuffers = [])
    (hindex : ∀ i, pc = .write i → i < s.writeBuffers.length) :
    Recycles { s with pc := pc, file := file, writtenLen := n } := by
  have hpending : List.Sublist
      (pending { s with pc := pc, file := file, writtenLen := n }) s.pending :=
    (hunwritten.append_right s.buffers).append_right [s.currBuffer]
  refine ⟨h.nodup.sublist hpending, fun _ => h.spare hlive,
    fun hpc => h.idle (hidle hpc), fun hpc => absurd hpc hclear, hexited, hindex,
    fun buffer hbuffer => ?_⟩
  rcases hbuffer with hspare | hin
  · exact h.fresh buffer (Or.inl hspare)
  · exact h.fresh buffer (Or.inr (hpending.subset hin))

/-- Where nothing is written, the stream is what it was. -/
theorem bytes_advance {s : AsyncLogger} {pc : WriterPc} {file : LogFile}
    {n : Int} (hfile : file.content = s.file.content)
    (hunwritten :
      unwritten { s with pc := pc, file := file, writtenLen := n } =
        s.unwritten) :
    bytes { s with pc := pc, file := file, writtenLen := n } = s.bytes := by
  unfold bytes pending
  rw [hunwritten, hfile]
  rfl

theorem Recycles.test {s : AsyncLogger} (h : s.Recycles) (hpc : s.pc = .test) :
    ∃ t, s.threadFunc = some t ∧ t.Recycles ∧ t.bytes = s.bytes := by
  have hnone : s.writeBuffers = [] := (h.idle (Or.inl hpc)).1
  have hlive : s.pc ≠ .exited := by simp [hpc]
  rcases hrunning : s.running with _ | _
  · refine ⟨{ s with pc := .exited }, ?_, ?_, ?_⟩
    · simp [threadFunc, hpc, hrunning]
    · exact h.advance hlive (by simp [unwritten, hnone])
        (by simp [Idle]) (by simp) (fun _ => hnone) (by simp)
    · exact bytes_advance rfl (by simp [unwritten, hnone])
  · refine ⟨{ s with pc := .lock }, ?_, ?_, ?_⟩
    · simp [threadFunc, hpc, hrunning, hnone]
    · exact h.advance hlive (by simp [unwritten, hnone])
        (fun _ => Or.inl hpc) (by simp) (by simp) (by simp)
    · exact bytes_advance rfl (by simp [unwritten, hnone])

theorem Recycles.lock {s : AsyncLogger} (h : s.Recycles) (hpc : s.pc = .lock) :
    ∃ t, s.threadFunc = some t ∧ t.Recycles ∧ t.bytes = s.bytes := by
  have hidle : s.Idle := Or.inr (Or.inl hpc)
  by_cases hbuffers : s.buffers = []
  · refine ⟨{ s with pc := .waiting }, ?_, ?_, ?_⟩
    · simp [threadFunc, hpc, hbuffers]
    · exact h.advance hidle.live (by simp [unwritten, written, hpc])
        (fun _ => hidle) (by simp) (by simp) (by simp)
    · exact bytes_advance rfl (by simp [unwritten, written, hpc])
  · exact ⟨s.takeOver, by simp [threadFunc, hpc, hbuffers], h.takeOver hidle⟩

theorem Recycles.measure {s : AsyncLogger} (h : s.Recycles) {i : Nat}
    (hpc : s.pc = .measure i) :
    ∃ t, s.threadFunc = some t ∧ t.Recycles ∧ t.bytes = s.bytes := by
  have hlive : s.pc ≠ .exited := by simp [hpc]
  by_cases hi : i < s.writeBuffers.length
  · let sum := toInt (s.writtenLen + (s.memory s.writeBuffers[i]).length)
    refine ⟨{ s with pc := .write i, writtenLen := sum }, ?_, ?_, ?_⟩
    · simp [threadFunc, hpc, hi, sum]
    · exact h.advance hlive (by simp [unwritten, written, hpc])
        (by simp [Idle]) (by simp) (by simp) (by simpa using hi)
    · exact bytes_advance rfl (by simp [unwritten, written, hpc])
  · have hdone : s.unwritten = [] := by
      simp [unwritten, written, hpc, Nat.not_lt.mp hi]
    refine ⟨{ s with pc := .flush }, ?_, ?_, ?_⟩
    · simp [threadFunc, hpc, hi]
    · exact h.advance hlive (by simp [unwritten, written])
        (by simp [Idle]) (by simp) (by simp) (by simp)
    · exact bytes_advance rfl (by rw [hdone]; simp [unwritten, written])

/-- The bytes of one buffer go from the front of the buffers to the file. -/
theorem Recycles.write {s : AsyncLogger} (h : s.Recycles) {i : Nat}
    (hpc : s.pc = .write i) :
    ∃ t, s.threadFunc = some t ∧ t.Recycles ∧ t.bytes = s.bytes := by
  have hi : i < s.writeBuffers.length := h.index i hpc
  have hunwritten : s.unwritten =
      s.writeBuffers[i] :: s.writeBuffers.drop (i + 1) := by
    simp [unwritten, written, hpc, ← List.drop_eq_getElem_cons hi]
  let file : LogFile := { s.file with
    content := s.file.content ++ (s.memory s.writeBuffers[i]).data }
  let t : AsyncLogger := { s with pc := .measure (i + 1), file := file }
  have hunwritten' : t.unwritten = s.writeBuffers.drop (i + 1) := by
    simp [t, unwritten, written]
  refine ⟨t, ?_, ?_, ?_⟩
  · simp [threadFunc, hpc, hi, t, file]
  · apply h.advance (by simp [hpc]) _ (by simp [Idle]) (by simp) (by simp)
      (by simp)
    change t.unwritten.Sublist s.unwritten
    rw [hunwritten, hunwritten']
    exact List.sublist_cons_self _ _
  · unfold bytes pending
    rw [hunwritten, hunwritten']
    simp only [t, file, contents, List.cons_append, List.flatMap_cons,
      List.append_assoc]

theorem Recycles.flush {s : AsyncLogger} (h : s.Recycles) (hpc : s.pc = .flush) :
    ∃ t, s.threadFunc = some t ∧ t.Recycles ∧ t.bytes = s.bytes := by
  have hlive : s.pc ≠ .exited := by simp [hpc]
  let file : LogFile :=
    if s.writtenLen > 0 then
      { s.file with flushed := s.file.content.length }
    else s.file
  have hcontent : file.content = s.file.content := by
    unfold file
    split <;> rfl
  refine ⟨{ s with pc := .reset, file := file }, ?_, ?_, ?_⟩
  · unfold file
    by_cases hlen : s.writtenLen > 0 <;> simp [threadFunc, hpc, hlen]
  · exact h.advance hlive (by simp [unwritten, written, hpc])
      (by simp [Idle]) (by simp) (by simp) (by simp)
  · exact bytes_advance hcontent (by simp [unwritten, written, hpc])

/-- The buffer that is reset holds no unwritten bytes. -/
theorem Recycles.reset {s : AsyncLogger} (h : s.Recycles) (hpc : s.pc = .reset) :
    ∃ t, s.threadFunc = some t ∧ t.Recycles ∧ t.bytes = s.bytes := by
  let t : AsyncLogger := { s with
    memory := Function.update s.memory s.emptyBuffer .empty
    pc := .clear }
  have hspare : s.emptyBuffer ∉ s.pending := h.unshared.reset hpc
  have hpending : t.pending = s.pending := by
    simp [t, pending, unwritten, written, hpc]
  have hcleared : (t.memory t.emptyBuffer).data = [] := by
    simp [t, FixedBuffer.empty]
  refine ⟨t, by simp [threadFunc, hpc, t], ⟨?_, ?_, ?_, ?_, ?_, ?_, ?_⟩, ?_⟩
  · exact hpending ▸ h.nodup
  · exact fun _ => h.spare (by simp [hpc])
  · rintro (hpc' | hpc' | hpc') <;> cases hpc'
  · exact fun _ => hcleared
  · intro hpc'
    cases hpc'
  · intro i hpc'
    cases hpc'
  · rw [hpending]
    exact h.fresh
  · unfold bytes
    rw [hpending, contents_congr (s := s)]
    intro buffer hbuffer
    have hne : buffer ≠ s.emptyBuffer := by
      rintro rfl
      exact hspare hbuffer
    simp [t, hne]

theorem Recycles.clear {s : AsyncLogger} (h : s.Recycles) (hpc : s.pc = .clear) :
    ∃ t, s.threadFunc = some t ∧ t.Recycles ∧ t.bytes = s.bytes := by
  let t : AsyncLogger := { s with writeBuffers := [], pc := .test }
  have hpending : t.pending = s.pending := by
    simp [t, pending, unwritten, written, hpc]
  refine ⟨t, by simp [threadFunc, hpc, t],
    ⟨hpending ▸ h.nodup, fun _ => h.spare (by simp [hpc]),
      fun _ => ⟨rfl, h.cleared hpc⟩, ?_, fun _ => rfl, ?_,
      hpending ▸ h.fresh⟩, ?_⟩
  · intro hpc'
    cases hpc'
  · intro i hpc'
    cases hpc'
  · unfold bytes
    rw [hpending]
    rfl

theorem start_recycles : start.Recycles where
  nodup := List.nodup_singleton _
  spare hpc := absurd rfl hpc
  idle := by rintro (hpc | hpc | hpc) <;> cases hpc
  cleared hpc := by cases hpc
  exited _ := rfl
  index i hpc := by cases hpc
  fresh buffer hbuffer := by
    simp [start, pending, unwritten, written] at hbuffer ⊢
    exact hbuffer

/-- One step of the writer thread. -/
theorem Recycles.step {s : AsyncLogger} (h : s.Recycles)
    (hlive : s.pc ≠ .exited) :
    ∃ t, s.threadFunc = some t ∧ t.Recycles ∧ t.bytes = s.bytes := by
  cases hpc : s.pc with
  | test => exact h.test hpc
  | lock => exact h.lock hpc
  | waiting =>
      exact ⟨s.takeOver, by simp [threadFunc, hpc],
        h.takeOver (Or.inr (Or.inr hpc))⟩
  | measure i => exact h.measure hpc
  | write i => exact h.write hpc
  | flush => exact h.flush hpc
  | reset => exact h.reset hpc
  | clear => exact h.clear hpc
  | exited => exact absurd hpc hlive

theorem Recycles.startThread {s : AsyncLogger} (h : s.Recycles)
    (hrunning : s.running = false) (hpc : s.pc = .exited) :
    ∃ t, s.startThread = some t ∧ t.Recycles ∧ t.bytes = s.bytes := by
  have hnone : s.writeBuffers = [] := h.exited hpc
  let t : AsyncLogger := { s.newBuffer.2 with
    running := true
    writeBuffers := []
    emptyBuffer := s.next
    pc := .test }
  have hpending : t.pending = s.pending := by
    simp [t, pending, unwritten, hnone, newBuffer]
  have hbelow : ∀ buffer ∈ s.pending, buffer < s.next :=
    fun buffer hbuffer => h.fresh buffer (Or.inr hbuffer)
  refine ⟨t, by simp [AsyncLogger.startThread, hrunning, newBuffer, t],
    ⟨hpending ▸ h.nodup, ?_, fun _ => ⟨rfl, ?_⟩, ?_, fun _ => rfl, ?_, ?_⟩, ?_⟩
  · intro _ hin
    have hpending' : s.next ∈ s.pending := by
      rw [pending, List.append_assoc]
      exact List.mem_append_right _ hin
    exact Nat.lt_irrefl _ (hbelow s.next hpending')
  · simp [t, newBuffer, FixedBuffer.empty]
  · intro hpc'
    cases hpc'
  · intro i hpc'
    cases hpc'
  · rw [hpending]
    rintro buffer (hspare | hin)
    · exact hspare ▸ Nat.lt_succ_self _
    · exact Nat.lt_succ_of_lt (hbelow buffer hin)
  · unfold bytes
    rw [hpending, contents_congr (s := s)]
    · rfl
    · intro buffer hbuffer
      have hne : buffer ≠ s.next := Nat.ne_of_lt (hbelow buffer hbuffer)
      simp [t, newBuffer, hne]

end AsyncLogger

/-- The stream: the file, what the writer has still to write, the filled
buffers and the current one are the lines in lock order. -/
def LoggerTrace.Stream (s : LoggerTrace) : Prop :=
  s.logger.file.content ++ s.logger.contents s.logger.unwritten ++
    s.logger.contents s.logger.buffers ++
    s.logger.contents [s.logger.currBuffer] = s.lines.flatten

theorem LoggerTrace.stream_iff (s : LoggerTrace) :
    s.Stream ↔ s.logger.bytes = s.lines.flatten := by
  simp only [Stream, AsyncLogger.bytes, AsyncLogger.pending,
    AsyncLogger.contents_append, List.append_assoc]

/-- Every step keeps the aliasing invariant and the bytes. -/
theorem logger_step {s : LoggerTrace} {step : LoggerStep}
    (hs : s.logger.Recycles) (hbytes : s.logger.bytes = s.lines.flatten)
    (henabled : loggerMachine.enabled s step) :
    ∃ t, loggerMachine.exec s step = some t ∧ t.logger.Recycles ∧
      t.logger.bytes = t.lines.flatten := by
  cases step with
  | append line =>
      obtain ⟨hs', hbytes'⟩ := hs.append henabled
      exact ⟨_, rfl, hs', by simp [hbytes', hbytes]⟩
  | threadFunc =>
      obtain ⟨t, hexec, hs', hbytes'⟩ := hs.step henabled
      exact ⟨_, by simp [loggerMachine, hexec]; rfl, hs', hbytes'.trans hbytes⟩
  | stop => exact ⟨_, rfl, ⟨hs.nodup, hs.spare, hs.idle, hs.cleared, hs.exited,
      hs.index, hs.fresh⟩, hbytes⟩
  | start =>
      obtain ⟨t, hexec, hs', hbytes'⟩ :=
        hs.startThread henabled.1 henabled.2
      exact ⟨_, by simp [loggerMachine, hexec]; rfl, hs', hbytes'.trans hbytes⟩

theorem logger_bytes (word : List LoggerStep)
    (hlegal : loggerMachine.Legal .start word) :
    loggerMachine.Holds
      (fun s => s.logger.Recycles ∧ s.logger.bytes = s.lines.flatten)
      .start word :=
  Machine.holds_of_step (fun _ _ h henabled => logger_step h.1 h.2 henabled)
    ⟨AsyncLogger.start_recycles, rfl⟩ hlegal

/-- Log stream.  Whatever the appenders and the writer do, the stream is that
of the lines in lock order; and no buffer that may hold unwritten bytes is
reset or filled as the current one. -/
theorem logger_stream (word : List LoggerStep)
    (hlegal : loggerMachine.Legal .start word) :
    loggerMachine.Holds (fun s => s.Stream ∧ s.logger.Unshared) .start word := by
  have hrun := logger_bytes word hlegal
  exact hrun.mono fun s hs => ⟨s.stream_iff.mpr hs.2, hs.1.unshared⟩

instance (s : LoggerTrace) (step : LoggerStep) :
    Decidable (loggerMachine.enabled s step) :=
  match step with
  | .append line => inferInstanceAs (Decidable (line.length < 128 * 1024))
  | .threadFunc => inferInstanceAs (Decidable (s.logger.pc ≠ .exited))
  | .stop => isTrue trivial
  | .start => inferInstanceAs
      (Decidable (s.logger.running = false ∧ s.logger.pc = .exited))

/-- Lines arrive before the swap and while the writer is in the middle of a
buffer. -/
theorem logger_stream_interleaved :
    loggerMachine.Holds (fun s => s.Stream ∧ s.logger.Unshared) .start
      [.start, .append [1, 2], .threadFunc, .threadFunc, .append [3],
        .threadFunc, .threadFunc, .append [4], .threadFunc, .threadFunc,
        .threadFunc, .threadFunc, .threadFunc, .stop, .threadFunc] :=
  logger_stream _ (by decide +kernel)

end Libsaf
