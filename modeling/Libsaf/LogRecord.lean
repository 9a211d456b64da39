/-
The records of `log`: a buffer is filled by `appendString` and `appendInteger`,
which skip what has no room, and passed to `AsyncLogger::append`, which never
skips it.
-/
import Libsaf.AsyncLogger
import Libsaf.Convert

namespace Libsaf

inductive LogLevel where
  | DEBUG
  | INFO
  | WARN
  | ERROR
  | FATAL
  | COUNT
deriving Repr, DecidableEq

/-- The value of the enumerator. -/
def LogLevel.toNat : LogLevel → Nat
  | .DEBUG => 0
  | .INFO => 1
  | .WARN => 2
  | .ERROR => 3
  | .FATAL => 4
  | .COUNT => 5

namespace FixedBuffer

variable {SIZE : Nat}

/-- `_curr = _data`. -/
def reset (_ : FixedBuffer SIZE) : FixedBuffer SIZE := .empty

/-- `convert(current(), v)` and `add`: the text is written behind `_curr`, with
a zero that stays there. -/
def addText (b : FixedBuffer SIZE) (text : List UInt8) :
    Option (FixedBuffer SIZE) :=
  if h : text.length < b.avail then
    some
      { data := b.data ++ text
        fits := by unfold avail at h; rw [List.length_append]; omega }
  else none

end FixedBuffer

/-- What a call on the buffer appends. -/
inductive RecordCall where
  | appendString (str : List UInt8)
  | appendInteger (T : IntegerType) (v : T.Value)

/-- The text that `convert` writes. -/
abbrev Conversion := (T : IntegerType) → T.Value → List UInt8

namespace Logging

def appendString (buffer : LogBuffer) (str : List UInt8) : LogBuffer :=
  buffer.append str

def appendInteger (convert : Conversion) (buffer : LogBuffer)
    {T : IntegerType} (v : T.Value) : Option LogBuffer :=
  if kMaxNumericSize ≤ buffer.avail then buffer.addText (convert T v)
  else some buffer

end Logging

open Logging

/-- Any calls in any order; `none` is a write behind the buffer. -/
def recordMachine (convert : Conversion) : Machine LogBuffer RecordCall where
  enabled _ _ := True
  exec buffer
    | .appendString str => some (appendString buffer str)
    | .appendInteger _ v => appendInteger convert buffer v

/-- There is room for more. -/
def Open (buffer : LogBuffer) : Prop := buffer.length < 128 * 1024

theorem reset_open (buffer : LogBuffer) : Open buffer.reset :=
  show 0 < 128 * 1024 by decide

theorem appendString_open {buffer : LogBuffer} (h : Open buffer)
    (str : List UInt8) : Open (appendString buffer str) := by
  rw [Open, FixedBuffer.length, appendString]
  by_cases hroom : str.length < buffer.avail
  · rw [FixedBuffer.data_append hroom, List.length_append]
    rw [FixedBuffer.avail] at hroom
    omega
  · rw [FixedBuffer.append, dif_neg hroom]
    exact h

/-- The smallest room that is checked for is larger than any integer. -/
theorem appendInteger_open {convert : Conversion}
    (hconvert : ∀ T v, (convert T v).length ≤ 21) {buffer : LogBuffer}
    (h : Open buffer) {T : IntegerType} (v : T.Value) :
    ∃ buffer', appendInteger convert buffer v = some buffer' ∧
      Open buffer' := by
  have hlength := hconvert T v
  unfold appendInteger
  split
  · next hroom =>
      have hnumeric : (convert T v).length < buffer.avail :=
        Nat.lt_of_le_of_lt hlength (Nat.lt_of_lt_of_le (by decide) hroom)
      rw [FixedBuffer.addText, dif_pos hnumeric]
      refine ⟨_, rfl, ?_⟩
      rw [FixedBuffer.avail] at hnumeric
      rw [Open, FixedBuffer.length, List.length_append]
      omega
  · exact ⟨buffer, rfl, h⟩

theorem record_step {convert : Conversion}
    (hconvert : ∀ T v, (convert T v).length ≤ 21) (buffer : LogBuffer)
    (call : RecordCall) (h : Open buffer) :
    ∃ buffer', (recordMachine convert).exec buffer call = some buffer' ∧
      Open buffer' := by
  cases call with
  | appendString str => exact ⟨_, rfl, appendString_open h str⟩
  | appendInteger T v => exact appendInteger_open hconvert h v

theorem record_holds {convert : Conversion}
    (hconvert : ∀ T v, (convert T v).length ≤ 21) (buffer : LogBuffer)
    (calls : List RecordCall) :
    (recordMachine convert).Holds Open buffer.reset calls :=
  Machine.holds_of_step (G := fun _ _ => True)
    (fun buffer call h _ => record_step hconvert buffer call h)
    (reset_open buffer) (Machine.meets_of_forall fun _ _ _ => trivial)

namespace AsyncLogger

/-- `append` has put the whole line behind the bytes of the current buffer, or
into a new one, with the full one set aside as it was. -/
structure Stores (s t : AsyncLogger) (line : List UInt8) : Prop where
  fits : line.length < (s.memory s.currBuffer).avail →
    t.currBuffer = s.currBuffer ∧ t.buffers = s.buffers ∧
      (t.memory t.currBuffer).data = (s.memory s.currBuffer).data ++ line
  full : (s.memory s.currBuffer).avail ≤ line.length →
    t.currBuffer ≠ s.currBuffer ∧ t.buffers = s.buffers ++ [s.currBuffer] ∧
      t.memory s.currBuffer = s.memory s.currBuffer ∧
      (t.memory t.currBuffer).data = line
  others : ∀ buffer < s.next, buffer ≠ t.currBuffer →
    t.memory buffer = s.memory buffer

/-- A line that is shorter than a buffer is stored. -/
theorem append_stores {s : AsyncLogger} (hs : s.currBuffer < s.next)
    {line : List UInt8} (hline : line.length < 128 * 1024) :
    s.Stores (s.append line) line := by
  unfold append rotate
  split
  · next hfull =>
      have hempty : line.length < (FixedBuffer.empty : LogBuffer).avail := hline
      have hnew : ((FixedBuffer.empty : LogBuffer).append line).data = line :=
        FixedBuffer.data_append hempty
      have hcurr : s.currBuffer ≠ s.next := Nat.ne_of_lt hs
      refine ⟨fun hfits => absurd hfits (Nat.not_lt.mpr hfull),
        fun _ => ⟨hcurr.symm, rfl, ?_, ?_⟩, fun buffer hbuffer _ => ?_⟩
      · simp [appendCurr, newBuffer, hcurr]
      · simp [appendCurr, newBuffer, hnew]
      · have hne : buffer ≠ s.next := Nat.ne_of_lt hbuffer
        simp [appendCurr, newBuffer, hne]
  · next hroom =>
      have hfits : line.length < (s.memory s.currBuffer).avail :=
        Nat.lt_of_not_le hroom
      refine ⟨fun _ => ⟨rfl, rfl, ?_⟩, fun hfull => absurd hfull hroom,
        fun buffer _ hne => ?_⟩
      · simp [appendCurr, FixedBuffer.data_append hfits]
      · exact Function.update_of_ne hne _ _

end AsyncLogger

/-- The arguments of `log`, with the texts that the C library makes of them: of
the error, of the time of day and of the format. -/
structure LogEntry where
  level : LogLevel
  file : List UInt8
  line : IntegerType.int.Value
  function : Option (List UInt8)
  error : IntegerType.int.Value
  errnoToString : List UInt8
  timeStr : List UInt8
  fractionalSeconds : IntegerType.int.Value
  content : List UInt8

namespace Logging

/-- The characters of a literal. -/
def literal (str : String) : List UInt8 := str.toUTF8.data.toList

def LogLevelName : List String :=
  ["DEBUG -", "INFO -", "WARN -", "ERROR -", "FATAL -"]

def errorCalls (entry : LogEntry) : List RecordCall :=
  if entry.error.val ≠ 0 then
    [.appendString (literal " "), .appendString entry.errnoToString,
      .appendString (literal " errno("), .appendInteger .int entry.error,
      .appendString (literal ") -")]
  else []

/-- `appendTime`. -/
def timeCalls (entry : LogEntry) : List RecordCall :=
  [.appendString entry.timeStr, .appendString (literal ":"),
    .appendInteger .int entry.fractionalSeconds, .appendString (literal " ")]

def fileCalls (entry : LogEntry) : List RecordCall :=
  [.appendString (literal "- "), .appendString entry.file,
    .appendString (literal "("), .appendInteger .int entry.line,
    .appendString (literal ")")]

def functionCalls (entry : LogEntry) : List RecordCall :=
  match entry.function with
  | some function => [.appendString (literal " - "), .appendString function]
  | none => []

def contentCalls (entry : LogEntry) : List RecordCall :=
  [.appendString (literal ": "), .appendString entry.content,
    .appendString (literal "\n")]

/-- The calls of `log` on its buffer. -/
def logCalls (entry : LogEntry) (name : String) : List RecordCall :=
  .appendString (literal name) :: [errorCalls entry, timeCalls entry,
    fileCalls entry, functionCalls entry, contentCalls entry].flatten

/-- What `log` passes to the logger: nothing below `gLogLevel`. -/
def logRecord (convert : Conversion) (gLogLevel : LogLevel) (buffer : LogBuffer)
    (entry : LogEntry) : Option (Option LogBuffer) :=
  if entry.level.toNat < gLogLevel.toNat then some none
  else
    LogLevelName[entry.level.toNat]?.bind fun name =>
      ((recordMachine convert).run buffer.reset (logCalls entry name)).map some

/-- Every level that can be logged has a name. -/
theorem levelName {level : LogLevel} (hlevel : level ≠ .COUNT) :
    ∃ name, LogLevelName[level.toNat]? = some name := by
  cases level with
  | COUNT => exact absurd rfl hlevel
  | _ => exact ⟨_, rfl⟩

/-- `log` makes a record that the logger takes and stores, in every state that
the logger reaches. -/
theorem logRecord_stored {convert : Conversion}
    (hconvert : ∀ T v, (convert T v).length ≤ 21) {gLogLevel : LogLevel}
    (buffer : LogBuffer) {entry : LogEntry} (hlevel : entry.level ≠ .COUNT)
    (hset : gLogLevel.toNat ≤ entry.level.toNat) {word : List LoggerStep}
    {s : LoggerTrace} (hlegal : loggerMachine.Legal .start word)
    (hrun : loggerMachine.run .start word = some s) :
    ∃ record, logRecord convert gLogLevel buffer entry = some (some record) ∧
      loggerMachine.enabled s (.append record.data) ∧
      s.logger.Stores (s.logger.append record.data) record.data := by
  obtain ⟨name, hname⟩ := levelName hlevel
  obtain ⟨record, hrecord, hopen⟩ :=
    (record_holds hconvert buffer (logCalls entry name)).last
  obtain ⟨t, ht, hrecycles, _⟩ := (logger_bytes word hlegal).last
  obtain rfl := Option.some.inj (hrun.symm.trans ht)
  refine ⟨record, ?_, hopen, AsyncLogger.append_stores ?_ hopen⟩
  · rw [logRecord, if_neg (Nat.not_lt.mpr hset), hname, Option.bind_some,
      hrecord, Option.map_some]
  · exact hrecycles.fresh s.logger.currBuffer
      (Or.inr (by simp [AsyncLogger.pending]))

end Logging

/-- Log records are never dropped.  Whatever is appended to a buffer after
`reset`, nothing is written behind it and it does not become full; and its
record is stored as a whole by the logger, whatever its current buffer holds. -/
theorem record_stored {convert : Conversion}
    (hconvert : ∀ T v, (convert T v).length ≤ 21) (buffer : LogBuffer)
    (calls : List RecordCall) :
    (recordMachine convert).Holds (fun record => record.length < 128 * 1024)
        buffer.reset calls ∧
      ∀ record, (recordMachine convert).run buffer.reset calls = some record →
        ∀ s : AsyncLogger, s.currBuffer < s.next →
          s.Stores (s.append record.data) record.data := by
  have hholds := record_holds hconvert buffer calls
  refine ⟨hholds, fun record hrecord s hs => ?_⟩
  obtain ⟨record', hrecord', hopen⟩ := hholds.last
  obtain rfl := Option.some.inj (hrecord.symm.trans hrecord')
  exact AsyncLogger.append_stores hs hopen

/-- A text and a line number, for a logger that has just been made. -/
theorem record_stored_line :
    ∃ record : LogBuffer,
      (recordMachine fun _ v => Decimal.intText v.val).run
        (FixedBuffer.reset .empty) [.appendString (literal "main.cpp("),
          .appendInteger .int ⟨2017, by decide⟩] = some record ∧
      AsyncLogger.start.Stores (AsyncLogger.start.append record.data)
        record.data := by
  obtain ⟨hholds, hstored⟩ := record_stored
    (fun T v => length_intText_le (T := T) v) .empty
    [.appendString (literal "main.cpp("), .appendInteger .int ⟨2017, by decide⟩]
  obtain ⟨record, hrecord, _⟩ := hholds.last
  exact ⟨record, hrecord, hstored record hrecord _ Nat.zero_lt_one⟩

end Libsaf
