/-
`saf::file::AppendFile`: `fwrite` may take fewer bytes than it is given, and
`append` goes on behind those until a call takes none.  Where each call takes
something, the file of the logger's model is this one.
-/
import Libsaf.AsyncLogger
import Mathlib.Algebra.Order.Ring.Nat
import Mathlib.Data.List.Basic

namespace Libsaf

/-- What the C library does with a stream: how many bytes the call of `fwrite`
with this number takes of so many, and what `ferror` says after it. -/
structure Stdio where
  fwrite : Nat → Nat → Nat
  fwrite_le : ∀ call len, fwrite call len ≤ len
  ferror : Nat → Int

/-- A disk that fills up: the calls take so many bytes, as far as there are any,
and those behind them none. -/
def Stdio.ofSizes (sizes : List Nat) : Stdio where
  fwrite call len := min len (sizes.getD call 0)
  fwrite_le _ len := Nat.min_le_left len _
  ferror call := if call < sizes.length then 0 else 28

/-- `content` are the bytes that the stream has taken, `returns` what the calls
of `fwrite` returned, and `errors` what was reported to `stderr`. -/
structure AppendFile where
  content : List UInt8
  writtenBytes : Int
  returns : List Nat
  errors : List Int
deriving Repr, DecidableEq

namespace AppendFile

variable (stdio : Stdio)

/-- One call of `fwrite`. -/
def write (file : AppendFile) (line : List UInt8) (len : Nat) :
    Nat × AppendFile :=
  let n := stdio.fwrite file.returns.length len
  (n, { file with
    content := file.content ++ line.take n
    returns := file.returns ++ [n] })

/-- The report of a call that took nothing. -/
def checkError (file : AppendFile) : AppendFile :=
  let err := stdio.ferror file.returns.length
  if err ≠ 0 then { file with errors := file.errors ++ [err] } else file

/-- The loop, with `n` bytes taken. -/
def appendRest (file : AppendFile) (line : List UInt8) (n : Nat) : AppendFile :=
  let remain := line.length - n
  if _hremain : remain > 0 then
    let result := file.write stdio (line.drop n) remain
    if _hx : result.1 = 0 then result.2.checkError stdio
    else appendRest result.2 line (n + result.1)
  else file
termination_by line.length - n
decreasing_by
  change line.length - (n + result.1) < line.length - n
  omega

def append (file : AppendFile) (line : List UInt8) : AppendFile :=
  let len := line.length
  let (n, file) := file.write stdio line len
  let file := appendRest stdio file line n
  { file with writtenBytes := toInt (file.writtenBytes + len) }

/-- Between the two states the calls of `fwrite` returned `returns`.  The bytes
were taken from the front, all of them unless the last call took none. -/
structure Takes (file file' : AppendFile) (bytes : List UInt8)
    (returns : List Nat) : Prop where
  returned : file'.returns = file.returns ++ returns
  taken : file'.content = file.content ++ bytes.take returns.sum
  fits : returns.sum ≤ bytes.length
  whole : returns.sum = bytes.length ↔ 0 ∉ returns
  short : returns.length ≤ bytes.length

variable {stdio} {file file' : AppendFile} {bytes : List UInt8}

/-- There is nothing left. -/
theorem takes_nil : Takes file file [] [] := by
  constructor <;> simp

/-- A call that takes nothing of what is left is the last one. -/
theorem takes_zero (hsome : bytes ≠ [])
    (hreturns : file'.returns = file.returns ++ [0])
    (hcontent : file'.content = file.content) :
    Takes file file' bytes [0] := by
  have hpos : 0 < bytes.length := List.length_pos_iff.mpr hsome
  constructor
  · exact hreturns
  · simp [hcontent]
  · exact Nat.zero_le _
  · simpa using Nat.ne_of_lt hpos
  · exact hpos

/-- Some bytes are taken, and then some of the others. -/
theorem Takes.cons {x : Nat} {returns : List Nat} {next : AppendFile}
    (h : Takes next file' (bytes.drop x) returns) (hpos : 0 < x)
    (hx : x ≤ bytes.length) (hreturns : next.returns = file.returns ++ [x])
    (hcontent : next.content = file.content ++ bytes.take x) :
    Takes file file' bytes (x :: returns) := by
  obtain ⟨hreturned, htaken, hfits, hwhole, hshort⟩ := h
  rw [List.length_drop] at hfits hwhole hshort
  constructor
  · rw [hreturned, hreturns, List.append_assoc, List.singleton_append]
  · rw [htaken, hcontent, List.append_assoc, List.sum_cons, List.take_add]
  · rw [List.sum_cons]
    omega
  · rw [List.sum_cons, List.mem_cons, not_or, ← hwhole]
    omega
  · rw [List.length_cons]
    omega

theorem returns_checkError : (file.checkError stdio).returns = file.returns ∧
    (file.checkError stdio).content = file.content := by
  unfold checkError
  dsimp only
  split <;> exact ⟨rfl, rfl⟩

/-- The retries take what is left, front first. -/
theorem appendRest_takes (stdio : Stdio) (file : AppendFile)
    (line : List UInt8) (n : Nat) :
    ∃ returns, Takes file (appendRest stdio file line n) (line.drop n)
      returns := by
  fun_induction appendRest stdio file line n with
  | case1 file n remain hremain result hx =>
      have hsome : line.drop n ≠ [] := by
        rw [Ne, List.drop_eq_nil_iff]
        omega
      have hreturns : result.2.returns = file.returns ++ [result.1] := rfl
      have hcontent : result.2.content =
          file.content ++ (line.drop n).take result.1 := rfl
      rw [hx] at hreturns hcontent
      rw [List.take_zero, List.append_nil] at hcontent
      exact ⟨[0], takes_zero hsome (returns_checkError.1.trans hreturns)
        (returns_checkError.2.trans hcontent)⟩
  | case2 file n remain hremain result hx ih =>
      obtain ⟨returns, htakes⟩ := ih
      have hle : result.1 ≤ (line.drop n).length := by
        rw [List.length_drop]
        exact stdio.fwrite_le _ _
      rw [← List.drop_drop] at htakes
      exact ⟨result.1 :: returns,
        htakes.cons (Nat.pos_of_ne_zero hx) hle rfl rfl⟩
  | case3 file n hnone =>
      have hnil : line.drop n = [] := by
        rw [List.drop_eq_nil_iff]
        omega
      exact ⟨[], by rw [hnil]; exact takes_nil⟩

/-- A stream that is never stuck takes all that is left. -/
theorem appendRest_whole
    (hprogress : ∀ call len, 0 < len → 0 < stdio.fwrite call len)
    (file : AppendFile) (line : List UInt8) (n : Nat) :
    (appendRest stdio file line n).content = file.content ++ line.drop n := by
  fun_induction appendRest stdio file line n with
  | case1 file n remain hremain result hx =>
      have hpos : 0 < result.1 := hprogress _ _ hremain
      omega
  | case2 file n remain hremain result hx ih =>
      have hcontent : result.2.content =
          file.content ++ (line.drop n).take result.1 := rfl
      rw [ih, hcontent, List.append_assoc, ← List.drop_drop,
        List.take_append_drop]
  | case3 file n hnone =>
      have hnil : line.drop n = [] := by
        rw [List.drop_eq_nil_iff]
        omega
      rw [hnil, List.append_nil]

/-- The first call, and then the loop. -/
theorem append_spec (stdio : Stdio) (file : AppendFile) (line : List UInt8) :
    ∃ first next, first ≤ line.length ∧
      next.returns = file.returns ++ [first] ∧
      next.content = file.content ++ line.take first ∧
      (file.append stdio line).returns =
        (appendRest stdio next line first).returns ∧
      (file.append stdio line).content =
        (appendRest stdio next line first).content :=
  ⟨_, (file.write stdio line line.length).2, stdio.fwrite_le _ _, rfl, rfl,
    rfl, rfl⟩

theorem append_whole
    (hprogress : ∀ call len, 0 < len → 0 < stdio.fwrite call len)
    (file : AppendFile) (line : List UInt8) :
    (file.append stdio line).content = file.content ++ line := by
  obtain ⟨first, next, _, _, hcontent, _, happend⟩ :=
    append_spec stdio file line
  rw [happend, appendRest_whole hprogress, hcontent, List.append_assoc,
    List.take_append_drop]

/-- What a step of `threadFunc` does to this file. -/
def follow (stdio : Stdio) (file : AppendFile) (s : AsyncLogger) : AppendFile :=
  match s.pc with
  | .write i =>
      match s.writeBuffers[i]? with
      | some buffer => file.append stdio (s.memory buffer).data
      | none => file
  | _ => file

/-- The other steps write nothing. -/
theorem threadFunc_content {s t : AsyncLogger} (hpc : ∀ i, s.pc ≠ .write i)
    (hrun : s.threadFunc = some t) : t.file.content = s.file.content := by
  unfold AsyncLogger.threadFunc at hrun
  split at hrun
  · split at hrun
    · split at hrun
      · cases hrun; rfl
      · cases hrun
    · cases hrun; rfl
  · split at hrun
    · cases hrun; rfl
    · cases hrun; rfl
  · cases hrun; rfl
  · split at hrun
    · obtain ⟨buffer, -, hrun⟩ := Option.bind_eq_some_iff.mp hrun
      cases hrun; rfl
    · cases hrun; rfl
  · next i hwrite => exact absurd hwrite (hpc i)
  · split at hrun
    · cases hrun; rfl
    · cases hrun; rfl
  · cases hrun; rfl
  · cases hrun; rfl
  · cases hrun

/-- The file of the logger's model takes what this one takes. -/
theorem follow_content
    (hprogress : ∀ call len, 0 < len → 0 < stdio.fwrite call len)
    {s t : AsyncLogger} (hfile : file.content = s.file.content)
    (hrun : s.threadFunc = some t) :
    (file.follow stdio s).content = t.file.content := by
  rw [follow]
  split
  · next i hpc =>
      rw [AsyncLogger.threadFunc, hpc] at hrun
      obtain ⟨buffer, hbuffer, hwrite⟩ := Option.bind_eq_some_iff.mp hrun
      cases hwrite
      rw [hbuffer]
      show (file.append stdio (s.memory buffer).data).content = _
      rw [append_whole hprogress, hfile]
  · next hpc => rw [threadFunc_content hpc hrun, hfile]

/-- The logger together with the file that its writer appends to. -/
def recorder (stdio : Stdio) :
    Machine (LoggerTrace × AppendFile) LoggerStep where
  enabled s step := loggerMachine.enabled s.1 step
  exec s step := (loggerMachine.exec s.1 step).map fun t =>
    (t, if step = .threadFunc then s.2.follow stdio s.1.logger else s.2)

/-- The steps that are not the writer's leave the file alone. -/
theorem exec_content {s t : LoggerTrace} {step : LoggerStep}
    (hstep : step ≠ .threadFunc) (hexec : loggerMachine.exec s step = some t) :
    t.logger.file.content = s.logger.file.content := by
  cases step with
  | append line =>
      cases hexec
      simp only [AsyncLogger.append, AsyncLogger.appendCurr, AsyncLogger.rotate]
      split
      · rfl
      · rfl
  | threadFunc => exact absurd rfl hstep
  | stop =>
      cases hexec
      rfl
  | start =>
      obtain ⟨logger, hstart, rfl⟩ := Option.map_eq_some_iff.mp hexec
      rw [AsyncLogger.startThread] at hstart
      split at hstart
      · cases hstart
      · cases hstart
        rfl

/-- On a stream that takes something in each call, the file in the logger's model
holds in every state of every run what the calls of `append` have written. -/
theorem recorder_content
    (hprogress : ∀ call len, 0 < len → 0 < stdio.fwrite call len)
    {word : List LoggerStep}
    (hlegal : (recorder stdio).Legal (.start, ⟨[], 0, [], []⟩) word) :
    (recorder stdio).Holds (fun s => s.2.content = s.1.logger.file.content)
      (.start, ⟨[], 0, [], []⟩) word := by
  have hstart : AsyncLogger.start.Recycles ∧
      AsyncLogger.start.bytes = [].flatten ∧
      ([] : List UInt8) = AsyncLogger.start.file.content :=
    ⟨AsyncLogger.start_recycles, rfl, rfl⟩
  have hrun := Machine.holds_of_step
    (P := fun s : LoggerTrace × AppendFile => s.1.logger.Recycles ∧
      s.1.logger.bytes = s.1.lines.flatten ∧
      s.2.content = s.1.logger.file.content)
    (fun s step hs henabled => ?_) hstart hlegal
  · exact hrun.mono fun s hs => hs.2.2
  obtain ⟨hrecycles, hbytes, hcontent⟩ := hs
  obtain ⟨t, hexec, hrecycles', hbytes'⟩ :=
    logger_step hrecycles hbytes henabled
  refine ⟨(t, if step = .threadFunc then s.2.follow stdio s.1.logger else s.2),
    congrArg (Option.map _) hexec, hrecycles', hbytes', ?_⟩
  show (if step = .threadFunc then s.2.follow stdio s.1.logger else s.2).content =
    t.logger.file.content
  split
  · next hthread =>
      subst hthread
      obtain ⟨logger, hwrite, rfl⟩ := Option.map_eq_some_iff.mp hexec
      exact follow_content hprogress hcontent hwrite
  · next hother => rw [exec_content hother hexec, hcontent]

end AppendFile

open AppendFile

/-- Short writes.  Whatever the calls of `fwrite` return, the stream takes a
prefix of the line, and the whole line if and only if no retry returned 0; and
there are at most as many retries as there are bytes. -/
theorem append_takes (stdio : Stdio) (file : AppendFile) (line : List UInt8) :
    ∃ (first : Nat) (retries : List Nat),
      (file.append stdio line).returns = file.returns ++ first :: retries ∧
      (file.append stdio line).content =
        file.content ++ line.take (first + retries.sum) ∧
      first + retries.sum ≤ line.length ∧
      (first + retries.sum = line.length ↔ 0 ∉ retries) ∧
      retries.length ≤ line.length := by
  obtain ⟨first, next, hfirst, hreturns, hcontent, hreturned', htaken'⟩ :=
    append_spec stdio file line
  obtain ⟨retries, hreturned, htaken, hfits, hwhole, hshort⟩ :=
    appendRest_takes stdio next line first
  rw [List.length_drop] at hfits hwhole hshort
  refine ⟨first, retries, ?_, ?_, by omega, ?_, by omega⟩
  · rw [hreturned', hreturned, hreturns, List.append_assoc,
      List.singleton_append]
  · rw [htaken', htaken, hcontent, List.append_assoc, List.take_add]
  · rw [← hwhole]
    omega

/-- The disk is full behind four of six bytes. -/
theorem append_takes_full :
    ∃ (first : Nat) (retries : List Nat),
      (AppendFile.append (.ofSizes [3, 1]) ⟨[], 0, [], []⟩
        [1, 2, 3, 4, 5, 6]).returns = [] ++ first :: retries ∧
      (AppendFile.append (.ofSizes [3, 1]) ⟨[], 0, [], []⟩
        [1, 2, 3, 4, 5, 6]).content =
        [] ++ [1, 2, 3, 4, 5, 6].take (first + retries.sum) ∧
      first + retries.sum ≤ 6 ∧ (first + retries.sum = 6 ↔ 0 ∉ retries) ∧
      retries.length ≤ 6 :=
  append_takes (.ofSizes [3, 1]) ⟨[], 0, [], []⟩ [1, 2, 3, 4, 5, 6]

end Libsaf
