/-
The end of a `saf::AsyncLogger`.  `stop` clears `_running` and joins the writer,
which tests `_running` between two rounds only: what it had not taken over when
its last round began stays in the buffers.
-/
import Libsaf.AsyncLogger

namespace Libsaf

namespace AsyncLogger

variable {s t : AsyncLogger}

/-- The writer is past the test of `_running` and has yet to take the buffers
over. -/
def Takes (s : AsyncLogger) : Prop := s.pc = .lock ∨ s.pc = .waiting

instance : Decidable s.Takes :=
  inferInstanceAs (Decidable (s.pc = .lock ∨ s.pc = .waiting))

/-- What is in the file or in the hands of the writer. -/
def handed (s : AsyncLogger) : List UInt8 :=
  s.file.content ++ s.contents s.unwritten

/-- What the writer has not taken over. -/
def untaken (s : AsyncLogger) : List UInt8 :=
  s.contents (s.buffers ++ [s.currBuffer])

theorem bytes_eq (s : AsyncLogger) : s.bytes = s.handed ++ s.untaken := by
  simp only [bytes, handed, untaken, pending, contents_append,
    List.append_assoc]

/-- After its last round the writer has written all it took over. -/
theorem Recycles.handed_exited (h : s.Recycles) (hpc : s.pc = .exited) :
    s.handed = s.file.content := by
  rw [handed, unwritten, h.exited hpc, List.drop_nil]
  exact List.append_nil _

/-- An append leaves the writer and its buffers alone. -/
theorem Recycles.append_writer (h : s.Recycles) {line : List UInt8}
    (hline : line.length < 128 * 1024) :
    (s.append line).pc = s.pc ∧ (s.append line).running = s.running ∧
      (s.append line).writeBuffers = s.writeBuffers ∧
      (s.append line).file = s.file ∧
      (s.append line).writtenLen = s.writtenLen ∧
      ∀ buffer ∈ s.unwritten,
        (s.append line).memory buffer = s.memory buffer := by
  obtain ⟨hrotate, _, hroom⟩ := h.rotate hline
  have hmiddle : (s.rotate line.length).pc = s.pc ∧
      (s.rotate line.length).running = s.running ∧
      (s.rotate line.length).writeBuffers = s.writeBuffers ∧
      (s.rotate line.length).file = s.file ∧
      (s.rotate line.length).writtenLen = s.writtenLen ∧
      ∀ buffer ∈ s.unwritten,
        (s.rotate line.length).memory buffer = s.memory buffer := by
    unfold AsyncLogger.rotate
    split
    · refine ⟨rfl, rfl, rfl, rfl, rfl, fun buffer hbuffer => ?_⟩
      have hlt : buffer < s.next := by
        apply h.fresh
        exact Or.inr (List.mem_append_left _ (List.mem_append_left _ hbuffer))
      exact Function.update_of_ne (Nat.ne_of_lt hlt) ..
    · exact ⟨rfl, rfl, rfl, rfl, rfl, fun _ _ => rfl⟩
  obtain ⟨hpc, hrunning, hbuffers, hfile, hlen, hmemory⟩ := hmiddle
  refine ⟨hpc, hrunning, hbuffers, hfile, hlen, fun buffer hbuffer => ?_⟩
  have hunwritten : (s.rotate line.length).unwritten = s.unwritten := by
    rw [unwritten, unwritten, written, written, hpc, hbuffers]
  have hne : buffer ≠ (s.rotate line.length).currBuffer := by
    rintro rfl
    apply hrotate.unshared.current
    rw [hunwritten]
    exact List.mem_append_left _ hbuffer
  exact (Function.update_of_ne hne ..).trans (hmemory buffer hbuffer)

theorem Recycles.handed_append (h : s.Recycles) {line : List UInt8}
    (hline : line.length < 128 * 1024) :
    (s.append line).handed = s.handed := by
  obtain ⟨hpc, _, hbuffers, hfile, _, hmemory⟩ := h.append_writer hline
  have hunwritten : (s.append line).unwritten = s.unwritten := by
    rw [unwritten, unwritten, written, written, hpc, hbuffers]
  rw [handed, handed, hunwritten, hfile, contents_congr hmemory]

/-- The writer takes everything over. -/
theorem Recycles.handed_takeOver (h : s.Recycles) (htakes : s.Takes) :
    s.takeOver.handed = s.bytes := by
  have hidle : s.Idle := Or.inr htakes
  obtain ⟨_, hbytes⟩ := h.takeOver hidle
  have hempty : s.takeOver.untaken = [] := by
    obtain ⟨hnone, hspare⟩ := h.idle hidle
    simp [untaken, AsyncLogger.takeOver, hnone, contents_singleton, hspare]
  rw [← hbytes, bytes_eq, hempty, List.append_nil]

/-- A step that leaves the untaken buffers alone moves bytes to the file, no
more. -/
theorem handed_eq_of_bytes (hbytes : t.bytes = s.bytes)
    (huntaken : t.untaken = s.untaken) : t.handed = s.handed := by
  rw [bytes_eq, bytes_eq, huntaken] at hbytes
  exact List.append_cancel_right hbytes

/-- Between two take-overs the buffers of the appenders stay as they are. -/
theorem Recycles.threadFunc_untaken (h : s.Recycles) (htakes : ¬ s.Takes)
    (hexec : s.threadFunc = some t) :
    t.untaken = s.untaken ∧ t.running = s.running ∧
      (s.running = false → ¬ t.Takes) := by
  have hsame : ∀ (pc : WriterPc) (file : LogFile) (n : Int)
      (buffers : List Nat), untaken { s with
        pc := pc, file := file, writtenLen := n, writeBuffers := buffers } =
      s.untaken := fun _ _ _ _ => rfl
  unfold AsyncLogger.threadFunc at hexec
  split at hexec
  · next hpc =>
      split at hexec
      · next hrunning =>
          split at hexec
          · obtain rfl := Option.some.inj hexec
            exact ⟨hsame .., rfl, fun hstopped =>
              absurd (hstopped.symm.trans hrunning) (by decide)⟩
          · cases hexec
      · obtain rfl := Option.some.inj hexec
        exact ⟨hsame .., rfl, fun _ => by simp [Takes]⟩
  · next hpc => exact absurd (Or.inl hpc) htakes
  · next hpc => exact absurd (Or.inr hpc) htakes
  · next i hpc =>
      split at hexec
      · next hi =>
          rw [List.getElem?_eq_getElem hi] at hexec
          obtain rfl := Option.some.inj hexec
          exact ⟨hsame .., rfl, fun _ => by simp [Takes]⟩
      · obtain rfl := Option.some.inj hexec
        exact ⟨hsame .., rfl, fun _ => by simp [Takes]⟩
  · next i hpc =>
      rw [List.getElem?_eq_getElem (h.index i hpc)] at hexec
      obtain rfl := Option.some.inj hexec
      exact ⟨hsame .., rfl, fun _ => by simp [Takes]⟩
  · next hpc =>
      split at hexec <;> obtain rfl := Option.some.inj hexec
      · exact ⟨hsame .., rfl, fun _ => by simp [Takes]⟩
      · exact ⟨hsame .., rfl, fun _ => by simp [Takes]⟩
  · next hpc =>
      obtain rfl := Option.some.inj hexec
      refine ⟨contents_congr fun buffer hbuffer => ?_, rfl, fun _ => by
        simp [Takes]⟩
      have hne : buffer ≠ s.emptyBuffer := by
        rintro rfl
        exact h.spare (by simp [hpc]) hbuffer
      exact Function.update_of_ne hne ..
  · next hpc =>
      obtain rfl := Option.some.inj hexec
      exact ⟨hsame .., rfl, fun _ => by simp [Takes]⟩
  · cases hexec

theorem Recycles.stop (h : s.Recycles) :
    Recycles { s with running := false } :=
  ⟨h.nodup, h.spare, h.idle, h.cleared, h.exited, h.index, h.fresh⟩

/-- Outside the wait the writer finishes its round and takes nothing over. -/
theorem Recycles.threadFunc_handed (h : s.Recycles)
    (hrunning : s.running = false) (htakes : ¬ s.Takes) (hlive : s.pc ≠ .exited) :
    ∃ t, s.threadFunc = some t ∧ t.Recycles ∧ t.bytes = s.bytes ∧
      t.running = false ∧ ¬ t.Takes ∧ t.handed = s.handed := by
  obtain ⟨t, hexec, ht, hbytes⟩ := h.step hlive
  obtain ⟨huntaken, hkept, hnever⟩ := h.threadFunc_untaken htakes hexec
  exact ⟨t, hexec, ht, hbytes, hkept.trans hrunning, hnever hrunning,
    handed_eq_of_bytes hbytes huntaken⟩

/-- In the wait it takes everything over, or goes on to wait. -/
theorem Recycles.threadFunc_takes (h : s.Recycles) (htakes : s.Takes) :
    ∃ t, s.threadFunc = some t ∧ t.Recycles ∧ t.bytes = s.bytes ∧
      t.running = s.running ∧ (t.Takes ∨ t.handed = s.bytes) := by
  have hidle : s.Idle := Or.inr htakes
  obtain ⟨t, hexec, ht, hbytes⟩ := h.step hidle.live
  refine ⟨t, hexec, ht, hbytes, ?_⟩
  rcases htakes with hpc | hpc
  · simp only [threadFunc, hpc] at hexec
    split at hexec <;> obtain rfl := Option.some.inj hexec
    · exact ⟨rfl, Or.inl (Or.inr rfl)⟩
    · exact ⟨rfl, Or.inr (h.handed_takeOver (Or.inl hpc))⟩
  · simp only [threadFunc, hpc] at hexec
    obtain rfl := Option.some.inj hexec
    exact ⟨rfl, Or.inr (h.handed_takeOver (Or.inr hpc))⟩

/-- The writer is to end, and the lines of a list are with it, or it will take
them over. -/
structure Keeps (s : AsyncLogger) (lines : List UInt8) : Prop where
  recycles : s.Recycles
  stopped : s.running = false
  appended : lines <+: s.bytes
  handed : s.Takes ∨ lines <+: s.handed

/-- The writer is to end, and will take nothing over any more. -/
structure Leaves (s : AsyncLogger) (handed : List UInt8) : Prop where
  recycles : s.Recycles
  stopped : s.running = false
  takes : ¬ s.Takes
  same : s.handed = handed

/-- What was written and not flushed, by the count of the round. -/
def unflushed (s : AsyncLogger) : Int :=
  match s.pc with
  | .measure _ | .flush => s.writtenLen
  | .write i =>
      s.writtenLen - (s.contents ((s.writeBuffers.drop i).take 1)).length
  | _ => 0

/-- What the round has still to count. -/
def uncounted (s : AsyncLogger) : List UInt8 :=
  match s.pc with
  | .measure i => s.contents (s.writeBuffers.drop i)
  | .write i => s.contents (s.writeBuffers.drop (i + 1))
  | _ => []

/-- The count of the round is right and does not overflow. -/
structure Counts (s : AsyncLogger) : Prop where
  recycles : s.Recycles
  flushed : (s.file.content.length : Int) = s.file.flushed + s.unflushed
  nonneg : 0 ≤ s.writtenLen
  bound : s.writtenLen + s.uncounted.length < 2 ^ 31

theorem Counts.append (h : s.Counts) {line : List UInt8}
    (hline : line.length < 128 * 1024) : (s.append line).Counts := by
  obtain ⟨hs', _⟩ := h.recycles.append hline
  obtain ⟨hpc, _, hbuffers, hfile, hlen, hmemory⟩ :=
    h.recycles.append_writer hline
  have hcontents : ∀ buffers, (∀ buffer ∈ buffers, buffer ∈ s.unwritten) →
      (s.append line).contents buffers = s.contents buffers :=
    fun buffers hsub => contents_congr fun buffer hbuffer =>
      hmemory buffer (hsub buffer hbuffer)
  have hunflushed : (s.append line).unflushed = s.unflushed := by
    unfold unflushed
    rw [hpc, hbuffers, hlen]
    split <;> try rfl
    next i hwrite =>
      rw [hcontents]
      intro buffer hbuffer
      rw [unwritten, written, hwrite]
      exact List.mem_of_mem_take hbuffer
  have huncounted : (s.append line).uncounted = s.uncounted := by
    unfold uncounted
    rw [hpc, hbuffers]
    split <;> try rfl
    · next i hmeasure =>
        apply hcontents
        intro buffer hbuffer
        rw [unwritten, written, hmeasure]
        exact hbuffer
    · next i hwrite =>
        apply hcontents
        intro buffer hbuffer
        rw [unwritten, written, hwrite]
        exact List.mem_of_mem_drop (i := 1) (by rwa [List.drop_drop])
  refine ⟨hs', ?_, hlen ▸ h.nonneg, ?_⟩
  · rw [hfile, hunflushed]
    exact h.flushed
  · rw [hlen, huncounted]
    exact h.bound

/-- A round takes less than 2 GiB over. -/
def Small (s : AsyncLogger) : Prop :=
  s.Takes → s.untaken.length < 2 ^ 31

theorem Counts.takeOver (h : s.Counts) (htakes : s.Takes) (hsmall : s.Small) :
    s.takeOver.Counts := by
  have hidle : s.Idle := Or.inr htakes
  have hflushed : (s.file.content.length : Int) = s.file.flushed := by
    have hcount := h.flushed
    rcases htakes with hpc | hpc <;> simpa [unflushed, hpc] using hcount
  have hmemory : s.takeOver.uncounted = s.untaken := rfl
  refine ⟨(h.recycles.takeOver hidle).1, ?_, Int.le_refl _, ?_⟩
  · rw [show s.takeOver.unflushed = 0 from rfl, Int.add_zero]
    exact hflushed
  · rw [hmemory, show s.takeOver.writtenLen = 0 from rfl, Int.zero_add]
    exact_mod_cast hsmall htakes

theorem contents_drop {buffers : List Nat} {i : Nat}
    (hi : i < buffers.length) :
    s.contents (buffers.drop i) =
      (s.memory buffers[i]).data ++ s.contents (buffers.drop (i + 1)) := by
  rw [List.drop_eq_getElem_cons hi, contents, List.flatMap_cons]
  rfl

theorem Counts.measure (h : s.Counts) {i : Nat} (hpc : s.pc = .measure i)
    (ht : t.Recycles) (hexec : s.threadFunc = some t) : t.Counts := by
  have hflushed := h.flushed
  have hbound := h.bound
  have hnonneg := h.nonneg
  simp only [unflushed, uncounted, hpc] at hflushed hbound
  simp only [threadFunc, hpc] at hexec
  split at hexec
  · next hi =>
      rw [List.getElem?_eq_getElem hi] at hexec
      obtain rfl := Option.some.inj hexec
      rw [contents_drop hi, List.length_append] at hbound
      have hsum : toInt (s.writtenLen + (s.memory s.writeBuffers[i]).length) =
          s.writtenLen + (s.memory s.writeBuffers[i]).data.length := by
        obtain ⟨n, hn⟩ := Int.eq_ofNat_of_zero_le hnonneg
        rw [hn] at hbound ⊢
        rw [FixedBuffer.length]
        exact_mod_cast toInt_natCast (by omega)
      refine ⟨ht, ?_, ?_, ?_⟩
      · simp only [unflushed, hsum, List.drop_eq_getElem_cons hi,
          List.take_succ_cons, List.take_zero, contents, List.flatMap_cons,
          List.flatMap_nil, List.append_nil]
        omega
      · change 0 ≤ toInt _
        rw [hsum]
        omega
      · simp only [uncounted, hsum]
        simp only [contents] at hbound ⊢
        omega
  · next hi =>
      obtain rfl := Option.some.inj hexec
      refine ⟨ht, hflushed, hnonneg, ?_⟩
      simp only [uncounted, List.length_nil]
      omega

theorem Counts.write (h : s.Counts) {i : Nat} (hpc : s.pc = .write i)
    (ht : t.Recycles) (hexec : s.threadFunc = some t) : t.Counts := by
  have hi : i < s.writeBuffers.length := h.recycles.index i hpc
  have hflushed := h.flushed
  have hbound := h.bound
  simp only [unflushed, uncounted, hpc] at hflushed hbound
  simp only [threadFunc, hpc, List.getElem?_eq_getElem hi] at hexec
  obtain rfl := Option.some.inj hexec
  refine ⟨ht, ?_, h.nonneg, hbound⟩
  rw [List.drop_eq_getElem_cons hi, List.take_succ_cons, List.take_zero,
    contents_singleton] at hflushed
  simp only [unflushed, List.length_append]
  omega

theorem Counts.flush (h : s.Counts) (hpc : s.pc = .flush)
    (ht : t.Recycles) (hexec : s.threadFunc = some t) : t.Counts := by
  have hflushed := h.flushed
  have hbound := h.bound
  have hnonneg := h.nonneg
  simp only [unflushed, uncounted, hpc] at hflushed hbound
  simp only [threadFunc, hpc] at hexec
  split at hexec <;> obtain rfl := Option.some.inj hexec
  · exact ⟨ht, by simp [unflushed], hnonneg, hbound⟩
  · refine ⟨ht, ?_, hnonneg, hbound⟩
    simp only [unflushed]
    omega

/-- A step of the writer keeps the count. -/
theorem Counts.threadFunc (h : s.Counts) (hlive : s.pc ≠ .exited)
    (hsmall : s.Small) :
    ∃ t, s.threadFunc = some t ∧ t.Counts := by
  obtain ⟨t, hexec, ht, _⟩ := h.recycles.step hlive
  refine ⟨t, hexec, ?_⟩
  have hflushed := h.flushed
  have hbound := h.bound
  -- where no round is under way, nothing is unflushed
  have hquiet : ∀ t : AsyncLogger, t.Recycles → t.file = s.file →
      t.writtenLen = s.writtenLen → t.unflushed = 0 → t.uncounted = [] →
      s.unflushed = 0 → t.Counts := by
    intro t ht hfile hlen hunflushed huncounted hnone
    refine ⟨ht, ?_, hlen ▸ h.nonneg, ?_⟩
    · rw [hfile, hunflushed, ← hnone]
      exact hflushed
    · rw [hlen, huncounted, List.length_nil]
      omega
  cases hpc : s.pc with
  | measure i => exact h.measure hpc ht hexec
  | write i => exact h.write hpc ht hexec
  | flush => exact h.flush hpc ht hexec
  | exited => exact absurd hpc hlive
  | waiting =>
      simp only [AsyncLogger.threadFunc, hpc] at hexec
      obtain rfl := Option.some.inj hexec
      exact h.takeOver (Or.inr hpc) hsmall
  | lock =>
      simp only [AsyncLogger.threadFunc, hpc] at hexec
      split at hexec <;> obtain rfl := Option.some.inj hexec
      · exact hquiet _ ht rfl rfl rfl rfl (by simp [unflushed, hpc])
      · exact h.takeOver (Or.inl hpc) hsmall
  | test =>
      simp only [AsyncLogger.threadFunc, hpc] at hexec
      split at hexec
      · split at hexec
        · obtain rfl := Option.some.inj hexec
          exact hquiet _ ht rfl rfl rfl rfl (by simp [unflushed, hpc])
        · cases hexec
      · obtain rfl := Option.some.inj hexec
        exact hquiet _ ht rfl rfl rfl rfl (by simp [unflushed, hpc])
  | reset =>
      simp only [AsyncLogger.threadFunc, hpc] at hexec
      obtain rfl := Option.some.inj hexec
      exact hquiet _ ht rfl rfl rfl rfl (by simp [unflushed, hpc])
  | clear =>
      simp only [AsyncLogger.threadFunc, hpc] at hexec
      obtain rfl := Option.some.inj hexec
      exact hquiet _ ht rfl rfl rfl rfl (by simp [unflushed, hpc])

end AsyncLogger

open AsyncLogger

theorem loggerMachine_threadFunc {s : LoggerTrace} {logger : AsyncLogger}
    (h : s.logger.threadFunc = some logger) :
    loggerMachine.exec s .threadFunc = some { s with logger := logger } := by
  simp only [loggerMachine, h, Option.map_some]

/-- What follows a stop until the logger is started anew. -/
def Stopping (s : LoggerTrace) (step : LoggerStep) : Prop :=
  loggerMachine.enabled s step ∧ step ≠ .start

theorem keeps_step {lines : List UInt8} (s : LoggerTrace) (step : LoggerStep)
    (h : s.logger.Keeps lines) (hstep : Stopping s step) :
    ∃ s', loggerMachine.exec s step = some s' ∧ s'.logger.Keeps lines := by
  obtain ⟨henabled, hstart⟩ := hstep
  cases step with
  | append line =>
      obtain ⟨hs', hbytes⟩ := h.recycles.append henabled
      obtain ⟨hpc, hrunning, _⟩ := h.recycles.append_writer henabled
      refine ⟨_, rfl, hs', hrunning.trans h.stopped, ?_, ?_⟩
      · rw [hbytes]
        exact h.appended.trans (List.prefix_append _ _)
      · rw [h.recycles.handed_append henabled, Takes, hpc]
        exact h.handed
  | threadFunc =>
      by_cases htakes : s.logger.Takes
      · obtain ⟨t, hexec, ht, hbytes, hrunning, hhanded⟩ :=
          h.recycles.threadFunc_takes htakes
        refine ⟨⟨t, s.lines⟩, loggerMachine_threadFunc hexec, ht,
          hrunning.trans h.stopped, hbytes ▸ h.appended, ?_⟩
        rcases hhanded with hwaits | hall
        · exact Or.inl hwaits
        · exact Or.inr (hall ▸ h.appended)
      · obtain ⟨t, hexec, ht, hbytes, hstopped, _, hhanded⟩ :=
          h.recycles.threadFunc_handed h.stopped htakes henabled
        refine ⟨⟨t, s.lines⟩, loggerMachine_threadFunc hexec, ht,
          hstopped, hbytes ▸ h.appended, Or.inr ?_⟩
        exact hhanded ▸ h.handed.resolve_left htakes
  | stop =>
      exact ⟨_, rfl, h.recycles.stop, rfl, h.appended, h.handed⟩
  | start => exact absurd rfl hstart

theorem leaves_step {handed : List UInt8} (s : LoggerTrace)
    (step : LoggerStep) (h : s.logger.Leaves handed) (hstep : Stopping s step) :
    ∃ s', loggerMachine.exec s step = some s' ∧ s'.logger.Leaves handed := by
  obtain ⟨henabled, hstart⟩ := hstep
  cases step with
  | append line =>
      obtain ⟨hs', _⟩ := h.recycles.append henabled
      obtain ⟨hpc, hrunning, _⟩ := h.recycles.append_writer henabled
      refine ⟨_, rfl, hs', hrunning.trans h.stopped, ?_, ?_⟩
      · rw [Takes, hpc]
        exact h.takes
      · exact (h.recycles.handed_append henabled).trans h.same
  | threadFunc =>
      obtain ⟨t, hexec, ht, _, hstopped, htakes, hhanded⟩ :=
        h.recycles.threadFunc_handed h.stopped h.takes henabled
      exact ⟨⟨t, s.lines⟩, loggerMachine_threadFunc hexec, ht,
        hstopped, htakes, hhanded.trans h.same⟩
  | stop =>
      exact ⟨_, rfl, h.recycles.stop, rfl, h.takes, h.same⟩
  | start => exact absurd rfl hstart

theorem counts_step (s : LoggerTrace) (step : LoggerStep)
    (h : s.logger.Counts) (henabled : loggerMachine.enabled s step)
    (hsmall : s.logger.Small) :
    ∃ s', loggerMachine.exec s step = some s' ∧ s'.logger.Counts := by
  cases step with
  | append line => exact ⟨_, rfl, h.append henabled⟩
  | threadFunc =>
      obtain ⟨t, hexec, ht⟩ := h.threadFunc henabled hsmall
      exact ⟨⟨t, s.lines⟩, loggerMachine_threadFunc hexec, ht⟩
  | stop =>
      exact ⟨_, rfl, h.recycles.stop, h.flushed, h.nonneg, h.bound⟩
  | start =>
      obtain ⟨hrunning, hpc⟩ := henabled
      obtain ⟨t, hexec, ht, _⟩ := h.recycles.startThread hrunning hpc
      refine ⟨⟨t, s.lines⟩, by
        simp only [loggerMachine, hexec, Option.map_some], ?_⟩
      have hflushed := h.flushed
      have hbound := h.bound
      simp only [unflushed, uncounted, hpc] at hflushed hbound
      simp only [startThread, hrunning] at hexec
      obtain rfl := Option.some.inj hexec
      exact ⟨ht, hflushed, h.nonneg, hbound⟩

theorem AsyncLogger.Counts.exited {s : AsyncLogger} (h : s.Counts)
    (hpc : s.pc = .exited) :
    s.file.flushed = s.file.content.length := by
  have hflushed := h.flushed
  simp only [unflushed, hpc] at hflushed
  omega

/-- What the writer has when it is told to end decides what is in the file when
it has ended. -/
theorem stop_handed_iff {s t : LoggerTrace} {back : List LoggerStep}
    (hs : s.logger.Recycles) (hbytes : s.logger.bytes = s.lines.flatten)
    (hrun : loggerMachine.run s (.stop :: back) = some t)
    (hback : loggerMachine.Meets Stopping s (.stop :: back))
    (hexit : t.logger.pc = .exited) :
    s.lines.flatten <+: t.logger.file.content ↔
      s.logger.Takes ∨ s.logger.untaken = [] := by
  let u : LoggerTrace :=
    { s with logger := { s.logger with running := false } }
  have hrun' : loggerMachine.run u back = some t := hrun
  have hback' : loggerMachine.Meets Stopping u back := hback.2 u rfl
  constructor
  · intro hlines
    by_contra hnot
    obtain ⟨htakes, huntaken⟩ := not_or.mp hnot
    have hleaves : u.logger.Leaves s.logger.handed :=
      ⟨hs.stop, rfl, htakes, rfl⟩
    obtain ⟨v, hv, hlast⟩ :=
      (Machine.holds_of_step leaves_step hleaves hback').last
    obtain rfl : v = t := Option.some.inj (hv.symm.trans hrun')
    rw [← hlast.recycles.handed_exited hexit, hlast.same, ← hbytes,
      bytes_eq] at hlines
    have hlength := hlines.length_le
    rw [List.length_append] at hlength
    exact huntaken (List.eq_nil_of_length_eq_zero (by omega))
  · intro hstopped
    have hkeeps : u.logger.Keeps s.lines.flatten := by
      refine ⟨hs.stop, rfl, ?_, hstopped.imp_right fun huntaken => ?_⟩
      · rw [← hbytes]
        exact List.prefix_refl _
      · rw [← hbytes, bytes_eq, huntaken, List.append_nil]
        exact List.prefix_refl _
    obtain ⟨v, hv, hlast⟩ :=
      (Machine.holds_of_step keeps_step hkeeps hback').last
    obtain rfl : v = t := Option.some.inj (hv.symm.trans hrun')
    rw [← hlast.recycles.handed_exited hexit]
    refine hlast.handed.resolve_left ?_
    rintro (hpc | hpc) <;> rw [hexit] at hpc <;> cases hpc

/-- The end of the log.  When the writer has ended after a stop, the lines that
had been appended before it are in the file exactly when the writer was then on
its way to take the buffers over or had left nothing in them; and all of the
file is flushed if no round was of 2 GiB or more. -/
theorem logger_stop_iff (front back : List LoggerStep) {s t : LoggerTrace}
    (hlegal : loggerMachine.Legal .start (front ++ .stop :: back))
    (hstart : .start ∉ back)
    (hfront : loggerMachine.run .start front = some s)
    (hback : loggerMachine.run s (.stop :: back) = some t)
    (hexit : t.logger.pc = .exited) :
    (s.lines.flatten <+: t.logger.file.content ↔
      s.logger.Takes ∨ s.logger.untaken = []) ∧
    (loggerMachine.Meets (fun s _ => s.logger.Small) .start
        (front ++ .stop :: back) →
      t.logger.file.flushed = t.logger.file.content.length) := by
  obtain ⟨hlegalFront, hlegalBack⟩ := Machine.meets_append.mp hlegal
  have hstopping : loggerMachine.Meets Stopping s (.stop :: back) := by
    apply (hlegalBack s hfront).and
    apply Machine.meets_of_forall
    rintro step hstep _ rfl
    rcases List.mem_cons.mp hstep with hstop | hin
    · cases hstop
    · exact hstart hin
  constructor
  · have hrun := logger_bytes front hlegalFront
    obtain ⟨s', hs', hrecycles, hbytes⟩ := hrun.last
    obtain rfl : s' = s := Option.some.inj (hs'.symm.trans hfront)
    exact stop_handed_iff hrecycles hbytes hback hstopping hexit
  · intro hsmall
    have hcounts : AsyncLogger.start.Counts :=
      ⟨start_recycles, rfl, Int.le_refl _, by decide⟩
    obtain ⟨t', ht', hlast⟩ := (Machine.holds_of_step
      (fun s step hs hstep => counts_step s step hs hstep.1 hstep.2)
      (show LoggerTrace.start.logger.Counts from hcounts)
      (hlegal.and hsmall)).last
    rw [Machine.run_append, hfront, Option.bind_some, hback] at ht'
    obtain rfl := Option.some.inj ht'
    exact hlast.exited hexit

/-- The writer waits when the line comes and the logger is stopped. -/
theorem logger_stop_iff_waiting :
    ∃ s t, loggerMachine.run .start
        [.start, .threadFunc, .threadFunc, .append [1]] = some s ∧
      loggerMachine.run s (.stop :: List.replicate 8 .threadFunc) = some t ∧
      t.logger.pc = .exited ∧ s.lines.flatten <+: t.logger.file.content := by
  refine ⟨_, _, rfl, rfl, rfl, ?_⟩
  exact (logger_stop_iff [.start, .threadFunc, .threadFunc, .append [1]]
    (List.replicate 8 .threadFunc) (by decide +kernel) (by decide) rfl rfl
    rfl).1.mpr (Or.inl (Or.inr rfl))

/-- The logger is stopped before the writer has tested `_running` for the first
time. -/
theorem logger_stop_loses :
    loggerMachine.Legal .start
        ([.start, .append [1]] ++ [.stop, .threadFunc]) ∧
      ∃ s t, loggerMachine.run .start [.start, .append [1]] = some s ∧
        loggerMachine.run s [.stop, .threadFunc] = some t ∧
        t.logger.pc = .exited ∧
        ¬ s.lines.flatten <+: t.logger.file.content :=
  ⟨by decide +kernel, _, _, rfl, rfl, rfl, by decide +kernel⟩

end Libsaf
