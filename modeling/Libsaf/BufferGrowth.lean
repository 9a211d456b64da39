/-
How far the vector of a `Buffer` grows.  It grows by what does not fit although
fewer bytes are wasted in front than are asked for, so that it is never longer
than at first or than twice the most that was readable.
-/
import Libsaf.BufferRead
import Libsaf.Machine

namespace Libsaf

namespace Buffer

/-- A call leaves the vector as long as it was, or no longer than twice what is
readable then. -/
def GrowsTo (b b' : Buffer) : Prop :=
  b'.buffer.length ≤ max b.buffer.length (2 * b'.readableBytes)

/-- Making space is what makes the vector grow. -/
theorem makeSpace_length {b b' : Buffer} {len : Nat}
    (h : b.makeSpace len = some b') :
    b'.readableBytes = b.readableBytes ∧
      b'.buffer.length ≤ max b.buffer.length (2 * (b.readableBytes + len)) := by
  have hreader := b.reader_le_writer
  have hwriter := b.writer_le_size
  unfold makeSpace at h
  split at h
  · next hgrow =>
      cases h
      simp only [writableBytes, prependableBytes, kCheapPrepend] at hgrow
      simp only [readableBytes, Memory.length_resize, true_and]
      omega
  · split at h
    · cases h
      constructor
      · simp [readableBytes, kCheapPrepend]
      · rw [Memory.length_copyForward]
        exact Nat.le_max_left _ _
    · cases h

theorem ensureWritableBytes_length {b : Buffer} {len : Nat}
    {b' : { b' : Buffer // len ≤ b'.writableBytes }}
    (h : b.ensureWritableBytes len = some b') :
    b'.1.readableBytes = b.readableBytes ∧
      b'.1.buffer.length ≤ max b.buffer.length (2 * (b.readableBytes + len)) := by
  obtain ⟨space, hspace, h⟩ := Option.bind_eq_some_iff.mp h
  split at h
  · cases h
    split at hspace
    · exact makeSpace_length hspace
    · cases hspace
      exact ⟨rfl, Nat.le_max_left _ _⟩
  · cases h

theorem readableBytes_writeBehind (b : Buffer) (data : List UInt8)
    (hroom : data.length ≤ b.writableBytes) :
    (b.writeBehind data hroom).readableBytes = b.readableBytes + data.length := by
  have := b.reader_le_writer
  simp only [writeBehind, readableBytes]
  omega

theorem length_writeBehind (b : Buffer) (data : List UInt8)
    (hroom : data.length ≤ b.writableBytes) :
    (b.writeBehind data hroom).buffer.length = b.buffer.length :=
  Memory.length_write _ _ _

theorem append_grows {b b' : Buffer} {data : List UInt8}
    (h : b.append data = some b') : b.GrowsTo b' := by
  obtain ⟨space, hspace, rfl⟩ := Option.map_eq_some_iff.mp h
  obtain ⟨hreadable, hlength⟩ := ensureWritableBytes_length hspace
  rw [GrowsTo, length_writeBehind, readableBytes_writeBehind, hreadable]
  exact hlength

theorem GrowsTo.refl (b : Buffer) : b.GrowsTo b := Nat.le_max_left _ _

theorem readFd_grows {b b' : Buffer} {received : Option (List UInt8)} {n : Int}
    (h : b.readFd received = some (n, b')) : b.GrowsTo b' := by
  cases received with
  | none =>
      cases h
      exact GrowsTo.refl b
  | some data =>
      by_cases hfits : data.length ≤ b.writableBytes
      · rw [b.readFd_fits hfits] at h
        cases h
        rw [GrowsTo, length_writeBehind]
        exact Nat.le_max_left _ _
      · -- the vector is full when the rest is appended
        rw [readFd, dif_neg hfits] at h
        obtain ⟨grown, happend, hgrown⟩ := Option.map_eq_some_iff.mp h
        cases hgrown
        have hlength := append_grows happend
        rw [GrowsTo] at hlength ⊢
        simpa [advanceToEnd, storeBehind] using hlength

/-- Retrieving never touches the vector. -/
theorem retrieve_grows {b b' : Buffer} {len : Nat}
    (h : b.retrieve len = some b') : b.GrowsTo b' := by
  rw [GrowsTo, retrieve_buffer h]
  exact Nat.le_max_left _ _

end Buffer

inductive GrowthOp where
  | append (data : List UInt8)
  | readFd (received : Option (List UInt8))
  | retrieve (len : Nat)
  | retrieveAll
deriving Repr, DecidableEq

/-- A buffer, and the largest `readableBytes` that was reached. -/
structure BufferPeak where
  buffer : Buffer
  peak : Nat
deriving Repr, DecidableEq

namespace BufferPeak

def ofSize (initialSize : Nat) : BufferPeak := ⟨Buffer.ofSize initialSize, 0⟩

def reach (s : BufferPeak) (b : Buffer) : BufferPeak :=
  ⟨b, max s.peak b.readableBytes⟩

/-- The vector is not longer than at first or than twice the peak. -/
def Bounded (initialSize : Nat) (s : BufferPeak) : Prop :=
  s.buffer.buffer.length ≤ max initialSize (2 * s.peak)

/-- What a call of the buffer may do to the length keeps the bound. -/
theorem Bounded.reach {initialSize : Nat} {s : BufferPeak} {b : Buffer}
    (h : s.Bounded initialSize) (hgrows : s.buffer.GrowsTo b) :
    (s.reach b).Bounded initialSize := by
  rw [Bounded] at h ⊢
  rw [Buffer.GrowsTo] at hgrows
  simp only [BufferPeak.reach]
  omega

end BufferPeak

/-- The callers keep the bound on the length that they retrieve, and the kernel
delivers what its areas hold. -/
def growthMachine : Machine BufferPeak GrowthOp where
  enabled s
    | .append _ => True
    | .readFd received =>
        ∀ data ∈ received, data.length ≤ s.buffer.readAreas.sum
    | .retrieve len => len ≤ s.buffer.readableBytes
    | .retrieveAll => True
  exec s
    | .append data => (s.buffer.append data).map s.reach
    | .readFd received => (s.buffer.readFd received).map fun r => s.reach r.2
    | .retrieve len => (s.buffer.retrieve len).map s.reach
    | .retrieveAll => some (s.reach s.buffer.retrieveAll)

/-- In every run the vector stays as long as at first, or below twice the most
that was readable so far. -/
theorem buffer_growth_bounded (initialSize : Nat) (word : List GrowthOp)
    (hlegal : growthMachine.Legal (.ofSize initialSize) word) :
    growthMachine.Holds (BufferPeak.Bounded initialSize) (.ofSize initialSize)
      word := by
  refine Machine.holds_of_step (fun s op hs hop => ?_) ?_ hlegal
  · cases op with
    | append data =>
        obtain ⟨b, happend, _⟩ := s.buffer.append_spec data
        refine ⟨s.reach b, ?_, hs.reach (Buffer.append_grows happend)⟩
        exact Option.map_eq_some_iff.mpr ⟨b, happend, rfl⟩
    | readFd received =>
        obtain ⟨n, b, hread⟩ : ∃ n b, s.buffer.readFd received = some (n, b) := by
          cases received with
          | none => exact ⟨-1, s.buffer, rfl⟩
          | some data =>
              obtain ⟨b, hread, _⟩ := s.buffer.readFd_spec (hop data rfl)
              exact ⟨_, b, hread⟩
        refine ⟨s.reach b, ?_, hs.reach (Buffer.readFd_grows hread)⟩
        exact Option.map_eq_some_iff.mpr ⟨(n, b), hread, rfl⟩
    | retrieve len =>
        obtain ⟨b, hretrieve, _⟩ := s.buffer.retrieve_spec hop
        refine ⟨s.reach b, ?_, hs.reach (Buffer.retrieve_grows hretrieve)⟩
        exact Option.map_eq_some_iff.mpr ⟨b, hretrieve, rfl⟩
    | retrieveAll =>
        exact ⟨_, rfl, hs.reach (Nat.le_max_left _ _)⟩
  · simp [BufferPeak.Bounded, BufferPeak.ofSize, Buffer.ofSize,
      Buffer.kCheapPrepend]

instance (s : BufferPeak) : ∀ op, Decidable (growthMachine.enabled s op)
  | .append _ => isTrue trivial
  | .readFd received => inferInstanceAs (Decidable
      (∀ data ∈ received, data.length ≤ s.buffer.readAreas.sum))
  | .retrieve len => inferInstanceAs (Decidable (len ≤ s.buffer.readableBytes))
  | .retrieveAll => isTrue trivial

/-- The vector grows behind a prefix that was retrieved. -/
theorem buffer_growth_bounded_retrieved :
    growthMachine.Holds (BufferPeak.Bounded 4) (.ofSize 4)
      [.append [1, 2, 3, 4], .retrieve 3, .append [5, 6, 7, 8],
        .readFd (some [9, 10]), .readFd none, .retrieveAll] :=
  buffer_growth_bounded 4 _ (by decide +kernel)

end Libsaf
