/-
`Buffer::readFd` and `Buffer::readFrom`.  The kernel writes behind the writer
index, and when little room is left there also into an area on the stack, from
where the rest is appended.
-/
import Libsaf.Buffer
import Mathlib.Algebra.Order.Ring.Nat

namespace Libsaf

universe u

/-- What `readv` stores: the areas are filled in order. -/
def readv {α : Type u} : List Nat → List α → List (List α)
  | [], _ => []
  | len :: areas, data => data.take len :: readv areas (data.drop len)

/-- All that was delivered is in the areas. -/
theorem readv_flatten {α : Type u} {areas : List Nat} {data : List α}
    (h : data.length ≤ areas.sum) : (readv areas data).flatten = data := by
  induction areas generalizing data with
  | nil => exact (List.eq_nil_of_length_eq_zero (Nat.le_zero.mp h)).symm
  | cons len areas ih =>
      rw [List.sum_cons] at h
      have hrest : (data.drop len).length ≤ areas.sum := by
        rw [List.length_drop]
        omega
      rw [readv, List.flatten_cons, ih hrest, List.take_append_drop]

namespace Buffer

def gExtraBufferLen : Nat := 65536

/-- The areas that are passed to `readv`: the writable bytes, and `extrabuf` when
these are fewer than its length. -/
def readAreas (b : Buffer) : List Nat :=
  if b.writableBytes < gExtraBufferLen then
    [b.writableBytes, gExtraBufferLen]
  else [b.writableBytes]

/-- The kernel stores data behind the writer index. -/
def storeBehind (b : Buffer) (data : List UInt8) : Buffer :=
  { b with
    buffer := Memory.write b.buffer b.writerIndex data
    writer_le_size := by
      rw [Memory.length_write]
      exact b.writer_le_size }

/-- `_writerIndex += n`. -/
def advanceWriter (b : Buffer) (n : Nat) (hroom : n ≤ b.writableBytes) : Buffer :=
  { b with
    writerIndex := b.writerIndex + n
    reader_le_writer := Nat.le_trans b.reader_le_writer (Nat.le_add_right _ _)
    writer_le_size := by
      have := b.writer_le_size
      simp only [writableBytes] at hroom
      omega }

/-- `_writerIndex = _buffer.size()`. -/
def advanceToEnd (b : Buffer) : Buffer :=
  { b with
    writerIndex := b.buffer.length
    reader_le_writer := Nat.le_trans b.reader_le_writer b.writer_le_size
    writer_le_size := Nat.le_refl _ }

@[simp] theorem writableBytes_storeBehind (b : Buffer) (data : List UInt8) :
    (b.storeBehind data).writableBytes = b.writableBytes := by
  simp [storeBehind, writableBytes]

/-- `received` is what `readv` delivers, or nothing when it returns -1.  The
result is the value returned and the buffer afterwards. -/
def readFd (b : Buffer) (received : Option (List UInt8)) :
    Option (Int × Buffer) :=
  match received with
  | none => some (-1, b)
  | some data =>
      let areas := readv b.readAreas data
      let b' := b.storeBehind (areas.getD 0 [])
      let extrabuf := areas.getD 1 []
      let n := data.length
      if h : n ≤ b.writableBytes then
        some (n, b'.advanceWriter n (by rwa [writableBytes_storeBehind]))
      else
        (b'.advanceToEnd.append (extrabuf.take (n - b.writableBytes))).map
          fun b' => (n, b')

/-- `readFrom` with a datagram that was received. -/
def readFrom (b : Buffer) (data : List UInt8) : Option Buffer :=
  (b.ensureWritableBytes 65536).bind fun b' =>
    if h : data.length ≤ b'.1.writableBytes then some (b'.1.writeBehind data h)
    else none

/-- `readFrom`, also when `recvfrom` returns -1: room is made before. -/
def readFromFd (b : Buffer) (received : Option (List UInt8)) :
    Option (Int × Buffer) :=
  match received with
  | none => (b.ensureWritableBytes 65536).map fun b' => (-1, b'.1)
  | some data => (b.readFrom data).map fun b' => (data.length, b')

theorem readFrom_spec (b : Buffer) {data : List UInt8}
    (hdata : data.length ≤ 65536) :
    ∃ b', b.readFrom data = some b' ∧ b'.asString = b.asString ++ data := by
  obtain ⟨b', hensure, hcontent⟩ := b.ensureWritableBytes_spec 65536
  have hroom : data.length ≤ b'.1.writableBytes := Nat.le_trans hdata b'.2
  refine ⟨b'.1.writeBehind data hroom, ?_, ?_⟩
  · rw [readFrom, hensure, Option.bind_some, dif_pos hroom]
  · rw [asString_writeBehind, hcontent]

/-- Room is made for nothing when `recvfrom` fails. -/
theorem readFromFd_none (b : Buffer) :
    ∃ b', b.readFromFd none = some (-1, b') ∧ b'.asString = b.asString := by
  obtain ⟨b', hensure, hcontent⟩ := b.ensureWritableBytes_spec 65536
  refine ⟨b'.1, ?_, hcontent⟩
  rw [readFromFd, hensure, Option.map_some]

/-- What fills the writable bytes ends at the end of the vector. -/
theorem advanceToEnd_storeBehind (b : Buffer) {data : List UInt8}
    (hroom : data.length ≤ b.writableBytes)
    (hfull : data.length = b.writableBytes) :
    (b.storeBehind data).advanceToEnd = b.writeBehind data hroom := by
  have hend : b.buffer.length = b.writerIndex + data.length := by
    have := b.writer_le_size
    rw [hfull, writableBytes]
    omega
  simp only [advanceToEnd, storeBehind, writeBehind, Memory.length_write, hend]

/-- All of it fits behind the writer index. -/
theorem readFd_fits (b : Buffer) {data : List UInt8}
    (h : data.length ≤ b.writableBytes) :
    b.readFd (some data) = some ((data.length : Int), b.writeBehind data h) := by
  have hfirst : (readv b.readAreas data).getD 0 [] = data := by
    unfold readAreas
    split <;> exact List.take_of_length_le h
  simp only [readFd, hfirst, dif_pos h]
  rfl

/-- The rest of it is in the second area. -/
theorem readFd_overflows (b : Buffer) {data : List UInt8}
    (hsum : data.length ≤ b.readAreas.sum) (h : b.writableBytes < data.length) :
    ∃ b', b.readFd (some data) = some ((data.length : Int), b') ∧
      b'.asString = b.asString ++ data := by
  have hflatten := readv_flatten hsum
  have htwo : b.readAreas = [b.writableBytes, gExtraBufferLen] := by
    unfold readAreas at hsum ⊢
    split at hsum
    · next hless => rw [if_pos hless]
    · rw [List.sum_singleton] at hsum
      omega
  have hfirst : (data.take b.writableBytes).length = b.writableBytes := by
    rw [List.length_take]
    omega
  have hrest : (data.drop b.writableBytes).take gExtraBufferLen =
      data.drop b.writableBytes := by
    rw [htwo] at hflatten
    apply @List.append_cancel_left _ (data.take b.writableBytes)
    simpa [readv, List.take_append_drop] using hflatten
  have htail : ((data.drop b.writableBytes).take gExtraBufferLen).take
      (data.length - b.writableBytes) = data.drop b.writableBytes := by
    rw [hrest, List.take_of_length_le (Nat.le_of_eq List.length_drop)]
  have hroom : (data.take b.writableBytes).length ≤ b.writableBytes :=
    Nat.le_of_eq hfirst
  obtain ⟨b', happend, hcontent⟩ :=
    (b.writeBehind _ hroom).append_spec (data.drop b.writableBytes)
  refine ⟨b', ?_, ?_⟩
  · rw [readFd, dif_neg (Nat.not_le.mpr h)]
    simp only [htwo, readv, List.getD_cons_zero, List.getD_cons_succ, htail,
      b.advanceToEnd_storeBehind hroom hfirst, happend, Option.map_some]
  · rw [hcontent, asString_writeBehind, List.append_assoc,
      List.take_append_drop]

/-- Whatever `readv` delivers is appended. -/
theorem readFd_spec (b : Buffer) {data : List UInt8}
    (hsum : data.length ≤ b.readAreas.sum) :
    ∃ b', b.readFd (some data) = some ((data.length : Int), b') ∧
      b'.asString = b.asString ++ data := by
  by_cases h : data.length ≤ b.writableBytes
  · exact ⟨_, b.readFd_fits h, b.asString_writeBehind data h⟩
  · exact b.readFd_overflows hsum (Nat.not_le.mp h)

/-- The order of the indices that the header of the class draws. -/
def Indexed (b : Buffer) : Prop :=
  b.readerIndex ≤ b.writerIndex ∧ b.writerIndex ≤ b.buffer.length

theorem indexed (b : Buffer) : b.Indexed :=
  ⟨b.reader_le_writer, b.writer_le_size⟩

/-- A direct read has the value `n` and leaves the content that `append` of the
bytes that were delivered leaves. -/
def ReadsLikeAppend (b : Buffer) (data : List UInt8)
    (read : Option (Int × Buffer)) : Prop :=
  ∃ b' appended, read = some ((data.length : Int), b') ∧
    b.append data = some appended ∧ b'.asString = appended.asString ∧
    b'.Indexed

/-- A direct read that fails leaves the content. -/
def KeepsContent (b : Buffer) (read : Option (Int × Buffer)) : Prop :=
  ∃ b', read = some (-1, b') ∧ b'.asString = b.asString ∧ b'.Indexed

/-- `readFd` and `readFrom` agree with `append` for everything that the kernel
delivers, and keep the content when it delivers nothing. -/
theorem direct_reads_agree (b : Buffer) (data : List UInt8) :
    (data.length ≤ b.readAreas.sum →
      b.ReadsLikeAppend data (b.readFd (some data))) ∧
    (data.length ≤ 65536 →
      b.ReadsLikeAppend data (b.readFromFd (some data))) ∧
    b.KeepsContent (b.readFd none) ∧ b.KeepsContent (b.readFromFd none) := by
  obtain ⟨appended, happend, hcontent⟩ := b.append_spec data
  refine ⟨fun hsum => ?_, fun hlength => ?_, ?_, ?_⟩
  · obtain ⟨b', hread, hread'⟩ := b.readFd_spec hsum
    exact ⟨b', appended, hread, happend, hread'.trans hcontent.symm, b'.indexed⟩
  · obtain ⟨b', hread, hread'⟩ := b.readFrom_spec hlength
    refine ⟨b', appended, ?_, happend, hread'.trans hcontent.symm, b'.indexed⟩
    rw [readFromFd, hread, Option.map_some]
  · exact ⟨b, rfl, rfl, b.indexed⟩
  · obtain ⟨b', hread, hread'⟩ := b.readFromFd_none
    exact ⟨b', hread, hread', b'.indexed⟩

/-- Two bytes are writable; two more are delivered. -/
theorem direct_reads_agree_overflow :
    (Buffer.ofSize 2).ReadsLikeAppend [1, 2, 3, 4]
        ((Buffer.ofSize 2).readFd (some [1, 2, 3, 4])) ∧
      (Buffer.ofSize 2).ReadsLikeAppend [1, 2, 3, 4]
        ((Buffer.ofSize 2).readFromFd (some [1, 2, 3, 4])) :=
  have h := direct_reads_agree (Buffer.ofSize 2) [1, 2, 3, 4]
  ⟨h.1 (by decide), h.2.1 (by decide)⟩

end Buffer

end Libsaf
