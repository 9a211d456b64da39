/-
`saf::Buffer`: a vector of bytes with a reader and a writer index.  Every
`assert` of the source is a test here, and `none` is the failing assertion.
Sizes are natural numbers: a `size_t` sum of the lengths of objects that live
in one address space does not wrap.
-/
import Libsaf.Memory

namespace Libsaf

/-- The order of the indices is part of the type, as in the picture in the
header of the class. -/
structure Buffer where
  buffer : List UInt8
  readerIndex : Nat
  writerIndex : Nat
  reader_le_writer : readerIndex ≤ writerIndex
  writer_le_size : writerIndex ≤ buffer.length
deriving Repr, DecidableEq

namespace Buffer

def kCheapPrepend : Nat := 0

def kInitialSize : Nat := 1024

/-- `Buffer(initialSize)`. -/
def ofSize (initialSize : Nat) : Buffer where
  buffer := List.replicate (kCheapPrepend + initialSize) 0
  readerIndex := kCheapPrepend
  writerIndex := kCheapPrepend
  reader_le_writer := Nat.le_refl _
  writer_le_size := by rw [List.length_replicate]; exact Nat.le_add_right _ _

def readableBytes (b : Buffer) : Nat := b.writerIndex - b.readerIndex

def writableBytes (b : Buffer) : Nat := b.buffer.length - b.writerIndex

def prependableBytes (b : Buffer) : Nat := b.readerIndex

/-- The memory from the reader index on. -/
def peek (b : Buffer) : List UInt8 := b.buffer.drop b.readerIndex

def asString (b : Buffer) : List UInt8 := b.peek.take b.readableBytes

def retrieveAll (b : Buffer) : Buffer :=
  { b with
    readerIndex := kCheapPrepend
    writerIndex := kCheapPrepend
    reader_le_writer := Nat.le_refl _
    writer_le_size := Nat.zero_le _ }

def retrieve (b : Buffer) (len : Nat) : Option Buffer :=
  if len ≤ b.readableBytes then
    if h : len < b.readableBytes then
      some { b with
        readerIndex := b.readerIndex + len
        reader_le_writer := by unfold readableBytes at h; omega }
    else some b.retrieveAll
  else none

/-- The result is the string returned and the buffer afterwards. -/
def retrieveAsString (b : Buffer) (len : Nat) : Option (List UInt8 × Buffer) :=
  if len ≤ b.readableBytes then
    (b.retrieve len).map fun b' => (b.peek.take len, b')
  else none

def retrieveAllAsString (b : Buffer) : Option (List UInt8 × Buffer) :=
  b.retrieveAsString b.readableBytes

/-- Grow when the free bytes at both ends do not suffice together, else move
the readable bytes to the front. -/
def makeSpace (b : Buffer) (len : Nat) : Option Buffer :=
  if b.writableBytes + b.prependableBytes < len + kCheapPrepend then
    some { b with
      buffer := Memory.resize 0 b.buffer (b.writerIndex + len)
      writer_le_size := by simp }
  else if kCheapPrepend < b.readerIndex then
    some { b with
      buffer := Memory.copyForward b.buffer b.readerIndex kCheapPrepend
        b.readableBytes
      readerIndex := kCheapPrepend
      writerIndex := kCheapPrepend + b.readableBytes
      reader_le_writer := Nat.le_add_right _ _
      writer_le_size := by
        have := b.writer_le_size
        simp only [Memory.length_copyForward, kCheapPrepend, readableBytes]
        omega }
  else none

/-- The final assertion is what the callers rely on, so it is returned. -/
def ensureWritableBytes (b : Buffer) (len : Nat) :
    Option { b' : Buffer // len ≤ b'.writableBytes } :=
  (if b.writableBytes < len then b.makeSpace len else some b).bind fun b' =>
    if h : len ≤ b'.writableBytes then some ⟨b', h⟩ else none

/-- Copy the data behind the writer index and move the index. -/
def writeBehind (b : Buffer) (data : List UInt8)
    (hroom : data.length ≤ b.writableBytes) : Buffer :=
  { b with
    buffer := Memory.write b.buffer b.writerIndex data
    writerIndex := b.writerIndex + data.length
    reader_le_writer := Nat.le_trans b.reader_le_writer (Nat.le_add_right _ _)
    writer_le_size := by
      have := b.writer_le_size
      simp only [writableBytes, Memory.length_write] at hroom ⊢
      omega }

def append (b : Buffer) (data : List UInt8) : Option Buffer :=
  (b.ensureWritableBytes data.length).map fun b' => b'.1.writeBehind data b'.2

@[simp] theorem readableBytes_ofSize (n : Nat) :
    (ofSize n).readableBytes = 0 := rfl

@[simp] theorem asString_ofSize (n : Nat) : (ofSize n).asString = [] := rfl

@[simp] theorem asString_retrieveAll (b : Buffer) :
    b.retrieveAll.asString = [] := rfl

@[simp] theorem length_asString (b : Buffer) :
    b.asString.length = b.readableBytes := by
  have := b.writer_le_size
  simp only [asString, peek, List.length_take, List.length_drop, readableBytes]
  omega

theorem asString_eq_nil_iff (b : Buffer) :
    b.asString = [] ↔ b.readableBytes = 0 := by
  rw [← length_asString, List.length_eq_zero_iff]

/-- What lies in front of the writer index is what `peek` returns. -/
theorem peek_take (b : Buffer) {len : Nat} (hlen : len ≤ b.readableBytes) :
    b.peek.take len = b.asString.take len := by
  rw [asString, List.take_take, Nat.min_eq_left hlen]

theorem retrieve_spec (b : Buffer) {len : Nat} (hlen : len ≤ b.readableBytes) :
    ∃ b', b.retrieve len = some b' ∧ b'.asString = b.asString.drop len := by
  rw [retrieve, if_pos hlen]
  by_cases hlt : len < b.readableBytes
  · rw [dif_pos hlt]
    refine ⟨_, rfl, ?_⟩
    simp only [asString, peek, readableBytes, List.drop_take, List.drop_drop,
      Nat.sub_add_eq]
  · rw [dif_neg hlt]
    refine ⟨_, rfl, ?_⟩
    rw [asString_retrieveAll, List.drop_eq_nil_of_le]
    rw [length_asString]
    omega

/-- Retrieving never touches the vector itself. -/
theorem retrieve_buffer {b b' : Buffer} {len : Nat}
    (h : b.retrieve len = some b') : b'.buffer = b.buffer := by
  unfold retrieve at h
  split at h
  · split at h
    · cases h; rfl
    · cases h; rfl
  · cases h

theorem retrieveAsString_spec (b : Buffer) {len : Nat}
    (hlen : len ≤ b.readableBytes) :
    ∃ b', b.retrieveAsString len = some (b.asString.take len, b') ∧
      b'.asString = b.asString.drop len := by
  obtain ⟨b', hretrieve, hcontent⟩ := b.retrieve_spec hlen
  refine ⟨b', ?_, hcontent⟩
  rw [retrieveAsString, if_pos hlen, hretrieve, Option.map_some,
    b.peek_take hlen]

/-- Neither assertion on the growing path can fail: compaction is chosen only
when bytes in front of the reader index are needed. -/
theorem makeSpace_spec (b : Buffer) {len : Nat} (hlen : b.writableBytes < len) :
    ∃ b', b.makeSpace len = some b' ∧ len ≤ b'.writableBytes ∧
      b'.asString = b.asString := by
  have hreader := b.reader_le_writer
  have hwriter := b.writer_le_size
  unfold makeSpace
  by_cases hgrow :
      b.writableBytes + b.prependableBytes < len + kCheapPrepend
  · rw [if_pos hgrow]
    refine ⟨_, rfl, ?_, ?_⟩
    · simp [writableBytes]
    · simp only [writableBytes] at hlen
      exact Memory.resize_slice 0 b.buffer _ _ _ (by omega)
        (by simp only [readableBytes]; omega)
  · rw [if_neg hgrow]
    simp only [prependableBytes, kCheapPrepend, Nat.add_zero, Nat.not_lt]
      at hgrow
    have hfront : kCheapPrepend < b.readerIndex := by
      simp only [kCheapPrepend]
      omega
    rw [if_pos hfront]
    refine ⟨_, rfl, ?_, ?_⟩
    · simp only [writableBytes, readableBytes, kCheapPrepend,
        Memory.length_copyForward] at hgrow ⊢
      omega
    · simp only [asString, peek, readableBytes, kCheapPrepend,
        Nat.zero_add, Nat.sub_zero]
      exact Memory.copyForward_slice b.buffer b.readerIndex 0 _
        (Nat.zero_le _) (by omega)

theorem ensureWritableBytes_spec (b : Buffer) (len : Nat) :
    ∃ b', b.ensureWritableBytes len = some b' ∧
      b'.1.asString = b.asString := by
  unfold ensureWritableBytes
  by_cases hlt : b.writableBytes < len
  · obtain ⟨b', hspace, hroom, hcontent⟩ := b.makeSpace_spec hlt
    refine ⟨⟨b', hroom⟩, ?_, hcontent⟩
    rw [if_pos hlt, hspace, Option.bind_some, dif_pos hroom]
  · refine ⟨⟨b, by omega⟩, ?_, rfl⟩
    rw [if_neg hlt, Option.bind_some, dif_pos (by omega)]

theorem asString_writeBehind (b : Buffer) (data : List UInt8)
    (hroom : data.length ≤ b.writableBytes) :
    (b.writeBehind data hroom).asString = b.asString ++ data := by
  have hwriter := b.writer_le_size
  simp only [writableBytes] at hroom
  exact Memory.write_slice b.buffer b.readerIndex b.writerIndex data
    b.reader_le_writer (by omega)

theorem append_spec (b : Buffer) (data : List UInt8) :
    ∃ b', b.append data = some b' ∧ b'.asString = b.asString ++ data := by
  obtain ⟨b', hensure, hcontent⟩ := b.ensureWritableBytes_spec data.length
  refine ⟨b'.1.writeBehind data b'.2, ?_, ?_⟩
  · rw [append, hensure, Option.map_some]
  · rw [asString_writeBehind, hcontent]

end Buffer

end Libsaf
