/-
Sequences of typed integers in a `Buffer`.  What `appendIntN` stores is what
`peekIntN` returns; `readIntN` returns it too, but skips as many bytes as the
type has bits.
-/
import Libsaf.BufferInt

namespace Libsaf

open ByteOrder

/-- The integer types of the buffer. -/
inductive IntWidth where
  | int8
  | int16
  | int32
  | int64
deriving Repr, DecidableEq

namespace IntWidth

def bits : IntWidth → Nat
  | .int8 => 8
  | .int16 => 16
  | .int32 => 32
  | .int64 => 64

/-- `sizeof`. -/
def size (width : IntWidth) : Nat := width.bits / 8

end IntWidth

/-- An integer with its type. -/
inductive TypedInt where
  | int8 (x : BitVec 8)
  | int16 (x : BitVec 16)
  | int32 (x : BitVec 32)
  | int64 (x : BitVec 64)
deriving Repr, DecidableEq

namespace TypedInt

def width : TypedInt → IntWidth
  | .int8 _ => .int8
  | .int16 _ => .int16
  | .int32 _ => .int32
  | .int64 _ => .int64

/-- The bytes of an integer in network order. -/
def encode : TypedInt → List UInt8
  | .int8 x => (leBytes 1 x.toNat).reverse
  | .int16 x => (leBytes 2 x.toNat).reverse
  | .int32 x => (leBytes 4 x.toNat).reverse
  | .int64 x => (leBytes 8 x.toNat).reverse

end TypedInt

namespace Buffer

/-- The `appendIntN` of the type. -/
def appendInt (b : Buffer) : TypedInt → Option Buffer
  | .int8 x => b.appendInt8 x
  | .int16 x => b.appendInt16 x
  | .int32 x => b.appendInt32 x
  | .int64 x => b.appendInt64 x

/-- The `peekIntN` of the type. -/
def peekInt (b : Buffer) : IntWidth → Option TypedInt
  | .int8 => b.peekInt8.map .int8
  | .int16 => b.peekInt16.map .int16
  | .int32 => b.peekInt32.map .int32
  | .int64 => b.peekInt64.map .int64

/-- The `readIntN` of the type. -/
def readInt (b : Buffer) : IntWidth → Option (TypedInt × Buffer)
  | .int8 => b.readInt8.map fun (x, b') => (.int8 x, b')
  | .int16 => b.readInt16.map fun (x, b') => (.int16 x, b')
  | .int32 => b.readInt32.map fun (x, b') => (.int32 x, b')
  | .int64 => b.readInt64.map fun (x, b') => (.int64 x, b')

def appendInts : Buffer → List TypedInt → Option Buffer
  | b, [] => some b
  | b, value :: values => do appendInts (← b.appendInt value) values

theorem appendInt_spec (b : Buffer) (value : TypedInt) :
    ∃ b', b.appendInt value = some b' ∧
      b'.asString = b.asString ++ value.encode := by
  cases value with
  | int8 x => exact b.append_spec (leBytes 1 x.toNat)
  | int16 x => exact b.appendObject_swapBytes (by decide) x
  | int32 x => exact b.appendObject_swapBytes (by decide) x
  | int64 x => exact b.appendObject_swapBytes (by decide) x

theorem appendInts_spec (b : Buffer) (values : List TypedInt) :
    ∃ b', b.appendInts values = some b' ∧
      b'.asString = b.asString ++ values.flatMap TypedInt.encode := by
  induction values generalizing b with
  | nil => exact ⟨b, rfl, by simp⟩
  | cons value values ih =>
      obtain ⟨b₁, happend, hcontent⟩ := b.appendInt_spec value
      obtain ⟨b', hrest, hcontent'⟩ := ih b₁
      refine ⟨b', ?_, ?_⟩
      · rw [appendInts, happend, Option.bind_eq_bind, Option.bind_some, hrest]
      · rw [hcontent', hcontent, List.append_assoc, List.flatMap_cons]

/-- A swapped object in front of the buffer is read back. -/
theorem peekObject_encode {b : Buffer} {k w : Nat} (hw : 2 ^ w = 256 ^ k)
    {x : BitVec w} {rest : List UInt8}
    (h : b.asString = (leBytes k x.toNat).reverse ++ rest) :
    (b.peekObject k w).map (Net.swapBytes k) = some x := by
  have hlength : ((leBytes k x.toNat).reverse).length = k := by
    rw [List.length_reverse, length_leBytes]
  have hk : k ≤ b.readableBytes := by
    rw [← length_asString, h, List.length_append, hlength]
    exact Nat.le_add_right k _
  have hfront : b.asString.take k = (leBytes k x.toNat).reverse := by
    rw [h, List.take_left' hlength]
  rw [b.peekObject_swapBytes hw hk, hfront, beNat, List.reverse_reverse,
    leNat_leBytes, ← hw, Nat.mod_eq_of_lt x.isLt, BitVec.ofNat_toNat,
    BitVec.setWidth_eq]

/-- The integer in front of the buffer is what `peekIntN` returns. -/
theorem peekInt_spec {b : Buffer} {value : TypedInt} {rest : List UInt8}
    (h : b.asString = value.encode ++ rest) :
    b.peekInt value.width = some value := by
  cases value with
  | int8 x =>
      have hswap : Net.swapBytes 1 = (id : BitVec 8 → BitVec 8) := by
        funext y
        simp [Net.swapBytes, byteSwap, leBytes, leNat]
      have hpeek := peekObject_encode (by decide) h
      rw [hswap, Option.map_id] at hpeek
      exact congrArg (Option.map TypedInt.int8) hpeek
  | int16 x =>
      exact congrArg (Option.map TypedInt.int16) (peekObject_encode (by decide) h)
  | int32 x =>
      exact congrArg (Option.map TypedInt.int32) (peekObject_encode (by decide) h)
  | int64 x =>
      exact congrArg (Option.map TypedInt.int64) (peekObject_encode (by decide) h)

/-- The four readers are one: peek, and skip `N` bytes. -/
theorem readInt_eq (b : Buffer) (width : IntWidth) :
    b.readInt width = (b.peekInt width).bind fun value =>
      (b.retrieve width.bits).map fun b' => (value, b') := by
  cases width with
  | int8 =>
      simp only [readInt, readInt8, peekInt, IntWidth.bits]
      cases b.peekInt8 <;> cases b.retrieve 8 <;> rfl
  | int16 =>
      simp only [readInt, readInt16, peekInt, IntWidth.bits]
      cases b.peekInt16 <;> cases b.retrieve 16 <;> rfl
  | int32 =>
      simp only [readInt, readInt32, peekInt, IntWidth.bits]
      cases b.peekInt32 <;> cases b.retrieve 32 <;> rfl
  | int64 =>
      simp only [readInt, readInt64, peekInt, IntWidth.bits]
      cases b.peekInt64 <;> cases b.retrieve 64 <;> rfl

theorem retrieve_length {b b' : Buffer} {len : Nat}
    (h : b.retrieve len = some b') :
    b'.readableBytes + len = b.readableBytes := by
  have hlen : len ≤ b.readableBytes := by
    by_contra hmore
    rw [retrieve, if_neg hmore] at h
    cases h
  obtain ⟨b₁, hrun, hcontent⟩ := b.retrieve_spec hlen
  obtain rfl : b₁ = b' := Option.some.inj (hrun.symm.trans h)
  rw [← length_asString, hcontent, List.length_drop, length_asString]
  omega

/-- The amount by which `readIntN` shortens the readable bytes. -/
theorem readInt_length {b b' : Buffer} {width : IntWidth} {value : TypedInt}
    (h : b.readInt width = some (value, b')) :
    b'.readableBytes + width.bits = b.readableBytes := by
  rw [readInt_eq] at h
  obtain ⟨value', _, hmap⟩ := Option.bind_eq_some_iff.mp h
  obtain ⟨b₁, hretrieve, hpair⟩ := Option.map_eq_some_iff.mp hmap
  cases hpair
  exact retrieve_length hretrieve

end Buffer

/-- Reads in order that return the values, each of which consumes as many bytes
as its value has. -/
inductive ReadsBack : Buffer → List TypedInt → Buffer → Prop where
  | nil (b : Buffer) : ReadsBack b [] b
  | cons {b b₁ b' : Buffer} {value : TypedInt} {values : List TypedInt}
      (hread : b.readInt value.width = some (value, b₁))
      (hconsumed : b₁.readableBytes + value.width.size = b.readableBytes)
      (hrest : ReadsBack b₁ values b') : ReadsBack b (value :: values) b'

/-- The values are appended and the bytes behind them; then the values are read
back, and the bytes are left. -/
def IntsRoundTrip (b : Buffer) (values : List TypedInt)
    (trailing : List UInt8) : Prop :=
  ∃ b₁ b₂ b', b.appendInts values = some b₁ ∧ b₁.append trailing = some b₂ ∧
    ReadsBack b₂ values b' ∧ b'.asString = trailing

/-- No type has as many bytes as bits. -/
theorem ReadsBack.eq_nil {b b' : Buffer} {values : List TypedInt}
    (h : ReadsBack b values b') : values = [] := by
  cases h with
  | nil => rfl
  | @cons _ b₁ _ value _ hread hconsumed _ =>
      have hskipped := Buffer.readInt_length hread
      have hsize : ∀ width : IntWidth, width.size < width.bits := by
        intro width
        cases width <;> decide
      have hwidth := hsize value.width
      omega

/-- The integers stored are there: the first one is peeked, whatever follows. -/
theorem peekInt_appendInts {b : Buffer} (hempty : b.asString = [])
    (value : TypedInt) (values : List TypedInt) (trailing : List UInt8) :
    ∃ b₁ b₂, b.appendInts (value :: values) = some b₁ ∧
      b₁.append trailing = some b₂ ∧ b₂.peekInt value.width = some value := by
  obtain ⟨b₁, hints, hcontent⟩ := b.appendInts_spec (value :: values)
  obtain ⟨b₂, hbytes, hcontent'⟩ := b₁.append_spec trailing
  have hfront : b₂.asString =
      value.encode ++ (values.flatMap TypedInt.encode ++ trailing) := by
    rw [hcontent', hcontent, hempty, List.nil_append, List.flatMap_cons,
      List.append_assoc]
  exact ⟨b₁, b₂, hints, hbytes, Buffer.peekInt_spec hfront⟩

/-- Only the empty sequence of integers makes the round trip, although the first
of the others can be peeked. -/
theorem ints_roundTrip_iff {b : Buffer} (hempty : b.asString = [])
    (values : List TypedInt) (trailing : List UInt8) :
    (IntsRoundTrip b values trailing ↔ values = []) ∧
      ∀ value rest, values = value :: rest → ∃ b₁ b₂,
        b.appendInts values = some b₁ ∧ b₁.append trailing = some b₂ ∧
          b₂.peekInt value.width = some value := by
  refine ⟨⟨?_, ?_⟩, ?_⟩
  · rintro ⟨_, _, _, _, _, hreads, _⟩
    exact hreads.eq_nil
  · rintro rfl
    obtain ⟨b', happend, hcontent⟩ := b.append_spec trailing
    refine ⟨b, b', b', rfl, happend, .nil b', ?_⟩
    rw [hcontent, hempty, List.nil_append]
  · rintro value rest rfl
    exact peekInt_appendInts hempty value rest trailing

theorem ints_roundTrip_iff_none :
    IntsRoundTrip (.ofSize 4) [] [1, 2, 3] :=
  (ints_roundTrip_iff (Buffer.asString_ofSize 4) [] [1, 2, 3]).1.mpr rfl

/-- An `int8_t` and eight bytes behind it: the value is read, and with it seven
of the eight bytes are gone. -/
theorem ints_not_roundTrip_int8 :
    (∃ b₁ b₂ b', (Buffer.ofSize 16).appendInts [.int8 7] = some b₁ ∧
      b₁.append [1, 2, 3, 4, 5, 6, 7, 8] = some b₂ ∧
      b₂.readInt8 = some (7, b') ∧ b'.asString = [8]) ∧
    ¬IntsRoundTrip (.ofSize 16) [.int8 7] [1, 2, 3, 4, 5, 6, 7, 8] := by
  refine ⟨⟨_, _, _, rfl, rfl, rfl, by decide⟩, ?_⟩
  rintro ⟨_, _, _, _, _, hreads, _⟩
  exact absurd hreads.eq_nil (by simp)

end Libsaf
