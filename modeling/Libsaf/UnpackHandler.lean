/-
`saf::UnpackHandler` cuts a buffer into length-prefixed frames.  The grammar
it implements is stated on byte strings first, the handler is then shown to
parse exactly that grammar.
-/
import Libsaf.PrefixParser
import Libsaf.BufferInt

namespace Libsaf

open ByteOrder

inductive HandlerStatus where
  | SUCCESS
  | FAILED
deriving Repr, DecidableEq

/-- The buffer a `BufferData` points to is passed beside it. -/
structure BufferData where
  status : HandlerStatus
  length : Nat
deriving Repr, DecidableEq

/-- `data` points into the vector of the buffer. -/
structure BitsData where
  status : HandlerStatus
  data : Nat
  length : Nat
deriving Repr, DecidableEq

inductive HandlerData where
  | bufferData (data : BufferData)
  | bitsData (data : BitsData)
deriving Repr, DecidableEq

def HandlerData.getStatus : HandlerData → HandlerStatus
  | .bufferData data => data.status
  | .bitsData data => data.status

def BufferData.create (length : Nat) : BufferData :=
  { status := .SUCCESS, length := length }

def BitsData.create (data length : Nat) : BitsData :=
  { status := .SUCCESS, data := data, length := length }

/-- The bytes a `BitsData` points to, as long as the vector is not changed. -/
def BitsData.bytes (bits : BitsData) (buffer : Buffer) : List UInt8 :=
  (buffer.buffer.drop bits.data).take bits.length

namespace UnpackHandler

def HeaderBits : Nat := 32

/-- `size` is only converted to `size_t` when it is positive, so the
conversion keeps its value. -/
def process (buffer : Buffer) (data : BufferData) :
    Option (HandlerData × Buffer) :=
  let failed : Option (HandlerData × Buffer) :=
    some (.bufferData { data with status := .FAILED }, buffer)
  if HeaderBits < buffer.readableBytes then do
    let size ← buffer.peekInt32
    if 0 < size.toInt ∧ size.toNat + HeaderBits ≤ buffer.readableBytes then
      let body ← buffer.retrieve HeaderBits
      let package := BitsData.create body.readerIndex size.toNat
      let rest ← body.retrieve size.toNat
      some (.bitsData package, rest)
    else failed
  else failed

/-- The signed big-endian number in the first four bytes. -/
def headerSize (header : List UInt8) : Int :=
  (BitVec.ofNat 32 (beNat (header.take 4))).toInt

/-- A frame: a header whose size field is the length of the payload. -/
def IsFrame (frame payload : List UInt8) : Prop :=
  ∃ header, frame = header ++ payload ∧ header.length = HeaderBits ∧
    headerSize header = payload.length ∧ 0 < payload.length

/-- The stream begins with complete frames carrying these payloads, and
`rest` is behind the last of them. -/
inductive FrameStream : List UInt8 → List (List UInt8) → List UInt8 → Prop where
  | nil (rest : List UInt8) : FrameStream rest [] rest
  | cons {frame payload s rest : List UInt8} {payloads : List (List UInt8)} :
      IsFrame frame payload → FrameStream s payloads rest →
      FrameStream (frame ++ s) (payload :: payloads) rest

/-- One frame off the front of a byte string. -/
def parseFrame (s : List UInt8) : Option (List UInt8 × List UInt8) :=
  let size := (headerSize s).toNat
  if 0 < size ∧ HeaderBits + size ≤ s.length then
    some ((s.drop HeaderBits).take size, s.drop (HeaderBits + size))
  else none

theorem headerSize_append {header : List UInt8} (h : header.length = HeaderBits)
    (s : List UInt8) : headerSize (header ++ s) = headerSize header := by
  rw [headerSize, headerSize,
    List.take_append_of_le_length (by rw [h]; decide)]

theorem headerSize_take (s : List UInt8) :
    headerSize (s.take HeaderBits) = headerSize s := by
  rw [headerSize, headerSize, List.take_take]
  rfl

/-- The parser accepts exactly the frames of the grammar. -/
theorem parseFrame_eq_some_iff {s payload rest : List UInt8} :
    parseFrame s = some (payload, rest) ↔
      ∃ frame, s = frame ++ rest ∧ IsFrame frame payload := by
  constructor
  · intro h
    simp only [parseFrame] at h
    split at h
    · next hfits =>
        obtain ⟨hpos, hlength⟩ := hfits
        simp only [Option.some.injEq, Prod.mk.injEq] at h
        obtain ⟨rfl, rfl⟩ := h
        have hpayload :
            ((s.drop HeaderBits).take (headerSize s).toNat).length =
              (headerSize s).toNat := by
          rw [List.length_take, List.length_drop]
          omega
        refine ⟨s.take HeaderBits ++
          (s.drop HeaderBits).take (headerSize s).toNat, ?_,
          s.take HeaderBits, rfl, ?_, ?_, ?_⟩
        · rw [List.append_assoc, ← List.drop_drop,
            List.take_append_drop, List.take_append_drop]
        · rw [List.length_take]
          omega
        · rw [hpayload, headerSize_take]
          omega
        · rw [hpayload]
          exact hpos
    · cases h
  · rintro ⟨frame, rfl, header, rfl, hheader, hsize, hpos⟩
    have hvalue : (headerSize (header ++ payload ++ rest)).toNat =
        payload.length := by
      rw [List.append_assoc, headerSize_append hheader, hsize]
      exact Int.toNat_natCast _
    have hfits : 0 < payload.length ∧
        HeaderBits + payload.length ≤ (header ++ payload ++ rest).length := by
      simp only [List.length_append]
      omega
    simp only [parseFrame, hvalue]
    rw [if_pos hfits, ← hheader]
    simp

theorem parseFrame_stable {s payload rest : List UInt8}
    (h : parseFrame s = some (payload, rest)) (more : List UInt8) :
    parseFrame (s ++ more) = some (payload, rest ++ more) := by
  obtain ⟨frame, rfl, hframe⟩ := parseFrame_eq_some_iff.mp h
  exact parseFrame_eq_some_iff.mpr
    ⟨frame, List.append_assoc _ _ _, hframe⟩

theorem parseFrame_length {s payload rest : List UInt8}
    (h : parseFrame s = some (payload, rest)) :
    s.length = HeaderBits + payload.length + rest.length := by
  obtain ⟨frame, rfl, header, rfl, hheader, _, _⟩ :=
    parseFrame_eq_some_iff.mp h
  simp only [List.length_append, hheader]

/-- Frames as the items of an incremental parser. -/
def frameParser : PrefixParser UInt8 (List UInt8) where
  parse := parseFrame
  stable := parseFrame_stable
  shrinks := by
    intro s payload rest h
    have hlength := parseFrame_length h
    simp only [HeaderBits] at hlength
    omega

theorem begins_iff_frameStream {s rest : List UInt8}
    {payloads : List (List UInt8)} :
    frameParser.Begins s payloads rest ↔ FrameStream s payloads rest := by
  constructor
  · intro h
    induction h with
    | nil s => exact .nil s
    | cons hparse _ ih =>
        obtain ⟨frame, rfl, hframe⟩ := parseFrame_eq_some_iff.mp hparse
        exact .cons hframe ih
  · intro h
    induction h with
    | nil s => exact .nil s
    | cons hframe _ ih =>
        exact .cons (parseFrame_eq_some_iff.mpr ⟨_, rfl, hframe⟩) ih

/-- What the handler compares is the size field of the frame grammar. -/
theorem peekInt32_headerSize {buffer : Buffer}
    (hmore : HeaderBits < buffer.readableBytes) :
    ∃ size, buffer.peekInt32 = some size ∧
      size.toInt = headerSize buffer.asString := by
  have hfour : 4 ≤ buffer.readableBytes := by
    simp only [HeaderBits] at hmore
    omega
  exact ⟨_, buffer.peekInt32_spec hfour, rfl⟩

/-- A positive size keeps its value when it is converted to `size_t`. -/
theorem toNat_of_toInt_pos {size : BitVec 32} (h : 0 < size.toInt) :
    size.toNat = size.toInt.toNat := by
  rw [BitVec.toInt_eq_toNat_cond] at h ⊢
  split at h
  · next hlt => rw [if_pos hlt, Int.toNat_natCast]
  · next hge =>
      have := size.isLt
      omega

/-- When a frame is complete, the handler returns its payload and consumes
exactly the frame. -/
theorem process_of_parseFrame {buffer : Buffer} (data : BufferData)
    {payload rest : List UInt8}
    (h : parseFrame buffer.asString = some (payload, rest)) :
    ∃ package buffer', process buffer data =
        some (.bitsData package, buffer') ∧
      package.status = .SUCCESS ∧ package.bytes buffer' = payload ∧
      buffer'.asString = rest := by
  simp only [parseFrame] at h
  split at h
  case isFalse => cases h
  case isTrue hfits =>
  obtain ⟨hpos, hlength⟩ := hfits
  simp only [Option.some.injEq, Prod.mk.injEq] at h
  obtain ⟨rfl, rfl⟩ := h
  rw [Buffer.length_asString] at hlength
  have hmore : HeaderBits < buffer.readableBytes := by omega
  obtain ⟨size, hpeek, hsize⟩ := peekInt32_headerSize hmore
  have hsizePos : 0 < size.toInt := by omega
  have hvalue : size.toNat = (headerSize buffer.asString).toNat := by
    rw [toNat_of_toInt_pos hsizePos, hsize]
  obtain ⟨body, hbody, hbodyContent⟩ :=
    buffer.retrieve_spec (Nat.le_of_lt hmore)
  have hbodyRoom : size.toNat ≤ body.readableBytes := by
    rw [← Buffer.length_asString, hbodyContent, List.length_drop,
      Buffer.length_asString]
    omega
  obtain ⟨after, hafter, hafterContent⟩ := body.retrieve_spec hbodyRoom
  refine ⟨BitsData.create body.readerIndex size.toNat, after, ?_, rfl, ?_, ?_⟩
  · simp only [process, if_pos hmore, hpeek, hbody, hafter,
      Option.bind_eq_bind, Option.bind_some]
    rw [if_pos ⟨hsizePos, by omega⟩]
  · have hpeekBody : body.peek = after.buffer.drop body.readerIndex := by
      rw [Buffer.peek, Buffer.retrieve_buffer hafter]
    rw [BitsData.bytes, BitsData.create, ← hpeekBody,
      body.peek_take hbodyRoom, hbodyContent, hvalue]
  · rw [hafterContent, hbodyContent, List.drop_drop, hvalue]

/-- Without a complete frame the handler fails and leaves the buffer alone. -/
theorem process_of_parseFrame_none {buffer : Buffer} (data : BufferData)
    (h : parseFrame buffer.asString = none) :
    process buffer data =
      some (.bufferData { data with status := .FAILED }, buffer) := by
  rw [process]
  by_cases hmore : HeaderBits < buffer.readableBytes
  · obtain ⟨size, hpeek, hsize⟩ := peekInt32_headerSize hmore
    have hnot : ¬ (0 < size.toInt ∧
        size.toNat + HeaderBits ≤ buffer.readableBytes) := by
      rintro ⟨hpos, hfits⟩
      have hvalue := toNat_of_toInt_pos hpos
      have hcomplete : 0 < (headerSize buffer.asString).toNat ∧
          HeaderBits + (headerSize buffer.asString).toNat ≤
            buffer.asString.length := by
        rw [Buffer.length_asString, ← hsize, ← hvalue]
        omega
      simp only [parseFrame, if_pos hcomplete] at h
      cases h
    simp only [if_pos hmore, hpeek, Option.bind_eq_bind, Option.bind_some,
      if_neg hnot]
  · rw [if_neg hmore]

/-- A call that fails leaves the readable bytes as they were. -/
theorem process_failed {buffer buffer' : Buffer} {data : BufferData}
    {result : HandlerData} (h : process buffer data = some (result, buffer'))
    (hfailed : result.getStatus = .FAILED) : buffer' = buffer := by
  cases hparse : parseFrame buffer.asString with
  | none =>
      rw [process_of_parseFrame_none data hparse] at h
      cases h
      rfl
  | some frame =>
      obtain ⟨package, after, hprocess, hstatus, _, _⟩ :=
        process_of_parseFrame data hparse
      rw [hprocess] at h
      cases h
      rw [HandlerData.getStatus, hstatus] at hfailed
      cases hfailed

end UnpackHandler

end Libsaf
