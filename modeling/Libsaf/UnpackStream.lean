/-
`UnpackHandler` over whole streams: the result does not depend on how the
bytes arrive, and what an encoder with a 32-bit length prefix writes is not
what the handler reads.
-/
import Libsaf.UnpackHandler

namespace Libsaf

namespace UnpackHandler

open ByteOrder

/-- Calling `process` until it reports `FAILED`, with the payload of every
package read before the next call. -/
inductive Unpacks : Buffer → List (List UInt8) → Buffer → Prop where
  | failed {buffer buffer' : Buffer} {result : HandlerData} :
      process buffer (BufferData.create buffer.readableBytes) =
        some (result, buffer') →
      result.getStatus = .FAILED → Unpacks buffer [] buffer'
  | package {buffer next buffer' : Buffer} {bits : BitsData}
      {payloads : List (List UInt8)} :
      process buffer (BufferData.create buffer.readableBytes) =
        some (.bitsData bits, next) →
      bits.status = .SUCCESS → Unpacks next payloads buffer' →
      Unpacks buffer (bits.bytes next :: payloads) buffer'

/-- The chunks are appended one after the other, with an unpacking loop after
each of them. -/
inductive UnpackFeeds :
    Buffer → List (List UInt8) → List (List UInt8) → Buffer → Prop where
  | nil (buffer : Buffer) : UnpackFeeds buffer [] [] buffer
  | cons {buffer filled next buffer' : Buffer} {chunk : List UInt8}
      {chunks payloads more : List (List UInt8)} :
      buffer.append chunk = some filled → Unpacks filled payloads next →
      UnpackFeeds next chunks more buffer' →
      UnpackFeeds buffer (chunk :: chunks) (payloads ++ more) buffer'

/-- The unpacking loop drains the readable bytes of all complete frames. -/
theorem Unpacks.drains {buffer buffer' : Buffer}
    {payloads : List (List UInt8)} (h : Unpacks buffer payloads buffer') :
    frameParser.Drains buffer.asString payloads buffer'.asString := by
  induction h with
  | @failed buffer buffer' result hprocess hstatus =>
      have hstuck : parseFrame buffer.asString = none := by
        cases hparse : parseFrame buffer.asString with
        | none => rfl
        | some frame =>
            obtain ⟨bits, after, hprocess', hsuccess, _, _⟩ :=
              process_of_parseFrame
                (BufferData.create buffer.readableBytes) hparse
            rw [hprocess'] at hprocess
            cases hprocess
            rw [HandlerData.getStatus, hsuccess] at hstatus
            cases hstatus
      rw [process_failed hprocess hstatus]
      exact ⟨.nil _, hstuck⟩
  | @package buffer next buffer' bits payloads hprocess hstatus _ ih =>
      cases hparse : parseFrame buffer.asString with
      | none =>
          rw [process_of_parseFrame_none _ hparse] at hprocess
          cases hprocess
      | some frame =>
          obtain ⟨payload, rest⟩ := frame
          obtain ⟨bits', after, hprocess', _, rfl, rfl⟩ :=
            process_of_parseFrame
              (BufferData.create buffer.readableBytes) hparse
          rw [hprocess'] at hprocess
          cases hprocess
          exact ⟨.cons hparse ih.begins, ih.stuck⟩

/-- The unpacking loop ends on every buffer. -/
theorem Unpacks.total (buffer : Buffer) :
    ∃ payloads buffer', Unpacks buffer payloads buffer' := by
  induction hlength : buffer.asString.length using Nat.strongRecOn
    generalizing buffer with
  | _ n ih =>
      cases hparse : parseFrame buffer.asString with
      | none =>
          exact ⟨[], buffer,
            .failed (process_of_parseFrame_none _ hparse) rfl⟩
      | some frame =>
          obtain ⟨payload, rest⟩ := frame
          obtain ⟨bits, after, hprocess, hstatus, _, rfl⟩ :=
            process_of_parseFrame
              (BufferData.create buffer.readableBytes) hparse
          obtain ⟨payloads, buffer', hunpacks⟩ :=
            ih after.asString.length
              (hlength ▸ frameParser.shrinks hparse) after rfl
          exact ⟨_, buffer', .package hprocess hstatus hunpacks⟩

theorem UnpackFeeds.feeds {buffer buffer' : Buffer}
    {chunks payloads : List (List UInt8)}
    (h : UnpackFeeds buffer chunks payloads buffer') :
    frameParser.Feeds buffer.asString chunks payloads buffer'.asString := by
  induction h with
  | nil buffer => exact .nil _
  | @cons buffer filled next buffer' chunk chunks payloads more
      happend hunpacks _ ih =>
      obtain ⟨filled', happend', hcontent⟩ := buffer.append_spec chunk
      rw [happend] at happend'
      obtain rfl := Option.some.inj happend'
      exact .cons (hcontent ▸ hunpacks.drains) ih

theorem UnpackFeeds.total (buffer : Buffer) (chunks : List (List UInt8)) :
    ∃ payloads buffer', UnpackFeeds buffer chunks payloads buffer' := by
  induction chunks generalizing buffer with
  | nil => exact ⟨[], buffer, .nil buffer⟩
  | cons chunk chunks ih =>
      obtain ⟨filled, happend, _⟩ := buffer.append_spec chunk
      obtain ⟨payloads, next, hunpacks⟩ := Unpacks.total filled
      obtain ⟨more, buffer', hfeeds⟩ := ih next
      exact ⟨_, buffer', .cons happend hunpacks hfeeds⟩

/-- Feeding an empty buffer drains the whole stream. -/
theorem UnpackFeeds.drains {initialSize : Nat} {buffer : Buffer}
    {chunks payloads : List (List UInt8)}
    (h : UnpackFeeds (.ofSize initialSize) chunks payloads buffer) :
    frameParser.Drains chunks.flatten payloads buffer.asString :=
  PrefixParser.Feeds.drains h.feeds (show parseFrame [] = none by decide)

/-- However a stream is cut into chunks, feeding it ends, yields the payloads
of the longest sequence of complete frames at its head, leaves the bytes
behind the last of them, and every failed call leaves the content alone. -/
theorem unpack_chunking (initialSize : Nat) (chunks : List (List UInt8)) :
    (∃ payloads buffer,
      UnpackFeeds (.ofSize initialSize) chunks payloads buffer) ∧
    (∀ payloads buffer,
      UnpackFeeds (.ofSize initialSize) chunks payloads buffer →
        FrameStream chunks.flatten payloads buffer.asString ∧
        (∀ payloads' rest', FrameStream chunks.flatten payloads' rest' →
          payloads' <+: payloads) ∧
        (∀ initialSize' chunks' payloads' buffer',
          chunks'.flatten = chunks.flatten →
          UnpackFeeds (.ofSize initialSize') chunks' payloads' buffer' →
          payloads' = payloads ∧ buffer'.asString = buffer.asString)) ∧
    (∀ buffer data result buffer',
      process buffer data = some (result, buffer') →
      result.getStatus = .FAILED → buffer'.asString = buffer.asString) := by
  refine ⟨UnpackFeeds.total _ chunks, ?_, ?_⟩
  · intro payloads buffer hfeeds
    have hdrains := hfeeds.drains
    refine ⟨begins_iff_frameStream.mp hdrains.begins, ?_, ?_⟩
    · intro payloads' rest' hstream
      exact hdrains.longest (begins_iff_frameStream.mpr hstream)
    · intro initialSize' chunks' payloads' buffer' hflatten hfeeds'
      have hdrains' := hfeeds'.drains
      rw [hflatten] at hdrains'
      exact hdrains'.unique hdrains
  · intro buffer data result buffer' hprocess hfailed
    rw [process_failed hprocess hfailed]

/-- The encoder: a 32-bit length and the payload behind it. -/
def writeFrames : Buffer → List (List UInt8) → Option Buffer
  | buffer, [] => some buffer
  | buffer, payload :: payloads => do
      let prefixed ← buffer.appendInt32 (BitVec.ofNat 32 payload.length)
      let filled ← prefixed.append payload
      writeFrames filled payloads

/-- What is written is unpacked again, and nothing is left. -/
def RoundTrips (initialSize : Nat) (payloads : List (List UInt8)) : Prop :=
  ∃ buffer buffer', writeFrames (.ofSize initialSize) payloads = some buffer ∧
    Unpacks buffer payloads buffer' ∧ buffer'.readableBytes = 0

/-- The encoder spends four bytes on every payload. -/
theorem writeFrames_length (buffer : Buffer) (payloads : List (List UInt8)) :
    ∃ buffer', writeFrames buffer payloads = some buffer' ∧
      buffer'.asString.length = buffer.asString.length +
        4 * payloads.length + payloads.flatten.length := by
  induction payloads generalizing buffer with
  | nil => exact ⟨buffer, rfl, by simp⟩
  | cons payload payloads ih =>
      obtain ⟨prefixed, hprefix, hprefixed⟩ :=
        buffer.appendInt32_spec (BitVec.ofNat 32 payload.length)
      obtain ⟨filled, hfill, hfilled⟩ := prefixed.append_spec payload
      obtain ⟨buffer', hrest, hlength⟩ := ih filled
      refine ⟨buffer', ?_, ?_⟩
      · simp only [writeFrames, hprefix, hfill, Option.bind_eq_bind,
          Option.bind_some, hrest]
      · rw [hlength, hfilled, hprefixed]
        simp only [List.length_append, List.length_reverse, length_leBytes,
          List.length_cons, List.flatten_cons]
        omega

/-- The decoder consumes `HeaderBits` bytes with every payload. -/
theorem frameParser_begins_length {s rest : List UInt8}
    {payloads : List (List UInt8)}
    (h : frameParser.Begins s payloads rest) :
    s.length = HeaderBits * payloads.length + payloads.flatten.length +
      rest.length := by
  induction h with
  | nil s => simp
  | cons hparse _ ih =>
      rw [parseFrame_length hparse, ih]
      simp only [HeaderBits, List.length_cons, List.flatten_cons,
        List.length_append]
      omega

theorem roundTrips_nil (initialSize : Nat) : RoundTrips initialSize [] :=
  ⟨.ofSize initialSize, .ofSize initialSize, rfl,
    .failed (process_of_parseFrame_none _
      (by rw [Buffer.asString_ofSize]; decide)) rfl, rfl⟩

/-- Four bytes written and `HeaderBits` bytes read per payload cannot both
account for the same buffer. -/
theorem RoundTrips.eq_nil {initialSize : Nat} {payloads : List (List UInt8)}
    (h : RoundTrips initialSize payloads) : payloads = [] := by
  obtain ⟨buffer, buffer', hwrite, hunpacks, hempty⟩ := h
  obtain ⟨written, hwritten, hlength⟩ :=
    writeFrames_length (.ofSize initialSize) payloads
  rw [hwrite] at hwritten
  obtain rfl := Option.some.inj hwritten
  have hread := frameParser_begins_length hunpacks.drains.begins
  rw [hlength, Buffer.length_asString, Buffer.length_asString, hempty] at hread
  simp only [Buffer.readableBytes_ofSize, HeaderBits] at hread
  apply List.length_eq_zero_iff.mp
  omega

/-- The round trip succeeds exactly for the empty list of payloads. -/
theorem roundTrips_iff (initialSize : Nat) (payloads : List (List UInt8)) :
    RoundTrips initialSize payloads ↔ payloads = [] := by
  constructor
  · exact RoundTrips.eq_nil
  · rintro rfl
    exact roundTrips_nil initialSize

/-- One payload of one byte: five bytes are written, and the handler fails
because it waits for more than `HeaderBits` bytes. -/
theorem not_roundTrips_singleton :
    (∃ buffer, writeFrames (.ofSize 8) [[7]] = some buffer ∧
      buffer.asString = [0, 0, 0, 1, 7] ∧
      process buffer (BufferData.create buffer.readableBytes) =
        some (.bufferData ⟨.FAILED, 5⟩, buffer)) ∧
    ¬ RoundTrips 8 [[7]] := by
  refine ⟨⟨⟨[0, 0, 0, 1, 7, 0, 0, 0], 0, 5, by decide, by decide⟩,
    by decide, by decide, by decide⟩, ?_⟩
  intro h
  have := h.eq_nil
  simp at this

end UnpackHandler

end Libsaf
