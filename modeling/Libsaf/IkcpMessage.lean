/-
Messages on top of segments.  `ikcp_send` cuts a message into fragments that
count down to zero and `ikcp_recv` puts it together again; in streaming mode the
bytes matter and not the boundaries.
-/
import Libsaf.IkcpDatagram

namespace Libsaf

namespace Ikcp

section Bytes

/-- The bytes that segments carry. -/
def bytes (segs : List Seg) : List UInt8 := segs.flatMap Seg.data

@[simp] theorem bytes_append (segs more : List Seg) :
    bytes (segs ++ more) = bytes segs ++ bytes more :=
  List.flatMap_append

/-- Filling up the last segment takes bytes from the front of the buffer. -/
theorem extendLast_bytes (k : Kcpcb) (buffer : List UInt8) :
    bytes (extendLast k buffer).1.sndQueue ++ (extendLast k buffer).2 =
      bytes k.sndQueue ++ buffer ∧ (extendLast k buffer).2 <:+ buffer := by
  rw [extendLast]
  split
  · exact ⟨rfl, List.suffix_refl buffer⟩
  · next old hlast =>
      split
      · obtain ⟨init, hinit⟩ := List.getLast?_eq_some_iff.mp hlast
        refine ⟨?_, List.drop_suffix _ buffer⟩
        show bytes (k.sndQueue.dropLast ++ [_]) ++ buffer.drop _ = _
        rw [hinit, List.dropLast_concat]
        simp [bytes, Seg.fresh]
      · exact ⟨rfl, List.suffix_refl buffer⟩

theorem fragments_bytes (mss : UInt32) (stream : Int) (count : Nat)
    (buffer : List UInt8) :
    bytes (fragments mss stream count buffer) =
      buffer.take (count * mss.toNat) := by
  induction count generalizing buffer with
  | zero => simp [fragments, bytes]
  | succ i ih =>
      rw [fragments, bytes, List.flatMap_cons, ← bytes, ih, Nat.add_mul,
        Nat.one_mul, Nat.add_comm, List.take_add]
      rfl

/-- The fragments cover the buffer: the sum in `ikcp_send` does not wrap. -/
theorem fragmentCount_covers {mss : UInt32} {len : Nat} (hpos : 0 < mss.toNat)
    (hmss : mss.toNat < 2 ^ 31) (hlen : len < 2 ^ 31) :
    0 < fragmentCount mss len ∧
      len ≤ fragmentCount mss len * mss.toNat := by
  rw [fragmentCount]
  split
  · next hsmall => exact ⟨Nat.one_pos, by omega⟩
  · next hlarge =>
      have hcount : ((UInt32.ofNat len + mss - 1) / mss).toNat =
          (len + mss.toNat - 1) / mss.toNat := by
        rw [UInt32.toNat_div, UInt32.toNat_sub, UInt32.toNat_add,
          UInt32.toNat_ofNat']
        congr 1
        show (2 ^ 32 - 1 + (len % 2 ^ 32 + mss.toNat) % 2 ^ 32) % 2 ^ 32 = _
        omega
      have hdiv := Nat.div_add_mod (len + mss.toNat - 1) mss.toNat
      have hmod := Nat.mod_lt (len + mss.toNat - 1) hpos
      rw [hcount]
      rw [Nat.mul_comm] at hdiv
      refine ⟨Nat.div_pos (by omega) hpos, by omega⟩

theorem sendFragments_bytes {k : Kcpcb} {buffer : List UInt8}
    (hpos : 0 < k.mss.toNat) (hmss : k.mss.toNat < 2 ^ 31)
    (hlen : buffer.length < 2 ^ 31) :
    bytes (sendFragments k buffer).2.sndQueue =
      bytes k.sndQueue ++ if (sendFragments k buffer).1 = 0 then buffer
        else [] := by
  obtain ⟨hcount, hcovers⟩ := fragmentCount_covers hpos hmss hlen
  rw [sendFragments]
  split
  · exact (List.append_nil _).symm
  · rw [if_neg (Nat.ne_of_gt hcount)]
    show bytes (k.sndQueue ++ _) = bytes k.sndQueue ++ buffer
    rw [bytes_append, fragments_bytes, List.take_of_length_le hcovers]

/-- What a call of `ikcp_send` leaves in the queue: its buffer, when it returns
0, or a part of it. -/
inductive Handed where
  | whole (buffer : List UInt8)
  | part (buffer left : List UInt8)
deriving Repr, DecidableEq

namespace Handed

def bytes : Handed → List UInt8
  | .whole buffer => buffer
  | .part _ left => left

/-- The buffer of a call that returned 0. -/
def accepted : Handed → Option (List UInt8)
  | .whole buffer => some buffer
  | .part _ _ => none

/-- A call that is refused leaves some first bytes of its buffer, not all. -/
def Proper : Handed → Prop
  | .whole _ => True
  | .part buffer left => left <+: buffer ∧ left.length < buffer.length

theorem bytes_whole {all : List Handed}
    (h : ∀ one ∈ all, one.accepted.isSome) :
    all.flatMap bytes = (all.filterMap accepted).flatten := by
  induction all with
  | nil => rfl
  | cons one all ih =>
      obtain ⟨hone, hall⟩ := List.forall_mem_cons.mp h
      rw [List.flatMap_cons, ih hall]
      cases one with
      | whole buffer => rfl
      | part buffer left => cases hone

end Handed

/-- A call that fails in streaming mode has still filled up the last segment. -/
def handed (k : Kcpcb) (buffer : List UInt8) (len : Int) : List Handed :=
  let all := buffer.take len.toNat
  if (send k buffer len).1 = 0 then [.whole all]
  else if len < 0 ∨ k.stream = 0 then []
  else [.part all (all.take (all.length - (extendLast k all).2.length))]

theorem send_streaming {k : Kcpcb} {buffer : List UInt8} {len : Int}
    (hlen : ¬ len < 0) (hstream : k.stream ≠ 0) :
    send k buffer len =
      if (extendLast k (buffer.take len.toNat)).2 = [] then
        (0, (extendLast k (buffer.take len.toNat)).1)
      else sendFragments (extendLast k (buffer.take len.toNat)).1
        (extendLast k (buffer.take len.toNat)).2 := by
  rw [send, if_neg hlen, if_pos hstream]

theorem handed_proper (k : Kcpcb) (buffer : List UInt8) (len : Int) :
    ∀ h ∈ handed k buffer len, h.Proper := by
  intro h hin
  unfold handed at hin
  dsimp only at hin
  split at hin
  · rw [List.mem_singleton.mp hin]
    trivial
  · next hcode =>
      split at hin
      · exact absurd hin List.not_mem_nil
      · next hmode =>
          obtain ⟨hlen, hstream⟩ := not_or.mp hmode
          rw [List.mem_singleton.mp hin]
          refine ⟨List.take_prefix _ _, ?_⟩
          rw [send_streaming hlen hstream] at hcode
          have hsuffix := (extendLast_bytes k (buffer.take len.toNat)).2.length_le
          generalize extendLast k (buffer.take len.toNat) = r at hcode hsuffix ⊢
          have hpos : 0 < r.2.length := by
            by_contra hzero
            have hnil : r.2 = [] := List.length_eq_zero_iff.mp (by omega)
            exact hcode (by rw [if_pos hnil])
          rw [List.length_take]
          omega

theorem length_take_toNat {len : Int} (hlen : IsInt len)
    (buffer : List UInt8) : (buffer.take len.toNat).length < 2 ^ 31 := by
  have hlt := hlen.2
  rw [List.length_take]
  omega

/-- Filling up the last segment first and cutting the rest adds the buffer, or
the part that the last segment had room for. -/
theorem send_stream_bytes {k : Kcpcb} {buffer : List UInt8}
    (hrange : k.ranges.Within) (hlen : buffer.length < 2 ^ 31) :
    bytes (sendFragments (extendLast k buffer).1
        (extendLast k buffer).2).2.sndQueue = bytes k.sndQueue ++
      if (sendFragments (extendLast k buffer).1 (extendLast k buffer).2).1 = 0
      then buffer
      else buffer.take (buffer.length - (extendLast k buffer).2.length) := by
  have hmss : (extendLast k buffer).1.mss = k.mss :=
    congrArg Ranges.mss (extendLast_ranges k buffer)
  have hkmss : 26 ≤ k.mss.toNat ∧ k.mss.toNat < 2 ^ 31 := hrange.mss_bounds
  obtain ⟨hbytes, init, hsuffix⟩ := extendLast_bytes k buffer
  generalize extendLast k buffer = r at hmss hbytes hsuffix
  subst hsuffix
  rw [sendFragments_bytes (by rw [hmss]; omega) (by rw [hmss]; omega)
    (by rw [List.length_append] at hlen; omega)]
  rw [← List.append_assoc] at hbytes
  have hqueue : bytes r.1.sndQueue = bytes k.sndQueue ++ init :=
    List.append_cancel_right hbytes
  rw [hqueue]
  split
  · rw [List.append_assoc]
  · rw [List.length_append, Nat.add_sub_cancel, List.take_left,
      List.append_nil]

/-- The queue grows by the bytes that were handed over and by nothing else. -/
theorem send_bytes {k : Kcpcb} {buffer : List UInt8} {len : Int}
    (hrange : k.ranges.Within) (hlen : IsInt len) :
    bytes (send k buffer len).2.sndQueue =
      bytes k.sndQueue ++ (handed k buffer len).flatMap Handed.bytes := by
  have hkmss : 26 ≤ k.mss.toNat ∧ k.mss.toNat < 2 ^ 31 := hrange.mss_bounds
  have hall := length_take_toNat hlen buffer
  rw [handed]
  by_cases hneg : len < 0
  · have hsend : send k buffer len = (-1, k) := by rw [send, if_pos hneg]
    rw [hsend]
    dsimp only
    rw [if_neg (by decide), if_pos (Or.inl hneg)]
    exact (List.append_nil _).symm
  by_cases hstream : k.stream = 0
  · have hsend : send k buffer len = sendFragments k (buffer.take len.toNat) := by
      rw [send, if_neg hneg, if_neg (not_not.mpr hstream)]
    generalize buffer.take len.toNat = all at hall hsend ⊢
    rw [hsend, sendFragments_bytes (by omega) (by omega) hall]
    rw [if_pos (Or.inr hstream)]
    split
    · simp [Handed.bytes]
    · simp
  · have hsend := @send_streaming k buffer len hneg hstream
    have hmode : ¬ (len < 0 ∨ k.stream = 0) := not_or.mpr ⟨hneg, hstream⟩
    generalize buffer.take len.toNat = all at hall hsend ⊢
    rw [if_neg hmode]
    by_cases hrest : (extendLast k all).2 = []
    · have hbytes := (extendLast_bytes k all).1
      rw [hrest, List.append_nil] at hbytes
      rw [if_pos hrest] at hsend
      rw [hsend, if_pos rfl, hbytes]
      simp [Handed.bytes]
    · rw [if_neg hrest] at hsend
      rw [hsend, send_stream_bytes hrange hall]
      split
      · simp [Handed.bytes]
      · simp [Handed.bytes]

end Bytes

section Framing

/-- What a segment carries from end to end. -/
structure Frame where
  frg : UInt32
  data : List UInt8
deriving DecidableEq

def Seg.frame (s : Seg) : Frame := ⟨s.frg, s.data⟩

/-- The fragments of one message: each tells how many come behind it. -/
inductive Fragmented : List Frame → List UInt8 → Prop where
  | last (data : List UInt8) : Fragmented [⟨0, data⟩] data
  | more {rest : List Frame} {message : List UInt8} (data : List UInt8) :
      Fragmented rest message → rest.length < 2 ^ 8 →
      Fragmented (⟨UInt32.ofNat rest.length, data⟩ :: rest) (data ++ message)

/-- The frames of these messages, one after the other. -/
inductive Spells : List Frame → List (List UInt8) → Prop where
  | nil : Spells [] []
  | cons {frames rest : List Frame} {message : List UInt8}
      {messages : List (List UInt8)} :
      Fragmented frames message → Spells rest messages →
      Spells (frames ++ rest) (message :: messages)

theorem Spells.concat {frames more : List Frame}
    {messages : List (List UInt8)} {message : List UInt8}
    (h : Spells frames messages) (hmore : Fragmented more message) :
    Spells (frames ++ more) (messages ++ [message]) := by
  induction h with
  | nil => simpa using Spells.cons hmore .nil
  | cons hfirst _ ih =>
      rw [List.append_assoc]
      exact .cons hfirst ih

theorem Fragmented.length_pos {frames : List Frame} {message : List UInt8}
    (h : Fragmented frames message) : 0 < frames.length := by
  cases h with
  | last data => exact Nat.one_pos
  | more data _ _ => exact Nat.succ_pos _

/-- The first fragment tells how many there are. -/
theorem Fragmented.head {frames : List Frame} {message : List UInt8}
    (h : Fragmented frames message) :
    ∃ first rest, frames = first :: rest ∧ first.frg.toNat = rest.length ∧
      rest.length < 2 ^ 8 := by
  cases h with
  | last _ => exact ⟨⟨0, message⟩, [], rfl, rfl, Nat.two_pow_pos 8⟩
  | @more rest message data _ hlt =>
      refine ⟨_, rest, rfl, ?_, hlt⟩
      rw [UInt32.toNat_ofNat']
      omega

/-- In message mode `ikcp_send` makes the fragments of the message. -/
theorem fragments_fragmented {mss : UInt32} {count : Nat}
    {buffer : List UInt8} (hcount : count < 2 ^ 8)
    (hcovers : buffer.length ≤ (count + 1) * mss.toNat) :
    Fragmented ((fragments mss 0 (count + 1) buffer).map Seg.frame) buffer := by
  induction count generalizing buffer with
  | zero =>
      have htake : buffer.take mss.toNat = buffer :=
        List.take_of_length_le (by omega)
      have h := Fragmented.last buffer
      rw [← htake] at h ⊢
      simpa [fragments, Seg.fresh, Seg.frame, htake] using h
  | succ count ih =>
      rw [Nat.add_mul, Nat.one_mul] at hcovers
      have hrest := @ih (buffer.drop mss.toNat) (by omega)
        (by rw [List.length_drop]; omega)
      have h := Fragmented.more (buffer.take mss.toNat) hrest (by simp; omega)
      rw [List.take_append_drop, List.length_map, length_fragments] at h
      rw [fragments]
      exact h

/-- When the queue holds all fragments of the first message, these are what
`ikcp_recv` takes. -/
theorem firstMessage_frames {frames more : List Frame} {message : List UInt8}
    (h : Fragmented frames message) {queue : List Seg}
    (hlen : frames.length ≤ queue.length)
    (hqueue : queue.map Seg.frame <+: frames ++ more) :
    (firstMessage queue).map Seg.frame = frames := by
  induction h generalizing queue with
  | last data =>
      cases queue with
      | nil => cases hlen
      | cons seg queue =>
          obtain ⟨hseg, -⟩ := List.cons_prefix_cons.mp hqueue
          have hfrg : seg.frg = 0 := congrArg Frame.frg hseg
          rw [firstMessage, if_pos hfrg, List.map_singleton, hseg]
  | @more rest message data hfragmented hlt ih =>
      cases queue with
      | nil => cases hlen
      | cons seg queue =>
          obtain ⟨hseg, hrest⟩ := List.cons_prefix_cons.mp hqueue
          have hfrg : seg.frg = UInt32.ofNat rest.length :=
            congrArg Frame.frg hseg
          have hne : seg.frg ≠ 0 := by
            intro hzero
            have hpos := hfragmented.length_pos
            have := congrArg UInt32.toNat (hfrg.symm.trans hzero)
            rw [UInt32.toNat_ofNat'] at this
            simp at this
            omega
          rw [firstMessage, if_neg hne, List.map_cons, hseg,
            ih (Nat.le_of_succ_le_succ hlen) hrest]

theorem Fragmented.flatMap {frames : List Frame} {message : List UInt8}
    (h : Fragmented frames message) : frames.flatMap Frame.data = message := by
  induction h with
  | last data => simp
  | more data _ _ ih => rw [List.flatMap_cons, ih]

theorem bytes_eq (segs : List Seg) :
    bytes segs = (segs.map Seg.frame).flatMap Frame.data := by
  rw [bytes, List.flatMap_map]
  rfl

/-- A size that is not negative means that the first fragment is the last, or
that as many segments as it tells are in the queue. -/
theorem peeksize_nonneg {k : Kcpcb} (h : 0 ≤ peeksize k) :
    ∃ seg rest, k.rcvQueue = seg :: rest ∧
      (seg.frg = 0 ∨ seg.frg + 1 ≤ k.nrcvQue) := by
  unfold peeksize at h
  split at h
  · cases h
  · next seg rest hqueue =>
      refine ⟨seg, rest, hqueue, ?_⟩
      split at h
      · next hlast => exact Or.inl hlast
      · split at h
        · cases h
        · next hall => exact Or.inr (UInt32.not_lt.mp hall)

/-- When the queue begins at a message, `ikcp_recv` takes this message. -/
theorem firstMessage_fragmented {k : Kcpcb} {more : List Frame}
    {messages : List (List UInt8)} (hsound : k.windows.Sound)
    (hpeek : 0 ≤ peeksize k)
    (hspells : Spells (k.rcvQueue.map Seg.frame ++ more) messages) :
    Fragmented ((firstMessage k.rcvQueue).map Seg.frame)
      (bytes (firstMessage k.rcvQueue)) := by
  obtain ⟨seg, queue, hqueue, hwhole⟩ := peeksize_nonneg hpeek
  have hcount : k.nrcvQue = UInt32.ofNat k.rcvQueue.length := hsound.nrcvQue_eq
  have hlt : k.rcvQueue.length < 2 ^ 31 := hsound.rcvQueue_lt
  generalize hall : k.rcvQueue.map Seg.frame ++ more = all at hspells
  cases hspells with
  | nil => simp [hqueue] at hall
  | @cons frames others message messages hfirst hothers =>
      obtain ⟨first, rest, rfl, hfrg, hrest⟩ := hfirst.head
      have hseg : seg.frame = first := by
        rw [hqueue] at hall
        exact (List.cons.inj hall).1
      have hsegfrg : seg.frg.toNat = rest.length := by
        rw [← hfrg, ← hseg]
        rfl
      have hroom : (first :: rest).length ≤ k.rcvQueue.length := by
        rcases hwhole with hzero | hle
        · rw [hzero] at hsegfrg
          have hnil : rest.length = 0 := hsegfrg.symm
          rw [hqueue, List.length_cons, List.length_cons, hnil]
          omega
        · have hle' := UInt32.le_iff_toNat_le.mp hle
          rw [hcount, UInt32.toNat_ofNat', UInt32.toNat_add, hsegfrg] at hle'
          rw [List.length_cons]
          change (rest.length + 1) % 2 ^ 32 ≤ _ at hle'
          omega
      have hframes := firstMessage_frames hfirst hroom ⟨more, hall⟩
      rw [bytes_eq, hframes, hfirst.flatMap]
      exact hfirst

/-- The first fragment tells where the message ends. -/
theorem Fragmented.unique {frames frames' more more' : List Frame}
    {message message' : List UInt8} (h : Fragmented frames message)
    (h' : Fragmented frames' message')
    (heq : frames ++ more = frames' ++ more') :
    frames = frames' ∧ more = more' := by
  obtain ⟨first, rest, rfl, hfrg, -⟩ := h.head
  obtain ⟨first', rest', rfl, hfrg', -⟩ := h'.head
  have hfirst : first = first' := (List.cons.inj heq).1
  subst hfirst
  have hlen : (first :: rest).length = (first :: rest').length := by
    rw [List.length_cons, List.length_cons, ← hfrg, ← hfrg']
  exact List.append_inj heq hlen

/-- Messages that were read before are the first of all messages. -/
theorem Spells.split {frames more : List Frame}
    {messages front : List (List UInt8)} (hfront : Spells frames front)
    (h : Spells (frames ++ more) messages) :
    ∃ rest, messages = front ++ rest ∧ Spells more rest := by
  induction hfront generalizing messages with
  | nil => exact ⟨messages, rfl, h⟩
  | @cons first others message front hfirst _ ih =>
      rw [List.append_assoc] at h
      generalize hall : first ++ (others ++ more) = all at h
      cases h with
      | nil =>
          have hpos := hfirst.length_pos
          have hlen := congrArg List.length hall
          rw [List.length_append, List.length_nil] at hlen
          omega
      | @cons first' others' message' messages hfirst' hothers =>
          obtain ⟨rfl, rfl⟩ := hfirst.unique hfirst' hall
          obtain ⟨rest, rfl, hrest⟩ := ih hothers
          rw [← hfirst.flatMap, ← hfirst'.flatMap]
          exact ⟨rest, rfl, hrest⟩

/-- In message mode a call adds one message or none. -/
theorem send_spells {k : Kcpcb} {buffer : List UInt8} {len : Int}
    {front : List Frame} {messages : List (List UInt8)}
    (hrange : k.ranges.Within) (hlen : IsInt len) (hstream : k.stream = 0)
    (h : Spells (front ++ k.sndQueue.map Seg.frame) messages) :
    Spells (front ++ (send k buffer len).2.sndQueue.map Seg.frame)
      (messages ++ (handed k buffer len).filterMap Handed.accepted) := by
  have hkmss : 26 ≤ k.mss.toNat ∧ k.mss.toNat < 2 ^ 31 := hrange.mss_bounds
  have hall := length_take_toNat hlen buffer
  rw [handed]
  generalize hbuffer : buffer.take len.toNat = all at hall
  by_cases hneg : len < 0
  · have hsend : send k buffer len = (-1, k) := by rw [send, if_pos hneg]
    rw [hsend]
    dsimp only
    rw [if_neg (by decide), if_pos (Or.inr hstream), List.filterMap_nil,
      List.append_nil]
    exact h
  · have hsend : send k buffer len = sendFragments k all := by
      rw [send, if_neg hneg, if_neg (not_not.mpr hstream), hbuffer]
    obtain ⟨hcount, hcovers⟩ :=
      @fragmentCount_covers k.mss all.length (by omega) (by omega) hall
    rw [hsend, sendFragments]
    by_cases hmany : 255 < fragmentCount k.mss all.length
    · rw [if_pos hmany]
      dsimp only
      rw [if_neg (by decide), if_pos (Or.inr hstream), List.filterMap_nil,
        List.append_nil]
      exact h
    · rw [if_neg hmany, if_neg (Nat.ne_of_gt hcount), if_pos rfl]
      show Spells (front ++ (k.sndQueue ++ _).map Seg.frame) (messages ++ [all])
      obtain ⟨count, hsucc⟩ := Nat.exists_eq_succ_of_ne_zero
        (Nat.ne_of_gt hcount)
      rw [hsucc] at hcovers hmany ⊢
      rw [List.map_append, ← List.append_assoc, hstream]
      exact h.concat (fragments_fragmented (by omega) hcovers)

end Framing

end Ikcp

end Libsaf
