/-
What the ARQ puts into a datagram and what it takes out of one.  A datagram is
read segment by segment until something is left that is no segment, and one
that is output is a run of whole segments that the peer reads back.
-/
import Libsaf.IkcpFlush
import Libsaf.PrefixParser

namespace Libsaf

namespace Ikcp

section Reading

/-- The first segment of a datagram and the bytes behind it, if the checks of
`ikcp_input` let it pass. -/
def segAt (conv : UInt32) (data : List UInt8) : Option (Seg × List UInt8) :=
  if OVERHEAD ≤ data.length then
    let h := (decodeHeader data).1
    let rest := (decodeHeader data).2
    if hlen : h.conv = conv ∧ h.len.toNat ≤ rest.length ∧
        validCmd h.cmd.toUInt32 then
      some (h.seg (rest.take h.len.toNat)
        (by rw [List.length_take]; omega), rest.drop h.len.toNat)
    else none
  else none

/-- A segment with nothing in it but what its header tells. -/
def Seg.Plain (conv : UInt32) (s : Seg) : Prop :=
  s.Arrived conv ∧ s.received = s

theorem Header.seg_received (h : Header) (data : List UInt8)
    (hdata : data.length = h.len.toNat) :
    (h.seg data hdata).received = h.seg data hdata := by
  simp [Seg.received, Seg.header, Header.seg]

theorem decodeHeader_wire (s : Seg) (rest : List UInt8) :
    decodeHeader (s.wire ++ rest) = (s.header, s.data ++ rest) := by
  rw [Seg.wire, List.append_assoc, decodeHeader_encodeSeg]

/-- Writing and checking are inverse to each other. -/
theorem segAt_eq_some_iff {conv : UInt32} {data rest : List UInt8} {s : Seg} :
    segAt conv data = some (s, rest) ↔
      data = s.wire ++ rest ∧ s.Plain conv := by
  constructor
  · intro h
    rw [segAt] at h
    split at h
    · next hdata =>
        dsimp only at h
        split at h
        · next hok =>
            obtain ⟨rfl, rfl⟩ := Prod.mk.inj (Option.some.inj h)
            refine ⟨?_, Header.seg_arrived hok.1 hok.2.2,
              Header.seg_received _ _ _⟩
            have hpayload := encodeSeg_decodeHeader hdata
              (by rw [List.length_take]; exact Nat.min_eq_left hok.2.1)
            rw [← drop_decodeHeader data] at hpayload
            rw [Seg.wire, List.append_assoc]
            refine (Eq.trans (congrArg _ ?_) hpayload).symm
            exact List.take_append_drop _ _
        · cases h
    · cases h
  · rintro ⟨rfl, harrived, hplain⟩
    have hcmd : s.header.cmd.toUInt32 = s.cmd := congrArg Seg.cmd hplain
    have hlen : s.header.len.toNat = s.data.length := s.length_data.symm
    rw [segAt, if_pos (by simp; omega)]
    simp only [decodeHeader_wire, hcmd, hlen, List.take_left, List.drop_left]
    rw [dif_pos ⟨harrived.conv_eq, by simp, harrived.cmd_valid⟩]
    exact congrArg (fun seg => some (seg, rest)) hplain

/-- The segments of a datagram, as a parser. -/
def segParser (conv : UInt32) : PrefixParser UInt8 Seg where
  parse := segAt conv
  stable := by
    intro data s rest h more
    obtain ⟨rfl, hplain⟩ := segAt_eq_some_iff.mp h
    exact segAt_eq_some_iff.mpr ⟨List.append_assoc _ _ _, hplain⟩
  shrinks := by
    intro data s rest h
    obtain ⟨rfl, -⟩ := segAt_eq_some_iff.mp h
    simp [OVERHEAD]

theorem parse_segParser (conv : UInt32) :
    (segParser conv).parse = segAt conv := rfl

theorem begins_iff {conv : UInt32} {data rest : List UInt8}
    {segs : List Seg} : (segParser conv).Begins data segs rest ↔
      data = segs.flatMap Seg.wire ++ rest ∧ ∀ s ∈ segs, s.Plain conv := by
  constructor
  · intro h
    induction h with
    | nil s => exact ⟨rfl, fun _ hs => absurd hs List.not_mem_nil⟩
    | cons hparse _ ih =>
        rw [parse_segParser] at hparse
        obtain ⟨rfl, hplain⟩ := segAt_eq_some_iff.mp hparse
        obtain ⟨rfl, hall⟩ := ih
        exact ⟨by simp, List.forall_mem_cons.mpr ⟨hplain, hall⟩⟩
  · rintro ⟨rfl, hall⟩
    induction segs with
    | nil => exact .nil rest
    | cons s segs ih =>
        obtain ⟨hplain, hall⟩ := List.forall_mem_cons.mp hall
        have hparse : segAt conv ((s :: segs).flatMap Seg.wire ++ rest) =
            some (s, segs.flatMap Seg.wire ++ rest) := by
          refine segAt_eq_some_iff.mpr ⟨?_, hplain⟩
          rw [List.flatMap_cons, List.append_assoc]
        rw [← parse_segParser] at hparse
        exact .cons hparse (ih hall)

/-- The loop of `ikcp_input` over the segments that a datagram carries. -/
def inputSegs : Kcpcb → Option UInt32 → List Seg → Kcpcb × Option UInt32
  | k, maxack, [] => (k, maxack)
  | k, maxack, seg :: rest =>
      inputSegs (inputSeg k maxack seg).1 (inputSeg k maxack seg).2 rest

theorem updateAck_conv (k : Kcpcb) (rtt : Int) :
    (updateAck k rtt).conv = k.conv := rfl

theorem moveAvailable_conv (k : Kcpcb) : (moveAvailable k).conv = k.conv :=
  @moveAvailable_keeps (fun s => s.conv = k.conv) (fun _ _ _ _ _ _ h => h) k
    rfl

theorem parseData_conv (k : Kcpcb) (newseg : Seg) :
    (parseData k newseg).conv = k.conv := by
  rw [parseData]
  split
  · rfl
  · split
    · next rcvBuf _ =>
        exact moveAvailable_conv { k with
          rcvBuf := rcvBuf.reverse
          nrcvBuf := k.nrcvBuf + 1 }
    · exact moveAvailable_conv k

theorem ackPush_conv (k : Kcpcb) (sn ts : UInt32) :
    (ackPush k sn ts).conv = k.conv := by
  rw [ackPush]

theorem ackRtt_conv (k : Kcpcb) (ts : UInt32) : (ackRtt k ts).conv = k.conv := by
  rw [ackRtt]
  split
  · exact updateAck_conv k _
  · rfl

theorem parseAck_conv (k : Kcpcb) (sn : UInt32) :
    (parseAck k sn).conv = k.conv := by
  rw [parseAck]
  split
  · rfl
  · rfl

theorem shrinkBuf_conv (k : Kcpcb) : (shrinkBuf k).conv = k.conv := rfl

theorem inputUna_conv (k : Kcpcb) (seg : Seg) :
    (inputUna k seg).conv = k.conv := rfl

theorem inputPush_conv (k : Kcpcb) (seg : Seg) :
    (inputPush k seg).conv = k.conv :=
  @inputPush_keeps (fun s => s.conv = k.conv) k seg
    (fun _ => ackPush_conv k seg.sn seg.ts)
    (fun s hs => (parseData_conv s seg).trans hs) rfl

theorem inputAck_conv (k : Kcpcb) (seg : Seg) :
    (inputAck k seg).conv = k.conv := by
  rw [inputAck, shrinkBuf_conv, parseAck_conv, ackRtt_conv]

theorem inputSeg_conv (k : Kcpcb) (maxack : Option UInt32) (seg : Seg) :
    (inputSeg k maxack seg).1.conv = k.conv := by
  have huna := inputUna_conv k seg
  apply @inputSeg_keeps (fun s => s.conv = k.conv)
  · exact fun _ => (inputAck_conv _ seg).trans huna
  · exact fun _ => (inputPush_conv _ seg).trans huna
  · exact fun _ => huna

/-- The value that `ikcp_input` returns from inside the loop. -/
def rejectCode (conv : UInt32) (rest : List UInt8) : Int :=
  if (decodeHeader rest).1.conv ≠ conv then -1
  else if (decodeHeader rest).2.length < (decodeHeader rest).1.len.toNat then -2
  else -3

theorem rejectCode_neg (conv : UInt32) (rest : List UInt8) :
    rejectCode conv rest < 0 := by
  rw [rejectCode]
  split
  · decide
  · split
    · decide
    · decide

theorem inputLoop_segment (fuel : Nat) {k : Kcpcb} {maxack : Option UInt32}
    {s : Seg} {rest : List UInt8} (h : s.Plain k.conv) :
    inputLoop (fuel + 1) k maxack (s.wire ++ rest) =
      inputLoop fuel (inputSeg k maxack s).1 (inputSeg k maxack s).2 rest := by
  have hcmd : s.header.cmd.toUInt32 = s.cmd := congrArg Seg.cmd h.2
  have hconv : s.header.conv = k.conv := h.1.conv_eq
  have hlen : s.header.len.toNat = s.data.length := s.length_data.symm
  have hseg : s.header.seg s.data s.length_data = s := h.2
  rw [inputLoop, if_neg (by simp; omega)]
  simp only [decodeHeader_wire, hcmd, hlen, hconv, List.take_left,
    List.drop_left, hseg]
  rw [if_neg (by simp), dif_neg (by simp), if_neg (by simp [h.1.cmd_valid])]

theorem inputLoop_stuck {fuel : Nat} {k : Kcpcb} {maxack : Option UInt32}
    {rest : List UInt8} (h : segAt k.conv rest = none)
    (hfuel : rest.length ≤ fuel) :
    inputLoop fuel k maxack rest = (k,
      if rest.length < OVERHEAD then .ok maxack
      else .error (rejectCode k.conv rest)) := by
  cases fuel with
  | zero =>
      rw [inputLoop, if_pos (by simp only [OVERHEAD]; omega)]
  | succ fuel =>
      rw [inputLoop]
      by_cases hshort : rest.length < OVERHEAD
      · rw [if_pos hshort, if_pos hshort]
      · rw [if_neg hshort, if_neg hshort]
        rw [segAt, if_pos (Nat.not_lt.mp hshort)] at h
        dsimp only at h ⊢
        rw [rejectCode]
        by_cases hconv : (decodeHeader rest).1.conv = k.conv
        · rw [if_neg (not_not.mpr hconv), if_neg (not_not.mpr hconv)]
          by_cases hlen : (decodeHeader rest).2.length <
              (decodeHeader rest).1.len.toNat
          · rw [dif_pos hlen, if_pos hlen]
          · have hcmd : ¬ validCmd (decodeHeader rest).1.cmd.toUInt32 := by
              intro hcmd
              rw [dif_pos ⟨hconv, Nat.not_lt.mp hlen, hcmd⟩] at h
              cases h
            rw [dif_neg hlen, if_neg hlen, if_pos hcmd]
        · rw [if_pos hconv, if_pos hconv]

/-- The loop of `ikcp_input` takes the segments one by one and stops where the
parser is stuck. -/
theorem inputLoop_drains {k : Kcpcb} {maxack : Option UInt32}
    {data rest : List UInt8} {segs : List Seg}
    (h : (segParser k.conv).Drains data segs rest) {fuel : Nat}
    (hfuel : data.length ≤ fuel) :
    inputLoop fuel k maxack data = ((inputSegs k maxack segs).1,
      if rest.length < OVERHEAD then .ok (inputSegs k maxack segs).2
      else .error (rejectCode k.conv rest)) := by
  obtain ⟨hbegins, hstuck⟩ := h
  obtain ⟨rfl, hplain⟩ := begins_iff.mp hbegins
  clear hbegins
  rw [parse_segParser] at hstuck
  induction segs generalizing k maxack fuel with
  | nil => exact inputLoop_stuck hstuck hfuel
  | cons s segs ih =>
      obtain ⟨hs, hplain⟩ := List.forall_mem_cons.mp hplain
      have hconv := inputSeg_conv k maxack s
      rw [List.flatMap_cons, List.append_assoc] at hfuel ⊢
      rw [List.length_append, length_wire] at hfuel
      simp only [OVERHEAD] at hfuel
      obtain ⟨fuel, rfl⟩ : ∃ n, fuel = n + 1 := ⟨fuel - 1, by omega⟩
      rw [inputLoop_segment fuel hs, inputSegs, ← hconv]
      rw [← hconv] at hstuck hplain
      exact ih hstuck hplain (by omega)

/-- What `ikcp_input` does with any datagram: it takes the segments at its
front, as many as there are.  The rest decides whether the datagram counts as
accepted; the segments in front of it have been taken all the same. -/
theorem input_drains {k : Kcpcb} {data rest : List UInt8} {segs : List Seg}
    (h : (segParser k.conv).Drains data segs rest)
    (hdata : OVERHEAD ≤ data.length) :
    input k data =
      if rest.length < OVERHEAD then
        (0, inputEnd k.sndUna (inputSegs k none segs).1
          (inputSegs k none segs).2)
      else (rejectCode k.conv rest, (inputSegs k none segs).1) := by
  rw [input, if_neg (Nat.not_lt.mpr hdata),
    inputLoop_drains h (Nat.le_refl _)]
  by_cases hrest : rest.length < OVERHEAD
  · rw [if_pos hrest, if_pos hrest]
  · rw [if_neg hrest, if_neg hrest]

theorem segAt_short {conv : UInt32} {rest : List UInt8}
    (h : rest.length < OVERHEAD) : segAt conv rest = none := by
  rw [segAt, if_neg (Nat.not_le.mpr h)]

/-- `ikcp_input` accepts a datagram exactly when it is a run of segments of this
conversation with known commands, with less than a header behind them. -/
theorem input_eq_zero_iff (k : Kcpcb) (data : List UInt8) :
    (input k data).1 = 0 ↔ OVERHEAD ≤ data.length ∧
      ∃ (segs : List Seg) (rest : List UInt8), data = segs.flatMap Seg.wire ++ rest ∧
        rest.length < OVERHEAD ∧ ∀ s ∈ segs, s.Plain k.conv := by
  by_cases hdata : OVERHEAD ≤ data.length
  · obtain ⟨segs, rest, hdrains⟩ := PrefixParser.Drains.total
      (segParser k.conv) data
    obtain ⟨hcut, hplain⟩ := begins_iff.mp hdrains.begins
    rw [input_drains hdrains hdata]
    constructor
    · intro hcode
      refine ⟨hdata, segs, rest, hcut, ?_, hplain⟩
      by_contra hrest
      rw [if_neg hrest] at hcode
      exact Int.ne_of_lt (rejectCode_neg k.conv rest) hcode
    · rintro ⟨-, segs', rest', hcut', hrest', hplain'⟩
      have hdrains' : (segParser k.conv).Drains data segs' rest' :=
        ⟨begins_iff.mpr ⟨hcut', hplain'⟩, segAt_short hrest'⟩
      obtain ⟨-, rfl⟩ := hdrains.unique hdrains'
      rw [if_pos hrest']
  · refine iff_of_false ?_ fun h => hdata h.1
    rw [input, if_pos (Nat.not_le.mp hdata)]
    show (-1 : Int) ≠ 0
    decide

end Reading

section Writing

/-- The datagram of these segments has not more than `mtu` bytes, unless a
single segment is larger. -/
def Fits (mtu : UInt32) (segs : List Seg) : Prop :=
  (segs.flatMap Seg.wire).length ≤ mtu.toNat ∨ ∃ s, segs = [s]

/-- The datagrams carry exactly these segments, in this order, and none of them
is empty. -/
def Carries (mtu : UInt32) (out : List (List UInt8)) (segs : List Seg) :
    Prop :=
  ∃ groups : List (List Seg), out = groups.map (·.flatMap Seg.wire) ∧
    groups.flatten = segs ∧ ∀ g ∈ groups, g ≠ [] ∧ Fits mtu g

/-- The block never had to hold more than a datagram of `mtu` bytes, or than one
segment that is larger. -/
def Writer.Below (mtu : UInt32) (w : Writer) (segs : List Seg) : Prop :=
  ∀ n, mtu.toNat ≤ n → (∀ s ∈ segs, s.wire.length ≤ n) → w.peak ≤ n

/-- What the writer has taken so far: the datagrams that are out, and those
segments that are still in the buffer. -/
def Writer.Took (mtu : UInt32) (w : Writer) (segs : List Seg) : Prop :=
  (∃ sent cur, Carries mtu w.out sent ∧ w.buffer = cur.flatMap Seg.wire ∧
    segs = sent ++ cur ∧ Fits mtu cur) ∧ w.Below mtu segs

theorem Carries.nil (mtu : UInt32) : Carries mtu [] [] :=
  ⟨[], rfl, rfl, fun _ hg => absurd hg List.not_mem_nil⟩

theorem Carries.concat {mtu : UInt32} {out : List (List UInt8)}
    {segs cur : List Seg} (h : Carries mtu out segs) (hcur : cur ≠ [])
    (hfits : Fits mtu cur) :
    Carries mtu (out ++ [cur.flatMap Seg.wire]) (segs ++ cur) := by
  obtain ⟨groups, rfl, rfl, hall⟩ := h
  refine ⟨groups ++ [cur], by simp, by simp, ?_⟩
  intro g hg
  rcases List.mem_append.mp hg with hg | hg
  · exact hall g hg
  · obtain rfl := List.mem_singleton.mp hg
    exact ⟨hcur, hfits⟩

theorem Writer.Took.start (mtu : UInt32) : Writer.Took mtu .start [] :=
  ⟨⟨[], [], Carries.nil mtu, rfl, rfl, Or.inl (Nat.zero_le _)⟩,
    fun n _ _ => Nat.zero_le n⟩

/-- Outputting the buffer leaves nothing behind. -/
theorem Writer.Took.output {mtu : UInt32} {w : Writer} {segs : List Seg}
    (h : w.Took mtu segs) : Carries mtu w.output segs := by
  obtain ⟨⟨sent, cur, hsent, hbuffer, rfl, hfits⟩, _⟩ := h
  rw [Writer.output, hbuffer]
  cases cur with
  | nil => simpa using hsent
  | cons s rest =>
      rw [if_neg (by simp [OVERHEAD])]
      exact hsent.concat (List.cons_ne_nil s rest) hfits

theorem Writer.Below.emit {mtu : UInt32} {w : Writer} {segs : List Seg}
    (h : w.Below mtu segs) (s : Seg) :
    (w.emit mtu s).Below mtu (segs ++ [s]) := by
  intro n hmtu hsegs
  have hpeak : w.peak ≤ n :=
    h n hmtu fun t ht => hsegs t (List.mem_append_left [s] ht)
  have hwire : OVERHEAD + s.len.toNat ≤ n := by
    rw [← length_wire]
    exact hsegs s (List.mem_append_right segs (List.mem_singleton_self s))
  rw [Writer.emit]
  split
  · refine Nat.max_le.mpr ⟨hpeak, ?_⟩
    rw [List.length_append, length_encodeSeg, s.length_data, List.length_nil]
    omega
  · refine Nat.max_le.mpr ⟨hpeak, ?_⟩
    rw [List.length_append, length_encodeSeg, s.length_data]
    omega

theorem Writer.Took.emit {mtu : UInt32} {w : Writer} {segs : List Seg}
    (h : w.Took mtu segs) (s : Seg) :
    (w.emit mtu s).Took mtu (segs ++ [s]) := by
  have hout := h.output
  have hbelow := h.2.emit s
  obtain ⟨⟨sent, cur, hsent, hbuffer, rfl, -⟩, _⟩ := h
  refine ⟨?_, hbelow⟩
  rw [Writer.emit]
  split
  · refine ⟨sent ++ cur, [s], hout, ?_, rfl, Or.inr ⟨s, rfl⟩⟩
    simp [Seg.wire]
  · next hroom =>
      refine ⟨sent, cur ++ [s], hsent, ?_, List.append_assoc _ _ _, Or.inl ?_⟩
      · show encodeSeg w.buffer s ++ s.data = _
        rw [encodeSeg_eq, hbuffer]
        simp [Seg.wire]
      · rw [List.flatMap_append, List.length_append, ← hbuffer]
        simp only [List.flatMap_cons, List.flatMap_nil, List.append_nil,
          length_wire]
        omega

/-- The acknowledge of one entry of `acklist`. -/
def Seg.acking (seg : Seg) (ack : UInt32 × UInt32) : Seg :=
  { seg with sn := ack.1, ts := ack.2 }

theorem acking_acking (seg : Seg) (ack next : UInt32 × UInt32) :
    (seg.acking ack).acking next = seg.acking next := rfl

/-- The local `seg` behind the acknowledges: it keeps the numbers of the last
one. -/
def afterAcks (seg : Seg) (acklist : List (UInt32 × UInt32)) : Seg :=
  match acklist.getLast? with
  | none => seg
  | some ack => seg.acking ack

theorem Writer.Took.flushAcks {mtu : UInt32} {w : Writer} {segs : List Seg}
    {seg : Seg} (h : w.Took mtu segs) (acklist : List (UInt32 × UInt32)) :
    (Ikcp.flushAcks mtu w seg acklist).1.Took mtu
        (segs ++ acklist.map seg.acking) ∧
      (Ikcp.flushAcks mtu w seg acklist).2 = afterAcks seg acklist := by
  induction acklist generalizing w segs seg with
  | nil =>
      rw [Ikcp.flushAcks, List.map_nil, List.append_nil]
      exact ⟨h, rfl⟩
  | cons ack rest ih =>
      obtain ⟨htook, hseg⟩ := @ih _ _ (seg.acking ack) (h.emit _)
      have hmap : rest.map (seg.acking ack).acking = rest.map seg.acking :=
        List.map_congr_left fun next _ => acking_acking seg ack next
      rw [hmap, List.append_assoc] at htook
      rw [Ikcp.flushAcks]
      refine ⟨htook, hseg.trans ?_⟩
      cases rest with
      | nil => rfl
      | cons next rest =>
          rw [afterAcks, afterAcks, List.getLast?_cons_cons]
          cases hlast : (next :: rest).getLast? with
          | none => simp at hlast
          | some last => exact acking_acking seg ack last

/-- The window probes of a flush. -/
def probeSegs (probe : UInt32) (seg : Seg) : List Seg :=
  (if probe &&& ASK_SEND ≠ 0 then [{ seg with cmd := CMD_WASK }] else []) ++
    (if probe &&& ASK_TELL ≠ 0 then [{ seg with cmd := CMD_WINS }] else [])

theorem Writer.Took.flushProbes {k : Kcpcb} {w : Writer} {segs : List Seg}
    (h : w.Took k.mtu segs) (seg : Seg) :
    (Ikcp.flushProbes k w seg).Took k.mtu (segs ++ probeSegs k.probe seg) := by
  rw [Ikcp.flushProbes, probeSegs]
  by_cases hask : k.probe &&& ASK_SEND ≠ 0
  · by_cases htell : k.probe &&& ASK_TELL ≠ 0
    · simp only [if_pos hask, if_pos htell]
      rw [← List.append_assoc]
      exact (h.emit _).emit _
    · simp only [if_pos hask, if_neg htell, List.append_nil]
      exact h.emit _
  · by_cases htell : k.probe &&& ASK_TELL ≠ 0
    · simp only [if_neg hask, if_pos htell, List.nil_append]
      exact h.emit _
    · simp only [if_neg hask, if_neg htell, List.append_nil]
      exact h

/-- A segment as it is sent, if it is. -/
def resent (k : Kcpcb) (wnd : UInt32) (segment : Seg) : Option Seg :=
  (sendCause k segment).map fun cause =>
    { rearm k segment cause with ts := k.current, wnd := wnd, una := k.rcvNxt }

theorem Writer.Took.flushSeg {k : Kcpcb} {f : DataFlush} {segs : List Seg}
    (h : f.w.Took k.mtu segs) (wnd : UInt32) (segment : Seg) :
    (Ikcp.flushSeg k wnd f segment).1.w.Took k.mtu
      (segs ++ (resent k wnd segment).toList) := by
  rw [Ikcp.flushSeg, resent]
  cases sendCause k segment with
  | none => simpa using h
  | some cause => exact h.emit _

theorem Writer.Took.flushLoop {k : Kcpcb} {wnd : UInt32} {f : DataFlush}
    {segs : List Seg} (h : f.w.Took k.mtu segs) (buf : List Seg) :
    (Ikcp.flushLoop k wnd f buf).1.w.Took k.mtu
      (segs ++ buf.filterMap (resent k wnd)) := by
  induction buf generalizing f segs with
  | nil =>
      rw [Ikcp.flushLoop, List.filterMap_nil, List.append_nil]
      exact h
  | cons segment rest ih =>
      have hrest := ih (h.flushSeg wnd segment)
      have hcons : (segment :: rest).filterMap (resent k wnd) =
          (resent k wnd segment).toList ++ rest.filterMap (resent k wnd) := by
        rw [List.filterMap_cons]
        cases resent k wnd segment with
        | none => rfl
        | some s => rfl
      rw [List.append_assoc, ← hcons] at hrest
      rw [Ikcp.flushLoop]
      exact hrest

/-- The block when `ikcp_flush` comes to the probes, but for `probe_wait`. -/
def probed (k : Kcpcb) : Kcpcb := probeWindow { k with acklist := [] }

/-- The block when `ikcp_flush` comes to the data. -/
def loaded (k : Kcpcb) : Kcpcb :=
  moveToBuf (flushWindow { probed k with probe := 0 }) (wndUnused k)
    { probed k with probe := 0 }

/-- Everything that a flush sends. -/
def flushSegs (k : Kcpcb) : List Seg :=
  k.acklist.map (flushHead k).acking ++
    probeSegs (probed k).probe (afterAcks (flushHead k) k.acklist) ++
    (loaded k).sndBuf.filterMap (resent (loaded k) (wndUnused k))

theorem loaded_mtu (k : Kcpcb) : (loaded k).mtu = k.mtu :=
  @sendLoop_keeps (fun s => s.mtu = k.mtu) _ _ (fun _ _ _ _ _ h => h)
    { probed k with probe := 0 } rfl

theorem flushWriter_took {k : Kcpcb} (hup : k.updated ≠ 0) :
    (flushWriter k).2.Took k.mtu (flushSegs k) := by
  have hacks := @Writer.Took.flushAcks _ _ _ (flushHead k)
    (Writer.Took.start k.mtu) k.acklist
  unfold flushWriter
  rw [if_neg hup]
  generalize flushAcks k.mtu .start (flushHead k) k.acklist = acks at hacks
  obtain ⟨w, seg⟩ := acks
  obtain ⟨htook, rfl⟩ := hacks
  have hprobes := @Writer.Took.flushProbes (probed k) w _ htook
    (afterAcks (flushHead k) k.acklist)
  have hloop := @Writer.Took.flushLoop (loaded k) (wndUnused k)
    ⟨(loaded k).xmit, (loaded k).state, 0, false, flushProbes (probed k) w
      (afterAcks (flushHead k) k.acklist)⟩ _
    (by rw [loaded_mtu]; exact hprobes) (loaded k).sndBuf
  rw [loaded_mtu] at hloop
  exact hloop

/-- A flush outputs every acknowledge that is due, then the probes, then every
segment that is to be sent or sent again, each exactly once. -/
theorem flush_carries {k : Kcpcb} (hup : k.updated ≠ 0) :
    Carries k.mtu (flush k).2 (flushSegs k) :=
  (flushWriter_took hup).output

end Writing

end Ikcp

end Libsaf
