/-
The round trip.  Once the datagrams of one flush and those of the answer get
through, the sender no longer keeps the segments that were due.
-/
import Libsaf.IkcpRetry

namespace Libsaf

namespace Ikcp

section Settle

/-- No segment of this number is kept for sending it again. -/
def Kcpcb.Settled (k : Kcpcb) (sn : UInt32) : Prop :=
  ∀ c ∈ k.sending.sndBuf, c.sn ≠ sn

theorem Kcpcb.Settled.of_sending {k k' : Kcpcb} {sn : UInt32}
    (h : k.Settled sn) (heq : k'.sending = k.sending) : k'.Settled sn := by
  rwa [Kcpcb.Settled, heq]

theorem Kcpcb.Settled.parseUna {k : Kcpcb} {sn : UInt32} (h : k.Settled sn)
    (una : UInt32) : (Ikcp.parseUna k una).Settled sn := by
  apply @parseUna_keeps (fun s => s.Settled sn) una ?_ k h
  intro s seg rest hbuf _ hs c hc
  refine hs c ?_
  show c ∈ s.sndBuf.map Seg.core
  rw [hbuf, List.map_cons]
  exact List.mem_cons_of_mem _ hc

theorem Kcpcb.Settled.parseAck {k : Kcpcb} {sn : UInt32} (h : k.Settled sn)
    (acked : UInt32) : (Ikcp.parseAck k acked).Settled sn := by
  rw [Ikcp.parseAck]
  split
  · exact h
  · refine fun c hc => h c ?_
    show c ∈ k.sndBuf.map Seg.core
    rcases ackLoop_cases acked k.sndBuf with heq |
      ⟨front, seg, back, hbuf, _, heq⟩
    · rwa [heq] at hc
    · rw [heq] at hc
      have hkept : c ∈ (front ++ back).map Seg.core := hc
      rw [hbuf]
      simp only [List.map_append, List.map_cons, List.mem_append,
        List.mem_cons] at hkept ⊢
      exact hkept.imp_right Or.inr

theorem Kcpcb.Settled.inputAck {k : Kcpcb} {sn : UInt32} (h : k.Settled sn)
    (seg : Seg) : (Ikcp.inputAck k seg).Settled sn := by
  rw [Ikcp.inputAck, Kcpcb.Settled, shrinkBuf_sending]
  exact (h.of_sending (ackRtt_sending k seg.ts)).parseAck seg.sn

/-- What is settled stays so, whatever arrives. -/
theorem Kcpcb.Settled.inputSeg {k : Kcpcb} {sn : UInt32} (h : k.Settled sn)
    (maxack : Option UInt32) (seg : Seg) :
    (Ikcp.inputSeg k maxack seg).1.Settled sn := by
  have huna : (inputUna k seg).Settled sn :=
    @Kcpcb.Settled.parseUna { k with rmtWnd := seg.wnd } sn h seg.una
  apply @inputSeg_keeps (fun s => s.Settled sn)
  · exact fun _ => huna.inputAck seg
  · exact fun _ => huna.of_sending (inputPush_sending _ seg)
  · exact fun _ => huna

theorem Kcpcb.Settled.inputSegs {k : Kcpcb} {sn : UInt32} (h : k.Settled sn)
    (maxack : Option UInt32) (segs : List Seg) :
    (Ikcp.inputSegs k maxack segs).1.Settled sn := by
  induction segs generalizing k maxack with
  | nil => exact h
  | cons seg rest ih => exact ih (h.inputSeg maxack seg) _

theorem Kcpcb.Settled.inputEnd {k : Kcpcb} {sn : UInt32} (h : k.Settled sn)
    (una : UInt32) (maxack : Option UInt32) :
    (Ikcp.inputEnd una k maxack).Settled sn :=
  @inputEnd_keeps (fun s => s.Settled sn)
    (fun s acked hs => hs.of_sending (parseFastack_sending s acked))
    (fun _ hs => hs) k h una maxack

theorem Kcpcb.Settled.input {k : Kcpcb} {sn : UInt32} (h : k.Settled sn)
    (data : List UInt8) : (Ikcp.input k data).2.Settled sn :=
  @input_keeps (fun s => s.Settled sn) (fun _ maxack seg hs _ =>
      hs.inputSeg maxack seg)
    (fun s acked hs => hs.of_sending (parseFastack_sending s acked))
    (fun _ hs => hs) k h data

/-- The search of `ikcp_parse_ack` stops too early for no segment. -/
theorem ackLoop_settles {base : UInt32} {bound : Nat} {buf : List Seg}
    (h : Ascending base bound (buf.map Seg.sn)) (hbound : bound ≤ 2 ^ 31)
    (sn : UInt32) : ∀ t ∈ (ackLoop sn buf).2, t.sn ≠ sn := by
  induction buf with
  | nil => exact fun t ht => absurd ht List.not_mem_nil
  | cons seg rest ih =>
      rw [List.map_cons] at h
      have hrest := h.sublist (List.sublist_cons_self seg.sn (rest.map Seg.sn))
      have hlater : ∀ t ∈ rest, ahead base seg.sn < ahead base t.sn :=
        fun t ht => List.rel_of_pairwise_cons h.sorted (List.mem_map_of_mem ht)
      rw [ackLoop]
      split
      · next heq =>
          intro t ht hsame
          have hlt := hlater t ht
          rw [hsame, heq] at hlt
          exact Nat.lt_irrefl _ hlt
      · next hne =>
          split
          · next hearly =>
              intro t ht hsame
              rcases List.mem_cons.mp ht with rfl | ht
              · exact hne hsame.symm
              · have hlt := hlater t ht
                have htop := h.below t.sn
                  (List.mem_cons_of_mem _ (List.mem_map_of_mem ht))
                rw [hsame] at hlt htop
                rw [itimediff, serialDiff_of_ahead base (by omega) (by omega)]
                  at hearly
                omega
          · intro t ht
            rcases List.mem_cons.mp ht with rfl | ht
            · exact fun hsame => hne hsame.symm
            · exact ih hrest t ht

/-- An acknowledge takes its segment away. -/
theorem Windows.Sound.settles {k : Kcpcb} (h : k.windows.Sound) (sn : UInt32) :
    (Ikcp.parseAck k sn).Settled sn := by
  have hsent : Ascending k.sndUna (ahead k.sndUna k.sndNxt)
      (k.sndBuf.map Seg.sn) := h.sent
  have hwidth : ahead k.sndUna k.sndNxt < 2 ^ 16 := h.sent_width
  intro c hc
  obtain ⟨t, ht, rfl⟩ := List.mem_map.mp hc
  change t.sn ≠ sn
  rw [Ikcp.parseAck] at ht
  split at ht
  · next hout =>
      intro hsame
      have hlt := hsent.below t.sn (List.mem_map_of_mem ht)
      rw [hsame] at hlt
      rcases hout with hout | hout
      · have hnonneg := (@serialDiff_nonneg_iff k.sndUna sn).mpr (by omega)
        rw [itimediff] at hout
        omega
      · rw [itimediff, serialDiff_of_ahead k.sndUna (by omega) (by omega)]
          at hout
        omega
  · exact ackLoop_settles hsent (by omega) sn t ht

theorem inputSeg_ack {k : Kcpcb} {maxack : Option UInt32} {seg : Seg}
    (hcmd : seg.cmd = CMD_ACK) :
    (inputSeg k maxack seg).1 = inputAck (inputUna k seg) seg := by
  rw [inputSeg, if_pos hcmd]

theorem Kcpcb.Sound.settles {k : Kcpcb} {maxack : Option UInt32} {seg : Seg}
    (h : k.Sound) (hseg : seg.Arrived k.conv) (hcmd : seg.cmd = CMD_ACK) :
    (Ikcp.inputSeg k maxack seg).1.Settled seg.sn := by
  have huna : (Ikcp.inputUna k seg).Sound :=
    Kcpcb.Sound.inputUna h.1 hseg.wnd_lt
  have hrtt : (ackRtt (Ikcp.inputUna k seg) seg.ts).windows.Sound := by
    rw [ackRtt_windows]
    exact huna.1
  rw [inputSeg_ack hcmd, Ikcp.inputAck, Kcpcb.Settled, shrinkBuf_sending]
  exact hrtt.settles seg.sn

theorem Kcpcb.Sound.settlesAll {k : Kcpcb} {maxack : Option UInt32}
    {segs : List Seg} {sn : UInt32} (h : k.Sound)
    (hsegs : ∀ t ∈ segs, t.Arrived k.conv)
    (hack : ∃ t ∈ segs, t.cmd = CMD_ACK ∧ t.sn = sn) :
    (Ikcp.inputSegs k maxack segs).1.Settled sn := by
  induction segs generalizing k maxack with
  | nil =>
      obtain ⟨t, ht, -⟩ := hack
      exact absurd ht List.not_mem_nil
  | cons seg rest ih =>
      obtain ⟨hseg, hrest⟩ := List.forall_mem_cons.mp hsegs
      obtain ⟨t, ht, hcmd, rfl⟩ := hack
      rw [Ikcp.inputSegs]
      rcases List.mem_cons.mp ht with rfl | ht
      · exact (h.settles hseg hcmd).inputSegs _ rest
      · refine ih (h.inputSeg hseg) ?_ ⟨t, ht, hcmd, rfl⟩
        rw [inputSeg_conv]
        exact hrest

/-- A datagram with an acknowledge in it takes the segment away. -/
theorem input_settles {k : Kcpcb} {segs : List Seg} {sn : UInt32} (h : k.Sound)
    (hsegs : ∀ t ∈ segs, t.conv = k.conv ∧ validCmd t.cmd)
    (hack : ∃ t ∈ segs, t.cmd = CMD_ACK ∧ t.sn = sn) :
    (input k (segs.flatMap Seg.wire)).2.Settled sn := by
  obtain ⟨t, ht, hcmd, hsn⟩ := hack
  rw [input_wire (List.ne_nil_of_mem ht) hsegs]
  refine Kcpcb.Settled.inputEnd (h.settlesAll ?_ ?_) _ _
  · intro r hr
    obtain ⟨sent, hsent, rfl⟩ := List.mem_map.mp hr
    exact (received_plain (hsegs sent hsent).1 (hsegs sent hsent).2).1
  · exact ⟨t.received, List.mem_map_of_mem ht,
      (validCmd_toUInt8 (hsegs t ht).2).trans hcmd, hsn⟩

/-- So do some datagrams one of which has it. -/
theorem arrive_settles {s : Side} {groups : List (List Seg)} {sn : UInt32}
    (h : s.kcp.Sound)
    (hall : ∀ g ∈ groups, ∀ t ∈ g, t.conv = s.kcp.conv ∧ validCmd t.cmd)
    (hack : ∃ t ∈ groups.flatten, t.cmd = CMD_ACK ∧ t.sn = sn) :
    ((groups.map (·.flatMap Seg.wire)).foldl Side.arrive s).kcp.Settled sn := by
  induction groups generalizing s with
  | nil =>
      obtain ⟨t, ht, -⟩ := hack
      exact absurd ht List.not_mem_nil
  | cons g rest ih =>
      obtain ⟨hg, hrest⟩ := List.forall_mem_cons.mp hall
      obtain ⟨t, ht, hcmd, hsn⟩ := hack
      rw [List.flatten_cons] at ht
      rw [List.map_cons, List.foldl_cons]
      rcases List.mem_append.mp ht with ht | ht
      · exact @arriveAll_keeps (Kcpcb.Settled · sn)
          (fun _ d hk => hk.input d) _ (input_settles h hg ⟨t, ht, hcmd, hsn⟩) _
      · have hconv : (s.arrive (g.flatMap Seg.wire)).kcp.conv = s.kcp.conv :=
          (input_leads s.kcp (g.flatMap Seg.wire)).conv_eq
        refine ih (h.input _) ?_ ⟨t, ht, hcmd, hsn⟩
        rw [hconv]
        exact hrest

/-- A flush sends an acknowledge for every entry of the list. -/
theorem ack_flushSegs {k : Kcpcb} {ack : UInt32 × UInt32}
    (hack : ack ∈ k.acklist) :
    ∃ t ∈ flushSegs k, t.cmd = CMD_ACK ∧ t.sn = ack.1 := by
  refine ⟨(flushHead k).acking ack, ?_, rfl, rfl⟩
  rw [flushSegs]
  exact List.mem_append_left _ (List.mem_append_left _
    (List.mem_map_of_mem hack))

end Settle

section Round

theorem inputSeg_updated (k : Kcpcb) (maxack : Option UInt32) (seg : Seg) :
    (inputSeg k maxack seg).1.ranges.updated = k.ranges.updated := by
  apply @inputSeg_keeps (fun s => s.ranges.updated = k.ranges.updated)
  · intro _
    rw [inputAck, shrinkBuf_ranges, parseAck_ranges, ackRtt]
    split
    · rfl
    · rfl
  · intro _
    rw [inputPush_ranges]
    rfl
  · exact fun _ => rfl

theorem input_updated (k : Kcpcb) (data : List UInt8) :
    (input k data).2.ranges.updated = k.ranges.updated :=
  @input_keeps (fun s => s.ranges.updated = k.ranges.updated)
    (fun s maxack seg hs _ => (inputSeg_updated s maxack seg).trans hs)
    (fun s sn hs => by rwa [parseFastack_ranges]) (fun _ hs => hs) k rfl data

/-- The other side when the datagrams of a flush of this one have arrived. -/
def Link.there (l : Link) (p : Bool) : Side :=
  (flush (l p).kcp).2.foldl Side.arrive (l !p)

/-- This side when the datagrams with which the other one answers have arrived
as well. -/
def Link.back (l : Link) (p : Bool) : Side :=
  (flush (l.there p).kcp).2.foldl Side.arrive ((l p).call .flush)

/-- The datagram is lost, and the other side has a clock too. -/
def Link.answeredRun : List Act :=
  Link.lostRun ++ [.call true (.update 430)]

example : (link.run (Link.start 7) Link.answeredRun).map (fun l =>
      ((l false).kcp.sndBuf.map Seg.sn, (l.there false).kcp.rcvNxt,
        (l.back false).kcp.sndBuf.map Seg.sn)) = some ([0], 1, []) := by
  decide +kernel

end Round

end Ikcp

end Libsaf
