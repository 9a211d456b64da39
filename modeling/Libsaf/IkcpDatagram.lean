/-
The datagrams of an endpoint over whole runs.  What is in the send queue and in
`snd_buf` stays fit to be sent, so every datagram that is output fits in the
maximum transmission unit and is one that the peer accepts.
-/
import Libsaf.IkcpWire
import Libsaf.IkcpBound

namespace Libsaf

namespace Ikcp

section Output

theorem flush_datagram {k : Kcpcb} {d : List UInt8} (hd : d ∈ (flush k).2) :
    ∃ segs : List Seg, segs ≠ [] ∧ Fits k.mtu segs ∧
      d = segs.flatMap Seg.wire ∧ ∀ s ∈ segs, Flushed k s := by
  by_cases hup : k.updated = 0
  · rw [flush_idle hup] at hd
    exact absurd hd List.not_mem_nil
  · obtain ⟨groups, hout, hsegs, hall⟩ := flush_carries hup
    rw [hout] at hd
    obtain ⟨segs, hmem, rfl⟩ := List.mem_map.mp hd
    refine ⟨segs, (hall segs hmem).1, (hall segs hmem).2, rfl, ?_⟩
    intro s hs
    apply flushSegs_flushed hup
    rw [← hsegs]
    exact List.mem_flatten_of_mem hmem hs

/-- A segment that the peer lets pass. -/
theorem Flushed.valid {k : Kcpcb} {s : Seg} {conv : UInt32}
    (h : Flushed k s) (hformed : k.sending.Formed conv) :
    s.conv = conv ∧ validCmd s.cmd ∧ s.frg.toNat < 2 ^ 8 := by
  rcases h.kind with hbuf | ⟨hconv, hfrg, -, hcmd⟩
  · obtain ⟨hconv, hcmd, hfrg⟩ := (hformed.leads (flush_leads k)).buf _ hbuf
    refine ⟨hconv, ?_, hfrg⟩
    have hpush : s.cmd = CMD_PUSH := hcmd
    rw [hpush]
    decide
  · refine ⟨hconv.trans hformed.conv_eq, ?_, by rw [hfrg]; decide⟩
    rcases hcmd with ⟨hcmd, -⟩ | hcmd | hcmd
    · rw [hcmd]
      decide
    · rw [hcmd]
      decide
    · rw [hcmd]
      decide

theorem validCmd_toUInt8 {cmd : UInt32} (h : validCmd cmd) :
    cmd.toUInt8.toUInt32 = cmd := by
  simp only [validCmd, Bool.or_eq_true, beq_iff_eq] at h
  rcases h with ((rfl | rfl) | rfl) | rfl
  · rfl
  · rfl
  · rfl
  · rfl

theorem wire_received (s : Seg) : s.received.wire = s.wire := by
  simp only [Seg.wire, encodeSeg, Seg.received, Header.seg, Seg.header,
    UInt8.toUInt8_toUInt32, UInt16.toUInt16_toUInt32]

theorem received_plain {s : Seg} {conv : UInt32} (hconv : s.conv = conv)
    (hcmd : validCmd s.cmd) : s.received.Plain conv := by
  refine ⟨Header.seg_arrived hconv ?_, Header.seg_received _ _ _⟩
  show validCmd s.cmd.toUInt8.toUInt32
  rwa [validCmd_toUInt8 hcmd]

theorem flatMap_wire_received (segs : List Seg) :
    (segs.map Seg.received).flatMap Seg.wire = segs.flatMap Seg.wire := by
  rw [List.flatMap_map]
  exact congrArg (segs.flatMap ·) (funext wire_received)

theorem parse_nil (conv : UInt32) : (segParser conv).parse [] = none :=
  @segAt_short conv [] (by decide)

/-- The parser reads a run of segments with known commands to its end. -/
theorem drains_wire {conv : UInt32} {segs : List Seg}
    (hsegs : ∀ s ∈ segs, s.conv = conv ∧ validCmd s.cmd) :
    (segParser conv).Drains (segs.flatMap Seg.wire) (segs.map Seg.received)
      [] := by
  refine ⟨begins_iff.mpr ⟨?_, ?_⟩, parse_nil conv⟩
  · rw [List.append_nil, flatMap_wire_received]
  · intro s hs
    obtain ⟨sent, hsent, rfl⟩ := List.mem_map.mp hs
    exact received_plain (hsegs sent hsent).1 (hsegs sent hsent).2

theorem overhead_le_wire {segs : List Seg} (hne : segs ≠ []) :
    OVERHEAD ≤ (segs.flatMap Seg.wire).length := by
  cases segs with
  | nil => exact absurd rfl hne
  | cons s rest =>
      rw [List.flatMap_cons, List.length_append, length_wire]
      omega

/-- The peer takes all the segments. -/
theorem input_wire {k : Kcpcb} {segs : List Seg} (hne : segs ≠ [])
    (hsegs : ∀ s ∈ segs, s.conv = k.conv ∧ validCmd s.cmd) :
    input k (segs.flatMap Seg.wire) = (0, inputEnd k.sndUna
      (inputSegs k none (segs.map Seg.received)).1
      (inputSegs k none (segs.map Seg.received)).2) := by
  rw [input_drains (drains_wire hsegs) (overhead_le_wire hne)]
  exact if_pos (by decide)

/-- `ikcp_update` moves the clock and then flushes or not. -/
theorem update_cases (k : Kcpcb) (current : UInt32) :
    ∃ updated tsFlush,
      update k current = ({ k with
        current := current, updated := updated, tsFlush := tsFlush }, []) ∨
      update k current = flush { k with
        current := current, updated := updated, tsFlush := tsFlush } := by
  rw [update]
  split
  · exact ⟨_, _, Or.inr rfl⟩
  · exact ⟨_, _, Or.inl rfl⟩

/-- A datagram comes out of a flush. -/
theorem call_datagram {k : Kcpcb} {c : Call} {d : List UInt8}
    (hd : d ∈ (k.call c).2) : ∃ current updated tsFlush, d ∈ (flush { k with
      current := current, updated := updated, tsFlush := tsFlush }).2 := by
  cases c with
  | update current =>
      obtain ⟨updated, tsFlush, h⟩ := update_cases k current
      rcases h with h | h
      · rw [Kcpcb.call, h] at hd
        exact absurd hd List.not_mem_nil
      · rw [Kcpcb.call, h] at hd
        exact ⟨current, updated, tsFlush, hd⟩
  | flush => exact ⟨k.current, k.updated, k.tsFlush, hd⟩
  | _ => exact absurd hd List.not_mem_nil

end Output

end Ikcp

end Libsaf
