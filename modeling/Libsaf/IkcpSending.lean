/-
What sending keeps of the block.  The data in the send queue and in `snd_buf`
fits in a datagram, and a datagram in the block that `ikcp_flush` writes to, so
a flush never writes behind the end of it.
-/
import Libsaf.IkcpWire
import Libsaf.IkcpWindow

namespace Libsaf

namespace Ikcp

section Core

/-- What a segment of `snd_buf` keeps while it is sent again and again. -/
structure Core where
  conv : UInt32
  cmd : UInt32
  frg : UInt32
  sn : UInt32
  data : List UInt8
deriving DecidableEq

def Seg.core (s : Seg) : Core := ⟨s.conv, s.cmd, s.frg, s.sn, s.data⟩

theorem rearm_core (k : Kcpcb) (segment : Seg) (cause : Cause) :
    (rearm k segment cause).core = segment.core := by
  cases cause with
  | first => rfl
  | timeout => rfl
  | fastack => rfl

theorem flushSeg_core (k : Kcpcb) (wnd : UInt32) (f : DataFlush)
    (segment : Seg) : (flushSeg k wnd f segment).2.core = segment.core := by
  rw [flushSeg]
  split
  · rfl
  · exact rearm_core k segment _

theorem flushLoop_core (k : Kcpcb) (wnd : UInt32) (f : DataFlush)
    (buf : List Seg) :
    (flushLoop k wnd f buf).2.map Seg.core = buf.map Seg.core := by
  induction buf generalizing f with
  | nil => rfl
  | cons segment rest ih =>
      rw [flushLoop]
      dsimp only
      rw [List.map_cons, flushSeg_core, ih, List.map_cons]

theorem fastackLoop_core (sn : UInt32) (buf : List Seg) :
    (fastackLoop sn buf).map Seg.core = buf.map Seg.core := by
  induction buf with
  | nil => rfl
  | cons seg rest ih =>
      rw [fastackLoop]
      split
      · rfl
      · split
        · rw [List.map_cons, ih]
          rfl
        · rw [List.map_cons, ih, List.map_cons]

theorem resent_core {k : Kcpcb} {wnd : UInt32} {segment s : Seg}
    (h : resent k wnd segment = some s) :
    s.core = segment.core ∧ s.una = k.rcvNxt := by
  obtain ⟨cause, -, rfl⟩ := Option.map_eq_some_iff.mp h
  exact ⟨rearm_core k segment cause, rfl⟩

end Core

section Sending

/-- What sending reads of the block. -/
structure Sending where
  conv : UInt32
  mtu : UInt32
  mss : UInt32
  buffer : UInt32
  sndQueue : List Seg
  sndBuf : List Core

def Kcpcb.sending (k : Kcpcb) : Sending :=
  { conv := k.conv
    mtu := k.mtu
    mss := k.mss
    buffer := k.buffer
    sndQueue := k.sndQueue
    sndBuf := k.sndBuf.map Seg.core }

/-- The segments that are numbered carry data of this conversation, and the
number of every fragment fits in its byte of the header. -/
structure Sending.Formed (conv : UInt32) (w : Sending) : Prop where
  conv_eq : w.conv = conv
  queue : ∀ s ∈ w.sndQueue, s.frg.toNat < 2 ^ 8
  buf : ∀ c ∈ w.sndBuf, c.conv = conv ∧ c.cmd = CMD_PUSH ∧ c.frg.toNat < 2 ^ 8

/-- The data of every segment fits in a datagram, and a datagram in the block of
`ikcp_flush`. -/
structure Sending.Sized (w : Sending) : Prop where
  mss_eq : w.mss.toNat + OVERHEAD = w.mtu.toNat
  room : w.mtu.toNat ≤ w.buffer.toNat
  queue : ∀ s ∈ w.sndQueue, s.data.length ≤ w.mss.toNat
  buf : ∀ c ∈ w.sndBuf, c.data.length ≤ w.mss.toNat

theorem create_formed (conv : UInt32) : (create conv).sending.Formed conv where
  conv_eq := rfl
  queue := fun _ h => absurd h List.not_mem_nil
  buf := fun _ h => absurd h List.not_mem_nil

theorem create_sized (conv : UInt32) : (create conv).sending.Sized where
  mss_eq := rfl
  room := by
    show (1400 : UInt32).toNat ≤ ((1400 + 24) * 3 : UInt32).toNat
    decide
  queue := fun _ h => absurd h List.not_mem_nil
  buf := fun _ h => absurd h List.not_mem_nil

/-- The network and the timer only take segments away and number those at hand:
nothing is sent that was not in the queue or numbered before. -/
structure Sending.Leads (w w' : Sending) : Prop where
  conv_eq : w'.conv = w.conv
  mtu_eq : w'.mtu = w.mtu
  mss_eq : w'.mss = w.mss
  buffer_eq : w'.buffer = w.buffer
  queue : ∀ s ∈ w'.sndQueue, s ∈ w.sndQueue
  buf : ∀ c ∈ w'.sndBuf, c ∈ w.sndBuf ∨ c.conv = w.conv ∧ c.cmd = CMD_PUSH ∧
    ∃ s ∈ w.sndQueue, c.frg = s.frg ∧ c.data = s.data

theorem Sending.Leads.rfl {w : Sending} : w.Leads w :=
  ⟨Eq.refl _, Eq.refl _, Eq.refl _, Eq.refl _, fun _ hs => hs,
    fun _ hc => Or.inl hc⟩

theorem Sending.Leads.trans {w w' w'' : Sending} (h : w.Leads w')
    (h' : w'.Leads w'') : w.Leads w'' where
  conv_eq := h'.conv_eq.trans h.conv_eq
  mtu_eq := h'.mtu_eq.trans h.mtu_eq
  mss_eq := h'.mss_eq.trans h.mss_eq
  buffer_eq := h'.buffer_eq.trans h.buffer_eq
  queue := fun s hs => h.queue s (h'.queue s hs)
  buf := by
    intro c hc
    rcases h'.buf c hc with hc | ⟨hconv, hcmd, s, hs, hseg⟩
    · exact h.buf c hc
    · exact Or.inr ⟨hconv.trans h.conv_eq, hcmd, s, h.queue s hs, hseg⟩

/-- Some numbered segments are taken away. -/
theorem Sending.Leads.kept {w : Sending} {buf : List Core}
    (hbuf : ∀ c ∈ buf, c ∈ w.sndBuf) : w.Leads { w with sndBuf := buf } :=
  ⟨Eq.refl _, Eq.refl _, Eq.refl _, Eq.refl _, fun _ hs => hs,
    fun c hc => Or.inl (hbuf c hc)⟩

theorem Sending.Formed.leads {conv : UInt32} {w w' : Sending}
    (h : w.Formed conv) (hleads : w.Leads w') : w'.Formed conv where
  conv_eq := hleads.conv_eq.trans h.conv_eq
  queue := fun s hs => h.queue s (hleads.queue s hs)
  buf := by
    intro c hc
    rcases hleads.buf c hc with hc | ⟨hconv, hcmd, s, hs, hfrg, -⟩
    · exact h.buf c hc
    · exact ⟨hconv.trans h.conv_eq, hcmd, hfrg ▸ h.queue s hs⟩

theorem Sending.Sized.leads {w w' : Sending} (h : w.Sized)
    (hleads : w.Leads w') : w'.Sized where
  mss_eq := by rw [hleads.mss_eq, hleads.mtu_eq, h.mss_eq]
  room := by rw [hleads.mtu_eq, hleads.buffer_eq]; exact h.room
  queue := fun s hs => by
    rw [hleads.mss_eq]
    exact h.queue s (hleads.queue s hs)
  buf := by
    intro c hc
    rw [hleads.mss_eq]
    rcases hleads.buf c hc with hc | ⟨-, -, s, hs, -, hdata⟩
    · exact h.buf c hc
    · rw [hdata]
      exact h.queue s hs

theorem moveAvailable_sending (k : Kcpcb) :
    (moveAvailable k).sending = k.sending :=
  @moveAvailable_keeps (fun s => s.sending = k.sending)
    (fun _ _ _ _ _ _ h => h) k rfl

theorem recv_sending (k : Kcpcb) (len : Int) :
    (recv k len).2.2.sending = k.sending := by
  rcases recv_cases k len with ⟨code, _, heq⟩ | ⟨_, _, probe, heq⟩
  · rw [heq]
  · rw [heq]
    refine (moveAvailable_sending _).trans ?_
    rw [takeMessage]
    split
    · rfl
    · rfl

theorem parseUna_leads (k : Kcpcb) (una : UInt32) :
    k.sending.Leads (parseUna k una).sending := by
  apply @parseUna_keeps (fun s => k.sending.Leads s.sending) una ?_ k
    Sending.Leads.rfl
  intro s seg rest hbuf _ hs
  refine hs.trans (Sending.Leads.kept fun c hc => ?_)
  show c ∈ s.sndBuf.map Seg.core
  rw [hbuf, List.map_cons]
  exact List.mem_cons_of_mem _ hc

theorem inputUna_leads (k : Kcpcb) (seg : Seg) :
    k.sending.Leads (inputUna k seg).sending :=
  parseUna_leads { k with rmtWnd := seg.wnd } seg.una

theorem parseAck_leads (k : Kcpcb) (sn : UInt32) :
    k.sending.Leads (parseAck k sn).sending := by
  rw [parseAck]
  split
  · exact Sending.Leads.rfl
  · refine Sending.Leads.kept fun c hc => ?_
    show c ∈ k.sndBuf.map Seg.core
    rcases ackLoop_cases sn k.sndBuf with heq | ⟨front, seg, back, hbuf, _, heq⟩
    · rwa [heq] at hc
    · rw [heq] at hc
      rw [hbuf]
      simp only [List.map_append, List.map_cons, List.mem_append,
        List.mem_cons] at hc ⊢
      exact hc.imp_right Or.inr

theorem updateAck_sending (k : Kcpcb) (rtt : Int) :
    (updateAck k rtt).sending = k.sending := rfl

theorem ackRtt_sending (k : Kcpcb) (ts : UInt32) :
    (ackRtt k ts).sending = k.sending := by
  rw [ackRtt]
  split
  · exact updateAck_sending k _
  · rfl

theorem shrinkBuf_sending (k : Kcpcb) :
    (shrinkBuf k).sending = k.sending := rfl

theorem inputAck_leads (k : Kcpcb) (seg : Seg) :
    k.sending.Leads (inputAck k seg).sending := by
  rw [inputAck, shrinkBuf_sending, ← ackRtt_sending k seg.ts]
  exact parseAck_leads (ackRtt k seg.ts) seg.sn

theorem parseData_sending (k : Kcpcb) (newseg : Seg) :
    (parseData k newseg).sending = k.sending := by
  rw [parseData]
  split
  · rfl
  · split
    · exact moveAvailable_sending _
    · exact moveAvailable_sending k

theorem inputPush_sending (k : Kcpcb) (seg : Seg) :
    (inputPush k seg).sending = k.sending :=
  @inputPush_keeps (fun s => s.sending = k.sending) k seg (fun h => h)
    (fun s h => (parseData_sending s seg).trans h) rfl

theorem inputSeg_leads (k : Kcpcb) (maxack : Option UInt32) (seg : Seg) :
    k.sending.Leads (inputSeg k maxack seg).1.sending := by
  have huna := inputUna_leads k seg
  apply @inputSeg_keeps (fun s => k.sending.Leads s.sending)
  · exact fun _ => huna.trans (inputAck_leads _ seg)
  · intro _
    rw [inputPush_sending]
    exact huna
  · exact fun _ => huna

theorem parseFastack_sending (k : Kcpcb) (sn : UInt32) :
    (parseFastack k sn).sending = k.sending := by
  rw [parseFastack]
  split
  · rfl
  · rw [Kcpcb.sending]
    dsimp only
    rw [fastackLoop_core]
    rfl

theorem input_leads (k : Kcpcb) (data : List UInt8) :
    k.sending.Leads (input k data).2.sending :=
  @input_keeps (fun s => k.sending.Leads s.sending)
    (fun s maxack seg hs _ => hs.trans (inputSeg_leads s maxack seg))
    (fun s sn hs => by rwa [parseFastack_sending])
    (fun _ hs => hs) k Sending.Leads.rfl data

theorem flush_leads (k : Kcpcb) : k.sending.Leads (flush k).1.sending := by
  apply @flush_keeps (fun s => k.sending.Leads s.sending) ?_ ?_ ?_ ?_ k
    Sending.Leads.rfl
  · exact fun s hs => hs
  · intro s cwnd wnd newseg rest hqueue _ _ hs
    have hmem : newseg ∈ s.sending.sndQueue := by
      show newseg ∈ s.sndQueue
      rw [hqueue]
      exact List.mem_cons_self
    refine hs.trans ⟨rfl, rfl, rfl, rfl, ?_, ?_⟩
    · intro seg hseg
      show seg ∈ s.sndQueue
      rw [hqueue]
      exact List.mem_cons_of_mem newseg hseg
    · intro c hc
      have hc' : c ∈ (s.sndBuf ++ [numbered s wnd newseg]).map Seg.core := hc
      rw [List.map_append, List.mem_append] at hc'
      rcases hc' with hc | hc
      · exact Or.inl hc
      · obtain rfl := List.mem_singleton.mp hc
        exact Or.inr ⟨rfl, rfl, newseg, hmem, rfl, rfl⟩
  · intro s wnd w hs
    have hbuf : (flushData s wnd w).2.sending = s.sending := by
      rw [flushData, Kcpcb.sending]
      dsimp only
      rw [flushLoop_core]
      rfl
    rwa [hbuf]
  · exact fun s _ _ _ hs => hs

theorem update_leads (k : Kcpcb) (current : UInt32) :
    k.sending.Leads (update k current).1.sending :=
  @update_keeps (fun s => k.sending.Leads s.sending)
    (fun _ _ _ _ hs => hs) (fun s hs => hs.trans (flush_leads s)) k
    Sending.Leads.rfl current

theorem mem_fragments {mss : UInt32} {stream : Int} {count : Nat}
    {buffer : List UInt8} {s : Seg} (h : s ∈ fragments mss stream count buffer)
    (hcount : count ≤ 2 ^ 8) :
    s.frg.toNat < 2 ^ 8 ∧ s.data.length ≤ mss.toNat := by
  induction count generalizing buffer with
  | zero => exact absurd h List.not_mem_nil
  | succ i ih =>
      rcases List.mem_cons.mp h with rfl | h
      · refine ⟨?_, ?_⟩
        · show (if stream = 0 then UInt32.ofNat i else 0).toNat < 2 ^ 8
          split
          · rw [UInt32.toNat_ofNat']
            omega
          · decide
        · show (buffer.take mss.toNat).length ≤ mss.toNat
          rw [List.length_take]
          exact Nat.min_le_left _ _
      · exact ih h (by omega)

/-- A segment that `ikcp_send` makes from the bytes of the caller. -/
def Seg.Cut (mss : UInt32) (s : Seg) : Prop :=
  s.frg.toNat < 2 ^ 8 ∧ s.data.length ≤ mss.toNat

theorem extendLast_queue (k : Kcpcb) (buffer : List UInt8) :
    ∀ s ∈ (extendLast k buffer).1.sndQueue, s ∈ k.sndQueue ∨ s.Cut k.mss := by
  rw [extendLast]
  split
  · exact fun s hs => Or.inl hs
  · next old _ =>
      split
      · next hroom =>
          intro s hs
          rcases List.mem_append.mp hs with hs | hs
          · exact Or.inl (k.sndQueue.dropLast_subset hs)
          · obtain rfl := List.mem_singleton.mp hs
            refine Or.inr ⟨Nat.two_pow_pos 8, ?_⟩
            show (old.data ++ buffer.take (k.mss - old.len).toNat).length ≤ _
            have hlt := UInt32.lt_iff_toNat_lt.mp hroom
            have hsub := UInt32.toNat_sub_of_le _ _ (UInt32.le_of_lt hroom)
            rw [List.length_append, List.length_take, old.length_data]
            omega
      · exact fun s hs => Or.inl hs

theorem sendFragments_queue (k : Kcpcb) (buffer : List UInt8) :
    ∀ s ∈ (sendFragments k buffer).2.sndQueue,
      s ∈ k.sndQueue ∨ s.Cut k.mss := by
  rw [sendFragments]
  split
  · exact fun s hs => Or.inl hs
  · next hcount =>
      intro s hs
      rcases List.mem_append.mp hs with hs | hs
      · exact Or.inl hs
      · refine Or.inr (mem_fragments hs ?_)
        split <;> omega

theorem send_queue (k : Kcpcb) (buffer : List UInt8) (len : Int) :
    ∀ s ∈ (send k buffer len).2.sndQueue, s ∈ k.sndQueue ∨ s.Cut k.mss := by
  rw [send]
  split
  · exact fun s hs => Or.inl hs
  · split
    · dsimp only
      split
      · exact extendLast_queue k _
      · intro s hs
        have hmss : (extendLast k (buffer.take len.toNat)).1.mss = k.mss :=
          @extendLast_keeps (fun s => s.mss = k.mss) k (fun _ => rfl) _
        rcases sendFragments_queue _ _ s hs with hs | hs
        · exact extendLast_queue k _ s hs
        · exact Or.inr (hmss ▸ hs)
    · exact sendFragments_queue k _

theorem send_sending (k : Kcpcb) (buffer : List UInt8) (len : Int) :
    (send k buffer len).2.sending =
      { k.sending with sndQueue := (send k buffer len).2.sndQueue } :=
  @send_keeps (fun s => s.sending = { k.sending with sndQueue := s.sndQueue })
    (fun s queue n hs => by
      rw [Kcpcb.sending] at hs ⊢
      injection hs with hconv hmtu hmss hbuffer hqueue hbuf
      rw [hconv, hmtu, hmss, hbuffer, hbuf]) k rfl buffer len

theorem Sending.Formed.send {conv : UInt32} {k : Kcpcb}
    (h : k.sending.Formed conv) (buffer : List UInt8) (len : Int) :
    (Ikcp.send k buffer len).2.sending.Formed conv := by
  rw [send_sending]
  refine ⟨h.conv_eq, fun s hs => ?_, h.buf⟩
  rcases send_queue k buffer len s hs with hs | hs
  · exact h.queue s hs
  · exact hs.1

theorem Sending.Sized.send {k : Kcpcb} (h : k.sending.Sized)
    (buffer : List UInt8) (len : Int) :
    (Ikcp.send k buffer len).2.sending.Sized := by
  rw [send_sending]
  refine ⟨h.mss_eq, h.room, fun s hs => ?_, h.buf⟩
  rcases send_queue k buffer len s hs with hs | hs
  · exact h.queue s hs
  · exact hs.2

end Sending

section Flushing

theorem flush_sndBuf {k : Kcpcb} (hup : k.updated ≠ 0) :
    (flush k).1.sending.sndBuf = (loaded k).sndBuf.map Seg.core := by
  have hcwnd : ∀ k cwnd change lost,
      (flushCwnd k cwnd change lost).sending = k.sending :=
    fun _ _ _ _ => rfl
  have hdata : ∀ k wnd w, (flushData k wnd w).2.sending.sndBuf =
      k.sndBuf.map Seg.core :=
    fun k wnd w => flushLoop_core k wnd _ k.sndBuf
  unfold flush flushWriter
  rw [if_neg hup]
  dsimp only
  rw [hcwnd, hdata]
  rfl

theorem loaded_rcvNxt (k : Kcpcb) : (loaded k).rcvNxt = k.rcvNxt :=
  @sendLoop_keeps (fun s => s.rcvNxt = k.rcvNxt) _ _ (fun _ _ _ _ _ h => h)
    { probed k with probe := 0 } rfl

/-- What a flush sends: an acknowledge of the list, a probe, or a numbered
segment; with each of them goes the number that is expected next. -/
structure Flushed (k : Kcpcb) (s : Seg) : Prop where
  una_eq : s.una = k.rcvNxt
  kind : s.core ∈ (flush k).1.sending.sndBuf ∨
    s.conv = k.conv ∧ s.frg = 0 ∧ s.data = [] ∧
      (s.cmd = CMD_ACK ∧ (s.sn, s.ts) ∈ k.acklist ∨ s.cmd = CMD_WASK ∨
        s.cmd = CMD_WINS)

theorem afterAcks_una (seg : Seg) (acklist : List (UInt32 × UInt32)) :
    (afterAcks seg acklist).una = seg.una ∧
      (afterAcks seg acklist).conv = seg.conv ∧
      (afterAcks seg acklist).frg = seg.frg ∧
      (afterAcks seg acklist).data = seg.data := by
  rw [afterAcks]
  split
  · exact ⟨rfl, rfl, rfl, rfl⟩
  · exact ⟨rfl, rfl, rfl, rfl⟩

theorem mem_probeSegs {probe : UInt32} {seg s : Seg}
    (h : s ∈ probeSegs probe seg) :
    s = { seg with cmd := CMD_WASK } ∨ s = { seg with cmd := CMD_WINS } := by
  rw [probeSegs] at h
  rcases List.mem_append.mp h with h | h
  · split at h
    · exact Or.inl (List.mem_singleton.mp h)
    · exact absurd h List.not_mem_nil
  · split at h
    · exact Or.inr (List.mem_singleton.mp h)
    · exact absurd h List.not_mem_nil

theorem flushSegs_flushed {k : Kcpcb} (hup : k.updated ≠ 0) {s : Seg}
    (h : s ∈ flushSegs k) : Flushed k s := by
  rw [flushSegs] at h
  rcases List.mem_append.mp h with h | h
  · rcases List.mem_append.mp h with h | h
    · obtain ⟨ack, hack, rfl⟩ := List.mem_map.mp h
      exact ⟨rfl, Or.inr ⟨rfl, rfl, rfl, Or.inl ⟨rfl, hack⟩⟩⟩
    · obtain ⟨huna, hconv, hfrg, hdata⟩ :=
        afterAcks_una (flushHead k) k.acklist
      rcases mem_probeSegs h with rfl | rfl
      · exact ⟨huna, Or.inr ⟨hconv, hfrg, hdata, Or.inr (Or.inl rfl)⟩⟩
      · exact ⟨huna, Or.inr ⟨hconv, hfrg, hdata, Or.inr (Or.inr rfl)⟩⟩
  · obtain ⟨segment, hsegment, hsent⟩ := List.mem_filterMap.mp h
    obtain ⟨hcore, huna⟩ := resent_core hsent
    refine ⟨huna.trans (loaded_rcvNxt k), Or.inl ?_⟩
    rw [hcore, flush_sndBuf hup]
    exact List.mem_map_of_mem hsegment

theorem Flushed.length_le {k : Kcpcb} {s : Seg} (h : Flushed k s)
    (hsized : k.sending.Sized) : s.wire.length ≤ k.mtu.toNat := by
  have hmss : k.mss.toNat + OVERHEAD = k.mtu.toNat := hsized.mss_eq
  rw [length_wire, ← s.length_data]
  rcases h.kind with hbuf | ⟨-, -, hdata, -⟩
  · have hlen := (hsized.leads (flush_leads k)).buf _ hbuf
    have hlen' : s.data.length ≤ k.mss.toNat := by
      rw [(flush_leads k).mss_eq] at hlen
      exact hlen
    omega
  · rw [hdata, List.length_nil]
    omega

/-- A flush stays inside the block. -/
theorem flushPeak_le {k : Kcpcb} (h : k.sending.Sized) :
    flushPeak k ≤ k.sending.buffer.toNat := by
  rw [flushPeak]
  by_cases hup : k.updated = 0
  · rw [flushWriter, if_pos hup]
    exact Nat.zero_le _
  · refine Nat.le_trans ((flushWriter_took hup).2 _ (Nat.le_refl _) ?_) h.room
    exact fun s hs => (flushSegs_flushed hup hs).length_le h

theorem syncFlush_sending (k : Kcpcb) (current : UInt32) :
    (syncFlush k current).sending = k.sending := rfl

theorem setTsFlush_sending (k : Kcpcb) (tsFlush : UInt32) :
    ({ k with tsFlush := tsFlush } : Kcpcb).sending = k.sending := rfl

theorem updatePeak_le {k : Kcpcb} (h : k.sending.Sized) (current : UInt32) :
    updatePeak k current ≤ k.sending.buffer.toNat := by
  rw [updatePeak]
  rw [← syncFlush_sending k current] at h ⊢
  generalize syncFlush k current = k' at h
  split
  · rw [← setTsFlush_sending k' (nextFlush k')] at h ⊢
    exact flushPeak_le h
  · exact Nat.zero_le _

end Flushing

end Ikcp

end Libsaf
