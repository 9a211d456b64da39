/-
The block refines selective repeat.  The segments of an endpoint are coupled
with one direction of the protocol in which it sends and one in which it
receives, the numbers being cut to 32 bits, and every operation of the block is
a run of steps of these two.
-/
import Libsaf.IkcpMessage
import Libsaf.SelectiveRepeat

namespace Libsaf

namespace Ikcp

/-- What the coupling of a sender reads. -/
structure Outgoing where
  sndNxt : UInt32
  sndBuf : List Core

def Kcpcb.outgoing (k : Kcpcb) : Outgoing :=
  { sndNxt := k.sndNxt, sndBuf := k.sndBuf.map Seg.core }

def Core.frame (c : Core) : Frame := ⟨c.frg, c.data⟩

/-- The sender of a direction. -/
structure Outgoing.Couples (o : Outgoing) (a : SelectiveRepeat Frame) :
    Prop where
  nxt : o.sndNxt = UInt32.ofNat a.log.length
  buf : ∀ c ∈ o.sndBuf, ∃ i, c.sn = UInt32.ofNat i ∧
    a.log[i]? = some c.frame
  unacked : ∀ i ∈ a.unacked, ∃ c ∈ o.sndBuf, c.sn = UInt32.ofNat i

/-- The receiver of a direction; `taken` is what the application has got. -/
structure RecvSide.Couples (r : RecvSide) (taken : List Frame)
    (b : SelectiveRepeat Frame) : Prop where
  nxt : r.rcvNxt = UInt32.ofNat b.delivered.length
  queue : b.delivered = taken ++ r.rcvQueue.map Seg.frame
  buf : ∀ s ∈ r.rcvBuf, ∃ i, s.sn = UInt32.ofNat i ∧ (i, s.frame) ∈ b.seen
  seen : ∀ i, b.Seen i →
    i < b.delivered.length ∨ ∃ s ∈ r.rcvBuf, s.sn = UInt32.ofNat i
  acks : ∀ ack ∈ r.acklist, ∃ i, ack.1 = UInt32.ofNat i ∧ b.Seen i

/-- No sequence number has been used twice. -/
def Fresh (a : SelectiveRepeat Frame) : Prop := a.log.length < 2 ^ 31

theorem toNat_of_eq_ofNat {sn : UInt32} {i : Nat} (hi : i < 2 ^ 31)
    (h : sn = UInt32.ofNat i) : sn.toNat = i := by
  rw [h, UInt32.toNat_ofNat']
  omega

theorem ofNat_inj {i j : Nat} (hi : i < 2 ^ 31) (hj : j < 2 ^ 31)
    (h : UInt32.ofNat i = UInt32.ofNat j) : i = j := by
  have heq := congrArg UInt32.toNat h
  rw [UInt32.toNat_ofNat', UInt32.toNat_ofNat'] at heq
  omega

section Library

variable {a : SelectiveRepeat Frame}

theorem lt_of_log {i : Nat} {x : Frame} (h : a.log[i]? = some x) :
    i < a.log.length :=
  (List.getElem?_eq_some_iff.mp h).1

theorem seen_lt (hsafe : a.Safe) {i : Nat} (h : a.Seen i) :
    i < a.log.length := by
  obtain ⟨x, hx⟩ := h
  exact lt_of_log (hsafe.seen_log hx)

theorem delivered_le (hsafe : a.Safe) : a.delivered.length ≤ a.log.length :=
  hsafe.delivered_prefix.length_le

end Library

section Receiving

variable {taken : List Frame} {b : SelectiveRepeat Frame}

theorem RecvSide.Couples.rcvNxt_toNat {k : Kcpcb}
    (h : k.recvSide.Couples taken b) (hsafe : b.Safe) (hfresh : Fresh b) :
    k.rcvNxt.toNat = b.delivered.length :=
  toNat_of_eq_ofNat (Nat.lt_of_le_of_lt (delivered_le hsafe) hfresh) h.nxt

/-- One move of a segment to `rcv_queue` delivers one frame. -/
theorem RecvSide.Couples.move {r : RecvSide} {seg : Seg} {rest : List Seg}
    (h : r.Couples taken b) (hsafe : b.Safe) (hfresh : Fresh b)
    (hbuf : r.rcvBuf = seg :: rest) (hsn : seg.sn = r.rcvNxt) :
    ∃ b', b.Receives b' ∧ RecvSide.Couples
      ⟨r.rcvNxt + 1, r.rcvQueue ++ [seg], rest, r.acklist⟩ taken b' := by
  obtain ⟨i, hi, hseen⟩ := h.buf seg (by rw [hbuf]; exact List.mem_cons_self)
  have hlt := lt_of_log (hsafe.seen_log hseen)
  have hle := delivered_le hsafe
  have hnext : i = b.delivered.length := by
    refine ofNat_inj (Nat.lt_trans hlt hfresh) (Nat.lt_of_le_of_lt hle hfresh) ?_
    rw [← hi, hsn, h.nxt]
  subst hnext
  refine ⟨_, SelectiveRepeat.receives_deliver hseen, ?_, ?_, ?_, ?_, h.acks⟩
  · show r.rcvNxt + 1 = UInt32.ofNat (b.delivered ++ [seg.frame]).length
    rw [h.nxt, List.length_append, List.length_singleton, ofNat_succ]
  · show b.delivered ++ [seg.frame] = taken ++ (r.rcvQueue ++ [seg]).map _
    rw [h.queue, List.map_append, List.append_assoc]
    rfl
  · intro s hs
    exact h.buf s (by rw [hbuf]; exact List.mem_cons_of_mem seg hs)
  · intro j hj
    show j < (b.delivered ++ [seg.frame]).length ∨ _
    rw [List.length_append, List.length_singleton]
    rcases h.seen j hj with hlow | ⟨s, hs, hsj⟩
    · exact Or.inl (Nat.lt_succ_of_lt hlow)
    · rw [hbuf] at hs
      rcases List.mem_cons.mp hs with rfl | hs
      · have hjlt := seen_lt hsafe hj
        have heq := ofNat_inj (Nat.lt_trans hjlt hfresh)
          (Nat.lt_of_le_of_lt hle hfresh) (hsj.symm.trans hi)
        exact Or.inl (by omega)
      · exact Or.inr ⟨s, hs, hsj⟩

/-- The receiver keeps its coupling with a run of its own. -/
def Kcpcb.Follows (taken : List Frame) (b : SelectiveRepeat Frame)
    (k : Kcpcb) : Prop :=
  ∃ b', b.Receives b' ∧ k.recvSide.Couples taken b'

theorem Kcpcb.Follows.moveAvailable {k : Kcpcb} (hsafe : b.Safe)
    (hfresh : Fresh b) (h : k.Follows taken b) :
    (Ikcp.moveAvailable k).Follows taken b := by
  apply @moveAvailable_keeps (Kcpcb.Follows taken b) ?_ k h
  rintro k seg rest hbuf hsn - ⟨b', hrun, hcouples⟩
  have hfresh' : Fresh b' := by
    rw [Fresh, hrun.log]
    exact hfresh
  obtain ⟨b'', hrun', hcouples'⟩ :=
    hcouples.move (hsafe.steps hrun.steps) hfresh' hbuf hsn
  exact ⟨b'', hrun.trans hrun', hcouples'⟩

/-- Numbers that have not wrapped are compared exactly. -/
theorem itimediff_eq {i j : Nat} (hi : i < 2 ^ 31) (hj : j < 2 ^ 31) :
    itimediff (UInt32.ofNat i) (UInt32.ofNat j) = (i : Int) - j :=
  serialDiff_ofNat (by omega) (by omega)

/-- A segment is put into `rcv_buf`, or is there already, and its acknowledge is
put down. -/
theorem RecvSide.Couples.arrive {r : RecvSide} {seg : Seg} {i : Nat}
    {buf : List Seg} (h : r.Couples taken b) (ts : UInt32)
    (hsn : seg.sn = UInt32.ofNat i) (hlog : b.log[i]? = some seg.frame)
    (hold : ∀ s ∈ r.rcvBuf, s ∈ buf)
    (hnew : ∀ s ∈ buf, s = seg ∨ s ∈ r.rcvBuf)
    (hin : ∃ s ∈ buf, s.sn = seg.sn) :
    ∃ b', b.Receives b' ∧ b'.Seen i ∧ RecvSide.Couples
      ⟨r.rcvNxt, r.rcvQueue, buf, r.acklist ++ [(seg.sn, ts)]⟩ taken b' := by
  refine ⟨_, SelectiveRepeat.receives_arrive hlog, ⟨seg.frame, Or.inl rfl⟩,
    h.nxt, h.queue, ?_, ?_, ?_⟩
  · intro s hs
    rcases hnew s hs with rfl | hs
    · exact ⟨i, hsn, Or.inl rfl⟩
    · obtain ⟨j, hj, hseen⟩ := h.buf s hs
      exact ⟨j, hj, Or.inr hseen⟩
  · rintro j ⟨x, heq | hx⟩
    · obtain ⟨rfl, -⟩ := Prod.mk.inj heq
      exact Or.inr (hin.imp fun s hs => ⟨hs.1, hs.2.trans hsn⟩)
    · exact (h.seen j ⟨x, hx⟩).imp_right fun ⟨s, hs, hsj⟩ => ⟨s, hold s hs, hsj⟩
  · intro ack hack
    rcases List.mem_append.mp hack with hack | hack
    · obtain ⟨j, hj, x, hx⟩ := h.acks ack hack
      exact ⟨j, hj, x, Or.inr hx⟩
    · obtain rfl := List.mem_singleton.mp hack
      exact ⟨i, hsn, seg.frame, Or.inl rfl⟩

/-- A segment that was delivered before is only acknowledged again. -/
theorem RecvSide.Couples.again {r : RecvSide} {sn : UInt32} {i : Nat}
    (h : r.Couples taken b) (ts : UInt32) (hsn : sn = UInt32.ofNat i)
    (hseen : b.Seen i) : RecvSide.Couples
      ⟨r.rcvNxt, r.rcvQueue, r.rcvBuf, r.acklist ++ [(sn, ts)]⟩ taken b := by
  refine ⟨h.nxt, h.queue, h.buf, h.seen, fun ack hack => ?_⟩
  rcases List.mem_append.mp hack with hack | hack
  · exact h.acks ack hack
  · obtain rfl := List.mem_singleton.mp hack
    exact ⟨i, hsn, hseen⟩

theorem mem_insertLoop {newseg : Seg} {l r : List Seg}
    (h : insertLoop newseg l = some r) (s : Seg) :
    s ∈ r ↔ s = newseg ∨ s ∈ l := by
  obtain ⟨back, front, rfl, rfl, -, -⟩ := insertLoop_some h
  simp only [List.mem_append, List.mem_cons]
  tauto

/-- `ikcp_parse_data` of a segment inside the window, its acknowledge being in
the list. -/
theorem Kcpcb.Follows.parseData {k : Kcpcb} {seg : Seg} {i : Nat}
    (hsafe : b.Safe) (hfresh : Fresh b) (h : k.recvSide.Couples taken b)
    (hsn : seg.sn = UInt32.ofNat i) (hlog : b.log[i]? = some seg.frame)
    (ts : UInt32)
    (hroom : itimediff seg.sn (k.rcvNxt + k.rcvWnd) < 0)
    (hnew : 0 ≤ itimediff seg.sn k.rcvNxt) :
    ∃ b', b.Receives b' ∧ b'.Seen i ∧
      (Ikcp.parseData (ackPush k seg.sn ts) seg).Follows taken b' := by
  have hwindow : ¬ (0 ≤ itimediff seg.sn
      ((ackPush k seg.sn ts).rcvNxt + (ackPush k seg.sn ts).rcvWnd) ∨
      itimediff seg.sn (ackPush k seg.sn ts).rcvNxt < 0) := by
    intro hout
    rcases hout with hout | hout
    · exact absurd hroom (Int.not_lt.mpr hout)
    · exact absurd hnew (Int.not_le.mpr hout)
  have hmoves : ∀ {buf : List Seg} {b' : SelectiveRepeat Frame},
      b.Receives b' → RecvSide.Couples
        ⟨k.rcvNxt, k.rcvQueue, buf, k.acklist ++ [(seg.sn, ts)]⟩ taken b' →
      ∀ s : Kcpcb, s.recvSide =
        ⟨k.rcvNxt, k.rcvQueue, buf, k.acklist ++ [(seg.sn, ts)]⟩ →
      (Ikcp.moveAvailable s).Follows taken b' := by
    intro buf b' hrun hcouples s hs
    have hfresh' : Fresh b' := by
      rw [Fresh, hrun.log]
      exact hfresh
    exact Kcpcb.Follows.moveAvailable (hsafe.steps hrun.steps) hfresh'
      ⟨b', SelectiveRepeat.Receives.refl b', hs ▸ hcouples⟩
  rw [Ikcp.parseData, if_neg hwindow]
  split
  · next buf hbuf =>
      have hmem := mem_insertLoop hbuf
      have hold : ∀ s, s ∈ (ackPush k seg.sn ts).rcvBuf.reverse ↔
          s ∈ k.rcvBuf := fun s => List.mem_reverse
      obtain ⟨b', hrun, hseen, hcouples⟩ :=
        @RecvSide.Couples.arrive taken b k.recvSide seg i buf.reverse h ts
          hsn hlog
          (fun s hs => by
            rw [List.mem_reverse, hmem, hold]
            exact Or.inr hs)
          (fun s hs => by
            rw [List.mem_reverse, hmem, hold] at hs
            exact hs)
          ⟨seg, List.mem_reverse.mpr ((hmem seg).mpr (Or.inl rfl)), rfl⟩
      exact ⟨b', hrun, hseen, hmoves hrun hcouples _ rfl⟩
  · next hrepeat =>
      obtain ⟨s, hs, hsame⟩ := insertLoop_none hrepeat
      obtain ⟨b', hrun, hseen, hcouples⟩ :=
        @RecvSide.Couples.arrive taken b k.recvSide seg i k.rcvBuf h ts hsn
          hlog (fun _ hs => hs) (fun _ hs => Or.inr hs)
          ⟨s, List.mem_reverse.mp hs, hsame⟩
      exact ⟨b', hrun, hseen, hmoves hrun hcouples _ rfl⟩

/-- The receiver has room for frame `i`. -/
def Kcpcb.Admits (k : Kcpcb) (b : SelectiveRepeat Frame) (i : Nat) : Prop :=
  k.rcvWnd.toNat < 2 ^ 31 ∧ i < b.delivered.length + k.rcvWnd.toNat

theorem RecvSide.Couples.inWindow {k : Kcpcb} {i : Nat}
    (h : k.recvSide.Couples taken b) (hadmits : k.Admits b i)
    (hnear : b.delivered.length + k.rcvWnd.toNat ≤ i + 2 ^ 31) :
    itimediff (UInt32.ofNat i) (k.rcvNxt + k.rcvWnd) < 0 := by
  have hnxt : k.rcvNxt = UInt32.ofNat b.delivered.length := h.nxt
  have hend : k.rcvNxt + k.rcvWnd =
      UInt32.ofNat (b.delivered.length + k.rcvWnd.toNat) := by
    rw [hnxt, UInt32.ofNat_add, UInt32.ofNat_toNat]
  obtain ⟨hwnd, hroom⟩ := hadmits
  rw [hend, itimediff, serialDiff_ofNat hnear (by omega)]
  omega

theorem Kcpcb.Follows.inputPush {k : Kcpcb} {seg : Seg} {i : Nat}
    (hsafe : b.Safe) (hfresh : Fresh b) (h : k.recvSide.Couples taken b)
    (hsn : seg.sn = UInt32.ofNat i) (hlog : b.log[i]? = some seg.frame) :
    ∃ b', b.Receives b' ∧ (k.Admits b i → b'.Seen i) ∧
      (Ikcp.inputPush k seg).Follows taken b' := by
  have hi : i < 2 ^ 31 := Nat.lt_trans (lt_of_log hlog) hfresh
  have hd : b.delivered.length < 2 ^ 31 :=
    Nat.lt_of_le_of_lt (delivered_le hsafe) hfresh
  have hnxt : k.rcvNxt = UInt32.ofNat b.delivered.length := h.nxt
  have hrefl := SelectiveRepeat.Receives.refl b
  rw [Ikcp.inputPush]
  split
  · next hroom =>
      dsimp only
      split
      · next hnew =>
          obtain ⟨b', hrun, hseen, hfollows⟩ :=
            Kcpcb.Follows.parseData hsafe hfresh h hsn hlog seg.ts hroom hnew
          exact ⟨b', hrun, fun _ => hseen, hfollows⟩
      · next hold =>
          have hlow : ¬ 0 ≤ itimediff seg.sn k.rcvNxt := hold
          rw [hsn, hnxt, itimediff_eq hi hd] at hlow
          have hseen := hsafe.delivered_seen i (by omega)
          exact ⟨b, hrefl, fun _ => hseen, b, hrefl, h.again seg.ts hsn hseen⟩
  · next hfull =>
      refine ⟨b, hrefl, fun hadmits => ?_, b, hrefl, h⟩
      -- Behind the end of the window only what has been delivered.
      by_cases hlow : i < b.delivered.length
      · exact hsafe.delivered_seen i hlow
      · have hlt := hadmits.1
        refine absurd ?_ hfull
        rw [hsn]
        exact h.inWindow hadmits (by omega)

/-- An acknowledge for this number waits for the next flush. -/
def Kcpcb.Owes (k : Kcpcb) (sn : UInt32) : Prop :=
  ∃ ack ∈ k.recvSide.acklist, ack.1 = sn

theorem Kcpcb.Owes.of_recvSide {k k' : Kcpcb} {sn : UInt32} (h : k.Owes sn)
    (heq : k'.recvSide = k.recvSide) : k'.Owes sn := by
  rwa [Kcpcb.Owes, heq]

theorem Kcpcb.Owes.moveAvailable {k : Kcpcb} {sn : UInt32} (h : k.Owes sn) :
    (Ikcp.moveAvailable k).Owes sn :=
  @moveAvailable_keeps (fun s => s.Owes sn) (fun _ _ _ _ _ _ hs => hs) k h

theorem Kcpcb.Owes.parseData {k : Kcpcb} {sn : UInt32} (h : k.Owes sn)
    (seg : Seg) : (Ikcp.parseData k seg).Owes sn := by
  rw [Ikcp.parseData]
  split
  · exact h
  · split
    · exact Kcpcb.Owes.moveAvailable h
    · exact Kcpcb.Owes.moveAvailable h

theorem Kcpcb.Owes.ackPush {k : Kcpcb} {sn : UInt32} (h : k.Owes sn)
    (acked ts : UInt32) : (Ikcp.ackPush k acked ts).Owes sn := by
  obtain ⟨ack, hack, hsn⟩ := h
  exact ⟨ack, List.mem_append_left _ hack, hsn⟩

theorem Kcpcb.Owes.inputPush {k : Kcpcb} {sn : UInt32} (h : k.Owes sn)
    (seg : Seg) : (Ikcp.inputPush k seg).Owes sn := by
  rw [Ikcp.inputPush]
  split
  · dsimp only
    split
    · exact (h.ackPush seg.sn seg.ts).parseData seg
    · exact h.ackPush seg.sn seg.ts
  · exact h

/-- Acknowledges are put down until they are sent. -/
theorem Kcpcb.Owes.inputSeg {k : Kcpcb} {sn : UInt32} (h : k.Owes sn)
    (maxack : Option UInt32) (seg : Seg) :
    (Ikcp.inputSeg k maxack seg).1.Owes sn := by
  have huna : (inputUna k seg).Owes sn := h.of_recvSide (inputUna_recvSide k seg)
  apply @inputSeg_keeps (fun s => s.Owes sn)
  · exact fun _ => huna.of_recvSide (inputAck_recvSide _ seg)
  · exact fun _ => huna.inputPush seg
  · exact fun _ => huna

theorem Kcpcb.Owes.inputSegs {k : Kcpcb} {sn : UInt32} (h : k.Owes sn)
    (maxack : Option UInt32) (segs : List Seg) :
    (Ikcp.inputSegs k maxack segs).1.Owes sn := by
  induction segs generalizing k maxack with
  | nil => exact h
  | cons seg rest ih => exact ih (h.inputSeg maxack seg) _

theorem Kcpcb.Owes.inputEnd {k : Kcpcb} {sn : UInt32} (h : k.Owes sn)
    (una : UInt32) (maxack : Option UInt32) :
    (Ikcp.inputEnd una k maxack).Owes sn :=
  @inputEnd_keeps (fun s => s.Owes sn)
    (fun s acked hs => hs.of_recvSide (parseFastack_recvSide s acked))
    (fun _ hs => hs) k h una maxack

theorem Kcpcb.Owes.input {k : Kcpcb} {sn : UInt32} (h : k.Owes sn)
    (data : List UInt8) : (Ikcp.input k data).2.Owes sn :=
  @input_keeps (fun s => s.Owes sn)
    (fun _ maxack seg hs _ => hs.inputSeg maxack seg)
    (fun s acked hs => hs.of_recvSide (parseFastack_recvSide s acked))
    (fun _ hs => hs) k h data

/-- A segment in the window is acknowledged, be it new or not. -/
theorem inputPush_owes {k : Kcpcb} {seg : Seg}
    (hroom : itimediff seg.sn (k.rcvNxt + k.rcvWnd) < 0) :
    (inputPush k seg).Owes seg.sn := by
  have hack : (ackPush k seg.sn seg.ts).Owes seg.sn :=
    ⟨(seg.sn, seg.ts), List.mem_append_right _ (List.mem_singleton_self _), rfl⟩
  rw [inputPush, if_pos hroom]
  dsimp only
  split
  · exact hack.parseData seg
  · exact hack

/-- Frame `i` is not so far behind that its number is taken for one in front. -/
def Kcpcb.Near (k : Kcpcb) (b : SelectiveRepeat Frame) (i : Nat) : Prop :=
  b.log.length + k.rcvWnd.toNat ≤ i + 2 ^ 31

/-- What the receiver makes of frame `i`: it has arrived then, and is going to
be acknowledged. -/
def Kcpcb.Takes (k k' : Kcpcb) (b b' : SelectiveRepeat Frame) (i : Nat) :
    Prop :=
  k.Admits b i → b'.Seen i ∧ (k.Near b i → k'.Owes (UInt32.ofNat i))

theorem Kcpcb.Takes.keep {k k' k'' : Kcpcb} {b' b'' : SelectiveRepeat Frame}
    {i : Nat} (h : k.Takes k' b b' i)
    (howes : ∀ sn, k'.Owes sn → k''.Owes sn) (hb : b'.Before b'') :
    k.Takes k'' b b'' i :=
  fun hadmits => ⟨hb.seen_of (h hadmits).1,
    fun hnear => howes _ ((h hadmits).2 hnear)⟩

/-- It is taken later as well: more is delivered then, and the window is the
same. -/
theorem Kcpcb.Takes.of_later {k₀ k k' : Kcpcb}
    {b₀ b' : SelectiveRepeat Frame} {i : Nat} (h : k.Takes k' b b' i)
    (hinbox : k.inbox.rcvWnd = k₀.inbox.rcvWnd) (hb : b₀.Receives b) :
    k₀.Takes k' b₀ b' i := by
  have hle := hb.steps.before.delivered.length_le
  have hwnd : k.rcvWnd = k₀.rcvWnd := hinbox
  rintro ⟨hlt, hroom⟩
  have hadmits : k.Admits b i := by
    rw [Kcpcb.Admits, hwnd]
    exact ⟨hlt, by omega⟩
  refine ⟨(h hadmits).1, fun hnear => (h hadmits).2 ?_⟩
  rwa [Kcpcb.Near, hwnd, hb.log]

/-- `ikcp_recv` hands the first message to the application. -/
theorem RecvSide.Couples.take {r : RecvSide} (h : r.Couples taken b)
    {front rest : List Seg} (hqueue : r.rcvQueue = front ++ rest) :
    RecvSide.Couples ⟨r.rcvNxt, rest, r.rcvBuf, r.acklist⟩
      (taken ++ front.map Seg.frame) b := by
  refine ⟨h.nxt, ?_, h.buf, h.seen, h.acks⟩
  rw [h.queue, hqueue, List.map_append, List.append_assoc]

end Receiving

section Sending

variable {a : SelectiveRepeat Frame}

/-- Segments are dropped whose frames the sender need not keep. -/
theorem Outgoing.Couples.settle {o : Outgoing} {buf : List Core}
    {kept : Set ℕ} (h : o.Couples a) (hbuf : ∀ c ∈ buf, c ∈ o.sndBuf)
    (hkept : ∀ i ∈ kept, ∃ c ∈ buf, c.sn = UInt32.ofNat i) :
    Outgoing.Couples ⟨o.sndNxt, buf⟩ { a with unacked := kept } :=
  ⟨h.nxt, fun c hc => h.buf c (hbuf c hc), hkept⟩

/-- What is left when some segments below `n` are dropped. -/
structure DropsBelow (a : SelectiveRepeat Frame) (n : Nat) (k k' : Kcpcb) :
    Prop where
  nxt : k'.sndNxt = k.sndNxt
  buf : ∀ c ∈ k'.sndBuf.map Seg.core, c ∈ k.sndBuf.map Seg.core
  unacked : ∀ i ∈ a.unacked, n ≤ i →
    ∃ c ∈ k'.sndBuf.map Seg.core, c.sn = UInt32.ofNat i

theorem DropsBelow.tail {n : Nat} {k s : Kcpcb} {seg : Seg} {rest : List Seg}
    (h : DropsBelow a n k s) (hsafe : a.Safe) (hfresh : Fresh a)
    (hn : n < 2 ^ 31) (hbuf : s.sndBuf = seg :: rest)
    (hlow : 0 < itimediff (UInt32.ofNat n) seg.sn) :
    DropsBelow a n k { s with sndBuf := rest, nsndBuf := s.nsndBuf - 1 } := by
  obtain ⟨hnxt, hsub, hkept⟩ := h
  rw [hbuf, List.map_cons] at hsub hkept
  refine ⟨hnxt, fun c hc => hsub c (List.mem_cons_of_mem _ hc), ?_⟩
  intro i hi hni
  obtain ⟨c, hc, hsn⟩ := hkept i hi hni
  rcases List.mem_cons.mp hc with rfl | hc
  · have hsn' : seg.sn = UInt32.ofNat i := hsn
    have hi' := Nat.lt_trans (hsafe.unacked_lt i hi) hfresh
    rw [hsn', itimediff_eq hn hi'] at hlow
    omega
  · exact ⟨c, hc, hsn⟩

/-- `ikcp_parse_una` drops the segments below a number that the peer has
delivered up to. -/
theorem Outgoing.Couples.parseUna {k : Kcpcb} {n : Nat}
    (h : k.outgoing.Couples a) (hsafe : a.Safe) (hfresh : Fresh a)
    (hn : n ≤ a.delivered.length) :
    ∃ a', a.Sends a' ∧
      (Ikcp.parseUna k (UInt32.ofNat n)).outgoing.Couples a' ∧
      a'.log = a.log := by
  have hn' : n < 2 ^ 31 :=
    Nat.lt_of_le_of_lt (hn.trans (delivered_le hsafe)) hfresh
  refine ⟨_, SelectiveRepeat.sends_settleBelow hn, ?_, rfl⟩
  obtain ⟨hnxt, hsub, hkept⟩ :=
    @parseUna_keeps (DropsBelow a n k) (UInt32.ofNat n)
      (fun s seg rest hbuf hlow hs => hs.tail hsafe hfresh hn' hbuf hlow) k
      ⟨rfl, fun _ hc => hc, fun i hi _ => h.unacked i hi⟩
  rw [Kcpcb.outgoing, hnxt]
  exact h.settle hsub fun i hi => hkept i hi.1 hi.2

/-- `ikcp_parse_ack` drops the segment with a number that the peer has seen. -/
theorem Outgoing.Couples.parseAck {k : Kcpcb} {i : Nat}
    (h : k.outgoing.Couples a) (hsafe : a.Safe) (hfresh : Fresh a)
    (hseen : a.Seen i) :
    ∃ a', a.Sends a' ∧
      (Ikcp.parseAck k (UInt32.ofNat i)).outgoing.Couples a' ∧
      a'.log = a.log := by
  rw [Ikcp.parseAck]
  split
  · exact ⟨a, SelectiveRepeat.Sends.refl a, h, rfl⟩
  · rcases ackLoop_cases (UInt32.ofNat i) k.sndBuf with
      heq | ⟨front, seg, back, hbuf, hsn, heq⟩
    · rw [heq]
      exact ⟨a, SelectiveRepeat.Sends.refl a, h, rfl⟩
    · rw [heq]
      refine ⟨_, SelectiveRepeat.sends_settle hseen, ?_, rfl⟩
      refine @Outgoing.Couples.settle a k.outgoing
        ((front ++ back).map Seg.core) (a.unacked \ {i}) h ?_ ?_
      · intro c hc
        show c ∈ k.sndBuf.map Seg.core
        rw [hbuf]
        simp only [List.map_append, List.map_cons, List.mem_append,
          List.mem_cons] at hc ⊢
        exact hc.imp_right Or.inr
      · rintro j ⟨hj, hne⟩
        obtain ⟨c, hc, hcj⟩ := h.unacked j hj
        have hc' : c ∈ (front ++ seg :: back).map Seg.core := by
          rw [← hbuf]
          exact hc
        simp only [List.map_append, List.map_cons, List.mem_append,
          List.mem_cons] at hc' ⊢
        rcases hc' with hc | rfl | hc
        · exact ⟨c, Or.inl hc, hcj⟩
        · have hsj : seg.sn = UInt32.ofNat j := hcj
          have heq' := ofNat_inj (Nat.lt_trans (seen_lt hsafe hseen) hfresh)
            (Nat.lt_trans (hsafe.unacked_lt j hj) hfresh) (hsn.symm.trans hsj)
          exact absurd heq'.symm hne
        · exact ⟨c, Or.inr hc, hcj⟩

/-- A segment that moves to `snd_buf` is numbered. -/
theorem Outgoing.Couples.number {o : Outgoing} {c : Core} (h : o.Couples a)
    (hsn : c.sn = o.sndNxt) :
    Outgoing.Couples ⟨o.sndNxt + 1, o.sndBuf ++ [c]⟩ { a with
      log := a.log ++ [c.frame]
      unacked := insert a.log.length a.unacked } := by
  have hbefore := (SelectiveRepeat.Step.number a c.frame).before
  refine ⟨?_, ?_, ?_⟩
  · show o.sndNxt + 1 = UInt32.ofNat (a.log ++ [c.frame]).length
    rw [h.nxt, List.length_append, List.length_singleton, ofNat_succ]
  · intro d hd
    rcases List.mem_append.mp hd with hd | hd
    · obtain ⟨i, hi, hlog⟩ := h.buf d hd
      exact ⟨i, hi, hbefore.getElem? hlog⟩
    · obtain rfl := List.mem_singleton.mp hd
      exact ⟨a.log.length, hsn.trans h.nxt, List.getElem?_concat_length⟩
  · rintro i (rfl | hi)
    · exact ⟨c, List.mem_append_right _ (List.mem_singleton_self c),
        hsn.trans h.nxt⟩
    · obtain ⟨d, hd, hsn'⟩ := h.unacked i hi
      exact ⟨d, List.mem_append_left _ hd, hsn'⟩

/-- What a flush keeps: the frames that are numbered and those that wait are the
same together, and so is what the receiver of this block has. -/
structure Numbers (a : SelectiveRepeat Frame) (k k' : Kcpcb)
    (a' : SelectiveRepeat Frame) : Prop where
  sends : a.Sends a'
  couples : k'.outgoing.Couples a'
  frames : a'.log ++ k'.sndQueue.map Seg.frame =
    a.log ++ k.sndQueue.map Seg.frame

theorem Numbers.refl {k : Kcpcb} (h : k.outgoing.Couples a) :
    Numbers a k k a :=
  ⟨SelectiveRepeat.Sends.refl a, h, rfl⟩

theorem flushData_outgoing (k : Kcpcb) (wnd : UInt32) (w : Writer) :
    (flushData k wnd w).2.outgoing = k.outgoing := by
  rw [flushData, Kcpcb.outgoing]
  dsimp only
  rw [flushLoop_core]
  rfl

theorem Outgoing.Couples.flush {k : Kcpcb} (h : k.outgoing.Couples a) :
    ∃ a', Numbers a k (Ikcp.flush k).1 a' := by
  apply @flush_keeps (fun s => ∃ a', Numbers a k s a') ?_ ?_ ?_ ?_ k
    ⟨a, Numbers.refl h⟩
  · rintro s ⟨a', hs⟩
    exact ⟨a', hs.sends, hs.couples, hs.frames⟩
  · rintro s cwnd wnd newseg rest hqueue - - ⟨a', hs⟩
    have hnumber := @Outgoing.Couples.number a' s.outgoing
      (numbered s wnd newseg).core hs.couples rfl
    refine ⟨_, hs.sends.trans (SelectiveRepeat.sends_number a' newseg.frame),
      ?_, ?_⟩
    · rw [Kcpcb.outgoing]
      dsimp only
      rw [List.map_append]
      exact hnumber
    · have hframes := hs.frames
      rw [hqueue, List.map_cons] at hframes
      rw [← hframes]
      show a'.log ++ [newseg.frame] ++ rest.map Seg.frame = _
      rw [List.append_assoc]
      rfl
  · rintro s wnd w ⟨a', hs⟩
    exact ⟨a', hs.sends, (flushData_outgoing s wnd w) ▸ hs.couples, hs.frames⟩
  · rintro s cwnd change lost ⟨a', hs⟩
    exact ⟨a', hs.sends, hs.couples, hs.frames⟩

end Sending

section Input

variable {taken : List Frame} {a b : SelectiveRepeat Frame}

/-- What a segment on the wire says is true: it carries a numbered frame, or
acknowledges one that has arrived, and all frames in front of `una` have been
delivered.  The sender of the segment sends in `out` and receives in `inc`. -/
structure Tells (conv : UInt32) (out inc : SelectiveRepeat Frame) (s : Seg) :
    Prop where
  conv_eq : s.conv = conv
  valid : validCmd s.cmd
  frg_lt : s.frg.toNat < 2 ^ 8
  push : s.cmd = CMD_PUSH →
    ∃ i, s.sn = UInt32.ofNat i ∧ out.log[i]? = some s.frame
  ack : s.cmd = CMD_ACK → ∃ i, s.sn = UInt32.ofNat i ∧ inc.Seen i
  una : ∃ n, n ≤ inc.delivered.length ∧ s.una = UInt32.ofNat n

/-- It stays true. -/
theorem Tells.mono {conv : UInt32} {out out' inc inc' : SelectiveRepeat Frame}
    {s : Seg} (h : Tells conv out inc s) (hout : out.Before out')
    (hinc : inc.Before inc') : Tells conv out' inc' s where
  conv_eq := h.conv_eq
  valid := h.valid
  frg_lt := h.frg_lt
  push := fun hcmd => (h.push hcmd).imp fun _ hi =>
    ⟨hi.1, hout.getElem? hi.2⟩
  ack := fun hcmd => (h.ack hcmd).imp fun _ hi => ⟨hi.1, hinc.seen_of hi.2⟩
  una := h.una.imp fun _ hn => ⟨hn.1.trans hinc.delivered.length_le, hn.2⟩

/-- What arrives is what was sent. -/
theorem Tells.received {conv : UInt32} {out inc : SelectiveRepeat Frame}
    {s : Seg} (h : Tells conv out inc s) : Tells conv out inc s.received := by
  have hcmd : s.received.cmd = s.cmd := validCmd_toUInt8 h.valid
  have hfrg : s.received.frg = s.frg := by
    have hlt := h.frg_lt
    apply UInt32.toNat_inj.mp
    show s.frg.toUInt8.toUInt32.toNat = s.frg.toNat
    rw [UInt8.toNat_toUInt32, UInt32.toNat_toUInt8]
    omega
  have hframe : s.received.frame = s.frame := by
    rw [Seg.frame, Seg.frame, hfrg]
    rfl
  refine ⟨h.conv_eq, ?_, ?_, ?_, ?_, h.una⟩
  · rw [hcmd]
    exact h.valid
  · rw [hfrg]
    exact h.frg_lt
  · rw [hcmd, hframe]
    exact h.push
  · rw [hcmd]
    exact h.ack

/-- The segment carries frame `i`. -/
def Seg.Brings (s : Seg) (i : Nat) : Prop :=
  s.cmd = CMD_PUSH ∧ s.sn = UInt32.ofNat i

/-- The block keeps both couplings with a run of its own. -/
def Kcpcb.Answers (taken : List Frame) (a b : SelectiveRepeat Frame)
    (k : Kcpcb) : Prop :=
  ∃ a' b', a.Sends a' ∧ a'.log = a.log ∧ b.Receives b' ∧
    k.outgoing.Couples a' ∧ k.recvSide.Couples taken b'

theorem outgoing_eq {k k' : Kcpcb} (h : k'.sendSide = k.sendSide) :
    k'.outgoing = k.outgoing := by
  have hnxt : k'.sndNxt = k.sndNxt := congrArg SendSide.sndNxt h
  have hbuf : k'.sndBuf = k.sndBuf := congrArg SendSide.sndBuf h
  rw [Kcpcb.outgoing, Kcpcb.outgoing, hnxt, hbuf]

theorem shrinkBuf_outgoing (k : Kcpcb) :
    (shrinkBuf k).outgoing = k.outgoing := rfl

theorem updateAck_outgoing (k : Kcpcb) (rtt : Int) :
    (updateAck k rtt).outgoing = k.outgoing := rfl

theorem ackRtt_outgoing (k : Kcpcb) (ts : UInt32) :
    (ackRtt k ts).outgoing = k.outgoing := by
  rw [ackRtt]
  split
  · exact updateAck_outgoing k _
  · rfl

theorem Outgoing.Couples.inputUna {conv : UInt32} {k : Kcpcb} {seg : Seg}
    (h : k.outgoing.Couples a) (hsafe : a.Safe) (hfresh : Fresh a)
    (hseg : Tells conv b a seg) :
    ∃ a', a.Sends a' ∧ (Ikcp.inputUna k seg).outgoing.Couples a' ∧
      a'.log = a.log := by
  obtain ⟨n, hn, huna⟩ := hseg.una
  rw [Ikcp.inputUna, shrinkBuf_outgoing, huna]
  exact @Outgoing.Couples.parseUna a { k with rmtWnd := seg.wnd } n h hsafe
    hfresh hn

theorem Outgoing.Couples.inputAck {k : Kcpcb} {seg : Seg} {i : Nat}
    (h : k.outgoing.Couples a) (hsafe : a.Safe) (hfresh : Fresh a)
    (hsn : seg.sn = UInt32.ofNat i) (hseen : a.Seen i) :
    ∃ a', a.Sends a' ∧ (Ikcp.inputAck k seg).outgoing.Couples a' ∧
      a'.log = a.log := by
  rw [Ikcp.inputAck, shrinkBuf_outgoing, hsn]
  have hrtt := ackRtt_outgoing k seg.ts
  generalize ackRtt k seg.ts = k' at hrtt
  rw [← hrtt] at h
  exact h.parseAck hsafe hfresh hseen

theorem inputSeg_push {k : Kcpcb} {maxack : Option UInt32} {seg : Seg}
    (hcmd : seg.cmd = CMD_PUSH) :
    (inputSeg k maxack seg).1 = inputPush (inputUna k seg) seg := by
  rw [inputSeg, if_neg (by rw [hcmd]; decide), if_pos hcmd]

/-- One segment that arrives is a run of both directions. -/
theorem Kcpcb.Answers.inputSeg {conv : UInt32} {k : Kcpcb}
    {maxack : Option UInt32} {seg : Seg} (hout : k.outgoing.Couples a)
    (hinc : k.recvSide.Couples taken b) (hsafe : a.Safe ∧ b.Safe)
    (hfresh : Fresh a ∧ Fresh b) (hseg : Tells conv b a seg) :
    ∃ b', b.Receives b' ∧
      (∀ i < 2 ^ 31, seg.Brings i →
        k.Takes (Ikcp.inputSeg k maxack seg).1 b b' i) ∧
      (Ikcp.inputSeg k maxack seg).1.Answers taken a b' := by
  have hrefl := SelectiveRepeat.Receives.refl b
  obtain ⟨a', hrun, hout', hlog⟩ :=
    hout.inputUna hsafe.1 hfresh.1 hseg
  rw [← inputUna_recvSide k seg] at hinc
  by_cases hcmd : seg.cmd = CMD_PUSH
  · obtain ⟨i, hsn, hpush⟩ := hseg.push hcmd
    have hi : i < 2 ^ 31 := Nat.lt_trans (lt_of_log hpush) hfresh.2
    obtain ⟨b', hrun', hseen, b'', hrun'', hinc'⟩ :=
      Kcpcb.Follows.inputPush hsafe.2 hfresh.2 hinc hsn hpush
    have hsend := outgoing_eq (inputPush_sendSide (inputUna k seg) seg)
    rw [inputSeg_push hcmd]
    refine ⟨b', hrun', ?_, a', b'', hrun, hlog, hrun'', hsend ▸ hout', hinc'⟩
    intro j hj hbrings hadmits
    obtain rfl := ofNat_inj hj hi (hbrings.2.symm.trans hsn)
    refine ⟨hseen hadmits, fun hnear => ?_⟩
    have hle := delivered_le hsafe.2
    have hwindow := @RecvSide.Couples.inWindow taken b (inputUna k seg) j hinc
      hadmits (Nat.le_trans (Nat.add_le_add_right hle _) hnear)
    rw [← hsn] at hwindow ⊢
    exact inputPush_owes hwindow
  · refine ⟨b, hrefl, fun i _ hbrings => absurd hbrings.1 hcmd, ?_⟩
    apply @inputSeg_keeps (Kcpcb.Answers taken a b)
    · intro hack
      obtain ⟨i, hsn, hseen⟩ := hseg.ack hack
      have hfresh' : Fresh a' := by
        rw [Fresh, hlog]
        exact hfresh.1
      obtain ⟨a'', hrun', hout'', hlog'⟩ := hout'.inputAck
        (hsafe.1.steps hrun.steps) hfresh' hsn
        (hrun.steps.before.seen_of hseen)
      exact ⟨a'', b, hrun.trans hrun', hlog'.trans hlog, hrefl, hout'',
        (inputAck_recvSide (inputUna k seg) seg) ▸ hinc⟩
    · exact fun hpush => absurd hpush hcmd
    · exact fun _ => ⟨a', b, hrun, hlog, hrefl, hout', hinc⟩

theorem parseData_rcvWnd (k : Kcpcb) (seg : Seg) :
    (parseData k seg).inbox.rcvWnd = k.inbox.rcvWnd := by
  have hmove : ∀ s : Kcpcb,
      (moveAvailable s).inbox.rcvWnd = s.inbox.rcvWnd := fun s =>
    @moveAvailable_keeps (fun t => t.inbox.rcvWnd = s.inbox.rcvWnd)
      (fun _ _ _ _ _ _ h => h) s rfl
  rw [parseData]
  split
  · rfl
  · split
    · exact hmove _
    · exact hmove k

theorem inputPush_rcvWnd (k : Kcpcb) (seg : Seg) :
    (inputPush k seg).inbox.rcvWnd = k.inbox.rcvWnd := by
  rw [inputPush]
  split
  · dsimp only
    split
    · exact parseData_rcvWnd _ seg
    · rfl
  · rfl

theorem inputSeg_rcvWnd (k : Kcpcb) (maxack : Option UInt32) (seg : Seg) :
    (inputSeg k maxack seg).1.inbox.rcvWnd = k.inbox.rcvWnd := by
  have huna := congrArg Inbox.rcvWnd (inputUna_inbox k seg)
  apply @inputSeg_keeps (fun s => s.inbox.rcvWnd = k.inbox.rcvWnd)
  · intro _
    rwa [inputAck_inbox]
  · exact fun _ => (inputPush_rcvWnd _ seg).trans huna
  · exact fun _ => huna

theorem Kcpcb.Answers.inputSegs {conv : UInt32} {k : Kcpcb}
    {maxack : Option UInt32} {segs : List Seg}
    (hsafe : a.Safe ∧ b.Safe) (hfresh : Fresh a ∧ Fresh b)
    (hsegs : ∀ s ∈ segs, Tells conv b a s) (h : k.Answers taken a b) :
    ∃ b', b.Receives b' ∧ (∀ i < 2 ^ 31, (∃ s ∈ segs, s.Brings i) →
        k.Takes (Ikcp.inputSegs k maxack segs).1 b b' i) ∧
      (Ikcp.inputSegs k maxack segs).1.Answers taken a b' := by
  induction segs generalizing k maxack a b with
  | nil =>
      refine ⟨b, SelectiveRepeat.Receives.refl b, ?_, h⟩
      rintro i - ⟨s, hs, -⟩
      exact absurd hs List.not_mem_nil
  | cons seg rest ih =>
      obtain ⟨hseg, hrest⟩ := List.forall_mem_cons.mp hsegs
      obtain ⟨a₁, b₁, ha, hlog, hb, hout, hinc⟩ := h
      have hfresh₁ : Fresh a₁ ∧ Fresh b₁ := by
        rw [Fresh, Fresh, hlog, hb.log]
        exact hfresh
      have hsafe₁ := And.intro (hsafe.1.steps ha.steps)
        (hsafe.2.steps hb.steps)
      obtain ⟨b₂, hb₂, hhead, hanswers⟩ :=
        @Kcpcb.Answers.inputSeg taken a₁ b₁ conv k maxack seg hout hinc
          hsafe₁ hfresh₁ (hseg.mono hb.steps.before ha.steps.before)
      have hrun := hb.trans hb₂
      have hfresh₂ : Fresh a₁ ∧ Fresh b₂ := by
        rw [Fresh, Fresh, hlog, hrun.log]
        exact hfresh
      obtain ⟨b₃, hb₃, htail, a', b', ha', hlog', hb', hout', hinc'⟩ :=
        @ih a₁ b₂ (Ikcp.inputSeg k maxack seg).1 (Ikcp.inputSeg k maxack seg).2
          ⟨hsafe₁.1, hsafe.2.steps hrun.steps⟩ hfresh₂
          (fun s hs => (hrest s hs).mono hrun.steps.before ha.steps.before)
          hanswers
      refine ⟨b₃, hrun.trans hb₃, ?_, a', b', ha.trans ha', hlog'.trans hlog,
        hb', hout', hinc'⟩
      rintro i hi ⟨s, hs, hbrings⟩
      rcases List.mem_cons.mp hs with rfl | hs
      · exact ((hhead i hi hbrings).of_later rfl hb).keep
          (fun _ howes => howes.inputSegs _ rest) hb₃.steps.before
      · exact (htail i hi ⟨s, hs, hbrings⟩).of_later
          (inputSeg_rcvWnd k maxack seg) hrun

theorem parseFastack_outgoing (k : Kcpcb) (sn : UInt32) :
    (parseFastack k sn).outgoing = k.outgoing := by
  rw [parseFastack]
  split
  · rfl
  · rw [Kcpcb.outgoing]
    dsimp only
    rw [fastackLoop_core]
    rfl

theorem Kcpcb.Answers.inputEnd {k : Kcpcb} (h : k.Answers taken a b)
    (una : UInt32) (maxack : Option UInt32) :
    (Ikcp.inputEnd una k maxack).Answers taken a b := by
  apply @inputEnd_keeps (fun s => s.Answers taken a b)
  · intro s sn hs
    rw [Kcpcb.Answers, parseFastack_outgoing, parseFastack_recvSide]
    exact hs
  · exact fun _ hs => hs
  · exact h

/-- A datagram of the peer, however old, is a run of both directions; a frame
that it carries has arrived then, if there was room for it. -/
theorem Kcpcb.Answers.input {k : Kcpcb} {segs : List Seg}
    (hout : k.outgoing.Couples a) (hinc : k.recvSide.Couples taken b)
    (hsafe : a.Safe ∧ b.Safe) (hfresh : Fresh a ∧ Fresh b) (hne : segs ≠ [])
    (hsegs : ∀ s ∈ segs, Tells k.conv b a s) :
    ∃ b', b.Receives b' ∧ (∀ i < 2 ^ 31, (∃ s ∈ segs, s.Brings i) →
        k.Takes (Ikcp.input k (segs.flatMap Seg.wire)).2 b b' i) ∧
      (Ikcp.input k (segs.flatMap Seg.wire)).2.Answers taken a b' := by
  have hvalid : ∀ s ∈ segs, s.conv = k.conv ∧ validCmd s.cmd :=
    fun s hs => ⟨(hsegs s hs).conv_eq, (hsegs s hs).valid⟩
  have hreceived : ∀ s ∈ segs.map Seg.received, Tells k.conv b a s := by
    intro s hs
    obtain ⟨sent, hsent, rfl⟩ := List.mem_map.mp hs
    exact (hsegs sent hsent).received
  obtain ⟨b', hrun, hseen, hanswers⟩ :=
    @Kcpcb.Answers.inputSegs taken a b k.conv k none _ hsafe hfresh hreceived
      ⟨a, b, SelectiveRepeat.Sends.refl a, rfl, SelectiveRepeat.Receives.refl b,
        hout, hinc⟩
  rw [input_wire hne hvalid]
  refine ⟨b', hrun, ?_, hanswers.inputEnd _ _⟩
  rintro i hi ⟨s, hs, hcmd, hsn⟩
  have htakes := hseen i hi ⟨s.received, List.mem_map_of_mem hs,
    (validCmd_toUInt8 (hvalid s hs).2).trans hcmd, hsn⟩
  exact htakes.keep (fun _ howes => howes.inputEnd _ _)
    (SelectiveRepeat.Before.refl b')

end Input

section Output

variable {conv : UInt32} {taken : List Frame} {a a' b : SelectiveRepeat Frame}

/-- Everything that a flush sends is true. -/
theorem Flushed.tells {k : Kcpcb} {s : Seg} (h : Flushed k s)
    (hformed : k.sending.Formed conv)
    (hout : (flush k).1.outgoing.Couples a')
    (hinc : k.recvSide.Couples taken b) : Tells conv a' b s := by
  obtain ⟨hconv, hvalid, hfrg⟩ := h.valid hformed
  have hrcv : k.rcvNxt = UInt32.ofNat b.delivered.length := hinc.nxt
  refine ⟨hconv, hvalid, hfrg, ?_, ?_, _, Nat.le_refl _, h.una_eq.trans hrcv⟩
  · intro hcmd
    rcases h.kind with hbuf | ⟨-, -, -, ⟨hack, -⟩ | hwask | hwins⟩
    · exact hout.buf s.core hbuf
    · exact absurd (hcmd.symm.trans hack) (by decide)
    · exact absurd (hcmd.symm.trans hwask) (by decide)
    · exact absurd (hcmd.symm.trans hwins) (by decide)
  · intro hcmd
    rcases h.kind with hbuf | ⟨-, -, -, ⟨-, hmem⟩ | hwask | hwins⟩
    · obtain ⟨-, hpush, -⟩ := (hformed.leads (flush_leads k)).buf _ hbuf
      have hpush' : s.cmd = CMD_PUSH := hpush
      exact absurd (hcmd.symm.trans hpush') (by decide)
    · exact hinc.acks _ hmem
    · exact absurd (hcmd.symm.trans hwask) (by decide)
    · exact absurd (hcmd.symm.trans hwins) (by decide)

/-- The datagrams in flight. -/
def Carried (conv : UInt32) (out inc : SelectiveRepeat Frame)
    (d : List UInt8) : Prop :=
  ∃ segs : List Seg, segs ≠ [] ∧ d = segs.flatMap Seg.wire ∧
    ∀ s ∈ segs, Tells conv out inc s

theorem Carried.mono {out out' inc inc' : SelectiveRepeat Frame}
    {d : List UInt8} (h : Carried conv out inc d) (hout : out.Before out')
    (hinc : inc.Before inc') : Carried conv out' inc' d := by
  obtain ⟨segs, hne, hd, hsegs⟩ := h
  exact ⟨segs, hne, hd, fun s hs => (hsegs s hs).mono hout hinc⟩

theorem flush_carried {k : Kcpcb} (hformed : k.sending.Formed conv)
    (hout : (flush k).1.outgoing.Couples a')
    (hinc : k.recvSide.Couples taken b) :
    ∀ d ∈ (flush k).2, Carried conv a' b d := by
  intro d hd
  obtain ⟨segs, hne, -, rfl, hsegs⟩ := flush_datagram hd
  exact ⟨segs, hne, rfl, fun s hs => (hsegs s hs).tells hformed hout hinc⟩

/-- All that a flush outputs, together. -/
theorem flush_told {k : Kcpcb} (hup : k.updated ≠ 0)
    (hformed : k.sending.Formed conv)
    (hout : (flush k).1.outgoing.Couples a')
    (hinc : k.recvSide.Couples taken b) :
    ∃ groups : List (List Seg), (flush k).2 = groups.map (·.flatMap Seg.wire) ∧
      groups.flatten = flushSegs k ∧
      ∀ g ∈ groups, g ≠ [] ∧ ∀ t ∈ g, Tells conv a' b t := by
  obtain ⟨groups, hwire, hsegs, hgroups⟩ := flush_carries hup
  refine ⟨groups, hwire, hsegs, fun g hg => ⟨(hgroups g hg).1, fun t ht => ?_⟩⟩
  have hmem : t ∈ flushSegs k := by
    rw [← hsegs]
    exact List.mem_flatten_of_mem hg ht
  exact (flushSegs_flushed hup hmem).tells hformed hout hinc

end Output

end Ikcp

end Libsaf
