/-
The windows of the ARQ.  Whatever the application calls and whatever bytes the
network hands in, the segments in flight lie in ascending order between
`snd_una` and `snd_nxt`, the segments received out of order lie in ascending
order from `rcv_nxt`, and every counter counts its queue.
-/
import Libsaf.IkcpFlush

namespace Libsaf

namespace Ikcp

/-- The `n` sequence numbers in front of `nxt`. -/
def endingAt (nxt : UInt32) : Nat → List UInt32
  | 0 => []
  | n + 1 => (nxt - UInt32.ofNat (n + 1)) :: endingAt nxt n

theorem endingAt_append (nxt : UInt32) (n : Nat) :
    endingAt nxt n ++ [nxt] = endingAt (nxt + 1) (n + 1) := by
  have hback : ∀ n, nxt + 1 - UInt32.ofNat (n + 1) = nxt - UInt32.ofNat n := by
    intro n
    rw [UInt32.ofNat_add]
    grind
  induction n with
  | zero =>
      have h := hback 0
      simp only [endingAt, List.nil_append]
      rw [h]
      simp
  | succ n ih =>
      rw [endingAt, List.cons_append, ih, ← hback (n + 1)]
      rfl

/-- The part of the block that stores segments and counts them. -/
structure Windows where
  sndUna : UInt32
  sndNxt : UInt32
  rcvNxt : UInt32
  rcvWnd : UInt32
  rmtWnd : UInt32
  nsndBuf : UInt32
  nsndQue : UInt32
  nrcvBuf : UInt32
  nrcvQue : UInt32
  sndBuf : List Seg
  sndQueue : List Seg
  rcvBuf : List Seg
  rcvQueue : List Seg
  acks : Nat
  ackblock : Nat

def Kcpcb.windows (k : Kcpcb) : Windows :=
  { sndUna := k.sndUna
    sndNxt := k.sndNxt
    rcvNxt := k.rcvNxt
    rcvWnd := k.rcvWnd
    rmtWnd := k.rmtWnd
    nsndBuf := k.nsndBuf
    nsndQue := k.nsndQue
    nrcvBuf := k.nrcvBuf
    nrcvQue := k.nrcvQue
    sndBuf := k.sndBuf
    sndQueue := k.sndQueue
    rcvBuf := k.rcvBuf
    rcvQueue := k.rcvQueue
    acks := k.acklist.length
    ackblock := k.ackblock }

/-- What holds of the windows at any time.  The bounds come from the widths of
the fields: the window that a peer tells has 16 bits, the own one is a positive
`int`. -/
structure Windows.Sound (w : Windows) : Prop where
  sent : Ascending w.sndUna (ahead w.sndUna w.sndNxt) (w.sndBuf.map Seg.sn)
  sent_width : ahead w.sndUna w.sndNxt < 2 ^ 16
  rmtWnd_lt : w.rmtWnd.toNat < 2 ^ 16
  buffered : Ascending w.rcvNxt (2 ^ 31) (w.rcvBuf.map Seg.sn)
  queued : w.rcvQueue.map Seg.sn = endingAt w.rcvNxt w.rcvQueue.length
  rcvWnd_lt : w.rcvWnd.toNat < 2 ^ 31
  rcvQueue_lt : w.rcvQueue.length < 2 ^ 31
  nsndBuf_eq : w.nsndBuf = UInt32.ofNat w.sndBuf.length
  nsndQue_eq : w.nsndQue = UInt32.ofNat w.sndQueue.length
  nrcvBuf_eq : w.nrcvBuf = UInt32.ofNat w.rcvBuf.length
  nrcvQue_eq : w.nrcvQue = UInt32.ofNat w.rcvQueue.length
  acks_le : w.acks ≤ w.ackblock

/-- `snd_una` is the first segment that is not acknowledged. -/
def Windows.Oldest (w : Windows) : Prop :=
  w.sndUna = firstSn w.sndNxt w.sndBuf

theorem create_sound (conv : UInt32) :
    (create conv).windows.Sound ∧ (create conv).windows.Oldest := by
  refine ⟨⟨.nil, ?_, ?_, .nil, rfl, ?_, ?_, rfl, rfl, rfl, rfl, ?_⟩, rfl⟩
  · change ahead 0 0 < 2 ^ 16
    decide
  · change WND_RCV.toNat < 2 ^ 16
    decide
  · change WND_RCV.toNat < 2 ^ 31
    decide
  · exact Nat.two_pow_pos 31
  · exact Nat.le_refl 0

section Receive

theorem ofNat_succ_sub_one (n : Nat) :
    UInt32.ofNat (n + 1) - 1 = UInt32.ofNat n := by
  rw [UInt32.ofNat_add]
  grind

theorem ofNat_succ (n : Nat) : UInt32.ofNat n + 1 = UInt32.ofNat (n + 1) := by
  rw [UInt32.ofNat_add]
  rfl

/-- A segment that is next moves to the queue. -/
theorem Windows.Sound.move {k : Kcpcb} {seg : Seg} {rest : List Seg}
    (hbuf : k.rcvBuf = seg :: rest) (hsn : seg.sn = k.rcvNxt)
    (hroom : k.nrcvQue < k.rcvWnd) (h : k.windows.Sound) :
    { k with
        rcvBuf := rest
        nrcvBuf := k.nrcvBuf - 1
        rcvQueue := k.rcvQueue ++ [seg]
        nrcvQue := k.nrcvQue + 1
        rcvNxt := k.rcvNxt + 1 : Kcpcb }.windows.Sound := by
  have hbuffered : Ascending k.rcvNxt (2 ^ 31) (k.rcvNxt :: rest.map Seg.sn) := by
    have := h.buffered
    simpa [Kcpcb.windows, hbuf, hsn] using this
  have hone : ahead k.rcvNxt (k.rcvNxt + 1) = 1 := by
    have := @ahead_add_one k.rcvNxt k.rcvNxt (by simp)
    simpa using this
  have hlater : ∀ x ∈ rest.map Seg.sn,
      ahead k.rcvNxt (k.rcvNxt + 1) ≤ ahead k.rcvNxt x := by
    intro x hx
    have := List.rel_of_pairwise_cons hbuffered.sorted hx
    rw [ahead_self] at this
    omega
  have hlen : k.rcvQueue.length + 1 < 2 ^ 31 := by
    have hnrcv : k.nrcvQue = UInt32.ofNat k.rcvQueue.length := h.nrcvQue_eq
    have hlt : k.rcvQueue.length < 2 ^ 31 := h.rcvQueue_lt
    have hwnd : k.rcvWnd.toNat < 2 ^ 31 := h.rcvWnd_lt
    have hroom' := UInt32.lt_iff_toNat_lt.mp hroom
    rw [hnrcv, UInt32.toNat_ofNat', Nat.mod_eq_of_lt (by omega)] at hroom'
    omega
  refine { h with
    buffered := ?_, queued := ?_, rcvQueue_lt := ?_, nrcvBuf_eq := ?_,
    nrcvQue_eq := ?_ }
  · exact ((hbuffered.sublist (List.sublist_cons_self _ _)).rebase hlater).mono
      (Nat.sub_le _ _)
  · have hqueued : k.rcvQueue.map Seg.sn = _ := h.queued
    show (k.rcvQueue ++ [seg]).map Seg.sn =
      endingAt (k.rcvNxt + 1) (k.rcvQueue ++ [seg]).length
    rw [List.map_append, hqueued, List.length_append, List.length_singleton,
      ← endingAt_append, List.map_singleton, hsn]
    rfl
  · show (k.rcvQueue ++ [seg]).length < 2 ^ 31
    simpa using hlen
  · have hcount : k.nrcvBuf = UInt32.ofNat k.rcvBuf.length := h.nrcvBuf_eq
    show k.nrcvBuf - 1 = UInt32.ofNat rest.length
    rw [hcount, hbuf, List.length_cons, ofNat_succ_sub_one]
  · have hcount : k.nrcvQue = UInt32.ofNat k.rcvQueue.length := h.nrcvQue_eq
    show k.nrcvQue + 1 = UInt32.ofNat (k.rcvQueue ++ [seg]).length
    rw [hcount, List.length_append, List.length_singleton, ofNat_succ]

/-- A new segment gets a place in the order. -/
theorem Windows.Sound.insert {k : Kcpcb} {newseg : Seg} {rcvBuf : List Seg}
    (hnew : 0 ≤ itimediff newseg.sn k.rcvNxt)
    (hloop : insertLoop newseg k.rcvBuf.reverse = some rcvBuf)
    (h : k.windows.Sound) :
    { k with
        rcvBuf := rcvBuf.reverse
        nrcvBuf := k.nrcvBuf + 1 : Kcpcb }.windows.Sound := by
  obtain ⟨back, front, hbuf, rfl, hback, hfront⟩ := insertLoop_some hloop
  have hold : k.rcvBuf = front.reverse ++ back.reverse := by
    rw [← List.reverse_append, ← hbuf, List.reverse_reverse]
  have hbuffered : Ascending k.rcvNxt (2 ^ 31)
      (front.reverse.map Seg.sn ++ back.reverse.map Seg.sn) := by
    have hall : Ascending k.rcvNxt (2 ^ 31) (k.rcvBuf.map Seg.sn) := h.buffered
    rwa [hold, List.map_append] at hall
  have hahead : ahead k.rcvNxt newseg.sn < 2 ^ 31 :=
    serialDiff_nonneg_iff.mp hnew
  -- Both numbers lie in the half circle ahead of `rcv_nxt`.
  have hdiff : ∀ s ∈ k.rcvBuf, itimediff newseg.sn s.sn =
      (ahead k.rcvNxt newseg.sn : Int) - ahead k.rcvNxt s.sn := by
    intro s hs
    have hs' : ahead k.rcvNxt s.sn < 2 ^ 31 :=
      h.buffered.below s.sn (List.mem_map_of_mem hs)
    exact serialDiff_of_ahead k.rcvNxt (by omega) (by omega)
  refine { h with buffered := ?_, nrcvBuf_eq := ?_ }
  · have hnewbuf : (back ++ newseg :: front).reverse.map Seg.sn =
        front.reverse.map Seg.sn ++ newseg.sn :: back.reverse.map Seg.sn := by
      simp
    show Ascending k.rcvNxt (2 ^ 31) ((back ++ newseg :: front).reverse.map _)
    rw [hnewbuf]
    refine hbuffered.insert hahead ?_ ?_
    · intro y hy
      rw [List.map_reverse, List.getLast?_reverse, List.head?_map,
        Option.map_eq_some_iff] at hy
      obtain ⟨s, hs, rfl⟩ := hy
      have hmem : s ∈ k.rcvBuf := by
        rw [hold]
        exact List.mem_append_left _
          (List.mem_reverse.mpr (List.mem_of_head? hs))
      have hlt := hfront s hs
      rw [hdiff s hmem] at hlt
      omega
    · intro y hy
      obtain ⟨s, hs, rfl⟩ := List.mem_map.mp hy
      have hmem : s ∈ k.rcvBuf := by
        rw [hold]
        exact List.mem_append_right _ hs
      obtain ⟨hne, hle⟩ := hback s (List.mem_reverse.mp hs)
      rw [hdiff s hmem] at hle
      have hne' : ahead k.rcvNxt s.sn ≠ ahead k.rcvNxt newseg.sn :=
        fun heq => hne (ahead_inj heq)
      omega
  · have hcount : k.nrcvBuf = UInt32.ofNat k.rcvBuf.length := h.nrcvBuf_eq
    show k.nrcvBuf + 1 = UInt32.ofNat (back ++ newseg :: front).reverse.length
    rw [hcount, ofNat_succ, hold]
    congr 1
    simp only [List.length_append, List.length_reverse, List.length_cons]
    omega

theorem Windows.Sound.moveAvailable {k : Kcpcb} (h : k.windows.Sound) :
    (Ikcp.moveAvailable k).windows.Sound :=
  @moveAvailable_keeps (fun k => k.windows.Sound)
    (fun _ _ _ hbuf hsn hroom h => h.move hbuf hsn hroom) k h

theorem Windows.Sound.parseData {k : Kcpcb} {newseg : Seg}
    (h : k.windows.Sound) : (Ikcp.parseData k newseg).windows.Sound := by
  rw [Ikcp.parseData]
  split
  · exact h
  · next hin =>
      rw [not_or] at hin
      split
      · next rcvBuf hloop =>
          exact (h.insert (Int.not_lt.mp hin.2) hloop).moveAvailable
      · exact h.moveAvailable

theorem endingAt_drop (nxt : UInt32) (n m : Nat) :
    (endingAt nxt n).drop m = endingAt nxt (n - m) := by
  induction m generalizing n with
  | zero => rfl
  | succ m ih =>
      cases n with
      | zero => simp [endingAt]
      | succ n =>
          rw [endingAt, List.drop_succ_cons, ih, Nat.succ_sub_succ]

theorem Windows.Sound.takeMessage {k : Kcpcb} (h : k.windows.Sound)
    (ispeek : Bool) : (Ikcp.takeMessage k ispeek).windows.Sound := by
  rw [Ikcp.takeMessage]
  split
  · exact h
  · have hqueued : k.rcvQueue.map Seg.sn =
        endingAt k.rcvNxt k.rcvQueue.length := h.queued
    have hlt : k.rcvQueue.length < 2 ^ 31 := h.rcvQueue_lt
    have hcount : k.nrcvQue = UInt32.ofNat k.rcvQueue.length := h.nrcvQue_eq
    have hle := (prefix_firstMessage k.rcvQueue).length_le
    refine { h with queued := ?_, rcvQueue_lt := ?_, nrcvQue_eq := ?_ }
    · show (k.rcvQueue.drop _).map Seg.sn =
        endingAt k.rcvNxt (k.rcvQueue.drop _).length
      rw [List.map_drop, hqueued, endingAt_drop, List.length_drop]
    · show (k.rcvQueue.drop _).length < 2 ^ 31
      rw [List.length_drop]
      omega
    · show k.nrcvQue - _ = UInt32.ofNat (k.rcvQueue.drop _).length
      rw [hcount, List.length_drop, UInt32.ofNat_sub hle]

theorem Windows.Sound.recv {k : Kcpcb} (h : k.windows.Sound) (len : Int) :
    (Ikcp.recv k len).2.2.windows.Sound := by
  rcases recv_cases k len with ⟨code, _, heq⟩ | ⟨_, _, probe, heq⟩
  · rw [heq]
    exact h
  · rw [heq]
    exact (h.takeMessage (decide (len < 0))).moveAvailable

theorem le_blockLoop (fuel newblock newsize : Nat)
    (hfuel : newsize ≤ newblock + fuel) (hpos : 0 < newblock) :
    newsize ≤ blockLoop fuel newblock newsize := by
  induction fuel generalizing newblock with
  | zero => exact hfuel
  | succ fuel ih =>
      rw [blockLoop]
      split
      · exact ih (newblock * 2) (by omega) (by omega)
      · next h => exact Nat.not_lt.mp h

/-- An acknowledge is never written behind the end of its list. -/
theorem Windows.Sound.ackPush {k : Kcpcb} (h : k.windows.Sound)
    (sn ts : UInt32) : (Ikcp.ackPush k sn ts).windows.Sound := by
  have hacks : k.acklist.length ≤ k.ackblock := h.acks_le
  refine { h with acks_le := ?_ }
  show (k.acklist ++ [(sn, ts)]).length ≤
    if k.ackblock < k.acklist.length + 1 then
      blockLoop (k.acklist.length + 1) 8 (k.acklist.length + 1)
    else k.ackblock
  rw [List.length_append, List.length_singleton]
  split
  · exact le_blockLoop _ _ _ (by omega) (by omega)
  · next hroom => exact Nat.not_lt.mp hroom

theorem Windows.Sound.inputPush {k : Kcpcb} {seg : Seg}
    (h : k.windows.Sound) : (Ikcp.inputPush k seg).windows.Sound := by
  rw [Ikcp.inputPush]
  split
  · dsimp only
    split
    · exact (h.ackPush seg.sn seg.ts).parseData
    · exact h.ackPush seg.sn seg.ts
  · exact h

end Receive

section Send

/-- Fewer segments in flight. -/
theorem Windows.Sound.settle {k : Kcpcb} {kept : List Seg} {n : UInt32}
    (h : k.windows.Sound) (hkept : kept.Sublist k.sndBuf)
    (hn : n = UInt32.ofNat kept.length) :
    { k with sndBuf := kept, nsndBuf := n : Kcpcb }.windows.Sound :=
  { h with
    sent := h.sent.sublist (hkept.map Seg.sn)
    nsndBuf_eq := hn }

theorem Windows.Sound.parseUna {k : Kcpcb} (h : k.windows.Sound)
    (una : UInt32) : (Ikcp.parseUna k una).windows.Sound := by
  apply @parseUna_keeps (fun k => k.windows.Sound) una ?_ k h
  intro k seg rest hbuf _ h
  have hcount : k.nsndBuf = UInt32.ofNat k.sndBuf.length := h.nsndBuf_eq
  apply h.settle
  · rw [hbuf]
    exact List.sublist_cons_self seg rest
  · rw [hcount, hbuf, List.length_cons, ofNat_succ_sub_one]

/-- The search for an acknowledged segment takes one segment out, the one with
the number, or none. -/
theorem ackLoop_cases (sn : UInt32) (buf : List Seg) :
    (ackLoop sn buf = (false, buf)) ∨
    ∃ front seg back, buf = front ++ seg :: back ∧ seg.sn = sn ∧
      ackLoop sn buf = (true, front ++ back) := by
  induction buf with
  | nil => exact Or.inl rfl
  | cons seg rest ih =>
      rw [ackLoop]
      by_cases hsn : sn = seg.sn
      · rw [if_pos hsn]
        exact Or.inr ⟨[], seg, rest, rfl, hsn.symm, rfl⟩
      · rw [if_neg hsn]
        by_cases hlt : itimediff sn seg.sn < 0
        · rw [if_pos hlt]
          exact Or.inl rfl
        · rw [if_neg hlt]
          rcases ih with heq | ⟨front, found, back, hrest, hfound, heq⟩
          · exact Or.inl (by rw [heq])
          · refine Or.inr ⟨seg :: front, found, back, by rw [hrest]; rfl,
              hfound, ?_⟩
            rw [heq]
            rfl

theorem Windows.Sound.parseAck {k : Kcpcb} (h : k.windows.Sound)
    (sn : UInt32) : (Ikcp.parseAck k sn).windows.Sound := by
  rw [Ikcp.parseAck]
  split
  · exact h
  · have hcount : k.nsndBuf = UInt32.ofNat k.sndBuf.length := h.nsndBuf_eq
    rcases ackLoop_cases sn k.sndBuf with heq | ⟨front, seg, back, hbuf, _, heq⟩
    · rw [heq]
      exact h
    · rw [heq]
      apply h.settle
      · rw [hbuf]
        exact (List.sublist_cons_self seg back).append_left front
      · rw [if_pos rfl, hcount, hbuf, List.length_append, List.length_cons,
          ← Nat.add_assoc, ofNat_succ_sub_one, List.length_append]

/-- The window starts at the first segment that is left. -/
theorem Windows.Sound.shrinkBuf {k : Kcpcb} (h : k.windows.Sound) :
    (Ikcp.shrinkBuf k).windows.Sound ∧ (Ikcp.shrinkBuf k).windows.Oldest := by
  have hsent : Ascending k.sndUna (ahead k.sndUna k.sndNxt)
      (k.sndBuf.map Seg.sn) := h.sent
  have hwidth : ahead k.sndUna k.sndNxt < 2 ^ 16 := h.sent_width
  have hfirst : Ascending (firstSn k.sndNxt k.sndBuf)
      (ahead (firstSn k.sndNxt k.sndBuf) k.sndNxt) (k.sndBuf.map Seg.sn) ∧
      ahead (firstSn k.sndNxt k.sndBuf) k.sndNxt < 2 ^ 16 := by
    cases hbuf : k.sndBuf with
    | nil =>
        refine ⟨.nil, ?_⟩
        rw [firstSn, ahead_self]
        exact Nat.two_pow_pos 16
    | cons seg rest =>
        rw [hbuf, List.map_cons] at hsent
        have hnxt : ahead k.sndUna seg.sn ≤ ahead k.sndUna k.sndNxt :=
          Nat.le_of_lt (hsent.below seg.sn List.mem_cons_self)
        have hdist : ahead seg.sn k.sndNxt =
            ahead k.sndUna k.sndNxt - ahead k.sndUna seg.sn :=
          ahead_rebase hnxt
        rw [firstSn, hdist]
        exact ⟨hsent.rebase hsent.head_le, by omega⟩
  exact ⟨{ h with sent := hfirst.1, sent_width := hfirst.2 }, rfl⟩

/-- A segment is numbered when it moves to `snd_buf`. -/
theorem Windows.Sound.number {k : Kcpcb} {cwnd wnd : UInt32} {newseg : Seg}
    {rest : List Seg} (hqueue : k.sndQueue = newseg :: rest)
    (hcwnd : cwnd ≤ k.rmtWnd) (hlt : itimediff k.sndNxt (k.sndUna + cwnd) < 0)
    (h : k.windows.Sound) :
    { k with
        sndQueue := rest
        sndBuf := k.sndBuf ++ [numbered k wnd newseg]
        nsndQue := k.nsndQue - 1
        nsndBuf := k.nsndBuf + 1
        sndNxt := k.sndNxt + 1 : Kcpcb }.windows.Sound := by
  have hsent : Ascending k.sndUna (ahead k.sndUna k.sndNxt)
      (k.sndBuf.map Seg.sn) := h.sent
  have hwidth : ahead k.sndUna k.sndNxt < 2 ^ 16 := h.sent_width
  have hrmt : k.rmtWnd.toNat < 2 ^ 16 := h.rmtWnd_lt
  have hcwnd' := UInt32.le_iff_toNat_le.mp hcwnd
  have hend : ahead k.sndUna (k.sndUna + cwnd) = cwnd.toNat := by
    have := @ahead_add k.sndUna k.sndUna cwnd (by rw [ahead_self]; omega)
    rwa [ahead_self, Nat.zero_add] at this
  have hroom : ahead k.sndUna k.sndNxt < cwnd.toNat := by
    have hdiff : itimediff k.sndNxt (k.sndUna + cwnd) =
        (ahead k.sndUna k.sndNxt : Int) - ahead k.sndUna (k.sndUna + cwnd) :=
      serialDiff_of_ahead k.sndUna (by omega) (by omega)
    rw [hdiff, hend] at hlt
    omega
  have hnext : ahead k.sndUna (k.sndNxt + 1) = ahead k.sndUna k.sndNxt + 1 :=
    ahead_add_one (by omega)
  refine { h with
    sent := ?_, sent_width := ?_, nsndBuf_eq := ?_, nsndQue_eq := ?_ }
  · show Ascending k.sndUna (ahead k.sndUna (k.sndNxt + 1))
      ((k.sndBuf ++ [numbered k wnd newseg]).map Seg.sn)
    rw [List.map_append]
    exact hsent.append (Nat.le_refl _) (by rw [hnext]; exact Nat.lt_succ_self _)
  · show ahead k.sndUna (k.sndNxt + 1) < 2 ^ 16
    omega
  · have hcount : k.nsndBuf = UInt32.ofNat k.sndBuf.length := h.nsndBuf_eq
    show k.nsndBuf + 1 = UInt32.ofNat (k.sndBuf ++ [_]).length
    rw [hcount, ofNat_succ, List.length_append, List.length_singleton]
  · have hcount : k.nsndQue = UInt32.ofNat k.sndQueue.length := h.nsndQue_eq
    show k.nsndQue - 1 = UInt32.ofNat rest.length
    rw [hcount, hqueue, List.length_cons, ofNat_succ_sub_one]

end Send

/-- Both hold between the calls; inside a call `snd_una` may lag behind. -/
def Kcpcb.Sound (k : Kcpcb) : Prop := k.windows.Sound ∧ k.windows.Oldest

/-- What does not change the windows keeps them sound. -/
theorem Kcpcb.Sound.of_windows {k k' : Kcpcb} (h : k.Sound)
    (heq : k'.windows = k.windows) : k'.Sound := by
  rwa [Kcpcb.Sound, heq]

/-- What receives leaves the oldest segment. -/
theorem Kcpcb.Sound.of_sendSide {k k' : Kcpcb} (h : k.Sound)
    (hwindows : k'.windows.Sound) (hsend : k'.sendSide = k.sendSide) :
    k'.Sound := by
  obtain ⟨hua, hnxt, hbuf, _⟩ := SendSide.mk.inj hsend
  refine ⟨hwindows, ?_⟩
  show k'.sndUna = firstSn k'.sndNxt k'.sndBuf
  rw [hua, hnxt, hbuf]
  exact h.2

theorem updateAck_windows (k : Kcpcb) (rtt : Int) :
    (updateAck k rtt).windows = k.windows := rfl

theorem ackRtt_windows (k : Kcpcb) (ts : UInt32) :
    (ackRtt k ts).windows = k.windows := by
  rw [ackRtt]
  split
  · exact updateAck_windows k _
  · rfl

theorem growCwnd_windows (k : Kcpcb) : (growCwnd k).windows = k.windows := rfl

theorem Kcpcb.Sound.inputUna {k : Kcpcb} {seg : Seg} (h : k.windows.Sound)
    (hwnd : seg.wnd.toNat < 2 ^ 16) : (Ikcp.inputUna k seg).Sound := by
  have hrmt : { k with rmtWnd := seg.wnd : Kcpcb }.windows.Sound :=
    { h with rmtWnd_lt := hwnd }
  exact (hrmt.parseUna seg.una).shrinkBuf

theorem Kcpcb.Sound.inputAck {k : Kcpcb} {seg : Seg} (h : k.windows.Sound) :
    (Ikcp.inputAck k seg).Sound := by
  have hrtt : (ackRtt k seg.ts).windows.Sound := by
    rwa [ackRtt_windows]
  exact (hrtt.parseAck seg.sn).shrinkBuf

theorem Kcpcb.Sound.inputSeg {k : Kcpcb} {maxack : Option UInt32} {seg : Seg}
    (h : k.Sound) (hseg : seg.Arrived k.conv) :
    (Ikcp.inputSeg k maxack seg).1.Sound := by
  have huna : (Ikcp.inputUna k seg).Sound :=
    Kcpcb.Sound.inputUna h.1 hseg.wnd_lt
  rw [Ikcp.inputSeg]
  split
  · exact Kcpcb.Sound.inputAck huna.1
  · split
    · exact huna.of_sendSide huna.1.inputPush (inputPush_sendSide _ seg)
    · split
      · exact huna
      · exact huna

theorem fastackLoop_sn (sn : UInt32) (buf : List Seg) :
    (fastackLoop sn buf).map Seg.sn = buf.map Seg.sn := by
  induction buf with
  | nil => rfl
  | cons seg rest ih =>
      rw [fastackLoop]
      split
      · rfl
      · split
        · rw [List.map_cons, ih, List.map_cons]
        · rw [List.map_cons, ih, List.map_cons]

theorem firstSn_eq (nxt : UInt32) (buf : List Seg) :
    firstSn nxt buf = (buf.map Seg.sn).head?.getD nxt := by
  cases buf with
  | nil => rfl
  | cons seg rest => rfl

/-- The order depends only on the numbers in `snd_buf`. -/
theorem Kcpcb.Sound.renew {k : Kcpcb} {buf : List Seg} (h : k.Sound)
    (hbuf : buf.map Seg.sn = k.sndBuf.map Seg.sn) :
    { k with sndBuf := buf : Kcpcb }.Sound := by
  have hlen : buf.length = k.sndBuf.length := by
    simpa using congrArg List.length hbuf
  refine ⟨{ h.1 with sent := ?_, nsndBuf_eq := ?_ }, ?_⟩
  · show Ascending k.sndUna (ahead k.sndUna k.sndNxt) (buf.map Seg.sn)
    rw [hbuf]
    exact h.1.sent
  · show k.nsndBuf = UInt32.ofNat buf.length
    rw [hlen]
    exact h.1.nsndBuf_eq
  · show k.sndUna = firstSn k.sndNxt buf
    rw [firstSn_eq, hbuf, ← firstSn_eq]
    exact h.2

theorem Kcpcb.Sound.parseFastack {k : Kcpcb} (h : k.Sound) (sn : UInt32) :
    (Ikcp.parseFastack k sn).Sound := by
  rw [Ikcp.parseFastack]
  split
  · exact h
  · exact h.renew (fastackLoop_sn sn k.sndBuf)

/-- Any bytes may come from the network. -/
theorem Kcpcb.Sound.input {k : Kcpcb} (h : k.Sound) (data : List UInt8) :
    (Ikcp.input k data).2.Sound :=
  @input_keeps Kcpcb.Sound (fun _ _ _ h hseg => h.inputSeg hseg)
    (fun _ sn h => h.parseFastack sn)
    (fun k h => h.of_windows (growCwnd_windows k)) k h data

/-- More segments in the queue. -/
theorem Kcpcb.Sound.enqueue {k : Kcpcb} {queue : List Seg} {n : UInt32}
    (h : k.Sound) (hn : n = UInt32.ofNat queue.length) :
    { k with sndQueue := queue, nsndQue := n : Kcpcb }.Sound :=
  ⟨{ h.1 with nsndQue_eq := hn }, h.2⟩

theorem Kcpcb.Sound.sendFragments {k : Kcpcb} (h : k.Sound)
    (buffer : List UInt8) : (Ikcp.sendFragments k buffer).2.Sound := by
  have hcount : k.nsndQue = UInt32.ofNat k.sndQueue.length := h.1.nsndQue_eq
  rw [Ikcp.sendFragments]
  split
  · exact h
  · apply h.enqueue
    rw [hcount, List.length_append, length_fragments, UInt32.ofNat_add]

theorem Kcpcb.Sound.extendLast {k : Kcpcb} (h : k.Sound)
    (buffer : List UInt8) : (Ikcp.extendLast k buffer).1.Sound := by
  have hcount : k.nsndQue = UInt32.ofNat k.sndQueue.length := h.1.nsndQue_eq
  rw [Ikcp.extendLast]
  split
  · exact h
  · next old hlast =>
      split
      · apply h.enqueue
        have hne : k.sndQueue ≠ [] := by
          rintro hnil
          simp [hnil] at hlast
        have hpos := List.length_pos_iff.mpr hne
        rw [hcount, List.length_append, List.length_dropLast,
          List.length_singleton, Nat.sub_add_cancel hpos]
      · exact h

theorem Kcpcb.Sound.send {k : Kcpcb} (h : k.Sound) (buffer : List UInt8)
    (len : Int) : (Ikcp.send k buffer len).2.Sound := by
  rw [Ikcp.send]
  split
  · exact h
  · split
    · dsimp only
      split
      · exact h.extendLast _
      · exact (h.extendLast _).sendFragments _
    · exact h.sendFragments _

theorem flushLoop_sn (k : Kcpcb) (wnd : UInt32) (f : DataFlush)
    (buf : List Seg) :
    (flushLoop k wnd f buf).2.map Seg.sn = buf.map Seg.sn := by
  induction buf generalizing f with
  | nil => rfl
  | cons segment rest ih =>
      have hsn : (flushSeg k wnd f segment).2.sn = segment.sn := by
        rw [flushSeg]
        split
        · rfl
        · next cause _ =>
            cases cause with
            | first => rfl
            | timeout => rfl
            | fastack => rfl
      rw [flushLoop]
      dsimp only
      rw [List.map_cons, hsn, ih, List.map_cons]

theorem Kcpcb.Sound.flush {k : Kcpcb} (h : k.Sound) :
    (Ikcp.flush k).1.Sound := by
  apply @flush_keeps Kcpcb.Sound ?_ ?_ ?_ ?_ k h
  · intro k h
    have hacks : { k.windows with acks := 0 }.Sound :=
      { h.1 with acks_le := Nat.zero_le _ }
    exact ⟨hacks, h.2⟩
  · intro k cwnd wnd newseg rest hqueue hcwnd hlt h
    refine ⟨h.1.number hqueue hcwnd hlt, ?_⟩
    have hold : k.sndUna = firstSn k.sndNxt k.sndBuf := h.2
    show k.sndUna = firstSn (k.sndNxt + 1) (k.sndBuf ++ [numbered k wnd newseg])
    rw [hold]
    cases k.sndBuf with
    | nil => rfl
    | cons seg rest => rfl
  · exact fun k wnd w h => h.renew (flushLoop_sn k wnd _ k.sndBuf)
  · exact fun k cwnd change lost h => h

theorem Kcpcb.Sound.update {k : Kcpcb} (h : k.Sound) (current : UInt32) :
    (Ikcp.update k current).1.Sound :=
  @update_keeps Kcpcb.Sound (fun _ _ _ _ h => h) (fun _ h => h.flush) k h current

end Ikcp

end Libsaf
