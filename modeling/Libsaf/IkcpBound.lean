/-
Bounds that an endpoint keeps over whole runs.  The memory for received data is
bounded by the window, whatever the peer sends, and the timers and windows stay
in their ranges.
-/
import Libsaf.IkcpCall

namespace Libsaf

namespace Ikcp

section Inbox

/-- The part of the block that `ikcp_recv` looks at. -/
structure Inbox where
  rcvNxt : UInt32
  rcvQueue : List Seg
  rcvBuf : List Seg
  rcvWnd : UInt32
  nrcvQue : UInt32

def Kcpcb.inbox (k : Kcpcb) : Inbox :=
  ⟨k.rcvNxt, k.rcvQueue, k.rcvBuf, k.rcvWnd, k.nrcvQue⟩

@[simp] theorem inputUna_inbox (k : Kcpcb) (seg : Seg) :
    (inputUna k seg).inbox = k.inbox := rfl

@[simp] theorem ackRtt_inbox (k : Kcpcb) (ts : UInt32) :
    (ackRtt k ts).inbox = k.inbox := by
  rw [ackRtt]
  split
  · rfl
  · rfl

@[simp] theorem parseAck_inbox (k : Kcpcb) (sn : UInt32) :
    (parseAck k sn).inbox = k.inbox := by
  rw [parseAck]
  split
  · rfl
  · rfl

@[simp] theorem shrinkBuf_inbox (k : Kcpcb) :
    (shrinkBuf k).inbox = k.inbox := rfl

@[simp] theorem inputAck_inbox (k : Kcpcb) (seg : Seg) :
    (inputAck k seg).inbox = k.inbox := by
  rw [inputAck, shrinkBuf_inbox, parseAck_inbox, ackRtt_inbox]

@[simp] theorem ackPush_inbox (k : Kcpcb) (sn ts : UInt32) :
    (ackPush k sn ts).inbox = k.inbox := rfl

@[simp] theorem parseFastack_inbox (k : Kcpcb) (sn : UInt32) :
    (parseFastack k sn).inbox = k.inbox := by
  rw [parseFastack]
  split
  · rfl
  · rfl

@[simp] theorem growCwnd_inbox (k : Kcpcb) :
    (growCwnd k).inbox = k.inbox := rfl

@[simp] theorem send_inbox (k : Kcpcb) (buffer : List UInt8) (len : Int) :
    (send k buffer len).2.inbox = k.inbox :=
  @send_keeps (fun s => s.inbox = k.inbox) (fun _ _ _ h => h) k rfl buffer len

@[simp] theorem flush_inbox (k : Kcpcb) : (flush k).1.inbox = k.inbox :=
  @flush_keeps (fun s => s.inbox = k.inbox) (fun _ h => h)
    (fun _ _ _ _ _ _ _ _ h => h) (fun _ _ _ h => h) (fun _ _ _ _ h => h) k rfl

@[simp] theorem update_inbox (k : Kcpcb) (current : UInt32) :
    (update k current).1.inbox = k.inbox :=
  @update_keeps (fun s => s.inbox = k.inbox) (fun _ _ _ _ h => h)
    (fun s h => (flush_inbox s).trans h) k rfl current

@[simp] theorem setmtu_inbox (k : Kcpcb) (mtu : Int) :
    (setmtu k mtu).2.inbox = k.inbox := by
  rw [setmtu]
  split
  · rfl
  · rfl

/-- The window for receiving is set once at most, before everything else. -/
def Call.KeepsRcvWnd : Call → Prop
  | .wndsize _ rcvwnd => rcvwnd ≤ 0
  | _ => True

theorem wndsize_inbox {k : Kcpcb} {sndwnd rcvwnd : Int} (h : rcvwnd ≤ 0) :
    (wndsize k sndwnd rcvwnd).2.inbox = k.inbox := by
  have hwnd : (wndsize k sndwnd rcvwnd).2.rcvWnd = k.rcvWnd :=
    if_neg (Int.not_lt.mpr h)
  rw [Kcpcb.inbox, hwnd]
  rfl

theorem inputPush_inbox {P : Inbox → Prop}
    (hdata : ∀ k seg, k.windows.Sound → P k.inbox → P (parseData k seg).inbox)
    {k : Kcpcb} {seg : Seg} (hsound : k.windows.Sound) (h : P k.inbox) :
    P (inputPush k seg).inbox := by
  have hack : P (ackPush k seg.sn seg.ts).inbox := h
  rw [inputPush]
  split
  · dsimp only
    split
    · exact hdata _ seg (hsound.ackPush seg.sn seg.ts) hack
    · exact hack
  · exact h

/-- Rule for a property of these fields: what the arrival of data keeps is kept
by `ikcp_input`. -/
theorem input_inbox {P : Inbox → Prop}
    (hdata : ∀ k seg, k.windows.Sound → P k.inbox → P (parseData k seg).inbox)
    {k : Kcpcb} (hsound : k.Sound) (h : P k.inbox) (data : List UInt8) :
    P (input k data).2.inbox := by
  have hseg : ∀ k maxack seg, k.Sound → seg.Arrived k.conv → P k.inbox →
      P (inputSeg k maxack seg).1.inbox := by
    intro k maxack seg hsound hseg h
    have hu : (inputUna k seg).Sound :=
      Kcpcb.Sound.inputUna hsound.1 hseg.wnd_lt
    have huna : P (inputUna k seg).inbox := by rwa [inputUna_inbox]
    apply @inputSeg_keeps (fun s => P s.inbox) k maxack seg
    · intro _
      rwa [inputAck_inbox]
    · exact fun _ => inputPush_inbox hdata hu.1 huna
    · exact fun _ => huna
  have hboth := @input_keeps (fun s => s.Sound ∧ P s.inbox)
    (fun s maxack seg h hs => ⟨h.1.inputSeg hs, hseg s maxack seg h.1 hs h.2⟩)
    (fun s sn h => ⟨h.1.parseFastack sn, by rw [parseFastack_inbox]; exact h.2⟩)
    (fun s h => ⟨h.1.of_windows (growCwnd_windows s), h.2⟩) k ⟨hsound, h⟩ data
  exact hboth.2

/-- Rule for a property of these fields: the other calls do not touch them. -/
theorem call_inbox {P : Inbox → Prop}
    (hdata : ∀ k seg, k.windows.Sound → P k.inbox → P (parseData k seg).inbox)
    (hrecv : ∀ k len, k.windows.Sound → P k.inbox →
      P (recv k len).2.2.inbox)
    {k : Kcpcb} {c : Call} (hsound : k.Sound) (hkeeps : c.KeepsRcvWnd)
    (h : P k.inbox) : P (k.call c).1.inbox := by
  cases c with
  | send buffer len =>
      show P (send k buffer len).2.inbox
      rwa [send_inbox]
  | recv len => exact hrecv k len hsound.1 h
  | update current =>
      show P (update k current).1.inbox
      rwa [update_inbox]
  | flush =>
      show P (flush k).1.inbox
      rwa [flush_inbox]
  | input data => exact input_inbox hdata hsound h data
  | setmtu mtu =>
      show P (setmtu k mtu).2.inbox
      rwa [setmtu_inbox]
  | interval ms => exact h
  | nodelay on ms resend nc => exact h
  | wndsize sndwnd rcvwnd =>
      show P (wndsize k sndwnd rcvwnd).2.inbox
      rwa [wndsize_inbox hkeeps]
  | stream on => exact h

end Inbox

section Receive

/-- The segments received fit in the window, and none waits that could move to
the queue. -/
structure Inbox.Bounded (b : Inbox) : Prop where
  queue_le : b.rcvQueue.length ≤ b.rcvWnd.toNat
  buf_lt : ∀ s ∈ b.rcvBuf, ahead b.rcvNxt s.sn < b.rcvWnd.toNat
  stuck : ∀ s, b.rcvBuf.head? = some s → s.sn = b.rcvNxt →
    b.rcvWnd ≤ b.nrcvQue

/-- The first two clauses, which also hold inside a call. -/
def Kcpcb.FitsWindow (k : Kcpcb) : Prop :=
  k.windows.Sound ∧ k.rcvQueue.length ≤ k.rcvWnd.toNat ∧
    ∀ s ∈ k.rcvBuf, ahead k.rcvNxt s.sn < k.rcvWnd.toNat

theorem Kcpcb.FitsWindow.moveAvailable {k : Kcpcb} (h : k.FitsWindow) :
    (Ikcp.moveAvailable k).inbox.Bounded := by
  have hfits : (Ikcp.moveAvailable k).FitsWindow := by
    apply @moveAvailable_keeps Kcpcb.FitsWindow ?_ k h
    rintro k seg rest hbuf hsn hroom ⟨hsound, hqueue, hinside⟩
    refine ⟨hsound.move hbuf hsn hroom, ?_, ?_⟩
    · have hcount : k.nrcvQue = UInt32.ofNat k.rcvQueue.length :=
        hsound.nrcvQue_eq
      have hlt : k.rcvQueue.length < 2 ^ 31 := hsound.rcvQueue_lt
      have hroom' := UInt32.lt_iff_toNat_lt.mp hroom
      rw [hcount, UInt32.toNat_ofNat', Nat.mod_eq_of_lt (by omega)] at hroom'
      show (k.rcvQueue ++ [seg]).length ≤ k.rcvWnd.toNat
      rw [List.length_append, List.length_singleton]
      exact hroom'
    · intro s hs
      have hbuffered : Ascending k.rcvNxt (2 ^ 31) (k.rcvBuf.map Seg.sn) :=
        hsound.buffered
      rw [hbuf, List.map_cons, hsn] at hbuffered
      have hpos := List.rel_of_pairwise_cons hbuffered.sorted
        (List.mem_map_of_mem hs)
      have hold := hinside s (by rw [hbuf]; exact List.mem_cons_of_mem seg hs)
      have hone : ahead k.rcvNxt (k.rcvNxt + 1) = 1 := by
        have := @ahead_add_one k.rcvNxt k.rcvNxt (by simp)
        simpa using this
      rw [ahead_self] at hpos
      show ahead (k.rcvNxt + 1) s.sn < k.rcvWnd.toNat
      rw [ahead_rebase (by omega : ahead k.rcvNxt (k.rcvNxt + 1) ≤ _)]
      omega
  exact ⟨hfits.2.1, hfits.2.2, moveAvailable_stuck k⟩

theorem parseData_bounded (k : Kcpcb) (newseg : Seg) (hsound : k.windows.Sound)
    (h : k.inbox.Bounded) : (parseData k newseg).inbox.Bounded := by
  rw [parseData]
  split
  · exact h
  · next hin =>
      rw [not_or, Int.not_le, Int.not_lt] at hin
      have hahead : ahead k.rcvNxt newseg.sn < 2 ^ 31 :=
        serialDiff_nonneg_iff.mp hin.2
      have hwnd : k.rcvWnd.toNat < 2 ^ 31 := hsound.rcvWnd_lt
      have hend : ahead k.rcvNxt (k.rcvNxt + k.rcvWnd) = k.rcvWnd.toNat := by
        have := @ahead_add k.rcvNxt k.rcvNxt k.rcvWnd
          (by rw [ahead_self]; omega)
        rwa [ahead_self, Nat.zero_add] at this
      have hnew : ahead k.rcvNxt newseg.sn < k.rcvWnd.toNat := by
        have hdiff : itimediff newseg.sn (k.rcvNxt + k.rcvWnd) =
            (ahead k.rcvNxt newseg.sn : Int) -
              ahead k.rcvNxt (k.rcvNxt + k.rcvWnd) :=
          serialDiff_of_ahead k.rcvNxt (by omega) (by omega)
        have hlt := hin.1
        rw [hdiff, hend] at hlt
        omega
      split
      · next rcvBuf hloop =>
          apply Kcpcb.FitsWindow.moveAvailable
          refine ⟨hsound.insert hin.2 hloop, h.queue_le, ?_⟩
          obtain ⟨back, front, hbuf, rfl, _, _⟩ := insertLoop_some hloop
          intro s hs
          have hs' : s ∈ back ++ newseg :: front := List.mem_reverse.mp hs
          have hcases : s = newseg ∨ s ∈ k.rcvBuf := by
            rw [← List.mem_reverse, hbuf]
            simpa [or_left_comm] using hs'
          rcases hcases with rfl | hmem
          · exact hnew
          · exact h.buf_lt s hmem
      · exact Kcpcb.FitsWindow.moveAvailable ⟨hsound, h.queue_le, h.buf_lt⟩

theorem recv_bounded {k : Kcpcb} (hsound : k.windows.Sound)
    (h : k.inbox.Bounded) (len : Int) : (recv k len).2.2.inbox.Bounded := by
  rcases recv_cases k len with ⟨code, _, heq⟩ | ⟨_, _, probe, heq⟩
  · rw [heq]
    exact h
  · have htake : (takeMessage k (decide (len < 0))).FitsWindow := by
      refine ⟨hsound.takeMessage _, ?_⟩
      rw [takeMessage]
      split
      · exact ⟨h.queue_le, h.buf_lt⟩
      · refine ⟨?_, h.buf_lt⟩
        have hle : k.rcvQueue.length ≤ k.rcvWnd.toNat := h.queue_le
        show (k.rcvQueue.drop _).length ≤ k.rcvWnd.toNat
        rw [List.length_drop]
        omega
    rw [heq]
    exact htake.moveAvailable

/-- What holds of an endpoint whose receive window is set once. -/
def Kcpcb.Receives (k : Kcpcb) : Prop := k.Sound ∧ k.inbox.Bounded

theorem create_wndsize_sized (conv : UInt32) (sndwnd rcvwnd : Int) :
    (wndsize (create conv) sndwnd rcvwnd).2.sending.Sized := create_sized conv

theorem create_receives (conv : UInt32) {sndwnd rcvwnd : Int}
    (hrcv : IsInt rcvwnd) :
    (wndsize (create conv) sndwnd rcvwnd).2.Receives :=
  ⟨Kcpcb.Sound.wndsize (create_sound conv) hrcv, Nat.zero_le _,
    fun _ hs => absurd hs List.not_mem_nil,
    fun s hs => by simp [Kcpcb.inbox, wndsize, create] at hs⟩

theorem Kcpcb.Receives.call {k : Kcpcb} {c : Call} (h : k.Receives)
    (hc : c.Typed) (hkeeps : c.KeepsRcvWnd) : (k.call c).1.Receives :=
  ⟨h.1.call hc, call_inbox parseData_bounded
    (fun _ len hsound hb => recv_bounded hsound hb len) h.1 hkeeps h.2⟩

end Receive

section Oversize

/-- The first segment in the queue belongs to a message of more segments than
the window has room for. -/
structure Inbox.Oversize (seg : Seg) (b : Inbox) : Prop where
  head : b.rcvQueue.head? = some seg
  large : b.rcvWnd < seg.frg + 1

theorem moveAvailable_oversize {k : Kcpcb} {seg : Seg}
    (h : k.inbox.Oversize seg) : (moveAvailable k).inbox.Oversize seg := by
  apply @moveAvailable_keeps (fun k => k.inbox.Oversize seg) ?_ k h
  rintro k next rest _ _ _ ⟨hhead, hlarge⟩
  refine ⟨?_, hlarge⟩
  have hhead' : k.rcvQueue.head? = some seg := hhead
  show (k.rcvQueue ++ [next]).head? = some seg
  rw [List.head?_append, hhead', Option.some_or]

theorem parseData_oversize (k : Kcpcb) (newseg : Seg) {seg : Seg}
    (h : k.inbox.Oversize seg) : (parseData k newseg).inbox.Oversize seg := by
  rw [parseData]
  split
  · exact h
  · split
    · exact moveAvailable_oversize ⟨h.head, h.large⟩
    · exact moveAvailable_oversize h

/-- Such a message is never complete in the queue. -/
theorem recv_oversize {k : Kcpcb} {seg : Seg} (hsound : k.windows.Sound)
    (hbound : k.inbox.Bounded) (h : k.inbox.Oversize seg) (len : Int) :
    recv k len = (-2, [], k) := by
  have hcount : k.nrcvQue = UInt32.ofNat k.rcvQueue.length := hsound.nrcvQue_eq
  have hlt : k.rcvQueue.length < 2 ^ 31 := hsound.rcvQueue_lt
  have hle : k.rcvQueue.length ≤ k.rcvWnd.toNat := hbound.queue_le
  have hlarge : k.rcvWnd.toNat < (seg.frg + 1).toNat :=
    UInt32.lt_iff_toNat_lt.mp h.large
  obtain ⟨rest, hqueue⟩ := List.head?_eq_some_iff.mp h.head
  change k.rcvQueue = seg :: rest at hqueue
  have hshort : k.nrcvQue < seg.frg + 1 := by
    apply UInt32.lt_iff_toNat_lt.mpr
    rw [hcount, UInt32.toNat_ofNat']
    omega
  have hmore : seg.frg ≠ 0 := by
    intro hzero
    rw [hzero] at hlarge
    change k.rcvWnd.toNat < 1 at hlarge
    rw [hqueue, List.length_cons] at hle
    omega
  have hnone : peeksize k = -1 := by
    unfold peeksize
    split
    · rfl
    · next first tail hcons =>
        obtain ⟨rfl, rfl⟩ := List.cons.inj (hcons.symm.trans hqueue)
        rw [if_neg hmore, if_pos hshort]
  have hsome : k.rcvQueue ≠ [] := by
    rw [hqueue]
    exact List.cons_ne_nil seg rest
  rw [recv]
  dsimp only
  rw [if_neg hsome, hnone, if_pos (by decide)]

theorem call_oversize {k : Kcpcb} {c : Call} {seg : Seg} (hk : k.Receives)
    (hkeeps : c.KeepsRcvWnd) (h : k.inbox.Oversize seg) :
    (k.call c).1.inbox.Oversize seg := by
  have hboth := @call_inbox (fun b => b.Bounded ∧ b.Oversize seg)
    (fun k newseg hsound h => ⟨parseData_bounded k newseg hsound h.1,
      parseData_oversize k newseg h.2⟩)
    (fun k len hsound h => by
      rw [recv_oversize hsound h.1 h.2 len]
      exact h) k c hk.1 hkeeps ⟨hk.2, h⟩
  exact hboth.2

end Oversize

section Range

/-- The parameters, the timers and the congestion window of the block. -/
structure Ranges where
  mtu : UInt32
  mss : UInt32
  interval : UInt32
  rxMinrto : Int
  rxRto : Int
  rxSrtt : Int
  ssthresh : UInt32
  probeWait : UInt32
  updated : UInt32
  cwnd : UInt32

def Kcpcb.ranges (k : Kcpcb) : Ranges :=
  { mtu := k.mtu
    mss := k.mss
    interval := k.interval
    rxMinrto := k.rxMinrto
    rxRto := k.rxRto
    rxSrtt := k.rxSrtt
    ssthresh := k.ssthresh
    probeWait := k.probeWait
    updated := k.updated
    cwnd := k.cwnd }

/-- Their ranges. -/
structure Ranges.Within (r : Ranges) : Prop where
  mtu_ge : 50 ≤ r.mtu.toNat
  mtu_lt : r.mtu.toNat < 2 ^ 31
  mss_eq : r.mss.toNat + OVERHEAD = r.mtu.toNat
  interval_ge : 10 ≤ r.interval.toNat
  interval_le : r.interval.toNat ≤ 5000
  minrto : r.rxMinrto = RTO_NDL ∨ r.rxMinrto = RTO_MIN
  rto_ge : RTO_NDL ≤ r.rxRto
  rto_le : r.rxRto ≤ RTO_MAX
  srtt_ge : 0 ≤ r.rxSrtt
  srtt_lt : r.rxSrtt < 2 ^ 31
  ssthresh_ge : THRESH_MIN ≤ r.ssthresh
  probe : r.probeWait = 0 ∨
    PROBE_INIT ≤ r.probeWait ∧ r.probeWait ≤ PROBE_LIMIT

theorem Ranges.Within.mss_bounds {r : Ranges} (h : r.Within) :
    26 ≤ r.mss.toNat ∧ r.mss.toNat < 2 ^ 31 := by
  have hmss := h.mss_eq
  have hmtu := h.mtu_ge
  have hmtu' := h.mtu_lt
  simp only [OVERHEAD] at hmss
  omega

/-- After the first `ikcp_update` the congestion window is open. -/
def Ranges.Open (r : Ranges) : Prop := r.updated ≠ 0 → 1 ≤ r.cwnd

def Kcpcb.InRange (k : Kcpcb) : Prop := k.ranges.Within ∧ k.ranges.Open

theorem create_inRange (conv : UInt32) : (create conv).ranges.Within where
  mtu_ge := by change 50 ≤ MTU_DEF.toNat; decide
  mtu_lt := by change MTU_DEF.toNat < 2 ^ 31; decide
  mss_eq := by
    change (MTU_DEF - UInt32.ofNat OVERHEAD).toNat + OVERHEAD = MTU_DEF.toNat
    decide
  interval_ge := by change 10 ≤ INTERVAL.toNat; decide
  interval_le := by change INTERVAL.toNat ≤ 5000; decide
  minrto := Or.inr rfl
  rto_ge := by change (RTO_NDL : Int) ≤ RTO_DEF; decide
  rto_le := by change (RTO_DEF : Int) ≤ RTO_MAX; decide
  srtt_ge := Int.le_refl 0
  srtt_lt := by change (0 : Int) < 2 ^ 31; decide
  ssthresh_ge := UInt32.le_refl _
  probe := Or.inl rfl

theorem ibound_le (lower middle upper : UInt32) :
    ibound lower middle upper ≤ upper :=
  imin_le_right _ _

theorem le_ibound {lower upper : UInt32} (middle : UInt32)
    (h : lower ≤ upper) : lower ≤ ibound lower middle upper := by
  have hmax : lower ≤ imax lower middle := by
    rw [imax]
    split
    · exact UInt32.le_refl lower
    · next hlt => exact UInt32.le_of_lt (UInt32.not_le.mp hlt)
  rw [ibound, imin]
  split
  · exact hmax
  · exact h

/-- The smoothed time of a round trip is not negative, even when the sum
wraps. -/
theorem smoothRtt_bounds {k : Kcpcb} {rtt : Int} (hlow : 0 ≤ rtt)
    (hhigh : rtt < 2 ^ 31) :
    0 ≤ (smoothRtt k rtt).1 ∧ (smoothRtt k rtt).1 < 2 ^ 31 := by
  rw [smoothRtt]
  split
  · exact ⟨hlow, hhigh⟩
  · have hbounds := toInt_bounds (7 * k.rxSrtt + rtt)
    have hdiv : (toInt (7 * k.rxSrtt + rtt)).tdiv 8 < 2 ^ 31 := by
      have habs : ((toInt (7 * k.rxSrtt + rtt)).tdiv 8).natAbs =
          (toInt (7 * k.rxSrtt + rtt)).natAbs / 8 := Int.natAbs_tdiv _ 8
      omega
    dsimp only
    split
    · exact ⟨by decide, by decide⟩
    · exact ⟨by omega, hdiv⟩

theorem Ranges.Within.updateAck {k : Kcpcb} {rtt : Int}
    (h : k.ranges.Within) (hlow : 0 ≤ rtt) (hhigh : rtt < 2 ^ 31) :
    (Ikcp.updateAck k rtt).ranges.Within := by
  have hsrtt := @smoothRtt_bounds k rtt hlow hhigh
  have hmin : UInt32.ofInt k.rxMinrto ≤ UInt32.ofNat RTO_MAX ∧
      RTO_NDL ≤ (UInt32.ofInt k.rxMinrto).toNat := by
    have hminrto : k.rxMinrto = RTO_NDL ∨ k.rxMinrto = RTO_MIN := h.minrto
    rcases hminrto with heq | heq
    · rw [heq]
      decide
    · rw [heq]
      decide
  have hrto : ∀ rto, RTO_NDL ≤
      (ibound (UInt32.ofInt k.rxMinrto) rto (UInt32.ofNat RTO_MAX)).toNat ∧
      (ibound (UInt32.ofInt k.rxMinrto) rto (UInt32.ofNat RTO_MAX)).toNat ≤
        RTO_MAX := by
    intro rto
    have hge := UInt32.le_iff_toNat_le.mp (le_ibound rto hmin.1)
    have hle := UInt32.le_iff_toNat_le.mp
      (ibound_le (UInt32.ofInt k.rxMinrto) rto (UInt32.ofNat RTO_MAX))
    exact ⟨Nat.le_trans hmin.2 hge, hle⟩
  exact { h with
    rto_ge := Int.ofNat_le.mpr (hrto _).1
    rto_le := Int.ofNat_le.mpr (hrto _).2
    srtt_ge := hsrtt.1
    srtt_lt := hsrtt.2 }

/-- An open congestion window stays open when it grows. -/
theorem le_grownCwnd {k : Kcpcb} (h : 1 ≤ k.cwnd) : 1 ≤ (grownCwnd k).1 := by
  have hcwnd := UInt32.le_iff_toNat_le.mp h
  rw [grownCwnd]
  split
  · next hlt =>
      have hlt' := UInt32.lt_iff_toNat_lt.mp hlt
      have hrmt := k.rmtWnd.toNat_lt
      have hnext : 1 ≤ k.cwnd + 1 := by
        apply UInt32.le_iff_toNat_le.mpr
        rw [UInt32.toNat_add]
        change 1 ≤ (k.cwnd.toNat + 1) % 2 ^ 32
        omega
      split
      · apply UInt32.le_iff_toNat_le.mpr
        exact Nat.le_trans hcwnd (Nat.le_of_lt hlt')
      · rw [widerCwnd]
        dsimp only
        split
        · exact hnext
        · have hstep : ∀ (c : Prop) [Decidable c],
              1 ≤ (if c then k.cwnd + 1 else k.cwnd) := by
            intro c _
            split
            · exact hnext
            · exact h
          exact hstep _
  · exact h

/-- By what `ikcp_input` divides when it widens the congestion window behind its
loop. -/
def Kcpcb.divisor (k : Kcpcb) : UInt32 :=
  if k.incr < k.mss then k.mss else k.incr

theorem divisor_ne_zero {k : Kcpcb} (h : k.ranges.Within) : k.divisor ≠ 0 := by
  have hmss : 26 ≤ k.mss.toNat ∧ k.mss.toNat < 2 ^ 31 := h.mss_bounds
  intro hzero
  have hzero' := congrArg UInt32.toNat hzero
  rw [Kcpcb.divisor] at hzero'
  split at hzero'
  · change k.mss.toNat = 0 at hzero'
    omega
  · next hge =>
      have hge' := UInt32.le_iff_toNat_le.mp (UInt32.not_lt.mp hge)
      change k.incr.toNat = 0 at hzero'
      omega

theorem moveAvailable_ranges (k : Kcpcb) :
    (moveAvailable k).ranges = k.ranges :=
  @moveAvailable_keeps (fun s => s.ranges = k.ranges)
    (fun _ _ _ _ _ _ h => h) k rfl

theorem parseData_ranges (k : Kcpcb) (newseg : Seg) :
    (parseData k newseg).ranges = k.ranges := by
  rw [parseData]
  split
  · rfl
  · split
    · exact moveAvailable_ranges _
    · exact moveAvailable_ranges k

theorem inputPush_ranges (k : Kcpcb) (seg : Seg) :
    (inputPush k seg).ranges = k.ranges := by
  rw [inputPush]
  split
  · dsimp only
    split
    · exact parseData_ranges _ seg
    · rfl
  · rfl

theorem parseAck_ranges (k : Kcpcb) (sn : UInt32) :
    (parseAck k sn).ranges = k.ranges := by
  rw [parseAck]
  split
  · rfl
  · rfl

theorem parseFastack_ranges (k : Kcpcb) (sn : UInt32) :
    (parseFastack k sn).ranges = k.ranges := by
  rw [parseFastack]
  split
  · rfl
  · rfl

theorem shrinkBuf_ranges (k : Kcpcb) : (shrinkBuf k).ranges = k.ranges := rfl

theorem Kcpcb.InRange.of_ranges {k k' : Kcpcb} (h : k.InRange)
    (heq : k'.ranges = k.ranges) : k'.InRange := by
  rwa [Kcpcb.InRange, heq]

theorem Kcpcb.InRange.ackRtt {k : Kcpcb} (h : k.InRange) (ts : UInt32) :
    (Ikcp.ackRtt k ts).InRange := by
  rw [Ikcp.ackRtt]
  split
  · next hle =>
      exact ⟨h.1.updateAck hle (serialDiff_bounds k.current ts).2, h.2⟩
  · exact h

theorem Kcpcb.InRange.inputSeg {k : Kcpcb} {maxack : Option UInt32}
    {seg : Seg} (h : k.InRange) : (Ikcp.inputSeg k maxack seg).1.InRange := by
  have huna : (Ikcp.inputUna k seg).InRange := h
  rw [Ikcp.inputSeg]
  split
  · exact (huna.ackRtt seg.ts).of_ranges
      ((shrinkBuf_ranges _).trans (parseAck_ranges _ seg.sn))
  · split
    · exact huna.of_ranges (inputPush_ranges _ seg)
    · split
      · exact huna
      · exact huna

theorem Kcpcb.InRange.input {k : Kcpcb} (h : k.InRange)
    (data : List UInt8) : (Ikcp.input k data).2.InRange :=
  @input_keeps Kcpcb.InRange (fun _ _ _ h _ => h.inputSeg)
    (fun s sn h => h.of_ranges (parseFastack_ranges s sn))
    (fun _ h => ⟨{ h.1 with mtu_ge := h.1.mtu_ge },
      fun hup => le_grownCwnd (h.2 hup)⟩) k h data

theorem probeTimes_range {k : Kcpcb} (h : k.ranges.Within) :
    (probeTimes k).1 = 0 ∨
      PROBE_INIT ≤ (probeTimes k).1 ∧ (probeTimes k).1 ≤ PROBE_LIMIT := by
  rw [probeTimes]
  split
  · split
    · refine Or.inr ⟨UInt32.le_refl _, ?_⟩
      change PROBE_INIT ≤ PROBE_LIMIT
      decide
    · next hwait =>
        split
        · have hold : PROBE_INIT ≤ k.probeWait ∧ k.probeWait ≤ PROBE_LIMIT :=
            h.probe.resolve_left hwait
          have hlow := UInt32.le_iff_toNat_le.mp hold.1
          have hhigh := UInt32.le_iff_toNat_le.mp hold.2
          rw [if_neg (UInt32.not_lt.mpr hold.1)]
          refine Or.inr ?_
          dsimp only
          split
          · exact ⟨by decide, UInt32.le_refl _⟩
          · next hle =>
              refine ⟨?_, UInt32.not_lt.mp hle⟩
              apply UInt32.le_iff_toNat_le.mpr
              rw [UInt32.toNat_add, UInt32.toNat_div]
              change 7000 ≤ k.probeWait.toNat at hlow
              change k.probeWait.toNat ≤ 120000 at hhigh
              change 7000 ≤ (k.probeWait.toNat + k.probeWait.toNat / 2) % 2 ^ 32
              rw [Nat.mod_eq_of_lt (by omega)]
              omega
        · exact h.probe
  · exact Or.inl rfl

theorem le_threshold (x : UInt32) :
    THRESH_MIN ≤ (if x < THRESH_MIN then THRESH_MIN else x) := by
  split
  · exact UInt32.le_refl _
  · next hge => exact UInt32.not_lt.mp hge

theorem congestion_ssthresh (k : Kcpcb) (cwnd : UInt32) (change : Nat)
    (lost : Bool) (h : THRESH_MIN ≤ k.ssthresh) :
    THRESH_MIN ≤ (congestion k cwnd change lost).ssthresh := by
  have hopen : ∀ c : Congestion, THRESH_MIN ≤ c.ssthresh →
      THRESH_MIN ≤ (if c.cwnd < 1 then { c with cwnd := 1, incr := k.mss }
        else c : Congestion).ssthresh := by
    intro c hc
    split
    · exact hc
    · exact hc
  rw [congestion]
  apply hopen
  split
  · exact le_threshold _
  · split
    · exact le_threshold _
    · exact h

theorem congestion_cwnd (k : Kcpcb) (cwnd : UInt32) (change : Nat)
    (lost : Bool) : 1 ≤ (congestion k cwnd change lost).cwnd := by
  have hopen : ∀ c : Congestion,
      1 ≤ (if c.cwnd < 1 then { c with cwnd := 1, incr := k.mss }
        else c : Congestion).cwnd := by
    intro c
    split
    · exact UInt32.le_refl _
    · next hge => exact UInt32.not_lt.mp hge
  rw [congestion]
  exact hopen _

theorem Ranges.Within.flush {k : Kcpcb} (h : k.ranges.Within) :
    (Ikcp.flush k).1.ranges.Within := by
  apply @flush_keeps (fun k => k.ranges.Within) ?_ ?_ ?_ ?_ k h
  · exact fun k h => { h with probe := probeTimes_range h }
  · exact fun k _ _ _ _ _ _ _ h => h
  · exact fun k _ _ h => h
  · exact fun k cwnd change lost h =>
      { h with
        ssthresh_ge := congestion_ssthresh k cwnd change lost h.ssthresh_ge }

theorem flushCwnd_open (k : Kcpcb) (cwnd : UInt32) (change : Nat)
    (lost : Bool) : (flushCwnd k cwnd change lost).ranges.Open :=
  fun _ => congestion_cwnd k cwnd change lost

/-- A flush opens the congestion window. -/
theorem flush_open (k : Kcpcb) : (flush k).1.ranges.Open := by
  by_cases hup : k.updated = 0
  · rw [flush_idle hup]
    exact fun hne => absurd hup hne
  · exact @flush_ends (fun s => s.ranges.Open) flushCwnd_open k hup

theorem syncFlush_within {k : Kcpcb} (h : k.ranges.Within)
    (current : UInt32) : (syncFlush k current).ranges.Within :=
  { h with mtu_ge := h.mtu_ge }

theorem syncFlush_open {k : Kcpcb} (h : k.ranges.Open) (hup : k.updated ≠ 0)
    (current : UInt32) : (syncFlush k current).ranges.Open :=
  fun _ => h hup

theorem syncFlush_first {k : Kcpcb} (hup : k.updated = 0) (current : UInt32) :
    (syncFlush k current).tsFlush = current := by
  rw [syncFlush]
  dsimp only
  rw [if_pos hup]
  exact ite_self current

theorem Kcpcb.InRange.renew {k : Kcpcb} (h : k.ranges.Within)
    (tsFlush : UInt32) : (flush { k with tsFlush := tsFlush }).1.InRange := by
  have hk : ({ k with tsFlush := tsFlush } : Kcpcb).ranges.Within := h
  generalize ({ k with tsFlush := tsFlush } : Kcpcb) = k' at hk
  exact ⟨hk.flush, flush_open k'⟩

/-- The first `ikcp_update` flushes at once, so the window is open from then
on. -/
theorem Kcpcb.InRange.update {k : Kcpcb} (h : k.InRange) (current : UInt32) :
    (Ikcp.update k current).1.InRange := by
  have hsync := syncFlush_within h.1 current
  have hcurrent : (syncFlush k current).current = current := rfl
  rw [Ikcp.update]
  split
  · exact Kcpcb.InRange.renew hsync _
  · next hearly =>
      refine ⟨hsync, syncFlush_open h.2 (fun hup => hearly ?_) current⟩
      rw [hcurrent, syncFlush_first hup, itimediff, serialDiff_self]

theorem extendLast_ranges (k : Kcpcb) (buffer : List UInt8) :
    (extendLast k buffer).1.ranges = k.ranges := by
  rw [extendLast]
  split
  · rfl
  · split
    · rfl
    · rfl

theorem sendFragments_ranges (k : Kcpcb) (buffer : List UInt8) :
    (sendFragments k buffer).2.ranges = k.ranges := by
  rw [sendFragments]
  split
  · rfl
  · rfl

theorem send_ranges (k : Kcpcb) (buffer : List UInt8) (len : Int) :
    (send k buffer len).2.ranges = k.ranges := by
  rw [send]
  split
  · rfl
  · split
    · dsimp only
      split
      · exact extendLast_ranges k _
      · exact (sendFragments_ranges _ _).trans (extendLast_ranges k _)
    · exact sendFragments_ranges k _

theorem recv_ranges (k : Kcpcb) (len : Int) :
    (recv k len).2.2.ranges = k.ranges := by
  rcases recv_cases k len with ⟨code, _, heq⟩ | ⟨_, _, probe, heq⟩
  · rw [heq]
  · rw [heq]
    refine (moveAvailable_ranges _).trans ?_
    rw [takeMessage]
    split
    · rfl
    · rfl

theorem boundInterval_range (ms : Int) :
    10 ≤ (boundInterval ms).toNat ∧ (boundInterval ms).toNat ≤ 5000 := by
  rw [boundInterval]
  split
  · decide
  · split
    · decide
    · rw [toNat_ofInt (by omega) (by omega)]
      omega

theorem Kcpcb.InRange.setmtu {k : Kcpcb} {mtu : Int} (h : k.InRange)
    (hmtu : IsInt mtu) : (Ikcp.setmtu k mtu).2.InRange := by
  rw [Ikcp.setmtu]
  split
  · exact h
  · next hlarge =>
      have hlt : mtu < 2 ^ 31 := hmtu.2
      have hval : (UInt32.ofInt mtu).toNat = mtu.toNat :=
        toNat_ofInt (by omega) (by omega)
      refine ⟨{ h.1 with mtu_ge := ?_, mtu_lt := ?_, mss_eq := ?_ }, h.2⟩
      · show 50 ≤ (UInt32.ofInt mtu).toNat
        omega
      · show (UInt32.ofInt mtu).toNat < 2 ^ 31
        omega
      · show (UInt32.ofInt mtu - UInt32.ofNat OVERHEAD).toNat + OVERHEAD =
          (UInt32.ofInt mtu).toNat
        rw [UInt32.toNat_sub, UInt32.toNat_ofNat']
        simp only [OVERHEAD]
        omega

theorem Kcpcb.InRange.call {k : Kcpcb} {c : Call} (hc : c.Typed)
    (h : k.InRange) : (k.call c).1.InRange := by
  cases c with
  | send buffer len => exact h.of_ranges (send_ranges k buffer len)
  | recv len => exact h.of_ranges (recv_ranges k len)
  | update current => exact h.update current
  | flush => exact ⟨h.1.flush, flush_open k⟩
  | input data => exact h.input data
  | setmtu mtu => exact h.setmtu hc
  | interval ms =>
      have hms := boundInterval_range ms
      exact ⟨{ h.1 with interval_ge := hms.1, interval_le := hms.2 }, h.2⟩
  | nodelay on ms resend nc =>
      have hinterval : 10 ≤ (if 0 ≤ ms then boundInterval ms
          else k.interval).toNat ∧
          (if 0 ≤ ms then boundInterval ms else k.interval).toNat ≤ 5000 := by
        split
        · exact boundInterval_range ms
        · exact ⟨h.1.interval_ge, h.1.interval_le⟩
      have hminrto : ∀ rto : Int, rto = (if 0 ≤ on then
            (if on ≠ 0 then (RTO_NDL : Int) else RTO_MIN) else k.rxMinrto) →
          rto = RTO_NDL ∨ rto = RTO_MIN := by
        rintro rto rfl
        split
        · split
          · exact Or.inl rfl
          · exact Or.inr rfl
        · exact h.1.minrto
      exact ⟨{ h.1 with
        interval_ge := hinterval.1
        interval_le := hinterval.2
        minrto := hminrto _ rfl }, h.2⟩
  | wndsize sndwnd rcvwnd => exact h
  | stream on => exact h

end Range

end Ikcp

end Libsaf
