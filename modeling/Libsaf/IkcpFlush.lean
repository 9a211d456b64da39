/-
`ikcp_flush` and the functions around it: `ikcp_update` calls it when it is
time, `ikcp_check` says when that is, and the rest set its parameters.  A
function that outputs returns the datagrams that it has handed to `output`, and
how far it has written into the block that they are put together in.
-/
import Libsaf.Ikcp

namespace Libsaf

namespace Ikcp

/-- The datagrams output so far, the bytes in front of `ptr`, and how far `ptr`
has been from the start of the block. -/
structure Writer where
  out : List (List UInt8)
  buffer : List UInt8
  peak : Nat
deriving Repr, DecidableEq

def Writer.start : Writer := ⟨[], [], 0⟩

/-- `ikcp_output` of the buffer: nothing is output when it is empty. -/
def Writer.output (w : Writer) : List (List UInt8) :=
  if w.buffer.length = 0 then w.out else w.out ++ [w.buffer]

/-- Output the buffer when the segment does not fit behind it, then write the
segment.  An acknowledge and a probe carry no data. -/
def Writer.emit (mtu : UInt32) (w : Writer) (seg : Seg) : Writer :=
  let w : Writer :=
    if mtu.toNat < w.buffer.length + (OVERHEAD + seg.len.toNat) then
      { w with out := w.output, buffer := [] }
    else w
  let buffer := encodeSeg w.buffer seg ++ seg.data
  { w with buffer := buffer, peak := max w.peak buffer.length }

/-- `ikcp_wnd_unused`. -/
def wndUnused (k : Kcpcb) : UInt32 :=
  if k.nrcvQue < k.rcvWnd then k.rcvWnd - k.nrcvQue else 0

/-- The local `seg` at the start of `ikcp_flush`. -/
def flushHead (k : Kcpcb) : Seg :=
  { Seg.fresh 0 0 [] rfl with
    conv := k.conv
    cmd := CMD_ACK
    wnd := wndUnused k
    una := k.rcvNxt }

/-- Flush acknowledges: the writer and the local `seg` afterwards. -/
def flushAcks (mtu : UInt32) : Writer → Seg → List (UInt32 × UInt32) →
    Writer × Seg
  | w, seg, [] => (w, seg)
  | w, seg, (sn, ts) :: rest =>
      let seg := { seg with sn := sn, ts := ts }
      flushAcks mtu (w.emit mtu seg) seg rest

/-- `probe_wait`, `ts_probe` and `probe` after the remote window is looked
at. -/
def probeTimes (k : Kcpcb) : UInt32 × UInt32 × UInt32 :=
  if k.rmtWnd = 0 then
    if k.probeWait = 0 then (PROBE_INIT, k.current + PROBE_INIT, k.probe)
    else if 0 ≤ itimediff k.current k.tsProbe then
      let wait := if k.probeWait < PROBE_INIT then PROBE_INIT else k.probeWait
      let wait := wait + wait / 2
      let wait := if PROBE_LIMIT < wait then PROBE_LIMIT else wait
      (wait, k.current + wait, k.probe ||| ASK_SEND)
    else (k.probeWait, k.tsProbe, k.probe)
  else (0, 0, k.probe)

/-- Probe the window size while the remote window is zero. -/
def probeWindow (k : Kcpcb) : Kcpcb :=
  let times := probeTimes k
  { k with probeWait := times.1, tsProbe := times.2.1, probe := times.2.2 }

/-- Flush window probing commands. -/
def flushProbes (k : Kcpcb) (w : Writer) (seg : Seg) : Writer :=
  let (w, seg) :=
    if k.probe &&& ASK_SEND ≠ 0 then
      let seg := { seg with cmd := CMD_WASK }
      (w.emit k.mtu seg, seg)
    else (w, seg)
  if k.probe &&& ASK_TELL ≠ 0 then w.emit k.mtu { seg with cmd := CMD_WINS }
  else w

/-- `cwnd` of `ikcp_flush`. -/
def flushWindow (k : Kcpcb) : UInt32 :=
  let cwnd := imin k.sndWnd k.rmtWnd
  if k.nocwnd = 0 then imin k.cwnd cwnd else cwnd

/-- The header that a segment gets when it is moved to `snd_buf`. -/
def numbered (k : Kcpcb) (wnd : UInt32) (newseg : Seg) : Seg :=
  { newseg with
    conv := k.conv
    cmd := CMD_PUSH
    wnd := wnd
    ts := k.current
    sn := k.sndNxt
    una := k.rcvNxt
    resendts := k.current
    rto := UInt32.ofInt k.rxRto
    fastack := 0
    xmit := 0 }

/-- Move data from `snd_queue` to `snd_buf`; the list is the queue. -/
def sendLoop (cwnd wnd : UInt32) (k : Kcpcb) : List Seg → Kcpcb
  | [] => { k with sndQueue := [] }
  | newseg :: rest =>
      if itimediff k.sndNxt (k.sndUna + cwnd) < 0 then
        sendLoop cwnd wnd { k with
          sndBuf := k.sndBuf ++ [numbered k wnd newseg]
          nsndQue := k.nsndQue - 1
          nsndBuf := k.nsndBuf + 1
          sndNxt := k.sndNxt + 1 } rest
      else { k with sndQueue := newseg :: rest }

def moveToBuf (cwnd wnd : UInt32) (k : Kcpcb) : Kcpcb :=
  sendLoop cwnd wnd k k.sndQueue

/-- `resent` of `ikcp_flush`. -/
def resentLimit (k : Kcpcb) : UInt32 :=
  if 0 < k.fastresend then UInt32.ofInt k.fastresend else 0xffffffff

/-- `rtomin` of `ikcp_flush`. -/
def rtoMin (k : Kcpcb) : UInt32 :=
  if k.nodelay = 0 then UInt32.ofInt (k.rxRto / 8) else 0

/-- Why `ikcp_flush` sends a segment. -/
inductive Cause where
  | first
  | timeout
  | fastack
deriving Repr, DecidableEq

/-- `needsend`, with the branch that sets it. -/
def sendCause (k : Kcpcb) (segment : Seg) : Option Cause :=
  if segment.xmit = 0 then some .first
  else if 0 ≤ itimediff k.current segment.resendts then some .timeout
  else if resentLimit k ≤ segment.fastack then some .fastack
  else none

/-- What the branch does to the segment. -/
def rearm (k : Kcpcb) (segment : Seg) : Cause → Seg
  | .first =>
      let rto := UInt32.ofInt k.rxRto
      { segment with
        xmit := segment.xmit + 1
        rto := rto
        resendts := k.current + rto + rtoMin k }
  | .timeout =>
      let rto := segment.rto +
        (if k.nodelay = 0 then UInt32.ofInt k.rxRto
          else UInt32.ofInt (k.rxRto.tdiv 2))
      { segment with
        xmit := segment.xmit + 1
        rto := rto
        resendts := k.current + rto }
  | .fastack =>
      { segment with
        xmit := segment.xmit + 1
        fastack := 0
        resendts := k.current + segment.rto }

/-- What the loop that flushes data segments changes besides the segments. -/
structure DataFlush where
  xmit : UInt32
  state : UInt32
  change : Nat
  lost : Bool
  w : Writer
deriving Repr, DecidableEq

/-- One segment of `snd_buf` in that loop. -/
def flushSeg (k : Kcpcb) (wnd : UInt32) (f : DataFlush) (segment : Seg) :
    DataFlush × Seg :=
  match sendCause k segment with
  | none => (f, segment)
  | some cause =>
      let segment :=
        { rearm k segment cause with
          ts := k.current
          wnd := wnd
          una := k.rcvNxt }
      ({ xmit := if cause = .timeout then f.xmit + 1 else f.xmit
         state := if k.deadLink ≤ segment.xmit then 0xffffffff else f.state
         change := if cause = .fastack then f.change + 1 else f.change
         lost := f.lost || cause = .timeout
         w := f.w.emit k.mtu segment }, segment)

def flushLoop (k : Kcpcb) (wnd : UInt32) : DataFlush → List Seg →
    DataFlush × List Seg
  | f, [] => (f, [])
  | f, segment :: rest =>
      let (f, segment) := flushSeg k wnd f segment
      let (f, rest) := flushLoop k wnd f rest
      (f, segment :: rest)

/-- `ssthresh`, `cwnd` and `incr`. -/
structure Congestion where
  ssthresh : UInt32
  cwnd : UInt32
  incr : UInt32
deriving Repr, DecidableEq

/-- The congestion window at the end of `ikcp_flush`. -/
def congestion (k : Kcpcb) (cwnd : UInt32) (change : Nat) (lost : Bool) :
    Congestion :=
  let c : Congestion :=
    if change ≠ 0 then
      let ssthresh := (k.sndNxt - k.sndUna) / 2
      let ssthresh := if ssthresh < THRESH_MIN then THRESH_MIN else ssthresh
      ⟨ssthresh, ssthresh + resentLimit k, (ssthresh + resentLimit k) * k.mss⟩
    else ⟨k.ssthresh, k.cwnd, k.incr⟩
  let c : Congestion :=
    if lost then
      ⟨if cwnd / 2 < THRESH_MIN then THRESH_MIN else cwnd / 2, 1, k.mss⟩
    else c
  if c.cwnd < 1 then { c with cwnd := 1, incr := k.mss } else c

def flushCwnd (k : Kcpcb) (cwnd : UInt32) (change : Nat) (lost : Bool) :
    Kcpcb :=
  let c := congestion k cwnd change lost
  { k with ssthresh := c.ssthresh, cwnd := c.cwnd, incr := c.incr }

/-- The part of `ikcp_flush` that flushes data segments. -/
def flushData (k : Kcpcb) (wnd : UInt32) (w : Writer) : DataFlush × Kcpcb :=
  let result := flushLoop k wnd ⟨k.xmit, k.state, 0, false, w⟩ k.sndBuf
  (result.1, { k with
    sndBuf := result.2
    xmit := result.1.xmit
    state := result.1.state })

/-- `ikcp_flush` up to the output of what remains in the block. -/
def flushWriter (k : Kcpcb) : Kcpcb × Writer :=
  if k.updated = 0 then (k, .start)
  else
    let wnd := wndUnused k
    let (w, seg) := flushAcks k.mtu .start (flushHead k) k.acklist
    let k := probeWindow { k with acklist := [] }
    let w := flushProbes k w seg
    let k := { k with probe := 0 }
    let cwnd := flushWindow k
    let k := moveToBuf cwnd wnd k
    let (f, k) := flushData k wnd w
    (flushCwnd k cwnd f.change f.lost, f.w)

/-- `ikcp_flush`. -/
def flush (k : Kcpcb) : Kcpcb × List (List UInt8) :=
  ((flushWriter k).1, (flushWriter k).2.output)

/-- How far a flush writes into the block. -/
def flushPeak (k : Kcpcb) : Nat := (flushWriter k).2.peak

/-- The clock and the time of the flush that is due, as `ikcp_update` sets
them. -/
def syncFlush (k : Kcpcb) (current : UInt32) : Kcpcb :=
  let tsFlush := if k.updated = 0 then current else k.tsFlush
  let slap := itimediff current tsFlush
  { k with
    current := current
    updated := if k.updated = 0 then 1 else k.updated
    tsFlush := if 10000 ≤ slap ∨ slap < -10000 then current else tsFlush }

/-- The time of the flush behind the one that is made now. -/
def nextFlush (k : Kcpcb) : UInt32 :=
  let tsFlush := k.tsFlush + k.interval
  if 0 ≤ itimediff k.current tsFlush then k.current + k.interval else tsFlush

/-- `ikcp_update`; the difference is zero when `ts_flush` was far off. -/
def update (k : Kcpcb) (current : UInt32) : Kcpcb × List (List UInt8) :=
  let k := syncFlush k current
  if 0 ≤ itimediff k.current k.tsFlush then
    flush { k with tsFlush := nextFlush k }
  else (k, [])

/-- How far the flush of an update writes into the block. -/
def updatePeak (k : Kcpcb) (current : UInt32) : Nat :=
  let k := syncFlush k current
  if 0 ≤ itimediff k.current k.tsFlush then
    flushPeak { k with tsFlush := nextFlush k }
  else 0

/-- The loop of `ikcp_check`: `tm_packet`, or `none` when a segment is due. -/
def checkLoop (current : UInt32) : Int → List Seg → Option Int
  | tmPacket, [] => some tmPacket
  | tmPacket, seg :: rest =>
      let diff := itimediff seg.resendts current
      if diff ≤ 0 then none
      else checkLoop current (if diff < tmPacket then diff else tmPacket) rest

/-- `ikcp_check`. -/
def check (k : Kcpcb) (current : UInt32) : UInt32 :=
  if k.updated = 0 then current
  else
    let slap := itimediff current k.tsFlush
    let tsFlush := if 10000 ≤ slap ∨ slap < -10000 then current else k.tsFlush
    if 0 ≤ itimediff current tsFlush then current
    else
      let tmFlush := itimediff tsFlush current
      match checkLoop current 0x7fffffff k.sndBuf with
      | none => current
      | some tmPacket =>
          let minimal :=
            UInt32.ofInt (if tmPacket < tmFlush then tmPacket else tmFlush)
          current + (if k.interval ≤ minimal then k.interval else minimal)

/-- `ikcp_setmtu`; the allocation of the new block succeeds, and its size is
computed in 32 bits. -/
def setmtu (k : Kcpcb) (mtu : Int) : Int × Kcpcb :=
  if mtu < 50 ∨ mtu < OVERHEAD then (-1, k)
  else
    (0, { k with
      mtu := UInt32.ofInt mtu
      mss := UInt32.ofInt mtu - UInt32.ofNat OVERHEAD
      buffer := (UInt32.ofInt mtu + UInt32.ofNat OVERHEAD) * 3 })

/-- The bounds of the interval in `ikcp_interval` and `ikcp_nodelay`. -/
def boundInterval (interval : Int) : UInt32 :=
  UInt32.ofInt
    (if 5000 < interval then 5000 else if interval < 10 then 10 else interval)

/-- `ikcp_interval`. -/
def setInterval (k : Kcpcb) (interval : Int) : Int × Kcpcb :=
  (0, { k with interval := boundInterval interval })

/-- `ikcp_nodelay`: a negative argument leaves its field alone. -/
def setNodelay (k : Kcpcb) (nodelay interval resend nc : Int) : Int × Kcpcb :=
  (0, { k with
    nodelay := if 0 ≤ nodelay then UInt32.ofInt nodelay else k.nodelay
    rxMinrto :=
      if 0 ≤ nodelay then (if nodelay ≠ 0 then RTO_NDL else RTO_MIN)
      else k.rxMinrto
    interval := if 0 ≤ interval then boundInterval interval else k.interval
    fastresend := if 0 ≤ resend then resend else k.fastresend
    nocwnd := if 0 ≤ nc then nc else k.nocwnd })

/-- `ikcp_wndsize`. -/
def wndsize (k : Kcpcb) (sndwnd rcvwnd : Int) : Int × Kcpcb :=
  (0, { k with
    sndWnd := if 0 < sndwnd then UInt32.ofInt sndwnd else k.sndWnd
    rcvWnd := if 0 < rcvwnd then UInt32.ofInt rcvwnd else k.rcvWnd })

/-- Rule for the loop that moves data to `snd_buf`: a property of the block
that one move keeps is kept. -/
theorem sendLoop_keeps {P : Kcpcb → Prop} {cwnd wnd : UInt32}
    (hmove : ∀ k newseg rest, k.sndQueue = newseg :: rest →
      itimediff k.sndNxt (k.sndUna + cwnd) < 0 → P k → P { k with
        sndQueue := rest
        sndBuf := k.sndBuf ++ [numbered k wnd newseg]
        nsndQue := k.nsndQue - 1
        nsndBuf := k.nsndBuf + 1
        sndNxt := k.sndNxt + 1 })
    {k : Kcpcb} (hk : P k) : P (moveToBuf cwnd wnd k) := by
  have hloop : ∀ (queue : List Seg) (k : Kcpcb),
      P { k with sndQueue := queue } → P (sendLoop cwnd wnd k queue) := by
    intro queue
    induction queue with
    | nil => exact fun k hk => hk
    | cons newseg rest ih =>
        intro k hk
        rw [sendLoop]
        split
        · next h =>
            exact ih _ (hmove { k with sndQueue := newseg :: rest } newseg rest
              rfl h hk)
        · exact hk
  exact hloop k.sndQueue k hk

theorem imin_le_right (a b : UInt32) : imin a b ≤ b := by
  rw [imin]
  split
  · assumption
  · exact UInt32.le_refl b

theorem flush_idle {k : Kcpcb} (hup : k.updated = 0) : flush k = (k, []) := by
  rw [flush, flushWriter, if_pos hup]
  rfl

/-- A flush never has a window beyond the one that the peer has told. -/
theorem flushWindow_le (k : Kcpcb) : flushWindow k ≤ k.rmtWnd := by
  unfold flushWindow
  dsimp only
  split
  · exact UInt32.le_trans (imin_le_right _ _) (imin_le_right _ _)
  · exact imin_le_right _ _

/-- Rule for `ikcp_flush`, with one premise for each of its parts. -/
theorem flush_keeps {P : Kcpcb → Prop}
    (hprobe : ∀ k, P k →
      P { probeWindow { k with acklist := [] } with probe := 0 })
    (hsend : ∀ k cwnd wnd newseg rest, k.sndQueue = newseg :: rest →
      cwnd ≤ k.rmtWnd → itimediff k.sndNxt (k.sndUna + cwnd) < 0 → P k →
      P { k with
        sndQueue := rest
        sndBuf := k.sndBuf ++ [numbered k wnd newseg]
        nsndQue := k.nsndQue - 1
        nsndBuf := k.nsndBuf + 1
        sndNxt := k.sndNxt + 1 })
    (hdata : ∀ k wnd w, P k → P (flushData k wnd w).2)
    (hcwnd : ∀ k cwnd change lost, P k → P (flushCwnd k cwnd change lost))
    {k : Kcpcb} (hk : P k) : P (flush k).1 := by
  unfold flush flushWriter
  split
  · exact hk
  · dsimp only
    apply hcwnd
    apply hdata
    have hready := hprobe k hk
    generalize
      ({ probeWindow { k with acklist := [] } with probe := 0 } : Kcpcb) = k'
      at hready ⊢
    -- The window is read before the loop and the loop leaves it alone.
    have hloop := @sendLoop_keeps (fun s => s.rmtWnd = k'.rmtWnd ∧ P s)
      (flushWindow k') (wndUnused k)
      (fun s newseg rest hqueue hlt hs => ⟨hs.1,
        hsend s (flushWindow k') (wndUnused k) newseg rest hqueue
          (hs.1 ▸ flushWindow_le k') hlt hs.2⟩) k' ⟨rfl, hready⟩
    exact hloop.2

/-- A flush that is made ends with the congestion window. -/
theorem flush_ends {P : Kcpcb → Prop}
    (hcwnd : ∀ k cwnd change lost, P (flushCwnd k cwnd change lost))
    {k : Kcpcb} (hup : k.updated ≠ 0) : P (flush k).1 := by
  unfold flush flushWriter
  rw [if_neg hup]
  exact hcwnd _ _ _ _

/-- Rule for `ikcp_update`. -/
theorem update_keeps {P : Kcpcb → Prop}
    (hclock : ∀ k current updated tsFlush, P k →
      P { k with current := current, updated := updated, tsFlush := tsFlush })
    (hflush : ∀ k, P k → P (flush k).1)
    {k : Kcpcb} (hk : P k) (current : UInt32) : P (update k current).1 := by
  have hsync : P (syncFlush k current) := hclock k current _ _ hk
  have htime : ∀ k tsFlush, P k → P { k with tsFlush := tsFlush } :=
    fun k tsFlush hk => hclock k k.current k.updated tsFlush hk
  rw [update]
  generalize syncFlush k current = k' at hsync
  split
  · exact hflush _ (htime k' _ hsync)
  · exact hsync

end Ikcp

end Libsaf
