/-
`IKCPCB`, the control block of the ARQ in `third/ikcp`, with what the
application calls to send and receive and what the network calls to hand in a
datagram.  A function that changes the block returns it.  Signed integers wrap
where the source overflows them.
-/
import Libsaf.IkcpSeg

namespace Libsaf

namespace Ikcp

/-- `acklist` holds `ackcount` pairs; `ackblock` is how many fit in it, and
`buffer` is how many bytes fit in the block that `ikcp_flush` writes to. -/
structure Kcpcb where
  conv : UInt32
  mtu : UInt32
  mss : UInt32
  state : UInt32
  sndUna : UInt32
  sndNxt : UInt32
  rcvNxt : UInt32
  ssthresh : UInt32
  rxRttval : Int
  rxSrtt : Int
  rxRto : Int
  rxMinrto : Int
  sndWnd : UInt32
  rcvWnd : UInt32
  rmtWnd : UInt32
  cwnd : UInt32
  probe : UInt32
  current : UInt32
  interval : UInt32
  tsFlush : UInt32
  xmit : UInt32
  nrcvBuf : UInt32
  nsndBuf : UInt32
  nrcvQue : UInt32
  nsndQue : UInt32
  nodelay : UInt32
  updated : UInt32
  tsProbe : UInt32
  probeWait : UInt32
  deadLink : UInt32
  incr : UInt32
  sndQueue : List Seg
  rcvQueue : List Seg
  sndBuf : List Seg
  rcvBuf : List Seg
  acklist : List (UInt32 × UInt32)
  ackblock : Nat
  buffer : UInt32
  fastresend : Int
  nocwnd : Int
  stream : Int
deriving DecidableEq

/-- `ikcp_create`. -/
def create (conv : UInt32) : Kcpcb :=
  { conv := conv
    mtu := MTU_DEF
    mss := MTU_DEF - UInt32.ofNat OVERHEAD
    state := 0
    sndUna := 0
    sndNxt := 0
    rcvNxt := 0
    ssthresh := THRESH_INIT
    rxRttval := 0
    rxSrtt := 0
    rxRto := RTO_DEF
    rxMinrto := RTO_MIN
    sndWnd := WND_SND
    rcvWnd := WND_RCV
    rmtWnd := WND_RCV
    cwnd := 0
    probe := 0
    current := 0
    interval := INTERVAL
    tsFlush := INTERVAL
    xmit := 0
    nrcvBuf := 0
    nsndBuf := 0
    nrcvQue := 0
    nsndQue := 0
    nodelay := 0
    updated := 0
    tsProbe := 0
    probeWait := 0
    deadLink := DEADLINK
    incr := 0
    sndQueue := []
    rcvQueue := []
    sndBuf := []
    rcvBuf := []
    acklist := []
    ackblock := 0
    buffer := (MTU_DEF + UInt32.ofNat OVERHEAD) * 3
    fastresend := 0
    nocwnd := 0
    stream := 0 }

/-- `_imin_`. -/
def imin (a b : UInt32) : UInt32 := if a ≤ b then a else b

/-- `_imax_`. -/
def imax (a b : UInt32) : UInt32 := if a ≥ b then a else b

/-- `_ibound_`. -/
def ibound (lower middle upper : UInt32) : UInt32 :=
  imin (imax lower middle) upper

/-- The loop of `ikcp_peeksize`. -/
def peekLoop : Int → List Seg → Int
  | length, [] => length
  | length, seg :: rest =>
      let length := toInt (length + seg.len.toNat)
      if seg.frg = 0 then length else peekLoop length rest

def peeksize (k : Kcpcb) : Int :=
  match k.rcvQueue with
  | [] => -1
  | seg :: _ =>
      if seg.frg = 0 then toInt seg.len.toNat
      else if k.nrcvQue < seg.frg + 1 then -1
      else peekLoop 0 k.rcvQueue

/-- The loop of `ikcp_recv` that merges fragments: the length so far, the bytes
copied, `nrcv_que`, and the part of the queue that is left. -/
def mergeLoop (ispeek : Bool) : Int → List UInt8 → UInt32 → List Seg →
    Int × List UInt8 × UInt32 × List Seg
  | len, buffer, nrcvQue, [] => (len, buffer, nrcvQue, [])
  | len, buffer, nrcvQue, seg :: rest =>
      let buffer := buffer ++ seg.data
      let len := toInt (len + seg.len.toNat)
      let nrcvQue := if ispeek then nrcvQue else nrcvQue - 1
      if seg.frg = 0 then (len, buffer, nrcvQue, rest)
      else mergeLoop ispeek len buffer nrcvQue rest

/-- Move available data from `rcv_buf` to `rcv_queue`. -/
def moveLoop (k : Kcpcb) : List Seg → Kcpcb
  | [] => { k with rcvBuf := [] }
  | seg :: rest =>
      if seg.sn = k.rcvNxt ∧ k.nrcvQue < k.rcvWnd then
        moveLoop { k with
          nrcvBuf := k.nrcvBuf - 1
          rcvQueue := k.rcvQueue ++ [seg]
          nrcvQue := k.nrcvQue + 1
          rcvNxt := k.rcvNxt + 1 } rest
      else { k with rcvBuf := seg :: rest }

def moveAvailable (k : Kcpcb) : Kcpcb := moveLoop k k.rcvBuf

/-- `ikcp_recv` into a buffer of `len` bytes: the result, the bytes copied to
the buffer and the block.  A negative `len` only peeks. -/
def recv (k : Kcpcb) (len : Int) : Int × List UInt8 × Kcpcb :=
  let ispeek : Bool := decide (len < 0)
  if k.rcvQueue = [] then (-1, [], k)
  else
    let len := if len < 0 then -len else len
    if peeksize k < 0 then (-2, [], k)
    else if len < peeksize k then (-3, [], k)
    else
      let recover := decide (k.rcvWnd ≤ k.nrcvQue)
      let (len, buffer, nrcvQue, rest) :=
        mergeLoop ispeek 0 [] k.nrcvQue k.rcvQueue
      let k := moveAvailable { k with
        nrcvQue := nrcvQue
        rcvQueue := if ispeek then k.rcvQueue else rest }
      let k :=
        if k.nrcvQue < k.rcvWnd ∧ recover then
          { k with probe := k.probe ||| ASK_TELL }
        else k
      (len, buffer, k)

/-- A segment of `ikcp_send`; the header is written when it is flushed. -/
def Seg.fresh (frg len : UInt32) (data : List UInt8)
    (hdata : data.length = len.toNat) : Seg :=
  { conv := 0
    cmd := 0
    frg := frg
    wnd := 0
    ts := 0
    sn := 0
    una := 0
    len := len
    resendts := 0
    rto := 0
    fastack := 0
    xmit := 0
    data := data
    length_data := hdata }

theorem length_extended {old : Seg} {mss : UInt32} (h : old.len < mss)
    (buffer : List UInt8) :
    (old.data ++ buffer.take (mss - old.len).toNat).length =
      (old.len + UInt32.ofNat (min (mss - old.len).toNat buffer.length)).toNat
      := by
  have hlt := UInt32.lt_iff_toNat_lt.mp h
  have hmss := mss.toNat_lt
  simp only [List.length_append, old.length_data, List.length_take,
    UInt32.toNat_add, UInt32.toNat_ofNat', UInt32.toNat_sub]
  omega

/-- In streaming mode `ikcp_send` first fills up the last segment of the queue.
The bytes that are left come back with the block. -/
def extendLast (k : Kcpcb) (buffer : List UInt8) : Kcpcb × List UInt8 :=
  match k.sndQueue.getLast? with
  | none => (k, buffer)
  | some old =>
      if h : old.len < k.mss then
        let capacity := (k.mss - old.len).toNat
        let seg := Seg.fresh 0
          (old.len + UInt32.ofNat (min capacity buffer.length))
          (old.data ++ buffer.take capacity) (length_extended h buffer)
        ({ k with sndQueue := k.sndQueue.dropLast ++ [seg] },
          buffer.drop capacity)
      else (k, buffer)

theorem length_fragment (mss : UInt32) (buffer : List UInt8) :
    (buffer.take mss.toNat).length =
      (UInt32.ofNat (min mss.toNat buffer.length)).toNat := by
  have hmss := mss.toNat_lt
  simp only [List.length_take, UInt32.toNat_ofNat']
  omega

/-- The loop of `ikcp_send`; the first argument is `count - i`. -/
def fragments (mss : UInt32) (stream : Int) : Nat → List UInt8 → List Seg
  | 0, _ => []
  | i + 1, buffer =>
      Seg.fresh (if stream = 0 then UInt32.ofNat i else 0)
        (UInt32.ofNat (min mss.toNat buffer.length))
        (buffer.take mss.toNat) (length_fragment mss buffer) ::
      fragments mss stream i (buffer.drop mss.toNat)

def fragmentCount (mss : UInt32) (len : Nat) : Nat :=
  if len ≤ mss.toNat then 1
  else ((UInt32.ofNat len + mss - 1) / mss).toNat

/-- The part of `ikcp_send` that cuts the buffer into segments. -/
def sendFragments (k : Kcpcb) (buffer : List UInt8) : Int × Kcpcb :=
  let count := fragmentCount k.mss buffer.length
  if 255 < count then (-2, k)
  else
    let count := if count = 0 then 1 else count
    (0, { k with
      sndQueue := k.sndQueue ++ fragments k.mss k.stream count buffer
      nsndQue := k.nsndQue + UInt32.ofNat count })

/-- `ikcp_send` of the first `len` bytes of `buffer`. -/
def send (k : Kcpcb) (buffer : List UInt8) (len : Int) : Int × Kcpcb :=
  if len < 0 then (-1, k)
  else if k.stream ≠ 0 then
    let (k, buffer) := extendLast k (buffer.take len.toNat)
    if buffer = [] then (0, k) else sendFragments k buffer
  else sendFragments k (buffer.take len.toNat)

/-- `rx_srtt` and `rx_rttval` as `ikcp_update_ack` smooths them. -/
def smoothRtt (k : Kcpcb) (rtt : Int) : Int × Int :=
  if k.rxSrtt = 0 then (rtt, rtt.tdiv 2)
  else
    let delta := toInt (rtt - k.rxSrtt)
    let delta := if delta < 0 then -delta else delta
    let srtt := (toInt (7 * k.rxSrtt + rtt)).tdiv 8
    (if srtt < 1 then 1 else srtt,
      toInt ((toInt (3 * k.rxRttval) + delta).tdiv 4))

/-- `ikcp_update_ack`. -/
def updateAck (k : Kcpcb) (rtt : Int) : Kcpcb :=
  let rtt := smoothRtt k rtt
  let rto := UInt32.ofInt rtt.1 + imax k.interval (UInt32.ofInt (4 * rtt.2))
  { k with
    rxSrtt := rtt.1
    rxRttval := rtt.2
    rxRto := (ibound (UInt32.ofInt k.rxMinrto) rto
      (UInt32.ofNat RTO_MAX)).toNat }

/-- The first number of `snd_buf`, or the next one when it is empty. -/
def firstSn (sndNxt : UInt32) : List Seg → UInt32
  | seg :: _ => seg.sn
  | [] => sndNxt

/-- `ikcp_shrink_buf`. -/
def shrinkBuf (k : Kcpcb) : Kcpcb :=
  { k with sndUna := firstSn k.sndNxt k.sndBuf }

/-- The loop of `ikcp_parse_ack`: is the segment found, and what is left. -/
def ackLoop (sn : UInt32) : List Seg → Bool × List Seg
  | [] => (false, [])
  | seg :: rest =>
      if sn = seg.sn then (true, rest)
      else if itimediff sn seg.sn < 0 then (false, seg :: rest)
      else
        let (found, rest) := ackLoop sn rest
        (found, seg :: rest)

/-- `ikcp_parse_ack`. -/
def parseAck (k : Kcpcb) (sn : UInt32) : Kcpcb :=
  if itimediff sn k.sndUna < 0 ∨ 0 ≤ itimediff sn k.sndNxt then k
  else
    let result := ackLoop sn k.sndBuf
    { k with
      sndBuf := result.2
      nsndBuf := if result.1 then k.nsndBuf - 1 else k.nsndBuf }

/-- The loop of `ikcp_parse_una`: what is left, and the count. -/
def unaLoop (una : UInt32) : UInt32 → List Seg → UInt32 × List Seg
  | nsndBuf, [] => (nsndBuf, [])
  | nsndBuf, seg :: rest =>
      if 0 < itimediff una seg.sn then unaLoop una (nsndBuf - 1) rest
      else (nsndBuf, seg :: rest)

/-- `ikcp_parse_una`. -/
def parseUna (k : Kcpcb) (una : UInt32) : Kcpcb :=
  let result := unaLoop una k.nsndBuf k.sndBuf
  { k with nsndBuf := result.1, sndBuf := result.2 }

/-- The loop of `ikcp_parse_fastack`. -/
def fastackLoop (sn : UInt32) : List Seg → List Seg
  | [] => []
  | seg :: rest =>
      if itimediff sn seg.sn < 0 then seg :: rest
      else if sn ≠ seg.sn then
        { seg with fastack := seg.fastack + 1 } :: fastackLoop sn rest
      else seg :: fastackLoop sn rest

/-- `ikcp_parse_fastack`. -/
def parseFastack (k : Kcpcb) (sn : UInt32) : Kcpcb :=
  if itimediff sn k.sndUna < 0 ∨ 0 ≤ itimediff sn k.sndNxt then k
  else { k with sndBuf := fastackLoop sn k.sndBuf }

/-- `for (newblock = 8; newblock < newsize; newblock <<= 1)`, as often as the
first argument says at most. -/
def blockLoop : Nat → Nat → Nat → Nat
  | 0, newblock, _ => newblock
  | fuel + 1, newblock, newsize =>
      if newblock < newsize then blockLoop fuel (newblock * 2) newsize
      else newblock

/-- `ikcp_ack_push`. -/
def ackPush (k : Kcpcb) (sn ts : UInt32) : Kcpcb :=
  let newsize := k.acklist.length + 1
  { k with
    ackblock :=
      if k.ackblock < newsize then blockLoop newsize 8 newsize
      else k.ackblock
    acklist := k.acklist ++ [(sn, ts)] }

/-- The search of `ikcp_parse_data`, from the back of `rcv_buf`: the list is
reversed, and `none` is a repeated segment. -/
def insertLoop (newseg : Seg) : List Seg → Option (List Seg)
  | [] => some [newseg]
  | seg :: prev =>
      if seg.sn = newseg.sn then none
      else if 0 < itimediff newseg.sn seg.sn then some (newseg :: seg :: prev)
      else (insertLoop newseg prev).map (seg :: ·)

/-- `ikcp_parse_data`. -/
def parseData (k : Kcpcb) (newseg : Seg) : Kcpcb :=
  if 0 ≤ itimediff newseg.sn (k.rcvNxt + k.rcvWnd) ∨
      itimediff newseg.sn k.rcvNxt < 0 then k
  else
    match insertLoop newseg k.rcvBuf.reverse with
    | some rcvBuf => moveAvailable { k with
        rcvBuf := rcvBuf.reverse
        nrcvBuf := k.nrcvBuf + 1 }
    | none => moveAvailable k

/-- The round trip that an acknowledge shows. -/
def ackRtt (k : Kcpcb) (ts : UInt32) : Kcpcb :=
  if 0 ≤ itimediff k.current ts then updateAck k (itimediff k.current ts)
  else k

/-- A segment of `IKCP_CMD_ACK` in the loop of `ikcp_input`. -/
def inputAck (k : Kcpcb) (seg : Seg) : Kcpcb :=
  shrinkBuf (parseAck (ackRtt k seg.ts) seg.sn)

/-- A segment of `IKCP_CMD_PUSH` in the loop of `ikcp_input`. -/
def inputPush (k : Kcpcb) (seg : Seg) : Kcpcb :=
  if itimediff seg.sn (k.rcvNxt + k.rcvWnd) < 0 then
    let k := ackPush k seg.sn seg.ts
    if 0 ≤ itimediff seg.sn k.rcvNxt then parseData k seg else k
  else k

/-- `flag` and `maxack` of `ikcp_input`: `none` while the flag is zero. -/
def nextMaxack (maxack : Option UInt32) (sn : UInt32) : UInt32 :=
  match maxack with
  | none => sn
  | some old => if 0 < itimediff sn old then sn else old

/-- What every segment does in the loop of `ikcp_input`. -/
def inputUna (k : Kcpcb) (seg : Seg) : Kcpcb :=
  shrinkBuf (parseUna { k with rmtWnd := seg.wnd } seg.una)

/-- One segment in the loop of `ikcp_input`, when its command is known. -/
def inputSeg (k : Kcpcb) (maxack : Option UInt32) (seg : Seg) :
    Kcpcb × Option UInt32 :=
  let k := inputUna k seg
  if seg.cmd = CMD_ACK then
    (inputAck k seg, some (nextMaxack maxack seg.sn))
  else if seg.cmd = CMD_PUSH then (inputPush k seg, maxack)
  else if seg.cmd = CMD_WASK then
    ({ k with probe := k.probe ||| ASK_TELL }, maxack)
  else (k, maxack)

def validCmd (cmd : UInt32) : Bool :=
  cmd == CMD_PUSH || cmd == CMD_ACK || cmd == CMD_WASK || cmd == CMD_WINS

/-- The loop of `ikcp_input`.  A pass takes at least a header, so `data.length`
passes are enough; `error` is the value returned from inside the loop. -/
def inputLoop : Nat → Kcpcb → Option UInt32 → List UInt8 →
    Kcpcb × Except Int (Option UInt32)
  | 0, k, maxack, _ => (k, .ok maxack)
  | fuel + 1, k, maxack, data =>
      if data.length < OVERHEAD then (k, .ok maxack)
      else
        let (h, data) := decodeHeader data
        if h.conv ≠ k.conv then (k, .error (-1))
        else if hlen : data.length < h.len.toNat then (k, .error (-2))
        else if ¬ validCmd h.cmd.toUInt32 then (k, .error (-3))
        else
          let seg := h.seg (data.take h.len.toNat)
            (by rw [List.length_take]; omega)
          let (k, maxack) := inputSeg k maxack seg
          inputLoop fuel k maxack (data.drop h.len.toNat)

/-- `cwnd` and `incr` one step wider: slow start below `ssthresh`, congestion
avoidance from there on. -/
def widerCwnd (k : Kcpcb) : UInt32 × UInt32 :=
  let mss := k.mss
  if k.cwnd < k.ssthresh then (k.cwnd + 1, k.incr + mss)
  else
    let incr := if k.incr < mss then mss else k.incr
    let incr := incr + ((mss * mss) / incr + mss / 16)
    (if (k.cwnd + 1) * mss ≤ incr then k.cwnd + 1 else k.cwnd, incr)

/-- `cwnd` and `incr` after an `ikcp_input` that moved `snd_una`. -/
def grownCwnd (k : Kcpcb) : UInt32 × UInt32 :=
  if k.cwnd < k.rmtWnd then
    if k.rmtWnd < (widerCwnd k).1 then (k.rmtWnd, k.rmtWnd * k.mss)
    else widerCwnd k
  else (k.cwnd, k.incr)

def growCwnd (k : Kcpcb) : Kcpcb :=
  { k with cwnd := (grownCwnd k).1, incr := (grownCwnd k).2 }

/-- The part of `ikcp_input` behind the loop; `una` is `snd_una` at the
start. -/
def inputEnd (una : UInt32) (k : Kcpcb) (maxack : Option UInt32) : Kcpcb :=
  let k :=
    match maxack with
    | some sn => parseFastack k sn
    | none => k
  if 0 < itimediff k.sndUna una then growCwnd k else k

/-- `ikcp_input` of a datagram. -/
def input (k : Kcpcb) (data : List UInt8) : Int × Kcpcb :=
  if data.length < OVERHEAD then (-1, k)
  else
    match inputLoop data.length k none data with
    | (k', .error code) => (code, k')
    | (k', .ok maxack) => (0, inputEnd k.sndUna k' maxack)

/-- `ikcp_waitsnd`. -/
def waitsnd (k : Kcpcb) : Int := toInt (k.nsndBuf + k.nsndQue).toNat

@[simp] theorem length_fragments (mss : UInt32) (stream : Int) (count : Nat)
    (buffer : List UInt8) : (fragments mss stream count buffer).length = count
    := by
  induction count generalizing buffer with
  | zero => rfl
  | succ i ih => rw [fragments, List.length_cons, ih]

/-- The segments at the front of a queue up to the one that ends a message. -/
def firstMessage : List Seg → List Seg
  | [] => []
  | seg :: rest => if seg.frg = 0 then [seg] else seg :: firstMessage rest

theorem prefix_firstMessage (queue : List Seg) :
    firstMessage queue <+: queue := by
  induction queue with
  | nil => exact List.prefix_refl []
  | cons seg rest ih =>
      rw [firstMessage]
      split
      · exact ⟨rest, rfl⟩
      · exact List.cons_prefix_cons.mpr ⟨rfl, ih⟩

/-- `ikcp_recv` merges the message that `ikcp_peeksize` has measured. -/
theorem mergeLoop_eq (ispeek : Bool) (len : Int) (buffer : List UInt8)
    (nrcvQue : UInt32) (queue : List Seg) :
    mergeLoop ispeek len buffer nrcvQue queue =
      (peekLoop len queue, buffer ++ (firstMessage queue).flatMap Seg.data,
        if ispeek then nrcvQue
        else nrcvQue - UInt32.ofNat (firstMessage queue).length,
        queue.drop (firstMessage queue).length) := by
  induction queue generalizing len buffer nrcvQue with
  | nil => simp [mergeLoop, peekLoop, firstMessage]
  | cons seg rest ih =>
      rw [mergeLoop, peekLoop, firstMessage]
      by_cases hlast : seg.frg = 0
      · simp [hlast]
      · have hcount : nrcvQue - 1 - UInt32.ofNat (firstMessage rest).length =
            nrcvQue - UInt32.ofNat ((firstMessage rest).length + 1) := by
          rw [UInt32.ofNat_add]
          grind
        simp only [hlast, ↓reduceIte, ih, List.flatMap_cons, List.append_assoc,
          List.length_cons, List.drop_succ_cons]
        cases ispeek with
        | true => rfl
        | false => rw [← hcount]; rfl

/-- A size that is not negative is the size of the first message, so the
assertion of `ikcp_recv` holds. -/
theorem peekLoop_eq_peeksize {k : Kcpcb} (h : 0 ≤ peeksize k) :
    peekLoop 0 k.rcvQueue = peeksize k := by
  unfold peeksize at h ⊢
  cases hqueue : k.rcvQueue with
  | nil => simp [hqueue] at h
  | cons seg rest =>
      simp only [hqueue] at h ⊢
      split
      · next hlast => simp [peekLoop, hlast]
      · next hmore =>
          rw [if_neg hmore] at h
          split
          · next hshort => simp [hshort] at h
          · rfl

/-- Rule for the loop that moves data to `rcv_queue`: a property of the block
that one move keeps is kept. -/
theorem moveAvailable_keeps {P : Kcpcb → Prop}
    (hmove : ∀ k seg rest, k.rcvBuf = seg :: rest → seg.sn = k.rcvNxt →
      k.nrcvQue < k.rcvWnd → P k → P { k with
        rcvBuf := rest
        nrcvBuf := k.nrcvBuf - 1
        rcvQueue := k.rcvQueue ++ [seg]
        nrcvQue := k.nrcvQue + 1
        rcvNxt := k.rcvNxt + 1 })
    {k : Kcpcb} (hk : P k) : P (moveAvailable k) := by
  have hloop : ∀ (buf : List Seg) (k : Kcpcb),
      P { k with rcvBuf := buf } → P (moveLoop k buf) := by
    intro buf
    induction buf with
    | nil => exact fun k hk => hk
    | cons seg rest ih =>
        intro k hk
        rw [moveLoop]
        split
        · next h =>
            exact ih _ (hmove { k with rcvBuf := seg :: rest } seg rest rfl h.1
              h.2 hk)
        · exact hk
  exact hloop k.rcvBuf k hk

/-- When the loop ends, the first segment is not the next one or the queue is
full. -/
theorem moveAvailable_stuck (k : Kcpcb) (seg : Seg)
    (hseg : (moveAvailable k).rcvBuf.head? = some seg)
    (hsn : seg.sn = (moveAvailable k).rcvNxt) :
    (moveAvailable k).rcvWnd ≤ (moveAvailable k).nrcvQue := by
  have hloop : ∀ (buf : List Seg) (k : Kcpcb),
      (moveLoop k buf).rcvBuf.head? = some seg →
      seg.sn = (moveLoop k buf).rcvNxt →
      (moveLoop k buf).rcvWnd ≤ (moveLoop k buf).nrcvQue := by
    intro buf
    induction buf with
    | nil =>
        intro k hhead
        simp [moveLoop] at hhead
    | cons first rest ih =>
        intro k hhead hnext
        rw [moveLoop] at hhead hnext ⊢
        split at hhead
        · next h =>
            rw [if_pos h] at hnext ⊢
            exact ih _ hhead hnext
        · next h =>
            rw [if_neg h] at hnext ⊢
            obtain rfl : first = seg := by simpa using hhead
            exact UInt32.not_lt.mp fun hlt => h ⟨hnext, hlt⟩
  exact hloop k.rcvBuf k hseg hsn

/-- The block without its first message, unless it is only looked at. -/
def takeMessage (k : Kcpcb) (ispeek : Bool) : Kcpcb :=
  if ispeek then k
  else
    { k with
      nrcvQue := k.nrcvQue - UInt32.ofNat (firstMessage k.rcvQueue).length
      rcvQueue := k.rcvQueue.drop (firstMessage k.rcvQueue).length }

/-- What `ikcp_recv` can do: fail and change nothing, or return the first
message and move what is available. -/
theorem recv_cases (k : Kcpcb) (len : Int) :
    (∃ code, code < 0 ∧ recv k len = (code, [], k)) ∨
    (0 ≤ peeksize k ∧ peeksize k ≤ len.natAbs ∧ ∃ probe, recv k len =
      (peeksize k, (firstMessage k.rcvQueue).flatMap Seg.data,
        { moveAvailable (takeMessage k (decide (len < 0))) with
          probe := probe })) := by
  have habs : (if len < 0 then -len else len) = len.natAbs := by
    split <;> omega
  rw [recv]
  dsimp only
  rw [habs]
  by_cases hempty : k.rcvQueue = []
  · rw [if_pos hempty]
    exact Or.inl ⟨-1, by decide, rfl⟩
  rw [if_neg hempty]
  by_cases hnone : peeksize k < 0
  · rw [if_pos hnone]
    exact Or.inl ⟨-2, by decide, rfl⟩
  rw [if_neg hnone]
  by_cases hlarge : (len.natAbs : Int) < peeksize k
  · rw [if_pos hlarge]
    exact Or.inl ⟨-3, by decide, rfl⟩
  rw [if_neg hlarge]
  refine Or.inr ⟨Int.not_lt.mp hnone, Int.not_lt.mp hlarge, ?_⟩
  rw [mergeLoop_eq, peekLoop_eq_peeksize (Int.not_lt.mp hnone)]
  have htake : ({ k with
      nrcvQue :=
        if decide (len < 0) then k.nrcvQue
        else k.nrcvQue - UInt32.ofNat (firstMessage k.rcvQueue).length
      rcvQueue :=
        if decide (len < 0) then k.rcvQueue
        else k.rcvQueue.drop (firstMessage k.rcvQueue).length } : Kcpcb) =
      takeMessage k (decide (len < 0)) := by
    rw [takeMessage]
    cases decide (len < 0) with
    | true => rfl
    | false => rfl
  dsimp only
  rw [htake, List.nil_append]
  split
  · exact ⟨_, rfl⟩
  · exact ⟨_, rfl⟩

/-- Where the search of `ikcp_parse_data` puts a new segment, in the reversed
list: behind segments that are not older and in front of an older one. -/
theorem insertLoop_some {newseg : Seg} {l r : List Seg}
    (h : insertLoop newseg l = some r) :
    ∃ back front, l = back ++ front ∧ r = back ++ newseg :: front ∧
      (∀ s ∈ back, s.sn ≠ newseg.sn ∧ itimediff newseg.sn s.sn ≤ 0) ∧
      ∀ s, front.head? = some s → 0 < itimediff newseg.sn s.sn := by
  induction l generalizing r with
  | nil =>
      obtain rfl := Option.some.inj h
      exact ⟨[], [], rfl, rfl, by simp, by simp⟩
  | cons seg prev ih =>
      rw [insertLoop] at h
      split at h
      · cases h
      · next hne =>
          split at h
          · next hlt =>
              obtain rfl := Option.some.inj h
              refine ⟨[], seg :: prev, rfl, rfl, by simp, ?_⟩
              intro s hs
              obtain rfl : seg = s := by simpa using hs
              exact hlt
          · next hge =>
              obtain ⟨r', hr', rfl⟩ := Option.map_eq_some_iff.mp h
              obtain ⟨back, front, hl, hr, hback, hfront⟩ := ih hr'
              refine ⟨seg :: back, front, by rw [hl]; rfl, by rw [hr]; rfl, ?_,
                hfront⟩
              intro s hs
              rcases List.mem_cons.mp hs with rfl | hs
              · exact ⟨hne, Int.not_lt.mp hge⟩
              · exact hback s hs

theorem insertLoop_none {newseg : Seg} {l : List Seg}
    (h : insertLoop newseg l = none) : ∃ s ∈ l, s.sn = newseg.sn := by
  induction l with
  | nil => cases h
  | cons seg prev ih =>
      rw [insertLoop] at h
      split at h
      · next heq => exact ⟨seg, List.mem_cons_self, heq⟩
      · split at h
        · cases h
        · obtain ⟨s, hs, hsn⟩ := ih (Option.map_eq_none_iff.mp h)
          exact ⟨s, List.mem_cons_of_mem seg hs, hsn⟩

/-- Rule for the loop of `ikcp_parse_una`. -/
theorem parseUna_keeps {P : Kcpcb → Prop} {una : UInt32}
    (hdrop : ∀ k seg rest, k.sndBuf = seg :: rest →
      0 < itimediff una seg.sn → P k → P { k with
        sndBuf := rest
        nsndBuf := k.nsndBuf - 1 })
    {k : Kcpcb} (hk : P k) : P (parseUna k una) := by
  have hloop : ∀ (buf : List Seg) (n : UInt32),
      P { k with sndBuf := buf, nsndBuf := n } →
      P { k with
        nsndBuf := (unaLoop una n buf).1
        sndBuf := (unaLoop una n buf).2 } := by
    intro buf
    induction buf with
    | nil => exact fun n hk => hk
    | cons seg rest ih =>
        intro n hk
        rw [unaLoop]
        split
        · next h =>
            exact ih _ (hdrop { k with sndBuf := seg :: rest, nsndBuf := n }
              seg rest rfl h hk)
        · exact hk
  exact hloop k.sndBuf k.nsndBuf hk

/-- Rule for a segment that carries data. -/
theorem inputPush_keeps {P : Kcpcb → Prop} {k : Kcpcb} {seg : Seg}
    (hack : P k → P (ackPush k seg.sn seg.ts))
    (hdata : ∀ k, P k → P (parseData k seg)) (hk : P k) :
    P (inputPush k seg) := by
  rw [inputPush]
  split
  · dsimp only
    split
    · exact hdata _ (hack hk)
    · exact hack hk
  · exact hk

/-- Rule for the command of a segment. -/
theorem inputSeg_keeps {P : Kcpcb → Prop} {k : Kcpcb}
    {maxack : Option UInt32} {seg : Seg}
    (hack : seg.cmd = CMD_ACK → P (inputAck (inputUna k seg) seg))
    (hpush : seg.cmd = CMD_PUSH → P (inputPush (inputUna k seg) seg))
    (hask : ∀ probe, P { inputUna k seg with probe := probe }) :
    P (inputSeg k maxack seg).1 := by
  rw [inputSeg]
  generalize inputUna k seg = k' at hack hpush hask
  split
  · next hcmd => exact hack hcmd
  · split
    · next hcmd => exact hpush hcmd
    · split
      · exact hask _
      · exact hask k'.probe

theorem extendLast_keeps {P : Kcpcb → Prop} {k : Kcpcb}
    (hqueue : ∀ queue, P { k with sndQueue := queue }) (buffer : List UInt8) :
    P (extendLast k buffer).1 := by
  rw [extendLast]
  split
  · exact hqueue k.sndQueue
  · split
    · exact hqueue _
    · exact hqueue k.sndQueue

theorem sendFragments_keeps {P : Kcpcb → Prop} {k : Kcpcb}
    (hqueue : ∀ queue n, P { k with sndQueue := queue, nsndQue := n })
    (buffer : List UInt8) : P (sendFragments k buffer).2 := by
  rw [sendFragments]
  split
  · exact hqueue k.sndQueue k.nsndQue
  · exact hqueue _ _

/-- Sending touches the queue and its counter alone. -/
theorem send_keeps {P : Kcpcb → Prop}
    (hqueue : ∀ k queue n, P k → P { k with sndQueue := queue, nsndQue := n })
    {k : Kcpcb} (hk : P k) (buffer : List UInt8) (len : Int) :
    P (send k buffer len).2 := by
  have hextend : ∀ buffer, P (extendLast k buffer).1 :=
    extendLast_keeps fun queue => hqueue k queue k.nsndQue hk
  have hcut : ∀ k, P k → ∀ buffer, P (sendFragments k buffer).2 :=
    fun k hk => sendFragments_keeps fun queue n => hqueue k queue n hk
  rw [send]
  split
  · exact hk
  · split
    · dsimp only
      split
      · exact hextend _
      · exact hcut _ (hextend _) _
    · exact hcut k hk _

/-- What `ikcp_input` checks of a header before it looks at the segment, and
what the widths of the fields say. -/
structure Seg.Arrived (conv : UInt32) (s : Seg) : Prop where
  conv_eq : s.conv = conv
  cmd_valid : validCmd s.cmd
  frg_lt : s.frg.toNat < 2 ^ 8
  wnd_lt : s.wnd.toNat < 2 ^ 16

theorem Header.seg_arrived {h : Header} {conv : UInt32} {data : List UInt8}
    {hdata : data.length = h.len.toNat} (hconv : h.conv = conv)
    (hcmd : validCmd h.cmd.toUInt32) : (h.seg data hdata).Arrived conv where
  conv_eq := hconv
  cmd_valid := hcmd
  frg_lt := by
    have := h.frg.toNat_lt
    simpa [Header.seg] using this
  wnd_lt := by
    have := h.wnd.toNat_lt
    simpa [Header.seg] using this

/-- Rule for what `ikcp_input` does behind the loop. -/
theorem inputEnd_keeps {P : Kcpcb → Prop}
    (hfast : ∀ k sn, P k → P (parseFastack k sn))
    (hgrow : ∀ k, P k → P (growCwnd k)) {k : Kcpcb} (hk : P k) (una : UInt32)
    (maxack : Option UInt32) : P (inputEnd una k maxack) := by
  cases maxack with
  | none =>
      simp only [inputEnd]
      split
      · exact hgrow k hk
      · exact hk
  | some sn =>
      simp only [inputEnd]
      split
      · exact hgrow _ (hfast k sn hk)
      · exact hfast k sn hk

/-- Rule for the loop of `ikcp_input`. -/
theorem inputLoop_keeps {P : Kcpcb → Prop}
    (hseg : ∀ k maxack seg, P k → seg.Arrived k.conv →
      P (inputSeg k maxack seg).1)
    (fuel : Nat) {k : Kcpcb} (hk : P k) (maxack : Option UInt32)
    (data : List UInt8) : P (inputLoop fuel k maxack data).1 := by
  induction fuel generalizing k maxack data with
  | zero => exact hk
  | succ fuel ih =>
      rw [inputLoop]
      split
      · exact hk
      · dsimp only
        split
        · exact hk
        · next hconv =>
            split
            · exact hk
            · split
              · exact hk
              · next hcmd =>
                  apply ih
                  apply hseg _ _ _ hk
                  exact Header.seg_arrived (not_not.mp hconv)
                    (not_not.mp hcmd)

/-- Rule for `ikcp_input`: the datagram is any run of bytes. -/
theorem input_keeps {P : Kcpcb → Prop}
    (hseg : ∀ k maxack seg, P k → seg.Arrived k.conv →
      P (inputSeg k maxack seg).1)
    (hfast : ∀ k sn, P k → P (parseFastack k sn))
    (hgrow : ∀ k, P k → P (growCwnd k))
    {k : Kcpcb} (hk : P k) (data : List UInt8) : P (input k data).2 := by
  unfold input
  split
  · exact hk
  · have hrun := inputLoop_keeps hseg data.length hk none data
    split
    · next heq => rwa [heq] at hrun
    · next heq =>
        rw [heq] at hrun
        dsimp only at hrun ⊢
        exact @inputEnd_keeps P hfast hgrow _ hrun _ _

/-- What sending works on. -/
structure SendSide where
  sndUna : UInt32
  sndNxt : UInt32
  sndBuf : List Seg
  sndQueue : List Seg

/-- What receiving works on. -/
structure RecvSide where
  rcvNxt : UInt32
  rcvQueue : List Seg
  rcvBuf : List Seg
  acklist : List (UInt32 × UInt32)

def Kcpcb.sendSide (k : Kcpcb) : SendSide :=
  ⟨k.sndUna, k.sndNxt, k.sndBuf, k.sndQueue⟩

def Kcpcb.recvSide (k : Kcpcb) : RecvSide :=
  ⟨k.rcvNxt, k.rcvQueue, k.rcvBuf, k.acklist⟩

@[simp] theorem moveAvailable_sendSide (k : Kcpcb) :
    (moveAvailable k).sendSide = k.sendSide :=
  @moveAvailable_keeps (fun s => s.sendSide = k.sendSide)
    (fun _ _ _ _ _ _ h => h) k rfl

@[simp] theorem takeMessage_sendSide (k : Kcpcb) (ispeek : Bool) :
    (takeMessage k ispeek).sendSide = k.sendSide := by
  rw [takeMessage]
  split
  · rfl
  · rfl

theorem recv_sendSide (k : Kcpcb) (len : Int) :
    (recv k len).2.2.sendSide = k.sendSide := by
  rcases recv_cases k len with ⟨code, _, heq⟩ | ⟨_, _, probe, heq⟩
  · rw [heq]
  · rw [heq]
    exact (moveAvailable_sendSide _).trans (takeMessage_sendSide k _)

theorem parseData_sendSide (k : Kcpcb) (newseg : Seg) :
    (parseData k newseg).sendSide = k.sendSide := by
  rw [parseData]
  split
  · rfl
  · split
    · exact moveAvailable_sendSide _
    · exact moveAvailable_sendSide k

theorem inputPush_sendSide (k : Kcpcb) (seg : Seg) :
    (inputPush k seg).sendSide = k.sendSide := by
  rw [inputPush]
  split
  · dsimp only
    split
    · exact parseData_sendSide _ seg
    · rfl
  · rfl

theorem inputUna_recvSide (k : Kcpcb) (seg : Seg) :
    (inputUna k seg).recvSide = k.recvSide := rfl

theorem parseAck_recvSide (k : Kcpcb) (sn : UInt32) :
    (parseAck k sn).recvSide = k.recvSide := by
  rw [parseAck]
  split
  · rfl
  · rfl

theorem parseFastack_recvSide (k : Kcpcb) (sn : UInt32) :
    (parseFastack k sn).recvSide = k.recvSide := by
  rw [parseFastack]
  split
  · rfl
  · rfl

theorem shrinkBuf_recvSide (k : Kcpcb) :
    (shrinkBuf k).recvSide = k.recvSide := rfl

theorem updateAck_recvSide (k : Kcpcb) (rtt : Int) :
    (updateAck k rtt).recvSide = k.recvSide := rfl

theorem ackRtt_recvSide (k : Kcpcb) (ts : UInt32) :
    (ackRtt k ts).recvSide = k.recvSide := by
  rw [ackRtt]
  split
  · exact updateAck_recvSide k _
  · rfl

theorem inputAck_recvSide (k : Kcpcb) (seg : Seg) :
    (inputAck k seg).recvSide = k.recvSide := by
  rw [inputAck, shrinkBuf_recvSide, parseAck_recvSide, ackRtt_recvSide]

end Ikcp

end Libsaf
