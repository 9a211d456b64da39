/-
`IKCPSEG` of the ARQ in `third/ikcp`: its constants, the segment, and the
functions that write a segment to a datagram and read it back.  Both branches
of `IWORDS_BIG_ENDIAN` store the least significant byte first.
-/
import Libsaf.ByteOrder
import Libsaf.SerialNumber

namespace Libsaf

namespace Ikcp

open ByteOrder

def RTO_NDL : Nat := 30
def RTO_MIN : Nat := 100
def RTO_DEF : Nat := 200
def RTO_MAX : Nat := 60000
def CMD_PUSH : UInt32 := 81
def CMD_ACK : UInt32 := 82
def CMD_WASK : UInt32 := 83
def CMD_WINS : UInt32 := 84
def ASK_SEND : UInt32 := 1
def ASK_TELL : UInt32 := 2
def WND_SND : UInt32 := 32
def WND_RCV : UInt32 := 32
def MTU_DEF : UInt32 := 1400
def INTERVAL : UInt32 := 100
def OVERHEAD : Nat := 24
def DEADLINK : UInt32 := 20
def THRESH_INIT : UInt32 := 2
def THRESH_MIN : UInt32 := 2
def PROBE_INIT : UInt32 := 7000
def PROBE_LIMIT : UInt32 := 120000

/-- `_itimediff`. -/
def itimediff (later earlier : UInt32) : Int := serialDiff later earlier

/-- `data` is the memory behind the segment: it is as long as `len` says. -/
structure Seg where
  conv : UInt32
  cmd : UInt32
  frg : UInt32
  wnd : UInt32
  ts : UInt32
  sn : UInt32
  una : UInt32
  len : UInt32
  resendts : UInt32
  rto : UInt32
  fastack : UInt32
  xmit : UInt32
  data : List UInt8
  length_data : data.length = len.toNat
deriving DecidableEq

/-- `ikcp_encode8u`: the bytes written so far, and the new one behind them. -/
def encode8u (p : List UInt8) (c : UInt8) : List UInt8 :=
  p ++ leBytes 1 c.toNat

def encode16u (p : List UInt8) (w : UInt16) : List UInt8 :=
  p ++ leBytes 2 w.toNat

def encode32u (p : List UInt8) (l : UInt32) : List UInt8 :=
  p ++ leBytes 4 l.toNat

/-- `ikcp_decode8u`: the number at the front, and the bytes behind it. -/
def decode8u (p : List UInt8) : UInt8 × List UInt8 :=
  (UInt8.ofNat (leNat (p.take 1)), p.drop 1)

def decode16u (p : List UInt8) : UInt16 × List UInt8 :=
  (UInt16.ofNat (leNat (p.take 2)), p.drop 2)

def decode32u (p : List UInt8) : UInt32 × List UInt8 :=
  (UInt32.ofNat (leNat (p.take 4)), p.drop 4)

/-- `ikcp_encode_seg`: the data is not written here. -/
def encodeSeg (ptr : List UInt8) (seg : Seg) : List UInt8 :=
  let ptr := encode32u ptr seg.conv
  let ptr := encode8u ptr seg.cmd.toUInt8
  let ptr := encode8u ptr seg.frg.toUInt8
  let ptr := encode16u ptr seg.wnd.toUInt16
  let ptr := encode32u ptr seg.ts
  let ptr := encode32u ptr seg.sn
  let ptr := encode32u ptr seg.una
  encode32u ptr seg.len

/-- The local variables of the loop of `ikcp_input`. -/
structure Header where
  conv : UInt32
  cmd : UInt8
  frg : UInt8
  wnd : UInt16
  ts : UInt32
  sn : UInt32
  una : UInt32
  len : UInt32
deriving Repr, DecidableEq

/-- The decoding part of the loop of `ikcp_input`. -/
def decodeHeader (data : List UInt8) : Header × List UInt8 :=
  let (conv, data) := decode32u data
  let (cmd, data) := decode8u data
  let (frg, data) := decode8u data
  let (wnd, data) := decode16u data
  let (ts, data) := decode32u data
  let (sn, data) := decode32u data
  let (una, data) := decode32u data
  let (len, data) := decode32u data
  (⟨conv, cmd, frg, wnd, ts, sn, una, len⟩, data)

/-- `ikcp_segment_new` and the assignments behind it in `ikcp_input`; the
fields that stay unset are zero. -/
def Header.seg (h : Header) (data : List UInt8)
    (hdata : data.length = h.len.toNat) : Seg :=
  { conv := h.conv
    cmd := h.cmd.toUInt32
    frg := h.frg.toUInt32
    wnd := h.wnd.toUInt32
    ts := h.ts
    sn := h.sn
    una := h.una
    len := h.len
    resendts := 0
    rto := 0
    fastack := 0
    xmit := 0
    data := data
    length_data := hdata }

/-- The bytes of a segment in a datagram. -/
def Seg.wire (s : Seg) : List UInt8 := encodeSeg [] s ++ s.data

/-- What the header of a segment tells the peer. -/
def Seg.header (s : Seg) : Header :=
  ⟨s.conv, s.cmd.toUInt8, s.frg.toUInt8, s.wnd.toUInt16, s.ts, s.sn, s.una,
    s.len⟩

/-- The segment as the peer reads it. -/
def Seg.received (s : Seg) : Seg := s.header.seg s.data s.length_data

theorem encodeSeg_eq (ptr : List UInt8) (s : Seg) :
    encodeSeg ptr s = ptr ++ encodeSeg [] s := by
  simp [encodeSeg, encode8u, encode16u, encode32u]

@[simp] theorem length_encodeSeg (ptr : List UInt8) (s : Seg) :
    (encodeSeg ptr s).length = ptr.length + OVERHEAD := by
  simp [encodeSeg, encode8u, encode16u, encode32u, OVERHEAD]

@[simp] theorem length_wire (s : Seg) :
    s.wire.length = OVERHEAD + s.len.toNat := by
  simp [Seg.wire, s.length_data]

theorem decode8u_append (c : UInt8) (rest : List UInt8) :
    decode8u (leBytes 1 c.toNat ++ rest) = (c, rest) := by
  rw [decode8u, leNat_take_leBytes c.toNat_lt, drop_leBytes,
    UInt8.ofNat_toNat]

theorem decode16u_append (w : UInt16) (rest : List UInt8) :
    decode16u (leBytes 2 w.toNat ++ rest) = (w, rest) := by
  rw [decode16u, leNat_take_leBytes w.toNat_lt, drop_leBytes,
    UInt16.ofNat_toNat]

theorem decode32u_append (l : UInt32) (rest : List UInt8) :
    decode32u (leBytes 4 l.toNat ++ rest) = (l, rest) := by
  rw [decode32u, leNat_take_leBytes l.toNat_lt, drop_leBytes,
    UInt32.ofNat_toNat]

/-- Reading back what `ikcp_encode_seg` has written. -/
theorem decodeHeader_encodeSeg (s : Seg) (rest : List UInt8) :
    decodeHeader (encodeSeg [] s ++ rest) = (s.header, rest) := by
  simp only [encodeSeg, encode8u, encode16u, encode32u, List.nil_append,
    List.append_assoc, decodeHeader, decode8u_append, decode16u_append,
    decode32u_append, Seg.header]

theorem leBytes_decode8u {p : List UInt8} (h : 1 ≤ p.length) :
    leBytes 1 (decode8u p).1.toNat ++ (decode8u p).2 = p := by
  obtain ⟨hlt, hbytes⟩ := leBytes_leNat_take h
  rw [decode8u, UInt8.toNat_ofNat_of_lt' hlt, hbytes]

theorem leBytes_decode16u {p : List UInt8} (h : 2 ≤ p.length) :
    leBytes 2 (decode16u p).1.toNat ++ (decode16u p).2 = p := by
  obtain ⟨hlt, hbytes⟩ := leBytes_leNat_take h
  rw [decode16u, UInt16.toNat_ofNat_of_lt' hlt, hbytes]

theorem leBytes_decode32u {p : List UInt8} (h : 4 ≤ p.length) :
    leBytes 4 (decode32u p).1.toNat ++ (decode32u p).2 = p := by
  obtain ⟨hlt, hbytes⟩ := leBytes_leNat_take h
  rw [decode32u, UInt32.toNat_ofNat_of_lt' hlt, hbytes]

theorem drop_decodeHeader (data : List UInt8) :
    (decodeHeader data).2 = data.drop OVERHEAD := by
  simp [decodeHeader, decode8u, decode16u, decode32u, OVERHEAD]

/-- A header is stored back as it was read. -/
theorem encodeSeg_decodeHeader {data payload : List UInt8}
    (hdata : OVERHEAD ≤ data.length)
    (hlen : payload.length = (decodeHeader data).1.len.toNat) :
    encodeSeg [] ((decodeHeader data).1.seg payload hlen) ++
      data.drop OVERHEAD = data := by
  rw [← drop_decodeHeader]
  simp only [encodeSeg, encode8u, encode16u, encode32u, Header.seg,
    List.nil_append, List.append_assoc, UInt8.toUInt8_toUInt32,
    UInt16.toUInt16_toUInt32, decodeHeader]
  simp only [OVERHEAD] at hdata
  -- The innermost number is the last field, so the fields close from the back.
  iterate 4 rw [leBytes_decode32u (by
    simp only [decode8u, decode16u, decode32u, List.length_drop]; omega)]
  rw [leBytes_decode16u (by
    simp only [decode8u, decode32u, List.length_drop]; omega)]
  iterate 2 rw [leBytes_decode8u (by
    simp only [decode8u, decode32u, List.length_drop]; omega)]
  rw [leBytes_decode32u (by omega)]

end Ikcp

end Libsaf
