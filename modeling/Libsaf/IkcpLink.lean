/-
Two endpoints and the network between them.  The network may lose, repeat and
reorder datagrams and hold them back for any time: at any step, any datagram
that was ever output may arrive.
-/
import Libsaf.IkcpSelective
import Mathlib.Logic.Function.Basic
import Mathlib.Data.List.Sort

namespace Libsaf

namespace Ikcp

/-- An endpoint with what is known of its past: the datagrams it has output, how
many segments it has numbered, what the calls of `ikcp_send` have left in it and
what the application has got from `ikcp_recv`. -/
structure Side where
  kcp : Kcpcb
  out : List (List UInt8)
  numbered : Nat
  handed : List Handed
  got : List (List UInt8)
deriving DecidableEq

/-- The buffers of the calls of `ikcp_send` that returned 0. -/
def Side.accepted (s : Side) : List (List UInt8) :=
  s.handed.filterMap Handed.accepted

/-- The bytes that all calls of `ikcp_send` have left, those that were refused
included. -/
def Side.entered (s : Side) : List UInt8 := s.handed.flatMap Handed.bytes

theorem Side.entered_whole {s : Side}
    (h : ∀ one ∈ s.handed, one.accepted.isSome) :
    s.entered = s.accepted.flatten := Handed.bytes_whole h

/-- How many segments a call numbers. -/
def Call.numbers (k : Kcpcb) : Call → Nat
  | .update current =>
      k.sndQueue.length - (Ikcp.update k current).1.sndQueue.length
  | .flush => k.sndQueue.length - (Ikcp.flush k).1.sndQueue.length
  | _ => 0

/-- What a call leaves of the application's buffer. -/
def Call.hands (k : Kcpcb) : Call → List Handed
  | .send buffer len => handed k buffer len
  | _ => []

/-- What a call hands to the application; looking is not taking. -/
def Call.gets (k : Kcpcb) : Call → List (List UInt8)
  | .recv len =>
      if 0 ≤ len ∧ 0 ≤ (Ikcp.recv k len).1 then [(Ikcp.recv k len).2.1] else []
  | _ => []

def Side.call (s : Side) (c : Call) : Side :=
  { kcp := (s.kcp.call c).1
    out := s.out ++ (s.kcp.call c).2
    numbered := s.numbered + c.numbers s.kcp
    handed := s.handed ++ c.hands s.kcp
    got := s.got ++ c.gets s.kcp }

def Side.arrive (s : Side) (d : List UInt8) : Side :=
  { s with kcp := (input s.kcp d).2 }

abbrev Link := Bool → Side

inductive Act where
  | call (side : Bool) (c : Call)
  | arrive (side : Bool) (i : Nat)

/-- The calls of the application. -/
def Call.Local : Call → Prop
  | .input _ => False
  | _ => True

instance : (c : Call) → Decidable c.Local
  | .input _ => isFalse id
  | .send _ _ => isTrue trivial
  | .recv _ => isTrue trivial
  | .update _ => isTrue trivial
  | .flush => isTrue trivial
  | .setmtu _ => isTrue trivial
  | .interval _ => isTrue trivial
  | .nodelay _ _ _ _ => isTrue trivial
  | .wndsize _ _ => isTrue trivial
  | .stream _ => isTrue trivial

/-- What arrives at a side is a datagram that the other one has output.  A call
that writes behind the end of its block is a fault. -/
def link : Machine Link Act where
  enabled l
    | .call p c => c.Typed ∧ c.Local ∧ c.Fits (l p).kcp
    | .arrive p i => i < (l !p).out.length
  exec l
    | .call p c =>
        if (l p).kcp.Overruns c then none
        else some (Function.update l p ((l p).call c))
    | .arrive p i =>
        ((l !p).out[i]?).map fun d => Function.update l p ((l p).arrive d)

instance (l : Link) : (act : Act) → Decidable (link.enabled l act)
  | .call p c =>
      inferInstanceAs (Decidable (c.Typed ∧ c.Local ∧ c.Fits (l p).kcp))
  | .arrive p i => inferInstanceAs (Decidable (i < (l !p).out.length))

def Link.start (conv : UInt32) : Link := fun _ =>
  { kcp := create conv, out := [], numbered := 0, handed := [], got := [] }

section Pending

/-- What the application has queued, and its mode. -/
def Kcpcb.pending (k : Kcpcb) : List Seg × Int := (k.sndQueue, k.stream)

theorem moveAvailable_pending (k : Kcpcb) :
    (moveAvailable k).pending = k.pending :=
  @moveAvailable_keeps (fun s => s.pending = k.pending)
    (fun _ _ _ _ _ _ h => h) k rfl

theorem parseData_pending (k : Kcpcb) (newseg : Seg) :
    (parseData k newseg).pending = k.pending := by
  rw [parseData]
  split
  · rfl
  · split
    · exact moveAvailable_pending _
    · exact moveAvailable_pending k

theorem ackPush_pending (k : Kcpcb) (sn ts : UInt32) :
    (ackPush k sn ts).pending = k.pending := rfl

theorem inputPush_pending (k : Kcpcb) (seg : Seg) :
    (inputPush k seg).pending = k.pending :=
  @inputPush_keeps (fun s => s.pending = k.pending) k seg
    (fun _ => ackPush_pending k seg.sn seg.ts)
    (fun s hs => (parseData_pending s seg).trans hs) rfl

theorem updateAck_pending (k : Kcpcb) (rtt : Int) :
    (updateAck k rtt).pending = k.pending := rfl

theorem ackRtt_pending (k : Kcpcb) (ts : UInt32) :
    (ackRtt k ts).pending = k.pending := by
  rw [ackRtt]
  split
  · exact updateAck_pending k _
  · rfl

theorem parseAck_pending (k : Kcpcb) (sn : UInt32) :
    (parseAck k sn).pending = k.pending := by
  rw [parseAck]
  split
  · rfl
  · rfl

theorem shrinkBuf_pending (k : Kcpcb) :
    (shrinkBuf k).pending = k.pending := rfl

theorem inputAck_pending (k : Kcpcb) (seg : Seg) :
    (inputAck k seg).pending = k.pending := by
  rw [inputAck, shrinkBuf_pending, parseAck_pending, ackRtt_pending]

theorem inputUna_pending (k : Kcpcb) (seg : Seg) :
    (inputUna k seg).pending = k.pending := rfl

theorem inputSeg_pending (k : Kcpcb) (maxack : Option UInt32) (seg : Seg) :
    (inputSeg k maxack seg).1.pending = k.pending := by
  have huna := inputUna_pending k seg
  apply @inputSeg_keeps (fun s => s.pending = k.pending)
  · exact fun _ => (inputAck_pending _ seg).trans huna
  · exact fun _ => (inputPush_pending _ seg).trans huna
  · exact fun _ => huna

theorem parseFastack_pending (k : Kcpcb) (sn : UInt32) :
    (parseFastack k sn).pending = k.pending := by
  rw [parseFastack]
  split
  · rfl
  · rfl

theorem input_pending (k : Kcpcb) (data : List UInt8) :
    (input k data).2.pending = k.pending :=
  @input_keeps (fun s => s.pending = k.pending)
    (fun s maxack seg hs _ => (inputSeg_pending s maxack seg).trans hs)
    (fun s sn hs => (parseFastack_pending s sn).trans hs)
    (fun _ hs => hs) k rfl data

theorem flush_stream (k : Kcpcb) : (flush k).1.pending.2 = k.pending.2 :=
  @flush_keeps (fun s => s.pending.2 = k.pending.2) (fun _ hs => hs)
    (fun _ _ _ _ _ _ _ _ hs => hs) (fun _ _ _ hs => hs)
    (fun _ _ _ _ hs => hs) k rfl

theorem send_stream (k : Kcpcb) (buffer : List UInt8) (len : Int) :
    (send k buffer len).2.pending.2 = k.pending.2 :=
  @send_keeps (fun s => s.pending.2 = k.pending.2) (fun _ _ _ hs => hs) k rfl
    buffer len

theorem send_outgoing (k : Kcpcb) (buffer : List UInt8) (len : Int) :
    (send k buffer len).2.outgoing = k.outgoing :=
  @send_keeps (fun s => s.outgoing = k.outgoing) (fun _ _ _ hs => hs) k rfl
    buffer len

theorem send_recvSide (k : Kcpcb) (buffer : List UInt8) (len : Int) :
    (send k buffer len).2.recvSide = k.recvSide :=
  @send_keeps (fun s => s.recvSide = k.recvSide) (fun _ _ _ hs => hs) k rfl
    buffer len

end Pending

section Side

variable {conv : UInt32} {messages : Prop} {taken : List Frame}
  {a b : SelectiveRepeat Frame}

/-- A side is coupled with the direction in which it sends and the one in which
it receives, and with its past.  `messages` says that it is never in streaming
mode. -/
structure Side.Couples (conv : UInt32) (messages : Prop) (s : Side)
    (taken : List Frame) (a b : SelectiveRepeat Frame) : Prop where
  sound : s.kcp.Sound
  range : s.kcp.InRange
  formed : s.kcp.sending.Formed conv
  out : s.kcp.outgoing.Couples a
  inc : s.kcp.recvSide.Couples taken b
  wire : ∀ d ∈ s.out, Carried conv a b d
  numbered : s.numbered = a.log.length
  entered : a.log.flatMap Frame.data ++ bytes s.kcp.sndQueue = s.entered
  parts : ∀ one ∈ s.handed, one.Proper
  got : taken.flatMap Frame.data = s.got.flatten
  mode : messages → s.kcp.stream = 0
  spelled : messages →
    Spells (a.log ++ s.kcp.sndQueue.map Seg.frame) s.accepted
  read : messages → Spells taken s.got

/-- A side does not notice what the other one does. -/
theorem Side.Couples.frame {s : Side} {a' b' : SelectiveRepeat Frame}
    (h : s.Couples conv messages taken a b) (ha : a.Receives a')
    (hb : b.Sends b') : s.Couples conv messages taken a' b' where
  sound := h.sound
  range := h.range
  formed := h.formed
  out := ⟨ha.log ▸ h.out.nxt, ha.log ▸ h.out.buf, ha.unacked ▸ h.out.unacked⟩
  inc := by
    have hseen : ∀ i, b'.Seen i ↔ b.Seen i := by
      intro i
      rw [SelectiveRepeat.Seen, hb.seen]
      rfl
    refine ⟨hb.delivered ▸ h.inc.nxt, hb.delivered ▸ h.inc.queue,
      hb.seen ▸ h.inc.buf, ?_, ?_⟩
    · intro i hi
      rw [hb.delivered]
      exact h.inc.seen i ((hseen i).mp hi)
    · intro ack hack
      exact (h.inc.acks ack hack).imp fun i hi => ⟨hi.1, (hseen i).mpr hi.2⟩
  wire := fun d hd =>
    (h.wire d hd).mono ha.steps.before hb.steps.before
  numbered := ha.log ▸ h.numbered
  entered := ha.log ▸ h.entered
  parts := h.parts
  got := h.got
  mode := h.mode
  spelled := ha.log ▸ h.spelled
  read := h.read

/-- The block changes and the segments do not. -/
theorem Side.Couples.quiet {s : Side} {k : Kcpcb}
    (h : s.Couples conv messages taken a b) (hsound : k.Sound)
    (hrange : k.InRange) (hformed : k.sending.Formed conv)
    (hout : k.outgoing = s.kcp.outgoing) (hinc : k.recvSide = s.kcp.recvSide)
    (hqueue : k.sndQueue = s.kcp.sndQueue)
    (hmode : messages → k.stream = 0) :
    { s with kcp := k }.Couples conv messages taken a b where
  sound := hsound
  range := hrange
  formed := hformed
  out := hout ▸ h.out
  inc := hinc ▸ h.inc
  wire := h.wire
  numbered := h.numbered
  entered := hqueue ▸ h.entered
  parts := h.parts
  got := h.got
  mode := hmode
  spelled := hqueue ▸ h.spelled
  read := h.read

/-- A call that takes nothing from the application and gives it nothing. -/
theorem Side.call_mute {s : Side} {c : Call} (hhands : c.hands s.kcp = [])
    (hgets : c.gets s.kcp = []) :
    s.call c =
      { kcp := (s.kcp.call c).1
        out := s.out ++ (s.kcp.call c).2
        numbered := s.numbered + c.numbers s.kcp
        handed := s.handed
        got := s.got } := by
  rw [Side.call, hhands, hgets, List.append_nil, List.append_nil]

theorem Side.call_quiet {s : Side} {c : Call}
    (hout : (s.kcp.call c).2 = []) (hnumbers : c.numbers s.kcp = 0)
    (hhands : c.hands s.kcp = []) (hgets : c.gets s.kcp = []) :
    s.call c = { s with kcp := (s.kcp.call c).1 } := by
  rw [Side.call_mute hhands hgets, hout, hnumbers, List.append_nil,
    Nat.add_zero]

theorem Side.call_send (s : Side) (buffer : List UInt8) (len : Int) :
    s.call (.send buffer len) = { s with
      kcp := (Ikcp.send s.kcp buffer len).2
      handed := s.handed ++ Ikcp.handed s.kcp buffer len } := by
  simp only [Side.call, Kcpcb.call, Call.numbers, Call.hands, Call.gets,
    List.append_nil, Nat.add_zero]

theorem Side.call_recv (s : Side) (len : Int) :
    s.call (.recv len) = { s with
      kcp := (Ikcp.recv s.kcp len).2.2
      got := s.got ++ Call.gets s.kcp (.recv len) } := by
  simp only [Side.call, Kcpcb.call, Call.numbers, Call.hands, List.append_nil,
    Nat.add_zero]

theorem Side.Couples.send {s : Side} {buffer : List UInt8} {len : Int}
    (h : s.Couples conv messages taken a b)
    (hc : Call.Typed (.send buffer len)) :
    (s.call (.send buffer len)).Couples conv messages taken a b := by
  have hbytes := @send_bytes s.kcp buffer len h.range.1 hc.1
  rw [Side.call_send]
  refine ⟨h.sound.send buffer len, h.range.call hc, h.formed.send buffer len,
    ?_, ?_, h.wire, h.numbered, ?_, ?_, h.got, ?_, ?_, h.read⟩
  · exact (send_outgoing s.kcp buffer len) ▸ h.out
  · exact (send_recvSide s.kcp buffer len) ▸ h.inc
  · show _ ++ bytes (Ikcp.send s.kcp buffer len).2.sndQueue =
      (s.handed ++ Ikcp.handed s.kcp buffer len).flatMap Handed.bytes
    rw [hbytes, List.flatMap_append, ← List.append_assoc, h.entered,
      Side.entered]
  · intro one hone
    rcases List.mem_append.mp hone with hold | hnew
    · exact h.parts one hold
    · exact handed_proper s.kcp buffer len one hnew
  · exact fun hm => (send_stream s.kcp buffer len).trans (h.mode hm)
  · intro hm
    show Spells _ ((s.handed ++ Ikcp.handed s.kcp buffer len).filterMap _)
    rw [List.filterMap_append]
    exact send_spells h.range.1 hc.1 (h.mode hm) (h.spelled hm)

/-- `ikcp_flush` of a block that differs in its clock at most. -/
theorem Side.Couples.flush {s : Side} {k : Kcpcb}
    (h : s.Couples conv messages taken a b)
    (hsound : (Ikcp.flush k).1.Sound) (hrange : (Ikcp.flush k).1.InRange)
    (hsending : k.sending = s.kcp.sending)
    (hout : k.outgoing = s.kcp.outgoing) (hinc : k.recvSide = s.kcp.recvSide)
    (hpending : k.pending = s.kcp.pending) :
    ∃ a', a.Sends a' ∧ Side.Couples conv messages
      { kcp := (Ikcp.flush k).1
        out := s.out ++ (Ikcp.flush k).2
        numbered := s.numbered +
          (s.kcp.sndQueue.length - (Ikcp.flush k).1.sndQueue.length)
        handed := s.handed
        got := s.got } taken a' b := by
  have hqueue : k.sndQueue = s.kcp.sndQueue := congrArg Prod.fst hpending
  have hcouples : k.outgoing.Couples a := hout ▸ h.out
  have hreceiver : k.recvSide.Couples taken b := hinc ▸ h.inc
  have hformed : k.sending.Formed conv := hsending ▸ h.formed
  obtain ⟨a', hsends, hout', hframes⟩ := hcouples.flush
  rw [hqueue] at hframes
  have hlen := congrArg List.length hframes
  simp only [List.length_append, List.length_map] at hlen
  have hlog := hsends.steps.before.log.length_le
  refine ⟨a', hsends, hsound, hrange, hformed.leads (flush_leads k), hout', ?_,
    ?_, ?_, ?_, h.parts, h.got, ?_, ?_, h.read⟩
  · exact @flush_keeps (fun s => s.recvSide.Couples taken b)
      (fun s hs => ⟨hs.nxt, hs.queue, hs.buf, hs.seen,
        fun _ hack => absurd hack List.not_mem_nil⟩)
      (fun _ _ _ _ _ _ _ _ hs => hs) (fun _ _ _ hs => hs)
      (fun _ _ _ _ hs => hs) k hreceiver
  · intro d hd
    rcases List.mem_append.mp hd with hd | hd
    · exact (h.wire d hd).mono hsends.steps.before
        (SelectiveRepeat.Before.refl b)
    · exact flush_carried hformed hout' hreceiver d hd
  · show s.numbered + _ = a'.log.length
    rw [h.numbered]
    omega
  · show _ ++ bytes (Ikcp.flush k).1.sndQueue = s.entered
    have hold := h.entered
    rw [bytes_eq, ← List.flatMap_append] at hold ⊢
    rw [hframes, hold]
  · intro hm
    have hmode : k.pending.2 = 0 := by
      rw [hpending]
      exact h.mode hm
    exact (flush_stream k).trans hmode
  · intro hm
    rw [hframes]
    exact h.spelled hm

theorem recv_pending (k : Kcpcb) (len : Int) :
    (recv k len).2.2.pending = k.pending := by
  rcases recv_cases k len with ⟨code, _, heq⟩ | ⟨_, _, probe, heq⟩
  · rw [heq]
  · rw [heq]
    refine (moveAvailable_pending _).trans ?_
    rw [takeMessage]
    split
    · rfl
    · rfl

/-- What `ikcp_recv` hands over is nothing or the first message. -/
theorem recv_follows {k : Kcpcb} (h : k.recvSide.Couples taken b)
    (hsafe : b.Safe) (hfresh : Fresh b) (len : Int) :
    ∃ front, (Call.gets k (.recv len) = [] ∧ front = [] ∨
        Call.gets k (.recv len) = [bytes front] ∧ 0 ≤ peeksize k ∧
          front = firstMessage k.rcvQueue) ∧
      (recv k len).2.2.Follows (taken ++ front.map Seg.frame) b := by
  have hstay : k.Follows (taken ++ [].map Seg.frame) b := by
    rw [List.map_nil, List.append_nil]
    exact ⟨b, SelectiveRepeat.Receives.refl b, h⟩
  rcases recv_cases k len with ⟨code, hcode, heq⟩ | ⟨hpeek, _, probe, heq⟩
  · refine ⟨[], Or.inl ⟨?_, rfl⟩, heq ▸ hstay⟩
    rw [Call.gets, heq, if_neg fun hok => absurd hok.2 (Int.not_le.mpr hcode)]
  · rw [heq]
    by_cases hlook : len < 0
    · rw [decide_eq_true hlook]
      refine ⟨[], Or.inl ⟨?_, rfl⟩, ?_⟩
      · rw [Call.gets, if_neg fun hok => absurd hlook (Int.not_lt.mpr hok.1)]
      · exact Kcpcb.Follows.moveAvailable hsafe hfresh hstay
    · rw [decide_eq_false hlook]
      refine ⟨firstMessage k.rcvQueue, Or.inr ⟨?_, hpeek, rfl⟩, ?_⟩
      · rw [Call.gets, heq, if_pos ⟨Int.not_lt.mp hlook, hpeek⟩]
        rfl
      · have htake := h.take
          (List.prefix_iff_eq_append.mp (prefix_firstMessage k.rcvQueue)).symm
        exact @Kcpcb.Follows.moveAvailable _ b (takeMessage k false) hsafe
          hfresh ⟨b, SelectiveRepeat.Receives.refl b, htake⟩

/-- When all the sender's frames spell messages, the frames that are taken spell
the messages that were handed over. -/
theorem Spells.take {k : Kcpcb} {got sent : List (List UInt8)}
    {more : List Frame} (hinc : k.recvSide.Couples taken b) (hsafe : b.Safe)
    (hsound : k.windows.Sound) (hpeek : 0 ≤ peeksize k)
    (hsent : Spells (b.log ++ more) sent) (hread : Spells taken got) :
    Spells (taken ++ (firstMessage k.rcvQueue).map Seg.frame)
      (got ++ [bytes (firstMessage k.rcvQueue)]) := by
  obtain ⟨ahead, hahead⟩ := hsafe.delivered_prefix
  have hqueue : b.delivered = taken ++ k.rcvQueue.map Seg.frame := hinc.queue
  rw [← hahead, hqueue, List.append_assoc, List.append_assoc] at hsent
  obtain ⟨rest, -, hrest⟩ := hread.split hsent
  exact hread.concat (firstMessage_fragmented hsound hpeek hrest)

theorem Side.Couples.recv {s : Side} {len : Int}
    (h : s.Couples conv messages taken a b) (hsafe : b.Safe)
    (hfresh : Fresh b) (hc : Call.Typed (.recv len))
    (hpeer : messages → ∃ more sent, Spells (b.log ++ more) sent) :
    ∃ taken' b', b.Receives b' ∧
      (s.call (.recv len)).Couples conv messages taken' a b' := by
  obtain ⟨front, hgets, b', hrun, hinc⟩ := recv_follows h.inc hsafe hfresh len
  have hqueue : (Ikcp.recv s.kcp len).2.2.sndQueue = s.kcp.sndQueue :=
    congrArg Prod.fst (recv_pending s.kcp len)
  have hout : (Ikcp.recv s.kcp len).2.2.outgoing = s.kcp.outgoing :=
    outgoing_eq (recv_sendSide s.kcp len)
  refine ⟨taken ++ front.map Seg.frame, b', hrun, ?_⟩
  rw [Side.call_recv]
  refine ⟨h.sound.call hc, h.range.call hc, h.formed.call (.recv len), ?_,
    hinc, ?_, h.numbered, ?_, h.parts, ?_, ?_, ?_, ?_⟩
  · exact hout ▸ h.out
  · exact fun d hd =>
      (h.wire d hd).mono (SelectiveRepeat.Before.refl a) hrun.steps.before
  · show _ ++ bytes (Ikcp.recv s.kcp len).2.2.sndQueue = s.entered
    rw [hqueue]
    exact h.entered
  · show _ = (s.got ++ Call.gets s.kcp (.recv len)).flatten
    rw [List.flatMap_append, h.got, ← bytes_eq, List.flatten_append]
    rcases hgets with ⟨hgets, rfl⟩ | ⟨hgets, -, -⟩
    · rw [hgets]
      rfl
    · rw [hgets, List.flatten_singleton]
  · exact fun hm =>
      (congrArg Prod.snd (recv_pending s.kcp len)).trans (h.mode hm)
  · intro hm
    show Spells (_ ++ (Ikcp.recv s.kcp len).2.2.sndQueue.map Seg.frame)
      s.accepted
    rw [hqueue]
    exact h.spelled hm
  · intro hm
    show Spells _ (s.got ++ Call.gets s.kcp (.recv len))
    rcases hgets with ⟨hgets, rfl⟩ | ⟨hgets, hpeek, rfl⟩
    · rw [hgets, List.map_nil, List.append_nil, List.append_nil]
      exact h.read hm
    · obtain ⟨more, sent, hsent⟩ := hpeer hm
      rw [hgets]
      exact Spells.take h.inc hsafe h.sound.1 hpeek hsent (h.read hm)

theorem Side.Couples.update {s : Side} {current : UInt32}
    (h : s.Couples conv messages taken a b) :
    ∃ a', a.Sends a' ∧
      (s.call (.update current)).Couples conv messages taken a' b := by
  have hsound := h.sound.update current
  have hrange := h.range.update current
  have hnumbers : Call.numbers s.kcp (.update current) =
      s.kcp.sndQueue.length -
        (Ikcp.update s.kcp current).1.sndQueue.length := rfl
  obtain ⟨updated, tsFlush, heq | heq⟩ := update_cases s.kcp current
  · rw [heq] at hsound hrange hnumbers
    refine ⟨a, SelectiveRepeat.Sends.refl a, ?_⟩
    rw [Side.call_quiet (by rw [Kcpcb.call, heq])
      (hnumbers.trans (Nat.sub_self _)) rfl rfl, Kcpcb.call, heq]
    exact h.quiet hsound hrange h.formed rfl rfl rfl h.mode
  · rw [heq] at hsound hrange hnumbers
    obtain ⟨a', hsends, hcouples⟩ :=
      h.flush hsound hrange rfl rfl rfl rfl
    refine ⟨a', hsends, ?_⟩
    rw [Side.call_mute rfl rfl, hnumbers, Kcpcb.call, heq]
    exact hcouples

/-- `stream` stays zero. -/
def Call.Messages : Call → Prop
  | .stream on => on = 0
  | _ => True

/-- A call of the application is a run of the direction in which its side sends
and a run of the one in which it receives. -/
theorem Side.Couples.call {s : Side} {c : Call}
    (h : s.Couples conv messages taken a b) (hsafe : b.Safe)
    (hfresh : Fresh b) (hc : c.Typed) (hlocal : c.Local)
    (hmode : messages → c.Messages)
    (hpeer : messages → ∃ more sent, Spells (b.log ++ more) sent) :
    ∃ taken' a' b', a.Sends a' ∧ b.Receives b' ∧
      (s.call c).Couples conv messages taken' a' b' := by
  have hsend := SelectiveRepeat.Sends.refl a
  have hrecv := SelectiveRepeat.Receives.refl b
  have hsound := h.sound.call hc
  have hrange := h.range.call hc
  have hformed := h.formed.call c
  cases c with
  | send buffer len => exact ⟨taken, a, b, hsend, hrecv, h.send hc⟩
  | recv len =>
      obtain ⟨taken', b', hrun, hcouples⟩ := h.recv hsafe hfresh hc hpeer
      exact ⟨taken', a, b', hsend, hrun, hcouples⟩
  | update current =>
      obtain ⟨a', hrun, hcouples⟩ := @Side.Couples.update _ _ _ _ _ _ current h
      exact ⟨taken, a', b, hrun, hrecv, hcouples⟩
  | flush =>
      obtain ⟨a', hrun, hcouples⟩ := h.flush hsound hrange rfl rfl rfl rfl
      rw [Side.call_mute rfl rfl]
      exact ⟨taken, a', b, hrun, hrecv, hcouples⟩
  | input data => exact hlocal.elim
  | setmtu mtu =>
      refine ⟨taken, a, b, hsend, hrecv, ?_⟩
      rw [Side.call_quiet rfl rfl rfl rfl]
      have hkeeps : (Ikcp.setmtu s.kcp mtu).2.outgoing = s.kcp.outgoing ∧
          (Ikcp.setmtu s.kcp mtu).2.recvSide = s.kcp.recvSide ∧
          (Ikcp.setmtu s.kcp mtu).2.pending = s.kcp.pending := by
        rw [Ikcp.setmtu]
        split
        · exact ⟨rfl, rfl, rfl⟩
        · exact ⟨rfl, rfl, rfl⟩
      exact h.quiet hsound hrange hformed hkeeps.1 hkeeps.2.1
        (congrArg Prod.fst hkeeps.2.2)
        fun hm => (congrArg Prod.snd hkeeps.2.2).trans (h.mode hm)
  | interval ms =>
      refine ⟨taken, a, b, hsend, hrecv, ?_⟩
      rw [Side.call_quiet rfl rfl rfl rfl]
      exact h.quiet hsound hrange hformed rfl rfl rfl h.mode
  | nodelay on ms resend nc =>
      refine ⟨taken, a, b, hsend, hrecv, ?_⟩
      rw [Side.call_quiet rfl rfl rfl rfl]
      exact h.quiet hsound hrange hformed rfl rfl rfl h.mode
  | wndsize sndwnd rcvwnd =>
      refine ⟨taken, a, b, hsend, hrecv, ?_⟩
      rw [Side.call_quiet rfl rfl rfl rfl]
      exact h.quiet hsound hrange hformed rfl rfl rfl h.mode
  | stream on =>
      refine ⟨taken, a, b, hsend, hrecv, ?_⟩
      rw [Side.call_quiet rfl rfl rfl rfl]
      exact h.quiet hsound hrange hformed rfl rfl rfl hmode

/-- So is a datagram of the other side that arrives. -/
theorem Side.Couples.arriveSegs {s : Side} {segs : List Seg}
    (h : s.Couples conv messages taken a b) (hsafe : a.Safe ∧ b.Safe)
    (hfresh : Fresh a ∧ Fresh b) (hne : segs ≠ [])
    (hsegs : ∀ t ∈ segs, Tells conv b a t) :
    ∃ a' b', a.Sends a' ∧ a'.log = a.log ∧ b.Receives b' ∧
      (∀ i < 2 ^ 31, (∃ t ∈ segs, t.Brings i) →
        s.kcp.Takes (s.arrive (segs.flatMap Seg.wire)).kcp b b' i) ∧
      (s.arrive (segs.flatMap Seg.wire)).Couples conv messages taken a' b' := by
  have hconv : s.kcp.conv = conv := h.formed.conv_eq
  subst hconv
  have hdata : Call.Typed (.input (segs.flatMap Seg.wire)) := trivial
  obtain ⟨b₁, hb₁, hseen, a', b', ha, hlog, hb, hout, hinc⟩ :=
    Kcpcb.Answers.input h.out h.inc hsafe hfresh hne hsegs
  have hrun := hb₁.trans hb
  have hpending := input_pending s.kcp (segs.flatMap Seg.wire)
  have hqueue : (input s.kcp (segs.flatMap Seg.wire)).2.sndQueue =
      s.kcp.sndQueue := congrArg Prod.fst hpending
  refine ⟨a', b', ha, hlog, hrun, fun i hi hbrings =>
      (hseen i hi hbrings).keep (fun _ howes => howes) hb.steps.before,
    h.sound.input _, h.range.input _, h.formed.call (.input _), hout, hinc, ?_,
    hlog ▸ h.numbered, ?_, h.parts, h.got, ?_, ?_, h.read⟩
  · exact fun d hd => (h.wire d hd).mono ha.steps.before hrun.steps.before
  · show _ ++ bytes (input s.kcp (segs.flatMap Seg.wire)).2.sndQueue = _
    rw [hqueue, hlog]
    exact h.entered
  · exact fun hm => (congrArg Prod.snd hpending).trans (h.mode hm)
  · intro hm
    show Spells (_ ++
      (input s.kcp (segs.flatMap Seg.wire)).2.sndQueue.map Seg.frame) _
    rw [hqueue, hlog]
    exact h.spelled hm

theorem Side.Couples.arrive {s : Side} {d : List UInt8}
    (h : s.Couples conv messages taken a b) (hsafe : a.Safe ∧ b.Safe)
    (hfresh : Fresh a ∧ Fresh b) (hd : Carried conv b a d) :
    ∃ a' b', a.Sends a' ∧ b.Receives b' ∧
      (s.arrive d).Couples conv messages taken a' b' := by
  obtain ⟨segs, hne, rfl, hsegs⟩ := hd
  obtain ⟨a', b', ha, -, hb, -, hs⟩ := h.arriveSegs hsafe hfresh hne hsegs
  exact ⟨a', b', ha, hb, hs⟩

end Side

section Run

variable {conv : UInt32} {messages : Prop}

def Act.Messages : Act → Prop
  | .call _ c => c.Messages
  | .arrive _ _ => True

/-- The link is coupled with a run of selective repeat in each direction. -/
def Link.Coupled (conv : UInt32) (messages : Prop) (l : Link) : Prop :=
  ∃ (arqs : Bool → SelectiveRepeat Frame) (taken : Bool → List Frame),
    (∀ p, SelectiveRepeat.start.Steps (arqs p)) ∧
      ∀ p, (l p).Couples conv messages (taken p) (arqs p) (arqs !p)

/-- Fewer than half of all sequence numbers have been used at either side. -/
def Link.Fresh (l : Link) : Prop := ∀ p, (l p).numbered < 2 ^ 31

theorem start_coupled (conv : UInt32) (messages : Prop) :
    (Link.start conv).Coupled conv messages := by
  refine ⟨fun _ => .start, fun _ => [], fun _ => .refl _, fun p => ?_⟩
  refine ⟨create_sound conv, ⟨create_inRange conv, fun h => absurd rfl h⟩,
    create_formed conv, ?_, ?_, ?_, rfl, rfl, ?_, rfl, fun _ => rfl, ?_, ?_⟩
  · exact ⟨rfl, fun _ h => absurd h List.not_mem_nil, fun _ h => h.elim⟩
  · exact ⟨rfl, rfl, fun _ h => absurd h List.not_mem_nil,
      fun _ h => h.elim fun _ hx => hx.elim,
      fun _ h => absurd h List.not_mem_nil⟩
  · exact fun _ h => absurd h List.not_mem_nil
  · exact fun _ h => absurd h List.not_mem_nil
  · exact fun _ => Spells.nil
  · exact fun _ => Spells.nil

/-- One side moves; the other one does not notice. -/
theorem Link.Coupled.move {l : Link} {arqs : Bool → SelectiveRepeat Frame}
    {taken : Bool → List Frame} {p : Bool} {s : Side} {taken' : List Frame}
    {a b : SelectiveRepeat Frame}
    (hruns : ∀ p, SelectiveRepeat.start.Steps (arqs p))
    (h : ∀ p, (l p).Couples conv messages (taken p) (arqs p) (arqs !p))
    (ha : (arqs p).Sends a) (hb : (arqs !p).Receives b)
    (hs : s.Couples conv messages taken' a b) :
    Link.Coupled conv messages (Function.update l p s) := by
  have hne : (!p) ≠ p := by simp
  refine ⟨Function.update (Function.update arqs p a) (!p) b,
    Function.update taken p taken', ?_, ?_⟩
  · intro q
    by_cases hq : q = !p
    · subst hq
      rw [Function.update_self]
      exact (hruns !p).trans hb.steps
    · rw [Function.update_of_ne hq]
      have hqp : q = p := by simpa using hq
      subst hqp
      rw [Function.update_self]
      exact (hruns q).trans ha.steps
  · intro q
    by_cases hq : q = p
    · subst hq
      rw [Function.update_self, Function.update_self,
        Function.update_of_ne hne.symm, Function.update_self,
        Function.update_self]
      exact hs
    · have hqp : q = !p := Bool.eq_not.mpr hq
      subst hqp
      rw [Function.update_of_ne hne, Function.update_of_ne hne,
        Function.update_self, Bool.not_not, Function.update_of_ne hne.symm,
        Function.update_self]
      have hpeer := h !p
      rw [Bool.not_not] at hpeer
      exact hpeer.frame hb ha

theorem link_call {l l' : Link} {p : Bool} {c : Call}
    (hexec : link.exec l (.call p c) = some l') :
    l' = Function.update l p ((l p).call c) := by
  have hcall : (if (l p).kcp.Overruns c then none
      else some (Function.update l p ((l p).call c))) = some l' := hexec
  split at hcall
  · cases hcall
  · exact (Option.some.inj hcall).symm

theorem Link.Coupled.step {l l' : Link} {act : Act}
    (h : l.Coupled conv messages) (hfresh : l.Fresh)
    (henabled : link.enabled l act) (hmode : messages → act.Messages)
    (hexec : link.exec l act = some l') : l'.Coupled conv messages := by
  obtain ⟨arqs, taken, hruns, hall⟩ := h
  have hsafe : ∀ p, (arqs p).Safe :=
    fun p => SelectiveRepeat.start_safe.steps (hruns p)
  have hfresh' : ∀ p, Ikcp.Fresh (arqs p) := by
    intro p
    rw [Ikcp.Fresh, ← (hall p).numbered]
    exact hfresh p
  cases act with
  | call p c =>
      obtain rfl := link_call hexec
      have hpeer : messages → ∃ more sent,
          Spells ((arqs !p).log ++ more) sent :=
        fun hm => ⟨_, _, (hall !p).spelled hm⟩
      obtain ⟨taken', a, b, ha, hb, hs⟩ := (hall p).call (hsafe !p)
        (hfresh' !p) henabled.1 henabled.2.1 hmode hpeer
      exact Link.Coupled.move hruns hall ha hb hs
  | arrive p i =>
      obtain ⟨d, hd, rfl⟩ := Option.map_eq_some_iff.mp hexec
      have hwire := (hall !p).wire d (List.mem_of_getElem? hd)
      rw [Bool.not_not] at hwire
      obtain ⟨a, b, ha, hb, hs⟩ := (hall p).arrive ⟨hsafe p, hsafe !p⟩
        ⟨hfresh' p, hfresh' !p⟩ hwire
      exact Link.Coupled.move hruns hall ha hb hs

theorem numbered_le {l l' : Link} {act : Act}
    (hexec : link.exec l act = some l') (p : Bool) :
    (l p).numbered ≤ (l' p).numbered := by
  have hmove : ∀ (q : Bool) (s : Side), (l q).numbered ≤ s.numbered →
      (l p).numbered ≤ (Function.update l q s p).numbered := by
    intro q s hs
    by_cases hp : p = q
    · subst hp
      rwa [Function.update_self]
    · rw [Function.update_of_ne hp]
  cases act with
  | call q c =>
      obtain rfl := link_call hexec
      exact hmove q _ (Nat.le_add_right _ _)
  | arrive q i =>
      obtain ⟨d, -, rfl⟩ := Option.map_eq_some_iff.mp hexec
      exact hmove q _ (Nat.le_refl _)

/-- The segments of either side fit in its block. -/
def Link.Sized (l : Link) : Prop := ∀ p, (l p).kcp.sending.Sized

theorem Link.Sized.update {l : Link} {p : Bool} {s : Side} (h : l.Sized)
    (hs : s.kcp.sending.Sized) : Link.Sized (Function.update l p s) := by
  intro q
  by_cases hq : q = p
  · subst hq
    rw [Function.update_self]
    exact hs
  · rw [Function.update_of_ne hq]
    exact h q

/-- No call writes behind the end of its block. -/
theorem link_exec {l : Link} {act : Act} (h : l.Sized)
    (henabled : link.enabled l act) :
    ∃ l', link.exec l act = some l' ∧ l'.Sized := by
  cases act with
  | call p c =>
      have hover := (h p).not_overruns c
      exact ⟨_, if_neg hover, h.update ((h p).call henabled.2.2)⟩
  | arrive p i =>
      have hi : i < (l !p).out.length := henabled
      exact ⟨_, congrArg (Option.map _) (List.getElem?_eq_getElem hi),
        h.update (@Sending.Sized.call _ (.input _) (h p) trivial)⟩

/-- Every run of two endpoints over any network is a run of selective repeat in
each direction, as long as no sequence number is used twice, and no segment is
ever too large for its block. -/
theorem link_coupled {word : List Act}
    (hword : link.Legal (Link.start conv) word)
    (hmode : messages → ∀ act ∈ word, act.Messages) :
    link.Holds (fun l => l.Sized ∧ (l.Fresh → l.Coupled conv messages))
      (Link.start conv) word := by
  have hstart : (Link.start conv).Sized ∧
      ((Link.start conv).Fresh → (Link.start conv).Coupled conv messages) :=
    ⟨fun _ => create_sized conv, fun _ => start_coupled conv messages⟩
  have hguard := hword.and
    (Machine.meets_of_forall fun act hact _ hm => hmode hm act hact)
  refine Machine.holds_of_step (fun l act hl hg => ?_) hstart hguard
  obtain ⟨hsized, hcoupled⟩ := hl
  obtain ⟨henabled, hmessages⟩ := hg
  obtain ⟨l', hexec, hsized'⟩ := link_exec hsized henabled
  refine ⟨l', hexec, hsized', fun hfresh => ?_⟩
  have hfresh' : l.Fresh :=
    fun p => Nat.lt_of_le_of_lt (numbered_le hexec p) (hfresh p)
  exact (hcoupled hfresh').step hfresh' henabled hmessages hexec

end Run

section Safety

variable {conv : UInt32} {messages : Prop}

/-- What is known of a side and its peer. -/
theorem Link.Coupled.sides {l : Link} (h : l.Coupled conv messages)
    (hfresh : l.Fresh) (p : Bool) :
    ∃ (taken : List Frame) (a b : SelectiveRepeat Frame) (own : List Frame),
      a.Safe ∧ Ikcp.Fresh a ∧ (l p).Couples conv messages own a b ∧
        (l !p).Couples conv messages taken b a := by
  obtain ⟨arqs, taken, hruns, hall⟩ := h
  have hpeer := hall !p
  rw [Bool.not_not] at hpeer
  refine ⟨taken !p, arqs p, arqs !p, taken p,
    SelectiveRepeat.start_safe.steps (hruns p), ?_, hall p, hpeer⟩
  rw [Ikcp.Fresh, ← (hall p).numbered]
  exact hfresh p

/-- Five bytes in streaming mode; the datagram arrives twice and is acknowledged
late. -/
def Link.streamRun : List Act :=
  [.call false (.stream 1), .call false (.send [1, 2, 3] 3),
    .call false (.send [4, 5] 2), .call false (.update 100),
    .call false (.update 200), .arrive true 0, .arrive true 0,
    .call true (.recv 10), .call false (.update 500), .call true (.update 250),
    .arrive false 0, .arrive true 1]

/-- The second call returns -2 and has filled up the segment of the first. -/
example : (link.run (Link.start 7)
      [.call false (.setmtu 50), .call false (.stream 1),
        .call false (.send [1] 1),
        .call false (.send (List.replicate 6656 2) 6656),
        .call false (.update 100), .call false (.update 200),
        .arrive true 0, .call true (.recv 100)]).map
      (fun l => ((l false).accepted, (l true).got)) =
    some ([[1]], [1 :: List.replicate 25 2]) := by
  decide +kernel

/-- Two messages in three datagrams; the last one arrives first. -/
def Link.messageRun : List Act :=
  [.call false (.setmtu 50), .call false (.nodelay 0 10 0 1),
    .call false (.send (List.replicate 30 1) 30), .call false (.send [2] 1),
    .call false (.update 100), .arrive true 2, .arrive true 0,
    .call true (.recv 100), .arrive true 1, .call true (.recv 100),
    .call true (.recv 100), .call true (.update 150), .arrive false 0]

example : (link.run (Link.start 7) Link.messageRun).map
      (fun l => ((l true).got, waitsnd (l false).kcp)) =
    some ([List.replicate 30 1, [2]], 0) := by
  decide +kernel

/-- When everything has arrived, `rcv_buf` holds what is not delivered yet. -/
theorem RecvSide.Couples.rest {k : Kcpcb} {taken : List Frame}
    {b : SelectiveRepeat Frame} (h : k.recvSide.Couples taken b)
    (hsound : k.windows.Sound) (hsafe : b.Safe) (hfresh : Ikcp.Fresh b)
    (hall : ∀ i < b.log.length, b.Seen i) :
    k.rcvBuf.map Seg.frame = b.log.drop b.delivered.length := by
  have hnxt : k.rcvNxt = UInt32.ofNat b.delivered.length := h.nxt
  have hle := delivered_le hsafe
  have hfresh' : b.log.length < 2 ^ 31 := hfresh
  have hbuffered : Ascending k.rcvNxt (2 ^ 31) (k.rcvBuf.map Seg.sn) :=
    hsound.buffered
  have hnumber : ∀ s ∈ k.rcvBuf, b.log[s.sn.toNat]? = some s.frame ∧
      b.delivered.length + ahead k.rcvNxt s.sn = s.sn.toNat := by
    intro s hs
    obtain ⟨i, hi, hseen⟩ := h.buf s hs
    have hlog := hsafe.seen_log hseen
    have hlt := lt_of_log hlog
    have hbelow := hbuffered.below s.sn (List.mem_map_of_mem hs)
    rw [toNat_of_eq_ofNat (Nat.lt_trans hlt hfresh) hi]
    refine ⟨hlog, ?_⟩
    rw [ahead, UInt32.toNat_sub, hnxt, hi, UInt32.toNat_ofNat',
      UInt32.toNat_ofNat'] at hbelow ⊢
    omega
  have hsorted : (k.rcvBuf.map fun s => s.sn.toNat).Pairwise (· < ·) := by
    refine List.pairwise_map.mpr ?_
    refine List.Pairwise.imp_of_mem (fun {s t} hs ht hlt => ?_)
      (List.pairwise_map.mp hbuffered.sorted)
    have := (hnumber s hs).2
    have := (hnumber t ht).2
    omega
  have hrange : k.rcvBuf.map (fun s => s.sn.toNat) =
      List.range' b.delivered.length (b.log.length - b.delivered.length) := by
    refine List.Pairwise.eq_of_mem_iff hsorted List.pairwise_lt_range' ?_
    intro i
    rw [List.mem_range'_1]
    constructor
    · intro hi
      obtain ⟨s, hs, rfl⟩ := List.mem_map.mp hi
      have := (hnumber s hs).2
      have := lt_of_log (hnumber s hs).1
      omega
    · rintro ⟨hlow, hhigh⟩
      rcases h.seen i (hall i (by omega)) with hold | ⟨s, hs, hsn⟩
      · omega
      · exact List.mem_map.mpr ⟨s, hs, toNat_of_eq_ofNat (by omega) hsn⟩
  have hframes : (k.rcvBuf.map Seg.frame).map some =
      (k.rcvBuf.map fun s => s.sn.toNat).map (b.log[·]?) := by
    rw [List.map_map, List.map_map]
    exact List.map_congr_left fun s hs => (hnumber s hs).1.symm
  apply List.map_injective_iff.mpr (Option.some_injective Frame)
  rw [hframes, hrange]
  apply List.ext_getElem?
  intro i
  rw [List.getElem?_map, List.getElem?_map, List.getElem?_drop]
  by_cases hi : i < b.log.length - b.delivered.length
  · have hlt : b.delivered.length + i < b.log.length := by omega
    rw [List.getElem?_range' hi, Option.map_some, Nat.one_mul,
      List.getElem?_eq_getElem hlt]
    rfl
  · rw [List.getElem?_eq_none (by rw [List.length_range']; omega),
      List.getElem?_eq_none (by omega)]
    rfl

/-- `ikcp_waitsnd` is zero only when nothing waits. -/
theorem waitsnd_eq_zero {k : Kcpcb} (hsound : k.windows.Sound)
    (hqueue : k.sndQueue.length < 2 ^ 31) (h : waitsnd k = 0) :
    k.sndBuf = [] ∧ k.sndQueue = [] := by
  have hbuf : k.nsndBuf = UInt32.ofNat k.sndBuf.length := hsound.nsndBuf_eq
  have hque : k.nsndQue = UInt32.ofNat k.sndQueue.length := hsound.nsndQue_eq
  have hsent : Ascending k.sndUna (ahead k.sndUna k.sndNxt)
      (k.sndBuf.map Seg.sn) := hsound.sent
  have hwidth : ahead k.sndUna k.sndNxt < 2 ^ 16 := hsound.sent_width
  have hlen := hsent.length_le
  rw [List.length_map] at hlen
  rw [waitsnd, hbuf, hque, toInt, Int.bmod_def, UInt32.toNat_add,
    UInt32.toNat_ofNat', UInt32.toNat_ofNat'] at h
  have hsum : k.sndBuf.length + k.sndQueue.length = 0 := by
    split at h <;> omega
  exact ⟨List.length_eq_zero_iff.mp (by omega),
    List.length_eq_zero_iff.mp (by omega)⟩

end Safety

end Ikcp

end Libsaf
