/-
Sending again works.  Once the datagrams of one flush get through, every segment
that was due has arrived.
-/
import Libsaf.IkcpLink

namespace Libsaf

namespace Ikcp

section Due

/-- What `ikcp_flush` looks at to decide what is sent is not changed on the way
to the data. -/
theorem loaded_sendCause (k : Kcpcb) (segment : Seg) :
    sendCause (loaded k) segment = sendCause k segment :=
  @sendLoop_keeps (fun s => sendCause s segment = sendCause k segment) _ _
    (fun _ _ _ _ _ h => h) { probed k with probe := 0 } rfl

/-- A flush sends every segment that is due, those that it has just moved to
`snd_buf` included. -/
theorem mem_flushSegs {k : Kcpcb} {s : Seg} (hs : s ∈ (loaded k).sndBuf)
    (hdue : sendCause k s ≠ none) : ∃ t ∈ flushSegs k, t.core = s.core := by
  obtain ⟨cause, hcause⟩ := Option.ne_none_iff_exists'.mp hdue
  rw [← loaded_sendCause] at hcause
  have hresent : ∃ t, resent (loaded k) (wndUnused k) s = some t := by
    rw [resent, hcause]
    exact ⟨_, rfl⟩
  obtain ⟨t, ht⟩ := hresent
  refine ⟨t, ?_, (resent_core ht).1⟩
  rw [flushSegs]
  exact List.mem_append_right _
    (List.mem_filterMap.mpr ⟨s, hs, ht⟩)

end Due

section Retry

variable {conv : UInt32} {messages : Prop} {taken : List Frame}
  {a b : SelectiveRepeat Frame}

theorem input_rcvWnd (k : Kcpcb) (data : List UInt8) :
    (input k data).2.inbox.rcvWnd = k.inbox.rcvWnd :=
  @input_keeps (fun s => s.inbox.rcvWnd = k.inbox.rcvWnd)
    (fun s maxack seg hs _ => (inputSeg_rcvWnd s maxack seg).trans hs)
    (fun s sn hs => by rwa [parseFastack_inbox]) (fun _ hs => hs) k rfl data

/-- The segment was delivered or is in `rcv_buf`. -/
def Side.Has (s : Side) (sn : UInt32) : Prop :=
  sn.toNat < s.kcp.rcvNxt.toNat ∨ ∃ t ∈ s.kcp.rcvBuf, t.sn = sn

theorem arriveAll_keeps {P : Kcpcb → Prop}
    (hinput : ∀ k d, P k → P (input k d).2) {s : Side} (h : P s.kcp)
    (ds : List (List UInt8)) : P (ds.foldl Side.arrive s).kcp := by
  induction ds generalizing s with
  | nil => exact h
  | cons d rest ih => exact @ih (s.arrive d) (hinput s.kcp d h)

/-- Some datagrams arrive one after the other. -/
theorem Side.Couples.arriveAll {s : Side} {groups : List (List Seg)}
    (h : s.Couples conv messages taken a b) (hsafe : a.Safe ∧ b.Safe)
    (hfresh : Fresh a ∧ Fresh b)
    (hall : ∀ g ∈ groups, g ≠ [] ∧ ∀ t ∈ g, Tells conv b a t) :
    ∃ a' b', a.Sends a' ∧ b.Receives b' ∧
      (∀ i < 2 ^ 31, (∃ t ∈ groups.flatten, t.Brings i) → s.kcp.Takes
        ((groups.map (·.flatMap Seg.wire)).foldl Side.arrive s).kcp b b' i) ∧
      ((groups.map (·.flatMap Seg.wire)).foldl Side.arrive s).Couples conv
        messages taken a' b' := by
  induction groups generalizing s a b with
  | nil =>
      refine ⟨a, b, SelectiveRepeat.Sends.refl a,
        SelectiveRepeat.Receives.refl b, ?_, h⟩
      rintro i - ⟨t, ht, -⟩
      exact absurd ht List.not_mem_nil
  | cons g rest ih =>
      obtain ⟨⟨hne, hg⟩, hrest⟩ := List.forall_mem_cons.mp hall
      obtain ⟨a₁, b₁, ha₁, hlog, hb₁, hhead, hs⟩ :=
        h.arriveSegs hsafe hfresh hne hg
      have hfresh₁ : Fresh a₁ ∧ Fresh b₁ := by
        rw [Fresh, Fresh, hlog, hb₁.log]
        exact hfresh
      obtain ⟨a', b', ha', hb', htail, hs'⟩ := ih hs
        ⟨hsafe.1.steps ha₁.steps, hsafe.2.steps hb₁.steps⟩ hfresh₁
        fun g' hg' => ⟨(hrest g' hg').1, fun t ht =>
          ((hrest g' hg').2 t ht).mono hb₁.steps.before ha₁.steps.before⟩
      refine ⟨a', b', ha₁.trans ha', hb₁.trans hb', ?_, hs'⟩
      rintro i hi ⟨t, ht, hbrings⟩
      rw [List.flatten_cons] at ht
      rw [List.map_cons, List.foldl_cons]
      rcases List.mem_append.mp ht with ht | ht
      · exact (hhead i hi ⟨t, ht, hbrings⟩).keep
          (fun sn howes => @arriveAll_keeps (Kcpcb.Owes · sn)
            (fun _ d hk => hk.input d) _ howes _)
          hb'.steps.before
      · exact (htail i hi ⟨t, ht, hbrings⟩).of_later (input_rcvWnd s.kcp _) hb₁

/-- A segment that is kept is less than a window behind the newest one. -/
theorem numbered_near {k : Kcpcb} (hsound : k.windows.Sound)
    (hout : k.outgoing.Couples a) (hfresh : Fresh a) {i : Nat}
    (hi : i < a.log.length) {t : Seg} (ht : t ∈ k.sndBuf)
    (hsn : t.sn = UInt32.ofNat i) : a.log.length ≤ i + 2 ^ 16 := by
  have hsent : Ascending k.sndUna (ahead k.sndUna k.sndNxt)
      (k.sndBuf.map Seg.sn) := hsound.sent
  have hwidth : ahead k.sndUna k.sndNxt < 2 ^ 16 := hsound.sent_width
  have hnxt : k.sndNxt = UInt32.ofNat a.log.length := hout.nxt
  have hlt := hsent.below t.sn (List.mem_map_of_mem ht)
  have hdist := ahead_rebase (Nat.le_of_lt hlt)
  have hfar : ahead t.sn k.sndNxt = a.log.length - i := by
    have hlog : a.log.length < 2 ^ 31 := hfresh
    rw [hsn, hnxt]
    simp only [ahead, UInt32.toNat_sub, UInt32.toNat_ofNat']
    omega
  omega

/-- What the receiver has seen was delivered or waits. -/
theorem Side.Couples.has {s : Side}
    (h : s.Couples conv messages taken a b) (hsafe : b.Safe)
    (hfresh : Fresh b) {sn : UInt32} {i : Nat} (hi : i < 2 ^ 31)
    (hsn : sn = UInt32.ofNat i) (hseen : b.Seen i) : s.Has sn := by
  rw [Side.Has, toNat_of_eq_ofNat hi hsn, h.inc.rcvNxt_toNat hsafe hfresh]
  rcases h.inc.seen i hseen with hlow | ⟨t, ht, htsn⟩
  · exact Or.inl hlow
  · exact Or.inr ⟨t, ht, htsn.trans hsn.symm⟩

/-- A segment that is due carries a frame of the log, and the flush sends it; it
is less than a window behind the newest one. -/
theorem flush_brings {k : Kcpcb} (hup : k.updated ≠ 0)
    (hsound : (flush k).1.Sound) (hformed : (flush k).1.sending.Formed conv)
    (hout : (flush k).1.outgoing.Couples a) (hfresh : Fresh a) {s : Seg}
    (hs : s ∈ (loaded k).sndBuf) (hdue : sendCause k s ≠ none) :
    ∃ i, s.sn = UInt32.ofNat i ∧ i < 2 ^ 31 ∧ a.log.length ≤ i + 2 ^ 16 ∧
      ∃ t ∈ flushSegs k, t.Brings i := by
  have hbuf : s.core ∈ (flush k).1.sending.sndBuf := by
    rw [flush_sndBuf hup]
    exact List.mem_map_of_mem hs
  obtain ⟨i, hsn, hlog⟩ := hout.buf s.core hbuf
  have hlt := lt_of_log hlog
  obtain ⟨r, hr, hrcore⟩ := List.mem_map.mp hbuf
  obtain ⟨t, ht, hcore⟩ := mem_flushSegs hs hdue
  obtain ⟨-, hpush, -⟩ := hformed.buf s.core hbuf
  exact ⟨i, hsn, Nat.lt_trans hlt hfresh,
    numbered_near hsound.1 hout hfresh hlt hr
      ((congrArg Core.sn hrcore).trans hsn),
    t, ht, (congrArg Core.cmd hcore).trans hpush,
    (congrArg Core.sn hcore).trans hsn⟩

/-- What holds once the datagrams of a flush have got through: a segment that
was due or new and that the peer has room for has arrived and waits to be
acknowledged. -/
theorem Link.Coupled.retries {l : Link} (h : l.Coupled conv messages)
    (hfresh : l.Fresh) {p : Bool}
    (hnumbered : ((l p).call .flush).numbered < 2 ^ 31)
    (hup : (l p).kcp.updated ≠ 0) {s : Seg}
    (hs : s ∈ (loaded (l p).kcp).sndBuf)
    (hdue : sendCause (l p).kcp s ≠ none)
    (hroom : s.sn.toNat <
      (l !p).kcp.rcvNxt.toNat + (l !p).kcp.rcvWnd.toNat) :
    ∃ (taken : List Frame) (b c : SelectiveRepeat Frame),
      ((flush (l p).kcp).2.foldl Side.arrive (l !p)).Couples conv messages taken
        b c ∧
      ((flush (l p).kcp).2.foldl Side.arrive (l !p)).Has s.sn ∧
      ((l !p).kcp.rcvWnd.toNat ≤ 2 ^ 30 →
        ((flush (l p).kcp).2.foldl Side.arrive (l !p)).kcp.Owes s.sn) := by
  obtain ⟨arqs, taken, hruns, hall⟩ := h
  have hside := hall p
  have hpeer := hall !p
  rw [Bool.not_not] at hpeer
  have hsafe : ∀ p, (arqs p).Safe :=
    fun p => SelectiveRepeat.start_safe.steps (hruns p)
  -- The flush numbers what there is room for and sends what is due.
  obtain ⟨a, ha, hflushed⟩ := hside.flush hside.sound.flush
    ⟨hside.range.1.flush, flush_open (l p).kcp⟩ rfl rfl rfl rfl
  have hfreshA : Ikcp.Fresh a := by
    rw [Ikcp.Fresh, ← hflushed.numbered]
    exact hnumbered
  have hfreshB : Ikcp.Fresh (arqs !p) := by
    rw [Ikcp.Fresh, ← hpeer.numbered]
    exact hfresh !p
  obtain ⟨i, hsn, hi, hnear, hbrings⟩ := flush_brings hup hflushed.sound
    hflushed.formed hflushed.out hfreshA hs hdue
  obtain ⟨groups, hout, hsegs, htells⟩ := flush_told hup hside.formed
    hflushed.out hside.inc
  -- They arrive one after the other.
  have hframe := hpeer.frame (SelectiveRepeat.Receives.refl (arqs !p)) ha
  have hsafeA := (hsafe p).steps ha.steps
  obtain ⟨b, c, hb, hc, hseen, hcouples⟩ := hframe.arriveAll
    ⟨hsafe !p, hsafeA⟩ ⟨hfreshB, hfreshA⟩ htells
  rw [← hout] at hcouples hseen
  refine ⟨taken !p, b, c, hcouples, ?_⟩
  generalize (flush (l p).kcp).2.foldl Side.arrive (l !p) = peer
    at hcouples hseen
  have hadmits : (l !p).kcp.Admits a i := by
    rw [Kcpcb.Admits, ← hframe.inc.rcvNxt_toNat hsafeA hfreshA,
      ← toNat_of_eq_ofNat hi hsn]
    exact ⟨hpeer.sound.1.rcvWnd_lt, hroom⟩
  obtain ⟨harrived, howes⟩ := hseen i hi (hsegs ▸ hbrings) hadmits
  have hfreshC : Ikcp.Fresh c := by
    rw [Ikcp.Fresh, hc.log]
    exact hfreshA
  refine ⟨hcouples.has (hsafeA.steps hc.steps) hfreshC hi hsn harrived,
    fun hwnd => ?_⟩
  rw [hsn]
  refine howes ?_
  rw [Kcpcb.Near]
  omega

/-- A datagram that is lost, and the clock behind the time to send it again. -/
def Link.lostRun : List Act :=
  [.call false (.send [1, 2, 3] 3), .call false (.update 100),
    .call false (.update 200), .call false (.update 410),
    .call false (.update 430)]

example : (link.run (Link.start 7) Link.lostRun).map (fun l =>
      ((l false).kcp.sndBuf.map fun s => (sendCause (l false).kcp s).isSome,
        ((flush (l false).kcp).2.foldl Side.arrive (l true)).kcp.rcvNxt)) =
    some ([true], 1) := by
  decide +kernel

/-- A segment that waits in `snd_queue` is sent as well. -/
example : (link.run (Link.start 7)
      [.call false (.send [1, 2, 3] 3), .call false (.update 100)]).map
      (fun l => ((l false).kcp.sndBuf,
        (loaded (l false).kcp).sndBuf.map (sendCause (l false).kcp),
        ((flush (l false).kcp).2.foldl Side.arrive (l true)).kcp.rcvNxt)) =
    some ([], [some .first], 1) := by
  decide +kernel

end Retry

end Ikcp

end Libsaf
