/-
One endpoint of the ARQ over whole runs.  The application and the network make
any calls in any order, and the bytes of a datagram are any bytes; but the
maximum transmission unit is not lowered under segments that wait, which
`ikcp_flush` would write behind the end of its block.
-/
import Libsaf.IkcpSending
import Libsaf.Machine

namespace Libsaf

namespace Ikcp

/-- The calls; `stream` is the assignment to the field. -/
inductive Call where
  | send (buffer : List UInt8) (len : Int)
  | recv (len : Int)
  | update (current : UInt32)
  | flush
  | input (data : List UInt8)
  | setmtu (mtu : Int)
  | interval (interval : Int)
  | nodelay (nodelay interval resend nc : Int)
  | wndsize (sndwnd rcvwnd : Int)
  | stream (on : Int)

/-- The block and the datagrams output after a call. -/
def Kcpcb.call (k : Kcpcb) : Call → Kcpcb × List (List UInt8)
  | .send buffer len => ((send k buffer len).2, [])
  | .recv len => ((recv k len).2.2, [])
  | .update current => update k current
  | .flush => flush k
  | .input data => ((input k data).2, [])
  | .setmtu mtu => ((setmtu k mtu).2, [])
  | .interval interval => ((setInterval k interval).2, [])
  | .nodelay nodelay interval resend nc =>
      ((setNodelay k nodelay interval resend nc).2, [])
  | .wndsize sndwnd rcvwnd => ((wndsize k sndwnd rcvwnd).2, [])
  | .stream on => ({ k with stream := on }, [])

/-- How far a call writes into the block of `ikcp_flush`. -/
def Kcpcb.peak (k : Kcpcb) : Call → Nat
  | .update current => updatePeak k current
  | .flush => flushPeak k
  | _ => 0

/-- A call writes behind the end of the block. -/
def Kcpcb.Overruns (k : Kcpcb) (c : Call) : Prop := k.buffer.toNat < k.peak c

instance (k : Kcpcb) (c : Call) : Decidable (k.Overruns c) :=
  inferInstanceAs (Decidable (_ < _))

/-- The value of an `int`. -/
def IsInt (n : Int) : Prop := -2 ^ 31 ≤ n ∧ n < 2 ^ 31

instance (n : Int) : Decidable (IsInt n) :=
  inferInstanceAs (Decidable (_ ∧ _))

/-- The integers of a call are of type `int`, and a buffer is as long as its
length says. -/
def Call.Typed : Call → Prop
  | .send buffer len => IsInt len ∧ len ≤ buffer.length
  | .recv len => IsInt len
  | .setmtu mtu => IsInt mtu
  | .interval ms => IsInt ms
  | .nodelay on ms resend nc => IsInt on ∧ IsInt ms ∧ IsInt resend ∧ IsInt nc
  | .wndsize sndwnd rcvwnd => IsInt sndwnd ∧ IsInt rcvwnd
  | .stream on => IsInt on
  | .update _ => True
  | .flush => True
  | .input _ => True

instance : (c : Call) → Decidable c.Typed
  | .send buffer len =>
      inferInstanceAs (Decidable (IsInt len ∧ len ≤ buffer.length))
  | .recv len => inferInstanceAs (Decidable (IsInt len))
  | .setmtu mtu => inferInstanceAs (Decidable (IsInt mtu))
  | .interval ms => inferInstanceAs (Decidable (IsInt ms))
  | .nodelay on ms resend nc => inferInstanceAs
      (Decidable (IsInt on ∧ IsInt ms ∧ IsInt resend ∧ IsInt nc))
  | .wndsize sndwnd rcvwnd =>
      inferInstanceAs (Decidable (IsInt sndwnd ∧ IsInt rcvwnd))
  | .stream on => inferInstanceAs (Decidable (IsInt on))
  | .update _ => isTrue trivial
  | .flush => isTrue trivial
  | .input _ => isTrue trivial

/-- What `ikcp_setmtu` does not check: the size of the new block is not too large
for 32 bits, and the segments that wait are not too large for a datagram. -/
def Call.Fits (k : Kcpcb) : Call → Prop
  | .setmtu mtu => mtu < 50 ∨ (mtu + OVERHEAD) * 3 < 2 ^ 32 ∧
      (∀ s ∈ k.sndQueue, s.data.length + OVERHEAD ≤ mtu.toNat) ∧
      ∀ s ∈ k.sndBuf, s.data.length + OVERHEAD ≤ mtu.toNat
  | _ => True

instance (k : Kcpcb) : (c : Call) → Decidable (c.Fits k)
  | .setmtu mtu => inferInstanceAs (Decidable (mtu < 50 ∨
      (mtu + OVERHEAD) * 3 < 2 ^ 32 ∧
      (∀ s ∈ k.sndQueue, s.data.length + OVERHEAD ≤ mtu.toNat) ∧
      ∀ s ∈ k.sndBuf, s.data.length + OVERHEAD ≤ mtu.toNat))
  | .send _ _ => isTrue trivial
  | .recv _ => isTrue trivial
  | .update _ => isTrue trivial
  | .flush => isTrue trivial
  | .input _ => isTrue trivial
  | .interval _ => isTrue trivial
  | .nodelay _ _ _ _ => isTrue trivial
  | .wndsize _ _ => isTrue trivial
  | .stream _ => isTrue trivial

/-- A call that writes behind the end of the block is a fault. -/
def endpoint : Machine Kcpcb Call where
  enabled k c := c.Typed ∧ c.Fits k
  exec k c := if k.Overruns c then none else some (k.call c).1

instance (k : Kcpcb) (c : Call) : Decidable (endpoint.enabled k c) :=
  inferInstanceAs (Decidable (c.Typed ∧ c.Fits k))

theorem toNat_ofInt {n : Int} (hlow : 0 ≤ n) (hhigh : n < 2 ^ 32) :
    (UInt32.ofInt n).toNat = n.toNat := by
  rw [UInt32.ofInt, UInt32.toNat_ofNat']
  omega

theorem Kcpcb.Sound.wndsize {k : Kcpcb} {sndwnd rcvwnd : Int} (h : k.Sound)
    (hrcv : IsInt rcvwnd) : (Ikcp.wndsize k sndwnd rcvwnd).2.Sound := by
  have hwnd : (if 0 < rcvwnd then UInt32.ofInt rcvwnd else k.rcvWnd).toNat <
      2 ^ 31 := by
    split
    · next hpos =>
        have hlt := hrcv.2
        rw [toNat_ofInt (by omega) (by omega)]
        omega
    · exact h.1.rcvWnd_lt
  exact ⟨{ h.1 with rcvWnd_lt := hwnd }, h.2⟩

theorem Kcpcb.Sound.setmtu {k : Kcpcb} (h : k.Sound) (mtu : Int) :
    (Ikcp.setmtu k mtu).2.Sound := by
  rw [Ikcp.setmtu]
  split
  · exact h
  · exact h

theorem Kcpcb.Sound.call {k : Kcpcb} {c : Call} (h : k.Sound)
    (hc : c.Typed) : (k.call c).1.Sound := by
  cases c with
  | send buffer len => exact h.send buffer len
  | recv len => exact h.of_sendSide (h.1.recv len) (recv_sendSide k len)
  | update current => exact h.update current
  | flush => exact h.flush
  | input data => exact h.input data
  | setmtu mtu => exact h.setmtu mtu
  | interval ms => exact h
  | nodelay on ms resend nc => exact h
  | wndsize sndwnd rcvwnd => exact h.wndsize hc.2
  | stream on => exact h

/-- The calls other than `ikcp_send` and `ikcp_setmtu`. -/
def Call.Leads : Call → Prop
  | .send _ _ => False
  | .setmtu _ => False
  | _ => True

theorem call_leads (k : Kcpcb) {c : Call} (hc : c.Leads) :
    k.sending.Leads (k.call c).1.sending := by
  cases c with
  | send buffer len => exact hc.elim
  | setmtu mtu => exact hc.elim
  | recv len =>
      have hrecv := recv_sending k len
      exact hrecv ▸ Sending.Leads.rfl
  | update current => exact update_leads k current
  | flush => exact flush_leads k
  | input data => exact input_leads k data
  | interval ms => exact Sending.Leads.rfl
  | nodelay on ms resend nc => exact Sending.Leads.rfl
  | wndsize sndwnd rcvwnd => exact Sending.Leads.rfl
  | stream on => exact Sending.Leads.rfl

theorem Sending.Formed.setmtu {conv : UInt32} {k : Kcpcb}
    (h : k.sending.Formed conv) (mtu : Int) :
    (Ikcp.setmtu k mtu).2.sending.Formed conv := by
  rw [Ikcp.setmtu]
  split
  · exact h
  · exact ⟨h.conv_eq, h.queue, h.buf⟩

theorem Sending.Formed.call {conv : UInt32} {k : Kcpcb}
    (h : k.sending.Formed conv) (c : Call) :
    (k.call c).1.sending.Formed conv := by
  cases c with
  | send buffer len => exact h.send buffer len
  | setmtu mtu => exact h.setmtu mtu
  | _ => exact h.leads (call_leads k trivial)

/-- The new block is large enough for the new datagrams. -/
theorem Sending.Sized.setmtu {k : Kcpcb} {mtu : Int} (h : k.sending.Sized)
    (hfits : Call.Fits k (.setmtu mtu)) :
    (Ikcp.setmtu k mtu).2.sending.Sized := by
  rw [Ikcp.setmtu]
  by_cases hsmall : mtu < 50 ∨ mtu < OVERHEAD
  · rw [if_pos hsmall]
    exact h
  · rw [if_neg hsmall]
    obtain ⟨hroom, hqueue, hbuf⟩ :=
      hfits.resolve_left fun hlt => hsmall (Or.inl hlt)
    have hover : OVERHEAD = 24 := rfl
    have hmtu : (UInt32.ofInt mtu).toNat = mtu.toNat :=
      toNat_ofInt (by omega) (by omega)
    have hmss : (UInt32.ofInt mtu - UInt32.ofNat OVERHEAD).toNat =
        mtu.toNat - OVERHEAD := by
      rw [UInt32.toNat_sub, UInt32.toNat_ofNat', hmtu]
      omega
    have hbuffer : ((UInt32.ofInt mtu + UInt32.ofNat OVERHEAD) * 3).toNat =
        (mtu.toNat + OVERHEAD) * 3 := by
      rw [UInt32.toNat_mul, UInt32.toNat_add, UInt32.toNat_ofNat', hmtu]
      change (mtu.toNat + OVERHEAD % 2 ^ 32) % 2 ^ 32 * 3 % 2 ^ 32 = _
      omega
    refine ⟨?_, ?_, fun s hs => ?_, fun c hc => ?_⟩
    · show (UInt32.ofInt mtu - UInt32.ofNat OVERHEAD).toNat + OVERHEAD =
        (UInt32.ofInt mtu).toNat
      omega
    · show (UInt32.ofInt mtu).toNat ≤
        ((UInt32.ofInt mtu + UInt32.ofNat OVERHEAD) * 3).toNat
      omega
    · have hlen := hqueue s hs
      show s.data.length ≤ (UInt32.ofInt mtu - UInt32.ofNat OVERHEAD).toNat
      omega
    · obtain ⟨s, hs, rfl⟩ := List.mem_map.mp hc
      have hlen := hbuf s hs
      show s.data.length ≤ (UInt32.ofInt mtu - UInt32.ofNat OVERHEAD).toNat
      omega

theorem Sending.Sized.call {k : Kcpcb} {c : Call} (h : k.sending.Sized)
    (hc : c.Fits k) : (k.call c).1.sending.Sized := by
  cases c with
  | send buffer len => exact h.send buffer len
  | setmtu mtu => exact h.setmtu hc
  | _ => exact h.leads (call_leads k trivial)

theorem sending_buffer (k : Kcpcb) : k.sending.buffer = k.buffer := rfl

/-- Where the segments fit, no call writes behind the end of the block. -/
theorem Sending.Sized.not_overruns {k : Kcpcb} (h : k.sending.Sized)
    (c : Call) : ¬ k.Overruns c := by
  rw [Kcpcb.Overruns, ← sending_buffer, Nat.not_lt]
  cases c with
  | update current => exact updatePeak_le h current
  | flush => exact flushPeak_le h
  | _ => exact Nat.zero_le _

theorem endpoint_exec {k : Kcpcb} (h : k.sending.Sized) (c : Call) :
    endpoint.exec k c = some (k.call c).1 := if_neg (h.not_overruns c)

/-- A unit that is lowered under a segment that waits, and a block whose size
wraps to two bytes. -/
example : endpoint.run (create 7) [.send (List.replicate 1376 1) 1376,
      .setmtu 50, .update 100, .update 200] = none ∧
    endpoint.run (create 7) [.setmtu 1431655742, .send [1, 2, 3] 3,
      .update 100, .update 200] = none := by
  decide +kernel

/-- Invariant rule for an endpoint: from a block whose segments fit, no call
faults. -/
theorem endpoint_rule {G : Kcpcb → Call → Prop} {P : Kcpcb → Prop}
    (hlegal : ∀ (k : Kcpcb) (c : Call), G k c → endpoint.enabled k c)
    (hcall : ∀ (k : Kcpcb) (c : Call), P k → G k c → P (k.call c).1)
    {k : Kcpcb} {word : List Call} (hsized : k.sending.Sized) (hk : P k)
    (hword : endpoint.Meets G k word) :
    endpoint.Holds (fun k => k.sending.Sized ∧ P k) k word :=
  Machine.holds_of_step
    (fun k c h hc => ⟨(k.call c).1, endpoint_exec h.1 c,
      h.1.call (hlegal k c hc).2, hcall k c h.2 hc⟩) ⟨hsized, hk⟩ hword

end Ikcp

end Libsaf
