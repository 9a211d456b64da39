/-
`ikcp_check`.  A driver that sleeps until the time it returns outputs the same
datagrams at the same milliseconds as one that calls `ikcp_update` in each of
them.
-/
import Libsaf.IkcpBound

namespace Libsaf

namespace Ikcp

/-- `ikcp_update` sets the clock before it looks at it. -/
theorem update_clock (k : Kcpcb) (now current : UInt32) :
    update { k with current := now } current = update k current := rfl

theorem syncFlush_waits {k : Kcpcb} {current : UInt32} (hup : k.updated ≠ 0)
    (hlow : -10000 ≤ itimediff current k.tsFlush)
    (hearly : itimediff current k.tsFlush < 0) :
    syncFlush k current = { k with current := current } := by
  rw [syncFlush, if_neg hup, if_neg hup, if_neg (by omega)]

/-- In front of the time of the flush `ikcp_update` moves the clock and does
nothing else. -/
theorem update_waits {k : Kcpcb} {current : UInt32} (hup : k.updated ≠ 0)
    (hlow : -10000 ≤ itimediff current k.tsFlush)
    (hearly : itimediff current k.tsFlush < 0) :
    update k current = ({ k with current := current }, []) := by
  rw [update, syncFlush_waits hup hlow hearly]
  exact if_neg (Int.not_le.mpr hearly)

/-- The loop of `ikcp_check` finds the least difference. -/
theorem checkLoop_eq_some {current : UInt32} {tmPacket least : Int}
    {buf : List Seg} (h : checkLoop current tmPacket buf = some least) :
    least ≤ tmPacket ∧ ∀ s ∈ buf, 0 < itimediff s.resendts current ∧
      least ≤ itimediff s.resendts current := by
  induction buf generalizing tmPacket with
  | nil =>
      obtain rfl := Option.some.inj h
      exact ⟨Int.le_refl _, fun _ hs => absurd hs List.not_mem_nil⟩
  | cons seg rest ih =>
      rw [checkLoop] at h
      split at h
      · cases h
      · next hlate =>
          obtain ⟨hleast, hrest⟩ := ih h
          have hmin : least ≤ tmPacket ∧
              least ≤ itimediff seg.resendts current := by
            split at hleast <;> omega
          exact ⟨hmin.1, List.forall_mem_cons.mpr
            ⟨⟨Int.not_le.mp hlate, hmin.2⟩, hrest⟩⟩

theorem checkLoop_eq_none {current : UInt32} {tmPacket : Int}
    {buf : List Seg} (h : checkLoop current tmPacket buf = none) :
    ∃ s ∈ buf, itimediff s.resendts current ≤ 0 := by
  induction buf generalizing tmPacket with
  | nil => cases h
  | cons seg rest ih =>
      rw [checkLoop] at h
      split at h
      · next hdue => exact ⟨seg, List.mem_cons_self, hdue⟩
      · obtain ⟨s, hs, hdue⟩ := ih h
        exact ⟨s, List.mem_cons_of_mem seg hs, hdue⟩

theorem checkLoop_pos {current : UInt32} {tmPacket least : Int}
    {buf : List Seg} (hpos : 0 < tmPacket)
    (h : checkLoop current tmPacket buf = some least) : 0 < least := by
  induction buf generalizing tmPacket with
  | nil =>
      obtain rfl := Option.some.inj h
      exact hpos
  | cons seg rest ih =>
      rw [checkLoop] at h
      split at h
      · cases h
      · refine ih ?_ h
        split <;> omega

theorem toNat_capped (interval minimal : UInt32) :
    (if interval ≤ minimal then interval else minimal).toNat =
      min interval.toNat minimal.toNat := by
  split
  · next h => exact (Nat.min_eq_left (UInt32.le_iff_toNat_le.mp h)).symm
  · next h =>
      have hlt := UInt32.lt_iff_toNat_lt.mp (UInt32.not_le.mp h)
      exact (Nat.min_eq_right (Nat.le_of_lt hlt)).symm

/-- The distance to the flush that is to come. -/
theorem ahead_tsFlush {k : Kcpcb} {current : UInt32}
    (hlow : -10000 ≤ itimediff current k.tsFlush)
    (hearly : itimediff current k.tsFlush < 0) :
    (ahead current k.tsFlush : Int) = -itimediff current k.tsFlush := by
  simp only [itimediff] at hlow hearly ⊢
  exact ahead_eq_neg_serialDiff hearly (by omega)

/-- When the application has to call at once: a flush is due, or the time of the
flush is far off, or a segment is to be sent again. -/
def Urgent (k : Kcpcb) (current : UInt32) : Prop :=
  0 ≤ itimediff current k.tsFlush ∨ itimediff current k.tsFlush < -10000 ∨
    ∃ s ∈ k.sndBuf, itimediff s.resendts current ≤ 0

/-- `ikcp_check` of a block that has been updated returns the current time, or
one that is at most an interval later and beyond neither the flush nor the time
to send any segment again. -/
theorem check_cases {k : Kcpcb} (hk : k.ranges.Within) (hup : k.updated ≠ 0)
    (current : UInt32) :
    (check k current = current ∧ Urgent k current) ∨
    ∃ m : UInt32, check k current = current + m ∧ 0 < m.toNat ∧
      m.toNat ≤ k.interval.toNat ∧ -10000 ≤ itimediff current k.tsFlush ∧
      (m.toNat : Int) ≤ -itimediff current k.tsFlush ∧
      ∀ s ∈ k.sndBuf, (m.toNat : Int) ≤ itimediff s.resendts current := by
  have hinterval : 10 ≤ k.interval.toNat := hk.interval_ge
  have hself : itimediff current current = 0 := serialDiff_self current
  rw [check, if_neg hup]
  dsimp only
  by_cases hfar : 10000 ≤ itimediff current k.tsFlush ∨
      itimediff current k.tsFlush < -10000
  · refine Or.inl ⟨?_, ?_⟩
    · rw [if_pos hfar, if_pos (by omega)]
    · exact hfar.imp (fun h => by omega) Or.inl
  rw [if_neg hfar]
  by_cases hdue : 0 ≤ itimediff current k.tsFlush
  · exact Or.inl ⟨if_pos hdue, Or.inl hdue⟩
  rw [if_neg hdue]
  have hbehind := @ahead_tsFlush k current (by omega) (by omega)
  have hflush : itimediff k.tsFlush current = ahead current k.tsFlush := by
    have h := @serialDiff_of_ahead current k.tsFlush current
    rw [ahead_self] at h
    rw [itimediff, h (by omega) (by omega)]
    simp
  cases hloop : checkLoop current 0x7fffffff k.sndBuf with
  | none =>
      exact Or.inl ⟨rfl, Or.inr (Or.inr (checkLoop_eq_none hloop))⟩
  | some tmPacket =>
      have hpos := checkLoop_pos (by decide) hloop
      obtain ⟨hle, hbuf⟩ := checkLoop_eq_some hloop
      refine Or.inr ?_
      dsimp only
      rw [hflush]
      generalize hmin : (if tmPacket < (ahead current k.tsFlush : Int)
        then tmPacket else (ahead current k.tsFlush : Int)) = least
      have hleast : 0 < least ∧ least ≤ tmPacket ∧
          least ≤ ahead current k.tsFlush := by
        split at hmin <;> omega
      have hval : (UInt32.ofInt least).toNat = least.toNat :=
        toNat_ofInt (by omega) (by omega)
      have hcap := toNat_capped k.interval (UInt32.ofInt least)
      have hleast' : ∀ s ∈ k.sndBuf, least ≤ itimediff s.resendts current :=
        fun s hs => hleast.2.1.trans (hbuf s hs).2
      rw [hval] at hcap
      generalize (if k.interval ≤ UInt32.ofInt least then k.interval
        else UInt32.ofInt least) = m at hcap
      have hm : (m.toNat : Int) ≤ least := by omega
      exact ⟨m, rfl, by omega, by omega, by omega, by omega,
        fun s hs => hm.trans (hleast' s hs)⟩

/-- Times in front of the one that `ikcp_check` returns are in front of the
flush. -/
theorem before_check {k : Kcpcb} (hk : k.ranges.Within) (hup : k.updated ≠ 0)
    {current t : UInt32} (h : ahead current t < ahead current (check k current)) :
    -10000 ≤ itimediff t k.tsFlush ∧ itimediff t k.tsFlush < 0 := by
  rcases check_cases hk hup current with ⟨heq, -⟩ |
    ⟨m, heq, hpos, -, hlow, hflush, -⟩
  · rw [heq, ahead_self] at h
    exact absurd h (Nat.not_lt_zero _)
  · have hm : ahead current (current + m) = m.toNat := by
      rw [ahead_add (by rw [ahead_self]; have := m.toNat_lt; omega), ahead_self,
        Nat.zero_add]
    rw [heq, hm] at h
    have hbehind := @ahead_tsFlush k current hlow (by omega)
    have hdiff : itimediff t k.tsFlush =
        (ahead current t : Int) - ahead current k.tsFlush :=
      serialDiff_of_ahead current (by omega) (by omega)
    omega

/-- The driver that calls `ikcp_update` in each of the `n` milliseconds behind
`t`: the datagrams of each. -/
def everyMs : Nat → Kcpcb → UInt32 → List (List (List UInt8))
  | 0, _, _ => []
  | n + 1, k, t =>
      (update k (t + 1)).2 :: everyMs n (update k (t + 1)).1 (t + 1)

/-- The calls that it makes. -/
def everyCall : Nat → UInt32 → List Call
  | 0, _ => []
  | n + 1, t => .update (t + 1) :: everyCall n (t + 1)

/-- The driver that waits for `due` and asks `ikcp_check` again. -/
def whenDue : Nat → Kcpcb → UInt32 → UInt32 → List (List (List UInt8))
  | 0, _, _, _ => []
  | n + 1, k, t, due =>
      if 0 ≤ itimediff (t + 1) due then
        let next := update k (t + 1)
        next.2 :: whenDue n next.1 (t + 1) (check next.1 (t + 1))
      else [] :: whenDue n k (t + 1) due

/-- The calls that it makes. -/
def dueCall : Nat → Kcpcb → UInt32 → UInt32 → List Call
  | 0, _, _, _ => []
  | n + 1, k, t, due =>
      if 0 ≤ itimediff (t + 1) due then
        let next := (update k (t + 1)).1
        .update (t + 1) :: dueCall n next (t + 1) (check next (t + 1))
      else dueCall n k (t + 1) due

theorem update_updated (k : Kcpcb) (current : UInt32) :
    (update k current).1.updated ≠ 0 := by
  have hsync : (syncFlush k current).updated ≠ 0 := by
    rw [syncFlush]
    dsimp only
    split
    · decide
    · assumption
  have hflush : ∀ k : Kcpcb, k.updated ≠ 0 → (flush k).1.updated ≠ 0 :=
    fun k hk => @flush_keeps (fun s => s.updated ≠ 0) (fun _ hs => hs)
      (fun _ _ _ _ _ _ _ _ hs => hs) (fun _ _ _ hs => hs)
      (fun _ _ _ _ hs => hs) k hk
  rw [update]
  generalize syncFlush k current = k' at hsync
  split
  · exact hflush _ hsync
  · exact hsync

/-- The time that `ikcp_check` returns is at most an interval away. -/
theorem ahead_check_le {k : Kcpcb} (hk : k.ranges.Within)
    (hup : k.updated ≠ 0) (current : UInt32) :
    ahead current (check k current) ≤ k.interval.toNat := by
  rcases check_cases hk hup current with ⟨heq, -⟩ | ⟨m, heq, -, hle, -⟩
  · rw [heq, ahead_self]
    exact Nat.zero_le _
  · have hlt := m.toNat_lt
    rw [heq, ahead_add (by rw [ahead_self]; omega), ahead_self, Nat.zero_add]
    exact hle

/-- The two drivers side by side: the block of the one that waits is older by
its clock alone, and the time that it waits for has not passed. -/
theorem whenDue_waits (n : Nat) {k : Kcpcb} (hk : k.InRange)
    (hup : k.updated ≠ 0) {now t c : UInt32}
    (ht : t = c ∨ ahead c t < ahead c (check k c)) :
    whenDue n k t (check k c) = everyMs n { k with current := now } t := by
  induction n generalizing k now t c with
  | zero => rfl
  | succ n ih =>
      have hle := ahead_check_le hk.1 hup c
      have hinterval : k.interval.toNat ≤ 5000 := hk.1.interval_le
      have hlow : ahead c t ≤ 5000 := by
        rcases ht with rfl | ht
        · rw [ahead_self]
          exact Nat.zero_le _
        · omega
      have hnext : ahead c (t + 1) = ahead c t + 1 :=
        ahead_add_one (by omega)
      have hdiff : itimediff (t + 1) (check k c) =
          (ahead c (t + 1) : Int) - ahead c (check k c) :=
        serialDiff_of_ahead c (by omega) (by omega)
      rw [whenDue, everyMs, update_clock k now (t + 1)]
      by_cases hwait : ahead c (t + 1) < ahead c (check k c)
      · obtain ⟨hfar, hearly⟩ := before_check hk.1 hup hwait
        rw [if_neg (by omega), update_waits hup hfar hearly]
        exact congrArg ([] :: ·) (ih hk hup (Or.inr hwait))
      · have hin := hk.update (t + 1)
        have hup' := update_updated k (t + 1)
        rw [if_pos (by omega)]
        generalize update k (t + 1) = next at hin hup'
        obtain ⟨k', out⟩ := next
        have hrest := @ih k' hin hup' k'.current (t + 1) (t + 1) (Or.inl rfl)
        exact congrArg (out :: ·) hrest

/-- Sleeping until the time that `ikcp_check` returns loses nothing: in every
millisecond the same datagrams are output as by calling `ikcp_update` in all of
them. -/
theorem whenDue_eq_everyMs {k : Kcpcb} (hk : k.InRange) (t : UInt32)
    (n : Nat) : whenDue n k t (check k t) = everyMs n k t := by
  by_cases hup : k.updated = 0
  · cases n with
    | zero => rfl
    | succ n =>
        have hcheck : check k t = t := by rw [check, if_pos hup]
        have hdue : 0 ≤ itimediff (t + 1) t := by
          rw [itimediff, serialDiff_nonneg_iff,
            ahead_add_one (by rw [ahead_self]; decide), ahead_self]
          decide
        have hin := hk.update (t + 1)
        have hup' := update_updated k (t + 1)
        rw [hcheck, whenDue, everyMs, if_pos hdue]
        generalize update k (t + 1) = next at hin hup'
        obtain ⟨k', out⟩ := next
        have hrest := @whenDue_waits n k' hin hup' k'.current (t + 1) (t + 1)
          (Or.inl rfl)
        exact congrArg (out :: ·) hrest
  · exact whenDue_waits n hk hup (Or.inl rfl)

/-- `ikcp_check` asks for a call at once exactly when it is urgent, and else for
one within the interval that is not later than the time to send any segment
again. -/
theorem check_iff_urgent {k : Kcpcb} (hk : k.ranges.Within)
    (hup : k.updated ≠ 0) (current : UInt32) :
    (check k current = current ↔ Urgent k current) ∧
      ∀ s ∈ k.sndBuf, ¬ Urgent k current →
        (ahead current (check k current) : Int) ≤
          itimediff s.resendts current := by
  rcases check_cases hk hup current with ⟨heq, hurgent⟩ |
    ⟨m, heq, hpos, -, hlow, hflush, hbuf⟩
  · exact ⟨iff_of_true heq hurgent, fun _ _ hnot => absurd hurgent hnot⟩
  · have hlt := m.toNat_lt
    have hdist : ahead current (check k current) = m.toNat := by
      rw [heq, ahead_add (by rw [ahead_self]; omega), ahead_self, Nat.zero_add]
    refine ⟨iff_of_false ?_ ?_, fun s hs _ => hdist ▸ hbuf s hs⟩
    · intro hsame
      rw [hsame, ahead_self] at hdist
      omega
    · rintro (hdue | hfar | ⟨s, hs, hdue⟩)
      · omega
      · omega
      · have hs' := hbuf s hs
        omega

/-- A driver may call `ikcp_update` at any time. -/
theorem updates_legal {word : List Call}
    (hword : ∀ c ∈ word, ∃ t, c = .update t) (k : Kcpcb) :
    endpoint.Legal k word := by
  refine Machine.meets_of_forall fun c hc k => ?_
  obtain ⟨t, rfl⟩ := hword c hc
  exact ⟨trivial, trivial⟩

theorem everyCall_updates (n : Nat) (t : UInt32) :
    ∀ c ∈ everyCall n t, ∃ t, c = .update t := by
  induction n generalizing t with
  | zero => exact fun c hc => absurd hc List.not_mem_nil
  | succ n ih => exact List.forall_mem_cons.mpr ⟨⟨t + 1, rfl⟩, ih (t + 1)⟩

theorem dueCall_updates (n : Nat) (k : Kcpcb) (t due : UInt32) :
    ∀ c ∈ dueCall n k t due, ∃ t, c = .update t := by
  induction n generalizing k t due with
  | zero => exact fun c hc => absurd hc List.not_mem_nil
  | succ n ih =>
      rw [dueCall]
      split
      · exact List.forall_mem_cons.mpr ⟨⟨t + 1, rfl⟩, ih _ _ _⟩
      · exact ih k (t + 1) due

end Ikcp

end Libsaf
