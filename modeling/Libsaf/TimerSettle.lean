/-
`EventLoop::runTimers` on a clock that stands still: exactly the timers that are
due are called, in the order of their timestamps, and the repeated ones among
them are set anew.
-/
import Libsaf.TimerPass

namespace Libsaf

/-- What is left of a timer at the time `now`. -/
def Timer.settle (now : Int) (t : Timer) : Option Timer :=
  if t.timestamp < now then
    if t.repeated then some { t with timestamp := now + t.interval } else none
  else some t

/-- The timestamp under a pointer of the heap. -/
def TimerQueue.timestampOf (q : TimerQueue) (p : Nat) : Int :=
  (q.held p).elim 0 Timer.timestamp

namespace TimerPass

/-- The timers that were due were called, each once and in order, and the heap
holds what is left of all timers. -/
structure Exact (now : Int) (q : TimerQueue) (s : TimerPass) : Prop where
  ended : s.ended = true
  nodup : s.called.Nodup
  called : ∀ p, p ∈ s.called ↔ ∃ t, q.held p = some t ∧ t.timestamp < now
  inOrder : s.called.Pairwise fun p x => q.timestampOf p ≤ q.timestampOf x
  consistent : s.queue.Consistent
  ordered : s.queue.Ordered
  held : ∀ p, s.queue.held p = (q.held p).bind (Timer.settle now)

/-- A call at the time `now` ends, and does just this. -/
def RunsExactly (now : Int) (q : TimerQueue) : Prop :=
  ∃ n s, runTimers (fun _ => now) n (start q) = some s ∧ s.Exact now q

/-- Every timer that is due can be taken out of the heap, and set anew if it is
repeated: its new timestamp is a `long`. -/
def Settles (now : Int) (q : TimerQueue) : Prop :=
  ∀ p t, q.held p = some t → t.timestamp < now →
    q.heap.length < 2 ^ 31 ∧ (t.repeated = true → now + t.interval < 2 ^ 63)

/-- A call under way: the timers that were called are settled, the others are as
they were and not due before those. -/
structure Settling (now : Int) (q : TimerQueue) (s : TimerPass) : Prop where
  sound : s.Sound
  ordered : s.queue.Ordered
  length : s.queue.heap.length ≤ q.heap.length
  nodup : s.called.Nodup
  called : ∀ p ∈ s.called, ∃ t, q.held p = some t ∧ t.timestamp < now
  settled : ∀ p ∈ s.called, s.queue.held p = (q.held p).bind (Timer.settle now)
  waiting : ∀ p, p ∉ s.called → s.queue.held p = q.held p
  inOrder : s.called.Pairwise fun p x => q.timestampOf p ≤ q.timestampOf x
  early : ∀ p ∈ s.called, ∀ x, x ∉ s.called → ∀ t, q.held x = some t →
    q.timestampOf p ≤ t.timestamp

variable {now : Int} {q : TimerQueue} {s s' : TimerPass}

theorem start_settling (hq : q.Consistent) (hsmall : q.heap.length ≤ 2 ^ 31)
    (hordered : q.Ordered) : Settling now q (start q) where
  sound := ⟨hq, hsmall⟩
  ordered := hordered
  length := Nat.le_refl _
  nodup := List.nodup_nil
  called _ hp := absurd hp List.not_mem_nil
  settled _ hp := absurd hp List.not_mem_nil
  waiting _ _ := rfl
  inOrder := List.Pairwise.nil
  early _ hp := absurd hp List.not_mem_nil

/-- A timer that was settled is not due. -/
theorem settled_late {t u : Timer}
    (hinterval : t.repeated = true → 0 ≤ t.interval)
    (h : t.settle now = some u) : now ≤ u.timestamp := by
  unfold Timer.settle at h
  split at h
  · split at h
    · next hrepeated =>
        cases h
        have := hinterval hrepeated
        simp only
        omega
    · cases h
  · next hlate =>
      cases h
      omega

/-- A timer that is due is set anew as it should be. -/
theorem rearm_eq_settle {t : Timer} (hnow : -2 ^ 63 ≤ now)
    (hinterval : t.repeated = true → 0 ≤ t.interval) (hdue : t.timestamp < now)
    (hfits : t.repeated = true → now + t.interval < 2 ^ 63) :
    t.rearm now = t.settle now := by
  rw [Timer.rearm, Timer.settle, if_pos hdue]
  split
  · next hrepeated =>
      have := hinterval hrepeated
      rw [toLong_eq (by omega) (hfits hrepeated)]
  · rfl

/-- The repeated timers have an interval that is not negative. -/
def Forward (q : TimerQueue) : Prop :=
  ∀ p t, q.held p = some t → t.repeated = true → 0 ≤ t.interval

/-- What was called is not due. -/
theorem Settling.called_late (h : Settling now q s) (hforward : Forward q)
    {p : Nat} (hp : p ∈ s.called) {u : Timer} (hu : s.queue.held p = some u) :
    now ≤ u.timestamp := by
  rw [h.settled p hp] at hu
  obtain ⟨t, ht, hsettle⟩ := Option.bind_eq_some_iff.mp hu
  exact settled_late (hforward p t ht) hsettle

/-- The timer that is called next. -/
theorem Settling.calls (h : Settling now q s) (hnow : -2 ^ 63 ≤ now)
    (hforward : Forward q) (hsettles : Settles now q) {p : Nat} {t : Timer}
    (hcalls : Calls (fun _ => now) s s' p t) : Settling now q s' := by
  have hdue : t.timestamp < now := hcalls.due
  have hfresh : p ∉ s.called := by
    intro hp
    have hlate := h.called_late hforward hp hcalls.held
    omega
  have hp : q.held p = some t := (h.waiting p hfresh).symm.trans hcalls.held
  have hstamp : q.timestampOf p = t.timestamp := by
    rw [TimerQueue.timestampOf, hp]
    rfl
  have hmem : ∀ x, x ∈ s'.called ↔ x ∈ s.called ∨ x = p := by
    intro x
    rw [hcalls.called, List.mem_append, List.mem_singleton]
  have hafter : ∀ x, x ≠ p → s'.queue.held x = s.queue.held x := by
    intro x hne
    rw [hcalls.after, Function.update_of_ne hne]
  constructor
  · exact hcalls.sound
  · exact hcalls.ordered h.ordered
  · exact Nat.le_trans hcalls.length h.length
  · rw [hcalls.called, List.nodup_append]
    refine ⟨h.nodup, List.nodup_singleton p, ?_⟩
    rintro x hx y hy rfl
    rw [List.mem_singleton] at hy
    exact hfresh (hy ▸ hx)
  · intro x hx
    rcases (hmem x).mp hx with hx | rfl
    · exact h.called x hx
    · exact ⟨t, hp, hdue⟩
  · intro x hx
    rcases (hmem x).mp hx with hx | rfl
    · have hne : x ≠ p := fun heq => hfresh (heq ▸ hx)
      rw [hafter x hne, h.settled x hx]
    · rw [hcalls.after, Function.update_self, hp, Option.bind_some]
      exact rearm_eq_settle hnow (hforward x t hp) hdue (hsettles x t hp hdue).2
  · intro x hx
    rw [hmem, not_or] at hx
    rw [hafter x hx.2, h.waiting x hx.1]
  · rw [hcalls.called, List.pairwise_append]
    refine ⟨h.inOrder, List.pairwise_singleton _ p, ?_⟩
    intro x hx y hy
    rw [List.mem_singleton] at hy
    rw [hy, hstamp]
    exact h.early x hx p hfresh t hp
  · intro x hx y hy u hu
    rw [hmem, not_or] at hy
    rcases (hmem x).mp hx with hx | rfl
    · exact h.early x hx y hy.1 u hu
    · rw [hstamp]
      exact hcalls.least h.ordered y u ((h.waiting y hy.1).trans hu)

/-- The end of the call. -/
theorem Settling.ends (h : Settling now q s)
    (hends : Ends (fun _ => now) s s') : s'.Exact now q := by
  have hlate : ∀ p t, p ∉ s.called → q.held p = some t → now ≤ t.timestamp :=
    fun p t hp ht => hends.late h.ordered p t ((h.waiting p hp).trans ht)
  have hcalled := hends.called
  have hqueue := hends.queue
  constructor
  · exact hends.ended
  · exact hcalled ▸ h.nodup
  · intro p
    rw [hcalled]
    refine ⟨h.called p, ?_⟩
    rintro ⟨t, ht, hdue⟩
    by_contra hp
    have := hlate p t hp ht
    omega
  · exact hcalled ▸ h.inOrder
  · exact hqueue ▸ h.sound.consistent
  · exact hqueue ▸ h.ordered
  · intro p
    rw [hqueue]
    by_cases hp : p ∈ s.called
    · exact h.settled p hp
    · rw [h.waiting p hp]
      cases ht : q.held p with
      | none => rfl
      | some t =>
          have := hlate p t hp ht
          rw [Option.bind_some, Timer.settle, if_neg (by omega)]

/-- Every state of the call, to its end. -/
theorem settling_runTimers (hnow : -2 ^ 63 ≤ now) (hq : q.Consistent)
    (hsmall : q.heap.length ≤ 2 ^ 31) (hordered : q.Ordered)
    (hforward : Forward q) (hsettles : Settles now q) {n : Nat}
    (hrun : runTimers (fun _ => now) n (start q) = some s) :
    (s.ended = false → Settling now q s) ∧ (s.ended = true → s.Exact now q) := by
  apply invariant_runTimers (I := fun s =>
    (s.ended = false → Settling now q s) ∧ (s.ended = true → s.Exact now q)) _ _
    hrun
  · intro t t' ht hended hiterate
    have hsettling := ht.1 hended
    rcases iterate_cases hsettling.sound hiterate with hends | ⟨p, u, hcalls⟩
    · refine ⟨fun hrunning => ?_, fun _ => hsettling.ends hends⟩
      rw [hends.ended] at hrunning
      cases hrunning
    · refine ⟨fun _ => hsettling.calls hnow hforward hsettles hcalls,
        fun hend => ?_⟩
      rw [hcalls.ended] at hend
      cases hend
  · exact ⟨fun _ => start_settling hq hsmall hordered, fun h => by cases h⟩

theorem runsExactly_of_settles (hnow : -2 ^ 63 ≤ now) (hq : q.Consistent)
    (hsmall : q.heap.length ≤ 2 ^ 31) (hordered : q.Ordered)
    (hforward : Forward q) (hsettles : Settles now q) : RunsExactly now q := by
  have hrun {n : Nat} {s : TimerPass} :=
    @settling_runTimers now q s hnow hq hsmall hordered hforward hsettles n
  have hbehind : StaysBehind (fun _ => now) q := by
    intro n s hs hended
    have hsettling := (hrun hs).1 hended
    refine ⟨fun p hp t => hsettling.called_late hforward hp, ?_⟩
    intro p t ht hdue
    have hwaiting : p ∉ s.called := fun hp =>
      absurd (hsettling.called_late hforward hp ht) (Int.not_le.mpr hdue)
    have hp : q.held p = some t := (hsettling.waiting p hwaiting).symm.trans ht
    exact Nat.lt_of_le_of_lt hsettling.length (hsettles p t hp hdue).1
  obtain ⟨n, s, hs, hended, _⟩ := callsOnce_of_behind hq hsmall hbehind
  exact ⟨n, s, hs, (hrun hs).2 hended⟩

/-- The timestamps that were set are `long`s. -/
theorem called_stored {clock : Nat → Int} (hq : q.Consistent)
    (hsmall : q.heap.length ≤ 2 ^ 31) {n : Nat}
    (hrun : runTimers clock n (start q) = some s) :
    ∀ p ∈ s.called, ∀ t, s.queue.held p = some t → t.timestamp < 2 ^ 63 := by
  have hlast : s.Sound ∧ ∀ p ∈ s.called, ∀ t, s.queue.held p = some t →
      t.timestamp < 2 ^ 63 := by
    apply invariant_runTimers (I := fun s => s.Sound ∧ ∀ p ∈ s.called, ∀ t,
      s.queue.held p = some t → t.timestamp < 2 ^ 63) _ _ hrun
    · intro u u' hu _ hiterate
      refine ⟨(hu.1.iterate hiterate).1, ?_⟩
      rcases iterate_cases hu.1 hiterate with hends | ⟨x, v, hcalls⟩
      · exact hends.queue ▸ hends.called ▸ hu.2
      · intro p hp t ht
        rw [hcalls.after] at ht
        rcases eq_or_ne p x with rfl | hne
        · rw [Function.update_self, Timer.rearm] at ht
          split at ht
          · cases ht
            exact toLong_lt _
          · cases ht
        · rw [Function.update_of_ne hne] at ht
          rw [hcalls.called, List.mem_append, List.mem_singleton] at hp
          exact hu.2 p (hp.resolve_right hne) t ht
    · exact ⟨⟨hq, hsmall⟩, fun p hp => absurd hp List.not_mem_nil⟩
  exact hlast.2

theorem settles_of_runsExactly (hq : q.Consistent)
    (hsmall : q.heap.length ≤ 2 ^ 31) (hordered : q.Ordered)
    (hexact : RunsExactly now q) : Settles now q := by
  obtain ⟨n, s, hrun, hs⟩ := hexact
  intro p t hp hdue
  constructor
  · exact room_of_runTimers ⟨hq, hsmall⟩ hordered hrun rfl hs.ended hp hdue
  · intro hrepeated
    have hcalled : p ∈ s.called := (hs.called p).mpr ⟨t, hp, hdue⟩
    have hheld : s.queue.held p =
        some { t with timestamp := now + t.interval } := by
      rw [hs.held p, hp, Option.bind_some, Timer.settle, if_pos hdue,
        if_pos hrepeated]
    exact called_stored hq hsmall hrun p hcalled _ hheld

/-- At a fixed time `runTimers` calls exactly the timers that are due, each once
and in order, and leaves the others as they are and the repeated ones set anew,
if and only if the heap is not full and no new timestamp overflows. -/
theorem runTimers_exact_iff (now : Int) (hnow : -2 ^ 63 ≤ now) (q : TimerQueue)
    (hq : q.Consistent) (hint : q.IntIndexed) (hordered : q.Ordered)
    (hforward : Forward q) : RunsExactly now q ↔ Settles now q := by
  have hsmall := hq.linked.small hint
  constructor
  · exact settles_of_runsExactly hq hsmall hordered
  · exact runsExactly_of_settles hnow hq hsmall hordered hforward

end TimerPass

theorem oneTimer.held_eq {interval timestamp : Int} {p : Nat} {t : Timer}
    (h : (oneTimer interval timestamp).held p = some t) :
    t = ⟨-12346, interval, timestamp, true, 0⟩ := by
  unfold TimerQueue.held at h
  split at h
  · simp only [oneTimer] at h
    split at h <;> cases h
    rfl
  · cases h

theorem oneTimer.forward {interval timestamp : Int} (h : 0 ≤ interval) :
    TimerPass.Forward (oneTimer interval timestamp) := by
  intro p t hp _
  rw [oneTimer.held_eq hp]
  exact h

namespace TimerPass

theorem runTimers_exact_iff_one : RunsExactly 7 (oneTimer 3 5) := by
  refine (runTimers_exact_iff 7 (by decide) (oneTimer 3 5)
    (oneTimer.consistent 3 5) (oneTimer.intIndexed 3 5) (oneTimer.ordered 3 5)
    (oneTimer.forward (by decide))).mpr ?_
  intro p t hp _
  rw [oneTimer.held_eq hp]
  exact ⟨by decide, by decide⟩

/-- A repeated timer whose interval is the largest `float` below `2 ^ 63`, as it
is created at this time: the sum of both is no `long`, and the timer stays due. -/
theorem runTimers_not_exact :
    let now : Int := 1700000000000
    let interval : Int := 2 ^ 63 - 2 ^ 39
    let q := oneTimer interval (toLong (now + interval))
    q.Consistent ∧ q.IntIndexed ∧ q.Ordered ∧ Forward q ∧
      ¬ RunsExactly now q := by
  intro now interval q
  refine ⟨oneTimer.consistent _ _, oneTimer.intIndexed _ _,
    oneTimer.ordered _ _, oneTimer.forward (by decide), fun hexact => ?_⟩
  have hsettles := settles_of_runsExactly (oneTimer.consistent _ _) (by decide)
    (oneTimer.ordered _ _) hexact
  have hfits := (hsettles 0 _ rfl (by decide)).2 rfl
  exact absurd hfits (by decide)

end TimerPass

end Libsaf
