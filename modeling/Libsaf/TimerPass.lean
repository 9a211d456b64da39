/-
One call of `EventLoop::runTimers`: as long as the first timer of the heap is
due it is popped and called.  The clock is read again for every test, and for
every repeated timer that is set anew.
-/
import Libsaf.TimerQueue

namespace Libsaf

/-- A repeated timer gets a new timestamp, a one-shot timer is deleted. -/
def Timer.rearm (now : Int) (t : Timer) : Option Timer :=
  if t.repeated then some { t with timestamp := toLong (now + t.interval) }
  else none

namespace TimerQueue

/-- `popTimer` to its end, with a callback that does not touch the queue: the
timer that was called, and whether it is repeated. -/
def callTimer (q : TimerQueue) (now : Int) :
    Option (Nat × Bool × TimerQueue) := do
  let (timer, _) ← q.heapPop
  let timer ← timer
  let (ptr, q) ← q.popTimer now
  match ptr with
  | none => some (timer, true, q)
  | some ptr => (q.delete ptr).map fun q => (timer, false, q)

/-- The timers of the heap under their pointers, without the heap index. -/
def held (q : TimerQueue) (p : Nat) : Option Timer :=
  if some p ∈ q.heap then (q.memory p).map Timer.core else none

theorem held_of_mem {q : TimerQueue} {p : Nat} {t : Timer}
    (hp : some p ∈ q.heap) (ht : q.memory p = some t) :
    q.held p = some t.core := by
  rw [held, if_pos hp, ht, Option.map_some]

theorem Linked.slot_of_held {q : TimerQueue} (h : q.Linked) {p : Nat}
    {t : Timer} (hp : q.held p = some t) :
    ∃ i, 1 ≤ i ∧ i < q.heap.length ∧ q.key i = t.timestamp := by
  unfold held at hp
  split at hp
  · next hmem =>
      obtain ⟨i, t', hone, hlt, hi, ht', _⟩ := h.live hmem
      rw [ht', Option.map_some] at hp
      cases hp
      refine ⟨i, hone, hlt, ?_⟩
      simp [key, TimerQueue.slotTimer, hi, ht', Timer.core]
  · cases hp

/-- The first timer of a heap that is not empty. -/
structure Root (q : TimerQueue) (p : Nat) (t : Timer) : Prop where
  slot : q.heap[1]? = some (some p)
  timer : q.memory p = some t

theorem Linked.root {q : TimerQueue} (h : q.Linked) (hlt : 1 < q.heap.length) :
    ∃ p t, q.Root p t := by
  obtain ⟨p, t, hp, ht, _⟩ := h.linked 1 (Nat.le_refl 1) hlt
  exact ⟨p, t, hp, ht⟩

namespace Root

variable {q : TimerQueue} {p : Nat} {t : Timer}

theorem mem (h : q.Root p t) : some p ∈ q.heap := List.mem_of_getElem? h.slot

theorem held (h : q.Root p t) : q.held p = some t.core :=
  held_of_mem h.mem h.timer

theorem lt_length (h : q.Root p t) : 1 < q.heap.length :=
  (List.getElem?_eq_some_iff.mp h.slot).1

theorem checkTimers (h : q.Root p t) (now : Int) :
    q.checkTimers now = some (decide (t.timestamp < now)) := by
  have hfirst : toSize FirstItem = 1 := rfl
  have hlt := h.lt_length
  rw [TimerQueue.checkTimers, if_neg (by omega)]
  simp [timerAt, slotTimer, hfirst, h.slot, h.timer]

/-- In a heap that is in order nothing is due before the first timer. -/
theorem least (h : q.Root p t) (hlinked : q.Linked) (hordered : q.Ordered)
    {x : Nat} {u : Timer} (hx : q.held x = some u) :
    t.timestamp ≤ u.timestamp := by
  obtain ⟨i, hone, hlt, hkey⟩ := hlinked.slot_of_held hx
  have hroot : q.key 1 = t.timestamp := by
    simp [key, slotTimer, h.slot, h.timer]
  rw [← hroot, ← hkey]
  exact HeapOrdered.root_le hordered i hone hlt

end Root

theorem checkTimers_empty {q : TimerQueue} (h : q.heap.length ≤ 1) (now : Int) :
    q.checkTimers now = some false := by
  have hfirst : toSize FirstItem = 1 := rfl
  rw [checkTimers, if_pos (by omega)]

/-- `popTimer` calls the first timer, and changes nothing but what is held
under its pointer. -/
theorem callTimer_spec {q : TimerQueue} (h : q.Consistent)
    (hroom : q.heap.length < 2 ^ 31) {p : Nat} {t : Timer} (hroot : q.Root p t)
    (now : Int) :
    ∃ q', q.callTimer now = some (p, t.repeated, q') ∧ q'.Consistent ∧
      (q.Ordered → q'.Ordered) ∧
      q'.held = Function.update q.held p (t.core.rearm now) ∧
      q'.heap.length ≤ q.heap.length := by
  obtain ⟨popped, _, hpop, _⟩ :=
    heapPop_root h.linked hroom hroot.slot hroot.timer
  cases hrepeated : t.repeated with
  | false =>
      obtain ⟨q₁, hrun, hconsistent, hsifted, horder⟩ :=
        popTimer_once h hroom hroot.slot hroot.timer hrepeated now
      have hout : some p ∉ q₁.heap := h.linked.not_mem hsifted.heap
      obtain ⟨t₁, ht₁, _⟩ : ∃ t₁, q₁.memory p = some t₁ ∧ t₁.core = t.core := by
        simpa [hroot.timer] using hsifted.memory p
      have hframe : ∀ x, some x ∈ q₁.heap →
          Function.update q₁.memory p none x = q₁.memory x := by
        intro x hx
        have hne : x ≠ p := fun heq => hout (heq ▸ hx)
        exact Function.update_of_ne hne ..
      refine ⟨{ q₁ with memory := Function.update q₁.memory p none }, ?_,
        hconsistent.frame rfl rfl hframe,
        fun hq => (horder hq).frame rfl hframe, ?_, ?_⟩
      · simp [callTimer, hpop, hrun, delete, ht₁]
      · funext x
        rcases eq_or_ne x p with rfl | hne
        · rw [Function.update_self, TimerQueue.held, if_neg hout]
          simp [Timer.rearm, Timer.core, hrepeated]
        · have hmem : some x ∈ q₁.heap ↔ some x ∈ q.heap := by
            rw [← hsifted.heap.mem_iff]
            simp [hne]
          have hcore := hsifted.memory x
          simp only [TimerQueue.held, Function.update_of_ne hne, hmem]
          rw [hcore]
      · have hlength := length_cut hsifted.heap
        exact Nat.le_of_lt (by rw [← hlength]; exact Nat.lt_succ_self _)
  | true =>
      obtain ⟨q₁, hrun, hconsistent, hsifted, horder⟩ :=
        popTimer_repeated h hroom hroot.slot hroot.timer hrepeated now
      refine ⟨q₁, ?_, hconsistent, horder, ?_, Nat.le_of_eq hsifted.length⟩
      · simp [callTimer, hpop, hrun]
      · funext x
        have hmem : some x ∈ q₁.heap ↔ some x ∈ q.heap := hsifted.heap.mem_iff
        rcases eq_or_ne x p with rfl | hne
        · rw [Function.update_self, TimerQueue.held, if_pos (hmem.mpr hroot.mem),
            hsifted.memory]
          simp [Timer.rearm, Timer.core, hrepeated]
        · rw [Function.update_of_ne hne, TimerQueue.held, TimerQueue.held,
            hsifted.memory]
          simp [hmem, hne]

/-- `_heapIndex` is an `int`. -/
def IntIndexed (q : TimerQueue) : Prop :=
  ∀ p t, q.memory p = some t → t.heapIndex < 2 ^ 31

/-- Every slot has a number, so there are at most `2 ^ 31`. -/
theorem Linked.small {q : TimerQueue} (h : q.Linked) (hint : q.IntIndexed) :
    q.heap.length ≤ 2 ^ 31 := by
  rcases Nat.lt_or_ge 1 q.heap.length with hlt | hone
  · obtain ⟨p, t, _, ht, hindex⟩ :=
      h.linked (q.heap.length - 1) (by omega) (by omega)
    have hbound := hint p t ht
    omega
  · omega

/-- With `2 ^ 31` slots no timer is called. -/
theorem callTimer_full {q : TimerQueue} (hfull : q.heap.length = 2 ^ 31)
    (now : Int) : q.callTimer now = none := by
  rw [callTimer, heapPop_full hfull]
  rfl

end TimerQueue

/-- A call of `runTimers`: the queue, how often the clock has been read, and the
timers that were called, in this order. -/
structure TimerPass where
  queue : TimerQueue
  reads : Nat
  called : List Nat
  ended : Bool

namespace TimerPass

def start (q : TimerQueue) : TimerPass := ⟨q, 0, [], false⟩

/-- `checkTimers`, and `popTimer` when the first timer is due.  `clock n` is what
the call number `n` of `timestamp` returns; with an empty heap it is not
called. -/
def iterate (clock : Nat → Int) (s : TimerPass) : Option TimerPass :=
  let reads :=
    if s.queue.heap.length ≤ toSize TimerQueue.FirstItem then s.reads
    else s.reads + 1
  (s.queue.checkTimers (clock s.reads)).bind fun due =>
    if due then
      (s.queue.callTimer (clock reads)).map fun (timer, repeated, queue) =>
        { queue := queue
          reads := if repeated then reads + 1 else reads
          called := s.called ++ [timer]
          ended := false }
    else some { s with reads := reads, ended := true }

/-- The loop of `runTimers`, up to so many iterations of it. -/
def runTimers (clock : Nat → Int) : Nat → TimerPass → Option TimerPass
  | 0, s => some s
  | n + 1, s =>
      if s.ended then some s
      else (s.iterate clock).bind (runTimers clock n)

/-- Heap and table agree, and the slots are numbered by an `int`. -/
structure Sound (s : TimerPass) : Prop where
  consistent : s.queue.Consistent
  small : s.queue.heap.length ≤ 2 ^ 31

/-- An iteration that finds no timer due. -/
structure Ends (clock : Nat → Int) (s s' : TimerPass) : Prop where
  queue : s'.queue = s.queue
  called : s'.called = s.called
  ended : s'.ended = true
  late : s.queue.Ordered → ∀ x u, s.queue.held x = some u →
    clock s.reads ≤ u.timestamp

/-- An iteration that calls the timer `p`. -/
structure Calls (clock : Nat → Int) (s s' : TimerPass) (p : Nat) (t : Timer) :
    Prop where
  held : s.queue.held p = some t
  due : t.timestamp < clock s.reads
  room : s.queue.heap.length < 2 ^ 31
  least : s.queue.Ordered → ∀ x u, s.queue.held x = some u →
    t.timestamp ≤ u.timestamp
  called : s'.called = s.called ++ [p]
  ended : s'.ended = false
  reads : s'.reads = s.reads + if t.repeated then 2 else 1
  after : s'.queue.held =
    Function.update s.queue.held p (t.rearm (clock (s.reads + 1)))
  ordered : s.queue.Ordered → s'.queue.Ordered
  sound : s'.Sound
  length : s'.queue.heap.length ≤ s.queue.heap.length

variable {clock : Nat → Int} {s s' : TimerPass}

/-- What an iteration can do. -/
theorem iterate_cases (h : s.Sound) (hiterate : s.iterate clock = some s') :
    Ends clock s s' ∨ ∃ p t, Calls clock s s' p t := by
  have hfirst : toSize TimerQueue.FirstItem = 1 := rfl
  rcases Nat.lt_or_ge 1 s.queue.heap.length with hlt | hempty
  · obtain ⟨p, t, hroot⟩ := h.consistent.linked.root hlt
    rw [iterate, hroot.checkTimers, hfirst, if_neg (Nat.not_le.mpr hlt),
      Option.bind_some] at hiterate
    by_cases hdue : t.timestamp < clock s.reads
    · rw [if_pos (by simpa using hdue)] at hiterate
      have hroom : s.queue.heap.length < 2 ^ 31 := by
        refine Nat.lt_of_le_of_ne h.small fun hfull => ?_
        rw [TimerQueue.callTimer_full hfull] at hiterate
        cases hiterate
      obtain ⟨q, hcall, hconsistent, hordered, hafter, hlength⟩ :=
        TimerQueue.callTimer_spec h.consistent hroom hroot (clock (s.reads + 1))
      rw [hcall] at hiterate
      cases hiterate
      refine Or.inr ⟨p, t.core, hroot.held, hdue, hroom,
        fun hq x u hx => hroot.least h.consistent.linked hq hx, rfl, rfl, ?_,
        hafter, hordered, ⟨hconsistent, Nat.le_trans hlength h.small⟩, hlength⟩
      cases hrepeated : t.repeated <;> simp [Timer.core, hrepeated]
    · rw [if_neg (by simpa using hdue)] at hiterate
      cases hiterate
      refine Or.inl ⟨rfl, rfl, rfl, fun hq x u hx => ?_⟩
      have hleast := hroot.least h.consistent.linked hq hx
      omega
  · rw [iterate, TimerQueue.checkTimers_empty hempty, Option.bind_some,
      if_neg (by decide)] at hiterate
    cases hiterate
    refine Or.inl ⟨rfl, rfl, rfl, fun hq x u hx => ?_⟩
    obtain ⟨i, hone, hlt, _⟩ := h.consistent.linked.slot_of_held hx
    omega

/-- Only a full heap stops an iteration. -/
theorem iterate_progress (h : s.Sound)
    (hroom : ∀ p t, s.queue.held p = some t → t.timestamp < clock s.reads →
      s.queue.heap.length < 2 ^ 31) :
    ∃ s', s.iterate clock = some s' := by
  have hfirst : toSize TimerQueue.FirstItem = 1 := rfl
  rcases Nat.lt_or_ge 1 s.queue.heap.length with hlt | hempty
  · obtain ⟨p, t, hroot⟩ := h.consistent.linked.root hlt
    rw [iterate, hroot.checkTimers, hfirst, if_neg (Nat.not_le.mpr hlt),
      Option.bind_some]
    by_cases hdue : t.timestamp < clock s.reads
    · obtain ⟨q, hcall, _⟩ := TimerQueue.callTimer_spec h.consistent
        (hroom p t.core hroot.held hdue) hroot (clock (s.reads + 1))
      rw [if_pos (by simpa using hdue), hcall]
      exact ⟨_, rfl⟩
    · rw [if_neg (by simpa using hdue)]
      exact ⟨_, rfl⟩
  · rw [iterate, TimerQueue.checkTimers_empty hempty, Option.bind_some,
      if_neg (by decide)]
    exact ⟨_, rfl⟩

theorem runTimers_of_ended (clock : Nat → Int) (n : Nat) (h : s.ended = true) :
    runTimers clock n s = some s := by
  cases n with
  | zero => rfl
  | succ n => rw [runTimers, if_pos h]

theorem runTimers_add (clock : Nat → Int) (n k : Nat) (s : TimerPass) :
    runTimers clock (n + k) s =
      (runTimers clock n s).bind (runTimers clock k) := by
  induction n generalizing s with
  | zero => rw [Nat.zero_add, runTimers, Option.bind_some]
  | succ n ih =>
      rw [Nat.add_right_comm, runTimers, runTimers]
      by_cases hended : s.ended = true
      · rw [if_pos hended, if_pos hended, Option.bind_some,
          runTimers_of_ended clock k hended]
      · rw [if_neg hended, if_neg hended, Option.bind_assoc]
        exact congrArg _ (funext ih)

/-- One iteration more. -/
theorem runTimers_succ {n : Nat} {t : TimerPass}
    (hrun : runTimers clock n s = some t) (hended : t.ended = false) :
    runTimers clock (n + 1) s = t.iterate clock := by
  rw [runTimers_add, hrun, Option.bind_some, runTimers, if_neg (by simp [hended])]
  cases t.iterate clock <;> rfl

/-- What every iteration keeps, the loop keeps. -/
theorem invariant_runTimers {I : TimerPass → Prop}
    (hstep : ∀ s s', I s → s.ended = false → s.iterate clock = some s' → I s')
    {n : Nat} (hs : I s) (hrun : runTimers clock n s = some s') : I s' := by
  induction n generalizing s with
  | zero =>
      obtain rfl := Option.some.inj hrun
      exact hs
  | succ n ih =>
      rw [runTimers] at hrun
      split at hrun
      · obtain rfl := Option.some.inj hrun
        exact hs
      · next hended =>
          obtain ⟨t, hiterate, hrest⟩ := Option.bind_eq_some_iff.mp hrun
          exact ih (hstep s t hs (by simpa using hended) hiterate) hrest

/-- Once a call has not ended after so many iterations, it has called so many
timers. -/
structure Unrepeated (q : TimerQueue) (s : TimerPass) : Prop where
  sound : s.Sound
  nodup : s.called.Nodup
  called : ∀ p ∈ s.called, some p ∈ q.heap
  held : ∀ p t, s.queue.held p = some t → some p ∈ q.heap

/-- No timer that was called is due at the test, and a heap with a due timer is
not full. -/
def Behind (clock : Nat → Int) (s : TimerPass) : Prop :=
  (∀ p ∈ s.called, ∀ t, s.queue.held p = some t →
    clock s.reads ≤ t.timestamp) ∧
  ∀ p t, s.queue.held p = some t → t.timestamp < clock s.reads →
    s.queue.heap.length < 2 ^ 31

/-- At every test of the loop. -/
def StaysBehind (clock : Nat → Int) (q : TimerQueue) : Prop :=
  ∀ n s, runTimers clock n (start q) = some s → s.ended = false →
    s.Behind clock

theorem mem_heap_of_held {q : TimerQueue} {p : Nat} {t : Timer}
    (h : q.held p = some t) : some p ∈ q.heap := by
  unfold TimerQueue.held at h
  split at h
  · assumption
  · cases h

/-- What is held after a call was held before. -/
theorem Calls.held_before {p : Nat} {t : Timer} (h : Calls clock s s' p t)
    {x : Nat} {u : Timer} (hx : s'.queue.held x = some u) :
    ∃ u', s.queue.held x = some u' := by
  rw [h.after] at hx
  rcases eq_or_ne x p with rfl | hne
  · exact ⟨t, h.held⟩
  · rw [Function.update_of_ne hne] at hx
    exact ⟨u, hx⟩

theorem Sound.iterate (h : s.Sound) (hiterate : s.iterate clock = some s') :
    s'.Sound ∧ (s.queue.Ordered → s'.queue.Ordered) := by
  rcases iterate_cases h hiterate with hends | ⟨p, t, hcalls⟩
  · exact ⟨⟨hends.queue ▸ h.consistent, hends.queue ▸ h.small⟩,
      fun hq => hends.queue ▸ hq⟩
  · exact ⟨hcalls.sound, hcalls.ordered⟩

/-- A timer that is called then was not called before. -/
theorem Behind.fresh (h : s.Behind clock) {p : Nat} {t : Timer}
    (hcalls : Calls clock s s' p t) : p ∉ s.called := by
  intro hp
  have hlate := h.1 p hp t hcalls.held
  have hdue := hcalls.due
  omega

theorem Unrepeated.iterate {q : TimerQueue} (h : Unrepeated q s)
    (hbehind : s.Behind clock) (hiterate : s.iterate clock = some s') :
    Unrepeated q s' := by
  rcases iterate_cases h.sound hiterate with hends | ⟨p, t, hcalls⟩
  · exact ⟨(h.sound.iterate hiterate).1, hends.called ▸ h.nodup,
      hends.called ▸ h.called, hends.queue ▸ h.held⟩
  · have hfresh : p ∉ s.called := hbehind.fresh hcalls
    refine ⟨hcalls.sound, ?_, ?_, ?_⟩
    · rw [hcalls.called, List.nodup_append]
      refine ⟨h.nodup, List.nodup_singleton p, ?_⟩
      rintro x hx y hy rfl
      rw [List.mem_singleton] at hy
      exact hfresh (hy ▸ hx)
    · intro x hx
      rw [hcalls.called, List.mem_append, List.mem_singleton] at hx
      rcases hx with hx | rfl
      · exact h.called x hx
      · exact h.held x t hcalls.held
    · intro x u hx
      obtain ⟨u', hx'⟩ := hcalls.held_before hx
      exact h.held x u' hx'

/-- The call has ended when there are fewer timers than iterations. -/
theorem Unrepeated.length_called {q : TimerQueue} (h : Unrepeated q s) :
    s.called.length ≤ q.heap.length := by
  have hmap : (s.called.map some).Nodup :=
    h.nodup.map (Option.some_injective Nat)
  have hsub : s.called.map some ⊆ q.heap := by
    intro x hx
    obtain ⟨p, hp, rfl⟩ := List.mem_map.mp hx
    exact h.called p hp
  simpa using (List.subperm_of_subset hmap hsub).length_le

/-- A call of `runTimers` ends, and calls timers that were live at its start, each
at most once. -/
def CallsOnce (clock : Nat → Int) (q : TimerQueue) : Prop :=
  ∃ n s, runTimers clock n (start q) = some s ∧ s.ended = true ∧
    s.called.Nodup ∧ ∀ p ∈ s.called, some p ∈ q.heap

theorem start_unrepeated {q : TimerQueue} (h : q.Consistent)
    (hsmall : q.heap.length ≤ 2 ^ 31) : Unrepeated q (start q) where
  sound := ⟨h, hsmall⟩
  nodup := List.nodup_nil
  called _ hp := absurd hp List.not_mem_nil
  held _ _ := mem_heap_of_held

/-- As long as no called timer is due again, every iteration ends the call or
calls another timer. -/
theorem unrepeated_runTimers {q : TimerQueue} (hq : q.Consistent)
    (hsmall : q.heap.length ≤ 2 ^ 31)
    (hbehind : StaysBehind clock q) (n : Nat) :
    ∃ s, runTimers clock n (start q) = some s ∧ Unrepeated q s ∧
      (s.ended = true ∨ s.called.length = n) := by
  induction n with
  | zero => exact ⟨start q, rfl, start_unrepeated hq hsmall, Or.inr rfl⟩
  | succ n ih =>
      obtain ⟨s, hrun, hs, hlength⟩ := ih
      cases hended : s.ended with
      | true =>
          refine ⟨s, ?_, hs, Or.inl hended⟩
          rw [runTimers_add, hrun, Option.bind_some,
            runTimers_of_ended clock 1 hended]
      | false =>
          have hlate := hbehind n s hrun hended
          obtain ⟨s', hiterate⟩ := iterate_progress hs.sound hlate.2
          refine ⟨s', (runTimers_succ hrun hended).trans hiterate,
            hs.iterate hlate hiterate, ?_⟩
          rcases iterate_cases hs.sound hiterate with hends | ⟨p, t, hcalls⟩
          · exact Or.inl hends.ended
          · rw [hended] at hlength
            refine Or.inr ?_
            rw [hcalls.called, List.length_append, List.length_singleton,
              hlength.resolve_left (by decide)]

/-- A timer was called twice, or one that was called is due again. -/
def Doomed (clock : Nat → Int) (s : TimerPass) : Prop :=
  ¬ s.called.Nodup ∨ s.ended = false ∧ ∃ p ∈ s.called, ∃ t,
    s.queue.held p = some t ∧ t.timestamp < clock s.reads

/-- A clock that does not go back. -/
def Steady (clock : Nat → Int) : Prop :=
  ∀ n m, n ≤ m → clock n ≤ clock m

/-- On a clock that does not go back a timer that is due stays so until it is
called, and the call does not end before. -/
theorem Doomed.iterate (hclock : Steady clock) (h : s.Sound)
    (hordered : s.queue.Ordered) (hdoomed : s.Doomed clock)
    (hiterate : s.iterate clock = some s') : s'.Doomed clock := by
  rcases iterate_cases h hiterate with hends | ⟨p, t, hcalls⟩
  · rcases hdoomed with htwice | ⟨_, x, _, u, hx, hdue⟩
    · exact Or.inl (hends.called ▸ htwice)
    · have hlate := hends.late hordered x u hx
      omega
  · rcases hdoomed with htwice | ⟨_, x, hmem, u, hx, hdue⟩
    · refine Or.inl fun hnodup => htwice ?_
      rw [hcalls.called] at hnodup
      exact (List.nodup_append.mp hnodup).1
    · rcases eq_or_ne x p with rfl | hne
      · refine Or.inl fun hnodup => ?_
        rw [hcalls.called, List.nodup_append] at hnodup
        exact hnodup.2.2 x hmem x (List.mem_singleton_self x) rfl
      · refine Or.inr ⟨hcalls.ended, x, ?_, u, ?_, ?_⟩
        · rw [hcalls.called]
          exact List.mem_append_left _ hmem
        · rw [hcalls.after, Function.update_of_ne hne, hx]
        · refine Int.lt_of_lt_of_le hdue (hclock _ _ ?_)
          rw [hcalls.reads]
          exact Nat.le_add_right _ _

/-- The states of a call from a heap in order are in order. -/
theorem sound_runTimers {q : TimerQueue} (hq : q.Consistent)
    (hsmall : q.heap.length ≤ 2 ^ 31) {n : Nat}
    (hrun : runTimers clock n (start q) = some s) :
    s.Sound ∧ (q.Ordered → s.queue.Ordered) := by
  apply invariant_runTimers
    (I := fun t => t.Sound ∧ (q.Ordered → t.queue.Ordered)) _ _ hrun
  · intro t t' ht _ hiterate
    obtain ⟨hsound, hordered⟩ := ht.1.iterate hiterate
    exact ⟨hsound, fun h => hordered (ht.2 h)⟩
  · exact ⟨⟨hq, hsmall⟩, id⟩

/-- What a call comes to from one of its states. -/
theorem runTimers_rest {q : TimerQueue} {n k : Nat} {t : TimerPass}
    (hrun : runTimers clock n (start q) = some s)
    (hend : runTimers clock k (start q) = some t) (hended : t.ended = true) :
    runTimers clock k s = some t := by
  have hboth := runTimers_add clock n k (start q)
  rw [Nat.add_comm, runTimers_add, hend, hrun, Option.bind_some, Option.bind_some,
    runTimers_of_ended clock n hended] at hboth
  exact hboth.symm

theorem not_callsOnce_of_doomed (hclock : Steady clock) {q : TimerQueue}
    (hq : q.Consistent) (hsmall : q.heap.length ≤ 2 ^ 31) (hordered : q.Ordered)
    {n : Nat} (hrun : runTimers clock n (start q) = some s)
    (hdoomed : s.Doomed clock) : ¬ CallsOnce clock q := by
  rintro ⟨k, t, hend, hended, hnodup, _⟩
  obtain ⟨hsound, hs⟩ := sound_runTimers hq hsmall hrun
  have hlast : t.Sound ∧ t.queue.Ordered ∧ t.Doomed clock := by
    apply invariant_runTimers
      (I := fun t => t.Sound ∧ t.queue.Ordered ∧ t.Doomed clock) _ _
      (runTimers_rest hrun hend hended)
    · intro u u' hu _ hiterate
      obtain ⟨hsound', hordered'⟩ := hu.1.iterate hiterate
      exact ⟨hsound', hordered' hu.2.1,
        hu.2.2.iterate hclock hu.1 hu.2.1 hiterate⟩
    · exact ⟨hsound, hs hordered, hdoomed⟩
  rcases hlast.2.2 with htwice | ⟨hrunning, _⟩
  · exact htwice hnodup
  · rw [hended] at hrunning
    cases hrunning

/-- A call that ends did not find a timer due in a full heap. -/
theorem room_of_runTimers (h : s.Sound) (hordered : s.queue.Ordered) {k : Nat}
    {t : TimerPass} (hrun : runTimers clock k s = some t)
    (hrunning : s.ended = false) (hended : t.ended = true) {p : Nat} {u : Timer}
    (hp : s.queue.held p = some u) (hdue : u.timestamp < clock s.reads) :
    s.queue.heap.length < 2 ^ 31 := by
  cases k with
  | zero =>
      obtain rfl := Option.some.inj hrun
      rw [hrunning] at hended
      cases hended
  | succ k =>
      rw [runTimers, if_neg (by simp [hrunning])] at hrun
      obtain ⟨s', hiterate, _⟩ := Option.bind_eq_some_iff.mp hrun
      rcases iterate_cases h hiterate with hends | ⟨x, v, hcalls⟩
      · have hlate := hends.late hordered p u hp
        omega
      · exact hcalls.room

/-- A call that stays behind ends, and calls every timer at most once. -/
theorem callsOnce_of_behind {q : TimerQueue} (hq : q.Consistent)
    (hsmall : q.heap.length ≤ 2 ^ 31) (hbehind : StaysBehind clock q) :
    CallsOnce clock q := by
  obtain ⟨s, hrun, hs, hlength⟩ :=
    unrepeated_runTimers hq hsmall hbehind (q.heap.length + 1)
  refine ⟨_, s, hrun, hlength.resolve_right fun heq => ?_, hs.nodup, hs.called⟩
  have hle := hs.length_called
  omega

/-- While the clock is read twice for every timer, it advances by no more than
the interval of a repeated one. -/
structure Quick (clock : Nat → Int) (q : TimerQueue) : Prop where
  long : ∀ n, -2 ^ 63 ≤ clock n
  room : q.heap.length < 2 ^ 31
  advance : ∀ p t, q.held p = some t → t.repeated = true →
    ∀ n m, n ≤ 2 * q.heap.length → m ≤ 2 * q.heap.length →
      clock m ≤ clock n + t.interval ∧ clock n + t.interval < 2 ^ 63

/-- A call under way: the timers that were called are set anew by one of the
readings, the others are as they were. -/
structure Rearming (clock : Nat → Int) (q : TimerQueue) (s : TimerPass) :
    Prop where
  unrepeated : Unrepeated q s
  length : s.queue.heap.length ≤ q.heap.length
  reads : s.reads ≤ 2 * s.called.length
  waiting : ∀ p, p ∉ s.called → s.queue.held p = q.held p
  rearmed : ∀ p ∈ s.called, ∀ u, s.queue.held p = some u →
    ∃ t n, q.held p = some t ∧ t.repeated = true ∧
      n ≤ 2 * q.heap.length ∧ u.timestamp = toLong (clock n + t.interval)

namespace Rearming

variable {q : TimerQueue}

theorem behind (h : Rearming clock q s) (hquick : Quick clock q) :
    s.Behind clock := by
  refine ⟨fun p hp u hu => ?_, fun _ _ _ _ => ?_⟩
  · obtain ⟨t, n, ht, hrepeated, hn, hstamp⟩ := h.rearmed p hp u hu
    have hreads : s.reads ≤ 2 * q.heap.length := by
      have hcalled := h.unrepeated.length_called
      have := h.reads
      omega
    obtain ⟨hadvance, hfits⟩ := hquick.advance p t ht hrepeated n _ hn hreads
    have hlow := Int.le_trans (hquick.long s.reads) hadvance
    rw [hstamp, toLong_eq hlow hfits]
    exact hadvance
  · exact Nat.lt_of_le_of_lt h.length hquick.room

theorem calls (h : Rearming clock q s) (hbehind : s.Behind clock)
    (hiterate : s.iterate clock = some s') {p : Nat} {t : Timer}
    (hcalls : Calls clock s s' p t) : Rearming clock q s' := by
  have hunrepeated := h.unrepeated.iterate hbehind hiterate
  have hfresh := hbehind.fresh hcalls
  have hlength : s'.called.length = s.called.length + 1 := by
    rw [hcalls.called, List.length_append, List.length_singleton]
  have hreads := h.reads
  have hmem : ∀ x, x ∈ s'.called ↔ x ∈ s.called ∨ x = p := by
    intro x
    rw [hcalls.called, List.mem_append, List.mem_singleton]
  refine ⟨hunrepeated, Nat.le_trans hcalls.length h.length, ?_, ?_, ?_⟩
  · have hmore := hcalls.reads
    split at hmore <;> omega
  · intro x hx
    rw [hmem, not_or] at hx
    rw [hcalls.after, Function.update_of_ne hx.2, h.waiting x hx.1]
  · intro x hx u hu
    rw [hcalls.after] at hu
    rcases eq_or_ne x p with rfl | hne
    · rw [Function.update_self, Timer.rearm] at hu
      split at hu
      · next hrepeated =>
          cases hu
          have hold := (h.waiting x hfresh).symm.trans hcalls.held
          refine ⟨t, s.reads + 1, hold, hrepeated, ?_, rfl⟩
          have hcalled := hunrepeated.length_called
          omega
      · cases hu
    · rw [Function.update_of_ne hne] at hu
      exact h.rearmed x (((hmem x).mp hx).resolve_right hne) u hu

end Rearming

/-- On such a clock no timer that was called is due again. -/
theorem staysBehind_of_quick {q : TimerQueue} (hq : q.Consistent)
    (hquick : Quick clock q) : StaysBehind clock q := by
  intro n s hrun hended
  have hrearming : s.ended = false → Rearming clock q s := by
    apply invariant_runTimers
      (I := fun s => s.ended = false → Rearming clock q s) _ _ hrun
    · intro t t' ht hrunning hiterate hrunning'
      have h := ht hrunning
      rcases iterate_cases h.unrepeated.sound hiterate with
        hends | ⟨p, u, hcalls⟩
      · rw [hends.ended] at hrunning'
        cases hrunning'
      · exact h.calls (h.behind hquick) hiterate hcalls
    · intro _
      exact ⟨start_unrepeated hq (Nat.le_of_lt hquick.room), Nat.le_refl _,
        Nat.le_refl _, fun _ _ => rfl,
        fun _ hp => absurd hp List.not_mem_nil⟩
  exact (hrearming hended).behind hquick

/-- A call that is over before the shortest interval has passed calls every
timer at most once. -/
theorem callsOnce_of_quick {q : TimerQueue} (hq : q.Consistent)
    (hquick : Quick clock q) : CallsOnce clock q :=
  callsOnce_of_behind hq (Nat.le_of_lt hquick.room)
    (staysBehind_of_quick hq hquick)

/-- From a heap in order, a call that calls every timer at most once has stayed
behind. -/
theorem staysBehind_of_callsOnce (hclock : Steady clock) {q : TimerQueue}
    (hq : q.Consistent) (hsmall : q.heap.length ≤ 2 ^ 31) (hordered : q.Ordered)
    (honce : CallsOnce clock q) : StaysBehind clock q := by
  intro n s hrun hended
  obtain ⟨hsound, hs⟩ := sound_runTimers hq hsmall hrun
  constructor
  · intro p hp t ht
    by_contra hdue
    exact not_callsOnce_of_doomed hclock hq hsmall hordered hrun
      (Or.inr ⟨hended, p, hp, t, ht, Int.not_le.mp hdue⟩) honce
  · intro p t ht hdue
    obtain ⟨k, u, hend, hlast, _⟩ := honce
    exact room_of_runTimers hsound (hs hordered)
      (runTimers_rest hrun hend hlast) hended hlast ht hdue

/-- The live timers with their pointers, in the order of their timestamps, which
differ. -/
structure InOrder (q : TimerQueue) (timers : List (Nat × Timer)) : Prop where
  held : ∀ e, e ∈ timers ↔ q.held e.1 = some e.2
  sorted : timers.Pairwise fun d e => d.2.timestamp < e.2.timestamp

/-- The number of the reading for a test: each timer before it took one, and a
repeated one another. -/
def testRead (timers : List (Nat × Timer)) (k : Nat) : Nat :=
  k + (timers.take k).countP fun e => e.2.repeated

/-- The timers before this place are due when their turn comes. -/
def Reached (clock : Nat → Int) (timers : List (Nat × Timer)) (k : Nat) :
    Prop :=
  ∀ i < k, ∀ e, timers[i]? = some e →
    e.2.timestamp < clock (testRead timers i)

/-- At a test that is reached the clock has advanced by no more than the
interval of each repeated timer since that timer was set anew, and the heap is
not full where a timer is due. -/
structure InTime (clock : Nat → Int) (slots : Nat)
    (timers : List (Nat × Timer)) : Prop where
  room : ∀ e ∈ timers, e.2.timestamp < clock 0 → slots < 2 ^ 31
  advance : ∀ k ≤ timers.length, Reached clock timers k → ∀ i < k, ∀ e,
    timers[i]? = some e → e.2.repeated = true →
      clock (testRead timers k) ≤
        toLong (clock (testRead timers i + 1) + e.2.interval)

theorem testRead_succ {timers : List (Nat × Timer)} {k : Nat}
    {e : Nat × Timer} (he : timers[k]? = some e) :
    testRead timers (k + 1) =
      testRead timers k + if e.2.repeated then 2 else 1 := by
  have htake : timers.take (k + 1) = timers.take k ++ [e] := by
    rw [List.take_add_one, he, Option.toList_some]
  rw [testRead, testRead, htake, List.countP_append, List.countP_singleton]
  split <;> omega

/-- A call that has called so many timers, in order, and no other. -/
structure Along (clock : Nat → Int) (q : TimerQueue)
    (timers : List (Nat × Timer)) (k : Nat) (s : TimerPass) : Prop where
  sound : s.Sound
  ordered : s.queue.Ordered
  length : s.queue.heap.length ≤ q.heap.length
  called : s.called = (timers.take k).map Prod.fst
  reads : s.reads = testRead timers k
  bound : k ≤ timers.length
  reached : Reached clock timers k
  waiting : ∀ p, p ∉ s.called → s.queue.held p = q.held p
  rearmed : ∀ i < k, ∀ e, timers[i]? = some e →
    s.queue.held e.1 = e.2.rearm (clock (testRead timers i + 1))

namespace Along

variable {q : TimerQueue} {timers : List (Nat × Timer)} {k : Nat}

theorem start (hq : q.Consistent) (hsmall : q.heap.length ≤ 2 ^ 31)
    (hordered : q.Ordered) : Along clock q timers 0 (start q) where
  sound := ⟨hq, hsmall⟩
  ordered := hordered
  length := Nat.le_refl _
  called := rfl
  reads := rfl
  bound := Nat.zero_le _
  reached _ hi := absurd hi (Nat.not_lt_zero _)
  waiting _ _ := rfl
  rearmed _ hi := absurd hi (Nat.not_lt_zero _)

/-- Timers are told apart by their pointers. -/
theorem pointer_inj (hin : InOrder q timers) {i j : Nat} {d e : Nat × Timer}
    (hd : timers[i]? = some d) (he : timers[j]? = some e) (h : d.1 = e.1) :
    i = j := by
  have hsame : d = e := by
    have hheld := (hin.held d).mp (List.mem_of_getElem? hd)
    rw [h, (hin.held e).mp (List.mem_of_getElem? he)] at hheld
    exact Prod.ext h (Option.some.inj hheld).symm
  subst hsame
  by_contra hne
  have hlt : d.2.timestamp < d.2.timestamp := by
    obtain ⟨hi, hdi⟩ := List.getElem?_eq_some_iff.mp hd
    obtain ⟨hj, hdj⟩ := List.getElem?_eq_some_iff.mp he
    rcases Nat.lt_or_gt_of_ne hne with hij | hij
    · simpa [hdi, hdj] using List.pairwise_iff_getElem.mp hin.sorted i j hi hj hij
    · simpa [hdi, hdj] using List.pairwise_iff_getElem.mp hin.sorted j i hj hi hij
  exact absurd hlt (lt_irrefl _)

theorem mem_called (h : Along clock q timers k s) {p : Nat} :
    p ∈ s.called ↔ ∃ i < k, ∃ e, timers[i]? = some e ∧ e.1 = p := by
  rw [h.called, List.mem_map]
  constructor
  · rintro ⟨e, he, rfl⟩
    obtain ⟨i, hi, rfl⟩ := List.mem_take_iff_getElem.mp he
    exact ⟨i, by omega, _, List.getElem?_eq_getElem (by omega), rfl⟩
  · rintro ⟨i, hi, e, he, rfl⟩
    obtain ⟨hlt, rfl⟩ := List.getElem?_eq_some_iff.mp he
    exact ⟨_, List.mem_take_iff_getElem.mpr ⟨i, by omega, rfl⟩, rfl⟩

/-- No called timer is due where the clock has not advanced too far. -/
theorem behind (h : Along clock q timers k s) (hin : InOrder q timers)
    (htime : InTime clock q.heap.length timers) : s.Behind clock := by
  constructor
  · intro p hp u hu
    obtain ⟨i, hi, e, he, rfl⟩ := h.mem_called.mp hp
    rw [h.rearmed i hi e he, Timer.rearm] at hu
    split at hu
    · next hrepeated =>
        obtain rfl := Option.some.inj hu
        rw [h.reads]
        exact htime.advance k h.bound h.reached i hi e he hrepeated
    · cases hu
  · intro p u hu hdue
    refine Nat.lt_of_le_of_lt h.length ?_
    cases k with
    | zero =>
        have hcalled : p ∉ s.called := by simp [h.called]
        rw [h.waiting p hcalled] at hu
        rw [h.reads] at hdue
        exact htime.room (p, u) ((hin.held _).mpr hu) hdue
    | succ k =>
        have hlt : 0 < timers.length := Nat.lt_of_lt_of_le (Nat.succ_pos k) h.bound
        have hfirst := List.getElem?_eq_getElem hlt
        exact htime.room _ (List.mem_of_getElem? hfirst)
          (h.reached 0 (Nat.succ_pos k) _ hfirst)

/-- The timer that is called next is the next in order. -/
theorem next (h : Along clock q timers k s) (hin : InOrder q timers)
    (hbehind : s.Behind clock) {p : Nat} {t : Timer}
    (hcalls : Calls clock s s' p t) : timers[k]? = some (p, t) := by
  have hfresh := hbehind.fresh hcalls
  have hmem : (p, t) ∈ timers :=
    (hin.held (p, t)).mpr ((h.waiting p hfresh).symm.trans hcalls.held)
  obtain ⟨j, hj⟩ := List.mem_iff_getElem?.mp hmem
  obtain ⟨hlt, hjt⟩ := List.getElem?_eq_some_iff.mp hj
  have hge : k ≤ j := by
    by_contra hjk
    exact hfresh (h.mem_called.mpr ⟨j, Nat.not_le.mp hjk, _, hj, rfl⟩)
  rcases Nat.eq_or_lt_of_le hge with rfl | hkj
  · exact hj
  -- an earlier timer is still in the heap, and the first one is not later
  have hk : timers[k]? = some timers[k] := List.getElem?_eq_getElem (by omega)
  have hwaits : timers[k].1 ∉ s.called := by
    intro hcalled
    obtain ⟨i, hi, e, he, heq⟩ := h.mem_called.mp hcalled
    exact absurd (pointer_inj hin he hk heq) (Nat.ne_of_lt hi)
  have hheld : s.queue.held timers[k].1 = some timers[k].2 := by
    rw [h.waiting _ hwaits]
    exact (hin.held _).mp (List.mem_of_getElem? hk)
  have hle := hcalls.least h.ordered _ _ hheld
  have hsorted := List.pairwise_iff_getElem.mp hin.sorted k j (by omega) hlt hkj
  rw [hjt] at hsorted
  exact absurd hsorted (Int.not_lt.mpr hle)

theorem step (h : Along clock q timers k s) (hin : InOrder q timers)
    (hbehind : s.Behind clock) {p : Nat} {t : Timer}
    (hcalls : Calls clock s s' p t) : Along clock q timers (k + 1) s' := by
  have hnext := h.next hin hbehind hcalls
  have hlt := (List.getElem?_eq_some_iff.mp hnext).1
  refine ⟨hcalls.sound, hcalls.ordered h.ordered,
    Nat.le_trans hcalls.length h.length, ?_, ?_, hlt, fun i hi e he => ?_,
    fun x hx => ?_, fun i hi e he => ?_⟩
  · rw [hcalls.called, h.called, List.take_add_one, hnext]
    simp
  · rw [hcalls.reads, h.reads, testRead_succ hnext]
  · rcases Nat.lt_succ_iff_lt_or_eq.mp hi with hik | rfl
    · exact h.reached i hik e he
    · obtain rfl := Option.some.inj (hnext.symm.trans he)
      exact h.reads ▸ hcalls.due
  · rw [hcalls.called, List.mem_append, List.mem_singleton, not_or] at hx
    rw [hcalls.after, Function.update_of_ne hx.2, h.waiting x hx.1]
  · rw [hcalls.after]
    rcases Nat.lt_succ_iff_lt_or_eq.mp hi with hik | rfl
    · have hne : e.1 ≠ p := fun heq =>
        absurd (pointer_inj hin he hnext heq) (Nat.ne_of_lt hik)
      rw [Function.update_of_ne hne]
      exact h.rearmed i hik e he
    · obtain rfl := Option.some.inj (hnext.symm.trans he)
      rw [Function.update_self, h.reads]

end Along

/-- Where the clock does not advance too far the call goes along the timers. -/
theorem staysBehind_of_inTime {q : TimerQueue} (hq : q.Consistent)
    (hsmall : q.heap.length ≤ 2 ^ 31) (hordered : q.Ordered)
    {timers : List (Nat × Timer)} (hin : InOrder q timers)
    (htime : InTime clock q.heap.length timers) : StaysBehind clock q := by
  intro n s hrun hended
  have halong : s.ended = false → ∃ k, Along clock q timers k s := by
    apply invariant_runTimers
      (I := fun s => s.ended = false → ∃ k, Along clock q timers k s) _ _ hrun
    · intro t t' ht hrunning hiterate hrunning'
      obtain ⟨k, h⟩ := ht hrunning
      rcases iterate_cases h.sound hiterate with hends | ⟨p, u, hcalls⟩
      · rw [hends.ended] at hrunning'
        cases hrunning'
      · exact ⟨k + 1, h.step hin (h.behind hin htime) hcalls⟩
    · exact fun _ => ⟨0, Along.start hq hsmall hordered⟩
  obtain ⟨k, h⟩ := halong hended
  exact h.behind hin htime

/-- A call that stays behind comes to every test that is reached. -/
theorem along_of_reached {q : TimerQueue} (hq : q.Consistent)
    (hsmall : q.heap.length ≤ 2 ^ 31) (hordered : q.Ordered)
    {timers : List (Nat × Timer)} (hin : InOrder q timers)
    (hbehind : StaysBehind clock q) {k : Nat} (hk : k ≤ timers.length)
    (hreached : Reached clock timers k) :
    ∃ s, runTimers clock k (start q) = some s ∧ s.ended = false ∧
      Along clock q timers k s := by
  induction k with
  | zero => exact ⟨start q, rfl, rfl, Along.start hq hsmall hordered⟩
  | succ k ih =>
      obtain ⟨s, hrun, hended, h⟩ := ih (Nat.le_of_succ_le hk)
        fun i hi => hreached i (Nat.lt_succ_of_lt hi)
      have hlate := hbehind k s hrun hended
      obtain ⟨s', hiterate⟩ := iterate_progress h.sound hlate.2
      have hrun' := (runTimers_succ hrun hended).trans hiterate
      rcases iterate_cases h.sound hiterate with hends | ⟨p, t, hcalls⟩
      · -- the timer at this place is due, so the call does not end here
        have hlast : timers[k]? = some timers[k] :=
          List.getElem?_eq_getElem hk
        have hwaits : timers[k].1 ∉ s.called := by
          intro hcalled
          obtain ⟨i, hi, e, he, heq⟩ := h.mem_called.mp hcalled
          exact absurd (Along.pointer_inj hin he hlast heq) (Nat.ne_of_lt hi)
        have hheld : s.queue.held timers[k].1 = some timers[k].2 := by
          rw [h.waiting _ hwaits]
          exact (hin.held _).mp (List.mem_of_getElem? hlast)
        have hdue := hreached k (Nat.lt_succ_self k) _ hlast
        have hend := hends.late h.ordered _ _ hheld
        rw [h.reads] at hend
        omega
      · exact ⟨s', hrun', hcalls.ended, h.step hin hlate hcalls⟩

theorem inTime_of_staysBehind {q : TimerQueue} (hq : q.Consistent)
    (hsmall : q.heap.length ≤ 2 ^ 31) (hordered : q.Ordered)
    {timers : List (Nat × Timer)} (hin : InOrder q timers)
    (hbehind : StaysBehind clock q) :
    InTime clock q.heap.length timers := by
  constructor
  · intro e he hdue
    exact (hbehind 0 (start q) rfl rfl).2 e.1 e.2 ((hin.held e).mp he) hdue
  · intro k hk hreached i hi e he hrepeated
    obtain ⟨s, hrun, hended, h⟩ :=
      along_of_reached hq hsmall hordered hin hbehind hk hreached
    have hcalled := h.mem_called.mpr ⟨i, hi, e, he, rfl⟩
    have hheld := h.rearmed i hi e he
    rw [Timer.rearm, if_pos hrepeated] at hheld
    have hlate := (hbehind k s hrun hended).1 e.1 hcalled _ hheld
    rwa [h.reads] at hlate

/-- A call of `runTimers` on a clock that does not go back.  It ends and calls
every timer at most once if the clock advances during the call by no more than
the interval of a repeated timer; and from a heap in order whose timestamps
differ it does so exactly if at every test the clock has advanced by no more
than the interval of each repeated timer since that timer was set anew. -/
theorem runTimers_calls_once (clock : Nat → Int) (hclock : Steady clock)
    (q : TimerQueue) (hq : q.Consistent) (hint : q.IntIndexed) :
    (Quick clock q → CallsOnce clock q) ∧
      ∀ timers, q.Ordered → InOrder q timers →
        (CallsOnce clock q ↔ InTime clock q.heap.length timers) := by
  have hsmall := hq.linked.small hint
  refine ⟨callsOnce_of_quick hq, fun timers hordered hin => ⟨fun honce => ?_,
    fun htime => ?_⟩⟩
  · exact inTime_of_staysBehind hq hsmall hordered hin
      (staysBehind_of_callsOnce hclock hq hsmall hordered honce)
  · exact callsOnce_of_behind hq hsmall
      (staysBehind_of_inTime hq hsmall hordered hin htime)

end TimerPass

/-- One repeated timer, as `addTimer` leaves it in an empty queue. -/
def oneTimer (interval timestamp : Int) : TimerQueue where
  counter := -12346
  heap := [none, some 0]
  timers := fun fd => if fd = -12346 then some 0 else none
  memory := fun p =>
    if p = 0 then some ⟨-12346, interval, timestamp, true, 1⟩ else none
  next := 1

namespace oneTimer

variable (interval timestamp : Int)

theorem consistent : (oneTimer interval timestamp).Consistent where
  linked := by
    refine ⟨rfl, fun i hone hlt => ?_⟩
    have hi : i = 1 := by
      have hlength : i < 2 := hlt
      omega
    subst hi
    exact ⟨0, _, rfl, rfl, rfl⟩
  owned fd p := by
    by_cases hfd : fd = -12346
    · by_cases hp : p = 0 <;> simp [oneTimer, hfd, hp, eq_comm]
    · by_cases hp : p = 0 <;> simp [oneTimer, hfd, hp, eq_comm]

theorem ordered : (oneTimer interval timestamp).Ordered := by
  intro i hge hlt
  have hlength : i < 2 := hlt
  omega

theorem intIndexed : (oneTimer interval timestamp).IntIndexed := by
  intro p t ht
  simp only [oneTimer] at ht
  split at ht
  · cases ht
    change (1 : Int) < 2 ^ 31
    decide
  · cases ht

end oneTimer

namespace TimerPass

theorem oneTimer_inOrder (interval timestamp : Int) :
    InOrder (oneTimer interval timestamp)
      [(0, ⟨-12346, interval, timestamp, true, 0⟩)] where
  held e := by
    obtain ⟨p, t⟩ := e
    by_cases hp : p = 0
    · simp [TimerQueue.held, oneTimer, hp, Timer.core, eq_comm]
    · simp [TimerQueue.held, oneTimer, hp]
  sorted := List.pairwise_singleton _ _

/-- A timer of two milliseconds on a clock that is one millisecond later whenever
it is read is called once. -/
theorem runTimers_calls_once_tick :
    CallsOnce (fun n => 10 + n) (oneTimer 2 9) := by
  have hclock : Steady fun n : Nat => (10 + n : Int) := by
    intro n m hle
    dsimp only
    omega
  refine ((runTimers_calls_once _ hclock (oneTimer 2 9)
    (oneTimer.consistent 2 9) (oneTimer.intIndexed 2 9)).2 _
      (oneTimer.ordered 2 9) (oneTimer_inOrder 2 9)).mpr ⟨by decide, ?_⟩
  intro k hk _ i hi e he _
  have hlength : k ≤ 1 := hk
  obtain rfl : k = 1 := by omega
  obtain rfl : i = 0 := by omega
  obtain rfl := Option.some.inj he
  decide

/-- A timer of one millisecond on a clock that is two milliseconds later whenever
it is read. -/
theorem runTimers_captured :
    let clock : Nat → Int := fun n => 10 + 2 * n
    Steady clock ∧ (oneTimer 1 9).Consistent ∧ (oneTimer 1 9).Ordered ∧
      ¬ CallsOnce clock (oneTimer 1 9) := by
  have hclock : Steady fun n : Nat => (10 + 2 * n : Int) := by
    intro n m hle
    dsimp only
    omega
  refine ⟨hclock, oneTimer.consistent 1 9, oneTimer.ordered 1 9, ?_⟩
  -- the timestamp is 13 when the second test reads 14
  exact not_callsOnce_of_doomed hclock (oneTimer.consistent 1 9)
    (by decide) (oneTimer.ordered 1 9) (n := 1) rfl
    (Or.inr ⟨rfl, 0, by decide, _, rfl, by decide⟩)

end TimerPass

end Libsaf
