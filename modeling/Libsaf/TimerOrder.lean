/-
The order of the timer heap over runs.  `heapDelete` only sifts down, so that
a cancel can leave the timer that fills the hole below a later parent; all
other steps keep the order.
-/
import Libsaf.TimerRun

namespace Libsaf

namespace TimerRun

/-- The timers are in heap order, and the timer that `checkTimers` looks at is
the first of those in the table. -/
structure InOrder (s : TimerRun) : Prop where
  ordered : s.queue.Ordered
  first : ∀ fd p t, s.queue.timers fd = some p → s.queue.memory p = some t →
    ∃ root, s.queue.timerAt TimerQueue.FirstItem = some root ∧
      root.timestamp ≤ t.timestamp

/-- The timer that fills the hole of a cancelled one is not due before its new
parent. -/
def Refills (s : TimerRun) : TimerOp → Prop
  | .cancelTimer fd => ∀ p, s.queue.timers fd = some p → s.queue.Fits p
  | _ => True

theorem Safe.inOrder {s : TimerRun} (h : s.Safe) (hq : s.queue.Ordered) :
    s.InOrder := by
  refine ⟨hq, ?_⟩
  intro fd p t hentry ht
  obtain ⟨i, t', hone, hlt, hi, ht', _, _⟩ := h.consistent.entry hentry
  obtain rfl : t = t' := Option.some.inj (ht.symm.trans ht')
  obtain ⟨root, hroot, hkey⟩ :=
    h.consistent.linked.slotTimer (Nat.le_refl 1) (by omega)
  have hkey' : t.timestamp = s.queue.key i := by
    simp [TimerQueue.key, TimerQueue.slotTimer, hi, ht]
  refine ⟨root, hroot, ?_⟩
  rw [hkey, hkey']
  exact hq.root_le i hone hlt

/-- One step from a heap in order ends in order exactly when a cancel finds a
timer that fits. -/
theorem ordered_step {s : TimerRun} (h : s.Safe) (hq : s.queue.Ordered)
    {op : TimerOp} (henabled : timerMachine.enabled s op)
    (hfresh : s.Fresh op) (hroom : s.Room op) :
    ∃ s', timerMachine.exec s op = some s' ∧ s'.Safe ∧
      (s'.queue.Ordered ↔ s.Refills op) := by
  cases op with
  | createTimer interval repeated now =>
      obtain ⟨s', hexec, hsafe, horder⟩ :=
        createTimer_step h interval repeated now
      exact ⟨s', hexec, hsafe, fun _ => trivial, fun _ => horder hq⟩
  | addTimer timer =>
      obtain ⟨s', hexec, hsafe, _, horder, _⟩ :=
        addTimer_step h hroom henabled hfresh
      exact ⟨s', hexec, hsafe, fun _ => trivial, fun _ => horder hq⟩
  | cancelTimer fd =>
      obtain ⟨s', hexec, hsafe, _, horder⟩ := cancelTimer_step h hroom
      exact ⟨s', hexec, hsafe, horder hq⟩
  | popTimer now =>
      obtain ⟨s', hexec, hsafe, _, horder⟩ :=
        popTimer_step h hroom henabled now
      exact ⟨s', hexec, hsafe, fun _ => trivial, fun _ => horder hq⟩
  | returnFromTimeout =>
      obtain ⟨s', hexec, hsafe, _, horder⟩ :=
        returnFromTimeout_step h henabled
      exact ⟨s', hexec, hsafe, fun _ => trivial, fun _ => horder hq⟩

end TimerRun

/-- Without reused ids and with room for the positions, the heap is in order in
every state of a run exactly when every cancel finds a timer that fits. -/
theorem timers_ordered_iff (word : List TimerOp)
    (hlegal : timerMachine.Legal .start word)
    (hfresh : timerMachine.Meets TimerRun.Fresh .start word)
    (hroom : timerMachine.Meets TimerRun.Room .start word) :
    timerMachine.Holds TimerRun.InOrder .start word ↔
      timerMachine.Meets TimerRun.Refills .start word := by
  apply Machine.holds_iff_meets (I := fun s => s.Safe ∧ s.queue.Ordered)
    (fun s hs => hs.1.inOrder hs.2) _ _
    ⟨TimerRun.start_safe, TimerQueue.start_ordered⟩
    ((hlegal.and hfresh).and hroom)
  · rintro s op ⟨hsafe, hq⟩ ⟨⟨henabled, hfresh⟩, hroom⟩ hfits
    obtain ⟨s', hexec, hsafe', horder⟩ :=
      TimerRun.ordered_step hsafe hq henabled hfresh hroom
    exact ⟨s', hexec, hsafe', horder.mpr hfits⟩
  · rintro s op s' ⟨hsafe, hq⟩ ⟨⟨henabled, hfresh⟩, hroom⟩ hexec horder'
    obtain ⟨t, ht, _, horder⟩ :=
      TimerRun.ordered_step hsafe hq henabled hfresh hroom
    obtain rfl : s' = t := Option.some.inj (hexec.symm.trans ht)
    exact horder.mp horder'.ordered

instance (s : TimerRun) (op : TimerOp) : Decidable (s.Fresh op) :=
  match op with
  | .createTimer _ _ _ => isTrue trivial
  | .addTimer timer => inferInstanceAs (Decidable
      (∀ t ∈ s.queue.memory timer, s.queue.timers t.fd = none))
  | .cancelTimer _ => isTrue trivial
  | .popTimer _ => isTrue trivial
  | .returnFromTimeout => isTrue trivial

/-- One timer for each timestamp. -/
def addTimers (timestamps : List Int) : List TimerOp :=
  timestamps.zipIdx.flatMap fun (timestamp, p) =>
    [.createTimer timestamp false 0, .addTimer p]

theorem timers_ordered_iff_two :
    let word := addTimers [7, 3] ++ [.cancelTimer (-12346)]
    timerMachine.Holds TimerRun.InOrder .start word ↔
      timerMachine.Meets TimerRun.Refills .start word :=
  timers_ordered_iff _ (by decide +kernel) (by decide +kernel)
    (by decide +kernel)

/-- The last of six timers replaces the fourth, in the other subtree. -/
theorem timers_not_ordered_cancel :
    let word := addTimers [1, 10, 2, 11, 12, 3] ++ [.cancelTimer (-12349)]
    timerMachine.Legal .start word ∧
      timerMachine.Meets TimerRun.Fresh .start word ∧
      timerMachine.Meets TimerRun.Room .start word ∧
      ¬timerMachine.Holds TimerRun.InOrder .start word := by
  intro word
  have hkeys : (timerMachine.run .start word).map
      (fun s => (s.queue.heap.length, s.queue.key 2, s.queue.key 4)) =
        some (6, 10, 3) := by
    decide +kernel
  refine ⟨by decide +kernel, by decide +kernel, by decide +kernel,
    Machine.not_holds_of_view hkeys ?_⟩
  intro s hkeys horder
  simp only [Prod.mk.injEq] at hkeys
  obtain ⟨hlength, hparent, hchild⟩ := hkeys
  have hedge : s.queue.key 2 ≤ s.queue.key 4 :=
    horder.ordered 4 (by omega) (by omega)
  omega

end Libsaf
