/-
Runs of `saf::TimerQueue`: timers are created, added, cancelled and popped in
any order, also while the callback of a popped timer is running.  The heap and
the table agree in every state, as long as the slots of the heap can be
numbered by an `int`.
-/
import Libsaf.TimerQueue
import Mathlib.Data.List.Perm.Basic

namespace Libsaf

/-- `returnFromTimeout` is the end of the innermost `popTimer`. -/
inductive TimerOp where
  | createTimer (interval : Int) (repeated : Bool) (now : Int)
  | addTimer (timer : Nat)
  | cancelTimer (fd : Int)
  | popTimer (now : Int)
  | returnFromTimeout
deriving Repr, DecidableEq

/-- `created` are the timers from `createTimer` that were not added yet;
`firing` are the locals `ptr` of the running calls of `popTimer`, the innermost
first. -/
structure TimerRun where
  queue : TimerQueue
  created : List Nat
  firing : List (Option Nat)

namespace TimerRun

def start : TimerRun := ⟨.start, [], []⟩

end TimerRun

/-- The end of `popTimer` deletes the timer of its local `ptr`. -/
def timerMachine : Machine TimerRun TimerOp where
  enabled s
    | .createTimer _ _ _ => True
    | .addTimer timer => timer ∈ s.created
    | .cancelTimer _ => True
    | .popTimer _ => 1 < s.queue.heap.length
    | .returnFromTimeout => s.firing ≠ []
  exec s
    | .createTimer interval repeated now =>
        let (timer, queue) := s.queue.createTimer interval repeated now
        some { s with queue := queue, created := timer :: s.created }
    | .addTimer timer =>
        (s.queue.addTimer timer).map fun queue =>
          { s with queue := queue, created := s.created.erase timer }
    | .cancelTimer fd =>
        (s.queue.cancelTimer fd).map fun queue => { s with queue := queue }
    | .popTimer now =>
        (s.queue.popTimer now).map fun (ptr, queue) =>
          { s with queue := queue, firing := ptr :: s.firing }
    | .returnFromTimeout =>
        match s.firing with
        | [] => none
        | none :: rest => some { s with firing := rest }
        | some timer :: rest =>
            (s.queue.delete timer).map fun queue =>
              { s with queue := queue, firing := rest }

namespace TimerRun

/-- Whoever has to delete a timer: the table for those of the heap, the caller
of `createTimer`, and `popTimer`. -/
def owners (s : TimerRun) : List Nat :=
  s.queue.heap.reduceOption ++ s.created ++ s.firing.reduceOption

/-- Every timer in memory has exactly one owner. -/
structure Accounted (s : TimerRun) : Prop where
  nodup : s.owners.Nodup
  live : ∀ p, s.queue.memory p ≠ none ↔ p ∈ s.owners
  fresh : ∀ p, s.queue.next ≤ p → s.queue.memory p = none

/-- A step that changes the heap can number its slots by an `int`. -/
def Room (s : TimerRun) : TimerOp → Prop
  | .addTimer _ => s.queue.heap.length < 2 ^ 31
  | .cancelTimer fd => s.queue.timers fd ≠ none → s.queue.heap.length < 2 ^ 31
  | .popTimer _ => s.queue.heap.length < 2 ^ 31
  | _ => True

/-- A timer is not added under the id of a timer in the queue. -/
def Fresh (s : TimerRun) : TimerOp → Prop
  | .addTimer timer => ∀ t ∈ s.queue.memory timer, s.queue.timers t.fd = none
  | _ => True

/-- Fewer than `2 ^ 32` timers are created. -/
def Few (s : TimerRun) : TimerOp → Prop
  | .createTimer _ _ _ => s.queue.next + 1 < 2 ^ 32
  | _ => True

/-- Heap, table and memory agree. -/
structure Safe (s : TimerRun) : Prop where
  consistent : s.queue.Consistent
  accounted : s.Accounted
  small : s.queue.heap.length ≤ 2 ^ 31

theorem Accounted.perm {s s' : TimerRun} (h : s.Accounted)
    (howners : s'.owners.Perm s.owners)
    (hmemory : ∀ p, s'.queue.memory p = none ↔ s.queue.memory p = none)
    (hnext : s'.queue.next = s.queue.next) : s'.Accounted where
  nodup := howners.nodup_iff.mpr h.nodup
  live p := by
    rw [howners.mem_iff, ← h.live p, ne_eq, hmemory p]
  fresh p hp := (hmemory p).mpr (h.fresh p (hnext ▸ hp))

/-- A timer is deleted by its owner. -/
theorem Accounted.release {s s' : TimerRun} (h : s.Accounted) {p : Nat}
    (howners : s.owners.Perm (p :: s'.owners))
    (hp : s'.queue.memory p = none)
    (hmemory : ∀ x, x ≠ p →
      (s'.queue.memory x = none ↔ s.queue.memory x = none))
    (hnext : s'.queue.next = s.queue.next) : s'.Accounted := by
  have hnodup := howners.nodup_iff.mp h.nodup
  rw [List.nodup_cons] at hnodup
  refine ⟨hnodup.2, ?_, ?_⟩
  · intro x
    rcases eq_or_ne x p with rfl | hne
    · simp [hp, hnodup.1]
    · rw [ne_eq, hmemory x hne, ← ne_eq, h.live x, howners.mem_iff]
      simp [hne]
  · intro x hx
    rcases eq_or_ne x p with rfl | hne
    · exact hp
    · exact (hmemory x hne).mpr (h.fresh x (hnext ▸ hx))

/-- A new timer belongs to the caller of `createTimer`. -/
theorem Accounted.create {s : TimerRun} (h : s.Accounted)
    (interval : Int) (repeated : Bool) (now : Int) :
    Accounted { s with
      queue := (s.queue.createTimer interval repeated now).2
      created := s.queue.next :: s.created } := by
  have howners : (owners { s with
      queue := (s.queue.createTimer interval repeated now).2
      created := s.queue.next :: s.created }).Perm
      (s.queue.next :: s.owners) := by
    simp [owners, TimerQueue.createTimer]
  have hnext : s.queue.next ∉ s.owners := by
    rw [← h.live, ne_eq, not_not]
    exact h.fresh _ (Nat.le_refl _)
  refine ⟨?_, ?_, ?_⟩
  · rw [howners.nodup_iff, List.nodup_cons]
    exact ⟨hnext, h.nodup⟩
  · intro p
    rw [howners.mem_iff]
    rcases eq_or_ne p s.queue.next with rfl | hne
    · simp [TimerQueue.createTimer]
    · simpa [TimerQueue.createTimer, hne] using h.live p
  · intro p hp
    have hlt : s.queue.next < p := hp
    have hne : p ≠ s.queue.next := by omega
    simpa [TimerQueue.createTimer, hne] using h.fresh p (by omega)

/-- A step that keeps the ids of the timers which it does not delete. -/
def KeepsIds (s s' : TimerRun) : Prop :=
  s'.queue.counter = s.queue.counter ∧ s'.queue.next = s.queue.next ∧
    ∀ p, s'.queue.memory p = none ∨
      (s'.queue.memory p).map Timer.fd = (s.queue.memory p).map Timer.fd

/-- The timers of the table are those that nobody else owns. -/
theorem Accounted.not_mem_heap {s : TimerRun} (h : s.Accounted) {p : Nat}
    (hp : p ∈ s.created ∨ some p ∈ s.firing) : some p ∉ s.queue.heap := by
  intro hin
  have hnodup := h.nodup
  rw [owners, List.append_assoc, List.nodup_append] at hnodup
  apply hnodup.2.2 p (List.reduceOption_mem_iff.mpr hin) p _ rfl
  simpa [List.reduceOption_mem_iff] using hp

theorem Accounted.memory {s : TimerRun} (h : s.Accounted) {p : Nat}
    (hp : p ∈ s.created ∨ some p ∈ s.firing) :
    ∃ t, s.queue.memory p = some t := by
  apply Option.ne_none_iff_exists'.mp
  rw [h.live p]
  rcases hp with hp | hp
  · simp [owners, hp]
  · simp [owners, List.reduceOption_mem_iff, hp]

theorem reduceOption_perm {l l' : List (Option Nat)} (h : l.Perm l') :
    l.reduceOption.Perm l'.reduceOption :=
  h.filterMap id

theorem createTimer_step {s : TimerRun} (h : s.Safe)
    (interval : Int) (repeated : Bool) (now : Int) :
    ∃ s', timerMachine.exec s (.createTimer interval repeated now) = some s' ∧
      s'.Safe ∧ (s.queue.Ordered → s'.queue.Ordered) := by
  have hframe : ∀ p, some p ∈ s.queue.heap →
      (s.queue.createTimer interval repeated now).2.memory p =
        s.queue.memory p := by
    intro p hp
    have hne : p ≠ s.queue.next := by
      rintro rfl
      have hlive := (h.accounted.live s.queue.next).mpr
        (by simp [owners, List.reduceOption_mem_iff, hp])
      exact hlive (h.accounted.fresh _ (Nat.le_refl _))
    simp [TimerQueue.createTimer, hne]
  exact ⟨_, rfl, ⟨h.consistent.frame rfl rfl hframe,
    h.accounted.create interval repeated now, h.small⟩,
    fun hq => hq.frame rfl hframe⟩

theorem addTimer_step {s : TimerRun} (h : s.Safe)
    (hroom : s.queue.heap.length < 2 ^ 31) {p : Nat} (hp : p ∈ s.created)
    (hfresh : s.Fresh (.addTimer p)) :
    ∃ s', timerMachine.exec s (.addTimer p) = some s' ∧ s'.Safe ∧
      s.KeepsIds s' ∧ (s.queue.Ordered → s'.queue.Ordered) ∧
      s'.queue.heap.length = s.queue.heap.length + 1 := by
  obtain ⟨t, ht⟩ := h.accounted.memory (Or.inl hp)
  obtain ⟨q', hrun, hconsistent, hsifted, horder⟩ :=
    TimerQueue.addTimer_spec h.consistent hroom ht
      (h.accounted.not_mem_heap (Or.inl hp)) (hfresh t ht)
  have hlength : q'.heap.length = s.queue.heap.length + 1 := by
    simpa using hsifted.length
  refine ⟨{ s with queue := q', created := s.created.erase p }, ?_,
    ⟨hconsistent, ?_, hlength ▸ hroom⟩, ?_, horder, hlength⟩
  · simp [timerMachine, hrun]
  · apply h.accounted.perm _ hsifted.none_iff hsifted.next
    have hheap :
        q'.heap.reduceOption.Perm (s.queue.heap.reduceOption ++ [p]) := by
      simpa [List.reduceOption_append] using reduceOption_perm hsifted.heap
    have hcreated : (p :: s.created.erase p).Perm s.created :=
      (List.perm_cons_erase hp).symm
    calc q'.heap.reduceOption ++ s.created.erase p ++ s.firing.reduceOption
        |>.Perm (s.queue.heap.reduceOption ++ [p] ++ s.created.erase p ++
          s.firing.reduceOption) := (hheap.append_right _).append_right _
      _ |>.Perm s.owners := by
          rw [List.append_assoc s.queue.heap.reduceOption [p]]
          exact (hcreated.append_left _).append_right _
  · exact ⟨hsifted.counter, hsifted.next, fun x => Or.inr (hsifted.fd x)⟩

/-- An owner gives up one timer. -/
theorem owners_cut {q q' : TimerQueue} {p : Nat}
    (h : (q'.heap ++ [some p]).Perm q.heap) :
    q.heap.reduceOption.Perm (p :: q'.heap.reduceOption) := by
  have hcut : (q'.heap.reduceOption ++ [p]).Perm q.heap.reduceOption := by
    simpa [List.reduceOption_append] using reduceOption_perm h
  exact hcut.symm.trans (List.perm_append_singleton p _)

theorem cancelTimer_step {s : TimerRun} (h : s.Safe) {fd : Int}
    (hroom : s.Room (.cancelTimer fd)) :
    ∃ s', timerMachine.exec s (.cancelTimer fd) = some s' ∧ s'.Safe ∧
      s.KeepsIds s' ∧ (s.queue.Ordered → (s'.queue.Ordered ↔
        ∀ p, s.queue.timers fd = some p → s.queue.Fits p)) := by
  rcases hentry : s.queue.timers fd with _ | p
  · refine ⟨s, ?_, h, ⟨rfl, rfl, fun p => Or.inr rfl⟩, ?_⟩
    · simp [timerMachine, TimerQueue.cancelTimer_of_none hentry]
    · exact fun hq => ⟨by simp, fun _ => hq⟩
  · obtain ⟨q', hrun, hconsistent, hdeleted, hsifted, horder⟩ :=
      TimerQueue.cancelTimer_spec h.consistent
        (hroom (by rw [hentry]; exact Option.some_ne_none p)) hentry
    have hcut := TimerQueue.length_cut hsifted.heap
    have hsmall : q'.heap.length ≤ 2 ^ 31 :=
      Nat.le_of_succ_le (Nat.le_trans (Nat.le_of_eq hcut) h.small)
    refine ⟨{ s with queue := q' }, ?_, ⟨hconsistent, ?_, hsmall⟩, ?_, ?_⟩
    · simp [timerMachine, hrun]
    · apply h.accounted.release _ hdeleted _ hsifted.next
      · exact ((owners_cut hsifted.heap).append_right _).append_right _
      · intro x hx
        simpa [hx] using hsifted.none_iff x
    · refine ⟨hsifted.counter, hsifted.next, fun x => ?_⟩
      rcases eq_or_ne x p with rfl | hne
      · exact Or.inl hdeleted
      · exact Or.inr (by simpa [hne] using hsifted.fd x)
    · intro hq
      simpa using horder hq

theorem popTimer_step {s : TimerRun} (h : s.Safe)
    (hroom : s.queue.heap.length < 2 ^ 31) (hlt : 1 < s.queue.heap.length)
    (now : Int) :
    ∃ s', timerMachine.exec s (.popTimer now) = some s' ∧ s'.Safe ∧
      s.KeepsIds s' ∧ (s.queue.Ordered → s'.queue.Ordered) := by
  obtain ⟨p, t, hp, ht, _⟩ := h.consistent.linked.linked 1 (Nat.le_refl 1) hlt
  rcases hrepeated : t.repeated with _ | _
  · obtain ⟨q', hrun, hconsistent, hsifted, horder⟩ :=
      TimerQueue.popTimer_once h.consistent hroom hp ht hrepeated now
    have hcut := TimerQueue.length_cut hsifted.heap
    have hsmall : q'.heap.length ≤ 2 ^ 31 :=
      Nat.le_of_succ_le (Nat.le_trans (Nat.le_of_eq hcut) h.small)
    refine ⟨{ s with queue := q', firing := some p :: s.firing }, ?_,
      ⟨hconsistent, ?_, hsmall⟩, ?_, horder⟩
    · simp [timerMachine, hrun]
    · apply h.accounted.perm _ hsifted.none_iff hsifted.next
      have hcut := (owners_cut hsifted.heap).symm
      have hfire : (some p :: s.firing).reduceOption =
          p :: s.firing.reduceOption := List.reduceOption_cons_of_some p _
      simp only [owners, hfire]
      exact List.perm_middle.trans ((hcut.append_right _).append_right _)
    · exact ⟨hsifted.counter, hsifted.next, fun x => Or.inr (hsifted.fd x)⟩
  · obtain ⟨q', hrun, hconsistent, hsifted, horder⟩ :=
      TimerQueue.popTimer_repeated h.consistent hroom hp ht hrepeated now
    refine ⟨{ s with queue := q', firing := none :: s.firing }, ?_,
      ⟨hconsistent, ?_, hsifted.length ▸ h.small⟩, ?_, horder⟩
    · simp [timerMachine, hrun]
    · apply h.accounted.perm _ _ hsifted.next
      · have hheap := reduceOption_perm hsifted.heap
        exact (hheap.append_right _).append_right _
      · intro x
        rw [hsifted.none_iff]
        rcases eq_or_ne x p with rfl | hne
        · simp [ht]
        · simp [hne]
    · refine ⟨hsifted.counter, hsifted.next, fun x => Or.inr ?_⟩
      rw [hsifted.fd]
      rcases eq_or_ne x p with rfl | hne
      · simp [ht]
      · simp [hne]

theorem returnFromTimeout_step {s : TimerRun} (h : s.Safe)
    (hfiring : s.firing ≠ []) :
    ∃ s', timerMachine.exec s .returnFromTimeout = some s' ∧ s'.Safe ∧
      s.KeepsIds s' ∧ (s.queue.Ordered → s'.queue.Ordered) := by
  obtain ⟨queue, created, firing⟩ := s
  rcases firing with _ | ⟨_ | p, rest⟩
  · exact absurd rfl hfiring
  · refine ⟨_, rfl, ⟨h.consistent, ?_, h.small⟩,
      ⟨rfl, rfl, fun p => Or.inr rfl⟩, id⟩
    exact h.accounted.perm (List.Perm.refl _) (fun _ => Iff.rfl) rfl
  · have hfire : p ∈ created ∨ some p ∈ some p :: rest := by simp
    obtain ⟨t, ht⟩ := h.accounted.memory hfire
    have hout := h.accounted.not_mem_heap hfire
    let q' : TimerQueue :=
      { queue with memory := Function.update queue.memory p none }
    have hframe : ∀ x, some x ∈ queue.heap → q'.memory x = queue.memory x := by
      intro x hx
      have hne : x ≠ p := fun hxp => hout (hxp ▸ hx)
      simp [q', hne]
    refine ⟨⟨q', created, rest⟩, ?_,
      ⟨h.consistent.frame rfl rfl hframe, ?_, h.small⟩,
      ⟨rfl, rfl, fun x => ?_⟩, fun hq => hq.frame rfl hframe⟩
    · have ht' : queue.memory p = some t := ht
      simp [timerMachine, TimerQueue.delete, ht', q']
    · refine h.accounted.release (p := p) ?_ (by simp [q']) ?_ rfl
      · simp only [owners, List.reduceOption_cons_of_some, q']
        exact List.perm_middle
      · intro x hx
        simp [q', hx]
    · rcases eq_or_ne x p with rfl | hne
      · exact Or.inl (by simp [q'])
      · exact Or.inr (by simp [q', hne])

/-- One step of the queue is without fault and keeps it safe. -/
theorem safe_step {s : TimerRun} (h : s.Safe) (op : TimerOp)
    (henabled : timerMachine.enabled s op) (hfresh : s.Fresh op)
    (hroom : s.Room op) :
    ∃ s', timerMachine.exec s op = some s' ∧ s'.Safe := by
  cases op with
  | createTimer interval repeated now =>
      obtain ⟨s', hexec, hsafe, _⟩ := createTimer_step h interval repeated now
      exact ⟨s', hexec, hsafe⟩
  | addTimer timer =>
      obtain ⟨s', hexec, hsafe, _⟩ := addTimer_step h hroom henabled hfresh
      exact ⟨s', hexec, hsafe⟩
  | cancelTimer fd =>
      obtain ⟨s', hexec, hsafe, _⟩ := cancelTimer_step h hroom
      exact ⟨s', hexec, hsafe⟩
  | popTimer now =>
      obtain ⟨s', hexec, hsafe, _⟩ := popTimer_step h hroom henabled now
      exact ⟨s', hexec, hsafe⟩
  | returnFromTimeout =>
      obtain ⟨s', hexec, hsafe, _⟩ := returnFromTimeout_step h henabled
      exact ⟨s', hexec, hsafe⟩

theorem start_safe : start.Safe where
  consistent := TimerQueue.start_consistent
  accounted := ⟨List.nodup_nil,
    fun p => by simp [start, owners, TimerQueue.start], fun p _ => rfl⟩
  small := by decide

/-- The ids are counted down from `StartFd`, one for each address. -/
structure Numbered (s : TimerRun) : Prop where
  counter : s.queue.counter = toInt (TimerQueue.StartFd - s.queue.next)
  few : s.queue.next < 2 ^ 32
  ids : ∀ p t, s.queue.memory p = some t →
    t.fd = toInt (TimerQueue.StartFd - (p + 1))

theorem start_numbered : start.Numbered where
  counter := by decide
  few := by decide
  ids p t ht := by cases ht

theorem Numbered.keep {s s' : TimerRun} (h : s.Numbered) (hs : s.KeepsIds s') :
    s'.Numbered := by
  obtain ⟨hcounter, hnext, hmemory⟩ := hs
  refine ⟨by rw [hcounter, hnext]; exact h.counter, hnext ▸ h.few, ?_⟩
  intro p t' ht'
  rcases hmemory p with hnone | hfd
  · rw [hnone] at ht'
    cases ht'
  · rw [ht', Option.map_some, eq_comm, Option.map_eq_some_iff] at hfd
    obtain ⟨t, ht, heq⟩ := hfd
    rw [← heq]
    exact h.ids p t ht

theorem Numbered.create {s : TimerRun} (h : s.Numbered)
    (hfew : s.queue.next + 1 < 2 ^ 32)
    (interval : Int) (repeated : Bool) (now : Int) :
    Numbered { s with
      queue := (s.queue.createTimer interval repeated now).2
      created := s.queue.next :: s.created } := by
  have hfd : toInt (s.queue.counter - 1) =
      toInt (TimerQueue.StartFd - (s.queue.next + 1)) := by
    rw [h.counter]
    unfold toInt
    simp only [Int.bmod_def]
    omega
  refine ⟨hfd, hfew, ?_⟩
  intro p t ht
  rcases eq_or_ne p s.queue.next with rfl | hne
  · simp only [TimerQueue.createTimer, Function.update_self,
      Option.some.injEq] at ht
    rw [← ht]
    exact hfd
  · simp only [TimerQueue.createTimer, Function.update_of_ne hne] at ht
    exact h.ids p t ht

/-- Among fewer than `2 ^ 32` timers no id occurs twice. -/
theorem Numbered.inj {s : TimerRun} (h : s.Numbered) (hs : s.Accounted)
    {p p' : Nat} {t t' : Timer} (ht : s.queue.memory p = some t)
    (ht' : s.queue.memory p' = some t') (hfd : t.fd = t'.fd) : p = p' := by
  have hlt : ∀ {x tx}, s.queue.memory x = some tx → x < 2 ^ 32 := by
    intro x tx hx
    have hbelow : x < s.queue.next := by
      by_contra hge
      rw [hs.fresh x (by omega)] at hx
      cases hx
    have hfew := h.few
    omega
  have hp := hlt ht
  have hp' := hlt ht'
  rw [h.ids p t ht, h.ids p' t' ht'] at hfd
  unfold toInt at hfd
  simp only [Int.bmod_def] at hfd
  omega

theorem Numbered.fresh {s : TimerRun} (h : s.Numbered) (hs : s.Safe)
    {op : TimerOp} (henabled : timerMachine.enabled s op) : s.Fresh op := by
  cases op with
  | addTimer p =>
      intro t ht
      by_contra hne
      obtain ⟨p', hentry⟩ := Option.ne_none_iff_exists'.mp hne
      obtain ⟨i, t', _, _, hi, ht', _, hfd⟩ := hs.consistent.entry hentry
      obtain rfl : p = p' := h.inj hs.accounted ht ht' hfd.symm
      exact hs.accounted.not_mem_heap (Or.inl henabled)
        (List.mem_of_getElem? hi)
  | _ => trivial

theorem numbered_step {s s' : TimerRun} (h : s.Numbered) (hs : s.Safe)
    {op : TimerOp} (henabled : timerMachine.enabled s op) (hfew : s.Few op)
    (hroom : s.Room op) (hexec : timerMachine.exec s op = some s') :
    s'.Numbered := by
  have keep : ∀ {P : TimerRun → Prop},
      (∃ t, timerMachine.exec s op = some t ∧ t.Safe ∧ s.KeepsIds t ∧ P t) →
      s'.Numbered := by
    rintro P ⟨t, ht, _, hkeep, _⟩
    obtain rfl : s' = t := Option.some.inj (hexec.symm.trans ht)
    exact h.keep hkeep
  cases op with
  | createTimer interval repeated now =>
      cases hexec
      exact h.create hfew interval repeated now
  | addTimer timer =>
      exact keep (addTimer_step hs hroom henabled (h.fresh hs henabled))
  | cancelTimer fd => exact keep (cancelTimer_step hs hroom)
  | popTimer now => exact keep (popTimer_step hs hroom henabled now)
  | returnFromTimeout => exact keep (returnFromTimeout_step hs henabled)

end TimerRun

/-- `cancelTimer(fd)` takes out exactly the timer with the id, when there is
one, and does nothing otherwise. -/
def TimerQueue.CancelExact (q : TimerQueue) (fd : Int) : Prop :=
  match q.timers fd with
  | none => q.cancelTimer fd = some q
  | some p => ∃ q', q.cancelTimer fd = some q' ∧
      (q'.heap ++ [some p]).Perm q.heap ∧
      q'.timers = Function.update q.timers fd none ∧
      q'.memory p = none ∧
      ∀ x, x ≠ p → (q'.memory x).map Timer.core = (q.memory x).map Timer.core

theorem TimerQueue.Consistent.cancelExact {q : TimerQueue} (h : q.Consistent)
    (hroom : q.heap.length < 2 ^ 31) (fd : Int) : q.CancelExact fd := by
  unfold CancelExact
  split
  · rename_i hnone
    exact cancelTimer_of_none hnone
  · rename_i p hp
    obtain ⟨q', hrun, _, hdeleted, hsifted, _⟩ := cancelTimer_spec h hroom hp
    refine ⟨q', hrun, hsifted.heap, hsifted.timers, hdeleted, fun x hx => ?_⟩
    simpa [hx] using hsifted.memory x

/-- Heap and table hold the same timers, each once and each with its position,
and a cancel takes out what it names. -/
structure TimerRun.Sound (s : TimerRun) : Prop where
  consistent : s.queue.Consistent
  once : s.queue.heap.Nodup
  cancel : s.queue.heap.length < 2 ^ 31 → ∀ fd, s.queue.CancelExact fd

theorem TimerRun.Safe.sound {s : TimerRun} (h : s.Safe) : s.Sound :=
  ⟨h.consistent, h.consistent.linked.nodup,
    fun hroom fd => h.consistent.cancelExact hroom fd⟩

/-- A step without room faults or breaks the positions. -/
theorem TimerRun.Safe.room {s s' : TimerRun} (h : s.Safe) {op : TimerOp}
    (henabled : timerMachine.enabled s op) (hfresh : s.Fresh op)
    (hexec : timerMachine.exec s op = some s') (hsound : s'.Sound) :
    s.Room op := by
  have full : ¬s.queue.heap.length < 2 ^ 31 →
      s.queue.heap.length = 2 ^ 31 :=
    fun hroom => Nat.le_antisymm h.small (Nat.not_lt.mp hroom)
  cases op with
  | createTimer interval repeated now => trivial
  | addTimer p =>
      by_contra hroom
      obtain ⟨t, ht⟩ := h.accounted.memory (Or.inl henabled)
      obtain ⟨q', hrun, hunlinked⟩ :=
        TimerQueue.addTimer_full (full hroom) ht (hfresh t ht)
      obtain rfl : { s with queue := q', created := s.created.erase p } = s' := by
        simpa [timerMachine, hrun] using hexec
      exact hunlinked hsound.consistent.linked
  | cancelTimer fd =>
      intro hentry
      by_contra hroom
      obtain ⟨p, hp⟩ := Option.ne_none_iff_exists'.mp hentry
      obtain ⟨i, t, hone, hlt, _, ht, hindex, _⟩ := h.consistent.entry hp
      have hnone : s.queue.cancelTimer fd = none := by
        simp [TimerQueue.cancelTimer, hp, ht, hindex,
          TimerQueue.heapDelete_full (full hroom) hone hlt]
      simp [timerMachine, hnone] at hexec
  | popTimer now =>
      by_contra hroom
      have hnone : s.queue.popTimer now = none := by
        simp [TimerQueue.popTimer, TimerQueue.heapPop_full (full hroom)]
      simp [timerMachine, hnone] at hexec
  | returnFromTimeout => trivial

/-- Of the runs that create fewer than `2 ^ 32` timers, those keep heap and
table consistent in every state which change the heap only while it has fewer
than `2 ^ 31` slots. -/
theorem timers_consistent_iff (word : List TimerOp)
    (hlegal : timerMachine.Legal .start word)
    (hfew : timerMachine.Meets TimerRun.Few .start word) :
    timerMachine.Holds TimerRun.Sound .start word ↔
      timerMachine.Meets TimerRun.Room .start word := by
  apply Machine.holds_iff_meets (I := fun s => s.Safe ∧ s.Numbered)
    (fun s hs => hs.1.sound) _ _
    ⟨TimerRun.start_safe, TimerRun.start_numbered⟩ (hlegal.and hfew)
  · rintro s op ⟨hsafe, hnumbered⟩ ⟨henabled, hfew⟩ hroom
    obtain ⟨s', hexec, hsafe'⟩ :=
      TimerRun.safe_step hsafe op henabled (hnumbered.fresh hsafe henabled) hroom
    exact ⟨s', hexec, hsafe',
      TimerRun.numbered_step hnumbered hsafe henabled hfew hroom hexec⟩
  · rintro s op s' ⟨hsafe, hnumbered⟩ ⟨henabled, _⟩ hexec hsound
    exact hsafe.room henabled (hnumbered.fresh hsafe henabled) hexec hsound

instance (s : TimerRun) (op : TimerOp) : Decidable (timerMachine.enabled s op) :=
  match op with
  | .createTimer _ _ _ => isTrue trivial
  | .addTimer timer => inferInstanceAs (Decidable (timer ∈ s.created))
  | .cancelTimer _ => isTrue trivial
  | .popTimer _ => inferInstanceAs (Decidable (1 < s.queue.heap.length))
  | .returnFromTimeout => inferInstanceAs (Decidable (s.firing ≠ []))

instance (s : TimerRun) (op : TimerOp) : Decidable (s.Few op) :=
  match op with
  | .createTimer _ _ _ => inferInstanceAs (Decidable (s.queue.next + 1 < 2 ^ 32))
  | .addTimer _ => isTrue trivial
  | .cancelTimer _ => isTrue trivial
  | .popTimer _ => isTrue trivial
  | .returnFromTimeout => isTrue trivial

instance (s : TimerRun) (op : TimerOp) : Decidable (s.Room op) :=
  match op with
  | .createTimer _ _ _ => isTrue trivial
  | .addTimer _ => inferInstanceAs (Decidable (s.queue.heap.length < 2 ^ 31))
  | .cancelTimer fd => inferInstanceAs
      (Decidable (s.queue.timers fd ≠ none → s.queue.heap.length < 2 ^ 31))
  | .popTimer _ => inferInstanceAs (Decidable (s.queue.heap.length < 2 ^ 31))
  | .returnFromTimeout => isTrue trivial

/-- A repeated timer cancels itself from its callback and another timer is
added there. -/
theorem timers_consistent_iff_reentrant : timerMachine.Holds TimerRun.Sound .start
    [.createTimer 5 true 0, .addTimer 0, .popTimer 6, .createTimer 1 false 6,
      .cancelTimer (-12346), .addTimer 1, .returnFromTimeout] :=
  (timers_consistent_iff _ (by decide +kernel) (by decide +kernel)).mpr
    (by decide +kernel)

/-- `n` timers are created and added, one after the other. -/
def crowd (n : Nat) : List TimerOp :=
  (List.range n).flatMap fun p => [.createTimer 0 false 0, .addTimer p]

theorem crowd_succ (n : Nat) :
    crowd (n + 1) = crowd n ++ [.createTimer 0 false 0, .addTimer n] := by
  simp [crowd, List.range_succ]

namespace TimerRun

/-- The state after a crowd of `n` timers. -/
structure Crowded (n : Nat) (s : TimerRun) : Prop where
  safe : s.Safe
  numbered : s.Numbered
  next : s.queue.next = n
  length : s.queue.heap.length = n + 1

/-- The state between the creation of a timer and its addition. -/
structure Waiting (n : Nat) (s : TimerRun) : Prop where
  safe : s.Safe
  numbered : s.Numbered
  next : s.queue.next = n + 1
  length : s.queue.heap.length = n + 1
  created : n ∈ s.created

theorem Crowded.create {n : Nat} {s : TimerRun} (h : Crowded n s)
    (hn : n + 1 < 2 ^ 32) : ∃ s',
      timerMachine.exec s (.createTimer 0 false 0) = some s' ∧ Waiting n s' := by
  obtain ⟨s', hexec, hsafe, _⟩ := createTimer_step h.safe 0 false 0
  have hnumbered := h.numbered.create (h.next ▸ hn) 0 false 0
  cases hexec
  exact ⟨_, rfl, hsafe, hnumbered, congrArg (· + 1) h.next, h.length,
    h.next ▸ List.mem_cons_self⟩

theorem Waiting.add {n : Nat} {s : TimerRun} (h : Waiting n s)
    (hn : n + 1 < 2 ^ 31) : ∃ s',
      timerMachine.exec s (.addTimer n) = some s' ∧ Crowded (n + 1) s' := by
  have hcreated : timerMachine.enabled s (.addTimer n) := h.created
  have hfresh := h.numbered.fresh h.safe hcreated
  obtain ⟨s', hexec, hsafe, hkeep, _, hlength⟩ :=
    addTimer_step h.safe (h.length ▸ hn) h.created hfresh
  exact ⟨s', hexec, hsafe, h.numbered.keep hkeep, hkeep.2.1.trans h.next,
    hlength.trans (congrArg (· + 1) h.length)⟩

end TimerRun

/-- The last timer of a crowd is created and then added. -/
theorem crowd_last {n : Nat} {s s₁ : TimerRun} (hn : n + 1 < 2 ^ 32)
    (hlegal : timerMachine.Legal .start (crowd n))
    (hfew : timerMachine.Meets TimerRun.Few .start (crowd n))
    (hrun : timerMachine.run .start (crowd n) = some s) (hs : s.Crowded n)
    (hexec : timerMachine.exec s (.createTimer 0 false 0) = some s₁)
    (hs₁ : s₁.Waiting n) :
    timerMachine.Legal .start (crowd (n + 1)) ∧
      timerMachine.Meets TimerRun.Few .start (crowd (n + 1)) ∧
      timerMachine.run .start (crowd (n + 1)) =
        timerMachine.exec s₁ (.addTimer n) := by
  have hfresh : s.queue.next + 1 < 2 ^ 32 := by
    rw [hs.next]
    exact hn
  rw [crowd_succ]
  refine ⟨hlegal.append hrun ?_, hfew.append hrun ?_, ?_⟩
  · exact Machine.meets_cons trivial hexec ⟨hs₁.created, fun _ _ => trivial⟩
  · exact Machine.meets_cons hfresh hexec ⟨trivial, fun _ _ => trivial⟩
  · rw [Machine.run_front hrun, Machine.run_cons hexec]
    simp [Machine.run]

theorem crowd_run (n : Nat) (hn : n < 2 ^ 31) :
    timerMachine.Legal .start (crowd n) ∧
      timerMachine.Meets TimerRun.Few .start (crowd n) ∧
      ∃ s, timerMachine.run .start (crowd n) = some s ∧ s.Crowded n := by
  induction n with
  | zero =>
      exact ⟨trivial, trivial, _, rfl, TimerRun.start_safe,
        TimerRun.start_numbered, rfl, rfl⟩
  | succ n ih =>
      obtain ⟨hlegal, hfew, s, hrun, hs⟩ := ih (by omega)
      obtain ⟨s₁, hexec₁, hs₁⟩ := hs.create (by omega)
      obtain ⟨s', hexec, hs'⟩ := hs₁.add hn
      obtain ⟨hlegal', hfew', hrun'⟩ :=
        crowd_last (by omega) hlegal hfew hrun hs hexec₁ hs₁
      exact ⟨hlegal', hfew', s', hrun'.trans hexec, hs'⟩

/-- `2 ^ 31` timers, which are fewer than `2 ^ 32`, are too many. -/
theorem timers_inconsistent_crowd :
    timerMachine.Legal .start (crowd (2 ^ 31)) ∧
      timerMachine.Meets TimerRun.Few .start (crowd (2 ^ 31)) ∧
      ¬timerMachine.Holds TimerRun.Sound .start (crowd (2 ^ 31)) := by
  obtain ⟨n, hn⟩ : ∃ n, n + 1 = 2 ^ 31 := ⟨2 ^ 31 - 1, rfl⟩
  obtain ⟨hlegal, hfew, s, hrun, hs⟩ := crowd_run n (by omega)
  obtain ⟨s₁, hexec₁, hs₁⟩ := hs.create (by omega)
  obtain ⟨hlegal', hfew', hrun'⟩ :=
    crowd_last (by omega) hlegal hfew hrun hs hexec₁ hs₁
  rw [← hn]
  refine ⟨hlegal', hfew', fun hholds => ?_⟩
  obtain ⟨t, ht, hsound⟩ := hholds.last
  have henabled : timerMachine.enabled s₁ (.addTimer n) := hs₁.created
  have hroom : s₁.queue.heap.length < 2 ^ 31 :=
    hs₁.safe.room henabled (hs₁.numbered.fresh hs₁.safe henabled)
      (hrun'.symm.trans ht) hsound
  rw [hs₁.length] at hroom
  omega

end Libsaf
