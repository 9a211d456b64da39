/-
`saf::TimerQueue`: the heap together with the table `_timers`, which owns the
timers.  `popTimer` is cut at the call of `handleTimeout`: what the callback
does are the steps of the queue before the call returns.
-/
import Libsaf.Machine
import Libsaf.TimerHeap
import Mathlib.Data.List.ReduceOption
import Mathlib.Data.List.Nodup

namespace Libsaf

namespace TimerQueue

def StartFd : Int := -12345

/-- `TimerQueue(loop)` with nothing allocated. -/
def start : TimerQueue :=
  { counter := StartFd
    heap := [none]
    timers := fun _ => none
    memory := fun _ => none
    next := 0 }

/-- `createTimer` at clock `now`; `interval` is the delay in milliseconds.  The
source leaves `_heapIndex` unset. -/
def createTimer (q : TimerQueue) (interval : Int) (repeated : Bool)
    (now : Int) : Nat × TimerQueue :=
  let fd := toInt (q.counter - 1)
  let timer : Timer :=
    { fd := fd
      interval := interval
      timestamp := toLong (now + interval)
      repeated := repeated
      heapIndex := 0 }
  (q.next, { q with
    counter := fd
    memory := Function.update q.memory q.next (some timer)
    next := q.next + 1 })

/-- `delete timer`. -/
def delete (q : TimerQueue) (timer : Nat) : Option TimerQueue := do
  let _ ← q.memory timer
  some { q with memory := Function.update q.memory timer none }

/-- `_timers.erase(fd)`: the entry deletes the timer that it owns. -/
def erase (q : TimerQueue) (fd : Int) : Option TimerQueue :=
  match q.timers fd with
  | none => some q
  | some timer =>
      delete { q with timers := Function.update q.timers fd none } timer

/-- `_timers[fd].reset(timer)`: a timer owned before is deleted. -/
def reset (q : TimerQueue) (fd : Int) (timer : Nat) : Option TimerQueue :=
  let q' := { q with timers := Function.update q.timers fd (some timer) }
  match q.timers fd with
  | none => some q'
  | some old => q'.delete old

def addTimer (q : TimerQueue) (timer : Nat) : Option TimerQueue := do
  let q ← q.heapInsert timer
  q.reset (← q.memory timer).fd timer

def cancelTimer (q : TimerQueue) (fd : Int) : Option TimerQueue :=
  match q.timers fd with
  | none => some q
  | some timer => do
      let pos := (← q.memory timer).heapIndex
      let (_, q) ← q.heapDelete pos
      q.erase fd

def checkTimers (q : TimerQueue) (now : Int) : Option Bool :=
  if q.heap.length ≤ toSize FirstItem then
    some false
  else do
    let timer ← q.timerAt FirstItem
    some (timer.timestamp < now)

/-- `popTimer` at clock `now`, up to the call of `handleTimeout`.  The pointer
is the local `ptr`, which a one-shot timer is moved to. -/
def popTimer (q : TimerQueue) (now : Int) :
    Option (Option Nat × TimerQueue) := do
  let (timer, q) ← q.heapPop
  let timer ← timer
  let t ← q.memory timer
  if ¬t.repeated then
    let ptr ← q.timers t.fd
    let _ ← q.memory ptr
    some (some ptr, { q with timers := Function.update q.timers t.fd none })
  else
    let t := { t with timestamp := toLong (now + t.interval) }
    let q := { q with memory := Function.update q.memory timer (some t) }
    let q ← q.heapInsert timer
    some (none, q)

/-- The entries of the table are the timers of the heap, under their ids. -/
def Owned (q : TimerQueue) : Prop :=
  ∀ fd p, q.timers fd = some p ↔
    some p ∈ q.heap ∧ (q.memory p).map Timer.fd = some fd

/-- Heap and table agree, and every timer knows its slot. -/
structure Consistent (q : TimerQueue) : Prop where
  linked : q.Linked
  owned : q.Owned

/-- The heap is in order of the timestamps. -/
def Ordered (q : TimerQueue) : Prop := HeapOrdered q.heap.length q.key

theorem start_consistent : start.Consistent where
  linked := ⟨rfl, fun i hi hlt => by simp [start] at hlt; omega⟩
  owned fd p := by simp [start]

theorem start_ordered : start.Ordered := by
  intro i hi hlt
  simp [start] at hlt
  omega

/-- No pointer is in the heap twice. -/
theorem Linked.nodup {q : TimerQueue} (h : q.Linked) : q.heap.Nodup := by
  rw [List.nodup_iff_getElem?_ne_getElem?]
  intro i j hij hlt heq
  cases hj : q.heap[j]? with
  | none => exact absurd (List.getElem?_eq_none_iff.mp hj) (by omega)
  | some ptr =>
      rw [hj] at heq
      cases ptr with
      | some p => exact absurd (h.inj heq hj) (by omega)
      | none =>
          obtain ⟨p, t, hp, _, _⟩ := h.linked j (by omega) hlt
          simp [hp] at hj

/-- A pointer of the heap is that of a live timer. -/
theorem Linked.live {q : TimerQueue} (h : q.Linked) {p : Nat}
    (hp : some p ∈ q.heap) : ∃ i t, 1 ≤ i ∧ i < q.heap.length ∧
      q.heap[i]? = some (some p) ∧ q.memory p = some t ∧
      t.heapIndex = (i : Int) := by
  obtain ⟨i, hi⟩ := List.mem_iff_getElem?.mp hp
  obtain ⟨hlt, _⟩ := List.getElem?_eq_some_iff.mp hi
  have hone : i ≠ 0 := by
    rintro rfl
    simp [h.null] at hi
  obtain ⟨p', t, hp', ht, hindex⟩ := h.linked i (by omega) hlt
  obtain rfl : p = p' := by simpa [hi] using hp'
  exact ⟨i, t, by omega, hlt, hi, ht, hindex⟩

/-- What happens to timers outside the heap does not matter to the heap. -/
theorem Linked.frame {q q' : TimerQueue} (h : q.Linked)
    (hheap : q'.heap = q.heap)
    (hmemory : ∀ p, some p ∈ q.heap → q'.memory p = q.memory p) :
    q'.Linked := by
  refine ⟨hheap ▸ h.null, ?_⟩
  intro i hi hlt
  rw [hheap] at hlt ⊢
  obtain ⟨p, t, hp, ht, hindex⟩ := h.linked i hi hlt
  exact ⟨p, t, hp, (hmemory p (List.mem_of_getElem? hp)).trans ht, hindex⟩

theorem key_frame {q q' : TimerQueue} (hheap : q'.heap = q.heap)
    (hmemory : ∀ p, some p ∈ q.heap → q'.memory p = q.memory p) :
    q'.key = q.key := by
  funext i
  rw [key, key, slotTimer, slotTimer, hheap]
  rcases hi : q.heap[i]? with _ | _ | p
  · rfl
  · rfl
  · simp [hmemory p (List.mem_of_getElem? hi)]

theorem Ordered.frame {q q' : TimerQueue} (h : q.Ordered)
    (hheap : q'.heap = q.heap)
    (hmemory : ∀ p, some p ∈ q.heap → q'.memory p = q.memory p) :
    q'.Ordered := by
  rw [Ordered, key_frame hheap hmemory, hheap]
  exact h

theorem Consistent.frame {q q' : TimerQueue} (h : q.Consistent)
    (hheap : q'.heap = q.heap) (htimers : q'.timers = q.timers)
    (hmemory : ∀ p, some p ∈ q.heap → q'.memory p = q.memory p) :
    q'.Consistent := by
  refine ⟨h.linked.frame hheap hmemory, ?_⟩
  intro fd p
  rw [htimers, hheap, h.owned fd p]
  exact and_congr_right fun hp => by rw [hmemory p hp]

/-- A pointer cut off the heap is not in the rest. -/
theorem Linked.not_mem {q : TimerQueue} (h : q.Linked)
    {rest : List (Option Nat)} {p : Nat}
    (hrest : (rest ++ [some p]).Perm q.heap) : some p ∉ rest := by
  have hdisjoint := hrest.nodup_iff.mpr h.nodup
  rw [List.nodup_append] at hdisjoint
  exact fun hin => hdisjoint.2.2 _ hin _ (List.mem_singleton_self _) rfl

/-- Its timer can be changed without a change to the timers of the rest. -/
theorem Linked.update_cut {q : TimerQueue} (h : q.Linked)
    {rest : List (Option Nat)} {p : Nat}
    (hrest : (rest ++ [some p]).Perm q.heap) (memory : Nat → Option Timer)
    (timer : Option Timer) :
    ∀ x, some x ∈ rest → Function.update memory p timer x = memory x := by
  intro x hx
  have hne : x ≠ p := fun hxp => h.not_mem hrest (hxp ▸ hx)
  exact Function.update_of_ne hne timer memory

theorem length_cut {heap rest : List (Option Nat)} {p : Nat}
    (hrest : (rest ++ [some p]).Perm heap) : rest.length + 1 = heap.length := by
  simpa using hrest.length_eq

theorem Sifted.fd {q q' : TimerQueue} (h : Sifted q q') (p : Nat) :
    (q'.memory p).map Timer.fd = (q.memory p).map Timer.fd := by
  have hcore := congrArg (Option.map Timer.fd) (h.memory p)
  simpa [Function.comp_def, Timer.core] using hcore

theorem Sifted.none_iff {q q' : TimerQueue} (h : Sifted q q') (p : Nat) :
    q'.memory p = none ↔ q.memory p = none := by
  rw [← Option.map_eq_none_iff (f := Timer.core), h.memory p,
    Option.map_eq_none_iff]

theorem Owned.congr {q q' : TimerQueue} (h : q.Owned)
    (htimers : q'.timers = q.timers) (hheap : q'.heap.Perm q.heap)
    (hfd : ∀ p, (q'.memory p).map Timer.fd = (q.memory p).map Timer.fd) :
    q'.Owned := by
  intro fd p
  rw [htimers, hheap.mem_iff, hfd]
  exact h fd p

/-- An entry of the table is a live timer of the heap with that id. -/
theorem Consistent.entry {q : TimerQueue} (h : q.Consistent) {fd : Int}
    {p : Nat} (hp : q.timers fd = some p) : ∃ i t, 1 ≤ i ∧
      i < q.heap.length ∧ q.heap[i]? = some (some p) ∧
      q.memory p = some t ∧ t.heapIndex = (i : Int) ∧ t.fd = fd := by
  obtain ⟨hmem, hfd⟩ := (h.owned fd p).mp hp
  obtain ⟨i, t, hone, hlt, hi, ht, hindex⟩ := h.linked.live hmem
  exact ⟨i, t, hone, hlt, hi, ht, hindex, by simpa [ht] using hfd⟩

/-- A timer with a fresh id enters heap and table. -/
theorem Owned.insert {q : TimerQueue} (h : q.Owned) {p : Nat} {t : Timer}
    (ht : q.memory p = some t) (hfresh : q.timers t.fd = none) :
    Owned { q with
      heap := q.heap ++ [some p]
      timers := Function.update q.timers t.fd (some p) } := by
  intro fd x
  have hmem : some x ∈ q.heap ++ [some p] ↔ some x ∈ q.heap ∨ x = p := by simp
  dsimp only
  rw [hmem]
  rcases eq_or_ne fd t.fd with rfl | hne
  · rw [Function.update_self]
    constructor
    · intro hx
      obtain rfl : p = x := Option.some.inj hx
      exact ⟨Or.inr rfl, by simp [ht]⟩
    · rintro ⟨hx | rfl, hfd⟩
      · have hentry := (h t.fd x).mpr ⟨hx, hfd⟩
        rw [hfresh] at hentry
        cases hentry
      · rfl
  · rw [Function.update_of_ne hne, h fd x]
    constructor
    · exact fun hx => ⟨Or.inl hx.1, hx.2⟩
    · rintro ⟨hx | rfl, hfd⟩
      · exact ⟨hx, hfd⟩
      · simp [ht, hne.symm] at hfd

/-- The entry of a timer that leaves the heap is taken out of the table. -/
theorem Consistent.remove {q q' : TimerQueue} (h : q.Consistent)
    {fd : Int} {p : Nat} (hp : q.timers fd = some p)
    (htimers : q'.timers = Function.update q.timers fd none)
    (hheap : (q'.heap ++ [some p]).Perm q.heap)
    (hfd : ∀ x, x ≠ p →
      (q'.memory x).map Timer.fd = (q.memory x).map Timer.fd) :
    q'.Owned := by
  have hout : some p ∉ q'.heap := h.linked.not_mem hheap
  have hmem : ∀ x, x ≠ p → (some x ∈ q'.heap ↔ some x ∈ q.heap) := by
    intro x hx
    rw [← hheap.mem_iff]
    simp [hx]
  intro fd' x
  rw [htimers]
  rcases eq_or_ne fd' fd with rfl | hne
  · rw [Function.update_self]
    constructor
    · intro hnone
      cases hnone
    · rintro ⟨hin, hx⟩
      have hxp : x ≠ p := fun hxp => hout (hxp ▸ hin)
      have hentry := (h.owned fd' x).mpr ⟨(hmem x hxp).mp hin, hfd x hxp ▸ hx⟩
      rw [hp] at hentry
      exact absurd (Option.some.inj hentry).symm hxp
  · rw [Function.update_of_ne hne, h.owned fd' x]
    rcases eq_or_ne x p with rfl | hxp
    · constructor
      · rintro ⟨_, hx⟩
        have hfd' := ((h.owned fd x).mp hp).2
        rw [hx] at hfd'
        exact absurd (Option.some.inj hfd') hne
      · rintro ⟨hin, _⟩
        exact absurd hin hout
    · rw [hmem x hxp, hfd x hxp]

/-- Under a fresh id, `addTimer` puts the timer into heap and table. -/
theorem addTimer_spec {q : TimerQueue} (h : q.Consistent)
    (hroom : q.heap.length < 2 ^ 31) {p : Nat} {t : Timer}
    (ht : q.memory p = some t) (hp : some p ∉ q.heap)
    (hfresh : q.timers t.fd = none) :
    ∃ q', q.addTimer p = some q' ∧ q'.Consistent ∧
      Sifted { q with
        heap := q.heap ++ [some p]
        timers := Function.update q.timers t.fd (some p) } q' ∧
      (q.Ordered → q'.Ordered) := by
  obtain ⟨q₁, hrun, hlinked, hsifted, horder⟩ :=
    heapInsert_spec h.linked hroom ht hp
  obtain ⟨t₁, ht₁, hfd⟩ : ∃ t₁, q₁.memory p = some t₁ ∧ t₁.fd = t.fd := by
    simpa [ht] using hsifted.fd p
  have htimers : q₁.timers = q.timers := hsifted.timers
  let q' : TimerQueue :=
    { q₁ with timers := Function.update q₁.timers t.fd (some p) }
  have hsifted' : Sifted { q with
      heap := q.heap ++ [some p]
      timers := Function.update q.timers t.fd (some p) } q' :=
    ⟨hsifted.counter, by rw [← htimers], hsifted.next, hsifted.heap,
      hsifted.memory⟩
  refine ⟨q', ?_, ⟨⟨hlinked.null, hlinked.linked⟩, ?_⟩, hsifted', ?_⟩
  · have hnone : q₁.timers t.fd = none := by rw [htimers, hfresh]
    simp [addTimer, hrun, ht₁, hfd, reset, hnone, q']
  · exact (h.owned.insert ht hfresh).congr hsifted'.timers hsifted'.heap
      hsifted'.fd
  · intro hq
    have hlen : q'.heap.length = q.heap.length + 1 := by
      simpa using hsifted.length
    unfold Ordered
    rw [hlen]
    exact horder hq

/-- With `2 ^ 31` slots in use the new timer does not know its slot. -/
theorem addTimer_full {q : TimerQueue} (hfull : q.heap.length = 2 ^ 31)
    {p : Nat} {t : Timer} (ht : q.memory p = some t)
    (hfresh : q.timers t.fd = none) :
    ∃ q', q.addTimer p = some q' ∧ ¬q'.Linked := by
  let q' : TimerQueue := { q with
    heap := q.heap ++ [some p]
    memory := Function.update q.memory p
      (some { t with heapIndex := -2 ^ 31 })
    timers := Function.update q.timers t.fd (some p) }
  refine ⟨q', ?_, fun hlinked => ?_⟩
  · simp [addTimer, heapInsert_full hfull ht, reset, hfresh, q']
  · have hlast : q'.heap[q.heap.length]? = some (some p) := by simp [q']
    have hmemory : q'.memory p = some { t with heapIndex := -2 ^ 31 } := by
      simp [q']
    obtain ⟨p', t', hp', ht', hindex⟩ :=
      hlinked.linked q.heap.length (by omega) (by simp [q'])
    obtain rfl : p = p' := by simpa [hlast] using hp'
    obtain rfl : { t with heapIndex := -2 ^ 31 } = t' :=
      Option.some.inj (hmemory.symm.trans ht')
    simp only at hindex
    omega

/-- Of an id that is not in use, `cancelTimer` does nothing. -/
theorem cancelTimer_of_none {q : TimerQueue} {fd : Int}
    (h : q.timers fd = none) : q.cancelTimer fd = some q := by
  simp [cancelTimer, h]

/-- The last timer of the heap is not due before the parent of the slot that
the timer `p` leaves. -/
def Fits (q : TimerQueue) (p : Nat) : Prop :=
  ∀ i, q.heap[i]? = some (some p) → 2 ≤ i →
    q.key (i / 2) ≤ q.key (q.heap.length - 1)

/-- `cancelTimer` takes the timer with the id out of heap and table and deletes
it.  It keeps the order exactly when the last timer fits. -/
theorem cancelTimer_spec {q : TimerQueue} (h : q.Consistent)
    (hroom : q.heap.length < 2 ^ 31) {fd : Int} {p : Nat}
    (hp : q.timers fd = some p) :
    ∃ q', q.cancelTimer fd = some q' ∧ q'.Consistent ∧
      q'.memory p = none ∧
      Sifted { q with
        timers := Function.update q.timers fd none
        memory := Function.update q.memory p none }
        { q' with heap := q'.heap ++ [some p] } ∧
      (q.Ordered → (q'.Ordered ↔ q.Fits p)) := by
  obtain ⟨i, t, hone, hlt, hi, ht, hindex, hfd⟩ := h.entry hp
  obtain ⟨p', q₁, hi', hrun, hlinked, hsifted, horder⟩ :=
    heapDelete_spec h.linked hroom hone hlt
  obtain rfl : p = p' := by simpa [hi] using hi'
  obtain ⟨t₁, ht₁, _⟩ : ∃ t₁, q₁.memory p = some t₁ ∧ t₁.fd = t.fd := by
    simpa [ht] using hsifted.fd p
  have htimers : q₁.timers = q.timers := hsifted.timers
  let q' : TimerQueue := { q₁ with
    timers := Function.update q₁.timers fd none
    memory := Function.update q₁.memory p none }
  have hheap : (q'.heap ++ [some p]).Perm q.heap := hsifted.heap
  have hframe : ∀ x, some x ∈ q₁.heap → q'.memory x = q₁.memory x :=
    h.linked.update_cut hheap q₁.memory none
  have hsifted' : Sifted { q with
      timers := Function.update q.timers fd none
      memory := Function.update q.memory p none }
      { q' with heap := q'.heap ++ [some p] } := by
    refine ⟨hsifted.counter, by simp [q', htimers], hsifted.next, hheap, ?_⟩
    intro x
    rcases eq_or_ne x p with rfl | hne
    · simp [q']
    · simpa [q', hne] using hsifted.memory x
  have howned : q'.Owned := by
    apply h.remove hp (by simp [q', htimers]) hheap
    intro x hx
    simpa [hx] using hsifted'.fd x
  refine ⟨q', ?_, ⟨hlinked.frame rfl hframe, howned⟩, by simp [q'], hsifted',
    ?_⟩
  · have hentry : q₁.timers fd = some p := by rw [htimers, hp]
    simp [cancelTimer, hp, ht, hindex, hrun, erase, hentry, delete, ht₁, q']
  · intro hq
    have hlen : q'.heap.length = q.heap.length - 1 :=
      Nat.eq_sub_of_add_eq (length_cut hheap)
    have hkey : q'.key = q₁.key := key_frame rfl hframe
    rw [Ordered, hlen, hkey, horder hq]
    constructor
    · intro hfits j hj
      obtain rfl : i = j := h.linked.inj hi hj
      exact hfits
    · exact fun hfits => hfits i hi

/-- `heapPop` with a known timer in slot 1. -/
theorem heapPop_root {q : TimerQueue} (h : q.Linked)
    (hroom : q.heap.length < 2 ^ 31) {p : Nat} {t : Timer}
    (hp : q.heap[1]? = some (some p)) (ht : q.memory p = some t) :
    ∃ q' t', q.heapPop = some (some p, q') ∧ q'.memory p = some t' ∧
      t'.core = t.core ∧ q'.Linked ∧
      Sifted q { q' with heap := q'.heap ++ [some p] } ∧
      (HeapOrdered q.heap.length q.key →
        HeapOrdered (q.heap.length - 1) q'.key) := by
  have hlt : 1 < q.heap.length := (List.getElem?_eq_some_iff.mp hp).1
  obtain ⟨p', q', hp', hrun, hlinked, hsifted, horder⟩ :=
    heapPop_spec h hroom hlt
  obtain rfl : p = p' := by simpa [hp] using hp'
  obtain ⟨t', ht', hcore⟩ : ∃ t', q'.memory p = some t' ∧
      t'.core = t.core := by
    simpa [ht] using hsifted.memory p
  exact ⟨q', t', hrun, ht', hcore, hlinked, hsifted, horder⟩

/-- A one-shot timer leaves heap and table and is kept by `ptr`. -/
theorem popTimer_once {q : TimerQueue} (h : q.Consistent)
    (hroom : q.heap.length < 2 ^ 31) {p : Nat} {t : Timer}
    (hp : q.heap[1]? = some (some p)) (ht : q.memory p = some t)
    (honce : t.repeated = false) (now : Int) :
    ∃ q', q.popTimer now = some (some p, q') ∧ q'.Consistent ∧
      Sifted { q with timers := Function.update q.timers t.fd none }
        { q' with heap := q'.heap ++ [some p] } ∧
      (q.Ordered → q'.Ordered) := by
  have hentry : q.timers t.fd = some p :=
    (h.owned t.fd p).mpr ⟨List.mem_of_getElem? hp, by simp [ht]⟩
  obtain ⟨q₁, t₁, hrun, ht₁, hcore, hlinked, hsifted, horder⟩ :=
    heapPop_root h.linked hroom hp ht
  obtain ⟨hfd, _, _, hrepeated⟩ := Timer.core_eq hcore
  have honce₁ : t₁.repeated = false := hrepeated.trans honce
  have htimers : q₁.timers = q.timers := hsifted.timers
  let q' : TimerQueue :=
    { q₁ with timers := Function.update q₁.timers t.fd none }
  have hheap : (q'.heap ++ [some p]).Perm q.heap := hsifted.heap
  have howned : q'.Owned :=
    h.remove hentry (by simp [q', htimers]) hheap fun x _ => hsifted.fd x
  refine ⟨q', ?_, ⟨hlinked.frame rfl fun _ _ => rfl, howned⟩,
    ⟨hsifted.counter, by simp [q', htimers], hsifted.next, hheap,
      hsifted.memory⟩, ?_⟩
  · simp [popTimer, hrun, ht₁, honce₁, hfd, htimers, hentry, q']
  · intro hq
    have hlen : q'.heap.length = q.heap.length - 1 :=
      Nat.eq_sub_of_add_eq (length_cut hheap)
    rw [Ordered, hlen]
    exact horder hq

/-- A repeated timer stays, with a new timestamp. -/
theorem popTimer_repeated {q : TimerQueue} (h : q.Consistent)
    (hroom : q.heap.length < 2 ^ 31) {p : Nat} {t : Timer}
    (hp : q.heap[1]? = some (some p)) (ht : q.memory p = some t)
    (hrepeated : t.repeated = true) (now : Int) :
    ∃ q', q.popTimer now = some (none, q') ∧ q'.Consistent ∧
      Sifted { q with
        memory := Function.update q.memory p
          (some { t with timestamp := toLong (now + t.interval) }) } q' ∧
      (q.Ordered → q'.Ordered) := by
  obtain ⟨q₁, t₁, hrun, ht₁, hcore, hlinked, hsifted, horder⟩ :=
    heapPop_root h.linked hroom hp ht
  obtain ⟨hfd, hinterval, _, hsame⟩ := Timer.core_eq hcore
  have hrepeated₁ : t₁.repeated = true := hsame.trans hrepeated
  have hheap : (q₁.heap ++ [some p]).Perm q.heap := hsifted.heap
  have hout : some p ∉ q₁.heap := h.linked.not_mem hheap
  have hlen : q₁.heap.length + 1 = q.heap.length := length_cut hheap
  let t₂ : Timer := { t₁ with timestamp := toLong (now + t₁.interval) }
  let q₂ : TimerQueue :=
    { q₁ with memory := Function.update q₁.memory p (some t₂) }
  have hframe : ∀ x, some x ∈ q₁.heap → q₂.memory x = q₁.memory x :=
    h.linked.update_cut hheap q₁.memory (some t₂)
  obtain ⟨q', hrun', hlinked', hsifted', horder'⟩ :=
    heapInsert_spec (q := q₂) (hlinked.frame rfl hframe)
      (show q₁.heap.length < 2 ^ 31 by omega) (p := p) (t := t₂)
      (by simp [q₂]) hout
  have hresult : Sifted { q with
      memory := Function.update q.memory p
        (some { t with timestamp := toLong (now + t.interval) }) } q' := by
    refine ⟨hsifted'.counter.trans hsifted.counter,
      hsifted'.timers.trans hsifted.timers, hsifted'.next.trans hsifted.next,
      hsifted'.heap.trans hheap, fun x => (hsifted'.memory x).trans ?_⟩
    rcases eq_or_ne x p with rfl | hne
    · simp [q₂, t₂, Timer.core, hfd, hinterval, hsame]
    · simpa [q₂, hne] using hsifted.memory x
  refine ⟨q', ?_, ⟨hlinked', ?_⟩, hresult, ?_⟩
  · simp only [popTimer, hrun, ht₁, Option.bind_eq_bind, Option.bind_some]
    rw [if_neg (by simp [hrepeated₁])]
    exact congrArg (fun r => Option.bind r fun q => some (none, q)) hrun'
  · apply h.owned.congr hresult.timers hresult.heap
    intro x
    rw [hresult.fd]
    rcases eq_or_ne x p with rfl | hne
    · simp [ht]
    · simp [hne]
  · intro hq
    have hq₁ : HeapOrdered q₁.heap.length q₁.key := by
      have hcut := horder hq
      rwa [← hlen] at hcut
    have hkey : q₂.key = q₁.key := key_frame rfl hframe
    rw [Ordered, hresult.length]
    simp only [← hlen]
    exact horder' (hkey ▸ hq₁)

end TimerQueue

end Libsaf
