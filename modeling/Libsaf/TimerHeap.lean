/-
The heap of `saf::TimerQueue`: the vector `_heap` of timer pointers, whose
slot 0 is never used, and the back pointer `_heapIndex` in every timer.  An
access out of range, through a null pointer or to a deleted timer is a fault.
Positions are `int` and sizes `size_t`, with the conversions of the source.
-/
import Libsaf.HeapOrder
import Libsaf.MachineInt
import Mathlib.Logic.Function.Basic
import Mathlib.Data.List.Basic
import Mathlib.Data.List.Perm.Basic
import Mathlib.Data.Int.Order.Basic

namespace Libsaf

/-- The callback is left out: it stands for the steps of the environment while
the timer fires. -/
structure Timer where
  fd : Int
  interval : Int
  timestamp : Int
  repeated : Bool
  heapIndex : Int
deriving Repr, DecidableEq

/-- What the heap routines never change. -/
def Timer.core (t : Timer) : Timer := { t with heapIndex := 0 }

theorem Timer.core_eq {s t : Timer} (h : s.core = t.core) :
    s.fd = t.fd ∧ s.interval = t.interval ∧ s.timestamp = t.timestamp ∧
      s.repeated = t.repeated := by
  simpa [core] using h

/-- Pointers are addresses, `none` for null.  `memory` holds the timers that
are allocated and not deleted; addresses from `next` on were never used.  Of an
entry of `_timers` the pointer is kept. -/
structure TimerQueue where
  counter : Int
  heap : List (Option Nat)
  timers : Int → Option Nat
  memory : Nat → Option Timer
  next : Nat

namespace TimerQueue

def FirstItem : Int := 1

/-- The timer behind the pointer in slot `i`. -/
def slotTimer (q : TimerQueue) (i : Nat) : Option Timer :=
  (q.heap[i]?).join.bind q.memory

/-- `*_heap[pos]`. -/
def timerAt (q : TimerQueue) (pos : Int) : Option Timer :=
  q.slotTimer (toSize pos)

/-- `timer->setHeapIndex(index)`. -/
def setHeapIndex (q : TimerQueue) (timer : Nat) (index : Int) :
    Option TimerQueue := do
  let t ← q.memory timer
  some { q with
    memory := Function.update q.memory timer
      (some { t with heapIndex := index }) }

def heapSwap (q : TimerQueue) (posA posB : Int) : Option TimerQueue := do
  let a ← q.heap[toSize posA]?
  let b ← q.heap[toSize posB]?
  let q := { q with heap := (q.heap.set (toSize posA) b).set (toSize posB) a }
  let q ← q.setHeapIndex (← (← q.heap[toSize posA]?)) posA
  q.setHeapIndex (← (← q.heap[toSize posB]?)) posB

/-- The loop of `heapUp`; `none` when the fuel is used up. -/
def heapUpLoop : Nat → TimerQueue → Int → Option TimerQueue
  | 0, _, _ => none
  | fuel + 1, q, pos =>
      if pos > 1 then do
        let parent := pos / 2
        let above ← q.timerAt parent
        let timer ← q.timerAt pos
        if above.timestamp > timer.timestamp then
          heapUpLoop fuel (← q.heapSwap pos parent) parent
        else
          some q
      else
        some q

def heapUp (q : TimerQueue) (pos : Int) : Option TimerQueue :=
  heapUpLoop (q.heap.length + 1) q pos

/-- `a` if its timer is due before that of `target`, else `target`. -/
def earlier (q : TimerQueue) (a target : Int) : Option Int := do
  let s ← q.timerAt a
  let t ← q.timerAt target
  some (if s.timestamp < t.timestamp then a else target)

/-- `target` of `heapDown` after its two comparisons. -/
def downTarget (q : TimerQueue) (pos left right : Int) : Option Int := do
  let target ← q.earlier left pos
  if toSize right < q.heap.length then q.earlier right target
  else some target

/-- The loop of `heapDown`; `none` when the fuel is used up. -/
def heapDownLoop : Nat → TimerQueue → Int → Option TimerQueue
  | 0, _, _ => none
  | fuel + 1, q, pos =>
      let left := toInt (pos * 2)
      -- `left | 1` of an even `left`
      let right := left + 1
      if toSize left ≥ q.heap.length then
        some q
      else do
        let target ← q.downTarget pos left right
        if pos ≠ target then
          heapDownLoop fuel (← q.heapSwap pos target) target
        else
          some q

def heapDown (q : TimerQueue) (pos : Int) : Option TimerQueue :=
  heapDownLoop (q.heap.length + 1) q pos

/-- `(int)_heap.size() - 1`; the difference must not overflow. -/
def lastIndex (q : TimerQueue) : Option Int :=
  let size := toInt q.heap.length
  if -2 ^ 31 ≤ size - 1 then some (size - 1) else none

def heapInsert (q : TimerQueue) (timer : Nat) : Option TimerQueue := do
  let index := toInt q.heap.length
  let q := { q with heap := q.heap ++ [some timer] }
  let q ← q.setHeapIndex timer index
  q.heapUp index

def heapPop (q : TimerQueue) : Option (Option Nat × TimerQueue) :=
  if q.heap.length ≤ toSize FirstItem then
    some (none, q)
  else do
    let q ← q.heapSwap FirstItem (← q.lastIndex)
    let timer ← q.heap.getLast?
    let q := { q with heap := q.heap.dropLast }
    let q ← q.heapDown FirstItem
    some (timer, q)

def heapDelete (q : TimerQueue) (pos : Int) : Option (Bool × TimerQueue) :=
  if pos ≤ 0 ∨ toSize pos ≥ q.heap.length then
    some (false, q)
  else do
    let q ← q.heapSwap pos (← q.lastIndex)
    let q := { q with heap := q.heap.dropLast }
    let q ← q.heapDown pos
    some (true, q)

/-- Slot 0 is null, and every other slot points to a timer that knows its
position. -/
structure Linked (q : TimerQueue) : Prop where
  null : q.heap[0]? = some none
  linked : ∀ i, 1 ≤ i → i < q.heap.length → ∃ p t,
    q.heap[i]? = some (some p) ∧ q.memory p = some t ∧ t.heapIndex = i

/-- The heap holds the same pointers, and the timers differ in their heap
index only. -/
structure Sifted (q q' : TimerQueue) : Prop where
  counter : q'.counter = q.counter
  timers : q'.timers = q.timers
  next : q'.next = q.next
  heap : q'.heap.Perm q.heap
  memory : ∀ p, (q'.memory p).map Timer.core = (q.memory p).map Timer.core

theorem Sifted.refl (q : TimerQueue) : Sifted q q :=
  ⟨rfl, rfl, rfl, List.Perm.refl _, fun _ => rfl⟩

theorem Sifted.trans {q q' q'' : TimerQueue} (h : Sifted q q')
    (h' : Sifted q' q'') : Sifted q q'' where
  counter := h'.counter.trans h.counter
  timers := h'.timers.trans h.timers
  next := h'.next.trans h.next
  heap := h'.heap.trans h.heap
  memory p := (h'.memory p).trans (h.memory p)

theorem Sifted.length {q q' : TimerQueue} (h : Sifted q q') :
    q'.heap.length = q.heap.length :=
  h.heap.length_eq

/-- The timestamps along the heap. -/
def key (q : TimerQueue) (i : Nat) : Int :=
  (q.slotTimer i).elim 0 Timer.timestamp

theorem timerAt_natCast (q : TimerQueue) {i : Nat} (hi : i < 2 ^ 64) :
    q.timerAt i = q.slotTimer i := by
  rw [timerAt, toSize_natCast hi]

theorem Linked.nonempty {q : TimerQueue} (h : q.Linked) :
    0 < q.heap.length := by
  by_contra hzero
  have hnull := h.null
  rw [List.getElem?_eq_none (by omega)] at hnull
  cases hnull

/-- A pointer occurs in one slot only. -/
theorem Linked.inj {q : TimerQueue} (h : q.Linked) {i j p : Nat}
    (hi : q.heap[i]? = some (some p)) (hj : q.heap[j]? = some (some p)) :
    i = j := by
  have hslot : ∀ {i : Nat}, q.heap[i]? = some (some p) →
      (q.memory p).map Timer.heapIndex = some (i : Int) := by
    intro i hi
    have hone : i ≠ 0 := by
      rintro rfl
      simp [h.null] at hi
    obtain ⟨hlt, _⟩ := List.getElem?_eq_some_iff.mp hi
    obtain ⟨p', t, hp', ht, hindex⟩ := h.linked i (by omega) hlt
    obtain rfl : p = p' := by simpa [hi] using hp'
    simp [ht, hindex]
  have hij := (hslot hi).symm.trans (hslot hj)
  exact Int.ofNat.inj (Option.some.inj hij)

theorem Linked.slotTimer {q : TimerQueue} (h : q.Linked) {i : Nat}
    (hone : 1 ≤ i) (hlt : i < q.heap.length) :
    ∃ t, q.slotTimer i = some t ∧ t.timestamp = q.key i := by
  obtain ⟨p, t, hp, ht, _⟩ := h.linked i hone hlt
  have hslot : q.slotTimer i = some t := by
    simp [TimerQueue.slotTimer, hp, ht]
  exact ⟨t, hslot, by simp [key, hslot]⟩

theorem setHeapIndex_eq {q : TimerQueue} {p : Nat} {t : Timer}
    (h : q.memory p = some t) (i : Int) :
    q.setHeapIndex p i = some { q with
      memory := Function.update q.memory p
        (some { t with heapIndex := i }) } := by
  simp [setHeapIndex, h]

theorem update_core {memory : Nat → Option Timer} {p : Nat} {t : Timer}
    (h : memory p = some t) (i : Int) (x : Nat) :
    (Function.update memory p (some { t with heapIndex := i }) x).map
      Timer.core = (memory x).map Timer.core := by
  rcases eq_or_ne x p with rfl | hne
  · simp [h, Timer.core]
  · simp [hne]

/-- The key of a slot is read from what sifting keeps. -/
theorem key_eq {q q' : TimerQueue} {i j : Nat}
    (hmemory : ∀ p, (q'.memory p).map Timer.core = (q.memory p).map Timer.core)
    (hslot : q'.heap[i]? = q.heap[j]?) : q'.key i = q.key j := by
  have hkey : ∀ (q : TimerQueue) (i : Nat), q.key i =
      ((q.heap[i]?).join.bind fun p => (q.memory p).map Timer.core).elim 0
        Timer.timestamp := by
    intro q i
    unfold key TimerQueue.slotTimer
    cases (q.heap[i]?).join with
    | none => rfl
    | some p =>
        cases hp : q.memory p with
        | none => simp [hp]
        | some t => simp [hp, Timer.core]
  rw [hkey, hkey, hslot]
  simp only [hmemory]

theorem getElem?_set_set {α : Type} {l : List α} {a b : Nat} {x y : α}
    (ha : l[a]? = some x) (hb : l[b]? = some y) (i : Nat) :
    ((l.set a y).set b x)[i]? = l[Equiv.swap a b i]? := by
  obtain ⟨halt, _⟩ := List.getElem?_eq_some_iff.mp ha
  obtain ⟨hblt, _⟩ := List.getElem?_eq_some_iff.mp hb
  rcases eq_or_ne i b with rfl | hib
  · simp [hblt, ha]
  · rw [List.getElem?_set_ne hib.symm]
    rcases eq_or_ne i a with rfl | hia
    · simp [halt, hb]
    · rw [List.getElem?_set_ne hia.symm, Equiv.swap_apply_of_ne_of_ne hia hib]

/-- What a swap of the slots `a` and `b`, which hold `pa` and `pb`, does. -/
structure Swapped (q q' : TimerQueue) (a b pa pb : Nat) : Prop where
  sifted : Sifted q q'
  slots : ∀ i, q'.heap[i]? = q.heap[Equiv.swap a b i]?
  here : ∃ t, q'.memory pa = some t ∧ t.heapIndex = b
  there : pb ≠ pa → ∃ t, q'.memory pb = some t ∧ t.heapIndex = a
  others : ∀ p, p ≠ pa → p ≠ pb → q'.memory p = q.memory p

theorem heapSwap_eq {q : TimerQueue} (hsmall : q.heap.length ≤ 2 ^ 31)
    {a b pa pb : Nat} {ta tb : Timer} (hpa : q.heap[a]? = some (some pa))
    (hta : q.memory pa = some ta) (hpb : q.heap[b]? = some (some pb))
    (htb : q.memory pb = some tb) :
    ∃ q', q.heapSwap a b = some q' ∧ Swapped q q' a b pa pb := by
  obtain ⟨halt, hgeta⟩ := List.getElem?_eq_some_iff.mp hpa
  obtain ⟨hblt, hgetb⟩ := List.getElem?_eq_some_iff.mp hpb
  obtain ⟨heap, hset⟩ :
      ∃ heap, (q.heap.set a (some pb)).set b (some pa) = heap := ⟨_, rfl⟩
  have hheap : ∀ i, heap[i]? = q.heap[Equiv.swap a b i]? :=
    fun i => hset ▸ getElem?_set_set hpa hpb i
  let memory := Function.update q.memory pb (some { tb with heapIndex := a })
  have hmemory : ∀ p, (memory p).map Timer.core =
      (q.memory p).map Timer.core := update_core htb a
  obtain ⟨ta', hta', _⟩ : ∃ t, memory pa = some t ∧
      Timer.core t = Timer.core ta := by
    simpa [hta] using hmemory pa
  let memory' := Function.update memory pa (some { ta' with heapIndex := b })
  refine ⟨{ q with heap := heap, memory := memory' }, ?_,
    ⟨⟨rfl, rfl, rfl, ?_, fun p => (update_core hta' b p).trans (hmemory p)⟩,
      hheap, ⟨{ ta' with heapIndex := b }, by simp [memory'], rfl⟩, ?_, ?_⟩⟩
  · have hga : heap[a]? = some (some pb) := by rw [hheap]; simpa using hpb
    have hgb : heap[b]? = some (some pa) := by rw [hheap]; simpa using hpa
    have hfirst : setHeapIndex { q with heap := heap } pb a =
        some { q with heap := heap, memory := memory } :=
      setHeapIndex_eq (q := { q with heap := heap }) htb a
    have hsecond : setHeapIndex { q with heap := heap, memory := memory } pa b =
        some { q with heap := heap, memory := memory' } :=
      setHeapIndex_eq (q := { q with heap := heap, memory := memory }) hta' b
    simp only [heapSwap, toSize_natCast (show a < 2 ^ 64 by omega),
      toSize_natCast (show b < 2 ^ 64 by omega), hpa, hpb, hset, hga, hgb,
      Option.bind_eq_bind, Option.bind_some, hfirst, hsecond]
  · have hswap := List.set_set_perm halt hblt
    rwa [hgeta, hgetb, hset] at hswap
  · intro hne
    exact ⟨{ tb with heapIndex := a }, by simp [memory', memory, hne], rfl⟩
  · intro p hnea hneb
    simp [memory', memory, hnea, hneb]

theorem Swapped.linked {q q' : TimerQueue} {a b pa pb : Nat}
    (hswap : Swapped q q' a b pa pb) (h : q.Linked) (ha : 1 ≤ a) (hb : 1 ≤ b)
    (hpa : q.heap[a]? = some (some pa)) (hpb : q.heap[b]? = some (some pb)) :
    q'.Linked := by
  refine ⟨?_, ?_⟩
  · rw [hswap.slots, Equiv.swap_apply_of_ne_of_ne (by omega) (by omega)]
    exact h.null
  · intro i hi hlt
    rw [hswap.sifted.length] at hlt
    rw [hswap.slots]
    rcases eq_or_ne i b with rfl | hib
    · obtain ⟨t, ht, hindex⟩ := hswap.here
      exact ⟨pa, t, by simpa using hpa, ht, hindex⟩
    · rcases eq_or_ne i a with rfl | hia
      · have hne : pb ≠ pa := by
          rintro rfl
          exact hib (h.inj hpa hpb)
        obtain ⟨t, ht, hindex⟩ := hswap.there hne
        exact ⟨pb, t, by simpa using hpb, ht, hindex⟩
      · obtain ⟨p, t, hp, ht, hindex⟩ := h.linked i hi hlt
        rw [Equiv.swap_apply_of_ne_of_ne hia hib]
        have hne : ∀ {j p'}, i ≠ j → q.heap[j]? = some (some p') → p ≠ p' := by
          rintro j p' hij hp' rfl
          exact hij (h.inj hp hp')
        have hsame := hswap.others p (hne hia hpa) (hne hib hpb)
        exact ⟨p, t, hp, hsame.trans ht, hindex⟩

/-- A swap of two slots in use exchanges the pointers and the keys. -/
theorem heapSwap_spec {q : TimerQueue} (h : q.Linked)
    (hsmall : q.heap.length ≤ 2 ^ 31) {a b : Nat}
    (ha : 1 ≤ a) (halt : a < q.heap.length)
    (hb : 1 ≤ b) (hblt : b < q.heap.length) :
    ∃ q', q.heapSwap a b = some q' ∧ q'.Linked ∧ Sifted q q' ∧
      q'.key = swapKeys q.key a b ∧
      ∀ i, q'.heap[i]? = q.heap[Equiv.swap a b i]? := by
  obtain ⟨pa, ta, hpa, hta, _⟩ := h.linked a ha halt
  obtain ⟨pb, tb, hpb, htb, _⟩ := h.linked b hb hblt
  obtain ⟨q', hrun, hswap⟩ := heapSwap_eq hsmall hpa hta hpb htb
  refine ⟨q', hrun, hswap.linked h ha hb hpa hpb, hswap.sifted, ?_,
    hswap.slots⟩
  funext i
  exact key_eq hswap.sifted.memory (hswap.slots i)

theorem heapUpLoop_spec {fuel : Nat} {q : TimerQueue} {pos : Nat}
    (h : q.Linked) (hsmall : q.heap.length ≤ 2 ^ 31) (hpos : 1 ≤ pos)
    (hlt : pos < q.heap.length) (hfuel : pos < fuel) :
    ∃ q', heapUpLoop fuel q pos = some q' ∧ q'.Linked ∧ Sifted q q' ∧
      (UpOrdered q.heap.length q.key pos →
        HeapOrdered q.heap.length q'.key) := by
  induction fuel generalizing q pos with
  | zero => omega
  | succ fuel ih =>
      rcases Nat.lt_or_ge 1 pos with hup | hroot
      · obtain ⟨above, habove, hkabove⟩ :=
          h.slotTimer (i := pos / 2) (by omega) (by omega)
        obtain ⟨t, ht, hkt⟩ := h.slotTimer hpos hlt
        have hstep : heapUpLoop (fuel + 1) q pos =
            if q.key (pos / 2) > q.key pos then
              (q.heapSwap pos (pos / 2 : Nat)).bind fun q =>
                heapUpLoop fuel q (pos / 2 : Nat)
            else some q := by
          have hparent : (pos : Int) / 2 = (pos / 2 : Nat) := by omega
          have hpos' : (pos : Int) > 1 := by omega
          simp only [heapUpLoop, if_pos hpos', hparent,
            q.timerAt_natCast (show pos < 2 ^ 64 by omega),
            q.timerAt_natCast (show pos / 2 < 2 ^ 64 by omega), habove, ht,
            hkabove, hkt, Option.bind_eq_bind, Option.bind_some]
        rw [hstep]
        by_cases hswap : q.key (pos / 2) > q.key pos
        · rw [if_pos hswap]
          obtain ⟨q₁, hrun₁, hlinked₁, hsifted₁, hkey₁, _⟩ :=
            heapSwap_spec h hsmall hpos hlt (b := pos / 2) (by omega) (by omega)
          have hlen : q₁.heap.length = q.heap.length := hsifted₁.length
          obtain ⟨q', hrun, hlinked, hsifted, horder⟩ :=
            ih hlinked₁ (by omega) (show 1 ≤ pos / 2 by omega) (by omega)
              (by omega)
          refine ⟨q', by rw [hrun₁]; exact hrun, hlinked,
            hsifted₁.trans hsifted, fun hq => ?_⟩
          rw [hlen, hkey₁] at horder
          exact horder (hq.move hup hlt hswap)
        · rw [if_neg hswap]
          exact ⟨q, rfl, h, Sifted.refl q,
            fun hq => hq.finish fun _ => not_lt.mp hswap⟩
      · refine ⟨q, ?_, h, Sifted.refl q, fun hq => hq.finish (by omega)⟩
        simp only [heapUpLoop]
        rw [if_neg (by omega)]

theorem earlier_spec {q : TimerQueue} (h : q.Linked)
    (hsmall : q.heap.length ≤ 2 ^ 31) {a b : Nat}
    (ha : 1 ≤ a) (halt : a < q.heap.length)
    (hb : 1 ≤ b) (hblt : b < q.heap.length) :
    q.earlier a b = some ((if q.key a < q.key b then a else b : Nat) : Int) := by
  obtain ⟨s, hs, hks⟩ := h.slotTimer ha halt
  obtain ⟨t, ht, hkt⟩ := h.slotTimer hb hblt
  simp only [earlier, q.timerAt_natCast (show a < 2 ^ 64 by omega),
    q.timerAt_natCast (show b < 2 ^ 64 by omega), hs, ht, hks, hkt,
    Option.bind_eq_bind, Option.bind_some]
  split <;> rfl

/-- The target is the slot itself when no child is due before it, and else the
child due first. -/
theorem downTarget_spec {q : TimerQueue} (h : q.Linked)
    (hsmall : q.heap.length ≤ 2 ^ 31) {pos : Nat} (hpos : 1 ≤ pos)
    (hleft : pos * 2 < q.heap.length) :
    ∃ target : Nat,
      q.downTarget pos (pos * 2 : Nat) (pos * 2 + 1 : Nat) =
        some (target : Int) ∧
      (∀ i, i < q.heap.length → i / 2 = pos → q.key target ≤ q.key i) ∧
      (target = pos ∨ target / 2 = pos ∧ target < q.heap.length ∧
        q.key target < q.key pos) := by
  have hchildren : ∀ i, i / 2 = pos → i = pos * 2 ∨ i = pos * 2 + 1 := by
    intro i hi
    omega
  obtain ⟨first, hfirst⟩ : ∃ first,
      (if q.key (pos * 2) < q.key pos then pos * 2 else pos) = first :=
    ⟨_, rfl⟩
  have hchoice : q.key first ≤ q.key (pos * 2) ∧
      (first = pos ∨ first = pos * 2 ∧ q.key (pos * 2) < q.key pos) := by
    grind
  have hfirstlt : 1 ≤ first ∧ first < q.heap.length := by omega
  unfold downTarget
  rw [earlier_spec h hsmall (by omega) hleft hpos (by omega), hfirst,
    toSize_natCast (show pos * 2 + 1 < 2 ^ 64 by omega)]
  by_cases hright : pos * 2 + 1 < q.heap.length
  · refine ⟨if q.key (pos * 2 + 1) < q.key first then pos * 2 + 1 else first,
      ?_, ?_, ?_⟩
    · rw [Option.bind_eq_bind, Option.bind_some, if_pos hright,
        earlier_spec h hsmall (by omega) hright hfirstlt.1 hfirstlt.2]
    · intro i hi hparent
      rcases hchildren i hparent with rfl | rfl <;> split <;> grind
    · split <;> grind
  · refine ⟨first, ?_, ?_, ?_⟩
    · rw [Option.bind_eq_bind, Option.bind_some, if_neg hright]
    · intro i hi hparent
      obtain rfl : i = pos * 2 := by grind
      exact hchoice.1
    · grind

/-- One round of `heapDown` at a slot that has a child. -/
theorem heapDownLoop_succ {q : TimerQueue} {pos target : Nat}
    (hlt : pos * 2 < 2 ^ 31) (hleft : pos * 2 < q.heap.length)
    (htarget : q.downTarget pos (pos * 2 : Nat) (pos * 2 + 1 : Nat) =
      some (target : Int)) (fuel : Nat) :
    heapDownLoop (fuel + 1) q pos =
      if pos ≠ target then
        (q.heapSwap pos target).bind fun q => heapDownLoop fuel q target
      else some q := by
  have hleftInt : toInt ((pos : Int) * 2) = (pos * 2 : Nat) := by
    rw [← toInt_natCast hlt]
    simp
  have hrightInt : ((pos * 2 : Nat) : Int) + 1 = (pos * 2 + 1 : Nat) := by simp
  simp only [heapDownLoop, hleftInt, hrightInt,
    toSize_natCast (show pos * 2 < 2 ^ 64 by omega)]
  rw [if_neg (by omega), htarget]
  simp only [Option.bind_eq_bind, Option.bind_some, ne_eq, Int.ofNat_inj]

/-- A slot without children is left alone, also when `pos << 1` overflows. -/
theorem heapDownLoop_leaf {q : TimerQueue} {pos : Nat}
    (hsmall : q.heap.length ≤ 2 ^ 31) (hlt : pos < 2 ^ 31)
    (hleaf : q.heap.length ≤ pos * 2) (fuel : Nat) :
    heapDownLoop (fuel + 1) q pos = some q := by
  have hleft : q.heap.length ≤ toSize (toInt ((pos : Int) * 2)) := by
    rw [toInt, Int.bmod_def, toSize]
    split <;> omega
  simp only [heapDownLoop]
  rw [if_pos hleft]

theorem heapDownLoop_spec {fuel : Nat} {q : TimerQueue} {pos : Nat}
    (h : q.Linked) (hsmall : q.heap.length ≤ 2 ^ 31) (hpos : 1 ≤ pos)
    (hlt : pos < 2 ^ 31) (hfuel : q.heap.length < pos + fuel)
    (hfuel' : 0 < fuel) :
    ∃ q', heapDownLoop fuel q pos = some q' ∧ q'.Linked ∧ Sifted q q' ∧
      (DownOrdered q.heap.length q.key pos →
        HeapOrdered q.heap.length q'.key) ∧
      ((∀ i, i < q.heap.length → i / 2 = pos → q.key pos ≤ q.key i) →
        q' = q) := by
  induction fuel generalizing q pos with
  | zero => omega
  | succ fuel ih =>
      rcases Nat.lt_or_ge (pos * 2) q.heap.length with hleft | hleaf
      · obtain ⟨target, htarget, hleast, hwhere⟩ :=
          downTarget_spec h hsmall hpos hleft
        rw [heapDownLoop_succ (by omega) hleft htarget]
        rcases hwhere with rfl | ⟨hchild, htlt, hkey⟩
        · rw [if_neg (by simp)]
          exact ⟨q, rfl, h, Sifted.refl q, fun hq => hq.finish hleast,
            fun _ => rfl⟩
        · rw [if_pos (by omega)]
          obtain ⟨q₁, hrun₁, hlinked₁, hsifted₁, hkey₁, _⟩ :=
            heapSwap_spec h hsmall hpos (by omega) (b := target) (by omega) htlt
          have hlen : q₁.heap.length = q.heap.length := hsifted₁.length
          obtain ⟨q', hrun, hlinked, hsifted, horder, _⟩ :=
            ih hlinked₁ (by omega) (show 1 ≤ target by omega) (by omega)
              (by omega) (by omega)
          refine ⟨q', by rw [hrun₁]; exact hrun, hlinked,
            hsifted₁.trans hsifted, ?_, ?_⟩
          · intro hq
            rw [hlen, hkey₁] at horder
            exact horder (hq.move hpos hchild htlt hkey hleast)
          · intro hstop
            exact absurd (hstop target htlt hchild) (not_le.mpr hkey)
      · rw [heapDownLoop_leaf hsmall hlt hleaf]
        refine ⟨q, rfl, h, Sifted.refl q, ?_, fun _ => rfl⟩
        exact fun hq => hq.finish fun i hi hparent => by omega

/-- A timer that is not in the heap yet is pushed and goes up. -/
theorem heapInsert_spec {q : TimerQueue} (h : q.Linked)
    (hroom : q.heap.length < 2 ^ 31) {p : Nat} {t : Timer}
    (ht : q.memory p = some t) (hp : some p ∉ q.heap) :
    ∃ q', q.heapInsert p = some q' ∧ q'.Linked ∧
      Sifted { q with heap := q.heap ++ [some p] } q' ∧
      (HeapOrdered q.heap.length q.key →
        HeapOrdered (q.heap.length + 1) q'.key) := by
  let pushed : TimerQueue := { q with heap := q.heap ++ [some p] }
  let q₁ : TimerQueue := { pushed with
    memory := Function.update q.memory p
      (some { t with heapIndex := q.heap.length }) }
  have hindex : pushed.setHeapIndex p q.heap.length = some q₁ :=
    setHeapIndex_eq (q := pushed) ht q.heap.length
  have hold : ∀ i, i < q.heap.length → q₁.heap[i]? = q.heap[i]? := by
    intro i hi
    exact List.getElem?_append_left hi
  have hsifted₁ : Sifted pushed q₁ :=
    ⟨rfl, rfl, rfl, List.Perm.refl _, update_core ht q.heap.length⟩
  have hlinked₁ : q₁.Linked := by
    refine ⟨(hold 0 h.nonempty).trans h.null, ?_⟩
    intro i hi hlt
    rcases Nat.lt_or_ge i q.heap.length with hin | hlast
    · obtain ⟨p', t', hp', ht', hindex'⟩ := h.linked i hi hin
      have hne : p' ≠ p := by
        rintro rfl
        exact hp (List.mem_of_getElem? hp')
      exact ⟨p', t', (hold i hin).trans hp', by simp [q₁, hne, ht'], hindex'⟩
    · obtain rfl : i = q.heap.length := by
        simp [q₁, pushed] at hlt
        omega
      exact ⟨p, { t with heapIndex := q.heap.length }, by simp [q₁, pushed],
        by simp [q₁], rfl⟩
  have hlen : q₁.heap.length = q.heap.length + 1 := by simp [q₁, pushed]
  have hone : 1 ≤ q.heap.length := h.nonempty
  obtain ⟨q', hrun, hlinked, hsifted, horder⟩ :=
    heapUpLoop_spec hlinked₁ (by omega) hone (by omega)
      (show q.heap.length < q₁.heap.length + 1 by omega)
  refine ⟨q', ?_, hlinked, hsifted₁.trans hsifted, ?_⟩
  · simp only [heapInsert, toInt_natCast hroom]
    rw [hindex]
    exact hrun
  · intro hq
    rw [hlen] at horder
    exact horder (hq.congr fun i _ hi =>
      key_eq hsifted₁.memory (hold i hi)).snoc

/-- `(int)_heap.size() - 1` overflows at `2 ^ 31` slots, and not below. -/
theorem lastIndex_eq {q : TimerQueue} (hnonempty : 0 < q.heap.length)
    (hroom : q.heap.length < 2 ^ 31) :
    q.lastIndex = some ((q.heap.length - 1 : Nat) : Int) := by
  simp only [lastIndex, toInt_natCast hroom]
  rw [if_pos (by omega)]
  congr 1
  omega

/-- The last slot is cut off. -/
theorem Linked.cut {q : TimerQueue} (h : q.Linked) (hlt : 1 < q.heap.length)
    {p : Nat} (hlast : q.heap.getLast? = some (some p)) :
    Linked { q with heap := q.heap.dropLast } ∧
      q.heap.dropLast ++ [some p] = q.heap ∧
      ∀ i, i < q.heap.length - 1 → q.heap.dropLast[i]? = q.heap[i]? := by
  have hkept : ∀ i, i < q.heap.length - 1 →
      q.heap.dropLast[i]? = q.heap[i]? := by
    intro i hi
    rw [List.getElem?_dropLast, if_pos hi]
  refine ⟨⟨(hkept 0 (by omega)).trans h.null, ?_⟩,
    List.dropLast_append_getLast? _ hlast, hkept⟩
  intro i hi hin
  simp only [List.length_dropLast] at hin
  obtain ⟨p', t, hp', ht, hindex⟩ := h.linked i hi (by omega)
  exact ⟨p', t, (hkept i hin).trans hp', ht, hindex⟩

/-- The common path of `heapPop` and `heapDelete`: the slot is exchanged with
the last one, which is cut off, and the timer that came in goes down. -/
theorem heapCut_spec {q : TimerQueue} (h : q.Linked)
    (hroom : q.heap.length < 2 ^ 31) {pos : Nat} (hpos : 1 ≤ pos)
    (hlt : pos < q.heap.length) :
    ∃ p q₁ q', q.heap[pos]? = some (some p) ∧
      q.heapSwap pos (q.heap.length - 1 : Nat) = some q₁ ∧
      q₁.heap.getLast? = some (some p) ∧
      heapDown { q₁ with heap := q₁.heap.dropLast } pos = some q' ∧
      q'.Linked ∧ Sifted q { q' with heap := q'.heap ++ [some p] } ∧
      (HeapOrdered q.heap.length q.key →
        (HeapOrdered (q.heap.length - 1) q'.key ↔
          (2 ≤ pos → q.key (pos / 2) ≤ q.key (q.heap.length - 1)))) := by
  obtain ⟨p, t, hp, ht, _⟩ := h.linked pos hpos hlt
  obtain ⟨q₁, hrun₁, hlinked₁, hsifted₁, hkey₁, hheap₁⟩ :=
    heapSwap_spec h (by omega) hpos hlt (b := q.heap.length - 1) (by omega)
      (by omega)
  have hlen₁ : q₁.heap.length = q.heap.length := hsifted₁.length
  have hlast : q₁.heap.getLast? = some (some p) := by
    rw [List.getLast?_eq_getElem?, hlen₁, hheap₁]
    simpa using hp
  obtain ⟨hlinked₂, hsplit, hkept⟩ := hlinked₁.cut (by omega) hlast
  let q₂ : TimerQueue := { q₁ with heap := q₁.heap.dropLast }
  change q₂.Linked at hlinked₂
  have hlen₂ : q₂.heap.length = q.heap.length - 1 := by simp [q₂, hlen₁]
  obtain ⟨q', hrun, hlinked, hsifted, horder, hstay⟩ :=
    heapDownLoop_spec hlinked₂ (by omega) hpos (by omega)
      (show q₂.heap.length < pos + (q₂.heap.length + 1) by omega) (by omega)
  refine ⟨p, q₁, q', hp, hrun₁, hlast, hrun, hlinked, ?_, ?_⟩
  · refine hsifted₁.trans ⟨hsifted.counter, hsifted.timers, hsifted.next, ?_,
      hsifted.memory⟩
    rw [← hsplit]
    exact hsifted.heap.append_right [some p]
  · intro hq
    have hkey₂ : ∀ i, i < q.heap.length - 1 →
        q₂.key i = swapKeys q.key pos (q.heap.length - 1) i := by
      intro i hi
      rw [← hkey₁]
      exact key_eq (fun _ => rfl) (hkept i (by omega))
    have hq' : HeapOrdered (q.heap.length - 1 + 1) q.key := by
      rwa [Nat.sub_add_cancel (by omega)]
    rw [hlen₂] at horder hstay
    exact hq'.replace_iff hpos (by omega) hkey₂ horder
      fun hdue => congrArg key (hstay hdue)

/-- `heapPop` takes the timer of slot 1 out, and the order survives. -/
theorem heapPop_spec {q : TimerQueue} (h : q.Linked)
    (hroom : q.heap.length < 2 ^ 31) (hlt : 1 < q.heap.length) :
    ∃ p q', q.heap[1]? = some (some p) ∧
      q.heapPop = some (some p, q') ∧ q'.Linked ∧
      Sifted q { q' with heap := q'.heap ++ [some p] } ∧
      (HeapOrdered q.heap.length q.key →
        HeapOrdered (q.heap.length - 1) q'.key) := by
  obtain ⟨p, q₁, q', hp, hswap, hlast, hdown, hlinked, hsifted, horder⟩ :=
    heapCut_spec h hroom (Nat.le_refl 1) hlt
  refine ⟨p, q', hp, ?_, hlinked, hsifted, ?_⟩
  · have hfirst : toSize FirstItem = 1 := rfl
    have hswap' : q.heapSwap FirstItem (q.heap.length - 1 : Nat) = some q₁ :=
      hswap
    have hdown' : heapDown { q₁ with heap := q₁.heap.dropLast } FirstItem =
        some q' := hdown
    simp only [heapPop, hfirst, lastIndex_eq h.nonempty hroom,
      Option.bind_eq_bind, Option.bind_some, hswap', hlast, hdown']
    rw [if_neg (by omega)]
  · intro hq
    exact (horder hq).mpr (by omega)

/-- `heapDelete` takes the timer of any slot in use out; the order survives
exactly when the timer of the last slot is not due before the parent of the
slot that it fills. -/
theorem heapDelete_spec {q : TimerQueue} (h : q.Linked)
    (hroom : q.heap.length < 2 ^ 31) {pos : Nat} (hpos : 1 ≤ pos)
    (hlt : pos < q.heap.length) :
    ∃ p q', q.heap[pos]? = some (some p) ∧
      q.heapDelete pos = some (true, q') ∧ q'.Linked ∧
      Sifted q { q' with heap := q'.heap ++ [some p] } ∧
      (HeapOrdered q.heap.length q.key →
        (HeapOrdered (q.heap.length - 1) q'.key ↔
          (2 ≤ pos → q.key (pos / 2) ≤ q.key (q.heap.length - 1)))) := by
  obtain ⟨p, q₁, q', hp, hswap, _, hdown, hlinked, hsifted, horder⟩ :=
    heapCut_spec h hroom hpos hlt
  refine ⟨p, q', hp, ?_, hlinked, hsifted, horder⟩
  have hrange : ¬((pos : Int) ≤ 0 ∨ toSize pos ≥ q.heap.length) := by
    rw [toSize_natCast (by omega)]
    omega
  simp only [heapDelete, lastIndex_eq h.nonempty hroom, Option.bind_eq_bind,
    Option.bind_some, hswap, hdown]
  rw [if_neg hrange]

theorem lastIndex_full {q : TimerQueue} (hfull : q.heap.length = 2 ^ 31) :
    q.lastIndex = none := by
  rw [lastIndex, hfull]
  decide

/-- With `2 ^ 31` slots nothing can be taken out. -/
theorem heapPop_full {q : TimerQueue} (hfull : q.heap.length = 2 ^ 31) :
    q.heapPop = none := by
  have hfirst : toSize FirstItem = 1 := rfl
  rw [heapPop, if_neg (by omega), lastIndex_full hfull]
  rfl

theorem heapDelete_full {q : TimerQueue} (hfull : q.heap.length = 2 ^ 31)
    {pos : Nat} (hpos : 1 ≤ pos) (hlt : pos < q.heap.length) :
    q.heapDelete pos = none := by
  have hrange : ¬((pos : Int) ≤ 0 ∨ toSize pos ≥ q.heap.length) := by
    rw [toSize_natCast (by omega)]
    omega
  rw [heapDelete, if_neg hrange, lastIndex_full hfull]
  rfl

/-- With `2 ^ 31` slots a new timer gets a negative position and stays. -/
theorem heapInsert_full {q : TimerQueue} (hfull : q.heap.length = 2 ^ 31)
    {p : Nat} {t : Timer} (ht : q.memory p = some t) :
    q.heapInsert p = some { q with
      heap := q.heap ++ [some p]
      memory := Function.update q.memory p
        (some { t with heapIndex := -2 ^ 31 }) } := by
  have hindex : toInt q.heap.length = -2 ^ 31 := by
    rw [hfull]
    decide
  simp [heapInsert, hindex, setHeapIndex, ht, heapUp, heapUpLoop]

end TimerQueue

end Libsaf
