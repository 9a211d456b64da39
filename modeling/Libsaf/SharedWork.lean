/-
Shared ownership and deferred work.  Objects are counted by their owners; work
on an object waits in the functor queues of several loops, and a functor either
owns the object or has its bare address.
-/
import Libsaf.EventLoop
import Mathlib.Algebra.BigOperators.Group.Finset.Piecewise

namespace Libsaf

open scoped BigOperators

universe u v w x

variable {O : Type u} {X : Type v} {L : Type w} {W : Type x}

/-- What a functor works on, and whether it holds a shared pointer to it. -/
structure Capture (W : Type x) (X : Type v) where
  target : W → X
  pins : W → Bool

/-- One loop.  `called` is the part of the local vector of `runFunctors` that
was called already, and still holds its shared pointers. -/
structure LoopWork (W : Type x) where
  queue : FunctorQueue W
  called : List W
  executing : Option W
  running : Bool
deriving Repr, DecidableEq

namespace LoopWork

def idle : LoopWork W := ⟨.empty, [], none, false⟩

def queueInLoop (l : LoopWork W) (functor : W) : LoopWork W :=
  { l with queue := l.queue.queueInLoop functor }

def swapFunctors (l : LoopWork W) : LoopWork W :=
  { l with queue := l.queue.swapFunctors, running := true }

def callFunctor (l : LoopWork W) : LoopWork W :=
  match l.queue.nextFunctor with
  | none => l
  | some (functor, rest) =>
      { l with
        queue := rest
        called := functor :: l.called
        executing := some functor }

def returnFunctor (l : LoopWork W) : LoopWork W :=
  { l with executing := none }

/-- The local vector is destroyed. -/
def returnFunctors (l : LoopWork W) : LoopWork W :=
  { l with called := [], running := false }

/-- The functors that exist. -/
def functors (l : LoopWork W) : List W := l.called ++ l.queue.pending

/-- The functors that are not done. -/
def waiting (l : LoopWork W) : List W :=
  l.executing.toList ++ l.queue.pending

@[simp] theorem functors_queueInLoop (l : LoopWork W) (functor : W) :
    (l.queueInLoop functor).functors = l.functors ++ [functor] := by
  simp [functors, queueInLoop]

@[simp] theorem waiting_queueInLoop (l : LoopWork W) (functor : W) :
    (l.queueInLoop functor).waiting = l.waiting ++ [functor] := by
  simp [waiting, queueInLoop]

theorem functors_swapFunctors {l : LoopWork W} (h : l.queue.batch = []) :
    l.swapFunctors.functors = l.functors := by
  rw [functors, swapFunctors, FunctorQueue.pending_swapFunctors h, functors]

theorem waiting_swapFunctors {l : LoopWork W} (h : l.queue.batch = []) :
    l.swapFunctors.waiting = l.waiting := by
  rw [waiting, swapFunctors, FunctorQueue.pending_swapFunctors h, waiting]

/-- A functor that is called is moved from the batch to the called part. -/
theorem callFunctor_eq {l : LoopWork W} (h : l.queue.batch ≠ []) :
    ∃ functor rest, l.queue.pending = functor :: rest.pending ∧
      l.callFunctor = { l with
        queue := rest
        called := functor :: l.called
        executing := some functor } := by
  obtain ⟨functor, batch, hcons⟩ := List.exists_cons_of_ne_nil h
  have hnext : l.queue.nextFunctor =
      some (functor, { l.queue with batch := batch }) := by
    rw [FunctorQueue.nextFunctor, hcons]
  refine ⟨functor, _, FunctorQueue.pending_nextFunctor hnext, ?_⟩
  rw [callFunctor, hnext]

theorem functors_callFunctor {l : LoopWork W} (h : l.queue.batch ≠ []) :
    l.callFunctor.functors.Perm l.functors := by
  obtain ⟨functor, rest, hpending, hcall⟩ := callFunctor_eq h
  rw [hcall, functors, functors, hpending]
  exact List.perm_middle.symm

theorem waiting_callFunctor {l : LoopWork W} (h : l.queue.batch ≠ [])
    (hidle : l.executing = none) : l.callFunctor.waiting = l.waiting := by
  obtain ⟨functor, rest, hpending, hcall⟩ := callFunctor_eq h
  rw [hcall, waiting, waiting, hpending, hidle]
  rfl

end LoopWork

/-- `made` are the objects that were ever created. -/
structure SharedWork (O : Type u) (X : Type v) (L : Type w) (W : Type x) where
  made : List X
  count : X → Nat
  owners : List (O × X)
  work : L → LoopWork W

/-- A shared pointer is made for a new object, copied into an owner or let go
by it; a loop is given a functor, or runs its functors. -/
inductive WorkStep (O : Type u) (X : Type v) (L : Type w) (W : Type x) where
  | make (owner : O) (object : X)
  | take (owner : O) (object : X)
  | drop (owner : O) (object : X)
  | queueInLoop (loop : L) (functor : W)
  | swapFunctors (loop : L)
  | callFunctor (loop : L)
  | returnFunctor (loop : L)
  | returnFunctors (loop : L)
deriving Repr, DecidableEq

/-- The loop whose functors a step changes. -/
def WorkStep.loop : WorkStep O X L W → Option L
  | .make _ _ | .take _ _ | .drop _ _ => none
  | .queueInLoop l _ | .swapFunctors l | .callFunctor l | .returnFunctor l
  | .returnFunctors l => some l

/-- A step in the body of a call. -/
def WorkStep.Plain : WorkStep O X L W → Prop
  | .take _ _ | .drop _ _ | .queueInLoop _ _ => True
  | _ => False

/-- What a step does to its loop. -/
def LoopWork.after (l : LoopWork W) : WorkStep O X L W → LoopWork W
  | .make _ _ | .take _ _ | .drop _ _ => l
  | .queueInLoop _ functor => l.queueInLoop functor
  | .swapFunctors _ => l.swapFunctors
  | .callFunctor _ => l.callFunctor
  | .returnFunctor _ => l.returnFunctor
  | .returnFunctors _ => l.returnFunctors

namespace Capture

variable (c : Capture W X)

/-- The objects that a list of functors holds shared pointers to. -/
def pinned (functors : List W) : List X :=
  (functors.filter c.pins).map c.target

@[simp] theorem pinned_append (front back : List W) :
    c.pinned (front ++ back) = c.pinned front ++ c.pinned back := by
  simp [pinned]

theorem pinned_perm {functors functors' : List W}
    (h : functors.Perm functors') :
    (c.pinned functors).Perm (c.pinned functors') :=
  (h.filter _).map _

theorem mem_pinned {functors : List W} {functor : W} (h : functor ∈ functors)
    (hpins : c.pins functor = true) : c.target functor ∈ c.pinned functors :=
  List.mem_map_of_mem (List.mem_filter.mpr ⟨h, hpins⟩)

end Capture

namespace SharedWork

variable (c : Capture W X) (loops : Finset L)
variable {s s' : SharedWork O X L W} {step : WorkStep O X L W}

/-- The copies of shared pointers that a step makes. -/
def taken : WorkStep O X L W → List X
  | .make _ x | .take _ x => [x]
  | .queueInLoop _ functor => c.pinned [functor]
  | _ => []

/-- The shared pointers that a step lets go of. -/
def dropped (s : SharedWork O X L W) : WorkStep O X L W → List X
  | .drop _ x => [x]
  | .returnFunctors l => c.pinned (s.work l).called
  | _ => []

def madeAfter (s : SharedWork O X L W) : WorkStep O X L W → List X
  | .make _ x => x :: s.made
  | _ => s.made

def workAfter [DecidableEq L] (s : SharedWork O X L W)
    (step : WorkStep O X L W) : L → LoopWork W :=
  match step.loop with
  | none => s.work
  | some l => Function.update s.work l ((s.work l).after step)

def ownersAfter [DecidableEq O] [DecidableEq X] (s : SharedWork O X L W) :
    WorkStep O X L W → List (O × X)
  | .make o x | .take o x => (o, x) :: s.owners
  | .drop o x => s.owners.erase (o, x)
  | _ => s.owners

variable [DecidableEq O] [DecidableEq X] [DecidableEq L]

def apply (s : SharedWork O X L W) (step : WorkStep O X L W) :
    SharedWork O X L W :=
  { made := s.madeAfter step
    count := fun x =>
      s.count x + (taken c step).count x - (s.dropped c step).count x
    owners := s.ownersAfter step
    work := s.workAfter step }

/-- A shared pointer can be copied while the object exists. -/
def Enabled (s : SharedWork O X L W) : WorkStep O X L W → Prop
  | .make _ x => x ∉ s.made
  | .take _ x => s.count x ≠ 0
  | .drop o x => (o, x) ∈ s.owners
  | .queueInLoop l functor => l ∈ loops ∧ s.count (c.target functor) ≠ 0
  | .swapFunctors l => l ∈ loops ∧ (s.work l).running = false
  | .callFunctor l => l ∈ loops ∧ (s.work l).running = true ∧
      (s.work l).executing = none ∧ (s.work l).queue.batch ≠ []
  | .returnFunctor l => l ∈ loops ∧ (s.work l).executing ≠ none
  | .returnFunctors l => l ∈ loops ∧ (s.work l).running = true ∧
      (s.work l).executing = none ∧ (s.work l).queue.batch = []

end SharedWork

/-- The steps of the loops and of the owners, in any order. -/
def workMachine [DecidableEq O] [DecidableEq X] [DecidableEq L]
    (c : Capture W X) (loops : Finset L) :
    Machine (SharedWork O X L W) (WorkStep O X L W) where
  enabled := SharedWork.Enabled c loops
  exec s step := some (s.apply c step)

namespace SharedWork

variable {c : Capture W X} {loops : Finset L}
variable {s s' : SharedWork O X L W} {step : WorkStep O X L W}

/-- A change of one loop changes one summand. -/
theorem sum_update [DecidableEq L] {l : L} (hl : l ∈ loops)
    (f : LoopWork W → Nat) (work : L → LoopWork W) (new : LoopWork W) :
    ∑ m ∈ loops, f (Function.update work l new m) + f (work l) =
      ∑ m ∈ loops, f (work m) + f new := by
  have hrest : ∑ m ∈ loops.erase l, f (Function.update work l new m) =
      ∑ m ∈ loops.erase l, f (work m) := by
    apply Finset.sum_congr rfl
    intro m hm
    rw [Function.update_of_ne (Finset.ne_of_mem_erase hm)]
  rw [← Finset.add_sum_erase loops (fun m => f (work m)) hl,
    ← Finset.add_sum_erase loops
      (fun m => f (Function.update work l new m)) hl, hrest,
    Function.update_self]
  omega

theorem made_madeAfter (s : SharedWork O X L W) {step : WorkStep O X L W}
    {x : X} (hx : x ∈ s.made) : x ∈ s.madeAfter step := by
  cases step with
  | make o y => exact List.mem_cons_of_mem y hx
  | _ => exact hx

section

variable [DecidableEq L]

theorem workAfter_cases (s : SharedWork O X L W) (step : WorkStep O X L W)
    (m : L) :
    s.workAfter step m = s.work m ∨
      step.loop = some m ∧ s.workAfter step m = (s.work m).after step := by
  unfold workAfter
  cases hloop : step.loop with
  | none => exact Or.inl rfl
  | some l =>
      by_cases hm : m = l
      · subst hm
        exact Or.inr ⟨rfl, Function.update_self ..⟩
      · exact Or.inl (Function.update_of_ne hm ..)

end

variable [DecidableEq X]

/-- How many shared pointers to an object there are. -/
def holders (c : Capture W X) (loops : Finset L) (s : SharedWork O X L W)
    (x : X) : Nat :=
  (s.owners.map Prod.snd).count x +
    ∑ l ∈ loops, (c.pinned (s.work l).functors).count x

/-- The reference count of an object is the number of the shared pointers to
it, and what a functor works on was created. -/
structure Counted (c : Capture W X) (loops : Finset L)
    (s : SharedWork O X L W) : Prop where
  count : ∀ x, s.count x = s.holders c loops x
  made : ∀ x, s.count x ≠ 0 → x ∈ s.made
  known : ∀ l, ∀ functor ∈ (s.work l).functors, c.target functor ∈ s.made
  called : ∀ l functor, (s.work l).executing = some functor →
    functor ∈ (s.work l).called
  batch : ∀ l, (s.work l).running = false → (s.work l).queue.batch = []

theorem Counted.alive_of_owner (h : s.Counted c loops) {o : O} {x : X}
    (hx : (o, x) ∈ s.owners) : s.count x ≠ 0 := by
  have hmem : x ∈ s.owners.map Prod.snd := List.mem_map_of_mem hx
  have hpos := List.count_pos_iff.mpr hmem
  rw [h.count, holders]
  omega

theorem count_cons_owners (o : O) (y x : X) (owners : List (O × X)) :
    (((o, y) :: owners).map Prod.snd).count x =
      (owners.map Prod.snd).count x + [y].count x := by
  rw [List.map_cons, List.count_cons, List.count_singleton]

variable [DecidableEq L]

/-- A functor with a shared pointer keeps its object. -/
theorem Counted.alive_of_pinned (h : s.Counted c loops) {l : L}
    (hl : l ∈ loops) {functor : W} (hmem : functor ∈ (s.work l).functors)
    (hpins : c.pins functor = true) : s.count (c.target functor) ≠ 0 := by
  have hpos := List.count_pos_iff.mpr (c.mem_pinned hmem hpins)
  rw [h.count, holders, ← Finset.add_sum_erase loops _ hl]
  omega

/-- A change of one loop changes the holders by what the loop pins. -/
theorem holders_update {l : L} (hl : l ∈ loops) (new : LoopWork W) (x : X) :
    { s with work := Function.update s.work l new }.holders c loops x +
        (c.pinned (s.work l).functors).count x =
      s.holders c loops x + (c.pinned new.functors).count x := by
  have hsum := sum_update hl
    (fun m : LoopWork W => (c.pinned m.functors).count x) s.work new
  unfold holders
  dsimp only at hsum ⊢
  omega

/-- A functor that exists after a step existed before or was queued. -/
theorem mem_functors_after (h : s.Counted c loops) {m : L} {functor : W}
    (henabled : s.Enabled c loops step)
    (hmem : functor ∈ (s.workAfter step m).functors) :
    functor ∈ (s.work m).functors ∨ step = .queueInLoop m functor := by
  rcases s.workAfter_cases step m with hwork | ⟨hloop, hwork⟩
  · rw [hwork] at hmem
    exact Or.inl hmem
  rw [hwork] at hmem
  cases step with
  | make o x | take o x | drop o x => cases hloop
  | queueInLoop l queued =>
      obtain rfl : l = m := Option.some.inj hloop
      rw [LoopWork.after, LoopWork.functors_queueInLoop, List.mem_append,
        List.mem_singleton] at hmem
      rcases hmem with hold | rfl
      · exact Or.inl hold
      · exact Or.inr rfl
  | swapFunctors l =>
      obtain rfl : l = m := Option.some.inj hloop
      rw [LoopWork.after,
        LoopWork.functors_swapFunctors (h.batch l henabled.2)] at hmem
      exact Or.inl hmem
  | callFunctor l =>
      obtain rfl : l = m := Option.some.inj hloop
      exact Or.inl
        ((LoopWork.functors_callFunctor henabled.2.2.2).mem_iff.mp hmem)
  | returnFunctor l => exact Or.inl hmem
  | returnFunctors l => exact Or.inl (List.mem_append_right _ hmem)

variable [DecidableEq O]

theorem count_apply (s : SharedWork O X L W) (step : WorkStep O X L W)
    (x : X) : (s.apply c step).count x =
      s.count x + (taken c step).count x - (s.dropped c step).count x := rfl

/-- The pointers are counted exactly when a step makes them and lets them go. -/
theorem holders_apply (h : s.Counted c loops)
    (henabled : s.Enabled c loops step) (x : X) :
    (s.apply c step).holders c loops x + (s.dropped c step).count x =
      s.holders c loops x + (taken c step).count x := by
  cases step with
  | make o y | take o y =>
      have hcons := count_cons_owners o y x s.owners
      simp only [apply, holders, ownersAfter, workAfter, WorkStep.loop, taken,
        dropped, List.count_nil, hcons]
      omega
  | drop o y =>
      have hperm := (List.perm_cons_erase henabled).map Prod.snd
      have hcons := count_cons_owners o y x (s.owners.erase (o, y))
      simp only [apply, holders, ownersAfter, workAfter, WorkStep.loop, taken,
        dropped, List.count_nil, hperm.count_eq x, hcons]
      omega
  | queueInLoop l functor =>
      have hnew := holders_update (c := c) (s := s) henabled.1
        ((s.work l).queueInLoop functor) x
      rw [LoopWork.functors_queueInLoop, Capture.pinned_append,
        List.count_append] at hnew
      change { s with work := Function.update s.work l _ }.holders c loops x +
        [].count x = _ + (c.pinned [functor]).count x
      rw [LoopWork.after, List.count_nil]
      omega
  | swapFunctors l =>
      have hnew := holders_update (c := c) (s := s) henabled.1
        (s.work l).swapFunctors x
      rw [LoopWork.functors_swapFunctors (h.batch l henabled.2)] at hnew
      exact Nat.add_right_cancel_iff.mpr (Nat.add_right_cancel hnew)
  | callFunctor l =>
      have hnew := holders_update (c := c) (s := s) henabled.1
        (s.work l).callFunctor x
      have hperm := c.pinned_perm
        (LoopWork.functors_callFunctor henabled.2.2.2)
      rw [hperm.count_eq x] at hnew
      exact Nat.add_right_cancel_iff.mpr (Nat.add_right_cancel hnew)
  | returnFunctor l =>
      have hnew := holders_update (c := c) (s := s) henabled.1
        (s.work l).returnFunctor x
      exact Nat.add_right_cancel_iff.mpr (Nat.add_right_cancel hnew)
  | returnFunctors l =>
      have hnew := holders_update (c := c) (s := s) henabled.1
        (s.work l).returnFunctors x
      have hrest : (s.work l).returnFunctors.functors =
          (s.work l).queue.pending := rfl
      rw [hrest, LoopWork.functors, Capture.pinned_append,
        List.count_append] at hnew
      change { s with work := Function.update s.work l _ }.holders c loops x +
        (c.pinned (s.work l).called).count x = _ + [].count x
      rw [LoopWork.after, List.count_nil]
      omega

theorem Counted.apply (h : s.Counted c loops)
    (henabled : s.Enabled c loops step) : (s.apply c step).Counted c loops where
  count x := by
    have hholders := holders_apply h henabled x
    rw [count_apply, h.count]
    omega
  made x hx := by
    by_cases halive : s.count x = 0
    · have htaken : x ∈ taken c step := by
        rw [count_apply, halive] at hx
        exact List.count_pos_iff.mp (by omega)
      cases step with
      | make o y =>
          obtain rfl := List.mem_singleton.mp htaken
          exact List.mem_cons_self
      | take o y =>
          obtain rfl := List.mem_singleton.mp htaken
          exact absurd halive henabled
      | queueInLoop l functor =>
          obtain ⟨queued, hqueued, rfl⟩ := List.mem_map.mp htaken
          obtain rfl := List.mem_singleton.mp (List.mem_filter.mp hqueued).1
          exact absurd halive henabled.2
      | _ => cases htaken
    · exact s.made_madeAfter (h.made x halive)
  known m functor hmem := by
    rcases mem_functors_after h henabled hmem with hold | rfl
    · exact s.made_madeAfter (h.known m functor hold)
    · exact h.made _ henabled.2
  called m functor hexecuting := by
    change (s.workAfter step m).executing = some functor at hexecuting
    change functor ∈ (s.workAfter step m).called
    rcases s.workAfter_cases step m with hwork | ⟨hloop, hwork⟩
    · rw [hwork] at hexecuting ⊢
      exact h.called m functor hexecuting
    rw [hwork] at hexecuting ⊢
    cases step with
    | callFunctor l =>
        obtain rfl : l = m := Option.some.inj hloop
        obtain ⟨head, rest, _, hcall⟩ :=
          LoopWork.callFunctor_eq henabled.2.2.2
        rw [LoopWork.after, hcall] at hexecuting ⊢
        obtain rfl : head = functor := Option.some.inj hexecuting
        exact List.mem_cons_self
    | returnFunctor l => cases hexecuting
    | returnFunctors l =>
        obtain rfl : l = m := Option.some.inj hloop
        exact absurd (henabled.2.2.1.symm.trans hexecuting) (by simp)
    | _ => exact h.called m functor hexecuting
  batch m hidle := by
    change (s.workAfter step m).running = false at hidle
    change (s.workAfter step m).queue.batch = []
    rcases s.workAfter_cases step m with hwork | ⟨hloop, hwork⟩
    · rw [hwork] at hidle ⊢
      exact h.batch m hidle
    rw [hwork] at hidle ⊢
    cases step with
    | swapFunctors l => cases hidle
    | callFunctor l =>
        obtain rfl : l = m := Option.some.inj hloop
        obtain ⟨head, rest, _, hcall⟩ :=
          LoopWork.callFunctor_eq henabled.2.2.2
        rw [LoopWork.after, hcall] at hidle
        exact absurd (henabled.2.1.symm.trans hidle) (by decide)
    | returnFunctors l =>
        obtain rfl : l = m := Option.some.inj hloop
        exact henabled.2.2.2
    | _ => exact h.batch m hidle

/-- The objects that a step destroys. -/
def destroyed (c : Capture W X) (s : SharedWork O X L W)
    (step : WorkStep O X L W) : List X :=
  (s.dropped c step).filter fun x => s.count x ≤ (s.dropped c step).count x

/-- No object is destroyed while a functor that has only its address is not
done. -/
def Kept (c : Capture W X) (loops : Finset L) (s : SharedWork O X L W)
    (step : WorkStep O X L W) : Prop :=
  ∀ x ∈ s.destroyed c step, ∀ l ∈ loops, ∀ functor ∈ (s.work l).waiting,
    c.target functor = x → c.pins functor = true

/-- What a loop executes a functor on has not been destroyed. -/
def Sound (c : Capture W X) (loops : Finset L) (s : SharedWork O X L W) :
    Prop :=
  ∀ l ∈ loops, ∀ functor ∈ (s.work l).executing,
    s.count (c.target functor) ≠ 0

/-- Neither what is executed nor what waits has lost its object. -/
structure Safe (c : Capture W X) (loops : Finset L) (s : SharedWork O X L W) :
    Prop where
  counted : s.Counted c loops
  waiting : ∀ l ∈ loops, ∀ functor ∈ (s.work l).waiting,
    s.count (c.target functor) ≠ 0

/-- A functor that is not done has lost its object. -/
def Broken (c : Capture W X) (loops : Finset L) (s : SharedWork O X L W) :
    Prop :=
  ∃ l ∈ loops, ∃ functor ∈ (s.work l).waiting,
    s.count (c.target functor) = 0

omit [DecidableEq O] [DecidableEq L] in
theorem Safe.sound (h : s.Safe c loops) : s.Sound c loops := by
  intro l hl functor hexecuting
  apply h.waiting l hl functor
  exact List.mem_append_left _ (Option.mem_toList.mpr hexecuting)

omit [DecidableEq O] [DecidableEq L] in
theorem Counted.waiting_subset (h : s.Counted c loops) {l : L} {functor : W}
    (hmem : functor ∈ (s.work l).waiting) :
    functor ∈ (s.work l).functors := by
  rcases List.mem_append.mp hmem with hexecuting | hpending
  · have hcalled := h.called l functor (Option.mem_toList.mp hexecuting)
    exact List.mem_append_left _ hcalled
  · exact List.mem_append_right _ hpending

omit [DecidableEq O] in
theorem mem_waiting_after (h : s.Counted c loops)
    (henabled : s.Enabled c loops step) {m : L} {functor : W}
    (hmem : functor ∈ (s.workAfter step m).waiting) :
    functor ∈ (s.work m).waiting ∨ step = .queueInLoop m functor := by
  rcases s.workAfter_cases step m with hwork | ⟨hloop, hwork⟩
  · rw [hwork] at hmem
    exact Or.inl hmem
  rw [hwork] at hmem
  cases step with
  | make o x | take o x | drop o x => cases hloop
  | queueInLoop l queued =>
      obtain rfl : l = m := Option.some.inj hloop
      rw [LoopWork.after, LoopWork.waiting_queueInLoop, List.mem_append,
        List.mem_singleton] at hmem
      rcases hmem with hold | rfl
      · exact Or.inl hold
      · exact Or.inr rfl
  | swapFunctors l =>
      obtain rfl : l = m := Option.some.inj hloop
      rw [LoopWork.after,
        LoopWork.waiting_swapFunctors (h.batch l henabled.2)] at hmem
      exact Or.inl hmem
  | callFunctor l =>
      obtain rfl : l = m := Option.some.inj hloop
      rw [LoopWork.after, LoopWork.waiting_callFunctor henabled.2.2.2
        henabled.2.2.1] at hmem
      exact Or.inl hmem
  | returnFunctor l => exact Or.inl (List.mem_append_right _ hmem)
  | returnFunctors l => exact Or.inl hmem

omit [DecidableEq O] in
/-- Only the return of a functor ends its waiting. -/
theorem waiting_stays (h : s.Counted c loops)
    (henabled : s.Enabled c loops step) {m : L} {functor : W}
    (hmem : functor ∈ (s.work m).waiting) :
    functor ∈ (s.workAfter step m).waiting ∨
      step = .returnFunctor m ∧ functor ∈ (s.work m).executing := by
  rcases s.workAfter_cases step m with hwork | ⟨hloop, hwork⟩
  · rw [hwork]
    exact Or.inl hmem
  rw [hwork]
  cases step with
  | make o x | take o x | drop o x => cases hloop
  | queueInLoop l queued =>
      rw [LoopWork.after, LoopWork.waiting_queueInLoop]
      exact Or.inl (List.mem_append_left _ hmem)
  | swapFunctors l =>
      obtain rfl : l = m := Option.some.inj hloop
      rw [LoopWork.after, LoopWork.waiting_swapFunctors (h.batch l henabled.2)]
      exact Or.inl hmem
  | callFunctor l =>
      obtain rfl : l = m := Option.some.inj hloop
      rw [LoopWork.after, LoopWork.waiting_callFunctor henabled.2.2.2
        henabled.2.2.1]
      exact Or.inl hmem
  | returnFunctor l =>
      obtain rfl : l = m := Option.some.inj hloop
      rcases List.mem_append.mp hmem with hexecuting | hpending
      · exact Or.inr ⟨rfl, Option.mem_toList.mp hexecuting⟩
      · exact Or.inl hpending
  | returnFunctors l => exact Or.inl hmem

/-- An object that is gone does not come back. -/
theorem count_stays (henabled : s.Enabled c loops step) {x : X}
    (hmade : x ∈ s.made) (hgone : s.count x = 0) :
    (s.apply c step).count x = 0 := by
  have htaken : x ∉ taken c step := by
    intro hx
    cases step with
    | make o y =>
        obtain rfl := List.mem_singleton.mp hx
        exact henabled hmade
    | take o y =>
        obtain rfl := List.mem_singleton.mp hx
        exact henabled hgone
    | queueInLoop l functor =>
        obtain ⟨queued, hqueued, rfl⟩ := List.mem_map.mp hx
        obtain rfl := List.mem_singleton.mp (List.mem_filter.mp hqueued).1
        exact henabled.2 hgone
    | _ => cases hx
  rw [count_apply, hgone, List.count_eq_zero.mpr htaken, Nat.zero_add,
    Nat.zero_sub]

omit [DecidableEq L] [DecidableEq O] in
theorem kept_of_dropped (h : s.dropped c step = []) : s.Kept c loops step := by
  intro x hx
  rw [destroyed, h] at hx
  cases hx

theorem mem_destroyed {x : X} (halive : s.count x ≠ 0)
    (hgone : (s.apply c step).count x = 0) : x ∈ s.destroyed c step := by
  rw [count_apply] at hgone
  apply List.mem_filter.mpr
  refine ⟨List.count_pos_iff.mp (by omega), ?_⟩
  rw [decide_eq_true_iff]
  omega

/-- Step lemma: what is kept stays safe. -/
theorem Safe.apply (h : s.Safe c loops) (henabled : s.Enabled c loops step)
    (hkept : s.Kept c loops step) : (s.apply c step).Safe c loops := by
  have hcounted := h.counted.apply henabled
  refine ⟨hcounted, fun l hl functor hmem hgone => ?_⟩
  have hpins : c.pins functor ≠ true := fun hpins =>
    hcounted.alive_of_pinned hl (hcounted.waiting_subset hmem) hpins hgone
  have halive : s.count (c.target functor) ≠ 0 := by
    rcases mem_waiting_after h.counted henabled hmem with hold | rfl
    · exact h.waiting l hl functor hold
    · exact henabled.2
  have hdestroyed := mem_destroyed halive hgone
  rcases mem_waiting_after h.counted henabled hmem with hold | rfl
  · exact hpins (hkept _ hdestroyed l hl functor hold rfl)
  · cases hdestroyed

/-- A step that is not kept leaves a functor without its object. -/
theorem Counted.broken (h : s.Counted c loops)
    (henabled : s.Enabled c loops step) (hnot : ¬ s.Kept c loops step) :
    (s.apply c step).Broken c loops := by
  unfold Kept at hnot
  push Not at hnot
  obtain ⟨x, hx, l, hl, functor, hmem, rfl, _⟩ := hnot
  refine ⟨l, hl, functor, ?_, ?_⟩
  · rcases waiting_stays h henabled hmem with hstays | ⟨rfl, _⟩
    · exact hstays
    · cases hx
  · have hle := of_decide_eq_true (List.mem_filter.mp hx).2
    have htaken : taken c step = [] := by
      cases step with
      | make o y | take o y | queueInLoop m queued => cases hx
      | _ => rfl
    rw [count_apply, htaken, List.count_nil]
    omega

theorem Broken.apply (hbroken : s.Broken c loops) (h : s.Counted c loops)
    (henabled : s.Enabled c loops step)
    (hsound : s.Sound c loops ∨ ∀ l, step ≠ .returnFunctor l) :
    (s.apply c step).Broken c loops := by
  obtain ⟨l, hl, functor, hmem, hgone⟩ := hbroken
  have hmade := h.known l functor (h.waiting_subset hmem)
  have hstill := count_stays henabled hmade hgone
  rcases waiting_stays h henabled hmem with hstays | ⟨hstep, hexecuting⟩
  · exact ⟨l, hl, functor, hstays, hstill⟩
  · rcases hsound with hsound | hother
    · exact absurd hgone (hsound l hl functor hexecuting)
    · exact absurd hstep (hother l)

/-- The state after a word of steps. -/
def applyAll (c : Capture W X) (s : SharedWork O X L W)
    (word : List (WorkStep O X L W)) : SharedWork O X L W :=
  word.foldl (apply c) s

theorem run_eq (s : SharedWork O X L W) (word : List (WorkStep O X L W)) :
    (workMachine c loops).run s word = some (s.applyAll c word) := by
  induction word generalizing s with
  | nil => rfl
  | cons step word ih => exact ih (s.apply c step)

/-- What every step of a word keeps, the word keeps. -/
theorem applyAll_of_step {G : SharedWork O X L W → WorkStep O X L W → Prop}
    {P : SharedWork O X L W → Prop}
    (hstep : ∀ s step, P s → G s step → P (s.apply c step)) (hs : P s)
    {word : List (WorkStep O X L W)}
    (hword : (workMachine c loops).Meets G s word) :
    P (s.applyAll c word) := by
  refine Machine.invariant_run (fun s step s' hs hG hexec => ?_) hs hword
    (run_eq s word)
  obtain rfl := Option.some.inj hexec
  exact hstep s step hs hG

theorem Counted.applyAll (h : s.Counted c loops)
    {word : List (WorkStep O X L W)}
    (hword : (workMachine c loops).Legal s word) :
    (s.applyAll c word).Counted c loops :=
  applyAll_of_step (fun _ _ hs henabled => hs.apply henabled) h hword

theorem Safe.applyAll (h : s.Safe c loops) {word : List (WorkStep O X L W)}
    (hword : (workMachine c loops).Legal s word)
    (hkept : (workMachine c loops).Meets (Kept c loops) s word) :
    (s.applyAll c word).Safe c loops :=
  applyAll_of_step (fun _ _ hs hG => hs.apply hG.1 hG.2) h
    (Machine.Meets.and hword hkept)

theorem Broken.applyAll (hbroken : s.Broken c loops) (h : s.Counted c loops)
    {word : List (WorkStep O X L W)}
    (hword : (workMachine c loops).Legal s word)
    (hreturns : ∀ l, .returnFunctor l ∉ word) :
    (s.applyAll c word).Broken c loops := by
  have hothers : (workMachine c loops).Meets
      (fun _ step => ∀ l, step ≠ .returnFunctor l) s word := by
    refine Machine.meets_of_forall fun step hstep _ l => ?_
    rintro rfl
    exact hreturns l hstep
  refine (applyAll_of_step (c := c) (P := fun s =>
    s.Broken c loops ∧ s.Counted c loops) (fun s step hs hG => ?_) ⟨hbroken, h⟩
    (Machine.Meets.and hword hothers)).1
  exact ⟨hs.1.apply hs.2 hG.1 (Or.inr hG.2), hs.2.apply hG.1⟩

/-- A word that is not kept leaves a functor without its object. -/
theorem Counted.broken_applyAll (h : s.Counted c loops)
    {word : List (WorkStep O X L W)}
    (hword : (workMachine c loops).Legal s word)
    (hreturns : ∀ l, .returnFunctor l ∉ word)
    (hnot : ¬ (workMachine c loops).Meets (Kept c loops) s word) :
    (s.applyAll c word).Broken c loops := by
  induction word generalizing s with
  | nil => exact absurd trivial hnot
  | cons step word ih =>
      have hreturns' : ∀ l, .returnFunctor l ∉ word := fun l hl =>
        hreturns l (List.mem_cons_of_mem step hl)
      have hrest := hword.2 _ rfl
      by_cases hkept : s.Kept c loops step
      · apply ih (h.apply hword.1) hrest hreturns'
        intro hmeets
        apply hnot
        refine ⟨hkept, fun t ht => ?_⟩
        obtain rfl := Option.some.inj ht
        exact hmeets
      · exact (h.broken hword.1 hkept).applyAll (h.apply hword.1) hrest
          hreturns'

/-- No object and no owner was lost on the way. -/
structure Grows (s t : SharedWork O X L W) : Prop where
  count : ∀ x, s.count x ≠ 0 → t.count x ≠ 0
  owners : ∀ owner ∈ s.owners, owner ∈ t.owners

omit [DecidableEq X] [DecidableEq L] [DecidableEq O] in
theorem Grows.refl (s : SharedWork O X L W) : s.Grows s :=
  ⟨fun _ hx => hx, fun _ howner => howner⟩

theorem grows_apply (hdropped : s.dropped c step = []) :
    s.Grows (s.apply c step) := by
  constructor
  · intro x hx
    rw [count_apply, hdropped, List.count_nil]
    omega
  · intro owner howner
    cases step with
    | make o x | take o x => exact List.mem_cons_of_mem (o, x) howner
    | drop o x => cases hdropped
    | _ => exact howner

theorem made_applyAll {word : List (WorkStep O X L W)}
    (hplain : ∀ step ∈ word, step.Plain) :
    (s.applyAll c word).made = s.made := by
  induction word generalizing s with
  | nil => rfl
  | cons step word ih =>
      have hstep := hplain step List.mem_cons_self
      have hmade : (s.apply c step).made = s.made := by
        cases step with
        | make o x => cases hstep
        | _ => rfl
      have hrest := ih (s := s.apply c step) fun step hmem =>
        hplain step (List.mem_cons_of_mem _ hmem)
      exact hrest.trans hmade

theorem legal_toList {op : Option (WorkStep O X L W)}
    (henabled : ∀ step ∈ op, s.Enabled c loops step) :
    (workMachine c loops).Legal s op.toList := by
  cases op with
  | none => trivial
  | some step => exact ⟨henabled step rfl, fun _ _ => trivial⟩

/-- An operation that keeps what there is, and then those that this allows. -/
theorem legal_append {op : Option (WorkStep O X L W)}
    {word : List (WorkStep O X L W)}
    (henabled : ∀ step ∈ op, s.Enabled c loops step)
    (hdropped : ∀ step ∈ op, s.dropped c step = [])
    (hword : ∀ t, s.Grows t → (workMachine c loops).Legal t word) :
    (workMachine c loops).Legal s (op.toList ++ word) := by
  cases op with
  | none => exact hword s (Grows.refl s)
  | some step =>
      refine ⟨henabled step rfl, fun t ht => ?_⟩
      obtain rfl := Option.some.inj ht
      exact hword _ (grows_apply (hdropped step rfl))

instance (s : SharedWork O X L W) (step : WorkStep O X L W) :
    Decidable (s.Enabled c loops step) :=
  match step with
  | .make _ x => inferInstanceAs (Decidable (x ∉ s.made))
  | .take _ x => inferInstanceAs (Decidable (s.count x ≠ 0))
  | .drop o x => inferInstanceAs (Decidable ((o, x) ∈ s.owners))
  | .queueInLoop l functor => inferInstanceAs
      (Decidable (l ∈ loops ∧ s.count (c.target functor) ≠ 0))
  | .swapFunctors l => inferInstanceAs
      (Decidable (l ∈ loops ∧ (s.work l).running = false))
  | .callFunctor l =>
      decidable_of_iff (l ∈ loops ∧ (s.work l).running = true ∧
        (s.work l).executing.isNone ∧ (s.work l).queue.batch.isEmpty = false)
        (by simp [Enabled])
  | .returnFunctor l =>
      decidable_of_iff (l ∈ loops ∧ (s.work l).executing.isSome)
        (by simp [Enabled, Option.isSome_iff_ne_none])
  | .returnFunctors l =>
      decidable_of_iff (l ∈ loops ∧ (s.work l).running = true ∧
        (s.work l).executing.isNone ∧ (s.work l).queue.batch.isEmpty = true)
        (by simp [Enabled])

instance (s : SharedWork O X L W) (step : WorkStep O X L W) :
    Decidable (s.Kept c loops step) :=
  inferInstanceAs (Decidable (∀ x ∈ s.destroyed c step, ∀ l ∈ loops,
    ∀ functor ∈ (s.work l).waiting,
      c.target functor = x → c.pins functor = true))

end SharedWork

end Libsaf
