/-
`saf::EventLoopCluster`: every worker makes an event loop, counts the latch down
and enters the loop; the master starts the workers, waits for the latch, hands
the loops out and stops them.  Each read and each write of `_quit` and `_looping`
is a step, so the threads interleave between them.
-/
import Libsaf.Machine
import Libsaf.MachineInt

namespace Libsaf

/-- `saf::CountDownLatch`.  Its mutex makes each call one step. -/
structure CountDownLatch where
  count : Int
deriving Repr, DecidableEq

/-- The decrement must not overflow. -/
def CountDownLatch.countDown (latch : CountDownLatch) :
    Option CountDownLatch :=
  if -2 ^ 31 ≤ latch.count - 1 then some ⟨latch.count - 1⟩ else none

/-- The flags of an `EventLoop` that `start` and `stop` use. -/
structure LoopFlags where
  quit : Bool
  looping : Bool
deriving Repr, DecidableEq

/-- The next line of a worker in `Pair::work`, and in the `start` of its loop. -/
inductive WorkPc where
  | createLoop
  | onReady
  | assertLooping
  | assertQuit
  | clearQuit
  | setLooping
  | testQuit
  | clearLooping
  | resetLoop
  | ended
deriving Repr, DecidableEq

/-- `EventLoopCluster::Pair`, and where its thread is. -/
structure ClusterPair where
  loop : Option LoopFlags
  thread : Bool
  pc : WorkPc
deriving Repr, DecidableEq

namespace ClusterPair

/-- `Pair(master)` and its `start`. -/
def start : ClusterPair := ⟨none, true, .createLoop⟩

/-- The next line of the worker: what it does to its own pair.  A pass of the
`while` loop in `EventLoop::start` is between two tests of `_quit`. -/
def work (pair : ClusterPair) : Option ClusterPair :=
  match pair.pc, pair.loop with
  | .createLoop, none =>
      some { pair with loop := some ⟨false, false⟩, pc := .onReady }
  | .onReady, _ => some { pair with pc := .assertLooping }
  | .assertLooping, some loop =>
      if !loop.looping then some { pair with pc := .assertQuit } else none
  | .assertQuit, some loop =>
      if !loop.quit then some { pair with pc := .clearQuit } else none
  | .clearQuit, some loop => some { pair with
      loop := some { loop with quit := false }
      pc := .setLooping }
  | .setLooping, some loop => some { pair with
      loop := some { loop with looping := true }
      pc := .testQuit }
  | .testQuit, some loop =>
      some { pair with pc := if !loop.quit then .testQuit else .clearLooping }
  | .clearLooping, some loop => some { pair with
      loop := some { loop with looping := false }
      pc := .resetLoop }
  | .resetLoop, some _ => some { pair with loop := none, pc := .ended }
  | _, _ => none

/-- `_loop->stop()`, after the assertion of `Pair::stop`. -/
def stopLoop (pair : ClusterPair) : Option ClusterPair :=
  pair.loop.map fun loop =>
    { pair with loop := some { loop with quit := true } }

end ClusterPair

/-- Where the master is: in the loop of `start`, on its way to the mutex of the
latch or blocked in its `wait`, between `start` and `stop`, or in `stop` before
`_loop->stop()` or in the `join` of a pair. -/
inductive MasterPc where
  | idle
  | starting
  | lock
  | waiting
  | started
  | stopping (i : Nat)
  | joining (i : Nat)
  | stopped
deriving Repr, DecidableEq

/-- What `getNextLoop` returned: the loop of the master, or that of the pair
with this index, which may be a null pointer. -/
inductive NextLoop where
  | master
  | pair (index : Nat) (isNull : Bool)
deriving Repr, DecidableEq

/-- `loops` are the results of `getNextLoop`, in order. -/
structure EventLoopCluster where
  threadCount : Nat
  counter : Int
  latch : Option CountDownLatch
  pairs : List ClusterPair
  master : MasterPc
  loops : List NextLoop
deriving Repr, DecidableEq

/-- `lockLatch` is the test of the wait with the mutex held, `wake` the end of a
wait for no reason, and `work` the next line of the worker of a pair. -/
inductive ClusterStep where
  | start
  | startPair
  | lockLatch
  | wake
  | work (i : Nat)
  | getNextLoop
  | stop
  | stopLoop
  | join
deriving Repr, DecidableEq

namespace EventLoopCluster

/-- `EventLoopCluster(master)`. -/
def init : EventLoopCluster := ⟨1, 0, none, [], .idle, []⟩

/-- `start` up to its loop. -/
def startCount (s : EventLoopCluster) (count : Nat) : EventLoopCluster :=
  let s := { s with threadCount := count, pairs := [] }
  if s.threadCount > 1 then
    { s with latch := some ⟨toInt count⟩, master := .starting }
  else { s with master := .started }

/-- The body of its loop. -/
def startPair (s : EventLoopCluster) : EventLoopCluster :=
  let pairs := s.pairs ++ [.start]
  { s with
    pairs := pairs
    master := if pairs.length < s.threadCount then .starting else .lock }

/-- `_latch->wait()`. -/
def lockLatch (s : EventLoopCluster) : Option EventLoopCluster := do
  let latch ← s.latch
  some { s with master := if latch.count = 0 then .started else .waiting }

/-- `_latch->countDown()`, which wakes the master at zero. -/
def onReady (s : EventLoopCluster) : Option EventLoopCluster := do
  let latch ← (← s.latch).countDown
  some { s with
    latch := some latch
    master :=
      if latch.count = 0 ∧ s.master = .waiting then .lock else s.master }

def work (s : EventLoopCluster) (i : Nat) : Option EventLoopCluster :=
  s.pairs[i]?.bind fun pair =>
    (if pair.pc = .onReady then s.onReady else some s).bind fun s =>
      pair.work.map fun pair => { s with pairs := s.pairs.set i pair }

def getNextLoop (s : EventLoopCluster) : Option EventLoopCluster :=
  if s.threadCount ≤ 1 then some { s with loops := s.loops ++ [.master] }
  else
    let counter := toInt (s.counter + 1)
    let index := toSize counter % s.pairs.length
    s.pairs[index]?.map fun pair => { s with
      counter := counter
      loops := s.loops ++ [.pair index pair.loop.isNone] }

/-- `stop` goes on to the pair with index `i`, or to its end, where the pairs
are destroyed with the assertions of `~Pair`. -/
def stopPair (s : EventLoopCluster) (i : Nat) : Option EventLoopCluster :=
  if i < s.pairs.length then some { s with master := .stopping i }
  else if ∀ pair ∈ s.pairs, pair.loop = none ∧ pair.thread = false then
    some { s with pairs := [], master := .stopped }
  else none

def stopLoop (s : EventLoopCluster) (i : Nat) : Option EventLoopCluster := do
  let pair ← (← s.pairs[i]?).stopLoop
  some { s with pairs := s.pairs.set i pair, master := .joining i }

/-- The end of `_thread->join()`, and `_thread.reset()`. -/
def join (s : EventLoopCluster) (i : Nat) : Option EventLoopCluster := do
  let pair ← s.pairs[i]?
  { s with pairs := s.pairs.set i { pair with thread := false } }.stopPair
    (i + 1)

/-- The worker of this pair has left `work`. -/
def HasEnded (s : EventLoopCluster) (i : Nat) : Prop :=
  ∀ pair ∈ s.pairs[i]?, pair.pc = .ended

/-- The pair that `stop` is at, before `_loop->stop()`. -/
def toStop (s : EventLoopCluster) : Option Nat :=
  match s.master with
  | .stopping i => some i
  | _ => none

/-- The pair whose thread the master joins. -/
def toJoin (s : EventLoopCluster) : Option Nat :=
  match s.master with
  | .joining i => some i
  | _ => none

end EventLoopCluster

/-- A cluster that is started once with `count` threads.  The loops are handed
out between `start` and `stop`. -/
def clusterMachine (count : Nat) : Machine EventLoopCluster ClusterStep where
  enabled s
    | .start => s.master = .idle
    | .startPair => s.master = .starting
    | .lockLatch => s.master = .lock
    | .wake => s.master = .waiting
    | .work i => i < s.pairs.length ∧ ¬ s.HasEnded i
    | .getNextLoop => s.master = .started
    | .stop => s.master = .started
    | .stopLoop => s.toStop.isSome
    | .join => ∃ i ∈ s.toJoin, s.HasEnded i
  exec s
    | .start => some (s.startCount count)
    | .startPair => some s.startPair
    | .lockLatch => s.lockLatch
    | .wake => some { s with master := .lock }
    | .work i => s.work i
    | .getNextLoop => s.getNextLoop
    | .stop => s.stopPair 0
    | .stopLoop => s.toStop.bind s.stopLoop
    | .join => s.toJoin.bind s.join

namespace WorkPc

/-- The loop of the worker has been created and the latch counted down. -/
def hasCounted : WorkPc → Bool
  | .createLoop | .onReady => false
  | _ => true

/-- The worker has stored `false` into `_quit` at the beginning of `start`. -/
def hasEntered : WorkPc → Bool
  | .setLooping | .testQuit | .clearLooping | .resetLoop | .ended => true
  | _ => false

/-- The worker has found `_quit` set. -/
def hasLeft : WorkPc → Bool
  | .clearLooping | .resetLoop | .ended => true
  | _ => false

/-- The loop of a worker, when `stop` was called on it only after the worker had
entered it. -/
def loopAt (stopped : Bool) : WorkPc → Option LoopFlags
  | .createLoop | .ended => none
  | .testQuit | .clearLooping => some ⟨stopped, true⟩
  | _ => some ⟨stopped, false⟩

end WorkPc

namespace ClusterPair

/-- A worker whose loop was stopped, if at all, after it had been entered. -/
structure Sound (stopped : Bool) (pair : ClusterPair) : Prop where
  loop : pair.loop = pair.pc.loopAt stopped
  entered : stopped = true → pair.pc.hasEntered = true
  left : pair.pc.hasLeft = true → stopped = true

theorem start_sound : start.Sound false where
  loop := rfl
  entered h := (Bool.false_ne_true h).elim
  left h := (Bool.false_ne_true h).elim

/-- No assertion fails, and nothing is undone. -/
theorem Sound.work {stopped : Bool} {pair : ClusterPair}
    (h : pair.Sound stopped) (hpc : pair.pc ≠ .ended) :
    ∃ pair', pair.work = some pair' ∧ pair'.Sound stopped ∧
      (pair'.pc.hasCounted = true ↔
        pair.pc.hasCounted = true ∨ pair.pc = .onReady) := by
  obtain ⟨loop, thread, pc⟩ := pair
  obtain ⟨hloop, hentered, hleft⟩ := h
  dsimp only at hloop hentered hleft hpc
  subst hloop
  have hearly : pc.hasEntered = false → stopped = false := by
    intro hpc
    cases stopped with
    | false => rfl
    | true => exact absurd ((hentered rfl).symm.trans hpc) (by decide)
  cases pc with
  | ended => exact absurd rfl hpc
  | testQuit =>
      cases stopped with
      | false => exact ⟨_, rfl, ⟨rfl, by simp, by simp [WorkPc.hasLeft]⟩,
          by simp [WorkPc.hasCounted]⟩
      | true => exact ⟨_, rfl, ⟨rfl, fun _ => rfl, fun _ => rfl⟩,
          by simp [WorkPc.hasCounted]⟩
  | setLooping => exact ⟨_, rfl, ⟨rfl, fun _ => rfl, by simp [WorkPc.hasLeft]⟩,
      by simp [WorkPc.hasCounted]⟩
  | clearLooping => exact ⟨_, rfl, ⟨rfl, fun _ => rfl, fun _ => hleft rfl⟩,
      by simp [WorkPc.hasCounted]⟩
  | resetLoop => exact ⟨_, rfl, ⟨rfl, fun _ => rfl, fun _ => hleft rfl⟩,
      by simp [WorkPc.hasCounted]⟩
  | _ =>
      obtain rfl := hearly rfl
      exact ⟨_, rfl, ⟨rfl, by simp, by simp [WorkPc.hasLeft]⟩,
        by simp [WorkPc.hasCounted]⟩

/-- After its latch was counted down the loop of a worker exists until the
worker has ended. -/
theorem Sound.published {pair : ClusterPair} (h : pair.Sound false)
    (hcounted : pair.pc.hasCounted = true) : pair.loop ≠ none := by
  obtain ⟨hloop, _, hleft⟩ := h
  cases hpc : pair.pc <;> simp [hpc, WorkPc.hasCounted, WorkPc.hasLeft,
    WorkPc.loopAt] at hloop hcounted hleft ⊢ <;> simp [hloop]

end ClusterPair

namespace EventLoopCluster

/-- How many workers have counted the latch down. -/
def counted (s : EventLoopCluster) : Nat :=
  s.pairs.countP fun pair => pair.pc.hasCounted

/-- Once `start` has returned, every pair has its loop; and every call of
`getNextLoop` found an index in range and the loop of that pair. -/
structure Ready (count : Nat) (s : EventLoopCluster) : Prop where
  published : s.master = .started →
    s.pairs.length = count ∧ ∀ pair ∈ s.pairs, pair.loop ≠ none
  loops : ∀ next ∈ s.loops, ∃ index < count, next = .pair index false

/-- What holds while the cluster was not stopped. -/
structure Starting (count : Nat) (s : EventLoopCluster) : Prop where
  idle : s.master = .idle → s.pairs = []
  latch : s.master ≠ .idle →
    s.threadCount = count ∧ s.latch = some ⟨count - s.counted⟩
  starting : s.master = .starting → s.pairs.length < count
  full : s.master = .lock ∨ s.master = .waiting ∨ s.master = .started →
    s.pairs.length = count
  counted : s.master = .started → s.counted = count
  running : s.toStop = none ∧ s.toJoin = none ∧ s.master ≠ .stopped
  pairs : ∀ pair ∈ s.pairs, pair.Sound false
  loops : ∀ next ∈ s.loops, ∃ index < count, next = .pair index false

variable {count : Nat} {s : EventLoopCluster}

theorem init_starting : init.Starting count where
  idle _ := rfl
  latch h := absurd rfl h
  starting h := by cases h
  full h := by rcases h with h | h | h <;> cases h
  counted h := by cases h
  running := ⟨rfl, rfl, fun h => by cases h⟩
  pairs pair hpair := by cases hpair
  loops next hnext := by cases hnext

/-- The latch stands at zero exactly when all workers have counted. -/
theorem Starting.ready (h : s.Starting count) : s.Ready count := by
  refine ⟨fun hstarted => ?_, h.loops⟩
  have hlength := h.full (Or.inr (Or.inr hstarted))
  refine ⟨hlength, fun pair hpair => (h.pairs pair hpair).published ?_⟩
  have hall : s.pairs.countP (fun pair => pair.pc.hasCounted) =
      s.pairs.length := (h.counted hstarted).trans hlength.symm
  exact List.countP_eq_length.mp hall pair hpair

/-- A pair that has not counted is not among those that have. -/
theorem counted_lt {i : Nat} {pair : ClusterPair}
    (hpair : s.pairs[i]? = some pair) (hpc : pair.pc.hasCounted = false) :
    s.counted < s.pairs.length := by
  refine Nat.lt_of_le_of_ne List.countP_le_length fun hall => ?_
  have hcounted := List.countP_eq_length.mp hall pair
    (List.mem_of_getElem? hpair)
  exact absurd (hcounted.symm.trans hpc) (by decide)

/-- The next line of a worker makes it count when it was about to. -/
theorem counted_set {i : Nat} {pair pair' : ClusterPair}
    (hpair : s.pairs[i]? = some pair)
    (hcounted : pair'.pc.hasCounted = true ↔
      pair.pc.hasCounted = true ∨ pair.pc = .onReady) :
    counted { s with pairs := s.pairs.set i pair' } =
      s.counted + if pair.pc = .onReady then 1 else 0 := by
  obtain ⟨hi, rfl⟩ := List.getElem?_eq_some_iff.mp hpair
  have hle := List.boole_getElem_le_countP
    (p := fun pair : ClusterPair => pair.pc.hasCounted) hi
  rw [counted, List.countP_set hi]
  change _ ≤ s.counted at hle
  change s.counted - _ + _ = _
  by_cases hready : (s.pairs[i]).pc = .onReady
  · have hnot : (s.pairs[i]).pc.hasCounted = false := by rw [hready]; rfl
    rw [if_pos (hcounted.mpr (Or.inr hready)), if_pos hready, hnot]
    simp
  · simp only [hready, or_false] at hcounted
    simp only [hcounted, if_neg hready]
    omega

/-- `onReady` finds a latch that has not overflowed. -/
theorem Starting.onReady (h : s.Starting count) {i : Nat} {pair : ClusterPair}
    (hpair : s.pairs[i]? = some pair) (hpc : pair.pc.hasCounted = false) :
    ∃ master, s.onReady = some { s with
        latch := some ⟨count - (s.counted + 1 : Nat)⟩
        master := master } ∧
      (master = s.master ∨ s.master = .waiting ∧ master = .lock) := by
  have hlt := counted_lt hpair hpc
  have hbusy : s.master ≠ .idle := by
    intro hidle
    simp [h.idle hidle] at hpair
  have hlength : s.pairs.length ≤ count := by
    cases hmaster : s.master with
    | idle => exact absurd hmaster hbusy
    | starting => exact Nat.le_of_lt (h.starting hmaster)
    | lock => exact Nat.le_of_eq (h.full (Or.inl hmaster))
    | waiting => exact Nat.le_of_eq (h.full (Or.inr (Or.inl hmaster)))
    | started => exact Nat.le_of_eq (h.full (Or.inr (Or.inr hmaster)))
    | stopping i =>
        have hstop := h.running.1
        simp [toStop, hmaster] at hstop
    | joining i =>
        have hjoin := h.running.2.1
        simp [toJoin, hmaster] at hjoin
    | stopped => exact absurd hmaster h.running.2.2
  have hlatch := (h.latch hbusy).2
  have hdown : CountDownLatch.countDown ⟨(count : Int) - s.counted⟩ =
      some ⟨count - (s.counted + 1 : Nat)⟩ := by
    rw [CountDownLatch.countDown, if_pos (by dsimp only; omega)]
    congr 2
    dsimp only
    omega
  simp only [EventLoopCluster.onReady, hlatch, Option.bind_eq_bind,
    Option.bind_some, hdown]
  refine ⟨_, rfl, ?_⟩
  split
  · next hzero => exact Or.inr ⟨hzero.2, rfl⟩
  · exact Or.inl rfl

/-- A worker can always go on, and the latch keeps pace with it. -/
theorem Starting.work (h : s.Starting count) {i : Nat}
    (hi : i < s.pairs.length) (hrunning : ¬ s.HasEnded i) :
    ∃ s', s.work i = some s' ∧ s'.Starting count := by
  have hpair : s.pairs[i]? = some s.pairs[i] := List.getElem?_eq_getElem hi
  have hmem : s.pairs[i] ∈ s.pairs := List.getElem_mem hi
  have hpc : (s.pairs[i]).pc ≠ .ended := by
    intro hended
    apply hrunning
    rintro pair hmem
    obtain rfl := Option.mem_unique hpair hmem
    exact hended
  obtain ⟨pair', hwork, hsound, hcounted⟩ := (h.pairs _ hmem).work hpc
  have hpairs : ∀ pair ∈ s.pairs.set i pair', pair.Sound false := by
    intro pair hset
    rcases List.mem_or_eq_of_mem_set hset with hold | rfl
    · exact h.pairs pair hold
    · exact hsound
  have hset := counted_set hpair hcounted
  have hbusy : s.master ≠ .idle := by
    intro hidle
    simp [h.idle hidle] at hi
  by_cases hready : (s.pairs[i]).pc = .onReady
  · have hnot : (s.pairs[i]).pc.hasCounted = false := by rw [hready]; rfl
    obtain ⟨master, honReady, hmaster⟩ := h.onReady hpair hnot
    have hlt := counted_lt hpair hnot
    rw [if_pos hready] at hset
    refine ⟨_, by simp only [EventLoopCluster.work, hpair, hready, if_true,
      honReady, Option.bind_some, hwork]; rfl, ?_⟩
    have hnew : EventLoopCluster.counted { s with
        latch := some ⟨(count : Int) - (s.counted + 1 : Nat)⟩
        master := master
        pairs := s.pairs.set i pair' } = s.counted + 1 := hset
    rcases hmaster with rfl | ⟨hwaiting, rfl⟩
    · refine ⟨fun hidle => absurd hidle hbusy, fun _ => ?_, ?_, ?_, ?_,
        h.running, hpairs, h.loops⟩
      · exact ⟨(h.latch hbusy).1, by rw [hnew]⟩
      · intro hstarting
        rw [List.length_set]
        exact h.starting hstarting
      · intro hfull
        rw [List.length_set]
        exact h.full hfull
      · intro hstarted
        have hall := h.counted hstarted
        have hlength := h.full (Or.inr (Or.inr hstarted))
        omega
    · refine ⟨fun hidle => (by cases hidle), fun _ => ?_, fun hstarting => ?_,
        fun _ => ?_, fun hstarted => (by cases hstarted),
        ⟨rfl, rfl, fun hstopped => by cases hstopped⟩, hpairs, h.loops⟩
      · exact ⟨(h.latch hbusy).1, by rw [hnew]⟩
      · cases hstarting
      · rw [List.length_set]
        exact h.full (Or.inr (Or.inl hwaiting))
  · rw [if_neg hready, Nat.add_zero] at hset
    refine ⟨_, by simp only [EventLoopCluster.work, hpair, hready, if_false,
      Option.bind_some, hwork]; rfl, ?_⟩
    refine ⟨fun hidle => absurd hidle hbusy, fun _ => ?_, ?_, ?_, ?_,
      h.running, hpairs, h.loops⟩
    · rw [hset]
      exact h.latch hbusy
    · intro hstarting
      rw [List.length_set]
      exact h.starting hstarting
    · intro hfull
      rw [List.length_set]
      exact h.full hfull
    · intro hstarted
      rw [hset]
      exact h.counted hstarted

/-- The call takes one of the pairs, whatever the counter is. -/
theorem Starting.getNextLoop (h : s.Starting count) (hcount : 2 ≤ count)
    (hstarted : s.master = .started) :
    ∃ s', s.getNextLoop = some s' ∧ s'.Starting count := by
  have hlength := h.full (Or.inr (Or.inr hstarted))
  have hbusy : s.master ≠ .idle := by rw [hstarted]; exact fun h => by cases h
  obtain ⟨hthreads, hlatch⟩ := h.latch hbusy
  obtain ⟨index, hindex⟩ : ∃ index,
      toSize (toInt (s.counter + 1)) % s.pairs.length = index := ⟨_, rfl⟩
  have hlt : index < s.pairs.length := by
    rw [← hindex]
    exact Nat.mod_lt _ (by omega)
  have hpair : s.pairs[index]? = some s.pairs[index] :=
    List.getElem?_eq_getElem hlt
  have hloop : (s.pairs[index]).loop.isNone = false := by
    have hpublished := (h.ready.published hstarted).2 _ (List.getElem_mem hlt)
    rwa [Option.isNone_eq_false_iff, Option.isSome_iff_ne_none]
  refine ⟨_, by
    simp only [EventLoopCluster.getNextLoop, hthreads, hindex, hpair,
      Option.map_some, hloop]
    rw [if_neg (by omega)], ?_⟩
  refine ⟨fun hidle => absurd hidle hbusy, fun _ => ⟨rfl, hlatch⟩,
    h.starting, h.full, h.counted, h.running, h.pairs, fun next hnext => ?_⟩
  rcases List.mem_append.mp hnext with hold | hnew
  · exact h.loops next hold
  · exact ⟨index, by omega, List.mem_singleton.mp hnew⟩

/-- The latch is made with the thread count, if that is an `int`. -/
theorem Starting.startCount (h : s.Starting count) (hcount : 2 ≤ count)
    (hsmall : count < 2 ^ 31) : (s.startCount count).Starting count := by
  unfold EventLoopCluster.startCount
  rw [if_pos (show 1 < count by omega), toInt_natCast hsmall]
  exact {
    idle := fun hidle => by cases hidle
    latch := fun _ => ⟨rfl, by simp [EventLoopCluster.counted]⟩
    starting := fun _ => (by simp only [List.length_nil]; omega)
    full := fun hfull => by rcases hfull with h | h | h <;> cases h
    counted := fun hstarted => by cases hstarted
    running := ⟨rfl, rfl, fun hstopped => by cases hstopped⟩
    pairs := fun pair hpair => by cases hpair
    loops := h.loops }

theorem Starting.startPair (h : s.Starting count)
    (hstarting : s.master = .starting) : s.startPair.Starting count := by
  have hbusy : s.master ≠ .idle := by rw [hstarting]; exact fun h => by cases h
  obtain ⟨hthreads, hlatch⟩ := h.latch hbusy
  have hlt := h.starting hstarting
  have hcounted : s.startPair.counted = s.counted := by
    simp [EventLoopCluster.counted, EventLoopCluster.startPair,
      ClusterPair.start, WorkPc.hasCounted]
  have hlength : s.startPair.pairs.length = s.pairs.length + 1 := by
    simp [EventLoopCluster.startPair]
  have hpairs : ∀ pair ∈ s.startPair.pairs, pair.Sound false := by
    intro pair hpair
    rcases List.mem_append.mp hpair with hold | hnew
    · exact h.pairs pair hold
    · obtain rfl := List.mem_singleton.mp hnew
      exact ClusterPair.start_sound
  have hlatch' : s.startPair.threadCount = count ∧
      s.startPair.latch = some ⟨count - s.startPair.counted⟩ :=
    ⟨hthreads, by rw [hcounted]; exact hlatch⟩
  have hmaster : s.startPair.master =
      if s.pairs.length + 1 < count then .starting else .lock := by
    simp [EventLoopCluster.startPair, hthreads]
  by_cases hmore : s.pairs.length + 1 < count
  · rw [if_pos hmore] at hmaster
    exact ⟨fun hidle => (by simp [hmaster] at hidle), fun _ => hlatch',
      fun _ => hlength ▸ hmore, fun hfull => (by simp [hmaster] at hfull),
      fun hstarted => (by simp [hmaster] at hstarted),
      by simp [toStop, toJoin, hmaster], hpairs, h.loops⟩
  · rw [if_neg hmore] at hmaster
    exact ⟨fun hidle => (by simp [hmaster] at hidle), fun _ => hlatch',
      fun hstarting => (by simp [hmaster] at hstarting),
      fun _ => (by rw [hlength]; omega),
      fun hstarted => (by simp [hmaster] at hstarted),
      by simp [toStop, toJoin, hmaster], hpairs, h.loops⟩

/-- The master goes on when the latch stands at zero, else it waits. -/
theorem Starting.lockLatch (h : s.Starting count) (hlock : s.master = .lock) :
    ∃ s', s.lockLatch = some s' ∧ s'.Starting count := by
  have hbusy : s.master ≠ .idle := by rw [hlock]; exact fun h => by cases h
  have hlatch := h.latch hbusy
  refine ⟨_, by simp only [EventLoopCluster.lockLatch, hlatch.2,
    Option.bind_eq_bind, Option.bind_some]; rfl, ?_⟩
  split
  · next hzero =>
      exact ⟨fun hidle => (by cases hidle), fun _ => ⟨hlatch.1, rfl⟩,
        fun hstarting => (by cases hstarting), fun _ => h.full (Or.inl hlock),
        fun _ => (show s.counted = count by omega),
        ⟨rfl, rfl, fun hstopped => by cases hstopped⟩, h.pairs, h.loops⟩
  · exact ⟨fun hidle => (by cases hidle), fun _ => ⟨hlatch.1, rfl⟩,
      fun hstarting => (by cases hstarting), fun _ => h.full (Or.inl hlock),
      fun hstarted => (by cases hstarted),
      ⟨rfl, rfl, fun hstopped => by cases hstopped⟩, h.pairs, h.loops⟩

/-- Until the cluster is stopped, nothing fails. -/
theorem starting_step (hcount : 2 ≤ count) (hsmall : count < 2 ^ 31)
    (step : ClusterStep) (h : s.Starting count)
    (henabled : (clusterMachine count).enabled s step) (hstop : step ≠ .stop) :
    ∃ s', (clusterMachine count).exec s step = some s' ∧ s'.Starting count := by
  cases step with
  | start => exact ⟨_, rfl, h.startCount hcount hsmall⟩
  | startPair => exact ⟨_, rfl, h.startPair henabled⟩
  | lockLatch => exact h.lockLatch henabled
  | wake =>
      have hwaiting : s.master = .waiting := henabled
      have hbusy : s.master ≠ .idle := by
        rw [hwaiting]
        exact fun h => by cases h
      exact ⟨_, rfl, fun hidle => (by cases hidle), fun _ => h.latch hbusy,
        fun hstarting => (by cases hstarting),
        fun _ => h.full (Or.inr (Or.inl hwaiting)),
        fun hstarted => (by cases hstarted),
        ⟨rfl, rfl, fun hstopped => by cases hstopped⟩, h.pairs, h.loops⟩
  | work i => exact h.work henabled.1 henabled.2
  | getNextLoop => exact h.getNextLoop hcount henabled
  | stop => exact absurd rfl hstop
  | stopLoop =>
      have hstop' : s.toStop.isSome = true := henabled
      rw [h.running.1] at hstop'
      cases hstop'
  | join =>
      obtain ⟨i, hi, _⟩ := henabled
      rw [h.running.2.1] at hi
      cases hi

/-- All workers of the cluster are made, and `made` of them have counted a latch
down that began with `first`. -/
def hasty (count : Nat) (first : Int) (made : Nat) : EventLoopCluster :=
  { threadCount := count
    counter := 0
    latch := some ⟨first - made⟩
    pairs := List.replicate made ⟨some ⟨false, false⟩, true, .assertLooping⟩ ++
      List.replicate (count - made) .start
    master := .lock
    loops := [] }

/-- `start` with the threads that it has made. -/
def startPairs (made : Nat) : List ClusterStep :=
  .start :: List.replicate made .startPair

theorem startPairs_run {made : Nat} (hcount : 2 ≤ count) (hmade : made ≤ count) :
    (clusterMachine count).Legal init (startPairs made) ∧
      (clusterMachine count).run init (startPairs made) = some
        { hasty count (toInt count) 0 with
        pairs := List.replicate made .start
        master := if made < count then .starting else .lock } := by
  induction made with
  | zero =>
      refine ⟨⟨rfl, fun _ _ => trivial⟩, ?_⟩
      have hmore : 1 < count := by omega
      have hsome : 0 < count := by omega
      simp [startPairs, Machine.run, clusterMachine, startCount, init, hasty,
        hmore, hsome]
  | succ made ih =>
      obtain ⟨hlegal, hrun⟩ := ih (by omega)
      rw [if_pos (show made < count by omega)] at hrun
      have hnext : (clusterMachine count).Legal
          { hasty count (toInt count) 0 with
            pairs := List.replicate made .start
            master := .starting } [.startPair] := ⟨rfl, fun _ _ => trivial⟩
      obtain ⟨hlegal', hrun'⟩ := Machine.legal_append hlegal hrun hnext
      have hword : startPairs (made + 1) = startPairs made ++ [.startPair] := by
        simp [startPairs, List.replicate_succ']
      rw [hword]
      refine ⟨hlegal', hrun'.trans ?_⟩
      simp [Machine.run, clusterMachine, startPair, hasty,
        List.replicate_succ' (n := made)]

/-- The first workers count the latch down, one after the other. -/
def countDowns (made : Nat) : List ClusterStep :=
  (List.range made).flatMap fun i => [.work i, .work i]

variable {first : Int}

theorem hasty_pair {made : Nat} (hmade : made < count) :
    (hasty count first made).pairs[made]? = some .start := by
  have hsome : 0 < count - made := by omega
  rw [hasty, List.getElem?_append_right (by simp)]
  simp [hsome]

/-- One more worker has made its loop. -/
def hastyNext (count : Nat) (first : Int) (made : Nat) : EventLoopCluster :=
  { hasty count first made with
    pairs := (hasty count first made).pairs.set made
      ⟨some ⟨false, false⟩, true, .onReady⟩ }

theorem hasty_create {made : Nat} (hmade : made < count) :
    (clusterMachine count).enabled (hasty count first made) (.work made) ∧
      (hasty count first made).work made =
        some (hastyNext count first made) := by
  have hpair : (hasty count first made).pairs[made]? = some .start :=
    hasty_pair hmade
  refine ⟨⟨(List.getElem?_eq_some_iff.mp hpair).1, fun hended => ?_⟩, ?_⟩
  · exact absurd (hended _ hpair) (by decide)
  · simp [work, hpair, ClusterPair.start, ClusterPair.work, hastyNext]

theorem hastyNext_pair {made : Nat} (hmade : made < count) :
    (hastyNext count first made).pairs[made]? =
      some ⟨some ⟨false, false⟩, true, .onReady⟩ :=
  List.getElem?_set_self (List.getElem?_eq_some_iff.mp (hasty_pair hmade)).1

theorem hastyNext_enabled {made : Nat} (hmade : made < count) :
    (clusterMachine count).enabled (hastyNext count first made) (.work made) := by
  have hpair : (hastyNext count first made).pairs[made]? =
      some ⟨some ⟨false, false⟩, true, .onReady⟩ := hastyNext_pair hmade
  exact ⟨(List.getElem?_eq_some_iff.mp hpair).1,
    fun hended => absurd (hended _ hpair) (by decide)⟩

theorem hastyNext_pairs {made : Nat} (hmade : made < count) :
    (hastyNext count first made).pairs.set made
      ⟨some ⟨false, false⟩, true, .assertLooping⟩ =
        (hasty count first (made + 1)).pairs := by
  obtain ⟨rest, hrest⟩ : ∃ rest, count - made = rest + 1 :=
    ⟨count - made - 1, by omega⟩
  have hrest' : count - (made + 1) = rest := by omega
  simp only [hastyNext, hasty, List.set_set, hrest, hrest']
  rw [List.set_append_right _ _ (by simp), List.replicate_succ' (n := made),
    List.replicate_succ (n := rest), List.append_assoc]
  simp

/-- It counts the latch down. -/
theorem hastyNext_count {made : Nat} (hmade : made < count)
    (hroom : -2 ^ 31 ≤ first - (made + 1 : Nat)) :
    (hastyNext count first made).work made =
      some (hasty count first (made + 1)) := by
  have hlatch : (hastyNext count first made).latch = some ⟨first - made⟩ := rfl
  have hdown : CountDownLatch.countDown ⟨first - made⟩ =
      some ⟨first - (made + 1 : Nat)⟩ := by
    rw [CountDownLatch.countDown, if_pos (by dsimp only; omega)]
    congr 2
    dsimp only
    omega
  have honReady : (hastyNext count first made).onReady = some
      { hastyNext count first made with
        latch := some ⟨first - (made + 1 : Nat)⟩ } := by
    simp only [onReady, hlatch, hdown, Option.bind_eq_bind, Option.bind_some]
    simp [hastyNext, hasty]
  simp only [work, hastyNext_pair hmade, if_true, honReady, Option.bind_some,
    ClusterPair.work, Option.map_some, hastyNext_pairs hmade]
  rfl

/-- It would count the latch down below the smallest `int`. -/
theorem hastyNext_overflow {made : Nat} (hmade : made < count)
    (hfull : first - (made + 1 : Nat) < -2 ^ 31) :
    (hastyNext count first made).work made = none := by
  have hlatch : (hastyNext count first made).latch = some ⟨first - made⟩ := rfl
  have hdown : CountDownLatch.countDown ⟨first - made⟩ = none := by
    rw [CountDownLatch.countDown, if_neg (by dsimp only; omega)]
  have honReady : (hastyNext count first made).onReady = none := by
    simp only [onReady, hlatch, hdown, Option.bind_eq_bind, Option.bind_some,
      Option.bind_none]
  simp only [work, hastyNext_pair hmade, if_true, honReady, Option.bind_some,
    Option.bind_none]

theorem hasty_run {made : Nat} (hmade : made < count) :
    (clusterMachine count).Legal (hasty count first made)
        [.work made, .work made] ∧
      (clusterMachine count).run (hasty count first made)
        [.work made, .work made] = (hastyNext count first made).work made := by
  obtain ⟨henabled, hcreate⟩ := hasty_create hmade
  refine ⟨⟨henabled, fun t ht => ⟨?_, fun _ _ => trivial⟩⟩, ?_⟩
  · obtain rfl := Option.some.inj (hcreate.symm.trans ht)
    exact hastyNext_enabled hmade
  · simp [Machine.run, clusterMachine, hcreate]

theorem countDowns_run (hcount : 2 ≤ count) {made : Nat} (hmade : made ≤ count)
    (hroom : -2 ^ 31 ≤ toInt count - made) :
    (clusterMachine count).Legal init (startPairs count ++ countDowns made) ∧
      (clusterMachine count).run init (startPairs count ++ countDowns made) =
        some (hasty count (toInt count) made) := by
  induction made with
  | zero =>
      have hstart := startPairs_run hcount (Nat.le_refl count)
      rw [if_neg (Nat.lt_irrefl count)] at hstart
      simpa [countDowns, hasty] using hstart
  | succ made ih =>
      obtain ⟨hlegal, hrun⟩ := ih (by omega) (by omega)
      have hword : countDowns (made + 1) =
          countDowns made ++ [.work made, .work made] := by
        simp [countDowns, List.range_succ]
      obtain ⟨hnext, hstep⟩ := hasty_run hmade
      obtain ⟨hlegal', hrun'⟩ := Machine.legal_append hlegal hrun hnext
      rw [hword, ← List.append_assoc]
      exact ⟨hlegal', hrun'.trans (hstep.trans (hastyNext_count hmade hroom))⟩

theorem stop_not_mem_countDowns (made : Nat) :
    ClusterStep.stop ∉ startPairs count ++ countDowns made := by
  simp [startPairs, countDowns]

/-- The latch stands at zero before all workers have counted, and the master
goes on. -/
theorem lockLatch_hasty (hcount : 2 ≤ count) {made : Nat} (hmade : made < count)
    (hfirst : toInt count = made) :
    let word := startPairs count ++ countDowns made ++ [.lockLatch]
    (clusterMachine count).Legal init word ∧ .stop ∉ word ∧
      ¬ (clusterMachine count).Holds (Ready count) init word := by
  obtain ⟨hlegal, hrun⟩ := countDowns_run hcount (Nat.le_of_lt hmade)
    (show -2 ^ 31 ≤ toInt count - made by omega)
  have hnext : (clusterMachine count).Legal (hasty count (toInt count) made)
      [.lockLatch] := ⟨rfl, fun _ _ => trivial⟩
  obtain ⟨hlegal', hrun'⟩ := Machine.legal_append hlegal hrun hnext
  have hreturn : (clusterMachine count).run (hasty count (toInt count) made)
      [.lockLatch] = some
        { hasty count (toInt count) made with master := .started } := by
    have hzero : toInt count - made = 0 := by omega
    simp [Machine.run, clusterMachine, lockLatch, hasty, hzero]
  refine ⟨hlegal', ?_, fun hholds => ?_⟩
  · rw [List.mem_append, not_or]
    exact ⟨stop_not_mem_countDowns made, by simp⟩
  · obtain ⟨t, ht, hready⟩ := hholds.last
    obtain rfl := Option.some.inj ((hrun'.trans hreturn).symm.trans ht)
    have hpair : (hasty count (toInt count) made).pairs[made]? = some .start :=
      hasty_pair hmade
    exact (hready.published rfl).2 _ (List.mem_of_getElem? hpair) rfl

/-- The latch of a negative count overflows. -/
theorem work_hasty (hcount : 2 ≤ count) {made : Nat} (hmade : made < count)
    (hfirst : toInt count = made - 2 ^ 31) :
    let word := startPairs count ++ countDowns made ++ [.work made, .work made]
    (clusterMachine count).Legal init word ∧ .stop ∉ word ∧
      ¬ (clusterMachine count).Holds (Ready count) init word := by
  obtain ⟨hlegal, hrun⟩ := countDowns_run hcount (Nat.le_of_lt hmade)
    (show -2 ^ 31 ≤ toInt count - made by omega)
  obtain ⟨hnext, hstep⟩ := hasty_run hmade
  obtain ⟨hlegal', hrun'⟩ := Machine.legal_append hlegal hrun hnext
  have hnone := hastyNext_overflow hmade
    (show toInt count - (made + 1 : Nat) < -2 ^ 31 by omega)
  refine ⟨hlegal', ?_, fun hholds => ?_⟩
  · rw [List.mem_append, not_or]
    exact ⟨stop_not_mem_countDowns made, by simp⟩
  · obtain ⟨t, ht, _⟩ := hholds.last
    rw [hrun', hstep, hnone] at ht
    cases ht

end EventLoopCluster

open EventLoopCluster

/-- Start-up of the cluster.  In every interleaving `start` returns only when
every pair has its loop, and until `stop` every call of `getNextLoop` finds one of
these loops, exactly if the thread count is an `int`. -/
theorem cluster_ready_iff (count : Nat) (hcount : 2 ≤ count) :
    (∀ word, (clusterMachine count).Legal .init word → .stop ∉ word →
      (clusterMachine count).Holds (EventLoopCluster.Ready count) .init word) ↔
      count < 2 ^ 31 := by
  constructor
  · intro h
    by_contra hlarge
    obtain ⟨hlow, hhigh⟩ := toInt_bounds count
    by_cases hsign : 0 ≤ toInt count
    · obtain ⟨made, hmade⟩ := Int.eq_ofNat_of_zero_le hsign
      obtain ⟨hlegal, hstop, hnot⟩ :=
        lockLatch_hasty hcount (show made < count by omega) hmade
      exact hnot (h _ hlegal hstop)
    · obtain ⟨made, hmade⟩ :=
        Int.eq_ofNat_of_zero_le (show 0 ≤ toInt count + 2 ^ 31 by omega)
      obtain ⟨hlegal, hstop, hnot⟩ := work_hasty hcount
        (show made < count by omega)
        (show toInt count = made - 2 ^ 31 by omega)
      exact hnot (h _ hlegal hstop)
  · intro hsmall word hlegal hstop
    have hsteps : (clusterMachine count).Meets (fun _ step => step ≠ .stop)
        .init word := by
      refine Machine.meets_of_forall fun step hstep _ => ?_
      rintro rfl
      exact hstop hstep
    exact (Machine.holds_of_step
      (fun s step hs hstep => starting_step hcount hsmall step hs hstep.1
        hstep.2) init_starting (hlegal.and hsteps)).mono fun s hs => hs.ready

theorem cluster_ready_iff_two :
    (∀ word, (clusterMachine 2).Legal .init word → .stop ∉ word →
      (clusterMachine 2).Holds (EventLoopCluster.Ready 2) .init word) ↔
      2 < 2 ^ 31 :=
  cluster_ready_iff 2 (by decide)

/-- For `2 ^ 32` threads the latch is made with the count 0. -/
theorem cluster_not_ready_wide :
    let word := startPairs (2 ^ 32) ++ [.lockLatch]
    (clusterMachine (2 ^ 32)).Legal .init word ∧ .stop ∉ word ∧
      ¬ (clusterMachine (2 ^ 32)).Holds (EventLoopCluster.Ready (2 ^ 32)) .init
        word := by
  have hzero : toInt (2 ^ 32 : Nat) = (0 : Nat) := by decide
  have h := @lockLatch_hasty (2 ^ 32) (by omega) 0 (by omega) hzero
  simpa only [countDowns, List.range_zero, List.flatMap_nil, List.append_nil]
    using h

end Libsaf
