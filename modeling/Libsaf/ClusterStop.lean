/-
The stop of `saf::EventLoopCluster`.  `start` of an event loop stores `false` into
`_quit`, and the latch lets the master go on before that; a `stop` that comes
between is undone, or fails the assertion.
-/
import Libsaf.EventLoopCluster

namespace Libsaf

namespace MasterPc

/-- For how many pairs `_loop->stop()` has been called. -/
def stopCount : MasterPc → Nat
  | .stopping i => i
  | .joining i => i + 1
  | _ => 0

/-- How many threads have been joined. -/
def joinCount : MasterPc → Nat
  | .stopping i | .joining i => i
  | _ => 0

end MasterPc

namespace WorkPc

/-- The worker has its loop, and has not entered it yet. -/
def isEntering : WorkPc → Bool
  | .onReady | .assertLooping | .assertQuit | .clearQuit | .setLooping => true
  | _ => false

/-- The loop of a worker that was stopped before it had entered its loop: the
assertion fails, or the stop is undone. -/
def doomedAt : WorkPc → Option LoopFlags
  | .onReady | .assertLooping | .assertQuit | .clearQuit => some ⟨true, false⟩
  | .setLooping => some ⟨false, false⟩
  | .testQuit => some ⟨false, true⟩
  | _ => none

end WorkPc

namespace ClusterPair

/-- A stop of the loop of this pair was lost or will be. -/
def Doomed (pair : ClusterPair) : Prop :=
  pair.loop ≠ none ∧ pair.loop = pair.pc.doomedAt

/-- A worker that has entered its loop is stopped. -/
theorem Sound.stopLoop {pair : ClusterPair} (h : pair.Sound false)
    (hentered : pair.pc.hasEntered = true) :
    ∃ pair', pair.stopLoop = some pair' ∧ pair'.Sound true := by
  obtain ⟨loop, thread, pc⟩ := pair
  obtain ⟨hloop, _, hleft⟩ := h
  dsimp only at hloop hentered hleft
  subst hloop
  cases pc with
  | setLooping => exact ⟨_, rfl, rfl, fun _ => rfl, fun _ => rfl⟩
  | testQuit => exact ⟨_, rfl, rfl, fun _ => rfl, fun _ => rfl⟩
  | clearLooping => exact absurd (hleft rfl) (by decide)
  | resetLoop => exact absurd (hleft rfl) (by decide)
  | ended => exact absurd (hleft rfl) (by decide)
  | _ => cases hentered

/-- A worker that has not is not. -/
theorem Sound.doomed {pair pair' : ClusterPair} (h : pair.Sound false)
    (hentered : pair.pc.hasEntered = false)
    (hstop : pair.stopLoop = some pair') : pair'.Doomed := by
  obtain ⟨loop, thread, pc⟩ := pair
  obtain ⟨hloop, _, _⟩ := h
  dsimp only at hloop hentered
  subst hloop
  cases pc with
  | createLoop => cases hstop
  | onReady | assertLooping | assertQuit | clearQuit =>
      cases hstop
      exact ⟨Option.some_ne_none _, rfl⟩
  | _ => cases hentered

/-- It goes into its loop and stays there, or its assertion fails. -/
theorem Doomed.work {pair pair' : ClusterPair} (h : pair.Doomed)
    (hwork : pair.work = some pair') : pair'.Doomed := by
  obtain ⟨loop, thread, pc⟩ := pair
  obtain ⟨hsome, hloop⟩ := h
  dsimp only at hsome hloop
  subst hloop
  cases pc with
  | assertQuit => cases hwork
  | onReady | assertLooping | clearQuit | setLooping | testQuit =>
      cases hwork
      exact ⟨Option.some_ne_none _, rfl⟩
  | _ => exact absurd rfl hsome

end ClusterPair

namespace EventLoopCluster

/-- A loop that runs while the master waits for the end of its thread has been
told to quit. -/
def StopKept (s : EventLoopCluster) : Prop :=
  ∀ i ∈ s.toJoin, ∀ pair ∈ s.pairs[i]?, ∀ loop ∈ pair.loop,
    loop.looping = true → loop.quit = true

/-- `_loop->stop()` is called when the worker has stored `false` into `_quit`, and
the latch does not overflow. -/
def Entered (s : EventLoopCluster) : ClusterStep → Prop
  | .stopLoop => ∀ i ∈ s.toStop, ∀ pair ∈ s.pairs[i]?,
      pair.pc.hasEntered = true
  | .work i => ∀ pair ∈ s.pairs[i]?, pair.pc = .onReady →
      ∀ latch ∈ s.latch, -2 ^ 31 ≤ latch.count - 1
  | _ => True

/-- The worker that the master waits for is not on its way into its loop. -/
def Settled (s : EventLoopCluster) : Prop :=
  ∀ i ∈ s.toJoin, ∀ pair ∈ s.pairs[i]?, pair.pc.isEntering = false

/-- Every loop that was stopped had been entered. -/
structure Orderly (s : EventLoopCluster) : Prop where
  latch : s.latch = none →
    s.pairs = [] ∧ s.master ≠ .starting ∧ s.master ≠ .lock
  pairs : s.pairs = [] → s.master = .started → s.threadCount ≤ 1
  waiting : s.pairs = [] → s.master ≠ .lock ∧ s.master ≠ .waiting
  sound : ∀ i (hi : i < s.pairs.length),
    (s.pairs[i]).Sound (decide (i < s.master.stopCount))
  joined : ∀ i (hi : i < s.pairs.length), i < s.master.joinCount →
    (s.pairs[i]).pc = .ended ∧ (s.pairs[i]).thread = false
  stopping : ∀ i, s.master = .stopping i ∨ s.master = .joining i →
    i < s.pairs.length

variable {s : EventLoopCluster}

theorem init_orderly : init.Orderly where
  latch _ := ⟨rfl, by decide, by decide⟩
  pairs _ _ := Nat.le_refl 1
  waiting _ := ⟨by decide, by decide⟩
  sound i hi := by cases hi
  joined i hi := by cases hi
  stopping i h := by rcases h with h | h <;> cases h

theorem mem_toStop {i : Nat} : i ∈ s.toStop ↔ s.master = .stopping i := by
  unfold toStop
  split
  · next j hmaster => simp [hmaster, eq_comm]
  · next hother => simpa using hother i

theorem mem_toJoin {i : Nat} : i ∈ s.toJoin ↔ s.master = .joining i := by
  unfold toJoin
  split
  · next j hmaster => simp [hmaster, eq_comm]
  · next hother => simpa using hother i

/-- The loop of the pair that the master waits for is stopped. -/
theorem Orderly.stopKept (h : s.Orderly) : s.StopKept := by
  intro i hi pair hpair loop hloop _
  obtain ⟨hlt, rfl⟩ := List.getElem?_eq_some_iff.mp hpair
  have hsound := (h.sound i hlt).loop
  rw [mem_toJoin.mp hi, MasterPc.stopCount, decide_eq_true (Nat.lt_succ_self i)]
    at hsound
  rw [hsound] at hloop
  cases hpc : (s.pairs[i]).pc <;> rw [hpc] at hloop <;> cases hloop <;> rfl

/-- The master waits for the latch, or goes on. -/
theorem Orderly.setMaster (h : s.Orderly) (hsome : s.pairs ≠ [])
    (hlatch : s.latch ≠ none) (hstop : s.master.stopCount = 0)
    {master : MasterPc}
    (hmaster : master = .lock ∨ master = .waiting ∨ master = .started) :
    Orderly { s with master := master } := by
  have hcounts : master.stopCount = 0 ∧ master.joinCount = 0 := by
    rcases hmaster with rfl | rfl | rfl <;> exact ⟨rfl, rfl⟩
  refine ⟨fun hnone => absurd hnone hlatch, fun hnil => absurd hnil hsome,
    fun hnil => absurd hnil hsome, ?_, ?_, ?_⟩
  · intro i hi
    have hsound := h.sound i hi
    rw [hstop] at hsound
    rw [hcounts.1]
    exact hsound
  · intro i hi hlt
    rw [hcounts.2] at hlt
    exact absurd hlt (Nat.not_lt_zero i)
  · intro i hi
    rcases hmaster with rfl | rfl | rfl <;> rcases hi with hi | hi <;> cases hi

/-- A worker goes on, and may wake the master. -/
theorem Orderly.setPair (h : s.Orderly) {i : Nat} (hi : i < s.pairs.length)
    (hpc : (s.pairs[i]).pc ≠ .ended) {pair : ClusterPair}
    (hsound : pair.Sound (decide (i < s.master.stopCount)))
    {latch : Option CountDownLatch} (hlatch : latch ≠ none) {master : MasterPc}
    (hmaster : master = s.master ∨ s.master = .waiting ∧ master = .lock) :
    Orderly { s with
      latch := latch
      pairs := s.pairs.set i pair
      master := master } := by
  have hstop : master.stopCount = s.master.stopCount := by
    rcases hmaster with rfl | ⟨hwaiting, rfl⟩
    · rfl
    · rw [hwaiting]; rfl
  have hjoin : master.joinCount = s.master.joinCount := by
    rcases hmaster with rfl | ⟨hwaiting, rfl⟩
    · rfl
    · rw [hwaiting]; rfl
  have hsome : s.pairs.set i pair ≠ [] := by
    intro hnil
    rw [(List.set_eq_nil_iff _ _).mp hnil] at hi
    cases hi
  refine ⟨fun hnone => absurd hnone hlatch, fun hnil => absurd hnil hsome,
    fun hnil => absurd hnil hsome, ?_, ?_, ?_⟩
  · intro j hj
    dsimp only at hj ⊢
    rw [List.length_set] at hj
    rw [List.getElem_set, hstop]
    split
    · next hij => exact hij ▸ hsound
    · exact h.sound j hj
  · intro j hj hlt
    dsimp only at hj hlt ⊢
    rw [List.length_set] at hj
    rw [hjoin] at hlt
    have hij : i ≠ j := by
      rintro rfl
      exact hpc (h.joined i hj hlt).1
    rw [List.getElem_set_ne hij]
    exact h.joined j hj hlt
  · intro j hj
    rw [List.length_set]
    rcases hmaster with rfl | ⟨_, rfl⟩
    · exact h.stopping j hj
    · rcases hj with hj | hj <;> cases hj

theorem Orderly.work (h : s.Orderly) {i : Nat} (hi : i < s.pairs.length)
    (hrunning : ¬ s.HasEnded i) (hentered : s.Entered (.work i)) :
    ∃ s', s.work i = some s' ∧ s'.Orderly := by
  have hpair : s.pairs[i]? = some s.pairs[i] := List.getElem?_eq_getElem hi
  have hpc : (s.pairs[i]).pc ≠ .ended := by
    intro hended
    apply hrunning
    rintro pair hmem
    obtain rfl := Option.mem_unique hpair hmem
    exact hended
  obtain ⟨pair', hwork, hsound, _⟩ := (h.sound i hi).work hpc
  have hlatch : s.latch ≠ none := by
    intro hnone
    rw [(h.latch hnone).1] at hi
    cases hi
  by_cases hready : (s.pairs[i]).pc = .onReady
  · obtain ⟨latch, hsome⟩ := Option.ne_none_iff_exists'.mp hlatch
    have hroom := hentered _ hpair hready latch hsome
    have hdown : latch.countDown = some ⟨latch.count - 1⟩ := if_pos hroom
    simp only [EventLoopCluster.work, hpair, hready, if_true, onReady, hsome,
      hdown, hwork, Option.bind_eq_bind, Option.bind_some]
    refine ⟨_, rfl, h.setPair hi hpc hsound (Option.some_ne_none _) ?_⟩
    split
    · next hzero => exact Or.inr ⟨hzero.2, rfl⟩
    · exact Or.inl rfl
  · simp only [EventLoopCluster.work, hpair, hready, if_false, hwork,
      Option.bind_some]
    exact ⟨_, rfl, h.setPair hi hpc hsound hlatch (Or.inl rfl)⟩

/-- `stop` turns to the next pair when the threads before it were joined. -/
theorem Orderly.stopPair {i : Nat}
    (hlatch : s.latch = none → s.pairs = [])
    (hsound : ∀ j (hj : j < s.pairs.length),
      (s.pairs[j]).Sound (decide (j < i)))
    (hjoined : ∀ j (hj : j < s.pairs.length), j < i →
      (s.pairs[j]).pc = .ended ∧ (s.pairs[j]).thread = false) :
    ∃ s', s.stopPair i = some s' ∧ s'.Orderly := by
  unfold EventLoopCluster.stopPair
  by_cases hi : i < s.pairs.length
  · rw [if_pos hi]
    have hsome : s.pairs ≠ [] := by
      intro hnil
      rw [hnil] at hi
      cases hi
    refine ⟨_, rfl, fun hnone => absurd (hlatch hnone) hsome,
      fun hnil => absurd hnil hsome, fun hnil => absurd hnil hsome, hsound,
      hjoined, fun j hj => ?_⟩
    rcases hj with hj | hj <;> cases hj
    exact hi
  · have hall : ∀ pair ∈ s.pairs, pair.loop = none ∧ pair.thread = false := by
      intro pair hpair
      obtain ⟨j, hj, rfl⟩ := List.mem_iff_getElem.mp hpair
      obtain ⟨hended, hthread⟩ := hjoined j hj (by omega)
      have hloop := (hsound j hj).loop
      rw [hended] at hloop
      exact ⟨hloop, hthread⟩
    rw [if_neg hi, if_pos hall]
    exact ⟨_, rfl, fun _ => ⟨rfl, by simp, by simp⟩,
      fun _ hstarted => (by cases hstarted), fun _ => ⟨by simp, by simp⟩,
      fun j hj => (by cases hj), fun j hj => (by cases hj),
      fun j hj => by rcases hj with hj | hj <;> cases hj⟩

theorem Orderly.stopLoop (h : s.Orderly) {i : Nat}
    (hmaster : s.master = .stopping i) (hentered : s.Entered .stopLoop) :
    ∃ s', s.stopLoop i = some s' ∧ s'.Orderly := by
  have hi := h.stopping i (Or.inl hmaster)
  have hpair : s.pairs[i]? = some s.pairs[i] := List.getElem?_eq_getElem hi
  have hsound := h.sound i hi
  rw [hmaster, MasterPc.stopCount, decide_eq_false (Nat.lt_irrefl i)] at hsound
  obtain ⟨pair', hstop, hsound'⟩ := hsound.stopLoop
    (hentered i (mem_toStop.mpr hmaster) _ hpair)
  have hsome : s.pairs.set i pair' ≠ [] := by
    intro hnil
    rw [(List.set_eq_nil_iff _ _).mp hnil] at hi
    cases hi
  refine ⟨_, by simp only [EventLoopCluster.stopLoop, hpair, hstop,
    Option.bind_eq_bind, Option.bind_some]; rfl, ?_⟩
  refine ⟨fun hnone => ?_, fun hnil => absurd hnil hsome,
    fun hnil => absurd hnil hsome, ?_, ?_, ?_⟩
  · rw [(h.latch hnone).1] at hi
    cases hi
  · intro j hj
    dsimp only at hj ⊢
    rw [List.length_set] at hj
    rw [List.getElem_set]
    split
    · next hij =>
        rw [← hij, MasterPc.stopCount, decide_eq_true (Nat.lt_succ_self i)]
        exact hsound'
    · next hij =>
        have hsame : decide (j < i + 1) = decide (j < i) :=
          decide_eq_decide.mpr (by omega)
        have hold := h.sound j hj
        rw [hmaster] at hold
        exact hsame ▸ hold
  · intro j hj hlt
    dsimp only [MasterPc.joinCount] at hj hlt ⊢
    rw [List.length_set] at hj
    rw [List.getElem_set_ne (by omega)]
    exact h.joined j hj (by rw [hmaster]; exact hlt)
  · intro j hj
    rw [List.length_set]
    rcases hj with hj | hj <;> cases hj
    exact hi

theorem Orderly.join (h : s.Orderly) {i : Nat}
    (hmaster : s.master = .joining i) (hended : s.HasEnded i) :
    ∃ s', s.join i = some s' ∧ s'.Orderly := by
  have hi := h.stopping i (Or.inr hmaster)
  have hpair : s.pairs[i]? = some s.pairs[i] := List.getElem?_eq_getElem hi
  have hsound : ∀ j (hj : j < s.pairs.length),
      (s.pairs[j]).Sound (decide (j < i + 1)) := by
    intro j hj
    have hold := h.sound j hj
    rwa [hmaster] at hold
  simp only [EventLoopCluster.join, hpair, Option.bind_eq_bind,
    Option.bind_some]
  apply Orderly.stopPair
  · intro hnone
    exact (List.set_eq_nil_iff _ _).mpr (h.latch hnone).1
  · intro j hj
    dsimp only at hj ⊢
    rw [List.length_set] at hj
    rw [List.getElem_set]
    split
    · next hij =>
        subst hij
        exact ⟨(hsound i hj).loop, (hsound i hj).entered, (hsound i hj).left⟩
    · exact hsound j hj
  · intro j hj hlt
    dsimp only at hj ⊢
    rw [List.length_set] at hj
    rw [List.getElem_set]
    split
    · exact ⟨hended s.pairs[i] hpair, rfl⟩
    · exact h.joined j hj (by rw [hmaster, MasterPc.joinCount]; omega)

/-- A cluster without pairs. -/
theorem orderly_of_nil (hpairs : s.pairs = [])
    (hlatch : s.latch = none → s.master ≠ .starting)
    (hmaster : s.master = .starting ∨ s.master = .started ∧ s.threadCount ≤ 1) :
    s.Orderly where
  latch hnone := ⟨hpairs, hlatch hnone, by
    rcases hmaster with h | ⟨h, _⟩ <;> simp [h]⟩
  pairs _ hstarted := by
    rcases hmaster with h | ⟨_, h⟩
    · rw [h] at hstarted
      cases hstarted
    · exact h
  waiting _ := by rcases hmaster with h | ⟨h, _⟩ <;> simp [h]
  sound i hi := by simp [hpairs] at hi
  joined i hi := by simp [hpairs] at hi
  stopping i hi := by rcases hmaster with h | ⟨h, _⟩ <;> simp [h] at hi

theorem startCount_orderly (count : Nat) : (s.startCount count).Orderly := by
  unfold startCount
  by_cases hmany : count > 1
  · rw [if_pos hmany]
    exact orderly_of_nil rfl (fun hnone => by cases hnone) (Or.inl rfl)
  · rw [if_neg hmany]
    exact orderly_of_nil rfl (fun _ => by simp)
      (Or.inr ⟨rfl, Nat.not_lt.mp hmany⟩)

theorem Orderly.startPair (h : s.Orderly) (hstarting : s.master = .starting) :
    s.startPair.Orderly := by
  have hlatch : s.latch ≠ none :=
    fun hnone => (h.latch hnone).2.1 hstarting
  have hmaster : s.startPair.master = .starting ∨ s.startPair.master = .lock := by
    unfold EventLoopCluster.startPair
    dsimp only
    split
    · exact Or.inl rfl
    · exact Or.inr rfl
  have hstop : s.startPair.master.stopCount = 0 := by
    rcases hmaster with hmaster | hmaster <;> rw [hmaster] <;> rfl
  have hjoin : s.startPair.master.joinCount = 0 := by
    rcases hmaster with hmaster | hmaster <;> rw [hmaster] <;> rfl
  have hsome : s.startPair.pairs ≠ [] := by simp [EventLoopCluster.startPair]
  refine ⟨fun hnone => absurd hnone hlatch, fun hnil => absurd hnil hsome,
    fun hnil => absurd hnil hsome, ?_, ?_, ?_⟩
  · intro i hi
    rw [hstop]
    have hmem := List.getElem_mem hi
    rcases List.mem_append.mp hmem with hold | hnew
    · obtain ⟨j, hj, heq⟩ := List.mem_iff_getElem.mp hold
      have hsound := h.sound j hj
      rw [hstarting] at hsound
      rw [← heq]
      exact hsound
    · rw [List.mem_singleton.mp hnew]
      exact ClusterPair.start_sound
  · intro i hi hlt
    rw [hjoin] at hlt
    exact absurd hlt (Nat.not_lt_zero i)
  · intro i hi
    rcases hmaster with hmaster | hmaster <;> rw [hmaster] at hi <;>
      rcases hi with hi | hi <;> cases hi

theorem Orderly.getNextLoop (h : s.Orderly) (hstarted : s.master = .started) :
    ∃ s', s.getNextLoop = some s' ∧ s'.Orderly := by
  unfold EventLoopCluster.getNextLoop
  by_cases hfew : s.threadCount ≤ 1
  · rw [if_pos hfew]
    exact ⟨_, rfl, h.latch, h.pairs, h.waiting, h.sound, h.joined, h.stopping⟩
  · rw [if_neg hfew]
    have hlt : toSize (toInt (s.counter + 1)) % s.pairs.length <
        s.pairs.length := by
      apply Nat.mod_lt
      apply List.length_pos_iff.mpr
      exact fun hnil => hfew (h.pairs hnil hstarted)
    simp only [List.getElem?_eq_getElem hlt, Option.map_some]
    exact ⟨_, rfl, h.latch, h.pairs, h.waiting, h.sound, h.joined, h.stopping⟩

/-- Where the next pair to be stopped has entered its loop, no assertion
fails. -/
theorem orderly_step {count : Nat} (step : ClusterStep) (h : s.Orderly)
    (henabled : (clusterMachine count).enabled s step)
    (hentered : s.Entered step) :
    ∃ s', (clusterMachine count).exec s step = some s' ∧ s'.Orderly := by
  cases step with
  | start => exact ⟨_, rfl, startCount_orderly count⟩
  | startPair => exact ⟨_, rfl, h.startPair henabled⟩
  | lockLatch =>
      have hlock : s.master = .lock := henabled
      obtain ⟨latch, hlatch⟩ := Option.ne_none_iff_exists'.mp
        (fun hnone => (h.latch hnone).2.2 hlock)
      have hsome : s.pairs ≠ [] := fun hnil => (h.waiting hnil).1 hlock
      refine ⟨{ s with
        master := if latch.count = 0 then .started else .waiting }, ?_, ?_⟩
      · exact congrArg (·.bind fun latch => some { s with
          master := if latch.count = 0 then .started else .waiting }) hlatch
      · apply h.setMaster hsome (by rw [hlatch]; exact Option.some_ne_none _)
          (by rw [hlock]; rfl)
        split
        · exact Or.inr (Or.inr rfl)
        · exact Or.inr (Or.inl rfl)
  | wake =>
      have hwaiting : s.master = .waiting := henabled
      have hsome : s.pairs ≠ [] := fun hnil => (h.waiting hnil).2 hwaiting
      exact ⟨_, rfl, h.setMaster hsome (fun hnone => hsome (h.latch hnone).1)
        (by rw [hwaiting]; rfl) (Or.inl rfl)⟩
  | work i => exact h.work henabled.1 henabled.2 hentered
  | getNextLoop => exact h.getNextLoop henabled
  | stop =>
      have hstarted : s.master = .started := henabled
      apply Orderly.stopPair
      · exact fun hnone => (h.latch hnone).1
      · intro j hj
        have hold := h.sound j hj
        rwa [hstarted] at hold
      · exact fun j hj hlt => absurd hlt (Nat.not_lt_zero j)
  | stopLoop =>
      obtain ⟨i, hi⟩ := Option.isSome_iff_exists.mp henabled
      obtain ⟨s', hstop, hs'⟩ := h.stopLoop (mem_toStop.mp hi) hentered
      exact ⟨s', (congrArg (·.bind s.stopLoop) hi).trans hstop, hs'⟩
  | join =>
      obtain ⟨i, hi, hended⟩ := henabled
      obtain ⟨s', hjoin, hs'⟩ := h.join (mem_toJoin.mp hi) hended
      exact ⟨s', (congrArg (·.bind s.join) hi).trans hjoin, hs'⟩

/-- The master waits for a worker that will not leave its loop. -/
def Lost (s : EventLoopCluster) : Prop :=
  ∃ i ∈ s.toJoin, ∃ pair ∈ s.pairs[i]?, pair.Doomed

/-- A step that does not meet the condition and does not fail loses a stop. -/
theorem Orderly.lost {count : Nat} {s' : EventLoopCluster} (h : s.Orderly)
    {step : ClusterStep} (henabled : (clusterMachine count).enabled s step)
    (hentered : ¬ s.Entered step)
    (hexec : (clusterMachine count).exec s step = some s') : s'.Lost := by
  cases step with
  | stopLoop =>
      obtain ⟨i, hi⟩ := Option.isSome_iff_exists.mp henabled
      have hmaster := mem_toStop.mp hi
      have hlt := h.stopping i (Or.inl hmaster)
      have hpair : s.pairs[i]? = some s.pairs[i] :=
        List.getElem?_eq_getElem hlt
      have hsound := h.sound i hlt
      rw [hmaster, MasterPc.stopCount, decide_eq_false (Nat.lt_irrefl i)]
        at hsound
      have hearly : (s.pairs[i]).pc.hasEntered = false := by
        rw [← Bool.not_eq_true]
        intro hlate
        apply hentered
        intro j hj pair hmem
        obtain rfl : i = j := Option.some.inj (hi.symm.trans hj)
        obtain rfl := Option.mem_unique hpair hmem
        exact hlate
      have hstop : s.stopLoop i = some s' :=
        (congrArg (·.bind s.stopLoop) hi).symm.trans hexec
      simp only [EventLoopCluster.stopLoop, hpair, Option.bind_eq_bind,
        Option.bind_some] at hstop
      obtain ⟨pair', hdoomed, hs'⟩ := Option.bind_eq_some_iff.mp hstop
      cases hs'
      exact ⟨i, rfl, pair', List.getElem?_set_self hlt,
        hsound.doomed hearly hdoomed⟩
  | work i =>
      exfalso
      apply hentered
      intro pair hpair hready latch hlatch
      have hwork : s.work i = some s' := hexec
      rw [Option.mem_def] at hpair hlatch
      simp only [EventLoopCluster.work, hpair, hready, if_true, onReady, hlatch,
        CountDownLatch.countDown, Option.bind_eq_bind, Option.bind_some]
        at hwork
      by_contra hfull
      rw [if_neg hfull] at hwork
      cases hwork
  | _ => exact absurd trivial hentered

theorem onReady_cases {s' : EventLoopCluster} (h : s.onReady = some s') :
    ∃ latch master, s' = { s with latch := latch, master := master } ∧
      (master = s.master ∨ s.master = .waiting ∧ master = .lock) := by
  obtain ⟨latch, _, h⟩ := Option.bind_eq_some_iff.mp h
  obtain ⟨latch', _, h⟩ := Option.bind_eq_some_iff.mp h
  cases h
  refine ⟨_, _, rfl, ?_⟩
  split
  · next hzero => exact Or.inr ⟨hzero.2, rfl⟩
  · exact Or.inl rfl

/-- A worker writes its own pair and the latch, and wakes the master. -/
theorem work_cases {i : Nat} {s' : EventLoopCluster} (h : s.work i = some s') :
    ∃ pair pair' latch master, s.pairs[i]? = some pair ∧
      pair.work = some pair' ∧
      s' = { s with
        latch := latch
        master := master
        pairs := s.pairs.set i pair' } ∧
      (master = s.master ∨ s.master = .waiting ∧ master = .lock) := by
  obtain ⟨pair, hpair, h⟩ := Option.bind_eq_some_iff.mp h
  obtain ⟨t, ht, h⟩ := Option.bind_eq_some_iff.mp h
  obtain ⟨pair', hwork, rfl⟩ := Option.map_eq_some_iff.mp h
  refine ⟨pair, pair', ?_⟩
  split at ht
  · obtain ⟨latch, master, rfl, hmaster⟩ := onReady_cases ht
    exact ⟨latch, master, hpair, hwork, rfl, hmaster⟩
  · cases ht
    exact ⟨s.latch, s.master, hpair, hwork, rfl, Or.inl rfl⟩

theorem Lost.step {count : Nat} {s' : EventLoopCluster} (h : s.Lost)
    {step : ClusterStep} (henabled : (clusterMachine count).enabled s step)
    (hexec : (clusterMachine count).exec s step = some s') : s'.Lost := by
  obtain ⟨i, hi, pair, hpair, hdoomed⟩ := h
  have hmaster := mem_toJoin.mp hi
  have hother : ∀ master, s.master = master → master = .joining i :=
    fun master h => h.symm.trans hmaster
  cases step with
  | start => cases hother _ henabled
  | startPair => cases hother _ henabled
  | lockLatch => cases hother _ henabled
  | wake => cases hother _ henabled
  | getNextLoop => cases hother _ henabled
  | stop => cases hother _ henabled
  | stopLoop =>
      obtain ⟨j, hj⟩ := Option.isSome_iff_exists.mp henabled
      cases hother _ (mem_toStop.mp hj)
  | join =>
      obtain ⟨j, hj, hended⟩ := henabled
      obtain rfl : i = j := Option.some.inj (hi.symm.trans hj)
      have hpc := hended pair hpair
      obtain ⟨hsome, hloop⟩ := hdoomed
      rw [hpc] at hloop
      exact absurd hloop hsome
  | work j =>
      obtain ⟨old, new, latch, master, hold, hwork, rfl, hsame⟩ :=
        work_cases hexec
      obtain rfl : master = .joining i := by
        rcases hsame with hsame | ⟨hwaiting, _⟩
        · exact hsame.trans hmaster
        · cases hother _ hwaiting
      rcases eq_or_ne j i with rfl | hne
      · obtain rfl := Option.mem_unique hold hpair
        have hlt := (List.getElem?_eq_some_iff.mp hold).1
        exact ⟨j, rfl, new, List.getElem?_set_self hlt, hdoomed.work hwork⟩
      · refine ⟨i, rfl, pair, ?_, hdoomed⟩
        rw [Option.mem_def, List.getElem?_set_ne hne]
        exact hpair

theorem not_lost (hkept : s.StopKept) (hsettled : s.Settled) : ¬ s.Lost := by
  rintro ⟨i, hi, pair, hpair, hsome, hloop⟩
  have hentering := hsettled i hi pair hpair
  cases hpc : pair.pc with
  | testQuit =>
      rw [hpc] at hloop
      exact absurd (hkept i hi pair hpair _ hloop rfl) (by decide)
  | onReady | assertLooping | assertQuit | clearQuit | setLooping =>
      rw [hpc] at hentering
      cases hentering
  | _ =>
      rw [hpc] at hloop
      exact hsome hloop

instance (s : EventLoopCluster) (step : ClusterStep) (count : Nat) :
    Decidable ((clusterMachine count).enabled s step) :=
  match step with
  | .start => inferInstanceAs (Decidable (s.master = .idle))
  | .startPair => inferInstanceAs (Decidable (s.master = .starting))
  | .lockLatch => inferInstanceAs (Decidable (s.master = .lock))
  | .wake => inferInstanceAs (Decidable (s.master = .waiting))
  | .work i => inferInstanceAs (Decidable (i < s.pairs.length ∧
      ¬ ∀ pair ∈ s.pairs[i]?, pair.pc = .ended))
  | .getNextLoop => inferInstanceAs (Decidable (s.master = .started))
  | .stop => inferInstanceAs (Decidable (s.master = .started))
  | .stopLoop => inferInstanceAs (Decidable (s.toStop.isSome = true))
  | .join => inferInstanceAs (Decidable (∃ i ∈ s.toJoin,
      ∀ pair ∈ s.pairs[i]?, pair.pc = .ended))

instance (s : EventLoopCluster) (step : ClusterStep) :
    Decidable (s.Entered step) :=
  match step with
  | .stopLoop => inferInstanceAs (Decidable (∀ i ∈ s.toStop,
      ∀ pair ∈ s.pairs[i]?, pair.pc.hasEntered = true))
  | .work i => inferInstanceAs (Decidable (∀ pair ∈ s.pairs[i]?,
      pair.pc = .onReady → ∀ latch ∈ s.latch, -2 ^ 31 ≤ latch.count - 1))
  | .start | .startPair | .lockLatch | .wake | .getNextLoop | .stop | .join =>
      isTrue trivial

instance (s : EventLoopCluster) : Decidable s.StopKept :=
  inferInstanceAs (Decidable (∀ i ∈ s.toJoin, ∀ pair ∈ s.pairs[i]?,
    ∀ loop ∈ pair.loop, loop.looping = true → loop.quit = true))

end EventLoopCluster

open EventLoopCluster

/-- Stop of the cluster.  In every run in which `_loop->stop()` is only called
for a worker that has stored `false` into `_quit`, no assertion fails and no loop
goes on while the master waits for its thread; and in a run that does not end
with the master waiting for a worker that is on its way into its loop, this holds
only then. -/
theorem cluster_stop_iff (count : Nat) (word : List ClusterStep)
    (hlegal : (clusterMachine count).Legal .init word) :
    ((clusterMachine count).Meets EventLoopCluster.Entered .init word →
      (clusterMachine count).Holds StopKept .init word) ∧
    ((∀ s, (clusterMachine count).run .init word = some s → s.Settled) →
      (clusterMachine count).Holds StopKept .init word →
      (clusterMachine count).Meets EventLoopCluster.Entered .init word) := by
  constructor
  · intro hentered
    exact (Machine.holds_of_step (fun s step hs hstep =>
      orderly_step step hs hstep.1 hstep.2) init_orderly
      (hlegal.and hentered)).mono fun s hs => hs.stopKept
  · intro hsettled
    apply Machine.meets_of_doomed (E := (clusterMachine count).enabled)
      (I := Orderly) (B := Lost)
    · exact fun s step hs henabled hentered =>
        orderly_step step hs henabled hentered
    · exact fun s step s' hs henabled hentered hexec _ =>
        hs.lost henabled hentered hexec
    · exact fun s step s' hs _ henabled hexec => hs.step henabled hexec
    · exact init_orderly
    · exact hlegal
    · exact fun t ht hkept => not_lost hkept (hsettled t ht)

/-- Two workers, which have executed so many lines when `start` returns. -/
def startTwo (lines : Nat) : List ClusterStep :=
  [.start, .startPair, .startPair].append
    ((List.replicate lines (.work 0)).append
      ((List.replicate lines (.work 1)).append [.lockLatch]))

/-- Both workers are in their loops when they are stopped. -/
theorem cluster_stop_iff_entered :
    (clusterMachine 2).Holds StopKept .init ((startTwo 7).append
      [.stop, .stopLoop, .work 0, .work 0, .work 0, .join, .stopLoop, .work 1,
        .work 1, .work 1, .join]) :=
  (cluster_stop_iff 2 _ (by decide +kernel)).1 (by decide +kernel)

/-- The master calls `stop` right before a worker stores `false` into `_quit`, or
before its assertion. -/
theorem cluster_stop_lost :
    let lost := (startTwo 4).append [.stop, .stopLoop, .work 0, .work 0]
    let asserted := (startTwo 3).append [.stop, .stopLoop, .work 0]
    (clusterMachine 2).Legal .init lost ∧
      ¬ (clusterMachine 2).Holds StopKept .init lost ∧
      (clusterMachine 2).Legal .init asserted ∧
      (clusterMachine 2).run .init asserted = none :=
  ⟨by decide +kernel, Machine.not_holds_of_run (by decide +kernel),
    by decide +kernel, by decide +kernel⟩

end Libsaf
