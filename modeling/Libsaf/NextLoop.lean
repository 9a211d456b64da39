/-
`EventLoopCluster::getNextLoop` hands the loops out in turn.  Its counter is an
`int` that wraps, and becomes a `size_t` before the remainder is taken: the
turns are fair as long as the count divides what the two conversions skip.
-/
import Libsaf.ClusterStop
import Libsaf.Rotation

namespace Libsaf

namespace NextLoop

/-- The pair whose loop it is. -/
def index : NextLoop → Option Nat
  | .master => none
  | .pair index _ => some index

def isNull : NextLoop → Bool
  | .master => false
  | .pair _ isNull => isNull

end NextLoop

/-- Every pair is taken once. -/
def Fair (count : Nat) (window : List NextLoop) : Prop :=
  (window.map NextLoop.index).Perm ((List.range count).map some)

/-- When one of the next `count` calls, other than the first, finds the counter
at the end of the `int`s or at -1, `count` divides what is skipped there. -/
structure Seamless (count : Nat) (counter : Int) : Prop where
  wrap : ∀ i, 1 ≤ i → i < count → toInt (counter + i) = 2 ^ 31 - 1 →
    count ∣ 2 ^ 64 - 2 ^ 32
  sign : ∀ i, 1 ≤ i → i < count → toInt (counter + i) = -1 → count ∣ 2 ^ 64

/-- The `size_t` in the call with number `i` from this counter on. -/
def ticket (counter : Int) (i : Nat) : Nat :=
  toSize (toInt (counter + (i + 1 : Nat)))

section Tickets

open Rotation

variable {counter : Int} {i j n : Nat}

theorem ticket_add (counter : Int) (k i : Nat) :
    ticket counter (k + i) = ticket (counter + k) i := by
  unfold ticket
  congr 2
  omega

/-- The counter goes up, or it is at one of its seams. -/
theorem ticket_cases (counter : Int) (i : Nat) :
    (toInt (counter + (i + 1 : Nat)) = 2 ^ 31 - 1 ∧
      ticket counter i = 2 ^ 31 - 1 ∧
      ticket counter (i + 1) = 2 ^ 64 - 2 ^ 31) ∨
    (toInt (counter + (i + 1 : Nat)) = -1 ∧
      ticket counter i = 2 ^ 64 - 1 ∧ ticket counter (i + 1) = 0) ∨
    (toInt (counter + (i + 1 : Nat)) ≠ 2 ^ 31 - 1 ∧
      toInt (counter + (i + 1 : Nat)) ≠ -1 ∧
      ticket counter (i + 1) = ticket counter i + 1) := by
  obtain ⟨p, hp⟩ := toInt_add_mul (counter + (i + 1 : Nat))
  obtain ⟨q, hq⟩ := toInt_add_mul (counter + (i + 1 + 1 : Nat))
  have hbounds := toInt_bounds (counter + (i + 1 : Nat))
  have hbounds' := toInt_bounds (counter + (i + 1 + 1 : Nat))
  by_cases hwrap : toInt (counter + (i + 1 : Nat)) = 2 ^ 31 - 1
  · have hnext : toInt (counter + (i + 1 + 1 : Nat)) = -2 ^ 31 := by omega
    exact Or.inl ⟨hwrap, by rw [ticket, hwrap]; rfl, by rw [ticket, hnext]; rfl⟩
  · have hnext : toInt (counter + (i + 1 + 1 : Nat)) =
        toInt (counter + (i + 1 : Nat)) + 1 := by omega
    by_cases hsign : toInt (counter + (i + 1 : Nat)) = -1
    · rw [hsign] at hnext
      exact Or.inr (Or.inl
        ⟨hsign, by rw [ticket, hsign]; rfl, by rw [ticket, hnext]; rfl⟩)
    · refine Or.inr (Or.inr ⟨hwrap, hsign, ?_⟩)
      rw [ticket, hnext, ticket, toSize, toSize]
      omega

theorem smooth_iff (counter : Int) (i : Nat) :
    Smooth n (ticket counter) i ↔
      (toInt (counter + (i + 1 : Nat)) = 2 ^ 31 - 1 → n ∣ 2 ^ 64 - 2 ^ 32) ∧
      (toInt (counter + (i + 1 : Nat)) = -1 → n ∣ 2 ^ 64) := by
  rcases ticket_cases counter i with
    ⟨hat, hi, hsucc⟩ | ⟨hat, hi, hsucc⟩ | ⟨hwrap, hsign, hsucc⟩
  · have hskip : Smooth n (ticket counter) i ↔ n ∣ 2 ^ 64 - 2 ^ 32 := by
      rw [Smooth, hi, hsucc, Nat.ModEq.comm, Nat.modEq_iff_dvd' (by omega)]
      rfl
    rw [hskip, hat]
    simp
  · have hskip : Smooth n (ticket counter) i ↔ n ∣ 2 ^ 64 := by
      rw [Smooth, hi, hsucc, Nat.modEq_iff_dvd' (by omega)]
      rfl
    rw [hskip, hat]
    simp
  · simp only [hwrap, hsign, false_imp_iff, and_self, iff_true]
    rw [Smooth, hsucc]

theorem seamless_iff (counter : Int) :
    Seamless n counter ↔ ∀ i, i + 1 < n → Smooth n (ticket counter) i := by
  constructor
  · intro h i hi
    exact (smooth_iff counter i).mpr ⟨h.wrap (i + 1) (by omega) hi,
      h.sign (i + 1) (by omega) hi⟩
  · intro h
    constructor
    · intro i hlow hhigh
      obtain ⟨i, rfl⟩ := Nat.exists_eq_add_of_le' hlow
      exact ((smooth_iff counter i).mp (h i hhigh)).1
    · intro i hlow hhigh
      obtain ⟨i, rfl⟩ := Nat.exists_eq_add_of_le' hlow
      exact ((smooth_iff counter i).mp (h i hhigh)).2

/-- The numbers come back after `2 ^ 32` calls. -/
theorem covers_le (h : Covers n (ticket counter)) : n ≤ 2 ^ 32 := by
  by_contra hlarge
  have hperiod : ticket counter (2 ^ 32) = ticket counter 0 := by
    obtain ⟨p, hp⟩ := toInt_add_mul (counter + (2 ^ 32 + 1 : Nat))
    obtain ⟨q, hq⟩ := toInt_add_mul (counter + (0 + 1 : Nat))
    have hbounds := toInt_bounds (counter + (2 ^ 32 + 1 : Nat))
    have hbounds' := toInt_bounds (counter + (0 + 1 : Nat))
    have hsame : toInt (counter + (2 ^ 32 + 1 : Nat)) =
        toInt (counter + (0 + 1 : Nat)) := by omega
    exact congrArg toSize hsame
  have := h.injective (i := 2 ^ 32) (j := 0) (by omega) (by omega)
    (congrArg (· % n) hperiod)
  omega

/-- Between two seams there are `2 ^ 31` calls, and the numbers go on behind the
second one as much below those before the first one. -/
theorem seams_apart (hij : i < j) (hj : j < 2 ^ 32)
    (hi : ¬ Smooth n (ticket counter) i)
    (hj' : ¬ Smooth n (ticket counter) j) :
    j = i + 2 ^ 31 ∧ ticket counter i + 1 = ticket counter (j + 1) + 2 ^ 31 := by
  obtain ⟨p, hp⟩ := toInt_add_mul (counter + (i + 1 : Nat))
  obtain ⟨q, hq⟩ := toInt_add_mul (counter + (j + 1 : Nat))
  rcases ticket_cases counter j with
    ⟨hat', _, hright⟩ | ⟨hat', _, hright⟩ | ⟨_, _, hsucc⟩
  · rcases ticket_cases counter i with
      ⟨hat, hleft, _⟩ | ⟨hat, hleft, _⟩ | ⟨_, _, hsucc⟩
    · omega
    · omega
    · exact absurd (smooth_of_eq hsucc) hi
  · rcases ticket_cases counter i with
      ⟨hat, hleft, _⟩ | ⟨hat, hleft, _⟩ | ⟨_, _, hsucc⟩
    · omega
    · omega
    · exact absurd (smooth_of_eq hsucc) hi
  · exact absurd (smooth_of_eq hsucc) hj'

/-- Two seams in one window do not make up for each other. -/
theorem covers_one_seam (h : Covers n (ticket counter)) (hij : i < j)
    (hj : j + 1 < n) : Smooth n (ticket counter) i ∨
      Smooth n (ticket counter) j := by
  have hn := covers_le h
  by_contra hseams
  obtain ⟨hi, hj'⟩ := not_or.mp hseams
  obtain ⟨hgap, hnumbers⟩ := seams_apart hij (by omega) hi hj'
  have hothers : ∀ k, k + 1 < n → k ≠ i → k ≠ j →
      Smooth n (ticket counter) k := by
    intro k hk hki hkj
    by_contra hseam
    rcases Nat.lt_or_gt_of_ne hki with hlt | hlt
    · have := (seams_apart hlt (by omega) hseam hi).1
      have := (seams_apart (hlt.trans hij) (by omega) hseam hj').1
      omega
    · have := (seams_apart hlt (by omega) hi hseam).1
      omega
  rcases h.two_seams hij hj hothers with hsmooth | hback
  · exact hi hsmooth
  · rw [hnumbers, Nat.left_modEq_add_iff] at hback
    have := Nat.le_of_dvd (by omega) hback
    omega

/-- A window is fair exactly when it fits over its seams. -/
theorem covers_iff_seamless : Covers n (ticket counter) ↔ Seamless n counter := by
  rw [seamless_iff]
  constructor
  · intro h i hi
    by_contra hseam
    apply hseam
    refine h.smooth hi fun j hj hji => ?_
    rcases Nat.lt_or_gt_of_ne hji with hlt | hlt
    · exact (covers_one_seam h hlt hi).resolve_right hseam
    · exact (covers_one_seam h hlt hj).resolve_left hseam
  · exact covers_of_smooth

/-- All windows are fair exactly for the powers of two up to `2 ^ 32`. -/
theorem seamless_forall_iff (hn : 2 ≤ n) :
    (∀ counter, Seamless n counter) ↔ n ∣ 2 ^ 32 := by
  constructor
  · intro h
    have hwrap : n ∣ 2 ^ 64 - 2 ^ 32 :=
      (h (2 ^ 31 - 2)).wrap 1 (by omega) hn (by decide)
    have hsign : n ∣ 2 ^ 64 := (h (-2)).sign 1 (by omega) hn (by decide)
    exact (Nat.dvd_sub_iff_right (by decide) hsign).mp hwrap
  · intro h counter
    have hsign : n ∣ 2 ^ 64 := h.trans (Nat.pow_dvd_pow 2 (by decide))
    exact ⟨fun _ _ _ _ => Nat.dvd_sub hsign h, fun _ _ _ _ => hsign⟩

end Tickets

/-- `stop` has been called. -/
def MasterPc.inStop : MasterPc → Bool
  | .stopping _ | .joining _ | .stopped => true
  | _ => false

namespace EventLoopCluster

/-- A cluster that has handed out loops before, and whose counter goes on from
there. -/
def counting (counter : Int) : EventLoopCluster :=
  { init with counter := counter }

/-- The loops follow the counter. -/
structure Rotating (count : Nat) (first : Int) (s : EventLoopCluster) :
    Prop where
  threads : s.master ≠ .idle → s.threadCount = count
  starting : s.master = .starting → s.pairs.length < count
  full : s.master = .lock ∨ s.master = .waiting ∨ s.master = .started →
    s.pairs.length = count
  counter : toInt s.counter = toInt (first + s.loops.length)
  loops : s.loops.map NextLoop.index =
    (List.range s.loops.length).map fun i => some (ticket first i % count)

variable {count : Nat} {first : Int} {s s' : EventLoopCluster}

theorem counting_rotating (count : Nat) (first : Int) :
    (counting first).Rotating count first where
  threads h := absurd rfl h
  starting h := by cases h
  full h := by rcases h with h | h | h <;> cases h
  counter := by simp [counting, init]
  loops := rfl

/-- A step that hands out no loop. -/
theorem Rotating.frame (h : s.Rotating count first)
    (hcounter : s'.counter = s.counter) (hloops : s'.loops = s.loops)
    (hthreads : s'.master ≠ .idle → s'.threadCount = count)
    (hstarting : s'.master = .starting → s'.pairs.length < count)
    (hfull : s'.master = .lock ∨ s'.master = .waiting ∨ s'.master = .started →
      s'.pairs.length = count) : s'.Rotating count first where
  threads := hthreads
  starting := hstarting
  full := hfull
  counter := by rw [hcounter, hloops]; exact h.counter
  loops := by rw [hloops]; exact h.loops

theorem Rotating.startCount (h : s.Rotating count first) (hcount : 2 ≤ count) :
    (s.startCount count).Rotating count first := by
  have hmany : 1 < count := hcount
  unfold EventLoopCluster.startCount
  rw [if_pos hmany]
  refine h.frame rfl rfl (fun _ => rfl) (fun _ => ?_) (fun hfull => ?_)
  · exact Nat.zero_lt_of_lt hmany
  · rcases hfull with h | h | h <;> cases h

theorem Rotating.startPair (h : s.Rotating count first)
    (hstarting : s.master = .starting) :
    s.startPair.Rotating count first := by
  have hlt := h.starting hstarting
  have hthreads : s.threadCount = count :=
    h.threads (by rw [hstarting]; exact fun h => by cases h)
  have hlength : s.startPair.pairs.length = s.pairs.length + 1 := by
    simp [EventLoopCluster.startPair]
  have hmaster : s.startPair.master =
      if s.pairs.length + 1 < count then .starting else .lock := by
    simp [EventLoopCluster.startPair, hthreads]
  refine h.frame rfl rfl (fun _ => hthreads) ?_ ?_
  · intro hmore
    by_contra hnot
    rw [hmaster, if_neg (by omega)] at hmore
    cases hmore
  · intro hfull
    rw [hlength]
    by_contra hnot
    rw [hmaster, if_pos (by omega)] at hfull
    rcases hfull with h | h | h <;> cases h

theorem Rotating.work (h : s.Rotating count first) {i : Nat}
    (hwork : s.work i = some s') : s'.Rotating count first := by
  obtain ⟨_, pair', latch, master, _, _, rfl, hmaster⟩ := work_cases hwork
  rcases hmaster with rfl | ⟨hwaiting, rfl⟩
  · exact h.frame rfl rfl h.threads
      (fun hstarting => by rw [List.length_set]; exact h.starting hstarting)
      (fun hfull => by rw [List.length_set]; exact h.full hfull)
  · refine h.frame rfl rfl (fun _ => h.threads ?_) (fun hstarting => ?_)
      (fun _ => ?_)
    · rw [hwaiting]
      exact fun h => by cases h
    · cases hstarting
    · rw [List.length_set]
      exact h.full (Or.inr (Or.inl hwaiting))

/-- The master is in `stop`, or behind it. -/
theorem Rotating.inStop (h : s.Rotating count first) (hbusy : s.master ≠ .idle)
    (pairs : List ClusterPair) {master : MasterPc}
    (hmaster : master.inStop = true) :
    Rotating count first { s with pairs := pairs, master := master } := by
  refine h.frame rfl rfl (fun _ => h.threads hbusy) ?_ ?_
  · rintro rfl
    cases hmaster
  · rintro (rfl | rfl | rfl) <;> cases hmaster

theorem stopPair_cases {i : Nat} (hstop : s.stopPair i = some s') :
    ∃ pairs master, s' = { s with pairs := pairs, master := master } ∧
      master.inStop = true := by
  unfold EventLoopCluster.stopPair at hstop
  split at hstop
  · exact ⟨s.pairs, .stopping i, (Option.some.inj hstop).symm, rfl⟩
  · split at hstop
    · exact ⟨[], .stopped, (Option.some.inj hstop).symm, rfl⟩
    · cases hstop

/-- `stop` writes the pairs. -/
theorem stop_cases {step : ClusterStep}
    (hstep : step = .stop ∨ step = .stopLoop ∨ step = .join)
    (hexec : (clusterMachine count).exec s step = some s') :
    ∃ pairs master, s' = { s with pairs := pairs, master := master } ∧
      master.inStop = true := by
  rcases hstep with rfl | rfl | rfl
  · exact stopPair_cases hexec
  · obtain ⟨i, _, hstop⟩ := Option.bind_eq_some_iff.mp hexec
    obtain ⟨pair, _, hstop⟩ := Option.bind_eq_some_iff.mp hstop
    obtain ⟨pair', _, hstop⟩ := Option.bind_eq_some_iff.mp hstop
    exact ⟨_, _, (Option.some.inj hstop).symm, rfl⟩
  · obtain ⟨i, _, hjoin⟩ := Option.bind_eq_some_iff.mp hexec
    obtain ⟨pair, _, hjoin⟩ := Option.bind_eq_some_iff.mp hjoin
    obtain ⟨pairs, master, rfl, hin⟩ := stopPair_cases hjoin
    exact ⟨pairs, master, rfl, hin⟩

/-- The cluster has been started when it is stopped. -/
theorem stop_busy {step : ClusterStep}
    (hstep : step = .stop ∨ step = .stopLoop ∨ step = .join)
    (henabled : (clusterMachine count).enabled s step) :
    s.master ≠ .idle := by
  intro hidle
  rcases hstep with rfl | rfl | rfl
  · cases hidle.symm.trans henabled
  · obtain ⟨i, hi⟩ := Option.isSome_iff_exists.mp henabled
    cases hidle.symm.trans (mem_toStop.mp hi)
  · obtain ⟨i, hi, _⟩ := henabled
    cases hidle.symm.trans (mem_toJoin.mp hi)

theorem Rotating.stop (h : s.Rotating count first) {step : ClusterStep}
    (hstep : step = .stop ∨ step = .stopLoop ∨ step = .join)
    (henabled : (clusterMachine count).enabled s step)
    (hexec : (clusterMachine count).exec s step = some s') :
    s'.Rotating count first := by
  obtain ⟨pairs, master, rfl, hin⟩ := stop_cases hstep hexec
  exact h.inStop (stop_busy hstep henabled) pairs hin

/-- The next number is taken modulo the count. -/
theorem Rotating.getNextLoop (h : s.Rotating count first) (hcount : 2 ≤ count)
    (hstarted : s.master = .started) (hnext : s.getNextLoop = some s') :
    s'.Rotating count first := by
  have hthreads : s.threadCount = count :=
    h.threads (by rw [hstarted]; exact fun h => by cases h)
  have hlength := h.full (Or.inr (Or.inr hstarted))
  unfold EventLoopCluster.getNextLoop at hnext
  rw [if_neg (by omega)] at hnext
  obtain ⟨pair, _, rfl⟩ := Option.map_eq_some_iff.mp hnext
  have hcounter : toInt (s.counter + 1) =
      toInt (first + (s.loops.length + 1 : Nat)) := by
    rw [← toInt_add_toInt, h.counter, toInt_add_toInt]
    congr 1
    omega
  refine ⟨h.threads, h.starting, h.full, ?_, ?_⟩
  · rw [toInt_toInt, hcounter, List.length_append, List.length_singleton]
  · rw [List.map_append, h.loops, List.length_append, List.length_singleton,
      List.range_succ, List.map_append, hlength, hcounter]
    rfl

theorem Rotating.step (hcount : 2 ≤ count) {step : ClusterStep}
    (h : s.Rotating count first)
    (henabled : (clusterMachine count).enabled s step)
    (hexec : (clusterMachine count).exec s step = some s') :
    s'.Rotating count first := by
  cases step with
  | start =>
      obtain rfl := Option.some.inj hexec
      exact h.startCount hcount
  | startPair =>
      obtain rfl := Option.some.inj hexec
      exact h.startPair henabled
  | lockLatch =>
      have hlock : s.master = .lock := henabled
      obtain ⟨latch, _, hlatch⟩ := Option.bind_eq_some_iff.mp hexec
      obtain rfl := Option.some.inj hlatch
      refine h.frame rfl rfl (fun _ => h.threads ?_) (fun hstarting => ?_)
        (fun _ => h.full (Or.inl hlock))
      · rw [hlock]
        exact fun h => by cases h
      · dsimp only at hstarting
        split at hstarting <;> cases hstarting
  | wake =>
      have hwaiting : s.master = .waiting := henabled
      obtain rfl := Option.some.inj hexec
      refine h.frame rfl rfl (fun _ => h.threads ?_) (fun hstarting => ?_)
        (fun _ => h.full (Or.inr (Or.inl hwaiting)))
      · rw [hwaiting]
        exact fun h => by cases h
      · cases hstarting
  | work i => exact h.work hexec
  | getNextLoop => exact h.getNextLoop hcount henabled hexec
  | stop => exact h.stop (by simp) henabled hexec
  | stopLoop => exact h.stop (by simp) henabled hexec
  | join => exact h.stop (by simp) henabled hexec

theorem rotating_run (hcount : 2 ≤ count) {word : List ClusterStep}
    (hlegal : (clusterMachine count).Legal (counting first) word)
    (hrun : (clusterMachine count).run (counting first) word = some s) :
    s.Rotating count first :=
  Machine.invariant_run (fun _ _ _ hs henabled hexec =>
    hs.step hcount henabled hexec) (counting_rotating count first) hlegal hrun

/-- The window of `count` calls behind the first `k`. -/
theorem Rotating.window (h : s.Rotating count first) {k : Nat}
    (hk : k + count ≤ s.loops.length) :
    ((s.loops.drop k).take count).map NextLoop.index =
      (List.range count).map fun i => some (ticket (first + k) i % count) := by
  rw [List.map_take, List.map_drop, h.loops]
  apply List.ext_getElem
  · simp only [List.length_take, List.length_drop, List.length_map,
      List.length_range]
    omega
  · intro i hi _
    simp [ticket_add]

theorem Rotating.fair_iff (h : s.Rotating count first) {k : Nat}
    (hk : k + count ≤ s.loops.length) :
    Fair count ((s.loops.drop k).take count) ↔ Seamless count (first + k) := by
  rw [Fair, h.window hk, ← covers_iff_seamless, Rotation.Covers,
    ← List.map_perm_map_iff (Option.some_injective Nat), List.map_map]
  rfl

/-- In a cluster that starts up well, no loop that was handed out is null. -/
def Published (count : Nat) (s : EventLoopCluster) : Prop :=
  s.Starting count ∨
    s.master.inStop = true ∧ ∀ next ∈ s.loops, next.isNull = false

theorem Published.loops (h : s.Published count) :
    ∀ next ∈ s.loops, next.isNull = false := by
  rcases h with hstarting | ⟨_, hloops⟩
  · intro next hnext
    obtain ⟨index, _, rfl⟩ := hstarting.loops next hnext
    rfl
  · exact hloops

theorem published_step (hcount : 2 ≤ count) (hsmall : count < 2 ^ 31)
    {step : ClusterStep} (h : s.Published count)
    (henabled : (clusterMachine count).enabled s step)
    (hexec : (clusterMachine count).exec s step = some s') :
    s'.Published count := by
  by_cases hstop : step = .stop ∨ step = .stopLoop ∨ step = .join
  · obtain ⟨pairs, master, rfl, hin⟩ := stop_cases hstop hexec
    exact Or.inr ⟨hin, h.loops⟩
  · rcases h with hstarting | ⟨hin, hloops⟩
    · obtain ⟨t, ht, hkept⟩ := starting_step hcount hsmall step hstarting
        henabled fun h => hstop (Or.inl h)
      obtain rfl := Option.some.inj (hexec.symm.trans ht)
      exact Or.inl hkept
    · have hother : ∀ master, s.master = master → master.inStop = true := by
        rintro _ rfl
        exact hin
      cases step with
      | start => cases hother _ henabled
      | startPair => cases hother _ henabled
      | lockLatch => cases hother _ henabled
      | wake => cases hother _ henabled
      | getNextLoop => cases hother _ henabled
      | work i =>
          obtain ⟨_, _, _, _, _, _, rfl, hmaster⟩ := work_cases hexec
          rcases hmaster with rfl | ⟨hwaiting, _⟩
          · exact Or.inr ⟨hin, hloops⟩
          · cases hother _ hwaiting
      | stop | stopLoop | join => simp at hstop

theorem published_run (hcount : 2 ≤ count) (hsmall : count < 2 ^ 31)
    {word : List ClusterStep}
    (hlegal : (clusterMachine count).Legal (counting first) word)
    (hrun : (clusterMachine count).run (counting first) word = some s) :
    s.Published count := by
  refine Machine.invariant_run (fun _ _ _ hs henabled hexec =>
    published_step hcount hsmall hs henabled hexec) (Or.inl ?_) hlegal hrun
  obtain ⟨idle, latch, starting, full, counted, running, pairs, loops⟩ :=
    @init_starting count
  exact ⟨idle, latch, starting, full, counted, running, pairs, loops⟩

theorem getNextLoop_cases (hnext : s.getNextLoop = some s') :
    s'.master = s.master ∧ s'.loops.length = s.loops.length + 1 := by
  unfold EventLoopCluster.getNextLoop at hnext
  split at hnext
  · obtain rfl := Option.some.inj hnext
    exact ⟨rfl, List.length_append⟩
  · obtain ⟨pair, _, rfl⟩ := Option.map_eq_some_iff.mp hnext
    exact ⟨rfl, List.length_append⟩

/-- A started cluster hands out as many loops as it is asked for. -/
theorem getNextLoop_run (hcount : 2 ≤ count) (h : s.Starting count)
    (hstarted : s.master = .started) (calls : Nat) :
    ∃ t, (clusterMachine count).Legal s (List.replicate calls .getNextLoop) ∧
      (clusterMachine count).run s (List.replicate calls .getNextLoop) =
        some t ∧
      t.loops.length = s.loops.length + calls := by
  induction calls generalizing s with
  | zero => exact ⟨s, trivial, rfl, rfl⟩
  | succ calls ih =>
      obtain ⟨s', hnext, h'⟩ := h.getNextLoop hcount hstarted
      obtain ⟨hmaster, hlength⟩ := getNextLoop_cases hnext
      obtain ⟨t, hlegal, hrun, hloops⟩ := ih h' (hmaster.trans hstarted)
      have hexec : (clusterMachine count).exec s .getNextLoop = some s' := hnext
      rw [List.replicate_succ]
      refine ⟨t, Machine.meets_cons hstarted hexec hlegal,
        (Machine.run_cons hexec).trans hrun, ?_⟩
      omega

/-- The start of the cluster, and so many calls of `getNextLoop`. -/
def handOut (count calls : Nat) : List ClusterStep :=
  startPairs count ++ countDowns count ++ [.lockLatch] ++
    List.replicate calls .getNextLoop

theorem handOut_run (hcount : 2 ≤ count) (hsmall : count < 2 ^ 31)
    (calls : Nat) :
    ∃ t, (clusterMachine count).Legal (counting 0) (handOut count calls) ∧
      (clusterMachine count).run (counting 0) (handOut count calls) = some t ∧
      t.loops.length = calls := by
  have hint : toInt count = count := toInt_natCast hsmall
  obtain ⟨hlegal, hrun⟩ := countDowns_run hcount (Nat.le_refl count)
    (by omega : -2 ^ 31 ≤ toInt count - count)
  have hnext : (clusterMachine count).Legal
      (hasty count (toInt count) count) [.lockLatch] :=
    ⟨rfl, fun _ _ => trivial⟩
  obtain ⟨hlegal', hrun'⟩ := Machine.legal_append hlegal hrun hnext
  have hreturn : (clusterMachine count).run (hasty count (toInt count) count)
      [.lockLatch] = some
        { hasty count (toInt count) count with master := .started } := by
    simp [Machine.run, clusterMachine, lockLatch, hasty, hint]
  have hsteps : (clusterMachine count).Meets (fun _ step => step ≠ .stop) init
      (startPairs count ++ countDowns count ++ [.lockLatch]) := by
    refine Machine.meets_of_forall fun step hstep _ => ?_
    rintro rfl
    rcases List.mem_append.mp hstep with hfront | hback
    · exact stop_not_mem_countDowns count hfront
    · simp at hback
  obtain ⟨t, ht, hstarting⟩ := (Machine.holds_of_step
    (fun s step hs hstep => starting_step hcount hsmall step hs hstep.1
      hstep.2) init_starting (hlegal'.and hsteps)).last
  obtain rfl := Option.some.inj (ht.symm.trans (hrun'.trans hreturn))
  obtain ⟨u, hcalls, hrun'', hlength⟩ :=
    getNextLoop_run hcount hstarting rfl calls
  obtain ⟨hlegal'', hword⟩ := Machine.legal_append hlegal' ht hcalls
  exact ⟨u, hlegal'', hword.trans hrun'', hlength.trans (Nat.zero_add calls)⟩

end EventLoopCluster

open EventLoopCluster

/-- Round robin.  In every run, any `count` consecutive calls of `getNextLoop`
return every loop once if and only if `count` divides what the counter skips on
the way; and if the count is an `int`, none of the loops is null. -/
theorem getNextLoop_fair_iff (count : Nat) (hcount : 2 ≤ count) (first : Int)
    {word : List ClusterStep} {s : EventLoopCluster}
    (hlegal : (clusterMachine count).Legal (counting first) word)
    (hrun : (clusterMachine count).run (counting first) word = some s)
    {k : Nat} (hk : k + count ≤ s.loops.length) :
    (Fair count ((s.loops.drop k).take count) ↔ Seamless count (first + k)) ∧
      (count < 2 ^ 31 → ∀ next ∈ s.loops, next.isNull = false) := by
  constructor
  · exact (rotating_run hcount hlegal hrun).fair_iff hk
  · intro hsmall
    exact (published_run hcount hsmall hlegal hrun).loops

/-- Two threads, of which one call each is asked for. -/
theorem getNextLoop_fair_two :
    ∃ s, (clusterMachine 2).run (counting 0) (handOut 2 2) = some s ∧
      Fair 2 (s.loops.take 2) := by
  obtain ⟨s, hlegal, hrun, hlength⟩ :=
    @handOut_run 2 (by decide) (by decide) 2
  have hfits : Seamless 2 (0 + (0 : Nat)) :=
    (seamless_forall_iff (by decide)).mpr (by decide) _
  exact ⟨s, hrun, (getNextLoop_fair_iff 2 (by decide) 0 hlegal hrun
    (k := 0) (by omega)).1.mpr hfits⟩

/-- With three threads the counter passes -1 after `2 ^ 32 - 1` calls, and the
loop of the first pair is returned twice in turn. -/
theorem getNextLoop_unfair :
    ∃ s, (clusterMachine 3).Legal (counting 0) (handOut 3 (2 ^ 32 + 1)) ∧
      (clusterMachine 3).run (counting 0) (handOut 3 (2 ^ 32 + 1)) = some s ∧
      ((s.loops.drop (2 ^ 32 - 2)).take 3).map NextLoop.index =
        [some 0, some 0, some 1] ∧
      ¬ Fair 3 ((s.loops.drop (2 ^ 32 - 2)).take 3) := by
  obtain ⟨s, hlegal, hrun, hlength⟩ :=
    @handOut_run 3 (by decide) (by decide) (2 ^ 32 + 1)
  have hrotating := rotating_run (by decide) hlegal hrun
  have hk : 2 ^ 32 - 2 + 3 ≤ s.loops.length := by omega
  have hwindow : ((s.loops.drop (2 ^ 32 - 2)).take 3).map NextLoop.index =
      [some 0, some 0, some 1] := (hrotating.window hk).trans (by decide)
  refine ⟨s, hlegal, hrun, hwindow, fun hfair => ?_⟩
  rw [Fair, hwindow] at hfair
  exact absurd hfair (by decide)

end Libsaf
