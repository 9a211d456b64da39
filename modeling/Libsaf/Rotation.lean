/-
Numbers that go round: when the first `n` values of a sequence take every
remainder of `n` once.  The sequence goes up by one, except at its seams.
-/
import Mathlib.Tactic.Common
import Mathlib.Data.Nat.ModEq
import Mathlib.Data.List.Nodup
import Mathlib.Data.List.Perm.Subperm

namespace Libsaf

namespace Rotation

/-- The first `n` values take every remainder once. -/
def Covers (n : Nat) (f : Nat → Nat) : Prop :=
  ((List.range n).map fun i => f i % n).Perm (List.range n)

/-- From `i` to its successor the value goes up by one, modulo `n`. -/
def Smooth (n : Nat) (f : Nat → Nat) (i : Nat) : Prop :=
  f (i + 1) ≡ f i + 1 [MOD n]

variable {n : Nat} {f : Nat → Nat}

theorem smooth_of_eq {i : Nat} (h : f (i + 1) = f i + 1) : Smooth n f i :=
  congrArg (· % n) h

theorem Covers.injective (h : Covers n f) {i j : Nat} (hi : i < n) (hj : j < n)
    (heq : f i ≡ f j [MOD n]) : i = j := by
  have hnodup : ((List.range n).map fun i => f i % n).Nodup :=
    h.symm.nodup List.nodup_range
  exact List.inj_on_of_nodup_map hnodup (List.mem_range.mpr hi)
    (List.mem_range.mpr hj) heq

/-- Every number is met, modulo `n`. -/
theorem Covers.surjective (h : Covers n f) (hn : 0 < n) (m : Nat) :
    ∃ i < n, f i ≡ m [MOD n] := by
  have hmem : m % n ∈ (List.range n).map fun i => f i % n :=
    h.symm.subset (List.mem_range.mpr (Nat.mod_lt m hn))
  obtain ⟨i, hi, heq⟩ := List.mem_map.mp hmem
  exact ⟨i, List.mem_range.mp hi, heq⟩

/-- No remainder twice is every remainder once. -/
theorem covers_of_injective
    (h : ∀ i < n, ∀ j < n, f i ≡ f j [MOD n] → i = j) : Covers n f := by
  have hnodup : ((List.range n).map fun i => f i % n).Nodup := by
    refine List.Nodup.map_on (fun i hi j hj => ?_) List.nodup_range
    exact h i (List.mem_range.mp hi) j (List.mem_range.mp hj)
  have hsubset : ((List.range n).map fun i => f i % n) ⊆ List.range n := by
    intro m hm
    obtain ⟨i, hi, rfl⟩ := List.mem_map.mp hm
    have hn : 0 < n := Nat.zero_lt_of_lt (List.mem_range.mp hi)
    exact List.mem_range.mpr (Nat.mod_lt _ hn)
  exact (List.subperm_of_subset hnodup hsubset).perm_of_length_le (by simp)

/-- Without a seam on the way the values go up with the position. -/
theorem modEq_add {i k : Nat} (h : ∀ j, i ≤ j → j < i + k → Smooth n f j) :
    f (i + k) ≡ f i + k [MOD n] := by
  induction k with
  | zero => rfl
  | succ k ih =>
      have hstep : f (i + k + 1) ≡ f (i + k) + 1 [MOD n] :=
        h (i + k) (by omega) (by omega)
      have hrest : f (i + k) ≡ f i + k [MOD n] :=
        ih fun j hlow hhigh => h j hlow (by omega)
      exact hstep.trans (hrest.add_right 1)

/-- Less than `n` steps do not come back. -/
theorem not_modEq_add {m k : Nat} (hk : 0 < k) (hkn : k < n) :
    ¬ m ≡ m + k [MOD n] := by
  intro h
  have hzero : 0 ≡ k [MOD n] := Nat.ModEq.add_left_cancel' m (by simpa using h)
  have := Nat.ModEq.eq_of_lt_of_lt hzero (by omega) hkn
  omega

theorem covers_of_smooth (h : ∀ i, i + 1 < n → Smooth n f i) : Covers n f := by
  have hlt : ∀ i j, i < j → j < n → ¬ f i ≡ f j [MOD n] := by
    intro i j hij hj heq
    obtain ⟨k, rfl⟩ := Nat.exists_eq_add_of_le (Nat.le_of_lt hij)
    have hadd : f (i + k) ≡ f i + k [MOD n] :=
      modEq_add fun l _ hl => h l (by omega)
    exact not_modEq_add (by omega) (by omega) (heq.trans hadd)
  refine covers_of_injective fun i hi j hj heq => ?_
  rcases Nat.lt_trichotomy i j with hij | hij | hij
  · exact absurd heq (hlt i j hij hj)
  · exact hij
  · exact absurd heq.symm (hlt j i hij hi)

/-- The successor of a value is met behind a seam, if the way to it is without
one. -/
theorem Covers.successor (h : Covers n f) {i : Nat} (hi : i + 1 < n)
    (hbefore : ∀ j < i, Smooth n f j) :
    Smooth n f i ∨
      ∃ j, j ≠ i ∧ j + 1 < n ∧ ¬ Smooth n f j ∧ f (j + 1) ≡ f i + 1 [MOD n] := by
  obtain ⟨k, hk, heq⟩ := h.surjective (by omega) (f i + 1)
  cases k with
  | zero =>
      have hadd : f (0 + i) ≡ f 0 + i [MOD n] :=
        modEq_add fun j _ hj => hbefore j (by omega)
      rw [Nat.zero_add] at hadd
      have hback : f 0 ≡ f 0 + (i + 1) [MOD n] :=
        heq.trans (hadd.add_right 1)
      exact absurd hback (not_modEq_add (by omega) hi)
  | succ j =>
      by_cases hji : j = i
      · subst hji
        exact Or.inl heq
      · refine Or.inr ⟨j, hji, hk, fun hsmooth => hji ?_, heq⟩
        have hsame : f j + 1 ≡ f i + 1 [MOD n] := hsmooth.symm.trans heq
        exact h.injective (by omega) (by omega)
          (Nat.ModEq.add_right_cancel' 1 hsame)

/-- A single seam has to fit. -/
theorem Covers.smooth (h : Covers n f) {i : Nat} (hi : i + 1 < n)
    (hothers : ∀ j, j + 1 < n → j ≠ i → Smooth n f j) : Smooth n f i := by
  rcases h.successor hi fun j hj => hothers j (by omega) (by omega) with
    hsmooth | ⟨j, hji, hj, hseam, _⟩
  · exact hsmooth
  · exact absurd (hothers j hj hji) hseam

/-- If the first of two seams does not fit, the values go on behind the second
one. -/
theorem Covers.two_seams (h : Covers n f) {i k : Nat} (hik : i < k)
    (hk : k + 1 < n)
    (hothers : ∀ j, j + 1 < n → j ≠ i → j ≠ k → Smooth n f j) :
    Smooth n f i ∨ f (k + 1) ≡ f i + 1 [MOD n] := by
  rcases h.successor (by omega : i + 1 < n)
      fun j hj => hothers j (by omega) (by omega) (by omega) with
    hsmooth | ⟨j, hji, hj, hseam, heq⟩
  · exact Or.inl hsmooth
  · by_cases hjk : j = k
    · subst hjk
      exact Or.inr heq
    · exact absurd (hothers j hj hji hjk) hseam

end Rotation

end Libsaf
