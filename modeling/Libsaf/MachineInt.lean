/-
Integers of a 64-bit machine as mathematical integers: conversions to the
types of fixed width, in two's complement.
-/
import Mathlib.Tactic.Common
import Mathlib.Algebra.Group.Int.Defs
import Mathlib.Algebra.Group.Nat.Defs

namespace Libsaf

/-- Conversion of an integer to `int`. -/
def toInt (n : Int) : Int := n.bmod (2 ^ 32)

/-- Conversion of an `int` to `size_t`. -/
def toSize (i : Int) : Nat := (i % 2 ^ 64).toNat

/-- Conversion of an integer to `long`. -/
def toLong (n : Int) : Int := n.bmod (2 ^ 64)

theorem toInt_natCast {n : Nat} (h : n < 2 ^ 31) : toInt n = n := by
  rw [toInt, Int.bmod_def]
  split <;> omega

theorem toInt_bounds (n : Int) : -2 ^ 31 ≤ toInt n ∧ toInt n < 2 ^ 31 := by
  rw [toInt, Int.bmod_def]
  split <;> omega

/-- Conversion to `int` adds a multiple of `2 ^ 32`. -/
theorem toInt_add_mul (n : Int) : ∃ q, n = toInt n + 2 ^ 32 * q :=
  ⟨n.bdiv (2 ^ 32), (Int.bmod_add_bdiv n (2 ^ 32)).symm⟩

theorem toInt_add_toInt (m n : Int) : toInt (toInt m + n) = toInt (m + n) :=
  Int.bmod_add_bmod

theorem toInt_toInt (n : Int) : toInt (toInt n) = toInt n :=
  Int.bmod_bmod

theorem toLong_add_toLong (m n : Int) :
    toLong (toLong m + n) = toLong (m + n) := Int.bmod_add_bmod

theorem toLong_eq {n : Int} (hlow : -2 ^ 63 ≤ n) (hhigh : n < 2 ^ 63) :
    toLong n = n := by
  rw [toLong, Int.bmod_def]
  split <;> omega

theorem toLong_lt (n : Int) : toLong n < 2 ^ 63 := by
  rw [toLong, Int.bmod_def]
  split <;> omega

theorem toSize_natCast {n : Nat} (h : n < 2 ^ 64) : toSize n = n := by
  unfold toSize
  omega

end Libsaf
