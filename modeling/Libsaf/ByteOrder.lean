/-
Unsigned numbers as runs of bytes, in both orders.  A little-endian host
stores a number least significant byte first, and the network order is the
reverse of that.
-/
import Mathlib.Tactic.Common
import Mathlib.Data.List.Basic
import Mathlib.Algebra.Order.Ring.Nat

namespace Libsaf

namespace ByteOrder

/-- The `k` lowest bytes of a number, least significant first. -/
def leBytes : Nat → Nat → List UInt8
  | 0, _ => []
  | k + 1, n => UInt8.ofNat n :: leBytes k (n / 256)

/-- The number stored in a run of bytes, least significant first. -/
def leNat : List UInt8 → Nat
  | [] => 0
  | x :: xs => x.toNat + 256 * leNat xs

/-- The number stored in a run of bytes, most significant first. -/
def beNat (bytes : List UInt8) : Nat := leNat bytes.reverse

/-- Reverse the order of the `k` lowest bytes. -/
def byteSwap (k n : Nat) : Nat := leNat (leBytes k n).reverse

@[simp] theorem length_leBytes (k n : Nat) : (leBytes k n).length = k := by
  induction k generalizing n with
  | zero => rfl
  | succ k ih => simp [leBytes, ih]

theorem leNat_lt (bytes : List UInt8) : leNat bytes < 256 ^ bytes.length := by
  induction bytes with
  | nil => simp [leNat]
  | cons x xs ih =>
      have hx : x.toNat < 256 := x.toNat_lt
      simp only [leNat, List.length_cons, Nat.pow_succ]
      omega

theorem leNat_leBytes (k n : Nat) : leNat (leBytes k n) = n % 256 ^ k := by
  induction k generalizing n with
  | zero => simp [leBytes, leNat, Nat.mod_one]
  | succ k ih =>
      have hsplit : n % 256 ^ (k + 1) = n % 256 + 256 * (n / 256 % 256 ^ k) := by
        rw [Nat.pow_succ, Nat.mul_comm, Nat.mod_mul]
      rw [leBytes, leNat, ih, hsplit, UInt8.toNat_ofNat']

theorem leBytes_injective {k n m : Nat} (hn : n < 256 ^ k) (hm : m < 256 ^ k)
    (h : leBytes k n = leBytes k m) : n = m := by
  rw [← Nat.mod_eq_of_lt hn, ← leNat_leBytes, h, leNat_leBytes,
    Nat.mod_eq_of_lt hm]

theorem leBytes_leNat (bytes : List UInt8) :
    leBytes bytes.length (leNat bytes) = bytes := by
  induction bytes with
  | nil => rfl
  | cons x xs ih =>
      have hx : x.toNat < 256 := x.toNat_lt
      have hlow : UInt8.ofNat (x.toNat + 256 * leNat xs) = x := by
        apply UInt8.toNat_inj.mp
        rw [UInt8.toNat_ofNat']
        omega
      have hhigh : (x.toNat + 256 * leNat xs) / 256 = leNat xs := by omega
      rw [List.length_cons, leNat, leBytes, hlow, hhigh, ih]

/-- A number is read back from the front of the bytes that it starts. -/
theorem leNat_take_leBytes {k n : Nat} (hn : n < 256 ^ k)
    (rest : List UInt8) : leNat ((leBytes k n ++ rest).take k) = n := by
  rw [List.take_left' (length_leBytes k n), leNat_leBytes,
    Nat.mod_eq_of_lt hn]

theorem drop_leBytes (k n : Nat) (rest : List UInt8) :
    (leBytes k n ++ rest).drop k = rest :=
  List.drop_left' (length_leBytes k n)

/-- Enough bytes are stored back as they were read. -/
theorem leBytes_leNat_take {k : Nat} {bytes : List UInt8}
    (h : k ≤ bytes.length) :
    leNat (bytes.take k) < 256 ^ k ∧
      leBytes k (leNat (bytes.take k)) ++ bytes.drop k = bytes := by
  have hlen : (bytes.take k).length = k := by
    rw [List.length_take, Nat.min_eq_left h]
  have hlt := leNat_lt (bytes.take k)
  have hbytes := leBytes_leNat (bytes.take k)
  rw [hlen] at hlt hbytes
  exact ⟨hlt, by rw [hbytes, List.take_append_drop]⟩

/-- Swapping what was read in host order reads it in network order. -/
theorem byteSwap_leNat (bytes : List UInt8) :
    byteSwap bytes.length (leNat bytes) = beNat bytes := by
  rw [byteSwap, leBytes_leNat, beNat]

/-- Storing a swapped number in host order stores it in network order. -/
theorem leBytes_byteSwap (k n : Nat) :
    leBytes k (byteSwap k n) = (leBytes k n).reverse := by
  have h := leBytes_leNat (leBytes k n).reverse
  rwa [List.length_reverse, length_leBytes] at h

theorem byteSwap_lt (k n : Nat) : byteSwap k n < 256 ^ k := by
  have h := leNat_lt (leBytes k n).reverse
  rwa [List.length_reverse, length_leBytes] at h

end ByteOrder

end Libsaf
