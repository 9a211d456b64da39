/-
`convert` of the logger writes an integer into a buffer, the last digit first,
and turns the text round.  The digits are looked up with the remainder of a
division that rounds to zero: they are right for every value that is not
negative.
-/
import Libsaf.Decimal

namespace Libsaf

open Decimal

/-- An integer type of at most 64 bits. -/
structure IntegerType where
  signed : Bool
  bits : Nat
  narrow : bits ≤ 64
deriving Repr, DecidableEq

namespace IntegerType

/-- The type has this value. -/
def Has (T : IntegerType) (value : Int) : Prop :=
  if T.signed then -2 ^ (T.bits - 1) ≤ value ∧ value < 2 ^ (T.bits - 1)
  else 0 ≤ value ∧ value < 2 ^ T.bits

instance (T : IntegerType) (value : Int) : Decidable (T.Has value) :=
  inferInstanceAs (Decidable (if T.signed = true then _ ∧ _ else _ ∧ _))

/-- The values of the type. -/
def Value (T : IntegerType) : Type := { value : Int // T.Has value }

def int : IntegerType := ⟨true, 32, by decide⟩

theorem two_pow_le {k m : Nat} (hk : k ≤ m) : (2 : Int) ^ k ≤ 2 ^ m := by
  exact_mod_cast Nat.pow_le_pow_right (by decide : 0 < 2) hk

theorem Has.natAbs_lt {T : IntegerType} {value : Int} (h : T.Has value) :
    value.natAbs < 2 ^ 64 := by
  have hbits := T.narrow
  unfold Has at h
  split at h
  · obtain ⟨hlow, hhigh⟩ := h
    have hhalf : (2 : Int) ^ (T.bits - 1) ≤ 2 ^ 63 := two_pow_le (by omega)
    omega
  · obtain ⟨hlow, hhigh⟩ := h
    have hwhole : (2 : Int) ^ T.bits ≤ 2 ^ 64 := two_pow_le hbits
    omega

end IntegerType

namespace Logging

def kMaxNumericSize : Nat := 32

/-- `digits`, with the zero at the end of the array. -/
def digits : List UInt8 := [48, 49, 50, 51, 52, 53, 54, 55, 56, 57, 0]

/-- `digits[lsd]`; `none` is an access out of range. -/
def digitAt (lsd : Int) : Option UInt8 :=
  if 0 ≤ lsd then digits[lsd.toNat]? else none

/-- `*p++ = c`, where `p` has the first bytes before it and the others behind. -/
def put (before behind : List UInt8) (c : UInt8) :
    Option (List UInt8 × List UInt8) :=
  match behind with
  | [] => none
  | _ :: behind => some (before ++ [c], behind)

/-- The `do` loop.  The quotient of a value of `T` is one again. -/
def convertDigits :
    List UInt8 → List UInt8 → Int → Option (List UInt8 × List UInt8)
  | _, [], _ => none
  | before, _ :: behind, i =>
      (digitAt (i.tmod 10)).bind fun c =>
        if i.tdiv 10 ≠ 0 then convertDigits (before ++ [c]) behind (i.tdiv 10)
        else some (before ++ [c], behind)

/-- The lines of `convert` behind its last `*p++`: the result, and the memory
from `buf` on. -/
def terminate (before behind : List UInt8) : Option (Nat × List UInt8) :=
  match behind with
  | [] => none
  | _ :: behind => some (before.length, before.reverse ++ 0 :: behind)

def convert {T : IntegerType} (buf : List UInt8) (value : T.Value) :
    Option (Nat × List UInt8) :=
  (convertDigits [] buf value.val).bind fun (before, behind) =>
    if value.val < 0 then
      (put before behind minus).bind fun (before, behind) =>
        terminate before behind
    else terminate before behind

/-- Every access of `digits` is in range, the text is the canonical one, it has
room with its terminating zero, and nothing else is written. -/
def Converts {T : IntegerType} (buf : List UInt8) (value : T.Value) : Prop :=
  ∃ text, IsDecimal text value.val ∧ text.length + 1 ≤ kMaxNumericSize ∧
    convert buf value =
      some (text.length, text ++ 0 :: buf.drop (text.length + 1))

theorem digitAt_eq {d : Nat} (hd : d < 10) :
    digitAt d = some (digitChar d) := by
  have hall : ∀ d : Nat, d < 10 → digitAt d = some (digitChar d) := by decide
  exact hall d hd

theorem digitAt_neg {lsd : Int} (h : lsd < 0) : digitAt lsd = none :=
  if_neg (Int.not_le.mpr h)

/-- The loop writes the digits of a number that is not negative. -/
theorem convertDigits_eq {n : Nat} {before behind : List UInt8}
    (hroom : (units n).length ≤ behind.length) :
    convertDigits before behind n = some (before ++ (units n).map digitChar,
      behind.drop (units n).length) := by
  induction behind generalizing n before with
  | nil =>
      rw [units_eq] at hroom
      simp at hroom
  | cons x behind ih =>
      have hlsd : Int.tmod n 10 = (n % 10 : Nat) :=
        Int.tmod_eq_emod_of_nonneg (Int.natCast_nonneg n)
      have hquotient : Int.tdiv n 10 = (n / 10 : Nat) :=
        Int.tdiv_eq_ediv_of_nonneg (Int.natCast_nonneg n)
      rw [convertDigits, hlsd, digitAt_eq (Nat.mod_lt n (by decide)),
        Option.bind_some, hquotient]
      rw [units_eq] at hroom ⊢
      by_cases hlast : n / 10 = 0
      · simp [hlast]
      · rw [if_neg hlast] at hroom ⊢
        rw [if_pos (by omega), ih (by simpa using hroom)]
        simp

/-- The remainder of a negative number is negative before its last digit is
reached. -/
theorem convertDigits_neg {i : Int} (hi : i < 0) (before behind : List UInt8) :
    convertDigits before behind i = none := by
  induction behind generalizing i before with
  | nil => rfl
  | cons x behind ih =>
      have hsplit := Int.mul_tdiv_add_tmod i 10
      have hlsd : i.tmod 10 ≤ 0 := by
        have := Int.tmod_nonneg 10 (Int.neg_nonneg_of_nonpos (Int.le_of_lt hi))
        rw [Int.neg_tmod] at this
        omega
      rw [convertDigits]
      rcases Int.lt_or_eq_of_le hlsd with hneg | hzero
      · rw [digitAt_neg hneg, Option.bind_none]
      · have hquotient : i.tdiv 10 < 0 := by omega
        have hchar : digitAt 0 = some (digitChar 0) := rfl
        rw [hzero, hchar, Option.bind_some, if_pos (by omega)]
        exact ih hquotient _

variable {T : IntegerType} {buf : List UInt8} {value : T.Value}

theorem convert_eq {n : Nat} (hvalue : value.val = n)
    (hroom : (natText n).length < buf.length) :
    convert buf value = some ((natText n).length,
      natText n ++ 0 :: buf.drop ((natText n).length + 1)) := by
  have hlength := length_natText n
  have hbehind : buf.drop (units n).length =
      buf[(natText n).length] :: buf.drop ((natText n).length + 1) := by
    rw [← hlength]
    exact List.drop_eq_getElem_cons hroom
  rw [convert, hvalue, convertDigits_eq (by omega), Option.bind_some]
  dsimp only
  rw [if_neg (by omega), hbehind]
  simp [terminate, natText]

theorem convert_neg (hneg : value.val < 0) : convert buf value = none := by
  rw [convert, convertDigits_neg hneg]
  rfl

/-- 20 digits are enough. -/
theorem length_digits_le (value : T.Value) :
    (natText value.val.natAbs).length ≤ 20 :=
  length_natText_le (by decide)
    (Nat.lt_trans value.property.natAbs_lt (by decide))

/-- And a sign. -/
theorem length_intText_le (value : T.Value) :
    (intText value.val).length ≤ 21 := by
  have hlength := length_digits_le value
  unfold intText
  split
  · exact Nat.succ_le_succ hlength
  · exact Nat.le_succ_of_le hlength

end Logging

open Logging

/-- The conversion of an integer for the log.  With the room that its caller
checks for, `convert` writes the canonical text of a value, and looks up only
digits that there are, if and only if the value is not negative. -/
theorem convert_iff {T : IntegerType} (buf : List UInt8) (value : T.Value)
    (hroom : kMaxNumericSize ≤ buf.length) :
    Converts buf value ↔ 0 ≤ value.val := by
  constructor
  · rintro ⟨text, _, _, hconvert⟩
    by_contra hneg
    rw [convert_neg (Int.not_le.mp hneg)] at hconvert
    cases hconvert
  · intro hvalue
    obtain ⟨n, hn⟩ := Int.eq_ofNat_of_zero_le hvalue
    have hlength : (natText n).length ≤ 20 := by
      have hdigits := length_digits_le value
      rwa [hn, Int.natAbs_natCast] at hdigits
    have hsize : (natText n).length + 1 ≤ kMaxNumericSize :=
      Nat.le_trans (Nat.succ_le_succ hlength) (by decide)
    have hdecimal : IsDecimal (natText n) value.val := by
      rw [isDecimal_iff, intText, if_neg (Int.not_lt.mpr hvalue), hn]
      rfl
    exact ⟨natText n, hdecimal, hsize,
      convert_eq hn (Nat.lt_of_lt_of_le hsize hroom)⟩

/-- Room of exactly that size. -/
theorem convert_iff_int :
    Converts (T := .int) (List.replicate 32 255) ⟨2017, by decide⟩ ↔
      0 ≤ (2017 : Int) :=
  convert_iff _ _ (by decide)

/-- The last digit of -1 is looked up with the index -1. -/
theorem convert_minus_one :
    convert (T := .int) (List.replicate 32 0) ⟨-1, by decide⟩ = none ∧
      ¬ Converts (T := .int) (List.replicate 32 0) ⟨-1, by decide⟩ := by
  have hnone : convert (T := .int) (List.replicate 32 0) ⟨-1, by decide⟩ =
      none := by decide
  refine ⟨hnone, ?_⟩
  rintro ⟨text, _, _, hconvert⟩
  rw [hnone] at hconvert
  cases hconvert

end Libsaf
