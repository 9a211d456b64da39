/-
Decimal numerals as text: the digits of a number with the first one in front,
and a minus sign before those of a negative number.  A numeral is canonical when
it has no leading zero; there is one for every number.
-/
import Mathlib.Tactic.Common
import Mathlib.Data.Nat.Digits.Lemmas

namespace Libsaf

namespace Decimal

/-- The character of a digit. -/
def digitChar (d : Nat) : UInt8 := UInt8.ofNat (48 + d)

def digitValue (c : UInt8) : Nat := c.toNat - 48

/-- The minus sign. -/
def minus : UInt8 := 45

/-- The digits of a number, the last one first.  There is at least one. -/
def units (n : Nat) : List Nat := if n = 0 then [0] else Nat.digits 10 n

def natText (n : Nat) : List UInt8 := ((units n).map digitChar).reverse

def intText (i : Int) : List UInt8 :=
  if i < 0 then minus :: natText i.natAbs else natText i.natAbs

/-- The number that a run of digits stands for. -/
def readNat (text : List UInt8) : Nat :=
  text.foldl (fun n c => 10 * n + digitValue c) 0

def IsDigit (c : UInt8) : Prop := 48 ≤ c.toNat ∧ c.toNat ≤ 57

/-- A canonical numeral of a natural number. -/
structure IsNumeral (text : List UInt8) (n : Nat) : Prop where
  nonempty : text ≠ []
  digits : ∀ c ∈ text, IsDigit c
  leading : text.head? = some (digitChar 0) → text = [digitChar 0]
  value : readNat text = n

/-- A canonical numeral of an integer: the minus sign is there exactly for the
negative ones. -/
def IsDecimal (text : List UInt8) (i : Int) : Prop :=
  if i < 0 then ∃ numeral, text = minus :: numeral ∧ IsNumeral numeral i.natAbs
  else IsNumeral text i.natAbs

instance (c : UInt8) : Decidable (IsDigit c) :=
  inferInstanceAs (Decidable (48 ≤ c.toNat ∧ c.toNat ≤ 57))

variable {n : Nat} {text : List UInt8}

/-- The last digit, and those of the quotient. -/
theorem units_eq (n : Nat) :
    units n = n % 10 :: if n / 10 = 0 then [] else units (n / 10) := by
  by_cases hzero : n = 0
  · subst hzero
    rfl
  · rw [units, if_neg hzero, Nat.digits_def' (by decide) (by omega)]
    by_cases hlast : n / 10 = 0
    · rw [if_pos hlast, hlast, Nat.digits_zero]
    · rw [if_neg hlast, units, if_neg hlast]

theorem units_lt {d : Nat} (hd : d ∈ units n) : d < 10 := by
  unfold units at hd
  split at hd
  · obtain rfl := List.mem_singleton.mp hd
    decide
  · exact Nat.digits_lt_base (by decide) hd

theorem units_ne_nil (n : Nat) : units n ≠ [] := by
  rw [units_eq]
  exact List.cons_ne_nil _ _

theorem ofDigits_units (n : Nat) : Nat.ofDigits 10 (units n) = n := by
  unfold units
  split
  · next hzero => rw [hzero]; rfl
  · exact Nat.ofDigits_digits 10 n

theorem length_units_le {k : Nat} (hk : 0 < k) (hn : n < 10 ^ k) :
    (units n).length ≤ k := by
  unfold units
  split
  · exact hk
  · exact (Nat.digits_length_le_iff (by decide) n).mpr hn

theorem digitValue_digitChar {d : Nat} (hd : d < 10) :
    digitValue (digitChar d) = d := by
  rw [digitValue, digitChar, UInt8.toNat_ofNat']
  omega

theorem digitChar_digitValue {c : UInt8} (hc : IsDigit c) :
    digitChar (digitValue c) = c := by
  apply UInt8.toNat_inj.mp
  rw [digitChar, digitValue, UInt8.toNat_ofNat']
  obtain ⟨hlow, hhigh⟩ := hc
  omega

theorem isDigit_digitChar {d : Nat} (hd : d < 10) : IsDigit (digitChar d) := by
  rw [IsDigit, digitChar, UInt8.toNat_ofNat']
  omega

theorem readNat_eq (text : List UInt8) :
    readNat text = Nat.ofDigits 10 (text.reverse.map digitValue) := by
  rw [Nat.ofDigits_eq_foldr, List.foldr_map, List.foldr_reverse, readNat]
  congr 1
  funext n c
  exact Nat.add_comm _ _

theorem readNat_natText (n : Nat) : readNat (natText n) = n := by
  have hvalues : (natText n).reverse.map digitValue = units n := by
    rw [natText, List.reverse_reverse, List.map_map]
    refine (List.map_congr_left fun d hd => ?_).trans (List.map_id _)
    exact digitValue_digitChar (units_lt hd)
  rw [readNat_eq, hvalues, ofDigits_units]

theorem natText_injective : Function.Injective natText :=
  Function.LeftInverse.injective readNat_natText

theorem natText_digits {c : UInt8} (hc : c ∈ natText n) : IsDigit c := by
  obtain ⟨d, hd, rfl⟩ := List.mem_map.mp (List.mem_reverse.mp hc)
  exact isDigit_digitChar (units_lt hd)

theorem length_natText (n : Nat) : (natText n).length = (units n).length := by
  rw [natText, List.length_reverse, List.length_map]

theorem length_natText_le {k : Nat} (hk : 0 < k) (hn : n < 10 ^ k) :
    (natText n).length ≤ k := by
  rw [length_natText]
  exact length_units_le hk hn

theorem digitChar_eq_zero {d : Nat} (hd : d < 10)
    (hzero : digitChar d = digitChar 0) : d = 0 := by
  rw [← digitValue_digitChar hd, hzero]
  rfl

/-- No numeral begins with a zero, except that of zero. -/
theorem natText_leading (h : (natText n).head? = some (digitChar 0)) :
    natText n = [digitChar 0] := by
  by_cases hzero : n = 0
  · rw [hzero]
    rfl
  · have hunits : units n = Nat.digits 10 n := if_neg hzero
    have hsome : Nat.digits 10 n ≠ [] := Nat.digits_ne_nil_iff_ne_zero.mpr hzero
    rw [natText, List.head?_reverse, List.getLast?_map, hunits,
      List.getLast?_eq_getLast_of_ne_nil hsome, Option.map_some] at h
    have hlast : (Nat.digits 10 n).getLast hsome < 10 :=
      Nat.digits_lt_base (by decide) (List.getLast_mem hsome)
    exact absurd (digitChar_eq_zero hlast (Option.some.inj h))
      (Nat.getLast_digit_ne_zero 10 hzero)

theorem isNumeral_natText (n : Nat) : IsNumeral (natText n) n where
  nonempty h := by
    rw [natText, List.reverse_eq_nil_iff, List.map_eq_nil_iff] at h
    exact units_ne_nil n h
  digits _ hc := natText_digits hc
  leading := natText_leading
  value := readNat_natText n

/-- There is no other canonical numeral. -/
theorem IsNumeral.eq (h : IsNumeral text n) : text = natText n := by
  obtain ⟨hnonempty, hdigits, hleading, rfl⟩ := h
  by_cases hzero : text.head? = some (digitChar 0)
  · rw [hleading hzero]
    rfl
  · let values := text.reverse.map digitValue
    have hlt : ∀ d ∈ values, d < 10 := by
      intro d hd
      obtain ⟨c, hc, rfl⟩ := List.mem_map.mp hd
      have hdigit := hdigits c (List.mem_reverse.mp hc)
      rw [IsDigit] at hdigit
      rw [digitValue]
      omega
    have hlast : ∀ hsome : values ≠ [], values.getLast hsome ≠ 0 := by
      intro hsome hlast
      apply hzero
      have hhead : values.getLast? = text.head?.map digitValue := by
        rw [List.getLast?_map, List.getLast?_reverse]
      rw [List.getLast?_eq_getLast_of_ne_nil hsome, hlast] at hhead
      obtain ⟨c, hc, hvalue⟩ := Option.map_eq_some_iff.mp hhead.symm
      have hdigit := hdigits c (List.mem_of_mem_head? hc)
      rw [hc, ← digitChar_digitValue hdigit, hvalue]
    have hread : Nat.digits 10 (readNat text) = values := by
      rw [readNat_eq]
      exact Nat.digits_ofDigits 10 (by decide) values hlt hlast
    have hpos : readNat text ≠ 0 := by
      intro hnull
      rw [hnull, Nat.digits_zero] at hread
      exact hnonempty (List.reverse_eq_nil_iff.mp
        (List.map_eq_nil_iff.mp hread.symm))
    have hchars : values.map digitChar = text.reverse := by
      rw [List.map_map]
      refine (List.map_congr_left fun c hc => ?_).trans (List.map_id _)
      exact digitChar_digitValue (hdigits c (List.mem_reverse.mp hc))
    rw [natText, units, if_neg hpos, hread, hchars, List.reverse_reverse]

theorem isNumeral_iff : IsNumeral text n ↔ text = natText n := by
  constructor
  · exact IsNumeral.eq
  · rintro rfl
    exact isNumeral_natText n

theorem isDecimal_iff {i : Int} : IsDecimal text i ↔ text = intText i := by
  unfold IsDecimal intText
  split
  · simp [isNumeral_iff]
  · exact isNumeral_iff

section Separated

variable {sep : UInt8} {xs ys : List (List UInt8)}

/-- What is joined by a separator is found again. -/
theorem intercalate_injective (hxs : xs ≠ []) (hys : ys ≠ [])
    (hx : ∀ x ∈ xs, sep ∉ x) (hy : ∀ y ∈ ys, sep ∉ y)
    (h : [sep].intercalate xs = [sep].intercalate ys) : xs = ys := by
  rw [← List.splitOn_intercalate sep hx hxs, h,
    List.splitOn_intercalate sep hy hys]

theorem length_intercalate_le {k : Nat} (h : ∀ x ∈ xs, x.length ≤ k) :
    ([sep].intercalate xs).length ≤ xs.length * (k + 1) := by
  induction xs with
  | nil => exact Nat.zero_le _
  | cons x xs ih =>
      have hx : x.length ≤ k := h x List.mem_cons_self
      have hxs := ih fun y hy => h y (List.mem_cons_of_mem x hy)
      rw [List.length_cons, Nat.succ_mul]
      cases xs with
      | nil => simpa using Nat.le_succ_of_le hx
      | cons y ys =>
          rw [List.intercalate_cons_cons, List.length_append, List.length_append,
            List.length_singleton]
          omega

theorem mem_intercalate {c : UInt8} (h : c ∈ [sep].intercalate xs) :
    c = sep ∨ ∃ x ∈ xs, c ∈ x := by
  induction xs with
  | nil => simp at h
  | cons x xs ih =>
      cases xs with
      | nil => exact Or.inr ⟨x, List.mem_cons_self, by simpa using h⟩
      | cons y ys =>
          rw [List.intercalate_cons_cons] at h
          rcases List.mem_append.mp h with hfront | hback
          · rcases List.mem_append.mp hfront with hx | hsep
            · exact Or.inr ⟨x, List.mem_cons_self, hx⟩
            · exact Or.inl (List.mem_singleton.mp hsep)
          · rcases ih hback with hsep | ⟨z, hz, hc⟩
            · exact Or.inl hsep
            · exact Or.inr ⟨z, List.mem_cons_of_mem x hz, hc⟩

/-- Numerals joined by a separator. -/
def joined (sep : UInt8) (ns : List Nat) : List UInt8 :=
  [sep].intercalate (ns.map natText)

theorem joined_injective {ns ms : List Nat} (hsep : ¬ IsDigit sep)
    (hns : ns ≠ []) (hms : ms ≠ []) (h : joined sep ns = joined sep ms) :
    ns = ms := by
  have hfree : ∀ ks : List Nat, ∀ x ∈ ks.map natText, sep ∉ x := by
    intro ks x hx hmem
    obtain ⟨k, _, rfl⟩ := List.mem_map.mp hx
    exact hsep (natText_digits hmem)
  have htexts : ns.map natText = ms.map natText :=
    intercalate_injective (mt List.map_eq_nil_iff.mp hns)
      (mt List.map_eq_nil_iff.mp hms) (hfree ns) (hfree ms) h
  exact List.map_injective_iff.mpr natText_injective htexts

end Separated

end Decimal

end Libsaf
