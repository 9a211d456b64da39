/-
Flat memory as a list of cells: storing a run of values cell by cell, and the
ascending copy loop of `std::copy`, which is right for overlapping ranges as
long as it moves towards the front.
-/
import Mathlib.Tactic.Common
import Mathlib.Data.List.Basic

namespace Libsaf

universe u

variable {α : Type u}

namespace Memory

/-- Store the values one after the other from `pos` on. -/
def write (mem : List α) (pos : Nat) : List α → List α
  | [] => mem
  | x :: xs => write (mem.set pos x) (pos + 1) xs

/-- `std::copy(src, src + n, dst)` in ascending order.  Reading past the end
of the memory stops the loop. -/
def copyForward (mem : List α) (src dst : Nat) : Nat → List α
  | 0 => mem
  | n + 1 =>
      match mem[src]? with
      | some x => copyForward (mem.set dst x) (src + 1) (dst + 1) n
      | none => mem

/-- `std::vector::resize`: cut at the end or fill up with `fill`. -/
def resize (fill : α) (mem : List α) (n : Nat) : List α :=
  mem.take n ++ List.replicate (n - mem.length) fill

@[simp] theorem length_write (mem : List α) (pos : Nat) (xs : List α) :
    (write mem pos xs).length = mem.length := by
  induction xs generalizing mem pos with
  | nil => rfl
  | cons x xs ih => simp [write, ih]

@[simp] theorem length_copyForward (mem : List α) (src dst n : Nat) :
    (copyForward mem src dst n).length = mem.length := by
  induction n generalizing mem src dst with
  | zero => rfl
  | succ n ih =>
      unfold copyForward
      split
      · rw [ih, List.length_set]
      · rfl

@[simp] theorem length_resize (fill : α) (mem : List α) (n : Nat) :
    (resize fill mem n).length = n := by
  simp only [resize, List.length_append, List.length_take,
    List.length_replicate]
  omega

/-- A store leaves everything before it and everything behind it alone. -/
theorem write_eq (mem : List α) (pos : Nat) (xs : List α)
    (hroom : pos + xs.length ≤ mem.length) :
    write mem pos xs = mem.take pos ++ xs ++ mem.drop (pos + xs.length) := by
  induction xs generalizing mem pos with
  | nil => simp [write]
  | cons x xs ih =>
      simp only [List.length_cons] at hroom
      have hpos : pos < mem.length := by omega
      rw [write, ih _ _ (by simp only [List.length_set]; omega)]
      have hfront : (mem.set pos x).take (pos + 1) = mem.take pos ++ [x] := by
        rw [List.take_succ_eq_append_getElem (by simpa using hpos),
          List.take_set_of_le (Nat.le_refl pos), List.getElem_set_self]
      have hback : (mem.set pos x).drop (pos + 1 + xs.length) =
          mem.drop (pos + (x :: xs).length) := by
        rw [List.drop_set_of_lt (by omega), List.length_cons]
        congr 1
        omega
      rw [hfront, hback]
      simp

/-- The ascending loop towards the front reads every cell before it is
overwritten. -/
theorem copyForward_getElem? (mem : List α) (src dst n : Nat)
    (hdst : dst ≤ src) (hsrc : src + n ≤ mem.length) (i : Nat) :
    (copyForward mem src dst n)[i]? =
      if dst ≤ i ∧ i < dst + n then mem[src + (i - dst)]? else mem[i]? := by
  induction n generalizing mem src dst with
  | zero => rw [if_neg (by omega)]; rfl
  | succ n ih =>
      have hlt : src < mem.length := by omega
      simp only [copyForward, List.getElem?_eq_getElem hlt]
      rw [ih _ _ _ (by omega) (by simp only [List.length_set]; omega)]
      by_cases hfirst : i = dst
      · subst hfirst
        rw [if_neg (by omega), if_pos (by omega),
          List.getElem?_set_self (by omega)]
        simp [List.getElem?_eq_getElem hlt]
      · by_cases hin : dst ≤ i ∧ i < dst + (n + 1)
        · rw [if_pos (by omega), if_pos hin,
            List.getElem?_set_ne (by omega)]
          congr 1
          omega
        · rw [if_neg (by omega), if_neg hin,
            List.getElem?_set_ne (Ne.symm hfirst)]

/-- After the loop the target range holds what the source range held. -/
theorem copyForward_slice (mem : List α) (src dst n : Nat)
    (hdst : dst ≤ src) (hsrc : src + n ≤ mem.length) :
    ((copyForward mem src dst n).drop dst).take n =
      (mem.drop src).take n := by
  apply List.ext_getElem?
  intro i
  by_cases hi : i < n
  · rw [List.getElem?_take_of_lt hi, List.getElem?_take_of_lt hi,
      List.getElem?_drop, List.getElem?_drop,
      copyForward_getElem? mem src dst n hdst hsrc, if_pos (by omega)]
    congr 2
    omega
  · rw [List.getElem?_eq_none (by simp only [List.length_take]; omega),
      List.getElem?_eq_none (by simp only [List.length_take]; omega)]

/-- Growing keeps every range inside the old memory. -/
theorem resize_slice (fill : α) (mem : List α) (m pos n : Nat)
    (hgrow : mem.length ≤ m) (hin : pos + n ≤ mem.length) :
    ((resize fill mem m).drop pos).take n = (mem.drop pos).take n := by
  rw [resize, List.take_of_length_le hgrow,
    List.drop_append_of_le_length (by omega),
    List.take_append_of_le_length (by simp only [List.length_drop]; omega)]

/-- A store right behind a range extends the range by the stored values. -/
theorem write_slice (mem : List α) (start pos : Nat) (xs : List α)
    (hstart : start ≤ pos) (hroom : pos + xs.length ≤ mem.length) :
    ((write mem pos xs).drop start).take (pos + xs.length - start) =
      (mem.drop start).take (pos - start) ++ xs := by
  rw [write_eq mem pos xs hroom, List.append_assoc,
    List.drop_append_of_le_length (by simp only [List.length_take]; omega),
    ← List.append_assoc, List.drop_take, List.take_append_of_le_length,
    List.take_of_length_le]
  · simp only [List.length_append, List.length_take, List.length_drop]
    omega
  · simp only [List.length_append, List.length_take, List.length_drop]
    omega

example : copyForward [0, 1, 2, 3, 4] 1 0 4 = [1, 2, 3, 4, 4] := by decide

end Memory

end Libsaf
