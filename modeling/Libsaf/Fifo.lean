/-
A first-in first-out queue that remembers its history: everything ever
pushed, and how much of it has been taken from the front.
-/
import Mathlib.Tactic.Common
import Mathlib.Data.List.Basic

namespace Libsaf

universe u

variable {α : Type u}

structure Fifo (α : Type u) where
  pushed : List α
  taken : Nat
  taken_le : taken ≤ pushed.length

namespace Fifo

def empty : Fifo α := ⟨[], 0, Nat.le_refl 0⟩

/-- What is still in the queue. -/
def content (q : Fifo α) : List α := q.pushed.drop q.taken

def push (q : Fifo α) (xs : List α) : Fifo α where
  pushed := q.pushed ++ xs
  taken := q.taken
  taken_le := by
    have := q.taken_le
    simp only [List.length_append]
    omega

/-- Taking more than there is takes everything. -/
def take (q : Fifo α) (n : Nat) : Fifo α where
  pushed := q.pushed
  taken := min (q.taken + n) q.pushed.length
  taken_le := Nat.min_le_right _ _

@[simp] theorem content_push (q : Fifo α) (xs : List α) :
    (q.push xs).content = q.content ++ xs :=
  List.drop_append_of_le_length q.taken_le

@[simp] theorem content_take (q : Fifo α) (n : Nat) :
    (q.take n).content = q.content.drop n := by
  simp only [content, take, List.drop_drop]
  by_cases h : q.taken + n ≤ q.pushed.length
  · rw [Nat.min_eq_left h]
  · rw [Nat.min_eq_right (by omega), List.drop_length,
      List.drop_eq_nil_of_le (by omega)]

end Fifo

end Libsaf
