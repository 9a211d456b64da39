/-
Work that makes work: an item, when it is done, leaves further items to be done.
A finite run of such work is a tree, and what waits is a forest.
-/
import Mathlib.Tactic.Common
import Mathlib.Data.List.Perm.Basic

namespace Libsaf

universe u

/-- An item and the work that it makes. -/
inductive WorkTree (F : Type u) where
  | node (item : F) (makes : List (WorkTree F))
deriving Repr

namespace WorkTree

variable {F : Type u}

def item : WorkTree F → F
  | .node item _ => item

def makes : WorkTree F → List (WorkTree F)
  | .node _ makes => makes

mutual

/-- All items of the tree. -/
def items : WorkTree F → List F
  | .node item makes => item :: forestItems makes

/-- All items of the trees of a forest. -/
def forestItems : List (WorkTree F) → List F
  | [] => []
  | tree :: rest => tree.items ++ forestItems rest

end

/-- The tree has at most so many levels. -/
def Within : Nat → WorkTree F → Prop
  | 0, _ => False
  | levels + 1, tree => ∀ made ∈ tree.makes, made.Within levels

theorem items_eq (tree : WorkTree F) :
    tree.items = tree.item :: forestItems tree.makes := by
  cases tree with
  | node item makes => rw [items]; rfl

@[simp] theorem forestItems_nil : forestItems ([] : List (WorkTree F)) = [] := by
  rw [forestItems]

@[simp] theorem forestItems_cons (tree : WorkTree F) (rest : List (WorkTree F)) :
    forestItems (tree :: rest) = tree.items ++ forestItems rest := by
  rw [forestItems]

@[simp] theorem forestItems_append (front back : List (WorkTree F)) :
    forestItems (front ++ back) = forestItems front ++ forestItems back := by
  induction front with
  | nil => simp
  | cons tree front ih => simp [ih]

theorem forestItems_perm {forest forest' : List (WorkTree F)}
    (h : forest.Perm forest') :
    (forestItems forest).Perm (forestItems forest') := by
  induction h with
  | nil => exact List.Perm.refl _
  | cons tree _ ih =>
      rw [forestItems_cons, forestItems_cons]
      exact ih.append_left _
  | swap first second rest =>
      simp only [forestItems_cons, ← List.append_assoc]
      exact List.perm_append_comm.append_right _
  | trans _ _ ih₁ ih₂ => exact ih₁.trans ih₂

/-- Only the empty forest has no items. -/
theorem forestItems_eq_nil_iff {forest : List (WorkTree F)} :
    forestItems forest = [] ↔ forest = [] := by
  cases forest with
  | nil => simp
  | cons tree rest => simp [items_eq]

/-- Nothing is left to be done when all items are done. -/
theorem perm_done_iff {done all : List F} {forest : List (WorkTree F)}
    (h : (done ++ forestItems forest).Perm all) :
    done.Perm all ↔ forest = [] := by
  constructor
  · intro hdone
    have hlength := hdone.length_eq.trans h.length_eq.symm
    rw [List.length_append] at hlength
    apply forestItems_eq_nil_iff.mp
    apply List.eq_nil_of_length_eq_zero
    omega
  · rintro rfl
    simpa using h

/-- A forest without levels is empty. -/
theorem within_zero_iff {forest : List (WorkTree F)} :
    (∀ tree ∈ forest, tree.Within 0) ↔ forest = [] := by
  rw [List.eq_nil_iff_forall_not_mem]
  rfl

instance decidableWithin : ∀ (levels : Nat) (tree : WorkTree F),
    Decidable (tree.Within levels)
  | 0, _ => isFalse id
  | levels + 1, tree =>
      have : ∀ made : WorkTree F, Decidable (made.Within levels) :=
        fun made => decidableWithin levels made
      inferInstanceAs (Decidable (∀ made ∈ tree.makes, made.Within levels))

example : Within 2 (.node 1 [.node 2 [], .node 3 []]) ∧
    ¬ Within 2 (.node 1 [.node 2 [.node (3 : Nat) []]]) := by decide

end WorkTree

end Libsaf
