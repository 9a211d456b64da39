/-
Binary heaps laid out in an array from slot 1 on, read through the keys of
their slots: the parent of slot `i` is slot `i / 2`.  One slot may be out of
order while an element travels up or down, and the moves below say when a swap
takes the disorder one level further and when it is gone.
-/
import Mathlib.Tactic.Common
import Mathlib.Logic.Equiv.Basic
import Mathlib.Order.Lattice

namespace Libsaf

universe u

variable {κ : Type u} [LinearOrder κ]

/-- No slot of `1 … n - 1` has a smaller key than its parent. -/
def HeapOrdered (n : Nat) (k : Nat → κ) : Prop :=
  ∀ i, 2 ≤ i → i < n → k (i / 2) ≤ k i

/-- The key of slot `pos` may be smaller than the key of its parent. -/
structure UpOrdered (n : Nat) (k : Nat → κ) (pos : Nat) : Prop where
  edge : ∀ i, 2 ≤ i → i < n → i ≠ pos → k (i / 2) ≤ k i
  skip : ∀ i, i < n → 2 ≤ pos → i / 2 = pos → k (pos / 2) ≤ k i

/-- The key of slot `pos` may be larger than the keys of its children. -/
structure DownOrdered (n : Nat) (k : Nat → κ) (pos : Nat) : Prop where
  edge : ∀ i, 2 ≤ i → i < n → i / 2 ≠ pos → k (i / 2) ≤ k i
  skip : ∀ i, i < n → 2 ≤ pos → i / 2 = pos → k (pos / 2) ≤ k i

/-- The keys after the contents of slots `a` and `b` are exchanged. -/
def swapKeys (k : Nat → κ) (a b : Nat) : Nat → κ :=
  fun i => k (Equiv.swap a b i)

omit [LinearOrder κ] in
@[simp] theorem swapKeys_left (k : Nat → κ) (a b : Nat) :
    swapKeys k a b a = k b := by
  simp [swapKeys]

omit [LinearOrder κ] in
@[simp] theorem swapKeys_right (k : Nat → κ) (a b : Nat) :
    swapKeys k a b b = k a := by
  simp [swapKeys]

omit [LinearOrder κ] in
theorem swapKeys_of_ne (k : Nat → κ) {a b i : Nat} (ha : i ≠ a) (hb : i ≠ b) :
    swapKeys k a b i = k i := by
  simp [swapKeys, Equiv.swap_apply_of_ne_of_ne ha hb]

/-- The root carries the smallest key. -/
theorem HeapOrdered.root_le {n : Nat} {k : Nat → κ} (h : HeapOrdered n k) :
    ∀ i, 1 ≤ i → i < n → k 1 ≤ k i := by
  intro i
  induction i using Nat.strongRecOn with
  | ind i ih =>
      intro hone hn
      rcases Nat.lt_or_ge i 2 with hlt | hge
      · have hroot : i = 1 := by omega
        rw [hroot]
      · calc k 1 ≤ k (i / 2) := ih (i / 2) (by omega) (by omega) (by omega)
          _ ≤ k i := h i hge hn

theorem HeapOrdered.congr {n : Nat} {k k' : Nat → κ} (h : HeapOrdered n k)
    (hk : ∀ i, 1 ≤ i → i < n → k' i = k i) : HeapOrdered n k' := by
  intro i hi hn
  rw [hk (i / 2) (by omega) (by omega), hk i (by omega) hn]
  exact h i hi hn

/-- A new last slot is at most too small. -/
theorem HeapOrdered.snoc {n : Nat} {k : Nat → κ} (h : HeapOrdered n k) :
    UpOrdered (n + 1) k n where
  edge i hi hn hne := h i hi (by omega)
  skip i hi hn hpos := by omega

theorem UpOrdered.finish {n : Nat} {k : Nat → κ} {pos : Nat}
    (h : UpOrdered n k pos) (hstop : 2 ≤ pos → k (pos / 2) ≤ k pos) :
    HeapOrdered n k := by
  intro i hi hn
  rcases eq_or_ne i pos with heq | hne
  · rw [heq]
    exact hstop (heq ▸ hi)
  · exact h.edge i hi hn hne

/-- A key smaller than its parent's goes up. -/
theorem UpOrdered.move {n : Nat} {k : Nat → κ} {pos : Nat}
    (h : UpOrdered n k pos) (hpos : 2 ≤ pos) (hn : pos < n)
    (hlt : k pos < k (pos / 2)) :
    UpOrdered n (swapKeys k pos (pos / 2)) (pos / 2) where
  edge := by
    intro i hi hin hne
    rcases eq_or_ne i pos with rfl | hip
    · simpa using le_of_lt hlt
    · rw [swapKeys_of_ne k hip hne]
      rcases eq_or_ne (i / 2) pos with hparent | hparent
      · rw [hparent, swapKeys_left]
        exact h.skip i hin hpos hparent
      · rcases eq_or_ne (i / 2) (pos / 2) with hsibling | hsibling
        · rw [hsibling, swapKeys_right]
          exact le_of_lt (lt_of_lt_of_le hlt (hsibling ▸ h.edge i hi hin hip))
        · rw [swapKeys_of_ne k hparent hsibling]
          exact h.edge i hi hin hip
  skip := by
    intro i hin hup hparent
    have habove : k (pos / 2 / 2) ≤ k (pos / 2) :=
      h.edge (pos / 2) hup (by omega) (by omega)
    rw [swapKeys_of_ne k (by omega : pos / 2 / 2 ≠ pos)
      (by omega : pos / 2 / 2 ≠ pos / 2)]
    rcases eq_or_ne i pos with rfl | hip
    · simpa using habove
    · rw [swapKeys_of_ne k hip (by omega : i ≠ pos / 2)]
      exact le_trans habove (hparent ▸ h.edge i (by omega) hin hip)

theorem DownOrdered.congr {n : Nat} {k k' : Nat → κ} {pos : Nat}
    (h : DownOrdered n k pos) (hk : ∀ i, i < n → k' i = k i) :
    DownOrdered n k' pos where
  edge i hi hn hparent := by
    rw [hk (i / 2) (by omega), hk i hn]
    exact h.edge i hi hn hparent
  skip i hn hpos hparent := by
    rw [hk (pos / 2) (by omega), hk i hn]
    exact h.skip i hn hpos hparent

theorem DownOrdered.finish {n : Nat} {k : Nat → κ} {pos : Nat}
    (h : DownOrdered n k pos)
    (hstop : ∀ i, i < n → i / 2 = pos → k pos ≤ k i) : HeapOrdered n k := by
  intro i hi hn
  rcases eq_or_ne (i / 2) pos with heq | hne
  · rw [heq]
    exact hstop i hn heq
  · exact h.edge i hi hn hne

/-- A key larger than its smaller child's goes down to that child. -/
theorem DownOrdered.move {n : Nat} {k : Nat → κ} {pos child : Nat}
    (h : DownOrdered n k pos) (hpos : 1 ≤ pos) (hchild : child / 2 = pos)
    (hn : child < n) (hlt : k child < k pos)
    (hleast : ∀ i, i < n → i / 2 = pos → k child ≤ k i) :
    DownOrdered n (swapKeys k pos child) child where
  edge := by
    intro i hi hin hne
    rcases eq_or_ne (i / 2) pos with hparent | hparent
    · rw [hparent, swapKeys_left]
      rcases eq_or_ne i child with rfl | hic
      · simpa using le_of_lt hlt
      · rw [swapKeys_of_ne k (by omega : i ≠ pos) hic]
        exact hleast i hin hparent
    · rw [swapKeys_of_ne k hparent hne]
      rcases eq_or_ne i pos with rfl | hip
      · rw [swapKeys_left]
        exact h.skip child hn hi hchild
      · rw [swapKeys_of_ne k hip (by rintro rfl; exact hparent hchild)]
        exact h.edge i hi hin hparent
  skip := by
    intro i hin _ hparent
    rw [hchild, swapKeys_left,
      swapKeys_of_ne k (by omega : i ≠ pos) (by omega : i ≠ child)]
    exact hparent ▸ h.edge i (by omega) hin (by omega)

/-- The last slot is moved to `pos` and cut off: the new key can be too small
for the parent of `pos`, and this is the only way in which the slot is not just
too large. -/
theorem HeapOrdered.replace {n : Nat} {k : Nat → κ} {pos : Nat}
    (h : HeapOrdered (n + 1) k) (hpos : 1 ≤ pos) (hn : pos ≤ n)
    (hfits : 2 ≤ pos → k (pos / 2) ≤ k n) :
    DownOrdered n (swapKeys k pos n) pos where
  edge := by
    intro i hi hin hparent
    rw [swapKeys_of_ne k hparent (by omega : i / 2 ≠ n)]
    rcases eq_or_ne i pos with rfl | hip
    · simpa using hfits hi
    · rw [swapKeys_of_ne k hip (by omega : i ≠ n)]
      exact h i hi (by omega)
  skip := by
    intro i hin hup hparent
    rw [swapKeys_of_ne k (by omega : pos / 2 ≠ pos) (by omega : pos / 2 ≠ n),
      swapKeys_of_ne k (by omega : i ≠ pos) (by omega : i ≠ n)]
    exact le_trans (h pos hup (by omega))
      (hparent ▸ h i (by omega) (by omega))

/-- When the moved key is too small for the parent of `pos`, it is not too
large for the children. -/
theorem HeapOrdered.replace_small {n : Nat} {k : Nat → κ} {pos : Nat}
    (h : HeapOrdered (n + 1) k) (hpos : 2 ≤ pos) (hn : pos < n)
    (hsmall : k n < k (pos / 2)) :
    ∀ i, i < n → i / 2 = pos →
      swapKeys k pos n pos ≤ swapKeys k pos n i := by
  intro i hin hparent
  rw [swapKeys_left,
    swapKeys_of_ne k (by omega : i ≠ pos) (by omega : i ≠ n)]
  calc k n ≤ k (pos / 2) := le_of_lt hsmall
    _ ≤ k pos := h pos hpos (by omega)
    _ ≤ k i := hparent ▸ h i (by omega) (by omega)

/-- The keys `k₂` after the replacement are sifted down to `k'`, or stay when
they are not too large.  That alone mends the heap exactly when the moved key
is not too small. -/
theorem HeapOrdered.replace_iff {n : Nat} {k k₂ k' : Nat → κ} {pos : Nat}
    (h : HeapOrdered (n + 1) k) (hpos : 1 ≤ pos) (hn : pos ≤ n)
    (hk₂ : ∀ i, i < n → k₂ i = swapKeys k pos n i)
    (hdown : DownOrdered n k₂ pos → HeapOrdered n k')
    (hstay : (∀ i, i < n → i / 2 = pos → k₂ pos ≤ k₂ i) → k' = k₂) :
    HeapOrdered n k' ↔ (2 ≤ pos → k (pos / 2) ≤ k n) := by
  constructor
  · intro hmended hup
    by_contra hsmall
    rw [not_le] at hsmall
    rcases Nat.lt_or_eq_of_le hn with hlt | rfl
    · have hsame : k' = k₂ := by
        apply hstay
        intro i hi hparent
        rw [hk₂ pos hlt, hk₂ i hi]
        exact h.replace_small hup hlt hsmall i hi hparent
      have hedge := hmended pos hup hlt
      rw [hsame, hk₂ (pos / 2) (by omega), hk₂ pos hlt, swapKeys_left,
        swapKeys_of_ne k (by omega) (by omega)] at hedge
      exact absurd hedge (not_le.mpr hsmall)
    · exact absurd (h pos hup (by omega)) (not_le.mpr hsmall)
  · intro hfits
    exact hdown ((h.replace hpos hn hfits).congr hk₂)

end Libsaf
