/-
Sequence numbers of 32 bits that wrap.  Two numbers are compared by the sign of
their difference, which orders them rightly as long as they lie in one half of
the circle.  `ahead base x` is how far `x` lies ahead of `base`.
-/
import Libsaf.MachineInt
import Mathlib.Data.List.Basic

namespace Libsaf

/-- The difference of two sequence numbers, read as a signed number. -/
def serialDiff (later earlier : UInt32) : Int :=
  toInt (later - earlier).toNat

def ahead (base x : UInt32) : Nat := (x - base).toNat

@[simp] theorem ahead_self (base : UInt32) : ahead base base = 0 := by
  simp [ahead]

theorem ahead_lt (base x : UInt32) : ahead base x < 2 ^ 32 :=
  (x - base).toNat_lt

theorem ahead_inj {base x y : UInt32} (h : ahead base x = ahead base y) :
    x = y := by
  have hx := x.toNat_lt
  have hy := y.toNat_lt
  have hbase := base.toNat_lt
  simp only [ahead, UInt32.toNat_sub] at h
  apply UInt32.toNat_inj.mp
  omega

theorem ahead_add {base x n : UInt32}
    (h : ahead base x + n.toNat < 2 ^ 32) :
    ahead base (x + n) = ahead base x + n.toNat := by
  have hx := x.toNat_lt
  have hn := n.toNat_lt
  have hbase := base.toNat_lt
  simp only [ahead, UInt32.toNat_sub, UInt32.toNat_add] at h ⊢
  omega

theorem ahead_add_one {base x : UInt32} (h : ahead base x + 1 < 2 ^ 32) :
    ahead base (x + 1) = ahead base x + 1 :=
  ahead_add (n := 1) h

/-- Distances from a later base are shorter by the distance between the
bases. -/
theorem ahead_rebase {base b x : UInt32} (h : ahead base b ≤ ahead base x) :
    ahead b x = ahead base x - ahead base b := by
  have hx := x.toNat_lt
  have hb := b.toNat_lt
  have hbase := base.toNat_lt
  simp only [ahead, UInt32.toNat_sub] at h ⊢
  omega

/-- Numbers whose distances from a common base differ by less than half the
circle are compared exactly. -/
theorem serialDiff_of_ahead (base : UInt32) {x y : UInt32}
    (hlow : ahead base y ≤ ahead base x + 2 ^ 31)
    (hhigh : ahead base x < ahead base y + 2 ^ 31) :
    serialDiff x y = (ahead base x : Int) - ahead base y := by
  have hx := x.toNat_lt
  have hy := y.toNat_lt
  have hbase := base.toNat_lt
  simp only [ahead, UInt32.toNat_sub] at hlow hhigh ⊢
  simp only [serialDiff, toInt, Int.bmod_def, UInt32.toNat_sub]
  split <;> omega

theorem serialDiff_nonneg_iff {base x : UInt32} :
    0 ≤ serialDiff x base ↔ ahead base x < 2 ^ 31 := by
  have hlt := ahead_lt base x
  simp only [ahead] at hlt ⊢
  simp only [serialDiff, toInt, Int.bmod_def]
  split <;> omega

/-- Counters that differ by less than half the circle are compared exactly
after they have been cut to 32 bits. -/
theorem serialDiff_ofNat {i j : Nat} (hlow : j ≤ i + 2 ^ 31)
    (hhigh : i < j + 2 ^ 31) :
    serialDiff (UInt32.ofNat i) (UInt32.ofNat j) = (i : Int) - j := by
  simp only [serialDiff, toInt, Int.bmod_def, UInt32.toNat_sub,
    UInt32.toNat_ofNat']
  split <;> omega

/-- A number that is less than half the circle behind. -/
theorem ahead_eq_neg_serialDiff {x y : UInt32} (h : serialDiff x y < 0)
    (hhalf : -2 ^ 31 < serialDiff x y) :
    (ahead x y : Int) = -serialDiff x y := by
  have hx := x.toNat_lt
  have hy := y.toNat_lt
  simp only [ahead, serialDiff, toInt, Int.bmod_def, UInt32.toNat_sub]
    at h hhalf ⊢
  split at h <;> omega

theorem serialDiff_self (x : UInt32) : serialDiff x x = 0 := by
  simp [serialDiff, toInt]

theorem serialDiff_bounds (x y : UInt32) :
    -2 ^ 31 ≤ serialDiff x y ∧ serialDiff x y < 2 ^ 31 :=
  toInt_bounds _

-- The lemmas above are all that is used of a difference; left to itself the
-- unifier would evaluate it.
attribute [irreducible] serialDiff

/-- Sequence numbers in ascending order from `base`, the last one less than
`bound` ahead of it. -/
structure Ascending (base : UInt32) (bound : Nat) (sns : List UInt32) :
    Prop where
  sorted : sns.Pairwise fun x y => ahead base x < ahead base y
  below : ∀ x ∈ sns, ahead base x < bound

namespace Ascending

variable {base : UInt32} {bound : Nat} {sns : List UInt32}

theorem nil : Ascending base bound [] :=
  ⟨List.Pairwise.nil, fun _ h => absurd h List.not_mem_nil⟩

theorem sublist {kept : List UInt32} (h : Ascending base bound sns)
    (hkept : kept.Sublist sns) : Ascending base bound kept :=
  ⟨h.sorted.sublist hkept, fun x hx => h.below x (hkept.subset hx)⟩

theorem mono {bound' : Nat} (h : Ascending base bound sns)
    (hbound : bound ≤ bound') : Ascending base bound' sns :=
  ⟨h.sorted, fun x hx => Nat.lt_of_lt_of_le (h.below x hx) hbound⟩

/-- The head has the least distance. -/
theorem head_le {x : UInt32} {rest : List UInt32}
    (h : Ascending base bound (x :: rest)) :
    ∀ y ∈ x :: rest, ahead base x ≤ ahead base y := by
  intro y hy
  rcases List.mem_cons.mp hy with rfl | hy
  · exact Nat.le_refl _
  · exact Nat.le_of_lt (List.rel_of_pairwise_cons h.sorted hy)

theorem append {x : UInt32} {bound' : Nat} (h : Ascending base bound sns)
    (hx : bound ≤ ahead base x) (hbound : ahead base x < bound') :
    Ascending base bound' (sns ++ [x]) := by
  constructor
  · refine List.pairwise_append.mpr ⟨h.sorted, List.pairwise_singleton _ x, ?_⟩
    intro y hy z hz
    obtain rfl := List.mem_singleton.mp hz
    exact Nat.lt_of_lt_of_le (h.below y hy) hx
  · intro y hy
    rcases List.mem_append.mp hy with hy | hy
    · have := h.below y hy
      omega
    · obtain rfl := List.mem_singleton.mp hy
      exact hbound

/-- The same numbers seen from a later base. -/
theorem rebase {b : UInt32} (h : Ascending base bound sns)
    (hb : ∀ x ∈ sns, ahead base b ≤ ahead base x) :
    Ascending b (bound - ahead base b) sns := by
  constructor
  · refine List.Pairwise.imp_of_mem (fun {x y} hx hy hlt => ?_) h.sorted
    rw [ahead_rebase (hb x hx), ahead_rebase (hb y hy)]
    have := hb x hx
    omega
  · intro x hx
    rw [ahead_rebase (hb x hx)]
    have := hb x hx
    have := h.below x hx
    omega

/-- A number that lies between two neighbours is put between them. -/
theorem insert {x : UInt32} {front back : List UInt32}
    (h : Ascending base bound (front ++ back)) (hx : ahead base x < bound)
    (hfront : ∀ y, front.getLast? = some y → ahead base y < ahead base x)
    (hback : ∀ y ∈ back, ahead base x < ahead base y) :
    Ascending base bound (front ++ x :: back) := by
  obtain ⟨hsorted, hbelow⟩ := h
  obtain ⟨hf, hb, hcross⟩ := List.pairwise_append.mp hsorted
  have hall : ∀ y ∈ front, ahead base y < ahead base x := by
    intro y hy
    rcases List.eq_nil_or_concat' front with rfl | ⟨init, last, rfl⟩
    · exact absurd hy List.not_mem_nil
    · have hlast : ahead base last < ahead base x := hfront last (by simp)
      obtain ⟨_, _, hinit⟩ := List.pairwise_append.mp hf
      rcases List.mem_append.mp hy with hy | hy
      · exact Nat.lt_trans (hinit y hy last (by simp)) hlast
      · obtain rfl := List.mem_singleton.mp hy
        exact hlast
  constructor
  · refine List.pairwise_append.mpr ⟨hf, List.pairwise_cons.mpr ⟨hback, hb⟩, ?_⟩
    intro y hy z hz
    rcases List.mem_cons.mp hz with rfl | hz
    · exact hall y hy
    · exact hcross y hy z hz
  · intro y hy
    rcases List.mem_append.mp hy with hy | hy
    · exact hbelow y (List.mem_append_left _ hy)
    · rcases List.mem_cons.mp hy with rfl | hy
      · exact hx
      · exact hbelow y (List.mem_append_right _ hy)

/-- There are at most as many numbers as fit below the bound. -/
theorem length_le (h : Ascending base bound sns) : sns.length ≤ bound := by
  have hroom : ∀ low, low ≤ bound → (∀ x ∈ sns, low ≤ ahead base x) →
      low + sns.length ≤ bound := by
    induction sns with
    | nil => exact fun low hlow _ => hlow
    | cons x rest ih =>
        intro low _ hall
        have hx := hall x List.mem_cons_self
        have hrest := ih (h.sublist (List.sublist_cons_self x rest))
          (ahead base x + 1) (h.below x List.mem_cons_self)
          (fun y hy => List.rel_of_pairwise_cons h.sorted hy)
        rw [List.length_cons]
        omega
  simpa using hroom 0 (Nat.zero_le _) (fun _ _ => Nat.zero_le _)

end Ascending

end Libsaf
