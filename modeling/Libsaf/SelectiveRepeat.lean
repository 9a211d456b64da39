/-
One direction of a selective-repeat protocol over a network that loses, repeats
and reorders.  Frames are numbered from zero on.  A frame that is numbered may
arrive at any time and any number of times, and so may the news that a frame
has arrived or that all frames up to a number have been delivered: the network
needs no state of its own, since none of this becomes false later.
-/
import Mathlib.Data.Set.Insert
import Mathlib.Data.List.Basic
import Mathlib.Logic.Relation

namespace Libsaf

universe u

variable {α : Type u}

/-- The frames numbered so far and those that the sender still keeps; the frames
that have arrived and those that have been delivered in order. -/
structure SelectiveRepeat (α : Type u) where
  log : List α
  unacked : Set ℕ
  seen : Set (ℕ × α)
  delivered : List α

namespace SelectiveRepeat

def start : SelectiveRepeat α := ⟨[], ∅, ∅, []⟩

/-- A frame of this number has arrived. -/
def Seen (s : SelectiveRepeat α) (i : ℕ) : Prop := ∃ x, (i, x) ∈ s.seen

inductive Step : SelectiveRepeat α → SelectiveRepeat α → Prop where
  | number (s : SelectiveRepeat α) (x : α) :
      Step s { s with
        log := s.log ++ [x]
        unacked := insert s.log.length s.unacked }
  | arrive (s : SelectiveRepeat α) {i : ℕ} {x : α} :
      s.log[i]? = some x → Step s { s with seen := insert (i, x) s.seen }
  | deliver (s : SelectiveRepeat α) {x : α} :
      (s.delivered.length, x) ∈ s.seen →
        Step s { s with delivered := s.delivered ++ [x] }
  | settle (s : SelectiveRepeat α) {i : ℕ} :
      s.Seen i → Step s { s with unacked := s.unacked \ {i} }
  | settleBelow (s : SelectiveRepeat α) {n : ℕ} :
      n ≤ s.delivered.length →
        Step s { s with unacked := { i | i ∈ s.unacked ∧ n ≤ i } }

/-- A run of the protocol. -/
def Steps : SelectiveRepeat α → SelectiveRepeat α → Prop :=
  Relation.ReflTransGen Step

theorem Steps.refl (s : SelectiveRepeat α) : s.Steps s :=
  Relation.ReflTransGen.refl

theorem Steps.trans {s t r : SelectiveRepeat α} (h : s.Steps t)
    (h' : t.Steps r) : s.Steps r :=
  Relation.ReflTransGen.trans h h'

theorem Step.steps {s t : SelectiveRepeat α} (h : s.Step t) : s.Steps t :=
  Relation.ReflTransGen.single h

/-- What has been said stays true: the order that every run goes up. -/
structure Before (s t : SelectiveRepeat α) : Prop where
  log : s.log <+: t.log
  seen : s.seen ⊆ t.seen
  delivered : s.delivered <+: t.delivered

theorem Before.refl (s : SelectiveRepeat α) : s.Before s :=
  ⟨List.prefix_refl _, Set.Subset.refl _, List.prefix_refl _⟩

theorem Before.trans {s t r : SelectiveRepeat α} (h : s.Before t)
    (h' : t.Before r) : s.Before r :=
  ⟨h.log.trans h'.log, h.seen.trans h'.seen, h.delivered.trans h'.delivered⟩

theorem Step.before {s t : SelectiveRepeat α} (h : s.Step t) : s.Before t := by
  cases h with
  | number x =>
      exact ⟨List.prefix_append _ _, Set.Subset.refl _, List.prefix_refl _⟩
  | arrive h =>
      exact ⟨List.prefix_refl _, Set.subset_insert _ _, List.prefix_refl _⟩
  | deliver h =>
      exact ⟨List.prefix_refl _, Set.Subset.refl _, List.prefix_append _ _⟩
  | settle h =>
      exact ⟨List.prefix_refl _, Set.Subset.refl _, List.prefix_refl _⟩
  | settleBelow h =>
      exact ⟨List.prefix_refl _, Set.Subset.refl _, List.prefix_refl _⟩

theorem Steps.before {s t : SelectiveRepeat α} (h : s.Steps t) :
    s.Before t := by
  induction h with
  | refl => exact Before.refl s
  | tail _ hstep ih => exact ih.trans hstep.before

theorem Before.getElem? {s t : SelectiveRepeat α} (h : s.Before t) {i : ℕ}
    {x : α} (hx : s.log[i]? = some x) : t.log[i]? = some x := by
  obtain ⟨more, hmore⟩ := h.log
  obtain ⟨hi, _⟩ := List.getElem?_eq_some_iff.mp hx
  rw [← hmore, List.getElem?_append_left hi, hx]

theorem Before.seen_of {s t : SelectiveRepeat α} (h : s.Before t) {i : ℕ}
    (hi : s.Seen i) : t.Seen i :=
  hi.imp fun _ hx => h.seen hx

/-- A run in which only the sender moves. -/
structure Sends (s t : SelectiveRepeat α) : Prop where
  steps : s.Steps t
  seen : t.seen = s.seen
  delivered : t.delivered = s.delivered

/-- A run in which only the receiver moves. -/
structure Receives (s t : SelectiveRepeat α) : Prop where
  steps : s.Steps t
  log : t.log = s.log
  unacked : t.unacked = s.unacked

theorem Sends.refl (s : SelectiveRepeat α) : s.Sends s :=
  ⟨Steps.refl s, rfl, rfl⟩

theorem Sends.trans {s t r : SelectiveRepeat α} (h : s.Sends t)
    (h' : t.Sends r) : s.Sends r :=
  ⟨h.steps.trans h'.steps, h'.seen.trans h.seen,
    h'.delivered.trans h.delivered⟩

theorem Receives.refl (s : SelectiveRepeat α) : s.Receives s :=
  ⟨Steps.refl s, rfl, rfl⟩

theorem Receives.trans {s t r : SelectiveRepeat α} (h : s.Receives t)
    (h' : t.Receives r) : s.Receives r :=
  ⟨h.steps.trans h'.steps, h'.log.trans h.log, h'.unacked.trans h.unacked⟩

theorem sends_number (s : SelectiveRepeat α) (x : α) : s.Sends { s with
    log := s.log ++ [x]
    unacked := insert s.log.length s.unacked } :=
  ⟨(Step.number s x).steps, rfl, rfl⟩

theorem sends_settle {s : SelectiveRepeat α} {i : ℕ} (h : s.Seen i) :
    s.Sends { s with unacked := s.unacked \ {i} } :=
  ⟨(Step.settle s h).steps, rfl, rfl⟩

theorem sends_settleBelow {s : SelectiveRepeat α} {n : ℕ}
    (h : n ≤ s.delivered.length) :
    s.Sends { s with unacked := { i | i ∈ s.unacked ∧ n ≤ i } } :=
  ⟨(Step.settleBelow s h).steps, rfl, rfl⟩

theorem receives_arrive {s : SelectiveRepeat α} {i : ℕ} {x : α}
    (h : s.log[i]? = some x) :
    s.Receives { s with seen := insert (i, x) s.seen } :=
  ⟨(Step.arrive s h).steps, rfl, rfl⟩

theorem receives_deliver {s : SelectiveRepeat α} {x : α}
    (h : (s.delivered.length, x) ∈ s.seen) :
    s.Receives { s with delivered := s.delivered ++ [x] } :=
  ⟨(Step.deliver s h).steps, rfl, rfl⟩

/-- The invariant.  Nothing arrives that was not sent, what is delivered is the
beginning of what was numbered, and the sender only drops what has arrived. -/
structure Safe (s : SelectiveRepeat α) : Prop where
  unacked_lt : ∀ i ∈ s.unacked, i < s.log.length
  seen_log : ∀ {i x}, (i, x) ∈ s.seen → s.log[i]? = some x
  delivered_seen : ∀ i < s.delivered.length, s.Seen i
  delivered_prefix : s.delivered <+: s.log
  dropped_seen : ∀ i < s.log.length, i ∉ s.unacked → s.Seen i

theorem start_safe : (start : SelectiveRepeat α).Safe where
  unacked_lt := fun _ h => h.elim
  seen_log := fun h => h.elim
  delivered_seen := fun _ h => absurd h (Nat.not_lt_zero _)
  delivered_prefix := List.prefix_refl _
  dropped_seen := fun _ h => absurd h (Nat.not_lt_zero _)

theorem Safe.number {s : SelectiveRepeat α} (h : s.Safe) (x : α) :
    Safe { s with
      log := s.log ++ [x]
      unacked := insert s.log.length s.unacked } where
  unacked_lt := by
    intro i hi
    rw [List.length_append, List.length_singleton]
    rcases hi with rfl | hi
    · exact Nat.lt_succ_self _
    · exact Nat.lt_succ_of_lt (h.unacked_lt i hi)
  seen_log := fun hx => (Step.number s x).before.getElem? (h.seen_log hx)
  delivered_seen := h.delivered_seen
  delivered_prefix := h.delivered_prefix.trans (List.prefix_append _ _)
  dropped_seen := by
    intro i hi hout
    have hne : i ≠ s.log.length := fun heq => hout (Or.inl heq)
    rw [List.length_append, List.length_singleton] at hi
    exact h.dropped_seen i (by omega) fun hin => hout (Or.inr hin)

theorem Safe.arrive {s : SelectiveRepeat α} (h : s.Safe) {i : ℕ} {x : α}
    (hx : s.log[i]? = some x) :
    Safe { s with seen := insert (i, x) s.seen } where
  unacked_lt := h.unacked_lt
  seen_log := by
    rintro j y (heq | hy)
    · obtain ⟨rfl, rfl⟩ := Prod.mk.inj heq
      exact hx
    · exact h.seen_log hy
  delivered_seen := fun j hj => (h.delivered_seen j hj).imp fun _ => Or.inr
  delivered_prefix := h.delivered_prefix
  dropped_seen := fun j hj hout =>
    (h.dropped_seen j hj hout).imp fun _ => Or.inr

theorem Safe.deliver {s : SelectiveRepeat α} (h : s.Safe) {x : α}
    (hx : (s.delivered.length, x) ∈ s.seen) :
    Safe { s with delivered := s.delivered ++ [x] } where
  unacked_lt := h.unacked_lt
  seen_log := h.seen_log
  delivered_seen := by
    intro i hi
    rw [List.length_append, List.length_singleton] at hi
    rcases Nat.lt_succ_iff_lt_or_eq.mp hi with hi | rfl
    · exact h.delivered_seen i hi
    · exact ⟨x, hx⟩
  delivered_prefix := by
    obtain ⟨rest, hrest⟩ := h.delivered_prefix
    have hnext := h.seen_log hx
    rw [← hrest, List.getElem?_append_right (Nat.le_refl _), Nat.sub_self]
      at hnext
    cases rest with
    | nil => cases hnext
    | cons y rest =>
        obtain rfl := Option.some.inj hnext
        exact ⟨rest, by rw [← hrest, List.append_assoc]; rfl⟩
  dropped_seen := h.dropped_seen

/-- A sender may forget what has arrived. -/
theorem Safe.forget {s : SelectiveRepeat α} (h : s.Safe) {kept : Set ℕ}
    (hkept : ∀ i ∈ kept, i ∈ s.unacked)
    (hseen : ∀ i ∈ s.unacked, i ∉ kept → s.Seen i) :
    Safe { s with unacked := kept } where
  unacked_lt := fun j hj => h.unacked_lt j (hkept j hj)
  seen_log := h.seen_log
  delivered_seen := h.delivered_seen
  delivered_prefix := h.delivered_prefix
  dropped_seen := by
    intro j hj hout
    by_cases hin : j ∈ s.unacked
    · exact hseen j hin hout
    · exact h.dropped_seen j hj hin

theorem Safe.settle {s : SelectiveRepeat α} (h : s.Safe) {i : ℕ}
    (hi : s.Seen i) : Safe { s with unacked := s.unacked \ {i} } := by
  refine h.forget (fun _ hj => hj.1) fun j hj hout => ?_
  have heq : j = i := by_contra fun hne => hout ⟨hj, hne⟩
  rw [heq]
  exact hi

theorem Safe.settleBelow {s : SelectiveRepeat α} (h : s.Safe) {n : ℕ}
    (hn : n ≤ s.delivered.length) :
    Safe { s with unacked := { i | i ∈ s.unacked ∧ n ≤ i } } := by
  refine h.forget (fun _ hj => hj.1) fun j hj hout => h.delivered_seen j ?_
  have hlow : ¬ n ≤ j := fun hle => hout ⟨hj, hle⟩
  omega

theorem Safe.step {s t : SelectiveRepeat α} (h : s.Safe) (hstep : s.Step t) :
    t.Safe := by
  cases hstep with
  | number x => exact h.number x
  | arrive hx => exact h.arrive hx
  | deliver hx => exact h.deliver hx
  | settle hi => exact h.settle hi
  | settleBelow hn => exact h.settleBelow hn

theorem Safe.steps {s t : SelectiveRepeat α} (h : s.Safe)
    (hsteps : s.Steps t) : t.Safe := by
  induction hsteps with
  | refl => exact h
  | tail _ hstep ih => exact ih.step hstep

/-- When the sender keeps nothing, every frame has arrived. -/
theorem Safe.complete {s : SelectiveRepeat α} (h : s.Safe)
    (hempty : ∀ i, i ∉ s.unacked) : ∀ i < s.log.length, s.Seen i :=
  fun i hi => h.dropped_seen i hi (hempty i)

end SelectiveRepeat

end Libsaf
