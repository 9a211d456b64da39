/-
Messages of several senders that reach one receiver on two routes: those of
the receiver's own thread at once, all others through a first-in-first-out
queue.  The own messages may overtake the queued ones, but no sender's messages
overtake each other.
-/
import Mathlib.Tactic.Common
import Mathlib.Data.List.Perm.Basic

namespace Libsaf

universe u v

variable {K : Type u} {M : Type v} [DecidableEq K]

/-- The messages of one sender, in order. -/
def ofSender (sender : K) (messages : List (K × M)) : List (K × M) :=
  messages.filter fun m => m.1 = sender

omit [DecidableEq K] in
/-- A message put in front of the queue is still the last one in number. -/
theorem perm_overtake (executed queued : List (K × M)) (m : K × M) :
    (executed ++ [m] ++ queued).Perm (executed ++ queued ++ [m]) := by
  rw [List.append_assoc, List.append_assoc]
  exact List.perm_append_comm.append_left executed

/-- Every message sent was executed or is queued, once; every sender's messages
are in order; and `receiver` has none in the queue. -/
structure KeepsOrder (receiver : K) (executed queued sent : List (K × M)) :
    Prop where
  once : (executed ++ queued).Perm sent
  order : ∀ sender, ofSender sender (executed ++ queued) = ofSender sender sent
  foreign : ∀ m ∈ queued, m.1 ≠ receiver

namespace KeepsOrder

variable {receiver : K} {executed queued sent : List (K × M)} {m : K × M}

theorem nil : KeepsOrder (M := M) receiver [] [] [] :=
  ⟨List.Perm.refl _, fun _ => rfl, by simp⟩

theorem ofSender_queued (h : KeepsOrder receiver executed queued sent) :
    ofSender receiver queued = [] := by
  rw [ofSender, List.filter_eq_nil_iff]
  intro m hm
  simpa using h.foreign m hm

/-- The receiver executes a message of its own. -/
theorem now (h : KeepsOrder receiver executed queued sent)
    (hm : m.1 = receiver) :
    KeepsOrder receiver (executed ++ [m]) queued (sent ++ [m]) := by
  refine ⟨?_, ?_, h.foreign⟩
  · exact (perm_overtake executed queued m).trans (h.once.append_right [m])
  · intro sender
    have horder := h.order sender
    simp only [ofSender, List.filter_append] at horder ⊢
    rw [← horder]
    by_cases hsender : m.1 = sender
    · have hqueued : queued.filter (fun m => m.1 = sender) = [] := by
        rw [← hsender, hm]
        exact h.ofSender_queued
      simp [hqueued]
    · simp [hsender]

/-- Another sender queues a message. -/
theorem post (h : KeepsOrder receiver executed queued sent)
    (hm : m.1 ≠ receiver) :
    KeepsOrder receiver executed (queued ++ [m]) (sent ++ [m]) := by
  refine ⟨?_, ?_, ?_⟩
  · rw [← List.append_assoc]
    exact h.once.append_right [m]
  · intro sender
    have horder := h.order sender
    simp only [ofSender, ← List.append_assoc, List.filter_append] at horder ⊢
    rw [horder]
  · intro m' hm'
    rcases List.mem_append.mp hm' with hold | hnew
    · exact h.foreign m' hold
    · rw [List.mem_singleton.mp hnew]
      exact hm

/-- The receiver executes the front of the queue. -/
theorem run (h : KeepsOrder receiver executed (m :: queued) sent) :
    KeepsOrder receiver (executed ++ [m]) queued sent := by
  have hsplit : executed ++ [m] ++ queued = executed ++ m :: queued := by simp
  refine ⟨?_, ?_, fun m' hm' => h.foreign m' (List.mem_cons_of_mem m hm')⟩
  · rw [hsplit]
    exact h.once
  · rw [hsplit]
    exact h.order

end KeepsOrder

end Libsaf
