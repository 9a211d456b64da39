/-
Incremental parsing.  A parser that takes one item off the front of a stream,
and whose success does not depend on what follows, yields the same items
however the stream is cut into chunks.
-/
import Mathlib.Tactic.Common
import Mathlib.Data.List.Basic

namespace Libsaf

universe u v

variable {α : Type u} {β : Type v}

/-- `parse` returns the first item of the stream and what is behind it.  More
input never changes an item that is already complete, and no item is empty. -/
structure PrefixParser (α : Type u) (β : Type v) where
  parse : List α → Option (β × List α)
  stable : ∀ {s item rest}, parse s = some (item, rest) →
    ∀ more, parse (s ++ more) = some (item, rest ++ more)
  shrinks : ∀ {s item rest}, parse s = some (item, rest) →
    rest.length < s.length

namespace PrefixParser

/-- The stream begins with these items, one after the other. -/
inductive Begins (P : PrefixParser α β) : List α → List β → List α → Prop where
  | nil (s : List α) : Begins P s [] s
  | cons {s rest back : List α} {item : β} {items : List β} :
      P.parse s = some (item, rest) → Begins P rest items back →
      Begins P s (item :: items) back

/-- Parsing until no complete item is left. -/
structure Drains (P : PrefixParser α β) (s : List α) (items : List β)
    (rest : List α) : Prop where
  begins : P.Begins s items rest
  stuck : P.parse rest = none

/-- Appending the chunks one after the other and draining after each. -/
inductive Feeds (P : PrefixParser α β) :
    List α → List (List α) → List β → List α → Prop where
  | nil (s : List α) : Feeds P s [] [] s
  | cons {s chunk rest back : List α} {chunks : List (List α)}
      {items more : List β} :
      P.Drains (s ++ chunk) items rest → Feeds P rest chunks more back →
      Feeds P s (chunk :: chunks) (items ++ more) back

variable {P : PrefixParser α β}

theorem Begins.append {s middle back : List α} {items more : List β}
    (hfront : P.Begins s items middle) (hback : P.Begins middle more back) :
    P.Begins s (items ++ more) back := by
  induction hfront with
  | nil s => exact hback
  | cons hparse _ ih => exact .cons hparse (ih hback)

theorem Begins.extend {s rest : List α} {items : List β}
    (h : P.Begins s items rest) (more : List α) :
    P.Begins (s ++ more) items (rest ++ more) := by
  induction h with
  | nil s => exact .nil _
  | cons hparse _ ih => exact .cons (P.stable hparse more) ih

/-- Draining first and appending later is draining everything at once. -/
theorem Drains.append {s rest more back : List α} {items others : List β}
    (hfirst : P.Drains s items rest)
    (hsecond : P.Drains (rest ++ more) others back) :
    P.Drains (s ++ more) (items ++ others) back :=
  ⟨(hfirst.begins.extend more).append hsecond.begins, hsecond.stuck⟩

/-- Every other sequence of items at the front is an initial part of the
drained one: the drained sequence is the longest. -/
theorem Drains.longest {s rest rest' : List α} {items items' : List β}
    (h : P.Drains s items rest) (hother : P.Begins s items' rest') :
    items' <+: items := by
  obtain ⟨hbegins, hstuck⟩ := h
  induction hother generalizing items with
  | nil s => exact List.nil_prefix
  | cons hparse _ ih =>
      cases hbegins with
      | nil =>
          rw [hparse] at hstuck
          cases hstuck
      | cons hparse' hrest =>
          rw [hparse] at hparse'
          cases hparse'
          exact List.cons_prefix_cons.mpr ⟨rfl, ih hrest⟩

/-- The items at the front determine what is behind them. -/
theorem Begins.rest_unique {s rest rest' : List α} {items : List β}
    (h : P.Begins s items rest) (h' : P.Begins s items rest') :
    rest = rest' := by
  induction h with
  | nil s => cases h'; rfl
  | cons hparse _ ih =>
      cases h' with
      | cons hparse' hrest' =>
          rw [hparse] at hparse'
          cases hparse'
          exact ih hrest'

theorem Drains.unique {s rest rest' : List α} {items items' : List β}
    (h : P.Drains s items rest) (h' : P.Drains s items' rest') :
    items = items' ∧ rest = rest' := by
  have hitems : items = items' :=
    List.IsPrefix.eq_of_length_le (h'.longest h.begins)
      (h.longest h'.begins).length_le
  subst hitems
  exact ⟨rfl, h.begins.rest_unique h'.begins⟩

/-- Draining ends, because every item shortens the stream. -/
theorem Drains.total (P : PrefixParser α β) (s : List α) :
    ∃ items rest, P.Drains s items rest := by
  induction hlength : s.length using Nat.strongRecOn generalizing s with
  | _ n ih =>
      cases hparse : P.parse s with
      | none => exact ⟨[], s, .nil s, hparse⟩
      | some result =>
          obtain ⟨item, rest⟩ := result
          obtain ⟨items, back, hdrains⟩ :=
            ih rest.length (hlength ▸ P.shrinks hparse) rest rfl
          exact ⟨item :: items, back, .cons hparse hdrains.begins,
            hdrains.stuck⟩

/-- Feeding a stream in chunks drains the whole stream. -/
theorem Feeds.drains {s rest : List α} {chunks : List (List α)}
    {items : List β} (h : P.Feeds s chunks items rest)
    (hstuck : P.parse s = none) : P.Drains (s ++ chunks.flatten) items rest := by
  induction h with
  | nil s => simpa using (⟨.nil s, hstuck⟩ : P.Drains s [] s)
  | cons hdrains _ ih =>
      rw [List.flatten_cons, ← List.append_assoc]
      exact hdrains.append (ih hdrains.stuck)

end PrefixParser

end Libsaf
