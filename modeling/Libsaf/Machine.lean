/-
Labelled machines with faults.  A word of labels is a schedule: it names every
choice of the environment, so that one word has one run.  The invariant rule,
the exact-condition rule and the simulation rule below are the inductions over
runs that the rest of the development uses.
-/
import Mathlib.Tactic.Common
import Mathlib.Data.List.Basic

namespace Libsaf

universe u v w x

variable {S : Type u} {T : Type w} {A : Type v} {B : Type x}

/-- `enabled` says which labels the environment may choose in a state; `exec`
is what the program does then, and `none` is a fault of the program. -/
structure Machine (S : Type u) (A : Type v) where
  enabled : S → A → Prop
  exec : S → A → Option S

namespace Machine

/-- The state reached by a word, or `none` when some step faults. -/
def run (M : Machine S A) : S → List A → Option S
  | s, [] => some s
  | s, a :: word => (M.exec s a).bind fun s' => M.run s' word

/-- Every label of the word meets `G` in the state where it is taken. -/
def Meets (M : Machine S A) (G : S → A → Prop) : S → List A → Prop
  | _, [] => True
  | s, a :: word => G s a ∧ ∀ s', M.exec s a = some s' → M.Meets G s' word

/-- The environment only chooses enabled labels. -/
def Legal (M : Machine S A) (s : S) (word : List A) : Prop :=
  M.Meets M.enabled s word

/-- The word runs without a fault and `P` holds in every state on the way, the
first and the last included. -/
def Holds (M : Machine S A) (P : S → Prop) : S → List A → Prop
  | s, [] => P s
  | s, a :: word => P s ∧ ∃ s', M.exec s a = some s' ∧ M.Holds P s' word

theorem Holds.head {M : Machine S A} {P : S → Prop} {s : S} {word : List A}
    (h : M.Holds P s word) : P s := by
  cases word with
  | nil => exact h
  | cons a word => exact h.1

theorem Holds.mono {M : Machine S A} {P Q : S → Prop} (hPQ : ∀ s, P s → Q s)
    {s : S} {word : List A} (h : M.Holds P s word) : M.Holds Q s word := by
  induction word generalizing s with
  | nil => exact hPQ s h
  | cons a word ih =>
      obtain ⟨hs, s', hexec, hrest⟩ := h
      exact ⟨hPQ s hs, s', hexec, ih hrest⟩

theorem Meets.and {M : Machine S A} {G H : S → A → Prop} {s : S}
    {word : List A} (hG : M.Meets G s word) (hH : M.Meets H s word) :
    M.Meets (fun s a => G s a ∧ H s a) s word := by
  induction word generalizing s with
  | nil => trivial
  | cons a word ih =>
      exact ⟨⟨hG.1, hH.1⟩, fun s' hexec => ih (hG.2 s' hexec) (hH.2 s' hexec)⟩

/-- Invariant rule: what a step with an allowed label keeps, a run keeps, and
such a run has no fault. -/
theorem holds_of_step {M : Machine S A} {G : S → A → Prop} {P : S → Prop}
    (hstep : ∀ s a, P s → G s a → ∃ s', M.exec s a = some s' ∧ P s')
    {s : S} {word : List A} (hs : P s) (hword : M.Meets G s word) :
    M.Holds P s word := by
  induction word generalizing s with
  | nil => exact hs
  | cons a word ih =>
      obtain ⟨s', hexec, hs'⟩ := hstep s a hs hword.1
      exact ⟨hs, s', hexec, ih hs' (hword.2 s' hexec)⟩

/-- Exact-condition rule.  Steps whose labels meet `G` keep the invariant `I`,
which gives `P`; and a step from there that ends with `P` has met `G`.  Then a
legal run has `P` throughout exactly when all its labels meet `G`. -/
theorem holds_iff_meets {M : Machine S A} {E G : S → A → Prop}
    {I P : S → Prop} (hP : ∀ s, I s → P s)
    (hkeep : ∀ s a, I s → E s a → G s a → ∃ s', M.exec s a = some s' ∧ I s')
    (hneed : ∀ s a s', I s → E s a → M.exec s a = some s' → P s' → G s a)
    {s : S} {word : List A} (hs : I s) (hword : M.Meets E s word) :
    M.Holds P s word ↔ M.Meets G s word := by
  constructor
  · intro h
    induction word generalizing s with
    | nil => trivial
    | cons a word ih =>
        obtain ⟨_, s', hexec, hrest⟩ := h
        have hG : G s a := hneed s a s' hs hword.1 hexec hrest.head
        refine ⟨hG, fun t ht => ?_⟩
        obtain rfl : s' = t := Option.some.inj (hexec.symm.trans ht)
        obtain ⟨t, ht, hI⟩ := hkeep s a hs hword.1 hG
        obtain rfl : s' = t := Option.some.inj (hexec.symm.trans ht)
        exact ih hI (hword.2 s' hexec) hrest
  · intro h
    have hrun : M.Holds I s word :=
      holds_of_step (fun s a hs hG => hkeep s a hs hG.1 hG.2) hs (hword.and h)
    exact hrun.mono hP

/-- Projection rule.  Every step of `M` does to a part of the state, `view`, one
action, and the actions of that part are known: they keep `J`, and there `P` is
kept exactly by those that meet `G`. -/
theorem holds_iff_view {M : Machine S A} {E : S → A → Prop} {view : S → T}
    {action : S → A → B} {apply : T → B → T} {C G : T → B → Prop}
    {J P : T → Prop}
    (hview : ∀ s a, E s a → C (view s) (action s a) ∧
      ∃ s', M.exec s a = some s' ∧ view s' = apply (view s) (action s a))
    (hkeep : ∀ t b, J t → C t b → J (apply t b))
    (hiff : ∀ t b, J t → P t → C t b → (P (apply t b) ↔ G t b))
    {s : S} {word : List A} (hJ : J (view s)) (hP : P (view s))
    (hword : M.Meets E s word) :
    M.Holds (fun s => P (view s)) s word ↔
      M.Meets (fun s a => G (view s) (action s a)) s word := by
  apply holds_iff_meets (I := fun s => J (view s) ∧ P (view s)) (E := E)
  · exact fun s hs => hs.2
  · intro s a hs hE hG
    obtain ⟨hC, s', hexec, hs'⟩ := hview s a hE
    refine ⟨s', hexec, ?_⟩
    rw [hs']
    exact ⟨hkeep _ _ hs.1 hC, (hiff _ _ hs.1 hs.2 hC).mpr hG⟩
  · intro s a s' hs hE hexec hP'
    obtain ⟨hC, t, ht, hview'⟩ := hview s a hE
    obtain rfl : s' = t := Option.some.inj (hexec.symm.trans ht)
    rw [hview'] at hP'
    exact (hiff _ _ hs.1 hs.2 hC).mp hP'
  · exact ⟨hJ, hP⟩
  · exact hword

theorem run_append (M : Machine S A) (s : S) (front back : List A) :
    M.run s (front ++ back) = (M.run s front).bind fun t => M.run t back := by
  induction front generalizing s with
  | nil => rfl
  | cons a front ih =>
      simp only [List.cons_append, run, Option.bind_assoc]
      exact congrArg _ (funext ih)

theorem meets_append {M : Machine S A} {G : S → A → Prop} {s : S}
    {front back : List A} :
    M.Meets G s (front ++ back) ↔
      M.Meets G s front ∧ ∀ t, M.run s front = some t → M.Meets G t back := by
  induction front generalizing s with
  | nil => simp [Meets, run]
  | cons a front ih =>
      simp only [List.cons_append, Meets, ih, run, Option.bind_eq_some_iff]
      constructor
      · rintro ⟨ha, hrest⟩
        exact ⟨⟨ha, fun s' hs' => (hrest s' hs').1⟩,
          fun t ⟨s', hs', ht⟩ => (hrest s' hs').2 t ht⟩
      · rintro ⟨⟨ha, hfront⟩, hback⟩
        exact ⟨ha, fun s' hs' => ⟨hfront s' hs', fun t ht =>
          hback t ⟨s', hs', ht⟩⟩⟩

/-- The first step of a word is known. -/
theorem run_cons {M : Machine S A} {s t : S} {a : A} {word : List A}
    (hexec : M.exec s a = some t) : M.run s (a :: word) = M.run t word := by
  rw [run, hexec, Option.bind_some]

theorem meets_cons {M : Machine S A} {G : S → A → Prop} {s t : S} {a : A}
    {word : List A} (ha : G s a) (hexec : M.exec s a = some t)
    (hword : M.Meets G t word) : M.Meets G s (a :: word) := by
  refine ⟨ha, fun t' ht' => ?_⟩
  obtain rfl : t = t' := Option.some.inj (hexec.symm.trans ht')
  exact hword

/-- The state that the first part of a word reaches is known. -/
theorem run_front {M : Machine S A} {s t : S} {front back : List A}
    (hrun : M.run s front = some t) :
    M.run s (front ++ back) = M.run t back := by
  rw [run_append, hrun, Option.bind_some]

theorem Meets.append {M : Machine S A} {G : S → A → Prop} {s t : S}
    {front back : List A} (hfront : M.Meets G s front)
    (hrun : M.run s front = some t) (hback : M.Meets G t back) :
    M.Meets G s (front ++ back) := by
  refine meets_append.mpr ⟨hfront, fun t' ht' => ?_⟩
  obtain rfl : t = t' := Option.some.inj (hrun.symm.trans ht')
  exact hback

/-- A legal word is continued from the state that it reaches. -/
theorem legal_append {M : Machine S A} {s t : S} {front back : List A}
    (hfront : M.Legal s front) (hrun : M.run s front = some t)
    (hback : M.Legal t back) :
    M.Legal s (front ++ back) ∧ M.run s (front ++ back) = M.run t back :=
  ⟨Meets.append hfront hrun hback, run_front hrun⟩

theorem meets_of_forall {M : Machine S A} {G : S → A → Prop} {s : S}
    {word : List A} (h : ∀ a ∈ word, ∀ s, G s a) : M.Meets G s word := by
  induction word generalizing s with
  | nil => trivial
  | cons a word ih =>
      exact ⟨h a List.mem_cons_self s, fun s' _ =>
        ih fun b hb => h b (List.mem_cons_of_mem a hb)⟩

/-- `Holds` in terms of the states reached by the prefixes of the word. -/
theorem holds_iff_prefix {M : Machine S A} {P : S → Prop} {s : S}
    {word : List A} :
    M.Holds P s word ↔
      ∀ front, front <+: word → ∃ t, M.run s front = some t ∧ P t := by
  induction word generalizing s with
  | nil =>
      constructor
      · intro h front hfront
        obtain rfl := List.prefix_nil.mp hfront
        exact ⟨s, rfl, h⟩
      · intro h
        obtain ⟨t, ht, hP⟩ := h [] (List.prefix_refl [])
        obtain rfl : s = t := Option.some.inj ht
        exact hP
  | cons a word ih =>
      constructor
      · rintro ⟨hs, s', hexec, hrest⟩ front hfront
        cases front with
        | nil => exact ⟨s, rfl, hs⟩
        | cons b front =>
            obtain ⟨rfl, htail⟩ := List.cons_prefix_cons.mp hfront
            obtain ⟨t, ht, hP⟩ := ih.mp hrest front htail
            exact ⟨t, by simpa [run, hexec] using ht, hP⟩
      · intro h
        obtain ⟨t, ht, hs⟩ := h [] List.nil_prefix
        obtain rfl : s = t := Option.some.inj ht
        obtain ⟨s', hrun, _⟩ :=
          h [a] (List.cons_prefix_cons.mpr ⟨rfl, List.nil_prefix⟩)
        have hexec : M.exec s a = some s' := by simpa [run] using hrun
        refine ⟨hs, s', hexec, ih.mpr fun front hfront => ?_⟩
        obtain ⟨t, ht, hP⟩ :=
          h (a :: front) (List.cons_prefix_cons.mpr ⟨rfl, hfront⟩)
        exact ⟨t, by simpa [run, hexec] using ht, hP⟩

theorem Holds.last {M : Machine S A} {P : S → Prop} {s : S} {word : List A}
    (h : M.Holds P s word) : ∃ t, M.run s word = some t ∧ P t :=
  holds_iff_prefix.mp h word (List.prefix_refl word)

/-- A run whose last state shows what no state with `P` does. -/
theorem not_holds_of_view {M : Machine S A} {P : S → Prop} {view : S → B}
    {b : B} {s : S} {word : List A} (h : (M.run s word).map view = some b)
    (hnot : ∀ t, view t = b → ¬ P t) : ¬ M.Holds P s word := by
  intro hholds
  obtain ⟨t, ht, hP⟩ := hholds.last
  rw [ht, Option.map_some] at h
  exact hnot t (Option.some.inj h) hP

/-- A concrete run that does not end with `P`. -/
theorem not_holds_of_run {M : Machine S A} {P : S → Prop} [DecidablePred P]
    {s : S} {word : List A}
    (h : (M.run s word).map (fun t => decide (P t)) = some false) :
    ¬ M.Holds P s word :=
  not_holds_of_view h fun _ => of_decide_eq_false

/-- A run that faults. -/
theorem not_holds_of_fault {M : Machine S A} {P : S → Prop} {s : S}
    {word : List A} (h : M.run s word = none) : ¬ M.Holds P s word := by
  intro hholds
  obtain ⟨t, ht, _⟩ := hholds.last
  rw [h] at ht
  cases ht

/-- What every step keeps while `P` holds, a run with `P` throughout keeps. -/
theorem Holds.last_of_step {M : Machine S A} {E : S → A → Prop}
    {B P : S → Prop}
    (hstay : ∀ s a s', B s → P s → E s a → M.exec s a = some s' → B s')
    {s : S} {word : List A} (hs : B s) (hword : M.Meets E s word)
    (hholds : M.Holds P s word) : ∃ t, M.run s word = some t ∧ P t ∧ B t := by
  induction word generalizing s with
  | nil => exact ⟨s, rfl, hholds, hs⟩
  | cons a word ih =>
      obtain ⟨hP, s', hexec, hrest⟩ := hholds
      obtain ⟨t, ht, hlast⟩ :=
        ih (hstay s a s' hs hP hword.1 hexec) (hword.2 s' hexec) hrest
      exact ⟨t, by simpa [run, hexec] using ht, hlast⟩

/-- What every step keeps that does not fault, a run keeps that does not. -/
theorem invariant_run {M : Machine S A} {E : S → A → Prop} {P : S → Prop}
    (hstep : ∀ s a s', P s → E s a → M.exec s a = some s' → P s')
    {s t : S} {word : List A} (hs : P s) (hword : M.Meets E s word)
    (hrun : M.run s word = some t) : P t := by
  induction word generalizing s with
  | nil =>
      obtain rfl := Option.some.inj hrun
      exact hs
  | cons a word ih =>
      obtain ⟨s', hexec, hrest⟩ := Option.bind_eq_some_iff.mp hrun
      exact ih (hstep s a s' hs hword.1 hexec) (hword.2 s' hexec) hrest

/-- Delayed exact-condition rule.  Steps whose labels meet `G` keep the
invariant `I`; a step from there that does not leaves `B`, which stays as long
as `P` holds.  Then a run with `P` throughout that does not end with `B` has
met `G`. -/
theorem meets_of_doomed {M : Machine S A} {E G : S → A → Prop}
    {I B P : S → Prop}
    (hkeep : ∀ s a, I s → E s a → G s a → ∃ s', M.exec s a = some s' ∧ I s')
    (hbreak : ∀ s a s', I s → E s a → ¬ G s a → M.exec s a = some s' →
      P s' → B s')
    (hstay : ∀ s a s', B s → P s → E s a → M.exec s a = some s' → B s')
    {s : S} {word : List A} (hs : I s) (hword : M.Meets E s word)
    (hend : ∀ t, M.run s word = some t → P t → ¬ B t)
    (hholds : M.Holds P s word) : M.Meets G s word := by
  induction word generalizing s with
  | nil => trivial
  | cons a word ih =>
      obtain ⟨_, s', hexec, hrest⟩ := hholds
      have hend' : ∀ t, M.run s' word = some t → P t → ¬ B t := by
        intro t ht
        exact hend t (by simpa [run, hexec] using ht)
      have hG : G s a := by
        by_contra hG
        obtain ⟨t, ht, hP, hB⟩ := Holds.last_of_step hstay
          (hbreak s a s' hs hword.1 hG hexec hrest.head) (hword.2 s' hexec)
          hrest
        exact hend' t ht hP hB
      refine ⟨hG, fun t ht => ?_⟩
      obtain rfl : s' = t := Option.some.inj (hexec.symm.trans ht)
      obtain ⟨t, ht, hI⟩ := hkeep s a hs hword.1 hG
      obtain rfl : s' = t := Option.some.inj (hexec.symm.trans ht)
      exact ih hI (hword.2 s' hexec) hend' hrest

/-- Simulation rule: `N` is the abstract machine.  Where `M` may step, both
machines step without a fault, and the relation is kept. -/
theorem simulates {M : Machine S A} {N : Machine T A} {R : S → T → Prop}
    (hstep : ∀ s t a, R s t → M.enabled s a →
      ∃ s' t', M.exec s a = some s' ∧ N.exec t a = some t' ∧ R s' t')
    {s : S} {t : T} {word : List A} (hR : R s t) (hword : M.Legal s word) :
    ∃ s' t', M.run s word = some s' ∧ N.run t word = some t' ∧ R s' t' := by
  induction word generalizing s t with
  | nil => exact ⟨s, t, rfl, rfl, hR⟩
  | cons a word ih =>
      obtain ⟨s₁, t₁, hs, ht, hR₁⟩ := hstep s t a hR hword.1
      obtain ⟨s', t', hs', ht', hR'⟩ := ih hR₁ (hword.2 s₁ hs)
      exact ⟨s', t', by simp [run, hs, hs'], by simp [run, ht, ht'], hR'⟩

/-- The machine with other names for its labels. -/
def comap (N : Machine T B) (f : A → B) : Machine T A where
  enabled t a := N.enabled t (f a)
  exec t a := N.exec t (f a)

theorem run_comap (N : Machine T B) (f : A → B) (t : T) (word : List A) :
    (N.comap f).run t word = N.run t (word.map f) := by
  induction word generalizing t with
  | nil => rfl
  | cons a word ih =>
      simp only [List.map_cons, run]
      exact congrArg _ (funext ih)

theorem legal_comap {N : Machine T B} {f : A → B} {t : T} {word : List A} :
    (N.comap f).Legal t word ↔ N.Legal t (word.map f) := by
  induction word generalizing t with
  | nil => exact Iff.rfl
  | cons a word ih =>
      exact and_congr_right fun _ =>
        forall_congr' fun t' => imp_congr_right fun _ => ih

/-- Concrete words are checked by running them. -/
instance decidableMeets (M : Machine S A) (G : S → A → Prop)
    [∀ s a, Decidable (G s a)] :
    ∀ s word, Decidable (M.Meets G s word)
  | _, [] => isTrue trivial
  | s, a :: word =>
      match hexec : M.exec s a with
      | none => decidable_of_iff (G s a) (by simp [Meets, hexec])
      | some s' =>
          have := decidableMeets M G s' word
          decidable_of_iff (G s a ∧ M.Meets G s' word) (by simp [Meets, hexec])

instance decidableLegal (M : Machine S A) [∀ s a, Decidable (M.enabled s a)]
    (s : S) (word : List A) : Decidable (M.Legal s word) :=
  inferInstanceAs (Decidable (M.Meets M.enabled s word))

end Machine

end Libsaf
