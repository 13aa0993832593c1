import Mathlib.Data.List.Basic

/-!
# Runs of a transition function

A system takes a step on an action, or refuses it. A run performs a list of
actions, and is refused when one of them is. `Along G` says that every step of
a run, taken from the state reached before it, meets the guard `G`.

An invariant which every guarded step preserves holds at the end of every
guarded run (`invariant_of_along`), hence at every point of it: the prefixes
of a run are runs.
-/

namespace KessokuOS

namespace Run

variable {S A : Type*} (step : S → A → Option S)

/-- The state after the actions `l`, if all of them are accepted. -/
def run : S → List A → Option S
  | s, [] => some s
  | s, a :: l => (step s a).bind fun s' => run s' l

/-- Every action of `l`, from the state it is taken in, meets the guard `G`. -/
def Along (G : S → A → Prop) : S → List A → Prop
  | _, [] => True
  | s, a :: l => G s a ∧ ∀ s', step s a = some s' → Along G s' l

/-- Whether a run meets a decidable guard is found by performing it. -/
instance Along.decidable (G : S → A → Prop) [∀ s a, Decidable (G s a)] :
    (s : S) → (l : List A) → Decidable (Along step G s l)
  | _, [] => .isTrue trivial
  | s, a :: l =>
    haveI : Decidable (∀ s', step s a = some s' → Along step G s' l) :=
      match step s a with
      | none => .isTrue fun _ h' => absurd h' (Option.some_ne_none _).symm
      | some t =>
        haveI := Along.decidable G t l
        decidable_of_iff (Along step G t l)
          ⟨fun ht _ h' => Option.some.inj h' ▸ ht, fun ht => ht t rfl⟩
    inferInstanceAs (Decidable (_ ∧ _))

variable {step}

theorem run_cons {s s' : S} {a : A} {l : List A} :
    run step s (a :: l) = some s' ↔ ∃ t, step s a = some t ∧ run step t l = some s' := by
  rw [run, Option.bind_eq_some_iff]

theorem run_append {s s' : S} {l₁ l₂ : List A} :
    run step s (l₁ ++ l₂) = some s' ↔ ∃ t, run step s l₁ = some t ∧ run step t l₂ = some s' := by
  induction l₁ generalizing s with
  | nil => simp [run]
  | cons a l₁ ih =>
    rw [List.cons_append, run_cons]
    simp only [ih, run_cons]
    constructor
    · rintro ⟨t, ha, u, hl, hs⟩
      exact ⟨u, ⟨t, ha, hl⟩, hs⟩
    · rintro ⟨u, ⟨t, ha, hl⟩, hs⟩
      exact ⟨t, ha, u, hl, hs⟩

/-- An invariant of the guarded steps is one of the guarded runs. -/
theorem invariant_of_along {G : S → A → Prop} {Inv : S → Prop}
    (hstep : ∀ s a s', Inv s → G s a → step s a = some s' → Inv s') {s s' : S} {l : List A}
    (hs : Inv s) (hl : Along step G s l) (hr : run step s l = some s') : Inv s' := by
  induction l generalizing s with
  | nil => exact Option.some.inj hr ▸ hs
  | cons a l ih =>
    obtain ⟨t, ha, hr⟩ := run_cons.1 hr
    exact ih (hstep s a t hs hl.1 ha) (hl.2 t ha) hr

end Run

end KessokuOS
