import Mathlib.Data.List.Basic
import Mathlib.Order.Defs.Unbundled

/-!
# Machines with outputs

A machine answers every input with an output, and changes its state. `run` gives
the outputs to a list of inputs and the state behind it.

`visits` gives the inputs of a run with the states they are given in, for what is
said about every step of a run (`visits_induction`), such as that it keeps an invariant
(`forall_visits_iff`).

If related states answer the same and go to related states, then so do runs from
related states (`run_refines`, or `run_refines_of` for some inputs only). Hence a machine
whose states represent those of a simpler one can be replaced by it.
-/

namespace KessokuOS

namespace Machine

variable {S S' A O : Type*}

/-- The outputs to the inputs `l`, and the state behind them. -/
def run (step : S → A → O × S) : S → List A → List O × S
  | s, [] => ([], s)
  | s, a :: l => ((step s a).1 :: (run step (step s a).2 l).1, (run step (step s a).2 l).2)

/-- The inputs `l`, each with the state it is given in. -/
def visits (step : S → A → O × S) : S → List A → List (S × A)
  | _, [] => []
  | s, a :: l => (s, a) :: visits step (step s a).2 l

variable {step : S → A → O × S} {step' : S' → A → O × S'}

theorem run_append (s : S) (l₁ l₂ : List A) :
    run step s (l₁ ++ l₂) = ((run step s l₁).1 ++ (run step (run step s l₁).2 l₂).1,
      (run step (run step s l₁).2 l₂).2) := by
  induction l₁ generalizing s with
  | nil => rfl
  | cons a l₁ ih => rw [List.cons_append, run, ih, run, List.cons_append]

/-- What relates the states before and behind every step relates those of a run. -/
theorem run_related {R : S → S → Prop} [Std.Refl R] [IsTrans S R]
    (hstep : ∀ s a, R s (step s a).2) (s : S) (l : List A) : R s (run step s l).2 := by
  induction l generalizing s with
  | nil => exact refl_of R s
  | cons a l ih => exact trans_of R (hstep s a) (ih _)

/-- A relation between the states of two machines is kept by runs of inputs that meet `G`,
    with the same outputs, if it is by steps. -/
theorem run_refines_of {R : S → S' → Prop} {G : A → Prop}
    (hstep : ∀ s s' a, G a → R s s' →
      (step s a).1 = (step' s' a).1 ∧ R (step s a).2 (step' s' a).2)
    {s : S} {s' : S'} (hs : R s s') {l : List A} (hl : ∀ a ∈ l, G a) :
    (run step s l).1 = (run step' s' l).1 ∧ R (run step s l).2 (run step' s' l).2 := by
  induction l generalizing s s' with
  | nil => exact ⟨rfl, hs⟩
  | cons a l ih =>
    rw [List.forall_mem_cons] at hl
    obtain ⟨ho, hs'⟩ := hstep s s' a hl.1 hs
    obtain ⟨hos, hs''⟩ := ih hs' hl.2
    exact ⟨by rw [run, run, ho, hos], hs''⟩

/-- The same for runs of any inputs. -/
theorem run_refines {R : S → S' → Prop}
    (hstep : ∀ s s' a, R s s' → (step s a).1 = (step' s' a).1 ∧ R (step s a).2 (step' s' a).2)
    {s : S} {s' : S'} (hs : R s s') (l : List A) :
    (run step s l).1 = (run step' s' l).1 ∧ R (run step s l).2 (run step' s' l).2 :=
  run_refines_of (G := fun _ => True) (fun s s' a _ => hstep s s' a) hs fun _ _ => trivial

/-- What every step keeps holds in every state of a run. -/
theorem visits_induction {Inv : S → Prop} (hstep : ∀ s a, Inv s → Inv (step s a).2) {s : S}
    (hs : Inv s) (l : List A) : ∀ p ∈ visits step s l, Inv p.1 := by
  induction l generalizing s with
  | nil => exact fun _ hp => absurd hp List.not_mem_nil
  | cons a l ih =>
    intro p hp
    rcases List.mem_cons.1 hp with rfl | hp
    · exact hs
    · exact ih (hstep s a hs) p hp

/-- If exactly the inputs that meet `G` keep an invariant, then it holds behind every
    step of a run exactly if all the inputs meet `G`. -/
theorem forall_visits_iff {Inv : S → Prop} {G : S → A → Prop}
    (hstep : ∀ s a, Inv s → (Inv (step s a).2 ↔ G s a)) {s : S} (hs : Inv s) (l : List A) :
    (∀ p ∈ visits step s l, Inv (step p.1 p.2).2) ↔ ∀ p ∈ visits step s l, G p.1 p.2 := by
  induction l generalizing s with
  | nil =>
    exact iff_of_true (fun _ hp => absurd hp List.not_mem_nil)
      (fun _ hp => absurd hp List.not_mem_nil)
  | cons a l ih =>
    rw [visits, List.forall_mem_cons, List.forall_mem_cons]
    -- Behind a step that keeps the invariant, the rest is a run from such a state.
    constructor
    · rintro ⟨ha, hl⟩
      exact ⟨(hstep s a hs).1 ha, (ih ha).1 hl⟩
    · rintro ⟨ha, hl⟩
      have hs' := (hstep s a hs).2 ha
      exact ⟨hs', (ih hs').2 hl⟩

end Machine

end KessokuOS
