import Mathlib.Data.Nat.Notation
import Mathlib.Order.Defs.Unbundled

/-!
# Routines

A routine (`Routine`) changes a state, and gives a value or an error; what it did
before an error is not undone. A routine with loops that may go on for ever is given
fuel, and is still running when it runs out (`Outcome`): the state it leaves then is
one on its way.

* `Keeps R f`: a run of `f` relates the state before it to the one behind it. What
  is reflexive and transitive is kept by a sequence of routines that keep it
  (`Keeps.bind`);
* `FailsTimes f n`: so many runs of `f` one behind the other fail;
* `Triple P f Q`: from a state with `P`, the outcome and the state behind `f` meet
  `Q` (`Triple.bind`, `Triple.bind_value` as far as there is a value, `Triple.orElse`).
-/

namespace KessokuOS

/-- What a routine has come to. -/
inductive Outcome (ε α : Type*)
  | ok (a : α)
  | error (e : ε)
  /-- It ran out of fuel. -/
  | running
  deriving DecidableEq, Repr

def Routine (ε S α : Type*) := S → Outcome ε α × S

namespace Routine

universe u

variable {ε S : Type*} {α β : Type u}

/-- Goes on with the value of the first routine, if it has one. -/
def andThen (f : Routine ε S α) (g : α → Routine ε S β) : Routine ε S β := fun s =>
  match f s with
  | (.ok a, s) => g a s
  | (.error e, s) => (.error e, s)
  | (.running, s) => (.running, s)

instance : Monad (Routine ε S) where
  pure a s := (.ok a, s)
  bind := andThen

def throw (e : ε) : Routine ε S α := fun s => (.error e, s)

/-- Has no fuel to go on. -/
def outOfFuel : Routine ε S α := fun s => (.running, s)

/-- Reads the state. -/
def get (f : S → α) : Routine ε S α := fun s => (.ok (f s), s)

def modify (f : S → S) : Routine ε S Unit := fun s => (.ok (), f s)

/-- Does the routine only on a condition. -/
def when (c : Bool) (f : Routine ε S Unit) : Routine ε S Unit := if c then f else pure ()

/-- Fails unless the condition holds. -/
def assert (c : Bool) (e : ε) : Routine ε S Unit := if c then pure () else throw e

/-- Goes on with the second routine after an error of the first. -/
def orElse (f g : Routine ε S α) : Routine ε S α := fun s =>
  match f s with
  | (.error _, s) => g s
  | r => r

/-- Tries again after an error, up to `n` times. -/
def retry (f : Routine ε S α) : (n : ℕ) → Routine ε S α
  | 0 => f
  | n + 1 => orElse f (retry f n)

/-- An error is a value to go on with. -/
def attempt {ε α : Type u} (f : Routine ε S α) : Routine ε S (Except ε α) := fun s =>
  match f s with
  | (.ok a, s) => (.ok (.ok a), s)
  | (.error e, s) => (.ok (.error e), s)
  | (.running, s) => (.running, s)

section Equations

variable {f : Routine ε S α} {g : α → Routine ε S β} {s s' : S}

theorem bind_of_ok {a : α} (h : f s = (.ok a, s')) : (f >>= g) s = g a s' := by
  change andThen f g s = _
  rw [andThen, h]

theorem bind_of_error {e : ε} (h : f s = (.error e, s')) : (f >>= g) s = (.error e, s') := by
  change andThen f g s = _
  rw [andThen, h]

theorem bind_of_running (h : f s = (.running, s')) : (f >>= g) s = (.running, s') := by
  change andThen f g s = _
  rw [andThen, h]

/-- A sequence of routines has a value exactly if both have one. -/
theorem bind_eq_ok_iff {b : β} : (f >>= g) s = (.ok b, s') ↔
    ∃ a s₁, f s = (.ok a, s₁) ∧ g a s₁ = (.ok b, s') := by
  constructor
  · intro h
    rcases hf : f s with ⟨o, s₁⟩
    cases o with
    | ok a => exact ⟨a, s₁, rfl, by rwa [bind_of_ok hf] at h⟩
    | error e =>
      rw [bind_of_error hf] at h
      exact nomatch congrArg Prod.fst h
    | running =>
      rw [bind_of_running hf] at h
      exact nomatch congrArg Prod.fst h
  · rintro ⟨a, s₁, hf, hg⟩
    rw [bind_of_ok hf, hg]

theorem bind_unit_eq_ok_iff {γ : Type} {f : Routine ε S Unit} {g : Unit → Routine ε S γ} {b : γ} :
    (f >>= g) s = (.ok b, s') ↔ ∃ s₁, f s = (.ok (), s₁) ∧ g () s₁ = (.ok b, s') :=
  bind_eq_ok_iff.trans ⟨fun ⟨_, s₁, h⟩ => ⟨s₁, h⟩, fun ⟨s₁, h⟩ => ⟨(), s₁, h⟩⟩

theorem bind_assert_eq_ok_iff {γ : Type} {c : Bool} {e : ε} {g : Unit → Routine ε S γ} {b : γ} :
    (assert c e >>= g) s = (.ok b, s') ↔ c = true ∧ g () s = (.ok b, s') := by
  cases c
  · exact iff_of_false (fun h => nomatch congrArg Prod.fst h) fun h => nomatch h.1
  · exact (and_iff_right rfl).symm

/-- A sequence of three routines, from the front or from the back. -/
theorem bind_bind {γ : Type u} (f : Routine ε S α) (g : α → Routine ε S β)
    (h : β → Routine ε S γ) : f >>= g >>= h = f >>= fun a => g a >>= h := by
  funext s
  rcases hf : f s with ⟨o, s'⟩
  cases o with
  | ok a =>
    rw [bind_of_ok hf]
    rcases hg : g a s' with ⟨o', s''⟩
    have hfg : (f >>= g) s = (o', s'') := by rw [bind_of_ok hf, hg]
    cases o' with
    | ok b => rw [bind_of_ok hfg, bind_of_ok hg]
    | error e => rw [bind_of_error hfg, bind_of_error hg]
    | running => rw [bind_of_running hfg, bind_of_running hg]
  | error e => rw [bind_of_error hf, bind_of_error (bind_of_error hf)]
  | running => rw [bind_of_running hf, bind_of_running (bind_of_running hf)]

theorem bind_of_pure (a : α) : (pure a >>= g : Routine ε S β) = g a := rfl

theorem bind_get (f : S → α) : (get f >>= g : Routine ε S β) s = g (f s) s := rfl

theorem bind_assert_of_true {γ : Type} {c : Bool} {e : ε} {g : Unit → Routine ε S γ}
    (h : c = true) : (assert c e >>= g) s = g () s := by
  rw [h]
  rfl

theorem bind_assert_of_false {γ : Type} {c : Bool} {e : ε} {g : Unit → Routine ε S γ}
    (h : c = false) : (assert c e >>= g) s = (.error e, s) := by
  rw [h]
  rfl

theorem orElse_of_error {f g : Routine ε S α} {e : ε} (h : f s = (.error e, s')) :
    orElse f g s = g s' := by
  rw [orElse, h]

end Equations

/-! ## Relations between the states before and behind -/

/-- Every run relates the state before it to the one behind it. -/
def Keeps (R : S → S → Prop) (f : Routine ε S α) : Prop := ∀ s, R s (f s).2

section Keeps

variable {R : S → S → Prop}

theorem Keeps.pure [Std.Refl R] (a : α) : Keeps R (pure a : Routine ε S α) := fun s =>
  refl_of R s

theorem Keeps.throw [Std.Refl R] (e : ε) : Keeps R (throw e : Routine ε S α) := fun s =>
  refl_of R s

theorem Keeps.outOfFuel [Std.Refl R] : Keeps R (outOfFuel : Routine ε S α) := fun s =>
  refl_of R s

theorem Keeps.get [Std.Refl R] (f : S → α) : Keeps R (get f : Routine ε S α) := fun s =>
  refl_of R s

theorem Keeps.bind [IsTrans S R] {f : Routine ε S α} {g : α → Routine ε S β} (hf : Keeps R f)
    (hg : ∀ a, Keeps R (g a)) : Keeps R (f >>= g) := by
  intro s
  have hs := hf s
  rcases h : f s with ⟨o, s'⟩
  rw [h] at hs
  cases o with
  | ok a => rw [bind_of_ok h]; exact trans_of R hs (hg a s')
  | error e => rw [bind_of_error h]; exact hs
  | running => rw [bind_of_running h]; exact hs

theorem Keeps.when [Std.Refl R] {c : Bool} {f : Routine ε S Unit} (hf : Keeps R f) :
    Keeps R (when c f) := by
  cases c
  · exact Keeps.pure ()
  · exact hf

theorem Keeps.assert [Std.Refl R] (c : Bool) (e : ε) :
    Keeps R (assert c e : Routine ε S Unit) := by
  cases c
  · exact Keeps.throw e
  · exact Keeps.pure ()

theorem Keeps.orElse [IsTrans S R] {f g : Routine ε S α} (hf : Keeps R f) (hg : Keeps R g) :
    Keeps R (orElse f g) := by
  intro s
  have hs := hf s
  rcases h : f s with ⟨o, s'⟩
  rw [h] at hs
  cases o with
  | error e => rw [orElse_of_error h]; exact trans_of R hs (hg s')
  | ok a => rw [Routine.orElse, h]; exact hs
  | running => rw [Routine.orElse, h]; exact hs

end Keeps

/-- What holds before holds behind. -/
def Preserves (I : S → Prop) (s s' : S) : Prop := I s → I s'

instance (I : S → Prop) : Std.Refl (Preserves I) := ⟨fun _ => id⟩

instance (I : S → Prop) : IsTrans S (Preserves I) := ⟨fun _ _ _ h h' hs => h' (h hs)⟩

/-! ## Errors that do not occur -/

/-- The routine never fails with the error `e`. -/
def Avoids (e : ε) (f : Routine ε S α) : Prop := ∀ s, (f s).1 ≠ .error e

section Avoids

variable {e : ε}

theorem Avoids.pure (a : α) : Avoids e (pure a : Routine ε S α) := fun _ => nofun

theorem Avoids.get (f : S → α) : Avoids e (get f : Routine ε S α) := fun _ => nofun

theorem Avoids.modify (f : S → S) : Avoids e (modify f : Routine ε S Unit) := fun _ => nofun

theorem Avoids.throw {e' : ε} (h : e' ≠ e) : Avoids e (throw e' : Routine ε S α) := by
  intro s hs
  cases hs
  exact h rfl

theorem Avoids.assert {c : Bool} {e' : ε} (h : e' ≠ e) :
    Avoids e (assert c e' : Routine ε S Unit) := by
  cases c
  · exact Avoids.throw h
  · exact Avoids.pure ()

theorem Avoids.bind {f : Routine ε S α} {g : α → Routine ε S β} (hf : Avoids e f)
    (hg : ∀ a, Avoids e (g a)) : Avoids e (f >>= g) := by
  intro s
  have hs := hf s
  rcases h : f s with ⟨o, s'⟩
  rw [h] at hs
  cases o with
  | ok a => rw [bind_of_ok h]; exact hg a s'
  | error e' => rw [bind_of_error h]; exact fun h' => hs (by cases h'; rfl)
  | running => rw [bind_of_running h]; exact nofun

/-- An error that the second routine avoids is one of the first. -/
theorem Avoids.eq_of_bind {f : Routine ε S α} {g : α → Routine ε S β} (hg : ∀ a, Avoids e (g a))
    {s : S} (h : ((f >>= g) s).1 = .error e) : f s = (.error e, ((f >>= g) s).2) := by
  rcases hf : f s with ⟨o, s'⟩
  cases o with
  | ok a =>
    rw [bind_of_ok hf] at h
    exact absurd h (hg a s')
  | error e' =>
    rw [bind_of_error hf] at h ⊢
    cases h
    rfl
  | running =>
    rw [bind_of_running hf] at h
    exact nomatch h

theorem Avoids.when {c : Bool} {f : Routine ε S Unit} (hf : Avoids e f) : Avoids e (when c f) := by
  cases c
  · exact Avoids.pure ()
  · exact hf

end Avoids

/-! ## Attempts that fail -/

/-- `n` runs of the routine one behind the other, each of which fails, lead from a state to
    another one. -/
inductive FailsTimes (f : Routine ε S α) : (n : ℕ) → S → S → Prop
  | zero (s : S) : FailsTimes f 0 s s
  | succ {n : ℕ} {e : ε} {s s₁ s' : S} (h : f s = (.error e, s₁)) (h' : FailsTimes f n s₁ s') :
    FailsTimes f (n + 1) s s'

/-! ## Conditions on the outcome -/

/-- From a state with `P`, the outcome and the state behind the routine meet `Q`. -/
def Triple (P : S → Prop) (f : Routine ε S α) (Q : Outcome ε α → S → Prop) : Prop :=
  ∀ s, P s → Q (f s).1 (f s).2

section Triple

variable {P : S → Prop} {Q : Outcome ε β → S → Prop}

theorem Triple.mono {f : Routine ε S β} {Q' : Outcome ε β → S → Prop} (hf : Triple P f Q)
    (h : ∀ r s, Q r s → Q' r s) : Triple P f Q' := fun s hs => h _ _ (hf s hs)

theorem Triple.and {f : Routine ε S β} {P' : S → Prop} {Q' : Outcome ε β → S → Prop}
    (hf : Triple P f Q) (hf' : Triple P' f Q') :
    Triple (fun s => P s ∧ P' s) f fun r s => Q r s ∧ Q' r s :=
  fun s hs => ⟨hf s hs.1, hf' s hs.2⟩

theorem Keeps.triple {I : S → Prop} {f : Routine ε S α} (hf : Keeps (Preserves I) f) :
    Triple I f fun _ => I := hf

theorem Avoids.triple {e : ε} {f : Routine ε S β} (he : Avoids e f) (hf : Triple P f Q) :
    Triple P f fun r s => Q r s ∧ r ≠ .error e := fun s hs => ⟨hf s hs, he s⟩

/-- A sequence of routines: an error of the first one, or its running, is one of the
    whole. -/
theorem Triple.bind {f : Routine ε S α} {g : α → Routine ε S β} {M : Outcome ε α → S → Prop}
    (hf : Triple P f M) (hg : ∀ a, Triple (M (.ok a)) (g a) Q)
    (herror : ∀ e s, M (.error e) s → Q (.error e) s)
    (hrunning : ∀ s, M .running s → Q .running s) : Triple P (f >>= g) Q := by
  intro s hs
  have hm := hf s hs
  rcases h : f s with ⟨o, s'⟩
  rw [h] at hm
  cases o with
  | ok a => rw [bind_of_ok h]; exact hg a s' hm
  | error e => rw [bind_of_error h]; exact herror e s' hm
  | running => rw [bind_of_running h]; exact hrunning s' hm

/-- A sequence of routines, the first of which gives a value. -/
theorem Triple.bind_ok {f : Routine ε S α} {g : α → Routine ε S β} {M : α → S → Prop}
    (hf : Triple P f fun r s => ∃ a, r = .ok a ∧ M a s) (hg : ∀ a, Triple (M a) (g a) Q) :
    Triple P (f >>= g) Q := by
  refine hf.bind ?_ ?_ ?_
  · rintro a s ⟨_, ⟨⟩, hs⟩
    exact hg a s hs
  · rintro e s ⟨_, h, -⟩
    exact nomatch h
  · rintro s ⟨_, h, -⟩
    exact nomatch h

/-- A sequence of routines, as far as it has a value. -/
theorem Triple.bind_value {f : Routine ε S α} {g : α → Routine ε S β} {M : α → S → Prop}
    {Q : β → S → Prop} (hf : Triple P f fun r s => ∀ a, r = .ok a → M a s)
    (hg : ∀ a, Triple (M a) (g a) fun r s => ∀ b, r = .ok b → Q b s) :
    Triple P (f >>= g) fun r s => ∀ b, r = .ok b → Q b s :=
  hf.bind (fun a s hs => hg a s (hs a rfl)) (fun _ _ _ => nofun) fun _ _ => nofun

theorem Triple.assert (c : Bool) (e : ε) : Triple P (assert c e : Routine ε S Unit) fun r s =>
    ∀ a, r = .ok a → c = true ∧ P s := by
  cases c
  · exact fun s _ => nofun
  · exact fun s hs _ _ => ⟨rfl, hs⟩

/-- What is known of the state before does not depend on it in part. -/
theorem Triple.of_and {p : Prop} {f : Routine ε S β} (hf : p → Triple P f Q) :
    Triple (fun s => p ∧ P s) f Q := fun s hs => hf hs.1 s hs.2

theorem Triple.of_exists {γ : Sort*} {P : γ → S → Prop} {f : Routine ε S β}
    (hf : ∀ c, Triple (P c) f Q) : Triple (fun s => ∃ c, P c s) f Q :=
  fun s ⟨c, hs⟩ => hf c s hs

/-- A second attempt, for which an error of the first one leaves what it needs. -/
theorem Triple.orElse {f g : Routine ε S β} (hf : Triple P f Q) (hg : Triple P g Q)
    (herror : ∀ e s, Q (.error e) s → P s) : Triple P (orElse f g) Q := by
  intro s hs
  have hq := hf s hs
  rcases h : f s with ⟨o, s'⟩
  rw [h] at hq
  cases o with
  | error e => rw [orElse_of_error h]; exact hg s' (herror e s' hq)
  | ok a => rw [Routine.orElse, h]; exact hq
  | running => rw [Routine.orElse, h]; exact hq

theorem Triple.retry {f : Routine ε S β} (hf : Triple P f Q) (herror : ∀ e s, Q (.error e) s → P s)
    (n : ℕ) : Triple P (retry f n) Q := by
  induction n with
  | zero => exact hf
  | succ n ih => exact hf.orElse ih herror

/-- What holds behind the routine, with a value or an error, holds with both. -/
theorem Triple.attempt {ε β : Type u} {f : Routine ε S β} {Q : Outcome ε β → S → Prop}
    {Q' : S → Prop} (hf : Triple P f Q) (hok : ∀ a s, Q (.ok a) s → Q' s)
    (herror : ∀ e s, Q (.error e) s → Q' s) :
    Triple P (attempt f) fun r s => ∀ x, r = .ok x → Q' s := by
  intro s hs x hx
  have hq := hf s hs
  rw [Routine.attempt] at hx ⊢
  rcases h : f s with ⟨o, s'⟩
  rw [h] at hq hx
  cases o with
  | ok a => exact hok a s' hq
  | error e => exact herror e s' hq
  | running => exact nomatch hx

end Triple

end Routine

end KessokuOS
