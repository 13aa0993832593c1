import Mathlib.Data.Nat.Basic

/-!
# Loops with fuel

A round of a loop, from the state `s`, goes on with a new state or leaves the
loop with a result; a round which does not end itself gives `none`. `loop`
performs at most a given number of rounds.

A loop with an invariant and a variant, a number decreasing in every round that
goes on, ends once the fuel exceeds the variant, and its result satisfies what
the leaving rounds establish (`loop_total`). Without a variant, this is so of a
loop that ends (`loop_post`), as of every routine composed of such ones
(`Maintains`).
-/

namespace KessokuOS

variable {σ ρ : Type*}

/-- The result of the loop of `body` from a state, in at most `fuel` rounds. -/
def loop (body : σ → Option (σ ⊕ ρ)) : ℕ → σ → Option ρ
  | 0, _ => none
  | fuel + 1, s =>
    match body s with
    | none => none
    | some (.inl s') => loop body fuel s'
    | some (.inr r) => some r

variable {body : σ → Option (σ ⊕ ρ)}

theorem loop_of_exit {fuel : ℕ} {s : σ} {r : ρ} (h : body s = some (.inr r)) :
    loop body (fuel + 1) s = some r := by
  rw [loop, h]

theorem loop_of_again {fuel : ℕ} {s s' : σ} (h : body s = some (.inl s')) :
    loop body (fuel + 1) s = loop body fuel s' := by
  rw [loop, h]

/-- A loop whose rounds keep `Inv` and decrease `variant`, or establish `Post`
    when leaving, ends and establishes `Post`. -/
theorem loop_total (Inv : σ → Prop) (Post : ρ → Prop) (variant : σ → ℕ)
    (hbody : ∀ s, Inv s → (∃ s', body s = some (.inl s') ∧ Inv s' ∧ variant s' < variant s) ∨
      ∃ r, body s = some (.inr r) ∧ Post r)
    {fuel : ℕ} {s : σ} (hs : Inv s) (hf : variant s < fuel) :
    ∃ r, loop body fuel s = some r ∧ Post r := by
  induction fuel generalizing s with
  | zero => exact absurd hf (Nat.not_lt_zero _)
  | succ fuel ih =>
    rcases hbody s hs with ⟨s', hb, hs', hv⟩ | ⟨r, hb, hr⟩
    · rw [loop_of_again hb]
      exact ih hs' (by omega)
    · exact ⟨r, loop_of_exit hb, hr⟩

/-- A loop whose rounds keep `Inv`, or establish `Post` when leaving, establishes
    `Post` if it ends. -/
theorem loop_post (Inv : σ → Prop) (Post : ρ → Prop)
    (hagain : ∀ s s', Inv s → body s = some (.inl s') → Inv s')
    (hexit : ∀ s r, Inv s → body s = some (.inr r) → Post r)
    {fuel : ℕ} {s : σ} {r : ρ} (hs : Inv s) (h : loop body fuel s = some r) : Post r := by
  induction fuel generalizing s with
  | zero => exact absurd h (Option.some_ne_none r).symm
  | succ fuel ih =>
    rw [loop] at h
    cases hb : body s with
    | none => rw [hb] at h; exact absurd h (Option.some_ne_none r).symm
    | some o =>
      rw [hb] at h
      cases o with
      | inl s' => exact ih (hagain s s' hs hb) h
      | inr r' => exact hexit s r hs (hb.trans (congrArg (some ∘ Sum.inr) (Option.some.inj h)))

/-! ## Routines that may not end -/

/-- If `I` holds before the routine and it ends, then `J` holds behind it. -/
def Maintains (I : σ → Prop) (J : ρ → Prop) (f : σ → Option ρ) : Prop :=
  ∀ ⦃s r⦄, f s = some r → I s → J r

/-- A round keeps the invariant whether it goes on or leaves the loop. -/
theorem Maintains.loop {I : σ → Prop} {J : ρ → Prop} (h : Maintains I (Sum.elim I J) body)
    (fuel : ℕ) : Maintains I J (loop body fuel) :=
  fun _ _ hr hs => loop_post I J (fun _ _ hs hb => h hb hs) (fun _ _ hs hb => h hb hs) hs hr

end KessokuOS
