import Mathlib.Algebra.BigOperators.Group.Finset.Basic
import Mathlib.Algebra.Order.BigOperators.Group.Finset
import Mathlib.Order.Bounds.Basic
import KessokuOS.Drivers.Pit

/-!
# Sleeping

`sleep` reads the counter of the ticks, and then checks it, halting in between, until it
has moved on by the ticks asked for. The counter wraps, and is read again only after some
ticks; how many of them have really passed is not seen by the routine.

* `getTicks_iterate`: the counter behind some ticks;
* `sleepFrom_eq_some_iff`: the loop, from any of its checks on;
* `sleep_eq_some_iff`: as long as fewer than `2 ^ 32` ticks less those asked for pass from
  one reading to the next, `sleep` returns at the first check behind the ticks asked for,
  wherever the counter starts.
-/

namespace KessokuOS

namespace Pit

/-- The loop of `sleep` from its check `i` on; `passing i` ticks pass before this check.
    Returns the number of the check at which it ends. -/
def sleepFrom (start ticks : ℕ) (passing : ℕ → ℕ) : (fuel i : ℕ) → Pit → Option ℕ
  | 0, _, _ => none
  | fuel + 1, i, t =>
    let t := tick^[passing i] t
    if u32Sub t.getTicks start < ticks then sleepFrom start ticks passing fuel (i + 1) t
    else some i

/-- `sleep`. -/
def sleep (fuel ticks : ℕ) (passing : ℕ → ℕ) (t : Pit) : Option ℕ :=
  sleepFrom t.getTicks ticks passing fuel 0 t

/-- The ticks that have passed since the call, at the check `i`. -/
def elapsed (passing : ℕ → ℕ) (i : ℕ) : ℕ := ∑ k ∈ Finset.range (i + 1), passing k

theorem elapsed_succ (passing : ℕ → ℕ) (i : ℕ) :
    elapsed passing (i + 1) = elapsed passing i + passing (i + 1) :=
  Finset.sum_range_succ ..

theorem getTicks_iterate (t : Pit) (n : ℕ) : (tick^[n] t).getTicks = u32 (t.getTicks + n) := by
  induction n with
  | zero => exact (u32_of_lt t.ticks_lt).symm
  | succ n ih =>
    have htick : (tick^[n + 1] t).getTicks = u32 ((tick^[n] t).getTicks + 1) := by
      rw [Function.iterate_succ_apply']
      rfl
    rw [htick, ih]
    exact Nat.mod_add_mod ..

/-- The difference of two readings is what has passed between them, if it has 32 bits. -/
theorem u32Sub_add {n : ℕ} (hn : n < 2 ^ 32) (t : Pit) :
    u32Sub (u32 (t.getTicks + n)) t.getTicks = n := by
  have ht : t.getTicks < 2 ^ 32 := t.ticks_lt
  rw [u32, u32Sub]
  omega

variable {ticks : ℕ} {passing : ℕ → ℕ} {t : Pit}

/-- The loop, with `n` ticks passed before its check `i`: it returns at the first check
    from there on at which the ticks asked for have passed. -/
theorem sleepFrom_eq_some_iff (hp : ∀ k, passing k < 2 ^ 32 - ticks) {fuel i n k : ℕ} {t' : Pit}
    (ht' : t'.getTicks = u32 (t.getTicks + n)) (hn : n ≤ ticks)
    (hi : n + passing i = elapsed passing i) :
    sleepFrom t.getTicks ticks passing fuel i t' = some k ↔
      i ≤ k ∧ k < i + fuel ∧ ticks ≤ elapsed passing k ∧
        ∀ j, i ≤ j → j < k → elapsed passing j < ticks := by
  induction fuel generalizing i n t' with
  | zero =>
    refine iff_of_false (Option.some_ne_none k).symm ?_
    rintro ⟨hle, hlt, -⟩
    omega
  | succ fuel ih =>
    -- Fewer ticks have passed than were asked for, and not too many are passing now.
    have hpassing := hp i
    have hlt : elapsed passing i < 2 ^ 32 := by omega
    have hticks : (tick^[passing i] t').getTicks = u32 (t.getTicks + elapsed passing i) := by
      rw [getTicks_iterate, ht', ← hi, ← Nat.add_assoc]
      exact Nat.mod_add_mod ..
    rw [sleepFrom, hticks, u32Sub_add hlt]
    by_cases hdone : elapsed passing i < ticks
    · rw [if_pos hdone, ih hticks hdone.le (elapsed_succ passing i).symm]
      constructor
      · rintro ⟨hle, hk, hge, hfirst⟩
        refine ⟨by omega, by omega, hge, fun j hj hjk => ?_⟩
        rcases hj.eq_or_lt with rfl | hj
        · exact hdone
        · exact hfirst j hj hjk
      · rintro ⟨hle, hk, hge, hfirst⟩
        have hne : i ≠ k := fun h => absurd hge (h ▸ not_le.2 hdone)
        exact ⟨by omega, by omega, hge, fun j hj hjk => hfirst j (by omega) hjk⟩
    · rw [if_neg hdone, Option.some_inj]
      constructor
      · rintro rfl
        exact ⟨le_rfl, by omega, not_lt.1 hdone, fun j hj hjk => absurd hjk (not_lt.2 hj)⟩
      · rintro ⟨hle, -, -, hfirst⟩
        by_contra hne
        exact hdone (hfirst i le_rfl (by omega))

/-- `sleep` returns at the first check at which the ticks asked for have passed. -/
theorem sleep_eq_some_iff_first (hp : ∀ k, passing k < 2 ^ 32 - ticks) {fuel i : ℕ} :
    sleep fuel ticks passing t = some i ↔
      i < fuel ∧ ticks ≤ elapsed passing i ∧ ∀ j < i, elapsed passing j < ticks := by
  have hstart : t.getTicks = u32 (t.getTicks + 0) := (u32_of_lt t.ticks_lt).symm
  have hzero : 0 + passing 0 = elapsed passing 0 :=
    (Nat.zero_add _).trans (Finset.sum_range_one passing).symm
  rw [sleep, sleepFrom_eq_some_iff hp hstart (Nat.zero_le _) hzero, Nat.zero_add]
  exact (and_iff_right (Nat.zero_le i)).trans <| and_congr_right fun _ => and_congr_right fun _ =>
    forall_congr' fun j => imp_iff_right (Nat.zero_le j)

/-- With few enough ticks from one reading to the next, `sleep` returns at the first check
    at which the ticks asked for have passed, if there is one, whatever the counter starts
    from. -/
theorem sleep_eq_some_iff (t : Pit) (hp : ∀ k, passing k < 2 ^ 32 - ticks) (fuel i : ℕ) :
    sleep fuel ticks passing t = some i ↔
      i < fuel ∧ IsLeast {k | ticks ≤ elapsed passing k} i := by
  rw [sleep_eq_some_iff_first hp]
  refine and_congr_right fun _ => and_congr_right fun _ => ?_
  constructor
  · intro hfirst j hj
    by_contra hji
    exact absurd hj (not_le.2 (hfirst j (not_le.1 hji)))
  · intro hleast j hji
    by_contra hj
    exact absurd (hleast (not_lt.1 hj)) (not_le.2 hji)

/-- The counter wraps at the second check of a sleep of three ticks. -/
theorem sleep_eq_some_iff_sample :
    sleep 5 3 (fun _ => 2) ⟨2 ^ 32 - 3, by decide⟩ = some 1 := by
  refine (sleep_eq_some_iff _ (fun _ => by decide) 5 1).2 ⟨by decide, by decide, fun k hk => ?_⟩
  cases k with
  | zero => exact absurd hk (by decide)
  | succ k => exact Nat.succ_pos k

end Pit

end KessokuOS
