import KessokuOS.Drivers.Floppy.SelectDrive
import KessokuOS.Drivers.Pit.Sleep

/-!
# Sleeping between interrupts

The driver sleeps with the `sleep` of the timer. The ticks that pass from one of its
checks to the next are those among what happens between its steps (`passing`).

* `sleep_eq`: the sleep of the driver is that of the timer, with these ticks;
* `sleep_eq_ok_iff`: with few enough of them from one check to the next, it ends
  exactly if the ticks asked for have passed at one of its checks;
* `selectDrive_eq_ok_iff`: hence the drive that is selected can be selected again exactly
  if the disk is given the time to spin up.
-/

namespace KessokuOS.Floppy

open Routine

/-- The ticks among what happens. -/
def ticksOf (l : List Happening) : ℕ := l.count (.interrupt .timer)

/-- What happens up to the end of a halt. -/
def Turn.upToWake (t : Turn) : List Happening := t.before ++ [.interrupt t.wake]

/-- The ticks that pass before the check `i` of a sleep, after those before its start: in
    front of each check but the first one lies a halt. -/
def passing (turns : ℕ → Turn) : ℕ → ℕ
  | 0 => ticksOf (turns 1).before
  | i + 1 => ticksOf (turns (2 * i + 3)).before + ticksOf (turns (2 * i + 2)).upToWake

/-- What the loop of `sleep` comes to, by the check at which it ends. -/
def outcome : Option ℕ → Outcome Error Unit
  | some _ => .ok ()
  | none => .running

variable {δ : Type*} [Device δ]

theorem pit_foldl (l : List Happening) (s : State δ) :
    (l.foldl State.happen s).pit = Pit.tick^[ticksOf l] s.pit := by
  induction l generalizing s with
  | nil => rfl
  | cons a l ih =>
    have hcons : Pit.tick^[ticksOf (a :: l)] s.pit = Pit.tick^[ticksOf l] (s.happen a).pit := by
      rcases a with (_ | _ | _) | _
      · rw [ticksOf, List.count_cons_self, Function.iterate_succ_apply]
        rfl
      all_goals
        rw [ticksOf, List.count_cons_of_ne (by decide)]
        rfl
    rw [List.foldl_cons, ih, hcons]

theorem pit_turn (s : State δ) : s.turn.pit = Pit.tick^[ticksOf (s.turns 0).before] s.pit :=
  pit_foldl _ s

/-- The state behind a look at the counter. -/
def State.looked (s : State δ) : State δ := s.turn.record (.getTicks s.turn.pit.getTicks)

/-- The state behind a halt. -/
def State.halted (s : State δ) : State δ := (s.turn.record .halt).interrupt (s.turns 0).wake

theorem pit_halted (s : State δ) :
    s.halted.pit = Pit.tick^[ticksOf (s.turns 0).upToWake] s.pit := by
  rw [← pit_foldl, Turn.upToWake, List.foldl_concat, State.halted]
  cases (s.turns 0).wake <;> rfl

theorem turns_halted (s : State δ) : s.halted.turns = fun n => s.turns (n + 1) := by
  rw [State.halted]
  cases (s.turns 0).wake <;> rfl

theorem sleepFrom_succ (start ticks fuel : ℕ) (s : State δ) :
    sleepFrom start ticks (fuel + 1) s =
      if u32Sub s.turn.pit.getTicks start < ticks then sleepFrom start ticks fuel s.looked.halted
      else (.ok (), s.looked) := by
  have hget : getTicks s = (.ok s.turn.pit.getTicks, s.looked) := rfl
  have hhalt : halt s.looked = (.ok (), s.looked.halted) := rfl
  rw [sleepFrom, bind_of_ok hget]
  split_ifs
  · rw [bind_of_ok hhalt]
  · rfl

/-- The loop, from its check `i` on: the timer of the driver only lacks the ticks of the
    next step. -/
theorem sleepFrom_eq {turns : ℕ → Turn} {start ticks : ℕ} (fuel : ℕ) {i : ℕ} {s : State δ}
    {t : Pit} (hturns : ∀ n, s.turns n = turns (2 * i + 1 + n))
    (hpit : s.turn.pit = Pit.tick^[passing turns i] t) :
    (sleepFrom start ticks fuel s).1 =
      outcome (Pit.sleepFrom start ticks (passing turns) fuel i t) := by
  induction fuel generalizing i s t with
  | zero => rfl
  | succ fuel ih =>
    have hsucc : Pit.sleepFrom start ticks (passing turns) (fuel + 1) i t =
        if u32Sub (Pit.tick^[passing turns i] t).getTicks start < ticks then
          Pit.sleepFrom start ticks (passing turns) fuel (i + 1) (Pit.tick^[passing turns i] t)
        else some i := rfl
    rw [sleepFrom_succ, hsucc, hpit]
    split_ifs
    · have hturns' : ∀ n, s.looked.halted.turns n = turns (2 * (i + 1) + 1 + n) := by
        intro n
        have hlooked : s.looked.halted.turns n = s.turns (n + 1 + 1) :=
          congrFun (turns_halted s.looked) n
        rw [hlooked, hturns]
        congr 1
        omega
      refine ih hturns' ?_
      have hwake : s.looked.turns 0 = turns (2 * i + 2) := hturns 1
      have hlooked : s.looked.pit = Pit.tick^[passing turns i] t := hpit
      rw [pit_turn, pit_halted, hturns' 0, hwake, hlooked, passing, Function.iterate_add_apply]
      rfl
    · rfl

/-- The sleep of the driver is that of its timer, with the ticks among what happens. -/
theorem sleep_eq (fuel ticks : ℕ) (s : State δ) :
    (sleep fuel ticks s).1 =
      outcome (Pit.sleep fuel ticks (passing s.turns) s.turn.pit) := by
  have hget : getTicks s = (.ok s.turn.pit.getTicks, s.looked) := rfl
  have hturns : ∀ n, s.looked.turns n = s.turns (2 * 0 + 1 + n) := by
    intro n
    rw [Nat.mul_zero, Nat.zero_add, Nat.add_comm]
    rfl
  rw [sleep, bind_of_ok hget, Pit.sleep]
  exact sleepFrom_eq fuel hturns (pit_turn s.looked)

/-- With few enough ticks from one check to the next, the driver goes on behind the first
    check at which the ticks asked for have passed, and sleeps as long as there is none. -/
theorem sleep_eq_ok_iff (fuel : ℕ) {ticks : ℕ} (s : State δ)
    (hp : ∀ k, passing s.turns k < 2 ^ 32 - ticks) :
    (sleep fuel ticks s).1 = .ok () ↔ ∃ i < fuel, ticks ≤ Pit.elapsed (passing s.turns) i := by
  have hok : ∀ o, outcome o = .ok () ↔ ∃ i, o = some i := by
    intro o
    cases o with
    | none => exact iff_of_false nofun fun ⟨_, h⟩ => nomatch h
    | some i => exact iff_of_true rfl ⟨i, rfl⟩
  rw [sleep_eq, hok]
  simp only [Pit.sleep_eq_some_iff_first hp]
  constructor
  · rintro ⟨i, hi, hge, -⟩
    exact ⟨i, hi, hge⟩
  · rintro ⟨i, hi, hge⟩
    have hex : ∃ k, ticks ≤ Pit.elapsed (passing s.turns) k := ⟨i, hge⟩
    refine ⟨Nat.find hex, (Nat.find_min' hex hge).trans_lt hi, Nat.find_spec hex, fun j hj => ?_⟩
    exact not_le.1 (Nat.find_min hex hj)

/-- The selected drive is given no new timing, and chosen at once. -/
theorem selectDrive_of_selected (fuel : ℕ) (s : State δ) (hd : s.currentDrive < 4)
    (motorOn : Bool) : ∃ t : State δ, chooseDrive s.currentDrive motorOn s = (.ok (), t) ∧
      selectDrive fuel s.currentDrive motorOn s = sleep fuel diskSpinupWaitTime t := by
  obtain ⟨a, hchosen, -⟩ := triple_chooseDrive s.view s.currentDrive motorOn s rfl
  obtain ⟨t, ht⟩ : ∃ t, (chooseDrive s.currentDrive motorOn s).2 = t := ⟨_, rfl⟩
  have hchoose : chooseDrive s.currentDrive motorOn s = (.ok (), t) := Prod.ext hchosen ht
  have hspecify : specifyDrive fuel s.currentDrive s = (.ok (), s) := by
    rw [specifyDrive, bind_get, decide_eq_false (not_not.2 rfl)]
    rfl
  refine ⟨t, hchoose, ?_⟩
  rw [selectDrive_eq, bind_assert_of_true (decide_eq_true hd), bind_of_ok hspecify,
    bind_of_ok hchoose]

/-- Selecting the selected drive, with the motor on or off, succeeds exactly if the disk has
    had its time to spin up at one of the checks, with few enough ticks between these. -/
theorem selectDrive_eq_ok_iff (fuel : ℕ) (s : State δ) (hd : s.currentDrive < 4) (motorOn : Bool)
    (hp : ∀ k, passing (chooseDrive s.currentDrive motorOn s).2.turns k <
      2 ^ 32 - diskSpinupWaitTime) :
    (selectDrive fuel s.currentDrive motorOn s).1 = .ok () ↔
      ∃ i < fuel, diskSpinupWaitTime ≤
        Pit.elapsed (passing (chooseDrive s.currentDrive motorOn s).2.turns) i := by
  obtain ⟨t, hchoose, hselect⟩ := selectDrive_of_selected fuel s hd motorOn
  rw [hchoose] at hp ⊢
  rw [hselect]
  exact sleep_eq_ok_iff fuel t hp

end KessokuOS.Floppy
