import Mathlib.Data.List.Range
import KessokuOS.Drivers.Floppy.Answers
import KessokuOS.Drivers.Floppy.Controller

/-!
# Commands and their parameters

`executeCommand` sends a command up to three times. An attempt may be given up among
the parameters, if the controller is not ready for the next one after three reads of
its status; but the next attempt only looks at whether the controller is ready for a
byte, not whether it is one of a command.
-/

namespace KessokuOS.Floppy

open Routine

namespace Controller

variable {d : Controller}

/-- The controller does not expect a parameter. -/
def NotParameter (d : Controller) : Prop := ∀ c left, d.phase ≠ .parameter c left

theorem finish_of_ne (h : ∀ c, d.phase ≠ .execution c) : d.finish = d := by
  rw [finish]
  split
  · next c hc => exact absurd hc (h c)
  · rfl

theorem notParameter_enter {p : Phase} (h : ∀ c left, p ≠ .parameter c left) :
    (enter p d).NotParameter := h

theorem NotParameter.finish (h : d.NotParameter) : d.finish.NotParameter := by
  rw [Controller.finish]
  split
  · refine notParameter_enter fun c left => ?_
    split_ifs <;> nofun
  · exact h

theorem NotParameter.readByte (h : d.NotParameter) (port : BitVec 16) :
    (Device.readByte d port).2.NotParameter := by
  change (if _ then d.readStatus else if _ then d.readData else (0, d)).2.NotParameter
  by_cases h₁ : port = mainStatusRegister
  · rw [if_pos h₁]
    exact h
  rw [if_neg h₁]
  by_cases h₂ : port = dataFifo
  · rw [if_pos h₂, readData]
    split
    · by_cases hd : d.delay = 0
      · rw [if_pos hd]
        refine notParameter_enter fun c left => ?_
        split_ifs <;> nofun
      · rw [if_neg hd]
        exact h
    · exact h
  · rw [if_neg h₂]
    exact h

/-- The controller is ready for a byte, be it a command or a parameter. -/
def Ready (d : Controller) : Prop :=
  d.delay = 0 ∧ (d.phase = .command ∨ ∃ c left, d.phase = .parameter c left)

/-- The status tells whether the controller is ready, but not what for. -/
theorem status_and_eq (d : Controller) : d.status &&& 0xc0 = 0x80 ↔ d.Ready := by
  rw [status, Ready]
  cases hp : d.phase <;> by_cases hd : d.delay = 0 <;> simp [hd, Phase.status]

theorem Ready.ne_execution (h : d.Ready) (c : Command) : d.phase ≠ .execution c := by
  intro hc
  rcases h.2 with hp | ⟨_, _, hp⟩
  · exact nomatch hp.symm.trans hc
  · exact nomatch hp.symm.trans hc

end Controller

variable {s : State Controller}

/-! ## The controller between the steps -/

theorem device_turn_of_ne (h : ∀ c, s.device.phase ≠ .execution c) : s.turn.device = s.device := by
  refine State.turn_induction (I := fun s' => s'.device = s.device) rfl ?_ ?_ fun _ _ => id
  · intro s' i hs'
    cases i <;> exact hs'
  · intro s' hs'
    rw [← hs'] at h ⊢
    exact Controller.finish_of_ne h

/-- While the controller expects a parameter, it does not go on by itself. -/
theorem device_turn_of_parameter {c : Command} {left : ℕ} (h : s.device.phase = .parameter c left) :
    s.turn.device = s.device :=
  device_turn_of_ne fun _ hc => nomatch h.symm.trans hc

/-- What the controller does not expect is a parameter. -/
def Past (s : State Controller) : Prop := s.device.NotParameter

theorem Past.turn (h : Past s) : Past s.turn := by
  refine State.turn_induction h ?_ (fun s' hs' => hs'.finish) fun _ _ => id
  intro s' i hs'
  cases i <;> exact hs'

theorem keeps_past_portReadByte (port : BitVec 16) :
    Keeps (Preserves Past) (portReadByte port : Driver Controller Byte) :=
  fun _ h => Controller.NotParameter.readByte h.turn port

theorem keeps_past_setWaiting : Keeps (Preserves Past) (setWaiting : Driver Controller Unit) :=
  fun _ h => h.turn

theorem keeps_past_waitForIrq (fuel : ℕ) :
    Keeps (Preserves Past) (waitForIrq fuel : Driver Controller Unit) := by
  have hticks : Keeps (Preserves Past) (getTicks : Driver Controller ℕ) := fun _ h => h.turn
  have htest : Keeps (Preserves Past) (testWaiting : Driver Controller Bool) := fun _ h => h.turn
  have hhalt : Keeps (Preserves Past) (halt : Driver Controller Unit) := by
    intro s h
    rw [halt]
    cases (s.turns 0).wake <;> exact h.turn
  exact keeps_waitForIrq hticks htest hhalt (fun _ _ h => h) fuel

theorem keeps_past_receiveResults (c : Command) :
    Keeps (Preserves Past) (receiveResults c : Driver Controller Unit) :=
  keeps_receiveResults keeps_past_portReadByte (fun _ _ h => h) c

/-! ## Parameters -/

theorem portReadByte_status (s : State Controller) : ∃ s', portReadByte mainStatusRegister s =
    (.ok s.turn.device.status, s') ∧
      s'.device = { s.turn.device with delay := s.turn.device.delay - 1 } :=
  ⟨_, rfl, rfl⟩

/-- While the controller expects a parameter, `n` reads of its status find it ready, or
    are given up. -/
theorem readMsrUntilRqmFrom_parameter {c : Command} {left : ℕ}
    (h : s.device.phase = .parameter c left) (n : ℕ) :
    (s.device.delay < n ∧ ∃ s', readMsrUntilRqmFrom n s = (.ok 0x90, s') ∧
      s'.device = { s.device with delay := 0 }) ∨
    (n ≤ s.device.delay ∧ ∃ s', readMsrUntilRqmFrom n s = (.error .retryLimitReached, s') ∧
      s'.device = { s.device with delay := s.device.delay - n }) := by
  induction n generalizing s with
  | zero => exact .inr ⟨Nat.zero_le _, s, rfl, rfl⟩
  | succ n ih =>
    have hturn : s.turn.device = s.device := device_turn_of_parameter h
    obtain ⟨s₁, h₁, hd₁⟩ := portReadByte_status s
    rw [hturn] at h₁ hd₁
    have hs : s.device.status = if s.device.delay = 0 then 0x90 else 0x10 := by
      rw [Controller.status, h]
      split_ifs
      · rfl
      · show (0x90 : Byte) &&& 0x7F = 0x10
        decide
    -- Each read of the status takes one off the delay.
    rw [readMsrUntilRqmFrom, bind_of_ok h₁, hs]
    by_cases hd : s.device.delay = 0
    · rw [if_pos hd, if_pos (by decide)]
      refine .inl ⟨by omega, s₁, rfl, ?_⟩
      rw [hd₁, hd]
    · rw [if_neg hd, if_neg (by decide)]
      rcases ih (s := s₁) (by rw [hd₁]; exact h) with ⟨hlt, s', hs', hd'⟩ | ⟨hle, s', hs', hd'⟩
      · rw [hd₁] at hlt hd'
        exact .inl ⟨by simp only at hlt; omega, s', hs', hd'⟩
      · rw [hd₁] at hle hd'
        refine .inr ⟨by simp only at hle; omega, s', hs', ?_⟩
        rw [hd', Nat.sub_sub, Nat.add_comm]

/-- The delay of the first of the bytes that is not over after the reads of the status
    for it. -/
def longDelay (delays : List ℕ) : Option ℕ := delays.find? (msrReadAttemptCount ≤ ·)

theorem longDelay_cons_of_le {k : ℕ} (h : msrReadAttemptCount ≤ k) (delays : List ℕ) :
    longDelay (k :: delays) = some k :=
  List.find?_cons_of_pos (decide_eq_true h)

theorem longDelay_cons_of_lt {k : ℕ} (h : k < msrReadAttemptCount) (delays : List ℕ) :
    longDelay (k :: delays) = longDelay delays :=
  List.find?_cons_of_neg (by simpa using h)

theorem le_of_longDelay {delays : List ℕ} {k : ℕ} (h : longDelay delays = some k) :
    msrReadAttemptCount ≤ k := by
  have hk := List.find?_some (h : delays.find? (msrReadAttemptCount ≤ ·) = some k)
  exact of_decide_eq_true hk

theorem portWriteByte_data (role : Role) (v : Byte) (s : State Controller) :
    ∃ s', portWriteByte role dataFifo v s = (.ok (), s') ∧
      s'.device = s.turn.device.writeData v :=
  ⟨_, rfl, rfl⟩

/-- A parameter is taken if the delay is over in time. -/
theorem sendParametersFrom_of_lt {c : Command} {left : ℕ}
    (h : s.device.phase = .parameter c (left + 1)) (hd : s.device.delay < msrReadAttemptCount)
    (i n : ℕ) : ∃ s', sendParametersFrom i (n + 1) s = sendParametersFrom (i + 1) n s' ∧
      s'.device = { s.device with delay := 0 }.parameters c left := by
  obtain ⟨-, s₁, hr, hd₁⟩ := (readMsrUntilRqmFrom_parameter h msrReadAttemptCount).resolve_right
    fun hle => absurd hd (not_lt.2 hle.1)
  have h₁ : s₁.device.phase = .parameter c (left + 1) := by
    rw [hd₁]
    exact h
  obtain ⟨s', hw, hd'⟩ := portWriteByte_data .parameter (s₁.parameterBytes i) s₁
  refine ⟨s', ?_, ?_⟩
  · rw [sendParametersFrom, bind_of_ok (show readMsrUntilRqm s = _ from hr),
      bind_assert_of_true (by decide), bind_get, bind_of_ok hw]
  · rw [hd', device_turn_of_parameter h₁, Controller.writeData, hd₁, if_pos rfl]
    simp only [h]
    rfl

/-- The sending of parameters with these delays is given up, and the rest of the first
    long delay is left. -/
def GivenUp (c : Command) (delays : List ℕ) (r : Outcome Error Unit × State Controller) : Prop :=
  ∃ k, longDelay delays = some k ∧ ∃ e s', r = (.error e, s') ∧
    (∃ left, s'.device.phase = .parameter c left) ∧ s'.device.delay = k - msrReadAttemptCount

/-- A parameter whose delay is longer is not sent. -/
theorem sendParametersFrom_of_le {c : Command} {left : ℕ}
    (h : s.device.phase = .parameter c left) (hd : msrReadAttemptCount ≤ s.device.delay)
    (delays : List ℕ) (i n : ℕ) :
    GivenUp c (s.device.delay :: delays) (sendParametersFrom i (n + 1) s) := by
  obtain ⟨-, s₁, hr, hd₁⟩ := (readMsrUntilRqmFrom_parameter h msrReadAttemptCount).resolve_left
    fun hlt => absurd hlt.1 (not_lt.2 hd)
  refine ⟨_, longDelay_cons_of_le hd _, .retryLimitReached, s₁, ?_, ⟨left, ?_⟩, ?_⟩
  · rw [sendParametersFrom, bind_of_error (show readMsrUntilRqm s = _ from hr)]
  · rw [hd₁]
    exact h
  · rw [hd₁]

theorem map_range_succ (delays : ℕ → ℕ) (n : ℕ) : (List.range (n + 1)).map delays =
    delays 0 :: (List.range n).map fun i => delays (i + 1) := by
  rw [List.range_succ_eq_map, List.map_cons, List.map_map]
  rfl

/-- The parameters are taken one by one, unless one of the delays is too long. -/
theorem sendParametersFrom_spec {c : Command} {n : ℕ} (i : ℕ)
    (h : s.device.phase = .parameter c (n + 1)) :
    (longDelay (s.device.delay :: (List.range n).map s.device.delays) = none ∧
      ∃ s', sendParametersFrom i (n + 1) s = (.ok (), s') ∧ Past s') ∨
    GivenUp c (s.device.delay :: (List.range n).map s.device.delays)
      (sendParametersFrom i (n + 1) s) := by
  -- The delay of the byte that comes next is in `delay`, those of the others in `delays`.
  induction n generalizing s i with
  | zero =>
    by_cases hd : msrReadAttemptCount ≤ s.device.delay
    · exact .inr (sendParametersFrom_of_le h hd _ i 0)
    · obtain ⟨s', hs', hd'⟩ := sendParametersFrom_of_lt h (not_le.1 hd) i 0
      refine .inl ⟨longDelay_cons_of_lt (not_le.1 hd) [], s', hs', fun c' left => ?_⟩
      rw [hd', Controller.parameters, if_pos rfl]
      exact nofun
  | succ n ih =>
    by_cases hd : msrReadAttemptCount ≤ s.device.delay
    · exact .inr (sendParametersFrom_of_le h hd _ i (n + 1))
    · obtain ⟨s', hs', hd'⟩ := sendParametersFrom_of_lt h (not_le.1 hd) i (n + 1)
      rw [Controller.parameters, if_neg (Nat.succ_ne_zero n)] at hd'
      have ih := ih (s := s') (i + 1) (by rw [hd']; rfl)
      rw [hs', GivenUp, longDelay_cons_of_lt (not_le.1 hd), map_range_succ]
      rw [hd'] at ih
      exact ih

/-! ## An attempt -/

/-- A byte that is written as a command meets a controller that expects one. -/
def Event.Framed : Event Controller → Prop
  | .writeByte .command _ _ d => d.phase = .command
  | _ => True

theorem Event.framed_of_not_isCommand (e : Event Controller) (h : ¬e.IsCommand) : e.Framed := by
  rcases e with _ | ⟨role, _, _, _⟩ | _ | _ | _ | _ | _ | _
  case writeByte =>
    cases role
    case command => exact (h trivial).elim
    all_goals trivial
  all_goals trivial

/-- What follows the command byte, from a controller that has taken it. -/
theorem sendParameters_spec (fuel : ℕ) (c : Command) {d : Controller}
    (hs : s.device = d.parameters c c.getParameterCount) :
    (longDelay ((List.range c.getParameterCount).map d.delays) = none ∧
      Past (sendParameters fuel c s).2) ∨
    GivenUp c ((List.range c.getParameterCount).map d.delays) (sendParameters fuel c s) := by
  have hrest : Keeps (Preserves Past) (when (commandHasInterrupt c) (waitForIrq fuel) >>=
      fun _ => receiveResults c : Driver Controller Unit) :=
    (Keeps.when (keeps_past_waitForIrq fuel)).bind fun _ => keeps_past_receiveResults c
  rw [sendParameters]
  cases hn : c.getParameterCount with
  | zero =>
    have hpast : Past s := by
      intro c' left
      rw [hs, hn, Controller.parameters, if_pos rfl]
      rintro ⟨⟩
    refine .inl ⟨rfl, ?_⟩
    exact ((Keeps.when keeps_past_setWaiting).bind fun _ => (Keeps.pure ()).bind fun _ => hrest)
      s hpast
  | succ n =>
    rw [hn, Controller.parameters, if_neg (Nat.succ_ne_zero n)] at hs
    obtain ⟨s₁, hs₁, hd₁⟩ : ∃ s₁,
        (when (commandHasInterrupt c) setWaiting : Driver Controller Unit) s = (.ok (), s₁) ∧
          s₁.device = s.device := by
      cases commandHasInterrupt c with
      | false => exact ⟨s, rfl, rfl⟩
      | true => exact ⟨_, rfl, device_turn_of_ne (by rw [hs]; simp [Controller.enter])⟩
    have hspec := sendParametersFrom_spec (s := s₁) (c := c) (n := n) 0 (by rw [hd₁, hs]; rfl)
    rw [hd₁, hs] at hspec
    rw [map_range_succ, bind_of_ok hs₁]
    rcases hspec with ⟨hlong, s', hs', hpast⟩ | ⟨k, hlong, e, s', hs', hrest⟩
    · rw [bind_of_ok hs']
      exact .inl ⟨hlong, hrest s' hpast⟩
    · rw [bind_of_error hs']
      exact .inr ⟨k, hlong, e, s', rfl, hrest⟩

/-- A byte that is no command's turn: the attempt ends with its first read of the
    status. -/
theorem sendCommand_of_busy (fuel : ℕ) (c : Command) (h : ¬s.turn.device.Ready) :
    ∃ s', sendCommand fuel c s = (.error .driverDeviceNeedsReset, s') ∧
      s'.device = { s.turn.device with delay := s.turn.device.delay - 1 } ∧
      Logs Event.Framed s s' := by
  obtain ⟨s', hs', hd'⟩ := portReadByte_status s
  refine ⟨s', ?_, hd', ?_⟩
  · rw [sendCommand, bind_of_ok hs', bind_assert_of_false]
    rw [decide_eq_false_iff_not, Controller.status_and_eq]
    exact h
  · have hlog : Logs Event.Framed s (portReadByte mainStatusRegister s).2 :=
      logs_step (fun _ => trivial) rfl trivial
    rw [hs'] at hlog
    exact hlog

/-- If the controller looks ready, the byte is written, whatever it expects. -/
theorem sendCommand_of_ready (fuel : ℕ) (c : Command) (h : s.turn.device.Ready) :
    ∃ s₁ s₂, sendCommand fuel c s = sendParameters fuel c s₂ ∧ Logs Event.Framed s s₁ ∧
      s₂.log = s₁.log ++ [.writeByte .command dataFifo c.toByte s.turn.device] ∧
      s₂.device = s.turn.device.writeData c.toByte := by
  obtain ⟨s', hs', hd'⟩ := portReadByte_status s
  -- A ready controller is the same after the read of its status.
  have heq : s'.device = s.turn.device := by
    rw [hd', h.1, Nat.zero_sub, ← h.1]
  have hturn : s'.turn.device = s.turn.device := by
    rw [← heq]
    exact device_turn_of_ne (heq ▸ h.ne_execution)
  have hlog : Logs Event.Framed s (portReadByte mainStatusRegister s).2 :=
    logs_step (fun _ => trivial) rfl trivial
  rw [hs'] at hlog
  refine ⟨s'.turn, (portWriteByte .command dataFifo c.toByte s').2, ?_, ?_, ?_, ?_⟩
  · rw [sendCommand, bind_of_ok hs', bind_assert_of_true]
    · rfl
    · rw [decide_eq_true_iff, Controller.status_and_eq]
      exact h
  · exact trans_of (Logs _) hlog (logs_turn (fun _ => trivial) s')
  · rw [← hturn]
    rfl
  · rw [← hturn]
    rfl

/-- An attempt that finds the controller ready for a command: the command byte is taken
    as one, and if it is given up among the parameters, the rest of a delay is left. -/
theorem sendCommand_of_command (fuel : ℕ) (c : Command) (hd : s.turn.device.delay = 0)
    (hp : s.turn.device.phase = .command) : Logs Event.Framed s (sendCommand fuel c s).2 ∧
    ((longDelay ((List.range c.getParameterCount).map s.turn.device.delays) = none ∧
        Past (sendCommand fuel c s).2) ∨
      GivenUp c ((List.range c.getParameterCount).map s.turn.device.delays)
        (sendCommand fuel c s)) := by
  obtain ⟨s₁, s₂, hs, hlog, hl, hd₂⟩ := sendCommand_of_ready fuel c ⟨hd, .inl hp⟩
  have htaken : s₂.device = s.turn.device.parameters c c.getParameterCount := by
    rw [hd₂, Controller.writeData, if_pos hd, hp]
    simp only [Command.ofByte_toByte]
  have hframed : Event.Framed (.writeByte .command dataFifo c.toByte s.turn.device) := hp
  rw [hs]
  -- The only command byte is the one in front of the parameters.
  refine ⟨?_, sendParameters_spec fuel c htaken⟩
  have hcommand : Logs Event.Framed s₁ s₂ :=
    ⟨_, hl, fun e he => List.mem_singleton.1 he ▸ hframed⟩
  refine trans_of (Logs _) hlog (trans_of (Logs _) hcommand ?_)
  exact keeps_logs_sendParameters Event.framed_of_not_isCommand fuel c s₂

/-! ## All attempts -/

/-- An attempt that finds the controller in the state `d` is given up among the
    parameters, and the rest of the delay is over while there still are attempts: `left`
    more of them. -/
def GivenUpEarly (c : Command) (left : ℕ) (d : Controller) : Prop :=
  d.phase = .command ∧ d.delay = 0 ∧
    ∃ k, longDelay ((List.range c.getParameterCount).map d.delays) = some k ∧
      k < msrReadAttemptCount + left

/-- With `n` more attempts, the next command will not be taken for a parameter. -/
def Safe (n : ℕ) (s : State Controller) : Prop :=
  Past s ∨ (∃ c left, s.device.phase = .parameter c left) ∧ n ≤ s.device.delay

theorem safe_attempt (fuel : ℕ) {n : ℕ} {c : Command} (hs : Safe (n + 1) s)
    (hg : ¬GivenUpEarly c n s.turn.device) :
    Logs Event.Framed s (sendCommand fuel c s).2 ∧ Safe n (sendCommand fuel c s).2 := by
  by_cases hready : s.turn.device.Ready
  · obtain ⟨hd, hp⟩ := hready
    -- A controller that is ready expects a command: among parameters, its delay would
    -- not be over yet.
    have hcommand : s.turn.device.phase = .command := by
      refine hp.resolve_right fun ⟨c', left, hp⟩ => ?_
      rcases hs with hpast | ⟨⟨c'', left', hpar⟩, hle⟩
      · exact hpast.turn c' left hp
      · rw [device_turn_of_parameter hpar] at hd
        omega
    obtain ⟨hlog, ⟨-, hpast⟩ | ⟨k, hk, e, s', hs', ⟨left, hpar⟩, hdelay⟩⟩ :=
      sendCommand_of_command fuel c hd hcommand
    · exact ⟨hlog, .inl hpast⟩
    · refine ⟨hlog, .inr ?_⟩
      rw [hs']
      refine ⟨⟨c, left, hpar⟩, ?_⟩
      -- Otherwise the attempt would be given up early.
      have hlong : ¬k < msrReadAttemptCount + n := fun h => hg ⟨hcommand, hd, k, hk, h⟩
      change n ≤ s'.device.delay
      omega
  · obtain ⟨s', hs', hd', hlog⟩ := sendCommand_of_busy fuel c hready
    rw [hs']
    refine ⟨hlog, ?_⟩
    rcases hs with hpast | ⟨⟨c', left, hpar⟩, hle⟩
    · refine .inl fun c' left => ?_
      rw [hd']
      exact hpast.turn c' left
    · rw [device_turn_of_parameter hpar] at hd'
      refine .inr ⟨⟨c', left, by rw [hd']; exact hpar⟩, ?_⟩
      rw [hd']
      simp only
      omega

/-- If no attempt is given up early, every command byte is taken as one. -/
theorem logs_executeCommandFrom {fuel n : ℕ} {c : Command} (hs : Safe n s)
    (hg : ∀ i t, (attemptsFrom fuel c n s)[i]? = some t →
      ¬GivenUpEarly c (n - 1 - i) t.turn.device) :
    Logs Event.Framed s (executeCommandFrom fuel c n s).2 := by
  induction n generalizing s with
  | zero => exact refl_of (Logs _) s
  | succ n ih =>
    obtain ⟨hlog, hsafe⟩ := safe_attempt fuel hs (hg 0 s rfl)
    rw [executeCommandFrom, orElse]
    rcases h : sendCommand fuel c s with ⟨r, s'⟩
    rw [h] at hlog hsafe
    cases r with
    | error e =>
      refine trans_of (Logs _) hlog (ih hsafe fun i t ht => ?_)
      have := hg (i + 1) t (by rw [attemptsFrom, h]; exact ht)
      rwa [show n + 1 - 1 - (i + 1) = n - 1 - i by omega] at this
    | ok a => exact hlog
    | running => exact hlog

/-- Some command byte was taken for something else. -/
def Misframes (s s' : State Controller) : Prop :=
  ∃ l, s'.log = s.log ++ l ∧ ∃ e ∈ l, ¬e.Framed

theorem Misframes.not_logs {s' : State Controller} (h : Misframes s s') :
    ¬Logs Event.Framed s s' := by
  rintro ⟨l', hl', hframed⟩
  obtain ⟨l, hl, e, he, hne⟩ := h
  rw [hl, List.append_cancel_left_eq] at hl'
  exact hne (hframed e (hl' ▸ he))

theorem Misframes.trans_logs {s₁ s' : State Controller} {G : Event Controller → Prop}
    (h : Misframes s s₁) (h' : Logs G s₁ s') : Misframes s s' := by
  obtain ⟨l, hl, e, he, hne⟩ := h
  obtain ⟨l', hl', -⟩ := h'
  exact ⟨l ++ l', by rw [hl', hl, List.append_assoc], e, List.mem_append_left _ he, hne⟩

theorem Misframes.of_logs {s₁ s' : State Controller} {G : Event Controller → Prop}
    (h : Logs G s s₁) (h' : Misframes s₁ s') : Misframes s s' := by
  obtain ⟨l, hl, -⟩ := h
  obtain ⟨l', hl', e, he, hne⟩ := h'
  exact ⟨l ++ l', by rw [hl', hl, List.append_assoc], e, List.mem_append_right _ he, hne⟩

/-- The log only grows. -/
theorem keeps_logs_sendCommand (fuel : ℕ) (c : Command) :
    Keeps (Logs fun _ => True) (sendCommand fuel c : Driver Controller Unit) := by
  refine Keeps.bind (fun s => logs_step (fun _ => trivial) rfl trivial) fun msr => ?_
  refine (Keeps.assert _ _).bind fun _ => ?_
  refine Keeps.bind (fun s => logs_step (fun _ => trivial) rfl trivial) fun _ => ?_
  exact keeps_logs_sendParameters (fun _ _ => trivial) fuel c

theorem keeps_logs_executeCommandFrom (fuel n : ℕ) (c : Command) :
    Keeps (Logs fun _ => True) (executeCommandFrom fuel c n : Driver Controller Unit) := by
  induction n with
  | zero => exact .throw _
  | succ n ih => exact (keeps_logs_sendCommand fuel c).orElse ih

/-- An attempt is followed by others, or by nothing. -/
theorem logs_attempt (fuel n : ℕ) (c : Command) (s : State Controller) :
    Logs (fun _ => True) (sendCommand fuel c s).2 (executeCommandFrom fuel c (n + 1) s).2 := by
  rw [executeCommandFrom, orElse]
  rcases sendCommand fuel c s with ⟨r, s'⟩
  cases r with
  | error e => exact keeps_logs_executeCommandFrom fuel n c s'
  | ok a => exact refl_of (Logs _) s'
  | running => exact refl_of (Logs _) s'

/-- If the rest of a delay among the parameters is over while there still are attempts,
    a command byte is taken for a parameter. -/
theorem misframes_of_parameter {fuel n : ℕ} {c : Command} {c' : Command} {left : ℕ}
    (h : s.device.phase = .parameter c' left) (hd : s.device.delay < n) :
    Misframes s (executeCommandFrom fuel c n s).2 := by
  -- Each attempt takes one off the delay, until one of them finds it over.
  induction n generalizing s with
  | zero => exact absurd hd (Nat.not_lt_zero _)
  | succ n ih =>
    have hturn : s.turn.device = s.device := device_turn_of_parameter h
    by_cases h₀ : s.device.delay = 0
    · obtain ⟨s₁, s₂, hs, hlog, hl, -⟩ := sendCommand_of_ready fuel c (s := s)
        (hturn.symm ▸ ⟨h₀, .inr ⟨c', left, h⟩⟩)
      have hbad : Misframes s s₂ := Misframes.of_logs hlog ⟨_, hl, _, List.mem_singleton_self _, by
        rw [Event.Framed, hturn, h]
        exact nofun⟩
      have hsent := hbad.trans_logs (keeps_logs_sendParameters (fun _ _ => trivial) fuel c s₂)
      rw [← hs] at hsent
      exact hsent.trans_logs (logs_attempt fuel n c s)
    · obtain ⟨s', hs', hd', hlog⟩ := sendCommand_of_busy fuel c (s := s) fun hr => h₀ (hturn ▸ hr.1)
      rw [hturn] at hd'
      rw [executeCommandFrom, orElse_of_error hs']
      refine Misframes.of_logs hlog (ih (by rw [hd']; exact h) ?_)
      rw [hd']
      simp only
      omega

theorem misframes_of_givenUpEarly {fuel n i : ℕ} {c : Command} {t : State Controller}
    (ht : (attemptsFrom fuel c n s)[i]? = some t) (hg : GivenUpEarly c (n - 1 - i) t.turn.device) :
    Misframes s (executeCommandFrom fuel c n s).2 := by
  induction n generalizing s i with
  | zero => cases ht
  | succ n ih =>
    rcases h : sendCommand fuel c s with ⟨r, s'⟩
    cases i with
    | zero =>
      obtain rfl : s = t := Option.some.inj ht
      obtain ⟨hp, hd, k, hk, hlt⟩ := hg
      obtain ⟨hlog, ⟨hnone, -⟩ | ⟨k', hk', e, s'', hs'', ⟨left, hpar⟩, hdelay⟩⟩ :=
        sendCommand_of_command fuel c hd hp
      · cases hnone.symm.trans hk
      · obtain rfl : k' = k := Option.some.inj (hk'.symm.trans hk)
        -- What is left of the delay is less than the number of attempts left.
        have hlong := le_of_longDelay hk
        rw [hs''] at hlog
        rw [executeCommandFrom, orElse_of_error hs'']
        refine Misframes.of_logs hlog (misframes_of_parameter hpar ?_)
        change s''.device.delay < n
        omega
    | succ i =>
      rw [attemptsFrom, h] at ht
      cases r with
      | error e =>
        have hlog := keeps_logs_sendCommand fuel c s
        rw [h] at hlog
        rw [executeCommandFrom, orElse_of_error h]
        refine Misframes.of_logs hlog (ih ht ?_)
        rwa [show n + 1 - 1 - (i + 1) = n - 1 - i by omega] at hg
      | ok a => cases ht
      | running => cases ht

theorem misframes_executeCommand {fuel i : ℕ} {c : Command} {ps : List Byte} {t : State Controller}
    (ht : (attempts fuel c ps s)[i]? = some t)
    (hg : GivenUpEarly c (commandAttemptCount - 1 - i) t.turn.device) :
    Misframes s (executeCommand fuel c ps s).2 := by
  obtain ⟨bytes, hset⟩ := setParametersFrom_eq 0 ps s
  rw [attempts, hset] at ht
  rw [executeCommand, bind_of_ok hset]
  exact misframes_of_givenUpEarly ht hg

/-- Every command byte of `executeCommand` is taken as one exactly when no attempt is
    given up early. -/
theorem logs_executeCommand_iff (fuel : ℕ) (c : Command) (ps : List Byte) (s : State Controller)
    (hs : s.device.phase = .command) :
    Logs Event.Framed s (executeCommand fuel c ps s).2 ↔
      ∀ i t, (attempts fuel c ps s)[i]? = some t →
        ¬GivenUpEarly c (commandAttemptCount - 1 - i) t.turn.device := by
  constructor
  · intro hlog i t ht hg
    exact (misframes_executeCommand ht hg).not_logs hlog
  · intro hg
    obtain ⟨bytes, hset⟩ := setParametersFrom_eq 0 ps s
    rw [attempts, hset] at hg
    rw [executeCommand, bind_of_ok hset]
    refine logs_executeCommandFrom (.inl fun c' left => ?_) hg
    rw [show ({ s with parameterBytes := bytes } : State Controller).device = s.device from rfl, hs]
    rintro ⟨⟩

/-- A controller that is ready at once is given up by no attempt. -/
theorem logs_specify : Logs Event.Framed (.start (.expecting 0) fun _ => ⟨[], .timer⟩)
    (executeCommand 1 .specify [0x80, 0x0A] (.start (.expecting 0) fun _ => ⟨[], .timer⟩)).2 := by
  refine (logs_executeCommand_iff 1 .specify [0x80, 0x0A] (.start (.expecting 0) _) rfl).2 ?_
  intro i t ht
  have hlen : (attempts 1 .specify [0x80, 0x0A]
      (.start (Controller.expecting 0) fun _ => ⟨[], .timer⟩)).length = 1 := by
    decide +kernel
  obtain rfl : i = 0 := by
    have := (List.getElem?_eq_some_iff.1 ht).1
    omega
  obtain rfl := Option.some.inj ht
  rintro ⟨-, -, k, hk, -⟩
  exact nomatch hk

/-- The command byte of a recalibration is taken for its parameter, if the controller is
    not ready for that after three reads of its status, but after four. -/
theorem not_logs_recalibrate : ¬Logs Event.Framed
    (.start ⟨.command, 0, fun n => if n = 0 then 3 else 0, fun _ => 0⟩ fun _ => ⟨[], .timer⟩)
    (executeCommand 1 .recalibrate [0] (.start
      ⟨.command, 0, fun n => if n = 0 then 3 else 0, fun _ => 0⟩ fun _ => ⟨[], .timer⟩)).2 := by
  refine (misframes_executeCommand (List.getElem?_cons_zero) ?_).not_logs
  exact ⟨rfl, rfl, 3, rfl, by decide⟩

end KessokuOS.Floppy
