import KessokuOS.Drivers.Floppy.Driver

/-!
# What a command meets

What a command comes to depends on the device and on the interrupts: on the values of
the status that the device shows, on the looks at it that it lets pass before it is ready
for a byte (`State.ReadyAfter`), and on when its interrupt comes (`InterruptsInTime`).
This is said here from the state on in which a command is sent, by the accesses alone.

* `TakesRequest`: the device takes the bytes of a command, and interrupts in time;
* `GivesResults`: it gives the result bytes, with the status of a result phase behind each;
* `sendRequest_eq_ok_iff`, `receiveResults_eq_ok_iff`: a part of a command succeeds exactly
  when the device does this;
* `attempts_of_ok`: the attempts at a command that succeeds.
-/

namespace KessokuOS.Floppy

open Routine

variable {δ : Type*} [Device δ]

/-! ## The status -/

namespace State

/-- The status that the next step of the driver finds. -/
def status (s : State δ) : Byte := (Device.readByte s.turn.device mainStatusRegister).1

/-- Behind a look at the status. -/
def polled (s : State δ) : State δ := (portReadByte mainStatusRegister s).2

/-- The device lets `k` looks at its status pass, and then is ready, and shows `v`. -/
structure ReadyAfter (k : ℕ) (v : Byte) (s : State δ) : Prop where
  busy : ∀ j < k, (polled^[j] s).status &&& 0x80 ≠ 0x80
  shown : (polled^[k] s).status = v
  ready : v &&& 0x80 = 0x80

theorem readyAfter_zero {v : Byte} {s : State δ} :
    s.ReadyAfter 0 v ↔ s.status = v ∧ v &&& 0x80 = 0x80 :=
  ⟨fun h => ⟨h.shown, h.ready⟩, fun h => ⟨fun _ hj => absurd hj (Nat.not_lt_zero _), h.1, h.2⟩⟩

theorem readyAfter_succ {k : ℕ} {v : Byte} {s : State δ} :
    s.ReadyAfter (k + 1) v ↔ s.status &&& 0x80 ≠ 0x80 ∧ s.polled.ReadyAfter k v := by
  constructor
  · intro h
    exact ⟨h.busy 0 (Nat.succ_pos k), fun j hj => h.busy (j + 1) (Nat.succ_lt_succ hj), h.shown,
      h.ready⟩
  · rintro ⟨hs, h⟩
    refine ⟨fun j hj => ?_, h.shown, h.ready⟩
    cases j with
    | zero => exact hs
    | succ j => exact h.busy j (Nat.lt_of_succ_lt_succ hj)

theorem resultBytes_iterate_polled (k : ℕ) (s : State δ) :
    (polled^[k] s).resultBytes = s.resultBytes := by
  induction k with
  | zero => rfl
  | succ k ih =>
    rw [Function.iterate_succ_apply', ← ih]
    exact (polled^[k] s).resultBytes_turn

/-- A byte is written to the data port. -/
def sent (role : Role) (v : Byte) (s : State δ) : State δ := (portWriteByte role dataFifo v s).2

/-- The byte that the next step of the driver finds at the data port. -/
def data (s : State δ) : Byte := (Device.readByte s.turn.device dataFifo).1

/-- The result byte with the index `i` is read, and stored. -/
def stored (i : ℕ) (s : State δ) : State δ :=
  let s' := (portReadByte dataFifo s).2
  { s' with resultBytes := Function.update s'.resultBytes i s.data }

end State

open State

theorem readMsrUntilRqmFrom_eq_ok_iff {n : ℕ} {v : Byte} {s s' : State δ} :
    readMsrUntilRqmFrom n s = (.ok v, s') ↔
      ∃ k < n, s.ReadyAfter k v ∧ s' = polled^[k + 1] s := by
  induction n generalizing s with
  | zero => exact iff_of_false (fun h => nomatch congrArg Prod.fst h) fun ⟨_, hk, _⟩ => nomatch hk
  | succ n ih =>
    have hread : portReadByte mainStatusRegister s = (.ok s.status, s.polled) := rfl
    rw [readMsrUntilRqmFrom, bind_of_ok hread, Nat.exists_lt_succ_left]
    simp only [readyAfter_zero, readyAfter_succ]
    -- The device is ready at the first look, or behind it.
    split_ifs with hs
    · rw [or_iff_left (by rintro ⟨k, -, ⟨hne, -⟩, -⟩; exact hne hs)]
      constructor
      · intro h
        obtain ⟨hv, rfl⟩ := Prod.mk.inj h
        exact ⟨⟨Outcome.ok.inj hv, Outcome.ok.inj hv ▸ hs⟩, rfl⟩
      · rintro ⟨⟨rfl, -⟩, rfl⟩
        rfl
    · rw [or_iff_right (by rintro ⟨⟨rfl, hv⟩, -⟩; exact hs hv), ih]
      simp only [ne_eq, hs, not_false_eq_true, true_and]
      rfl

theorem readMsrUntilRqm_eq_ok_iff {v : Byte} {s s' : State δ} : readMsrUntilRqm s = (.ok v, s') ↔
    ∃ k < msrReadAttemptCount, s.ReadyAfter k v ∧ s' = polled^[k + 1] s :=
  readMsrUntilRqmFrom_eq_ok_iff

/-! ## The request -/

/-- The device takes `n` parameters from the index `i` on: it is ready for each before the
    looks at its status run out, and then expects a byte. -/
def TakesParameters : (i n : ℕ) → State δ → State δ → Prop
  | _, 0, s, s' => s' = s
  | i, n + 1, s, s' => ∃ k < msrReadAttemptCount, ∃ v, s.ReadyAfter k v ∧ v &&& 0x40 = 0 ∧
    TakesParameters (i + 1) n
      ((polled^[k + 1] s).sent .parameter ((polled^[k + 1] s).parameterBytes i)) s'

/-- The two bits that the driver looks at in front of a byte for the device. -/
theorem and_c0_eq_iff (v : Byte) : v &&& 0xC0 = 0x80 ↔ v &&& 0x80 = 0x80 ∧ v &&& 0x40 = 0 := by
  revert v
  decide +kernel

theorem sendParametersFrom_eq_ok_iff {i n : ℕ} {s s' : State δ} :
    sendParametersFrom i n s = (.ok (), s') ↔ TakesParameters i n s s' := by
  induction n generalizing i s with
  | zero =>
    constructor
    · exact fun h => (Prod.mk.inj h).2.symm
    · rintro rfl
      rfl
  | succ n ih =>
    rw [sendParametersFrom, bind_eq_ok_iff, TakesParameters]
    simp only [readMsrUntilRqm_eq_ok_iff, bind_assert_eq_ok_iff, bind_get, decide_eq_true_iff]
    have hwrite : ∀ (t : State δ) v, portWriteByte .parameter dataFifo v t =
        (.ok (), t.sent .parameter v) := fun _ _ => rfl
    constructor
    · rintro ⟨v, t, ⟨k, hk, hr, rfl⟩, hv, h⟩
      rw [bind_of_ok (hwrite _ _), ih] at h
      exact ⟨k, hk, v, hr, ((and_c0_eq_iff v).1 hv).2, h⟩
    · rintro ⟨k, hk, v, hr, hv, h⟩
      refine ⟨v, _, ⟨k, hk, hr, rfl⟩, (and_c0_eq_iff v).2 ⟨hr.ready, hv⟩, ?_⟩
      rwa [bind_of_ok (hwrite _ _), ih]

/-! ## The interrupt -/

/-- Since the state `s₀`, an interrupt of the controller has come. -/
def Interrupted (s₀ s : State δ) : Prop := ∃ l, s.log = s₀.log ++ l ∧ .interrupt .floppy ∈ l

namespace State

/-- Where a round of the wait looks for the interrupt, behind its look at the time. -/
def lookedAt (s : State δ) : State δ := (getTicks s).2.turn

/-- Behind a round of the wait that goes on: two looks, and a halt. -/
def waitRound (s : State δ) : State δ := (halt (testWaiting (getTicks s).2).2).2

end State

/-- The round `k` of the wait is the first one that finds the interrupt that has come since
    `s₀`, and no time is up before it. -/
structure InterruptsAt (s₀ : State δ) (start k : ℕ) (s : State δ) : Prop where
  inTime : ∀ j ≤ k, u32Sub (waitRound^[j] s).turn.pit.getTicks start < timeoutTime
  before : ∀ j < k, ¬Interrupted s₀ (waitRound^[j] s).lookedAt
  comes : Interrupted s₀ (waitRound^[k] s).lookedAt

/-- An interrupt of the controller comes since `s₀`, and is found by one of `fuel` rounds of
    a wait that begins in the state `s`, before `timeoutTime` ticks are over. -/
def InterruptsInTime (fuel : ℕ) (s₀ s s' : State δ) : Prop :=
  ∃ k < fuel, InterruptsAt s₀ s.turn.pit.getTicks k (getTicks s).2 ∧
    s' = (testWaiting (getTicks (waitRound^[k] (getTicks s).2)).2).2.record (.waited (.ok ()))

section Interrupts

variable {s₀ s : State δ} {start k : ℕ}

theorem interruptsAt_zero : InterruptsAt s₀ start 0 s ↔
    u32Sub s.turn.pit.getTicks start < timeoutTime ∧ Interrupted s₀ s.lookedAt := by
  constructor
  · exact fun h => ⟨h.inTime 0 (le_refl 0), h.comes⟩
  · rintro ⟨htime, hcome⟩
    refine ⟨fun j hj => ?_, fun j hj => absurd hj (Nat.not_lt_zero j), hcome⟩
    obtain rfl := Nat.le_zero.1 hj
    exact htime

theorem interruptsAt_succ : InterruptsAt s₀ start (k + 1) s ↔
    u32Sub s.turn.pit.getTicks start < timeoutTime ∧ ¬Interrupted s₀ s.lookedAt ∧
      InterruptsAt s₀ start k s.waitRound := by
  constructor
  · intro h
    exact ⟨h.inTime 0 (Nat.zero_le _), h.before 0 (Nat.succ_pos k),
      fun j hj => h.inTime (j + 1) (Nat.succ_le_succ hj),
      fun j hj => h.before (j + 1) (Nat.succ_lt_succ hj), h.comes⟩
  · rintro ⟨htime, hcome, h⟩
    refine ⟨fun j hj => ?_, fun j hj => ?_, h.comes⟩
    · cases j with
      | zero => exact htime
      | succ j => exact h.inTime j (Nat.le_of_succ_le_succ hj)
    · cases j with
      | zero => exact hcome
      | succ j => exact h.before j (Nat.lt_of_succ_lt_succ hj)

/-- The flag that is set in the state `s₀` tells whether an interrupt of the controller has
    come since. -/
def Armed (s₀ s : State δ) : Prop :=
  ∃ l, s.log = s₀.log ++ l ∧ (s.waitingForIRQ = false ↔ .interrupt .floppy ∈ l)

omit [Device δ] in
theorem Armed.iff (hs : Armed s₀ s) : s.waitingForIRQ = false ↔ Interrupted s₀ s := by
  obtain ⟨l, hl, h⟩ := hs
  refine h.trans ⟨fun hmem => ⟨l, hl, hmem⟩, ?_⟩
  rintro ⟨l', hl', hmem⟩
  rw [hl, List.append_cancel_left_eq] at hl'
  exact hl' ▸ hmem

omit [Device δ] in
theorem Armed.congr {s' : State δ} (hs : Armed s₀ s) (hl : s'.log = s.log)
    (hw : s'.waitingForIRQ = s.waitingForIRQ) : Armed s₀ s' := by
  obtain ⟨l, hl', h⟩ := hs
  exact ⟨l, hl.trans hl', hw ▸ h⟩

omit [Device δ] in
/-- An event that is no interrupt of the controller leaves the flag. -/
theorem Armed.step {s' : State δ} {e : Event δ} (hs : Armed s₀ s) (hl : s'.log = s.log ++ [e])
    (he : e ≠ .interrupt .floppy) (hw : s'.waitingForIRQ = s.waitingForIRQ) : Armed s₀ s' := by
  obtain ⟨l, hl', h⟩ := hs
  refine ⟨l ++ [e], by rw [hl, hl', List.append_assoc], ?_⟩
  rw [hw, h, List.mem_append, List.mem_singleton]
  exact (or_iff_left he.symm).symm

omit [Device δ] in
theorem Armed.interrupt (hs : Armed s₀ s) (i : Interrupt) : Armed s₀ (s.interrupt i) := by
  cases i with
  | floppy =>
    obtain ⟨l, hl, -⟩ := hs
    refine ⟨l ++ [.interrupt .floppy], ?_, iff_of_true rfl ?_⟩
    · rw [State.log_interrupt, hl, List.append_assoc]
    · exact List.mem_append_right l (List.mem_singleton_self _)
  | timer => exact hs.step (State.log_interrupt _ s) (by rintro ⟨⟩) rfl
  | other => exact hs.step (State.log_interrupt _ s) (by rintro ⟨⟩) rfl

theorem Armed.turn (hs : Armed s₀ s) : Armed s₀ s.turn :=
  State.turn_induction hs (fun _ i hs => hs.interrupt i) (fun _ hs => hs.congr rfl rfl)
    fun _ _ hs => hs.congr rfl rfl

theorem Armed.getTicks (hs : Armed s₀ s) : Armed s₀ (getTicks s).2 :=
  hs.turn.step rfl (by rintro ⟨⟩) rfl

theorem Armed.waitRound (hs : Armed s₀ s) : Armed s₀ s.waitRound := by
  have htest : Armed s₀ (testWaiting (Floppy.getTicks s).2).2 :=
    hs.getTicks.turn.step rfl (by rintro ⟨⟩) rfl
  have hhalt : Armed s₀ ((testWaiting (Floppy.getTicks s).2).2.turn.record .halt) :=
    htest.turn.step rfl (by rintro ⟨⟩) rfl
  exact hhalt.interrupt _

theorem keeps_armed_portReadByte (port : BitVec 16) :
    Keeps (Preserves (Armed s₀)) (portReadByte port : Driver δ Byte) :=
  fun _ hs => hs.turn.step rfl (by rintro ⟨⟩) rfl

theorem keeps_armed_portWriteByte (role : Role) (port : BitVec 16) (v : Byte) :
    Keeps (Preserves (Armed s₀)) (portWriteByte role port v : Driver δ Unit) :=
  fun _ hs => hs.turn.step rfl (by rintro ⟨⟩) rfl

theorem waitForIrqFrom_eq_ok_iff {fuel : ℕ} {s' : State δ} (hs : Armed s₀ s) :
    waitForIrqFrom start fuel s = (.ok (), s') ↔ ∃ k < fuel, InterruptsAt s₀ start k s ∧
      s' = (testWaiting (getTicks (State.waitRound^[k] s)).2).2 := by
  induction fuel generalizing s with
  | zero => exact iff_of_false (fun h => nomatch congrArg Prod.fst h) fun ⟨_, hk, _⟩ => nomatch hk
  | succ fuel ih =>
    have hticks : getTicks s = (.ok s.turn.pit.getTicks, (getTicks s).2) := rfl
    have htest : testWaiting (getTicks s).2 =
        (.ok s.lookedAt.waitingForIRQ, (testWaiting (getTicks s).2).2) := rfl
    have hhalt : halt (testWaiting (getTicks s).2).2 = (.ok (), s.waitRound) := rfl
    have hflag : s.lookedAt.waitingForIRQ = false ↔ Interrupted s₀ s.lookedAt :=
      hs.getTicks.turn.iff
    rw [waitForIrqFrom, bind_of_ok hticks]
    by_cases htime : u32Sub s.turn.pit.getTicks start < timeoutTime
    swap
    · -- The time is up at the first look at it.
      rw [if_neg htime]
      refine iff_of_false (fun h => nomatch congrArg Prod.fst h) ?_
      rintro ⟨k, -, h, -⟩
      exact htime (h.inTime 0 (Nat.zero_le k))
    rw [if_pos htime, bind_of_ok htest, Nat.exists_lt_succ_left, interruptsAt_zero]
    simp only [interruptsAt_succ]
    by_cases hcome : Interrupted s₀ s.lookedAt
    · rw [hflag.2 hcome, or_iff_left (by rintro ⟨k, -, ⟨-, hne, -⟩, -⟩; exact hne hcome)]
      constructor
      · intro h
        exact ⟨⟨htime, hcome⟩, (Prod.mk.inj h).2.symm⟩
      · rintro ⟨-, rfl⟩
        rfl
    · have hgo : (if !true then pure () else do
          halt
          waitForIrqFrom start fuel : Driver δ Unit) (testWaiting (getTicks s).2).2 =
          waitForIrqFrom start fuel s.waitRound := bind_of_ok hhalt
      rw [Bool.eq_true_of_not_eq_false fun h => hcome (hflag.1 h), hgo, ih hs.waitRound,
        or_iff_right fun h => hcome h.1.2]
      simp only [htime, hcome, not_false_eq_true, true_and]
      rfl

theorem waitForIrq_eq_ok_iff {fuel : ℕ} {s' : State δ} (hs : Armed s₀ s) :
    waitForIrq fuel s = (.ok (), s') ↔ InterruptsInTime fuel s₀ s s' := by
  have hticks : getTicks s = (.ok s.turn.pit.getTicks, (getTicks s).2) := rfl
  have hiff : ∀ s', waitForIrqFrom s.turn.pit.getTicks fuel (getTicks s).2 = (.ok (), s') ↔
      ∃ k < fuel, InterruptsAt s₀ s.turn.pit.getTicks k (getTicks s).2 ∧
        s' = (testWaiting (getTicks (State.waitRound^[k] (getTicks s).2)).2).2 :=
    fun _ => waitForIrqFrom_eq_ok_iff hs.getTicks
  rw [waitForIrq, returning, bind_of_ok hticks]
  rcases h : waitForIrqFrom s.turn.pit.getTicks fuel (getTicks s).2 with ⟨r, t⟩
  rw [h] at hiff
  constructor
  · intro hr
    cases r with
    | ok a =>
      obtain ⟨k, hk, hat, rfl⟩ := (hiff t).1 rfl
      obtain ⟨-, rfl⟩ := Prod.mk.inj hr
      exact ⟨k, hk, hat, rfl⟩
    | error e => cases congrArg Prod.fst hr
    | running => cases congrArg Prod.fst hr
  · rintro ⟨k, hk, hat, rfl⟩
    obtain ⟨rfl, rfl⟩ := Prod.mk.inj ((hiff _).2 ⟨k, hk, hat, rfl⟩)
    rfl

end Interrupts

/-! ## Commands -/

/-- What `sendCommand` does before the result phase. -/
def sendRequest (fuel : ℕ) (c : Command) : Driver δ Unit := do
  let msr ← portReadByte mainStatusRegister
  assert (msr &&& 0xc0 = 0x80) .driverDeviceNeedsReset
  portWriteByte .command dataFifo c.toByte
  when (commandHasInterrupt c) setWaiting
  sendParametersFrom 0 c.getParameterCount
  when (commandHasInterrupt c) (waitForIrq fuel)

theorem sendCommand_eq (fuel : ℕ) (c : Command) :
    (sendCommand fuel c : Driver δ Unit) = sendRequest fuel c >>= fun _ => receiveResults c := by
  simp only [sendCommand, sendParameters, sendRequest, bind_bind]

/-- Behind the byte of a command; the flag is set if the command interrupts. -/
def State.commanded (c : Command) (s : State δ) : State δ :=
  (when (commandHasInterrupt c) setWaiting (s.polled.sent .command c.toByte)).2

/-- The device takes the bytes of a command that is sent in the state `s`: it is ready for
    its first byte at once, and for the parameters in time. A command that interrupts does
    so in time, behind its first byte. -/
def TakesRequest (fuel : ℕ) (c : Command) (s s' : State δ) : Prop :=
  s.status &&& 0xC0 = 0x80 ∧ ∃ t, TakesParameters 0 c.getParameterCount (s.commanded c) t ∧
    if commandHasInterrupt c then InterruptsInTime fuel (s.commanded c) t s' else s' = t

/-- The flag is set behind the byte of a command that interrupts. -/
theorem armed_parameters {c : Command} {s t : State δ} (h : commandHasInterrupt c = true)
    (hp : sendParametersFrom 0 c.getParameterCount (s.commanded c) = (.ok (), t)) :
    Armed (s.commanded c) t := by
  have hstart : Armed (s.commanded c) (s.commanded c) := by
    refine ⟨[], (List.append_nil _).symm, iff_of_false ?_ List.not_mem_nil⟩
    rw [State.commanded, h]
    exact nofun
  have hread : Keeps (Preserves (Armed (s.commanded c)))
      (portReadByte mainStatusRegister : Driver δ Byte) := keeps_armed_portReadByte _
  have hk := keeps_sendParametersFrom hread (keeps_armed_portWriteByte .parameter _) 0
    c.getParameterCount (s.commanded c) hstart
  rwa [hp] at hk

/-- The request of a command succeeds exactly if the device takes it. -/
theorem sendRequest_eq_ok_iff {fuel : ℕ} {c : Command} {s s' : State δ} :
    sendRequest fuel c s = (.ok (), s') ↔ TakesRequest fuel c s s' := by
  have hread : portReadByte mainStatusRegister s = (.ok s.status, s.polled) := rfl
  have hwrite : portWriteByte .command dataFifo c.toByte s.polled =
      (.ok (), s.polled.sent .command c.toByte) := rfl
  have hset : when (commandHasInterrupt c) setWaiting (s.polled.sent .command c.toByte) =
      (.ok (), s.commanded c) := by
    rw [State.commanded]
    cases commandHasInterrupt c <;> rfl
  rw [sendRequest, bind_of_ok hread, bind_assert_eq_ok_iff, decide_eq_true_iff, TakesRequest,
    bind_of_ok hwrite, bind_of_ok hset, bind_unit_eq_ok_iff]
  refine and_congr_right fun _ => ?_
  simp only [← sendParametersFrom_eq_ok_iff]
  constructor
  · rintro ⟨t, hp, hw⟩
    refine ⟨t, hp, ?_⟩
    cases h : commandHasInterrupt c with
    | false =>
      rw [h] at hw
      exact (Prod.mk.inj hw).2.symm
    | true =>
      rw [h] at hw
      exact (waitForIrq_eq_ok_iff (armed_parameters h hp)).1 hw
  · rintro ⟨t, hp, hw⟩
    refine ⟨t, hp, ?_⟩
    cases h : commandHasInterrupt c with
    | false =>
      rw [h] at hw
      exact hw ▸ rfl
    | true =>
      rw [h] at hw
      exact (waitForIrq_eq_ok_iff (armed_parameters h hp)).2 hw

/-! ## The result phase -/

/-- The device gives `n` result bytes from the index `i` on: behind each it is ready before
    the looks at its status run out, and shows that it is busy and has another byte; behind
    the last one, neither. -/
def GivesResults : (i n : ℕ) → State δ → State δ → Prop
  | _, 0, s, s' => s' = s
  | i, n + 1, s, s' => ∃ k < msrReadAttemptCount, ∃ v, (s.stored i).ReadyAfter k v ∧
    v &&& 0x50 = (if n = 0 then 0x00 else 0x50) ∧
    GivesResults (i + 1) n (polled^[k + 1] (s.stored i)) s'

theorem receiveResult_eq_ok_iff {i : ℕ} {status : Byte} {s s' : State δ} :
    receiveResult i status s = (.ok (), s') ↔ ∃ k < msrReadAttemptCount, ∃ v,
      (s.stored i).ReadyAfter k v ∧ v &&& 0x50 = status ∧ s' = polled^[k + 1] (s.stored i) := by
  have hread : portReadByte dataFifo s = (.ok s.data, (portReadByte dataFifo s).2) := rfl
  have hstore : (modify fun s' : State δ => { s' with
      resultBytes := Function.update s'.resultBytes i s.data } : Driver δ Unit)
      (portReadByte dataFifo s).2 = (.ok (), s.stored i) := rfl
  have hassert : ∀ (c : Bool) (t : State δ), (assert c .driverCommandFailed : Driver δ Unit) t =
      (.ok (), s') ↔ c = true ∧ s' = t := by
    intro c t
    cases c
    · exact iff_of_false (fun h => nomatch congrArg Prod.fst h) fun h => nomatch h.1
    · exact ⟨fun h => ⟨rfl, (Prod.mk.inj h).2.symm⟩, fun h => h.2 ▸ rfl⟩
  rw [receiveResult, bind_of_ok hread, bind_of_ok hstore, bind_eq_ok_iff]
  simp only [readMsrUntilRqm_eq_ok_iff, hassert, decide_eq_true_iff]
  constructor
  · rintro ⟨v, t, ⟨k, hk, hr, rfl⟩, hv, rfl⟩
    exact ⟨k, hk, v, hr, hv, rfl⟩
  · rintro ⟨k, hk, v, hr, hv, rfl⟩
    exact ⟨v, _, ⟨k, hk, hr, rfl⟩, hv, rfl⟩

/-- The bytes before the last one, and this. -/
theorem receiveResultsFrom_eq_ok_iff {i n : ℕ} {s s' : State δ} :
    (receiveResultsFrom i n >>= fun _ => receiveResult (i + n) 0x00) s = (.ok (), s') ↔
      GivesResults i (n + 1) s s' := by
  induction n generalizing i s with
  | zero =>
    have hlast : (receiveResultsFrom i 0 >>= fun _ => receiveResult (i + 0) 0x00) s =
      receiveResult i 0x00 s := rfl
    rw [hlast, receiveResult_eq_ok_iff]
    rfl
  | succ n ih =>
    have hsplit : (receiveResultsFrom i (n + 1) >>= fun _ => receiveResult (i + (n + 1)) 0x00 :
        Driver δ Unit) = receiveResult i 0x50 >>= fun _ => receiveResultsFrom (i + 1) n >>=
          fun _ => receiveResult (i + 1 + n) 0x00 := by
      rw [receiveResultsFrom, bind_bind, show i + (n + 1) = i + 1 + n by omega]
    rw [hsplit, bind_unit_eq_ok_iff, GivesResults, if_neg (Nat.succ_ne_zero n)]
    simp only [receiveResult_eq_ok_iff, ih]
    constructor
    · rintro ⟨t, ⟨k, hk, v, hr, hv, rfl⟩, h⟩
      exact ⟨k, hk, v, hr, hv, h⟩
    · rintro ⟨k, hk, v, hr, hv, h⟩
      exact ⟨_, ⟨k, hk, v, hr, hv, rfl⟩, h⟩

/-- The result phase succeeds exactly if the device gives the result bytes. -/
theorem receiveResults_eq_ok_iff {c : Command} {s s' : State δ} :
    receiveResults c s = (.ok (), s') ↔ GivesResults 0 c.getResultByteCount s s' := by
  rw [receiveResults, when]
  rcases hn : c.getResultByteCount with _ | n
  · rw [if_neg (by decide)]
    exact ⟨fun h => (Prod.mk.inj h).2.symm, fun h => h ▸ rfl⟩
  · rw [if_pos (decide_eq_true (Nat.succ_ne_zero n)), Nat.succ_sub_one,
      ← receiveResultsFrom_eq_ok_iff, Nat.zero_add]

/-- A command succeeds exactly if the device takes it, and gives its result bytes. -/
theorem sendCommand_eq_ok_iff {fuel : ℕ} {c : Command} {s s' : State δ} :
    sendCommand fuel c s = (.ok (), s') ↔
      ∃ t, TakesRequest fuel c s t ∧ GivesResults 0 c.getResultByteCount t s' := by
  simp only [sendCommand_eq, bind_unit_eq_ok_iff, sendRequest_eq_ok_iff, receiveResults_eq_ok_iff]

/-- The first of the result bytes is stored, and those behind it leave it. -/
theorem resultBytes_of_givesResults {i n j : ℕ} {s s' : State δ} (h : GivesResults i n s s')
    (hj : j < i) : s'.resultBytes j = s.resultBytes j := by
  induction n generalizing i s with
  | zero => exact congrFun (congrArg State.resultBytes h) j
  | succ n ih =>
    obtain ⟨k, -, v, -, -, h⟩ := h
    have hstored : (s.stored i).resultBytes j = s.turn.resultBytes j := by
      simp only [State.stored, Function.update_of_ne hj.ne]
      rfl
    rw [ih h (by omega), resultBytes_iterate_polled, hstored, s.resultBytes_turn]

theorem resultBytes_zero_of_givesResults {n : ℕ} {s s' : State δ}
    (h : GivesResults 0 (n + 1) s s') : s'.resultBytes 0 = s.data := by
  obtain ⟨k, -, v, -, -, h⟩ := h
  rw [resultBytes_of_givesResults h Nat.one_pos, resultBytes_iterate_polled]
  simp only [State.stored, Function.update_self]

/-! ## Attempts -/

/-- The states in which `executeCommandFrom` calls `sendCommand`. -/
def attemptsFrom (fuel : ℕ) (c : Command) : (n : ℕ) → State δ → List (State δ)
  | 0, _ => []
  | n + 1, s => s ::
    match sendCommand fuel c s with
    | (.error _, s') => attemptsFrom fuel c n s'
    | _ => []

/-- The states in which `executeCommand` calls `sendCommand`. -/
def attempts (fuel : ℕ) (c : Command) (ps : List Byte) (s : State δ) : List (State δ) :=
  attemptsFrom fuel c commandAttemptCount (setParametersFrom 0 ps s).2

/-- Of the attempts at a command that succeeds, the last one does, and all others fail. -/
theorem attemptsFrom_of_ok {fuel n : ℕ} {c : Command} {s s' : State δ}
    (h : executeCommandFrom fuel c n s = (.ok (), s')) :
    ∃ l t, attemptsFrom fuel c n s = l ++ [t] ∧ sendCommand fuel c t = (.ok (), s') ∧
      ∀ a ∈ l, (sendCommand fuel c a).1 ≠ .ok () := by
  induction n generalizing s with
  | zero => cases congrArg Prod.fst h
  | succ n ih =>
    rw [executeCommandFrom, orElse] at h
    rw [attemptsFrom]
    rcases hc : sendCommand fuel c s with ⟨r, s₁⟩
    rw [hc] at h
    cases r with
    | ok a =>
      obtain rfl := (Prod.mk.inj h).2
      exact ⟨[], s, rfl, hc, fun _ ha => absurd ha List.not_mem_nil⟩
    | error e =>
      obtain ⟨l, t, hl, ht, hfail⟩ := ih h
      refine ⟨s :: l, t, congrArg (s :: ·) hl, ht, fun a ha => ?_⟩
      rcases List.mem_cons.1 ha with rfl | ha
      · rw [hc]
        rintro ⟨⟩
      · exact hfail a ha
    | running => cases congrArg Prod.fst h

theorem attempts_of_ok {fuel : ℕ} {c : Command} {ps : List Byte} {s s' : State δ}
    (h : executeCommand fuel c ps s = (.ok (), s')) :
    ∃ l t, attempts fuel c ps s = l ++ [t] ∧ sendCommand fuel c t = (.ok (), s') ∧
      ∀ a ∈ l, (sendCommand fuel c a).1 ≠ .ok () := by
  obtain ⟨bytes, hset⟩ := setParametersFrom_eq 0 ps s
  rw [executeCommand, bind_of_ok hset] at h
  rw [attempts, hset]
  exact attemptsFrom_of_ok h

end KessokuOS.Floppy
