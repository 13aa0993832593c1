import KessokuOS.Drivers.Floppy.Controller
import KessokuOS.Drivers.Floppy.Handshake

/-!
# The driver follows the handshake

The log of a command that interrupts, and that of a reset, is a run of the protocol
`Handshake` (`At`), whatever the device does, and whenever interrupts come: hence it
is a handshake (`handshaken_sendCommand_reset`).
-/

namespace KessokuOS.Floppy

open Routine Handshake

variable {δ : Type*}

/-- The state of the protocol is the one of the driver. -/
structure Agrees (s : State δ) (h : Handshake) : Prop where
  waiting : h.phase ≠ .idle → s.waitingForIRQ = !h.handled
  ticks : ∀ st, h.phase.start? = some st → s.pit.ticks = u32 (st + h.elapsed)

/-- What was logged since `l₀` was taken by the protocol, and led to a phase with
    `P`. -/
def At (l₀ : List (Event δ)) (P : Phase → Prop) (s : State δ) : Prop :=
  ∃ l h, s.log = l₀ ++ l ∧ Run.run Handshake.step Handshake.start l = some h ∧ Agrees s h ∧
    P h.phase

variable {l₀ : List (Event δ)} {P Q : Phase → Prop} {s s' : State δ}

theorem At.mono (hs : At l₀ P s) (hPQ : ∀ p, P p → Q p) : At l₀ Q s := by
  obtain ⟨l, h, hl, hr, ha, hp⟩ := hs
  exact ⟨l, h, hl, hr, ha, hPQ _ hp⟩

/-- The protocol only depends on the log, the flag and the timer. -/
theorem At.congr (hs : At l₀ P s) (hl : s'.log = s.log)
    (hw : s'.waitingForIRQ = s.waitingForIRQ) (ht : s'.pit = s.pit) : At l₀ P s' := by
  obtain ⟨l, h, hlog, hr, ha, hp⟩ := hs
  exact ⟨l, h, hl.trans hlog, hr, ⟨fun hi => hw.trans (ha.waiting hi),
    fun st hst => ht ▸ ha.ticks st hst⟩, hp⟩

/-- One more event. -/
theorem At.step {e : Event δ} (hs : At l₀ P s) (hl : s'.log = s.log ++ [e])
    (hstep : ∀ h, Agrees s h → P h.phase →
      ∃ h', Handshake.step h e = some h' ∧ Agrees s' h' ∧ Q h'.phase) : At l₀ Q s' := by
  obtain ⟨l, h, hlog, hr, ha, hp⟩ := hs
  obtain ⟨h', hs', ha', hq⟩ := hstep h ha hp
  refine ⟨l ++ [e], h', by rw [hl, hlog, List.append_assoc], ?_, ha', hq⟩
  exact Run.run_append.2 ⟨h, hr, Run.run_cons.2 ⟨h', hs', rfl⟩⟩

/-- One more event, in a known phase. -/
theorem At.stepFrom {p : Phase} {e : Event δ} (hs : At l₀ (· = p) s) (hl : s'.log = s.log ++ [e])
    (hstep : ∀ b k, Agrees s ⟨p, b, k⟩ →
      ∃ h', Handshake.step ⟨p, b, k⟩ e = some h' ∧ Agrees s' h' ∧ Q h'.phase) : At l₀ Q s' := by
  refine hs.step hl fun h ha hp => ?_
  obtain ⟨p, b, k⟩ := h
  obtain rfl := hp
  exact hstep b k ha

/-- Going on to a phase behind the setting of the flag, which measures no other time. -/
theorem Agrees.next {p q : Phase} {b : Bool} {k : ℕ} (ha : Agrees s ⟨p, b, k⟩)
    (hw : s'.waitingForIRQ = s.waitingForIRQ) (ht : s'.pit = s.pit) (hp : p ≠ .idle)
    (hq : ∀ st, q.start? = some st → p.start? = some st) : Agrees s' ⟨q, b, k⟩ :=
  ⟨fun _ => hw.trans (ha.waiting hp), fun st hst => ht ▸ ha.ticks st (hq st hst)⟩

/-- Of two phases, one of which measures no time. -/
theorem start?_ite {c : Prop} [Decidable c] {p q : Phase} (hq : q.start? = none) (st : ℕ)
    (h : (if c then p else q).start? = some st) : p.start? = some st := by
  split_ifs at h
  · exact h
  · exact nomatch hq.symm.trans h

theorem At.interrupt (hs : At l₀ P s) (hP : ∀ p, P p → p.Settled) (i : Interrupt) :
    At l₀ P (s.interrupt i) := by
  refine hs.step (State.log_interrupt i s) fun h ha hp =>
    ⟨h.handle i, step_interrupt (hP _ hp) i, ?_, ?_⟩
  · cases i with
    -- The counter wraps, and so does what is compared with it.
    | timer =>
      refine ⟨ha.waiting, fun st hst => ?_⟩
      change u32 (s.pit.ticks + 1) = u32 (st + (h.elapsed + 1))
      rw [ha.ticks st hst, u32, u32, Nat.mod_add_mod, Nat.add_assoc, u32]
    | floppy => exact ⟨fun _ => rfl, ha.ticks⟩
    | other => exact ⟨ha.waiting, ha.ticks⟩
  · cases i <;> exact hp

theorem settled_of_eq {q : Phase} (hq : q.Settled) : ∀ p, p = q → p.Settled := fun _ h => h ▸ hq

variable [Device δ]

theorem At.turn (hs : At l₀ P s) (hP : ∀ p, P p → p.Settled) : At l₀ P s.turn :=
  State.turn_induction hs (fun _ i hs => hs.interrupt hP i) (fun _ hs => hs.congr rfl rfl rfl)
    fun _ _ hs => hs.congr rfl rfl rfl

/-! ## Routines without a wait -/

section Calm

variable (hP : ∀ p, P p → p.Calm)
include hP

theorem keeps_portReadByte (port : BitVec 16) :
    Keeps (Preserves (At l₀ P)) (portReadByte port : Driver δ Byte) := by
  intro s hs
  refine (hs.turn fun p hp => (hP p hp).settled).step rfl fun h ha hp => ?_
  exact ⟨h, step_access (hP _ hp) (.inl ⟨_, _, rfl⟩), ⟨ha.waiting, ha.ticks⟩, hp⟩

theorem keeps_portWriteByte (role : Role) (port : BitVec 16) (v : Byte) :
    Keeps (Preserves (At l₀ P)) (portWriteByte role port v : Driver δ Unit) := by
  intro s hs
  refine (hs.turn fun p hp => (hP p hp).settled).step rfl fun h ha hp => ?_
  exact ⟨h, step_access (hP _ hp) (.inr ⟨_, _, _, _, rfl⟩), ⟨ha.waiting, ha.ticks⟩, hp⟩

end Calm

/-! ## The wait -/

theorem triple_setWaiting : Triple (At l₀ (· = .idle)) (setWaiting : Driver δ Unit)
    fun r s => ∃ a, r = .ok a ∧ At l₀ (· = .armed) s := by
  intro s hs
  have ht := hs.turn (settled_of_eq ⟨nofun, nofun⟩)
  exact ⟨(), rfl, ht.stepFrom rfl fun _ _ _ => ⟨_, rfl, ⟨fun _ => rfl, nofun⟩, rfl⟩⟩

/-- The first look at the time begins the wait. -/
theorem triple_getTicks_armed : Triple (At l₀ (· = .armed)) (getTicks : Driver δ ℕ)
    fun r s => ∃ start, r = .ok start ∧ At l₀ (· = .waiting start) s := by
  intro s hs
  have ht := hs.turn (settled_of_eq ⟨nofun, nofun⟩)
  refine ⟨_, rfl, ht.stepFrom rfl fun b k ha => ?_⟩
  refine ⟨_, if_pos s.turn.pit.ticks_lt, ⟨fun _ => ha.waiting nofun, ?_⟩, rfl⟩
  rintro st ⟨⟩
  exact (u32_of_lt s.turn.pit.ticks_lt).symm

/-- A further look at the time. -/
theorem triple_getTicks_waiting (start : ℕ) : Triple (At l₀ (· = .waiting start))
    (getTicks : Driver δ ℕ) fun r s => ∃ now, r = .ok now ∧
      At l₀ (· = if u32Sub now start < timeoutTime then .inTime start else .expired) s := by
  intro s hs
  have ht := hs.turn (settled_of_eq ⟨nofun, nofun⟩)
  refine ⟨_, rfl, ht.stepFrom rfl fun b k ha => ?_⟩
  exact ⟨_, if_pos (ha.ticks start rfl), ha.next rfl rfl nofun (start?_ite rfl), rfl⟩

theorem triple_testWaiting (start : ℕ) : Triple (At l₀ (· = .inTime start))
    (testWaiting : Driver δ Bool) fun r s => ∃ b, r = .ok b ∧
      At l₀ (· = if b then .halting start else .answered) s := by
  intro s hs
  have ht := hs.turn (settled_of_eq ⟨nofun, nofun⟩)
  refine ⟨_, rfl, ht.stepFrom rfl fun b k ha => ?_⟩
  exact ⟨_, if_pos (ha.waiting nofun), ha.next rfl rfl nofun (start?_ite rfl), rfl⟩

theorem triple_halt (start : ℕ) : Triple (At l₀ (· = .halting start)) (halt : Driver δ Unit)
    fun r s => ∃ a, r = .ok a ∧ At l₀ (· = .waiting start) s := by
  intro s hs
  have ht := hs.turn (settled_of_eq ⟨nofun, nofun⟩)
  have hh : At l₀ (· = .waiting start) (s.turn.record .halt) :=
    ht.stepFrom rfl fun _ _ ha => ⟨_, rfl, ha.next rfl rfl nofun fun _ => id, rfl⟩
  exact ⟨(), rfl, hh.interrupt (settled_of_eq ⟨nofun, nofun⟩) _⟩

/-- The wait is about to return with the outcome, or still going on. -/
def BeforeReturn (l₀ : List (Event δ)) : Outcome Error Unit → State δ → Prop
  | .ok (), s => At l₀ (· = .answered) s
  | .error e, s => e = .timedOut ∧ At l₀ (· = .expired) s
  | .running, s => At l₀ Phase.Settled s

/-- The wait has returned with the outcome, or is still going on. -/
def AfterReturn (l₀ : List (Event δ)) : Outcome Error Unit → State δ → Prop
  | .ok (), s => At l₀ (· = .returned (.ok ())) s
  | .error e, s => e = .timedOut ∧ At l₀ (· = .returned (.error .timedOut)) s
  | .running, s => At l₀ Phase.Settled s

theorem triple_waitForIrqFrom (start fuel : ℕ) : Triple (At l₀ (· = .waiting start))
    (waitForIrqFrom start fuel : Driver δ Unit) (BeforeReturn l₀) := by
  induction fuel with
  | zero => exact fun s hs => hs.mono (settled_of_eq ⟨nofun, nofun⟩)
  | succ fuel ih =>
    -- A round looks at the time, tests the flag and halts; it is left by the first two.
    refine (triple_getTicks_waiting start).bind_ok fun now => ?_
    split_ifs
    · refine (triple_testWaiting start).bind_ok fun waiting => ?_
      cases waiting
      · exact fun s hs => hs
      · exact (triple_halt start).bind_ok fun _ => ih
    · exact fun s hs => ⟨rfl, hs⟩

omit [Device δ] in
theorem At.record_waited {p : Phase} {r : ErrorOr Unit} (hs : At l₀ (· = p) s) (hp : p ≠ .idle)
    (hstep : ∀ b k, Handshake.step ⟨p, b, k⟩ (.waited r : Event δ) = some ⟨.returned r, b, k⟩) :
    At l₀ (· = .returned r) (s.record (.waited r)) :=
  hs.stepFrom rfl fun b k ha => ⟨_, hstep b k, ha.next rfl rfl hp nofun, rfl⟩

omit [Device δ] in
/-- The return of a wait. -/
theorem triple_returning {f : Driver δ Unit} {R : State δ → Prop}
    (hf : Triple R f (BeforeReturn l₀)) : Triple R (returning f) (AfterReturn l₀) := by
  intro s hs
  have hr := hf s hs
  rw [returning]
  rcases h : f s with ⟨r, s'⟩
  rw [h] at hr
  cases r with
  | ok a => exact At.record_waited hr (by rintro ⟨⟩) fun _ _ => rfl
  | error e =>
    obtain ⟨rfl, hr⟩ := hr
    exact ⟨rfl, hr.record_waited (by rintro ⟨⟩) fun _ _ => rfl⟩
  | running => exact hr

theorem triple_waitForIrq (fuel : ℕ) :
    Triple (At l₀ (· = .armed)) (waitForIrq fuel : Driver δ Unit) (AfterReturn l₀) :=
  triple_returning (triple_getTicks_armed.bind_ok fun start => triple_waitForIrqFrom start fuel)

/-! ## Commands and resets -/

theorem avoids_timedOut_portReadByte (port : BitVec 16) :
    Avoids .timedOut (portReadByte port : Driver δ Byte) := fun _ => nofun

theorem avoids_timedOut_portWriteByte (role : Role) (port : BitVec 16) (v : Byte) :
    Avoids .timedOut (portWriteByte role port v : Driver δ Unit) := fun _ => nofun

theorem avoids_timedOut_readMsrUntilRqm : Avoids .timedOut (readMsrUntilRqm : Driver δ Byte) := by
  have hfrom : ∀ n, Avoids .timedOut (readMsrUntilRqmFrom n : Driver δ Byte) := by
    intro n
    induction n with
    | zero => exact .throw nofun
    | succ n ih =>
      refine (avoids_timedOut_portReadByte _).bind fun msr => ?_
      split_ifs
      · exact .pure msr
      · exact ih
  exact hfrom _

theorem avoids_timedOut_sendParametersFrom (i n : ℕ) :
    Avoids .timedOut (sendParametersFrom i n : Driver δ Unit) := by
  induction n generalizing i with
  | zero => exact .pure ()
  | succ n ih =>
    refine avoids_timedOut_readMsrUntilRqm.bind fun msr => ?_
    refine Avoids.bind (.assert nofun) fun _ => ?_
    exact (Avoids.get _).bind fun p =>
      (avoids_timedOut_portWriteByte _ _ _).bind fun _ => ih (i + 1)

theorem avoids_timedOut_receiveResults (c : Command) :
    Avoids .timedOut (receiveResults c : Driver δ Unit) := by
  have hone : ∀ i status, Avoids .timedOut (receiveResult i status : Driver δ Unit) := by
    intro i status
    refine (avoids_timedOut_portReadByte _).bind fun v => (Avoids.modify _).bind fun _ => ?_
    exact avoids_timedOut_readMsrUntilRqm.bind fun msr => Avoids.assert nofun
  have hfrom : ∀ i n, Avoids .timedOut (receiveResultsFrom i n : Driver δ Unit) := by
    intro i n
    induction n generalizing i with
    | zero => exact .pure ()
    | succ n ih => exact (hone i _).bind fun _ => ih (i + 1)
  exact Avoids.when ((hfrom _ _).bind fun _ => hone _ _)

/-- Where the driver may be when a command has come to an outcome. -/
def Final (r : Outcome Error Unit) (p : Phase) : Prop :=
  p.Settled ∧ (r = .ok () → p = .returned (.ok ())) ∧
    (r = .error .timedOut → p = .returned (.error .timedOut))

omit [Device δ] in
/-- A part of a command that does not wait, and what follows it. -/
theorem triple_bind_calm {α : Type} {q : Phase} {f : Driver δ α} {g : α → Driver δ Unit}
    (hq : q.Calm) (hf : Keeps (Preserves (At l₀ (· = q))) f) (ha : Avoids .timedOut f)
    (hg : ∀ a, Triple (At l₀ (· = q)) (g a) fun r => At l₀ (Final r)) :
    Triple (At l₀ (· = q)) (f >>= g) fun r => At l₀ (Final r) := by
  refine (ha.triple hf.triple).bind ?_ ?_ ?_
  · exact fun a s hs => hg a s hs.1
  · rintro e s ⟨hs, he⟩
    refine hs.mono ?_
    rintro p rfl
    exact ⟨hq.settled, nofun, fun hr => absurd (by cases hr; rfl) he⟩
  · rintro s ⟨hs, -⟩
    refine hs.mono ?_
    rintro p rfl
    exact ⟨hq.settled, nofun, nofun⟩

theorem triple_sendCommand {c : Command} (hc : commandHasInterrupt c = true) (fuel : ℕ) :
    Triple (At l₀ (· = .idle)) (sendCommand fuel c : Driver δ Unit) fun r => At l₀ (Final r) := by
  have hcalm : ∀ q : Phase, q.Calm → ∀ p, p = q → p.Calm := by
    rintro q hq p rfl
    exact hq
  have hidle := hcalm .idle trivial
  have harmed := hcalm .armed trivial
  rw [sendCommand, sendParameters, hc]
  refine triple_bind_calm trivial (keeps_portReadByte hidle _) (avoids_timedOut_portReadByte _) ?_
  intro msr
  refine triple_bind_calm trivial (Keeps.assert _ _) (Avoids.assert nofun) fun _ => ?_
  refine triple_bind_calm trivial (keeps_portWriteByte hidle _ _ _)
    (avoids_timedOut_portWriteByte _ _ _) fun _ => ?_
  refine triple_setWaiting.bind_ok fun _ => ?_
  refine triple_bind_calm trivial
    (keeps_sendParametersFrom (keeps_portReadByte harmed _) (keeps_portWriteByte harmed _ _) _ _)
    (avoids_timedOut_sendParametersFrom _ _) fun _ => ?_
  refine (triple_waitForIrq fuel).bind ?_ ?_ ?_
  · -- The result bytes are read behind the wait.
    rintro a s hs
    replace hs : At l₀ (· = .returned (.ok ())) s := hs
    have hk := keeps_receiveResults (keeps_portReadByte (hcalm (.returned (.ok ())) trivial))
      (fun s _ hs => At.congr hs rfl rfl rfl) c s hs
    refine hk.mono ?_
    rintro p rfl
    exact ⟨⟨nofun, nofun⟩, fun _ => rfl, fun hr => absurd hr (avoids_timedOut_receiveResults c s)⟩
  · rintro e s ⟨rfl, hs⟩
    refine hs.mono ?_
    rintro p rfl
    exact ⟨⟨nofun, nofun⟩, nofun, fun _ => rfl⟩
  · exact fun s hs => hs.mono fun p hp => ⟨hp, nofun, nofun⟩

/-! ### The choice of a drive -/

section Returned

variable {r₀ : ErrorOr Unit}

theorem keeps_getTicks_returned :
    Keeps (Preserves (At l₀ (· = .returned r₀))) (getTicks : Driver δ ℕ) := by
  intro s hs
  have ht := hs.turn (settled_of_eq ⟨nofun, nofun⟩)
  exact ht.stepFrom rfl fun _ _ ha => ⟨_, rfl, ha.next rfl rfl nofun nofun, rfl⟩

theorem keeps_halt_returned :
    Keeps (Preserves (At l₀ (· = .returned r₀))) (halt : Driver δ Unit) := by
  intro s hs
  have ht := hs.turn (settled_of_eq ⟨nofun, nofun⟩)
  have hh : At l₀ (· = .returned r₀) (s.turn.record .halt) :=
    ht.stepFrom rfl fun _ _ ha => ⟨_, rfl, ha.next rfl rfl nofun nofun, rfl⟩
  exact hh.interrupt (settled_of_eq ⟨nofun, nofun⟩) _

/-- A command without an interrupt does not touch the handshake. -/
theorem keeps_sendCommand (hP : ∀ p, P p → p.Calm) {c : Command}
    (hc : commandHasInterrupt c = false) (fuel : ℕ) :
    Keeps (Preserves (At l₀ P)) (sendCommand fuel c : Driver δ Unit) := by
  rw [sendCommand, sendParameters, hc]
  refine (keeps_portReadByte hP _).bind fun msr => (Keeps.assert _ _).bind fun _ => ?_
  refine (keeps_portWriteByte hP _ _ _).bind fun _ => (Keeps.pure ()).bind fun _ => ?_
  refine (keeps_sendParametersFrom (keeps_portReadByte hP _) (keeps_portWriteByte hP _ _)
    _ _).bind fun _ => (Keeps.pure ()).bind fun _ => ?_
  exact keeps_receiveResults (keeps_portReadByte hP) (fun s _ hs => At.congr hs rfl rfl rfl) c

theorem keeps_selectDrive_returned (fuel : ℕ) (drive : Byte) (motorOn : Bool) :
    Keeps (Preserves (At l₀ (· = .returned r₀)))
      (selectDrive fuel drive motorOn : Driver δ Unit) := by
  have hP : ∀ p : Phase, p = .returned r₀ → p.Calm := by
    rintro p rfl
    trivial
  exact keeps_selectDrive (fun _ _ hs => hs.congr rfl rfl rfl)
    (fun _ _ _ hs => hs.congr rfl rfl rfl) (keeps_portWriteByte hP .setting _)
    (keeps_portWriteByte hP .setting _) (keeps_sendCommand hP rfl fuel) keeps_getTicks_returned
    keeps_halt_returned drive motorOn

end Returned

/-- A wait does not change the drive. -/
theorem keeps_currentDrive_waitForIrq (d : Byte) (fuel : ℕ) :
    Keeps (Preserves fun s => s.currentDrive = d) (waitForIrq fuel : Driver δ Unit) := by
  have hticks : Keeps (Preserves fun s => s.currentDrive = d) (getTicks : Driver δ ℕ) :=
    fun s hs => s.currentDrive_turn.trans hs
  have htest : Keeps (Preserves fun s => s.currentDrive = d) (testWaiting : Driver δ Bool) :=
    fun s hs => s.currentDrive_turn.trans hs
  have hhalt : Keeps (Preserves fun s => s.currentDrive = d) (halt : Driver δ Unit) := by
    intro s hs
    rw [← hs, ← s.currentDrive_turn, halt]
    cases (s.turns 0).wake <;> rfl
  exact keeps_waitForIrq hticks htest hhalt (fun _ _ hs => hs) fuel

/-- A command that is given up has failed in each of its attempts. -/
theorem failsTimes_executeCommandFrom {fuel n : ℕ} {c : Command} {e : Error}
    (h : (executeCommandFrom fuel c n s).1 = .error e) :
    FailsTimes (sendCommand fuel c) n s (executeCommandFrom fuel c n s).2 := by
  induction n generalizing s with
  | zero => exact .zero s
  | succ n ih =>
    rw [executeCommandFrom] at h ⊢
    rcases hc : sendCommand fuel c s with ⟨r, s₁⟩
    cases r with
    | error e' =>
      rw [orElse_of_error hc] at h ⊢
      exact .succ hc (ih h)
    | ok a =>
      rw [orElse, hc] at h
      cases h
    | running =>
      rw [orElse, hc] at h
      cases h

/-- The choice of a drive only times out if the drive is another one, and the command for
    this fails in all its attempts. -/
theorem triple_selectDrive_timedOut {R : State δ → Prop} (fuel : ℕ) (d drive : Byte)
    (motorOn : Bool)
    (hwrite : Keeps (Preserves R) (portWriteByte .setting configurationControlRegister 0))
    (hset : ∀ s bytes, R s → R { s with parameterBytes := bytes }) :
    Triple (fun s => R s ∧ s.currentDrive = d) (selectDrive fuel drive motorOn : Driver δ Unit)
      fun r s => r = .error .timedOut → d ≠ drive ∧
        ∃ t, R t ∧ FailsTimes (sendCommand fuel .specify) commandAttemptCount t s := by
  rintro s ⟨hs, rfl⟩ htime
  by_cases hdrive : drive < 4
  swap
  · rw [selectDrive, bind_assert_of_false (decide_eq_false hdrive)] at htime
    exact nomatch htime
  rw [selectDrive, bind_assert_of_true (decide_eq_true hdrive), bind_get] at htime ⊢
  -- Nothing behind the command times out.
  have hcommand := Avoids.eq_of_bind (fun _ => (Avoids.get _).bind fun _ => (Avoids.get _).bind
    fun _ => (Avoids.when (avoids_timedOut_portWriteByte _ _ _)).bind fun _ =>
      (Avoids.modify _).bind fun _ => avoids_sleep _ fuel _) htime
  by_cases h : s.currentDrive = drive
  · -- The drive does not change, so that there is no command.
    rw [decide_eq_false (not_not.2 h)] at hcommand
    exact nomatch congrArg Prod.fst hcommand
  rw [decide_eq_true h] at hcommand ⊢
  refine ⟨h, ?_⟩
  -- The setting has been written, and the parameters have been set, before the attempts.
  obtain ⟨bytes, hbytes⟩ := setParametersFrom_eq 0 [(8 <<< 4) ||| 0, (5 <<< 1) ||| 0]
    (portWriteByte .setting configurationControlRegister 0 s).2
  have heq : (when true (do
      portWriteByte .setting configurationControlRegister 0
      executeCommand fuel .specify [(8 <<< 4) ||| 0, (5 <<< 1) ||| 0]) : Driver δ Unit) s =
      executeCommandFrom fuel .specify commandAttemptCount
        { (portWriteByte .setting configurationControlRegister 0 s).2 with
          parameterBytes := bytes } := by
    have hw : portWriteByte .setting configurationControlRegister 0 s =
        (.ok (), (portWriteByte .setting configurationControlRegister 0 s).2) := rfl
    rw [when, if_pos rfl, bind_of_ok hw, executeCommand, bind_of_ok hbytes]
  rw [heq] at hcommand
  have hfails := failsTimes_executeCommandFrom (congrArg Prod.fst hcommand)
  rw [hcommand] at hfails
  exact ⟨_, hset _ bytes (hwrite s hs), hfails⟩

/-- Where the driver may be when a reset has come to an outcome, if the drive was `d`:
    it also times out if it changes the drive, and the command for this fails in all its
    attempts behind the wait. -/
structure FinalReset (l₀ : List (Event δ)) (fuel : ℕ) (d drive : Byte) (r : Outcome Error Unit)
    (s : State δ) : Prop where
  settled : At l₀ Phase.Settled s
  ok : r = .ok () → At l₀ (· = .returned (.ok ())) s
  timedOut : r = .error .timedOut → At l₀ (· = .returned (.error .timedOut)) s ∨
    At l₀ (· = .returned (.ok ())) s ∧ d ≠ drive ∧ ∃ t, At l₀ (· = .returned (.ok ())) t ∧
      FailsTimes (sendCommand fuel .specify) commandAttemptCount t s

theorem triple_reset (fuel : ℕ) (d drive : Byte) (motorOn : Bool) :
    Triple (fun s => At l₀ (· = .idle) s ∧ s.currentDrive = d)
      (reset fuel drive motorOn : Driver δ Unit) (FinalReset l₀ fuel d drive) := by
  have hset : Triple (fun s => At l₀ (· = .idle) s ∧ s.currentDrive = d)
      (setWaiting : Driver δ Unit)
      fun r s => ∃ a, r = .ok a ∧ At l₀ (· = .armed) s ∧ s.currentDrive = d := by
    rintro s ⟨hs, hd⟩
    obtain ⟨a, hr, hs'⟩ := triple_setWaiting s hs
    exact ⟨a, hr, hs', s.currentDrive_turn.trans hd⟩
  have hwrite : Triple (fun s => At l₀ (· = .armed) s ∧ s.currentDrive = d)
      (portWriteByte .setting datarateSelectRegister 0x80 : Driver δ Unit)
      fun r s => ∃ a, r = .ok a ∧ At l₀ (· = .armed) s ∧ s.currentDrive = d := by
    rintro s ⟨hs, hd⟩
    have hk := keeps_portWriteByte (P := (· = .armed)) (by rintro p rfl; trivial) .setting
      datarateSelectRegister 0x80 s hs
    exact ⟨(), rfl, hk, s.currentDrive_turn.trans hd⟩
  have hsettled : ∀ r (s : State δ), At l₀ (· = .returned r) s → At l₀ Phase.Settled s :=
    fun r s hs => hs.mono (settled_of_eq ⟨nofun, nofun⟩)
  refine hset.bind_ok fun _ => hwrite.bind_ok fun _ => ?_
  refine ((triple_waitForIrq fuel).and (keeps_currentDrive_waitForIrq d fuel).triple).bind ?_ ?_ ?_
  · -- The wait has succeeded: only the command for another drive can still time out.
    rintro a s ⟨hs, hd⟩
    replace hs : At l₀ (· = .returned (.ok ())) s := hs
    have hend := keeps_selectDrive_returned fuel drive motorOn s hs
    have htime := triple_selectDrive_timedOut fuel d drive motorOn
      (keeps_portWriteByte (by rintro p rfl; trivial) _ _ _)
      (fun _ _ hs => At.congr hs rfl rfl rfl) s ⟨hs, hd⟩
    exact ⟨hsettled _ _ hend, fun _ => hend, fun ht => .inr ⟨hend, htime ht⟩⟩
  · rintro e s ⟨⟨rfl, hs⟩, -⟩
    exact ⟨hsettled _ _ hs, nofun, fun _ => .inl hs⟩
  · exact fun s hs => ⟨hs.1, nofun, nofun⟩

omit [Device δ] in
/-- A wait that has returned is in the log. -/
theorem At.mem_waited {r : ErrorOr Unit} (hs : At l₀ (· = .returned r) s) :
    ∃ l, s.log = l₀ ++ l ∧ .waited r ∈ l := by
  obtain ⟨l, h, hl, hr, -, hp⟩ := hs
  exact ⟨l, hl, (history_of_run hr).returned _ hp⟩

/-- The events of a command that interrupts, and those of a reset, are a handshake,
    for every device and whatever happens between the steps. If they succeed, the wait
    did. If the command times out, the wait did; if a reset times out, the wait did, or
    the drive was another one and the command to change it failed in all its attempts
    behind the wait. -/
theorem handshaken_sendCommand_reset (fuel : ℕ) (s : State δ) :
    (∀ c, commandHasInterrupt c = true → ∃ l, (sendCommand fuel c s).2.log = s.log ++ l ∧
      Handshaken l ∧ ((sendCommand fuel c s).1 = .ok () → .waited (.ok ()) ∈ l) ∧
      ((sendCommand fuel c s).1 = .error .timedOut → .waited (.error .timedOut) ∈ l)) ∧
    ∀ drive motorOn, ∃ l, (reset fuel drive motorOn s).2.log = s.log ++ l ∧
      Handshaken l ∧ ((reset fuel drive motorOn s).1 = .ok () → .waited (.ok ()) ∈ l) ∧
      ((reset fuel drive motorOn s).1 = .error .timedOut →
        .waited (.error .timedOut) ∈ l ∨ .waited (.ok ()) ∈ l ∧ s.currentDrive ≠ drive ∧
          ∃ t l', t.log = s.log ++ l' ∧ .waited (.ok ()) ∈ l' ∧
            FailsTimes (sendCommand fuel .specify) commandAttemptCount t
              (reset fuel drive motorOn s).2) := by
  have hstart : At s.log (· = .idle) s :=
    ⟨[], Handshake.start, by simp, rfl, ⟨fun hi => absurd rfl hi, nofun⟩, rfl⟩
  constructor
  · intro c hc
    obtain ⟨l, h, hl, hr, -, hset, hok, htime⟩ := triple_sendCommand hc fuel s hstart
    have hp := history_of_run hr
    exact ⟨l, hl, handshaken_of_run hr hset, fun h => hp.returned _ (hok h),
      fun h => hp.returned _ (htime h)⟩
  · intro drive motorOn
    obtain ⟨⟨l, h, hl, hr, -, hset⟩, hok, htime⟩ :=
      triple_reset fuel s.currentDrive drive motorOn s ⟨hstart, rfl⟩
    have hmem : ∀ r, At s.log (· = .returned r) (reset fuel drive motorOn s).2 →
        .waited r ∈ l := by
      intro r hs
      obtain ⟨l', hl', hr⟩ := hs.mem_waited
      rw [hl, List.append_cancel_left_eq] at hl'
      exact hl' ▸ hr
    refine ⟨l, hl, handshaken_of_run hr hset, fun h => hmem _ (hok h), fun h => ?_⟩
    rcases htime h with hs | ⟨hs, hd, t, ht, hfails⟩
    · exact .inl (hmem _ hs)
    · obtain ⟨l', hl', hr⟩ := ht.mem_waited
      exact .inr ⟨hmem _ hs, hd, t, l', hl', hr, hfails⟩

/-- An interrupt in front of the step `n`, and ticks otherwise, if the driver halts. -/
def interruptAt (n : ℕ) : ℕ → Turn := fun i => ⟨if i = n then [.interrupt .floppy] else [], .timer⟩

/-- An interrupt in front of the last parameter of a seek is not lost. -/
theorem handshaken_seek :
    Handshaken (sendCommand 2 .seek (.start (Controller.expecting 0) (interruptAt 5))).2.log ∧
      .waited (.ok ()) ∈
        (sendCommand 2 .seek (.start (Controller.expecting 0) (interruptAt 5))).2.log := by
  obtain ⟨l, hl, hh, hok, -⟩ := (handshaken_sendCommand_reset 2
    (.start (Controller.expecting 0) (interruptAt 5))).1 .seek rfl
  rw [hl]
  exact ⟨hh, hok (by decide +kernel)⟩

/-- Looks at the time that find a tick over. -/
def Event.findsTick : Event δ → Bool
  | .getTicks n => n ≠ 0
  | _ => false

/-- A reset that changes the drive times out without any tick, if the wait succeeds
    and the controller does not take the command behind it. -/
theorem reset_timedOut_without_ticks :
    (reset 2 1 true (.start (Controller.expecting 9) (interruptAt 2))).1 = .error .timedOut ∧
      ∀ e ∈ (reset 2 1 true (.start (Controller.expecting 9) (interruptAt 2))).2.log,
        e.findsTick = false := by
  refine ⟨by decide +kernel, fun e he => ?_⟩
  have hall : ((reset 2 1 true (.start (Controller.expecting 9) (interruptAt 2))).2.log.any
    Event.findsTick) = false := by decide +kernel
  exact Bool.eq_false_iff.2 fun h => List.any_eq_false.1 hall e he h

end KessokuOS.Floppy
