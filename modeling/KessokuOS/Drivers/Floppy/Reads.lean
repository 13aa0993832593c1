import KessokuOS.Drivers.Floppy.DataPort
import KessokuOS.Drivers.Floppy.Framing
import KessokuOS.Drivers.Floppy.SelectDrive

/-!
# Reads that succeed

An attempt at a command that is given up among its parameters leaves a controller that takes
the next command byte for a parameter, and the driver has no way to tell. No read is reported
as done because of this: for one more command than it expects parameters for, the controller
is never ready (`triple_sendCommand_lost`). It stays lost, and so do all the reads behind it.

* `taken`: the commands that the controller has taken whole, with their parameters;
* `obeyed_visits`: in any reads behind the initialisation, for every controller and whatever
  happens between the steps, what the controller has taken when one of them succeeds is the
  command to read its cylinder, and nothing else.
-/

namespace KessokuOS.Floppy

open Routine

/-! ## What the controller has taken -/

/-- The parameters so far of the command under way, and the commands that are whole. -/
structure Intake where
  parameters : List Byte
  taken : List (Command × List Byte)
  deriving DecidableEq, Repr

namespace Intake

def start : Intake := ⟨[], []⟩

/-- A command, which is whole if it has no parameters. -/
def command (t : Intake) (c : Command) : Intake :=
  if c.getParameterCount = 0 then ⟨[], t.taken ++ [(c, [])]⟩ else ⟨[], t.taken⟩

/-- A parameter, which makes the command whole if it is the last one. -/
def parameter (t : Intake) (c : Command) (left : ℕ) (v : Byte) : Intake :=
  if left ≤ 1 then ⟨[], t.taken ++ [(c, t.parameters ++ [v])]⟩ else ⟨t.parameters ++ [v], t.taken⟩

/-- A byte on the data port, as far as the controller is ready for it. -/
def step (t : Intake) : Event Controller → Intake
  | .writeByte _ port v d =>
    if port = dataFifo ∧ d.delay = 0 then
      match d.phase with
      | .command =>
        match Command.ofByte v with
        | some c => t.command c
        | none => ⟨[], t.taken⟩
      | .parameter c left => t.parameter c left v
      | _ => t
    else t
  | _ => t

end Intake

/-- The commands in a log that the controller has taken whole. -/
def taken (l : List (Event Controller)) : List (Command × List Byte) :=
  (l.foldl Intake.step Intake.start).taken

/-- Nothing is written to the data port. -/
def Unwritten : Event Controller → Prop
  | .writeByte _ port _ _ => port ≠ dataFifo
  | _ => True

theorem Intake.step_of_unwritten {e : Event Controller} (h : Unwritten e) (t : Intake) :
    t.step e = t := by
  cases e with
  | writeByte role port v d => exact if_neg fun hport => h hport.1
  | _ => rfl

/-- What has been taken since `l₀` meets `T`. -/
def Gave (l₀ : List (Event Controller)) (T : Intake → Prop) : State Controller → Prop :=
  Since l₀ fun l => T (l.foldl Intake.step Intake.start)

variable {l₀ : List (Event Controller)} {T U : Intake → Prop} {s s' : State Controller}

theorem Gave.mono (h : Gave l₀ T s) (hT : ∀ t, T t → U t) : Gave l₀ U s := by
  obtain ⟨l, hl, ht⟩ := h
  exact ⟨l, hl, hT _ ht⟩

theorem Gave.step {e : Event Controller} (h : Gave l₀ T s) (hl : s'.log = s.log ++ [e])
    (hT : ∀ t, T t → U (t.step e)) : Gave l₀ U s' :=
  Since.step h hl fun l ht => by
    rw [List.foldl_concat]
    exact hT _ ht

theorem Gave.logs (h : Gave l₀ T s) (hl : Logs Unwritten s s') : Gave l₀ T s' := by
  refine Since.logs (fun l e ht he => ?_) h hl
  rw [List.foldl_concat, Intake.step_of_unwritten he]
  exact ht

/-! ## The controller between the steps -/

namespace Controller

variable {d : Controller}

/-- The controller executes a read, or has result bytes. -/
def Busy (d : Controller) : Prop :=
  match d.phase with
  | .execution c => c = .readData
  | .result _ => True
  | _ => False

/-- The controller expects parameters of a read, or is busy. -/
def Lost (d : Controller) : Prop :=
  (∃ left ≤ 8, d.phase = .parameter .readData left) ∨ d.Busy

/-- What neither the end of a command nor a read of the status changes. -/
structure Stable (P : Controller → Prop) : Prop where
  finish : ∀ d, P d → P d.finish
  delay : ∀ d n, P d → P { d with delay := n }

theorem Busy.finish (h : d.Busy) : d.finish.Busy := by
  rw [Controller.finish]
  split
  · next c hc =>
    rw [Busy, hc] at h
    obtain rfl : c = .readData := h
    trivial
  · exact h

/-- A busy controller is ready for no byte. -/
theorem Busy.not_ready (h : d.Busy) : ¬d.phase.status &&& 0xc0 = 0x80 := by
  rw [Busy] at h
  split at h
  · next hp => simp [hp, Phase.status]
  · next hp => simp [hp, Phase.status]
  · exact h.elim

theorem stable_busy : Stable Busy := ⟨fun _ h => h.finish, fun _ _ h => h⟩

theorem finish_of_phase {p : Phase} (h : d.phase = p) (hp : ∀ c, p ≠ .execution c) :
    d.finish = d :=
  finish_of_ne fun c hc => hp c (h.symm.trans hc)

theorem stable_phase {p : Phase} (hp : ∀ c, p ≠ .execution c) : Stable fun d => d.phase = p :=
  ⟨fun _ h => (finish_of_phase h hp).symm ▸ h, fun _ _ h => h⟩

/-- With RQM, the status shows the phase. -/
theorem status_of_rqm (h : d.status &&& 0x80 = 0x80) : d.delay = 0 ∧ d.status = d.phase.status := by
  rw [status] at h ⊢
  split_ifs at h ⊢ with hd
  · exact ⟨hd, rfl⟩
  · rw [BitVec.and_assoc] at h
    exact absurd h (by simp)

theorem stable_lost : Stable Lost := by
  refine ⟨fun d h => ?_, fun _ _ h => h⟩
  rcases h with ⟨left, hle, hp⟩ | h
  · rw [finish_of_phase hp nofun]
    exact .inl ⟨left, hle, hp⟩
  · exact .inr h.finish

end Controller

/-- What is known of a state: what has been taken, the parameters to be sent, and the
    controller. -/
structure Knows (l₀ : List (Event Controller)) (T : Intake → Prop) (ps : ℕ → Byte)
    (P : Controller → Prop) (s : State Controller) : Prop where
  gave : Gave l₀ T s
  parameters_eq : s.parameterBytes = ps
  device : P s.device

variable {ps : ℕ → Byte} {P Q : Controller → Prop}

theorem Knows.interrupt (h : Knows l₀ T ps P s) (i : Interrupt) :
    Knows l₀ T ps P (s.interrupt i) := by
  refine ⟨h.gave.logs (logs_interrupt (fun _ => trivial) i s), ?_, ?_⟩
  · rw [← h.parameters_eq]
    cases i <;> rfl
  · have hd : (s.interrupt i).device = s.device := by cases i <;> rfl
    rw [hd]
    exact h.device

theorem Knows.turn (h : Knows l₀ T ps P s) (hP : ∀ d, P d → P d.finish) :
    Knows l₀ T ps P s.turn :=
  State.turn_induction h (fun _ i hs => hs.interrupt i)
    (fun _ hs => ⟨hs.gave, hs.parameters_eq, hP _ hs.device⟩)
    fun _ _ hs => ⟨hs.gave, hs.parameters_eq, hs.device⟩

/-- A step that only records itself. -/
theorem Knows.record (h : Knows l₀ T ps P s) (hP : Controller.Stable P) {e : Event Controller}
    (he : Unwritten e) : Knows l₀ T ps P (s.turn.record e) :=
  have ht := h.turn hP.finish
  ⟨ht.gave.logs (logs_record he _), ht.parameters_eq, ht.device⟩

/-- A byte to the data port. -/
theorem Knows.write (h : Knows l₀ T ps P s) (hP : ∀ d, P d → P d.finish) (role : Role) (v : Byte)
    (hT : ∀ t d, T t → P d → U (t.step (.writeByte role dataFifo v d)))
    (hQ : ∀ d, P d → Q (d.writeData v)) :
    ∃ s', portWriteByte role dataFifo v s = (.ok (), s') ∧ Knows l₀ U ps Q s' := by
  have ht := h.turn hP
  exact ⟨_, rfl, ht.gave.step rfl fun t hU => hT t _ hU ht.device, ht.parameters_eq,
    hQ _ ht.device⟩

theorem knows_start (h : P s.device) : Knows s.log (fun _ => True) s.parameterBytes P s :=
  ⟨⟨[], (List.append_nil _).symm, trivial⟩, rfl, h⟩

section Keeps

variable (hP : Controller.Stable P)
include hP

theorem keeps_knows_status :
    Keeps (Preserves (Knows l₀ T ps P)) (portReadByte mainStatusRegister) := by
  intro s h
  have ht := h.turn hP.finish
  exact ⟨ht.gave.logs (logs_record trivial _), ht.parameters_eq, hP.delay _ _ ht.device⟩

theorem keeps_knows_setWaiting : Keeps (Preserves (Knows l₀ T ps P)) setWaiting := by
  intro s h
  have ht := h.record hP (e := .setWaiting) trivial
  exact ⟨ht.gave, ht.parameters_eq, ht.device⟩

theorem keeps_knows_waitForIrq (fuel : ℕ) :
    Keeps (Preserves (Knows l₀ T ps P)) (waitForIrq fuel) := by
  have hticks : Keeps (Preserves (Knows l₀ T ps P)) getTicks := fun _ h => h.record hP trivial
  have htest : Keeps (Preserves (Knows l₀ T ps P)) testWaiting := fun _ h => h.record hP trivial
  have hhalt : Keeps (Preserves (Knows l₀ T ps P)) halt := fun _ h =>
    (h.record hP (e := .halt) trivial).interrupt _
  exact keeps_waitForIrq hticks htest hhalt
    (fun _ _ h => ⟨h.gave.logs (logs_record trivial _), h.parameters_eq, h.device⟩) fuel

/-- The status shows the phase of a controller that is ready. -/
theorem triple_knows_readMsrUntilRqm : Triple (Knows l₀ T ps P) readMsrUntilRqm fun r s =>
    Knows l₀ T ps P s ∧ ∀ v, r = .ok v → s.device.delay = 0 ∧ v = s.device.phase.status := by
  have hfrom : ∀ n, Triple (Knows l₀ T ps P) (readMsrUntilRqmFrom n) fun r s =>
      Knows l₀ T ps P s ∧ ∀ v, r = .ok v → s.device.delay = 0 ∧ v = s.device.phase.status := by
    intro n
    induction n with
    | zero => exact fun s h => ⟨h, nofun⟩
    | succ n ih =>
      intro s h
      have h₁ := keeps_knows_status hP s h
      obtain ⟨s₁, heq, hd₁⟩ := portReadByte_status s
      rw [heq] at h₁
      rw [readMsrUntilRqmFrom, bind_of_ok heq]
      split_ifs with hrqm
      · obtain ⟨hdelay, hstatus⟩ := Controller.status_of_rqm hrqm
        have hzero : s₁.device.delay = 0 := by rw [hd₁, hdelay]
        have hphase : s₁.device.phase = s.turn.device.phase := by rw [hd₁]
        refine ⟨h₁, fun v hv => ⟨hzero, ?_⟩⟩
        obtain rfl := Outcome.ok.inj hv
        exact hstatus.trans (congrArg Controller.Phase.status hphase.symm)
      · exact ih s₁ h₁
  exact hfrom _

end Keeps

/-! ## The parameters of a read -/

/-- The command to read, with the parameters that are sent. -/
def readCommand (ps : ℕ → Byte) : Command × List Byte := (.readData, (List.range 8).map ps)

/-- The commands that are whole are at most `n` times the one to read. -/
def Copies (ps : ℕ → Byte) (n : ℕ) (t : Intake) : Prop :=
  ∃ m ≤ n, t.taken = List.replicate m (readCommand ps)

/-- There is one of them, at least. -/
def Copied (ps : ℕ → Byte) (n : ℕ) (t : Intake) : Prop :=
  ∃ m < n, t.taken = List.replicate (m + 1) (readCommand ps)

/-- The controller expects `left` parameters of a read, and is ready for the next one. -/
def Expects (left : ℕ) (d : Controller) : Prop :=
  d.phase = .parameter .readData left ∧ d.delay = 0

theorem Expects.finish {left : ℕ} (d : Controller) (h : Expects left d) :
    Expects left d.finish := by
  rw [Controller.finish_of_phase h.1 nofun]
  exact h

theorem Expects.step {left : ℕ} {d : Controller} (h : Expects left d) (role : Role) (v : Byte)
    (t : Intake) : t.step (.writeByte role dataFifo v d) = t.parameter .readData left v := by
  rw [Intake.step, if_pos ⟨rfl, h.2⟩, h.1]

theorem Expects.writeData {left : ℕ} {d : Controller} (h : Expects left d) (v : Byte) :
    d.writeData v = d.parameters .readData (left - 1) := by
  rw [Controller.writeData, if_pos h.2, h.1]

/-- How the sending of the parameters ends. -/
def Sent (l₀ : List (Event Controller)) (ps : ℕ → Byte) (n : ℕ) :
    Outcome Error Unit → State Controller → Prop
  | .ok (), s => Knows l₀ (Copied ps (n + 1)) ps Controller.Busy s
  | _, s => s.device.Lost

theorem sent_of_lost {n : ℕ} {r : Outcome Error Unit} (hr : r ≠ .ok ()) (hs : s.device.Lost) :
    Sent l₀ ps n r s := by
  cases r with
  | ok a => exact absurd rfl hr
  | error e => exact hs
  | running => exact hs

theorem stable_parameter (left : ℕ) :
    Controller.Stable fun d => d.phase = .parameter .readData left :=
  Controller.stable_phase nofun

/-- The controller behind a parameter, with `left` more to go. -/
def Behind (left : ℕ) (d : Controller) : Prop :=
  if left = 0 then d.Busy else d.phase = .parameter .readData left

theorem behind_parameters (left : ℕ) (d : Controller) :
    Behind left (d.parameters .readData left) := by
  rw [Controller.parameters, Behind]
  split_ifs <;> rfl

theorem stable_behind (left : ℕ) : Controller.Stable (Behind left) := by
  by_cases h : left = 0
  · rw [show Behind left = Controller.Busy from funext fun _ => if_pos h]
    exact Controller.stable_busy
  · rw [show Behind left = _ from funext fun _ => if_neg h]
    exact stable_parameter left

/-- A parameter that is expected is sent, or the sending ends with it. -/
theorem sendParametersFrom_succ {left i k : ℕ}
    (h : Knows l₀ T ps (fun d => d.phase = .parameter .readData left) s)
    (hT : ∀ t, T t → U (t.parameter .readData left (ps i))) :
    ((sendParametersFrom i (k + 1) s).1 ≠ .ok () ∧
        (sendParametersFrom i (k + 1) s).2.device.phase = .parameter .readData left) ∨
      ∃ s', sendParametersFrom i (k + 1) s = sendParametersFrom (i + 1) k s' ∧
        Knows l₀ U ps (Behind (left - 1)) s' := by
  obtain ⟨h₁, hmsr⟩ := triple_knows_readMsrUntilRqm (stable_parameter left) s h
  rcases heq : readMsrUntilRqm s with ⟨r, s₁⟩
  rw [heq] at h₁ hmsr
  rw [sendParametersFrom]
  cases r with
  | error e =>
    rw [bind_of_error heq]
    exact .inl ⟨by simp, h₁.device⟩
  | running =>
    rw [bind_of_running heq]
    exact .inl ⟨by simp, h₁.device⟩
  | ok v =>
    obtain ⟨hdelay, hv⟩ := hmsr v rfl
    have hexpects : Knows l₀ T ps (Expects left) s₁ :=
      ⟨h₁.gave, h₁.parameters_eq, h₁.device, hdelay⟩
    obtain ⟨s', hw, h'⟩ := hexpects.write (Q := Behind (left - 1)) Expects.finish
      .parameter (ps i) (fun t d ht hd => (hd.step .parameter (ps i) t).symm ▸ hT t ht)
      fun d hd => (hd.writeData (ps i)).symm ▸ behind_parameters (left - 1) d
    have hready : v &&& 0xc0 = 0x80 := by
      rw [hv, h₁.device]
      show (0x90 : Byte) &&& 0xc0 = 0x80
      decide
    rw [bind_of_ok heq, bind_assert_of_true (decide_eq_true hready), bind_get,
      show s₁.parameterBytes i = ps i from congrFun h₁.parameters_eq i, bind_of_ok hw]
    exact .inr ⟨s', rfl, h'⟩

/-- The parameters are taken one after the other, and make the command whole. -/
theorem triple_sendParametersFrom_readData {n i k : ℕ} (hi : i + (k + 1) = 8) :
    Triple (Knows l₀ (fun t => t.parameters = (List.range i).map ps ∧ Copies ps n t) ps
      fun d => d.phase = .parameter .readData (k + 1)) (sendParametersFrom i (k + 1))
      (Sent l₀ ps n) := by
  induction k generalizing i with
  | zero =>
    intro s h
    obtain rfl : i = 7 := by omega
    have hT : ∀ t : Intake, t.parameters = (List.range 7).map ps ∧ Copies ps n t →
        Copied ps (n + 1) (t.parameter .readData (0 + 1) (ps 7)) := by
      rintro t ⟨hp, m, hm, ht⟩
      refine ⟨m, Nat.lt_succ_of_le hm, ?_⟩
      rw [Intake.parameter, if_pos le_rfl, ht, hp, List.replicate_succ']
      rfl
    rcases sendParametersFrom_succ h hT with ⟨hr, hp⟩ | ⟨s', heq, h'⟩
    · exact sent_of_lost hr (.inl ⟨_, by omega, hp⟩)
    · rw [heq]
      exact ⟨h'.gave, h'.parameters_eq, h'.device⟩
  | succ k ih =>
    intro s h
    have hT : ∀ t : Intake, t.parameters = (List.range i).map ps ∧ Copies ps n t →
        (t.parameter .readData (k + 1 + 1) (ps i)).parameters = (List.range (i + 1)).map ps ∧
          Copies ps n (t.parameter .readData (k + 1 + 1) (ps i)) := by
      rintro t ⟨hp, hm⟩
      rw [Intake.parameter, if_neg (by omega), List.range_succ, List.map_append, hp]
      exact ⟨rfl, hm⟩
    rcases sendParametersFrom_succ (U := fun t => t.parameters = (List.range (i + 1)).map ps ∧
        Copies ps n t) h hT with ⟨hr, hp⟩ | ⟨s', heq, h'⟩
    · exact sent_of_lost hr (.inl ⟨_, by omega, hp⟩)
    · rw [heq]
      exact ih (by omega) s' ⟨h'.gave, h'.parameters_eq, h'.device⟩

/-- A routine ends without success, and with a controller that is lost. -/
def Fails (r : Outcome Error Unit) (s : State Controller) : Prop := r ≠ .ok () ∧ s.device.Lost

/-- A busy controller takes no parameter. -/
theorem triple_sendParametersFrom_busy (i k : ℕ) :
    Triple (fun s => s.device.Busy) (sendParametersFrom i (k + 1)) Fails := by
  intro s h
  obtain ⟨h₁, hmsr⟩ := triple_knows_readMsrUntilRqm Controller.stable_busy s (knows_start h)
  rcases heq : readMsrUntilRqm s with ⟨r, s₁⟩
  rw [heq] at h₁ hmsr
  have hlost : s₁.device.Lost := .inr h₁.device
  rw [sendParametersFrom]
  cases r with
  | error e =>
    rw [bind_of_error heq]
    exact ⟨by simp, hlost⟩
  | running =>
    rw [bind_of_running heq]
    exact ⟨by simp, hlost⟩
  | ok v =>
    have hready : ¬v &&& 0xc0 = 0x80 := by
      rw [(hmsr v rfl).2]
      exact h₁.device.not_ready
    rw [bind_of_ok heq, bind_assert_of_false (decide_eq_false hready)]
    exact ⟨by simp, hlost⟩

/-- Fewer parameters are taken than there are to be sent. -/
theorem triple_sendParametersFrom_lost {left k i : ℕ} (hk : left < k) (hle : left ≤ 8) :
    Triple (fun s => Behind left s.device) (sendParametersFrom i k) Fails := by
  induction k generalizing left i with
  | zero => exact absurd hk (Nat.not_lt_zero _)
  | succ k ih =>
    intro s h
    by_cases hleft : left = 0
    · rw [Behind, if_pos hleft] at h
      exact triple_sendParametersFrom_busy i k s h
    · rw [Behind, if_neg hleft] at h
      rcases sendParametersFrom_succ (U := fun _ => True) (knows_start h) (fun _ _ => trivial)
        with ⟨hr, hp⟩ | ⟨s', heq, h'⟩
      · exact ⟨hr, .inl ⟨left, hle, hp⟩⟩
      · rw [heq]
        exact ih (by omega) (by omega) s' h'.device

/-! ## The result bytes of a read -/

namespace Controller

variable {d : Controller}

/-- The controller is busy with a read, or expects a command. -/
def Done (d : Controller) : Prop := d.Busy ∨ d.phase = .command

theorem stable_command : Stable fun d => d.phase = .command := stable_phase nofun

theorem stable_done : Stable Done :=
  ⟨fun d h => h.imp Busy.finish (stable_command.finish d), fun _ _ h => h⟩

theorem Done.readData (h : d.Done) : d.readData.2.Done := by
  rw [Controller.readData]
  split
  · split_ifs with hd hleft
    · exact .inr rfl
    · exact .inl trivial
    · exact h
  · exact h

theorem Done.readByte (h : d.Done) (port : BitVec 16) : (Device.readByte d port).2.Done := by
  change (if _ then d.readStatus else if _ then d.readData else (0, d)).2.Done
  split_ifs
  · exact h
  · exact h.readData
  · exact h

end Controller

theorem keeps_done_portReadByte (port : BitVec 16) :
    Keeps (Preserves (Knows l₀ T ps Controller.Done)) (portReadByte port) := by
  intro s h
  have ht := h.turn Controller.stable_done.finish
  exact ⟨ht.gave.logs (logs_record trivial _), ht.parameters_eq, ht.device.readByte port⟩

theorem keeps_done_receiveResults (c : Command) :
    Keeps (Preserves (Knows l₀ T ps Controller.Done)) (receiveResults c) :=
  keeps_receiveResults keeps_done_portReadByte
    (fun _ _ h => ⟨h.gave, h.parameters_eq, h.device⟩) c

/-- What all controllers are like. -/
theorem stable_true : Controller.Stable fun _ => True := ⟨fun _ _ => trivial, fun _ _ _ => trivial⟩

/-- Behind the last result byte, the controller expects a command: the driver looks. -/
theorem triple_receiveResult_command (i : ℕ) : Triple (fun _ => True) (receiveResult i 0x00)
    fun r (s : State Controller) => ∀ a, r = .ok a → s.device.phase = .command := by
  have hmsr : Triple (fun _ => True) readMsrUntilRqm fun r (s : State Controller) =>
      ∀ v, r = .ok v → v = s.device.phase.status := by
    intro s _ v hv
    exact ((triple_knows_readMsrUntilRqm stable_true s (knows_start trivial)).2 v hv).2
  have hread : Triple (fun _ => True) (portReadByte dataFifo : Driver Controller Byte)
      fun r s => ∀ a, r = .ok a → True :=
    fun _ _ _ _ => trivial
  have hmodify : ∀ f : State Controller → State Controller, Triple (fun _ => True)
      (modify f : Driver Controller Unit) fun r s => ∀ a, r = .ok a → True :=
    fun _ _ _ _ _ => trivial
  refine hread.bind_value fun v => (hmodify _).bind_value fun _ => hmsr.bind_value fun msr => ?_
  intro s h a ha
  by_cases hst : msr &&& 0x50 = 0x00
  · rw [assert, if_pos (decide_eq_true hst)]
    rw [h] at hst
    have hcommand : ∀ p : Controller.Phase, p.status &&& 0x50 = 0x00 → p = .command := by
      rintro (_ | _ | _ | _) hp
      · rfl
      all_goals exact absurd hp (by simp [Controller.Phase.status])
    exact hcommand _ hst
  · rw [assert, decide_eq_false hst] at ha
    have herror : ∀ e : Error, (.error e : Outcome Error Unit) ≠ .ok a := by simp
    exact absurd ha (herror _)

theorem triple_receiveResults_command {c : Command} (h : c.getResultByteCount ≠ 0) :
    Triple (fun _ => True) (receiveResults c) fun r (s : State Controller) =>
      ∀ a, r = .ok a → s.device.phase = .command := by
  rw [receiveResults, decide_eq_true h]
  have hfrom : Triple (fun _ => True)
      (receiveResultsFrom 0 (c.getResultByteCount - 1) : Driver Controller Unit)
      fun r s => ∀ a, r = .ok a → True :=
    fun _ _ _ _ => trivial
  exact hfrom.bind_value fun _ => triple_receiveResult_command _

/-! ## The command -/

/-- How attempts at a read end: with the command taken, or with a controller that expects a
    command, or is lost. -/
def Attempted (l₀ : List (Event Controller)) (ps : ℕ → Byte) (n : ℕ) :
    Outcome Error Unit → State Controller → Prop
  | .ok (), s => Knows l₀ (Copied ps n) ps (fun d => d.phase = .command) s
  | _, s => Knows l₀ (Copies ps n) ps (fun d => d.phase = .command) s ∨ s.device.Lost

theorem Fails.attempted {n : ℕ} {r : Outcome Error Unit} (h : Fails r s) :
    Attempted l₀ ps n r s := by
  cases r with
  | ok a => exact absurd rfl h.1
  | error e => exact .inr h.2
  | running => exact .inr h.2

theorem Copied.copies {n : ℕ} {t : Intake} (h : Copied ps n t) : Copies ps n t := by
  obtain ⟨m, hm, ht⟩ := h
  exact ⟨m + 1, hm, ht⟩

theorem Copies.mono {n k : ℕ} {t : Intake} (h : Copies ps n t) (hk : n ≤ k) : Copies ps k t := by
  obtain ⟨m, hm, ht⟩ := h
  exact ⟨m, hm.trans hk, ht⟩

theorem Copied.mono {n k : ℕ} {t : Intake} (h : Copied ps n t) (hk : n ≤ k) : Copied ps k t := by
  obtain ⟨m, hm, ht⟩ := h
  exact ⟨m, hm.trans_le hk, ht⟩

/-- Behind the parameters, the command is whole. -/
theorem triple_receive_readData (n : ℕ) : Triple (Knows l₀ (Copied ps n) ps Controller.Busy)
    (receiveResults .readData) (Attempted l₀ ps n) := by
  intro s h
  have hdone := keeps_done_receiveResults .readData s
    ⟨h.gave, h.parameters_eq, (.inl h.device : s.device.Done)⟩
  have hcommand := triple_receiveResults_command (c := .readData) (by decide) s trivial
  rcases heq : receiveResults .readData s with ⟨r, s'⟩
  rw [heq] at hdone hcommand
  have hfails : Knows l₀ (Copies ps n) ps (fun d => d.phase = .command) s' ∨ s'.device.Lost := by
    rcases hdone.device with hb | hp
    · exact .inr (.inr hb)
    · exact .inl ⟨hdone.gave.mono fun _ => Copied.copies, hdone.parameters_eq, hp⟩
  cases r with
  | ok a => exact ⟨hdone.gave, hdone.parameters_eq, hcommand a rfl⟩
  | error e => exact hfails
  | running => exact hfails

/-- What follows the command byte of a read. -/
theorem triple_sendParameters_readData (fuel n : ℕ) :
    Triple (Knows l₀ (fun t => t.parameters = (List.range 0).map ps ∧ Copies ps n t) ps
      fun d => d.phase = .parameter .readData 8) (sendParameters fuel .readData)
      (Attempted l₀ ps (n + 1)) := by
  have hlost : ∀ s : State Controller, s.device.phase = .parameter .readData 8 → s.device.Lost :=
    fun s h => .inl ⟨8, le_rfl, h⟩
  refine (keeps_knows_setWaiting (stable_parameter 8)).triple.bind (fun _ => ?_)
    (fun e s h => .inr (hlost s h.device)) fun s h => .inr (hlost s h.device)
  refine (triple_sendParametersFrom_readData rfl).bind (fun _ => ?_) (fun e s h => .inr h)
    fun s h => .inr h
  refine (keeps_knows_waitForIrq Controller.stable_busy fuel).triple.bind (fun _ => ?_)
    (fun e s h => .inr (.inr h.device)) fun s h => .inr (.inr h.device)
  exact triple_receive_readData (n + 1)

/-- An attempt from a controller that expects a command. -/
theorem triple_sendCommand_taken (fuel n : ℕ) :
    Triple (Knows l₀ (Copies ps n) ps fun d => d.phase = .command) (sendCommand fuel .readData)
      (Attempted l₀ ps (n + 1)) := by
  intro s h
  have h₁ := keeps_knows_status Controller.stable_command s h
  obtain ⟨s₁, heq, hd₁⟩ := portReadByte_status s
  rw [heq] at h₁
  rw [sendCommand, bind_of_ok heq]
  by_cases hready : s.turn.device.status &&& 0xc0 = 0x80
  · have hdelay : s₁.device.delay = 0 := by
      rw [hd₁, ((Controller.status_and_eq _).1 hready).1]
    have hexpects : Knows l₀ (Copies ps n) ps (fun d => d.phase = .command ∧ d.delay = 0) s₁ :=
      ⟨h₁.gave, h₁.parameters_eq, h₁.device, hdelay⟩
    obtain ⟨s', hw, h'⟩ := hexpects.write
      (U := fun t => t.parameters = (List.range 0).map ps ∧ Copies ps n t)
      (Q := fun d => d.phase = .parameter .readData 8)
      (fun d hd => by rwa [Controller.finish_of_phase hd.1 (by simp)]) .command
      Command.readData.toByte
      (fun t d ht hd => by
        rw [Intake.step, if_pos ⟨rfl, hd.2⟩, hd.1]
        exact ⟨rfl, ht⟩)
      fun d hd => by
        rw [Controller.writeData, if_pos hd.2, hd.1]
        rfl
    rw [bind_assert_of_true (decide_eq_true hready), bind_of_ok hw]
    exact triple_sendParameters_readData fuel n s' h'
  · rw [bind_assert_of_false (decide_eq_false hready)]
    exact .inl ⟨h₁.gave.mono fun _ ht => ht.mono (Nat.le_succ n), h₁.parameters_eq, h₁.device⟩

theorem triple_sendParameters_lost (fuel : ℕ) {left : ℕ} (hleft : left < 8) :
    Triple (fun s => Behind left s.device) (sendParameters fuel .readData) Fails := by
  have hset : Triple (fun s => Behind left s.device) setWaiting fun r s =>
      ∃ a, r = .ok a ∧ Behind left s.device := fun s h =>
    ⟨(), rfl, (keeps_knows_setWaiting (stable_behind left) s (knows_start h)).device⟩
  refine hset.bind_ok fun _ => ?_
  exact (triple_sendParametersFrom_lost hleft hleft.le).bind (fun _ _ h => absurd rfl h.1)
    (fun _ _ h => ⟨nofun, h.2⟩) fun _ h => ⟨nofun, h.2⟩

/-- An attempt from a controller that is lost. -/
theorem triple_sendCommand_lost (fuel : ℕ) :
    Triple (fun s => s.device.Lost) (sendCommand fuel .readData) Fails := by
  intro s h
  have hturn : s.turn.device.Lost :=
    ((knows_start h).turn Controller.stable_lost.finish).device
  by_cases hready : s.turn.device.Ready
  · obtain ⟨s₁, s₂, hs, -, -, hd₂⟩ := sendCommand_of_ready fuel .readData hready
    rcases hturn with ⟨left, hle, hp⟩ | hbusy
    · -- The command byte is taken for one of the parameters.
      have hexpects : Expects left s.turn.device := ⟨hp, hready.1⟩
      have h₂ : Behind (left - 1) s₂.device := by
        rw [hd₂, hexpects.writeData]
        exact behind_parameters _ _
      rw [hs]
      exact triple_sendParameters_lost fuel (by omega) s₂ h₂
    · have hstatus := (Controller.status_and_eq _).2 hready
      rw [Controller.status, if_pos hready.1] at hstatus
      exact absurd hstatus hbusy.not_ready
  · obtain ⟨s', hs, hd', -⟩ := sendCommand_of_busy fuel .readData hready
    rw [hs]
    refine ⟨by simp, ?_⟩
    rw [hd']
    exact hturn

/-- All attempts, with `n` copies of the command at most before them. -/
theorem triple_executeCommandFrom_taken (fuel k n : ℕ) :
    Triple (fun s => Knows l₀ (Copies ps n) ps (fun d => d.phase = .command) s ∨ s.device.Lost)
      (executeCommandFrom fuel .readData k) (Attempted l₀ ps (n + k)) := by
  induction k generalizing n with
  | zero => exact fun s h => h
  | succ k ih =>
    intro s h
    have hone : Attempted l₀ ps (n + 1) (sendCommand fuel .readData s).1
        (sendCommand fuel .readData s).2 := by
      rcases h with h | h
      · exact triple_sendCommand_taken fuel n s h
      · exact (triple_sendCommand_lost fuel s h).attempted
    rw [executeCommandFrom, orElse]
    rcases heq : sendCommand fuel .readData s with ⟨r, s'⟩
    rw [heq] at hone
    rw [← Nat.add_assoc, Nat.add_right_comm]
    cases r with
    | ok a => exact ⟨hone.gave.mono fun t ht => ht.mono (Nat.le_add_right _ _), hone.parameters_eq,
        hone.device⟩
    | error e => exact ih (n + 1) s' hone
    | running =>
      refine hone.imp_left fun h => ?_
      exact ⟨h.gave.mono fun t ht => ht.mono (Nat.le_add_right _ _), h.parameters_eq, h.device⟩

/-- The parameters are set one after the other. -/
theorem setParametersFrom_spec (i : ℕ) (l : List Byte) (s : State Controller) :
    ∃ bytes, setParametersFrom i l s = (.ok (), { s with parameterBytes := bytes }) ∧
      (List.range l.length).map (fun j => bytes (i + j)) = l ∧
      ∀ j < i, bytes j = s.parameterBytes j := by
  induction l generalizing i s with
  | nil => exact ⟨s.parameterBytes, rfl, rfl, fun _ _ => rfl⟩
  | cons p l ih =>
    obtain ⟨bytes, heq, hl, hbefore⟩ :=
      ih (i + 1) { s with parameterBytes := Function.update s.parameterBytes i p }
    have hi : bytes i = p := (hbefore i (Nat.lt_succ_self i)).trans (Function.update_self ..)
    refine ⟨bytes, heq, ?_, fun j hj => ?_⟩
    · rw [List.length_cons, List.range_succ_eq_map, List.map_cons, List.map_map, Nat.add_zero, hi]
      refine congrArg (p :: ·) ((List.map_congr_left fun j _ => ?_).trans hl)
      exact congrArg bytes (show i + (j + 1) = i + 1 + j by omega)
    · exact (hbefore j (by omega)).trans (Function.update_of_ne hj.ne _ _)

/-- The command is executed with its parameters, as long as nothing has been taken before. -/
theorem executeCommand_readData (fuel : ℕ) {l : List Byte} (hl : l.length = 8)
    (h : Knows l₀ (fun t => t.taken = []) ps (fun d => d.phase = .command) s) :
    ∃ bytes : ℕ → Byte, (List.range 8).map bytes = l ∧ Attempted l₀ bytes commandAttemptCount
      (executeCommand fuel .readData l s).1 (executeCommand fuel .readData l s).2 := by
  obtain ⟨bytes, heq, hbytes, -⟩ := setParametersFrom_spec 0 l s
  refine ⟨bytes, ?_, ?_⟩
  · rw [hl] at hbytes
    simpa only [Nat.zero_add] using hbytes
  · rw [executeCommand, bind_of_ok heq, ← Nat.zero_add commandAttemptCount]
    refine triple_executeCommandFrom_taken fuel _ 0 _ (.inl ⟨?_, rfl, h.device⟩)
    exact h.gave.mono fun t ht => ⟨0, le_rfl, ht⟩

/-- A controller that is lost is so behind all attempts. -/
theorem executeCommand_lost (fuel : ℕ) (l : List Byte) (h : s.device.Lost) :
    Fails (executeCommand fuel .readData l s).1 (executeCommand fuel .readData l s).2 := by
  have hfrom : ∀ k,
      Triple (fun s => s.device.Lost) (executeCommandFrom fuel .readData k) Fails := by
    intro k
    induction k with
    | zero => exact fun s h => ⟨nofun, h⟩
    | succ k ih => exact (triple_sendCommand_lost fuel).orElse ih fun _ _ h => h.2
  obtain ⟨bytes, heq, -⟩ := setParametersFrom_spec 0 l s
  rw [executeCommand, bind_of_ok heq]
  exact hfrom _ _ h

/-! ## The read of a cylinder -/

/-- What is written to other ports is no matter to the controller. -/
theorem keeps_knows_setting (hP : Controller.Stable P) (role : Role) {port : BitVec 16}
    (hport : port ≠ dataFifo) (v : Byte) :
    Keeps (Preserves (Knows l₀ T ps P)) (portWriteByte role port v) := by
  intro s h
  have ht := h.turn hP.finish
  have hd : Device.writeByte s.turn.device port v = s.turn.device := if_neg hport
  refine ⟨ht.gave.logs (logs_record (e := .writeByte role port v s.turn.device) hport _),
    ht.parameters_eq, ?_⟩
  change P (Device.writeByte s.turn.device port v)
  rw [hd]
  exact ht.device

/-- The selection of the drive that is selected is no command. -/
theorem keeps_knows_selectDrive (hP : Controller.Stable P) (fuel : ℕ) (drive : Byte)
    (motorOn : Bool) (hd : s.currentDrive = drive) (h : Knows l₀ T ps P s) :
    Knows l₀ T ps P (selectDrive fuel drive motorOn s).2 := by
  have hspecify : specifyDrive fuel drive s = (.ok (), s) := by
    rw [specifyDrive, bind_get, hd, decide_eq_false (not_not.2 rfl)]
    rfl
  have hticks : Keeps (Preserves (Knows l₀ T ps P)) getTicks := fun _ h => h.record hP trivial
  have hhalt : Keeps (Preserves (Knows l₀ T ps P)) halt := fun _ h =>
    (h.record hP (e := .halt) trivial).interrupt _
  have hrest : Keeps (Preserves (Knows l₀ T ps P)) (do
      chooseDrive drive motorOn
      sleep fuel diskSpinupWaitTime) := by
    refine Keeps.bind ?_ fun _ => keeps_sleep hticks hhalt fuel _
    refine (Keeps.get _).bind fun _ => (Keeps.get _).bind fun _ => ?_
    refine (Keeps.when (keeps_knows_setting hP _ (by decide) _)).bind fun _ => ?_
    exact fun _ h => ⟨h.gave, h.parameters_eq, h.device⟩
  rw [selectDrive_eq]
  by_cases hlt : drive < 4
  · rw [bind_assert_of_true (decide_eq_true hlt), bind_of_ok hspecify]
    exact hrest s h
  · rw [bind_assert_of_false (decide_eq_false hlt)]
    exact h

theorem currentDrive_selectDrive (fuel : ℕ) {drive : Byte} (motorOn : Bool)
    (hd : s.currentDrive = drive) : (selectDrive fuel drive motorOn s).2.currentDrive = drive := by
  have h := triple_selectDrive s.view fuel drive motorOn s rfl
  rcases heq : selectDrive fuel drive motorOn s with ⟨r, s'⟩
  rw [heq] at h
  cases r with
  | ok a => exact congrArg View.drive h.2
  | error e => exact (congrArg View.drive h).trans hd
  | running => exact h.elim (fun h => (congrArg View.drive h).trans hd) (congrArg View.drive)

/-- What is known of the drive in the states of a run of reads. -/
structure Steady (drive : Byte) (s : State Controller) : Prop where
  drive_eq : s.currentDrive = drive
  trusted : s.view.Trusted

theorem Steady.sameView {drive : Byte} (h : Steady drive s) (hs : SameView s s') :
    Steady drive s' where
  drive_eq := (congrArg View.drive hs).trans h.drive_eq
  trusted := by
    rw [show s'.view = s.view from hs]
    exact h.trusted

/-- The drive is selected, with its motor on. -/
def Turning (drive : Byte) (s : State Controller) : Prop :=
  s.view.writes.getLast? = some (dorValue drive true)

theorem steady_selectDrive (fuel : ℕ) {drive : Byte} (h : Steady drive s) :
    Steady drive (selectDrive fuel drive true s).2 ∧
      ((selectDrive fuel drive true s).1 = .ok () →
        Turning drive (selectDrive fuel drive true s).2) := by
  have hd := currentDrive_selectDrive fuel true h.drive_eq
  have hchosen := triple_selectDrive s.view fuel drive true s rfl
  rcases heq : selectDrive fuel drive true s with ⟨r, s'⟩
  rw [heq] at hd hchosen
  have hselect : s'.view = s.view.select drive true → Steady drive s' ∧ Turning drive s' :=
    fun hview => ⟨⟨hd, hview ▸ View.trusted_select (.inl h.trusted)⟩,
      by rw [Turning, hview]; exact View.getLast?_select (.inl h.trusted)⟩
  cases r with
  | ok a => exact ⟨(hselect hchosen.2).1, fun _ => (hselect hchosen.2).2⟩
  | error e => exact ⟨h.sameView hchosen, nofun⟩
  | running => exact ⟨hchosen.elim h.sameView fun hview => (hselect hview).1, nofun⟩

theorem sameView_setMode :
    Keeps SameView (Dma.setMode 2 0b10 true false 0b01 : Driver Controller Unit) := by
  have hport : ∀ port : BitVec 16, port ≠ digitalOutputRegister → ∀ v,
      Keeps SameView (portWriteByte .setting port v : Driver Controller Unit) :=
    fun port h v => sameView_portWriteByte _ h v
  exact (hport 0x0A (by decide) _).bind fun _ => (hport 0x0B (by decide) _).bind fun _ =>
    hport 0x0A (by decide) _

theorem keeps_knows_setMode (hP : Controller.Stable P) :
    Keeps (Preserves (Knows l₀ T ps P)) (Dma.setMode 2 0b10 true false 0b01) := by
  have hport : ∀ port : BitVec 16, port ≠ dataFifo → ∀ v,
      Keeps (Preserves (Knows l₀ T ps P)) (portWriteByte .setting port v) :=
    fun port h v => keeps_knows_setting hP _ h v
  exact (hport 0x0A (by decide) _).bind fun _ => (hport 0x0B (by decide) _).bind fun _ =>
    hport 0x0A (by decide) _

/-- Nothing is taken before the command. -/
theorem prepareRead_spec (hP : Controller.Stable P) (fuel : ℕ) {drive : Byte}
    (hs : Steady drive s) (h : Knows l₀ T ps P s) :
    Steady drive (prepareRead fuel drive s).2 ∧ Knows l₀ T ps P (prepareRead fuel drive s).2 ∧
      ((prepareRead fuel drive s).1 = .ok () → Turning drive (prepareRead fuel drive s).2) := by
  obtain ⟨hs₁, hturning⟩ := steady_selectDrive fuel hs
  have h₁ := keeps_knows_selectDrive hP fuel drive true hs.drive_eq h
  rcases heq : selectDrive fuel drive true s with ⟨r, s₁⟩
  rw [heq] at hs₁ hturning h₁
  rw [prepareRead]
  cases r with
  | ok a =>
    have hview := sameView_setMode s₁
    rw [bind_of_ok heq]
    refine ⟨hs₁.sameView hview, keeps_knows_setMode hP s₁ h₁, fun _ => ?_⟩
    rw [Turning, show _ = s₁.view from hview]
    exact hturning rfl
  | error e =>
    rw [bind_of_error heq]
    exact ⟨hs₁, h₁, by rintro ⟨⟩⟩
  | running =>
    rw [bind_of_running heq]
    exact ⟨hs₁, h₁, by rintro ⟨⟩⟩

/-- What a controller is like that reads have been tried with. -/
def Controller.Within (d : Controller) : Prop := d.phase = .command ∨ d.Lost

/-- The controller has taken the command to read the cylinder, at most once in each attempt,
    and nothing else. It expected a command before, and expects one again. -/
structure Obeyed (drive cylinder : Byte) (s s' : State Controller) : Prop where
  before : s.device.phase = .command
  behind : s'.device.phase = .command
  turning : Turning drive s'
  taken_eq : ∃ l, s'.log = s.log ++ l ∧ ∃ m < commandAttemptCount,
    taken l = List.replicate (m + 1) (.readData, [drive, cylinder, 0, 1, 2, 18, 0x1B, 0xFF])

theorem Attempted.within {n : ℕ} {r : Outcome Error Unit} (h : Attempted l₀ ps n r s) :
    s.device.Within := by
  cases r with
  | ok a => exact .inl h.device
  | error e => exact h.imp_left Knows.device
  | running => exact h.imp_left Knows.device

theorem readCylinder_spec (fuel : ℕ) {drive : Byte} (cylinder : Byte) (hs : Steady drive s)
    (hw : s.device.Within) : Steady drive (readCylinder fuel drive cylinder s).2 ∧
      (readCylinder fuel drive cylinder s).2.device.Within ∧
      ((readCylinder fuel drive cylinder s).1 = .ok () →
        Obeyed drive cylinder s (readCylinder fuel drive cylinder s).2) := by
  rw [readCylinder_eq]
  set l : List Byte := [drive, cylinder, 0, 1, 2, 18, 0x1B, 0xFF] with hl
  have hcommand : ∀ s₁ : State Controller, prepareRead fuel drive s = (.ok (), s₁) →
      s₁.currentDrive = drive → ((prepareRead fuel drive >>= fun _ => get State.currentDrive >>=
        fun currentDrive => executeCommand fuel .readData [(0 <<< 2) ||| currentDrive, cylinder, 0,
          1, 2, BitVec.ofNat 8 FloppyDisk.sectorsPerCylinder, 0x1B, 0xFF]) s) =
        executeCommand fuel .readData l s₁ := by
    intro s₁ heq hd
    rw [bind_of_ok heq, bind_get, hd]
    have hzero : (0 <<< 2) ||| drive = drive := by simp
    rw [hzero]
    rfl
  have hsteady := fun s₁ (h : Steady drive s₁) =>
    h.sameView (sameView_executeCommand fuel .readData l s₁)
  rcases hw with hp | hlost
  · have hstart : Knows s.log (fun t => t.taken = []) s.parameterBytes
        (fun d => d.phase = .command) s := ⟨⟨[], (List.append_nil _).symm, rfl⟩, rfl, hp⟩
    obtain ⟨hs₁, h₁, hturning⟩ := prepareRead_spec Controller.stable_command fuel hs hstart
    rcases heq : prepareRead fuel drive s with ⟨r, s₁⟩
    rw [heq] at hs₁ h₁ hturning
    cases r with
    | ok a =>
      rw [hcommand s₁ heq hs₁.drive_eq]
      obtain ⟨bytes, hbytes, hattempted⟩ := executeCommand_readData fuel (l := l) rfl h₁
      refine ⟨hsteady s₁ hs₁, hattempted.within, fun hok => ?_⟩
      rw [hok] at hattempted
      obtain ⟨events, hlog, m, hm, ht⟩ := hattempted.gave
      refine ⟨hp, hattempted.device, ?_, events, hlog, m, hm, ?_⟩
      · rw [Turning, show _ = s₁.view from sameView_executeCommand fuel .readData l s₁]
        exact hturning rfl
      · rw [taken, ht, readCommand, hbytes]
    | error e =>
      rw [bind_of_error heq]
      exact ⟨hs₁, .inl h₁.device, nofun⟩
    | running =>
      rw [bind_of_running heq]
      exact ⟨hs₁, .inl h₁.device, nofun⟩
  · obtain ⟨hs₁, h₁, -⟩ := prepareRead_spec Controller.stable_lost fuel hs (knows_start hlost)
    rcases heq : prepareRead fuel drive s with ⟨r, s₁⟩
    rw [heq] at hs₁ h₁
    cases r with
    | ok a =>
      rw [hcommand s₁ heq hs₁.drive_eq]
      have hfails := executeCommand_lost fuel l h₁.device
      exact ⟨hsteady s₁ hs₁, .inr hfails.2, fun hok => absurd hok hfails.1⟩
    | error e =>
      rw [bind_of_error heq]
      exact ⟨hs₁, .inr h₁.device, nofun⟩
    | running =>
      rw [bind_of_running heq]
      exact ⟨hs₁, .inr h₁.device, nofun⟩

/-! ## Behind the initialisation -/

/-- Of the state behind a part of a routine, nothing is known. -/
theorem triple_any {α : Type} {P : State Controller → Prop} (f : Driver Controller α) :
    Triple P f fun r _ => ∀ a, r = .ok a → True := fun _ _ _ _ => trivial

/-- Behind a command with result bytes that succeeds, the controller expects a command. -/
theorem triple_executeCommand_command (fuel : ℕ) {c : Command} (hc : c.getResultByteCount ≠ 0)
    (l : List Byte) : Triple (fun _ => True) (executeCommand fuel c l)
      fun r (s : State Controller) => ∀ a, r = .ok a → s.device.phase = .command := by
  have hsend : Triple (fun _ => True) (sendCommand fuel c)
      fun r (s : State Controller) => ∀ a, r = .ok a → s.device.phase = .command := by
    refine (triple_any _).bind_value fun _ => (triple_any _).bind_value fun _ => ?_
    refine (triple_any _).bind_value fun _ => (triple_any _).bind_value fun _ => ?_
    refine (triple_any _).bind_value fun _ => (triple_any _).bind_value fun _ => ?_
    exact triple_receiveResults_command hc
  refine (triple_any _).bind_value fun _ => ?_
  have hfrom : ∀ k, Triple (fun _ => True) (executeCommandFrom fuel c k)
      fun r (s : State Controller) => ∀ a, r = .ok a → s.device.phase = .command := by
    intro k
    induction k with
    | zero => exact fun s _ => nofun
    | succ k ih => exact hsend.orElse ih fun _ _ _ => trivial
  exact hfrom _

theorem keeps_phase_initializeChannel (bufferAddress : BitVec 32) (count : BitVec 16) :
    Keeps (Preserves fun s : State Controller => s.device.phase = .command)
      (Dma.initializeChannel 2 bufferAddress count) := by
  have hport : ∀ port : BitVec 16, port ≠ dataFifo → ∀ v,
      Keeps (Preserves fun s : State Controller => s.device.phase = .command)
        (portWriteByte .setting port v) :=
    fun port h v s hs =>
      (keeps_knows_setting Controller.stable_command .setting h v s (knows_start hs)).device
  exact (hport 0x0A (by decide) _).bind fun _ => (hport 0x0C (by decide) _).bind fun _ =>
    (hport 0x04 (by decide) _).bind fun _ => (hport 0x04 (by decide) _).bind fun _ =>
    (hport 0x81 (by decide) _).bind fun _ => (hport 0x0C (by decide) _).bind fun _ =>
    (hport 0x05 (by decide) _).bind fun _ => (hport 0x05 (by decide) _).bind fun _ =>
    hport 0x0A (by decide) _

/-- The initialisation ends with a command that has result bytes. -/
theorem triple_initializeFloppyDisk_command (fuel : ℕ) (dmaBuffer : BitVec 32) :
    Triple (fun _ => True) (initializeFloppyDisk fuel dmaBuffer)
      fun r (s : State Controller) => ∀ a, r = .ok a → s.device.phase = .command := by
  refine (triple_any _).bind_value fun _ => (triple_any _).bind_value fun _ => ?_
  refine (triple_any _).bind_value fun _ => (triple_any _).bind_value fun _ => ?_
  refine (triple_any _).bind_value fun _ => (triple_any _).bind_value fun _ => ?_
  refine (triple_any _).bind_value fun _ => (triple_any _).bind_value fun _ => ?_
  refine (triple_any _).bind_value fun _ => ?_
  refine (triple_executeCommand_command fuel (by decide) []).bind_value fun _ => ?_
  exact fun s hs _ _ => keeps_phase_initializeChannel _ _ s hs

/-- It selects the first drive. -/
theorem triple_initializeFloppyDisk_drive (fuel : ℕ) (dmaBuffer : BitVec 32) :
    Triple (fun _ => True) (initializeFloppyDisk fuel dmaBuffer)
      fun r (s : State Controller) => ∀ a, r = .ok a → s.view.drive = 0 := by
  have hkeeps : ∀ {α : Type} {f : Driver Controller α}, Keeps SameView f →
      Triple (fun s => s.view.drive = 0) f fun r s => ∀ a, r = .ok a → s.view.drive = 0 :=
    fun hf s hs _ _ => triple_view hf (fun x => x.drive = 0) s hs
  have hcommand : ∀ c ps, Triple (fun s => s.view.drive = 0)
      (executeCommand fuel c ps : Driver Controller Unit)
      fun r s => ∀ a, r = .ok a → s.view.drive = 0 :=
    fun c ps => hkeeps (sameView_executeCommand fuel c ps)
  have hreset : Triple (fun _ => True) (reset fuel 0 true : Driver Controller Unit)
      fun r s => ∀ a, r = .ok a → s.view.drive = 0 := by
    intro s _ _ hr
    have hchosen := triple_reset_view s.view fuel 0 true s rfl
    rw [hr] at hchosen
    exact congrArg View.drive hchosen.2
  refine (triple_any _).bind_value fun _ => (triple_any _).bind_value fun _ => ?_
  refine (triple_any _).bind_value fun _ => (triple_any _).bind_value fun _ => ?_
  refine (triple_any _).bind_value fun _ => (triple_any _).bind_value fun _ => ?_
  refine hreset.bind_value fun _ => (hcommand _ _).bind_value fun _ => ?_
  refine (hcommand _ _).bind_value fun _ => (hcommand _ _).bind_value fun _ => ?_
  exact hkeeps (sameView_initializeChannel _ _)

/-- For every controller and whatever happens between the steps: in any reads behind the
    initialisation, the controller has obeyed each one that succeeds. -/
theorem obeyed_visits (fuel : ℕ) (dmaBuffer : BitVec 32) (s : State Controller)
    (hinit : (initializeFloppyDisk fuel dmaBuffer s).1 = .ok ()) (cylinders : List Byte) :
    ∀ p ∈ Machine.visits (fun s c => readCylinder fuel 0 c s)
        (initializeFloppyDisk fuel dmaBuffer s).2 cylinders,
      (readCylinder fuel 0 p.2 p.1).1 = .ok () →
        Obeyed 0 p.2 p.1 (readCylinder fuel 0 p.2 p.1).2 := by
  have hstart : Steady 0 (initializeFloppyDisk fuel dmaBuffer s).2 :=
    ⟨triple_initializeFloppyDisk_drive fuel dmaBuffer s trivial () hinit,
      triple_initializeFloppyDisk fuel dmaBuffer s trivial () hinit⟩
  have hwithin : (initializeFloppyDisk fuel dmaBuffer s).2.device.Within :=
    .inl (triple_initializeFloppyDisk_command fuel dmaBuffer s trivial () hinit)
  have hvisits := @Machine.visits_induction _ _ _ (fun s c => readCylinder fuel 0 c s)
    (fun s : State Controller => Steady 0 s ∧ s.device.Within)
    (fun s c hs =>
      have h := readCylinder_spec fuel c hs.1 hs.2
      ⟨h.1, h.2.1⟩)
    _ ⟨hstart, hwithin⟩ cylinders
  exact fun p hp => (readCylinder_spec fuel p.2 (hvisits p hp).1 (hvisits p hp).2).2.2

/-- A controller that answers all commands at once. The disk has spun up at the second look
    behind the reset, and behind the first two selections of the drive. -/
def spinningState : State Controller :=
  .start { Controller.expecting 0 with bytes := fun _ => 0x90 } fun n =>
    ⟨[.advance, .interrupt .floppy] ++
      if n ∈ [23, 53, 96] then List.replicate diskSpinupWaitTime (.interrupt .timer) else [],
      .timer⟩

theorem obeyed_visits_sample :
    (initializeFloppyDisk 2 0x10000 spinningState).1 = .ok () ∧
      ∀ p ∈ Machine.visits (fun s c => readCylinder 2 0 c s)
          (initializeFloppyDisk 2 0x10000 spinningState).2 [2, 5],
        (readCylinder 2 0 p.2 p.1).1 = .ok () ∧ Obeyed 0 p.2 p.1 (readCylinder 2 0 p.2 p.1).2 := by
  have hinit : (initializeFloppyDisk 2 0x10000 spinningState).1 = .ok () := by decide +kernel
  have hok : ∀ p ∈ Machine.visits (fun s c => readCylinder 2 0 c s)
      (initializeFloppyDisk 2 0x10000 spinningState).2 [2, 5],
      (readCylinder 2 0 p.2 p.1).1 = .ok () := by
    decide +kernel
  have hobeyed := obeyed_visits 2 0x10000 spinningState hinit [2, 5]
  exact ⟨hinit, fun p hp => ⟨hok p hp, hobeyed p hp (hok p hp)⟩⟩

end KessokuOS.Floppy
