import KessokuOS.Drivers.Floppy.ReadData
import KessokuOS.Lib.Machine

/-!
# The selected drive

The digital output register selects a drive, and switches its motor; it is only written
when the driver believes that this changes something. For this the driver keeps the drive
it has selected last, and for each drive the motor it has asked for last, although a write
to the register switches the motors of all the other drives off.

What it believes of a drive that is not selected may be wrong, but is not used: selecting
another drive always writes the register. What it believes of the selected one is what the
register was written with (`Trusted`).

* `triple_selectDrive`, `triple_reset`: what a call does to these parts of the state
  (`View`), and that it leaves them when it fails;
* `Trusted.select`: behind a call that succeeds, the register is as if it had been written;
* `triple_initializeFloppyDisk`: the initialisation makes a view that can be trusted;
* `selected_visits`: the same for any calls behind the initialisation, for every device and
  whatever happens between the steps.
-/

namespace KessokuOS.Floppy

open Routine

variable {δ : Type*}

/-! ## The initialisation -/

section Initialization

variable [Device δ]

namespace Dma

/-- The port of a channel, out of those of all the channels. -/
def getPort (ports : List (BitVec 16)) (channel : Byte) : Driver δ (BitVec 16) := do
  assert (channel < 8) .indexOutOfRange
  pure (ports.getD channel.toNat 0)

def getStartAddressPort (channel : Byte) : Driver δ (BitVec 16) :=
  getPort [0x00, 0x02, 0x04, 0x06, 0xC0, 0xC4, 0xC8, 0xCC] channel

def getPageAddressPort (channel : Byte) : Driver δ (BitVec 16) :=
  getPort [0x87, 0x83, 0x81, 0x82, 0x8F, 0x8B, 0x89, 0x8A] channel

def getCountPort (channel : Byte) : Driver δ (BitVec 16) :=
  getPort [0x01, 0x03, 0x05, 0x07, 0xC2, 0xC6, 0xCA, 0xCE] channel

def getFlipFlopReset (channel : Byte) : Driver δ (BitVec 16) := do
  assert (channel < 8) .indexOutOfRange
  pure (if channel < 4 then 0x0C else 0xD8)

/-- `DMA::initialize_channel`. -/
def initializeChannel (channel : Byte) (bufferAddress : BitVec 32) (count : BitVec 16) :
    Driver δ Unit := do
  let startAddressPort ← getStartAddressPort channel
  let pageAddressPort ← getPageAddressPort channel
  let countPort ← getCountPort channel
  let channelMaskPort ← getSingleChannelMask channel
  let flipFlopResetPort ← getFlipFlopReset channel
  portWriteByte .setting channelMaskPort ((channel &&& 0x03) ||| 0x04)
  portWriteByte .setting flipFlopResetPort 0xFF
  portWriteByte .setting startAddressPort ((bufferAddress >>> 0 &&& 0xFF).setWidth 8)
  portWriteByte .setting startAddressPort ((bufferAddress >>> 8 &&& 0xFF).setWidth 8)
  portWriteByte .setting pageAddressPort ((bufferAddress >>> 16 &&& 0xFF).setWidth 8)
  portWriteByte .setting flipFlopResetPort 0xFF
  portWriteByte .setting countPort ((count >>> 0 &&& 0xFF).setWidth 8)
  portWriteByte .setting countPort ((count >>> 8 &&& 0xFF).setWidth 8)
  portWriteByte .setting channelMaskPort (channel &&& 0x03)

end Dma

def dmaBufferSize : BitVec 16 := 0x4800

/-- `FloppyDisk::initialize`, with the address of the buffer for the DMA controller. -/
def initializeFloppyDisk (fuel : ℕ) (dmaBuffer : BitVec 32) : Driver δ Unit := do
  modify fun s => { s with
    currentDrive := 0
    waitingForIRQ := false
    diskMotorOn := fun i => if i < 4 then false else s.diskMotorOn i }
  executeCommand fuel .version []
  let version ← get fun s => s.resultBytes 0
  assert (version = 0x90) .notImplemented
  executeCommand fuel .configure [0x00, 0x57, 0x00]
  executeCommand fuel .lock []
  reset fuel 0 true
  executeCommand fuel .version []
  executeCommand fuel .recalibrate [0]
  executeCommand fuel .senseInterrupt []
  Dma.initializeChannel 2 dmaBuffer (dmaBufferSize - 1)

end Initialization

/-! ## What the driver believes, and what it has written -/

/-- The byte that selects a drive, with its motor on or off. -/
def dorValue (drive : Byte) (motorOn : Bool) : Byte :=
  ((if motorOn then 1 else 0) <<< (4 + drive.toNat)) ||| (0x0C ||| drive)

/-- The byte selects the drive and switches its motor; the controller is not being reset,
    and uses the DMA controller. -/
structure Selects (v drive : Byte) (motorOn : Bool) : Prop where
  drive_eq : v &&& 0x03 = drive
  motor_eq : v.getLsbD (4 + drive.toNat) = motorOn
  resetAndDma : v &&& 0x0C = 0x0C

theorem selects_dorValue {drive : Byte} (h : drive < 4) (motorOn : Bool) :
    Selects (dorValue drive motorOn) drive motorOn := by
  have hall : ∀ d : Fin 4, ∀ m, dorValue (BitVec.ofNat 8 d) m &&& 0x03 = BitVec.ofNat 8 d ∧
      (dorValue (BitVec.ofNat 8 d) m).getLsbD (4 + (BitVec.ofNat 8 d).toNat) = m ∧
      dorValue (BitVec.ofNat 8 d) m &&& 0x0C = 0x0C := by
    decide
  have hd := hall ⟨drive.toNat, h⟩ motorOn
  rw [BitVec.ofNat_toNat, BitVec.setWidth_eq] at hd
  exact ⟨hd.1, hd.2.1, hd.2.2⟩

/-- A byte written to the digital output register. -/
def Event.dorWrite : Event δ → Option Byte
  | .writeByte _ port v _ => if port = digitalOutputRegister then some v else none
  | _ => none

/-- The selected drive and the motors, as the driver keeps them, and what the digital
    output register has been written with. -/
@[ext]
structure View where
  drive : Byte
  motors : ℕ → Bool
  writes : List Byte

def State.view (s : State δ) : View :=
  ⟨s.currentDrive, s.diskMotorOn, s.log.filterMap Event.dorWrite⟩

namespace View

/-- The view behind a choice of a drive. -/
def select (x : View) (drive : Byte) (motorOn : Bool) : View where
  drive := drive
  motors := Function.update x.motors drive.toNat motorOn
  writes :=
    if x.drive ≠ drive ∨ x.motors drive.toNat ≠ motorOn then x.writes ++ [dorValue drive motorOn]
    else x.writes

/-- The register was written last with what the driver believes of the selected drive. -/
def Trusted (x : View) : Prop :=
  x.writes.getLast? = some (dorValue x.drive (x.motors x.drive.toNat))

variable {x : View} {drive : Byte} {motorOn : Bool}

theorem writes_select (h : x.drive ≠ drive ∨ x.motors drive.toNat ≠ motorOn) :
    (x.select drive motorOn).writes = x.writes ++ [dorValue drive motorOn] := if_pos h

theorem writes_select_of_eq (h : ¬(x.drive ≠ drive ∨ x.motors drive.toNat ≠ motorOn)) :
    (x.select drive motorOn).writes = x.writes := if_neg h

/-- If the register is written, or need not be, it holds what has been chosen. -/
theorem getLast?_select (h : x.Trusted ∨ x.drive ≠ drive ∨ x.motors drive.toNat ≠ motorOn) :
    (x.select drive motorOn).writes.getLast? = some (dorValue drive motorOn) := by
  by_cases hw : x.drive ≠ drive ∨ x.motors drive.toNat ≠ motorOn
  · rw [writes_select hw, List.getLast?_concat]
  · -- The register is not written, as the drive is selected and its motor is as asked for.
    have hx := h.resolve_right hw
    rw [writes_select_of_eq hw]
    rw [not_or, not_not, not_not] at hw
    rwa [Trusted, hw.1, hw.2] at hx

theorem trusted_select (h : x.Trusted ∨ x.drive ≠ drive ∨ x.motors drive.toNat ≠ motorOn) :
    (x.select drive motorOn).Trusted := by
  have hmotor : (x.select drive motorOn).motors drive.toNat = motorOn := Function.update_self ..
  have htrusted : (x.select drive motorOn).writes.getLast? =
      some (dorValue drive ((x.select drive motorOn).motors drive.toNat)) := by
    rw [hmotor, getLast?_select h]
  exact htrusted

end View

/-! ## What leaves the view -/

/-- The view is the same behind as before. -/
def SameView (s s' : State δ) : Prop := s'.view = s.view

instance : Std.Refl (SameView (δ := δ)) := ⟨fun _ => rfl⟩

instance : IsTrans (State δ) SameView := ⟨fun _ _ _ h h' => h'.trans h⟩

theorem view_record {e : Event δ} (h : e.dorWrite = none) (s : State δ) :
    (s.record e).view = s.view := by
  have hlog : (s.record e).log.filterMap Event.dorWrite = s.log.filterMap Event.dorWrite := by
    rw [State.record, List.filterMap_append, List.filterMap_cons_none h]
    exact List.append_nil _
  exact View.ext rfl rfl hlog

theorem view_interrupt (i : Interrupt) (s : State δ) : (s.interrupt i).view = s.view := by
  rw [State.interrupt, view_record rfl]
  cases i <;> rfl

/-- What keeps the view keeps what is said of it. -/
theorem triple_view {α : Type} {f : Driver δ α} (hf : Keeps SameView f)
    (P : View → Prop) : Triple (fun s => P s.view) f fun _ s => P s.view := by
  intro s hs
  rwa [hf s]

variable [Device δ]

theorem view_turn (s : State δ) : s.turn.view = s.view :=
  State.turn_eq State.view s (fun s i => view_interrupt i s) (fun _ => rfl) fun _ _ => rfl

theorem sameView_portReadByte (port : BitVec 16) :
    Keeps SameView (portReadByte port : Driver δ Byte) :=
  fun s => (view_record rfl _).trans (view_turn s)

theorem sameView_portWriteByte (role : Role) {port : BitVec 16} (h : port ≠ digitalOutputRegister)
    (v : Byte) : Keeps SameView (portWriteByte role port v : Driver δ Unit) := by
  intro s
  refine (view_record ?_ _).trans (view_turn s)
  rw [Event.dorWrite, if_neg h]

theorem sameView_getTicks : Keeps SameView (getTicks : Driver δ ℕ) :=
  fun s => (view_record rfl _).trans (view_turn s)

theorem sameView_testWaiting : Keeps SameView (testWaiting : Driver δ Bool) :=
  fun s => (view_record rfl _).trans (view_turn s)

theorem sameView_setWaiting : Keeps SameView (setWaiting : Driver δ Unit) :=
  fun s => (view_record rfl _).trans (view_turn s)

theorem sameView_halt : Keeps SameView (halt : Driver δ Unit) :=
  fun s => (view_interrupt _ _).trans ((view_record rfl _).trans (view_turn s))

theorem sameView_waitForIrq (fuel : ℕ) : Keeps SameView (waitForIrq fuel : Driver δ Unit) :=
  keeps_waitForIrq sameView_getTicks sameView_testWaiting sameView_halt
    (fun _ _ => view_record rfl _) fuel

theorem sameView_sendCommand (fuel : ℕ) (c : Command) :
    Keeps SameView (sendCommand fuel c : Driver δ Unit) := by
  have hfifo : dataFifo ≠ digitalOutputRegister := by decide
  refine (sameView_portReadByte _).bind fun _ => (Keeps.assert _ _).bind fun _ => ?_
  refine (sameView_portWriteByte _ hfifo _).bind fun _ => ?_
  refine (Keeps.when sameView_setWaiting).bind fun _ => ?_
  refine (keeps_sendParametersFrom (sameView_portReadByte _)
    (sameView_portWriteByte _ hfifo) 0 _).bind fun _ => ?_
  refine (Keeps.when (sameView_waitForIrq fuel)).bind fun _ => ?_
  exact keeps_receiveResults sameView_portReadByte (fun _ _ => rfl) c

theorem sameView_executeCommand (fuel : ℕ) (c : Command) (ps : List Byte) :
    Keeps SameView (executeCommand fuel c ps : Driver δ Unit) :=
  keeps_executeCommand (fun _ _ => rfl) (sameView_sendCommand fuel c) ps

/-! ## Choosing a drive -/

/-- What a call that chooses a drive does to the view `x`: it has made the choice, or left
    the view; with an error, it has left it, and without one it has made the choice. -/
def Chosen (x : View) (drive : Byte) (motorOn : Bool) : Outcome Error Unit → State δ → Prop
  | .ok (), s => drive < 4 ∧ s.view = x.select drive motorOn
  | .error _, s => s.view = x
  | .running, s => s.view = x ∨ s.view = x.select drive motorOn

/-- The timing of another drive. -/
def specifyDrive (fuel : ℕ) (drive : Byte) : Driver δ Unit := do
  let currentDrive ← get State.currentDrive
  when (currentDrive ≠ drive) do
    portWriteByte .setting configurationControlRegister 0
    executeCommand fuel .specify [(8 <<< 4) ||| 0, (5 <<< 1) ||| 0]

/-- The write to the register, and what the driver then believes. -/
def chooseDrive (drive : Byte) (motorOn : Bool) : Driver δ Unit := do
  let currentDrive ← get State.currentDrive
  let diskMotorOn ← get State.diskMotorOn
  when (currentDrive ≠ drive || diskMotorOn drive.toNat ≠ motorOn) do
    portWriteByte .setting digitalOutputRegister (dorValue drive motorOn)
  modify fun s => { s with
    currentDrive := drive
    diskMotorOn := Function.update s.diskMotorOn drive.toNat motorOn }

theorem selectDrive_eq (fuel : ℕ) (drive : Byte) (motorOn : Bool) :
    (selectDrive fuel drive motorOn : Driver δ Unit) = (do
      assert (drive < 4) .indexOutOfRange
      specifyDrive fuel drive
      chooseDrive drive motorOn
      sleep fuel diskSpinupWaitTime) := by
  simp only [selectDrive, specifyDrive, chooseDrive, bind_bind, dorValue]

theorem sameView_specifyDrive (fuel : ℕ) (drive : Byte) :
    Keeps SameView (specifyDrive fuel drive : Driver δ Unit) := by
  refine (Keeps.get _).bind fun _ => Keeps.when ?_
  exact (sameView_portWriteByte _ (by decide) _).bind fun _ => sameView_executeCommand fuel _ _

theorem triple_chooseDrive (x : View) (drive : Byte) (motorOn : Bool) :
    Triple (fun s => s.view = x) (chooseDrive drive motorOn : Driver δ Unit)
      fun r s => ∃ a, r = .ok a ∧ s.view = x.select drive motorOn := by
  rintro s rfl
  rw [chooseDrive, bind_get, bind_get]
  by_cases hw : s.currentDrive ≠ drive ∨ s.diskMotorOn drive.toNat ≠ motorOn
  · have hc : (decide (s.currentDrive ≠ drive) || decide (s.diskMotorOn drive.toNat ≠ motorOn)) =
        true := by simpa using hw
    have hturn := view_turn s
    rw [hc]
    refine ⟨(), rfl, View.ext rfl ?_ ?_⟩
    · exact congrArg (Function.update · drive.toNat motorOn) (congrArg View.motors hturn)
    · have hlog : s.turn.log.filterMap Event.dorWrite = s.log.filterMap Event.dorWrite :=
        congrArg View.writes hturn
      have hwrites : (s.view.select drive motorOn).writes =
          s.log.filterMap Event.dorWrite ++ [dorValue drive motorOn] := View.writes_select hw
      rw [hwrites, ← hlog]
      exact List.filterMap_append ..
  · have hc : (decide (s.currentDrive ≠ drive) || decide (s.diskMotorOn drive.toNat ≠ motorOn)) =
        false := by simpa using hw
    have hwrites : (s.view.select drive motorOn).writes = s.log.filterMap Event.dorWrite :=
      View.writes_select_of_eq hw
    rw [hc]
    exact ⟨(), rfl, View.ext rfl rfl hwrites.symm⟩

/-- The wait for the disk does not fail. -/
theorem triple_sleep (x : View) (fuel : ℕ) {drive : Byte} (hd : drive < 4) (motorOn : Bool) :
    Triple (fun s => s.view = x.select drive motorOn)
      (sleep fuel diskSpinupWaitTime : Driver δ Unit) (Chosen x drive motorOn) := by
  have hkeeps : Keeps SameView (sleep fuel diskSpinupWaitTime : Driver δ Unit) :=
    keeps_sleep sameView_getTicks sameView_halt fuel _
  intro s hs
  have hview := (hkeeps s).trans hs
  have herror : ∀ e, (sleep fuel diskSpinupWaitTime s).1 ≠ .error e :=
    fun e => avoids_sleep e fuel _ s
  rcases h : sleep fuel diskSpinupWaitTime s with ⟨r, s'⟩
  rw [h] at hview herror
  cases r with
  | ok a => exact ⟨hd, hview⟩
  | error e => exact absurd rfl (herror e)
  | running => exact .inr hview

/-- The choice lies between a command and the wait for the disk to spin up, neither of
    which changes the view. -/
theorem triple_selectDrive (x : View) (fuel : ℕ) (drive : Byte) (motorOn : Bool) :
    Triple (fun s => s.view = x) (selectDrive fuel drive motorOn : Driver δ Unit)
      (Chosen x drive motorOn) := by
  intro s hs
  rw [selectDrive_eq]
  by_cases hd : drive < 4
  · rw [bind_assert_of_true (decide_eq_true hd)]
    have hrest : Triple (fun s => s.view = x) (do
        specifyDrive fuel drive
        chooseDrive drive motorOn
        sleep fuel diskSpinupWaitTime : Driver δ Unit) (Chosen x drive motorOn) := by
      refine (triple_view (sameView_specifyDrive fuel drive) (· = x)).bind (fun _ => ?_)
        (fun _ _ hs => hs) fun _ hs => .inl hs
      exact (triple_chooseDrive x drive motorOn).bind_ok fun _ => triple_sleep x fuel hd motorOn
    exact hrest s hs
  · rw [bind_assert_of_false (decide_eq_false hd)]
    exact hs

theorem triple_reset_view (x : View) (fuel : ℕ) (drive : Byte) (motorOn : Bool) :
    Triple (fun s => s.view = x) (reset fuel drive motorOn : Driver δ Unit)
      (Chosen x drive motorOn) := by
  have hbegin : Keeps SameView (do
      setWaiting
      portWriteByte .setting datarateSelectRegister 0x80
      waitForIrq fuel : Driver δ Unit) :=
    sameView_setWaiting.bind fun _ =>
      (sameView_portWriteByte _ (by decide) _).bind fun _ => sameView_waitForIrq fuel
  have hreset : (reset fuel drive motorOn : Driver δ Unit) = (do
      setWaiting
      portWriteByte .setting datarateSelectRegister 0x80
      waitForIrq fuel) >>= fun _ => selectDrive fuel drive motorOn := by
    simp only [reset, bind_bind]
  rw [hreset]
  exact (triple_view hbegin (· = x)).bind (fun _ => triple_selectDrive x fuel drive motorOn)
    (fun _ _ hs => hs) fun _ hs => .inl hs

/-! ## The initialisation -/

theorem sameView_initializeChannel (bufferAddress : BitVec 32) (count : BitVec 16) :
    Keeps SameView (Dma.initializeChannel 2 bufferAddress count : Driver δ Unit) := by
  have hport : ∀ port : BitVec 16, port ≠ digitalOutputRegister → ∀ v,
      Keeps SameView (portWriteByte .setting port v : Driver δ Unit) :=
    fun port h v => sameView_portWriteByte _ h v
  -- None of the ports of the channel is the register.
  exact (hport 0x0A (by decide) _).bind fun _ => (hport 0x0C (by decide) _).bind fun _ =>
    (hport 0x04 (by decide) _).bind fun _ => (hport 0x04 (by decide) _).bind fun _ =>
    (hport 0x81 (by decide) _).bind fun _ => (hport 0x0C (by decide) _).bind fun _ =>
    (hport 0x05 (by decide) _).bind fun _ => (hport 0x05 (by decide) _).bind fun _ =>
    hport 0x0A (by decide) _

/-- The motor of the first drive is believed to be off. -/
def View.FirstOff (x : View) : Prop := x.motors 0 = false

/-- The initialisation believes that the motor is off, and asks for it to be on: it writes
    the register. -/
theorem triple_initializeFloppyDisk (fuel : ℕ) (dmaBuffer : BitVec 32) :
    Triple (fun _ => True) (initializeFloppyDisk fuel dmaBuffer : Driver δ Unit) fun r s =>
      ∀ a, r = .ok a → s.view.Trusted := by
  have hkeeps : ∀ {α : Type} {f : Driver δ α} (P : View → Prop), Keeps SameView f →
      Triple (fun s => P s.view) f fun r s => ∀ a, r = .ok a → P s.view :=
    fun P hf s hs _ _ => triple_view hf P s hs
  have hcommand : ∀ (P : View → Prop) c ps, Triple (fun s => P s.view)
      (executeCommand fuel c ps : Driver δ Unit) fun r s => ∀ a, r = .ok a → P s.view :=
    fun P c ps => hkeeps P (sameView_executeCommand fuel c ps)
  have hstart : Triple (fun _ => True) (modify fun s => { s with
      currentDrive := 0
      waitingForIRQ := false
      diskMotorOn := fun i => if i < 4 then false else s.diskMotorOn i } : Driver δ Unit)
      fun r s => ∀ a, r = .ok a → s.view.FirstOff :=
    fun _ _ _ _ => rfl
  have hreset : Triple (fun s => s.view.FirstOff) (reset fuel 0 true : Driver δ Unit)
      fun r s => ∀ a, r = .ok a → s.view.Trusted := by
    intro s hs _ hr
    have hchosen := triple_reset_view s.view fuel 0 true s rfl
    rw [hr] at hchosen
    have hmotor : s.view.motors (0 : Byte).toNat ≠ true := fun h => nomatch hs.symm.trans h
    rw [hchosen.2]
    exact View.trusted_select (.inr (.inr hmotor))
  -- Before the reset the motor is off, and behind it the view can be trusted.
  refine hstart.bind_value fun _ => (hcommand View.FirstOff _ _).bind_value fun _ => ?_
  refine (hkeeps View.FirstOff (Keeps.get _)).bind_value fun _ => ?_
  refine (hkeeps View.FirstOff (Keeps.assert _ _)).bind_value fun _ => ?_
  refine (hcommand View.FirstOff _ _).bind_value fun _ => ?_
  refine (hcommand View.FirstOff _ _).bind_value fun _ => ?_
  refine hreset.bind_value fun _ => (hcommand View.Trusted _ _).bind_value fun _ => ?_
  refine (hcommand View.Trusted _ _).bind_value fun _ => ?_
  refine (hcommand View.Trusted _ _).bind_value fun _ => ?_
  exact hkeeps View.Trusted (sameView_initializeChannel _ _)

/-! ## Runs -/

/-- A call that chooses a drive. -/
structure SelectCall where
  /-- By a reset. -/
  byReset : Bool
  drive : Byte
  motorOn : Bool
  deriving DecidableEq, Repr

/-- The call, with its outcome and the state behind it. -/
def SelectCall.perform (fuel : ℕ) (s : State δ) (c : SelectCall) :
    Outcome Error Unit × State δ :=
  if c.byReset then reset fuel c.drive c.motorOn s else selectDrive fuel c.drive c.motorOn s

theorem SelectCall.chosen (fuel : ℕ) (s : State δ) (c : SelectCall) :
    Chosen s.view c.drive c.motorOn (c.perform fuel s).1 (c.perform fuel s).2 := by
  rw [perform]
  split_ifs
  · exact triple_reset_view s.view fuel c.drive c.motorOn s rfl
  · exact triple_selectDrive s.view fuel c.drive c.motorOn s rfl

/-- A call keeps the view one that can be trusted, whatever it comes to. -/
theorem SelectCall.trusted (fuel : ℕ) (c : SelectCall) {s : State δ} (hs : s.view.Trusted) :
    (c.perform fuel s).2.view.Trusted := by
  have h := c.chosen fuel s
  rcases hc : c.perform fuel s with ⟨r, s'⟩
  rw [hc] at h
  cases r with
  | ok a =>
    rw [h.2]
    exact View.trusted_select (.inl hs)
  | error e =>
    replace h : s'.view = s.view := h
    rwa [h]
  | running =>
    rcases h with h | h
    · rwa [h]
    · rw [h]
      exact View.trusted_select (.inl hs)

/-- What a call leaves that ends: if it succeeds, the register has been written last with
    the byte for its drive, with the motor as asked for; if it fails, the driver believes
    what it did before, and the register has not been written. -/
def Selected (s : State δ) (c : SelectCall) : Outcome Error Unit → State δ → Prop
  | .ok (), s' => s'.view.writes.getLast? = some (dorValue c.drive c.motorOn) ∧
    Selects (dorValue c.drive c.motorOn) c.drive c.motorOn
  | .error _, s' => s'.currentDrive = s.currentDrive ∧ s'.diskMotorOn = s.diskMotorOn ∧
    s'.view.writes = s.view.writes
  | .running, _ => True

theorem selected_of_trusted (fuel : ℕ) (c : SelectCall) {s : State δ} (hs : s.view.Trusted) :
    Selected s c (c.perform fuel s).1 (c.perform fuel s).2 := by
  have h := c.chosen fuel s
  rcases hc : c.perform fuel s with ⟨r, s'⟩
  rw [hc] at h
  cases r with
  | ok a =>
    refine ⟨?_, selects_dorValue h.1 c.motorOn⟩
    rw [h.2]
    exact View.getLast?_select (.inl hs)
  | error e =>
    replace h : s'.view = s.view := h
    exact ⟨congrArg View.drive h, congrArg View.motors h, congrArg View.writes h⟩
  | running => trivial

/-- For every device and whatever happens between the steps: in any calls behind a
    successful initialisation, each leaves the register as if it were always written when
    it succeeds, and changes nothing when it fails. -/
theorem selected_visits (fuel : ℕ) (dmaBuffer : BitVec 32) (s : State δ)
    (hinit : (initializeFloppyDisk fuel dmaBuffer s).1 = .ok ()) (calls : List SelectCall) :
    ∀ p ∈ Machine.visits (fun s c => SelectCall.perform fuel s c)
        (initializeFloppyDisk fuel dmaBuffer s).2 calls,
      Selected p.1 p.2 (p.2.perform fuel p.1).1 (p.2.perform fuel p.1).2 := by
  have htrusted := @Machine.visits_induction _ _ _ (fun s c => SelectCall.perform fuel s c)
    (fun s : State δ => s.view.Trusted) (fun s c hs => c.trusted fuel hs) _
    (triple_initializeFloppyDisk fuel dmaBuffer s trivial () hinit) calls
  exact fun p hp => selected_of_trusted fuel p.2 (htrusted p hp)

/-- A controller that answers all commands at once, each result byte being the version that
    the driver supports. The disk has spun up at the second look behind the reset. -/
def bootState : State Controller :=
  .start { Controller.expecting 0 with bytes := fun _ => 0x90 } fun n =>
    ⟨[.advance, .interrupt .floppy] ++
      if n = 23 then List.replicate diskSpinupWaitTime (.interrupt .timer) else [], .timer⟩

/-- The initialisation succeeds with this controller; behind it, the second drive is
    chosen, and then the first one by a reset. -/
theorem selected_visits_sample :
    (initializeFloppyDisk 2 0x10000 bootState).1 = .ok () ∧
      ∀ p ∈ Machine.visits (fun s c => SelectCall.perform 2 s c)
          (initializeFloppyDisk 2 0x10000 bootState).2 [⟨false, 1, true⟩, ⟨true, 0, false⟩],
        Selected p.1 p.2 (p.2.perform 2 p.1).1 (p.2.perform 2 p.1).2 := by
  have hinit : (initializeFloppyDisk 2 0x10000 bootState).1 = .ok () := by decide +kernel
  exact ⟨hinit, selected_visits 2 0x10000 bootState hinit [⟨false, 1, true⟩, ⟨true, 0, false⟩]⟩

end KessokuOS.Floppy
