import KessokuOS.Drivers.FloppyDisk
import KessokuOS.Drivers.Floppy.Answers
import KessokuOS.Drivers.Floppy.Controller

/-!
# Failed transfers

`readCylinder` sets up the DMA controller and executes a `READ DATA` command. The
controller tells by the first of the seven result bytes of the command how it came to
its end; the driver stores them, and looks at none.

Hence a read that succeeds has no failed transfer in it exactly when the device reports
none to any attempt at the command (`normalTermination_reads_iff`): what an attempt meets
is told by the device and the interrupts, from the state on in which it begins
(`ReportsFailure`).
-/

namespace KessokuOS.Floppy

open Routine

variable {δ : Type*}

/-- The first `n` result bytes that the driver has stored. -/
def State.results (s : State δ) (n : ℕ) : List Byte := (List.range n).map s.resultBytes

section Reads

variable [Device δ]

/-! ## The mode of a DMA channel -/

namespace Dma

def getSingleChannelMask (channel : Byte) : Driver δ (BitVec 16) := do
  assert (channel < 8) .indexOutOfRange
  pure (if channel < 4 then 0x0A else 0xD4)

def getMode (channel : Byte) : Driver δ (BitVec 16) := do
  assert (channel < 8) .indexOutOfRange
  pure (if channel < 4 then 0x0B else 0xD6)

def setMode (channel transferType : Byte) (autoInit down : Bool) (mode : Byte) :
    Driver δ Unit := do
  let channelMaskPort ← getSingleChannelMask channel
  let modePort ← getMode channel
  let parameter := ((mode &&& 0x03) <<< 6) ||| ((if down then 1 else 0) <<< 5) |||
    ((if autoInit then 1 else 0) <<< 4) ||| ((transferType &&& 0x03) <<< 2) |||
    (channel &&& 0x03)
  portWriteByte .setting channelMaskPort ((channel &&& 0x03) ||| 0x04)
  portWriteByte .setting modePort parameter
  portWriteByte .setting channelMaskPort (channel &&& 0x03)

end Dma

/-! ## The read of a cylinder -/

def readCylinder (fuel : ℕ) (drive cylinder : Byte) : Driver δ Unit := do
  selectDrive fuel drive true
  Dma.setMode 2 0b10 true false 0b01
  let currentDrive ← get State.currentDrive
  executeCommand fuel .readData
    [(0 <<< 2) ||| currentDrive, cylinder, 0, 1, 2,
      BitVec.ofNat 8 FloppyDisk.sectorsPerCylinder, 0x1B, 0xFF]

/-- What `readCylinder` does before the command. -/
def prepareRead (fuel : ℕ) (drive : Byte) : Driver δ Unit := do
  selectDrive fuel drive true
  Dma.setMode 2 0b10 true false 0b01

theorem readCylinder_eq (fuel : ℕ) (drive cylinder : Byte) :
    (readCylinder fuel drive cylinder : Driver δ Unit) =
      prepareRead fuel drive >>= fun _ => get State.currentDrive >>= fun currentDrive =>
        executeCommand fuel .readData
          [(0 <<< 2) ||| currentDrive, cylinder, 0, 1, 2,
            BitVec.ofNat 8 FloppyDisk.sectorsPerCylinder, 0x1B, 0xFF] := by
  simp only [readCylinder, prepareRead, bind_bind]

/-- The states in which `readCylinder` begins an attempt at its command. -/
def readAttempts (fuel : ℕ) (drive cylinder : Byte) (s : State δ) : List (State δ) :=
  match prepareRead fuel drive s with
  | (.ok (), s) => attempts fuel .readData
      [(0 <<< 2) ||| s.currentDrive, cylinder, 0, 1, 2,
        BitVec.ofNat 8 FloppyDisk.sectorsPerCylinder, 0x1B, 0xFF] s
  | _ => []

/-- A read of a cylinder that has succeeded. -/
structure CylinderRead (δ : Type*) where
  /-- The state of the driver before it. -/
  before : State δ
  drive : Byte
  cylinder : Byte
  /-- The result bytes that are stored behind it. -/
  results : List Byte

/-- The reads of cylinders by the driver. The second part of the world are those that have
    succeeded; `transfer` is what the DMA controller does to the memory. A read that does
    not end within its fuel is no success. -/
def cylinderReader (fuel : ℕ) (transfer : State δ → Memory → Memory) :
    FloppyDisk.CylinderReader (State δ × List (CylinderRead δ)) :=
  fun drive cylinder ((s, reads), m) =>
    match readCylinder fuel (BitVec.ofNat 8 drive) (BitVec.ofNat 8 cylinder) s with
    | (.ok (), s') =>
      (.ok (), (s', reads ++ [⟨s, BitVec.ofNat 8 drive, BitVec.ofNat 8 cylinder,
        s'.results Command.readData.getResultByteCount⟩]), transfer s' m)
    | (.error e, s') => (.error e, (s', reads), transfer s' m)
    | (.running, s') => (.error .timedOut, (s', reads), transfer s' m)

end Reads

/-- The interrupt code in the first result byte says that the command came to a normal
    end. -/
def NormalTermination : List Byte → Prop
  | st0 :: _ => st0 &&& 0xC0 = 0
  | [] => False

instance : DecidablePred NormalTermination
  | st0 :: _ => inferInstanceAs (Decidable (st0 &&& 0xC0 = 0))
  | [] => .isFalse id

variable [Device δ]

/-- The device takes a `READ DATA` command that is sent in the state `s`, and gives its
    result bytes, the first of which reports another end than a normal one. -/
def ReportsFailure (fuel : ℕ) (s : State δ) : Prop :=
  ∃ t s', TakesRequest fuel .readData s t ∧ t.data &&& 0xC0 ≠ 0 ∧
    GivesResults 0 Command.readData.getResultByteCount t s'

/-- Behind an attempt that succeeds, the result bytes tell what the device has reported. -/
theorem normalTermination_iff_of_ok {fuel : ℕ} {s s' : State δ}
    (h : sendCommand fuel .readData s = (.ok (), s')) :
    NormalTermination (s'.results Command.readData.getResultByteCount) ↔
      ¬ReportsFailure fuel s := by
  obtain ⟨t, htakes, hgives⟩ := sendCommand_eq_ok_iff.1 h
  have hfirst : s'.resultBytes 0 = t.data := resultBytes_zero_of_givesResults hgives
  have hnormal : NormalTermination (s'.results Command.readData.getResultByteCount) ↔
      s'.resultBytes 0 &&& 0xC0 = 0 := Iff.rfl
  rw [hnormal, hfirst]
  constructor
  · rintro hok ⟨t', s'', htakes', hne, -⟩
    -- The device is in one state behind the request.
    have heq := (sendRequest_eq_ok_iff.2 htakes).symm.trans (sendRequest_eq_ok_iff.2 htakes')
    obtain rfl := (Prod.mk.inj heq).2
    exact hne hok
  · exact fun hnot => by_contra fun hne => hnot ⟨t, s', htakes, hne, hgives⟩

/-- An attempt that fails is none to which the device gives all its result bytes. -/
theorem not_reportsFailure_of_ne {fuel : ℕ} {s : State δ}
    (h : (sendCommand fuel .readData s).1 ≠ .ok ()) : ¬ReportsFailure fuel s := by
  rintro ⟨t, s', htakes, -, hgives⟩
  exact h (congrArg Prod.fst (sendCommand_eq_ok_iff.2 ⟨t, htakes, hgives⟩))

/-- A read of a cylinder that succeeds ends with the one attempt that does. -/
theorem normalTermination_readCylinder_iff {fuel : ℕ} {drive cylinder : Byte} {s s' : State δ}
    (h : readCylinder fuel drive cylinder s = (.ok (), s')) :
    NormalTermination (s'.results Command.readData.getResultByteCount) ↔
      ∀ a ∈ readAttempts fuel drive cylinder s, ¬ReportsFailure fuel a := by
  rw [readCylinder_eq, bind_unit_eq_ok_iff] at h
  obtain ⟨s₁, hprepare, h⟩ := h
  rw [bind_get] at h
  obtain ⟨l, t, hl, ht, hfail⟩ := attempts_of_ok h
  have hattempts : readAttempts fuel drive cylinder s = l ++ [t] := by
    rw [readAttempts, hprepare]
    exact hl
  rw [normalTermination_iff_of_ok ht, hattempts]
  constructor
  · intro hnot a ha
    rcases List.mem_append.1 ha with ha | ha
    · exact not_reportsFailure_of_ne (hfail a ha)
    · exact List.mem_singleton.1 ha ▸ hnot
  · exact fun hall => hall t (List.mem_append_right l (List.mem_singleton_self t))

/-! ## Reads -/

/-- What has been recorded of a read of a cylinder is so. -/
def CylinderRead.Genuine (fuel : ℕ) (r : CylinderRead δ) : Prop :=
  ∃ s', readCylinder fuel r.drive r.cylinder r.before = (.ok (), s') ∧
    r.results = s'.results Command.readData.getResultByteCount

section Runs

variable {fuel rounds dmaBuffer drive lba count buffer : ℕ} {transfer : State δ → Memory → Memory}
  {s : State δ} {m : Memory} {t : FloppyDisk.State (State δ × List (CylinderRead δ))}

theorem genuine_cylinderReader (cylinder : ℕ) (w : State δ × List (CylinderRead δ)) (m : Memory)
    (hw : ∀ r ∈ w.2, r.Genuine fuel) :
    ∀ r ∈ (cylinderReader fuel transfer drive cylinder (w, m)).2.1.2, r.Genuine fuel := by
  rw [cylinderReader]
  rcases h : readCylinder fuel (BitVec.ofNat 8 drive) (BitVec.ofNat 8 cylinder) w.1 with ⟨o, s'⟩
  cases o with
  | ok a =>
    intro r hr
    rcases List.mem_append.1 hr with hr | hr
    · exact hw r hr
    · rw [List.mem_singleton.1 hr]
      exact ⟨s', h, rfl⟩
  | error e => exact hw
  | running => exact hw

/-- For every device and whatever happens between the steps: in a read that succeeds, all
    reads of cylinders have come to a normal end exactly when the device reports no other
    one to any attempt at their commands. -/
theorem normalTermination_reads_iff
    (hrun : FloppyDisk.readData (cylinderReader fuel transfer) dmaBuffer drive rounds lba count
      buffer ⟨(s, []), m, []⟩ = some (.ok (), t)) :
    (∀ r ∈ t.world.2, NormalTermination r.results) ↔
      ∀ r ∈ t.world.2, ∀ a ∈ readAttempts fuel r.drive r.cylinder r.before,
        ¬ReportsFailure fuel a := by
  have hgenuine : ∀ r ∈ t.world.2, r.Genuine fuel :=
    FloppyDisk.readData_invariant
      (I := fun w : State δ × List (CylinderRead δ) => ∀ r ∈ w.2, r.Genuine fuel)
      genuine_cylinderReader (fun r hr => absurd hr List.not_mem_nil) hrun
  refine forall₂_congr fun r hr => ?_
  obtain ⟨s', hread, hresults⟩ := hgenuine r hr
  rw [hresults]
  exact normalTermination_readCylinder_iff hread

end Runs

/-- A controller that is ready at once, and ends its first command with `st0`. -/
def controllerOf (st0 : Byte) : Controller :=
  { Controller.expecting 0 with bytes := fun n => if n = 0 then st0 else 0 }

/-- The disk has spun up when the driver first looks, and the command is over when it
    first tests the flag. -/
def readTurns : ℕ → Turn := fun n =>
  if n = 2 then ⟨List.replicate diskSpinupWaitTime (.interrupt .timer), .timer⟩
  else if n = 27 then ⟨[.advance, .interrupt .floppy], .timer⟩
  else ⟨[], .timer⟩

/-- The read of the first sector from such a controller. -/
def readFirst (st0 : Byte) :
    Option (ErrorOr Unit × FloppyDisk.State (State Controller × List (CylinderRead Controller))) :=
  FloppyDisk.readData (cylinderReader 1 fun _ m => m) 0x20000 0 1 0 1 0x10000
    ⟨(.start (controllerOf st0) readTurns, []), fun _ => 0, []⟩

theorem readFirst_normal : ∃ t, readFirst 0x00 = some (.ok (), t) ∧
    ((∀ r ∈ t.world.2, NormalTermination r.results) ↔
      ∀ r ∈ t.world.2, ∀ a ∈ readAttempts 1 r.drive r.cylinder r.before, ¬ReportsFailure 1 a) := by
  have h : (readFirst 0x00).map Prod.fst = some (.ok ()) := by decide +kernel
  obtain ⟨⟨_, t⟩, ht, rfl⟩ := Option.map_eq_some_iff.1 h
  exact ⟨t, ht, normalTermination_reads_iff ht⟩

/-- A controller that reports an abnormal end of the command, behind which the read
    succeeds. -/
theorem readFirst_abnormal : ∃ t, readFirst 0x40 = some (.ok (), t) ∧
    ¬∀ r ∈ t.world.2, NormalTermination r.results := by
  have h : (readFirst 0x40).map (fun p => (p.1, p.2.world.2.map CylinderRead.results)) =
      some (.ok (), [[0x40, 0, 0, 0, 0, 0, 0]]) := by decide +kernel
  obtain ⟨⟨_, t⟩, ht, hr⟩ := Option.map_eq_some_iff.1 h
  obtain ⟨rfl, hreads⟩ := Prod.mk.inj hr
  refine ⟨t, ht, fun hall => ?_⟩
  have hmem : [0x40, 0, 0, 0, 0, 0, 0] ∈ t.world.2.map CylinderRead.results := by
    rw [hreads]
    exact List.mem_singleton_self _
  obtain ⟨r, hr, hresults⟩ := List.mem_map.1 hmem
  have hnormal := hall r hr
  rw [hresults] at hnormal
  exact absurd hnormal (by decide)

end KessokuOS.Floppy
