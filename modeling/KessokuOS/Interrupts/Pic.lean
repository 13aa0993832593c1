import Mathlib.Data.Fintype.Basic
import Mathlib.Tactic.FinCases
import KessokuOS.Common

/-!
# The interrupt controllers

Two 8259 controllers serve eight interrupt lines each; the slave is cascaded on
line 2 of the master (`Pics`). A `Chip` keeps a bit for every line in service,
until an end of interrupt clears the one of highest priority, that is, the lowest.
The kernel programs the controllers (`Pics.initializePic`), and ends each interrupt
by `Pics.sendEndOfInterrupt`.

* `initializePic_eq`: whatever the controllers did before, they then have the
  vectors from `0x20` and `0x28` on, nothing in service, and the masks they had;
* `endOfInterrupt_serve`: an end of interrupt undoes a single interrupt in service;
* `idle_acknowledged`: the kernel's acknowledgement of an interrupt of an idle
  pair of controllers leaves it idle exactly when the number it is given is one
  of the slave, or the line is one of the master.
-/

namespace KessokuOS

/-- What the next byte on the data port of a controller is: its mask, or the rest
    of an initialisation that has been started. -/
inductive Awaits
  | mask
  | icw2
  | icw3
  | icw4
  deriving DecidableEq, Repr

/-- An 8259 interrupt controller. -/
@[ext]
structure Chip where
  /-- The first of its eight vectors. -/
  vectorOffset : BitVec 8
  /-- The lines with a slave, of a master; the identity of a slave. -/
  cascade : BitVec 8
  mode : BitVec 8
  mask : BitVec 8
  /-- A bit for each line in service. -/
  inService : BitVec 8
  /-- The last initialisation has a third and a fourth byte. -/
  cascaded : Bool
  needsMode : Bool
  awaits : Awaits
  deriving DecidableEq, Repr

namespace Chip

/-- Ends the interrupt of highest priority: clears the lowest bit in service. -/
def endOfInterrupt (c : Chip) : Chip := { c with inService := c.inService &&& (c.inService - 1) }

/-- A byte on the command port: starts an initialisation if bit 4 is set, after
    which nothing is in service and no line is masked. -/
def writeCommand (c : Chip) (v : BitVec 8) : Chip :=
  if v.getLsbD 4 then
    { c with
      mask := 0
      inService := 0
      mode := if v.getLsbD 0 then c.mode else 0
      cascaded := !v.getLsbD 1
      needsMode := v.getLsbD 0
      awaits := .icw2 }
  else if v = 0x20 then c.endOfInterrupt
  else c

/-- A byte on the data port. -/
def writeData (c : Chip) (v : BitVec 8) : Chip :=
  match c.awaits with
  | .mask => { c with mask := v }
  | .icw2 => { c with
      vectorOffset := v &&& 0xF8
      awaits := if c.cascaded then .icw3 else if c.needsMode then .icw4 else .mask }
  | .icw3 => { c with cascade := v, awaits := if c.needsMode then .icw4 else .mask }
  | .icw4 => { c with mode := v, awaits := .mask }

/-- The lines of `bits` go into service. -/
def serve (c : Chip) (bits : BitVec 8) : Chip := { c with inService := c.inService ||| bits }

/-- The line `n` has to wait for one in service, which has the same or a higher
    priority. -/
def Blocked (c : Chip) (n : ℕ) : Prop := ∃ m ≤ n, c.inService.getLsbD m = true

variable {c : Chip}

/-- With nothing in service, no line has to wait. -/
theorem not_blocked (h : c.inService = 0) (n : ℕ) : ¬c.Blocked n := by
  rintro ⟨m, -, hm⟩
  rw [h] at hm
  exact absurd hm (by simp)

/-- With nothing in service, there is nothing to end. -/
theorem endOfInterrupt_of_idle (h : c.inService = 0) : c.endOfInterrupt = c := by
  ext1 <;> simp [endOfInterrupt, h]

/-- An end of interrupt undoes a single interrupt in service. -/
theorem endOfInterrupt_serve (h : c.inService = 0) (n : Fin 8) :
    (c.serve (1#8 <<< n.val)).endOfInterrupt = c := by
  have hbit : ∀ n : Fin 8, (0#8 ||| 1#8 <<< n.val) &&& ((0#8 ||| 1#8 <<< n.val) - 1) = 0 := by
    decide
  have hin : (c.serve (1#8 <<< n.val)).endOfInterrupt.inService = 0 := by
    simp only [endOfInterrupt, serve, h]
    exact hbit n
  ext1
  case inService => exact hin.trans h.symm
  all_goals rfl

end Chip

/-- The two controllers. -/
@[ext]
structure Pics where
  master : Chip
  slave : Chip
  deriving DecidableEq, Repr

namespace Pics

def pic1Command : BitVec 16 := 0x20

def pic1Data : BitVec 16 := 0x21

def pic2Command : BitVec 16 := 0xA0

def pic2Data : BitVec 16 := 0xA1

/-- A byte on a port; the other ports are not those of the controllers. -/
def portWriteByte (p : Pics) (port : BitVec 16) (v : BitVec 8) : Pics :=
  if port = pic1Command then { p with master := p.master.writeCommand v }
  else if port = pic1Data then { p with master := p.master.writeData v }
  else if port = pic2Command then { p with slave := p.slave.writeCommand v }
  else if port = pic2Data then { p with slave := p.slave.writeData v }
  else p

/-- The byte on a data port, which is the mask. -/
def portReadByte (p : Pics) (port : BitVec 16) : BitVec 8 :=
  if port = pic1Data then p.master.mask else if port = pic2Data then p.slave.mask else 0

def picEoi : BitVec 8 := 0x20

def icw1Icw4 : BitVec 8 := 0x01

def icw1Init : BitVec 8 := 0x10

def icw4_8086 : BitVec 8 := 0x01

def pic1VectorOffset : BitVec 8 := 0x20

def pic2VectorOffset : BitVec 8 := 0x28

/-- The port that is written to wait for a slow device. -/
def ioWait (p : Pics) : Pics := p.portWriteByte 0x80 0

/-- `PIC::initialize`. -/
def initializePic (p : Pics) : Pics :=
  let a1 := p.portReadByte pic1Data
  let a2 := p.portReadByte pic2Data
  let p := (p.portWriteByte pic1Command (icw1Init ||| icw1Icw4)).ioWait
  let p := (p.portWriteByte pic2Command (icw1Init ||| icw1Icw4)).ioWait
  let p := (p.portWriteByte pic1Data pic1VectorOffset).ioWait
  let p := (p.portWriteByte pic2Data pic2VectorOffset).ioWait
  -- The slave is on line 2 of the master.
  let p := (p.portWriteByte pic1Data 4).ioWait
  let p := (p.portWriteByte pic2Data 2).ioWait
  let p := (p.portWriteByte pic1Data icw4_8086).ioWait
  let p := (p.portWriteByte pic2Data icw4_8086).ioWait
  (p.portWriteByte pic1Data a1).portWriteByte pic2Data a2

/-- `PIC::send_end_of_interrupt`. -/
def sendEndOfInterrupt (p : Pics) (irq : BitVec 8) : Pics :=
  let p := if 8 ≤ irq.toNat then p.portWriteByte pic2Command picEoi else p
  p.portWriteByte pic1Command picEoi

/-- `interrupt_handler`: the handler of last resort. -/
def interruptHandler (p : Pics) : Pics := p.sendEndOfInterrupt 0

/-- The processor takes the interrupt of a line, and gets its vector. A line of the
    slave also goes into service on the line of the master it is cascaded on. -/
def acknowledge (p : Pics) (line : Fin 16) : BitVec 8 × Pics :=
  if line.val < 8 then
    (p.master.vectorOffset + BitVec.ofNat 8 line.val,
      { p with master := p.master.serve (1#8 <<< line.val) })
  else
    (p.slave.vectorOffset + BitVec.ofNat 8 (line.val - 8),
      { master := p.master.serve p.master.cascade
        slave := p.slave.serve (1#8 <<< (line.val - 8)) })

/-- The controllers as the kernel programs them, with the given masks and nothing
    in service. -/
def programmed (mask₁ mask₂ : BitVec 8) : Pics where
  master := ⟨0x20, 4, 1, mask₁, 0, true, true, .mask⟩
  slave := ⟨0x28, 2, 1, mask₂, 0, true, true, .mask⟩

/-- Whatever the controllers did before, they are programmed as the kernel needs
    them, with the masks they had. -/
theorem initializePic_eq (p : Pics) : p.initializePic = programmed p.master.mask p.slave.mask := rfl

/-- No interrupt is in service. -/
def Idle (p : Pics) : Prop := p.master.inService = 0 ∧ p.slave.inService = 0

instance (p : Pics) : Decidable p.Idle := inferInstanceAs (Decidable (_ ∧ _))

/-- The interrupt of a line has to wait: on its own controller, or, for one of the
    slave, on the line of the master that the slave is cascaded on. -/
def Blocked (p : Pics) (line : Fin 16) : Prop :=
  if line.val < 8 then p.master.Blocked line.val
  else p.slave.Blocked (line.val - 8) ∨ p.master.Blocked 2

/-- With nothing in service, no line has to wait. -/
theorem not_blocked_of_idle {p : Pics} (h : p.Idle) (line : Fin 16) : ¬p.Blocked line := by
  rw [Blocked]
  split_ifs
  · exact Chip.not_blocked h.1 _
  · rintro (hb | hb)
    · exact Chip.not_blocked h.2 _ hb
    · exact Chip.not_blocked h.1 _ hb

theorem idle_programmed (mask₁ mask₂ : BitVec 8) : (programmed mask₁ mask₂).Idle := ⟨rfl, rfl⟩

/-- The kernel's acknowledgement ends an interrupt on each controller, or on the
    master alone. -/
theorem sendEndOfInterrupt_eq (p : Pics) (irq : BitVec 8) : p.sendEndOfInterrupt irq =
    { master := p.master.endOfInterrupt
      slave := if 8 ≤ irq.toNat then p.slave.endOfInterrupt else p.slave } := by
  rw [sendEndOfInterrupt]
  by_cases h : 8 ≤ irq.toNat
  · rw [if_pos h, if_pos h]
    rfl
  · rw [if_neg h, if_neg h]
    rfl

/-- An interrupt of the programmed, idle controllers gets the vector `0x20` plus its
    line. -/
theorem acknowledge_programmed_fst (mask₁ mask₂ : BitVec 8) (line : Fin 16) :
    ((programmed mask₁ mask₂).acknowledge line).1 = BitVec.ofNat 8 (0x20 + line.val) := by
  fin_cases line <;> rfl

/-- Once the kernel has acknowledged it, nothing of an interrupt of the master is
    left. -/
theorem sendEndOfInterrupt_acknowledge_of_lt (mask₁ mask₂ irq : BitVec 8) {line : Fin 16}
    (h : line.val < 8) :
    ((programmed mask₁ mask₂).acknowledge line).2.sendEndOfInterrupt irq =
      programmed mask₁ mask₂ := by
  have hm := Chip.endOfInterrupt_serve (c := (programmed mask₁ mask₂).master) rfl ⟨line.val, h⟩
  have hs := Chip.endOfInterrupt_of_idle (c := (programmed mask₁ mask₂).slave) rfl
  rw [acknowledge, if_pos h, sendEndOfInterrupt_eq]
  simp only
  rw [hm, hs, ite_self]

/-- Once the kernel has acknowledged an interrupt of the slave, nothing of it is left
    if the number passed is one of the slave; otherwise it stays in service on the
    slave. -/
theorem sendEndOfInterrupt_acknowledge_of_le (mask₁ mask₂ irq : BitVec 8) {line : Fin 16}
    (h : 8 ≤ line.val) :
    ((programmed mask₁ mask₂).acknowledge line).2.sendEndOfInterrupt irq =
      if 8 ≤ irq.toNat then programmed mask₁ mask₂
      else { programmed mask₁ mask₂ with
        slave := (programmed mask₁ mask₂).slave.serve (1#8 <<< (line.val - 8)) } := by
  have hm := Chip.endOfInterrupt_serve (c := (programmed mask₁ mask₂).master) rfl 2
  have hs := Chip.endOfInterrupt_serve (c := (programmed mask₁ mask₂).slave) rfl
    ⟨line.val - 8, by omega⟩
  rw [acknowledge, if_neg (not_lt.2 h), sendEndOfInterrupt_eq]
  simp only at hs ⊢
  rw [show (programmed mask₁ mask₂).master.cascade = 1#8 <<< (2 : Fin 8).val from rfl, hm, hs]
  by_cases hirq : 8 ≤ irq.toNat
  · rw [if_pos hirq, if_pos hirq]
  · rw [if_neg hirq, if_neg hirq]

/-- Acknowledging an interrupt leaves the controllers idle exactly when it is one of
    the master, or the number passed is one of the slave. -/
theorem idle_acknowledged (mask₁ mask₂ irq : BitVec 8) (line : Fin 16) :
    (((programmed mask₁ mask₂).acknowledge line).2.sendEndOfInterrupt irq).Idle ↔
      line.val < 8 ∨ 8 ≤ irq.toNat := by
  by_cases h : line.val < 8
  · rw [sendEndOfInterrupt_acknowledge_of_lt mask₁ mask₂ irq h]
    exact iff_of_true (idle_programmed mask₁ mask₂) (.inl h)
  rw [sendEndOfInterrupt_acknowledge_of_le mask₁ mask₂ irq (not_lt.1 h)]
  by_cases hirq : 8 ≤ irq.toNat
  · rw [if_pos hirq]
    exact iff_of_true (idle_programmed mask₁ mask₂) (.inr hirq)
  · rw [if_neg hirq]
    refine iff_of_false (fun hidle => ?_) (not_or.2 ⟨h, hirq⟩)
    have hbit : ∀ n : Fin 8, (0#8 ||| 1#8 <<< n.val) ≠ 0 := by decide
    exact hbit ⟨line.val - 8, by omega⟩ hidle.2

end Pics

end KessokuOS
