import KessokuOS.Drivers.Floppy.Driver

/-!
# The floppy disk controller

The controller takes a command byte, then the parameters of the command, executes it,
and gives its result bytes (`Controller.Phase`). It is ready for each byte after a
delay of its own, a number of reads of its status (`Controller.delays`), and executes
a command as long as it likes (`Device.advance`).
-/

namespace KessokuOS.Floppy

/-- What the controller does; it expects or has `left` more bytes. -/
inductive Controller.Phase
  | command
  | parameter (c : Command) (left : ℕ)
  | execution (c : Command)
  | result (left : ℕ)
  deriving DecidableEq, Repr

structure Controller where
  phase : Controller.Phase
  /-- The reads of the status for which it is not ready yet for the next byte. -/
  delay : ℕ
  /-- The delays of the bytes behind the next one. -/
  delays : ℕ → ℕ
  /-- What the next reads of the data port give. -/
  bytes : ℕ → Byte

namespace Controller

/-- A controller that is ready for a command after `delay` reads of its status, and for
    all other bytes at once. -/
def expecting (delay : ℕ) : Controller := ⟨.command, delay, fun _ => 0, fun _ => 0⟩

/-- Goes on to the next byte. -/
def enter (p : Phase) (d : Controller) : Controller :=
  { d with phase := p, delay := d.delays 0, delays := fun n => d.delays (n + 1) }

/-- The status once the controller is ready: RQM, the direction, and that it is
    busy. -/
def Phase.status : Phase → Byte
  | command => 0x80
  | parameter _ _ => 0x90
  | execution _ => 0x10
  | result _ => 0xD0

/-- The status; RQM is low until the delay is over. -/
def status (d : Controller) : Byte :=
  if d.delay = 0 then d.phase.status else d.phase.status &&& 0x7F

def readStatus (d : Controller) : Byte × Controller := (d.status, { d with delay := d.delay - 1 })

/-- Reads the data port, which gives a result byte if it is ready. -/
def readData (d : Controller) : Byte × Controller :=
  let v := d.bytes 0
  let d' := { d with bytes := fun n => d.bytes (n + 1) }
  match d.phase with
  | .result left =>
    if d.delay = 0 then (v, d'.enter (if left ≤ 1 then .command else .result (left - 1)))
    else (v, d')
  | _ => (v, d')

/-- Goes on with `left` more parameters of a command. -/
def parameters (c : Command) (left : ℕ) (d : Controller) : Controller :=
  if left = 0 then { d with phase := .execution c } else d.enter (.parameter c left)

/-- Takes a byte at the data port, if it is ready for one. A byte that is no command
    has one result byte. -/
def writeData (d : Controller) (v : Byte) : Controller :=
  if d.delay = 0 then
    match d.phase with
    | .command =>
      match Command.ofByte v with
      | some c => d.parameters c c.getParameterCount
      | none => d.enter (.result 1)
    | .parameter c left => d.parameters c (left - 1)
    | _ => d
  else d

/-- The execution of a command comes to its end. -/
def finish (d : Controller) : Controller :=
  match d.phase with
  | .execution c =>
    d.enter (if c.getResultByteCount = 0 then .command else .result c.getResultByteCount)
  | _ => d

end Controller

/-- The ports of commands; those of settings do not matter to them. -/
instance : Device Controller where
  readByte d port :=
    if port = mainStatusRegister then d.readStatus
    else if port = dataFifo then d.readData
    else (0, d)
  writeByte d port v := if port = dataFifo then d.writeData v else d
  advance := Controller.finish

end KessokuOS.Floppy
