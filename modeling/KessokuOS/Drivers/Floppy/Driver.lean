import Mathlib.Logic.Function.Basic
import KessokuOS.Drivers.Floppy.Command
import KessokuOS.Drivers.Pit
import KessokuOS.Lib.Routine

/-!
# The driver of the floppy disk controller

The driver talks to a device (`Device`) through its ports, and waits for its
interrupts. What happens besides the driver happens between its steps, each of which
is the access to a port, to the flag that an interrupt is waited for, or to the
counter of the ticks, or a halt: interrupts come, whose handlers run as a whole, and
the device goes on by itself (`Happening`). All this is part of the state of the
driver, as a schedule (`State.turns`): what holds of every state holds for every
interleaving.

A log records the steps and the interrupts in their order (`Event`).
-/

namespace KessokuOS.Floppy

/-- A device at the ports of the processor. -/
class Device (δ : Type*) where
  readByte : δ → BitVec 16 → Byte × δ
  writeByte : δ → BitVec 16 → Byte → δ
  /-- It goes on without the processor. -/
  advance : δ → δ

/-- An interrupt: of the timer, of the floppy disk controller, or one that does not
    concern the driver. -/
inductive Interrupt
  | timer
  | floppy
  | other
  deriving DecidableEq, Repr

/-- What happens besides the driver. -/
inductive Happening
  | interrupt (i : Interrupt)
  | advance
  deriving DecidableEq, Repr

/-- What happens before a step of the driver; if the step is a halt, it ends by the
    interrupt `wake`. -/
structure Turn where
  before : List Happening
  wake : Interrupt

/-- What a byte written to the device is. -/
inductive Role
  | command
  | parameter
  | setting
  deriving DecidableEq, Repr

/-- An entry of the log. A byte is written to a device in the state `device`; `waited`
    is the return of a wait for an interrupt. -/
inductive Event (δ : Type*)
  | readByte (port : BitVec 16) (v : Byte)
  | writeByte (role : Role) (port : BitVec 16) (v : Byte) (device : δ)
  | getTicks (n : ℕ)
  | setWaiting
  | testWaiting (waiting : Bool)
  | halt
  | waited (r : ErrorOr Unit)
  | interrupt (i : Interrupt)

/-- The writing of a command byte. -/
def Event.IsCommand {δ : Type*} : Event δ → Prop
  | .writeByte .command _ _ _ => True
  | _ => False

/-- The state of the driver, and of what it depends on. -/
structure State (δ : Type*) where
  device : δ
  pit : Pit
  currentDrive : Byte
  waitingForIRQ : Bool
  diskMotorOn : ℕ → Bool
  parameterBytes : ℕ → Byte
  resultBytes : ℕ → Byte
  /-- What is going to happen before each of the next steps. -/
  turns : ℕ → Turn
  log : List (Event δ)

/-- `floppy_handler`: the new value of the flag, and the end of the interrupt. -/
def floppyHandler (p : Pics) : Bool × Pics := (false, p.sendEndOfInterrupt 0)

variable {δ : Type*}

namespace State

/-- The driver before its initialisation, with no tick so far. -/
def start (device : δ) (turns : ℕ → Turn) : State δ where
  device := device
  pit := ⟨0, Nat.two_pow_pos 32⟩
  currentDrive := 0
  waitingForIRQ := false
  diskMotorOn _ := false
  parameterBytes _ := 0
  resultBytes _ := 0
  turns := turns
  log := []

def record (e : Event δ) (s : State δ) : State δ := { s with log := s.log ++ [e] }

/-- The part of the handler of an interrupt that concerns the driver. -/
def handle (s : State δ) : Interrupt → State δ
  | .timer => { s with pit := s.pit.tick }
  | .floppy => { s with waitingForIRQ := false }
  | .other => s

def interrupt (i : Interrupt) (s : State δ) : State δ := (s.handle i).record (.interrupt i)

theorem log_interrupt (i : Interrupt) (s : State δ) :
    (s.interrupt i).log = s.log ++ [.interrupt i] := by
  cases i <;> rfl

variable [Device δ]

def happen (s : State δ) : Happening → State δ
  | .interrupt i => s.interrupt i
  | .advance => { s with device := Device.advance s.device }

/-- The state in which the next step of the driver finds everything. -/
def turn (s : State δ) : State δ :=
  { (s.turns 0).before.foldl happen s with turns := fun n => s.turns (n + 1) }

/-- What every interrupt and every advance of the device keep holds in front of the
    next step. -/
theorem turn_induction {I : State δ → Prop} {s : State δ} (hs : I s)
    (hinterrupt : ∀ s i, I s → I (s.interrupt i))
    (hadvance : ∀ s, I s → I { s with device := Device.advance s.device })
    (hturns : ∀ s turns, I s → I { s with turns := turns }) : I s.turn := by
  have hfold : ∀ (l : List Happening) (s : State δ), I s → I (l.foldl happen s) := by
    intro l
    induction l with
    | nil => exact fun _ => id
    | cons a l ih =>
      intro s hs
      refine ih _ ?_
      cases a with
      | interrupt i => exact hinterrupt s i hs
      | advance => exact hadvance s hs
  exact hturns _ _ (hfold _ s hs)

/-- What no interrupt and no advance of the device changes is the same in front of the
    next step. -/
theorem turn_eq {β : Type*} (f : State δ → β) (s : State δ)
    (hinterrupt : ∀ s i, f (s.interrupt i) = f s)
    (hadvance : ∀ s, f { s with device := Device.advance s.device } = f s)
    (hturns : ∀ s turns, f { s with turns := turns } = f s) : f s.turn = f s :=
  turn_induction (I := fun s' => f s' = f s) rfl (fun s' i hs' => (hinterrupt s' i).trans hs')
    (fun s' hs' => (hadvance s').trans hs') fun s' turns hs' => (hturns s' turns).trans hs'

theorem currentDrive_turn (s : State δ) : s.turn.currentDrive = s.currentDrive :=
  turn_eq currentDrive s (fun _ i => by cases i <;> rfl) (fun _ => rfl) fun _ _ => rfl

theorem resultBytes_turn (s : State δ) : s.turn.resultBytes = s.resultBytes :=
  turn_eq resultBytes s (fun _ i => by cases i <;> rfl) (fun _ => rfl) fun _ _ => rfl

end State

/-- A routine of the driver. -/
abbrev Driver (δ : Type*) := Routine Error (State δ)

open Routine

variable [Device δ]

/-! ## Steps -/

def portReadByte (port : BitVec 16) : Driver δ Byte := fun s =>
  let s := s.turn
  let (v, device) := Device.readByte s.device port
  (.ok v, { s with device := device }.record (.readByte port v))

def portWriteByte (role : Role) (port : BitVec 16) (v : Byte) : Driver δ Unit := fun s =>
  let s := s.turn
  (.ok (), { s with device := Device.writeByte s.device port v }.record
    (.writeByte role port v s.device))

def getTicks : Driver δ ℕ := fun s =>
  let s := s.turn
  (.ok s.pit.getTicks, s.record (.getTicks s.pit.getTicks))

/-- Reads the flag. -/
def testWaiting : Driver δ Bool := fun s =>
  let s := s.turn
  (.ok s.waitingForIRQ, s.record (.testWaiting s.waitingForIRQ))

/-- Sets the flag. -/
def setWaiting : Driver δ Unit := fun s =>
  (.ok (), { s.turn with waitingForIRQ := true }.record .setWaiting)

/-- `KERNEL_HALT`: the processor halts until the next interrupt. -/
def halt : Driver δ Unit := fun s =>
  (.ok (), (s.turn.record .halt).interrupt (s.turns 0).wake)

/-- Records the return of a wait. -/
def returning (f : Driver δ Unit) : Driver δ Unit := fun s =>
  match f s with
  | (.ok (), s) => (.ok (), s.record (.waited (.ok ())))
  | (.error e, s) => (.error e, s.record (.waited (.error e)))
  | (.running, s) => (.running, s)

/-! ## The routines -/

def digitalOutputRegister : BitVec 16 := 0x3F2

def mainStatusRegister : BitVec 16 := 0x3F4

def datarateSelectRegister : BitVec 16 := 0x3F4

def dataFifo : BitVec 16 := 0x3F5

def configurationControlRegister : BitVec 16 := 0x3F7

def msrReadAttemptCount : ℕ := 3

def commandAttemptCount : ℕ := 3

def timeoutTime : ℕ := 3 * Pit.ticksPerSecond

def diskSpinupWaitTime : ℕ := 300

/-- `sleep`. -/
def sleepFrom (start ticks : ℕ) : (fuel : ℕ) → Driver δ Unit
  | 0 => outOfFuel
  | fuel + 1 => do
    let now ← getTicks
    if u32Sub now start < ticks then do
      halt
      sleepFrom start ticks fuel
    else pure ()

def sleep (fuel ticks : ℕ) : Driver δ Unit := do
  let start ← getTicks
  sleepFrom start ticks fuel

/-- The loop of `readMsrUntilRqm`, with `n` attempts left. -/
def readMsrUntilRqmFrom : (n : ℕ) → Driver δ Byte
  | 0 => throw .retryLimitReached
  | n + 1 => do
    let msr ← portReadByte mainStatusRegister
    if msr &&& 0x80 = 0x80 then pure msr else readMsrUntilRqmFrom n

def readMsrUntilRqm : Driver δ Byte := readMsrUntilRqmFrom msrReadAttemptCount

/-- The loop of `waitForIrq`. -/
def waitForIrqFrom (start : ℕ) : (fuel : ℕ) → Driver δ Unit
  | 0 => outOfFuel
  | fuel + 1 => do
    let now ← getTicks
    if u32Sub now start < timeoutTime then do
      let waiting ← testWaiting
      if !waiting then pure ()
      else do
        halt
        waitForIrqFrom start fuel
    else throw .timedOut

def waitForIrq (fuel : ℕ) : Driver δ Unit := returning do
  let start ← getTicks
  waitForIrqFrom start fuel

/-- Sets the parameters from the index `i` on. -/
def setParametersFrom : (i : ℕ) → List Byte → Driver δ Unit
  | _, [] => pure ()
  | i, p :: ps => do
    modify fun s => { s with parameterBytes := Function.update s.parameterBytes i p }
    setParametersFrom (i + 1) ps

/-- The loop of `sendCommand` over the parameters, from the index `i` on with `n` to
    go. -/
def sendParametersFrom : (i n : ℕ) → Driver δ Unit
  | _, 0 => pure ()
  | i, n + 1 => do
    let msr ← readMsrUntilRqm
    assert (msr &&& 0xc0 = 0x80) .driverCommandFailed
    let p ← get fun s => s.parameterBytes i
    portWriteByte .parameter dataFifo p
    sendParametersFrom (i + 1) n

/-- Reads the result byte with the index `i`, after which the status has to be
    `status`. -/
def receiveResult (i : ℕ) (status : Byte) : Driver δ Unit := do
  let v ← portReadByte dataFifo
  modify fun s => { s with resultBytes := Function.update s.resultBytes i v }
  let msr ← readMsrUntilRqm
  assert (msr &&& 0x50 = status) .driverCommandFailed

/-- The loop of `sendCommand` over the result bytes before the last one. -/
def receiveResultsFrom : (i n : ℕ) → Driver δ Unit
  | _, 0 => pure ()
  | i, n + 1 => do
    receiveResult i 0x50
    receiveResultsFrom (i + 1) n

/-- The end of `sendCommand`. -/
def receiveResults (c : Command) : Driver δ Unit :=
  when (c.getResultByteCount ≠ 0) do
    receiveResultsFrom 0 (c.getResultByteCount - 1)
    receiveResult (c.getResultByteCount - 1) 0x00

/-- What `sendCommand` does behind the command byte. -/
def sendParameters (fuel : ℕ) (c : Command) : Driver δ Unit := do
  when (commandHasInterrupt c) setWaiting
  sendParametersFrom 0 c.getParameterCount
  when (commandHasInterrupt c) (waitForIrq fuel)
  receiveResults c

def sendCommand (fuel : ℕ) (c : Command) : Driver δ Unit := do
  let msr ← portReadByte mainStatusRegister
  assert (msr &&& 0xc0 = 0x80) .driverDeviceNeedsReset
  portWriteByte .command dataFifo c.toByte
  sendParameters fuel c

/-- The loop of `executeCommand`, with `n` attempts left. -/
def executeCommandFrom (fuel : ℕ) (c : Command) : (n : ℕ) → Driver δ Unit
  | 0 => throw .timedOut
  | n + 1 => orElse (sendCommand fuel c) (executeCommandFrom fuel c n)

def executeCommand (fuel : ℕ) (c : Command) (ps : List Byte) : Driver δ Unit := do
  setParametersFrom 0 ps
  executeCommandFrom fuel c commandAttemptCount

def selectDrive (fuel : ℕ) (drive : Byte) (motorOn : Bool) : Driver δ Unit := do
  assert (drive < 4) .indexOutOfRange
  let currentDrive ← get State.currentDrive
  when (currentDrive ≠ drive) do
    portWriteByte .setting configurationControlRegister 0
    executeCommand fuel .specify [(8 <<< 4) ||| 0, (5 <<< 1) ||| 0]
  let currentDrive ← get State.currentDrive
  let diskMotorOn ← get State.diskMotorOn
  when (currentDrive ≠ drive || diskMotorOn drive.toNat ≠ motorOn) do
    portWriteByte .setting digitalOutputRegister
      (((if motorOn then 1 else 0) <<< (4 + drive.toNat)) ||| (0x0C ||| drive))
  modify fun s => { s with
    currentDrive := drive
    diskMotorOn := Function.update s.diskMotorOn drive.toNat motorOn }
  sleep fuel diskSpinupWaitTime

def reset (fuel : ℕ) (drive : Byte) (motorOn : Bool) : Driver δ Unit := do
  setWaiting
  portWriteByte .setting datarateSelectRegister 0x80
  waitForIrq fuel
  selectDrive fuel drive motorOn

omit [Device δ] in
/-- Setting the parameters changes nothing else. -/
theorem setParametersFrom_eq (i : ℕ) (ps : List Byte) (s : State δ) :
    ∃ bytes, setParametersFrom i ps s = (.ok (), { s with parameterBytes := bytes }) := by
  induction ps generalizing i s with
  | nil => exact ⟨s.parameterBytes, rfl⟩
  | cons p ps ih => exact ih (i + 1) _

/-! ## Rules

What the steps of a routine keep, it keeps. -/

section Rules

variable {R : State δ → State δ → Prop} [Std.Refl R] [IsTrans (State δ) R]

theorem keeps_sleep (ht : Keeps R (getTicks : Driver δ ℕ)) (hh : Keeps R (halt : Driver δ Unit))
    (fuel ticks : ℕ) : Keeps R (sleep fuel ticks : Driver δ Unit) := by
  refine ht.bind fun start => ?_
  induction fuel with
  | zero => exact .outOfFuel
  | succ fuel ih =>
    refine ht.bind fun now => ?_
    split_ifs
    · exact hh.bind fun _ => ih
    · exact .pure ()

theorem keeps_readMsrUntilRqm (hr : Keeps R (portReadByte mainStatusRegister : Driver δ Byte)) :
    Keeps R (readMsrUntilRqm : Driver δ Byte) := by
  have hfrom : ∀ n, Keeps R (readMsrUntilRqmFrom n : Driver δ Byte) := by
    intro n
    induction n with
    | zero => exact .throw _
    | succ n ih =>
      refine hr.bind fun msr => ?_
      split_ifs
      · exact .pure msr
      · exact ih
  exact hfrom _

theorem keeps_waitForIrq (ht : Keeps R (getTicks : Driver δ ℕ))
    (htest : Keeps R (testWaiting : Driver δ Bool)) (hh : Keeps R (halt : Driver δ Unit))
    (hret : ∀ r s, R s (s.record (.waited r))) (fuel : ℕ) :
    Keeps R (waitForIrq fuel : Driver δ Unit) := by
  have hfrom : ∀ start, Keeps R (waitForIrqFrom start fuel : Driver δ Unit) := by
    intro start
    induction fuel with
    | zero => exact .outOfFuel
    | succ fuel ih =>
      refine ht.bind fun now => ?_
      split_ifs
      · refine htest.bind fun waiting => ?_
        cases waiting
        · exact .pure ()
        · exact hh.bind fun _ => ih
      · exact .throw _
  intro s
  have hs := (ht.bind hfrom) s
  rw [waitForIrq, returning]
  rcases h : (getTicks >>= fun start => waitForIrqFrom start fuel : Driver δ Unit) s with ⟨r, s'⟩
  rw [h] at hs
  cases r with
  | ok a => exact trans_of R hs (hret _ s')
  | error e => exact trans_of R hs (hret _ s')
  | running => exact hs

omit [Device δ] in
theorem keeps_setParametersFrom
    (hm : ∀ (s : State δ) bytes, R s { s with parameterBytes := bytes }) (i : ℕ) (ps : List Byte) :
    Keeps R (setParametersFrom i ps : Driver δ Unit) := by
  induction ps generalizing i with
  | nil => exact .pure ()
  | cons p ps ih => exact Keeps.bind (fun s => hm s _) fun _ => ih (i + 1)

theorem keeps_sendParametersFrom (hr : Keeps R (portReadByte mainStatusRegister : Driver δ Byte))
    (hw : ∀ v, Keeps R (portWriteByte .parameter dataFifo v : Driver δ Unit)) (i n : ℕ) :
    Keeps R (sendParametersFrom i n : Driver δ Unit) := by
  induction n generalizing i with
  | zero => exact .pure ()
  | succ n ih =>
    refine (keeps_readMsrUntilRqm hr).bind fun msr => (Keeps.assert _ _).bind fun _ => ?_
    exact (Keeps.get _).bind fun p => (hw p).bind fun _ => ih (i + 1)

theorem keeps_receiveResults (hr : ∀ port, Keeps R (portReadByte port : Driver δ Byte))
    (hm : ∀ (s : State δ) bytes, R s { s with resultBytes := bytes }) (c : Command) :
    Keeps R (receiveResults c : Driver δ Unit) := by
  have hone : ∀ i status, Keeps R (receiveResult i status : Driver δ Unit) := by
    intro i status
    refine (hr _).bind fun v => Keeps.bind (fun s => hm s _) fun _ => ?_
    exact (keeps_readMsrUntilRqm (hr _)).bind fun msr => Keeps.assert _ _
  have hfrom : ∀ i n, Keeps R (receiveResultsFrom i n : Driver δ Unit) := by
    intro i n
    induction n generalizing i with
    | zero => exact .pure ()
    | succ n ih => exact (hone i _).bind fun _ => ih (i + 1)
  exact Keeps.when ((hfrom _ _).bind fun _ => hone _ _)

theorem keeps_executeCommand
    (hm : ∀ (s : State δ) bytes, R s { s with parameterBytes := bytes }) {fuel : ℕ} {c : Command}
    (hs : Keeps R (sendCommand fuel c : Driver δ Unit)) (ps : List Byte) :
    Keeps R (executeCommand fuel c ps : Driver δ Unit) := by
  have hfrom : ∀ n, Keeps R (executeCommandFrom fuel c n : Driver δ Unit) := by
    intro n
    induction n with
    | zero => exact .throw _
    | succ n ih => exact hs.orElse ih
  exact (keeps_setParametersFrom hm 0 ps).bind fun _ => hfrom _

theorem keeps_selectDrive {fuel : ℕ}
    (hm : ∀ (s : State δ) bytes, R s { s with parameterBytes := bytes })
    (hd : ∀ (s : State δ) drive motors, R s { s with currentDrive := drive, diskMotorOn := motors })
    (hc : ∀ v, Keeps R (portWriteByte .setting configurationControlRegister v : Driver δ Unit))
    (ho : ∀ v, Keeps R (portWriteByte .setting digitalOutputRegister v : Driver δ Unit))
    (hs : Keeps R (sendCommand fuel .specify : Driver δ Unit))
    (ht : Keeps R (getTicks : Driver δ ℕ)) (hh : Keeps R (halt : Driver δ Unit)) (drive : Byte)
    (motorOn : Bool) : Keeps R (selectDrive fuel drive motorOn : Driver δ Unit) := by
  refine (Keeps.assert _ _).bind fun _ => (Keeps.get _).bind fun _ => ?_
  refine (Keeps.when ((hc _).bind fun _ => keeps_executeCommand hm hs _)).bind fun _ => ?_
  refine (Keeps.get _).bind fun _ => (Keeps.get _).bind fun _ => ?_
  refine (Keeps.when (ho _)).bind fun _ => ?_
  exact Keeps.bind (fun s => hd s _ _) fun _ => keeps_sleep ht hh _ _

end Rules

/-- A sleep has no end but its own. -/
theorem avoids_sleep (e : Error) (fuel ticks : ℕ) :
    Avoids e (sleep fuel ticks : Driver δ Unit) := by
  refine Avoids.bind (fun _ => nofun) fun start => ?_
  induction fuel with
  | zero => exact fun _ => nofun
  | succ fuel ih =>
    refine Avoids.bind (fun _ => nofun) fun now => ?_
    split_ifs
    · exact Avoids.bind (fun _ => nofun) fun _ => ih
    · exact .pure ()

/-! ## Logs -/

/-- The log has grown by events with `G`. -/
def Logs (G : Event δ → Prop) (s s' : State δ) : Prop :=
  ∃ l, s'.log = s.log ++ l ∧ ∀ e ∈ l, G e

section Logs

variable {G : Event δ → Prop} {s s' : State δ}

omit [Device δ] in
theorem logs_of_log_eq (h : s'.log = s.log) : Logs G s s' :=
  ⟨[], by rw [h, List.append_nil], nofun⟩

instance : Std.Refl (Logs G) := ⟨fun _ => logs_of_log_eq rfl⟩

instance : IsTrans (State δ) (Logs G) where
  trans := by
    rintro s s' s'' ⟨l, hl, hg⟩ ⟨l', hl', hg'⟩
    refine ⟨l ++ l', by rw [hl', hl, List.append_assoc], fun e he => ?_⟩
    exact (List.mem_append.1 he).elim (hg e) (hg' e)

omit [Device δ] in
theorem logs_record {e : Event δ} (he : G e) (s : State δ) : Logs G s (s.record e) :=
  ⟨[e], rfl, fun _ h => List.mem_singleton.1 h ▸ he⟩

variable (hi : ∀ i, G (.interrupt i))
include hi

omit [Device δ] in
theorem logs_interrupt (i : Interrupt) (s : State δ) : Logs G s (s.interrupt i) :=
  ⟨[.interrupt i], s.log_interrupt i, fun _ h => List.mem_singleton.1 h ▸ hi i⟩

theorem logs_turn (s : State δ) : Logs G s s.turn := by
  refine State.turn_induction (I := Logs G s) (refl_of (Logs G) s) ?_ ?_ ?_
  · exact fun s' i hs' => trans_of (Logs G) hs' (logs_interrupt hi i s')
  · exact fun s' hs' => trans_of (Logs G) hs' (logs_of_log_eq rfl)
  · exact fun s' _ hs' => trans_of (Logs G) hs' (logs_of_log_eq rfl)

/-- A step of the driver logs what happens before it, and itself. -/
theorem logs_step {e : Event δ} (h : s'.log = s.turn.log ++ [e]) (he : G e) : Logs G s s' :=
  trans_of (Logs G) (logs_turn hi s) ⟨[e], h, fun _ h => List.mem_singleton.1 h ▸ he⟩

theorem keeps_logs_halt (hh : G .halt) : Keeps (Logs G) (halt : Driver δ Unit) := by
  intro s
  have hs : Logs G s (s.turn.record .halt) := logs_step hi rfl hh
  exact trans_of (Logs G) hs (logs_interrupt hi _ _)

omit hi in
/-- What all events but the writing of a command are like, those behind it are like. -/
theorem keeps_logs_sendParameters (hG : ∀ e, ¬e.IsCommand → G e)
    (fuel : ℕ) (c : Command) : Keeps (Logs G) (sendParameters fuel c : Driver δ Unit) := by
  have hi : ∀ i, G (.interrupt i) := fun i => hG _ id
  have hread : ∀ port, Keeps (Logs G) (portReadByte port : Driver δ Byte) :=
    fun port s => logs_step hi rfl (hG _ id)
  have hwrite : ∀ v, Keeps (Logs G) (portWriteByte .parameter dataFifo v : Driver δ Unit) :=
    fun v s => logs_step hi rfl (hG _ id)
  have hset : Keeps (Logs G) (setWaiting : Driver δ Unit) :=
    fun s => logs_step hi rfl (hG _ id)
  have hticks : Keeps (Logs G) (getTicks : Driver δ ℕ) :=
    fun s => logs_step hi rfl (hG _ id)
  have htest : Keeps (Logs G) (testWaiting : Driver δ Bool) :=
    fun s => logs_step hi rfl (hG _ id)
  have hwait : Keeps (Logs G) (waitForIrq fuel : Driver δ Unit) :=
    keeps_waitForIrq hticks htest (keeps_logs_halt hi (hG _ id))
      (fun r s => logs_record (hG _ id) s) fuel
  refine (Keeps.when hset).bind fun _ => ?_
  refine (keeps_sendParametersFrom (hread _) hwrite _ _).bind fun _ => ?_
  refine (Keeps.when hwait).bind fun _ => ?_
  exact keeps_receiveResults hread (fun s bytes => logs_of_log_eq rfl) c

end Logs

end KessokuOS.Floppy
