import KessokuOS.Common

/-!
# The commands of the floppy disk controller

A command is a byte, which is followed by parameters (`Command.getParameterCount`);
some commands interrupt when they are done (`commandHasInterrupt`), and most give
result bytes (`getResultByteCount`).
-/

namespace KessokuOS.Floppy

inductive Command
  | readTrack
  | specify
  | senseDriveStatus
  | writeData
  | readData
  | recalibrate
  | senseInterrupt
  | writeDeletedData
  | readId
  | readDeletedData
  | formatTrack
  | dumpreg
  | seek
  | version
  | scanEqual
  | perpendicularMode
  | configure
  | lock
  | verify
  | scanLowOrEqual
  | scanHighOrEqual
  deriving DecidableEq, Repr

namespace Command

def all : List Command :=
  [readTrack, specify, senseDriveStatus, writeData, readData, recalibrate, senseInterrupt,
    writeDeletedData, readId, readDeletedData, formatTrack, dumpreg, seek, version, scanEqual,
    perpendicularMode, configure, lock, verify, scanLowOrEqual, scanHighOrEqual]

/-- The byte of a command; the high bits are options. -/
def toByte : Command → Byte
  | readTrack => 2
  | specify => 3
  | senseDriveStatus => 4
  | writeData => 5 ||| 0xC0
  | readData => 6 ||| 0xC0
  | recalibrate => 7
  | senseInterrupt => 8
  | writeDeletedData => 9
  | readId => 10
  | readDeletedData => 12
  | formatTrack => 13 ||| 0x40
  | dumpreg => 14
  | seek => 15
  | version => 16
  | scanEqual => 17
  | perpendicularMode => 18
  | configure => 19
  | lock => 20
  | verify => 22 ||| 0x40
  | scanLowOrEqual => 25
  | scanHighOrEqual => 29

/-- The command of a byte, if there is one. -/
def ofByte (v : Byte) : Option Command := all.find? fun c => c.toByte = v

theorem ofByte_toByte (c : Command) : ofByte c.toByte = some c := by
  cases c <;> decide

def getParameterCount : Command → ℕ
  | readTrack => 8
  | specify => 2
  | senseDriveStatus => 1
  | writeData => 8
  | readData => 8
  | recalibrate => 1
  | senseInterrupt => 0
  | writeDeletedData => 8
  | readId => 1
  | readDeletedData => 8
  | formatTrack => 9
  | dumpreg => 0
  | seek => 2
  | version => 0
  | scanEqual => 8
  | perpendicularMode => 1
  | configure => 3
  | lock => 0
  | verify => 8
  | scanLowOrEqual => 8
  | scanHighOrEqual => 8

def getResultByteCount : Command → ℕ
  | readTrack => 7
  | specify => 0
  | senseDriveStatus => 1
  | writeData => 7
  | readData => 7
  | recalibrate => 0
  | senseInterrupt => 2
  | writeDeletedData => 7
  | readId => 7
  | readDeletedData => 7
  | formatTrack => 7
  | dumpreg => 10
  | seek => 0
  | version => 1
  | scanEqual => 7
  | perpendicularMode => 0
  | configure => 0
  | lock => 1
  | verify => 7
  | scanLowOrEqual => 7
  | scanHighOrEqual => 7

end Command

def commandHasInterrupt (c : Command) : Bool :=
  c = .verify || c = .readData || c = .writeData || c = .recalibrate || c = .seek

end KessokuOS.Floppy
