import Mathlib.Logic.Function.Basic
import KessokuOS.Common

/-!
# Keys

The keys of the keyboard (`Keycode`), each with a number below 256 which is its own
(`Keycode.value_injective`); the two tables that give the key of a scan code, for
codes of one byte (`scancodeMapSingleByte`) and for those behind the byte `0xE0`
(`scancodeMapE0`); and the character that a key types (`getKeycodeChar`).
-/

namespace KessokuOS

/-- The keys, row by row. -/
inductive Keycode
  | escape
  | f1
  | f2
  | f3
  | f4
  | f5
  | f6
  | f7
  | f8
  | f9
  | f10
  | f11
  | f12
  | printScreen
  | scrollLock
  | pauseBreak
  | backtick
  | key1
  | key2
  | key3
  | key4
  | key5
  | key6
  | key7
  | key8
  | key9
  | key0
  | minus
  | equals
  | backspace
  | insert
  | home
  | pageUp
  | numberLock
  | keypadSlash
  | keypadMultiply
  | keypadMinus
  | tab
  | keyQ
  | keyW
  | keyE
  | keyR
  | keyT
  | keyY
  | keyU
  | keyI
  | keyO
  | keyP
  | leftBracket
  | rightBracket
  | enter
  | delete
  | end
  | pageDown
  | keypad7
  | keypad8
  | keypad9
  | keypadPlus
  | capslock
  | keyA
  | keyS
  | keyD
  | keyF
  | keyG
  | keyH
  | keyJ
  | keyK
  | keyL
  | semicolon
  | apostrophe
  | hash
  | keypad4
  | keypad5
  | keypad6
  | leftShift
  | backslash
  | keyZ
  | keyX
  | keyC
  | keyV
  | keyB
  | keyN
  | keyM
  | comma
  | fullstop
  | slash
  | rightShift
  | upArrow
  | keypad1
  | keypad2
  | keypad3
  | keypadEnter
  | leftCtrl
  | leftSuper
  | leftAlt
  | space
  | rightAlt
  | rightSuper
  | menu
  | rightCtrl
  | leftArrow
  | downArrow
  | rightArrow
  | keypad0
  | keypadFullstop
  | unknown
  deriving DecidableEq, Repr

namespace Keycode

/-- The number of a key: its row in the upper three bits, its column in the others. -/
def value : Keycode → ℕ
  | .escape => 0b00000000
  | .f1 => 0b00000001
  | .f2 => 0b00000010
  | .f3 => 0b00000011
  | .f4 => 0b00000100
  | .f5 => 0b00000101
  | .f6 => 0b00000110
  | .f7 => 0b00000111
  | .f8 => 0b00001000
  | .f9 => 0b00001001
  | .f10 => 0b00001010
  | .f11 => 0b00001011
  | .f12 => 0b00001100
  | .printScreen => 0b00001101
  | .scrollLock => 0b00001110
  | .pauseBreak => 0b00001111
  | .backtick => 0b00100000
  | .key1 => 0b00100001
  | .key2 => 0b00100010
  | .key3 => 0b00100011
  | .key4 => 0b00100100
  | .key5 => 0b00100101
  | .key6 => 0b00100110
  | .key7 => 0b00100111
  | .key8 => 0b00101000
  | .key9 => 0b00101001
  | .key0 => 0b00101010
  | .minus => 0b00101011
  | .equals => 0b00101100
  | .backspace => 0b00101101
  | .insert => 0b00101110
  | .home => 0b00101111
  | .pageUp => 0b00110000
  | .numberLock => 0b00110001
  | .keypadSlash => 0b00110010
  | .keypadMultiply => 0b00110011
  | .keypadMinus => 0b00110100
  | .tab => 0b01000000
  | .keyQ => 0b01000001
  | .keyW => 0b01000010
  | .keyE => 0b01000011
  | .keyR => 0b01000100
  | .keyT => 0b01000101
  | .keyY => 0b01000110
  | .keyU => 0b01000111
  | .keyI => 0b01001000
  | .keyO => 0b01001001
  | .keyP => 0b01001010
  | .leftBracket => 0b01001011
  | .rightBracket => 0b01001100
  | .enter => 0b01001101
  | .delete => 0b01001110
  | .end => 0b01001111
  | .pageDown => 0b01010000
  | .keypad7 => 0b01010001
  | .keypad8 => 0b01010010
  | .keypad9 => 0b01010011
  | .keypadPlus => 0b01010100
  | .capslock => 0b01100000
  | .keyA => 0b01100001
  | .keyS => 0b01100010
  | .keyD => 0b01100011
  | .keyF => 0b01100100
  | .keyG => 0b01100101
  | .keyH => 0b01100110
  | .keyJ => 0b01100111
  | .keyK => 0b01101000
  | .keyL => 0b01101001
  | .semicolon => 0b01101010
  | .apostrophe => 0b01101011
  | .hash => 0b01101100
  | .keypad4 => 0b01101101
  | .keypad5 => 0b01101110
  | .keypad6 => 0b01101111
  | .leftShift => 0b10000000
  | .backslash => 0b10000001
  | .keyZ => 0b10000010
  | .keyX => 0b10000011
  | .keyC => 0b10000100
  | .keyV => 0b10000101
  | .keyB => 0b10000110
  | .keyN => 0b10000111
  | .keyM => 0b10001000
  | .comma => 0b10001001
  | .fullstop => 0b10001010
  | .slash => 0b10001011
  | .rightShift => 0b10001100
  | .upArrow => 0b10001101
  | .keypad1 => 0b10001110
  | .keypad2 => 0b10001111
  | .keypad3 => 0b10010000
  | .keypadEnter => 0b10010001
  | .leftCtrl => 0b10100000
  | .leftSuper => 0b10100001
  | .leftAlt => 0b10100010
  | .space => 0b10100011
  | .rightAlt => 0b10100100
  | .rightSuper => 0b10100101
  | .menu => 0b10100110
  | .rightCtrl => 0b10100111
  | .leftArrow => 0b10101000
  | .downArrow => 0b10101001
  | .rightArrow => 0b10101010
  | .keypad0 => 0b10101011
  | .keypadFullstop => 0b10101100
  | .unknown => 0b11111111

/-- How many keys lie in the rows above the row of a number. -/
def keysAbove (row : ℕ) : ℕ := [0, 16, 37, 58, 74, 92].getD row 74

/-- The keys are numbered in their order. -/
theorem leftInverse_value :
    Function.LeftInverse (fun v => ofNat (keysAbove (v / 32) + v % 32)) value := by
  intro k
  cases k <;> rfl

theorem value_injective : Function.Injective value :=
  leftInverse_value.injective

end Keycode

/-- The key of a scan code of one byte. -/
def scancodeMapSingleByte (b : BitVec 8) : Keycode :=
  match b.toNat with
  | 0x01 => .f9
  | 0x03 => .f5
  | 0x04 => .f3
  | 0x05 => .f1
  | 0x06 => .f2
  | 0x07 => .f12
  | 0x09 => .f10
  | 0x0a => .f8
  | 0x0b => .f6
  | 0x0c => .f4
  | 0x0d => .tab
  | 0x0e => .backtick
  | 0x11 => .leftAlt
  | 0x12 => .leftShift
  | 0x14 => .leftCtrl
  | 0x15 => .keyQ
  | 0x16 => .key1
  | 0x1a => .keyZ
  | 0x1b => .keyS
  | 0x1c => .keyA
  | 0x1d => .keyW
  | 0x1e => .key2
  | 0x21 => .keyC
  | 0x22 => .keyX
  | 0x23 => .keyD
  | 0x24 => .keyE
  | 0x25 => .key4
  | 0x26 => .key3
  | 0x29 => .space
  | 0x2a => .keyV
  | 0x2b => .keyF
  | 0x2c => .keyT
  | 0x2d => .keyR
  | 0x2e => .key5
  | 0x31 => .keyN
  | 0x32 => .keyB
  | 0x33 => .keyH
  | 0x34 => .keyG
  | 0x35 => .keyY
  | 0x36 => .key6
  | 0x3a => .keyM
  | 0x3b => .keyJ
  | 0x3c => .keyU
  | 0x3d => .key7
  | 0x3e => .key8
  | 0x41 => .comma
  | 0x42 => .keyK
  | 0x43 => .keyI
  | 0x44 => .keyO
  | 0x45 => .key0
  | 0x46 => .key9
  | 0x49 => .fullstop
  | 0x4a => .slash
  | 0x4b => .keyL
  | 0x4c => .semicolon
  | 0x4d => .keyP
  | 0x4e => .minus
  | 0x52 => .apostrophe
  | 0x54 => .leftBracket
  | 0x55 => .equals
  | 0x58 => .capslock
  | 0x59 => .rightShift
  | 0x5a => .enter
  | 0x5b => .rightBracket
  | 0x5d => .backslash
  | 0x66 => .backspace
  | 0x69 => .keypad1
  | 0x6b => .keypad4
  | 0x6c => .keypad7
  | 0x70 => .keypad0
  | 0x71 => .keypadFullstop
  | 0x72 => .keypad2
  | 0x73 => .keypad5
  | 0x74 => .keypad6
  | 0x75 => .keypad8
  | 0x76 => .escape
  | 0x77 => .numberLock
  | 0x78 => .f11
  | 0x79 => .keypadPlus
  | 0x7a => .keypad3
  | 0x7b => .keypadMinus
  | 0x7c => .keypadMultiply
  | 0x7d => .keypad9
  | 0x7e => .scrollLock
  | 0x83 => .f7
  | _ => .unknown

/-- The key of a scan code behind the byte `0xE0`. -/
def scancodeMapE0 (b : BitVec 8) : Keycode :=
  match b.toNat with
  | 0x11 => .rightAlt
  | 0x14 => .rightCtrl
  | 0x1f => .leftSuper
  | 0x27 => .rightSuper
  | 0x2f => .menu
  | 0x4a => .keypadSlash
  | 0x5a => .keypadEnter
  | 0x69 => .end
  | 0x6b => .leftArrow
  | 0x6c => .home
  | 0x70 => .insert
  | 0x71 => .delete
  | 0x72 => .downArrow
  | 0x74 => .rightArrow
  | 0x75 => .upArrow
  | 0x7a => .pageDown
  | 0x7d => .pageUp
  | _ => .unknown

/-- The character that a key types, or the null character. -/
def getKeycodeChar : Keycode → Char
  | .keyA => 'a'
  | .keyB => 'b'
  | .keyC => 'c'
  | .keyD => 'd'
  | .keyE => 'e'
  | .keyF => 'f'
  | .keyG => 'g'
  | .keyH => 'h'
  | .keyI => 'i'
  | .keyJ => 'j'
  | .keyK => 'k'
  | .keyL => 'l'
  | .keyM => 'm'
  | .keyN => 'n'
  | .keyO => 'o'
  | .keyP => 'p'
  | .keyQ => 'q'
  | .keyR => 'r'
  | .keyS => 's'
  | .keyT => 't'
  | .keyU => 'u'
  | .keyV => 'v'
  | .keyW => 'w'
  | .keyX => 'x'
  | .keyY => 'y'
  | .keyZ => 'z'
  | .backtick => Char.ofNat 96
  | .key0 => '0'
  | .key1 => '1'
  | .key2 => '2'
  | .key3 => '3'
  | .key4 => '4'
  | .key5 => '5'
  | .key6 => '6'
  | .key7 => '7'
  | .key8 => '8'
  | .key9 => '9'
  | .minus => '-'
  | .equals => '='
  | .keypadSlash => '/'
  | .keypadMultiply => '*'
  | .keypadMinus => '-'
  | .tab => '\t'
  | .leftBracket => '['
  | .rightBracket => ']'
  | .keypadPlus => '+'
  | .semicolon => ';'
  | .apostrophe => Char.ofNat 39
  | .hash => '#'
  | .backslash => Char.ofNat 92
  | .comma => ','
  | .fullstop => '.'
  | .slash => '/'
  | .space => ' '
  | .keypadFullstop => '.'
  | .keypad0 => '0'
  | .keypad1 => '1'
  | .keypad2 => '2'
  | .keypad3 => '3'
  | .keypad4 => '4'
  | .keypad5 => '5'
  | .keypad6 => '6'
  | .keypad7 => '7'
  | .keypad8 => '8'
  | .keypad9 => '9'
  | _ => Char.ofNat 0

end KessokuOS
