import Mathlib.Data.List.Basic
import KessokuOS.Common

/-!
# The text screen

The screen shows 25 rows of 80 characters, which are the 2000 cells of a buffer in
memory, and has a cursor. Characters are written at the cursor, which goes on to the
next row behind the last column; below the last row, the screen scrolls.

A `Screen` keeps every index at which the buffer is accessed, and the registers of
the display controller that hold the place of the cursor.

* `scroll_spec`: what scrolling does to the cells, all in the buffer;
* `setCursorPos_of_lt`, `setCursorPos_height`: moving the cursor on the screen, and
  to the row below it.
-/

namespace KessokuOS

namespace Vga

def ttyWidth : ℕ := 80

def ttyHeight : ℕ := 25

/-- A number reduced to 8 bits. -/
def u8 (x : ℕ) : ℕ := x % 2 ^ 8

/-- The registers of the display controller: one of them is selected, and written. -/
structure Crt where
  index : BitVec 8
  registers : BitVec 8 → BitVec 8

/-- A byte on a port of the display controller. -/
def Crt.portWriteByte (c : Crt) (port : BitVec 16) (v : BitVec 8) : Crt :=
  if port = 0x3D4 then { c with index := v }
  else if port = 0x3D5 then { c with registers := Function.update c.registers c.index v }
  else c

structure CursorPos where
  x : ℕ
  y : ℕ
  deriving DecidableEq, Repr

/-- The buffer and what lies behind it, the cursor, the indices at which the buffer has
    been accessed, and the display controller. -/
structure Screen where
  textBuffer : ℕ → BitVec 16
  cursor : CursorPos
  accesses : List ℕ
  crt : Crt

/-- A character as it is shown: the null character is blank. -/
def visible (c : BitVec 8) : BitVec 8 := if c = 0 then 0x20 else c

/-- The attribute of a cell does not matter to its character. -/
theorem setWidth_written (c : BitVec 8) :
    (0x0700 ||| c.signExtend 16 : BitVec 16).setWidth 8 = c := by
  revert c
  decide +kernel

namespace Screen

/-- What is shown in the cell `i`. -/
def glyph (s : Screen) (i : ℕ) : BitVec 8 := visible ((s.textBuffer i).setWidth 8)

/-- Assigns the cursor. -/
def withCursor (s : Screen) (p : CursorPos) : Screen := { s with cursor := p }

/-- Assigns the cell `i`. -/
def store (s : Screen) (i : ℕ) (v : BitVec 16) : Screen :=
  { s with textBuffer := Function.update s.textBuffer i v, accesses := i :: s.accesses }

/-- Assigns to the cell `i` what the cell `j` holds. -/
def copy (s : Screen) (i j : ℕ) : Screen :=
  { s with
    textBuffer := Function.update s.textBuffer i (s.textBuffer j)
    accesses := i :: j :: s.accesses }

/-- The row `y` from the column `x` on, with `n` left, becomes what the next row is. -/
def copyRow (y : ℕ) : (x n : ℕ) → Screen → Screen
  | _, 0, s => s
  | x, n + 1, s => copyRow y (x + 1) n (s.copy (y * ttyWidth + x) ((y + 1) * ttyWidth + x))

/-- The rows from `y` on, with `n` left, become what the next ones are. -/
def copyRows : (y n : ℕ) → Screen → Screen
  | _, 0, s => s
  | y, n + 1, s => copyRows (y + 1) n (copyRow y 0 ttyWidth s)

/-- The last row from the column `x` on, with `n` left, becomes blank. -/
def blankRow : (x n : ℕ) → Screen → Screen
  | _, 0, s => s
  | x, n + 1, s => blankRow (x + 1) n (s.store ((ttyHeight - 1) * ttyWidth + x) 0x0020)

/-- Scrolls by a row. -/
def scroll (s : Screen) : Screen := blankRow 0 ttyWidth (copyRows 0 (ttyHeight - 1) s)

/-- Scrolls until the cursor is on the screen, at most `n` times. -/
def scrollToCursor : (n : ℕ) → Screen → Screen
  | 0, s => s
  | n + 1, s =>
    if ttyHeight ≤ s.cursor.y then
      scrollToCursor n (s.scroll.withCursor ⟨s.cursor.x, s.cursor.y - 1⟩)
    else s

/-- Tells the display controller where the cursor is. -/
def showCursor (s : Screen) : Screen :=
  let cursorPos := BitVec.ofNat 16 (s.cursor.y * ttyWidth + s.cursor.x)
  let crt := s.crt.portWriteByte 0x3D4 14
  let crt := crt.portWriteByte 0x3D5 ((cursorPos >>> 8).setWidth 8)
  let crt := crt.portWriteByte 0x3D4 15
  let crt := crt.portWriteByte 0x3D5 ((cursorPos &&& 0xFF).setWidth 8)
  { s with crt := crt }

/-- `VGA::set_cursor_pos`; the arguments are those passed, before they are reduced to
    8 bits. -/
def setCursorPos (s : Screen) (x y : ℕ) : Screen :=
  (scrollToCursor (u8 y) (s.withCursor ⟨u8 x, u8 y⟩)).showCursor

/-- The `n` cells from `i` on become those of the empty screen. -/
def clearFrom : (i n : ℕ) → Screen → Screen
  | _, 0, s => s
  | i, n + 1, s => clearFrom (i + 1) n (s.store i 0x0700)

/-- `VGA::clear_screen`. -/
def clearScreen (s : Screen) : Screen := (clearFrom 0 (ttyWidth * ttyHeight) s).setCursorPos 0 0

/-- `VGA::initialize`. -/
def initializeVga (s : Screen) : Screen := s.clearScreen

def getCursorPos (s : Screen) : CursorPos := s.cursor

/-- `VGA::offset_cursor`. -/
def offsetCursor (s : Screen) (dx dy : BitVec 8) : Screen :=
  s.setCursorPos (s.cursor.x + dx.toNat) (s.cursor.y + dy.toNat)

/-- `VGA::put_char`; the character is extended by its sign. -/
def putChar (s : Screen) (c : BitVec 8) : Screen :=
  let s := s.store (s.cursor.y * ttyWidth + s.cursor.x) (0x0700 ||| c.signExtend 16)
  let newX := u8 ((s.cursor.x + 1) % ttyWidth)
  let newY := u8 (if newX = 0 then s.cursor.y + 1 else s.cursor.y)
  s.setCursorPos newX newY

def newLine (s : Screen) : Screen := s.setCursorPos 0 (s.cursor.y + 1)

/-- A character of a string, on the screen. -/
def putStringChar (s : Screen) (c : BitVec 8) : Screen :=
  if c = 0x0A then s.newLine
  else if c = 0x08 then
    if 0 < s.cursor.x then s.setCursorPos (s.cursor.x - 1) s.cursor.y else s
  else if c = 0x0D then s.setCursorPos 0 s.cursor.y
  else s.putChar c

/-- `VGA::put_string`, up to the first null character. -/
def putString : List (BitVec 8) → Screen → Screen
  | [], s => s
  | c :: t, s => if c = 0 then s else putString t (s.putStringChar c)

/-- The hexadecimal digits of a value from the highest on, with `n` left. -/
def putHexFrom : (n : ℕ) → BitVec 32 → Screen → Screen
  | 0, _, s => s
  | n + 1, v, s =>
    let hexDigit := (v >>> 28).setWidth 8
    putHexFrom n (v <<< 4)
      (if hexDigit < 10 then s.putChar (hexDigit + 0x30) else s.putChar (hexDigit - 10 + 0x41))

/-- `VGA::put_hex`. -/
def putHex (s : Screen) (v : BitVec 32) : Screen := putHexFrom 8 v (putString [0x30, 0x78] s)

def maxDigits : ℕ := 10

/-- The decimal digits of a value, in a buffer from the index `i` on, with `n` left, the
    lowest digit first; returns the index behind them. -/
def writeDigits : (i n : ℕ) → BitVec 32 → (ℕ → BitVec 8) → ℕ × (ℕ → BitVec 8)
  | i, 0, _, buffer => (i, buffer)
  | i, n + 1, v, buffer =>
    if v ≠ 0 then
      writeDigits (i + 1) n (v / 10)
        (Function.update buffer i ((v % 10).setWidth 8 + 0x30))
    else (i, buffer)

/-- The `n` first characters of a buffer, the last one first. -/
def putDigits (buffer : ℕ → BitVec 8) : (n : ℕ) → Screen → Screen
  | 0, s => s
  | n + 1, s => putDigits buffer n (s.putChar (buffer n))

/-- `VGA::put_unsigned_decimal`. -/
def putUnsignedDecimal (s : Screen) (v : BitVec 32) : Screen :=
  if v = 0 then s.putChar 0x30
  else
    let (noDigits, digitBuffer) := writeDigits 0 maxDigits v fun _ => 0
    putDigits digitBuffer noDigits s

/-- `VGA::put_signed_decimal`. -/
def putSignedDecimal (s : Screen) (v : BitVec 32) : Screen :=
  if v.slt 0 then (s.putChar 0x2D).putUnsignedDecimal (-v) else s.putUnsignedDecimal v

/-! ## What the parts change -/

@[simp] theorem textBuffer_withCursor (s : Screen) (p : CursorPos) :
    (s.withCursor p).textBuffer = s.textBuffer := rfl

@[simp] theorem cursor_withCursor (s : Screen) (p : CursorPos) : (s.withCursor p).cursor = p := rfl

@[simp] theorem textBuffer_showCursor (s : Screen) : s.showCursor.textBuffer = s.textBuffer := rfl

@[simp] theorem cursor_showCursor (s : Screen) : s.showCursor.cursor = s.cursor := rfl

@[simp] theorem cursor_store (s : Screen) (i : ℕ) (v : BitVec 16) :
    (s.store i v).cursor = s.cursor := rfl

/-! ## Scrolling -/

variable {s : Screen} {i : ℕ}

/-- The accesses between two screens are all in the buffer. -/
def InBuffer (s s' : Screen) : Prop :=
  ∀ i ∈ s'.accesses, i ∈ s.accesses ∨ i < ttyWidth * ttyHeight

theorem InBuffer.refl (s : Screen) : InBuffer s s := fun _ hi => .inl hi

theorem InBuffer.trans {s s' s'' : Screen} (h : InBuffer s s') (h' : InBuffer s' s'') :
    InBuffer s s'' :=
  fun i hi => (h' i hi).elim (h i) .inr

theorem inBuffer_store {i : ℕ} (h : i < ttyWidth * ttyHeight) (s : Screen) (v : BitVec 16) :
    InBuffer s (s.store i v) := by
  intro k hk
  rcases List.mem_cons.1 hk with rfl | hk
  · exact .inr h
  · exact .inl hk

theorem inBuffer_copy {i j : ℕ} (hi : i < ttyWidth * ttyHeight) (hj : j < ttyWidth * ttyHeight)
    (s : Screen) : InBuffer s (s.copy i j) := by
  intro k hk
  rcases List.mem_cons.1 hk with rfl | hk
  · exact .inr hi
  rcases List.mem_cons.1 hk with rfl | hk
  · exact .inr hj
  · exact .inl hk

/-- What copying the row below does, in the cells from `a` on, up to the cell `e`:
    they become the cells a row behind them. -/
structure Copied (s : Screen) (a e : ℕ) (s' : Screen) : Prop where
  cursor_eq : s'.cursor = s.cursor
  inBuffer : InBuffer s s'
  cells : ∀ i, s'.textBuffer i =
    if a ≤ i ∧ i < e then s.textBuffer (i + ttyWidth) else s.textBuffer i

theorem copied_self (s : Screen) (a : ℕ) : Copied s a a s :=
  ⟨rfl, .refl s, fun _ => (if_neg (by omega)).symm⟩

/-- Cells that are copied later are read as they were before. -/
theorem Copied.trans {s s' s'' : Screen} {a b e : ℕ} (h : Copied s a b s')
    (h' : Copied s' b e s'') (hab : a ≤ b) (hbe : b ≤ e) : Copied s a e s'' where
  cursor_eq := h'.cursor_eq.trans h.cursor_eq
  inBuffer := h.inBuffer.trans h'.inBuffer
  cells i := by
    rw [h'.cells]
    -- The second part of the copy reads cells a row further on, which the first part has
    -- not written.
    by_cases hi : b ≤ i ∧ i < e
    · rw [if_pos hi, h.cells, if_neg (by rw [ttyWidth]; omega), if_pos (by omega)]
    · rw [if_neg hi, h.cells]
      exact if_congr (by omega) rfl rfl

theorem copied_copy {i : ℕ} (hi : i + ttyWidth < ttyWidth * ttyHeight) (s : Screen) :
    Copied s i (i + 1) (s.copy i (i + ttyWidth)) where
  cursor_eq := rfl
  inBuffer := inBuffer_copy (by omega) hi s
  cells k := by
    by_cases hk : k = i
    · rw [hk, if_pos (by omega)]
      exact Function.update_self ..
    · rw [if_neg (by omega)]
      exact Function.update_of_ne hk ..

theorem copied_copyRow {y x n : ℕ} (hy : y < ttyHeight - 1) (hx : x + n ≤ ttyWidth)
    (s : Screen) : Copied s (y * ttyWidth + x) (y * ttyWidth + x + n) (copyRow y x n s) := by
  rw [ttyHeight] at hy
  rw [ttyWidth] at hx
  induction n generalizing x s with
  | zero => exact copied_self s _
  | succ n ih =>
    have hc := copied_copy (i := y * ttyWidth + x) (by rw [ttyWidth, ttyHeight]; omega) s
    have hrow : (y + 1) * ttyWidth + x = y * ttyWidth + x + ttyWidth := by
      rw [ttyWidth]
      omega
    rw [copyRow, hrow]
    have hr := ih (x := x + 1) (by omega) (s.copy (y * ttyWidth + x) (y * ttyWidth + x + ttyWidth))
    rw [show y * ttyWidth + (x + 1) = y * ttyWidth + x + 1 by omega] at hr
    rw [show y * ttyWidth + x + (n + 1) = y * ttyWidth + x + 1 + n by omega]
    exact hc.trans hr (by omega) (by omega)

theorem copied_copyRows {y n : ℕ} (hy : y + n ≤ ttyHeight - 1) (s : Screen) :
    Copied s (y * ttyWidth) ((y + n) * ttyWidth) (copyRows y n s) := by
  induction n generalizing y s with
  | zero => exact copied_self s _
  | succ n ih =>
    have hr := copied_copyRow (x := 0) (n := ttyWidth) (show y < ttyHeight - 1 by omega)
      (Nat.zero_add _).le s
    have hs := ih (y := y + 1) (by omega) (copyRow y 0 ttyWidth s)
    rw [Nat.add_zero, ← Nat.succ_mul] at hr
    rw [show y + 1 + n = y + (n + 1) by omega] at hs
    exact hr.trans hs (Nat.mul_le_mul_right _ (by omega)) (Nat.mul_le_mul_right _ (by omega))

theorem blankRow_spec {x n : ℕ} (hx : x + n ≤ ttyWidth) (s : Screen) :
    (blankRow x n s).cursor = s.cursor ∧ InBuffer s (blankRow x n s) ∧
      ∀ i, (blankRow x n s).textBuffer i =
        if (ttyHeight - 1) * ttyWidth + x ≤ i ∧ i < (ttyHeight - 1) * ttyWidth + x + n then 0x0020
        else s.textBuffer i := by
  induction n generalizing x s with
  | zero => exact ⟨rfl, .refl s, fun i => (if_neg (by omega)).symm⟩
  | succ n ih =>
    rw [blankRow]
    have hlt : (ttyHeight - 1) * ttyWidth + x < ttyWidth * ttyHeight := by
      rw [ttyWidth] at hx
      rw [ttyWidth, ttyHeight]
      omega
    obtain ⟨h₁, h₂, h₃⟩ := ih (x := x + 1) (by omega)
      (s.store ((ttyHeight - 1) * ttyWidth + x) 0x0020)
    refine ⟨h₁, (inBuffer_store hlt s _).trans h₂, fun i => ?_⟩
    rw [h₃]
    by_cases hi : i = (ttyHeight - 1) * ttyWidth + x
    · rw [if_neg (by omega), if_pos (by omega), hi]
      exact Function.update_self ..
    · have hstore : (s.store ((ttyHeight - 1) * ttyWidth + x) 0x0020).textBuffer i =
          s.textBuffer i := Function.update_of_ne hi ..
      rw [hstore]
      exact if_congr (by omega) rfl rfl

/-- Scrolling moves every row up, and blanks the last one. -/
theorem scroll_spec (s : Screen) : s.scroll.cursor = s.cursor ∧ InBuffer s s.scroll ∧
    ∀ i < ttyWidth * ttyHeight, s.scroll.textBuffer i =
      if i < (ttyHeight - 1) * ttyWidth then s.textBuffer (i + ttyWidth) else 0x0020 := by
  have hc := copied_copyRows (y := 0) (n := ttyHeight - 1) (Nat.zero_add _).le s
  obtain ⟨h₁, h₂, h₃⟩ := blankRow_spec (x := 0) (n := ttyWidth) (Nat.zero_add _).le
    (copyRows 0 (ttyHeight - 1) s)
  refine ⟨h₁.trans hc.cursor_eq, hc.inBuffer.trans h₂, fun i hi => ?_⟩
  rw [scroll, h₃, hc.cells, Nat.zero_add, Nat.zero_mul, Nat.add_zero]
  have hw : (ttyHeight - 1) * ttyWidth + ttyWidth = ttyWidth * ttyHeight := rfl
  by_cases hlt : i < (ttyHeight - 1) * ttyWidth
  · rw [if_neg (by omega), if_pos ⟨Nat.zero_le i, hlt⟩, if_pos hlt]
  · rw [if_pos (by omega), if_neg hlt]

theorem clearFrom_spec {i n : ℕ} (h : i + n ≤ ttyWidth * ttyHeight) (s : Screen) :
    InBuffer s (clearFrom i n s) ∧
      ∀ k, (clearFrom i n s).textBuffer k =
        if i ≤ k ∧ k < i + n then 0x0700 else s.textBuffer k := by
  induction n generalizing i s with
  | zero => exact ⟨.refl s, fun k => (if_neg (by omega)).symm⟩
  | succ n ih =>
    have hlt : i < ttyWidth * ttyHeight := by omega
    obtain ⟨h₁, h₂⟩ := ih (i := i + 1) (by omega) (s.store i 0x0700)
    refine ⟨(inBuffer_store hlt s _).trans h₁, fun k => ?_⟩
    rw [clearFrom, h₂]
    by_cases hk : k = i
    · rw [if_neg (by omega), if_pos (by omega), hk]
      exact Function.update_self ..
    · have hstore : (s.store i 0x0700).textBuffer k = s.textBuffer k := Function.update_of_ne hk ..
      rw [hstore]
      exact if_congr (by omega) rfl rfl

/-! ## Moving the cursor -/

theorem u8_of_lt {x : ℕ} (h : x < 2 ^ 8) : u8 x = x := Nat.mod_eq_of_lt h

theorem scrollToCursor_of_lt (h : s.cursor.y < ttyHeight) (n : ℕ) : scrollToCursor n s = s := by
  cases n with
  | zero => rfl
  | succ n => exact if_neg (not_le.2 h)

/-- The cursor on the screen: nothing else happens. -/
theorem setCursorPos_of_lt {x y : ℕ} (hx : x < ttyWidth) (hy : y < ttyHeight) (s : Screen) :
    s.setCursorPos x y = (s.withCursor ⟨x, y⟩).showCursor := by
  rw [setCursorPos, u8_of_lt (hx.trans (by decide)), u8_of_lt (hy.trans (by decide)),
    scrollToCursor_of_lt (s := s.withCursor ⟨x, y⟩) hy]

/-- The cursor in the row below the screen: it scrolls by a row. -/
theorem setCursorPos_height {x : ℕ} (hx : x < ttyWidth) (s : Screen) :
    s.setCursorPos x ttyHeight =
      ((s.withCursor ⟨x, ttyHeight⟩).scroll.withCursor ⟨x, ttyHeight - 1⟩).showCursor := by
  rw [setCursorPos, u8_of_lt (hx.trans (by decide)), show u8 ttyHeight = 24 + 1 from rfl,
    scrollToCursor]
  exact congrArg showCursor
    ((if_pos le_rfl).trans (scrollToCursor_of_lt (show (24 : ℕ) < 25 by decide) _))

/-- The screen with a character written at its cursor. -/
abbrev written (s : Screen) (c : BitVec 8) : Screen :=
  s.store (s.cursor.y * ttyWidth + s.cursor.x) (0x0700 ||| c.signExtend 16)

/-- A character before the last column moves the cursor on. -/
theorem putChar_of_lt (hx : s.cursor.x < 79) (hy : s.cursor.y < 25) (c : BitVec 8) :
    s.putChar c = (s.written c).setCursorPos (s.cursor.x + 1) s.cursor.y := by
  -- Neither the column nor the row wraps in eight bits.
  have hmod : u8 ((s.cursor.x + 1) % ttyWidth) = s.cursor.x + 1 := by
    rw [ttyWidth, Nat.mod_eq_of_lt (by omega), u8_of_lt (by omega)]
  simp only [putChar, cursor_store, hmod, Nat.add_one_ne_zero, if_false]
  rw [u8_of_lt (by omega)]

/-- A character in the last column moves the cursor to the next row. -/
theorem putChar_of_last (hx : s.cursor.x = 79) (hy : s.cursor.y < 25) (c : BitVec 8) :
    s.putChar c = (s.written c).setCursorPos 0 (s.cursor.y + 1) := by
  have hmod : u8 ((s.cursor.x + 1) % ttyWidth) = 0 := by
    rw [hx]
    rfl
  simp only [putChar, cursor_store, hmod, if_true]
  rw [u8_of_lt (by omega)]

/-- What a character before the last column writes. -/
theorem putChar_spec (hx : s.cursor.x < 79) (hy : s.cursor.y < 25) (c : BitVec 8) :
    (s.putChar c).textBuffer = Function.update s.textBuffer
        (s.cursor.y * ttyWidth + s.cursor.x) (0x0700 ||| c.signExtend 16) ∧
      (s.putChar c).cursor = ⟨s.cursor.x + 1, s.cursor.y⟩ ∧
      (s.putChar c).accesses = (s.cursor.y * ttyWidth + s.cursor.x) :: s.accesses := by
  rw [putChar_of_lt hx hy, setCursorPos_of_lt (show s.cursor.x + 1 < 80 by omega) hy]
  exact ⟨rfl, rfl, rfl⟩

/-- A backspace in a string only moves the cursor. -/
theorem putStringChar_backspace (hx : s.cursor.x < 80) (hy : s.cursor.y < 25) :
    (s.putStringChar 0x08).textBuffer = s.textBuffer ∧
      (s.putStringChar 0x08).cursor = ⟨s.cursor.x - 1, s.cursor.y⟩ ∧
      (s.putStringChar 0x08).accesses = s.accesses := by
  rw [putStringChar, if_neg (by decide), if_pos rfl]
  by_cases h₀ : 0 < s.cursor.x
  · rw [if_pos h₀, setCursorPos_of_lt (show s.cursor.x - 1 < 80 by omega) hy]
    exact ⟨rfl, rfl, rfl⟩
  · rw [if_neg h₀, show s.cursor.x - 1 = s.cursor.x by omega]
    exact ⟨rfl, rfl, rfl⟩

end Screen

end Vga

end KessokuOS
