import KessokuOS.Drivers.Vga.Cursor

/-!
# The attributes of the cells

A cell holds a character and, above it, the attribute it is shown with. The empty
screen has the attribute `0x07` in all cells. Two routines write other ones: a character
from `0x80` on is extended by its sign, which sets all bits of its attribute, and
scrolling fills the last row with cells of the attribute `0x00`.

* `Attributed.glyph`, `Attributed.next`: what a character and a new row do to the
  attributes;
* `lowByte_putChar`: the character itself is stored as it is;
* `normal_iff`: from the initialised screen on, the attributes are all `0x07` exactly if
  the page that is printed takes no more rows than the screen has, and shows no character
  from `0x80` on.
-/

namespace KessokuOS

namespace Vga

/-- The attribute that comes with a character. -/
def charAttribute (c : BitVec 8) : BitVec 8 := if c < 0x80 then 0x07 else 0xFF

/-- The attribute of a cell in which a character has been written. -/
theorem charAttribute_written (c : BitVec 8) :
    ((0x0700 ||| c.signExtend 16 : BitVec 16) >>> 8).setWidth 8 = charAttribute c := by
  revert c
  decide +kernel

theorem charAttribute_visible (c : BitVec 8) : charAttribute (visible c) = charAttribute c := by
  rw [visible]
  split_ifs with h
  · rw [h]
    rfl
  · rfl

theorem charAttribute_eq_iff (c : BitVec 8) : charAttribute c = 0x07 ↔ c < 0x80 := by
  rw [charAttribute]
  split_ifs with h
  · exact iff_of_true rfl h
  · exact iff_of_false (by decide) h

/-- The page of the empty screen. -/
def blankPage : Page := ⟨fun _ _ => 0x20, 0, 0⟩

namespace Screen

/-- The attribute of the cell `i`. -/
def attr (s : Screen) (i : ℕ) : BitVec 8 := (s.textBuffer i >>> 8).setWidth 8

/-- All cells have the attribute `0x07`. -/
def Normal (s : Screen) : Prop := ∀ i < ttyWidth * ttyHeight, s.attr i = 0x07

/-- The cell in which a character is found that has just been written: that of the
    cursor, unless the screen has scrolled. -/
def putCell (s : Screen) : ℕ :=
  if s.cursor.x = 79 ∧ s.cursor.y = 24 then 23 * ttyWidth + 79
  else s.cursor.y * ttyWidth + s.cursor.x

variable {s : Screen} {p : Page}

theorem lowByte_written (s : Screen) (c : BitVec 8) :
    ((s.written c).textBuffer (s.cursor.y * ttyWidth + s.cursor.x)).setWidth 8 = c := by
  have hcell : (s.written c).textBuffer (s.cursor.y * ttyWidth + s.cursor.x) =
      0x0700 ||| c.signExtend 16 := Function.update_self ..
  rw [hcell, setWidth_written]

/-- A character is stored as it is, in whatever cell it is written. -/
theorem lowByte_putChar (h : OnScreen s) (c : BitVec 8) :
    ((s.putChar c).textBuffer s.putCell).setWidth 8 = c := by
  have hx : s.cursor.x < 80 := h.x_lt
  have hy : s.cursor.y < 25 := h.y_lt
  rw [putCell]
  by_cases hlast : s.cursor.x = 79
  · rw [putChar_of_last hlast hy]
    by_cases hrow : s.cursor.y = 24
    · -- The screen has scrolled, and the character is a row further up.
      have hlt : 23 * ttyWidth + 79 < (ttyHeight - 1) * ttyWidth := by decide
      rw [if_pos ⟨hlast, hrow⟩, hrow, show 24 + 1 = ttyHeight from rfl,
        setCursorPos_height (by decide), textBuffer_showCursor, textBuffer_withCursor,
        (scroll_spec _).2.2 _ (by decide), if_pos hlt, textBuffer_withCursor]
      have hw := lowByte_written s c
      rwa [hlast, hrow] at hw
    · rw [if_neg fun hc => hrow hc.2, setCursorPos_of_lt (by decide) (by rw [ttyHeight]; omega)]
      exact lowByte_written s c
  · rw [if_neg fun hc => hlast hc.1, putChar_of_lt (by omega) hy,
      setCursorPos_of_lt (by rw [ttyWidth]; omega) hy]
    exact lowByte_written s c

end Screen

open Screen

/-- The screen shows a page, with the attributes that go with its characters; once it has
    scrolled, the last cell is one of those that scrolling writes. -/
structure Attributed (s : Screen) (p : Page) : Prop where
  shows : Shows s p
  cells : p.row < 25 → ∀ r < 25, ∀ c < 80, s.attr (r * 80 + c) = charAttribute (p.cells r c)
  scrolled : 25 ≤ p.row → s.textBuffer 1999 = 0x0020

namespace Attributed

variable {s : Screen} {p : Page}

/-- Going on to the next row scrolls if it is the one below the screen, and then the last
    cell is blank, whatever it has been. -/
theorem textBuffer_next (h : Shows s p) (hrow : 24 ≤ p.row) :
    (s.setCursorPos 0 (s.cursor.y + 1)).textBuffer 1999 = 0x0020 := by
  have hy := h.y_eq
  rw [show s.cursor.y + 1 = ttyHeight by rw [ttyHeight]; omega, setCursorPos_height (by decide),
    textBuffer_showCursor, textBuffer_withCursor, (scroll_spec _).2.2 _ (by decide),
    if_neg (by decide)]

/-- As long as there are rows left, going on to the next one leaves the cells. -/
theorem next (h : Shows s p)
    (hcells : p.row < 25 → ∀ r < 25, ∀ c < 80,
      s.attr (r * 80 + c) = charAttribute (p.cells r c)) :
    Attributed (s.setCursorPos 0 (s.cursor.y + 1)) p.next := by
  have hy := h.y_eq
  refine ⟨h.next, fun hlt r hr c hc => ?_,
    fun hle => textBuffer_next h (Nat.le_of_succ_le_succ hle)⟩
  have hlt' : p.row < 24 := Nat.lt_of_succ_lt_succ hlt
  rw [setCursorPos_of_lt (by decide) (show s.cursor.y + 1 < 25 by omega)]
  exact hcells (by omega) r hr c hc

theorem moveTo (h : Attributed s p) {x : ℕ} (hx : x < 80) :
    Attributed (s.setCursorPos x s.cursor.y) { p with x := x } := by
  have hshows := h.shows.moveTo hx
  rw [setCursorPos_of_lt hx h.shows.y_lt] at hshows ⊢
  exact ⟨hshows, h.cells, h.scrolled⟩

/-- The attributes with a character written at the cursor, on a screen that has not
    scrolled. -/
theorem cells_write (h : Attributed s p) (c : BitVec 8) (hrow : p.row < 25) {r k : ℕ}
    (hr : r < 25) (hk : k < 80) :
    (s.written c).attr (r * 80 + k) = charAttribute ((p.write c).cells r k) := by
  have hy := h.shows.y_eq
  have hx := h.shows.x_eq
  have hxlt := h.shows.x_lt
  change ((Function.update s.textBuffer (s.cursor.y * 80 + s.cursor.x) _ _ >>> 8).setWidth 8) =
    charAttribute (Function.update p.cells p.row (Function.update (p.cells p.row) p.x _) r k)
  by_cases hcell : r = p.row ∧ k = p.x
  · rw [hcell.1, hcell.2, show p.row * 80 + p.x = s.cursor.y * 80 + s.cursor.x by omega,
      Function.update_self, Function.update_self, Function.update_self, charAttribute_written,
      charAttribute_visible]
  · rw [Function.update_of_ne (by omega)]
    have hold : Function.update p.cells p.row (Function.update (p.cells p.row) p.x (visible c)) r
        k = p.cells r k := by
      by_cases hr' : r = p.row
      · rw [hr', Function.update_self, Function.update_of_ne fun hk' => hcell ⟨hr', hk'⟩]
      · rw [Function.update_of_ne hr']
    rw [hold]
    exact h.cells hrow r hr k hk

/-- Writing a character, and going on behind it. -/
theorem glyph (h : Attributed s p) (c : BitVec 8) :
    Attributed (s.putChar c) (p.act (.glyph c)) := by
  have hx := h.shows.x_eq
  have hxlt := h.shows.x_lt
  have hy := h.shows.y_eq
  have hw := h.shows.write c
  rw [Page.act]
  by_cases hlast : p.x = 79
  · rw [if_pos hlast, putChar_of_last (hx.trans hlast) h.shows.y_lt]
    exact next hw fun hrow r hr k hk => h.cells_write c hrow hr hk
  · rw [if_neg hlast, putChar_of_lt (by omega) h.shows.y_lt, hx]
    -- Below the last row that is written, the last cell is not that of the cursor.
    have hwritten : Attributed (s.written c) (p.write c) := by
      refine ⟨hw, fun hrow r hr k hk => h.cells_write c hrow hr hk, fun hrow => ?_⟩
      refine (Function.update_of_ne ?_ _ _).trans (h.scrolled hrow)
      rw [ttyWidth]
      omega
    exact hwritten.moveTo (by omega)

theorem backspace (h : Attributed s p) :
    Attributed (if 0 < s.cursor.x then s.setCursorPos (s.cursor.x - 1) s.cursor.y else s)
      (p.act .backspace) := by
  have hx := h.shows.x_eq
  have hxlt := h.shows.x_lt
  by_cases h₀ : 0 < s.cursor.x
  · rw [if_pos h₀, hx]
    exact h.moveTo (by omega)
  · have hp : p.act .backspace = p := by
      rw [Page.act, show p.x - 1 = p.x by omega]
    rw [if_neg h₀, hp]
    exact h

theorem simulation : Simulation Attributed where
  glyph h c := h.glyph c
  newLine h := next h.shows h.cells
  carriageReturn h := h.moveTo (by decide)
  backspace h := h.backspace

/-- A screen that has not scrolled has the attributes of the characters on the page;
    otherwise, the last cell shows that it has. -/
theorem normal_iff (h : Attributed s p) :
    s.Normal ↔ p.row < 25 ∧ ∀ r < 25, ∀ c < 80, p.cells r c < 0x80 := by
  constructor
  · intro hn
    have hrow : p.row < 25 := by
      by_contra hle
      have hlast := hn 1999 (by decide)
      rw [attr, h.scrolled (not_lt.1 hle)] at hlast
      exact absurd hlast (by decide)
    refine ⟨hrow, fun r hr c hc => (charAttribute_eq_iff _).1 ?_⟩
    rw [← h.cells hrow r hr c hc]
    exact hn _ (show r * 80 + c < 2000 by omega)
  · rintro ⟨hrow, hcells⟩ i hi
    change i < 2000 at hi
    have hcell := h.cells hrow (i / 80) (by omega) (i % 80) (Nat.mod_lt _ (by decide))
    rw [show i / 80 * 80 + i % 80 = i by omega] at hcell
    rw [hcell, charAttribute_eq_iff]
    exact hcells _ (by omega) _ (Nat.mod_lt _ (by decide))

end Attributed

/-- The initialised screen shows the blank page. -/
theorem attributed_booted (s : Screen) : Attributed s.booted blankPage := by
  have hcursor : s.booted.cursor = ⟨0, 0⟩ := cursor_setCursorPos (by decide) _ 0
  have hcells : ∀ i < ttyWidth * ttyHeight, s.booted.textBuffer i = 0x0700 := by
    intro i hi
    obtain ⟨-, hclear⟩ := clearFrom_spec (i := 0) (n := ttyWidth * ttyHeight) (Nat.zero_add _).le
      s.fresh
    rw [booted, initializeVga, clearScreen, setCursorPos_of_lt (by decide) (by decide),
      textBuffer_showCursor, textBuffer_withCursor, hclear, Nat.zero_add]
    exact if_pos ⟨Nat.zero_le i, hi⟩
  have hcell : ∀ r < 25, ∀ c < 80, s.booted.textBuffer (r * 80 + c) = 0x0700 :=
    fun r hr c hc => hcells _ (show r * 80 + c < 2000 by omega)
  refine ⟨⟨congrArg CursorPos.x hcursor, by decide, congrArg CursorPos.y hcursor,
    fun r hr c hc => ?_, fun r _ c _ => rfl, (onScreen_booted s).accesses_lt⟩,
    fun _ r hr c hc => ?_, fun hle => absurd hle (by decide)⟩
  · rw [glyph, hcell r hr c hc]
    rfl
  · rw [attr, hcell r hr c hc]
    rfl

/-- Behind any calls from the initialised screen on, all cells have the attribute `0x07`
    exactly if the calls make a page of at most 25 rows, which shows no character from
    `0x80` on. A character is always stored as it is. -/
theorem normal_run_iff (s : Screen) (calls : List Call) :
    let s' := calls.foldl Screen.call s.booted
    let p := blankPage.run (calls.flatMap Call.actions)
    (s'.Normal ∧ ∀ c, ((s'.putChar c).textBuffer s'.putCell).setWidth 8 = c) ↔
      p.row < 25 ∧ ∀ r < 25, ∀ c < 80, p.cells r c < 0x80 := by
  have h := Attributed.simulation.run (attributed_booted s) calls
  have hon : OnScreen (calls.foldl Screen.call s.booted) :=
    ⟨h.shows.x_eq.trans_lt h.shows.x_lt, h.shows.y_lt, h.shows.accesses_lt⟩
  exact (and_iff_left fun c => lowByte_putChar hon c).trans h.normal_iff

/-- The character `0x80` on the empty screen, or a row below it, is enough. -/
theorem not_normal_sample :
    ¬([Call.putChar 0x80].foldl Screen.call sampleScreen.booted).Normal ∧
      ¬((List.replicate 25 Call.newLine).foldl Screen.call sampleScreen.booted).Normal := by
  constructor
  · intro hn
    have h := Attributed.simulation.run (attributed_booted sampleScreen) [.putChar 0x80]
    exact absurd ((h.normal_iff.1 hn).2 0 (by decide) 0 (by decide)) (by decide)
  · intro hn
    have h := Attributed.simulation.run (attributed_booted sampleScreen)
      (List.replicate 25 Call.newLine)
    exact absurd (h.normal_iff.1 hn).1 (by decide)

end Vga

end KessokuOS
