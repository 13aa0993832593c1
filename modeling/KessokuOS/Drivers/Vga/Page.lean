import Mathlib.Order.Bounds.Basic
import KessokuOS.Drivers.Vga.Number

/-!
# The screen as a window on a page

What is written would stand on a page of 80 columns that goes on below without end
(`Page`), if the screen did not scroll. The screen shows the part of this page that
has scrolled into view (`Shows`): the first 25 rows, and then those that end with the
row of the cursor, which never goes back up.

* `Simulation.run`: a relation of screens and pages that the parts of the calls keep is
  kept by any calls, which print their numbers as `hexText`, `decimalText` and
  `signedText` spell them;
* `Shows.next`, `Shows.glyph`: going on to the next row, and writing a character;
* `screen_shows_page`: any calls keep the screen a window of the page on which they are
  made, and access only its cells.
-/

namespace KessokuOS

namespace Vga

/-! ## The page -/

/-- Rows of 80 characters, as they are shown, and a cursor. -/
structure Page where
  cells : ℕ → ℕ → BitVec 8
  x : ℕ
  row : ℕ

/-- What a character does to a page. -/
inductive Action
  | glyph (c : BitVec 8)
  | newLine
  | carriageReturn
  | backspace

namespace Page

/-- Goes on to the column `0` of the next row. -/
def next (p : Page) : Page := { p with x := 0, row := p.row + 1 }

/-- Writes a character at the cursor. -/
def write (p : Page) (c : BitVec 8) : Page :=
  { p with
    cells := Function.update p.cells p.row (Function.update (p.cells p.row) p.x (visible c)) }

def act (p : Page) : Action → Page
  | .glyph c => if p.x = 79 then (p.write c).next else { p.write c with x := p.x + 1 }
  | .newLine => p.next
  | .carriageReturn => { p with x := 0 }
  | .backspace => { p with x := p.x - 1 }

/-- The page behind some actions. -/
def run (p : Page) (acts : List Action) : Page := acts.foldl act p

/-- The rows the cursor has been in, the last one included. -/
def rows (p : Page) (acts : List Action) : List ℕ := (acts.scanl act p).map row

end Page

/-- The page of a screen: its rows, and blank ones below. -/
def Screen.page (s : Screen) : Page where
  cells r c := if r < 25 then s.glyph (r * 80 + c) else 0x20
  x := s.cursor.x
  row := s.cursor.y

/-! ## Calls -/

/-- A call of the driver. -/
inductive Call
  | putChar (c : BitVec 8)
  | putString (t : List (BitVec 8))
  | newLine
  | putHex (v : BitVec 32)
  | putUnsignedDecimal (v : BitVec 32)
  | putSignedDecimal (v : BitVec 32)

def Screen.call (s : Screen) : Call → Screen
  | .putChar c => s.putChar c
  | .putString t => Screen.putString t s
  | .newLine => s.newLine
  | .putHex v => s.putHex v
  | .putUnsignedDecimal v => s.putUnsignedDecimal v
  | .putSignedDecimal v => s.putSignedDecimal v

/-- What a character of a string does. -/
def stringAction (c : BitVec 8) : Action :=
  if c = 0x0A then .newLine
  else if c = 0x08 then .backspace
  else if c = 0x0D then .carriageReturn
  else .glyph c

/-- What a call does to a page. -/
def Call.actions : Call → List Action
  | .putChar c => [.glyph c]
  | .putString t => (t.takeWhile (· ≠ 0)).map stringAction
  | .newLine => [.newLine]
  | .putHex v => (hexText v).map .glyph
  | .putUnsignedDecimal v => (decimalText v.toNat).map .glyph
  | .putSignedDecimal v => (signedText v).map .glyph

/-! ## Simulation -/

theorem Page.run_append (p : Page) (l₁ l₂ : List Action) :
    p.run (l₁ ++ l₂) = (p.run l₁).run l₂ :=
  List.foldl_append

/-- What the parts of the calls do to a screen and to a page keeps `R`. -/
structure Simulation (R : Screen → Page → Prop) : Prop where
  glyph : ∀ {s p}, R s p → ∀ c, R (s.putChar c) (p.act (.glyph c))
  newLine : ∀ {s p}, R s p → R s.newLine (p.act .newLine)
  carriageReturn : ∀ {s p}, R s p → R (s.setCursorPos 0 s.cursor.y) (p.act .carriageReturn)
  backspace : ∀ {s p}, R s p →
    R (if 0 < s.cursor.x then s.setCursorPos (s.cursor.x - 1) s.cursor.y else s)
      (p.act .backspace)

namespace Simulation

variable {R : Screen → Page → Prop} (h : Simulation R) {s : Screen} {p : Page}

include h

/-- A character of a string. -/
theorem putStringChar (hs : R s p) (c : BitVec 8) :
    R (s.putStringChar c) (p.act (stringAction c)) := by
  have hback := h.backspace hs
  rw [Screen.putStringChar, stringAction]
  by_cases hnl : c = 0x0A
  · rw [if_pos hnl, if_pos hnl]
    exact h.newLine hs
  rw [if_neg hnl, if_neg hnl]
  by_cases hbs : c = 0x08
  · rw [if_pos hbs, if_pos hbs]
    exact hback
  rw [if_neg hbs, if_neg hbs]
  by_cases hcr : c = 0x0D
  · rw [if_pos hcr, if_pos hcr]
    exact h.carriageReturn hs
  rw [if_neg hcr, if_neg hcr]
  exact h.glyph hs c

theorem putString (hs : R s p) (t : List (BitVec 8)) :
    R (Screen.putString t s) (p.run ((t.takeWhile (· ≠ 0)).map stringAction)) := by
  induction t generalizing s p with
  | nil => exact hs
  | cons c t ih =>
    rw [Screen.putString]
    by_cases hc : c = 0
    · rw [if_pos hc, List.takeWhile_cons_of_neg (by simp [hc])]
      exact hs
    · rw [if_neg hc, List.takeWhile_cons, if_pos (decide_eq_true hc)]
      exact ih (h.putStringChar hs c)

/-- Characters written one after another. -/
theorem foldl_putChar (hs : R s p) (t : List (BitVec 8)) :
    R (t.foldl Screen.putChar s) (p.run (t.map .glyph)) := by
  induction t generalizing s p with
  | nil => exact hs
  | cons c t ih => exact ih (h.glyph hs c)

/-- A call. -/
theorem call (hs : R s p) (c : Call) : R (s.call c) (p.run c.actions) := by
  cases c with
  | putChar c => exact h.glyph hs c
  | putString t => exact h.putString hs t
  | newLine => exact h.newLine hs
  | putHex v =>
    rw [Screen.call, Screen.putHex_eq]
    exact h.foldl_putChar hs (hexText v)
  | putUnsignedDecimal v =>
    rw [Screen.call, Screen.putUnsignedDecimal_eq]
    exact h.foldl_putChar hs (decimalText v.toNat)
  | putSignedDecimal v =>
    rw [Screen.call, Screen.putSignedDecimal_eq]
    exact h.foldl_putChar hs (signedText v)

/-- Any calls. -/
theorem run (hs : R s p) (calls : List Call) :
    R (calls.foldl Screen.call s) (p.run (calls.flatMap Call.actions)) := by
  induction calls generalizing s p with
  | nil => exact hs
  | cons c calls ih =>
    rw [List.flatMap_cons, Page.run_append]
    exact ih (h.call hs c)

end Simulation

/-! ## The window -/

/-- The screen shows the rows of the page from the row `p.row - 24` on; below it, the
    page is blank. -/
structure Shows (s : Screen) (p : Page) : Prop where
  x_eq : s.cursor.x = p.x
  x_lt : p.x < 80
  y_eq : s.cursor.y = min p.row 24
  cells_eq : ∀ r < 25, ∀ c < 80, s.glyph (r * 80 + c) = p.cells (p.row - 24 + r) c
  blank : ∀ r, p.row - 24 + 25 ≤ r → ∀ c < 80, p.cells r c = 0x20
  /-- All accesses so far have been in the buffer. -/
  accesses_lt : ∀ i ∈ s.accesses, i < ttyWidth * ttyHeight

variable {s : Screen} {p : Page}

/-- The screen, with no access to its buffer so far. -/
def Screen.fresh (s : Screen) : Screen := { s with accesses := [] }

/-- A screen shows its page. -/
theorem shows_page (hx : s.cursor.x < 80) (hy : s.cursor.y < 25) : Shows s.fresh s.page where
  x_eq := rfl
  x_lt := hx
  y_eq := (min_eq_left (Nat.le_of_lt_succ hy)).symm
  cells_eq r hr c _ := by
    have h₀ : s.page.row - 24 = 0 := Nat.sub_eq_zero_of_le (Nat.le_of_lt_succ hy)
    rw [h₀, Nat.zero_add]
    exact (if_pos hr).symm
  blank r hr c _ := if_neg (by omega)
  accesses_lt i hi := absurd hi List.not_mem_nil

namespace Shows

theorem accesses_lt_of_inBuffer (h : Shows s p) {s' : Screen} (hs : Screen.InBuffer s s') :
    ∀ i ∈ s'.accesses, i < ttyWidth * ttyHeight :=
  fun i hi => (hs i hi).elim (h.accesses_lt i) id

theorem y_lt (h : Shows s p) : s.cursor.y < 25 := by
  have := h.y_eq
  omega

/-- The glyphs of a screen whose buffer is the same. -/
theorem glyph_congr {s' : Screen} (h : s'.textBuffer = s.textBuffer) (i : ℕ) :
    s'.glyph i = s.glyph i := by
  rw [Screen.glyph, Screen.glyph, h]

/-- Moving the cursor in its row. -/
theorem moveTo (h : Shows s p) {x : ℕ} (hx : x < 80) :
    Shows (s.setCursorPos x s.cursor.y) { p with x := x } := by
  -- The row is on the screen, so that it does not scroll.
  rw [Screen.setCursorPos_of_lt hx h.y_lt]
  exact ⟨rfl, hx, h.y_eq, h.cells_eq, h.blank, h.accesses_lt⟩

/-- Scrolling shows the page a row further down. -/
theorem glyph_scroll (s : Screen) {r c : ℕ} (hr : r < 25) (hc : c < 80) :
    s.scroll.glyph (r * 80 + c) = if r < 24 then s.glyph ((r + 1) * 80 + c) else 0x20 := by
  have hi : r * 80 + c < ttyWidth * ttyHeight := show r * 80 + c < 2000 by omega
  rw [Screen.glyph, (Screen.scroll_spec s).2.2 _ hi]
  by_cases hlt : r < 24
  · have hle : r * 80 + c < (ttyHeight - 1) * ttyWidth := show r * 80 + c < 1920 by omega
    rw [if_pos hle, if_pos hlt, show r * 80 + c + ttyWidth = (r + 1) * 80 + c by
      rw [ttyWidth]; omega]
    rfl
  · have hle : ¬r * 80 + c < (ttyHeight - 1) * ttyWidth := show ¬r * 80 + c < 1920 by omega
    rw [if_neg hle, if_neg hlt]
    rfl

/-- Going on to the next row: the screen scrolls if it is the one below the screen. -/
theorem next (h : Shows s p) : Shows (s.setCursorPos 0 (s.cursor.y + 1)) p.next := by
  have hy := h.y_eq
  by_cases hrow : p.row < 24
  · rw [Screen.setCursorPos_of_lt (by decide) (show s.cursor.y + 1 < 25 by omega)]
    refine ⟨rfl, Nat.succ_pos 79, show s.cursor.y + 1 = min (p.row + 1) 24 by omega,
      fun r hr c hc => ?_, fun r hr c hc => ?_, h.accesses_lt⟩
    · refine Eq.trans (h.cells_eq r hr c hc) (congrArg (p.cells · c) ?_)
      exact show p.row - 24 + r = p.row + 1 - 24 + r by omega
    · exact h.blank r (by change p.row + 1 - 24 + 25 ≤ r at hr; omega) c hc
  · -- The cursor leaves the screen, and the window moves down with it: a row of the
    -- screen is the one below it before, and the last one is still blank.
    rw [show s.cursor.y + 1 = ttyHeight by rw [ttyHeight]; omega,
      Screen.setCursorPos_height (by decide)]
    refine ⟨rfl, Nat.succ_pos 79, show 24 = min (p.row + 1) 24 by omega,
      fun r hr c hc => ?_, fun r hr c hc => ?_,
      h.accesses_lt_of_inBuffer (Screen.scroll_spec (s.withCursor ⟨0, ttyHeight⟩)).2.1⟩
    · rw [glyph_congr (s := (s.withCursor ⟨0, ttyHeight⟩).scroll) (by simp), glyph_scroll _ hr hc]
      change _ = p.cells (p.row + 1 - 24 + r) c
      by_cases hlt : r < 24
      · rw [if_pos hlt, show p.row + 1 - 24 + r = p.row - 24 + (r + 1) by omega,
          ← h.cells_eq (r + 1) (by omega) c hc]
        rfl
      · rw [if_neg hlt, h.blank _ (by omega) c hc]
    · exact h.blank r (by change p.row + 1 - 24 + 25 ≤ r at hr; omega) c hc

/-- Writing a character at the cursor, which stays. -/
theorem write (h : Shows s p) (c : BitVec 8) :
    Shows (s.written c) (p.write c) := by
  have hy := h.y_eq
  have hx := h.x_eq
  have hxlt := h.x_lt
  have hi : s.cursor.y * 80 + s.cursor.x < ttyWidth * ttyHeight :=
    show s.cursor.y * 80 + s.cursor.x < 2000 by omega
  rw [Screen.written, ttyWidth]
  refine ⟨h.x_eq, h.x_lt, h.y_eq, fun r hr c' hc => ?_, fun r hr c' hc => ?_,
    h.accesses_lt_of_inBuffer (Screen.inBuffer_store hi s _)⟩
  · change visible ((Function.update s.textBuffer _ _ _).setWidth 8) =
      Function.update p.cells p.row _ (p.row - 24 + r) c'
    -- Other cells than that of the cursor are left, on the screen and on the page.
    by_cases hrow : p.row - 24 + r = p.row
    · rw [hrow, Function.update_self]
      by_cases hcol : c' = p.x
      · rw [hcol, Function.update_self, show r * 80 + p.x = s.cursor.y * 80 + s.cursor.x by omega,
          Function.update_self, setWidth_written]
      · rw [Function.update_of_ne hcol, Function.update_of_ne (by omega), ← hrow]
        exact h.cells_eq r hr c' hc
    · rw [Function.update_of_ne hrow, Function.update_of_ne (by omega)]
      exact h.cells_eq r hr c' hc
  · change p.row - 24 + 25 ≤ r at hr
    change Function.update p.cells p.row _ r c' = _
    rw [Function.update_of_ne (by omega)]
    exact h.blank r hr c' hc

/-- Writing a character, and going on behind it. -/
theorem glyph (h : Shows s p) (c : BitVec 8) : Shows (s.putChar c) (p.act (.glyph c)) := by
  have hw := h.write c
  have hx := h.x_eq
  have hxlt := h.x_lt
  rw [Page.act]
  by_cases hlast : p.x = 79
  · rw [if_pos hlast, Screen.putChar_of_last (hx.trans hlast) h.y_lt]
    exact hw.next
  · rw [if_neg hlast, Screen.putChar_of_lt (by omega) h.y_lt, hx]
    exact hw.moveTo (by omega)

theorem newLine (h : Shows s p) : Shows s.newLine (p.act .newLine) := h.next

theorem carriageReturn (h : Shows s p) :
    Shows (s.setCursorPos 0 s.cursor.y) (p.act .carriageReturn) :=
  h.moveTo (by decide)

theorem backspace (h : Shows s p) :
    Shows (if 0 < s.cursor.x then s.setCursorPos (s.cursor.x - 1) s.cursor.y else s)
      (p.act .backspace) := by
  have hx := h.x_eq
  have hxlt := h.x_lt
  by_cases h₀ : 0 < s.cursor.x
  · rw [if_pos h₀, hx]
    exact h.moveTo (by omega)
  · rw [if_neg h₀]
    have hp : p.act .backspace = p := by
      rw [Page.act, show p.x - 1 = p.x by omega]
    rw [hp]
    exact h

theorem simulation : Simulation Shows where
  glyph h c := h.glyph c
  newLine h := h.newLine
  carriageReturn h := h.carriageReturn
  backspace h := h.backspace

end Shows

/-! ## Runs -/

/-- The cursor never goes back up. -/
theorem Page.row_le_act (p : Page) (a : Action) : p.row ≤ (p.act a).row := by
  cases a with
  | glyph c =>
    rw [Page.act]
    split_ifs
    · exact Nat.le_succ _
    · exact le_rfl
  | newLine => exact Nat.le_succ _
  | carriageReturn => exact le_rfl
  | backspace => exact le_rfl

theorem Page.rows_cons (p : Page) (a : Action) (acts : List Action) :
    p.rows (a :: acts) = p.row :: (p.act a).rows acts := by
  rw [rows, List.scanl_cons, List.map_cons]
  rfl

/-- The last row the cursor has been in is the lowest one. -/
theorem Page.isGreatest_rows (p : Page) (acts : List Action) :
    IsGreatest {y | y ∈ p.rows acts} (p.run acts).row := by
  induction acts generalizing p with
  | nil => exact ⟨List.mem_singleton_self _, fun y hy => (List.mem_singleton.1 hy).le⟩
  | cons a acts ih =>
    obtain ⟨hmem, hle⟩ := ih (p.act a)
    rw [rows_cons]
    refine ⟨List.mem_cons_of_mem _ hmem, fun y hy => ?_⟩
    rcases List.mem_cons.1 hy with rfl | hy
    · refine (p.row_le_act a).trans (hle ?_)
      -- The row is followed by another one, which is not above it.
      cases acts with
      | nil => exact List.mem_singleton_self _
      | cons b acts =>
        rw [rows_cons]
        exact List.mem_cons_self
    · exact hle hy

/-- The smallest top of a window of 25 rows that has kept the cursor in view. -/
theorem Page.isLeast_top (p : Page) (acts : List Action) :
    IsLeast {T | ∀ y ∈ p.rows acts, y ≤ T + 24} ((p.run acts).row - 24) := by
  obtain ⟨hmem, hle⟩ := p.isGreatest_rows acts
  refine ⟨fun y hy => ?_, fun T hT => ?_⟩
  · have := hle hy
    omega
  · have := hT _ hmem
    omega

/-- From any screen with its cursor on it on, any calls access only the cells of the
    screen, and leave the cursor on it. The screen then shows what the same calls make
    of its page, from the smallest top `T` of a window on that has kept the row of the
    cursor in view. -/
theorem screen_shows_page (s : Screen) (hx : s.cursor.x < ttyWidth)
    (hy : s.cursor.y < ttyHeight) (calls : List Call) :
    let s' := calls.foldl Screen.call s.fresh
    let acts := calls.flatMap Call.actions
    let p' := s.page.run acts
    (∀ i ∈ s'.accesses, i < ttyWidth * ttyHeight) ∧
      s'.cursor.x < ttyWidth ∧ s'.cursor.y < ttyHeight ∧
      ∃ T, IsLeast {T | ∀ y ∈ s.page.rows acts, y ≤ T + (ttyHeight - 1)} T ∧
        s'.cursor.x = p'.x ∧ T + s'.cursor.y = p'.row ∧
        ∀ r < ttyHeight, ∀ c < ttyWidth, s'.glyph (r * ttyWidth + c) = p'.cells (T + r) c := by
  have h := Shows.simulation.run (shows_page hx hy) calls
  have hylt := h.y_lt
  have hyeq := h.y_eq
  refine ⟨h.accesses_lt, h.x_eq.trans_lt h.x_lt, hylt, _, s.page.isLeast_top _, h.x_eq, ?_,
    h.cells_eq⟩
  omega

/-- A blank screen with the cursor in the middle of it. -/
def sampleScreen : Screen := ⟨fun _ => 0x0700, ⟨40, 12⟩, [], ⟨0, fun _ => 0⟩⟩

/-- The same with the cursor in the last cell. -/
def cornerScreen : Screen := { sampleScreen with cursor := ⟨79, 24⟩ }

/-- The first of two characters goes to the last cell, from where it is moved up. -/
theorem screen_shows_page_sample :
    let s' := [Call.putChar 0x41, .putChar 0x42].foldl Screen.call cornerScreen.fresh
    s'.cursor.x = 1 ∧ s'.cursor.y = 24 ∧ s'.glyph (23 * ttyWidth + 79) = 0x41 ∧
      s'.glyph (24 * ttyWidth + 0) = 0x42 := by
  intro s'
  obtain ⟨-, -, -, T, hT, hx, hy, hcells⟩ := screen_shows_page cornerScreen (by decide)
    (by decide) [.putChar 0x41, .putChar 0x42]
  have hrows : cornerScreen.page.rows [.glyph 0x41, .glyph 0x42] = [24, 25, 25] := rfl
  have hone : T = 1 := by
    refine le_antisymm (hT.2 ?_) ?_
    · change ∀ y ∈ cornerScreen.page.rows [.glyph 0x41, .glyph 0x42], y ≤ 1 + (ttyHeight - 1)
      rw [hrows]
      decide
    · have hle : 25 ≤ T + (ttyHeight - 1) := hT.1 25 (hrows ▸ by decide)
      exact Nat.le_of_add_le_add_right (b := 24) hle
  subst hone
  refine ⟨hx, Nat.add_left_cancel (n := 1) hy, ?_, ?_⟩
  · exact (hcells 23 (by decide) 79 (by decide)).trans (by decide +kernel)
  · exact (hcells 24 (by decide) 0 (by decide)).trans (by decide +kernel)

end Vga

end KessokuOS
