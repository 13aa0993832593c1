import KessokuOS.Drivers.Vga.Page
import KessokuOS.Lib.Machine

/-!
# The cursor on the screen

Every routine moves the cursor by `set_cursor_pos`. A row below the screen is brought
onto it by scrolling; a column behind the last one is left as it is, and the next
character is then written outside of the screen, or even of the buffer.

* `onScreen_setCursorPos_iff`: a column on the screen is all that a move needs;
* `onScreen_publicCall_iff`: only the calls which are given a column can break this;
* `onScreen_visits_iff`: any calls keep the cursor on the screen, and stay in the
  buffer, exactly if all columns they are given are on the screen.
-/

namespace KessokuOS

namespace Vga

/-- A call of a function of the driver. -/
inductive PublicCall
  | initializeVga
  | clearScreen
  | print (c : Call)
  | getCursorPos
  | setCursorPos (x y : BitVec 8)
  | offsetCursor (dx dy : BitVec 8)

namespace Screen

/-- What a call returns, and the screen behind it. -/
def publicCall (s : Screen) : PublicCall → Option CursorPos × Screen
  | .initializeVga => (none, s.initializeVga)
  | .clearScreen => (none, s.clearScreen)
  | .print c => (none, s.call c)
  | .getCursorPos => (some s.getCursorPos, s)
  | .setCursorPos x y => (none, s.setCursorPos x.toNat y.toNat)
  | .offsetCursor dx dy => (none, s.offsetCursor dx dy)

/-- The cursor is on the screen, and all accesses so far have been in the buffer. -/
structure OnScreen (s : Screen) : Prop where
  x_lt : s.cursor.x < ttyWidth
  y_lt : s.cursor.y < ttyHeight
  accesses_lt : ∀ i ∈ s.accesses, i < ttyWidth * ttyHeight

/-- The column a call is given, if it is given one, is on the screen. -/
def KeepsColumn (s : Screen) : PublicCall → Prop
  | .setCursorPos x _ => x.toNat < ttyWidth
  | .offsetCursor dx _ => u8 (s.cursor.x + dx.toNat) < ttyWidth
  | _ => True

variable {s : Screen}

theorem inBuffer_withCursor (s : Screen) (p : CursorPos) : InBuffer s (s.withCursor p) :=
  fun _ hi => .inl hi

theorem InBuffer.accesses_lt {s' : Screen} (h : InBuffer s s')
    (hs : ∀ i ∈ s.accesses, i < ttyWidth * ttyHeight) :
    ∀ i ∈ s'.accesses, i < ttyWidth * ttyHeight :=
  fun i hi => (h i hi).elim (hs i) id

/-- Scrolling brings the row of the cursor onto the screen, and leaves its column. -/
theorem scrollToCursor_spec {n : ℕ} (h : s.cursor.y < n + ttyHeight) :
    (scrollToCursor n s).cursor.x = s.cursor.x ∧ (scrollToCursor n s).cursor.y < ttyHeight ∧
      InBuffer s (scrollToCursor n s) := by
  induction n generalizing s with
  | zero => exact ⟨rfl, (Nat.zero_add ttyHeight).symm ▸ h, .refl s⟩
  | succ n ih =>
    rw [scrollToCursor]
    split_ifs with hy
    · have hpos : 0 < ttyHeight := by decide
      have hrow : s.cursor.y - 1 < n + ttyHeight := by omega
      obtain ⟨hx', hy', hb⟩ := ih (s := s.scroll.withCursor ⟨s.cursor.x, s.cursor.y - 1⟩) hrow
      have hscroll : InBuffer s s.scroll := (scroll_spec s).2.1
      exact ⟨hx', hy', (hscroll.trans (inBuffer_withCursor _ _)).trans hb⟩
    · exact ⟨rfl, not_le.1 hy, .refl s⟩

theorem setCursorPos_spec (s : Screen) (x y : ℕ) :
    (s.setCursorPos x y).cursor.x = u8 x ∧ (s.setCursorPos x y).cursor.y < ttyHeight ∧
      InBuffer s (s.setCursorPos x y) :=
  scrollToCursor_spec (s := s.withCursor ⟨u8 x, u8 y⟩) (Nat.lt_add_of_pos_right (by decide))

/-- Any row will do, but the column is taken as it is. -/
theorem onScreen_setCursorPos_iff (hs : ∀ i ∈ s.accesses, i < ttyWidth * ttyHeight) (x y : ℕ) :
    OnScreen (s.setCursorPos x y) ↔ u8 x < ttyWidth := by
  obtain ⟨hx, hy, hb⟩ := s.setCursorPos_spec x y
  constructor
  · intro h
    exact hx ▸ h.x_lt
  · intro h
    exact ⟨hx.trans_lt h, hy, hb.accesses_lt hs⟩

namespace OnScreen

theorem setCursorPos (h : OnScreen s) {x : ℕ} (hx : x < ttyWidth) (y : ℕ) :
    OnScreen (s.setCursorPos x y) :=
  (onScreen_setCursorPos_iff h.accesses_lt x y).2 ((Nat.mod_le _ _).trans_lt hx)

theorem putChar (h : OnScreen s) (c : BitVec 8) : OnScreen (s.putChar c) := by
  have hx := h.x_lt
  have hy := h.y_lt
  rw [ttyWidth] at hx
  rw [ttyHeight] at hy
  have hcell : s.cursor.y * ttyWidth + s.cursor.x < ttyWidth * ttyHeight := by
    rw [ttyWidth, ttyHeight]
    omega
  have hs : OnScreen (s.store (s.cursor.y * ttyWidth + s.cursor.x) (0x0700 ||| c.signExtend 16)) :=
    ⟨h.x_lt, h.y_lt, (inBuffer_store hcell s _).accesses_lt h.accesses_lt⟩
  exact hs.setCursorPos ((Nat.mod_le _ _).trans_lt (Nat.mod_lt _ (by decide))) _

theorem newLine (h : OnScreen s) : OnScreen s.newLine := h.setCursorPos (by decide) _

/-- The parts of the calls that print keep the cursor on the screen, whatever they print. -/
theorem simulation : Simulation fun s _ => OnScreen s where
  glyph h c := h.putChar c
  newLine h := h.newLine
  carriageReturn h := h.setCursorPos (by decide) _
  backspace h := by
    split_ifs
    · exact h.setCursorPos ((Nat.sub_le _ _).trans_lt h.x_lt) _
    · exact h

end OnScreen

/-- The cleared screen, from any cursor on. -/
theorem onScreen_clearScreen (hs : ∀ i ∈ s.accesses, i < ttyWidth * ttyHeight) :
    OnScreen s.clearScreen := by
  obtain ⟨hb, -⟩ := clearFrom_spec (i := 0) (n := ttyWidth * ttyHeight) (Nat.zero_add _).le s
  rw [clearScreen]
  exact (onScreen_setCursorPos_iff (hb.accesses_lt hs) 0 0).2 (by decide)

/-- On the screen, a call leads off it exactly if it is given a column that is not on it. -/
theorem onScreen_publicCall_iff (h : OnScreen s) (c : PublicCall) :
    OnScreen (s.publicCall c).2 ↔ s.KeepsColumn c := by
  cases c with
  | initializeVga => exact iff_of_true (onScreen_clearScreen h.accesses_lt) trivial
  | clearScreen => exact iff_of_true (onScreen_clearScreen h.accesses_lt) trivial
  | print c => exact iff_of_true (OnScreen.simulation.call (p := s.page) h c) trivial
  | getCursorPos => exact iff_of_true h trivial
  | setCursorPos x y =>
    rw [KeepsColumn, ← u8_of_lt x.isLt]
    exact onScreen_setCursorPos_iff h.accesses_lt x.toNat y.toNat
  | offsetCursor dx dy => exact onScreen_setCursorPos_iff h.accesses_lt _ _

/-- The initialised screen, with the accesses to the buffer counted from there on. -/
def booted (s : Screen) : Screen := s.fresh.initializeVga

theorem onScreen_booted (s : Screen) : OnScreen s.booted :=
  onScreen_clearScreen fun _ hi => absurd hi List.not_mem_nil

/-- Behind the initialisation and behind each of any calls the cursor is on the screen, with
    all accesses in the buffer, exactly if every column that the calls are given is on the
    screen. -/
theorem onScreen_visits_iff (s : Screen) (calls : List PublicCall) :
    (OnScreen s.booted ∧
        ∀ p ∈ Machine.visits publicCall s.booted calls, OnScreen (publicCall p.1 p.2).2) ↔
      ∀ p ∈ Machine.visits publicCall s.booted calls, KeepsColumn p.1 p.2 := by
  have hrun := @Machine.forall_visits_iff _ _ _ publicCall OnScreen KeepsColumn
    (fun _ c h => onScreen_publicCall_iff h c) _ (onScreen_booted s) calls
  exact (and_iff_right (onScreen_booted s)).trans hrun

/-- In a row of the screen, the column is the one that is given. -/
theorem cursor_setCursorPos {y : ℕ} (hy : u8 y < ttyHeight) (s : Screen) (x : ℕ) :
    (s.setCursorPos x y).cursor = ⟨u8 x, u8 y⟩ := by
  rw [setCursorPos, cursor_showCursor, scrollToCursor_of_lt hy]
  rfl

/-- A character is written where the cursor is, even if that is behind the last column. -/
theorem accesses_putChar {s : Screen} (hx : (s.cursor.x + 1) % ttyWidth ≠ 0)
    (hy : s.cursor.y < ttyHeight) (c : BitVec 8) :
    (s.putChar c).accesses = (s.cursor.y * ttyWidth + s.cursor.x) :: s.accesses := by
  have hlt : (s.cursor.x + 1) % ttyWidth < ttyWidth := Nat.mod_lt _ (by decide)
  have hcol : u8 ((s.cursor.x + 1) % ttyWidth) = (s.cursor.x + 1) % ttyWidth :=
    u8_of_lt (hlt.trans (by decide))
  simp only [putChar, cursor_store, hcol, if_neg hx]
  rw [u8_of_lt (hy.trans (by decide)), setCursorPos_of_lt hlt hy]
  rfl

/-- The cursor set to the column 200 of the last row: the next character is written behind
    the 2000 cells of the buffer. -/
theorem not_onScreen_column :
    2120 ∈ ((sampleScreen.booted.setCursorPos 200 24).putChar 0x41).accesses ∧
      ¬(OnScreen sampleScreen.booted ∧
        ∀ p ∈ Machine.visits publicCall sampleScreen.booted
          [.setCursorPos 200 24, .print (.putChar 0x41)], OnScreen (publicCall p.1 p.2).2) := by
  have hcursor := cursor_setCursorPos (y := 24) (by decide) sampleScreen.booted 200
  constructor
  · rw [accesses_putChar (by rw [hcursor]; decide) (by rw [hcursor]; decide), hcursor]
    exact List.mem_cons_self
  · rintro ⟨-, h⟩
    have hset := (h _ List.mem_cons_self).x_lt
    have hcall : (publicCall sampleScreen.booted (.setCursorPos 200 24)).2 =
        sampleScreen.booted.setCursorPos 200 24 := rfl
    rw [hcall, hcursor] at hset
    exact absurd hset (by decide)

end Screen

end Vga

end KessokuOS
