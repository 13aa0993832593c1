import KessokuOS.Drivers.Keyboard.Pipeline
import KessokuOS.Drivers.Vga.Basic

/-!
# The main loop of the kernel

The kernel polls the events of the keyboard, and puts what is typed on the screen: the
characters of the keys, in the row of the cursor; a backspace erases the last one. The
row is thus all that there is of a line editor, which holds at most 79 characters
(`edit`).

* `Edited.push`, `Edited.pop`: what a character and a backspace do to the row;
* `edited_events`: any events leave the line that `edit` makes of them in the row, and
  the rest of the screen as it was;
* `screen_mainLoop`: in the main loop, these are the events polled, whenever the
  keyboard interrupts.
-/

namespace KessokuOS

open Keyboard Vga

/-- The characters that a backspace prints: it goes back, erases and goes back. -/
def eraseString : List (BitVec 8) := [0x08, 0x20, 0x08]

/-- What the main loop does with an event. -/
def handleEvent (s : Screen) (e : KeyboardEvent) : Screen :=
  if e.event = .pressed then
    if e.key = .backspace then Screen.putString eraseString s
    else
      let c := BitVec.ofNat 8 (getKeycodeChar e.key).toNat
      if s.cursor.x < 79 ∧ c ≠ 0 then s.putChar c else s
  else s

/-- A round of the main loop, or an interrupt of the keyboard: without an event, the
    kernel halts until the next interrupt. -/
def mainStep (s : Keyboard × Screen) (a : Act) : Keyboard × Screen :=
  match a with
  | .interrupt => (s.1.handle, s.2)
  | .poll =>
    match s.1.pollEvent with
    | (.ok e, k) => (k, handleEvent s.2 e)
    | (.error _, k) => (k, s.2)

/-- The characters that an editor of at most 79 characters holds behind an event. -/
def edit (l : List (BitVec 8)) (e : KeyboardEvent) : List (BitVec 8) :=
  if e.event = .pressed then
    if e.key = .backspace then l.dropLast
    else
      let c := BitVec.ofNat 8 (getKeycodeChar e.key).toNat
      if l.length < 79 ∧ c ≠ 0 then l ++ [c] else l
  else l

/-- The row `y` of the screen holds the characters `l`, behind which it is blank or as
    in the screen `s₀`; the cursor is behind them, the other rows are as in `s₀`, and
    only the row has been accessed. -/
structure Edited (s₀ : Screen) (y : ℕ) (l : List (BitVec 8)) (s : Screen) : Prop where
  length_le : l.length ≤ 79
  cursor_eq : s.cursor = ⟨l.length, y⟩
  held : ∀ i (h : i < l.length), (s.textBuffer (y * ttyWidth + i)).setWidth 8 = l[i]
  rest : ∀ i, l.length ≤ i → i < ttyWidth → s.glyph (y * ttyWidth + i) = 0x20 ∨
    s.textBuffer (y * ttyWidth + i) = s₀.textBuffer (y * ttyWidth + i)
  others : ∀ i, i < y * ttyWidth ∨ y * ttyWidth + ttyWidth ≤ i →
    s.textBuffer i = s₀.textBuffer i
  accesses_mem : ∀ i ∈ s.accesses,
    i ∈ s₀.accesses ∨ y * ttyWidth ≤ i ∧ i < y * ttyWidth + ttyWidth

namespace Edited

variable {s₀ s : Screen} {y : ℕ} {l : List (BitVec 8)}

/-- At first, the row holds nothing. -/
theorem start (h : s.cursor = ⟨0, y⟩) : Edited s y [] s where
  length_le := Nat.zero_le _
  cursor_eq := h
  held _ h := absurd h (Nat.not_lt_zero _)
  rest _ _ _ := .inr rfl
  others _ _ := rfl
  accesses_mem _ hi := .inl hi

/-- A cell of the row is written. -/
theorem write (h : Edited s₀ y l s) {s' : Screen} {l' : List (BitVec 8)} {x : ℕ} {c : BitVec 8}
    (hx : x < ttyWidth)
    (htext : s'.textBuffer = Function.update s.textBuffer (y * ttyWidth + x)
      (0x0700 ||| c.signExtend 16))
    (haccesses : s'.accesses = (y * ttyWidth + x) :: s.accesses)
    (hcursor : s'.cursor = ⟨l'.length, y⟩) (hle : l'.length ≤ 79)
    (hl : ∀ i (h : i < l'.length), i = x ∧ c = l'[i] ∨ i ≠ x ∧ l[i]? = some l'[i])
    (hrest : ∀ i, l'.length ≤ i → i = x ∧ visible c = 0x20 ∨ i ≠ x ∧ l.length ≤ i) :
    Edited s₀ y l' s' := by
  have hself : s'.textBuffer (y * ttyWidth + x) = 0x0700 ||| c.signExtend 16 := by
    rw [htext, Function.update_self]
  have hother : ∀ i, i ≠ y * ttyWidth + x → s'.textBuffer i = s.textBuffer i := fun i hi => by
    rw [htext, Function.update_of_ne hi]
  refine ⟨hle, hcursor, fun i hi => ?_, fun i hi hlt => ?_, fun i hi => ?_, fun i hi => ?_⟩
  · rcases hl i hi with ⟨rfl, hc⟩ | ⟨hne, hl⟩
    · rw [hself, setWidth_written, hc]
    · obtain ⟨hi', hl⟩ := List.getElem?_eq_some_iff.1 hl
      rw [hother _ (by omega), h.held i hi', hl]
  · rcases hrest i hi with ⟨rfl, hc⟩ | ⟨hne, hle⟩
    · left
      rw [Screen.glyph, hself, setWidth_written, hc]
    · rw [Screen.glyph, hother _ (by omega)]
      exact h.rest i hle hlt
  · rw [hother i (by omega)]
    exact h.others i hi
  · rw [haccesses] at hi
    rcases List.mem_cons.1 hi with rfl | hi
    · exact .inr ⟨Nat.le_add_right _ _, by omega⟩
    · exact h.accesses_mem i hi

/-- A character is put behind the others. -/
theorem push (h : Edited s₀ y l s) (hy : y < 25) (hlt : l.length < 79) (c : BitVec 8) :
    Edited s₀ y (l ++ [c]) (s.putChar c) := by
  have hc := h.cursor_eq
  obtain ⟨h₁, h₂, h₃⟩ := Screen.putChar_spec (s := s) (c := c) (by rw [hc]; exact hlt)
    (by rw [hc]; exact hy)
  rw [hc] at h₁ h₂ h₃
  refine h.write (x := l.length) (hlt.trans (by decide)) h₁ h₃ ?_ ?_ (fun i hi => ?_)
    fun i hi => ?_
  · rw [h₂, List.length_append, List.length_singleton]
  · rw [List.length_append, List.length_singleton]
    exact hlt
  · rw [List.length_append, List.length_singleton] at hi
    by_cases hi' : i = l.length
    · left
      refine ⟨hi', ?_⟩
      rw [List.getElem_concat_length hi']
    · right
      refine ⟨hi', ?_⟩
      rw [List.getElem_append_left (by omega), List.getElem?_eq_getElem (by omega)]
  · rw [List.length_append, List.length_singleton] at hi
    right
    omega

/-- A backspace blanks the last cell, if there is one, and otherwise the first. -/
theorem pop (h : Edited s₀ y l s) (hy : y < 25) :
    Edited s₀ y l.dropLast (Screen.putString eraseString s) := by
  have hle := h.length_le
  have hc := h.cursor_eq
  -- The three characters, one after another.
  obtain ⟨s₁, hs₁⟩ : ∃ s₁, s.putStringChar 0x08 = s₁ := ⟨_, rfl⟩
  obtain ⟨h₁, h₂, h₃⟩ := Screen.putStringChar_backspace (s := s)
    (by rw [hc]; exact Nat.lt_succ_of_le hle) (by rw [hc]; exact hy)
  rw [hs₁, hc] at h₂
  rw [hs₁] at h₁ h₃
  dsimp only at h₂
  obtain ⟨s₂, hs₂⟩ : ∃ s₂, s₁.putChar 0x20 = s₂ := ⟨_, rfl⟩
  obtain ⟨h₄, h₅, h₆⟩ := Screen.putChar_spec (s := s₁) (c := 0x20)
    (by rw [h₂]; exact show l.length - 1 < 79 by omega) (by rw [h₂]; exact hy)
  rw [hs₂, h₂] at h₄ h₅ h₆
  dsimp only at h₄ h₅ h₆
  obtain ⟨h₇, h₈, h₉⟩ := Screen.putStringChar_backspace (s := s₂)
    (by rw [h₅]; exact show l.length - 1 + 1 < 80 by omega) (by rw [h₅]; exact hy)
  rw [h₅] at h₈
  have hs : Screen.putString eraseString s = s₂.putStringChar 0x08 := by
    rw [← hs₂, ← hs₁]
    rfl
  rw [hs]
  refine h.write (x := l.length - 1) (c := 0x20) (show l.length - 1 < 80 by omega) ?_ ?_ ?_ ?_
    (fun i hi => ?_) fun i hi => ?_
  · rw [h₇, h₄, h₁]
  · rw [h₉, h₆, h₃]
  · rw [h₈, List.length_dropLast, Nat.add_sub_cancel]
  · rw [List.length_dropLast]
    omega
  · rw [List.length_dropLast] at hi
    right
    refine ⟨hi.ne, ?_⟩
    rw [List.getElem_dropLast, List.getElem?_eq_getElem]
  · rw [List.length_dropLast] at hi
    by_cases hi' : i = l.length - 1
    · exact .inl ⟨hi', rfl⟩
    · exact .inr ⟨hi', by omega⟩

/-- An event. -/
theorem handleEvent (h : Edited s₀ y l s) (hy : y < 25) (e : KeyboardEvent) :
    Edited s₀ y (edit l e) (handleEvent s e) := by
  rw [edit, KessokuOS.handleEvent]
  by_cases hp : e.event = .pressed
  swap
  · rw [if_neg hp, if_neg hp]
    exact h
  rw [if_pos hp, if_pos hp]
  by_cases hb : e.key = .backspace
  · rw [if_pos hb, if_pos hb]
    exact h.pop hy
  rw [if_neg hb, if_neg hb, h.cursor_eq]
  by_cases hc : l.length < 79 ∧ BitVec.ofNat 8 (getKeycodeChar e.key).toNat ≠ 0
  · simp only [if_pos hc]
    exact h.push hy hc.1 _
  · simp only [if_neg hc]
    exact h

theorem foldl (hy : y < ttyHeight) (h : Edited s₀ y l s) (es : List KeyboardEvent) :
    Edited s₀ y (es.foldl edit l) (es.foldl KessokuOS.handleEvent s) := by
  induction es generalizing l s with
  | nil => exact h
  | cons e es ih => exact ih (h.handleEvent hy e)

end Edited

/-- From any screen with the cursor at the start of the row `y` on, any events leave in
    it the line that the editor makes of them, and the other rows as they were. -/
theorem edited_events {s₀ : Screen} {y : ℕ} (hy : y < ttyHeight) (hc : s₀.cursor = ⟨0, y⟩)
    (es : List KeyboardEvent) : Edited s₀ y (es.foldl edit []) (es.foldl handleEvent s₀) :=
  (Edited.start hc).foldl hy es

/-- The screen behind some rounds of the main loop and interrupts is that behind the
    events polled. -/
theorem screen_mainLoop (k : Keyboard) (s : Screen) (acts : List Act) :
    acts.foldl mainStep (k, s) = (after k acts, (polledEvents k acts).foldl handleEvent s) := by
  induction acts generalizing k s with
  | nil => rfl
  | cons a acts ih =>
    rw [List.foldl_cons, polledEvents_cons, List.foldl_append]
    cases a with
    | interrupt => exact ih k.handle s
    | poll =>
      have hk : (k.pollEvent.1, k.pollEvent.2) = k.pollEvent := rfl
      rw [mainStep, step, ← hk]
      cases k.pollEvent.1 with
      | error e => exact ih k.pollEvent.2 s
      | ok e => exact ih k.pollEvent.2 (handleEvent s e)

/-- A blank screen with the cursor at the start of its last row. -/
def lastRowScreen : Screen := ⟨fun _ => 0x0700, ⟨0, 24⟩, [], ⟨0, fun _ => 0⟩⟩

/-- The keys A and B, and a backspace. -/
def sampleEvents : List KeyboardEvent :=
  [⟨.keyA, .pressed⟩, ⟨.keyA, .released⟩, ⟨.keyB, .pressed⟩, ⟨.backspace, .pressed⟩]

theorem edited_events_sample :
    Edited lastRowScreen 24 [0x61] (sampleEvents.foldl handleEvent lastRowScreen) :=
  have h : Edited lastRowScreen 24 (sampleEvents.foldl edit [])
      (sampleEvents.foldl handleEvent lastRowScreen) :=
    edited_events (show 24 < 25 by decide) rfl sampleEvents
  h

end KessokuOS
