import KessokuOS.Drivers.Keyboard.Code

/-!
# Keys that the driver does not implement

The scan code set also has multimedia keys, and the keys Print Screen and Pause, with
codes of up to eight bytes (`Item`). What the driver makes of a stream that has them
in it (`decode_items`):

* it skips the codes of the multimedia keys, and the break code of Print Screen;
* at the make code of Print Screen, it throws away all that is waiting;
* it reads the code of Pause as those of the left control key and of the number lock
  key, pressed and released.

`notDisturbed_iff` says when the other keys are not disturbed by that.
-/

namespace KessokuOS

namespace Keyboard

/-- The second bytes of the codes of the multimedia and power keys. -/
def multimediaBytes : List (BitVec 8) :=
  [0x10, 0x15, 0x18, 0x20, 0x21, 0x23, 0x28, 0x2B, 0x30, 0x32, 0x34, 0x37, 0x38, 0x3A, 0x3B,
    0x3F, 0x40, 0x48, 0x4D, 0x50, 0x5E]

/-- A piece of a stream: the code of a key that is known, or of one that is not
    implemented. -/
inductive Item
  | code (c : Code)
  | multimedia (b : BitVec 8) (e : KeyEvent) (h : b ∈ multimediaBytes)
  | printScreen (e : KeyEvent)
  | pause

namespace Item

def bytes : Item → List (BitVec 8)
  | code c => c.bytes
  | multimedia b e _ => Code.pre true e ++ [b]
  | printScreen .pressed => [0xE0, 0x12, 0xE0, 0x7C]
  | printScreen .released => [0xE0, 0xF0, 0x7C, 0xE0, 0xF0, 0x12]
  | pause => [0xE1, 0x14, 0x77, 0xE1, 0xF0, 0x14, 0xF0, 0x77]

def code? : Item → Option Code
  | code c => some c
  | _ => none

def isPrintScreenMake : Item → Bool
  | printScreen .pressed => true
  | _ => false

def isPause : Item → Bool
  | pause => true
  | _ => false

/-- The events that the driver makes of an item, but for what the make code of Print
    Screen does to those behind it. -/
def events : Item → List KeyboardEvent
  | code c => [c.keyEvent]
  | multimedia _ _ _ => []
  | printScreen _ => []
  | pause => [⟨.leftCtrl, .pressed⟩, ⟨.numberLock, .pressed⟩, ⟨.leftCtrl, .released⟩,
      ⟨.numberLock, .released⟩]

end Item

variable {s : Keyboard} {items : List Item} {w : List (BitVec 8)}

/-- The codes of known keys in a stream. -/
def codes (items : List Item) : List Code := items.filterMap Item.code?

/-- What comes before the first make code of Print Screen. -/
def beforePrintScreen (items : List Item) : List Item :=
  items.takeWhile fun it => !it.isPrintScreenMake

/-- The first make code of Print Screen, and what comes behind it. -/
def fromPrintScreen (items : List Item) : List Item :=
  items.dropWhile fun it => !it.isPrintScreenMake

/-- The same events are offered, and the same keys are pressed, as if only the codes of
    known keys were there. -/
def NotDisturbed (s : Keyboard) (items : List Item) : Prop :=
  (s.receive (items.flatMap Item.bytes)).offersAll =
      (s.receive ((codes items).flatMap Code.bytes)).offersAll ∧
    ∀ k, (s.receive (items.flatMap Item.bytes)).handleAll.isKeyPressed k =
      (s.receive ((codes items).flatMap Code.bytes)).handleAll.isKeyPressed k

/-! ## Decoding the items -/

theorem zero_not_mem_bytes (it : Item) : 0#8 ∉ it.bytes := by
  cases it with
  | code c => exact c.zero_not_mem_bytes
  | multimedia b e h =>
    revert b
    cases e <;> decide
  | printScreen e => cases e <;> decide
  | pause => decide

theorem zero_not_mem_flatMap (items : List Item) : 0#8 ∉ items.flatMap Item.bytes := by
  rw [List.mem_flatMap]
  rintro ⟨it, -, hit⟩
  exact zero_not_mem_bytes it hit

/-- A code that is not known has no event. -/
theorem decode_multimedia (b : BitVec 8) (e : KeyEvent) (h : b ∈ multimediaBytes)
    (w : List (BitVec 8)) : decode (Code.pre true e ++ [b] ++ w) = decode w := by
  have hall : ∀ b ∈ multimediaBytes, b ≠ 0x12 ∧ b ≠ 0xF0 ∧ scancodeMapE0 b = .unknown := by
    decide
  obtain ⟨h₁, h₂, hu⟩ := hall b h
  cases e with
  | pressed =>
    rw [decode_of_ne_nil (by simp [Code.pre])]
    simp only [Code.pre, if_true, reduceCtorEq, if_false, List.append_nil, List.cons_append,
      List.nil_append, nextEvent, parseScancode_e0_make h₁ h₂, hu]
    rfl
  | released =>
    rw [decode_of_ne_nil (by simp [Code.pre])]
    simp only [Code.pre, if_true, List.cons_append, List.nil_append, nextEvent,
      parseScancode_e0_break, hu]
    rfl

/-- A make code of one byte, whatever follows it. -/
theorem decode_make {b : BitVec 8} (h₁ : b ≠ 0xE0) (h₂ : b ≠ 0xF0) (w : List (BitVec 8)) :
    decode (b :: w) = (if scancodeMapSingleByte b ≠ .unknown then
      some (⟨scancodeMapSingleByte b, .pressed⟩ : KeyboardEvent) else none).toList ++
        decode w := by
  rw [decode_cons, nextEvent, parseScancode_make h₁ h₂]

theorem decode_break (b : BitVec 8) (w : List (BitVec 8)) :
    decode (0xF0 :: b :: w) = (if scancodeMapSingleByte b ≠ .unknown then
      some (⟨scancodeMapSingleByte b, .released⟩ : KeyboardEvent) else none).toList ++
        decode w := by
  rw [decode_cons, nextEvent, parseScancode_break]

theorem decode_e0_break (b : BitVec 8) (w : List (BitVec 8)) :
    decode (0xE0 :: 0xF0 :: b :: w) = (if scancodeMapE0 b ≠ .unknown then
      some (⟨scancodeMapE0 b, .released⟩ : KeyboardEvent) else none).toList ++ decode w := by
  rw [decode_cons, nextEvent, parseScancode_e0_break]

/-- The code of Pause is read as six codes, four of which are those of other keys. -/
theorem decode_pause (w : List (BitVec 8)) :
    decode (Item.pause.bytes ++ w) = Item.pause.events ++ decode w := by
  simp only [Item.bytes, List.cons_append, List.nil_append]
  rw [decode_make (by decide) (by decide), decode_make (by decide) (by decide),
    decode_make (by decide) (by decide), decode_make (by decide) (by decide), decode_break,
    decode_break]
  rfl

theorem decode_printScreen_break (w : List (BitVec 8)) :
    decode ((Item.printScreen .released).bytes ++ w) = decode w := by
  simp only [Item.bytes, List.cons_append, List.nil_append]
  rw [decode_e0_break, decode_e0_break]
  rfl

/-- Behind the make code of Print Screen, nothing is left. -/
theorem decode_printScreen_make (h : 0#8 ∉ w) :
    decode ((Item.printScreen .pressed).bytes ++ w) = [] := by
  simp only [Item.bytes, List.cons_append, List.nil_append]
  rw [decode_cons, nextEvent, parseScancode_e0_12, drain_eq_nil (by simp [h])]
  rfl

/-- A stream is decoded up to the first make code of Print Screen. -/
theorem decode_items (items : List Item) :
    decode (items.flatMap Item.bytes) = (beforePrintScreen items).flatMap Item.events := by
  induction items with
  | nil => rfl
  | cons it items ih =>
    rw [List.flatMap_cons]
    cases it with
    | code c =>
      exact (decode_bytes_append c _).trans (congrArg (c.keyEvent :: ·) ih)
    | multimedia b e h => exact (decode_multimedia b e h _).trans ih
    | printScreen e =>
      cases e with
      | pressed => exact decode_printScreen_make (zero_not_mem_flatMap items)
      | released => exact (decode_printScreen_break _).trans ih
    | pause => exact (decode_pause _).trans (congrArg (Item.pause.events ++ ·) ih)

/-! ## What disturbs the other keys -/

theorem flatMap_events_of_no_pause (h : ∀ it ∈ items, it.isPause = false) :
    items.flatMap Item.events = (codes items).map Code.keyEvent := by
  induction items with
  | nil => rfl
  | cons it items ih =>
    have h' := ih fun x hx => h x (List.mem_cons_of_mem _ hx)
    rw [List.flatMap_cons, h']
    cases it with
    | code c => rfl
    | multimedia b e _ => rfl
    | printScreen e => rfl
    | pause => exact absurd (h _ List.mem_cons_self) Bool.true_eq_false_eq_False

theorem codes_eq_append (items : List Item) :
    codes items = codes (beforePrintScreen items) ++ codes (fromPrintScreen items) := by
  rw [codes, codes, codes, ← List.filterMap_append, beforePrintScreen, fromPrintScreen,
    List.takeWhile_append_dropWhile]

theorem notDisturbed_iff_decode (hs : s.waiting = []) : NotDisturbed s items ↔
    (beforePrintScreen items).flatMap Item.events = (codes items).map Code.keyEvent := by
  have hw : ∀ w, (s.receive w).waiting = w := fun w => by rw [receive, hs, List.nil_append]
  rw [NotDisturbed, offersAll_eq, offersAll_eq, hw, hw, decode_items, decode_flatMap_bytes]
  refine and_iff_left_of_imp fun h k => ?_
  rw [isKeyPressed, isKeyPressed, keyState_handleAll, keyState_handleAll, hw, hw, decode_items,
    decode_flatMap_bytes, h]
  rfl

/-- The other keys are not disturbed exactly when no code of theirs comes behind a make
    code of Print Screen, and no code of Pause before it; or when the events that the
    driver makes of Pause happen to be those which Print Screen makes it lose. -/
theorem notDisturbed_iff (hs : s.waiting = []) : NotDisturbed s items ↔
    ((∀ it ∈ beforePrintScreen items, it.isPause = false) ∧
        codes (fromPrintScreen items) = []) ∨
      ((∃ it ∈ beforePrintScreen items, it.isPause = true) ∧
        (beforePrintScreen items).flatMap Item.events = (codes items).map Code.keyEvent) := by
  rw [notDisturbed_iff_decode hs]
  by_cases hp : ∃ it ∈ beforePrintScreen items, it.isPause = true
  · rw [and_iff_right hp]
    refine (or_iff_right fun h => ?_).symm
    obtain ⟨it, hit, hpause⟩ := hp
    exact absurd ((h.1 it hit).symm.trans hpause) Bool.false_ne_true
  · have hno : ∀ it ∈ beforePrintScreen items, it.isPause = false := fun it hit =>
      Bool.eq_false_iff.2 fun h => hp ⟨it, hit, h⟩
    rw [flatMap_events_of_no_pause hno, and_iff_right hno, or_iff_left fun h => hp h.1,
      codes_eq_append items, List.map_append, List.self_eq_append_right, List.map_eq_nil_iff]

/-- The make code of the key A. -/
def makeA : Code := ⟨false, 0x1C, .pressed, by decide⟩

theorem notDisturbed_sample : NotDisturbed noneWaiting [.code makeA, .printScreen .pressed] ↔
    ((∀ it ∈ beforePrintScreen [.code makeA, .printScreen .pressed], it.isPause = false) ∧
        codes (fromPrintScreen [.code makeA, .printScreen .pressed]) = []) ∨
      ((∃ it ∈ beforePrintScreen [.code makeA, .printScreen .pressed], it.isPause = true) ∧
        (beforePrintScreen [.code makeA, .printScreen .pressed]).flatMap Item.events =
          (codes [.code makeA, .printScreen .pressed]).map Code.keyEvent) :=
  notDisturbed_iff rfl

/-- A key pressed behind Print Screen is lost, and Pause presses keys of its own. -/
theorem not_notDisturbed_makeA : ¬NotDisturbed noneWaiting [.printScreen .pressed, .code makeA] ∧
    ¬NotDisturbed noneWaiting [.pause] :=
  ⟨fun h => absurd h.1 (by decide), fun h => absurd h.1 (by decide)⟩

end Keyboard

end KessokuOS
