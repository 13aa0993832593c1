import KessokuOS.Drivers.Keyboard.Basic

/-!
# Scan codes

A scan code is spelled in one to three bytes: the byte of its key, behind `0xE0` if
it is found in the second table, with `0xF0` before it if the key is released
(`Code`). The driver reads a whole code at a time, whatever follows it
(`parseScancode_bytes`), and decodes a stream of codes to their events
(`decode_flatMap_bytes`).
-/

namespace KessokuOS

namespace Keyboard

/-- The two tables. -/
def scancodeMap (extended : Bool) (b : BitVec 8) : Keycode :=
  if extended then scancodeMapE0 b else scancodeMapSingleByte b

/-- The make code or the break code of a key that is known. -/
structure Code where
  /-- The key is found in the second table. -/
  extended : Bool
  byte : BitVec 8
  event : KeyEvent
  known : scancodeMap extended byte ≠ .unknown

namespace Code

def keycode (c : Code) : Keycode := scancodeMap c.extended c.byte

def keyEvent (c : Code) : KeyboardEvent := ⟨c.keycode, c.event⟩

/-- What stands before the byte of the key. -/
def pre (extended : Bool) (event : KeyEvent) : List (BitVec 8) :=
  (if extended then [0xE0] else []) ++ (if event = .released then [0xF0] else [])

/-- The bytes of a code. -/
def bytes (c : Code) : List (BitVec 8) := pre c.extended c.event ++ [c.byte]

variable {c : Code} {w : List (BitVec 8)}

/-- The byte of a key is none that its table does not know. -/
theorem byte_ne (c : Code) {b : BitVec 8} (h : scancodeMap c.extended b = .unknown) :
    c.byte ≠ b :=
  fun hb => c.known (hb ▸ h)

theorem byte_ne_e0 (c : Code) : c.byte ≠ 0xE0 := c.byte_ne (by cases c.extended <;> rfl)

theorem byte_ne_f0 (c : Code) : c.byte ≠ 0xF0 := c.byte_ne (by cases c.extended <;> rfl)

theorem byte_ne_zero (c : Code) : c.byte ≠ 0#8 := c.byte_ne (by cases c.extended <;> rfl)

theorem byte_ne_12 (h : c.extended = true) : c.byte ≠ 0x12 := c.byte_ne (by rw [h]; rfl)

theorem bytes_ne_nil (c : Code) : c.bytes ≠ [] := by simp [bytes]

theorem zero_not_mem_bytes (c : Code) : 0#8 ∉ c.bytes := by
  have h : ¬0#8 = c.byte := c.byte_ne_zero.symm
  rw [bytes, pre]
  split_ifs <;> simp [h]

end Code

variable {c : Code} {cs : List Code} {w : List (BitVec 8)} {b : BitVec 8}

/-! ## Reading what is not special -/

theorem parseScancode_make (h₁ : b ≠ 0xE0) (h₂ : b ≠ 0xF0) (w : List (BitVec 8)) :
    parseScancode (b :: w) = ((scancodeMapSingleByte b, .pressed), w) := by
  rw [parseScancode, getResponseUnsafe_cons]
  dsimp only
  rw [if_neg h₁, if_neg h₂]

theorem parseScancode_break (b : BitVec 8) (w : List (BitVec 8)) :
    parseScancode (0xF0 :: b :: w) = ((scancodeMapSingleByte b, .released), w) := by
  rw [parseScancode, getResponseUnsafe_cons]
  dsimp only
  rw [if_neg (by decide), if_pos rfl, getResponseUnsafe_cons]

theorem parseScancode_e0_make (h₁ : b ≠ 0x12) (h₂ : b ≠ 0xF0) (w : List (BitVec 8)) :
    parseScancode (0xE0 :: b :: w) = ((scancodeMapE0 b, .pressed), w) := by
  rw [parseScancode, getResponseUnsafe_cons]
  dsimp only
  rw [if_pos rfl, getResponseUnsafe_cons]
  dsimp only
  rw [if_neg h₁, if_neg h₂]

theorem parseScancode_e0_12 (w : List (BitVec 8)) :
    parseScancode (0xE0 :: 0x12 :: w) = ((.unknown, .pressed), drain w) := by
  rw [parseScancode, getResponseUnsafe_cons]
  dsimp only
  rw [if_pos rfl, getResponseUnsafe_cons]
  dsimp only
  rw [if_pos rfl]

theorem parseScancode_e0_break (b : BitVec 8) (w : List (BitVec 8)) :
    parseScancode (0xE0 :: 0xF0 :: b :: w) = ((scancodeMapE0 b, .released), w) := by
  rw [parseScancode, getResponseUnsafe_cons]
  dsimp only
  rw [if_pos rfl, getResponseUnsafe_cons]
  dsimp only
  rw [if_neg (by decide), if_pos rfl, getResponseUnsafe_cons]
  dsimp only
  rw [if_neg (by decide)]

/-! ## Reading a code -/

/-- A code is read as a whole, whatever follows it. -/
theorem parseScancode_bytes (c : Code) (w : List (BitVec 8)) :
    parseScancode (c.bytes ++ w) = ((c.keycode, c.event), w) := by
  have h₁ := c.byte_ne_e0
  have h₂ := c.byte_ne_f0
  have h₃ := c.byte_ne_12
  rw [Code.bytes, Code.pre, Code.keycode]
  cases hx : c.extended <;> cases he : c.event
  · exact parseScancode_make h₁ h₂ w
  · exact parseScancode_break c.byte w
  · exact parseScancode_e0_make (h₃ hx) h₂ w
  · exact parseScancode_e0_break c.byte w

theorem nextEvent_bytes (c : Code) (w : List (BitVec 8)) :
    nextEvent (c.bytes ++ w) = some c.keyEvent := by
  rw [nextEvent, parseScancode_bytes]
  exact if_pos c.known

/-- What is decoded of a stream of at least a byte. -/
theorem decode_of_ne_nil (h : w ≠ []) :
    decode w = (nextEvent w).toList ++ decode (parseScancode w).2 := by
  obtain ⟨b, w, rfl⟩ := List.exists_cons_of_ne_nil h
  exact decode_cons b w

theorem decode_bytes_append (c : Code) (w : List (BitVec 8)) :
    decode (c.bytes ++ w) = c.keyEvent :: decode w := by
  rw [decode_of_ne_nil (by simp [c.bytes_ne_nil]), nextEvent_bytes, parseScancode_bytes]
  rfl

/-- Codes are decoded to their events, whatever follows them. -/
theorem decode_flatMap_bytes_append (cs : List Code) (w : List (BitVec 8)) :
    decode (cs.flatMap Code.bytes ++ w) = cs.map Code.keyEvent ++ decode w := by
  induction cs with
  | nil => rfl
  | cons c cs ih =>
    rw [List.flatMap_cons, List.append_assoc, decode_bytes_append, ih, List.map_cons,
      List.cons_append]

theorem decode_flatMap_bytes (cs : List Code) :
    decode (cs.flatMap Code.bytes) = cs.map Code.keyEvent := by
  have h := decode_flatMap_bytes_append cs []
  rwa [List.append_nil, decode_nil, List.append_nil] at h

theorem flatMap_bytes_eq_nil_iff : cs.flatMap Code.bytes = [] ↔ cs = [] := by
  cases cs with
  | nil => exact iff_of_true rfl rfl
  | cons c cs => simp [c.bytes_ne_nil]

end Keyboard

end KessokuOS
