import KessokuOS.Data.Queue
import KessokuOS.Drivers.Keyboard.Keycode
import KessokuOS.Interrupts.Pic

/-!
# The keyboard driver

The keyboard sends the scan codes of its keys, of which the controller keeps the
bytes in order until they are read. The handler of the keyboard interrupt reads a
code (`parseScancode`), and offers its event to a queue of 32 events, from which the
kernel polls them; whether the key is pressed is kept apart from the queue. No byte
is waited for: if there is none, the byte `0x00` is assumed.

What the handler does to a byte stream is that it decodes it (`decode`):

* `handle_eq`: one interrupt offers at most one event, and takes bytes if there are
  any;
* `handleAll_eq`, `offersAll_eq`: interrupts until no byte is left offer the events
  decoded.
-/

namespace KessokuOS

inductive KeyEvent
  | pressed
  | released
  deriving DecidableEq, Repr

/-- An event of a key. -/
structure KeyboardEvent where
  key : Keycode
  event : KeyEvent
  deriving DecidableEq, Repr

namespace Keyboard

def sendCommandRetryLimit : ℕ := 3

def keyboardEventQueueSize : ℕ := 32

/-! ## Reading a scan code -/

/-- The status port of the controller: bit 0 is set if a byte is waiting. -/
def statusPort (w : List (BitVec 8)) : BitVec 8 := if w = [] then 0 else 1

/-- The next of the waiting bytes, if the status port tells of one in one of `n`
    attempts, and `0x00` otherwise. -/
def getResponseFrom : (n : ℕ) → List (BitVec 8) → BitVec 8 × List (BitVec 8)
  | 0, w => (0x00, w)
  | n + 1, w => if statusPort w &&& 1 ≠ 0 then (w.headD 0, w.tail) else getResponseFrom n w

def getResponseUnsafe (w : List (BitVec 8)) : BitVec 8 × List (BitVec 8) :=
  getResponseFrom sendCommandRetryLimit w

/-- Reads bytes until one is `0x00`, which it is at the latest when none is left. -/
def drain : List (BitVec 8) → List (BitVec 8)
  | [] => []
  | b :: w => if b ≠ 0x00 then drain w else w

/-- `parse_scancode`: the key and the event of the next code, and the bytes left. -/
def parseScancode (w : List (BitVec 8)) : (Keycode × KeyEvent) × List (BitVec 8) :=
  let (b1, w) := getResponseUnsafe w
  if b1 = 0xE0 then
    let (b2, w) := getResponseUnsafe w
    if b2 = 0x12 then ((.unknown, .pressed), drain w)
    else if b2 = 0xF0 then
      let (b3, w) := getResponseUnsafe w
      -- The source tests the second byte again here, not the third one.
      if b2 = 0x12 then ((.unknown, .pressed), drain w)
      else ((scancodeMapE0 b3, .released), w)
    else ((scancodeMapE0 b2, .pressed), w)
  else if b1 = 0xF0 then
    let (b2, w) := getResponseUnsafe w
    ((scancodeMapSingleByte b2, .released), w)
  else ((scancodeMapSingleByte b1, .pressed), w)

@[simp] theorem getResponseUnsafe_nil : getResponseUnsafe [] = (0x00, []) := rfl

@[simp] theorem getResponseUnsafe_cons (b : BitVec 8) (w : List (BitVec 8)) :
    getResponseUnsafe (b :: w) = (b, w) := by
  rw [getResponseUnsafe, sendCommandRetryLimit, getResponseFrom, statusPort,
    if_neg (List.cons_ne_nil b w)]
  rfl

theorem length_drain_le (w : List (BitVec 8)) : (drain w).length ≤ w.length := by
  induction w with
  | nil => exact le_rfl
  | cons b w ih =>
    rw [drain, List.length_cons]
    split_ifs
    · exact ih.trans (Nat.le_succ _)
    · exact Nat.le_succ _

/-- Without a byte `0x00`, nothing is left. -/
theorem drain_eq_nil {w : List (BitVec 8)} (h : 0x00 ∉ w) : drain w = [] := by
  induction w with
  | nil => rfl
  | cons b w ih =>
    rw [List.mem_cons, not_or] at h
    rw [drain, if_pos (Ne.symm h.1), ih h.2]

theorem length_getResponseUnsafe_le (w : List (BitVec 8)) :
    (getResponseUnsafe w).2.length ≤ w.length := by
  cases w with
  | nil => exact le_rfl
  | cons b w =>
    rw [getResponseUnsafe_cons]
    exact Nat.le_succ _

/-- Reading a code takes bytes, if there are any. -/
theorem length_parseScancode_lt (b : BitVec 8) (w : List (BitVec 8)) :
    (parseScancode (b :: w)).2.length < (b :: w).length := by
  have h₁ := length_getResponseUnsafe_le w
  have h₂ := length_getResponseUnsafe_le (getResponseUnsafe w).2
  have h₃ := length_drain_le (getResponseUnsafe w).2
  have h₄ := length_drain_le (getResponseUnsafe (getResponseUnsafe w).2).2
  rw [List.length_cons, parseScancode, getResponseUnsafe_cons]
  dsimp only
  split_ifs <;> dsimp only <;> omega

/-- The event of the next code, if its key is known. -/
def nextEvent (w : List (BitVec 8)) : Option KeyboardEvent :=
  let (keycode, event) := (parseScancode w).1
  if keycode ≠ .unknown then some ⟨keycode, event⟩ else none

@[simp] theorem nextEvent_nil : nextEvent [] = none := rfl

@[simp] theorem parseScancode_nil_snd : (parseScancode []).2 = [] := rfl

end Keyboard

/-! ## The handler -/

/-- The bytes that wait in the controller, the queue of the events, and whether each
    key is pressed. -/
structure Keyboard where
  waiting : List (BitVec 8)
  eventQueue : Queue KeyboardEvent Keyboard.keyboardEventQueueSize
  keyState : ℕ → Bool

namespace Keyboard

/-- The driver at its start, with the given bytes waiting; the slots of the queue
    are not initialised. -/
def start (data : ℕ → KeyboardEvent) (w : List (BitVec 8)) : Keyboard :=
  ⟨w, Queue.new data, fun _ => false⟩

/-- The driver at its start, with no byte waiting. -/
def noneWaiting : Keyboard := start (fun _ => ⟨.unknown, .pressed⟩) []

def isKeyPressed (s : Keyboard) (key : Keycode) : Bool := s.keyState key.value

/-- `poll_event`. -/
def pollEvent (s : Keyboard) : ErrorOr KeyboardEvent × Keyboard :=
  (s.eventQueue.popFront.1, { s with eventQueue := s.eventQueue.popFront.2 })

/-- Notes whether the key of an event is pressed. -/
def note (keyState : ℕ → Bool) (e : KeyboardEvent) : ℕ → Bool :=
  Function.update keyState e.key.value (e.event = .pressed)

/-- Offers an event to the queue, and notes whether its key is pressed, even if the
    queue is full. -/
def offer (s : Keyboard) (e : KeyboardEvent) : Keyboard :=
  { s with eventQueue := (s.eventQueue.pushBack e).2, keyState := note s.keyState e }

/-- The keyboard's part of the handler. -/
def handle (s : Keyboard) : Keyboard :=
  let ((keycode, event), w) := parseScancode s.waiting
  let s := { s with waiting := w }
  if keycode ≠ .unknown then s.offer ⟨keycode, event⟩ else s

/-- `keyboard_handler`. -/
def keyboardHandler (s : Keyboard) (p : Pics) : Keyboard × Pics :=
  (s.handle, p.sendEndOfInterrupt 0x21)

/-- Interrupts until no byte is waiting, at most `n`. -/
def handleFor : (n : ℕ) → Keyboard → Keyboard
  | 0, s => s
  | n + 1, s => if s.waiting = [] then s else handleFor n s.handle

/-- Interrupts until no byte is waiting; each takes a byte at least. -/
def handleAll (s : Keyboard) : Keyboard := handleFor s.waiting.length s

/-- The events that interrupts offer until no byte is waiting, at most `n`. -/
def offersFor : (n : ℕ) → Keyboard → List KeyboardEvent
  | 0, _ => []
  | n + 1, s =>
    if s.waiting = [] then [] else (nextEvent s.waiting).toList ++ offersFor n s.handle

/-- The events that interrupts offer until no byte is waiting. -/
def offersAll (s : Keyboard) : List KeyboardEvent := offersFor s.waiting.length s

/-- More bytes arrive. -/
def receive (s : Keyboard) (w : List (BitVec 8)) : Keyboard :=
  { s with waiting := s.waiting ++ w }

/-! ## Decoding -/

/-- The events of the codes of a stream, read from at most `n` bytes. -/
def decodeFor : (n : ℕ) → List (BitVec 8) → List KeyboardEvent
  | 0, _ => []
  | _ + 1, [] => []
  | n + 1, b :: w => (nextEvent (b :: w)).toList ++ decodeFor n (parseScancode (b :: w)).2

/-- The events of the codes of a stream. -/
def decode (w : List (BitVec 8)) : List KeyboardEvent := decodeFor w.length w

variable {s : Keyboard} {w : List (BitVec 8)}

@[simp] theorem decode_nil : decode [] = [] := rfl

theorem decodeFor_of_le {n : ℕ} (h : w.length ≤ n) : decodeFor n w = decode w := by
  induction n using Nat.strong_induction_on generalizing w with
  | _ n ih =>
    cases w with
    | nil => cases n <;> rfl
    | cons b w =>
      have hlt := length_parseScancode_lt b w
      rw [List.length_cons] at h hlt
      obtain ⟨n, rfl⟩ : ∃ m, n = m + 1 := ⟨n - 1, by omega⟩
      rw [decode, List.length_cons, decodeFor, decodeFor, ih n (by omega) (by omega),
        ih w.length (by omega) (by omega)]

theorem decode_cons (b : BitVec 8) (w : List (BitVec 8)) :
    decode (b :: w) = (nextEvent (b :: w)).toList ++ decode (parseScancode (b :: w)).2 := by
  have hlt := length_parseScancode_lt b w
  rw [decode, List.length_cons, decodeFor, decodeFor_of_le (Nat.lt_succ_iff.1 hlt)]

/-- What an interrupt does: it offers the next event, if there is one. -/
theorem handle_eq (s : Keyboard) : s.handle =
    (nextEvent s.waiting).toList.foldl offer { s with waiting := (parseScancode s.waiting).2 } := by
  rw [handle, nextEvent]
  dsimp only
  split_ifs <;> rfl

theorem waiting_foldl_offer (es : List KeyboardEvent) :
    (es.foldl offer s).waiting = s.waiting := by
  induction es generalizing s with
  | nil => rfl
  | cons e es ih => exact ih

theorem foldl_offer_waiting (es : List KeyboardEvent) :
    { es.foldl offer s with waiting := w } = es.foldl offer { s with waiting := w } := by
  induction es generalizing s with
  | nil => rfl
  | cons e es ih => exact ih

theorem waiting_handle (s : Keyboard) : s.handle.waiting = (parseScancode s.waiting).2 := by
  rw [handle_eq, waiting_foldl_offer]

theorem handleFor_eq {n : ℕ} (h : s.waiting.length ≤ n) :
    handleFor n s = (decode s.waiting).foldl offer { s with waiting := [] } := by
  induction n generalizing s with
  | zero =>
    have hw : s.waiting = [] := List.eq_nil_of_length_eq_zero (Nat.le_zero.1 h)
    rw [handleFor, hw, decode_nil, List.foldl_nil, ← hw]
  | succ n ih =>
    rw [handleFor]
    by_cases hw : s.waiting = []
    · rw [if_pos hw, hw, decode_nil, List.foldl_nil, ← hw]
    · rw [if_neg hw]
      obtain ⟨b, w, hbw⟩ := List.exists_cons_of_ne_nil hw
      have hlt := length_parseScancode_lt b w
      rw [List.length_cons] at hlt
      rw [hbw, List.length_cons] at h
      rw [ih (by rw [waiting_handle, hbw]; omega), waiting_handle, hbw, decode_cons,
        List.foldl_append, handle_eq, hbw, foldl_offer_waiting]

/-- Interrupts until no byte is left offer the events decoded from the stream. -/
theorem handleAll_eq (s : Keyboard) :
    s.handleAll = (decode s.waiting).foldl offer { s with waiting := [] } :=
  handleFor_eq le_rfl

/-- No byte is left. -/
theorem waiting_handleAll (s : Keyboard) : s.handleAll.waiting = [] := by
  rw [handleAll_eq, waiting_foldl_offer]

theorem offersFor_eq {n : ℕ} (h : s.waiting.length ≤ n) : offersFor n s = decode s.waiting := by
  induction n generalizing s with
  | zero => rw [offersFor, List.eq_nil_of_length_eq_zero (Nat.le_zero.1 h), decode_nil]
  | succ n ih =>
    rw [offersFor]
    by_cases hw : s.waiting = []
    · rw [if_pos hw, hw, decode_nil]
    · rw [if_neg hw]
      obtain ⟨x, w, hxw⟩ := List.exists_cons_of_ne_nil hw
      have hlt := length_parseScancode_lt x w
      rw [List.length_cons] at hlt
      rw [hxw, List.length_cons] at h
      rw [ih (by rw [waiting_handle, hxw]; omega), waiting_handle, hxw, decode_cons]

theorem offersAll_eq (s : Keyboard) : s.offersAll = decode s.waiting := offersFor_eq le_rfl

/-! ## The keys that are pressed -/

theorem keyState_foldl_offer (es : List KeyboardEvent) :
    (es.foldl offer s).keyState = es.foldl note s.keyState := by
  induction es generalizing s with
  | nil => rfl
  | cons e es ih => exact ih

theorem keyState_handleAll (s : Keyboard) :
    s.handleAll.keyState = (decode s.waiting).foldl note s.keyState := by
  rw [handleAll_eq, keyState_foldl_offer]

/-- A key is pressed if its last event says so, and as before if it has none. -/
theorem foldl_note (es : List KeyboardEvent) (keyState : ℕ → Bool) (k : Keycode) :
    es.foldl note keyState k.value =
      (es.filter fun e => e.key = k).getLast?.elim (keyState k.value) fun e =>
        e.event = .pressed := by
  induction es using List.reverseRecOn with
  | nil => rfl
  | append_singleton es e ih =>
    rw [List.foldl_append, List.foldl_cons, List.foldl_nil, List.filter_append, note]
    by_cases hk : e.key = k
    · rw [List.filter_cons_of_pos (by simp [hk]), List.filter_nil, List.getLast?_concat, hk]
      exact Function.update_self ..
    · rw [List.filter_cons_of_neg (by simp [hk]), List.filter_nil, List.append_nil, ← ih]
      exact Function.update_of_ne (fun h => hk (Keycode.value_injective h).symm) ..

end Keyboard

end KessokuOS
