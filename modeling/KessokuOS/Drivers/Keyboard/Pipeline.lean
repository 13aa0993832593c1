import Mathlib.Data.List.Count
import KessokuOS.Drivers.Keyboard.Code

/-!
# From the keys to the events polled

The codes of known keys wait in the controller, while the keyboard interrupts, and
the kernel polls events, in any order. Each interrupt offers the event of the next
code to the queue, which has room for 32 events and drops what is offered when it is
full (`kept`, `stored`).

* `run_spec`: the events offered, what is still waiting, and the events polled, from
  any state on;
* `run_codes`: the same from the start of the driver on, with the keys that are then
  pressed.
-/

namespace KessokuOS

namespace Keyboard

/-- The keyboard interrupts, or the kernel polls an event. -/
inductive Act
  | interrupt
  | poll
  deriving DecidableEq, Repr

/-- What an act shows: the event an interrupt offers to the queue, if it does, or what
    is returned by `pollEvent`. -/
inductive Sight
  | offered (e : Option KeyboardEvent)
  | polled (r : ErrorOr KeyboardEvent)

namespace Sight

def offeredEvent : Sight → Option KeyboardEvent
  | offered e => e
  | polled _ => none

def polledEvent : Sight → Option KeyboardEvent
  | offered _ => none
  | polled r => r.toOption

end Sight

def step (s : Keyboard) : Act → Sight × Keyboard
  | .interrupt => (.offered (nextEvent s.waiting), s.handle)
  | .poll => (.polled s.pollEvent.1, s.pollEvent.2)

/-- The events offered in some acts. -/
def offeredEvents (s : Keyboard) (acts : List Act) : List KeyboardEvent :=
  (Machine.run step s acts).1.filterMap Sight.offeredEvent

/-- The events polled in some acts. -/
def polledEvents (s : Keyboard) (acts : List Act) : List KeyboardEvent :=
  (Machine.run step s acts).1.filterMap Sight.polledEvent

/-- The state behind some acts. -/
def after (s : Keyboard) (acts : List Act) : Keyboard := (Machine.run step s acts).2

/-- The events, of those that the interrupts of some acts offer in turn, which are
    offered while fewer than 32 are stored; `n` are at first, and a poll releases one. -/
def kept : List Act → List KeyboardEvent → (n : ℕ) → List KeyboardEvent
  | [], _, _ => []
  | .poll :: acts, es, n => kept acts es (n - 1)
  | .interrupt :: acts, [], n => kept acts [] n
  | .interrupt :: acts, e :: es, n =>
    if n < keyboardEventQueueSize then e :: kept acts es (n + 1) else kept acts es n

/-- How many events are stored behind some acts. -/
def stored : List Act → List KeyboardEvent → (n : ℕ) → ℕ
  | [], _, n => n
  | .poll :: acts, es, n => stored acts es (n - 1)
  | .interrupt :: acts, [], n => stored acts [] n
  | .interrupt :: acts, _ :: es, n =>
    if n < keyboardEventQueueSize then stored acts es (n + 1) else stored acts es n

variable {s : Keyboard} {c : Code} {cs : List Code} {acts : List Act} {l : List KeyboardEvent}

/-! ## One act -/

theorem offeredEvents_cons (s : Keyboard) (a : Act) (acts : List Act) :
    offeredEvents s (a :: acts) =
      (step s a).1.offeredEvent.toList ++ offeredEvents (step s a).2 acts := by
  rw [offeredEvents, Machine.run, List.filterMap_cons]
  cases (step s a).1.offeredEvent <;> rfl

theorem polledEvents_cons (s : Keyboard) (a : Act) (acts : List Act) :
    polledEvents s (a :: acts) =
      (step s a).1.polledEvent.toList ++ polledEvents (step s a).2 acts := by
  rw [polledEvents, Machine.run, List.filterMap_cons]
  cases (step s a).1.polledEvent <;> rfl

/-- An interrupt reads the next code, and offers its event. -/
theorem handle_of_codes (h : s.waiting = (c :: cs).flatMap Code.bytes) :
    nextEvent s.waiting = some c.keyEvent ∧
      s.handle = { s with waiting := cs.flatMap Code.bytes }.offer c.keyEvent := by
  rw [List.flatMap_cons] at h
  have hn : nextEvent s.waiting = some c.keyEvent := by rw [h, nextEvent_bytes]
  rw [handle_eq, hn, h, parseScancode_bytes]
  exact ⟨rfl, rfl⟩

/-- Without a byte waiting, an interrupt does nothing. -/
theorem handle_of_nil (h : s.waiting = []) : nextEvent s.waiting = none ∧ s.handle = s := by
  rw [handle_eq, h, nextEvent_nil, parseScancode_nil_snd]
  refine ⟨rfl, ?_⟩
  rw [Option.toList_none, List.foldl_nil, ← h]

/-! ## Runs -/

/-- The events offered are those of the codes, one for each interrupt; the codes
    behind them are still waiting; and the keys are noted as they are offered. -/
theorem offered_run (h : s.waiting = cs.flatMap Code.bytes) (acts : List Act) :
    offeredEvents s acts = (cs.take (acts.count .interrupt)).map Code.keyEvent ∧
      (after s acts).waiting = (cs.drop (acts.count .interrupt)).flatMap Code.bytes ∧
      (after s acts).keyState = (offeredEvents s acts).foldl note s.keyState := by
  induction acts generalizing s cs with
  | nil => exact ⟨rfl, h, rfl⟩
  | cons a acts ih =>
    rw [offeredEvents_cons]
    cases a with
    | poll =>
      rw [List.count_cons_of_ne (by decide)]
      exact ih (s := s.pollEvent.2) h
    | interrupt =>
      rw [List.count_cons_self]
      cases cs with
      | nil =>
        obtain ⟨hn, hs⟩ := handle_of_nil h
        have h' := ih h
        simp only [step, Sight.offeredEvent, after, Machine.run, hn, hs, List.take_nil,
          List.drop_nil] at h' ⊢
        exact h'
      | cons c cs =>
        obtain ⟨hn, hs⟩ := handle_of_codes h
        have hw : s.handle.waiting = cs.flatMap Code.bytes := by
          rw [hs]
          rfl
        obtain ⟨h₁, h₂, h₃⟩ := ih hw
        -- The event is noted whether or not the queue takes it.
        simp only [step, Sight.offeredEvent, hn]
        refine ⟨congrArg (c.keyEvent :: ·) h₁, h₂, ?_⟩
        refine Eq.trans h₃ ?_
        rw [hs]
        rfl

/-- The events polled are the kept ones, except for those that are still stored. -/
theorem polled_run (h : s.waiting = cs.flatMap Code.bytes) (hl : s.eventQueue.Represents l)
    (acts : List Act) : ∃ l', (after s acts).eventQueue.Represents l' ∧
      polledEvents s acts ++ l' = l ++ kept acts (cs.map Code.keyEvent) l.length ∧
      l'.length = stored acts (cs.map Code.keyEvent) l.length := by
  induction acts generalizing s cs l with
  | nil => exact ⟨l, hl, (List.append_nil l).symm, rfl⟩
  | cons a acts ih =>
    rw [polledEvents_cons]
    cases a with
    | poll =>
      cases l with
      | nil =>
        have hq := hl.popFront_of_empty
        simp only [step, pollEvent, Sight.polledEvent, after, Machine.run, hq]
        exact ih h hl
      | cons e l =>
        obtain ⟨hr, hl'⟩ := hl.popFront_of_cons
        obtain ⟨l', h₁, h₂, h₃⟩ := ih (s := s.pollEvent.2) h hl'
        simp only [step, pollEvent, Sight.polledEvent, hr]
        exact ⟨l', h₁, congrArg (e :: ·) h₂, h₃⟩
    | interrupt =>
      cases cs with
      | nil =>
        obtain ⟨-, hs⟩ := handle_of_nil h
        obtain ⟨l', h₁, h₂, h₃⟩ := ih h hl
        simp only [step, Sight.polledEvent, after, Machine.run, hs]
        exact ⟨l', h₁, h₂, h₃⟩
      | cons c cs =>
        obtain ⟨-, hs⟩ := handle_of_codes h
        have hw : s.handle.waiting = cs.flatMap Code.bytes := by rw [hs]; rfl
        have hq : s.handle.eventQueue = (s.eventQueue.pushBack c.keyEvent).2 := by rw [hs]; rfl
        rw [List.map_cons, kept, stored]
        by_cases hlt : l.length < keyboardEventQueueSize
        · have hl' := (hl.pushBack_of_lt c.keyEvent hlt.ne).2
          rw [← hq] at hl'
          obtain ⟨l', h₁, h₂, h₃⟩ := ih hw hl'
          rw [List.length_append, List.length_singleton] at h₂ h₃
          rw [if_pos hlt, if_pos hlt]
          refine ⟨l', h₁, h₂.trans ?_, h₃⟩
          rw [List.append_assoc, List.singleton_append]
        · -- The queue is full, and the event is lost.
          have hfull : l.length = keyboardEventQueueSize :=
            le_antisymm hl.length_le (not_lt.1 hlt)
          rw [hl.pushBack_of_full _ hfull] at hq
          rw [if_neg hlt, if_neg hlt]
          exact ih hw (hq ▸ hl)

/-- The codes `cs` wait at the start of the driver. In any acts of which `n` are
    interrupts, the interrupts offer the events of the first `n` codes, and leave the
    others waiting; a key is pressed if the last of these codes that is one of the key
    is a make code; and the events polled are those kept, but for the ones still
    stored. -/
theorem run_codes (data : ℕ → KeyboardEvent) (cs : List Code) (acts : List Act) :
    let s := start data (cs.flatMap Code.bytes)
    let n := acts.count .interrupt
    offeredEvents s acts = (cs.take n).map Code.keyEvent ∧
      (after s acts).waiting = (cs.drop n).flatMap Code.bytes ∧
      ((after s acts).waiting = [] ↔ cs.length ≤ n) ∧
      (∀ k, (after s acts).isKeyPressed k = true ↔
        ((cs.take n).filter fun c => c.keycode = k).getLast?.map Code.event = some .pressed) ∧
      ∃ l, (after s acts).eventQueue.Represents l ∧
        polledEvents s acts ++ l = kept acts (cs.map Code.keyEvent) 0 ∧
        l.length = stored acts (cs.map Code.keyEvent) 0 := by
  intro s n
  have hw : s.waiting = cs.flatMap Code.bytes := rfl
  obtain ⟨h₁, h₂, h₃⟩ := offered_run hw acts
  refine ⟨h₁, h₂, ?_, fun k => ?_, polled_run hw (.new data) acts⟩
  · rw [h₂, flatMap_bytes_eq_nil_iff, List.drop_eq_nil_iff]
  · rw [isKeyPressed, h₃, h₁, foldl_note, List.filter_map, List.getLast?_map]
    have hf : ((fun e : KeyboardEvent => decide (e.key = k)) ∘ Code.keyEvent) =
        fun c => decide (c.keycode = k) := rfl
    rw [hf]
    cases ((cs.take (acts.count .interrupt)).filter fun c => c.keycode = k).getLast? with
    | none => exact iff_of_false Bool.false_ne_true (Option.some_ne_none _).symm
    | some c => exact decide_eq_true_iff.trans Option.some_inj.symm

end Keyboard

end KessokuOS
