import KessokuOS.Data.PreemptedQueue
import KessokuOS.EventLoop

/-!
# The main loop and its interrupts

The main loop polls events and handles them until the queue of the keyboard is empty,
and then halts until the next interrupt. It may be interrupted between any two accesses
to the queue, by the keyboard or by another device, and just before it halts: an event
that is accepted then waits for the next interrupt.

* `inv_step`: the accepted events are those handled, the one in hand, and those in the
  queue, whatever the order of the steps;
* `shows_after`: hence the row of the cursor always holds the line that the editor makes
  of the events handled, and a further interrupt is enough for it to hold that of all the
  accepted ones;
* `handled_of_halts`: no event waits for two halts;
* `typed_line`: if no event is refused, that is the line typed.
-/

namespace KessokuOS

open Vga

/-- Where the main loop is. -/
inductive Phase
  /-- In `poll_event`, with what it has read of the queue. -/
  | polling (reader : Queue.Reader KeyboardEvent)
  /-- With an event that has been polled. -/
  | handling (event : KeyboardEvent)
  /-- The queue was empty, and the kernel is about to halt. -/
  | halting
  | halted

namespace Phase

def reader : Phase → Queue.Reader KeyboardEvent
  | polling r => r
  | _ => .idle

/-- The event in hand. -/
def inHand : Phase → List KeyboardEvent
  | handling e => [e]
  | _ => []

/-- What has been found out about the queue: if it was empty, `n` events are handled. -/
def Found (start n handled : ℕ) : Phase → Prop
  | polling (.hasEnd endIndex) => endIndex = start → n ≤ handled
  | halting => n ≤ handled
  | _ => True

end Phase

/-- The kernel in its main loop. The last four fields are a record of the events that the
    queue has accepted and refused, of those handled, and of how often the kernel has
    halted. -/
structure MainLoop where
  keyboard : Keyboard
  phase : Phase
  screen : Screen
  accepted : List KeyboardEvent
  refused : List KeyboardEvent
  handled : List KeyboardEvent
  halts : ℕ

namespace MainLoop

/-- What may happen next. -/
inductive Act
  /-- The keyboard sends bytes to the controller. -/
  | arrive (bytes : List (BitVec 8))
  | keyboardInterrupt
  /-- An interrupt of another device. -/
  | interrupt
  /-- The main loop makes its next access. -/
  | run

/-- The bytes that arrive. -/
def Act.bytes : Act → List (BitVec 8)
  | arrive bytes => bytes
  | keyboardInterrupt => []
  | interrupt => []
  | run => []

def start (k : Keyboard) (s : Screen) : MainLoop := ⟨k, .polling .idle, s, [], [], [], 0⟩

/-- Behind an interrupt, a halted kernel polls again. -/
def wake (s : MainLoop) : MainLoop :=
  match s.phase with
  | .halted => { s with phase := .polling .idle }
  | _ => s

/-- Whether the queue takes an event. -/
def note (s : MainLoop) (e : KeyboardEvent) : MainLoop :=
  match (s.keyboard.eventQueue.pushBack e).1 with
  | .ok () => { s with accepted := s.accepted ++ [e] }
  | .error _ => { s with refused := s.refused ++ [e] }

/-- The keyboard interrupts. -/
def keyboardInterrupt (s : MainLoop) : MainLoop :=
  { (Keyboard.nextEvent s.keyboard.waiting).toList.foldl note s with
    keyboard := s.keyboard.handle }.wake

/-- The next access of the main loop. -/
def run (s : MainLoop) : MainLoop :=
  match s.phase with
  | .polling .idle => { s with phase := .polling (.hasEnd s.keyboard.eventQueue.endIndex) }
  | .polling (.hasEnd endIndex) =>
    if endIndex = s.keyboard.eventQueue.startIndex then { s with phase := .halting }
    else { s with phase := .polling (.hasStart s.keyboard.eventQueue.startIndex) }
  | .polling (.hasStart startIndex) =>
    { s with
      phase := .polling (.hasElement startIndex (s.keyboard.eventQueue.data startIndex)) }
  | .polling (.hasElement startIndex e) =>
    { s with
      keyboard := { s.keyboard with
        eventQueue := { s.keyboard.eventQueue with
          startIndex := Queue.nextPosition Keyboard.keyboardEventQueueSize startIndex } }
      phase := .handling e }
  | .handling e =>
    { s with
      phase := .polling .idle
      screen := handleEvent s.screen e
      handled := s.handled ++ [e] }
  | .halting => { s with phase := .halted, halts := s.halts + 1 }
  | .halted => s

def step (s : MainLoop) : Act → MainLoop
  | .arrive bytes => { s with keyboard := s.keyboard.receive bytes }
  | .keyboardInterrupt => s.keyboardInterrupt
  | .interrupt => s.wake
  | .run => s.run

def after (s : MainLoop) (acts : List Act) : MainLoop := acts.foldl step s

/-- The queue, its reader, and the events that have left it. -/
def preempted (s : MainLoop) : Queue.Preempted KeyboardEvent Keyboard.keyboardEventQueueSize :=
  ⟨s.keyboard.eventQueue, s.phase.reader, s.accepted, s.handled ++ s.phase.inHand⟩

/-- The queue holds the events `l` that are accepted and not yet in hand, and the screen
    is that behind the events handled. -/
structure Inv (s₀ : Screen) (s : MainLoop) (l : List KeyboardEvent) : Prop where
  preempted_inv : s.preempted.Inv l
  screen_eq : s.screen = s.handled.foldl handleEvent s₀

variable {s t : MainLoop} {s₀ : Screen} {l : List KeyboardEvent} {a : Act} {e : KeyboardEvent}

/-! ## One step -/

theorem inv_start (data : ℕ → KeyboardEvent) (w : List (BitVec 8)) (s₀ : Screen) :
    Inv s₀ (start (.start data w) s₀) [] :=
  ⟨Queue.Preempted.inv_new data, rfl⟩

theorem wake_eq (s : MainLoop) : s.wake = s ∨
    s.phase = .halted ∧ s.wake = { s with phase := .polling .idle } := by
  rw [wake]
  split
  · exact .inr ⟨‹_›, rfl⟩
  · exact .inl rfl

theorem preempted_wake (s : MainLoop) : s.wake.preempted = s.preempted := by
  rcases wake_eq s with h | ⟨hp, h⟩
  · rw [h]
  · rw [h, preempted, preempted, hp]
    rfl

theorem fields_wake (s : MainLoop) : s.wake.keyboard = s.keyboard ∧ s.wake.screen = s.screen ∧
    s.wake.accepted = s.accepted ∧ s.wake.refused = s.refused ∧ s.wake.handled = s.handled ∧
    s.wake.halts = s.halts := by
  rcases wake_eq s with h | ⟨-, h⟩ <;> rw [h] <;> exact ⟨rfl, rfl, rfl, rfl, rfl, rfl⟩

theorem Inv.wake (h : Inv s₀ s l) : Inv s₀ s.wake l := by
  obtain ⟨-, hs, -, -, hh, -⟩ := fields_wake s
  exact ⟨by rw [preempted_wake]; exact h.preempted_inv, by rw [hs, hh]; exact h.screen_eq⟩

/-- What an interrupt of the keyboard does if the next code is not that of a known key. -/
theorem keyboardInterrupt_of_none (h : Keyboard.nextEvent s.keyboard.waiting = none) :
    s.keyboardInterrupt = { s with
      keyboard := { s.keyboard with
        waiting := (Keyboard.parseScancode s.keyboard.waiting).2 } }.wake := by
  rw [keyboardInterrupt, Keyboard.handle_eq, h]
  rfl

/-- It offers the event of the next code. -/
theorem keyboardInterrupt_of_some (h : Keyboard.nextEvent s.keyboard.waiting = some e) :
    s.keyboardInterrupt = { s.note e with
      keyboard := { s.keyboard with
        waiting := (Keyboard.parseScancode s.keyboard.waiting).2 }.offer e }.wake := by
  rw [keyboardInterrupt, Keyboard.handle_eq, h]
  rfl

theorem note_of_full (h : Inv s₀ s l) (hl : l.length = Keyboard.keyboardEventQueueSize)
    (e : KeyboardEvent) : s.note e = { s with refused := s.refused ++ [e] } := by
  have hq : s.keyboard.eventQueue.pushBack e = _ :=
    h.preempted_inv.represents.pushBack_of_full e hl
  rw [note, hq]

theorem note_of_lt (h : Inv s₀ s l) (hl : l.length ≠ Keyboard.keyboardEventQueueSize)
    (e : KeyboardEvent) : s.note e = { s with accepted := s.accepted ++ [e] } := by
  have hq : (s.keyboard.eventQueue.pushBack e).1 = _ :=
    (h.preempted_inv.represents.pushBack_of_lt e hl).1
  rw [note, hq]

/-- An interrupt of the keyboard leaves what has been handled, and the start of the queue.
    If a code of a known key is waiting, its event is accepted, or it is refused, as 32
    events are in the queue. -/
theorem keyboardInterrupt_spec (h : Inv s₀ s l) : ∃ l', Inv s₀ s.keyboardInterrupt l' ∧
    s.keyboardInterrupt.accepted = s.handled ++ s.phase.inHand ++ l' ∧
    (l' = l ∧ s.keyboardInterrupt.refused =
        s.refused ++ (Keyboard.nextEvent s.keyboard.waiting).toList ∧
        ((Keyboard.nextEvent s.keyboard.waiting).isSome →
          l.length = Keyboard.keyboardEventQueueSize) ∨
      l' = l ++ (Keyboard.nextEvent s.keyboard.waiting).toList ∧
        s.keyboardInterrupt.refused = s.refused) := by
  have hacc : s.accepted = s.handled ++ s.phase.inHand ++ l := h.preempted_inv.accepted_eq
  cases hn : Keyboard.nextEvent s.keyboard.waiting with
  | none =>
    rw [keyboardInterrupt_of_none hn]
    obtain ⟨-, -, ha, hr, -, -⟩ := fields_wake { s with
      keyboard := { s.keyboard with waiting := (Keyboard.parseScancode s.keyboard.waiting).2 } }
    refine ⟨l, Inv.wake ⟨h.preempted_inv, h.screen_eq⟩, by rw [ha, hacc], .inr ⟨?_, hr⟩⟩
    exact (List.append_nil l).symm
  | some e =>
    rw [keyboardInterrupt_of_some hn]
    have hrep := h.preempted_inv.represents
    by_cases hl : l.length = Keyboard.keyboardEventQueueSize
    · rw [note_of_full h hl]
      obtain ⟨-, -, ha, hr, -, -⟩ := fields_wake { s with
        keyboard := { s.keyboard with
          waiting := (Keyboard.parseScancode s.keyboard.waiting).2 }.offer e
        refused := s.refused ++ [e] }
      refine ⟨l, Inv.wake ⟨?_, h.screen_eq⟩, by rw [ha, hacc], .inl ⟨rfl, hr, fun _ => hl⟩⟩
      have hq : s.keyboard.eventQueue.pushBack e = _ := hrep.pushBack_of_full e hl
      rw [preempted, Keyboard.offer]
      simp only [hq]
      exact h.preempted_inv
    · rw [note_of_lt h hl]
      obtain ⟨-, -, ha, hr, -, -⟩ := fields_wake { s with
        keyboard := { s.keyboard with
          waiting := (Keyboard.parseScancode s.keyboard.waiting).2 }.offer e
        accepted := s.accepted ++ [e] }
      refine ⟨l ++ [e], Inv.wake ⟨?_, h.screen_eq⟩, ?_, .inr ⟨rfl, hr⟩⟩
      · have hpush := (Queue.Preempted.push_of_lt h.preempted_inv e hl).1
        have hq : (s.keyboard.eventQueue.pushBack e).1 = .ok () := (hrep.pushBack_of_lt e hl).1
        rw [Queue.Preempted.push, ← Prod.mk.eta (p := s.preempted.queue.pushBack e)] at hpush
        rw [show (s.preempted.queue.pushBack e).1 = .ok () from hq] at hpush
        exact hpush
      · rw [ha, hacc, List.append_assoc]

/-- In `poll_event`, the reader of the queue makes its next access; elsewhere the queue
    is left. -/
theorem preempted_run (s : MainLoop) :
    s.run.preempted = s.preempted ∨ s.run.preempted = s.preempted.read := by
  cases hp : s.phase with
  | polling r =>
    right
    rw [run, preempted, preempted, Queue.Preempted.read, hp]
    cases r with
    | hasEnd e =>
      dsimp only [Phase.reader]
      split_ifs <;> rfl
    | hasElement i e =>
      have happ : s.handled ++ [] ++ [e] = s.handled ++ [e] := by rw [List.append_nil]
      dsimp only [Phase.reader, Phase.inHand]
      rw [happ]
    | _ => rfl
  | handling e =>
    left
    rw [run, preempted, preempted, hp]
    exact congrArg (Queue.Preempted.mk _ _ _) (List.append_nil _)
  | halting =>
    left
    rw [run, preempted, preempted, hp]
    rfl
  | halted => left; rw [run, hp]

theorem screen_run (h : s.screen = s.handled.foldl handleEvent s₀) :
    s.run.screen = s.run.handled.foldl handleEvent s₀ := by
  cases hp : s.phase with
  | polling r =>
    cases r with
    | hasEnd e =>
      rw [run, hp]
      dsimp only
      split_ifs <;> exact h
    | _ => rw [run, hp]; exact h
  | handling e =>
    rw [run, hp]
    dsimp only
    rw [List.foldl_append, ← h]
    rfl
  | _ => rw [run, hp]; exact h

theorem Inv.run (h : Inv s₀ s l) : ∃ l', Inv s₀ s.run l' ∧ l'.length ≤ l.length := by
  have hs := screen_run h.screen_eq
  rcases preempted_run s with hp | hp
  · exact ⟨l, ⟨by rw [hp]; exact h.preempted_inv, hs⟩, le_rfl⟩
  · rcases (Queue.Preempted.read_inv h.preempted_inv).2 with ⟨h', -⟩ | ⟨x, l', rfl, h', -⟩
    · exact ⟨l, ⟨by rw [hp]; exact h', hs⟩, le_rfl⟩
    · exact ⟨l', ⟨by rw [hp]; exact h', hs⟩, Nat.le_succ _⟩

theorem inv_step (h : Inv s₀ s l) (a : Act) : ∃ l', Inv s₀ (step s a) l' := by
  cases a with
  | arrive bytes => exact ⟨l, h.preempted_inv, h.screen_eq⟩
  | keyboardInterrupt =>
    obtain ⟨l', h', -⟩ := keyboardInterrupt_spec h
    exact ⟨l', h'⟩
  | interrupt => exact ⟨l, h.wake⟩
  | run =>
    obtain ⟨l', h', -⟩ := h.run
    exact ⟨l', h'⟩

theorem inv_after (h : Inv s₀ s l) (acts : List Act) : ∃ l', Inv s₀ (s.after acts) l' := by
  induction acts generalizing s l with
  | nil => exact ⟨l, h⟩
  | cons a acts ih =>
    obtain ⟨l', h'⟩ := inv_step h a
    exact ih h'

/-! ## The main loop on its own -/

/-- The main loop accepts and refuses nothing, and reads no byte. -/
theorem run_frame (s : MainLoop) : s.run.accepted = s.accepted ∧ s.run.refused = s.refused ∧
    s.run.keyboard.waiting = s.keyboard.waiting := by
  cases hp : s.phase with
  | polling r =>
    cases r with
    | hasEnd e =>
      rw [run, hp]
      dsimp only
      split_ifs <;> exact ⟨rfl, rfl, rfl⟩
    | _ => rw [run, hp]; exact ⟨rfl, rfl, rfl⟩
  | _ => rw [run, hp]; exact ⟨rfl, rfl, rfl⟩

theorem iterate_run_frame (s : MainLoop) (n : ℕ) : (run^[n] s).accepted = s.accepted ∧
    (run^[n] s).refused = s.refused ∧ (run^[n] s).keyboard.waiting = s.keyboard.waiting := by
  induction n generalizing s with
  | zero => exact ⟨rfl, rfl, rfl⟩
  | succ n ih =>
    obtain ⟨h₁, h₂, h₃⟩ := ih s.run
    obtain ⟨h₄, h₅, h₆⟩ := run_frame s
    exact ⟨h₁.trans h₄, h₂.trans h₅, h₃.trans h₆⟩

theorem Inv.iterate_run (h : Inv s₀ s l) (n : ℕ) :
    ∃ l', Inv s₀ (MainLoop.run^[n] s) l' ∧ l'.length ≤ l.length := by
  induction n generalizing s l with
  | zero => exact ⟨l, h, le_rfl⟩
  | succ n ih =>
    obtain ⟨l₁, h₁, hl₁⟩ := h.run
    obtain ⟨l₂, h₂, hl₂⟩ := ih h₁
    exact ⟨l₂, h₂, hl₂.trans hl₁⟩

/-- In 5 accesses, the next event is handled. -/
theorem iterate_run_of_cons (h : Inv s₀ s (e :: l)) (hp : s.phase = .polling .idle) :
    (run^[5] s).phase = .polling .idle ∧ Inv s₀ (run^[5] s) l := by
  have hrep : s.keyboard.eventQueue.Represents (e :: l) := h.preempted_inv.represents
  have hne := (hrep.startIndex_ne (List.cons_ne_nil e l)).symm
  have h₅ : run^[5] s = { s with
      keyboard := { s.keyboard with
        eventQueue := { s.keyboard.eventQueue with
          startIndex := Queue.nextPosition Keyboard.keyboardEventQueueSize
            s.keyboard.eventQueue.startIndex } }
      phase := .polling .idle
      screen := handleEvent s.screen e
      handled := s.handled ++ [e] } := by
    simp only [Function.iterate_succ_apply, Function.iterate_zero_apply, run, hp, if_neg hne,
      hrep.data_startIndex]
  rw [h₅]
  refine ⟨rfl, ⟨hrep.tail, ?_, trivial⟩, ?_⟩
  · have hacc : s.accepted = s.handled ++ s.phase.inHand ++ (e :: l) :=
      h.preempted_inv.accepted_eq
    rw [hp] at hacc
    simpa [preempted, Phase.inHand] using hacc
  · dsimp only
    rw [List.foldl_append, h.screen_eq]
    rfl

/-- Without an event, the kernel halts in 3 accesses. -/
theorem iterate_run_of_nil (h : Inv s₀ s []) (hp : s.phase = .polling .idle) :
    run^[3] s = { s with phase := .halted, halts := s.halts + 1 } := by
  have hrep : s.keyboard.eventQueue.Represents [] := h.preempted_inv.represents
  have heq := of_decide_eq_true (hrep.isEmpty_iff.2 rfl)
  simp only [Function.iterate_succ_apply, Function.iterate_zero_apply, run, hp, heq, if_true]

/-- From the start of a poll on, all that is accepted is handled before the kernel halts,
    if it is left alone. By induction on the events in the queue. -/
theorem exists_settled (h : Inv s₀ s l) (hp : s.phase = .polling .idle) :
    ∃ n ≤ 5 * l.length + 3, (run^[n] s).phase = .halted ∧ (run^[n] s).handled = s.accepted ∧
      Inv s₀ (run^[n] s) [] := by
  induction l generalizing s with
  | nil =>
    refine ⟨3, le_rfl, ?_⟩
    have hacc : s.accepted = s.handled ++ s.phase.inHand ++ [] := h.preempted_inv.accepted_eq
    rw [hp] at hacc
    obtain ⟨hrep, hacc', -⟩ := h.preempted_inv
    rw [iterate_run_of_nil h hp]
    refine ⟨rfl, by simpa [Phase.inHand] using hacc.symm, ⟨hrep, ?_, trivial⟩, h.screen_eq⟩
    simpa [preempted, Phase.inHand] using hacc
  | cons e l ih =>
    obtain ⟨hp', h'⟩ := iterate_run_of_cons h hp
    obtain ⟨n, hn, h₁, h₂, h₃⟩ := ih h' hp'
    refine ⟨n + 5, by rw [List.length_cons]; omega, ?_⟩
    rw [Function.iterate_add_apply]
    exact ⟨h₁, h₂.trans (iterate_run_frame s 5).1, h₃⟩

/-- From anywhere, the kernel soon begins a poll or halts. -/
theorem exists_idle_or_halted (s : MainLoop) :
    ∃ n ≤ 4, (run^[n] s).phase = .polling .idle ∨ (run^[n] s).phase = .halted := by
  cases hp : s.phase with
  | polling r =>
    cases r with
    | idle => exact ⟨0, by decide, .inl hp⟩
    | hasEnd e =>
      by_cases he : e = s.keyboard.eventQueue.startIndex
      · refine ⟨2, by decide, .inr ?_⟩
        simp only [Function.iterate_succ_apply, Function.iterate_zero_apply, run, hp, if_pos he]
      · refine ⟨4, le_rfl, .inl ?_⟩
        simp only [Function.iterate_succ_apply, Function.iterate_zero_apply, run, hp, if_neg he]
    | hasStart i =>
      refine ⟨3, by decide, .inl ?_⟩
      simp only [Function.iterate_succ_apply, Function.iterate_zero_apply, run, hp]
    | hasElement i e =>
      refine ⟨2, by decide, .inl ?_⟩
      simp only [Function.iterate_succ_apply, Function.iterate_zero_apply, run, hp]
  | handling e =>
    refine ⟨1, by decide, .inl ?_⟩
    simp only [Function.iterate_succ_apply, Function.iterate_zero_apply, run, hp]
  | halting =>
    refine ⟨1, by decide, .inr ?_⟩
    simp only [Function.iterate_succ_apply, Function.iterate_zero_apply, run, hp]
  | halted => exact ⟨0, by decide, .inr hp⟩

/-- Left alone, the kernel halts. -/
theorem exists_halted (h : Inv s₀ s l) :
    ∃ n ≤ 5 * l.length + 7, (run^[n] s).phase = .halted := by
  obtain ⟨n, hn, hp | hp⟩ := exists_idle_or_halted s
  · obtain ⟨l', h', hl'⟩ := h.iterate_run n
    obtain ⟨m, hm, hm', -⟩ := exists_settled h' hp
    refine ⟨m + n, by omega, ?_⟩
    rw [Function.iterate_add_apply]
    exact hm'
  · exact ⟨n, by omega, hp⟩

/-- What the row `y` shows of the keyboard, from the screen `s₀` on. -/
structure Shows (s₀ : Screen) (y : ℕ) (s : MainLoop) : Prop where
  /-- The line is that of the events handled. -/
  edited : Edited s₀ y (s.handled.foldl edit []) s.screen
  /-- These are the first of the accepted ones, but for at most 33. -/
  accepted_eq : ∃ l, s.accepted = s.handled ++ l ∧ l.length ≤ 33
  /-- An event is only refused behind 32 others that are not handled. -/
  refused : s.keyboardInterrupt.refused ≠ s.refused →
    s.handled.length + 32 ≤ s.accepted.length
  /-- If it is left alone, the kernel halts; and if it is then interrupted, it halts again
      with all the accepted events handled. -/
  settled : ∃ n ≤ 167, (run^[n] s).phase = .halted ∧ ∃ m ≤ 163,
    (run^[m] (run^[n] s).wake).phase = .halted ∧
    (run^[m] (run^[n] s).wake).handled = s.accepted ∧
    Edited s₀ y (s.accepted.foldl edit []) (run^[m] (run^[n] s).wake).screen

theorem Inv.edited (h : Inv s₀ s l) {y : ℕ} (hy : y < ttyHeight) (hc : s₀.cursor = ⟨0, y⟩) :
    Edited s₀ y (s.handled.foldl edit []) s.screen := by
  rw [h.screen_eq]
  exact (Edited.start hc).foldl hy s.handled

theorem Inv.shows (h : Inv s₀ s l) {y : ℕ} (hy : y < ttyHeight) (hc : s₀.cursor = ⟨0, y⟩) :
    Shows s₀ y s where
  edited := h.edited hy hc
  accepted_eq := by
    refine ⟨s.phase.inHand ++ l, ?_, ?_⟩
    · rw [← List.append_assoc]
      exact h.preempted_inv.accepted_eq
    · have hle : l.length ≤ 32 := h.preempted_inv.represents.length_le
      have hone : s.phase.inHand.length ≤ 1 := by cases s.phase <;> simp [Phase.inHand]
      rw [List.length_append]
      omega
  refused hr := by
    have hacc : s.accepted = s.handled ++ s.phase.inHand ++ l := h.preempted_inv.accepted_eq
    obtain ⟨l', -, -, ⟨-, hr', hfull⟩ | ⟨-, hr'⟩⟩ := keyboardInterrupt_spec h
    · rw [hacc, List.length_append, List.length_append]
      cases hn : Keyboard.nextEvent s.keyboard.waiting with
      | none =>
        rw [hn] at hr'
        exact absurd (hr'.trans (List.append_nil _)) hr
      | some e =>
        have hl : l.length = 32 := hfull (by rw [hn]; rfl)
        omega
    · exact absurd hr' hr
  settled := by
    have hle : l.length ≤ 32 := h.preempted_inv.represents.length_le
    obtain ⟨n, hn, hhalted⟩ := exists_halted h
    obtain ⟨l₁, h₁, hl₁⟩ := h.iterate_run n
    have hidle : (MainLoop.run^[n] s).wake.phase = .polling .idle := by
      rw [MainLoop.wake, hhalted]
    obtain ⟨m, hm, hm', hall, h₂⟩ := exists_settled h₁.wake hidle
    have hacc : (MainLoop.run^[n] s).wake.accepted = s.accepted :=
      (fields_wake _).2.2.1.trans (iterate_run_frame s n).1
    rw [hacc] at hall
    refine ⟨n, by omega, hhalted, m, by omega, hm', hall, ?_⟩
    rw [← hall]
    exact h₂.edited hy hc

/-- Whatever bytes arrive, and whenever the kernel is interrupted. -/
theorem shows_after {y : ℕ} (hy : y < ttyHeight) (hc : s₀.cursor = ⟨0, y⟩)
    (data : ℕ → KeyboardEvent) (w : List (BitVec 8)) (acts : List Act) :
    Shows s₀ y ((start (.start data w) s₀).after acts) := by
  obtain ⟨l, h⟩ := inv_after (inv_start data w s₀) acts
  exact h.shows hy hc

/-- The key A is pressed, and the keyboard interrupts when the queue has been found empty. -/
def sampleTyping : List Act := [.arrive [0x1C], .run, .keyboardInterrupt, .run]

theorem shows_after_sample : Shows lastRowScreen 24
    ((start .noneWaiting lastRowScreen).after sampleTyping) :=
  shows_after (show 24 < 25 by decide) rfl (fun _ => ⟨.unknown, .pressed⟩) [] sampleTyping

/-! ## No event waits for two halts -/

theorem note_frame (s : MainLoop) (e : KeyboardEvent) : ∃ acc ref,
    s.note e = { s with accepted := acc, refused := ref } ∧ s.accepted <+: acc := by
  rw [note]
  split
  · exact ⟨_, _, rfl, List.prefix_append _ _⟩
  · exact ⟨_, _, rfl, List.prefix_refl _⟩

theorem startIndex_pushBack (q : Queue KeyboardEvent Keyboard.keyboardEventQueueSize)
    (e : KeyboardEvent) : (q.pushBack e).2.startIndex = q.startIndex := by
  rw [Queue.pushBack]
  split_ifs <;> rfl

/-- An interrupt of the keyboard leaves the start of the queue. -/
theorem keyboardInterrupt_frame (s : MainLoop) : ∃ k acc ref,
    s.keyboardInterrupt = { s with keyboard := k, accepted := acc, refused := ref }.wake ∧
      k.eventQueue.startIndex = s.keyboard.eventQueue.startIndex ∧ s.accepted <+: acc := by
  cases hn : Keyboard.nextEvent s.keyboard.waiting with
  | none => exact ⟨_, _, _, keyboardInterrupt_of_none hn, rfl, List.prefix_refl _⟩
  | some e =>
    obtain ⟨acc, ref, hnote, hacc⟩ := note_frame s e
    rw [keyboardInterrupt_of_some hn, hnote]
    exact ⟨_, acc, ref, rfl, startIndex_pushBack _ e, hacc⟩

/-- A step other than of the main loop leaves what has been handled, and the start of the
    queue; it may wake the kernel. -/
theorem step_of_ne_run (s : MainLoop) (ha : a ≠ .run) :
    s.accepted <+: (step s a).accepted ∧ (step s a).handled = s.handled ∧
      (step s a).halts = s.halts ∧
      (step s a).keyboard.eventQueue.startIndex = s.keyboard.eventQueue.startIndex ∧
      ((step s a).phase = s.phase ∨ (step s a).phase = .polling .idle) := by
  have hwake : ∀ t : MainLoop, t.wake.phase = t.phase ∨ t.wake.phase = .polling .idle := by
    intro t
    rcases wake_eq t with ht | ⟨-, ht⟩
    · exact .inl (by rw [ht])
    · exact .inr (by rw [ht])
  cases a with
  | arrive bytes => exact ⟨List.prefix_refl _, rfl, rfl, rfl, .inl rfl⟩
  | interrupt =>
    obtain ⟨hk, -, ha, -, hh, hn⟩ := fields_wake s
    rw [step, hk, ha]
    exact ⟨List.prefix_refl _, hh, hn, rfl, hwake s⟩
  | keyboardInterrupt =>
    obtain ⟨k, acc, ref, heq, hstart, hacc⟩ := keyboardInterrupt_frame s
    obtain ⟨hk, -, ha, -, hh, hn⟩ :=
      fields_wake { s with keyboard := k, accepted := acc, refused := ref }
    rw [step, heq, hk, ha]
    exact ⟨hacc, hh, hn, hstart, hwake _⟩
  | run => exact absurd rfl ha

/-- `n` events were accepted when the kernel had halted `m` times. -/
structure Awaited (n m : ℕ) (s : MainLoop) : Prop where
  accepted : n ≤ s.accepted.length
  /-- The kernel has polled anew since it halted next. -/
  found : m < s.halts →
    s.phase.Found s.keyboard.eventQueue.startIndex n s.handled.length
  handled : m + 1 < s.halts → n ≤ s.handled.length

theorem awaited_step {n m : ℕ} (h : Inv s₀ s l) (hn : Awaited n m s) (a : Act) :
    Awaited n m (step s a) := by
  by_cases ha : a = .run
  swap
  · obtain ⟨h₁, h₂, h₃, h₄, h₅⟩ := step_of_ne_run s ha
    refine ⟨hn.accepted.trans h₁.length_le, fun hm => ?_, fun hm => ?_⟩
    · rw [h₂, h₄]
      rw [h₃] at hm
      rcases h₅ with h₅ | h₅
      · rw [h₅]
        exact hn.found hm
      · rw [h₅]
        trivial
    · rw [h₂]
      rw [h₃] at hm
      exact hn.handled hm
  subst ha
  have hfound := hn.found
  have hacc := (run_frame s).1
  rw [step]
  cases hp : s.phase with
  | polling r =>
    rw [hp] at hfound
    cases r with
    | idle =>
      rw [run, hp]
      refine ⟨hn.accepted, fun _ he => ?_, hn.handled⟩
      -- The queue is empty now, hence all that is accepted is handled.
      have hrep : s.keyboard.eventQueue.Represents l := h.preempted_inv.represents
      have hl : l = [] := by
        by_contra hl
        exact hrep.startIndex_ne hl he.symm
      have hacc : s.accepted = s.handled ++ s.phase.inHand ++ l := h.preempted_inv.accepted_eq
      rw [hp, hl, List.append_nil] at hacc
      have hle := hn.accepted
      rwa [hacc, show s.handled ++ (Phase.polling .idle).inHand = s.handled from
        List.append_nil _] at hle
    | hasEnd e =>
      rw [run, hp]
      dsimp only
      by_cases he : e = s.keyboard.eventQueue.startIndex
      · rw [if_pos he]
        exact ⟨hn.accepted, fun hm => hfound hm he, hn.handled⟩
      · rw [if_neg he]
        exact ⟨hn.accepted, fun _ => trivial, hn.handled⟩
    | hasStart i =>
      rw [run, hp]
      exact ⟨hn.accepted, fun _ => trivial, hn.handled⟩
    | hasElement i e =>
      rw [run, hp]
      exact ⟨hn.accepted, fun _ => trivial, hn.handled⟩
  | handling e =>
    rw [run, hp]
    refine ⟨hn.accepted, fun _ => trivial, fun hm => (hn.handled hm).trans ?_⟩
    rw [List.length_append]
    exact Nat.le_add_right _ _
  | halting =>
    rw [hp] at hfound
    rw [run, hp]
    exact ⟨hn.accepted, fun _ => trivial, fun hm => hfound (Nat.lt_of_succ_lt_succ hm)⟩
  | halted =>
    rw [run, hp]
    exact ⟨hn.accepted, fun _ => by rw [hp]; trivial, hn.handled⟩

theorem awaited_after {n m : ℕ} (h : Inv s₀ s l) (hn : Awaited n m s) (acts : List Act) :
    Awaited n m (s.after acts) := by
  induction acts generalizing s l with
  | nil => exact hn
  | cons a acts ih =>
    obtain ⟨l', h'⟩ := inv_step h a
    exact ih h' (awaited_step h hn a)

theorem accepted_prefix_step (s : MainLoop) (a : Act) : s.accepted <+: (step s a).accepted := by
  by_cases ha : a = .run
  · rw [ha, step, (run_frame s).1]
  · exact (step_of_ne_run s ha).1

theorem accepted_prefix_after (s : MainLoop) (acts : List Act) :
    s.accepted <+: (s.after acts).accepted := by
  induction acts generalizing s with
  | nil => exact List.prefix_refl _
  | cons a acts ih => exact (accepted_prefix_step s a).trans (ih _)

/-- An event that is accepted is handled before the kernel halts for the second time: the
    first halt may have been decided on before. -/
theorem handled_of_halts (s₀ : Screen) (data : ℕ → KeyboardEvent) (w : List (BitVec 8))
    (acts acts' : List Act) :
    let s := (start (.start data w) s₀).after acts
    s.halts + 2 ≤ (s.after acts').halts → s.accepted <+: (s.after acts').handled := by
  intro s hm
  obtain ⟨l, h⟩ := inv_after (inv_start data w s₀) acts
  have hn : Awaited s.accepted.length s.halts s :=
    ⟨le_rfl, fun hlt => absurd hlt (lt_irrefl _), fun hlt => by omega⟩
  have hle := (awaited_after h hn acts').handled hm
  obtain ⟨l', h'⟩ := inv_after h acts'
  refine List.prefix_of_prefix_length_le (accepted_prefix_after s acts') ?_ hle
  have hacc : (s.after acts').accepted = _ := h'.preempted_inv.accepted_eq
  rw [hacc]
  exact (List.prefix_append _ _).trans (List.prefix_append _ _)

/-- One halt is not enough: the event accepted is not handled in the next one. -/
example :
    let s := (start .noneWaiting lastRowScreen).after sampleTyping
    (s.after [.run]).halts = s.halts + 1 ∧ ¬s.accepted <+: (s.after [.run]).handled := by
  decide

theorem handled_of_halts_sample :
    let s := (start .noneWaiting lastRowScreen).after sampleTyping
    s.accepted <+: (s.after (.run :: .interrupt :: List.replicate 8 .run)).handled :=
  handled_of_halts lastRowScreen (fun _ => ⟨.unknown, .pressed⟩) [] sampleTyping
    (.run :: .interrupt :: List.replicate 8 .run) (by decide)

/-! ## Typing a line -/

/-- Whole codes are waiting. If no event has been refused, the events `es` of the codes that
    have arrived are the accepted ones and those of the codes waiting. -/
structure Typed (es : List KeyboardEvent) (s : MainLoop) : Prop where
  codes : ∃ cs : List Keyboard.Code, s.keyboard.waiting = cs.flatMap Keyboard.Code.bytes
  typed_eq : s.refused = [] → es = s.accepted ++ Keyboard.decode s.keyboard.waiting

theorem Typed.wake {es : List KeyboardEvent} (h : Typed es s) : Typed es s.wake := by
  obtain ⟨hk, -, ha, hr, -, -⟩ := fields_wake s
  refine ⟨by rw [hk]; exact h.codes, ?_⟩
  rw [hk, ha, hr]
  exact h.typed_eq

/-- An interrupt of the keyboard takes a whole code, if there is one. -/
theorem Typed.keyboardInterrupt {es : List KeyboardEvent} (hi : Inv s₀ s l) (h : Typed es s) :
    Typed es s.keyboardInterrupt := by
  obtain ⟨cs, hcs⟩ := h.codes
  have heq := h.typed_eq
  cases cs with
  | nil =>
    have hn : Keyboard.nextEvent s.keyboard.waiting = none := by rw [hcs]; rfl
    have hw : (Keyboard.parseScancode s.keyboard.waiting).2 = s.keyboard.waiting := by
      rw [hcs]
      rfl
    rw [keyboardInterrupt_of_none hn, hw]
    exact h.wake
  | cons c cs =>
    rw [List.flatMap_cons] at hcs
    have hn : Keyboard.nextEvent s.keyboard.waiting = some c.keyEvent := by
      rw [hcs, Keyboard.nextEvent_bytes]
    have hw : (Keyboard.parseScancode s.keyboard.waiting).2 =
        cs.flatMap Keyboard.Code.bytes := by
      rw [hcs, Keyboard.parseScancode_bytes]
    rw [hcs, Keyboard.decode_bytes_append] at heq
    rw [keyboardInterrupt_of_some hn, hw]
    refine Typed.wake ⟨⟨cs, rfl⟩, fun hr => ?_⟩
    by_cases hl : l.length = Keyboard.keyboardEventQueueSize
    · rw [note_of_full hi hl] at hr
      exact absurd hr (by simp)
    · rw [note_of_lt hi hl] at hr ⊢
      exact (heq hr).trans (List.append_assoc _ [c.keyEvent] _).symm

theorem Typed.step {es : List KeyboardEvent} (hi : Inv s₀ s l) (h : Typed es s)
    (hw : ∃ cs : List Keyboard.Code, a.bytes = cs.flatMap Keyboard.Code.bytes) :
    Typed (es ++ Keyboard.decode a.bytes) (step s a) := by
  cases a with
  | arrive bytes =>
    obtain ⟨cs, hcs⟩ := h.codes
    obtain ⟨cs', hcs'⟩ := hw
    have hall : s.keyboard.waiting ++ bytes = (cs ++ cs').flatMap Keyboard.Code.bytes := by
      rw [List.flatMap_append, hcs, ← hcs']
      rfl
    refine ⟨⟨cs ++ cs', hall⟩, fun hr => ?_⟩
    have hdec : Keyboard.decode (s.keyboard.waiting ++ bytes) =
        Keyboard.decode s.keyboard.waiting ++ Keyboard.decode bytes := by
      rw [hcs, Keyboard.decode_flatMap_bytes_append, Keyboard.decode_flatMap_bytes]
    exact (congrArg (· ++ Keyboard.decode bytes) (h.typed_eq hr)).trans
      ((List.append_assoc _ _ _).trans (congrArg (s.accepted ++ ·) hdec.symm))
  | keyboardInterrupt =>
    rw [Act.bytes, Keyboard.decode_nil, List.append_nil]
    exact h.keyboardInterrupt hi
  | interrupt =>
    rw [Act.bytes, Keyboard.decode_nil, List.append_nil]
    exact h.wake
  | run =>
    rw [Act.bytes, Keyboard.decode_nil, List.append_nil]
    obtain ⟨ha, hr, hk⟩ := run_frame s
    refine ⟨by rw [MainLoop.step, hk]; exact h.codes, ?_⟩
    rw [MainLoop.step, hk, ha, hr]
    exact h.typed_eq

theorem typed_after {es : List KeyboardEvent} (hi : Inv s₀ s l) (h : Typed es s)
    {acts : List Act}
    (hw : ∀ a ∈ acts, ∃ cs : List Keyboard.Code, a.bytes = cs.flatMap Keyboard.Code.bytes) :
    Typed (es ++ acts.flatMap fun a => Keyboard.decode a.bytes) (s.after acts) := by
  induction acts generalizing s l es with
  | nil => rw [List.flatMap_nil, List.append_nil]; exact h
  | cons a acts ih =>
    rw [List.forall_mem_cons] at hw
    obtain ⟨l', hi'⟩ := inv_step hi a
    rw [List.flatMap_cons, ← List.append_assoc]
    exact ih hi' (h.step hi hw.1) hw.2

/-- Whole codes arrive, and are read without an event being refused. When the kernel has
    halted behind the next interrupt, it has handled the events that were typed, and the row
    holds the line. -/
theorem typed_line {y : ℕ} (hy : y < ttyHeight) (hc : s₀.cursor = ⟨0, y⟩)
    (data : ℕ → KeyboardEvent) {acts : List Act}
    (hw : ∀ a ∈ acts, ∃ cs : List Keyboard.Code, a.bytes = cs.flatMap Keyboard.Code.bytes) :
    let s := (start (.start data []) s₀).after acts
    let typed := acts.flatMap fun a => Keyboard.decode a.bytes
    s.refused = [] → s.keyboard.waiting = [] → s.accepted = typed ∧
      ∃ n ≤ 167, (run^[n] s).phase = .halted ∧ ∃ m ≤ 163,
        (run^[m] (run^[n] s).wake).phase = .halted ∧
        (run^[m] (run^[n] s).wake).handled = typed ∧
        Edited s₀ y (typed.foldl edit []) (run^[m] (run^[n] s).wake).screen := by
  intro s typed hr hwait
  have hi := inv_start data [] s₀
  have ht : Typed typed s := typed_after hi ⟨⟨[], rfl⟩, fun _ => rfl⟩ hw
  have hacc : s.accepted = typed := by
    rw [ht.typed_eq hr, hwait, Keyboard.decode_nil, List.append_nil]
  obtain ⟨l, hi'⟩ := inv_after hi acts
  obtain ⟨n, hn, h₁, m, hm, h₂, hall, h₃⟩ := (hi'.shows hy hc).settled
  rw [hacc] at hall h₃
  exact ⟨hacc, n, hn, h₁, m, hm, h₂, hall, h₃⟩

theorem typed_line_sample :
    let s := (start .noneWaiting lastRowScreen).after sampleTyping
    s.accepted = [⟨.keyA, .pressed⟩] ∧
      ∃ n ≤ 167, (run^[n] s).phase = .halted ∧ ∃ m ≤ 163,
        (run^[m] (run^[n] s).wake).phase = .halted ∧
        (run^[m] (run^[n] s).wake).handled = [⟨.keyA, .pressed⟩] ∧
        Edited lastRowScreen 24 [0x61] (run^[m] (run^[n] s).wake).screen := by
  have hw : ∀ a ∈ sampleTyping,
      ∃ cs : List Keyboard.Code, a.bytes = cs.flatMap Keyboard.Code.bytes := by
    rw [sampleTyping, List.forall_mem_cons]
    refine ⟨⟨[⟨false, 0x1C, .pressed, by decide⟩], rfl⟩, fun a ha => ⟨[], ?_⟩⟩
    rcases List.mem_cons.1 ha with rfl | ha
    · rfl
    · rcases List.mem_cons.1 ha with rfl | ha
      · rfl
      · rw [List.mem_singleton.1 ha]
        rfl
  exact typed_line (show 24 < 25 by decide) rfl (fun _ => ⟨.unknown, .pressed⟩) hw rfl rfl

end MainLoop

end KessokuOS
