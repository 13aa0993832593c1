import KessokuOS.Data.Queue

/-!
# The queue between an interrupt and the main loop

The main loop takes elements out of a queue, and may be interrupted between any two
of its accesses to it: the reads of the two indices and of the slot, and the write of
the start index. An interrupt puts elements in at once. Nothing is locked.

At any time the accepted elements are the returned ones, followed by those in the
queue (`Inv`). The reader only writes the start index and the interrupt only the end
index, hence what the reader has found out about the queue stays true:

* `step_inv`: a step of either side keeps the invariant;
* `fifo_run`: no element is lost, repeated or overtaken, whatever the order of the
  steps.
-/

namespace KessokuOS

namespace Queue

variable {T : Type*} {SIZE : ℕ}

/-- Where the reader is in `pop_front`, with what it has read. -/
inductive Reader (T : Type*)
  | idle
  | hasEnd (endIndex : ℕ)
  /-- The queue was not empty. -/
  | hasStart (startIndex : ℕ)
  | hasElement (startIndex : ℕ) (element : T)

/-- What the reader knows about a queue with the elements `l`. -/
def Reader.Knows (q : Queue T SIZE) (l : List T) : Reader T → Prop
  | .idle => True
  | .hasEnd endIndex => endIndex ≠ q.startIndex → l ≠ []
  | .hasStart startIndex => startIndex = q.startIndex ∧ l ≠ []
  | .hasElement startIndex element => startIndex = q.startIndex ∧ l.head? = some element

/-- The number of accesses to go until the queue with this start index, if it has
    elements, has returned one. -/
def Reader.rank (start : ℕ) : Reader T → ℕ
  | .idle => 3
  | .hasEnd endIndex => if endIndex = start then 4 else 2
  | .hasStart _ => 1
  | .hasElement _ _ => 0

theorem Reader.rank_le (start : ℕ) (r : Reader T) : r.rank start ≤ 4 := by
  cases r with
  | hasEnd e =>
    rw [rank]
    split_ifs <;> decide
  | _ => exact Nat.le_of_ble_eq_true rfl

/-- The queue with its reader, the elements that have been accepted and those that
    have been returned. -/
structure Preempted (T : Type*) (SIZE : ℕ) where
  queue : Queue T SIZE
  reader : Reader T
  accepted : List T
  returned : List T

/-- A step of one of the sides. -/
inductive Side (T : Type*)
  /-- The interrupt puts an element in. -/
  | push (element : T)
  /-- The reader makes its next access. -/
  | read

namespace Preempted

def new (data : ℕ → T) : Preempted T SIZE := ⟨Queue.new data, .idle, [], []⟩

/-- The next access of the reader. Behind the last one the element is returned, and
    the next call begins. -/
def read (s : Preempted T SIZE) : Preempted T SIZE :=
  match s.reader with
  | .idle => { s with reader := .hasEnd s.queue.endIndex }
  | .hasEnd endIndex =>
    if endIndex = s.queue.startIndex then { s with reader := .idle }
    else { s with reader := .hasStart s.queue.startIndex }
  | .hasStart startIndex => { s with reader := .hasElement startIndex (s.queue.data startIndex) }
  | .hasElement startIndex element =>
    { s with
      queue := { s.queue with startIndex := nextPosition SIZE startIndex }
      reader := .idle
      returned := s.returned ++ [element] }

def push (s : Preempted T SIZE) (element : T) : Preempted T SIZE :=
  match s.queue.pushBack element with
  | (.ok (), queue) => { s with queue := queue, accepted := s.accepted ++ [element] }
  | (.error _, queue) => { s with queue := queue }

def step (s : Preempted T SIZE) : Side T → Preempted T SIZE
  | .push element => s.push element
  | .read => s.read

/-- The state after some steps of the two sides. -/
def run (s : Preempted T SIZE) (sides : List (Side T)) : Preempted T SIZE := sides.foldl step s

/-! ## The invariant -/

/-- The accepted elements are the returned ones, and the elements `l` of the queue. -/
structure Inv (s : Preempted T SIZE) (l : List T) : Prop where
  represents : Represents s.queue l
  accepted_eq : s.accepted = s.returned ++ l
  knows : s.reader.Knows s.queue l

variable {s : Preempted T SIZE} {l : List T}

theorem inv_new (data : ℕ → T) : Inv (new data : Preempted T SIZE) [] :=
  ⟨.new data, rfl, trivial⟩

/-- A refused element leaves the state; the queue is full. -/
theorem push_of_full (h : Inv s l) (x : T) (hl : l.length = SIZE) : s.push x = s := by
  rw [push, h.represents.pushBack_of_full x hl]

/-- The slot of the reader is not the one that is written. -/
theorem data_push (h : Inv s l) (x : T) (hl : l ≠ []) :
    (s.push x).queue.data s.queue.startIndex = s.queue.data s.queue.startIndex := by
  by_cases hf : l.length = SIZE
  · rw [push_of_full h x hf]
  · have hfull : s.queue.isFull ≠ true := fun hf' => hf (h.represents.isFull_iff.1 hf')
    rw [push, pushBack, if_neg hfull]
    exact Function.update_of_ne (h.represents.startIndex_ne hl) _ _

/-- An accepted element is the last one in the queue, and what the reader knows stays
    true. -/
theorem push_of_lt (h : Inv s l) (x : T) (hl : l.length ≠ SIZE) :
    Inv (s.push x) (l ++ [x]) ∧ (s.push x).accepted = s.accepted ++ [x] ∧
      (s.push x).returned = s.returned := by
  obtain ⟨hr, hq⟩ := h.represents.pushBack_of_lt x hl
  have hstart : (s.queue.pushBack x).2.startIndex = s.queue.startIndex := by
    rw [pushBack, if_neg fun hf => hl (h.represents.isFull_iff.1 hf)]
  obtain ⟨q, hpush⟩ : ∃ q, s.queue.pushBack x = (.ok (), q) := ⟨_, Prod.ext hr rfl⟩
  rw [hpush] at hq hstart
  rw [push, hpush]
  refine ⟨⟨hq, ?_, ?_⟩, rfl, rfl⟩
  · rw [h.accepted_eq, List.append_assoc]
  · have hk := h.knows
    -- A push leaves the start of the queue and its oldest element, and it does not
    -- empty the queue: what the reader has read so far stays true.
    have hne : l ++ [x] ≠ [] := List.append_ne_nil_of_right_ne_nil l (List.cons_ne_nil x [])
    change Reader.Knows q (l ++ [x]) s.reader
    cases hreader : s.reader with
    | idle => trivial
    | hasEnd e => exact fun _ => hne
    | hasStart st =>
      rw [hreader] at hk
      exact ⟨hk.1.trans hstart.symm, hne⟩
    | hasElement st y =>
      rw [hreader] at hk
      exact ⟨hk.1.trans hstart.symm, by rw [List.head?_append, hk.2]; rfl⟩

/-- An access of the reader: the last one returns the oldest element, the others bring
    it nearer to that. -/
theorem read_inv (h : Inv s l) :
    s.read.accepted = s.accepted ∧
      ((Inv s.read l ∧ s.read.returned = s.returned ∧ (l ≠ [] →
          s.read.reader.rank s.read.queue.startIndex < s.reader.rank s.queue.startIndex)) ∨
        ∃ x l', l = x :: l' ∧ Inv s.read l' ∧ s.read.returned = s.returned ++ [x]) := by
  have hk := h.knows
  cases hreader : s.reader with
  | idle =>
    have hread : s.read = { s with reader := .hasEnd s.queue.endIndex } := by rw [read, hreader]
    rw [hread]
    refine ⟨rfl, .inl ⟨⟨h.represents, h.accepted_eq, fun hne hl => hne ?_⟩, rfl, fun hl => ?_⟩⟩
    · -- If the queue is empty now, its end is its start.
      subst hl
      exact of_decide_eq_true (h.represents.isEmpty_iff.2 rfl)
    · have hrank : Reader.rank s.queue.startIndex (.hasEnd s.queue.endIndex : Reader T) = 2 :=
        if_neg (h.represents.startIndex_ne hl).symm
      exact hrank.trans_lt (Nat.lt_succ_self 2)
  -- The end may be out of date by now. If it is not the start, the queue had elements
  -- when it was read, and it has them still: only the reader removes elements.
  | hasEnd e =>
    rw [hreader] at hk
    rw [read, hreader]
    by_cases he : e = s.queue.startIndex
    · simp only [if_pos he, Reader.rank]
      exact ⟨trivial, .inl ⟨⟨h.represents, h.accepted_eq, trivial⟩, trivial, fun _ => by decide⟩⟩
    · simp only [if_neg he, Reader.rank]
      exact ⟨trivial, .inl ⟨⟨h.represents, h.accepted_eq, rfl, hk he⟩, trivial, fun _ => by decide⟩⟩
  | hasStart st =>
    rw [hreader] at hk
    obtain ⟨rfl, hl⟩ := hk
    obtain ⟨x, l', rfl⟩ := List.exists_cons_of_ne_nil hl
    rw [read, hreader]
    refine ⟨rfl, .inl ⟨⟨h.represents, h.accepted_eq, rfl, ?_⟩, rfl, fun _ => Nat.zero_lt_one⟩⟩
    rw [h.represents.data_startIndex, List.head?_cons]
  | hasElement st x =>
    rw [hreader] at hk
    obtain ⟨rfl, hx⟩ := hk
    obtain ⟨l', rfl⟩ := List.head?_eq_some_iff.1 hx
    rw [read, hreader]
    refine ⟨rfl, .inr ⟨x, l', rfl, ⟨h.represents.tail, ?_, trivial⟩, rfl⟩⟩
    rw [h.accepted_eq, List.append_assoc, List.singleton_append]

theorem step_inv (h : Inv s l) (side : Side T) : ∃ l', Inv (s.step side) l' := by
  cases side with
  | push x =>
    by_cases hl : l.length = SIZE
    · exact ⟨l, by rw [step, push_of_full h x hl]; exact h⟩
    · exact ⟨_, (push_of_lt h x hl).1⟩
  | read =>
    rcases (read_inv h).2 with ⟨h', -⟩ | ⟨x, l', -, h', -⟩
    · exact ⟨l, h'⟩
    · exact ⟨l', h'⟩

theorem run_inv (h : Inv s l) (sides : List (Side T)) : ∃ l', Inv (s.run sides) l' := by
  induction sides generalizing s l with
  | nil => exact ⟨l, h⟩
  | cons side sides ih =>
    obtain ⟨l', h'⟩ := step_inv h side
    exact ih h'

/-- The reader returns every accepted element, when it goes on. By induction on the
    number of accesses to go. -/
theorem exists_returned (h : Inv s l) : ∃ n, (read^[n] s).returned = s.accepted := by
  -- An access either lowers the rank of the reader, which is below 5, or removes an
  -- element.
  obtain ⟨k, hk⟩ : ∃ k, 5 * l.length + s.reader.rank s.queue.startIndex < k :=
    ⟨_, Nat.lt_succ_self _⟩
  induction k generalizing s l with
  | zero => exact absurd hk (Nat.not_lt_zero _)
  | succ k ih =>
    obtain ⟨ha, hread⟩ := read_inv h
    by_cases hl : l = []
    · exact ⟨0, by rw [h.accepted_eq, hl, List.append_nil]; rfl⟩
    · obtain ⟨l', h', hlt⟩ : ∃ l', Inv s.read l' ∧
          5 * l'.length + s.read.reader.rank s.read.queue.startIndex < k := by
        rcases hread with ⟨h', -, hrank⟩ | ⟨x, l', rfl, h', -⟩
        · have := hrank hl
          exact ⟨l, h', by omega⟩
        · have := s.read.reader.rank_le s.read.queue.startIndex
          rw [List.length_cons] at hk
          exact ⟨l', h', by omega⟩
      obtain ⟨n, hn⟩ := ih h' hlt
      exact ⟨n + 1, hn.trans ha⟩

/-! ## Any order of the steps -/

/-- The accepted elements are the returned ones and at most `SIZE` others, which the
    reader returns when it goes on, in their order. An element is refused only when
    there are `SIZE` others, and none is put in the slot that the reader is about to
    read or has read. -/
structure Fifo (s : Preempted T SIZE) : Prop where
  accepted_eq : ∃ l, s.accepted = s.returned ++ l ∧ l.length ≤ SIZE
  returned_eq : ∃ n, (read^[n] s).returned = s.accepted
  refused : ∀ x e, (s.queue.pushBack x).1 = .error e →
    s.accepted.length = s.returned.length + SIZE
  slot_eq : ∀ st, s.reader = .hasStart st ∨ (∃ y, s.reader = .hasElement st y) →
    ∀ x, (s.push x).queue.data st = s.queue.data st

theorem Inv.fifo (h : Inv s l) : Fifo s where
  accepted_eq := ⟨l, h.accepted_eq, h.represents.length_le⟩
  returned_eq := exists_returned h
  refused x e he := by
    by_cases hl : l.length = SIZE
    · rw [h.accepted_eq, List.length_append, hl]
    · rw [(h.represents.pushBack_of_lt x hl).1] at he
      exact absurd he (by simp)
  slot_eq st hst x := by
    have hk := h.knows
    rcases hst with hst | ⟨y, hst⟩
    · rw [hst] at hk
      obtain ⟨rfl, hl⟩ := hk
      exact data_push h x hl
    · rw [hst] at hk
      obtain ⟨rfl, hl⟩ := hk
      exact data_push h x (fun hnil => by simp [hnil] at hl)

/-- Whatever the order of the steps, from the new queue on. -/
theorem fifo_run (data : ℕ → T) (sides : List (Side T)) :
    Fifo ((new data : Preempted T SIZE).run sides) := by
  obtain ⟨l, h⟩ := run_inv (inv_new data) sides
  exact h.fifo

end Preempted

end Queue

end KessokuOS
