import Mathlib.Logic.Function.Basic
import KessokuOS.Common
import KessokuOS.Lib.Machine

/-!
# The ring queue

A `Queue` has `SIZE + 1` slots, and two indices that go round: the elements lie
from the start index to the slot before the end index. One slot is always free,
as otherwise the full queue would look like the empty one.

The queue represents the list of its elements (`Represents`), on which the
operations are those of a list of at most `SIZE` elements:

* `step_refines`: one operation;
* `run_refines_list`: any sequence of them, from the new queue on.

The size is computed from the indices. Where the end index has gone round and the
start index has not, it is one less than the number of elements (`size_of_wrapped`),
and only there (`size_counts_iff`).
-/

namespace KessokuOS

/-- A queue of at most `SIZE` elements, in an array of `SIZE + 1` slots. -/
structure Queue (T : Type*) (SIZE : ℕ) where
  /-- The slots, and what lies behind them. -/
  data : ℕ → T
  startIndex : ℕ
  endIndex : ℕ

namespace Queue

variable {T : Type*} {SIZE : ℕ}

/-- The new queue, in an array that is not initialised. -/
def new (data : ℕ → T) : Queue T SIZE := ⟨data, 0, 0⟩

/-- The slot behind `pos`, going round. It fits in 32 bits, as the array does. -/
def nextPosition (SIZE pos : ℕ) : ℕ := (pos + 1) % (SIZE + 1)

def isEmpty (q : Queue T SIZE) : Bool := q.endIndex = q.startIndex

def isFull (q : Queue T SIZE) : Bool := nextPosition SIZE q.endIndex = q.startIndex

def pushBack (q : Queue T SIZE) (element : T) : ErrorOr Unit × Queue T SIZE :=
  if q.isFull then (.error .containerIsFull, q)
  else (.ok (), { q with
    data := Function.update q.data q.endIndex element
    endIndex := nextPosition SIZE q.endIndex })

def popFront (q : Queue T SIZE) : ErrorOr T × Queue T SIZE :=
  if q.isEmpty then (.error .containerIsEmpty, q)
  else (.ok (q.data q.startIndex), { q with startIndex := nextPosition SIZE q.startIndex })

/-- The number of elements, by the indices. The difference is not negative, so that
    it does not matter whether the sum wraps. -/
def size (q : Queue T SIZE) : ℕ :=
  if q.endIndex < q.startIndex then q.endIndex + SIZE - q.startIndex
  else q.endIndex - q.startIndex

def capacity (_ : Queue T SIZE) : ℕ := SIZE

/-! ## Slots -/

theorem nextPosition_lt (SIZE pos : ℕ) : nextPosition SIZE pos < SIZE + 1 :=
  Nat.mod_lt _ (Nat.succ_pos SIZE)

theorem nextPosition_of_lt {pos : ℕ} (h : pos < SIZE) : nextPosition SIZE pos = pos + 1 :=
  Nat.mod_eq_of_lt (Nat.succ_lt_succ h)

theorem nextPosition_self (SIZE : ℕ) : nextPosition SIZE SIZE = 0 := Nat.mod_self _

/-- The slot `i` slots behind `start`. -/
def slot (SIZE start i : ℕ) : ℕ :=
  if start + i < SIZE + 1 then start + i else start + i - (SIZE + 1)

variable {start i j : ℕ}

theorem slot_lt (hs : start < SIZE + 1) (hi : i < SIZE + 1) : slot SIZE start i < SIZE + 1 := by
  rw [slot]
  split_ifs <;> omega

theorem slot_zero (hs : start < SIZE + 1) : slot SIZE start 0 = start := if_pos hs

/-- Different slots of one round. -/
theorem slot_injective (hi : i < SIZE + 1) (hj : j < SIZE + 1)
    (h : slot SIZE start i = slot SIZE start j) : i = j := by
  rw [slot, slot] at h
  split_ifs at h <;> omega

theorem nextPosition_slot (hs : start < SIZE + 1) (hi : i < SIZE + 1) :
    nextPosition SIZE (slot SIZE start i) = slot SIZE start (i + 1) := by
  rcases Nat.lt_or_eq_of_le (Nat.le_of_lt_succ (slot_lt hs hi)) with hlt | heq
  · rw [nextPosition_of_lt hlt]
    simp only [slot] at hlt ⊢
    split_ifs at hlt ⊢ <;> omega
  · rw [heq, nextPosition_self]
    simp only [slot] at heq ⊢
    split_ifs at heq ⊢ <;> omega

theorem slot_nextPosition (hs : start < SIZE + 1) (hi : i < SIZE + 1) :
    slot SIZE (nextPosition SIZE start) i = slot SIZE start (i + 1) := by
  rcases Nat.lt_or_eq_of_le (Nat.le_of_lt_succ hs) with hlt | rfl
  · rw [nextPosition_of_lt hlt]
    simp only [slot]
    split_ifs <;> omega
  · rw [nextPosition_self]
    simp only [slot]
    split_ifs <;> omega

/-! ## The list of the elements -/

/-- The queue has the elements `l`, the oldest one first. -/
structure Represents (q : Queue T SIZE) (l : List T) : Prop where
  length_le : l.length ≤ SIZE
  start_lt : q.startIndex < SIZE + 1
  end_eq : q.endIndex = slot SIZE q.startIndex l.length
  data_eq : ∀ i (h : i < l.length), q.data (slot SIZE q.startIndex i) = l[i]

namespace Represents

variable {q : Queue T SIZE} {l : List T}

theorem new (data : ℕ → T) : Represents (Queue.new data : Queue T SIZE) [] where
  length_le := Nat.zero_le _
  start_lt := Nat.succ_pos _
  end_eq := (slot_zero (Nat.succ_pos _)).symm
  data_eq _ h := absurd h (Nat.not_lt_zero _)

theorem end_lt (h : Represents q l) : q.endIndex < SIZE + 1 := by
  rw [h.end_eq]
  exact slot_lt h.start_lt (Nat.lt_succ_of_le h.length_le)

theorem isEmpty_iff (h : Represents q l) : q.isEmpty = true ↔ l.length = 0 := by
  rw [isEmpty, decide_eq_true_iff, h.end_eq]
  constructor
  · intro heq
    exact slot_injective (Nat.lt_succ_of_le h.length_le) (Nat.succ_pos _)
      (heq.trans (slot_zero h.start_lt).symm)
  · intro hl
    rw [hl, slot_zero h.start_lt]

/-- The start of a queue with elements is not the slot for the next one. -/
theorem startIndex_ne (h : Represents q l) (hl : l ≠ []) : q.startIndex ≠ q.endIndex := by
  intro heq
  have he : q.isEmpty = true := decide_eq_true heq.symm
  exact hl (List.length_eq_zero_iff.1 (h.isEmpty_iff.1 he))

theorem isFull_iff (h : Represents q l) : q.isFull = true ↔ l.length = SIZE := by
  have hlt : l.length < SIZE + 1 := Nat.lt_succ_of_le h.length_le
  rw [isFull, decide_eq_true_iff, h.end_eq, nextPosition_slot h.start_lt hlt]
  constructor
  · intro heq
    -- Behind fewer elements, the slot after next is not the one at the start: that
    -- is a whole round away.
    refine Nat.le_antisymm h.length_le (Nat.le_of_not_lt fun hlt' => ?_)
    have := slot_injective (Nat.succ_lt_succ hlt') (Nat.succ_pos _)
      (heq.trans (slot_zero h.start_lt).symm)
    exact absurd this (Nat.succ_ne_zero _)
  · intro hl
    rw [hl, slot, if_neg (by omega), Nat.add_sub_cancel]

theorem pushBack_of_full (h : Represents q l) (x : T) (hl : l.length = SIZE) :
    q.pushBack x = (.error .containerIsFull, q) := by
  rw [pushBack, if_pos (h.isFull_iff.2 hl)]

/-- An element is stored in a slot that is not in use. -/
theorem pushBack_of_lt (h : Represents q l) (x : T) (hl : l.length ≠ SIZE) :
    (q.pushBack x).1 = .ok () ∧ Represents (q.pushBack x).2 (l ++ [x]) := by
  have hlt : l.length < SIZE + 1 := Nat.lt_succ_of_le h.length_le
  rw [pushBack, if_neg fun hf => hl (h.isFull_iff.1 hf)]
  refine ⟨rfl, ?_, h.start_lt, ?_, fun i hi => ?_⟩
  · rw [List.length_append, List.length_singleton]
    exact Nat.lt_of_le_of_ne h.length_le hl
  · rw [List.length_append, List.length_singleton, ← nextPosition_slot h.start_lt hlt, ← h.end_eq]
  · rw [List.length_append, List.length_singleton] at hi
    rcases Nat.lt_or_eq_of_le (Nat.le_of_lt_succ hi) with hi' | rfl
    · -- The slots in use are not the one that is written.
      have hne : slot SIZE q.startIndex i ≠ q.endIndex := fun heq =>
        hi'.ne (slot_injective (hi'.trans hlt) hlt (heq.trans h.end_eq))
      rw [List.getElem_append_left hi']
      exact (Function.update_of_ne hne _ _).trans (h.data_eq i hi')
    · rw [← h.end_eq, List.getElem_concat_length rfl]
      exact Function.update_self _ _ _

theorem popFront_of_empty (h : Represents q []) :
    q.popFront = (.error .containerIsEmpty, q) := by
  rw [popFront, if_pos (h.isEmpty_iff.2 rfl)]

/-- The oldest element is in the slot at the start. -/
theorem data_startIndex {x : T} (h : Represents q (x :: l)) : q.data q.startIndex = x := by
  have := h.data_eq 0 (Nat.succ_pos _)
  rwa [slot_zero h.start_lt] at this

/-- Stepping over the slot at the start removes the oldest element. -/
theorem tail {x : T} (h : Represents q (x :: l)) :
    Represents ({ q with startIndex := nextPosition SIZE q.startIndex } : Queue T SIZE) l := by
  have hle : l.length + 1 ≤ SIZE := h.length_le
  refine ⟨Nat.le_of_lt hle, nextPosition_lt _ _, ?_, fun i hi => ?_⟩
  · rw [h.end_eq, slot_nextPosition h.start_lt (by omega), List.length_cons]
  · rw [slot_nextPosition h.start_lt (by omega), h.data_eq (i + 1) (Nat.succ_lt_succ hi),
      List.getElem_cons_succ]

theorem popFront_of_cons {x : T} (h : Represents q (x :: l)) :
    (q.popFront).1 = .ok x ∧ Represents (q.popFront).2 l := by
  have hpos : (x :: l).length ≠ 0 := Nat.succ_ne_zero _
  rw [popFront, if_neg fun he => hpos (h.isEmpty_iff.1 he), h.data_startIndex]
  exact ⟨rfl, h.tail⟩

end Represents

/-! ## Runs -/

/-- A call of an operation. -/
inductive Op (T : Type*)
  | pushBack (element : T)
  | popFront

/-- What a call returns. -/
inductive Result (T : Type*)
  | pushed (r : ErrorOr Unit)
  | popped (r : ErrorOr T)

def step (q : Queue T SIZE) : Op T → Result T × Queue T SIZE
  | .pushBack x => (.pushed (q.pushBack x).1, (q.pushBack x).2)
  | .popFront => (.popped q.popFront.1, q.popFront.2)

/-- The call on a list of at most `capacity` elements. -/
def listStep (capacity : ℕ) (l : List T) : Op T → Result T × List T
  | .pushBack x =>
    if l.length = capacity then (.pushed (.error .containerIsFull), l)
    else (.pushed (.ok ()), l ++ [x])
  | .popFront =>
    match l with
    | [] => (.popped (.error .containerIsEmpty), [])
    | x :: l => (.popped (.ok x), l)

/-- A call returns what it does on the list of the elements, and a failing call
    changes nothing. -/
theorem step_refines {q : Queue T SIZE} {l : List T} (h : Represents q l) (op : Op T) :
    (step q op).1 = (listStep SIZE l op).1 ∧ Represents (step q op).2 (listStep SIZE l op).2 := by
  cases op with
  | pushBack x =>
    rw [step, listStep]
    by_cases hl : l.length = SIZE
    · rw [if_pos hl, h.pushBack_of_full x hl]
      exact ⟨rfl, h⟩
    · obtain ⟨hr, h'⟩ := h.pushBack_of_lt x hl
      rw [if_neg hl, hr]
      exact ⟨rfl, h'⟩
  | popFront =>
    cases l with
    | nil =>
      rw [step, listStep, h.popFront_of_empty]
      exact ⟨rfl, h⟩
    | cons x l =>
      obtain ⟨hr, h'⟩ := h.popFront_of_cons
      rw [step, listStep, hr]
      exact ⟨rfl, h'⟩

/-- A failing call leaves the queue. -/
theorem step_of_error {q : Queue T SIZE} {op : Op T} {e : Error}
    (h : (step q op).1 = .pushed (.error e) ∨ (step q op).1 = .popped (.error e)) :
    (step q op).2 = q := by
  cases op with
  | pushBack x =>
    simp only [step, pushBack] at h ⊢
    split_ifs at h ⊢ with hf
    · rfl
    · simp at h
  | popFront =>
    simp only [step, popFront] at h ⊢
    split_ifs at h ⊢ with he
    · rfl
    · simp at h

/-- The queue behind some calls from the new queue on, and the list behind them. -/
def after (SIZE : ℕ) (data : ℕ → T) (ops : List (Op T)) : Queue T SIZE :=
  (Machine.run step (new data) ops).2

def listAfter (capacity : ℕ) (ops : List (Op T)) : List T :=
  (Machine.run (listStep capacity) [] ops).2

theorem represents_after (data : ℕ → T) (ops : List (Op T)) :
    (Machine.run step (new data : Queue T SIZE) ops).1 = (Machine.run (listStep SIZE) [] ops).1 ∧
      Represents (after SIZE data ops) (listAfter SIZE ops) :=
  Machine.run_refines (R := Represents) (fun _ _ op h => step_refines h op) (.new data) ops

/-- From the new queue on, any calls return what they do on a list of at most `SIZE`
    elements. Behind them, the queue is empty or full as the list is, its indices are
    slots, and a call that fails leaves it. -/
theorem run_refines_list (data : ℕ → T) (ops : List (Op T)) :
    (Machine.run step (new data : Queue T SIZE) ops).1 = (Machine.run (listStep SIZE) [] ops).1 ∧
      ((after SIZE data ops).isEmpty = true ↔ (listAfter SIZE ops).length = 0) ∧
      ((after SIZE data ops).isFull = true ↔ (listAfter SIZE ops).length = SIZE) ∧
      (after SIZE data ops).startIndex < SIZE + 1 ∧ (after SIZE data ops).endIndex < SIZE + 1 ∧
      ∀ op e, (step (after SIZE data ops) op).1 = .pushed (.error e) ∨
          (step (after SIZE data ops) op).1 = .popped (.error e) →
        (step (after SIZE data ops) op).2 = after SIZE data ops := by
  obtain ⟨hr, h⟩ := represents_after data ops
  exact ⟨hr, h.isEmpty_iff, h.isFull_iff, h.start_lt, h.end_lt, fun _ _ => step_of_error⟩

/-! ## The size -/

namespace Represents

variable {q : Queue T SIZE} {l : List T}

/-- As long as the end index is not below the start index, the size is right. -/
theorem size_of_le (h : Represents q l) (hq : q.startIndex ≤ q.endIndex) :
    q.size = l.length := by
  have hle := h.length_le
  have hend := h.end_eq
  have hstart := h.start_lt
  rw [size, if_neg (not_lt.2 hq)]
  rw [slot] at hend
  split_ifs at hend <;> omega

/-- Behind the end of the array the indices are `SIZE + 1` apart, not `SIZE`. -/
theorem size_of_wrapped (h : Represents q l) (hq : q.endIndex < q.startIndex) :
    q.size + 1 = l.length := by
  have hend := h.end_eq
  have hstart := h.start_lt
  rw [size, if_pos hq]
  rw [slot] at hend
  split_ifs at hend <;> omega

end Represents

/-- The call has stored an element, or has taken one out. -/
def Result.isPush : Result T → Bool
  | .pushed (.ok _) => true
  | _ => false

def Result.isPop : Result T → Bool
  | .popped (.ok _) => true
  | _ => false

/-- On the list, every call accounts for the change of the length. -/
theorem length_listStep (capacity : ℕ) (l : List T) (op : Op T) :
    (listStep capacity l op).2.length + (listStep capacity l op).1.isPop.toNat =
      l.length + (listStep capacity l op).1.isPush.toNat := by
  cases op with
  | pushBack x =>
    rw [listStep]
    split_ifs
    · rfl
    · rw [List.length_append, List.length_singleton]
      rfl
  | popFront => cases l <;> rfl

theorem length_run_listStep (capacity : ℕ) (l : List T) (ops : List (Op T)) :
    (Machine.run (listStep capacity) l ops).2.length +
        (Machine.run (listStep capacity) l ops).1.countP Result.isPop =
      l.length + (Machine.run (listStep capacity) l ops).1.countP Result.isPush := by
  induction ops generalizing l with
  | nil => rfl
  | cons op ops ih =>
    have hstep := length_listStep capacity l op
    have hrun := ih (listStep capacity l op).2
    have hcount : ∀ b : Bool, (if b = true then 1 else 0) = b.toNat := by decide
    rw [Machine.run]
    simp only [List.countP_cons, hcount]
    omega

/-- The size says what has been stored behind some calls with the results `rs`. -/
structure SizeCounts (q : Queue T SIZE) (rs : List (Result T)) : Prop where
  count : q.size + rs.countP Result.isPop = rs.countP Result.isPush
  empty_iff : q.size = 0 ↔ q.isEmpty = true
  full_iff : q.size = q.capacity ↔ q.isFull = true

/-- Behind any calls from the new queue on, the size is right exactly if the end index
    is not below the start index. -/
theorem size_counts_iff (data : ℕ → T) (ops : List (Op T)) :
    SizeCounts (after SIZE data ops) (Machine.run step (new data : Queue T SIZE) ops).1 ↔
      (after SIZE data ops).startIndex ≤ (after SIZE data ops).endIndex := by
  obtain ⟨hr, h⟩ := represents_after data ops
  have hcount := length_run_listStep SIZE [] ops
  rw [← listAfter, ← hr, List.length_nil, Nat.zero_add] at hcount
  constructor
  · intro hs
    by_contra hlt
    have hsize := h.size_of_wrapped (not_le.1 hlt)
    have := hs.count
    omega
  · intro hle
    have hsize := h.size_of_le hle
    exact ⟨hsize ▸ hcount, hsize ▸ h.isEmpty_iff.symm, hsize ▸ h.isFull_iff.symm⟩

/-- In two slots, the second element that is stored lies in front of the start. -/
theorem not_size_counts_wrapped :
    ¬ SizeCounts (after 1 (fun _ => 0) [.pushBack 5, .popFront, .pushBack 6])
      (Machine.run step (new fun _ => 0 : Queue ℕ 1) [.pushBack 5, .popFront, .pushBack 6]).1 := by
  intro h
  exact absurd h.count (by decide)

end Queue

end KessokuOS
