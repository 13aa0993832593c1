import Mathlib.Logic.Function.Basic
import KessokuOS.Common
import KessokuOS.Lib.Machine

/-!
# The fixed-capacity vector

An `FCVector` is an array of `CAPACITY` elements and the number of them in use.
Insertion and removal shift the elements behind the index, one element move
after the other. The moves of a call are listed (`insertMoves`, `removeMoves`)
and then performed (`move`), so that which elements a call touches can be read
off the list.

The array is given with what lies behind it: an element at an index from
`CAPACITY` on is whatever the memory holds there. A removal from a full vector
reads one such element, and stores it where nothing looks.

The elements in use make a list (`toList`), on which the operations are those
of lists: `insert_of_le` is `List.insertIdx` and `remove_of_lt` is
`List.eraseIdx`. So are sequences of them, whatever lies behind the array at any
time (`run_eq_list`).

The calls stay inside the array but for that one read: exactly the runs in which no
element is removed from a full vector do (`runAccesses_lt_iff`).
-/

namespace KessokuOS

/-- A vector of at most `CAPACITY` elements. -/
structure FCVector (T : Type*) (CAPACITY : ℕ) where
  /-- The elements of the array, and what lies behind it. -/
  array : ℕ → T
  size : ℕ
  size_le : size ≤ CAPACITY

namespace FCVector

variable {T : Type*} {CAPACITY : ℕ}

/-- The new vector, in an array that is not initialised. -/
def new (array : ℕ → T) : FCVector T CAPACITY := ⟨array, 0, Nat.zero_le _⟩

/-- The element moves of an insertion at `index`, as pairs of a destination and
    a source: the elements behind `index`, the last one first, then the one at
    `index`. -/
def insertMoves (size index : ℕ) : List (ℕ × ℕ) :=
  if index < size then
    (List.range' (index + 1) (size - 1 - index)).reverse.map (fun i => (i + 1, i)) ++
      [(index + 1, index)]
  else []

/-- The element moves of a removal at `index`: the last one is from the index
    `size`. -/
def removeMoves (size index : ℕ) : List (ℕ × ℕ) :=
  (List.range' index (size - index)).map fun i => (i, i + 1)

/-- The array after some element moves. -/
def move (a : ℕ → T) (l : List (ℕ × ℕ)) : ℕ → T :=
  l.foldl (fun a p => Function.update a p.1 (a p.2)) a

/-- Inserts `value` at `index`. -/
def insert (v : FCVector T CAPACITY) (index : ℕ) (value : T) :
    ErrorOr Unit × FCVector T CAPACITY :=
  if index ≤ v.size then
    if h : v.size < CAPACITY then
      (.ok (), ⟨Function.update (move v.array (insertMoves v.size index)) index value,
        v.size + 1, h⟩)
    else (.error .containerIsFull, v)
  else (.error .indexOutOfRange, v)

/-- Removes the element at `index`. -/
def remove (v : FCVector T CAPACITY) (index : ℕ) : ErrorOr Unit × FCVector T CAPACITY :=
  if index < v.size then
    (.ok (), ⟨move v.array (removeMoves v.size index), v.size - 1,
      (Nat.sub_le _ _).trans v.size_le⟩)
  else (.error .indexOutOfRange, v)

/-- Inserts `value` behind the last element. -/
def pushBack (v : FCVector T CAPACITY) (value : T) : ErrorOr Unit × FCVector T CAPACITY :=
  v.insert v.size value

/-- Removes the last element. -/
def popBack (v : FCVector T CAPACITY) : ErrorOr Unit × FCVector T CAPACITY :=
  v.remove (u32Sub v.size 1)

/-- The elements in use. -/
def toList (v : FCVector T CAPACITY) : List T := (List.range v.size).map v.array

@[simp] theorem length_toList (v : FCVector T CAPACITY) : v.toList.length = v.size := by
  rw [toList, List.length_map, List.length_range]

@[simp] theorem getElem_toList (v : FCVector T CAPACITY) {i : ℕ} (h : i < v.toList.length) :
    v.toList[i] = v.array i := by
  simp only [toList, List.getElem_map, List.getElem_range]

@[simp] theorem toList_new (array : ℕ → T) : (new array : FCVector T CAPACITY).toList = [] := rfl

theorem array_mem_toList (v : FCVector T CAPACITY) {i : ℕ} (h : i < v.size) :
    v.array i ∈ v.toList :=
  List.mem_map_of_mem (List.mem_range.2 h)

/-! ## Element moves -/

theorem move_cons (a : ℕ → T) (p : ℕ × ℕ) (l : List (ℕ × ℕ)) :
    move a (p :: l) = move (Function.update a p.1 (a p.2)) l := rfl

/-- A removal moves the elements behind `index` down by one. -/
theorem move_down (a : ℕ → T) (index n x : ℕ) :
    move a ((List.range' index n).map fun i => (i, i + 1)) x =
      if index ≤ x ∧ x < index + n then a (x + 1) else a x := by
  induction n generalizing a index with
  | zero => rw [if_neg (by omega)]; rfl
  | succ n ih =>
    rw [List.range'_succ, List.map_cons, move_cons, ih]
    by_cases hx : x = index
    · -- The element at `index` is not moved again.
      subst hx
      rw [if_neg (by omega), if_pos (by omega), Function.update_self]
    · rw [Function.update_of_ne hx]
      by_cases hr : index + 1 ≤ x ∧ x < index + 1 + n
      · rw [if_pos hr, if_pos (by omega), Function.update_of_ne (by omega)]
      · rw [if_neg hr, if_neg (by omega)]

/-- Moving up the elements from `index` on, the last one first. -/
theorem move_up (a : ℕ → T) (index n x : ℕ) :
    move a ((List.range' index n).reverse.map fun i => (i + 1, i)) x =
      if index < x ∧ x ≤ index + n then a (x - 1) else a x := by
  induction n generalizing a with
  | zero => rw [if_neg (by omega)]; rfl
  | succ n ih =>
    -- The last element is moved first, so that none is overwritten before it is moved.
    rw [List.range'_1_concat, List.reverse_append, List.reverse_singleton, List.singleton_append,
      List.map_cons, move_cons, ih]
    by_cases hx : x = index + n + 1
    · subst hx
      rw [if_neg (by omega), if_pos (by omega), Function.update_self]
      rfl
    · rw [Function.update_of_ne hx]
      by_cases hr : index < x ∧ x ≤ index + n
      · rw [if_pos hr, if_pos (by omega), Function.update_of_ne (by omega)]
      · rw [if_neg hr, if_neg (by omega)]

/-- The last move of an insertion, that of the element at `index`, ends the
    series of the moves before it. -/
theorem insertMoves_of_lt {size index : ℕ} (h : index < size) :
    insertMoves size index =
      (List.range' index (size - index)).reverse.map fun i => (i + 1, i) := by
  rw [insertMoves, if_pos h, show size - index = (size - 1 - index) + 1 by omega,
    List.range'_succ, List.reverse_cons, List.map_append, List.map_singleton]

/-- An insertion moves the elements from `index` on up by one. -/
theorem move_insertMoves (a : ℕ → T) {size index : ℕ} (h : index ≤ size) (x : ℕ) :
    move a (insertMoves size index) x =
      if index < x ∧ x ≤ size then a (x - 1) else a x := by
  rcases h.lt_or_eq with h | rfl
  · rw [insertMoves_of_lt h, move_up, show index + (size - index) = size by omega]
  · rw [insertMoves, if_neg (lt_irrefl _), if_neg (by omega)]
    rfl

/-! ## The operations on lists -/

theorem insert_of_le {v : FCVector T CAPACITY} {index : ℕ} (value : T) (hi : index ≤ v.size)
    (hs : v.size < CAPACITY) : (v.insert index value).1 = .ok () ∧
      (v.insert index value).2.toList = v.toList.insertIdx index value := by
  rw [insert, if_pos hi, dif_pos hs]
  refine ⟨rfl, List.ext_getElem ?_ fun x h₁ h₂ => ?_⟩
  · rw [List.length_insertIdx, if_pos (by rwa [length_toList]), length_toList, length_toList]
  · rw [length_toList] at h₁
    change x < v.size + 1 at h₁
    rw [getElem_toList, List.getElem_insertIdx]
    simp only [getElem_toList]
    -- In front of the index, at it, and behind it.
    split_ifs with hlt heq
    · rw [Function.update_of_ne (by omega), move_insertMoves _ hi, if_neg (by omega)]
    · rw [heq, Function.update_self]
    · rw [Function.update_of_ne heq, move_insertMoves _ hi, if_pos (by omega)]

theorem insert_of_full {v : FCVector T CAPACITY} {index : ℕ} (value : T) (hi : index ≤ v.size)
    (hs : ¬v.size < CAPACITY) : v.insert index value = (.error .containerIsFull, v) := by
  rw [insert, if_pos hi, dif_neg hs]

theorem remove_of_lt {v : FCVector T CAPACITY} {index : ℕ} (hi : index < v.size) :
    (v.remove index).1 = .ok () ∧ (v.remove index).2.toList = v.toList.eraseIdx index := by
  rw [remove, if_pos hi]
  refine ⟨rfl, List.ext_getElem ?_ fun x h₁ h₂ => ?_⟩
  · rw [List.length_eraseIdx, if_pos (by rwa [length_toList]), length_toList, length_toList]
  · rw [length_toList] at h₁
    change x < v.size - 1 at h₁
    rw [getElem_toList, List.getElem_eraseIdx]
    simp only [getElem_toList, removeMoves]
    split_ifs with hlt
    · rw [move_down, if_neg (by omega)]
    · rw [move_down, if_pos (by omega)]

theorem remove_of_le {v : FCVector T CAPACITY} {index : ℕ} (hi : v.size ≤ index) :
    v.remove index = (.error .indexOutOfRange, v) := by
  rw [remove, if_neg (not_lt.2 hi)]

theorem pushBack_of_lt {v : FCVector T CAPACITY} (value : T) (hs : v.size < CAPACITY) :
    (v.pushBack value).1 = .ok () ∧ (v.pushBack value).2.toList = v.toList ++ [value] := by
  obtain ⟨h₁, h₂⟩ := insert_of_le value le_rfl hs
  refine ⟨h₁, ?_⟩
  rw [pushBack, h₂, ← length_toList, List.insertIdx_length_self]

theorem pushBack_of_full {v : FCVector T CAPACITY} (value : T) (hs : ¬v.size < CAPACITY) :
    v.pushBack value = (.error .containerIsFull, v) :=
  insert_of_full value le_rfl hs

theorem popBack_of_pos {v : FCVector T CAPACITY} (hc : CAPACITY < 2 ^ 32) (hs : 0 < v.size) :
    (v.popBack).1 = .ok () ∧ (v.popBack).2.toList = v.toList.dropLast := by
  have hsub : u32Sub v.size 1 = v.size - 1 := u32Sub_of_le (v.size_le.trans_lt hc) hs
  obtain ⟨h₁, h₂⟩ := remove_of_lt (v := v) (show v.size - 1 < v.size by omega)
  rw [popBack, hsub]
  refine ⟨h₁, ?_⟩
  rw [h₂, ← length_toList, List.eraseIdx_length_sub_one]

/-- The index of the last element of the empty vector wraps, and is out of range. -/
theorem popBack_of_empty {v : FCVector T CAPACITY} (hs : v.size = 0) :
    v.popBack = (.error .indexOutOfRange, v) := by
  rw [popBack, remove_of_le]
  rw [hs]
  exact Nat.zero_le _

/-! ## Runs -/

/-- A call of an operation. -/
inductive Op (T : Type*)
  | insert (index : ℕ) (value : T)
  | remove (index : ℕ)
  | pushBack (value : T)
  | popBack

/-- The vector with other values behind its array. -/
def withBehind (v : FCVector T CAPACITY) (behind : ℕ → T) : FCVector T CAPACITY :=
  { v with array := fun i => if i < CAPACITY then v.array i else behind i }

@[simp] theorem toList_withBehind (v : FCVector T CAPACITY) (behind : ℕ → T) :
    (v.withBehind behind).toList = v.toList := by
  refine List.map_congr_left fun i hi => ?_
  exact if_pos ((List.mem_range.1 hi).trans_le v.size_le)

/-- The call, with some values behind the array. -/
def step (v : FCVector T CAPACITY) (c : Op T × (ℕ → T)) : ErrorOr Unit × FCVector T CAPACITY :=
  let v := v.withBehind c.2
  match c.1 with
  | .insert index value => v.insert index value
  | .remove index => v.remove index
  | .pushBack value => v.pushBack value
  | .popBack => v.popBack

/-- The call on a list of at most `capacity` elements. -/
def listStep (capacity : ℕ) (l : List T) : Op T → ErrorOr Unit × List T
  | .insert index value =>
    if l.length < index then (.error .indexOutOfRange, l)
    else if l.length = capacity then (.error .containerIsFull, l)
    else (.ok (), l.insertIdx index value)
  | .remove index =>
    if l.length ≤ index then (.error .indexOutOfRange, l) else (.ok (), l.eraseIdx index)
  | .pushBack value =>
    if l.length = capacity then (.error .containerIsFull, l) else (.ok (), l ++ [value])
  | .popBack => if l.length = 0 then (.error .indexOutOfRange, l) else (.ok (), l.dropLast)

theorem insert_refines (v : FCVector T CAPACITY) (index : ℕ) (value : T) :
    (v.insert index value).1 = (listStep CAPACITY v.toList (.insert index value)).1 ∧
      (v.insert index value).2.toList =
        (listStep CAPACITY v.toList (.insert index value)).2 := by
  rw [listStep, length_toList]
  by_cases hi : v.size < index
  · rw [if_pos hi, insert, if_neg (not_le.2 hi)]
    exact ⟨rfl, rfl⟩
  · have hi' : index ≤ v.size := not_lt.1 hi
    rw [if_neg hi]
    by_cases hs : v.size = CAPACITY
    · rw [if_pos hs, insert_of_full value hi' hs.not_lt]
      exact ⟨rfl, rfl⟩
    · rw [if_neg hs]
      exact insert_of_le value hi' (lt_of_le_of_ne v.size_le hs)

theorem remove_refines (v : FCVector T CAPACITY) (index : ℕ) :
    (v.remove index).1 = (listStep CAPACITY v.toList (.remove index)).1 ∧
      (v.remove index).2.toList = (listStep CAPACITY v.toList (.remove index)).2 := by
  rw [listStep, length_toList]
  by_cases hi : v.size ≤ index
  · rw [if_pos hi, remove_of_le hi]
    exact ⟨rfl, rfl⟩
  · rw [if_neg hi]
    exact remove_of_lt (not_le.1 hi)

theorem pushBack_refines (v : FCVector T CAPACITY) (value : T) :
    (v.pushBack value).1 = (listStep CAPACITY v.toList (.pushBack value)).1 ∧
      (v.pushBack value).2.toList = (listStep CAPACITY v.toList (.pushBack value)).2 := by
  rw [listStep, length_toList]
  by_cases hs : v.size = CAPACITY
  · rw [if_pos hs, pushBack_of_full value hs.not_lt]
    exact ⟨rfl, rfl⟩
  · rw [if_neg hs]
    exact pushBack_of_lt value (lt_of_le_of_ne v.size_le hs)

theorem popBack_refines (hc : CAPACITY < 2 ^ 32) (v : FCVector T CAPACITY) :
    (v.popBack).1 = (listStep CAPACITY v.toList .popBack).1 ∧
      (v.popBack).2.toList = (listStep CAPACITY v.toList .popBack).2 := by
  rw [listStep, length_toList]
  by_cases hs : v.size = 0
  · rw [if_pos hs, popBack_of_empty hs]
    exact ⟨rfl, rfl⟩
  · rw [if_neg hs]
    exact popBack_of_pos hc (Nat.pos_of_ne_zero hs)

theorem step_refines (hc : CAPACITY < 2 ^ 32) (v : FCVector T CAPACITY) (c : Op T × (ℕ → T)) :
    (step v c).1 = (listStep CAPACITY v.toList c.1).1 ∧
      (step v c).2.toList = (listStep CAPACITY v.toList c.1).2 := by
  obtain ⟨op, behind⟩ := c
  rw [← toList_withBehind v behind]
  cases op with
  | insert index value => exact insert_refines _ index value
  | remove index => exact remove_refines _ index
  | pushBack value => exact pushBack_refines _ value
  | popBack => exact popBack_refines hc _

/-- From the new vector on, any calls return what they do on a list of at most
    `CAPACITY` elements, and the elements in use are those of the list. -/
theorem run_eq_list (hc : CAPACITY < 2 ^ 32) (array : ℕ → T)
    (calls : List (Op T × (ℕ → T))) :
    (Machine.run step (new array : FCVector T CAPACITY) calls).1 =
        (Machine.run (fun l c => listStep CAPACITY l c.1) [] calls).1 ∧
      (Machine.run step (new array : FCVector T CAPACITY) calls).2.toList =
        (Machine.run (fun l c => listStep CAPACITY l c.1) [] calls).2 :=
  Machine.run_refines (R := fun (v : FCVector T CAPACITY) (l : List T) => v.toList = l)
    (fun v l c h => by rw [← h]; exact step_refines hc v c) (toList_new array) calls

/-- Calls on a vector of two elements, which fail when it is full and when it is empty. -/
def sampleCalls : List (Op ℕ × (ℕ → ℕ)) :=
  [(.pushBack 1, fun _ => 5), (.insert 0 2, fun _ => 6), (.insert 1 3, fun _ => 7),
    (.remove 0, fun _ => 8), (.popBack, fun _ => 9), (.popBack, fun _ => 5)]

theorem run_eq_list_sample :
    (Machine.run step (new (fun _ => 4) : FCVector ℕ 2) sampleCalls).1 =
        (Machine.run (fun l c => listStep 2 l c.1) [] sampleCalls).1 ∧
      (Machine.run step (new (fun _ => 4) : FCVector ℕ 2) sampleCalls).2.toList =
        (Machine.run (fun l c => listStep 2 l c.1) [] sampleCalls).2 :=
  run_eq_list (by decide) _ sampleCalls

/-! ## Accesses -/

/-- The indices that some element moves read and write. -/
def moveAccesses (l : List (ℕ × ℕ)) : List ℕ := l.flatMap fun p => [p.2, p.1]

/-- The indices of the array that an insertion reads or writes. -/
def insertAccesses (v : FCVector T CAPACITY) (index : ℕ) : List ℕ :=
  if index ≤ v.size then
    if v.size < CAPACITY then moveAccesses (insertMoves v.size index) ++ [index] else []
  else []

/-- The indices of the array that a removal reads or writes. -/
def removeAccesses (v : FCVector T CAPACITY) (index : ℕ) : List ℕ :=
  if index < v.size then moveAccesses (removeMoves v.size index) else []

/-- The indices of the array that a call reads or writes. -/
def accesses (v : FCVector T CAPACITY) : Op T → List ℕ
  | .insert index _ => v.insertAccesses index
  | .remove index => v.removeAccesses index
  | .pushBack _ => v.insertAccesses v.size
  | .popBack => v.removeAccesses (u32Sub v.size 1)

/-- The call removes an element, and the vector is full. -/
def RemovesFromFull (v : FCVector T CAPACITY) : Op T → Prop
  | .remove index => v.size = CAPACITY ∧ index < v.size
  | .popBack => v.size = CAPACITY ∧ 0 < v.size
  | _ => False

theorem mem_moveAccesses {l : List (ℕ × ℕ)} {i : ℕ} :
    i ∈ moveAccesses l ↔ ∃ p ∈ l, i = p.2 ∨ i = p.1 := by
  simp only [moveAccesses, List.mem_flatMap, List.mem_cons, List.not_mem_nil, or_false]

theorem move_of_not_mem (a : ℕ → T) {l : List (ℕ × ℕ)} {i : ℕ} (h : i ∉ moveAccesses l) :
    move a l i = a i := by
  induction l generalizing a with
  | nil => rfl
  | cons p l ih =>
    simp only [mem_moveAccesses, List.mem_cons, exists_eq_or_imp, not_or] at h
    rw [move_cons, ih _ fun hi => h.2 (mem_moveAccesses.1 hi)]
    exact Function.update_of_ne h.1.2 ..

theorem insert_array_of_not_mem {v : FCVector T CAPACITY} {index i : ℕ} (value : T)
    (h : i ∉ v.insertAccesses index) : (v.insert index value).2.array i = v.array i := by
  rw [insertAccesses] at h
  rw [insert]
  split_ifs at h ⊢ with hi hs
  · rw [List.mem_append, List.mem_singleton, not_or] at h
    exact (Function.update_of_ne h.2 ..).trans (move_of_not_mem _ h.1)
  · rfl
  · rfl

theorem remove_array_of_not_mem {v : FCVector T CAPACITY} {index i : ℕ}
    (h : i ∉ v.removeAccesses index) : (v.remove index).2.array i = v.array i := by
  rw [removeAccesses] at h
  rw [remove]
  split_ifs at h ⊢ with hi
  · exact move_of_not_mem _ h
  · rfl

theorem popBack_array_of_not_mem {v : FCVector T CAPACITY} {i : ℕ}
    (h : i ∉ v.accesses .popBack) : v.popBack.2.array i = v.array i := by
  rw [accesses] at h
  rw [popBack]
  exact remove_array_of_not_mem h

/-- Which elements a call accesses does not depend on the values. -/
theorem accesses_withBehind (v : FCVector T CAPACITY) (behind : ℕ → T) (op : Op T) :
    (v.withBehind behind).accesses op = v.accesses op := by
  have hsize : (v.withBehind behind).size = v.size := rfl
  cases op <;> simp only [accesses, insertAccesses, removeAccesses, hsize]

/-- A call changes only what it accesses. -/
theorem step_array_of_not_mem (v : FCVector T CAPACITY) (c : Op T × (ℕ → T)) {i : ℕ}
    (hi : i < CAPACITY) (h : i ∉ v.accesses c.1) : (step v c).2.array i = v.array i := by
  have hbehind : (v.withBehind c.2).array i = v.array i := if_pos hi
  obtain ⟨op, behind⟩ := c
  rw [← accesses_withBehind v behind] at h
  rw [← hbehind]
  cases op with
  | insert index value => exact insert_array_of_not_mem value h
  | remove index => exact remove_array_of_not_mem h
  | pushBack value => exact insert_array_of_not_mem value h
  | popBack =>
    have hstep : step v (.popBack, behind) = (v.withBehind behind).popBack := rfl
    rw [hstep]
    exact popBack_array_of_not_mem h

/-- An insertion goes as far as the element behind the last one, for which there is room. -/
theorem insertAccesses_lt (v : FCVector T CAPACITY) (index : ℕ) :
    ∀ i ∈ v.insertAccesses index, i < CAPACITY := by
  intro i hi
  rw [insertAccesses] at hi
  split_ifs at hi with hle hs
  · rcases List.mem_append.1 hi with hi | hi
    · obtain ⟨p, hp, hip⟩ := mem_moveAccesses.1 hi
      rcases hle.lt_or_eq with hlt | heq
      · rw [insertMoves_of_lt hlt, List.mem_map] at hp
        obtain ⟨k, hk, rfl⟩ := hp
        rw [List.mem_reverse, List.mem_range'_1] at hk
        rcases hip with rfl | rfl <;> omega
      · rw [insertMoves, if_neg heq.not_lt] at hp
        exact absurd hp List.not_mem_nil
    · rw [List.mem_singleton.1 hi]
      omega
  · exact absurd hi List.not_mem_nil
  · exact absurd hi List.not_mem_nil

/-- A removal reads the element behind the last one, which may not be there. -/
theorem removeAccesses_lt_iff (v : FCVector T CAPACITY) (index : ℕ) :
    (∀ i ∈ v.removeAccesses index, i < CAPACITY) ↔ ¬(v.size = CAPACITY ∧ index < v.size) := by
  have hsize := v.size_le
  rw [removeAccesses]
  by_cases hi : index < v.size
  · rw [if_pos hi]
    constructor
    · intro h hfull
      have hlast : v.size ∈ moveAccesses (removeMoves v.size index) := by
        refine mem_moveAccesses.2
          ⟨(v.size - 1, v.size - 1 + 1), ?_, .inl (Nat.sub_add_cancel (by omega)).symm⟩
        exact List.mem_map_of_mem (List.mem_range'_1.2 (by omega))
      exact (h _ hlast).ne hfull.1
    · intro hroom i hmem
      obtain ⟨p, hp, hip⟩ := mem_moveAccesses.1 hmem
      obtain ⟨k, hk, rfl⟩ := List.mem_map.1 hp
      rw [List.mem_range'_1] at hk
      rcases hip with rfl | rfl <;> omega
  · rw [if_neg hi]
    simp [hi]

/-- The index of the last element is one of the elements in use, if there are any. -/
theorem u32Sub_one_lt_iff (n : ℕ) : u32Sub n 1 < n ↔ 0 < n := by
  refine ⟨fun h => (Nat.zero_le _).trans_lt h, fun h => ?_⟩
  rcases lt_or_ge n (2 ^ 32) with hn | hn
  · rw [u32Sub_of_le hn h]
    omega
  · exact (Nat.mod_lt _ (by decide)).trans_le hn

theorem accesses_lt_iff (v : FCVector T CAPACITY) (op : Op T) :
    (∀ i ∈ v.accesses op, i < CAPACITY) ↔ ¬v.RemovesFromFull op := by
  cases op with
  | insert index value => exact iff_of_true (v.insertAccesses_lt index) id
  | remove index => exact v.removeAccesses_lt_iff index
  | pushBack value => exact iff_of_true (v.insertAccesses_lt v.size) id
  | popBack =>
    rw [accesses, removeAccesses_lt_iff, u32Sub_one_lt_iff]
    rfl

/-- The indices that the calls of a run read or write. -/
def runAccesses (v : FCVector T CAPACITY) (calls : List (Op T × (ℕ → T))) : List ℕ :=
  (Machine.visits step v calls).flatMap fun p => p.1.accesses p.2.1

/-- From the new vector on, each call changes only what it accesses, and the calls stay
    inside the array exactly if none of them removes an element from the full vector. -/
theorem runAccesses_lt_iff (array : ℕ → T) (calls : List (Op T × (ℕ → T))) :
    (∀ p ∈ Machine.visits step (new array : FCVector T CAPACITY) calls,
      ∀ i < CAPACITY, i ∉ p.1.accesses p.2.1 → (step p.1 p.2).2.array i = p.1.array i) ∧
    ((∀ i ∈ runAccesses (new array : FCVector T CAPACITY) calls, i < CAPACITY) ↔
      ∀ p ∈ Machine.visits step (new array : FCVector T CAPACITY) calls,
        ¬p.1.RemovesFromFull p.2.1) := by
  refine ⟨fun p _ i hi h => step_array_of_not_mem p.1 p.2 hi h, ?_⟩
  rw [runAccesses, List.forall_mem_flatMap]
  exact forall₂_congr fun p _ => accesses_lt_iff p.1 p.2.1

/-- The only element of a vector of one, read at the index behind it when it is removed. -/
theorem not_runAccesses_lt_full :
    ¬∀ i ∈ runAccesses (new (fun _ => 0) : FCVector ℕ 1)
      [(.pushBack 7, fun _ => 0), (.popBack, fun _ => 0)], i < 1 := by
  decide

end FCVector

end KessokuOS
