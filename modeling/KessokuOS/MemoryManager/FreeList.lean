import KessokuOS.Lib.SortedList
import KessokuOS.MemoryManager.Basic

/-!
# Headers and the list of the unused blocks

How the operations on headers and on `freeBlocks` act, for headers which
coincide or do not overlap (`Apart`):

* assigning a field of a header changes this field only, and no other header;
* the binary search finds the lower bound of a size in a sorted list
  (`findFirstGteFreeBlock_eq`), within the rounds it is given (`bisect_eq`);
* `removeFreeBlock` takes a block off a sorted list, or fails when the list
  does not have it (`removeFreeBlock_of_mem`, `removeFreeBlock_of_not_mem`);
* `addFreeBlock` inserts a block where it keeps the list sorted, unless the list
  is full (`addFreeBlock_of_lt`, `addFreeBlock_of_full`).
-/

namespace KessokuOS.MemoryManager

/-- The headers at `x` and `a` coincide or do not overlap. -/
def Apart (x a : ℕ) : Prop := x = a ∨ x + 12 ≤ a ∨ a + 12 ≤ x

namespace State

variable {s s' : State} {a x v : ℕ} {u : Bool}

/-! ## Fields -/

theorem endAddress_lt (s : State) : s.endAddress < 2 ^ 32 := s.memoryInfo.endAddress_lt

theorem next_lt (s : State) (a : ℕ) : s.next a < 2 ^ 32 := s.mem.load_lt (a + 4) 4

@[simp] theorem prev_setPrev_self (hv : v < 2 ^ 32) : (s.setPrev a v).prev a = v :=
  Memory.load_store_of_lt hv

theorem prev_setPrev_of_ne (h : Apart x a) (hx : x ≠ a) : (s.setPrev a v).prev x = s.prev x :=
  Memory.load_store_of_disjoint (by rw [Apart] at h; omega)

theorem next_setPrev (h : Apart x a) : (s.setPrev a v).next x = s.next x :=
  Memory.load_store_of_disjoint (by rw [Apart] at h; omega)

theorem used_setPrev (h : Apart x a) : (s.setPrev a v).used x = s.used x :=
  congrArg (· != 0) (Memory.write_of_not_mem (by rw [Apart] at h; omega))

@[simp] theorem next_setNext_self (hv : v < 2 ^ 32) : (s.setNext a v).next a = v :=
  Memory.load_store_of_lt hv

theorem next_setNext_of_ne (h : Apart x a) (hx : x ≠ a) : (s.setNext a v).next x = s.next x :=
  Memory.load_store_of_disjoint (by rw [Apart] at h; omega)

theorem prev_setNext (h : Apart x a) : (s.setNext a v).prev x = s.prev x :=
  Memory.load_store_of_disjoint (by rw [Apart] at h; omega)

theorem used_setNext (h : Apart x a) : (s.setNext a v).used x = s.used x :=
  congrArg (· != 0) (Memory.write_of_not_mem (by rw [Apart] at h; omega))

@[simp] theorem used_setUsed_self : (s.setUsed a u).used a = u := by
  change (s.mem.store (a + 8) 1 u.toNat (a + 8) != 0) = u
  rw [Memory.store_one]
  cases u <;> rfl

theorem used_setUsed_of_ne (hx : x ≠ a) : (s.setUsed a u).used x = s.used x :=
  congrArg (· != 0) (Memory.write_of_not_mem (by omega))

theorem prev_setUsed (h : Apart x a) : (s.setUsed a u).prev x = s.prev x :=
  Memory.load_store_of_disjoint (by rw [Apart] at h; omega)

theorem next_setUsed (h : Apart x a) : (s.setUsed a u).next x = s.next x :=
  Memory.load_store_of_disjoint (by rw [Apart] at h; omega)

@[simp] theorem memoryInfo_setPrev : (s.setPrev a v).memoryInfo = s.memoryInfo := rfl

@[simp] theorem memoryInfo_setNext : (s.setNext a v).memoryInfo = s.memoryInfo := rfl

@[simp] theorem memoryInfo_setUsed : (s.setUsed a u).memoryInfo = s.memoryInfo := rfl

@[simp] theorem mem_setFreeBlocks {l : FCVector ℕ 2048} : (s.setFreeBlocks l).mem = s.mem := rfl

@[simp] theorem freeBlocks_setFreeBlocks {l : FCVector ℕ 2048} :
    (s.setFreeBlocks l).freeBlocks = l := rfl

@[simp] theorem baseNode_setFreeBlocks {l : FCVector ℕ 2048} :
    (s.setFreeBlocks l).baseNode = s.baseNode := rfl

@[simp] theorem endAddress_setFreeBlocks {l : FCVector ℕ 2048} :
    (s.setFreeBlocks l).endAddress = s.endAddress := rfl

/-- The size of a block only depends on its link to the next one and on the end
    of the heap. -/
theorem getBlockSize_congr (hn : s'.next x = s.next x) (he : s'.endAddress = s.endAddress) :
    s'.getBlockSize x = s.getBlockSize x := by
  rw [getBlockSize, getBlockSize, hn, he]

/-- A block from `x` to `e` has the bytes between its header and `e`. -/
theorem add_getBlockSize_of_end {e : ℕ} (hx : x ≠ 0)
    (hend : (if s.next x = 0 then s.endAddress else s.next x) = e) (he : e < 2 ^ 32)
    (hle : x + 12 ≤ e) : x + 12 + s.getBlockSize x = e := by
  rw [getBlockSize, if_neg hx]
  simp only [hend]
  rw [sizeofBlockHeader, u32Sub_of_le he (by omega), u32Sub_of_le (by omega) (by omega)]
  omega

@[simp] theorem getBlockSize_setFreeBlocks {l : FCVector ℕ 2048} :
    (s.setFreeBlocks l).getBlockSize x = s.getBlockSize x :=
  getBlockSize_congr rfl rfl

theorem getBlockSize_setUsed (h : Apart x a) :
    (s.setUsed a u).getBlockSize x = s.getBlockSize x :=
  getBlockSize_congr (next_setUsed h) rfl

/-! ## The binary search -/

/-- The unused blocks, in the order of the list. -/
abbrev freeList (s : State) : List ℕ := s.freeBlocks.toList

/-- The list of the unused blocks is sorted by size. -/
abbrev FreeSorted (s : State) : Prop := SortedBy s.getBlockSize s.freeList

/-- The midpoint is below the lower bound when its block is too small. -/
theorem lt_lowerBound_iff (hs : s.FreeSorted) (size : ℕ) {i : ℕ} (hi : i < s.freeBlocks.size) :
    i < lowerBound s.getBlockSize s.freeList size ↔
      s.getBlockSize (s.freeBlocks.array i) < size := by
  have hi' : i < s.freeList.length := by rwa [FCVector.length_toList]
  rw [hs.lt_lowerBound_iff hi', FCVector.getElem_toList]

/-- The loop of the binary search ends with the lower bound, when the fuel is
    at least the distance of its bounds. -/
theorem bisect_eq (hs : s.FreeSorted) {size fuel start stop : ℕ} (hstop : stop ≤ s.freeBlocks.size)
    (hlo : start < lowerBound s.getBlockSize s.freeList size)
    (hhi : lowerBound s.getBlockSize s.freeList size ≤ stop) (hf : stop - start ≤ fuel) :
    s.bisect size fuel start stop = some (lowerBound s.getBlockSize s.freeList size) := by
  induction fuel generalizing start stop with
  | zero => omega
  | succ fuel ih =>
    rw [bisect]
    by_cases hm : start = (start + stop) / 2
    · -- The bounds are next to each other, with the lower bound in between.
      rw [if_neg (not_not.2 hm)]
      exact congrArg some (by omega)
    · rw [if_pos hm]
      have hmid := lt_lowerBound_iff hs size (show (start + stop) / 2 < _ by omega)
      split_ifs with hlt
      · exact ih hstop (hmid.2 hlt) hhi (by omega)
      · exact ih (by omega) hlo (not_lt.1 (mt hmid.1 hlt)) (by omega)

/-- `findFirstGteFreeBlock`, with some fuel for its loop. -/
def search (s : State) (fuel size : ℕ) : Option ℕ :=
  if s.freeBlocks.size = 0 ∨ size ≤ s.getBlockSize (s.freeBlocks.array 0) then some 0
  else s.bisect size fuel 0 s.freeBlocks.size

/-- With as much fuel as there are blocks, the search ends, and finds the number of the
    blocks that are too small. -/
theorem search_eq (hs : s.FreeSorted) {fuel : ℕ} (hf : s.freeBlocks.size ≤ fuel) (size : ℕ) :
    s.search fuel size = some (lowerBound s.getBlockSize s.freeList size) := by
  have hle : lowerBound s.getBlockSize s.freeList size ≤ s.freeBlocks.size := by
    rw [← FCVector.length_toList]
    exact lowerBound_le_length
  rw [search]
  split_ifs with h
  · -- The list is empty, or its first block is large enough.
    refine congrArg some ?_
    rcases h with h | h
    · omega
    · by_contra hne
      exact absurd h (not_le.2 ((lt_lowerBound_iff hs size (by omega)).1 (by omega)))
  · push Not at h
    exact bisect_eq hs le_rfl ((lt_lowerBound_iff hs size (by omega)).2 h.2) hle hf

/-- This is the fuel that the search is given. -/
theorem findFirstGteFreeBlock_of_search {size i : ℕ}
    (h : s.search s.freeBlocks.size size = some i) : s.findFirstGteFreeBlock size = i := by
  rw [search] at h
  rw [findFirstGteFreeBlock]
  split_ifs at h ⊢
  · exact Option.some_inj.1 h
  · rw [h]
    rfl

/-- The binary search finds the number of the blocks that are too small. -/
theorem findFirstGteFreeBlock_eq (hs : s.FreeSorted) (size : ℕ) :
    s.findFirstGteFreeBlock size = lowerBound s.getBlockSize s.freeList size :=
  findFirstGteFreeBlock_of_search (search_eq hs le_rfl size)

/-! ## Taking a block off the list -/

/-- The loop of `removeFreeBlock` takes off the first occurrence of the block,
    when it starts at or before it and everything in between has its size. -/
theorem removeFreeBlockFrom_of_mem {block blockSize i n j : ℕ} (hij : i ≤ j) (hjn : j < i + n)
    (hj : s.freeBlocks.array j = block) (hfirst : ∀ k < j, s.freeBlocks.array k ≠ block)
    (hsize : ∀ k, i ≤ k → k ≤ j → s.getBlockSize (s.freeBlocks.array k) = blockSize) :
    s.removeFreeBlockFrom block blockSize i n =
      (.ok (), s.setFreeBlocks (s.freeBlocks.remove j).2) := by
  induction n generalizing i with
  | zero => omega
  | succ n ih =>
    rw [removeFreeBlockFrom, if_pos (hsize i le_rfl hij).symm]
    rcases hij.lt_or_eq with hlt | rfl
    · rw [if_neg fun h => hfirst i hlt h.symm]
      exact ih hlt (by omega) fun k hk => hsize k (by omega)
    · rw [if_pos hj.symm]

theorem removeFreeBlockFrom_of_not_mem {block blockSize i n : ℕ}
    (h : ∀ k < i + n, s.freeBlocks.array k ≠ block) :
    s.removeFreeBlockFrom block blockSize i n = (.error .indexOutOfRange, s) := by
  induction n generalizing i with
  | zero => rfl
  | succ n ih =>
    have hi : block ≠ s.freeBlocks.array i := fun h' => h i (by omega) h'.symm
    rw [removeFreeBlockFrom, if_neg hi, ih fun k hk => h k (by omega), ite_self]

/-- A block of a sorted list is taken off it. -/
theorem removeFreeBlock_of_mem (hs : s.FreeSorted) {block : ℕ} (hb : block ∈ s.freeList) :
    ∃ l, s.removeFreeBlock block = (.ok (), s.setFreeBlocks l) ∧
      l.toList = s.freeList.erase block := by
  -- The first occurrence, at the index `j`.
  set j := s.freeList.idxOf block with hj
  have hjlt : j < s.freeList.length := List.idxOf_lt_length_iff.2 hb
  have hjsize : j < s.freeBlocks.size := by rwa [FCVector.length_toList] at hjlt
  have hget : s.freeBlocks.array j = block := by
    rw [← FCVector.getElem_toList _ hjlt]
    exact List.getElem_idxOf hjlt
  have hfirst : ∀ k < j, s.freeBlocks.array k ≠ block := fun k hk => by
    rw [← FCVector.getElem_toList _ (hk.trans hjlt)]
    simpa using List.not_of_lt_findIdx hk
  -- The search starts at or before it, and what it passes has the same size.
  have hlb : lowerBound s.getBlockSize s.freeList (s.getBlockSize block) ≤ j := by
    refine not_lt.1 fun h => lt_irrefl (s.getBlockSize block) ?_
    have := (lt_lowerBound_iff hs _ hjsize).1 h
    rwa [hget] at this
  have hsize : ∀ k, lowerBound s.getBlockSize s.freeList (s.getBlockSize block) ≤ k → k ≤ j →
      s.getBlockSize (s.freeBlocks.array k) = s.getBlockSize block := fun k hk hkj => by
    have hge := mt (lt_lowerBound_iff hs (s.getBlockSize block)
      (hkj.trans_lt hjsize)).2 (not_lt.2 hk)
    have hle : s.getBlockSize (s.freeBlocks.array k) ≤ s.getBlockSize (s.freeBlocks.array j) := by
      rcases hkj.lt_or_eq with hlt | rfl
      · have := List.pairwise_iff_getElem.1 hs k j (hlt.trans hjlt) hjlt hlt
        rwa [FCVector.getElem_toList, FCVector.getElem_toList] at this
      · exact le_rfl
    rw [hget] at hle
    exact le_antisymm hle (not_lt.1 hge)
  refine ⟨(s.freeBlocks.remove j).2, ?_, ?_⟩
  · rw [removeFreeBlock, findFirstGteFreeBlock_eq hs]
    exact removeFreeBlockFrom_of_mem hlb (by omega) hget hfirst hsize
  · rw [(FCVector.remove_of_lt hjsize).2, List.erase_eq_eraseIdx_of_idxOf hj.symm]

/-- A block which is not in the list is not found. -/
theorem removeFreeBlock_of_not_mem (hs : s.FreeSorted) {block : ℕ} (hb : block ∉ s.freeList) :
    s.removeFreeBlock block = (.error .indexOutOfRange, s) := by
  rw [removeFreeBlock]
  refine removeFreeBlockFrom_of_not_mem fun k hk h => hb ?_
  refine h ▸ s.freeBlocks.array_mem_toList ?_
  have : s.findFirstGteFreeBlock (s.getBlockSize block) ≤ s.freeBlocks.size := by
    rw [findFirstGteFreeBlock_eq hs, ← FCVector.length_toList]
    exact lowerBound_le_length
  omega

/-! ## Adding a block to the list -/

/-- A list that is not full gets the block, at the lower bound of its size. -/
theorem addFreeBlock_of_lt (hs : s.FreeSorted) (block : ℕ) (hlt : s.freeBlocks.size < 2048) :
    ∃ l, s.addFreeBlock block = s.setFreeBlocks l ∧ l.toList = s.freeList.insertIdx
      (lowerBound s.getBlockSize s.freeList (s.getBlockSize block)) block := by
  refine ⟨_, rfl, ?_⟩
  rw [findFirstGteFreeBlock_eq hs]
  refine (FCVector.insert_of_le block ?_ hlt).2
  rw [← FCVector.length_toList]
  exact lowerBound_le_length

/-- A full list is left as it is. -/
theorem addFreeBlock_of_full (hs : s.FreeSorted) (block : ℕ) (hf : ¬s.freeBlocks.size < 2048) :
    s.addFreeBlock block = s := by
  rw [addFreeBlock, FCVector.insert_of_full block ?_ hf]
  · rfl
  · rw [findFirstGteFreeBlock_eq hs, ← FCVector.length_toList]
    exact lowerBound_le_length

end State

end KessokuOS.MemoryManager
