import KessokuOS.MemoryManager.FreeList

/-!
# The search in the list of the unused blocks

`findFirstGteFreeBlock` bisects the list; its loop is given as much fuel as there are
blocks, and the indices it looks at are those of `inspected`. `removeFreeBlock` searches
by size as well, and goes on from there as long as the size is that of its block.

* `search_congr`: the search only depends on the blocks at the indices inspected, which
  are all in the list (`inspected_lt`);
* `findFirstGteFreeBlock_isLowerBound`: in a sorted list, it ends, with the number of the
  blocks that are too small;
* `removeFreeBlock_exact`: what is taken off a sorted list is the block asked for, and
  nothing else.
-/

namespace KessokuOS.MemoryManager

namespace State

variable (s : State)

/-- The indices that the loop of the search looks at. -/
def bisectInspected (size : ℕ) : (fuel start stop : ℕ) → List ℕ
  | 0, _, _ => []
  | fuel + 1, start, stop =>
    let midpoint := (start + stop) / 2
    if start ≠ midpoint then
      midpoint ::
        if s.getBlockSize (s.freeBlocks.array midpoint) < size then
          bisectInspected size fuel midpoint stop
        else bisectInspected size fuel start midpoint
    else []

/-- The indices that the search looks at, of which the first one is only looked at if the
    list is not empty. -/
def inspected (fuel size : ℕ) : List ℕ :=
  if s.freeBlocks.size = 0 then []
  else
    0 :: if size ≤ s.getBlockSize (s.freeBlocks.array 0) then []
    else s.bisectInspected size fuel 0 s.freeBlocks.size

variable {s} {s' : State} {fuel size start stop : ℕ}

/-! ## What the search looks at -/

theorem bisectInspected_lt (h : start ≤ stop) (hstop : stop ≤ s.freeBlocks.size) :
    ∀ i ∈ s.bisectInspected size fuel start stop, i < s.freeBlocks.size := by
  induction fuel generalizing start stop with
  | zero => exact fun i hi => absurd hi List.not_mem_nil
  | succ fuel ih =>
    rw [bisectInspected]
    intro i hi
    split_ifs at hi with hm hlt
    · rcases List.mem_cons.1 hi with rfl | hi
      · omega
      · exact ih (by omega) hstop i hi
    · rcases List.mem_cons.1 hi with rfl | hi
      · omega
      · exact ih (by omega) (by omega) i hi
    · exact absurd hi List.not_mem_nil

/-- However long the search goes on, it looks at no index behind the list. -/
theorem inspected_lt : ∀ i ∈ s.inspected fuel size, i < s.freeBlocks.size := by
  intro i hi
  rw [inspected] at hi
  split_ifs at hi with hempty hle
  · exact absurd hi List.not_mem_nil
  · rw [List.mem_singleton.1 hi]
    omega
  · rcases List.mem_cons.1 hi with rfl | hi
    · omega
    · exact bisectInspected_lt (Nat.zero_le _) le_rfl i hi

/-- The loop only depends on what it looks at. -/
theorem bisect_congr (h : ∀ i ∈ s.bisectInspected size fuel start stop,
    s'.getBlockSize (s'.freeBlocks.array i) = s.getBlockSize (s.freeBlocks.array i)) :
    s'.bisect size fuel start stop = s.bisect size fuel start stop := by
  induction fuel generalizing start stop with
  | zero => rfl
  | succ fuel ih =>
    rw [bisectInspected] at h
    rw [bisect, bisect]
    by_cases hm : start ≠ (start + stop) / 2
    · rw [if_pos hm] at h
      rw [if_pos hm, if_pos hm, h _ List.mem_cons_self]
      split_ifs at h ⊢
      · exact ih fun i hi => h i (List.mem_cons_of_mem _ hi)
      · exact ih fun i hi => h i (List.mem_cons_of_mem _ hi)
    · rw [if_neg hm, if_neg hm]

/-- The search only depends on the blocks at the indices it looks at, and their number. -/
theorem search_congr (hsize : s'.freeBlocks.size = s.freeBlocks.size)
    (h : ∀ i ∈ s.inspected fuel size,
      s'.getBlockSize (s'.freeBlocks.array i) = s.getBlockSize (s.freeBlocks.array i)) :
    s'.search fuel size = s.search fuel size := by
  rw [inspected] at h
  rw [search, search, hsize]
  by_cases hempty : s.freeBlocks.size = 0
  · rw [if_pos (.inl hempty), if_pos (.inl hempty)]
  · rw [if_neg hempty] at h
    rw [h 0 List.mem_cons_self]
    split_ifs with hle
    · rfl
    · rw [if_neg fun hle' => hle (.inr hle')] at h
      exact bisect_congr fun i hi => h i (List.mem_cons_of_mem _ hi)

/-! ## What the search finds -/

/-- In a sorted list of any length: the search ends, looks at nothing behind the list, as it
    only depends on what is at the indices inspected, and finds the number of the blocks that
    are too small, which is the least index of one that is not, or the number of all blocks. -/
theorem findFirstGteFreeBlock_isLowerBound (hs : s.FreeSorted) (size : ℕ) :
    (∀ fuel, s.freeBlocks.size ≤ fuel →
      s.search fuel size = some (s.findFirstGteFreeBlock size)) ∧
    (∀ fuel, ∀ i ∈ s.inspected fuel size, i < s.freeBlocks.size) ∧
    (∀ fuel, ∀ s' : State, s'.freeBlocks.size = s.freeBlocks.size →
      (∀ i ∈ s.inspected fuel size,
        s'.getBlockSize (s'.freeBlocks.array i) = s.getBlockSize (s.freeBlocks.array i)) →
      s'.search fuel size = s.search fuel size) ∧
    s.findFirstGteFreeBlock size = s.freeList.countP (fun block => s.getBlockSize block < size) ∧
    IsLeast {i | ∀ hi : i < s.freeList.length, size ≤ s.getBlockSize s.freeList[i]}
      (s.findFirstGteFreeBlock size) := by
  rw [findFirstGteFreeBlock_eq hs]
  exact ⟨fun fuel hf => search_eq hs hf size, fun fuel => inspected_lt,
    fun fuel s' hsize h => search_congr hsize h, rfl, hs.isLeast_lowerBound⟩

/-- Three unused blocks of 20 bytes. -/
def threeBlocks : State where
  mem := Memory.store (Memory.store (fun _ => 0) 0x1004 4 0x1020) 0x1024 4 0x1040
  memoryInfo := ⟨0x1000, 0x1000, 0x1060, ⟨fun i => 0x1000 + 0x20 * i, 3, by decide⟩, by decide⟩
  memoryRangeTable := ⟨fun _ => ⟨0, 0⟩, 0⟩

theorem freeSorted_threeBlocks : threeBlocks.FreeSorted := by
  rw [FreeSorted, SortedBy]
  decide +kernel

theorem findFirstGteFreeBlock_isLowerBound_sample :
    threeBlocks.findFirstGteFreeBlock 21 = 3 ∧ threeBlocks.search 5 21 = some 3 := by
  obtain ⟨hsearch, -, -, hcount, -⟩ := findFirstGteFreeBlock_isLowerBound freeSorted_threeBlocks 21
  have hthree : threeBlocks.findFirstGteFreeBlock 21 = 3 := hcount.trans (by decide +kernel)
  exact ⟨hthree, hthree ▸ hsearch 5 (by decide)⟩

/-! ## What is taken off -/

/-- An element that is in a list once is the only one that its removal takes off. -/
theorem erase_eq_filter {l : List ℕ} {a : ℕ} (h : l.count a = 1) :
    l.erase a = l.filter (· ≠ a) := by
  induction l with
  | nil => rfl
  | cons b l ih =>
    by_cases hb : b = a
    · subst hb
      have hnot : b ∉ l := by
        rw [List.count_cons_self, Nat.add_eq_right] at h
        exact List.count_eq_zero.1 h
      have hself : l.filter (· ≠ b) = l :=
        List.filter_eq_self.2 fun x hx => decide_eq_true fun hxb => hnot (hxb ▸ hx)
      rw [List.erase_cons_head, List.filter_cons_of_neg (by simp), hself]
    · rw [List.count_cons_of_ne hb] at h
      rw [List.erase_cons_tail (by simpa using hb), List.filter_cons_of_pos (by simpa using hb),
        ih h]

/-- From a sorted list of any length, with any number of blocks of the same size: a block
    that is in it once is taken off, and nothing else; one that is not in it is not found,
    and nothing is changed. -/
theorem removeFreeBlock_exact (hs : s.FreeSorted) (block : ℕ) :
    (s.freeList.count block = 1 →
      ∃ l, s.removeFreeBlock block = (.ok (), s.setFreeBlocks l) ∧
        l.toList = s.freeList.filter (· ≠ block)) ∧
    (block ∉ s.freeList → s.removeFreeBlock block = (.error .indexOutOfRange, s)) := by
  refine ⟨fun hcount => ?_, removeFreeBlock_of_not_mem hs⟩
  have hmem : block ∈ s.freeList := List.count_pos_iff.1 (by omega)
  obtain ⟨l, hl, herase⟩ := removeFreeBlock_of_mem hs hmem
  exact ⟨l, hl, herase.trans (erase_eq_filter hcount)⟩

/-- The second of three blocks of the same size. -/
theorem removeFreeBlock_exact_sample :
    ∃ l, threeBlocks.removeFreeBlock 0x1020 = (.ok (), threeBlocks.setFreeBlocks l) ∧
      l.toList = [0x1000, 0x1040] := by
  obtain ⟨l, hl, hlist⟩ :=
    (removeFreeBlock_exact freeSorted_threeBlocks 0x1020).1 (by decide +kernel)
  exact ⟨l, hl, hlist.trans (by decide +kernel)⟩

end State

end KessokuOS.MemoryManager
