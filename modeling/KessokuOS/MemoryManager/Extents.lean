import KessokuOS.MemoryManager.WellFormed

/-!
# The extents of the blocks

What a heap is made of, its links and its list left out: the extents of its
blocks, in the order of their addresses (`State.extents`). In these terms,
`free` is an operation on a list: the freed extent and its unused neighbours
become one (`freed`).

* `extents_freed`: the extents of a heap in which a block and its unused
  neighbours have been replaced by a block are those that `freed` gives;
* `free_extents`: `free` succeeds on a used block of any well-formed heap whose
  list is not full, keeps it well formed, and does to its extents what `freed` does.
-/

namespace KessokuOS.MemoryManager

variable {s s' : State} {base b c m kernelEnd : ℕ} {bs bs' l r l' r' : List ℕ}

/-- The bytes of a block, from its header to what follows it, and whether it is
    used. -/
structure Extent where
  start : ℕ
  stop : ℕ
  used : Bool
deriving DecidableEq

namespace Extent

/-- The last of the extents, if it is unused. -/
def unusedLast (l : List Extent) : Option Extent := l.getLast?.filter fun e => !e.used

/-- The first of the extents, if it is unused. -/
def unusedHead (r : List Extent) : Option Extent := r.head?.filter fun e => !e.used

/-- The extents `l`, `e` and `r`, once `e` has been freed: it is one unused extent
    with its unused neighbours, and the others are as they were. -/
def freed (l : List Extent) (e : Extent) (r : List Extent) : List Extent :=
  l.take (l.length - (unusedLast l).toList.length) ++
    ⟨((unusedLast l).getD e).start, ((unusedHead r).getD e).stop, false⟩ ::
      r.drop (unusedHead r).toList.length

end Extent

open Extent

namespace State

/-- The extent of the block `b`. -/
def extent (s : State) (b : ℕ) : Extent := ⟨b, b + sizeofBlockHeader + s.getBlockSize b, s.used b⟩

/-- The extents of the blocks `bs`. -/
def extents (s : State) (bs : List ℕ) : List Extent := bs.map s.extent

end State

/-! ## Unused neighbours -/

theorem unusedHead_extents_of_used (h : ∀ c ∈ r.head?, s.used c = true) :
    unusedHead (s.extents r) = none := by
  cases r with
  | nil => rfl
  | cons c r =>
    have hc : s.used c = true := h c rfl
    rw [unusedHead, State.extents, List.map_cons, List.head?_cons, Option.filter_eq_none_iff]
    simp [State.extent, hc]

theorem unusedHead_extents_cons (h : s.used c = false) :
    unusedHead (s.extents (c :: r)) = some (s.extent c) := by
  rw [unusedHead, State.extents, List.map_cons, List.head?_cons, Option.filter_eq_some_iff]
  simp [State.extent, h]

theorem unusedLast_extents_of_used (h : ∀ a ∈ l.getLast?, s.used a = true) :
    unusedLast (s.extents l) = none := by
  rcases List.eq_nil_or_concat l with rfl | ⟨l, a, rfl⟩
  · rfl
  · have ha : s.used a = true := h a (by simp)
    rw [unusedLast, State.extents, List.concat_eq_append, List.map_append, List.map_singleton,
      List.getLast?_concat, Option.filter_eq_none_iff]
    simp [State.extent, ha]

theorem unusedLast_extents_concat (h : s.used m = false) :
    unusedLast (s.extents (l ++ [m])) = some (s.extent m) := by
  rw [unusedLast, State.extents, List.map_append, List.map_singleton, List.getLast?_concat,
    Option.filter_eq_some_iff]
  simp [State.extent, h]

/-! ## Freeing -/

/-- A block ends where what follows it begins. -/
theorem Layout.extent_eq (h : Layout s base (l ++ b :: r)) :
    s.extent b = ⟨b, r.headD s.endAddress, s.used b⟩ := by
  rw [State.extent, sizeofBlockHeader, h.add_getBlockSize]

/-- The extents of a heap in which the block `b` and its unused neighbours have been
    replaced by the block `m`. -/
theorem extents_freed (h : Layout s base (l ++ b :: r)) (h' : Layout s' base (l' ++ m :: r'))
    (hend : s'.endAddress = s.endAddress) (hmu : s'.used m = false)
    (hother : ∀ x ∈ l' ++ r', s'.used x = s.used x ∧ s'.getBlockSize x = s.getBlockSize x)
    (hr : r' = r ∧ (∀ c ∈ r.head?, s.used c = true) ∨ ∃ c, r = c :: r' ∧ s.used c = false)
    (hl : l' = l ∧ m = b ∧ (∀ a ∈ l.getLast?, s.used a = true) ∨
      l = l' ++ [m] ∧ s.used m = false) :
    s'.extents (l' ++ m :: r') = freed (s.extents l) (s.extent b) (s.extents r) := by
  have hkeep : ∀ x ∈ l' ++ r', s'.extent x = s.extent x := fun x hx => by
    rw [State.extent, State.extent, (hother x hx).1, (hother x hx).2]
  have hkl : s'.extents l' = s.extents l' :=
    List.map_congr_left fun x hx => hkeep x (List.mem_append_left _ hx)
  have hkr : s'.extents r' = s.extents r' :=
    List.map_congr_left fun x hx => hkeep x (List.mem_append_right _ hx)
  -- To the left of the new extent, and where it starts.
  have hleft : (s.extents l).take
        ((s.extents l).length - (unusedLast (s.extents l)).toList.length) = s.extents l' ∧
      ((unusedLast (s.extents l)).getD (s.extent b)).start = m := by
    rcases hl with ⟨rfl, rfl, hl⟩ | ⟨rfl, hm⟩
    · rw [unusedLast_extents_of_used hl]
      exact ⟨List.take_length, rfl⟩
    · rw [unusedLast_extents_concat hm]
      refine ⟨?_, rfl⟩
      rw [State.extents, State.extents, List.map_append]
      exact List.take_left' (by simp)
  -- To its right, and where it ends.
  have hright : (s.extents r).drop (unusedHead (s.extents r)).toList.length = s.extents r' ∧
      ((unusedHead (s.extents r)).getD (s.extent b)).stop = r'.headD s.endAddress := by
    rcases hr with ⟨rfl, hr⟩ | ⟨c, rfl, hc⟩
    · rw [unusedHead_extents_of_used hr]
      exact ⟨rfl, congrArg Extent.stop h.extent_eq⟩
    · have hc' : Layout s base ((l ++ [b]) ++ c :: r') := by simpa using h
      rw [unusedHead_extents_cons hc]
      exact ⟨rfl, congrArg Extent.stop hc'.extent_eq⟩
  rw [freed, hleft.1, hleft.2, hright.1, hright.2, State.extents, List.map_append, List.map_cons,
    h'.extent_eq, hend, hmu, ← hkl, ← hkr]
  rfl

/-- Freeing a used block of a well-formed heap whose list is not full succeeds, and
    keeps it well formed. The block and its unused neighbours become one unused
    block, of all their bytes, and the others are as they were. -/
theorem free_extents (h : WellFormedOf s (heapBaseAddress kernelEnd) (l ++ b :: r))
    (hu : s.used b = true) (hlt : s.freeBlocks.size < 2048) :
    ∃ s' bs', s.free (b + sizeofBlockHeader) = (.ok (), s') ∧
      WellFormedOf s' (heapBaseAddress kernelEnd) bs' ∧
      s'.extents bs' = freed (s.extents l) (s.extent b) (s.extents r) := by
  have hpos := heapBaseAddress_pos kernelEnd
  obtain ⟨s', l', r', m, heq, h', hend, hmu, hother, hr, hl⟩ := h.free hpos hu (.inl hlt)
  refine ⟨s', l' ++ m :: r', heq, h', ?_⟩
  exact extents_freed ((wellFormedOf_iff hpos).1 h).1.toLayout
    ((wellFormedOf_iff hpos).1 h').1.toLayout hend hmu hother hr hl

/-- The blocks found by following the links are determined by where they start. -/
theorem Chain.unique {a : ℕ} (h : Chain s a l) (h' : Chain s a r) : l = r := by
  induction h generalizing r with
  | nil =>
    cases h' with
    | nil => rfl
    | cons h₀ _ => exact absurd rfl h₀
  | cons h₀ _ ih =>
    cases h' with
    | nil => exact absurd rfl h₀
    | cons _ h' => rw [ih h']

theorem wellFormedOf_sampleHole : WellFormedOf sampleHole (heapBaseAddress sampleKernelEnd)
    ([0x102000] ++ 0x102034 :: [0x102044]) := by
  obtain ⟨bs, h⟩ := wellFormed_sampleHole
  have hc : Chain sampleHole sampleHole.baseNode [0x102000, 0x102034, 0x102044] := by
    rw [show sampleHole.baseNode = 0x102000 by decide +kernel]
    refine .cons (by decide +kernel) ?_
    rw [show sampleHole.next 0x102000 = 0x102034 by decide +kernel]
    refine .cons (by decide +kernel) ?_
    rw [show sampleHole.next 0x102034 = 0x102044 by decide +kernel]
    refine .cons (by decide +kernel) ?_
    rw [show sampleHole.next 0x102044 = 0 by decide +kernel]
    exact .nil
  rw [h.chain.unique hc] at h
  exact h

theorem fullyListed_sampleHole : FullyListed sampleHole [0x102000, 0x102034, 0x102044] :=
  wellFormedOf_sampleHole.fullyListed (heapBaseAddress_pos sampleKernelEnd)

/-- The block in use between two unused ones becomes one with both. -/
theorem free_extents_sample : ∃ s' bs',
    sampleHole.free (0x102034 + sizeofBlockHeader) = (.ok (), s') ∧
    WellFormedOf s' (heapBaseAddress sampleKernelEnd) bs' ∧
    s'.extents bs' = [⟨0x102000, 0x1020cc, false⟩] := by
  obtain ⟨s', bs', heq, h', hext⟩ :=
    free_extents wellFormedOf_sampleHole (by decide +kernel) (by decide +kernel)
  refine ⟨s', bs', heq, h', hext.trans ?_⟩
  decide +kernel

end KessokuOS.MemoryManager
