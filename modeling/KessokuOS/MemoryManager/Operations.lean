import Mathlib.Data.List.Nodup
import Mathlib.Data.List.Perm.Subperm
import KessokuOS.MemoryManager.Layout

/-!
# Allocation and freeing in a heap

What `malloc` and `free` do in a heap, case by case, with all that they keep.

* `Heap.malloc_cases`: `malloc` fails and changes nothing, or takes an unused
  block that is large enough, as a whole or with its end split off;
* `Heap.mergeNext_cases`, `Heap.mergePrev_cases`: each half of `free` fails and
  changes nothing, or leaves a heap in which the block and its neighbour are one
  if the neighbour is unused (`Merge`);
* `Heap.free_cases`: hence `free` does both and lists the block it ends with,
  or fails at a neighbour that is unused but not listed.
-/

namespace KessokuOS.MemoryManager

variable {s s' : State} {base b c m x size : ℕ} {bs bs' l r : List ℕ}

namespace State

/-- The unused block that serves a request of `size` bytes. -/
def mallocBlock (s : State) (size : ℕ) : Option ℕ :=
  if size = 0 ∨ s.baseNode = 0 then none
  else
    let i := s.findFirstGteFreeBlock (getSmallestGteMultiple size 4)
    if i < s.freeBlocks.size then some (s.freeBlocks.array i) else none

/-- The request of `size` bytes splits a block behind which there is another one. -/
def SplitsInside (s : State) (size : ℕ) : Prop :=
  ∃ b ∈ s.mallocBlock size,
    sizeofBlockHeader < u32Sub (s.getBlockSize b) (getSmallestGteMultiple size 4) ∧ s.next b ≠ 0

instance (s : State) (size : ℕ) : Decidable (s.SplitsInside size) :=
  inferInstanceAs (Decidable (∃ _ ∈ _, _))

theorem mallocBlock_eq_some_iff : s.mallocBlock size = some b ↔ size ≠ 0 ∧ s.baseNode ≠ 0 ∧
    s.findFirstGteFreeBlock (getSmallestGteMultiple size 4) < s.freeBlocks.size ∧
    s.freeBlocks.array (s.findFirstGteFreeBlock (getSmallestGteMultiple size 4)) = b := by
  rw [mallocBlock]
  by_cases h₀ : size = 0 ∨ s.baseNode = 0
  · rw [if_pos h₀]
    simp only [reduceCtorEq, false_iff, not_and]
    exact fun h₁ h₂ => absurd h₀ (not_or.2 ⟨h₁, h₂⟩)
  · rw [if_neg h₀]
    rw [not_or] at h₀
    simp only [Option.ite_none_right_eq_some, Option.some.injEq]
    exact ⟨fun h => ⟨h₀.1, h₀.2, h⟩, fun h => h.2.2⟩

/-- A request without such a block fails and changes nothing. -/
theorem malloc_of_none (h : s.mallocBlock size = none) : ∃ e, s.malloc size = (.error e, s) := by
  rw [malloc]
  by_cases h₀ : size = 0
  · exact ⟨_, if_pos h₀⟩
  by_cases hb : s.baseNode = 0
  · exact ⟨_, by rw [if_neg h₀, if_pos hb]⟩
  rw [if_neg h₀, if_neg hb]
  refine ⟨_, if_neg fun hi => ?_⟩
  rw [mallocBlock_eq_some_iff.2 ⟨h₀, hb, hi, rfl⟩] at h
  exact Option.some_ne_none _ h

/-- The block that serves a request is taken off the list, and then split. -/
theorem malloc_of_some (hs : s.FreeSorted) (hn : s.freeList.Nodup)
    (h : s.mallocBlock size = some b) : b ∈ s.freeList ∧
      getSmallestGteMultiple size 4 ≤ s.getBlockSize b ∧ ∃ v, v.toList = s.freeList.erase b ∧
        s.malloc size = (.ok (u32 (b + sizeofBlockHeader)),
          ((s.setFreeBlocks v).setUsed b true).split b (getSmallestGteMultiple size 4)) := by
  obtain ⟨h₀, hb, hi, rfl⟩ := mallocBlock_eq_some_iff.1 h
  rw [malloc, if_neg h₀, if_neg hb]
  simp only [if_pos hi]
  set i := s.findFirstGteFreeBlock (getSmallestGteMultiple size 4) with hi'
  have hil : i < s.freeList.length := by rwa [FCVector.length_toList]
  refine ⟨s.freeBlocks.array_mem_toList hi, not_lt.1 fun hlt => ?_, _, ?_, rfl⟩
  · have := (lt_lowerBound_iff hs _ hi).2 hlt
    rw [← findFirstGteFreeBlock_eq hs] at this
    exact absurd this (lt_irrefl _)
  · rw [(FCVector.remove_of_lt hi).2, ← FCVector.getElem_toList _ hil, hn.erase_getElem]

/-- A list that has just lost a block is not full. -/
theorem size_lt_of_erase (hb : b ∈ s.freeList) {v : FCVector ℕ 2048}
    (hv : v.toList = s.freeList.erase b) : v.size < 2048 := by
  have hlen := List.length_erase_add_one hb
  have hle := s.freeBlocks.size_le
  rw [← hv, FCVector.length_toList, FCVector.length_toList] at hlen
  omega

theorem split_of_le {paddedSize : ℕ}
    (h : ¬sizeofBlockHeader < u32Sub (s.getBlockSize b) paddedSize) : s.split b paddedSize = s :=
  if_neg h

theorem split_of_lt {paddedSize : ℕ}
    (h : sizeofBlockHeader < u32Sub (s.getBlockSize b) paddedSize) :
    s.split b paddedSize = (s.carve b (u32 (b + sizeofBlockHeader + paddedSize))).addFreeBlock
      (u32 (b + sizeofBlockHeader + paddedSize)) :=
  if_pos h

/-- A block next to `b`, as its links lead to it, is unused. -/
def NeighbourUnused (s : State) (b : ℕ) : Prop :=
  (s.next b ≠ 0 ∧ s.used (s.next b) = false) ∨ (s.prev b ≠ 0 ∧ s.used (s.prev b) = false)

/-- The list has room for the block `b` when it is freed: it is not full, or loses a
    block that is merged with `b`. -/
def TakesBack (s : State) (b : ℕ) : Prop := s.freeBlocks.size < 2048 ∨ s.NeighbourUnused b

instance (s : State) (b : ℕ) : Decidable (s.NeighbourUnused b) :=
  inferInstanceAs (Decidable (_ ∨ _))

instance (s : State) (b : ℕ) : Decidable (s.TakesBack b) := inferInstanceAs (Decidable (_ ∨ _))

end State

/-! ## Allocation -/

namespace Heap

/-- The state in which the unused block `b` has been taken off the list. -/
theorem take (h : Heap s base bs) (hb : b ∈ s.freeList) {v : FCVector ℕ 2048}
    (hv : v.toList = s.freeList.erase b) : Heap ((s.setFreeBlocks v).setUsed b true) base bs ∧
      ((s.setFreeBlocks v).setUsed b true).freeList = s.freeList.erase b ∧
      (∀ x ∈ bs, ((s.setFreeBlocks v).setUsed b true).getBlockSize x = s.getBlockSize x) ∧
      ((s.setFreeBlocks v).setUsed b true).used b = true ∧
      ∀ x, x ≠ b → ((s.setFreeBlocks v).setUsed b true).used x = s.used x := by
  have hbs : b ∈ bs := (h.listed b hb).1
  have hnot : b ∉ (s.setFreeBlocks v).freeList := by
    rw [State.freeList, State.freeBlocks_setFreeBlocks, hv]
    exact h.nodup_free.not_mem_erase
  have h₁ : Heap (s.setFreeBlocks v) base bs := h.erase (hv ▸ List.erase_sublist)
  refine ⟨h₁.setUsed hbs hnot true, hv, fun x hx => ?_, State.used_setUsed_self, fun x hx => ?_⟩
  · rw [State.getBlockSize_setUsed (h.apart hx hbs), State.getBlockSize_setFreeBlocks]
  · rw [State.used_setUsed_of_ne hx]
    rfl

/-- What splitting the last block `b`, which gets `paddedSize` bytes, has done: there
    is a new unused block `c` at the end, and the others are as they were. -/
structure SplitLast (s : State) (l : List ℕ) (b paddedSize c : ℕ) (s' : State) : Prop where
  endAddress_eq : s'.endAddress = s.endAddress
  new : c ∉ l ++ [b]
  new_unused : s'.used c = false
  room : s'.getBlockSize b = paddedSize
  used_eq : ∀ x ∈ l ++ [b], s'.used x = s.used x
  size_eq : ∀ x ∈ l, s'.getBlockSize x = s.getBlockSize x
  perm : s.freeBlocks.size < 2048 → s'.freeList.Perm (c :: s.freeList)

/-- The last block is split where it has room for more than a header. -/
theorem split_last (h : Heap s base (l ++ [b])) (hb : b ∉ s.freeList) {paddedSize : ℕ}
    (hp : paddedSize ≤ s.getBlockSize b)
    (hlt : sizeofBlockHeader < u32Sub (s.getBlockSize b) paddedSize) :
    ∃ c, Heap (s.split b paddedSize) base (l ++ [b, c]) ∧
      SplitLast s l b paddedSize c (s.split b paddedSize) := by
  have hend := s.endAddress_lt
  have hsize := h.add_getBlockSize
  rw [List.headD_nil] at hsize
  rw [State.split_of_lt hlt]
  -- `b` holds the padded size, so nothing wraps.
  rw [sizeofBlockHeader, u32Sub_of_le (by omega) hp] at hlt
  rw [u32_of_lt (show b + 12 + paddedSize < 2 ^ 32 by omega)]
  set c := b + 12 + paddedSize with hc
  have hbc : b + 12 ≤ c := Nat.le_add_right _ _
  have hce : c + 12 ≤ s.endAddress := by omega
  have hle : ∀ x ∈ l ++ [b], x + 12 ≤ c := fun x hx => h.add_le_of_mem_concat hbc hx
  have hnew : c ∉ l ++ [b] := fun hc' => by
    have := hle c hc'
    omega
  have h₁ := h.carve_last hb hbc hce
  have hcu : (s.carve b c).used c = false := State.used_carve_new (.inr (.inr hbc))
  obtain ⟨v, heq, h₂, hperm, -⟩ :=
    h₁.addFreeBlock (by simp) hcu fun hc' => hnew (h.listed c hc').1
  rw [heq]
  have hsizes := h.toLayout.getBlockSize_carve_last hbc hce
  refine ⟨c, h₂, rfl, hnew, hcu, ?_, fun x hx => ?_, fun x hx => ?_, hperm⟩
  · rw [State.getBlockSize_setFreeBlocks]
    omega
  · exact State.used_carve_of_ne (h.apart hx (by simp)) (.inr (.inl (hle x hx))) fun hxc =>
      hnew (hxc ▸ hx)
  · rw [State.getBlockSize_setFreeBlocks, hsizes.1 x hx]

/-- What a successful request of `size` bytes that does not split a block inside
    the heap has done: the block `b` is used and has room enough, the others are
    as they were, and there may be a new unused block at the end. -/
structure Allocated (s : State) (bs : List ℕ) (size b : ℕ) (s' : State) (bs' : List ℕ) :
    Prop where
  endAddress_eq : s'.endAddress = s.endAddress
  mem_free : b ∈ s.freeList
  used : s'.used b = true
  room : getSmallestGteMultiple size 4 ≤ s'.getBlockSize b
  used_eq : ∀ x ∈ bs, x ≠ b → s'.used x = s.used x
  size_eq : ∀ x ∈ bs, x ≠ b → s'.getBlockSize x = s.getBlockSize x
  cases : bs' = bs ∧ s'.freeList = s.freeList.erase b ∨
    ∃ l c, bs = l ++ [b] ∧ bs' = l ++ [b, c] ∧ c ∉ bs ∧ s'.used c = false ∧
      s'.freeList.Perm (c :: s.freeList.erase b)

/-- A request that does not split a block inside the heap fails and changes
    nothing, or leaves a heap in which it is served. -/
theorem malloc_cases (h : Heap s base bs) (hns : ¬s.SplitsInside size) :
    (∃ e, s.malloc size = (.error e, s)) ∨ ∃ b s' bs', s.malloc size = (.ok (b + 12), s') ∧
      Heap s' base bs' ∧ Allocated s bs size b s' bs' := by
  cases hm : s.mallocBlock size with
  | none => exact .inl (State.malloc_of_none hm)
  | some b =>
    obtain ⟨hb, hle, v, hv, heq⟩ := State.malloc_of_some h.sorted h.nodup_free hm
    have hbs : b ∈ bs := (h.listed b hb).1
    have hlt : b + 12 < 2 ^ 32 := (h.le_of_mem hbs).2.trans_lt s.endAddress_lt
    rw [u32_of_lt hlt] at heq
    obtain ⟨h₁, hf₁, hsize₁, hused₁, hother₁⟩ := h.take hb hv
    set s₁ := (s.setFreeBlocks v).setUsed b true with hs₁
    set p := getSmallestGteMultiple size 4 with hp
    refine .inr ⟨b, s₁.split b p, ?_⟩
    by_cases hsplit : sizeofBlockHeader < u32Sub (s₁.getBlockSize b) p
    · -- The block is split, hence it is the last one.
      obtain ⟨l, r, rfl⟩ := List.append_of_mem hbs
      obtain rfl : r = [] := by
        cases r with
        | nil => rfl
        | cons d r =>
          refine absurd ⟨b, hm, hsize₁ b hbs ▸ hsplit, ?_⟩ hns
          rw [h.next_eq]
          exact (h.pos_of_mem (x := d) (by simp)).ne'
      rw [← hsize₁ b hbs] at hle
      obtain ⟨c, h₂, hc⟩ := h₁.split_last (hf₁ ▸ h.nodup_free.not_mem_erase) hle hsplit
      refine ⟨l ++ [b, c], heq, h₂, hc.endAddress_eq, hb, (hc.used_eq b hbs).trans hused₁,
        hc.room.ge,
        fun x hx hxb => (hc.used_eq x hx).trans (hother₁ x hxb), fun x hx hxb => ?_,
        .inr ⟨l, c, rfl, rfl, hc.new, hc.new_unused, hf₁ ▸ hc.perm ?_⟩⟩
      · have hxl : x ∈ l := (List.mem_append.1 hx).resolve_right fun hx' =>
          hxb (List.mem_singleton.1 hx')
        rw [hc.size_eq x hxl, hsize₁ x hx]
      · exact State.size_lt_of_erase hb hv
    · -- The whole block is taken.
      rw [State.split_of_le hsplit] at heq ⊢
      exact ⟨bs, heq, h₁, rfl, hb, hused₁, (hsize₁ b hbs).symm ▸ hle,
        fun x _ hx => hother₁ x hx, fun x hx _ => hsize₁ x hx, .inl ⟨rfl, hf₁⟩⟩

end Heap

/-! ## Merging -/

/-- The block `n` of the blocks `bs` has been merged with unused blocks, and is
    now part of the block `m`, which is not listed. The other blocks that are
    left, `bs'`, are as they were. -/
structure Merge (s : State) (bs : List ℕ) (n : ℕ) (s' : State) (bs' : List ℕ) (m : ℕ) : Prop where
  endAddress_eq : s'.endAddress = s.endAddress
  length_free_le : s'.freeList.length ≤ s.freeList.length
  sublist : bs'.Sublist bs
  mem : m ∈ bs'
  origin : m = n ∨ m ∈ s.freeList
  gone : n ∈ bs' → n = m
  kept : ∀ x ∈ bs, x ∉ s.freeList → x ≠ n → x ∈ bs'
  free_iff : ∀ x, x ∈ s'.freeList ↔ x ∈ s.freeList ∧ x ∈ bs' ∧ x ≠ m
  used_eq : ∀ x ∈ bs', s'.used x = s.used x
  size_eq : ∀ x ∈ bs', x ≠ m → s'.getBlockSize x = s.getBlockSize x
  size_le : s.getBlockSize m ≤ s'.getBlockSize m

namespace Merge

variable {n : ℕ}

/-- Nothing merged. -/
theorem refl (h : Heap s base bs) (hn : n ∈ bs) (hf : n ∉ s.freeList) : Merge s bs n s bs n :=
  ⟨rfl, le_rfl, List.Sublist.refl _, hn, .inl rfl, fun _ => rfl, fun _ hx _ _ => hx,
    fun x => ⟨fun hx => ⟨hx, (h.listed x hx).1, fun hxn => hf (hxn ▸ hx)⟩, fun hx => hx.1⟩,
    fun _ _ => rfl, fun _ _ _ => rfl, le_rfl⟩

/-- Merging further a block that kept its address. -/
theorem trans {s'' : State} {bs'' : List ℕ} (h : Merge s bs n s' bs' n)
    (h' : Merge s' bs' n s'' bs'' m) : Merge s bs n s'' bs'' m where
  endAddress_eq := h'.endAddress_eq.trans h.endAddress_eq
  length_free_le := h'.length_free_le.trans h.length_free_le
  sublist := h'.sublist.trans h.sublist
  mem := h'.mem
  origin := h'.origin.imp_right fun hm => ((h.free_iff m).1 hm).1
  gone := h'.gone
  kept x hx hf hxn := h'.kept x (h.kept x hx hf hxn) (fun hf' => hf ((h.free_iff x).1 hf').1) hxn
  free_iff x := by
    rw [h'.free_iff, h.free_iff]
    constructor
    · rintro ⟨⟨hf, _, _⟩, hx, hxm⟩
      exact ⟨hf, hx, hxm⟩
    · rintro ⟨hf, hx, hxm⟩
      exact ⟨⟨hf, h'.sublist.subset hx, fun hxn => hxm (hxn ▸ h'.gone (hxn ▸ hx))⟩, hx, hxm⟩
  used_eq x hx := (h'.used_eq x hx).trans (h.used_eq x (h'.sublist.subset hx))
  size_eq x hx hxm := (h'.size_eq x hx hxm).trans
    (h.size_eq x (h'.sublist.subset hx) fun hxn => hxm (hxn ▸ h'.gone (hxn ▸ hx)))
  size_le := by
    refine le_trans ?_ h'.size_le
    by_cases hmn : m = n
    · exact hmn ▸ h.size_le
    · exact (h.size_eq m (h'.sublist.subset h'.mem) hmn).ge

/-- Merging a listed block shortens the list. -/
theorem length_free_lt (h : Merge s bs n s' bs' m) (hs : s'.freeList.Nodup) (hx : x ∈ s.freeList)
    (hgone : x ∉ bs' ∨ x = m) : s'.freeList.length < s.freeList.length := by
  have hsub : s'.freeList ⊆ s.freeList.erase x := fun y hy => by
    obtain ⟨hyf, hyb, hym⟩ := (h.free_iff y).1 hy
    refine (List.mem_erase_of_ne ?_).2 hyf
    rintro rfl
    exact hgone.elim (fun hyn => hyn hyb) hym
  have hle := (List.subperm_of_subset hs hsub).length_le
  have hlen := List.length_erase_add_one hx
  omega

end Merge

namespace State

/-- The assignments of the first half of `free`. -/
theorem mergeNext_eq (hn : s.next b = c) :
    (let s := s.setNext b (s.next (s.next b))
      if s.next b ≠ 0 then (.ok (), s.setPrev (s.next b) b) else (.ok (), s)) =
      ((.ok (), s.absorb b c) : ErrorOr Unit × State) := by
  -- The link that is read again is the one just assigned.
  have hself : (s.setNext b (s.next c)).next b = s.next c := next_setNext_self (s.next_lt c)
  simp only [hn, hself, absorb]
  by_cases h₀ : s.next c ≠ 0
  · simp only [if_pos h₀]
  · simp only [if_neg h₀]

/-- The assignments of the second half of `free`, which do not change the links
    of `c`. -/
theorem mergePrev_eq (hp : s.prev c = b) (hb : Apart c b) (hbc : c ≠ b)
    (hn : s.next c ≠ 0 → Apart c (s.next c)) (hcn : c ≠ s.next c) :
    (let s := s.setNext (s.prev c) (s.next c)
      let s := if s.next c ≠ 0 then s.setPrev (s.next c) (s.prev c) else s
      (.ok (s.prev c), s)) = ((.ok b, s.absorb b c) : ErrorOr ℕ × State) := by
  have hnext : (s.setNext b (s.next c)).next c = s.next c := next_setNext_of_ne hb hbc
  have hprev : (s.setNext b (s.next c)).prev c = b := by rw [prev_setNext hb, hp]
  simp only [hp, hnext, hprev, absorb]
  by_cases h₀ : s.next c ≠ 0
  · simp only [if_pos h₀, prev_setPrev_of_ne (hn h₀) hcn, hprev]
  · simp only [if_neg h₀, hprev]

end State

namespace Heap

/-- Absorbing the block behind it, when one of both has been taken off the list
    and the other one, `n`, was not on it. -/
theorem merge {d n : ℕ} (h : Heap s base (l ++ b :: c :: r)) (hd : d ∈ s.freeList)
    (hn : n ∉ s.freeList) (hdn : d = b ∧ n = c ∨ d = c ∧ n = b) {v : FCVector ℕ 2048}
    (hv : v.toList = s.freeList.erase d) :
    Heap ((s.setFreeBlocks v).absorb b c) base (l ++ b :: r) ∧
      Merge s (l ++ b :: c :: r) n ((s.setFreeBlocks v).absorb b c) (l ++ b :: r) b := by
  have h₁ : Heap (s.setFreeBlocks v) base (l ++ b :: c :: r) := h.erase (hv ▸ List.erase_sublist)
  have hmem : ∀ x, x ∈ (s.setFreeBlocks v).freeList ↔ x ≠ d ∧ x ∈ s.freeList := fun x => by
    rw [State.freeList, State.freeBlocks_setFreeBlocks, hv, h.nodup_free.mem_erase_iff]
  have hnot : ∀ x, x = b ∨ x = c → x ∉ (s.setFreeBlocks v).freeList := fun x hx => by
    rw [hmem, not_and]
    grind
  have hf : ((s.setFreeBlocks v).absorb b c).freeList = (s.setFreeBlocks v).freeList := by
    rw [State.freeList, State.freeBlocks, State.memoryInfo_absorb]
  have hbs : ∀ x ∈ l ++ b :: r, x ∈ l ++ b :: c :: r := fun x hx => by grind
  have hnd : c ∉ l ++ b :: r := by
    have := (show Layout s base ((l ++ [b]) ++ c :: r) by simpa using h.toLayout).not_mem
    grind
  refine ⟨h₁.absorb (hnot b (.inl rfl)) (hnot c (.inr rfl)), ?_, ?_, ?_, by simp, ?_, ?_, ?_, ?_,
    ?_, ?_, h₁.toLayout.getBlockSize_absorb.2⟩
  · rw [State.endAddress, State.memoryInfo_absorb]
    rfl
  · rw [hf, State.freeList, State.freeBlocks_setFreeBlocks, hv]
    exact List.length_erase_le
  · simp
  · grind
  · grind
  · grind
  · intro x
    have := h.listed x
    rw [hf, hmem]
    grind
  · intro x hx
    exact h₁.toLayout.used_absorb (hbs x hx)
  · intro x hx hxb
    exact h₁.toLayout.getBlockSize_absorb.1 x (by grind)

/-- The first half of `free` fails at a block behind `b` which is unused and not
    listed. Otherwise it makes that block a part of `b`, if it is unused. -/
theorem mergeNext_cases (h : Heap s base (l ++ b :: r)) (hb : b ∉ s.freeList) :
    (s.mergeNext b = (.error .indexOutOfRange, s) ∧
      ∃ c ∈ r.head?, s.used c = false ∧ c ∉ s.freeList) ∨
    ∃ s' r', s.mergeNext b = (.ok (), s') ∧ Heap s' base (l ++ b :: r') ∧
      Merge s (l ++ b :: r) b s' (l ++ b :: r') b ∧
      (r' = r ∧ (∀ c ∈ r.head?, s.used c = true) ∨ ∃ c, r = c :: r' ∧ s.used c = false) := by
  have hnext := h.next_eq
  rw [State.mergeNext, hnext]
  cases r with
  | nil => exact .inr ⟨s, [], rfl, h, Merge.refl h (by simp) hb, .inl ⟨rfl, by simp⟩⟩
  | cons c r =>
    have hc₀ : c ≠ 0 := (h.pos_of_mem (by simp)).ne'
    rw [List.headD_cons]
    by_cases hu : s.used c = false
    swap
    · rw [if_neg fun h' => hu h'.2]
      refine .inr ⟨s, c :: r, rfl, h, Merge.refl h (by simp) hb, .inl ⟨rfl, fun d hd => ?_⟩⟩
      obtain rfl : c = d := by simpa using hd
      simpa using hu
    rw [if_pos ⟨hc₀, hu⟩]
    -- The block behind is unused; taking it off the list fails when it is not there.
    by_cases hf : c ∈ s.freeList
    · obtain ⟨v, hrem, hv⟩ := State.removeFreeBlock_of_mem h.sorted hf
      obtain ⟨h', hm⟩ := h.merge hf hb (.inr ⟨rfl, rfl⟩) hv
      refine .inr ⟨_, r, ?_, h', hm, .inr ⟨c, rfl, hu⟩⟩
      rw [hrem]
      exact State.mergeNext_eq (s := s.setFreeBlocks v) hnext
    · rw [State.removeFreeBlock_of_not_mem h.sorted hf]
      exact .inl ⟨rfl, c, by simp, hu, hf⟩

/-- The second half of `free` fails at a block before `b` which is unused and not
    listed. Otherwise it makes `b` a part of that block, if it is unused. -/
theorem mergePrev_cases (h : Heap s base (l ++ b :: r)) (hb : b ∉ s.freeList) :
    (s.mergePrev b = (.error .indexOutOfRange, s) ∧
      ∃ a ∈ l.getLast?, s.used a = false ∧ a ∉ s.freeList) ∨
    ∃ s' l' m, s.mergePrev b = (.ok m, s') ∧ Heap s' base (l' ++ m :: r) ∧
      Merge s (l ++ b :: r) b s' (l' ++ m :: r) m ∧
      (l' = l ∧ m = b ∧ (∀ a ∈ l.getLast?, s.used a = true) ∨
        l = l' ++ [m] ∧ s.used m = false) := by
  have hprev := h.prev_eq
  rw [State.mergePrev, hprev]
  rcases List.eq_nil_or_concat l with rfl | ⟨l, a, rfl⟩
  · exact .inr ⟨s, [], b, rfl, h, Merge.refl h (by simp) hb, .inl ⟨rfl, rfl, by simp⟩⟩
  · rw [List.concat_eq_append] at h hprev ⊢
    have h' : Heap s base (l ++ a :: b :: r) := by simpa using h
    have ha₀ : a ≠ 0 := (h'.pos_of_mem (by simp)).ne'
    rw [List.getLastD_concat] at hprev ⊢
    by_cases hu : s.used a = false
    swap
    · rw [if_neg fun h' => hu h'.2]
      refine .inr ⟨s, l ++ [a], b, rfl, h, Merge.refl h (by simp) hb, .inl ⟨rfl, rfl, ?_⟩⟩
      intro d hd
      obtain rfl : a = d := by simpa using hd
      simpa using hu
    rw [if_pos ⟨ha₀, hu⟩]
    by_cases hf : a ∈ s.freeList
    · obtain ⟨v, hrem, hv⟩ := State.removeFreeBlock_of_mem h.sorted hf
      obtain ⟨h'', hm⟩ := h'.merge hf hb (.inl ⟨rfl, rfl⟩) hv
      rw [List.append_assoc, List.singleton_append]
      refine .inr ⟨_, l, a, ?_, h'', hm, .inr ⟨rfl, hu⟩⟩
      have hbm : b ∈ l ++ a :: b :: r := by simp
      have hba : b ≠ a := fun hba => h'.not_mem.2 (by simp [← hba])
      rw [hrem]
      exact State.mergePrev_eq (s := s.setFreeBlocks v) hprev (h'.apart hbm (by simp)) hba
        (h'.apart_next hbm hbm) (h'.next_ne hbm).symm
    · rw [State.removeFreeBlock_of_not_mem h.sorted hf]
      exact .inl ⟨rfl, a, by simp, hu, hf⟩

/-! ## Freeing -/

/-- The unused neighbours of a block are those next to it in the heap. -/
theorem neighbourUnused_iff (h : Heap s base (l ++ b :: r)) : s.NeighbourUnused b ↔
    (∃ c ∈ r.head?, s.used c = false) ∨ ∃ a ∈ l.getLast?, s.used a = false := by
  rw [State.NeighbourUnused, h.next_eq, h.prev_eq]
  refine or_congr ?_ ?_
  · cases r with
    | nil => simp
    | cons c r => simpa using fun _ => (h.pos_of_mem (x := c) (by simp)).ne'
  · rcases List.eq_nil_or_concat l with rfl | ⟨l, a, rfl⟩
    · simp
    · simpa using fun _ => (h.pos_of_mem (x := a) (by simp)).ne'

/-- Freeing a used block merges it with its unused neighbours and lists the block
    it ends with, unless a neighbour is unused and not listed. It then fails, at
    most the block behind `b` having been merged. -/
theorem free_cases (h : Heap s base (l ++ b :: r)) (hu : s.used b = true) :
    (∃ e s' r', s.free (b + 12) = (.error e, s') ∧ Heap s' base (l ++ b :: r') ∧
      Merge (s.setUsed b false) (l ++ b :: r) b s' (l ++ b :: r') b ∧
      ∃ c ∈ l ++ b :: r, s.used c = false ∧ c ∉ s.freeList) ∨
    ∃ s' l' r' m v, s.free (b + 12) = (.ok (), s'.setFreeBlocks v) ∧ s'.freeList.Nodup ∧
      Heap (s'.setFreeBlocks v) base (l' ++ m :: r') ∧
      Merge (s.setUsed b false) (l ++ b :: r) b s' (l' ++ m :: r') m ∧
      v.toList ⊆ m :: s'.freeList ∧
      (s'.freeBlocks.size < 2048 → v.toList.Perm (m :: s'.freeList)) ∧
      (r' = r ∧ (∀ c ∈ r.head?, s.used c = true) ∨ ∃ c, r = c :: r' ∧ s.used c = false) ∧
      (l' = l ∧ m = b ∧ (∀ a ∈ l.getLast?, s.used a = true) ∨
        l = l' ++ [m] ∧ s.used m = false) := by
  have hb : b ∈ l ++ b :: r := by simp
  have hlt : b + 12 < 2 ^ 32 := (h.le_of_mem hb).2.trans_lt s.endAddress_lt
  have hf : b ∉ s.freeList := fun hf => absurd (h.listed b hf).2 (by simp [hu])
  have hnot := h.toLayout.not_mem
  have hother : ∀ x, x ≠ b → (s.setUsed b false).used x = s.used x := fun x hx =>
    State.used_setUsed_of_ne hx
  have hr : ∀ c ∈ r.head?, c ∈ r := fun c hc => List.mem_of_mem_head? hc
  have hl : ∀ a ∈ l.getLast?, a ∈ l := fun a ha => List.mem_of_mem_getLast? ha
  have hrb : ∀ c ∈ r, (s.setUsed b false).used c = s.used c := fun c hc =>
    hother c fun hcb => hnot.2 (hcb ▸ hc)
  have hlb : ∀ a ∈ l, (s.setUsed b false).used a = s.used a := fun a ha =>
    hother a fun hab => hnot.1 (hab ▸ ha)
  have h₁ := h.setUsed hb hf false
  rw [State.free, if_neg (by omega), sizeofBlockHeader, u32Sub_of_le hlt (by omega),
    Nat.add_sub_cancel]
  simp only [if_pos hu]
  -- First the block behind is merged, then the one before it; either may fail.
  rcases h₁.mergeNext_cases hf with ⟨heq, c, hc, hcu, hcf⟩ | ⟨s₂, r', heq, h₂, hm₂, hr'⟩
  · rw [heq]
    refine .inl ⟨_, _, r, rfl, h₁, Merge.refl h₁ hb hf, c, by simp [hr c hc], ?_, hcf⟩
    rw [← hrb c (hr c hc), hcu]
  rw [heq]
  have hf₂ : b ∉ s₂.freeList := fun hb' => hf ((hm₂.free_iff b).1 hb').1
  have hr'' : r' = r ∧ (∀ c ∈ r.head?, s.used c = true) ∨ ∃ c, r = c :: r' ∧ s.used c = false := by
    rcases hr' with ⟨rfl, hr'⟩ | ⟨c, rfl, hcu⟩
    · exact .inl ⟨rfl, fun c hc => (hrb c (hr c hc)).symm.trans (hr' c hc)⟩
    · exact .inr ⟨c, rfl, (hrb c (by simp)).symm.trans hcu⟩
  have hlb₂ : ∀ a ∈ l, s₂.used a = s.used a := fun a ha =>
    (hm₂.used_eq a (by simp [ha])).trans (hlb a ha)
  rcases h₂.mergePrev_cases hf₂ with ⟨heq₂, a, ha, hau, haf⟩ | ⟨s₃, l', m, heq₂, h₃, hm₃, hl'⟩
  · simp only [heq₂]
    have hal := hl a ha
    refine .inl ⟨_, _, r', rfl, h₂, hm₂, a, by simp [hal], (hlb₂ a hal).symm.trans hau,
      fun haf' => ?_⟩
    exact haf ((hm₂.free_iff a).2 ⟨haf', by simp [hal], fun hab => hnot.1 (hab ▸ hal)⟩)
  · simp only [heq₂]
    have hm := hm₂.trans hm₃
    have hmu : s₃.used m = false := by
      rw [hm.used_eq m hm.mem]
      rcases hm.origin with rfl | hmf
      · exact State.used_setUsed_self
      · exact (h₁.listed m hmf).2
    obtain ⟨v, heq₃, h₄, hperm, hsub⟩ :=
      h₃.addFreeBlock hm.mem hmu fun hmf => ((hm.free_iff m).1 hmf).2.2 rfl
    refine .inr ⟨s₃, l', r', m, v, by rw [heq₃], h₃.nodup_free, h₄, hm, hsub, hperm, hr'', ?_⟩
    rcases hl' with ⟨rfl, rfl, hl'⟩ | ⟨rfl, hmu'⟩
    · exact .inl ⟨rfl, rfl, fun a ha => (hlb₂ a (hl a ha)).symm.trans (hl' a ha)⟩
    · exact .inr ⟨rfl, (hlb₂ m (by simp)).symm.trans hmu'⟩

end Heap

/-! ## The initial heap -/

/-- A successful initialisation makes one unused block, if there is room for its
    header. -/
theorem heap_of_initializeManager {fuel kernelEnd : ℕ}
    (h : initializeManager fuel kernelEnd s = some (.ok (), s'))
    (hend : heapBaseAddress kernelEnd + 12 ≤ s'.endAddress) :
    Heap s' (heapBaseAddress kernelEnd) [heapBaseAddress kernelEnd] ∧
      s'.freeList = [heapBaseAddress kernelEnd] := by
  obtain ⟨⟨t, p⟩, -, h⟩ := Option.map_eq_some_iff.1 h
  dsimp only at h
  set a := heapBaseAddress kernelEnd with ha
  set s₁ : State := { s with memoryRangeTable := t } with hs₁
  have ha₀ : 0 < a := Nat.add_pos_right _ (by norm_num)
  by_cases hm : findRangeEnd t a 0 32 ≠ 0
  swap
  · rw [if_neg hm] at h
    exact absurd (congrArg Prod.fst h) (by simp)
  rw [if_pos hm] at h
  replace h := congrArg Prod.snd h
  dsimp only at h
  have hpush := (FCVector.pushBack_of_lt (v := (FCVector.new s.freeBlocks.array :
    FCVector ℕ 2048)) a (show 0 < 2048 by norm_num)).2
  have hf : s'.freeList = [a] := by rw [← h]; exact hpush
  -- The header of the block is the one just assigned.
  have hnext : (s₁.setHeader a 0 0 false).next a = 0 := by
    rw [State.setHeader, State.next_setUsed (.inl rfl), State.next_setNext_self (by norm_num)]
  have hprev : (s₁.setHeader a 0 0 false).prev a = 0 := by
    rw [State.setHeader, State.prev_setUsed (.inl rfl), State.prev_setNext (.inl rfl),
      State.prev_setPrev_self (by norm_num)]
  have hused : (s₁.setHeader a 0 0 false).used a = false := State.used_setUsed_self
  replace hnext : s'.next a = 0 := by rw [← h]; exact hnext
  replace hprev : s'.prev a = 0 := by rw [← h]; exact hprev
  have hmem : s'.mem = (s₁.setHeader a 0 0 false).mem := by rw [← h]
  replace hused : s'.used a = false := by
    unfold State.used at hused ⊢
    exact hmem ▸ hused
  refine ⟨⟨⟨ha₀, ?_, rfl, ?_, ?_⟩, ?_, ?_, fun x hx => ?_⟩, hf⟩
  · rw [← h]
  · refine List.isChain_cons_cons.2 ⟨⟨fun h₀ => absurd rfl h₀, fun _ => hprev⟩, ?_⟩
    exact List.isChain_pair.2 ⟨fun _ => hnext, fun h₀ => absurd rfl h₀⟩
  · exact List.pairwise_pair.2 hend
  · rw [hf]
    exact List.nodup_singleton a
  · rw [State.FreeSorted, hf]
    exact List.pairwise_singleton _ a
  · rw [hf, List.mem_singleton] at hx
    exact ⟨hx ▸ List.mem_singleton_self a, hx ▸ hused⟩

/-! ## A small heap -/

/-- The end of a kernel in a memory of little more than a megabyte. -/
def sampleKernelEnd : ℕ := 0x101f00

/-- That memory: the table of the bootloader has one usable range, of the bytes
    from `0x100000` to `0x1020cc`. -/
def sampleMemory : Memory :=
  ((Memory.store (fun _ => 0) 0x7000 8 0x100000).store 0x7008 8 0x20cc).store 0x7010 8 1

def sampleBoot : State where
  mem := sampleMemory
  memoryInfo := ⟨0, 0, 0, FCVector.new fun _ => 0, by norm_num⟩
  memoryRangeTable := ⟨fun _ => ⟨0, 0⟩, 0⟩

/-- The heap made there, of 204 bytes from `0x102000` on. -/
def sampleHeap : State :=
  ((initializeManager 2 sampleKernelEnd sampleBoot).map Prod.snd).getD sampleBoot

theorem initializeManager_sample :
    initializeManager 2 sampleKernelEnd sampleBoot = some (.ok (), sampleHeap) := rfl

end KessokuOS.MemoryManager
