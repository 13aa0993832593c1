import Mathlib.Data.List.Range
import KessokuOS.MemoryManager.Extents
import KessokuOS.MemoryManager.Safety

/-!
# Freeing into a full list

`free` does not look at the error of listing the block it ends with. When the
list is full, and no unused neighbour has left it before, the block is marked
unused and not listed (`FullyListed.free_full`): no request finds it any more.

* `keepsFreed_iff`: what is freed stays listed, or the call fails and changes
  nothing, exactly when the list has room for the block (`State.TakesBack`);
* `comb`: a heap whose list is full, with used blocks between the unused ones.
-/

namespace KessokuOS.MemoryManager

variable {s s' : State} {base b c m x : ℕ} {bs l r : List ℕ}

/-- The blocks of a chain are found by following the links. -/
theorem Chain.inChain {a : ℕ} (h : Chain s a l) (ha : a ≠ 0 → InChain s a) (hx : x ∈ l) :
    InChain s x := by
  induction h with
  | nil => exact absurd hx List.not_mem_nil
  | cons h₀ _ ih =>
    rcases List.mem_cons.1 hx with rfl | hx
    · exact ha h₀
    · exact ih (fun hn => .next (ha h₀) hn) hx

theorem FullyListed.inChain (h : FullyListed s bs) (hx : x ∈ bs) : InChain s x :=
  h.chain.inChain .base hx

/-- What `free` should do with the used block `b`. If it succeeds, the unused block
    that has the bytes of `b` now is listed. If it fails, it changes nothing. -/
structure KeepsFreed (s : State) (b : ℕ) : Prop where
  listed : ∀ s', s.free (b + sizeofBlockHeader) = (.ok (), s') → ∃ m ∈ s'.freeList,
    InChain s' m ∧ s'.used m = false ∧ m ≤ b ∧ b + s.getBlockSize b ≤ m + s'.getBlockSize m
  atomic : ∀ e s', s.free (b + sizeofBlockHeader) = (.error e, s') → s' = s

/-- The block that is freed where the list has no room for it is only marked unused. -/
theorem FullyListed.free_full (h : FullyListed s (l ++ b :: r)) (hu : s.used b = true)
    (ht : ¬s.TakesBack b) : s.free (b + 12) = (.ok (), s.setUsed b false) := by
  have hh := (fullyListed_iff.1 h).1
  have hb : b ∈ l ++ b :: r := by simp
  have hbf : b ∉ s.freeList := fun hb' => absurd ((h.mem_free_iff b).1 hb').2 (by simp [hu])
  have hlt : b + 12 < 2 ^ 32 := (hh.le_of_mem hb).2.trans_lt s.endAddress_lt
  have h₁ := hh.setUsed hb hbf false
  rw [State.TakesBack, State.NeighbourUnused, not_or, not_or] at ht
  obtain ⟨hfull, hnext, hprev⟩ := ht
  have hn : (s.setUsed b false).next b = s.next b := State.next_setUsed (.inl rfl)
  have hp : (s.setUsed b false).prev b = s.prev b := State.prev_setUsed (.inl rfl)
  -- The neighbours are not `b`, so their flags are as before.
  have hnu : ¬(s.next b ≠ 0 ∧ (s.setUsed b false).used (s.next b) = false) := fun hnu => by
    rw [State.used_setUsed_of_ne (hh.next_ne hb)] at hnu
    exact hnext hnu
  have hpu : ¬(s.prev b ≠ 0 ∧ (s.setUsed b false).used (s.prev b) = false) := fun hpu => by
    rw [State.used_setUsed_of_ne (hh.prev_ne hb)] at hpu
    exact hprev hpu
  have hmn : (s.setUsed b false).mergeNext b = (.ok (), s.setUsed b false) := by
    rw [State.mergeNext, hn, if_neg hnu]
  have hmp : (s.setUsed b false).mergePrev b = (.ok b, s.setUsed b false) := by
    rw [State.mergePrev, hp, if_neg hpu]
  rw [State.free, if_neg (by omega), sizeofBlockHeader, u32Sub_of_le hlt (by omega),
    Nat.add_sub_cancel]
  simp only [if_pos hu, hmn, hmp]
  rw [State.addFreeBlock_of_full h₁.sorted b hfull]

/-- The bytes of the freed block `b` are those of the block it ends in. -/
theorem le_of_freed {l' r' : List ℕ} (h : Layout s base (l ++ b :: r))
    (h' : Layout s' base (l' ++ m :: r')) (hend : s'.endAddress = s.endAddress)
    (hr : r' = r ∧ (∀ c ∈ r.head?, s.used c = true) ∨ ∃ c, r = c :: r' ∧ s.used c = false)
    (hl : l' = l ∧ m = b ∧ (∀ a ∈ l.getLast?, s.used a = true) ∨
      l = l' ++ [m] ∧ s.used m = false) :
    m ≤ b ∧ b + s.getBlockSize b ≤ m + s'.getBlockSize m := by
  have hsb := h.add_getBlockSize
  have hsm := h'.add_getBlockSize
  rw [hend] at hsm
  have hstop : r.headD s.endAddress ≤ r'.headD s.endAddress := by
    rcases hr with ⟨rfl, -⟩ | ⟨c, rfl, -⟩
    · exact le_rfl
    · have hc := (show Layout s base ((l ++ [b]) ++ c :: r') by simpa using h).add_getBlockSize
      rw [List.headD_cons]
      omega
  refine ⟨?_, by omega⟩
  rcases hl with ⟨-, rfl, -⟩ | ⟨rfl, -⟩
  · exact le_rfl
  · have := (show Layout s base (l' ++ m :: b :: r) by simpa using h).add_le (x := b) (by simp)
    omega

/-- Where the list has no room for the block that is freed, it is lost. -/
theorem FullyListed.not_keepsFreed (h : FullyListed s bs) (hb : b ∈ bs) (hu : s.used b = true)
    (ht : ¬s.TakesBack b) : ¬KeepsFreed s b := by
  obtain ⟨l, r, rfl⟩ := List.append_of_mem hb
  have hh := (fullyListed_iff.1 h).1
  intro hk
  have hbf : b ∉ s.freeList := fun hb' => absurd ((h.mem_free_iff b).1 hb').2 (by simp [hu])
  have h₁ := hh.setUsed hb hbf false
  obtain ⟨m, hm, -, -, hmb, hle⟩ := hk.listed _ (h.free_full hu ht)
  have hmbs : m ∈ l ++ b :: r := (h₁.listed m hm).1
  -- The listed block with the bytes of `b` would be `b`, which is not listed.
  have hne : b ≠ m := fun hbm => hbf (hbm ▸ hm)
  have hsep := h₁.separate hmbs hb hne.symm
  rw [State.getBlockSize_setUsed (hh.apart hmbs hb)] at hle hsep
  rw [State.getBlockSize_setUsed (hh.apart hb hb)] at hsep
  omega

/-- Freeing a used block keeps it listed exactly when the list has room for it: when
    it is not full, or a neighbour is unused. -/
theorem keepsFreed_iff (h : FullyListed s bs) (hb : b ∈ bs) (hu : s.used b = true) :
    KeepsFreed s b ↔ s.TakesBack b := by
  refine ⟨fun hk => by_contra fun ht => h.not_keepsFreed hb hu ht hk, fun ht => ?_⟩
  obtain ⟨l, r, rfl⟩ := List.append_of_mem hb
  have hh := (fullyListed_iff.1 h).1
  obtain ⟨s', l', r', m, heq, h', hbase, hend, hmu, -, hr, hl⟩ := h.free hu ht
  have hm : m ∈ l' ++ m :: r' := by simp
  refine ⟨fun t ht => ?_, fun e t ht => ?_⟩
  · obtain ⟨-, rfl⟩ := Prod.mk.inj (heq.symm.trans ht)
    exact ⟨m, (h'.mem_free_iff m).2 ⟨hm, hmu⟩, h'.inChain hm, hmu,
      le_of_freed hh.toLayout (hbase ▸ (fullyListed_iff.1 h').1.toLayout) hend hr hl⟩
  · exact absurd (congrArg Prod.fst (heq.symm.trans ht)) (by simp)

/-! ## A full list -/

namespace Comb

/-- The blocks lie one after the other, with 4 bytes each behind their headers. -/
def block (i : ℕ) : ℕ := 0x102000 + 16 * i

/-- Every other one of the first 4096 blocks is unused. -/
def used (i : ℕ) : Bool := i % 2 = 0 || 4096 ≤ i

/-- The byte `k` of the block `i`, of 4099 ones. -/
def byte (i k : ℕ) : Byte :=
  if k < 4 then Memory.byteOf (if i = 0 then 0 else block (i - 1)) k
  else if k < 8 then Memory.byteOf (if i = 4098 then 0 else block (i + 1)) (k - 4)
  else if k = 8 ∧ used i then 1 else 0

@[irreducible] def mem : Memory := fun x => byte ((x - 0x102000) / 16) ((x - 0x102000) % 16)

end Comb

open Comb

/-- A heap of 4099 blocks, 2048 of which are unused and listed. -/
def comb : State where
  mem := Comb.mem
  memoryInfo := ⟨block 0, block 0, block 4099, ⟨fun j => block (2 * j + 1), 2048, le_rfl⟩,
    by decide⟩
  memoryRangeTable := ⟨fun _ => ⟨0, 0⟩, 0⟩

namespace Comb

variable {i k : ℕ}

theorem comb_mem : comb.mem = Comb.mem := rfl

theorem mem_apply (x : ℕ) :
    Comb.mem x = byte ((x - 0x102000) / 16) ((x - 0x102000) % 16) := by
  unfold Comb.mem
  rfl

theorem mem_block (hk : k < 16) : Comb.mem (block i + k) = byte i k := by
  have hi : (block i + k - 0x102000) / 16 = i := by
    unfold block
    omega
  have hk' : (block i + k - 0x102000) % 16 = k := by
    unfold block
    omega
  rw [mem_apply, hi, hk']

theorem prev_block (hi : i < 4099) : comb.prev (block i) = if i = 0 then 0 else block (i - 1) := by
  rw [State.prev, Memory.load_of_byteOf (v := if i = 0 then 0 else block (i - 1))]
  · rw [Nat.mod_eq_of_lt]
    rw [block]
    split_ifs <;> omega
  · intro k hk
    rw [comb_mem, mem_block (by omega), byte, if_pos hk]

theorem next_block (hi : i < 4099) :
    comb.next (block i) = if i = 4098 then 0 else block (i + 1) := by
  rw [State.next, Memory.load_of_byteOf (v := if i = 4098 then 0 else block (i + 1))]
  · rw [Nat.mod_eq_of_lt]
    rw [block]
    split_ifs <;> omega
  · intro k hk
    rw [comb_mem, Nat.add_assoc, mem_block (by omega), byte, if_neg (by omega),
      if_pos (by omega), Nat.add_sub_cancel_left]

theorem used_block : comb.used (block i) = used i := by
  rw [State.used, comb_mem, mem_block (by omega), byte, if_neg (by omega), if_neg (by omega)]
  cases used i <;> rfl

theorem block_injective : Function.Injective block := fun i j h => by
  rw [block, block] at h
  omega

theorem getBlockSize_block (hi : i < 4099) : comb.getBlockSize (block i) = 4 := by
  have hpos : block i ≠ 0 := by
    unfold block
    omega
  have hend : (if comb.next (block i) = 0 then comb.endAddress else comb.next (block i)) =
      block (i + 1) := by
    rw [next_block hi]
    by_cases hl : i = 4098
    · rw [if_pos hl, if_pos rfl, hl]
      rfl
    · rw [if_neg hl, if_neg]
      unfold block
      omega
  have hsize := State.add_getBlockSize_of_end hpos hend (by unfold block; omega)
    (by unfold block; omega)
  unfold block at hsize ⊢
  omega

/-- The links lead from a block to all those behind it. -/
theorem chain_range' {n : ℕ} (hi : i + n = 4099) :
    Chain comb (if n = 0 then 0 else block i) ((List.range' i n).map block) := by
  induction n generalizing i with
  | zero => exact .nil
  | succ n ih =>
    rw [if_neg n.succ_ne_zero]
    refine .cons (by unfold block; omega) ?_
    have hnext : comb.next (block i) = if n = 0 then 0 else block (i + 1) := by
      rw [next_block (by omega)]
      split_ifs <;> first | rfl | omega
    rw [hnext]
    exact ih (by omega)

/-- The blocks, in the order of their addresses. -/
abbrev blocks : List ℕ := (List.range 4099).map block

theorem mem_blocks {b : ℕ} : b ∈ blocks ↔ ∃ i < 4099, block i = b := by
  simp only [blocks, List.mem_map, List.mem_range]

theorem freeList_comb : comb.freeList = (List.range 2048).map fun j => block (2 * j + 1) := rfl

theorem mem_freeList_comb {b : ℕ} : b ∈ comb.freeList ↔ b ∈ blocks ∧ comb.used b = false := by
  rw [mem_blocks]
  simp only [freeList_comb, List.mem_map, List.mem_range]
  constructor
  · rintro ⟨j, hj, rfl⟩
    refine ⟨⟨2 * j + 1, by omega, rfl⟩, ?_⟩
    rw [used_block]
    simp only [used, Bool.or_eq_false_iff, decide_eq_false_iff_not]
    omega
  · rintro ⟨⟨i, hi, rfl⟩, hu⟩
    rw [used_block] at hu
    simp only [used, Bool.or_eq_false_iff, decide_eq_false_iff_not] at hu
    exact ⟨i / 2, by omega, congrArg block (by omega)⟩

theorem pairwise_blocks : (blocks ++ [comb.endAddress]).Pairwise fun x y => x + 12 ≤ y := by
  refine List.pairwise_append.2 ⟨?_, List.pairwise_singleton _ _, fun x hx y hy => ?_⟩
  · refine List.pairwise_map.2 (List.pairwise_lt_range.imp fun {i j} hij => ?_)
    unfold block
    omega
  · obtain ⟨i, hi, rfl⟩ := mem_blocks.1 hx
    rw [List.mem_singleton.1 hy]
    change block i + 12 ≤ block 4099
    unfold block
    omega

theorem fullyListed_comb : FullyListed comb blocks := by
  have hchain : Chain comb comb.baseNode blocks := by
    rw [blocks, List.range_eq_range']
    exact chain_range' (i := 0) (n := 4099) rfl
  refine ⟨by decide, hchain, hchain.tiles pairwise_blocks, prev_block (i := 0) (by decide),
    fun b hb hn => ?_, ?_, fun b => mem_freeList_comb, ?_⟩
  · obtain ⟨i, hi, rfl⟩ := mem_blocks.1 hb
    rw [next_block hi] at hn ⊢
    by_cases hl : i = 4098
    · exact absurd (if_pos hl) hn
    · rw [if_neg hl, prev_block (by omega), if_neg i.succ_ne_zero, Nat.add_sub_cancel]
  · rw [freeList_comb]
    refine List.nodup_range.map fun i j hij => ?_
    have := block_injective hij
    omega
  · -- All blocks have the same size.
    refine List.pairwise_of_forall_mem_list fun x hx y hy => ?_
    obtain ⟨i, hi, rfl⟩ := mem_blocks.1 (mem_freeList_comb.1 hx).1
    obtain ⟨j, hj, rfl⟩ := mem_blocks.1 (mem_freeList_comb.1 hy).1
    rw [getBlockSize_block hi, getBlockSize_block hj]

/-- No two unused blocks are next to each other. -/
theorem coalesced_comb : Coalesced comb blocks := by
  refine (List.isChain_map block).2 ((List.isChain_range _ _).2 fun i _ => ?_)
  rw [used_block, used_block]
  simp only [used, Bool.or_eq_true, decide_eq_true_eq]
  omega

end Comb

theorem keepsFreed_sample : KeepsFreed sampleHole 0x102034 :=
  (keepsFreed_iff fullyListed_sampleHole (by decide) (by decide +kernel)).2 (by decide +kernel)

/-- The block between two used ones is lost when it is freed. -/
theorem not_keepsFreed_comb : WellFormedOf comb (block 0) blocks ∧ block 4097 ∈ blocks ∧
    comb.used (block 4097) = true ∧
    (∃ s', comb.free (block 4097 + sizeofBlockHeader) = (.ok (), s') ∧
      block 4097 ∉ s'.freeList) ∧
    ¬KeepsFreed comb (block 4097) := by
  have hb : block 4097 ∈ blocks := mem_blocks.2 ⟨4097, by decide, rfl⟩
  have hu : comb.used (block 4097) = true := by
    rw [used_block]
    rfl
  have ht : ¬comb.TakesBack (block 4097) := by
    rw [State.TakesBack, State.NeighbourUnused, next_block (by decide), prev_block (by decide),
      if_neg (by decide), if_neg (by decide), used_block, used_block]
    decide
  refine ⟨(wellFormedOf_iff_fullyListed (by decide)).2 ⟨rfl, fullyListed_comb, coalesced_comb⟩, hb,
    hu, ?_, fullyListed_comb.not_keepsFreed hb hu ht⟩
  obtain ⟨l, r, hlr⟩ := List.append_of_mem hb
  have hfree := FullyListed.free_full (hlr ▸ fullyListed_comb) hu ht
  refine ⟨_, hfree, fun hm => ?_⟩
  exact absurd (mem_freeList_comb.1 hm).2 (by simp [hu])

end KessokuOS.MemoryManager
