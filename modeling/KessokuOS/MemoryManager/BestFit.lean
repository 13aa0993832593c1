import KessokuOS.MemoryManager.Extents

/-!
# Allocation is best-fit

What `malloc` does in a heap of which the list has exactly the unused blocks,
split inside the heap or not. Among the unused blocks that have room enough, it
takes one of the least size (`State.least_of_mallocBlock`). The bytes behind
the requested ones become an unused block, if they are more than a header
(`served`), and nothing else changes.

* `Heap.carve_spec`: making a block of the last bytes of any block;
* `malloc_bestFit`: `malloc` fails exactly when no unused block has room for the
  padded size, and is best-fit and exact otherwise;
* `allocatesEnough_iff`: it gives at least what is requested exactly when rounding
  the size up does not wrap, or no block is unused.
-/

namespace KessokuOS.MemoryManager

variable {s s' : State} {base b c p size : ℕ} {bs l r : List ℕ}

/-! ## The block that serves a request -/

namespace State

/-- No block serves a request when all the listed ones are too small. -/
theorem mallocBlock_eq_none_iff (hs : s.FreeSorted) (h₀ : size ≠ 0) (hb : s.baseNode ≠ 0) :
    s.mallocBlock size = none ↔
      ∀ x ∈ s.freeList, s.getBlockSize x < getSmallestGteMultiple size 4 := by
  have hlt : lowerBound s.getBlockSize s.freeList (getSmallestGteMultiple size 4) <
      s.freeList.length ↔ _ := lowerBound_lt_length_iff
  rw [FCVector.length_toList, ← findFirstGteFreeBlock_eq hs] at hlt
  rw [mallocBlock, if_neg (not_or.2 ⟨h₀, hb⟩)]
  simp only [ite_eq_right_iff, reduceCtorEq, imp_false]
  rw [hlt]
  simp only [not_exists, not_and, not_le]

/-- The error of a request without such a block. -/
theorem malloc_noFreeBlocks (h₀ : size ≠ 0) (hb : s.baseNode ≠ 0)
    (h : s.mallocBlock size = none) : s.malloc size = (.error .memoryManagerNoFreeBlocks, s) := by
  rw [malloc, if_neg h₀, if_neg hb]
  refine if_neg fun hi => ?_
  rw [mallocBlock_eq_some_iff.2 ⟨h₀, hb, hi, rfl⟩] at h
  exact Option.some_ne_none _ h

/-- The block that serves a request is one of the smallest that are large enough. -/
theorem least_of_mallocBlock (hs : s.FreeSorted) (h : s.mallocBlock size = some b) {x : ℕ}
    (hx : x ∈ s.freeList) (hle : getSmallestGteMultiple size 4 ≤ s.getBlockSize x) :
    s.getBlockSize b ≤ s.getBlockSize x := by
  obtain ⟨-, -, hi, rfl⟩ := mallocBlock_eq_some_iff.1 h
  rw [findFirstGteFreeBlock_eq hs] at hi ⊢
  have hi' : lowerBound s.getBlockSize s.freeList (getSmallestGteMultiple size 4) <
      s.freeList.length := by rwa [FCVector.length_toList]
  have := hs.getElem_lowerBound_le hi' hx hle
  rwa [FCVector.getElem_toList] at this

end State

/-! ## Making a block of the end of any block -/

/-- A chain only depends on the links of its blocks. -/
theorem Chain.congr {a : ℕ} (h : Chain s a l) (hl : ∀ x ∈ l, s'.next x = s.next x) :
    Chain s' a l := by
  induction h with
  | nil => exact .nil
  | cons h₀ _ ih =>
    refine .cons h₀ ?_
    rw [hl _ List.mem_cons_self]
    exact ih fun x hx => hl x (List.mem_cons_of_mem _ hx)

/-- Linking a new block behind a block of a chain. -/
theorem Chain.insert {a : ℕ} (h : Chain s a (l ++ b :: r)) (hc : c ≠ 0)
    (hl : ∀ x ∈ l ++ r, s'.next x = s.next x) (hb : s'.next b = c) (hcn : s'.next c = s.next b) :
    Chain s' a (l ++ b :: c :: r) := by
  induction l generalizing a with
  | nil =>
    cases h with
    | cons h₀ h =>
      refine .cons h₀ ?_
      rw [hb]
      refine .cons hc ?_
      rw [hcn]
      exact h.congr hl
  | cons d l ih =>
    cases h with
    | cons h₀ h =>
      refine .cons h₀ ?_
      rw [hl d (by simp)]
      exact ih h fun x hx => hl x (List.mem_cons_of_mem _ hx)

namespace Heap

variable (h : Heap s base (l ++ b :: r)) (hb : b ∉ s.freeList) (hbc : b + 12 ≤ c)
  (hc : c + 12 ≤ b + 12 + s.getBlockSize b)

include h hbc hc

/-- The new block is apart from the others, and what they hold is not touched. -/
theorem carve_frame {x : ℕ} (hx : x ∈ l ++ b :: r) : Apart x c ∧ x ≠ c ∧
    (s.carve b c).used x = s.used x ∧ (x ≠ b → (s.carve b c).next x = s.next x) := by
  have hbm : b ∈ l ++ b :: r := by simp
  obtain ⟨hxc, hne⟩ := h.apart_of_mem_payload hbm hbc (by omega) hx
  exact ⟨hxc, hne, State.used_carve_of_ne (h.apart hx hbm) hxc hne,
    fun hxb => State.next_carve_of_ne (h.apart hx hbm) hxc hxb hne⟩

/-- Making a block of the last bytes of a block which is not listed: it follows the
    block, which keeps the bytes before it, and the others are as they were. -/
theorem carve_spec : Chain (s.carve b c) base (l ++ b :: c :: r) ∧
    (s.carve b c).extents (l ++ b :: c :: r) = s.extents l ++
      ⟨b, c, s.used b⟩ :: ⟨c, b + 12 + s.getBlockSize b, false⟩ :: s.extents r := by
  have hend : b + 12 + s.getBlockSize b < 2 ^ 32 :=
    (h.payload_le (x := s.endAddress) (by simp)).trans_lt s.endAddress_lt
  have hcb : Apart c b := .inr (.inr hbc)
  have hne : c ≠ b := by omega
  have hnot := h.not_mem
  have hframe : ∀ x ∈ l ++ r, (s.carve b c).extent x = s.extent x ∧
      (s.carve b c).next x = s.next x := fun x hx => by
    have hx' : x ∈ l ++ b :: r := by grind
    have hxb : x ≠ b := by grind
    obtain ⟨-, -, hu, hn⟩ := h.carve_frame hbc hc hx'
    refine ⟨?_, hn hxb⟩
    rw [State.extent, State.extent, hu, State.getBlockSize_congr (hn hxb) rfl]
  have hnb : (s.carve b c).next b = c := State.next_carve_self (by omega)
  have hnc : (s.carve b c).next c = s.next b := State.next_carve_new hcb hne
  refine ⟨h.chain.insert (by omega) (fun x hx => (hframe x hx).2) hnb hnc, ?_⟩
  -- Where `b` and the new block end.
  have hb₀ : b ≠ 0 := (h.pos_of_mem (by simp)).ne'
  have hsb : b + 12 + (s.carve b c).getBlockSize b = c := by
    refine State.add_getBlockSize_of_end hb₀ ?_ (by omega) hbc
    rw [hnb, if_neg (by omega)]
  have hsc : c + 12 + (s.carve b c).getBlockSize c = b + 12 + s.getBlockSize b := by
    refine State.add_getBlockSize_of_end (by omega) ?_ hend hc
    rw [hnc, h.add_getBlockSize, h.next_eq]
    cases r with
    | nil => rfl
    | cons d r => exact if_neg (h.pos_of_mem (x := d) (by simp)).ne'
  have hub : (s.carve b c).used b = s.used b := (h.carve_frame hbc hc (by simp)).2.2.1
  have huc : (s.carve b c).used c = false := State.used_carve_new hcb
  have hl : (s.carve b c).extents l = s.extents l :=
    List.map_congr_left fun x hx => (hframe x (List.mem_append_left _ hx)).1
  have hr : (s.carve b c).extents r = s.extents r :=
    List.map_congr_left fun x hx => (hframe x (List.mem_append_right _ hx)).1
  have heb : (s.carve b c).extent b = ⟨b, c, s.used b⟩ := by
    rw [State.extent, sizeofBlockHeader, hsb, hub]
  have hec : (s.carve b c).extent c = ⟨c, b + 12 + s.getBlockSize b, false⟩ := by
    rw [State.extent, sizeofBlockHeader, hsc, huc]
  rw [State.extents, List.map_append, List.map_cons, List.map_cons, heb, hec]
  exact congrArg₂ (· ++ ·) hl (congrArg _ (congrArg _ hr))

/-- The blocks tile the heap still, with the new one among them. -/
theorem carve_tiles : ((l ++ b :: c :: r) ++ [s.endAddress]).IsChain fun x y =>
    x + sizeofBlockHeader + (s.carve b c).getBlockSize x = y := by
  refine (h.carve_spec hbc hc).1.tiles ?_
  have ht := h.tiles
  rw [List.append_assoc, List.cons_append, List.pairwise_append, List.pairwise_cons] at ht
  rw [List.append_assoc, List.cons_append, List.cons_append, List.pairwise_append,
    List.pairwise_cons, List.pairwise_cons]
  refine ⟨ht.1, ⟨fun x hx => ?_, fun x hx => ?_, ht.2.1.2⟩, fun x hx y hy => ?_⟩
  · rcases List.mem_cons.1 hx with rfl | hx
    · exact hbc
    · exact ht.2.1.1 x hx
  · exact hc.trans (h.payload_le hx)
  · have hxb := ht.2.2 x hx b List.mem_cons_self
    rcases List.mem_cons.1 hy with rfl | hy
    · exact hxb
    rcases List.mem_cons.1 hy with rfl | hy
    · omega
    · exact ht.2.2 x hx y (List.mem_cons_of_mem _ hy)

include hb in
/-- The list stays sorted. -/
theorem carve_sorted : (s.carve b c).FreeSorted :=
  h.sorted.congr fun x hx => by
    have hx' := (h.listed x hx).1
    have hxb : x ≠ b := fun hxb => hb (hxb ▸ hx)
    exact State.getBlockSize_congr ((h.carve_frame hbc hc hx').2.2.2 hxb) rfl

end Heap

/-! ## Best fit -/

/-- The extents that an unused extent becomes when it serves a request for `p`
    bytes: the rest of it is split off where it is more than a header. -/
def Extent.served (p : ℕ) (e : Extent) : List Extent :=
  if p + sizeofBlockHeader < e.stop - (e.start + sizeofBlockHeader) then
    [⟨e.start, e.start + sizeofBlockHeader + p, true⟩,
      ⟨e.start + sizeofBlockHeader + p, e.stop, false⟩]
  else [⟨e.start, e.stop, true⟩]

/-- The block that is split off when `b` serves a request for `p` bytes, if any. -/
def State.remainder (s : State) (b p : ℕ) : List ℕ :=
  if p + sizeofBlockHeader < s.getBlockSize b then [b + sizeofBlockHeader + p] else []

/-- The block `b`, between the blocks `l` and `r` of the heap, has served a request
    for `p` bytes, and gets exactly these if the rest of it makes a block. The
    extents of the other blocks are as they were, no size has wrapped, and the list
    has the rest in place of `b`. -/
structure Served (s : State) (p : ℕ) (l : List ℕ) (b : ℕ) (r : List ℕ) (s' : State) : Prop where
  baseNode_eq : s'.baseNode = s.baseNode
  endAddress_eq : s'.endAddress = s.endAddress
  chain : Chain s' s'.baseNode (l ++ b :: (s.remainder b p ++ r))
  tiles : ((l ++ b :: (s.remainder b p ++ r)) ++ [s'.endAddress]).IsChain fun x y =>
    x + sizeofBlockHeader + s'.getBlockSize x = y
  extents_eq : s'.extents (l ++ b :: (s.remainder b p ++ r)) =
    s.extents l ++ ((s.extent b).served p ++ s.extents r)
  sorted : s'.FreeSorted
  perm : s'.freeList.Perm (s.remainder b p ++ s.freeList.erase b)

/-- The block that has served the request is an unused one of the least size among
    those that have room for it. -/
structure BestFit (s : State) (p : ℕ) (l : List ℕ) (b : ℕ) (r : List ℕ) (s' : State) : Prop
    extends Served s p l b r s' where
  unused : s.used b = false
  fits : p ≤ s.getBlockSize b
  least : ∀ x ∈ l ++ b :: r, s.used x = false → p ≤ s.getBlockSize x →
    s.getBlockSize b ≤ s.getBlockSize x

namespace Heap

/-- A block that has been taken off the list is split, or used as a whole. -/
theorem split_served (h : Heap s base (l ++ b :: r)) (hb : b ∉ s.freeList) (hu : s.used b = true)
    (hfull : s.freeBlocks.size < 2048) (hp : p ≤ s.getBlockSize b) :
    Served s p l b r (s.split b p) := by
  have hsize := h.add_getBlockSize
  have hend : b + 12 + s.getBlockSize b < 2 ^ 32 :=
    (h.payload_le (x := s.endAddress) (by simp)).trans_lt s.endAddress_lt
  have hext : (s.extent b).stop - ((s.extent b).start + sizeofBlockHeader) = s.getBlockSize b :=
    Nat.add_sub_cancel_left _ _
  have hbase : base = s.baseNode := h.baseNode_eq.symm
  subst hbase
  by_cases hlt : p + sizeofBlockHeader < s.getBlockSize b
  · -- `b` holds the padded size, so nothing wraps.
    have hrem : s.remainder b p = [b + 12 + p] := if_pos hlt
    have hserved : (s.extent b).served p = [⟨b, b + 12 + p, true⟩,
        ⟨b + 12 + p, b + 12 + s.getBlockSize b, false⟩] := if_pos (hext.symm ▸ hlt)
    rw [sizeofBlockHeader] at hlt
    have hsplit : sizeofBlockHeader < u32Sub (s.getBlockSize b) p := by
      rw [sizeofBlockHeader, u32Sub_of_le (by omega) hp]
      omega
    rw [State.split_of_lt hsplit, sizeofBlockHeader, u32_of_lt (show b + 12 + p < 2 ^ 32 by omega)]
    set c := b + 12 + p with hc
    have hbc : b + 12 ≤ c := Nat.le_add_right _ _
    have hce : c + 12 ≤ b + 12 + s.getBlockSize b := by omega
    obtain ⟨hchain, hextents⟩ := h.carve_spec hbc hce
    obtain ⟨v, heq, hv⟩ := State.addFreeBlock_of_lt (h.carve_sorted hb hbc hce) c hfull
    have hsizes : ∀ x, ((s.carve b c).setFreeBlocks v).getBlockSize x =
        (s.carve b c).getBlockSize x := fun x => State.getBlockSize_setFreeBlocks
    rw [heq]
    refine ⟨rfl, rfl, ?_, ?_, ?_, ?_, ?_⟩
    · rw [hrem]
      exact hchain.congr fun _ _ => rfl
    · rw [hrem]
      exact h.carve_tiles hbc hce
    · rw [hrem, hserved, ← hu]
      exact hextents
    · rw [State.FreeSorted, State.freeList, State.freeBlocks_setFreeBlocks, hv]
      exact ((h.carve_sorted hb hbc hce).insertIdx c).congr fun x _ => hsizes x
    · rw [hrem, List.erase_of_not_mem hb, State.freeList, State.freeBlocks_setFreeBlocks, hv]
      exact List.perm_insertIdx _ _ lowerBound_le_length
  · have hrem : s.remainder b p = [] := if_neg hlt
    have hserved : (s.extent b).served p = [s.extent b] := by
      rw [Extent.served, hext, if_neg hlt, State.extent, hu]
    rw [sizeofBlockHeader] at hlt
    have hsplit : ¬sizeofBlockHeader < u32Sub (s.getBlockSize b) p := by
      rw [sizeofBlockHeader, u32Sub_of_le (by omega) hp]
      omega
    rw [State.split_of_le hsplit]
    refine ⟨rfl, rfl, ?_, ?_, ?_, h.sorted, ?_⟩
    · rw [hrem]
      exact h.chain
    · rw [hrem]
      exact h.chain.tiles h.tiles
    · rw [hrem, hserved, State.extents, List.map_append]
      rfl
    · rw [hrem, List.erase_of_not_mem hb]
      exact .refl _

end Heap

/-- The block that serves a request: it is best-fit, and gets what is requested. -/
theorem FullyListed.malloc_of_some (h : FullyListed s (l ++ b :: r))
    (hm : s.mallocBlock size = some b) : ∃ s', s.malloc size = (.ok (b + sizeofBlockHeader), s') ∧
      BestFit s (getSmallestGteMultiple size 4) l b r s' := by
  have hh := (fullyListed_iff.1 h).1
  have hb : b ∈ l ++ b :: r := by simp
  obtain ⟨hbf, hle, v, hv, heq⟩ := State.malloc_of_some hh.sorted hh.nodup_free hm
  obtain ⟨h₁, hf₁, hsize₁, hused₁, hother₁⟩ := hh.take hbf hv
  have hlt : b + 12 < 2 ^ 32 := (hh.le_of_mem hb).2.trans_lt s.endAddress_lt
  rw [sizeofBlockHeader, u32_of_lt hlt] at heq
  set s₁ := (s.setFreeBlocks v).setUsed b true with hs₁
  set p := getSmallestGteMultiple size 4 with hp
  refine ⟨_, heq, ?_, ((h.mem_free_iff b).1 hbf).2, hle, fun x hx hu hpx =>
    State.least_of_mallocBlock hh.sorted hm ((h.mem_free_iff x).2 ⟨hx, hu⟩) hpx⟩
  have hsv := h₁.split_served (hf₁ ▸ hh.nodup_free.not_mem_erase) hused₁
    (State.size_lt_of_erase hbf hv) (hle.trans (hsize₁ b hb).ge)
  -- Taking the block off the list has changed its flag only.
  have hrem : s₁.remainder b p = s.remainder b p := by
    rw [State.remainder, State.remainder, hsize₁ b hb]
  have hnot := hh.not_mem
  have hext : ∀ x ∈ l ++ r, s₁.extent x = s.extent x := fun x hx => by
    rw [State.extent, State.extent, hsize₁ x (by grind), hother₁ x (by grind)]
  have hl : s₁.extents l = s.extents l :=
    List.map_congr_left fun x hx => hext x (List.mem_append_left _ hx)
  have hr : s₁.extents r = s.extents r :=
    List.map_congr_left fun x hx => hext x (List.mem_append_right _ hx)
  have hserved : (s₁.extent b).served p = (s.extent b).served p := by
    rw [State.extent, State.extent, hsize₁ b hb]
    rfl
  refine ⟨hsv.baseNode_eq, hsv.endAddress_eq, hrem ▸ hsv.chain, hrem ▸ hsv.tiles, ?_, hsv.sorted,
    ?_⟩
  · rw [← hrem, hsv.extents_eq, hl, hr, hserved]
  · have hperm := hsv.perm
    rwa [hrem, hf₁, List.erase_of_not_mem hh.nodup_free.not_mem_erase] at hperm

/-- An unused block has room for the padded size of a request. -/
def HasRoom (s : State) (bs : List ℕ) (size : ℕ) : Prop :=
  ∃ b ∈ bs, s.used b = false ∧ getSmallestGteMultiple size 4 ≤ s.getBlockSize b

theorem FullyListed.mallocBlock_eq_none_iff (h : FullyListed s bs) (h₀ : size ≠ 0) :
    s.mallocBlock size = none ↔ ¬HasRoom s bs size := by
  rw [State.mallocBlock_eq_none_iff h.sorted h₀ h.baseNode_ne, HasRoom]
  simp only [h.mem_free_iff, not_exists, not_and, not_le, and_imp]

theorem FullyListed.malloc_of_not_hasRoom (h : FullyListed s bs) (h₀ : size ≠ 0)
    (hroom : ¬HasRoom s bs size) : s.malloc size = (.error .memoryManagerNoFreeBlocks, s) :=
  State.malloc_noFreeBlocks h₀ h.baseNode_ne ((h.mallocBlock_eq_none_iff h₀).2 hroom)

theorem FullyListed.malloc_of_hasRoom (h : FullyListed s bs) (h₀ : size ≠ 0)
    (hroom : HasRoom s bs size) : ∃ l b r s', bs = l ++ b :: r ∧
      s.malloc size = (.ok (b + sizeofBlockHeader), s') ∧
      BestFit s (getSmallestGteMultiple size 4) l b r s' := by
  obtain ⟨b, hm⟩ := Option.ne_none_iff_exists'.1
    fun hnone => (h.mallocBlock_eq_none_iff h₀).1 hnone hroom
  have hb := ((h.mem_free_iff b).1 (State.malloc_of_some h.sorted h.nodup_free hm).1).1
  obtain ⟨l, r, rfl⟩ := List.append_of_mem hb
  obtain ⟨s', heq, hbest⟩ := h.malloc_of_some hm
  exact ⟨l, b, r, s', rfl, heq, hbest⟩

/-- `malloc` is best-fit and exact. It fails exactly when no unused block has room
    for the padded size, and changes nothing then. Otherwise it returns the payload
    of an unused block of the least size that has, and does what `Served` says. -/
theorem malloc_bestFit (h : FullyListed s bs) (h₀ : size ≠ 0) :
    (s.malloc size = (.error .memoryManagerNoFreeBlocks, s) ↔
      ¬∃ b ∈ bs, s.used b = false ∧ getSmallestGteMultiple size 4 ≤ s.getBlockSize b) ∧
    ((∃ b ∈ bs, s.used b = false ∧ getSmallestGteMultiple size 4 ≤ s.getBlockSize b) →
      ∃ l b r s', bs = l ++ b :: r ∧ s.malloc size = (.ok (b + sizeofBlockHeader), s') ∧
        BestFit s (getSmallestGteMultiple size 4) l b r s') := by
  refine ⟨⟨fun herr hroom => ?_, h.malloc_of_not_hasRoom h₀⟩, h.malloc_of_hasRoom h₀⟩
  obtain ⟨l, b, r, s', -, heq, -⟩ := h.malloc_of_hasRoom h₀ hroom
  rw [heq] at herr
  exact absurd (congrArg Prod.fst herr) (by simp)

/-- 8 bytes are served by the smaller one of two unused blocks, with 40 bytes, which
    is split inside the heap. -/
theorem malloc_bestFit_sample : ∃ l b r s', [0x102000, 0x102034, 0x102044] = l ++ b :: r ∧
    sampleHole.malloc 8 = (.ok (b + sizeofBlockHeader), s') ∧ BestFit sampleHole 8 l b r s' :=
  (malloc_bestFit fullyListed_sampleHole (by decide)).2
    ⟨0x102000, by decide, by decide +kernel, by decide +kernel⟩

/-! ## Sizes that cannot be rounded -/

/-- The smallest multiple of 4 which is at least `size`. -/
def roundedSize (size : ℕ) : ℕ := (size + 3) / 4 * 4

theorem getSmallestGteMultiple_eq_roundedSize (h : RoundingFits size 4) :
    getSmallestGteMultiple size 4 = roundedSize size := by
  rw [getSmallestGteMultiple, roundedSize]
  split_ifs with h₀
  · omega
  · rw [u32_of_lt (h.resolve_left h₀)]
    omega

/-- A size that cannot be rounded up in 32 bits is rounded to `0`. -/
theorem roundedSize_of_not_roundingFits (hsize : size < 2 ^ 32) (h : ¬RoundingFits size 4) :
    roundedSize size = 2 ^ 32 ∧ getSmallestGteMultiple size 4 = 0 := by
  rw [RoundingFits, not_or, not_lt] at h
  rw [getSmallestGteMultiple, if_neg h.1, u32, roundedSize]
  omega

/-- The block that has served a request for `p` bytes has these, or is as large as
    it was. -/
theorem BestFit.getBlockSize_eq (h : BestFit s p l b r s') :
    s'.getBlockSize b = if p + sizeofBlockHeader < s.getBlockSize b then p
      else s.getBlockSize b := by
  have hext := h.extents_eq
  rw [State.extents, List.map_append, List.map_cons] at hext
  have htail := (List.append_inj hext (by simp [State.extents])).2
  have hsize : (s.extent b).stop - ((s.extent b).start + sizeofBlockHeader) = s.getBlockSize b :=
    Nat.add_sub_cancel_left _ _
  rw [Extent.served, hsize] at htail
  by_cases hlt : p + sizeofBlockHeader < s.getBlockSize b
  · rw [if_pos hlt] at htail ⊢
    have hstop := congrArg Extent.stop (List.cons.inj htail).1
    exact Nat.add_left_cancel hstop
  · rw [if_neg hlt] at htail ⊢
    have hstop := congrArg Extent.stop (List.cons.inj htail).1
    exact Nat.add_left_cancel hstop

/-- A request of `size` bytes gets at least these if it succeeds. It is refused,
    and the heap is unchanged, when the rounded size is no 32-bit number, or when no
    unused block has room for it. -/
structure AllocatesEnough (s : State) (bs : List ℕ) (size : ℕ) : Prop where
  enough : ∀ q s', s.malloc size = (.ok q, s') → size ≤ s'.getBlockSize (q - sizeofBlockHeader)
  refused : 2 ^ 32 ≤ roundedSize size ∨
      (∀ b ∈ bs, s.used b = false → s.getBlockSize b < roundedSize size) →
    ∃ e, s.malloc size = (.error e, s)

theorem AllocatesEnough.of_error {e : Error} (h : s.malloc size = (.error e, s)) :
    AllocatesEnough s bs size :=
  ⟨fun q s' heq => absurd (congrArg Prod.fst (h.symm.trans heq)) (by simp), fun _ => ⟨e, h⟩⟩

/-- A size that can be rounded is served with at least as much. -/
theorem allocatesEnough_of_roundingFits (h : FullyListed s bs) (hfits : RoundingFits size 4) :
    AllocatesEnough s bs size := by
  by_cases h₀ : size = 0
  · exact .of_error (if_pos h₀)
  by_cases hroom : HasRoom s bs size
  · obtain ⟨l, b, r, s₁, rfl, heq, hbest⟩ := h.malloc_of_hasRoom h₀ hroom
    refine ⟨fun q s' hq => ?_, fun href => ?_⟩
    · obtain ⟨hres, rfl⟩ := Prod.mk.inj (heq.symm.trans hq)
      obtain rfl := Except.ok.inj hres
      rw [Nat.add_sub_cancel, hbest.getBlockSize_eq]
      have hle := le_getSmallestGteMultiple hfits
      have hfit := hbest.fits
      split_ifs <;> omega
    · -- The block that is found has room for the rounded size.
      have hfit := hbest.fits
      rw [getSmallestGteMultiple_eq_roundedSize hfits] at hfit
      have hlt : s.getBlockSize b < 2 ^ 32 := by
        have hh := (fullyListed_iff.1 h).1
        have := (hh.payload_le (x := s.endAddress) (by simp)).trans_lt s.endAddress_lt
        omega
      rcases href with href | href
      · omega
      · exact absurd hfit (not_le.2 (href b (by simp) hbest.unused))
  · exact .of_error (h.malloc_of_not_hasRoom h₀ hroom)

/-- A request gets at least its size, or is refused, exactly when rounding the size
    up does not wrap or there is no unused block. A size that wraps is rounded to
    `0`, for which any unused block is large enough. -/
theorem allocatesEnough_iff (h : FullyListed s bs) (hsize : size < 2 ^ 32) :
    AllocatesEnough s bs size ↔ RoundingFits size 4 ∨ ∀ b ∈ bs, s.used b = true := by
  constructor
  · intro henough
    refine or_iff_not_imp_left.2 fun hfits b hb => ?_
    by_contra hu
    rw [Bool.not_eq_true] at hu
    obtain ⟨hround, hzero⟩ := roundedSize_of_not_roundingFits hsize hfits
    have h₀ : size ≠ 0 := fun h₀ => hfits (.inl (by rw [h₀]))
    obtain ⟨l, b', r, s', -, heq, -⟩ :=
      h.malloc_of_hasRoom h₀ ⟨b, hb, hu, hzero ▸ Nat.zero_le _⟩
    obtain ⟨e, herr⟩ := henough.refused (.inl hround.ge)
    exact absurd (congrArg Prod.fst (heq.symm.trans herr)) (by simp)
  · rintro (hfits | hused)
    · exact allocatesEnough_of_roundingFits h hfits
    · by_cases h₀ : size = 0
      · exact .of_error (if_pos h₀)
      · refine .of_error (h.malloc_of_not_hasRoom h₀ ?_)
        rintro ⟨b, hb, hu, -⟩
        exact absurd (hused b hb) (by simp [hu])

theorem allocatesEnough_sample :
    AllocatesEnough sampleHole [0x102000, 0x102034, 0x102044] 38 :=
  (allocatesEnough_iff fullyListed_sampleHole (by decide)).2 (.inl (by decide))

/-- A request for almost 4 GiB succeeds, with a block of no bytes. -/
theorem not_allocatesEnough_sample : FullyListed sampleHole [0x102000, 0x102034, 0x102044] ∧
    (sampleHole.malloc 0xfffffffd).1 = .ok 0x10200c ∧
    (sampleHole.malloc 0xfffffffd).2.getBlockSize 0x102000 = 0 ∧
    ¬AllocatesEnough sampleHole [0x102000, 0x102034, 0x102044] 0xfffffffd := by
  have hok : (sampleHole.malloc 0xfffffffd).1 = .ok 0x10200c := by decide +kernel
  refine ⟨fullyListed_sampleHole, hok, by decide +kernel, fun h => ?_⟩
  obtain ⟨e, he⟩ := h.refused (.inl (by decide))
  rw [he] at hok
  exact absurd hok (by simp)

end KessokuOS.MemoryManager
