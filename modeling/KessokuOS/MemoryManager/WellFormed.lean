import KessokuOS.MemoryManager.Operations

/-!
# Well-formed heaps

A heap is well formed when its blocks, found by following the links, tile the
memory from its base to its end, are linked both ways, no two unused blocks are
next to each other, and the unused blocks are those in the list, sorted by size
(`WellFormed`).

* `wellFormedOf_iff`: it is a `Heap` without adjacent or unlisted unused blocks;
* `wellFormed_malloc_iff`: `malloc` keeps the heap well formed exactly when the
  request does not split a block behind which there is another one. It then
  leaves the link back to the block that was split;
* `WellFormedOf.free`: `free` keeps it well formed, as long as the list is not full;
* `malloc_sampleHole`: a request that splits a block inside the heap.
-/

namespace KessokuOS.MemoryManager

variable {s s' : State} {base a b c x size kernelEnd : ℕ} {bs l r : List ℕ}

/-- The blocks found by following the links from `a` on. -/
inductive Chain (s : State) : ℕ → List ℕ → Prop
  | nil : Chain s 0 []
  | cons {a : ℕ} {l : List ℕ} : a ≠ 0 → Chain s (s.next a) l → Chain s a (a :: l)

/-- No two blocks next to each other are unused. -/
def Coalesced (s : State) (bs : List ℕ) : Prop :=
  bs.IsChain fun x y => s.used x = true ∨ s.used y = true

/-- A well-formed heap with the blocks `bs`, from `base` on. -/
structure WellFormedOf (s : State) (base : ℕ) (bs : List ℕ) : Prop where
  baseNode_eq : s.baseNode = base
  chain : Chain s s.baseNode bs
  tiles : (bs ++ [s.endAddress]).IsChain fun x y => x + sizeofBlockHeader + s.getBlockSize x = y
  prev_base : s.prev s.baseNode = 0
  prev_next : ∀ b ∈ bs, s.next b ≠ 0 → s.prev (s.next b) = b
  coalesced : Coalesced s bs
  nodup_free : s.freeList.Nodup
  mem_free_iff : ∀ b, b ∈ s.freeList ↔ b ∈ bs ∧ s.used b = false
  sorted : s.FreeSorted

/-- The blocks `bs` are those of a heap, found by following the links, and the list
    has exactly the unused ones. Unlike in a well-formed heap, unused blocks may be
    next to each other. -/
structure FullyListed (s : State) (bs : List ℕ) : Prop where
  baseNode_ne : s.baseNode ≠ 0
  chain : Chain s s.baseNode bs
  tiles : (bs ++ [s.endAddress]).IsChain fun x y => x + sizeofBlockHeader + s.getBlockSize x = y
  prev_base : s.prev s.baseNode = 0
  prev_next : ∀ b ∈ bs, s.next b ≠ 0 → s.prev (s.next b) = b
  nodup_free : s.freeList.Nodup
  mem_free_iff : ∀ b, b ∈ s.freeList ↔ b ∈ bs ∧ s.used b = false
  sorted : s.FreeSorted

/-- A well-formed heap, behind a kernel that ends at `kernelEnd`. -/
def WellFormed (kernelEnd : ℕ) (s : State) : Prop :=
  ∃ bs, WellFormedOf s (heapBaseAddress kernelEnd) bs

/-! ## The links of a chain -/

/-- A chain with links back is linked. -/
theorem Chain.isChain_link (h : Chain s a l) (hp : ∀ b ∈ l, s.next b ≠ 0 → s.prev (s.next b) = b)
    (hca : c ≠ 0 → s.next c = a) (hac : a ≠ 0 → s.prev a = c) :
    List.IsChain (Link 0 s.prev s.next) (c :: (l ++ [0])) := by
  induction h generalizing c with
  | nil => exact List.isChain_pair.2 ⟨hca, fun h₀ => absurd rfl h₀⟩
  | cons h₀ _ ih =>
    refine List.isChain_cons_cons.2 ⟨⟨hca, hac⟩, ?_⟩
    exact ih (fun b hb => hp b (List.mem_cons_of_mem _ hb)) (fun _ => rfl)
      fun hn => hp _ List.mem_cons_self hn

/-- A linked list is a chain. -/
theorem chain_of_isChain_link (h₀ : ∀ x ∈ l, x ≠ 0) (hc : c ≠ 0)
    (h : List.IsChain (Link 0 s.prev s.next) (c :: (l ++ [0]))) : Chain s (s.next c) l := by
  induction l generalizing c with
  | nil =>
    rw [(List.isChain_pair.1 h).1 hc]
    exact .nil
  | cons d l ih =>
    obtain ⟨hcd, hl⟩ := List.isChain_cons_cons.1 h
    rw [hcd.1 hc]
    exact .cons (h₀ d List.mem_cons_self) (ih (fun x hx => h₀ x (List.mem_cons_of_mem _ hx))
      (h₀ d List.mem_cons_self) hl)

theorem Chain.eq_headD (h : Chain s a l) : a = l.headD 0 := by
  cases h <;> rfl

/-- The blocks of a chain tile the memory up to the end of the heap, if their headers
    follow each other. -/
theorem Chain.tiles (h : Chain s a l)
    (hl : (l ++ [s.endAddress]).Pairwise fun x y => x + 12 ≤ y) :
    (l ++ [s.endAddress]).IsChain fun x y => x + sizeofBlockHeader + s.getBlockSize x = y := by
  have he := s.endAddress_lt
  induction h with
  | nil => exact List.isChain_singleton _
  | @cons a l h₀ hnext ih =>
    rw [List.cons_append, List.pairwise_cons] at hl
    have hn := hnext.eq_headD
    have htail := ih hl.2
    cases l with
    | nil =>
      refine List.isChain_pair.2 (State.add_getBlockSize_of_end h₀ (if_pos hn) he ?_)
      exact hl.1 _ (by simp)
    | cons b l =>
      have hb : a + 12 ≤ b := hl.1 b (by simp)
      have hbe : b + 12 ≤ s.endAddress := (List.pairwise_cons.1 hl.2).1 _ (by simp)
      refine List.isChain_cons_cons.2 ⟨State.add_getBlockSize_of_end h₀ ?_ (by omega) hb, htail⟩
      rw [hn, List.headD_cons, if_neg (by omega)]

/-- The blocks of a heap are found by following the links. -/
theorem Layout.chain (h : Layout s base bs) : Chain s base bs := by
  have h₀ : ∀ x ∈ bs, x ≠ 0 := fun x hx => (h.pos_of_mem hx).ne'
  obtain ⟨bs, rfl⟩ := List.head?_eq_some_iff.1 h.head_eq
  refine .cons h.base_pos.ne' (chain_of_isChain_link
    (fun x hx => h₀ x (List.mem_cons_of_mem _ hx)) h.base_pos.ne' ?_)
  exact (List.isChain_cons_cons.1 h.linked).2

/-- The blocks of which the list has the unused ones make a heap. -/
theorem fullyListed_iff : FullyListed s bs ↔
    Heap s s.baseNode bs ∧ ∀ b ∈ bs, s.used b = false → b ∈ s.freeList := by
  constructor
  · intro h
    refine ⟨⟨⟨Nat.pos_of_ne_zero h.baseNode_ne, rfl, ?_, ?_, ?_⟩, h.nodup_free, h.sorted,
      fun x hx => (h.mem_free_iff x).1 hx⟩, fun b hb hu => (h.mem_free_iff b).2 ⟨hb, hu⟩⟩
    · have hc := h.chain
      have h₀ := h.baseNode_ne
      generalize s.baseNode = base at hc h₀ ⊢
      cases hc with
      | nil => exact absurd rfl h₀
      | cons _ _ => rfl
    · exact h.chain.isChain_link h.prev_next (fun h₀ => absurd rfl h₀) fun _ => h.prev_base
    · have : IsTrans ℕ fun x y => x + 12 ≤ y := ⟨fun x y z hxy hyz => by omega⟩
      refine List.isChain_iff_pairwise.1 (h.tiles.imp fun x y hxy => ?_)
      rw [sizeofBlockHeader] at hxy
      omega
  · rintro ⟨h, hfree⟩
    refine ⟨h.base_pos.ne', h.chain, ?_, ?_, fun b hb hn => ?_, h.nodup_free, fun b => ?_, h.sorted⟩
    · exact h.chain.tiles h.tiles
    · obtain ⟨l, rfl⟩ := List.head?_eq_some_iff.1 h.head_eq
      exact h.toLayout.prev_eq (l := [])
    · obtain ⟨l, r, hbs⟩ := List.append_of_mem hb
      rw [hbs] at h
      rw [h.next_eq] at hn ⊢
      cases r with
      | nil => exact absurd rfl hn
      | cons c r =>
        have h' : Heap s s.baseNode ((l ++ [b]) ++ c :: r) := by simpa using h
        rw [List.headD_cons, h'.prev_eq, List.getLastD_concat]
    · exact ⟨fun hb => h.listed b hb, fun hb => hfree b hb.1 hb.2⟩

/-- A well-formed heap is one of which the list has the unused blocks, and in which
    they are not next to each other. -/
theorem wellFormedOf_iff_fullyListed (hbase : 0 < base) : WellFormedOf s base bs ↔
    s.baseNode = base ∧ FullyListed s bs ∧ Coalesced s bs := by
  constructor
  · intro h
    exact ⟨h.baseNode_eq, ⟨h.baseNode_eq ▸ hbase.ne', h.chain, h.tiles, h.prev_base, h.prev_next,
      h.nodup_free, h.mem_free_iff, h.sorted⟩, h.coalesced⟩
  · rintro ⟨rfl, h, hco⟩
    exact ⟨rfl, h.chain, h.tiles, h.prev_base, h.prev_next, hco, h.nodup_free, h.mem_free_iff,
      h.sorted⟩

theorem WellFormedOf.fullyListed (hbase : 0 < base) (h : WellFormedOf s base bs) :
    FullyListed s bs :=
  ((wellFormedOf_iff_fullyListed hbase).1 h).2.1

/-- A well-formed heap is a heap without adjacent or unlisted unused blocks. -/
theorem wellFormedOf_iff (hbase : 0 < base) : WellFormedOf s base bs ↔
    Heap s base bs ∧ Coalesced s bs ∧ ∀ b ∈ bs, s.used b = false → b ∈ s.freeList := by
  rw [wellFormedOf_iff_fullyListed hbase, fullyListed_iff]
  constructor
  · rintro ⟨rfl, ⟨h, hfree⟩, hco⟩
    exact ⟨h, hco, hfree⟩
  · rintro ⟨h, hco, hfree⟩
    obtain rfl := h.baseNode_eq
    exact ⟨rfl, ⟨h, hfree⟩, hco⟩

theorem heapBaseAddress_pos (kernelEnd : ℕ) : 0 < heapBaseAddress kernelEnd :=
  Nat.add_pos_right _ (by decide)

/-! ## Allocation -/

theorem Coalesced.mono (h : Coalesced s bs) (hu : ∀ x ∈ bs, s.used x = true → s'.used x = true) :
    Coalesced s' bs :=
  h.imp_of_mem_imp fun x y hx hy hxy => hxy.imp (hu x hx) (hu y hy)

/-- An allocation that does not split a block inside the heap keeps the unused blocks
    listed. -/
theorem FullyListed.allocated {bs' : List ℕ} (h : FullyListed s bs)
    (hh' : Heap s' s.baseNode bs') (ha : Heap.Allocated s bs size b s' bs') :
    FullyListed s' bs' := by
  have hunused : ∀ x ∈ bs, s'.used x = false → x ∈ s.freeList.erase b := fun x hx hu => by
    have hxb : x ≠ b := fun hxb => absurd ha.used (by simp [← hxb, hu])
    rw [h.nodup_free.mem_erase_iff]
    exact ⟨hxb, (h.mem_free_iff x).2 ⟨hx, ha.used_eq x hx hxb ▸ hu⟩⟩
  refine fullyListed_iff.2 ⟨hh'.baseNode_eq.symm ▸ hh', fun x hx hu => ?_⟩
  rcases ha.cases with ⟨rfl, hf⟩ | ⟨l, c, rfl, rfl, -, hcu, hf⟩
  · exact hf ▸ hunused x hx hu
  · refine hf.mem_iff.2 ?_
    have hx' : x ∈ l ++ [b] ∨ x = c := by simpa [or_assoc] using hx
    rcases hx' with hx | rfl
    · exact List.mem_cons_of_mem _ (hunused x hx hu)
    · exact List.mem_cons_self

/-- An allocation that does not split a block inside the heap keeps it well
    formed. -/
theorem WellFormedOf.allocated {bs' : List ℕ} (hbase : 0 < base) (h : WellFormedOf s base bs)
    (hh' : Heap s' base bs') (ha : Heap.Allocated s bs size b s' bs') :
    WellFormedOf s' base bs' := by
  obtain ⟨rfl, hf, hco⟩ := (wellFormedOf_iff_fullyListed hbase).1 h
  have hused : ∀ x ∈ bs, s.used x = true → s'.used x = true := fun x hx hu => by
    by_cases hxb : x = b
    · exact hxb ▸ ha.used
    · rw [ha.used_eq x hx hxb, hu]
  refine (wellFormedOf_iff_fullyListed hbase).2 ⟨hh'.baseNode_eq, hf.allocated hh' ha, ?_⟩
  rcases ha.cases with ⟨rfl, -⟩ | ⟨l, c, rfl, rfl, -, -, -⟩
  · exact hco.mono hused
  · exact List.isChain_split.2 ⟨hco.mono hused, List.isChain_pair.2 (.inl ha.used)⟩

/-- A request that does not split a block inside the heap keeps it well formed. -/
theorem wellFormed_malloc (h : WellFormed kernelEnd s) (hns : ¬s.SplitsInside size) :
    WellFormed kernelEnd (s.malloc size).2 := by
  obtain ⟨bs, hbs⟩ := h
  have hpos := heapBaseAddress_pos kernelEnd
  rcases ((wellFormedOf_iff hpos).1 hbs).1.malloc_cases hns with
    ⟨e, heq⟩ | ⟨b, s', bs', heq, hh', ha⟩
  · rw [heq]
    exact ⟨bs, hbs⟩
  · rw [heq]
    exact ⟨bs', hbs.allocated hpos hh' ha⟩

/-- The block that is split off lies in the payload of its block, apart from all
    the headers. -/
theorem Layout.apart_of_mem_payload (h : Layout s base bs) (hb : b ∈ bs) (hbc : b + 12 ≤ c)
    (hc : c ≤ b + s.getBlockSize b) (hx : x ∈ bs) : Apart x c ∧ x ≠ c := by
  rw [Apart]
  by_cases hxb : x = b
  · omega
  · have := h.separate hx hb hxb
    omega

/-- A request that splits a block inside the heap leaves the link back to the block
    that was split, of the block behind it. -/
theorem not_wellFormed_malloc (h : WellFormed kernelEnd s) (hs : s.SplitsInside size) :
    ¬WellFormed kernelEnd (s.malloc size).2 := by
  obtain ⟨bs, hbs⟩ := h
  obtain ⟨hh, -, -⟩ := (wellFormedOf_iff (heapBaseAddress_pos kernelEnd)).1 hbs
  obtain ⟨b, hm, hsplit, hn⟩ := hs
  obtain ⟨hb, hle, v, hv, heq⟩ := State.malloc_of_some hh.sorted hh.nodup_free hm
  have hbm : b ∈ bs := (hh.listed b hb).1
  have hnm : s.next b ∈ bs := hh.next_mem hbm hn
  obtain ⟨h₁, hf₁, hsize₁, -, -⟩ := hh.take hb hv
  set s₁ := (s.setFreeBlocks v).setUsed b true with hs₁
  set p := getSmallestGteMultiple size 4 with hp
  -- The block split off is at `c`, between `b` and the block behind it.
  set c := b + 12 + p with hc
  have hend : b + 12 + s₁.getBlockSize b < 2 ^ 32 := by
    obtain ⟨l, r, rfl⟩ := List.append_of_mem hbm
    exact (h₁.payload_le (x := s₁.endAddress) (by simp)).trans_lt s₁.endAddress_lt
  rw [← hsize₁ b hbm] at hsplit hle
  rw [State.split_of_lt hsplit, sizeofBlockHeader, u32_of_lt (show b + 12 + p < 2 ^ 32 by omega)]
    at heq
  rw [sizeofBlockHeader, u32Sub_of_le (by omega) hle] at hsplit
  have hapart : ∀ x ∈ bs, Apart x c ∧ x ≠ c := fun x hx =>
    h₁.apart_of_mem_payload hbm (by omega) (by omega) hx
  have hcb : Apart c b := .inr (.inr (by omega))
  have hsorted : (s₁.carve b c).FreeSorted := h₁.sorted.congr fun x hx => by
    have hx' := (h₁.listed x hx).1
    have hxb : x ≠ b := fun hxb => hh.nodup_free.not_mem_erase (hf₁ ▸ hxb ▸ hx)
    exact State.getBlockSize_congr
      (State.next_carve_of_ne (h₁.apart hx' hbm) (hapart x hx').1 hxb (hapart x hx').2) rfl
  obtain ⟨v', heq', hv'⟩ :=
    State.addFreeBlock_of_lt hsorted c (show v.size < 2048 from State.size_lt_of_erase hb hv)
  rw [heq'] at heq
  rw [heq]
  rintro ⟨bs', hbs'⟩
  -- It is listed, hence in the chain, and links to the block behind it.
  have hcv : c ∈ v'.toList := by
    rw [hv', List.mem_insertIdx lowerBound_le_length]
    exact .inl rfl
  have hcm := ((hbs'.mem_free_iff c).1 hcv).1
  have hnext : (s₁.carve b c).next c = s.next b :=
    (State.next_carve_new hcb (by omega)).trans (State.next_setUsed (.inl rfl))
  have hprev : (s₁.carve b c).prev (s.next b) = b := by
    rw [State.prev_carve_of_ne (h₁.apart hnm hbm) (hapart _ hnm).1 (hapart _ hnm).2,
      State.prev_setUsed (hh.apart hnm hbm)]
    exact hbs.prev_next b hbm hn
  have hback : (s₁.carve b c).next c ≠ 0 → (s₁.carve b c).prev ((s₁.carve b c).next c) = c :=
    hbs'.prev_next c hcm
  rw [hnext] at hback
  have : b = c := hprev.symm.trans (hback hn)
  omega

/-! ## Freeing -/

/-- Behind the block that has been freed, and the unused block that was merged
    into it, there is a used one. -/
theorem Coalesced.right {r' : List ℕ} (h : Coalesced s (l ++ b :: r))
    (hr : r' = r ∧ (∀ c ∈ r.head?, s.used c = true) ∨ ∃ c, r = c :: r' ∧ s.used c = false) :
    (∀ c ∈ r'.head?, s.used c = true) ∧ Coalesced s r' := by
  have hbr := (List.isChain_split.1 h).2
  rcases hr with ⟨rfl, hr⟩ | ⟨c, rfl, hc⟩
  · exact ⟨hr, (List.isChain_cons.1 hbr).2⟩
  · have hcr := List.isChain_cons.1 (List.isChain_cons.1 hbr).2
    exact ⟨fun d hd => (hcr.1 d hd).resolve_left (by simp [hc]), hcr.2⟩

theorem Coalesced.left {l' : List ℕ} {m : ℕ} (h : Coalesced s (l ++ b :: r))
    (hl : l' = l ∧ m = b ∧ (∀ a ∈ l.getLast?, s.used a = true) ∨ l = l' ++ [m] ∧ s.used m = false) :
    (∀ a ∈ l'.getLast?, s.used a = true) ∧ Coalesced s l' := by
  have hlb := List.isChain_append.1 h
  rcases hl with ⟨rfl, -, hl⟩ | ⟨rfl, hm⟩
  · exact ⟨hl, hlb.1⟩
  · have hlm := List.isChain_append.1 hlb.1
    exact ⟨fun a ha => (hlm.2.2 a ha m rfl).resolve_right (by simp [hm]), hlm.1⟩

/-- Where the list has room for a freed block, it still has when the block that it ends
    in is listed: if it was full, an unused neighbour has left it. -/
theorem FullyListed.size_lt_of_merge {l' r' : List ℕ} {m : ℕ} (h : FullyListed s (l ++ b :: r))
    (ht : s.TakesBack b) (hnd : s'.freeList.Nodup)
    (hm : Merge (s.setUsed b false) (l ++ b :: r) b s' (l' ++ m :: r') m)
    (hr : r' = r ∧ (∀ c ∈ r.head?, s.used c = true) ∨ ∃ c, r = c :: r' ∧ s.used c = false)
    (hl : l' = l ∧ m = b ∧ (∀ a ∈ l.getLast?, s.used a = true) ∨
      l = l' ++ [m] ∧ s.used m = false) : s'.freeBlocks.size < 2048 := by
  obtain ⟨hh, hfree⟩ := fullyListed_iff.1 h
  have hlen : s'.freeBlocks.size ≤ s.freeBlocks.size := by
    rw [← FCVector.length_toList, ← FCVector.length_toList]
    exact hm.length_free_le
  have hmerged : ∀ x ∈ l ++ b :: r, s.used x = false → (x ∉ l' ++ m :: r' ∨ x = m) →
      s'.freeBlocks.size < s.freeBlocks.size := fun x hx hxu hgone => by
    rw [← FCVector.length_toList, ← FCVector.length_toList]
    exact hm.length_free_lt hnd (hfree x hx hxu) hgone
  rcases ht with ht | ht
  · exact hlen.trans_lt ht
  refine lt_of_lt_of_le ?_ s.freeBlocks.size_le
  rcases hh.neighbourUnused_iff.1 ht with ⟨c, hc, hcu⟩ | ⟨a, ha, hau⟩
  · rcases hr with ⟨-, hr⟩ | ⟨d, rfl, -⟩
    · exact absurd (hr c hc) (by simp [hcu])
    · obtain rfl : d = c := by simpa using hc
      have hnot := (show Heap s s.baseNode ((l ++ [b]) ++ d :: r') by simpa using hh).not_mem
      refine hmerged d (by simp) hcu (.inl fun hd => ?_)
      rcases hl with ⟨rfl, rfl, -⟩ | ⟨rfl, -⟩ <;> grind
  · rcases hl with ⟨-, -, hl⟩ | ⟨rfl, hmu⟩
    · exact absurd (hl a ha) (by simp [hau])
    · exact hmerged m (by simp) hmu (.inr rfl)

/-- Freeing a used block, where the list has room for it, succeeds and keeps the
    unused blocks listed: the block and its unused neighbours are one, and the others
    are as they were. -/
theorem FullyListed.free (h : FullyListed s (l ++ b :: r)) (hu : s.used b = true)
    (ht : s.TakesBack b) :
    ∃ s' l' r' m, s.free (b + 12) = (.ok (), s') ∧ FullyListed s' (l' ++ m :: r') ∧
      s'.baseNode = s.baseNode ∧ s'.endAddress = s.endAddress ∧ s'.used m = false ∧
      (∀ x ∈ l' ++ r', s'.used x = s.used x ∧ s'.getBlockSize x = s.getBlockSize x) ∧
      (r' = r ∧ (∀ c ∈ r.head?, s.used c = true) ∨ ∃ c, r = c :: r' ∧ s.used c = false) ∧
      (l' = l ∧ m = b ∧ (∀ a ∈ l.getLast?, s.used a = true) ∨
        l = l' ++ [m] ∧ s.used m = false) := by
  obtain ⟨hh, hfree⟩ := fullyListed_iff.1 h
  rcases hh.free_cases hu with ⟨-, -, -, -, -, -, c, hc, hcu, hcf⟩ |
    ⟨s', l', r', m, v, heq, hnd, hh', hm, -, hperm, hr, hl⟩
  · exact absurd (hfree c hc hcu) hcf
  have hb : b ∈ l ++ b :: r := by simp
  have hbf : b ∉ s.freeList := fun hb' => absurd ((h.mem_free_iff b).1 hb').2 (by simp [hu])
  have hnot := hh'.not_mem
  -- What is left next to `m` is neither `m` nor `b`.
  have hother : ∀ x ∈ l' ++ r', x ∈ l' ++ m :: r' ∧ x ≠ m ∧ x ≠ b := fun x hx => by
    have hx' : x ∈ l' ++ m :: r' := by grind
    have hxm : x ≠ m := by grind
    exact ⟨hx', hxm, fun hxb => hxm (hxb.trans (hm.gone (hxb ▸ hx')))⟩
  have hused : ∀ x ∈ l' ++ r', s'.used x = s.used x := fun x hx =>
    (hm.used_eq x (hother x hx).1).trans (State.used_setUsed_of_ne (hother x hx).2.2)
  have hmu : s'.used m = false := by
    rw [hm.used_eq m hm.mem]
    rcases hl with ⟨-, rfl, -⟩ | ⟨rfl, hmu⟩
    · exact State.used_setUsed_self
    · rw [State.used_setUsed_of_ne, hmu]
      rintro rfl
      exact absurd hu (by simp [hmu])
  have hv := hperm (h.size_lt_of_merge ht hnd hm hr hl)
  refine ⟨_, l', r', m, heq, fullyListed_iff.2 ⟨hh'.baseNode_eq.symm ▸ hh', fun x hx hxu => ?_⟩,
    hh'.baseNode_eq, hm.endAddress_eq, hmu, fun x hx => ⟨hused x hx, ?_⟩, hr, hl⟩
  · rw [State.freeList, State.freeBlocks_setFreeBlocks, hv.mem_iff, List.mem_cons]
    by_cases hxm : x = m
    · exact .inl hxm
    · have hx' : x ∈ l' ++ r' := by grind
      refine .inr ((hm.free_iff x).2 ⟨?_, hx, hxm⟩)
      exact hfree x (hm.sublist.subset hx) ((hused x hx').symm.trans hxu)
  · rw [State.getBlockSize_setFreeBlocks, hm.size_eq x (hother x hx).1 (hother x hx).2.1]
    exact State.getBlockSize_setUsed (hh.apart (hm.sublist.subset (hother x hx).1) hb)

/-- Freeing a used block of a well-formed heap, where the list has room for it, keeps
    it well formed: the block and its unused neighbours are one, and the others are
    as they were. -/
theorem WellFormedOf.free (hbase : 0 < base) (h : WellFormedOf s base (l ++ b :: r))
    (hu : s.used b = true) (ht : s.TakesBack b) :
    ∃ s' l' r' m, s.free (b + 12) = (.ok (), s') ∧ WellFormedOf s' base (l' ++ m :: r') ∧
      s'.endAddress = s.endAddress ∧ s'.used m = false ∧
      (∀ x ∈ l' ++ r', s'.used x = s.used x ∧ s'.getBlockSize x = s.getBlockSize x) ∧
      (r' = r ∧ (∀ c ∈ r.head?, s.used c = true) ∨ ∃ c, r = c :: r' ∧ s.used c = false) ∧
      (l' = l ∧ m = b ∧ (∀ a ∈ l.getLast?, s.used a = true) ∨
        l = l' ++ [m] ∧ s.used m = false) := by
  obtain ⟨rfl, hf, hco⟩ := (wellFormedOf_iff_fullyListed hbase).1 h
  obtain ⟨s', l', r', m, heq, hf', hbn, hend, hmu, hother, hr, hl⟩ := hf.free hu ht
  have hl' := hco.left hl
  have hr' := hco.right hr
  have hkeep : ∀ x ∈ l' ++ r', s.used x = true → s'.used x = true :=
    fun x hx hxu => (hother x hx).1.trans hxu
  refine ⟨s', l', r', m, heq, (wellFormedOf_iff_fullyListed hbase).2 ⟨hbn, hf', ?_⟩, hend, hmu,
    hother, hr, hl⟩
  refine List.isChain_split.2 ⟨List.isChain_append.2 ⟨?_, List.isChain_singleton m, ?_⟩,
    List.isChain_cons.2 ⟨fun c hc => ?_, ?_⟩⟩
  · exact hl'.2.mono fun x hx => hkeep x (List.mem_append_left _ hx)
  · exact fun a ha _ _ => .inl
      (hkeep a (List.mem_append_left _ (List.mem_of_mem_getLast? ha)) (hl'.1 a ha))
  · exact .inr (hkeep c (List.mem_append_right _ (List.mem_of_mem_head? hc)) (hr'.1 c hc))
  · exact hr'.2.mono fun x hx => hkeep x (List.mem_append_right _ hx)

/-! ## The exact condition -/

/-- `malloc` keeps a well-formed heap so exactly when the request does not split a
    block inside the heap. -/
theorem wellFormed_malloc_iff (h : WellFormed kernelEnd s) (size : ℕ) :
    WellFormed kernelEnd (s.malloc size).2 ↔ ¬s.SplitsInside size :=
  ⟨fun h' hs => not_wellFormed_malloc h hs h', wellFormed_malloc h⟩

theorem wellFormed_of_initializeManager {fuel : ℕ}
    (h : initializeManager fuel kernelEnd s = some (.ok (), s'))
    (hend : heapBaseAddress kernelEnd + sizeofBlockHeader ≤ s'.endAddress) :
    WellFormedOf s' (heapBaseAddress kernelEnd) [heapBaseAddress kernelEnd] := by
  obtain ⟨hh, hf⟩ := heap_of_initializeManager h hend
  refine (wellFormedOf_iff (heapBaseAddress_pos kernelEnd)).2 ⟨hh, List.isChain_singleton _, ?_⟩
  exact fun b hb _ => hf ▸ hb

/-- The small heap with 40 bytes that are unused before 4 bytes in use. -/
def sampleHole : State := (((sampleHeap.malloc 40).2.malloc 4).2.free 0x10200c).2

theorem wellFormed_sampleHole : WellFormed sampleKernelEnd sampleHole := by
  have h : WellFormed sampleKernelEnd sampleHeap :=
    ⟨_, wellFormed_of_initializeManager initializeManager_sample (by decide +kernel)⟩
  have h₁ : WellFormed sampleKernelEnd (sampleHeap.malloc 40).2 :=
    wellFormed_malloc h (by decide +kernel)
  obtain ⟨bs, h₂⟩ : WellFormed sampleKernelEnd ((sampleHeap.malloc 40).2.malloc 4).2 :=
    wellFormed_malloc h₁ (by decide +kernel)
  have hpos := heapBaseAddress_pos sampleKernelEnd
  -- The block that is freed is the first one.
  obtain ⟨r, rfl⟩ := List.head?_eq_some_iff.1 ((wellFormedOf_iff hpos).1 h₂).1.head_eq
  obtain ⟨s', l', r', m, heq, hs', -⟩ :=
    h₂.free (l := []) hpos (by decide +kernel) (.inl (by decide +kernel))
  refine ⟨l' ++ m :: r', ?_⟩
  rw [sampleHole, show 0x10200c = heapBaseAddress sampleKernelEnd + 12 from rfl, heq]
  exact hs'

theorem wellFormed_malloc_sample : WellFormed sampleKernelEnd (sampleHole.malloc 40).2 ↔
    ¬sampleHole.SplitsInside 40 :=
  wellFormed_malloc_iff wellFormed_sampleHole 40

/-- Splitting these 40 bytes for 8 ones does not keep the heap well formed. -/
theorem malloc_sampleHole : WellFormed sampleKernelEnd sampleHole ∧ RoundingFits 8 4 ∧
    ¬WellFormed sampleKernelEnd (sampleHole.malloc 8).2 :=
  ⟨wellFormed_sampleHole, by decide,
    not_wellFormed_malloc wellFormed_sampleHole (by decide +kernel)⟩

end KessokuOS.MemoryManager
