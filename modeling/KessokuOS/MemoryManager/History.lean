import KessokuOS.MemoryManager.Atomic
import KessokuOS.MemoryManager.BestFit
import KessokuOS.MemoryManager.Confluence

/-!
# The heap does not remember

Blocks that tile the memory between the same ends, and of which no two unused ones are
next to each other, are determined by the used ones: the unused ones are the gaps
(`Extent.eq_of_used`). Hence what is allocated determines a well-formed heap, whatever
requests and frees have led to it, its links and its list included, but for the order of
the unused blocks of one size (`Client.run_sameHeap`).
-/

namespace KessokuOS.MemoryManager

namespace Extent

/-- The extents tile the memory from `a` to `stop`. -/
def Tile (stop : ℕ) : (a : ℕ) → List Extent → Prop
  | a, [] => a = stop
  | a, e :: l => e.start = a ∧ a < e.stop ∧ Tile stop e.stop l

variable {stop a : ℕ} {e d : Extent} {k l : List Extent}

theorem Tile.le (h : Tile stop a l) : a ≤ stop := by
  induction l generalizing a with
  | nil => exact h.le
  | cons e l ih => exact h.2.1.le.trans (ih h.2.2)

theorem Tile.le_start (h : Tile stop a l) (he : e ∈ l) : a ≤ e.start := by
  induction l generalizing a with
  | nil => exact absurd he List.not_mem_nil
  | cons d l ih =>
    rcases List.mem_cons.1 he with rfl | he
    · exact h.1.ge
    · exact h.2.1.le.trans (ih h.2.2 he)

/-- What is not used ends where the next extent begins, which is used. -/
theorem Tile.stop_eq (h : Tile stop a l) :
    a = (l.head?.map Extent.start).getD stop := by
  cases l with
  | nil => exact h
  | cons d l => exact h.1.symm

/-- No two unused extents are next to each other. -/
def Separated (l : List Extent) : Prop :=
  l.IsChain fun x y => x.used = true ∨ y.used = true

/-- The first of the used extents is the first one behind an unused extent. -/
theorem Separated.head? (h : Separated (e :: l)) (he : e.used = false) :
    (l.filter (·.used)).head? = l.head? := by
  cases l with
  | nil => rfl
  | cons d l =>
    have hd : d.used = true := (List.isChain_cons_cons.1 h).1.resolve_left (by simp [he])
    rw [List.filter_cons_of_pos hd]
    rfl

/-- An extent which is used is not where an unused one is. -/
theorem Tile.not_used_unused (h : Tile stop a (d :: l)) (hd : d.used = false) (he : e.start = a)
    (hmem : e ∈ (d :: l).filter (·.used)) : False := by
  obtain ⟨hmem, hu⟩ := List.mem_filter.1 hmem
  rcases List.mem_cons.1 hmem with rfl | hmem
  · exact absurd hu (by simp [hd])
  · have hlt := h.2.1
    have hle := h.2.2.le_start hmem
    omega

/-- The used extents determine the others. -/
theorem eq_of_used (hk : Tile stop a k) (hl : Tile stop a l) (hks : Separated k)
    (hls : Separated l) (hu : k.filter (·.used) = l.filter (·.used)) : k = l := by
  induction k generalizing a l with
  | nil =>
    cases l with
    | nil => rfl
    | cons d l =>
      have hstop : a = stop := hk
      have hle := hl.2.2.le
      have hlt := hl.2.1
      omega
  | cons e k ih =>
    cases l with
    | nil =>
      have hstop : a = stop := hl
      have hle := hk.2.2.le
      have hlt := hk.2.1
      omega
    | cons d l =>
      have hks' := (List.isChain_cons.1 hks).2
      have hls' := (List.isChain_cons.1 hls).2
      cases he : e.used <;> cases hd : d.used
      · -- Both gaps reach to the first used extent.
        rw [List.filter_cons_of_neg (by simp [he]), List.filter_cons_of_neg (by simp [hd])] at hu
        have hhead : k.head? = l.head? := by rw [← hks.head? he, ← hls.head? hd, hu]
        have hstop : e.stop = d.stop := by rw [hk.2.2.stop_eq, hl.2.2.stop_eq, hhead]
        obtain rfl : e = d := by
          cases e
          cases d
          exact Extent.mk.injEq .. ▸ ⟨hk.1.trans hl.1.symm, hstop, he.trans hd.symm⟩
        rw [ih hk.2.2 hl.2.2 hks' hls' hu]
      · refine (hk.not_used_unused he hl.1 ?_).elim
        rw [hu]
        exact List.mem_filter.2 ⟨List.mem_cons_self, hd⟩
      · refine (hl.not_used_unused hd hk.1 ?_).elim
        rw [← hu]
        exact List.mem_filter.2 ⟨List.mem_cons_self, he⟩
      · rw [List.filter_cons_of_pos he, List.filter_cons_of_pos hd] at hu
        obtain ⟨rfl, hu'⟩ := List.cons.inj hu
        rw [ih hk.2.2 hl.2.2 hks' hls' hu']

/-- The extents are in the order of where they start. -/
theorem Tile.pairwise (h : Tile stop a l) : l.Pairwise fun x y => x.start < y.start := by
  induction l generalizing a with
  | nil => exact .nil
  | cons d l ih =>
    refine List.pairwise_cons.2 ⟨fun e he => ?_, ih h.2.2⟩
    rw [h.1]
    exact h.2.1.trans_le (h.2.2.le_start he)

/-- It is enough to know which extents are used. -/
theorem eq_of_mem_used (hk : Tile stop a k) (hl : Tile stop a l) (hks : Separated k)
    (hls : Separated l) (hu : ∀ e : Extent, e.used = true → (e ∈ k ↔ e ∈ l)) : k = l := by
  refine eq_of_used hk hl hks hls ?_
  have hk' := hk.pairwise.filter (·.used)
  have hl' := hl.pairwise.filter (·.used)
  refine List.Perm.eq_of_pairwise (fun x y _ _ hxy hyx => absurd hyx hxy.asymm) hk' hl' ?_
  refine (List.perm_ext_iff_of_nodup (hk'.imp fun hxy => ?_) (hl'.imp fun hxy => ?_)).2 fun e => ?_
  · exact fun hxy' => hxy.ne (congrArg start hxy')
  · exact fun hxy' => hxy.ne (congrArg start hxy')
  · rw [List.mem_filter, List.mem_filter]
    exact and_congr_left fun he => hu e he

end Extent

open Extent Run

variable {s s' : State} {base b kernelEnd : ℕ} {bs bs' : List ℕ}

theorem tile_extents {stop a : ℕ}
    (h : (bs ++ [stop]).IsChain fun x y => x + sizeofBlockHeader + s.getBlockSize x = y)
    (ha : (bs ++ [stop]).head? = some a) : Tile stop a (s.extents bs) := by
  induction bs generalizing a with
  | nil => exact (Option.some_inj.1 ha).symm
  | cons b bs ih =>
    obtain rfl : b = a := Option.some_inj.1 ha
    obtain ⟨hb, hbs⟩ := List.isChain_cons.1 h
    refine ⟨rfl, ?_, ih hbs ?_⟩
    · rw [State.extent, sizeofBlockHeader]
      dsimp only
      omega
    · cases bs with
      | nil => exact congrArg some (hb stop rfl).symm
      | cons c bs => exact congrArg some (hb c rfl).symm

/-- The extents of the blocks of a well-formed heap. -/
theorem WellFormedOf.tile (hbase : 0 < base) (h : WellFormedOf s base bs) :
    Tile s.endAddress base (s.extents bs) ∧ Separated (s.extents bs) := by
  obtain ⟨bs, rfl⟩ := List.head?_eq_some_iff.1 ((wellFormedOf_iff hbase).1 h).1.head_eq
  refine ⟨tile_extents h.tiles rfl, ?_⟩
  exact List.isChain_map_of_isChain s.extent (fun x y hxy => hxy) h.coalesced

theorem map_start_extents (s : State) (bs : List ℕ) : (s.extents bs).map Extent.start = bs := by
  rw [State.extents, List.map_map]
  exact List.map_id' bs

/-- What is used determines a well-formed heap between given ends: its blocks, their
    headers, and which of them are listed. -/
theorem eq_of_used_extents (h : WellFormedOf s (heapBaseAddress kernelEnd) bs)
    (h' : WellFormedOf s' (heapBaseAddress kernelEnd) bs') (hend : s'.endAddress = s.endAddress)
    (hu : ∀ e : Extent, e.used = true → (e ∈ s'.extents bs' ↔ e ∈ s.extents bs)) :
    bs' = bs ∧ s'.freeList.Perm s.freeList ∧ ∀ b ∈ bs, s'.prev b = s.prev b ∧
      s'.next b = s.next b ∧ s'.used b = s.used b ∧ s'.getBlockSize b = s.getBlockSize b := by
  have hpos := heapBaseAddress_pos kernelEnd
  obtain ⟨ht, hs⟩ := h.tile hpos
  obtain ⟨ht', hs'⟩ := h'.tile hpos
  rw [hend] at ht'
  have heq : s'.extents bs' = s.extents bs := eq_of_mem_used ht' ht hs' hs hu
  obtain rfl : bs' = bs := by
    rw [← map_start_extents s' bs', heq, map_start_extents]
  have hext : ∀ b ∈ bs', s'.extent b = s.extent b := List.map_inj_left.1 heq
  have hh := ((wellFormedOf_iff hpos).1 h).1
  have hh' := ((wellFormedOf_iff hpos).1 h').1
  refine ⟨rfl, ?_, fun b hb => ?_⟩
  · refine (List.perm_ext_iff_of_nodup h'.nodup_free h.nodup_free).2 fun b => ?_
    rw [h'.mem_free_iff, h.mem_free_iff]
    exact and_congr_right fun hb => by rw [show s'.used b = s.used b from
      congrArg Extent.used (hext b hb)]
  · have hsize : b + 12 + s'.getBlockSize b = b + 12 + s.getBlockSize b :=
      congrArg Extent.stop (hext b hb)
    obtain ⟨l, r, rfl⟩ := List.append_of_mem hb
    refine ⟨?_, ?_, congrArg Extent.used (hext b hb), by omega⟩
    · rw [hh'.prev_eq, hh.prev_eq]
    · rw [hh'.next_eq, hh.next_eq]

/-! ## Runs -/

variable {ps : List ℕ} {size p stop : ℕ}

/-- The same blocks with the same headers, the same of them listed, in some order, and
    the same requests refused. -/
structure SameHeap (s s' : State) : Prop where
  blocks : ∃ bs, Chain s s.baseNode bs ∧ Chain s' s'.baseNode bs ∧ ∀ b ∈ bs, s'.prev b = s.prev b ∧
    s'.next b = s.next b ∧ s'.used b = s.used b ∧ s'.getBlockSize b = s.getBlockSize b
  listed : s'.freeList.Perm s.freeList
  refused : ∀ size, s'.malloc size = (.error .memoryManagerNoFreeBlocks, s') ↔
    s.malloc size = (.error .memoryManagerNoFreeBlocks, s)

/-- A request that does not split a block inside the heap adds its payload. -/
theorem WellFormedOf.malloc_payloads (hbase : 0 < base) (h : WellFormedOf s base bs)
    (hns : ¬s.SplitsInside size) : (∃ e, s.malloc size = (.error e, s)) ∨
      ∃ p t bs', s.malloc size = (.ok p, t) ∧ WellFormedOf t base bs' ∧
        t.endAddress = s.endAddress ∧ (t.payloads bs').Perm (p :: s.payloads bs) := by
  have hh := ((wellFormedOf_iff hbase).1 h).1
  rcases hh.malloc_cases hns with he | ⟨b, t, bs', heq, hh', ha⟩
  · exact .inl he
  refine .inr ⟨b + 12, t, bs', heq, h.allocated hbase hh' ha, ha.endAddress_eq, ?_⟩
  obtain ⟨hb, hbu⟩ := hh.listed b ha.mem_free
  rcases ha.cases with ⟨rfl, -⟩ | ⟨l, c, rfl, rfl, -, hcu, -⟩
  · obtain ⟨l, r, rfl⟩ := List.append_of_mem hb
    have hnot := hh.not_mem
    rw [payloads_append, payloads_append, payloads_cons_of_unused hbu,
      payloads_cons_of_used ha.used,
      payloads_congr fun x hx => ha.used_eq x (by simp [hx]) fun hxb => hnot.1 (hxb ▸ hx),
      payloads_congr fun x hx => ha.used_eq x (by simp [hx]) fun hxb => hnot.2 (hxb ▸ hx)]
    exact List.perm_middle
  · -- The block that is split is the last one, and its end is unused.
    have hnot := hh.not_mem
    rw [payloads_append, payloads_append, payloads_cons_of_unused hbu,
      payloads_cons_of_used ha.used, payloads_cons_of_unused hcu,
      payloads_congr fun x hx => ha.used_eq x (by simp [hx]) fun hxb => hnot.1 (hxb ▸ hx)]
    exact List.perm_middle

/-- Freeing the payload of a used block that the list has room for takes it off the
    payloads. -/
theorem WellFormedOf.free_payloads (hbase : 0 < base) (h : WellFormedOf s base bs)
    (ht : s.TakesBack (p - sizeofBlockHeader)) (hp : (p :: ps).Perm (s.payloads bs)) :
    ∃ s' bs', s.free p = (.ok (), s') ∧ WellFormedOf s' base bs' ∧
      s'.endAddress = s.endAddress ∧ ps.Perm (s'.payloads bs') := by
  obtain ⟨b, hb, rfl⟩ := List.mem_map.1 (hp.subset List.mem_cons_self)
  obtain ⟨hbs, hu⟩ := List.mem_filter.1 hb
  obtain ⟨l, r, rfl⟩ := List.append_of_mem hbs
  rw [Nat.add_sub_cancel] at ht
  obtain ⟨s', l', r', m, heq, h', hend, hmu, hother, hr, hl⟩ := h.free hbase hu ht
  -- What is merged is unused, and has no payload among those in use.
  have hpr : s.payloads r' = s.payloads r := by
    rcases hr with ⟨rfl, -⟩ | ⟨c, rfl, hc⟩
    · rfl
    · rw [payloads_cons_of_unused hc]
  have hpl : s.payloads l' = s.payloads l := by
    rcases hl with ⟨rfl, -, -⟩ | ⟨rfl, hm⟩
    · rfl
    · rw [payloads_append, payloads_cons_of_unused hm]
      exact (List.append_nil _).symm
  refine ⟨s', l' ++ m :: r', heq, h', hend, ?_⟩
  rw [payloads_append, payloads_cons_of_unused hmu,
    payloads_congr fun x hx => (hother x (List.mem_append_left _ hx)).1,
    payloads_congr fun x hx => (hother x (List.mem_append_right _ hx)).1, hpl, hpr]
  rw [payloads_append, payloads_cons_of_used hu] at hp
  exact (List.perm_cons _).1 (hp.trans List.perm_middle)

/-- A used extent of a heap is one of another heap where the same is in use. -/
theorem mem_extents_of_payloads {e : Extent} (hp : ∀ p ∈ s.payloads bs, p ∈ s'.payloads bs' ∧
    s'.getBlockSize (p - sizeofBlockHeader) = s.getBlockSize (p - sizeofBlockHeader))
    (he : e.used = true) (hmem : e ∈ s.extents bs) : e ∈ s'.extents bs' := by
  obtain ⟨b, hb, rfl⟩ := List.mem_map.1 hmem
  obtain ⟨hp', hsize⟩ := hp (b + 12) (List.mem_map.2 ⟨b, List.mem_filter.2 ⟨hb, he⟩, rfl⟩)
  obtain ⟨x, hx, hxb⟩ := List.mem_map.1 hp'
  obtain rfl : x = b := Nat.add_right_cancel hxb
  obtain ⟨hx, hxu⟩ := List.mem_filter.1 hx
  rw [Nat.add_sub_cancel] at hsize
  refine List.mem_map.2 ⟨x, hx, ?_⟩
  rw [State.extent, State.extent, hsize, hxu, show s.used x = true from he]

theorem HasRoom.congr (h : HasRoom s bs size)
    (hb : ∀ b ∈ bs, s'.used b = s.used b ∧ s'.getBlockSize b = s.getBlockSize b) :
    HasRoom s' bs size := by
  obtain ⟨b, hbs, hu, hle⟩ := h
  exact ⟨b, hbs, (hb b hbs).1.trans hu, hle.trans_eq (hb b hbs).2.symm⟩

/-- The requests that are refused for want of room. -/
theorem FullyListed.refused_iff (h : FullyListed s bs) :
    s.malloc size = (.error .memoryManagerNoFreeBlocks, s) ↔ size ≠ 0 ∧ ¬HasRoom s bs size := by
  by_cases h₀ : size = 0
  · have hz : s.malloc size = (.error .invalidArgument, s) := if_pos h₀
    rw [hz]
    simp [h₀]
  · refine ⟨fun herr => ⟨h₀, fun hroom => ?_⟩, fun hroom => h.malloc_of_not_hasRoom h₀ hroom.2⟩
    obtain ⟨l, b, r, s', -, heq, -⟩ := h.malloc_of_hasRoom h₀ hroom
    rw [heq] at herr
    exact absurd (congrArg Prod.fst herr) (by simp)

/-- Heaps with the same used extents are the same. -/
theorem WellFormedOf.sameHeap (h : WellFormedOf s (heapBaseAddress kernelEnd) bs)
    (h' : WellFormedOf s' (heapBaseAddress kernelEnd) bs') (hend : s'.endAddress = s.endAddress)
    (hu : ∀ e : Extent, e.used = true → (e ∈ s'.extents bs' ↔ e ∈ s.extents bs)) :
    SameHeap s s' := by
  have hpos := heapBaseAddress_pos kernelEnd
  obtain ⟨rfl, hf, hb⟩ := eq_of_used_extents h h' hend hu
  refine ⟨⟨bs', h.chain, h'.chain, hb⟩, hf, fun size => ?_⟩
  rw [(h.fullyListed hpos).refused_iff, (h'.fullyListed hpos).refused_iff]
  refine and_congr_right fun _ => not_congr ⟨fun hr => hr.congr fun b hb' => ?_,
    fun hr => hr.congr fun b hb' => ?_⟩
  · exact ⟨(hb b hb').2.2.1.symm, (hb b hb').2.2.2.symm⟩
  · exact (hb b hb').2.2

namespace Client

/-- The heap is well formed, and its used blocks are what is allocated. -/
def Exact (base stop : ℕ) (c : Client) : Prop :=
  ∃ bs, WellFormedOf c.heap base bs ∧ c.heap.endAddress = stop ∧ c.live.Perm (c.heap.payloads bs)

theorem Exact.step {c c' : Client} {a : Call} (hbase : 0 < base) (h : c.Exact base stop)
    (ho : c.Orderly a) (hs : c.step a = some c') : c'.Exact base stop := by
  obtain ⟨bs, hw, hend, hlive⟩ := h
  cases a with
  | malloc size =>
    rw [Client.step] at hs
    split_ifs at hs with hsize
    rcases hw.malloc_payloads hbase ho with ⟨e, heq⟩ | ⟨p, t, bs', heq, hw', hend', hp⟩
    · rw [heq] at hs
      exact Option.some.inj hs ▸ ⟨bs, hw, hend, hlive⟩
    · rw [heq] at hs
      exact Option.some.inj hs ▸ ⟨bs', hw', hend'.trans hend, (hlive.cons p).trans hp.symm⟩
  | free p =>
    rw [Client.step] at hs
    split_ifs at hs with hp
    by_cases hp₀ : p = 0
    · have heq : c.heap.free p = (.ok (), c.heap) := if_pos hp₀
      have hnot : p ∉ c.live := fun hmem => by
        obtain ⟨b, -, hb⟩ := List.mem_map.1 (hlive.subset hmem)
        exact absurd (hb.trans hp₀) (Nat.succ_ne_zero _)
      rw [heq, List.erase_of_not_mem hnot] at hs
      exact Option.some.inj hs ▸ ⟨bs, hw, hend, hlive⟩
    · have hmem := hp.resolve_left hp₀
      obtain ⟨t, bs', heq, hw', hend', hp'⟩ := hw.free_payloads hbase (ho.resolve_left hp₀)
        ((List.perm_cons_erase hmem).symm.trans hlive)
      rw [heq] at hs
      exact Option.some.inj hs ▸ ⟨bs', hw', hend'.trans hend, hp'⟩

/-- Two heaps with the same allocations, and as much in each, are the same. -/
theorem Exact.sameHeap {c c' : Client} (h : c.Exact (heapBaseAddress kernelEnd) stop)
    (h' : c'.Exact (heapBaseAddress kernelEnd) stop) (hlive : c'.live.Perm c.live)
    (hsize : ∀ p ∈ c.live, c'.heap.getBlockSize (p - sizeofBlockHeader) =
      c.heap.getBlockSize (p - sizeofBlockHeader)) : SameHeap c.heap c'.heap := by
  obtain ⟨bs, hw, hend, hl⟩ := h
  obtain ⟨bs', hw', hend', hl'⟩ := h'
  have hpay : (c'.heap.payloads bs').Perm (c.heap.payloads bs) := (hl'.symm.trans hlive).trans hl
  refine hw.sameHeap hw' (hend'.trans hend.symm) fun e he => ⟨fun hmem => ?_, fun hmem => ?_⟩
  · refine mem_extents_of_payloads (fun p hp => ⟨hpay.subset hp, (hsize p ?_).symm⟩) he hmem
    exact hl.symm.subset (hpay.subset hp)
  · refine mem_extents_of_payloads (fun p hp => ⟨hpay.symm.subset hp, hsize p ?_⟩) he hmem
    exact hl.symm.subset hp

/-- Runs without splits inside the heap and without frees into a full list, from the
    initial heap, that end with the same allocations and as much in each, end in the same
    heap: what has been allocated and freed in between is forgotten. -/
theorem run_sameHeap {fuel kernelEnd : ℕ} {t t' : State} {c c' : Client} {l l' : List Call}
    (h : initializeManager fuel kernelEnd t = some (.ok (), t'))
    (hend : heapBaseAddress kernelEnd + sizeofBlockHeader ≤ t'.endAddress)
    (hl : Along step Orderly ⟨t', []⟩ l) (hr : run step ⟨t', []⟩ l = some c)
    (hl' : Along step Orderly ⟨t', []⟩ l') (hr' : run step ⟨t', []⟩ l' = some c')
    (hlive : c'.live.Perm c.live)
    (hsize : ∀ p ∈ c.live, c'.heap.getBlockSize (p - sizeofBlockHeader) =
      c.heap.getBlockSize (p - sizeofBlockHeader)) : SameHeap c.heap c'.heap := by
  have hpos := heapBaseAddress_pos kernelEnd
  have hw := wellFormed_of_initializeManager h hend
  have hu : t'.used (heapBaseAddress kernelEnd) = false :=
    ((hw.mem_free_iff _).1 ((heap_of_initializeManager h hend).2 ▸ List.mem_singleton_self _)).2
  have h₀ : Exact (heapBaseAddress kernelEnd) t'.endAddress ⟨t', []⟩ :=
    ⟨_, hw, rfl, by rw [payloads_cons_of_unused hu]; rfl⟩
  have hstep : ∀ c a c', Exact (heapBaseAddress kernelEnd) t'.endAddress c → c.Orderly a →
      c.step a = some c' → Exact (heapBaseAddress kernelEnd) t'.endAddress c' :=
    fun _ _ _ hc ho hs => hc.step hpos ho hs
  exact (invariant_of_along hstep h₀ hl hr).sameHeap (invariant_of_along hstep h₀ hl' hr')
    hlive hsize

/-- The first block is freed and allocated again, or kept. -/
theorem run_sameHeap_sample : ∃ c c',
    run step ⟨sampleHeap, []⟩ [.malloc 40, .malloc 4] = some c ∧
    run step ⟨sampleHeap, []⟩ [.malloc 40, .malloc 4, .free 0x10200c, .malloc 37] = some c' ∧
      SameHeap c.heap c'.heap := by
  have hrun : (run step ⟨sampleHeap, []⟩ [.malloc 40, .malloc 4]).map (fun c => (c.live,
      c.heap.getBlockSize 0x102000, c.heap.getBlockSize 0x102034)) =
      some ([0x102040, 0x10200c], 40, 4) := by decide +kernel
  have hrun' : (run step ⟨sampleHeap, []⟩
      [.malloc 40, .malloc 4, .free 0x10200c, .malloc 37]).map (fun c => (c.live,
      c.heap.getBlockSize 0x102000, c.heap.getBlockSize 0x102034)) =
      some ([0x10200c, 0x102040], 40, 4) := by decide +kernel
  obtain ⟨c, hc, heq⟩ := Option.map_eq_some_iff.1 hrun
  obtain ⟨c', hc', heq'⟩ := Option.map_eq_some_iff.1 hrun'
  simp only [Prod.mk.injEq] at heq heq'
  refine ⟨c, c', hc, hc', run_sameHeap initializeManager_sample (by decide +kernel)
    (by decide +kernel) hc (by decide +kernel) hc' ?_ ?_⟩
  · rw [heq.1, heq'.1]
    exact List.Perm.swap ..
  · intro p hp
    rw [heq.1] at hp
    rcases List.mem_pair.1 hp with rfl | rfl
    · exact heq'.2.2.trans heq.2.2.symm
    · exact heq'.2.1.trans heq.2.1.symm

end Client

end KessokuOS.MemoryManager
