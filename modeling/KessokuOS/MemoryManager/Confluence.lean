import Mathlib.Data.List.Perm.Subperm
import KessokuOS.MemoryManager.WellFormed

/-!
# Freeing in any order

Whatever is allocated from the initial heap, freeing all of it gives the initial
heap back, in whatever order it is done (`freeAll_perm`). Among the blocks of a
well-formed heap, the used ones are the allocations (`payloads`):

* each request uses the last block, as all the others are used, and adds its
  payload (`mallocAll_spec`);
* each `free` takes its payload off, and the heap stays well formed
  (`freeAll_spec`). The list is never full: as no two unused blocks are next to
  each other, at most every other block is listed (`length_freeList_lt`);
* without a used block, a well-formed heap has only one block.
-/

namespace KessokuOS.MemoryManager

namespace State

/-- Allocates the given sizes, in turn, and returns the addresses; fails when one
    of them does. -/
def mallocAll (s : State) : List ℕ → Option (List ℕ × State)
  | [] => some ([], s)
  | size :: sizes =>
    match s.malloc size with
    | (.ok p, s) => (mallocAll s sizes).map fun r => (p :: r.1, r.2)
    | (.error _, _) => none

/-- Frees the given addresses, in turn; fails when one of them does. -/
def freeAll (s : State) : List ℕ → Option State
  | [] => some s
  | p :: ps =>
    match s.free p with
    | (.ok (), s) => freeAll s ps
    | (.error _, _) => none

/-- The addresses of the payloads of the used blocks among `bs`. -/
def payloads (s : State) (bs : List ℕ) : List ℕ := (bs.filter s.used).map (· + 12)

end State

variable {s s' : State} {base b c n x size kernelEnd : ℕ} {bs l r ps qs sizes : List ℕ}

theorem payloads_append : s.payloads (l ++ r) = s.payloads l ++ s.payloads r := by
  rw [State.payloads, List.filter_append, List.map_append]
  rfl

theorem payloads_cons_of_used (h : s.used b = true) :
    s.payloads (b :: l) = (b + 12) :: s.payloads l := by
  rw [State.payloads, List.filter_cons_of_pos h]
  rfl

theorem payloads_cons_of_unused (h : s.used b = false) : s.payloads (b :: l) = s.payloads l := by
  rw [State.payloads, List.filter_cons_of_neg (by simp [h])]
  rfl

theorem payloads_congr (h : ∀ x ∈ bs, s'.used x = s.used x) : s'.payloads bs = s.payloads bs := by
  rw [State.payloads, List.filter_congr h]
  rfl

/-! ## Allocation -/

/-- A heap of which only the last block may be unused, as requests alone make it. -/
structure Packed (s : State) (base : ℕ) (bs : List ℕ) : Prop extends WellFormedOf s base bs where
  used_of_dropLast : ∀ b ∈ bs.dropLast, s.used b = true

/-- The block that serves a request to a packed heap is the last one. -/
theorem Packed.eq_concat (h : Packed s base bs) (hb : b ∈ s.freeList) : ∃ l, bs = l ++ [b] := by
  obtain ⟨hbs, hu⟩ := (h.mem_free_iff b).1 hb
  rcases List.eq_nil_or_concat bs with rfl | ⟨l, t, rfl⟩
  · exact absurd hbs List.not_mem_nil
  · rw [List.concat_eq_append] at hbs h
    have hl := h.used_of_dropLast
    rw [List.dropLast_concat] at hl
    rcases List.mem_append.1 hbs with hbl | hbt
    · exact absurd (hl b hbl) (by simp [hu])
    · exact ⟨l, by rw [List.concat_eq_append, List.mem_singleton.1 hbt]⟩

/-- A request to a packed heap that succeeds uses its last block, and adds its
    payload. -/
theorem Packed.malloc (hbase : 0 < base) (h : Packed s base bs) {p : ℕ}
    (hm : s.malloc size = (.ok p, s')) : ∃ bs', Packed s' base bs' ∧
      s'.payloads bs' = s.payloads bs ++ [p] ∧ bs'.length ≤ bs.length + 1 := by
  have hh := ((wellFormedOf_iff hbase).1 h.toWellFormedOf).1
  -- Only the last block of a packed heap is free, so no split is inside of it.
  have hns : ¬s.SplitsInside size := by
    rintro ⟨b, hb, -, hn⟩
    obtain ⟨l, rfl⟩ := h.eq_concat (State.malloc_of_some hh.sorted hh.nodup_free hb).1
    exact hn hh.next_eq
  rcases hh.malloc_cases hns with ⟨e, heq⟩ | ⟨b, t, bs', heq, hh', ha⟩
  · rw [heq] at hm
    exact absurd (congrArg Prod.fst hm) (by simp)
  rw [heq] at hm
  obtain ⟨hp, rfl⟩ := Prod.mk.inj hm
  obtain rfl : b + 12 = p := Except.ok.inj hp
  have hwf := h.toWellFormedOf.allocated hbase hh' ha
  obtain ⟨l, rfl⟩ := h.eq_concat ha.mem_free
  have hnot := hh.not_mem
  have hl : ∀ x ∈ l, t.used x = s.used x := fun x hx =>
    ha.used_eq x (List.mem_append_left _ hx) fun hxb => hnot.1 (hxb ▸ hx)
  have hlu : ∀ x ∈ l, t.used x = true := fun x hx => by
    have := h.used_of_dropLast
    rw [List.dropLast_concat] at this
    rw [hl x hx, this x hx]
  have hbu : s.used b = false := (hh.listed b ha.mem_free).2
  have hpay : s.payloads (l ++ [b]) = s.payloads l := by
    rw [payloads_append, payloads_cons_of_unused hbu]
    exact List.append_nil _
  rcases ha.cases with ⟨rfl, -⟩ | ⟨l', c, hl', rfl, -, hcu, -⟩
  · refine ⟨_, ⟨hwf, ?_⟩, ?_, Nat.le_succ _⟩
    · rwa [List.dropLast_concat]
    · rw [hpay, payloads_append, payloads_congr hl, payloads_cons_of_used ha.used]
      rfl
  · obtain rfl := (List.append_inj' hl' rfl).1
    refine ⟨_, ⟨hwf, ?_⟩, ?_, by simp⟩
    · rw [show l ++ [b, c] = (l ++ [b]) ++ [c] by simp, List.dropLast_concat]
      intro x hx
      rcases List.mem_append.1 hx with hx | hx
      · exact hlu x hx
      · exact List.mem_singleton.1 hx ▸ ha.used
    · rw [hpay, payloads_append, payloads_congr hl, payloads_cons_of_used ha.used,
        payloads_cons_of_unused hcu]
      rfl

/-- The requests add their payloads, and a block each at most. -/
theorem mallocAll_spec (hbase : 0 < base) (h : Packed s base bs)
    (hm : s.mallocAll sizes = some (ps, s')) : ∃ bs', Packed s' base bs' ∧
      s'.payloads bs' = s.payloads bs ++ ps ∧ bs'.length ≤ bs.length + sizes.length := by
  induction sizes generalizing s bs ps with
  | nil =>
    obtain ⟨rfl, rfl⟩ := Prod.mk.inj (Option.some.inj hm)
    exact ⟨bs, h, (List.append_nil _).symm, le_rfl⟩
  | cons size sizes ih =>
    rw [State.mallocAll] at hm
    cases hs : s.malloc size with
    | mk res t =>
      rw [hs] at hm
      cases res with
      | error e => exact absurd hm (by simp)
      | ok p =>
        obtain ⟨⟨ps', s''⟩, hall, heq⟩ := Option.map_eq_some_iff.1 hm
        obtain ⟨rfl, rfl⟩ := Prod.mk.inj heq
        obtain ⟨bs₁, h₁, hp₁, hlen₁⟩ := h.malloc hbase hs
        obtain ⟨bs₂, h₂, hp₂, hlen₂⟩ := ih h₁ hall
        refine ⟨bs₂, h₂, ?_, ?_⟩
        · rw [hp₂, hp₁, List.append_assoc, List.singleton_append]
        · rw [List.length_cons]
          omega

/-! ## Freeing -/

/-- At most every other block of a list without unused neighbours is unused. -/
theorem Coalesced.two_mul_countP_le (h : Coalesced s bs) :
    2 * bs.countP (fun x => !s.used x) ≤ bs.length + 1 := by
  induction bs using List.twoStepInduction with
  | nil => simp
  | singleton x =>
    have := List.countP_le_length (p := fun x => !s.used x) (l := [x])
    simp only [List.length_singleton] at this ⊢
    omega
  | cons_cons x y l ih _ =>
    obtain ⟨hxy, hl⟩ := List.isChain_cons_cons.1 h
    have hl' := ih (List.isChain_cons.1 hl).2
    rw [List.length_cons, List.length_cons]
    rcases hxy with hx | hy
    · rw [List.countP_cons_of_neg (by simp [hx]), List.countP_cons]
      split_ifs <;> omega
    · rw [List.countP_cons, List.countP_cons_of_neg (by simp [hy])]
      split_ifs <;> omega

/-- The list of a well-formed heap with a used block is not full, unless the heap
    has more than 4094 blocks. -/
theorem length_freeList_lt (h : WellFormedOf s base (l ++ b :: r)) (hu : s.used b = true)
    (hlen : (l ++ b :: r).length ≤ 4094) : s.freeBlocks.size < 2048 := by
  have hsub : s.freeList.length ≤ ((l ++ b :: r).filter fun x => !s.used x).length := by
    refine (List.subperm_of_subset h.nodup_free fun x hx => List.mem_filter.2 ?_).length_le
    have hx' := (h.mem_free_iff x).1 hx
    exact ⟨hx'.1, by simp [hx'.2]⟩
  rw [← List.countP_eq_length_filter, List.countP_append, List.countP_cons_of_neg (by simp [hu]),
    FCVector.length_toList] at hsub
  -- `b` is used, so the unused blocks on its two sides are counted apart.
  have hl := Coalesced.two_mul_countP_le (List.isChain_append.1 h.coalesced).1
  have hr := Coalesced.two_mul_countP_le
    (List.isChain_cons.1 (List.isChain_append.1 h.coalesced).2.1).2
  simp only [List.length_append, List.length_cons] at hlen
  omega

/-- Freeing the payload of a used block takes it off the payloads. -/
theorem WellFormedOf.free_payload (hbase : 0 < base) (h : WellFormedOf s base bs)
    (hlen : bs.length ≤ 4094) {p : ℕ} (hp : (p :: ps).Perm (s.payloads bs)) :
    ∃ s' bs', s.free p = (.ok (), s') ∧ WellFormedOf s' base bs' ∧ ps.Perm (s'.payloads bs') ∧
      bs'.length ≤ bs.length := by
  obtain ⟨b, hb, rfl⟩ := List.mem_map.1 (hp.subset List.mem_cons_self)
  obtain ⟨hbs, hu⟩ := List.mem_filter.1 hb
  obtain ⟨l, r, rfl⟩ := List.append_of_mem hbs
  obtain ⟨s', l', r', m, heq, h', -, hmu, hother, hr, hl⟩ :=
    h.free hbase hu (.inl (length_freeList_lt h hu hlen))
  -- What is merged is unused, and has no payload among those in use.
  have hpr : s.payloads r' = s.payloads r := by
    rcases hr with ⟨rfl, -⟩ | ⟨c, rfl, hc⟩
    · rfl
    · rw [payloads_cons_of_unused hc]
  have hpl : s.payloads l' = s.payloads l := by
    rcases hl with ⟨rfl, -, -⟩ | ⟨rfl, hm⟩
    · rfl
    · rw [payloads_append, payloads_cons_of_unused hm]
      exact (List.append_nil _).symm
  refine ⟨s', l' ++ m :: r', heq, h', ?_, ?_⟩
  · rw [payloads_append, payloads_cons_of_unused hmu,
      payloads_congr fun x hx => (hother x (List.mem_append_left _ hx)).1,
      payloads_congr fun x hx => (hother x (List.mem_append_right _ hx)).1, hpl, hpr]
    rw [payloads_append, payloads_cons_of_used hu] at hp
    exact (List.perm_cons _).1 (hp.trans List.perm_middle)
  · have hlr : r'.length ≤ r.length := by
      rcases hr with ⟨rfl, -⟩ | ⟨c, rfl, -⟩
      · exact le_rfl
      · exact Nat.le_succ _
    have hll : l'.length ≤ l.length := by
      rcases hl with ⟨rfl, -, -⟩ | ⟨rfl, -⟩
      · exact le_rfl
      · simp
    simp only [List.length_append, List.length_cons]
    omega

/-- Freeing all the payloads in use, in any order, leaves no used block. -/
theorem freeAll_spec (hbase : 0 < base) (h : WellFormedOf s base bs) (hlen : bs.length ≤ 4094)
    (hp : ps.Perm (s.payloads bs)) : ∃ s' bs', s.freeAll ps = some s' ∧
      WellFormedOf s' base bs' ∧ s'.payloads bs' = [] := by
  induction ps generalizing s bs with
  | nil => exact ⟨s, bs, rfl, h, (List.nil_perm.1 hp)⟩
  | cons p ps ih =>
    obtain ⟨s₁, bs₁, heq, h₁, hp₁, hlen₁⟩ := h.free_payload hbase hlen hp
    obtain ⟨s', bs', hall, h', hp'⟩ := ih h₁ (hlen₁.trans hlen) hp₁
    refine ⟨s', bs', ?_, h', hp'⟩
    rw [State.freeAll, heq]
    exact hall

/-- A well-formed heap without a used block has only one block, which is listed. -/
theorem WellFormedOf.eq_singleton (hbase : 0 < base) (h : WellFormedOf s base bs)
    (hp : s.payloads bs = []) : bs = [base] ∧ s.freeList = [base] ∧ s.prev base = 0 ∧
      s.next base = 0 ∧ s.used base = false := by
  obtain ⟨hh, hco, -⟩ := (wellFormedOf_iff hbase).1 h
  have hunused : ∀ x ∈ bs, s.used x = false := fun x hx => by
    have := List.filter_eq_nil_iff.1 (List.map_eq_nil_iff.1 hp) x hx
    simpa using this
  obtain ⟨bs, rfl⟩ := List.head?_eq_some_iff.1 hh.head_eq
  obtain rfl : bs = [] := by
    cases bs with
    | nil => rfl
    | cons c bs =>
      have := (List.isChain_cons_cons.1 hco).1
      simp [hunused] at this
  have hmem : base ∈ s.freeList := (h.mem_free_iff base).2 ⟨by simp, hunused base (by simp)⟩
  refine ⟨rfl, ?_, hh.toLayout.prev_eq (l := []), hh.toLayout.next_eq (l := []),
    hunused base (by simp)⟩
  have hsub : s.freeList ⊆ [base] := fun x hx => (hh.listed x hx).1
  exact (List.perm_singleton.1 ((List.perm_ext_iff_of_nodup hh.nodup_free
    (List.nodup_singleton base)).2 fun x => ⟨fun hx => hsub hx, fun hx =>
      List.mem_singleton.1 hx ▸ hmem⟩))

/-- From the initial heap, freeing all that has been allocated, in whatever order,
    succeeds and ends in the initial heap. -/
theorem freeAll_perm {fuel : ℕ} {t : State} {sizes ps qs : List ℕ}
    (h : initializeManager fuel kernelEnd t = some (.ok (), s))
    (hend : heapBaseAddress kernelEnd + sizeofBlockHeader ≤ s.endAddress)
    (hlen : sizes.length ≤ 4093) (hm : s.mallocAll sizes = some (ps, s')) (hq : qs.Perm ps) :
    ∃ s'', s'.freeAll qs = some s'' ∧ s''.baseNode = heapBaseAddress kernelEnd ∧
      s''.prev s''.baseNode = 0 ∧ s''.next s''.baseNode = 0 ∧ s''.used s''.baseNode = false ∧
      s''.freeList = [s''.baseNode] := by
  have hbase := heapBaseAddress_pos kernelEnd
  have h₀ : Packed s (heapBaseAddress kernelEnd) [heapBaseAddress kernelEnd] :=
    ⟨wellFormed_of_initializeManager h hend, fun b hb => absurd hb List.not_mem_nil⟩
  have hu : s.used (heapBaseAddress kernelEnd) = false :=
    ((h₀.mem_free_iff _).1 ((heap_of_initializeManager h hend).2 ▸ List.mem_singleton_self _)).2
  obtain ⟨bs, h₁, hp, hlen'⟩ := mallocAll_spec hbase h₀ hm
  rw [payloads_cons_of_unused hu] at hp
  obtain ⟨s'', bs'', hall, h₂, hnone⟩ := freeAll_spec hbase h₁.toWellFormedOf
    (hlen'.trans (by rw [List.length_singleton]; omega)) (hq.trans (.of_eq hp.symm))
  obtain ⟨-, hf, hprev, hnext, hused⟩ := h₂.eq_singleton hbase hnone
  refine ⟨s'', hall, h₂.baseNode_eq, ?_⟩
  rw [h₂.baseNode_eq]
  exact ⟨hprev, hnext, hused, hf⟩

theorem freeAll_sample : ∃ s' s'',
    sampleHeap.mallocAll [40, 4, 8] = some ([0x10200c, 0x102040, 0x102050], s') ∧
      s'.freeAll [0x102040, 0x102050, 0x10200c] = some s'' ∧ s''.freeList = [s''.baseNode] := by
  have hm : (sampleHeap.mallocAll [40, 4, 8]).map Prod.fst =
      some [0x10200c, 0x102040, 0x102050] := by decide +kernel
  obtain ⟨⟨ps, s'⟩, hs', rfl⟩ := Option.map_eq_some_iff.1 hm
  have hq : [0x102040, 0x102050, 0x10200c].Perm [0x10200c, 0x102040, 0x102050] := by decide
  obtain ⟨s'', hall, -, -, -, -, hf⟩ :=
    freeAll_perm initializeManager_sample (by decide +kernel) (by decide) hs' hq
  exact ⟨s', s'', hs', hall, hf⟩

end KessokuOS.MemoryManager
