import KessokuOS.Lib.Run
import KessokuOS.MemoryManager.Operations

/-!
# Safety of the heap

The users of the heap request memory, free what is theirs, and write to it. A
run of them is safe when the memory they have been given never overlaps itself
or a header, and lies within the heap (`Safe`).

`malloc` does not update the link back to the block it splits, of the block
behind it. A later `free` follows this link and merges blocks which are not
next to each other. Nothing of this happens as long as a block is only split at
the end of the heap:

* `run_safe`: the runs in which no request splits a block inside the heap are
  safe, also where `free` fails or drops a block off a full list;
* `run_overlap`: a run in which a request does, and gets memory which is in use.
-/

namespace KessokuOS.MemoryManager

open Run

/-- The heap together with the allocations in use: their addresses and the
    requested sizes, rounded. -/
structure Session where
  heap : State
  live : List (ℕ × ℕ)

/-- What the users of the heap do. -/
inductive Action
  | malloc (size : ℕ)
  | free (p : ℕ)
  | write (a : ℕ) (v : Byte)

/-- The range of the addresses of an allocation. -/
def payload (p : ℕ × ℕ) : Set ℕ := Set.Ico p.1 (p.1 + p.2)

/-- The addresses of the header at `a`. -/
def header (a : ℕ) : Set ℕ := Set.Ico a (a + sizeofBlockHeader)

/-- The blocks that the links lead to from the base of the heap. -/
inductive InChain (s : State) : ℕ → Prop
  | base : s.baseNode ≠ 0 → InChain s s.baseNode
  | next {a : ℕ} : InChain s a → s.next a ≠ 0 → InChain s (s.next a)

namespace State

/-- A byte written by a user of the heap. -/
def writeByte (s : State) (a : ℕ) (v : Byte) : State :=
  { s with mem := s.mem.write a 1 fun _ => v }

variable {s : State} {a x : ℕ} {v : Byte}

theorem prev_writeByte (h : a < x ∨ x + 12 ≤ a) : (s.writeByte a v).prev x = s.prev x := by
  rw [prev, prev, writeByte, Memory.load_write_of_disjoint (by omega)]

theorem next_writeByte (h : a < x ∨ x + 12 ≤ a) : (s.writeByte a v).next x = s.next x := by
  rw [next, next, writeByte, Memory.load_write_of_disjoint (by omega)]

theorem used_writeByte (h : a < x ∨ x + 12 ≤ a) : (s.writeByte a v).used x = s.used x := by
  have hx : (s.mem.write a 1 fun _ => v) (x + 8) = s.mem (x + 8) :=
    Memory.write_of_not_mem (by omega)
  exact congrArg (· != 0) hx

end State

namespace Session

/-- An action, refused when the size cannot be rounded, when what is freed is not
    in use, or when what is written is not part of an allocation in use. An
    allocation that could not be freed stays in use. -/
def step (s : Session) : Action → Option Session
  | .malloc size =>
    if size < 2 ^ 32 ∧ RoundingFits size 4 then
      match s.heap.malloc size with
      | (.ok p, heap) => some ⟨heap, (p, getSmallestGteMultiple size 4) :: s.live⟩
      | (.error _, heap) => some ⟨heap, s.live⟩
    else none
  | .free p =>
    if p ∈ s.live.map Prod.fst then
      match s.heap.free p with
      | (.ok (), heap) => some ⟨heap, s.live.eraseP fun q => q.1 = p⟩
      | (.error _, heap) => some ⟨heap, s.live⟩
    else none
  | .write a v =>
    if ∃ q ∈ s.live, q.1 ≤ a ∧ a < q.1 + q.2 then
      some ⟨s.heap.writeByte a v, s.live⟩
    else none

/-- The action does not split a block inside the heap. -/
def SplitsAtEnd (s : Session) : Action → Prop
  | .malloc size => ¬s.heap.SplitsInside size
  | _ => True

instance (s : Session) : (a : Action) → Decidable (s.SplitsAtEnd a)
  | .malloc size => inferInstanceAs (Decidable (¬s.heap.SplitsInside size))
  | .free _ | .write _ _ => inferInstanceAs (Decidable True)

/-- The allocations in use do not overlap each other or a header, and lie behind
    the first header of the heap from `base` to `stop`. -/
structure Safe (base stop : ℕ) (s : Session) : Prop where
  disjoint : s.live.Pairwise fun p q => Disjoint (payload p) (payload q)
  subset : ∀ p ∈ s.live, payload p ⊆ Set.Ico (base + sizeofBlockHeader) stop
  headers : ∀ p ∈ s.live, ∀ a, InChain s.heap a → Disjoint (payload p) (header a)

/-! ## The invariant -/

/-- The allocation `p` is in the payload of a block of the heap which is not
    listed as unused. -/
def Backed (s : State) (bs : List ℕ) (p : ℕ × ℕ) : Prop :=
  ∃ b, p.1 = b + 12 ∧ b ∈ bs ∧ b ∉ s.freeList ∧ p.2 ≤ s.getBlockSize b

/-- The invariant of the runs: there is a heap in which every allocation in use
    has a block of its own. -/
structure Inv (base stop : ℕ) (s : Session) : Prop where
  endAddress_eq : s.heap.endAddress = stop
  nodup : (s.live.map Prod.fst).Nodup
  heap : ∃ bs, Heap s.heap base bs ∧ ∀ p ∈ s.live, Backed s.heap bs p

variable {base stop : ℕ} {s s' : Session} {h h' : State} {bs : List ℕ} {p q : ℕ × ℕ}

theorem mem_of_inChain {a : ℕ} (hl : Layout h base bs) (ha : InChain h a) : a ∈ bs := by
  induction ha with
  | base h₀ =>
    rw [hl.baseNode_eq]
    exact List.mem_of_mem_head? hl.head_eq
  | next _ h₀ ih => exact hl.next_mem ih h₀

/-- An allocation does not overlap the headers of the blocks. -/
theorem Backed.disjoint_header {a : ℕ} (hl : Layout h base bs) (hp : Backed h bs p)
    (ha : a ∈ bs) : Disjoint (payload p) (header a) := by
  obtain ⟨b, hpb, hb, -, hle⟩ := hp
  refine Set.disjoint_left.2 fun x hx hxa => ?_
  rw [payload, Set.mem_Ico] at hx
  rw [header, Set.mem_Ico, sizeofBlockHeader] at hxa
  by_cases hab : a = b
  · omega
  · have := hl.separate ha hb hab
    omega

/-- Allocations at different addresses do not overlap. -/
theorem Backed.disjoint (hl : Layout h base bs) (hp : Backed h bs p) (hq : Backed h bs q)
    (hpq : p.1 ≠ q.1) : Disjoint (payload p) (payload q) := by
  obtain ⟨b, hpb, hb, -, hble⟩ := hp
  obtain ⟨c, hqc, hc, -, hcle⟩ := hq
  refine Set.disjoint_left.2 fun x hx hxq => ?_
  rw [payload, Set.mem_Ico] at hx hxq
  have := hl.separate hb hc (by omega)
  omega

theorem Inv.safe (hs : Inv base stop s) : Safe base stop s := by
  obtain ⟨bs, hh, hbacked⟩ := hs.heap
  refine ⟨?_, fun p hp x hx => ?_, fun p hp a ha => ?_⟩
  · refine (List.pairwise_map.1 hs.nodup).imp_of_mem fun hp hq hpq => ?_
    exact (hbacked _ hp).disjoint hh.toLayout (hbacked _ hq) hpq
  · obtain ⟨b, hpb, hb, -, hle⟩ := hbacked p hp
    have hbase := hh.le_of_mem hb
    obtain ⟨l, r, rfl⟩ := List.append_of_mem hb
    have hend := hh.payload_le (x := s.heap.endAddress) (by simp)
    rw [hs.endAddress_eq] at hend
    rw [payload, Set.mem_Ico] at hx
    rw [Set.mem_Ico, sizeofBlockHeader]
    omega
  · exact (hbacked p hp).disjoint_header hh.toLayout (mem_of_inChain hh.toLayout ha)

/-! ## Its preservation -/

/-- An allocation stays backed where its block is kept with at least its room. -/
theorem Backed.of_kept {bs' : List ℕ} (hp : Backed h bs p)
    (hk : ∀ b, p.1 = b + 12 → b ∈ bs → b ∉ h.freeList →
      b ∈ bs' ∧ b ∉ h'.freeList ∧ h.getBlockSize b ≤ h'.getBlockSize b) : Backed h' bs' p := by
  obtain ⟨b, hpb, hbs, hbf, hle⟩ := hp
  obtain ⟨hbs', hbf', hsize⟩ := hk b hpb hbs hbf
  exact ⟨b, hpb, hbs', hbf', hle.trans hsize⟩

theorem Inv.malloc {size : ℕ} (hs : Inv base stop s) (hns : ¬s.heap.SplitsInside size)
    (hstep : s.step (.malloc size) = some s') : Inv base stop s' := by
  obtain ⟨bs, hh, hbacked⟩ := hs.heap
  rw [step] at hstep
  split_ifs at hstep with hsize
  rcases hh.malloc_cases hns with ⟨e, heq⟩ | ⟨b, h', bs', heq, hh', ha⟩
  · rw [heq] at hstep
    exact Option.some.inj hstep ▸ ⟨hs.endAddress_eq, hs.nodup, bs, hh, hbacked⟩
  rw [heq] at hstep
  obtain rfl := Option.some.inj hstep
  -- What `malloc` lists as unused is new, or was listed before.
  have hfree : ∀ x ∈ bs, x ∈ bs' ∧ (x ∈ h'.freeList → x ∈ s.heap.freeList.erase b) := by
    intro x hx
    rcases ha.cases with ⟨rfl, hf⟩ | ⟨l, c, rfl, rfl, hc, -, hf⟩
    · exact ⟨hx, fun hx' => hf ▸ hx'⟩
    · refine ⟨by grind, fun hx' => (List.mem_cons.1 (hf.subset hx')).resolve_left ?_⟩
      rintro rfl
      exact hc hx
  have hb : b ∈ bs := (hh.listed b ha.mem_free).1
  have hne : ∀ p ∈ s.live, ∀ x, p.1 = x + 12 → x ∉ s.heap.freeList → x ≠ b :=
    fun p _ x _ hxf hxb => hxf (hxb ▸ ha.mem_free)
  have hnew : b + 12 ∉ s.live.map Prod.fst := fun hmem => by
    obtain ⟨p, hp, hpb⟩ := List.mem_map.1 hmem
    obtain ⟨x, hpx, -, hxf, -⟩ := hbacked p hp
    exact hne p hp x hpx hxf (by omega)
  refine ⟨ha.endAddress_eq.trans hs.endAddress_eq, List.nodup_cons.2 ⟨hnew, hs.nodup⟩, bs', hh',
    fun p hp => ?_⟩
  rcases List.mem_cons.1 hp with rfl | hp
  · refine ⟨b, rfl, (hfree b hb).1, fun hbf => ?_, ha.room⟩
    exact hh.nodup_free.not_mem_erase ((hfree b hb).2 hbf)
  · refine (hbacked p hp).of_kept fun x hpx hx hxf => ⟨(hfree x hx).1, fun hx' => ?_, ?_⟩
    · exact hxf (List.mem_of_mem_erase ((hfree x hx).2 hx'))
    · exact (ha.size_eq x hx (hne p hp x hpx hxf)).ge

/-- No allocation at `a` is left behind the one that is taken off. -/
theorem ne_of_mem_eraseP {live : List (ℕ × ℕ)} {a : ℕ} (hl : (live.map Prod.fst).Nodup)
    (hq : q ∈ live.eraseP fun q => q.1 = a) : q.1 ≠ a := by
  induction live with
  | nil => exact absurd hq List.not_mem_nil
  | cons p live ih =>
    rw [List.map_cons, List.nodup_cons] at hl
    by_cases hp : p.1 = a
    · rw [List.eraseP_cons_of_pos (by simpa using hp)] at hq
      exact fun hqa => hl.1 (List.mem_map.2 ⟨q, hq, hqa.trans hp.symm⟩)
    · rw [List.eraseP_cons_of_neg (by simpa using hp)] at hq
      rcases List.mem_cons.1 hq with rfl | hq
      · exact hp
      · exact ih hl.2 hq

theorem Inv.free {a : ℕ} (hs : Inv base stop s) (hstep : s.step (.free a) = some s') :
    Inv base stop s' := by
  obtain ⟨bs, hh, hbacked⟩ := hs.heap
  rw [step] at hstep
  split_ifs at hstep with ha
  obtain ⟨p, hp, rfl⟩ := List.mem_map.1 ha
  obtain ⟨b, hpb, hb, hbf, hble⟩ := hbacked p hp
  rw [hpb] at hstep
  cases hu : s.heap.used b with
  | false =>
    -- The block has been marked unused by a call that failed.
    have hlt : b + 12 < 2 ^ 32 := (hh.le_of_mem hb).2.trans_lt s.heap.endAddress_lt
    have heq : s.heap.free (b + 12) = (.error .invalidArgument, s.heap) := by
      rw [State.free, if_neg (by omega), sizeofBlockHeader, u32Sub_of_le hlt (by omega),
        Nat.add_sub_cancel]
      exact if_neg (by simp [hu])
    rw [heq] at hstep
    exact Option.some.inj hstep ▸ ⟨hs.endAddress_eq, hs.nodup, bs, hh, hbacked⟩
  | true =>
    obtain ⟨l, r, rfl⟩ := List.append_of_mem hb
    have hsize : ∀ x ∈ l ++ b :: r,
        (s.heap.setUsed b false).getBlockSize x = s.heap.getBlockSize x :=
      fun x hx => State.getBlockSize_setUsed (hh.apart hx hb)
    rcases hh.free_cases hu with ⟨e, h', r', heq, hh', hm, -⟩ |
      ⟨h', l', r', m, v, heq, -, hh', hm, hv, -⟩
    · rw [heq] at hstep
      obtain rfl := Option.some.inj hstep
      refine ⟨hm.endAddress_eq.trans hs.endAddress_eq, hs.nodup, _, hh', fun q hq => ?_⟩
      refine (hbacked q hq).of_kept fun x hqx hx hxf => ?_
      have hxf' : x ∉ h'.freeList := fun hx' => hxf ((hm.free_iff x).1 hx').1
      rw [← hsize x hx]
      by_cases hxb : x = b
      · exact ⟨hxb ▸ hm.mem, hxf', hxb ▸ hm.size_le⟩
      · exact ⟨hm.kept x hx hxf hxb, hxf', (hm.size_eq x (hm.kept x hx hxf hxb) hxb).ge⟩
    · rw [heq] at hstep
      obtain rfl := Option.some.inj hstep
      refine ⟨hm.endAddress_eq.trans hs.endAddress_eq,
        hs.nodup.sublist (List.eraseP_sublist.map _), _, hh', fun q hq => ?_⟩
      refine (hbacked q (List.mem_of_mem_eraseP hq)).of_kept fun x hqx hx hxf => ?_
      have hxb : x ≠ b := fun hxb => ne_of_mem_eraseP hs.nodup hq (by omega)
      have hxm : x ≠ m := fun hxm => hm.origin.elim (fun hmb => hxb (hxm.trans hmb))
        fun hmf => hxf (hxm ▸ hmf)
      have hx' := hm.kept x hx hxf hxb
      refine ⟨hx', fun hxv => ?_, ?_⟩
      · exact hxf ((hm.free_iff x).1 ((List.mem_cons.1 (hv hxv)).resolve_left hxm)).1
      · rw [State.getBlockSize_setFreeBlocks, hm.size_eq x hx' hxm, hsize x hx]

theorem Inv.write {a : ℕ} {v : Byte} (hs : Inv base stop s)
    (hstep : s.step (.write a v) = some s') : Inv base stop s' := by
  obtain ⟨bs, hh, hbacked⟩ := hs.heap
  rw [step] at hstep
  split_ifs at hstep with ha
  obtain ⟨p, hp, hpa⟩ := ha
  obtain rfl := Option.some.inj hstep
  -- The byte is not one of a header.
  have hout : ∀ x ∈ bs, a < x ∨ x + 12 ≤ a := fun x hx => by
    have := Set.disjoint_left.1 ((hbacked p hp).disjoint_header hh.toLayout hx) hpa
    rw [header, Set.mem_Ico, sizeofBlockHeader] at this
    omega
  refine ⟨hs.endAddress_eq, hs.nodup, bs, hh.congr rfl (fun x hx =>
    ⟨State.next_writeByte (hout x hx), State.prev_writeByte (hout x hx)⟩)
    fun x hx => State.used_writeByte (hout x (hh.listed x hx).1), fun q hq => ?_⟩
  exact (hbacked q hq).of_kept fun x _ hx hxf =>
    ⟨hx, hxf, (State.getBlockSize_congr (State.next_writeByte (hout x hx)) rfl).ge⟩

theorem inv_of_initializeManager {fuel kernelEnd : ℕ} {t t' : State}
    (h : initializeManager fuel kernelEnd t = some (.ok (), t'))
    (hend : heapBaseAddress kernelEnd + 12 ≤ t'.endAddress) :
    Inv (heapBaseAddress kernelEnd) t'.endAddress ⟨t', []⟩ :=
  ⟨rfl, List.nodup_nil, _, (heap_of_initializeManager h hend).1, fun _ hp =>
    absurd hp List.not_mem_nil⟩

/-- The runs in which no request splits a block inside the heap keep the invariant. -/
theorem Inv.run (hs : Inv base stop s) {l : List Action} (hl : Along step SplitsAtEnd s l)
    (hr : run step s l = some s') : Inv base stop s' := by
  refine invariant_of_along (fun s a s' hs hg hstep => ?_) hs hl hr
  cases a with
  | malloc size => exact hs.malloc hg hstep
  | free p => exact hs.free hstep
  | write a v => exact hs.write hstep

/-- Along the runs from the initial heap in which no request splits a block inside
    the heap, the heap is safe. -/
theorem run_safe {fuel kernelEnd : ℕ} {t t' : State}
    (h : initializeManager fuel kernelEnd t = some (.ok (), t'))
    (hend : heapBaseAddress kernelEnd + sizeofBlockHeader ≤ t'.endAddress) {l : List Action}
    (hl : Along step SplitsAtEnd ⟨t', []⟩ l) (hr : run step ⟨t', []⟩ l = some s) :
    Safe (heapBaseAddress kernelEnd) t'.endAddress s :=
  ((inv_of_initializeManager h hend).run hl hr).safe

theorem run_safe_sample : ∃ s,
    run step ⟨sampleHeap, []⟩ [.malloc 40, .malloc 4, .write 0x102010 7, .free 0x10200c] = some s ∧
      Safe (heapBaseAddress sampleKernelEnd) sampleHeap.endAddress s := by
  obtain ⟨s, hs⟩ := Option.isSome_iff_exists.1 (show (run step ⟨sampleHeap, []⟩
    [.malloc 40, .malloc 4, .write 0x102010 7, .free 0x10200c]).isSome by decide +kernel)
  exact ⟨s, hs, run_safe initializeManager_sample (by decide +kernel) (by decide +kernel) hs⟩

/-- A run which splits the first block, with 40 bytes, while the second one is in
    use: the latter is linked back to the former still. The third block is in
    use when the first and the second one are freed and merged across it. -/
def overlapRun : List Action :=
  [.malloc 40, .malloc 4, .free 0x10200c, .malloc 8, .malloc 20, .free 0x10200c, .free 0x102040,
    .malloc 60]

/-- Its last request gets 60 bytes, with the 20 bytes that are in use among them. -/
theorem run_overlap : ∃ s,
    initializeManager 2 sampleKernelEnd sampleBoot = some (.ok (), sampleHeap) ∧
    heapBaseAddress sampleKernelEnd + sizeofBlockHeader ≤ sampleHeap.endAddress ∧
    run step ⟨sampleHeap, []⟩ overlapRun = some s ∧
    s.live = [(0x10200c, 60), (0x102020, 20)] ∧
    ¬Safe (heapBaseAddress sampleKernelEnd) sampleHeap.endAddress s := by
  have hrun : (run step ⟨sampleHeap, []⟩ overlapRun).map Session.live =
      some [(0x10200c, 60), (0x102020, 20)] := by decide +kernel
  obtain ⟨s, hs, hlive⟩ := Option.map_eq_some_iff.1 hrun
  refine ⟨s, rfl, by decide +kernel, hs, hlive, fun h => ?_⟩
  have hd := h.disjoint
  rw [hlive, List.pairwise_pair] at hd
  have hx : 0x102020 ∈ payload (0x10200c, 60) := Set.mem_Ico.2 (by omega)
  exact Set.disjoint_left.1 hd hx (Set.mem_Ico.2 (by omega))

end Session

end KessokuOS.MemoryManager
