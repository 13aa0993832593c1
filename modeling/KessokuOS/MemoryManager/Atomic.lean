import KessokuOS.Lib.Run
import KessokuOS.MemoryManager.FullList

/-!
# Failing frees

`free` marks its block unused before it looks at the neighbours, and gives up
when an unused neighbour is not listed. It is then not atomic. An unused block
which is not listed, or a link back to a block which is not the neighbour, is
what two steps leave behind: a request that splits a block inside the heap, and
a `free` which a full list has no room for.

* `Client.run_atomicOnError`: along the runs without such steps, `free` does not
  fail, hence changes nothing when it does;
* `Client.not_atomicOnError_sample`: a run with a split inside the heap, and a
  `free` that fails after it has changed the heap.
-/

namespace KessokuOS.MemoryManager

open Run

/-- The heap, and the addresses that are allocated. -/
structure Client where
  heap : State
  live : List ℕ

/-- The calls of a client. -/
inductive Call
  | malloc (size : ℕ)
  | free (p : ℕ)

namespace Client

/-- A call, refused when the size is no 32-bit number, or when what is freed is
    neither allocated nor null. What could not be freed stays allocated. -/
def step (s : Client) : Call → Option Client
  | .malloc size =>
    if size < 2 ^ 32 then
      match s.heap.malloc size with
      | (.ok p, heap) => some ⟨heap, p :: s.live⟩
      | (.error _, heap) => some ⟨heap, s.live⟩
    else none
  | .free p =>
    if p = 0 ∨ p ∈ s.live then
      match s.heap.free p with
      | (.ok (), heap) => some ⟨heap, s.live.erase p⟩
      | (.error _, heap) => some ⟨heap, s.live⟩
    else none

/-- The call does not split a block inside the heap, and does not free into a list
    without room for the block. -/
def Orderly (s : Client) : Call → Prop
  | .malloc size => ¬s.heap.SplitsInside size
  | .free p => p = 0 ∨ s.heap.TakesBack (p - sizeofBlockHeader)

instance (s : Client) : (c : Call) → Decidable (s.Orderly c)
  | .malloc size => inferInstanceAs (Decidable (¬s.heap.SplitsInside size))
  | .free _ => inferInstanceAs (Decidable (_ ∨ _))

/-- Whatever is freed next, the heap is unchanged if the call fails. -/
def AtomicOnError (s : Client) : Prop :=
  ∀ p, p = 0 ∨ p ∈ s.live → ∀ e heap, s.heap.free p = (.error e, heap) → heap = s.heap

/-- The invariant of the runs: what is allocated are payloads of used blocks of a heap
    of which all unused blocks are listed. -/
structure Inv (s : Client) : Prop where
  nodup : s.live.Nodup
  heap : ∃ bs, FullyListed s.heap bs ∧
    ∀ p ∈ s.live, ∃ b ∈ bs, p = b + sizeofBlockHeader ∧ s.heap.used b = true

variable {s s' : Client}

theorem Inv.malloc {size : ℕ} (hs : Inv s) (hns : ¬s.heap.SplitsInside size)
    (hstep : s.step (.malloc size) = some s') : Inv s' := by
  obtain ⟨bs, hf, hlive⟩ := hs.heap
  have hh := (fullyListed_iff.1 hf).1
  rw [step] at hstep
  split_ifs at hstep with hsize
  rcases hh.malloc_cases hns with ⟨e, heq⟩ | ⟨b, heap, bs', heq, hh', ha⟩
  · rw [heq] at hstep
    exact Option.some.inj hstep ▸ ⟨hs.nodup, bs, hf, hlive⟩
  rw [heq] at hstep
  obtain rfl := Option.some.inj hstep
  have hbu : s.heap.used b = false := ((hf.mem_free_iff b).1 ha.mem_free).2
  have hbs : ∀ x ∈ bs, x ∈ bs' := fun x hx => by
    rcases ha.cases with ⟨rfl, -⟩ | ⟨l, c, rfl, rfl, -⟩
    · exact hx
    · grind
  refine ⟨List.nodup_cons.2 ⟨fun hmem => ?_, hs.nodup⟩, bs', hf.allocated hh' ha, fun p hp => ?_⟩
  · obtain ⟨x, -, hbx, hxu⟩ := hlive _ hmem
    obtain rfl : b = x := Nat.add_right_cancel hbx
    exact absurd hxu (by simp [hbu])
  · rcases List.mem_cons.1 hp with rfl | hp
    · exact ⟨b, hbs b (hh.listed b ha.mem_free).1, rfl, ha.used⟩
    · obtain ⟨x, hx, rfl, hxu⟩ := hlive p hp
      have hxb : x ≠ b := fun hxb => absurd hxu (by simp [hxb, hbu])
      exact ⟨x, hbs x hx, rfl, (ha.used_eq x hx hxb).trans hxu⟩

theorem Inv.free {p : ℕ} (hs : Inv s) (ht : s.Orderly (.free p))
    (hstep : s.step (.free p) = some s') : Inv s' := by
  obtain ⟨bs, hf, hlive⟩ := hs.heap
  rw [step] at hstep
  split_ifs at hstep with hp
  by_cases hp₀ : p = 0
  · have heq : s.heap.free p = (.ok (), s.heap) := if_pos hp₀
    rw [heq] at hstep
    refine Option.some.inj hstep ▸ ⟨hs.nodup.erase p, bs, hf, fun q hq => ?_⟩
    exact hlive q (List.mem_of_mem_erase hq)
  obtain ⟨b, hb, rfl, hbu⟩ := hlive p (hp.resolve_left hp₀)
  replace ht := ht.resolve_left hp₀
  rw [Nat.add_sub_cancel] at ht
  obtain ⟨l, r, rfl⟩ := List.append_of_mem hb
  obtain ⟨heap, l', r', m, heq, hf', -, -, -, hother, hr, hl⟩ := hf.free hbu ht
  rw [heq] at hstep
  obtain rfl := Option.some.inj hstep
  refine ⟨hs.nodup.erase _, _, hf', fun q hq => ?_⟩
  obtain ⟨hqb, hq⟩ := hs.nodup.mem_erase_iff.1 hq
  obtain ⟨x, hx, rfl, hxu⟩ := hlive q hq
  -- What has been merged is unused, or `b`.
  have hxb : x ≠ b := fun hxb => hqb (hxb ▸ rfl)
  have hx' : x ∈ l' ++ r' := by
    have hxl : x ∈ l → x ∈ l' := fun hxl => by
      rcases hl with ⟨rfl, -, -⟩ | ⟨rfl, hmu⟩
      · exact hxl
      · refine (List.mem_append.1 hxl).resolve_right fun hxm => ?_
        rw [List.mem_singleton.1 hxm, hmu] at hxu
        exact absurd hxu Bool.false_ne_true
    have hxr : x ∈ r → x ∈ r' := fun hxr => by
      rcases hr with ⟨rfl, -⟩ | ⟨c, rfl, hcu⟩
      · exact hxr
      · refine (List.mem_cons.1 hxr).resolve_left fun hxc => ?_
        rw [hxc, hcu] at hxu
        exact absurd hxu Bool.false_ne_true
    grind
  exact ⟨x, by grind, rfl, (hother x hx').1.trans hxu⟩

/-- In the states of these runs, `free` does not fail. -/
theorem Inv.free_ok {p : ℕ} (hs : Inv s) (hp : p = 0 ∨ p ∈ s.live) :
    ∃ heap, s.heap.free p = (.ok (), heap) := by
  obtain ⟨bs, hf, hlive⟩ := hs.heap
  rcases hp with rfl | hp
  · exact ⟨s.heap, rfl⟩
  obtain ⟨b, hb, rfl, hbu⟩ := hlive p hp
  obtain ⟨l, r, rfl⟩ := List.append_of_mem hb
  by_cases ht : s.heap.TakesBack b
  · obtain ⟨heap, -, -, -, heq, -⟩ := hf.free hbu ht
    exact ⟨heap, heq⟩
  · exact ⟨_, hf.free_full hbu ht⟩

/-- In the states that orderly calls lead to from the initial heap, a `free` that fails
    has changed nothing: there is none that does. -/
theorem run_atomicOnError {fuel kernelEnd : ℕ} {t t' : State}
    (h : initializeManager fuel kernelEnd t = some (.ok (), t'))
    (hend : heapBaseAddress kernelEnd + sizeofBlockHeader ≤ t'.endAddress) {l : List Call}
    (hl : Along step Orderly ⟨t', []⟩ l) (hr : run step ⟨t', []⟩ l = some s) :
    s.AtomicOnError ∧ ∀ p, p = 0 ∨ p ∈ s.live → ∃ heap, s.heap.free p = (.ok (), heap) := by
  have h₀ : Inv ⟨t', []⟩ := ⟨List.nodup_nil, _, (wellFormed_of_initializeManager h hend).fullyListed
    (heapBaseAddress_pos kernelEnd), fun _ hp => absurd hp List.not_mem_nil⟩
  have hs : Inv s := invariant_of_along (fun s c s' hs hg hstep => by
    cases c with
    | malloc size => exact hs.malloc hg hstep
    | free p => exact hs.free hg hstep) h₀ hl hr
  refine ⟨fun p hp e heap hf => ?_, fun p hp => hs.free_ok hp⟩
  obtain ⟨heap', hok⟩ := hs.free_ok hp
  exact absurd (congrArg Prod.fst (hok.symm.trans hf)) (by simp)

theorem run_atomicOnError_sample : ∃ s,
    run step ⟨sampleHeap, []⟩ [.malloc 40, .malloc 4, .free 0, .free 0x10200c] = some s ∧
      s.AtomicOnError ∧ ∀ p, p = 0 ∨ p ∈ s.live → ∃ heap, s.heap.free p = (.ok (), heap) := by
  obtain ⟨s, hs⟩ := Option.isSome_iff_exists.1 (show (run step ⟨sampleHeap, []⟩
    [.malloc 40, .malloc 4, .free 0, .free 0x10200c]).isSome by decide +kernel)
  exact ⟨s, hs, run_atomicOnError initializeManager_sample (by decide +kernel)
    (by decide +kernel) hs⟩

/-- A run that splits the first block while the second one is in use, which stays
    linked back to it. When both are freed they are merged, with the block that was
    split off and is in use. -/
def brokenRun : List Call :=
  [.malloc 40, .malloc 4, .free 0x10200c, .malloc 8, .malloc 20, .free 0x10200c, .free 0x102040]

/-- Behind this run, freeing the 20 bytes in use fails with their block marked unused. -/
theorem not_atomicOnError_sample : ∃ s,
    initializeManager 2 sampleKernelEnd sampleBoot = some (.ok (), sampleHeap) ∧
    heapBaseAddress sampleKernelEnd + sizeofBlockHeader ≤ sampleHeap.endAddress ∧
    run step ⟨sampleHeap, []⟩ brokenRun = some s ∧ s.live = [0x102020] ∧ ¬s.AtomicOnError := by
  have hrun : (run step ⟨sampleHeap, []⟩ brokenRun).map (fun s => (s.live,
      (s.heap.free 0x102020).1, s.heap.used 0x102014, (s.heap.free 0x102020).2.used 0x102014)) =
      some ([0x102020], .error .indexOutOfRange, true, false) := by decide +kernel
  obtain ⟨s, hs, heq⟩ := Option.map_eq_some_iff.1 hrun
  simp only [Prod.mk.injEq] at heq
  obtain ⟨hlive, herr, hbefore, hafter⟩ := heq
  refine ⟨s, rfl, by decide +kernel, hs, hlive, fun h => ?_⟩
  have hsame := h 0x102020 (.inr (by simp [hlive])) _ _ (Prod.ext herr rfl)
  have hused := congrArg (fun heap => heap.used 0x102014) hsame
  exact absurd (hbefore.symm.trans (hused.symm.trans hafter)) (by simp)

end Client

end KessokuOS.MemoryManager
