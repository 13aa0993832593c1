import KessokuOS.MemoryManager.BestFit
import KessokuOS.MemoryManager.Region
import KessokuOS.MemoryManager.Safety
import Mathlib.Order.Interval.Set.Disjoint

/-!
# The stack and the heap

`kernel_early_main` sets the stack pointer to `g_stack + sizeof(g_stack)`. As `g_stack` is an
array of numbers of 4 bytes, its size in bytes counts elements here: the stack begins 48 KiB
behind the end of the array, and nothing keeps this memory from the heap.

* `gives_iff`: the users of the heap can be given any of its memory, and no other;
* `gives_stack_iff`: hence the word that is pushed first is never in `g_stack`, and can be
  given away exactly when the heap reaches it.
-/

namespace KessokuOS.MemoryManager

/-- `STACK_SIZE`, in bytes. -/
abbrev stackSize : ℕ := 16384

/-- The stack pointer that `kernel_early_main` sets: behind as many numbers of 4 bytes as
    the array `g_stack` has bytes. -/
def kernelEarlyMain (gStack : ℕ) : ℕ := u32 (gStack + 4 * stackSize)

/-- The addresses of the word that is pushed first. -/
def firstPushed (gStack : ℕ) : Set ℕ :=
  Set.Ico (kernelEarlyMain gStack - 4) (kernelEarlyMain gStack)

open Session Run

/-- The users of the heap can be given some of the memory `X`, without splitting a block
    inside the heap. -/
def Gives (k : State) (X : Set ℕ) : Prop :=
  ∃ l u, Along step SplitsAtEnd ⟨k, []⟩ l ∧ run step ⟨k, []⟩ l = some u ∧
    ∃ p ∈ u.live, ¬Disjoint (payload p) X

variable {fuel kernelEnd gStack : ℕ} {t t' : State}

theorem four_dvd_heapBaseAddress (kernelEnd : ℕ) : 4 ∣ heapBaseAddress kernelEnd := by
  rw [heapBaseAddress, pageSize]
  omega

/-- A request for all of the heap is served. -/
theorem exists_malloc_all (h : initializeManager fuel kernelEnd t = some (.ok (), t'))
    (hend : heapBaseAddress kernelEnd + sizeofBlockHeader < t'.endAddress)
    (hfour : 4 ∣ t'.endAddress) : ∃ n s', heapBaseAddress kernelEnd + sizeofBlockHeader + n =
      t'.endAddress ∧ ¬t'.SplitsInside n ∧
      step ⟨t', []⟩ (.malloc n) =
        some ⟨s', [(heapBaseAddress kernelEnd + sizeofBlockHeader, n)]⟩ := by
  obtain ⟨n, hn⟩ := Nat.exists_eq_add_of_lt hend
  replace hn : heapBaseAddress kernelEnd + sizeofBlockHeader + (n + 1) = t'.endAddress := hn.symm
  have hbase := four_dvd_heapBaseAddress kernelEnd
  have hstop := t'.endAddress_lt
  have hlisted := (wellFormed_of_initializeManager h hend.le).fullyListed
    (heapBaseAddress_pos kernelEnd)
  have hfree := (heap_of_initializeManager h hend.le).2
  have hsize : t'.getBlockSize (heapBaseAddress kernelEnd) = n + 1 := by
    have htile := List.isChain_pair.1 hlisted.tiles
    omega
  have hmod : (n + 1) % 4 = 0 := by
    rw [sizeofBlockHeader] at hn
    omega
  have hround : getSmallestGteMultiple (n + 1) 4 = n + 1 := if_pos hmod
  have hunused : t'.used (heapBaseAddress kernelEnd) = false :=
    ((hlisted.mem_free_iff _).1 (hfree ▸ List.mem_singleton_self _)).2
  have hroom : HasRoom t' [heapBaseAddress kernelEnd] (n + 1) :=
    ⟨_, List.mem_singleton_self _, hunused, (hround.trans hsize.symm).le⟩
  obtain ⟨l, b, r, s', hbs, hmalloc, -⟩ := hlisted.malloc_of_hasRoom n.succ_ne_zero hroom
  obtain rfl : b = heapBaseAddress kernelEnd :=
    List.mem_singleton.1 (hbs ▸ List.mem_append_cons_self)
  refine ⟨n + 1, s', hn, ?_, ?_⟩
  · -- The block of the heap is taken as a whole.
    rintro ⟨b, hb, hsplit, -⟩
    have hmem := (State.malloc_of_some hlisted.sorted hlisted.nodup_free hb).1
    rw [hfree, List.mem_singleton] at hmem
    rw [hmem, hsize, hround, u32Sub] at hsplit
    omega
  · rw [step, if_pos ⟨by omega, .inl hmod⟩, hmalloc, hround]

/-- Whatever memory the users are given is that of the heap, and they can be given any of it. -/
theorem gives_iff (h : initializeManager fuel kernelEnd t = some (.ok (), t'))
    (hend : heapBaseAddress kernelEnd + sizeofBlockHeader ≤ t'.endAddress)
    (hfour : 4 ∣ t'.endAddress) (X : Set ℕ) : Gives t' X ↔
      ¬Disjoint (Set.Ico (heapBaseAddress kernelEnd + sizeofBlockHeader) t'.endAddress) X := by
  constructor
  · rintro ⟨l, u, hl, hr, p, hp, hX⟩ hdisjoint
    have hsafe := ((inv_of_initializeManager h hend).run hl hr).safe
    exact hX (hdisjoint.mono_left (hsafe.subset p hp))
  · intro hX
    have hlt : heapBaseAddress kernelEnd + sizeofBlockHeader < t'.endAddress := by
      by_contra hle
      rw [Set.Ico_eq_empty hle] at hX
      exact hX (Set.empty_disjoint X)
    obtain ⟨n, s', hn, hsplits, hstep⟩ := exists_malloc_all h hlt hfour
    refine ⟨[.malloc n], _, ⟨hsplits, fun _ _ => trivial⟩, run_cons.2 ⟨_, hstep, rfl⟩, _,
      List.mem_singleton_self _, ?_⟩
    rwa [payload, hn]

/-- The users of the heap can be given any of its memory, and no other. The word that is pushed
    first is never in `g_stack`, and can be given to them exactly when the memory of the heap
    reaches it. -/
theorem gives_stack_iff (h : initializeManager fuel kernelEnd t = some (.ok (), t'))
    (hend : heapBaseAddress kernelEnd + sizeofBlockHeader < t'.endAddress)
    (hfour : 4 ∣ t'.endAddress) (hstack : gStack + 4 * stackSize < 2 ^ 32) :
    (∀ X, Gives t' X ↔
        ¬Disjoint (Set.Ico (heapBaseAddress kernelEnd + sizeofBlockHeader) t'.endAddress) X) ∧
      Disjoint (firstPushed gStack) (Set.Ico gStack (gStack + stackSize)) ∧
      (Gives t' (firstPushed gStack) ↔
        heapBaseAddress kernelEnd + sizeofBlockHeader < gStack + 4 * stackSize ∧
          gStack + 4 * stackSize < t'.endAddress + 4) := by
  have hpushed : firstPushed gStack =
      Set.Ico (gStack + 4 * stackSize - 4) (gStack + 4 * stackSize) := by
    rw [firstPushed, kernelEarlyMain, u32_of_lt hstack]
  rw [hpushed, gives_iff h hend.le hfour, Set.disjoint_left, Set.Ico_disjoint_Ico, not_le]
  refine ⟨gives_iff h hend.le hfour, fun x hx hx' => ?_, ?_⟩
  · obtain ⟨hx, -⟩ := hx
    obtain ⟨-, hx'⟩ := hx'
    simp only [stackSize] at hx hx'
    omega
  · simp only [lt_min_iff, max_lt_iff, stackSize]
    omega

/-- Of the memory up to `0x140000`, a kernel that ends at `0x10F000` leaves the rest to its
    heap. -/
def largeHeap : State :=
  ((initializeManager 2 0x10F000 { sampleBoot with mem := oneRange 0x40000 }).map Prod.snd).getD
    sampleBoot

theorem gives_stack_iff_sample :
    initializeManager 2 0x10F000 { sampleBoot with mem := oneRange 0x40000 } =
      some (.ok (), largeHeap) ∧ Gives largeHeap (firstPushed 0x108000) := by
  have hheap : initializeManager 2 0x10F000 { sampleBoot with mem := oneRange 0x40000 } =
      some (.ok (), largeHeap) := rfl
  refine ⟨hheap, ?_⟩
  exact (gives_stack_iff hheap (by decide +kernel) (by decide +kernel) (by decide)).2.2.2
    (by decide +kernel)

end KessokuOS.MemoryManager
