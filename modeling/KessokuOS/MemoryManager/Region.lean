import KessokuOS.Bootloader.MemoryMap
import KessokuOS.MemoryManager.Operations

/-!
# The memory region of the heap

`initialize` reads the table of the bootloader, whose numbers have 64 bits, and
keeps the low halves of the first 32 usable entries. The heap ends where the
first of them that has the base of the heap between its ends does, all computed
in 32 bits.

* `loop_memoryRange`: what is read off any table;
* `findRangeEnd_eq`: the search finds the first range which contains the base;
* `initializesRam_iff`: exactly when the heap is made of memory that is there,
  with room for a header, and is made where there is such memory.
-/

namespace KessokuOS.MemoryManager

open Bootloader (ranges ranges_push length_ranges NullAt)

/-- An entry of the table of the bootloader. -/
structure Region where
  base : ℕ
  length : ℕ
  type : ℕ
  deriving DecidableEq

namespace Region

/-- The entry is of usable memory; the high half of its type is not looked at. -/
def usable (e : Region) : Bool := u32 e.type = 1

/-- The entry as the kernel keeps it. -/
def range (e : Region) : MemoryRange := ⟨u32 e.base, u32 e.length⟩

/-- The numbers of the entry lie at `p`, and are not all zero. -/
structure At (m : Memory) (p : ℕ) (e : Region) : Prop where
  base_eq : m.load p 8 = e.base
  length_eq : m.load (p + 8) 8 = e.length
  type_eq : m.load (p + 16) 8 = e.type
  not_null : ¬NullAt m p

/-- The end of the entry in 32 bits. -/
def end32 (e : Region) : ℕ := u32 (e.base + e.length)

/-- In 32 bits, `address` is between the ends of the entry. -/
def seemsToContain (address : ℕ) (e : Region) : Bool :=
  u32 e.base ≤ address ∧ address < e.end32

/-- In exact arithmetic, the entry has `address` and room for a header there. -/
def HasRoom (address : ℕ) (e : Region) : Prop :=
  e.base ≤ address ∧ address + sizeofBlockHeader ≤ e.base + e.length

end Region

open Region

/-- A table with the entries `es`, from `p` on, and a null entry behind them. -/
def TableAt (m : Memory) : ℕ → List Region → Prop
  | p, [] => NullAt m p
  | p, e :: es => e.At m p ∧ TableAt m (p + 24) es

/-- The usable entries that the kernel has room for. -/
def firstUsable (es : List Region) : List Region := (es.filter (·.usable)).take 32

/-! ## Reading the table -/

variable {m : Memory} {t t' : MemoryRangeTable} {p fuel address : ℕ} {e : Region} {es : List Region}

/-- The table after reading an entry. -/
def MemoryRangeTable.add (t : MemoryRangeTable) (e : Region) : MemoryRangeTable :=
  if e.usable then t.push e.range else t

theorem memoryRangeRound_of_at (h : e.At m p) (ht : t.entryCount < 32) :
    memoryRangeRound m (t, p) = some (.inl (t.add e, p + 24)) := by
  rw [memoryRangeRound]
  refine (if_neg (not_or.2 ⟨h.not_null, not_le.2 ht⟩)).trans ?_
  rw [h.base_eq, h.length_eq, h.type_eq, MemoryRangeTable.add]
  simp only [usable, decide_eq_true_eq]
  rfl

theorem ranges_add : ranges (t.add e) = ranges t ++ ([e].filter (·.usable)).map range := by
  rw [MemoryRangeTable.add]
  cases hu : e.usable with
  | false => simp [hu]
  | true => simp [hu, ranges_push]

/-- An entry is added behind the others. -/
theorem entries_add {i : ℕ} (hi : (t.add e).entryCount ≤ i) :
    t.entryCount ≤ (t.add e).entryCount ∧ (t.add e).entries i = t.entries i := by
  rw [MemoryRangeTable.add] at hi ⊢
  cases hu : e.usable with
  | false => simp
  | true =>
    rw [hu, if_pos rfl] at hi
    have hi' : t.entryCount + 1 ≤ i := hi
    exact ⟨Nat.le_succ _, Function.update_of_ne (by omega) _ _⟩

/-- The first 32 usable entries are read, and the slots behind them are left. -/
theorem loop_memoryRange (h : TableAt m p es) (ht : t.entryCount ≤ 32)
    (hfuel : es.length < fuel) :
    ∃ t' stop, loop (memoryRangeRound m) fuel (t, p) = some (t', stop) ∧
      ranges t' = (ranges t ++ (es.filter (·.usable)).map range).take 32 ∧
      t.entryCount ≤ t'.entryCount ∧ ∀ i, t'.entryCount ≤ i → t'.entries i = t.entries i := by
  induction es generalizing t p fuel with
  | nil =>
    obtain ⟨fuel, rfl⟩ := Nat.exists_eq_succ_of_ne_zero (Nat.ne_zero_of_lt hfuel)
    refine ⟨t, p, loop_of_exit (Bootloader.memoryRangeRound_of_null h), ?_, le_rfl, fun _ _ => rfl⟩
    rw [List.filter_nil, List.map_nil, List.append_nil, List.take_of_length_le]
    rwa [length_ranges]
  | cons e es ih =>
    obtain ⟨fuel, rfl⟩ := Nat.exists_eq_succ_of_ne_zero (Nat.ne_zero_of_lt hfuel)
    by_cases hfull : t.entryCount = 32
    · refine ⟨t, p, loop_of_exit (Bootloader.memoryRangeRound_of_full hfull.ge), ?_, le_rfl,
        fun _ _ => rfl⟩
      rw [← hfull, ← length_ranges t, List.take_left]
    have hadd := ranges_add (t := t) (e := e)
    have hcount : (t.add e).entryCount ≤ 32 := by
      have hone : (([e].filter (·.usable)).map range).length ≤ 1 :=
        (List.length_map _).trans_le (List.length_filter_le _ _)
      rw [← length_ranges, hadd, List.length_append, length_ranges]
      omega
    obtain ⟨t', stop, hloop, hranges, hle, hentries⟩ :=
      ih h.2 hcount (Nat.lt_of_succ_lt_succ hfuel)
    refine ⟨t', stop, ?_, ?_, ?_, fun i hi => ?_⟩
    · rw [loop_of_again (memoryRangeRound_of_at h.1 (by omega)), hloop]
    · rw [hranges, hadd, List.append_assoc, ← List.map_append, ← List.filter_append,
        List.singleton_append]
    · exact (entries_add le_rfl).1.trans hle
    · exact (hentries i hi).trans (entries_add (hle.trans hi)).2

/-! ## Finding the region -/

/-- The end of a range in 32 bits. -/
def MemoryRange.end32 (r : MemoryRange) : ℕ := u32 (r.baseAddress + r.regionLength)

/-- In 32 bits, `address` is between the ends of the range. -/
def MemoryRange.contains (address : ℕ) (r : MemoryRange) : Bool :=
  r.baseAddress ≤ address ∧ address < r.end32

/-- The search finds the end of the first range which contains the address. -/
theorem findRangeEnd_eq (t : MemoryRangeTable) (address i n : ℕ) : findRangeEnd t address i n =
    ((((List.range' i n).map t.entries).find? (·.contains address)).map
      MemoryRange.end32).getD 0 := by
  induction n generalizing i with
  | zero => rfl
  | succ n ih =>
    rw [findRangeEnd, List.range'_succ, List.map_cons]
    by_cases hc : (t.entries i).contains address
    · rw [List.find?_cons_of_pos hc]
      exact if_pos (of_decide_eq_true hc)
    · rw [List.find?_cons_of_neg hc, ← ih]
      exact if_neg fun h => hc (decide_eq_true h)

theorem end32_range (e : Region) : e.range.end32 = e.end32 := by
  rw [MemoryRange.end32, range, end32, u32, u32, u32, u32, ← Nat.add_mod]

theorem contains_range (e : Region) : e.range.contains address = e.seemsToContain address := by
  rw [MemoryRange.contains, end32_range]
  rfl

/-- The entry which the heap is made in, if any. -/
def heapRegion (es : List Region) (address : ℕ) : Option Region :=
  (firstUsable es).find? (·.seemsToContain address)

/-- The slots behind the entries, which are zero, do not contain anything. -/
theorem findRangeEnd_eq_heapRegion (address : ℕ)
    (hranges : ranges t = ((es.filter (·.usable)).map range).take 32) (ht : t.entryCount ≤ 32)
    (hslots : ∀ i, t.entryCount ≤ i → t.entries i = ⟨0, 0⟩) :
    findRangeEnd t address 0 32 = ((heapRegion es address).map end32).getD 0 := by
  have hsplit : (List.range' 0 32).map t.entries = ranges t ++
      (List.range' t.entryCount (32 - t.entryCount)).map t.entries := by
    have happ := List.range'_append_1 (s := 0) (m := t.entryCount) (n := 32 - t.entryCount)
    rw [Nat.zero_add, Nat.add_sub_cancel' ht] at happ
    rw [← happ, List.map_append, ranges, List.range_eq_range']
  have hnone : ((List.range' t.entryCount (32 - t.entryCount)).map t.entries).find?
      (·.contains address) = none := by
    refine List.find?_eq_none.2 fun r hr => ?_
    obtain ⟨i, hi, rfl⟩ := List.mem_map.1 hr
    rw [hslots i (List.mem_range'_1.1 hi).1, MemoryRange.contains]
    exact fun h => absurd (of_decide_eq_true h).2 (Nat.not_lt_zero _)
  rw [findRangeEnd_eq, hsplit, List.find?_append, hnone, Option.or_none, hranges, ← List.map_take,
    List.find?_map, Option.map_map, heapRegion, firstUsable]
  have hpred : ((·.contains address) ∘ range : Region → Bool) = (·.seemsToContain address) :=
    funext fun e => contains_range e
  have hend : MemoryRange.end32 ∘ range = end32 := funext end32_range
  rw [hpred, hend]

/-- `initialize` ends, and makes the heap in the region that is found, up to its end
    in 32 bits. -/
theorem initializeManager_spec (kernelEnd : ℕ) {s : State}
    (h : TableAt s.mem memoryInformationTable es)
    (hslots : ∀ i, s.memoryRangeTable.entries i = ⟨0, 0⟩) (hfuel : es.length < fuel) :
    ∃ res s', initializeManager fuel kernelEnd s = some (res, s') ∧
      (∀ e, heapRegion es (heapBaseAddress kernelEnd) = some e →
        res = .ok () ∧ s'.endAddress = e.end32) ∧
      (heapRegion es (heapBaseAddress kernelEnd) = none → ∃ err, res = .error err) := by
  obtain ⟨t, stop, hloop, hranges, -, hentries⟩ := loop_memoryRange
    (t := { s.memoryRangeTable with entryCount := 0 }) h (Nat.zero_le _) hfuel
  have hranges₀ : ranges { s.memoryRangeTable with entryCount := 0 } = [] := rfl
  rw [hranges₀, List.nil_append] at hranges
  have ht : t.entryCount ≤ 32 := by
    rw [← length_ranges, hranges]
    exact List.length_take_le _ _
  have hend := findRangeEnd_eq_heapRegion (heapBaseAddress kernelEnd) hranges ht
    fun i hi => (hentries i hi).trans (hslots i)
  rw [initializeManager, initializeMemoryRange, hloop, Option.map_some]
  cases hr : heapRegion es (heapBaseAddress kernelEnd) with
  | some e =>
    rw [hr, Option.map_some, Option.getD_some] at hend
    -- The end that is found is behind the base of the heap.
    have hseems : e.seemsToContain (heapBaseAddress kernelEnd) = true := List.find?_some hr
    have hne : findRangeEnd t (heapBaseAddress kernelEnd) 0 32 ≠ 0 := by
      rw [hend]
      exact Nat.ne_zero_of_lt (of_decide_eq_true hseems).2
    simp only [if_pos hne]
    refine ⟨_, _, rfl, fun e' he' => ?_, fun hnone => absurd hnone (Option.some_ne_none e)⟩
    obtain rfl := Option.some.inj he'
    exact ⟨rfl, hend⟩
  | none =>
    rw [hr] at hend
    have hnot : ¬findRangeEnd t (heapBaseAddress kernelEnd) 0 32 ≠ 0 := not_not.2 hend
    simp only [if_neg hnot]
    exact ⟨_, _, rfl, fun e he => absurd he (Option.some_ne_none e).symm, fun _ => ⟨_, rfl⟩⟩

/-! ## The exact condition -/

/-- What `initialize` should do, for the table `es`. If it succeeds, the heap from
    `address` to its end is in a usable entry, with room for a header. If one of the
    first 32 usable entries has that room, it succeeds. -/
structure InitializesRam (es : List Region) (address : ℕ) (res : ErrorOr Unit) (s : State) :
    Prop where
  sound : res = .ok () → (∃ e ∈ es, e.usable ∧ e.base ≤ address ∧
    s.endAddress ≤ e.base + e.length) ∧ address + sizeofBlockHeader ≤ s.endAddress
  complete : (∃ e ∈ firstUsable es, e.HasRoom address) → res = .ok ()

/-- The first of the first 32 usable entries that contain the address, in 32 bits, has
    room for a header, and lies below 4 GiB or has another usable entry around what
    is left of it there. If there is none, no entry has room for a header. -/
def FindsRam (es : List Region) (address : ℕ) : Prop :=
  match heapRegion es address with
  | some e => address + sizeofBlockHeader ≤ e.end32 ∧ (e.base < 2 ^ 32 ∨
      ∃ e' ∈ es, e'.usable ∧ e'.base ≤ address ∧ e.end32 ≤ e'.base + e'.length)
  | none => ∀ e ∈ firstUsable es, ¬e.HasRoom address

theorem end32_le (e : Region) : e.end32 ≤ e.base + e.length := Nat.mod_le _ _

theorem heapRegion_mem (h : heapRegion es address = some e) :
    e ∈ es ∧ e.usable ∧ u32 e.base ≤ address := by
  have hmem := List.mem_filter.1 (List.mem_of_mem_take (List.mem_of_find?_eq_some h))
  have hseems : e.seemsToContain address = true := List.find?_some h
  exact ⟨hmem.1, hmem.2, (of_decide_eq_true hseems).1⟩

/-- What is right for the entry that is found. -/
theorem initializesRam_iff_findsRam {res : ErrorOr Unit} {s' : State}
    (hsome : ∀ e, heapRegion es address = some e → res = .ok () ∧ s'.endAddress = e.end32)
    (hnone : heapRegion es address = none → ∃ err, res = .error err) :
    InitializesRam es address res s' ↔ FindsRam es address := by
  rw [FindsRam]
  cases hr : heapRegion es address with
  | some e =>
    obtain ⟨hres, hend⟩ := hsome e hr
    obtain ⟨he, hu, hle⟩ := heapRegion_mem hr
    constructor
    · intro hi
      obtain ⟨hex, hroom⟩ := hi.sound hres
      rw [hend] at hex hroom
      exact ⟨hroom, .inr hex⟩
    · rintro ⟨hroom, hor⟩
      refine ⟨fun _ => ⟨?_, hend.symm ▸ hroom⟩, fun _ => hres⟩
      rw [hend]
      rcases hor with hlt | hex
      · rw [u32_of_lt hlt] at hle
        exact ⟨e, he, hu, hle, end32_le e⟩
      · exact hex
  | none =>
    obtain ⟨err, hres⟩ := hnone hr
    have hne : res ≠ .ok () := by simp [hres]
    constructor
    · exact fun hi e he hroom => hne (hi.complete ⟨e, he, hroom⟩)
    · exact fun hno => ⟨fun hok => absurd hok hne, fun ⟨e, he, hroom⟩ => absurd hroom (hno e he)⟩

/-- At the start of the kernel, when its static variables are zero, `initialize` makes
    the heap of usable memory, and finds such memory, exactly when the entry it stops
    at is what it seems to be, or there is no such memory. -/
theorem initializesRam_iff (kernelEnd : ℕ) {s : State}
    (h : TableAt s.mem memoryInformationTable es)
    (hslots : ∀ i, s.memoryRangeTable.entries i = ⟨0, 0⟩) (hfuel : es.length < fuel) :
    ∃ res s', initializeManager fuel kernelEnd s = some (res, s') ∧
      (InitializesRam es (heapBaseAddress kernelEnd) res s' ↔
        FindsRam es (heapBaseAddress kernelEnd)) := by
  obtain ⟨res, s', heq, hsome, hnone⟩ := initializeManager_spec kernelEnd h hslots hfuel
  exact ⟨res, s', heq, initializesRam_iff_findsRam hsome hnone⟩

/-! ## Two tables -/

/-- The range from `0x100000` with `length` bytes, and nothing else. -/
def oneRange (length : ℕ) : Memory :=
  ((Memory.store (fun _ => 0) 0x7000 8 0x100000).store 0x7008 8 length).store 0x7010 8 1

theorem tableAt_oneRange (length : ℕ) (h : length < 2 ^ 64) :
    TableAt (oneRange length) memoryInformationTable [⟨0x100000, length, 1⟩] := by
  have hbase : (oneRange length).load 0x7000 8 = 0x100000 := by
    rw [oneRange, Memory.load_store_of_disjoint (by decide),
      Memory.load_store_of_disjoint (by decide), Memory.load_store_of_lt (by decide)]
  have hlength : (oneRange length).load 0x7008 8 = length := by
    rw [oneRange, Memory.load_store_of_disjoint (by decide), Memory.load_store_of_lt h]
  have htype : (oneRange length).load 0x7010 8 = 1 := Memory.load_store_of_lt (by decide)
  refine ⟨⟨hbase, hlength, htype, fun hnull => ?_⟩, ?_⟩
  · exact absurd (hbase.symm.trans hnull.1) (by decide)
  · -- Behind the entry nothing has been stored.
    have hzero : ∀ a, 0x7018 ≤ a → (oneRange length).load a 8 = 0 := fun a ha => by
      rw [oneRange, Memory.load_store_of_disjoint (.inr ha),
        Memory.load_store_of_disjoint (.inr (by omega)),
        Memory.load_store_of_disjoint (.inr (by omega))]
      rfl
    exact ⟨hzero _ (by decide), hzero _ (by decide), hzero _ (by decide)⟩

theorem initializesRam_sample : ∃ res s',
    initializeManager 2 sampleKernelEnd { sampleBoot with mem := oneRange 0x20cc } =
      some (res, s') ∧
    InitializesRam [⟨0x100000, 0x20cc, 1⟩] (heapBaseAddress sampleKernelEnd) res s' := by
  obtain ⟨res, s', heq, hiff⟩ := initializesRam_iff sampleKernelEnd
    (s := { sampleBoot with mem := oneRange 0x20cc }) (tableAt_oneRange 0x20cc (by decide))
    (fun _ => rfl) (show 1 < 2 by decide)
  refine ⟨res, s', heq, hiff.2 ?_⟩
  exact ⟨by decide, .inl (by decide)⟩

/-- A range that ends 4 bytes behind the base of the heap makes a heap of almost 4 GiB. -/
theorem not_initializesRam_sample :
    TableAt (oneRange 0x2004) memoryInformationTable [⟨0x100000, 0x2004, 1⟩] ∧ ∃ s',
      initializeManager 2 sampleKernelEnd { sampleBoot with mem := oneRange 0x2004 } =
        some (.ok (), s') ∧
      s'.getBlockSize (heapBaseAddress sampleKernelEnd) = 0xfffffff8 ∧
      ¬InitializesRam [⟨0x100000, 0x2004, 1⟩] (heapBaseAddress sampleKernelEnd) (.ok ()) s' := by
  refine ⟨tableAt_oneRange 0x2004 (by decide), _, rfl, by decide +kernel, fun h => ?_⟩
  exact absurd (h.sound rfl).2 (by decide +kernel)

end KessokuOS.MemoryManager
