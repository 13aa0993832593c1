import KessokuOS.Bootloader.Boot
import KessokuOS.MemoryManager.Region
import KessokuOS.MemoryManager.Safety

/-!
# The heap of a booted machine

The bootloader loads the memory map of the firmware, and the kernel makes its heap from what
is in memory then. From the replies of the firmware to the allocations of the kernel:

* `tableAt_of_mapAt`: the kernel reads the entries that stage 1 has kept, if the null entry that
  it leaves behind them is one;
* `findsRam_of_plain`: in 32 bits, the kernel finds what is there, if each entry is what it seems
  to be around the base of the heap (`Region.Plain`);
* `booted_run_safe`: hence a machine that boots makes its heap exactly where a usable entry
  contains the base of the heap, and gives its users memory of one usable entry only, as long
  as no request splits a block inside the heap.
-/

namespace KessokuOS.MemoryManager

open Bootloader FloppyDisk

/-! ## The map in memory -/

/-- The entry of a reply. What the kernel takes for its type are 8 bytes. -/
def replyRegion (r : MapReply) : Region := ⟨r.baseAddress, r.regionLength, Memory.load r.entry 16 8⟩

/-- The entries that stage 1 keeps, in their order; the last reply is lost. -/
def bootRegions (init : List MapReply) : List Region := (kept init).map replyRegion

variable {m : Memory} {p : ℕ} {r : MapReply} {rs init : List MapReply} {last : MapReply}

theorem usable_replyRegion (r : MapReply) : (replyRegion r).usable = decide (r.regionType = 1) := by
  have htype : u32 (Memory.load r.entry 16 8) = r.regionType := Memory.load_add_mod r.entry 16 4 4
  rw [Region.usable, replyRegion, htype]

theorem at_replyRegion (h : EntryAt m p r.entry) (hlen : r.regionLength ≠ 0) :
    (replyRegion r).At m p where
  base_eq := h.load (k := 0) (by decide)
  length_eq := h.load (by decide)
  type_eq := h.load (by decide)
  not_null hnull := hlen ((h.load (k := 8) (n := 8) (by decide)).symm.trans hnull.2.1)

theorem tableAt_of_entriesAt (h : EntriesAt m p rs) (hlen : ∀ r ∈ rs, r.regionLength ≠ 0)
    (hnull : NullAt m (p + 24 * rs.length)) : TableAt m p (rs.map replyRegion) := by
  induction rs generalizing p with
  | nil => exact hnull
  | cons r rs ih =>
    rw [List.forall_mem_cons] at hlen
    refine ⟨at_replyRegion h.1 hlen.1, ih h.2 hlen.2 ?_⟩
    rwa [List.length_cons, Nat.mul_succ, Nat.add_comm (24 * rs.length), ← Nat.add_assoc] at hnull

theorem regionLength_ne_of_mem_kept (h : r ∈ kept rs) : r.regionLength ≠ 0 :=
  of_decide_eq_true (List.mem_filter.1 h).2

/-- What the bootloader leaves is a table for the kernel. -/
theorem tableAt_of_mapAt (h : MapAt init last m) (hlow : last.Low) :
    TableAt m memoryInformationTable (bootRegions init) :=
  tableAt_of_entriesAt h.entriesAt (fun _ hr => regionLength_ne_of_mem_kept hr) (h.null_iff.2 hlow)

/-! ## What the entries seem to be -/

section Plain

variable {es : List Region} {address : ℕ}

/-- In exact arithmetic, `address` is between the ends of the entry. -/
def Region.Contains (address : ℕ) (e : Region) : Prop :=
  e.base ≤ address ∧ address < e.base + e.length

/-- If the entry contains the address, it ends below 4 GiB, with room for a header behind the
    address; and it does contain it if it seems to in 32 bits. -/
structure Region.Plain (address : ℕ) (e : Region) : Prop where
  fits : e.Contains address →
    e.base + e.length < 2 ^ 32 ∧ address + sizeofBlockHeader ≤ e.base + e.length
  contains : e.seemsToContain address = true → e.Contains address

/-- An entry below 4 GiB is what it seems to be. -/
theorem Region.plain_of_lt {e : Region} (h : e.base + e.length < 2 ^ 32)
    (hroom : e.Contains address → address + sizeofBlockHeader ≤ e.base + e.length) :
    e.Plain address where
  fits hc := ⟨h, hroom hc⟩
  contains hseems := by
    rw [seemsToContain, decide_eq_true_iff, end32, u32_of_lt h, u32_of_lt (by omega)] at hseems
    exact hseems

theorem Region.Plain.seemsToContain {e : Region} (h : e.Plain address)
    (hc : e.Contains address) : e.seemsToContain address = true := by
  have hlt := (h.fits hc).1
  rw [Region.seemsToContain, decide_eq_true_iff, end32, u32_of_lt hlt, u32_of_lt (by omega)]
  exact hc

/-- The kernel finds an entry exactly if one contains the address. -/
theorem isSome_heapRegion_iff (h : ∀ e ∈ firstUsable es, e.Plain address) :
    (heapRegion es address).isSome ↔ ∃ e ∈ firstUsable es, e.Contains address := by
  rw [heapRegion, List.find?_isSome]
  constructor
  · rintro ⟨e, he, hseems⟩
    exact ⟨e, he, (h e he).contains hseems⟩
  · rintro ⟨e, he, hc⟩
    exact ⟨e, he, (h e he).seemsToContain hc⟩

/-- What it finds is memory with room for a header. -/
theorem findsRam_of_plain (h : ∀ e ∈ firstUsable es, e.Plain address) : FindsRam es address := by
  rw [FindsRam]
  cases hr : heapRegion es address with
  | some e =>
    have he : e ∈ firstUsable es := List.mem_of_find?_eq_some hr
    have hseems : e.seemsToContain address = true := List.find?_some hr
    obtain ⟨hlt, hroom⟩ := (h e he).fits ((h e he).contains hseems)
    refine ⟨?_, .inl ((Nat.le_add_right _ _).trans_lt hlt)⟩
    rwa [Region.end32, u32_of_lt hlt]
  | none =>
    intro e he hroom
    have hc : e.Contains address :=
      ⟨hroom.1, (Nat.lt_add_of_pos_right (by decide)).trans_le hroom.2⟩
    have hsome := (isSome_heapRegion_iff h).2 ⟨e, he, hc⟩
    rw [hr] at hsome
    exact Bool.false_ne_true hsome

end Plain

/-! ## From the firmware to the heap -/

/-- The kernel before it makes its heap, on a machine with the memory `m` at its start: it has
    not written to the memory map so far, nor to the table, which is zero at the start. -/
structure StartsOn (m : Memory) (k : State) : Prop where
  mem_eq : ∀ x, memoryInfoBottom ≤ x → x < memoryInfoTop → k.mem x = m x
  entries_eq : ∀ i, k.memoryRangeTable.entries i = ⟨0, 0⟩

/-- Whatever the users of the heap do without splitting a block inside it, the heap is safe,
    and what they have been given is memory of the entry `r`. -/
def ServesFrom (r : MapReply) (kernelEnd : ℕ) (k : State) : Prop :=
  ∀ l u, Run.Along Session.step Session.SplitsAtEnd ⟨k, []⟩ l →
    Run.run Session.step ⟨k, []⟩ l = some u →
      Session.Safe (heapBaseAddress kernelEnd) k.endAddress u ∧ ∀ p ∈ u.live,
        payload p ⊆ Set.Ico r.baseAddress (r.baseAddress + r.regionLength)

/-- The heap is made in an entry of the map, whose memory is then all that is given away. -/
theorem exists_servesFrom {fuel kernelEnd : ℕ} {k k' : State} {res : ErrorOr Unit}
    (h : initializeManager fuel kernelEnd k = some (res, k'))
    (hram : InitializesRam (bootRegions init) (heapBaseAddress kernelEnd) res k')
    (hok : res = .ok ()) : ∃ r ∈ init, r.usable = true ∧ ServesFrom r kernelEnd k' := by
  obtain ⟨⟨e, he, hu, hbase, hstop⟩, hend⟩ := hram.sound hok
  obtain ⟨r, hr, rfl⟩ := List.mem_map.1 he
  rw [usable_replyRegion, decide_eq_true_iff] at hu
  refine ⟨r, List.mem_of_mem_filter hr, ?_, fun l u hl hrun => ?_⟩
  · exact decide_eq_true ⟨regionLength_ne_of_mem_kept hr, hu⟩
  · rw [hok] at h
    have hsafe := ((Session.inv_of_initializeManager h hend).run hl hrun).safe
    refine ⟨hsafe, fun p hp => (hsafe.subset p hp).trans ?_⟩
    exact Set.Ico_subset_Ico (hbase.trans (Nat.le_add_right _ _)) hstop

variable {fw : Firmware} {disk : CHSAddress → ℕ → Byte} {fuel d n₁ n₂ : ℕ}
  {s : Pc SectorRead}

/-- From the requests of the boot to the users of the heap: on a machine that boots, with the
    map `init`, whose last reply has nothing to leave behind, the kernel makes its heap exactly
    if one of the usable entries that it keeps contains the base of the heap, and gives memory
    of one usable entry of the map only. -/
theorem booted_run_safe (h : Boots fw disk fuel d n₁ n₂ init last s) (ra : ℕ → ℕ)
    (hlow : last.Low) (kernelEnd : ℕ)
    (hplain : ∀ e ∈ firstUsable (bootRegions init), e.Plain (heapBaseAddress kernelEnd)) :
    ∃ t, boot fw ra fuel s = some (.inr t) ∧ ∀ (k : State) (n : ℕ),
      StartsOn t.machine.cpu.mem k → init.length < n →
      ∃ res k', initializeManager n kernelEnd k = some (res, k') ∧
        (res = .ok () ↔
          ∃ e ∈ firstUsable (bootRegions init), e.Contains (heapBaseAddress kernelEnd)) ∧
        (res = .ok () → ∃ r ∈ init, r.usable = true ∧ ServesFrom r kernelEnd k') := by
  obtain ⟨t, hboot, -, -, -, hmap, -⟩ := h.enters ra
  refine ⟨t, hboot, fun k n hk hn => ?_⟩
  have hn' : (bootRegions init).length < n :=
    (List.length_map _).trans_lt ((List.length_filter_le _ _).trans_lt hn)
  have htable := tableAt_of_mapAt (hmap.congr h.maps.fits hk.mem_eq) hlow
  obtain ⟨res, k', heq, hsome, hnone⟩ := initializeManager_spec kernelEnd htable hk.entries_eq hn'
  have hram := (initializesRam_iff_findsRam hsome hnone).2 (findsRam_of_plain hplain)
  refine ⟨res, k', heq, ?_, exists_servesFrom heq hram⟩
  rw [← isSome_heapRegion_iff hplain]
  cases hr : heapRegion (bootRegions init) (heapBaseAddress kernelEnd) with
  | some e => exact iff_of_true (hsome e hr).1 rfl
  | none =>
    obtain ⟨err, hres⟩ := hnone hr
    exact iff_of_false (by simp [hres]) Bool.false_ne_true

/-- The firmware of the sample boot, with 16 KiB from the end of the first MiB on in its map. -/
def mappedFirmware : Firmware :=
  { sampleFirmware with map := [sampleReply 0x100000 0x4000 1 1, sampleReply 0 0xfc00 1 0] }

theorem boots_mappedFirmware : Boots mappedFirmware sampleDisk (2 ^ 32) 1 2 1
    [sampleReply 0x100000 0x4000 1 1] (sampleReply 0 0xfc00 1 0) samplePc where
  narrow := show 0x6fee < 2 ^ 16 by decide
  log_eq := rfl
  tame := Pc.tame_sampleClosed
  reset_ok := rfl
  serves := sampleFirmware_serves _
  stage1_file := ⟨sampleDigits, ⟨rfl, by decide, by decide⟩, by decide⟩
  kernel_file := ⟨kernelDigits, ⟨rfl, by decide, by decide⟩, by decide⟩
  sectors_le := by decide
  stage1_le := by decide
  kernel_le := by decide
  succeeds := eachSucceeds_of_ok (fun _ => rfl) _ _
  maps := ⟨⟨[], rfl⟩, by simp [sampleReply], by decide, rfl, by decide⟩
  keepsTame _ _ _ hp := hp
  header_ok := ⟨by decide +kernel, by decide +kernel, by decide +kernel, by decide +kernel⟩
  elfFits := elfFits_sampleDisk
  le_fuel := le_rfl
  lt_fuel := by decide

theorem booted_run_safe_sample : ∃ t, boot mappedFirmware sampleRa (2 ^ 32) samplePc =
    some (.inr t) ∧ ∃ k',
      initializeManager 2 sampleKernelEnd { sampleBoot with mem := t.machine.cpu.mem } =
        some (.ok (), k') ∧
      ∃ r ∈ [sampleReply 0x100000 0x4000 1 1], r.usable = true ∧
        ServesFrom r sampleKernelEnd k' := by
  have hregions : bootRegions [sampleReply 0x100000 0x4000 1 1] = [⟨0x100000, 0x4000, 1⟩] := by
    decide +kernel
  have hfirst : firstUsable [⟨0x100000, 0x4000, 1⟩] = [⟨0x100000, 0x4000, 1⟩] := rfl
  have hplain : ∀ e ∈ firstUsable (bootRegions [sampleReply 0x100000 0x4000 1 1]),
      e.Plain (heapBaseAddress sampleKernelEnd) := by
    rw [hregions, hfirst, List.forall_mem_singleton]
    exact Region.plain_of_lt (by decide) fun _ => by decide +kernel
  have hcontains : ∃ e ∈ firstUsable (bootRegions [sampleReply 0x100000 0x4000 1 1]),
      e.Contains (heapBaseAddress sampleKernelEnd) := by
    rw [hregions, hfirst]
    exact ⟨_, List.mem_singleton_self _, by decide +kernel, by decide +kernel⟩
  have hlow : (sampleReply 0 0xfc00 1 0).Low := by decide +kernel
  obtain ⟨t, hboot, hkernel⟩ :=
    booted_run_safe boots_mappedFirmware sampleRa hlow sampleKernelEnd hplain
  have hstart : StartsOn t.machine.cpu.mem { sampleBoot with mem := t.machine.cpu.mem } :=
    ⟨fun _ _ _ => rfl, fun _ => rfl⟩
  obtain ⟨res, k', heq, hiff, hsafe⟩ := hkernel _ 2 hstart Nat.one_lt_two
  obtain rfl := hiff.2 hcontains
  exact ⟨t, hboot, k', heq, hsafe rfl⟩

end KessokuOS.MemoryManager
