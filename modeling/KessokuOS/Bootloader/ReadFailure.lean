import KessokuOS.Bootloader.Loader

/-!
# Failing reads

The routines that read sectors are to report a failure by the carry. But when the
last attempt has failed, the loop over the attempts compares the counter with `0`,
which clears the carry again. Hence:

* the carry is never set behind a routine (`cf_readNextFloppySectorRepeated`,
  `cf_readSectors`, `cf_readSectorsMultiSegment`), nor behind the loading of a file
  (`cf_loadStage1File`, `cf_loadKernelFile`), and what has been loaded is run;
* a failure is reported, with no request behind it, exactly when there is none
  (`reportsFailure_iff`).
-/

namespace KessokuOS.Bootloader

open X86 X86.Cpu FloppyDisk

variable {bios : ℕ → DiskReply} {ra : ℕ → ℕ} {fuel n i e : ℕ} {digits : List ℕ} {s t : Machine}

/-! ## The carry -/

/-- The carry behind a call is that of the routine. -/
theorem cf_call {v : ℕ} {f : Machine → Option Machine} (hf : ∀ s t, f s = some t → t.cf = false)
    (h : s.call .sp 2 v f = some t) : t.cf = false := by
  obtain ⟨u, hu, h⟩ := Option.bind_eq_some_iff.1 h
  split_ifs at h
  rw [← Option.some.inj h, cf_set, hf _ u hu]

/-- The loop is left behind a success, or behind the comparison of the counter with
    `0`, which clears the carry. -/
theorem cf_readNextFloppySectorRepeated (h : readNextFloppySectorRepeated bios ra fuel s = some t) :
    t.cf = false := by
  obtain ⟨u, hu, h⟩ := Option.bind_eq_some_iff.1 h
  rw [← Option.some.inj h, cf_pop]
  refine loop_post (fun _ => True) (fun t => t.cf = false) (fun _ _ _ _ => trivial)
    (fun s t _ hround => ?_) trivial hu
  rw [readNextFloppySectorRepeatedRound] at hround
  split_ifs at hround with hz
  · rw [← Sum.inr.inj (Option.some.inj hround), cf_cmp_zero]
  · simp only [Option.bind_eq_bind, Option.bind_eq_some_iff] at hround
    obtain ⟨u, -, hround⟩ := hround
    split_ifs at hround with hcf
    · rw [← Sum.inr.inj (Option.some.inj hround)]
      exact hcf
    · exact absurd (Option.some.inj hround) Sum.inl_ne_inr

/-- No sector is seen to fail, hence the loop is left behind the comparison. -/
theorem cf_readSectors (h : readSectors bios ra fuel s = some t) : t.cf = false := by
  refine loop_post (fun _ => True) (fun t => t.cf = false) (fun _ _ _ _ => trivial)
    (fun s t _ hround => ?_) trivial h
  rw [readSectorsRound] at hround
  split_ifs at hround with hz
  · rw [← Sum.inr.inj (Option.some.inj hround), cf_cmp_zero]
  · simp only [Option.bind_eq_bind, Option.bind_eq_some_iff] at hround
    obtain ⟨u, hu, hround⟩ := hround
    have hcf : u.cf = false := cf_call (fun _ _ => cf_readNextFloppySectorRepeated) hu
    simp only [cf_pop, hcf, Bool.false_eq_true, if_false] at hround
    exact absurd (Option.some.inj hround) Sum.inl_ne_inr

/-- No segment is seen to fail, hence the carry is that behind the remaining sectors. -/
theorem cf_readSectorsMultiSegment (h : readSectorsMultiSegment bios ra fuel s = some t) :
    t.cf = false := by
  refine loop_post (fun _ => True) (fun t => t.cf = false) (fun _ _ _ _ => trivial)
    (fun s t _ hround => ?_) trivial h
  rw [readSectorsMultiSegmentRound] at hround
  split_ifs at hround with hlt
  · simp only [Option.bind_eq_bind, Option.bind_eq_some_iff] at hround
    obtain ⟨u, hu, hround⟩ := hround
    rw [← Sum.inr.inj (Option.some.inj hround)]
    exact cf_call (fun _ _ => cf_readSectors) hu
  · simp only [Option.bind_eq_bind, Option.bind_eq_some_iff] at hround
    obtain ⟨u, hu, hround⟩ := hround
    have hcf : u.cf = false := cf_call (fun _ _ => cf_readSectors) hu
    simp only [cf_pop, hcf, Bool.false_eq_true, if_false] at hround
    exact absurd (Option.some.inj hround) Sum.inl_ne_inr

theorem cf_loadStage1File (h : loadStage1File bios ra fuel s = some t) : t.cf = false := by
  simp only [loadStage1File, Option.bind_eq_bind, Option.bind_eq_some_iff] at h
  obtain ⟨_, -, _, -, h⟩ := h
  exact cf_call (fun _ _ => cf_readSectors) h

theorem cf_loadKernelFile (h : loadKernelFile bios ra fuel s = some t) : t.cf = false := by
  simp only [loadKernelFile, Option.bind_eq_bind, Option.bind_eq_some_iff] at h
  obtain ⟨_, -, _, -, h⟩ := h
  exact cf_call (fun _ _ => cf_readSectorsMultiSegment) h

/-! ## The requests -/

/-- The number of attempts at a sector from the `i`-th call on: up to the first one
    that succeeds, `k` at most. -/
def attempts (bios : ℕ → DiskReply) : ℕ → ℕ → ℕ
  | 0, _ => 0
  | k + 1, i => if (bios i).ok then 1 else attempts bios k (i + 1) + 1

/-- The call of the BIOS behind those for `n` sectors from the `i`-th one on, of which
    the last ones are for the first sector that fails in all attempts, if there is one. -/
def callsEnd (bios : ℕ → DiskReply) : ℕ → ℕ → ℕ
  | 0, i => i
  | n + 1, i =>
    let i' := i + attempts bios floppyReadAttemptCount i
    if (bios (i' - 1)).ok then callsEnd bios n i' else i'

theorem attempts_of_ok {j k : ℕ} (hj : j < k) (hfail : ∀ j' < j, (bios (i + j')).ok = false)
    (hok : (bios (i + j)).ok = true) : attempts bios k i = j + 1 := by
  induction j generalizing i k with
  | zero =>
    obtain ⟨k, rfl⟩ := Nat.exists_eq_succ_of_ne_zero hj.ne'
    exact if_pos hok
  | succ j ih =>
    obtain ⟨k, rfl⟩ := Nat.exists_eq_succ_of_ne_zero (Nat.ne_zero_of_lt hj)
    have hfail₀ : (bios i).ok = false := hfail 0 (Nat.succ_pos j)
    have hfail' : ∀ j' < j, (bios (i + 1 + j')).ok = false := by
      intro j' hj'
      rw [Nat.add_assoc, Nat.add_comm 1]
      exact hfail (j' + 1) (Nat.succ_lt_succ hj')
    rw [attempts, hfail₀, ih (Nat.lt_of_succ_lt_succ hj) hfail'
      (by rwa [Nat.add_assoc, Nat.add_comm 1])]
    rfl

theorem callsEnd_of_succeedsTo (h : SucceedsTo bios n i e) : callsEnd bios n i = e := by
  induction n generalizing i with
  | zero => exact h
  | succ n ih =>
    obtain ⟨j, hj, hfail, hok, h⟩ := h
    have hlast : i + (j + 1) - 1 = i + j := rfl
    rw [callsEnd, attempts_of_ok hj hfail hok]
    simp only [hlast, hok, if_true]
    exact ih h

/-! ## Reporting failures -/

/-- The routine `f` returns with the carry set exactly if one of the `n` sectors that
    it is to read fails in all attempts; there is no request after a success or the
    last attempt at a sector, and none after a sector that fails. -/
def ReportsFailure (bios : ℕ → DiskReply) (n : ℕ) (f : Machine → Option Machine) (s : Machine) :
    Prop :=
  ∃ t, f s = some t ∧ (t.cf = true ↔ ¬EachSucceeds bios n s.log.length) ∧
    t.log.length = callsEnd bios n s.log.length

/-- The routines that read sectors, and the loading of a file with the `digits` of its
    size, behind which the boot code goes on with the file unless the carry is set. -/
inductive Loading
  | sector
  | sectors
  | segments
  | stage1 (digits : List ℕ)
  | kernel (digits : List ℕ)

namespace Loading

def run (bios : ℕ → DiskReply) (ra : ℕ → ℕ) (fuel : ℕ) : Loading → Machine → Option Machine
  | sector => readNextFloppySectorRepeated bios ra fuel
  | sectors => readSectors bios ra fuel
  | segments => readSectorsMultiSegment bios ra fuel
  | stage1 _ => loadStage1File bios ra fuel
  | kernel _ => loadKernelFile bios ra fuel

/-- The number of sectors to be read. -/
def count (s : Machine) : Loading → ℕ
  | sector => 1
  | sectors | segments => s.get .ax
  | stage1 digits | kernel digits => (octal digits + 511) / 512

/-- The sectors go to a place behind the position: to the segment, to the segments
    below the address `0x100000`. The meta data are where the source puts them. -/
def Fits (s : Machine) : Loading → Prop
  | sector => currentSectorAddr < bufferAddr s
  | sectors => currentSectorAddr < bufferAddr s ∧
      s.get .bx + sectorSize * s.get .ax ≤ 2 ^ 16
  | segments => currentSectorAddr < 16 * s.es ∧ 16 * s.es + sectorSize * s.get .ax ≤ 2 ^ 20
  | stage1 digits => s.es = 0 ∧ UstarSize s.mem stage1LoadAddr digits ∧
      stage1LoadAddr + 512 * ((octal digits + 511) / 512) ≤ 2 ^ 16
  | kernel digits => s.es = 0x1000 ∧ UstarSize s.mem 0x10000 digits ∧
      0x10000 + 512 * ((octal digits + 511) / 512) ≤ 0x100000

variable {l : Loading}

/-- No failure is reported. -/
theorem cf_run (h : l.run bios ra fuel s = some t) : t.cf = false := by
  cases l with
  | sector => exact cf_readNextFloppySectorRepeated h
  | sectors => exact cf_readSectors h
  | segments => exact cf_readSectorsMultiSegment h
  | stage1 _ => exact cf_loadStage1File h
  | kernel _ => exact cf_loadKernelFile h

/-- If no sector fails, all of them are read, and nothing else is requested. -/
theorem run_of_succeedsTo (hr : HasRoom 24 s) (hl : l.Fits s)
    (hs : SucceedsTo bios (l.count s) s.log.length e) (hfuel : sectorsPerSegment < fuel) :
    ∃ t, l.run bios ra fuel s = some t ∧ t.log.length = e := by
  cases l with
  | sector =>
    have hfuel' : 3 ≤ fuel := (show 3 ≤ sectorsPerSegment by decide).trans hfuel.le
    obtain ⟨t, _, ht, -, -, -, he⟩ := readNextFloppySectorRepeated_spec bios ra (n := 0)
      (hr.mono (by decide)) hl hs hfuel'
    exact ⟨t, ht, he⟩
  | sectors =>
    obtain ⟨t, _, ht, -, -, -, he⟩ := readSectors_spec bios ra (m := 0) (hr.mono (by decide)) hl.1
      (by rwa [Nat.zero_add]) rfl (fun _ => ⟨rfl, hl.2⟩) hfuel
    exact ⟨t, ht, he⟩
  | segments =>
    obtain ⟨t, _, ht, -, -, he⟩ := readSectorsMultiSegment_spec bios ra (hr.mono (by decide)) hl.1
      hs rfl rfl hl.2 hfuel
    exact ⟨t, ht, he⟩
  | stage1 digits =>
    obtain ⟨t, _, ht, -, he, -⟩ :=
      loadStage1File_spec ra (hr.mono (by decide)) hl.1 hl.2.1 rfl hl.2.2 hs hfuel
    exact ⟨t, ht, he⟩
  | kernel digits =>
    obtain ⟨t, _, ht, -, he, -⟩ :=
      loadKernelFile_reads ra hr hl.1 hl.2.1 rfl hl.2.2 hs hfuel
    exact ⟨t, ht, he⟩

/-- A failure is reported exactly if there is none. -/
theorem reportsFailure_iff (hr : HasRoom 24 s) (hl : l.Fits s) (hfuel : sectorsPerSegment < fuel) :
    ReportsFailure bios (l.count s) (l.run bios ra fuel) s ↔
      EachSucceeds bios (l.count s) s.log.length := by
  constructor
  · rintro ⟨t, ht, hcf, -⟩
    by_contra hfail
    exact Bool.false_ne_true ((cf_run ht).symm.trans (hcf.2 hfail))
  · intro hs
    obtain ⟨e, he⟩ := eachSucceeds_iff.1 hs
    obtain ⟨t, ht, hlog⟩ := run_of_succeedsTo hr hl he hfuel
    refine ⟨t, ht, iff_of_false ?_ (fun h => h hs), ?_⟩
    · rw [cf_run ht]
      exact Bool.false_ne_true
    · rw [hlog, callsEnd_of_succeedsTo he]

end Loading

theorem reportsFailure_iff_sample :
    ReportsFailure sampleBios ((Loading.kernel sampleDigits).count sampleLoader)
        ((Loading.kernel sampleDigits).run sampleBios sampleRa 200) sampleLoader ↔
      EachSucceeds sampleBios ((Loading.kernel sampleDigits).count sampleLoader)
        sampleLoader.log.length :=
  have hu : UstarSize sampleLoader.mem 0x10000 sampleDigits := ⟨rfl, by decide, by decide⟩
  Loading.reportsFailure_iff ⟨by decide, by decide⟩ ⟨rfl, hu, by decide⟩ (by decide)

/-- A disk of which no sector can be read. -/
def failingBios : ℕ → DiskReply := fun _ => ⟨false, fun _ => 0, fun _ => 0, false⟩

theorem not_eachSucceeds_failingBios : ¬EachSucceeds failingBios (n + 1) i := by
  rintro ⟨_, -, -, hok, -⟩
  exact Bool.false_ne_true hok

/-- Of this disk, the reading of a sector returns as if it had succeeded, and so does
    the loading of a kernel of two sectors, after all six attempts. -/
theorem not_reportsFailure_failing :
    ¬ReportsFailure failingBios 1 (readNextFloppySectorRepeated failingBios sampleRa 200)
        sampleMachine ∧
      ¬ReportsFailure failingBios 2 (loadKernelFile failingBios sampleRa 200) sampleLoader ∧
      ∃ t, loadKernelFile failingBios sampleRa 200 sampleLoader = some t ∧
        (t.cf, t.log.length) = (false, 6) := by
  have hload : (loadKernelFile failingBios sampleRa 200 sampleLoader).map
      (fun t => (t.cf, t.log.length)) = some (false, 6) := by decide +kernel
  refine ⟨?_, ?_, Option.map_eq_some_iff.1 hload⟩
  · rintro ⟨t, ht, hcf, -⟩
    rw [cf_readNextFloppySectorRepeated ht] at hcf
    exact Bool.false_ne_true (hcf.2 not_eachSucceeds_failingBios)
  · rintro ⟨t, ht, hcf, -⟩
    rw [cf_loadKernelFile ht] at hcf
    exact Bool.false_ne_true (hcf.2 not_eachSucceeds_failingBios)

end KessokuOS.Bootloader
