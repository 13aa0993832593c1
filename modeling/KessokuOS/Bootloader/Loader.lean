import Mathlib.Data.Nat.Digits.Defs
import KessokuOS.Bootloader.Floppy
import KessokuOS.Lib.Loop

/-!
# Loading a file

A file on the disk is preceded by a sector of ustar meta data, which gives its
size in octal. Stage 0 reads the size of stage 1, divides it into sectors and
reads these to `0x7e00`; stage 1 does so with the kernel, to the segments from
`0x1000` on, `128` sectors to a segment. A read that fails is attempted up to three
times.

Every routine reads the sectors that follow the position, one behind the other
(`ReadsSectors`), provided that none of them fails three times in a row
(`EachSucceeds`):

* `readNextFloppySectorRepeated_spec`: one sector;
* `readSectors_spec`: the sectors of one segment;
* `readSectorsMultiSegment_spec`: the sectors of several ones;
* `loadStage1File_spec`, `loadKernelFile_spec`: the sectors of the file described by
  the meta data.
-/

namespace KessokuOS.Bootloader

open X86 X86.Cpu FloppyDisk

abbrev floppyReadAttemptCount : ℕ := 3

abbrev sectorsPerSegment : ℕ := 128

abbrev stage1LoadAddr : ℕ := 0x7e00

section Routines

variable (bios : ℕ → DiskReply) (ra : ℕ → ℕ) (fuel : ℕ)

def readNextFloppySectorRepeatedRound (s : Machine) : Option (Machine ⊕ Machine) :=
  let s := s.cmp .cx 0
  if s.zf = true then some (.inr s)
  else do
    let s := s.push .sp 2 (s.get .bx)
    let s ← s.call .sp 2 (ra 186) (readNextFloppySector bios ra)
    let s := s.pop .sp 2 .bx
    if s.cf = false then some (.inr s) else some (.inl (s.dec .cx))

/-- Attempts to read the sector at the position to `es:bx`, up to three times. -/
def readNextFloppySectorRepeated (s : Machine) : Option Machine := do
  let s := s.push .sp 2 (s.get .cx)
  let s := s.set .cx floppyReadAttemptCount
  let s ← loop (readNextFloppySectorRepeatedRound bios ra) fuel s
  some (s.pop .sp 2 .cx)

def readSectorsRound (s : Machine) : Option (Machine ⊕ Machine) :=
  let s := s.cmp .cx 0
  if s.zf = true then some (.inr s)
  else do
    let s := s.push .sp 2 (s.get .cx)
    let s := s.push .sp 2 (s.get .ax)
    let s := s.push .sp 2 (s.get .bx)
    let s ← s.call .sp 2 (ra 246) (readNextFloppySectorRepeated bios ra fuel)
    let s := s.pop .sp 2 .bx
    let s := s.pop .sp 2 .ax
    let s := s.pop .sp 2 .cx
    if s.cf = true then some (.inr s)
    else
      let s := s.dec .cx
      let s := s.add .bx sectorSize
      some (.inl s)

/-- Reads `ax` sectors to `es:bx`. -/
def readSectors (s : Machine) : Option Machine :=
  loop (readSectorsRound bios ra fuel) fuel (s.set .cx (s.get .ax))

/-- A round reads the sectors of a whole segment. The last one reads the remaining
    ones, whether it fails or not. -/
def readSectorsMultiSegmentRound (s : Machine) : Option (Machine ⊕ Machine) :=
  let s := s.cmp .cx sectorsPerSegment
  if s.cf = true then do
    let s := s.set .ax (s.get .cx)
    let s := s.clear .bx
    let s ← s.call .sp 2 (ra 498) (readSectors bios ra fuel)
    some (.inr s)
  else do
    let s := s.set .ax sectorsPerSegment
    let s := s.clear .bx
    let s := s.push .sp 2 (s.get .cx)
    let s ← s.call .sp 2 (ra 481) (readSectors bios ra fuel)
    let s := s.pop .sp 2 .cx
    if s.cf = true then some (.inr s)
    else
      let s := s.set .ax s.es
      let s := s.add .ax 0x1000
      let s := s.setEs (s.get .ax)
      let s := s.sub .cx sectorsPerSegment
      some (.inl s)

/-- Reads `ax` sectors to the segments from `es` on. -/
def readSectorsMultiSegment (s : Machine) : Option Machine :=
  loop (readSectorsMultiSegmentRound bios ra fuel) fuel (s.set .cx (s.get .ax))

def ustarReadFileSizeRound (s : Machine) : Option (Machine ⊕ Machine) :=
  let s := s.cmp .cx 11
  if s.cf = false then some (.inr s)
  else
    let s := s.set .edx (s.mem (16 * s.es + s.get .bx)).toNat
    let s := s.sub .dl 48
    let s := s.shl .eax 3
    let s := s.lor .eax (s.get .edx)
    let s := s.add .cx 1
    let s := s.add .bx 1
    some (.inl s)

/-- Reads the size of the file from the ustar meta data at `es:bx` to `eax`. -/
def ustarReadFileSize (s : Machine) : Option Machine :=
  let s := s.add .bx 0x7c
  let s := s.clear .cx
  let s := s.clear .eax
  loop ustarReadFileSizeRound fuel s

/-- Sets `eax` to its quotient by `d`, rounded up. -/
def ceilDiv (d : ℕ) (s : Machine) : Option Machine := do
  let s := s.clear .edx
  let s := s.set .ecx d
  let s ← s.div (s.get .ecx)
  let s := s.cmp .edx 0
  if s.zf = true then some s else some (s.add .eax 1)

/-- Stage 0 reads stage 1 behind its meta data. -/
def loadStage1File (s : Machine) : Option Machine := do
  let s := s.set .bx stage1LoadAddr
  let s ← s.call .sp 2 (ra 97) (ustarReadFileSize fuel)
  let s ← ceilDiv sectorSize s
  let s := s.set .bx stage1LoadAddr
  s.call .sp 2 (ra 102) (readSectors bios ra fuel)

/-- Stage 1 reads the kernel behind its meta data, which are at the beginning of the
    segment. -/
def loadKernelFile (s : Machine) : Option Machine := do
  let s := s.clear .bx
  let s ← s.call .sp 2 (ra 414) (ustarReadFileSize fuel)
  let s ← ceilDiv sectorSize s
  let s := s.clear .bx
  s.call .sp 2 (ra 421) (readSectorsMultiSegment bios ra fuel)

end Routines

/-! ## Reading sectors one behind the other -/

/-- Of the calls of the BIOS from the `i`-th on, the first to succeed is among the
    first three, and so on for `n` sectors. -/
def EachSucceeds (bios : ℕ → DiskReply) : ℕ → ℕ → Prop
  | 0, _ => True
  | n + 1, i => ∃ j < floppyReadAttemptCount, (∀ j' < j, (bios (i + j')).ok = false) ∧
      (bios (i + j)).ok = true ∧ EachSucceeds bios n (i + j + 1)

/-- So it is, and the calls before the `e`-th one are those made for them. -/
def SucceedsTo (bios : ℕ → DiskReply) : ℕ → ℕ → ℕ → Prop
  | 0, i, e => i = e
  | n + 1, i, e => ∃ j < floppyReadAttemptCount, (∀ j' < j, (bios (i + j')).ok = false) ∧
      (bios (i + j)).ok = true ∧ SucceedsTo bios n (i + j + 1) e

theorem eachSucceeds_iff {bios : ℕ → DiskReply} {n i : ℕ} :
    EachSucceeds bios n i ↔ ∃ e, SucceedsTo bios n i e := by
  induction n generalizing i with
  | zero => exact iff_of_true trivial ⟨i, rfl⟩
  | succ n ih =>
    simp only [EachSucceeds, SucceedsTo, ih]
    constructor
    · rintro ⟨j, hj, hfail, hok, e, he⟩
      exact ⟨e, j, hj, hfail, hok, he⟩
    · rintro ⟨e, j, hj, hfail, hok, he⟩
      exact ⟨j, hj, hfail, hok, e, he⟩

/-- From `s` to `t`, the requests `reads` are made, of which `n` succeed: those for
    the `n` sectors from the position on. They are read to `addr`, one behind the
    other; nothing else is written but `depth` bytes of the stack, the position and
    the addresses up to `hi`. -/
structure ReadsSectors (depth addr hi n : ℕ) (reads : List SectorRead) (s t : Machine) :
    Prop where
  leaves : Leaves .sp depth (positionBytes ∪ Set.Ico addr hi) s t
  log_eq : t.log = s.log ++ reads
  length_eq : (reads.filter (·.ok)).length = n
  position_eq : position t.mem = nextPosition^[n] (position s.mem)
  read_eq : ∀ i r, (reads.filter (·.ok))[i]? = some r →
    r.buffer = addr + sectorSize * i ∧ r.position = nextPosition^[i] (position s.mem) ∧
      ∀ j < sectorSize, t.mem (addr + sectorSize * i + j) = r.data j

/-- There is room on the stack, which lies below the position. -/
structure HasRoom (depth : ℕ) (s : Machine) : Prop where
  le_sp : depth ≤ s.get .sp
  sp_le : s.get .sp ≤ currentCylinderAddr

theorem HasRoom.push {depth v : ℕ} {s : Machine} (h : HasRoom (depth + 2) s) :
    HasRoom depth (s.push .sp 2 v) := by
  obtain ⟨h, h'⟩ := h
  have hsp : (s.push .sp 2 v).get .sp = s.get .sp - 2 := get_push_self (by omega)
  exact ⟨by omega, by omega⟩

theorem HasRoom.mono {depth depth' : ℕ} {s : Machine} (h : HasRoom depth s) (hd : depth' ≤ depth) :
    HasRoom depth' s :=
  ⟨hd.trans h.le_sp, h.sp_le⟩

/-- A routine that makes requests leaves room. -/
theorem HasRoom.of_sp_eq {depth : ℕ} {s t : Machine} (h : HasRoom depth s)
    (hsp : t.get .sp = s.get .sp) : HasRoom depth t :=
  ⟨hsp ▸ h.le_sp, hsp ▸ h.sp_le⟩

namespace ReadsSectors

variable {depth addr hi n n' : ℕ} {reads reads' : List SectorRead} {s s' t t' u : Machine}

theorem congr (h : ReadsSectors depth addr hi n reads s t) (hsp : s'.get .sp = s.get .sp)
    (hm : s'.mem = s.mem) (hl : s'.log = s.log) (hsp' : t'.get .sp = t.get .sp)
    (hm' : t'.mem = t.mem) (hl' : t'.log = t.log) : ReadsSectors depth addr hi n reads s' t' where
  leaves := ⟨by rw [hsp, hsp', h.leaves.sp_eq], by rw [hsp, hm, hm']; exact h.leaves.mem_eq⟩
  log_eq := by rw [hl, hl', h.log_eq]
  length_eq := h.length_eq
  position_eq := by rw [hm, hm', h.position_eq]
  read_eq := by rw [hm, hm']; exact h.read_eq

theorem mono {depth' hi' : ℕ} (h : ReadsSectors depth addr hi n reads s t) (hd : depth ≤ depth')
    (hh : hi ≤ hi') : ReadsSectors depth' addr hi' n reads s t where
  __ := h
  leaves := h.leaves.mono hd (Set.union_subset_union_right _ (Set.Ico_subset_Ico_right hh))

/-- Behind some sectors, others are read. -/
theorem trans {addr' : ℕ} (hr : HasRoom depth s) (haddr : currentSectorAddr < addr)
    (h : ReadsSectors depth addr hi n reads s t) (h' : ReadsSectors depth addr' hi n' reads' t u)
    (ha : addr' = addr + sectorSize * n) :
    ReadsSectors depth addr hi (n + n') (reads ++ reads') s u where
  leaves := h.leaves.trans (h'.leaves.mono le_rfl
    (Set.union_subset_union_right _ (Set.Ico_subset_Ico_left (ha ▸ Nat.le_add_right _ _))))
  log_eq := by rw [h'.log_eq, h.log_eq, List.append_assoc]
  length_eq := by rw [List.filter_append, List.length_append, h.length_eq, h'.length_eq]
  position_eq := by
    rw [h'.position_eq, h.position_eq, Nat.add_comm n n', Function.iterate_add_apply]
  read_eq i r hi := by
    rw [List.filter_append, List.getElem?_append, h.length_eq] at hi
    by_cases hlt : i < n
    · -- The sectors read behind leave those before.
      rw [if_pos hlt] at hi
      obtain ⟨hb, hp, hd⟩ := h.read_eq i r hi
      refine ⟨hb, hp, fun j hj => ?_⟩
      have hsp : t.get .sp ≤ 0x6ff4 := h.leaves.sp_eq ▸ hr.sp_le
      have haddr' : 0x6ff6 < addr := haddr
      simp only [sectorSize] at hj ⊢
      rw [h'.leaves.mem_eq _ ?_ (.inr (by omega)), hd j hj]
      rintro (hx | hx)
      · have hx' : addr + 512 * i + j < 0x6ff7 := hx.2
        omega
      · have hx' : addr + 512 * n ≤ addr + 512 * i + j := ha ▸ hx.1
        omega
    · rw [if_neg hlt] at hi
      obtain ⟨hb, hp, hd⟩ := h'.read_eq (i - n) r hi
      have hi' : addr' + sectorSize * (i - n) = addr + sectorSize * i := by
        simp only [ha, sectorSize]
        omega
      rw [hi'] at hb hd
      refine ⟨hb, ?_, hd⟩
      rw [hp, h.position_eq, ← Function.iterate_add_apply, Nat.sub_add_cancel (by omega)]

/-- As far as the first two cylinders go, the sectors are those of the disk from `lba` on. -/
theorem position_eq_lbaToChs {lba i : ℕ} {r : SectorRead}
    (h : ReadsSectors depth addr hi n reads s t) (hpos : position s.mem = lbaToChs lba)
    (hlba : lba + n ≤ 72) (hr : (reads.filter (·.ok))[i]? = some r) :
    r.position = lbaToChs (lba + i) := by
  have hi : i < n := h.length_eq ▸ (List.getElem?_eq_some_iff.1 hr).1
  rw [(h.read_eq i r hr).2.1, hpos, ← positionAt_eq_lbaToChs (show lba < 72 by omega),
    iterate_nextPosition, positionAt_eq_lbaToChs (by omega)]

/-! A push and a pop around the requests. -/

variable {v : ℕ}

theorem pop (h : ReadsSectors depth addr hi n reads (s.push .sp 2 v) t) (hr : HasRoom 2 s)
    {r : Reg} (hne : r.gpr ≠ .sp) :
    ReadsSectors (depth + 2) addr hi n reads s (t.pop .sp 2 r) := by
  have hpos := position_push (v := v) hr.le_sp hr.sp_le
  exact
    { leaves := h.leaves.pop hr.le_sp hne.symm
      log_eq := h.log_eq
      length_eq := h.length_eq
      position_eq := by rw [mem_pop, h.position_eq, hpos]
      read_eq := by rw [mem_pop, ← hpos]; exact h.read_eq }

/-- The requests leave what is pushed. -/
theorem apart_push (hr : HasRoom 2 s) (haddr : currentSectorAddr < addr) :
    ∀ x ∈ positionBytes ∪ Set.Ico addr hi, x + 2 < s.get .sp ∨ s.get .sp ≤ x := by
  have hsp : s.get .sp ≤ 0x6ff4 := hr.sp_le
  have haddr' : 0x6ff6 < addr := haddr
  rintro x (hx | hx)
  · exact .inr (hsp.trans hx.1)
  · have hx' : addr ≤ x := hx.1
    omega

/-- A register that is saved while a routine makes requests. -/
theorem saved {depth' : ℕ} {r : Reg}
    (h : ReadsSectors depth addr hi n reads (s.push .sp 2 (s.get r)) t)
    (hr : HasRoom (depth' + 2) s) (haddr : currentSectorAddr < addr) (hne : r.gpr ≠ .sp)
    (hp : r.part = .word) :
    ∃ u, t.pop .sp 2 r = u ∧ ReadsSectors (depth + 2) addr hi n reads s u ∧ u.get r = s.get r ∧
      u.es = t.es ∧ u.cf = t.cf ∧ u.log = t.log ∧ Modifies [.sp, r.gpr] t u := by
  have hr₂ : HasRoom 2 s := hr.mono (Nat.le_add_left 2 depth')
  obtain ⟨u, rfl, -, hget, -, hm⟩ :=
    h.leaves.saved hr₂.le_sp (apart_push hr₂ haddr) hne.symm (by rw [hp]; rfl)
  exact ⟨_, rfl, h.pop hr₂ hne, hget, es_pop, cf_pop, log_pop, hm⟩

/-- A call of a routine that makes requests. -/
theorem call (h : ReadsSectors depth addr hi n reads (s.push .sp 2 v) t) (hr : HasRoom 2 s)
    (haddr : currentSectorAddr < addr) {f : Machine → Option Machine}
    (hf : f (s.push .sp 2 v) = some t) :
    ∃ u, s.call .sp 2 v f = some u ∧ ReadsSectors (depth + 2) addr hi n reads s u ∧
      u.es = t.es ∧ u.cf = t.cf ∧ Modifies [.sp] t u := by
  have hpos := position_push (v := v) hr.le_sp hr.sp_le
  refine ⟨_, h.leaves.call_eq hr.le_sp (apart_push hr haddr) hf, ?_, rfl, rfl, .set⟩
  exact
    { leaves := h.leaves.of_push hr.le_sp
      log_eq := h.log_eq
      length_eq := h.length_eq
      position_eq := by rw [mem_set, h.position_eq, hpos]
      read_eq := by rw [mem_set, ← hpos]; exact h.read_eq }

end ReadsSectors

/-! ## One sector -/

section Specs

variable (bios : ℕ → DiskReply) (ra : ℕ → ℕ) {fuel e : ℕ} {s : Machine}

/-- A read makes one request, for the next sector if it succeeds. -/
theorem readNextFloppySector_reads (hr : HasRoom 4 s) (haddr : currentSectorAddr < bufferAddr s) :
    ∃ t r, readNextFloppySector bios ra s = some t ∧
      ReadsSectors 4 (bufferAddr s) (bufferAddr s + sectorSize)
        (if (bios s.log.length).ok then 1 else 0) [r] s t ∧
      t.es = s.es ∧ t.cf = !(bios s.log.length).ok ∧ t.get .cx = s.get .cx := by
  have hsp : s.get .sp ≤ 0x6ff4 := hr.sp_le
  have haddr' : 0x6ff6 < bufferAddr s := haddr
  obtain ⟨t, ht, h⟩ := readNextFloppySector_spec bios ra
    (s := s) ⟨hr.le_sp, hr.sp_le, .inr (by omega), .inr haddr⟩
  refine ⟨t, _, ht, ⟨h.leaves, h.log_eq, ?_, ?_, ?_⟩, h.es_eq, h.cf_eq, h.cx_eq⟩
  · cases (bios s.log.length).ok <;> rfl
  · rw [h.position_eq]
    cases (bios s.log.length).ok <;> rfl
  · intro i r hr
    have hd := h.data_eq
    cases hok : (bios s.log.length).ok with
    | false => simp [hok] at hr
    | true =>
      cases i with
      | zero =>
        obtain rfl : _ = r := by simpa [hok] using hr
        exact ⟨rfl, rfl, hd⟩
      | succ i => simp [hok] at hr

/-- A round makes one request. If it succeeds, the loop is left. -/
theorem readNextFloppySectorRepeatedRound_spec (hr : HasRoom 8 s)
    (haddr : currentSectorAddr < bufferAddr s) (hcx : s.get .cx ≠ 0) :
    ∃ t r, readNextFloppySectorRepeatedRound bios ra s =
        some (if (bios s.log.length).ok then .inr t else .inl (t.dec .cx)) ∧
      ReadsSectors 8 (bufferAddr s) (bufferAddr s + sectorSize)
        (if (bios s.log.length).ok then 1 else 0) [r] s t ∧
      t.es = s.es ∧ t.cf = !(bios s.log.length).ok ∧ t.get .cx = s.get .cx ∧
      t.get .bx = s.get .bx := by
  generalize hs₁ : s.cmp .cx 0 = s₁
  have hr₁ : HasRoom 8 s₁ := hs₁ ▸ ⟨hr.le_sp, hr.sp_le⟩
  generalize hs₂ : s₁.push .sp 2 (s₁.get .bx) = s₂
  have hr₂ : HasRoom 6 s₂ := hs₂ ▸ hr₁.push
  have hbuf : bufferAddr (s₂.push .sp 2 (ra 186)) = bufferAddr s := by
    rw [← hs₂, ← hs₁]
    simp [bufferAddr]
  have hlog : (s₂.push .sp 2 (ra 186)).log = s.log := by
    rw [← hs₂, ← hs₁]
    rfl
  obtain ⟨t₃, r, ht₃, h₃, hes₃, hcf₃, hcx₃⟩ :=
    readNextFloppySector_reads bios ra (hr₂.push (v := ra 186)) (by rwa [hbuf])
  rw [hlog, hbuf] at h₃
  rw [hlog] at hcf₃
  obtain ⟨t₂, ht₂, h₂, hes₂, hcf₂, hm₂⟩ :=
    h₃.call (hr₂.mono (by decide)) haddr ht₃
  subst hs₂
  obtain ⟨t, ht, h₁, hbx, hes, hcf, -, hm⟩ := h₂.saved hr₁ haddr (by decide) rfl
  have hcf' : t.cf = !(bios s.log.length).ok := by rw [hcf, hcf₂, hcf₃]
  subst hs₁
  refine ⟨t, r, ?_, h₁.congr rfl rfl rfl rfl rfl rfl, ?_, hcf', ?_, hbx⟩
  · have hz : (s.cmp .cx 0).zf = false := decide_eq_false hcx
    rw [readNextFloppySectorRepeatedRound]
    simp only [hz, Bool.false_eq_true, if_false, ht₂, Option.bind_eq_bind, Option.bind_some, ht,
      hcf']
    cases (bios s.log.length).ok <;> rfl
  · rw [hes, hes₂, hes₃]
    rfl
  · rw [(hm₂.trans hm).get_eq (by decide), hcx₃]
    simp

/-- The loop ends with the first request to succeed. -/
theorem loop_readNextFloppySectorRepeated {j : ℕ} (hr : HasRoom 8 s)
    (haddr : currentSectorAddr < bufferAddr s) (hcx : j < s.get .cx)
    (hfail : ∀ j' < j, (bios (s.log.length + j')).ok = false)
    (hok : (bios (s.log.length + j)).ok = true) (hfuel : j < fuel) :
    ∃ t reads, loop (readNextFloppySectorRepeatedRound bios ra) fuel s = some t ∧
      ReadsSectors 8 (bufferAddr s) (bufferAddr s + sectorSize) 1 reads s t ∧
      reads.length = j + 1 ∧ t.es = s.es ∧ t.cf = false := by
  induction j generalizing s fuel with
  | zero =>
    obtain ⟨fuel, rfl⟩ := Nat.exists_eq_succ_of_ne_zero hfuel.ne'
    obtain ⟨t, r, ht, h, hes, hcf, -, -⟩ :=
      readNextFloppySectorRepeatedRound_spec bios ra hr haddr hcx.ne'
    rw [Nat.add_zero] at hok
    rw [hok] at ht h hcf
    exact ⟨t, [r], loop_of_exit ht, h, rfl, hes, hcf⟩
  | succ j ih =>
    obtain ⟨fuel, rfl⟩ := Nat.exists_eq_succ_of_ne_zero (show fuel ≠ 0 by omega)
    have hcx₀ : s.get .cx ≠ 0 := by omega
    obtain ⟨t, r, ht, h, hes, -, hcx', hbx⟩ :=
      readNextFloppySectorRepeatedRound_spec bios ra hr haddr hcx₀
    have hfail₀ : (bios s.log.length).ok = false := hfail 0 (Nat.succ_pos j)
    rw [hfail₀] at ht h
    -- The counter goes down, the buffer stays.
    have hbuf : bufferAddr (t.dec .cx) = bufferAddr s := by
      simp [bufferAddr, hes, hbx]
    have hlog : ∀ i, (t.dec .cx).log.length + i = s.log.length + (i + 1) := by
      intro i
      have : (t.dec .cx).log = s.log ++ [r] := h.log_eq
      rw [this, List.length_append, List.length_singleton]
      omega
    have hcx'' : (t.dec .cx).get .cx = s.get .cx - 1 := by
      rw [get_dec (by rwa [hcx']), hcx']
    have hsp : (t.dec .cx).get .sp = s.get .sp := by
      rw [← h.leaves.sp_eq]
      simp
    have hfail' : ∀ j' < j, (bios ((t.dec .cx).log.length + j')).ok = false := by
      intro j' hj'
      rw [hlog]
      exact hfail (j' + 1) (by omega)
    have hok' : (bios ((t.dec .cx).log.length + j)).ok = true := by
      rw [hlog]
      exact hok
    have hfuel' : j < fuel := by omega
    obtain ⟨u, reads, hu, h', hlen, hes', hcf⟩ := ih (hr.of_sp_eq hsp) (by rwa [hbuf]) (by omega)
      hfail' hok' hfuel'
    rw [hbuf] at h'
    have h'' : ReadsSectors 8 (bufferAddr s) (bufferAddr s + sectorSize) 1 reads t u :=
      h'.congr (by simp) (by simp) (by simp) rfl rfl rfl
    refine ⟨u, [r] ++ reads, (loop_of_again ht).trans hu, h.trans hr haddr h'' rfl, ?_, ?_, hcf⟩
    · rw [List.length_append, hlen, List.length_singleton, Nat.add_comm]
    · rw [hes', ← hes]
      simp

theorem readNextFloppySectorRepeated_spec {n : ℕ} (hr : HasRoom 10 s)
    (haddr : currentSectorAddr < bufferAddr s) (hs : SucceedsTo bios (n + 1) s.log.length e)
    (hfuel : 3 ≤ fuel) :
    ∃ t reads, readNextFloppySectorRepeated bios ra fuel s = some t ∧
      ReadsSectors 10 (bufferAddr s) (bufferAddr s + sectorSize) 1 reads s t ∧
      t.es = s.es ∧ t.cf = false ∧ SucceedsTo bios n t.log.length e := by
  obtain ⟨j, hj, hfail, hok, hs⟩ := hs
  have hr₁ : HasRoom 8 (s.push .sp 2 (s.get .cx)) := hr.push
  have hbuf : bufferAddr ((s.push .sp 2 (s.get .cx)).set .cx floppyReadAttemptCount) =
      bufferAddr s := by
    simp [bufferAddr]
  have hcx : ((s.push .sp 2 (s.get .cx)).set .cx floppyReadAttemptCount).get .cx = 3 := by
    rw [get_set_self]
    rfl
  obtain ⟨t, reads, ht, h, hlen, hes, hcf⟩ := loop_readNextFloppySectorRepeated bios ra
    (hr₁.of_sp_eq (get_set_of_ne (r := .cx) (by decide))) (by rwa [hbuf]) (by rwa [hcx]) hfail hok
    (hj.trans_le hfuel)
  rw [hbuf] at h
  have h₁ : ReadsSectors 8 (bufferAddr s) (bufferAddr s + sectorSize) 1 reads
      (s.push .sp 2 (s.get .cx)) t :=
    h.congr (get_set_of_ne (by decide)).symm mem_set.symm log_set.symm rfl rfl rfl
  have h₀ := h₁.pop (hr.mono (by decide)) (r := .cx) (by decide)
  refine ⟨_, reads, ?_, h₀, by simp [hes], by rw [cf_pop, hcf], ?_⟩
  · rw [readNextFloppySectorRepeated, ht]
    rfl
  · rwa [h₀.log_eq, List.length_append, hlen, ← Nat.add_assoc]

/-! ## The sectors of a segment -/

/-- A round reads the next sector. -/
theorem readSectorsRound_spec {n : ℕ} (hr : HasRoom 18 s)
    (haddr : currentSectorAddr < bufferAddr s) (hs : SucceedsTo bios (n + 1) s.log.length e)
    (hcx : s.get .cx ≠ 0) (hfuel : 3 ≤ fuel) :
    ∃ t reads, readSectorsRound bios ra fuel s = some (.inl t) ∧
      ReadsSectors 18 (bufferAddr s) (bufferAddr s + sectorSize) 1 reads s t ∧
      t.es = s.es ∧ t.get .cx = s.get .cx - 1 ∧
      t.get .bx = (s.get .bx + sectorSize) % 2 ^ 16 ∧ SucceedsTo bios n t.log.length e := by
  generalize hs₁ : s.cmp .cx 0 = s₁
  have hr₁ : HasRoom 18 s₁ := hs₁ ▸ ⟨hr.le_sp, hr.sp_le⟩
  generalize hs₂ : s₁.push .sp 2 (s₁.get .cx) = s₂
  have hr₂ : HasRoom 16 s₂ := hs₂ ▸ hr₁.push
  generalize hs₃ : s₂.push .sp 2 (s₂.get .ax) = s₃
  have hr₃ : HasRoom 14 s₃ := hs₃ ▸ hr₂.push
  generalize hs₄ : s₃.push .sp 2 (s₃.get .bx) = s₄
  have hr₄ : HasRoom 12 s₄ := hs₄ ▸ hr₃.push
  have hbuf : bufferAddr (s₄.push .sp 2 (ra 246)) = bufferAddr s := by
    rw [← hs₄, ← hs₃, ← hs₂, ← hs₁]
    simp [bufferAddr]
  have hlog : (s₄.push .sp 2 (ra 246)).log = s.log := by
    rw [← hs₄, ← hs₃, ← hs₂, ← hs₁]
    simp
  have hes : (s₄.push .sp 2 (ra 246)).es = s.es := by
    rw [← hs₄, ← hs₃, ← hs₂, ← hs₁]
    simp
  have hbx : s₃.get .bx = s.get .bx := by
    rw [← hs₃, ← hs₂, ← hs₁]
    simp
  obtain ⟨t₅, reads, ht₅, h₅, hes₅, hcf₅, hs₅⟩ :=
    readNextFloppySectorRepeated_spec bios ra (hr₄.push (v := ra 246))
      (by rwa [hbuf]) (by rwa [hlog]) hfuel
  rw [hbuf] at h₅
  obtain ⟨t₄, ht₄, h₄, hes₄, hcf₄, -⟩ := h₅.call (hr₄.mono (by decide)) haddr ht₅
  -- The three registers are there again, and the flag of the read.
  subst hs₄
  obtain ⟨t₃, ht₃, h₃, hbx₃, hes₃, hcf₃, -, -⟩ := h₄.saved hr₃ haddr (by decide) rfl
  subst hs₃
  obtain ⟨t₂, ht₂, h₂, -, hes₂, hcf₂, -, hm₂⟩ := h₃.saved hr₂ haddr (by decide) rfl
  subst hs₂
  obtain ⟨t₁, ht₁, h₁, hcx₁, hes₁, hcf₁, -, hm₁⟩ := h₂.saved hr₁ haddr (by decide) rfl
  subst hs₁
  have h₀ : ReadsSectors 18 (bufferAddr s) (bufferAddr s + sectorSize) 1 reads s t₁ :=
    h₁.congr rfl rfl rfl rfl rfl rfl
  have hcf₁' : t₁.cf = false := by rw [hcf₁, hcf₂, hcf₃, hcf₄, hcf₅]
  have hcx₁' : t₁.get .cx = s.get .cx := hcx₁
  have hbx₁ : t₁.get .bx = s.get .bx := by
    rw [(hm₂.trans hm₁).get_eq (by decide), hbx₃, hbx]
  refine ⟨(t₁.dec .cx).add .bx sectorSize, reads, ?_,
    h₀.congr rfl rfl rfl (by simp) (by simp) (by simp), ?_, ?_, ?_, ?_⟩
  · have hz : (s.cmp .cx 0).zf = false := decide_eq_false hcx
    rw [readSectorsRound]
    simp only [hz, Bool.false_eq_true, if_false, ht₄, Option.bind_eq_bind, Option.bind_some, ht₃,
      ht₂, ht₁, hcf₁']
  · rw [es_alu, es_alu, hes₁, hes₂, hes₃, hes₄, hes₅, hes]
  · have : ((t₁.dec .cx).add .bx sectorSize).get .cx = (t₁.dec .cx).get .cx := by simp
    rw [this, get_dec (by rwa [hcx₁']), hcx₁']
  · simp [hbx₁, Part.bits]
  · have : t₁.log = t₅.log := by rw [h₀.log_eq, h₅.log_eq, hlog]
    simpa [this] using hs₅

/-- The offset of the buffer may be `0` behind the last sector, when the segment is
    full. -/
theorem loop_readSectors {n m addr fuel' : ℕ} (hr : HasRoom 18 s)
    (haddr : currentSectorAddr < addr) (hs : SucceedsTo bios (m + n) s.log.length e)
    (hcx : s.get .cx = n)
    (hbuf : 0 < n → bufferAddr s = addr ∧ s.get .bx + sectorSize * n ≤ 2 ^ 16)
    (hfuel : 3 ≤ fuel) (hfuel' : n < fuel') :
    ∃ t reads, loop (readSectorsRound bios ra fuel) fuel' s = some t ∧
      ReadsSectors 18 addr (addr + sectorSize * n) n reads s t ∧ t.es = s.es ∧ t.cf = false ∧
      SucceedsTo bios m t.log.length e := by
  induction n generalizing s addr fuel' with
  | zero =>
    obtain ⟨fuel', rfl⟩ := Nat.exists_eq_succ_of_ne_zero hfuel'.ne'
    have hz : (s.cmp .cx 0).zf = true := decide_eq_true hcx
    refine ⟨s.cmp .cx 0, [], loop_of_exit ?_, ?_, rfl, by simp, hs⟩
    · rw [readSectorsRound]
      simp only [hz, if_true]
    · exact ⟨⟨rfl, fun _ _ _ => rfl⟩, (List.append_nil _).symm, rfl, rfl, fun _ _ h => by simp at h⟩
  | succ n ih =>
    obtain ⟨fuel', rfl⟩ := Nat.exists_eq_succ_of_ne_zero (show fuel' ≠ 0 by omega)
    obtain ⟨rfl, hbx⟩ := hbuf (Nat.succ_pos n)
    obtain ⟨t, reads, ht, h, hes, hcx', hbx', hs'⟩ :=
      readSectorsRound_spec bios ra hr haddr hs (by omega) hfuel
    have hbuf' : 0 < n →
        bufferAddr t = bufferAddr s + sectorSize ∧ t.get .bx + sectorSize * n ≤ 2 ^ 16 := by
      intro hn
      simp only [sectorSize, bufferAddr] at hbx hbx' ⊢
      rw [hes, hbx', Nat.mod_eq_of_lt (by omega)]
      omega
    have hn : n < fuel' := by omega
    obtain ⟨u, reads', hu, h', hes', hcf, hs''⟩ := ih (hr.of_sp_eq h.leaves.sp_eq)
      (haddr.trans_le (Nat.le_add_right _ _)) hs' (by omega) hbuf' hn
    have hend : bufferAddr s + sectorSize + sectorSize * n =
        bufferAddr s + sectorSize * (n + 1) := by
      simp only [sectorSize]
      omega
    rw [hend] at h'
    have hle : bufferAddr s + sectorSize ≤ bufferAddr s + sectorSize * (n + 1) :=
      Nat.add_le_add_left (Nat.le_mul_of_pos_right _ (Nat.succ_pos n)) _
    have h'' := (h.mono le_rfl hle).trans hr haddr h' rfl
    rw [Nat.add_comm 1 n] at h''
    exact ⟨u, reads ++ reads', (loop_of_again ht).trans hu, h'', hes'.trans hes, hcf, hs''⟩

theorem readSectors_spec {n m addr : ℕ} (hr : HasRoom 18 s)
    (haddr : currentSectorAddr < addr) (hs : SucceedsTo bios (m + n) s.log.length e)
    (hax : s.get .ax = n)
    (hbuf : 0 < n → bufferAddr s = addr ∧ s.get .bx + sectorSize * n ≤ 2 ^ 16)
    (hfuel : sectorsPerSegment < fuel) :
    ∃ t reads, readSectors bios ra fuel s = some t ∧
      ReadsSectors 18 addr (addr + sectorSize * n) n reads s t ∧ t.es = s.es ∧ t.cf = false ∧
      SucceedsTo bios m t.log.length e := by
  have hcx : (s.set .cx (s.get .ax)).get .cx = n := by
    rw [get_set_self, hax]
    exact Nat.mod_eq_of_lt (hax ▸ s.get_lt .ax)
  have hbuf' : 0 < n → bufferAddr (s.set .cx (s.get .ax)) = addr ∧
      (s.set .cx (s.get .ax)).get .bx + sectorSize * n ≤ 2 ^ 16 := by
    rwa [bufferAddr, es_set, get_set_of_ne (by decide)]
  have hn : n ≤ sectorsPerSegment := by
    rcases Nat.eq_zero_or_pos n with hn | hn
    · exact hn.le.trans (Nat.zero_le _)
    · have hle := (hbuf hn).2
      simp only [sectorSize, sectorsPerSegment] at hle ⊢
      omega
  obtain ⟨t, reads, ht, h, hes', hcf, hs'⟩ := loop_readSectors bios ra
    (s := s.set .cx (s.get .ax)) (hr.of_sp_eq (get_set_of_ne (by decide))) haddr hs hcx hbuf'
    ((show 3 ≤ sectorsPerSegment by decide).trans hfuel.le) (hn.trans_lt hfuel)
  exact ⟨t, reads, ht, h.congr (get_set_of_ne (by decide)).symm rfl rfl rfl rfl rfl, hes', hcf, hs'⟩

/-! ## Several segments -/

theorem call_readSectors {n m addr : ℕ} (v : ℕ) (hr : HasRoom 20 s)
    (haddr : currentSectorAddr < addr) (hs : SucceedsTo bios (m + n) s.log.length e)
    (hax : s.get .ax = n)
    (hbuf : 0 < n → bufferAddr s = addr ∧ s.get .bx + sectorSize * n ≤ 2 ^ 16)
    (hfuel : sectorsPerSegment < fuel) :
    ∃ t reads, s.call .sp 2 v (readSectors bios ra fuel) = some t ∧
      ReadsSectors 20 addr (addr + sectorSize * n) n reads s t ∧ t.es = s.es ∧ t.cf = false ∧
      SucceedsTo bios m t.log.length e := by
  have hbx : (s.push .sp 2 v).get .bx = s.get .bx := get_push_of_ne (by decide)
  obtain ⟨t₁, reads, ht₁, h₁, hes₁, hcf₁, hs₁⟩ := readSectors_spec bios ra
    (hr.push (v := v)) haddr hs (by rwa [get_push_of_ne (by decide)])
    (by rwa [bufferAddr, es_push, hbx]) hfuel
  obtain ⟨t, ht, h, hes', hcf, -⟩ := h₁.call (hr.mono (by decide)) haddr ht₁
  have hlog : t.log = t₁.log := by rw [h.log_eq, h₁.log_eq, log_push]
  exact ⟨t, reads, ht, h, hes'.trans hes₁, hcf.trans hcf₁, hlog ▸ hs₁⟩

/-- At the beginning of a segment there is room for all of its sectors. -/
theorem segment_fits {n addr : ℕ} (hbx : s.get .bx = 0) (hes : 0 < n → 16 * s.es = addr)
    (hn : n ≤ sectorsPerSegment) :
    0 < n → bufferAddr s = addr ∧ s.get .bx + sectorSize * n ≤ 2 ^ 16 := by
  intro hpos
  simp only [sectorsPerSegment] at hn
  refine ⟨by rw [bufferAddr, hbx, hes hpos, Nat.add_zero], ?_⟩
  simp only [hbx, sectorSize]
  omega

/-- The last round reads the remaining sectors. -/
theorem readSectorsMultiSegmentRound_remainder {n addr : ℕ} (hr : HasRoom 22 s)
    (haddr : currentSectorAddr < addr) (hs : SucceedsTo bios n s.log.length e)
    (hcx : s.get .cx = n) (hes : 0 < n → 16 * s.es = addr) (hn : n < sectorsPerSegment)
    (hfuel : sectorsPerSegment < fuel) :
    ∃ t reads, readSectorsMultiSegmentRound bios ra fuel s = some (.inr t) ∧
      ReadsSectors 22 addr (addr + sectorSize * n) n reads s t ∧ t.cf = false ∧
      t.log.length = e := by
  obtain ⟨s₁, hs₁⟩ : ∃ s₁, ((s.cmp .cx sectorsPerSegment).set .ax
    ((s.cmp .cx sectorsPerSegment).get .cx)).clear .bx = s₁ := ⟨_, rfl⟩
  have hsp₁ : s₁.get .sp = s.get .sp := by simp [← hs₁]
  have hes₁ : s₁.es = s.es := by simp [← hs₁]
  have hmem₁ : s₁.mem = s.mem := by simp [← hs₁]
  have hlog₁ : s₁.log = s.log := by simp [← hs₁]
  have hax₁ : s₁.get .ax = n := by
    rw [← hcx, ← Nat.mod_eq_of_lt (s.get_lt .cx), ← hs₁]
    simp
  have hbx₁ : s₁.get .bx = 0 := by simp [← hs₁]
  obtain ⟨t, reads, ht, h, -, hcf, he⟩ := call_readSectors bios ra (m := 0)
    (ra 498) ((hr.of_sp_eq hsp₁).mono (by decide)) haddr (by rwa [Nat.zero_add, hlog₁]) hax₁
    (segment_fits hbx₁ (by rwa [hes₁]) hn.le) hfuel
  refine ⟨t, reads, ?_,
    (h.congr hsp₁.symm hmem₁.symm hlog₁.symm rfl rfl rfl).mono (by decide) le_rfl, hcf, he⟩
  have hlt : (s.cmp .cx sectorsPerSegment).cf = true := decide_eq_true (hcx ▸ hn)
  rw [readSectorsMultiSegmentRound]
  simp only [hlt, if_true, hs₁, ht, Option.bind_eq_bind, Option.bind_some]

/-- Another round reads the sectors of a segment, and goes on to the next one. -/
theorem readSectorsMultiSegmentRound_segment {n addr : ℕ} (hr : HasRoom 22 s)
    (haddr : currentSectorAddr < addr)
    (hs : SucceedsTo bios (n + sectorsPerSegment) s.log.length e)
    (hcx : s.get .cx = n + sectorsPerSegment) (hes : 16 * s.es = addr)
    (hfuel : sectorsPerSegment < fuel) :
    ∃ t reads, readSectorsMultiSegmentRound bios ra fuel s = some (.inl t) ∧
      ReadsSectors 22 addr (addr + sectorSize * sectorsPerSegment) sectorsPerSegment reads s t ∧
      t.es = (s.es + 0x1000) % 2 ^ 16 ∧ t.get .cx = n ∧ SucceedsTo bios n t.log.length e := by
  obtain ⟨s₁, hs₁⟩ : ∃ s₁,
    ((s.cmp .cx sectorsPerSegment).set .ax sectorsPerSegment).clear .bx = s₁ := ⟨_, rfl⟩
  have hsp₁ : s₁.get .sp = s.get .sp := by simp [← hs₁]
  have hes₁ : s₁.es = s.es := by simp [← hs₁]
  have hmem₁ : s₁.mem = s.mem := by simp [← hs₁]
  have hlog₁ : s₁.log = s.log := by simp [← hs₁]
  have hax₁ : s₁.get .ax = sectorsPerSegment := by simp [← hs₁, Part.bits, sectorsPerSegment]
  have hbx₁ : s₁.get .bx = 0 := by simp [← hs₁]
  have hcx₁ : s₁.get .cx = s.get .cx := by simp [← hs₁]
  have hr₁ : HasRoom 22 s₁ := hr.of_sp_eq hsp₁
  obtain ⟨t₂, reads, ht₂, h₂, hes₂, hcf₂, hs₂⟩ := call_readSectors bios ra
    (s := s₁.push .sp 2 (s₁.get .cx)) (ra 481) hr₁.push haddr (by rwa [log_push, hlog₁])
    (by rwa [get_push_of_ne (by decide)])
    (segment_fits (by rwa [get_push_of_ne (by decide)]) (fun _ => by rwa [es_push, hes₁]) le_rfl)
    hfuel
  obtain ⟨t₁, ht₁, h₁, hcx₂, hes', hcf', hlog', -⟩ := h₂.saved hr₁ haddr (by decide) rfl
  rw [hcf₂] at hcf'
  rw [hes₂, es_push, hes₁] at hes'
  have hcx' : t₁.get .cx = s.get .cx := hcx₂.trans hcx₁
  have hge : (s.cmp .cx sectorsPerSegment).cf = false := decide_eq_false (by omega)
  obtain ⟨t, ht⟩ : ∃ t, ((t₁.set .ax t₁.es).add .ax 0x1000).setEs
    (((t₁.set .ax t₁.es).add .ax 0x1000).get .ax) = t := ⟨_, rfl⟩
  refine ⟨t.sub .cx sectorsPerSegment, reads, ?_, ?_, ?_, ?_, ?_⟩
  · rw [readSectorsMultiSegmentRound]
    simp only [hge, Bool.false_eq_true, if_false, hs₁, ht₂, Option.bind_eq_bind, Option.bind_some,
      ht₁, hcf', ht]
  · exact h₁.congr hsp₁.symm hmem₁.symm hlog₁.symm (by simp [← ht]) (by simp [← ht])
      (by simp [← ht])
  · simp [← ht, hes', Part.bits]
  · have hcx₀ : t.get .cx = n + 128 := by
      rw [← ht]
      simp [hcx', hcx]
    have hlt : n + 128 < 2 ^ 16 := hcx₀ ▸ t.get_lt .cx
    rw [get_alu_self, hcx₀]
    simp only [Alu.value, Part.bits, sectorsPerSegment]
    omega
  · have : (t.sub .cx sectorsPerSegment).log = t₂.log := by simp [← ht, hlog']
    rwa [this]

/-- By induction on the number of whole segments. -/
theorem loop_readSectorsMultiSegment {n k r addr fuel' : ℕ} (hr : HasRoom 22 s)
    (haddr : currentSectorAddr < addr) (hs : SucceedsTo bios n s.log.length e)
    (hcx : s.get .cx = n) (hk : r < sectorsPerSegment) (hn : r + sectorsPerSegment * k = n)
    (hes : 0 < n → 16 * s.es = addr) (hend : addr + sectorSize * n ≤ 2 ^ 20)
    (hfuel : sectorsPerSegment < fuel) (hfuel' : k < fuel') :
    ∃ t reads, loop (readSectorsMultiSegmentRound bios ra fuel) fuel' s = some t ∧
      ReadsSectors 22 addr (addr + sectorSize * n) n reads s t ∧ t.cf = false ∧
      t.log.length = e := by
  induction k generalizing s n addr fuel' with
  | zero =>
    obtain ⟨fuel', rfl⟩ := Nat.exists_eq_succ_of_ne_zero hfuel'.ne'
    have hn' : n < sectorsPerSegment := hn ▸ hk
    obtain ⟨t, reads, ht, h, hcf, he⟩ :=
      readSectorsMultiSegmentRound_remainder bios ra hr haddr hs hcx hes hn' hfuel
    exact ⟨t, reads, loop_of_exit ht, h, hcf, he⟩
  | succ k ih =>
    obtain ⟨fuel', rfl⟩ := Nat.exists_eq_succ_of_ne_zero (show fuel' ≠ 0 by omega)
    obtain ⟨n', rfl⟩ : ∃ n', n = n' + sectorsPerSegment :=
      ⟨r + sectorsPerSegment * k, by rw [← hn, Nat.mul_succ, Nat.add_assoc]⟩
    have hn' : r + sectorsPerSegment * k = n' := by
      rw [Nat.mul_succ, ← Nat.add_assoc] at hn
      exact Nat.add_right_cancel hn
    have hes₀ : 16 * s.es = addr := hes (Nat.add_pos_right _ (by decide))
    obtain ⟨t, reads, ht, h, hes', hcx', hs'⟩ :=
      readSectorsMultiSegmentRound_segment bios ra hr haddr hs hcx hes₀ hfuel
    have hend' : addr + sectorSize * sectorsPerSegment + sectorSize * n' =
        addr + sectorSize * (n' + sectorsPerSegment) := by
      rw [Nat.mul_add, Nat.add_assoc, Nat.add_comm (sectorSize * n')]
    rw [← hend'] at hend
    -- Unless this was the last segment, the next one does not wrap.
    have hes'' : 0 < n' → 16 * t.es = addr + sectorSize * sectorsPerSegment := by
      intro hpos
      simp only [sectorSize, sectorsPerSegment] at hend ⊢
      have hlt : s.es + 0x1000 < 2 ^ 16 := by omega
      have hes₁ : t.es = s.es + 0x1000 := hes'.trans (Nat.mod_eq_of_lt hlt)
      omega
    have hfuel'' : k < fuel' := by omega
    obtain ⟨u, reads', hu, h', hcf, he⟩ := ih (hr.of_sp_eq h.leaves.sp_eq)
      (haddr.trans_le (Nat.le_add_right _ _)) hs' hcx' hn' hes'' hend hfuel''
    have h'' := (h.mono le_rfl (Nat.le_add_right _ _)).trans hr haddr h' rfl
    rw [hend', Nat.add_comm sectorsPerSegment] at h''
    exact ⟨u, reads ++ reads', (loop_of_again ht).trans hu, h'', hcf, he⟩

theorem readSectorsMultiSegment_spec {n addr : ℕ} (hr : HasRoom 22 s)
    (haddr : currentSectorAddr < addr) (hs : SucceedsTo bios n s.log.length e)
    (hax : s.get .ax = n) (hes : 16 * s.es = addr) (hend : addr + sectorSize * n ≤ 2 ^ 20)
    (hfuel : sectorsPerSegment < fuel) :
    ∃ t reads, readSectorsMultiSegment bios ra fuel s = some t ∧
      ReadsSectors 22 addr (addr + sectorSize * n) n reads s t ∧ t.cf = false ∧
      t.log.length = e := by
  have hn : n % sectorsPerSegment + sectorsPerSegment * (n / sectorsPerSegment) = n :=
    Nat.mod_add_div _ _
  have hcx : (s.set .cx (s.get .ax)).get .cx = n := by
    rw [get_set_self, hax]
    exact Nat.mod_eq_of_lt (hax ▸ s.get_lt .ax)
  have hk : n / sectorsPerSegment < fuel := by
    simp only [sectorSize, sectorsPerSegment] at hend hfuel ⊢
    omega
  obtain ⟨t, reads, ht, h, hcf, he⟩ := loop_readSectorsMultiSegment bios ra
    (s := s.set .cx (s.get .ax)) (hr.of_sp_eq (get_set_of_ne (by decide))) haddr hs hcx
    (Nat.mod_lt _ (by decide)) hn (fun _ => hes) hend hfuel hk
  exact ⟨t, reads, ht, h.congr (get_set_of_ne (by decide)).symm rfl rfl rfl rfl rfl, hcf, he⟩

end Specs

/-! ## The size of the file -/

/-- The ustar meta data at `addr` give the size with the octal `digits`. -/
structure UstarSize (m : Memory) (addr : ℕ) (digits : List ℕ) : Prop where
  length_eq : digits.length = 11
  lt : ∀ d ∈ digits, d < 8
  mem_eq : ∀ i (h : i < digits.length), m (addr + 0x7c + i) = BitVec.ofNat 8 (48 + digits[i])

/-- The number which the octal `digits` denote, the first one being the highest. -/
def octal (digits : List ℕ) : ℕ := Nat.ofDigits 8 digits.reverse

theorem octal_take_succ {digits : List ℕ} {i : ℕ} (h : i < digits.length) :
    octal (digits.take (i + 1)) = octal (digits.take i) * 8 + digits[i] := by
  rw [octal, octal, List.take_succ_eq_append_getElem h, List.reverse_append, List.reverse_singleton,
    List.singleton_append, Nat.ofDigits_cons, Nat.add_comm, Nat.mul_comm]

variable {digits : List ℕ} {s₀ s : Machine} {fuel : ℕ}

/-- The state in which `i` digits have been read since `s₀`. -/
structure ReadsDigits (digits : List ℕ) (s₀ : Machine) (i : ℕ) (s : Machine) : Prop where
  sp_eq : s.get .sp = s₀.get .sp
  es_eq : s.es = s₀.es
  mem_eq : s.mem = s₀.mem
  log_eq : s.log = s₀.log
  cx_eq : s.get .cx = i
  bx_eq : s.get .bx = s₀.get .bx + 0x7c + i
  eax_eq : s.get .eax = octal (digits.take i) % 2 ^ 32

/-- The digit is put behind the bits shifted up. -/
theorem shl_lor (a : ℕ) {d : ℕ} (hd : d < 8) :
    a % 2 ^ 32 * 2 ^ 3 % 2 ^ 32 ||| d = (a * 8 + d) % 2 ^ 32 := by
  have h : a % 2 ^ 32 * 2 ^ 3 % 2 ^ 32 = 2 ^ 3 * (a % 2 ^ 29) := by omega
  rw [h, ← Nat.two_pow_add_eq_or_of_lt (i := 3) hd]
  omega

theorem ustarReadFileSizeRound_spec {i : ℕ} (hu : UstarSize s₀.mem (bufferAddr s₀) digits)
    (hbx : s₀.get .bx + 0x7c + 11 < 2 ^ 16) (h : ReadsDigits digits s₀ i s) (hi : i < 11) :
    ∃ t, ustarReadFileSizeRound s = some (.inl t) ∧ ReadsDigits digits s₀ (i + 1) t := by
  have hlen : i < digits.length := hu.length_eq ▸ hi
  have hd : digits[i] < 8 := hu.lt _ (List.getElem_mem hlen)
  have hbyte : (s.mem (16 * s.es + s.get .bx)).toNat = 48 + digits[i] := by
    rw [h.mem_eq, h.es_eq, h.bx_eq, ← Nat.add_assoc, ← Nat.add_assoc]
    rw [show 16 * s₀.es + s₀.get .bx = bufferAddr s₀ from rfl, hu.mem_eq i hlen, BitVec.toNat_ofNat]
    exact Nat.mod_eq_of_lt (show 48 + digits[i] < 256 by omega)
  have hcf : (s.cmp .cx 11).cf = true := decide_eq_true (h.cx_eq ▸ hi)
  have hbyte' : ((s.cmp .cx 11).mem (16 * (s.cmp .cx 11).es + (s.cmp .cx 11).get .bx)).toNat =
      48 + digits[i] := by simpa using hbyte
  obtain ⟨s₁, hs₁⟩ : ∃ s₁, ((s.cmp .cx 11).set .edx (48 + digits[i])).sub .dl 48 = s₁ := ⟨_, rfl⟩
  have hedx : s₁.get .edx = digits[i] := by
    rw [← hs₁]
    rw [sub, alu, get_setFlags, get_set_low_dword, get_set_self, get_set_dword_low]
    simp only [Alu.value, Part.bits]
    omega
  obtain ⟨s₂, hs₂⟩ : ∃ s₂, (s₁.shl .eax 3).lor .eax ((s₁.shl .eax 3).get .edx) = s₂ := ⟨_, rfl⟩
  have heax : s₂.get .eax = octal (digits.take (i + 1)) % 2 ^ 32 := by
    have heax₁ : s₁.get .eax = octal (digits.take i) % 2 ^ 32 := by
      rw [← h.eax_eq, ← hs₁]
      simp
    have hedx' : (s₁.shl .eax 3).get .edx = digits[i] := by
      rw [← hedx]
      simp
    have hlt : s₁.get .eax * 2 ^ 3 % 2 ^ 32 ||| digits[i] < 2 ^ 32 := by
      rw [heax₁, shl_lor _ hd]
      exact Nat.mod_lt _ (by decide)
    rw [octal_take_succ hlen, ← shl_lor _ hd, ← heax₁, ← hs₂, hedx']
    rw [get_alu_self, get_alu_self]
    exact Nat.mod_eq_of_lt hlt
  refine ⟨(s₂.add .cx 1).add .bx 1, ?_, ?_⟩
  · rw [ustarReadFileSizeRound]
    simp only [hcf, Bool.true_eq_false, if_false, hbyte', hs₁, hs₂]
  · exact
      { sp_eq := by simp [← hs₂, ← hs₁, h.sp_eq]
        es_eq := by simp [← hs₂, ← hs₁, h.es_eq]
        mem_eq := by simp [← hs₂, ← hs₁, h.mem_eq]
        log_eq := by simp [← hs₂, ← hs₁, h.log_eq]
        cx_eq := by
          simp [← hs₂, ← hs₁, h.cx_eq, Part.bits]
          omega
        bx_eq := by
          simp [← hs₂, ← hs₁, h.bx_eq, Part.bits]
          omega
        eax_eq := by
          rw [← heax]
          simp }

theorem ustarReadFileSize_spec (hu : UstarSize s₀.mem (bufferAddr s₀) digits)
    (hbx : s₀.get .bx + 0x7c + 11 < 2 ^ 16) (hfuel : 11 < fuel) :
    ∃ t, ustarReadFileSize fuel s₀ = some t ∧ ReadsDigits digits s₀ 11 t := by
  refine loop_total (fun s => ∃ i ≤ 11, ReadsDigits digits s₀ i s) (ReadsDigits digits s₀ 11)
    (fun s => 11 - s.get .cx) ?_ ⟨0, Nat.zero_le _, ?_⟩ ?_
  · rintro s ⟨i, hi, h⟩
    rcases Nat.lt_or_eq_of_le hi with hlt | rfl
    · obtain ⟨t, ht, h'⟩ := ustarReadFileSizeRound_spec hu hbx h hlt
      refine .inl ⟨t, ht, ⟨i + 1, hlt, h'⟩, ?_⟩
      rw [h.cx_eq, h'.cx_eq]
      omega
    · have hcf : (s.cmp .cx 11).cf = false := decide_eq_false (by rw [h.cx_eq]; decide)
      refine .inr ⟨s.cmp .cx 11, ?_,
        ⟨h.sp_eq, h.es_eq, h.mem_eq, h.log_eq, h.cx_eq, h.bx_eq, h.eax_eq⟩⟩
      rw [ustarReadFileSizeRound]
      simp only [hcf, if_true]
  · exact
      { sp_eq := by simp
        es_eq := by simp
        mem_eq := by simp
        log_eq := by simp
        cx_eq := by simp
        bx_eq := by
          simp [Part.bits]
          omega
        eax_eq := by simp [octal] }
  · omega

/-! ## The file -/

/-- The number of sectors of a file of `eax` bytes. -/
theorem ceilDiv_spec (s : Machine) :
    ∃ t, ceilDiv sectorSize s = some t ∧ t.get .eax = (s.get .eax + 511) / 512 ∧
      t.get .sp = s.get .sp ∧ t.es = s.es ∧ t.mem = s.mem ∧ t.log = s.log := by
  have hlt : s.get .eax < 2 ^ 32 := s.get_lt .eax
  obtain ⟨s₁, hs₁⟩ : ∃ s₁, (s.clear .edx).set .ecx sectorSize = s₁ := ⟨_, rfl⟩
  have heax : s₁.get .eax = s.get .eax := by simp [← hs₁]
  have hedx : s₁.get .edx = 0 := by simp [← hs₁]
  have hecx : s₁.get .ecx = 512 := by simp [← hs₁, Part.bits, sectorSize]
  have hdiv : s₁.div (s₁.get .ecx) =
      some ((s₁.set .eax (s.get .eax / 512)).set .edx (s.get .eax % 512)) := by
    rw [div, heax, hedx, hecx, Nat.zero_mul, Nat.zero_add]
    exact if_pos ⟨by decide, by omega⟩
  obtain ⟨s₂, hs₂⟩ : ∃ s₂, (s₁.set .eax (s.get .eax / 512)).set .edx (s.get .eax % 512) = s₂ :=
    ⟨_, rfl⟩
  have heax₂ : s₂.get .eax = s.get .eax / 512 := by
    rw [← hs₂, get_set_of_ne (by decide), get_set_self]
    exact Nat.mod_eq_of_lt (show s.get .eax / 512 < 2 ^ 32 by omega)
  have hedx₂ : s₂.get .edx = s.get .eax % 512 := by
    rw [← hs₂, get_set_self]
    exact Nat.mod_eq_of_lt (show s.get .eax % 512 < 2 ^ 32 by omega)
  have hceil : ceilDiv sectorSize s =
      if (s₂.cmp .edx 0).zf = true then some (s₂.cmp .edx 0)
      else some ((s₂.cmp .edx 0).add .eax 1) := by
    rw [ceilDiv]
    simp only [hs₁, hdiv, hs₂, Option.bind_eq_bind, Option.bind_some]
  by_cases hz : s.get .eax % 512 = 0
  · have hzf : (s₂.cmp .edx 0).zf = true := decide_eq_true (hedx₂ ▸ hz)
    refine ⟨s₂.cmp .edx 0, by rw [hceil, if_pos hzf], ?_, ?_, ?_, ?_, ?_⟩
    · rw [show (s₂.cmp .edx 0).get .eax = s₂.get .eax from rfl, heax₂]
      omega
    all_goals simp [← hs₂, ← hs₁]
  · have hzf : (s₂.cmp .edx 0).zf = false := decide_eq_false (hedx₂ ▸ hz)
    refine ⟨(s₂.cmp .edx 0).add .eax 1, by rw [hceil, hzf, if_neg Bool.false_ne_true],
      ?_, ?_, ?_, ?_, ?_⟩
    · rw [get_alu_self, get_cmp, heax₂]
      simp only [Alu.value, Part.bits]
      omega
    all_goals simp [← hs₂, ← hs₁]

/-- The call of `ustarReadFileSize` gives the size and leaves everything else. -/
theorem call_ustarReadFileSize {addr : ℕ} (v : ℕ) (hr : HasRoom 2 s)
    (haddr : currentSectorAddr < addr) (hu : UstarSize s.mem addr digits)
    (hbuf : bufferAddr s = addr) (hbx : s.get .bx + 0x7c + 11 < 2 ^ 16) (hfuel : 11 < fuel) :
    ∃ t, s.call .sp 2 v (ustarReadFileSize fuel) = some t ∧
      t.get .eax = octal digits % 2 ^ 32 ∧ Leaves .sp 2 ∅ s t ∧ t.es = s.es ∧ t.log = s.log := by
  have hn : 2 ≤ s.get .sp := hr.le_sp
  have hsp : s.get .sp ≤ 0x6ff4 := hr.sp_le
  have haddr' : 0x6ff6 < addr := haddr
  have hbx' : (s.push .sp 2 v).get .bx = s.get .bx := get_push_of_ne (by decide)
  have hu' : UstarSize (s.push .sp 2 v).mem (bufferAddr (s.push .sp 2 v)) digits := by
    rw [bufferAddr, es_push, hbx', show 16 * s.es + s.get .bx = addr from hbuf]
    refine ⟨hu.length_eq, hu.lt, fun i hi => ?_⟩
    rw [← hu.mem_eq i hi, mem_push hn]
    exact Memory.write_of_not_mem (.inr (by omega))
  obtain ⟨t, ht, h⟩ := ustarReadFileSize_spec hu' (by rwa [hbx']) hfuel
  have hl : Leaves .sp 0 ∅ (s.push .sp 2 v) t := .of_mem_eq h.sp_eq h.mem_eq
  refine ⟨_, hl.call_eq hn (fun x hx => hx.elim) ht, ?_, hl.of_push hn, ?_, ?_⟩
  · rw [get_set_of_ne (by decide), h.eax_eq, ← hu.length_eq, List.take_length]
  · rw [es_set, h.es_eq, es_push]
  · rw [log_set, h.log_eq, log_push]

/-- The number of sectors of the file is found from its meta data, nothing being read. -/
theorem ceilDiv_ustarReadFileSize {addr n : ℕ} (v : ℕ) (hr : HasRoom 2 s)
    (haddr : currentSectorAddr < addr) (hu : UstarSize s.mem addr digits)
    (hbuf : bufferAddr s = addr) (hbx : s.get .bx + 0x7c + 11 < 2 ^ 16) (hfuel : 11 < fuel)
    (hn : n = (octal digits + 511) / 512) (hlt : octal digits < 2 ^ 32) :
    ∃ t₁ t, s.call .sp 2 v (ustarReadFileSize fuel) = some t₁ ∧ ceilDiv sectorSize t₁ = some t ∧
      t.get .eax = n ∧ Leaves .sp 2 ∅ s t ∧ t.es = s.es ∧ t.log = s.log := by
  obtain ⟨t₁, ht₁, heax₁, hl₁, hes₁, hlog₁⟩ :=
    call_ustarReadFileSize v hr haddr hu hbuf hbx hfuel
  obtain ⟨t, ht, heax, hsp, hes, hmem, hlog⟩ := ceilDiv_spec t₁
  refine ⟨t₁, t, ht₁, ht, ?_, hl₁.trans (.of_mem_eq hsp hmem), hes.trans hes₁, hlog.trans hlog₁⟩
  rw [heax, heax₁, Nat.mod_eq_of_lt hlt, hn]

/-- As long as nothing is requested, no sector is read. -/
theorem ReadsSectors.of_leaves {depth depth' addr hi : ℕ} {t : Machine}
    (h : Leaves .sp depth' ∅ s t) (hr : HasRoom depth s) (hd : depth' ≤ depth)
    (hlog : t.log = s.log) :
    ReadsSectors depth addr hi 0 [] s t where
  leaves := h.mono hd (Set.empty_subset _)
  log_eq := by rw [hlog, List.append_nil]
  length_eq := rfl
  position_eq := position_congr fun x hx =>
    h.mem_eq x (fun h => h.elim) (.inr (hr.sp_le.trans hx.1))
  read_eq := fun i r h => by simp at h

/-- Stage 1 is read to the address `0x7e00`, if its sectors are below the address
    `0x10000`; there is no call of the BIOS after those for its sectors. -/
theorem loadStage1File_spec {bios : ℕ → DiskReply} (ra : ℕ → ℕ) {n e : ℕ} (hr : HasRoom 20 s)
    (hes : s.es = 0) (hu : UstarSize s.mem stage1LoadAddr digits)
    (hn : n = (octal digits + 511) / 512) (hend : stage1LoadAddr + 512 * n ≤ 2 ^ 16)
    (hs : SucceedsTo bios n s.log.length e) (hfuel : sectorsPerSegment < fuel) :
    ∃ t reads, loadStage1File bios ra fuel s = some t ∧ t.cf = false ∧ t.log.length = e ∧
      ReadsSectors 20 stage1LoadAddr (stage1LoadAddr + 512 * n) n reads s t := by
  have hend' : 0x7e00 + 512 * n ≤ 0x10000 := hend
  have hbx : ∀ s : Machine, (s.set .bx stage1LoadAddr).get .bx = stage1LoadAddr :=
    fun s => get_set_self
  have hbuf : bufferAddr (s.set .bx stage1LoadAddr) = stage1LoadAddr := by
    rw [bufferAddr, hbx, es_set, hes, Nat.mul_zero, Nat.zero_add]
  have hr₀ : HasRoom 20 (s.set .bx stage1LoadAddr) := hr.of_sp_eq (get_set_of_ne (by decide))
  have hfuel' : 11 < fuel := (show 11 < sectorsPerSegment by decide).trans hfuel
  obtain ⟨t₁, t₂, ht₁, ht₂, heax₂, hl₂, hes₂, hlog₂⟩ := ceilDiv_ustarReadFileSize
    (s := s.set .bx stage1LoadAddr) (ra 97) (hr₀.mono (by decide)) (by decide) hu hbuf
    (by rw [hbx]; decide) hfuel' hn (by omega)
  obtain ⟨t₃, ht₃⟩ : ∃ t, t₂.set .bx stage1LoadAddr = t := ⟨_, rfl⟩
  -- Up to here nothing has been read.
  have hl₃ : Leaves .sp 2 ∅ s t₃ := by
    have hl₀ : Leaves .sp 2 ∅ s (s.set .bx stage1LoadAddr) :=
      .of_mem_eq (get_set_of_ne (by decide)) mem_set
    exact ht₃ ▸ (hl₀.trans hl₂).trans (.of_mem_eq (get_set_of_ne (by decide)) mem_set)
  have hlog₃ : t₃.log = s.log := by rw [← ht₃, log_set, hlog₂, log_set]
  have hbuf₃ : bufferAddr t₃ = stage1LoadAddr := by
    rw [← ht₃, bufferAddr, hbx, es_set, hes₂, es_set, hes, Nat.mul_zero, Nat.zero_add]
  have hbx₃ : t₃.get .bx = stage1LoadAddr := by rw [← ht₃, hbx]
  have h₃ : ReadsSectors 20 stage1LoadAddr (stage1LoadAddr + 512 * n) 0 [] s t₃ :=
    .of_leaves hl₃ hr (by decide) hlog₃
  have hax : t₃.get .ax = n := by
    have : t₃.get .ax = t₂.get .ax := by
      rw [← ht₃, get_set_of_ne (by decide)]
    rw [this, get_word, heax₂]
    exact Nat.mod_eq_of_lt (show n < 2 ^ 16 by omega)
  obtain ⟨t, reads, ht, h, -, hcf, he⟩ := call_readSectors bios ra (m := 0) (ra 102)
    (hr.of_sp_eq hl₃.sp_eq) (show currentSectorAddr < stage1LoadAddr by decide)
    (by rwa [Nat.zero_add, hlog₃]) hax
    (fun _ => ⟨hbuf₃, by rw [hbx₃]; exact hend⟩) hfuel
  have h' := h₃.trans hr (by decide) h rfl
  rw [Nat.zero_add, List.nil_append] at h'
  refine ⟨t, reads, ?_, hcf, he, h'⟩
  rw [loadStage1File]
  simp only [ht₁, ht₂, ht₃, ht, Option.bind_eq_bind, Option.bind_some]

/-- The kernel is read to the address `0x10000`, if its sectors are below the address
    `0x100000`; there is no call of the BIOS after those for its sectors. -/
theorem loadKernelFile_reads {bios : ℕ → DiskReply} (ra : ℕ → ℕ) {n e : ℕ} (hr : HasRoom 24 s)
    (hes : s.es = 0x1000) (hu : UstarSize s.mem 0x10000 digits)
    (hn : n = (octal digits + 511) / 512) (hend : 0x10000 + 512 * n ≤ 0x100000)
    (hs : SucceedsTo bios n s.log.length e) (hfuel : sectorsPerSegment < fuel) :
    ∃ t reads, loadKernelFile bios ra fuel s = some t ∧ t.cf = false ∧ t.log.length = e ∧
      ReadsSectors 24 0x10000 (0x10000 + 512 * n) n reads s t := by
  have hbuf : bufferAddr (s.clear .bx) = 0x10000 := by simp [bufferAddr, hes]
  have hbx : (s.clear .bx).get .bx = 0 := by simp
  have hr₀ : HasRoom 24 (s.clear .bx) := hr.of_sp_eq (get_alu_of_ne (by decide))
  have hfuel' : 11 < fuel := (show 11 < sectorsPerSegment by decide).trans hfuel
  obtain ⟨t₁, t₂, ht₁, ht₂, heax₂, hl₂, hes₂, hlog₂⟩ := ceilDiv_ustarReadFileSize (s := s.clear .bx)
    (ra 414) (hr₀.mono (by decide)) (by decide) hu hbuf (by rw [hbx]; decide) hfuel' hn (by omega)
  obtain ⟨t₃, ht₃⟩ : ∃ t, t₂.clear .bx = t := ⟨_, rfl⟩
  -- Up to here nothing has been read.
  have hl₃ : Leaves .sp 2 ∅ s t₃ := by
    have hl₀ : Leaves .sp 2 ∅ s (s.clear .bx) := .of_mem_eq (get_alu_of_ne (by decide)) mem_alu
    exact ht₃ ▸ (hl₀.trans hl₂).trans (.of_mem_eq (get_alu_of_ne (by decide)) mem_alu)
  have hlog₃ : t₃.log = s.log := by rw [← ht₃, log_alu, hlog₂, log_alu]
  have hes₃ : t₃.es = 0x1000 := by rw [← ht₃, es_alu, hes₂, es_alu, hes]
  have h₃ : ReadsSectors 24 0x10000 (0x10000 + 512 * n) 0 [] s t₃ :=
    .of_leaves hl₃ hr (by decide) hlog₃
  have hr₃ : HasRoom 24 t₃ := hr.of_sp_eq hl₃.sp_eq
  have hax : (t₃.push .sp 2 (ra 421)).get .ax = n := by
    have : t₃.get .ax = t₂.get .ax := by
      rw [← ht₃, get_alu_of_ne (by decide)]
    rw [get_push_of_ne (by decide), this, get_word, heax₂]
    exact Nat.mod_eq_of_lt (show n < 2 ^ 16 by omega)
  obtain ⟨t₄, reads, ht₄, h₄, hcf₄, he₄⟩ := readSectorsMultiSegment_spec bios ra hr₃.push
    (show currentSectorAddr < 0x10000 by decide) (by rwa [log_push, hlog₃]) hax
    (by rw [es_push, hes₃]) hend hfuel
  obtain ⟨t, ht, h, -, hcf, -⟩ := h₄.call (hr₃.mono (by decide)) (by decide) ht₄
  have h' := h₃.trans hr (by decide) h rfl
  rw [Nat.zero_add, List.nil_append] at h'
  have hlog : t.log = t₄.log := by rw [h.log_eq, h₄.log_eq, log_push]
  refine ⟨t, reads, ?_, hcf.trans hcf₄, hlog ▸ he₄, h'⟩
  rw [loadKernelFile]
  simp only [ht₁, ht₂, ht₃, ht, Option.bind_eq_bind, Option.bind_some]

/-- The kernel is read to the address `0x10000`, if its sectors are below the address
    `0x100000`. They are those of the disk one after the other if they end with the second
    cylinder, the sector `71`: behind it, the position leaves the order of the disk. -/
theorem loadKernelFile_spec {bios : ℕ → DiskReply} {ra : ℕ → ℕ} {n : ℕ} (hr : HasRoom 24 s)
    (hes : s.es = 0x1000) (hu : UstarSize s.mem 0x10000 digits)
    (hn : n = (octal digits + 511) / 512) (hend : 0x10000 + 512 * n ≤ 0x100000)
    (hs : EachSucceeds bios n s.log.length) (hfuel : sectorsPerSegment < fuel) :
    ∃ t reads, loadKernelFile bios ra fuel s = some t ∧ t.cf = false ∧
      ReadsSectors 24 0x10000 (0x10000 + 512 * n) n reads s t ∧
      ∀ lba, position s.mem = lbaToChs lba → lba + n ≤ 72 →
        ∀ i r, (reads.filter (·.ok))[i]? = some r → r.position = lbaToChs (lba + i) := by
  obtain ⟨e, he⟩ := eachSucceeds_iff.1 hs
  obtain ⟨t, reads, ht, hcf, -, h⟩ := loadKernelFile_reads ra hr hes hu hn hend he hfuel
  exact ⟨t, reads, ht, hcf, h, fun lba hpos hlba i r hr => h.position_eq_lbaToChs hpos hlba hr⟩

/-- If no read fails, each sector is read at once. -/
theorem eachSucceeds_of_ok {bios : ℕ → DiskReply} (h : ∀ i, (bios i).ok = true) (n i : ℕ) :
    EachSucceeds bios n i := by
  induction n generalizing i with
  | zero => trivial
  | succ n ih => exact ⟨0, by decide, fun j hj => absurd hj (Nat.not_lt_zero j), h _, ih _⟩

/-- The digits of the size `1000`. -/
def sampleDigits : List ℕ := [0, 0, 0, 0, 0, 0, 0, 1, 7, 5, 0]

/-- Stage 1 with the meta data of a file of `1000` bytes. -/
def sampleLoader : Machine :=
  { sampleMachine with
    mem := fun x => BitVec.ofNat 8 (48 + sampleDigits.getD (x - 0x1007c) 0) }

theorem loadKernelFile_sample :
    ∃ t reads, loadKernelFile sampleBios sampleRa 200 sampleLoader = some t ∧ t.cf = false ∧
      ReadsSectors 24 0x10000 (0x10000 + 512 * 2) 2 reads sampleLoader t ∧
      ∀ lba, position sampleLoader.mem = lbaToChs lba → lba + 2 ≤ 72 →
        ∀ i r, (reads.filter (·.ok))[i]? = some r → r.position = lbaToChs (lba + i) :=
  have hu : UstarSize sampleLoader.mem 0x10000 sampleDigits := ⟨rfl, by decide, by decide⟩
  loadKernelFile_spec ⟨by decide, by decide⟩ rfl hu (by decide) (by decide)
    (eachSucceeds_of_ok (fun _ => rfl) _ _) (by decide)

end KessokuOS.Bootloader
