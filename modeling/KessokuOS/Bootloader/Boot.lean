import Mathlib.Data.Nat.Count
import KessokuOS.Bootloader.PreKernel
import KessokuOS.Bootloader.ReadFailure
import KessokuOS.Bootloader.Stable

/-!
# From the boot sector to the kernel

The stages of the bootloader one behind the other: stage 0 resets the disk and reads
stage 1, which asks for the memory map, reads the kernel, opens the gate of the A20 line,
enters protected mode, loads the kernel and jumps to it.

What the stages leave to the next one is `Booting`, along with what each has read: stage 1
(`stage0Start_spec`), the memory map (`loadMap_spec`), the kernel (`readKernel_spec`) and
the gate (`openGate_spec`).

* `boot_enters`: if the requests succeed, the kernel on the disk is entered, with its
  segments loaded;
* `boot_halts`: the bootloader halts if the disk cannot be reset, but never because of a
  sector that cannot be read.
-/

namespace KessokuOS.Bootloader

open X86 X86.Cpu FloppyDisk

abbrev stackBottom : ℕ := 0x500

abbrev stackTop : ℕ := 0x6ff0

/-- A reply of the BIOS to the request to reset the disk. -/
structure ResetReply where
  ok : Bool
  regs : Gpr → ℕ
  zf : Bool

/-- What the bootloader is run with: the replies of the BIOS to its requests, the
    registers which the message printed in a line of the source leaves, the keyboard
    controller, and the register `cr0`. -/
structure Firmware where
  reset : ResetReply
  disk : ℕ → DiskReply
  map : List MapReply
  a20 : Pc.A20Bios
  message : ℕ → Gpr → ℕ
  chip : I8042.Chip
  cr0 : ℕ

/-- Why the bootloader halts, behind a message. -/
inductive Halt
  | resetFailed
  | stage1Unreadable
  | noMemoryMap
  | kernelUnreadable
  | noA20
  deriving DecidableEq, Repr

/-- The kernel is entered: its entry point, the machine, and the requests made for
    sectors. -/
structure Entered where
  entry : ℕ
  machine : Pc Unit
  reads : List SectorRead

/-- Goes on unless the bootloader has halted. -/
def proceed {α β : Type*} (o : Option (Halt ⊕ α)) (f : α → Option (Halt ⊕ β)) :
    Option (Halt ⊕ β) :=
  o.bind (Sum.elim (fun h => some (.inl h)) f)

namespace Pc

variable {E : Type*} (s : Pc E)

/-- Performs what may not end. -/
def execute (f : Cpu E → Option (Cpu E)) : Option (Pc E) :=
  (f s.cpu).map fun c => { s with cpu := c }

/-- Prints a message, which leaves `regs` in the registers it uses. -/
def printString (regs : Gpr → ℕ) : Pc E :=
  s.exec fun c =>
    (((c.set .eax (regs .a)).set .ebx (regs .b)).set .ecx (regs .c)).set .esi (regs .si)

/-- The request to reset the drive `0`. Of other requests nothing is said. -/
def int13Reset (reply : ResetReply) : Option (Pc E) :=
  if s.cpu.get .ah = 0 ∧ s.cpu.get .dl = 0 then
    some { s with
      cpu := { s.cpu with
        regs := Function.update reply.regs .sp (s.cpu.regs .sp)
        cf := !reply.ok
        zf := reply.zf } }
  else none

end Pc

section Stages

variable (fw : Firmware) (ra : ℕ → ℕ) (fuel : ℕ)

/-- Sets the segments to `0`, and the stack. -/
def setupStage0 (s : Pc SectorRead) : Pc SectorRead :=
  let s := { s with interrupts := false }
  let s := s.exec (·.set .ax 0)
  let s := { s with ds := s.cpu.get .ax }
  let s := s.exec fun c => c.setEs (c.get .ax)
  s.exec (·.set .sp stackTop)

/-- Reads stage 1 behind its meta data. -/
def readStage1 (s : Pc SectorRead) : Option (Halt ⊕ Pc SectorRead) := do
  let s := s.exec (·.set .bx stage1LoadAddr)
  let s ← s.execute (·.call .sp 2 (ra 93) (readNextFloppySectorRepeated fw.disk ra fuel))
  if s.cpu.cf = true then some (.inl .stage1Unreadable)
  else do
    let s ← s.execute (loadStage1File fw.disk ra fuel)
    if s.cpu.cf = true then some (.inl .stage1Unreadable) else some (.inr s)

def stage0Start (s : Pc SectorRead) : Option (Halt ⊕ Pc SectorRead) := do
  let s := setupStage0 s
  let s := s.printString (fw.message 67)
  let s := s.exec stage0Position
  let s := s.exec (·.clear .ah)
  let s := s.exec (·.clear .dl)
  let s := s.exec (·.clc)
  let s ← s.int13Reset fw.reset
  if s.cpu.cf = true then some (.inl .resetFailed) else readStage1 fw ra fuel s

/-- Stage 1 up to the memory map. -/
def loadMap (s : Pc SectorRead) : Option (Halt ⊕ Pc SectorRead) := do
  let s := s.printString (fw.message 394)
  match ← loadSystemMemoryInfo fw.map fuel memoryInfoBottom { s.cpu with log := [] } with
  | .done c =>
    let s := { s with cpu := { c with log := s.cpu.log } }
    some (.inr (s.printString (fw.message 399)))
  | .halted => some (.inl .noMemoryMap)

/-- Reads the kernel behind its meta data. -/
def readKernel (s : Pc SectorRead) : Option (Halt ⊕ Pc SectorRead) := do
  let s := s.exec (·.set .ax 0x1000)
  let s := s.exec fun c => c.setEs (c.get .ax)
  let s := s.exec (·.clear .bx)
  let s ← s.execute (·.call .sp 2 (ra 408) (readNextFloppySectorRepeated fw.disk ra fuel))
  if s.cpu.cf = true then some (.inl .kernelUnreadable)
  else do
    let s ← s.execute (loadKernelFile fw.disk ra fuel)
    if s.cpu.cf = true then some (.inl .kernelUnreadable) else some (.inr s)

def openGate (s : Pc SectorRead) : Option (Halt ⊕ Pc SectorRead) := do
  let s ← s.call (ra 429) (Pc.enableA20 fw.a20 fw.chip ra fuel)
  let s := s.exec (·.cmp .ax 0)
  if s.cpu.zf = true then some (.inl .noA20) else some (.inr (s.printString (fw.message 434)))

/-- Sets the bit of `cr0` for protected mode, through `eax`. -/
def setProtected (s : Pc SectorRead) : Pc SectorRead :=
  let s := { s with interrupts := false }
  let s := s.exec (·.set .eax fw.cr0)
  s.exec (·.lor .eax 1)

/-- In protected mode, the kernel is loaded and entered. Of a machine whose gate is closed,
    nothing is said from here on. -/
def jumpPreKernel (s : Pc SectorRead) : Option Entered :=
  if s.gate = true then
    (preKernel ra fuel { s.cpu with log := [] }).map fun jump =>
      ⟨jump.1, ⟨jump.2, 0x10, s.interrupts, s.keyboard, s.fast⟩, s.cpu.log⟩
  else none

def enterKernel (s : Pc SectorRead) : Option Entered := jumpPreKernel ra fuel (setProtected fw s)

def boot1Start (s : Pc SectorRead) : Option (Halt ⊕ Entered) :=
  proceed (loadMap fw fuel s) fun s =>
    proceed (readKernel fw ra fuel s) fun s =>
      proceed (openGate fw ra fuel s) fun s => (enterKernel fw ra fuel s).map .inr

/-- Stage 0, and stage 1 behind it. -/
def boot (s : Pc SectorRead) : Option (Halt ⊕ Entered) :=
  proceed (stage0Start fw ra fuel s) (boot1Start fw ra fuel)

end Stages

/-! ## The disk -/

/-- The requests are replied to as `bios` does. -/
def Logged (bios : ℕ → DiskReply) (log : List SectorRead) : Prop :=
  ∀ i r, log[i]? = some r → r.ok = (bios i).ok ∧ r.data = (bios i).data

/-- The first `total` requests that succeed give the sectors behind the boot sector, one
    after the other, of a disk with the sectors `disk`. -/
def Serves (bios : ℕ → DiskReply) (disk : CHSAddress → ℕ → Byte) (total : ℕ) : Prop :=
  ∀ i, (bios i).ok = true → Nat.count (fun i => (bios i).ok = true) i < total →
    ∀ j < sectorSize,
      (bios i).data j = disk (lbaToChs (1 + Nat.count (fun i => (bios i).ok = true) i)) j

section Disk

variable {bios : ℕ → DiskReply} {disk : CHSAddress → ℕ → Byte} {log : List SectorRead}
  {r : SectorRead} {i total : ℕ}

theorem logged_append : Logged bios (log ++ [r]) ↔
    Logged bios log ∧ r.ok = (bios log.length).ok ∧ r.data = (bios log.length).data := by
  constructor
  · intro h
    refine ⟨fun i r' hr' => h i r' ?_, h log.length r (by simp)⟩
    rwa [List.getElem?_append_left (List.getElem?_eq_some_iff.1 hr').1]
  · rintro ⟨h, hr⟩ i r' hr'
    rcases Nat.lt_trichotomy i log.length with hi | rfl | hi
    · rw [List.getElem?_append_left hi] at hr'
      exact h i r' hr'
    · rw [List.getElem?_append_right le_rfl, Nat.sub_self] at hr'
      rwa [← Option.some.inj hr']
    · rw [List.getElem?_eq_none (by rw [List.length_append, List.length_singleton]; omega)] at hr'
      exact nomatch hr'

theorem Logged.count_eq (h : Logged bios log) :
    Nat.count (fun i => (bios i).ok = true) log.length = (log.filter (·.ok)).length := by
  induction log using List.reverseRecOn with
  | nil => rfl
  | append_singleton log r ih =>
    obtain ⟨h, hr, -⟩ := logged_append.1 h
    rw [List.length_append, List.length_singleton, Nat.count_succ, ih h, List.filter_append,
      List.length_append, ← hr]
    cases hok : r.ok <;> simp [hok]

/-- The data of a request that succeeds are those of the sector it is for. -/
theorem Logged.data_eq (h : Logged bios log) (hs : Serves bios disk total) (hi : i < total)
    (hr : (log.filter (·.ok))[i]? = some r) :
    ∀ j < sectorSize, r.data j = disk (lbaToChs (1 + i)) j := by
  induction log using List.reverseRecOn with
  | nil => exact nomatch hr
  | append_singleton log r' ih =>
    obtain ⟨h, hok, hdata⟩ := logged_append.1 h
    rw [List.filter_append] at hr
    by_cases hlog : i < (log.filter (·.ok)).length
    · rw [List.getElem?_append_left hlog] at hr
      exact ih h hr
    · -- It is the last one.
      rw [List.getElem?_append_right (by omega)] at hr
      cases hok' : r'.ok with
      | false => simp [hok'] at hr
      | true =>
        have hi' : i - (log.filter (·.ok)).length = 0 := by
          by_contra hne
          rw [List.getElem?_eq_none (by simp [hok']; omega)] at hr
          exact nomatch hr
        rw [hi'] at hr
        obtain rfl : r' = r := by simpa [hok'] using hr
        have hlen : i = (log.filter (·.ok)).length := by omega
        intro j hj
        rw [hdata, hs _ (hok ▸ hok') (by rwa [h.count_eq, ← hlen]) j hj, h.count_eq, hlen]

theorem maintains_logged : Maintains (fun s : Machine => Logged bios s.log)
    (fun s => Logged bios s.log) (int13 bios) := by
  intro s t h hs
  simp only [int13] at h
  split_ifs at h
  rw [← Option.some.inj h]
  exact logged_append.2 ⟨hs, rfl, rfl⟩

theorem maintains_narrow : Maintains (Narrow (E := SectorRead)) Narrow (int13 bios) := by
  intro s t h hs
  simp only [int13] at h
  split_ifs at h
  rw [← Option.some.inj h]
  change Function.update (bios s.log.length).regs .sp (s.regs .sp) .sp < 2 ^ 16
  rwa [Function.update_self]

theorem maintains_es {P : ℕ → Prop} :
    Maintains (fun s : Machine => P s.es) (fun s => P s.es) (int13 bios) := by
  intro s t h hs
  simp only [int13] at h
  split_ifs at h
  rwa [← Option.some.inj h]

/-- The calls for some sectors, and for others behind them. -/
theorem succeedsTo_add {n m i e : ℕ} : SucceedsTo bios (n + m) i e ↔
    ∃ i', SucceedsTo bios n i i' ∧ SucceedsTo bios m i' e := by
  induction n generalizing i with
  | zero => simp [SucceedsTo]
  | succ n ih =>
    rw [Nat.succ_add]
    simp only [SucceedsTo, ih]
    constructor
    · rintro ⟨j, hj, hfail, hok, i', hi', he⟩
      exact ⟨i', ⟨j, hj, hfail, hok, hi'⟩, he⟩
    · rintro ⟨i', ⟨j, hj, hfail, hok, hi'⟩, he⟩
      exact ⟨j, hj, hfail, hok, i', hi', he⟩

end Disk

/-! ## Between the stages -/

/-- The stack is empty, and `k` sectors behind the boot sector have been read. -/
structure Booting (bios : ℕ → DiskReply) (d k : ℕ) (s : Pc SectorRead) : Prop where
  sp_eq : s.cpu.get .sp = stackTop
  narrow : s.cpu.Narrow
  ds_eq : s.ds = 0
  tame : Pc.Tame d s.keyboard
  logged : Logged bios s.cpu.log
  length_eq : (s.cpu.log.filter (·.ok)).length = k
  position_eq : position s.cpu.mem = positionAt (1 + k)
  request_eq : ∀ i r, (s.cpu.log.filter (·.ok))[i]? = some r → r.position = positionAt (1 + i)

section Booting

variable {bios : ℕ → DiskReply} {disk : CHSAddress → ℕ → Byte} {d k depth addr hi n total : ℕ}
  {s t : Pc SectorRead} {c : Machine} {reads : List SectorRead}

theorem Booting.hasRoom (h : Booting bios d k s) (hd : depth ≤ stackTop) :
    HasRoom depth s.cpu :=
  ⟨h.sp_eq ▸ hd, by rw [h.sp_eq]; decide⟩

/-- Before the first sector is read. -/
theorem Booting.start (hsp : s.cpu.get .sp = stackTop) (hnarrow : s.cpu.Narrow) (hds : s.ds = 0)
    (hp : Pc.Tame d s.keyboard) (hlog : s.cpu.log = [])
    (hpos : position s.cpu.mem = positionAt 1) : Booting bios d 0 s where
  sp_eq := hsp
  narrow := hnarrow
  ds_eq := hds
  tame := hp
  logged i r hr := absurd (hlog ▸ hr) (by simp)
  length_eq := by rw [hlog]; rfl
  position_eq := hpos
  request_eq i r hr := absurd (hlog ▸ hr) (by simp)

/-- What does not read the disk. -/
theorem Booting.congr (h : Booting bios d k s) (hsp : t.cpu.get .sp = s.cpu.get .sp)
    (hnarrow : t.cpu.Narrow) (hds : t.ds = s.ds) (hp : Pc.Tame d t.keyboard)
    (hlog : t.cpu.log = s.cpu.log) (hpos : ∀ x ∈ positionBytes, t.cpu.mem x = s.cpu.mem x) :
    Booting bios d k t where
  sp_eq := hsp.trans h.sp_eq
  narrow := hnarrow
  ds_eq := hds.trans h.ds_eq
  tame := hp
  logged := hlog ▸ h.logged
  length_eq := hlog ▸ h.length_eq
  position_eq := (position_congr hpos).trans h.position_eq
  request_eq := hlog ▸ h.request_eq

/-- The sectors have been read one after the other. -/
theorem Booting.positions_eq (h : Booting bios d k s) :
    (s.cpu.log.filter (·.ok)).map (·.position) =
      (List.range k).map fun i => positionAt (1 + i) := by
  refine List.ext_getElem (by simp [h.length_eq]) fun i hi hi' => ?_
  rw [List.getElem_map, List.getElem_map, List.getElem_range]
  exact h.request_eq i _ (List.getElem?_eq_getElem _)

/-- What reads `n` sectors. -/
theorem Booting.readsSectors (h : Booting bios d k s)
    (hr : ReadsSectors depth addr hi n reads s.cpu c) (hnarrow : c.Narrow)
    (hlogged : Logged bios c.log) :
    Booting bios d (k + n) { s with cpu := c } where
  sp_eq := hr.leaves.sp_eq.trans h.sp_eq
  narrow := hnarrow
  ds_eq := h.ds_eq
  tame := h.tame
  logged := hlogged
  length_eq := by
    rw [hr.log_eq, List.filter_append, List.length_append, h.length_eq, hr.length_eq]
  position_eq := by rw [hr.position_eq, h.position_eq, iterate_nextPosition, Nat.add_assoc]
  request_eq i r hi := by
    rw [hr.log_eq, List.filter_append, List.getElem?_append, h.length_eq] at hi
    split_ifs at hi with hlt
    · exact h.request_eq i r hi
    · rw [(hr.read_eq _ r hi).2.1, h.position_eq, iterate_nextPosition]
      congr 1
      omega

/-- They are those of the disk. -/
theorem Booting.sector_eq (h : Booting bios d k s) (hs : Serves bios disk total)
    (hr : ReadsSectors depth addr hi n reads s.cpu c) (hlogged : Logged bios c.log) {i : ℕ}
    (hi : i < n) (htotal : k + n ≤ total) : ∀ j < sectorSize,
      c.mem (addr + sectorSize * i + j) = disk (lbaToChs (1 + k + i)) j := by
  have hlen : i < (reads.filter (·.ok)).length := hr.length_eq ▸ hi
  obtain ⟨r, hr'⟩ : ∃ r, (reads.filter (·.ok))[i]? = some r := ⟨_, List.getElem?_eq_getElem hlen⟩
  intro j hj
  have hmem : (c.log.filter (·.ok))[k + i]? = some r := by
    rw [hr.log_eq, List.filter_append, List.getElem?_append_right
      (h.length_eq ▸ Nat.le_add_right k i), h.length_eq, Nat.add_sub_cancel_left, hr']
  rw [(hr.read_eq i r hr').2.2 j hj, hlogged.data_eq hs (by omega) hmem j hj, Nat.add_assoc]

/-- The file that begins with the sector `lba` of the disk, or what is taken for it, at the
    address `base`. -/
def fileOn (disk : CHSAddress → ℕ → Byte) (lba base : ℕ) : Memory := fun x =>
  disk (lbaToChs (lba + (x - base) / sectorSize)) ((x - base) % sectorSize)

theorem Booting.hasFile (h : Booting bios d k s) (hs : Serves bios disk total)
    (hr : ReadsSectors depth addr hi n reads s.cpu c) (hlogged : Logged bios c.log)
    (htotal : k + n ≤ total) :
    HasFile (fileOn disk (1 + k) addr) addr (addr + sectorSize * n) c.mem := by
  refine ⟨fun x hx => ?_⟩
  obtain ⟨y, rfl⟩ := Nat.exists_eq_add_of_le hx.1
  have hy : y / 512 < n := Nat.div_lt_of_lt_mul (Nat.lt_of_add_lt_add_left hx.2)
  have hmod : y % 512 < 512 := Nat.mod_lt _ (by decide)
  have := h.sector_eq hs hr hlogged hy htotal (y % 512) hmod
  rw [fileOn, Nat.add_sub_cancel_left, ← this, Nat.add_assoc]
  exact congrArg (fun z => c.mem (addr + z)) (Nat.div_add_mod y 512).symm

end Booting

/-! ## Stage 0 -/

section Stage0

variable {fw : Firmware} {disk : CHSAddress → ℕ → Byte} {fuel d k n addr e total : ℕ}
  {digits : List ℕ} {s : Pc SectorRead}

/-- The meta data in a sector are those in memory behind the reading of it. -/
theorem UstarSize.of_sector {m m' : Memory} (hu : UstarSize m 0 digits)
    (hm : ∀ j < sectorSize, m' (addr + j) = m j) : UstarSize m' addr digits := by
  refine ⟨hu.length_eq, hu.lt, fun i hi => ?_⟩
  have hi' : i < 11 := hu.length_eq ▸ hi
  rw [Nat.add_assoc, hm _ (by simp only [sectorSize]; omega), ← hu.mem_eq i hi, Nat.zero_add]

/-- The meta data of a file are read. -/
theorem call_readMetaData (ra : ℕ → ℕ) (v : ℕ) (h : Booting fw.disk d k s)
    (hs : Serves fw.disk disk total) (htotal : k + 1 ≤ total)
    (hu : UstarSize (disk (lbaToChs (1 + k))) 0 digits) (haddr : currentSectorAddr < addr)
    (hbuf : bufferAddr s.cpu = addr) (hsucc : SucceedsTo fw.disk (n + 1) s.cpu.log.length e)
    (hfuel : 3 ≤ fuel) :
    ∃ t, s.execute (·.call .sp 2 v (readNextFloppySectorRepeated fw.disk ra fuel)) = some t ∧
      Booting fw.disk d (k + 1) t ∧ UstarSize t.cpu.mem addr digits ∧ t.cpu.cf = false ∧
      t.cpu.es = s.cpu.es ∧ SucceedsTo fw.disk n t.cpu.log.length e ∧
      Leaves .sp 12 (positionBytes ∪ Set.Ico addr (addr + sectorSize)) s.cpu t.cpu := by
  have hr : HasRoom 12 s.cpu := h.hasRoom (by decide)
  have hbuf' : bufferAddr (s.cpu.push .sp 2 v) = addr := by
    rw [← hbuf]
    simp [bufferAddr]
  obtain ⟨c₁, reads, hc₁, h₁, hes₁, hcf₁, hs₁⟩ := readNextFloppySectorRepeated_spec fw.disk ra
    hr.push (by rwa [hbuf']) (by rwa [log_push]) hfuel
  rw [hbuf'] at h₁
  obtain ⟨c, hc, hreads, hes, hcf, -⟩ := h₁.call (hr.mono (by decide)) haddr hc₁
  have hstable : ∀ {I : Machine → Prop}, RealStable I → Maintains I I (int13 fw.disk) →
      I s.cpu → I c := fun hI h13 hs => hI.call _ _
    (maintains_readNextFloppySectorRepeated hI h13 ra fuel) hc hs
  have hlogged : Logged fw.disk c.log :=
    hstable (realStable_log _) maintains_logged h.logged
  refine ⟨{ s with cpu := c }, by rw [Pc.execute, hc]; rfl, h.readsSectors hreads
    (hstable realStable_narrow maintains_narrow h.narrow) hlogged, ?_, hcf.trans hcf₁,
    hes.trans (hes₁.trans es_push), ?_, hreads.leaves⟩
  · exact hu.of_sector (h.sector_eq hs hreads hlogged Nat.zero_lt_one htotal)
  · have hlog : c.log = c₁.log := by rw [hreads.log_eq, h₁.log_eq, log_push]
    rwa [hlog]

/-- Stage 1 is read behind its meta data. -/
theorem readStage1_spec (ra : ℕ → ℕ) {m : ℕ} (h : Booting fw.disk d k s) (hes : s.cpu.es = 0)
    (hs : Serves fw.disk disk total) (hu : UstarSize (disk (lbaToChs (1 + k))) 0 digits)
    (hn : n = (octal digits + 511) / 512) (hend : stage1LoadAddr + 512 * n ≤ 2 ^ 16)
    (htotal : k + 1 + n ≤ total) (hsucc : SucceedsTo fw.disk (n + m + 1) s.cpu.log.length e)
    (hfuel : sectorsPerSegment < fuel) :
    ∃ t, readStage1 fw ra fuel s = some (.inr t) ∧ Booting fw.disk d (k + 1 + n) t ∧
      t.cpu.es = 0 ∧ SucceedsTo fw.disk m t.cpu.log.length e ∧
      HasFile (fileOn disk (1 + (k + 1)) stage1LoadAddr) stage1LoadAddr
        (stage1LoadAddr + 512 * n) t.cpu.mem := by
  obtain ⟨s₁, hs₁⟩ : ∃ s₁, s.exec (·.set .bx stage1LoadAddr) = s₁ := ⟨_, rfl⟩
  have h₁ : Booting fw.disk d k s₁ := by
    rw [← hs₁]
    exact h.congr (get_set_of_ne (by decide)) (realStable_narrow.set _ (by decide) h.narrow) rfl
      h.tame log_set fun x _ => congrFun mem_set x
  have hes₁ : s₁.cpu.es = 0 := by rw [← hs₁, Pc.cpu_exec, es_set, hes]
  have hbuf₁ : bufferAddr s₁.cpu = stage1LoadAddr := by
    rw [bufferAddr, hes₁, ← hs₁, Pc.cpu_exec, get_set_self]
    rfl
  have hlog₁ : s₁.cpu.log = s.cpu.log := by rw [← hs₁, Pc.cpu_exec, log_set]
  obtain ⟨s₂, hs₂, h₂, hu₂, hcf₂, hes₂, hsucc₂, -⟩ := call_readMetaData ra (ra 93) h₁ hs
    (by omega) hu (show currentSectorAddr < stage1LoadAddr by decide) hbuf₁ (by rwa [hlog₁])
    (le_trans (by decide) hfuel.le)
  obtain ⟨i, hsucc₂, hsucc₃⟩ := succeedsTo_add.1 hsucc₂
  have hes₂' : s₂.cpu.es = 0 := hes₂.trans hes₁
  obtain ⟨c, reads, hc, hcf, hlen, hreads⟩ :=
    loadStage1File_spec ra (h₂.hasRoom (by decide)) hes₂' hu₂ hn hend hsucc₂ hfuel
  have hstable : ∀ {I : Machine → Prop}, RealStable I → Maintains I I (int13 fw.disk) →
      I s₂.cpu → I c := fun hI h13 hs => maintains_loadStage1File hI h13 ra fuel hc hs
  have hlogged : Logged fw.disk c.log := hstable (realStable_log _) maintains_logged h₂.logged
  refine ⟨{ s₂ with cpu := c }, ?_, h₂.readsSectors hreads
    (hstable realStable_narrow maintains_narrow h₂.narrow) hlogged,
    hstable (realStable_es (· = 0)) (maintains_es (P := (· = 0))) hes₂', hlen.symm ▸ hsucc₃,
    h₂.hasFile hs hreads hlogged htotal⟩
  rw [readStage1]
  simp only [hs₁, hs₂, hcf₂, Option.bind_eq_bind, Option.bind_some, Bool.false_eq_true, if_false]
  rw [Pc.execute, hc]
  simp only [Option.map_some, Option.bind_some, hcf, Bool.false_eq_true, if_false]

/-- The reset of the drive `0` leaves everything but the registers and flags. -/
theorem Pc.int13Reset_spec {E : Type*} (s : Pc E) (reply : ResetReply)
    (hah : s.cpu.get .ah = 0) (hdl : s.cpu.get .dl = 0) :
    ∃ t, s.int13Reset reply = some t ∧ t.cpu.cf = !reply.ok ∧ t.cpu.regs .sp = s.cpu.regs .sp ∧
      t.cpu.mem = s.cpu.mem ∧ t.cpu.es = s.cpu.es ∧ t.cpu.log = s.cpu.log ∧ t.ds = s.ds ∧
      t.keyboard = s.keyboard := by
  refine ⟨_, if_pos ⟨hah, hdl⟩, rfl, ?_, rfl, rfl, rfl, rfl, rfl⟩
  exact Function.update_self Gpr.sp (s.cpu.regs .sp) reply.regs

theorem setupStage0_spec (hnarrow : s.cpu.Narrow) (hlog : s.cpu.log = []) :
    (setupStage0 s).cpu.get .sp = stackTop ∧ (setupStage0 s).cpu.Narrow ∧
      (setupStage0 s).cpu.es = 0 ∧ (setupStage0 s).ds = 0 ∧ (setupStage0 s).cpu.log = [] ∧
      (setupStage0 s).keyboard = s.keyboard := by
  refine ⟨?_, ?_, ?_, ?_, ?_, rfl⟩
  · simp [setupStage0, Part.bits, stackTop]
  · have h : (s.cpu.set .ax 0).Narrow := realStable_narrow.set _ (by decide) hnarrow
    exact realStable_narrow.setSp _ (h.setEs _)
  · simp [setupStage0]
  · simp [setupStage0]
  · simp [setupStage0, hlog]

/-- The position is that of the sector behind the boot sector. -/
theorem position_stage0Position (c : Machine) : position (stage0Position c).mem = positionAt 1 := by
  simp [position, stage0Position, positionAt, toNat_store_byte]

/-- A message leaves what the registers it uses do not matter for. -/
theorem maintains_printString {E : Type*} {I : Cpu E → Prop} (hI : Stable I) {s : Pc E}
    (regs : Gpr → ℕ) (hs : I s.cpu) : I (s.printString regs).cpu :=
  hI.set _ (by decide) (hI.set _ (by decide) (hI.set _ (by decide) (hI.set _ (by decide) hs)))

/-- Stage 0 ends with stage 1 in memory, if the disk is reset and read. -/
theorem stage0Start_spec (ra : ℕ → ℕ) {m : ℕ} (hnarrow : s.cpu.Narrow) (hlog : s.cpu.log = [])
    (hp : Pc.Tame d s.keyboard) (hok : fw.reset.ok = true) (hs : Serves fw.disk disk total)
    (hu : UstarSize (disk (lbaToChs 1)) 0 digits) (hn : n = (octal digits + 511) / 512)
    (hend : stage1LoadAddr + 512 * n ≤ 2 ^ 16) (htotal : 1 + n ≤ total)
    (hsucc : SucceedsTo fw.disk (n + m + 1) 0 e) (hfuel : sectorsPerSegment < fuel) :
    ∃ t, stage0Start fw ra fuel s = some (.inr t) ∧ Booting fw.disk d (1 + n) t ∧
      t.cpu.es = 0 ∧ SucceedsTo fw.disk m t.cpu.log.length e ∧
      HasFile (fileOn disk 2 stage1LoadAddr) stage1LoadAddr (stage1LoadAddr + 512 * n)
        t.cpu.mem := by
  obtain ⟨s₀, hs₀⟩ : ∃ s₀, setupStage0 s = s₀ := ⟨_, rfl⟩
  obtain ⟨hsp₀, hnarrow₀, hes₀, hds₀, hlog₀, hk₀⟩ := hs₀ ▸ setupStage0_spec hnarrow hlog
  -- Before the first request, registers and the position are set.
  obtain ⟨s₁, hs₁⟩ : ∃ s₁, ((((s₀.printString (fw.message 67)).exec stage0Position).exec
    (·.clear .ah)).exec (·.clear .dl)).exec (·.clc) = s₁ := ⟨_, rfl⟩
  have hcpu₁ : s₁.cpu = (((stage0Position (s₀.printString (fw.message 67)).cpu).clear .ah).clear
    .dl).clc := by rw [← hs₁]; rfl
  have hposition₁ : position s₁.cpu.mem = positionAt 1 := by
    rw [hcpu₁, clc, mem_setFlags, mem_alu, mem_alu, position_stage0Position]
  have hsp₁ : s₁.cpu.get .sp = stackTop := by
    rw [hcpu₁, ← hsp₀]
    simp [stage0Position, Pc.printString]
  have hnarrow₁ : s₁.cpu.Narrow := by
    rw [hcpu₁]
    exact realStable_narrow.setFlags _ _ (realStable_narrow.alu _ _ (by decide)
      (realStable_narrow.alu _ _ (by decide) (maintains_printString realStable_narrow.toStable
        (fw.message 67) hnarrow₀)))
  have hes₁ : s₁.cpu.es = 0 := by
    rw [hcpu₁, ← hes₀]
    simp [stage0Position, Pc.printString]
  have hlog₁ : s₁.cpu.log = [] := by
    rw [hcpu₁, ← hlog₀]
    simp [stage0Position, Pc.printString]
  obtain ⟨s₂, hs₂, hcf₂, hregs₂, hmem₂, hes₂, hlog₂, hds₂, hk₂⟩ := s₁.int13Reset_spec fw.reset
    (by rw [hcpu₁]; simp) (by rw [hcpu₁]; simp)
  have h₂ : Booting fw.disk d 0 s₂ := by
    refine .start ?_ ?_ ?_ ?_ (hlog₂.trans hlog₁) (hmem₂ ▸ hposition₁)
    · exact (congrArg (· % 2 ^ 16) hregs₂).trans hsp₁
    · rw [Narrow, hregs₂]
      exact hnarrow₁
    · rw [hds₂, ← hs₁]
      exact hds₀
    · rw [hk₂, ← hs₁]
      exact hk₀ ▸ hp
  obtain ⟨t, ht, hbooting, htes, hsucc', hfile⟩ := readStage1_spec ra h₂ (hes₂.trans hes₁)
    hs hu hn hend (by rwa [Nat.zero_add]) (by rwa [hlog₂, hlog₁]) hfuel
  rw [Nat.zero_add] at hbooting hfile
  refine ⟨t, ?_, hbooting, htes, hsucc', hfile⟩
  rw [stage0Start]
  simp only [hs₀, hs₁, hs₂, Option.bind_eq_bind, Option.bind_some, hcf₂, hok, Bool.not_true,
    Bool.false_eq_true, if_false, ht]

end Stage0

/-! ## Stage 1 -/

/-- The replies before the last one that are kept are in memory, and a null entry behind
    them if the last one has nothing to leave. -/
structure MapAt (init : List MapReply) (last : MapReply) (m : Memory) : Prop where
  entriesAt : EntriesAt m memoryInfoBottom (kept init)
  null_iff : NullAt m (memoryInfoBottom + 24 * (kept init).length) ↔ last.Low

section Stage1

variable {fw : Firmware} {disk : CHSAddress → ℕ → Byte} {fuel d k n e total : ℕ} {digits : List ℕ}
  {init more : List MapReply} {last : MapReply} {s : Pc SectorRead}

theorem MapAt.congr {m m' : Memory} (h : MapAt init last m)
    (hfit : memoryInfoBottom + 24 * ((kept init).length + 1) ≤ memoryInfoTop)
    (hm : ∀ x, memoryInfoBottom ≤ x → x < memoryInfoTop → m' x = m x) : MapAt init last m' := by
  have hfit' : 0x7000 + 24 * ((kept init).length + 1) ≤ 0x7af0 := hfit
  have hm' : ∀ x, 0x7000 ≤ x → x < 0x7af0 → m' x = m x := hm
  refine ⟨h.entriesAt.congr fun x hx hx' => hm' x hx ?_, ?_⟩
  · simp only [memoryInfoBottom] at hx'
    omega
  · rw [← h.null_iff, nullAt_iff, nullAt_iff]
    refine forall₂_congr fun j hj => ?_
    rw [hm' _ (by simp only [memoryInfoBottom]; omega) (by simp only [memoryInfoBottom]; omega)]

/-- The request for an entry leaves the stack pointer. -/
theorem maintains_sp {replies : List MapReply} {v : ℕ} :
    Maintains (fun s : MapMachine => s.regs .sp = v) (fun s => s.regs .sp = v) (int15 replies) := by
  intro s t h hs
  simp only [int15] at h
  split_ifs at h
  obtain ⟨r, -, rfl⟩ := Option.map_eq_some_iff.1 h
  change Function.update (Function.update r.regs Gpr.di (s.regs Gpr.di)) Gpr.sp (s.regs Gpr.sp)
    Gpr.sp = v
  rw [Function.update_self, hs]

/-- The memory map is loaded, and nothing is changed outside of it. -/
theorem loadMap_spec (h : Booting fw.disk d k s) (hes : s.cpu.es = 0)
    (hmap : fw.map = init ++ last :: more) (hfirst : ∀ r ∈ (init ++ [last]).head?, r.ok = true)
    (hinit : ∀ r ∈ init, r.continuation ≠ 0) (hlast : last.continuation = 0)
    (hfit : memoryInfoBottom + 24 * ((kept init).length + 1) ≤ memoryInfoTop)
    (hfuel : init.length < fuel) :
    ∃ t, loadMap fw fuel s = some (.inr t) ∧ Booting fw.disk d k t ∧ MapAt init last t.cpu.mem ∧
      t.cpu.log = s.cpu.log ∧
      ∀ x, x < memoryInfoBottom ∨ memoryInfoTop ≤ x → t.cpu.mem x = s.cpu.mem x := by
  obtain ⟨s₁, hs₁⟩ : ∃ s₁, s.printString (fw.message 394) = s₁ := ⟨_, rfl⟩
  have hprint : ∀ {I : Machine → Prop}, Stable I → I s.cpu → I s₁.cpu :=
    fun hI hs => hs₁ ▸ maintains_printString hI (fw.message 394) hs
  have hsp₁ : s₁.cpu.regs .sp = s.cpu.regs .sp := hprint (stable_sp_eq _) rfl
  have hes₁ : s₁.cpu.es = 0 := hprint (realStable_es (· = 0)).toStable hes
  have hlog₁ : s₁.cpu.log = s.cpu.log := hprint (realStable_log (· = s.cpu.log)).toStable rfl
  have hmem₁ : s₁.cpu.mem = s.cpu.mem := by
    rw [← hs₁]
    simp [Pc.printString]
  obtain ⟨c, hc, -, -, -, hentries, hnull, hframe⟩ := loadSystemMemoryInfo_writes init last more
    (s := { s₁.cpu with log := [] }) hes₁ rfl hfirst hinit hlast hfit hfuel
  have hsp : c.regs .sp = s.cpu.regs .sp :=
    (maintains_loadSystemMemoryInfo (stable_sp_eq _) maintains_sp hc rfl).trans hsp₁
  obtain ⟨t, ht⟩ : ∃ t, Pc.printString { s₁ with cpu := { c with log := s₁.cpu.log } }
    (fw.message 399) = t := ⟨_, rfl⟩
  have hprint' : ∀ {I : Machine → Prop}, Stable I → I { c with log := s₁.cpu.log } → I t.cpu :=
    fun hI hs => ht ▸ maintains_printString hI (fw.message 399) hs
  have hspt : t.cpu.regs .sp = s.cpu.regs .sp := hprint' (stable_sp_eq _) hsp
  have hlog : t.cpu.log = s.cpu.log := hprint' (realStable_log (· = s.cpu.log)).toStable hlog₁
  have hmem : t.cpu.mem = c.mem := by
    rw [← ht]
    simp [Pc.printString]
  have hframe' : ∀ x, x < memoryInfoBottom ∨ memoryInfoTop ≤ x → t.cpu.mem x = s.cpu.mem x := by
    intro x hx
    rw [hmem, hframe x hx, hmem₁]
  refine ⟨t, ?_, ?_, ⟨hmem ▸ hentries, hmem ▸ hnull⟩, hlog, hframe'⟩
  · rw [loadMap]
    simp only [hs₁, hmap, hc, ht, Option.bind_eq_bind, Option.bind_some]
  · refine h.congr (congrArg (· % 2 ^ 16) hspt) ?_ ?_ ?_ hlog fun x hx => hframe' x (.inl ?_)
    · rw [Narrow, hspt]
      exact h.narrow
    · rw [← ht, ← hs₁]
      rfl
    · rw [← ht, ← hs₁]
      exact h.tame
    · exact hx.2.trans (by decide)

/-- The kernel is read behind its meta data, and nothing is changed outside of it but the
    position and the stack. -/
theorem readKernel_spec (ra : ℕ → ℕ) (h : Booting fw.disk d k s) (hs : Serves fw.disk disk total)
    (hu : UstarSize (disk (lbaToChs (1 + k))) 0 digits) (hn : n = (octal digits + 511) / 512)
    (hend : kernelElfAddr + 512 * n ≤ 0x100000) (htotal : k + 1 + n ≤ total)
    (hsucc : SucceedsTo fw.disk (n + 1) s.cpu.log.length e) (hfuel : sectorsPerSegment < fuel) :
    ∃ t, readKernel fw ra fuel s = some (.inr t) ∧ Booting fw.disk d (k + 1 + n) t ∧
      HasFile (fileOn disk (1 + (k + 1)) kernelElfAddr) kernelElfAddr (kernelElfAddr + 512 * n)
        t.cpu.mem ∧
      t.cpu.es < 2 ^ 16 ∧
      ∀ x, stackTop + 7 ≤ x → x < kernelElfAddr → t.cpu.mem x = s.cpu.mem x := by
  obtain ⟨s₁, hs₁⟩ : ∃ s₁, ((s.exec (·.set .ax 0x1000)).exec fun c => c.setEs (c.get .ax)).exec
    (·.clear .bx) = s₁ := ⟨_, rfl⟩
  have hmem₁ : s₁.cpu.mem = s.cpu.mem := by
    rw [← hs₁]
    simp
  have hlog₁ : s₁.cpu.log = s.cpu.log := by
    rw [← hs₁]
    simp
  have hes₁ : s₁.cpu.es = 0x1000 := by
    rw [← hs₁]
    simp [Part.bits]
  have hsp₁ : s₁.cpu.get .sp = s.cpu.get .sp := by
    rw [← hs₁]
    simp
  have hbuf₁ : bufferAddr s₁.cpu = kernelElfAddr := by
    rw [bufferAddr, hes₁, ← hs₁]
    simp
  have hnarrow₁ : s₁.cpu.Narrow := by
    rw [← hs₁]
    exact realStable_narrow.alu _ _ (by decide)
      (Narrow.setEs (realStable_narrow.set (r := .ax) _ (by decide) h.narrow) _)
  have h₁ : Booting fw.disk d k s₁ := by
    refine h.congr hsp₁ hnarrow₁ ?_ ?_ hlog₁ fun x _ => congrFun hmem₁ x
    · rw [← hs₁]
      rfl
    · rw [← hs₁]
      exact h.tame
  obtain ⟨s₂, hs₂, h₂, hu₂, hcf₂, hes₂, hsucc₂, hl₂⟩ := call_readMetaData ra (ra 408) h₁ hs
    (by omega) hu (show currentSectorAddr < kernelElfAddr by decide) hbuf₁ (by rwa [hlog₁])
    (le_trans (by decide) hfuel.le)
  obtain ⟨c, reads, hc, hcf, -, hreads⟩ := loadKernelFile_reads ra (h₂.hasRoom (by decide))
    (hes₂.trans hes₁) hu₂ hn hend hsucc₂ hfuel
  have hlogged : Logged fw.disk c.log := maintains_loadKernelFile (realStable_log _)
    maintains_logged (fun hs => hs) ra fuel hc h₂.logged
  have hnarrow : c.Narrow := maintains_loadKernelFile realStable_narrow maintains_narrow
    (fun {s} hs => Narrow.setEs (s := s) hs _) ra fuel hc h₂.narrow
  have hes₂' : s₂.cpu.es < 2 ^ 16 := by
    rw [hes₂, hes₁]
    decide
  have hes : c.es < 2 ^ 16 := maintains_loadKernelFile (realStable_es (· < 2 ^ 16))
    (maintains_es (P := (· < 2 ^ 16))) (fun {s} _ => s.get_lt .ax) ra fuel hc hes₂'
  refine ⟨{ s₂ with cpu := c }, ?_, h₂.readsSectors hreads hnarrow hlogged,
    h₂.hasFile hs hreads hlogged htotal, hes, fun x hx hx' => ?_⟩
  · rw [readKernel]
    simp only [hs₁, hs₂, hcf₂, Option.bind_eq_bind, Option.bind_some, Bool.false_eq_true, if_false]
    rw [Pc.execute, hc]
    simp only [Option.map_some, Option.bind_some, hcf, Bool.false_eq_true, if_false]
  · have hx₁ : 0x6ff7 ≤ x := hx
    have hx₂ : x < 0x10000 := hx'
    -- It is above the stack and the position, and below the kernel.
    have hout : ∀ hi, x ∉ positionBytes ∪ Set.Ico kernelElfAddr hi := by
      rintro hi (⟨-, hpos⟩ | ⟨haddr, -⟩)
      · exact absurd (hx₁.trans_lt hpos) (by decide)
      · exact absurd haddr (Nat.not_le.2 hx')
    have hsp : stackTop ≤ x := (Nat.le_add_right stackTop 7).trans hx
    rw [hreads.leaves.mem_eq x (hout _) (.inr (h₂.sp_eq.trans_le hsp)),
      hl₂.mem_eq x (hout _) (.inr (h₁.sp_eq.trans_le hsp)), hmem₁]

/-- The request for the gate leaves the stack pointer. -/
theorem narrow_int15A20 {E : Type*} (bios : Pc.A20Bios) (s : Pc E) (hs : s.cpu.Narrow) :
    (s.int15A20 bios).cpu.Narrow := by
  change Function.update (bios (s.cpu.get .ax) s.keyboard s.fast).regs Gpr.sp (s.cpu.regs Gpr.sp)
    Gpr.sp < 2 ^ 16
  rwa [Function.update_self]

/-- The gate is opened, and nothing is changed but the stack. -/
theorem openGate_spec (ra : ℕ → ℕ) (h : Booting fw.disk d k s) (hes : s.cpu.es < 2 ^ 16)
    (hbios : fw.a20.KeepsTame d) (hfuel : d ≤ fuel) :
    ∃ t, openGate fw ra fuel s = some (.inr t) ∧ t.gate = true ∧
      t.keyboard.state.restarted = false ∧ t.cpu.Narrow ∧
      t.cpu.get .sp = stackTop ∧ t.cpu.log = s.cpu.log ∧
      ∀ x, stackTop ≤ x → t.cpu.mem x = s.cpu.mem x := by
  obtain ⟨s₁, hs₁⟩ : ∃ s₁, s.push (ra 429) = s₁ := ⟨_, rfl⟩
  have hroom₁ : s₁.HasRoom 16 := by
    rw [Pc.HasRoom, ← hs₁, Pc.push, Pc.cpu_exec, get_push_self (h.sp_eq ▸ by decide), h.sp_eq]
    decide
  obtain ⟨u, hu, henabled⟩ := Pc.enableA20_spec (s := s₁) fw.chip ra hroom₁
    (by rwa [← hs₁]) (by rw [← hs₁]; exact h.ds_eq.trans_lt (by decide)) hbios
    (by rw [← hs₁]; exact h.tame) hfuel
  subst hs₁
  have hroom' : s.HasRoom 2 := by
    rw [Pc.HasRoom, h.sp_eq]
    decide
  obtain ⟨v, hv, hrestores, hk, hfast, hget⟩ := henabled.restores.call hroom' hu
  have hnarrow : v.cpu.Narrow := Pc.maintains_call realStable_narrow _
    (Pc.maintains_enableA20 realStable_narrow (fun v hs => Narrow.setEs hs v)
      (narrow_int15A20 fw.a20) ra fuel) hv h.narrow
  have hax : v.cpu.get .ax = 1 := (hget .a .word (by decide)).trans henabled.ax_eq
  have hzf : (v.exec (·.cmp .ax 0)).cpu.zf = false := by
    rw [Pc.cpu_exec, zf_cmp, hax]
    rfl
  have hnarrow' : ((v.exec (·.cmp .ax 0)).printString (fw.message 434)).cpu.Narrow :=
    maintains_printString realStable_narrow.toStable _ (realStable_narrow.cmp _ hnarrow)
  refine ⟨(v.exec (·.cmp .ax 0)).printString (fw.message 434), ?_, ?_, ?_, hnarrow', ?_, ?_,
    fun x hx => ?_⟩
  · rw [openGate]
    simp only [hv, hzf, Option.bind_eq_bind, Option.bind_some, Bool.false_eq_true, if_false]
  · rw [← henabled.gate_eq, Pc.printString, Pc.gate_exec, Pc.gate_exec, Pc.gate, Pc.gate, hk, hfast]
  · rw [← henabled.restarted_eq, ← hk]
    rfl
  · rw [← h.sp_eq, ← hrestores.leaves.sp_eq]
    simp [Pc.printString]
  · rw [← hrestores.log_eq]
    simp [Pc.printString]
  · rw [← hrestores.leaves.mem_eq x (fun hx' => hx'.elim) (.inr (h.sp_eq.trans_le hx))]
    simp [Pc.printString]

end Stage1

/-! ## The kernel -/

section Kernel

variable {fuel lo hi stop : ℕ} {m₀ : Memory}

/-- With the gate open, the kernel in memory is loaded and entered, and nothing is changed
    outside of its segments but the stack. -/
theorem enterKernel_spec {s : Pc SectorRead} (fw : Firmware) (ra : ℕ → ℕ) (hgate : s.gate = true)
    (hnarrow : s.cpu.Narrow) (hsp : s.cpu.get .sp = stackTop) (hhi : stackTop ≤ hi)
    (hlt : hi ≤ 2 ^ 32) (hf : HasFile m₀ kernelElfAddr stop s.cpu.mem)
    (he : ElfFits m₀ kernelElfAddr stop (Set.Ico stackBottom hi))
    (hok : ElfHeaderOk m₀ kernelElfAddr) (hfuel : 2 ^ 32 ≤ fuel) :
    ∃ t, enterKernel fw ra fuel s = some ⟨elfEntry m₀ kernelElfAddr, t, s.cpu.log⟩ ∧
      t.gate = true ∧ t.keyboard = s.keyboard ∧ t.interrupts = false ∧
      (∀ h ∈ elfSegments m₀ kernelElfAddr, h.Loaded m₀ kernelElfAddr t.cpu.mem) ∧
      ∀ x ∉ dests (elfSegments m₀ kernelElfAddr), stackTop ≤ x → t.cpu.mem x = s.cpu.mem x := by
  obtain ⟨c, hc⟩ : ∃ c, ((s.cpu.set .eax fw.cr0).lor .eax 1) = c := ⟨_, rfl⟩
  have hesp : c.get .esp = stackTop := by
    rw [← hc, get_alu_of_ne (by decide), get_set_of_ne (by decide), hnarrow.get_esp, hsp]
  have hmem : c.mem = s.cpu.mem := by rw [← hc, mem_alu, mem_set]
  have hlog : c.log = s.cpu.log := by rw [← hc, log_alu, log_set]
  obtain ⟨t, ht, hl, hloaded⟩ := preKernel_of_file (s := { c with log := [] }) ra
    ⟨hesp ▸ by decide, hesp.trans_le hhi⟩ hlt (hmem ▸ hf) he hok hfuel
  refine ⟨⟨t, 0x10, false, s.keyboard, s.fast⟩, ?_, hgate, rfl, rfl, hloaded, fun x hx hx' => ?_⟩
  · have hgate' : (s.fast || s.keyboard.state.outputPort.getLsbD 1) = true := hgate
    rw [enterKernel, jumpPreKernel]
    simp only [setProtected, Pc.exec, hc, Pc.gate, hgate', if_true, ht, Option.map_some, hlog]
  · rw [hl.mem_eq x hx (.inr (hesp.trans_le hx')), hmem]

end Kernel

/-! ## The whole run -/

/-- A file of `n` sectors lies on the disk behind its meta data in the sector `lba`. -/
def FileAt (disk : CHSAddress → ℕ → Byte) (lba n : ℕ) : Prop :=
  ∃ digits, UstarSize (disk (lbaToChs lba)) 0 digits ∧ n = (octal digits + 511) / 512

/-- The replies to the requests for the memory map: `last` is the last one, and its
    entries have room. -/
structure Maps (replies init : List MapReply) (last : MapReply) : Prop where
  replies_eq : ∃ more, replies = init ++ last :: more
  ok : ∀ r ∈ (init ++ [last]).head?, r.ok = true
  continues : ∀ r ∈ init, r.continuation ≠ 0
  ends : last.continuation = 0
  fits : memoryInfoBottom + 24 * ((kept init).length + 1) ≤ memoryInfoTop

section Run

variable {fw : Firmware} {disk : CHSAddress → ℕ → Byte} {ra : ℕ → ℕ} {fuel d n₁ n₂ : ℕ}
  {init : List MapReply} {last : MapReply} {s : Pc SectorRead}

variable (fw disk fuel d n₁ n₂ init last s) in
/-- All the requests of a boot succeed, the keyboard controller is tame, and the files on the
    disk have room in memory and end with its second cylinder, which is as far as the position
    follows the disk. -/
structure Boots : Prop where
  narrow : s.cpu.Narrow
  log_eq : s.cpu.log = []
  tame : Pc.Tame d s.keyboard
  reset_ok : fw.reset.ok = true
  serves : Serves fw.disk disk (n₁ + n₂ + 2)
  stage1_file : FileAt disk 1 n₁
  kernel_file : FileAt disk (2 + n₁) n₂
  sectors_le : 3 + n₁ + n₂ ≤ 72
  stage1_le : stage1LoadAddr + 512 * n₁ ≤ kernelElfAddr
  kernel_le : kernelElfAddr + 512 * n₂ ≤ 0x100000
  succeeds : EachSucceeds fw.disk (n₁ + n₂ + 2) 0
  maps : Maps fw.map init last
  keepsTame : fw.a20.KeepsTame d
  header_ok : ElfHeaderOk (fileOn disk (3 + n₁) kernelElfAddr) kernelElfAddr
  elfFits : ElfFits (fileOn disk (3 + n₁) kernelElfAddr) kernelElfAddr
    (kernelElfAddr + 512 * n₂) (Set.Ico stackBottom (stage1LoadAddr + 512 * n₁))
  le_fuel : 2 ^ 32 ≤ fuel
  lt_fuel : max init.length d < fuel

theorem Boots.enters (h : Boots fw disk fuel d n₁ n₂ init last s) (ra : ℕ → ℕ) :
    ∃ t, boot fw ra fuel s = some (.inr t) ∧
      t.entry = elfEntry (fileOn disk (3 + n₁) kernelElfAddr) kernelElfAddr ∧
      (∀ h ∈ elfSegments (fileOn disk (3 + n₁) kernelElfAddr) kernelElfAddr,
        h.Loaded (fileOn disk (3 + n₁) kernelElfAddr) kernelElfAddr t.machine.cpu.mem) ∧
      HasFile (fileOn disk 2 stage1LoadAddr) stage1LoadAddr (stage1LoadAddr + 512 * n₁)
        t.machine.cpu.mem ∧
      MapAt init last t.machine.cpu.mem ∧ t.machine.gate = true ∧
      t.machine.keyboard.state.restarted = false ∧ t.machine.interrupts = false ∧
      (t.reads.filter (·.ok)).map (·.position) =
        (List.range (n₁ + n₂ + 2)).map fun i => lbaToChs (1 + i) := by
  obtain ⟨hnarrow, hlog, hp, hreset, hserves, hfile₁, hfile₂, hsectors, hend₁, hend₂, hsucc, hmap,
    hbios, hok, hfits, hfuel, hfuel'⟩ := h
  obtain ⟨digits₁, hu₁, hn₁⟩ := hfile₁
  obtain ⟨digits₂, hu₂, hn₂⟩ := hfile₂
  obtain ⟨more, hreplies⟩ := hmap.replies_eq
  obtain ⟨e, hsucc⟩ := eachSucceeds_iff.1 hsucc
  have hseg : sectorsPerSegment < fuel := (show sectorsPerSegment < 2 ^ 32 by decide).trans_le hfuel
  obtain ⟨hinit, hd⟩ := max_lt_iff.1 hfuel'
  obtain ⟨s₁, hs₁, h₁, hes₁, hsucc₁, hf₁⟩ := stage0Start_spec ra (m := n₂ + 1) hnarrow hlog
    hp hreset hserves hu₁ hn₁ hend₁ (by omega)
    (by rwa [show n₁ + (n₂ + 1) + 1 = n₁ + n₂ + 2 by omega]) hseg
  obtain ⟨s₂, hs₂, h₂, hmap₂, hlog₂, hmem₂⟩ := loadMap_spec h₁ hes₁ hreplies hmap.ok hmap.continues
    hmap.ends hmap.fits hinit
  obtain ⟨s₃, hs₃, h₃, hf₃, hes₃, hmem₃⟩ := readKernel_spec ra h₂ hserves
    (by rwa [show 1 + (1 + n₁) = 2 + n₁ by omega]) hn₂ hend₂ (by omega) (by rwa [hlog₂]) hseg
  obtain ⟨s₄, hs₄, hgate₄, hrestarted₄, hnarrow₄, hsp₄, hlog₄, hmem₄⟩ :=
    openGate_spec ra h₃ hes₃ hbios hd.le
  have hlba : 1 + (1 + n₁ + 1) = 3 + n₁ := by omega
  have hf₄ : HasFile (fileOn disk (3 + n₁) kernelElfAddr) kernelElfAddr (kernelElfAddr + 512 * n₂)
      s₄.cpu.mem := by
    refine ⟨fun x hx => ?_⟩
    rw [hmem₄ x (le_trans (by decide) hx.1), hf₃.mem_eq x hx, hlba]
  obtain ⟨t, ht, hgate, hkeyboard, hint, hloaded, hmem⟩ := enterKernel_spec fw ra hgate₄ hnarrow₄
    hsp₄ (show stackTop ≤ stage1LoadAddr + 512 * n₁ from
      (by decide : stackTop ≤ stage1LoadAddr).trans (Nat.le_add_right _ _))
    (hend₁.trans (by decide)) hf₄ hfits hok hfuel
  -- What is below the kernel is left from the loading of the memory map on.
  have hframe : ∀ x ∈ Set.Ico memoryInfoBottom (stage1LoadAddr + 512 * n₁),
      t.cpu.mem x = s₂.cpu.mem x := by
    rintro x ⟨hx, hx'⟩
    have hstack : stackTop + 7 ≤ x := le_trans (by decide) hx
    have hstack' : stackTop ≤ x := (Nat.le_add_right _ _).trans hstack
    have hdests : x ∉ dests (elfSegments (fileOn disk (3 + n₁) kernelElfAddr) kernelElfAddr) :=
      fun hmem => hfits.not_mem_dests x hmem ⟨le_trans (by decide) hx, hx'⟩
    rw [hmem x hdests hstack', hmem₄ x hstack', hmem₃ x hstack (hx'.trans_le hend₁)]
  refine ⟨⟨elfEntry (fileOn disk (3 + n₁) kernelElfAddr) kernelElfAddr, t, s₄.cpu.log⟩, ?_, rfl,
    hloaded, ?_, ?_, hgate, by rw [hkeyboard, hrestarted₄], hint, ?_⟩
  · rw [boot, hs₁]
    change boot1Start fw ra fuel s₁ = _
    rw [boot1Start, hs₂]
    change proceed (readKernel fw ra fuel s₂) _ = _
    rw [hs₃]
    change proceed (openGate fw ra fuel s₃) _ = _
    rw [hs₄]
    change (enterKernel fw ra fuel s₄).map (Sum.inr : Entered → Halt ⊕ Entered) = _
    rw [ht, Option.map_some]
  · refine ⟨fun x hx => ?_⟩
    rw [hframe x ⟨le_trans (by decide) hx.1, hx.2⟩, hmem₂ x (.inr (le_trans (by decide) hx.1)),
      hf₁.mem_eq x hx]
  · refine hmap₂.congr hmap.fits fun x hx hx' => hframe x ⟨hx, ?_⟩
    exact hx'.trans ((by decide : memoryInfoTop < stage1LoadAddr).trans_le (Nat.le_add_right _ _))
  · have hk : 1 + n₁ + 1 + n₂ = n₁ + n₂ + 2 := by omega
    rw [hlog₄, h₃.positions_eq, hk]
    refine List.map_congr_left fun i hi => positionAt_eq_lbaToChs ?_
    have := List.mem_range.1 hi
    omega

/-- A boot whose requests succeed enters the kernel on the disk at its entry point: its
    segments are loaded, stage 1 and the memory map are in memory, the gate is open, the
    machine has not been restarted, and there are no interrupts. The sectors of the disk have
    been read one after the other. -/
theorem boot_enters (hnarrow : s.cpu.Narrow) (hlog : s.cpu.log = []) (hp : Pc.Tame d s.keyboard)
    (hreset : fw.reset.ok = true) (hserves : Serves fw.disk disk (n₁ + n₂ + 2))
    (hfile₁ : FileAt disk 1 n₁) (hfile₂ : FileAt disk (2 + n₁) n₂) (hsectors : 3 + n₁ + n₂ ≤ 72)
    (hend₁ : stage1LoadAddr + 512 * n₁ ≤ kernelElfAddr)
    (hend₂ : kernelElfAddr + 512 * n₂ ≤ 0x100000)
    (hsucc : EachSucceeds fw.disk (n₁ + n₂ + 2) 0) (hmap : Maps fw.map init last)
    (hbios : fw.a20.KeepsTame d)
    (hok : ElfHeaderOk (fileOn disk (3 + n₁) kernelElfAddr) kernelElfAddr)
    (hfits : ElfFits (fileOn disk (3 + n₁) kernelElfAddr) kernelElfAddr
      (kernelElfAddr + 512 * n₂) (Set.Ico stackBottom (stage1LoadAddr + 512 * n₁)))
    (hfuel : 2 ^ 32 ≤ fuel) (hfuel' : max init.length d < fuel) :
    ∃ t, boot fw ra fuel s = some (.inr t) ∧
      t.entry = elfEntry (fileOn disk (3 + n₁) kernelElfAddr) kernelElfAddr ∧
      (∀ h ∈ elfSegments (fileOn disk (3 + n₁) kernelElfAddr) kernelElfAddr,
        h.Loaded (fileOn disk (3 + n₁) kernelElfAddr) kernelElfAddr t.machine.cpu.mem) ∧
      HasFile (fileOn disk 2 stage1LoadAddr) stage1LoadAddr (stage1LoadAddr + 512 * n₁)
        t.machine.cpu.mem ∧
      MapAt init last t.machine.cpu.mem ∧ t.machine.gate = true ∧
      t.machine.keyboard.state.restarted = false ∧ t.machine.interrupts = false ∧
      (t.reads.filter (·.ok)).map (·.position) =
        (List.range (n₁ + n₂ + 2)).map fun i => lbaToChs (1 + i) :=
  Boots.enters ⟨hnarrow, hlog, hp, hreset, hserves, hfile₁, hfile₂, hsectors, hend₁, hend₂, hsucc,
    hmap, hbios, hok, hfits, hfuel, hfuel'⟩ ra

end Run

/-- A sector with the meta data of a file. -/
def metaSector (digits : List ℕ) : ℕ → Byte := fun j =>
  BitVec.ofNat 8 (48 + digits.getD (j - 0x7c) 0)

/-- The octal digits of the length of `sampleFile`. -/
def kernelDigits : List ℕ := [0, 0, 0, 0, 0, 0, 0, 0, 1, 6, 6]

/-- A disk with a stage 1 of 1000 bytes and the kernel `sampleFile`. -/
def sampleDisk : CHSAddress → ℕ → Byte := fun p j =>
  if p.s = 2 then metaSector sampleDigits j
  else if p.s = 5 then metaSector kernelDigits j
  else if p.s = 6 then BitVec.ofNat 8 (sampleFile.getD j 0)
  else 0

/-- All requests succeed at once, but for that to open the gate, which is left to a
    controller that works before every access. -/
def sampleFirmware : Firmware where
  reset := ⟨true, fun _ => 0, false⟩
  disk i := ⟨true, sampleDisk (lbaToChs (1 + i)), fun _ => 0, false⟩
  map := [sampleReply 0 0x9fc00 1 0]
  a20 := Pc.sampleA20Bios
  message _ _ := 0
  chip := Pc.sampleChip
  cr0 := 0x10

def samplePc : Pc SectorRead where
  cpu := sampleMachine
  ds := 0
  interrupts := true
  keyboard := Pc.sampleClosed.keyboard
  fast := false

theorem sampleFirmware_serves (total : ℕ) : Serves sampleFirmware.disk sampleDisk total := by
  intro i _ _ j _
  have hcount : Nat.count (fun i => (sampleFirmware.disk i).ok = true) i = i :=
    Nat.count_iff_forall.2 fun _ _ => rfl
  rw [hcount]
  rfl

theorem elfSegments_sampleDisk : elfSegments (fileOn sampleDisk 5 kernelElfAddr) kernelElfAddr =
    [⟨1, 116, 0x100000, 2, 4⟩, ⟨4, 0, 0, 0, 0⟩] := by
  decide +kernel

theorem elfFits_sampleDisk : ElfFits (fileOn sampleDisk 5 kernelElfAddr) kernelElfAddr
    (kernelElfAddr + 512 * 1) (Set.Ico stackBottom (stage1LoadAddr + 512 * 2)) where
  header_le := by decide
  stop_le := by decide
  disjoint := by
    rw [Set.disjoint_left]
    rintro x ⟨hx, -⟩ ⟨-, hx'⟩
    exact absurd (Nat.lt_of_le_of_lt hx hx') (by decide)
  table_le := by decide +kernel
  fits := by
    rw [elfSegments_sampleDisk]
    intro h hh
    simp only [List.mem_cons, List.not_mem_nil, or_false] at hh
    rcases hh with rfl | rfl
    · refine ⟨by decide, by decide, by decide, ?_⟩
      rw [Set.disjoint_left]
      rintro x ⟨-, hx, -⟩ (⟨-, hx'⟩ | ⟨-, hx'⟩)
      all_goals exact absurd (Nat.lt_of_le_of_lt hx hx') (by decide)
    · refine ⟨by decide, by decide, by decide, ?_⟩
      rw [Set.disjoint_left]
      rintro x ⟨hx, -⟩
      exact absurd hx (by decide)
  pairwise := by
    rw [elfSegments_sampleDisk, List.pairwise_pair, Set.disjoint_left]
    rintro x - ⟨hx, -⟩
    exact absurd hx (by decide)

theorem boot_enters_sample : ∃ t, boot sampleFirmware sampleRa (2 ^ 32) samplePc = some (.inr t) ∧
    t.entry = elfEntry (fileOn sampleDisk (3 + 2) kernelElfAddr) kernelElfAddr ∧
    (∀ h ∈ elfSegments (fileOn sampleDisk (3 + 2) kernelElfAddr) kernelElfAddr,
      h.Loaded (fileOn sampleDisk (3 + 2) kernelElfAddr) kernelElfAddr t.machine.cpu.mem) ∧
    HasFile (fileOn sampleDisk 2 stage1LoadAddr) stage1LoadAddr (stage1LoadAddr + 512 * 2)
      t.machine.cpu.mem ∧
    MapAt [] (sampleReply 0 0x9fc00 1 0) t.machine.cpu.mem ∧ t.machine.gate = true ∧
    t.machine.keyboard.state.restarted = false ∧ t.machine.interrupts = false ∧
    (t.reads.filter (·.ok)).map (·.position) =
      (List.range (2 + 1 + 2)).map fun i => lbaToChs (1 + i) :=
  have hfile₁ : FileAt sampleDisk 1 2 := ⟨sampleDigits, ⟨rfl, by decide, by decide⟩, by decide⟩
  have hfile₂ : FileAt sampleDisk (2 + 2) 1 :=
    ⟨kernelDigits, ⟨rfl, by decide, by decide⟩, by decide⟩
  have hmap : Maps sampleFirmware.map [] (sampleReply 0 0x9fc00 1 0) :=
    ⟨⟨[], rfl⟩, by simp [sampleReply], by simp, rfl, by decide⟩
  have hnarrow : samplePc.cpu.Narrow := show 0x6fee < 2 ^ 16 by decide
  have hsucc : EachSucceeds sampleFirmware.disk (2 + 1 + 2) 0 :=
    eachSucceeds_of_ok (fun _ => rfl) _ _
  boot_enters hnarrow rfl Pc.tame_sampleClosed rfl (sampleFirmware_serves _) hfile₁ hfile₂
    (by decide) (by decide) (by decide) hsucc hmap (fun _ _ _ hp => hp)
    ⟨by decide +kernel, by decide +kernel, by decide +kernel, by decide +kernel⟩
    elfFits_sampleDisk le_rfl (by decide)

/-! ## Halts -/

section Halts

variable {fw : Firmware} {ra : ℕ → ℕ} {fuel : ℕ} {s : Pc SectorRead} {h : Halt}

theorem proceed_eq_inl {α β : Type*} {o : Option (Halt ⊕ α)} {f : α → Option (Halt ⊕ β)} :
    proceed o f = some (.inl h) ↔
      o = some (.inl h) ∨ ∃ a, o = some (.inr a) ∧ f a = some (.inl h) := by
  rcases o with - | h' | a
  · simp [proceed]
  · simp [proceed]
  · simp [proceed]

/-- A failure to read a file is not noticed, as the carry is clear behind the attempts. -/
theorem readStage1_ne_inl : readStage1 fw ra fuel s ≠ some (.inl h) := by
  intro hread
  simp only [readStage1, Option.bind_eq_bind, Option.bind_eq_some_iff, Pc.execute,
    Option.map_eq_some_iff] at hread
  obtain ⟨t, ⟨c, hc, rfl⟩, hread⟩ := hread
  have hcf : c.cf = false := cf_call (fun _ _ => cf_readNextFloppySectorRepeated) hc
  simp only [hcf, Bool.false_eq_true, if_false, Option.bind_eq_some_iff,
    Option.map_eq_some_iff] at hread
  obtain ⟨u, ⟨c', hc', rfl⟩, hread⟩ := hread
  simp [cf_loadStage1File hc'] at hread

theorem readKernel_ne_inl : readKernel fw ra fuel s ≠ some (.inl h) := by
  intro hread
  simp only [readKernel, Option.bind_eq_bind, Option.bind_eq_some_iff, Pc.execute,
    Option.map_eq_some_iff] at hread
  obtain ⟨t, ⟨c, hc, rfl⟩, hread⟩ := hread
  have hcf : c.cf = false := cf_call (fun _ _ => cf_readNextFloppySectorRepeated) hc
  simp only [hcf, Bool.false_eq_true, if_false, Option.bind_eq_some_iff,
    Option.map_eq_some_iff] at hread
  obtain ⟨u, ⟨c', hc', rfl⟩, hread⟩ := hread
  simp [cf_loadKernelFile hc'] at hread

/-- Stage 0 halts exactly if the disk is not reset. -/
theorem stage0Start_eq_inl :
    stage0Start fw ra fuel s = some (.inl h) ↔ h = .resetFailed ∧ fw.reset.ok = false := by
  obtain ⟨s₁, hs₁⟩ : ∃ s₁, (((((setupStage0 s).printString (fw.message 67)).exec
    stage0Position).exec (·.clear .ah)).exec (·.clear .dl)).exec (·.clc) = s₁ := ⟨_, rfl⟩
  obtain ⟨s₂, hs₂, hcf₂, -⟩ := s₁.int13Reset_spec fw.reset (by rw [← hs₁]; simp)
    (by rw [← hs₁]; simp)
  simp only [stage0Start, hs₁, hs₂, hcf₂, Option.bind_eq_bind, Option.bind_some]
  cases fw.reset.ok with
  | true => simp [readStage1_ne_inl]
  | false => simp [eq_comm]

theorem loadSystemMemoryInfo_halted {replies : List MapReply} {buffer : ℕ} {c : MapMachine}
    (hlog : c.log = []) (hload : loadSystemMemoryInfo replies fuel buffer c = some .halted) :
    ∃ r ∈ replies.head?, r.ok = false := by
  simp only [loadSystemMemoryInfo, Option.bind_eq_bind, Option.bind_eq_some_iff] at hload
  obtain ⟨t, ht, hload⟩ := hload
  split_ifs at hload with hcf
  · obtain ⟨u, -, hu⟩ := Option.bind_eq_some_iff.1 hload
    exact absurd (Option.some.inj hu) (by simp)
  · simp only [int15] at ht
    split_ifs at ht
    obtain ⟨r, hr, rfl⟩ := Option.map_eq_some_iff.1 ht
    refine ⟨r, ?_, by simpa using hcf⟩
    simpa [hlog, List.head?_eq_getElem?] using hr

/-- Stage 1 halts before the kernel is read only if the first request for the memory map
    fails. -/
theorem loadMap_eq_inl (hload : loadMap fw fuel s = some (.inl h)) :
    h = .noMemoryMap ∧ ∃ r ∈ fw.map.head?, r.ok = false := by
  simp only [loadMap, Option.bind_eq_bind, Option.bind_eq_some_iff] at hload
  obtain ⟨o, ho, hload⟩ := hload
  cases o with
  | done c => exact absurd (Option.some.inj hload) (by simp)
  | halted =>
    exact ⟨(Sum.inl.inj (Option.some.inj hload)).symm, loadSystemMemoryInfo_halted rfl ho⟩

theorem openGate_eq_inl (hopen : openGate fw ra fuel s = some (.inl h)) : h = .noA20 := by
  simp only [openGate, Option.bind_eq_bind, Option.bind_eq_some_iff] at hopen
  obtain ⟨t, -, hopen⟩ := hopen
  split_ifs at hopen
  · exact (Sum.inl.inj (Option.some.inj hopen)).symm
  · exact absurd (Option.some.inj hopen) (by simp)

/-- A boot halts if the disk is not reset, and otherwise only for want of a memory map or
    of the gate: a sector that cannot be read does not let it halt. -/
theorem boot_halts : (boot fw ra fuel s = some (.inl .resetFailed) ↔ fw.reset.ok = false) ∧
    boot fw ra fuel s ≠ some (.inl .stage1Unreadable) ∧
    boot fw ra fuel s ≠ some (.inl .kernelUnreadable) ∧
    (boot fw ra fuel s = some (.inl .noMemoryMap) → ∃ r ∈ fw.map.head?, r.ok = false) := by
  have hcases : ∀ h, boot fw ra fuel s = some (.inl h) → (h = .resetFailed ∧ fw.reset.ok = false) ∨
      (h = .noMemoryMap ∧ ∃ r ∈ fw.map.head?, r.ok = false) ∨ h = .noA20 := by
    intro h hboot
    rcases proceed_eq_inl.1 hboot with hstage | ⟨t, -, hstage⟩
    · exact .inl (stage0Start_eq_inl.1 hstage)
    rcases proceed_eq_inl.1 hstage with hmap | ⟨u, -, hstage⟩
    · exact .inr (.inl (loadMap_eq_inl hmap))
    rcases proceed_eq_inl.1 hstage with hread | ⟨v, -, hstage⟩
    · exact absurd hread readKernel_ne_inl
    rcases proceed_eq_inl.1 hstage with hopen | ⟨w, -, henter⟩
    · exact .inr (.inr (openGate_eq_inl hopen))
    · simp [Option.map_eq_some_iff] at henter
  refine ⟨⟨fun hboot => ?_, fun hok => ?_⟩, fun hboot => ?_, fun hboot => ?_, fun hboot => ?_⟩
  · simpa using hcases _ hboot
  · exact proceed_eq_inl.2 (.inl (stage0Start_eq_inl.2 ⟨rfl, hok⟩))
  · simpa using hcases _ hboot
  · simpa using hcases _ hboot
  · simpa using hcases _ hboot

end Halts

end KessokuOS.Bootloader
