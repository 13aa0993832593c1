import KessokuOS.Drivers.FloppyDisk
import KessokuOS.Lib.X86

/-!
# Reading sectors with the BIOS

The bootloader reads the disk one sector after the other, keeping the position
of the next one in three bytes. A read asks the BIOS for the sector there, and
advances the position if it succeeds (`readNextFloppySector_spec`).

The BIOS is given by its replies, one for each call. A reply sets the carry flag
if the read failed, may put anything in the buffer and in the registers, and
leaves the stack and the segment.

Where the cylinder should be incremented, the head is loaded in its place, which
has just been reset. Hence the position is never beyond the cylinder `1`, and
follows the sectors of the disk for the first two cylinders only
(`position_eq_iff`).
-/

namespace KessokuOS.Bootloader

open X86 X86.Cpu FloppyDisk

abbrev currentCylinderAddr : ℕ := 0x6ff4

abbrev currentHeadAddr : ℕ := 0x6ff5

abbrev currentSectorAddr : ℕ := 0x6ff6

abbrev cylinderCount : ℕ := 80

abbrev sectorCount : ℕ := 18

/-- A reply of the BIOS to the request to read a sector. -/
structure DiskReply where
  ok : Bool
  data : ℕ → Byte
  regs : Gpr → ℕ
  zf : Bool

/-- A request to read a sector: its position, the address of the buffer, whether it
    succeeded and what it put in the buffer. -/
structure SectorRead where
  position : CHSAddress
  buffer : ℕ
  ok : Bool
  data : ℕ → Byte

abbrev Machine := Cpu SectorRead

/-- The request to read one sector of the drive `0` to `es:bx`. Of other requests
    nothing is said. -/
def int13 (bios : ℕ → DiskReply) (s : Machine) : Option Machine :=
  if s.get .ah = 2 ∧ s.get .al = 1 ∧ s.get .dl = 0 then
    let reply := bios s.log.length
    let buffer := 16 * s.es + s.get .bx
    some
      { regs := Function.update reply.regs .sp (s.regs .sp)
        es := s.es
        cf := !reply.ok
        zf := reply.zf
        mem := s.mem.write buffer sectorSize reply.data
        log := s.log ++
          [⟨⟨s.get .ch, s.get .dh, s.get .cl⟩, buffer, reply.ok, reply.data⟩] }
  else none

/-- Sets the position to the next sector. -/
def incrementFloppyPosition (s : Machine) : Machine :=
  let s := s.set .al (s.mem currentSectorAddr).toNat
  let s := s.cmp .al sectorCount
  if s.cf = true then
    let s := s.add .al 1
    s.store currentSectorAddr 1 (s.get .al)
  else
    let s := s.store currentSectorAddr 1 1
    let s := s.set .al (s.mem currentHeadAddr).toNat
    let s := s.cmp .al (headCount - 1)
    if s.cf = true then
      let s := s.add .al 1
      s.store currentHeadAddr 1 (s.get .al)
    else
      let s := s.store currentHeadAddr 1 0
      -- The head is loaded, not the cylinder.
      let s := s.set .al (s.mem currentHeadAddr).toNat
      let s := s.cmp .al cylinderCount
      if s.cf = true then
        let s := s.add .al 1
        s.store currentCylinderAddr 1 (s.get .al)
      else s.store currentCylinderAddr 1 0

/-- The registers of the request for the sector at the position. -/
def setupRead (s : Machine) : Machine :=
  let s := s.set .ah 2
  let s := s.set .al 1
  let s := s.set .ch (s.mem currentCylinderAddr).toNat
  let s := s.set .cl (s.mem currentSectorAddr).toNat
  let s := s.set .dh (s.mem currentHeadAddr).toNat
  let s := s.clear .dl
  s.clc

/-- Reads the sector at the position to `es:bx`. Here as below, `ra` gives the
    return address of the call in a line of the source. -/
def readNextFloppySector (bios : ℕ → DiskReply) (ra : ℕ → ℕ) (s : Machine) : Option Machine := do
  let s := s.push .sp 2 (s.get .cx)
  let s ← int13 bios (setupRead s)
  let s ← (if s.cf = true then some s
    else s.call .sp 2 (ra 167) fun s => some (incrementFloppyPosition s))
  some (s.pop .sp 2 .cx)

/-! ## The position -/

/-- The position of the next sector. -/
def position (m : Memory) : CHSAddress :=
  ⟨(m currentCylinderAddr).toNat, (m currentHeadAddr).toNat, (m currentSectorAddr).toNat⟩

/-- The bytes that hold the position. -/
def positionBytes : Set ℕ := Set.Ico currentCylinderAddr (currentSectorAddr + 1)

/-- What the position is set to. -/
def nextPosition (p : CHSAddress) : CHSAddress :=
  if p.s < 18 then ⟨p.c, p.h, p.s + 1⟩ else if p.h < 1 then ⟨p.c, p.h + 1, 1⟩ else ⟨1, 0, 1⟩

theorem position_congr {m m' : Memory} (h : ∀ x ∈ positionBytes, m' x = m x) :
    position m' = position m := by
  rw [position, position, h currentCylinderAddr ⟨le_rfl, by decide⟩,
    h currentHeadAddr ⟨by decide, by decide⟩, h currentSectorAddr ⟨by decide, by decide⟩]

/-- The bytes after storing one of them. -/
theorem toNat_store_byte {m : Memory} {a v x : ℕ} (hv : v < 256) :
    (m.store a 1 v x).toNat = if x = a then v else (m x).toNat := by
  by_cases h : x = a
  · rw [if_pos h, h, Memory.store_one, BitVec.toNat_ofNat, Nat.mod_eq_of_lt hv]
  · rw [if_neg h, Memory.store, Memory.write_of_not_mem (by omega)]

/-- The store of the sector leaves the head. -/
theorem store_currentSectorAddr_head (m : Memory) :
    m.store currentSectorAddr 1 1 currentHeadAddr = m currentHeadAddr :=
  Memory.write_of_not_mem (by decide)

/-- What an increment stores, in the order of its jumps, and where. -/
theorem mem_incrementFloppyPosition (s : Machine) :
    (incrementFloppyPosition s).mem =
      if (s.mem currentSectorAddr).toNat < 18 then
        s.mem.store currentSectorAddr 1 ((s.mem currentSectorAddr).toNat + 1)
      else if (s.mem currentHeadAddr).toNat < 1 then
        (s.mem.store currentSectorAddr 1 1).store currentHeadAddr 1
          ((s.mem currentHeadAddr).toNat + 1)
      else
        ((s.mem.store currentSectorAddr 1 1).store currentHeadAddr 1 0).store
          currentCylinderAddr 1 1 := by
  have hs := Nat.mod_eq_of_lt (s.mem currentSectorAddr).isLt
  have hh := Nat.mod_eq_of_lt (s.mem currentHeadAddr).isLt
  have hne := store_currentSectorAddr_head s.mem
  by_cases h₁ : (s.mem currentSectorAddr).toNat < 18
  · have hs' : ((s.mem currentSectorAddr).toNat + 1) % 256 =
        (s.mem currentSectorAddr).toNat + 1 := by
      omega
    simp [incrementFloppyPosition, Part.bits, hs, hs', h₁]
  by_cases h₂ : (s.mem currentHeadAddr).toNat < 1
  · have hh' : ((s.mem currentHeadAddr).toNat + 1) % 256 = (s.mem currentHeadAddr).toNat + 1 := by
      omega
    simp [incrementFloppyPosition, Part.bits, hs, hh, hh', h₁, h₂, hne]
  · -- The head that is loaded is the one just stored.
    have hz : ((s.mem.store currentSectorAddr 1 1).store currentHeadAddr 1 0) currentHeadAddr = 0 :=
      Memory.store_one _ _ _
    simp [incrementFloppyPosition, Part.bits, hs, hh, h₁, h₂, hne, hz]

theorem position_incrementFloppyPosition (s : Machine) :
    position (incrementFloppyPosition s).mem = nextPosition (position s.mem) := by
  rw [mem_incrementFloppyPosition]
  by_cases h₁ : (s.mem currentSectorAddr).toNat < 18
  · have hs : (s.mem currentSectorAddr).toNat + 1 < 256 := by omega
    simp [position, nextPosition, h₁, toNat_store_byte hs]
  by_cases h₂ : (s.mem currentHeadAddr).toNat < 1
  · have hh : (s.mem currentHeadAddr).toNat + 1 < 256 := by omega
    simp [position, nextPosition, h₁, h₂, toNat_store_byte hh, toNat_store_byte]
  · simp [position, nextPosition, h₁, h₂, toNat_store_byte]

/-- An increment writes nothing but the position and `al`, and leaves the carry
    flag clear. -/
theorem incrementFloppyPosition_frame (s : Machine) :
    (incrementFloppyPosition s).cf = false ∧ (incrementFloppyPosition s).log = s.log ∧
      (incrementFloppyPosition s).es = s.es ∧
      Modifies [.a] s (incrementFloppyPosition s) := by
  have hs := Nat.mod_eq_of_lt (s.mem currentSectorAddr).isLt
  have hh := Nat.mod_eq_of_lt (s.mem currentHeadAddr).isLt
  have hne := store_currentSectorAddr_head s.mem
  have hz : ((s.mem.store currentSectorAddr 1 1).store currentHeadAddr 1 0) currentHeadAddr = 0 :=
    Memory.store_one _ _ _
  by_cases h₁ : (s.mem currentSectorAddr).toNat < 18
  · have hs' : ¬ 255 ≤ (s.mem currentSectorAddr).toNat := by omega
    simp +contextual [incrementFloppyPosition, Modifies, Part.bits, hs, h₁, hs']
  by_cases h₂ : (s.mem currentHeadAddr).toNat < 1
  · have hh' : ¬ 255 ≤ (s.mem currentHeadAddr).toNat := by omega
    simp +contextual [incrementFloppyPosition, Modifies, Part.bits, hs, hh, h₁, h₂, hh', hne]
  · simp +contextual [incrementFloppyPosition, Modifies, Part.bits, hs, hh, h₁, h₂, hne, hz]

theorem mem_incrementFloppyPosition_of_not_mem (s : Machine) {x : ℕ} (hx : x ∉ positionBytes) :
    (incrementFloppyPosition s).mem x = s.mem x := by
  have h : ∀ {m : Memory} {a v : ℕ}, a ∈ positionBytes → m.store a 1 v x = m x :=
    fun {_ a _} ha => Memory.write_of_not_mem <| by
      have : x ≠ a := fun he => hx (he ▸ ha)
      omega
  have hs : currentSectorAddr ∈ positionBytes := ⟨by decide, by decide⟩
  have hh : currentHeadAddr ∈ positionBytes := ⟨by decide, by decide⟩
  have hc : currentCylinderAddr ∈ positionBytes := ⟨by decide, by decide⟩
  rw [mem_incrementFloppyPosition]
  split_ifs
  · exact h hs
  · rw [h hh, h hs]
  · rw [h hc, h hh, h hs]

/-! ## A read -/

/-- The buffer of a read. -/
def bufferAddr (s : Machine) : ℕ := 16 * s.es + s.get .bx

/-- The request reads the sector at the position to the buffer. -/
theorem int13_setupRead (bios : ℕ → DiskReply) (s : Machine) :
    ∃ t, int13 bios (setupRead s) = some t ∧ t.get .sp = s.get .sp ∧ t.es = s.es ∧
      t.cf = !(bios s.log.length).ok ∧
      t.mem = s.mem.write (bufferAddr s) sectorSize (bios s.log.length).data ∧
      t.log = s.log ++ [⟨position s.mem, bufferAddr s, (bios s.log.length).ok,
        (bios s.log.length).data⟩] := by
  have hc := Nat.mod_eq_of_lt (s.mem currentCylinderAddr).isLt
  have hs := Nat.mod_eq_of_lt (s.mem currentSectorAddr).isLt
  have hh := Nat.mod_eq_of_lt (s.mem currentHeadAddr).isLt
  refine ⟨_, if_pos (by simp [setupRead, Part.bits]), ?_, rfl, rfl, ?_, ?_⟩
  · have hsp : (setupRead s).get .sp = s.get .sp := by simp [setupRead]
    rw [← hsp]
    simp [Cpu.get]
  · simp [setupRead, bufferAddr]
  · simp [setupRead, bufferAddr, position, Part.bits, hc, hs, hh]

/-- From `s` to `t`, the sector at the position is requested and the BIOS gives
    `reply`: the buffer has its data, and the position is advanced if it succeeds. -/
structure ReadsSector (reply : DiskReply) (s t : Machine) : Prop where
  leaves : Leaves .sp 4 (positionBytes ∪ Set.Ico (bufferAddr s) (bufferAddr s + sectorSize)) s t
  es_eq : t.es = s.es
  cf_eq : t.cf = !reply.ok
  cx_eq : t.get .cx = s.get .cx
  log_eq : t.log = s.log ++ [⟨position s.mem, bufferAddr s, reply.ok, reply.data⟩]
  position_eq : position t.mem = if reply.ok then nextPosition (position s.mem) else position s.mem
  data_eq : ∀ i < sectorSize, t.mem (bufferAddr s + i) = reply.data i

/-- There is room on the stack for a read, and the buffer lies neither there nor at
    the position. -/
structure ReadsApart (s : Machine) : Prop where
  le_sp : 4 ≤ s.get .sp
  sp_le : s.get .sp ≤ currentCylinderAddr
  stack : bufferAddr s + sectorSize + 4 ≤ s.get .sp ∨ s.get .sp ≤ bufferAddr s
  position : bufferAddr s + sectorSize ≤ currentCylinderAddr ∨ currentSectorAddr < bufferAddr s

theorem position_push {s : Machine} {v : ℕ} (h : 2 ≤ s.get .sp)
    (h' : s.get .sp ≤ currentCylinderAddr) : position (s.push .sp 2 v).mem = position s.mem := by
  refine position_congr fun x hx => ?_
  rw [mem_push h]
  exact Memory.write_of_not_mem (by have := hx.1; omega)

/-- The call of the increment. -/
theorem call_incrementFloppyPosition {s : Machine} (ra : ℕ) (h : 2 ≤ s.get .sp)
    (h' : s.get .sp ≤ currentCylinderAddr) :
    ∃ t, s.call .sp 2 ra (fun s => some (incrementFloppyPosition s)) = some t ∧
      Leaves .sp 2 positionBytes s t ∧ t.es = s.es ∧ t.cf = false ∧ t.log = s.log ∧
      position t.mem = nextPosition (position s.mem) := by
  obtain ⟨hcf, hlog, hes, hm⟩ := incrementFloppyPosition_frame (s.push .sp 2 ra)
  have hl : Leaves .sp 0 positionBytes (s.push .sp 2 ra)
      (incrementFloppyPosition (s.push .sp 2 ra)) := by
    exact ⟨hm.get_eq (by decide), fun x hx _ => mem_incrementFloppyPosition_of_not_mem _ hx⟩
  have hW : ∀ x ∈ positionBytes, x + 2 < s.get .sp ∨ s.get .sp ≤ x :=
    fun x hx => .inr (h'.trans hx.1)
  refine ⟨_, hl.call_eq h hW rfl, (hl.of_push h).mono (by omega) subset_rfl,
    by rw [es_set, hes, es_push], by rw [cf_set, hcf], by rw [log_set, hlog, log_push], ?_⟩
  rw [mem_set, position_incrementFloppyPosition, position_push h h']

theorem readNextFloppySector_spec (bios : ℕ → DiskReply) (ra : ℕ → ℕ) {s : Machine}
    (h : ReadsApart s) : ∃ t, readNextFloppySector bios ra s = some t ∧
      ReadsSector (bios s.log.length) s t := by
  obtain ⟨hsp, hsp', hstk, hpos⟩ := h
  have hn : 2 ≤ s.get .sp := by omega
  generalize hW : positionBytes ∪ Set.Ico (bufferAddr s) (bufferAddr s + sectorSize) = W
  generalize hp : s.push .sp 2 (s.get .cx) = p
  have hpsp : p.get .sp = s.get .sp - 2 := by rw [← hp, get_push_self hn]
  have hpos' : position p.mem = position s.mem := by rw [← hp, position_push hn hsp']
  have hbuf : bufferAddr p = bufferAddr s := by
    rw [bufferAddr, ← hp, es_push, get_push_of_ne (by decide), bufferAddr]
  have hplog : p.log = s.log := by rw [← hp, log_push]
  generalize hr : bios s.log.length = reply
  obtain ⟨v, hv, hvsp, hves, hvcf, hvmem, hvlog⟩ := int13_setupRead bios p
  rw [hplog, hr] at hvcf hvmem hvlog
  rw [hbuf] at hvmem hvlog
  rw [hpos'] at hvlog
  -- The position is advanced if the request succeeds.
  have hu : ∃ u, (if v.cf = true then some v
      else v.call .sp 2 (ra 167) fun s => some (incrementFloppyPosition s)) = some u ∧
      Leaves .sp 2 positionBytes v u ∧ u.es = v.es ∧ u.cf = !reply.ok ∧ u.log = v.log ∧
      position u.mem = if reply.ok then nextPosition (position v.mem) else position v.mem := by
    cases hok : reply.ok with
    | true =>
      obtain ⟨u, hcall, hl, hues, hucf, hulog, hupos⟩ :=
        call_incrementFloppyPosition (s := v) (ra 167) (by omega) (by omega)
      rw [hok, Bool.not_true] at hvcf
      exact ⟨u, by rw [hvcf, if_neg Bool.false_ne_true, hcall], hl, hues, hucf, hulog, hupos⟩
    | false =>
      rw [hok, Bool.not_false] at hvcf
      exact ⟨v, by rw [if_pos hvcf], .refl v, rfl, hvcf, rfl, rfl⟩
  obtain ⟨u, hu, hlu, hues, hucf, hulog, hupos⟩ := hu
  have hW' : ∀ x ∈ W, x + 4 < s.get .sp ∨ s.get .sp ≤ x := by
    rintro x hx
    rcases hW ▸ hx with hx | hx
    · exact .inr (hsp'.trans hx.1)
    · have := hx.1
      have := hx.2
      omega
  have hpu : Leaves .sp 2 W p u := by
    refine .trans ⟨hvsp, fun x hx _ => ?_⟩ (hlu.mono le_rfl (hW ▸ Set.subset_union_left))
    have hx' : x ∉ Set.Ico (bufferAddr s) (bufferAddr s + sectorSize) :=
      fun hx' => hx (hW ▸ .inr hx')
    rw [hvmem]
    exact Memory.write_of_not_mem (by rw [Set.mem_Ico] at hx'; omega)
  subst hp
  refine ⟨u.pop .sp 2 .cx, ?_, ?_⟩
  · simp only [readNextFloppySector, Option.bind_eq_bind, hv, Option.bind_some, hu]
  refine ⟨hW ▸ hpu.pop hn (by decide), hues.trans hves, hucf, ?_, hulog.trans hvlog, ?_,
    fun i hi => ?_⟩
  · rw [hpu.get_pop hn fun x hx => by have := hW' x hx; omega]
    exact s.get_mod_mod .cx
  · have : position v.mem = position s.mem := by
      rw [hvmem, ← hpos']
      refine position_congr fun x hx => Memory.write_of_not_mem ?_
      have hle : currentCylinderAddr ≤ x := hx.1
      have hlt : x < currentSectorAddr + 1 := hx.2
      omega
    rw [mem_pop, hupos, this]
  · have hmem : v.mem (bufferAddr s + i) = reply.data i := by rw [hvmem, Memory.write_add hi]
    rw [mem_pop, ← hmem]
    refine hlu.mem_eq _ (fun hx => ?_) (by omega)
    have hle : currentCylinderAddr ≤ bufferAddr s + i := hx.1
    have hlt : bufferAddr s + i < currentSectorAddr + 1 := hx.2
    omega

/-! ## The position over a run -/

/-- Stage 0 sets the position to the sector behind the boot sector. -/
def stage0Position (s : Machine) : Machine :=
  let s := s.store currentCylinderAddr 1 0
  let s := s.store currentHeadAddr 1 0
  s.store currentSectorAddr 1 2

/-- The states in which `k` reads have succeeded since the position was set, with
    any number of failed ones. Between two reads, a caller may change everything
    but the position. -/
inductive Succeeded (bios : ℕ → DiskReply) (ra : ℕ → ℕ) : ℕ → Machine → Prop
  | start (s : Machine) : Succeeded bios ra 0 (stage0Position s)
  | caller {k : ℕ} {s t : Machine} : Succeeded bios ra k s →
      (∀ x ∈ positionBytes, t.mem x = s.mem x) → t.log = s.log → Succeeded bios ra k t
  | read {k : ℕ} {s t : Machine} : Succeeded bios ra k s → ReadsApart s →
      readNextFloppySector bios ra s = some t →
      Succeeded bios ra (if t.cf = true then k else k + 1) t

/-- The position of the sector `lba` of the first two cylinders, and what the
    bootloader takes for it behind them. -/
def positionAt (lba : ℕ) : CHSAddress := ⟨min (lba / 36) 1, lba / 18 % 2, lba % 18 + 1⟩

theorem nextPosition_positionAt (lba : ℕ) :
    nextPosition (positionAt lba) = positionAt (lba + 1) := by
  rw [nextPosition]
  by_cases h₁ : (positionAt lba).s < 18
  · rw [if_pos h₁]
    simp only [positionAt, CHSAddress.mk.injEq] at h₁ ⊢
    omega
  rw [if_neg h₁]
  by_cases h₂ : (positionAt lba).h < 1
  · rw [if_pos h₂]
    simp only [positionAt, CHSAddress.mk.injEq] at h₁ h₂ ⊢
    omega
  · rw [if_neg h₂]
    simp only [positionAt, CHSAddress.mk.injEq] at h₁ h₂ ⊢
    omega

theorem iterate_nextPosition (n lba : ℕ) :
    nextPosition^[n] (positionAt lba) = positionAt (lba + n) := by
  induction n with
  | zero => rfl
  | succ n ih => rw [Function.iterate_succ_apply', ih, nextPosition_positionAt, Nat.add_assoc]

/-- In the first two cylinders, it is right. -/
theorem positionAt_eq_lbaToChs {lba : ℕ} (h : lba < 72) : positionAt lba = lbaToChs lba := by
  rw [positionAt, CHSAddress.ext_iff, c_lbaToChs (by omega), h_lbaToChs, s_lbaToChs]
  exact ⟨by dsimp only; omega, rfl, rfl⟩

variable {bios : ℕ → DiskReply} {ra : ℕ → ℕ} {k : ℕ} {s : Machine}

theorem Succeeded.position_eq (h : Succeeded bios ra k s) :
    position s.mem = positionAt (1 + k) := by
  induction h with
  | start s =>
    simp [position, stage0Position, positionAt, toNat_store_byte]
  | caller _ hpos _ ih => rw [position_congr hpos, ih]
  | @read k s t _ hapart hread ih =>
    obtain ⟨t', ht', hrs⟩ := readNextFloppySector_spec bios ra hapart
    obtain rfl : t' = t := Option.some_injective _ (ht'.symm.trans hread)
    rw [hrs.position_eq, hrs.cf_eq, ih]
    cases (bios s.log.length).ok with
    | true => exact nextPosition_positionAt _
    | false => rfl

/-- The position is that of the sector `lba` of the disk, and it is the sector that
    the next read requests. -/
def AtSector (bios : ℕ → DiskReply) (ra : ℕ → ℕ) (lba : ℕ) (s : Machine) : Prop :=
  position s.mem = lbaToChs lba ∧ ∀ t, ReadsApart s → readNextFloppySector bios ra s = some t →
    ∃ r : SectorRead, t.log = s.log ++ [r] ∧ r.position = lbaToChs lba

/-- A read requests the sector at the position. -/
theorem atSector_iff {lba : ℕ} : AtSector bios ra lba s ↔ position s.mem = lbaToChs lba := by
  refine ⟨And.left, fun h => ⟨h, fun t hapart hread => ?_⟩⟩
  obtain ⟨t', ht', hrs⟩ := readNextFloppySector_spec bios ra hapart
  obtain rfl : t' = t := Option.some_injective _ (ht'.symm.trans hread)
  exact ⟨_, hrs.log_eq, h⟩

/-- The position follows the sectors of the disk for `70` reads, up to the end of
    the second cylinder. -/
theorem atSector_iff_le (h : Succeeded bios ra k s) (hk : 1 + k < 2880) :
    AtSector bios ra (1 + k) s ↔ k ≤ 70 := by
  have hc : (lbaToChs (1 + k)).c = (1 + k) / 36 := c_lbaToChs (by omega)
  have hh := h_lbaToChs (1 + k)
  have hs := s_lbaToChs (1 + k)
  rw [atSector_iff, h.position_eq, positionAt, CHSAddress.ext_iff, hc, hh, hs]
  dsimp only
  omega

/-! ## Runs beyond the second cylinder -/

/-- A BIOS whose reads succeed, and read zeros. -/
def sampleBios : ℕ → DiskReply := fun _ => ⟨true, fun _ => 0, fun _ => 0, false⟩

/-- Stage 1 about to read to the segment `0x1000`, with some addresses of calls. -/
def sampleMachine : Machine where
  regs := Function.update (fun _ => 0) .sp 0x6fee
  es := 0x1000
  cf := false
  zf := false
  mem := fun _ => 0
  log := []

def sampleRa : ℕ → ℕ := fun line => 0x7c00 + line

/-- If all reads succeed there are runs with any number of them. -/
theorem exists_succeeded (bios : ℕ → DiskReply) (hbios : ∀ i, (bios i).ok = true) (ra : ℕ → ℕ)
    (k : ℕ) :
    ∃ s, Succeeded bios ra k s ∧ ReadsApart s := by
  -- Between the reads, the offset of the buffer is reset.
  have hreset : ∀ {s : Machine}, s.get .sp = 0x6fee → s.es = 0x1000 → ReadsApart (s.set .bx 0) := by
    intro s hsp hes
    have hbuf : bufferAddr (s.set .bx 0) = 0x10000 := by
      rw [bufferAddr, es_set, hes, get_set_self]
      rfl
    have hsp' : (s.set .bx 0).get .sp = 0x6fee := by rw [get_set_of_ne (by decide), hsp]
    exact ⟨by rw [hsp']; decide, by rw [hsp']; decide, by rw [hsp', hbuf]; decide,
      by rw [hbuf]; decide⟩
  suffices h : ∃ s, Succeeded bios ra k s ∧ s.get .sp = 0x6fee ∧ s.es = 0x1000 by
    obtain ⟨s, h, hsp, hes⟩ := h
    exact ⟨s.set .bx 0, h.caller (fun _ _ => rfl) rfl, hreset hsp hes⟩
  induction k with
  | zero => exact ⟨_, .start sampleMachine, rfl, rfl⟩
  | succ k ih =>
    obtain ⟨s, h, hsp, hes⟩ := ih
    have hapart := hreset hsp hes
    obtain ⟨t, ht, hrs⟩ := readNextFloppySector_spec bios ra hapart
    have hcf : t.cf = false := by rw [hrs.cf_eq, hbios, Bool.not_true]
    have h' : Succeeded bios ra k (s.set .bx 0) := h.caller (fun _ _ => rfl) rfl
    have h' := h'.read hapart ht
    rw [hcf, if_neg Bool.false_ne_true] at h'
    refine ⟨t, h', ?_, ?_⟩
    · rw [hrs.leaves.sp_eq, get_set_of_ne (by decide), hsp]
    · rw [hrs.es_eq, es_set, hes]

/-- Behind the second cylinder the position is back at its beginning. -/
theorem position_after_second_cylinder :
    ∃ s, Succeeded sampleBios sampleRa 71 s ∧ position s.mem = ⟨1, 0, 1⟩ ∧
      lbaToChs (1 + 71) = ⟨2, 0, 1⟩ ∧ ¬ AtSector sampleBios sampleRa (1 + 71) s := by
  obtain ⟨s, h, -⟩ := exists_succeeded sampleBios (fun _ => rfl) sampleRa 71
  have hpos : position s.mem = ⟨1, 0, 1⟩ := h.position_eq
  refine ⟨s, h, hpos, rfl, fun hat => ?_⟩
  rw [atSector_iff, hpos] at hat
  exact absurd hat (by decide)

theorem atSector_iff_le_sample :
    (AtSector sampleBios sampleRa (1 + 0) (stage0Position sampleMachine) ↔ 0 ≤ 70) ∧
      ∃ s, Succeeded sampleBios sampleRa 71 s ∧
        (AtSector sampleBios sampleRa (1 + 71) s ↔ 71 ≤ 70) := by
  obtain ⟨s, h, -⟩ := exists_succeeded sampleBios (fun _ => rfl) sampleRa 71
  exact ⟨atSector_iff_le (.start sampleMachine) (by decide), s, h, atSector_iff_le h (by decide)⟩

end KessokuOS.Bootloader
