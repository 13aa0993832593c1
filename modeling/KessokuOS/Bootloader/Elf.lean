import KessokuOS.Lib.Loop
import KessokuOS.Lib.X86

/-!
# Loading the kernel

In protected mode, stage 1 checks the header of the ELF file of the kernel, and
goes through the table of its segments: for each one to be loaded, it clears the
memory of the segment and copies its part of the file there.

* `memcpy_spec`: the copy of bytes;
* `loadElfProgramTableEntry_spec`: one entry of the table;
* `loadKernelElf_spec`, `call_loadKernelElf`: the whole file. If the segments lie apart
  from each other, from the file and from the stack, they are all loaded, the rest of
  the memory is left but for the stack, and the entry point is returned.
-/

namespace KessokuOS.Bootloader

open X86 X86.Cpu

/-- The machine in protected mode, with all segments from the address `0` on. -/
abbrev Flat := Cpu Unit

abbrev elfMagicNumber : ℕ := 0x464C457F

abbrev elfHeader4To7 : ℕ := 0x00010101

abbrev elfHeader16To19 : ℕ := 0x00030002

abbrev elfHeader20To23 : ℕ := 0x00000001

/-- Loads the double word at the pointer `p`, and increments the pointer: a `mov`
    followed by an `add`. -/
def fetch (r p : Reg) (s : Flat) : Flat := (s.set r (s.mem.load (s.get p) 4)).add p 4

def memcpyRound (s : Flat) : Option (Flat ⊕ Flat) :=
  let s := s.cmp .ecx 0
  if s.zf = true then some (.inr s)
  else
    let s := s.push .esp 4 (s.get .ecx)
    let s := s.set .cl (s.mem (s.get .eax)).toNat
    let s := s.store (s.get .edx) 1 (s.get .cl)
    let s := s.pop .esp 4 .ecx
    some (.inl (((s.inc .eax).inc .edx).dec .ecx))

/-- Copies `ecx` bytes from `eax` to `edx`. -/
def memcpy (fuel : ℕ) (s : Flat) : Option Flat := do
  let s := s.push .esp 4 (s.get .ecx)
  let s ← loop memcpyRound fuel s
  some (s.pop .esp 4 .ecx)

/-- Clears a byte of the segment. -/
def zeroRound (s : Flat) : Option (Flat ⊕ Flat) :=
  let s := s.cmp .ecx 0
  if s.zf = true then some (.inr s)
  else
    let s := s.store (s.get .ebx) 1 0
    some (.inl ((s.dec .ecx).inc .ebx))

/-- Reads the fields of an entry behind the first one: the address of the segment in
    the file is added to `eax`, its address in memory goes to `ebx` and its size in the
    file to `ecx`. -/
def readSegmentFields (s : Flat) : Flat :=
  let s := fetch .ebx .edx s
  let s := s.add .eax (s.get .ebx)
  let s := fetch .ebx .edx s
  let s := s.add .edx 4
  fetch .ecx .edx s

/-- Clears the memory of the segment at `ebx`, whose size is the field at `edx`. -/
def clearSegment (fuel : ℕ) (s : Flat) : Option Flat := do
  let s := s.push .esp 4 (s.get .ecx)
  let s := fetch .ecx .edx s
  let s := s.push .esp 4 (s.get .ebx)
  let s ← loop zeroRound fuel s
  let s := s.pop .esp 4 .ebx
  some (s.pop .esp 4 .ecx)

/-- Loads the segment of an entry, from its second field on. -/
def loadSegment (ra : ℕ → ℕ) (fuel : ℕ) (s : Flat) : Option Flat := do
  let s ← clearSegment fuel (readSegmentFields s)
  let s := s.set .edx (s.get .ebx)
  s.call .esp 4 (ra 730) (memcpy fuel)

/-- Loads the segment of the entry at `edx` of the file at `eax`, if it is to be
    loaded. -/
def loadElfProgramTableEntry (ra : ℕ → ℕ) (fuel : ℕ) (s : Flat) : Option Flat := do
  let s := s.push .esp 4 (s.get .ebx)
  let s := s.push .esp 4 (s.get .ecx)
  let s := fetch .ebx .edx s
  let s := s.cmp .ebx 1
  let s ← (if s.zf = false then some s else loadSegment ra fuel s)
  let s := s.pop .esp 4 .ecx
  some (s.pop .esp 4 .ebx)

def loadKernelElfRound (ra : ℕ → ℕ) (fuel : ℕ) (s : Flat) : Option (Flat ⊕ Flat) :=
  let s := s.cmp .ecx 0
  if s.zf = true then some (.inr s)
  else do
    let s := s.push .esp 4 (s.get .eax)
    let s := s.set .eax (s.mem.load ((s.get .esp + 8) % 2 ^ 32) 4)
    let s := s.set .edx (s.get .ebx)
    let s ← s.call .esp 4 (ra 806) (loadElfProgramTableEntry ra fuel)
    let s := s.pop .esp 4 .eax
    let s := s.add .ebx (s.get .eax)
    some (.inl (s.dec .ecx))

/-- Restores the registers. -/
def lkeFinish (s : Flat) : Flat :=
  (((s.pop .esp 4 .eax).pop .esp 4 .edi).pop .esp 4 .esi).pop .esp 4 .ebx

/-- Reads the fields of the header behind the entry point: the address of the table of
    the segments goes to `ebx`, the size of its entries to `eax` and their number to
    `ecx`. -/
def readTableFields (s : Flat) : Flat :=
  let s := fetch .ecx .ebx s
  let s := s.add .ebx 8
  let s := fetch .eax .ebx s
  let s := s.shr .eax 16
  let s := s.set .edx (s.mem.load (s.get .ebx) 4)
  let s := s.land .edx 0xFFFF
  let s := s.set .ebx (s.mem.load ((s.get .esp + 4) % 2 ^ 32) 4)
  let s := s.add .ebx (s.get .ecx)
  s.set .ecx (s.get .edx)

/-- Goes through the table of the segments, from the entry point in the header on. -/
def loadSegments (ra : ℕ → ℕ) (fuel : ℕ) (s : Flat) : Option Flat := do
  let s := fetch .edx .ebx s
  let s := s.push .esp 4 (s.get .edx)
  let s := readTableFields s
  let s ← loop (loadKernelElfRound ra fuel) fuel s
  some (s.pop .esp 4 .edx)

/-- Loads the kernel from the ELF file at `eax`, unless its header is a different
    one, and returns its entry point in `edx`. -/
def loadKernelElf (ra : ℕ → ℕ) (fuel : ℕ) (s : Flat) : Option Flat :=
  let s := s.push .esp 4 (s.get .ebx)
  let s := s.push .esp 4 (s.get .esi)
  let s := s.push .esp 4 (s.get .edi)
  let s := s.push .esp 4 (s.get .eax)
  let s := s.set .ebx (s.get .eax)
  let s := (fetch .eax .ebx s).cmp .eax elfMagicNumber
  if s.zf = false then some (lkeFinish s)
  else
    let s := (fetch .eax .ebx s).cmp .eax elfHeader4To7
    if s.zf = false then some (lkeFinish s)
    else
      let s := s.add .ebx 8
      let s := (fetch .eax .ebx s).cmp .eax elfHeader16To19
      if s.zf = false then some (lkeFinish s)
      else
        let s := (fetch .eax .ebx s).cmp .eax elfHeader20To23
        if s.zf = false then some (lkeFinish s) else (loadSegments ra fuel s).map lkeFinish

/-! ## Copying -/

variable {s : Flat} {src dst n fuel : ℕ}

/-- From `s` to `t`, the registers `esi` and `edi` are left. -/
structure Keeps (s t : Flat) : Prop where
  esi_eq : t.get .esi = s.get .esi
  edi_eq : t.get .edi = s.get .edi

theorem Keeps.trans {t u : Flat} (h : Keeps s t) (h' : Keeps t u) : Keeps s u :=
  ⟨h'.esi_eq.trans h.esi_eq, h'.edi_eq.trans h.edi_eq⟩

theorem Keeps.of_modifies {t : Flat} {gs : List Gpr} (h : Modifies gs s t)
    (hgs : .si ∉ gs ∧ .di ∉ gs) : Keeps s t :=
  ⟨h.get_eq hgs.1, h.get_eq hgs.2⟩

/-- A round copies a byte. -/
theorem memcpyRound_spec (hsp : 4 ≤ s.get .esp) (hecx : s.get .ecx ≠ 0) (heax : s.get .eax = src)
    (hedx : s.get .edx = dst) (hsrc : src + 4 < s.get .esp ∨ s.get .esp ≤ src)
    (hdst : dst + 4 < s.get .esp ∨ s.get .esp ≤ dst) :
    ∃ t, memcpyRound s = some (.inl t) ∧ Leaves .esp 4 {dst} s t ∧ t.mem dst = s.mem src ∧
      t.get .ecx = s.get .ecx - 1 ∧ t.get .eax = (src + 1) % 2 ^ 32 ∧
      t.get .edx = (dst + 1) % 2 ^ 32 ∧ Keeps s t := by
  obtain ⟨s₁, hs₁⟩ : ∃ s₁, s.cmp .ecx 0 = s₁ := ⟨_, rfl⟩
  have hm₁ : Modifies [] s s₁ := hs₁ ▸ .cmp
  have hget₁ : ∀ r : Reg, s₁.get r = s.get r := fun r => hm₁.get_eq List.not_mem_nil
  have hmem₁ : s₁.mem = s.mem := by rw [← hs₁, mem_cmp]
  have hsp₁ : 4 ≤ s₁.get .esp := by rwa [hget₁]
  obtain ⟨s₂, hs₂⟩ : ∃ s₂, s₁.push .esp 4 (s₁.get .ecx) = s₂ := ⟨_, rfl⟩
  have hm₂ : Modifies [.sp] s s₂ := hm₁.trans (hs₂ ▸ .push)
  have hmem₂ : s₂.mem src = s.mem src := by
    rw [← hs₂, mem_push hsp₁, hget₁, hmem₁]
    exact Memory.write_of_not_mem (by omega)
  obtain ⟨s₃, hs₃⟩ : ∃ s₃, s₂.set .cl (s₂.mem (s₂.get .eax)).toNat = s₃ := ⟨_, rfl⟩
  have hm₃ : Modifies [.c] s₂ s₃ := hs₃ ▸ .set
  have hcl₃ : s₃.get .cl = (s.mem src).toNat := by
    rw [← hs₃, get_set_self, hm₂.get_eq (by decide), heax, hmem₂]
    exact Nat.mod_eq_of_lt (s.mem src).isLt
  have hedx₃ : s₃.get .edx = dst := ((hm₂.trans hm₃).get_eq (by decide)).trans hedx
  obtain ⟨s₄, hs₄⟩ : ∃ s₄, s₃.store (s₃.get .edx) 1 (s₃.get .cl) = s₄ := ⟨_, rfl⟩
  have hm₄ : Modifies [.c] s₂ s₄ := hm₃.trans (hs₄ ▸ .store)
  have hmem₄ : s₄.mem = s₂.mem.store dst 1 (s.mem src).toNat := by
    rw [← hs₄, mem_store, hcl₃, hedx₃, ← hs₃, mem_set]
  have hl : Leaves .esp 0 {dst} s₂ s₄ := by
    refine ⟨hm₄.get_eq (by decide), fun x hx _ => ?_⟩
    rw [hmem₄]
    exact Memory.write_of_not_mem (by rw [Set.mem_singleton_iff] at hx; omega)
  rw [← hs₂] at hl
  have hW : ∀ x ∈ ({dst} : Set ℕ), x + 4 < s₁.get .esp ∨ s₁.get .esp ≤ x := by
    rintro x rfl
    rwa [hget₁]
  -- The counter is there again.
  obtain ⟨s₅, hs₅, hl₅, hecx₅, hmem₅, hm₅⟩ := hl.saved hsp₁ hW (by decide) (by decide)
  have hm : Modifies [.sp, .c, .sp, .c] s s₅ := (hm₂.trans hm₄).trans hm₅
  have hmem₅' : s₅.mem dst = s.mem src := by
    rw [hmem₅, hmem₄, Memory.store_one, BitVec.ofNat_toNat, BitVec.setWidth_eq]
  obtain ⟨s₆, hs₆⟩ : ∃ s₆, (s₅.inc .eax).inc .edx = s₆ := ⟨_, rfl⟩
  have hm₆ : Modifies [.a, .d] s₅ s₆ := hs₆ ▸ Modifies.alu.trans .alu
  have hecx₆ : s₆.get .ecx = s.get .ecx := by rw [hm₆.get_eq (by decide), hecx₅, hget₁]
  have hm₇ : Modifies [.c] s₆ (s₆.dec .ecx) := .alu
  have hmem₇ : (s₆.dec .ecx).mem = s₅.mem := by rw [mem_alu, ← hs₆, mem_alu, mem_alu]
  refine ⟨s₆.dec .ecx, ?_, ⟨?_, fun x hx hs => ?_⟩, ?_, ?_, ?_, ?_,
    .of_modifies ((hm.trans hm₆).trans hm₇) (by decide)⟩
  · have hz : s₁.zf = false := by
      rw [← hs₁]
      exact zf_cmp_of_ne hecx
    rw [memcpyRound]
    simp only [hs₁, hz, Bool.false_eq_true, if_false, hs₂, hs₃, hs₄, hs₅, hs₆]
  · rw [(hm₆.trans hm₇).get_eq (by decide), hl₅.sp_eq, hget₁]
  · rw [hmem₇, hl₅.mem_eq x hx (by rwa [hget₁]), hmem₁]
  · rw [hmem₇, hmem₅']
  · rw [get_dec (by rwa [hecx₆]), hecx₆]
  · rw [hm₇.get_eq (by decide), ← hs₆, get_alu_of_ne (by decide), get_alu_self,
      hm.get_eq (by decide), heax]
    rfl
  · rw [hm₇.get_eq (by decide), ← hs₆, get_alu_self, get_alu_of_ne (by decide),
      hm.get_eq (by decide), hedx]
    rfl

/-- By induction on the number of bytes. The pointers may wrap behind the last one. -/
theorem loop_memcpy (hsp : 4 ≤ s.get .esp) (hecx : s.get .ecx = n)
    (hptr : 0 < n → s.get .eax = src ∧ s.get .edx = dst ∧ src + n ≤ 2 ^ 32 ∧ dst + n ≤ 2 ^ 32)
    (hstack : ∀ i < n, (src + i + 4 < s.get .esp ∨ s.get .esp ≤ src + i) ∧
      (dst + i + 4 < s.get .esp ∨ s.get .esp ≤ dst + i))
    (hdis : Disjoint (Set.Ico src (src + n)) (Set.Ico dst (dst + n))) (hfuel : n < fuel) :
    ∃ t, loop memcpyRound fuel s = some t ∧ Leaves .esp 4 (Set.Ico dst (dst + n)) s t ∧
      (∀ i < n, t.mem (dst + i) = s.mem (src + i)) ∧ Keeps s t := by
  induction n generalizing s src dst fuel with
  | zero =>
    obtain ⟨fuel, rfl⟩ := Nat.exists_eq_succ_of_ne_zero hfuel.ne'
    have hz : (s.cmp .ecx 0).zf = true := zf_cmp_of_eq hecx
    refine ⟨s.cmp .ecx 0, loop_of_exit ?_, .of_mem_eq get_cmp mem_cmp, ?_, get_cmp, get_cmp⟩
    · rw [memcpyRound]
      simp only [hz, if_true]
    · exact fun i hi => absurd hi (Nat.not_lt_zero i)
  | succ n ih =>
    obtain ⟨fuel, rfl⟩ := Nat.exists_eq_succ_of_ne_zero (Nat.ne_zero_of_lt hfuel)
    obtain ⟨heax, hedx, hsrc, hdst⟩ := hptr (Nat.succ_pos n)
    obtain ⟨t, ht, hl, hbyte, hecx', heax', hedx', hk⟩ := memcpyRound_spec hsp (by omega) heax hedx
      (hstack 0 (Nat.succ_pos n)).1 (hstack 0 (Nat.succ_pos n)).2
    have hptr' : 0 < n → t.get .eax = src + 1 ∧ t.get .edx = dst + 1 ∧
        src + 1 + n ≤ 2 ^ 32 ∧ dst + 1 + n ≤ 2 ^ 32 := by
      intro hn
      rw [heax', hedx', Nat.mod_eq_of_lt (by omega), Nat.mod_eq_of_lt (by omega)]
      exact ⟨rfl, rfl, by omega, by omega⟩
    have hstack' : ∀ i < n, (src + 1 + i + 4 < t.get .esp ∨ t.get .esp ≤ src + 1 + i) ∧
        (dst + 1 + i + 4 < t.get .esp ∨ t.get .esp ≤ dst + 1 + i) := by
      intro i hi
      have := hstack (i + 1) (Nat.succ_lt_succ hi)
      rw [hl.sp_eq]
      omega
    have hsub : ∀ a, Set.Ico (a + 1) (a + 1 + n) ⊆ Set.Ico a (a + (n + 1)) := fun a =>
      Set.Ico_subset_Ico (Nat.le_succ a) (by omega)
    obtain ⟨u, hu, hl', hbytes, hk'⟩ := ih (hl.sp_eq ▸ hsp) (by omega) hptr' hstack'
      (hdis.mono (hsub src) (hsub dst)) (Nat.lt_of_succ_lt_succ hfuel)
    have hhead : ({dst} : Set ℕ) ⊆ Set.Ico dst (dst + (n + 1)) := by
      rintro x rfl
      exact ⟨Nat.le_refl _, by omega⟩
    refine ⟨u, (loop_of_again ht).trans hu,
      (hl.mono le_rfl hhead).trans (hl'.mono le_rfl (hsub dst)), fun i hi => ?_, hk.trans hk'⟩
    cases i with
    | zero =>
      have hout := (hstack 0 (Nat.succ_pos n)).2
      rw [Nat.add_zero, Nat.add_zero, hl'.mem_eq dst (fun h => absurd h.1 (by omega))
        (by rw [hl.sp_eq]; exact hout), hbyte]
    | succ i =>
      -- The byte to be copied is not the one that was written.
      have hin : src + (i + 1) ∉ ({dst} : Set ℕ) := by
        intro h
        rw [Set.mem_singleton_iff] at h
        have hmem : src + (i + 1) ∈ Set.Ico src (src + (n + 1)) := ⟨by omega, by omega⟩
        exact Set.disjoint_left.1 hdis hmem ⟨by omega, by omega⟩
      have hout := (hstack (i + 1) hi).1
      have hb := hbytes i (by omega)
      rw [Nat.add_assoc, Nat.add_assoc, Nat.add_comm 1 i] at hb
      rw [hb, hl.mem_eq _ hin hout]

theorem memcpy_spec (hsp : 8 ≤ s.get .esp) (hecx : s.get .ecx = n)
    (hptr : 0 < n → s.get .eax = src ∧ s.get .edx = dst ∧ src + n ≤ 2 ^ 32 ∧ dst + n ≤ 2 ^ 32)
    (hstack : ∀ i < n, (src + i + 8 < s.get .esp ∨ s.get .esp ≤ src + i) ∧
      (dst + i + 8 < s.get .esp ∨ s.get .esp ≤ dst + i))
    (hdis : Disjoint (Set.Ico src (src + n)) (Set.Ico dst (dst + n))) (hfuel : n < fuel) :
    ∃ t, memcpy fuel s = some t ∧ Leaves .esp 8 (Set.Ico dst (dst + n)) s t ∧
      (∀ i < n, t.mem (dst + i) = s.mem (src + i)) ∧ Keeps s t := by
  have hsp' : (s.push .esp 4 (s.get .ecx)).get .esp = s.get .esp - 4 := get_push_self (by omega)
  have hm : Modifies [.sp] s (s.push .esp 4 (s.get .ecx)) := .push
  obtain ⟨t, ht, hl, hbytes, hk⟩ := loop_memcpy (s := s.push .esp 4 (s.get .ecx)) (by omega)
    (by rw [hm.get_eq (by decide), hecx])
    (by rw [hm.get_eq (by decide), hm.get_eq (by decide)]; exact hptr)
    (fun i hi => by have := hstack i hi; rw [hsp']; omega) hdis hfuel
  have hm' : Modifies [.sp, .c] t (t.pop .esp 4 .ecx) := .pop
  refine ⟨t.pop .esp 4 .ecx, ?_, hl.pop (by omega) (by decide), fun i hi => ?_,
    (Keeps.of_modifies hm (by decide)).trans (hk.trans (.of_modifies hm' (by decide)))⟩
  · rw [memcpy]
    simp only [ht, Option.bind_eq_bind, Option.bind_some]
  · have := hstack i hi
    rw [mem_pop, hbytes i hi, mem_push (by omega)]
    exact Memory.write_of_not_mem (by omega)

/-! ## Clearing -/

theorem zeroRound_spec (hecx : s.get .ecx ≠ 0) (hebx : s.get .ebx = dst) :
    ∃ t, zeroRound s = some (.inl t) ∧ t.mem = s.mem.store dst 1 0 ∧
      t.get .ecx = s.get .ecx - 1 ∧ t.get .ebx = (dst + 1) % 2 ^ 32 ∧
      Modifies [.c, .b] s t := by
  obtain ⟨s₁, hs₁⟩ : ∃ s₁, (s.cmp .ecx 0).store ((s.cmp .ecx 0).get .ebx) 1 0 = s₁ := ⟨_, rfl⟩
  have hm : Modifies [] s s₁ := hs₁ ▸ Modifies.cmp.trans .store
  have hget : ∀ r : Reg, s₁.get r = s.get r := fun r => hm.get_eq List.not_mem_nil
  have hmem : s₁.mem = s.mem.store dst 1 0 := by rw [← hs₁, mem_store, get_cmp, mem_cmp, hebx]
  refine ⟨(s₁.dec .ecx).inc .ebx, ?_, ?_, ?_, ?_, hm.trans (Modifies.alu.trans .alu)⟩
  · have hz : (s.cmp .ecx 0).zf = false := zf_cmp_of_ne hecx
    rw [zeroRound]
    simp only [hz, Bool.false_eq_true, if_false, hs₁]
  · rw [mem_alu, mem_alu, hmem]
  · rw [get_alu_of_ne (by decide), get_dec (by rwa [hget]), hget]
  · rw [get_alu_self, get_alu_of_ne (by decide), hget, hebx]
    rfl

/-- By induction on the number of bytes. -/
theorem loop_zero (hecx : s.get .ecx = n) (hebx : 0 < n → s.get .ebx = dst ∧ dst + n ≤ 2 ^ 32)
    (hfuel : n < fuel) :
    ∃ t, loop zeroRound fuel s = some t ∧
      (∀ x, t.mem x = if x ∈ Set.Ico dst (dst + n) then 0 else s.mem x) ∧
      Modifies [.c, .b] s t := by
  induction n generalizing s dst fuel with
  | zero =>
    obtain ⟨fuel, rfl⟩ := Nat.exists_eq_succ_of_ne_zero hfuel.ne'
    have hz : (s.cmp .ecx 0).zf = true := zf_cmp_of_eq hecx
    refine ⟨s.cmp .ecx 0, loop_of_exit ?_, fun x => ?_, Modifies.cmp.mono (List.nil_subset _)⟩
    · rw [zeroRound]
      simp only [hz, if_true]
    · rw [mem_cmp, if_neg fun h => absurd h.2 (Nat.not_lt.2 h.1)]
  | succ n ih =>
    obtain ⟨fuel, rfl⟩ := Nat.exists_eq_succ_of_ne_zero (Nat.ne_zero_of_lt hfuel)
    obtain ⟨hdst, hend⟩ := hebx (Nat.succ_pos n)
    obtain ⟨t, ht, hmem, hecx', hebx', hm⟩ := zeroRound_spec (by omega) hdst
    have hptr : 0 < n → t.get .ebx = dst + 1 ∧ dst + 1 + n ≤ 2 ^ 32 := by
      intro hn
      rw [hebx', Nat.mod_eq_of_lt (by omega)]
      exact ⟨rfl, by omega⟩
    obtain ⟨u, hu, hmem', hm'⟩ := ih (by omega) hptr (Nat.lt_of_succ_lt_succ hfuel)
    refine ⟨u, (loop_of_again ht).trans hu, fun x => ?_, (hm.trans hm').mono (by simp)⟩
    rw [hmem', hmem, Memory.store_zero_apply]
    simp only [Set.mem_Ico]
    split_ifs
    all_goals first | rfl | omega

/-! ## The tables of the file -/

/-- The fields of an entry of the table of the segments. -/
structure ProgramHeader where
  type : ℕ
  offset : ℕ
  vaddr : ℕ
  filesz : ℕ
  memsz : ℕ
  deriving DecidableEq

/-- The entry at the address `a`. -/
def programHeader (m : Memory) (a : ℕ) : ProgramHeader :=
  ⟨m.load a 4, m.load (a + 4) 4, m.load (a + 8) 4, m.load (a + 16) 4, m.load (a + 20) 4⟩

/-- The `n` entries of `size` bytes from the address `a` on. -/
def programHeaders (m : Memory) (size : ℕ) : ℕ → ℕ → List ProgramHeader
  | _, 0 => []
  | a, n + 1 => programHeader m a :: programHeaders m size (a + size) n

namespace ProgramHeader

/-- The addresses to which the segment is to be loaded. -/
def dest (h : ProgramHeader) : Set ℕ :=
  {x | h.type = 1 ∧ h.vaddr ≤ x ∧ x < h.vaddr + h.memsz}

/-- The segment of the file `m₀` at `base` is loaded in `m`. -/
def Loaded (h : ProgramHeader) (m₀ : Memory) (base : ℕ) (m : Memory) : Prop :=
  h.type = 1 → (∀ i < h.filesz, m (h.vaddr + i) = m₀ (base + h.offset + i)) ∧
    ∀ i, h.filesz ≤ i → i < h.memsz → m (h.vaddr + i) = 0

/-- The segment has its place in memory, apart from the addresses `W`, and its part of
    the file, which takes the addresses from `base` to `stop`. -/
structure Fits (h : ProgramHeader) (base stop : ℕ) (W : Set ℕ) : Prop where
  filesz_le : h.type = 1 → h.filesz ≤ h.memsz
  end_le : h.type = 1 → h.vaddr + h.memsz ≤ 2 ^ 32
  source_le : h.type = 1 → 0 < h.filesz → base + h.offset + h.filesz ≤ stop
  disjoint : Disjoint h.dest (Set.Ico base stop ∪ W)

end ProgramHeader

theorem ProgramHeader.Loaded.congr {h : ProgramHeader} {m₀ m m' : Memory} {base : ℕ}
    (hl : h.Loaded m₀ base m) (hle : h.type = 1 → h.filesz ≤ h.memsz)
    (hm : ∀ x ∈ h.dest, m' x = m x) : h.Loaded m₀ base m' := by
  intro hh
  have hle' := hle hh
  have hm' : ∀ i < h.memsz, m' (h.vaddr + i) = m (h.vaddr + i) := fun i hi =>
    hm _ ⟨hh, Nat.le_add_right _ _, Nat.add_lt_add_left hi _⟩
  refine ⟨fun i hi => ?_, fun i hi hi' => ?_⟩
  · rw [hm' i (hi.trans_le hle'), (hl hh).1 i hi]
  · rw [hm' i hi', (hl hh).2 i hi hi']

theorem ProgramHeader.Fits.not_mem {h : ProgramHeader} {base stop : ℕ} {W : Set ℕ}
    (hfit : h.Fits base stop W) : ∀ x ∈ h.dest, x ∉ W :=
  fun _ hx hx' => Set.disjoint_left.1 hfit.disjoint hx (.inr hx')

/-- The memory of the file. -/
structure HasFile (m₀ : Memory) (base stop : ℕ) (m : Memory) : Prop where
  mem_eq : ∀ x ∈ Set.Ico base stop, m x = m₀ x

theorem HasFile.load_eq {m₀ m : Memory} {base stop a k : ℕ} (h : HasFile m₀ base stop m)
    (ha : base ≤ a) (hk : a + k ≤ stop) : m.load a k = m₀.load a k :=
  Memory.load_congr fun i hi => h.mem_eq _ ⟨by omega, by omega⟩

/-- The stack pointer has room for `depth` bytes in the stack, from `lo` to `hi`. -/
structure HasStack (lo hi depth : ℕ) (s : Flat) : Prop where
  le_sp : lo + depth ≤ s.get .esp
  sp_le : s.get .esp ≤ hi

namespace HasStack

variable {lo hi depth : ℕ}

theorem push {v : ℕ} (h : HasStack lo hi (depth + 4) s) :
    HasStack lo hi depth (s.push .esp 4 v) := by
  obtain ⟨hle, hle'⟩ := h
  have hsp : (s.push .esp 4 v).get .esp = s.get .esp - 4 := get_push_self (by omega)
  exact ⟨by omega, by omega⟩

theorem mono {depth' : ℕ} (h : HasStack lo hi depth s) (hd : depth' ≤ depth) :
    HasStack lo hi depth' s :=
  ⟨(Nat.add_le_add_left hd lo).trans h.le_sp, h.sp_le⟩

theorem of_sp_eq {t : Flat} (h : HasStack lo hi depth s) (hsp : t.get .esp = s.get .esp) :
    HasStack lo hi depth t :=
  ⟨hsp ▸ h.le_sp, hsp ▸ h.sp_le⟩

/-- Other addresses are outside of the room. -/
theorem apart {x : ℕ} (h : HasStack lo hi depth s) (hx : x ∉ Set.Ico lo hi) :
    x + depth < s.get .esp ∨ s.get .esp ≤ x := by
  obtain ⟨hle, hle'⟩ := h
  rw [Set.mem_Ico, not_and_or] at hx
  omega

/-- What is elsewhere is left by a routine. -/
theorem mem_eq {W : Set ℕ} {t : Flat} {x : ℕ} (h : HasStack lo hi depth s)
    (hl : Leaves .esp depth W s t) (hx : x ∉ W) (hx' : x ∉ Set.Ico lo hi) : t.mem x = s.mem x :=
  hl.mem_eq x hx (h.apart hx')

/-- A routine leaves the file. -/
theorem hasFile {m₀ : Memory} {base stop : ℕ} {W : Set ℕ} {t : Flat} (h : HasStack lo hi depth s)
    (hl : Leaves .esp depth W s t) (hf : HasFile m₀ base stop s.mem)
    (hW : Disjoint W (Set.Ico base stop)) (hd : Disjoint (Set.Ico base stop) (Set.Ico lo hi)) :
    HasFile m₀ base stop t.mem :=
  ⟨fun x hx => (h.mem_eq hl (fun hx' => Set.disjoint_left.1 hW hx' hx)
    (Set.disjoint_left.1 hd hx)).trans (hf.mem_eq x hx)⟩

/-- A push leaves the file. -/
theorem hasFile_push {m₀ : Memory} {base stop v : ℕ} (h : HasStack lo hi 4 s)
    (hf : HasFile m₀ base stop s.mem) (hd : Disjoint (Set.Ico base stop) (Set.Ico lo hi)) :
    HasFile m₀ base stop (s.push .esp 4 v).mem := by
  refine ⟨fun x hx => ?_⟩
  have hx' := h.apart (Set.disjoint_left.1 hd hx)
  have hle := h.le_sp
  rw [mem_push (by omega), ← hf.mem_eq x hx]
  exact Memory.write_of_not_mem (by omega)

/-- What is pushed leaves the registers and the file. -/
theorem pushed {m₀ : Memory} {base stop : ℕ} (h : HasStack lo hi (depth + 4) s)
    (hf : HasFile m₀ base stop s.mem) (hd : Disjoint (Set.Ico base stop) (Set.Ico lo hi)) (v : ℕ) :
    ∃ t, s.push .esp 4 v = t ∧ HasStack lo hi depth t ∧ HasFile m₀ base stop t.mem ∧
      Modifies [.sp] s t :=
  ⟨_, rfl, h.push, (h.mono (Nat.le_add_left 4 depth)).hasFile_push hf hd, .push⟩

/-- A register that is saved while a routine runs that writes elsewhere. -/
theorem saved {depth' : ℕ} {W : Set ℕ} {t : Flat} {r : Reg} (h : HasStack lo hi (depth + 4) s)
    (hl : Leaves .esp depth' W (s.push .esp 4 (s.get r)) t) (hW : ∀ x ∈ W, x ∉ Set.Ico lo hi)
    (hr : r.gpr ≠ .sp) (hp : r.part = .dword) :
    ∃ u, t.pop .esp 4 r = u ∧ Leaves .esp (depth' + 4) W s u ∧ u.get r = s.get r ∧ u.mem = t.mem ∧
      Modifies [.sp, r.gpr] t u := by
  have hroom : HasStack lo hi 4 s := h.mono (Nat.le_add_left 4 depth)
  refine hl.saved (Nat.le_of_add_left_le hroom.le_sp) (fun x hx => hroom.apart (hW x hx)) hr.symm ?_
  rw [hp]
  rfl

/-- A call of a routine that writes elsewhere. -/
theorem call {depth' v : ℕ} {W : Set ℕ} {t : Flat} {f : Flat → Option Flat}
    (h : HasStack lo hi (depth + 4) s) (hl : Leaves .esp depth' W (s.push .esp 4 v) t)
    (hf : f (s.push .esp 4 v) = some t) (hW : ∀ x ∈ W, x ∉ Set.Ico lo hi) :
    ∃ u, s.call .esp 4 v f = some u ∧ Leaves .esp (depth' + 4) W s u ∧ u.mem = t.mem ∧
      Modifies [.sp] t u := by
  have hroom : HasStack lo hi 4 s := h.mono (Nat.le_add_left 4 depth)
  have hn : 4 ≤ s.get .esp := Nat.le_of_add_left_le hroom.le_sp
  exact ⟨_, hl.call_eq hn (fun x hx => hroom.apart (hW x hx)) hf, hl.of_push hn, mem_set, .set⟩

end HasStack

/-! ## A segment -/

section Fetch

variable {g g' : Gpr}

theorem get_fetch_self (h : g ≠ g') :
    (fetch ⟨g, .dword⟩ ⟨g', .dword⟩ s).get ⟨g, .dword⟩ = s.mem.load (s.get ⟨g', .dword⟩) 4 := by
  rw [fetch, get_alu_of_ne h, get_set_self]
  exact Nat.mod_eq_of_lt (s.mem.load_lt _ 4)

theorem get_fetch_pointer (h : g' ≠ g) (hlt : s.get ⟨g', .dword⟩ + 4 < 2 ^ 32) :
    (fetch ⟨g, .dword⟩ ⟨g', .dword⟩ s).get ⟨g', .dword⟩ = s.get ⟨g', .dword⟩ + 4 := by
  have hget : (s.set ⟨g, .dword⟩ (s.mem.load (s.get ⟨g', .dword⟩) 4)).get ⟨g', .dword⟩ =
      s.get ⟨g', .dword⟩ := get_set_of_ne h
  rw [fetch, get_add (by rwa [hget]), hget]

theorem modifies_fetch {p p' : Part} : Modifies [g, g'] s (fetch ⟨g, p⟩ ⟨g', p'⟩ s) :=
  Modifies.set.trans .alu

@[simp] theorem mem_fetch {r p : Reg} : (fetch r p s).mem = s.mem := by
  rw [fetch, mem_alu, mem_set]

end Fetch

section Segments

variable {m₀ : Memory} {base stop lo hi a : ℕ}

theorem readSegmentFields_spec (hf : HasFile m₀ base stop s.mem) (hedx : s.get .edx = a + 4)
    (ha : base ≤ a) (hend : a + 24 ≤ stop) (hstop : stop ≤ 2 ^ 32) :
    (readSegmentFields s).get .eax = (s.get .eax + (programHeader m₀ a).offset) % 2 ^ 32 ∧
      (readSegmentFields s).get .ebx = (programHeader m₀ a).vaddr ∧
      (readSegmentFields s).get .ecx = (programHeader m₀ a).filesz ∧
      (readSegmentFields s).get .edx = a + 20 ∧ (readSegmentFields s).mem = s.mem ∧
      Modifies [.a, .b, .c, .d] s (readSegmentFields s) := by
  obtain ⟨s₁, hs₁⟩ : ∃ s₁, fetch .ebx .edx s = s₁ := ⟨_, rfl⟩
  have hm₁ : Modifies [.b, .d] s s₁ := hs₁ ▸ modifies_fetch
  have hmem₁ : s₁.mem = s.mem := by rw [← hs₁, mem_fetch]
  have hebx₁ : s₁.get .ebx = (programHeader m₀ a).offset := by
    rw [← hs₁, get_fetch_self (by decide), hedx]
    exact hf.load_eq (by omega) (by omega)
  have hedx₁ : s₁.get .edx = a + 8 := by
    rw [← hs₁, get_fetch_pointer (by decide) (by rw [hedx]; omega), hedx]
  obtain ⟨s₂, hs₂⟩ : ∃ s₂, s₁.add .eax (s₁.get .ebx) = s₂ := ⟨_, rfl⟩
  have hm₂ : Modifies [.a] s₁ s₂ := hs₂ ▸ .alu
  have hmem₂ : s₂.mem = s.mem := by rw [← hs₂, mem_alu, hmem₁]
  have heax₂ : s₂.get .eax = (s.get .eax + (programHeader m₀ a).offset) % 2 ^ 32 := by
    rw [← hs₂, get_alu_self, hebx₁, hm₁.get_eq (by decide)]
    rfl
  have hedx₂ : s₂.get .edx = a + 8 := by rw [hm₂.get_eq (by decide), hedx₁]
  obtain ⟨s₃, hs₃⟩ : ∃ s₃, fetch .ebx .edx s₂ = s₃ := ⟨_, rfl⟩
  have hm₃ : Modifies [.b, .d] s₂ s₃ := hs₃ ▸ modifies_fetch
  have hmem₃ : s₃.mem = s.mem := by rw [← hs₃, mem_fetch, hmem₂]
  have hebx₃ : s₃.get .ebx = (programHeader m₀ a).vaddr := by
    rw [← hs₃, get_fetch_self (by decide), hedx₂, hmem₂]
    exact hf.load_eq (by omega) (by omega)
  have hedx₃ : s₃.get .edx = a + 12 := by
    rw [← hs₃, get_fetch_pointer (by decide) (by rw [hedx₂]; omega), hedx₂]
  obtain ⟨s₄, hs₄⟩ : ∃ s₄, s₃.add .edx 4 = s₄ := ⟨_, rfl⟩
  have hm₄ : Modifies [.d] s₃ s₄ := hs₄ ▸ .alu
  have hmem₄ : s₄.mem = s.mem := by rw [← hs₄, mem_alu, hmem₃]
  have hedx₄ : s₄.get .edx = a + 16 := by
    have hlt : s₃.get .edx + 4 < 2 ^ 32 := by omega
    rw [← hs₄, get_add hlt, hedx₃]
  have hm₅ : Modifies [.d, .c, .d] s₃ (fetch .ecx .edx s₄) := hm₄.trans modifies_fetch
  have hfields : readSegmentFields s = fetch .ecx .edx s₄ := by
    rw [readSegmentFields, hs₁, hs₂, hs₃, hs₄]
  rw [hfields]
  refine ⟨?_, ?_, ?_, ?_, ?_, ((hm₁.trans hm₂).trans (hm₃.trans hm₅)).mono (by simp)⟩
  · rw [(hm₃.trans hm₅).get_eq (by decide), heax₂]
  · rw [hm₅.get_eq (by decide), hebx₃]
  · rw [get_fetch_self (by decide), hedx₄, hmem₄]
    exact hf.load_eq (by omega) (by omega)
  · rw [get_fetch_pointer (by decide) (by rw [hedx₄]; omega), hedx₄]
  · rw [mem_fetch, hmem₄]

/-- The call copies the part of the segment that is in the file. -/
theorem call_memcpy {h : ProgramHeader} (v : ℕ) (hr : HasStack lo hi 12 s)
    (hf : HasFile m₀ base stop s.mem) (hstop : stop ≤ 2 ^ 32) (hh : h.type = 1)
    (hd : Disjoint (Set.Ico base stop) (Set.Ico lo hi)) (hfit : h.Fits base stop (Set.Ico lo hi))
    (heax : s.get .eax = (base + h.offset) % 2 ^ 32) (hedx : s.get .edx = h.vaddr)
    (hecx : s.get .ecx = h.filesz) (hfuel : h.filesz < fuel) :
    ∃ t, s.call .esp 4 v (memcpy fuel) = some t ∧
      Leaves .esp 12 (Set.Ico h.vaddr (h.vaddr + h.filesz)) s t ∧
      (∀ i < h.filesz, t.mem (h.vaddr + i) = m₀ (base + h.offset + i)) ∧ Keeps s t := by
  have hle : h.filesz ≤ h.memsz := hfit.filesz_le hh
  have hend : h.vaddr + h.memsz ≤ 2 ^ 32 := hfit.end_le hh
  have hsrc : ∀ i < h.filesz, base + h.offset + i ∈ Set.Ico base stop := fun i hi => by
    have := hfit.source_le hh (by omega)
    exact ⟨by omega, by omega⟩
  have hdst : ∀ i < h.filesz, h.vaddr + i ∈ h.dest := fun i hi => ⟨hh, by omega, by omega⟩
  have hsrc' : ∀ x ∈ Set.Ico (base + h.offset) (base + h.offset + h.filesz),
      x ∈ Set.Ico base stop := by
    rintro x ⟨hx, hx'⟩
    have := hsrc (x - (base + h.offset)) (by omega)
    rwa [Nat.add_sub_cancel' hx] at this
  have hdst' : ∀ x ∈ Set.Ico h.vaddr (h.vaddr + h.filesz), x ∈ h.dest :=
    fun x hx => ⟨hh, hx.1, hx.2.trans_le (Nat.add_le_add_left hle _)⟩
  have hr₁ : HasStack lo hi 8 (s.push .esp 4 v) := hr.push
  have hm : Modifies [.sp] s (s.push .esp 4 v) := .push
  have hptr : 0 < h.filesz → (s.push .esp 4 v).get .eax = base + h.offset ∧
      (s.push .esp 4 v).get .edx = h.vaddr ∧ base + h.offset + h.filesz ≤ 2 ^ 32 ∧
      h.vaddr + h.filesz ≤ 2 ^ 32 := by
    intro hpos
    have := hfit.source_le hh hpos
    rw [hm.get_eq (by decide), hm.get_eq (by decide), heax, hedx, Nat.mod_eq_of_lt (by omega)]
    exact ⟨rfl, rfl, by omega, by omega⟩
  have hapart : ∀ x ∈ h.dest, x ∉ Set.Ico lo hi := hfit.not_mem
  obtain ⟨t, ht, hl, hbytes, hk⟩ := memcpy_spec (Nat.le_of_add_left_le hr₁.le_sp)
    (by rw [hm.get_eq (by decide), hecx]) hptr
    (fun i hi => ⟨hr₁.apart (Set.disjoint_left.1 hd (hsrc i hi)),
      hr₁.apart (hapart _ (hdst i hi))⟩)
    (hfit.disjoint.symm.mono (fun x hx => .inl (hsrc' x hx)) hdst') hfuel
  obtain ⟨u, hu, hlu, hmem, hmu⟩ := hr.call hl ht fun x hx => hapart x (hdst' x hx)
  refine ⟨u, hu, hlu, fun i hi => ?_,
    (Keeps.of_modifies hm (by decide)).trans (hk.trans (.of_modifies hmu (by decide)))⟩
  rw [hmem, hbytes i hi]
  exact ((hr.mono (by decide)).hasFile_push hf hd).mem_eq _ (hsrc i hi)

/-- The memory of the segment is cleared, and the registers `ebx` and `ecx` are restored. -/
theorem clearSegment_spec {dst n : ℕ} (hr : HasStack lo hi 8 s) (hf : HasFile m₀ base stop s.mem)
    (hd : Disjoint (Set.Ico base stop) (Set.Ico lo hi)) (ha : base ≤ a) (hend : a + 4 ≤ stop)
    (hedx : s.get .edx = a) (hebx : s.get .ebx = dst) (hn : m₀.load a 4 = n)
    (hdst : dst + n ≤ 2 ^ 32) (hdis : Disjoint (Set.Ico dst (dst + n)) (Set.Ico lo hi))
    (hfuel : n < fuel) :
    ∃ t, clearSegment fuel s = some t ∧ Leaves .esp 8 (Set.Ico dst (dst + n)) s t ∧
      (∀ x ∈ Set.Ico dst (dst + n), t.mem x = 0) ∧ t.get .ebx = s.get .ebx ∧
      t.get .ecx = s.get .ecx ∧ Modifies [.b, .c, .d, .sp] s t := by
  obtain ⟨s₂, hs₂, hr₂, hf₂, hm₂⟩ := hr.pushed hf hd (s.get .ecx)
  obtain ⟨s₃, hs₃⟩ : ∃ s₃, fetch .ecx .edx s₂ = s₃ := ⟨_, rfl⟩
  have hm₃ : Modifies [.c, .d] s₂ s₃ := hs₃ ▸ modifies_fetch
  have hecx₃ : s₃.get .ecx = n := by
    rw [← hs₃, get_fetch_self (by decide), hm₂.get_eq (by decide), hedx, ← hn]
    exact hf₂.load_eq ha hend
  have hebx₃ : s₃.get .ebx = s.get .ebx := (hm₂.trans hm₃).get_eq (by decide)
  have hr₃ : HasStack lo hi 4 s₃ := hr₂.of_sp_eq (hm₃.get_eq (by decide))
  obtain ⟨s₄, hs₄, -, -, hm₄⟩ :=
    hr₃.pushed (by rw [← hs₃, mem_fetch]; exact hf₂) hd (s₃.get .ebx)
  obtain ⟨t₄, ht₄, hzero, hm₄'⟩ := loop_zero (s := s₄) (by rw [hm₄.get_eq (by decide), hecx₃])
    (fun _ => ⟨by rw [hm₄.get_eq (by decide), hebx₃, hebx], hdst⟩) hfuel
  have hl₄ : Leaves .esp 0 (Set.Ico dst (dst + n)) s₄ t₄ :=
    ⟨hm₄'.get_eq (by decide), fun x hx _ => (hzero x).trans (if_neg hx)⟩
  -- The two pops give back what was pushed.
  have hapart : ∀ x ∈ Set.Ico dst (dst + n), x ∉ Set.Ico lo hi := fun x hx =>
    Set.disjoint_left.1 hdis hx
  subst hs₄
  obtain ⟨t₃, ht₃, hl₃, hebx₃', hmem₃', hm₃'⟩ := hr₃.saved hl₄ hapart (by decide) rfl
  have hl₂ : Leaves .esp 4 (Set.Ico dst (dst + n)) s₂ t₃ :=
    .trans (.of_mem_eq (hm₃.get_eq (by decide)) (by rw [← hs₃, mem_fetch])) hl₃
  subst hs₂
  obtain ⟨t, ht, hl, hecx', hmem', hm'⟩ := hr.saved hl₂ hapart (by decide) rfl
  have hm : Modifies [.sp, .c, .d, .sp, .c, .b, .sp, .b, .sp, .c] s t :=
    (hm₂.trans hm₃).trans ((hm₄.trans hm₄').trans (hm₃'.trans hm'))
  refine ⟨t, ?_, hl, fun x hx => ?_, ?_, hecx', hm.mono (by simp)⟩
  · rw [clearSegment]
    simp only [hs₃, ht₄, ht₃, ht, Option.bind_eq_bind, Option.bind_some]
  · rw [hmem', hmem₃', hzero, if_pos hx]
  · rw [hm'.get_eq (by decide), hebx₃', hebx₃]

theorem loadSegment_spec {ra : ℕ → ℕ} {h : ProgramHeader} (hr : HasStack lo hi 12 s)
    (hf : HasFile m₀ base stop s.mem) (hstop : stop ≤ 2 ^ 32)
    (hd : Disjoint (Set.Ico base stop) (Set.Ico lo hi)) (ha : base ≤ a) (hend : a + 24 ≤ stop)
    (hha : programHeader m₀ a = h) (hh : h.type = 1) (hfit : h.Fits base stop (Set.Ico lo hi))
    (heax : s.get .eax = base) (hedx : s.get .edx = a + 4) (hfuel : h.memsz < fuel) :
    ∃ t, loadSegment ra fuel s = some t ∧ Leaves .esp 12 h.dest s t ∧ h.Loaded m₀ base t.mem ∧
      Keeps s t := by
  have hdest : Set.Ico h.vaddr (h.vaddr + h.memsz) ⊆ h.dest := fun x hx => ⟨hh, hx⟩
  have hdis : Disjoint (Set.Ico h.vaddr (h.vaddr + h.memsz)) (Set.Ico base stop ∪ Set.Ico lo hi) :=
    hfit.disjoint.mono_left hdest
  obtain ⟨heax₁, hebx₁, hecx₁, hedx₁, hmem₁, hm₁⟩ :=
    readSegmentFields_spec hf hedx ha hend hstop
  rw [hha] at heax₁ hebx₁ hecx₁
  obtain ⟨s₁, hs₁⟩ : ∃ s₁, readSegmentFields s = s₁ := ⟨_, rfl⟩
  rw [hs₁] at heax₁ hebx₁ hecx₁ hedx₁ hmem₁ hm₁
  rw [heax] at heax₁
  have hsp₁ : s₁.get .esp = s.get .esp := hm₁.get_eq (by decide)
  have hr₁ : HasStack lo hi 12 s₁ := hr.of_sp_eq hsp₁
  have hf₁ : HasFile m₀ base stop s₁.mem := hmem₁ ▸ hf
  have hmemsz : m₀.load (a + 20) 4 = h.memsz := congrArg ProgramHeader.memsz hha
  obtain ⟨t₂, ht₂, hl₂, hzero, hebx₂', hecx₂, hm₂⟩ := clearSegment_spec (hr₁.mono (by decide)) hf₁
    hd (show base ≤ a + 20 by omega) (by omega) hedx₁ hebx₁ hmemsz (hfit.end_le hh)
    (hdis.mono_right Set.subset_union_right) hfuel
  obtain ⟨t₁, ht₁⟩ : ∃ t₁, t₂.set .edx (t₂.get .ebx) = t₁ := ⟨_, rfl⟩
  have hm₁' : Modifies [.d] t₂ t₁ := ht₁ ▸ .set
  have hmem₁' : t₁.mem = t₂.mem := by rw [← ht₁, mem_set]
  have hl₁ : Leaves .esp 8 (Set.Ico h.vaddr (h.vaddr + h.memsz)) s₁ t₁ :=
    hl₂.trans (.of_mem_eq (hm₁'.get_eq (by decide)) hmem₁')
  have hebx₂ : t₂.get .ebx = h.vaddr := hebx₂'.trans hebx₁
  have hedx₁' : t₁.get .edx = h.vaddr := by
    rw [← ht₁, get_set_self, hebx₂]
    exact Nat.mod_eq_of_lt (hebx₂ ▸ t₂.get_lt .ebx)
  have hecx₁' : t₁.get .ecx = h.filesz := by rw [hm₁'.get_eq (by decide), hecx₂, hecx₁]
  have hm : Modifies [.b, .c, .d, .sp, .d] s₁ t₁ := hm₂.trans hm₁'
  have hr₁' : HasStack lo hi 12 t₁ := hr₁.of_sp_eq hl₁.sp_eq
  obtain ⟨u, hu, hlu, hbytes, hku⟩ := call_memcpy (ra 730) hr₁'
    ((hr₁.mono (by decide)).hasFile hl₁ hf₁ (hdis.mono_right Set.subset_union_left) hd) hstop hh hd
    hfit ((hm.get_eq (by decide)).trans heax₁) hedx₁' hecx₁'
    ((hfit.filesz_le hh).trans_lt hfuel)
  have hsub : Set.Ico h.vaddr (h.vaddr + h.filesz) ⊆ h.dest := fun x hx =>
    hdest ⟨hx.1, hx.2.trans_le (Nat.add_le_add_left (hfit.filesz_le hh) _)⟩
  refine ⟨u, ?_, .trans (.of_mem_eq hsp₁ hmem₁)
    ((hl₁.mono (by decide) hdest).trans (hlu.mono le_rfl hsub)), fun _ => ⟨hbytes, ?_⟩,
    (Keeps.of_modifies (hm₁.trans hm) (by decide)).trans hku⟩
  · rw [loadSegment]
    simp only [hs₁, ht₂, ht₁, hu, Option.bind_eq_bind, Option.bind_some]
  · -- The copy does not reach these bytes, which have been cleared.
    intro i hi hi'
    have hx : h.vaddr + i ∈ Set.Ico h.vaddr (h.vaddr + h.memsz) := ⟨by omega, by omega⟩
    have hout := Set.disjoint_left.1 (hdis.mono_right Set.subset_union_right) hx
    rw [hr₁'.mem_eq hlu (fun hx => absurd hx.2 (by omega)) hout, hmem₁', hzero _ hx]

/-! ## The table of the segments -/

/-- An entry: its segment is loaded if it is to be, and `ebx` and `ecx` are restored. -/
theorem loadElfProgramTableEntry_spec (ra : ℕ → ℕ) {h : ProgramHeader} (hr : HasStack lo hi 20 s)
    (hf : HasFile m₀ base stop s.mem) (hstop : stop ≤ 2 ^ 32)
    (hd : Disjoint (Set.Ico base stop) (Set.Ico lo hi)) (ha : base ≤ a) (hend : a + 24 ≤ stop)
    (hha : programHeader m₀ a = h) (hfit : h.Fits base stop (Set.Ico lo hi))
    (heax : s.get .eax = base) (hedx : s.get .edx = a) (hfuel : h.memsz < fuel) :
    ∃ t, loadElfProgramTableEntry ra fuel s = some t ∧ Leaves .esp 20 h.dest s t ∧
      h.Loaded m₀ base t.mem ∧ t.get .ebx = s.get .ebx ∧ t.get .ecx = s.get .ecx ∧ Keeps s t := by
  obtain ⟨s₁, hs₁, hr₁, hf₁, hm₁⟩ := hr.pushed hf hd (s.get .ebx)
  obtain ⟨s₂, hs₂, hr₂, hf₂, hm₂⟩ := hr₁.pushed hf₁ hd (s₁.get .ecx)
  have hedx₂ : s₂.get .edx = a := by rw [(hm₁.trans hm₂).get_eq (by decide), hedx]
  obtain ⟨s₃, hs₃⟩ : ∃ s₃, (fetch .ebx .edx s₂).cmp .ebx 1 = s₃ := ⟨_, rfl⟩
  have hm₃ : Modifies [.b, .d] s₂ s₃ := hs₃ ▸ modifies_fetch.trans .cmp
  have hmem₃ : s₃.mem = s₂.mem := by rw [← hs₃, mem_cmp, mem_fetch]
  have hzf₃ : s₃.zf = decide (h.type = 1) := by
    have : (fetch .ebx .edx s₂).get .ebx = h.type := by
      rw [get_fetch_self (by decide), hedx₂, ← hha]
      exact hf₂.load_eq ha (by omega)
    rw [← hs₃, zf_cmp, this]
  have hm : Modifies [.sp, .sp, .b, .d] s s₃ := (hm₁.trans hm₂).trans hm₃
  have hl₃ : Leaves .esp 12 h.dest s₂ s₃ := .of_mem_eq (hm₃.get_eq (by decide)) hmem₃
  -- Behind the test, the segment is loaded or there is nothing to be loaded.
  obtain ⟨t₂, ht₂, hl₂, hload, hk₂⟩ : ∃ t₂,
      (if s₃.zf = false then some s₃ else loadSegment ra fuel s₃) = some t₂ ∧
        Leaves .esp 12 h.dest s₃ t₂ ∧ h.Loaded m₀ base t₂.mem ∧ Keeps s₃ t₂ := by
    by_cases hh : h.type = 1
    · have hz : s₃.zf = true := by rw [hzf₃, decide_eq_true hh]
      have hlt : s₂.get .edx + 4 < 2 ^ 32 := by omega
      rw [hz, if_neg (by decide)]
      refine loadSegment_spec (hr₂.of_sp_eq hl₃.sp_eq) (hmem₃ ▸ hf₂) hstop hd ha hend hha hh hfit
        ((hm.get_eq (by decide)).trans heax) ?_ hfuel
      rw [← hs₃, get_cmp, get_fetch_pointer (by decide) hlt, hedx₂]
    · have hz : s₃.zf = false := by rw [hzf₃, decide_eq_false hh]
      rw [if_pos hz]
      exact ⟨s₃, rfl, .refl s₃, fun hh' => absurd hh' hh, rfl, rfl⟩
  have hapart : ∀ x ∈ h.dest, x ∉ Set.Ico lo hi := hfit.not_mem
  have hl₂' : Leaves .esp 12 h.dest s₂ t₂ := hl₃.trans hl₂
  subst hs₂
  obtain ⟨t₁, ht₁, hl₁, hecx, hmem₁', hm₁'⟩ := hr₁.saved hl₂' hapart (by decide) rfl
  subst hs₁
  obtain ⟨t, ht, hl, hebx, hmem', hm'⟩ := hr.saved hl₁ hapart (by decide) rfl
  refine ⟨t, ?_, hl, ?_, hebx, ?_, (Keeps.of_modifies hm (by decide)).trans
    (hk₂.trans (.of_modifies (hm₁'.trans hm') (by decide)))⟩
  · rw [loadElfProgramTableEntry]
    simp only [hs₃, ht₂, ht₁, ht, Option.bind_eq_bind, Option.bind_some]
  · rw [hmem', hmem₁']
    exact hload
  · rw [hm'.get_eq (by decide), hecx, hm₁.get_eq (by decide)]

/-- A round: the next entry. -/
theorem loadKernelElfRound_spec (ra : ℕ → ℕ) {h : ProgramHeader} {size : ℕ}
    (hr : HasStack lo hi 28 s) (hhi : s.get .esp + 8 ≤ hi) (hlt : hi ≤ 2 ^ 32)
    (hf : HasFile m₀ base stop s.mem) (hstop : stop ≤ 2 ^ 32)
    (hd : Disjoint (Set.Ico base stop) (Set.Ico lo hi)) (ha : base ≤ a) (hend : a + 24 ≤ stop)
    (hha : programHeader m₀ a = h) (hfit : h.Fits base stop (Set.Ico lo hi))
    (hbase : s.mem.load (s.get .esp + 4) 4 = base) (hecx : s.get .ecx ≠ 0)
    (hebx : s.get .ebx = a) (heax : s.get .eax = size) (hfuel : h.memsz < fuel) :
    ∃ t, loadKernelElfRound ra fuel s = some (.inl t) ∧ Leaves .esp 28 h.dest s t ∧
      h.Loaded m₀ base t.mem ∧ t.get .ecx = s.get .ecx - 1 ∧ t.get .eax = size ∧
      t.get .ebx = (a + size) % 2 ^ 32 ∧ Keeps s t := by
  have hsp : lo + 28 ≤ s.get .esp := hr.le_sp
  obtain ⟨s₁, hs₁⟩ : ∃ s₁, s.cmp .ecx 0 = s₁ := ⟨_, rfl⟩
  have hm₁ : Modifies [] s s₁ := hs₁ ▸ .cmp
  have hget₁ : ∀ r : Reg, s₁.get r = s.get r := fun r => hm₁.get_eq List.not_mem_nil
  have hmem₁ : s₁.mem = s.mem := by rw [← hs₁, mem_cmp]
  have hr₁ : HasStack lo hi 28 s₁ := hr.of_sp_eq (hget₁ _)
  have hn₁ : 4 ≤ s₁.get .esp := by
    rw [hget₁]
    omega
  have hf₁ : HasFile m₀ base stop s₁.mem := hmem₁ ▸ hf
  obtain ⟨s₂, hs₂, hr₂, hf₂, hm₂'⟩ := hr₁.pushed hf₁ hd (s₁.get .eax)
  have hm₂ : Modifies [.sp] s s₂ := hm₁.trans hm₂'
  have hsp₂ : s₂.get .esp = s.get .esp - 4 := by rw [← hs₂, get_push_self hn₁, hget₁]
  -- The base is still below what has been pushed.
  have hload : s₂.mem.load ((s₂.get .esp + 8) % 2 ^ 32) 4 = base := by
    rw [hsp₂, Nat.mod_eq_of_lt (by omega), ← hbase, ← hs₂, mem_push hn₁, hmem₁, hget₁,
      show s.get .esp - 4 + 8 = s.get .esp + 4 by omega]
    exact Memory.load_store_of_disjoint (.inr (by omega))
  obtain ⟨s₃, hs₃⟩ : ∃ s₃, s₂.set .eax (s₂.mem.load ((s₂.get .esp + 8) % 2 ^ 32) 4) = s₃ :=
    ⟨_, rfl⟩
  obtain ⟨s₄, hs₄⟩ : ∃ s₄, s₃.set .edx (s₃.get .ebx) = s₄ := ⟨_, rfl⟩
  have hm₃ : Modifies [.a] s₂ s₃ := hs₃ ▸ .set
  have hm₄ : Modifies [.a, .d] s₂ s₄ := hm₃.trans (hs₄ ▸ .set)
  have hmem₄ : s₄.mem = s₂.mem := by rw [← hs₄, mem_set, ← hs₃, mem_set]
  have heax₄ : s₄.get .eax = base := by
    rw [← hs₄, get_set_of_ne (by decide), ← hs₃, get_set_self, hload]
    exact Nat.mod_eq_of_lt (show base < 2 ^ 32 by omega)
  have hedx₄ : s₄.get .edx = a := by
    have hebx₃ : s₃.get .ebx = a := by rw [(hm₂.trans hm₃).get_eq (by decide), hebx]
    rw [← hs₄, get_set_self, hebx₃]
    exact Nat.mod_eq_of_lt (hebx ▸ s.get_lt .ebx)
  have hl₄ : Leaves .esp 24 h.dest s₂ s₄ := .of_mem_eq (hm₄.get_eq (by decide)) hmem₄
  have hr₄ : HasStack lo hi 24 s₄ := hr₂.of_sp_eq hl₄.sp_eq
  have hf₄ : HasFile m₀ base stop s₄.mem := hmem₄ ▸ hf₂
  have hm₅ : Modifies [.sp] s₄ (s₄.push .esp 4 (ra 806)) := .push
  have hm : Modifies [.sp, .a, .d, .sp] s (s₄.push .esp 4 (ra 806)) := (hm₂.trans hm₄).trans hm₅
  obtain ⟨t₅, ht₅, hl₅, hloaded, hebx₅, hecx₅, hk₅⟩ := loadElfProgramTableEntry_spec ra
    (s := s₄.push .esp 4 (ra 806)) hr₄.push ((hr₄.mono (by decide)).hasFile_push hf₄ hd) hstop hd ha
    hend hha hfit (by rw [hm₅.get_eq (by decide), heax₄]) (by rw [hm₅.get_eq (by decide), hedx₄])
    hfuel
  have hapart : ∀ x ∈ h.dest, x ∉ Set.Ico lo hi := hfit.not_mem
  obtain ⟨t₄, ht₄, hl₄', hmem₄', hm₄'⟩ := hr₄.call hl₅ ht₅ hapart
  have hl₂ : Leaves .esp 24 h.dest s₂ t₄ := hl₄.trans hl₄'
  subst hs₂
  obtain ⟨t₁, ht₁, hl₁, heax₁, hmem₁', hm₁'⟩ := hr₁.saved hl₂ hapart (by decide) rfl
  have heax₁' : t₁.get .eax = size := by rw [heax₁, hget₁, heax]
  have hm' : Modifies [.sp, .sp, .a] t₅ t₁ := hm₄'.trans hm₁'
  obtain ⟨u, hu⟩ : ∃ u, t₁.add .ebx (t₁.get .eax) = u := ⟨_, rfl⟩
  have hmu : Modifies [.b] t₁ u := hu ▸ .alu
  have hmu' : Modifies [.c] u (u.dec .ecx) := .alu
  have hmem : (u.dec .ecx).mem = t₁.mem := by rw [mem_alu, ← hu, mem_alu]
  have hecx' : u.get .ecx = s.get .ecx := by
    rw [(hm'.trans hmu).get_eq (by decide), hecx₅, hm.get_eq (by decide)]
  refine ⟨u.dec .ecx, ?_, .trans (.of_mem_eq (hget₁ _) hmem₁)
    (hl₁.trans (.of_mem_eq ((hmu.trans hmu').get_eq (by decide)) hmem)), ?_, ?_, ?_, ?_,
    (Keeps.of_modifies hm (by decide)).trans
      (hk₅.trans (.of_modifies (hm'.trans (hmu.trans hmu')) (by decide)))⟩
  · have hz : s₁.zf = false := by
      rw [← hs₁]
      exact zf_cmp_of_ne hecx
    rw [loadKernelElfRound]
    simp only [hs₁, hz, Bool.false_eq_true, if_false, hs₃, hs₄, ht₄, ht₁, hu,
      Option.bind_eq_bind, Option.bind_some]
  · rw [hmem, hmem₁', hmem₄']
    exact hloaded
  · rw [get_dec (by rwa [hecx']), hecx']
  · rw [(hmu.trans hmu').get_eq (by decide), heax₁']
  · rw [hmu'.get_eq (by decide), ← hu, get_alu_self, heax₁', hm'.get_eq (by decide), hebx₅,
      hm.get_eq (by decide), hebx]
    rfl

/-- The addresses to which the segments are to be loaded. -/
def dests (hs : List ProgramHeader) : Set ℕ := {x | ∃ h ∈ hs, x ∈ h.dest}

theorem dests_cons {h : ProgramHeader} {hs : List ProgramHeader} :
    dests (h :: hs) = h.dest ∪ dests hs := by
  ext x
  simp only [dests, List.mem_cons, exists_eq_or_imp, Set.mem_union]
  rfl

theorem disjoint_dests {hs : List ProgramHeader} {W : Set ℕ} (h : ∀ h ∈ hs, Disjoint h.dest W) :
    Disjoint (dests hs) W := by
  rw [Set.disjoint_left]
  rintro x ⟨h', hh', hx⟩
  exact Set.disjoint_left.1 (h h' hh') hx

/-- By induction on the number of entries: the later ones leave what the first one
    loads. -/
theorem loop_loadKernelElf (ra : ℕ → ℕ) {size fuel' : ℕ} (hr : HasStack lo hi 28 s)
    (hhi : s.get .esp + 8 ≤ hi) (hlt : hi ≤ 2 ^ 32) (hf : HasFile m₀ base stop s.mem)
    (hstop : stop ≤ 2 ^ 32) (hd : Disjoint (Set.Ico base stop) (Set.Ico lo hi))
    (ha : 0 < n → base ≤ a) (hend : ∀ i < n, a + size * i + 24 ≤ stop)
    (hfit : ∀ h ∈ programHeaders m₀ size a n, h.Fits base stop (Set.Ico lo hi))
    (hdis : (programHeaders m₀ size a n).Pairwise fun h h' => Disjoint h.dest h'.dest)
    (hbase : s.mem.load (s.get .esp + 4) 4 = base) (hecx : s.get .ecx = n)
    (hebx : 0 < n → s.get .ebx = a) (heax : s.get .eax = size)
    (hfuel : ∀ h ∈ programHeaders m₀ size a n, h.memsz < fuel) (hfuel' : n < fuel') :
    ∃ t, loop (loadKernelElfRound ra fuel) fuel' s = some t ∧
      Leaves .esp 28 (dests (programHeaders m₀ size a n)) s t ∧
      (∀ h ∈ programHeaders m₀ size a n, h.Loaded m₀ base t.mem) ∧ Keeps s t := by
  induction n generalizing s a fuel' with
  | zero =>
    obtain ⟨fuel', rfl⟩ := Nat.exists_eq_succ_of_ne_zero hfuel'.ne'
    have hz : (s.cmp .ecx 0).zf = true := zf_cmp_of_eq hecx
    refine ⟨s.cmp .ecx 0, loop_of_exit ?_, .of_mem_eq get_cmp mem_cmp, ?_, get_cmp, get_cmp⟩
    · rw [loadKernelElfRound]
      simp only [hz, if_true]
    · exact fun h hh => absurd hh List.not_mem_nil
  | succ n ih =>
    obtain ⟨fuel', rfl⟩ := Nat.exists_eq_succ_of_ne_zero (Nat.ne_zero_of_lt hfuel')
    rw [programHeaders, List.pairwise_cons] at hdis
    rw [programHeaders] at hfit hfuel
    rw [programHeaders, dests_cons]
    have hfit₀ := hfit _ List.mem_cons_self
    have hend₀ : a + 24 ≤ stop := by
      have := hend 0 (Nat.succ_pos n)
      rwa [Nat.mul_zero] at this
    obtain ⟨t, ht, hl, hloaded, hecx', heax', hebx', hk⟩ := loadKernelElfRound_spec ra hr
      hhi hlt hf hstop hd (ha (Nat.succ_pos n)) hend₀ rfl hfit₀ hbase (by omega)
      (hebx (Nat.succ_pos n)) heax (hfuel _ List.mem_cons_self)
    have hend' : ∀ i < n, a + size + size * i + 24 ≤ stop := by
      intro i hi
      have := hend (i + 1) (by omega)
      rwa [Nat.mul_succ, Nat.add_comm (size * i), ← Nat.add_assoc] at this
    have hebx'' : 0 < n → t.get .ebx = a + size := by
      intro hn
      have := hend' 0 hn
      rw [hebx']
      exact Nat.mod_eq_of_lt (by omega)
    -- The base is in the stack, where nothing is loaded.
    have hbase' : t.mem.load (t.get .esp + 4) 4 = base := by
      rw [hl.sp_eq, ← hbase]
      refine Memory.load_congr fun i hi => hl.mem_eq _ (fun hx => ?_) (.inr (by omega))
      have hle := hr.le_sp
      exact Set.disjoint_left.1 hfit₀.disjoint hx (.inr ⟨by omega, by omega⟩)
    obtain ⟨u, hu, hl', hloaded', hk'⟩ := ih (hr.of_sp_eq hl.sp_eq) (by rw [hl.sp_eq]; exact hhi)
      (hr.hasFile hl hf (hfit₀.disjoint.mono_right Set.subset_union_left) hd)
      (fun _ => (ha (Nat.succ_pos n)).trans (Nat.le_add_right a size)) hend'
      (fun h hh => hfit h (List.mem_cons_of_mem _ hh)) hdis.2 hbase' (by omega) hebx'' heax'
      (fun h hh => hfuel h (List.mem_cons_of_mem _ hh)) (Nat.lt_of_succ_lt_succ hfuel')
    refine ⟨u, (loop_of_again ht).trans hu, (hl.mono le_rfl Set.subset_union_left).trans
      (hl'.mono le_rfl Set.subset_union_right), fun h hh => ?_, hk.trans hk'⟩
    rcases List.mem_cons.1 hh with rfl | hh'
    · refine hloaded.congr hfit₀.filesz_le fun x hx => ?_
      have hx' : x ∉ dests (programHeaders m₀ size (a + size) n) := fun hx' =>
        Set.disjoint_left.1 (disjoint_dests fun h hh => (hdis.1 h hh).symm) hx' hx
      exact (hr.of_sp_eq hl.sp_eq).mem_eq hl' hx' fun hx'' =>
        Set.disjoint_left.1 hfit₀.disjoint hx (.inr hx'')
    · exact hloaded' h hh'

/-! ## The file -/

/-- The entry point in the header of the file at `base`. -/
def elfEntry (m : Memory) (base : ℕ) : ℕ := m.load (base + 24) 4

/-- The offset of the table of the segments. -/
def elfPhoff (m : Memory) (base : ℕ) : ℕ := m.load (base + 28) 4

/-- The size of its entries. -/
def elfPhentsize (m : Memory) (base : ℕ) : ℕ := m.load (base + 42) 2

/-- The number of its entries. -/
def elfPhnum (m : Memory) (base : ℕ) : ℕ := m.load (base + 44) 2

/-- The table of the segments. -/
def elfSegments (m : Memory) (base : ℕ) : List ProgramHeader :=
  programHeaders m (elfPhentsize m base) (base + elfPhoff m base) (elfPhnum m base)

/-- The checks of the header. -/
structure ElfHeaderOk (m : Memory) (base : ℕ) : Prop where
  magic_eq : m.load base 4 = elfMagicNumber
  header4To7_eq : m.load (base + 4) 4 = elfHeader4To7
  header16To19_eq : m.load (base + 16) 4 = elfHeader16To19
  header20To23_eq : m.load (base + 20) 4 = elfHeader20To23

/-- The file has its header and its table between `base` and `stop`, and its segments
    have their places in memory, apart from each other, the file and `W`. -/
structure ElfFits (m : Memory) (base stop : ℕ) (W : Set ℕ) : Prop where
  header_le : base + 48 ≤ stop
  stop_le : stop ≤ 2 ^ 32
  disjoint : Disjoint (Set.Ico base stop) W
  table_le : ∀ i < elfPhnum m base,
    base + elfPhoff m base + elfPhentsize m base * i + 24 ≤ stop
  fits : ∀ h ∈ elfSegments m base, h.Fits base stop W
  pairwise : (elfSegments m base).Pairwise fun h h' => Disjoint h.dest h'.dest

theorem ElfFits.not_mem_dests {m : Memory} {W : Set ℕ} (he : ElfFits m base stop W) :
    ∀ x ∈ dests (elfSegments m base), x ∉ W := by
  rintro x ⟨h, hh, hx⟩
  exact (he.fits h hh).not_mem x hx

/-- A shift leaves the upper half of a double word. -/
theorem load_upper (m : Memory) (a : ℕ) : m.load a 4 / 2 ^ 16 % 2 ^ 32 = m.load (a + 2) 2 := by
  have hhalf : m.load a 4 / 2 ^ 16 = m.load (a + 2) 2 := m.load_add_div a 2 2
  have hlt : m.load (a + 2) 2 < 2 ^ 16 := m.load_lt (a + 2) 2
  rw [hhalf]
  exact Nat.mod_eq_of_lt (hlt.trans (by decide))

/-- A mask leaves the lower half of a double word. -/
theorem load_lower (m : Memory) (a : ℕ) :
    (m.load a 4 % 2 ^ 32 &&& 0xFFFF) % 2 ^ 32 = m.load a 2 := by
  have hmod : m.load a 4 % 2 ^ 32 = m.load a 4 := Nat.mod_eq_of_lt (m.load_lt a 4)
  have hand : m.load a 4 &&& 0xFFFF = m.load a 4 % 2 ^ 16 := Nat.and_two_pow_sub_one_eq_mod _ 16
  have hhalf : m.load a 4 % 2 ^ 16 = m.load a 2 := m.load_add_mod a 2 2
  have hlt : m.load a 2 < 2 ^ 16 := m.load_lt a 2
  rw [hmod, hand, hhalf]
  exact Nat.mod_eq_of_lt (hlt.trans (by decide))

theorem readTableFields_spec (hf : HasFile m₀ base stop s.mem) (hebx : s.get .ebx = base + 28)
    (hend : base + 48 ≤ stop) (hstop : stop ≤ 2 ^ 32) (hlt : s.get .esp + 4 < 2 ^ 32)
    (hbase : s.mem.load (s.get .esp + 4) 4 = base) :
    (readTableFields s).get .eax = elfPhentsize m₀ base ∧
      (readTableFields s).get .ebx = (base + elfPhoff m₀ base) % 2 ^ 32 ∧
      (readTableFields s).get .ecx = elfPhnum m₀ base ∧ (readTableFields s).mem = s.mem ∧
      Modifies [.a, .b, .c, .d] s (readTableFields s) := by
  obtain ⟨s₁, hs₁⟩ : ∃ s₁, (fetch .ecx .ebx s).add .ebx 8 = s₁ := ⟨_, rfl⟩
  have hm₁ : Modifies [.c, .b, .b] s s₁ := hs₁ ▸ modifies_fetch.trans .alu
  have hmem₁ : s₁.mem = s.mem := by rw [← hs₁, mem_alu, mem_fetch]
  have hecx₁ : s₁.get .ecx = elfPhoff m₀ base := by
    rw [← hs₁, get_alu_of_ne (by decide), get_fetch_self (by decide), hebx]
    exact hf.load_eq (by omega) (by omega)
  have hebx₁ : s₁.get .ebx = base + 40 := by
    have h : (fetch .ecx .ebx s).get .ebx = base + 32 := by
      rw [get_fetch_pointer (by decide) (by rw [hebx]; omega), hebx]
    have hlt' : (fetch .ecx .ebx s).get .ebx + 8 < 2 ^ 32 := by omega
    rw [← hs₁, get_add hlt', h]
  obtain ⟨s₂, hs₂⟩ : ∃ s₂, (fetch .eax .ebx s₁).shr .eax 16 = s₂ := ⟨_, rfl⟩
  have hm₂ : Modifies [.a, .b, .a] s₁ s₂ := hs₂ ▸ modifies_fetch.trans .alu
  have hmem₂ : s₂.mem = s.mem := by rw [← hs₂, mem_alu, mem_fetch, hmem₁]
  have hebx₂ : s₂.get .ebx = base + 44 := by
    rw [← hs₂, get_alu_of_ne (by decide),
      get_fetch_pointer (by decide) (by rw [hebx₁]; omega), hebx₁]
  have heax₂ : s₂.get .eax = elfPhentsize m₀ base := by
    rw [← hs₂, get_alu_self, get_fetch_self (by decide), hebx₁, hmem₁,
      hf.load_eq (by omega) (by omega), Alu.value]
    exact load_upper m₀ (base + 40)
  obtain ⟨s₃, hs₃⟩ : ∃ s₃, (s₂.set .edx (s₂.mem.load (s₂.get .ebx) 4)).land .edx 0xFFFF = s₃ :=
    ⟨_, rfl⟩
  have hm₃ : Modifies [.d, .d] s₂ s₃ := hs₃ ▸ Modifies.set.trans .alu
  have hmem₃ : s₃.mem = s.mem := by rw [← hs₃, mem_alu, mem_set, hmem₂]
  have hedx₃ : s₃.get .edx = elfPhnum m₀ base := by
    rw [← hs₃, get_alu_self, get_set_self, hebx₂, hmem₂, hf.load_eq (by omega) (by omega)]
    exact load_lower m₀ (base + 44)
  have hesp₃ : s₃.get .esp = s.get .esp := ((hm₁.trans hm₂).trans hm₃).get_eq (by decide)
  obtain ⟨s₄, hs₄⟩ : ∃ s₄, s₃.set .ebx (s₃.mem.load ((s₃.get .esp + 4) % 2 ^ 32) 4) = s₄ :=
    ⟨_, rfl⟩
  have hm₄ : Modifies [.b] s₃ s₄ := hs₄ ▸ .set
  have hebx₄ : s₄.get .ebx = base := by
    rw [← hs₄, get_set_self, hesp₃, hmem₃, Nat.mod_eq_of_lt hlt, hbase]
    exact Nat.mod_eq_of_lt (show base < 2 ^ 32 by omega)
  have hecx₄ : s₄.get .ecx = elfPhoff m₀ base := by
    rw [((hm₂.trans hm₃).trans hm₄).get_eq (by decide), hecx₁]
  obtain ⟨s₅, hs₅⟩ : ∃ s₅, s₄.add .ebx (s₄.get .ecx) = s₅ := ⟨_, rfl⟩
  have hm₅ : Modifies [.b, .b] s₃ s₅ := hm₄.trans (hs₅ ▸ .alu)
  have hm₆ : Modifies [.c] s₅ (s₅.set .ecx (s₅.get .edx)) := .set
  have hfields : readTableFields s = s₅.set .ecx (s₅.get .edx) := by
    rw [readTableFields]
    simp only [hs₁, hs₂, hs₃, hs₄, hs₅]
  rw [hfields]
  refine ⟨?_, ?_, ?_, ?_,
    ((hm₁.trans hm₂).trans (hm₃.trans (hm₅.trans hm₆))).mono (by simp)⟩
  · rw [(hm₃.trans (hm₅.trans hm₆)).get_eq (by decide), heax₂]
  · rw [hm₆.get_eq (by decide), ← hs₅, get_alu_self, hebx₄, hecx₄]
    rfl
  · rw [get_set_self, hm₅.get_eq (by decide), hedx₃]
    exact Nat.mod_eq_of_lt (hedx₃ ▸ s₃.get_lt .edx)
  · rw [mem_set, ← hs₅, mem_alu, ← hs₄, mem_set, hmem₃]

theorem memsz_lt {size : ℕ} {h : ProgramHeader} (hh : h ∈ programHeaders m₀ size a n) :
    h.memsz < 2 ^ 32 := by
  induction n generalizing a with
  | zero => exact absurd hh List.not_mem_nil
  | succ n ih =>
    rcases List.mem_cons.1 hh with rfl | hh'
    · exact m₀.load_lt (a + 20) 4
    · exact ih hh'

/-- Behind the header, all segments are loaded and the entry point is returned. -/
theorem loadSegments_spec (ra : ℕ → ℕ) (hr : HasStack lo hi 32 s) (hhi : s.get .esp + 4 ≤ hi)
    (hlt : hi ≤ 2 ^ 32) (hf : HasFile m₀ base stop s.mem)
    (he : ElfFits m₀ base stop (Set.Ico lo hi)) (hebx : s.get .ebx = base + 24)
    (hbase : s.mem.load (s.get .esp) 4 = base) (hfuel : 2 ^ 32 ≤ fuel) :
    ∃ t, loadSegments ra fuel s = some t ∧ Leaves .esp 32 (dests (elfSegments m₀ base)) s t ∧
      (∀ h ∈ elfSegments m₀ base, h.Loaded m₀ base t.mem) ∧ t.get .edx = elfEntry m₀ base ∧
      Keeps s t := by
  have hend : base + 48 ≤ stop := he.header_le
  have hstop : stop ≤ 2 ^ 32 := he.stop_le
  have hsp : lo + 32 ≤ s.get .esp := hr.le_sp
  obtain ⟨s₁, hs₁⟩ : ∃ s₁, fetch .edx .ebx s = s₁ := ⟨_, rfl⟩
  have hm₁ : Modifies [.d, .b] s s₁ := hs₁ ▸ modifies_fetch
  have hmem₁ : s₁.mem = s.mem := by rw [← hs₁, mem_fetch]
  have hedx₁ : s₁.get .edx = elfEntry m₀ base := by
    rw [← hs₁, get_fetch_self (by decide), hebx]
    exact hf.load_eq (by omega) (by omega)
  have hesp₁ : s₁.get .esp = s.get .esp := hm₁.get_eq (by decide)
  have hebx₁ : s₁.get .ebx = base + 28 := by
    rw [← hs₁, get_fetch_pointer (by decide) (by rw [hebx]; omega), hebx]
  have hr₁ : HasStack lo hi 32 s₁ := hr.of_sp_eq hesp₁
  have hn₁ : 4 ≤ s₁.get .esp := by omega
  have hf₁ : HasFile m₀ base stop s₁.mem := hmem₁ ▸ hf
  obtain ⟨s₂, hs₂, hr₂, hf₂, hm₂⟩ := hr₁.pushed hf₁ he.disjoint (s₁.get .edx)
  have hesp₂ : s₂.get .esp = s.get .esp - 4 := by rw [← hs₂, get_push_self hn₁, hesp₁]
  have hbase₂ : s₂.mem.load (s₂.get .esp + 4) 4 = base := by
    rw [hesp₂, ← hs₂, mem_push hn₁, hmem₁, hesp₁, ← hbase, Nat.sub_add_cancel (by omega)]
    exact Memory.load_store_of_disjoint (.inr (by omega))
  obtain ⟨heax₃, hebx₃, hecx₃, hmem₃, hm₃⟩ := readTableFields_spec hf₂
    (by rw [hm₂.get_eq (by decide), hebx₁]) hend hstop (show s₂.get .esp + 4 < 2 ^ 32 by omega)
    hbase₂
  obtain ⟨s₃, hs₃⟩ : ∃ s₃, readTableFields s₂ = s₃ := ⟨_, rfl⟩
  rw [hs₃] at heax₃ hebx₃ hecx₃ hmem₃ hm₃
  have hesp₃ : s₃.get .esp = s₂.get .esp := hm₃.get_eq (by decide)
  have hpos : 0 < elfPhnum m₀ base → base + elfPhoff m₀ base < 2 ^ 32 := fun hn => by
    have := he.table_le 0 hn
    omega
  have hnum : elfPhnum m₀ base < 2 ^ 16 := m₀.load_lt (base + 44) 2
  obtain ⟨t₃, ht₃, hl₃, hloaded, hkt₃⟩ := loop_loadKernelElf ra (s := s₃)
    (hr₂.of_sp_eq hesp₃) (show s₃.get .esp + 8 ≤ hi by omega) hlt (hmem₃ ▸ hf₂) hstop he.disjoint
    (fun _ => Nat.le_add_right base (elfPhoff m₀ base)) he.table_le he.fits he.pairwise
    (by rw [hesp₃, hmem₃, hbase₂]) hecx₃
    (fun hn => by rw [hebx₃, Nat.mod_eq_of_lt (hpos hn)]) heax₃
    (fun h hh => (memsz_lt hh).trans_le hfuel) (show elfPhnum m₀ base < fuel by omega)
  have hapart : ∀ x ∈ dests (elfSegments m₀ base), x ∉ Set.Ico lo hi := he.not_mem_dests
  have hl₂ : Leaves .esp 28 (dests (elfSegments m₀ base)) s₂ t₃ :=
    .trans (.of_mem_eq hesp₃ hmem₃) hl₃
  subst hs₂
  obtain ⟨t, ht, hl₁, hedx, hmem', hm'⟩ := hr₁.saved hl₂ hapart (by decide) rfl
  refine ⟨t, ?_, .trans (.of_mem_eq hesp₁ hmem₁) hl₁, ?_, hedx.trans hedx₁,
    (Keeps.of_modifies ((hm₁.trans hm₂).trans hm₃) (by decide)).trans
      (hkt₃.trans (.of_modifies hm' (by decide)))⟩
  · rw [loadSegments]
    simp only [hs₁, hs₃, ht₃, ht, Option.bind_eq_bind, Option.bind_some]
  · rw [hmem']
    exact hloaded

/-- A double word of the header is compared with its value. -/
theorem fetch_cmp_spec {v : ℕ} (hf : HasFile m₀ base stop s.mem) (hebx : s.get .ebx = a)
    (ha : base ≤ a) (hend : a + 4 ≤ stop) (hlt : a + 4 < 2 ^ 32) :
    ∃ t, (fetch .eax .ebx s).cmp .eax v = t ∧ t.zf = decide (m₀.load a 4 = v) ∧
      t.get .ebx = a + 4 ∧ t.mem = s.mem ∧ Modifies [.a, .b] s t := by
  refine ⟨_, rfl, ?_, ?_, ?_, modifies_fetch.trans .cmp⟩
  · rw [zf_cmp, get_fetch_self (by decide), hebx, hf.load_eq ha hend]
  · rw [get_cmp, get_fetch_pointer (by decide) (by rwa [hebx]), hebx]
  · rw [mem_cmp, mem_fetch]

/-- The registers that have been pushed are restored behind a routine that writes
    elsewhere, and nothing else is changed. -/
theorem lkeFinish_spec (depth : ℕ) {depth' : ℕ} {W : Set ℕ} {s₁ s₂ s₃ s₄ t : Flat}
    (hr : HasStack lo hi (depth + 16) s)
    (hs₁ : s.push .esp 4 (s.get .ebx) = s₁) (hs₂ : s₁.push .esp 4 (s₁.get .esi) = s₂)
    (hs₃ : s₂.push .esp 4 (s₂.get .edi) = s₃) (hs₄ : s₃.push .esp 4 (s₃.get .eax) = s₄)
    (hl : Leaves .esp depth' W s₄ t) (hW : ∀ x ∈ W, x ∉ Set.Ico lo hi) :
    ∃ u, lkeFinish t = u ∧ Leaves .esp (depth' + 16) W s u ∧ u.mem = t.mem ∧
      u.get .edx = t.get .edx ∧ u.get .ebx = s.get .ebx ∧ Keeps s u := by
  have hr₁ : HasStack lo hi (depth + 12) s₁ := hs₁ ▸ hr.push
  have hr₂ : HasStack lo hi (depth + 8) s₂ := hs₂ ▸ hr₁.push
  have hr₃ : HasStack lo hi (depth + 4) s₃ := hs₃ ▸ hr₂.push
  have hm₁ : Modifies [.sp] s s₁ := hs₁ ▸ .push
  have hm₂ : Modifies [.sp] s₁ s₂ := hs₂ ▸ .push
  subst hs₄
  obtain ⟨t₃, ht₃, hl₃, -, hmem₃, hm₃⟩ := hr₃.saved hl hW (by decide) rfl
  subst hs₃
  obtain ⟨t₂, ht₂, hl₂, hedi, hmem₂, hm₂'⟩ := hr₂.saved hl₃ hW (by decide) rfl
  subst hs₂
  obtain ⟨t₁, ht₁, hl₁, hesi, hmem₁, hm₁'⟩ := hr₁.saved hl₂ hW (by decide) rfl
  subst hs₁
  obtain ⟨u, hu, hl₀, hebx, hmem₀, hm₀⟩ := hr.saved hl₁ hW (by decide) rfl
  refine ⟨u, ?_, hl₀, ?_, ?_, hebx, ?_, ?_⟩
  · rw [lkeFinish, ht₃, ht₂, ht₁, hu]
  · rw [hmem₀, hmem₁, hmem₂, hmem₃]
  · exact ((hm₃.trans hm₂').trans (hm₁'.trans hm₀)).get_eq (by decide)
  · rw [hm₀.get_eq (by decide), hesi, hm₁.get_eq (by decide)]
  · rw [(hm₁'.trans hm₀).get_eq (by decide), hedi, (hm₁.trans hm₂).get_eq (by decide)]

/-- Either the checks of the header succeed, with the pointer at the entry point behind
    them, or one of them fails, and the registers are restored at once. -/
theorem loadKernelElf_cases (ra : ℕ → ℕ) (fuel : ℕ) {s₁ s₂ s₃ s₄ : Flat}
    (hs₁ : s.push .esp 4 (s.get .ebx) = s₁) (hs₂ : s₁.push .esp 4 (s₁.get .esi) = s₂)
    (hs₃ : s₂.push .esp 4 (s₂.get .edi) = s₃) (hs₄ : s₃.push .esp 4 (s₃.get .eax) = s₄)
    (hf : HasFile m₀ base stop s₄.mem) (hend : base + 24 ≤ stop) (hstop : stop < 2 ^ 32)
    (heax : s₄.get .eax = base) :
    ∃ s₅, s₅.mem = s₄.mem ∧ Modifies [.a, .b] s₄ s₅ ∧
      (ElfHeaderOk m₀ base ∧ s₅.get .ebx = base + 24 ∧
          loadKernelElf ra fuel s = (loadSegments ra fuel s₅).map lkeFinish ∨
        ¬ElfHeaderOk m₀ base ∧ loadKernelElf ra fuel s = some (lkeFinish s₅)) := by
  obtain ⟨u, hu⟩ : ∃ u, s₄.set .ebx (s₄.get .eax) = u := ⟨_, rfl⟩
  have hm : Modifies [.b] s₄ u := hu ▸ .set
  have hmem : u.mem = s₄.mem := by rw [← hu, mem_set]
  have hebx : u.get .ebx = base := by
    rw [← hu, get_set_self, heax]
    exact Nat.mod_eq_of_lt (show base < 2 ^ 32 by omega)
  obtain ⟨u₁, hu₁, hz₁, hebx₁, hmem₁, hm₁⟩ := fetch_cmp_spec (v := elfMagicNumber) (hmem ▸ hf)
    hebx le_rfl (show base + 4 ≤ stop by omega) (show base + 4 < 2 ^ 32 by omega)
  have hf₁ : HasFile m₀ base stop u₁.mem := by rwa [hmem₁, hmem]
  obtain ⟨u₂, hu₂, hz₂, hebx₂, hmem₂, hm₂⟩ := fetch_cmp_spec (v := elfHeader4To7) hf₁
    hebx₁ (Nat.le_add_right base 4) (show base + 4 + 4 ≤ stop by omega)
    (show base + 4 + 4 < 2 ^ 32 by omega)
  obtain ⟨u₃, hu₃⟩ : ∃ u₃, u₂.add .ebx 8 = u₃ := ⟨_, rfl⟩
  have hm₃ : Modifies [.b] u₂ u₃ := hu₃ ▸ .alu
  have hmem₃ : u₃.mem = u₂.mem := by rw [← hu₃, mem_alu]
  have hebx₃ : u₃.get .ebx = base + 16 := by
    have hlt : u₂.get .ebx + 8 < 2 ^ 32 := by omega
    rw [← hu₃, get_add hlt, hebx₂]
  have hf₃ : HasFile m₀ base stop u₃.mem := by rwa [hmem₃, hmem₂]
  obtain ⟨u₄, hu₄, hz₄, hebx₄, hmem₄, hm₄⟩ := fetch_cmp_spec (v := elfHeader16To19) hf₃
    hebx₃ (Nat.le_add_right base 16) (show base + 16 + 4 ≤ stop by omega)
    (show base + 16 + 4 < 2 ^ 32 by omega)
  have hf₄ : HasFile m₀ base stop u₄.mem := by rwa [hmem₄]
  obtain ⟨u₅, hu₅, hz₅, hebx₅, hmem₅, hm₅⟩ := fetch_cmp_spec (v := elfHeader20To23) hf₄
    hebx₄ (by omega) (show base + 16 + 4 + 4 ≤ stop by omega)
    (show base + 16 + 4 + 4 < 2 ^ 32 by omega)
  -- The memory and the other registers are the same behind each of the checks.
  have hmem₁' : u₁.mem = s₄.mem := hmem₁.trans hmem
  have hmem₂' : u₂.mem = s₄.mem := hmem₂.trans hmem₁'
  have hmem₄' : u₄.mem = s₄.mem := hmem₄.trans (hmem₃.trans hmem₂')
  have hm₁' : Modifies [.b, .a, .b] s₄ u₁ := hm.trans hm₁
  have hm₂' : Modifies [.b, .a, .b, .a, .b] s₄ u₂ := hm₁'.trans hm₂
  have hm₄' : Modifies [.b, .a, .b, .a, .b, .b, .a, .b] s₄ u₄ := hm₂'.trans (hm₃.trans hm₄)
  have hload : loadKernelElf ra fuel s =
      if u₁.zf = false then some (lkeFinish u₁)
      else if u₂.zf = false then some (lkeFinish u₂)
      else if u₄.zf = false then some (lkeFinish u₄)
      else if u₅.zf = false then some (lkeFinish u₅)
      else (loadSegments ra fuel u₅).map lkeFinish := by
    rw [loadKernelElf]
    simp only [hs₁, hs₂, hs₃, hs₄, hu, hu₁, hu₂, hu₃, hu₄, hu₅]
  by_cases h₁ : m₀.load base 4 = elfMagicNumber
  swap
  · refine ⟨u₁, hmem₁', hm₁'.mono (by simp), .inr ⟨fun hok => h₁ hok.magic_eq, ?_⟩⟩
    rw [hload, hz₁, if_pos (decide_eq_false h₁)]
  rw [hz₁, decide_eq_true h₁, if_neg (by decide)] at hload
  by_cases h₂ : m₀.load (base + 4) 4 = elfHeader4To7
  swap
  · refine ⟨u₂, hmem₂', hm₂'.mono (by simp), .inr ⟨fun hok => h₂ hok.header4To7_eq, ?_⟩⟩
    rw [hload, hz₂, if_pos (decide_eq_false h₂)]
  rw [hz₂, decide_eq_true h₂, if_neg (by decide)] at hload
  by_cases h₄ : m₀.load (base + 16) 4 = elfHeader16To19
  swap
  · refine ⟨u₄, hmem₄', hm₄'.mono (by simp), .inr ⟨fun hok => h₄ hok.header16To19_eq, ?_⟩⟩
    rw [hload, hz₄, if_pos (decide_eq_false h₄)]
  rw [hz₄, decide_eq_true h₄, if_neg (by decide)] at hload
  refine ⟨u₅, hmem₅.trans hmem₄', (hm₄'.trans hm₅).mono (by simp), ?_⟩
  by_cases h₅ : m₀.load (base + 20) 4 = elfHeader20To23
  · rw [hz₅, decide_eq_true h₅, if_neg (by decide)] at hload
    exact .inl ⟨⟨h₁, h₂, h₄, h₅⟩, hebx₅, hload⟩
  · refine .inr ⟨fun hok => h₅ hok.header20To23_eq, ?_⟩
    rw [hload, hz₅, if_pos (decide_eq_false h₅)]

/-- The segments of the file at `eax` are loaded, the entry point is returned in `edx`,
    and the registers `ebx`, `esi` and `edi` are restored. -/
theorem loadKernelElf_spec (ra : ℕ → ℕ) (hr : HasStack lo hi 48 s) (hlt : hi ≤ 2 ^ 32)
    (hf : HasFile m₀ base stop s.mem) (he : ElfFits m₀ base stop (Set.Ico lo hi))
    (hok : ElfHeaderOk m₀ base) (heax : s.get .eax = base) (hfuel : 2 ^ 32 ≤ fuel) :
    ∃ t, loadKernelElf ra fuel s = some t ∧ Leaves .esp 48 (dests (elfSegments m₀ base)) s t ∧
      (∀ h ∈ elfSegments m₀ base, h.Loaded m₀ base t.mem) ∧ t.get .edx = elfEntry m₀ base ∧
      t.get .ebx = s.get .ebx ∧ Keeps s t := by
  obtain ⟨s₁, hs₁, hr₁, hf₁, hm₁⟩ := hr.pushed hf he.disjoint (s.get .ebx)
  obtain ⟨s₂, hs₂, hr₂, hf₂, hm₂⟩ := hr₁.pushed hf₁ he.disjoint (s₁.get .esi)
  obtain ⟨s₃, hs₃, hr₃, hf₃, hm₃⟩ := hr₂.pushed hf₂ he.disjoint (s₂.get .edi)
  obtain ⟨s₄, hs₄, hr₄, hf₄, hm₄⟩ := hr₃.pushed hf₃ he.disjoint (s₃.get .eax)
  have heax₃ : s₃.get .eax = base := by
    rw [((hm₁.trans hm₂).trans hm₃).get_eq (by decide), heax]
  have hend : base + 48 ≤ stop := he.header_le
  have hstop : stop ≤ 2 ^ 32 := he.stop_le
  have hf₄' : HasFile m₀ base (base + 24) s₄.mem :=
    ⟨fun x hx => hf₄.mem_eq x ⟨hx.1, hx.2.trans_le (by omega)⟩⟩
  obtain ⟨s₅, hmem₅, hm₅, h⟩ := loadKernelElf_cases ra fuel hs₁ hs₂ hs₃ hs₄ hf₄' le_rfl (by omega)
    (by rw [hm₄.get_eq (by decide), heax₃])
  obtain ⟨-, hebx₅, hload⟩ := h.resolve_right fun h => h.1 hok
  have hn₃ : 4 ≤ s₃.get .esp := (Nat.le_add_left 4 (lo + 32)).trans hr₃.le_sp
  have hesp₅ : s₅.get .esp = s₄.get .esp := hm₅.get_eq (by decide)
  have hesp₄ : s₄.get .esp = s₃.get .esp - 4 := by rw [← hs₄, get_push_self hn₃]
  -- The base was pushed last.
  have hbase : s₅.mem.load (s₅.get .esp) 4 = base := by
    rw [hmem₅, hesp₅, hesp₄, ← hs₄, mem_push hn₃, Memory.load_store, heax₃]
    exact Nat.mod_eq_of_lt (heax ▸ s.get_lt .eax)
  have hhi : s₅.get .esp + 4 ≤ hi := by
    rw [hesp₅, hesp₄, Nat.sub_add_cancel hn₃]
    exact hr₃.sp_le
  obtain ⟨t₄, ht₄, hlt₄, hloaded, hedx, -⟩ := loadSegments_spec ra
    (hr₄.of_sp_eq hesp₅) hhi hlt (hmem₅ ▸ hf₄) he hebx₅ hbase hfuel
  have hl₄ : Leaves .esp 32 (dests (elfSegments m₀ base)) s₄ t₄ :=
    .trans (.of_mem_eq hesp₅ hmem₅) hlt₄
  obtain ⟨t, ht, hl, hmem, hedx', hebx, hk⟩ :=
    lkeFinish_spec 32 hr hs₁ hs₂ hs₃ hs₄ hl₄ he.not_mem_dests
  refine ⟨t, ?_, hl, hmem ▸ hloaded, hedx'.trans hedx, hebx, hk⟩
  rw [hload, ht₄, Option.map_some, ht]

end Segments

/-- The call behaves as the routine, and returns. -/
theorem loadKernelElf_call (ra : ℕ → ℕ) (v : ℕ) {stop lo hi : ℕ} (hr : HasStack lo hi 52 s)
    (hlt : hi ≤ 2 ^ 32) (he : ElfFits s.mem (s.get .eax) stop (Set.Ico lo hi))
    (hok : ElfHeaderOk s.mem (s.get .eax)) (hfuel : 2 ^ 32 ≤ fuel) :
    ∃ t, s.call .esp 4 v (loadKernelElf ra fuel) = some t ∧
      Leaves .esp 52 (dests (elfSegments s.mem (s.get .eax))) s t ∧
      (∀ h ∈ elfSegments s.mem (s.get .eax), h.Loaded s.mem (s.get .eax) t.mem) ∧
      t.get .edx = elfEntry s.mem (s.get .eax) ∧ t.get .ebx = s.get .ebx ∧ Keeps s t := by
  have hf : HasFile s.mem (s.get .eax) stop s.mem := ⟨fun _ _ => rfl⟩
  have hm : Modifies [.sp] s (s.push .esp 4 v) := .push
  obtain ⟨t, ht, hl, hloaded, hedx, hebx, hk⟩ := loadKernelElf_spec ra
    (s := s.push .esp 4 v) hr.push hlt ((hr.mono (by decide)).hasFile_push hf he.disjoint) he hok
    (hm.get_eq (by decide)) hfuel
  obtain ⟨u, hu, hlu, hmem, hmu⟩ := hr.call hl ht he.not_mem_dests
  refine ⟨u, hu, hlu, hmem ▸ hloaded, ?_, ?_,
    (Keeps.of_modifies hm (by decide)).trans (hk.trans (.of_modifies hmu (by decide)))⟩
  · rw [hmu.get_eq (by decide), hedx]
  · rw [hmu.get_eq (by decide), hebx, hm.get_eq (by decide)]

/-- The call loads the segments of the file at `eax` and returns its entry point, with
    the other registers as they were, and leaves the memory elsewhere but for 52 bytes of
    the stack. -/
theorem call_loadKernelElf {ra : ℕ → ℕ} {v stop lo hi : ℕ} (hr : HasStack lo hi 52 s)
    (hlt : hi ≤ 2 ^ 32) (he : ElfFits s.mem (s.get .eax) stop (Set.Ico lo hi))
    (hok : ElfHeaderOk s.mem (s.get .eax)) (hfuel : 2 ^ 32 ≤ fuel) :
    ∃ t, s.call .esp 4 v (loadKernelElf ra fuel) = some t ∧
      t.get .edx = elfEntry s.mem (s.get .eax) ∧ t.get .ebx = s.get .ebx ∧
      t.get .esi = s.get .esi ∧ t.get .edi = s.get .edi ∧ t.get .esp = s.get .esp ∧
      (∀ h ∈ elfSegments s.mem (s.get .eax), h.Loaded s.mem (s.get .eax) t.mem) ∧
      ∀ x ∉ dests (elfSegments s.mem (s.get .eax)), x + 52 < s.get .esp ∨ s.get .esp ≤ x →
        t.mem x = s.mem x := by
  obtain ⟨t, ht, hl, hloaded, hedx, hebx, hk⟩ := loadKernelElf_call ra v hr hlt he hok hfuel
  exact ⟨t, ht, hedx, hebx, hk.esi_eq, hk.edi_eq, hl.sp_eq, hloaded, hl.mem_eq⟩

/-- The bytes of a file with two entries, of which the second one is not to be loaded. -/
def sampleFile : List ℕ :=
  [0x7f, 0x45, 0x4c, 0x46, 1, 1, 1, 0, 0, 0, 0, 0, 0, 0, 0, 0, 2, 0, 3, 0, 1, 0, 0, 0,
    0, 0, 0x10, 0, 52, 0, 0, 0, 0, 0, 0, 0, 0, 0, 0, 0, 52, 0, 32, 0, 2, 0, 0, 0, 0, 0, 0, 0,
    1, 0, 0, 0, 116, 0, 0, 0, 0, 0, 0x10, 0, 0, 0, 0x10, 0, 2, 0, 0, 0, 4, 0, 0, 0, 5, 0, 0, 0,
    0, 0, 0, 0, 4, 0, 0, 0, 0, 0, 0, 0, 0, 0, 0, 0, 0, 0, 0, 0, 0, 0, 0, 0, 0, 0, 0, 0, 0, 0, 0, 0,
    0, 0, 0, 0, 0xfa, 0xf4]

/-- The machine with this file at `0x10000`. -/
def sampleFlat : Flat where
  regs := Function.update (Function.update (fun _ => 0) .a 0x10000) .sp 0x9000
  es := 0x10
  cf := false
  zf := false
  mem := fun x => BitVec.ofNat 8 (sampleFile.getD (x - 0x10000) 0)
  log := []

theorem elfSegments_sampleFlat : elfSegments sampleFlat.mem 0x10000 =
    [⟨1, 116, 0x100000, 2, 4⟩, ⟨4, 0, 0, 0, 0⟩] := by
  decide +kernel

theorem elfFits_sampleFlat : ElfFits sampleFlat.mem 0x10000 0x10100 (Set.Ico 0x8000 0x9000) where
  header_le := by decide
  stop_le := by decide
  disjoint := by
    rw [Set.disjoint_left]
    rintro x ⟨hx, -⟩ ⟨-, hx'⟩
    omega
  table_le := by decide +kernel
  fits := by
    rw [elfSegments_sampleFlat]
    intro h hh
    simp only [List.mem_cons, List.not_mem_nil, or_false] at hh
    rcases hh with rfl | rfl
    · refine ⟨by decide, by decide, by decide, ?_⟩
      rw [Set.disjoint_left]
      rintro x ⟨-, hx, -⟩ (⟨-, hx'⟩ | ⟨-, hx'⟩)
      all_goals exact absurd (Nat.lt_of_le_of_lt hx hx') (by decide)
    · refine ⟨by decide, by decide, by decide, ?_⟩
      rw [Set.disjoint_left]
      rintro x ⟨hx, -⟩
      exact absurd hx (by decide)
  pairwise := by
    rw [elfSegments_sampleFlat, List.pairwise_pair, Set.disjoint_left]
    rintro x - ⟨hx, -⟩
    exact absurd hx (by decide)

theorem call_loadKernelElf_sample :
    ∃ t, sampleFlat.call .esp 4 0x7e00 (loadKernelElf (fun _ => 0x7e00) (2 ^ 32)) = some t ∧
      t.get .edx = elfEntry sampleFlat.mem 0x10000 ∧ t.get .ebx = sampleFlat.get .ebx ∧
      t.get .esi = sampleFlat.get .esi ∧ t.get .edi = sampleFlat.get .edi ∧
      t.get .esp = sampleFlat.get .esp ∧
      (∀ h ∈ elfSegments sampleFlat.mem 0x10000, h.Loaded sampleFlat.mem 0x10000 t.mem) ∧
      ∀ x ∉ dests (elfSegments sampleFlat.mem 0x10000),
        x + 52 < sampleFlat.get .esp ∨ sampleFlat.get .esp ≤ x → t.mem x = sampleFlat.mem x :=
  call_loadKernelElf (s := sampleFlat) ⟨by decide, by decide⟩ (by decide) elfFits_sampleFlat
    ⟨by decide +kernel, by decide +kernel, by decide +kernel, by decide +kernel⟩ le_rfl

end KessokuOS.Bootloader
