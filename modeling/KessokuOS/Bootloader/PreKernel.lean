import KessokuOS.Bootloader.Elf

/-!
# Entering the kernel

In protected mode, stage 1 loads the kernel from the file at `0x10000` and jumps to
the address in `edx`. If a check of the header fails, the loading is given up without
a result, and the jump is executed nevertheless:

* `preKernel_of_not_ok`: the jump goes to what was in `edx` before;
* `preKernel_of_file`: otherwise, it goes to the entry point of the loaded kernel;
* `entersChecked_iff`: hence only a checked kernel is entered exactly when the header
  passes the checks.
-/

namespace KessokuOS.Bootloader

open X86 X86.Cpu

abbrev kernelElfAddr : ℕ := 0x10000

/-- Lets the segment registers select the data segment, of which there is only `es`
    here, and `eax` point to the file. -/
def setupPreKernel (s : Flat) : Flat :=
  let s := s.set .ax 0x10
  let s := s.setEs (s.get .ax)
  s.set .eax kernelElfAddr

/-- Loads the kernel and jumps to the address in `edx`: that address, and the state at
    the jump. -/
def preKernel (ra : ℕ → ℕ) (fuel : ℕ) (s : Flat) : Option (ℕ × Flat) := do
  let s := setupPreKernel s
  let s ← s.call .esp 4 (ra 835) (loadKernelElf ra fuel)
  some (s.get .edx, s)

/-- The jump is executed only if the header of the file passes the checks. -/
def EntersChecked (ra : ℕ → ℕ) (fuel : ℕ) (s : Flat) : Prop :=
  ∀ target t, preKernel ra fuel s = some (target, t) → ElfHeaderOk s.mem kernelElfAddr

variable {lo hi stop : ℕ} {s : Flat}

@[simp] theorem mem_setupPreKernel (s : Flat) : (setupPreKernel s).mem = s.mem := by
  simp [setupPreKernel]

@[simp] theorem get_setupPreKernel_eax (s : Flat) :
    (setupPreKernel s).get .eax = kernelElfAddr := get_set_self

theorem modifies_setupPreKernel (s : Flat) : Modifies [.a] s (setupPreKernel s) := by
  intro r hr
  have hne : r.gpr ≠ .a := List.ne_of_not_mem_cons hr
  rw [setupPreKernel, get_set_of_ne hne, get_setEs, get_set_of_ne hne]

/-- If a check of the header fails, nothing is loaded, and the jump goes to the
    address that was in `edx`. -/
theorem preKernel_of_not_ok (ra : ℕ → ℕ) (fuel : ℕ) (hr : HasStack lo hi 20 s)
    (hd : Disjoint (Set.Ico kernelElfAddr (kernelElfAddr + 24)) (Set.Ico lo hi))
    (hok : ¬ElfHeaderOk s.mem kernelElfAddr) :
    ∃ t, preKernel ra fuel s = some (s.get .edx, t) ∧ Leaves .esp 20 ∅ s t := by
  obtain ⟨s₀, hs₀⟩ : ∃ s₀, setupPreKernel s = s₀ := ⟨_, rfl⟩
  have hm₀ : Modifies [.a] s s₀ := hs₀ ▸ modifies_setupPreKernel s
  have hmem₀ : s₀.mem = s.mem := by rw [← hs₀, mem_setupPreKernel]
  have heax₀ : s₀.get .eax = kernelElfAddr := by rw [← hs₀, get_setupPreKernel_eax]
  have hr₀ : HasStack lo hi 20 s₀ := hr.of_sp_eq (hm₀.get_eq (by decide))
  have hf₀ : HasFile s.mem kernelElfAddr (kernelElfAddr + 24) s₀.mem := ⟨fun _ _ => by rw [hmem₀]⟩
  -- The header is the same behind the call and the four registers that are saved.
  have hf : HasFile s.mem kernelElfAddr (kernelElfAddr + 24) (s₀.push .esp 4 (ra 835)).mem :=
    (hr₀.mono (by decide)).hasFile_push hf₀ hd
  obtain ⟨s₁, hs₁, hr₁, hf₁, hm₁⟩ := hr₀.push.pushed hf hd ((s₀.push .esp 4 (ra 835)).get .ebx)
  obtain ⟨s₂, hs₂, hr₂, hf₂, hm₂⟩ := hr₁.pushed hf₁ hd (s₁.get .esi)
  obtain ⟨s₃, hs₃, hr₃, hf₃, hm₃⟩ := hr₂.pushed hf₂ hd (s₂.get .edi)
  obtain ⟨s₄, hs₄, -, hf₄, hm₄⟩ := hr₃.pushed hf₃ hd (s₃.get .eax)
  have hm : Modifies [.sp, .sp, .sp, .sp, .sp] s₀ s₄ :=
    Modifies.push.trans (hm₁.trans (hm₂.trans (hm₃.trans hm₄)))
  obtain ⟨s₅, hmem₅, hm₅, h⟩ := loadKernelElf_cases ra fuel hs₁ hs₂ hs₃ hs₄ hf₄ le_rfl (by decide)
    (by rw [hm.get_eq (by decide), heax₀])
  obtain ⟨-, hload⟩ := h.resolve_left fun h => hok h.1
  have hl₅ : Leaves .esp 0 ∅ s₄ s₅ := .of_mem_eq (hm₅.get_eq (by decide)) hmem₅
  obtain ⟨t, ht, hl, -, hedx, -, -⟩ :=
    lkeFinish_spec 0 hr₀.push hs₁ hs₂ hs₃ hs₄ hl₅ fun x hx => hx.elim
  obtain ⟨u, hu, hlu, -, hmu⟩ := hr₀.call hl (hload.trans (congrArg some ht)) fun x hx => hx.elim
  refine ⟨u, ?_, .trans (.of_mem_eq (hm₀.get_eq (by decide)) hmem₀) hlu⟩
  have hedx' : u.get .edx = s.get .edx := by
    rw [hmu.get_eq (by decide), hedx, hm₅.get_eq (by decide), hm.get_eq (by decide),
      hm₀.get_eq (by decide)]
  rw [preKernel]
  simp only [hs₀, hu, hedx', Option.bind_eq_bind, Option.bind_some]

/-- If they succeed, the jump goes to the entry point of the file in memory, with its
    segments loaded. -/
theorem preKernel_of_file {m₀ : Memory} (ra : ℕ → ℕ) {fuel : ℕ} (hr : HasStack lo hi 52 s)
    (hlt : hi ≤ 2 ^ 32) (hf : HasFile m₀ kernelElfAddr stop s.mem)
    (he : ElfFits m₀ kernelElfAddr stop (Set.Ico lo hi))
    (hok : ElfHeaderOk m₀ kernelElfAddr) (hfuel : 2 ^ 32 ≤ fuel) :
    ∃ t, preKernel ra fuel s = some (elfEntry m₀ kernelElfAddr, t) ∧
      Leaves .esp 52 (dests (elfSegments m₀ kernelElfAddr)) s t ∧
      ∀ h ∈ elfSegments m₀ kernelElfAddr, h.Loaded m₀ kernelElfAddr t.mem := by
  obtain ⟨s₀, hs₀⟩ : ∃ s₀, setupPreKernel s = s₀ := ⟨_, rfl⟩
  have hm₀ : Modifies [.a] s s₀ := hs₀ ▸ modifies_setupPreKernel s
  have hmem₀ : s₀.mem = s.mem := by rw [← hs₀, mem_setupPreKernel]
  have heax₀ : s₀.get .eax = kernelElfAddr := by rw [← hs₀, get_setupPreKernel_eax]
  have hsp₀ : s₀.get .esp = s.get .esp := hm₀.get_eq (by decide)
  have hr₀ : HasStack lo hi 52 s₀ := hr.of_sp_eq hsp₀
  have hpush : Modifies [.sp] s₀ (s₀.push .esp 4 (ra 835)) := .push
  obtain ⟨t, ht, hl, hloaded, hedx, -, -⟩ := loadKernelElf_spec ra hr₀.push hlt
    ((hr₀.mono (by decide)).hasFile_push (hmem₀ ▸ hf) he.disjoint) he hok
    ((hpush.get_eq (by decide)).trans heax₀) hfuel
  obtain ⟨u, hu, hlu, hmem, hmu⟩ := hr₀.call hl ht he.not_mem_dests
  have hedx' : u.get .edx = elfEntry m₀ kernelElfAddr := (hmu.get_eq (by decide)).trans hedx
  refine ⟨u, ?_, .trans (.of_mem_eq hsp₀ hmem₀) hlu, hmem ▸ hloaded⟩
  rw [preKernel]
  simp only [hs₀, hu, hedx', Option.bind_eq_bind, Option.bind_some]

/-- Only a checked kernel is entered exactly when the header passes the checks, as the
    jump is executed whether it does or not. The stack has room apart from the header. -/
theorem entersChecked_iff {ra : ℕ → ℕ} {fuel : ℕ} (hr : HasStack lo hi 20 s)
    (hd : Disjoint (Set.Ico kernelElfAddr (kernelElfAddr + 24)) (Set.Ico lo hi)) :
    EntersChecked ra fuel s ↔ ElfHeaderOk s.mem kernelElfAddr := by
  constructor
  · intro h
    by_contra hok
    obtain ⟨t, ht, -⟩ := preKernel_of_not_ok ra fuel hr hd hok
    exact hok (h _ t ht)
  · exact fun hok _ _ _ => hok

theorem disjoint_sampleStack :
    Disjoint (Set.Ico kernelElfAddr (kernelElfAddr + 24)) (Set.Ico 0x8000 0x9000) := by
  rw [Set.disjoint_left]
  rintro x ⟨hx, -⟩ ⟨-, hx'⟩
  exact absurd (Nat.lt_of_le_of_lt hx hx') (by decide)

theorem entersChecked_iff_sample :
    EntersChecked (fun _ => 0x7e00) 10 sampleFlat ↔ ElfHeaderOk sampleFlat.mem kernelElfAddr :=
  entersChecked_iff ⟨by decide, by decide⟩ disjoint_sampleStack

/-- The machine without a file, and with an address in `edx`. -/
def blankFlat : Flat :=
  { sampleFlat with
    regs := Function.update sampleFlat.regs .d 0xdead
    mem := fun _ => 0 }

/-- Without a file, the jump goes to this address. -/
theorem not_entersChecked_blankFlat :
    (∃ t, preKernel (fun _ => 0x7e00) 10 blankFlat = some (0xdead, t)) ∧
      ¬EntersChecked (fun _ => 0x7e00) 10 blankFlat := by
  have hok : ¬ElfHeaderOk blankFlat.mem kernelElfAddr :=
    fun hok => absurd hok.magic_eq (by decide +kernel)
  obtain ⟨t, ht, -⟩ := preKernel_of_not_ok (fun _ => 0x7e00) 10 (s := blankFlat)
    ⟨by decide, by decide⟩ disjoint_sampleStack hok
  exact ⟨⟨t, ht⟩, fun h => hok (h _ t ht)⟩

end KessokuOS.Bootloader
