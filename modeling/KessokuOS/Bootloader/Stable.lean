import KessokuOS.Bootloader.A20
import KessokuOS.Bootloader.Loader
import KessokuOS.Bootloader.MemoryMap
import KessokuOS.Lib.RealMode

/-!
# What the stages keep

The routines of real mode keep what their instructions and the replies of the BIOS keep:
the reading of files (`maintains_loadStage1File`, `maintains_loadKernelFile`), the
loading of the memory map (`maintains_loadSystemMemoryInfo`) and the opening of the gate
(`maintains_enableA20`), as far as they end.
-/

namespace KessokuOS.Bootloader

open X86 X86.Cpu

/-! ## Reading files -/

section Files

variable {bios : ℕ → DiskReply} {I : Machine → Prop} (hI : RealStable I)
  (hbios : Maintains I I (int13 bios))

include hI

theorem maintains_incrementFloppyPosition {s : Machine} (hs : I s) :
    I (incrementFloppyPosition s) := by
  have h₁ : I ((s.set .al (s.mem currentSectorAddr).toNat).cmp .al sectorCount) :=
    hI.cmp _ (hI.set _ (by decide) hs)
  simp only [incrementFloppyPosition]
  split_ifs
  · exact hI.store _ _ _ (hI.alu _ _ (by decide) h₁)
  · exact hI.store _ _ _ (hI.alu _ _ (by decide) (hI.cmp _ (hI.set _ (by decide)
      (hI.store _ _ _ h₁))))
  · exact hI.store _ _ _ (hI.alu _ _ (by decide) (hI.cmp _ (hI.set _ (by decide)
      (hI.store _ _ _ (hI.cmp _ (hI.set _ (by decide) (hI.store _ _ _ h₁)))))))
  · exact hI.store _ _ _ (hI.cmp _ (hI.set _ (by decide)
      (hI.store _ _ _ (hI.cmp _ (hI.set _ (by decide) (hI.store _ _ _ h₁))))))

theorem maintains_setupRead {s : Machine} (hs : I s) : I (setupRead s) := by
  refine hI.setFlags _ _ (hI.alu _ _ (by decide) ?_)
  exact hI.set _ (by decide) (hI.set _ (by decide) (hI.set _ (by decide) (hI.set _ (by decide)
    (hI.set _ (by decide) hs))))

include hbios

theorem maintains_readNextFloppySector (ra : ℕ → ℕ) :
    Maintains I I (readNextFloppySector bios ra) := by
  intro s t h hs
  simp only [readNextFloppySector, Option.bind_eq_bind, Option.bind_eq_some_iff] at h
  obtain ⟨u, hu, v, hv, h⟩ := h
  have hu' : I u := hbios hu (maintains_setupRead hI (hI.push _ _ hs))
  have hv' : I v := by
    split_ifs at hv with hcf
    · rwa [← Option.some.inj hv]
    · refine hI.call 2 (ra 167) (fun s t h hs => ?_) hv hu'
      rw [← Option.some.inj h]
      exact maintains_incrementFloppyPosition hI hs
  rw [← Option.some.inj h]
  exact hI.pop 2 (by decide) hv'

theorem maintains_readNextFloppySectorRepeated (ra : ℕ → ℕ) (fuel : ℕ) :
    Maintains I I (readNextFloppySectorRepeated bios ra fuel) := by
  have hround : Maintains I (Sum.elim I I) (readNextFloppySectorRepeatedRound bios ra) := by
    intro s o h hs
    have hs' : I (s.cmp .cx 0) := hI.cmp _ hs
    rw [readNextFloppySectorRepeatedRound] at h
    split_ifs at h
    · rw [← Option.some.inj h]
      exact hs'
    · simp only [Option.bind_eq_bind, Option.bind_eq_some_iff] at h
      obtain ⟨u, hu, h⟩ := h
      have hu' : I (u.pop .sp 2 .bx) := hI.pop _ (by decide)
        (hI.call _ _ (maintains_readNextFloppySector hI hbios ra) hu (hI.push _ _ hs'))
      split_ifs at h
      · rw [← Option.some.inj h]
        exact hu'
      · rw [← Option.some.inj h]
        exact hI.alu _ _ (by decide) hu'
  intro s t h hs
  obtain ⟨u, hu, h⟩ := Option.bind_eq_some_iff.1 h
  rw [← Option.some.inj h]
  exact hI.pop _ (by decide) (hround.loop fuel hu (hI.set _ (by decide) (hI.push _ _ hs)))

theorem maintains_readSectors (ra : ℕ → ℕ) (fuel : ℕ) :
    Maintains I I (readSectors bios ra fuel) := by
  have hround : Maintains I (Sum.elim I I) (readSectorsRound bios ra fuel) := by
    intro s o h hs
    have hs' : I (s.cmp .cx 0) := hI.cmp _ hs
    rw [readSectorsRound] at h
    split_ifs at h
    · rw [← Option.some.inj h]
      exact hs'
    · simp only [Option.bind_eq_bind, Option.bind_eq_some_iff] at h
      obtain ⟨u, hu, h⟩ := h
      have hu' : I (((u.pop .sp 2 .bx).pop .sp 2 .ax).pop .sp 2 .cx) :=
        hI.pop _ (by decide) (hI.pop _ (by decide) (hI.pop _ (by decide)
          (hI.call _ _ (maintains_readNextFloppySectorRepeated hI hbios ra fuel) hu
            (hI.push _ _ (hI.push _ _ (hI.push _ _ hs'))))))
      split_ifs at h
      · rw [← Option.some.inj h]
        exact hu'
      · rw [← Option.some.inj h]
        exact hI.alu _ _ (by decide) (hI.alu _ _ (by decide) hu')
  intro s t h hs
  exact hround.loop fuel h (hI.set _ (by decide) hs)

theorem maintains_readSectorsMultiSegment (hes : ∀ {s}, I s → I (s.setEs (s.get .ax)))
    (ra : ℕ → ℕ) (fuel : ℕ) :
    Maintains I I (readSectorsMultiSegment bios ra fuel) := by
  have hread := maintains_readSectors hI hbios ra fuel
  have hround : Maintains I (Sum.elim I I) (readSectorsMultiSegmentRound bios ra fuel) := by
    intro s o h hs
    have hs' : I (s.cmp .cx sectorsPerSegment) := hI.cmp _ hs
    rw [readSectorsMultiSegmentRound] at h
    split_ifs at h <;> simp only [Option.bind_eq_bind, Option.bind_eq_some_iff] at h <;>
      obtain ⟨u, hu, h⟩ := h
    · rw [← Option.some.inj h]
      exact hI.call _ _ hread hu (hI.alu _ _ (by decide) (hI.set _ (by decide) hs'))
    · have hu' : I (u.pop .sp 2 .cx) := hI.pop _ (by decide) (hI.call _ _ hread hu
        (hI.push _ _ (hI.alu _ _ (by decide) (hI.set _ (by decide) hs'))))
      split_ifs at h
      · rw [← Option.some.inj h]
        exact hu'
      · rw [← Option.some.inj h]
        exact hI.alu _ _ (by decide) (hes (hI.alu _ _ (by decide)
          (hI.set _ (by decide) hu')))
  intro s t h hs
  exact hround.loop fuel h (hI.set _ (by decide) hs)

omit hbios in
theorem maintains_ustarReadFileSize (fuel : ℕ) : Maintains I I (ustarReadFileSize fuel) := by
  have hround : Maintains I (Sum.elim I I) ustarReadFileSizeRound := by
    intro s o h hs
    have hs' : I (s.cmp .cx 11) := hI.cmp _ hs
    rw [ustarReadFileSizeRound] at h
    split_ifs at h <;> rw [← Option.some.inj h]
    · exact hs'
    · exact hI.alu _ _ (by decide) (hI.alu _ _ (by decide) (hI.alu _ _ (by decide)
        (hI.alu _ _ (by decide) (hI.alu _ _ (by decide) (hI.set _ (by decide) hs')))))
  intro s t h hs
  exact hround.loop fuel h (hI.alu _ _ (by decide) (hI.alu _ _ (by decide)
    (hI.alu _ _ (by decide) hs)))

omit hbios in
theorem maintains_ceilDiv (d : ℕ) : Maintains I I (ceilDiv d) := by
  intro s t h hs
  simp only [ceilDiv, Option.bind_eq_bind, Option.bind_eq_some_iff] at h
  obtain ⟨u, hu, h⟩ := h
  have hu' : I (u.cmp .edx 0) := hI.cmp _ (hI.div _ hu (hI.set _ (by decide)
    (hI.alu _ _ (by decide) hs)))
  split_ifs at h <;> rw [← Option.some.inj h]
  · exact hu'
  · exact hI.alu _ _ (by decide) hu'

theorem maintains_loadStage1File (ra : ℕ → ℕ) (fuel : ℕ) :
    Maintains I I (loadStage1File bios ra fuel) := by
  intro s t h hs
  simp only [loadStage1File, Option.bind_eq_bind, Option.bind_eq_some_iff] at h
  obtain ⟨u, hu, v, hv, h⟩ := h
  have hu' : I u := hI.call _ _ (maintains_ustarReadFileSize hI fuel) hu (hI.set _ (by decide) hs)
  have hv' : I v := maintains_ceilDiv hI _ hv hu'
  exact hI.call _ _ (maintains_readSectors hI hbios ra fuel) h (hI.set _ (by decide) hv')

theorem maintains_loadKernelFile (hes : ∀ {s}, I s → I (s.setEs (s.get .ax))) (ra : ℕ → ℕ)
    (fuel : ℕ) :
    Maintains I I (loadKernelFile bios ra fuel) := by
  intro s t h hs
  simp only [loadKernelFile, Option.bind_eq_bind, Option.bind_eq_some_iff] at h
  obtain ⟨u, hu, v, hv, h⟩ := h
  have hu' : I u := hI.call _ _ (maintains_ustarReadFileSize hI fuel) hu (hI.alu _ _ (by decide) hs)
  have hv' : I v := maintains_ceilDiv hI _ hv hu'
  exact hI.call _ _ (maintains_readSectorsMultiSegment hI hbios hes ra fuel) h
    (hI.alu _ _ (by decide) hv')

end Files

/-! ## The memory map -/

section Map

variable {replies : List MapReply} {I : MapMachine → Prop} (hI : Stable I)
  (hbios : Maintains I I (int15 replies))

include hI

theorem maintains_incrementEntry {s : MapMachine} (hs : I s) : I (incrementEntry s) := by
  have hs' : ∀ {s : MapMachine} k, I s →
      I ((s.set .eax (s.mem.load (entryAddr s k) 4)).cmp .eax 0) :=
    fun k hs => hI.cmp _ (hI.set _ (by decide) hs)
  simp only [incrementEntry]
  split_ifs
  · exact hI.alu _ _ (by decide) (hs' 12 hs)
  · exact hI.alu _ _ (by decide) (hs' 8 (hs' 12 hs))
  · exact hs' 8 (hs' 12 hs)

theorem maintains_addNullEntry {s : MapMachine} (hs : I s) : I (addNullEntry s) :=
  hI.store _ _ _ (hI.store _ _ _ (hI.store _ _ _ (hI.store _ _ _ (hI.store _ _ _
    (hI.store _ _ _ hs)))))

include hbios

theorem maintains_loadSystemMemoryInfo {fuel buffer : ℕ} {s t : MapMachine}
    (h : loadSystemMemoryInfo replies fuel buffer s = some (.done t)) (hs : I s) : I t := by
  have hround : Maintains I (Sum.elim I I) (loadSystemMemoryInfoRound replies) := by
    intro s o h hs
    have hs' : I (s.cmp .ebx 0) := hI.cmp _ hs
    rw [loadSystemMemoryInfoRound] at h
    split_ifs at h
    · rw [← Option.some.inj h]
      exact hs'
    · simp only [Option.bind_eq_bind, Option.bind_eq_some_iff] at h
      obtain ⟨u, hu, h⟩ := h
      rw [← Option.some.inj h]
      exact hbios hu (hI.set _ (by decide) (hI.set _ (by decide)
        (maintains_incrementEntry hI hs')))
  rw [loadSystemMemoryInfo] at h
  simp only [Option.bind_eq_bind, Option.bind_eq_some_iff] at h
  obtain ⟨u, hu, h⟩ := h
  have hu' : I u := hbios hu (hI.setFlags _ _ (hI.set _ (by decide) (hI.set _ (by decide)
    (hI.set _ (by decide) (hI.alu _ _ (by decide) (hI.set _ (by decide) hs))))))
  split_ifs at h
  · obtain ⟨v, hv, h⟩ := Option.bind_eq_some_iff.1 h
    rw [← Outcome.done.inj (Option.some.inj h)]
    exact maintains_addNullEntry hI (hround.loop fuel hv hu')
  · exact absurd (Option.some.inj h) (by simp)

end Map

/-! ## The gate -/

namespace Pc

/-- The condition on the processor. -/
abbrev OnCpu {E : Type*} (I : Cpu E → Prop) (s : Pc E) : Prop := I s.cpu

section Gate

variable {E : Type*} {bios : A20Bios} {chip : I8042.Chip} {I : Cpu E → Prop} (hI : RealStable I)
  (hes : ∀ {s} v, I s → I (s.setEs v)) (hbios : ∀ s : Pc E, I s.cpu → I (s.int15A20 bios).cpu)

include hI

theorem maintains_call (ra : ℕ) {f : Pc E → Option (Pc E)}
    (hf : Maintains (OnCpu I) (OnCpu I) f) :
    Maintains (OnCpu I) (OnCpu I) fun s : Pc E => s.call ra f := by
  intro s t h hs
  obtain ⟨u, hu, h⟩ := Option.bind_eq_some_iff.1 h
  split_ifs at h
  rw [← Option.some.inj h]
  exact hI.setSp _ (hf hu (hI.push _ _ hs))

include hes in
theorem maintains_checkA20 : Maintains (OnCpu I) (OnCpu I) fun s : Pc E => some s.checkA20 := by
  intro s t h hs
  rw [← Option.some.inj h]
  have hcompare : ∀ {s : Pc E}, I s.cpu → I s.setupCompare.compareBytes.cpu := by
    intro s hs
    have hsetup : I s.setupCompare.cpu := hI.set _ (by decide) (hI.set _ (by decide)
      (hI.set _ (by decide) (hes _ (hI.alu _ _ (by decide) hs))))
    simp only [compareBytes]
    split_ifs
    · exact hI.set _ (by decide) (hI.store _ _ _ (hI.pop _ (by decide) (hI.store _ _ _
        (hI.pop _ (by decide) (hI.setFlags _ _ (hI.store _ _ _ (hI.store _ _ _ (hI.push _ _
          (hI.set _ (by decide) (hI.push _ _ (hI.set _ (by decide) hsetup)))))))))))
    · exact hI.set _ (by decide) (hI.set _ (by decide) (hI.store _ _ _ (hI.pop _ (by decide)
        (hI.store _ _ _ (hI.pop _ (by decide) (hI.setFlags _ _ (hI.store _ _ _ (hI.store _ _ _
          (hI.push _ _ (hI.set _ (by decide) (hI.push _ _ (hI.set _ (by decide) hsetup))))))))))))
  exact hI.setFlags _ _ (hI.setSp _ (hI.setSp _ (hes _
    (hI.setSp _ (hI.pop _ (by decide) (hI.pop _ (by decide) (hcompare
      (hI.push _ _ (hI.push _ _ (hI.push _ _ (hI.push _ _ (hI.push _ _ hs))))))))))))

theorem maintains_wait (chip : I8042.Chip) (mask : ℕ) (again : Bool) (fuel : ℕ) :
    Maintains (OnCpu I) (OnCpu I) (loop (waitRound (E := E) chip mask again) fuel) := by
  have hround : Maintains (OnCpu I) (Sum.elim (OnCpu I) (OnCpu I))
      (waitRound (E := E) chip mask again) := by
    intro s o h hs
    have hs' : I (((s.inStatus chip).exec fun c =>
        c.setFlags false (c.get .al &&& mask = 0)).cpu) := hI.setFlags _ _ (hI.set _ (by decide) hs)
    rw [waitRound] at h
    split_ifs at h <;> rw [← Option.some.inj h] <;> exact hs'
  exact hround.loop fuel

theorem maintains_readOutputPort (fuel : ℕ) (ra : ℕ → ℕ) :
    Maintains (OnCpu I) (OnCpu I) (readOutputPort (E := E) chip fuel ra) := by
  intro s t h hs
  simp only [readOutputPort, Option.bind_eq_bind, Option.bind_eq_some_iff] at h
  obtain ⟨u₁, hu₁, u₂, hu₂, u₃, hu₃, h⟩ := h
  have h₁ : I u₁.cpu := maintains_call hI _ (maintains_wait hI chip 2 false fuel) hu₁ hs
  have h₂ : I u₂.cpu := maintains_call hI _ (maintains_wait hI chip 2 false fuel) hu₂
    (hI.set _ (by decide) h₁)
  have h₃ : I u₃.cpu := maintains_call hI _ (maintains_wait hI chip 1 true fuel) hu₃
    (hI.set _ (by decide) h₂)
  rw [← Option.some.inj h]
  exact hI.set _ (by decide) h₃

include hes in
theorem maintains_enableA20KeyboardMethod (chip : I8042.Chip) (fuel : ℕ) (ra : ℕ → ℕ) :
    Maintains (OnCpu I) (OnCpu I) (enableA20KeyboardMethod (E := E) chip fuel ra) := by
  intro s t h hs
  have hwait := fun ra => maintains_call hI ra (maintains_wait hI chip 2 false fuel)
  simp only [enableA20KeyboardMethod, Option.bind_eq_bind, Option.bind_eq_some_iff] at h
  obtain ⟨u₁, hu₁, u₂, hu₂, u₃, hu₃, u₄, hu₄, u₅, hu₅, u₆, hu₆, h⟩ := h
  have h₁ : I u₁.cpu := maintains_readOutputPort hI fuel ra hu₁ hs
  have h₂ : I u₂.cpu := hwait _ hu₂ (hI.push _ _ h₁)
  have h₃ : I u₃.cpu := hwait _ hu₃ (hI.set _ (by decide) h₂)
  have h₄ : I u₄.cpu := hwait _ hu₄ (hI.alu _ _ (by decide) (hI.pop _ (by decide) h₃))
  have h₅ : I u₅.cpu := hwait _ hu₅ (hI.set _ (by decide) h₄)
  have h₆ : I u₆.cpu := maintains_call hI _ (maintains_checkA20 hI hes) hu₆ h₅
  rw [← Option.some.inj h]
  exact hI.cmp _ h₆

include hes hbios

theorem maintains_enableA20BiosMethod (ra : ℕ → ℕ) (fuel : ℕ) :
    Maintains (OnCpu I) (OnCpu I) (enableA20BiosMethod (E := E) bios chip ra fuel) := by
  intro s t h hs
  have hkeyboard := maintains_enableA20KeyboardMethod (E := E) hI hes chip fuel ra
  obtain ⟨s₁, hs₁⟩ : ∃ s₁, (s.exec (·.set .ax 0x2403)).int15A20 bios = s₁ := ⟨_, rfl⟩
  have h₁ : I s₁.cpu := hs₁ ▸ hbios _ (hI.set _ (by decide) hs)
  obtain ⟨s₂, hs₂⟩ : ∃ s₂, s₁.exec (·.cmp .ax 0) = s₂ := ⟨_, rfl⟩
  have h₂ : I s₂.cpu := hs₂ ▸ hI.cmp _ h₁
  obtain ⟨s₃, hs₃⟩ : ∃ s₃, (s₂.exec (·.set .ax 0x2401)).int15A20 bios = s₃ := ⟨_, rfl⟩
  have h₃ : I s₃.cpu := hs₃ ▸ hbios _ (hI.set _ (by decide) h₂)
  obtain ⟨s₄, hs₄⟩ : ∃ s₄, s₃.exec (·.cmp .ax 0) = s₄ := ⟨_, rfl⟩
  have h₄ : I s₄.cpu := hs₄ ▸ hI.cmp _ h₃
  rw [enableA20BiosMethod] at h
  simp only [hs₁, hs₂, hs₃, hs₄] at h
  split_ifs at h
  · exact hkeyboard h h₁
  · exact hkeyboard h h₂
  · exact hkeyboard h h₃
  · exact hkeyboard h h₄
  · obtain ⟨u, hu, h⟩ := Option.bind_eq_some_iff.1 h
    have h₅ : I (u.exec (·.cmp .ax 0)).cpu :=
      hI.cmp _ (maintains_call hI _ (maintains_checkA20 hI hes) hu h₄)
    split_ifs at h
    · exact hkeyboard h h₅
    · rw [← Option.some.inj h]
      exact hI.set _ (by decide) h₅

theorem maintains_enableA20 (ra : ℕ → ℕ) (fuel : ℕ) :
    Maintains (OnCpu I) (OnCpu I) (enableA20 (E := E) bios chip ra fuel) := by
  intro s t h hs
  obtain ⟨u, hu, h⟩ := Option.bind_eq_some_iff.1 h
  have h₁ : I (u.exec (·.cmp .ax 0)).cpu :=
    hI.cmp _ (maintains_call hI _ (maintains_checkA20 hI hes) hu hs)
  dsimp only at h
  split_ifs at h
  · rwa [← Option.some.inj h]
  · exact maintains_enableA20BiosMethod hI hes hbios ra fuel h h₁

end Gate

end Pc

end KessokuOS.Bootloader
