import KessokuOS.Lib.Loop
import KessokuOS.Lib.X86

/-!
# Invariants of real mode

A condition on the states may be one that no change ends of the registers other than the
stack pointer (`Stable`). In real mode, the stack is used with `sp`, and the upper half of
`esp` is not changed. If such a change does not end the condition either (`RealStable`),
then it is kept by a push, a pop, and a call of a routine that keeps it
(`RealStable.call`). An example is that `esp` has no upper half (`realStable_narrow`),
which matters as soon as the stack is used with `esp`; others are conditions on `es`
(`realStable_es`) and on the log (`realStable_log`).
-/

namespace KessokuOS

namespace X86

namespace Cpu

variable {E : Type*}

/-- What no change ends of the registers besides the stack pointer, of the flags and of
    the memory. -/
structure Stable (I : Cpu E → Prop) : Prop where
  set {s : Cpu E} {r : Reg} (v : ℕ) (hr : r.gpr ≠ .sp) (hs : I s) : I (s.set r v)
  setFlags {s : Cpu E} (c z : Bool) (hs : I s) : I (s.setFlags c z)
  store {s : Cpu E} (a n v : ℕ) (hs : I s) : I (s.store a n v)

namespace Stable

variable {I : Cpu E → Prop} {s : Cpu E} {r : Reg}

theorem alu (hI : Stable I) (op : Alu) (v : ℕ) (hr : r.gpr ≠ .sp) (hs : I s) : I (s.alu op r v) :=
  hI.setFlags _ _ (hI.set _ hr hs)

theorem cmp (hI : Stable I) (v : ℕ) (hs : I s) : I (s.cmp r v) := hI.setFlags _ _ hs

theorem div (hI : Stable I) (v : ℕ) : Maintains I I fun s => s.div v := by
  intro s t h hs
  simp only [Cpu.div] at h
  split_ifs at h
  rw [← Option.some.inj h]
  exact hI.set _ (by decide) (hI.set _ (by decide) hs)

end Stable

/-- What, moreover, no change of `sp` ends. -/
structure RealStable (I : Cpu E → Prop) : Prop extends Stable I where
  setSp {s : Cpu E} (v : ℕ) (hs : I s) : I (s.set .sp v)

namespace RealStable

variable {I : Cpu E → Prop} {s : Cpu E} {r : Reg}

theorem push (hI : RealStable I) (n v : ℕ) (hs : I s) : I (s.push .sp n v) :=
  hI.store _ _ _ (hI.setSp _ hs)

theorem pop (hI : RealStable I) (n : ℕ) (hr : r.gpr ≠ .sp) (hs : I s) : I (s.pop .sp n r) :=
  hI.set _ hr (hI.setSp _ hs)

theorem call (hI : RealStable I) (n ra : ℕ) {f : Cpu E → Option (Cpu E)} (hf : Maintains I I f) :
    Maintains I I fun s => s.call .sp n ra f := by
  intro s t h hs
  obtain ⟨u, hu, h⟩ := Option.bind_eq_some_iff.1 h
  split_ifs at h
  rw [← Option.some.inj h]
  exact hI.setSp _ (hf hu (hI.push n ra hs))

end RealStable

/-- The register `esp` has no upper half. -/
def Narrow (s : Cpu E) : Prop := s.regs .sp < 2 ^ 16

theorem Narrow.get_esp {s : Cpu E} (hs : s.Narrow) : s.get .esp = s.get .sp := by
  have hs' : s.regs .sp < 2 ^ 16 := hs
  rw [get_word, Nat.mod_eq_of_lt]
  exact (Nat.mod_eq_of_lt (by omega : s.regs .sp < 2 ^ 32)).trans_lt hs'

theorem Narrow.setEs {s : Cpu E} (hs : s.Narrow) (v : ℕ) : (s.setEs v).Narrow := hs

theorem realStable_narrow : RealStable (Narrow (E := E)) where
  set {s r} v hr hs := by
    change Function.update s.regs r.gpr _ .sp < 2 ^ 16
    rwa [Function.update_of_ne hr.symm]
  setFlags _ _ hs := hs
  store _ _ _ hs := hs
  setSp {s} v hs := by
    have hs' : s.regs .sp < 2 ^ 16 := hs
    change Function.update s.regs .sp (Part.put (s.regs .sp) v .word) .sp < 2 ^ 16
    rw [Function.update_self, Part.put]
    omega

theorem realStable_es (P : ℕ → Prop) : RealStable fun s : Cpu E => P s.es :=
  ⟨⟨fun _ _ hs => hs, fun _ _ hs => hs, fun _ _ _ hs => hs⟩, fun _ hs => hs⟩

theorem realStable_log (P : List E → Prop) : RealStable fun s : Cpu E => P s.log :=
  ⟨⟨fun _ _ hs => hs, fun _ _ hs => hs, fun _ _ _ hs => hs⟩, fun _ hs => hs⟩

/-- The stack pointer itself is such that only what sets it changes it. -/
theorem stable_sp_eq (v : ℕ) : Stable fun s : Cpu E => s.regs .sp = v where
  set {s r} v hr hs := by
    change Function.update s.regs r.gpr _ .sp = _
    rwa [Function.update_of_ne hr.symm]
  setFlags _ _ hs := hs
  store _ _ _ hs := hs

end Cpu

end X86

end KessokuOS
