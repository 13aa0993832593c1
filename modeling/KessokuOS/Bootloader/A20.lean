import KessokuOS.Lib.I8042
import KessokuOS.Lib.Loop
import KessokuOS.Lib.X86

/-!
# The A20 line

As long as the gate of the A20 line is closed, bit `20` of an address is zero on the
bus. Stage 1 opens it before it enters protected mode: it asks the BIOS, and unless
that helps, it sets bit `1` of the output port of the keyboard controller.

* `checkA20_tells`: the check finds out whether the gate is open, and restores the two
  bytes it writes, the segments and the flags;
* `enableA20KeyboardMethod_writes`: the output port is set to the byte read, which may be
  one of the keyboard, and restarts the machine if its bit `0` is clear;
* `enableA20_opens`: where no such byte can be read (`Tame`), the gate is open in the end,
  with any BIOS and any controller that works at times.
-/

namespace KessokuOS.Bootloader

open X86 X86.Cpu

/-- The processor in real mode, with the data segment and the interrupt flag, and what
    opens the gate: the keyboard controller, and something else. -/
structure Pc (E : Type*) where
  cpu : Cpu E
  ds : ℕ
  interrupts : Bool
  keyboard : I8042.Port
  fast : Bool

namespace Pc

variable {E : Type*} (s : Pc E)

/-- Whether the gate is open. -/
def gate : Bool := s.fast || s.keyboard.state.outputPort.getLsbD 1

/-- An address on the bus. -/
def bus (a : ℕ) : ℕ := if s.gate then a else a - a / 2 ^ 20 % 2 * 2 ^ 20

def exec (f : Cpu E → Cpu E) : Pc E := { s with cpu := f s.cpu }

def push (v : ℕ) : Pc E := s.exec (·.push .sp 2 v)

/-- The word on the top of the stack. -/
def top : ℕ := s.cpu.mem.load (s.cpu.get .sp) 2

/-- Takes it from the stack. -/
def drop : Pc E := s.exec fun c => c.set .sp (c.get .sp + 2)

/-- A call of the routine `f`, returning to the address `ra`. -/
def call (ra : ℕ) (f : Pc E → Option (Pc E)) : Option (Pc E) :=
  (f (s.push ra)).bind fun s => if s.top = ra % 256 ^ 2 then some s.drop else none

/-- The word that `pushf` pushes. -/
def flags : ℕ := 2 + s.cpu.cf.toNat + 64 * s.cpu.zf.toNat + 512 * s.interrupts.toNat

def setFlags (v : ℕ) : Pc E :=
  { s with
    cpu := s.cpu.setFlags (v % 2 = 1) (v / 64 % 2 = 1)
    interrupts := v / 512 % 2 = 1 }

/-- The byte at `[seg:off]`. -/
def byteAt (seg off : ℕ) : Byte := s.cpu.mem (s.bus (16 * seg + off))

def setByteAt (seg off v : ℕ) : Pc E := s.exec (·.store (s.bus (16 * seg + off)) 1 v)

/-! ## Checking the line -/

/-- Lets `es:di` and `ds:si` point to two addresses that differ in bit `20` only. -/
def setupCompare : Pc E :=
  let s := { s with interrupts := false }
  let s := s.exec (·.clear .ax)
  let s := s.exec fun c => c.setEs (c.get .ax)
  let s := s.exec fun c => c.set .ax (2 ^ 16 - 1 - c.get .ax)
  let s := { s with ds := s.cpu.get .ax }
  let s := s.exec (·.set .di 0x0500)
  s.exec (·.set .si 0x0510)

/-- Sets `ax` to whether they are different bytes. -/
def compareBytes : Pc E :=
  let s := s.exec (·.set .al (s.byteAt s.cpu.es (s.cpu.get .di)).toNat)
  let s := s.push (s.cpu.get .ax)
  let s := s.exec (·.set .al (s.byteAt s.ds (s.cpu.get .si)).toNat)
  let s := s.push (s.cpu.get .ax)
  let s := s.setByteAt s.cpu.es (s.cpu.get .di) 0x00
  let s := s.setByteAt s.ds (s.cpu.get .si) 0xFF
  let v := (s.byteAt s.cpu.es (s.cpu.get .di)).toNat
  let s := s.exec (·.setFlags (v < 0xFF) (v = 0xFF))
  let s := s.exec (·.pop .sp 2 .ax)
  let s := s.setByteAt s.ds (s.cpu.get .si) (s.cpu.get .al)
  let s := s.exec (·.pop .sp 2 .ax)
  let s := s.setByteAt s.cpu.es (s.cpu.get .di) (s.cpu.get .al)
  let s := s.exec (·.set .ax 0)
  if s.cpu.zf = true then s else s.exec (·.set .ax 1)

/-- `check_a20`: sets `ax` to whether the line is set. -/
def checkA20 : Pc E :=
  let s := s.push s.flags
  let s := s.push s.ds
  let s := s.push s.cpu.es
  let s := s.push (s.cpu.get .di)
  let s := s.push (s.cpu.get .si)
  let s := s.setupCompare.compareBytes
  let s := s.exec (·.pop .sp 2 .si)
  let s := s.exec (·.pop .sp 2 .di)
  let s := s.drop.exec (·.setEs s.top)
  let s := { s.drop with ds := s.top }
  s.drop.setFlags s.top

section Compare

variable {s} {f : Cpu E → Cpu E}

@[simp] theorem cpu_exec : (s.exec f).cpu = f s.cpu := rfl

@[simp] theorem ds_exec : (s.exec f).ds = s.ds := rfl

@[simp] theorem gate_exec : (s.exec f).gate = s.gate := rfl

@[simp] theorem bus_exec (a : ℕ) : (s.exec f).bus a = s.bus a := rfl

@[simp] theorem bus_of_lt {a : ℕ} (h : a < 2 ^ 20) : s.bus a = a := by
  rw [bus, Nat.div_eq_of_lt h]
  simp

/-- The second address is the first one if the gate is closed. -/
theorem bus_second : s.bus (16 * 0xFFFF + 0x510) = if s.gate then 0x100500 else 0x500 := by
  rw [bus]
  cases s.gate <;> rfl

/-- The comparison of the bytes at the addresses `a` and `b`. -/
def compareAt (a b : ℕ) (c : Cpu E) : Cpu E :=
  let c := c.set .al (c.mem a).toNat
  let c := c.push .sp 2 (c.get .ax)
  let c := c.set .al (c.mem b).toNat
  let c := c.push .sp 2 (c.get .ax)
  let c := (c.store a 1 0x00).store b 1 0xFF
  let c := c.setFlags ((c.mem a).toNat < 0xFF) ((c.mem a).toNat = 0xFF)
  let c := c.pop .sp 2 .ax
  let c := c.store b 1 (c.get .al)
  let c := c.pop .sp 2 .ax
  let c := c.store a 1 (c.get .al)
  let c := c.set .ax 0
  if c.zf = true then c else c.set .ax 1

theorem compareBytes_eq : s.compareBytes =
    { s with
      cpu := compareAt (s.bus (16 * s.cpu.es + s.cpu.get .di))
        (s.bus (16 * s.ds + s.cpu.get .si)) s.cpu } := by
  simp only [compareBytes, compareAt, setByteAt, byteAt, push, bus_exec, ds_exec, cpu_exec, es_set,
    es_push, es_store, es_setFlags, es_pop, get_store, get_setFlags, ne_eq, reduceCtorEq,
    not_false_eq_true, get_set_of_ne, get_push_of_ne, get_pop_of_ne]
  split_ifs <;> rfl

/-- The comparison leaves the two bytes: the stack is apart from them. -/
theorem compareAt_spec {a b : ℕ} {c : Cpu E} (hsp : 4 ≤ c.get .sp)
    (ha : a + 4 < c.get .sp ∨ c.get .sp ≤ a) (hb : b + 4 < c.get .sp ∨ c.get .sp ≤ b) :
    Leaves .sp 4 ∅ c (compareAt a b c) ∧ Modifies [.a, .sp] c (compareAt a b c) ∧
      (compareAt a b c).log = c.log ∧ (compareAt a b c).es = c.es ∧
      (compareAt a b c).get .ax = if a = b then 0 else 1 := by
  generalize hc₁ : c.set .al (c.mem a).toNat = c₁
  generalize hc₂ : c₁.push .sp 2 (c₁.get .ax) = c₂
  generalize hc₃ : c₂.set .al (c₂.mem b).toNat = c₃
  generalize hc₄ : c₃.push .sp 2 (c₃.get .ax) = c₄
  generalize hc₅ : (c₄.store a 1 0x00).store b 1 0xFF = c₅
  generalize hc₆ : c₅.setFlags ((c₅.mem a).toNat < 0xFF) ((c₅.mem a).toNat = 0xFF) = c₆
  generalize hc₇ : c₆.pop .sp 2 .ax = c₇
  generalize hc₈ : c₇.store b 1 (c₇.get .al) = c₈
  generalize hc₉ : c₈.pop .sp 2 .ax = c₉
  generalize hc : c₉.store a 1 (c₉.get .al) = c'
  have hsp₁ : c₁.get .sp = c.get .sp := by rw [← hc₁, get_set_of_ne (by decide)]
  have hsp₂ : c₂.get .sp = c.get .sp - 2 := by rw [← hc₂, get_push_self (by omega), hsp₁]
  have hsp₃ : c₃.get .sp = c.get .sp - 2 := by rw [← hc₃, get_set_of_ne (by decide), hsp₂]
  have hb₂ : c₂.mem b = c.mem b := by
    rw [← hc₂, mem_push (by omega), hsp₁, ← hc₁, mem_set]
    exact Memory.write_of_not_mem (by omega)
  have hx : c₁.get .al = (c.mem a).toNat := by
    rw [← hc₁, get_set_self]
    exact Nat.mod_eq_of_lt (c.mem a).isLt
  have hy : c₃.get .al = (c.mem b).toNat := by
    rw [← hc₃, get_set_self, hb₂]
    exact Nat.mod_eq_of_lt (c.mem b).isLt
  -- The words are popped as they were pushed, since the writes are apart from the stack.
  have hl₆ : Leaves .sp 0 {a, b} c₄ c₆ := by
    refine ⟨by rw [← hc₆, ← hc₅]; simp, fun x hx _ => ?_⟩
    have hne : x ≠ a ∧ x ≠ b := by simpa using hx
    rw [← hc₆, mem_setFlags, ← hc₅, mem_store, mem_store, Memory.store,
      Memory.write_of_not_mem (by omega), Memory.store, Memory.write_of_not_mem (by omega)]
  rw [← hc₄] at hl₆
  have hal₇ : c₇.get .al = (c.mem b).toNat := by
    have := hl₆.get_pop (by omega) (by simpa [hsp₃] using ⟨by omega, by omega⟩) .ax
    rw [← hy, get_low, get_low, ← hc₇, this]
    exact congrArg (· % _) (c₃.get_mod_mod .ax)
  have hl₈ : Leaves .sp 2 {a, b} c₂ c₈ := by
    have h₇ := hl₆.pop (r := .ax) (by omega) (by decide)
    rw [hc₇] at h₇
    refine .trans (.of_mem_eq (hsp₃.trans hsp₂.symm) (by rw [← hc₃, mem_set])) (h₇.trans ?_)
    refine ⟨by rw [← hc₈, get_store], fun x hx _ => ?_⟩
    have hne : x ≠ a ∧ x ≠ b := by simpa using hx
    rw [← hc₈, mem_store, Memory.store, Memory.write_of_not_mem (by omega)]
  rw [← hc₂] at hl₈
  have hal₉ : c₉.get .al = (c.mem a).toNat := by
    have := hl₈.get_pop (by omega) (by simpa [hsp₁] using ⟨by omega, by omega⟩) .ax
    rw [← hx, get_low, get_low, ← hc₉, this]
    exact congrArg (· % _) (c₁.get_mod_mod .ax)
  have hl₉ : Leaves .sp 4 {a, b} c₁ c₉ := hc₉ ▸ hl₈.pop (r := .ax) (by omega) (by decide)
  -- In the end both bytes are there again.
  have hb₉ : c₉.mem b = c.mem b := by
    rw [← hc₉, mem_pop, ← hc₈, mem_store, Memory.store_one, hal₇, BitVec.ofNat_toNat,
      BitVec.setWidth_eq]
  have ha' : c'.mem a = c.mem a := by
    rw [← hc, mem_store, Memory.store_one, hal₉, BitVec.ofNat_toNat, BitVec.setWidth_eq]
  have hne' : ∀ x, x ≠ a → c'.mem x = c₉.mem x := by
    intro x hx
    rw [← hc, mem_store, Memory.store, Memory.write_of_not_mem (by omega)]
  have hl : Leaves .sp 4 ∅ c c' := by
    refine ⟨?_, fun x _ hx => ?_⟩
    · rw [← hc, get_store, hl₉.sp_eq, hsp₁]
    · by_cases hxa : x = a
      · rw [hxa, ha']
      rw [hne' x hxa]
      by_cases hxb : x = b
      · rw [hxb, hb₉]
      rw [hl₉.mem_eq x (by simp [hxa, hxb]) (by omega), ← hc₁, mem_set]
  have hz : c'.zf = decide (a = b) := by
    have h₅ : c₅.mem a = if a = b then 0xFF else 0 := by
      rw [← hc₅, mem_store, mem_store]
      by_cases hab : a = b
      · rw [if_pos hab, hab, Memory.store_one]
        rfl
      · rw [if_neg hab, Memory.store, Memory.write_of_not_mem (by omega), Memory.store_one]
        rfl
    rw [← hc, zf_store, ← hc₉, zf_pop, ← hc₈, zf_store, ← hc₇, zf_pop, ← hc₆, zf_setFlags, h₅]
    by_cases hab : a = b <;> simp [hab]
  have hm : Modifies [.a, .sp] c c' := by
    intro r hr
    have ha : r.gpr ≠ .a := List.ne_of_not_mem_cons hr
    have hs : r.gpr ≠ .sp := List.ne_of_not_mem_cons (List.not_mem_of_not_mem_cons hr)
    simp [← hc, ← hc₉, ← hc₈, ← hc₇, ← hc₆, ← hc₅, ← hc₄, ← hc₃, ← hc₂, ← hc₁, ha, hs]
  have hlog : c'.log = c.log ∧ c'.es = c.es := by
    simp [← hc, ← hc₉, ← hc₈, ← hc₇, ← hc₆, ← hc₅, ← hc₄, ← hc₃, ← hc₂, ← hc₁]
  have heq : compareAt a b c = if a = b then c'.set .ax 0 else (c'.set .ax 0).set .ax 1 := by
    simp only [compareAt, hc₁, hc₂, hc₃, hc₄, hc₅, hc₆, hc₇, hc₈, hc₉, hc, zf_set, hz,
      decide_eq_true_eq]
  have hl₀ : Leaves .sp 4 ∅ c' (c'.set .ax 0) :=
    .of_mem_eq (get_set_of_ne (by decide)) mem_set
  have hl₁ : Leaves .sp 4 ∅ (c'.set .ax 0) ((c'.set .ax 0).set .ax 1) :=
    .of_mem_eq (get_set_of_ne (by decide)) mem_set
  rw [heq]
  split_ifs
  · exact ⟨hl.trans hl₀, (hm.trans .set).mono (by decide), by rw [log_set, hlog.1],
      by rw [es_set, hlog.2], by simp⟩
  · exact ⟨(hl.trans hl₀).trans hl₁, ((hm.trans .set).trans .set).mono (by decide),
      by rw [log_set, log_set, hlog.1], by rw [es_set, es_set, hlog.2], by simp [Part.bits]⟩

/-- Besides the registers, the flags and what opens the gate, nothing but `depth` bytes of
    the stack is changed. -/
structure Restores (depth : ℕ) (s t : Pc E) : Prop where
  leaves : Leaves .sp depth ∅ s.cpu t.cpu
  es_eq : t.cpu.es = s.cpu.es
  ds_eq : t.ds = s.ds
  interrupts_eq : t.interrupts = s.interrupts
  log_eq : t.cpu.log = s.cpu.log

/-- The stack is above the byte `0x500`, with room for `depth` bytes. -/
def HasRoom (depth : ℕ) (s : Pc E) : Prop := 0x500 + depth < s.cpu.get .sp

/-- Where the two pointers point to, and what the setup leaves. -/
theorem setupCompare_eq : ∃ c : Cpu E,
    s.setupCompare = { s with cpu := c, ds := 0xFFFF, interrupts := false } ∧
      c.mem = s.cpu.mem ∧ c.es = 0 ∧ c.get .di = 0x500 ∧ c.get .si = 0x510 ∧ c.log = s.cpu.log ∧
      Modifies [.a, .di, .si] s.cpu c := by
  refine ⟨s.setupCompare.cpu, by simp [setupCompare, exec, Part.bits], ?_⟩
  refine ⟨by simp [setupCompare], by simp [setupCompare], by simp [setupCompare, Part.bits],
    by simp [setupCompare, Part.bits], by simp [setupCompare], fun r hr => ?_⟩
  have ha : r.gpr ≠ .a := List.ne_of_not_mem_cons hr
  have hdi : r.gpr ≠ .di := List.ne_of_not_mem_cons (List.not_mem_of_not_mem_cons hr)
  have hsi : r.gpr ≠ .si := fun h => hr (by simp [h])
  simp [setupCompare, ha, hdi, hsi]

/-- The comparison is that of the byte `0x500` and the one `1` MiB above, which is the same
    byte if the gate is closed. -/
theorem setupCompare_compareBytes_spec (hr : s.HasRoom 4) : ∃ c : Cpu E,
    s.setupCompare.compareBytes = { s with cpu := c, ds := 0xFFFF, interrupts := false } ∧
      Leaves .sp 4 ∅ s.cpu c ∧ Modifies [.a, .di, .si, .sp] s.cpu c ∧ c.log = s.cpu.log ∧
      c.get .ax = s.gate.toNat := by
  have hsp : 0x500 + 4 < s.cpu.get .sp := hr
  obtain ⟨c, hc, hmem, hes, hdi, hsi, hlog, hm⟩ := s.setupCompare_eq
  have hsp' : c.get .sp = s.cpu.get .sp := hm.get_eq (by decide)
  have hlt : c.get .sp < 2 ^ 16 := c.get_lt .sp
  have ha : s.bus (16 * c.es + c.get .di) = 0x500 := by
    rw [hes, hdi]
    exact bus_of_lt (by decide)
  have hb : s.bus (16 * 0xFFFF + c.get .si) = if s.gate then 0x100500 else 0x500 := by
    rw [hsi, bus_second]
  obtain ⟨hl, hm', hlog', -, hax⟩ := compareAt_spec (c := c) (a := 0x500)
    (b := if s.gate then 0x100500 else 0x500) (by omega) (by omega) (by split_ifs <;> omega)
  refine ⟨_, ?_, .trans (.of_mem_eq hsp' hmem) hl, (hm.trans hm').mono (by decide),
    hlog'.trans hlog, ?_⟩
  · rw [compareBytes_eq, hc]
    change (⟨compareAt (s.bus (16 * c.es + c.get .di)) (s.bus (16 * 0xFFFF + c.get .si)) c, _, _, _,
      _⟩ : Pc E) = _
    rw [ha, hb]
  · rw [hax]
    cases s.gate <;> rfl

theorem flags_lt : s.flags < 2 ^ 16 := by
  rw [flags]
  cases s.cpu.cf <;> cases s.cpu.zf <;> cases s.interrupts <;> decide

/-- The bits of the flags in the word. -/
theorem flags_bits : ∀ c z i : Bool,
    decide ((2 + c.toNat + 64 * z.toNat + 512 * i.toNat) % 2 = 1) = c ∧
      decide ((2 + c.toNat + 64 * z.toNat + 512 * i.toNat) / 64 % 2 = 1) = z ∧
        decide ((2 + c.toNat + 64 * z.toNat + 512 * i.toNat) / 512 % 2 = 1) = i := by
  decide

/-- What `pushf` pushes, `popf` pops. -/
theorem setFlags_flags (t : Pc E) : (t.setFlags s.flags).cpu.cf = s.cpu.cf ∧
    (t.setFlags s.flags).cpu.zf = s.cpu.zf ∧ (t.setFlags s.flags).interrupts = s.interrupts :=
  flags_bits _ _ _

/-- `check_a20` tells whether the gate is open, and restores everything else. -/
theorem checkA20_spec (hr : s.HasRoom 14) (hes : s.cpu.es < 2 ^ 16) (hds : s.ds < 2 ^ 16) :
    Restores 14 s s.checkA20 ∧
      (∀ g : Gpr, g ≠ .a → s.checkA20.cpu.get ⟨g, .word⟩ = s.cpu.get ⟨g, .word⟩) ∧
      s.checkA20.cpu.cf = s.cpu.cf ∧ s.checkA20.cpu.zf = s.cpu.zf ∧
      s.checkA20.keyboard = s.keyboard ∧ s.checkA20.fast = s.fast ∧
      s.checkA20.cpu.get .ax = s.gate.toNat := by
  have hsp : 0x500 + 14 < s.cpu.get .sp := hr
  generalize hc₁ : s.cpu.push .sp 2 s.flags = c₁
  generalize hc₂ : c₁.push .sp 2 s.ds = c₂
  generalize hc₃ : c₂.push .sp 2 c₂.es = c₃
  generalize hc₄ : c₃.push .sp 2 (c₃.get .di) = c₄
  generalize hc₅ : c₄.push .sp 2 (c₄.get .si) = c₅
  have hsp₁ : c₁.get .sp = s.cpu.get .sp - 2 := hc₁ ▸ get_push_self (by omega)
  have hsp₂ : c₂.get .sp = s.cpu.get .sp - 4 := by
    rw [← hc₂, get_push_self (by omega), hsp₁, Nat.sub_sub]
  have hsp₃ : c₃.get .sp = s.cpu.get .sp - 6 := by
    rw [← hc₃, get_push_self (by omega), hsp₂, Nat.sub_sub]
  have hsp₄ : c₄.get .sp = s.cpu.get .sp - 8 := by
    rw [← hc₄, get_push_self (by omega), hsp₃, Nat.sub_sub]
  have hsp₅ : c₅.get .sp = s.cpu.get .sp - 10 := by
    rw [← hc₅, get_push_self (by omega), hsp₄, Nat.sub_sub]
  obtain ⟨c₆, hc₆, hl₆, hm₆, hlog₆, hax₆⟩ :=
    setupCompare_compareBytes_spec (s := { s with cpu := c₅ })
      (show 0x500 + 4 < c₅.get .sp by omega)
  have hempty : ∀ n m : ℕ, ∀ x ∈ (∅ : Set ℕ), x + n < m ∨ m ≤ x := fun _ _ x hx => hx.elim
  rw [← hc₅] at hl₆
  obtain ⟨c₇, hc₇, hl₇, hsi₇, -, hm₇⟩ := hl₆.saved (by omega) (hempty _ _) (by decide) rfl
  rw [← hc₄] at hl₇
  obtain ⟨c₈, hc₈, hl₈, hdi₈, -, hm₈⟩ := hl₇.saved (by omega) (hempty _ _) (by decide) rfl
  -- The segments and the flags are popped as they were pushed, too.
  rw [← hc₃] at hl₈
  have hes₂ : c₂.es = s.cpu.es := by rw [← hc₂, es_push, ← hc₁, es_push]
  have htop₈ : c₈.mem.load (c₈.get .sp) 2 = s.cpu.es := by
    rw [hl₈.load_eq (by omega) (hempty _ _), hes₂]
    exact Nat.mod_eq_of_lt hes
  generalize hc₉ : (c₈.set .sp (c₈.get .sp + 2)).setEs s.cpu.es = c₉
  have hl₉ : Leaves .sp 10 ∅ c₂ c₉ := by
    rw [← hc₉]
    exact (hl₈.of_push (by omega)).trans (.of_mem_eq get_setEs mem_setEs)
  rw [← hc₂] at hl₉
  have htop₉ : c₉.mem.load (c₉.get .sp) 2 = s.ds := by
    rw [hl₉.load_eq (by omega) (hempty _ _)]
    exact Nat.mod_eq_of_lt hds
  have hl₁₀ := hl₉.of_push (by omega)
  generalize hc₁₀ : c₉.set .sp (c₉.get .sp + 2) = c₁₀ at hl₁₀
  rw [← hc₁] at hl₁₀
  have htop₁₀ : c₁₀.mem.load (c₁₀.get .sp) 2 = s.flags := by
    rw [hl₁₀.load_eq (by omega) (hempty _ _)]
    exact Nat.mod_eq_of_lt s.flags_lt
  have hl₁₁ := hl₁₀.of_push (by omega)
  generalize hc₁₁ : c₁₀.set .sp (c₁₀.get .sp + 2) = c₁₁ at hl₁₁
  have heq : s.checkA20 = ({ s with cpu := c₁₁, interrupts := false } : Pc E).setFlags s.flags := by
    simp only [checkA20, push, exec, hc₁, hc₂, hc₃, hc₄, hc₅, hc₆, hc₇, hc₈, drop, top, htop₈, hc₉,
      htop₉, hc₁₀, htop₁₀, hc₁₁]
  obtain ⟨hcf, hzf, hif⟩ := s.setFlags_flags { s with cpu := c₁₁, interrupts := false }
  have hother : ∀ g : Gpr, g ≠ .a → g ≠ .di → g ≠ .si → g ≠ .sp →
      c₁₁.get ⟨g, .word⟩ = s.cpu.get ⟨g, .word⟩ := by
    intro g ha hdi hsi hs
    have hm : c₆.get ⟨g, .word⟩ = c₅.get ⟨g, .word⟩ := hm₆ ⟨g, .word⟩ (by simp [ha, hdi, hsi, hs])
    simp [← hc₁₁, ← hc₁₀, ← hc₉, ← hc₈, ← hc₇, hm, ← hc₅, ← hc₄, ← hc₃, ← hc₂, ← hc₁, hdi, hsi, hs]
  have hget : ∀ g : Gpr, g ≠ .a → c₁₁.get ⟨g, .word⟩ = s.cpu.get ⟨g, .word⟩ := by
    intro g ha
    cases g with
    | a => exact absurd rfl ha
    | b | c | d => exact hother _ (by decide) (by decide) (by decide) (by decide)
    | si =>
      have h₈ : c₁₁.get .si = c₇.get .si := by simp [← hc₁₁, ← hc₁₀, ← hc₉, ← hc₈]
      rw [h₈, hsi₇]
      simp [← hc₄, ← hc₃, ← hc₂, ← hc₁]
    | di =>
      have h₉ : c₁₁.get .di = c₈.get .di := by simp [← hc₁₁, ← hc₁₀, ← hc₉]
      rw [h₉, hdi₈]
      simp [← hc₃, ← hc₂, ← hc₁]
    | sp => exact hl₁₁.sp_eq
  have hlog : c₁₁.log = s.cpu.log := by
    simp [← hc₁₁, ← hc₁₀, ← hc₉, ← hc₈, ← hc₇, hlog₆, ← hc₅, ← hc₄, ← hc₃, ← hc₂, ← hc₁]
  have hes' : c₁₁.es = s.cpu.es := by simp [← hc₁₁, ← hc₁₀, ← hc₉]
  have hax : c₁₁.get .ax = c₆.get .ax := by simp [← hc₁₁, ← hc₁₀, ← hc₉, ← hc₈, ← hc₇]
  have hcpu : s.checkA20.cpu = c₁₁.setFlags s.cpu.cf s.cpu.zf := by
    rw [heq, ← hcf, ← hzf]
    rfl
  refine ⟨⟨?_, ?_, by rw [heq]; rfl, by rw [heq, hif], ?_⟩, fun g hg => ?_, ?_, ?_,
    by rw [heq]; rfl, by rw [heq]; rfl, ?_⟩
  · rw [hcpu]
    exact hl₁₁.trans (.of_mem_eq get_setFlags mem_setFlags)
  · rw [hcpu, es_setFlags, hes']
  · rw [hcpu, log_setFlags, hlog]
  · rw [hcpu, get_setFlags, hget g hg]
  · rw [hcpu, cf_setFlags]
  · rw [hcpu, zf_setFlags]
  · rw [hcpu, get_setFlags, hax, hax₆]
    rfl

end Compare

/-! ## The ports of the keyboard controller -/

section Ports

variable (chip : I8042.Chip) (fuel : ℕ)

def inStatus : Pc E :=
  let (v, k) := s.keyboard.readStatus chip
  { s with cpu := s.cpu.set .al v.toNat, keyboard := k }

def inData : Pc E :=
  let (v, k) := s.keyboard.readData chip
  { s with cpu := s.cpu.set .al v.toNat, keyboard := k }

/-- Writes `al` to the port of the commands. -/
def outCommand : Pc E :=
  { s with keyboard := s.keyboard.write chip (.command (BitVec.ofNat 8 (s.cpu.get .al))) }

def outData : Pc E :=
  { s with keyboard := s.keyboard.write chip (.data (BitVec.ofNat 8 (s.cpu.get .al))) }

/-- Reads the status, and goes on as long as the zero flag of the test of `mask` is
    `again`. -/
def waitRound (mask : ℕ) (again : Bool) (s : Pc E) : Option (Pc E ⊕ Pc E) :=
  let s := s.inStatus chip
  let s := s.exec fun c => c.setFlags false (c.get .al &&& mask = 0)
  if s.cpu.zf = again then some (.inl s) else some (.inr s)

/-- Waits until the input buffer is empty. -/
def a20wait : Pc E → Option (Pc E) := loop (waitRound chip 2 false) fuel

/-- Waits until the output buffer is full. -/
def a20wait2 : Pc E → Option (Pc E) := loop (waitRound chip 1 true) fuel

/-- Disables the keyboard and reads the output port to `al`. -/
def readOutputPort (ra : ℕ → ℕ) (s : Pc E) : Option (Pc E) := do
  let s ← s.call (ra 603) (a20wait chip fuel)
  let s := (s.exec (·.set .al 0xAD)).outCommand chip
  let s ← s.call (ra 607) (a20wait chip fuel)
  let s := (s.exec (·.set .al 0xD0)).outCommand chip
  let s ← s.call (ra 611) (a20wait2 chip fuel)
  some (s.inData chip)

/-- Opens the gate through the output port of the keyboard controller. -/
def enableA20KeyboardMethod (ra : ℕ → ℕ) (s : Pc E) : Option (Pc E) := do
  let s ← s.readOutputPort chip fuel ra
  let s := s.exec fun c => c.push .sp 4 (c.get .eax)
  let s ← s.call (ra 615) (a20wait chip fuel)
  let s := (s.exec (·.set .al 0xD1)).outCommand chip
  let s ← s.call (ra 619) (a20wait chip fuel)
  let s := s.exec (·.pop .sp 4 .eax)
  let s := (s.exec (·.lor .al 2)).outData chip
  let s ← s.call (ra 624) (a20wait chip fuel)
  let s := (s.exec (·.set .al 0xAE)).outCommand chip
  let s ← s.call (ra 628) (a20wait chip fuel)
  let s ← s.call (ra 630) fun s => some s.checkA20
  some (s.exec (·.cmp .ax 0))

end Ports

/-! ## The BIOS -/

/-- A reply of the BIOS to a request about the gate: besides the registers and flags, it
    leaves the controller and the gate in some state. -/
structure A20Reply where
  regs : Gpr → ℕ
  cf : Bool
  zf : Bool
  keyboard : I8042.Port
  fast : Bool

/-- The BIOS, which finds the number of the request in `ax`. -/
abbrev A20Bios := ℕ → I8042.Port → Bool → A20Reply

def int15A20 (bios : A20Bios) : Pc E :=
  let reply := bios (s.cpu.get .ax) s.keyboard s.fast
  { s with
    cpu := { s.cpu with
      regs := Function.update reply.regs .sp (s.cpu.regs .sp)
      cf := reply.cf
      zf := reply.zf }
    keyboard := reply.keyboard
    fast := reply.fast }

section Enable

variable (bios : A20Bios) (chip : I8042.Chip) (ra : ℕ → ℕ) (fuel : ℕ)

/-- Opens the gate with the BIOS if it supports that, otherwise with the controller. -/
def enableA20BiosMethod (s : Pc E) : Option (Pc E) :=
  let s := s.exec (·.set .ax 0x2403)
  let s := s.int15A20 bios
  if s.cpu.cf = true then s.enableA20KeyboardMethod chip fuel ra
  else
    let s := s.exec (·.cmp .ax 0)
    if s.cpu.zf = false then s.enableA20KeyboardMethod chip fuel ra
    else
      let s := s.exec (·.set .ax 0x2401)
      let s := s.int15A20 bios
      if s.cpu.cf = true then s.enableA20KeyboardMethod chip fuel ra
      else
        let s := s.exec (·.cmp .ax 0)
        if s.cpu.zf = false then s.enableA20KeyboardMethod chip fuel ra
        else do
          let s ← s.call (ra 592) fun s => some s.checkA20
          let s := s.exec (·.cmp .ax 0)
          if s.cpu.zf = true then s.enableA20KeyboardMethod chip fuel ra
          else some (s.exec (·.set .ax 1))

/-- `enable_a20`. -/
def enableA20 (s : Pc E) : Option (Pc E) := do
  let s ← s.call (ra 567) fun s => some s.checkA20
  let s := s.exec (·.cmp .ax 0)
  if s.cpu.zf = false then some s else s.enableA20BiosMethod bios chip ra fuel

end Enable

section Wait

variable {s} {chip : I8042.Chip} {t u : Pc E} {depth depth' : ℕ}

namespace Restores

theorem trans (h : Restores depth s t) (h' : Restores depth t u) : Restores depth s u where
  leaves := h.leaves.trans h'.leaves
  es_eq := h'.es_eq.trans h.es_eq
  ds_eq := h'.ds_eq.trans h.ds_eq
  interrupts_eq := h'.interrupts_eq.trans h.interrupts_eq
  log_eq := h'.log_eq.trans h.log_eq

theorem mono (h : Restores depth s t) (hd : depth ≤ depth') : Restores depth' s t where
  __ := h
  leaves := h.leaves.mono hd le_rfl

/-- A change of registers other than the stack pointer, and of what opens the gate. -/
theorem of_mem_eq {c : Cpu E} {k : I8042.Port} {b : Bool} (hsp : c.get .sp = s.cpu.get .sp)
    (hmem : c.mem = s.cpu.mem) (hes : c.es = s.cpu.es) (hlog : c.log = s.cpu.log) :
    Restores depth s { s with cpu := c, keyboard := k, fast := b } where
  leaves := .of_mem_eq hsp hmem
  es_eq := hes
  ds_eq := rfl
  interrupts_eq := rfl
  log_eq := hlog

theorem hasRoom (h : Restores depth s t) (hr : s.HasRoom depth') : t.HasRoom depth' := by
  rwa [HasRoom, h.leaves.sp_eq]

/-- A call of a routine that restores everything. -/
theorem call {ra : ℕ} {f : Pc E → Option (Pc E)} (h : Restores depth (s.push ra) t)
    (hr : s.HasRoom 2) (hf : f (s.push ra) = some t) :
    ∃ u, s.call ra f = some u ∧ Restores (depth + 2) s u ∧ u.keyboard = t.keyboard ∧
      u.fast = t.fast ∧ ∀ g p, g ≠ .sp → u.cpu.get ⟨g, p⟩ = t.cpu.get ⟨g, p⟩ := by
  have hsp : 0x500 + 2 < s.cpu.get .sp := hr
  have hl : Leaves .sp depth ∅ (s.cpu.push .sp 2 ra) t.cpu := h.leaves
  refine ⟨t.drop, ?_, ?_, rfl, rfl, fun g p hg => get_set_of_ne hg⟩
  · rw [Pc.call, hf, Option.bind_some, if_pos]
    exact hl.load_eq (by omega) fun x hx => hx.elim
  · exact ⟨hl.of_push (by omega), h.es_eq, h.ds_eq, h.interrupts_eq, h.log_eq⟩

end Restores

/-- A round of a wait reads the status. -/
theorem waitRound_eq (s : Pc E) (chip : I8042.Chip) (mask : ℕ) (again : Bool) : ∃ t : Pc E,
    waitRound chip mask again s = some (if decide (((s.keyboard.readStatus chip).1.toNat &&& mask) =
      0) = again then .inl t else .inr t) ∧
    Restores 0 s t ∧ t.keyboard = (s.keyboard.readStatus chip).2 := by
  generalize hv : (s.keyboard.readStatus chip).1 = v
  generalize hk : (s.keyboard.readStatus chip).2 = k
  have hal : (s.cpu.set .al v.toNat).get .al = v.toNat := by
    rw [get_set_self]
    exact Nat.mod_eq_of_lt v.isLt
  refine ⟨{ s with
    cpu := (s.cpu.set .al v.toNat).setFlags false (v.toNat &&& mask = 0), keyboard := k }, ?_,
    .of_mem_eq (by simp) (by simp) (by simp) (by simp), rfl⟩
  rw [waitRound]
  simp only [inStatus, exec, hv, hk, hal, zf_setFlags]
  split_ifs <;> rfl

/-- A wait for what the controller does when it works, if it works at least once in the
    next `d` accesses. What the controller keeps by itself holds behind. -/
theorem loop_waitRound (chip : I8042.Chip) (mask : ℕ) (again : Bool)
    {I D : I8042.State → Prop} {fuel d : ℕ}
    (hI : ∀ k ts, (∀ t ∈ ts, s.keyboard.Happens t) → I k → I (k.elapse chip ts))
    (hwork : ∀ k ts, (∀ t ∈ ts, s.keyboard.Happens t) → I k → I8042.Turn.work ∈ ts →
      D (k.elapse chip ts))
    (hD : ∀ (k : I8042.State) noise, decide (((k.status noise).toNat &&& mask) = 0) = again ↔ ¬D k)
    (hs : I s.keyboard.state) (hd : ∃ m < d, I8042.Turn.work ∈ (s.keyboard.slots m).turns)
    (hfuel : d ≤ fuel) :
    ∃ t, loop (waitRound chip mask again) fuel s = some t ∧ Restores 0 s t ∧
      s.keyboard.Later chip t.keyboard ∧ I t.keyboard.state ∧ D t.keyboard.state := by
  induction d generalizing s fuel with
  | zero => exact absurd hd (by simp)
  | succ d ih =>
    obtain ⟨fuel, rfl⟩ := Nat.exists_eq_succ_of_ne_zero (show fuel ≠ 0 by omega)
    obtain ⟨t, ht, hr, hk⟩ := s.waitRound_eq chip mask again
    have hlater : s.keyboard.Later chip t.keyboard := hk ▸ .next chip s.keyboard
    have hnow : ∀ t ∈ (s.keyboard.slots 0).turns, s.keyboard.Happens t := fun t ht => ⟨0, ht⟩
    have hI' : I t.keyboard.state := by
      rw [hk]
      exact hI _ _ hnow hs
    have hiff : decide (((s.keyboard.readStatus chip).1.toNat &&& mask) = 0) = again ↔
        ¬D (s.keyboard.settle chip) := hD _ _
    by_cases hdone : D (s.keyboard.settle chip)
    · rw [if_neg fun h => hiff.1 h hdone] at ht
      exact ⟨t, loop_of_exit ht, hr, hlater, hI', by rwa [hk]⟩
    · -- The controller has not worked yet, hence it does later.
      rw [if_pos (hiff.2 hdone)] at ht
      obtain ⟨m, hm, hw⟩ := hd
      have hd' : ∃ m < d, I8042.Turn.work ∈ (t.keyboard.slots m).turns := by
        cases m with
        | zero => exact absurd (hwork _ _ hnow hs hw) hdone
        | succ m => exact ⟨m, Nat.lt_of_succ_lt_succ hm, by rw [hk]; exact hw⟩
      obtain ⟨u, hu, hru, hlu, hIu, hDu⟩ := ih
        (fun k ts hts => hI k ts fun t ht => hlater.follows.happens (hts t ht))
        (fun k ts hts => hwork k ts fun t ht => hlater.follows.happens (hts t ht)) hI' hd'
        (Nat.le_of_succ_le_succ hfuel)
      exact ⟨u, (loop_of_again ht).trans hu, hr.trans hru, hlater.trans hlu, hIu, hDu⟩

end Wait

/-! ## The keyboard controller -/

open I8042

section Conditions

variable {V : Byte → Prop} {x v : Byte} {b : Bool} {k : State} {chip : I8042.Chip}

/-- The controller is idle, with `x` at its output port, and what can be read meets `V`.
    `b` tells whether it has restarted the machine. -/
structure Idle (V : Byte → Prop) (x : Byte) (b : Bool) (k : State) : Prop where
  input_eq : k.input = none
  outputPort_eq : k.outputPort = x
  restarted_eq : k.restarted = b
  output_eq : ∀ v, k.output = some v → V v

/-- Moreover, there is something to be read. -/
structure Answered (V : Byte → Prop) (x : Byte) (b : Bool) (k : State) : Prop
    extends Idle V x b k where
  output_ne : k.output ≠ none

/-- The next data go to the output port. -/
structure Targeted (b : Bool) (k : State) : Prop where
  input_eq : k.input = none
  target_eq : k.target = some .outputPort
  restarted_eq : k.restarted = b

theorem Idle.receive (hk : Idle V x b k) {c : Byte} (hc : V c) : Idle V x b (k.receive c) := by
  rw [State.receive]
  split_ifs
  · exact ⟨hk.input_eq, hk.outputPort_eq, hk.restarted_eq, fun v hv => Option.some.inj hv ▸ hc⟩
  · exact hk

theorem settled_idle {p : Port} (h : ∀ c, p.Happens (.receive c) → V c) : p.Settled (Idle V x b) :=
  fun _ hts => ⟨fun _ hk => hk.input_eq, fun c hc _ hk => hk.receive (h c (hts _ hc))⟩

theorem settled_answered (p : Port) : p.Settled (Answered V x b) := by
  refine fun _ _ => ⟨fun _ hk => hk.input_eq, fun c _ k hk => ?_⟩
  rwa [State.receive, if_neg fun h => hk.output_ne h.1]

theorem settled_targeted (p : Port) : p.Settled (Targeted b) := by
  refine fun _ _ => ⟨fun _ hk => hk.input_eq, fun c _ k hk => ?_⟩
  rw [State.receive]
  split_ifs
  · exact ⟨hk.input_eq, hk.target_eq, hk.restarted_eq⟩
  · exact hk

theorem Idle.disableFirst (hk : Idle V x b k) :
    Idle V x b (k.exec chip (.command Command.disableFirst.byte)) := by
  rw [State.exec_command]
  exact ⟨hk.input_eq, hk.outputPort_eq, hk.restarted_eq, hk.output_eq⟩

theorem Idle.enableFirst (hk : Idle V x b k) :
    Idle V x b (k.exec chip (.command Command.enableFirst.byte)) := by
  rw [State.exec_command]
  exact ⟨hk.input_eq, hk.outputPort_eq, hk.restarted_eq, hk.output_eq⟩

theorem Idle.readOutputPort (hx : V x) (hk : Idle V x b k) :
    Answered V x b (k.exec chip (.command Command.readOutputPort.byte)) := by
  rw [State.exec_command]
  exact ⟨⟨hk.input_eq, hk.outputPort_eq, hk.restarted_eq, fun v hv => by
    rw [← Option.some.inj hv, State.outputPort_record, hk.outputPort_eq]
    exact hx⟩, Option.some_ne_none _⟩

theorem Idle.writeOutputPort (hk : Idle V x b k) :
    Targeted b (k.exec chip (.command Command.writeOutputPort.byte)) := by
  rw [State.exec_command]
  exact ⟨hk.input_eq, rfl, hk.restarted_eq⟩

/-- A byte without bit `0` restarts the machine. -/
theorem Targeted.data (hk : Targeted b k) :
    Idle (fun _ => True) v (b || !v.getLsbD 0) (k.exec chip (.data v)) := by
  rw [State.exec, State.execData, State.target_record, hk.target_eq]
  exact ⟨hk.input_eq, rfl, congrArg (· || !v.getLsbD 0) hk.restarted_eq, fun _ _ => trivial⟩

end Conditions

section Steps

variable {s} {chip : I8042.Chip} {fuel d : ℕ} {I J : State → Prop} {w : Write}

/-- A call of the wait for an empty input buffer. -/
theorem call_a20wait (chip : I8042.Chip) (ra : ℕ) (hr : s.HasRoom 2) (hp : s.keyboard.Prompt d)
    (hfuel : d ≤ fuel) :
    ∃ u, s.call ra (a20wait chip fuel) = some u ∧ Restores 2 s u ∧
      s.keyboard.Later chip u.keyboard ∧ u.keyboard.state.input = none ∧
      u.cpu.get .sp = s.cpu.get .sp := by
  have hd := hp 0
  simp only [Nat.zero_add] at hd
  obtain ⟨t, ht, hrt, hl, -, hinput⟩ := loop_waitRound (s := s.push ra) chip 2 false
    (I := fun _ => True) (D := fun k => k.input = none)
    (fun _ _ _ _ => trivial) (fun _ _ _ _ => State.input_elapse_of_work)
    (fun k noise => by rw [decide_eq_false_iff_not, State.toNat_status_input]) trivial hd hfuel
  obtain ⟨u, hu, hru, hk, -, -⟩ := hrt.call hr ht
  exact ⟨u, hu, hru, hk ▸ hl, by rw [hk, hinput], hru.leaves.sp_eq⟩

/-- What is written and waited for has been taken. -/
theorem call_a20wait_of_write {p : Port} (ra : ℕ) (hr : s.HasRoom 2) (hp : p.Prompt d)
    (hfuel : d ≤ fuel) (hk : s.keyboard = p.write chip w) (hI : p.Settled I) (hJ : p.Settled J)
    (hexec : ∀ k, I k → J (k.exec chip w)) (hs : I p.state) :
    ∃ u, s.call ra (a20wait chip fuel) = some u ∧ Restores 2 s u ∧ u.keyboard.Follows p ∧
      J u.keyboard.state := by
  have hf : s.keyboard.Follows p := hk ▸ .next p _
  obtain ⟨u, hu, hru, hl, hinput, -⟩ := call_a20wait chip ra hr (hf.prompt hp) hfuel
  have hsettle : I (p.settle chip) := hI.settle hs
  have hpending : State.Pending w I J s.keyboard.state := by
    rw [hk]
    exact State.pending_write hsettle
      ((hI _ fun _ ht => ⟨0, ht⟩).input_eq _ hsettle)
  exact ⟨u, hu, hru, hl.follows.trans hf,
    hl.taken (hI.follows hf) (hJ.follows hf) hexec hpending hinput⟩

/-- A call of the wait for an answer to what is written. -/
theorem call_a20wait2_of_write {p : Port} (ra : ℕ) (hr : s.HasRoom 2) (hp : p.Prompt d)
    (hfuel : d ≤ fuel) (hk : s.keyboard = p.write chip w) (hI : p.Settled I) (hJ : p.Settled J)
    (hexec : ∀ k, I k → J (k.exec chip w)) (hs : I p.state)
    (hanswer : ∀ k, J k → k.output ≠ none) :
    ∃ u, s.call ra (a20wait2 chip fuel) = some u ∧ Restores 2 s u ∧ u.keyboard.Follows p ∧
      State.Pending w I J u.keyboard.state ∧ u.keyboard.state.output ≠ none := by
  have hf : s.keyboard.Follows p := hk ▸ .next p _
  have hsettle : I (p.settle chip) := hI.settle hs
  have hpending : State.Pending w I J s.keyboard.state := by
    rw [hk]
    exact State.pending_write hsettle
      ((hI _ fun _ ht => ⟨0, ht⟩).input_eq _ hsettle)
  have hkeep : ∀ k ts, (∀ t ∈ ts, s.keyboard.Happens t) → State.Pending w I J k →
      State.Pending w I J (k.elapse chip ts) :=
    fun k ts hts hk => hk.elapse (hI.follows hf ts hts) (hJ.follows hf ts hts) hexec
  have hd := hf.prompt hp 0
  simp only [Nat.zero_add] at hd
  obtain ⟨t, ht, hrt, hl, hpt, houtput⟩ := loop_waitRound (s := s.push ra) chip 1 true
    (I := State.Pending w I J) (D := fun k => k.output ≠ none) hkeep
    (fun k ts hts hk hwork => hanswer _ ((hkeep k ts hts hk).taken
      (State.input_elapse_of_work hwork)))
    (fun k noise => by rw [decide_eq_true_iff, State.toNat_status_output, not_not]) hpending hd
    hfuel
  obtain ⟨u, hu, hru, hk', -, -⟩ := hrt.call hr ht
  exact ⟨u, hu, hru, hk' ▸ hl.follows.trans hf, hk' ▸ hpt, hk' ▸ houtput⟩

/-- What `mov` to `al` and `out` do. -/
theorem outCommand_set (s : Pc E) (chip : I8042.Chip) (c : Command) :
    ((s.exec (·.set .al c.byte.toNat)).outCommand chip) =
      { s with
        cpu := s.cpu.set .al c.byte.toNat
        keyboard := s.keyboard.write chip (.command c.byte) } := by
  rw [outCommand, exec, get_set_self]
  simp [Part.bits, Nat.mod_eq_of_lt c.byte.isLt]

theorem restores_outCommand {depth : ℕ} (s : Pc E) (chip : I8042.Chip) (v : ℕ) :
    Restores depth s ((s.exec (·.set .al v)).outCommand chip) :=
  .of_mem_eq (b := s.fast) (get_set_of_ne (by decide)) mem_set es_set log_set

end Steps

section Enable

variable {s} {chip : I8042.Chip} {fuel d : ℕ}

/-- What is at the output port, waits to be read, or is sent by the device. -/
def Readable (p : Port) (v : Byte) : Prop :=
  v = p.state.outputPort ∨ p.state.output = some v ∨ p.Happens (.receive v)

/-- What the first wait finds, if nothing is to be taken at the beginning. -/
theorem idle_of_later {p q : Port} (hl : p.Later chip q) (hinput : p.state.input = none) :
    Idle (Readable p) p.state.outputPort p.state.restarted q.state := by
  obtain ⟨ts, hts, hs⟩ := hl.state_eq
  rw [hs]
  exact (settled_idle (fun c hc => .inr (.inr hc)) ts hts).elapse
    ⟨hinput, rfl, rfl, fun v hv => .inr (.inl hv)⟩

/-- The byte read is what is at the output port, or another one that could be read. -/
theorem readOutputPort_spec (chip : I8042.Chip) (ra : ℕ → ℕ) (hr : s.HasRoom 2)
    (hp : s.keyboard.Prompt d) (hinput : s.keyboard.state.input = none) (hfuel : d ≤ fuel) :
    ∃ (t : Pc E) (v x : Byte), s.readOutputPort chip fuel ra = some t ∧ Restores 2 s t ∧
      t.cpu.get .al = v.toNat ∧ t.keyboard.Follows s.keyboard ∧
      State.Pending (.command Command.readOutputPort.byte)
        (Idle (fun _ => True) x s.keyboard.state.restarted)
        (Idle (fun _ => True) x s.keyboard.state.restarted) t.keyboard.state ∧
      Readable s.keyboard v := by
  obtain ⟨u₁, hu₁, hr₁, hl₁, -, -⟩ := call_a20wait chip (ra 603) hr hp hfuel
  have hf₁ := hl₁.follows
  have hidle := idle_of_later hl₁ hinput
  have hx : Readable s.keyboard s.keyboard.state.outputPort := .inl rfl
  have hreceive : ∀ c, s.keyboard.Happens (.receive c) → Readable s.keyboard c :=
    fun c hc => .inr (.inr hc)
  generalize Readable s.keyboard = V at hidle hx hreceive ⊢
  generalize s.keyboard.state.outputPort = x at hidle hx
  generalize s.keyboard.state.restarted = b at hidle ⊢
  -- The keyboard is disabled, then the output port is asked for.
  have hr₁' : Restores 2 u₁ ((u₁.exec (·.set .al 0xAD)).outCommand chip) :=
    u₁.restores_outCommand chip _
  obtain ⟨u₂, hu₂, hr₂, hf₂, hidle₂⟩ := call_a20wait_of_write
    (s := (u₁.exec (·.set .al 0xAD)).outCommand chip) (I := Idle V x b) (J := Idle V x b)
    (ra 607) (hr₁'.hasRoom (hr₁.hasRoom hr)) (hf₁.prompt hp) hfuel
    (congrArg Pc.keyboard (u₁.outCommand_set chip .disableFirst))
    (settled_idle fun c hc => hreceive c (hf₁.happens hc))
    (settled_idle fun c hc => hreceive c (hf₁.happens hc)) (fun _ hk => hk.disableFirst) hidle
  have hr₂' : Restores 2 u₂ ((u₂.exec (·.set .al 0xD0)).outCommand chip) :=
    u₂.restores_outCommand chip _
  have hrs₂ : Restores 2 s u₂ := (hr₁.trans hr₁').trans hr₂
  have hf₀₂ := hf₂.trans hf₁
  obtain ⟨u₃, hu₃, hr₃, hf₃, hpending, houtput⟩ := call_a20wait2_of_write
    (s := (u₂.exec (·.set .al 0xD0)).outCommand chip) (I := Idle V x b)
    (J := Answered V x b) (ra 611) (hr₂'.hasRoom (hrs₂.hasRoom hr)) (hf₀₂.prompt hp) hfuel
    (congrArg Pc.keyboard (u₂.outCommand_set chip .readOutputPort))
    (settled_idle fun c hc => hreceive c (hf₀₂.happens hc)) (settled_answered _)
    (fun _ hk => hk.readOutputPort hx) hidle₂ fun _ hk => hk.output_ne
  have hrs₃ : Restores 2 s u₃ := (hrs₂.trans hr₂').trans hr₃
  have hf₀₃ := hf₃.trans hf₀₂
  -- What is read is in the buffer, and meets `V` whether it is the answer or not.
  generalize hk : u₃.keyboard.settle chip = k
  have hpk : State.Pending (.command Command.readOutputPort.byte) (Idle V x b) (Answered V x b)
      k := by
    rw [← hk]
    exact hpending.elapse (settled_idle (fun c hc => hreceive c (hf₀₃.happens hc)) _
      fun _ ht => ⟨0, ht⟩) (settled_answered _ _ fun _ ht => ⟨0, ht⟩)
      fun _ hk => hk.readOutputPort hx
  obtain ⟨v, hv⟩ : ∃ v, k.output = some v := by
    rw [← hk]
    exact Option.ne_none_iff_exists'.1 (State.output_elapse_ne_none houtput _)
  have hVv : V v := by
    rcases hpk with ⟨-, h⟩ | h
    · exact h.output_eq v hv
    · exact h.output_eq v hv
  generalize ht : u₃.inData chip = t
  have heq : t = { u₃ with
      cpu := u₃.cpu.set .al v.toNat
      keyboard := u₃.keyboard.next { k with output := none } } := by
    rw [← ht, inData, Port.readData, hk, hv]
    rfl
  have hrt : Restores 2 u₃ t :=
    heq ▸ .of_mem_eq (b := u₃.fast) (get_set_of_ne (by decide)) mem_set es_set log_set
  have hft : t.keyboard.Follows u₃.keyboard := heq ▸ .next _ _
  refine ⟨t, v, x, ?_, hrs₃.trans hrt, ?_, hft.trans hf₀₃, ?_, hVv⟩
  · rw [readOutputPort]
    simp only [hu₁, hu₂, hu₃, ht, Option.bind_eq_bind, Option.bind_some]
  · rw [heq, get_set_self]
    exact Nat.mod_eq_of_lt v.isLt
  · rw [heq]
    rcases hpk with ⟨hw, h⟩ | h
    · exact .inl ⟨hw, rfl, h.outputPort_eq, h.restarted_eq, fun _ _ => trivial⟩
    · exact .inr ⟨h.input_eq, h.outputPort_eq, h.restarted_eq, fun _ _ => trivial⟩

/-- The byte that is written is the one read, with the bit of the gate set. -/
theorem ofNat_lor (v : Byte) : BitVec.ofNat 8 ((v.toNat ||| 2) % 2 ^ 8) = v ||| 2 := by
  rw [Nat.mod_eq_of_lt (Nat.or_lt_two_pow v.isLt (by decide))]
  exact (BitVec.ofNat_toNat 8 (v ||| 2)).trans (BitVec.setWidth_eq _)

/-- The bit of the gate is not that of the reset line. -/
theorem getLsbD_zero_lor : ∀ v : Byte, (v ||| 2).getLsbD 0 = v.getLsbD 0 := by
  decide +kernel

theorem gate_of_outputPort {t : Pc E} {v : Byte} (h : t.keyboard.state.outputPort = v ||| 2) :
    t.gate = true := by
  have : ∀ v : Byte, (v ||| 2).getLsbD 1 = true := by decide +kernel
  rw [gate, h, this, Bool.or_true]

theorem call_checkA20 (ra : ℕ) (hr : s.HasRoom 16) (hes : s.cpu.es < 2 ^ 16)
    (hds : s.ds < 2 ^ 16) :
    ∃ u, s.call ra (fun s => some s.checkA20) = some u ∧ Restores 16 s u ∧
      u.keyboard = s.keyboard ∧ u.fast = s.fast ∧ u.cpu.get .ax = s.gate.toNat := by
  have hsp : 0x500 + 16 < s.cpu.get .sp := hr
  have hr' : (s.push ra).HasRoom 14 := by
    have hpush : (s.push ra).cpu.get .sp = s.cpu.get .sp - 2 := get_push_self (by omega)
    rw [HasRoom, hpush]
    omega
  obtain ⟨hrt, -, -, -, hk, hf, hax⟩ := checkA20_spec hr' (by simpa [push] using hes) hds
  obtain ⟨u, hu, hru, hku, hfu, hget⟩ :=
    hrt.call (f := fun s => some s.checkA20) (show 0x500 + 2 < s.cpu.get .sp by omega) rfl
  exact ⟨u, hu, hru, hku.trans hk, hfu.trans hf, (hget .a .word nofun).trans hax⟩

/-- While `eax` is on the stack, the output port is made to be written next. -/
theorem targetOutputPort_spec (chip : I8042.Chip) (ra : ℕ → ℕ) {v x : Byte} {b : Bool}
    (hr : s.HasRoom 6) (hp : s.keyboard.Prompt d)
    (hpending : State.Pending (.command Command.readOutputPort.byte) (Idle (fun _ => True) x b)
      (Idle (fun _ => True) x b) s.keyboard.state)
    (hal : s.cpu.get .al = v.toNat) (hfuel : d ≤ fuel) :
    ∃ t u w, (s.exec fun c => c.push .sp 4 (c.get .eax)).call (ra 615) (a20wait chip fuel) =
        some t ∧
      ((t.exec (·.set .al 0xD1)).outCommand chip).call (ra 619) (a20wait chip fuel) = some u ∧
      u.exec (·.pop .sp 4 .eax) = w ∧ Restores 6 s w ∧ w.cpu.get .al = v.toNat ∧
      w.keyboard.Follows s.keyboard ∧ Targeted b w.keyboard.state := by
  have hsp : 0x500 + 6 < s.cpu.get .sp := hr
  generalize hs' : (s.exec fun c => c.push .sp 4 (c.get .eax)) = s'
  have hk : s'.keyboard = s.keyboard := by rw [← hs']; rfl
  have hroom : s'.HasRoom 2 := by
    have : s'.cpu.get .sp = s.cpu.get .sp - 4 := by
      rw [← hs']
      exact get_push_self (by omega)
    rw [HasRoom, this]
    omega
  obtain ⟨t, ht, hrt, hlt, hinput, -⟩ := call_a20wait chip (ra 615) hroom (hk ▸ hp) hfuel
  have hidle : Idle (fun _ => True) x b t.keyboard.state :=
    hlt.taken (settled_idle fun _ _ => trivial) (settled_idle fun _ _ => trivial)
      (fun k hk => by
        rw [State.exec_command]
        exact ⟨hk.input_eq, hk.outputPort_eq, hk.restarted_eq, fun _ _ => trivial⟩)
      (hk ▸ hpending) hinput
  have hft : t.keyboard.Follows s.keyboard := hk ▸ hlt.follows
  have hrt' : Restores 2 t ((t.exec (·.set .al 0xD1)).outCommand chip) :=
    t.restores_outCommand chip _
  obtain ⟨u, hu, hru, hfu, htarget⟩ := call_a20wait_of_write
    (s := (t.exec (·.set .al 0xD1)).outCommand chip) (I := Idle (fun _ => True) x b)
    (J := Targeted b) (ra 619) (hrt'.hasRoom (hrt.hasRoom hroom)) (hft.prompt hp) hfuel
    (congrArg Pc.keyboard (t.outCommand_set chip .writeOutputPort))
    (settled_idle fun _ _ => trivial) (settled_targeted _) (fun _ hk => hk.writeOutputPort) hidle
  have hrs' : Restores 2 s' u := (hrt.trans hrt').trans hru
  have hl : Leaves .sp 2 ∅ (s.cpu.push .sp 4 (s.cpu.get .eax)) u.cpu := by
    have := hrs'.leaves
    rwa [← hs'] at this
  generalize hw : u.exec (·.pop .sp 4 .eax) = w
  refine ⟨t, u, w, ht, hu, hw, ⟨?_, ?_, ?_, ?_, ?_⟩, ?_, ?_, ?_⟩
  · exact hw ▸ hl.pop (r := .eax) (by omega) (by decide)
  · rw [← hw, cpu_exec, es_pop, hrs'.es_eq, ← hs', cpu_exec, es_push]
  · rw [← hw, ds_exec, hrs'.ds_eq, ← hs', ds_exec]
  · rw [← hw]
    exact hrs'.interrupts_eq.trans (by rw [← hs']; rfl)
  · rw [← hw, cpu_exec, log_pop, hrs'.log_eq, ← hs', cpu_exec, log_push]
  · rw [← hw, cpu_exec, Cpu.pop, get_set_dword_low, hl.load_eq (by omega) (fun x hx => hx.elim)]
    have hlow : s.cpu.get .al = s.cpu.get .eax % 2 ^ 16 % 2 ^ 8 :=
      get_low.trans (congrArg (· % 2 ^ 8) get_word)
    omega
  · rw [← hw]
    exact hfu.trans hft
  · rwa [← hw]

/-- The byte in `al` is written with the bit of the gate set, and the keyboard is enabled. -/
theorem writeOutputPort_spec (chip : I8042.Chip) (ra : ℕ → ℕ) {v : Byte} {b : Bool}
    (hr : s.HasRoom 2) (hp : s.keyboard.Prompt d) (htarget : Targeted b s.keyboard.state)
    (hal : s.cpu.get .al = v.toNat) (hfuel : d ≤ fuel) :
    ∃ t u, ((s.exec (·.lor .al 2)).outData chip).call (ra 624) (a20wait chip fuel) = some t ∧
      ((t.exec (·.set .al 0xAE)).outCommand chip).call (ra 628) (a20wait chip fuel) = some u ∧
      Restores 2 s u ∧
      Idle (fun _ => True) (v ||| 2) (b || !v.getLsbD 0) u.keyboard.state := by
  have hk : ((s.exec (·.lor .al 2)).outData chip).keyboard =
      s.keyboard.write chip (.data (v ||| 2)) := by
    rw [outData, cpu_exec, get_alu_self, hal, ← ofNat_lor]
    rfl
  have hr' : Restores 2 s ((s.exec (·.lor .al 2)).outData chip) :=
    .of_mem_eq (b := s.fast) (get_alu_of_ne (by decide)) mem_alu es_alu log_alu
  have hdata : ∀ k, Targeted b k → Idle (fun _ => True) (v ||| 2) (b || !v.getLsbD 0)
      (k.exec chip (.data (v ||| 2))) := fun k hk => getLsbD_zero_lor v ▸ hk.data
  obtain ⟨t, ht, hrt, hft, hidle⟩ := call_a20wait_of_write
    (s := (s.exec (·.lor .al 2)).outData chip) (I := Targeted b)
    (J := Idle (fun _ => True) (v ||| 2) (b || !v.getLsbD 0)) (ra 624) (hr'.hasRoom hr) hp hfuel
    hk (settled_targeted _) (settled_idle fun _ _ => trivial) hdata htarget
  have hrt' : Restores 2 t ((t.exec (·.set .al 0xAE)).outCommand chip) :=
    t.restores_outCommand chip _
  have hrst := (hr'.trans hrt).trans hrt'
  obtain ⟨u, hu, hru, -, hidle'⟩ := call_a20wait_of_write
    (s := (t.exec (·.set .al 0xAE)).outCommand chip)
    (I := Idle (fun _ => True) (v ||| 2) (b || !v.getLsbD 0))
    (J := Idle (fun _ => True) (v ||| 2) (b || !v.getLsbD 0)) (ra 628) (hrst.hasRoom hr)
    (hft.prompt hp) hfuel (congrArg Pc.keyboard (t.outCommand_set chip .enableFirst))
    (settled_idle fun _ _ => trivial) (settled_idle fun _ _ => trivial)
    (fun _ hk => hk.enableFirst) hidle
  exact ⟨t, u, ht, hu, hrst.trans hru, hidle'⟩

/-- Whatever the controller and the device do, the gate is open behind. -/
theorem enableA20KeyboardMethod_spec (chip : I8042.Chip) (ra : ℕ → ℕ) (hr : s.HasRoom 16)
    (hes : s.cpu.es < 2 ^ 16) (hds : s.ds < 2 ^ 16) (hp : s.keyboard.Prompt d)
    (hinput : s.keyboard.state.input = none) (hfuel : d ≤ fuel) :
    ∃ (u t : Pc E) (v : Byte), s.readOutputPort chip fuel ra = some u ∧
      u.cpu.get .al = v.toNat ∧ Readable s.keyboard v ∧
      s.enableA20KeyboardMethod chip fuel ra = some t ∧ Restores 16 s t ∧
      t.gate = true ∧ t.cpu.get .ax = 1 ∧ t.keyboard.state.outputPort = v ||| 2 ∧
      t.keyboard.state.restarted = (s.keyboard.state.restarted || !v.getLsbD 0) := by
  have hsp : 0x500 + 16 < s.cpu.get .sp := hr
  obtain ⟨u₀, v, x, hu₀, hr₀, hal₀, hf₀, hpending, hv⟩ :=
    readOutputPort_spec chip ra (show 0x500 + 2 < s.cpu.get .sp by omega) hp hinput hfuel
  obtain ⟨u₁, u₂, u₃, hu₁, hu₂, hu₃, hr₃, hal₃, hf₃, htarget⟩ := targetOutputPort_spec chip ra
    (hr₀.hasRoom (show 0x500 + 6 < s.cpu.get .sp by omega)) (hf₀.prompt hp) hpending hal₀ hfuel
  have hr₀₃ : Restores 16 s u₃ := (hr₀.mono (by decide)).trans (hr₃.mono (by decide))
  obtain ⟨u₄, u₅, hu₄, hu₅, hr₅, hidle⟩ := writeOutputPort_spec chip ra
    (hr₀₃.hasRoom (show 0x500 + 2 < s.cpu.get .sp by omega)) ((hf₃.trans hf₀).prompt hp) htarget
    hal₃ hfuel
  have hr₀₅ : Restores 16 s u₅ := hr₀₃.trans (hr₅.mono (by decide))
  -- The gate is open, and the check finds it so.
  have hgate : u₅.gate = true := gate_of_outputPort hidle.outputPort_eq
  obtain ⟨u₆, hu₆, hr₆, hk₆, -, hax₆⟩ := call_checkA20 (ra 630) (hr₀₅.hasRoom hr)
    (by rwa [hr₀₅.es_eq]) (by rwa [hr₀₅.ds_eq])
  have hout₆ : u₆.keyboard.state.outputPort = v ||| 2 := by rw [hk₆, hidle.outputPort_eq]
  refine ⟨u₀, u₆.exec (·.cmp .ax 0), v, hu₀, hal₀, hv, ?_,
    (hr₀₅.trans hr₆).trans (.of_mem_eq (b := u₆.fast) get_cmp mem_cmp rfl log_cmp),
    gate_of_outputPort hout₆, ?_, hout₆, ?_⟩
  · rw [enableA20KeyboardMethod]
    simp only [hu₀, hu₁, hu₂, hu₃, hu₄, hu₅, hu₆, Option.bind_eq_bind, Option.bind_some]
  · rw [cpu_exec, get_cmp, hax₆, hgate]
    rfl
  · exact (congrArg (·.state.restarted) hk₆).trans hidle.restarted_eq

/-! ## Enabling the line -/

/-- The controller works at least once in any `d` accesses and has nothing to take. Whatever
    may be read for the output port has bit `0` set, so that it does not restart the machine
    when it is written back. -/
structure Tame (d : ℕ) (p : Port) : Prop where
  prompt : p.Prompt d
  input_eq : p.state.input = none
  restarted_eq : p.state.restarted = false
  bit_eq : ∀ v, Readable p v → v.getLsbD 0 = true

/-- The BIOS leaves a controller that is tame if it finds it so. -/
def A20Bios.KeepsTame (bios : A20Bios) (d : ℕ) : Prop :=
  ∀ n p b, Tame d p → Tame d (bios n p b).keyboard

/-- The state `t` is one behind a successful routine from `s`. -/
structure Enabled (s t : Pc E) : Prop where
  restores : Restores 16 s t
  gate_eq : t.gate = true
  ax_eq : t.cpu.get .ax = 1
  restarted_eq : t.keyboard.state.restarted = false

variable {bios : A20Bios}

/-- What a request to the BIOS leaves. -/
theorem restores_int15A20 (s : Pc E) (bios : A20Bios) (n : ℕ) :
    Restores 16 s ((s.exec (·.set .ax n)).int15A20 bios) := by
  refine .of_mem_eq ?_ rfl rfl rfl
  exact congrArg (· % 2 ^ 16) (by simp [Cpu.set])

/-- A comparison leaves everything. -/
theorem restores_cmp (s : Pc E) (r : Reg) (n : ℕ) : Restores 16 s (s.exec (·.cmp r n)) :=
  .of_mem_eq (b := s.fast) get_cmp mem_cmp rfl log_cmp

/-- A check, and the comparison of its result. -/
theorem call_checkA20_cmp (ra : ℕ) (hr : s.HasRoom 16) (hes : s.cpu.es < 2 ^ 16)
    (hds : s.ds < 2 ^ 16) :
    ∃ t u, s.call ra (fun s => some s.checkA20) = some t ∧ t.exec (·.cmp .ax 0) = u ∧
      Restores 16 s u ∧ u.keyboard = s.keyboard ∧ u.gate = s.gate ∧ u.cpu.zf = !s.gate ∧
      u.cpu.get .ax = s.gate.toNat := by
  obtain ⟨t, ht, hrt, hk, hf, hax⟩ := call_checkA20 ra hr hes hds
  refine ⟨t, _, ht, rfl, hrt.trans (t.restores_cmp _ _), hk, ?_, ?_, ?_⟩
  · rw [gate_exec, gate, hf, hk, gate]
  · rw [cpu_exec, zf_cmp, hax]
    cases s.gate <;> rfl
  · rw [cpu_exec, get_cmp, hax]

theorem enableA20BiosMethod_spec (chip : I8042.Chip) (ra : ℕ → ℕ) (hr : s.HasRoom 16)
    (hes : s.cpu.es < 2 ^ 16) (hds : s.ds < 2 ^ 16) (hbios : bios.KeepsTame d)
    (hp : Tame d s.keyboard) (hfuel : d ≤ fuel) :
    ∃ t, s.enableA20BiosMethod bios chip ra fuel = some t ∧ Enabled s t := by
  -- From every state on the way, the keyboard method helps.
  have hkeyboard : ∀ u, Restores 16 s u → Tame d u.keyboard →
      ∃ t, u.enableA20KeyboardMethod chip fuel ra = some t ∧ Enabled s t := by
    intro u hru hpu
    obtain ⟨-, t, v, -, -, hv, ht, hrt, hgate, hax, -, hrestarted⟩ :=
      enableA20KeyboardMethod_spec chip ra (hru.hasRoom hr) (by rwa [hru.es_eq])
        (by rwa [hru.ds_eq]) hpu.prompt hpu.input_eq hfuel
    refine ⟨t, ht, hru.trans hrt, hgate, hax, ?_⟩
    rw [hrestarted, hpu.restarted_eq, hpu.bit_eq v hv]
    rfl
  obtain ⟨s₁, hs₁⟩ : ∃ s₁, (s.exec (·.set .ax 0x2403)).int15A20 bios = s₁ := ⟨_, rfl⟩
  have hr₁ : Restores 16 s s₁ := hs₁ ▸ s.restores_int15A20 bios _
  have hp₁ : Tame d s₁.keyboard := hs₁ ▸ hbios _ _ _ hp
  obtain ⟨s₂, hs₂⟩ : ∃ s₂, s₁.exec (·.cmp .ax 0) = s₂ := ⟨_, rfl⟩
  have hr₂ : Restores 16 s s₂ := hr₁.trans (hs₂ ▸ s₁.restores_cmp _ _)
  have hp₂ : Tame d s₂.keyboard := hs₂ ▸ hp₁
  obtain ⟨s₃, hs₃⟩ : ∃ s₃, (s₂.exec (·.set .ax 0x2401)).int15A20 bios = s₃ := ⟨_, rfl⟩
  have hr₃ : Restores 16 s s₃ := hr₂.trans (hs₃ ▸ s₂.restores_int15A20 bios _)
  have hp₃ : Tame d s₃.keyboard := hs₃ ▸ hbios _ _ _ hp₂
  obtain ⟨s₄, hs₄⟩ : ∃ s₄, s₃.exec (·.cmp .ax 0) = s₄ := ⟨_, rfl⟩
  have hr₄ : Restores 16 s s₄ := hr₃.trans (hs₄ ▸ s₃.restores_cmp _ _)
  have hp₄ : Tame d s₄.keyboard := hs₄ ▸ hp₃
  obtain ⟨s₅, s₆, hs₅, hs₆, hr₆, hk₆, hgate₆, hzf₆, -⟩ := call_checkA20_cmp (ra 592)
    (hr₄.hasRoom hr) (by rwa [hr₄.es_eq]) (by rwa [hr₄.ds_eq])
  rw [enableA20BiosMethod]
  simp only [hs₁, hs₂, hs₃, hs₄, hs₅, hs₆, Option.bind_eq_bind, Option.bind_some]
  split_ifs with h₁ h₂ h₃ h₄ h₅
  · exact hkeyboard _ hr₁ hp₁
  · exact hkeyboard _ hr₂ hp₂
  · exact hkeyboard _ hr₃ hp₃
  · exact hkeyboard _ hr₄ hp₄
  · exact hkeyboard _ (hr₄.trans hr₆) (hk₆ ▸ hp₄)
  · refine ⟨_, rfl, (hr₄.trans hr₆).trans (.of_mem_eq (b := s₆.fast) ?_ mem_set es_set log_set), ?_,
      ?_, ?_⟩
    · exact get_set_of_ne (by decide)
    · -- The check has found the gate open.
      rw [gate_exec, hgate₆]
      simpa [hzf₆] using h₅
    · rw [cpu_exec, get_set_self]
      decide
    · exact (congrArg (·.state.restarted) hk₆).trans hp₄.restarted_eq

/-- `enable_a20` ends with the gate open and says so. -/
theorem enableA20_spec (chip : I8042.Chip) (ra : ℕ → ℕ) (hr : s.HasRoom 16)
    (hes : s.cpu.es < 2 ^ 16) (hds : s.ds < 2 ^ 16) (hbios : bios.KeepsTame d)
    (hp : Tame d s.keyboard) (hfuel : d ≤ fuel) :
    ∃ t, s.enableA20 bios chip ra fuel = some t ∧ Enabled s t := by
  obtain ⟨s₁, s₂, hs₁, hs₂, hr₂, hk₂, hgate₂, hzf₂, hax₂⟩ := call_checkA20_cmp (ra 567) hr hes hds
  rw [enableA20]
  simp only [hs₁, hs₂, Option.bind_eq_bind, Option.bind_some]
  split_ifs with h
  · have hgate : s.gate = true := by simpa [hzf₂] using h
    exact ⟨s₂, rfl, hr₂, hgate₂.trans hgate, by rw [hax₂, hgate]; rfl, by
      rw [hk₂, hp.restarted_eq]⟩
  · obtain ⟨t, ht, he⟩ := enableA20BiosMethod_spec chip ra (hr₂.hasRoom hr)
      (by rwa [hr₂.es_eq]) (by rwa [hr₂.ds_eq]) hbios (hk₂ ▸ hp) hfuel
    exact ⟨t, ht, hr₂.trans he.restores, he.gate_eq, he.ax_eq, he.restarted_eq⟩

/-- A machine with the gate closed, whose controller works before every access. -/
def sampleClosed : Pc Unit where
  cpu := ⟨Function.update (fun _ => 0) .sp 0x6ff0, 0, false, false, fun _ => 0, []⟩
  ds := 0
  interrupts := true
  keyboard := ⟨⟨none, none, none, 0, 0xcd, false, [], []⟩, fun _ => ⟨[.work], 0⟩⟩
  fast := false

/-- The answers of its controller. -/
def sampleChip : I8042.Chip := ⟨0x55, 0, id⟩

theorem hasRoom_sampleClosed : sampleClosed.HasRoom 16 := show 0x500 + 16 < 0x6ff0 by decide

theorem tame_sampleClosed : Tame 1 sampleClosed.keyboard where
  prompt _ := ⟨0, by decide, List.mem_singleton_self _⟩
  input_eq := rfl
  restarted_eq := rfl
  bit_eq v hv := by
    rcases hv with rfl | hv | ⟨i, hi⟩
    · rfl
    · exact absurd hv (Option.some_ne_none v).symm
    · exact absurd (List.mem_singleton.1 hi) (by simp)

/-- `check_a20` returns whether the gate is open, whatever is in the two bytes it compares
    and wherever they are, and changes nothing but `ax` and its stack. -/
theorem checkA20_tells (hr : s.HasRoom 14) (hes : s.cpu.es < 2 ^ 16) (hds : s.ds < 2 ^ 16) :
    (s.checkA20.cpu.get .ax = 1 ↔ s.gate = true) ∧ (s.checkA20.cpu.get .ax = 0 ↔ s.gate = false) ∧
      (∀ x, x + 14 < s.cpu.get .sp ∨ s.cpu.get .sp ≤ x → s.checkA20.cpu.mem x = s.cpu.mem x) ∧
      (∀ g : Gpr, g ≠ .a → s.checkA20.cpu.get ⟨g, .word⟩ = s.cpu.get ⟨g, .word⟩) ∧
      s.checkA20.cpu.es = s.cpu.es ∧ s.checkA20.ds = s.ds ∧ s.checkA20.cpu.cf = s.cpu.cf ∧
      s.checkA20.cpu.zf = s.cpu.zf ∧ s.checkA20.interrupts = s.interrupts := by
  obtain ⟨h, hregs, hcf, hzf, -, -, hax⟩ := checkA20_spec hr hes hds
  refine ⟨?_, ?_, fun x hx => h.leaves.mem_eq x (fun hx' => hx'.elim) hx, hregs, h.es_eq, h.ds_eq,
    hcf, hzf, h.interrupts_eq⟩
  · rw [hax]
    cases s.gate <;> decide
  · rw [hax]
    cases s.gate <;> decide

theorem checkA20_tells_sample :
    sampleClosed.checkA20.cpu.get .ax = 0 ↔ sampleClosed.gate = false :=
  (checkA20_tells (s := sampleClosed) (hasRoom_sampleClosed.trans' (by decide)) (by decide)
    (by decide)).2.1

/-- `enable_a20` ends with the gate open, says so, and does not restart the machine, with any
    BIOS and any controller that are tame. -/
theorem enableA20_opens (chip : I8042.Chip) (ra : ℕ → ℕ) (hr : s.HasRoom 16)
    (hes : s.cpu.es < 2 ^ 16) (hds : s.ds < 2 ^ 16) (hbios : bios.KeepsTame d)
    (hp : Tame d s.keyboard) (hfuel : d ≤ fuel) :
    ∃ t, s.enableA20 bios chip ra fuel = some t ∧ t.gate = true ∧ t.cpu.get .ax = 1 ∧
      t.keyboard.state.restarted = false ∧
      t.cpu.get .sp = s.cpu.get .sp ∧ t.cpu.es = s.cpu.es ∧ t.ds = s.ds ∧
      t.interrupts = s.interrupts ∧
      ∀ x, x + 16 < s.cpu.get .sp ∨ s.cpu.get .sp ≤ x → t.cpu.mem x = s.cpu.mem x := by
  obtain ⟨t, ht, h⟩ := enableA20_spec chip ra hr hes hds hbios hp hfuel
  exact ⟨t, ht, h.gate_eq, h.ax_eq, h.restarted_eq, h.restores.leaves.sp_eq, h.restores.es_eq,
    h.restores.ds_eq, h.restores.interrupts_eq,
    fun x hx => h.restores.leaves.mem_eq x (fun hx' => hx'.elim) hx⟩

/-- A BIOS that does not know the requests. -/
def sampleA20Bios : A20Bios := fun _ p b => ⟨fun _ => 0, true, false, p, b⟩

theorem enableA20_opens_sample : ∃ t,
    sampleClosed.enableA20 sampleA20Bios sampleChip (fun _ => 0x7e00) 1 = some t ∧
      t.gate = true ∧ t.cpu.get .ax = 1 ∧ t.keyboard.state.restarted = false ∧
      t.cpu.get .sp = sampleClosed.cpu.get .sp ∧
      t.cpu.es = sampleClosed.cpu.es ∧ t.ds = sampleClosed.ds ∧
      t.interrupts = sampleClosed.interrupts ∧
      ∀ x, x + 16 < sampleClosed.cpu.get .sp ∨ sampleClosed.cpu.get .sp ≤ x →
        t.cpu.mem x = sampleClosed.cpu.mem x :=
  enableA20_opens sampleChip _ hasRoom_sampleClosed (by decide) (by decide) (fun _ _ _ hp => hp)
    tame_sampleClosed le_rfl

/-- The keyboard method sets the output port to the byte it has read, with the bit of the
    gate set. This byte is not always the one at the output port: it can be one of the
    keyboard. It restarts the machine if its bit `0` is clear. -/
theorem enableA20KeyboardMethod_writes (chip : I8042.Chip) (ra : ℕ → ℕ) (hr : s.HasRoom 16)
    (hes : s.cpu.es < 2 ^ 16) (hds : s.ds < 2 ^ 16) (hp : s.keyboard.Prompt d)
    (hinput : s.keyboard.state.input = none) (hfuel : d ≤ fuel) :
    ∃ (u t : Pc E) (v : Byte), s.readOutputPort chip fuel ra = some u ∧
      u.cpu.get .al = v.toNat ∧
      s.enableA20KeyboardMethod chip fuel ra = some t ∧ t.gate = true ∧
      t.keyboard.state.outputPort = v ||| 2 ∧
      (v = s.keyboard.state.outputPort ∨ s.keyboard.state.output = some v ∨
        s.keyboard.Happens (.receive v)) ∧
      t.keyboard.state.restarted = (s.keyboard.state.restarted || !v.getLsbD 0) := by
  obtain ⟨u, t, v, hu, hal, hv, ht, -, hgate, -, hout, hrestarted⟩ :=
    enableA20KeyboardMethod_spec chip ra hr hes hds hp hinput hfuel
  exact ⟨u, t, v, hu, hal, ht, hgate, hout, hv, hrestarted⟩

theorem enableA20KeyboardMethod_writes_sample : ∃ (u t : Pc Unit) (v : Byte),
    sampleClosed.readOutputPort sampleChip 1 (fun _ => 0x7e00) = some u ∧
      u.cpu.get .al = v.toNat ∧
      sampleClosed.enableA20KeyboardMethod sampleChip 1 (fun _ => 0x7e00) = some t ∧
      t.gate = true ∧ t.keyboard.state.outputPort = v ||| 2 ∧
      (v = sampleClosed.keyboard.state.outputPort ∨ sampleClosed.keyboard.state.output = some v ∨
        sampleClosed.keyboard.Happens (.receive v)) ∧
      t.keyboard.state.restarted = (sampleClosed.keyboard.state.restarted || !v.getLsbD 0) :=
  enableA20KeyboardMethod_writes sampleChip _ hasRoom_sampleClosed (by decide) (by decide)
    tame_sampleClosed.prompt rfl le_rfl

end Enable

end Pc

end KessokuOS.Bootloader
