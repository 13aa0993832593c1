import Mathlib.Data.Set.Basic
import KessokuOS.Lib.Memory

/-!
# x86 machine states

The general registers with their parts, the flags that jumps look at, the
memory, and the effects of some instructions on them. A routine is a function
from states to states, possibly none, composed of these effects; it may log what
it does to devices.

The registers that are not changed on the way from one state to another one are
known from the list of those that are (`Modifies`). A routine which uses the stack
below its stack pointer, and writes nothing else than a set of addresses, leaves
everything else in memory as it is (`Leaves`). A register that is pushed before such
a routine and popped behind it is the same (`Leaves.saved`), and a call of the
routine returns (`Leaves.call_eq`).
-/

namespace KessokuOS

namespace X86

/-- The general registers. -/
inductive Gpr
  | a | b | c | d | si | di | sp
  deriving DecidableEq, Repr

/-- The parts of a register: the two low bytes, the low word, the whole. -/
inductive Part
  | low | high | word | dword
  deriving DecidableEq, Repr

namespace Part

/-- The number of bits of a part. -/
def bits : Part → ℕ
  | low | high => 8
  | word => 16
  | dword => 32

/-- The part of the value `x` of a register. -/
def get (x : ℕ) : Part → ℕ
  | low => x % 2 ^ 8
  | high => x / 2 ^ 8 % 2 ^ 8
  | word => x % 2 ^ 16
  | dword => x % 2 ^ 32

/-- The value of a register after putting `v` in a part of it. -/
def put (x v : ℕ) : Part → ℕ
  | low => x / 2 ^ 8 * 2 ^ 8 + v % 2 ^ 8
  | high => x / 2 ^ 16 * 2 ^ 16 + v % 2 ^ 8 * 2 ^ 8 + x % 2 ^ 8
  | word => x / 2 ^ 16 * 2 ^ 16 + v % 2 ^ 16
  | dword => v % 2 ^ 32

theorem get_lt (p : Part) (x : ℕ) : p.get x < 2 ^ p.bits := by
  cases p <;> exact Nat.mod_lt _ (by decide)

theorem get_put (p : Part) (x v : ℕ) : p.get (p.put x v) = v % 2 ^ p.bits := by
  cases p <;> simp only [get, put, bits] <;> omega

end Part

/-- A part of a register. -/
structure Reg where
  gpr : Gpr
  part : Part
  deriving DecidableEq, Repr

namespace Reg

abbrev al : Reg := ⟨.a, .low⟩
abbrev ah : Reg := ⟨.a, .high⟩
abbrev ax : Reg := ⟨.a, .word⟩
abbrev eax : Reg := ⟨.a, .dword⟩
abbrev bx : Reg := ⟨.b, .word⟩
abbrev ebx : Reg := ⟨.b, .dword⟩
abbrev cl : Reg := ⟨.c, .low⟩
abbrev ch : Reg := ⟨.c, .high⟩
abbrev cx : Reg := ⟨.c, .word⟩
abbrev ecx : Reg := ⟨.c, .dword⟩
abbrev dl : Reg := ⟨.d, .low⟩
abbrev dh : Reg := ⟨.d, .high⟩
abbrev edx : Reg := ⟨.d, .dword⟩
abbrev si : Reg := ⟨.si, .word⟩
abbrev esi : Reg := ⟨.si, .dword⟩
abbrev di : Reg := ⟨.di, .word⟩
abbrev edi : Reg := ⟨.di, .dword⟩
abbrev sp : Reg := ⟨.sp, .word⟩
abbrev esp : Reg := ⟨.sp, .dword⟩

end Reg

/-- The operations on a register. The increments are those that leave the carry. -/
inductive Alu
  | add | sub | inc | dec | clear | shl | shr | lor | land
  deriving DecidableEq, Repr

namespace Alu

/-- The result of an operation in `bits` bits, up to these. -/
@[simp] def value (bits x v : ℕ) : Alu → ℕ
  | add | inc => x + v
  | sub | dec => x + 2 ^ bits - v
  | clear => 0
  | shl => x * 2 ^ v
  | shr => x / 2 ^ v
  | lor => x ||| v
  | land => x &&& v

/-- The carry; that of a shift by at least one bit is the last bit shifted out. -/
@[simp] def carry (bits x v : ℕ) (cf : Bool) : Alu → Bool
  | add => 2 ^ bits ≤ x + v
  | sub => x < v
  | inc | dec => cf
  | shl => x * 2 ^ v / 2 ^ bits % 2 = 1
  | shr => x / 2 ^ (v - 1) % 2 = 1
  | clear | lor | land => false

end Alu

/-- A state of the processor and the memory, and the log of the accesses to devices. -/
structure Cpu (E : Type*) where
  regs : Gpr → ℕ
  es : ℕ
  cf : Bool
  zf : Bool
  mem : Memory
  log : List E

namespace Cpu

variable {E : Type*} (s : Cpu E)

def get (r : Reg) : ℕ := r.part.get (s.regs r.gpr)

/-- The effect of `mov` to a register. -/
def set (r : Reg) (v : ℕ) : Cpu E :=
  { s with regs := Function.update s.regs r.gpr (r.part.put (s.regs r.gpr) v) }

/-- The effect of `mov` to the memory. -/
def store (a n v : ℕ) : Cpu E := { s with mem := s.mem.store a n v }

def setEs (v : ℕ) : Cpu E := { s with es := v }

def setFlags (cf zf : Bool) : Cpu E := { s with cf := cf, zf := zf }

/-! ## Instructions -/

@[simp] def clc : Cpu E := s.setFlags false s.zf

def cmp (r : Reg) (v : ℕ) : Cpu E := s.setFlags (s.get r < v) (s.get r = v)

/-- An operation on a register with an operand. -/
def alu (op : Alu) (r : Reg) (v : ℕ) : Cpu E :=
  (s.set r (op.value r.part.bits (s.get r) v)).setFlags (op.carry r.part.bits (s.get r) v s.cf)
    (op.value r.part.bits (s.get r) v % 2 ^ r.part.bits = 0)

abbrev add (r : Reg) (v : ℕ) : Cpu E := s.alu .add r v

abbrev sub (r : Reg) (v : ℕ) : Cpu E := s.alu .sub r v

abbrev inc (r : Reg) : Cpu E := s.alu .inc r 1

abbrev dec (r : Reg) : Cpu E := s.alu .dec r 1

/-- The effect of `xor` of a register with itself. -/
abbrev clear (r : Reg) : Cpu E := s.alu .clear r 0

abbrev shl (r : Reg) (n : ℕ) : Cpu E := s.alu .shl r n

abbrev shr (r : Reg) (n : ℕ) : Cpu E := s.alu .shr r n

abbrev lor (r : Reg) (v : ℕ) : Cpu E := s.alu .lor r v

abbrev land (r : Reg) (v : ℕ) : Cpu E := s.alu .land r v

/-- The effect of `div` of `edx:eax`: nothing is said if the quotient does not fit.
    The flags, which are undefined, are left. -/
def div (v : ℕ) : Option (Cpu E) :=
  let n := s.get .edx * 2 ^ 32 + s.get .eax
  if v ≠ 0 ∧ n / v < 2 ^ 32 then some ((s.set .eax (n / v)).set .edx (n % v)) else none

/-! ## The stack -/

/-- The effect of `push` of `n` bytes with the stack pointer `sp`. -/
def push (sp : Reg) (n v : ℕ) : Cpu E :=
  let s := s.set sp (s.get sp + 2 ^ sp.part.bits - n)
  s.store (s.get sp) n v

/-- The effect of `pop` to the register `r`. -/
def pop (sp : Reg) (n : ℕ) (r : Reg) : Cpu E :=
  (s.set sp (s.get sp + n)).set r (s.mem.load (s.get sp) n)

/-- A call of the routine `f`, returning to the address `ra`: nothing is said about
    a routine that returns to another one. -/
def call (sp : Reg) (n ra : ℕ) (f : Cpu E → Option (Cpu E)) : Option (Cpu E) :=
  (f (s.push sp n ra)).bind fun s =>
    if s.mem.load (s.get sp) n = ra % 256 ^ n then some (s.set sp (s.get sp + n)) else none

variable {s} {t : Cpu E} {r r' : Reg} {v : ℕ}

theorem get_lt (s : Cpu E) (r : Reg) : s.get r < 2 ^ r.part.bits := Part.get_lt _ _

/-- What was pushed from a register fits in it when it is popped. -/
theorem get_mod_mod (s : Cpu E) (r : Reg) :
    s.get r % 2 ^ r.part.bits % 2 ^ r.part.bits = s.get r := by
  rw [Nat.mod_mod, Nat.mod_eq_of_lt (s.get_lt r)]

@[simp] theorem get_set_self : (s.set r v).get r = v % 2 ^ r.part.bits := by
  simp only [get, set, Function.update_self, Part.get_put]

@[simp] theorem get_set_of_ne (h : r'.gpr ≠ r.gpr) : (s.set r v).get r' = s.get r' := by
  simp only [get, set, Function.update_of_ne h]

theorem get_word {g : Gpr} : s.get ⟨g, .word⟩ = s.get ⟨g, .dword⟩ % 2 ^ 16 :=
  (Nat.mod_mod_of_dvd _ (by decide)).symm

theorem get_low {g : Gpr} : s.get ⟨g, .low⟩ = s.get ⟨g, .word⟩ % 2 ^ 8 :=
  (Nat.mod_mod_of_dvd _ (by decide)).symm

/-- Putting a value in one of the two low bytes leaves the other one. -/
@[simp] theorem get_set_high_low {g : Gpr} :
    (s.set ⟨g, .high⟩ v).get ⟨g, .low⟩ = s.get ⟨g, .low⟩ := by
  simp only [get, set, Function.update_self, Part.get, Part.put]
  omega

@[simp] theorem get_set_low_high {g : Gpr} :
    (s.set ⟨g, .low⟩ v).get ⟨g, .high⟩ = s.get ⟨g, .high⟩ := by
  simp only [get, set, Function.update_self, Part.get, Part.put]
  omega

@[simp] theorem get_set_dword_word {g : Gpr} :
    (s.set ⟨g, .dword⟩ v).get ⟨g, .word⟩ = v % 2 ^ 16 := by
  simp only [get, set, Function.update_self, Part.get, Part.put]
  omega

@[simp] theorem get_set_dword_low {g : Gpr} :
    (s.set ⟨g, .dword⟩ v).get ⟨g, .low⟩ = v % 2 ^ 8 := by
  simp only [get, set, Function.update_self, Part.get, Part.put]
  omega

theorem get_set_low_dword {g : Gpr} :
    (s.set ⟨g, .low⟩ v).get ⟨g, .dword⟩ = s.get ⟨g, .dword⟩ / 2 ^ 8 * 2 ^ 8 + v % 2 ^ 8 := by
  simp only [get, set, Function.update_self, Part.get, Part.put]
  omega

@[simp] theorem mem_set : (s.set r v).mem = s.mem := by cases s; rfl

@[simp] theorem es_set : (s.set r v).es = s.es := by cases s; rfl

@[simp] theorem cf_set : (s.set r v).cf = s.cf := by cases s; rfl

@[simp] theorem zf_set : (s.set r v).zf = s.zf := by cases s; rfl

@[simp] theorem log_set : (s.set r v).log = s.log := by cases s; rfl

variable {a n : ℕ} {c z : Bool}

@[simp] theorem get_setFlags : (s.setFlags c z).get r = s.get r := by cases s; rfl

@[simp] theorem mem_setFlags : (s.setFlags c z).mem = s.mem := by cases s; rfl

@[simp] theorem es_setFlags : (s.setFlags c z).es = s.es := by cases s; rfl

@[simp] theorem cf_setFlags : (s.setFlags c z).cf = c := by cases s; rfl

@[simp] theorem zf_setFlags : (s.setFlags c z).zf = z := by cases s; rfl

@[simp] theorem log_setFlags : (s.setFlags c z).log = s.log := by cases s; rfl

@[simp] theorem get_setEs : (s.setEs v).get r = s.get r := by cases s; rfl

@[simp] theorem mem_setEs : (s.setEs v).mem = s.mem := by cases s; rfl

@[simp] theorem es_setEs : (s.setEs v).es = v := by cases s; rfl

@[simp] theorem cf_setEs : (s.setEs v).cf = s.cf := by cases s; rfl

@[simp] theorem log_setEs : (s.setEs v).log = s.log := by cases s; rfl

@[simp] theorem get_store : (s.store a n v).get r = s.get r := by cases s; rfl

@[simp] theorem mem_store : (s.store a n v).mem = s.mem.store a n v := by cases s; rfl

@[simp] theorem es_store : (s.store a n v).es = s.es := by cases s; rfl

@[simp] theorem cf_store : (s.store a n v).cf = s.cf := by cases s; rfl

@[simp] theorem zf_store : (s.store a n v).zf = s.zf := by cases s; rfl

@[simp] theorem log_store : (s.store a n v).log = s.log := by cases s; rfl

@[simp] theorem get_cmp : (s.cmp r v).get r' = s.get r' := by cases s; rfl

@[simp] theorem mem_cmp : (s.cmp r v).mem = s.mem := by cases s; rfl

@[simp] theorem es_cmp : (s.cmp r v).es = s.es := by cases s; rfl

@[simp] theorem cf_cmp : (s.cmp r v).cf = decide (s.get r < v) := by cases s; rfl

@[simp] theorem zf_cmp : (s.cmp r v).zf = decide (s.get r = v) := by cases s; rfl

theorem zf_cmp_of_eq (h : s.get r = v) : (s.cmp r v).zf = true := by
  rw [zf_cmp, decide_eq_true h]

theorem zf_cmp_of_ne (h : s.get r ≠ v) : (s.cmp r v).zf = false := by
  rw [zf_cmp, decide_eq_false h]

/-- No number is below zero. -/
theorem cf_cmp_zero : (s.cmp r 0).cf = false := by
  rw [cf_cmp, decide_eq_false (Nat.not_lt_zero _)]

@[simp] theorem log_cmp : (s.cmp r v).log = s.log := by cases s; rfl

variable {op : Alu}

@[simp] theorem get_alu_self :
    (s.alu op r v).get r = op.value r.part.bits (s.get r) v % 2 ^ r.part.bits := by
  rw [alu, get_setFlags, get_set_self]

@[simp] theorem get_alu_of_ne (h : r'.gpr ≠ r.gpr) : (s.alu op r v).get r' = s.get r' := by
  rw [alu, get_setFlags, get_set_of_ne h]

@[simp] theorem get_alu_low_high {g : Gpr} :
    (s.alu op ⟨g, .low⟩ v).get ⟨g, .high⟩ = s.get ⟨g, .high⟩ := by
  rw [alu, get_setFlags, get_set_low_high]

@[simp] theorem mem_alu : (s.alu op r v).mem = s.mem := by cases s; rfl

@[simp] theorem es_alu : (s.alu op r v).es = s.es := by cases s; rfl

@[simp] theorem cf_alu :
    (s.alu op r v).cf = op.carry r.part.bits (s.get r) v s.cf := by cases s; rfl

@[simp] theorem log_alu : (s.alu op r v).log = s.log := by cases s; rfl

theorem get_add (h : s.get r + v < 2 ^ r.part.bits) : (s.add r v).get r = s.get r + v := by
  rw [get_alu_self, Alu.value, Nat.mod_eq_of_lt h]

theorem get_dec {r : Reg} (h : s.get r ≠ 0) : (s.dec r).get r = s.get r - 1 := by
  have hlt := s.get_lt r
  rw [get_alu_self, Alu.value,
    show s.get r + 2 ^ r.part.bits - 1 = s.get r - 1 + 2 ^ r.part.bits by omega,
    Nat.add_mod_right, Nat.mod_eq_of_lt (by omega)]

variable {sp : Reg}

/-- The stack pointer after a push that does not wrap. -/
theorem get_push_self (h : n ≤ s.get sp) : (s.push sp n v).get sp = s.get sp - n := by
  have hlt := s.get_lt sp
  rw [push, get_store, get_set_self]
  rw [show s.get sp + 2 ^ sp.part.bits - n = s.get sp - n + 2 ^ sp.part.bits by omega,
    Nat.add_mod_right, Nat.mod_eq_of_lt (by omega)]

theorem mem_push (h : n ≤ s.get sp) : (s.push sp n v).mem = s.mem.store (s.get sp - n) n v := by
  have hsp := get_push_self (v := v) h
  rw [push, get_store] at hsp
  rw [push, mem_store, hsp, mem_set]

@[simp] theorem get_push_of_ne (h : r.gpr ≠ sp.gpr) : (s.push sp n v).get r = s.get r := by
  rw [push, get_store, get_set_of_ne h]

@[simp] theorem es_push : (s.push sp n v).es = s.es := by cases s; rfl

@[simp] theorem cf_push : (s.push sp n v).cf = s.cf := by cases s; rfl

@[simp] theorem log_push : (s.push sp n v).log = s.log := by cases s; rfl

@[simp] theorem get_pop_of_ne (h : r'.gpr ≠ r.gpr) (h' : r'.gpr ≠ sp.gpr) :
    (s.pop sp n r).get r' = s.get r' := by
  rw [pop, get_set_of_ne h, get_set_of_ne h']

@[simp] theorem mem_pop : (s.pop sp n r).mem = s.mem := by cases s; rfl

@[simp] theorem es_pop : (s.pop sp n r).es = s.es := by cases s; rfl

@[simp] theorem cf_pop : (s.pop sp n r).cf = s.cf := by cases s; rfl

@[simp] theorem zf_pop : (s.pop sp n r).zf = s.zf := by cases s; rfl

@[simp] theorem log_pop : (s.pop sp n r).log = s.log := by cases s; rfl

/-! ## The registers that are changed -/

/-- From `s` to `t`, no other registers are changed than parts of `gs`. -/
def Modifies (gs : List Gpr) (s t : Cpu E) : Prop := ∀ r : Reg, r.gpr ∉ gs → t.get r = s.get r

namespace Modifies

variable {gs gs' : List Gpr} {u : Cpu E}

theorem get_eq (h : Modifies gs s t) (hr : r.gpr ∉ gs) : t.get r = s.get r := h r hr

theorem trans (h : Modifies gs s t) (h' : Modifies gs' t u) : Modifies (gs ++ gs') s u := by
  intro r hr
  rw [List.mem_append, not_or] at hr
  exact (h' r hr.2).trans (h r hr.1)

theorem mono (h : Modifies gs s t) (hg : gs ⊆ gs') : Modifies gs' s t :=
  fun r hr => h r fun hr' => hr (hg hr')

theorem set {g : Gpr} {p : Part} : Modifies [g] s (s.set ⟨g, p⟩ v) :=
  fun _ hr => get_set_of_ne (List.ne_of_not_mem_cons hr)

theorem store : Modifies [] s (s.store a n v) := fun _ _ => get_store

theorem cmp : Modifies [] s (s.cmp r v) := fun _ _ => get_cmp

theorem alu {g : Gpr} {p : Part} : Modifies [g] s (s.alu op ⟨g, p⟩ v) :=
  fun _ hr => get_alu_of_ne (List.ne_of_not_mem_cons hr)

theorem push {g : Gpr} {p : Part} : Modifies [g] s (s.push ⟨g, p⟩ n v) :=
  fun _ hr => get_push_of_ne (List.ne_of_not_mem_cons hr)

theorem pop {g g' : Gpr} {p p' : Part} : Modifies [g, g'] s (s.pop ⟨g, p⟩ n ⟨g', p'⟩) :=
  fun _ hr => get_pop_of_ne (List.ne_of_not_mem_cons (List.not_mem_of_not_mem_cons hr))
    (List.ne_of_not_mem_cons hr)

end Modifies

/-! ## Routines and the stack -/

/-- From `s` to `t`, the stack pointer is left, and nothing is written but addresses
    of `W` and the `depth` bytes below the stack pointer. -/
structure Leaves (sp : Reg) (depth : ℕ) (W : Set ℕ) (s t : Cpu E) : Prop where
  sp_eq : t.get sp = s.get sp
  mem_eq : ∀ x ∉ W, x + depth < s.get sp ∨ s.get sp ≤ x → t.mem x = s.mem x

variable {depth : ℕ} {W : Set ℕ}

namespace Leaves

theorem refl (s : Cpu E) : Leaves sp depth W s s := ⟨rfl, fun _ _ _ => rfl⟩

theorem trans {u : Cpu E} (h : Leaves sp depth W s t) (h' : Leaves sp depth W t u) :
    Leaves sp depth W s u where
  sp_eq := h'.sp_eq.trans h.sp_eq
  mem_eq x hx hs := (h'.mem_eq x hx (h.sp_eq ▸ hs)).trans (h.mem_eq x hx hs)

theorem mono {depth' : ℕ} {W' : Set ℕ} (h : Leaves sp depth W s t) (hd : depth ≤ depth')
    (hW : W ⊆ W') : Leaves sp depth' W' s t :=
  ⟨h.sp_eq, fun x hx hs => h.mem_eq x (fun hx' => hx (hW hx')) (by omega)⟩

/-- A change of registers other than the stack pointer. -/
theorem of_mem_eq (hsp : t.get sp = s.get sp) (hm : t.mem = s.mem) : Leaves sp depth W s t :=
  ⟨hsp, fun x _ _ => congrFun hm x⟩

/-- What has been pushed is still there after a routine that leaves it. -/
theorem load_eq (hn : n ≤ s.get sp) (hW : ∀ x ∈ W, x + n < s.get sp ∨ s.get sp ≤ x)
    (h : Leaves sp depth W (s.push sp n v) t) : t.mem.load (t.get sp) n = v % 256 ^ n := by
  rw [h.sp_eq, get_push_self hn, ← Memory.load_store s.mem (s.get sp - n) n v, ← mem_push hn]
  refine Memory.load_congr fun i hi => h.mem_eq _ (fun hx => ?_) ?_
  · have := hW _ hx
    omega
  · rw [get_push_self hn]
    omega

/-- The stack pointer after a routine behind a push, and a pop. -/
theorem sp_add (hn : n ≤ s.get sp) (h : Leaves sp depth W (s.push sp n v) t) :
    t.get sp + n = s.get sp := by
  rw [h.sp_eq, get_push_self hn]
  omega

/-- A push, a routine that leaves what is pushed, and giving back its room. -/
theorem of_push (hn : n ≤ s.get sp) (h : Leaves sp depth W (s.push sp n v) t) :
    Leaves sp (depth + n) W s (t.set sp (t.get sp + n)) := by
  refine ⟨?_, fun x hx hs => ?_⟩
  · rw [get_set_self, h.sp_add hn, Nat.mod_eq_of_lt (s.get_lt sp)]
  · rw [mem_set, h.mem_eq x hx (by rw [get_push_self hn]; omega), mem_push hn]
    exact Memory.write_of_not_mem (by omega)

/-- Behind a routine that leaves what is pushed, a pop gives it back. -/
theorem get_pop (hn : n ≤ s.get sp) (hW : ∀ x ∈ W, x + n < s.get sp ∨ s.get sp ≤ x)
    (h : Leaves sp depth W (s.push sp n v) t) (r : Reg) :
    (t.pop sp n r).get r = v % 256 ^ n % 2 ^ r.part.bits := by
  rw [pop, get_set_self, h.load_eq hn hW]

/-- A push, a routine that leaves what is pushed, and a pop. -/
theorem pop (hn : n ≤ s.get sp) (h : Leaves sp depth W (s.push sp n v) t)
    (hr : sp.gpr ≠ r.gpr) : Leaves sp (depth + n) W s (t.pop sp n r) :=
  (h.of_push hn).trans (.of_mem_eq (by rw [Cpu.pop, get_set_of_ne hr]) rfl)

/-- A register that is saved on the stack while a routine runs is the same behind it, and
    the other ones are as the routine has left them. -/
theorem saved (hn : n ≤ s.get sp) (hW : ∀ x ∈ W, x + n < s.get sp ∨ s.get sp ≤ x)
    (h : Leaves sp depth W (s.push sp n (s.get r)) t) (hr : sp.gpr ≠ r.gpr)
    (hbits : 256 ^ n = 2 ^ r.part.bits) :
    ∃ u, t.pop sp n r = u ∧ Leaves sp (depth + n) W s u ∧ u.get r = s.get r ∧ u.mem = t.mem ∧
      Modifies [sp.gpr, r.gpr] t u := by
  refine ⟨_, rfl, h.pop hn hr, ?_, mem_pop, .pop⟩
  rw [h.get_pop hn hW, hbits, s.get_mod_mod]

/-- A call of a routine that leaves the return address returns. -/
theorem call_eq {ra : ℕ} {f : Cpu E → Option (Cpu E)} (hn : n ≤ s.get sp)
    (hW : ∀ x ∈ W, x + n < s.get sp ∨ s.get sp ≤ x) (hf : f (s.push sp n ra) = some t)
    (h : Leaves sp depth W (s.push sp n ra) t) :
    s.call sp n ra f = some (t.set sp (t.get sp + n)) := by
  rw [call, hf, Option.bind_some, if_pos (h.load_eq hn hW)]

end Leaves

end Cpu

end X86

end KessokuOS
