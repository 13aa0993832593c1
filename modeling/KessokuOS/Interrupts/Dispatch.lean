import KessokuOS.Drivers.Floppy.Driver
import KessokuOS.Drivers.Keyboard.Basic
import KessokuOS.Interrupts.Idt
import KessokuOS.Lib.Run

/-!
# The interrupts of the kernel

The kernel installs handlers for the interrupts of the timer, the keyboard and the
floppy disk controller, and a handler of last resort for all others (`kernelIdt`).
An interrupt runs the handler whose address its vector leads to (`Kernel.deliver`).

* `deliver_eq`: the controllers are acknowledged by the number that the handler of
  the line passes (`endOfInterruptNumber`);
* `balanced_iff`: nothing stays in service behind each interrupt of a run exactly
  when the run has no interrupt of the slave: these go to the handler of last resort,
  which passes `0`, so that the slave is never told the end of its interrupt.
-/

namespace KessokuOS

/-- The addresses of the handlers, which are different functions. -/
structure Handlers where
  intervalHandler : BitVec 32
  keyboardHandler : BitVec 32
  floppyHandler : BitVec 32
  interruptHandler : BitVec 32
  nodup : [intervalHandler, keyboardHandler, floppyHandler, interruptHandler].Nodup

/-- What the handlers of interrupts work on. -/
structure Kernel where
  pics : Pics
  pit : Pit
  keyboard : Keyboard
  waitingForIRQ : Bool

/-- The table that `kernel_main` sets up, and tells the processor of. -/
def kernelIdt (h : Handlers) (t : Idt) : Idt :=
  let t := t.initializeIdt h.interruptHandler
  let t := (t.setEntry 0x20 h.intervalHandler 0x00000008 .interrupt true).2
  let t := (t.setEntry 0x21 h.keyboardHandler 0x00000008 .interrupt true).2
  let t := (t.setEntry 0x26 h.floppyHandler 0x00000008 .interrupt true).2
  t.loadTable

namespace Kernel

variable (h : Handlers)

/-- Runs the handler at an address. -/
def call (k : Kernel) (address : BitVec 32) : Option Kernel :=
  if address = h.intervalHandler then
    let (pit, pics) := k.pit.intervalHandler k.pics
    some { k with pit, pics }
  else if address = h.keyboardHandler then
    let (keyboard, pics) := k.keyboard.keyboardHandler k.pics
    some { k with keyboard, pics }
  else if address = h.floppyHandler then
    let (waitingForIRQ, pics) := Floppy.floppyHandler k.pics
    some { k with waitingForIRQ, pics }
  else if address = h.interruptHandler then some { k with pics := k.pics.interruptHandler }
  else none

/-- The interrupt of a line: the processor acknowledges it, finds the handler of its
    vector and runs it to its end. -/
def deliver (t : Idt) (k : Kernel) (line : Fin 16) : Option Kernel :=
  let (vector, pics) := k.pics.acknowledge line
  (t.offset vector).bind ({ k with pics }.call h)

/-- The kernel once it has initialised the controllers of the interrupts. -/
def initializePic (k : Kernel) : Kernel := { k with pics := k.pics.initializePic }

/-- Behind each of the interrupts of `lines`, one after the other, nothing is in
    service, and no line has to wait. -/
def Balanced (t : Idt) (k : Kernel) (lines : List (Fin 16)) : Prop :=
  ∀ l, l <+: lines → ∃ k', Run.run (deliver h t) k l = some k' ∧ k'.pics.Idle ∧
    ∀ line, ¬k'.pics.Blocked line

/-- The address of the handler of a line. -/
def handlerOf (line : Fin 16) : BitVec 32 :=
  if line.val = 0 then h.intervalHandler
  else if line.val = 1 then h.keyboardHandler
  else if line.val = 6 then h.floppyHandler
  else h.interruptHandler

/-- The number by which the handler of a line acknowledges its interrupt. -/
def endOfInterruptNumber (line : Fin 16) : BitVec 8 :=
  if line.val = 0 then 0x20 else if line.val = 1 then 0x21 else 0

variable {h} {t : Idt} {k : Kernel} {mask₁ mask₂ : BitVec 8}

theorem size_kernelIdt : (kernelIdt h t).size = 2047 := by
  rw [kernelIdt]
  simp only [Idt.loadTable, Idt.size_setEntry]
  show BitVec.ofNat 16 (8 * idtMaxEntryCount) - 1 = 2047
  decide

/-- The entry of the vector of a line leads to its handler. -/
theorem leadsTo_kernelIdt (line : Fin 16) :
    Idt.LeadsTo ((kernelIdt h t).entries (0x20 + line.val)) (handlerOf h line) := by
  rw [kernelIdt, Idt.loadTable, handlerOf]
  dsimp only
  -- The entries are set one after the other, so that the last one that is of the vector
  -- counts, or else the one of the initialisation.
  by_cases h₆ : line.val = 6
  · rw [if_neg (by omega), if_neg (by omega), if_pos h₆, h₆]
    exact Idt.leadsTo_setEntry (show 0x26 < idtMaxEntryCount by decide)
  rw [Idt.entries_setEntry_of_ne (by omega)]
  by_cases h₁ : line.val = 1
  · rw [if_neg (by omega), if_pos h₁, h₁]
    exact Idt.leadsTo_setEntry (show 0x21 < idtMaxEntryCount by decide)
  rw [Idt.entries_setEntry_of_ne (by omega)]
  by_cases h₀ : line.val = 0
  · rw [if_pos h₀, h₀]
    exact Idt.leadsTo_setEntry (show 0x20 < idtMaxEntryCount by decide)
  rw [Idt.entries_setEntry_of_ne (by omega), if_neg h₀, if_neg h₁, if_neg h₆]
  refine Idt.initializeIdt_spec t ?_
  show 0x20 + line.val < 256
  omega

theorem offset_kernelIdt (line : Fin 16) :
    (kernelIdt h t).offset (BitVec.ofNat 8 (0x20 + line.val)) = some (handlerOf h line) := by
  have hv : (BitVec.ofNat 8 (0x20 + line.val)).toNat = 0x20 + line.val := by
    rw [BitVec.toNat_ofNat]
    omega
  refine Idt.offset_of_leadsTo size_kernelIdt ?_
  rw [hv]
  exact leadsTo_kernelIdt line

/-- The handler of a line runs, and acknowledges the interrupt by its number. -/
theorem call_handlerOf (k : Kernel) (line : Fin 16) : ∃ k', k.call h (handlerOf h line) = some k' ∧
    k'.pics = k.pics.sendEndOfInterrupt (endOfInterruptNumber line) := by
  have hn := h.nodup
  simp only [List.nodup_cons, List.mem_cons, List.not_mem_nil, not_or, or_false] at hn
  obtain ⟨⟨h₁₂, h₁₃, h₁₄⟩, ⟨h₂₃, h₂₄⟩, h₃₄, -⟩ := hn
  rw [handlerOf, endOfInterruptNumber]
  -- The addresses differ, so that each finds its own handler.
  split_ifs
  · exact ⟨_, if_pos rfl, rfl⟩
  · exact ⟨_, (if_neg (Ne.symm h₁₂)).trans (if_pos rfl), rfl⟩
  · exact ⟨_, (if_neg (Ne.symm h₁₃)).trans ((if_neg (Ne.symm h₂₃)).trans (if_pos rfl)), rfl⟩
  · exact ⟨_, (if_neg (Ne.symm h₁₄)).trans ((if_neg (Ne.symm h₂₄)).trans
      ((if_neg (Ne.symm h₃₄)).trans (if_pos rfl))), rfl⟩

/-- An interrupt of the programmed, idle controllers. -/
theorem deliver_eq (hk : k.pics = .programmed mask₁ mask₂) (line : Fin 16) :
    ∃ k', deliver h (kernelIdt h t) k line = some k' ∧ k'.pics =
      ((Pics.programmed mask₁ mask₂).acknowledge line).2.sendEndOfInterrupt
        (endOfInterruptNumber line) := by
  rw [deliver, hk]
  dsimp only
  rw [Pics.acknowledge_programmed_fst, offset_kernelIdt]
  exact call_handlerOf _ line

/-- No line of the slave has a handler that passes a number of the slave. -/
theorem lt_of_endOfInterruptNumber {line : Fin 16}
    (hl : line.val < 8 ∨ 8 ≤ (endOfInterruptNumber line).toNat) : line.val < 8 := by
  rcases hl with hl | hl
  · exact hl
  · by_contra hline
    rw [endOfInterruptNumber, if_neg (by omega), if_neg (by omega)] at hl
    exact absurd hl (by decide)

/-- Runs of interrupts of the master leave the controllers as they are. -/
theorem run_deliver (hk : k.pics = .programmed mask₁ mask₂) {l : List (Fin 16)}
    (hl : ∀ line ∈ l, line.val < 8) : ∃ k', Run.run (deliver h (kernelIdt h t)) k l = some k' ∧
      k'.pics = .programmed mask₁ mask₂ := by
  induction l generalizing k with
  | nil => exact ⟨k, rfl, hk⟩
  | cons line l ih =>
    obtain ⟨k₁, hk₁, hp⟩ := deliver_eq (h := h) (t := t) hk line
    rw [Pics.sendEndOfInterrupt_acknowledge_of_lt _ _ _ (hl line List.mem_cons_self)] at hp
    obtain ⟨k', hk', hp'⟩ := ih hp fun x hx => hl x (List.mem_cons_of_mem line hx)
    exact ⟨k', Run.run_cons.2 ⟨k₁, hk₁, hk'⟩, hp'⟩

/-- If interrupts are balanced, so are those behind the first one. -/
theorem Balanced.tail {line : Fin 16} {l : List (Fin 16)} {k₁ : Kernel}
    (hb : Balanced h t k (line :: l)) (hk₁ : deliver h t k line = some k₁) :
    Balanced h t k₁ l := by
  intro l' hl'
  obtain ⟨k', hk', hbal⟩ := hb (line :: l') (List.cons_prefix_cons.2 ⟨rfl, hl'⟩)
  obtain ⟨k₂, hk₂, hk'⟩ := Run.run_cons.1 hk'
  rw [hk₁, Option.some_inj] at hk₂
  exact ⟨k', hk₂ ▸ hk', hbal⟩

/-- Balanced interrupts of programmed, idle controllers are all of the master. -/
theorem lt_of_balanced (hk : k.pics = .programmed mask₁ mask₂) {l : List (Fin 16)}
    (hb : Balanced h (kernelIdt h t) k l) : ∀ line ∈ l, line.val < 8 := by
  induction l generalizing k with
  | nil => exact fun line hline => absurd hline List.not_mem_nil
  | cons line l ih =>
    obtain ⟨k₁, hk₁, hp⟩ := deliver_eq (h := h) (t := t) hk line
    -- Behind the first interrupt nothing is in service, so that it is one of the master:
    -- then the controllers are as before it.
    have hline : line.val < 8 := by
      obtain ⟨k', hk', hidle, -⟩ := hb [line] (List.prefix_append [line] l)
      rw [Run.run, hk₁, Option.bind_some, Run.run, Option.some_inj] at hk'
      rw [← hk', hp, Pics.idle_acknowledged] at hidle
      exact lt_of_endOfInterruptNumber hidle
    rw [Pics.sendEndOfInterrupt_acknowledge_of_lt _ _ _ hline] at hp
    intro x hx
    rcases List.mem_cons.1 hx with rfl | hx
    · exact hline
    · exact ih hp (hb.tail hk₁) x hx

/-- From the initialisation of the controllers on, nothing stays in service behind
    each of the interrupts of `lines`, and none has to wait, exactly when none of them
    is one of the slave. -/
theorem balanced_iff (h : Handlers) (t : Idt) (k : Kernel) (lines : List (Fin 16)) :
    Balanced h (kernelIdt h t) k.initializePic lines ↔ ∀ line ∈ lines, line.val < 8 := by
  have hk : k.initializePic.pics = .programmed k.pics.master.mask k.pics.slave.mask :=
    Pics.initializePic_eq k.pics
  constructor
  · exact lt_of_balanced hk
  · intro hlines l hl
    obtain ⟨k', hk', hp⟩ := run_deliver (h := h) (t := t) hk fun x hx =>
      hlines x (hl.subset hx)
    have hidle : k'.pics.Idle := hp ▸ Pics.idle_programmed _ _
    exact ⟨k', hk', hidle, Pics.not_blocked_of_idle hidle⟩

/-- An interrupt of the clock, on the first line of the slave, stays in service. -/
theorem not_balanced_clock : ¬Balanced ⟨0x1000, 0x1010, 0x1020, 0x1030, by decide⟩
    (kernelIdt ⟨0x1000, 0x1010, 0x1020, 0x1030, by decide⟩ ⟨0, fun _ => ⟨0, 0, 0, 0, 0⟩⟩)
    (initializePic ⟨.programmed 0 0, ⟨0, Nat.two_pow_pos 32⟩, .noneWaiting, false⟩) [8] := by
  intro hb
  have h₈ := lt_of_balanced (Pics.initializePic_eq _) hb 8 (List.mem_singleton.2 rfl)
  exact absurd h₈ (by decide)

end Kernel

end KessokuOS
