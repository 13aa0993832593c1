import KessokuOS.Common

/-!
# The interrupt descriptor table

The table has 256 entries (`Idt`), of which every one leads to a handler
(`Idt.setEntry`). The processor is told where the table is and where it ends
(`Idt.loadTable`), and finds the handler of an interrupt by its vector
(`Idt.offset`).

`initializeIdt_spec` says what a table is like after its initialisation,
`entries_setEntry` what setting one entry changes, and `offset_of_leadsTo` where an
interrupt then leads.
-/

namespace KessokuOS

/-- The kind of a gate of the table. -/
inductive IDTGateType
  | task
  | interrupt
  | trap
  deriving DecidableEq, Repr

/-- An entry of the table; the address of its handler is in two halves. -/
structure IDTEntry where
  offsetLo : BitVec 16
  segmentSelector : BitVec 16
  reserved : BitVec 8
  misc : BitVec 8
  offsetHi : BitVec 16
  deriving DecidableEq, Repr

/-- The type of the gate, whether it is one of 32 bits, and that it is present. -/
def generateMiscByte (gateType : IDTGateType) (is32bit : Bool) : BitVec 8 :=
  match gateType with
  | .task => 0b10000101
  | .interrupt => if !is32bit then 0b10000110 else 0b10001110
  | .trap => if !is32bit then 0b10000111 else 0b10001111

def idtEntryCreate (offset : BitVec 32) (segmentSelector : BitVec 16) (gateType : IDTGateType)
    (is32bit : Bool) : IDTEntry where
  offsetLo := if gateType ≠ .task then (offset >>> 0).setWidth 16 else 0
  segmentSelector := segmentSelector
  reserved := 0
  misc := generateMiscByte gateType is32bit
  offsetHi := if gateType ≠ .task then (offset >>> 16).setWidth 16 else 0

def idtMaxEntryCount : ℕ := 256

/-- The table, and its size in bytes. -/
structure Idt where
  size : BitVec 16
  entries : ℕ → IDTEntry

namespace Idt

/-- `IDT::set_entry`, of the handler at `handlerAddress`. -/
def setEntry (t : Idt) (index : ℕ) (handlerAddress : BitVec 32) (segmentSelector : BitVec 16)
    (gateType : IDTGateType) (is32bit : Bool) : ErrorOr Unit × Idt :=
  if idtMaxEntryCount ≤ index then (.error .indexOutOfRange, t)
  else
    let entry := idtEntryCreate handlerAddress segmentSelector gateType is32bit
    (.ok (), { t with entries := Function.update t.entries index entry })

/-- The entries from the index `i` on, with `n` left, set to the handler at
    `handlerAddress`. -/
def setEntriesFrom (handlerAddress : BitVec 32) : (i n : ℕ) → Idt → Idt
  | _, 0, t => t
  | i, n + 1, t =>
    setEntriesFrom handlerAddress (i + 1) n (t.setEntry i handlerAddress 0x0008 .interrupt true).2

/-- `IDT::initialize`, with the address of the handler of last resort. -/
def initializeIdt (t : Idt) (interruptHandler : BitVec 32) : Idt :=
  { setEntriesFrom interruptHandler 0 idtMaxEntryCount t with
    size := BitVec.ofNat 16 (8 * idtMaxEntryCount) }

/-- `IDT::load_table`: the size told to the processor is that of the table less one. -/
def loadTable (t : Idt) : Idt := { t with size := t.size - 1 }

/-- The address at which the processor continues on an interrupt with this vector,
    through an interrupt gate of 32 bits; the last byte of its entry has to be in the
    table. -/
def offset (t : Idt) (vector : BitVec 8) : Option (BitVec 32) :=
  if 8 * vector.toNat + 7 ≤ t.size.toNat ∧ (t.entries vector.toNat).misc = 0b10001110 then
    some ((t.entries vector.toNat).offsetHi ++ (t.entries vector.toNat).offsetLo)
  else none

variable {t : Idt} {address : BitVec 32}

/-- The two halves of an address make it up. -/
theorem append_halves (a : BitVec 32) :
    (a >>> 16).setWidth 16 ++ (a >>> 0).setWidth 16 = a := by
  ext i hi
  simp only [BitVec.getElem_append, BitVec.getElem_setWidth, BitVec.getLsbD_ushiftRight]
  by_cases h : i < 16
  · simp [h, BitVec.getLsbD_eq_getElem hi]
  · have : 16 + (i - 16) = i := by omega
    simp [h, this, BitVec.getLsbD_eq_getElem hi]

/-- An entry is one of the handler at `address`. -/
def LeadsTo (e : IDTEntry) (address : BitVec 32) : Prop :=
  e.misc = 0b10001110 ∧ e.offsetHi ++ e.offsetLo = address

theorem leadsTo_idtEntryCreate : LeadsTo (idtEntryCreate address 0x0008 .interrupt true) address :=
  ⟨rfl, append_halves address⟩

theorem offset_of_leadsTo {vector : BitVec 8} (hs : t.size = 2047)
    (h : LeadsTo (t.entries vector.toNat) address) : t.offset vector = some address := by
  have hv := vector.isLt
  rw [offset, if_pos, h.2]
  refine ⟨?_, h.1⟩
  rw [hs]
  simp only [BitVec.ofNat_eq_ofNat, BitVec.toNat_ofNat]
  omega

theorem entries_setEntry {index : ℕ} (h : index < idtMaxEntryCount) (sel : BitVec 16)
    (g : IDTGateType) (b : Bool) : (t.setEntry index address sel g b).2.entries =
      Function.update t.entries index (idtEntryCreate address sel g b) := by
  rw [setEntry, if_neg (not_le.2 h)]

/-- An entry that has been set leads to its handler. -/
theorem leadsTo_setEntry {index : ℕ} (h : index < idtMaxEntryCount) :
    LeadsTo ((t.setEntry index address 0x0008 .interrupt true).2.entries index) address := by
  rw [entries_setEntry h, Function.update_self]
  exact leadsTo_idtEntryCreate

/-- Setting an entry keeps the others. -/
theorem entries_setEntry_of_ne {index k : ℕ} (hk : k ≠ index) (sel : BitVec 16)
    (g : IDTGateType) (b : Bool) :
    (t.setEntry index address sel g b).2.entries k = t.entries k := by
  rw [setEntry]
  split_ifs
  · rfl
  · exact Function.update_of_ne hk _ _

theorem size_setEntry (index : ℕ) (sel : BitVec 16) (g : IDTGateType) (b : Bool) :
    (t.setEntry index address sel g b).2.size = t.size := by
  rw [setEntry]
  split_ifs <;> rfl

theorem entries_setEntriesFrom {i n k : ℕ} (h : i + n ≤ idtMaxEntryCount) :
    (setEntriesFrom address i n t).entries k =
      if i ≤ k ∧ k < i + n then idtEntryCreate address 0x0008 .interrupt true
      else t.entries k := by
  induction n generalizing i t with
  | zero => rw [setEntriesFrom, if_neg (by omega)]
  | succ n ih =>
    rw [setEntriesFrom, ih (by omega), entries_setEntry (by omega)]
    by_cases hk : k = i
    · rw [hk, if_neg (by omega), if_pos (by omega), Function.update_self]
    · rw [Function.update_of_ne hk]
      exact if_congr (by omega) rfl rfl

/-- All entries of the initialised table lead to the handler of last resort. -/
theorem initializeIdt_spec (t : Idt) {k : ℕ} (h : k < idtMaxEntryCount) :
    LeadsTo ((t.initializeIdt address).entries k) address := by
  unfold initializeIdt
  rw [entries_setEntriesFrom (by omega), if_pos (by omega)]
  exact leadsTo_idtEntryCreate

end Idt

end KessokuOS
