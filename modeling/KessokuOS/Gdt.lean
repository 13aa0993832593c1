import Mathlib.Logic.Function.Basic
import KessokuOS.Common
import KessokuOS.Lib.Machine

/-!
# The global descriptor table

The table has room for five entries. How many there are is computed from the size in
bytes, from which `loadTable` takes one, as the processor wants to know the last byte and
not the number of them. The entry that is added next then overwrites the last one.

A table that is built is a list of entries (`Builds`), in which each entry keeps its index,
and of which the processor is told the right limit.

* `run_of_not_mem`: as long as no table is loaded, it is built;
* `builds_iff`: calls build a table exactly if none of them comes behind its loading.
-/

namespace KessokuOS

structure GDTEntry where
  w1 : BitVec 16
  w2 : BitVec 16
  w3 : BitVec 16
  w4 : BitVec 16
  deriving DecidableEq, Repr

/-- The number of bytes of an entry. -/
def sizeofGDTEntry : ℕ := 8

def gdtMaxEntryCount : ℕ := 5

/-- The table, and the indices at which an entry has been stored, the first one first. -/
structure Gdt where
  size : BitVec 16
  entries : ℕ → GDTEntry
  stores : List ℕ

namespace Gdt

/-- The table before the first call. -/
def start : Gdt := ⟨0, fun _ => ⟨0, 0, 0, 0⟩, []⟩

/-- `GDT::add_entry`. -/
def addEntry (t : Gdt) (w1 w2 w3 w4 : BitVec 16) : ErrorOr Unit × Gdt :=
  let entryCount := t.size.toNat / sizeofGDTEntry
  if gdtMaxEntryCount ≤ entryCount then (.error .containerIsFull, t)
  else (.ok (), {
    size := t.size + BitVec.ofNat 16 sizeofGDTEntry
    entries := Function.update t.entries entryCount ⟨w1, w2, w3, w4⟩
    stores := t.stores ++ [entryCount] })

/-- `GDT::load_table`, with the limit that the processor is told. -/
def loadTable (t : Gdt) : BitVec 16 × Gdt := (t.size - 1, { t with size := t.size - 1 })

/-- A call that concerns the table. -/
inductive Call
  | addEntry (w1 w2 w3 w4 : BitVec 16)
  | loadTable
  deriving DecidableEq, Repr

/-- What a call returns, or tells the processor. -/
inductive Answer
  | added (r : ErrorOr Unit)
  | loaded (limit : BitVec 16)

def step (t : Gdt) : Call → Answer × Gdt
  | .addEntry w1 w2 w3 w4 =>
    let (r, t) := t.addEntry w1 w2 w3 w4
    (.added r, t)
  | .loadTable =>
    let (limit, t) := t.loadTable
    (.loaded limit, t)

/-! ## The list of the entries -/

/-- A call on the list of the entries. The limit is that of as many entries as there are,
    in 16 bits. -/
def listStep (l : List GDTEntry) : Call → Answer × List GDTEntry
  | .addEntry w1 w2 w3 w4 =>
    if l.length = gdtMaxEntryCount then (.added (.error .containerIsFull), l)
    else (.added (.ok ()), l ++ [⟨w1, w2, w3, w4⟩])
  | .loadTable => (.loaded (BitVec.ofNat 16 (sizeofGDTEntry * l.length) - 1), l)

/-- The entries `l` have been stored at the indices from `0` on, and none has been
    overwritten. -/
structure Holds (t : Gdt) (l : List GDTEntry) : Prop where
  stores_eq : t.stores = List.range l.length
  entries_eq : ∀ i (h : i < l.length), t.entries i = l[i]

/-- Some calls build a table: the answers are those of the list of the entries, which are
    all held, and a call that fails changes nothing. -/
structure Builds (calls : List Call) : Prop where
  answers : (Machine.run step start calls).1 = (Machine.run listStep [] calls).1
  holds : Holds (Machine.run step start calls).2 (Machine.run listStep [] calls).2
  failed : ∀ p ∈ Machine.visits step start calls, ∀ e,
    (step p.1 p.2).1 = .added (.error e) → (step p.1 p.2).2 = p.1

/-- The table holds the entries `l`, and its size is theirs. -/
structure Filled (t : Gdt) (l : List GDTEntry) : Prop extends Holds t l where
  length_le : l.length ≤ gdtMaxEntryCount
  size_eq : t.size = BitVec.ofNat 16 (sizeofGDTEntry * l.length)

section Steps

variable {t : Gdt} {l : List GDTEntry}

theorem filled_start : Filled start [] where
  stores_eq := rfl
  entries_eq _ h := absurd h (Nat.not_lt_zero _)
  length_le := Nat.zero_le _
  size_eq := rfl

theorem Filled.toNat_size (h : Filled t l) : t.size.toNat = 8 * l.length := by
  have hle : l.length ≤ 5 := h.length_le
  rw [h.size_eq, BitVec.toNat_ofNat, sizeofGDTEntry]
  omega

/-- Storing an entry behind those held. -/
theorem Holds.concat (h : Holds t l) (e : GDTEntry) (size : BitVec 16) :
    Holds ⟨size, Function.update t.entries l.length e, t.stores ++ [l.length]⟩ (l ++ [e]) where
  stores_eq := by
    rw [List.length_append, List.length_singleton, List.range_succ, ← h.stores_eq]
  entries_eq i hi := by
    rw [List.length_append, List.length_singleton] at hi
    change Function.update t.entries l.length e i = _
    rcases (Nat.le_of_lt_succ hi).lt_or_eq with hlt | rfl
    · rw [Function.update_of_ne hlt.ne, List.getElem_append_left hlt]
      exact h.entries_eq i hlt
    · rw [Function.update_self, List.getElem_concat_length rfl]

theorem Filled.addEntry_of_lt (h : Filled t l) (hlt : l.length < 5) (w1 w2 w3 w4 : BitVec 16) :
    (t.addEntry w1 w2 w3 w4).1 = .ok () ∧
      Filled (t.addEntry w1 w2 w3 w4).2 (l ++ [⟨w1, w2, w3, w4⟩]) := by
  have hcount : t.size.toNat / sizeofGDTEntry = l.length := by
    rw [h.toNat_size, sizeofGDTEntry]
    omega
  have hroom : ¬gdtMaxEntryCount ≤ l.length := not_le.2 hlt
  rw [addEntry, hcount, if_neg hroom]
  refine ⟨rfl, h.toHolds.concat _ _, ?_, ?_⟩
  · rw [List.length_append, List.length_singleton]
    exact hlt
  · rw [h.size_eq, List.length_append, List.length_singleton, Nat.mul_succ, BitVec.ofNat_add]

theorem Filled.addEntry_of_full (h : Filled t l) (hfull : l.length = 5) (w1 w2 w3 w4 : BitVec 16) :
    t.addEntry w1 w2 w3 w4 = (.error .containerIsFull, t) := by
  have hcount : t.size.toNat / sizeofGDTEntry = 5 := by
    rw [h.toNat_size, hfull, sizeofGDTEntry]
  rw [addEntry, hcount]
  exact if_pos le_rfl

/-- A table that has not been loaded takes an entry as the list does. -/
theorem Filled.step (h : Filled t l) {c : Call} (hc : c ≠ .loadTable) :
    (Gdt.step t c).1 = (listStep l c).1 ∧ Filled (Gdt.step t c).2 (listStep l c).2 := by
  cases c with
  | loadTable => exact absurd rfl hc
  | addEntry w1 w2 w3 w4 =>
    by_cases hfull : l.length = 5
    · have hadd := h.addEntry_of_full hfull w1 w2 w3 w4
      have hlist : listStep l (.addEntry w1 w2 w3 w4) = (.added (.error .containerIsFull), l) :=
        if_pos hfull
      rw [Gdt.step, hadd, hlist]
      exact ⟨rfl, h⟩
    · have hle : l.length ≤ 5 := h.length_le
      obtain ⟨hok, hfilled⟩ := h.addEntry_of_lt (by omega) w1 w2 w3 w4
      have hlist : listStep l (.addEntry w1 w2 w3 w4) =
          (.added (.ok ()), l ++ [⟨w1, w2, w3, w4⟩]) := if_neg hfull
      rw [hlist]
      exact ⟨congrArg Answer.added hok, hfilled⟩

/-- The limit is right when a table is loaded that has not been loaded before. -/
theorem Filled.step_loadTable (h : Filled t l) :
    (Gdt.step t .loadTable).1 = (listStep l .loadTable).1 ∧
      Holds (Gdt.step t .loadTable).2 l := by
  refine ⟨?_, h.stores_eq, h.entries_eq⟩
  change Answer.loaded (t.size - 1) = _
  rw [h.size_eq]
  rfl

/-- Behind the loading of an empty table, its size has become the largest one: the table
    looks full. -/
theorem Filled.addEntry_loaded_of_empty (h : Filled t l) (hempty : l.length = 0)
    (w1 w2 w3 w4 : BitVec 16) :
    (t.loadTable.2.addEntry w1 w2 w3 w4).1 = .error .containerIsFull := by
  have hsize := h.toNat_size
  have hcount : gdtMaxEntryCount ≤ (t.size - 1).toNat / sizeofGDTEntry := by
    rw [gdtMaxEntryCount, sizeofGDTEntry]
    bv_omega
  exact congrArg Prod.fst (if_pos hcount)

/-- Behind the loading of any other table, the last entry does not count any more. -/
theorem Filled.stores_addEntry_loaded (h : Filled t l) (hpos : 0 < l.length)
    (w1 w2 w3 w4 : BitVec 16) : (t.loadTable.2.addEntry w1 w2 w3 w4).2.stores =
      List.range l.length ++ [l.length - 1] := by
  have hle : l.length ≤ 5 := h.length_le
  have hsize := h.toNat_size
  have hcount : t.loadTable.2.size.toNat / sizeofGDTEntry = l.length - 1 := by
    change (t.size - 1).toNat / sizeofGDTEntry = l.length - 1
    rw [sizeofGDTEntry]
    bv_omega
  have hroom : ¬gdtMaxEntryCount ≤ l.length - 1 := by
    rw [gdtMaxEntryCount]
    omega
  rw [addEntry, hcount, if_neg hroom, ← h.stores_eq]
  rfl

/-- Once the table has been loaded, the next call answers differently than the list, or
    stores an entry in the place of another one. -/
theorem Filled.step_loaded (h : Filled t l) (c : Call) :
    (Gdt.step (Gdt.step t .loadTable).2 c).1 ≠ (listStep l c).1 ∨
      ∃ n i, i ≠ n ∧ (Gdt.step (Gdt.step t .loadTable).2 c).2.stores = List.range n ++ [i] := by
  cases c with
  | loadTable =>
    -- The limit is taken from the size a second time.
    refine .inl fun heq => ?_
    have hlimit : t.size - 1 - 1 = BitVec.ofNat 16 (sizeofGDTEntry * l.length) - 1 :=
      Answer.loaded.inj heq
    rw [← h.size_eq] at hlimit
    bv_omega
  | addEntry w1 w2 w3 w4 =>
    rcases Nat.eq_zero_or_pos l.length with hzero | hpos
    · refine .inl fun heq => ?_
      have herror : (Gdt.step (Gdt.step t .loadTable).2 (.addEntry w1 w2 w3 w4)).1 =
          .added (.error .containerIsFull) :=
        congrArg Answer.added (h.addEntry_loaded_of_empty hzero w1 w2 w3 w4)
      have hok : (listStep l (.addEntry w1 w2 w3 w4)).1 = .added (.ok ()) :=
        congrArg Prod.fst (if_neg (by rw [hzero]; decide))
      rw [herror, hok] at heq
      exact nomatch heq
    · have hstores := h.stores_addEntry_loaded hpos w1 w2 w3 w4
      exact .inr ⟨l.length, l.length - 1, by omega, hstores⟩

theorem failed_step (t : Gdt) (c : Call) {e : Error}
    (h : (Gdt.step t c).1 = .added (.error e)) : (Gdt.step t c).2 = t := by
  cases c with
  | loadTable => exact nomatch h
  | addEntry w1 w2 w3 w4 =>
    change Answer.added (t.addEntry w1 w2 w3 w4).1 = _ at h
    change (t.addEntry w1 w2 w3 w4).2 = t
    rw [addEntry] at h ⊢
    split_ifs at h ⊢
    · rfl
    · exact nomatch h

end Steps

/-! ## Runs -/

/-- As long as the table is not loaded, it is built. -/
theorem run_of_not_mem {t : Gdt} {l : List GDTEntry} (h : Filled t l) {calls : List Call}
    (hcalls : .loadTable ∉ calls) :
    (Machine.run step t calls).1 = (Machine.run listStep l calls).1 ∧
      Filled (Machine.run step t calls).2 (Machine.run listStep l calls).2 := by
  have hne : ∀ c ∈ calls, c ≠ .loadTable := by
    rintro c hc rfl
    exact hcalls hc
  have hstep : ∀ t l c, c ≠ .loadTable → Filled t l →
      (step t c).1 = (listStep l c).1 ∧ Filled (step t c).2 (listStep l c).2 :=
    fun _ _ _ hc h => h.step hc
  exact Machine.run_refines_of hstep h hne

/-- Loading the table last is right. -/
theorem builds_append_loadTable {calls : List Call} (hcalls : .loadTable ∉ calls) :
    Builds (calls ++ [.loadTable]) := by
  obtain ⟨hanswers, hfilled⟩ := run_of_not_mem filled_start hcalls
  obtain ⟨hlimit, hholds⟩ := hfilled.step_loadTable
  refine ⟨?_, ?_, fun p _ e => failed_step p.1 p.2⟩
  · rw [Machine.run_append, Machine.run_append, hanswers]
    exact congrArg (fun a => _ ++ [a]) hlimit
  · rw [Machine.run_append, Machine.run_append]
    exact hholds

/-- Nothing that has been stored is forgotten. -/
def Extends (t t' : Gdt) : Prop := t.stores <+: t'.stores

instance : Std.Refl Extends := ⟨fun _ => List.prefix_refl _⟩

instance : IsTrans Gdt Extends := ⟨fun _ _ _ => List.IsPrefix.trans⟩

theorem extends_step (t : Gdt) (c : Call) : Extends t (step t c).2 := by
  cases c with
  | loadTable => exact List.prefix_refl _
  | addEntry w1 w2 w3 w4 =>
    change t.stores <+: (t.addEntry w1 w2 w3 w4).2.stores
    rw [addEntry]
    split_ifs
    · exact List.prefix_refl _
    · exact List.prefix_append _ _

/-- An entry stored in the place of another one is not forgotten either. -/
theorem not_holds_of_stores {t t' : Gdt} {n i : ℕ} (ht : t.stores = List.range n ++ [i])
    (hi : i ≠ n) (h : Extends t t') (l : List GDTEntry) : ¬Holds t' l := by
  intro hl
  rw [Extends, ht, hl.stores_eq] at h
  have hn : n < (List.range n ++ [i]).length := by
    rw [List.length_append, List.length_range, List.length_singleton]
    exact Nat.lt_succ_self n
  have hget := h.getElem hn
  rw [List.getElem_range, List.getElem_concat_length List.length_range.symm] at hget
  exact hi hget

theorem not_builds_of_loaded {calls : List Call} (hcalls : .loadTable ∉ calls) (c : Call)
    (calls' : List Call) : ¬Builds (calls ++ .loadTable :: c :: calls') := by
  intro hb
  obtain ⟨hanswers, hfilled⟩ := run_of_not_mem filled_start hcalls
  have ha := hb.answers
  have hh := hb.holds
  rw [Machine.run_append, Machine.run_append, hanswers] at ha
  rw [Machine.run_append] at hh
  have hrest := List.append_cancel_left ha
  simp only [Machine.run, List.cons.injEq] at hrest hh
  rcases hfilled.step_loaded c with hne | ⟨n, i, hi, hstores⟩
  · exact hne hrest.2.1
  · exact not_holds_of_stores hstores hi (Machine.run_related extends_step _ calls') _ hh

/-- Calls in any order build a table exactly if the table is loaded at most once, by the
    last of them. -/
theorem builds_iff (calls : List Call) : Builds calls ↔ .loadTable ∉ calls.dropLast := by
  rcases List.eq_nil_or_concat calls with rfl | ⟨calls, c, rfl⟩
  · exact iff_of_true ⟨rfl, filled_start.toHolds, fun _ hp => absurd hp List.not_mem_nil⟩
      List.not_mem_nil
  · rw [List.concat_eq_append, List.dropLast_concat]
    constructor
    · intro hb hmem
      -- The first time that the table is loaded.
      obtain ⟨as, bs, rfl, has⟩ := List.eq_append_cons_of_mem hmem
      rw [List.append_assoc, List.cons_append] at hb
      cases bs with
      | nil => exact not_builds_of_loaded has c [] hb
      | cons b bs => exact not_builds_of_loaded has b (bs ++ [c]) hb
    · intro hcalls
      by_cases hc : c = .loadTable
      · subst hc
        exact builds_append_loadTable hcalls
      · have hmem : .loadTable ∉ calls ++ [c] := by
          rw [List.mem_append, List.mem_singleton, not_or]
          exact ⟨hcalls, Ne.symm hc⟩
        obtain ⟨hanswers, hfilled⟩ := run_of_not_mem filled_start hmem
        exact ⟨hanswers, hfilled.toHolds, fun p _ e => failed_step p.1 p.2⟩

/-- The entry that is added behind the loading takes the place of the first one. -/
theorem not_builds_sample : ¬Builds [.addEntry 1 2 3 4, .loadTable, .addEntry 5 6 7 8] := by
  intro h
  exact absurd h.holds.stores_eq (by decide)

end Gdt

end KessokuOS
