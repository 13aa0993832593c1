import KessokuOS.Lib.X86
import KessokuOS.MemoryManager.Basic

/-!
# The memory map

Stage 1 asks the BIOS for the ranges of the memory, and leaves its replies one
behind the other from the address `0x7000` on, those of length zero overwritten
by the next one. The kernel reads them up to a null entry.

Both sides step by entries of 24 bytes, hence the kernel finds the replies that
stage 1 keeps (`loop_memoryRange_of_lt`, `loop_memoryRange_of_le`). But the null
entry is put in the place of the last reply, which is lost, and only the low half
of each of its double words is cleared. Hence the map is read right exactly when
the table of the kernel is full before the last reply, or when this one is not of
usable memory and has nothing to leave (`readsMap_iff`).
-/

namespace KessokuOS.Bootloader

open X86 X86.Cpu MemoryManager

abbrev memoryInfoBottom : ℕ := 0x7000

abbrev memoryInfoTop : ℕ := 0x7af0

/-- A reply of the BIOS to the request for an entry of the memory map. -/
structure MapReply where
  ok : Bool
  entry : ℕ → Byte
  regs : Gpr → ℕ
  zf : Bool

namespace MapReply

variable (r : MapReply)

def baseAddress : ℕ := Memory.load r.entry 0 8

def regionLength : ℕ := Memory.load r.entry 8 8

def regionType : ℕ := Memory.load r.entry 16 4

/-- What the BIOS returns in `ebx`: `0` for the last entry. -/
def continuation : ℕ := r.regs .b % 2 ^ 32

/-- The entry as the kernel keeps it. -/
def range : MemoryRange := ⟨u32 r.baseAddress, u32 r.regionLength⟩

/-- The entry is of usable memory. -/
def usable : Bool := r.regionLength ≠ 0 ∧ r.regionType = 1

end MapReply

/-- The machine, logging the addresses to which the BIOS writes entries. -/
abbrev MapMachine := Cpu ℕ

/-- The request for the next entry of the memory map. Of other requests, and after
    the last reply, nothing is said. -/
def int15 (replies : List MapReply) (s : MapMachine) : Option MapMachine :=
  if s.get .eax = 0xe820 ∧ s.get .ecx = 24 then
    replies[s.log.length]?.map fun reply =>
      let buffer := 16 * s.es + s.get .di
      { regs := Function.update (Function.update reply.regs .di (s.regs .di)) .sp (s.regs .sp)
        es := s.es
        cf := !reply.ok
        zf := reply.zf
        mem := s.mem.write buffer 24 reply.entry
        log := s.log ++ [buffer] }
  else none

/-- The address `[es:(di + k)]`. -/
def entryAddr (s : MapMachine) (k : ℕ) : ℕ := 16 * s.es + (s.get .di + k) % 2 ^ 16

/-- Steps over the entry unless its length is zero. -/
def incrementEntry (s : MapMachine) : MapMachine :=
  let s := s.set .eax (s.mem.load (entryAddr s 12) 4)
  let s := s.cmp .eax 0
  if s.zf = false then s.add .di 24
  else
    let s := s.set .eax (s.mem.load (entryAddr s 8) 4)
    let s := s.cmp .eax 0
    if s.zf = false then s.add .di 24 else s

def loadSystemMemoryInfoRound (replies : List MapReply) (s : MapMachine) :
    Option (MapMachine ⊕ MapMachine) :=
  let s := s.cmp .ebx 0
  if s.zf = true ∨ s.cf = true then some (.inr s)
  else do
    let s := incrementEntry s
    let s := s.set .eax 0xe820
    let s := s.set .ecx 24
    let s ← int15 replies s
    some (.inl s)

/-- Clears the low half of each double word of the entry. -/
def addNullEntry (s : MapMachine) : MapMachine :=
  let s := s.store (entryAddr s 20) 2 0
  let s := s.store (entryAddr s 16) 2 0
  let s := s.store (entryAddr s 12) 2 0
  let s := s.store (entryAddr s 8) 2 0
  let s := s.store (entryAddr s 4) 2 0
  s.store (entryAddr s 0) 2 0

/-- Stage 1 goes on, or halts with an error message. -/
inductive Outcome
  | done (s : MapMachine)
  | halted

/-- Loads the memory map to `es:buffer`. -/
def loadSystemMemoryInfo (replies : List MapReply) (fuel buffer : ℕ) (s : MapMachine) :
    Option Outcome := do
  let s := s.set .di buffer
  let s := s.clear .ebx
  let s := s.set .edx 0x534D4150
  let s := s.set .eax 0xe820
  let s := s.set .ecx 24
  let s ← int15 replies s.clc
  if s.cf = false then do
    let s ← loop (loadSystemMemoryInfoRound replies) fuel s
    some (.done (addNullEntry s))
  else some .halted

/-! ## Entries in memory -/

/-- The bytes of an entry lie at `a`. -/
def EntryAt (m : Memory) (a : ℕ) (entry : ℕ → Byte) : Prop :=
  ∀ j < 24, m (a + j) = entry j

/-- The entries of `replies` lie one behind the other from `a` on. -/
def EntriesAt (m : Memory) : ℕ → List MapReply → Prop
  | _, [] => True
  | a, r :: rs => EntryAt m a r.entry ∧ EntriesAt m (a + 24) rs

theorem EntryAt.congr {m m' : Memory} {a : ℕ} {entry : ℕ → Byte} (h : EntryAt m a entry)
    (hm : ∀ x, a ≤ x → x < a + 24 → m' x = m x) : EntryAt m' a entry := by
  intro j hj
  rw [hm _ (Nat.le_add_right _ _) (by omega), h j hj]

theorem EntriesAt.congr {m m' : Memory} {a : ℕ} {rs : List MapReply} (h : EntriesAt m a rs)
    (hm : ∀ x, a ≤ x → x < a + 24 * rs.length → m' x = m x) : EntriesAt m' a rs := by
  induction rs generalizing a with
  | nil => trivial
  | cons r rs ih =>
    rw [List.length_cons] at hm
    obtain ⟨h₁, h₂⟩ := h
    refine ⟨h₁.congr fun x hx hx' => hm x hx (by omega), ih h₂ fun x hx hx' => hm x ?_ ?_⟩
    all_goals omega

theorem EntryAt.load {m : Memory} {a k n : ℕ} {entry : ℕ → Byte} (h : EntryAt m a entry)
    (hn : k + n ≤ 24) : m.load (a + k) n = Memory.load entry k n := by
  refine Memory.load_congr fun i hi => ?_
  rw [Nat.add_assoc]
  exact h (k + i) (show k + i < 24 by omega)

/-! ## Reading -/

variable {m : Memory} {t t' : MemoryRangeTable} {p stop fuel : ℕ} {r : MapReply}
  {rs : List MapReply}

/-- The ranges of the table in use. -/
def ranges (t : MemoryRangeTable) : List MemoryRange := (List.range t.entryCount).map t.entries

theorem ranges_push (t : MemoryRangeTable) (range : MemoryRange) :
    ranges (t.push range) = ranges t ++ [range] := by
  have hself : (t.push range).entries t.entryCount = range := Function.update_self ..
  have hne : ∀ i ∈ List.range t.entryCount, (t.push range).entries i = t.entries i :=
    fun i hi => Function.update_of_ne (List.mem_range.1 hi).ne _ _
  rw [ranges, ranges, show (t.push range).entryCount = t.entryCount + 1 from rfl, List.range_succ,
    List.map_append, List.map_singleton, hself, List.map_congr_left hne]

/-- The table after reading an entry. -/
def addReply (t : MemoryRangeTable) (r : MapReply) : MemoryRangeTable :=
  if r.regionType = 1 then t.push r.range else t

/-- A round reads the entry at the address, if it is not null. -/
theorem memoryRangeRound_of_entryAt (h : EntryAt m p r.entry) (hlen : r.regionLength ≠ 0)
    (ht : t.entryCount < 32) : memoryRangeRound m (t, p) = some (.inl (addReply t r, p + 24)) := by
  have hbase : m.load p 8 = r.baseAddress := h.load (k := 0) (by decide)
  have hregion : m.load (p + 8) 8 = r.regionLength := h.load (by decide)
  have htype : u32 (m.load (p + 16) 8) = r.regionType := by
    have := Memory.load_add_mod m (p + 16) 4 4
    rw [h.load (k := 16) (n := 4) (by decide)] at this
    exact this
  rw [memoryRangeRound, if_neg (by rw [hregion]; rintro (h | h) <;> omega), htype, hbase, hregion]
  rfl

/-- The entries of usable memory. -/
def usableRanges (rs : List MapReply) : List MemoryRange :=
  (rs.filter (·.usable)).map MapReply.range

theorem ranges_addReply (hlen : r.regionLength ≠ 0) :
    ranges (addReply t r) = ranges t ++ usableRanges [r] := by
  by_cases h : r.regionType = 1
  · rw [addReply, if_pos h, ranges_push]
    simp [usableRanges, MapReply.usable, h, hlen]
  · rw [addReply, if_neg h]
    simp [usableRanges, MapReply.usable, h]

theorem length_ranges (t : MemoryRangeTable) : (ranges t).length = t.entryCount := by
  rw [ranges, List.length_map, List.length_range]

theorem usableRanges_cons (r : MapReply) (rs : List MapReply) :
    usableRanges (r :: rs) = usableRanges [r] ++ usableRanges rs := by
  rw [usableRanges, ← List.singleton_append, List.filter_append, List.map_append, usableRanges,
    usableRanges]

/-- If there is room for all of them, the entries are read one after the other. -/
theorem loop_memoryRange_of_lt (fuel : ℕ) (h : EntriesAt m p rs)
    (hlen : ∀ r ∈ rs, r.regionLength ≠ 0) (ht : t.entryCount + (usableRanges rs).length < 32) :
    ∃ t', loop (memoryRangeRound m) (fuel + rs.length) (t, p) =
        loop (memoryRangeRound m) fuel (t', p + 24 * rs.length) ∧
      ranges t' = ranges t ++ usableRanges rs := by
  induction rs generalizing t p with
  | nil => exact ⟨t, rfl, (List.append_nil _).symm⟩
  | cons r rs ih =>
    have hr : r.regionLength ≠ 0 := hlen r List.mem_cons_self
    have hadd := ranges_addReply (t := t) hr
    rw [usableRanges_cons, List.length_append] at ht
    have hcount : (addReply t r).entryCount = t.entryCount + (usableRanges [r]).length := by
      rw [← length_ranges, hadd, List.length_append, length_ranges]
    obtain ⟨t', ht', hranges⟩ := ih h.2 (fun r' hr' => hlen r' (List.mem_cons_of_mem _ hr'))
      (by omega : (addReply t r).entryCount + (usableRanges rs).length < 32)
    refine ⟨t', ?_, ?_⟩
    · rw [List.length_cons, ← Nat.add_assoc, loop_of_again
        (memoryRangeRound_of_entryAt h.1 hr (by omega)), ht', Nat.add_assoc p, Nat.mul_succ,
        Nat.add_comm 24]
    · rw [hranges, hadd, usableRanges_cons r rs, List.append_assoc]

/-- The entry at `p` is null. -/
def NullAt (m : Memory) (p : ℕ) : Prop :=
  m.load p 8 = 0 ∧ m.load (p + 8) 8 = 0 ∧ m.load (p + 16) 8 = 0

theorem memoryRangeRound_of_null (h : NullAt m p) :
    memoryRangeRound m (t, p) = some (.inr (t, p)) := by
  rw [memoryRangeRound]
  exact if_pos (.inl h)

theorem memoryRangeRound_of_not_null (h : ¬NullAt m p) (ht : t.entryCount < 32) :
    ∃ t', memoryRangeRound m (t, p) = some (.inl (t', p + 24)) := by
  rw [memoryRangeRound]
  exact ⟨_, if_neg fun hor => hor.elim h (fun hle => absurd hle (by omega))⟩

theorem memoryRangeRound_of_full (h : 32 ≤ t.entryCount) :
    memoryRangeRound m (t, p) = some (.inr (t, p)) := by
  rw [memoryRangeRound, if_pos (.inr h)]

/-- If there is none, the reading stops before their end with a full table. -/
theorem loop_memoryRange_of_le (h : EntriesAt m p rs) (hlen : ∀ r ∈ rs, r.regionLength ≠ 0)
    (ht : t.entryCount ≤ 32) (hle : 32 ≤ t.entryCount + (usableRanges rs).length)
    (hfuel : rs.length < fuel) :
    ∃ t' stop, loop (memoryRangeRound m) fuel (t, p) = some (t', stop) ∧
      ranges t' = (ranges t ++ usableRanges rs).take 32 ∧ t'.entryCount = 32 ∧
      stop ≤ p + 24 * rs.length := by
  induction rs generalizing t p fuel with
  | nil =>
    obtain ⟨fuel, rfl⟩ := Nat.exists_eq_succ_of_ne_zero hfuel.ne'
    have hfull : t.entryCount = 32 := Nat.le_antisymm ht hle
    refine ⟨t, p, loop_of_exit (memoryRangeRound_of_full hfull.ge), ?_, hfull, Nat.le_refl _⟩
    rw [← hfull, ← length_ranges t, List.take_left]
  | cons r rs ih =>
    obtain ⟨fuel, rfl⟩ := Nat.exists_eq_succ_of_ne_zero (show fuel ≠ 0 by omega)
    by_cases hfull : t.entryCount = 32
    · refine ⟨t, p, loop_of_exit (memoryRangeRound_of_full hfull.ge), ?_, hfull,
        Nat.le_add_right _ _⟩
      rw [← hfull, ← length_ranges t, List.take_left]
    have hr : r.regionLength ≠ 0 := hlen r List.mem_cons_self
    have hadd := ranges_addReply (t := t) hr
    have hcount : (addReply t r).entryCount = t.entryCount + (usableRanges [r]).length := by
      rw [← length_ranges, hadd, List.length_append, length_ranges]
    have hone : (usableRanges [r]).length ≤ 1 :=
      (List.length_map _).trans_le (List.length_filter_le _ _)
    rw [usableRanges_cons, List.length_append] at hle
    have hfuel' : rs.length < fuel := by
      rw [List.length_cons] at hfuel
      omega
    obtain ⟨t', stop, ht', hranges, hcount', hstop⟩ := ih (t := addReply t r) h.2
      (fun r' hr' => hlen r' (List.mem_cons_of_mem _ hr')) (by omega) (by omega) hfuel'
    refine ⟨t', stop, ?_, ?_, hcount', ?_⟩
    · rw [loop_of_again (memoryRangeRound_of_entryAt h.1 hr (by omega)), ht']
    · rw [hranges, hadd, usableRanges_cons r rs, List.append_assoc]
    · rw [List.length_cons]
      omega

/-- The reading goes up. -/
theorem le_of_loop_memoryRange (h : loop (memoryRangeRound m) fuel (t, p) = some (t', stop)) :
    p ≤ stop := by
  refine loop_post (fun u : MemoryRangeTable × ℕ => p ≤ u.2)
    (fun u : MemoryRangeTable × ℕ => p ≤ u.2) ?_ ?_ (le_refl p) h
  · rintro ⟨t, q⟩ u hq hround
    rw [memoryRangeRound] at hround
    split_ifs at hround
    · exact nomatch hround
    · obtain rfl := Sum.inl.inj (Option.some.inj hround)
      exact Nat.le_add_right_of_le hq
  · rintro ⟨t, q⟩ u hq hround
    rw [memoryRangeRound] at hround
    split_ifs at hround
    · obtain rfl := Sum.inr.inj (Option.some.inj hround)
      exact hq
    · exact nomatch hround

/-! ## The null entry -/

/-- The double words of the entry have no high half. -/
def MapReply.Low (r : MapReply) : Prop := ∀ i < 6, Memory.load r.entry (4 * i) 4 < 2 ^ 16

instance (r : MapReply) : Decidable r.Low :=
  inferInstanceAs (Decidable (∀ i < 6, Memory.load r.entry (4 * i) 4 < 2 ^ 16))

/-- A null entry is one whose bytes are all zero. -/
theorem nullAt_iff : NullAt m p ↔ ∀ j < 24, m (p + j) = 0 := by
  rw [NullAt, Memory.load_eq_zero_iff, Memory.load_eq_zero_iff, Memory.load_eq_zero_iff]
  constructor
  · rintro ⟨h₀, h₁, h₂⟩ j hj
    by_cases hj₀ : j < 8
    · exact h₀ j hj₀
    by_cases hj₁ : j < 16
    · have := h₁ (j - 8) (by omega)
      rwa [show p + 8 + (j - 8) = p + j by omega] at this
    · have := h₂ (j - 16) (by omega)
      rwa [show p + 16 + (j - 16) = p + j by omega] at this
  · intro h
    refine ⟨fun i hi => h i (by omega), fun i hi => ?_, fun i hi => ?_⟩
    · rw [Nat.add_assoc]
      exact h (8 + i) (by omega)
    · rw [Nat.add_assoc]
      exact h (16 + i) (by omega)

@[simp] theorem entryAddr_store (s : MapMachine) (a n v k : ℕ) :
    entryAddr (s.store a n v) k = entryAddr s k := rfl

theorem entryAddr_eq {s : MapMachine} {d k : ℕ} (hes : s.es = 0) (hdi : s.get .di = d)
    (hk : d + k < 2 ^ 16) : entryAddr s k = d + k := by
  rw [entryAddr, hes, hdi, Nat.mod_eq_of_lt hk, Nat.mul_zero, Nat.zero_add]

@[simp] theorem es_addNullEntry (s : MapMachine) : (addNullEntry s).es = s.es := by
  simp [addNullEntry]

@[simp] theorem get_addNullEntry (s : MapMachine) (r : Reg) :
    (addNullEntry s).get r = s.get r := by
  simp [addNullEntry]

@[simp] theorem log_addNullEntry (s : MapMachine) : (addNullEntry s).log = s.log := by
  simp [addNullEntry]

/-- Half of each double word is cleared. -/
theorem mem_addNullEntry {s : MapMachine} {d : ℕ} (hes : s.es = 0) (hdi : s.get .di = d)
    (hd : d + 24 ≤ 2 ^ 16) (x : ℕ) : (addNullEntry s).mem x =
      if d ≤ x ∧ x < d + 24 ∧ (x - d) % 4 < 2 then 0 else s.mem x := by
  -- Each `mov` of the source stores a word, at an offset which is a multiple of four.
  have hmem : (addNullEntry s).mem = ((((((s.mem.store (d + 20) 2 0).store (d + 16) 2 0).store
      (d + 12) 2 0).store (d + 8) 2 0).store (d + 4) 2 0).store (d + 0) 2 0) := by
    have haddr : ∀ k < 24, entryAddr s k = d + k := fun k hk => entryAddr_eq hes hdi (by omega)
    simp [addNullEntry, haddr]
  rw [hmem]
  simp only [Memory.store_zero_apply]
  by_cases h : d ≤ x ∧ x < d + 24 ∧ (x - d) % 4 < 2
  · rw [if_pos h]
    split_ifs
    all_goals first | rfl | omega
  · rw [if_neg h]
    split_ifs
    all_goals first | rfl | omega

/-- The high half of a double word is its last two bytes. -/
theorem load_lt_iff {a : ℕ} : m.load a 4 < 2 ^ 16 ↔ ∀ k < 2, m (a + 2 + k) = 0 := by
  have hdiv : m.load a 4 / 2 ^ 16 = m.load (a + 2) 2 := m.load_add_div a 2 2
  rw [← Memory.load_eq_zero_iff, ← hdiv, Nat.div_eq_zero_iff_lt (by decide)]

theorem low_iff : r.Low ↔ ∀ j < 24, 2 ≤ j % 4 → r.entry j = 0 := by
  have h : ∀ i, Memory.load r.entry (4 * i) 4 < 2 ^ 16 ↔ ∀ k < 2, r.entry (4 * i + 2 + k) = 0 :=
    fun i => load_lt_iff (m := r.entry)
  simp only [MapReply.Low, h]
  constructor
  · intro h j hj hj'
    have := h (j / 4) (by omega) (j % 4 - 2) (by omega)
    rwa [show 4 * (j / 4) + 2 + (j % 4 - 2) = j by omega] at this
  · intro h i hi k hk
    exact h _ (by omega) (by omega)

/-- The entry is null behind it when nothing was left in the high halves. -/
theorem nullAt_addNullEntry {s : MapMachine} {d : ℕ} (hes : s.es = 0) (hdi : s.get .di = d)
    (hd : d + 24 ≤ 2 ^ 16) (h : EntryAt s.mem d r.entry) :
    NullAt (addNullEntry s).mem d ↔ r.Low := by
  have hbyte : ∀ j < 24, (addNullEntry s).mem (d + j) = if j % 4 < 2 then 0 else r.entry j := by
    intro j hj
    rw [mem_addNullEntry hes hdi hd, Nat.add_sub_cancel_left, h j hj]
    refine if_congr ⟨fun h => h.2.2, fun h => ⟨Nat.le_add_right _ _, by omega, h⟩⟩ rfl rfl
  rw [nullAt_iff, low_iff]
  refine forall₂_congr fun j hj => ?_
  rw [hbyte j hj]
  by_cases hj' : j % 4 < 2
  · rw [if_pos hj']
    exact ⟨fun _ h => absurd h (by omega), fun _ => rfl⟩
  · rw [if_neg hj']
    exact ⟨fun h _ => h, fun h => h (by omega)⟩

/-! ## Writing -/

/-- The replies that stage 1 steps over. -/
def kept (rs : List MapReply) : List MapReply := rs.filter fun r => decide (r.regionLength ≠ 0)

/-- Before a round: the entry of `r` lies at `di`, and is the last one requested. -/
structure AtReply (replies : List MapReply) (r : MapReply) (rest : List MapReply) (d : ℕ)
    (s : MapMachine) : Prop where
  es_eq : s.es = 0
  di_eq : s.get .di = d
  ebx_eq : s.get .ebx = r.continuation
  rest_eq : replies.drop s.log.length = rest
  entryAt : EntryAt s.mem d r.entry

/-- The address behind the entry, if it is kept. -/
def nextAddr (r : MapReply) (d : ℕ) : ℕ := if r.regionLength = 0 then d else d + 24

@[simp] theorem entryAddr_set_eax (s : MapMachine) (v k : ℕ) :
    entryAddr (s.set .eax v) k = entryAddr s k := by
  rw [entryAddr, entryAddr, es_set, get_set_of_ne (by decide)]

@[simp] theorem entryAddr_cmp (s : MapMachine) (r : Reg) (v k : ℕ) :
    entryAddr (s.cmp r v) k = entryAddr s k := by
  rw [entryAddr, entryAddr, es_cmp, get_cmp]

theorem incrementEntry_spec {replies rest : List MapReply} {d : ℕ} {s : MapMachine}
    (h : AtReply replies r rest d s) (hd : d + 24 < 2 ^ 16) :
    (incrementEntry s).get .di = nextAddr r d ∧ (incrementEntry s).es = s.es ∧
      (incrementEntry s).mem = s.mem ∧ (incrementEntry s).log = s.log := by
  have hlen : r.regionLength = Memory.load r.entry 8 4 + 2 ^ 32 * Memory.load r.entry 12 4 :=
    Memory.load_add r.entry 8 4 4
  have hhi : s.mem.load (entryAddr s 12) 4 % 0x100000000 = Memory.load r.entry 12 4 := by
    rw [entryAddr_eq h.es_eq h.di_eq (by omega), h.entryAt.load (by decide)]
    exact Nat.mod_eq_of_lt (Memory.load_lt r.entry 12 4)
  have hlo : s.mem.load (entryAddr s 8) 4 % 0x100000000 = Memory.load r.entry 8 4 := by
    rw [entryAddr_eq h.es_eq h.di_eq (by omega), h.entryAt.load (by decide)]
    exact Nat.mod_eq_of_lt (Memory.load_lt r.entry 8 4)
  by_cases h₁ : Memory.load r.entry 12 4 = 0
  · by_cases h₀ : Memory.load r.entry 8 4 = 0
    · have hz : r.regionLength = 0 := by omega
      simp [incrementEntry, Part.bits, hhi, hlo, h₀, h₁, hz, nextAddr, h.di_eq]
    · have hz : r.regionLength ≠ 0 := by omega
      have hmod : (d + 24) % 65536 = d + 24 := Nat.mod_eq_of_lt (by omega)
      simp [incrementEntry, Part.bits, hhi, hlo, h₀, h₁, hz, nextAddr, h.di_eq, hmod]
  · have hz : r.regionLength ≠ 0 := by omega
    have hmod : (d + 24) % 65536 = d + 24 := Nat.mod_eq_of_lt (by omega)
    simp [incrementEntry, Part.bits, hhi, h₁, hz, nextAddr, h.di_eq, hmod]

/-- A request gives the next reply. -/
theorem int15_spec {replies rest : List MapReply} {d : ℕ} {s : MapMachine}
    (heax : s.get .eax = 0xe820) (hecx : s.get .ecx = 24) (hes : s.es = 0) (hdi : s.get .di = d)
    (hrest : replies.drop s.log.length = r :: rest) :
    ∃ t, int15 replies s = some t ∧ AtReply replies r rest d t ∧
      t.mem = s.mem.write d 24 r.entry ∧ t.cf = (!r.ok) ∧ t.log.length = s.log.length + 1 := by
  have hget : replies[s.log.length]? = some r := by
    rw [← List.head?_drop, hrest, List.head?_cons]
  have hbuffer : 16 * s.es + s.get .di = d := by rw [hes, hdi, Nat.mul_zero, Nat.zero_add]
  rw [int15, if_pos ⟨heax, hecx⟩, hget, Option.map_some]
  refine ⟨_, rfl, ⟨hes, ?_, rfl, ?_, fun j hj => ?_⟩, ?_, rfl, List.length_append⟩
  · rw [← hdi]
    rfl
  · rw [List.length_append, List.length_singleton, ← List.drop_drop, hrest]
    rfl
  · rw [hbuffer]
    exact Memory.write_add hj
  · rw [hbuffer]

/-- A round requests the next reply, unless there is none. -/
theorem loadSystemMemoryInfoRound_of_ne {replies rest : List MapReply} {r' : MapReply} {d : ℕ}
    {s : MapMachine} (h : AtReply replies r (r' :: rest) d s) (hr : r.continuation ≠ 0)
    (hd : d + 24 < 2 ^ 16) :
    ∃ t, loadSystemMemoryInfoRound replies s = some (.inl t) ∧
      AtReply replies r' rest (nextAddr r d) t ∧
      t.mem = s.mem.write (nextAddr r d) 24 r'.entry ∧ t.log.length = s.log.length + 1 := by
  have h' : AtReply replies r (r' :: rest) d (s.cmp .ebx 0) :=
    ⟨h.es_eq, h.di_eq, h.ebx_eq, h.rest_eq, h.entryAt⟩
  obtain ⟨hdi, hes, hmem, hlog⟩ := incrementEntry_spec h' hd
  obtain ⟨s₁, hs₁⟩ : ∃ s₁, ((incrementEntry (s.cmp .ebx 0)).set .eax 0xe820).set .ecx 24 = s₁ :=
    ⟨_, rfl⟩
  obtain ⟨t, ht, hat, htmem, -, htlog⟩ := int15_spec (s := s₁) (by simp [← hs₁, Part.bits])
    (by simp [← hs₁, Part.bits])
    (by rw [← hs₁, es_set, es_set, hes, h'.es_eq])
    (by rw [← hs₁, get_set_of_ne (by decide), get_set_of_ne (by decide), hdi])
    (by rw [← hs₁, log_set, log_set, hlog, h'.rest_eq])
  refine ⟨t, ?_, hat, ?_, ?_⟩
  · have hz : (s.cmp .ebx 0).zf = false := decide_eq_false (h.ebx_eq ▸ hr)
    have hc : (s.cmp .ebx 0).cf = false := by simp
    rw [loadSystemMemoryInfoRound]
    simp only [hz, hc, Bool.false_eq_true, or_self, if_false, hs₁, ht, Option.bind_eq_bind,
      Option.bind_some]
  · rw [htmem, ← hs₁, mem_set, mem_set, hmem]
    rfl
  · rw [htlog, ← hs₁, log_set, log_set, hlog]
    rfl

theorem loadSystemMemoryInfoRound_of_eq {replies rest : List MapReply} {d : ℕ} {s : MapMachine}
    (h : AtReply replies r rest d s) (hr : r.continuation = 0) :
    loadSystemMemoryInfoRound replies s = some (.inr (s.cmp .ebx 0)) := by
  have hz : (s.cmp .ebx 0).zf = true := decide_eq_true (h.ebx_eq ▸ hr)
  rw [loadSystemMemoryInfoRound]
  simp only [hz, true_or, if_true]

theorem kept_cons_of_eq (h : r.regionLength = 0) : kept (r :: rs) = kept rs :=
  List.filter_cons_of_neg (by simpa using h)

theorem kept_cons_of_ne (h : r.regionLength ≠ 0) : kept (r :: rs) = r :: kept rs :=
  List.filter_cons_of_pos (by simpa using h)

/-- What the replies leave from `d` on: those that are kept, and the last one behind
    them, with no request after that. By induction on the replies before the last one. -/
theorem loop_loadSystemMemoryInfo {replies init more rest : List MapReply} {last : MapReply}
    {d : ℕ} {s : MapMachine} (h : AtReply replies r rest d s)
    (hrest : r :: rest = init ++ last :: more)
    (hinit : ∀ r ∈ init, r.continuation ≠ 0) (hlast : last.continuation = 0)
    (hfit : d + 24 * ((kept init).length + 1) < 2 ^ 16) (hfuel : init.length < fuel) :
    ∃ t, loop (loadSystemMemoryInfoRound replies) fuel s = some t ∧ t.es = 0 ∧
      t.get .di = d + 24 * (kept init).length ∧ EntriesAt t.mem d (kept init) ∧
      EntryAt t.mem (d + 24 * (kept init).length) last.entry ∧
      (∀ x, x < d ∨ d + 24 * ((kept init).length + 1) ≤ x → t.mem x = s.mem x) ∧
      t.log.length = s.log.length + init.length := by
  induction init generalizing r rest d s fuel with
  | nil =>
    obtain ⟨fuel, rfl⟩ := Nat.exists_eq_succ_of_ne_zero hfuel.ne'
    obtain ⟨rfl, rfl⟩ := List.cons_eq_cons.1 hrest
    exact ⟨_, loop_of_exit (loadSystemMemoryInfoRound_of_eq h hlast), h.es_eq, h.di_eq, trivial,
      h.entryAt, fun _ _ => rfl, rfl⟩
  | cons r₀ init ih =>
    obtain ⟨fuel, rfl⟩ := Nat.exists_eq_succ_of_ne_zero (Nat.ne_zero_of_lt hfuel)
    obtain ⟨rfl, rfl⟩ := List.cons_eq_cons.1 hrest
    obtain ⟨r', rest, hrest'⟩ : ∃ r' rest, r' :: rest = init ++ last :: more := by
      cases init <;> exact ⟨_, _, rfl⟩
    have h' : AtReply replies r (r' :: rest) d s := hrest' ▸ h
    obtain ⟨t, ht, hat, htmem, htlog⟩ :=
      loadSystemMemoryInfoRound_of_ne h' (hinit r List.mem_cons_self) (by omega)
    have hinit' : ∀ r ∈ init, r.continuation ≠ 0 :=
      fun r' hr' => hinit r' (List.mem_cons_of_mem _ hr')
    have hfuel' : init.length < fuel := Nat.lt_of_succ_lt_succ hfuel
    by_cases hz : r.regionLength = 0
    · -- The next reply takes the place of this one.
      rw [nextAddr, if_pos hz] at hat htmem
      rw [kept_cons_of_eq hz] at hfit ⊢
      obtain ⟨u, hu, hes, hdi, hkept, hlast', hframe, hlog⟩ := ih hat hrest' hinit' hfit hfuel'
      refine ⟨u, (loop_of_again ht).trans hu, hes, hdi, hkept, hlast', fun x hx => ?_, ?_⟩
      · rw [hframe x hx, htmem, Memory.write_of_not_mem (by omega)]
      · rw [hlog, htlog, List.length_cons, Nat.add_assoc, Nat.add_comm 1]
    · rw [nextAddr, if_neg hz] at hat htmem
      rw [kept_cons_of_ne hz, List.length_cons] at hfit ⊢
      obtain ⟨u, hu, hes, hdi, hkept, hlast', hframe, hlog⟩ :=
        ih hat hrest' hinit' (by omega) hfuel'
      have hmem : ∀ x, x < d + 24 ∨ d + 24 + 24 * ((kept init).length + 1) ≤ x →
          u.mem x = s.mem x := fun x hx => by
        rw [hframe x hx, htmem, Memory.write_of_not_mem (by omega)]
      have hend : d + 24 + 24 * (kept init).length = d + 24 * ((kept init).length + 1) := by omega
      rw [hend] at hdi hlast'
      exact ⟨u, (loop_of_again ht).trans hu, hes, hdi,
        ⟨h.entryAt.congr fun x _ hx => hmem x (.inl hx), hkept⟩, hlast',
        fun x hx => hmem x (by omega),
        by rw [hlog, htlog, List.length_cons, Nat.add_assoc, Nat.add_comm 1]⟩

/-- What stage 1 writes: the replies that are kept from `0x7000` on, and the last one
    with half of its double words cleared behind them, whatever would be replied after it. -/
theorem loadSystemMemoryInfo_writes (init : List MapReply) (last : MapReply) (more : List MapReply)
    {s : MapMachine} (hes : s.es = 0) (hlog : s.log = [])
    (hfirst : ∀ r ∈ (init ++ [last]).head?, r.ok = true)
    (hinit : ∀ r ∈ init, r.continuation ≠ 0) (hlast : last.continuation = 0)
    (hfit : memoryInfoBottom + 24 * ((kept init).length + 1) ≤ memoryInfoTop)
    (hfuel : init.length < fuel) :
    ∃ t, loadSystemMemoryInfo (init ++ last :: more) fuel memoryInfoBottom s = some (.done t) ∧
      t.log.length = init.length + 1 ∧ t.es = 0 ∧
      t.get .di = memoryInfoBottom + 24 * (kept init).length ∧
      EntriesAt t.mem memoryInfoBottom (kept init) ∧
      (NullAt t.mem (memoryInfoBottom + 24 * (kept init).length) ↔ last.Low) ∧
      ∀ x, x < memoryInfoBottom ∨ memoryInfoTop ≤ x → t.mem x = s.mem x := by
  obtain ⟨r, rest, hrest⟩ : ∃ r rest, r :: rest = init ++ last :: more := by
    cases init <;> exact ⟨_, _, rfl⟩
  have hfit' : 0x7000 + 24 * ((kept init).length + 1) ≤ 0x7af0 := hfit
  obtain ⟨s₁, hs₁⟩ : ∃ s₁, (((((s.set .di memoryInfoBottom).clear .ebx).set .edx 0x534D4150).set
    .eax 0xe820).set .ecx 24).clc = s₁ := ⟨_, rfl⟩
  have heax₁ : s₁.get .eax = 0xe820 := by simp [← hs₁, Part.bits]
  have hecx₁ : s₁.get .ecx = 24 := by simp [← hs₁, Part.bits]
  have hes₁ : s₁.es = 0 := by simp [← hs₁, hes]
  have hdi₁ : s₁.get .di = memoryInfoBottom := by simp [← hs₁, Part.bits, memoryInfoBottom]
  have hlog₁ : s₁.log = [] := by simp [← hs₁, hlog]
  have hrest₁ : (init ++ last :: more).drop s₁.log.length = r :: rest := by
    rw [hlog₁, hrest, List.length_nil, List.drop_zero]
  obtain ⟨s₂, hs₂, hat, hmem₂, hcf, hlog₂⟩ := int15_spec heax₁ hecx₁ hes₁ hdi₁ hrest₁
  have hok : r.ok = true := by
    refine hfirst r ?_
    cases init <;> exact congrArg some (List.cons_eq_cons.1 hrest).1.symm
  rw [hok, Bool.not_true] at hcf
  obtain ⟨t, ht, htes, htdi, hkept, hlast', hframe, htlog⟩ := loop_loadSystemMemoryInfo hat hrest
    hinit hlast (by simp only [memoryInfoBottom]; omega) hfuel
  have hmem : ∀ x, (addNullEntry t).mem x = if memoryInfoBottom + 24 * (kept init).length ≤ x ∧
      x < memoryInfoBottom + 24 * (kept init).length + 24 ∧
      (x - (memoryInfoBottom + 24 * (kept init).length)) % 4 < 2 then 0 else t.mem x :=
    mem_addNullEntry htes htdi (by simp only [memoryInfoBottom]; omega)
  refine ⟨addNullEntry t, ?_, ?_, by rw [es_addNullEntry, htes], by rw [get_addNullEntry, htdi],
    hkept.congr fun x _ hx => ?_,
    nullAt_addNullEntry htes htdi (by simp only [memoryInfoBottom]; omega) hlast', fun x hx => ?_⟩
  · rw [loadSystemMemoryInfo]
    simp only [hs₁, hs₂, hcf, ht, Option.bind_eq_bind, Option.bind_some, if_true]
  · rw [log_addNullEntry, htlog, hlog₂, hlog₁, List.length_nil, Nat.zero_add, Nat.add_comm]
  · rw [hmem, if_neg fun h => absurd h.1 (Nat.not_le.2 hx)]
  · have hx' : x < 0x7000 ∨ 0x7000 + 24 * ((kept init).length + 1) ≤ x :=
      hx.imp_right fun h => hfit'.trans h
    rw [hmem, if_neg (by simp only [memoryInfoBottom]; omega), hframe x hx', hmem₂,
      Memory.write_of_not_mem (by simp only [memoryInfoBottom]; omega), ← hs₁]
    simp

theorem loadSystemMemoryInfo_spec (init : List MapReply) (last : MapReply) (more : List MapReply)
    {s : MapMachine} (hes : s.es = 0) (hlog : s.log = [])
    (hfirst : ∀ r ∈ (init ++ [last]).head?, r.ok = true)
    (hinit : ∀ r ∈ init, r.continuation ≠ 0) (hlast : last.continuation = 0)
    (hfit : memoryInfoBottom + 24 * ((kept init).length + 1) ≤ memoryInfoTop)
    (hfuel : init.length < fuel) :
    ∃ t, loadSystemMemoryInfo (init ++ last :: more) fuel memoryInfoBottom s = some (.done t) ∧
      t.log.length = init.length + 1 ∧ t.es = 0 ∧
      t.get .di = memoryInfoBottom + 24 * (kept init).length ∧
      EntriesAt t.mem memoryInfoBottom (kept init) ∧
      (NullAt t.mem (memoryInfoBottom + 24 * (kept init).length) ↔ last.Low) := by
  obtain ⟨t, ht, hlen, htes, htdi, hkept, hnull, -⟩ :=
    loadSystemMemoryInfo_writes init last more hes hlog hfirst hinit hlast hfit hfuel
  exact ⟨t, ht, hlen, htes, htdi, hkept, hnull⟩

/-! ## The map -/

/-- The kernel reads the usable ranges of `replies`, up to 32 of them, and stops at
    the null entry of stage 1, which is at `di`, or before it when its table is full. -/
def ReadsMap (fuel : ℕ) (s : MapMachine) (t₀ : MemoryRangeTable) (replies : List MapReply) : Prop :=
  ∃ t stop, initializeMemoryRange fuel s.mem t₀ = some (t, stop) ∧
    ranges t = (usableRanges replies).take 32 ∧
    (stop = 16 * s.es + s.get .di ∨ t.entryCount = 32 ∧ stop ≤ 16 * s.es + s.get .di)

theorem usableRanges_kept (rs : List MapReply) : usableRanges (kept rs) = usableRanges rs := by
  rw [usableRanges, kept, List.filter_filter, usableRanges]
  refine congrArg _ (List.filter_congr fun r _ => ?_)
  simp only [MapReply.usable]
  grind

theorem usableRanges_append (rs rs' : List MapReply) :
    usableRanges (rs ++ rs') = usableRanges rs ++ usableRanges rs' := by
  rw [usableRanges, List.filter_append, List.map_append, usableRanges, usableRanges]

theorem regionLength_ne_of_mem_kept {rs : List MapReply} {r : MapReply} (h : r ∈ kept rs) :
    r.regionLength ≠ 0 := by
  simpa using (List.mem_filter.1 h).2

theorem readAddress_eq {init : List MapReply} {s : MapMachine} (hes : s.es = 0)
    (hdi : s.get .di = memoryInfoBottom + 24 * (kept init).length) :
    16 * s.es + s.get .di = memoryInfoBottom + 24 * (kept init).length := by
  rw [hes, hdi, Nat.mul_zero, Nat.zero_add]

/-- If the table is full before the last reply, the rest does not matter. -/
theorem readsMap_of_full {init : List MapReply} {last : MapReply} {s : MapMachine}
    {t₀ : MemoryRangeTable} (hes : s.es = 0)
    (hdi : s.get .di = memoryInfoBottom + 24 * (kept init).length)
    (hkept : EntriesAt s.mem memoryInfoBottom (kept init)) (hfuel : (kept init).length < fuel)
    (hle : 32 ≤ (usableRanges init).length) : ReadsMap fuel s t₀ (init ++ [last]) := by
  have hle' : 32 ≤ 0 + (usableRanges (kept init)).length := by
    rw [usableRanges_kept, Nat.zero_add]
    exact hle
  obtain ⟨t, stop, ht, hranges, hcount, hstop⟩ := loop_memoryRange_of_le
    (t := { t₀ with entryCount := 0 }) hkept (fun _ => regionLength_ne_of_mem_kept)
    (Nat.zero_le _) hle' hfuel
  rw [ReadsMap, readAddress_eq hes hdi, usableRanges_append]
  refine ⟨t, stop, ht, ?_, .inr ⟨hcount, hstop⟩⟩
  rw [hranges, show ranges { t₀ with entryCount := 0 } = [] from rfl, List.nil_append,
    usableRanges_kept, List.take_append_of_le_length hle]

/-- The map is read as it was replied exactly when the table is full before the last
    reply, or when this one is not usable and no high half of it remains. -/
theorem readsMap_iff_of_spec {init : List MapReply} {last : MapReply} {s : MapMachine}
    {t₀ : MemoryRangeTable} (hes : s.es = 0)
    (hdi : s.get .di = memoryInfoBottom + 24 * (kept init).length)
    (hkept : EntriesAt s.mem memoryInfoBottom (kept init))
    (hnull : NullAt s.mem (memoryInfoBottom + 24 * (kept init).length) ↔ last.Low)
    (hfuel : (kept init).length + 1 < fuel) :
    ReadsMap fuel s t₀ (init ++ [last]) ↔
      32 ≤ (usableRanges init).length ∨ last.usable = false ∧ last.Low := by
  by_cases hle : 32 ≤ (usableRanges init).length
  · exact iff_of_true (readsMap_of_full hes hdi hkept (Nat.lt_of_succ_lt hfuel) hle) (.inl hle)
  rw [ReadsMap, readAddress_eq hes hdi, usableRanges_append]
  -- There is room for all the replies that are kept.
  have hlt : 0 + (usableRanges (kept init)).length < 32 := by
    rw [usableRanges_kept, Nat.zero_add]
    exact Nat.not_le.1 hle
  obtain ⟨fuel, rfl⟩ : ∃ fuel', fuel = fuel' + 1 + 1 + (kept init).length :=
    ⟨fuel - 2 - (kept init).length, by omega⟩
  obtain ⟨t, ht, hranges⟩ := loop_memoryRange_of_lt (fuel + 1 + 1)
    (t := { t₀ with entryCount := 0 }) hkept (fun _ => regionLength_ne_of_mem_kept) hlt
  rw [show ranges { t₀ with entryCount := 0 } = [] from rfl, List.nil_append, usableRanges_kept]
    at hranges
  have hcount : t.entryCount = (usableRanges init).length := by rw [← length_ranges, hranges]
  have hlast : usableRanges [last] = [] ↔ last.usable = false := by
    cases hu : last.usable <;> simp [usableRanges, hu]
  have htake : (usableRanges init ++ usableRanges [last]).take 32 =
      usableRanges init ++ usableRanges [last] := by
    have hone : (usableRanges [last]).length ≤ 1 :=
      (List.length_map _).trans_le (List.length_filter_le _ _)
    refine List.take_of_length_le ?_
    rw [List.length_append]
    omega
  rw [initializeMemoryRange, show memoryInformationTable = memoryInfoBottom from rfl, ht, htake,
    ← hnull]
  by_cases hn : NullAt s.mem (memoryInfoBottom + 24 * (kept init).length)
  · -- The reading stops here, without the last reply.
    rw [loop_of_exit (memoryRangeRound_of_null hn)]
    constructor
    · rintro ⟨t', stop, heq, hranges', -⟩
      obtain ⟨rfl, rfl⟩ := Prod.mk.inj (Option.some.inj heq)
      rw [hranges] at hranges'
      exact .inr ⟨hlast.1 (List.self_eq_append_right.1 hranges'), hn⟩
    · rintro (h | ⟨h, -⟩)
      · exact absurd h hle
      · exact ⟨t, _, rfl, by rw [hranges, hlast.2 h, List.append_nil], .inl rfl⟩
  · -- The reading goes on behind what stage 1 wrote.
    obtain ⟨t', ht'⟩ := memoryRangeRound_of_not_null (t := t) hn (by omega)
    rw [loop_of_again ht']
    refine iff_of_false ?_ fun h => h.elim hle fun h => hn h.2
    rintro ⟨t'', stop, heq, -, hor⟩
    have hge := le_of_loop_memoryRange heq
    omega

/-- Stage 1 leaves the memory map, and the kernel reads it as it was replied exactly
    when the table is full before the last reply, or when this one is not usable and no
    high half of it remains. -/
theorem readsMap_iff {init : List MapReply} {last : MapReply} {s : MapMachine}
    {t₀ : MemoryRangeTable} (hes : s.es = 0) (hlog : s.log = [])
    (hok : ∀ r ∈ init ++ [last], r.ok = true) (hinit : ∀ r ∈ init, r.continuation ≠ 0)
    (hlast : last.continuation = 0)
    (hfit : memoryInfoBottom + 24 * ((kept init).length + 1) ≤ memoryInfoTop)
    (hfuel : init.length + 1 < fuel) :
    ∃ t, loadSystemMemoryInfo (init ++ [last]) fuel memoryInfoBottom s = some (.done t) ∧
      (ReadsMap fuel t t₀ (init ++ [last]) ↔
        32 ≤ (usableRanges init).length ∨ last.usable = false ∧ last.Low) := by
  obtain ⟨t, ht, -, htes, htdi, hkept, hnull⟩ := loadSystemMemoryInfo_spec init last [] hes hlog
    (fun r hr => hok r (List.mem_of_mem_head? hr)) hinit hlast hfit (Nat.lt_of_succ_lt hfuel)
  have hle : (kept init).length ≤ init.length := List.length_filter_le _ _
  exact ⟨t, ht, readsMap_iff_of_spec htes htdi hkept hnull (by omega)⟩

/-! ## Two maps -/

/-- The reply with a range. -/
def sampleReply (base length type continuation : ℕ) : MapReply where
  ok := true
  entry := Memory.byteOf (base + 2 ^ 64 * length + 2 ^ 128 * type)
  regs := Function.update (fun _ => 0) .b continuation
  zf := false

/-- The machine with some bytes in the buffer. -/
def sampleMapMachine : MapMachine := ⟨fun _ => 0, 0, false, false, fun _ => 0xff, []⟩

def sampleTable : MemoryRangeTable := ⟨fun _ => ⟨0, 0⟩, 0⟩

/-- A last reply with small numbers, which are not of usable memory. -/
theorem readsMap_iff_sample :
    ∃ t, loadSystemMemoryInfo ([sampleReply 0 0x9fc00 1 1] ++ [sampleReply 0xe000 0x1000 2 0]) 10
        memoryInfoBottom sampleMapMachine = some (.done t) ∧
      (ReadsMap 10 t sampleTable ([sampleReply 0 0x9fc00 1 1] ++ [sampleReply 0xe000 0x1000 2 0]) ↔
        32 ≤ (usableRanges [sampleReply 0 0x9fc00 1 1]).length ∨
          (sampleReply 0xe000 0x1000 2 0).usable = false ∧ (sampleReply 0xe000 0x1000 2 0).Low) :=
  readsMap_iff rfl rfl (by decide) (by decide) (by decide) (by decide +kernel) (by decide)

/-- The memory above the first megabyte is lost when its range is the last one. -/
theorem not_readsMap_sample :
    ∃ t, loadSystemMemoryInfo ([sampleReply 0 0x9fc00 1 1] ++ [sampleReply 0x100000 0x7ee0000 1 0])
        10 memoryInfoBottom sampleMapMachine = some (.done t) ∧
      ¬ReadsMap 10 t sampleTable
        ([sampleReply 0 0x9fc00 1 1] ++ [sampleReply 0x100000 0x7ee0000 1 0]) := by
  obtain ⟨t, ht, -, htes, htdi, hkept, hnull⟩ := loadSystemMemoryInfo_spec
    [sampleReply 0 0x9fc00 1 1] (sampleReply 0x100000 0x7ee0000 1 0) [] (s := sampleMapMachine) rfl
    rfl (by decide) (by decide) (by decide) (by decide +kernel) (show 1 < 10 by decide)
  refine ⟨t, ht, fun h => ?_⟩
  rw [readsMap_iff_of_spec htes htdi hkept hnull (by decide +kernel)] at h
  revert h
  decide +kernel

end KessokuOS.Bootloader
