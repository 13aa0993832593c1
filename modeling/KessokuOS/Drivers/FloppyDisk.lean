import KessokuOS.Common
import KessokuOS.Lib.Loop

/-!
# Reading from the floppy disk

`readData` reads whole cylinders to the buffer of the DMA controller, and copies
the requested sectors of each to the buffer of its caller. How a cylinder is
read, by commands to the controller, is a parameter here (`readCylinder`).

A read that ends before the end of its first cylinder is right. Any other one
goes on to the next cylinder at the sector number `0`, where sector numbers
begin at `1`: the offset of its copy wraps, and lies in front of the buffer of
the DMA controller. Hence a read is right exactly when it does not reach the end
of its cylinder (`readsData_iff`).

If such a read begins behind the first side of its cylinder, the size of its first copy
wraps, too: it takes nearly the whole address space, and the kernel with it
(`State.memcpy`). Otherwise the cylinder of the sector behind the last one is read. Hence
the needed cylinders are read exactly when the read does not end with a cylinder, and
begins on the first side of a cylinder or stays in one (`cylindersRead_eq_needed_iff`).
-/

namespace KessokuOS.FloppyDisk

abbrev sectorsPerCylinder : ℕ := 18

abbrev headCount : ℕ := 2

abbrev sectorSize : ℕ := 512

abbrev dmaBufferSize : ℕ := 0x4800

/-- A position on the disk: cylinder, head and sector, a byte each. The sectors of
    a track are numbered from `1` on. -/
@[ext]
structure CHSAddress where
  c : ℕ
  h : ℕ
  s : ℕ
  deriving DecidableEq, Repr

/-- The position of a logical block. -/
def lbaToChs (lba : ℕ) : CHSAddress where
  c := lba / (sectorsPerCylinder * headCount) % 2 ^ 8
  h := lba / sectorsPerCylinder % headCount % 2 ^ 8
  s := (lba % sectorsPerCylinder + 1) % 2 ^ 8

/-- The beginning of the next cylinder, with the sector number `0`. -/
def getNextCylinder (address : CHSAddress) : CHSAddress := ⟨(address.c + 1) % 2 ^ 8, 0, 0⟩

/-- The index of the sector in its cylinder, as computed in 32 bits. -/
def sectorIndex (address : CHSAddress) : ℕ :=
  u32 (address.h * sectorsPerCylinder + u32Sub address.s 1)

/-- What a read does to the devices and the memory. -/
inductive Event
  | readCylinder (drive cylinder : ℕ)
  | memcpy (dest src count : ℕ)
  deriving DecidableEq, Repr

/-- The drive and the cylinder that is read. -/
def Event.cylinder : Event → Option (ℕ × ℕ)
  | .readCylinder drive cylinder => some (drive, cylinder)
  | .memcpy _ _ _ => none

/-- The state of a read: the devices, the memory, and what has been done. -/
structure State (W : Type*) where
  world : W
  mem : Memory
  log : List Event

/-- What reading a cylinder of a drive does to the devices and the memory. -/
abbrev CylinderReader (W : Type*) := (drive cylinder : ℕ) → W × Memory → ErrorOr Unit × W × Memory

variable {W : Type*}

namespace State

/-- Reads a cylinder to the buffer of the DMA controller. -/
def readCylinder (reader : CylinderReader W) (drive cylinder : ℕ) (s : State W) :
    ErrorOr Unit × State W :=
  let r := reader drive cylinder (s.world, s.mem)
  (r.1, ⟨r.2.1, r.2.2, s.log ++ [.readCylinder drive cylinder]⟩)

/-- A copy of half of the address space or more overwrites the kernel that makes it: there
    is no state behind it. -/
def memcpy (dest src count : ℕ) (s : State W) : Option (State W) :=
  if count < 2 ^ 31 then
    some { s with
      mem := KessokuOS.memcpy s.mem dest src count
      log := s.log ++ [.memcpy dest src count] }
  else none

end State

variable (reader : CylinderReader W) (dmaBuffer drive : ℕ)

/-- A round of the loop of `readData` over the cylinders before the last one. It
    leaves the loop at the last one, or with an error, and ends in nothing if its copy
    does. -/
def readDataRound (endAddress : CHSAddress) : CHSAddress × ℕ × State W →
    Option ((CHSAddress × ℕ × State W) ⊕ (ErrorOr (CHSAddress × ℕ) × State W))
  | (currentAddress, buffer, s) =>
    if currentAddress.c ≠ endAddress.c then
      match s.readCylinder reader drive currentAddress.c with
      | (.error e, s) => some (.inr (.error e, s))
      | (.ok (), s) =>
        let sectorIndex := sectorIndex currentAddress
        let offset := u32 (sectorIndex * sectorSize)
        let byteCount := u32 (u32Sub (u32Sub sectorsPerCylinder sectorIndex) 1 * sectorSize)
        (s.memcpy buffer (u32 (dmaBuffer + offset)) byteCount).map fun s =>
          .inl (getNextCylinder currentAddress, u32 (buffer + byteCount), s)
    else some (.inr (.ok (currentAddress, buffer), s))

/-- Reads `count` sectors from the sector `lba` on to `buffer`. There is no result if a copy
    overwrites the kernel, or the fuel is used up. -/
def readData (fuel lba count buffer : ℕ) (s : State W) : Option (ErrorOr Unit × State W) :=
  if count = 0 then some (.error .invalidArgument, s)
  else
    let startAddress := lbaToChs lba
    let endAddress := lbaToChs (u32 (lba + count))
    (loop (readDataRound reader dmaBuffer drive endAddress) fuel (startAddress, buffer, s)).bind
      fun
      | (.error e, s) => some (.error e, s)
      | (.ok (currentAddress, buffer), s) =>
        if endAddress.h ≠ 0 ∨ endAddress.s ≠ 0 then
          match s.readCylinder reader drive currentAddress.c with
          | (.error e, s) => some (.error e, s)
          | (.ok (), s) =>
            let startSectorIndex := sectorIndex currentAddress
            let endSectorIndex := sectorIndex endAddress
            let offset := u32 (startSectorIndex * sectorSize)
            let byteCount := u32 (u32Sub endSectorIndex startSectorIndex * sectorSize)
            (s.memcpy buffer (u32 (dmaBuffer + offset)) byteCount).map (.ok (), ·)
        else some (.ok (), s)

variable {reader dmaBuffer drive} {fuel lba count buffer : ℕ} {w : W} {m : Memory} {disk : ℕ → Byte}

/-- Every read of a cylinder succeeds, leaves the cylinder of `disk` in the buffer of
    the DMA controller, and leaves the `size` bytes from `buffer` on. -/
structure ReadsCylinders (reader : CylinderReader W) (dmaBuffer drive : ℕ) (disk : ℕ → Byte)
    (buffer size : ℕ) : Prop where
  ok : ∀ c w m, (reader drive c (w, m)).1 = .ok ()
  dma : ∀ c w m, ∀ j < dmaBufferSize,
    (reader drive c (w, m)).2.2 (dmaBuffer + j) = disk (dmaBufferSize * c + j)
  frame : ∀ c w m x, buffer ≤ x → x < buffer + size → (reader drive c (w, m)).2.2 x = m x

/-- The read of `count` sectors from `lba` on succeeds and gives the sectors of `disk`,
    and every copy of it lies within the buffers. -/
def ReadsData (reader : CylinderReader W) (dmaBuffer drive : ℕ) (disk : ℕ → Byte)
    (fuel lba count buffer : ℕ) (w : W) (m : Memory) : Prop :=
  ∃ s, readData reader dmaBuffer drive fuel lba count buffer ⟨w, m, []⟩ = some (.ok (), s) ∧
    (∀ j < sectorSize * count, s.mem (buffer + j) = disk (sectorSize * lba + j)) ∧
    ∀ dest src n, Event.memcpy dest src n ∈ s.log →
      (dmaBuffer ≤ src ∧ src + n ≤ dmaBuffer + dmaBufferSize) ∧
        buffer ≤ dest ∧ dest + n ≤ buffer + sectorSize * count

theorem c_lbaToChs (h : lba ≤ 2880) : (lbaToChs lba).c = lba / 36 := by
  simp only [lbaToChs, sectorsPerCylinder, headCount]
  omega

theorem h_lbaToChs (lba : ℕ) : (lbaToChs lba).h = lba / 18 % 2 := by
  simp only [lbaToChs, sectorsPerCylinder, headCount]
  omega

theorem s_lbaToChs (lba : ℕ) : (lbaToChs lba).s = lba % 18 + 1 := by
  simp only [lbaToChs, sectorsPerCylinder]
  omega

/-- Sectors count from one, so that there always is a part of the last cylinder. -/
theorem h_or_s_ne_zero (lba : ℕ) : (lbaToChs lba).h ≠ 0 ∨ (lbaToChs lba).s ≠ 0 := by
  rw [s_lbaToChs]
  exact .inr (Nat.succ_ne_zero _)

/-- The index of a sector of the disk in its cylinder. -/
theorem sectorIndex_lbaToChs (lba : ℕ) : sectorIndex (lbaToChs lba) = lba % 36 := by
  rw [sectorIndex, h_lbaToChs, s_lbaToChs, u32Sub_of_le (by omega) (by omega), sectorsPerCylinder,
    u32_of_lt (by omega)]
  omega

theorem State.readCylinder_eq {size c : ℕ}
    (hr : ReadsCylinders reader dmaBuffer drive disk buffer size) (s : State W) :
    ∃ w' m', s.readCylinder reader drive c =
      (.ok (), ⟨w', m', s.log ++ [.readCylinder drive c]⟩) ∧
      (∀ j < dmaBufferSize, m' (dmaBuffer + j) = disk (dmaBufferSize * c + j)) ∧
      ∀ x, buffer ≤ x → x < buffer + size → m' x = s.mem x :=
  ⟨_, _, Prod.ext (hr.ok c s.world s.mem) rfl, hr.dma c s.world s.mem, hr.frame c s.world s.mem⟩

/-- A read that ends in its first cylinder takes one copy. -/
theorem readsData_of_eq (hcount : 0 < count) (hlba : lba + count ≤ 2880)
    (hdma : dmaBuffer + dmaBufferSize ≤ 2 ^ 32) (hbuffer : buffer + sectorSize * count ≤ 2 ^ 32)
    (hdisj : buffer + sectorSize * count ≤ dmaBuffer ∨ dmaBuffer + dmaBufferSize ≤ buffer)
    (hr : ReadsCylinders reader dmaBuffer drive disk buffer (sectorSize * count))
    (hfuel : 0 < fuel) (h : lba / 36 = (lba + count) / 36) :
    ReadsData reader dmaBuffer drive disk fuel lba count buffer w m := by
  obtain ⟨fuel, rfl⟩ := Nat.exists_eq_succ_of_ne_zero hfuel.ne'
  have hc : (lbaToChs lba).c = (lbaToChs (lba + count)).c := by
    rw [c_lbaToChs (by omega), c_lbaToChs hlba, h]
  have hround : readDataRound reader dmaBuffer drive (lbaToChs (lba + count))
      (lbaToChs lba, buffer, (⟨w, m, []⟩ : State W)) =
      some (.inr (.ok (lbaToChs lba, buffer), ⟨w, m, []⟩)) :=
    if_neg (not_not.2 hc)
  obtain ⟨w', m', hread, hdisk, -⟩ := State.readCylinder_eq hr (c := lba / 36) ⟨w, m, []⟩
  have hs := h_or_s_ne_zero (lba + count)
  rw [ReadsData]
  simp only [sectorSize, dmaBufferSize] at *
  -- The sectors lie at the index of the first one in the buffer of the cylinder.
  have hoffset : u32 (lba % 36 * 512) = lba % 36 * 512 := u32_of_lt (by omega)
  have hbytes : u32 (u32Sub ((lba + count) % 36) (lba % 36) * 512) = 512 * count := by
    rw [u32Sub_of_le (by omega) (by omega), u32_of_lt (by omega)]
    omega
  have hsrc : u32 (dmaBuffer + lba % 36 * 512) = dmaBuffer + lba % 36 * 512 :=
    u32_of_lt (by omega)
  refine ⟨⟨w', memcpy m' buffer (dmaBuffer + lba % 36 * 512) (512 * count),
    [.readCylinder drive (lba / 36), .memcpy buffer (dmaBuffer + lba % 36 * 512) (512 * count)]⟩,
    ?_, fun j hj => ?_, fun dest src n hmem => ?_⟩
  · rw [readData, if_neg hcount.ne', u32_of_lt (by omega)]
    simp only [loop_of_exit hround, Option.bind_some, if_pos hs,
      c_lbaToChs (show lba ≤ 2880 by omega), hread, sectorIndex_lbaToChs, sectorSize, hoffset,
      hbytes, hsrc]
    rw [State.memcpy, if_pos (by omega)]
    rfl
  · have hcopy : memcpy m' buffer (dmaBuffer + lba % 36 * 512) (512 * count) (buffer + j) =
        m' (dmaBuffer + lba % 36 * 512 + j) := memcpy_add (by omega) (by omega) (by omega) hj
    dsimp only
    rw [hcopy, show dmaBuffer + lba % 36 * 512 + j = dmaBuffer + (lba % 36 * 512 + j)
      by omega, hdisk _ (by omega)]
    congr 1
    omega
  · obtain ⟨rfl, rfl, rfl⟩ :
        dest = buffer ∧ src = dmaBuffer + lba % 36 * 512 ∧ n = 512 * count := by
      simpa using hmem
    omega

/-- The beginning of a cylinder, as the loop makes it, is one sector before it. -/
theorem sectorIndex_zero (c : ℕ) : sectorIndex ⟨c, 0, 0⟩ = 2 ^ 32 - 1 := by
  change u32 (0 * 18 + u32Sub 0 1) = 2 ^ 32 - 1
  decide

/-- The number of bytes that the loop copies from a cylinder, as computed in 32 bits. -/
def loopByteCount (address : CHSAddress) : ℕ :=
  u32 (u32Sub (u32Sub sectorsPerCylinder (sectorIndex address)) 1 * sectorSize)

/-- It wraps for the sectors of the second side. -/
theorem loopByteCount_lbaToChs (lba : ℕ) :
    loopByteCount (lbaToChs lba) < 2 ^ 31 ↔ lba % 36 < 18 := by
  have hall : ∀ i < 36, u32 (u32Sub (u32Sub 18 i) 1 * 512) < 2 ^ 31 ↔ i < 18 := by decide +kernel
  rw [loopByteCount, sectorIndex_lbaToChs]
  exact hall _ (Nat.mod_lt _ (by decide))

theorem loopByteCount_zero (c : ℕ) : loopByteCount ⟨c, 0, 0⟩ < 2 ^ 31 := by
  rw [loopByteCount, sectorIndex_zero]
  decide

theorem State.memcpy_of_lt {count : ℕ} (h : count < 2 ^ 31) (dest src : ℕ) (s : State W) :
    s.memcpy dest src count = some { s with
      mem := KessokuOS.memcpy s.mem dest src count
      log := s.log ++ [.memcpy dest src count] } :=
  if_pos h

/-- A round that has read its cylinder, and copies from it. -/
theorem readDataRound_of_ok {cur stop : CHSAddress} {s t : State W} (h : cur.c ≠ stop.c)
    (hcopy : loopByteCount cur < 2 ^ 31) (hread : s.readCylinder reader drive cur.c = (.ok (), t))
    (buf : ℕ) : ∃ buf' t', readDataRound reader dmaBuffer drive stop (cur, buf, s) =
        some (.inl (getNextCylinder cur, buf', t')) ∧
      ∃ dest src n, t.memcpy dest src n = some t' := by
  have hmemcpy := State.memcpy_of_lt hcopy buf
    (u32 (dmaBuffer + u32 (sectorIndex cur * sectorSize))) t
  rw [readDataRound, if_pos h, hread]
  exact ⟨_, _, congrArg (Option.map _) hmemcpy, _, _, _, hmemcpy⟩

/-- A round of the loop before the last cylinder. -/
theorem readDataRound_of_ne {size : ℕ} {cur stop : CHSAddress}
    (hr : ReadsCylinders reader dmaBuffer drive disk buffer size) (h : cur.c ≠ stop.c)
    (hcopy : loopByteCount cur < 2 ^ 31) (buf : ℕ) (s : State W) :
    ∃ buf' s', readDataRound reader dmaBuffer drive stop (cur, buf, s) =
      some (.inl (getNextCylinder cur, buf', s')) := by
  obtain ⟨w', m', hread, -⟩ := State.readCylinder_eq hr (c := cur.c) s
  obtain ⟨buf', s', hround, -⟩ := readDataRound_of_ok h hcopy hread buf
  exact ⟨buf', s', hround⟩

/-- A round whose copy overwrites the kernel. -/
theorem readDataRound_of_le {size : ℕ} {cur stop : CHSAddress}
    (hr : ReadsCylinders reader dmaBuffer drive disk buffer size) (h : cur.c ≠ stop.c)
    (hcopy : ¬loopByteCount cur < 2 ^ 31) (buf : ℕ) (s : State W) :
    readDataRound reader dmaBuffer drive stop (cur, buf, s) = none := by
  obtain ⟨w', m', hread, -⟩ := State.readCylinder_eq hr (c := cur.c) s
  rw [readDataRound, if_pos h, hread]
  exact congrArg (Option.map _) (if_neg hcopy)

/-- A read that goes on to another cylinder ends at the beginning of its last one,
    with the sector number `0`. -/
theorem loop_readDataRound {size : ℕ} {start stop : CHSAddress}
    (hr : ReadsCylinders reader dmaBuffer drive disk buffer size) (hlt : start.c < stop.c)
    (hcopy : loopByteCount start < 2 ^ 31) (hstop : stop.c < 256) (hfuel : stop.c < fuel) (buf : ℕ)
    (s : State W) :
    ∃ r, loop (readDataRound reader dmaBuffer drive stop) fuel (start, buf, s) = some r ∧
      ∃ buf' s', r = (.ok (⟨stop.c, 0, 0⟩, buf'), s') := by
  -- The cylinder goes up by one in each round, and the last step lands on the start of `stop`.
  refine loop_total
    (fun t : CHSAddress × ℕ × State W =>
      t.1.c < stop.c ∧ loopByteCount t.1 < 2 ^ 31 ∨ t.1 = ⟨stop.c, 0, 0⟩)
    (fun r : ErrorOr (CHSAddress × ℕ) × State W => ∃ buf' s', r = (.ok (⟨stop.c, 0, 0⟩, buf'), s'))
    (fun t => stop.c - t.1.c) ?_ (.inl ⟨hlt, hcopy⟩) (by dsimp only; omega)
  rintro ⟨cur, buf, s⟩ (⟨hcur, hcopy⟩ | rfl)
  · dsimp only at hcur hcopy
    obtain ⟨buf', s', hround⟩ := readDataRound_of_ne hr hcur.ne hcopy buf s
    have hnext : (getNextCylinder cur).c = cur.c + 1 := Nat.mod_eq_of_lt (by omega)
    refine .inl ⟨_, hround, ?_, ?_⟩
    · rcases Nat.lt_or_eq_of_le (show cur.c + 1 ≤ stop.c by omega) with h | h
      · exact .inl ⟨hnext ▸ h, loopByteCount_zero _⟩
      · right
        change getNextCylinder cur = ⟨stop.c, 0, 0⟩
        rw [← h, ← hnext]
        rfl
    · dsimp only
      omega
  · exact .inr ⟨_, if_neg (not_not.2 rfl), buf, s, rfl⟩

/-- A read that goes on to another cylinder ends with a copy from in front of the
    buffer of the DMA controller, where its offset wraps to, unless its first copy
    overwrites the kernel. -/
theorem readData_of_ne {size : ℕ} (hcount : 0 < count) (hlba : lba + count ≤ 2880)
    (hr : ReadsCylinders reader dmaBuffer drive disk buffer size) (hfuel : 80 < fuel)
    (h : lba / 36 ≠ (lba + count) / 36) :
    readData reader dmaBuffer drive fuel lba count buffer ⟨w, m, []⟩ = none ∨
    ∃ s dest src n, readData reader dmaBuffer drive fuel lba count buffer ⟨w, m, []⟩ =
      some (.ok (), s) ∧ Event.memcpy dest src n ∈ s.log ∧ 0 < n ∧
        (src < dmaBuffer ∨ dmaBuffer + dmaBufferSize ≤ src) := by
  have hstop := c_lbaToChs hlba
  have hstart := c_lbaToChs (show lba ≤ 2880 by omega)
  have hlt : (lbaToChs lba).c < (lbaToChs (lba + count)).c := by omega
  rw [readData, if_neg hcount.ne', u32_of_lt (by omega)]
  by_cases hcopy : loopByteCount (lbaToChs lba) < 2 ^ 31
  swap
  · left
    obtain ⟨fuel, rfl⟩ := Nat.exists_eq_succ_of_ne_zero (show fuel ≠ 0 by omega)
    simp only [loop, readDataRound_of_le hr hlt.ne hcopy, Option.bind_none]
  right
  obtain ⟨r, hloop, buf', s', rfl⟩ := loop_readDataRound hr hlt hcopy (by omega)
    (show (lbaToChs (lba + count)).c < fuel by omega) buffer ⟨w, m, []⟩
  obtain ⟨w', m', hread, -⟩ := State.readCylinder_eq hr (c := (lbaToChs (lba + count)).c) s'
  have hs := h_or_s_ne_zero (lba + count)
  -- The last copy takes the sectors up to the last one, and the one in front of the buffer.
  have hbytes : u32 (u32Sub ((lba + count) % 36) (2 ^ 32 - 1) * sectorSize) =
      ((lba + count) % 36 + 1) * 512 := by
    rw [u32Sub, u32, sectorSize]
    omega
  simp only [hloop, Option.bind_some, if_pos hs, hread, sectorIndex_zero, sectorIndex_lbaToChs,
    hbytes]
  rw [State.memcpy_of_lt (by omega)]
  refine ⟨_, _, _, _, rfl, List.mem_append_right _ (List.mem_singleton_self _), by omega, ?_⟩
  rw [u32, u32, sectorSize, dmaBufferSize] at *
  omega

/-- Such a read is not right. -/
theorem not_readsData_of_ne {size : ℕ} (hcount : 0 < count) (hlba : lba + count ≤ 2880)
    (hr : ReadsCylinders reader dmaBuffer drive disk buffer size) (hfuel : 80 < fuel)
    (h : lba / 36 ≠ (lba + count) / 36) :
    ¬ReadsData reader dmaBuffer drive disk fuel lba count buffer w m := by
  rintro ⟨s, heq, -, hlog⟩
  rcases readData_of_ne hcount hlba hr hfuel h with heq' | ⟨s', dest, src, n, heq', hmem, hn, hout⟩
  · exact nomatch heq.symm.trans heq'
  rw [heq] at heq'
  obtain rfl := (Prod.mk.inj (Option.some.inj heq')).2
  have := (hlog dest src n hmem).1
  omega

/-- A read gives the data of the disk exactly when it does not reach the end of the
    cylinder in which it begins. -/
theorem readsData_iff (hcount : 0 < count) (hlba : lba + count ≤ 2880)
    (hdma : dmaBuffer + dmaBufferSize ≤ 2 ^ 32) (hbuffer : buffer + sectorSize * count ≤ 2 ^ 32)
    (hdisj : buffer + sectorSize * count ≤ dmaBuffer ∨ dmaBuffer + dmaBufferSize ≤ buffer)
    (hr : ReadsCylinders reader dmaBuffer drive disk buffer (sectorSize * count))
    (hfuel : 80 < fuel) : ReadsData reader dmaBuffer drive disk fuel lba count buffer w m ↔
      lba / 36 = (lba + count) / 36 := by
  refine ⟨fun h => ?_, readsData_of_eq hcount hlba hdma hbuffer hdisj hr (by omega)⟩
  by_contra hne
  exact not_readsData_of_ne hcount hlba hr hfuel hne h

section Invariant

variable {I : W → Prop} {s s' : State W} {r : ErrorOr Unit}

theorem State.memcpy_eq_some {dest src n : ℕ} (h : s.memcpy dest src n = some s') :
    s'.world = s.world ∧ s'.log = s.log ++ [.memcpy dest src n] := by
  rw [memcpy] at h
  split_ifs at h
  obtain rfl := Option.some.inj h
  exact ⟨rfl, rfl⟩

theorem State.readCylinder_invariant {c : ℕ} (hI : ∀ c w m, I w → I (reader drive c (w, m)).2.1)
    (hs : I s.world) (h : s.readCylinder reader drive c = (r, s')) : I s'.world := by
  obtain ⟨-, rfl⟩ := Prod.mk.inj h
  exact hI c s.world s.mem hs

theorem readDataRound_invariant {stop : CHSAddress} {t : CHSAddress × ℕ × State W}
    {x : (CHSAddress × ℕ × State W) ⊕ (ErrorOr (CHSAddress × ℕ) × State W)}
    (hI : ∀ c w m, I w → I (reader drive c (w, m)).2.1) (ht : I t.2.2.world)
    (h : readDataRound reader dmaBuffer drive stop t = some x) :
    I (x.elim (fun t => t.2.2.world) fun r => r.2.world) := by
  obtain ⟨cur, buf, s⟩ := t
  rw [readDataRound] at h
  split_ifs at h
  · rcases hr : s.readCylinder reader drive cur.c with ⟨q, s'⟩
    have hs' := State.readCylinder_invariant hI ht hr
    rw [hr] at h
    cases q with
    | error e =>
      obtain rfl := Option.some.inj h
      exact hs'
    | ok a =>
      obtain ⟨s'', hcopy, rfl⟩ := Option.map_eq_some_iff.1 h
      rw [Sum.elim_inl, (State.memcpy_eq_some hcopy).1]
      exact hs'
  · obtain rfl := Option.some.inj h
    exact ht

/-- What every read of a cylinder keeps of the devices, a read keeps. -/
theorem readData_invariant (hI : ∀ c w m, I w → I (reader drive c (w, m)).2.1) (hs : I s.world)
    (hrun : readData reader dmaBuffer drive fuel lba count buffer s = some (r, s')) :
    I s'.world := by
  rw [readData] at hrun
  split_ifs at hrun
  · obtain ⟨-, rfl⟩ := Prod.mk.inj (Option.some.inj hrun)
    exact hs
  obtain ⟨⟨q, t⟩, hloop, hend⟩ := Option.bind_eq_some_iff.1 hrun
  have ht : I t.world :=
    loop_post (fun u : CHSAddress × ℕ × State W => I u.2.2.world)
      (fun q : ErrorOr (CHSAddress × ℕ) × State W => I q.2.world)
      (fun _ _ hu hround => readDataRound_invariant hI hu hround)
      (fun _ _ hu hround => readDataRound_invariant hI hu hround) hs hloop
  rcases q with e | ⟨cur, buf⟩
  · obtain ⟨-, rfl⟩ := Prod.mk.inj (Option.some.inj hend)
    exact ht
  · dsimp only at hend
    split_ifs at hend
    · rcases hr : t.readCylinder reader drive cur.c with ⟨q, t'⟩
      have ht' := State.readCylinder_invariant hI ht hr
      rw [hr] at hend
      cases q with
      | error e =>
        obtain ⟨-, rfl⟩ := Prod.mk.inj (Option.some.inj hend)
        exact ht'
      | ok a =>
        obtain ⟨t'', hcopy, h⟩ := Option.map_eq_some_iff.1 hend
        obtain ⟨-, rfl⟩ := Prod.mk.inj h
        rw [(State.memcpy_eq_some hcopy).1]
        exact ht'
    · obtain ⟨-, rfl⟩ := Prod.mk.inj (Option.some.inj hend)
      exact ht

end Invariant

/-- A disk without errors, read to a buffer at `0x20000`. -/
def sampleReader (disk : ℕ → Byte) : CylinderReader Unit := fun _ c p =>
  (.ok (), (), p.2.write 0x20000 dmaBufferSize fun j => disk (dmaBufferSize * c + j))

theorem readsCylinders_sampleReader (disk : ℕ → Byte) {size : ℕ} (h : size ≤ 0x10000) :
    ReadsCylinders (sampleReader disk) 0x20000 0 disk 0x10000 size := by
  refine ⟨fun _ _ _ => rfl, fun c w m j hj => ?_, fun c w m x _ hx => ?_⟩
  · simp only [sampleReader]
    rw [Memory.write_add hj]
  · simp only [sampleReader]
    rw [Memory.write_of_not_mem (by omega)]

theorem readsData_sample : ReadsData (sampleReader (BitVec.ofNat 8)) 0x20000 0 (BitVec.ofNat 8)
    81 80 1 0x10000 () (fun _ => 0) ↔ 80 / 36 = (80 + 1) / 36 :=
  readsData_iff (by decide) (by decide) (by decide) (by decide) (by decide)
    (readsCylinders_sampleReader _ (by decide)) (by decide)

/-- The last sector of the first cylinder is not read. -/
theorem not_readsData_sample :
    ReadsCylinders (sampleReader (BitVec.ofNat 8)) 0x20000 0 (BitVec.ofNat 8) 0x10000 512 ∧
      ¬ReadsData (sampleReader (BitVec.ofNat 8)) 0x20000 0 (BitVec.ofNat 8) 81 35 1 0x10000 ()
        (fun _ => 0) :=
  ⟨readsCylinders_sampleReader _ (by decide), not_readsData_of_ne (by decide) (by decide)
    (readsCylinders_sampleReader _ (show 512 ≤ 0x10000 by decide)) (by decide) (by decide)⟩

/-! ## The cylinders of a read -/

/-- The drives and cylinders that are read, in their order. -/
def cylindersRead (log : List Event) : List (ℕ × ℕ) := log.filterMap Event.cylinder

/-- The `n` cylinders of a drive from `first` on. -/
def cylindersFrom (drive first n : ℕ) : List (ℕ × ℕ) := (List.range' first n).map (drive, ·)

/-- The cylinders of `count` sectors from `lba` on: from that of the first sector to that
    of the last one. -/
def neededCylinders (drive lba count : ℕ) : List (ℕ × ℕ) :=
  cylindersFrom drive (lba / 36) ((lba + count - 1) / 36 + 1 - lba / 36)

/-- No read of a needed cylinder failed: a read that fails is the last one, and was one
    of a cylinder behind them. -/
def NeededSucceed (drive lba count : ℕ) (r : ErrorOr Unit) (log : List Event) : Prop :=
  r = .ok () ∨ ∃ c, (cylindersRead log).getLast? = some (drive, c) ∧ (lba + count - 1) / 36 < c

theorem cylindersFrom_succ (drive first n : ℕ) :
    cylindersFrom drive first (n + 1) = cylindersFrom drive first n ++ [(drive, first + n)] := by
  rw [cylindersFrom, List.range'_concat, List.map_append, Nat.one_mul]
  rfl

theorem cylindersFrom_inj {first n n' : ℕ}
    (h : cylindersFrom drive first n = cylindersFrom drive first n') : n = n' := by
  simpa [cylindersFrom] using congrArg List.length h

/-- The reads of a log are those of the cylinders from `first` on, and the last one is
    that of the cylinder `last`. -/
def ReadUpTo (drive first last : ℕ) (log : List Event) : Prop :=
  first ≤ last ∧ cylindersRead log = cylindersFrom drive first (last + 1 - first)

theorem ReadUpTo.getLast? {first last : ℕ} {log : List Event}
    (h : ReadUpTo drive first last log) : (cylindersRead log).getLast? = some (drive, last) := by
  obtain ⟨hle, h⟩ := h
  rw [h, show last + 1 - first = last - first + 1 by omega, cylindersFrom_succ,
    List.getLast?_concat, show first + (last - first) = last by omega]

theorem cylindersRead_readCylinder {first c : ℕ} {s s' : State W} {r : ErrorOr Unit}
    (hle : first ≤ c) (hs : cylindersRead s.log = cylindersFrom drive first (c - first))
    (h : s.readCylinder reader drive c = (r, s')) : ReadUpTo drive first c s'.log := by
  refine ⟨hle, ?_⟩
  have hlog : s'.log = s.log ++ [.readCylinder drive c] := congrArg (State.log ∘ Prod.snd) h.symm
  rw [show c + 1 - first = c - first + 1 by omega, cylindersFrom_succ, ← hs,
    show first + (c - first) = c by omega, hlog]
  exact List.filterMap_append

theorem cylindersRead_memcpy {dest src n : ℕ} {s s' : State W}
    (h : s.memcpy dest src n = some s') : cylindersRead s'.log = cylindersRead s.log := by
  rw [(State.memcpy_eq_some h).2]
  exact List.filterMap_append.trans (List.append_nil _)

/-- What the loop has read when it is left: the cylinders before the last one, unless the
    read of one of them fails. It is left at its start, or at the beginning of a cylinder. -/
def LoopRead (reader : CylinderReader W) (drive : ℕ) (start : CHSAddress) (stop : ℕ)
    (r : ErrorOr (CHSAddress × ℕ) × State W) : Prop :=
  match r.1 with
  | .ok (cur, _) => cur.c = stop ∧ (cur = start ∨ cur = ⟨cur.c, 0, 0⟩) ∧
      cylindersRead r.2.log = cylindersFrom drive start.c (stop - start.c)
  | .error e => ∃ last, last < stop ∧ ReadUpTo drive start.c last r.2.log ∧
      ∃ p, (reader drive last p).1 = .error e

variable (reader dmaBuffer drive buffer w m) in
theorem loop_cylinders {start stop : CHSAddress} (hle : start.c ≤ stop.c)
    (hcopy : start.c = stop.c ∨ loopByteCount start < 2 ^ 31) (hstop : stop.c < 256)
    (hfuel : stop.c < fuel) : ∃ r, loop (readDataRound reader dmaBuffer drive stop) fuel
        (start, buffer, ⟨w, m, []⟩) = some r ∧ LoopRead reader drive start stop.c r := by
  refine loop_total
    (fun t : CHSAddress × ℕ × State W => start.c ≤ t.1.c ∧ t.1.c ≤ stop.c ∧
      (t.1 = start ∨ t.1 = ⟨t.1.c, 0, 0⟩) ∧
      cylindersRead t.2.2.log = cylindersFrom drive start.c (t.1.c - start.c))
    (LoopRead reader drive start stop.c) (fun t => stop.c - t.1.c) ?_
    ⟨le_refl _, hle, .inl rfl, by simp [cylindersRead, cylindersFrom]⟩ (by dsimp only; omega)
  rintro ⟨cur, buf, s⟩ ⟨hstart, hcur, hplace, hread⟩
  dsimp only at hstart hcur hplace hread
  by_cases h : cur.c = stop.c
  · refine .inr ⟨_, if_neg (not_not.2 h), h, hplace, ?_⟩
    rw [← h]
    exact hread
  rcases hr : s.readCylinder reader drive cur.c with ⟨r, t⟩
  have ht := cylindersRead_readCylinder hstart hread hr
  cases r with
  | error e =>
    refine .inr ⟨(.error e, t), ?_, cur.c, by omega, ht, _, congrArg Prod.fst hr⟩
    rw [readDataRound, if_pos h, hr]
  | ok a =>
    have hnext : (getNextCylinder cur).c = cur.c + 1 := Nat.mod_eq_of_lt (by omega)
    have hsmall : loopByteCount cur < 2 ^ 31 := by
      rcases hplace with rfl | hplace
      · exact hcopy.resolve_left h
      · rw [hplace]
        exact loopByteCount_zero _
    obtain ⟨buf', t', hround, dest, src, n, hmemcpy⟩ := readDataRound_of_ok h hsmall hr buf
    refine .inl ⟨_, hround, ⟨?_, ?_, .inr rfl, ?_⟩, ?_⟩
    · dsimp only
      omega
    · dsimp only
      omega
    · dsimp only
      rw [cylindersRead_memcpy hmemcpy, hnext]
      exact ht.2
    · dsimp only
      omega

/-- The size of the last copy does not wrap. -/
theorem lastByteCount_lt {cur : CHSAddress} (hcount : 0 < count)
    (hplace : cur = lbaToChs lba ∧ lba / 36 = (lba + count) / 36 ∨ cur = ⟨cur.c, 0, 0⟩) :
    u32 (u32Sub (sectorIndex (lbaToChs (lba + count))) (sectorIndex cur) * sectorSize) <
      2 ^ 31 := by
  rcases hplace with ⟨rfl, h⟩ | hplace
  · rw [sectorIndex_lbaToChs, sectorIndex_lbaToChs, u32Sub_of_le (by omega) (by omega), sectorSize,
      u32_of_lt (by omega)]
    omega
  · rw [hplace, sectorIndex_zero, sectorIndex_lbaToChs, u32Sub, u32, sectorSize]
    omega

variable (reader dmaBuffer drive buffer w m) in
/-- A read whose first copy does not overwrite the kernel ends, and reads the cylinders up
    to that of the sector behind the last one, unless the read of one of them fails. -/
theorem readUpTo_readData (hcount : 0 < count) (hlba : lba + count ≤ 2880) (hfuel : 80 < fuel)
    (hcopy : lba % 36 < 18 ∨ lba / 36 = (lba + count) / 36) :
    ∃ r s last, readData reader dmaBuffer drive fuel lba count buffer ⟨w, m, []⟩ = some (r, s) ∧
      ReadUpTo drive (lba / 36) last s.log ∧ last ≤ (lba + count) / 36 ∧
      (r = .ok () ∧ last = (lba + count) / 36 ∨
        ∃ e p, r = .error e ∧ (reader drive last p).1 = .error e) := by
  have hstop := c_lbaToChs hlba
  have hstart := c_lbaToChs (show lba ≤ 2880 by omega)
  obtain ⟨⟨r, s⟩, hloop, hr⟩ := loop_cylinders reader dmaBuffer drive buffer w m
    (show (lbaToChs lba).c ≤ (lbaToChs (lba + count)).c by omega)
    (hcopy.symm.imp (fun h => by rw [hstart, hstop, h]) (loopByteCount_lbaToChs lba).2) (by omega)
    (show (lbaToChs (lba + count)).c < fuel by omega)
  rw [LoopRead, hstart, hstop] at hr
  have hs := h_or_s_ne_zero (lba + count)
  rw [readData, if_neg hcount.ne', u32_of_lt (by omega)]
  simp only [hloop, Option.bind_some]
  rcases r with e | ⟨cur, buf⟩
  · obtain ⟨last, hlast, hread, p, hp⟩ := hr
    exact ⟨_, _, last, rfl, hread, by omega, .inr ⟨e, p, rfl, hp⟩⟩
  · obtain ⟨hcur, hplace, hread⟩ := hr
    dsimp only at hcur hplace hread ⊢
    rw [if_pos hs]
    rcases h : s.readCylinder reader drive cur.c with ⟨r, t⟩
    have ht := cylindersRead_readCylinder (by omega) (hcur ▸ hread) h
    cases r with
    | error e =>
      exact ⟨_, _, cur.c, rfl, ht, hcur.le, .inr ⟨e, _, rfl, congrArg Prod.fst h⟩⟩
    | ok a =>
      have hsmall : u32 (u32Sub (sectorIndex (lbaToChs (lba + count))) (sectorIndex cur) *
          sectorSize) < 2 ^ 31 :=
        lastByteCount_lt hcount (hplace.imp_left fun h => ⟨h, by rw [← hstart, ← h, hcur]⟩)
      have hmemcpy := State.memcpy_of_lt hsmall buf
        (u32 (dmaBuffer + u32 (sectorIndex cur * sectorSize))) t
      refine ⟨_, _, cur.c, congrArg (Option.map _) hmemcpy, ⟨ht.1, ?_⟩, hcur.le,
        .inl ⟨rfl, hcur⟩⟩
      exact (cylindersRead_memcpy hmemcpy).trans ht.2

variable (reader dmaBuffer drive buffer w m) in
/-- A read whose first copy overwrites the kernel does not end, unless the read of its
    first cylinder fails. -/
theorem readData_of_overwritten (hcount : 0 < count) (hlba : lba + count ≤ 2880)
    (hfuel : 80 < fuel) (hcopy : ¬(lba % 36 < 18 ∨ lba / 36 = (lba + count) / 36)) :
    readData reader dmaBuffer drive fuel lba count buffer ⟨w, m, []⟩ = none ∨
      ∃ e s p, readData reader dmaBuffer drive fuel lba count buffer ⟨w, m, []⟩ =
        some (.error e, s) ∧ cylindersRead s.log = [(drive, lba / 36)] ∧
        (reader drive (lba / 36) p).1 = .error e := by
  obtain ⟨hsector, hne⟩ := not_or.1 hcopy
  have hstart := c_lbaToChs (show lba ≤ 2880 by omega)
  have hc : (lbaToChs lba).c ≠ (lbaToChs (lba + count)).c := by
    rw [c_lbaToChs hlba, hstart]
    exact hne
  obtain ⟨fuel, rfl⟩ := Nat.exists_eq_succ_of_ne_zero (show fuel ≠ 0 by omega)
  rw [readData, if_neg hcount.ne', u32_of_lt (by omega)]
  rcases h : (⟨w, m, []⟩ : State W).readCylinder reader drive (lba / 36) with ⟨r, t⟩
  cases r with
  | error e =>
    right
    have hround : readDataRound reader dmaBuffer drive (lbaToChs (lba + count))
        (lbaToChs lba, buffer, (⟨w, m, []⟩ : State W)) = some (.inr (.error e, t)) := by
      rw [readDataRound, if_pos hc, hstart, h]
    simp only [loop_of_exit hround, Option.bind_some]
    refine ⟨e, t, (w, m), rfl, ?_, congrArg Prod.fst h⟩
    rw [show t.log = [.readCylinder drive (lba / 36)] from congrArg (State.log ∘ Prod.snd) h.symm]
    rfl
  | ok a =>
    left
    have hround : readDataRound reader dmaBuffer drive (lbaToChs (lba + count))
        (lbaToChs lba, buffer, (⟨w, m, []⟩ : State W)) = none := by
      rw [readDataRound, if_pos hc, hstart, h]
      exact congrArg (Option.map _) (if_neg fun hlt => hsector ((loopByteCount_lbaToChs lba).1 hlt))
    simp only [loop, hround, Option.bind_none]

/-- Where the needed cylinders can be read, no read of one fails. -/
theorem neededSucceed_of_ok {r : ErrorOr Unit} {s : State W} (hcount : 0 < count)
    (hlba : lba + count ≤ 2880) (hfuel : 80 < fuel)
    (hok : ∀ c ≤ (lba + count - 1) / 36, ∀ p, (reader drive c p).1 = .ok ())
    (hrun : readData reader dmaBuffer drive fuel lba count buffer ⟨w, m, []⟩ = some (r, s)) :
    NeededSucceed drive lba count r s.log := by
  by_cases hcopy : lba % 36 < 18 ∨ lba / 36 = (lba + count) / 36
  · obtain ⟨r', s', last, hrun', hread, -, hlast⟩ :=
      readUpTo_readData reader dmaBuffer drive buffer w m hcount hlba hfuel hcopy
    rw [hrun, Option.some.injEq, Prod.mk.injEq] at hrun'
    obtain ⟨rfl, rfl⟩ := hrun'
    rcases hlast with ⟨hr, -⟩ | ⟨e, p, -, hp⟩
    · exact .inl hr
    · refine .inr ⟨last, hread.getLast?, ?_⟩
      by_contra hle
      rw [hok last (by omega)] at hp
      exact nomatch hp
  · rcases readData_of_overwritten reader dmaBuffer drive buffer w m hcount hlba hfuel hcopy with
      hnone | ⟨e, s', p, -, -, hp⟩
    · exact nomatch hrun.symm.trans hnone
    · rw [hok _ (by omega)] at hp
      exact nomatch hp

/-- If no read of a needed cylinder fails, a read ends, and has read the needed cylinders,
    each once and in their order, and no others, exactly when it does not end with the last
    sector of a cylinder, and begins on the first side of a cylinder or stays in one. -/
theorem cylindersRead_eq_needed_iff (hcount : 0 < count) (hlba : lba + count ≤ 2880)
    (hfuel : 80 < fuel)
    (hok : ∀ r s, readData reader dmaBuffer drive fuel lba count buffer ⟨w, m, []⟩ = some (r, s) →
      NeededSucceed drive lba count r s.log) :
    (∃ r s, readData reader dmaBuffer drive fuel lba count buffer ⟨w, m, []⟩ = some (r, s) ∧
      cylindersRead s.log = neededCylinders drive lba count) ↔
      (lba + count) % 36 ≠ 0 ∧ (lba % 36 < 18 ∨ lba / 36 = (lba + count - 1) / 36) := by
  by_cases hcopy : lba % 36 < 18 ∨ lba / 36 = (lba + count) / 36
  · obtain ⟨r, s, last, hrun, hread, hle, hlast⟩ :=
      readUpTo_readData reader dmaBuffer drive buffer w m hcount hlba hfuel hcopy
    -- A read that fails is that of the last cylinder, too.
    have heq : last = (lba + count) / 36 := by
      rcases hok r s hrun with hr | ⟨c, hc, hlt⟩
      · rcases hlast with ⟨-, h⟩ | ⟨e, p, rfl, -⟩
        · exact h
        · exact nomatch hr
      · rw [hread.getLast?, Option.some.injEq, Prod.mk.injEq] at hc
        omega
    have hcylinders := hread.2
    rw [heq] at hcylinders
    constructor
    · rintro ⟨r', s', hrun', hneeded⟩
      rw [hrun, Option.some.injEq, Prod.mk.injEq] at hrun'
      obtain ⟨rfl, rfl⟩ := hrun'
      rw [hcylinders, neededCylinders] at hneeded
      have hn := cylindersFrom_inj hneeded
      omega
    · rintro ⟨hend, -⟩
      refine ⟨r, s, hrun, ?_⟩
      rw [hcylinders, neededCylinders, show (lba + count) / 36 = (lba + count - 1) / 36 by omega]
  · refine iff_of_false ?_ (by omega)
    rintro ⟨r, s, hrun, -⟩
    rcases readData_of_overwritten reader dmaBuffer drive buffer w m hcount hlba hfuel hcopy with
      hnone | ⟨e, s', p, hrun', hread, -⟩
    · exact nomatch hrun.symm.trans hnone
    · -- The first cylinder is a needed one.
      rcases hok _ s' hrun' with hr | ⟨c, hc, hlt⟩
      · exact nomatch hr
      · rw [hread, List.getLast?_singleton, Option.some.injEq, Prod.mk.injEq] at hc
        omega

theorem cylindersRead_eq_needed_sample :
    (∃ r s, readData (sampleReader (BitVec.ofNat 8)) 0x20000 0 81 10 50 0x10000
        ⟨(), fun _ => 0, []⟩ = some (r, s) ∧ cylindersRead s.log = neededCylinders 0 10 50) ↔
      (10 + 50) % 36 ≠ 0 ∧ (10 % 36 < 18 ∨ 10 / 36 = (10 + 50 - 1) / 36) :=
  cylindersRead_eq_needed_iff (by decide) (by decide) (by decide) fun _ _ hrun =>
    neededSucceed_of_ok (by decide) (by decide) (by decide) (fun _ _ _ => rfl) hrun

/-- The read of a whole cylinder reads the next one, too. -/
theorem cylindersRead_ne_needed_sample : ∃ s, readData (sampleReader (BitVec.ofNat 8)) 0x20000 0
    81 0 36 0x10000 ⟨(), fun _ => 0, []⟩ = some (.ok (), s) ∧
      cylindersRead s.log = [(0, 0), (0, 1)] ∧
      cylindersRead s.log ≠ neededCylinders 0 0 36 := by
  obtain ⟨r, s, last, hrun, hread, -, ⟨rfl, rfl⟩ | ⟨e, p, -, hp⟩⟩ :=
    readUpTo_readData (sampleReader (BitVec.ofNat 8)) 0x20000 0 0x10000 () (fun _ => 0)
      (show 0 < 36 by decide) (show 0 + 36 ≤ 2880 by decide) (show 80 < 81 by decide)
      (.inl (by decide))
  · exact ⟨s, hrun, hread.2, by rw [hread.2]; decide⟩
  · exact nomatch hp

end KessokuOS.FloppyDisk
