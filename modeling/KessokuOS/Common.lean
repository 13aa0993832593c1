import KessokuOS.Lib.Memory

/-!
# Errors, machine arithmetic and memory routines of the kernel

The kernel is a 32-bit program: its `size_t` and its pointers are numbers below
`2 ^ 32`, represented by natural numbers, and every operation that may wrap
says so (`u32`, `u32Sub`). A function returning `Data::ErrorOr<T>` returns an
`ErrorOr T`, together with the state it leaves, as an error does not undo what
was done before it.

The memory routines copy byte by byte; what is left of a range that has been copied in
part is `Moved`. `memcpy_add` is for disjoint ranges, `memmove_spec` for all.
-/

namespace KessokuOS

/-- The error codes of the kernel. -/
inductive Error
  | invalidArgument
  | indexOutOfRange
  | retryLimitReached
  | timedOut
  | notImplemented
  | uninitialized
  | driverDeviceNeedsReset
  | driverDeviceNoResponse
  | driverDeviceCheckFailed
  | driverCommandFailed
  | driverDeviceUnknown
  | driverInvalidDevice
  | memoryManagerNoFreeBlocks
  | memoryManagerFailedToFindMemoryRegion
  | containerIsFull
  | containerIsEmpty
  deriving DecidableEq, Repr

/-- A value, or the error that prevented it. -/
abbrev ErrorOr (T : Type*) := Except Error T

/-! ## 32-bit arithmetic -/

/-- A number reduced to 32 bits. -/
def u32 (x : ℕ) : ℕ := x % 2 ^ 32

/-- The difference of two 32-bit numbers, wrapping below `0`. -/
def u32Sub (x y : ℕ) : ℕ := (x + 2 ^ 32 - y) % 2 ^ 32

theorem u32_lt (x : ℕ) : u32 x < 2 ^ 32 := Nat.mod_lt _ (by norm_num)

theorem u32_of_lt {x : ℕ} (h : x < 2 ^ 32) : u32 x = x := Nat.mod_eq_of_lt h

/-- Without a borrow, the difference is that of the natural numbers. -/
theorem u32Sub_of_le {x y : ℕ} (hx : x < 2 ^ 32) (h : y ≤ x) : u32Sub x y = x - y := by
  rw [u32Sub]
  omega

/-- The smallest multiple of `multiple` which is at least `value`, as computed
    in 32 bits: the sum wraps for the values next to `2 ^ 32`. -/
def getSmallestGteMultiple (value multiple : ℕ) : ℕ :=
  if value % multiple = 0 then value
  else u32 (value + (multiple - value % multiple))

/-- Rounding up to a multiple does not wrap. -/
def RoundingFits (value multiple : ℕ) : Prop :=
  value % multiple = 0 ∨ value + (multiple - value % multiple) < 2 ^ 32

instance (value multiple : ℕ) : Decidable (RoundingFits value multiple) :=
  inferInstanceAs (Decidable (_ ∨ _))

/-- As long as it does not wrap, rounding up does not make the value smaller. -/
theorem le_getSmallestGteMultiple {value multiple : ℕ} (h : RoundingFits value multiple) :
    value ≤ getSmallestGteMultiple value multiple := by
  rw [getSmallestGteMultiple]
  split_ifs with h₀
  · exact le_rfl
  · rw [u32_of_lt (h.resolve_left h₀)]
    exact Nat.le_add_right _ _

/-! ## Memory routines -/

/-- The loop of `memcpy` from its round `i` on, with `n` rounds to go. -/
def memcpyFrom (m : Memory) (dest src : ℕ) : ℕ → ℕ → Memory
  | _, 0 => m
  | i, n + 1 =>
    memcpyFrom (m.write (u32 (dest + i)) 1 fun _ => m (u32 (src + i))) dest src (i + 1) n

/-- Copies `count` bytes from `src` to `dest`, the first one first. -/
def memcpy (m : Memory) (dest src count : ℕ) : Memory := memcpyFrom m dest src 0 count

/-- The loop of `memmove` from its round `i` on, with `n` rounds to go: it copies the last
    byte first. -/
def memmoveFrom (m : Memory) (dest src count : ℕ) : ℕ → ℕ → Memory
  | _, 0 => m
  | i, n + 1 =>
    let offset := u32Sub (u32Sub count 1) i
    memmoveFrom (m.write (u32 (dest + offset)) 1 fun _ => m (u32 (src + offset))) dest src count
      (i + 1) n

/-- `memmove`: what it returns, and the memory behind it. -/
def memmove (m : Memory) (dest src count : ℕ) : ℕ × Memory :=
  if dest < src then (dest, memcpy m dest src count)
  else if src < dest then (dest, memmoveFrom m dest src count 0 count)
  else (dest, m)

/-- Of a range at `src`, the bytes with the indices from `lo` to `hi` are now at `dest`; all
    others are as in `m`. -/
structure Moved (m : Memory) (dest src lo hi : ℕ) (m' : Memory) : Prop where
  moved : ∀ j, lo ≤ j → j < hi → m' (dest + j) = m (src + j)
  other : ∀ x, x < dest + lo ∨ dest + hi ≤ x → m' x = m x

section Moved

variable {m m' : Memory} {dest src lo hi count i n : ℕ}

theorem Moved.refl (m : Memory) (dest src i : ℕ) : Moved m dest src i i m where
  moved _ hlo hhi := absurd hhi (not_lt.2 hlo)
  other _ _ := rfl

/-- One more byte behind those moved, which has not been written yet. -/
theorem Moved.succ (h : Moved m dest src lo hi m') (hlo : lo ≤ hi)
    (hread : src + hi < dest + lo ∨ dest + hi ≤ src + hi) :
    Moved m dest src lo (hi + 1) (m'.write (dest + hi) 1 fun _ => m' (src + hi)) where
  moved j hj hj' := by
    rcases (Nat.le_of_lt_succ hj').lt_or_eq with hlt | rfl
    · rw [Memory.write_of_not_mem (by omega), h.moved j hj hlt]
    · rw [Memory.write_of_mem (by omega), h.other _ hread]
  other x hx := by rw [Memory.write_of_not_mem (by omega), h.other x (by omega)]

/-- One more byte in front of those moved. -/
theorem Moved.pred (h : Moved m dest src (lo + 1) hi m') (hlo : lo < hi)
    (hread : src + lo < dest + (lo + 1) ∨ dest + hi ≤ src + lo) :
    Moved m dest src lo hi (m'.write (dest + lo) 1 fun _ => m' (src + lo)) where
  moved j hj hj' := by
    rcases hj.lt_or_eq with hlt | rfl
    · rw [Memory.write_of_not_mem (by omega), h.moved j hlt hj']
    · rw [Memory.write_of_mem (by omega), h.other _ hread]
  other x hx := by rw [Memory.write_of_not_mem (by omega), h.other x (by omega)]

/-- The loop of `memcpy` moves the bytes it has left, unless it writes those at `src` before
    it reads them. -/
theorem moved_memcpyFrom (h : Moved m dest src 0 i m') (hd : dest + (i + n) ≤ 2 ^ 32)
    (hs : src + (i + n) ≤ 2 ^ 32) (hread : dest ≤ src ∨ src + (i + n) ≤ dest) :
    Moved m dest src 0 (i + n) (memcpyFrom m' dest src i n) := by
  induction n generalizing m' i with
  | zero => exact h
  | succ n ih =>
    have hsucc := h.succ (Nat.zero_le i) (by omega)
    have hi : i + (n + 1) = i + 1 + n := by omega
    rw [memcpyFrom, u32_of_lt (by omega), u32_of_lt (by omega), hi]
    exact ih hsucc (by omega) (by omega) (by omega)

theorem moved_memcpy (m : Memory) (hd : dest + count ≤ 2 ^ 32) (hs : src + count ≤ 2 ^ 32)
    (hread : dest ≤ src ∨ src + count ≤ dest) :
    Moved m dest src 0 count (memcpy m dest src count) := by
  have h := moved_memcpyFrom (n := count) (.refl m dest src 0) (by omega) (by omega) (by omega)
  rwa [Nat.zero_add] at h

/-- The loop of `memmove` moves the bytes it has left, which are in front of those moved. -/
theorem moved_memmoveFrom (h : Moved m dest src n count m') (hn : i + n = count)
    (hd : dest + count ≤ 2 ^ 32) (hlt : src < dest) :
    Moved m dest src 0 count (memmoveFrom m' dest src count i n) := by
  induction n generalizing m' i with
  | zero => exact h
  | succ n ih =>
    have hoffset : u32Sub (u32Sub count 1) i = n := by
      rw [u32Sub_of_le (x := count) (by omega) (by omega), u32Sub_of_le (by omega) (by omega)]
      omega
    have hpred := h.pred (by omega) (by omega)
    rw [memmoveFrom, hoffset, u32_of_lt (by omega), u32_of_lt (by omega)]
    exact ih hpred (by omega)

/-- Between ranges that do not wrap, however they overlap, `memmove` moves the bytes at
    `src` to `dest`, and changes no others. -/
theorem memmove_spec (m : Memory) (hd : dest + count ≤ 2 ^ 32) (hs : src + count ≤ 2 ^ 32) :
    (memmove m dest src count).1 = dest ∧
      (∀ j < count, (memmove m dest src count).2 (dest + j) = m (src + j)) ∧
      ∀ x, x < dest ∨ dest + count ≤ x → (memmove m dest src count).2 x = m x := by
  suffices h : (memmove m dest src count).1 = dest ∧
      Moved m dest src 0 count (memmove m dest src count).2 from
    ⟨h.1, fun j hj => h.2.moved j (Nat.zero_le j) hj, h.2.other⟩
  rw [memmove]
  split_ifs with hlt hgt
  · exact ⟨rfl, moved_memcpy m hd hs (.inl hlt.le)⟩
  · exact ⟨rfl, moved_memmoveFrom (.refl m dest src count) (Nat.zero_add count) hd hgt⟩
  · -- The two ranges are the same.
    obtain rfl : dest = src := by omega
    exact ⟨rfl, fun _ _ _ => rfl, fun _ _ => rfl⟩

/-- Four bytes moved by one. -/
theorem memmove_spec_sample :
    (memmove (BitVec.ofNat 8) 0x1001 0x1000 4).1 = 0x1001 ∧
      (memmove (BitVec.ofNat 8) 0x1001 0x1000 4).2 0x1004 = 0x03 := by
  obtain ⟨hdest, hmoved, -⟩ :=
    @memmove_spec 0x1001 0x1000 4 (BitVec.ofNat 8) (by decide) (by decide)
  exact ⟨hdest, hmoved 3 (by decide)⟩

end Moved

/-- Between disjoint ranges, `memcpy` copies the bytes at `src` to `dest`. -/
theorem memcpy_add {m : Memory} {dest src count : ℕ} (hd : dest + count ≤ 2 ^ 32)
    (hs : src + count ≤ 2 ^ 32) (h : dest + count ≤ src ∨ src + count ≤ dest) {j : ℕ}
    (hj : j < count) : memcpy m dest src count (dest + j) = m (src + j) :=
  (moved_memcpy m hd hs (by omega)).moved j (Nat.zero_le j) hj

end KessokuOS
