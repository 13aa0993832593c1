import Mathlib.Data.Set.Lattice
import Mathlib.Order.CompletePartialOrder
import Mathlib.Order.Interval.Set.Basic
import Mathlib.Tactic.Ring

/-!
# Byte-addressed memory

A memory gives a byte to every address. Numbers lie in it little-endian:
`load m a n` is the number whose `n` bytes start at `a`, and `store m a n v`
puts the `n` low bytes of `v` there. Both are instances of one primitive,
`write`, which replaces the `n` bytes from `a` on.

* `load_store`: what is stored is what is loaded, up to the width;
* `load_store_of_disjoint`, `load_write_of_disjoint`: the rest of the memory is
  as it was;
* `load_congr`: a load only depends on the bytes it reads.
-/

namespace KessokuOS

/-- A byte. -/
abbrev Byte := BitVec 8

/-- A memory: a byte at every address. -/
abbrev Memory := ℕ → Byte

namespace Memory

variable {m m' : Memory} {a b n k v : ℕ}

/-- The memory after replacing the `n` bytes from `a` on by `f 0, …, f (n - 1)`. -/
def write (m : Memory) (a n : ℕ) (f : ℕ → Byte) : Memory :=
  fun x => if a ≤ x ∧ x < a + n then f (x - a) else m x

/-- The little-endian number in the `n` bytes from `a` on. -/
def load (m : Memory) (a : ℕ) : ℕ → ℕ
  | 0 => 0
  | n + 1 => (m a).toNat + 256 * load m (a + 1) n

/-- The byte of weight `256 ^ i` of `v`. -/
def byteOf (v i : ℕ) : Byte := BitVec.ofNat 8 (v / 256 ^ i)

/-- The memory after storing the `n` low bytes of `v` at `a`, little-endian. -/
def store (m : Memory) (a n v : ℕ) : Memory := m.write a n (byteOf v)

theorem write_of_mem {f : ℕ → Byte} {x : ℕ} (h : a ≤ x ∧ x < a + n) :
    m.write a n f x = f (x - a) := if_pos h

theorem write_of_not_mem {f : ℕ → Byte} {x : ℕ} (h : x < a ∨ a + n ≤ x) :
    m.write a n f x = m x := if_neg (by omega)

theorem write_add {f : ℕ → Byte} {i : ℕ} (h : i < n) : m.write a n f (a + i) = f i := by
  rw [write_of_mem ⟨by omega, by omega⟩, Nat.add_sub_cancel_left]

/-- A load only depends on the bytes it reads, wherever they are. -/
theorem load_congr (h : ∀ i < n, m (a + i) = m' (b + i)) : m.load a n = m'.load b n := by
  induction n generalizing a b with
  | zero => rfl
  | succ n ih =>
    have h₀ : m a = m' b := h 0 (Nat.succ_pos n)
    have hs : m.load (a + 1) n = m'.load (b + 1) n := ih fun i hi => by
      have := h (i + 1) (by omega)
      rwa [show a + (i + 1) = a + 1 + i by omega, show b + (i + 1) = b + 1 + i by omega] at this
    rw [load, load, h₀, hs]

/-- The number loaded from `n` bytes has `n` bytes. -/
theorem load_lt (m : Memory) (a n : ℕ) : m.load a n < 256 ^ n := by
  induction n generalizing a with
  | zero => exact Nat.one_pos
  | succ n ih =>
    have hb : (m a).toNat < 256 := (m a).isLt
    have hl := ih (a + 1)
    rw [load, pow_succ]
    omega

/-- A load in two parts, the low one first. -/
theorem load_add (m : Memory) (a n k : ℕ) :
    m.load a (n + k) = m.load a n + 256 ^ n * m.load (a + n) k := by
  induction n generalizing a with
  | zero => rw [load, Nat.zero_add, pow_zero, Nat.one_mul, Nat.zero_add, Nat.add_zero]
  | succ n ih =>
    rw [Nat.succ_add, load, load, ih, pow_succ', Nat.add_assoc a 1 n, Nat.add_comm 1 n]
    ring

/-- The low bytes of a load. -/
theorem load_add_mod (m : Memory) (a n k : ℕ) : m.load a (n + k) % 256 ^ n = m.load a n := by
  rw [load_add, Nat.add_mul_mod_self_left, Nat.mod_eq_of_lt (load_lt m a n)]

/-- The high bytes of a load. -/
theorem load_add_div (m : Memory) (a n k : ℕ) : m.load a (n + k) / 256 ^ n = m.load (a + n) k := by
  rw [load_add, Nat.add_mul_div_left _ _ (Nat.pow_pos (by decide)),
    Nat.div_eq_of_lt (load_lt m a n), Nat.zero_add]

theorem load_eq_zero_iff : m.load a n = 0 ↔ ∀ i < n, m (a + i) = 0 := by
  induction n generalizing a with
  | zero => simp [load]
  | succ n ih =>
    have h₀ : (m a).toNat = 0 ↔ m a = 0 :=
      ⟨fun h => BitVec.eq_of_toNat_eq h, fun h => by rw [h]; rfl⟩
    have hs : m.load (a + 1) n = 0 ↔ ∀ i < n, m (a + (i + 1)) = 0 := by
      rw [ih]
      refine forall₂_congr fun i _ => ?_
      rw [Nat.add_assoc a, Nat.add_comm 1]
    rw [load, Nat.add_eq_zero_iff, Nat.mul_eq_zero, h₀, hs]
    simp only [OfNat.ofNat_ne_zero, false_or]
    constructor
    · rintro ⟨h, h'⟩ (_ | i) hi
      · exact h
      · exact h' i (by omega)
    · intro h
      exact ⟨h 0 (by omega), fun i hi => h (i + 1) (by omega)⟩

theorem load_write_of_disjoint {f : ℕ → Byte} (h : b + k ≤ a ∨ a + n ≤ b) :
    (m.write a n f).load b k = m.load b k :=
  load_congr fun i hi => write_of_not_mem (by omega)

theorem load_store_of_disjoint (h : b + k ≤ a ∨ a + n ≤ b) :
    (m.store a n v).load b k = m.load b k :=
  load_write_of_disjoint h

/-- What is stored is what is loaded, up to the width. -/
theorem load_store (m : Memory) (a n v : ℕ) : (m.store a n v).load a n = v % 256 ^ n := by
  induction n generalizing a v m with
  | zero => rw [load, pow_zero, Nat.mod_one]
  | succ n ih =>
    -- The first byte is the low one, the others store `v / 256`.
    have h₀ : m.store a (n + 1) v a = byteOf v 0 := write_add (i := 0) (Nat.succ_pos n)
    have hs : (m.store a (n + 1) v).load (a + 1) n =
        (m.store (a + 1) n (v / 256)).load (a + 1) n := by
      refine load_congr fun i hi => ?_
      rw [store, store, show a + 1 + i = a + (i + 1) by omega, write_add (by omega),
        show a + (i + 1) = a + 1 + i by omega, write_add hi, byteOf, byteOf, Nat.div_div_eq_div_mul,
        pow_succ']
    have hb : (byteOf v 0).toNat = v % 256 := by
      rw [byteOf, pow_zero, Nat.div_one, BitVec.toNat_ofNat]
    rw [load, h₀, hs, ih, hb, pow_succ', Nat.mod_mul]

/-- The number whose bytes lie in the memory. -/
theorem load_of_byteOf (h : ∀ i < n, m (a + i) = byteOf v i) : m.load a n = v % 256 ^ n := by
  rw [← load_store m a n v]
  refine load_congr fun i hi => ?_
  rw [h i hi, store, write_add hi]

theorem load_store_of_lt (h : v < 256 ^ n) : (m.store a n v).load a n = v := by
  rw [load_store, Nat.mod_eq_of_lt h]

theorem store_zero_apply (m : Memory) (a n x : ℕ) :
    m.store a n 0 x = if a ≤ x ∧ x < a + n then 0 else m x := by
  simp only [store, write, byteOf, Nat.zero_div]
  rfl

/-- A store of a single byte. -/
theorem store_one (m : Memory) (a v : ℕ) : m.store a 1 v a = BitVec.ofNat 8 v := by
  have := write_add (m := m) (a := a) (f := byteOf v) Nat.one_pos
  rw [Nat.add_zero] at this
  rw [store, this, byteOf, pow_zero, Nat.div_one]

end Memory

end KessokuOS
