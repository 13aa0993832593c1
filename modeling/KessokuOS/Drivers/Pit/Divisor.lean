import Mathlib.Algebra.Order.Field.Rat
import Mathlib.Tactic.Linarith
import Mathlib.Tactic.Positivity
import Mathlib.Tactic.Push
import KessokuOS.Common

/-!
# The frequency of the timer

A channel of the timer divides its base frequency by a divisor of 16 bits, which is
programmed in two bytes; zero stands for `65536`. `set_frequency` rounds the quotient of
the base frequency and the one asked for, makes it even, and keeps its low 16 bits.

* `toNat_roundDiv`: the rounded quotient, as long as a product fits;
* `divisor_writes_setFrequency`: what is programmed;
* `programs_iff`: the divisor is close to the quotient exactly for the frequencies from
  19 to 795454. Below, the quotient has more than 16 bits; above, it is less than two,
  and the even divisor becomes zero, the largest one.
-/

namespace KessokuOS

namespace Pit

/-! ## The routine -/

inductive Channel
  | zero
  | one
  | two
  deriving DecidableEq, Repr

def Channel.toByte : Channel → BitVec 8
  | .zero => 0b00
  | .one => 0b01
  | .two => 0b10

def portCommandRegister : BitVec 16 := 0x43

def getPort : Channel → BitVec 16
  | .zero => 0x40
  | .one => 0x41
  | .two => 0x42

/-- The quotient of two numbers, rounded to the nearest one; up if there are two. -/
def roundDiv {w : ℕ} (a b : BitVec w) : BitVec w :=
  let t := a / b
  let d1 := a - t * b
  let d2 := (t + 1) * b - a
  if d1 < d2 then t else t + 1

def baseFrequency : BitVec 32 := 1193182

/-- The divisor for a frequency, without its lowest bit. -/
def count (frequency : BitVec 32) : BitVec 16 :=
  (roundDiv baseFrequency frequency &&& ~~~1#32).setWidth 16

/-- A byte written to a port. -/
structure PortWrite where
  port : BitVec 16
  value : BitVec 8
  deriving DecidableEq, Repr

def ioWait : PortWrite := ⟨0x80, 0⟩

/-- `PIT::set_frequency`: the bytes that are written, in their order. -/
def setFrequency (channel : Channel) (frequency : BitVec 32) : List PortWrite :=
  if frequency = 0 then []
  else
    let count := count frequency
    let channelBits := channel.toByte <<< 6
    let accessBits := 0b00110000
    let operatingModeBits := 0b00000110
    let bcdBit := 0b00000000
    let command := channelBits ||| accessBits ||| operatingModeBits ||| bcdBit
    [⟨portCommandRegister, command⟩, ioWait,
      ⟨getPort channel, (count &&& 0x00FF).setWidth 8⟩, ioWait,
      ⟨getPort channel, (count >>> 8).setWidth 8⟩, ioWait]

/-! ## The timer -/

/-- The channels of the timer: the low byte of a divisor that has been written without its
    high one, and the divisors in use. -/
structure Timer where
  low : Channel → Option (BitVec 8)
  divisor : Channel → ℕ

namespace Timer

/-- A byte on a port. A command that selects both bytes of a channel makes it expect the
    low one; the other commands are not used. -/
def portWriteByte (t : Timer) (w : PortWrite) : Timer :=
  let channels := [Channel.zero, .one, .two]
  if w.port = portCommandRegister then
    match channels.find? fun c => c.toByte = w.value >>> 6 with
    | none => t
    | some c =>
      if w.value &&& 0x30 = 0x30 then { t with low := Function.update t.low c none } else t
  else
    match channels.find? fun c => getPort c = w.port with
    | none => t
    | some c =>
      match t.low c with
      | none => { t with low := Function.update t.low c (some w.value) }
      | some l =>
        let n := w.value.toNat * 256 + l.toNat
        { low := Function.update t.low c none
          divisor := Function.update t.divisor c (if n = 0 then 65536 else n) }

def writes (t : Timer) (l : List PortWrite) : Timer := l.foldl portWriteByte t

end Timer

/-! ## What is programmed -/

theorem toNat_and_not_one (x : BitVec 32) : (x &&& ~~~1#32).toNat = x.toNat - x.toNat % 2 := by
  have hbit : ∀ i : Fin 32, (~~~1#32).getLsbD i = decide (i.val ≠ 0) := by decide
  have h : x &&& ~~~1#32 = x >>> 1 <<< 1 := by
    refine BitVec.eq_of_getLsbD_eq fun i hi => ?_
    rw [BitVec.getLsbD_and, hbit ⟨i, hi⟩]
    cases i with
    | zero => simp
    | succ i => simp [hi, Nat.add_comm]
  have hx := x.isLt
  rw [h, BitVec.toNat_shiftLeft, BitVec.toNat_ushiftRight, Nat.shiftLeft_eq,
    Nat.shiftRight_eq_div_pow]
  omega

/-- The two bytes of a divisor. -/
theorem toNat_bytes (c : BitVec 16) : ((c >>> 8).setWidth 8 : BitVec 8).toNat * 256 +
    ((c &&& 0x00FF).setWidth 8 : BitVec 8).toNat = c.toNat := by
  have hc := c.isLt
  have hlow : (c &&& 0x00FF).toNat = c.toNat % 256 := by
    rw [BitVec.toNat_and]
    exact Nat.and_two_pow_sub_one_eq_mod c.toNat 8
  rw [BitVec.toNat_setWidth, BitVec.toNat_setWidth, BitVec.toNat_ushiftRight,
    Nat.shiftRight_eq_div_pow, hlow]
  omega

/-- The quotient of `a` and `b`, rounded. -/
theorem div_add_half {a b : ℕ} (hb : 0 < b) :
    (2 * a + b) / (2 * b) = if 2 * (a % b) < b then a / b else a / b + 1 := by
  have hmod := Nat.mod_lt a hb
  have hdiv := Nat.div_add_mod a b
  rw [Nat.div_eq_iff (by omega)]
  have hq : a / b * (2 * b) = 2 * (b * (a / b)) := by ring
  split_ifs with h
  · rw [hq]
    omega
  · rw [Nat.add_mul, hq]
    omega

variable {w : ℕ} {a b : BitVec w}

/-- As long as the larger product fits, the quotient is the rounded one. -/
theorem toNat_roundDiv (hb : 0 < b.toNat) (h : (a.toNat / b.toNat + 1) * b.toNat < 2 ^ w) :
    (roundDiv a b).toNat = (2 * a.toNat + b.toNat) / (2 * b.toNat) := by
  have hmod := Nat.mod_lt a.toNat hb
  have hdiv := Nat.div_add_mod' a.toNat b.toNat
  have hle : a.toNat / b.toNat + 1 ≤ (a.toNat / b.toNat + 1) * b.toNat :=
    Nat.le_mul_of_pos_right _ hb
  have hone : (1 : BitVec w).toNat = 1 :=
    (BitVec.toNat_ofNat 1 w).trans (Nat.mod_eq_of_lt (by omega))
  have hnext : (a / b + 1).toNat = a.toNat / b.toNat + 1 := by
    rw [BitVec.toNat_add, BitVec.toNat_udiv, hone, Nat.mod_eq_of_lt (by omega)]
  have hd1 : (a - a / b * b).toNat = a.toNat % b.toNat := by
    have hmul : (a / b * b).toNat = a.toNat / b.toNat * b.toNat := by
      rw [BitVec.toNat_mul, BitVec.toNat_udiv, Nat.mod_eq_of_lt]
      exact (Nat.div_mul_le_self _ _).trans_lt a.isLt
    rw [BitVec.toNat_sub_of_le (BitVec.le_def.2 (hmul ▸ Nat.div_mul_le_self _ _)), hmul]
    omega
  have hd2 : ((a / b + 1) * b - a).toNat = b.toNat - a.toNat % b.toNat := by
    have hmul : ((a / b + 1) * b).toNat = (a.toNat / b.toNat + 1) * b.toNat := by
      rw [BitVec.toNat_mul, hnext, Nat.mod_eq_of_lt h]
    have hexpand : (a.toNat / b.toNat + 1) * b.toNat = a.toNat / b.toNat * b.toNat + b.toNat :=
      Nat.succ_mul _ _
    rw [BitVec.toNat_sub_of_le (BitVec.le_def.2 (by omega)), hmul]
    omega
  have hcond : a - a / b * b < (a / b + 1) * b - a ↔ 2 * (a.toNat % b.toNat) < b.toNat := by
    rw [BitVec.lt_def, hd1, hd2]
    omega
  rw [div_add_half hb, roundDiv]
  by_cases hlt : 2 * (a.toNat % b.toNat) < b.toNat
  · rw [if_pos hlt, if_pos (hcond.2 hlt), BitVec.toNat_udiv]
  · rw [if_neg hlt, if_neg (mt hcond.1 hlt), hnext]

/-- The divisor of the channel becomes the count. -/
theorem divisor_writes_setFrequency {frequency : BitVec 32} (h : frequency ≠ 0) (t : Timer)
    (channel : Channel) : (t.writes (setFrequency channel frequency)).divisor channel =
      if (count frequency).toNat = 0 then 65536 else (count frequency).toNat := by
  rw [setFrequency, if_neg h, ← toNat_bytes (count frequency)]
  cases channel <;> simp [Timer.writes, Timer.portWriteByte, portCommandRegister, getPort, ioWait,
    Channel.toByte]

/-! ## How well the frequency is met -/

/-- The base frequency divided by the one asked for, within the range of the timer. -/
def exactDivisor (frequency : BitVec 32) : ℚ :=
  max 2 (min 65536 ((baseFrequency.toNat : ℚ) / (frequency.toNat : ℚ)))

/-- What is asked of the divisor `d` for a frequency: it is even, and as close as it may be
    to the exact one; nothing has been cut off on the way. -/
structure Programs (frequency : BitVec 32) (d : ℕ) : Prop where
  even : Even d
  near : |(d : ℚ) - exactDivisor frequency| ≤ 2
  untruncated : (roundDiv baseFrequency frequency).toNat < 2 ^ 16
  fits : baseFrequency.toNat / frequency.toNat * frequency.toNat < 2 ^ 32 ∧
    (baseFrequency.toNat / frequency.toNat + 1) * frequency.toNat < 2 ^ 32

variable {frequency : BitVec 32}

/-- Both products fit for any frequency: the larger one is at most the sum of the base
    frequency and the one asked for, or the latter. -/
theorem products_fit (frequency : BitVec 32) :
    baseFrequency.toNat / frequency.toNat * frequency.toNat < 2 ^ 32 ∧
      (baseFrequency.toNat / frequency.toNat + 1) * frequency.toNat < 2 ^ 32 := by
  have hf := frequency.isLt
  have hle := Nat.div_mul_le_self baseFrequency.toNat frequency.toNat
  have hbase : baseFrequency.toNat = 1193182 := rfl
  refine ⟨by omega, ?_⟩
  rw [Nat.succ_mul]
  by_cases h : frequency.toNat ≤ 1193182
  · omega
  · rw [hbase, Nat.div_eq_of_lt (not_le.1 h), Nat.zero_mul, Nat.zero_add]
    exact hf

/-- The rounded quotient, for any frequency. -/
theorem toNat_roundDiv_baseFrequency (h : frequency ≠ 0) :
    (roundDiv baseFrequency frequency).toNat =
      (2 * 1193182 + frequency.toNat) / (2 * frequency.toNat) := by
  have hpos : 0 < frequency.toNat := Nat.pos_of_ne_zero fun h₀ => h (BitVec.eq_of_toNat_eq h₀)
  exact toNat_roundDiv hpos (products_fit frequency).2

/-- The count is the rounded quotient made even, if that fits in 16 bits. -/
theorem toNat_count (h : (roundDiv baseFrequency frequency).toNat < 2 ^ 16) :
    (count frequency).toNat = (roundDiv baseFrequency frequency).toNat -
      (roundDiv baseFrequency frequency).toNat % 2 := by
  rw [count, BitVec.toNat_setWidth, toNat_and_not_one]
  exact Nat.mod_eq_of_lt ((Nat.sub_le _ _).trans_lt h)

/-- The quotient is at least two, and has 16 bits, for these frequencies. -/
theorem quotient_mem_iff {n : ℕ} (hn : 0 < n) :
    (2 ≤ (2 * 1193182 + n) / (2 * n) ∧ (2 * 1193182 + n) / (2 * n) < 2 ^ 16) ↔
      19 ≤ n ∧ n ≤ 795454 := by
  rw [Nat.le_div_iff_mul_le (by omega), Nat.div_lt_iff_lt_mul (by omega)]
  omega

/-- A quotient that is rounded, made even, and at least two is close to the exact one. -/
theorem near_of_quotient {n q : ℕ} (hn : 0 < n) (hq : q = (2 * 1193182 + n) / (2 * n))
    (h₂ : 2 ≤ q) (hlt : q < 2 ^ 16) :
    |((q - q % 2 : ℕ) : ℚ) - max 2 (min 65536 ((1193182 : ℚ) / (n : ℚ)))| ≤ 2 := by
  have hnq : (0 : ℚ) < n := Nat.cast_pos.2 hn
  have hdiv := Nat.div_add_mod (2 * 1193182 + n) (2 * n)
  have hmod := Nat.mod_lt (2 * 1193182 + n) (show 0 < 2 * n by omega)
  rw [← hq] at hdiv
  -- The quotient is off by one half at most.
  have hlow : (q : ℚ) - 1 / 2 ≤ (1193182 : ℚ) / (n : ℚ) := by
    rw [le_div_iff₀ hnq]
    have : 2 * n * q ≤ 2 * 1193182 + n := by omega
    have : (2 * n * q : ℚ) ≤ 2 * 1193182 + n := by exact_mod_cast this
    linarith
  have hhigh : (1193182 : ℚ) / (n : ℚ) ≤ q + 1 / 2 := by
    rw [div_le_iff₀ hnq]
    have : 2 * 1193182 + n ≤ 2 * n * q + 2 * n := by omega
    have : (2 * 1193182 + n : ℚ) ≤ 2 * n * q + 2 * n := by exact_mod_cast this
    linarith
  have hev₁ : ((q - q % 2 : ℕ) : ℚ) ≤ q := Nat.cast_le.2 (Nat.sub_le _ _)
  have hev₂ : (q : ℚ) ≤ ((q - q % 2 : ℕ) : ℚ) + 1 := by
    exact_mod_cast show q ≤ q - q % 2 + 1 by omega
  have hq₂ : (2 : ℚ) ≤ ((q - q % 2 : ℕ) : ℚ) := by
    exact_mod_cast show 2 ≤ q - q % 2 by omega
  have hq₁₆ : (q : ℚ) ≤ 65535 := by
    exact_mod_cast show q ≤ 65535 by omega
  have hmin : min (65536 : ℚ) ((1193182 : ℚ) / (n : ℚ)) = (1193182 : ℚ) / (n : ℚ) :=
    min_eq_right (by linarith)
  rw [hmin, abs_le]
  constructor
  · have : max (2 : ℚ) ((1193182 : ℚ) / (n : ℚ)) ≤ q + 1 / 2 := max_le (by linarith) hhigh
    linarith
  · have : (1193182 : ℚ) / (n : ℚ) ≤ max 2 ((1193182 : ℚ) / (n : ℚ)) := le_max_right _ _
    linarith

/-- A quotient below two makes the largest divisor, where the smallest one is asked for. -/
theorem not_near_of_lt {n : ℕ} (hn : 795454 < n) :
    ¬|((65536 : ℕ) : ℚ) - max 2 (min 65536 ((1193182 : ℚ) / (n : ℚ)))| ≤ 2 := by
  have hnq : (0 : ℚ) < n := Nat.cast_pos.2 (by omega)
  have hle : (1193182 : ℚ) / (n : ℚ) ≤ 2 := by
    rw [div_le_iff₀ hnq]
    exact_mod_cast show 1193182 ≤ 2 * n by omega
  have hmax : max 2 (min 65536 ((1193182 : ℚ) / (n : ℚ))) = 2 :=
    max_eq_left ((min_le_right _ _).trans hle)
  rw [hmax]
  norm_num

/-- The frequencies for which the timer is programmed with a divisor as it should be, on
    any channel and whatever has been programmed before. -/
theorem programs_iff (h : frequency ≠ 0) (t : Timer) (channel : Channel) :
    Programs frequency ((t.writes (setFrequency channel frequency)).divisor channel) ↔
      19 ≤ frequency.toNat ∧ frequency.toNat ≤ 795454 := by
  have hpos : 0 < frequency.toNat := Nat.pos_of_ne_zero fun h₀ => h (BitVec.eq_of_toNat_eq h₀)
  have hround := toNat_roundDiv_baseFrequency h
  rw [← quotient_mem_iff hpos, ← hround, divisor_writes_setFrequency h]
  constructor
  · intro hp
    refine ⟨?_, hp.untruncated⟩
    by_contra hlt
    -- The even count is zero.
    have hcount := toNat_count hp.untruncated
    have hzero : (count frequency).toNat = 0 := by omega
    have hrange := (quotient_mem_iff hpos).not.1 (by rw [← hround]; exact fun hc => hlt hc.1)
    have hn : 795454 < frequency.toNat := by
      have h₁₆ := hp.untruncated
      rw [hround, Nat.div_lt_iff_lt_mul (by omega)] at h₁₆
      omega
    have hnear := hp.near
    rw [if_pos hzero] at hnear
    exact not_near_of_lt hn hnear
  · rintro ⟨h₂, hlt⟩
    have hcount := toNat_count hlt
    rw [if_neg (by omega), hcount]
    exact ⟨Nat.even_iff.2 (by omega), near_of_quotient hpos hround h₂ hlt, hlt,
      products_fit frequency⟩

/-- A timer that has not been programmed. -/
def sampleTimer : Timer := ⟨fun _ => none, fun _ => 65536⟩

/-- A thousand ticks a second, as the kernel asks for. -/
theorem programs_iff_sample :
    Programs 1000 ((sampleTimer.writes (setFrequency .zero 1000)).divisor .zero) :=
  (programs_iff (by decide) sampleTimer .zero).2 (by decide)

/-- At eighteen ticks a second the quotient is cut off; at a million it becomes zero. -/
theorem not_programs_sample :
    ¬Programs 18 ((sampleTimer.writes (setFrequency .zero 18)).divisor .zero) ∧
      ¬Programs 1000000 ((sampleTimer.writes (setFrequency .zero 1000000)).divisor .zero) := by
  constructor
  · intro h
    exact absurd h.untruncated (by decide)
  · intro h
    have hnear := h.near
    rw [divisor_writes_setFrequency (by decide), if_pos (by decide)] at hnear
    exact not_near_of_lt (by decide) hnear

end Pit

end KessokuOS
