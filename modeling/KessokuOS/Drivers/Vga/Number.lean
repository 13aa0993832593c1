import Mathlib.Data.Nat.Digits.Lemmas
import Mathlib.Tactic.IntervalCases
import KessokuOS.Drivers.Vga.Basic

/-!
# Printing numbers

The driver prints a number digit by digit: the hexadecimal ones from the top of the
value, which is shifted; the decimal ones from a buffer of ten characters, which is
filled from the lowest digit on.

* `putHex_eq`, `putUnsignedDecimal_eq`, `putSignedDecimal_eq`: what is printed are
  the characters of `hexText`, `decimalText` and `signedText`, one after another;
* `usesOnly_bufferIndices`, `bufferIndices_lt`: where the buffer is used, and that it is long
  enough;
* `isDecimal_decimalText`, `readNumber_hexText`: reading the characters back gives the
  number (`printed_reads_back`).
-/

namespace KessokuOS

namespace Vga

/-- The character of a hexadecimal digit. -/
def hexDigit (d : ℕ) : BitVec 8 := BitVec.ofNat 8 (if d < 10 then d + 48 else d - 10 + 65)

/-- The `n` lowest hexadecimal digits of a number. -/
def hexDigits : (n v : ℕ) → List (BitVec 8)
  | 0, _ => []
  | n + 1, v => hexDigit (v / 16 ^ n % 16) :: hexDigits n v

/-- The characters `0x` and eight digits. -/
def hexText (v : BitVec 32) : List (BitVec 8) := [0x30, 0x78] ++ hexDigits 8 v.toNat

/-- The character of a decimal digit. -/
def decimalDigit (d : ℕ) : BitVec 8 := BitVec.ofNat 8 (d + 48)

/-- The decimal digits of a number, without a leading zero. -/
def decimalText (v : ℕ) : List (BitVec 8) :=
  if v = 0 then [0x30] else ((Nat.digits 10 v).map decimalDigit).reverse

/-- The same behind a minus sign, if there is one. -/
def signedText (v : BitVec 32) : List (BitVec 8) :=
  (if v.toInt < 0 then [0x2D] else []) ++ decimalText v.toInt.natAbs

namespace Screen

variable {v : BitVec 32}

/-! ## Hexadecimal -/

/-- The digit at the top of a value that has been shifted `7 - n` times. -/
theorem toNat_top {n : ℕ} (h : n < 8) :
    (v <<< (4 * (7 - n)) >>> 28).toNat = v.toNat / 16 ^ n % 16 := by
  have hv := v.isLt
  rw [BitVec.toNat_ushiftRight, BitVec.toNat_shiftLeft, Nat.shiftLeft_eq, Nat.shiftRight_eq_div_pow]
  interval_cases n <;> norm_num <;> omega

/-- The character that is printed for a digit. -/
theorem putChar_hexDigit {d : ℕ} (h : d < 16) (s : Screen) :
    (if BitVec.ofNat 8 d < 10 then s.putChar (BitVec.ofNat 8 d + 0x30)
      else s.putChar (BitVec.ofNat 8 d - 10 + 0x41)) = s.putChar (hexDigit d) := by
  have hall : ∀ d < 16, (if BitVec.ofNat 8 d < 10 then BitVec.ofNat 8 d + 0x30
      else BitVec.ofNat 8 d - 10 + 0x41) = hexDigit d := by
    decide
  rw [← hall d h]
  split_ifs <;> rfl

theorem putHexFrom_eq {n : ℕ} (h : n ≤ 8) (s : Screen) :
    putHexFrom n (v <<< (4 * (8 - n))) s = (hexDigits n v.toNat).foldl putChar s := by
  induction n generalizing s with
  | zero => rfl
  | succ n ih =>
    have hdigit : (v <<< (4 * (8 - (n + 1))) >>> 28).setWidth 8 =
        BitVec.ofNat 8 (v.toNat / 16 ^ n % 16) := by
      rw [show 8 - (n + 1) = 7 - n by omega, ← toNat_top (show n < 8 by omega)]
      exact (BitVec.ofNat_toNat 8 _).symm
    have hshift : v <<< (4 * (8 - (n + 1))) <<< 4 = v <<< (4 * (8 - n)) := by
      rw [← BitVec.shiftLeft_add]
      congr 1
      omega
    rw [putHexFrom, hdigit, hshift, putChar_hexDigit (Nat.mod_lt _ (by decide)), ih (by omega)]
    rfl

theorem putHex_eq (s : Screen) (v : BitVec 32) : s.putHex v = (hexText v).foldl putChar s := by
  have h := putHexFrom_eq (v := v) le_rfl (putString [0x30, 0x78] s)
  rw [Nat.sub_self, Nat.mul_zero, BitVec.shiftLeft_zero] at h
  rw [putHex, h, hexText, List.foldl_append]
  rfl

/-! ## Decimal -/

/-- The digits in the buffer: those of the value, as far as there is room. -/
theorem writeDigits_spec (i n : ℕ) (v : BitVec 32) (buffer : ℕ → BitVec 8)
    (h : (Nat.digits 10 v.toNat).length ≤ n) :
    (writeDigits i n v buffer).1 = i + (Nat.digits 10 v.toNat).length ∧
      (∀ k < i, (writeDigits i n v buffer).2 k = buffer k) ∧
      (List.range (Nat.digits 10 v.toNat).length).map
          (fun k => (writeDigits i n v buffer).2 (i + k)) =
        (Nat.digits 10 v.toNat).map decimalDigit := by
  induction n generalizing i v buffer with
  | zero =>
    rw [List.eq_nil_of_length_eq_zero (Nat.le_zero.1 h)]
    exact ⟨rfl, fun _ _ => rfl, rfl⟩
  | succ n ih =>
    rw [writeDigits]
    by_cases hv : v = 0
    · rw [if_neg (not_not.2 hv), hv]
      exact ⟨rfl, fun _ _ => rfl, rfl⟩
    · have hpos : v.toNat ≠ 0 := fun h₀ => hv (BitVec.eq_of_toNat_eq h₀)
      have hdiv : (v / 10).toNat = v.toNat / 10 := BitVec.toNat_udiv
      have hmod : (v % 10).setWidth 8 + 0x30 = decimalDigit (v.toNat % 10) := by
        refine BitVec.eq_of_toNat_eq ?_
        rw [decimalDigit, BitVec.toNat_add, BitVec.toNat_setWidth, BitVec.toNat_umod,
          BitVec.toNat_ofNat, Nat.mod_add_mod]
        rfl
      -- The lowest digit, and the digits of the rest.
      have hdigits : Nat.digits 10 v.toNat = v.toNat % 10 :: Nat.digits 10 (v.toNat / 10) :=
        Nat.digits_def' (by decide) (Nat.pos_of_ne_zero hpos)
      rw [hdigits, List.length_cons] at h
      rw [if_pos hv, hmod]
      obtain ⟨h₁, h₂, h₃⟩ := ih (i + 1) (v / 10)
        (Function.update buffer i (decimalDigit (v.toNat % 10))) (by rw [hdiv]; omega)
      rw [hdiv] at h₁ h₃
      rw [hdigits, List.length_cons, List.map_cons, List.range_succ_eq_map, List.map_cons,
        List.map_map]
      refine ⟨by omega, fun k hk => ?_, ?_⟩
      · rw [h₂ k (by omega)]
        exact Function.update_of_ne hk.ne ..
      · rw [← h₃]
        refine congrArg₂ List.cons ?_ (List.map_congr_left fun k _ => ?_)
        · exact (h₂ i (Nat.lt_succ_self i)).trans (Function.update_self ..)
        · rw [Function.comp_apply, show i + k.succ = i + 1 + k by omega]

theorem putDigits_eq (buffer : ℕ → BitVec 8) (n : ℕ) (s : Screen) :
    putDigits buffer n s = ((List.range n).map buffer).reverse.foldl putChar s := by
  induction n generalizing s with
  | zero => rfl
  | succ n ih =>
    rw [putDigits, ih, List.range_succ, List.map_append, List.reverse_append]
    rfl

/-- Ten digits are enough. -/
theorem length_digits_le (v : BitVec 32) : (Nat.digits 10 v.toNat).length ≤ maxDigits := by
  refine (Nat.digits_length_le_iff (by decide) _).2 ?_
  exact v.isLt.trans (by rw [maxDigits]; norm_num)

theorem putUnsignedDecimal_eq (s : Screen) (v : BitVec 32) :
    s.putUnsignedDecimal v = (decimalText v.toNat).foldl putChar s := by
  rw [putUnsignedDecimal, decimalText]
  by_cases hv : v = 0
  · rw [if_pos hv, hv]
    rfl
  · have hpos : v.toNat ≠ 0 := fun h₀ => hv (BitVec.eq_of_toNat_eq h₀)
    obtain ⟨h₁, -, h₃⟩ := writeDigits_spec 0 maxDigits v (fun _ => 0) (length_digits_le v)
    simp only [Nat.zero_add] at h₁ h₃
    rw [if_neg hv, if_neg hpos, ← h₃, ← h₁]
    exact putDigits_eq _ _ s

theorem putSignedDecimal_eq (s : Screen) (v : BitVec 32) :
    s.putSignedDecimal v = (signedText v).foldl putChar s := by
  have hv := v.isLt
  have hint := BitVec.toInt_eq_toNat_cond v
  rw [putSignedDecimal, signedText, BitVec.slt_eq_decide,
    show (0 : BitVec 32).toInt = 0 from rfl]
  -- The negation of the smallest number is itself, which is its absolute value when it
  -- is read as unsigned.
  by_cases h : v.toInt < 0
  · have hneg : (-v).toNat = v.toInt.natAbs := by
      rw [BitVec.toNat_neg]
      split_ifs at hint <;> omega
    rw [if_pos (decide_eq_true h), if_pos h, putUnsignedDecimal_eq, hneg]
    rfl
  · have hpos : v.toNat = v.toInt.natAbs := by
      split_ifs at hint <;> omega
    rw [if_neg (by simpa using h), if_neg h, putUnsignedDecimal_eq, ← hpos]
    rfl

end Screen

/-! ## The buffer -/

/-- The indices at which digits are written from the index `i` on, with `n` left. -/
def writeIndices : (i n : ℕ) → BitVec 32 → List ℕ
  | _, 0, _ => []
  | i, n + 1, v => if v ≠ 0 then i :: writeIndices (i + 1) n (v / 10) else []

/-- The indices at which the buffer is written, and then read. -/
def bufferIndices (v : BitVec 32) : List ℕ :=
  if v = 0 then []
  else writeIndices 0 Screen.maxDigits v ++
    (List.range (Screen.writeDigits 0 Screen.maxDigits v fun _ => 0).1).reverse

theorem writeDigits_of_not_mem {i n k : ℕ} {v : BitVec 32} (buffer : ℕ → BitVec 8)
    (h : k ∉ writeIndices i n v) : (Screen.writeDigits i n v buffer).2 k = buffer k := by
  induction n generalizing i v buffer with
  | zero => rfl
  | succ n ih =>
    rw [writeIndices] at h
    rw [Screen.writeDigits]
    split_ifs at h ⊢ with hv
    · rw [List.mem_cons, not_or] at h
      rw [ih _ h.2]
      exact Function.update_of_ne h.1 ..
    · rfl

theorem putDigits_congr {buffer buffer' : ℕ → BitVec 8} {n : ℕ}
    (h : ∀ k ∈ List.range n, buffer k = buffer' k) (s : Screen) :
    Screen.putDigits buffer n s = Screen.putDigits buffer' n s := by
  rw [Screen.putDigits_eq, Screen.putDigits_eq, List.map_congr_left h]

theorem writeIndices_lt {i n : ℕ} (v : BitVec 32) : ∀ k ∈ writeIndices i n v, k < i + n := by
  induction n generalizing i v with
  | zero => exact fun k hk => absurd hk List.not_mem_nil
  | succ n ih =>
    intro k hk
    rw [writeIndices] at hk
    split_ifs at hk with hv
    · rcases List.mem_cons.1 hk with rfl | hk
      · omega
      · have := ih (v / 10) k hk
        omega
    · exact absurd hk List.not_mem_nil

/-- The loop is left at the end of the buffer, whatever is left of the value. -/
theorem writeDigits_le (i n : ℕ) (v : BitVec 32) (buffer : ℕ → BitVec 8) :
    (Screen.writeDigits i n v buffer).1 ≤ i + n := by
  induction n generalizing i v buffer with
  | zero => exact le_rfl
  | succ n ih =>
    rw [Screen.writeDigits]
    split_ifs
    · exact (ih _ _ _).trans (by omega)
    · exact Nat.le_add_right i _

theorem bufferIndices_lt (v : BitVec 32) : ∀ k ∈ bufferIndices v, k < Screen.maxDigits := by
  intro k hk
  rw [bufferIndices] at hk
  split_ifs at hk with hv
  · exact absurd hk List.not_mem_nil
  · rcases List.mem_append.1 hk with hk | hk
    · exact (writeIndices_lt v k hk).trans_le (Nat.zero_add _).le
    · rw [List.mem_reverse, List.mem_range] at hk
      exact hk.trans_le ((writeDigits_le _ _ _ _).trans (Nat.zero_add _).le)

/-- The loops write and read the buffer at the indices `is` only. -/
structure UsesOnly (v : BitVec 32) (is : List ℕ) : Prop where
  written : ∀ buffer, ∀ k ∉ is, (Screen.writeDigits 0 Screen.maxDigits v buffer).2 k = buffer k
  read : ∀ buffer s,
    (∀ k ∈ is, buffer k = (Screen.writeDigits 0 Screen.maxDigits v fun _ => 0).2 k) →
    Screen.putDigits buffer (Screen.writeDigits 0 Screen.maxDigits v fun _ => 0).1 s =
      Screen.putDigits (Screen.writeDigits 0 Screen.maxDigits v fun _ => 0).2
        (Screen.writeDigits 0 Screen.maxDigits v fun _ => 0).1 s

theorem usesOnly_bufferIndices (v : BitVec 32) : UsesOnly v (bufferIndices v) := by
  by_cases hv : v = 0
  · subst hv
    exact ⟨fun _ _ _ => rfl, fun _ _ _ => rfl⟩
  · have his : bufferIndices v = writeIndices 0 Screen.maxDigits v ++
        (List.range (Screen.writeDigits 0 Screen.maxDigits v fun _ => 0).1).reverse := if_neg hv
    rw [his]
    constructor
    · intro buffer k hk
      exact writeDigits_of_not_mem buffer fun h => hk (List.mem_append_left _ h)
    · intro buffer s hbuffer
      refine putDigits_congr (fun k hk => hbuffer k ?_) s
      exact List.mem_append_right _ (List.mem_reverse.2 hk)

/-! ## Reading back -/

/-- The value of a digit in the base `b`, if it is one. -/
def digitValue (b : ℕ) (c : BitVec 8) : Option ℕ :=
  let d := if 0x30 ≤ c ∧ c ≤ 0x39 then some (c.toNat - 48)
    else if 0x41 ≤ c ∧ c ≤ 0x46 then some (c.toNat - 65 + 10)
    else none
  d.filter fun d => d < b

/-- The number that some digits of the base `b` spell, the highest one first. -/
def readNumber (b : ℕ) (t : List (BitVec 8)) : Option ℕ :=
  (t.mapM (digitValue b)).map fun ds => Nat.ofDigits b ds.reverse

theorem digitValue_decimalDigit : ∀ d < 10, digitValue 10 (decimalDigit d) = some d := by
  decide

theorem digitValue_hexDigit : ∀ d < 16, digitValue 16 (hexDigit d) = some d := by
  decide

/-- Digits written as characters are read back. -/
theorem readNumber_map {b : ℕ} {f : ℕ → BitVec 8} (hf : ∀ d < b, digitValue b (f d) = some d)
    {ds : List ℕ} (h : ∀ d ∈ ds, d < b) :
    readNumber b (ds.map f).reverse = some (Nat.ofDigits b ds) := by
  have hmap : ∀ l : List ℕ, (∀ d ∈ l, d < b) → (l.map f).mapM (digitValue b) = some l := by
    intro l hl
    induction l with
    | nil => rfl
    | cons d l ih =>
      rw [List.map_cons, List.mapM_cons, hf d (hl d List.mem_cons_self),
        ih fun d' hd' => hl d' (List.mem_cons_of_mem d hd')]
      rfl
  rw [readNumber, ← List.map_reverse, hmap _ fun d hd => h d (List.mem_reverse.1 hd)]
  rw [Option.map_some, List.reverse_reverse]

/-- What is read contains digits only. -/
theorem digitValue_ne_none {b n : ℕ} {t : List (BitVec 8)} (h : readNumber b t = some n) :
    ∀ c ∈ t, digitValue b c ≠ none := by
  obtain ⟨ds, hds, -⟩ := Option.map_eq_some_iff.1 h
  clear h
  induction t generalizing ds with
  | nil => exact fun c hc => absurd hc List.not_mem_nil
  | cons c t ih =>
    rw [List.mapM_cons] at hds
    obtain ⟨d, hd, hrest⟩ := Option.bind_eq_some_iff.1 hds
    obtain ⟨ds', hds', -⟩ := Option.bind_eq_some_iff.1 hrest
    intro c' hc'
    rcases List.mem_cons.1 hc' with rfl | hc'
    · exact hd ▸ Option.some_ne_none d
    · exact ih ds' hds' c' hc'

/-- The characters are those of the number in base ten. -/
structure IsDecimal (n : ℕ) (t : List (BitVec 8)) : Prop where
  value : readNumber 10 t = some n
  noLeadingZero : t.head? = some 0x30 → n = 0 ∧ t = [0x30]
  ne_nil : t ≠ []
  length_le : t.length ≤ 10

theorem isDecimal_decimalText {n : ℕ} (hn : n < 10 ^ 10) : IsDecimal n (decimalText n) := by
  by_cases h₀ : n = 0
  · subst h₀
    exact ⟨by decide, fun _ => ⟨rfl, rfl⟩, by decide, by decide⟩
  · have htext : decimalText n = ((Nat.digits 10 n).map decimalDigit).reverse := if_neg h₀
    have hnil : Nat.digits 10 n ≠ [] := Nat.digits_ne_nil_iff_ne_zero.2 h₀
    have hdigit : ∀ d ∈ Nat.digits 10 n, d < 10 := fun d hd => Nat.digits_lt_base (by decide) hd
    rw [htext]
    constructor
    · rw [readNumber_map digitValue_decimalDigit hdigit, Nat.ofDigits_digits]
    · -- The first character is the digit that comes last, and that is not zero.
      intro hhead
      rw [List.head?_reverse, List.getLast?_map, List.getLast?_eq_some_getLast hnil,
        Option.map_some, Option.some.injEq] at hhead
      have hzero : ∀ d < 10, decimalDigit d = 0x30 → d = 0 := by decide
      exact absurd (hzero _ (hdigit _ (List.getLast_mem hnil)) hhead)
        (Nat.getLast_digit_ne_zero 10 h₀)
    · simpa using hnil
    · rw [List.length_reverse, List.length_map]
      exact (Nat.digits_length_le_iff (by decide) n).2 hn

theorem length_hexDigits (n v : ℕ) : (hexDigits n v).length = n := by
  induction n with
  | zero => rfl
  | succ n ih => rw [hexDigits, List.length_cons, ih]

theorem hexDigits_eq (n v : ℕ) :
    hexDigits n v = (((List.range n).map fun k => v / 16 ^ k % 16).map hexDigit).reverse := by
  induction n with
  | zero => rfl
  | succ n ih =>
    rw [hexDigits, ih, List.range_succ, List.map_append, List.map_append, List.reverse_append]
    rfl

/-- The digits of the base 16, one place after another. -/
theorem ofDigits_range (n v : ℕ) :
    Nat.ofDigits 16 ((List.range n).map fun k => v / 16 ^ k % 16) = v % 16 ^ n := by
  induction n with
  | zero => exact (Nat.mod_one v).symm
  | succ n ih =>
    rw [List.range_succ, List.map_append, Nat.ofDigits_append, ih, List.length_map,
      List.length_range, List.map_singleton, Nat.ofDigits_singleton, Nat.mod_pow_succ]

theorem readNumber_hexDigits (n v : ℕ) : readNumber 16 (hexDigits n v) = some (v % 16 ^ n) := by
  have hdigit : ∀ d ∈ (List.range n).map fun k => v / 16 ^ k % 16, d < 16 := by
    intro d hd
    obtain ⟨k, -, rfl⟩ := List.mem_map.1 hd
    exact Nat.mod_lt _ (by decide)
  rw [hexDigits_eq, readNumber_map digitValue_hexDigit hdigit, ofDigits_range]

/-- The minus sign is not a digit. -/
theorem IsDecimal.minus_not_mem {n : ℕ} {t : List (BitVec 8)} (h : IsDecimal n t) :
    (0x2D : BitVec 8) ∉ t :=
  fun hmem => digitValue_ne_none h.value _ hmem (by decide)

/-- Every number is printed as characters from which it is read back: unsigned ones in
    base ten, through a buffer that is long enough, signed ones with the sign in front of
    them, and the eight hexadecimal digits behind `0x`. -/
theorem printed_reads_back :
    (∀ v : BitVec 32, ∃ t : List (BitVec 8), IsDecimal v.toNat t ∧
      UsesOnly v (bufferIndices v) ∧ (∀ k ∈ bufferIndices v, k < Screen.maxDigits) ∧
      ∀ s : Screen, s.putUnsignedDecimal v = t.foldl Screen.putChar s) ∧
    (∀ v : BitVec 32, ∃ t : List (BitVec 8), IsDecimal v.toInt.natAbs t ∧
      (0x2D : BitVec 8) ∉ t ∧
      ∀ s : Screen, s.putSignedDecimal v =
        ((if v.toInt < 0 then [0x2D] else []) ++ t).foldl Screen.putChar s) ∧
    ∀ v : BitVec 32, ∃ t : List (BitVec 8), t.length = 8 ∧ readNumber 16 t = some v.toNat ∧
      ∀ s : Screen, s.putHex v = ([0x30, 0x78] ++ t).foldl Screen.putChar s := by
  refine ⟨fun v => ?_, fun v => ?_, fun v => ?_⟩
  · have hv : v.toNat < 10 ^ 10 := v.isLt.trans (by decide)
    exact ⟨_, isDecimal_decimalText hv, usesOnly_bufferIndices v, bufferIndices_lt v,
      fun s => Screen.putUnsignedDecimal_eq s v⟩
  · have habs : v.toInt.natAbs < 10 ^ 10 := by
      have hlt := BitVec.toInt_lt (x := v)
      have hle := BitVec.le_toInt (x := v)
      omega
    have ht := isDecimal_decimalText habs
    exact ⟨_, ht, ht.minus_not_mem, fun s => Screen.putSignedDecimal_eq s v⟩
  · have hv : v.toNat % 16 ^ 8 = v.toNat := Nat.mod_eq_of_lt v.isLt
    exact ⟨_, length_hexDigits 8 _, (readNumber_hexDigits 8 _).trans (congrArg some hv),
      fun s => Screen.putHex_eq s v⟩

end Vga

end KessokuOS
