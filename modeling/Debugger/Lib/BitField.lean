/-
Bit fields of a machine word.

`field v lo w` is the number in the `w` bits of `v` from bit `lo` on.  Registers made of
packed fields are programmed by clearing a field (`v &&& ~~~(mask <<< lo)`) and by setting
bits in it (`v ||| x <<< lo`); the laws say what either does to the field itself and that
every field it does not overlap keeps its value.
-/
import Mathlib.Data.Nat.Bitwise
import Mathlib.Data.Nat.Notation

namespace Prog

/-- Bit `i` of a word. -/
def bit (v : UInt64) (i : ℕ) : Bool := v.toBitVec.getLsbD i

/-- The number in the `w` bits from bit `lo` on. -/
def field (v : UInt64) (lo w : ℕ) : ℕ := v.toNat / 2 ^ lo % 2 ^ w

section BitField

variable {v x m : UInt64} {lo w k l i : ℕ}

theorem bit_and : bit (v &&& x) i = (bit v i && bit x i) := by
  rw [bit, UInt64.toBitVec_and, BitVec.getLsbD_and, bit, bit]

theorem bit_or : bit (v ||| x) i = (bit v i || bit x i) := by
  rw [bit, UInt64.toBitVec_or, BitVec.getLsbD_or, bit, bit]

theorem bit_not : bit (~~~v) i = (decide (i < 64) && !bit v i) := by
  rw [bit, UInt64.toBitVec_not, BitVec.getLsbD_not, bit]

theorem bit_shiftLeft (h : lo < 64) :
    bit (x <<< UInt64.ofNat lo) i = (decide (i < 64) && !decide (i < lo) && bit x (i - lo)) := by
  have hlo : ((UInt64.ofNat lo).toBitVec % 64).toNat = lo := by
    simp
    omega
  rw [bit, UInt64.toBitVec_shiftLeft, BitVec.shiftLeft_eq', hlo, BitVec.getLsbD_shiftLeft, bit]

theorem bit_of_lt (h : x.toNat < 2 ^ w) (hi : w ≤ i) : bit x i = false :=
  Nat.testBit_lt_two_pow (h.trans_le (Nat.pow_le_pow_right Nat.two_pos hi))

theorem bit_of_le (h : 64 ≤ i) : bit x i = false :=
  bit_of_lt x.toNat_lt h

theorem testBit_field : (field v lo w).testBit i = (decide (i < w) && bit v (lo + i)) := by
  rw [field, Nat.testBit_mod_two_pow, Nat.testBit_div_two_pow, Nat.add_comm lo i]
  rfl

/-- Two fields are equal when their bits are. -/
theorem field_congr (h : ∀ i < w, bit v (lo + i) = bit x (k + i)) : field v lo w = field x k w := by
  refine Nat.eq_of_testBit_eq fun i => ?_
  rw [testBit_field, testBit_field]
  by_cases hi : i < w
  · rw [h i hi]
  · simp [hi]

theorem field_zero : field 0 lo w = 0 := by
  simp [field]

theorem field_lt : field v lo w < 2 ^ w :=
  Nat.mod_lt _ (Nat.two_pow_pos w)

/-- Clearing all bits of a field. -/
theorem field_clear (h : lo + w ≤ 64) (hlo : lo < 64) (hm : m.toNat = 2 ^ w - 1) :
    field (v &&& ~~~(m <<< UInt64.ofNat lo)) lo w = 0 := by
  refine Nat.eq_of_testBit_eq fun i => ?_
  rw [testBit_field, bit_and, bit_not, bit_shiftLeft hlo, Nat.zero_testBit]
  by_cases hi : i < w
  · have hbit : bit m i = true := by
      change m.toNat.testBit i = true
      rw [hm, Nat.testBit_two_pow_sub_one]
      exact decide_eq_true hi
    have h64 : lo + i < 64 := by omega
    simp [hbit, h64]
  · simp [hi]

/-- Clearing one field leaves the fields beside it. -/
theorem field_clear_of_disjoint (hlo : lo < 64) (hm : m.toNat < 2 ^ w)
    (h : lo + w ≤ k ∨ k + l ≤ lo) :
    field (v &&& ~~~(m <<< UInt64.ofNat lo)) k l = field v k l := by
  refine field_congr fun i hi => ?_
  rw [bit_and, bit_not, bit_shiftLeft hlo]
  by_cases h64 : k + i < 64
  · by_cases hlt : k + i < lo
    · simp [h64, hlt]
    · have hout : bit m (k + i - lo) = false := bit_of_lt hm (by omega)
      simp [h64, hout]
  · rw [bit_of_le (by omega), Bool.false_and]

/-- Setting bits of a field. -/
theorem field_or (hlo : lo < 64) (h : lo + w ≤ 64) (hx : x.toNat < 2 ^ w) :
    field (v ||| x <<< UInt64.ofNat lo) lo w = field v lo w ||| x.toNat := by
  refine Nat.eq_of_testBit_eq fun i => ?_
  rw [Nat.testBit_or, testBit_field, testBit_field, bit_or, bit_shiftLeft hlo]
  change _ = (_ || bit x i)
  rw [Nat.add_sub_cancel_left]
  by_cases hi : i < w
  · have h64 : lo + i < 64 := by omega
    have hge : ¬ lo + i < lo := by omega
    simp [hi, h64, hge]
  · rw [bit_of_lt hx (by omega)]
    simp [hi]

/-- Setting bits of one field leaves the fields beside it. -/
theorem field_or_of_disjoint (hlo : lo < 64) (hx : x.toNat < 2 ^ w)
    (h : lo + w ≤ k ∨ k + l ≤ lo) :
    field (v ||| x <<< UInt64.ofNat lo) k l = field v k l := by
  refine field_congr fun i hi => ?_
  rw [bit_or, bit_shiftLeft hlo]
  by_cases hlt : k + i < lo
  · simp [hlt]
  · have hout : bit x (k + i - lo) = false := bit_of_lt hx (by omega)
    simp [hout]

/-- Masking with the low bits is the remainder. -/
theorem toNat_and_of_ones (hm : m.toNat = 2 ^ w - 1) : (v &&& m).toNat = v.toNat % 2 ^ w := by
  rw [UInt64.toNat_and, hm, Nat.and_two_pow_sub_one_eq_mod]

theorem and_eq_zero_iff_dvd (hm : m.toNat = 2 ^ w - 1) : v &&& m = 0 ↔ 2 ^ w ∣ v.toNat := by
  rw [← UInt64.toNat_inj, toNat_and_of_ones hm]
  exact (Nat.dvd_iff_mod_eq_zero).symm

end BitField

end Prog
