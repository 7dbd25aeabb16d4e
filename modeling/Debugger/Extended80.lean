/-
How a number gets into an x87 register (`double_to_80bit`).

A double is taken apart into its fields and these are put together to an extended number of
80 bits.  `doubleTo80bit_preserves_iff` says for which doubles the two mean the same: a normal
number is converted exactly, but a subnormal one keeps its significand with an exponent of the
other format, and the quiet bit of a NaN ends up in a place where it means nothing.
-/
import Debugger.CStdlib
import Debugger.Lib.FloatFormat
import Mathlib.Data.Nat.Bitwise

open Prog

namespace Debugger

/-- `_STRUCT_MMST_REG`: the ten bytes of an x87 register, the first eight and the other two as
little-endian numbers. -/
structure MmstReg where
  mant80 : UInt64 := 0
  expSign : UInt16 := 0
deriving DecidableEq, Repr

/-- `double_to_80bit` on the bits of a double. -/
def doubleTo80bit (bits : UInt64) : MmstReg :=
  let sign := (bits >>> 63) &&& 1
  let exp64 := (bits >>> 52) &&& 0x7ff
  let mant := bits &&& 0x000fffffffffffff
  let exp80 : UInt16 :=
    if exp64 = 0x7ff then 0x7fff
    else if exp64 = 0 then 0
    else UInt16.ofInt (exp64.toNat - 1023 + 16383)
  let mant80 : UInt64 :=
    if exp64 = 0x7ff then
      if mant = 0 then (1 : UInt64) <<< 63 else (1 : UInt64) <<< 63 ||| mant
    else if exp64 = 0 then mant <<< 11
    else (1 : UInt64) <<< 63 ||| mant <<< 11
  { mant80 := mant80, expSign := (sign <<< 15 ||| exp80.toUInt64).toUInt16 }

/-- `(double)n` for an `int64_t`: the bits of the double next to it, or of the one with an even
significand where two are. -/
def doubleOfInt64 (n : Int64) : UInt64 :=
  let mag := n.toInt.natAbs
  let exp := mag.log2
  -- of a number of more than 53 bits the lowest ones are rounded
  let drop := exp - 52
  let rest := mag % 2 ^ drop
  let half := 2 ^ drop / 2
  let up := if drop ≠ 0 ∧ (half < rest ∨ half = rest ∧ (mag / 2 ^ drop) % 2 = 1) then 1 else 0
  let sig := (mag / 2 ^ drop + up) * 2 ^ (52 - exp)
  if mag = 0 then 0
  else UInt64.ofNat ((if n < 0 then 2 ^ 63 else 0) + (exp + 1023) * 2 ^ 52 + (sig - 2 ^ 52))

example : doubleOfInt64 (-3) = 0xc008000000000000 ∧
    doubleOfInt64 (2 ^ 53 + 3) = doubleOfInt64 (2 ^ 53 + 4) := by decide

/-! ### The two formats -/

/-- IEEE 754 double precision. -/
def binary64 : FloatFormat where
  bias := 1023
  maxExp := 0x7ff
  fracBits := 52

/-- The extended precision of the x87. -/
def x87Extended : FloatFormat where
  bias := 16383
  maxExp := 0x7fff
  fracBits := 63

/-- The fields of a double; its integer bit is implied by the exponent. -/
def datumOfDouble (bits : UInt64) : Datum where
  neg := bits.toNat / 2 ^ 63 = 1
  exp := bits.toNat / 2 ^ 52 % 2 ^ 11
  int := if bits.toNat / 2 ^ 52 % 2 ^ 11 = 0 then 0 else 1
  frac := bits.toNat % 2 ^ 52

/-- The fields of an x87 register. -/
def MmstReg.datum (reg : MmstReg) : Datum where
  neg := reg.expSign.toNat / 2 ^ 15 = 1
  exp := reg.expSign.toNat % 2 ^ 15
  int := reg.mant80.toNat / 2 ^ 63
  frac := reg.mant80.toNat % 2 ^ 63

section Fields

variable (bits : UInt64)

theorem toNat_sign : ((bits >>> 63) &&& 1).toNat = bits.toNat / 2 ^ 63 := by
  have hlt := bits.toNat_lt
  have h1 : (1 : UInt64).toNat = 2 ^ 1 - 1 := rfl
  have hshift : (bits >>> 63).toNat = bits.toNat / 2 ^ 63 := by
    rw [UInt64.toNat_shiftRight, ← Nat.shiftRight_eq_div_pow]
    rfl
  rw [UInt64.toNat_and, h1, Nat.and_two_pow_sub_one_eq_mod, hshift]
  omega

theorem toNat_exp64 : ((bits >>> 52) &&& 0x7ff).toNat = bits.toNat / 2 ^ 52 % 2 ^ 11 := by
  have hmask : (0x7ff : UInt64).toNat = 2 ^ 11 - 1 := rfl
  have hshift : (bits >>> 52).toNat = bits.toNat / 2 ^ 52 := by
    rw [UInt64.toNat_shiftRight, ← Nat.shiftRight_eq_div_pow]
    rfl
  rw [UInt64.toNat_and, hmask, Nat.and_two_pow_sub_one_eq_mod, hshift]

theorem toNat_mant : (bits &&& 0x000fffffffffffff).toNat = bits.toNat % 2 ^ 52 := by
  have hmask : (0x000fffffffffffff : UInt64).toNat = 2 ^ 52 - 1 := rfl
  rw [UInt64.toNat_and, hmask, Nat.and_two_pow_sub_one_eq_mod]

variable {bits} {mant : UInt64}

theorem toNat_mant_shift (h : mant.toNat < 2 ^ 52) :
    (mant <<< 11).toNat = mant.toNat * 2 ^ 11 := by
  rw [UInt64.toNat_shiftLeft]
  change mant.toNat <<< 11 % 2 ^ 64 = _
  rw [Nat.shiftLeft_eq, Nat.mod_eq_of_lt (by omega)]

theorem toNat_int_or (h : mant.toNat < 2 ^ 63) :
    ((1 : UInt64) <<< 63 ||| mant).toNat = 2 ^ 63 + mant.toNat := by
  have h63 : ((1 : UInt64) <<< 63).toNat = 2 ^ 63 * 1 := rfl
  rw [UInt64.toNat_or, h63, ← Nat.two_pow_add_eq_or_of_lt h, Nat.mul_one]

/-- The sign and the exponent are put together without overlap. -/
theorem toNat_expSign {sign : UInt64} {exp80 : UInt16} (hsign : sign.toNat < 2)
    (hexp : exp80.toNat < 2 ^ 15) :
    (sign <<< 15 ||| exp80.toUInt64).toUInt16.toNat = 2 ^ 15 * sign.toNat + exp80.toNat := by
  have hshift : (sign <<< 15).toNat = 2 ^ 15 * sign.toNat := by
    rw [UInt64.toNat_shiftLeft]
    change sign.toNat <<< 15 % 2 ^ 64 = _
    rw [Nat.shiftLeft_eq]
    omega
  rw [UInt64.toNat_toUInt16, UInt64.toNat_or, hshift, UInt16.toNat_toUInt64,
    ← Nat.two_pow_add_eq_or_of_lt hexp]
  omega

end Fields

/-! ### The three classes of exponents -/

section Classes

variable {bits : UInt64}

/-- The fields of what `double_to_80bit` makes, from its exponent and its significand. -/
theorem datum_doubleTo80bit {exp80 : UInt16} {int mant : ℕ} (hexp : exp80.toNat < 2 ^ 15)
    (hmant : mant < 2 ^ 63) {mant80 : UInt64} (h80 : mant80.toNat = 2 ^ 63 * int + mant) :
    (MmstReg.mk mant80 (((bits >>> 63) &&& 1) <<< 15 ||| exp80.toUInt64).toUInt16).datum =
      { neg := (datumOfDouble bits).neg, exp := exp80.toNat, int := int, frac := mant } := by
  have hbits := bits.toNat_lt
  have hsign := @toNat_expSign ((bits >>> 63) &&& 1) exp80 (by rw [toNat_sign]; omega) hexp
  rw [toNat_sign] at hsign
  rw [MmstReg.datum, datumOfDouble, hsign, h80]
  have hneg : (2 ^ 15 * (bits.toNat / 2 ^ 63) + exp80.toNat) / 2 ^ 15 = bits.toNat / 2 ^ 63 := by
    omega
  have hexp' : (2 ^ 15 * (bits.toNat / 2 ^ 63) + exp80.toNat) % 2 ^ 15 = exp80.toNat := by omega
  have hint : (2 ^ 63 * int + mant) / 2 ^ 63 = int := by omega
  have hfrac : (2 ^ 63 * int + mant) % 2 ^ 63 = mant := by omega
  rw [hneg, hexp', hint, hfrac]

/-- Infinities and NaNs keep their fraction unshifted. -/
theorem doubleTo80bit_max (h : (datumOfDouble bits).exp = 0x7ff) :
    (doubleTo80bit bits).datum =
      { neg := (datumOfDouble bits).neg, exp := 0x7fff, int := 1,
        frac := (datumOfDouble bits).frac } := by
  have hexp : (bits >>> 52) &&& 0x7ff = 0x7ff := by
    rw [← UInt64.toNat_inj, toNat_exp64]
    exact h
  have hfrac : (bits &&& 0x000fffffffffffff).toNat = (datumOfDouble bits).frac := toNat_mant bits
  have hlt : (datumOfDouble bits).frac < 2 ^ 52 := Nat.mod_lt _ (by decide)
  rw [doubleTo80bit]
  rw [if_pos hexp, if_pos hexp]
  refine @datum_doubleTo80bit bits 0x7fff 1 (datumOfDouble bits).frac (by decide) (by omega) _ ?_
  split
  case isTrue h0 =>
    rw [h0] at hfrac
    have h63 : ((1 : UInt64) <<< 63).toNat = 2 ^ 63 := rfl
    have h0' : (0 : UInt64).toNat = 0 := rfl
    rw [h63]
    omega
  case isFalse =>
    rw [toNat_int_or (by omega)]
    omega

/-- Zero and the subnormal numbers get the least exponent. -/
theorem doubleTo80bit_zero (h : (datumOfDouble bits).exp = 0) :
    (doubleTo80bit bits).datum =
      { neg := (datumOfDouble bits).neg, exp := 0, int := 0,
        frac := (datumOfDouble bits).frac * 2 ^ 11 } := by
  have hexp : (bits >>> 52) &&& 0x7ff = 0 := by
    rw [← UInt64.toNat_inj, toNat_exp64]
    exact h
  have hfrac : (bits &&& 0x000fffffffffffff).toNat = (datumOfDouble bits).frac := toNat_mant bits
  have hlt : (datumOfDouble bits).frac < 2 ^ 52 := Nat.mod_lt _ (by decide)
  rw [doubleTo80bit]
  have hmax : ¬(0 : UInt64) = 0x7ff := by decide
  rw [hexp, if_neg hmax, if_neg hmax, if_pos rfl, if_pos rfl]
  refine @datum_doubleTo80bit bits 0 0 ((datumOfDouble bits).frac * 2 ^ 11) (by decide) (by omega) _ ?_
  rw [toNat_mant_shift (by omega)]
  omega

/-- A normal number is rebiased and shifted. -/
theorem doubleTo80bit_normal (h0 : (datumOfDouble bits).exp ≠ 0)
    (hmax : (datumOfDouble bits).exp ≠ 0x7ff) :
    (doubleTo80bit bits).datum =
      { neg := (datumOfDouble bits).neg, exp := (datumOfDouble bits).exp + 15360, int := 1,
        frac := (datumOfDouble bits).frac * 2 ^ 11 } := by
  have hexp0 : ¬(bits >>> 52) &&& 0x7ff = 0 := by
    rw [← UInt64.toNat_inj, toNat_exp64]
    exact h0
  have hexpmax : ¬(bits >>> 52) &&& 0x7ff = 0x7ff := by
    rw [← UInt64.toNat_inj, toNat_exp64]
    exact hmax
  have hlt11 : (datumOfDouble bits).exp < 2 ^ 11 := Nat.mod_lt _ (by decide)
  have hfrac : (bits &&& 0x000fffffffffffff).toNat = (datumOfDouble bits).frac := toNat_mant bits
  have hlt : (datumOfDouble bits).frac < 2 ^ 52 := Nat.mod_lt _ (by decide)
  have hrebias : (UInt16.ofInt (((bits >>> 52) &&& 0x7ff).toNat - 1023 + 16383)).toNat =
      (datumOfDouble bits).exp + 15360 := by
    rw [toNat_exp64]
    change (UInt16.ofNat (((datumOfDouble bits).exp - 1023 + 16383 : ℤ) % 2 ^ 16).toNat).toNat = _
    rw [UInt16.toNat_ofNat']
    omega
  rw [doubleTo80bit]
  rw [if_neg hexpmax, if_neg hexp0, if_neg hexpmax, if_neg hexp0, ← hrebias]
  refine datum_doubleTo80bit (by omega) (by omega) ?_
  rw [toNat_int_or (by rw [toNat_mant_shift (by omega)]; omega), toNat_mant_shift (by omega)]
  omega

end Classes

/-! ### When the register means the double -/

section Preserves

variable {d : Datum}

/-- With the least exponent the value is far too small, unless it is zero. -/
theorem preserves_zero_iff (h0 : d.exp = 0) (hint : d.int = 0) :
    d.Preserves binary64 x87Extended ⟨d.neg, 0, 0, d.frac * 2 ^ 11⟩ ↔ d.frac = 0 := by
  have hvalue := Datum.value_widened (f := binary64) (g := x87Extended) (d := d)
    (e := ⟨d.neg, 0, 0, d.frac * 2 ^ 11⟩) (k := 11) rfl rfl hint.symm rfl
  have hscale : ¬(Datum.scale x87Extended ⟨d.neg, 0, 0, d.frac * 2 ^ 11⟩ + (11 : ℕ) =
      d.scale binary64) := by
    simp only [Datum.scale, binary64, x87Extended, h0]
    omega
  have hsig : d.sig binary64 = d.frac := by rw [Datum.sig, hint, Nat.zero_mul, Nat.zero_add]
  rw [hsig, or_iff_left hscale] at hvalue
  have hno : d.exp ≠ 0x7ff := by rw [h0]; decide
  constructor
  · intro h
    exact hvalue.mp (h.value hno).2
  · intro hfrac
    exact ⟨rfl, fun _ => ⟨by show 0 ≠ 0x7fff; decide, hvalue.mpr hfrac⟩, fun h => absurd h.1 hno,
      fun h => absurd h.1 hno, fun h => absurd h.1.1 hno⟩

/-- The quiet bit of a double is far below that of a register. -/
theorem preserves_max_iff (hmax : d.exp = 0x7ff) (hlt : d.frac < 2 ^ 52) :
    d.Preserves binary64 x87Extended ⟨d.neg, 0x7fff, 1, d.frac⟩ ↔ ¬d.IsQuiet binary64 := by
  have hbit : d.frac.testBit 62 = false := Nat.testBit_lt_two_pow (Nat.lt_trans hlt (by decide))
  constructor
  · intro h hquiet
    exact Bool.false_ne_true (hbit.symm.trans (h.quiet hquiet).2)
  · intro hquiet
    exact ⟨rfl, fun h => absurd hmax h, fun h => ⟨rfl, h.2⟩, fun h => ⟨rfl, h.2⟩,
      fun h => absurd h hquiet⟩

theorem preserves_normal (h0 : d.exp ≠ 0) (hmax : d.exp ≠ 0x7ff) (hlt : d.exp < 2 ^ 11)
    (hint : d.int = 1) :
    d.Preserves binary64 x87Extended ⟨d.neg, d.exp + 15360, 1, d.frac * 2 ^ 11⟩ := by
  have hvalue := Datum.value_widened (f := binary64) (g := x87Extended) (d := d)
    (e := ⟨d.neg, d.exp + 15360, 1, d.frac * 2 ^ 11⟩) (k := 11) rfl rfl hint.symm rfl
  refine ⟨rfl, fun _ => ⟨?_, hvalue.mpr (.inr ?_)⟩, fun h => absurd h.1 hmax,
    fun h => absurd h.1 hmax, fun h => absurd h.1.1 hmax⟩
  · show d.exp + 15360 ≠ 0x7fff
    omega
  · simp only [Datum.scale, binary64, x87Extended]
    omega

end Preserves

/-- `double_to_80bit` preserves what a double means exactly if it is neither a subnormal number
nor a quiet NaN. -/
theorem doubleTo80bit_preserves_iff (bits : UInt64) :
    (datumOfDouble bits).Preserves binary64 x87Extended (doubleTo80bit bits).datum ↔
      ¬(datumOfDouble bits).IsSubnormal ∧ ¬(datumOfDouble bits).IsQuiet binary64 := by
  have hfrac : (datumOfDouble bits).frac < 2 ^ 52 := Nat.mod_lt _ (by decide)
  have hexp : (datumOfDouble bits).exp < 2 ^ 11 := Nat.mod_lt _ (by decide)
  by_cases h0 : (datumOfDouble bits).exp = 0
  · have hquiet : ¬(datumOfDouble bits).IsQuiet binary64 := fun h =>
      absurd (h0.symm.trans h.1.1) (by decide)
    rw [doubleTo80bit_zero h0, preserves_zero_iff h0 (if_pos h0), Datum.IsSubnormal, not_and_not_right]
    exact ⟨fun h => ⟨fun _ => h, hquiet⟩, fun h => h.1 h0⟩
  have hsub : ¬(datumOfDouble bits).IsSubnormal := fun h => h0 h.1
  by_cases hmax : (datumOfDouble bits).exp = 0x7ff
  · rw [doubleTo80bit_max hmax, preserves_max_iff hmax hfrac]
    exact ⟨fun h => ⟨hsub, h⟩, fun h => h.2⟩
  · have hquiet : ¬(datumOfDouble bits).IsQuiet binary64 := fun h => hmax h.1.1
    rw [doubleTo80bit_normal h0 hmax]
    exact iff_of_true (preserves_normal h0 hmax hexp (if_neg h0)) ⟨hsub, hquiet⟩

/-- The least double is taken for a far smaller number. -/
theorem doubleTo80bit_least :
    ¬∀ bits : UInt64,
      (datumOfDouble bits).Preserves binary64 x87Extended (doubleTo80bit bits).datum := by
  intro h
  have hvalue := ((h 1).value (by decide)).2
  have hmant : (doubleTo80bit 1).datum = ⟨false, 0, 0, 1 * 2 ^ 11⟩ := by decide
  have hdouble : datumOfDouble 1 = ⟨false, 0, 0, 1⟩ := by decide
  rw [hmant, hdouble] at hvalue
  have hscales := (Datum.value_widened (f := binary64) (g := x87Extended) (d := ⟨false, 0, 0, 1⟩)
    (e := ⟨false, 0, 0, 1 * 2 ^ 11⟩) (k := 11) rfl rfl rfl rfl).mp hvalue
  simp only [Datum.sig, Datum.scale, binary64, x87Extended] at hscales
  omega

end Debugger
