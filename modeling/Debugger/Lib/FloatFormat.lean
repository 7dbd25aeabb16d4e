/-
Binary floating-point formats.

A datum is the content of the fields of a floating-point number, with the integer bit of its
significand written out, and a format says what the fields mean (`Datum.value`).  A datum is
converted to a wider format by shifting its significand and rebiasing its exponent
(`Datum.value_widened`).
-/
import Mathlib.Algebra.Field.Rat
import Mathlib.Algebra.Order.Ring.Rat
import Mathlib.Algebra.Order.GroupWithZero.Basic
import Mathlib.Tactic.Ring
import Mathlib.Tactic.NormNum

namespace Prog

/-- The number with a sign and a significand, scaled by a power of two. -/
def scaled (neg : Bool) (sig : ℕ) (exp : ℤ) : ℚ := (if neg then -1 else 1) * sig * 2 ^ exp

/-- The constants of a format: the bias of its exponents, the exponent of infinities and NaNs
and the number of bits behind the binary point. -/
structure FloatFormat where
  bias : ℕ
  maxExp : ℕ
  fracBits : ℕ

/-- The fields of a number. -/
structure Datum where
  neg : Bool
  exp : ℕ
  int : ℕ
  frac : ℕ
deriving DecidableEq, Repr

section Scaled

variable {neg : Bool} {sig k : ℕ} {exp exp' : ℤ}

theorem scaled_shift : scaled neg (sig * 2 ^ k) exp = scaled neg sig (exp + k) := by
  rw [scaled, scaled, zpow_add₀ two_ne_zero, zpow_natCast]
  push_cast
  ring

theorem scaled_eq_iff : scaled neg sig exp = scaled neg sig exp' ↔ sig = 0 ∨ exp = exp' := by
  have hsign : (if neg then -1 else 1 : ℚ) ≠ 0 := by
    cases neg <;> norm_num
  rw [scaled, scaled]
  by_cases hsig : sig = 0
  · subst hsig
    simp
  · have hsig' : (sig : ℚ) ≠ 0 := Nat.cast_ne_zero.mpr hsig
    rw [mul_right_inj' (mul_ne_zero hsign hsig'),
      zpow_right_inj₀ (by norm_num : (0 : ℚ) < 2) (by norm_num)]
    exact ⟨.inr, fun h => h.resolve_left hsig⟩

end Scaled

namespace Datum

section Meaning

variable (f : FloatFormat) (d : Datum)

/-- The significand as an integer. -/
def sig : ℕ := d.int * 2 ^ f.fracBits + d.frac

/-- The exponent of the last bit of the significand; the least two exponents mean the same. -/
def scale : ℤ := max d.exp 1 - f.bias - f.fracBits

/-- The value of a finite datum. -/
def value : ℚ := scaled d.neg (d.sig f) (d.scale f)

def IsFinite : Prop := d.exp ≠ f.maxExp

def IsInf : Prop := d.exp = f.maxExp ∧ d.frac = 0

def IsNan : Prop := d.exp = f.maxExp ∧ d.frac ≠ 0

/-- A quiet NaN has the first bit behind the binary point. -/
def IsQuiet : Prop := d.IsNan f ∧ d.frac.testBit (f.fracBits - 1) = true

/-- A number below the normal ones, apart from zero. -/
def IsSubnormal : Prop := d.exp = 0 ∧ d.frac ≠ 0

instance : Decidable (d.IsFinite f) := inferInstanceAs (Decidable (_ ≠ _))

instance : Decidable (d.IsQuiet f) := inferInstanceAs (Decidable ((_ ∧ _ ≠ _) ∧ _ = _))

instance : Decidable d.IsSubnormal := inferInstanceAs (Decidable (_ ∧ _ ≠ _))

end Meaning

/-- A datum in another format means the same: sign, value, infinity and the kind of NaN. -/
structure Preserves (f g : FloatFormat) (d e : Datum) : Prop where
  neg : e.neg = d.neg
  value : d.IsFinite f → e.IsFinite g ∧ e.value g = d.value f
  inf : d.IsInf f → e.IsInf g
  nan : d.IsNan f → e.IsNan g
  quiet : d.IsQuiet f → e.IsQuiet g

section Widened

variable {f g : FloatFormat} {d e : Datum} {k : ℕ}

/-- The significand of a datum whose fraction is shifted, and its integer bit with it. -/
theorem sig_widened (hbits : g.fracBits = f.fracBits + k) (hint : e.int = d.int)
    (hfrac : e.frac = d.frac * 2 ^ k) : e.sig g = d.sig f * 2 ^ k := by
  rw [sig, sig, hbits, hint, hfrac, Nat.pow_add]
  ring

/-- Shifting the fraction and moving the exponent from one bias to the other keeps the value. -/
theorem value_widened (hneg : e.neg = d.neg) (hbits : g.fracBits = f.fracBits + k)
    (hint : e.int = d.int) (hfrac : e.frac = d.frac * 2 ^ k) :
    e.value g = d.value f ↔ d.sig f = 0 ∨ e.scale g + k = d.scale f := by
  rw [value, value, sig_widened hbits hint hfrac, scaled_shift, hneg]
  exact scaled_eq_iff

end Widened

end Datum

end Prog
