/-
Little-endian numbers.

`leNat bytes` is the number that bytes represent, the least significant one first.  A number
of more bytes splits into its lower and its higher bytes (`leNat_append`); the higher ones
are all zero, or all 255, exactly where they represent the least, or the greatest, number.
`or_shiftLeft_mod` is how a word is put together from the numbers of its parts.
-/
import Mathlib.Algebra.Group.Int.Defs
import Mathlib.Algebra.Group.Nat.Defs
import Mathlib.Data.List.Basic

namespace Prog

/-- The number the bytes represent. -/
def leNat : List UInt8 → ℕ
  | [] => 0
  | b :: bs => b.toNat + 256 * leNat bs

section LittleEndian

variable {bytes high : List UInt8}

theorem leNat_lt : ∀ (bytes : List UInt8), leNat bytes < 256 ^ bytes.length := by
  intro bytes
  induction bytes with
  | nil => exact Nat.one_pos
  | cons b bs ih =>
    have hb := b.toNat_lt
    rw [leNat, List.length_cons, Nat.pow_succ]
    omega

theorem leNat_append : leNat (bytes ++ high) = leNat bytes + 256 ^ bytes.length * leNat high := by
  induction bytes with
  | nil => simp [leNat]
  | cons b bs ih =>
    rw [List.cons_append, leNat, leNat, ih, List.length_cons, Nat.pow_succ, Nat.mul_add,
      Nat.mul_comm (256 ^ bs.length) 256, Nat.mul_assoc, Nat.add_assoc]

/-- Bytes of one length are told apart by their number. -/
theorem leNat_inj : ∀ {bs cs : List UInt8}, bs.length = cs.length → leNat bs = leNat cs →
    bs = cs := by
  intro bs
  induction bs with
  | nil =>
    intro cs hlen _
    exact (List.length_eq_zero_iff.mp hlen.symm).symm
  | cons b bs ih =>
    intro cs hlen h
    cases cs with
    | nil => exact absurd hlen (by simp)
    | cons c cs =>
      have hb := b.toNat_lt
      have hc := c.toNat_lt
      rw [leNat, leNat] at h
      rw [UInt8.toNat_inj.mp (show b.toNat = c.toNat by omega),
        ih (Nat.succ.inj hlen) (by omega)]

theorem leNat_eq_zero_iff : leNat bytes = 0 ↔ ∀ b ∈ bytes, b = 0 := by
  induction bytes with
  | nil => simp [leNat]
  | cons b bs ih =>
    rw [List.forall_mem_cons, ← ih, leNat, ← UInt8.toNat_inj]
    have h0 : (0 : UInt8).toNat = 0 := rfl
    omega

theorem leNat_eq_max_iff :
    leNat bytes = 256 ^ bytes.length - 1 ↔ ∀ b ∈ bytes, b = 255 := by
  induction bytes with
  | nil => simp [leNat]
  | cons b bs ih =>
    have hlt := leNat_lt bs
    have hb := b.toNat_lt
    have h255 : (255 : UInt8).toNat = 255 := rfl
    rw [List.forall_mem_cons, ← ih, leNat, ← UInt8.toNat_inj, List.length_cons, Nat.pow_succ]
    omega

/-- A number is put in the bits above another one; those that do not fit in a word are lost. -/
theorem or_shiftLeft_mod {w s x y : ℕ} (hs : s ≤ w) (hx : x < 2 ^ s) :
    x ||| y <<< s % 2 ^ w = (x + 2 ^ s * y) % 2 ^ w := by
  have hw : 2 ^ w = 2 ^ s * 2 ^ (w - s) := by rw [← Nat.pow_add, Nat.add_sub_cancel' hs]
  have hsum : (x + 2 ^ s * y) % 2 ^ w = x + 2 ^ s * (y % 2 ^ (w - s)) := by
    rw [hw, Nat.mod_mul, Nat.add_mul_mod_self_left, Nat.mod_eq_of_lt hx,
      Nat.add_mul_div_left _ _ (Nat.two_pow_pos s), Nat.div_eq_of_lt hx, Nat.zero_add]
  rw [hsum, Nat.shiftLeft_eq, Nat.mul_comm, hw, Nat.mul_mod_mul_left, Nat.or_comm,
    ← Nat.two_pow_add_eq_or_of_lt hx, Nat.add_comm]

/-- The word whose bytes are put one above the other. -/
theorem toUInt32_or_shiftLeft (b₀ b₁ b₂ b₃ : UInt8) :
    b₀.toUInt32 ||| b₁.toUInt32 <<< 8 ||| b₂.toUInt32 <<< 16 ||| b₃.toUInt32 <<< 24 =
      UInt32.ofNat (leNat [b₀, b₁, b₂, b₃]) := by
  have hb₀ := b₀.toNat_lt
  have hb₁ := b₁.toNat_lt
  have hb₂ := b₂.toNat_lt
  apply UInt32.toNat_inj.mp
  change b₀.toNat ||| b₁.toNat <<< 8 % 2 ^ 32 ||| b₂.toNat <<< 16 % 2 ^ 32 |||
    b₃.toNat <<< 24 % 2 ^ 32 = leNat [b₀, b₁, b₂, b₃] % 2 ^ 32
  rw [or_shiftLeft_mod (y := b₁.toNat) (by decide) hb₀,
    or_shiftLeft_mod (y := b₂.toNat) (by decide) (by omega),
    or_shiftLeft_mod (y := b₃.toNat) (by decide) (by omega)]
  simp only [leNat]
  omega

end LittleEndian

end Prog
