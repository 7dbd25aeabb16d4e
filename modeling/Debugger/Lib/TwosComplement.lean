/-
Unsigned arithmetic on words that are read as signed numbers.

A word is a natural number below `2 * H`, and `signed H` is the number it stands for in two's
complement: the words from `H` on stand for negative numbers.  Comparison, quotient and
remainder of the words are those of the numbers in some cases only:

* `lt_iff_signed_lt` — words are ordered like their numbers exactly where both numbers are
  negative or neither is;
* `signed_div_iff`, `signed_mod_iff` — the numbers for which the quotient, and the remainder,
  of the words stands for the truncated one of the numbers.
-/
import Mathlib.Data.Int.ModEq
import Mathlib.Tactic.Ring
import Mathlib.Tactic.Linarith

namespace Prog

/-- The number that a word stands for. -/
def signed (H u : ℕ) : ℤ := if u < H then u else u - (2 * H : ℕ)

section Signed

variable {H u v : ℕ}

theorem signed_of_lt (h : u < H) : signed H u = u := if_pos h

theorem signed_sub {d : ℕ} (hd : d ≤ H) : signed H (2 * H - d) = -d := by
  rw [signed, if_neg (by omega)]
  omega

/-- The number that a bit vector stands for. -/
theorem toInt_eq_signed {w : ℕ} (x : BitVec (w + 1)) : x.toInt = signed (2 ^ w) x.toNat := by
  rw [BitVec.toInt_eq_toNat_cond, signed, Nat.pow_succ']
  split <;> split <;> omega

/-- A word stands for a number below `H`, or for a negative number. -/
theorem word_cases (hu : u < 2 * H) :
    (u < H ∧ signed H u = u) ∨ ∃ d, 0 < d ∧ d ≤ H ∧ u = 2 * H - d ∧ signed H u = -(d : ℤ) := by
  by_cases h : u < H
  · exact .inl ⟨h, signed_of_lt h⟩
  · have hd : 2 * H - (2 * H - u) = u := Nat.sub_sub_self hu.le
    refine .inr ⟨2 * H - u, by omega, by omega, hd.symm, ?_⟩
    have hle : 2 * H - u ≤ H := by omega
    rw [← signed_sub hle, hd]

/-- The number of a word is the only one of its range that is congruent to the word. -/
theorem modEq_word_iff (hu : u < 2 * H) (n : ℤ) :
    n ≡ u [ZMOD (2 * H : ℕ)] ∧ -(H : ℤ) ≤ n ∧ n < H ↔ n = signed H u := by
  have hword : signed H u ≡ u [ZMOD (2 * H : ℕ)] ∧ -(H : ℤ) ≤ signed H u ∧ signed H u < H := by
    rw [signed]
    split
    · exact ⟨rfl, by omega, by omega⟩
    · refine ⟨?_, by omega, by omega⟩
      exact Int.modEq_iff_dvd.mpr ⟨1, by omega⟩
  constructor
  · rintro ⟨hmod, hlo, hhi⟩
    obtain ⟨hword, hlo', hhi'⟩ := hword
    -- two numbers of the range differ by less than the number of words
    have hdvd := Int.modEq_iff_dvd.mp (hword.trans hmod.symm)
    have hsub : n - signed H u = 0 := by
      refine Int.eq_zero_of_abs_lt_dvd hdvd ?_
      rw [abs_lt]
      omega
    omega
  · rintro rfl
    exact hword

/-- Words are ordered like their numbers where none or both of these are negative. -/
theorem lt_iff_signed_lt (hu : u < 2 * H) (hv : v < 2 * H) :
    (u < v ↔ signed H u < signed H v) ↔ (signed H u < 0 ↔ signed H v < 0) := by
  unfold signed
  split <;> split <;> omega

theorem le_iff_signed_le (hu : u < 2 * H) (hv : v < 2 * H) :
    (u ≤ v ↔ signed H u ≤ signed H v) ↔ (signed H u < 0 ↔ signed H v < 0) := by
  unfold signed
  split <;> split <;> omega

/-- The numbers whose words have the quotient of the numbers. -/
def DivAgrees (m n : ℤ) : Prop := (0 ≤ m ∧ 0 ≤ n) ∨ n = 1 ∨ m = n ∨ (0 ≤ m ∧ m < -n)

instance (m n : ℤ) : Decidable (DivAgrees m n) := inferInstanceAs (Decidable (_ ∨ _ ∨ _ ∨ _))

/-- The numbers whose words have the remainder of the numbers; there are `W` words. -/
def ModAgrees (W m n : ℤ) : Prop :=
  (0 ≤ m ∧ 0 ≤ n) ∨ m = n ∨ (0 ≤ m ∧ m < -n) ∨ (0 < n ∧ n ∣ m ∧ n ∣ W)

instance (W m n : ℤ) : Decidable (ModAgrees W m n) := inferInstanceAs (Decidable (_ ∨ _ ∨ _ ∨ _))

/-- Of two negative numbers the one closer to zero has the larger word. -/
theorem div_of_neg {d e : ℕ} (hd : 0 < d) (hdH : d ≤ H) (heH : e ≤ H) :
    (2 * H - d) / (2 * H - e) = if d ≤ e then 1 else 0 := by
  split
  · exact Nat.div_eq_of_lt_le (by omega) (by omega)
  · exact Nat.div_eq_of_lt (by omega)

theorem mod_of_neg {d e : ℕ} (hd : 0 < d) (hdH : d ≤ H) (heH : e ≤ H) :
    (2 * H - d) % (2 * H - e) = if d ≤ e then e - d else 2 * H - d := by
  split
  · rw [Nat.mod_eq_sub_mod (by omega), Nat.mod_eq_of_lt (by omega)]
    omega
  · exact Nat.mod_eq_of_lt (by omega)

/-- The quotient of the words is that of the numbers. -/
theorem signed_div_iff (hu : u < 2 * H) (hv : v < 2 * H) (h0 : v ≠ 0)
    (hover : ¬ (signed H u = -H ∧ signed H v = -1)) :
    signed H (u / v) = (signed H u).tdiv (signed H v) ↔
      DivAgrees (signed H u) (signed H v) := by
  unfold DivAgrees
  rcases word_cases hu with ⟨hm, hmu⟩ | ⟨d, hd, hdH, rfl, hmu⟩ <;>
    rcases word_cases hv with ⟨hn, hnv⟩ | ⟨e, he, heH, rfl, hnv⟩ <;>
    rw [hmu, hnv]
  · -- neither is negative
    have hlt : u / v < H := Nat.lt_of_le_of_lt (Nat.div_le_self u v) hm
    rw [signed_of_lt hlt, Int.ofNat_tdiv]
    exact iff_of_true rfl (.inl (by omega))
  · -- only the divisor is: its word is larger
    have hzero : u / (2 * H - e) = 0 := Nat.div_eq_of_lt (by omega)
    have hquot : u / e = 0 ↔ u < e := Nat.div_eq_zero_iff_lt he
    rw [hzero, signed_of_lt (by omega), Int.tdiv_neg, ← Int.ofNat_tdiv]
    omega
  · -- only the dividend is: the words have a positive quotient
    by_cases hone : v = 1
    · subst hone
      rw [Nat.div_one, hmu]
      exact iff_of_true (by simp) (.inr (.inl rfl))
    · have hv0 : 0 < v := Nat.pos_of_ne_zero h0
      have hlt : (2 * H - d) / v < H := by
        rw [Nat.div_lt_iff_lt_mul hv0]
        have hle : H * 2 ≤ H * v := Nat.mul_le_mul_left H (by omega)
        omega
      have hpos : 0 < (2 * H - d) / v := Nat.div_pos (by omega) hv0
      rw [signed_of_lt hlt, Int.neg_tdiv, ← Int.ofNat_tdiv]
      have hnonneg := Nat.zero_le (d / v)
      omega
  · -- both are
    rw [hmu, hnv] at hover
    rw [div_of_neg hd hdH heH, Int.neg_tdiv_neg, ← Int.ofNat_tdiv]
    split
    · rename_i hle
      by_cases heq : d = e
      · subst heq
        rw [signed_of_lt (by omega), Nat.div_self hd]
        exact iff_of_true rfl (.inr (.inr (.inl rfl)))
      · have hone : signed H 1 ≠ 0 := by
          unfold signed
          split <;> omega
        rw [Nat.div_eq_of_lt (by omega)]
        exact iff_of_false hone (by omega)
    · have hpos : 0 < d / e := Nat.div_pos (by omega) he
      rw [signed_of_lt (by omega)]
      omega

/-- The remainder of the words is that of the numbers. -/
theorem signed_mod_iff (hu : u < 2 * H) (hv : v < 2 * H) (h0 : v ≠ 0) :
    signed H (u % v) = (signed H u).tmod (signed H v) ↔
      ModAgrees (2 * H : ℕ) (signed H u) (signed H v) := by
  unfold ModAgrees
  rcases word_cases hu with ⟨hm, hmu⟩ | ⟨d, hd, hdH, rfl, hmu⟩ <;>
    rcases word_cases hv with ⟨hn, hnv⟩ | ⟨e, he, heH, rfl, hnv⟩ <;>
    rw [hmu, hnv]
  · have hlt : u % v < H := Nat.lt_of_le_of_lt (Nat.mod_le u v) hm
    rw [signed_of_lt hlt, Int.ofNat_tmod]
    exact iff_of_true rfl (.inl (by omega))
  · have hself : u % (2 * H - e) = u := Nat.mod_eq_of_lt (by omega)
    have hrem : u % e = u ↔ u < e := Nat.mod_eq_iff_lt (by omega)
    rw [hself, hmu, Int.tmod_neg, ← Int.ofNat_tmod]
    omega
  · have hv0 : 0 < v := Nat.pos_of_ne_zero h0
    have hlt : (2 * H - d) % v < H := Nat.lt_of_lt_of_le (Nat.mod_lt _ hv0) hn.le
    have hdvd : v ∣ 2 * H - d ∧ v ∣ d ↔ v ∣ d ∧ v ∣ 2 * H := by
      refine ⟨fun h => ⟨h.2, ?_⟩, fun h => ⟨Nat.dvd_sub h.2 h.1, h.1⟩⟩
      exact (Nat.dvd_sub_iff_left (by omega) h.2).mp h.1
    rw [signed_of_lt hlt, Int.neg_tmod, ← Int.ofNat_tmod, Int.dvd_neg, Int.natCast_dvd_natCast,
      Int.natCast_dvd_natCast, ← hdvd, Nat.dvd_iff_mod_eq_zero, Nat.dvd_iff_mod_eq_zero]
    -- one remainder is not negative and the other one not positive
    omega
  · rw [mod_of_neg hd hdH heH, Int.neg_tmod, Int.tmod_neg, ← Int.ofNat_tmod]
    split
    · rename_i hle
      rw [signed_of_lt (by omega)]
      by_cases heq : d = e
      · subst heq
        simp
      · rw [Nat.mod_eq_of_lt (by omega)]
        omega
    · have hlt : d % e < e := Nat.mod_lt d he
      rw [hmu]
      omega

end Signed

end Prog
