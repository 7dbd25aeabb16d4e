/-
LEB128 numbers.

A number is written in groups of seven bits, the lowest group first, one in each byte; the top
bit of a byte says that another one follows.  `groups` is the number that is made of the groups,
and `signedGroups` the one in which the last group has a sign, which is that of the first in two's
complement, of as many bits as the groups have (`signedGroups_eq`).

All bytes that make a number are an encoding of it (`Encodes`, `EncodesSigned`); `uleb` and `sleb`
are the shortest ones of a natural number and of an integer.
-/
import Mathlib.Data.List.Basic
import Mathlib.Tactic.Ring

namespace Leb128

/-- The number made of the groups of seven bits. -/
def groups : List UInt8 → ℕ
  | [] => 0
  | b :: bs => b.toNat % 128 + 128 * groups bs

/-- Every byte but the last says that another one follows. -/
inductive Terminated : List UInt8 → Prop
  | last {b : UInt8} : b.toNat < 128 → Terminated [b]
  | more {b : UInt8} {bs : List UInt8} : 128 ≤ b.toNat → Terminated bs → Terminated (b :: bs)

theorem Terminated.length_pos {bs : List UInt8} (h : Terminated bs) : 0 < bs.length := by
  cases h with
  | last _ => exact Nat.one_pos
  | more _ _ => exact Nat.succ_pos _

/-- In front of the last byte another one is announced. -/
theorem Terminated.continued {bs : List UInt8} (h : Terminated bs) : ∀ {front back : List UInt8},
    bs = front ++ back → back ≠ [] → ∀ b ∈ front, 128 ≤ b.toNat := by
  induction h with
  | last _ =>
    intro front back hsplit hback
    obtain ⟨rfl, -⟩ | ⟨-, rfl⟩ := List.append_eq_singleton_iff.mp hsplit.symm
    · exact fun b hb => nomatch hb
    · exact absurd rfl hback
  | more hb _ ih =>
    intro front back hsplit hback
    cases front with
    | nil => exact fun b hb => nomatch hb
    | cons a front =>
      obtain ⟨rfl, hrest⟩ := List.cons.inj hsplit
      exact List.forall_mem_cons.mpr ⟨hb, ih hrest hback⟩

/-- The number made of the groups, when the last one has a sign. -/
def signedGroups : List UInt8 → ℤ
  | [] => 0
  | [b] => if b.toNat % 128 < 64 then b.toNat % 128 else b.toNat % 128 - 128
  | b :: bs => b.toNat % 128 + 128 * signedGroups bs

/-- The bytes are an encoding of the natural number. -/
structure Encodes (bs : List UInt8) (n : ℕ) : Prop where
  terminated : Terminated bs
  groups_eq : groups bs = n

/-- The bytes are an encoding of the integer. -/
structure EncodesSigned (bs : List UInt8) (z : ℤ) : Prop where
  terminated : Terminated bs
  groups_eq : signedGroups bs = z

theorem signedGroups_cons {b : UInt8} {bs : List UInt8} (h : bs ≠ []) :
    signedGroups (b :: bs) = b.toNat % 128 + 128 * signedGroups bs := by
  cases bs with
  | nil => exact absurd rfl h
  | cons a bs => rfl

theorem groups_lt (bs : List UInt8) : groups bs < 128 ^ bs.length := by
  induction bs with
  | nil => exact Nat.one_pos
  | cons b bs ih =>
    rw [groups, List.length_cons, pow_succ]
    omega

/-- The sign is the top bit of the last group. -/
theorem signedGroups_eq {bs : List UInt8} (h : Terminated bs) (d : UInt8) :
    signedGroups bs =
      if (bs.getLastD d).toNat / 64 % 2 = 0 then (groups bs : ℤ)
      else groups bs - 128 ^ bs.length := by
  induction h generalizing d with
  | @last b hb =>
    change (if b.toNat % 128 < 64 then _ else _) = if b.toNat / 64 % 2 = 0 then _ else _
    rw [groups, groups, List.length_singleton, pow_one]
    split <;> split <;> omega
  | @more b bs _ hbs ih =>
    rw [signedGroups_cons (List.ne_nil_of_length_pos hbs.length_pos), ih b, List.getLastD_cons,
      groups, List.length_cons, pow_succ]
    split <;> push_cast <;> ring

/-- The shortest encoding of a natural number. -/
def uleb (n : ℕ) : List UInt8 :=
  if n < 128 then [UInt8.ofNat n] else UInt8.ofNat (n % 128 + 128) :: uleb (n / 128)

/-- The shortest encoding of an integer: the last group has its sign. -/
def sleb (z : ℤ) : List UInt8 :=
  if -64 ≤ z ∧ z < 64 then [UInt8.ofNat (z % 128).toNat]
  else UInt8.ofNat ((z % 128).toNat + 128) :: sleb (z / 128)
termination_by z.natAbs
decreasing_by omega

theorem toNat_ofNat_of_lt {n : ℕ} (h : n < 256) : (UInt8.ofNat n).toNat = n :=
  UInt8.toNat_ofNat_of_lt h

section Unsigned

variable {n k : ℕ}

theorem terminated_uleb (n : ℕ) : Terminated (uleb n) := by
  induction n using uleb.induct with
  | case1 n h =>
    rw [uleb, if_pos h]
    exact .last (by rwa [toNat_ofNat_of_lt (by omega)])
  | case2 n h ih =>
    rw [uleb, if_neg h]
    exact .more (by rw [toNat_ofNat_of_lt (by omega)]; omega) ih

theorem groups_uleb (n : ℕ) : groups (uleb n) = n := by
  induction n using uleb.induct with
  | case1 n h =>
    rw [uleb, if_pos h, groups, groups, toNat_ofNat_of_lt (by omega)]
    omega
  | case2 n h ih =>
    rw [uleb, if_neg h, groups, ih, toNat_ofNat_of_lt (by omega)]
    omega

theorem encodes_uleb (n : ℕ) : Encodes (uleb n) n := ⟨terminated_uleb n, groups_uleb n⟩

theorem length_uleb_le (h : n < 128 ^ (k + 1)) : (uleb n).length ≤ k + 1 := by
  induction k generalizing n with
  | zero => rw [uleb, if_pos (by omega), List.length_singleton]
  | succ k ih =>
    rw [uleb]
    split
    · exact Nat.succ_le_succ (Nat.zero_le _)
    · rw [Nat.pow_succ] at h
      exact Nat.succ_le_succ (ih (Nat.div_lt_of_lt_mul (by omega)))

/-- The numbers of one byte. -/
theorem length_uleb_eq_one_iff : (uleb n).length = 1 ↔ n < 128 := by
  rw [uleb]
  split
  case isTrue h => exact iff_of_true rfl h
  case isFalse h =>
    have hpos := (terminated_uleb (n / 128)).length_pos
    rw [List.length_cons]
    omega

/-- As many bytes as numbers are numbers of one byte. -/
theorem length_flatMap_uleb_eq_iff : ∀ {ns : List ℕ},
    (ns.flatMap uleb).length = ns.length ↔ ∀ n ∈ ns, n < 128 := by
  have hle : ∀ ns : List ℕ, ns.length ≤ (ns.flatMap uleb).length := by
    intro ns
    induction ns with
    | nil => exact Nat.le_refl _
    | cons n ns ih =>
      have hpos := (terminated_uleb n).length_pos
      rw [List.flatMap_cons, List.length_append, List.length_cons]
      omega
  intro ns
  induction ns with
  | nil => simp
  | cons n ns ih =>
    have hpos := (terminated_uleb n).length_pos
    have hns := hle ns
    rw [List.forall_mem_cons, ← ih, ← length_uleb_eq_one_iff, List.flatMap_cons,
      List.length_append, List.length_cons]
    omega

end Unsigned

section Signed

variable {z : ℤ} {k : ℕ}

theorem terminated_sleb (z : ℤ) : Terminated (sleb z) := by
  induction z using sleb.induct with
  | case1 z h =>
    rw [sleb, if_pos h]
    exact .last (by rw [toNat_ofNat_of_lt (by omega)]; omega)
  | case2 z h ih =>
    rw [sleb, if_neg h]
    exact .more (by rw [toNat_ofNat_of_lt (by omega)]; omega) ih

theorem signedGroups_sleb (z : ℤ) : signedGroups (sleb z) = z := by
  induction z using sleb.induct with
  | case1 z h =>
    rw [sleb, if_pos h, signedGroups, toNat_ofNat_of_lt (by omega)]
    split <;> omega
  | case2 z h ih =>
    have hne : sleb (z / 128) ≠ [] := List.ne_nil_of_length_pos (terminated_sleb _).length_pos
    rw [sleb, if_neg h, signedGroups_cons hne, ih, toNat_ofNat_of_lt (by omega)]
    omega

theorem encodesSigned_sleb (z : ℤ) : EncodesSigned (sleb z) z :=
  ⟨terminated_sleb z, signedGroups_sleb z⟩

theorem length_sleb_le (h : -(64 * 128 ^ k) ≤ z ∧ z < 64 * 128 ^ k) :
    (sleb z).length ≤ k + 1 := by
  induction k generalizing z with
  | zero => rw [sleb, if_pos (by simpa using h), List.length_singleton]
  | succ k ih =>
    rw [sleb]
    split
    · exact Nat.succ_le_succ (Nat.zero_le _)
    · rw [pow_succ] at h
      refine Nat.succ_le_succ (ih ⟨?_, ?_⟩)
      · omega
      · omega

end Signed

end Leb128
