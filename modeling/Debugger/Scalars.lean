/-
Scalars in the debuggee's memory, in all widths from one to eight bytes.

`write_scalar_value` stores the low bytes of a value and `read_scalar_value` puts them together
again; `sign_extend_value`, `mask_to_size` and `print_binary_value` take the result as a number
of that width.  `scalar_written` says that all of them mean the same number.
-/
import Debugger.MemWrite
import Debugger.PrintPaths
import Debugger.Lib.TwosComplement

open Prog

namespace Debugger

/-! ### Binary digits -/

/-- The loop of `print_binary_value`: the low bits of a value, the highest one first. -/
def binaryDigits (value : UInt64) : ℕ → CStr
  | 0 => []
  | i + 1 => (if value >>> UInt64.ofNat i &&& 1 ≠ 0 then '1' else '0') :: binaryDigits value i

/-- What `print_binary_value` prints. -/
def printBinaryValue (value : UInt64) (size : ℕ) : CStr :=
  binaryDigits (maskToSize value size) (scalarWidth size * 8)

section Scalars

variable {v : UInt64} {size : ℕ}

theorem length_binaryDigits : ∀ n : ℕ, (binaryDigits v n).length = n
  | 0 => rfl
  | n + 1 => congrArg Nat.succ (length_binaryDigits n)

theorem toNat_shift {i : ℕ} (hi : i < 64) : (v >>> UInt64.ofNat i).toNat = v.toNat / 2 ^ i := by
  rw [UInt64.toNat_shiftRight, UInt64.toNat_ofNat', Nat.mod_eq_of_lt (by omega : i < 2 ^ 64),
    Nat.mod_eq_of_lt hi, Nat.shiftRight_eq_div_pow]

theorem bit_ne_zero_iff {i : ℕ} (hi : i < 64) :
    v >>> UInt64.ofNat i &&& 1 ≠ 0 ↔ v.toNat / 2 ^ i % 2 = 1 := by
  have h1 : (1 : UInt64).toNat = 2 ^ 1 - 1 := rfl
  have h0 : (0 : UInt64).toNat = 0 := rfl
  rw [ne_eq, ← UInt64.toNat_inj, UInt64.toNat_and, h1, h0, Nat.and_two_pow_sub_one_eq_mod,
    toNat_shift hi]
  omega

/-- The digits are read back as the number of the low bits. -/
theorem digits_binaryDigits : ∀ {n acc : ℕ}, n ≤ 64 →
    digits 2 acc (binaryDigits v n) = (acc * 2 ^ n + v.toNat % 2 ^ n, []) := by
  intro n
  induction n with
  | zero =>
    intro acc _
    rw [binaryDigits, digits, Nat.pow_zero, Nat.mul_one, Nat.mod_one, Nat.add_zero]
  | succ n ih =>
    intro acc hn
    have hbit := @bit_ne_zero_iff v n (by omega)
    have hmod : v.toNat % 2 ^ (n + 1) = v.toNat % 2 ^ n + 2 ^ n * (v.toNat / 2 ^ n % 2) :=
      Nat.mod_pow_succ
    have hstep : ∀ d, (acc * 2 + d) * 2 ^ n = acc * 2 ^ (n + 1) + 2 ^ n * d := fun d => by
      rw [Nat.pow_succ]
      ring
    rw [binaryDigits, digits, hmod]
    by_cases h : v.toNat / 2 ^ n % 2 = 1
    · rw [if_pos (hbit.mpr h), show digitValue 2 '1' = some 1 by decide]
      dsimp only
      rw [ih (by omega), hstep, h]
      congr 1
      omega
    · have h0 : v.toNat / 2 ^ n % 2 = 0 := by omega
      rw [if_neg (mt hbit.mp h), show digitValue 2 '0' = some 0 by decide]
      dsimp only
      rw [ih (by omega), hstep, h0]
      congr 1

/-! ### Bytes -/

/-- The low bytes of a value represent it modulo their number. -/
theorem leNat_bytesOf : ∀ {n : ℕ}, n ≤ 8 → leNat (bytesOf n v) = v.toNat % 256 ^ n := by
  intro n
  induction n with
  | zero =>
    intro _
    exact (Nat.mod_one _).symm
  | succ n ih =>
    intro hn
    have hsnoc : bytesOf (n + 1) v = bytesOf n v ++ [(v >>> UInt64.ofNat (8 * n)).toUInt8] := by
      rw [bytesOf, List.range_succ, List.map_append]
      rfl
    have hlen : (bytesOf n v).length = n := by rw [bytesOf, List.length_map, List.length_range]
    have hbyte : leNat [(v >>> UInt64.ofNat (8 * n)).toUInt8] = v.toNat / 256 ^ n % 256 := by
      rw [leNat, leNat, UInt64.toNat_toUInt8, toNat_shift (by omega), Nat.pow_mul]
      rfl
    rw [hsnoc, leNat_append, ih (by omega), hlen, hbyte, Nat.mod_pow_succ]

/-- `sign_extend_value` takes a number of the size in two's complement. -/
theorem signExtendValue_eq_signed (hsize : 0 < size ∧ size ≤ 8) (hv : v.toNat < 256 ^ size) :
    (signExtendValue v size).toInt = signed (2 ^ (8 * size - 1)) v.toNat := by
  have hpow : 256 ^ size = 2 * 2 ^ (8 * size - 1) := by
    rw [← Nat.pow_succ', Nat.succ_eq_add_one, Nat.sub_add_cancel (by omega), Nat.pow_mul]
  rw [signExtendValue_eq hsize hv, ofBits, signed, hpow]
  by_cases h : v.toNat < 2 ^ (8 * size - 1)
  · rw [if_pos h, if_neg (by omega)]
  · rw [if_neg h, if_pos ⟨rfl, by omega⟩]

end Scalars

/-! ### What was written is read -/

/-- `r` is what the value comes to in `size` bytes, for the functions that take it as a number
of this size. -/
structure IsScalarOf (v : UInt64) (size : ℕ) (r : UInt64) : Prop where
  value : r.toNat = v.toNat % 2 ^ (8 * size)
  signed_iff : ∀ n : ℤ, n = (signExtendValue r size).toInt ↔
    n ≡ v.toNat [ZMOD 2 ^ (8 * size)] ∧ -2 ^ (8 * size - 1) ≤ n ∧ n < 2 ^ (8 * size - 1)
  masked : maskToSize r size = r
  binary : digits 2 0 (printBinaryValue r size) = (r.toNat, [])
  binary_length : (printBinaryValue r size).length = 8 * size

section Written

variable {v r : UInt64} {size : ℕ} {addr : Addr} {m : Mem}

theorem isScalarOf (hsize : 0 < size ∧ size ≤ 8) (hr : r.toNat = v.toNat % 256 ^ size) :
    IsScalarOf v size r := by
  have hpow : 256 ^ size = 2 ^ (8 * size) := (Nat.pow_mul 2 8 size).symm
  have hlt : r.toNat < 256 ^ size := hr ▸ Nat.mod_lt _ (Nat.pow_pos (by decide))
  have hmask : maskToSize r size = r := maskToSize_eq hsize hlt
  have hhalf : 2 ^ (8 * size) = 2 * 2 ^ (8 * size - 1) := by
    rw [← Nat.pow_succ', Nat.succ_eq_add_one, Nat.sub_add_cancel (by omega)]
  refine ⟨hpow ▸ hr, fun n => ?_, hmask, ?_, ?_⟩
  · rw [signExtendValue_eq_signed hsize hlt, ← modEq_word_iff (by omega), hr, hpow, ← hhalf]
    have hcongr : ((v.toNat % 2 ^ (8 * size) : ℕ) : ℤ) ≡ v.toNat [ZMOD (2 ^ (8 * size) : ℕ)] := by
      rw [Int.natCast_mod]
      exact Int.mod_modEq _ _
    constructor
    · rintro ⟨hmod, hlo, hhi⟩
      exact ⟨by exact_mod_cast hmod.trans hcongr, by exact_mod_cast hlo, by exact_mod_cast hhi⟩
    · rintro ⟨hmod, hlo, hhi⟩
      refine ⟨(show n ≡ v.toNat [ZMOD (2 ^ (8 * size) : ℕ)] from ?_).trans hcongr.symm,
        by exact_mod_cast hlo, by exact_mod_cast hhi⟩
      exact_mod_cast hmod
  · rw [printBinaryValue, hmask, scalarWidth_eq hsize, digits_binaryDigits (by omega), Nat.zero_mul,
      Nat.zero_add, Nat.mul_comm size 8, ← hpow, Nat.mod_eq_of_lt hlt]
  · rw [printBinaryValue, length_binaryDigits, scalarWidth_eq hsize, Nat.mul_comm]

/-- The bytes that are written are read as a number. -/
theorem readScalarValue_written {env : EvalEnv} (hsize : 0 < size ∧ size ≤ 8)
    (hmem : env.mem = m.write addr (bytesOf (scalarWidth size) v))
    (hread : env.readableAt addr size = true) :
    ∃ r, readScalarValue env addr size = some r ∧ r.toNat = v.toNat % 256 ^ size := by
  obtain ⟨r, hr, hnumber⟩ := readScalarValue_eq hsize hread
  have hlen : (bytesOf size v).length = size := by rw [bytesOf, List.length_map, List.length_range]
  have hbytes : env.mem.read addr size = bytesOf size v := by
    rw [hmem, scalarWidth_eq hsize]
    have h := @Mem.read_write m addr (bytesOf size v) (by omega)
    rwa [hlen] at h
  refine ⟨r, hr, ?_⟩
  rw [hnumber, EvalEnv.number, hbytes, leNat_bytesOf hsize.2]

end Written

/-- Behind a successful `write_scalar_value`, `read_scalar_value` reads a number that
`sign_extend_value`, `mask_to_size` and `print_binary_value` take for what was written. -/
theorem scalar_written (pid : ℕ) (addr : Addr) (size : ℕ) (v : UInt64) (s : Sys) (h0 : 0 < size)
    (h8 : size ≤ 8) :
    wp (writeScalarValue pid addr size v) (fun rc s' => rc = 0 → ∃ p, s'.process pid = some p ∧
      ∀ env : EvalEnv, env.mem = p.mem → env.readableAt addr size = true →
        ∃ r, readScalarValue env addr size = some r ∧ IsScalarOf v size r) s := by
  rw [writeScalarValue]
  refine wp_cdbgMemWrite (fun _ _ _ h => absurd h (by decide)) fun p s' hp hwrote _ => ?_
  obtain ⟨_, hs'⟩ := hwrote
  have hpid : p.pid = pid := (Sys.process_eq_some.mp hp).2
  refine ⟨{ p with mem := p.mem.write addr (bytesOf (scalarWidth size) v) }, ?_, ?_⟩
  · subst hs'
    simp [Sys.process, Sys.wrote, Sys.withProc, Sys.record, hpid, scalarWidth]
  · intro env hmem hread
    obtain ⟨r, hr, hvalue⟩ := readScalarValue_written ⟨h0, h8⟩ hmem hread
    exact ⟨r, hr, isScalarOf ⟨h0, h8⟩ hvalue⟩

/-- Three bytes of a wider value. -/
theorem scalar_written_three :
    ((writeScalarValue twoThreads.pid 0x2000 3 0x1f0f1f2).run oneByte).1 = 0 ∧
      wp (writeScalarValue twoThreads.pid 0x2000 3 0x1f0f1f2) (fun rc s' => rc = 0 →
        ∃ p, s'.process twoThreads.pid = some p ∧ ∀ env : EvalEnv, env.mem = p.mem →
          env.readableAt 0x2000 3 = true →
            ∃ r, readScalarValue env 0x2000 3 = some r ∧ IsScalarOf 0x1f0f1f2 3 r) oneByte :=
  ⟨rfl, scalar_written twoThreads.pid 0x2000 3 0x1f0f1f2 oneByte (by decide) (by decide)⟩

end Debugger
