/-
What the readers of the `__debug_line` parser read (`read_u8` to `read_sleb128`).

A cursor sees bytes that lie at it, before its end.  Each reader gives the number whose bytes
it sees and moves the cursor behind them; a LEB128 number of at most ten bytes is read in full,
whether it is written in the shortest way or not (`leb_readers_invert`).
-/
import Debugger.LineTableEnds
import Debugger.Scalars
import Debugger.Lib.Leb128

open Prog Leb128

namespace Debugger

/-- The bytes lie at the cursor and before its end. -/
def Sees (mem : Mem) (c : ParseCursor) (bytes : List UInt8) : Prop :=
  c.data.toNat + bytes.length ≤ c.end_.toNat ∧ mem.read c.data bytes.length = bytes

/-- The cursor behind the bytes. -/
def ParseCursor.behind (c : ParseCursor) (bytes : List UInt8) : ParseCursor :=
  c.advance (UInt64.ofNat bytes.length)

section Sees

variable {mem : Mem} {c : ParseCursor} {as bs : List UInt8} {b : UInt8}

@[simp] theorem end_behind : (c.behind bs).end_ = c.end_ := rfl

theorem Sees.toNat_behind (h : Sees mem c bs) :
    (c.behind bs).data.toNat = c.data.toNat + bs.length := by
  have hend := c.end_.toNat_lt
  have hlen : (UInt64.ofNat bs.length).toNat = bs.length :=
    UInt64.toNat_ofNat_of_lt' (Nat.lt_of_le_of_lt (Nat.le_trans (Nat.le_add_left _ _) h.1) hend)
  rw [ParseCursor.behind, toNat_advance (by rw [hlen]; exact Nat.lt_of_le_of_lt h.1 hend), hlen]

theorem behind_nil : c.behind [] = c := by simp [ParseCursor.behind, ParseCursor.advance]

theorem behind_append : c.behind (as ++ bs) = (c.behind as).behind bs := by
  rw [ParseCursor.behind, ParseCursor.behind, ParseCursor.behind, List.length_append,
    UInt64.ofNat_add, ParseCursor.advance, ParseCursor.advance, ParseCursor.advance,
    UInt64.add_assoc]

theorem sees_append : Sees mem c (as ++ bs) ↔ Sees mem c as ∧ Sees mem (c.behind as) bs := by
  have hread : mem.read c.data (as ++ bs).length = as ++ bs ↔
      mem.read c.data as.length = as ∧ mem.read (c.behind as).data bs.length = bs := by
    rw [List.length_append, Mem.read_append]
    refine ⟨fun h => List.append_inj h (by simp [Mem.read]), ?_⟩
    rintro ⟨has, hbs⟩
    rw [has]
    exact congrArg (as ++ ·) hbs
  constructor
  · rintro ⟨hlen, hbytes⟩
    obtain ⟨has, hbs⟩ := hread.mp hbytes
    rw [List.length_append] at hlen
    have hsees : Sees mem c as := ⟨by omega, has⟩
    exact ⟨hsees, by rw [hsees.toNat_behind, end_behind]; omega, hbs⟩
  · rintro ⟨hsees, hlen, hbs⟩
    rw [hsees.toNat_behind, end_behind] at hlen
    exact ⟨by rw [List.length_append]; omega, hread.mpr ⟨hsees.2, hbs⟩⟩

theorem sees_cons : Sees mem c (b :: bs) ↔ Sees mem c [b] ∧ Sees mem (c.behind [b]) bs :=
  @sees_append mem c [b] bs

theorem Sees.head (h : Sees mem c (b :: bs)) : mem c.data = b ∧ c.data < c.end_ := by
  obtain ⟨hlen, hread⟩ := (sees_cons.mp h).1
  rw [List.length_singleton, Mem.read_one] at hread
  exact ⟨(List.cons.inj hread).1, UInt64.lt_iff_toNat_lt.mpr hlen⟩

theorem Sees.cursorOk (h : Sees mem c bs) : cursorOk c bs.length = true := by
  have hle : c.data ≤ c.end_ :=
    UInt64.le_iff_toNat_le.mpr (Nat.le_trans (Nat.le_add_right _ _) h.1)
  refine decide_eq_true ?_
  rw [toNat_remaining hle]
  exact Nat.le_sub_of_add_le' h.1

end Sees

/-! ### Words of a fixed number of bytes -/

section Words

variable {mem : Mem} {c : ParseCursor} {bs : List UInt8} {b b₀ b₁ b₂ b₃ : UInt8}

theorem readU8_sees (h : Sees mem c [b]) : (readU8 mem).run c = (b, c.behind [b]) := by
  obtain ⟨hb, hlt⟩ := h.head
  rw [(readU8_of_lt mem hlt).1, hb]
  rfl

/-- A byte, or a group of bits, is put above what has been read of a word. -/
theorem ofNat_or_shiftLeft {value s : ℕ} {x : UInt64} (hs : s < 64) (hvalue : value < 2 ^ s) :
    UInt64.ofNat value ||| x <<< UInt64.ofNat s = UInt64.ofNat (value + 2 ^ s * x.toNat) := by
  have hlt : value < 2 ^ 64 :=
    Nat.lt_of_lt_of_le hvalue (Nat.pow_le_pow_right (by decide) hs.le)
  have hshift : (UInt64.ofNat s).toNat % 64 = s := by
    rw [UInt64.toNat_ofNat_of_lt' (Nat.lt_trans hs (by decide)), Nat.mod_eq_of_lt hs]
  apply UInt64.toNat_inj.mp
  rw [UInt64.toNat_or, UInt64.toNat_shiftLeft, UInt64.toNat_ofNat_of_lt' hlt, hshift,
    or_shiftLeft_mod hs.le hvalue, UInt64.toNat_ofNat']

theorem readU16_sees (h : Sees mem c [b₀, b₁]) :
    (readU16 mem).run c = (UInt16.ofNat (leNat [b₀, b₁]), c.behind [b₀, b₁]) := by
  obtain ⟨h₀, h₁⟩ := sees_cons.mp h
  have hvalue : b₀.toUInt16 ||| b₁.toUInt16 <<< 8 = UInt16.ofNat (leNat [b₀, b₁]) := by
    apply UInt16.toNat_inj.mp
    change b₀.toNat ||| b₁.toNat <<< 8 % 2 ^ 16 = leNat [b₀, b₁] % 2 ^ 16
    rw [or_shiftLeft_mod (by decide) b₀.toNat_lt]
    rfl
  have hok : cursorOk c 2 = true := h.cursorOk
  change (if cursorOk c 2 then _ else _ : UInt16 × ParseCursor) = _
  rw [if_pos hok, ← hvalue, ← h₀.head.1, ← h₁.head.1]
  rfl

theorem readU32_sees (h : Sees mem c [b₀, b₁, b₂, b₃]) :
    (readU32 mem).run c =
      (UInt32.ofNat (leNat [b₀, b₁, b₂, b₃]), c.behind [b₀, b₁, b₂, b₃]) := by
  obtain ⟨h₀, h'⟩ := sees_cons.mp h
  obtain ⟨h₁, h'⟩ := sees_cons.mp h'
  obtain ⟨h₂, h₃⟩ := sees_cons.mp h'
  have hok : cursorOk c 4 = true := h.cursorOk
  change (if cursorOk c 4 then _ else _ : UInt32 × ParseCursor) = _
  have hdata : (c.behind [b₀]).data = c.data + 1 ∧
      ((c.behind [b₀]).behind [b₁]).data = c.data + 2 ∧
      (((c.behind [b₀]).behind [b₁]).behind [b₂]).data = c.data + 3 := by
    refine ⟨rfl, ?_, ?_⟩
    · exact UInt64.add_assoc c.data 1 1
    · exact (congrArg (· + 1) (UInt64.add_assoc c.data 1 1)).trans (UInt64.add_assoc c.data 2 1)
  rw [if_pos hok, ← toUInt32_or_shiftLeft, ← h₀.head.1, ← h₁.head.1, ← h₂.head.1, ← h₃.head.1,
    hdata.1, hdata.2.1, hdata.2.2]
  rfl

/-- The loop of `read_u64` puts the bytes above what it has read. -/
theorem readU64From_sees : ∀ {bs : List UInt8} {i value : ℕ} {c : ParseCursor}, Sees mem c bs →
    i + bs.length ≤ 8 → value < 2 ^ (8 * i) →
      (readU64From mem bs.length i (UInt64.ofNat value)).run c =
        (UInt64.ofNat (value + 2 ^ (8 * i) * leNat bs), c.behind bs) := by
  intro bs
  induction bs with
  | nil =>
    intro i value c _ _ _
    rw [leNat, Nat.mul_zero, Nat.add_zero, behind_nil]
    rfl
  | cons b bs ih =>
    intro i value c h hi hvalue
    obtain ⟨h₀, h'⟩ := sees_cons.mp h
    rw [List.length_cons] at hi
    have hb := b.toNat_lt
    have hpow : 2 ^ (8 * (i + 1)) = 2 ^ (8 * i) * 2 ^ 8 := by rw [← Nat.pow_add]; rfl
    have hnext : value + 2 ^ (8 * i) * b.toNat < 2 ^ (8 * (i + 1)) := by
      have hmul : 2 ^ (8 * i) * (b.toNat + 1) ≤ 2 ^ (8 * i) * 2 ^ 8 := Nat.mul_le_mul_left _ hb
      rw [hpow]
      rw [Nat.mul_add, Nat.mul_one] at hmul
      omega
    rw [List.length_cons, readU64From, StateT.run_bind, readU8_sees h₀]
    change (readU64From mem bs.length (i + 1)
      (UInt64.ofNat value ||| b.toUInt64 <<< UInt64.ofNat (8 * i))).run (c.behind [b]) = _
    rw [ofNat_or_shiftLeft (by omega) hvalue, UInt8.toNat_toUInt64, ih h' (by omega) hnext, leNat,
      hpow, Nat.mul_add, Nat.add_assoc, Nat.mul_assoc]
    exact Prod.ext rfl behind_append.symm

theorem readU64_sees (h : Sees mem c bs) (hlen : bs.length = 8) :
    (readU64 mem).run c = (UInt64.ofNat (leNat bs), c.behind bs) := by
  have hread : (readU64From mem bs.length 0 (UInt64.ofNat 0)).run c =
      (UInt64.ofNat (0 + 2 ^ (8 * 0) * leNat bs), c.behind bs) :=
    readU64From_sees h (by omega) Nat.one_pos
  rwa [hlen, Nat.mul_zero, Nat.pow_zero, Nat.one_mul, Nat.zero_add] at hread

/-- The bytes of a value are read as the value. -/
theorem readU64_bytesOf {v : UInt64} (h : Sees mem c (bytesOf 8 v)) :
    (readU64 mem).run c = (v, c.behind (bytesOf 8 v)) := by
  have hnumber : leNat (bytesOf 8 v) = v.toNat := by
    rw [leNat_bytesOf (by decide)]
    exact Nat.mod_eq_of_lt v.toNat_lt
  have hread := readU64_sees h (by simp [bytesOf])
  rwa [hnumber, UInt64.ofNat_toNat] at hread

theorem readU32_bytesOf {v : UInt64} (hv : v.toNat < 2 ^ 32) (h : Sees mem c (bytesOf 4 v)) :
    (readU32 mem).run c = (v.toUInt32, c.behind (bytesOf 4 v)) ∧ v.toUInt32.toUInt64 = v := by
  have hnumber : leNat (bytesOf 4 v) = v.toNat := by
    rw [leNat_bytesOf (by decide)]
    exact Nat.mod_eq_of_lt hv
  have hword : UInt32.ofNat v.toNat = v.toUInt32 := rfl
  refine ⟨?_, ?_⟩
  · rw [← hword, ← hnumber]
    exact readU32_sees h
  · rw [← UInt64.toNat_inj, UInt32.toNat_toUInt64, UInt64.toNat_toUInt32]
    exact Nat.mod_eq_of_lt hv

theorem readU16_bytesOf {v : UInt16} (h : Sees mem c (bytesOf 2 v.toUInt64)) :
    (readU16 mem).run c = (v, c.behind (bytesOf 2 v.toUInt64)) := by
  have hnumber : leNat (bytesOf 2 v.toUInt64) = v.toNat := by
    rw [leNat_bytesOf (by decide), UInt16.toNat_toUInt64]
    exact Nat.mod_eq_of_lt v.toNat_lt
  have hword : UInt16.ofNat v.toNat = v := UInt16.ofNat_toNat
  have hread : (readU16 mem).run c =
      (UInt16.ofNat (leNat (bytesOf 2 v.toUInt64)), c.behind (bytesOf 2 v.toUInt64)) :=
    readU16_sees h
  rwa [hnumber, hword] at hread

end Words

/-! ### LEB128 numbers -/

section Leb

variable {mem : Mem} {c : ParseCursor} {bs : List UInt8}

/-- Bit `i` of a byte, as a mask of it. -/
theorem and_bit_eq_zero_iff {b m : UInt8} (i : ℕ) (hm : m.toNat = 2 ^ i) :
    b &&& m = 0 ↔ b.toNat / 2 ^ i % 2 = 0 := by
  rw [← UInt8.toNat_inj, UInt8.toNat_and, hm, Nat.and_two_pow, Nat.testBit_eq_decide_div_mod_eq]
  rcases Nat.mod_two_eq_zero_or_one (b.toNat / 2 ^ i) with h | h
  · simp [h]
  · simp [h]

theorem toNat_group (b : UInt8) : (b &&& 0x7f).toUInt64.toNat = b.toNat % 128 := by
  rw [UInt8.toNat_toUInt64, UInt8.toNat_and]
  exact Nat.and_two_pow_sub_one_eq_mod b.toNat 7

/-- The loop puts the groups above what it has read, and keeps the last byte. -/
theorem readLebFrom_sees (h : Terminated bs) : ∀ {n k value : ℕ} {c : ParseCursor} {last : UInt8},
    Sees mem c bs → bs.length ≤ n → k + bs.length ≤ 10 → value < 2 ^ (7 * k) →
      (readLebFrom mem n (UInt64.ofNat value) (7 * k) last).run c =
        ((UInt64.ofNat (value + 2 ^ (7 * k) * groups bs), 7 * (k + bs.length),
          bs.getLastD last), c.behind bs) := by
  induction h with
  | @last b hb =>
    intro n k value c last hsees hn hk hvalue
    obtain ⟨n, rfl⟩ : ∃ m, n = m + 1 := Nat.exists_eq_succ_of_ne_zero (Nat.ne_of_gt hn)
    have htop : b &&& 0x80 = 0 := (and_bit_eq_zero_iff 7 rfl).mpr (by omega)
    rw [List.length_singleton] at hk
    rw [readLebFrom, StateT.run_bind, readU8_sees hsees]
    change (if b &&& 0x80 = 0 then (pure _ : Reader (UInt64 × ℕ × UInt8)) else _).run _ = _
    rw [if_pos htop, ofNat_or_shiftLeft (by omega) hvalue, toNat_group, groups, groups,
      Nat.mul_zero, Nat.add_zero]
    rfl
  | @more b bs hb _ ih =>
    intro n k value c last hsees hn hk hvalue
    obtain ⟨n, rfl⟩ : ∃ m, n = m + 1 :=
      Nat.exists_eq_succ_of_ne_zero (Nat.ne_of_gt (Nat.lt_of_lt_of_le (Nat.succ_pos _) hn))
    obtain ⟨h₀, h'⟩ := sees_cons.mp hsees
    have hbyte := b.toNat_lt
    have htop : ¬ b &&& 0x80 = 0 := fun h => by
      have := (and_bit_eq_zero_iff 7 rfl).mp h
      omega
    have hpow : 2 ^ (7 * (k + 1)) = 2 ^ (7 * k) * 128 := by rw [← Nat.pow_add (n := 7)]; rfl
    have hnext : value + 2 ^ (7 * k) * (b.toNat % 128) < 2 ^ (7 * (k + 1)) := by
      have hmul : 2 ^ (7 * k) * (b.toNat % 128 + 1) ≤ 2 ^ (7 * k) * 128 :=
        Nat.mul_le_mul_left _ (Nat.mod_lt _ (by decide))
      rw [Nat.mul_add, Nat.mul_one] at hmul
      omega
    rw [List.length_cons] at hn hk
    rw [readLebFrom, StateT.run_bind, readU8_sees h₀]
    change (if b &&& 0x80 = 0 then (pure _ : Reader (UInt64 × ℕ × UInt8))
      else readLebFrom mem n _ (7 * (k + 1)) b).run _ = _
    rw [if_neg htop, ofNat_or_shiftLeft (by omega) hvalue, toNat_group,
      ih h' (by omega) (by omega) hnext, groups, hpow, Nat.mul_add (2 ^ (7 * k)),
      Nat.add_assoc value, Nat.mul_assoc, List.getLastD_cons, List.length_cons, Nat.add_right_comm k]
    exact Prod.ext rfl behind_append.symm

theorem readLeb_sees (h : Terminated bs) (hlen : bs.length ≤ 10) (hsees : Sees mem c bs) :
    (readLebFrom mem 10 0 0 0).run c =
      ((UInt64.ofNat (groups bs), 7 * bs.length, bs.getLastD 0), c.behind bs) := by
  have hread : (readLebFrom mem 10 (UInt64.ofNat 0) (7 * 0) 0).run c =
      ((UInt64.ofNat (0 + 2 ^ (7 * 0) * groups bs), 7 * (0 + bs.length), bs.getLastD 0),
        c.behind bs) :=
    readLebFrom_sees h hsees hlen (by omega) Nat.one_pos
  rwa [Nat.mul_zero, Nat.pow_zero, Nat.one_mul, Nat.zero_add, Nat.zero_add] at hread

/-- Each ULEB128 encoding of at most ten bytes is read as its number. -/
theorem readUleb128_encodes {v : UInt64} (hbs : Encodes bs v.toNat) (hlen : bs.length ≤ 10)
    (h : Sees mem c bs) : (readUleb128 mem).run c = (v, c.behind bs) := by
  rw [readUleb128, StateT.run_bind, readLeb_sees hbs.terminated hlen h, hbs.groups_eq,
    UInt64.ofNat_toNat]
  rfl

/-- A ULEB128 number of 64 bits is read. -/
theorem readUleb128_sees {v : UInt64} (h : Sees mem c (uleb v.toNat)) :
    (readUleb128 mem).run c = (v, c.behind (uleb v.toNat)) :=
  readUleb128_encodes (encodes_uleb v.toNat)
    (length_uleb_le (k := 9) (Nat.lt_of_lt_of_le v.toNat_lt (by decide))) h

theorem ofNat_toInt64_eq {n : ℕ} {q : ℤ} {v : Int64} (h : (n : ℤ) = v.toInt + 2 ^ 64 * q) :
    (UInt64.ofNat n).toInt64 = v := by
  have hn : (UInt64.ofNat n).toInt64 = Int64.ofInt (n : ℤ) := Int64.ofInt_eq_ofNat.symm
  have hmod : (v.toInt + 2 ^ 64 * q) % (2 ^ 64 : ℕ) = v.toInt % (2 ^ 64 : ℕ) :=
    Int.add_mul_emod_self_left v.toInt (2 ^ 64) q
  rw [hn, h, Int64.ofInt_eq_iff_bmod_eq_toInt, Int.bmod_def, hmod, ← Int.bmod_def]
  exact Int64.toInt_bmod v

/-- Each SLEB128 encoding of at most ten bytes is read as its number. -/
theorem readSleb128_encodes {v : Int64} (hbs : EncodesSigned bs v.toInt) (hlen : bs.length ≤ 10)
    (h : Sees mem c bs) : (readSleb128 mem).run c = (v, c.behind bs) := by
  have hvalue := (signedGroups_eq hbs.terminated 0).symm.trans hbs.groups_eq
  have hbit : (bs.getLastD 0) &&& 0x40 = 0 ↔ (bs.getLastD 0).toNat / 64 % 2 = 0 :=
    and_bit_eq_zero_iff 6 rfl
  rw [readSleb128, StateT.run_bind, readLeb_sees hbs.terminated hlen h]
  change (if _ ∧ _ then (pure _ : Reader Int64) else pure _).run _ = _
  by_cases hsign : (bs.getLastD 0).toNat / 64 % 2 = 0
  · rw [if_pos hsign] at hvalue
    rw [if_neg fun h => h.1 (hbit.mpr hsign)]
    exact Prod.ext (ofNat_toInt64_eq (q := 0) (by rw [hvalue, mul_zero, add_zero])) rfl
  · rw [if_neg hsign] at hvalue
    have hpow : (128 : ℤ) ^ bs.length = 2 ^ (7 * bs.length) := by
      rw [pow_mul]
      rfl
    by_cases hshort : 7 * bs.length < 64
    · have hlt : groups bs < 2 ^ (7 * bs.length) := by
        rw [pow_mul]
        exact groups_lt bs
      rw [if_pos ⟨mt hbit.mp hsign, hshort⟩, ofNat_or_shiftLeft hshort hlt]
      refine Prod.ext (ofNat_toInt64_eq (q := 2 ^ (7 * bs.length)) ?_) rfl
      -- the ones above the groups make the number smaller by `2 ^ (7 * bs.length)`, modulo the word
      have hones : (~~~0 : UInt64).toNat = 2 ^ 64 - 1 := rfl
      rw [hones, ← hvalue, hpow]
      push_cast
      ring
    · -- the ten groups have all bits of the word, so there is nothing to fill
      have hten : bs.length = 10 := by omega
      rw [if_neg fun h => hshort h.2]
      refine Prod.ext (ofNat_toInt64_eq (q := 64) ?_) rfl
      rw [← hvalue, hten]
      ring

/-- A SLEB128 number of 64 bits is read. -/
theorem readSleb128_sees {v : Int64} (h : Sees mem c (sleb v.toInt)) :
    (readSleb128 mem).run c = (v, c.behind (sleb v.toInt)) := by
  have hrange : -(64 * 128 ^ 9) ≤ v.toInt ∧ v.toInt < 64 * 128 ^ 9 := by
    have hlo := v.le_toInt
    have hhi := v.toInt_lt
    omega
  exact readSleb128_encodes (encodesSigned_sleb v.toInt) (length_sleb_le hrange) h

/-- Where the bytes end in the middle of a number, the loop stops at their end. -/
theorem readLebFrom_ends (hbs : ∀ b ∈ bs, 128 ≤ b.toNat) : ∀ {n shift : ℕ} {value : UInt64}
    {c : ParseCursor} {last : UInt8}, Sees mem c bs → c.data.toNat + bs.length = c.end_.toNat →
      bs.length ≤ n → ((readLebFrom mem n value shift last).run c).2 = c.behind bs := by
  induction bs with
  | nil =>
    intro n shift value c last _ hend _
    have hstop : c.data = c.end_ := UInt64.toNat_inj.mp hend
    -- at the end the byte read is 0, which ends the number
    have hread : (readU8 mem).run c = (0, c) := by
      have hno : ¬ cursorOk c 1 = true := by
        rw [cursorOk, hstop, UInt64.sub_self]
        decide
      exact if_neg hno
    cases n with
    | zero => exact behind_nil.symm
    | succ n =>
      rw [readLebFrom, StateT.run_bind, hread, behind_nil]
      change ((if (0 : UInt8) &&& 0x80 = 0 then (pure _ : Reader (UInt64 × ℕ × UInt8))
        else _).run c).2 = c
      rw [if_pos (by decide)]
      rfl
  | cons b bs ih =>
    intro n shift value c last hsees hend hn
    obtain ⟨hb, hbs⟩ := List.forall_mem_cons.mp hbs
    obtain ⟨n, rfl⟩ : ∃ m, n = m + 1 :=
      Nat.exists_eq_succ_of_ne_zero (Nat.ne_of_gt (Nat.lt_of_lt_of_le (Nat.succ_pos _) hn))
    obtain ⟨h₀, h'⟩ := sees_cons.mp hsees
    have hbyte := b.toNat_lt
    have htop : ¬ b &&& 0x80 = 0 := fun h => by
      have := (and_bit_eq_zero_iff 7 rfl).mp h
      omega
    rw [List.length_cons] at hend hn
    rw [readLebFrom, StateT.run_bind, readU8_sees h₀]
    change ((if b &&& 0x80 = 0 then (pure _ : Reader (UInt64 × ℕ × UInt8))
      else readLebFrom mem n _ (shift + 7) b).run _).2 = _
    rw [if_neg htop, ih hbs h' (by rw [h₀.toNat_behind, end_behind, List.length_singleton]; omega)
      (by omega)]
    exact (@behind_append c [b] bs).symm

/-- Both readers leave the cursor where their loop does. -/
theorem readLeb_cursor (c : ParseCursor) :
    ((readUleb128 mem).run c).2 = ((readLebFrom mem 10 0 0 0).run c).2 ∧
      ((readSleb128 mem).run c).2 = ((readLebFrom mem 10 0 0 0).run c).2 := by
  rw [readUleb128, readSleb128, StateT.run_bind, StateT.run_bind]
  obtain ⟨⟨value, shift, byte⟩, c'⟩ := (readLebFrom mem 10 0 0 0).run c
  refine ⟨rfl, ?_⟩
  change ((if _ ∧ _ then (pure _ : Reader Int64) else pure _).run c').2 = c'
  split <;> rfl

/-- The readers give back each number whose encoding has at most ten bytes, whatever follows it, and
leave the cursor right behind the encoding.  Where the bytes end in the middle of an encoding, they
leave it at the end, and on no bytes do they move it past that. -/
theorem leb_readers_invert (mem : Mem) (c : ParseCursor) :
    (∀ (n : UInt64) (bs rest : List UInt8), Encodes bs n.toNat → bs.length ≤ 10 →
      Sees mem c (bs ++ rest) →
        (readUleb128 mem).run c = (n, c.behind bs) ∧ Sees mem (c.behind bs) rest) ∧
    (∀ (n : Int64) (bs rest : List UInt8), EncodesSigned bs n.toInt → bs.length ≤ 10 →
      Sees mem c (bs ++ rest) →
        (readSleb128 mem).run c = (n, c.behind bs) ∧ Sees mem (c.behind bs) rest) ∧
    (∀ front back : List UInt8, Terminated (front ++ back) → back ≠ [] → front.length ≤ 10 →
      Sees mem c front → c.data.toNat + front.length = c.end_.toNat →
        ((readUleb128 mem).run c).2 = { c with data := c.end_ } ∧
          ((readSleb128 mem).run c).2 = { c with data := c.end_ }) ∧
    (c.data ≤ c.end_ → ((readUleb128 mem).run c).2.data ≤ c.end_ ∧
      ((readSleb128 mem).run c).2.data ≤ c.end_) := by
  refine ⟨fun n bs rest hbs hlen h => ?_, fun n bs rest hbs hlen h => ?_,
    fun front back hbs hback hlen h hend => ?_,
    fun h => ⟨(readUleb128_forward c h).2.2, (readSleb128_forward c h).2.2⟩⟩
  · obtain ⟨hsees, hrest⟩ := sees_append.mp h
    exact ⟨readUleb128_encodes hbs hlen hsees, hrest⟩
  · obtain ⟨hsees, hrest⟩ := sees_append.mp h
    exact ⟨readSleb128_encodes hbs hlen hsees, hrest⟩
  · have hbehind : c.behind front = { c with data := c.end_ } := by
      have hdata : (c.behind front).data = c.end_ :=
        UInt64.toNat_inj.mp (h.toNat_behind.trans hend)
      change ({ data := (c.behind front).data, end_ := c.end_ } : ParseCursor) = _
      rw [hdata]
    have hloop : ((readLebFrom mem 10 0 0 0).run c).2 = c.behind front :=
      readLebFrom_ends (hbs.continued rfl hback) h hend hlen
    obtain ⟨hu, hs⟩ := @readLeb_cursor mem c
    exact ⟨hu.trans (hloop.trans hbehind), hs.trans (hloop.trans hbehind)⟩

/-- 5 and -5 with a group more than they need, and the first two bytes of 5. -/
theorem leb_readers_invert_padded :
    (readUleb128 (Mem.write (fun _ => 0) 0x1000 [0x85, 0x80, 0, 7])).run
        { data := 0x1000, end_ := 0x1004 } = (5, { data := 0x1003, end_ := 0x1004 }) ∧
    (readSleb128 (Mem.write (fun _ => 0) 0x1000 [0xfb, 0xff, 0x7f, 7])).run
        { data := 0x1000, end_ := 0x1004 } = (-5, { data := 0x1003, end_ := 0x1004 }) ∧
    ((readUleb128 (Mem.write (fun _ => 0) 0x1000 [0x85, 0x80])).run
        { data := 0x1000, end_ := 0x1002 }).2 = { data := 0x1002, end_ := 0x1002 } := by
  have hterminated : Terminated [0x85, 0x80, 0] :=
    .more (by decide) (.more (by decide) (.last (by decide)))
  have hsigned : Terminated [0xfb, 0xff, 0x7f] :=
    .more (by decide) (.more (by decide) (.last (by decide)))
  refine ⟨?_, ?_, ?_⟩
  · exact ((leb_readers_invert _ { data := 0x1000, end_ := 0x1004 }).1 5 [0x85, 0x80, 0] [7]
      ⟨hterminated, by decide⟩ (by decide) ⟨by decide, by decide⟩).1
  · exact ((leb_readers_invert _ { data := 0x1000, end_ := 0x1004 }).2.1 (-5) [0xfb, 0xff, 0x7f] [7]
      ⟨hsigned, by decide⟩ (by decide) ⟨by decide, by decide⟩).1
  · exact ((leb_readers_invert _ { data := 0x1000, end_ := 0x1002 }).2.2.1 [0x85, 0x80] [0]
      hterminated (by decide) (by decide) ⟨by decide, by decide⟩ (by decide)).1

end Leb

end Debugger
