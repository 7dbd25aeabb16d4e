/-
The decoder of the debuggee's memory: `decode_x86_64_instruction` of `debugger.c`.

The decoder looks at the bytes that are left of a buffer, and says how many of them it has used
and what they are.  It uses at least one byte, and neither uses nor reads more than are left
(`decode_ensures`); what it reads and does not use belongs to a `.byte` (`decode_readsUsed`).  A
relative call or branch is printed with the address it goes to (`decode_relative`).
-/
import Debugger.Dwarfdump
import Debugger.Lib.Reading
import Debugger.Lib.TwosComplement

open Prog Reading

namespace Debugger

/-! ### The decoder -/

/-- `x86_reg64` -/
def x86Reg64 (reg : UInt32) : CStr :=
  ["%rax".toList, "%rcx".toList, "%rdx".toList, "%rbx".toList, "%rsp".toList, "%rbp".toList,
    "%rsi".toList, "%rdi".toList].getD (reg &&& 7).toNat []

/-- What an instruction has used of the bytes, and its text. -/
structure Insn where
  used : ℕ
  text : CStr := []
deriving DecidableEq

section Decoder

variable (bytes : ℕ → UInt8)

/-- The word at an offset, as it is put together from its bytes. -/
def u32Le (p : ℕ) : Reading UInt32 := do
  let b₀ ← byte bytes p
  let b₁ ← byte bytes (p + 1)
  let b₂ ← byte bytes (p + 2)
  let b₃ ← byte bytes (p + 3)
  return b₀.toUInt32 ||| b₁.toUInt32 <<< 8 ||| b₂.toUInt32 <<< 16 ||| b₃.toUInt32 <<< 24

/-- `read_i32_le` -/
def readI32Le (p : ℕ) : Reading Int64 := do
  let value ← u32Le bytes p
  return value.toInt32.toInt64

/-- `(int8_t)bytes[i]` in a sum of addresses. -/
def readI8 (p : ℕ) : Reading Int64 := do
  let value ← byte bytes p
  return value.toInt8.toInt64

/-- The mnemonics of opcode `83`, by the middle bits of its second byte. -/
def mnemonic83 (reg : UInt32) : Option CStr :=
  if reg = 0 then some "addq".toList
  else if reg = 4 then some "andq".toList
  else if reg = 5 then some "subq".toList
  else if reg = 7 then some "cmpq".toList
  else none

/-- The instructions behind the prefix `48`; `none` where the decoder goes on. -/
def decodePrefix48 (p len outLen : ℕ) : Reading (Option Insn) := do
  let op ← byte bytes (p + 1)
  let modrm ← byte bytes (p + 2)
  let mod := modrm.toUInt32 >>> 6 &&& 3
  let reg := modrm.toUInt32 >>> 3 &&& 7
  let rm := modrm.toUInt32 &&& 7
  if op = 0x89 ∧ mod = 3 then
    return some
      { used := 3
        text := snprintf outLen
          ("movq ".toList ++ x86Reg64 reg ++ ", ".toList ++ x86Reg64 rm) }
  if op = 0x8b ∧ mod = 3 then
    return some
      { used := 3
        text := snprintf outLen
          ("movq ".toList ++ x86Reg64 rm ++ ", ".toList ++ x86Reg64 reg) }
  match if op = 0x83 ∧ len ≥ 4 ∧ mod = 3 then mnemonic83 reg else none with
  | some mnemonic =>
    let imm ← byte bytes (p + 3)
    return some
      { used := 4
        text := snprintf outLen (mnemonic ++ " $0x".toList ++ Nat.toDigits 16 imm.toNat ++
          ", ".toList ++ x86Reg64 rm) }
  | none =>
    if op = 0xc7 ∧ len ≥ 7 ∧ mod = 3 ∧ reg = 0 then
      let imm ← u32Le bytes (p + 3)
      return some
        { used := 7
          text := snprintf outLen ("movq $0x".toList ++ Nat.toDigits 16 imm.toNat ++
            ", ".toList ++ x86Reg64 rm) }
    else return none

/-- A call or a branch to an address. -/
def branchTo (mnemonic : CStr) (target : Addr) : CStr :=
  mnemonic ++ " 0x".toList ++ Nat.toDigits 16 target.toNat

/-- The branches behind the prefix `0f`; `none` where the decoder goes on. -/
def decodePrefix0f (pc : Addr) (p outLen : ℕ) : Reading (Option Insn) := do
  let op ← byte bytes (p + 1)
  if op = 0x84 ∨ op = 0x85 then
    let target := pc + 6 + (← readI32Le bytes (p + 2)).toUInt64
    let mnemonic := if op = 0x84 then "je".toList else "jne".toList
    return some { used := 6, text := snprintf outLen (branchTo mnemonic target) }
  else return none

/-- `decode_x86_64_instruction`: the bytes are those at `p`, and `len` of them are left. -/
def decodeX8664Instruction (pc : Addr) (p len outLen : ℕ) : Reading Insn := do
  if len = 0 then return { used := 0 }
  let op ← byte bytes p
  if op = 0x55 then return { used := 1, text := snprintf outLen "pushq %rbp".toList }
  if op = 0x5d then return { used := 1, text := snprintf outLen "popq %rbp".toList }
  if op = 0xc3 then return { used := 1, text := snprintf outLen "retq".toList }
  if op = 0x90 then return { used := 1, text := snprintf outLen "nop".toList }
  if op = 0xcc then return { used := 1, text := snprintf outLen "int3".toList }
  if op = 0x6a ∧ len ≥ 2 then
    let imm ← byte bytes (p + 1)
    return { used := 2, text := snprintf outLen ("pushq $0x".toList ++ hexText 2 imm.toNat) }
  if op = 0xe8 ∧ len ≥ 5 then
    let target := pc + 5 + (← readI32Le bytes (p + 1)).toUInt64
    return { used := 5, text := snprintf outLen (branchTo "callq".toList target) }
  if op = 0xe9 ∧ len ≥ 5 then
    let target := pc + 5 + (← readI32Le bytes (p + 1)).toUInt64
    return { used := 5, text := snprintf outLen (branchTo "jmp".toList target) }
  if op = 0xeb ∧ len ≥ 2 then
    let target := pc + 2 + (← readI8 bytes (p + 1)).toUInt64
    return { used := 2, text := snprintf outLen (branchTo "jmp".toList target) }
  if (op = 0x74 ∨ op = 0x75) ∧ len ≥ 2 then
    let target := pc + 2 + (← readI8 bytes (p + 1)).toUInt64
    let mnemonic := if op = 0x74 then "je".toList else "jne".toList
    return { used := 2, text := snprintf outLen (branchTo mnemonic target) }
  let twoByte ← (if op = 0x0f ∧ len ≥ 6 then decodePrefix0f bytes pc p outLen else pure none)
  match twoByte with
  | some insn => return insn
  | none =>
    let wide ← (if op = 0x48 ∧ len ≥ 3 then decodePrefix48 bytes p len outLen else pure none)
    match wide with
    | some insn => return insn
    | none =>
      return { used := 1, text := snprintf outLen (".byte 0x".toList ++ hexText 2 op.toNat) }

end Decoder

/-! ### What the decoder reads -/

section Reads

variable {bytes : ℕ → UInt8} {lo hi p len : ℕ}

theorem u32Le_ensures (hlo : lo ≤ p) (hhi : p + 4 ≤ hi) :
    (u32Le bytes p).Ensures lo hi (· = UInt32.ofNat (number bytes p 4)) := by
  refine .bind (.byte hlo (by omega)) fun b₀ h₀ => .bind (.byte (by omega) (by omega)) fun b₁ h₁ =>
    .bind (.byte (by omega) (by omega)) fun b₂ h₂ => .bind (.byte (by omega) (by omega))
      fun b₃ h₃ => .pure ?_
  rw [toUInt32_or_shiftLeft, h₀, h₁, h₂, h₃]
  rfl

/-- The displacement of four bytes is the number they stand for. -/
theorem readI32Le_ensures (hlo : lo ≤ p) (hhi : p + 4 ≤ hi) :
    (readI32Le bytes p).Ensures lo hi (·.toInt = signed (2 ^ 31) (number bytes p 4)) := by
  refine .bind (u32Le_ensures hlo hhi) fun value hvalue => .pure ?_
  have hlt : number bytes p 4 < 2 ^ (31 + 1) := number_lt p 4
  rw [hvalue, Int32.toInt_toInt64]
  refine (toInt_eq_signed (BitVec.ofNat 32 (number bytes p 4))).trans ?_
  rw [BitVec.toNat_ofNat, Nat.mod_eq_of_lt hlt]

theorem readI8_ensures (hlo : lo ≤ p) (hhi : p < hi) :
    (readI8 bytes p).Ensures lo hi (·.toInt = signed (2 ^ 7) (number bytes p 1)) := by
  refine .bind (.byte hlo hhi) fun value hvalue => .pure ?_
  have hnumber : number bytes p 1 = value.toNat := by rw [hvalue]; rfl
  rw [Int8.toInt_toInt64, hnumber]
  exact toInt_eq_signed value.toBitVec

/-- Part of what is left is used. -/
def Insn.Fits (insn : Insn) (len : ℕ) : Prop := 1 ≤ insn.used ∧ insn.used ≤ len

theorem decodePrefix0f_ensures (pc : Addr) (outLen : ℕ) :
    (decodePrefix0f bytes pc p outLen).Ensures p (p + 6) (fun insn => ∀ i ∈ insn, i.used = 6) := by
  refine .bind (.byte (by omega) (by omega)) fun op _ => .ite (fun _ => ?_) fun _ => .pure (by simp)
  refine .bind (readI32Le_ensures (by omega) (by omega)) fun disp _ => .pure ?_
  rintro insn ⟨⟩
  rfl

theorem decodePrefix48_ensures (outLen : ℕ) (hlen : 3 ≤ len) :
    (decodePrefix48 bytes p len outLen).Ensures p (p + len)
      (fun insn => ∀ i ∈ insn, 3 ≤ i.used ∧ i.used ≤ len) := by
  refine .bind (.byte (by omega) (by omega)) fun op _ =>
    .bind (.byte (by omega) (by omega)) fun modrm _ => ?_
  refine .ite (fun _ => .pure ?_) fun _ => .ite (fun _ => .pure ?_) fun _ => ?_
  · rintro insn ⟨⟩
    exact ⟨Nat.le_refl 3, hlen⟩
  · rintro insn ⟨⟩
    exact ⟨Nat.le_refl 3, hlen⟩
  split
  · -- a mnemonic is only looked up where a fourth byte is left
    rename_i mnemonic hmnemonic
    have hfour : 4 ≤ len := by
      by_contra hshort
      rw [if_neg fun h => hshort h.2.1] at hmnemonic
      exact nomatch hmnemonic
    refine .bind (.byte (by omega) (by omega)) fun imm _ => .pure ?_
    rintro insn ⟨⟩
    exact ⟨Nat.le_succ 3, hfour⟩
  · refine .ite (fun h => ?_) fun _ => .pure (by simp)
    have hseven : 7 ≤ len := h.2.1
    refine .bind (u32Le_ensures (by omega) (by omega)) fun imm _ => .pure ?_
    rintro insn ⟨⟩
    exact ⟨Nat.le_add_right 3 4, hseven⟩

/-- The decoder uses at least one byte, and it neither uses nor reads more than is left. -/
theorem decode_ensures (pc : Addr) (outLen : ℕ) (hlen : 1 ≤ len) :
    (decodeX8664Instruction bytes pc p len outLen).Ensures p (p + len) (·.Fits len) := by
  have hone : ∀ text, ({ used := 1, text := text } : Insn).Fits len := fun _ =>
    ⟨Nat.le_refl 1, hlen⟩
  refine .ite (fun h => absurd h (by omega)) fun _ =>
    .bind (.byte (Nat.le_refl p) (by omega)) fun op _ => ?_
  refine .ite (fun _ => .pure (hone _)) fun _ => .ite (fun _ => .pure (hone _)) fun _ =>
    .ite (fun _ => .pure (hone _)) fun _ => .ite (fun _ => .pure (hone _)) fun _ =>
    .ite (fun _ => .pure (hone _)) fun _ => ?_
  -- one byte or one displacement behind the opcode, where there is room for it
  refine .ite (fun ⟨_, h⟩ => .bind (.byte (by omega) (by omega)) fun _ _ =>
    .pure ⟨Nat.succ_pos 1, h⟩) fun _ => ?_
  refine .ite (fun ⟨_, h⟩ => .bind (readI32Le_ensures (by omega) (by omega)) fun _ _ =>
    .pure ⟨Nat.succ_pos 4, h⟩) fun _ => ?_
  refine .ite (fun ⟨_, h⟩ => .bind (readI32Le_ensures (by omega) (by omega)) fun _ _ =>
    .pure ⟨Nat.succ_pos 4, h⟩) fun _ => ?_
  refine .ite (fun ⟨_, h⟩ => .bind (readI8_ensures (by omega) (by omega)) fun _ _ =>
    .pure ⟨Nat.succ_pos 1, h⟩) fun _ => ?_
  refine .ite (fun ⟨_, h⟩ => .bind (readI8_ensures (by omega) (by omega)) fun _ _ =>
    .pure ⟨Nat.succ_pos 1, h⟩) fun _ => ?_
  have htwoByte : (if op = 0x0f ∧ len ≥ 6 then decodePrefix0f bytes pc p outLen
      else pure none).Ensures p (p + len) (fun insn => ∀ i ∈ insn, i.Fits len) := by
    refine .ite (fun h => ?_) fun _ => .pure (by simp)
    have hroom : p + 6 ≤ p + len := Nat.add_le_add_left h.2 p
    refine ((decodePrefix0f_ensures pc outLen).widen (Nat.le_refl p) hroom).mono ?_
    intro insn hinsn i hi
    have hsix := hinsn i hi
    exact ⟨by omega, by omega⟩
  have hwide : (if op = 0x48 ∧ len ≥ 3 then decodePrefix48 bytes p len outLen
      else pure none).Ensures p (p + len) (fun insn => ∀ i ∈ insn, i.Fits len) := by
    refine .ite (fun h => ?_) fun _ => .pure (by simp)
    refine (decodePrefix48_ensures outLen h.2).mono ?_
    intro insn hinsn i hi
    obtain ⟨hthree, hle⟩ := hinsn i hi
    exact ⟨by omega, hle⟩
  refine .bind htwoByte fun twoByte h₁ => ?_
  cases twoByte with
  | some insn => exact .pure (h₁ insn rfl)
  | none =>
    refine .bind hwide fun wide h₂ => ?_
    cases wide with
    | some insn => exact .pure (h₂ insn rfl)
    | none => exact .pure (hone _)

/-- Nothing behind the used bytes is read, unless a single byte is used. -/
def ReadsUsed {α : Type} (used : α → ℕ) (r : Reading α) (p : ℕ) : Prop :=
  used r.value = 1 ∨ r.Inside (p + used r.value)

section ReadsUsed

variable {α β : Type} {used : α → ℕ}

theorem readsUsed_pure {a : α} : ReadsUsed used (pure a) p := .inr (inside_pure a)

theorem readsUsed_ite {c : Prop} [Decidable c] {r r' : Reading α} (h : c → ReadsUsed used r p)
    (h' : ¬c → ReadsUsed used r' p) : ReadsUsed used (if c then r else r') p := by
  split
  case isTrue hc => exact h hc
  case isFalse hc => exact h' hc

/-- What is read first is used by what comes of it. -/
theorem readsUsed_bind {r : Reading β} {f : β → Reading α} {n : ℕ} (hr : r.Inside (p + n))
    (hn : used (f r.value).value = 1 ∨ n ≤ used (f r.value).value)
    (hf : ReadsUsed used (f r.value) p) : ReadsUsed used (r >>= f) p := by
  rcases hf with hone | hf
  · exact .inl hone
  · refine hn.imp id fun hn => (inside_bind r f).mpr ⟨fun q hq => ?_, hf⟩
    exact Nat.lt_of_lt_of_le (hr q hq) (Nat.add_le_add_left hn p)

end ReadsUsed

/-- An instruction that is not recognised is printed as one byte. -/
def usedOf (insn : Option Insn) : ℕ := insn.elim 1 Insn.used

theorem decodePrefix48_readsUsed (outLen : ℕ) (hlen : 3 ≤ len) :
    ReadsUsed usedOf (decodePrefix48 bytes p len outLen) p := by
  have hused : usedOf (decodePrefix48 bytes p len outLen).value = 1 ∨
      3 ≤ usedOf (decodePrefix48 bytes p len outLen).value := by
    have hfits := (@decodePrefix48_ensures bytes p len outLen hlen).value
    cases h : (decodePrefix48 bytes p len outLen).value with
    | none => exact .inl rfl
    | some insn => exact .inr (hfits insn h).1
  refine readsUsed_bind (n := 3) ((inside_byte _).mpr (by omega)) hused
    (readsUsed_bind (n := 3) ((inside_byte _).mpr (by omega)) hused ?_)
  refine readsUsed_ite (fun _ => readsUsed_pure) fun _ => readsUsed_ite (fun _ => readsUsed_pure)
    fun _ => ?_
  split
  · exact readsUsed_bind (n := 4) ((inside_byte _).mpr (by omega)) (.inr (Nat.le_refl 4))
      readsUsed_pure
  · refine readsUsed_ite (fun _ => ?_) fun _ => readsUsed_pure
    have himm : (u32Le bytes (p + 3)).Inside (p + 7) := fun q hq =>
      ((u32Le_ensures (Nat.le_refl (p + 3)) (Nat.le_refl _)).reads q hq).2
    exact readsUsed_bind (n := 7) himm (.inr (Nat.le_refl 7)) readsUsed_pure

theorem decodePrefix0f_readsUsed (pc : Addr) (outLen : ℕ) :
    ReadsUsed usedOf (decodePrefix0f bytes pc p outLen) p := by
  have hbytes := @decodePrefix0f_ensures bytes p pc outLen
  cases h : (decodePrefix0f bytes pc p outLen).value with
  | none => exact .inl (by rw [h]; rfl)
  | some insn =>
    refine .inr fun q hq => ?_
    rw [h, usedOf, Option.elim_some, hbytes.value insn h]
    exact (hbytes.reads q hq).2

/-- The decoder goes on to a single byte where it does not recognise what it looks at. -/
theorem readsUsed_match {r : Reading (Option Insn)} {rest : Reading Insn}
    (hr : ReadsUsed usedOf r p) (hrest : rest.value.used = 1) :
    ReadsUsed Insn.used (r >>= fun insn => match insn with
      | some insn => pure insn
      | none => rest) p := by
  cases h : r.value with
  | some insn =>
    rw [ReadsUsed, h] at hr
    refine hr.imp (fun hone => ?_) fun hin => ?_
    · rw [value_bind, h]
      exact hone
    · rw [value_bind, inside_bind, h]
      exact ⟨hin, inside_pure insn⟩
  | none =>
    refine .inl ?_
    rw [value_bind, h]
    exact hrest

/-- What the decoder reads it has used, unless it prints a single byte. -/
theorem decode_readsUsed (pc : Addr) (outLen : ℕ) (hlen : 1 ≤ len) :
    ReadsUsed Insn.used (decodeX8664Instruction bytes pc p len outLen) p := by
  have hpos := (@decode_ensures bytes p len pc outLen hlen).value.1
  have hsmall : (readI8 bytes (p + 1)).Inside (p + 2) := fun q hq =>
    ((readI8_ensures (Nat.le_refl (p + 1)) (Nat.lt_succ_self _)).reads q hq).2
  have hlarge : (readI32Le bytes (p + 1)).Inside (p + 5) := fun q hq =>
    ((readI32Le_ensures (Nat.le_refl (p + 1)) (Nat.le_refl _)).reads q hq).2
  refine readsUsed_ite (fun h => absurd h (by omega)) fun hlen0 =>
    readsUsed_bind (n := 1) (by simp) ?_ ?_
  · rw [decodeX8664Instruction, if_neg hlen0] at hpos
    exact .inr hpos
  rw [value_byte]
  refine readsUsed_ite (fun _ => readsUsed_pure) fun _ => readsUsed_ite (fun _ => readsUsed_pure)
    fun _ => readsUsed_ite (fun _ => readsUsed_pure) fun _ => readsUsed_ite
    (fun _ => readsUsed_pure) fun _ => readsUsed_ite (fun _ => readsUsed_pure) fun _ => ?_
  refine readsUsed_ite (fun _ => readsUsed_bind (n := 2) (by simp) (.inr (Nat.le_refl 2))
    readsUsed_pure) fun _ => ?_
  refine readsUsed_ite (fun _ => readsUsed_bind (n := 5) hlarge (.inr (Nat.le_refl 5))
    readsUsed_pure) fun _ => ?_
  refine readsUsed_ite (fun _ => readsUsed_bind (n := 5) hlarge (.inr (Nat.le_refl 5))
    readsUsed_pure) fun _ => ?_
  refine readsUsed_ite (fun _ => readsUsed_bind (n := 2) hsmall (.inr (Nat.le_refl 2))
    readsUsed_pure) fun _ => ?_
  refine readsUsed_ite (fun _ => readsUsed_bind (n := 2) hsmall (.inr (Nat.le_refl 2))
    readsUsed_pure) fun _ => ?_
  by_cases h0f : bytes p = 0x0f ∧ len ≥ 6
  · have h48 : ¬(bytes p = 0x48 ∧ len ≥ 3) := fun h => absurd (h.1.symm.trans h0f.1) (by decide)
    rw [if_pos h0f]
    refine readsUsed_match (decodePrefix0f_readsUsed pc outLen) ?_
    rw [if_neg h48]
    rfl
  · rw [if_neg h0f]
    refine readsUsed_bind (n := 0) (inside_pure none) (.inr (Nat.zero_le _)) ?_
    refine readsUsed_match (readsUsed_ite (fun h => ?_) fun _ => readsUsed_pure) rfl
    exact decodePrefix48_readsUsed outLen h.2

/-- The byte behind a `0f` is looked at, and is the next line's. -/
example : (decodeX8664Instruction (fun i => [0x0f, 0x1f].getD i 0) 0 0 6 128).value.used = 1 ∧
    (decodeX8664Instruction (fun i => [0x0f, 0x1f].getD i 0) 0 0 6 128).reads = [0, 1] :=
  ⟨rfl, rfl⟩

end Reads

/-! ### Calls and branches to relative addresses -/

/-- A form of a relative call or branch: its opcode, its mnemonic and how many bytes its
displacement has. -/
structure RelForm where
  opcode : List UInt8
  mnemonic : CStr
  dispSize : ℕ

/-- The forms the decoder knows. -/
def oneByteForms : List RelForm :=
  [⟨[0xe8], "callq".toList, 4⟩, ⟨[0xe9], "jmp".toList, 4⟩, ⟨[0xeb], "jmp".toList, 1⟩,
    ⟨[0x74], "je".toList, 1⟩, ⟨[0x75], "jne".toList, 1⟩]

def twoByteForms : List RelForm :=
  [⟨[0x0f, 0x84], "je".toList, 4⟩, ⟨[0x0f, 0x85], "jne".toList, 4⟩]

def relForms : List RelForm := oneByteForms ++ twoByteForms

namespace RelForm

variable (f : RelForm) (bytes : ℕ → UInt8) (p : ℕ)

def size : ℕ := f.opcode.length + f.dispSize

/-- The number that the displacement of the form stands for. -/
def disp : ℤ :=
  signed (2 ^ (8 * f.dispSize - 1)) (number bytes (p + f.opcode.length) f.dispSize)

/-- How the decoder reads the displacement. -/
def readDisp : Reading Int64 :=
  if f.dispSize = 1 then readI8 bytes (p + f.opcode.length)
  else readI32Le bytes (p + f.opcode.length)

/-- The bytes at `p` begin with the opcode, and enough of them are left. -/
structure Recognised (len : ℕ) : Prop where
  opcode : (slice bytes p f.opcode.length).value = f.opcode
  room : f.size ≤ len

end RelForm

section Relative

variable {bytes : ℕ → UInt8} {p len : ℕ} {f : RelForm}

/-- A sum of addresses is one of numbers modulo `2 ^ 64`, a negative displacement included. -/
theorem toNat_add_disp (pc n : Addr) (d : Int64) :
    ((pc + n + d.toUInt64).toNat : ℤ) = (pc.toNat + n.toNat + d.toInt) % 2 ^ 64 := by
  have hd : (d.toUInt64.toNat : ℤ) = d.toInt % 2 ^ 64 := by
    have hlt := d.toUInt64.toNat_lt
    have hint : d.toInt = signed (2 ^ 63) d.toUInt64.toNat := toInt_eq_signed d.toBitVec
    rw [hint, signed]
    split <;> omega
  rw [UInt64.toNat_add, UInt64.toNat_add]
  omega

theorem relForms_dispSize : ∀ f ∈ relForms, f.dispSize = 1 ∨ f.dispSize = 4 := by
  simp [relForms, oneByteForms, twoByteForms]

theorem relForms_size : ∀ f ∈ relForms, 0 < f.size ∧ f.size < 2 ^ 64 := by
  simp [relForms, oneByteForms, twoByteForms, RelForm.size]

theorem toInt_readDisp (hf : f ∈ relForms) (bytes : ℕ → UInt8) (p : ℕ) :
    (f.readDisp bytes p).value.toInt = f.disp bytes p := by
  rw [RelForm.readDisp, RelForm.disp]
  rcases relForms_dispSize f hf with h | h <;> rw [h]
  · exact (readI8_ensures (Nat.le_refl _) (Nat.lt_succ_self _)).value
  · exact (readI32Le_ensures (Nat.le_refl _) (Nat.le_refl _)).value

/-- A form is printed with the sum of the address behind it and its displacement. -/
theorem value_decode_oneByte (hf : f ∈ oneByteForms) (h : f.Recognised bytes p len) (pc : Addr)
    (outLen : ℕ) : (decodeX8664Instruction bytes pc p len outLen).value =
      { used := f.size
        text := snprintf outLen (branchTo f.mnemonic
          (pc + UInt64.ofNat f.size + (f.readDisp bytes p).value.toUInt64)) } := by
  obtain ⟨hopcode, hroom⟩ := h
  obtain ⟨m, rfl⟩ := Nat.exists_eq_add_of_le' hroom
  have hpos := (relForms_size f (List.mem_append_left _ hf)).1
  rw [decodeX8664Instruction, if_neg (by omega), value_bind, value_byte]
  simp only [oneByteForms, List.mem_cons, List.not_mem_nil, or_false] at hf
  rcases hf with rfl | rfl | rfl | rfl | rfl
  all_goals
    have hop : bytes p = _ := (List.cons.inj hopcode).1
    rw [hop]
    rfl

theorem value_decode_twoByte (hf : f ∈ twoByteForms) (h : f.Recognised bytes p len) (pc : Addr)
    (outLen : ℕ) : (decodeX8664Instruction bytes pc p len outLen).value =
      { used := f.size
        text := snprintf outLen (branchTo f.mnemonic
          (pc + UInt64.ofNat f.size + (f.readDisp bytes p).value.toUInt64)) } := by
  obtain ⟨hopcode, hroom⟩ := h
  obtain ⟨m, rfl⟩ := Nat.exists_eq_add_of_le' hroom
  have hpos := (relForms_size f (List.mem_append_right _ hf)).1
  rw [decodeX8664Instruction, if_neg (by omega), value_bind, value_byte]
  simp only [twoByteForms, List.mem_cons, List.not_mem_nil, or_false] at hf
  rcases hf with rfl | rfl
  all_goals
    have hop : bytes p = 0x0f := (List.cons.inj hopcode).1
    have hop' : bytes (p + 1) = _ := (List.cons.inj (List.cons.inj hopcode).2).1
    rw [hop]
    change (match (decodePrefix0f bytes pc p outLen).value with
      | some insn => pure insn
      | none => _ : Reading Insn).value = _
    rw [decodePrefix0f, value_bind, value_byte, hop']
    rfl

/-- A relative form is printed with the address its displacement leads to from behind it. -/
theorem decode_relative (hf : f ∈ relForms) (h : f.Recognised bytes p len) (pc : Addr)
    (outLen : ℕ) : ∃ target : Addr,
      (target.toNat : ℤ) = (pc.toNat + f.size + f.disp bytes p) % 2 ^ 64 ∧
      (decodeX8664Instruction bytes pc p len outLen).value =
        { used := f.size, text := snprintf outLen (branchTo f.mnemonic target) } := by
  refine ⟨pc + UInt64.ofNat f.size + (f.readDisp bytes p).value.toUInt64, ?_, ?_⟩
  · rw [toNat_add_disp, UInt64.toNat_ofNat_of_lt' (relForms_size f hf).2, toInt_readDisp hf]
  · rcases List.mem_append.mp hf with hf | hf
    · exact value_decode_oneByte hf h pc outLen
    · exact value_decode_twoByte hf h pc outLen

theorem length_branchTo {mnemonic : CStr} (h : mnemonic.length ≤ 5) (target : Addr) :
    (branchTo mnemonic target).length ≤ 24 := by
  have hdigits : (Nat.toDigits 16 target.toNat).length ≤ 16 :=
    (Nat.length_toDigits_le_iff (by decide) (by decide)).mpr target.toNat_lt
  have hzero : " 0x".toList.length = 3 := rfl
  rw [branchTo, List.length_append, List.length_append, hzero]
  omega

theorem relForms_mnemonic : ∀ f ∈ relForms, f.mnemonic.length ≤ 5 := by
  simp [relForms, oneByteForms, twoByteForms]

end Relative

end Debugger
