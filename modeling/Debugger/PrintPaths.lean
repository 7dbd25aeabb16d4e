/-
The two ways in which `print` shows a scalar.

`print e` shows an lvalue with its size and its sign; `print +e` shows what
`cdbg_ast_eval` makes of it, a signed number of 64 bits.  Both are read off the bytes of
the debuggee's memory as numbers (`ofBits`), and `print_agrees_iff` says for which bytes
they are the same: `cdbg_ast_eval` does not extend a negative number, and it reads eight
bytes behind a pointer.
-/
import Debugger.AstEval
import Debugger.Lib.LittleEndian
import Mathlib.Data.Nat.Bitwise

open Prog

namespace Debugger

/-! ### Numbers -/

/-- The number with the given bits, as a value of the size. -/
def ofBits (isSigned : Bool) (size n : ℕ) : Int :=
  if isSigned ∧ 256 ^ size ≤ 2 * n then n - (256 ^ size : ℕ) else n

/-- The sizes of integer scalars. -/
def IsScalarSize (size : ℕ) : Prop := size = 1 ∨ size = 2 ∨ size = 4 ∨ size = 8

theorem IsScalarSize.width {size : ℕ} (h : IsScalarSize size) : 0 < size ∧ size ≤ 8 := by
  rcases h with rfl | rfl | rfl | rfl <;> decide

section Numbers

variable {v : UInt64} {k size : ℕ}

theorem valueOf_toNat : ∀ {bytes : List UInt8}, bytes.length ≤ 8 →
    (valueOf bytes).toNat = leNat bytes := by
  intro bytes
  induction bytes with
  | nil =>
    intro _
    rfl
  | cons b bs ih =>
    intro h
    rw [List.length_cons] at h
    have hbs := ih (by omega)
    have hlt := leNat_lt bs
    have hpow : 256 ^ bs.length ≤ 256 ^ 7 := Nat.pow_le_pow_right (by decide) (by omega)
    have hb := b.toNat_lt
    show (valueOf bs <<< 8 ||| b.toUInt64).toNat = b.toNat + 256 * leNat bs
    rw [UInt64.toNat_or, UInt64.toNat_shiftLeft, hbs]
    have hshift : leNat bs <<< 8 % 2 ^ 64 = leNat bs <<< 8 := by
      refine Nat.mod_eq_of_lt ?_
      rw [Nat.shiftLeft_eq]
      omega
    show leNat bs <<< 8 % 2 ^ 64 ||| b.toNat = _
    rw [hshift, ← Nat.shiftLeft_add_eq_or_of_lt (by omega : b.toNat < 2 ^ 8), Nat.shiftLeft_eq]
    omega

theorem and_mask (hv : v.toNat < 2 ^ k) (hk : k < 64) : v &&& UInt64.ofNat (2 ^ k - 1) = v := by
  have hpow : 2 ^ k < 2 ^ 64 := Nat.pow_lt_pow_right (by decide) hk
  rw [← UInt64.toNat_inj, UInt64.toNat_and, UInt64.toNat_ofNat', Nat.mod_eq_of_lt (by omega),
    Nat.and_two_pow_sub_one_of_lt_two_pow hv]

theorem and_sign (hv : v.toNat < 2 ^ (k + 1)) (hk : k < 64) :
    v &&& UInt64.ofNat (2 ^ k) ≠ 0 ↔ 2 ^ k ≤ v.toNat := by
  have hpow : 2 ^ k < 2 ^ 64 := Nat.pow_lt_pow_right (by decide) hk
  have hpos : 0 < 2 ^ k := Nat.two_pow_pos k
  rw [ne_eq, ← UInt64.toNat_inj, UInt64.toNat_and, UInt64.toNat_ofNat', Nat.mod_eq_of_lt hpow,
    Nat.and_two_pow, Nat.testBit_eq_decide_div_mod_eq]
  rw [Nat.pow_succ] at hv
  by_cases h : 2 ^ k ≤ v.toNat
  · have hdiv : v.toNat / 2 ^ k = 1 := by
      refine Nat.div_eq_of_lt_le (by omega) (by omega)
    simp [hdiv, h]
  · have hdiv : v.toNat / 2 ^ k = 0 := Nat.div_eq_of_lt (by omega)
    simp [hdiv, h]

theorem or_high (hv : v.toNat < 2 ^ k) (hk : k < 64) :
    (v ||| UInt64.ofNat (2 ^ 64 - 2 ^ k)).toNat = v.toNat + (2 ^ 64 - 2 ^ k) := by
  have hpos : 0 < 2 ^ k := Nat.two_pow_pos k
  have hsplit : 2 ^ 64 - 2 ^ k = (2 ^ (64 - k) - 1) <<< k := by
    rw [Nat.shiftLeft_eq, Nat.sub_mul, ← Nat.pow_add, Nat.sub_add_cancel (by omega), Nat.one_mul]
  rw [UInt64.toNat_or, UInt64.toNat_ofNat', Nat.mod_eq_of_lt (by omega), hsplit,
    Nat.or_comm, ← Nat.shiftLeft_add_eq_or_of_lt hv, Nat.add_comm]

theorem toInt_toInt64 (v : UInt64) : v.toInt64.toInt = ofBits true 8 v.toNat := by
  show v.toBitVec.toInt = _
  rw [BitVec.toInt, ofBits]
  show (if 2 * v.toNat < 2 ^ 64 then _ else _) = _
  split
  · rw [if_neg (by simp; omega)]
    rfl
  · rw [if_pos (by simp; omega)]
    rfl

theorem maskToSize_eq (hsize : 0 < size ∧ size ≤ 8) (hv : v.toNat < 256 ^ size) :
    maskToSize v size = v := by
  obtain rfl | rfl | rfl | rfl | rfl | rfl | rfl | rfl : size = 1 ∨ size = 2 ∨ size = 3 ∨
    size = 4 ∨ size = 5 ∨ size = 6 ∨ size = 7 ∨ size = 8 := by omega
  · exact and_mask (k := 8) hv (by decide)
  · exact and_mask (k := 16) hv (by decide)
  · exact and_mask (k := 24) hv (by decide)
  · exact and_mask (k := 32) hv (by decide)
  · exact and_mask (k := 40) hv (by decide)
  · exact and_mask (k := 48) hv (by decide)
  · exact and_mask (k := 56) hv (by decide)
  · rfl

/-- `sign_extend_value` below eight bytes, with its mask and its sign bit written out. -/
theorem extend_eq (hv : v.toNat < 2 ^ (k + 1)) (hk : k < 63) :
    (if v &&& UInt64.ofNat (2 ^ (k + 1) - 1) &&& UInt64.ofNat (2 ^ k) ≠ 0 then
      v &&& UInt64.ofNat (2 ^ (k + 1) - 1) ||| UInt64.ofNat (2 ^ 64 - 2 ^ (k + 1))
      else v &&& UInt64.ofNat (2 ^ (k + 1) - 1)).toInt64.toInt =
      if 2 ^ k ≤ v.toNat then (v.toNat : Int) - (2 ^ (k + 1) : ℕ) else v.toNat := by
  have hpow : 2 ^ (k + 1) ≤ 2 ^ 63 := Nat.pow_le_pow_right (by decide) (by omega)
  rw [and_mask hv (by omega)]
  by_cases h : 2 ^ k ≤ v.toNat
  · rw [if_pos ((and_sign hv (by omega)).mpr h), if_pos h, toInt_toInt64, or_high hv (by omega),
      ofBits, if_pos ⟨rfl, by omega⟩]
    omega
  · rw [if_neg (mt (and_sign hv (by omega)).mp h), if_neg h, toInt_toInt64, ofBits,
      if_neg (by omega)]

theorem signExtendValue_eq (hsize : 0 < size ∧ size ≤ 8) (hv : v.toNat < 256 ^ size) :
    (signExtendValue v size).toInt = ofBits true size v.toNat := by
  have hbits : ∀ {k : ℕ}, v.toNat < 2 ^ (k + 1) → 256 ^ size = 2 ^ (k + 1) →
      (if 2 ^ k ≤ v.toNat then (v.toNat : Int) - (2 ^ (k + 1) : ℕ) else v.toNat) =
        ofBits true size v.toNat := by
    intro k _ hpow
    rw [ofBits, hpow, Nat.pow_succ]
    by_cases h : 2 ^ k ≤ v.toNat
    · rw [if_pos h, if_pos ⟨rfl, by omega⟩]
    · rw [if_neg h, if_neg (by omega)]
  obtain rfl | rfl | rfl | rfl | rfl | rfl | rfl | rfl : size = 1 ∨ size = 2 ∨ size = 3 ∨
    size = 4 ∨ size = 5 ∨ size = 6 ∨ size = 7 ∨ size = 8 := by omega
  · exact (extend_eq (k := 7) hv (by decide)).trans (hbits hv rfl)
  · exact (extend_eq (k := 15) hv (by decide)).trans (hbits hv rfl)
  · exact (extend_eq (k := 23) hv (by decide)).trans (hbits hv rfl)
  · exact (extend_eq (k := 31) hv (by decide)).trans (hbits hv rfl)
  · exact (extend_eq (k := 39) hv (by decide)).trans (hbits hv rfl)
  · exact (extend_eq (k := 47) hv (by decide)).trans (hbits hv rfl)
  · exact (extend_eq (k := 55) hv (by decide)).trans (hbits hv rfl)
  · exact toInt_toInt64 v

/-- A value of a scalar's size is shown with its sign. -/
theorem printScalarResultFmt_eq {isSigned : Bool} (hsize : IsScalarSize size)
    (hv : v.toNat < 256 ^ size) :
    printScalarResultFmt v size isSigned false false = .number (ofBits isSigned size v.toNat) := by
  rw [printScalarResultFmt, maskToSize_eq hsize.width hv]
  cases isSigned with
  | true => simp [signExtendValue_eq hsize.width hv]
  | false => simp [ofBits]

end Numbers

/-! ### The two paths -/

section Paths

variable {env : EvalEnv} {e : Ast} {addr : Addr} {var : VarInfo}

/-- The number that the bytes from the address on represent. -/
def EvalEnv.number (env : EvalEnv) (addr : Addr) (size : ℕ) : ℕ := leNat (env.mem.read addr size)

theorem number_lt (size : ℕ) : env.number addr size < 256 ^ size := by
  have h := leNat_lt (env.mem.read addr size)
  rwa [show (env.mem.read addr size).length = size by simp [Mem.read]] at h

/-- A size of one to eight bytes is the width of its scalars. -/
theorem scalarWidth_eq {size : ℕ} (hsize : 0 < size ∧ size ≤ 8) : scalarWidth size = size :=
  if_neg (by omega)

theorem readScalarValue_eq {size : ℕ} (hsize : 0 < size ∧ size ≤ 8)
    (hread : env.readableAt addr size = true) :
    ∃ v, readScalarValue env addr size = some v ∧ v.toNat = env.number addr size := by
  refine ⟨valueOf (env.mem.read addr size), ?_, valueOf_toNat ?_⟩
  · rw [readScalarValue, scalarWidth_eq hsize, EvalEnv.memRead, if_pos hread]
    rfl
  · rw [Mem.read, List.length_map, List.length_range]
    exact hsize.2

/-- The variable is an integer scalar that is not a pointer. -/
structure IntegerScalar (env : EvalEnv) (var : VarInfo) : Prop where
  notArray : var.isArray = false
  notPointer : var.isPointer = false
  notStruct : typeIsScalar var.type = true ∨ env.isStruct var.type = false
  size : IsScalarSize var.size

/-- `print e` shows the bytes of `e` with their size and sign. -/
theorem printAst_lvalue (hshape : cdbgAstIsLvalueShaped e = true)
    (hres : cdbgAstResolveLvalue env e = some (addr, var)) (hvar : IntegerScalar env var)
    (hread : env.readableAt addr var.size = true) :
    printAst env e = some (.number (ofBits var.isSigned var.size (env.number addr var.size))) := by
  obtain ⟨v, hv, hnumber⟩ := readScalarValue_eq hvar.size.width hread
  have hstruct : (!var.isPointer && !typeIsScalar var.type && env.isStruct var.type) = false := by
    rcases hvar.notStruct with h | h <;> simp [h]
  have hshown := @printScalarResultFmt_eq _ _ var.isSigned hvar.size
    (hnumber ▸ number_lt var.size)
  rw [printAst, if_pos hshape, hres]
  simp only [Option.bind_eq_bind, Option.bind_some, hvar.notArray, hstruct, hv]
  rw [hvar.notPointer, hshown, hnumber]
  rfl

/-- `print +e` shows what `cdbg_ast_eval` makes of `e`, as a signed number of eight bytes. -/
theorem printAst_pos : printAst env (.unop .pos e) =
    (cdbgAstEval env e).map fun r => printScalarResultFmt r.value 8 true false r.isAddress := by
  rw [printAst, if_neg (by simp [cdbgAstIsLvalueShaped]), cdbgAstEval]
  cases cdbgAstEval env e <;> rfl

/-- The sign bit of the scalar at the address is set. -/
def EvalEnv.SignBit (env : EvalEnv) (addr : Addr) (size : ℕ) : Prop :=
  256 ^ size ≤ 2 * env.number addr size

instance (env : EvalEnv) (addr : Addr) (size : ℕ) : Decidable (env.SignBit addr size) :=
  inferInstanceAs (Decidable (_ ≤ _))

/-- The bytes behind a scalar up to the eighth: zero, or 255 behind a negative number. -/
def EvalEnv.Extended (env : EvalEnv) (addr : Addr) (var : VarInfo) : Prop :=
  if var.isSigned ∧ env.SignBit addr var.size then
    ∀ b ∈ env.mem.read (addr + UInt64.ofNat var.size) (8 - var.size), b = 255
  else ∀ b ∈ env.mem.read (addr + UInt64.ofNat var.size) (8 - var.size), b = 0

/-- The contents of memory for which both paths show the same number.  A value without its
sign bit is the same in all readings; behind a pointer eight bytes are read. -/
def PathsAgree (env : EvalEnv) (e : Ast) (addr : Addr) (var : VarInfo) : Prop :=
  match e with
  | .unop .deref _ =>
    env.readableAt addr 8 = true ∧ env.Extended addr var ∧
      (env.SignBit addr var.size → var.isSigned = true ∨ var.size < 8)
  | _ => env.SignBit addr var.size → (var.isSigned = true ↔ var.size = 8)

theorem Mem.read_append (m : Mem) (addr : Addr) (j k : ℕ) :
    m.read addr (j + k) = m.read addr j ++ m.read (addr + UInt64.ofNat j) k := by
  simp only [Mem.read, List.range_add, List.map_append, List.map_map]
  refine congrArg _ (List.map_congr_left fun i _ => ?_)
  simp [UInt64.add_assoc]

/-- The eight bytes are those of the scalar and those behind it. -/
theorem number_eight {size : ℕ} (hsize : size ≤ 8) :
    env.number addr 8 = env.number addr size +
      256 ^ size * leNat (env.mem.read (addr + UInt64.ofNat size) (8 - size)) := by
  have hread : env.mem.read addr 8 = env.mem.read addr size ++
      env.mem.read (addr + UInt64.ofNat size) (8 - size) := by
    rw [← Mem.read_append, Nat.add_sub_cancel' hsize]
  rw [EvalEnv.number, hread, leNat_append]
  simp [EvalEnv.number, Mem.read]

/-- All bytes of the number are shown: its sign decides. -/
theorem ofBits_eq_iff {isSigned : Bool} {size n : ℕ} (hsize : IsScalarSize size)
    (hn : n < 256 ^ size) : ofBits isSigned size n = ofBits true 8 n ↔
      (256 ^ size ≤ 2 * n → (isSigned = true ↔ size = 8)) := by
  unfold ofBits
  rcases hsize with rfl | rfl | rfl | rfl <;> cases isSigned <;> simp <;> omega

/-- The eight bytes are shown, of which the scalar has the first ones. -/
theorem ofBits_extended_iff {isSigned : Bool} {size n high : ℕ} (hsize : IsScalarSize size)
    (hn : n < 256 ^ size) (hhigh : high < 256 ^ (8 - size)) :
    ofBits isSigned size n = ofBits true 8 (n + 256 ^ size * high) ↔
      high = (if isSigned = true ∧ 256 ^ size ≤ 2 * n then 256 ^ (8 - size) - 1 else 0) ∧
        (256 ^ size ≤ 2 * n → isSigned = true ∨ size < 8) := by
  rcases hsize with rfl | rfl | rfl | rfl <;> cases isSigned <;>
    simp only [ofBits] at hn hhigh ⊢ <;> split <;> split <;> simp at * <;> omega

/-- Outside a dereference `cdbg_ast_eval` reads the scalar of the lvalue. -/
theorem cdbgAstEval_location (hshape : cdbgAstIsLvalueShaped e = true)
    (hderef : ∀ lhs, e ≠ .unop .deref lhs) :
    cdbgAstEval env e = readLocation env (cdbgAstResolveLvalue env e) := by
  cases e with
  | ident _ | member _ _ | arrow _ _ | index _ _ => simp only [cdbgAstEval, cdbgAstResolveLvalue]
  | num _ | float _ | binop _ _ _ => exact Bool.noConfusion hshape
  | unop kind lhs =>
    cases kind with
    | deref => exact absurd rfl (hderef lhs)
    | pos | neg | not | bnot | addr => exact Bool.noConfusion hshape

/-- A dereferenced node is the location that the value of its operand points to. -/
theorem resolveDeref_addr {lhs : Ast} {inner : Option ExprResult}
    (h : resolveDeref env lhs inner = some (addr, var)) : ∃ r, inner = some r ∧ r.value = addr := by
  cases inner with
  | none => simp [resolveDeref] at h
  | some r =>
    refine ⟨r, rfl, ?_⟩
    simp only [resolveDeref, Option.bind_eq_bind, Option.bind_some] at h
    split at h
    · split at h
      · split at h <;> exact congrArg Prod.fst (Option.some.inj h)
      · exact congrArg Prod.fst (Option.some.inj h)
    · exact congrArg Prod.fst (Option.some.inj h)

/-- `print +e` shows eight bytes, those that `cdbg_ast_eval` reads of `e`. -/
theorem printAst_pos_eq {size : ℕ} (hsize : IsScalarSize size)
    (heval : cdbgAstEval env e = (readScalarValue env addr size).map fun v => { value := v })
    (hread : env.readableAt addr size = true) :
    printAst env (.unop .pos e) = some (.number (ofBits true 8 (env.number addr size))) := by
  obtain ⟨v, hv, hnumber⟩ := readScalarValue_eq hsize.width hread
  have hshown := @printScalarResultFmt_eq v 8 true
    (.inr (.inr (.inr rfl))) v.toNat_lt
  rw [printAst_pos, heval, hv]
  show some (printScalarResultFmt v 8 true false false) = _
  rw [hshown, hnumber]

/-- The two paths of `print` show the same number exactly where the bytes of memory are such
that size, sign and the bytes behind the scalar make no difference. -/
theorem print_agrees_iff (hshape : cdbgAstIsLvalueShaped e = true)
    (hres : cdbgAstResolveLvalue env e = some (addr, var)) (hvar : IntegerScalar env var)
    (hread : env.readableAt addr var.size = true) :
    printAst env e = printAst env (.unop .pos e) ↔ PathsAgree env e addr var := by
  rw [printAst_lvalue hshape hres hvar hread]
  by_cases hderef : ∃ lhs, e = .unop .deref lhs
  · obtain ⟨lhs, rfl⟩ := hderef
    have heval : cdbgAstEval env (.unop .deref lhs) =
        (readScalarValue env addr 8).map fun v => { value := v } := by
      rw [cdbgAstResolveLvalue] at hres
      obtain ⟨r, hr, rfl⟩ := resolveDeref_addr hres
      simp only [cdbgAstEval, hr, Option.bind_eq_bind, Option.bind_some, Option.map_eq_bind]
      rfl
    by_cases height : env.readableAt addr 8 = true
    · rw [printAst_pos_eq (.inr (.inr (.inr rfl))) heval height]
      have hle : var.size ≤ 8 := by
        rcases hvar.size with h | h | h | h <;> omega
      have hlen : (env.mem.read (addr + UInt64.ofNat var.size) (8 - var.size)).length =
          8 - var.size := by simp [Mem.read]
      have hhigh := leNat_lt (env.mem.read (addr + UInt64.ofNat var.size) (8 - var.size))
      rw [hlen] at hhigh
      rw [number_eight hle, Option.some_inj, Shown.number.injEq,
        ofBits_extended_iff hvar.size (number_lt var.size) hhigh]
      -- the higher bytes are all zero or all 255
      have hext : leNat (env.mem.read (addr + UInt64.ofNat var.size) (8 - var.size)) =
          (if var.isSigned = true ∧ 256 ^ var.size ≤ 2 * env.number addr var.size then
            256 ^ (8 - var.size) - 1 else 0) ↔ env.Extended addr var := by
        rw [EvalEnv.Extended, ← leNat_eq_max_iff, ← leNat_eq_zero_iff, hlen]
        unfold EvalEnv.SignBit
        split <;> rfl
      rw [hext, PathsAgree]
      simp only [height, true_and]
      rfl
    · have hnone : readScalarValue env addr 8 = none := by
        show (env.memRead addr 8).map valueOf = none
        rw [EvalEnv.memRead, if_neg height]
        rfl
      rw [printAst_pos, heval, hnone]
      simp [PathsAgree, height]
  · have hne : ∀ lhs, e ≠ .unop .deref lhs := fun lhs h => hderef ⟨lhs, h⟩
    have heval : cdbgAstEval env e =
        (readScalarValue env addr var.size).map fun v => { value := v } := by
      rw [cdbgAstEval_location hshape hne, hres]
      simp only [readLocation, Option.bind_eq_bind, Option.bind_some, Option.map_eq_bind]
      rfl
    have hagree : PathsAgree env e addr var =
        (env.SignBit addr var.size → (var.isSigned = true ↔ var.size = 8)) := by
      unfold PathsAgree
      split
      · exact absurd rfl (hne _)
      · rfl
    rw [printAst_pos_eq hvar.size heval hread, hagree, Option.some_inj, Shown.number.injEq]
    exact ofBits_eq_iff hvar.size (number_lt var.size)

end Paths

/-! ### A negative `int` -/

/-- The debug information of a program with one variable. -/
def oneVariable (name type : CStr) (addr : Addr) : DebugInfo where
  findVar n := if n = name then some (type, addr) else none
  findStruct _ := none
  lookupSym _ := none

/-- `int x = -1` -/
def minusOne : EvalEnv :=
  (oneVariable "x".toList "int".toList 0x1000).env (fun _ => 0) (fun _ => 0xff) fun _ => true

/-- The variable `x` as `complete_var_type` leaves it. -/
def intVar : VarInfo :=
  { name := "x".toList, type := "int".toList, size := 4, isSigned := true }

theorem integerScalar_intVar : IntegerScalar minusOne intVar :=
  ⟨rfl, rfl, .inl (by decide), .inr (.inr (.inl rfl))⟩

theorem print_agrees_iff_minusOne :
    printAst minusOne (.ident "x".toList) = printAst minusOne (.unop .pos (.ident "x".toList)) ↔
      PathsAgree minusOne (.ident "x".toList) 0x1000 intVar :=
  print_agrees_iff rfl (by decide) integerScalar_intVar (by decide)

/-- `print x` shows -1 and `print +x` 4294967295. -/
theorem print_differs :
    ¬ ∀ (env : EvalEnv) (e : Ast) (addr : Addr) (var : VarInfo),
      cdbgAstIsLvalueShaped e = true → cdbgAstResolveLvalue env e = some (addr, var) →
      IntegerScalar env var → env.readableAt addr var.size = true →
      printAst env e = printAst env (.unop .pos e) := by
  intro h
  have heq := h minusOne (.ident "x".toList) 0x1000 intVar rfl (by decide) integerScalar_intVar
    (by decide)
  have hx : printAst minusOne (.ident "x".toList) = some (.number (-1)) := by decide
  have hpos : printAst minusOne (.unop .pos (.ident "x".toList)) =
      some (.number 4294967295) := by decide
  rw [hx, hpos] at heq
  exact absurd heq (by decide)

end Debugger
