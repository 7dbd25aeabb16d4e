/-
Elements of arrays and behind pointers.

`pointer_pointee_type` takes the text before the first star for the type of what a pointer
points to; for a type text without a star that is the type itself, so that an index goes in
steps of its size (`pointer_stride_iff`).

`e[i]` reads an element of its size, `*(e + i)` is evaluated without types: the value of `e` as
an integer, for an array the number in its own bytes, plus `i`, and eight bytes from there on.
`subscript_sum_iff` says for which contents of memory the two are the same.
-/
import Debugger.CTypes
import Debugger.PrintPaths

open Prog

namespace Debugger

/-! ### Pointers to a type -/

/-- The text that `dwarfdump` prints for a pointer to a type. -/
def pointerText (type : CStr) : CStr :=
  if '*' ∈ type then type ++ ['*'] else type ++ [' ', '*']

/-- The variable `p` with the address is a pointer to the type, and an index on it goes in
steps of the type's size. -/
def PointerStride (type : CStr) : Prop :=
  (∀ var : VarInfo, var.type = pointerText type → pointerPointeeType var = type) ∧
    ∀ (info : DebugInfo) (strtod : CStr → UInt64) (mem : Mem) (readable : Addr → Bool)
      (name : CStr) (addr : Addr) (rhs : Ast) (ptr : UInt64) (idx : ExprResult),
      info.findVar name = some (pointerText type, addr) →
      readScalarValue (info.env strtod mem readable) addr 8 = some ptr →
      cdbgAstEval (info.env strtod mem readable) rhs = some idx →
      (cdbgAstResolveLvalue (info.env strtod mem readable) (.index (.ident name) rhs)).map
          Prod.fst =
        some (ptr + idx.value * UInt64.ofNat (typeElementSize info type))

section Stride

variable {type : CStr}

/-- The text before the star of a pointer to a type without a star. -/
theorem pointeeText_pointerText (hstar : '*' ∉ type) (hblank : type.getLast? ≠ some ' ') :
    pointeeText (pointerText type) = type := by
  have hname := CType.pointeeText_name (t := .struct type) rfl ⟨hstar, hblank⟩
  rw [pointerText, if_neg hstar]
  simpa [CType.name, CType.before, CType.after, CType.starred, CType.isArray] using hname

/-- A type that is not an array is not parsed as one. -/
theorem parseArrayType_of_not_mem (h : '[' ∉ type) : parseArrayType type = none := by
  have hdrop : type.dropWhile (· ≠ '[') = [] := by
    rw [List.dropWhile_eq_nil_iff]
    intro c hc
    have hne : c ≠ '[' := by
      rintro rfl
      exact h hc
    simpa using hne
  rw [parseArrayType, hdrop]
  cases type.takeWhile (· ≠ '[') <;> rfl

/-- A variable whose type name fits is known by the whole name. -/
theorem resolveVariableAddress_of_findVar {info : DebugInfo} {name : CStr} {addr : Addr}
    (hfind : info.findVar name = some (type, addr)) (hlen : type.length < maxTypeName) :
    resolveVariableAddress info name =
      some (addr, completeVarType info { name := name, type := type }) := by
  simp only [resolveVariableAddress, hfind, snprintf_of_lt hlen]

theorem pointee_not_pointer (var : VarInfo) : typeIsPointer (pointerPointeeType var) = false := by
  have hno : '*' ∉ pointerPointeeType var := fun h =>
    CType.not_mem_pointeeText (List.mem_of_mem_take h)
  simpa [typeIsPointer] using hno

/-- An index on a pointer goes in steps of the size of what it points to exactly where that is
no pointer itself. -/
theorem pointer_stride_iff (hbracket : '[' ∉ type) (hlen : type.length ≤ 100)
    (hblank : type.getLast? ≠ some ' ') : PointerStride type ↔ '*' ∉ type := by
  constructor
  · intro h hstar
    have hpointee := h.1 { type := pointerText type } rfl
    have hno := pointee_not_pointer { type := pointerText type }
    rw [hpointee, typeIsPointer, List.contains_eq_mem, decide_eq_false_iff_not] at hno
    exact hno hstar
  · intro hstar
    have htext : pointerText type = type ++ [' ', '*'] := if_neg hstar
    have hpointee : ∀ var : VarInfo, var.type = pointerText type →
        pointerPointeeType var = type := by
      intro var hvar
      rw [pointerPointeeType, hvar, pointeeText_pointerText hstar hblank]
      exact snprintf_of_lt (Nat.lt_of_le_of_lt hlen (by decide))
    refine ⟨hpointee, ?_⟩
    intro info strtod mem readable name addr rhs ptr idx hfind hptr hidx
    have hfits : (pointerText type).length < maxTypeName := by
      rw [htext, List.length_append]
      exact Nat.lt_of_le_of_lt (Nat.add_le_add_right hlen 2) (by decide)
    have harray : parseArrayType (pointerText type) = none := by
      refine parseArrayType_of_not_mem ?_
      simp [htext, hbracket]
    have hpointer : typeIsPointer (pointerText type) = true := by simp [typeIsPointer, htext]
    have hbase : cdbgAstResolveLvalue (info.env strtod mem readable) (.ident name) = some (addr,
        completeVarType info { name := name, type := pointerText type }) :=
      resolveVariableAddress_of_findVar hfind hfits
    have hsize : (info.env strtod mem readable).typeElementSize = typeElementSize info := rfl
    rw [cdbgAstResolveLvalue, hbase, hidx]
    simp only [completeVarType, harray, hpointer, resolveIndex, Option.bind_eq_bind,
      Option.bind_some, hptr, Bool.false_eq_true, if_false, if_true, Option.map_some]
    rw [hpointee _ rfl, hsize]

/-- `char *` -/
theorem pointer_stride_iff_char : PointerStride "char".toList ↔ '*' ∉ "char".toList :=
  pointer_stride_iff (by decide) (by decide) (by decide)

/-- The elements behind a `char **` count as `char`. -/
theorem pointer_stride_lost :
    ¬ ∀ type : CStr, '[' ∉ type → type.length ≤ 100 → type.getLast? ≠ some ' ' →
      PointerStride type := by
  intro h
  have hpointee := (h "char *".toList (by decide) (by decide) (by decide)).1
    { type := "char **".toList } rfl
  exact absurd hpointee (by decide)

end Stride

/-! ### Elements and sums -/

/-- The size of an element of an array, or behind a pointer. -/
def elementSizeOf (env : EvalEnv) (var : VarInfo) : ℕ :=
  if var.isArray then var.elementSize else env.typeElementSize (pointerPointeeType var)

/-- The address of the element `e[i]`, for the variable `e` at an address. -/
def subscriptAddr (env : EvalEnv) (addr : Addr) (var : VarInfo) (index : UInt64) : Option Addr :=
  let start := if var.isArray then some addr else readScalarValue env addr 8
  start.map (· + index * UInt64.ofNat (elementSizeOf env var))

/-- The address that `*(e + i)` reads from. -/
def sumAddr (env : EvalEnv) (addr : Addr) (var : VarInfo) (index : UInt64) : Option Addr :=
  (readScalarValue env addr var.size).map (· + index)

/-- The eight bytes at an address are those of a scalar, and zeros. -/
def ZeroExtends (env : EvalEnv) (scalar : Addr) (size : ℕ) (addr : Addr) : Prop :=
  env.mem.read addr 8 = env.mem.read scalar size ++ List.replicate (8 - size) 0

/-- What is read at the two addresses is the same: both can be read and the eight bytes are
those of the element, or neither can. -/
def SameElement (env : EvalEnv) (size : ℕ) (element sum : Option Addr) : Prop :=
  match element.filter (env.readableAt · size), sum.filter (env.readableAt · 8) with
  | some element, some sum => ZeroExtends env element size sum
  | none, none => True
  | _, _ => False

section Subscript

variable {env : EvalEnv} {e rhs : Ast} {addr a b : Addr} {var : VarInfo} {idx : ExprResult}
  {size : ℕ}

/-- What is behind a pointer counts neither as an array nor as a pointer. -/
theorem ne_deref_of_array_or_pointer (hres : cdbgAstResolveLvalue env e = some (addr, var))
    (hkind : var.isArray = true ∨ var.isPointer = true) (lhs : Ast) : e ≠ .unop .deref lhs := by
  rintro rfl
  have huntyped : ∀ {v : UInt64}, some (v, ({ size := 8 } : VarInfo)) = some (addr, var) →
      False := by
    intro v h
    cases h
    rcases hkind with h | h <;> exact Bool.noConfusion h
  rw [cdbgAstResolveLvalue] at hres
  obtain ⟨inner, -, hres⟩ := Option.bind_eq_some_iff.mp hres
  dsimp only at hres
  split at hres
  · split at hres
    · split at hres
      · rename_i ptrVar _ _
        cases hres
        rcases hkind with h | h
        · exact Bool.noConfusion h
        · exact Bool.noConfusion ((pointee_not_pointer ptrVar).symm.trans h)
      · exact huntyped hres
    · exact huntyped hres
  · exact huntyped hres

/-- Numbers of different widths are the same where the wider one is extended by zeros. -/
theorem number_eq_iff (hsize : size ≤ 8) :
    env.number a size = env.number b 8 ↔ ZeroExtends env a size b := by
  have hzeros : leNat (List.replicate (8 - size) 0) = 0 :=
    leNat_eq_zero_iff.mpr fun b hb => List.eq_of_mem_replicate hb
  have hnumber : env.number a size =
      leNat (env.mem.read a size ++ List.replicate (8 - size) 0) := by
    rw [leNat_append, hzeros, Nat.mul_zero, Nat.add_zero]
    rfl
  rw [hnumber]
  constructor
  · intro h
    refine (leNat_inj ?_ h).symm
    simp [Mem.read, hsize]
  · intro h
    rw [EvalEnv.number, show env.mem.read b 8 = _ from h]

theorem readScalarValue_eq_ite (hsize : IsScalarSize size) :
    readScalarValue env a size =
      if env.readableAt a size then some (UInt64.ofNat (env.number a size)) else none := by
  split
  · rename_i h
    obtain ⟨v, hv, hnumber⟩ := readScalarValue_eq hsize.width h
    rw [hv, ← hnumber, UInt64.ofNat_toNat]
  · rename_i h
    rw [readScalarValue, scalarWidth_eq hsize.width, EvalEnv.memRead, if_neg h]
    rfl

/-- Two scalars have the same value. -/
theorem readScalarValue_eq_iff (hsize : IsScalarSize size) {element sum : Option Addr} :
    element.bind (readScalarValue env · size) = sum.bind (readScalarValue env · 8) ↔
      SameElement env size element sum := by
  have height : IsScalarSize 8 := .inr (.inr (.inr rfl))
  have hle : size ≤ 8 := by
    rcases hsize with h | h | h | h <;> omega
  have hlt : ∀ {c : Addr} {n : ℕ}, n ≤ 8 → env.number c n < 2 ^ 64 := fun {c n} hn =>
    Nat.lt_of_lt_of_le (number_lt n) (Nat.pow_le_pow_right (by decide) hn)
  have hvalue : ∀ {c d : Addr}, UInt64.ofNat (env.number c size) = UInt64.ofNat (env.number d 8) ↔
      ZeroExtends env c size d := by
    intro c d
    rw [← number_eq_iff hle, ← UInt64.toNat_inj, UInt64.toNat_ofNat', UInt64.toNat_ofNat',
      Nat.mod_eq_of_lt (hlt hle), Nat.mod_eq_of_lt (hlt (Nat.le_refl 8))]
  have hbind : ∀ {n : ℕ}, IsScalarSize n → ∀ x : Option Addr,
      x.bind (readScalarValue env · n) =
        (x.filter (env.readableAt · n)).map fun c => UInt64.ofNat (env.number c n) := by
    intro n hn x
    cases x with
    | none => rfl
    | some c =>
      rw [Option.bind_some, readScalarValue_eq_ite hn, Option.filter_some]
      split <;> rfl
  rw [hbind hsize, hbind height, SameElement]
  cases element.filter (env.readableAt · size) <;> cases sum.filter (env.readableAt · 8) <;>
    simp [hvalue]

/-- An index in range is at the address of its element. -/
theorem eval_index (hres : cdbgAstResolveLvalue env e = some (addr, var))
    (hkind : var.isArray = true ∨ var.isPointer = true) (hidx : cdbgAstEval env rhs = some idx)
    (hrange : var.isArray = true → idx.value.toNat < var.arrayCount) :
    cdbgAstEval env (.index e rhs) = ((subscriptAddr env addr var idx.value).bind
      (readScalarValue env · (elementSizeOf env var))).map fun v => { value := v } := by
  rw [cdbgAstEval, hres, hidx]
  cases harray : var.isArray with
  | true =>
    have hlt : ¬ idx.value.toNat ≥ var.arrayCount := Nat.not_le.mpr (hrange harray)
    simp only [resolveIndex, subscriptAddr, elementSizeOf, harray, if_true, if_neg hlt,
      Option.bind_eq_bind, Option.bind_some, readLocation, elementVar, Option.map_eq_bind]
    rfl
  | false =>
    have hpointer : var.isPointer = true := hkind.resolve_left (by simp [harray])
    simp only [resolveIndex, subscriptAddr, elementSizeOf, harray, hpointer, if_true, if_false,
      Bool.false_eq_true, Option.bind_eq_bind, Option.bind_some, readLocation, elementVar]
    cases readScalarValue env addr 8 with
    | none => rfl
    | some ptr =>
      simp only [Option.bind_some, Option.map_eq_bind]
      rfl

/-- A dereferenced sum is read from the sum of two integers. -/
theorem eval_deref_add (heval : cdbgAstEval env e = readLocation env (some (addr, var)))
    (hidx : cdbgAstEval env rhs = some idx) :
    cdbgAstEval env (.unop .deref (.binop .add e rhs)) =
      ((sumAddr env addr var idx.value).bind (readScalarValue env · 8)).map
        fun v => { value := v } := by
  simp only [cdbgAstEval, heval, hidx, readLocation, sumAddr, Option.bind_eq_bind,
    Option.bind_some]
  cases readScalarValue env addr var.size with
  | none => rfl
  | some value =>
    simp only [Option.bind_some, combineBinary, Option.map_eq_bind]
    rfl

/-- For an array or a pointer `e` with elements of a scalar size, `e[i]` is the element that is
`i` elements behind the first one and `*(e + i)` the eight bytes at the sum of two integers. The
two have the same value exactly where these eight bytes are those of the element and zeros. -/
theorem subscript_sum_iff (hshape : cdbgAstIsLvalueShaped e = true)
    (hres : cdbgAstResolveLvalue env e = some (addr, var))
    (hkind : var.isArray = true ∨ var.isPointer = true)
    (hsize : IsScalarSize (elementSizeOf env var)) (hidx : cdbgAstEval env rhs = some idx)
    (hrange : var.isArray = true → idx.value.toNat < var.arrayCount) :
    cdbgAstEval env (.index e rhs) = ((subscriptAddr env addr var idx.value).bind
        (readScalarValue env · (elementSizeOf env var))).map (fun v => { value := v }) ∧
      cdbgAstEval env (.unop .deref (.binop .add e rhs)) =
        ((sumAddr env addr var idx.value).bind (readScalarValue env · 8)).map
          (fun v => { value := v }) ∧
      (cdbgAstEval env (.index e rhs) = cdbgAstEval env (.unop .deref (.binop .add e rhs)) ↔
        SameElement env (elementSizeOf env var) (subscriptAddr env addr var idx.value)
          (sumAddr env addr var idx.value)) := by
  have heval : cdbgAstEval env e = readLocation env (some (addr, var)) := by
    rw [cdbgAstEval_location hshape (ne_deref_of_array_or_pointer hres hkind), hres]
  have hinj : Function.Injective fun v : UInt64 => ({ value := v } : ExprResult) := fun v w h =>
    congrArg ExprResult.value h
  have hindex := eval_index hres hkind hidx hrange
  have hsum := eval_deref_add heval hidx
  refine ⟨hindex, hsum, ?_⟩
  rw [hindex, hsum, (Option.map_injective hinj).eq_iff, readScalarValue_eq_iff hsize]

end Subscript

/-- `int *p` points to two numbers, 1 and 2. -/
def oneAndTwo : EvalEnv :=
  (oneVariable "p".toList "int *".toList 0x1000).env (fun _ => 0)
    (fun a => if a = 0x1001 then 0x20 else if a = 0x2000 then 1 else if a = 0x2004 then 2 else 0)
    fun _ => true

/-- The variable `p` as `complete_var_type` leaves it. -/
def intPointer : VarInfo :=
  { name := "p".toList, type := "int *".toList, size := 8, isSigned := true, isPointer := true }

/-- `p[1]` and `*(p + 1)` -/
theorem subscript_sum_iff_oneAndTwo :
    cdbgAstEval oneAndTwo (.index (.ident "p".toList) (.num 1)) = some { value := 2 } ∧
      (cdbgAstEval oneAndTwo (.index (.ident "p".toList) (.num 1)) =
          cdbgAstEval oneAndTwo (.unop .deref (.binop .add (.ident "p".toList) (.num 1))) ↔
        SameElement oneAndTwo 4 (subscriptAddr oneAndTwo 0x1000 intPointer 1)
          (sumAddr oneAndTwo 0x1000 intPointer 1)) := by
  have hres : cdbgAstResolveLvalue oneAndTwo (.ident "p".toList) = some (0x1000, intPointer) := by
    decide
  have hidx : cdbgAstEval oneAndTwo (.num 1) = some { value := 1 } := rfl
  have hsize : IsScalarSize (elementSizeOf oneAndTwo intPointer) := .inr (.inr (.inl (by decide)))
  obtain ⟨hindex, -, hiff⟩ := (subscript_sum_iff rfl hres (.inr rfl) hsize hidx nofun :)
  exact ⟨hindex, hiff⟩

/-- `p[1]` is 2, and `*(p + 1)` is read one byte behind the start of the first number. -/
theorem sum_not_scaled :
    ¬ ∀ (env : EvalEnv) (e rhs : Ast) (addr : Addr) (var : VarInfo) (idx : ExprResult),
      cdbgAstIsLvalueShaped e = true → cdbgAstResolveLvalue env e = some (addr, var) →
      (var.isArray = true ∨ var.isPointer = true) → IsScalarSize (elementSizeOf env var) →
      cdbgAstEval env rhs = some idx →
      (var.isArray = true → idx.value.toNat < var.arrayCount) →
      cdbgAstEval env (.index e rhs) = cdbgAstEval env (.unop .deref (.binop .add e rhs)) := by
  intro h
  have heq := h oneAndTwo (.ident "p".toList) (.num 1) 0x1000 intPointer { value := 1 } rfl
    (by decide) (.inr rfl) (.inr (.inr (.inl (by decide)))) rfl nofun
  exact absurd heq (by decide)

end Debugger
