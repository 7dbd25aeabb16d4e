/-
The evaluation of expressions (`ast_eval.c`), and what `print` and `set` do with it.

An expression is evaluated in an `EvalEnv`: the lookups in the debug information, which
`DebugInfo.env` fills in with those of the debugger, and the memory of the debuggee.  An
evaluation that fails is `none`; its message is left out.  A `double` is its 64 bits.
-/
import Debugger.ExprSyntax
import Debugger.VarInfo
import Debugger.Machine

namespace Debugger

/-- What an expression is evaluated in. -/
structure EvalEnv where
  resolveVariableAddress : CStr → Option (Addr × VarInfo)
  lookupStructMember : CStr → CStr → Option StructMember
  typeElementSize : CStr → ℕ
  /-- `dwarf_lookup_struct` finds the type -/
  isStruct : CStr → Bool
  /-- the bits of the `double` that `strtod` reads -/
  strtod : CStr → UInt64
  mem : Mem
  /-- the byte can be read -/
  readable : Addr → Bool

/-- The lookups of the debugger. -/
def DebugInfo.env (info : DebugInfo) (strtod : CStr → UInt64) (mem : Mem)
    (readable : Addr → Bool) : EvalEnv where
  resolveVariableAddress := resolveVariableAddress info
  lookupStructMember := lookupStructMember info
  typeElementSize := typeElementSize info
  isStruct type := (dwarfLookupStruct info type).isSome
  strtod := strtod
  mem := mem
  readable := readable

/-- `cdbg_expr_result_t` -/
structure ExprResult where
  value : UInt64 := 0
  fvalue : UInt64 := 0
  isFloat : Bool := false
  isAddress : Bool := false
  type : CStr := []
deriving DecidableEq, Repr

/-! ### Memory -/

/-- All of `len` bytes from the address on can be read. -/
def EvalEnv.readableAt (env : EvalEnv) (addr : Addr) (len : ℕ) : Bool :=
  (List.range len).all fun i => env.readable (addr + UInt64.ofNat i)

/-- `cdbg_mem_read` -/
def EvalEnv.memRead (env : EvalEnv) (addr : Addr) (len : ℕ) : Option (List UInt8) :=
  if env.readableAt addr len then some (env.mem.read addr len) else none

/-- The number of bytes of a scalar of the size. -/
def scalarWidth (size : ℕ) : ℕ := if size = 0 ∨ size > 8 then 8 else size

/-- `read_scalar_value` -/
def readScalarValue (env : EvalEnv) (addr : Addr) (size : ℕ) : Option UInt64 :=
  (env.memRead addr (scalarWidth size)).map valueOf

/-! ### Operators and types -/

/-- `combine_binary`; a shift counts modulo 64, as on both architectures. -/
def combineBinary (left right : UInt64) : AstOp → Option UInt64
  | .add => some (left + right)
  | .sub => some (left - right)
  | .mul => some (left * right)
  | .div => if right = 0 then none else some (left / right)
  | .mod => if right = 0 then none else some (left % right)
  | .shl => some (left <<< right)
  | .shr => some (left >>> right)
  | .lt => some (if left < right then 1 else 0)
  | .gt => some (if left > right then 1 else 0)
  | .le => some (if left ≤ right then 1 else 0)
  | .ge => some (if left ≥ right then 1 else 0)
  | .eq => some (if left = right then 1 else 0)
  | .ne => some (if left ≠ right then 1 else 0)
  | .band => some (left &&& right)
  | .bxor => some (left ^^^ right)
  | .bor => some (left ||| right)
  | .land => some (if left ≠ 0 ∧ right ≠ 0 then 1 else 0)
  | .lor => some (if left ≠ 0 ∨ right ≠ 0 then 1 else 0)

/-- `make_pointer_type` -/
def makePointerType (baseType : CStr) : CStr :=
  if baseType = [] then []
  else
    let base := (baseType.reverse.dropWhile (· = ' ')).reverse
    let base := if base.length ≥ maxTypeName - 3 then base.take (maxTypeName - 4) else base
    base ++ " *".toList

/-- `cdbg_ast_is_lvalue_shaped` -/
def cdbgAstIsLvalueShaped : Ast → Bool
  | .ident _ | .member .. | .arrow .. | .index .. | .unop .deref _ => true
  | _ => false

/-! ### Locations -/

/-- The location of a member: both `.` and `->` end here. -/
def memberLocation (env : EvalEnv) (structType : CStr) (structAddr : Addr) (name : CStr) :
    Option (Addr × VarInfo) := do
  let m ← env.lookupStructMember structType name
  let type := snprintf maxTypeName m.type
  some (structAddr + UInt64.ofNat m.offset,
    { name := snprintf maxTypeName name, type := type, size := m.size, isSigned := m.isSigned,
      isPointer := typeIsPointer type })

/-- The case of `cdbg_ast_resolve_lvalue` for `.`. -/
def resolveMember (env : EvalEnv) (base : Option (Addr × VarInfo)) (name : CStr) :
    Option (Addr × VarInfo) := do
  let (baseAddr, baseVar) ← base
  memberLocation env (snprintf maxTypeName baseVar.type) baseAddr name

/-- The case of `cdbg_ast_resolve_lvalue` for `->`. -/
def resolveArrow (env : EvalEnv) (base : Option (Addr × VarInfo)) (name : CStr) :
    Option (Addr × VarInfo) := do
  let (baseAddr, baseVar) ← base
  if !baseVar.isPointer then none
  else
    let ptr ← readScalarValue env baseAddr 8
    memberLocation env (pointerPointeeType baseVar) ptr name

/-- An element of an array or behind a pointer: neither says that it is an array itself. -/
def elementVar (type : CStr) (size : ℕ) : VarInfo :=
  { type := snprintf maxTypeName type, size := size, isSigned := typeIsSigned type,
    isPointer := typeIsPointer type }

/-- The case of `cdbg_ast_resolve_lvalue` for an index. -/
def resolveIndex (env : EvalEnv) (base : Option (Addr × VarInfo)) (idx : Option ExprResult) :
    Option (Addr × VarInfo) := do
  let (baseAddr, baseVar) ← base
  let idxResult ← idx
  let index := idxResult.value
  if baseVar.isArray then
    if index.toNat ≥ baseVar.arrayCount then none
    else some (baseAddr + index * UInt64.ofNat baseVar.elementSize,
      elementVar baseVar.elementType baseVar.elementSize)
  else if baseVar.isPointer then
    let ptr ← readScalarValue env baseAddr 8
    let pointeeType := pointerPointeeType baseVar
    let elemSize := env.typeElementSize pointeeType
    some (ptr + index * UInt64.ofNat elemSize, elementVar pointeeType elemSize)
  else none

/-- The type of what a dereferenced node points to is known for a pointer variable only. -/
def resolveDeref (env : EvalEnv) (lhs : Ast) (inner : Option ExprResult) :
    Option (Addr × VarInfo) := do
  let inner ← inner
  let untyped : VarInfo := { size := 8 }
  match lhs with
  | .ident name =>
    match env.resolveVariableAddress name with
    | some (_, ptrVar) =>
      if ptrVar.isPointer then
        let pointeeType := pointerPointeeType ptrVar
        some (inner.value, elementVar pointeeType (env.typeElementSize pointeeType))
      else some (inner.value, untyped)
    | none => some (inner.value, untyped)
  | _ => some (inner.value, untyped)

/-- The value of a scalar at a location. -/
def readLocation (env : EvalEnv) (loc : Option (Addr × VarInfo)) : Option ExprResult := do
  let (addr, var) ← loc
  let value ← readScalarValue env addr var.size
  some { value := value }

/-- The sign bit of a `double`. -/
def negateDouble (bits : UInt64) : UInt64 := bits ^^^ 0x8000000000000000

mutual

/-- `cdbg_ast_resolve_lvalue` -/
def cdbgAstResolveLvalue (env : EvalEnv) : Ast → Option (Addr × VarInfo)
  | .ident name => env.resolveVariableAddress name
  | .member lhs name => resolveMember env (cdbgAstResolveLvalue env lhs) name
  | .arrow lhs name => resolveArrow env (cdbgAstResolveLvalue env lhs) name
  | .index lhs rhs => resolveIndex env (cdbgAstResolveLvalue env lhs) (cdbgAstEval env rhs)
  | .unop .deref lhs => resolveDeref env lhs (cdbgAstEval env lhs)
  | .unop .pos _ | .unop .neg _ | .unop .not _ | .unop .bnot _ | .unop .addr _ => none
  | .num _ | .float _ | .binop .. => none

/-- `cdbg_ast_eval` -/
def cdbgAstEval (env : EvalEnv) : Ast → Option ExprResult
  | .num num => some { value := num }
  | .float text =>
    let bits := env.strtod text
    some { value := bits, fvalue := bits, isFloat := true }
  | .ident name => readLocation env (env.resolveVariableAddress name)
  | .binop op lhs rhs => do
    let lhs ← cdbgAstEval env lhs
    let rhs ← cdbgAstEval env rhs
    let value ← combineBinary lhs.value rhs.value op
    some { value := value, isFloat := lhs.isFloat, fvalue := lhs.fvalue }
  | .unop .pos lhs => cdbgAstEval env lhs
  | .unop .neg lhs => do
    let inner ← cdbgAstEval env lhs
    if inner.isFloat then
      let fvalue := negateDouble inner.fvalue
      some { value := fvalue, fvalue := fvalue, isFloat := true }
    else some { value := -inner.value }
  | .unop .not lhs => do
    let inner ← cdbgAstEval env lhs
    some { value := if inner.value ≠ 0 then 0 else 1 }
  | .unop .bnot lhs => do
    let inner ← cdbgAstEval env lhs
    some { value := ~~~inner.value }
  | .unop .addr lhs =>
    if cdbgAstIsLvalueShaped lhs then do
      let (addr, var) ← cdbgAstResolveLvalue env lhs
      some { value := addr, isAddress := true, type := makePointerType var.type }
    else none
  | .unop .deref lhs => do
    let inner ← cdbgAstEval env lhs
    let value ← readScalarValue env inner.value 8
    some { value := value }
  | .member lhs name =>
    readLocation env (resolveMember env (cdbgAstResolveLvalue env lhs) name)
  | .arrow lhs name =>
    readLocation env (resolveArrow env (cdbgAstResolveLvalue env lhs) name)
  | .index lhs rhs =>
    readLocation env
      (resolveIndex env (cdbgAstResolveLvalue env lhs) (cdbgAstEval env rhs))

end

/-! ### print -/

/-- `mask_to_size` -/
def maskToSize (value : UInt64) (size : ℕ) : UInt64 :=
  if size = 0 ∨ size ≥ 8 then value
  else value &&& ((1 <<< UInt64.ofNat (size * 8)) - 1)

/-- `sign_extend_value` -/
def signExtendValue (value : UInt64) (size : ℕ) : Int64 :=
  if size = 0 ∨ size ≥ 8 then value.toInt64
  else
    let sign := 1 <<< UInt64.ofNat (size * 8 - 1)
    let mask := (1 <<< UInt64.ofNat (size * 8)) - 1
    let value := value &&& mask
    (if value &&& sign ≠ 0 then value ||| ~~~mask else value).toInt64

/-- What `print` shows. -/
inductive Shown
  /-- the elements of an array, or the members of a struct -/
  | aggregate
  | address (value : UInt64)
  | number (value : Int)
deriving DecidableEq, Repr

/-- `print_scalar_result_fmt` in the default format; the value in hexadecimal behind the
number is left out. -/
def printScalarResultFmt (value : UInt64) (size : ℕ) (isSigned isPointer isAddress : Bool) :
    Shown :=
  let value := maskToSize value size
  if isPointer || isAddress then .address value
  else if isSigned then .number (signExtendValue value size).toInt
  else .number value.toNat

/-- `cmd_print` on a parsed expression, in the default format. -/
def printAst (env : EvalEnv) (ast : Ast) : Option Shown :=
  if cdbgAstIsLvalueShaped ast then do
    let (addr, var) ← cdbgAstResolveLvalue env ast
    if var.isArray then some .aggregate
    else if !var.isPointer && !typeIsScalar var.type && env.isStruct var.type then
      some .aggregate
    else
      let value ← readScalarValue env addr var.size
      some (printScalarResultFmt value var.size var.isSigned var.isPointer false)
  else do
    let result ← cdbgAstEval env ast
    some (printScalarResultFmt result.value 8 true false result.isAddress)

/-! ### set -/

/-- `resolve_set_lhs` on a parsed left side: the address and the size. -/
def resolveSetLhs (env : EvalEnv) (ast : Ast) : Option (Addr × ℕ) :=
  if cdbgAstIsLvalueShaped ast then do
    let (addr, var) ← cdbgAstResolveLvalue env ast
    if var.type ≠ [] ∧ typeIsScalar var.type = false then none else some (addr, var.size)
  else none

end Debugger
