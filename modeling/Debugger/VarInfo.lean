/-
What the debugger knows of variables and types (`varinfo.h` and the helpers on type names
in `debugger.c`).

A type is its name as `dwarfdump` prints it, and everything about it is read off the
characters of the name.  `DebugInfo` is what the scans of the dump find for the name of a
variable or of a struct.
-/
import Debugger.Regs

namespace Debugger

/-! ### Type names -/

/-- The size of the buffers for type names. -/
abbrev maxTypeName : ℕ := 128

/-- `type_scalar_size` -/
def typeScalarSize (type : CStr) : ℕ :=
  if type.contains '*' then 8
  else if strstr type "char".toList then 1
  else if strstr type "short".toList then 2
  else if strstr type "long".toList then 8
  else if strstr type "int".toList || strstr type "bool".toList then 4
  else 8

/-- `type_is_scalar` -/
def typeIsScalar (type : CStr) : Bool :=
  type.contains '*' || strstr type "char".toList || strstr type "short".toList ||
    strstr type "int".toList || strstr type "long".toList || strstr type "bool".toList

/-- `strtoul(text, &end, 10)`: the value and the text at `end`; `none` when nothing was
converted. -/
def strtoul (text : CStr) : Option (UInt64 × CStr) :=
  let (neg, cs) := sign (text.dropWhile isspace)
  match cs with
  | [] => none
  | c :: _ =>
    if (digitValue 10 c).isSome then
      let (n, rest) := digits 10 0 cs
      let v := UInt64.ofNat (min n (2 ^ 64 - 1))
      some (if neg && n < 2 ^ 64 then -v else v, rest)
    else none

/-- `parse_array_type`: the element type and the number of elements. -/
def parseArrayType (type : CStr) : Option (CStr × ℕ) :=
  match type.takeWhile (· ≠ '['), type.dropWhile (· ≠ '[') with
  | c :: name, _ :: count =>
    match strtoul count with
    | some (n, ']' :: _) => some (snprintf maxTypeName (c :: name), n.toNat)
    | _ => none
  | _, _ => none

/-- `strstr(type, "unsigned") == NULL` -/
def typeIsSigned (type : CStr) : Bool := !strstr type "unsigned".toList

/-- `strchr(type, '*') != NULL` -/
def typeIsPointer (type : CStr) : Bool := type.contains '*'

/-! ### Variables and structs -/

/-- `cdbg_var_info_t`, as far as expressions use it. -/
structure VarInfo where
  name : CStr := []
  type : CStr := []
  elementType : CStr := []
  size : ℕ := 0
  elementSize : ℕ := 0
  arrayCount : ℕ := 0
  isPointer : Bool := false
  isSigned : Bool := false
  isArray : Bool := false
deriving DecidableEq, Repr

/-- `cdbg_struct_member_t` -/
structure StructMember where
  name : CStr
  type : CStr
  offset : ℕ
  size : ℕ
  isSigned : Bool
deriving DecidableEq, Repr

/-- A member in the debug information. -/
structure MemberDecl where
  name : CStr
  type : CStr
  offset : ℕ
deriving DecidableEq, Repr

/-- The debug information of the program at its current stop. -/
structure DebugInfo where
  /-- the type and the address of a local variable in scope or a global one -/
  findVar : CStr → Option (CStr × Addr)
  /-- the size and the members of a struct -/
  findStruct : CStr → Option (ℕ × List MemberDecl)
  /-- the address of a symbol, which has no type -/
  lookupSym : CStr → Option Addr

/-- The array of `dwarf_lookup_struct` has 32 members, and a name has 64 characters. -/
abbrev maxStructMembers : ℕ := 32

/-- A member as `dwarf_lookup_struct` fills it in. -/
def structMember (d : MemberDecl) : StructMember :=
  let type := snprintf 64 d.type
  { name := snprintf 64 d.name, type := type, offset := d.offset, size := typeScalarSize type,
    isSigned := typeIsSigned type }

/-- `dwarf_lookup_struct`: the members and the size. -/
def dwarfLookupStruct (info : DebugInfo) (name : CStr) : Option (List StructMember × ℕ) :=
  match info.findStruct name with
  | some (byteSize, members) =>
    if name = [] ∨ members = [] then none
    else some ((members.take maxStructMembers).map structMember, byteSize)
  | none => none

/-- `type_element_size` -/
def typeElementSize (info : DebugInfo) (type : CStr) : ℕ :=
  if type = [] then 0
  else if typeIsScalar type then typeScalarSize type
  else
    match dwarfLookupStruct info type with
    | some (_, byteSize) => if byteSize > 0 then byteSize else 8
    | none => 8

/-- `complete_var_type` -/
def completeVarType (info : DebugInfo) (var : VarInfo) : VarInfo :=
  let var := { var with isPointer := typeIsPointer var.type, isSigned := typeIsSigned var.type }
  match parseArrayType var.type with
  | some (elementType, count) =>
    let elementSize := typeElementSize info elementType
    { var with isArray := true, elementType := elementType, arrayCount := count,
               elementSize := elementSize, size := elementSize * count % 2 ^ 64 }
  | none =>
    { var with isArray := false, elementType := [], arrayCount := 0, elementSize := 0,
               size := typeScalarSize var.type }

/-- `resolve_variable_address`: a variable of the debug information, or a symbol, which is
taken for an `unsigned long`. -/
def resolveVariableAddress (info : DebugInfo) (name : CStr) : Option (Addr × VarInfo) :=
  match info.findVar name with
  | some (type, addr) =>
    some (addr, completeVarType info { name := name, type := snprintf maxTypeName type })
  | none =>
    (info.lookupSym name).map fun addr =>
      (addr, completeVarType info { name := name, type := "unsigned long".toList })

/-- `lookup_struct_member` -/
def lookupStructMember (info : DebugInfo) (structType memberName : CStr) :
    Option StructMember :=
  (dwarfLookupStruct info structType).bind fun s => s.1.find? (·.name = memberName)

/-- The text of a type before its first star, without the blanks at its end. -/
def pointeeText (type : CStr) : CStr :=
  if type.contains '*' then
    ((type.takeWhile (· ≠ '*')).reverse.dropWhile (· = ' ')).reverse
  else type

/-- `pointer_pointee_type` -/
def pointerPointeeType (var : VarInfo) : CStr := snprintf maxTypeName (pointeeText var.type)

/-- The name of an array gives its element type; an `int8_t` counts as an `int`. -/
example : parseArrayType "char *[3]".toList = some ("char *".toList, 3) ∧
    typeScalarSize "int8_t".toList = 4 ∧ pointeeText "char **".toList = "char".toList := by
  decide

end Debugger
