/-
The text of `print` (`cmd_print` and the functions below it in `debugger.c`).

`scalarText` is what stands behind the name of a scalar in the format that was asked for.  The
numerals of the formats `/d`, `/u`, `/x`, `/o` and `/z` are expressions, and `print` reads each of
them back as the number it has shown (`numeral_typed_back`).
-/
import Debugger.Literals
import Debugger.LineLookups
import Debugger.Scalars
import Debugger.SourceWindow
import Debugger.SymNames
import Debugger.TypeDisplay

open Prog

namespace Debugger

/-! ### Formats -/

/-- `print_format_t` -/
inductive PrintFormat
  | default | dec | hex | oct | bin | char | string | udec | addr | float | zhex
deriving DecidableEq, Repr

/-- The letters behind the slash. -/
def PrintFormat.ofLetter (letter : Char) : Option PrintFormat :=
  if letter = 'd' ∨ letter = 'i' then some .dec
  else if letter = 'x' then some .hex
  else if letter = 'o' then some .oct
  else if letter = 't' then some .bin
  else if letter = 'c' then some .char
  else if letter = 's' then some .string
  else if letter = 'u' then some .udec
  else if letter = 'a' then some .addr
  else if letter = 'f' then some .float
  else if letter = 'z' then some .zhex
  else none

/-- `parse_print_format`: the format and the expression behind it. -/
def parsePrintFormat (expr : CStr) : PrintFormat × CStr :=
  match expr with
  | '/' :: letter :: rest =>
    match PrintFormat.ofLetter letter with
    | some fmt => if rest.head?.all isspace then (fmt, trimSpace rest) else (.default, expr)
    | none => (.default, expr)
  | _ => (.default, expr)

/-! ### Numerals -/

/-- `%lld` -/
def decimalText (n : Int) : CStr :=
  if n < 0 then '-' :: Nat.toDigits 10 n.natAbs else Nat.toDigits 10 n.natAbs

/-- `0x%llx` -/
def hexadecimalText (v : UInt64) : CStr := '0' :: 'x' :: Nat.toDigits 16 v.toNat

/-- `%#llo` -/
def octalText (v : UInt64) : CStr :=
  if v = 0 then ['0'] else '0' :: Nat.toDigits 8 v.toNat

/-! ### What is printed -/

/-- What `print` is computed in: the debug information and the memory of the debuggee, whether
types are shown, the symbols, and `printf` for the bits of a `float` and of a `double`. -/
structure PrintEnv where
  info : DebugInfo
  strtod : CStr → UInt64
  mem : Mem
  readable : Addr → Bool
  printPretty : Bool
  aggregateKind : CStr → AggregateKind
  syms : Syms
  floatText : UInt32 → CStr
  doubleText : UInt64 → CStr

namespace PrintEnv

/-- What expressions are evaluated in. -/
def eval (env : PrintEnv) : EvalEnv := env.info.env env.strtod env.mem env.readable

/-- The members `dwarf_lookup_struct` finds. -/
def structMembers (env : PrintEnv) (type : CStr) : Option (List StructMember) :=
  (dwarfLookupStruct env.info type).map (·.1)

end PrintEnv

/-- What is written to the standard output, and whether the call that writes it succeeds. -/
structure Written where
  text : CStr
  ok : Bool := true
deriving DecidableEq

/-- One call after another, up to the first that fails. -/
def writeAll : List Written → Written
  | [] => { text := [] }
  | w :: ws =>
    if w.ok then { text := w.text ++ (writeAll ws).text, ok := (writeAll ws).ok } else w

/-- The apostrophe. -/
def apostrophe : Char := Char.ofNat 0x27

/-- `print_char_value` -/
def printCharValue (ch : UInt8) : CStr :=
  if ch = 0x5c then [apostrophe, '\\', '\\', apostrophe]
  else if ch = 0x27 then [apostrophe, '\\', apostrophe, apostrophe]
  else if 0x20 ≤ ch ∧ ch < 0x7f then [apostrophe, Char.ofNat ch.toNat, apostrophe]
  else apostrophe :: '\\' :: 'x' :: (hexText 2 ch.toNat ++ [apostrophe])

/-- The loop of `read_c_string`, with room for the given number of characters. -/
def readCString (env : EvalEnv) (addr : Addr) : ℕ → Option CStr
  | 0 => some []
  | n + 1 =>
    match env.memRead addr 1 with
    | some [0] => some []
    | some [byte] => (readCString env (addr + 1) n).map (Char.ofNat byte.toNat :: ·)
    | _ => none

/-- `CDBG_MAX_PRINT_STRING` -/
abbrev maxPrintString : ℕ := 256

/-- The symbol that is shown behind an address. -/
def symbolText (syms : Syms) (addr : Addr) : CStr :=
  match lookupSymbolForPc syms addr with
  | none => []
  | some (sym, offset) =>
    ' ' :: '<' :: (displaySymName (some sym) ++
      ((if offset ≠ 0 then '+' :: Nat.toDigits 10 offset.toNat else []) ++ ['>']))

/-- `print_type_annotation` -/
def printTypeAnnotation (env : PrintEnv) (fmt : PrintFormat) (type : CStr) : CStr :=
  if env.printPretty ∧ fmt = .default ∧ type ≠ [] then
    '(' :: (formatTypeForDisplay env.aggregateKind type ++ [')', ' '])
  else []

/-- A value in a format; `none` when it is a string that cannot be read. -/
def scalarText (env : PrintEnv) (fmt : PrintFormat) (value : UInt64) (size : ℕ)
    (isSigned isPointer isAddress : Bool) : Option CStr :=
  let value := maskToSize value size
  match fmt with
  | .hex => some (hexadecimalText value)
  | .oct => some (octalText value)
  | .bin => some (printBinaryValue value size)
  | .char => some (printCharValue value.toUInt8)
  | .string =>
    (readCString env.eval value (maxPrintString - 1)).map fun str => '"' :: (str ++ ['"'])
  | .dec =>
    some (if isSigned then decimalText (signExtendValue value size).toInt
      else Nat.toDigits 10 value.toNat)
  | .udec => some (Nat.toDigits 10 value.toNat)
  | .zhex => some (hexNumeral (scalarWidth size * 2) value)
  | .float => some (if size ≤ 4 then env.floatText value.toUInt32 else env.doubleText value)
  | .addr => some (hexadecimalText value ++ symbolText env.syms value)
  | .default =>
    some (if isPointer ∨ isAddress then hexNumeral 16 value
      else (if isSigned then decimalText (signExtendValue value size).toInt
        else Nat.toDigits 10 value.toNat) ++ ' ' :: '(' :: (hexadecimalText value ++ [')']))

/-- `label = `, the type and the value on a line. -/
def labelled (env : PrintEnv) (label : CStr) (fmt : PrintFormat) (type text : CStr) : CStr :=
  label ++ (" = ".toList ++ printTypeAnnotation env fmt type ++ (text ++ ['\n']))

/-- `print_scalar_result_fmt`, and the return of `cmd_print` behind it. -/
def printScalar (env : PrintEnv) (label : CStr) (fmt : PrintFormat) (value : UInt64) (size : ℕ)
    (isSigned isPointer isAddress : Bool) (type : CStr) : Printed :=
  match scalarText env fmt value size isSigned isPointer isAddress with
  | some text => { rc := 0, out := [labelled env label fmt type text] }
  | none =>
    { rc := 0
      err := ["Cannot read string at ".toList ++
        (hexadecimalText (maskToSize value size) ++ ['\n'])] }

/-- `print_scalar_inline` -/
def printScalarInline (value : UInt64) (size : ℕ) (isSigned isPointer : Bool) : CStr :=
  if isPointer then hexadecimalText value
  else if isSigned then decimalText (signExtendValue value size).toInt
  else Nat.toDigits 10 value.toNat

/-- A member in `print_struct_element`, with what is printed around its value. -/
def printMember (env : PrintEnv) (addr : Addr) (m : StructMember) (before after : CStr) : Written :=
  match readScalarValue env.eval (addr + UInt64.ofNat m.offset) m.size with
  | none => { text := [], ok := false }
  | some value =>
    { text := before ++ (printScalarInline value m.size m.isSigned false ++ after) }

/-- `print_struct_element` -/
def printStructElement (env : PrintEnv) (addr : Addr) (members : List StructMember) : Written :=
  if env.printPretty then
    writeAll ({ text := ['{', '\n'] } :: (members.map (fun m =>
      printMember env addr m (' ' :: ' ' :: (m.name ++ (" = ".toList ++
        printTypeAnnotation env .default m.type))) ['\n']) ++ [{ text := ['}'] }]))
  else
    writeAll ({ text := ['{'] } :: (members.mapIdx (fun i m =>
      printMember env addr m ((if i > 0 then [',', ' '] else []) ++ (m.name ++ ['='])) []) ++
        [{ text := ['}'] }]))

/-- The members of the type, where it is not taken for a scalar. -/
def aggregateMembers (env : PrintEnv) (type : CStr) : Option (List StructMember) :=
  if typeIsScalar type then none else env.structMembers type

/-- `print_array_element_value` -/
def printArrayElementValue (env : PrintEnv) (var : VarInfo) (elemAddr : Addr) : Written :=
  match aggregateMembers env var.elementType with
  | some members =>
    writeAll [{ text := printTypeAnnotation env .default var.elementType },
      printStructElement env elemAddr members]
  | none =>
    match readScalarValue env.eval elemAddr var.elementSize with
    | none => { text := [], ok := false }
    | some value =>
      { text := printTypeAnnotation env .default var.elementType ++
          (printScalarInline value var.elementSize (typeIsSigned var.elementType)
            (typeIsPointer var.elementType) ++ ' ' :: '(' :: (hexadecimalText value ++ [')'])) }

/-- `CDBG_MAX_ARRAY_PRINT` -/
abbrev maxArrayPrint : ℕ := 256

/-- An element's address in `print_array_variable`. -/
def elementAddr (var : VarInfo) (baseAddr : Addr) (i : ℕ) : Addr :=
  baseAddr + UInt64.ofNat i * UInt64.ofNat var.elementSize

/-- The command that printed `w` returns whether it succeeded. -/
def Written.printed (w : Written) : Printed := { rc := if w.ok then 0 else -1, out := [w.text] }

/-- `print_array_variable` -/
def printArrayVariable (env : PrintEnv) (name : CStr) (var : VarInfo) (baseAddr : Addr) : Printed :=
  if var.arrayCount = 0 ∨ var.elementSize = 0 then { rc := -1 }
  else if var.arrayCount > maxArrayPrint then
    .fail ("Array too large to print (".toList ++ (Nat.toDigits 10 var.arrayCount ++
      " elements)\n".toList))
  else
    let element := fun i => printArrayElementValue env var (elementAddr var baseAddr i)
    if env.printPretty then
      (writeAll ({ text := name ++ (" = ".toList ++ printTypeAnnotation env .default var.type ++
          ['[', '\n']) } ::
        ((List.range var.arrayCount).map (fun i => writeAll
          [{ text := ' ' :: ' ' :: '[' :: (Nat.toDigits 10 i ++ [']', ' ']) }, element i,
            { text := ['\n'] }]) ++ [{ text := [']', '\n'] }]))).printed
    else
      (writeAll ({ text := name ++ " = [".toList } ::
        ((List.range var.arrayCount).map (fun i => writeAll
          [{ text := if i > 0 then [',', ' '] else [] }, element i]) ++
            [{ text := [']', '\n'] }]))).printed

/-- `cmd_print` on a location. -/
def printLocation (env : PrintEnv) (fmt : PrintFormat) (label : CStr) (addr : Addr)
    (var : VarInfo) : Printed :=
  if var.isArray ∧ fmt = .default then printArrayVariable env label var addr
  else
    match if var.isPointer ∨ fmt ≠ .default then none else aggregateMembers env var.type with
    | some members =>
      (writeAll [{ text := label ++ (" = ".toList ++ printTypeAnnotation env fmt var.type) },
        printStructElement env addr members, { text := ['\n'] }]).printed
    | none =>
      match readScalarValue env.eval addr var.size with
      | none => { rc := -1 }
      | some value =>
        printScalar env label fmt value var.size var.isSigned var.isPointer false var.type

/-- `cmd_print` on the expression that is left of its argument, from the parser on.  The messages
of the parser and of the evaluation are left out. -/
def printExpression (env : PrintEnv) (fmt : PrintFormat) (expr : CStr) : Printed :=
  match cdbgAstParse expr with
  | none => { rc := -1 }
  | some ast =>
    if cdbgAstIsLvalueShaped ast then
      match cdbgAstResolveLvalue env.eval ast with
      | none => { rc := -1 }
      | some (addr, var) => printLocation env fmt expr addr var
    else
      match cdbgAstEval env.eval ast with
      | none => { rc := -1 }
      | some result =>
        printScalar env expr fmt result.value 8 true false result.isAddress result.type

/-- `cmd_print`, for a language with expressions and once the registers are read. -/
def printCommand (env : PrintEnv) (args : CStr) : Printed :=
  let usage := Printed.fail "Usage: print [/fmt] <expr>\n".toList
  let expr := trimSpace args
  if expr = [] then usage
  else
    let (fmt, expr) := parsePrintFormat expr
    if expr = [] then usage else printExpression env fmt expr

/-- The commands that print and the one that only evaluates read the format in the same way. -/
theorem parsePrintFormat_rest (expr : CStr) : (parsePrintFormat expr).2 = skipPrintFormat expr := by
  have hletter : ∀ letter, (PrintFormat.ofLetter letter).isSome = true ↔
      letter ∈ "dixotcsuafz".toList := by
    intro letter
    rw [show "dixotcsuafz".toList = ['d', 'i', 'x', 'o', 't', 'c', 's', 'u', 'a', 'f', 'z'] from
      rfl, PrintFormat.ofLetter]
    simp only [List.mem_cons, List.not_mem_nil, or_false]
    split_ifs <;> simp <;> tauto
  cases expr with
  | nil => rfl
  | cons c expr =>
    cases expr with
    | nil => rw [parsePrintFormat, skipPrintFormat] <;> simp
    | cons letter rest =>
      by_cases hc : c = '/'
      · subst hc
        rw [parsePrintFormat, skipPrintFormat]
        cases hfmt : PrintFormat.ofLetter letter with
        | none =>
          have hno := mt (hletter letter).mpr (by simp [hfmt])
          rw [if_neg fun h => hno h.1]
        | some fmt =>
          have hyes := (hletter letter).mp (by simp [hfmt])
          by_cases hrest : rest.head?.all isspace = true
          · rw [if_pos ⟨hyes, hrest⟩]
            simp only [hrest, if_true]
          · rw [if_neg fun h => hrest h.2]
            simp only [hrest, Bool.false_eq_true, if_false]
      · rw [parsePrintFormat, skipPrintFormat] <;> simp [hc]

/-! ### Numerals are expressions -/

section Numerals

variable {base n d : ℕ} {v : UInt64}

/-- The digits of the bases that are shown. -/
theorem digitValue_of_lt (hbase : base ∈ [8, 10, 16]) : d < base →
    digitValue base (Nat.digitChar d) = some d := by
  have hall : ∀ base ∈ [8, 10, 16], ∀ d < base, digitValue base (Nat.digitChar d) = some d := by
    decide
  exact hall base hbase d

theorem positional_concat {w : CStr} {c : Char} : ∀ {n : ℕ}, positional base w = some n →
    digitValue base c = some d → positional base (w ++ [c]) = some (n * base + d) := by
  induction w with
  | nil =>
    intro n hn hd
    cases hn
    simp [positional, hd]
  | cons c' w ih =>
    intro n hn hd
    obtain ⟨d', hd', hn⟩ := Option.bind_eq_some_iff.mp hn
    obtain ⟨m, hm, hn⟩ := Option.bind_eq_some_iff.mp hn
    cases hn
    have hlen : (w ++ [c]).length = w.length + 1 := by
      rw [List.length_append, List.length_singleton]
    have hvalue : d' * base ^ (w.length + 1) + (m * base + d) =
        (d' * base ^ w.length + m) * base + d := by
      rw [Nat.pow_succ]
      ring
    rw [List.cons_append, positional, hd', ih hm hd, hlen]
    exact congrArg some hvalue

/-- The digits of a number write it. -/
theorem positional_toDigits (hbase : base ∈ [8, 10, 16]) :
    positional base (Nat.toDigits base n) = some n := by
  have hone : 1 < base := by
    have hall : ∀ base ∈ [8, 10, 16], 1 < base := by decide
    exact hall base hbase
  induction n using Nat.strongRecOn with
  | ind n ih =>
    by_cases hlt : n < base
    · rw [Nat.toDigits_of_lt_base hlt, positional, digitValue_of_lt hbase hlt]
      simp [positional]
    · have hdiv := ih (n / base) (Nat.div_lt_self (by omega) hone)
      have hdigit := digitValue_of_lt hbase (Nat.mod_lt n (by omega : base > 0))
      rw [Nat.toDigits_of_base_le hone (by omega), positional_concat hdiv hdigit, Nat.mul_comm,
        Nat.div_add_mod]

/-- A number with leading zeros, if there is room for it. -/
theorem positional_hexText : ∀ {w n : ℕ}, n < 16 ^ w → positional 16 (hexText w n) = some n
  | 0, n, h => by
    rw [Nat.pow_zero] at h
    rw [hexText, positional, Nat.lt_one_iff.mp h]
  | w + 1, n, h => by
    have hdiv : n / 16 < 16 ^ w := Nat.div_lt_of_lt_mul (by rwa [Nat.pow_succ, Nat.mul_comm] at h)
    have hdigit := digitValue_digitChar (Nat.mod_lt n (by decide : 16 > 0))
    rw [hexText, positional_concat (positional_hexText hdiv) hdigit, Nat.mul_comm,
      Nat.div_add_mod]

/-- A literal is an expression with the value it denotes. -/
theorem parse_of_cInteger {w : CStr} (hw : IntegerText w) (hvalue : cInteger w = some v.toNat) :
    cdbgAstParse w = some (.num v) := by
  rw [cdbgAstParse_integer hw, numberValue_of_cInteger hw hvalue v.toNat_lt, UInt64.ofNat_toNat]

theorem parse_hex {h : CStr} (hne : h ≠ []) (hh : ∀ c ∈ h, ∃ d < 16, c = Nat.digitChar d)
    (hvalue : positional 16 h = some v.toNat) : cdbgAstParse ('0' :: 'x' :: h) = some (.num v) := by
  have hall : ∀ d < 16, isHex (Nat.digitChar d) = true := by decide
  refine parse_of_cInteger (.hex (.inl rfl) hne fun c hc => ?_) hvalue
  obtain ⟨d, hd, rfl⟩ := hh c hc
  exact hall d hd

theorem mem_toDigits (hbase : base ∈ [8, 10, 16]) : ∀ {n : ℕ} {c : Char},
    c ∈ Nat.toDigits base n → ∃ d < base, c = Nat.digitChar d := by
  have hone : 1 < base := by
    have hall : ∀ base ∈ [8, 10, 16], 1 < base := by decide
    exact hall base hbase
  intro n
  induction n using Nat.strongRecOn with
  | ind n ih =>
    intro c hc
    by_cases hlt : n < base
    · rw [Nat.toDigits_of_lt_base hlt, List.mem_singleton] at hc
      exact ⟨n, hlt, hc⟩
    · rw [Nat.toDigits_of_base_le hone (by omega), List.mem_append, List.mem_singleton] at hc
      rcases hc with hc | rfl
      · exact ih (n / base) (Nat.div_lt_self (by omega) hone) hc
      · exact ⟨n % base, Nat.mod_lt n (by omega), rfl⟩

theorem parse_hexadecimalText (v : UInt64) : cdbgAstParse (hexadecimalText v) = some (.num v) :=
  parse_hex Nat.toDigits_ne_nil (fun _ => mem_toDigits (by decide))
    (positional_toDigits (by decide))

theorem parse_hexNumeral {w : ℕ} (hw : 0 < w) (hv : v.toNat < 16 ^ w) :
    cdbgAstParse (hexNumeral w v) = some (.num v) := by
  refine parse_hex ?_ (fun _ => mem_hexText) (positional_hexText hv)
  obtain ⟨w, rfl⟩ := Nat.exists_eq_succ_of_ne_zero (Nat.pos_iff_ne_zero.mp hw)
  rw [hexText]
  exact List.append_ne_nil_of_right_ne_nil _ (List.cons_ne_nil _ _)

theorem parse_octalText (v : UInt64) : cdbgAstParse (octalText v) = some (.num v) := by
  rw [octalText]
  split
  · rename_i hv
    subst hv
    exact cdbgAstParse_integer (.decimal (by decide) (by decide))
  · have hdigits : ∀ c ∈ Nat.toDigits 8 v.toNat, isDigit c = true := by
      intro c hc
      have hall : ∀ d < 8, isDigit (Nat.digitChar d) = true := by decide
      obtain ⟨d, hd, rfl⟩ := mem_toDigits (by decide) hc
      exact hall d hd
    have hvalue : positional 8 ('0' :: Nat.toDigits 8 v.toNat) = some v.toNat := by
      rw [positional, positional_toDigits (by decide), show digitValue 8 '0' = some 0 by decide]
      simp
    refine parse_of_cInteger (.decimal (List.cons_ne_nil _ _) fun c hc => ?_) ?_
    · rcases List.mem_cons.mp hc with rfl | hc
      · rfl
      · exact hdigits c hc
    · rw [cInteger_octal hdigits, hvalue]

theorem parse_decimal (v : UInt64) : cdbgAstParse (Nat.toDigits 10 v.toNat) = some (.num v) := by
  rw [cdbgAstParse_integer (.decimal Nat.toDigits_ne_nil fun c => isDigit_of_mem_toDigits),
    numberValue_toDigits]

/-- A minus sign directly in front of a numeral is the operator. -/
theorem parse_negative (v : UInt64) :
    cdbgAstParse ('-' :: Nat.toDigits 10 v.toNat) = some (.unop .neg (.num v)) := by
  have hdigits : ∀ c ∈ Nat.toDigits 10 v.toNat, isDigit c = true := fun c => isDigit_of_mem_toDigits
  have hne : Nat.toDigits 10 v.toNat ≠ [] := Nat.toDigits_ne_nil
  have hnumber : next exprRules (Nat.toDigits 10 v.toNat ++ []) = (some (.number v), []) := by
    rw [next_number hne hdigits (.inl rfl), numberValue_toDigits]
  have hminus : next exprRules (['-'] ++ Nat.toDigits 10 v.toNat) =
      (some (.char '-'), Nat.toDigits 10 v.toNat) := by
    obtain ⟨c, cs, hcs⟩ := List.exists_cons_of_ne_nil hne
    obtain ⟨d, hd, rfl⟩ := @mem_toDigits 10 (by decide) _ _ (hcs ▸ List.mem_cons_self)
    rw [hcs]
    have hall : d = 0 ∨ d = 1 ∨ d = 2 ∨ d = 3 ∨ d = 4 ∨ d = 5 ∨ d = 6 ∨ d = 7 ∨ d = 8 ∨ d = 9 := by
      omega
    rcases hall with rfl | rfl | rfl | rfl | rfl | rfl | rfl | rfl | rfl | rfl <;> rfl
  have hlex : lex exprRules ('-' :: Nat.toDigits 10 v.toNat) = [.char '-', .number v] := by
    obtain ⟨c, cs, hcs⟩ := List.exists_cons_of_ne_nil hne
    have hfirst := @lexFuel_next _ exprRules (cs.length + 1) _ ['-'] _ (List.cons_ne_nil _ _)
      hminus
    have hsecond := @lexFuel_next _ exprRules cs.length _ _ [] hne hnumber
    rw [List.append_nil] at hsecond
    rw [lex, List.length_cons]
    rw [hcs] at hfirst hsecond ⊢
    rw [List.length_cons, List.singleton_append] at *
    rw [hfirst, hsecond]
    cases cs.length <;> rfl
  rw [cdbgAstParse, hlex]
  rfl

end Numerals

/-! ### Numbers are typed back -/

/-- The formats whose numerals are expressions. -/
def PrintFormat.isNumeral : PrintFormat → Bool
  | hex | oct | dec | udec | zhex => true
  | _ => false

/-- The number that a numeral of the format stands for. -/
def shownValue (fmt : PrintFormat) (value : UInt64) (size : ℕ) (isSigned : Bool) : UInt64 :=
  let value := maskToSize value size
  if fmt = .dec ∧ isSigned then (signExtendValue value size).toUInt64 else value

/-- The scalar that `print` shows for an expression: its value, its size and its sign. -/
def printedScalar (env : EvalEnv) (ast : Ast) : Option (UInt64 × ℕ × Bool) :=
  if cdbgAstIsLvalueShaped ast then
    (cdbgAstResolveLvalue env ast).bind fun loc =>
      (readScalarValue env loc.1 loc.2.size).map fun value => (value, loc.2.size, loc.2.isSigned)
  else (cdbgAstEval env ast).map fun result => (result.value, 8, true)

section TypedBack

variable {env : PrintEnv} {fmt : PrintFormat} {value : UInt64} {size : ℕ}

theorem maskToSize_lt (value : UInt64) (size : ℕ) :
    (maskToSize value size).toNat < 16 ^ (scalarWidth size * 2) := by
  rw [maskToSize, scalarWidth]
  split
  · have hwidth : (if size = 0 ∨ size > 8 then 8 else size) = 8 := by
      split <;> omega
    rw [hwidth]
    exact value.toNat_lt
  · have hall : ∀ size < 8, ((1 <<< UInt64.ofNat (size * 8)) - 1 : UInt64).toNat <
        16 ^ (size * 2) := by
      decide
    rw [if_neg (by omega), UInt64.toNat_and]
    exact lt_of_le_of_lt Nat.and_le_right (hall size (by omega))

/-- A signed numeral evaluates to the bits of its number. -/
theorem eval_decimalText (env : EvalEnv) (v : Int64) : ∃ e,
    cdbgAstParse (decimalText v.toInt) = some e ∧ cdbgAstIsLvalueShaped e = false ∧
      cdbgAstEval env e = some { value := v.toUInt64 } := by
  have hint : v.toInt = if 2 * v.toUInt64.toNat < 2 ^ 64 then (v.toUInt64.toNat : Int)
      else v.toUInt64.toNat - (2 ^ 64 : ℕ) := BitVec.toInt_eq_toNat_cond v.toBitVec
  have hlt := v.toUInt64.toNat_lt
  rw [decimalText]
  by_cases hneg : v.toInt < 0
  · have habs : v.toInt.natAbs = (-v.toUInt64).toNat := by
      have hsize : UInt64.size = 2 ^ 64 := rfl
      rw [UInt64.toNat_neg, hsize]
      split at hint <;> omega
    rw [if_pos hneg, habs]
    refine ⟨_, parse_negative _, rfl, ?_⟩
    simp [cdbgAstEval]
  · have habs : v.toInt.natAbs = v.toUInt64.toNat := by
      split at hint <;> omega
    rw [if_neg hneg, habs]
    exact ⟨_, parse_decimal _, rfl, rfl⟩

/-- The numeral of a value is an expression for the value. -/
theorem eval_scalarText (hfmt : fmt.isNumeral = true) (isSigned isPointer isAddress : Bool) :
    ∃ text e, scalarText env fmt value size isSigned isPointer isAddress = some text ∧
      cdbgAstParse text = some e ∧ cdbgAstIsLvalueShaped e = false ∧
      cdbgAstEval env.eval e = some { value := shownValue fmt value size isSigned } := by
  cases fmt with
  | hex => exact ⟨_, _, rfl, parse_hexadecimalText _, rfl, rfl⟩
  | oct => exact ⟨_, _, rfl, parse_octalText _, rfl, rfl⟩
  | udec => exact ⟨_, _, rfl, parse_decimal _, rfl, rfl⟩
  | zhex =>
    have hwidth : 0 < scalarWidth size * 2 := by
      rw [scalarWidth]
      split <;> omega
    exact ⟨_, _, rfl, parse_hexNumeral hwidth (maskToSize_lt value size), rfl, rfl⟩
  | dec =>
    cases isSigned with
    | true =>
      obtain ⟨e, hparse, hshape, heval⟩ :=
        eval_decimalText env.eval (signExtendValue (maskToSize value size) size)
      exact ⟨_, e, rfl, hparse, hshape, heval⟩
    | false => exact ⟨_, _, rfl, parse_decimal _, rfl, rfl⟩
  | _ => exact Bool.noConfusion hfmt

/-- What `print` shows for an expression in the formats `/d`, `/u`, `/x`, `/o` and `/z` can be
typed back: it is an expression, and `print` shows for it the number that has been shown. -/
theorem numeral_typed_back {expr : CStr} {ast : Ast} {isSigned : Bool}
    (hfmt : fmt.isNumeral = true) (hast : cdbgAstParse expr = some ast)
    (hscalar : printedScalar env.eval ast = some (value, size, isSigned)) :
    ∃ text type e, printExpression env fmt expr =
        { rc := 0, out := [labelled env expr fmt type text] } ∧
      cdbgAstParse text = some e ∧
      printedScalar env.eval e = some (shownValue fmt value size isSigned, 8, true) := by
  have hdefault : fmt ≠ .default := by
    rintro rfl
    exact Bool.noConfusion hfmt
  have hscalarText : ∀ isPointer isAddress type, ∃ text e,
      printScalar env expr fmt value size isSigned isPointer isAddress type =
        { rc := 0, out := [labelled env expr fmt type text] } ∧
      cdbgAstParse text = some e ∧
      printedScalar env.eval e = some (shownValue fmt value size isSigned, 8, true) := by
    intro isPointer isAddress type
    obtain ⟨text, e, htext, hparse, hshape, heval⟩ :=
      @eval_scalarText env fmt value size hfmt isSigned isPointer isAddress
    refine ⟨text, e, ?_, hparse, ?_⟩
    · rw [printScalar, htext]
    · rw [printedScalar, hshape, if_neg Bool.false_ne_true, heval]
      rfl
  rw [printExpression, hast]
  rw [printedScalar] at hscalar
  dsimp only
  by_cases hlvalue : cdbgAstIsLvalueShaped ast = true
  · rw [if_pos hlvalue] at hscalar ⊢
    obtain ⟨⟨addr, var⟩, hloc, hread⟩ := Option.bind_eq_some_iff.mp hscalar
    obtain ⟨v, hv, hread⟩ := Option.map_eq_some_iff.mp hread
    cases hread
    obtain ⟨text, e, htext, hback⟩ := hscalarText var.isPointer false var.type
    refine ⟨text, var.type, e, ?_, hback⟩
    rw [hloc]
    dsimp only
    rw [printLocation, if_neg fun h => hdefault h.2, if_pos (.inr hdefault), hv]
    exact htext
  · rw [if_neg hlvalue] at hscalar ⊢
    obtain ⟨result, hresult, hread⟩ := Option.map_eq_some_iff.mp hscalar
    cases hread
    obtain ⟨text, e, htext, hback⟩ := hscalarText false result.isAddress result.type
    refine ⟨text, result.type, e, ?_, hback⟩
    rw [hresult]
    exact htext

end TypedBack

/-! ### A negative number -/

/-- A program with the variable `short x`, whose value is -2. -/
def minusTwo : PrintEnv where
  info :=
    { findVar := fun name => if name = "x".toList then some ("short".toList, 0x3000) else none
      findStruct := fun _ => none
      lookupSym := fun _ => none }
  strtod _ := 0
  mem addr := if addr = 0x3000 then 0xfe else 0xff
  readable _ := true
  printPretty := false
  aggregateKind _ := .none
  syms := {}
  floatText _ := []
  doubleText _ := []

/-- `print /d x` shows `-2`, and `print -2` the same number. -/
theorem numeral_typed_back_short : ∃ text type e, printExpression minusTwo .dec "x".toList =
      { rc := 0, out := [labelled minusTwo "x".toList .dec type text] } ∧
    cdbgAstParse text = some e ∧ printedScalar minusTwo.eval e = some (-2, 8, true) :=
  @numeral_typed_back minusTwo .dec 0xfffe 2 "x".toList (.ident "x".toList) true rfl
    (by decide +kernel) (by decide +kernel)

example : (printCommand minusTwo "/d x".toList).out = ["x = -2\n".toList] := by decide +kernel

end Debugger
