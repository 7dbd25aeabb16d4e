/-
What `print` shows behind a `set`.

A `set` that succeeds stores the value of the right side in the width of the left side, and `print`
of the left side then shows this value converted to the size and the sign of the variable
(`set_then_print`), as long as the assignment has not moved the left side itself.
-/
import Debugger.PrintAggregates

open Prog

namespace Debugger

section Numbers

variable {v : UInt64} {size : ℕ}

/-- The number a scalar is shown as is that of its bits. -/
theorem printScalarInline_eq (hsize : 0 < size ∧ size ≤ 8) (hv : v.toNat < 256 ^ size)
    (isSigned : Bool) :
    printScalarInline v size isSigned false = decimalText (ofBits isSigned size v.toNat) := by
  cases isSigned with
  | true =>
    rw [printScalarInline, if_neg Bool.false_ne_true, if_pos rfl, signExtendValue_eq hsize hv]
  | false =>
    have hnat : ofBits false size v.toNat = (v.toNat : ℤ) := if_neg fun h => Bool.noConfusion h.1
    rw [printScalarInline, if_neg Bool.false_ne_true, if_neg Bool.false_ne_true, decimalText, hnat,
      if_neg (by omega), Int.natAbs_natCast]

end Numbers

/-- What is printed for a scalar: its number, and its bits in hexadecimal. -/
def numberText (isSigned : Bool) (size bits : ℕ) : CStr :=
  decimalText (ofBits isSigned size bits) ++ ' ' :: '(' :: '0' :: 'x' ::
    (Nat.toDigits 16 bits ++ [')'])

/-- Where `print` is computed in a state.  The `view` is what depends on neither the debug
information nor the memory. -/
def Sys.printEnv (s : Sys) (info : Sys → DebugInfo) (strtod : CStr → UInt64)
    (readable : Sys → Addr → Bool) (view : PrintEnv) : PrintEnv :=
  { view with
    info := info s
    strtod := strtod
    mem := ((s.process s.dbg.pid).map (·.mem)).getD fun _ => 0
    readable := readable s }

section Command

variable {env : ExprEnv} {s s' : Sys}

/-- Behind a `set` that succeeds, `print` shows for the left side the value of the right side,
converted to the size and the sign of the left side. -/
theorem set_then_print {info : Sys → DebugInfo} {strtod : CStr → UInt64}
    {readable : Sys → Addr → Bool} {args lhs rhs : CStr} {t : Ast} {addr : Addr} {var : VarInfo}
    {value : UInt64} {view : PrintEnv}
    (hrun : (cmdSetLine (withExpressions env fun s => s.evalEnv info strtod readable)
      (some args)).run s = (0, s'))
    (hopt : setOptions.any (·.isPrefixOf (trimSpace (snprintf maxCmd args))) = false)
    (hsides : splitAssignment (trimSpace (snprintf maxCmd args)) = some (lhs, rhs))
    (hreg : lhs.head? ≠ some '$') (ht : cdbgAstParse lhs = some t)
    (hloc : cdbgAstResolveLvalue (s.refreshed.evalEnv info strtod readable) t = some (addr, var))
    (hvalue : (withExpressions env fun s => s.evalEnv info strtod readable).evalExpr rhs
      s.refreshed = some (value, false))
    (hback : cdbgAstResolveLvalue (s'.evalEnv info strtod readable) t = some (addr, var))
    (hread : (s'.evalEnv info strtod readable).readableAt addr var.size = true)
    (hsize : 0 < var.size ∧ var.size ≤ 8) (harray : var.isArray = false)
    (hpointer : var.isPointer = false)
    (hscalar : aggregateMembers (s'.printEnv info strtod readable view) var.type = none) :
    printExpression (s'.printEnv info strtod readable view) .default lhs =
      (shownAs lhs <|
        printTypeAnnotation (s'.printEnv info strtod readable view) .default var.type ++
          numberText var.isSigned var.size (value.toNat % 256 ^ var.size)) := by
  obtain ⟨p, value', addr', size', -, hvalue', hloc', hp'⟩ :=
    cmdSetLine_wrote hrun hopt hsides hreg
  obtain rfl : value = value' := (Prod.mk.inj (Option.some.inj (hvalue.symm.trans hvalue'))).1
  -- the location that is written
  have hwhere : addr' = addr ∧ size' = var.size := by
    simp only [withExpressions, ht, Option.bind_eq_bind, Option.bind_some, resolveSetLhs,
      hloc] at hloc'
    split at hloc'
    · split at hloc'
      · cases hloc'
      · obtain ⟨rfl, rfl⟩ := Prod.mk.inj (Option.some.inj hloc')
        exact ⟨rfl, rfl⟩
    · cases hloc'
  have hmem : (s'.evalEnv info strtod readable).mem =
      p.mem.write addr (bytesOf (scalarWidth var.size) value) := by
    show ((s'.process s'.dbg.pid).map (·.mem)).getD _ = _
    rw [hp', hwhere.1, hwhere.2]
    rfl
  obtain ⟨r, hr, hrvalue⟩ := readScalarValue_written hsize hmem hread
  generalize hafter : s'.printEnv info strtod readable view = after at hscalar ⊢
  have heval : after.eval = s'.evalEnv info strtod readable := by
    rw [← hafter]
    rfl
  rw [← heval] at hback hr
  have hlt : r.toNat < 256 ^ var.size := readScalarValue_lt hsize hr
  have htext : scalarText after .default r var.size var.isSigned false false =
      some (numberText var.isSigned var.size (value.toNat % 256 ^ var.size)) := by
    rw [scalarText_default hsize hlt, printScalarInline_eq hsize hlt, numberText, ← hrvalue]
    rfl
  rw [printExpression_of_resolve ht hback, printLocation, if_neg (by simp [harray]), hscalar,
    ite_self]
  dsimp only
  rw [hr]
  dsimp only
  rw [hpointer, printScalar, htext]
  simp [labelled, shownAs, List.append_assoc]

end Command

/-! ### A `short` -/

/-- A program with the variable `short x`. -/
def shortInfo (_ : Sys) : DebugInfo where
  findVar name := if name = "x".toList then some ("short".toList, 0x3000) else none
  findStruct _ := none
  lookupSym _ := none

def shortVar : VarInfo :=
  { name := "x".toList, type := "short".toList, size := 2, isSigned := true }

/-- `set x = 65535` -/
abbrev setShort : DbgM Int :=
  cmdSetLine (withExpressions bareEnv fun s => s.evalEnv shortInfo (fun _ => 0) fun _ _ => true)
    (some "x = 65535".toList)

/-- Behind `set x = 65535`, `print x` shows `-1`. -/
theorem set_then_print_short :
    printExpression ((setShort.run oneByte).2.printEnv shortInfo (fun _ => 0) (fun _ _ => true)
      minusTwo) .default "x".toList = shownAs "x".toList "-1 (0xffff)".toList :=
  @set_then_print _ oneByte _ _ _ _ "x = 65535".toList "x".toList "65535".toList
    (.ident "x".toList) 0x3000 shortVar 65535 minusTwo
    (run_of_code (m := setShort) (by decide +kernel)) (by decide) (by decide) (by decide)
    (by decide) (by decide +kernel) (by decide +kernel) (by decide +kernel) (by decide +kernel)
    (by decide) rfl rfl (by decide)

end Debugger
