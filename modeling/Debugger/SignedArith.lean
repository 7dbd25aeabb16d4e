/-
Arithmetic on the values that `print` shows.

`print` shows the value of an expression as a signed number of 64 bits (`disp`), and
`combine_binary` computes with unsigned ones.  `signed_result_iff` says for which shown
operands the orderings, `/` and `%` come out as in C: for an ordering both have to have the
same sign, and a quotient or a remainder of negative numbers is right by coincidence only.
-/
import Debugger.PrintPaths
import Debugger.Lib.TwosComplement

open Prog

namespace Debugger

/-- The number that `print` shows for a value. -/
def disp (value : UInt64) : Int := (signExtendValue value 8).toInt

/-- The orderings, `/` and `%` of C on signed numbers of 64 bits; none for the other operators
and where C leaves the result undefined. -/
def signedResult (m n : Int) : AstOp → Option Int
  | .lt => some (if m < n then 1 else 0)
  | .gt => some (if m > n then 1 else 0)
  | .le => some (if m ≤ n then 1 else 0)
  | .ge => some (if m ≥ n then 1 else 0)
  | .div => if n = 0 ∨ (m = -2 ^ 63 ∧ n = -1) then none else some (m.tdiv n)
  | .mod => if n = 0 ∨ (m = -2 ^ 63 ∧ n = -1) then none else some (m.tmod n)
  | _ => none

/-- The operands for which unsigned arithmetic gives the signed result. -/
def SignsAgree (m n : Int) : AstOp → Prop
  | .div => DivAgrees m n
  | .mod => ModAgrees (2 ^ 64) m n
  | _ => m < 0 ↔ n < 0

instance (m n : Int) : (op : AstOp) → Decidable (SignsAgree m n op)
  | .div => inferInstanceAs (Decidable (DivAgrees m n))
  | .mod => inferInstanceAs (Decidable (ModAgrees (2 ^ 64) m n))
  | .add | .sub | .mul | .shl | .shr | .lt | .gt | .le | .ge | .eq | .ne | .band | .bor | .bxor
  | .land | .lor => inferInstanceAs (Decidable (m < 0 ↔ n < 0))

section Signed

variable {env : EvalEnv} {a b : Ast} {ra rb : ExprResult} {op : AstOp} {u v : UInt64} {k : Int}

/-- A shown number is the one its bits stand for in two's complement. -/
theorem disp_eq (v : UInt64) : disp v = signed (2 ^ 63) v.toNat := by
  rw [disp, show signExtendValue v 8 = v.toInt64 from rfl, toInt_toInt64, ofBits, signed]
  split <;> split <;> simp at * <;> omega

theorem toNat_lt_two_mul (v : UInt64) : v.toNat < 2 * 2 ^ 63 := v.toNat_lt

theorem disp_lt_iff : (u < v ↔ disp u < disp v) ↔ (disp u < 0 ↔ disp v < 0) := by
  rw [disp_eq, disp_eq, UInt64.lt_iff_toNat_lt]
  exact lt_iff_signed_lt (toNat_lt_two_mul u) (toNat_lt_two_mul v)

theorem disp_le_iff : (u ≤ v ↔ disp u ≤ disp v) ↔ (disp u < 0 ↔ disp v < 0) := by
  rw [disp_eq, disp_eq, UInt64.le_iff_toNat_le]
  exact le_iff_signed_le (toNat_lt_two_mul u) (toNat_lt_two_mul v)

theorem disp_eq_zero : disp v = 0 ↔ v = 0 := by
  rw [disp_eq, ← UInt64.toNat_inj, UInt64.toNat_zero, signed]
  have hv := v.toNat_lt
  split <;> omega

/-- `print` shows what `combine_binary` makes of the operands. -/
theorem printAst_binop (ha : cdbgAstEval env a = some ra) (hb : cdbgAstEval env b = some rb) :
    printAst env (.binop op a b) =
      (combineBinary ra.value rb.value op).map fun value => .number (disp value) := by
  rw [printAst, if_neg (by simp [cdbgAstIsLvalueShaped])]
  simp only [cdbgAstEval, ha, hb, Option.bind_eq_bind, Option.bind_some]
  cases combineBinary ra.value rb.value op <;> rfl

/-- An ordering is shown as 1 or 0, and it is the right one where the words are ordered as the
numbers. -/
theorem shown_truth {p q : Prop} [Decidable p] [Decidable q] :
    ((some (if p then (1 : UInt64) else 0)).map fun value => Shown.number (disp value)) =
      some (.number (if q then 1 else 0)) ↔ (p ↔ q) := by
  have h1 : disp 1 = 1 := by decide
  have h0 : disp 0 = 0 := by decide
  by_cases hp : p <;> by_cases hq : q <;> simp [hp, hq, h0, h1]

/-- `print` shows for an ordering, a quotient or a remainder what C makes of the shown
operands exactly where these have suitable signs. -/
theorem signed_result_iff (ha : cdbgAstEval env a = some ra) (hb : cdbgAstEval env b = some rb)
    (hk : signedResult (disp ra.value) (disp rb.value) op = some k) :
    printAst env (.binop op a b) = some (.number k) ↔
      SignsAgree (disp ra.value) (disp rb.value) op := by
  rw [printAst_binop ha hb]
  cases op with
  | lt =>
    cases hk
    exact shown_truth.trans disp_lt_iff
  | le =>
    cases hk
    exact shown_truth.trans disp_le_iff
  | gt =>
    cases hk
    exact shown_truth.trans (disp_lt_iff.trans Iff.comm)
  | ge =>
    cases hk
    exact shown_truth.trans (disp_le_iff.trans Iff.comm)
  | div =>
    rw [signedResult] at hk
    split at hk
    · simp at hk
    · rename_i hdef
      cases hk
      have h0 : rb.value ≠ 0 := fun h => hdef (.inl (disp_eq_zero.mpr h))
      have hnat : rb.value.toNat ≠ 0 := fun h => h0 (UInt64.toNat_inj.mp h)
      rw [combineBinary, if_neg h0, Option.map_some, Option.some_inj, Shown.number.injEq,
        SignsAgree, disp_eq, disp_eq, disp_eq, UInt64.toNat_div]
      refine signed_div_iff (toNat_lt_two_mul _) (toNat_lt_two_mul _) hnat fun h => ?_
      rw [← disp_eq, ← disp_eq] at h
      exact hdef (.inr h)
  | mod =>
    rw [signedResult] at hk
    split at hk
    · simp at hk
    · rename_i hdef
      cases hk
      have h0 : rb.value ≠ 0 := fun h => hdef (.inl (disp_eq_zero.mpr h))
      have hnat : rb.value.toNat ≠ 0 := fun h => h0 (UInt64.toNat_inj.mp h)
      rw [combineBinary, if_neg h0, Option.map_some, Option.some_inj, Shown.number.injEq,
        SignsAgree, disp_eq, disp_eq, disp_eq, UInt64.toNat_mod]
      exact signed_mod_iff (toNat_lt_two_mul _) (toNat_lt_two_mul _) hnat
  | add | sub | mul | shl | shr | eq | ne | band | bor | bxor | land | lor => cases hk

/-- By a power of two the remainder 0 of a negative number is right, the quotient is not. -/
example : SignsAgree (-8) 8 .mod ∧ ¬ SignsAgree (-7) 8 .mod ∧ ¬ SignsAgree (-8) 8 .div := by
  decide

end Signed

/-- `-7` and `2` -/
theorem signed_result_iff_negative :
    printAst minusOne (.binop .div (.unop .neg (.num 7)) (.num 2)) = some (.number (-3)) ↔
      SignsAgree (disp (-7)) (disp 2) .div := by
  have ha : cdbgAstEval minusOne (.unop .neg (.num 7)) = some { value := -7 } := by decide
  have hb : cdbgAstEval minusOne (.num 2) = some { value := 2 } := rfl
  have hk : signedResult (disp (-7)) (disp 2) .div = some (-3) := by decide
  exact (signed_result_iff ha hb hk :)

/-- `print -1 < 0` shows 0. -/
theorem signed_comparison_wrong :
    ¬ ∀ (env : EvalEnv) (a b : Ast) (ra rb : ExprResult) (op : AstOp) (k : Int),
      cdbgAstEval env a = some ra → cdbgAstEval env b = some rb →
      signedResult (disp ra.value) (disp rb.value) op = some k →
      printAst env (.binop op a b) = some (.number k) := by
  intro h
  have hless := h minusOne (.unop .neg (.num 1)) (.num 0) { value := -1 } { value := 0 } .lt 1
    (by decide) (by decide) (by decide)
  have hshown : printAst minusOne (.binop .lt (.unop .neg (.num 1)) (.num 0)) =
      some (.number 0) := by decide
  rw [hshown] at hless
  exact absurd hless (by decide)

end Debugger
