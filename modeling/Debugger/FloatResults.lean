/-
Floating-point results of expressions.

A floating-point result has two fields for its number, `fvalue` and the bits in `value`.
`fvalue` is the leftmost literal of the tree, with its unary minus signs
(`floatValue_of_isFloat`).  A binary operator computes with the bits and hands `is_float` and
`fvalue` of its left operand on; every other node keeps the two fields together
(`float_result`).
-/
import Debugger.PrintPaths

namespace Debugger

/-- The number that a tree hands on as a floating-point result: its leftmost literal, negated
by each unary minus. -/
def Ast.floatValue (strtod : CStr → UInt64) : Ast → Option UInt64
  | .float text => some (strtod text)
  | .unop .pos lhs => lhs.floatValue strtod
  | .unop .neg lhs => (lhs.floatValue strtod).map negateDouble
  | .binop _ lhs _ => lhs.floatValue strtod
  | _ => none

/-- The tree without the unary pluses at its root. -/
def Ast.withoutPlus : Ast → Ast
  | .unop .pos lhs => lhs.withoutPlus
  | e => e

/-- The integer result of the root of a tree, where that is a binary operator. -/
def rootResult (env : EvalEnv) : Ast → Option UInt64
  | .binop op lhs rhs => do
    let lhs ← cdbgAstEval env lhs
    let rhs ← cdbgAstEval env rhs
    combineBinary lhs.value rhs.value op
  | _ => none

section Float

variable {env : EvalEnv} {e : Ast} {r : ExprResult}

theorem readLocation_isFloat {loc : Option (Addr × VarInfo)} (h : readLocation env loc = some r) :
    r.isFloat = false := by
  simp only [readLocation, Option.bind_eq_bind] at h
  obtain ⟨l, -, h⟩ := Option.bind_eq_some_iff.mp h
  obtain ⟨v, -, h⟩ := Option.bind_eq_some_iff.mp h
  cases h
  rfl

/-- A value that has been read from memory, compared or taken the address of is an integer. -/
theorem floatValue_of_isFloat : ∀ {r : ExprResult}, cdbgAstEval env e = some r →
    (if r.isFloat then some r.fvalue else none) = e.floatValue env.strtod := by
  induction e with
  | num num =>
    intro r h
    cases h
    rfl
  | float text =>
    intro r h
    cases h
    rfl
  | ident name | member lhs name _ | arrow lhs name _ | index lhs rhs _ _ =>
    intro r h
    rw [cdbgAstEval] at h
    simp [Ast.floatValue, readLocation_isFloat h]
  | binop op lhs rhs ihl _ =>
    intro r h
    rw [cdbgAstEval] at h
    obtain ⟨l, hl, h⟩ := Option.bind_eq_some_iff.mp h
    obtain ⟨r', -, h⟩ := Option.bind_eq_some_iff.mp h
    obtain ⟨v, -, h⟩ := Option.bind_eq_some_iff.mp h
    cases h
    have hleft := ihl hl
    exact hleft
  | unop kind lhs ih =>
    intro r h
    cases kind with
    | pos => exact ih h
    | neg =>
      rw [cdbgAstEval] at h
      obtain ⟨inner, hinner, h⟩ := Option.bind_eq_some_iff.mp h
      rw [Ast.floatValue, ← ih hinner]
      dsimp only at h
      split at h <;> cases h <;> simp [*]
    | not | bnot =>
      rw [cdbgAstEval] at h
      obtain ⟨inner, -, h⟩ := Option.bind_eq_some_iff.mp h
      cases h
      rfl
    | deref =>
      rw [cdbgAstEval] at h
      obtain ⟨inner, -, h⟩ := Option.bind_eq_some_iff.mp h
      obtain ⟨v, -, h⟩ := Option.bind_eq_some_iff.mp h
      cases h
      rfl
    | addr =>
      rw [cdbgAstEval] at h
      split at h
      · obtain ⟨loc, -, h⟩ := Option.bind_eq_some_iff.mp h
        cases h
        rfl
      · simp at h

/-- The `value` of a floating-point result is the bits of its `fvalue`, or the result of the
binary operator at the root of the tree. -/
theorem value_of_isFloat : ∀ {r : ExprResult}, cdbgAstEval env e = some r → r.isFloat = true →
    r.value = (rootResult env e.withoutPlus).getD r.fvalue := by
  induction e with
  | num num =>
    intro r h hf
    cases h
    exact Bool.noConfusion hf
  | float text =>
    intro r h _
    cases h
    rfl
  | ident name | member lhs name _ | arrow lhs name _ | index lhs rhs _ _ =>
    intro r h hf
    rw [cdbgAstEval] at h
    rw [readLocation_isFloat h] at hf
    exact Bool.noConfusion hf
  | binop op lhs rhs _ _ =>
    intro r h _
    rw [cdbgAstEval] at h
    obtain ⟨l, hl, h⟩ := Option.bind_eq_some_iff.mp h
    obtain ⟨r', hr, h⟩ := Option.bind_eq_some_iff.mp h
    obtain ⟨v, hv, h⟩ := Option.bind_eq_some_iff.mp h
    cases h
    simp [Ast.withoutPlus, rootResult, hl, hr, hv]
  | unop kind lhs ih =>
    intro r h hf
    cases kind with
    | pos => exact ih h hf
    | neg =>
      rw [cdbgAstEval] at h
      obtain ⟨inner, -, h⟩ := Option.bind_eq_some_iff.mp h
      dsimp only at h
      split at h <;> cases h
      · rfl
      · exact Bool.noConfusion hf
    | not | bnot | deref | addr =>
      have hfloat := floatValue_of_isFloat h
      rw [if_pos hf] at hfloat
      simp [Ast.floatValue] at hfloat

/-- A floating-point result is the number of the leftmost literal with its minus signs, and
its `value` the bits of that number, but for a binary operator at the root: there it is the
operator's result on the bits of its operands. -/
theorem float_result (h : cdbgAstEval env e = some r) (hf : r.isFloat = true) :
    e.floatValue env.strtod = some r.fvalue ∧
      r.value = (rootResult env e.withoutPlus).getD r.fvalue := by
  refine ⟨?_, value_of_isFloat h hf⟩
  rw [← floatValue_of_isFloat h, if_pos hf]

end Float

/-- The bits of `1.5` for every literal. -/
def oneAndAHalf : EvalEnv := { minusOne with strtod := fun _ => 0x3ff8000000000000 }

/-- `-(1.5 + 1)` -/
theorem float_result_negated_sum :
    (Ast.unop .neg (.binop .add (.float "1.5".toList) (.num 1))).floatValue
        oneAndAHalf.strtod = some 0xbff8000000000000 ∧
      (0xbff8000000000000 : UInt64) = (rootResult oneAndAHalf (Ast.withoutPlus
        (.unop .neg (.binop .add (.float "1.5".toList) (.num 1))))).getD 0xbff8000000000000 := by
  have heval : cdbgAstEval oneAndAHalf
      (.unop .neg (.binop .add (.float "1.5".toList) (.num 1))) =
      some { value := 0xbff8000000000000, fvalue := 0xbff8000000000000, isFloat := true } := by
    decide
  exact float_result heval rfl

/-- `1.5 + 1` has the `fvalue` 1.5 and a `value` one above its bits. -/
theorem float_fields_differ :
    ¬ ∀ (env : EvalEnv) (e : Ast) (r : ExprResult), cdbgAstEval env e = some r →
      r.isFloat = true → r.value = r.fvalue := by
  intro h
  have heq := h oneAndAHalf (.binop .add (.float "1.5".toList) (.num 1))
    { value := 0x3ff8000000000001, fvalue := 0x3ff8000000000000, isFloat := true } (by decide) rfl
  exact absurd heq (by decide)

end Debugger
