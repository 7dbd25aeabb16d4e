/-
How the evaluation of an expression fails.

`Fails` and `NoLocation` list the ways, each with its own cause: an unknown variable or member,
memory that cannot be read, a zero divisor, an index out of bounds, an operand of the wrong
kind.  `Fails` is exact (`fails_iff`).  As `cdbg_ast_eval` evaluates both operands of every
operator, `&&` and `||` fail with their right one (`short_circuit_iff`).
-/
import Debugger.PrintPaths

namespace Debugger

mutual

/-- The ways in which `cdbg_ast_resolve_lvalue` fails. -/
inductive NoLocation (env : EvalEnv) : Ast → Prop
  | unknownVariable {name} (h : env.resolveVariableAddress name = none) :
      NoLocation env (.ident name)
  | memberBase {lhs name} (h : NoLocation env lhs) : NoLocation env (.member lhs name)
  | unknownMember {lhs name addr var} (hbase : cdbgAstResolveLvalue env lhs = some (addr, var))
      (h : env.lookupStructMember (snprintf maxTypeName var.type) name = none) :
      NoLocation env (.member lhs name)
  | arrowBase {lhs name} (h : NoLocation env lhs) : NoLocation env (.arrow lhs name)
  | notPointer {lhs name addr var} (hbase : cdbgAstResolveLvalue env lhs = some (addr, var))
      (h : var.isPointer = false) : NoLocation env (.arrow lhs name)
  | unreadablePointer {lhs name addr var}
      (hbase : cdbgAstResolveLvalue env lhs = some (addr, var))
      (h : env.readableAt addr 8 = false) : NoLocation env (.arrow lhs name)
  | unknownPointeeMember {lhs name addr var}
      (hbase : cdbgAstResolveLvalue env lhs = some (addr, var))
      (h : env.lookupStructMember (pointerPointeeType var) name = none) :
      NoLocation env (.arrow lhs name)
  | indexBase {lhs rhs} (h : NoLocation env lhs) : NoLocation env (.index lhs rhs)
  | indexOperand {lhs rhs} (h : Fails env rhs) : NoLocation env (.index lhs rhs)
  | outOfBounds {lhs rhs addr var idx} (hbase : cdbgAstResolveLvalue env lhs = some (addr, var))
      (hidx : cdbgAstEval env rhs = some idx) (harray : var.isArray = true)
      (h : var.arrayCount ≤ idx.value.toNat) : NoLocation env (.index lhs rhs)
  | unreadableElements {lhs rhs addr var}
      (hbase : cdbgAstResolveLvalue env lhs = some (addr, var)) (harray : var.isArray = false)
      (h : env.readableAt addr 8 = false) : NoLocation env (.index lhs rhs)
  | notSubscriptable {lhs rhs addr var}
      (hbase : cdbgAstResolveLvalue env lhs = some (addr, var)) (harray : var.isArray = false)
      (h : var.isPointer = false) : NoLocation env (.index lhs rhs)
  | derefOperand {lhs} (h : Fails env lhs) : NoLocation env (.unop .deref lhs)
  | notLvalue {e} (h : cdbgAstIsLvalueShaped e = false) : NoLocation env e

/-- The ways in which `cdbg_ast_eval` fails. -/
inductive Fails (env : EvalEnv) : Ast → Prop
  | location {e} (hshape : cdbgAstIsLvalueShaped e = true) (h : NoLocation env e) : Fails env e
  | unreadable {e addr var} (hshape : cdbgAstIsLvalueShaped e = true)
      (hderef : ∀ lhs, e ≠ .unop .deref lhs)
      (hloc : cdbgAstResolveLvalue env e = some (addr, var))
      (h : env.readableAt addr (scalarWidth var.size) = false) : Fails env e
  | unreadableTarget {lhs r} (hr : cdbgAstEval env lhs = some r)
      (h : env.readableAt r.value 8 = false) : Fails env (.unop .deref lhs)
  | left {op lhs rhs} (h : Fails env lhs) : Fails env (.binop op lhs rhs)
  | right {op lhs rhs} (h : Fails env rhs) : Fails env (.binop op lhs rhs)
  | zeroDivisor {op lhs rhs r} (hop : op = .div ∨ op = .mod) (hr : cdbgAstEval env rhs = some r)
      (h : r.value = 0) : Fails env (.binop op lhs rhs)
  | operand {kind lhs} (hkind : kind ≠ .addr) (h : Fails env lhs) : Fails env (.unop kind lhs)
  | address {lhs} (h : NoLocation env lhs) : Fails env (.unop .addr lhs)

end

section Failures

variable {env : EvalEnv} {e a b : Ast} {addr : Addr} {var : VarInfo} {size : ℕ}

theorem readScalarValue_eq_none :
    readScalarValue env addr size = none ↔ env.readableAt addr (scalarWidth size) = false := by
  rw [readScalarValue, EvalEnv.memRead, Option.map_eq_none_iff]
  split <;> simp_all

/-- A location is found and its bytes cannot be read. -/
def Unreadable (env : EvalEnv) (loc : Option (Addr × VarInfo)) : Prop :=
  ∃ addr var, loc = some (addr, var) ∧ env.readableAt addr (scalarWidth var.size) = false

theorem readLocation_eq_none {loc : Option (Addr × VarInfo)} :
    readLocation env loc = none ↔ loc = none ∨ Unreadable env loc := by
  cases loc with
  | none => simp [readLocation, Unreadable]
  | some l =>
    obtain ⟨addr, var⟩ := l
    have hread := @readScalarValue_eq_none env addr var.size
    cases h : readScalarValue env addr var.size <;>
      simp_all [readLocation, Unreadable]

theorem combineBinary_eq_none {left right : UInt64} {op : AstOp} :
    combineBinary left right op = none ↔ (op = .div ∨ op = .mod) ∧ right = 0 := by
  cases op <;> simp [combineBinary]

theorem memberLocation_eq_none {structType name : CStr} :
    memberLocation env structType addr name = none ↔
      env.lookupStructMember structType name = none := by
  cases h : env.lookupStructMember structType name <;> simp [memberLocation, h]

theorem resolveArrow_eq_none {name : CStr} : resolveArrow env (some (addr, var)) name = none ↔
    var.isPointer = false ∨ env.readableAt addr 8 = false ∨
      env.lookupStructMember (pointerPointeeType var) name = none := by
  have hread := @readScalarValue_eq_none env addr 8
  cases hp : var.isPointer <;> cases h : readScalarValue env addr 8 <;>
    simp_all [resolveArrow, memberLocation_eq_none, scalarWidth]

theorem resolveIndex_eq_none {idx : ExprResult} :
    resolveIndex env (some (addr, var)) (some idx) = none ↔
      (var.isArray = true ∧ var.arrayCount ≤ idx.value.toNat) ∨
        (var.isArray = false ∧ (var.isPointer = false ∨ env.readableAt addr 8 = false)) := by
  have hread := @readScalarValue_eq_none env addr 8
  cases ha : var.isArray <;> cases hp : var.isPointer <;>
    cases h : readScalarValue env addr 8 <;> simp_all [resolveIndex, scalarWidth]

theorem resolveDeref_eq_none {inner : Option ExprResult} :
    resolveDeref env e inner = none ↔ inner = none := by
  cases inner with
  | none => simp [resolveDeref]
  | some r =>
    simp only [resolveDeref, Option.bind_eq_bind, Option.bind_some]
    split
    · split
      · split <;> simp
      · simp
    · simp

/-- What a node of the kinds that can be lvalues reads. -/
theorem fails_iff_of_shape (hshape : cdbgAstIsLvalueShaped e = true)
    (hderef : ∀ lhs, e ≠ .unop .deref lhs)
    (hloc : NoLocation env e ↔ cdbgAstResolveLvalue env e = none) :
    Fails env e ↔ cdbgAstEval env e = none := by
  rw [cdbgAstEval_location hshape hderef, readLocation_eq_none, ← hloc]
  constructor
  · intro h
    cases h with
    | location _ h => exact .inl h
    | unreadable _ _ hloc h => exact .inr ⟨_, _, hloc, h⟩
    | unreadableTarget _ _ => exact absurd rfl (hderef _)
    | left _ | right _ | zeroDivisor _ _ _ | address _ => exact Bool.noConfusion hshape
    | @operand kind lhs _ h =>
      cases kind with
      | deref => exact absurd rfl (hderef lhs)
      | pos | neg | not | bnot | addr => exact Bool.noConfusion hshape
  · rintro (h | ⟨_, _, hloc, h⟩)
    · exact .location hshape h
    · exact .unreadable hshape hderef hloc h

/-! ### Node by node -/

/-- The location of the node fails in the listed ways. -/
def LocationExact (env : EvalEnv) (e : Ast) : Prop :=
  NoLocation env e ↔ cdbgAstResolveLvalue env e = none

/-- The evaluation of the node fails in the listed ways. -/
def EvalExact (env : EvalEnv) (e : Ast) : Prop := Fails env e ↔ cdbgAstEval env e = none

section Nodes

variable {lhs rhs : Ast} {name : CStr} {op : AstOp} {kind : UnaryKind}

theorem locationExact_member (ih : LocationExact env lhs) :
    LocationExact env (.member lhs name) := by
  rw [LocationExact, cdbgAstResolveLvalue]
  constructor
  · intro h
    cases h with
    | memberBase h =>
      rw [ih.mp h]
      rfl
    | unknownMember hbase h =>
      rw [hbase]
      exact memberLocation_eq_none.mpr h
    | notLvalue h => exact Bool.noConfusion h
  · intro h
    cases hbase : cdbgAstResolveLvalue env lhs with
    | none => exact .memberBase (ih.mpr hbase)
    | some base =>
      rw [hbase] at h
      exact .unknownMember hbase (memberLocation_eq_none.mp h)

theorem locationExact_arrow (ih : LocationExact env lhs) :
    LocationExact env (.arrow lhs name) := by
  rw [LocationExact, cdbgAstResolveLvalue]
  constructor
  · intro h
    cases h with
    | arrowBase h =>
      rw [ih.mp h]
      rfl
    | notPointer hbase h =>
      rw [hbase]
      exact resolveArrow_eq_none.mpr (.inl h)
    | unreadablePointer hbase h =>
      rw [hbase]
      exact resolveArrow_eq_none.mpr (.inr (.inl h))
    | unknownPointeeMember hbase h =>
      rw [hbase]
      exact resolveArrow_eq_none.mpr (.inr (.inr h))
    | notLvalue h => exact Bool.noConfusion h
  · intro h
    cases hbase : cdbgAstResolveLvalue env lhs with
    | none => exact .arrowBase (ih.mpr hbase)
    | some base =>
      rw [hbase] at h
      rcases resolveArrow_eq_none.mp h with h | h | h
      · exact .notPointer hbase h
      · exact .unreadablePointer hbase h
      · exact .unknownPointeeMember hbase h

theorem locationExact_index (ihl : LocationExact env lhs) (ihr : EvalExact env rhs) :
    LocationExact env (.index lhs rhs) := by
  rw [LocationExact, cdbgAstResolveLvalue]
  -- without a value of the index there is no location, whatever the base is
  have hnone : ∀ base, resolveIndex env base none = none := by
    intro base
    cases base <;> rfl
  have hany : ∀ base, (∀ idx, resolveIndex env (some base) (some idx) = none) →
      resolveIndex env (some base) (cdbgAstEval env rhs) = none := by
    intro base h
    cases cdbgAstEval env rhs with
    | none => exact hnone _
    | some idx => exact h idx
  constructor
  · intro h
    cases h with
    | indexBase h =>
      rw [ihl.mp h]
      rfl
    | indexOperand h =>
      rw [ihr.mp h]
      exact hnone _
    | outOfBounds hbase hidx harray h =>
      rw [hbase, hidx]
      exact resolveIndex_eq_none.mpr (.inl ⟨harray, h⟩)
    | unreadableElements hbase harray h =>
      rw [hbase]
      exact hany _ fun _ => resolveIndex_eq_none.mpr (.inr ⟨harray, .inr h⟩)
    | notSubscriptable hbase harray h =>
      rw [hbase]
      exact hany _ fun _ => resolveIndex_eq_none.mpr (.inr ⟨harray, .inl h⟩)
    | notLvalue h => exact Bool.noConfusion h
  · intro h
    cases hbase : cdbgAstResolveLvalue env lhs with
    | none => exact .indexBase (ihl.mpr hbase)
    | some base =>
      cases hr : cdbgAstEval env rhs with
      | none => exact .indexOperand (ihr.mpr hr)
      | some idx =>
        rw [hbase, hr] at h
        rcases resolveIndex_eq_none.mp h with ⟨harray, h⟩ | ⟨harray, h | h⟩
        · exact .outOfBounds hbase hr harray h
        · exact .notSubscriptable hbase harray h
        · exact .unreadableElements hbase harray h

theorem evalExact_binop (ihl : EvalExact env lhs) (ihr : EvalExact env rhs) :
    EvalExact env (.binop op lhs rhs) := by
  rw [EvalExact, cdbgAstEval]
  constructor
  · intro h
    cases h with
    | location h _ | unreadable h _ _ _ => exact Bool.noConfusion h
    | left h =>
      rw [ihl.mp h]
      rfl
    | right h =>
      rw [ihr.mp h]
      cases cdbgAstEval env lhs <;> rfl
    | zeroDivisor hop hr h =>
      rw [hr]
      cases cdbgAstEval env lhs with
      | none => rfl
      | some l => simp [combineBinary_eq_none.mpr ⟨hop, h⟩]
  · intro h
    cases hl : cdbgAstEval env lhs with
    | none => exact .left (ihl.mpr hl)
    | some l =>
      cases hr : cdbgAstEval env rhs with
      | none => exact .right (ihr.mpr hr)
      | some r =>
        cases hc : combineBinary l.value r.value op with
        | some v => simp [hl, hr, hc] at h
        | none =>
          obtain ⟨hop, h0⟩ := combineBinary_eq_none.mp hc
          exact .zeroDivisor hop hr h0

/-- An operator on a value fails with its operand only. -/
theorem cdbgAstEval_unop_eq_none (haddr : kind ≠ .addr) (hderef : kind ≠ .deref) :
    cdbgAstEval env (.unop kind lhs) = none ↔ cdbgAstEval env lhs = none := by
  cases kind with
  | addr => exact absurd rfl haddr
  | deref => exact absurd rfl hderef
  | pos => rw [cdbgAstEval]
  | not | bnot =>
    rw [cdbgAstEval]
    cases cdbgAstEval env lhs <;> simp
  | neg =>
    rw [cdbgAstEval]
    cases cdbgAstEval env lhs with
    | none => simp
    | some r =>
      simp only [Option.bind_eq_bind, Option.bind_some]
      split <;> simp

theorem evalExact_unop (ih : EvalExact env lhs) (haddr : kind ≠ .addr) (hderef : kind ≠ .deref) :
    EvalExact env (.unop kind lhs) := by
  rw [EvalExact, cdbgAstEval_unop_eq_none haddr hderef, ← show Fails env lhs ↔ _ from ih]
  constructor
  · intro h
    cases h with
    | operand _ h => exact h
    | address _ => exact absurd rfl haddr
    | unreadableTarget _ _ => exact absurd rfl hderef
    | location h _ | unreadable h _ _ _ =>
      cases kind with
      | addr => exact absurd rfl haddr
      | deref => exact absurd rfl hderef
      | pos | neg | not | bnot => exact Bool.noConfusion h
  · exact .operand haddr

theorem locationExact_deref (ih : EvalExact env lhs) : LocationExact env (.unop .deref lhs) := by
  rw [LocationExact, cdbgAstResolveLvalue, resolveDeref_eq_none, ← show Fails env lhs ↔ _ from ih]
  constructor
  · intro h
    cases h with
    | derefOperand h => exact h
    | notLvalue h => exact Bool.noConfusion h
  · exact .derefOperand

theorem evalExact_deref (ih : EvalExact env lhs) : EvalExact env (.unop .deref lhs) := by
  have hloc := locationExact_deref ih
  have hread : ∀ addr, readScalarValue env addr 8 = none ↔ env.readableAt addr 8 = false :=
    fun addr => readScalarValue_eq_none
  rw [EvalExact, cdbgAstEval]
  constructor
  · intro h
    cases h with
    | location _ h =>
      rw [resolveDeref_eq_none.mp (hloc.mp h)]
      rfl
    | unreadable _ h _ _ => exact absurd rfl (h lhs)
    | operand _ h =>
      rw [ih.mp h]
      rfl
    | unreadableTarget hr h =>
      rw [hr]
      simp [(hread _).mpr h]
  · intro h
    cases hr : cdbgAstEval env lhs with
    | none => exact .operand (by decide) (ih.mpr hr)
    | some r =>
      cases hv : readScalarValue env r.value 8 with
      | none => exact .unreadableTarget hr ((hread _).mp hv)
      | some v => simp [hr, hv] at h

theorem evalExact_addr (ih : LocationExact env lhs) : EvalExact env (.unop .addr lhs) := by
  have hnone : cdbgAstEval env (.unop .addr lhs) = none ↔ NoLocation env lhs := by
    rw [cdbgAstEval]
    split
    · rw [show NoLocation env lhs ↔ _ from ih]
      cases cdbgAstResolveLvalue env lhs <;> simp
    · rename_i hshape
      exact iff_of_true rfl (.notLvalue (by simpa using hshape))
  rw [EvalExact, hnone]
  constructor
  · intro h
    cases h with
    | location h _ | unreadable h _ _ _ => exact Bool.noConfusion h
    | operand h _ => exact absurd rfl h
    | address h => exact h
  · exact .address

/-- A node that is no lvalue has no location. -/
theorem locationExact_of_shape (h : cdbgAstIsLvalueShaped e = false) : LocationExact env e := by
  refine iff_of_true (.notLvalue h) ?_
  cases e with
  | num _ | float _ | binop _ _ _ => rfl
  | ident _ | member _ _ | arrow _ _ | index _ _ => exact Bool.noConfusion h
  | unop kind lhs =>
    cases kind with
    | deref => exact Bool.noConfusion h
    | pos | neg | not | bnot | addr => rfl

/-- A literal has a value. -/
theorem not_fails_literal {num : UInt64} {text : CStr} (h : e = .num num ∨ e = .float text) :
    ¬ Fails env e := by
  rcases h with rfl | rfl <;> rintro (⟨h, _⟩ | ⟨h, _, _, _⟩) <;> exact Bool.noConfusion h

end Nodes

/-- The lists of failures are complete and correct. -/
theorem failures (e : Ast) : LocationExact env e ∧ EvalExact env e := by
  induction e with
  | num num =>
    exact ⟨locationExact_of_shape rfl,
      iff_of_false (@not_fails_literal _ _ _ [] (.inl rfl)) (by simp [cdbgAstEval])⟩
  | float text =>
    exact ⟨locationExact_of_shape rfl,
      iff_of_false (@not_fails_literal _ _ 0 _ (.inr rfl)) (by simp [cdbgAstEval])⟩
  | ident name =>
    have hloc : LocationExact env (.ident name) := by
      refine ⟨fun h => ?_, .unknownVariable⟩
      cases h with
      | unknownVariable h => exact h
      | notLvalue h => exact Bool.noConfusion h
    exact ⟨hloc, fails_iff_of_shape rfl (fun _ h => Ast.noConfusion h) hloc⟩
  | member lhs name ih =>
    have hloc := @locationExact_member env lhs name ih.1
    exact ⟨hloc, fails_iff_of_shape rfl (fun _ h => Ast.noConfusion h) hloc⟩
  | arrow lhs name ih =>
    have hloc := @locationExact_arrow env lhs name ih.1
    exact ⟨hloc, fails_iff_of_shape rfl (fun _ h => Ast.noConfusion h) hloc⟩
  | index lhs rhs ihl ihr =>
    have hloc := locationExact_index ihl.1 ihr.2
    exact ⟨hloc, fails_iff_of_shape rfl (fun _ h => Ast.noConfusion h) hloc⟩
  | binop op lhs rhs ihl ihr =>
    exact ⟨locationExact_of_shape rfl, evalExact_binop ihl.2 ihr.2⟩
  | unop kind lhs ih =>
    cases kind with
    | deref => exact ⟨locationExact_deref ih.2, evalExact_deref ih.2⟩
    | addr => exact ⟨locationExact_of_shape rfl, evalExact_addr ih.1⟩
    | pos | neg | not | bnot =>
      exact ⟨locationExact_of_shape rfl, evalExact_unop ih.2 (by decide) (by decide)⟩

/-- `cdbg_ast_eval` fails in the listed ways. -/
theorem fails_iff : Fails env e ↔ cdbgAstEval env e = none := (failures e).2

end Failures

/-! ### Logical operators -/

section Logical

variable {env : EvalEnv} {a b : Ast} {r : ExprResult}

/-- Where the left operand of `&&` or `||` decides, the result is that of C exactly where the
right operand has a value, too. -/
theorem short_circuit_iff (ha : cdbgAstEval env a = some r) :
    ((r.value = 0 → (cdbgAstEval env (.binop .land a b)).map (·.value) = some 0) ∧
      (r.value ≠ 0 → (cdbgAstEval env (.binop .lor a b)).map (·.value) = some 1)) ↔
    ¬ Fails env b := by
  rw [fails_iff]
  simp only [cdbgAstEval, ha, Option.bind_eq_bind, Option.bind_some]
  cases cdbgAstEval env b with
  | none =>
    refine iff_of_false (fun h => ?_) (by simp)
    by_cases h0 : r.value = 0
    · exact absurd (h.1 h0) (by simp)
    · exact absurd (h.2 h0) (by simp)
  | some s => simp +contextual [combineBinary]

end Logical

/-- `0 && x` -/
theorem short_circuit_iff_variable :
    (((0 : UInt64) = 0 → (cdbgAstEval minusOne
        (.binop .land (.num 0) (.ident "x".toList))).map (·.value) = some 0) ∧
      ((0 : UInt64) ≠ 0 → (cdbgAstEval minusOne
        (.binop .lor (.num 0) (.ident "x".toList))).map (·.value) = some 1)) ↔
      ¬ Fails minusOne (.ident "x".toList) :=
  short_circuit_iff (r := { value := 0 }) rfl

/-- `0 && 1 / 0` fails with the division. -/
theorem logical_and_fails :
    ¬ ∀ (env : EvalEnv) (a b : Ast) (r : ExprResult), cdbgAstEval env a = some r →
      (r.value = 0 → (cdbgAstEval env (.binop .land a b)).map (·.value) = some 0) ∧
        (r.value ≠ 0 → (cdbgAstEval env (.binop .lor a b)).map (·.value) = some 1) := by
  intro h
  have hand := (h minusOne (.num 0) (.binop .div (.num 1) (.num 0)) { value := 0 } rfl).1 rfl
  have hnone : cdbgAstEval minusOne
      (.binop .land (.num 0) (.binop .div (.num 1) (.num 0))) = none := by decide
  rw [hnone] at hand
  simp at hand

end Debugger
