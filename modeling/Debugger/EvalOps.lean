/-
The C operations that an evaluation executes.

`evalOps` and `resolveOps` follow `cdbg_ast_eval` and `cdbg_ast_resolve_lvalue` and log the
operations that C does not define for all operands: shifts, the negation of a signed number,
division and remainder.  `Starts` says which node is evaluated or resolved on behalf of which:
an operand, once the ones before it have values.  An operation is in the log where such a chain
of nodes leads to its operator (`mem_ops_iff`), so an evaluation is undefined exactly where it
gets to a shift by 64 or more or negates the least signed number (`defined_iff`): a zero
divisor is caught.
-/
import Debugger.PrintPaths
import Mathlib.Logic.Relation

namespace Debugger

/-- The C operations on 64 bits that are not defined for all operands. -/
inductive COp
  | shift (count : UInt64)
  | negate (operand : Int64)
  | divide (divisor : UInt64)
deriving DecidableEq, Repr

/-- The operation is defined in C. -/
def COp.Defined : COp → Prop
  | .shift count => count < 64
  | .negate operand => operand ≠ Int64.minValue
  | .divide divisor => divisor ≠ 0

instance : (o : COp) → Decidable o.Defined
  | .shift count => inferInstanceAs (Decidable (count < 64))
  | .negate operand => inferInstanceAs (Decidable (operand ≠ Int64.minValue))
  | .divide divisor => inferInstanceAs (Decidable (divisor ≠ 0))

/-- The operations of `combine_binary`. -/
def combineOps (right : UInt64) : AstOp → List COp
  | .div | .mod => if right = 0 then [] else [.divide right]
  | .shl | .shr => [.shift right]
  | _ => []

/-- The operations of a step, and those of what follows where it has a value. -/
def andThen {α : Type} (ops : List COp) (result : Option α) (next : α → List COp) : List COp :=
  ops ++ (result.map next).getD []

mutual

/-- The operations of `cdbg_ast_resolve_lvalue`. -/
def resolveOps (env : EvalEnv) : Ast → List COp
  | .member lhs _ | .arrow lhs _ => resolveOps env lhs
  | .index lhs rhs =>
    andThen (resolveOps env lhs) (cdbgAstResolveLvalue env lhs) fun _ => evalOps env rhs
  | .unop .deref lhs => evalOps env lhs
  | .unop .pos _ | .unop .neg _ | .unop .not _ | .unop .bnot _ | .unop .addr _ => []
  | .num _ | .float _ | .ident _ | .binop .. => []

/-- The operations of `cdbg_ast_eval`. -/
def evalOps (env : EvalEnv) : Ast → List COp
  | .num _ | .float _ | .ident _ => []
  | .binop op lhs rhs =>
    andThen (evalOps env lhs) (cdbgAstEval env lhs) fun _ =>
      andThen (evalOps env rhs) (cdbgAstEval env rhs) fun r => combineOps r.value op
  | .unop .neg lhs =>
    andThen (evalOps env lhs) (cdbgAstEval env lhs) fun inner =>
      if inner.isFloat then [] else [.negate inner.value.toInt64]
  | .unop .pos lhs | .unop .not lhs | .unop .bnot lhs | .unop .deref lhs => evalOps env lhs
  | .unop .addr lhs => if cdbgAstIsLvalueShaped lhs then resolveOps env lhs else []
  | .member lhs _ | .arrow lhs _ => resolveOps env lhs
  | .index lhs rhs =>
    andThen (resolveOps env lhs) (cdbgAstResolveLvalue env lhs) fun _ => evalOps env rhs

end

/-- `1 << 2 / 0` does not shift, `*p << 1` reads and shifts. -/
example : evalOps minusOne (.binop .shl (.num 1) (.binop .div (.num 2) (.num 0))) = [] ∧
    evalOps minusOne (.binop .shl (.unop .deref (.ident "x".toList)) (.num 1)) = [.shift 1] := by
  decide

/-! ### Which nodes are got to -/

/-- A node with what is done to it. -/
inductive Visit
  | eval (e : Ast)
  | locate (e : Ast)

/-- The nodes whose evaluation resolves them first. -/
def Ast.isAccess : Ast → Bool
  | .member .. | .arrow .. | .index .. => true
  | _ => false

/-- What a visit of a node does at once to an operand. -/
inductive Starts (env : EvalEnv) : Visit → Visit → Prop
  | left {op lhs rhs} : Starts env (.eval (.binop op lhs rhs)) (.eval lhs)
  | right {op lhs rhs} (h : (cdbgAstEval env lhs).isSome = true) :
      Starts env (.eval (.binop op lhs rhs)) (.eval rhs)
  | operand {kind lhs} (h : kind ≠ .addr) : Starts env (.eval (.unop kind lhs)) (.eval lhs)
  | address {lhs} (h : cdbgAstIsLvalueShaped lhs = true) :
      Starts env (.eval (.unop .addr lhs)) (.locate lhs)
  | located {e} (h : e.isAccess = true) : Starts env (.eval e) (.locate e)
  | member {lhs name} : Starts env (.locate (.member lhs name)) (.locate lhs)
  | arrow {lhs name} : Starts env (.locate (.arrow lhs name)) (.locate lhs)
  | base {lhs rhs} : Starts env (.locate (.index lhs rhs)) (.locate lhs)
  | index {lhs rhs} (h : (cdbgAstResolveLvalue env lhs).isSome = true) :
      Starts env (.locate (.index lhs rhs)) (.eval rhs)
  | target {lhs} : Starts env (.locate (.unop .deref lhs)) (.eval lhs)

/-- The operations that a visit executes, with those of its operands. -/
def Visit.ops (env : EvalEnv) : Visit → List COp
  | .eval e => evalOps env e
  | .locate e => resolveOps env e

/-- The operations of the operator itself. -/
def Visit.own (env : EvalEnv) : Visit → List COp
  | .eval (.binop op lhs rhs) =>
    andThen [] (cdbgAstEval env lhs) fun _ =>
      andThen [] (cdbgAstEval env rhs) fun r => combineOps r.value op
  | .eval (.unop .neg lhs) =>
    andThen [] (cdbgAstEval env lhs) fun inner =>
      if inner.isFloat then [] else [.negate inner.value.toInt64]
  | _ => []

section Visits

variable {env : EvalEnv} {v w : Visit} {o : COp} {e : Ast}

theorem mem_andThen {α : Type} {ops : List COp} {result : Option α} {next : α → List COp} :
    o ∈ andThen ops result next ↔ o ∈ ops ∨ ∃ a, result = some a ∧ o ∈ next a := by
  cases result <;> simp [andThen]

theorem evalOps_of_isAccess (he : e.isAccess = true) : evalOps env e = resolveOps env e := by
  cases e with
  | member _ _ | arrow _ _ | index _ _ => simp only [evalOps, resolveOps]
  | num _ | float _ | ident _ | binop _ _ _ | unop _ _ => exact Bool.noConfusion he

/-- The operations of an operand are among those of the node. -/
theorem ops_of_starts (h : Starts env v w) (ho : o ∈ w.ops env) : o ∈ v.ops env := by
  cases h with
  | left => exact mem_andThen.mpr (.inl ho)
  | right h =>
    obtain ⟨l, hl⟩ := Option.isSome_iff_exists.mp h
    exact mem_andThen.mpr (.inr ⟨l, hl, mem_andThen.mpr (.inl ho)⟩)
  | @operand kind lhs h =>
    cases kind with
    | addr => exact absurd rfl h
    | neg => exact mem_andThen.mpr (.inl ho)
    | pos | not | bnot | deref => exact ho
  | address h =>
    show o ∈ if _ then _ else _
    rwa [if_pos h]
  | located h =>
    show o ∈ evalOps env _
    rwa [evalOps_of_isAccess h]
  | member | arrow | target => exact ho
  | base => exact mem_andThen.mpr (.inl ho)
  | index h =>
    obtain ⟨l, hl⟩ := Option.isSome_iff_exists.mp h
    exact mem_andThen.mpr (.inr ⟨l, hl, ho⟩)

theorem ops_of_own (ho : o ∈ v.own env) : o ∈ v.ops env := by
  have hskip : ∀ {α : Type} {ops : List COp} {result : Option α} {f g : α → List COp},
      (∀ a, o ∈ f a → o ∈ g a) → o ∈ andThen [] result f → o ∈ andThen ops result g := by
    intro α ops result f g hfg h
    rcases mem_andThen.mp h with h | ⟨a, ha, h⟩
    · simp at h
    · exact mem_andThen.mpr (.inr ⟨a, ha, hfg a h⟩)
  unfold Visit.own at ho
  split at ho
  · exact hskip (fun _ => hskip fun _ h => h) ho
  · exact hskip (fun _ h => h) ho
  · simp at ho

/-- An operation of a visit is that of its operator, or one of an operand. -/
theorem own_or_starts (ho : o ∈ v.ops env) :
    o ∈ v.own env ∨ ∃ w, Starts env v w ∧ o ∈ w.ops env := by
  have hsome : ∀ {α : Type} {result : Option α} {a : α}, result = some a →
      result.isSome = true := fun h => Option.isSome_iff_exists.mpr ⟨_, h⟩
  cases v with
  | eval e =>
    cases e with
    | num _ | float _ | ident _ => simp [Visit.ops, evalOps] at ho
    | member _ _ | arrow _ _ | index _ _ =>
      refine .inr ⟨_, .located rfl, ?_⟩
      show o ∈ resolveOps env _
      rwa [← evalOps_of_isAccess rfl]
    | binop op lhs rhs =>
      rcases mem_andThen.mp ho with ho | ⟨l, hl, ho⟩
      · exact .inr ⟨_, .left, ho⟩
      · rcases mem_andThen.mp ho with ho | ⟨r, hr, ho⟩
        · exact .inr ⟨_, .right (hsome hl), ho⟩
        · exact .inl (mem_andThen.mpr (.inr ⟨l, hl, mem_andThen.mpr (.inr ⟨r, hr, ho⟩)⟩))
    | unop kind lhs =>
      cases kind with
      | neg =>
        rcases mem_andThen.mp ho with ho | ⟨inner, hinner, ho⟩
        · exact .inr ⟨_, .operand (by decide), ho⟩
        · exact .inl (mem_andThen.mpr (.inr ⟨inner, hinner, ho⟩))
      | pos | not | bnot | deref => exact .inr ⟨_, .operand (by decide), ho⟩
      | addr =>
        change o ∈ if _ then _ else _ at ho
        split at ho
        · rename_i h
          exact .inr ⟨_, .address h, ho⟩
        · simp at ho
  | locate e =>
    cases e with
    | num _ | float _ | ident _ | binop _ _ _ => simp [Visit.ops, resolveOps] at ho
    | member _ _ => exact .inr ⟨_, .member, ho⟩
    | arrow _ _ => exact .inr ⟨_, .arrow, ho⟩
    | index lhs rhs =>
      rcases mem_andThen.mp ho with ho | ⟨base, hbase, ho⟩
      · exact .inr ⟨_, .base, ho⟩
      · exact .inr ⟨_, .index (hsome hbase), ho⟩
    | unop kind lhs =>
      cases kind with
      | deref => exact .inr ⟨_, .target, ho⟩
      | pos | neg | not | bnot | addr => simp [Visit.ops, resolveOps] at ho

/-- The number of nodes of a tree. -/
def Ast.size : Ast → ℕ
  | .num _ | .float _ | .ident _ => 1
  | .unop _ lhs | .member lhs _ | .arrow lhs _ => lhs.size + 1
  | .binop _ lhs rhs | .index lhs rhs => lhs.size + rhs.size + 1

/-- Operands are smaller than their node, and locating a node is less than evaluating it. -/
def Visit.size : Visit → ℕ
  | .eval e => 2 * e.size + 1
  | .locate e => 2 * e.size

theorem size_lt_of_starts (h : Starts env v w) : w.size < v.size := by
  cases h <;> simp only [Visit.size, Ast.size] <;> omega

/-- The operations of a visit are those of the operators it gets to. -/
theorem mem_ops_iff :
    o ∈ v.ops env ↔ ∃ w, Relation.ReflTransGen (Starts env) v w ∧ o ∈ w.own env := by
  constructor
  · intro ho
    induction hn : v.size using Nat.strongRecOn generalizing v with
    | ind n ih =>
      rcases own_or_starts ho with ho | ⟨w, hw, ho⟩
      · exact ⟨v, .refl, ho⟩
      · obtain ⟨x, hx, ho⟩ := ih w.size (hn ▸ size_lt_of_starts hw) ho rfl
        exact ⟨x, .head hw hx, ho⟩
  · rintro ⟨w, hw, ho⟩
    induction hw using Relation.ReflTransGen.head_induction_on with
    | refl => exact ops_of_own ho
    | head h _ ih => exact ops_of_starts h ih

/-- The evaluation of the expression evaluates the node. -/
def GetsTo (env : EvalEnv) (e n : Ast) : Prop :=
  Relation.ReflTransGen (Starts env) (.eval e) (.eval n)

/-- The shifts that the evaluation gets to are by less than 64. -/
def ShiftsInRange (env : EvalEnv) (e : Ast) : Prop :=
  ∀ op lhs rhs l r, GetsTo env e (.binop op lhs rhs) → cdbgAstEval env lhs = some l →
    cdbgAstEval env rhs = some r → op = .shl ∨ op = .shr → r.value < 64

/-- The integers that the evaluation negates are not the least one. -/
def NegationsInRange (env : EvalEnv) (e : Ast) : Prop :=
  ∀ lhs r, GetsTo env e (.unop .neg lhs) → cdbgAstEval env lhs = some r →
    r.isFloat = false → r.value ≠ 0x8000000000000000

theorem combineOps_defined_iff {right : UInt64} {op : AstOp} :
    (∀ o ∈ combineOps right op, o.Defined) ↔ (op = .shl ∨ op = .shr → right < 64) := by
  cases op with
  | shl | shr => simp [combineOps, COp.Defined]
  | div | mod =>
    -- a zero divisor is caught
    by_cases h : right = 0 <;> simp [combineOps, COp.Defined, h]
  | add | sub | mul | lt | gt | le | ge | eq | ne | band | bor | bxor | land | lor =>
    simp [combineOps]

theorem toInt64_eq_minValue_iff {value : UInt64} :
    value.toInt64 = Int64.minValue ↔ value = 0x8000000000000000 := by
  have hmin : Int64.minValue.toUInt64 = 0x8000000000000000 := by decide
  constructor
  · intro h
    rw [← hmin, ← h, UInt64.toUInt64_toInt64]
  · rintro rfl
    decide

/-- The evaluation executes only defined operations exactly where the shifts and the negations
that it gets to are in range. -/
theorem defined_iff :
    (∀ o ∈ evalOps env e, o.Defined) ↔ ShiftsInRange env e ∧ NegationsInRange env e := by
  have hops : (∀ o ∈ evalOps env e, o.Defined) ↔
      ∀ w, Relation.ReflTransGen (Starts env) (.eval e) w → ∀ o ∈ w.own env, o.Defined := by
    constructor
    · intro h w hw o ho
      exact h o ((mem_ops_iff (v := .eval e)).mpr ⟨w, hw, ho⟩)
    · intro h o ho
      obtain ⟨w, hw, ho⟩ := (mem_ops_iff (v := .eval e)).mp ho
      exact h w hw o ho
  rw [hops]
  constructor
  · intro h
    constructor
    · intro op lhs rhs l r hgets hl hr
      refine combineOps_defined_iff.mp fun o ho => h _ hgets o ?_
      exact mem_andThen.mpr (.inr ⟨l, hl, mem_andThen.mpr (.inr ⟨r, hr, ho⟩)⟩)
    · intro lhs r hgets hr hfloat hmin
      have hdef : (COp.negate r.value.toInt64).Defined :=
        h _ hgets _ (mem_andThen.mpr (.inr ⟨r, hr, by simp [hfloat]⟩))
      exact hdef (toInt64_eq_minValue_iff.mpr hmin)
  · rintro ⟨hshift, hneg⟩ w hgets o ho
    unfold Visit.own at ho
    split at ho
    · rename_i op lhs rhs
      rcases mem_andThen.mp ho with ho | ⟨l, hl, ho⟩
      · simp at ho
      · rcases mem_andThen.mp ho with ho | ⟨r, hr, ho⟩
        · simp at ho
        · exact combineOps_defined_iff.mpr (hshift op lhs rhs l r hgets hl hr) o ho
    · rename_i lhs
      rcases mem_andThen.mp ho with ho | ⟨r, hr, ho⟩
      · simp at ho
      · cases hfloat : r.isFloat with
        | true => simp [hfloat] at ho
        | false =>
          simp only [hfloat, Bool.false_eq_true, if_false, List.mem_singleton] at ho
          subst ho
          exact fun h => hneg lhs r hgets hr hfloat (toInt64_eq_minValue_iff.mp h)
    · simp at ho

end Visits

/-- `1 << 64` shifts by 64. -/
theorem undefined_shift : ¬ ∀ (env : EvalEnv) (e : Ast), ∀ o ∈ evalOps env e, o.Defined := by
  intro h
  have hdef := h minusOne (.binop .shl (.num 1) (.num 64)) (.shift 64) (by decide)
  exact absurd hdef (by decide)

end Debugger
