/-
The tree of an expression (`ast.h`, `ast.c`).

A node holds the fields that its kind uses.  A floating-point literal is kept as its text:
what `strtod` makes of it is left to the evaluation.
-/
import Debugger.CStdlib

namespace Debugger

/-- `cdbg_ast_op_t` -/
inductive AstOp
  | add | sub | mul | div | mod
  | shl | shr
  | lt | gt | le | ge
  | eq | ne
  | band | bor | bxor
  | land | lor
deriving DecidableEq, Repr

/-- The kinds of `cdbg_ast_kind_t` that have one operand. -/
inductive UnaryKind
  | pos | neg | not | bnot | addr | deref
deriving DecidableEq, Repr

/-- `cdbg_ast_t` -/
inductive Ast
  | num (num : UInt64)
  | float (text : CStr)
  | ident (name : CStr)
  | binop (op : AstOp) (lhs rhs : Ast)
  | unop (kind : UnaryKind) (lhs : Ast)
  | member (lhs : Ast) (name : CStr)
  | arrow (lhs : Ast) (name : CStr)
  | index (lhs rhs : Ast)
deriving DecidableEq, Repr

end Debugger
