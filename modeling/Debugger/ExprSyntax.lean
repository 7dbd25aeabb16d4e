/-
The expression language (`ast_expr.l`, `ast_expr.y`).

The rules of the lexer and the declarations of the grammar are those of the source, in its
order; the machinery that is generated from them is that of `Prog.lex` and
`Prog.OpGrammar.parse`, without the limit on the depth of the parser's stack.
-/
import Debugger.Ast
import Debugger.Lib.Flex
import Debugger.Lib.OpPrec

open Prog

namespace Debugger

/-! ### The lexer -/

/-- The tokens of `ast_expr.y`; `unaryPrec` only names a precedence. -/
inductive ExprTok
  | number (num : UInt64)
  | floatnum (text : CStr)
  | ident (str : CStr)
  | arrow | lshift | rshift | le | ge | eq | ne | andand | oror | invalidChar
  | unaryPrec
  | char (c : Char)
deriving DecidableEq, Repr

/-- `DIGIT` -/
def isDigit (c : Char) : Bool := '0' ≤ c && c ≤ '9'

/-- `HEX` -/
def isHex (c : Char) : Bool := isDigit c || 'a' ≤ c && c ≤ 'f' || 'A' ≤ c && c ≤ 'F'

/-- `[a-zA-Z_]` -/
def isIdentStart (c : Char) : Bool := 'a' ≤ c && c ≤ 'z' || 'A' ≤ c && c ≤ 'Z' || c = '_'

/-- `[a-zA-Z0-9_]` -/
def isIdentChar (c : Char) : Bool := isIdentStart c || isDigit c

/-- `[-+*/%&|^!~<>().\[\]]` -/
def isPunct (c : Char) : Bool := "-+*/%&|^!~<>().[]".toList.contains c

open Pattern

/-- `([eE][+-]?{DIGIT}+)` -/
def exponent : Pattern :=
  seq (one fun c => c = 'e' || c = 'E')
    (seq (opt (one fun c => c = '+' || c = '-')) (many1 isDigit))

/-- `[fFlL]?` -/
def floatSuffix : Pattern := opt (one fun c => "fFlL".toList.contains c)

/-- The value of the text of an integer literal. -/
def numberValue (yytext : CStr) : UInt64 := ((strtoull yytext).getD (0, [])).1

/-- The rules of the lexer. -/
def exprRules : List (LexRule ExprTok) :=
  [{ pattern := many1 isBlank, action := fun _ => none },
    { pattern := seq (one (· = '0')) (seq (one fun c => c = 'x' || c = 'X') (many1 isHex)),
      action := fun yytext => some (.number (numberValue yytext)) },
    { pattern := seq (many1 isDigit)
        (seq (one (· = '.')) (seq (many isDigit) (seq (opt exponent) floatSuffix))),
      action := fun yytext => some (.floatnum yytext) },
    { pattern := seq (many isDigit)
        (seq (one (· = '.')) (seq (many1 isDigit) (seq (opt exponent) floatSuffix))),
      action := fun yytext => some (.floatnum yytext) },
    { pattern := seq (many1 isDigit) (seq exponent floatSuffix),
      action := fun yytext => some (.floatnum yytext) },
    { pattern := many1 isDigit, action := fun yytext => some (.number (numberValue yytext)) },
    { pattern := seq (one isIdentStart) (many isIdentChar),
      action := fun yytext => some (.ident yytext) },
    { pattern := lit "->".toList, action := fun _ => some .arrow },
    { pattern := lit "<<".toList, action := fun _ => some .lshift },
    { pattern := lit ">>".toList, action := fun _ => some .rshift },
    { pattern := lit "<=".toList, action := fun _ => some .le },
    { pattern := lit ">=".toList, action := fun _ => some .ge },
    { pattern := lit "==".toList, action := fun _ => some .eq },
    { pattern := lit "!=".toList, action := fun _ => some .ne },
    { pattern := lit "&&".toList, action := fun _ => some .andand },
    { pattern := lit "||".toList, action := fun _ => some .oror },
    { pattern := one isPunct, action := fun yytext => yytext.head?.map .char },
    { pattern := one (· ≠ '\n'), action := fun _ => some .invalidChar }]

/-! ### The grammar -/

/-- The declared precedences, from the lowest on: left associative or not, and the tokens. -/
def precedences : List (Bool × List ExprTok) :=
  [(true, [.oror]), (true, [.andand]), (true, [.char '|']), (true, [.char '^']),
    (true, [.char '&']), (true, [.eq, .ne]), (true, [.char '<', .char '>', .le, .ge]),
    (true, [.lshift, .rshift]), (true, [.char '+', .char '-']),
    (true, [.char '*', .char '/', .char '%']), (false, [.unaryPrec]),
    (true, [.char '.', .arrow, .char '['])]

/-- The precedence of a token. -/
def ExprTok.prec (t : ExprTok) : ℕ := precedences.findIdx (·.2.contains t)

/-- The second operand of `.` and `->`. -/
def withIdent (f : CStr → Ast) : ExprTok → Option Ast
  | .ident name => some (f name)
  | _ => none

/-- The rules of `expr`. -/
def exprGrammar : OpGrammar ExprTok Ast where
  opening
    | .number num => .atom (.num num)
    | .floatnum text => .atom (.float text)
    | .ident str => .atom (.ident str)
    | .char '+' => .unary (.unop .pos)
    | .char '-' => .unary (.unop .neg)
    | .char '!' => .unary (.unop .not)
    | .char '~' => .unary (.unop .bnot)
    | .char '&' => .unary (.unop .addr)
    | .char '*' => .unary (.unop .deref)
    | .char '(' => .paren (.char ')')
    | _ => .bad
  following t :=
    match t with
    | .oror => .binary t.prec (.binop .lor)
    | .andand => .binary t.prec (.binop .land)
    | .char '|' => .binary t.prec (.binop .bor)
    | .char '^' => .binary t.prec (.binop .bxor)
    | .char '&' => .binary t.prec (.binop .band)
    | .eq => .binary t.prec (.binop .eq)
    | .ne => .binary t.prec (.binop .ne)
    | .char '<' => .binary t.prec (.binop .lt)
    | .char '>' => .binary t.prec (.binop .gt)
    | .le => .binary t.prec (.binop .le)
    | .ge => .binary t.prec (.binop .ge)
    | .lshift => .binary t.prec (.binop .shl)
    | .rshift => .binary t.prec (.binop .shr)
    | .char '+' => .binary t.prec (.binop .add)
    | .char '-' => .binary t.prec (.binop .sub)
    | .char '*' => .binary t.prec (.binop .mul)
    | .char '/' => .binary t.prec (.binop .div)
    | .char '%' => .binary t.prec (.binop .mod)
    | .char '.' => .field t.prec fun lhs => withIdent (.member lhs)
    | .arrow => .field t.prec fun lhs => withIdent (.arrow lhs)
    | .char '[' => .subscript t.prec (.char ']') .index
    | _ => .other
  unaryPrec := ExprTok.unaryPrec.prec
  left p := ((precedences[p]?).map (·.1)).getD false

/-- `cdbg_ast_parse` -/
def cdbgAstParse (text : CStr) : Option Ast := exprGrammar.parse (lex exprRules text)

/-- Digits make a number also where letters follow, and `1.` is a floating-point literal. -/
example : lex exprRules "12ab<<=1.->0x1g".toList =
    [.number 12, .ident "ab".toList, .lshift, .invalidChar, .floatnum "1.".toList, .arrow,
      .number 1, .ident "g".toList] := by decide

end Debugger
