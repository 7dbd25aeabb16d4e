/-
The expression grammar reads expressions as C does.

`renderText` writes a tree with the precedences of C, which are stated here apart from the
declarations of the grammar: parentheses stand only where an operand binds less tightly than
its place asks for, the right operand of a binary operator one level up.

* `reads_render` — the tokens write the tree at every level (`OpGrammar.Reads`);
* `chunk_of_writable` — each token is the longest match at its text;
* `parse_renderText` — the text is read back as the tree.
-/
import Debugger.ExprSyntax

open Prog Pattern

namespace Debugger

/-! ### Writing an expression -/

/-- The levels of C's binary operators, from the one that binds least tightly on. -/
def AstOp.level : AstOp → ℕ
  | .lor => 0
  | .land => 1
  | .bor => 2
  | .bxor => 3
  | .band => 4
  | .eq | .ne => 5
  | .lt | .gt | .le | .ge => 6
  | .shl | .shr => 7
  | .add | .sub => 8
  | .mul | .div | .mod => 9

/-- The level of C's unary operators. -/
def unaryLevel : ℕ := 10

/-- The level of C's postfix operators. -/
def postfixLevel : ℕ := 11

/-- The token of a binary operator. -/
def AstOp.tok : AstOp → ExprTok
  | .add => .char '+'
  | .sub => .char '-'
  | .mul => .char '*'
  | .div => .char '/'
  | .mod => .char '%'
  | .shl => .lshift
  | .shr => .rshift
  | .lt => .char '<'
  | .gt => .char '>'
  | .le => .le
  | .ge => .ge
  | .eq => .eq
  | .ne => .ne
  | .band => .char '&'
  | .bor => .char '|'
  | .bxor => .char '^'
  | .land => .andand
  | .lor => .oror

/-- The token of a unary operator. -/
def UnaryKind.tok : UnaryKind → ExprTok
  | .pos => .char '+'
  | .neg => .char '-'
  | .not => .char '!'
  | .bnot => .char '~'
  | .addr => .char '&'
  | .deref => .char '*'

/-- Tokens, in parentheses if need be. -/
def parenIf (needed : Bool) (ts : List ExprTok) : List ExprTok :=
  if needed then .char '(' :: (ts ++ [.char ')']) else ts

/-- The tokens that write an expression in a place that asks for a level. -/
def render : ℕ → Ast → List ExprTok
  | _, .num num => [.number num]
  | _, .float text => [.floatnum text]
  | _, .ident name => [.ident name]
  | n, .binop op lhs rhs =>
    parenIf (op.level < n) (render op.level lhs ++ op.tok :: render (op.level + 1) rhs)
  | n, .unop kind lhs => parenIf (unaryLevel < n) (kind.tok :: render unaryLevel lhs)
  | _, .member lhs name => render postfixLevel lhs ++ [.char '.', .ident name]
  | _, .arrow lhs name => render postfixLevel lhs ++ [.arrow, .ident name]
  | _, .index lhs rhs =>
    render postfixLevel lhs ++ .char '[' :: (render 0 rhs ++ [.char ']'])

/-- The text of a token; numbers are decimal. -/
def ExprTok.text : ExprTok → CStr
  | .number num => Nat.toDigits 10 num.toNat
  | .floatnum text => text
  | .ident str => str
  | .arrow => "->".toList
  | .lshift => "<<".toList
  | .rshift => ">>".toList
  | .le => "<=".toList
  | .ge => ">=".toList
  | .eq => "==".toList
  | .ne => "!=".toList
  | .andand => "&&".toList
  | .oror => "||".toList
  | .char c => [c]
  | .invalidChar | .unaryPrec => []

/-- An expression as text, with single spaces between the tokens. -/
def renderText (e : Ast) : CStr := separated [' '] ((render 0 e).map ExprTok.text)

/-- A valid identifier. -/
def isIdentifier : CStr → Bool
  | [] => false
  | c :: cs => isIdentStart c && cs.all isIdentChar

/-- The expression has valid identifiers and no floating-point literal. -/
def Ast.writable : Ast → Bool
  | .num _ => true
  | .float _ => false
  | .ident name => isIdentifier name
  | .binop _ lhs rhs => lhs.writable && rhs.writable
  | .unop _ lhs => lhs.writable
  | .member lhs name | .arrow lhs name => lhs.writable && isIdentifier name
  | .index lhs rhs => lhs.writable && rhs.writable

/-! ### The parser -/

/-- The declarations give the binary operators the levels they have in C. -/
theorem following_tok (op : AstOp) :
    exprGrammar.following op.tok = .binary op.level (.binop op) := by
  cases op <;> rfl

theorem opening_tok (kind : UnaryKind) :
    exprGrammar.opening kind.tok = .unary (.unop kind) := by
  cases kind <;> rfl

theorem left_level (op : AstOp) : exprGrammar.left op.level = true := by
  cases op <;> rfl

/-- Parentheses put an expression at any level. -/
theorem reads_parenIf {n m : ℕ} {e : Ast} {ts : List ExprTok}
    (h : ∀ k ≤ m, exprGrammar.Reads k e ts) : exprGrammar.Reads n e (parenIf (m < n) ts) := by
  unfold parenIf
  split
  · exact .paren rfl rfl (h 0 (Nat.zero_le m))
  · rename_i hn
    exact h n (by simpa using hn)

theorem reads_render (e : Ast) : ∀ {n : ℕ}, n ≤ postfixLevel →
    exprGrammar.Reads n e (render n e) := by
  induction e with
  | num num => exact fun _ => .atom rfl
  | float text => exact fun _ => .atom rfl
  | ident name => exact fun _ => .atom rfl
  | binop op lhs rhs ihl ihr =>
    intro n _
    have hlevel : op.level + 1 ≤ postfixLevel := by cases op <;> decide
    refine reads_parenIf fun k hk => .binary (following_tok op) (left_level op) hk ?_ ?_
    · exact ihl (by omega)
    · exact ihr hlevel
  | unop kind lhs ih =>
    intro n _
    exact reads_parenIf fun k hk => .unary (opening_tok kind) hk (ih (by decide))
  | member lhs name ih =>
    intro n hn
    exact .field (p := postfixLevel) rfl rfl hn (ih (Nat.le_refl _)) rfl
  | arrow lhs name ih =>
    intro n hn
    exact .field (p := postfixLevel) rfl rfl hn (ih (Nat.le_refl _)) rfl
  | index lhs rhs ihl ihr =>
    intro n hn
    exact .subscript (p := postfixLevel) rfl rfl rfl hn (ihl (Nat.le_refl _))
      (ihr (Nat.zero_le _))

/-! ### The classes of characters -/

section Chars

variable {c : Char}

theorem le_iff_toNat {d : Char} : c ≤ d ↔ c.toNat ≤ d.toNat := by
  rw [Char.le_def, UInt32.le_iff_toNat_le]
  rfl

/-- Characters of different classes differ. -/
theorem ne_of_class {p : Char → Bool} {d : Char} (hc : p c = true) (hd : p d = false) :
    d ≠ c := by
  rintro rfl
  exact Bool.noConfusion (hc.symm.trans hd)

theorem isDigit_iff : isDigit c = true ↔ 48 ≤ c.toNat ∧ c.toNat ≤ 57 := by
  simp [isDigit, le_iff_toNat]

theorem isIdentStart_iff : isIdentStart c = true ↔
    97 ≤ c.toNat ∧ c.toNat ≤ 122 ∨ 65 ≤ c.toNat ∧ c.toNat ≤ 90 ∨ c = '_' := by
  simp [isIdentStart, le_iff_toNat, or_assoc]

theorem isIdentStart_of_isDigit (h : isDigit c = true) : isIdentStart c = false := by
  rw [← Bool.not_eq_true, isIdentStart_iff]
  rw [isDigit_iff] at h
  rintro (h' | h' | rfl)
  · omega
  · omega
  · exact absurd h.2 (by decide)

theorem isDigit_of_isIdentStart (h : isIdentStart c = true) : isDigit c = false := by
  rw [← Bool.not_eq_true]
  intro hc
  rw [isIdentStart_of_isDigit hc] at h
  exact Bool.noConfusion h

/-- A class without the separators: the character that follows a word is not in it. -/
theorem head_of_endsWord {p : Char → Bool} {rest : CStr} (hp : p ' ' = false)
    (h : EndsWord [' '] rest) : ∀ d ∈ rest.head?, p d = false := by
  rcases h with rfl | ⟨tail, rfl⟩
  · intro d hd
    simp at hd
  · rintro d ⟨⟩
    exact hp

end Chars

/-! ### The lexer -/

section Lexer

variable {c : Char} {w rest : CStr} {n : ℕ}

theorem one_eq_none_of_head {p : Char → Bool} (h : ∀ d ∈ rest.head?, p d = false) :
    one p rest = none := by
  cases rest with
  | nil => rfl
  | cons d rest => exact one_eq_none (h d rfl)

/-- The word after a blank is not blank: only the blank is skipped. -/
theorem next_blank (hc : isBlank c = false) (text : CStr) :
    next exprRules (' ' :: c :: text) = (none, c :: text) := by
  have hblank : many1 isBlank ([' '] ++ c :: text) = some (0 + 1) :=
    many1_append (by simp) (by simp [isBlank]) (by simpa using hc)
  have hlater : AtMost (exprRules.drop 1) (' ' :: c :: text) (0 + 1) := by
    intro r hr m hm
    simp only [exprRules, List.drop_succ_cons, List.drop_zero, List.mem_cons, List.not_mem_nil,
      or_false] at hr
    rcases hr with rfl | rfl | rfl | rfl | rfl | rfl | rfl | rfl | rfl | rfl | rfl | rfl | rfl |
      rfl | rfl | rfl | rfl <;> cases hm
    decide
  exact next_eq (i := 0) rfl hblank hlater (by intro r hr; simp at hr)

/-- The operators and brackets of the grammar. -/
def operators : List ExprTok :=
  [.arrow, .lshift, .rshift, .le, .ge, .eq, .ne, .andand, .oror, .char '-', .char '+', .char '*',
    .char '/', .char '%', .char '&', .char '|', .char '^', .char '!', .char '~', .char '<',
    .char '>', .char '(', .char ')', .char '.', .char '[', .char ']']

/-- The longest match at the text of an operator before a blank is the operator. -/
theorem next_operator : ∀ t ∈ operators, ∀ rest, EndsWord [' '] rest →
    next exprRules (t.text ++ rest) = (some t, rest) := by
  simp only [operators, List.forall_mem_cons]
  refine ⟨?_, ?_, ?_, ?_, ?_, ?_, ?_, ?_, ?_, ?_, ?_, ?_, ?_, ?_, ?_, ?_, ?_, ?_, ?_, ?_, ?_,
    ?_, ?_, ?_, ?_, ?_, by simp⟩ <;> rintro rest (rfl | ⟨tail, rfl⟩) <;> rfl

theorem blank_operator : ∀ t ∈ operators, ∃ c cs, t.text = c :: cs ∧ isBlank c = false := by
  simp only [operators, List.forall_mem_cons]
  refine ⟨?_, ?_, ?_, ?_, ?_, ?_, ?_, ?_, ?_, ?_, ?_, ?_, ?_, ?_, ?_, ?_, ?_, ?_, ?_, ?_, ?_,
    ?_, ?_, ?_, ?_, ?_, by simp⟩ <;> exact ⟨_, _, rfl, rfl⟩

/-- A word that does not start with a blank is a chunk of its own where it is the longest
match before a blank. -/
theorem chunk_of_next {t : ExprTok} (htext : ∃ c cs, t.text = c :: cs ∧ isBlank c = false)
    (h : ∀ rest, EndsWord [' '] rest → next exprRules (t.text ++ rest) = (some t, rest)) :
    Chunk exprRules [' '] t.text t := by
  obtain ⟨c, cs, htext, hc⟩ := htext
  refine ⟨by simp [htext], h, fun rest => ?_⟩
  rw [htext]
  exact next_blank hc (cs ++ rest)

/-- The rules for operators do not match more than one character of a word. -/
theorem atMost_operators (hc : isIdentChar c = true) (text : CStr) :
    AtMost (exprRules.drop 7) (c :: text) (n + 1) := by
  have hlit : ∀ {d : Char} {v : CStr}, isIdentChar d = false →
      lit (d :: v) (c :: text) = none := fun hd => lit_eq_none (ne_of_class hc hd)
  have hpunct : one isPunct (c :: text) = none := by
    refine one_eq_none ?_
    have hne : ∀ d ∈ "-+*/%&|^!~<>().[]".toList, c ≠ d := by
      intro d hd
      have hclass : "-+*/%&|^!~<>().[]".toList.all (fun d => !isIdentChar d) = true := by decide
      have hother : isIdentChar d = false := by simpa using List.all_eq_true.mp hclass d hd
      exact (ne_of_class hc hother).symm
    rw [isPunct, List.contains_eq_mem, decide_eq_false_iff_not]
    exact fun h => hne c h rfl
  intro r hr m hm
  simp only [exprRules, List.drop_succ_cons, List.drop_zero, List.mem_cons, List.not_mem_nil,
    or_false] at hr
  rcases hr with rfl | rfl | rfl | rfl | rfl | rfl | rfl | rfl | rfl | rfl | rfl
  case inr.inr.inr.inr.inr.inr.inr.inr.inr.inl =>
    exact absurd (hpunct.symm.trans hm) (by simp)
  case inr.inr.inr.inr.inr.inr.inr.inr.inr.inr =>
    have hone : one (fun d => d ≠ '\n') (c :: text) = some m := hm
    rw [one] at hone
    split at hone
    · cases hone
      omega
    · simp at hone
  all_goals
    have hnone := hlit (by decide) |>.symm.trans hm
    simp at hnone

theorem isBlank_of_isIdentChar (hc : isIdentChar c = true) : isBlank c = false := by
  have h1 := ne_of_class (d := ' ') hc (by decide)
  have h2 := ne_of_class (d := '\t') hc (by decide)
  simp [isBlank, h1.symm, h2.symm]

/-- A name is read as an identifier. -/
theorem next_ident {name : CStr} (hname : isIdentifier name = true) (hrest : EndsWord [' '] rest) :
    next exprRules (name ++ rest) = (some (.ident name), rest) := by
  cases name with
  | nil => exact Bool.noConfusion hname
  | cons c cs =>
    simp only [isIdentifier, Bool.and_eq_true, List.all_eq_true] at hname
    obtain ⟨hc, hcs⟩ := hname
    have hchar : isIdentChar c = true := by simp [isIdentChar, hc]
    have hdigit : many1 isDigit (c :: (cs ++ rest)) = none :=
      many1_eq_none (isDigit_of_isIdentStart hc)
    have hmatch : seq (one isIdentStart) (many isIdentChar) (c :: (cs ++ rest)) =
        some (cs.length + 1) := by
      have h := many_append hcs (head_of_endsWord (p := isIdentChar) (by decide) hrest)
      rw [seq, one, if_pos hc]
      show (many isIdentChar (cs ++ rest)).map (1 + ·) = _
      rw [h]
      simp [Nat.add_comm]
    -- the earlier rules need a blank, a digit or a point at the start
    have hearlier : ∀ r ∈ exprRules.take 6, r.pattern (c :: (cs ++ rest)) = none := by
      simp only [exprRules, List.take_succ_cons, List.take_zero, List.forall_mem_cons]
      refine ⟨many1_eq_none (isBlank_of_isIdentChar hchar), seq_eq_none (one_eq_none ?_),
        seq_eq_none hdigit, ?_, seq_eq_none hdigit, hdigit, by simp⟩
      · simpa using (ne_of_class (d := '0') hc (by decide)).symm
      · have hnone : one (fun d => decide (d = '.')) (c :: (cs ++ rest)) = none :=
          one_eq_none (by simpa using (ne_of_class (d := '.') hc (by decide)).symm)
        refine seq_append_eq_none (w := []) (many_append (by simp) ?_) (seq_eq_none hnone)
        simpa using isDigit_of_isIdentStart hc
    have hnext := @next_eq _ exprRules _ _ _ 6 rfl hmatch
      (atMost_operators hchar (cs ++ rest)) (atMost_of_none hearlier)
    rw [List.cons_append, hnext]
    simp

/-- A run of digits is read as a number. -/
theorem next_number (hne : w ≠ []) (hw : ∀ d ∈ w, isDigit d = true)
    (hrest : EndsWord [' '] rest) :
    next exprRules (w ++ rest) = (some (.number (numberValue w)), rest) := by
  cases w with
  | nil => exact absurd rfl hne
  | cons c cs =>
    have hc : isDigit c = true := hw c (by simp)
    have hchar : isIdentChar c = true := by simp [isIdentChar, hc]
    have hdigits : many1 isDigit (c :: cs ++ rest) = some (c :: cs).length :=
      many1_append hne hw (head_of_endsWord (by decide) hrest)
    have hmany : many isDigit (c :: cs ++ rest) = some (c :: cs).length :=
      many_append hw (head_of_endsWord (by decide) hrest)
    have hpoint : ∀ b, seq (one (fun d => decide (d = '.'))) b rest = none := fun b =>
      seq_eq_none (one_eq_none_of_head (head_of_endsWord (by decide) hrest))
    have hexp : seq exponent floatSuffix rest = none :=
      seq_eq_none (seq_eq_none (one_eq_none_of_head (head_of_endsWord (by decide) hrest)))
    -- an `x` stands neither among the digits nor after them
    have hhex : ∀ b, seq (one fun d => d = 'x' || d = 'X') b (cs ++ rest) = none := by
      intro b
      refine seq_eq_none (one_eq_none_of_head fun d hd => ?_)
      cases cs with
      | nil => exact head_of_endsWord (p := fun d => d = 'x' || d = 'X') (by decide) hrest d hd
      | cons d cs =>
        cases hd
        have hd : isDigit d = true := hw d (by simp)
        have h1 := ne_of_class (d := 'x') hd (by decide)
        have h2 := ne_of_class (d := 'X') hd (by decide)
        simp [h1.symm, h2.symm]
    have hearlier : ∀ r ∈ exprRules.take 5, r.pattern (c :: cs ++ rest) = none := by
      simp only [exprRules, List.take_succ_cons, List.take_zero, List.forall_mem_cons]
      refine ⟨many1_eq_none (isBlank_of_isIdentChar hchar), ?_,
        seq_append_eq_none hdigits (hpoint _), seq_append_eq_none hmany (hpoint _),
        seq_append_eq_none hdigits hexp, by simp⟩
      by_cases h0 : c = '0'
      · refine @seq_append_eq_none [c] (cs ++ rest) _ _ ?_ (hhex _)
        simp [one, h0]
      · exact seq_eq_none (one_eq_none (by simpa using h0))
    have hlater : AtMost (exprRules.drop 6) (c :: cs ++ rest) (cs.length + 1) := by
      intro r hr
      rcases List.mem_cons.mp (show r ∈ _ :: exprRules.drop 7 from hr) with rfl | hr
      · intro m hm
        have hnone : seq (one isIdentStart) (many isIdentChar) (c :: cs ++ rest) = none :=
          seq_eq_none (one_eq_none (isIdentStart_of_isDigit hc))
        exact absurd (hnone.symm.trans hm) (by simp)
      · exact atMost_operators hchar (cs ++ rest) r hr
    have hnext := @next_eq _ exprRules _ _ _ 5 rfl hdigits hlater
      (atMost_of_none hearlier)
    rw [hnext]
    simp

end Lexer

/-! ### Decimal literals -/

section Decimal

/-- A decimal digit has its value. -/
theorem digitValue_of_isDigit {c : Char} (h : isDigit c = true) :
    digitValue 10 c = some (c.toNat - '0'.toNat) := by
  have hrange : '0' ≤ c ∧ c ≤ '9' := by simpa [isDigit] using h
  have hle := (isDigit_iff.mp h).2
  have hlt : c.toNat - '0'.toNat < 10 := by
    have h0 : '0'.toNat = 48 := rfl
    omega
  rw [digitValue]
  simp only [if_pos hrange, if_pos hlt]

theorem digits_eq : ∀ {w : CStr} {acc : ℕ}, (∀ d ∈ w, isDigit d = true) →
    digits 10 acc w = (Nat.ofDigitChars 10 w acc, []) := by
  intro w
  induction w with
  | nil =>
    intro acc _
    simp [digits]
  | cons c w ih =>
    intro acc hw
    have htail : ∀ d ∈ w, isDigit d = true := fun d hd => hw d (by simp [hd])
    rw [digits, digitValue_of_isDigit (hw c (by simp)), Nat.ofDigitChars_cons, Nat.mul_comm 10]
    exact ih htail

theorem isDigit_of_mem_toDigits {n : ℕ} {c : Char} (h : c ∈ Nat.toDigits 10 n) :
    isDigit c = true := by
  have hc := Nat.isDigit_of_mem_toDigits (by decide) (by decide) h
  rw [isDigit_iff]
  simpa [Char.isDigit, Char.le_def, UInt32.le_iff_toNat_le] using hc

/-- The first digit of a positive number is not zero. -/
theorem head_toDigits : ∀ {n : ℕ}, 0 < n → ∃ c cs, Nat.toDigits 10 n = c :: cs ∧ c ≠ '0' := by
  intro n
  induction n using Nat.strongRecOn with
  | ind n ih =>
    intro hn
    by_cases hlt : n < 10
    · have hdigit : ∀ m < 10, 0 < m → m.digitChar ≠ '0' := by decide
      exact ⟨n.digitChar, [], Nat.toDigits_of_lt_base hlt, hdigit n hlt hn⟩
    · obtain ⟨c, cs, hcs, hc⟩ := ih (n / 10) (by omega) (by omega)
      refine ⟨c, cs ++ [(n % 10).digitChar], ?_, hc⟩
      rw [Nat.toDigits_of_base_le (by decide) (by omega), hcs]
      rfl

/-- A literal has the value of its digits in the base that is detected, if it fits. -/
theorem numberValue_of_digits {base n : ℕ} {c d : Char} {cs ds : CStr} (hc : isDigit c = true)
    (hbase : detectBase (c :: cs) = (base, d :: ds)) (hd : (digitValue base d).isSome = true)
    (hdigits : digits base 0 (d :: ds) = (n, [])) (hn : n < 2 ^ 64) :
    numberValue (c :: cs) = UInt64.ofNat n := by
  have hisSome : (digitValue 10 c).isSome = true := by simp [digitValue_of_isDigit hc]
  obtain ⟨hspace, -, -⟩ := not_space_of_digit hisSome
  rw [numberValue, strtoull, List.dropWhile_cons_of_neg (by simp [hspace]), sign_of_digit hisSome]
  simp only [hbase, hd, hdigits, if_true, if_pos hn, Option.getD_some, Bool.false_eq_true,
    if_false]

/-- A decimal literal has the value it writes. -/
theorem numberValue_toDigits (v : UInt64) : numberValue (Nat.toDigits 10 v.toNat) = v := by
  by_cases hv : v.toNat = 0
  · have : v = 0 := UInt64.toNat_inj.mp hv
    subst this
    rfl
  obtain ⟨c, cs, hcs, hc⟩ := head_toDigits (Nat.pos_of_ne_zero hv)
  have hall : ∀ d ∈ c :: cs, isDigit d = true := fun d hd =>
    isDigit_of_mem_toDigits (hcs ▸ hd)
  have hdigit : isDigit c = true := hall c (by simp)
  have hvalue : digits 10 0 (c :: cs) = (v.toNat, []) := by
    rw [digits_eq hall, ← hcs, Nat.ofDigitChars_ten_toDigits]
  have hbase : detectBase (c :: cs) = (10, c :: cs) := by
    rw [detectBase]
    · exact fun _ _ _ h => hc (List.cons.inj h).1
    · exact fun _ h => hc (List.cons.inj h).1
  have hsome : (digitValue 10 c).isSome = true := by simp [digitValue_of_isDigit hdigit]
  rw [hcs, numberValue_of_digits hdigit hbase hsome hvalue v.toNat_lt, UInt64.ofNat_toNat]

end Decimal

/-! ### The round trip -/

/-- The tokens the text of an expression consists of. -/
theorem chunk_of_mem_render {e : Ast} : ∀ {n : ℕ} {t : ExprTok}, e.writable = true →
    t ∈ render n e → Chunk exprRules [' '] t.text t := by
  have hop : ∀ t ∈ operators, Chunk exprRules [' '] t.text t := fun t ht =>
    chunk_of_next (blank_operator t ht) (next_operator t ht)
  have hident : ∀ name, isIdentifier name = true →
      Chunk exprRules [' '] name (.ident name) := by
    intro name hname
    refine chunk_of_next (t := .ident name) ?_ fun rest => next_ident hname
    cases name with
    | nil => exact Bool.noConfusion hname
    | cons c cs =>
      refine ⟨c, cs, rfl, isBlank_of_isIdentChar ?_⟩
      simp only [isIdentifier, Bool.and_eq_true] at hname
      simp [isIdentChar, hname.1]
  have hparen : ∀ {b : Bool} {ts : List ExprTok} {t : ExprTok}, t ∈ parenIf b ts →
      t ∈ operators ∨ t ∈ ts := by
    intro b ts t ht
    unfold parenIf at ht
    split at ht
    · simp only [List.mem_cons, List.mem_append, List.not_mem_nil, or_false] at ht
      rcases ht with rfl | ht | rfl
      · exact .inl (by decide)
      · exact .inr ht
      · exact .inl (by decide)
    · exact .inr ht
  induction e with
  | num num =>
    intro n t _ ht
    cases List.mem_singleton.mp ht
    have hdigits : ∀ d ∈ Nat.toDigits 10 num.toNat, isDigit d = true :=
      fun d => isDigit_of_mem_toDigits
    refine chunk_of_next ?_ fun rest hrest => ?_
    · have hne : Nat.toDigits 10 num.toNat ≠ [] := Nat.toDigits_ne_nil
      obtain ⟨c, cs, hcs⟩ := List.exists_cons_of_ne_nil hne
      refine ⟨c, cs, hcs, isBlank_of_isIdentChar ?_⟩
      simp [isIdentChar, hdigits c (by simp [hcs])]
    · have h := next_number Nat.toDigits_ne_nil hdigits hrest
      rwa [numberValue_toDigits] at h
  | float text =>
    intro n t hw _
    exact Bool.noConfusion hw
  | ident name =>
    intro n t hw ht
    cases List.mem_singleton.mp ht
    exact hident name hw
  | binop op lhs rhs ihl ihr =>
    intro n t hw ht
    simp only [Ast.writable, Bool.and_eq_true] at hw
    rcases hparen ht with ht | ht
    · exact hop t ht
    · simp only [List.mem_append, List.mem_cons] at ht
      rcases ht with ht | rfl | ht
      · exact ihl hw.1 ht
      · exact hop _ (by cases op <;> decide)
      · exact ihr hw.2 ht
  | unop kind lhs ih =>
    intro n t hw ht
    rcases hparen ht with ht | ht
    · exact hop t ht
    · rcases List.mem_cons.mp ht with rfl | ht
      · exact hop _ (by cases kind <;> decide)
      · exact ih hw ht
  | member lhs name ih | arrow lhs name ih =>
    intro n t hw ht
    simp only [Ast.writable, Bool.and_eq_true] at hw
    simp only [render, List.mem_append, List.mem_cons, List.not_mem_nil, or_false] at ht
    rcases ht with ht | rfl | rfl
    · exact ih hw.1 ht
    · exact hop _ (by decide)
    · exact hident name hw.2
  | index lhs rhs ihl ihr =>
    intro n t hw ht
    simp only [Ast.writable, Bool.and_eq_true] at hw
    simp only [render, List.mem_append, List.mem_cons, List.not_mem_nil, or_false] at ht
    rcases ht with ht | rfl | ht | rfl
    · exact ihl hw.1 ht
    · exact hop _ (by decide)
    · exact ihr hw.2 ht
    · exact hop _ (by decide)

/-- An expression written with the parentheses that C needs is read back as the same tree. -/
theorem parse_renderText (e : Ast) (h : e.writable = true) :
    cdbgAstParse (renderText e) = some e := by
  have hlex : lex exprRules (renderText e) = render 0 e :=
    lex_separated (by simp) fun t ht => chunk_of_mem_render h ht
  rw [cdbgAstParse, hlex]
  exact OpGrammar.parse_of_reads rfl (reads_render e (Nat.zero_le _))

/-- `- * p -> n [ 1 - ( 2 - 3 ) ] < 4` -/
theorem parse_renderText_negated_deref :
    cdbgAstParse "- * p -> n [ 1 - ( 2 - 3 ) ] < 4".toList =
      some (.binop .lt (.unop .neg (.unop .deref (.index (.arrow (.ident "p".toList) "n".toList)
        (.binop .sub (.num 1) (.binop .sub (.num 2) (.num 3)))))) (.num 4)) :=
  parse_renderText (.binop .lt (.unop .neg (.unop .deref (.index
    (.arrow (.ident "p".toList) "n".toList)
      (.binop .sub (.num 1) (.binop .sub (.num 2) (.num 3)))))) (.num 4)) (by decide)

end Debugger
