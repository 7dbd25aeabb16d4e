/-
Integer literals.

`cInteger` is the number that a text of the lexer's integer rules denotes in C, by the places
of its digits.  `strtoull` reads a digit string with a leading zero up to the first 8 or 9 and
stops at the greatest number of 64 bits, and neither is an error: so a literal is read as in C
exactly where C has a value for it below `2 ^ 64` (`literal_iff`).
-/
import Debugger.RoundTrip

open Prog Pattern

namespace Debugger

/-- The texts that the integer rules of the lexer match. -/
inductive IntegerText : CStr → Prop
  | decimal {w} (hne : w ≠ []) (h : ∀ c ∈ w, isDigit c = true) : IntegerText w
  | hex {x h} (hx : x = 'x' ∨ x = 'X') (hne : h ≠ []) (hh : ∀ c ∈ h, isHex c = true) :
      IntegerText ('0' :: x :: h)

/-- The number that digits write in a base; none where one is no digit of the base. -/
def positional (base : ℕ) : CStr → Option ℕ
  | [] => some 0
  | c :: cs => do
    let d ← digitValue base c
    let n ← positional base cs
    some (d * base ^ cs.length + n)

/-- The number that an integer constant of C denotes. -/
def cInteger : CStr → Option ℕ
  | '0' :: 'x' :: h | '0' :: 'X' :: h => positional 16 h
  | '0' :: ds => positional 8 ('0' :: ds)
  | ds => positional 10 ds

/-- The literal is read as the number it denotes, or it is rejected where it denotes none of
64 bits. -/
def LiteralCorrect (w : CStr) : Prop :=
  match (cInteger w).filter (· < 2 ^ 64) with
  | some n => cdbgAstParse w = some (.num (UInt64.ofNat n))
  | none => cdbgAstParse w = none

/-- `010` is eight, and `08` denotes no number. -/
example : cInteger "010".toList = some 8 ∧ cInteger "08".toList = none ∧
    cInteger "0xfF".toList = some 255 := by decide

/-! ### The lexer -/

section Lexer

variable {w h rest : CStr} {x : Char}

/-- `0[xX]{HEX}+` -/
def hexRule : Pattern :=
  seq (one (· = '0')) (seq (one fun c => c = 'x' || c = 'X') (many1 isHex))

theorem hexRule_append (hx : x = 'x' ∨ x = 'X') (hne : h ≠ []) (hh : ∀ c ∈ h, isHex c = true)
    (hrest : EndsWord [' '] rest) :
    hexRule ('0' :: x :: h ++ rest) = some (h.length + 1 + 1) := by
  have hdigits : many1 isHex (h ++ rest) = some h.length :=
    many1_append hne hh (head_of_endsWord (by decide) hrest)
  have hone : seq (one fun c => c = 'x' || c = 'X') (many1 isHex) (x :: (h ++ rest)) =
      some (1 + h.length) := by
    rw [seq, one, if_pos (by simpa using hx)]
    show (many1 isHex (h ++ rest)).map (1 + ·) = _
    rw [hdigits]
    rfl
  show (seq (one fun c => c = 'x' || c = 'X') (many1 isHex) (x :: (h ++ rest))).map (1 + ·) = _
  rw [hone]
  simp [Nat.add_comm]

/-- The integer rules are the second and the sixth one of the lexer. -/
theorem integerText_iff : IntegerText w ↔
    ∃ r, (exprRules[1]? = some r ∨ exprRules[5]? = some r) ∧ r.pattern w = some w.length := by
  constructor
  · intro h
    cases h with
    | decimal hne h =>
      have hmatch : many1 isDigit (w ++ []) = some w.length := many1_append hne h (by simp)
      rw [List.append_nil] at hmatch
      exact ⟨_, .inr rfl, hmatch⟩
    | hex hx hne hh =>
      have hmatch := hexRule_append hx hne hh (.inl rfl)
      rw [List.append_nil] at hmatch
      exact ⟨_, .inl rfl, hmatch⟩
  · rintro ⟨r, hr | hr, hmatch⟩
    · obtain rfl := Option.some.inj hr
      have hword := ((matches_seq matches_one (matches_seq matches_one matches_many1)) _ _ hmatch).2
      rw [List.take_length] at hword
      obtain ⟨u, v, rfl, ⟨z, rfl, hz⟩, x, h, rfl, ⟨x, rfl, hx⟩, hne, hh⟩ := hword
      obtain rfl : z = '0' := of_decide_eq_true hz
      exact .hex (by simpa using hx) hne hh
    · obtain rfl := Option.some.inj hr
      have hword := (matches_many1 _ _ hmatch).2
      rw [List.take_length] at hword
      exact .decimal hword.1 hword.2

/-- A literal in hexadecimal is read as a number. -/
theorem next_hex (hx : x = 'x' ∨ x = 'X') (hne : h ≠ []) (hh : ∀ c ∈ h, isHex c = true)
    (hrest : EndsWord [' '] rest) :
    next exprRules ('0' :: x :: h ++ rest) =
      (some (.number (numberValue ('0' :: x :: h))), rest) := by
  have hxDigit : isDigit x = false := by
    rcases hx with rfl | rfl <;> rfl
  have hmatch := hexRule_append hx hne hh hrest
  rw [hexRule] at hmatch
  -- the rules for numbers read the zero only
  have hzero : many1 isDigit (['0'] ++ x :: (h ++ rest)) = some 1 :=
    many1_append (by simp) (by decide) (by simpa using hxDigit)
  have hzeros : many isDigit (['0'] ++ x :: (h ++ rest)) = some 1 :=
    many_append (by decide) (by simpa using hxDigit)
  have hpoint : ∀ b, seq (one fun d => decide (d = '.')) b (x :: (h ++ rest)) = none := by
    intro b
    refine seq_eq_none (one_eq_none ?_)
    rcases hx with rfl | rfl <;> rfl
  have hexp : seq exponent floatSuffix (x :: (h ++ rest)) = none := by
    refine seq_eq_none (seq_eq_none (one_eq_none ?_))
    rcases hx with rfl | rfl <;> rfl
  have hlater : AtMost (exprRules.drop 2) ('0' :: x :: h ++ rest) (h.length + 1 + 1) := by
    intro r hr m hm
    rcases List.mem_append.mp (show r ∈ (exprRules.drop 2).take 5 ++ exprRules.drop 7 from hr)
      with hr | hr
    · simp only [exprRules, List.drop_succ_cons, List.drop_zero, List.take_succ_cons,
        List.take_zero, List.mem_cons, List.not_mem_nil, or_false] at hr
      rcases hr with rfl | rfl | rfl | rfl | rfl
      · exact absurd ((seq_append_eq_none hzero (hpoint _)).symm.trans hm) (by simp)
      · exact absurd ((seq_append_eq_none hzeros (hpoint _)).symm.trans hm) (by simp)
      · exact absurd ((seq_append_eq_none hzero hexp).symm.trans hm) (by simp)
      · have hm' : m = 1 := Option.some.inj (hm.symm.trans hzero)
        omega
      · have hnone : seq (one isIdentStart) (many isIdentChar) ('0' :: x :: h ++ rest) = none :=
          seq_eq_none (one_eq_none (by decide))
        exact absurd (hnone.symm.trans hm) (by simp)
    · exact atMost_operators (by decide) (x :: h ++ rest) r hr m hm
  have hearlier : ∀ r ∈ exprRules.take 1, r.pattern ('0' :: x :: h ++ rest) = none := by
    simp only [exprRules, List.take_succ_cons, List.take_zero, List.forall_mem_cons]
    exact ⟨many1_eq_none (by decide), by simp⟩
  have hnext := @next_eq _ exprRules _ _ _ 1 rfl hmatch hlater (atMost_of_none hearlier)
  rw [hnext]
  simp

/-- A literal on its own is an expression. -/
theorem cdbgAstParse_integer (hw : IntegerText w) :
    cdbgAstParse w = some (.num (numberValue w)) := by
  have hne : w ≠ [] := by
    cases hw with
    | decimal hne _ => exact hne
    | hex _ _ _ => simp
  have hnext : next exprRules (w ++ []) = (some (.number (numberValue w)), []) := by
    cases hw with
    | decimal hne h => exact next_number hne h (.inl rfl)
    | hex hx hdigits hh => exact next_hex hx hdigits hh (.inl rfl)
  have hlex : lex exprRules w = [.number (numberValue w)] := by
    obtain ⟨c, cs, rfl⟩ := List.exists_cons_of_ne_nil hne
    have hread := @lexFuel_next _ exprRules cs.length _ _ [] hne hnext
    rw [List.append_nil] at hread
    rw [lex, List.length_cons, hread]
    cases cs.length <;> rfl
  rw [cdbgAstParse, hlex]
  rfl

end Lexer

/-! ### The value -/

section Value

variable {w : CStr} {base n : ℕ}

/-- The digits of a number are read by their places. -/
theorem digits_of_positional : ∀ {w : CStr} {acc n : ℕ}, positional base w = some n →
    digits base acc w = (acc * base ^ w.length + n, []) := by
  intro w
  induction w with
  | nil =>
    intro acc n h
    cases h
    simp [digits]
  | cons c cs ih =>
    intro acc n h
    obtain ⟨d, hd, h⟩ := Option.bind_eq_some_iff.mp h
    obtain ⟨m, hm, h⟩ := Option.bind_eq_some_iff.mp h
    cases h
    rw [digits, hd]
    dsimp only
    rw [ih hm, List.length_cons, Nat.pow_succ, Nat.add_mul, Nat.mul_assoc,
      Nat.mul_comm base (base ^ cs.length), Nat.add_assoc]

/-- A numeral of the detected base that fits into 64 bits has its value. -/
theorem numberValue_of_base {c : Char} (hc : isDigit c = true) {cs numeral : CStr}
    (hbase : detectBase (c :: cs) = (base, numeral)) (hne : numeral ≠ [])
    (hvalue : positional base numeral = some n) (hn : n < 2 ^ 64) :
    numberValue (c :: cs) = UInt64.ofNat n := by
  obtain ⟨d, ds, rfl⟩ := List.exists_cons_of_ne_nil hne
  have hd : (digitValue base d).isSome = true := by
    obtain ⟨v, hv, -⟩ := Option.bind_eq_some_iff.mp hvalue
    rw [hv]
    rfl
  have hdigits : digits base 0 (d :: ds) = (n, []) := by
    rw [digits_of_positional hvalue, Nat.zero_mul, Nat.zero_add]
  exact numberValue_of_digits hc hbase hd hdigits hn

/-- A digit is not the `x` of a hexadecimal prefix. -/
theorem not_x_of_isDigit {c : Char} (hc : isDigit c = true) : ¬(c = 'x' ∨ c = 'X') := by
  rintro (rfl | rfl) <;> exact absurd hc (by decide)

/-- An octal numeral is read in base eight, with its zero. -/
theorem detectBase_octal {cs : CStr} (hcs : ∀ c ∈ cs, isDigit c = true) :
    detectBase ('0' :: cs) = (8, '0' :: cs) := by
  match cs with
  | [] => rfl
  | [c] => rfl
  | c :: d :: cs =>
    rw [detectBase, if_neg]
    exact fun h => not_x_of_isDigit (hcs c List.mem_cons_self) h.1

theorem cInteger_octal {cs : CStr} (hcs : ∀ c ∈ cs, isDigit c = true) :
    cInteger ('0' :: cs) = positional 8 ('0' :: cs) := by
  cases cs with
  | nil => rfl
  | cons c cs =>
    have hc := not_x_of_isDigit (hcs c List.mem_cons_self)
    rw [cInteger]
    · exact fun _ h => hc (.inl (List.cons.inj h).1)
    · exact fun _ h => hc (.inr (List.cons.inj h).1)

/-- A literal whose value fits into 64 bits is read as this value. -/
theorem numberValue_of_cInteger (hw : IntegerText w) (hvalue : cInteger w = some n)
    (hn : n < 2 ^ 64) : numberValue w = UInt64.ofNat n := by
  cases hw with
  | decimal hne h =>
    obtain ⟨c, cs, rfl⟩ := List.exists_cons_of_ne_nil hne
    have hc := h c List.mem_cons_self
    have hcs : ∀ d ∈ cs, isDigit d = true := fun d hd => h d (List.mem_cons_of_mem _ hd)
    by_cases hzero : c = '0'
    · subst hzero
      rw [cInteger_octal hcs] at hvalue
      exact numberValue_of_base hc (detectBase_octal hcs) (by simp) hvalue hn
    · have hbase : detectBase (c :: cs) = (10, c :: cs) := by
        rw [detectBase]
        · exact fun _ _ _ h => hzero (List.cons.inj h).1
        · exact fun _ h => hzero (List.cons.inj h).1
      have hten : cInteger (c :: cs) = positional 10 (c :: cs) := by
        rw [cInteger]
        · exact fun _ h => hzero (List.cons.inj h).1
        · exact fun _ h => hzero (List.cons.inj h).1
        · exact fun _ h => hzero (List.cons.inj h).1
      exact numberValue_of_base hc hbase (by simp) (hten ▸ hvalue) hn
  | @hex x h hx hne hh =>
    obtain ⟨d, ds, rfl⟩ := List.exists_cons_of_ne_nil hne
    have hvalue' : positional 16 (d :: ds) = some n := by
      rcases hx with rfl | rfl <;> exact hvalue
    have hd : (digitValue 16 d).isSome = true := by
      obtain ⟨v, hv, -⟩ := Option.bind_eq_some_iff.mp hvalue'
      rw [hv]
      rfl
    have hbase : detectBase ('0' :: x :: d :: ds) = (16, d :: ds) := by
      rw [detectBase, if_pos ⟨hx, hd⟩]
    exact numberValue_of_base (by decide) hbase hne hvalue' hn

end Value

/-- A literal that one of the two integer rules of the lexer matches is read as the number it
denotes in C, or rejected where it denotes none of 64 bits, exactly if it denotes one. -/
theorem literal_iff {w : CStr} (hrule : ∃ r, (exprRules[1]? = some r ∨ exprRules[5]? = some r) ∧
    r.pattern w = some w.length) :
    LiteralCorrect w ↔ ∃ n, cInteger w = some n ∧ n < 2 ^ 64 := by
  have hw := integerText_iff.mpr hrule
  rw [LiteralCorrect, cdbgAstParse_integer hw]
  constructor
  · intro h
    cases hfit : (cInteger w).filter (· < 2 ^ 64) with
    | none =>
      rw [hfit] at h
      exact absurd h (Option.some_ne_none _)
    | some n =>
      obtain ⟨hvalue, hn⟩ := Option.filter_eq_some_iff.mp hfit
      exact ⟨n, hvalue, of_decide_eq_true hn⟩
  · rintro ⟨n, hvalue, hn⟩
    have hfit : (cInteger w).filter (· < 2 ^ 64) = some n :=
      Option.filter_eq_some_iff.mpr ⟨hvalue, decide_eq_true hn⟩
    rw [hfit]
    exact congrArg (some ∘ Ast.num) (numberValue_of_cInteger hw hvalue hn)

/-- `010` is read as eight. -/
theorem literal_iff_octal : LiteralCorrect "010".toList :=
  (literal_iff (integerText_iff.mp (.decimal (by decide) (by decide)))).mpr
    ⟨8, by decide, by decide⟩

/-- `08` is read as zero, and `18446744073709551616` as the greatest number of 64 bits. -/
theorem literal_misread :
    (IntegerText "08".toList ∧ ¬LiteralCorrect "08".toList ∧
      cdbgAstParse "08".toList = some (.num 0)) ∧
    IntegerText "18446744073709551616".toList ∧ ¬LiteralCorrect "18446744073709551616".toList ∧
      cdbgAstParse "18446744073709551616".toList = some (.num (UInt64.ofNat (2 ^ 64 - 1))) := by
  have hoct : IntegerText "08".toList := .decimal (by decide) (by decide)
  have hlong : IntegerText "18446744073709551616".toList := .decimal (by decide) (by decide)
  have hzero : cdbgAstParse "08".toList = some (.num 0) := cdbgAstParse_integer hoct
  have hmax : cdbgAstParse "18446744073709551616".toList =
      some (.num (UInt64.ofNat (2 ^ 64 - 1))) := cdbgAstParse_integer hlong
  have hnoOct : (cInteger "08".toList).filter (· < 2 ^ 64) = none := by decide
  have hnoLong : (cInteger "18446744073709551616".toList).filter (· < 2 ^ 64) = none := by decide
  refine ⟨⟨hoct, ?_, hzero⟩, hlong, ?_, hmax⟩
  · rw [LiteralCorrect, hnoOct, hzero]
    exact Option.some_ne_none _
  · rw [LiteralCorrect, hnoLong, hmax]
    exact Option.some_ne_none _

end Debugger
