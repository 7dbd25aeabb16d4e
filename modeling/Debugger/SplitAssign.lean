/-
Where `set` splits an assignment.

`split_assignment` takes the first `=` that has no `<`, `>` or `!` before it and no `=` behind
it.  The texts of the lexer's operators tell what stands beside an `=` of an expression
(`eq_beside`), so `<=`, `>=` and `!=` are passed over.  Of `==` only the first character is:
the scan stops at the second one, and an assignment is split as it is written exactly if there
is no `==` in its target (`splitAssignment_iff`).
-/
import Debugger.CmdLine
import Debugger.ExprSyntax
import Debugger.Reader

open Prog Pattern OpGrammar

namespace Debugger

/-! ### The words with a relational character -/

/-- The characters of the relational operators. -/
def isRelChar (c : Char) : Bool := "<>!=".toList.contains c

/-- The words of the lexer in which they stand, and their tokens. -/
def relWords : List (CStr × ExprTok) :=
  [("->".toList, .arrow), ("<<".toList, .lshift), (">>".toList, .rshift), ("<=".toList, .le),
    (">=".toList, .ge), ("==".toList, .eq), ("!=".toList, .ne), ("<".toList, .char '<'),
    (">".toList, .char '>'), ("!".toList, .char '!')]

/-- The character is no relational one. -/
def Plain (c : Char) : Prop := isRelChar c = false

instance : DecidablePred Plain := fun c => inferInstanceAs (Decidable (isRelChar c = false))

/-- What a rule can match: a word without these characters, one of `relWords`, or a character
of no token. -/
def RelWord (w : CStr) (token : Option ExprTok) : Prop :=
  (∀ c ∈ w, Plain c) ∨ (∃ t, (w, t) ∈ relWords ∧ token = some t) ∨ token = some .invalidChar

section Words

variable {w rest text p q : CStr} {token : Option ExprTok} {tokens : List ExprTok} {c : Char}

theorem isRelChar_iff : isRelChar c = true ↔ c = '<' ∨ c = '>' ∨ c = '!' ∨ c = '=' := by
  simp [isRelChar]

/-- A class without relational characters. -/
theorem plain_of_class {inClass : Char → Bool} (h : "<>!=".toList.all (! inClass ·) = true) :
    ∀ c, inClass c = true → Plain c := by
  intro c hc
  by_contra hrel
  have hmem : c ∈ "<>!=".toList := by simpa [Plain, isRelChar, or_iff_not_imp_left] using hrel
  have hno := List.all_eq_true.mp h c hmem
  simp [hc] at hno

theorem over_exponent : Over Plain exponent :=
  over_seq (over_one (plain_of_class (by decide))) (over_seq
    (over_opt (over_one (plain_of_class (by decide)))) (over_many1 (plain_of_class (by decide))))

theorem over_floatSuffix : Over Plain floatSuffix :=
  over_opt (over_one (plain_of_class (by decide)))

/-- The rules of blanks, literals and names match no relational character. -/
theorem over_plainRules : ∀ r ∈ exprRules.take 7, Over Plain r.pattern := by
  have hdigit : ∀ c, isDigit c = true → Plain c := plain_of_class (by decide)
  have hdot : ∀ c, decide (c = '.') = true → Plain c := plain_of_class (by decide)
  simp only [exprRules, List.take_succ_cons, List.take_zero, List.forall_mem_cons,
    List.not_mem_nil, false_imp_iff, implies_true, and_true]
  refine ⟨over_many1 (plain_of_class (by decide)), ?_, ?_, ?_, ?_, over_many1 hdigit, ?_⟩
  · exact over_seq (over_one (plain_of_class (by decide)))
      (over_seq (over_one (plain_of_class (by decide))) (over_many1 (plain_of_class (by decide))))
  · exact over_seq (over_many1 hdigit) (over_seq (over_one hdot)
      (over_seq (over_many hdigit) (over_seq (over_opt over_exponent) over_floatSuffix)))
  · exact over_seq (over_many hdigit) (over_seq (over_one hdot)
      (over_seq (over_many1 hdigit) (over_seq (over_opt over_exponent) over_floatSuffix)))
  · exact over_seq (over_many1 hdigit) (over_seq over_exponent over_floatSuffix)
  · exact over_seq (over_one (plain_of_class (by decide))) (over_many (plain_of_class (by decide)))

/-- Every rule matches at least one character. -/
theorem proper_exprRules : Proper exprRules := by
  simp only [Proper, exprRules, List.forall_mem_cons, List.not_mem_nil, false_imp_iff,
    implies_true, and_true]
  refine ⟨nonempty_many1, ?_, ?_, ?_, ?_, nonempty_many1, ?_, ?_⟩
  · exact nonempty_seq_left nonempty_one (matches_seq matches_one matches_many1)
  · exact nonempty_seq_left nonempty_many1 (matches_seq matches_one (matches_seq matches_many
      (matches_seq (matches_opt over_exponent) over_floatSuffix)))
  · exact nonempty_seq_right matches_many (nonempty_seq_left nonempty_one
      (matches_seq matches_many1 (matches_seq (matches_opt over_exponent) over_floatSuffix)))
  · exact nonempty_seq_left nonempty_many1 (matches_seq over_exponent over_floatSuffix)
  · exact nonempty_seq_left nonempty_one matches_many
  · refine ⟨?_, ?_, ?_, ?_, ?_, ?_, ?_, ?_, ?_, nonempty_one, nonempty_one⟩ <;>
      exact nonempty_lit (by decide)

/-- What a match of a rule, or a character passed over, can be. -/
theorem relWord_of_match (h : Match exprRules w token rest) : RelWord w token := by
  cases h with
  | @rule r _ _ hr h =>
    have hword : ∀ {C : CStr → Prop}, r.pattern.Matches C → C w := by
      intro C hC
      have hw := (hC _ _ h).2
      rwa [List.take_left] at hw
    rcases List.mem_append.mp (show r ∈ exprRules.take 7 ++ exprRules.drop 7 from hr) with hr | hr
    · exact .inl (hword (over_plainRules r hr))
    · simp only [exprRules, List.drop_succ_cons, List.drop_zero, List.mem_cons, List.not_mem_nil,
        or_false] at hr
      rcases hr with rfl | rfl | rfl | rfl | rfl | rfl | rfl | rfl | rfl | rfl | rfl
      -- `->`, `<<`, `>>`, `<=`, `>=`, `==` and `!=`
      iterate 7
        obtain rfl := hword matches_lit
        exact .inr (.inl ⟨_, by simp [relWords], rfl⟩)
      -- `&&` and `||`
      iterate 2
        obtain rfl := hword matches_lit
        exact .inl (by decide)
      · obtain ⟨c, rfl, hc⟩ := hword matches_one
        by_cases hrel : isRelChar c = true
        · rcases isRelChar_iff.mp hrel with rfl | rfl | rfl | rfl
          · exact .inr (.inl ⟨_, by simp [relWords], rfl⟩)
          · exact .inr (.inl ⟨_, by simp [relWords], rfl⟩)
          · exact .inr (.inl ⟨_, by simp [relWords], rfl⟩)
          · exact absurd hc (by decide)
        · exact .inl (by simpa [Plain] using hrel)
      · exact .inr (.inr rfl)
  | @skip c _ h =>
    -- only a newline is matched by no rule
    have hany := h _ (List.getLast_mem (by decide : exprRules ≠ []))
    have hc : c = '\n' := by
      by_contra hne
      simp [exprRules, one, hne] at hany
    subst hc
    exact .inl (by simp [Plain, isRelChar])

/-! ### What stands beside an `=` -/

/-- Beside an `=` there is a character of the class before it, or an `=` behind it. -/
def Beside (inClass : Char → Bool) (p q : CStr) : Prop :=
  p.getLast?.any inClass = true ∨ q.head? = some '='

instance {inClass : Char → Bool} : Decidable (Beside inClass p q) :=
  inferInstanceAs (Decidable (p.getLast?.any inClass = true ∨ q.head? = some '='))

theorem Beside.append_right {inClass : Char → Bool} (h : Beside inClass p q) :
    Beside inClass p (q ++ rest) := by
  refine h.imp_right fun hq => ?_
  rw [List.head?_append, hq]
  rfl

theorem Beside.append_left {inClass : Char → Bool} (h : Beside inClass p q) :
    Beside inClass (w ++ p) q := by
  refine h.imp_left fun hp => ?_
  obtain ⟨c, hc, hrel⟩ := (Option.any_eq_true _ _).mp hp
  rw [List.getLast?_append, hc]
  exact hrel

/-- In the words of the lexer an `=` has a relational character beside it. -/
theorem beside_relWords : ∀ k ∈ relWords, ∀ i < k.1.length, k.1[i]? = some '=' →
    Beside isRelChar (k.1.take i) (k.1.drop (i + 1)) := by decide

/-- An `=` in a text that is cut into tokens belongs to an operator of two characters. -/
theorem eq_beside (h : Lexed exprRules text tokens) : ExprTok.invalidChar ∉ tokens →
    ∀ {p q}, text = p ++ '=' :: q → Beside isRelChar p q := by
  induction h with
  | nil =>
    intro _ p q htext
    simp at htext
  | @step w token rest tokens hne hmatch h ih =>
    intro hvalid p q htext
    have hrest : ExprTok.invalidChar ∉ tokens := fun hmem => hvalid (List.mem_append_right _ hmem)
    rcases List.append_eq_append_iff.mp htext with ⟨p', rfl, hrest'⟩ | ⟨v, rfl, hv⟩
    · -- behind the first word
      exact (ih hrest hrest').append_left
    · cases v with
      | nil =>
        have hbeside : Beside isRelChar [] q := ih hrest (by simpa using hv.symm)
        simpa using hbeside.append_left (w := p)
      | cons c v =>
        -- in the first word
        obtain ⟨rfl, rfl⟩ := List.cons.inj hv
        rcases relWord_of_match hmatch with hplain | ⟨t, hmem, -⟩ | rfl
        · exact absurd (hplain '=' (by simp)) (by decide)
        · have hword := beside_relWords _ hmem p.length (by simp) (by simp)
          rw [List.take_left, List.drop_length_add_append] at hword
          exact hword.append_right
        · exact absurd (List.mem_append_left _ (by simp)) hvalid

/-- A text that ends with a relational character ends with the token of a word with one. -/
theorem getLast_relWords (h : Lexed exprRules text tokens) : ExprTok.invalidChar ∉ tokens →
    ∀ {p}, text = p ++ [c] → isRelChar c = true →
      ∃ k ∈ relWords, tokens.getLast? = some k.2 := by
  induction h with
  | nil =>
    intro _ p htext
    simp at htext
  | @step w token rest tokens hne hmatch h ih =>
    intro hvalid p htext hc
    have hrest : ExprTok.invalidChar ∉ tokens := fun hmem => hvalid (List.mem_append_right _ hmem)
    rcases List.eq_nil_or_concat' rest with rfl | ⟨q, d, rfl⟩
    · -- the last word
      obtain rfl := h.eq_nil rfl
      rw [List.append_nil] at htext ⊢
      subst htext
      rcases relWord_of_match hmatch with hplain | ⟨t, hmem, rfl⟩ | rfl
      · exact absurd (hplain c (by simp)) (by simp [Plain, hc])
      · exact ⟨_, hmem, rfl⟩
      · exact absurd (List.mem_append_left [] (by simp)) hvalid
    · rw [← List.append_assoc] at htext
      obtain ⟨-, hd⟩ := List.append_inj' htext rfl
      obtain rfl : d = c := (List.cons.inj hd).1
      obtain ⟨k, hk, hlast⟩ := ih hrest rfl hc
      exact ⟨k, hk, by rw [List.getLast?_append, hlast]; rfl⟩

end Words

/-! ### Expressions -/

section Expressions

variable {w rest text p q : CStr} {a : Ast} {c : Char} {tokens : List ExprTok}

/-- The characters that are tokens of their own are those of the class. -/
theorem isPunct_of_match (h : Match exprRules w (some (.char c)) rest) : isPunct c = true := by
  generalize htoken : some (ExprTok.char c) = token at h
  cases h with
  | @rule r _ _ hr h =>
    simp only [exprRules, List.mem_cons, List.not_mem_nil, or_false] at hr
    rcases hr with rfl | rfl | rfl | rfl | rfl | rfl | rfl | rfl | rfl | rfl | rfl | rfl | rfl |
      rfl | rfl | rfl | rfl | rfl
    all_goals try cases htoken
    have hword := (matches_one _ _ h).2
    rw [List.take_left] at hword
    obtain ⟨d, rfl, hd⟩ := hword
    cases htoken
    exact hd
  | skip _ => cases htoken

theorem isPunct_of_mem (h : Lexed exprRules text tokens) :
    ∀ {c}, ExprTok.char c ∈ tokens → isPunct c = true := by
  induction h with
  | nil => exact fun hmem => nomatch hmem
  | @step w token rest tokens _ hmatch _ ih =>
    intro c hmem
    rcases List.mem_append.mp hmem with hmem | hmem
    · rw [Option.mem_toList.mp hmem] at hmatch
      exact isPunct_of_match hmatch
    · exact ih hmem

/-- Of the characters only `(` and `[` open brackets, and only `.` waits for a name. -/
theorem punct_cases (h : isPunct c = true) :
    (∀ close, exprGrammar.opening (.char c) = .paren close → close = .char ')') ∧
      (∀ p close f, exprGrammar.following (.char c) = .subscript p close f → close = .char ']') ∧
      ∀ p f, exprGrammar.following (.char c) = .field p f → ∀ b, ∃ g, f b = withIdent g := by
  have hmem : c ∈ "-+*/%&|^!~<>().[]".toList := List.contains_iff_mem.mp h
  simp only [String.reduceToList, List.mem_cons, List.not_mem_nil, or_false] at hmem
  rcases hmem with rfl | rfl | rfl | rfl | rfl | rfl | rfl | rfl | rfl | rfl | rfl | rfl | rfl |
    rfl | rfl | rfl | rfl
  all_goals
    refine ⟨fun close h => ?_, fun p close f h => ?_, fun p f h b => ?_⟩ <;> cases h
  · rfl
  · exact ⟨_, rfl⟩
  · rfl

/-- Tokens that close no bracket and are no names. -/
theorem free_of_not_operand {t : ExprTok} (h : Lexed exprRules text tokens)
    (hround : t ≠ .char ')') (hsquare : t ≠ .char ']') (hident : ∀ name, t ≠ .ident name) :
    exprGrammar.Free tokens t where
  paren u hu close hopen := by
    cases u with
    | char c => exact (punct_cases (isPunct_of_mem h hu)).1 close hopen ▸ hround.symm
    | _ => cases hopen
  subscript u hu p close f hopen := by
    cases u with
    | char c => exact (punct_cases (isPunct_of_mem h hu)).2.1 p close f hopen ▸ hsquare.symm
    | _ => cases hopen
  field u hu p f b hfield := by
    have hwith : ∃ g, f b = withIdent g := by
      cases u with
      | char c => exact (punct_cases (isPunct_of_mem h hu)).2.2 p f hfield b
      | arrow =>
        cases hfield
        exact ⟨_, rfl⟩
      | _ => cases hfield
    obtain ⟨g, hg⟩ := hwith
    rw [hg]
    cases t with
    | ident name => exact absurd rfl (hident name)
    | _ => rfl

/-- No word with a relational character is an operand. -/
theorem free_relWords (h : Lexed exprRules text tokens) : ∀ k ∈ relWords,
    exprGrammar.Free tokens k.2 ∧ ∀ e, exprGrammar.opening k.2 ≠ .atom e := by
  intro k hk
  simp only [relWords, List.mem_cons, List.not_mem_nil, or_false] at hk
  rcases hk with rfl | rfl | rfl | rfl | rfl | rfl | rfl | rfl | rfl | rfl <;>
    exact ⟨free_of_not_operand h (by decide) (by decide) nofun, nofun⟩

/-- There is no character in an expression that no token has. -/
theorem invalidChar_not_mem (h : cdbgAstParse text = some a) :
    ExprTok.invalidChar ∉ lex exprRules text := by
  intro hmem
  have hfree := free_of_not_operand (t := .invalidChar) (lexed_lex proper_exprRules text) nofun
    nofun nofun
  have hnone := parse_eq_none_of_mem hfree rfl rfl hmem
  exact Option.some_ne_none a (h.symm.trans hnone)

/-- An expression does not end with a relational character. -/
theorem getLast_plain (h : cdbgAstParse text = some a) (htext : text = p ++ [c]) : Plain c := by
  by_contra hrel
  have hlexed := lexed_lex proper_exprRules text
  obtain ⟨k, hk, hlast⟩ := getLast_relWords hlexed (invalidChar_not_mem h) htext
    (by simpa [Plain] using hrel)
  obtain ⟨ts, hts⟩ := List.getLast?_eq_some_iff.mp hlast
  obtain ⟨hfree, hatom⟩ := free_relWords hlexed k hk
  have hnone := parse_concat_eq_none
    (hfree.mono (hts ▸ List.subset_append_left ts [k.2])) hatom
  rw [← hts] at hnone
  exact Option.some_ne_none a (h.symm.trans hnone)

/-- An expression does not begin with an `=`. -/
theorem head_ne_eq (h : cdbgAstParse text = some a) : text.head? ≠ some '=' := by
  intro hhead
  have hvalid := invalidChar_not_mem h
  have hlexed := lexed_lex proper_exprRules text
  rw [cdbgAstParse] at h
  generalize lex exprRules text = tokens at hvalid hlexed h
  cases hlexed with
  | nil => cases hhead
  | @step w token rest tokens hne hmatch _ =>
    obtain ⟨c, v, rfl⟩ := List.exists_cons_of_ne_nil hne
    obtain rfl : c = '=' := Option.some.inj hhead
    rcases relWord_of_match hmatch with hplain | ⟨t, hmem, rfl⟩ | rfl
    · exact absurd (hplain '=' List.mem_cons_self) (by decide)
    · have hEq : ∀ k ∈ relWords, k.1.head? = some '=' → k.2 = .eq := by decide
      obtain rfl : t = .eq := hEq _ hmem rfl
      exact Option.some_ne_none a (h.symm.trans (parse_cons_eq_none rfl tokens))
    · exact hvalid (List.mem_append_left _ (by simp))

end Expressions

/-! ### The scan -/

section Scan

variable {before p q s rest l r b c : CStr}

/-- The scan passes over an `=` between these texts. -/
abbrev PassedOver (before rest : CStr) : Prop := Beside (· ∈ "<>!".toList) before rest

theorem splitAtEq_over (h : PassedOver before rest) :
    splitAtEq before ('=' :: rest) = splitAtEq (before ++ ['=']) rest := if_pos h

theorem splitAtEq_here (h : ¬PassedOver before rest) :
    splitAtEq before ('=' :: rest) = some (trimSpace before, trimSpace rest) := if_neg h

theorem splitAtEq_ne {c : Char} (h : c ≠ '=') :
    splitAtEq before (c :: rest) = splitAtEq (before ++ [c]) rest := by
  rw [splitAtEq]
  exact fun heq => h heq

/-- A text is passed over where every `=` in it is. -/
theorem splitAtEq_pass : ∀ {s before}, (∀ p q, s = p ++ '=' :: q →
    PassedOver (before ++ p) (q ++ rest)) →
      splitAtEq before (s ++ rest) = splitAtEq (before ++ s) rest := by
  intro s
  induction s with
  | nil =>
    intro before _
    rw [List.nil_append, List.append_nil]
  | cons c s ih =>
    intro before h
    have htail : splitAtEq (before ++ [c]) (s ++ rest) = splitAtEq (before ++ [c] ++ s) rest := by
      refine ih fun p q hs => ?_
      have hpass := h (c :: p) q (by rw [hs]; rfl)
      rwa [List.append_cons] at hpass
    rw [List.append_cons before c s, List.cons_append]
    by_cases hc : c = '='
    · subst hc
      have hpass := h [] s rfl
      rw [List.append_nil] at hpass
      rw [splitAtEq_over hpass, htail]
    · rw [splitAtEq_ne hc, htail]

/-- The scan stops at an `=` that is not passed over, or before it. -/
theorem splitAtEq_stop (hstop : ¬PassedOver (before ++ p) rest) :
    ∃ p' q', p' <+: p ∧
      splitAtEq before (p ++ '=' :: rest) = some (trimSpace (before ++ p'), q') := by
  induction p generalizing before with
  | nil =>
    rw [List.append_nil] at hstop
    refine ⟨[], trimSpace rest, List.prefix_rfl, ?_⟩
    rw [List.nil_append, splitAtEq_here hstop, List.append_nil]
  | cons d p ih =>
    rw [List.append_cons] at hstop
    obtain ⟨p', q', hp', hsplit⟩ := ih hstop
    rw [← List.append_cons] at hsplit
    have hcons : d :: p' <+: d :: p := List.cons_prefix_cons.mpr ⟨rfl, hp'⟩
    rw [List.cons_append]
    by_cases hd : d = '='
    · subst hd
      by_cases hpass : PassedOver before (p ++ '=' :: rest)
      · rw [splitAtEq_over hpass]
        exact ⟨_, q', hcons, hsplit⟩
      · rw [splitAtEq_here hpass]
        exact ⟨[], _, List.nil_prefix, by rw [List.append_nil]⟩
    · rw [splitAtEq_ne hd]
      exact ⟨_, q', hcons, hsplit⟩

/-- After an `==` there is an `=` behind another one and before none, or at the end. -/
theorem exists_last_eq : ∀ {q p : CStr}, ∃ p' q', p ++ '=' :: '=' :: q = p' ++ '=' :: q' ∧
    p'.getLast? = some '=' ∧ q'.head? ≠ some '=' := by
  intro q
  induction q with
  | nil =>
    intro p
    exact ⟨p ++ ['='], [], by simp, by simp, nofun⟩
  | cons c q ih =>
    intro p
    by_cases hc : c = '='
    · subst hc
      obtain ⟨p', q', heq, hlast, hhead⟩ := @ih (p ++ ['='])
      exact ⟨p', q', by rw [← heq, List.append_assoc]; rfl, hlast, hhead⟩
    · exact ⟨p ++ ['='], c :: q, by simp, by simp, by simpa using hc⟩

theorem length_trimSpace_le (s : CStr) : (trimSpace s).length ≤ s.length := by
  have hdrop : ∀ t : CStr, (t.dropWhile isspace).length ≤ t.length := fun t =>
    (List.dropWhile_suffix isspace).length_le
  rw [trimSpace, List.length_reverse]
  calc _ ≤ _ := hdrop _
    _ = _ := List.length_reverse
    _ ≤ _ := hdrop s

/-- A text is trimmed exactly if it has no white space at its ends. -/
theorem trimSpace_eq_self_iff : trimSpace s = s ↔
    (∀ c ∈ s.head?, isspace c = false) ∧ ∀ c ∈ s.getLast?, isspace c = false := by
  have hhead : s.dropWhile isspace = s ↔ ∀ c ∈ s.head?, isspace c = false := by
    cases s <;> simp [List.dropWhile_eq_self_iff]
  have hlast : s.rdropWhile isspace = s ↔ ∀ c ∈ s.getLast?, isspace c = false := by
    rw [List.rdropWhile_eq_self_iff]
    rcases List.eq_nil_or_concat' s with rfl | ⟨p, c, rfl⟩ <;> simp
  rw [← hhead, ← hlast]
  constructor
  · intro h
    -- both ends drop nothing, or the text would be shorter
    have hdrop : s.dropWhile isspace = s := by
      refine (List.dropWhile_suffix isspace).eq_of_length_le ?_
      have hlen : (trimSpace s).length ≤ (s.dropWhile isspace).length :=
        (List.rdropWhile_prefix isspace (s.dropWhile isspace)).length_le
      rwa [h] at hlen
    exact ⟨hdrop, by rwa [trimSpace, hdrop] at h⟩
  · rintro ⟨hdrop, hrdrop⟩
    rw [trimSpace, hdrop]
    exact hrdrop

/-- Where an `=` of the text is not passed over, what stands before the split is shorter. -/
theorem splitAtEq_shorter (hl : l = p ++ '=' :: q) (hstop : ¬PassedOver p (q ++ rest)) :
    ∃ x y, splitAtEq [] (l ++ rest) = some (x, y) ∧ x ≠ l := by
  obtain ⟨p', y, hp', h⟩ := @splitAtEq_stop [] p (q ++ rest) hstop
  rw [List.nil_append] at h
  refine ⟨trimSpace p', y, by rw [hl, List.append_assoc, List.cons_append, h], fun htrim => ?_⟩
  have hlen := congrArg List.length htrim
  have hle := length_trimSpace_le p'
  have hle' := List.IsPrefix.length_le hp'
  simp only [hl, List.length_append, List.length_cons] at hlen
  omega

end Scan

/-! ### The assignment -/

section Assignment

variable {l r b c p q : CStr} {target value : Ast}

/-- The text of an assignment is trimmed where its sides are. -/
theorem trimSpace_assignment (hlne : l ≠ []) (hrne : r ≠ []) (hltrim : trimSpace l = l)
    (hrtrim : trimSpace r = r) :
    trimSpace (l ++ (b ++ '=' :: (c ++ r))) = l ++ (b ++ '=' :: (c ++ r)) := by
  obtain ⟨d, l, rfl⟩ := List.exists_cons_of_ne_nil hlne
  obtain ⟨r, e, rfl⟩ := (List.eq_nil_or_concat' r).resolve_left hrne
  have hhead := (trimSpace_eq_self_iff.mp hltrim).1
  have hlast := (trimSpace_eq_self_iff.mp hrtrim).2
  have hsnoc : d :: l ++ (b ++ '=' :: (c ++ (r ++ [e]))) =
      d :: l ++ (b ++ '=' :: (c ++ r)) ++ [e] := by simp
  rw [List.getLast?_concat] at hlast
  rw [trimSpace_eq_self_iff, hsnoc, List.getLast?_concat]
  exact ⟨hhead, hlast⟩

/-- The `=` of the assignment is not passed over. -/
theorem not_passedOver (hl : cdbgAstParse l = some target) (hr : cdbgAstParse r = some value)
    (hb : Blank b) (hc : Blank c) : ¬PassedOver (l ++ b) (c ++ r) := by
  rintro (hlast | hhead)
  · obtain ⟨d, hd, hmem⟩ := (Option.any_eq_true _ _).mp hlast
    have hmem := of_decide_eq_true hmem
    rcases List.eq_nil_or_concat' b with rfl | ⟨b, e, rfl⟩
    · rw [List.append_nil] at hd
      obtain ⟨p, hp⟩ := List.getLast?_eq_some_iff.mp hd
      have hrel : ∀ d ∈ "<>!".toList, ¬Plain d := by decide
      exact hrel d hmem (getLast_plain hl hp)
    · rw [← List.append_assoc, List.getLast?_concat] at hd
      have hspace : ∀ d ∈ "<>!".toList, ¬isspace d = true := by decide
      exact hspace d hmem (Option.some.inj hd ▸ hb e (by simp))
  · cases c with
    | nil => exact head_ne_eq hr hhead
    | cons e c =>
      have heq : e = '=' := Option.some.inj hhead
      exact absurd (hc e List.mem_cons_self) (by rw [heq]; decide)

/-- Where the target has no `==`, every `=` in it is passed over. -/
theorem passedOver_of_no_eq (hl : cdbgAstParse l = some target) (hno : ¬"==".toList <:+: l)
    (heq : l = p ++ '=' :: q) : PassedOver p q := by
  have hbeside := eq_beside (lexed_lex proper_exprRules l) (invalidChar_not_mem hl) heq
  refine hbeside.imp_left fun hany => ?_
  obtain ⟨d, hd, hrel⟩ := (Option.any_eq_true _ _).mp hany
  obtain ⟨p, rfl⟩ := List.getLast?_eq_some_iff.mp hd
  have hne : d ≠ '=' := by
    rintro rfl
    exact hno ⟨p, q, by simp [heq]⟩
  rw [List.getLast?_concat]
  rcases isRelChar_iff.mp hrel with rfl | rfl | rfl | rfl
  · rfl
  · rfl
  · rfl
  · exact absurd rfl hne

/-- The last `=` of an `==` in the target is not passed over. -/
theorem exists_not_passedOver (hl : cdbgAstParse l = some target) (hfound : "==".toList <:+: l)
    (rest : CStr) : ∃ p q, l = p ++ '=' :: q ∧ ¬PassedOver p (q ++ rest) := by
  obtain ⟨p, q, hpq⟩ := hfound
  obtain ⟨p', q', heq, hlast, hhead⟩ := @exists_last_eq q p
  have hl' : l = p' ++ '=' :: q' := by
    rw [← hpq, ← heq]
    simp
  refine ⟨p', q', hl', ?_⟩
  rintro (hany | heq)
  · rw [hlast] at hany
    exact absurd hany (by decide)
  · cases q' with
    | nil => exact absurd (getLast_plain hl hl') (by decide)
    | cons d q' => exact hhead heq

/-- An assignment is split into its target and its value exactly if there is no `==` in the
target. -/
theorem splitAssignment_iff (hl : cdbgAstParse l = some target)
    (hr : cdbgAstParse r = some value) (hltrim : trimSpace l = l) (hrtrim : trimSpace r = r)
    (hb : Blank b) (hc : Blank c) :
    splitAssignment (l ++ (b ++ '=' :: (c ++ r))) = some (l, r) ↔ ¬"==".toList <:+: l := by
  have hlne : l ≠ [] := by
    rintro rfl
    cases hl
  have hrne : r ≠ [] := by
    rintro rfl
    cases hr
  rw [splitAssignment, trimSpace_assignment hlne hrne hltrim hrtrim]
  constructor
  · intro hsplit hfound
    obtain ⟨p, q, hpq, hstop⟩ := exists_not_passedOver hl hfound (b ++ '=' :: (c ++ r))
    obtain ⟨x, y, hxy, hx⟩ := splitAtEq_shorter hpq hstop
    rw [hxy] at hsplit
    obtain ⟨hsides, -⟩ := Option.filter_eq_some_iff.mp hsplit
    exact hx (Prod.mk.inj (Option.some.inj hsides)).1
  · intro hno
    have hblank : ∀ p q, b = p ++ '=' :: q → PassedOver (l ++ p) (q ++ '=' :: (c ++ r)) := by
      intro p q heq
      exact absurd (hb '=' (by simp [heq])) (by decide)
    have htarget : ∀ p q, l = p ++ '=' :: q →
        PassedOver ([] ++ p) (q ++ (b ++ '=' :: (c ++ r))) :=
      fun p q heq => (passedOver_of_no_eq hl hno heq).append_right
    rw [splitAtEq_pass htarget, List.nil_append, splitAtEq_pass hblank,
      splitAtEq_here (not_passedOver hl hr hb hc), trimSpace_append_right hb,
      trimSpace_append_left hc, hltrim, hrtrim]
    simp [hlne, hrne]

end Assignment

/-- `a[i<=3] = 5` -/
theorem splitAssignment_iff_le :
    splitAssignment "a[i<=3] = 5".toList = some ("a[i<=3]".toList, "5".toList) ↔
      ¬"==".toList <:+: "a[i<=3]".toList := by
  have htarget : cdbgAstParse "a[i<=3]".toList =
      some (.index (.ident "a".toList) (.binop .le (.ident "i".toList) (.num 3))) := by decide
  have hvalue : cdbgAstParse "5".toList = some (.num 5) := by decide
  have hb : Blank " ".toList := by simp [Blank, isspace]
  exact splitAssignment_iff htarget hvalue rfl rfl hb hb

/-- `a[i==3] = 5` is split within the index. -/
theorem split_in_index :
    cdbgAstParse "a[i==3]".toList =
        some (.index (.ident "a".toList) (.binop .eq (.ident "i".toList) (.num 3))) ∧
      cdbgAstParse "5".toList = some (.num 5) ∧
      splitAssignment "a[i==3] = 5".toList = some ("a[i=".toList, "3] = 5".toList) := by
  decide

end Debugger
