/-
Lexers with the longest match.

A rule is a pattern with an action.  The rule that matches the most characters is applied,
the first one of those that match equally many; a character that no rule matches is passed
over.

`Chunk rules sep w t` says that the text `w` is read as the token `t` where nothing follows
or the separator does; a text of such words, separated, is read word by word
(`lex_separated`).

`Lexed rules text tokens` cuts a text into what the rules match one after the other; every
text is cut so into its tokens (`lexed_lex`).
-/
import Mathlib.Data.List.Basic

namespace Prog

/-- A pattern: the length of the longest prefix of a text that it matches. -/
abbrev Pattern := List Char → Option ℕ

namespace Pattern

/-- One character of a class. -/
def one (p : Char → Bool) : Pattern
  | [] => none
  | c :: _ => if p c then some 1 else none

/-- Any number of characters of a class. -/
def many (p : Char → Bool) : Pattern := fun text => some (text.takeWhile p).length

/-- A pattern and then another one. The first one has to be such that no shorter match of it
lets the second match more. -/
def seq (a b : Pattern) : Pattern := fun text =>
  match a text with
  | none => none
  | some n => (b (text.drop n)).map (n + ·)

/-- One or more characters of a class. -/
def many1 (p : Char → Bool) : Pattern := seq (one p) (many p)

/-- A pattern or nothing. -/
def opt (a : Pattern) : Pattern := fun text => some ((a text).getD 0)

/-- A fixed text. -/
def lit (w : List Char) : Pattern := fun text =>
  if w.isPrefixOf text then some w.length else none

section Pattern

variable {p : Char → Bool} {c : Char} {w rest text : List Char}

theorem takeWhile_append_of (hw : ∀ d ∈ w, p d = true) (hrest : ∀ d ∈ rest.head?, p d = false) :
    (w ++ rest).takeWhile p = w := by
  induction w with
  | nil =>
    cases rest with
    | nil => rfl
    | cons d rest => simp [hrest d rfl]
  | cons d w ih =>
    rw [List.cons_append, List.takeWhile_cons, if_pos (hw d (by simp)),
      ih fun d' hd' => hw d' (by simp [hd'])]

theorem many_append (hw : ∀ d ∈ w, p d = true) (hrest : ∀ d ∈ rest.head?, p d = false) :
    many p (w ++ rest) = some w.length := by
  rw [many, takeWhile_append_of hw hrest]

theorem many1_append (hne : w ≠ []) (hw : ∀ d ∈ w, p d = true)
    (hrest : ∀ d ∈ rest.head?, p d = false) : many1 p (w ++ rest) = some w.length := by
  cases w with
  | nil => exact absurd rfl hne
  | cons d w =>
    have htail := many_append (fun d' hd' => hw d' (List.mem_cons_of_mem d hd')) hrest
    rw [many1, seq, List.cons_append, one, if_pos (hw d (by simp))]
    show (many p (w ++ rest)).map (1 + ·) = _
    rw [htail]
    simp [Nat.add_comm]

theorem one_eq_none (h : p c = false) : one p (c :: text) = none := by
  rw [one, if_neg (by simp [h])]

theorem seq_eq_none {a b : Pattern} (h : a text = none) : seq a b text = none := by
  rw [seq, h]

theorem many1_eq_none (h : p c = false) : many1 p (c :: text) = none :=
  seq_eq_none (one_eq_none h)

/-- After a first part that ends where the second one cannot start there is no match. -/
theorem seq_append_eq_none {a b : Pattern} (ha : a (w ++ rest) = some w.length)
    (hb : b rest = none) : seq a b (w ++ rest) = none := by
  rw [seq, ha]
  dsimp only
  rw [List.drop_left, hb]
  rfl

theorem lit_eq_none {d : Char} (h : d ≠ c) : lit (d :: w) (c :: text) = none := by
  simp [lit, h]

/-- What the pattern matches lies in the text and has the property. -/
def Matches (a : Pattern) (C : List Char → Prop) : Prop :=
  ∀ text n, a text = some n → n ≤ text.length ∧ C (text.take n)

theorem Matches.mono {a : Pattern} {C D : List Char → Prop} (h : a.Matches C)
    (hCD : ∀ w, C w → D w) : a.Matches D :=
  fun text n ha => ⟨(h text n ha).1, hCD _ (h text n ha).2⟩

theorem matches_one : (one p).Matches fun w => ∃ c, w = [c] ∧ p c = true := by
  intro text n h
  cases text with
  | nil => cases h
  | cons c text =>
    rw [one] at h
    split at h
    · rename_i hc
      cases h
      exact ⟨by simp, c, rfl, hc⟩
    · cases h

theorem matches_many : (many p).Matches fun w => ∀ c ∈ w, p c = true := by
  intro text n h
  cases h
  have hinit : text.takeWhile p <+: text := List.takeWhile_prefix p
  refine ⟨hinit.length_le, ?_⟩
  rw [← List.prefix_iff_eq_take.mp hinit]
  exact List.all_eq_true.mp List.all_takeWhile

theorem matches_seq {a b : Pattern} {C D : List Char → Prop} (ha : a.Matches C)
    (hb : b.Matches D) : (seq a b).Matches fun w => ∃ u v, w = u ++ v ∧ C u ∧ D v := by
  intro text n h
  rw [seq] at h
  cases hn : a text with
  | none => simp [hn] at h
  | some k =>
    rw [hn] at h
    obtain ⟨m, hm, rfl⟩ := Option.map_eq_some_iff.mp h
    obtain ⟨hk, hC⟩ := ha text k hn
    obtain ⟨hm', hD⟩ := hb _ m hm
    rw [List.length_drop] at hm'
    exact ⟨by omega, _, _, List.take_add, hC, hD⟩

theorem matches_opt {a : Pattern} {C : List Char → Prop} (ha : a.Matches C) :
    (opt a).Matches fun w => w = [] ∨ C w := by
  intro text n h
  cases h
  cases hn : a text with
  | none => exact ⟨Nat.zero_le _, .inl rfl⟩
  | some k => exact ⟨(ha text k hn).1, .inr (ha text k hn).2⟩

theorem matches_lit : (lit w).Matches (· = w) := by
  intro text n h
  rw [lit] at h
  split at h
  · rename_i hw
    cases h
    have hw := List.isPrefixOf_iff_prefix.mp hw
    exact ⟨hw.length_le, (List.prefix_iff_eq_take.mp hw).symm⟩
  · cases h

/-- What one character or more match is not empty and of the class. -/
theorem matches_many1 : (many1 p).Matches fun w => w ≠ [] ∧ ∀ c ∈ w, p c = true := by
  refine (matches_seq matches_one matches_many).mono ?_
  rintro w ⟨u, v, rfl, ⟨c, rfl, hc⟩, hv⟩
  exact ⟨by simp, List.forall_mem_cons.mpr ⟨hc, hv⟩⟩

theorem nonempty_one : (one p).Matches (· ≠ []) := by
  refine matches_one.mono ?_
  rintro w ⟨c, rfl, -⟩
  simp

theorem nonempty_many1 : (many1 p).Matches (· ≠ []) := matches_many1.mono fun _ h => h.1

theorem nonempty_lit (hne : w ≠ []) : (lit w).Matches (· ≠ []) :=
  matches_lit.mono fun _ h => h ▸ hne

theorem nonempty_seq_left {a b : Pattern} {C : List Char → Prop} (ha : a.Matches (· ≠ []))
    (hb : b.Matches C) : (seq a b).Matches (· ≠ []) := by
  refine (matches_seq ha hb).mono ?_
  rintro w ⟨u, v, rfl, hu, -⟩
  exact List.append_ne_nil_of_left_ne_nil hu v

theorem nonempty_seq_right {a b : Pattern} {C : List Char → Prop} (ha : a.Matches C)
    (hb : b.Matches (· ≠ [])) : (seq a b).Matches (· ≠ []) := by
  refine (matches_seq ha hb).mono ?_
  rintro w ⟨u, v, rfl, -, hv⟩
  exact List.append_ne_nil_of_right_ne_nil u hv

/-- All characters that the pattern matches are in the class. -/
def Over (C : Char → Prop) (a : Pattern) : Prop := a.Matches fun w => ∀ c ∈ w, C c

section Over

variable {a b : Pattern} {C : Char → Prop}

theorem over_one (h : ∀ c, p c = true → C c) : Over C (one p) := by
  refine matches_one.mono ?_
  rintro w ⟨c, rfl, hc⟩
  simpa using h c hc

theorem over_many (h : ∀ c, p c = true → C c) : Over C (many p) :=
  matches_many.mono fun _ hw c hc => h c (hw c hc)

theorem over_seq (ha : Over C a) (hb : Over C b) : Over C (seq a b) := by
  refine (matches_seq ha hb).mono ?_
  rintro w ⟨u, v, rfl, hu, hv⟩ c hc
  exact (List.mem_append.mp hc).elim (hu c) (hv c)

theorem over_many1 (h : ∀ c, p c = true → C c) : Over C (many1 p) :=
  over_seq (over_one h) (over_many h)

theorem over_opt (ha : Over C a) : Over C (opt a) := by
  refine (matches_opt ha).mono ?_
  rintro w (rfl | hw)
  · simp
  · exact hw

end Over

end Pattern

end Pattern

/-- A rule: the token its action returns, none where it only skips the text. -/
structure LexRule (T : Type) where
  pattern : Pattern
  action : List Char → Option T

variable {T : Type}

/-- The rule to be applied and how many characters it matches. -/
def longest : List (LexRule T) → List Char → Option (ℕ × LexRule T)
  | [], _ => none
  | r :: rules, text =>
    match r.pattern text, longest rules text with
    | none, best => best
    | some n, none => some (n, r)
    | some n, some (m, r') => if m ≤ n then some (n, r) else some (m, r')

/-- The token at the start of a text, if the text there is one, and what is left. -/
def next (rules : List (LexRule T)) (text : List Char) : Option T × List Char :=
  match longest rules text with
  | some (n, r) => (r.action (text.take n), text.drop n)
  | none => (none, text.drop 1)

/-- The tokens of a text; `fuel` bounds the number of matches. -/
def lexFuel (rules : List (LexRule T)) : ℕ → List Char → List T
  | 0, _ => []
  | _ + 1, [] => []
  | fuel + 1, c :: text =>
    let (token, rest) := next rules (c :: text)
    token.toList ++ lexFuel rules fuel rest

/-- The tokens of a text. -/
def lex (rules : List (LexRule T)) (text : List Char) : List T :=
  lexFuel rules text.length text

/-- The words with a separator between them. -/
def separated (sep : List Char) : List (List Char) → List Char
  | [] => []
  | [w] => w
  | w :: ws => w ++ (sep ++ separated sep ws)

section Lex

variable {rules earlier later : List (LexRule T)} {r : LexRule T} {text sep : List Char} {n : ℕ}

/-- The rules do not match more than `n` characters. -/
def AtMost (rules : List (LexRule T)) (text : List Char) (n : ℕ) : Prop :=
  ∀ r ∈ rules, ∀ m, r.pattern text = some m → m ≤ n

theorem longest_le (h : AtMost rules text n) :
    ∀ m r, longest rules text = some (m, r) → m ≤ n := by
  induction rules with
  | nil =>
    intro m r hr
    simp [longest] at hr
  | cons r₀ rules ih =>
    intro m r hr
    have ih := ih fun r hr => h r (List.mem_cons_of_mem r₀ hr)
    rw [longest] at hr
    split at hr
    · exact ih m r hr
    · rename_i n₀ hn₀ _
      simp only [Option.some.injEq, Prod.mk.injEq] at hr
      exact hr.1 ▸ h r₀ (by simp) n₀ hn₀
    · rename_i n₀ m₀ r' hn₀ hm₀
      split at hr <;> simp only [Option.some.injEq, Prod.mk.injEq] at hr
      · exact hr.1 ▸ h r₀ (by simp) n₀ hn₀
      · exact hr.1 ▸ ih m₀ r' hm₀

/-- A rule is applied where the earlier ones match less and the later ones no more. -/
theorem longest_eq (hr : r.pattern text = some (n + 1)) (hlater : AtMost later text (n + 1))
    (hearlier : AtMost earlier text n) :
    longest (earlier ++ r :: later) text = some (n + 1, r) := by
  induction earlier with
  | nil =>
    rw [List.nil_append, longest, hr]
    cases hl : longest later text with
    | none => rfl
    | some best =>
      have hle := longest_le hlater best.1 best.2 hl
      simp [hle]
  | cons r₀ earlier ih =>
    have ih := ih fun r hr => hearlier r (List.mem_cons_of_mem r₀ hr)
    rw [List.cons_append, longest, ih]
    cases h₀ : r₀.pattern text with
    | none => rfl
    | some m =>
      have hle := hearlier r₀ (by simp) m h₀
      have hlt : ¬ n + 1 ≤ m := by omega
      simp [hlt]

/-- The match at the start of a text, from the place of the rule to be applied. -/
theorem next_eq {i : ℕ} (hi : rules[i]? = some r) (hr : r.pattern text = some (n + 1))
    (hlater : AtMost (rules.drop (i + 1)) text (n + 1)) (hearlier : AtMost (rules.take i) text n) :
    next rules text = (r.action (text.take (n + 1)), text.drop (n + 1)) := by
  obtain ⟨hlt, hget⟩ := List.getElem?_eq_some_iff.mp hi
  have hsplit : rules = rules.take i ++ r :: rules.drop (i + 1) := by
    rw [← hget, ← List.drop_eq_getElem_cons hlt, List.take_append_drop]
  have hlongest := longest_eq hr hlater hearlier
  rw [← hsplit] at hlongest
  rw [next, hlongest]

/-- Rules that do not match match at most anything. -/
theorem atMost_of_none (h : ∀ r ∈ rules, r.pattern text = none) : AtMost rules text n := by
  intro r hr m hm
  rw [h r hr] at hm
  simp at hm

/-- What follows a word: nothing, or the separator. -/
def EndsWord (sep rest : List Char) : Prop := rest = [] ∨ sep <+: rest

/-- The text is read as the token, before the end or a separator, and after one. -/
structure Chunk (rules : List (LexRule T)) (sep w : List Char) (t : T) : Prop where
  ne : w ≠ []
  next : ∀ rest, EndsWord sep rest → next rules (w ++ rest) = (some t, rest)
  skip : ∀ rest, Prog.next rules (sep ++ (w ++ rest)) = (none, w ++ rest)

theorem lexFuel_next {fuel : ℕ} {token : Option T} {w rest : List Char} (hne : w ≠ [])
    (h : next rules (w ++ rest) = (token, rest)) :
    lexFuel rules (fuel + 1) (w ++ rest) = token.toList ++ lexFuel rules fuel rest := by
  cases w with
  | nil => exact absurd rfl hne
  | cons c w =>
    rw [List.cons_append, lexFuel, ← List.cons_append, h]

/-- Separated words are read one after the other. -/
theorem lexFuel_separated (hsep : sep ≠ []) {word : T → List Char} :
    ∀ {tokens : List T} {fuel : ℕ}, (∀ t ∈ tokens, Chunk rules sep (word t) t) →
      (separated sep (tokens.map word)).length ≤ fuel →
      lexFuel rules fuel (separated sep (tokens.map word)) = tokens := by
  intro tokens
  induction tokens with
  | nil =>
    intro fuel _ _
    cases fuel <;> rfl
  | cons t tokens ih =>
    intro fuel hchunks hfuel
    have ht := hchunks t (by simp)
    have htail : ∀ t' ∈ tokens, Chunk rules sep (word t') t' :=
      fun t' ht' => hchunks t' (List.mem_cons_of_mem t ht')
    have hpos : 0 < (word t).length := List.length_pos_of_ne_nil ht.ne
    cases tokens with
    | nil =>
      obtain ⟨fuel, rfl⟩ : ∃ k, fuel = k + 1 := ⟨fuel - 1, by simp [separated] at hfuel; omega⟩
      show lexFuel rules (fuel + 1) (word t) = [t]
      have hread := @lexFuel_next _ _ fuel _ _ _ ht.ne (ht.next [] (.inl rfl))
      rw [List.append_nil] at hread
      rw [hread]
      cases fuel <;> rfl
    | cons t' tokens =>
      have ht' := htail t' (by simp)
      have hsplit : separated sep ((t :: t' :: tokens).map word) =
          word t ++ (sep ++ separated sep ((t' :: tokens).map word)) := rfl
      have hseppos : 0 < sep.length := List.length_pos_of_ne_nil hsep
      rw [hsplit] at hfuel ⊢
      simp only [List.length_append] at hfuel
      obtain ⟨fuel, rfl⟩ : ∃ k, fuel = k + 1 + 1 := ⟨fuel - 2, by omega⟩
      rw [lexFuel_next ht.ne (ht.next _ (.inr (List.prefix_append _ _)))]
      -- the separator is skipped before the next word
      have hword : ∃ rest, separated sep ((t' :: tokens).map word) = word t' ++ rest := by
        cases tokens with
        | nil => exact ⟨[], (List.append_nil _).symm⟩
        | cons t'' tokens => exact ⟨_, rfl⟩
      have hskip : next rules (sep ++ separated sep ((t' :: tokens).map word)) =
          (none, separated sep ((t' :: tokens).map word)) := by
        obtain ⟨rest, hrest⟩ := hword
        rw [hrest]
        exact ht'.skip rest
      rw [lexFuel_next hsep hskip, ih htail (by omega)]
      rfl

/-- A text of separated words is read as their tokens. -/
theorem lex_separated (hsep : sep ≠ []) {word : T → List Char} {tokens : List T}
    (h : ∀ t ∈ tokens, Chunk rules sep (word t) t) :
    lex rules (separated sep (tokens.map word)) = tokens :=
  lexFuel_separated hsep h (Nat.le_refl _)

/-! ### The cuts of a text -/

/-- The match at the start of `w ++ rest` is `w`: of a rule, or a character passed over. -/
inductive Match (rules : List (LexRule T)) : List Char → Option T → List Char → Prop
  | rule {r w rest} (hr : r ∈ rules) (h : r.pattern (w ++ rest) = some w.length) :
      Match rules w (r.action w) rest
  | skip {c rest} (h : ∀ r ∈ rules, r.pattern (c :: rest) = none) : Match rules [c] none rest

/-- The text is cut into what the rules match, and these are its tokens. -/
inductive Lexed (rules : List (LexRule T)) : List Char → List T → Prop
  | nil : Lexed rules [] []
  | step {w token rest tokens} (hne : w ≠ []) (hmatch : Match rules w token rest)
      (h : Lexed rules rest tokens) : Lexed rules (w ++ rest) (token.toList ++ tokens)

/-- In the empty text there are no tokens. -/
theorem Lexed.eq_nil {tokens : List T} (h : Lexed rules text tokens) (htext : text = []) :
    tokens = [] := by
  cases h with
  | nil => rfl
  | step hne _ _ => exact absurd (List.append_eq_nil_iff.mp htext).1 hne

theorem longest_mem : ∀ {rules : List (LexRule T)} {m : ℕ} {r : LexRule T},
    longest rules text = some (m, r) → r ∈ rules ∧ r.pattern text = some m := by
  intro rules
  induction rules with
  | nil =>
    intro m r h
    cases h
  | cons r₀ rules ih =>
    intro m r h
    rw [longest] at h
    split at h
    · exact ⟨List.mem_cons_of_mem _ (ih h).1, (ih h).2⟩
    · rename_i n₀ hn₀ _
      cases h
      exact ⟨List.mem_cons_self, hn₀⟩
    · rename_i n₀ m₀ r' hn₀ hm₀
      split at h <;> cases h
      · exact ⟨List.mem_cons_self, hn₀⟩
      · exact ⟨List.mem_cons_of_mem _ (ih hm₀).1, (ih hm₀).2⟩

theorem longest_eq_none : ∀ {rules : List (LexRule T)}, longest rules text = none →
    ∀ r ∈ rules, r.pattern text = none := by
  intro rules
  induction rules with
  | nil =>
    intro _ r hr
    cases hr
  | cons r₀ rules ih =>
    intro h
    rw [longest] at h
    split at h
    · rename_i h₀
      exact List.forall_mem_cons.mpr ⟨h₀, ih h⟩
    · cases h
    · split at h <;> cases h

/-- The rules match a part of the text that is not empty. -/
def Proper (rules : List (LexRule T)) : Prop :=
  ∀ r ∈ rules, r.pattern.Matches (· ≠ [])

/-- The next token is that of a match at the start of the text. -/
theorem next_match (hrules : Proper rules) {c : Char} {text : List Char} :
    ∃ w rest, c :: text = w ++ rest ∧ w ≠ [] ∧ (next rules (c :: text)).2 = rest ∧
      Match rules w (next rules (c :: text)).1 rest := by
  rw [next]
  cases hl : longest rules (c :: text) with
  | none => exact ⟨[c], text, rfl, by simp, rfl, .skip (longest_eq_none hl)⟩
  | some best =>
    obtain ⟨m, r⟩ := best
    obtain ⟨hr, hm⟩ := longest_mem hl
    obtain ⟨hle, hne⟩ := hrules r hr _ m hm
    refine ⟨_, _, (List.take_append_drop m _).symm, hne, rfl, .rule hr ?_⟩
    rw [List.take_append_drop, hm, List.length_take, Nat.min_eq_left hle]

theorem lexed_lexFuel (hrules : Proper rules) : ∀ {fuel : ℕ} {text : List Char},
    text.length ≤ fuel → Lexed rules text (lexFuel rules fuel text) := by
  intro fuel
  induction fuel with
  | zero =>
    intro text h
    rw [List.length_eq_zero_iff.mp (Nat.le_zero.mp h)]
    exact .nil
  | succ fuel ih =>
    intro text h
    cases text with
    | nil => exact .nil
    | cons c text =>
      obtain ⟨w, rest, heq, hne, hrest, hmatch⟩ := @next_match _ _ hrules c text
      have hlen : rest.length ≤ fuel := by
        have hpos := List.length_pos_of_ne_nil hne
        have hsum := congrArg List.length heq
        simp only [List.length_append, List.length_cons] at hsum h
        omega
      rw [lexFuel]
      dsimp only
      rw [hrest]
      nth_rewrite 1 [heq]
      exact .step hne hmatch (ih hlen)

/-- Every text is cut into its tokens. -/
theorem lexed_lex (hrules : Proper rules) (text : List Char) :
    Lexed rules text (lex rules text) := lexed_lexFuel hrules (Nat.le_refl _)

end Lex

end Prog
