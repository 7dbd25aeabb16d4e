/-
Parsing of expressions with declared precedences.

A shift-reduce parser of an expression grammar keeps, to the left of the operand it is at,
the rules it is in the middle of.  A conflict between reducing such a rule and shifting the
next token goes to the one with the higher precedence, and between equals to the reduction
where the level is declared left associative.

`Reads n e ts` says that the tokens `ts` write the expression `e` at level `n`, with any
parentheses more than the necessary ones.  The parser reads back what is written
(`parse_of_reads`): an operand leaves rules of its own level on the stack at most
(`Reads.runFrom`), and those the next token reduces.

A token that closes no bracket and is no field (`Free`) is an operand or an operator: it does
not end an expression unless it is an operand (`parse_concat_eq_none`), and there is no place
for one that is neither (`parse_eq_none_of_mem`).
-/
import Mathlib.Data.List.Basic

namespace Prog

/-- What a token is where an operand has to stand. -/
inductive Opening (T E : Type)
  | atom (e : E)
  | unary (f : E → E)
  | paren (close : T)
  | bad

/-- What a token is after an operand, with its precedence. -/
inductive Following (T E : Type)
  | binary (p : ℕ) (f : E → E → E)
  | field (p : ℕ) (f : E → T → Option E)
  | subscript (p : ℕ) (close : T) (f : E → E → E)
  | other

/-- An expression grammar: the tokens and the declared precedences. -/
structure OpGrammar (T E : Type) where
  opening : T → Opening T E
  following : T → Following T E
  /-- the precedence of the rules of unary operators -/
  unaryPrec : ℕ
  /-- the level is declared left associative -/
  left : ℕ → Bool

/-- A rule the parser is in the middle of. -/
inductive Pending (T E : Type)
  /-- the rule lacks its last operand -/
  | operand (prec : ℕ) (f : E → E)
  /-- the rule lacks the token of a field -/
  | field (f : T → Option E)
  /-- the rule lacks an expression and the closing bracket -/
  | bracket (close : T) (f : E → E)

variable {T E : Type}

namespace OpGrammar

/-- With the precedence `p` of the next token a rule of precedence `q` is reduced. -/
def reduces (g : OpGrammar T E) (p q : ℕ) : Bool := p < q || (p = q && g.left p)

/-- The reductions before a token of precedence `p` is shifted. -/
def reduceFor (g : OpGrammar T E) (p : ℕ) : List (Pending T E) → E → List (Pending T E) × E
  | .operand q f :: stack, e =>
    if g.reduces p q then g.reduceFor p stack (f e) else (.operand q f :: stack, e)
  | stack, e => (stack, e)

/-- The reductions before a token without a precedence, or the end. -/
def reduceAll : List (Pending T E) → E → List (Pending T E) × E
  | .operand _ f :: stack, e => reduceAll stack (f e)
  | stack, e => (stack, e)

/-- The next token, where an operand has to stand. -/
def shiftOpening (g : OpGrammar T E) (t : T) :
    List (Pending T E) → Option (List (Pending T E) × Option E)
  | .field f :: stack => (f t).map fun e => (stack, some e)
  | stack =>
    match g.opening t with
    | .atom e => some (stack, some e)
    | .unary f => some (.operand g.unaryPrec f :: stack, none)
    | .paren close => some (.bracket close id :: stack, none)
    | .bad => none

/-- The next token, after an operand. -/
def shiftFollowing [DecidableEq T] (g : OpGrammar T E) (t : T) (stack : List (Pending T E))
    (e : E) : Option (List (Pending T E) × Option E) :=
  match g.following t with
  | .binary p f =>
    let (stack, e) := g.reduceFor p stack e
    some (.operand p (f e) :: stack, none)
  | .field p f =>
    let (stack, e) := g.reduceFor p stack e
    some (.field (f e) :: stack, none)
  | .subscript p close f =>
    let (stack, e) := g.reduceFor p stack e
    some (.bracket close (f e) :: stack, none)
  | .other =>
    match reduceAll stack e with
    | (.bracket close f :: stack, e) => if t = close then some (stack, some (f e)) else none
    | _ => none

/-- The parser in front of the tokens, after the operand or where one has to stand. -/
def runFrom [DecidableEq T] (g : OpGrammar T E) :
    List T → List (Pending T E) → Option E → Option E
  | [], _, none => none
  | [], stack, some e =>
    match reduceAll stack e with
    | ([], e) => some e
    | _ => none
  | t :: ts, stack, none =>
    match g.shiftOpening t stack with
    | some (stack, operand) => g.runFrom ts stack operand
    | none => none
  | t :: ts, stack, some e =>
    match g.shiftFollowing t stack e with
    | some (stack, operand) => g.runFrom ts stack operand
    | none => none

/-- The parser: `none` on a syntax error. -/
def parse [DecidableEq T] (g : OpGrammar T E) (tokens : List T) : Option E :=
  g.runFrom tokens [] none

/-- The tokens write the expression at a level: the operator of an operand binds at least as
tightly as the level says, or the operand stands in parentheses. -/
inductive Reads (g : OpGrammar T E) : ℕ → E → List T → Prop
  | atom {n t e} (ht : g.opening t = .atom e) : Reads g n e [t]
  | unary {n t f e ts} (ht : g.opening t = .unary f) (hn : n ≤ g.unaryPrec)
      (h : Reads g g.unaryPrec e ts) : Reads g n (f e) (t :: ts)
  | paren {n t close e ts} (ht : g.opening t = .paren close)
      (hclose : g.following close = .other) (h : Reads g 0 e ts) :
      Reads g n e (t :: (ts ++ [close]))
  | binary {n p t f l r ts us} (ht : g.following t = .binary p f) (hp : g.left p = true)
      (hn : n ≤ p) (hl : Reads g p l ts) (hr : Reads g (p + 1) r us) :
      Reads g n (f l r) (ts ++ t :: us)
  | field {n p t f u b e ts} (ht : g.following t = .field p f) (hp : g.left p = true)
      (hn : n ≤ p) (hb : Reads g p b ts) (hu : f b u = some e) :
      Reads g n e (ts ++ [t, u])
  | subscript {n p t close f b i ts us} (ht : g.following t = .subscript p close f)
      (hp : g.left p = true) (hclose : g.following close = .other) (hn : n ≤ p)
      (hb : Reads g p b ts) (hi : Reads g 0 i us) :
      Reads g n (f b i) (ts ++ t :: (us ++ [close]))

/-! ### Reductions -/

section Reduce

variable {g : OpGrammar T E} {n p q : ℕ} {e : E} {f : E → E} {stack : List (Pending T E)}

theorem reduces_of_le (hp : g.left p = true) (h : p ≤ q) : g.reduces p q = true := by
  rcases Nat.lt_or_eq_of_le h with hlt | rfl <;> simp [reduces, *]

/-- A rule is not reduced for a left associative token of the level or above. -/
def Keeps (g : OpGrammar T E) (n q : ℕ) : Prop :=
  ∀ p, n ≤ p → g.left p = true → q < p

/-- An operand of level `n` can be read on the stack: no token of its level reduces what is
on top of it. -/
def Holds (g : OpGrammar T E) (n : ℕ) : List (Pending T E) → Prop
  | .operand q _ :: _ => g.Keeps n q
  | .field _ :: _ => False
  | _ => True

theorem Holds.mono {m : ℕ} (h : g.Holds n stack) (hnm : n ≤ m) : g.Holds m stack := by
  match stack with
  | .operand q _ :: _ => exact fun p hp => h p (Nat.le_trans hnm hp)
  | .field _ :: _ => exact h.elim
  | .bracket _ _ :: _ | [] => trivial

/-- The rules an operand leaves on the stack, innermost first, with their precedences. -/
abbrev Rest (E : Type) := List (ℕ × (E → E))

/-- What the rules make of an expression. -/
def close (rest : Rest E) (e : E) : E := rest.foldl (fun e r => r.2 e) e

/-- The rules on the stack. -/
def pending (T : Type) (rest : Rest E) : List (Pending T E) :=
  rest.map fun r => .operand r.1 r.2

theorem reduceFor_stop (hp : g.left p = true) (hn : n ≤ p) (h : g.Holds n stack) :
    g.reduceFor p stack e = (stack, e) := by
  match stack with
  | .operand q f :: _ =>
    have hq : q < p := h p hn hp
    have hne : g.reduces p q = false := by
      simp only [reduces, Bool.or_eq_false_iff, decide_eq_false_iff_not, Bool.and_eq_false_iff]
      omega
    simp [reduceFor, hne]
  | .field _ :: _ => exact h.elim
  | .bracket _ _ :: _ | [] => rfl

/-- A token reduces the rules of its level and above. -/
theorem reduceFor_append (hp : g.left p = true) (hstack : g.Holds p stack) :
    ∀ {rest : Rest E} {e : E}, (∀ r ∈ rest, p ≤ r.1) →
      g.reduceFor p (pending T rest ++ stack) e = (stack, close rest e) := by
  intro rest
  induction rest with
  | nil =>
    intro e _
    exact reduceFor_stop hp (Nat.le_refl p) hstack
  | cons r rest ih =>
    intro e hrest
    have hr : g.reduces p r.1 = true := reduces_of_le hp (hrest r (by simp))
    have htail : ∀ r' ∈ rest, p ≤ r'.1 := fun r' hr' => hrest r' (by simp [hr'])
    show g.reduceFor p (.operand r.1 r.2 :: (pending T rest ++ stack)) e = _
    rw [reduceFor, if_pos hr, ih htail]
    rfl

/-- A closing bracket and the end reduce all rules. -/
theorem reduceAll_append (hstack : ∀ e : E, reduceAll stack e = (stack, e)) :
    ∀ {rest : Rest E} {e : E},
      reduceAll (pending T rest ++ stack) e = (stack, close rest e) := by
  intro rest
  induction rest with
  | nil =>
    intro e
    exact hstack e
  | cons r rest ih =>
    intro e
    show reduceAll (.operand r.1 r.2 :: (pending T rest ++ stack)) e = _
    rw [reduceAll, ih]
    rfl

/-- A token that starts an operand is shifted unless a field is due. -/
theorem shiftOpening_eq (h : g.Holds n stack) (t : T) :
    g.shiftOpening t stack =
      match g.opening t with
      | .atom e => some (stack, some e)
      | .unary f => some (.operand g.unaryPrec f :: stack, none)
      | .paren close => some (.bracket close id :: stack, none)
      | .bad => none := by
  match stack with
  | .field _ :: _ => exact h.elim
  | .operand _ _ :: _ | .bracket _ _ :: _ | [] => rfl

end Reduce

/-! ### The parser reads what is written -/

section Reads

variable [DecidableEq T] {g : OpGrammar T E}

/-- The closing bracket ends what stands in the brackets. -/
theorem runFrom_close {close : T} {f : E → E} {stack : List (Pending T E)} {rest : Rest E}
    {ts : List T} {c : E} (hclose : g.following close = .other) :
    g.runFrom (close :: ts) (pending T rest ++ .bracket close f :: stack) (some c) =
      g.runFrom ts stack (some (f (OpGrammar.close rest c))) := by
  have hall : OpGrammar.reduceAll (pending T rest ++ .bracket close f :: stack) c =
      (.bracket close f :: stack, OpGrammar.close rest c) := reduceAll_append fun _ => rfl
  rw [runFrom, shiftFollowing, hclose]
  dsimp only
  rw [hall]
  simp

/-- An operand leaves rules of its own level on the stack; they make the expression of it. -/
theorem Reads.runFrom (hunary : g.left g.unaryPrec = false) {n : ℕ} {e : E} {ts : List T}
    (h : g.Reads n e ts) : ∀ {stack : List (Pending T E)} {us : List T}, g.Holds n stack →
      ∃ rest c, g.runFrom (ts ++ us) stack none =
          g.runFrom us (pending T rest ++ stack) (some c) ∧
        (∀ r ∈ rest, n ≤ r.1) ∧ close rest c = e := by
  induction h with
  | @atom n t e ht =>
    intro stack us hstack
    refine ⟨[], e, ?_, by simp, rfl⟩
    show g.runFrom (t :: us) stack none = _
    rw [OpGrammar.runFrom, shiftOpening_eq hstack, ht]
    rfl
  | @unary n t f e ts ht hn h ih =>
    intro stack us hstack
    -- operators of the unary level are right associative: the rule waits for its operand
    have hholds : g.Holds g.unaryPrec (.operand g.unaryPrec f :: stack) := by
      intro p hp hleft
      have hne : p ≠ g.unaryPrec := by
        rintro rfl
        exact Bool.noConfusion (hleft.symm.trans hunary)
      omega
    obtain ⟨rest, c, hrun, hrest, rfl⟩ := @ih _ us hholds
    refine ⟨rest ++ [(g.unaryPrec, f)], c, ?_, ?_, ?_⟩
    · show g.runFrom (t :: (ts ++ us)) stack none = _
      rw [OpGrammar.runFrom, shiftOpening_eq hstack, ht]
      simpa [pending] using hrun
    · intro r hr
      rcases List.mem_append.mp hr with hr | hr
      · exact Nat.le_trans hn (hrest r hr)
      · rw [List.mem_singleton.mp hr]
        exact hn
    · simp [close]
  | @paren n t close e ts ht hclose h ih =>
    intro stack us hstack
    obtain ⟨rest, c, hrun, -, rfl⟩ :=
      @ih (.bracket close id :: stack) (close :: us) trivial
    refine ⟨[], OpGrammar.close rest c, ?_, by simp, rfl⟩
    have hts : t :: (ts ++ [close]) ++ us = t :: (ts ++ close :: us) := by simp
    rw [hts, OpGrammar.runFrom, shiftOpening_eq hstack, ht]
    dsimp only
    rw [hrun, runFrom_close hclose]
    rfl
  | @binary n p t f l r ts us ht hp hn hl hr ihl ihr =>
    intro stack vs hstack
    obtain ⟨rest, c, hrun, hrest, rfl⟩ := @ihl _ (t :: (us ++ vs)) (hstack.mono hn)
    have hholds : g.Holds (p + 1) (.operand p (f (close rest c)) :: stack) :=
      fun q hq _ => hq
    obtain ⟨rest', c', hrun', hrest', rfl⟩ := @ihr _ vs hholds
    refine ⟨rest' ++ [(p, f (close rest c))], c', ?_, ?_, ?_⟩
    · have hts : ts ++ t :: us ++ vs = ts ++ t :: (us ++ vs) := by simp
      rw [hts, hrun, OpGrammar.runFrom, shiftFollowing, ht]
      dsimp only
      -- the operator reduces what the left operand left on the stack
      rw [reduceFor_append hp (hstack.mono hn) hrest]
      simpa [pending] using hrun'
    · intro s hs
      rcases List.mem_append.mp hs with hs | hs
      · have := hrest' s hs
        omega
      · rw [List.mem_singleton.mp hs]
        exact hn
    · simp [close]
  | @field n p t f u b e ts ht hp hn hb hu ih =>
    intro stack us hstack
    obtain ⟨rest, c, hrun, hrest, rfl⟩ := @ih _ (t :: u :: us) (hstack.mono hn)
    refine ⟨[], e, ?_, by simp, rfl⟩
    have hts : ts ++ [t, u] ++ us = ts ++ t :: u :: us := by simp
    rw [hts, hrun, OpGrammar.runFrom, shiftFollowing, ht]
    dsimp only
    rw [reduceFor_append hp (hstack.mono hn) hrest]
    dsimp only
    rw [OpGrammar.runFrom, shiftOpening, hu]
    rfl
  | @subscript n p t close f b i ts us ht hp hclose hn hb hi ihb ihi =>
    intro stack vs hstack
    obtain ⟨rest, c, hrun, hrest, rfl⟩ :=
      @ihb _ (t :: (us ++ close :: vs)) (hstack.mono hn)
    obtain ⟨rest', c', hrun', -, rfl⟩ :=
      @ihi (.bracket close (f (OpGrammar.close rest c)) :: stack) (close :: vs) trivial
    refine ⟨[], f (OpGrammar.close rest c) (OpGrammar.close rest' c'), ?_, by simp, rfl⟩
    have hts : ts ++ t :: (us ++ [close]) ++ vs = ts ++ t :: (us ++ close :: vs) := by simp
    rw [hts, hrun, OpGrammar.runFrom, shiftFollowing, ht]
    dsimp only
    rw [reduceFor_append hp (hstack.mono hn) hrest]
    dsimp only
    rw [hrun', runFrom_close hclose]
    rfl

/-- What is written is read back. -/
theorem parse_of_reads (hunary : g.left g.unaryPrec = false) {e : E} {ts : List T}
    (h : g.Reads 0 e ts) : g.parse ts = some e := by
  obtain ⟨rest, c, hrun, -, rfl⟩ := @Reads.runFrom _ _ _ _ hunary _ _ _ h [] [] trivial
  rw [List.append_nil] at hrun
  rw [parse, hrun, runFrom, reduceAll_append fun _ => rfl]

end Reads

/-! ### Texts that are no expressions -/

/-- The rule on the stack does not wait for the token. -/
def Refuses (t : T) : Pending T E → Prop
  | .operand _ _ => True
  | .field f => f t = none
  | .bracket close _ => close ≠ t

/-- The token closes no bracket that one of the tokens opens, and is no field after them. -/
structure Free (g : OpGrammar T E) (ts : List T) (t : T) : Prop where
  paren : ∀ u ∈ ts, ∀ close, g.opening u = .paren close → close ≠ t
  subscript : ∀ u ∈ ts, ∀ p close f, g.following u = .subscript p close f → close ≠ t
  field : ∀ u ∈ ts, ∀ p f b, g.following u = .field p f → f b t = none

theorem Free.mono {g : OpGrammar T E} {ts us : List T} {t : T} (h : g.Free ts t) (hus : us ⊆ ts) :
    g.Free us t where
  paren u hu := h.paren u (hus hu)
  subscript u hu := h.subscript u (hus hu)
  field u hu := h.field u (hus hu)

section NotRead

variable {g : OpGrammar T E} {ts : List T} {t u : T} {stack stack' : List (Pending T E)}
  {e e' : E} {operand : Option E}

theorem refuses_reduceFor {p : ℕ} (h : ∀ r ∈ stack, Refuses t r) :
    ∀ r ∈ (g.reduceFor p stack e).1, Refuses t r := by
  induction stack generalizing e with
  | nil => exact h
  | cons r stack ih =>
    match r with
    | .operand q f =>
      rw [reduceFor]
      split
      · exact ih fun r hr => h r (List.mem_cons_of_mem _ hr)
      · exact h
    | .field _ | .bracket _ _ => exact h

theorem refuses_reduceAll (h : ∀ r ∈ stack, Refuses t r) :
    ∀ r ∈ (reduceAll stack e).1, Refuses t r := by
  induction stack generalizing e with
  | nil => exact h
  | cons r stack ih =>
    match r with
    | .operand q f => exact ih fun r hr => h r (List.mem_cons_of_mem _ hr)
    | .field _ | .bracket _ _ => exact h

/-- What a token where an operand has to stand can do. -/
theorem shiftOpening_cases (h : g.shiftOpening u stack = some (stack', operand)) :
    (∃ f rest e, stack = .field f :: rest ∧ f u = some e ∧ stack' = rest ∧ operand = some e) ∨
    (∃ e, g.opening u = .atom e ∧ stack' = stack ∧ operand = some e) ∨
    (∃ f, g.opening u = .unary f ∧ stack' = .operand g.unaryPrec f :: stack ∧ operand = none) ∨
    ∃ close, g.opening u = .paren close ∧ stack' = .bracket close id :: stack ∧
      operand = none := by
  have hnew : (match g.opening u with
      | .atom e => some (stack, some e)
      | .unary f => some (.operand g.unaryPrec f :: stack, none)
      | .paren close => some (.bracket close id :: stack, none)
      | .bad => none) = some (stack', operand) →
      (∃ e, g.opening u = .atom e ∧ stack' = stack ∧ operand = some e) ∨
      (∃ f, g.opening u = .unary f ∧ stack' = .operand g.unaryPrec f :: stack ∧ operand = none) ∨
      ∃ close, g.opening u = .paren close ∧ stack' = .bracket close id :: stack ∧
        operand = none := by
    intro heq
    cases hopening : g.opening u with
    | atom e =>
      rw [hopening] at heq
      cases heq
      exact .inl ⟨e, rfl, rfl, rfl⟩
    | unary f =>
      rw [hopening] at heq
      cases heq
      exact .inr (.inl ⟨f, rfl, rfl, rfl⟩)
    | paren close =>
      rw [hopening] at heq
      cases heq
      exact .inr (.inr ⟨close, rfl, rfl, rfl⟩)
    | bad => simp [hopening] at heq
  match stack with
  | .field f :: stack =>
    obtain ⟨e, he, heq⟩ := Option.map_eq_some_iff.mp h
    cases heq
    exact .inl ⟨f, _, e, rfl, he, rfl, rfl⟩
  | .operand _ _ :: _ | .bracket _ _ :: _ | [] => exact .inr (hnew h)

/-- No rule ever waits for a free token. -/
theorem refuses_shiftOpening (hfree : g.Free ts t) (hu : u ∈ ts) (h : ∀ r ∈ stack, Refuses t r)
    (hshift : g.shiftOpening u stack = some (stack', operand)) : ∀ r ∈ stack', Refuses t r := by
  rcases shiftOpening_cases hshift with ⟨f, rest, e, rfl, -, rfl, -⟩ | ⟨e, -, rfl, -⟩ |
    ⟨f, -, rfl, -⟩ | ⟨close, hopening, rfl, -⟩
  · exact fun r hr => h r (List.mem_cons_of_mem _ hr)
  · exact h
  · exact List.forall_mem_cons.mpr ⟨trivial, h⟩
  · exact List.forall_mem_cons.mpr ⟨hfree.paren u hu close hopening, h⟩

/-- A free token is shifted where an operand has to stand only if it starts one. -/
theorem shiftOpening_free (h : ∀ r ∈ stack, Refuses t r)
    (hatom : ∀ e, g.opening t ≠ .atom e)
    (hshift : g.shiftOpening t stack = some (stack', operand)) :
    operand = none ∧ g.opening t ≠ .bad := by
  rcases shiftOpening_cases hshift with ⟨f, rest, e, rfl, he, -, -⟩ | ⟨e, hopening, -, -⟩ |
    ⟨f, hopening, -, hnone⟩ | ⟨close, hopening, -, hnone⟩
  · have hf : f t = none := h _ List.mem_cons_self
    exact absurd (he.symm.trans hf) (Option.some_ne_none e)
  · exact absurd hopening (hatom e)
  · exact ⟨hnone, by simp [hopening]⟩
  · exact ⟨hnone, by simp [hopening]⟩

variable [DecidableEq T]

/-- What a token after an operand can do: the new rule is put on what the reductions leave, or
a bracket is closed. -/
theorem shiftFollowing_cases (h : g.shiftFollowing u stack e = some (stack', operand)) :
    (∃ p f, g.following u = .binary p f ∧ operand = none ∧
      stack' = .operand p (f (g.reduceFor p stack e).2) :: (g.reduceFor p stack e).1) ∨
    (∃ p f, g.following u = .field p f ∧ operand = none ∧
      stack' = .field (f (g.reduceFor p stack e).2) :: (g.reduceFor p stack e).1) ∨
    (∃ p close f, g.following u = .subscript p close f ∧ operand = none ∧
      stack' = .bracket close (f (g.reduceFor p stack e).2) :: (g.reduceFor p stack e).1) ∨
    ∃ f, g.following u = .other ∧ (reduceAll stack e).1 = .bracket u f :: stack' := by
  rw [shiftFollowing] at h
  cases hfollowing : g.following u with
  | binary p f =>
    rw [hfollowing] at h
    cases h
    exact .inl ⟨p, f, rfl, rfl, rfl⟩
  | field p f =>
    rw [hfollowing] at h
    cases h
    exact .inr (.inl ⟨p, f, rfl, rfl, rfl⟩)
  | subscript p close f =>
    rw [hfollowing] at h
    cases h
    exact .inr (.inr (.inl ⟨p, close, f, rfl, rfl, rfl⟩))
  | other =>
    rw [hfollowing] at h
    dsimp only at h
    split at h
    · rename_i close f rest e' heq
      split at h
      · rename_i hclose
        cases h
        exact .inr (.inr (.inr ⟨f, rfl, by rw [heq, hclose]⟩))
      · cases h
    · cases h

theorem refuses_shiftFollowing (hfree : g.Free ts t) (hu : u ∈ ts)
    (h : ∀ r ∈ stack, Refuses t r)
    (hshift : g.shiftFollowing u stack e = some (stack', operand)) :
    ∀ r ∈ stack', Refuses t r := by
  rcases shiftFollowing_cases hshift with ⟨p, f, -, -, rfl⟩ | ⟨p, f, hfollowing, -, rfl⟩ |
    ⟨p, close, f, hfollowing, -, rfl⟩ | ⟨f, -, hall⟩
  · exact List.forall_mem_cons.mpr ⟨trivial, refuses_reduceFor h⟩
  · exact List.forall_mem_cons.mpr ⟨hfree.field u hu p f _ hfollowing, refuses_reduceFor h⟩
  · exact List.forall_mem_cons.mpr
      ⟨hfree.subscript u hu p close f hfollowing, refuses_reduceFor h⟩
  · have hrefuses : ∀ r ∈ (reduceAll stack e).1, Refuses t r := refuses_reduceAll h
    rw [hall] at hrefuses
    exact (List.forall_mem_cons.mp hrefuses).2

/-- A free token is shifted after an operand only as an operator. -/
theorem shiftFollowing_free (h : ∀ r ∈ stack, Refuses t r)
    (hshift : g.shiftFollowing t stack e = some (stack', operand)) :
    operand = none ∧ g.following t ≠ .other := by
  rcases shiftFollowing_cases hshift with ⟨p, f, hfollowing, hnone, -⟩ |
    ⟨p, f, hfollowing, hnone, -⟩ | ⟨p, close, f, hfollowing, hnone, -⟩ | ⟨f, -, hall⟩
  · exact ⟨hnone, by simp [hfollowing]⟩
  · exact ⟨hnone, by simp [hfollowing]⟩
  · exact ⟨hnone, by simp [hfollowing]⟩
  · have hrefuses : ∀ r ∈ (reduceAll stack e).1, Refuses t r := refuses_reduceAll h
    rw [hall] at hrefuses
    exact absurd rfl (List.forall_mem_cons.mp hrefuses).1

/-- A run over the tokens before a free one leads to a stack that does not wait for it. -/
theorem runFrom_append : ∀ {ts us : List T} {stack : List (Pending T E)}
    {operand : Option E}, g.Free ts t → (∀ r ∈ stack, Refuses t r) →
      g.runFrom (ts ++ us) stack operand ≠ none →
      ∃ stack' operand', (∀ r ∈ stack', Refuses t r) ∧
        g.runFrom us stack' operand' ≠ none := by
  intro ts
  induction ts with
  | nil =>
    intro us stack operand _ h hrun
    exact ⟨stack, operand, h, hrun⟩
  | cons u ts ih =>
    intro us stack operand hfree h hrun
    have hu : u ∈ u :: ts := List.mem_cons_self
    have htail : g.Free ts t := hfree.mono (List.subset_cons_self u ts)
    cases operand with
    | none =>
      rw [List.cons_append, runFrom] at hrun
      cases hshift : g.shiftOpening u stack with
      | none => simp [hshift] at hrun
      | some next =>
        rw [hshift] at hrun
        exact ih htail (refuses_shiftOpening hfree hu h hshift) hrun
    | some e =>
      rw [List.cons_append, runFrom] at hrun
      cases hshift : g.shiftFollowing u stack e with
      | none => simp [hshift] at hrun
      | some next =>
        rw [hshift] at hrun
        exact ih htail (refuses_shiftFollowing hfree hu h hshift) hrun

/-- A free token that is no operand starts or follows one, and another one has to come. -/
theorem runFrom_free (h : ∀ r ∈ stack, Refuses t r) (hatom : ∀ e, g.opening t ≠ .atom e)
    (hrun : g.runFrom (t :: ts) stack operand ≠ none) :
    (g.opening t ≠ .bad ∨ g.following t ≠ .other) ∧
      ∃ stack', g.runFrom ts stack' none ≠ none := by
  cases operand with
  | none =>
    rw [runFrom] at hrun
    cases hshift : g.shiftOpening t stack with
    | none => simp [hshift] at hrun
    | some next =>
      obtain ⟨stack', operand'⟩ := next
      obtain ⟨rfl, hopening⟩ := shiftOpening_free h hatom hshift
      rw [hshift] at hrun
      exact ⟨.inl hopening, stack', hrun⟩
  | some e =>
    rw [runFrom] at hrun
    cases hshift : g.shiftFollowing t stack e with
    | none => simp [hshift] at hrun
    | some next =>
      obtain ⟨stack', operand'⟩ := next
      obtain ⟨rfl, hfollowing⟩ := shiftFollowing_free h hshift
      rw [hshift] at hrun
      exact ⟨.inr hfollowing, stack', hrun⟩

/-- An expression does not end with a free token that is no operand. -/
theorem parse_concat_eq_none (hfree : g.Free ts t) (hatom : ∀ e, g.opening t ≠ .atom e) :
    g.parse (ts ++ [t]) = none := by
  by_contra hrun
  obtain ⟨stack, operand, h, hrun⟩ := runFrom_append hfree (by simp) hrun
  obtain ⟨-, stack', hend⟩ := runFrom_free h hatom hrun
  exact hend rfl

/-- There is no place in an expression for a free token that neither starts an operand nor
follows one. -/
theorem parse_eq_none_of_mem (hfree : g.Free ts t) (hbad : g.opening t = .bad)
    (hother : g.following t = .other) (ht : t ∈ ts) : g.parse ts = none := by
  by_contra hrun
  obtain ⟨us, vs, rfl⟩ := List.append_of_mem ht
  have hbefore : g.Free us t := hfree.mono (List.subset_append_left us (t :: vs))
  obtain ⟨stack, operand, h, hrun⟩ := runFrom_append hbefore (by simp) hrun
  obtain ⟨hplace, -⟩ := runFrom_free h (by simp [hbad]) hrun
  exact hplace.elim (· hbad) (· hother)

/-- An expression does not begin with a token that starts no operand. -/
theorem parse_cons_eq_none (hbad : g.opening t = .bad) (ts : List T) :
    g.parse (t :: ts) = none := by
  rw [parse, runFrom, shiftOpening, hbad]
  simp

end NotRead

end OpGrammar

end Prog
