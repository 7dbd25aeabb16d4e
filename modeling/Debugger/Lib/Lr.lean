/-
Shift-reduce parsing of a grammar with one nonterminal.

Every rule derives the start symbol from a list of terminals, so that a state of the
automaton is the list of terminals shifted so far.  A state that can only reduce does so
without looking at the next token; any other state looks at it and, where the token cannot
be shifted, performs its reduction by default.  The action of a rule thus runs when the
rule is reduced, before the parser has seen whether the input ends there.

The parser accepts the derivable inputs (`accepts_iff`) and runs on them the action of the
rule that derives them (`parseFrom_of_derivable`).
-/
import Mathlib.Data.List.Basic

namespace Prog

/-- A rule of the start symbol: its terminals and the action on their values. -/
structure Rule (K V A : Type) where
  rhs : List K
  action : List V → A

variable {K V A : Type} [DecidableEq K]

/-- The start symbol derives the tokens. -/
def Derivable (g : List (Rule K V A)) (tokens : List (K × V)) : Prop :=
  ∃ r ∈ g, r.rhs = tokens.map (·.1)

/-- The state has a transition on `k`. -/
def shifts (g : List (Rule K V A)) (state : List K) (k : K) : Bool :=
  g.any fun r => (state ++ [k]).isPrefixOf r.rhs

/-- The state has no transition on a terminal. -/
def consistent (g : List (Rule K V A)) (state : List K) : Bool :=
  g.all fun r => !state.isPrefixOf r.rhs || r.rhs.length = state.length

/-- The rule the state reduces. -/
def reduces (g : List (Rule K V A)) (state : List K) : Option (Rule K V A) :=
  g.find? fun r => r.rhs = state

/-- The parser with the given stack in front of the given tokens: the actions it runs, and
whether it accepts. -/
def parseFrom (g : List (Rule K V A)) : List (K × V) → List (K × V) → List A × Bool
  | [], stack =>
    match reduces g (stack.map (·.1)) with
    | some r => ([r.action (stack.map (·.2))], true)
    | none => ([], false)
  | t :: rest, stack =>
    match reduces g (stack.map (·.1)) with
    | some r =>
      if consistent g (stack.map (·.1)) then ([r.action (stack.map (·.2))], false)
      else if shifts g (stack.map (·.1)) t.1 then parseFrom g rest (stack ++ [t])
      else ([r.action (stack.map (·.2))], false)
    | none =>
      if shifts g (stack.map (·.1)) t.1 then parseFrom g rest (stack ++ [t]) else ([], false)

/-- The parser on an input. -/
def parse (g : List (Rule K V A)) (tokens : List (K × V)) : List A × Bool :=
  parseFrom g tokens []

section Lr

variable {g : List (Rule K V A)} {state : List K} {k : K}

theorem shifts_iff : shifts g state k = true ↔ ∃ r ∈ g, (state ++ [k]) <+: r.rhs := by
  simp [shifts, List.isPrefixOf_iff_prefix]

theorem consistent_iff :
    consistent g state = true ↔ ∀ r ∈ g, state <+: r.rhs → r.rhs = state := by
  rw [consistent, List.all_eq_true]
  refine forall₂_congr fun r _ => ?_
  constructor
  · intro h hstart
    have hlen : r.rhs.length = state.length := by
      simpa [List.isPrefixOf_iff_prefix.mpr hstart] using h
    exact (hstart.eq_of_length hlen.symm).symm
  · intro h
    by_cases hstart : state <+: r.rhs
    · simp [h hstart]
    · have hfalse : state.isPrefixOf r.rhs = false := by
        rw [← Bool.not_eq_true, List.isPrefixOf_iff_prefix]
        exact hstart
      simp [hfalse]

theorem mem_of_reduces {r : Rule K V A} (h : reduces g state = some r) :
    r ∈ g ∧ r.rhs = state :=
  ⟨List.mem_of_find?_eq_some h, by simpa using List.find?_some h⟩

/-- A parser in front of tokens that complete a rule accepts, and only such a parser does. -/
theorem parseFrom_accepts_iff : ∀ {rest stack : List (K × V)},
    (parseFrom g rest stack).2 = true ↔ Derivable g (stack ++ rest) := by
  intro rest
  induction rest with
  | nil =>
    intro stack
    rw [parseFrom, List.append_nil, Derivable]
    cases h : reduces g (stack.map (·.1)) with
    | some r => exact iff_of_true rfl ⟨r, mem_of_reduces h⟩
    | none =>
      refine iff_of_false (by simp) fun ⟨r, hr, hrhs⟩ => ?_
      exact absurd hrhs (by simpa using List.find?_eq_none.mp h r hr)
  | cons t rest ih =>
    intro stack
    -- a rule with the whole input as its right side makes the state shift `t`
    have hstart : Derivable g (stack ++ t :: rest) →
        ∃ r ∈ g, (stack.map (·.1) ++ [t.1]) <+: r.rhs := fun ⟨r, hr, hrhs⟩ =>
      ⟨r, hr, by rw [hrhs]; exact ⟨rest.map (·.1), by simp⟩⟩
    have hgo : (parseFrom g rest (stack ++ [t])).2 = true ↔ Derivable g (stack ++ t :: rest) := by
      rw [ih, List.append_assoc]
      rfl
    have hstuck : ¬ shifts g (stack.map (·.1)) t.1 = true →
        ¬ Derivable g (stack ++ t :: rest) := fun hs hd => hs (shifts_iff.mpr (hstart hd))
    rw [parseFrom]
    cases reduces g (stack.map (·.1)) with
    | some r =>
      dsimp only
      split
      · rename_i hc
        refine iff_of_false (by simp) fun hd => ?_
        obtain ⟨r, hr, hlong⟩ := hstart hd
        have hrhs := consistent_iff.mp hc r hr ((List.prefix_append _ _).trans hlong)
        have hlen := hlong.length_le
        rw [hrhs, List.length_append, List.length_singleton] at hlen
        omega
      · split
        · exact hgo
        · rename_i hs
          exact iff_of_false (by simp) (hstuck hs)
    | none =>
      dsimp only
      split
      · exact hgo
      · rename_i hs
        exact iff_of_false (by simp) (hstuck hs)

/-- The parser accepts exactly the derivable inputs. -/
theorem accepts_iff {tokens : List (K × V)} :
    (parse g tokens).2 = true ↔ Derivable g tokens := parseFrom_accepts_iff

/-- A state that can only reduce runs its action in front of any input. -/
theorem parseFrom_of_consistent {rest stack : List (K × V)} {r : Rule K V A}
    (hr : reduces g (stack.map (·.1)) = some r) (hc : consistent g (stack.map (·.1)) = true) :
    (parseFrom g rest stack).1 = [r.action (stack.map (·.2))] := by
  cases rest with
  | nil => rw [parseFrom, hr]
  | cons t rest =>
    rw [parseFrom, hr]
    dsimp only
    rw [if_pos hc]

/-- A state that looks at the next token and can shift it does so. -/
theorem parseFrom_shift {rest stack : List (K × V)} {t : K × V}
    (hc : consistent g (stack.map (·.1)) = false) (hs : shifts g (stack.map (·.1)) t.1 = true) :
    parseFrom g (t :: rest) stack = parseFrom g rest (stack ++ [t]) := by
  rw [parseFrom, hs, hc]
  cases reduces g (stack.map (·.1)) <;> rfl

/-- A state that can only reduce runs the action of a rule with its terminals. -/
theorem exists_run_of_consistent {rest stack : List (K × V)}
    (hc : consistent g (stack.map (·.1)) = true)
    (hr : (reduces g (stack.map (·.1))).isSome = true) :
    ∃ r ∈ g, r.rhs = stack.map (·.1) ∧
      (parseFrom g rest stack).1 = [r.action (stack.map (·.2))] := by
  obtain ⟨r, hr⟩ := Option.isSome_iff_exists.mp hr
  exact ⟨r, (mem_of_reduces hr).1, (mem_of_reduces hr).2, parseFrom_of_consistent hr hc⟩

theorem derivable_of_reduces {tokens : List (K × V)}
    (h : (reduces g (tokens.map (·.1))).isSome = true) : Derivable g tokens := by
  obtain ⟨r, hr⟩ := Option.isSome_iff_exists.mp h
  exact ⟨r, mem_of_reduces hr⟩

/-- On a derivable input the parser runs the action of the rule that derives it. -/
theorem parseFrom_of_derivable : ∀ {rest stack : List (K × V)}, Derivable g (stack ++ rest) →
    ∃ r ∈ g, r.rhs = (stack ++ rest).map (·.1) ∧
      (parseFrom g rest stack).1 = [r.action ((stack ++ rest).map (·.2))] := by
  intro rest
  induction rest with
  | nil =>
    intro stack h
    rw [List.append_nil] at h ⊢
    rw [parseFrom]
    obtain ⟨r, hr, hrhs⟩ := h
    cases hred : reduces g (stack.map (·.1)) with
    | some r' => exact ⟨r', (mem_of_reduces hred).1, (mem_of_reduces hred).2, rfl⟩
    | none => exact absurd hrhs (by simpa using List.find?_eq_none.mp hred r hr)
  | cons t rest ih =>
    intro stack h
    obtain ⟨r, hr, hrhs⟩ := h
    have hlong : (stack.map (·.1) ++ [t.1]) <+: r.rhs := by
      rw [hrhs]
      exact ⟨rest.map (·.1), by simp⟩
    have hc : consistent g (stack.map (·.1)) = false := by
      rw [← Bool.not_eq_true]
      intro hc
      have hshort := consistent_iff.mp hc r hr ((List.prefix_append _ _).trans hlong)
      have hlen := hlong.length_le
      rw [hshort, List.length_append, List.length_singleton] at hlen
      omega
    rw [parseFrom_shift hc (shifts_iff.mpr ⟨r, hr, hlong⟩), List.append_cons]
    exact ih ⟨r, hr, by rw [hrhs, List.append_cons]⟩

end Lr

end Prog
