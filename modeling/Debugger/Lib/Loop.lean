/-
Loops that may not end.

A loop is its body: in each state it goes on with another state or leaves with a result.
`run` gives a loop a number of rounds, `after` is the state behind some rounds, `Visits` are the
states it comes by.  What decreases in every round that is visited bounds the number of rounds
(`run_isSome`), there is one result (`run_unique`), and a round that changes nothing is repeated
for ever (`run_eq_none`).  A loop that leaves comes by the states of its `trace` only
(`Visits.mem_trace`).
-/
import Mathlib.Data.List.Basic

namespace Prog.Loop

variable {S R : Type} {body : S → S ⊕ R}

/-- At most `n` rounds of the loop; `none` when it has not left by then. -/
def run (body : S → S ⊕ R) : ℕ → S → Option R
  | 0, _ => none
  | n + 1, s =>
    match body s with
    | .inl s' => run body n s'
    | .inr r => some r

/-- The state behind `n` rounds; `none` when the loop has left before. -/
def after (body : S → S ⊕ R) : ℕ → S → Option S
  | 0, s => some s
  | n + 1, s =>
    match after body n s with
    | some s' => (body s').getLeft?
    | none => none

/-- Behind one more round. -/
theorem after_succ {n : ℕ} {s₀ s : S} (h : after body n s₀ = some s) :
    after body (n + 1) s₀ = (body s).getLeft? := by
  rw [after, h]

/-- A loop goes on from the state behind some rounds. -/
theorem run_of_after : ∀ {n m : ℕ} {s₀ s : S}, after body n s₀ = some s →
    run body (n + m) s₀ = run body m s := by
  intro n
  induction n with
  | zero =>
    intro m s₀ s h
    rw [Nat.zero_add, Option.some.inj h]
  | succ n ih =>
    intro m s₀ s h
    cases hn : after body n s₀ with
    | none => rw [after, hn] at h; cases h
    | some s₁ =>
      rw [after_succ hn, Sum.getLeft?_eq_some_iff] at h
      rw [Nat.add_right_comm, Nat.add_assoc, ih hn, run, h]

/-- The states at the beginning of a round. -/
inductive Visits (body : S → S ⊕ R) (s₀ : S) : S → Prop
  | start : Visits body s₀ s₀
  | round {s s' : S} : Visits body s₀ s → body s = .inl s' → Visits body s₀ s'

/-- What is kept by every round holds in every state visited. -/
theorem Visits.invariant {I : S → Prop} {s₀ s : S} (h : Visits body s₀ s) (h₀ : I s₀)
    (hround : ∀ s s', Visits body s₀ s → I s → body s = .inl s' → I s') : I s := by
  induction h with
  | start => exact h₀
  | round hv hb ih => exact hround _ _ hv ih hb

theorem Visits.tail {s₀ s₁ s : S} (h : body s₀ = .inl s₁) (hv : Visits body s₁ s) :
    Visits body s₀ s := by
  induction hv with
  | start => exact .round .start h
  | round _ hb ih => exact .round ih hb

/-- The states at the beginning of the first rounds. -/
def trace (body : S → S ⊕ R) : ℕ → S → List S
  | 0, _ => []
  | n + 1, s =>
    s :: match body s with
      | .inl s' => trace body n s'
      | .inr _ => []

theorem mem_trace_of_round : ∀ {n : ℕ} {s₀ s s' : S}, (run body n s₀).isSome = true →
    s ∈ trace body n s₀ → body s = .inl s' → s' ∈ trace body n s₀ := by
  intro n
  induction n with
  | zero => exact fun h => nomatch h
  | succ n ih =>
    intro s₀ s s' h hs hb
    rw [run] at h
    rw [trace] at hs ⊢
    cases hb₀ : body s₀ with
    | inr r =>
      rw [hb₀, List.mem_singleton] at hs
      rw [hs, hb₀] at hb
      exact nomatch hb
    | inl s₁ =>
      rw [hb₀] at h hs
      dsimp only at h hs ⊢
      have hfirst : s₁ ∈ trace body n s₁ := by
        cases n with
        | zero => exact nomatch h
        | succ n => exact List.mem_cons_self
      rcases List.mem_cons.mp hs with rfl | hs
      · rw [hb₀] at hb
        exact List.mem_cons_of_mem _ (Sum.inl.inj hb ▸ hfirst)
      · exact List.mem_cons_of_mem _ (ih h hs hb)

/-- A loop that leaves comes by the states of its trace only; its rounds may be those of another
body there. -/
theorem Visits.mem_trace {body' : S → S ⊕ R} {n : ℕ} {s₀ s : S} (h : Visits body s₀ s)
    (hrun : (run body' n s₀).isSome = true)
    (heq : ∀ s ∈ trace body' n s₀, body s = body' s) : s ∈ trace body' n s₀ := by
  refine h.invariant ?_ fun s s' _ hs hb => mem_trace_of_round hrun hs (heq s hs ▸ hb)
  cases n with
  | zero => exact nomatch hrun
  | succ n => exact List.mem_cons_self

/-- A loop whose every round decreases a number leaves within that number of rounds. -/
theorem run_isSome (μ : S → ℕ) : ∀ {n : ℕ} {s₀ : S},
    (∀ s s', Visits body s₀ s → body s = .inl s' → μ s' < μ s) → μ s₀ < n →
      (run body n s₀).isSome = true := by
  intro n
  induction n with
  | zero => exact fun _ h => absurd h (Nat.not_lt_zero _)
  | succ n ih =>
    intro s₀ hdec hlt
    rw [run]
    cases hb : body s₀ with
    | inr r => rfl
    | inl s₁ =>
      refine ih (fun s s' hv => hdec s s' (hv.tail hb)) ?_
      exact Nat.lt_of_lt_of_le (hdec s₀ s₁ .start hb) (Nat.le_of_lt_succ hlt)

/-- The result of a loop is that of a round it comes by. -/
theorem run_result : ∀ {n : ℕ} {s₀ : S} {r : R}, run body n s₀ = some r →
    ∃ s, Visits body s₀ s ∧ body s = .inr r := by
  intro n
  induction n with
  | zero => exact fun h => nomatch h
  | succ n ih =>
    intro s₀ r h
    rw [run] at h
    cases hb : body s₀ with
    | inr r' =>
      rw [hb] at h
      exact ⟨s₀, .start, by rw [hb, Option.some.inj h]⟩
    | inl s₁ =>
      rw [hb] at h
      obtain ⟨s, hv, hs⟩ := ih h
      exact ⟨s, hv.tail hb, hs⟩

/-- What every round keeps until it leaves, the result has been left with. -/
theorem run_ensures {I : S → Prop} {P : R → Prop} (hround : ∀ s, I s → Sum.elim I P (body s))
    {n : ℕ} {s₀ : S} {r : R} (h₀ : I s₀) (h : run body n s₀ = some r) : P r := by
  obtain ⟨s, hv, hs⟩ := run_result h
  have hI : I s := by
    refine hv.invariant h₀ fun s s' _ hs hb => ?_
    have hs' := hround s hs
    rwa [hb] at hs'
  have hP := hround s hI
  rwa [hs] at hP

/-- More rounds do not change the result. -/
theorem run_mono : ∀ {n m : ℕ} {s₀ : S} {r : R}, run body n s₀ = some r → n ≤ m →
    run body m s₀ = some r := by
  intro n
  induction n with
  | zero => exact fun h _ => nomatch h
  | succ n ih =>
    intro m s₀ r h hle
    obtain ⟨m, rfl⟩ := Nat.exists_eq_add_of_lt (Nat.lt_of_lt_of_le (Nat.succ_pos n) hle)
    rw [run] at h ⊢
    cases hb : body s₀ with
    | inr r' => rwa [hb] at h
    | inl s₁ =>
      rw [hb] at h
      exact ih h (by omega)

/-- A loop has one result. -/
theorem run_unique {n m : ℕ} {s₀ : S} {r r' : R} (h : run body n s₀ = some r)
    (h' : run body m s₀ = some r') : r = r' :=
  Option.some.inj ((run_mono h (Nat.le_max_left n m)).symm.trans
    (run_mono h' (Nat.le_max_right n m)))

/-- A round that leads back to its state is repeated for ever. -/
theorem run_eq_none {s : S} (h : body s = .inl s) : ∀ n, run body n s = none
  | 0 => rfl
  | n + 1 => by rw [run, h]; exact run_eq_none h n

end Prog.Loop
