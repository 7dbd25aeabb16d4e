/-
Substrings of a text that is put together from parts.

A pattern that does not contain the character between two parts occurs in the whole exactly if
it occurs in one of the parts (`infix_append_cons_iff`).  `dropTo` is the text from the first
occurrence of a pattern on; the parts before it that do not contain the pattern can be cut off.
-/
import Mathlib.Data.List.Infix

namespace Prog

variable {α : Type}

section Occurs

variable {m a b : List α} {c : α}

/-- A pattern without the character that separates two parts occurs in one of them. -/
theorem infix_append_cons_iff (hc : c ∉ m) : m <:+: a ++ c :: b ↔ m <:+: a ∨ m <:+: b := by
  constructor
  · rintro ⟨s, t, h⟩
    rcases List.append_eq_append_iff.mp h with ⟨a', rfl, -⟩ | ⟨c', hsm, hcb⟩
    · exact .inl ⟨s, a', rfl⟩
    cases c' with
    | nil => exact .inl ⟨s, [], by simpa using hsm⟩
    | cons d b' =>
      obtain ⟨rfl, rfl⟩ := List.cons.inj hcb
      -- the separator is not in the pattern, so it is before it
      rcases List.append_eq_append_iff.mp hsm with ⟨a', -, rfl⟩ | ⟨c'', rfl, hcm⟩
      · exact absurd (List.mem_append_right _ List.mem_cons_self) hc
      cases c'' with
      | nil =>
        have hm : m = c :: b' := hcm.symm
        exact absurd (hm ▸ List.mem_cons_self) hc
      | cons d b'' =>
        obtain ⟨rfl, rfl⟩ := List.cons.inj hcm
        exact .inr ⟨b'', t, rfl⟩
  · rintro (h | h)
    · exact h.trans (List.prefix_append _ _).isInfix
    · exact h.trans ⟨a ++ [c], [], by simp⟩

theorem infix_cons_iff_of_not_mem (hm : m ≠ []) (hc : c ∉ m) : m <:+: c :: b ↔ m <:+: b := by
  have h := @infix_append_cons_iff α m [] b c hc
  rwa [List.nil_append, List.infix_nil, or_iff_right hm] at h

/-- A pattern does not occur in a text that lacks one of its characters. -/
theorem not_infix_of_not_mem {d : α} (hd : d ∈ m) (h : d ∉ a) : ¬ m <:+: a := fun hocc =>
  h (hocc.subset hd)

theorem infix_replicate_append_iff {n : ℕ} (hm : m ≠ []) (hc : c ∉ m) :
    m <:+: List.replicate n c ++ b ↔ m <:+: b := by
  induction n with
  | zero => rfl
  | succ n ih =>
    rw [List.replicate_succ, List.cons_append, infix_cons_iff_of_not_mem hm hc, ih]

end Occurs

/-! ### The text from an occurrence on -/

section DropTo

variable [DecidableEq α] {m a b : List α} {c : α}

/-- The text from the first occurrence of the pattern on. -/
def dropTo (m : List α) : List α → Option (List α)
  | [] => if m = [] then some [] else none
  | c :: cs => if m <+: c :: cs then some (c :: cs) else dropTo m cs

theorem dropTo_append_self (h : m ≠ []) : dropTo m (m ++ b) = some (m ++ b) := by
  obtain ⟨d, m, rfl⟩ := List.exists_cons_of_ne_nil h
  rw [List.cons_append, dropTo, if_pos ⟨b, rfl⟩]

theorem dropTo_eq_none (h : ¬ m <:+: a) : dropTo m a = none := by
  induction a with
  | nil =>
    rw [dropTo, if_neg]
    rintro rfl
    exact h List.nil_infix
  | cons d a ih =>
    rw [dropTo, if_neg fun hpre => h hpre.isInfix]
    exact ih fun hocc => h (hocc.trans (List.suffix_cons d a).isInfix)

/-- A part that does not contain the pattern is cut off with the separator behind it. -/
theorem dropTo_append_cons (hm : m ≠ []) (hc : c ∉ m) (h : ¬ m <:+: a) :
    dropTo m (a ++ c :: b) = dropTo m b := by
  induction a with
  | nil =>
    rw [List.nil_append, dropTo, if_neg]
    rintro ⟨t, ht⟩
    cases m with
    | nil => exact hm rfl
    | cons d m =>
      rw [List.cons_append] at ht
      exact hc ((List.cons.inj ht).1 ▸ List.mem_cons_self)
  | cons d a ih =>
    have hno : ¬ m <+: d :: (a ++ c :: b) := by
      intro hpre
      have hlen : m.length ≤ (d :: a).length := by
        by_contra hlt
        -- otherwise the separator would be in the pattern
        obtain ⟨t, ht⟩ := hpre
        have hget : m[(d :: a).length]? = some c := by
          have := congrArg (·[(d :: a).length]?) ht
          rw [List.getElem?_append_left (by omega)] at this
          rw [this]
          simp
        exact hc (List.mem_of_getElem? hget)
      have hpre' : m <+: d :: a :=
        List.prefix_of_prefix_length_le hpre ⟨c :: b, rfl⟩ hlen
      exact h hpre'.isInfix
    rw [List.cons_append, dropTo, if_neg hno]
    exact ih fun hocc => h (hocc.trans (List.suffix_cons d a).isInfix)

end DropTo

end Prog
