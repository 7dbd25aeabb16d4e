/-
Marks laid over a memory.

A patch is a place together with a value to put back there.  While a patch is laid, its
place shows the mark.  Several patches may be laid at one place; only the one laid first
keeps the original value, the others keep the mark.  `Overlaid` says that a memory and the
laid patches agree: marked places show the mark, all others their original value, and at
every marked place some patch keeps the original value.

Laying a patch is always possible (`Overlaid.lay`).  Lifting one is possible when it keeps
the mark or is the only one at its place (`Overlaid.lift`).
-/
import Mathlib.Logic.Function.Basic

namespace Prog

variable {α β : Type}

/-- The memory `m` shows `mark` where a patch of `A` is laid and `orig` elsewhere, as far as
the places in `dom` go. -/
structure Overlaid (mark : β) (orig m : α → β) (dom : α → Prop) (A : α × β → Prop) : Prop where
  marked : ∀ q, A q → dom q.1 → m q.1 = mark
  saved : ∀ q, A q → dom q.1 → q.2 = orig q.1 ∨ q.2 = mark
  kept : ∀ q, A q → dom q.1 → A (q.1, orig q.1)
  clear : ∀ a, dom a → (∀ q, A q → q.1 ≠ a) → m a = orig a

namespace Overlaid

variable {mark : β} {orig m m' : α → β} {dom : α → Prop} {A A' : α × β → Prop}

theorem congr (h : Overlaid mark orig m dom A) (hA : ∀ q, A' q ↔ A q)
    (hm : ∀ a, dom a → m' a = m a) : Overlaid mark orig m' dom A' where
  marked q hq hd := (hm _ hd).trans (h.marked q ((hA q).mp hq) hd)
  saved q hq hd := h.saved q ((hA q).mp hq) hd
  kept q hq hd := (hA _).mpr (h.kept q ((hA q).mp hq) hd)
  clear a hd hno := (hm a hd).trans (h.clear a hd fun q hq => hno q ((hA q).mpr hq))

/-- A memory without patches is the original one. -/
theorem of_clear (hA : ∀ q, ¬ A q) (hm : ∀ a, dom a → m a = orig a) :
    Overlaid mark orig m dom A where
  marked q hq := absurd hq (hA q)
  saved q hq := absurd hq (hA q)
  kept q hq := absurd hq (hA q)
  clear a hd _ := hm a hd

/-- What a place shows. -/
theorem shows (h : Overlaid mark orig m dom A) {a : α} (ha : dom a) :
    ((∃ q, A q ∧ q.1 = a) → m a = mark) ∧ ((¬ ∃ q, A q ∧ q.1 = a) → m a = orig a) := by
  constructor
  · rintro ⟨q, hq, rfl⟩
    exact h.marked q hq ha
  · exact fun hno => h.clear a ha fun q hq hqa => hno ⟨q, hq, hqa⟩

variable [DecidableEq α]

/-- A new patch keeps what its place shows. -/
theorem lay {a : α} (h : Overlaid mark orig m dom A) (hA : ∀ q, A' q ↔ q = (a, m a) ∨ A q) :
    Overlaid mark orig (Function.update m a mark) dom A' := by
  have hshow : dom a → m a = orig a ∨ m a = mark ∧ A (a, orig a) := by
    intro ha
    by_cases hlaid : ∃ q, A q ∧ q.1 = a
    · obtain ⟨q, hq, rfl⟩ := hlaid
      exact .inr ⟨h.marked q hq ha, h.kept q hq ha⟩
    · exact .inl ((h.shows ha).2 hlaid)
  constructor
  · intro q hq hd
    by_cases hqa : q.1 = a
    · rw [hqa, Function.update_self]
    · rw [Function.update_of_ne hqa]
      rcases (hA q).mp hq with rfl | hq
      · exact absurd rfl hqa
      · exact h.marked q hq hd
  · intro q hq hd
    rcases (hA q).mp hq with rfl | hq
    · exact (hshow hd).imp id fun h => h.1
    · exact h.saved q hq hd
  · intro q hq hd
    rcases (hA q).mp hq with rfl | hq
    · rcases hshow hd with heq | ⟨-, hkept⟩
      · exact (hA _).mpr (.inl (congrArg (Prod.mk a) heq.symm))
      · exact (hA _).mpr (.inr hkept)
    · exact (hA _).mpr (.inr (h.kept q hq hd))
  · intro b hd hno
    have hba : b ≠ a := fun hba => hno (a, m a) ((hA _).mpr (.inl rfl)) hba.symm
    rw [Function.update_of_ne hba]
    exact h.clear b hd fun q hq => hno q ((hA q).mpr (.inr hq))

/-- A patch may be lifted when it keeps the mark or is alone at its place. -/
theorem lift {p : α × β} (h : Overlaid mark orig m dom A) (hA : ∀ q, A q ↔ q = p ∨ A' q)
    (hsafe : p.2 = mark ∨ ∀ q, A' q → q.1 ≠ p.1) :
    Overlaid mark orig (Function.update m p.1 p.2) dom A' := by
  have hold : ∀ q, A' q → A q := fun q hq => (hA q).mpr (.inr hq)
  -- a patch that stays at the place of `p` shows that `p` keeps the mark
  have hmark : ∀ q, A' q → q.1 = p.1 → p.2 = mark := fun q hq hqp =>
    hsafe.resolve_right fun halone => halone q hq hqp
  constructor
  · intro q hq hd
    by_cases hqp : q.1 = p.1
    · rw [hqp, Function.update_self]
      exact hmark q hq hqp
    · rw [Function.update_of_ne hqp]
      exact h.marked q (hold q hq) hd
  · exact fun q hq hd => h.saved q (hold q hq) hd
  · intro q hq hd
    rcases (hA _).mp (h.kept q (hold q hq) hd) with heq | hkept
    · -- `p` kept the original value, which then is the mark, and so does `q`
      have hqp : q.1 = p.1 := by rw [← heq]
      have horig : p.2 = orig q.1 := by rw [← heq]
      have hsnd : q.2 = orig q.1 :=
        (h.saved q (hold q hq) hd).elim id fun hq2 => by rw [hq2, ← horig, hmark q hq hqp]
      rwa [← hsnd]
    · exact hkept
  · intro a hd hno
    by_cases hap : a = p.1
    · subst hap
      rw [Function.update_self]
      rcases (hA _).mp (h.kept p ((hA p).mpr (.inl rfl)) hd) with heq | hkept
      · exact (congrArg Prod.snd heq).symm
      · exact absurd rfl (hno (p.1, orig p.1) hkept)
    · rw [Function.update_of_ne hap]
      refine h.clear a hd fun q hq => ?_
      rcases (hA q).mp hq with rfl | hq
      · exact Ne.symm hap
      · exact hno q hq

end Overlaid

end Prog
