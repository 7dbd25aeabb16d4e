/-
Programs whose runs obey a relation between states.

`Obeys R m` says that no run of `m` leads from a state to one the relation `R` does not
allow.  For a preorder it is closed under sequencing, branching and the loops of `Prog`, so
that a property of a whole run is proved from one fact about each primitive action.  The
preorder `Carries I` turns the rules into those for an assertion `I` that every action
carries on.
-/
import Debugger.Lib.Wp
import Mathlib.Order.Defs.Unbundled

namespace Prog

variable {σ α β γ : Type} {R : σ → σ → Prop}

/-- Every run of `m` leads to a state the relation allows. -/
def Obeys (R : σ → σ → Prop) (m : StateM σ α) : Prop := ∀ s, wp m (fun _ s' => R s s') s

/-- What a program keeps, with the relation that says so. -/
theorem Keeps.obeys {δ : Type} {v : σ → δ} {m : StateM σ α} (h : Keeps v m)
    (hR : ∀ s s', v s' = v s → R s s') : Obeys R m := fun s => hR s _ (h s)

theorem Obeys.modify {f : σ → σ} (h : ∀ s, R s (f s)) :
    Obeys R (modify f : StateM σ PUnit) := h

theorem Obeys.ite {c : Prop} [Decidable c] {m m' : StateM σ α} (h : Obeys R m)
    (h' : Obeys R m') : Obeys R (if c then m else m') := by
  intro s
  rw [wp_ite]
  exact ⟨fun _ => h s, fun _ => h' s⟩

section Preorder

variable [IsPreorder σ R]

theorem Obeys.pure (a : α) : Obeys R (pure a : StateM σ α) := fun s => refl_of R s

theorem Obeys.get : Obeys R (get : StateM σ σ) := fun s => refl_of R s

theorem Obeys.bind {m : StateM σ β} {f : β → StateM σ α} (hm : Obeys R m)
    (hf : ∀ b, Obeys R (f b)) : Obeys R (m >>= f) := fun s => trans_of R (hm s) (hf _ _)

theorem Obeys.forEach {f : β → StateM σ PUnit} {bs : List β} (hf : ∀ b ∈ bs, Obeys R (f b)) :
    Obeys R (forEach f bs) := by
  induction bs with
  | nil => exact Obeys.pure _
  | cons b bs ih =>
    exact Obeys.bind (hf b List.mem_cons_self) fun _ =>
      ih fun c hc => hf c (List.mem_cons_of_mem _ hc)

theorem Obeys.forUntil {f : β → StateM σ Int} {bs : List β} (hf : ∀ b ∈ bs, Obeys R (f b)) :
    Obeys R (forUntil f bs) := by
  induction bs with
  | nil => exact Obeys.pure _
  | cons b bs ih =>
    exact Obeys.bind (hf b List.mem_cons_self) fun rc =>
      Obeys.ite (Obeys.pure _) (ih fun c hc => hf c (List.mem_cons_of_mem _ hc))

end Preorder

/-! ### Assertions -/

/-- The assertion holds afterwards if it has held before. -/
def Carries (I : σ → Prop) (s s' : σ) : Prop := I s → I s'

variable {I : σ → Prop}

instance : IsPreorder σ (Carries I) where
  refl _ h := h
  trans _ _ _ h h' hs := h' (h hs)

theorem obeys_carries_iff {m : StateM σ α} :
    Obeys (Carries I) m ↔ ∀ s, I s → wp m (fun _ => I) s := Iff.rfl

end Prog
