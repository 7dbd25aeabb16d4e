/-
Scans for the best element of a list.

A scan goes through a list once, skips what fails a test, and keeps an element that is better than
the one it has kept (`keep`).  It ends with the first of the best elements that pass
(`foldl_keep_greater`, `foldl_keep_less`).

`Best` says what such a result is without saying how it is found.  Two results that are best
among the same elements are equally good (`Best.map_eq`), so how good the result is does not
depend on the order of the list.
-/
import Mathlib.Data.List.MinMax

namespace Scan

variable {α β γ : Type*}

/-- `o` is an element that passes the test and is at least as good as all others that do, or
none if no element passes. -/
structure Best (atLeast : α → α → Prop) (test : α → Prop) (l : List α) (o : Option α) :
    Prop where
  none_iff : o = none ↔ ∀ a ∈ l, ¬ test a
  best : ∀ m, o = some m → m ∈ l ∧ test m ∧ ∀ a ∈ l, test a → atLeast m a

namespace Best

variable {atLeast atLeast' : α → α → Prop} {test test' : α → Prop} {l l' : List α}
  {o o' : Option α}

theorem isSome_iff (h : Best atLeast test l o) : o.isSome ↔ ∃ a ∈ l, test a := by
  rw [Option.isSome_iff_ne_none, ne_eq, h.none_iff]
  push Not
  rfl

theorem exists_of_mem (h : Best atLeast test l o) {a : α} (ha : a ∈ l) (htest : test a) :
    ∃ m, o = some m ∧ m ∈ l ∧ test m ∧ atLeast m a := by
  obtain ⟨m, hm⟩ := Option.isSome_iff_exists.mp (h.isSome_iff.mpr ⟨a, ha, htest⟩)
  obtain ⟨hmem, hpass, hbest⟩ := h.best m hm
  exact ⟨m, hm, hmem, hpass, hbest a ha htest⟩

theorem congr (h : Best atLeast test l o) (htest : ∀ a ∈ l, test a ↔ test' a)
    (hle : ∀ m ∈ l, ∀ a ∈ l, atLeast m a → atLeast' m a) : Best atLeast' test' l o where
  none_iff := by
    rw [h.none_iff]
    exact forall₂_congr fun a ha => not_congr (htest a ha)
  best m hm := by
    obtain ⟨hmem, hpass, hbest⟩ := h.best m hm
    exact ⟨hmem, (htest m hmem).mp hpass,
      fun a ha hpass' => hle m hmem a ha (hbest a ha ((htest a ha).mpr hpass'))⟩

/-- Two results among the same elements agree in everything that the order determines. -/
theorem map_eq (h : Best atLeast test l o) (h' : Best atLeast test l' o')
    (hmem : ∀ a, a ∈ l ↔ a ∈ l') (g : α → γ)
    (hg : ∀ m ∈ l, ∀ a ∈ l, atLeast m a → atLeast a m → g m = g a) : o.map g = o'.map g := by
  cases ho : o with
  | none =>
    have hnone : o' = none :=
      h'.none_iff.mpr fun a ha => h.none_iff.mp ho a ((hmem a).mpr ha)
    rw [hnone]
  | some m =>
    obtain ⟨hm, hpass, hbest⟩ := h.best m ho
    obtain ⟨m', ho', hm', hpass', hbest'⟩ := h'.exists_of_mem ((hmem m).mp hm) hpass
    have hm' := (hmem m').mpr hm'
    rw [ho', Option.map_some, Option.map_some, hg m hm m' hm' (hbest m' hm' hpass') hbest']

theorem map_eq_of_perm (h : Best atLeast test l o) (h' : Best atLeast test l' o')
    (hperm : l.Perm l') (g : α → γ) (hg : ∀ m a, atLeast m a → atLeast a m → g m = g a) :
    o.map g = o'.map g :=
  h.map_eq h' (fun _ => hperm.mem_iff) g fun m _ a _ => hg m a

end Best

section Folds

variable [LinearOrder β] {test : α → Bool}

/-- One step of a scan: an element that passes is kept if it is better than the one so far. -/
def keep (test : α → Bool) (better : α → α → Bool) (best : Option α) (a : α) : Option α :=
  if test a && best.all (better a) then some a else best

theorem keep_eq_argAux {better : α → α → Prop} [DecidableRel better] (best : Option α) (a : α) :
    keep test (fun a b => better a b) best a =
      if test a then List.argAux better best a else best := by
  cases best with
  | none => simp [keep, List.argAux]
  | some b =>
    by_cases h : better a b
    · simp [keep, List.argAux, h]
    · simp [keep, List.argAux, h]

/-- The scan for a greatest element. -/
theorem foldl_keep_greater (f : α → β) (test : α → Bool) (l : List α) :
    l.foldl (keep test fun a b => f b < f a) none = (l.filter test).argmax f := by
  rw [List.argmax, List.foldl_filter]
  exact congrArg (fun s => l.foldl s none) (funext₂ keep_eq_argAux)

/-- The scan for a least element. -/
theorem foldl_keep_less (f : α → β) (test : α → Bool) (l : List α) :
    l.foldl (keep test fun a b => f a < f b) none = (l.filter test).argmin f := by
  rw [List.argmin, List.foldl_filter]
  exact congrArg (fun s => l.foldl s none) (funext₂ keep_eq_argAux)

theorem best_argmax (f : α → β) (test : α → Bool) (l : List α) :
    Best (fun m a => f a ≤ f m) (test · = true) l ((l.filter test).argmax f) where
  none_iff := List.argmax_eq_none.trans List.filter_eq_nil_iff
  best m hm := by
    obtain ⟨hmem, hpass⟩ := List.mem_filter.mp (List.argmax_mem hm)
    exact ⟨hmem, hpass, fun a ha h => List.le_of_mem_argmax (List.mem_filter.mpr ⟨ha, h⟩) hm⟩

theorem best_argmin (f : α → β) (test : α → Bool) (l : List α) :
    Best (fun m a => f m ≤ f a) (test · = true) l ((l.filter test).argmin f) where
  none_iff := List.argmin_eq_none.trans List.filter_eq_nil_iff
  best m hm := by
    obtain ⟨hmem, hpass⟩ := List.mem_filter.mp (List.argmin_mem hm)
    exact ⟨hmem, hpass, fun a ha h => List.le_of_mem_argmin (List.mem_filter.mpr ⟨ha, h⟩) hm⟩

/-- The element found is the first one of the least: those in front of it are greater. -/
theorem argmin_split {f : α → β} {l : List α} {m : α} (h : (l.filter test).argmin f = some m) :
    ∃ front back, l = front ++ m :: back ∧ (∀ a ∈ front, test a → f m < f a) ∧
      ∀ a ∈ back, test a → f m ≤ f a := by
  induction l generalizing m with
  | nil => cases h
  | cons a l ih =>
    by_cases ha : test a = true
    · rw [List.filter_cons_of_pos ha, List.argmin_cons] at h
      have hrest := best_argmin f test l
      cases hfound : (l.filter test).argmin f with
      | none =>
        rw [hfound] at h
        obtain rfl := Option.some.inj h
        refine ⟨[], l, rfl, fun _ h => absurd h List.not_mem_nil, fun b hb hpass => ?_⟩
        exact absurd hpass (hrest.none_iff.mp hfound b hb)
      | some c =>
        rw [hfound] at h
        dsimp only at h
        by_cases hlt : f c < f a
        · rw [if_pos hlt] at h
          obtain rfl := Option.some.inj h
          obtain ⟨front, back, rfl, hfront, hback⟩ := ih hfound
          exact ⟨a :: front, back, rfl, List.forall_mem_cons.mpr ⟨fun _ => hlt, hfront⟩, hback⟩
        · rw [if_neg hlt] at h
          obtain rfl := Option.some.inj h
          refine ⟨[], l, rfl, fun _ h => absurd h List.not_mem_nil, fun b hb hpass => ?_⟩
          exact (not_lt.mp hlt).trans ((hrest.best c hfound).2.2 b hb hpass)
    · rw [List.filter_cons_of_neg ha] at h
      obtain ⟨front, back, rfl, hfront, hback⟩ := ih h
      exact ⟨a :: front, back, rfl,
        List.forall_mem_cons.mpr ⟨fun hpass => absurd hpass ha, hfront⟩, hback⟩

end Folds

end Scan
