/-
Facts about lists used as tables: replacing an entry and looking entries up, and the first hit of
a walk that carries a state along the list.
-/
import Mathlib.Data.List.Basic

namespace Prog

variable {α β : Type}

/-- Replacing an entry by one with the same image does not change the images. -/
theorem map_set_getD {f : α → β} {xs : List α} {i : ℕ} {d x : α} (h : f x = f (xs.getD i d)) :
    (xs.set i x).map f = xs.map f := by
  refine List.ext_getElem? fun j => ?_
  rw [List.map_set, List.getElem?_set, List.getElem?_map, List.length_map]
  by_cases hij : i = j
  · subst hij
    by_cases hi : i < xs.length
    · rw [if_pos rfl, if_pos hi, h, List.getD_eq_getElem?_getD, List.getElem?_eq_getElem hi]
      rfl
    · rw [if_pos rfl, if_neg hi, List.getElem?_eq_none (by omega)]
      rfl
  · rw [if_neg hij]

/-- Lists with the same images have corresponding elements. -/
theorem exists_mem_of_map_eq {γ : Type} {f : α → γ} {g : β → γ} {xs : List α} {ys : List β}
    (h : xs.map f = ys.map g) {x : α} (hx : x ∈ xs) : ∃ y ∈ ys, g y = f x := by
  have hm : f x ∈ ys.map g := h ▸ List.mem_map_of_mem hx
  exact List.mem_map.mp hm

/-- A search that looks at the images only finds elements with the same image. -/
theorem find?_of_map_eq {γ : Type} {f : α → γ} {q : γ → Bool} {xs ys : List α}
    (h : xs.map f = ys.map f) :
    (xs.find? fun x => q (f x)).map f = (ys.find? fun y => q (f y)).map f := by
  have hfind := congrArg (List.find? q) h
  rwa [List.find?_map, List.find?_map] at hfind

/-- A list around one of its elements. -/
theorem exists_split_of_getElem? {xs : List α} {i : ℕ} {x : α} (h : xs[i]? = some x) :
    ∃ before after, xs = before ++ x :: after ∧ (∀ y, xs.set i y = before ++ y :: after) ∧
      xs.eraseIdx i = before ++ after ∧ ∀ y ∈ before ++ after, ∃ j, j ≠ i ∧ xs[j]? = some y := by
  obtain ⟨hi, rfl⟩ := List.getElem?_eq_some_iff.mp h
  refine ⟨xs.take i, xs.drop (i + 1), ?_, fun y => ?_, List.eraseIdx_eq_take_drop_succ ..,
    fun y hy => ?_⟩
  · rw [List.getElem_cons_drop, List.take_append_drop]
  · rw [List.set_eq_take_append_cons_drop, if_pos hi]
  · rcases List.mem_append.mp hy with hy | hy
    · obtain ⟨j, hj, rfl⟩ := List.mem_iff_getElem.mp hy
      rw [List.length_take] at hj
      refine ⟨j, by omega, ?_⟩
      rw [List.getElem_take, List.getElem?_eq_getElem]
    · obtain ⟨j, hj, rfl⟩ := List.mem_iff_getElem.mp hy
      rw [List.length_drop] at hj
      refine ⟨i + 1 + j, by omega, ?_⟩
      rw [List.getElem_drop, List.getElem?_eq_getElem]

/-- What holds of every element and the elements in front of it. -/
theorem forall_split_iff {xs : List α} {P : List α → α → Prop} :
    (∀ front x back, xs = front ++ x :: back → P front x) ↔
      ∀ i, ∀ h : i < xs.length, P (xs.take i) xs[i] := by
  constructor
  · intro hall i h
    refine hall (xs.take i) xs[i] (xs.drop (i + 1)) ?_
    rw [List.getElem_cons_drop, List.take_append_drop]
  · rintro hall front x back rfl
    have hlt : front.length < (front ++ x :: back).length := by simp
    have hx := hall front.length hlt
    rwa [List.take_left, List.getElem_of_append rfl rfl] at hx

/-- Where an element of a list stands whose last element is given: it is the last one, or stands in
front of it. -/
theorem concat_eq_append_cons_iff {xs front back : List α} {u w : α} :
    xs ++ [u] = front ++ w :: back ↔
      (xs = front ∧ u = w ∧ back = []) ∨ ∃ t, back = t ++ [u] ∧ xs = front ++ w :: t := by
  constructor
  · intro h
    rcases List.eq_nil_or_concat' back with rfl | ⟨t, z, rfl⟩
    · obtain ⟨hfront, hw⟩ := List.append_inj' h rfl
      exact .inl ⟨hfront, (List.cons.inj hw).1, rfl⟩
    · rw [← List.cons_append, ← List.append_assoc] at h
      obtain ⟨hxs, hz⟩ := List.append_inj' h rfl
      rw [(List.cons.inj hz).1]
      exact .inr ⟨t, rfl, hxs⟩
  · rintro (⟨rfl, rfl, rfl⟩ | ⟨t, rfl, rfl⟩)
    · rfl
    · rw [List.append_assoc, List.cons_append]

/-- Two concatenations, of which one has the longer part for every element, are equal only
part by part. -/
theorem flatMap_eq_iff_of_length_le {f g : α → List β} {xs : List α}
    (hle : ∀ x ∈ xs, (g x).length ≤ (f x).length) :
    xs.flatMap f = xs.flatMap g ↔ ∀ x ∈ xs, f x = g x := by
  induction xs with
  | nil => simp
  | cons x xs ih =>
    obtain ⟨hx, hxs⟩ := List.forall_mem_cons.mp hle
    rw [List.flatMap_cons, List.flatMap_cons, List.forall_mem_cons, ← ih hxs]
    refine ⟨fun h => List.append_inj h ?_, fun h => by rw [h.1, h.2]⟩
    have hrest : (xs.flatMap g).length ≤ (xs.flatMap f).length := by
      clear h ih hle
      induction xs with
      | nil => exact Nat.le_refl _
      | cons y ys ih =>
        obtain ⟨hy, hys⟩ := List.forall_mem_cons.mp hxs
        rw [List.flatMap_cons, List.flatMap_cons, List.length_append, List.length_append]
        exact Nat.add_le_add hy (ih hys)
    have hlen := congrArg List.length h
    rw [List.length_append, List.length_append] at hlen
    omega

/-! ### The first hit of a walk -/

section FirstAlong

variable {σ : Type} {step : σ → α → σ} {hit : σ → α → Option β} {s : σ} {xs ys : List α} {b : β}

/-- The first result of `hit` along a list, in the state that `step` has reached there. -/
def firstAlong (step : σ → α → σ) (hit : σ → α → Option β) : σ → List α → Option β
  | _, [] => none
  | s, x :: xs => hit s x <|> firstAlong step hit (step s x) xs

theorem firstAlong_append : firstAlong step hit s (xs ++ ys) =
    (firstAlong step hit s xs <|> firstAlong step hit (xs.foldl step s) ys) := by
  induction xs generalizing s with
  | nil => rfl
  | cons x xs ih =>
    rw [List.cons_append, firstAlong, ih, firstAlong, List.foldl_cons]
    cases hit s x <;> rfl

/-- Elements that neither hit nor change the state are passed over. -/
theorem firstAlong_eq_none (h : ∀ x ∈ xs, hit s x = none ∧ step s x = s) :
    firstAlong step hit s xs = none ∧ xs.foldl step s = s := by
  induction xs with
  | nil => exact ⟨rfl, rfl⟩
  | cons x xs ih =>
    obtain ⟨⟨hx, hstep⟩, hxs⟩ := List.forall_mem_cons.mp h
    obtain ⟨hnone, hfold⟩ := ih hxs
    rw [firstAlong, hx, List.foldl_cons, hstep]
    exact ⟨hnone, hfold⟩

/-- The walk ends at an element that hits, with no hit before it. -/
theorem firstAlong_eq_some : firstAlong step hit s xs = some b ↔
    ∃ before x after, xs = before ++ x :: after ∧ hit (before.foldl step s) x = some b ∧
      ∀ front y back, before = front ++ y :: back → hit (front.foldl step s) y = none := by
  induction xs generalizing s with
  | nil => simp [firstAlong]
  | cons x xs ih =>
    rw [firstAlong]
    cases hx : hit s x with
    | some c =>
      constructor
      · intro h
        exact ⟨[], x, xs, rfl, hx.trans h, fun front y back hnil => by simp at hnil⟩
      · rintro ⟨before, y, after, heq, hy, hfirst⟩
        cases before with
        | nil =>
          obtain ⟨rfl, rfl⟩ := List.cons.inj heq
          exact hx.symm.trans hy
        | cons z before =>
          obtain ⟨rfl, -⟩ := List.cons.inj heq
          have hnone := hfirst [] x before rfl
          rw [List.foldl_nil, hx] at hnone
          cases hnone
    | none =>
      refine Iff.trans ih ⟨?_, ?_⟩
      · rintro ⟨before, y, after, rfl, hy, hfirst⟩
        refine ⟨x :: before, y, after, rfl, hy, fun front z back hsplit => ?_⟩
        cases front with
        | nil =>
          obtain ⟨rfl, -⟩ := List.cons.inj hsplit
          exact hx
        | cons w front =>
          obtain ⟨rfl, rfl⟩ := List.cons.inj hsplit
          exact hfirst front z back rfl
      · rintro ⟨before, y, after, heq, hy, hfirst⟩
        cases before with
        | nil =>
          obtain ⟨rfl, rfl⟩ := List.cons.inj heq
          rw [List.foldl_nil, hx] at hy
          cases hy
        | cons w before =>
          obtain ⟨rfl, rfl⟩ := List.cons.inj heq
          exact ⟨before, y, after, rfl, hy, fun front z back hsplit =>
            hfirst (x :: front) z back (by rw [hsplit, List.cons_append])⟩

/-- All results of `hit` along a list. -/
def hitsAlong (step : σ → α → σ) (hit : σ → α → Option β) : σ → List α → List β
  | _, [] => []
  | s, x :: xs => (hit s x).toList ++ hitsAlong step hit (step s x) xs

theorem hitsAlong_append : hitsAlong step hit s (xs ++ ys) =
    hitsAlong step hit s xs ++ hitsAlong step hit (xs.foldl step s) ys := by
  induction xs generalizing s with
  | nil => rfl
  | cons x xs ih =>
    rw [List.cons_append, hitsAlong, ih, hitsAlong, List.foldl_cons, List.append_assoc]

theorem hitsAlong_of_split {before after : List α} {x : α}
    (hx : hit (before.foldl step s) x = some b) :
    hitsAlong step hit s (before ++ x :: after) = hitsAlong step hit s before ++
      b :: hitsAlong step hit (step (before.foldl step s) x) after := by
  rw [hitsAlong_append, hitsAlong, hx]
  rfl

/-- Where a result comes from, and the results before it. -/
theorem exists_split_of_hitsAlong {front back : List β}
    (h : hitsAlong step hit s xs = front ++ b :: back) :
    ∃ before x after, xs = before ++ x :: after ∧ hit (before.foldl step s) x = some b ∧
      hitsAlong step hit s before = front := by
  induction xs generalizing s front with
  | nil =>
    rw [hitsAlong] at h
    cases front <;> cases h
  | cons x xs ih =>
    rw [hitsAlong] at h
    cases hx : hit s x with
    | none =>
      rw [hx, Option.toList_none, List.nil_append] at h
      obtain ⟨before, y, after, rfl, hy, hfront⟩ := ih h
      refine ⟨x :: before, y, after, rfl, hy, ?_⟩
      rw [hitsAlong, hx, hfront]
      rfl
    | some c =>
      rw [hx, Option.toList_some, List.singleton_append] at h
      cases front with
      | nil =>
        obtain ⟨rfl, -⟩ := List.cons.inj h
        exact ⟨[], x, xs, rfl, hx, rfl⟩
      | cons d front =>
        obtain ⟨rfl, hrest⟩ := List.cons.inj h
        obtain ⟨before, y, after, rfl, hy, hfront⟩ := ih hrest
        refine ⟨x :: before, y, after, rfl, hy, ?_⟩
        rw [hitsAlong, hx, hfront]
        rfl

end FirstAlong

end Prog
