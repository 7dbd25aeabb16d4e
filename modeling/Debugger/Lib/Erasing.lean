/-
Erasing several positions of a list.

Erasing one position moves the elements behind it to the front by one.  From the back to the
front the positions still to be erased stay what they are (`foldl_eraseIdx`), so the list
without the positions is what is left.
-/
import Mathlib.Data.List.Basic

namespace Prog

section Erasing

variable {α : Type*} {xs ys : List α} {gone gone' : List ℕ}

/-- The elements at positions from `n` on, without those at the given positions. -/
def withoutFrom (gone : List ℕ) : ℕ → List α → List α
  | _, [] => []
  | n, x :: xs => if n ∈ gone then withoutFrom gone (n + 1) xs else x :: withoutFrom gone (n + 1) xs

/-- The list without the elements at the given positions. -/
def without (gone : List ℕ) (xs : List α) : List α := withoutFrom gone 0 xs

/-- An element stays in its place among the others. -/
theorem withoutFrom_append {n : ℕ} : withoutFrom gone n (xs ++ ys) =
    withoutFrom gone n xs ++ withoutFrom gone (n + xs.length) ys := by
  induction xs generalizing n with
  | nil => rfl
  | cons x xs ih =>
    rw [List.cons_append, withoutFrom, withoutFrom, ih, List.length_cons,
      Nat.add_right_comm, Nat.add_assoc]
    split <;> rfl

/-- Only the positions that occur count. -/
theorem withoutFrom_congr {n : ℕ}
    (h : ∀ i, n ≤ i → i < n + xs.length → (i ∈ gone ↔ i ∈ gone')) :
    withoutFrom gone n xs = withoutFrom gone' n xs := by
  induction xs generalizing n with
  | nil => rfl
  | cons x xs ih =>
    rw [List.length_cons] at h
    have hn : n ∈ gone ↔ n ∈ gone' := h n (Nat.le_refl n) (by omega)
    have hrest := ih (n := n + 1) fun i hi hlt => h i (by omega) (by omega)
    simp only [withoutFrom, hn, hrest]

/-- Without a position the list is as it was. -/
theorem withoutFrom_of_lt {n : ℕ} (h : ∀ i ∈ gone, i < n) : withoutFrom gone n xs = xs := by
  induction xs generalizing n with
  | nil => rfl
  | cons x xs ih =>
    rw [withoutFrom, if_neg fun hn => Nat.lt_irrefl n (h n hn),
      ih fun i hi => Nat.lt_succ_of_lt (h i hi)]

theorem without_congr (h : ∀ i, i < xs.length → (i ∈ gone ↔ i ∈ gone')) :
    without gone xs = without gone' xs :=
  withoutFrom_congr fun i _ hlt => h i (by rwa [Nat.zero_add] at hlt)

/-- Erasing a position behind which none is left to be erased. -/
theorem without_eraseIdx {i : ℕ} (h : ∀ j ∈ gone, j < i) (hi : i < xs.length) :
    without gone (xs.eraseIdx i) = without (i :: gone) xs := by
  obtain ⟨front, x, back, rfl, hlen⟩ : ∃ front x back, xs = front ++ x :: back ∧
      front.length = i := by
    refine ⟨xs.take i, xs[i], xs.drop (i + 1), ?_, by rw [List.length_take]; omega⟩
    rw [← List.drop_eq_getElem_cons hi, List.take_append_drop]
  subst hlen
  have herase : (front ++ x :: back).eraseIdx front.length = front ++ back := by
    rw [List.eraseIdx_append_of_length_le (Nat.le_refl _), Nat.sub_self]
    rfl
  have hfront : withoutFrom gone 0 front = withoutFrom (front.length :: gone) 0 front := by
    refine withoutFrom_congr fun j _ hj => ?_
    rw [List.mem_cons, or_iff_right (by omega)]
  have hback : withoutFrom gone front.length back =
      withoutFrom (front.length :: gone) (front.length + 1) back := by
    rw [withoutFrom_of_lt h, withoutFrom_of_lt fun j hj => ?_]
    rcases List.mem_cons.mp hj with rfl | hj
    · exact Nat.lt_succ_self _
    · exact Nat.lt_succ_of_lt (h j hj)
  rw [herase, without, without, withoutFrom_append, withoutFrom_append, Nat.zero_add, hfront,
    hback, withoutFrom, if_pos List.mem_cons_self]

theorem without_nil : without [] xs = xs := withoutFrom_of_lt fun _ h => absurd h List.not_mem_nil

theorem withoutFrom_map {β : Type*} {f : α → β} {n : ℕ} :
    withoutFrom gone n (xs.map f) = (withoutFrom gone n xs).map f := by
  induction xs generalizing n with
  | nil => rfl
  | cons x xs ih =>
    rw [List.map_cons, withoutFrom, withoutFrom, ih]
    split <;> rfl

theorem without_map {β : Type*} {f : α → β} : without gone (xs.map f) = (without gone xs).map f :=
  withoutFrom_map

/-- Erasing positions from the back to the front. -/
theorem foldl_eraseIdx (hdesc : gone.Pairwise (· > ·)) (hlt : ∀ i ∈ gone, i < xs.length) :
    gone.foldl List.eraseIdx xs = without gone xs := by
  induction gone generalizing xs with
  | nil => exact without_nil.symm
  | cons i gone ih =>
    obtain ⟨hbelow, hdesc⟩ := List.pairwise_cons.mp hdesc
    have hi := hlt i List.mem_cons_self
    rw [List.foldl_cons, ih hdesc fun j hj => ?_, without_eraseIdx hbelow hi]
    have hj := hbelow j hj
    rw [List.length_eraseIdx_of_lt hi]
    omega

end Erasing

end Prog
