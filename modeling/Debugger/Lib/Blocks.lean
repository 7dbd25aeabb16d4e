/-
A list cut into blocks at the elements that begin one.

The elements in front of the first beginning are the lead; every block is a beginning with the
elements up to the next one (`blocks`).  Lead and blocks make up the list (`lead_append_blocks`);
a block in front of a list without a lead is one of the blocks (`blocks_block`).
-/
import Mathlib.Data.List.TakeWhile

namespace Prog

/-- An element that begins a block, and the elements behind it. -/
structure Block (α : Type) where
  head : α
  body : List α
deriving DecidableEq

section Blocks

variable {α : Type} (starts : α → Bool)

/-- The elements in front of the first beginning. -/
def lead (xs : List α) : List α := xs.takeWhile fun x => !starts x

/-- The blocks of a list. -/
def blocks : List α → List (Block α)
  | [] => []
  | x :: xs => if starts x then ⟨x, lead starts xs⟩ :: blocks xs else blocks xs

variable {starts} {x : α} {xs ys : List α}

theorem lead_cons_start (h : starts x = true) : lead starts (x :: xs) = [] :=
  List.takeWhile_cons_of_neg (by simp [h])

theorem lead_cons_other (h : starts x = false) : lead starts (x :: xs) = x :: lead starts xs :=
  List.takeWhile_cons_of_pos (by simp [h])

theorem blocks_cons_start (h : starts x = true) :
    blocks starts (x :: xs) = ⟨x, lead starts xs⟩ :: blocks starts xs := if_pos h

theorem blocks_cons_other (h : starts x = false) : blocks starts (x :: xs) = blocks starts xs :=
  if_neg (by simp [h])

/-- Elements of which none begins a block are all lead. -/
theorem lead_append (h : ∀ x ∈ xs, starts x = false) :
    lead starts (xs ++ ys) = xs ++ lead starts ys :=
  List.takeWhile_append_of_pos fun x hx => by simp [h x hx]

theorem blocks_of_none (h : ∀ x ∈ xs, starts x = false) :
    blocks starts (xs ++ ys) = blocks starts ys := by
  induction xs with
  | nil => rfl
  | cons x xs ih =>
    obtain ⟨hx, hxs⟩ := List.forall_mem_cons.mp h
    rw [List.cons_append, blocks_cons_other hx, ih hxs]

/-- A block in front of a list without a lead. -/
theorem blocks_block (hx : starts x = true) (h : ∀ y ∈ xs, starts y = false)
    (hys : lead starts ys = []) :
    blocks starts (x :: xs ++ ys) = ⟨x, xs⟩ :: blocks starts ys := by
  rw [List.cons_append, blocks_cons_start hx, lead_append h, hys, List.append_nil,
    blocks_of_none h]

/-- A block as a list. -/
def Block.toList (b : Block α) : List α := b.head :: b.body

theorem lead_append_blocks : lead starts xs ++ (blocks starts xs).flatMap Block.toList = xs := by
  induction xs with
  | nil => rfl
  | cons x xs ih =>
    cases hx : starts x with
    | true =>
      rw [lead_cons_start hx, blocks_cons_start hx, List.nil_append, List.flatMap_cons, Block.toList,
        List.cons_append, ih]
    | false => rw [lead_cons_other hx, blocks_cons_other hx, List.cons_append, ih]

theorem not_starts_of_mem_lead (h : x ∈ lead starts xs) : starts x = false := by
  have hx := List.mem_takeWhile_imp h
  rwa [Bool.not_eq_true'] at hx

/-- Of a block only the head begins one. -/
theorem starts_of_mem_blocks {b : Block α} (h : b ∈ blocks starts xs) :
    starts b.head = true ∧ ∀ x ∈ b.body, starts x = false := by
  induction xs with
  | nil => exact absurd h List.not_mem_nil
  | cons x xs ih =>
    cases hx : starts x with
    | true =>
      rw [blocks_cons_start hx, List.mem_cons] at h
      rcases h with rfl | h
      · exact ⟨hx, fun y hy => not_starts_of_mem_lead hy⟩
      · exact ih h
    | false => exact ih (by rwa [blocks_cons_other hx] at h)

end Blocks

end Prog
