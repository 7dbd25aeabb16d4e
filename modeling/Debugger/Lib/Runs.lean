/-
Runs of a list: its maximal parts in which each element is related to the one in front of it
(`List.splitBy`).

`runHeads` takes the first element of each run.  A loop finds it by comparing each element with the
last one it has seen (`headsAfter`, `runHeads_eq`).
-/
import Mathlib.Data.List.SplitBy

namespace Prog

variable {α : Type*} {r : α → α → Bool}

/-- The first elements of the runs. -/
def runHeads (r : α → α → Bool) (l : List α) : List α := (l.splitBy r).filterMap List.head?

/-- The elements that are not related to the one in front of them; in front of the list is the
element that is given. -/
def headsAfter (r : α → α → Bool) : Option α → List α → List α
  | _, [] => []
  | none, a :: l => a :: headsAfter r (some a) l
  | some b, a :: l => if r b a then headsAfter r (some a) l else a :: headsAfter r (some a) l

/-- The runs that `splitBy` has collected, and the one it is in. -/
theorem filterMap_splitByLoop (l : List α) (a : α) (g : List α) (gs : List (List α)) :
    (List.splitBy.loop r l a g gs).filterMap List.head? =
      gs.reverse.filterMap List.head? ++ ((g.reverse ++ [a]).head?.toList ++
        headsAfter r (some a) l) := by
  induction l generalizing a g gs with
  | nil => simp [List.splitBy.loop, headsAfter]
  | cons b l ih =>
    rw [List.splitBy.loop, headsAfter]
    cases hr : r a b with
    | true =>
      -- the run goes on, and its first element stays
      have hhead : ((a :: g).reverse ++ [b]).head? = (g.reverse ++ [a]).head? := by
        cases hg : g.reverse <;> simp [hg]
      dsimp only
      rw [ih, hhead, if_pos rfl]
    | false =>
      dsimp only
      rw [ih, if_neg Bool.false_ne_true]
      simp

/-- Comparing each element with the one in front of it finds the first elements of the runs. -/
theorem runHeads_eq (l : List α) : runHeads r l = headsAfter r none l := by
  cases l with
  | nil => rfl
  | cons a l =>
    rw [runHeads, List.splitBy, filterMap_splitByLoop, headsAfter]
    rfl

theorem headsAfter_sublist (o : Option α) (l : List α) : (headsAfter r o l).Sublist l := by
  induction l generalizing o with
  | nil => exact List.Sublist.refl _
  | cons a l ih =>
    cases o with
    | none => exact (ih _).cons_cons a
    | some b =>
      rw [headsAfter]
      split
      · exact (ih _).cons a
      · exact (ih _).cons_cons a

theorem runHeads_sublist (l : List α) : (runHeads r l).Sublist l := by
  rw [runHeads_eq]
  exact headsAfter_sublist none l

end Prog
