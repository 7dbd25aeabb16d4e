/-
Deleting breakpoints: the order in which `del` deletes, and the rules of `cmd_del` and
`delete_breakpoint_at`.

Each pass of the exchange sort brings the largest remaining number to the front.  So the
numbers are deleted in descending order (`deletionOrder_descending`), and a deletion does
not move the entries that are still to be deleted.
-/
import Debugger.Prompt
import Mathlib.Data.List.Perm.Basic

open Prog

namespace Debugger

/-! ### The exchange sort -/

theorem exchangePass_perm (x : ℕ) (ys : List ℕ) :
    ((exchangePass x ys).1 :: (exchangePass x ys).2).Perm (x :: ys) := by
  induction ys generalizing x with
  | nil => exact List.Perm.refl _
  | cons y ys ih =>
    rw [exchangePass]
    split
    · exact (List.Perm.swap _ _ _).trans ((ih y).cons x)
    · exact (List.Perm.swap _ _ _).trans (((ih x).cons y).trans (List.Perm.swap _ _ _))

/-- A pass finds the largest number. -/
theorem exchangePass_max (x : ℕ) (ys : List ℕ) : ∀ z ∈ x :: ys, z ≤ (exchangePass x ys).1 := by
  induction ys generalizing x with
  | nil => exact fun z hz => Nat.le_of_eq (List.mem_singleton.mp hz)
  | cons y ys ih =>
    intro z hz
    rw [exchangePass]
    split
    · next hlt =>
      rcases List.mem_cons.mp hz with rfl | hz
      · have hy := ih y y (by simp)
        dsimp only
        omega
      · exact ih y z hz
    · next hge =>
      rcases List.mem_cons.mp hz with rfl | hz
      · exact ih z z (by simp)
      · rcases List.mem_cons.mp hz with rfl | hz
        · have hx := ih x x (by simp)
          dsimp only
          omega
        · exact ih x z (by simp [hz])

theorem sortDescending_perm (fuel : ℕ) (xs : List ℕ) : (sortDescending fuel xs).Perm xs := by
  induction fuel generalizing xs with
  | zero => exact List.Perm.refl _
  | succ fuel ih =>
    cases xs with
    | nil => exact List.Perm.refl _
    | cons x xs => exact ((ih _).cons _).trans (exchangePass_perm x xs)

theorem sortDescending_sorted {fuel : ℕ} {xs : List ℕ} (h : xs.length ≤ fuel) :
    (sortDescending fuel xs).Pairwise (· ≥ ·) := by
  induction fuel generalizing xs with
  | zero =>
    rw [List.length_eq_zero_iff.mp (Nat.le_zero.mp h)]
    exact List.Pairwise.nil
  | succ fuel ih =>
    cases xs with
    | nil => exact List.Pairwise.nil
    | cons x xs =>
      have hperm := exchangePass_perm x xs
      have hlen := hperm.length_eq
      simp only [List.length_cons] at hlen h
      refine List.Pairwise.cons (fun z hz => ?_) (ih (by omega))
      have hz : z ∈ (exchangePass x xs).2 := (sortDescending_perm fuel _).mem_iff.mp hz
      exact exchangePass_max x xs z (hperm.mem_iff.mp (List.mem_cons_of_mem _ hz))

/-! ### The numbers of `del` -/

theorem parseIndices_nodup {count : ℕ} {tokens : List CStr} {indices order : List ℕ}
    (h : parseIndices count (fun xs n => xs ++ [n]) tokens indices = some order)
    (hnodup : indices.Nodup) : order.Nodup := by
  induction tokens generalizing indices with
  | nil =>
    obtain rfl := Option.some.inj h
    exact hnodup
  | cons token tokens ih =>
    rw [parseIndices] at h
    split at h
    · exact absurd h (by simp)
    · next number _ =>
      split at h
      · exact absurd h (by simp)
      · split at h
        · exact ih h hnodup
        · next hnew =>
          refine ih h (List.nodup_append'.mpr ⟨hnodup, by simp, ?_⟩)
          exact List.disjoint_singleton.mpr hnew

/-- `del` deletes in descending order. -/
theorem deletionOrder_descending {count : ℕ} {args : CStr} {order : List ℕ}
    (h : deletionOrder count (fun xs n => xs ++ [n]) args = some order) :
    order.Pairwise (· > ·) := by
  rw [deletionOrder] at h
  split at h
  · obtain rfl := Option.some.inj h
    rw [List.pairwise_reverse]
    exact List.pairwise_lt_range
  · obtain ⟨indices, hparse, rfl⟩ := Option.map_eq_some_iff.mp h
    have hnodup : (sortDescending indices.length indices).Nodup :=
      (sortDescending_perm _ _).nodup_iff.mpr (parseIndices_nodup hparse List.nodup_nil)
    refine ((sortDescending_sorted (Nat.le_refl _)).and hnodup).imp fun hab => ?_
    exact Nat.lt_of_le_of_ne hab.1 (Ne.symm hab.2)

/-! ### The commands -/

section Rules

variable {s : Sys} {Q : Int → Sys → Prop}

/-- The table without an entry. -/
def Sys.erased (s : Sys) (i : ℕ) : Sys :=
  s.withDbg { s.dbg with breakpoints := s.dbg.breakpoints.eraseIdx i }

theorem wp_deleteBreakpointAt {i : ℕ}
    (hfail : ∀ s', s.Quiet s' → (∀ bp, s.dbg.breakpoints[i]? = some bp → s.dbg.live = true ∧
      (s.Reliable .memWrite → s.process s.dbg.pid = none)) → Q (-1) s')
    (hoff : ∀ bp, s.dbg.breakpoints[i]? = some bp → (s.dbg.live = true → bp.enabled = false) →
      Q 0 (s.erased i))
    (hon : ∀ bp p s', s.dbg.breakpoints[i]? = some bp → bp.enabled = true →
      s.process s.dbg.pid = some p →
      ((s.wrote p bp.addr [bp.savedByte]).erased i).Quiet s' → Q 0 s') :
    wp (deleteBreakpointAt i) Q s := by
  rw [deleteBreakpointAt, wp_bind, wp_get]
  dsimp only
  cases hbp : s.dbg.breakpoints[i]? with
  | none => exact hfail s (.refl s) fun bp h => absurd (hbp.symm.trans h) (by simp)
  | some bp =>
    dsimp only
    rw [wp_bind, disableIfLive, wp_ite]
    refine ⟨fun hlive => ?_, fun hdead => ?_⟩
    · refine wp_cdbgBpDisable (fun hbpoff => ?_) (fun hbpon s₁ hq hnone => ?_)
        fun hbpon p s₁ hp hq => ?_
      · show wp (if (0 : Int) ≠ 0 then _ else _) _ _
        rw [wp_ite]
        exact ⟨fun h => absurd rfl h, fun _ => hoff bp hbp fun _ => hbpoff⟩
      · show wp (if (-1 : Int) ≠ 0 then _ else _) _ _
        rw [wp_ite]
        exact ⟨fun _ => hfail s₁ hq fun _ _ => ⟨hlive, hnone⟩, fun h => absurd neg_one_ne h⟩
      · show wp (if (0 : Int) ≠ 0 then _ else _) _ _
        rw [wp_ite]
        refine ⟨fun h => absurd rfl h, fun _ => ?_⟩
        obtain ⟨n, rfl⟩ := hq
        exact hon bp p _ hbp hbpon hp ⟨n, rfl⟩
    · rw [wp_pure]
      show wp (if (0 : Int) ≠ 0 then _ else _) _ _
      rw [wp_ite]
      exact ⟨fun h => absurd rfl h, fun _ => hoff bp hbp fun hlive => absurd hlive hdead⟩

/-- `del`: `J` tracks the numbers still to be deleted, all below the one that is deleted. -/
theorem wp_cmdDel {args : Option CStr} {J : List ℕ → Sys → Prop} (hnop : ∀ rc, Q rc s)
    (hstart : ∀ text order, args = some text →
      deletionOrder s.dbg.breakpoints.length (fun xs n => xs ++ [n]) (trimSpace text) = some order →
      J order s)
    (hstep : ∀ i rest s', (∀ j ∈ rest, j < i) → J (i :: rest) s' →
      wp (deleteBreakpointAt i) (fun rc s'' => (rc = 0 → J rest s'') ∧ (rc ≠ 0 → Q rc s'')) s')
    (hend : ∀ s', J [] s' → Q 0 s') : wp (cmdDel args) Q s := by
  rw [cmdDel, wp_bind, wp_get, wp_ite]
  refine ⟨fun _ => hnop 0, fun _ => ?_⟩
  cases args with
  | none => exact hnop (-1)
  | some text =>
    rw [Option.map_some]
    split
    · exact hnop (-1)
    · exact hnop (-1)
    · next text' heq =>
      obtain rfl := Option.some.inj heq
      split
      · exact hnop (-1)
      · next order horder =>
        have hloop := wp_forUntil (f := deleteBreakpointAt)
          (I := fun rest s' => rest.Pairwise (· > ·) ∧ J rest s') (E := Q)
          (fun i rest s' h => ?_) ⟨deletionOrder_descending horder, hstart text order rfl horder⟩
        · refine wp_mono hloop fun rc s' h => ?_
          by_cases hrc : rc = 0
          · rw [hrc]
            exact hend s' (h.1 hrc).2
          · exact h.2 hrc
        · obtain ⟨hbelow, hrest⟩ := List.pairwise_cons.mp h.1
          exact wp_mono (hstep i rest s' (fun j hj => hbelow j hj) h.2) fun rc s'' h' =>
            ⟨fun hrc => ⟨hrest, h'.1 hrc⟩, h'.2⟩

end Rules

end Debugger
