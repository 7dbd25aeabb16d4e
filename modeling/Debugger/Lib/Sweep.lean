/-
Linear sweeps.

A sweep goes through a sequence from its start and cuts off one piece after the other; how long
a piece is depends on where it begins.  The pieces tile what they cover: each begins where the
one before ends, and none is empty (`Tiles`).  A sweep whose pieces neither are empty nor go
past the end tiles the sequence, or as much of it as its rounds allow (`tiles_sweep`).
-/
import Mathlib.Data.List.Basic
import Mathlib.Data.List.Pairwise

namespace Prog

/-- The pieces, each given by its first position and its length, lie one behind the other from
`lo` to `hi`, and none is empty. -/
inductive Tiles : ℕ → ℕ → List (ℕ × ℕ) → Prop
  | nil {lo : ℕ} : Tiles lo lo []
  | cons {lo hi n : ℕ} {pieces : List (ℕ × ℕ)} :
      0 < n → Tiles (lo + n) hi pieces → Tiles lo hi ((lo, n) :: pieces)

/-- The position lies in the piece. -/
def InPiece (x : ℕ) (piece : ℕ × ℕ) : Prop := piece.1 ≤ x ∧ x < piece.1 + piece.2

/-- At most `rounds` pieces from `lo` on, up to the end of a sequence; `len p` is the length of
the piece at `p`. -/
def sweep (size : ℕ) (len : ℕ → ℕ) : ℕ → ℕ → List (ℕ × ℕ)
  | 0, _ => []
  | rounds + 1, lo =>
    if lo < size then (lo, len lo) :: sweep size len rounds (lo + len lo) else []

section Tiles

variable {α : Type*} {lo hi x : ℕ} {pieces : List (ℕ × ℕ)} {piece : ℕ × ℕ}

/-- There are no more pieces than positions. -/
theorem Tiles.length_le (h : Tiles lo hi pieces) : lo + pieces.length ≤ hi := by
  induction h with
  | nil => exact Nat.le_refl _
  | cons hn _ ih =>
    rw [List.length_cons]
    omega

theorem Tiles.bounds (h : Tiles lo hi pieces) (hmem : piece ∈ pieces) :
    lo ≤ piece.1 ∧ 0 < piece.2 ∧ piece.1 + piece.2 ≤ hi := by
  induction h with
  | nil => exact absurd hmem List.not_mem_nil
  | cons hn htiles ih =>
    have hle := htiles.length_le
    rcases List.mem_cons.mp hmem with rfl | hmem
    · exact ⟨Nat.le_refl _, hn, Nat.le_trans (Nat.le_add_right _ _) hle⟩
    · obtain ⟨hlo, hrest⟩ := ih hmem
      exact ⟨Nat.le_trans (Nat.le_add_right _ _) hlo, hrest⟩

/-- No two pieces overlap. -/
theorem Tiles.pairwise (h : Tiles lo hi pieces) :
    pieces.Pairwise fun a b => a.1 + a.2 ≤ b.1 := by
  induction h with
  | nil => exact List.Pairwise.nil
  | cons _ htiles ih => exact List.pairwise_cons.mpr ⟨fun _ hb => (htiles.bounds hb).1, ih⟩

/-- Every position lies in one piece. -/
theorem Tiles.existsUnique (h : Tiles lo hi pieces) (hlo : lo ≤ x) (hhi : x < hi) :
    ∃! piece, piece ∈ pieces ∧ InPiece x piece := by
  induction h with
  | nil => exact absurd hhi (Nat.not_lt.mpr hlo)
  | @cons lo hi n pieces hn htiles ih =>
    by_cases hx : x < lo + n
    · refine ⟨(lo, n), ⟨List.mem_cons_self, hlo, hx⟩, ?_⟩
      rintro piece ⟨hmem, hin⟩
      rcases List.mem_cons.mp hmem with rfl | hmem
      · rfl
      · -- a piece behind the first one begins behind `x`
        have hbehind := (htiles.bounds hmem).1
        exact absurd hin.1 (by omega)
    · obtain ⟨piece, ⟨hmem, hin⟩, hunique⟩ := ih (Nat.not_lt.mp hx) hhi
      refine ⟨piece, ⟨List.mem_cons_of_mem _ hmem, hin⟩, ?_⟩
      rintro other ⟨hother, hinOther⟩
      rcases List.mem_cons.mp hother with rfl | hother
      · exact absurd hinOther.2 hx
      · exact hunique other ⟨hother, hinOther⟩

/-- What lies in the pieces, one behind the other, is what lies between the ends. -/
theorem Tiles.flatMap_range (h : Tiles lo hi pieces) (data : ℕ → α) :
    pieces.flatMap (fun piece => (List.range piece.2).map fun i => data (piece.1 + i)) =
      (List.range (hi - lo)).map fun i => data (lo + i) := by
  induction h with
  | nil => simp
  | @cons lo hi n pieces hn htiles ih =>
    have hle := htiles.length_le
    have hsplit : hi - lo = n + (hi - (lo + n)) := by omega
    rw [List.flatMap_cons, ih, hsplit, List.range_add, List.map_append, List.map_map]
    simp only [Function.comp_def, Nat.add_assoc]

end Tiles

section Sweep

variable {size : ℕ} {len : ℕ → ℕ}

/-- The pieces of a sweep tile the sequence from where it begins; it ends with the sequence or
with its rounds. -/
theorem tiles_sweep (hlen : ∀ p < size, 0 < len p ∧ p + len p ≤ size) :
    ∀ {rounds lo : ℕ}, lo ≤ size → ∃ hi ≤ size, Tiles lo hi (sweep size len rounds lo) ∧
      (hi = size ∨ (sweep size len rounds lo).length = rounds) := by
  intro rounds
  induction rounds with
  | zero => exact fun {lo} hlo => ⟨lo, hlo, .nil, .inr rfl⟩
  | succ rounds ih =>
    intro lo hlo
    rw [sweep]
    split
    case isTrue hlt =>
      obtain ⟨hpos, hle⟩ := hlen lo hlt
      obtain ⟨hi, hhi, htiles, hend⟩ := ih hle
      exact ⟨hi, hhi, .cons hpos htiles, hend.imp_right (congrArg (· + 1))⟩
    case isFalse hge => exact ⟨lo, hlo, .nil, .inl (by omega)⟩

end Sweep

end Prog
