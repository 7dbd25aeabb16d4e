/-
Tables filled by index.

`place` puts an entry at an index of a table that may still be too short, with `pad` up to it.
Entries placed at increasing indices give the table that has them there and `pad` elsewhere
(`foldl_place`, `getElem?_tableFrom`).
-/
import Mathlib.Data.List.Basic

namespace Prog

variable {α : Type} {pad : α}

/-- The table, brought to at least the given length. -/
def padTo (pad : α) (n : ℕ) (xs : List α) : List α := xs ++ List.replicate (n - xs.length) pad

/-- Put an entry at an index. -/
def place (pad : α) (xs : List α) (entry : ℕ × α) : List α :=
  (padTo pad (entry.1 + 1) xs).set entry.1 entry.2

/-- The table of the entries at indices from `n` on, without the first `n` places. -/
def tableFrom (pad : α) : ℕ → List (ℕ × α) → List α
  | _, [] => []
  | n, (i, a) :: entries => List.replicate (i - n) pad ++ a :: tableFrom pad (i + 1) entries

/-- The table that has the entries at their indices and `pad` at the others. -/
def tableOf (pad : α) (entries : List (ℕ × α)) : List α := tableFrom pad 0 entries

theorem length_padTo {n : ℕ} {xs : List α} (h : xs.length ≤ n) : (padTo pad n xs).length = n := by
  rw [padTo, List.length_append, List.length_replicate]
  omega

/-- Behind the end, what is in between is filled up. -/
theorem place_of_length_le {xs : List α} {i : ℕ} {a : α} (h : xs.length ≤ i) :
    place pad xs (i, a) = xs ++ (List.replicate (i - xs.length) pad ++ [a]) := by
  have hlen : i - (xs ++ List.replicate (i - xs.length) pad).length = 0 := by
    rw [List.length_append, List.length_replicate]
    omega
  rw [place, padTo, show i + 1 - xs.length = i - xs.length + 1 from by omega,
    List.replicate_succ', ← List.append_assoc, List.set_append_right _ _ (by
      rw [List.length_append, List.length_replicate]
      omega), hlen, List.set_cons_zero, List.append_assoc]

theorem length_place {xs : List α} {i : ℕ} {a : α} (h : xs.length ≤ i) :
    (place pad xs (i, a)).length = i + 1 := by
  rw [place, List.length_set, length_padTo (by omega)]

/-- Placing entries one behind the other builds their table. -/
theorem foldl_place {entries : List (ℕ × α)} : ∀ {xs : List α},
    (entries.map Prod.fst).Pairwise (· < ·) → (∀ entry ∈ entries, xs.length ≤ entry.1) →
    entries.foldl (place pad) xs = xs ++ tableFrom pad xs.length entries := by
  induction entries with
  | nil =>
    intro xs _ _
    rw [List.foldl_nil, tableFrom, List.append_nil]
  | cons entry entries ih =>
    intro xs hinc hlen
    obtain ⟨i, a⟩ := entry
    obtain ⟨hfirst, hinc⟩ := List.pairwise_cons.mp hinc
    have hi : xs.length ≤ i := hlen (i, a) List.mem_cons_self
    have hnext : (xs ++ (List.replicate (i - xs.length) pad ++ [a])).length = i + 1 := by
      rw [← place_of_length_le hi, length_place hi]
    rw [List.foldl_cons, place_of_length_le hi, ih hinc fun entry hentry => ?_, hnext, tableFrom]
    · simp only [List.append_assoc, List.singleton_append]
    · rw [hnext]
      exact hfirst entry.1 (List.mem_map_of_mem hentry)

/-- An empty table is filled to the table of the entries. -/
theorem foldl_place_nil {entries : List (ℕ × α)} (h : (entries.map Prod.fst).Pairwise (· < ·)) :
    entries.foldl (place pad) [] = tableOf pad entries := by
  rw [foldl_place h fun _ _ => Nat.zero_le _, List.nil_append, List.length_nil, tableOf]

/-- The table has an entry at its index. -/
theorem getElem?_tableFrom {entries : List (ℕ × α)} {i : ℕ} {a : α} : ∀ {n : ℕ},
    (entries.map Prod.fst).Pairwise (· < ·) → (∀ entry ∈ entries, n ≤ entry.1) →
    (i, a) ∈ entries → (tableFrom pad n entries)[i - n]? = some a := by
  induction entries with
  | nil => exact fun _ _ h => absurd h List.not_mem_nil
  | cons entry entries ih =>
    intro n hinc hle hmem
    obtain ⟨j, b⟩ := entry
    obtain ⟨hfirst, hinc⟩ := List.pairwise_cons.mp hinc
    have hj : n ≤ j := hle (j, b) List.mem_cons_self
    rw [tableFrom]
    rcases List.mem_cons.mp hmem with heq | hmem
    · obtain ⟨rfl, rfl⟩ := Prod.mk.inj heq
      rw [List.getElem?_append_right (Nat.le_of_eq List.length_replicate),
        List.length_replicate, Nat.sub_self, List.getElem?_cons_zero]
    · have hlt : j < i := hfirst i (List.mem_map_of_mem hmem)
      rw [List.getElem?_append_right (by rw [List.length_replicate]; omega),
        List.length_replicate, show i - n - (j - n) = i - (j + 1) + 1 from by omega,
        List.getElem?_cons_succ]
      exact ih hinc (fun entry hentry => hfirst entry.1 (List.mem_map_of_mem hentry)) hmem

theorem getElem?_tableOf {entries : List (ℕ × α)} {i : ℕ} {a : α}
    (h : (entries.map Prod.fst).Pairwise (· < ·)) (hmem : (i, a) ∈ entries) :
    (tableOf pad entries)[i]? = some a :=
  getElem?_tableFrom h (fun _ _ => Nat.zero_le _) hmem

end Prog
