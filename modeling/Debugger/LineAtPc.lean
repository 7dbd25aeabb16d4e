/-
The line of a pc (`cdbg_lineno_line_at_pc`) on a table that is one DWARF sequence.

The nearest row at or below the pc is the row whose range the pc is in
(`IsSequence.lookupPc_eq`), whatever the slide.  The second scan of `lineno_entry_at_pc`
starts from a cut-off 128 bytes after that row and can only lower it to the end of the
row's range, so it is the cut-off that decides (`lineAtPc_of_sequence`).
-/
import Debugger.Lineno
import Mathlib.Data.List.Induction

namespace Debugger

/-- The rows of one sequence, the last one being its end. -/
structure IsSequence (rows : List LineEntry) : Prop where
  sorted : rows.Pairwise (·.address < ·.address)
  line_ne_zero : ∀ e ∈ rows, e.line ≠ 0
  file_fits : ∀ e ∈ rows, e.file.length < maxFile

namespace Lineno

variable {ln : Lineno} {pc : Addr} {e : LineEntry}

/-- One step of the scan of `cdbg_lineno_lookup_pc`. -/
def nearer (ln : Lineno) (pc : Addr) (best : Option LineEntry) (entry : LineEntry) :
    Option LineEntry :=
  let addr := ln.runtimeAddr entry.address
  if addr ≤ pc then
    match best with
    | none => some entry
    | some b => if addr > ln.runtimeAddr b.address then some entry else best
  else best

/-- `best` is a row with the greatest runtime address at or below the pc. -/
structure Nearest (ln : Lineno) (pc : Addr) (rows : List LineEntry) (best : Option LineEntry) :
    Prop where
  row : ∀ b, best = some b → b ∈ rows ∧ ln.runtimeAddr b.address ≤ pc
  greatest : ∀ e ∈ rows, ln.runtimeAddr e.address ≤ pc →
    ∃ b, best = some b ∧ ln.runtimeAddr e.address ≤ ln.runtimeAddr b.address

theorem Nearest.step {rows : List LineEntry} {best : Option LineEntry}
    (h : Nearest ln pc rows best) (entry : LineEntry) :
    Nearest ln pc (rows ++ [entry]) (nearer ln pc best entry) := by
  have hkeep : ∀ b, best = some b → b ∈ rows ++ [entry] ∧ ln.runtimeAddr b.address ≤ pc :=
    fun b hb => ⟨List.mem_append_left _ (h.row b hb).1, (h.row b hb).2⟩
  have hentry : entry ∈ rows ++ [entry] := List.mem_append_right _ (List.mem_singleton_self _)
  unfold nearer
  dsimp only
  split
  case isFalse hgt =>
    refine ⟨hkeep, fun e he hle => ?_⟩
    rcases List.mem_append.mp he with he | he
    · exact h.greatest e he hle
    · rw [List.mem_singleton.mp he] at hle
      exact absurd hle hgt
  case isTrue hle =>
    cases best with
    | none =>
      refine ⟨fun b hb => Option.some.inj hb ▸ ⟨hentry, hle⟩, fun e he hle' => ?_⟩
      rcases List.mem_append.mp he with he | he
      · obtain ⟨b, hb, -⟩ := h.greatest e he hle'
        cases hb
      · exact ⟨entry, rfl, by rw [List.mem_singleton.mp he]; exact UInt64.le_refl _⟩
    | some b =>
      dsimp only
      split
      case isTrue hgt =>
        refine ⟨fun b hb => Option.some.inj hb ▸ ⟨hentry, hle⟩, fun e he hle' => ?_⟩
        refine ⟨entry, rfl, ?_⟩
        rcases List.mem_append.mp he with he | he
        · obtain ⟨b', hb, hmax⟩ := h.greatest e he hle'
          obtain rfl := Option.some.inj hb
          exact UInt64.le_of_lt (UInt64.lt_of_le_of_lt hmax hgt)
        · rw [List.mem_singleton.mp he]
          exact UInt64.le_refl _
      case isFalse hngt =>
        refine ⟨hkeep, fun e he hle' => ?_⟩
        rcases List.mem_append.mp he with he | he
        · exact h.greatest e he hle'
        · rw [List.mem_singleton.mp he]
          exact ⟨b, rfl, UInt64.not_lt.mp hngt⟩

theorem foldl_nearest (ln : Lineno) (pc : Addr) (rows : List LineEntry) :
    Nearest ln pc rows (rows.foldl (nearer ln pc) none) := by
  induction rows using List.reverseRecOn with
  | nil => exact ⟨fun _ h => (Option.some_ne_none _ h.symm).elim, fun _ h => nomatch h⟩
  | append_singleton rows entry ih =>
    rw [List.foldl_append]
    exact ih.step entry

theorem lookupPc_nearest (ln : Lineno) (pc : Addr) :
    Nearest ln pc ln.entries (ln.lookupPc pc) := foldl_nearest ln pc ln.entries

/-- The second scan only lowers its bound to the end of a row's range, so as long as the pc
is before every row above the first one, the bound it starts from decides. -/
theorem maxPc_foldl {start : Addr} (rows : List LineEntry)
    (h : ∀ e ∈ rows, ln.runtimeAddr e.address > start → pc < ln.runtimeAddr e.address)
    (maxPc : Addr) :
    pc ≤ rows.foldl (fun maxPc e =>
      let addr := ln.runtimeAddr e.address
      if addr > start ∧ addr < maxPc then addr - 1 else maxPc) maxPc ↔ pc ≤ maxPc := by
  induction rows generalizing maxPc with
  | nil => exact Iff.rfl
  | cons e rows ih =>
    rw [List.foldl_cons, ih fun e he => h e (List.mem_cons_of_mem _ he)]
    dsimp only
    split
    case isFalse => exact Iff.rfl
    case isTrue hin =>
      have hlt := UInt64.lt_iff_toNat_lt.mp (h e List.mem_cons_self hin.1)
      have hmax := UInt64.lt_iff_toNat_lt.mp hin.2
      have hsub : (ln.runtimeAddr e.address - 1).toNat = (ln.runtimeAddr e.address).toNat - 1 :=
        UInt64.toNat_sub_of_le _ _ (UInt64.le_iff_toNat_le.mpr (by
          have h1 : (1 : UInt64).toNat = 1 := rfl
          omega))
      rw [UInt64.le_iff_toNat_le, UInt64.le_iff_toNat_le, hsub]
      omega

end Lineno

namespace IsSequence

variable {ln : Lineno} {pc : Addr} {k : ℕ}

theorem eq_of_address {rows : List LineEntry} (h : IsSequence rows) {e e' : LineEntry}
    (he : e ∈ rows) (he' : e' ∈ rows) (heq : e.address = e'.address) : e = e' := by
  obtain ⟨i, hi, rfl⟩ := List.mem_iff_getElem.mp he
  obtain ⟨j, hj, rfl⟩ := List.mem_iff_getElem.mp he'
  rcases Nat.lt_trichotomy i j with hij | rfl | hij
  · have := List.pairwise_iff_getElem.mp h.sorted i j hi hj hij
    exact absurd heq (UInt64.ne_of_lt this)
  · rfl
  · have := List.pairwise_iff_getElem.mp h.sorted j i hj hi hij
    exact absurd heq.symm (UInt64.ne_of_lt this)

/-- No row but those up to `k` starts at or below a pc in the range of row `k`, wherever
the slide makes the addresses wrap. -/
theorem runtimeAddr_le (h : IsSequence ln.entries) (hk : k + 1 < ln.entries.length)
    (hlo : ln.runtimeAddr ln.entries[k].address ≤ pc)
    (hhi : pc < ln.runtimeAddr ln.entries[k + 1].address) {e : LineEntry} (he : e ∈ ln.entries)
    (hle : ln.runtimeAddr e.address ≤ pc) :
    ln.runtimeAddr e.address ≤ ln.runtimeAddr ln.entries[k].address := by
  obtain ⟨i, hi, rfl⟩ := List.mem_iff_getElem.mp he
  have hsorted := List.pairwise_iff_getElem.mp h.sorted
  have hnext := UInt64.lt_iff_toNat_lt.mp (hsorted k (k + 1) (by omega) hk (by omega))
  have horder : ln.entries[i].address.toNat ≤ ln.entries[k].address.toNat ∨
      ln.entries[k + 1].address.toNat ≤ ln.entries[i].address.toNat := by
    rcases Nat.lt_trichotomy i k with hik | rfl | hik
    · exact .inl (Nat.le_of_lt (UInt64.lt_iff_toNat_lt.mp (hsorted i k hi (by omega) hik)))
    · exact .inl (Nat.le_refl _)
    · rcases Nat.lt_or_ge (k + 1) i with hlt | hge
      · exact .inr (Nat.le_of_lt (UInt64.lt_iff_toNat_lt.mp (hsorted (k + 1) i hk hi hlt)))
      · obtain rfl : i = k + 1 := by omega
        exact .inr (Nat.le_refl _)
  have hbound := ln.entries[i].address.toNat_lt
  have hbound' := ln.entries[k + 1].address.toNat_lt
  have hslide := ln.slide.toNat_lt
  simp only [Lineno.runtimeAddr, UInt64.le_iff_toNat_le, UInt64.lt_iff_toNat_lt,
    UInt64.toNat_add] at hlo hhi hle ⊢
  omega

/-- The row found for a pc in the range of row `k` is row `k`. -/
theorem lookupPc_eq (h : IsSequence ln.entries) (hk : k + 1 < ln.entries.length)
    (hlo : ln.runtimeAddr ln.entries[k].address ≤ pc)
    (hhi : pc < ln.runtimeAddr ln.entries[k + 1].address) :
    ln.lookupPc pc = some ln.entries[k] := by
  have hnear := ln.lookupPc_nearest pc
  have hmem : ln.entries[k] ∈ ln.entries := List.getElem_mem _
  obtain ⟨b, hb, hge⟩ := hnear.greatest _ hmem hlo
  obtain ⟨hbmem, hble⟩ := hnear.row b hb
  have heq : ln.runtimeAddr b.address = ln.runtimeAddr ln.entries[k].address :=
    UInt64.le_antisymm (h.runtimeAddr_le hk hlo hhi hbmem hble) hge
  have haddr : b.address = ln.entries[k].address := (UInt64.add_left_inj ln.slide).mp heq
  rw [hb, h.eq_of_address hbmem hmem haddr]

end IsSequence

/-- In the range of row `k` the answer is the file and line of row `k` up to 128 bytes after
the row's address (in 64-bit arithmetic), and none beyond. -/
theorem lineAtPc_of_sequence {ln : Lineno} {pc : Addr} {k : ℕ} (h : IsSequence ln.entries)
    (hk : k + 1 < ln.entries.length) (hlo : ln.runtimeAddr ln.entries[k].address ≤ pc)
    (hhi : pc < ln.runtimeAddr ln.entries[k + 1].address) :
    ln.lineAtPc pc =
      if pc ≤ ln.runtimeAddr ln.entries[k].address + 128 then
        some (ln.entries[k].file, ln.entries[k].line)
      else none := by
  have hmem : ln.entries[k] ∈ ln.entries := List.getElem_mem _
  have hfile : snprintf maxFile ln.entries[k].file = ln.entries[k].file :=
    List.take_of_length_le (Nat.le_sub_one_of_lt (h.file_fits _ hmem))
  have habove : ∀ e ∈ ln.entries,
      ln.runtimeAddr e.address > ln.runtimeAddr ln.entries[k].address →
        pc < ln.runtimeAddr e.address := fun e he hgt =>
    UInt64.not_le.mp fun hle => UInt64.not_lt.mpr (h.runtimeAddr_le hk hlo hhi he hle) hgt
  have hmax := Lineno.maxPc_foldl ln.entries habove (ln.runtimeAddr ln.entries[k].address + 128)
  rw [Lineno.lineAtPc, Lineno.entryAtPc, h.lookupPc_eq hk hlo hhi]
  dsimp only
  rw [if_neg (h.line_ne_zero _ hmem)]
  by_cases hpc : pc ≤ ln.runtimeAddr ln.entries[k].address + 128
  · rw [if_pos hpc, if_neg (UInt64.not_lt.mpr (hmax.mpr hpc)), Option.map_some, hfile]
  · rw [if_neg hpc, if_pos (UInt64.not_le.mp (mt hmax.mp hpc)), Option.map_none]

/-- A sequence whose first row covers 256 bytes. -/
def longRow : Lineno where
  entries := [{ address := 0x1000, line := 10, column := 0, file := "a.c".toList },
    { address := 0x1100, line := 11, column := 0, file := "a.c".toList }]

theorem isSequence_longRow : IsSequence longRow.entries where
  sorted := by decide
  line_ne_zero := by decide
  file_fits := by decide

theorem lineAtPc_of_sequence_longRow :
    0x1080 < longRow.runtimeAddr 0x1100 ∧ longRow.lineAtPc 0x1080 = some ("a.c".toList, 10) :=
  ⟨by decide, @lineAtPc_of_sequence longRow 0x1080 0 isSequence_longRow (by decide) (by decide)
    (by decide)⟩

/-- A pc in the range of a row, but more than 128 bytes after its address, has no line. -/
theorem lineAtPc_beyond_cutoff :
    IsSequence longRow.entries ∧ longRow.runtimeAddr 0x1000 ≤ 0x1081 ∧
      0x1081 < longRow.runtimeAddr 0x1100 ∧ longRow.lineAtPc 0x1081 = none :=
  ⟨isSequence_longRow, by decide, by decide, by decide⟩

end Debugger
