/-
The lookups that go through a whole table: `cdbg_lineno_lookup_pc`, `cdbg_lineno_lookup_line`,
`cdbg_lineno_lookup_line_unique` and `cdbg_lineno_lookup_next_line_after_pc` of `lineno.c`, and
`lookup_symbol_for_pc` of `debugger.c`.

Each of them is a scan for the row or symbol with the greatest or the least address among those
that pass a test (`Scan.Best`), whatever the order of the table:

* `nearest_below` — the row and the text symbol that are nearest below a pc;
* `line_lookups_least` — the first row of a line, and the first row of the next line.
-/
import Debugger.LineAtPc
import Debugger.Lib.Scan
import Mathlib.Data.List.Nodup

open Scan

namespace Debugger

/-! ### The symbol of a pc -/

/-- `CDBG_MAX_SYMBOL_OFFSET` -/
def maxSymbolOffset : Addr := 0x100000

/-- A symbol of the code (`entry->address != 0`, type `T` or `t`). -/
def SymEntry.isText (sym : SymEntry) : Bool :=
  sym.address ≠ 0 && (sym.type = 'T' || sym.type = 't')

/-- The scan of `lookup_symbol_for_pc`: the best symbol so far with its runtime address. -/
def Syms.nearestText (syms : Syms) (pc : Addr) : Option (SymEntry × Addr) :=
  syms.entries.foldl (fun best entry =>
    if entry.address = 0 || (entry.type ≠ 'T' && entry.type ≠ 't') then best
    else
      let runtime := syms.runtimeAddr entry.address
      if runtime ≤ pc && best.all (fun b => runtime > b.2) then some (entry, runtime)
      else best) none

/-- `lookup_symbol_for_pc`: the symbol, and the offset in it. -/
def lookupSymbolForPc (syms : Syms) (pc : Addr) : Option (SymEntry × Addr) :=
  match syms.nearestText pc with
  | none => none
  | some (best, bestAddr) =>
    let offset := pc - bestAddr
    if offset > maxSymbolOffset then none else some (best, offset)

namespace Syms

variable {syms : Syms} {pc : Addr}

/-- The nearest text symbol at or below a pc. -/
def IsNearestText (syms : Syms) (pc : Addr) : Option SymEntry → Prop :=
  Best (fun m s => syms.runtimeAddr s.address ≤ syms.runtimeAddr m.address)
    (fun s => s.isText ∧ syms.runtimeAddr s.address ≤ pc) syms.entries

/-- The scan finds the text symbol with the greatest runtime address that is not above the pc. -/
theorem nearestText_eq (syms : Syms) (pc : Addr) :
    syms.nearestText pc =
      ((syms.entries.filter fun s => s.isText && decide (syms.runtimeAddr s.address ≤ pc)).argmax
        fun s => (syms.runtimeAddr s.address).toNat).map
        fun s => (s, syms.runtimeAddr s.address) := by
  -- the scan carries the address along with the symbol
  let withAddr : SymEntry → SymEntry × Addr := fun s => (s, syms.runtimeAddr s.address)
  rw [← foldl_keep_greater, nearestText]
  change List.foldl _ (Option.map withAddr none) _ = Option.map withAddr _
  refine List.foldl_hom (Option.map withAddr) fun best s => ?_
  have hskip : (decide (s.address = 0) || (s.type ≠ 'T' && s.type ≠ 't')) = !s.isText := by
    simp [SymEntry.isText]
  have hbetter : (best.map withAddr).all (fun b => syms.runtimeAddr s.address > b.2) =
      best.all fun b =>
        (syms.runtimeAddr b.address).toNat < (syms.runtimeAddr s.address).toNat := by
    cases best <;> simp [withAddr, UInt64.lt_iff_toNat_lt]
  dsimp only
  rw [hskip, hbetter, keep]
  by_cases htext : s.isText = true
  · simp only [htext, Bool.not_true, Bool.false_eq_true, if_false, Bool.true_and]
    split <;> rfl
  · simp [htext]

/-- What the scan finds, and with which address. -/
theorem exists_nearestText (syms : Syms) (pc : Addr) :
    ∃ nearest, syms.IsNearestText pc nearest ∧
      syms.nearestText pc = nearest.map fun s => (s, syms.runtimeAddr s.address) := by
  refine ⟨_, Best.congr (best_argmax _ _ _) (fun s _ => ?_) (fun m _ s _ h => ?_),
    syms.nearestText_eq pc⟩
  · rw [Bool.and_eq_true, decide_eq_true_eq]
  · exact UInt64.le_iff_toNat_le.mpr h

/-- The symbol found is the nearest one, and none if that one is too far away. -/
theorem lookupSymbolForPc_cases (syms : Syms) (pc : Addr) :
    (lookupSymbolForPc syms pc = none ∧ (syms.IsNearestText pc none ∨
      ∃ m, syms.IsNearestText pc (some m) ∧ maxSymbolOffset < pc - syms.runtimeAddr m.address)) ∨
    ∃ m, lookupSymbolForPc syms pc = some (m, pc - syms.runtimeAddr m.address) ∧
      syms.IsNearestText pc (some m) ∧ pc - syms.runtimeAddr m.address ≤ maxSymbolOffset := by
  obtain ⟨nearest, hnearest, hscan⟩ := syms.exists_nearestText pc
  rw [lookupSymbolForPc, hscan]
  cases nearest with
  | none => exact .inl ⟨rfl, .inl hnearest⟩
  | some m =>
    dsimp only [Option.map_some]
    by_cases hfar : pc - syms.runtimeAddr m.address > maxSymbolOffset
    · rw [if_pos hfar]
      exact .inl ⟨rfl, .inr ⟨m, hnearest, hfar⟩⟩
    · rw [if_neg hfar]
      exact .inr ⟨m, rfl, hnearest, UInt64.not_lt.mp hfar⟩

/-- The address that the scan finds does not depend on the order of the symbols. -/
theorem nearestText_addr_eq {entries : List SymEntry} (hperm : entries.Perm syms.entries) :
    (nearestText { syms with entries := entries } pc).map (·.2) =
      (syms.nearestText pc).map (·.2) := by
  obtain ⟨nearest, hnearest, hscan⟩ := syms.exists_nearestText pc
  obtain ⟨nearest', hnearest', hscan'⟩ := { syms with entries := entries }.exists_nearestText pc
  have haddr := Best.map_eq_of_perm hnearest' hnearest hperm
    (fun s => syms.runtimeAddr s.address) fun _ _ hle hge => UInt64.le_antisymm hge hle
  rw [hscan, hscan', Option.map_map, Option.map_map]
  exact haddr

/-- The address of the symbol found, and the offset in it. -/
theorem map_lookupSymbolForPc (syms : Syms) (pc : Addr) :
    (lookupSymbolForPc syms pc).map (fun r => (syms.runtimeAddr r.1.address, r.2)) =
      ((syms.nearestText pc).map (·.2)).bind fun addr =>
        if pc - addr > maxSymbolOffset then none else some (addr, pc - addr) := by
  obtain ⟨nearest, -, hscan⟩ := syms.exists_nearestText pc
  rw [lookupSymbolForPc, hscan]
  cases nearest with
  | none => rfl
  | some m =>
    dsimp only [Option.map_some, Option.bind_some]
    split <;> rfl

end Syms

/-! ### The row of a pc -/

namespace Lineno

variable {ln : Lineno} {pc : Addr}

/-- The nearest row at or below a pc. -/
def IsNearestRow (ln : Lineno) (pc : Addr) : Option LineEntry → Prop :=
  Best (fun m e => ln.runtimeAddr e.address ≤ ln.runtimeAddr m.address)
    (fun e => ln.runtimeAddr e.address ≤ pc) ln.entries

theorem lookupPc_isNearestRow (ln : Lineno) (pc : Addr) : ln.IsNearestRow pc (ln.lookupPc pc) := by
  have hnear := ln.lookupPc_nearest pc
  refine ⟨⟨fun hnone e he hle => ?_, fun hall => ?_⟩, fun m hm => ?_⟩
  · obtain ⟨b, hb, -⟩ := hnear.greatest e he hle
    rw [hnone] at hb
    cases hb
  · cases hfound : ln.lookupPc pc with
    | none => rfl
    | some b => exact absurd (hnear.row b hfound).2 (hall b (hnear.row b hfound).1)
  · refine ⟨(hnear.row m hm).1, (hnear.row m hm).2, fun e he hle => ?_⟩
    obtain ⟨b, hb, hbest⟩ := hnear.greatest e he hle
    obtain rfl := Option.some.inj (hm.symm.trans hb)
    exact hbest

/-- Nothing is nearer to a pc than a row at the pc. -/
theorem foldl_nearer_of_eq {b : LineEntry} (hb : ln.runtimeAddr b.address = pc) :
    ∀ rows : List LineEntry, rows.foldl (nearer ln pc) (some b) = some b := by
  intro rows
  induction rows with
  | nil => rfl
  | cons e rows ih =>
    have hstay : nearer ln pc (some b) e = some b := by
      unfold nearer
      dsimp only
      rw [hb]
      split
      · rename_i hle
        exact if_neg (UInt64.not_lt.mpr hle)
      · rfl
    rw [List.foldl_cons, hstay, ih]

/-- Of the rows at an address, the first one in the table is found. -/
theorem lookupPc_runtimeAddr {a : Addr} {e : LineEntry}
    (h : ln.entries.find? (·.address = a) = some e) : ln.lookupPc (ln.runtimeAddr a) = some e := by
  obtain ⟨haddr, front, back, hrows, hfront⟩ := List.find?_eq_some_iff_append.mp h
  have haddr : e.address = a := of_decide_eq_true haddr
  -- in front of the row all kept rows are lower, so it is taken; behind it none is nearer
  have hfound : nearer ln (ln.runtimeAddr a)
      (front.foldl (nearer ln (ln.runtimeAddr a)) none) e = some e := by
    have hnear := foldl_nearest ln (ln.runtimeAddr a) front
    generalize front.foldl (nearer ln (ln.runtimeAddr a)) none = best at hnear
    unfold nearer
    dsimp only
    rw [haddr, if_pos (UInt64.le_refl _)]
    cases best with
    | none => rfl
    | some b =>
      obtain ⟨hb, hle⟩ := hnear.row b rfl
      have hne : ln.runtimeAddr b.address ≠ ln.runtimeAddr a := fun heq => by
        have hback : b.address = a := (UInt64.add_left_inj ln.slide).mp heq
        have hskipped := hfront b hb
        simp [hback] at hskipped
      exact if_pos (UInt64.lt_of_le_of_ne hle hne)
  have hscan : ln.lookupPc (ln.runtimeAddr a) =
      ln.entries.foldl (nearer ln (ln.runtimeAddr a)) none := rfl
  rw [hscan, hrows, List.foldl_append, List.foldl_cons, hfound,
    foldl_nearer_of_eq (congrArg ln.runtimeAddr haddr)]

end Lineno

/-- Whatever the order of the tables, the row and the symbol found for a pc are those with the
greatest runtime address that is not above the pc; a symbol whose offset is greater than
`maxSymbolOffset` is not returned.  The addresses found are the same for every order. -/
theorem nearest_below (ln : Lineno) (syms : Syms) (pc : Addr) :
    ln.IsNearestRow pc (ln.lookupPc pc) ∧
    ((lookupSymbolForPc syms pc = none ∧ (syms.IsNearestText pc none ∨
      ∃ m, syms.IsNearestText pc (some m) ∧ maxSymbolOffset < pc - syms.runtimeAddr m.address)) ∨
      ∃ m, lookupSymbolForPc syms pc = some (m, pc - syms.runtimeAddr m.address) ∧
        syms.IsNearestText pc (some m) ∧ pc - syms.runtimeAddr m.address ≤ maxSymbolOffset) ∧
    (∀ rows : List LineEntry, rows.Perm ln.entries →
      (Lineno.lookupPc { ln with entries := rows } pc).map (fun e => ln.runtimeAddr e.address) =
        (ln.lookupPc pc).map fun e => ln.runtimeAddr e.address) ∧
    ∀ entries : List SymEntry, entries.Perm syms.entries →
      (lookupSymbolForPc { syms with entries := entries } pc).map
          (fun r => (syms.runtimeAddr r.1.address, r.2)) =
        (lookupSymbolForPc syms pc).map fun r => (syms.runtimeAddr r.1.address, r.2) := by
  refine ⟨ln.lookupPc_isNearestRow pc, syms.lookupSymbolForPc_cases pc, fun rows hperm => ?_,
    fun entries hperm => ?_⟩
  · have hrows := { ln with entries := rows }.lookupPc_isNearestRow pc
    exact Best.map_eq_of_perm hrows (ln.lookupPc_isNearestRow pc) hperm _
      fun _ _ hle hge => UInt64.le_antisymm hge hle
  · have hmap := { syms with entries := entries }.map_lookupSymbolForPc pc
    rw [Syms.nearestText_addr_eq hperm, ← syms.map_lookupSymbolForPc pc] at hmap
    exact hmap

/-! ### The first row of a line -/

namespace Lineno

variable {ln : Lineno} {pc : Addr} {line : UInt32}

/-- `cdbg_lineno_lookup_line` is a scan for the least address. -/
theorem lookupLine_eq (ln : Lineno) (file : Option CStr) (line : UInt32) :
    ln.lookupLine file line =
      (ln.entries.filter fun e => decide (e.line = line) && fileMatches e.file file).argmin
        fun e => e.address.toNat := by
  rw [← foldl_keep_less, lookupLine]
  refine congrArg (fun step => ln.entries.foldl step none) (funext₂ fun best e => ?_)
  rw [keep]
  by_cases hline : e.line = line
  · by_cases hfile : fileMatches e.file file = true
    · cases best with
      | none => simp [hline, hfile]
      | some b => simp [hline, hfile, UInt64.lt_iff_toNat_lt]
    · simp [hline, hfile]
  · simp [hline]

theorem lookupLine_best (ln : Lineno) (file : Option CStr) (line : UInt32) :
    Best (fun m e => m.address ≤ e.address) (fun e => e.line = line ∧ fileMatches e.file file)
      ln.entries (ln.lookupLine file line) := by
  rw [lookupLine_eq]
  refine Best.congr (best_argmin _ _ _) (fun e _ => ?_) (fun m _ e _ h => ?_)
  · rw [Bool.and_eq_true, decide_eq_true_eq]
  · exact UInt64.le_iff_toNat_le.mpr h

/-- `cdbg_lineno_lookup_next_line_after_pc` is a scan for the least address among the rows above
the pc that have the file of the row found for it, but another line. -/
theorem lookupNextLineAfterPc_eq {current : LineEntry} (h : ln.lookupPc pc = some current) :
    ln.lookupNextLineAfterPc pc =
      (ln.entries.filter fun e => decide (pc < ln.runtimeAddr e.address) &&
        (decide (e.file = current.file) && decide (e.line ≠ current.line))).argmin
        fun e => e.address.toNat := by
  rw [← foldl_keep_less, lookupNextLineAfterPc, h]
  refine congrArg (fun step => ln.entries.foldl step none) (funext₂ fun best e => ?_)
  rw [keep]
  by_cases hpc : ln.runtimeAddr e.address ≤ pc
  · have hnot : ¬ pc < ln.runtimeAddr e.address := UInt64.not_lt.mpr hpc
    simp [hpc, hnot]
  · have hlt : pc < ln.runtimeAddr e.address := UInt64.not_le.mp hpc
    by_cases hsame : e.file ≠ current.file ∨ e.line = current.line
    · have hnot : (decide (e.file = current.file) && decide (e.line ≠ current.line)) = false := by
        rw [Bool.and_eq_false_iff, decide_eq_false_iff_not, decide_eq_false_iff_not, not_not]
        exact hsame
      rw [if_neg hpc, if_pos hsame, hnot]
      simp
    · have hother : (decide (e.file = current.file) && decide (e.line ≠ current.line)) = true := by
        rw [not_or, not_not] at hsame
        simpa using hsame
      rw [if_neg hpc, if_neg hsame, hother]
      cases best with
      | none => simp [hlt]
      | some b => simp [hlt, UInt64.lt_iff_toNat_lt]

/-- A row above the pc in the file of the row found for it, but of another line. -/
def IsNextLine (ln : Lineno) (pc : Addr) (e : LineEntry) : Prop :=
  ∃ current, ln.lookupPc pc = some current ∧ pc < ln.runtimeAddr e.address ∧
    e.file = current.file ∧ e.line ≠ current.line

theorem lookupNextLineAfterPc_best (ln : Lineno) (pc : Addr) :
    Best (fun m e => m.address ≤ e.address) (ln.IsNextLine pc) ln.entries
      (ln.lookupNextLineAfterPc pc) := by
  cases hcurrent : ln.lookupPc pc with
  | none =>
    have hnone : ln.lookupNextLineAfterPc pc = none := by
      rw [lookupNextLineAfterPc, hcurrent]
    rw [hnone]
    refine ⟨iff_of_true rfl fun e _ hnext => ?_, fun m hm => nomatch hm⟩
    obtain ⟨current, hsome, -⟩ := hnext
    rw [hcurrent] at hsome
    cases hsome
  | some current =>
    rw [lookupNextLineAfterPc_eq hcurrent]
    refine Best.congr (best_argmin _ _ _) (fun e _ => ?_) (fun m _ e _ h => ?_)
    · rw [Bool.and_eq_true, Bool.and_eq_true, decide_eq_true_eq, decide_eq_true_eq,
        decide_eq_true_eq]
      constructor
      · exact fun h => ⟨current, hcurrent, h⟩
      · rintro ⟨current', hsome, h⟩
        obtain rfl := Option.some.inj (hcurrent.symm.trans hsome)
        exact h
    · exact UInt64.le_iff_toNat_le.mpr h

/-- All rows of the line have the same file. -/
def OneFile (line : UInt32) (rows : List LineEntry) : Prop :=
  ∀ e ∈ rows, ∀ e' ∈ rows, e.line = line → e'.line = line → e.file = e'.file

instance (line : UInt32) (rows : List LineEntry) : Decidable (OneFile line rows) :=
  inferInstanceAs (Decidable (∀ e ∈ rows, ∀ e' ∈ rows, _))

/-- From the first row of the line on, the scan goes on for the least address until it comes to
another file. -/
theorem lookupLineUniqueFrom_some (file : CStr) (m : LineEntry) (rows : List LineEntry) :
    lookupLineUniqueFrom line (some (file, m)) rows =
      if ∀ e ∈ rows, e.line = line → e.file = file then
        rows.foldl (keep (fun e => e.line = line)
          fun e b => e.address.toNat < b.address.toNat) (some m)
      else none := by
  induction rows generalizing m with
  | nil => simp [lookupLineUniqueFrom]
  | cons e rows ih =>
    rw [lookupLineUniqueFrom, List.foldl_cons, keep]
    by_cases hline : e.line = line
    · by_cases hfile : file = e.file
      · subst hfile
        by_cases hlt : e.address < m.address
        · simp [hline, hlt, ih, UInt64.lt_iff_toNat_lt.mp hlt]
        · have hlt' : ¬ e.address.toNat < m.address.toNat := mt UInt64.lt_iff_toNat_lt.mpr hlt
          simp [hline, hlt, ih, hlt']
      · -- a second file, and the C function returns NULL at once
        have hsome : ¬ ∀ e' ∈ e :: rows, e'.line = line → e'.file = file :=
          fun h => hfile (h e List.mem_cons_self hline).symm
        rw [if_neg hsome, if_neg (not_not.mpr hline)]
        exact if_pos hfile
    · simp [hline, ih]

theorem lookupLineUniqueFrom_none (rows : List LineEntry) :
    lookupLineUniqueFrom line none rows =
      if OneFile line rows then
        rows.foldl (keep (fun e => e.line = line)
          fun e b => e.address.toNat < b.address.toNat) none
      else none := by
  induction rows with
  | nil => simp [lookupLineUniqueFrom]
  | cons e rows ih =>
    rw [lookupLineUniqueFrom, List.foldl_cons, keep]
    by_cases hline : e.line = line
    · have hall : OneFile line (e :: rows) ↔ ∀ e' ∈ rows, e'.line = line → e'.file = e.file := by
        constructor
        · exact fun h e' he' hline' =>
            h e' (List.mem_cons_of_mem _ he') e List.mem_cons_self hline' hline
        · intro h e₁ he₁ e₂ he₂ h₁ h₂
          have hfile : ∀ e' ∈ e :: rows, e'.line = line → e'.file = e.file := by
            simpa using h
          rw [hfile e₁ he₁ h₁, hfile e₂ he₂ h₂]
      simp [hline, lookupLineUniqueFrom_some, hall]
    · have hall : OneFile line (e :: rows) ↔ OneFile line rows := by
        simp [OneFile, hline]
      simp [hline, ih, hall]

/-- `cdbg_lineno_lookup_line_unique` is a scan for the least address if the line is one of a
single file. -/
theorem lookupLineUnique_best (h : OneFile line ln.entries) :
    Best (fun m e => m.address ≤ e.address) (fun e => e.line = line) ln.entries
      (ln.lookupLineUnique line) := by
  rw [lookupLineUnique, lookupLineUniqueFrom_none, if_pos h, foldl_keep_less]
  refine Best.congr (best_argmin _ _ _) (fun e _ => ?_) (fun m _ e _ h => ?_)
  · exact decide_eq_true_iff
  · exact UInt64.le_iff_toNat_le.mpr h

theorem lookupLineUnique_eq_none (h : ¬ OneFile line ln.entries) :
    ln.lookupLineUnique line = none := by
  rw [lookupLineUnique, lookupLineUniqueFrom_none, if_neg h]

/-! ### The order of the table -/

section Order

variable {rows : List LineEntry}

/-- With distinct addresses even the row found for a pc is the same. -/
theorem lookupPc_perm (hperm : rows.Perm ln.entries)
    (hdistinct : (ln.entries.map (·.address)).Nodup) :
    lookupPc { ln with entries := rows } pc = ln.lookupPc pc := by
  have hrows := lookupPc_isNearestRow { ln with entries := rows } pc
  have hsame := Best.map_eq hrows (ln.lookupPc_isNearestRow pc) (fun _ => hperm.mem_iff) id ?_
  · rwa [Option.map_id] at hsame
  · intro m hm e he hle hge
    have haddr : m.address = e.address := (UInt64.add_left_inj ln.slide).mp
      (UInt64.le_antisymm hge hle)
    exact List.inj_on_of_nodup_map hdistinct (hperm.mem_iff.mp hm) (hperm.mem_iff.mp he) haddr

theorem lookupLine_perm (hperm : rows.Perm ln.entries) (file : Option CStr) :
    (lookupLine { ln with entries := rows } file line).map (·.address) =
      (ln.lookupLine file line).map (·.address) :=
  Best.map_eq_of_perm (lookupLine_best { ln with entries := rows } file line)
    (ln.lookupLine_best file line) hperm _ fun _ _ hle hge => UInt64.le_antisymm hle hge

theorem lookupLineUnique_perm (hperm : rows.Perm ln.entries) :
    (lookupLineUnique { ln with entries := rows } line).map (·.address) =
      (ln.lookupLineUnique line).map (·.address) := by
  have hone : OneFile line rows ↔ OneFile line ln.entries := by
    simp only [OneFile, hperm.mem_iff]
  by_cases h : OneFile line ln.entries
  · have hrows : OneFile line { ln with entries := rows }.entries := hone.mpr h
    exact Best.map_eq_of_perm (lookupLineUnique_best hrows) (lookupLineUnique_best h) hperm _
      fun _ _ hle hge => UInt64.le_antisymm hle hge
  · have hrows : ¬ OneFile line { ln with entries := rows }.entries := mt hone.mp h
    rw [lookupLineUnique_eq_none h, lookupLineUnique_eq_none hrows]

theorem lookupNextLineAfterPc_perm (hperm : rows.Perm ln.entries)
    (hdistinct : (ln.entries.map (·.address)).Nodup) :
    (lookupNextLineAfterPc { ln with entries := rows } pc).map (·.address) =
      (ln.lookupNextLineAfterPc pc).map (·.address) := by
  have hrows := lookupNextLineAfterPc_best { ln with entries := rows } pc
  have hnext : IsNextLine { ln with entries := rows } pc = ln.IsNextLine pc := by
    funext e
    rw [IsNextLine, lookupPc_perm hperm hdistinct]
    rfl
  rw [hnext] at hrows
  exact Best.map_eq_of_perm hrows (ln.lookupNextLineAfterPc_best pc) hperm _
    fun _ _ hle hge => UInt64.le_antisymm hle hge

end Order

end Lineno

/-- The slide moves all of the addresses by the same distance. -/
def NoWrap (slide : Addr) (addrs : List Addr) : Prop :=
  ∃ z : ℤ, ∀ a ∈ addrs, ((a + slide).toNat : ℤ) = a.toNat + z

theorem noWrap_of_all {slide : Addr} {addrs : List Addr} (z : ℤ)
    (h : addrs.all (fun a => ((a + slide).toNat : ℤ) = a.toNat + z) = true) :
    NoWrap slide addrs :=
  ⟨z, fun a ha => of_decide_eq_true (List.all_eq_true.mp h a ha)⟩

theorem NoWrap.add_le_add {slide : Addr} {addrs : List Addr} (h : NoWrap slide addrs) {a b : Addr}
    (ha : a ∈ addrs) (hb : b ∈ addrs) : a + slide ≤ b + slide ↔ a ≤ b := by
  obtain ⟨z, hz⟩ := h
  have hza := hz a ha
  have hzb := hz b hb
  rw [UInt64.le_iff_toNat_le, UInt64.le_iff_toNat_le]
  omega

/-- Whatever the order of the table, a line that has rows, all of one file, is looked up as the
lowest of its rows, a line in a file as the lowest of its rows whose file matches, and the next
line after a pc as the lowest row above the pc that has the file but not the line of the row found
for the pc.  The addresses found are the same for every order, those of the next line if no two
rows share an address. -/
theorem line_lookups_least (ln : Lineno) (line : UInt32) (pc : Addr)
    (hslide : NoWrap ln.slide (ln.entries.map (·.address))) :
    (((ln.lookupLineUnique line).isSome ↔
        (∃ e ∈ ln.entries, e.line = line) ∧ Lineno.OneFile line ln.entries) ∧
      ∀ m, ln.lookupLineUnique line = some m → m ∈ ln.entries ∧ m.line = line ∧
        ∀ e ∈ ln.entries, e.line = line →
          ln.runtimeAddr m.address ≤ ln.runtimeAddr e.address) ∧
    (∀ file, Best (fun m e => ln.runtimeAddr m.address ≤ ln.runtimeAddr e.address)
      (fun e => e.line = line ∧ Lineno.fileMatches e.file file) ln.entries
      (ln.lookupLine file line)) ∧
    Best (fun m e => ln.runtimeAddr m.address ≤ ln.runtimeAddr e.address) (ln.IsNextLine pc)
      ln.entries (ln.lookupNextLineAfterPc pc) ∧
    ∀ rows : List LineEntry, rows.Perm ln.entries →
      (Lineno.lookupLineUnique { ln with entries := rows } line).map (·.address) =
        (ln.lookupLineUnique line).map (·.address) ∧
      (∀ file, (Lineno.lookupLine { ln with entries := rows } file line).map (·.address) =
        (ln.lookupLine file line).map (·.address)) ∧
      ((ln.entries.map (·.address)).Nodup →
        (Lineno.lookupNextLineAfterPc { ln with entries := rows } pc).map (·.address) =
          (ln.lookupNextLineAfterPc pc).map (·.address)) := by
  -- the scans compare link addresses, and the slide keeps their order
  have hlower : ∀ m ∈ ln.entries, ∀ e ∈ ln.entries, m.address ≤ e.address →
      ln.runtimeAddr m.address ≤ ln.runtimeAddr e.address := fun m hm e he =>
    (hslide.add_le_add (List.mem_map_of_mem hm) (List.mem_map_of_mem he)).mpr
  refine ⟨⟨?_, fun m hm => ?_⟩,
    fun file => (ln.lookupLine_best file line).congr (fun _ _ => Iff.rfl) hlower,
    (ln.lookupNextLineAfterPc_best pc).congr (fun _ _ => Iff.rfl) hlower,
    fun rows hperm => ⟨Lineno.lookupLineUnique_perm hperm, Lineno.lookupLine_perm hperm,
      Lineno.lookupNextLineAfterPc_perm hperm⟩⟩
  · by_cases hone : Lineno.OneFile line ln.entries
    · rw [(Lineno.lookupLineUnique_best hone).isSome_iff, and_iff_left hone]
    · rw [Lineno.lookupLineUnique_eq_none hone]
      exact iff_of_false Bool.false_ne_true fun h => hone h.2
  · by_cases hone : Lineno.OneFile line ln.entries
    · obtain ⟨hmem, hline, hbest⟩ := (Lineno.lookupLineUnique_best hone).best m hm
      exact ⟨hmem, hline, fun e he hline' => hlower m hmem e he (hbest e he hline')⟩
    · rw [Lineno.lookupLineUnique_eq_none hone] at hm
      cases hm

/-- Two functions of a file, with the rows of the second one in front. -/
def unsorted : Lineno where
  entries := [{ address := 0x1020, line := 20, column := 0, file := "a.c".toList },
    { address := 0x1028, line := 21, column := 0, file := "a.c".toList },
    { address := 0x1000, line := 10, column := 0, file := "a.c".toList },
    { address := 0x1008, line := 11, column := 0, file := "a.c".toList },
    { address := 0x1010, line := 10, column := 0, file := "a.c".toList }]
  slide := 0x100000

theorem line_lookups_least_unsorted :
    NoWrap unsorted.slide (unsorted.entries.map (·.address)) ∧
    ∀ m, unsorted.lookupLineUnique 10 = some m → m ∈ unsorted.entries ∧ m.line = 10 ∧
      ∀ e ∈ unsorted.entries, e.line = 10 →
        unsorted.runtimeAddr m.address ≤ unsorted.runtimeAddr e.address := by
  have hslide : NoWrap unsorted.slide (unsorted.entries.map (·.address)) :=
    noWrap_of_all 0x100000 (by decide)
  exact ⟨hslide, (line_lookups_least unsorted 10 0x101000 hslide).1.2⟩

end Debugger
