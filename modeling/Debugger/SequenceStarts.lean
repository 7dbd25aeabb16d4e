/-
The row at the start of a DWARF line sequence, and the rows that share its address.

The table has the rows of all sequences in the order in which the loaders come to them, and a row
that ends a sequence is stored like any other one.  Laid out back to back, the row that ends a
sequence has the address at which the next one begins (`BackToBack.ends_at_start`), and of two rows
at an address `cdbg_lineno_lookup_pc` takes the first one in the table.
-/
import Debugger.DwarfdumpLines
import Debugger.LineOps
import Debugger.LineLookups

open Prog

namespace Debugger

/-! ### Sequences -/

/-- A row of a sequence, with the entry that is stored for it, if there is one. -/
structure SequenceRow where
  address : Addr
  entry : Option LineEntry
  address_eq : ∀ e, entry = some e → e.address = address

/-- The rows of a sequence: its first one, and the others up to the one that ends it. -/
structure LineSequence where
  first : SequenceRow
  rest : List SequenceRow

namespace LineSequence

def rows (s : LineSequence) : List SequenceRow := s.first :: s.rest

/-- The address of the row that ends the sequence. -/
def endAddress (s : LineSequence) : Addr := (s.rest.getLastD s.first).address

/-- The entries that are stored for a sequence. -/
def entries (s : LineSequence) : List LineEntry := s.rows.filterMap (·.entry)

/-- The sequence has code, and its addresses do not decrease. -/
structure Ordered (s : LineSequence) : Prop where
  start_lt_end : s.first.address < s.endAddress
  within : ∀ r ∈ s.rows, s.first.address ≤ r.address ∧ r.address ≤ s.endAddress

end LineSequence

/-- Each sequence begins where the one before ends. -/
structure BackToBack (layout : List LineSequence) : Prop where
  ordered : ∀ s ∈ layout, s.Ordered
  adjacent : layout.IsChain fun s t => s.endAddress = t.first.address

theorem BackToBack.pairwise {layout : List LineSequence} (h : BackToBack layout) :
    layout.Pairwise fun s t => s.endAddress ≤ t.first.address := by
  induction layout with
  | nil => exact .nil
  | cons s layout ih =>
    obtain ⟨hs, hlayout⟩ := List.forall_mem_cons.mp h.ordered
    cases layout with
    | nil => exact List.pairwise_singleton _ _
    | cons t layout =>
      obtain ⟨hnext, hrest⟩ := List.isChain_cons_cons.mp h.adjacent
      have hpairs := ih ⟨hlayout, hrest⟩
      refine List.pairwise_cons.mpr ⟨fun u hu => ?_, hpairs⟩
      rcases List.mem_cons.mp hu with rfl | hu
      · exact UInt64.le_of_eq hnext
      · have ht := (hlayout t List.mem_cons_self).start_lt_end
        have hle := (List.pairwise_cons.mp hpairs).1 u hu
        rw [hnext]
        exact UInt64.le_trans (UInt64.le_of_lt ht) hle

/-- Of the rows of the other sequences, only those at the end of the sequence before have the
address at which a sequence begins. -/
theorem BackToBack.ends_at_start {layout front back : List LineSequence} {s p : LineSequence}
    {r : SequenceRow} (h : BackToBack layout) (hperm : layout.Perm (front ++ s :: back))
    (hp : p ∈ front ++ back) (hr : r ∈ p.rows) (haddr : r.address = s.first.address) :
    p.endAddress = s.first.address := by
  have hapart : (s :: (front ++ back)).Pairwise fun s t : LineSequence =>
      s.endAddress ≤ t.first.address ∨ t.endAddress ≤ s.first.address :=
    (hperm.trans List.perm_middle).pairwise_iff (fun h => h.symm) |>.mp (h.pairwise.imp .inl)
  have hordered : ∀ t ∈ s :: (front ++ back), t.Ordered := fun t ht =>
    h.ordered t ((hperm.trans List.perm_middle).mem_iff.mpr ht)
  have hs := hordered s List.mem_cons_self
  have hwithin := (hordered p (List.mem_cons_of_mem _ hp)).within r hr
  rw [haddr] at hwithin
  rcases (List.pairwise_cons.mp hapart).1 p hp with hafter | hbefore
  · have hlt := UInt64.lt_of_lt_of_le hs.start_lt_end (UInt64.le_trans hafter hwithin.1)
    exact absurd hlt (UInt64.lt_irrefl _)
  · exact UInt64.le_antisymm hbefore hwithin.2

/-! ### The loaders -/

/-- The sequence of some rows and the one that ends it. -/
def LineSequence.of : List SequenceRow → SequenceRow → LineSequence
  | [], last => { first := last, rest := [] }
  | r :: rows, last => { first := r, rest := rows ++ [last] }

theorem LineSequence.rows_of (rows : List SequenceRow) (last : SequenceRow) :
    (LineSequence.of rows last).rows = rows ++ [last] := by
  cases rows <;> rfl

/-- The row of a text printed by dwarfdump. -/
def DumpUnit.sequenceRow (u : DumpUnit) (row : LineRow × CStr) : SequenceRow where
  address := row.1.address
  entry := some { address := row.1.address, line := row.1.line, column := row.1.column,
                  file := dwarfdumpResolvePath u.dirTable u.fileTable row.1.fileIndex }
  address_eq _ h := by rw [← Option.some.inj h]

/-- The flags of a row that ends a sequence. -/
def EndsSequence (row : LineRow × CStr) : Prop := strstr row.2 "end_sequence".toList

instance (row : LineRow × CStr) : Decidable (EndsSequence row) :=
  inferInstanceAs (Decidable (_ = true))

/-- A unit of the text whose rows are those of some sequences, each given by its rows and the one
that ends it. -/
structure DumpedUnit where
  unit : DumpUnit
  parts : List (List (LineRow × CStr) × (LineRow × CStr))
  rows_eq : unit.rows = parts.flatMap fun part => part.1 ++ [part.2]
  ends : ∀ part ∈ parts, EndsSequence part.2 ∧ ∀ row ∈ part.1, ¬ EndsSequence row

def DumpedUnit.sequences (d : DumpedUnit) : List LineSequence :=
  d.parts.map fun part => .of (part.1.map d.unit.sequenceRow) (d.unit.sequenceRow part.2)

theorem DumpedUnit.entries_eq (d : DumpedUnit) :
    d.unit.entries = d.sequences.flatMap LineSequence.entries := by
  have hentries : d.unit.entries =
      d.unit.rows.filterMap fun row => (d.unit.sequenceRow row).entry := by
    rw [DumpUnit.entries, ← List.filterMap_eq_map]
    rfl
  rw [hentries, d.rows_eq, DumpedUnit.sequences, List.filterMap_flatMap, List.flatMap_map]
  refine List.flatMap_congr fun part _ => ?_
  rw [LineSequence.entries, LineSequence.rows_of, List.filterMap_append, List.filterMap_append,
    List.filterMap_map]
  rfl

/-- The row of the state machine. -/
def StdHeader.sequenceRow (hdr : StdHeader) (row : LineState) : SequenceRow where
  address := row.address
  entry := storedEntry hdr row
  address_eq e h := by
    rw [storedEntry] at h
    split at h
    · obtain ⟨file, -, rfl⟩ := Option.map_eq_some_iff.mp h
      rfl
    · cases h

/-- A unit of the section whose program is made of the programs of some sequences. -/
structure ProgramUnit where
  hdr : StdHeader
  programs : List (List (LineOp hdr))
  one_end : ∀ ops ∈ programs, .endSequence ∉ ops

namespace ProgramUnit

/-- The operations of the unit: those of the sequences, each with its end. -/
def ops (u : ProgramUnit) : List (LineOp u.hdr) :=
  u.programs.flatMap fun ops => ops ++ [.endSequence]

def sequences (u : ProgramUnit) : List LineSequence :=
  u.programs.map fun ops =>
    .of ((interpretOps {} ops).2.map u.hdr.sequenceRow) (u.hdr.sequenceRow (interpretOps {} ops).1)

/-- The machine starts anew behind each sequence. -/
theorem storedEntries_programs {hdr : StdHeader} (programs : List (List (LineOp hdr))) :
    storedEntries (programs.flatMap fun ops => ops ++ [.endSequence]) =
      programs.flatMap fun ops => LineSequence.entries
        (.of ((interpretOps {} ops).2.map hdr.sequenceRow) (hdr.sequenceRow (interpretOps {} ops).1)) := by
  induction programs with
  | nil => rfl
  | cons ops programs ih =>
    have hreset : interpretOps {} (ops ++ [.endSequence]) =
        ({}, (interpretOps {} ops).2 ++ [(interpretOps {} ops).1]) := by
      rw [interpretOps_append]
      rfl
    rw [List.flatMap_cons, List.flatMap_cons, ← ih, storedEntries, interpretOps_append, hreset,
      List.filterMap_append, LineSequence.entries, LineSequence.rows_of, List.filterMap_append,
      List.filterMap_append, List.filterMap_map]
    rfl

theorem entries_eq (u : ProgramUnit) :
    storedEntries u.ops = u.sequences.flatMap LineSequence.entries := by
  rw [ops, sequences, storedEntries_programs, List.flatMap_map]

end ProgramUnit

/-- The units that `parse_line_table` comes to from a cursor on; it reads each operation of their
programs as it is meant, and skips units of other versions. -/
inductive HoldsUnits (mem : Mem) (lineStr : LineStr) : ParseCursor → List ProgramUnit → Prop
  | nil {c : ParseCursor} : ¬ c.data < c.end_ → HoldsUnits mem lineStr c []
  | skip {c : ParseCursor} {unitEnd : Addr} {units : List ProgramUnit} : c.data < c.end_ →
      readUnit mem lineStr c = .skip unitEnd →
      HoldsUnits mem lineStr { c with data := unitEnd } units → HoldsUnits mem lineStr c units
  | program {c unit : ParseCursor} {u : ProgramUnit} {units : List ProgramUnit} :
      c.data < c.end_ → readUnit mem lineStr c = .program u.hdr.toLineHeader unit →
      HoldsProgram mem unit u.ops → (∀ op ∈ u.ops, op.Fits) →
      HoldsUnits mem lineStr { c with data := unit.end_ } units →
        HoldsUnits mem lineStr c (u :: units)

/-- The rows that a run over the units appends. -/
theorem HoldsUnits.run_eq {mem : Mem} {stack : ℕ → UInt8} {lineStr : LineStr} {c : ParseCursor}
    {units : List ProgramUnit} (h : HoldsUnits mem lineStr c units) (fuel : ℕ) :
    ∀ {n : ℕ} {rows rows' : List LineEntry} {rc : Int},
      Loop.run (unitRound mem stack lineStr fuel) n { cursor := c, rows } =
          some (some (rc, rows')) →
        rows' = rows ++ units.flatMap fun u => storedEntries u.ops := by
  induction h with
  | nil hend =>
    intro n rows rows' rc hrun
    cases n with
    | zero => cases hrun
    | succ n =>
      rw [Loop.run, unitRound, if_pos hend] at hrun
      obtain ⟨-, rfl⟩ := Prod.mk.inj (Option.some.inj (Option.some.inj hrun))
      rw [List.flatMap_nil, List.append_nil]
  | skip hlt hread _ ih =>
    intro n rows rows' rc hrun
    cases n with
    | zero => cases hrun
    | succ n =>
      rw [Loop.run, unitRound, if_neg (not_not.mpr hlt), hread] at hrun
      exact ih hrun
  | @program c unit u units hlt hread hprogram hfits _ ih =>
    intro n rows rows' rc hrun
    cases n with
    | zero => cases hrun
    | succ n =>
      -- a run with enough fuel has the rows of the machine, and no other run ends differently
      have hlong : parseLineProgram mem stack (u.ops.length + 1) u.hdr.toLineHeader unit rows =
          some (0, rows ++ storedEntries u.ops) :=
        parseLineProgram_of_fits hprogram hfits rows (Nat.lt_succ_self _)
      rw [Loop.run, unitRound, if_neg (not_not.mpr hlt), hread] at hrun
      dsimp only at hrun
      cases hparse : parseLineProgram mem stack fuel u.hdr.toLineHeader unit rows with
      | none =>
        rw [hparse] at hrun
        cases Option.some.inj hrun
      | some r =>
        obtain rfl := Loop.run_unique hparse hlong
        rw [hparse] at hrun
        rw [List.flatMap_cons, ← List.append_assoc]
        exact ih hrun

/-- A table that one of the loaders has built, and the sequences whose rows it has read, in the
order in which it has come to them. -/
inductive Loaded : List LineSequence → List LineEntry → Prop
  | dwarfdump {preamble : List CStr} {units : List DumpedUnit}
      (hpreamble : ∀ line ∈ preamble, IsUnread line) (hunits : ∀ d ∈ units, d.unit.WellFormed)
      (hfits : ∀ line ∈ preamble ++ (units.map (·.unit)).flatMap DumpUnit.lines,
        line.length < maxLineDump)
      (compDir : CStr) (closeRc : Int) :
      Loaded (units.flatMap DumpedUnit.sequences)
        (linenoLoadFromDwarfdump {} compDir
          (some (lineDumpText preamble (units.map (·.unit)), closeRc))).2.1.entries
  | debugLine {mem : Mem} {stack : ℕ → UInt8} {lineStr : LineStr} {start : Addr} {size : UInt64}
      {units : List ProgramUnit} {fuel : ℕ} {rc : Int} {rows : List LineEntry}
      (hunits : HoldsUnits mem lineStr { data := start, end_ := start + size } units)
      (hload : parseLineTable mem stack lineStr fuel start size = some (rc, rows)) :
      Loaded (units.flatMap ProgramUnit.sequences) rows

/-- Both loaders append the entries of the sequences. -/
theorem Loaded.rows_eq {seqs : List LineSequence} {rows : List LineEntry} (h : Loaded seqs rows) :
    rows = seqs.flatMap LineSequence.entries := by
  cases h with
  | @dwarfdump preamble units hpreamble hunits hfits compDir closeRc =>
    have hwell : ∀ u ∈ units.map (·.unit), u.WellFormed := by
      intro u hu
      obtain ⟨d, hd, rfl⟩ := List.mem_map.mp hu
      exact hunits d hd
    rw [entries_of_units hpreamble hwell hfits, List.flatMap_map, List.flatMap_assoc]
    exact List.flatMap_congr fun d _ => d.entries_eq
  | @debugLine mem stack lineStr start size units fuel rc _ hunits hload =>
    rw [parseLineTable, Option.join_eq_some_iff] at hload
    rw [hunits.run_eq fuel hload, List.nil_append, List.flatMap_assoc]
    exact List.flatMap_congr fun u _ => u.entries_eq

/-! ### The row at the start -/

/-- At the start of a sequence its first row is found exactly if it is stored and is the first one
in the table at its address: what is loaded before has no row there, or one that is the same in
every field.  In a program laid out back to back, such a row is one at the end of a sequence. -/
theorem first_row_found_iff {ln : Lineno} {front back : List LineSequence} {s : LineSequence}
    (hload : Loaded (front ++ s :: back) ln.entries) :
    ((∃ e, s.first.entry = some e ∧ ln.lookupPc (ln.runtimeAddr s.first.address) = some e) ↔
      ∃ e, s.first.entry = some e ∧
        ∀ e', (front.flatMap LineSequence.entries).find? (·.address = s.first.address) = some e' →
          e' = e) ∧
    ∀ layout, BackToBack layout → layout.Perm (front ++ s :: back) → ∀ p ∈ front, ∀ r ∈ p.rows,
      r.address = s.first.address → p.endAddress = s.first.address := by
  refine ⟨?_, fun layout hlayout hperm p hp r hr haddr =>
    hlayout.ends_at_start hperm (List.mem_append_left _ hp) hr haddr⟩
  have hrows := hload.rows_eq
  rw [List.flatMap_append, List.flatMap_cons] at hrows
  refine exists_congr fun e => and_congr_right fun he => ?_
  have hfirst : s.entries = e :: s.rest.filterMap (·.entry) := by
    rw [LineSequence.entries, LineSequence.rows, List.filterMap_cons, he]
  constructor
  · intro hfound e' hfront
    have htable : ln.entries.find? (·.address = s.first.address) = some e' := by
      rw [hrows, List.find?_append, hfront, Option.some_or]
    exact Option.some.inj ((Lineno.lookupPc_runtimeAddr htable).symm.trans hfound)
  · -- in front there is no row of that address, or one that is `e` as well
    intro hfront
    refine Lineno.lookupPc_runtimeAddr ?_
    rw [hrows, List.find?_append]
    cases hbefore : (front.flatMap LineSequence.entries).find? (·.address = s.first.address) with
    | some e' => rw [hfront e' hbefore, Option.some_or]
    | none =>
      rw [Option.none_or, hfirst, List.cons_append, List.find?_cons_of_pos]
      exact decide_eq_true (s.first.address_eq e he)

/-- The unit of a file with one function of two rows, `first` and the one that ends it. -/
def functionUnit (file : CStr) (first last : LineRow) : DumpedUnit where
  unit :=
    { offset := 0
      prologue := []
      dirs := []
      files := [⟨0, file, 0, []⟩]
      rows := [(first, "  0  is_stmt".toList), (last, "  0  is_stmt end_sequence".toList)] }
  parts := [([(first, "  0  is_stmt".toList)], (last, "  0  is_stmt end_sequence".toList))]
  rows_eq := rfl
  ends := by
    intro part hpart
    obtain rfl := List.mem_singleton.mp hpart
    have hlast : strstr "  0  is_stmt end_sequence".toList "end_sequence".toList = true := by decide
    have hfirst : ¬ strstr "  0  is_stmt".toList "end_sequence".toList = true := by decide
    refine ⟨hlast, fun row hrow => ?_⟩
    obtain rfl := List.mem_singleton.mp hrow
    exact hfirst

theorem functionUnit_wellFormed {file : CStr} (hfile : IsUnquoted file) (first last : LineRow) :
    (functionUnit file first last).unit.WellFormed := by
  refine ⟨fun _ h => absurd h List.not_mem_nil, .nil, fun _ h => absurd h List.not_mem_nil,
    fun _ h => absurd h List.not_mem_nil, List.pairwise_singleton _ _, fun block h => ?_,
    fun block h => ?_, fun block h => ?_, fun row h => ?_⟩
  · obtain rfl := List.mem_singleton.mp h
    exact Nat.two_pow_pos 31
  · obtain rfl := List.mem_singleton.mp h
    exact hfile
  · obtain rfl := List.mem_singleton.mp h
    exact fun _ h => absurd h List.not_mem_nil
  · have hfirst : '\n' ∉ "  0  is_stmt".toList := by decide
    have hlast : '\n' ∉ "  0  is_stmt end_sequence".toList := by decide
    rcases List.mem_cons.mp h with rfl | h
    · exact hfirst
    · obtain rfl := List.mem_singleton.mp h
      exact hlast

/-- A function at `0x1000`, and the one behind it at `0x1010`. -/
def lowUnit : DumpedUnit := functionUnit "f.c".toList ⟨0x1000, 10, 0, 0⟩ ⟨0x1010, 12, 0, 0⟩
def highUnit : DumpedUnit := functionUnit "g.c".toList ⟨0x1010, 3, 0, 0⟩ ⟨0x1020, 5, 0, 0⟩

/-- The sequences of the two units. -/
def lowSequence : LineSequence where
  first := lowUnit.unit.sequenceRow (⟨0x1000, 10, 0, 0⟩, [])
  rest := [lowUnit.unit.sequenceRow (⟨0x1010, 12, 0, 0⟩, [])]

def highSequence : LineSequence where
  first := highUnit.unit.sequenceRow (⟨0x1010, 3, 0, 0⟩, [])
  rest := [highUnit.unit.sequenceRow (⟨0x1020, 5, 0, 0⟩, [])]

theorem low_high_backToBack : BackToBack [lowSequence, highSequence] where
  ordered s hs := by
    rcases List.mem_cons.mp hs with rfl | hs
    · exact ⟨by decide, by decide⟩
    · obtain rfl := List.mem_singleton.mp hs
      exact ⟨by decide, by decide⟩
  adjacent := by
    refine List.isChain_cons_cons.mpr ⟨by decide, .singleton _⟩

/-- The table loaded from units. -/
def tableOfUnits (units : List DumpedUnit) : Lineno :=
  (linenoLoadFromDwarfdump {} [] (some (lineDumpText [] (units.map (·.unit)), 0))).2.1

theorem loaded_units {units : List DumpedUnit} (hunits : ∀ d ∈ units, d.unit.WellFormed)
    (hfits : ∀ line ∈ (units.map (·.unit)).flatMap DumpUnit.lines, line.length < maxLineDump) :
    Loaded (units.flatMap DumpedUnit.sequences) (tableOfUnits units).entries :=
  @Loaded.dwarfdump [] units (fun _ h => absurd h List.not_mem_nil) hunits hfits [] 0

theorem lowUnit_wellFormed : lowUnit.unit.WellFormed := functionUnit_wellFormed (by decide) _ _

theorem highUnit_wellFormed : highUnit.unit.WellFormed := functionUnit_wellFormed (by decide) _ _

theorem lowUnit_fits : ∀ line ∈ lowUnit.unit.lines, line.length < maxLineDump := by decide +kernel

theorem highUnit_fits : ∀ line ∈ highUnit.unit.lines, line.length < maxLineDump := by
  decide +kernel

theorem loaded_lowHigh :
    Loaded ([lowSequence] ++ highSequence :: []) (tableOfUnits [lowUnit, highUnit]).entries := by
  refine @loaded_units [lowUnit, highUnit] ?_ ?_
  · simpa using ⟨lowUnit_wellFormed, highUnit_wellFormed⟩
  · simpa [or_imp, forall_and] using ⟨lowUnit_fits, highUnit_fits⟩

theorem loaded_highLow :
    Loaded ([] ++ highSequence :: [lowSequence]) (tableOfUnits [highUnit, lowUnit]).entries := by
  refine @loaded_units [highUnit, lowUnit] ?_ ?_
  · simpa using ⟨highUnit_wellFormed, lowUnit_wellFormed⟩
  · simpa [or_imp, forall_and] using ⟨highUnit_fits, lowUnit_fits⟩

/-- Loaded in the order of their addresses, the end of the lower function answers for the start
of the higher one. -/
theorem end_row_answers :
    BackToBack [lowSequence, highSequence] ∧
    Loaded ([lowSequence] ++ highSequence :: []) (tableOfUnits [lowUnit, highUnit]).entries ∧
    highSequence.first.entry = some ⟨0x1010, 3, 0, "g.c".toList⟩ ∧
    (tableOfUnits [lowUnit, highUnit]).lookupPc
        ((tableOfUnits [lowUnit, highUnit]).runtimeAddr highSequence.first.address) =
      some ⟨0x1010, 12, 0, "f.c".toList⟩ := by
  refine ⟨low_high_backToBack, loaded_lowHigh, by decide, Lineno.lookupPc_runtimeAddr ?_⟩
  rw [loaded_lowHigh.rows_eq]
  decide

/-- Loaded the other way round, each function answers for its start. -/
theorem first_row_found_highLow :
    ∃ e, highSequence.first.entry = some e ∧
      (tableOfUnits [highUnit, lowUnit]).lookupPc
        ((tableOfUnits [highUnit, lowUnit]).runtimeAddr highSequence.first.address) = some e :=
  (first_row_found_iff loaded_highLow).1.mpr
    ⟨⟨0x1010, 3, 0, "g.c".toList⟩, by decide, fun e' h => nomatch h⟩

end Debugger
