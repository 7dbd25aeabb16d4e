/-
`lines` and `lists`: the tables of `cdbg_lineno_print_list` and `cdbg_lineno_print_grouped_list`
of `lineno.c`.

`print_line_table` carries the file and the line of the last row along.  What it prints for `lines`
is each row that matches, and for `lists` the first one of each run of rows of the same file and
line, in both cases below the header of its file (`lists_collapses_lines`).
-/
import Debugger.Dwarfdump
import Debugger.Lineno
import Debugger.Lib.Runs

open Prog

namespace Debugger

/-! ### The text -/

/-- A line that `print_line_table` prints. -/
inductive ListLine
  | noInfo
  | blank
  | file (name : CStr)
  | columns
  | rule
  | row (line : UInt32) (address : Addr) (column : UInt32)
deriving DecidableEq

/-- The variables of the loop. -/
structure ListState where
  currentFile : CStr := []
  lastLine : UInt32 := 0
  hasLastLine : Bool := false

namespace Lineno

variable (ln : Lineno) (fileFilter : Option CStr) (groupConsecutiveLines : Bool)

/-- The loop body, for a row whose file matches: the variables and what is printed. -/
def printEntry (s : ListState) (entry : LineEntry) : ListState × List ListLine :=
  let (s, header) :=
    if s.currentFile ≠ entry.file then
      (({ currentFile := entry.file } : ListState),
        (if s.currentFile ≠ [] then [.blank] else []) ++ [.file entry.file, .columns, .rule])
    else (s, [])
  if groupConsecutiveLines && s.hasLastLine && entry.line = s.lastLine then (s, header)
  else
    ({ s with lastLine := entry.line, hasLastLine := true },
      header ++ [.row entry.line (ln.runtimeAddr entry.address) entry.column])

/-- The loop. -/
def printEntries (s : ListState) : List LineEntry → List ListLine
  | [] => []
  | entry :: entries =>
    if fileMatches entry.file fileFilter then
      let (s, out) := ln.printEntry groupConsecutiveLines s entry
      out ++ printEntries s entries
    else printEntries s entries

/-- `print_line_table` -/
def printLineTable : List ListLine :=
  if ln.entries.length = 0 then [.noInfo]
  else ln.printEntries fileFilter groupConsecutiveLines {} ln.entries

/-- `cdbg_lineno_print_list` -/
def printList : List ListLine := ln.printLineTable fileFilter false

/-- `cdbg_lineno_print_grouped_list` -/
def printGroupedList : List ListLine := ln.printLineTable fileFilter true

end Lineno

/-! ### The rows -/

/-- A row as it is read in the table, with the file above it. -/
structure ListedRow where
  file : CStr
  line : UInt32
  address : Addr
  column : UInt32
deriving DecidableEq

/-- The rows of a table that begins below the header of a file. -/
def listedRows : CStr → List ListLine → List ListedRow
  | _, [] => []
  | _, .file name :: out => listedRows name out
  | file, .row line address column :: out => ⟨file, line, address, column⟩ :: listedRows file out
  | file, _ :: out => listedRows file out

/-- The rows are of the same file and line. -/
def sameLine (e e' : LineEntry) : Bool := e.file = e'.file && e.line = e'.line

/-- The variables behind a row, or at the start. -/
def ListState.behind : Option LineEntry → ListState
  | none => {}
  | some e => { currentFile := e.file, lastLine := e.line, hasLastLine := true }

namespace Lineno

variable (ln : Lineno) (fileFilter : Option CStr) (group : Bool)

/-- The rows that match, in the order of the table. -/
def matching : List LineEntry := ln.entries.filter fun e => fileMatches e.file fileFilter

/-- A row of the table as it is printed. -/
def listed (e : LineEntry) : ListedRow where
  file := e.file
  line := e.line
  address := ln.runtimeAddr e.address
  column := e.column

/-- Printed or not, a row that matches leaves its file and line behind. -/
theorem printEntry_state (s : ListState) (entry : LineEntry) :
    (ln.printEntry group s entry).1 = .behind (some entry) := by
  rw [printEntry]
  by_cases hfile : s.currentFile = entry.file
  · simp only [ne_eq, hfile, not_true_eq_false, if_false]
    split
    · -- the row is left out, and it is like the one before
      rename_i hskip
      simp only [Bool.and_eq_true, decide_eq_true_eq] at hskip
      obtain ⟨currentFile, lastLine, hasLastLine⟩ := s
      obtain ⟨⟨-, hlast⟩, hline⟩ := hskip
      rw [ListState.behind, ← hfile, hline, ← hlast]
    · rfl
  · simp only [ne_eq, hfile, not_false_eq_true, if_true, Bool.and_false, Bool.false_and,
      Bool.false_eq_true, if_false]
    rfl

/-- A row is left out only if it has the file and the line of the one before. -/
theorem listedRows_printEntry (o : Option LineEntry) (entry : LineEntry) (out : List ListLine) :
    listedRows (ListState.behind o).currentFile
        ((ln.printEntry group (.behind o) entry).2 ++ out) =
      (if group && o.any (sameLine · entry) then [] else [ln.listed entry]) ++
        listedRows entry.file out := by
  rw [printEntry]
  by_cases hfile : (ListState.behind o).currentFile = entry.file
  · have hskip : (group && (ListState.behind o).hasLastLine &&
        decide (entry.line = (ListState.behind o).lastLine)) =
          (group && o.any (sameLine · entry)) := by
      cases o with
      | none => simp [ListState.behind]
      | some e =>
        have hsame : e.file = entry.file := hfile
        simp [ListState.behind, sameLine, hsame, eq_comm]
    simp only [ne_eq, hfile, not_true_eq_false, if_false, hskip, List.nil_append]
    split <;> rfl
  · -- below a new header no row is left out
    have hother : o.any (sameLine · entry) = false := by
      cases o with
      | none => rfl
      | some e =>
        have hne : e.file ≠ entry.file := hfile
        simp [sameLine, hne]
    simp only [ne_eq, hfile, not_false_eq_true, if_true, Bool.and_false, Bool.false_and,
      Bool.false_eq_true, if_false, hother]
    split <;> rfl

/-- Behind a row, `lines` prints all rows that match. -/
theorem listedRows_printEntries (o : Option LineEntry) (entries : List LineEntry) :
    listedRows (ListState.behind o).currentFile
        (ln.printEntries fileFilter false (.behind o) entries) =
      (entries.filter fun e => fileMatches e.file fileFilter).map ln.listed := by
  induction entries generalizing o with
  | nil => rfl
  | cons entry entries ih =>
    rw [printEntries, List.filter_cons]
    by_cases hmatch : fileMatches entry.file fileFilter = true
    · rw [if_pos hmatch, if_pos hmatch, List.map_cons]
      dsimp only
      rw [listedRows_printEntry, printEntry_state, Bool.false_and, if_neg Bool.false_ne_true]
      exact congrArg (_ :: ·) (ih (some entry))
    · rw [if_neg hmatch, if_neg hmatch]
      exact ih o

/-- Behind a row, `lists` prints those rows that match and are not of the same file and line as the
matching row before. -/
theorem listedRows_printEntries_grouped (o : Option LineEntry) (entries : List LineEntry) :
    listedRows (ListState.behind o).currentFile
        (ln.printEntries fileFilter true (.behind o) entries) =
      (headsAfter sameLine o (entries.filter fun e => fileMatches e.file fileFilter)).map
        ln.listed := by
  induction entries generalizing o with
  | nil => cases o <;> rfl
  | cons entry entries ih =>
    rw [printEntries, List.filter_cons]
    by_cases hmatch : fileMatches entry.file fileFilter = true
    · rw [if_pos hmatch, if_pos hmatch]
      dsimp only
      rw [listedRows_printEntry, printEntry_state, Bool.true_and]
      have ih := ih (some entry)
      cases o with
      | none => exact congrArg (_ :: ·) ih
      | some e =>
        rw [headsAfter, Option.any_some]
        cases hsame : sameLine e entry with
        | true => exact ih
        | false => exact congrArg (_ :: ·) ih
    · rw [if_neg hmatch, if_neg hmatch]
      exact ih o

/-- An empty table has no rows. -/
theorem listedRows_printLineTable :
    listedRows [] (ln.printLineTable fileFilter group) =
      listedRows [] (ln.printEntries fileFilter group {} ln.entries) := by
  rw [printLineTable]
  split
  · rename_i hempty
    rw [List.length_eq_zero_iff.mp hempty]
    rfl
  · rfl

end Lineno

/-- `lines` prints the rows of the files that match, in the order of the table, and `lists` the
first row of each run of them with the same file and line. -/
theorem lists_collapses_lines (ln : Lineno) (fileFilter : Option CStr) :
    listedRows [] (ln.printList fileFilter) = (ln.matching fileFilter).map ln.listed ∧
    listedRows [] (ln.printGroupedList fileFilter) =
      (runHeads sameLine (ln.matching fileFilter)).map ln.listed ∧
    (listedRows [] (ln.printGroupedList fileFilter)).Sublist
      (listedRows [] (ln.printList fileFilter)) ∧
    (listedRows [] (ln.printGroupedList fileFilter)).length ≤
      (listedRows [] (ln.printList fileFilter)).length := by
  have hlines : listedRows [] (ln.printList fileFilter) =
      (ln.matching fileFilter).map ln.listed := by
    rw [Lineno.printList, ln.listedRows_printLineTable]
    exact ln.listedRows_printEntries fileFilter none ln.entries
  have hlists : listedRows [] (ln.printGroupedList fileFilter) =
      (runHeads sameLine (ln.matching fileFilter)).map ln.listed := by
    rw [Lineno.printGroupedList, ln.listedRows_printLineTable, runHeads_eq]
    exact ln.listedRows_printEntries_grouped fileFilter none ln.entries
  have hsublist : (listedRows [] (ln.printGroupedList fileFilter)).Sublist
      (listedRows [] (ln.printList fileFilter)) := by
    rw [hlines, hlists]
    exact (runHeads_sublist _).map _
  exact ⟨hlines, hlists, hsublist, hsublist.length_le⟩

/-- Two rows of a line with one of another file between them, which is not matched by `a.c`. -/
example :
    let ln : Lineno := { entries := [⟨0x1000, 3, 5, "a.c".toList⟩, ⟨0x1004, 7, 1, "b.c".toList⟩,
      ⟨0x1008, 3, 9, "a.c".toList⟩, ⟨0x100c, 4, 9, "a.c".toList⟩] }
    ln.printGroupedList (some "a.c".toList) =
      [.file "a.c".toList, .columns, .rule, .row 3 0x1000 5, .row 4 0x100c 9] := by
  decide +kernel

end Debugger
