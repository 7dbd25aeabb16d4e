/-
Loading the line table of an executable (`cdbg_lineno_load` of `lineno.c`).

The rows are those that dwarfdump prints for the debug object, and where it gives none those that
the debugger reads from the `__debug_line` section itself.  Whatever dwarfdump prints and the files
hold, the table is the work of one of the two alone or is empty (`linenoLoad_whole`), and a table
that has been loaded has the link base of the symbol table (`loads_same_base`).
-/
import Debugger.LineTable
import Debugger.SourceWindow
import Debugger.SymLoad

open Prog Reading

namespace Debugger

/-! ### `cdbg_lineno_load` -/

/-- `dirname` -/
def dirname (path : CStr) : CStr :=
  if path = [] then ".".toList
  else
    match path.reverse.dropWhile (· = '/') with
    | [] => "/".toList
    | last =>
      match last.dropWhile (· ≠ '/') with
      | [] => ".".toList
      | slashes =>
        match slashes.dropWhile (· = '/') with
        | [] => "/".toList
        | dir => dir.reverse

/-- `"__DWARF"` -/
def dwarfName : List UInt8 := [0x5f, 0x5f, 0x44, 0x57, 0x41, 0x52, 0x46]

/-- `"__debug_line"` -/
def debugLineName : List UInt8 :=
  [0x5f, 0x5f, 0x64, 0x65, 0x62, 0x75, 0x67, 0x5f, 0x6c, 0x69, 0x6e, 0x65]

/-- `"__debug_line_str"` -/
def debugLineStrName : List UInt8 := debugLineName ++ [0x5f, 0x73, 0x74, 0x72]

/-- A line table with the directories of its source files. -/
structure LoadedLines where
  table : Lineno := {}
  dirs : SourceDirs := {}

/-- What `parse_line_table` finds: the memory of the debugger, in which the debug object is mapped
at `base`, and what is behind `std_lengths`; each of its loops is given `fuel` rounds. -/
structure ParserEnv where
  mem : Mem
  stack : ℕ → UInt8
  base : Addr
  fuel : ℕ

/-- `debug_obj`: the dSYM's object, or the executable where there is no dSYM. -/
def debugObject (host : Host) (executablePath : CStr) : CStr :=
  (dsymObjectPath host executablePath).getD executablePath

def lineDumpCommand (debugObj : CStr) : CStr :=
  "dwarfdump --debug-line '".toList ++ (debugObj ++ "' 2>/dev/null".toList)

/-- What dwarfdump prints for the debug object, with its exit status. -/
def lineDumpPipe (host : Host) (debugObj : CStr) : Option (List Char × Int) :=
  if (lineDumpCommand debugObj).length ≥ pathMax + 64 then none
  else host.popen (lineDumpCommand debugObj)

section Load

variable (host : Host) (env : ParserEnv)

/-- `line_str` and `line_str_size`, of the section that has been found. -/
def mappedLineStr (dwarf : MappedFile) : Option (UInt32 × UInt32) → LineStr
  | none => none
  | some (offset, size) =>
    if size > 0 ∧ offset.toNat + size.toNat ≤ dwarf.size then
      some (env.base + offset.toUInt64, size.toUInt64)
    else none

/-- The part of `cdbg_lineno_load` that reads the debug object itself; `none` when a byte outside
of it is looked for in its headers, or a loop of the parser has not ended. -/
def linenoLoadSection (dwarf : MappedFile) (out : LoadedLines) : Option (Int × LoadedLines) := do
  match ← dwarf.read (machoFindSection dwarf dwarfName debugLineName) with
  | none => return (-1, out)
  | some (offset, size) =>
    let lineStr ← dwarf.read (machoFindSection dwarf dwarfName debugLineStrName)
    if offset.toNat + size.toNat > dwarf.size then return (-1, out)
    else
      let (rc, rows) ← parseLineTable env.mem env.stack (mappedLineStr env dwarf lineStr) env.fuel
        (env.base + offset.toUInt64) size.toUInt64
      if rc ≠ 0 ∨ rows = [] then return (-1, {})
      else return (0, { out with table := { out.table with entries := rows } })

/-- The part of `cdbg_lineno_load` behind `lineno_load_from_dwarfdump`. -/
def linenoLoadFiles (executablePath debugObj exeDir : CStr) : Option (Int × LoadedLines) :=
  match host.mapFile executablePath with
  | none => some (-1, { dirs := { exeDir := exeDir } })
  | some exe => do
    let linkBase ← exe.read (machoTextVmaddr exe)
    let out := { table := { linkBase := linkBase }, dirs := { exeDir := exeDir } : LoadedLines }
    match host.mapFile debugObj with
    | none => return (-1, out)
    | some dwarf => linenoLoadSection env dwarf out

/-- `cdbg_lineno_load` -/
def linenoLoad (executablePath : CStr) : Option (Int × LoadedLines) :=
  let exeDir := snprintf maxFile (dirname (snprintf maxFile executablePath))
  match host.mapFile executablePath with
  | none => some (-1, { dirs := { exeDir := exeDir } })
  | some exe => do
    let linkBase ← exe.read (machoTextVmaddr exe)
    let debugObj := debugObject host executablePath
    match linenoLoadFromDwarfdump { linkBase := linkBase } [] (lineDumpPipe host debugObj) with
    | (rc, table, compDir) =>
      if rc = 0 then
        return (0, { table := table, dirs := { compDir := compDir, exeDir := exeDir } })
      else linenoLoadFiles host env executablePath debugObj exeDir

end Load

/-! ### The names of the files -/

/-- The names in a table are in buffers of their size. -/
def StoredRows (entries : List LineEntry) : Prop := ∀ entry ∈ entries, entry.file.length < maxFile

section StoredRows

variable {mem : Mem} {stack : ℕ → UInt8} {lineStr : LineStr} {hdr : LineHeader}
  {entries rows : List LineEntry}

theorem storedRows_nil : StoredRows [] := fun _ h => absurd h List.not_mem_nil

theorem StoredRows.append (h : StoredRows entries) (h' : StoredRows rows) :
    StoredRows (entries ++ rows) := fun entry hentry =>
  (List.mem_append.mp hentry).elim (h entry) (h' entry)

theorem storedRows_emitRow (state : LineState) : StoredRows (emitRow hdr state) := by
  rw [emitRow]
  split
  · exact storedRows_nil
  · split
    · exact storedRows_nil
    · intro entry hentry
      rw [List.mem_singleton.mp hentry]
      exact length_snprintf_lt (by decide) _

theorem StoredRows.emit {p : ProgramPoint} (h : StoredRows p.rows) :
    StoredRows (p.emit hdr).rows := h.append (storedRows_emitRow p.state)

theorem StoredRows.extendedOp {p : ProgramPoint} (h : StoredRows p.rows) :
    StoredRows (extendedOp mem hdr p).rows := by
  rw [Debugger.extendedOp]
  generalize (readU8 mem).run p.unit = r
  obtain ⟨sub, unit⟩ := r
  dsimp only
  by_cases hend : sub = 1
  · rw [if_pos hend]
    exact h.append (storedRows_emitRow p.state)
  rw [if_neg hend]
  by_cases haddress : sub = 2
  · rw [if_pos haddress]
    generalize (readU64 mem).run unit = r8, (readU32 mem).run unit = r4
    by_cases h8 : hdr.addressSize = 8
    · rw [if_pos h8]
      exact h
    · rw [if_neg h8]
      by_cases h4 : hdr.addressSize = 4
      · rw [if_pos h4]
        exact h
      · rw [if_neg h4]
        exact h
  · rw [if_neg haddress]
    exact h

theorem StoredRows.standardOp {p : ProgramPoint} (h : StoredRows p.rows) (opcode : UInt8) :
    StoredRows (standardOp mem stack hdr opcode p).rows := by
  rw [Debugger.standardOp]
  split
  · exact h.emit
  -- the other opcodes set a register or move the cursor
  all_goals repeat first | exact h | split

theorem StoredRows.specialOp {p : ProgramPoint} (h : StoredRows p.rows) (opcode : UInt8) :
    StoredRows (specialOp hdr opcode p).rows := h.append (storedRows_emitRow _)

theorem StoredRows.opcodeRound {p : ProgramPoint} (h : StoredRows p.rows) :
    Sum.elim (fun p' : ProgramPoint => StoredRows p'.rows) (fun r => StoredRows r.2)
      (opcodeRound mem stack hdr p) := by
  rw [Debugger.opcodeRound]
  split
  · exact h
  generalize (readU8 mem).run p.unit = r
  obtain ⟨opcode, unit⟩ := r
  dsimp only
  split
  · generalize (readUleb128 mem).run unit = r
    obtain ⟨extLen, unit'⟩ := r
    dsimp only
    split
    · exact h
    · exact StoredRows.extendedOp (p := { p with unit := unit' }) h
  · split
    · exact StoredRows.standardOp (p := { p with unit := unit }) h opcode
    · exact StoredRows.specialOp (p := { p with unit := unit }) h opcode

theorem StoredRows.unitRound {fuel : ℕ} {p : TablePoint} (h : StoredRows p.rows) :
    Sum.elim (fun p' : TablePoint => StoredRows p'.rows)
      (fun out => ∀ r, out = some r → StoredRows r.2)
      (unitRound mem stack lineStr fuel p) := by
  have hleft : ∀ {rc : Int} {rows : List LineEntry}, StoredRows rows →
      ∀ r, some (rc, rows) = some r → StoredRows r.2 := fun hrows r hr =>
    Option.some.inj hr ▸ hrows
  rw [Debugger.unitRound]
  split
  · exact hleft h
  cases readUnit mem lineStr p.cursor with
  | fail => exact hleft h
  | skip unitEnd => exact h
  | program hdr unit =>
    dsimp only
    cases hprogram : parseLineProgram mem stack fuel hdr unit p.rows with
    | none => exact fun r hr => absurd hr (Option.some_ne_none r).symm
    | some out =>
      obtain ⟨rc, rows⟩ := out
      have hrows : StoredRows rows :=
        Loop.run_ensures (P := fun r : Int × List LineEntry => StoredRows r.2)
          (fun p hp => StoredRows.opcodeRound (p := p) hp) h hprogram
      dsimp only
      split
      · exact hleft hrows
      · exact hrows

theorem storedRows_parseLineTable {fuel : ℕ} {start : Addr} {size : UInt64} {rc : Int}
    (h : parseLineTable mem stack lineStr fuel start size = some (rc, rows)) :
    StoredRows rows := by
  have hrun := Option.join_eq_some_iff.mp h
  refine Loop.run_ensures (fun p hp => StoredRows.unitRound (p := p) hp) ?_ hrun (rc, rows) rfl
  exact storedRows_nil

end StoredRows

/-! ### Whatever dwarfdump prints and the files hold -/

/-- The rows in a text of dwarfdump. -/
def dumpedRows (text : List Char) : List LineEntry :=
  ((fgetsLines maxLineDump text).foldl LineDump.step { entries := [] }).entries

/-- dwarfdump has printed the rows of the debug object. -/
def Dumped (host : Host) (debugObj : CStr) (rows : List LineEntry) : Prop :=
  ∃ text, lineDumpPipe host debugObj = some (text, 0) ∧ rows = dumpedRows text

/-- The parser has read the rows from the section of the debug object. -/
def Parsed (host : Host) (env : ParserEnv) (debugObj : CStr) (rows : List LineEntry) : Prop :=
  ∃ dwarf offset size lineStr, host.mapFile debugObj = some dwarf ∧
    dwarf.read (machoFindSection dwarf dwarfName debugLineName) = some (some (offset, size)) ∧
    dwarf.read (machoFindSection dwarf dwarfName debugLineStrName) = some lineStr ∧
    offset.toNat + size.toNat ≤ dwarf.size ∧
    parseLineTable env.mem env.stack (mappedLineStr env dwarf lineStr) env.fuel
      (env.base + offset.toUInt64) size.toUInt64 = some (0, rows)

/-- The return code tells whether there are rows; they come from one of the two sources, the second
one where the first gives none, and are at the link base of the executable. -/
structure LinesOutcome (host : Host) (env : ParserEnv) (executablePath : CStr) (rc : Int)
    (table : Lineno) : Prop where
  code : rc = 0 ∧ table.entries ≠ [] ∨ rc = -1 ∧ table.entries = []
  stored : StoredRows table.entries
  base : rc = 0 → table.slide = 0 ∧ ∃ exe, host.mapFile executablePath = some exe ∧
    exe.read (machoTextVmaddr exe) = some table.linkBase
  source : rc = 0 → Dumped host (debugObject host executablePath) table.entries ∨
    (∀ rows, Dumped host (debugObject host executablePath) rows → rows = []) ∧
      Parsed host env (debugObject host executablePath) table.entries

section Outcome

variable {host : Host} {env : ParserEnv} {path : CStr} {rc : Int} {out : LoadedLines}

theorem StoredRows.row {st : LineDump} (h : StoredRows st.entries) (line : CStr) :
    StoredRows (st.row line).entries := by
  rw [LineDump.row]
  split
  · split
    · refine h.append fun entry hentry => ?_
      rw [List.mem_singleton.mp hentry]
      exact length_snprintf_lt (by decide) _
    · exact h
  · exact h

theorem StoredRows.attribute {st st' : LineDump} (h : StoredRows st.entries) {line : CStr}
    (hst : st.attribute line = some st') : StoredRows st'.entries := by
  rw [LineDump.attribute] at hst
  dsimp only at hst
  repeat' split at hst
  all_goals first
    | exact Option.some.inj hst ▸ h
    | exact absurd hst (Option.some_ne_none st').symm

theorem StoredRows.step {st : LineDump} (h : StoredRows st.entries) (line : CStr) :
    StoredRows (st.step line).entries := by
  rw [LineDump.step]
  split
  · exact h
  split
  · exact h
  split
  · exact h
  split
  · rename_i st' hst
    split at hst
    · exact h.attribute hst
    · exact absurd hst (Option.some_ne_none st').symm
  · have hclosed : StoredRows ({ st with havePendingFile := false } : LineDump).entries := h
    exact hclosed.row line

theorem storedRows_dumpedRows (text : List Char) : StoredRows (dumpedRows text) := by
  have hlines : ∀ {lines : List CStr} {st : LineDump}, StoredRows st.entries →
      StoredRows (lines.foldl LineDump.step st).entries := by
    intro lines
    induction lines with
    | nil => exact fun h => h
    | cons line lines ih => exact fun h => ih (h.step line)
  exact hlines storedRows_nil

/-- What `lineno_load_from_dwarfdump` makes of an empty table. -/
theorem linenoLoadFromDwarfdump_cases {debugObj : CStr} {linkBase : Addr} {table : Lineno}
    {compDir : CStr}
    (h : linenoLoadFromDwarfdump { linkBase := linkBase } [] (lineDumpPipe host debugObj) =
      (rc, table, compDir)) :
    (rc = 0 ∧ Dumped host debugObj table.entries ∧ table.entries ≠ [] ∧
        StoredRows table.entries ∧ table.slide = 0 ∧ table.linkBase = linkBase) ∨
      rc ≠ 0 ∧ ∀ rows, Dumped host debugObj rows → rows = [] := by
  cases hpipe : lineDumpPipe host debugObj with
  | none =>
    rw [hpipe] at h
    obtain ⟨rfl, -⟩ := Prod.mk.inj h
    refine .inr ⟨neg_one_ne, fun rows hrows => ?_⟩
    obtain ⟨text, htext, -⟩ := hrows
    exact absurd (hpipe.symm.trans htext) (Option.some_ne_none _).symm
  | some piped =>
    obtain ⟨text, closeRc⟩ := piped
    rw [hpipe] at h
    obtain ⟨hrc, h⟩ := Prod.mk.inj h
    obtain ⟨rfl, -⟩ := Prod.mk.inj h
    by_cases hok : closeRc = 0 ∧ (dumpedRows text).length > 0
    · refine .inl ⟨hrc.symm.trans (if_pos hok), ⟨text, ?_, rfl⟩, List.ne_nil_of_length_pos hok.2,
        storedRows_dumpedRows text, rfl, rfl⟩
      rw [hpipe, hok.1]
    · refine .inr ⟨?_, fun rows hrows => ?_⟩
      · rw [← hrc]
        exact fun h => neg_one_ne ((if_neg hok).symm.trans h)
      · obtain ⟨text', htext, rfl⟩ := hrows
        obtain ⟨rfl, rfl⟩ := Prod.mk.inj (Option.some.inj (hpipe.symm.trans htext))
        by_contra hne
        exact hok ⟨rfl, List.length_pos_of_ne_nil hne⟩

/-- What is read from the section of a debug object for a table that is still empty. -/
theorem linenoLoadSection_cases {dwarf : MappedFile} {debugObj : CStr} {start : LoadedLines}
    (hstart : start.table.entries = []) (hdwarf : host.mapFile debugObj = some dwarf)
    (h : linenoLoadSection env dwarf start = some (rc, out)) :
    (rc = 0 ∧ Parsed host env debugObj out.table.entries ∧ out.table.entries ≠ [] ∧
        StoredRows out.table.entries ∧ out.table.slide = start.table.slide ∧
        out.table.linkBase = start.table.linkBase) ∨
      rc = -1 ∧ out.table.entries = [] := by
  rw [linenoLoadSection] at h
  simp only [Option.bind_eq_bind, Option.bind_eq_some_iff] at h
  obtain ⟨found, hfind, h⟩ := h
  cases found with
  | none =>
    obtain ⟨rfl, rfl⟩ := Prod.mk.inj (Option.some.inj h)
    exact .inr ⟨rfl, hstart⟩
  | some place =>
    obtain ⟨offset, size⟩ := place
    simp only [Option.bind_eq_some_iff] at h
    obtain ⟨lineStr, hstr, h⟩ := h
    split at h
    · obtain ⟨rfl, rfl⟩ := Prod.mk.inj (Option.some.inj h)
      exact .inr ⟨rfl, hstart⟩
    rename_i hfits
    simp only [Option.bind_eq_some_iff] at h
    obtain ⟨parsed, hparse, h⟩ := h
    obtain ⟨rc', rows⟩ := parsed
    dsimp only at h
    split at h
    · obtain ⟨rfl, rfl⟩ := Prod.mk.inj (Option.some.inj h)
      exact .inr ⟨rfl, rfl⟩
    rename_i hgood
    obtain ⟨rfl, rfl⟩ := Prod.mk.inj (Option.some.inj h)
    have hrc : rc' = 0 := by
      by_contra hne
      exact hgood (.inl hne)
    rw [hrc] at hparse
    exact .inl ⟨rfl, ⟨dwarf, offset, size, lineStr, hdwarf, hfind, hstr, Nat.le_of_not_gt hfits,
      hparse⟩, fun hnil => hgood (.inr hnil), storedRows_parseLineTable hparse, rfl, rfl⟩

theorem linenoLoadFiles_cases {debugObj exeDir : CStr}
    (h : linenoLoadFiles host env path debugObj exeDir = some (rc, out)) :
    (rc = 0 ∧ Parsed host env debugObj out.table.entries ∧ out.table.entries ≠ [] ∧
        StoredRows out.table.entries ∧ out.table.slide = 0 ∧ ∃ exe, host.mapFile path = some exe ∧
          exe.read (machoTextVmaddr exe) = some out.table.linkBase) ∨
      rc = -1 ∧ out.table.entries = [] := by
  rw [linenoLoadFiles] at h
  cases hexe : host.mapFile path with
  | none =>
    rw [hexe] at h
    obtain ⟨rfl, rfl⟩ := Prod.mk.inj (Option.some.inj h)
    exact .inr ⟨rfl, rfl⟩
  | some exe =>
    rw [hexe] at h
    simp only [Option.bind_eq_bind, Option.bind_eq_some_iff] at h
    obtain ⟨linkBase, hbase, h⟩ := h
    cases hdwarf : host.mapFile debugObj with
    | none =>
      rw [hdwarf] at h
      obtain ⟨rfl, rfl⟩ := Prod.mk.inj (Option.some.inj h)
      exact .inr ⟨rfl, rfl⟩
    | some dwarf =>
      rw [hdwarf] at h
      refine (linenoLoadSection_cases rfl hdwarf h).imp_left fun hread => ?_
      obtain ⟨hrc, hparsed, hne, hstored, hslide, hlink⟩ := hread
      exact ⟨hrc, hparsed, hne, hstored, hslide, exe, rfl, hbase.trans (congrArg some hlink.symm)⟩

/-- Whatever dwarfdump prints and whatever the files hold. -/
theorem linenoLoad_whole (h : linenoLoad host env path = some (rc, out)) :
    LinesOutcome host env path rc out.table := by
  have hfailed : ∀ {out : LoadedLines}, out.table.entries = [] →
      LinesOutcome host env path (-1) out.table := fun hnil =>
    { code := .inr ⟨rfl, hnil⟩
      stored := by
        rw [hnil]
        exact storedRows_nil
      base := fun h => absurd h neg_one_ne
      source := fun h => absurd h neg_one_ne }
  rw [linenoLoad] at h
  dsimp only at h
  cases hexe : host.mapFile path with
  | none =>
    rw [hexe] at h
    obtain ⟨rfl, rfl⟩ := Prod.mk.inj (Option.some.inj h)
    exact hfailed rfl
  | some exe =>
    rw [hexe] at h
    simp only [Option.bind_eq_bind, Option.bind_eq_some_iff] at h
    obtain ⟨linkBase, hbase, h⟩ := h
    rcases hdump : linenoLoadFromDwarfdump { linkBase := linkBase } []
      (lineDumpPipe host (debugObject host path)) with ⟨rc', table, compDir⟩
    rw [hdump] at h
    dsimp only at h
    rcases linenoLoadFromDwarfdump_cases hdump with
      ⟨hrc, hdumped, hne, hstored, hslide, hlink⟩ | ⟨hrc, hnone⟩
    · rw [if_pos hrc] at h
      obtain ⟨rfl, rfl⟩ := Prod.mk.inj (Option.some.inj h)
      exact ⟨.inl ⟨rfl, hne⟩, hstored, fun _ => ⟨hslide, exe, hexe, by rw [hbase, hlink]⟩,
        fun _ => .inl hdumped⟩
    · rw [if_neg hrc] at h
      rcases linenoLoadFiles_cases h with
        ⟨hrc, hparsed, hne, hstored, hslide, hread⟩ | ⟨rfl, hnil⟩
      · exact ⟨.inl ⟨hrc, hne⟩, hstored, fun _ => ⟨hslide, hread⟩, fun _ => .inr ⟨hnone, hparsed⟩⟩
      · exact hfailed hnil

/-- A table printed by dwarfdump for an executable that holds an image. -/
theorem linenoLoad_units {img : MachImage} {exe : MappedFile} {preamble : List CStr}
    {units : List DumpUnit} (himg : img.HeldBy exe) (hexe : host.mapFile path = some exe)
    (hpipe : lineDumpPipe host (debugObject host path) = some (lineDumpText preamble units, 0))
    (hpreamble : ∀ line ∈ preamble, IsUnread line) (hunits : ∀ u ∈ units, u.WellFormed)
    (hfits : ∀ line ∈ preamble ++ units.flatMap DumpUnit.lines, line.length < maxLineDump)
    (hrows : units.flatMap DumpUnit.entries ≠ []) :
    ∃ dirs, linenoLoad host env path = some (0, {
      table := { entries := units.flatMap DumpUnit.entries, linkBase := img.textVmaddr }
      dirs := dirs }) := by
  have hread : exe.read (machoTextVmaddr exe) = some img.textVmaddr :=
    MappedFile.read_eq (yields_machoTextVmaddr himg)
  rcases hload : linenoLoadFromDwarfdump { linkBase := img.textVmaddr } []
    (lineDumpPipe host (debugObject host path)) with ⟨rc, table, compDir⟩
  have hentries := entries_of_units hpreamble hunits hfits { linkBase := img.textVmaddr } [] 0
  rw [← hpipe, hload] at hentries
  have htable : table.entries = units.flatMap DumpUnit.entries := hentries
  rcases linenoLoadFromDwarfdump_cases hload with
    ⟨hrc, -, -, -, hslide, hlink⟩ | ⟨-, hnone⟩
  · refine ⟨{ compDir := compDir, exeDir := snprintf maxFile (dirname (snprintf maxFile path)) },
      ?_⟩
    rw [linenoLoad, hexe]
    simp only [hread, Option.bind_eq_bind, Option.bind_some, hload, if_pos hrc]
    rw [← htable, ← hlink, ← hslide]
    rfl
  · have hdumped := hnone (units.flatMap DumpUnit.entries) ⟨_, hpipe, ?_⟩
    · exact absurd hdumped hrows
    · exact (entries_of_units hpreamble hunits hfits {} [] 0).symm

/-- Symbols that have been loaded are at the link base of the executable, if that is not 0. -/
theorem symsLoad_linkBase {exe : MappedFile} {linkBase : Addr} {syms : Syms}
    (hexe : host.mapFile path = some exe) (hbase : exe.read (machoTextVmaddr exe) = some linkBase)
    (hne : linkBase ≠ 0) (h : symsLoad host path = some (0, syms)) : syms.linkBase = linkBase := by
  have hexeBase : exeLinkBase host path = some linkBase := by
    rw [exeLinkBase, hexe]
    exact hbase
  rw [symsLoad, hexeBase] at h
  simp only [Option.bind_eq_bind, Option.bind_some] at h
  split at h
  · obtain ⟨-, rfl⟩ := Prod.mk.inj (Option.some.inj h)
    rfl
  rw [symsLoadFiles, hexe] at h
  simp only [hbase, Option.bind_eq_bind, Option.bind_some, Option.bind_eq_some_iff] at h
  obtain ⟨read, -, h⟩ := h
  split at h
  · obtain ⟨-, rfl⟩ := Prod.mk.inj (Option.some.inj h)
    rfl
  split at h
  · obtain ⟨-, rfl⟩ := Prod.mk.inj (Option.some.inj h)
    rfl
  · simp only [symsLoadDsym, if_neg hne, Option.bind_eq_bind, Option.bind_some,
      Option.bind_eq_some_iff] at h
    obtain ⟨read', -, h⟩ := h
    obtain ⟨-, rfl⟩ := Prod.mk.inj (Option.some.inj h)
    rfl

/-- The two tables of an executable are at the same link base. -/
theorem loads_same_base {syms : Syms} (hlines : linenoLoad host env path = some (0, out))
    (hsyms : symsLoad host path = some (0, syms)) (hne : out.table.linkBase ≠ 0) :
    syms.linkBase = out.table.linkBase := by
  obtain ⟨-, exe, hexe, hread⟩ := (linenoLoad_whole hlines).base rfl
  exact symsLoad_linkBase hexe hread hne hsyms

end Outcome

/-- Loading the lines of an executable.  Whatever dwarfdump prints and the files hold, the table is
loaded whole from one of the two sources or is empty; where dwarfdump prints units with rows, it has
exactly these rows. -/
theorem lines_loaded (host : Host) (env : ParserEnv) (path : CStr) :
    (∀ rc out, linenoLoad host env path = some (rc, out) →
      LinesOutcome host env path rc out.table) ∧
    ∀ (img : MachImage) (exe : MappedFile) (preamble : List CStr) (units : List DumpUnit),
      img.HeldBy exe → host.mapFile path = some exe →
      lineDumpPipe host (debugObject host path) = some (lineDumpText preamble units, 0) →
      (∀ line ∈ preamble, IsUnread line) → (∀ u ∈ units, u.WellFormed) →
      (∀ line ∈ preamble ++ units.flatMap DumpUnit.lines, line.length < maxLineDump) →
      units.flatMap DumpUnit.entries ≠ [] →
      ∃ dirs, linenoLoad host env path = some (0, {
        table := { entries := units.flatMap DumpUnit.entries, linkBase := img.textVmaddr }
        dirs := dirs }) :=
  ⟨fun _ _ h => linenoLoad_whole h, fun _ _ _ _ himg hexe hpipe hpreamble hunits hfits hrows =>
    linenoLoad_units himg hexe hpipe hpreamble hunits hfits hrows⟩

/-- A small executable, of which dwarfdump prints two units. -/
def twoUnitsHost : Host where
  readable _ := false
  mapFile _ := some smallFile
  popen _ := some (lineDumpText [] twoUnits, 0)

/-- An environment for a parser that is not run. -/
def noParser : ParserEnv where
  mem _ := 0
  stack _ := 0
  base := 0
  fuel := 0

theorem lines_loaded_twoUnits : ∃ dirs, linenoLoad twoUnitsHost noParser "/bin/two".toList =
    some (0, {
      table := { entries := twoUnits.flatMap DumpUnit.entries, linkBase := smallImage.textVmaddr }
      dirs := dirs }) := by
  have hpipe : lineDumpPipe twoUnitsHost (debugObject twoUnitsHost "/bin/two".toList) =
      some (lineDumpText [] twoUnits, 0) := if_neg (by decide +kernel)
  exact (lines_loaded twoUnitsHost _ _).2 smallImage smallFile [] twoUnits smallImage_heldBy rfl
    hpipe (fun _ h => absurd h List.not_mem_nil) twoUnits_wellFormed (by decide +kernel)
    (by decide +kernel)

end Debugger
