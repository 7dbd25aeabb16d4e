/-
Which file a row belongs to: `dwarfdump_resolve_path` on the tables dwarfdump prints, and
`build_file_path` on the tables `parse_line_table` builds.

Both read the same version 5 tables, but `parse_line_table` puts an entry of its own in front
of the file table, so that index `k + 1` finds entry `k`, and index 0 none.
`loaders_agree_iff` says for which rows the two loaders nevertheless agree.
-/
import Debugger.LineTable

open Prog

namespace Debugger

/-- A row of the line table as both loaders see it. -/
structure LineRow where
  address : Addr
  line : UInt32
  column : UInt32
  fileIndex : UInt32
deriving DecidableEq, Repr

/-! ### The two loaders -/

/-- `dwarfdump_resolve_path` -/
def dwarfdumpResolvePath (dirs : List CStr) (files : FileTable) (fileIdx : UInt32) : CStr :=
  let (name, dirIndex) := files[fileIdx.toNat]?.getD ([], 0)
  let dir := dirs[dirIndex.toNat]?.getD []
  snprintf maxFile
    (if name = [] then "<unknown>".toList
    else if '/' ∈ name ∨ dir = [] then name
    else dir ++ '/' :: name)

/-- What the dwarfdump loader pushes for a row (`lineno_push`). -/
def dwarfdumpRow (dirs : List CStr) (files : FileTable) (row : LineRow) : List LineEntry :=
  [{ address := row.address, line := row.line, column := row.column,
     file := snprintf maxFile (dwarfdumpResolvePath dirs files row.fileIndex) }]

/-- The tables `parse_line_table` builds from those of a version 5 unit. -/
def fallbackTables (dirs : List CStr) (files : FileTable) : List CStr × FileTable :=
  (dirs, ([], 0) :: files)

/-- What the fallback loader pushes for a row (`emit_row`). -/
def fallbackRow (hdr : LineHeader) (dirs : List CStr) (files : FileTable) (row : LineRow) :
    List LineEntry :=
  emitRow { hdr with dirs := (fallbackTables dirs files).1, files := (fallbackTables dirs files).2 }
    { address := row.address, line := row.line.toUInt64.toInt64,
      fileIndex := row.fileIndex.toUInt64, column := row.column.toUInt64 }

/-- The header of a version 5 unit has the tables read by `parse_v5_directories` and
`parse_v5_file_names`, the latter behind an entry without a name. -/
theorem parsePrologue_tables {mem : Mem} {lineStr : LineStr} {addressSize : UInt8}
    {c c' : ParseCursor} {hdr : LineHeader}
    (h : (parsePrologue mem lineStr 5 addressSize).run.run c = (some hdr, c')) :
    ∃ c₁ c₂ dirs files, (parseV5Directories mem lineStr).run.run c₁ = (some dirs, c₂) ∧
      (parseV5FileNames mem lineStr).run.run c₂ = (some files, c') ∧
      (hdr.dirs, hdr.files) = fallbackTables dirs files := by
  rw [parsePrologue] at h
  -- the six fields and the opcode lengths before the tables
  obtain ⟨_, _, -, h⟩ := Parser.run_bind_some h
  obtain ⟨_, _, -, h⟩ := Parser.run_bind_some h
  obtain ⟨_, _, -, h⟩ := Parser.run_bind_some h
  obtain ⟨_, _, -, h⟩ := Parser.run_bind_some h
  obtain ⟨_, _, -, h⟩ := Parser.run_bind_some h
  obtain ⟨_, _, -, h⟩ := Parser.run_bind_some h
  obtain ⟨_, _, -, h⟩ := Parser.run_bind_some h
  rw [if_pos rfl] at h
  obtain ⟨dirs, c₂, hdirs, h⟩ := Parser.run_bind_some h
  obtain ⟨files, c₃, hfiles, h⟩ := Parser.run_bind_some h
  obtain ⟨hhdr, rfl⟩ := Prod.mk.inj h
  obtain rfl := Option.some.inj hhdr
  exact ⟨_, c₂, dirs, files, hdirs, hfiles, rfl⟩

/-! ### Where they agree -/

/-- The directory of a file entry. -/
def dirOf (dirs : List CStr) (file : CStr × UInt64) : CStr := dirs[file.2.toNat]?.getD []

/-- The directory and the name of a file entry, joined. -/
def filePath (dirs : List CStr) (file : CStr × UInt64) : CStr :=
  if dirOf dirs file = [] then file.1 else dirOf dirs file ++ '/' :: file.1

/-- The path of an entry, as far as an array of `CDBG_LINENO_MAX_FILE` bytes holds it, is that
of the entry behind it. -/
inductive SamePath (dirs : List CStr) (file : CStr × UInt64) : Option (CStr × UInt64) → Prop
  | relative {next : CStr × UInt64} (hname : next.1 ≠ []) (hslash : '/' ∉ next.1)
      (hpath : (filePath dirs file).take (maxFile - 1) = (filePath dirs next).take (maxFile - 1)) :
      SamePath dirs file (some next)
  /-- dwarfdump's loader takes a name with a slash without its directory -/
  | slash {next : CStr × UInt64} (hslash : '/' ∈ next.1)
      (hpath : (filePath dirs file).take (maxFile - 1) = next.1.take (maxFile - 1)) :
      SamePath dirs file (some next)
  /-- the entry behind it has no name, or there is none -/
  | unknown {next : Option (CStr × UInt64)} (hname : ∀ f, next = some f → f.1 = [])
      (hpath : (filePath dirs file).take (maxFile - 1) = "<unknown>".toList) :
      SamePath dirs file next

section Agree

variable {dirs : List CStr} {files : FileTable} {row : LineRow} {hdr : LineHeader}

theorem snprintf_snprintf_maxFile (text : CStr) :
    snprintf maxFile (snprintf maxFile text) = text.take (maxFile - 1) :=
  snprintf_snprintf maxFile text

/-- A row of line 0 is not emitted. -/
theorem line_le_zero_iff {line : UInt32} : line.toUInt64.toInt64 ≤ 0 ↔ line = 0 := by
  have hline : line.toUInt64.toInt64.toInt = line.toNat := by
    have hlt : 2 * line.toUInt64.toBitVec.toNat < 2 ^ 64 := by
      have := line.toNat_lt
      change 2 * line.toUInt64.toNat < 2 ^ 64
      rw [UInt32.toNat_toUInt64]
      omega
    exact (BitVec.toInt_eq_toNat_of_lt hlt).trans (congrArg _ (UInt32.toNat_toUInt64 line))
  have h0 : (0 : Int64).toInt = 0 := rfl
  have h0' : (0 : UInt32).toNat = 0 := rfl
  rw [Int64.le_iff_toInt_le, hline, h0, ← UInt32.toNat_inj, h0']
  omega

theorem buildFilePath_zero {files : FileTable} : buildFilePath dirs files 0 = none := rfl

/-- Behind the entry put in front, index `k + 1` finds entry `k`. -/
theorem buildFilePath_fallback {k : ℕ} {fileIndex : UInt32} (h : fileIndex.toNat = k + 1) :
    buildFilePath dirs (fallbackTables dirs files).2 fileIndex.toUInt64 =
      files[k]?.map fun file => snprintf maxFile (filePath dirs file) := by
  have hne : fileIndex.toUInt64 ≠ 0 := fun h0 => by
    have := congrArg UInt64.toNat h0
    rw [UInt32.toNat_toUInt64, h] at this
    exact Nat.succ_ne_zero k this
  rw [buildFilePath, if_neg hne, UInt32.toNat_toUInt64, h]
  rfl

/-- The path dwarfdump's loader gives a row is the path of an entry exactly when the entry is
the same as that of the row. -/
theorem samePath_iff {file : CStr × UInt64} {fileIndex : UInt32} :
    (filePath dirs file).take (maxFile - 1) =
        snprintf maxFile (dwarfdumpResolvePath dirs files fileIndex) ↔
      SamePath dirs file files[fileIndex.toNat]? := by
  rw [dwarfdumpResolvePath]
  generalize files[fileIndex.toNat]? = next
  have hunknown : "<unknown>".toList.take (maxFile - 1) = "<unknown>".toList := by decide
  cases next with
  | none =>
    dsimp only [Option.getD_none]
    rw [if_pos rfl, snprintf_snprintf_maxFile, hunknown]
    refine ⟨fun h => .unknown (fun f hf => nomatch hf) h, fun h => ?_⟩
    cases h with
    | unknown hname hpath => exact hpath
  | some next =>
    obtain ⟨name, dirIndex⟩ := next
    dsimp only [Option.getD_some]
    by_cases hname : name = []
    · rw [if_pos hname, snprintf_snprintf_maxFile, hunknown]
      refine ⟨fun h => .unknown (fun f hf => by rw [← Option.some.inj hf]; exact hname) h,
        fun h => ?_⟩
      cases h with
      | relative hne _ _ => exact absurd hname hne
      | slash hmem _ => exact absurd hmem (by rw [hname]; exact List.not_mem_nil)
      | unknown _ hpath => exact hpath
    rw [if_neg hname, snprintf_snprintf_maxFile]
    by_cases hslash : '/' ∈ name
    · rw [if_pos (.inl hslash)]
      refine ⟨fun h => .slash hslash h, fun h => ?_⟩
      cases h with
      | relative _ hno _ => exact absurd hslash hno
      | slash _ hpath => exact hpath
      | unknown hno _ => exact absurd (hno _ rfl) hname
    · have hjoin : (if '/' ∈ name ∨ dirs[dirIndex.toNat]?.getD [] = [] then name
          else dirs[dirIndex.toNat]?.getD [] ++ '/' :: name) = filePath dirs (name, dirIndex) := by
        rw [filePath, dirOf]
        simp only [hslash, false_or]
      rw [hjoin]
      refine ⟨fun h => .relative hname hslash h, fun h => ?_⟩
      cases h with
      | relative _ _ hpath => exact hpath
      | slash hyes _ => exact absurd hyes hslash
      | unknown hno _ => exact absurd (hno _ rfl) hname

theorem fallbackRow_eq_iff (hdr : LineHeader) (dirs : List CStr) (files : FileTable)
    (row : LineRow) :
    fallbackRow hdr dirs files row = dwarfdumpRow dirs files row ↔
      row.line ≠ 0 ∧ ∃ k file, row.fileIndex.toNat = k + 1 ∧ files[k]? = some file ∧
        SamePath dirs file files[k + 1]? := by
  rw [fallbackRow, emitRow, dwarfdumpRow]
  dsimp only
  by_cases hline : row.line = 0
  · rw [if_pos (line_le_zero_iff.mpr hline)]
    exact iff_of_false (List.cons_ne_nil _ _).symm fun h => h.1 hline
  rw [if_neg (mt line_le_zero_iff.mp hline)]
  cases hk : row.fileIndex.toNat with
  | zero =>
    have h0 : row.fileIndex.toUInt64 = 0 := by
      rw [← UInt64.toNat_inj, UInt32.toNat_toUInt64, hk]
      rfl
    rw [h0, buildFilePath_zero]
    refine iff_of_false (List.cons_ne_nil _ _).symm ?_
    rintro ⟨-, k, file, h, -⟩
    exact absurd h.symm (Nat.succ_ne_zero k)
  | succ k =>
    have hpath := @buildFilePath_fallback dirs files k row.fileIndex hk
    change buildFilePath dirs (fallbackTables dirs files).2 row.fileIndex.toUInt64 = _ at hpath
    have hdirs : (fallbackTables dirs files).1 = dirs := rfl
    rw [hdirs, hpath]
    cases hfile : files[k]? with
    | none =>
      refine iff_of_false (List.cons_ne_nil _ _).symm ?_
      rintro ⟨-, k', file, h, hsome, -⟩
      obtain rfl := Nat.succ.inj h
      rw [hfile] at hsome
      cases hsome
    | some file =>
      rw [Option.map_some]
      dsimp only
      rw [snprintf_snprintf_maxFile]
      have hsame := @samePath_iff dirs files file row.fileIndex
      rw [hk] at hsame
      rw [UInt64.toUInt64_toInt64, UInt32.toUInt32_toUInt64, UInt32.toUInt32_toUInt64]
      simp only [List.cons.injEq, LineEntry.mk.injEq, true_and, and_true]
      rw [hsame]
      refine ⟨fun h => ⟨hline, k, file, rfl, hfile, h⟩, ?_⟩
      rintro ⟨-, k', file', h, hsome, hsamePath⟩
      obtain rfl := Nat.succ.inj h
      rw [hfile] at hsome
      rw [Option.some.inj hsome]
      exact hsamePath

/-- The two loaders push the same for a row exactly when the row has a line, its file index is
`k + 1` for an entry `k` of the table, and that entry has the same path as the entry behind it,
which is the one the index means.  The fallback loader pushes its rows with these tables in every
version 5 unit whose header it can read. -/
theorem loaders_agree_iff (hdr : LineHeader) (dirs : List CStr) (files : FileTable)
    (row : LineRow) :
    (fallbackRow hdr dirs files row = dwarfdumpRow dirs files row ↔
      row.line ≠ 0 ∧ ∃ k file, row.fileIndex.toNat = k + 1 ∧ files[k]? = some file ∧
        SamePath dirs file files[k + 1]?) ∧
    ∀ (mem : Mem) (lineStr : LineStr) (addressSize : UInt8) (c c' : ParseCursor),
      (parsePrologue mem lineStr 5 addressSize).run.run c = (some hdr, c') →
        ∃ c₁ c₂ dirs files, (parseV5Directories mem lineStr).run.run c₁ = (some dirs, c₂) ∧
          (parseV5FileNames mem lineStr).run.run c₂ = (some files, c') ∧
          emitRow hdr
              { address := row.address, line := row.line.toUInt64.toInt64,
                fileIndex := row.fileIndex.toUInt64, column := row.column.toUInt64 } =
            fallbackRow hdr dirs files row := by
  refine ⟨fallbackRow_eq_iff hdr dirs files row, fun mem lineStr addressSize c c' h => ?_⟩
  obtain ⟨c₁, c₂, dirs, files, hdirs, hfiles, htables⟩ := parsePrologue_tables h
  refine ⟨c₁, c₂, dirs, files, hdirs, hfiles, ?_⟩
  rw [fallbackRow, ← htables]

end Agree

/-- A source file and a header it includes. -/
def twoFiles : FileTable := [("a.c".toList, 0), ("b.h".toList, 0)]

/-- A header whose fields other than the tables do not matter here. -/
def plainHeader : LineHeader where
  addressSize := 8
  minInstLength := 1
  lineBase := -5
  lineRange := 14
  opcodeBase := 13
  stdLengths := []
  dirs := []
  files := []

/-- A row of the header file is kept by both loaders, under different names. -/
theorem loaders_disagree :
    dwarfdumpRow ["/src".toList] twoFiles ⟨0x1000, 7, 3, 1⟩ =
        [⟨0x1000, 7, 3, "/src/b.h".toList⟩] ∧
      fallbackRow plainHeader ["/src".toList] twoFiles ⟨0x1000, 7, 3, 1⟩ =
        [⟨0x1000, 7, 3, "/src/a.c".toList⟩] ∧
      fallbackRow plainHeader ["/src".toList] twoFiles ⟨0x1000, 7, 3, 0⟩ = [] :=
  ⟨by decide +kernel, by decide +kernel, by decide +kernel⟩

end Debugger
