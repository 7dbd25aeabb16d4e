/-
The parser of the `__debug_line` section (`parse_line_table` in `lineno.c`), which is used
when `dwarfdump` fails.

Pointers are 64-bit addresses that wrap, and a cursor is a pair of them; what is read is the
memory of the debugger, in which the section lies.  Both loops of the parser are given by
one round each (`unitRound`, `opcodeRound`).
-/
import Debugger.Lineno
import Debugger.Machine
import Debugger.Lib.Loop

open Prog

namespace Debugger

/-! ### Cursors -/

/-- `parse_cursor_t` -/
structure ParseCursor where
  data : Addr
  end_ : Addr
deriving DecidableEq, Repr

/-- A reading function: it moves a cursor. -/
abbrev Reader (α : Type) : Type := StateM ParseCursor α

/-- A parsing function: it fails where the source returns -1. -/
abbrev Parser (α : Type) : Type := OptionT (StateM ParseCursor) α

theorem Parser.run_bind_some {α β : Type} {p : Parser α} {f : α → Parser β} {b : β}
    {c c' : ParseCursor} (h : (p >>= f).run.run c = (some b, c')) :
    ∃ a c₁, p.run.run c = (some a, c₁) ∧ (f a).run.run c₁ = (some b, c') := by
  rcases hp : p.run.run c with ⟨_ | a, c₁⟩
  · have hrun : (p >>= f).run.run c = (none, c₁) := by
      simp only [OptionT.run_bind, Option.elimM, StateT.run_bind, hp]
      rfl
    exact absurd ((congrArg Prod.fst hrun).symm.trans (congrArg Prod.fst h))
      (Option.some_ne_none b).symm
  · have hrun : (p >>= f).run.run c = (f a).run.run c₁ := by
      simp only [OptionT.run_bind, Option.elimM, StateT.run_bind, hp]
      rfl
    exact ⟨a, c₁, rfl, hrun.symm.trans h⟩

/-- `cursor_ok`; the difference of the pointers is a `size_t`. -/
def cursorOk (cursor : ParseCursor) (n : ℕ) : Bool := n ≤ (cursor.end_ - cursor.data).toNat

/-- `cursor->data += n` -/
def ParseCursor.advance (cursor : ParseCursor) (n : UInt64) : ParseCursor :=
  { cursor with data := cursor.data + n }

section Readers

variable (mem : Mem)

/-- `read_u8` -/
def readU8 : Reader UInt8 := fun cursor =>
  if cursorOk cursor 1 then (mem cursor.data, cursor.advance 1) else (0, cursor)

/-- `read_u16` -/
def readU16 : Reader UInt16 := fun cursor =>
  if cursorOk cursor 2 then
    ((mem cursor.data).toUInt16 ||| (mem (cursor.data + 1)).toUInt16 <<< 8, cursor.advance 2)
  else (0, cursor)

/-- `read_u32` -/
def readU32 : Reader UInt32 := fun cursor =>
  if cursorOk cursor 4 then
    ((mem cursor.data).toUInt32 ||| (mem (cursor.data + 1)).toUInt32 <<< 8 |||
      (mem (cursor.data + 2)).toUInt32 <<< 16 ||| (mem (cursor.data + 3)).toUInt32 <<< 24,
      cursor.advance 4)
  else (0, cursor)

/-- The loop of `read_u64`, from byte `i` on. -/
def readU64From : ℕ → ℕ → UInt64 → Reader UInt64
  | 0, _, value => return value
  | n + 1, i, value => do
    let byte ← readU8 mem
    readU64From n (i + 1) (value ||| byte.toUInt64 <<< UInt64.ofNat (8 * i))

/-- `read_u64` -/
def readU64 : Reader UInt64 := readU64From mem 8 0 0

/-- The loop of `read_uleb128` and `read_sleb128`: the bits read, their number and the last
byte. -/
def readLebFrom : ℕ → UInt64 → ℕ → UInt8 → Reader (UInt64 × ℕ × UInt8)
  | 0, value, shift, last => return (value, shift, last)
  | n + 1, value, shift, _ => do
    let byte ← readU8 mem
    let value := value ||| (byte &&& 0x7f).toUInt64 <<< UInt64.ofNat shift
    if byte &&& 0x80 = 0 then return (value, shift + 7, byte)
    readLebFrom n value (shift + 7) byte

/-- `read_uleb128` -/
def readUleb128 : Reader UInt64 := do
  let (value, _, _) ← readLebFrom mem 10 0 0 0
  return value

/-- `read_sleb128` -/
def readSleb128 : Reader Int64 := do
  let (value, shift, byte) ← readLebFrom mem 10 0 0 0
  if byte &&& 0x40 ≠ 0 ∧ shift < 64 then
    return (value ||| (~~~0) <<< UInt64.ofNat shift).toInt64
  return value.toInt64

/-- The bytes up to the next NUL, looking at no more than `n`. -/
def bytesUpTo : ℕ → Addr → List UInt8
  | 0, _ => []
  | n + 1, p => if mem p = 0 then [] else mem p :: bytesUpTo n (p + 1)

/-- The C string at an address. -/
def cstrAt (p : Addr) : CStr :=
  (bytesUpTo mem (2 ^ 64) p).map fun b => Char.ofNat b.toNat

/-- The scan of `read_cstr`: the NUL, or the end. -/
def scanCstr : ℕ → Addr → Addr
  | 0, p => p
  | n + 1, p => if mem p = 0 then p else scanCstr n (p + 1)

/-- `read_cstr`; the string may go on behind the end. -/
def readCstr : Reader CStr := fun cursor =>
  let data := scanCstr mem (cursor.end_.toNat - cursor.data.toNat) cursor.data
  (cstrAt mem cursor.data, { cursor with data := if data ≥ cursor.end_ then data else data + 1 })

end Readers

/-! ### Tables of directories and files -/

/-- `file_table_t`: names with their directory indices. -/
abbrev FileTable : Type := List (CStr × UInt64)

/-- `build_file_path`; `none` is -1. -/
def buildFilePath (dirs : List CStr) (files : FileTable) (fileIndex : UInt64) : Option CStr :=
  if fileIndex = 0 then none
  else
    files[fileIndex.toNat]?.map fun (file, dirIndex) =>
      let dir := dirs[dirIndex.toNat]?.getD []
      snprintf maxFile (if dir = [] then file else dir ++ '/' :: file)

/-- `DW_FORM_string` and the other forms and content types of `lineno.c`. -/
def dwFormString : UInt64 := 0x08
def dwFormUdata : UInt64 := 0x0f
def dwFormData16 : UInt64 := 0x1e
def dwFormLineStrp : UInt64 := 0x1f
def dwLnctPath : UInt64 := 1
def dwLnctDirectoryIndex : UInt64 := 2
def dwLnctMd5 : UInt64 := 5

/-- `format_desc_t` -/
structure FormatDesc where
  type : UInt64
  form : UInt64
deriving DecidableEq, Repr

/-- `__debug_line_str`: where it lies and its size; `none` is NULL. -/
abbrev LineStr : Type := Option (Addr × UInt64)

section Prologue

variable (mem : Mem) (lineStr : LineStr)

/-- `lookup_line_str` -/
def lookupLineStr (offset : UInt64) : CStr :=
  match lineStr with
  | none => []
  | some (start, size) => if offset ≥ size then [] else cstrAt mem (start + offset)

/-- The loop of `read_format_descriptors`. -/
def readDescs : ℕ → Reader (List FormatDesc)
  | 0 => return []
  | n + 1 => do
    let type ← readUleb128 mem
    let form ← readUleb128 mem
    return { type, form } :: (← readDescs n)

/-- `read_format_descriptors` -/
def readFormatDescriptors : Reader (List FormatDesc) := do
  let count ← readU8 mem
  readDescs mem count.toNat

/-- `cursor->data += 16`, with the check before it. -/
def skip16 : Parser PUnit := do
  let cursor ← get
  if !cursorOk cursor 16 then failure
  set (cursor.advance 16)

/-- `read_form_string` into a buffer of `CDBG_LINENO_MAX_FILE` bytes. -/
def readFormString (form : UInt64) : Parser CStr := do
  if form = dwFormLineStrp then
    let cursor ← get
    if !cursorOk cursor 1 then failure
    let offset ← (readUleb128 mem : Reader UInt64)
    return snprintf maxFile (lookupLineStr mem lineStr offset)
  else if form = dwFormString then
    return snprintf maxFile (← (readCstr mem : Reader CStr))
  else failure

/-- `skip_form_value` -/
def skipFormValue (form : UInt64) : Parser PUnit := do
  if form = dwFormUdata ∨ form = dwFormLineStrp then
    let _ ← (readUleb128 mem : Reader UInt64)
  else if form = dwFormData16 then skip16
  else if form = dwFormString then
    let _ ← (readCstr mem : Reader CStr)
  else failure

/-- The scan of `skip_padding_zeros`. -/
def scanZeros : ℕ → Addr → Addr
  | 0, p => p
  | n + 1, p => if mem p = 0 then scanZeros n (p + 1) else p

/-- `skip_padding_zeros` -/
def skipPaddingZeros : Reader PUnit := fun cursor =>
  (⟨⟩, { cursor with data := scanZeros mem (cursor.end_.toNat - cursor.data.toNat) cursor.data })

/-- The values of one directory entry: its path. -/
def readDirEntry : List FormatDesc → CStr → Parser CStr
  | [], path => return path
  | desc :: descs, path => do
    if desc.type = dwLnctPath then
      let path ← readFormString mem lineStr desc.form
      readDirEntry descs path
    else
      skipFormValue mem desc.form
      readDirEntry descs path

/-- The entries of a table, read one after the other. -/
def readEntries {α : Type} (entry : Parser α) : ℕ → Parser (List α)
  | 0 => return []
  | n + 1 => do
    let e ← entry
    return e :: (← readEntries entry n)

/-- `parse_v5_directories` -/
def parseV5Directories : Parser (List CStr) := do
  let descs ← (readFormatDescriptors mem : Reader _)
  if descs = [] then return []
  let count ← (readUleb128 mem : Reader UInt64)
  let dirs ← readEntries (readDirEntry mem lineStr descs []) count.toNat
  (skipPaddingZeros mem : Reader PUnit)
  return dirs

/-- The values of one file entry: its name and directory index. -/
def readFileEntry : List FormatDesc → CStr × UInt64 → Parser (CStr × UInt64)
  | [], file => return file
  | desc :: descs, (name, dirIndex) => do
    if desc.type = dwLnctPath then
      let name ← readFormString mem lineStr desc.form
      readFileEntry descs (name, dirIndex)
    else if desc.type = dwLnctDirectoryIndex ∧ desc.form = dwFormUdata then
      let dirIndex ← (readUleb128 mem : Reader UInt64)
      readFileEntry descs (name, dirIndex)
    else if desc.type = dwLnctMd5 ∧ desc.form = dwFormData16 then
      skip16
      readFileEntry descs (name, dirIndex)
    else
      skipFormValue mem desc.form
      readFileEntry descs (name, dirIndex)

/-- `parse_v5_file_names` -/
def parseV5FileNames : Parser FileTable := do
  let descs ← (readFormatDescriptors mem : Reader _)
  if descs = [] then return []
  let count ← (readUleb128 mem : Reader UInt64)
  readEntries (readFileEntry mem lineStr descs ([], 0)) count.toNat

/-- The loop over the version 4 directories; a round reads at least one byte. -/
def parseDirectoriesV4 : ℕ → Reader (List CStr)
  | 0 => return []
  | n + 1 => do
    let cursor ← get
    if cursor.data ≥ cursor.end_ then return []
    let dir ← readCstr mem
    if dir = [] then return []
    return dir :: (← parseDirectoriesV4 n)

/-- `parse_file_names_v4`; a round reads at least one byte. -/
def parseFileNamesV4 : ℕ → Parser FileTable
  | 0 => return []
  | n + 1 => do
    let cursor ← (get : Reader ParseCursor)
    if cursor.data ≥ cursor.end_ then return []
    let name ← (readCstr mem : Reader CStr)
    if name = [] then return []
    let dirIndex ← (readUleb128 mem : Reader UInt64)
    skip16
    return (name, dirIndex) :: (← parseFileNamesV4 n)

end Prologue

/-! ### The line number program -/

/-- `line_state_t`, without the two flags that nothing looks at; as it is at the start of a
program and after each end of a sequence. -/
structure LineState where
  address : UInt64 := 0
  line : Int64 := 1
  fileIndex : UInt64 := 1
  column : UInt64 := 0
deriving DecidableEq, Repr

/-- The fields of a unit's header that its program needs. -/
structure LineHeader where
  addressSize : UInt8
  minInstLength : UInt8
  lineBase : Int8
  lineRange : UInt8
  opcodeBase : UInt8
  stdLengths : List UInt8
  dirs : List CStr
  files : FileTable
deriving DecidableEq, Repr

/-- `emit_row` and `entries_push`: the row, unless it has no line or its file no name. -/
def emitRow (hdr : LineHeader) (state : LineState) : List LineEntry :=
  if state.line ≤ 0 then []
  else
    match buildFilePath hdr.dirs hdr.files state.fileIndex with
    | none => []
    | some fullPath =>
      [{ address := state.address, line := state.line.toUInt64.toUInt32,
         column := state.column.toUInt32, file := snprintf maxFile fullPath }]

/-- The loop of `parse_line_program` between two rounds: the cursor, the registers and the
rows emitted so far. -/
structure ProgramPoint where
  unit : ParseCursor
  state : LineState
  rows : List LineEntry := []
deriving DecidableEq, Repr

def ProgramPoint.emit (p : ProgramPoint) (hdr : LineHeader) : ProgramPoint :=
  { p with rows := p.rows ++ emitRow hdr p.state }

section Program

/- `std_lengths` has 16 entries; `stack` is what is found behind them. -/
variable (mem : Mem) (stack : ℕ → UInt8) (hdr : LineHeader)

/-- `std_lengths[opcode]` -/
def stdLength (opcode : UInt8) : UInt8 := hdr.stdLengths[opcode.toNat]?.getD (stack opcode.toNat)

/-- The body of an extended opcode behind its length. -/
def extendedOp (p : ProgramPoint) : ProgramPoint :=
  let (sub, unit) := (readU8 mem).run p.unit
  let p := { p with unit := unit }
  if sub = 1 then
    { p.emit hdr with state := {} }
  else if sub = 2 then
    if hdr.addressSize = 8 then
      let (address, unit) := (readU64 mem).run p.unit
      { p with unit := unit, state := { p.state with address := address } }
    else if hdr.addressSize = 4 then
      let (address, unit) := (readU32 mem).run p.unit
      { p with unit := unit, state := { p.state with address := address.toUInt64 } }
    else p
  else p

/-- A standard opcode. -/
def standardOp (opcode : UInt8) (p : ProgramPoint) : ProgramPoint :=
  if opcode = 1 then p.emit hdr
  else if opcode = 2 then
    let (delta, unit) := (readUleb128 mem).run p.unit
    let address := p.state.address + delta * hdr.minInstLength.toUInt64
    { p with unit := unit, state := { p.state with address := address } }
  else if opcode = 3 then
    let (delta, unit) := (readSleb128 mem).run p.unit
    { p with unit := unit, state := { p.state with line := p.state.line + delta } }
  else if opcode = 4 then
    let (fileIndex, unit) := (readUleb128 mem).run p.unit
    { p with unit := unit, state := { p.state with fileIndex := fileIndex } }
  else if opcode = 5 then
    let (column, unit) := (readUleb128 mem).run p.unit
    { p with unit := unit, state := { p.state with column := column } }
  else if opcode = 8 then
    let address := p.state.address +
      (255 - hdr.opcodeBase).toUInt64 / hdr.lineRange.toUInt64 * hdr.minInstLength.toUInt64
    { p with state := { p.state with address := address } }
  else if opcode = 9 then
    let (delta, unit) := (readU16 mem).run p.unit
    { p with unit := unit, state := { p.state with address := p.state.address + delta.toUInt64 } }
  else { p with unit := p.unit.advance (stdLength stack hdr opcode).toUInt64 }

/-- A special opcode. -/
def specialOp (opcode : UInt8) (p : ProgramPoint) : ProgramPoint :=
  let adjusted := opcode - hdr.opcodeBase
  let operationAdvance := adjusted / hdr.lineRange
  let lineIncrement := hdr.lineBase + (adjusted % hdr.lineRange).toInt8
  let line := p.state.line + lineIncrement.toInt64
  let address := p.state.address + operationAdvance.toUInt64 * hdr.minInstLength.toUInt64
  { p with state := { p.state with line := line, address := address } }.emit hdr

/-- One round of the loop of `parse_line_program`. -/
def opcodeRound (p : ProgramPoint) : ProgramPoint ⊕ (Int × List LineEntry) :=
  if ¬ p.unit.data < p.unit.end_ then .inr (0, p.rows)
  else
    let (opcode, unit) := (readU8 mem).run p.unit
    let p := { p with unit := unit }
    if opcode = 0 then
      let (extLen, unit) := (readUleb128 mem).run p.unit
      let extEnd := unit.data + extLen
      if extEnd > unit.end_ then .inr (-1, p.rows)
      else
        let p := extendedOp mem hdr { p with unit := unit }
        .inl { p with unit := { p.unit with data := extEnd } }
    else if opcode < hdr.opcodeBase then .inl (standardOp mem stack hdr opcode p)
    else .inl (specialOp hdr opcode p)

end Program

/-! ### The units -/

section Units

variable (mem : Mem) (stack : ℕ → UInt8) (lineStr : LineStr)

/-- The standard opcode lengths in the header. -/
def readStdLengths : ℕ → Reader (List UInt8)
  | 0 => return []
  | n + 1 => do
    let length ← readU8 mem
    return length :: (← readStdLengths n)

/-- The header of a unit from `minimum_instruction_length` on. -/
def parsePrologue (version : UInt16) (addressSize : UInt8) : Parser LineHeader := do
  let minInstLength ← (readU8 mem : Reader UInt8)
  -- the source does not read maximum_operations_per_instruction in version 4
  let _maxOpsPerInst ← (if version = 5 then readU8 mem else return 1 : Reader UInt8)
  let _defaultIsStmt ← (readU8 mem : Reader UInt8)
  let lineBase ← (readU8 mem : Reader UInt8)
  let lineRange ← (readU8 mem : Reader UInt8)
  let opcodeBase ← (readU8 mem : Reader UInt8)
  -- `std_lengths` has room for 15 of them; the others are not read
  let stdLengths ← (readStdLengths mem (min (opcodeBase.toNat - 1) 15) : Reader _)
  let hdr : LineHeader :=
    { addressSize, minInstLength, lineBase := lineBase.toInt8, lineRange, opcodeBase,
      stdLengths := 0 :: stdLengths ++ List.replicate (15 - stdLengths.length) 0
      dirs := [], files := [([], 0)] }
  if version = 5 then
    let dirs ← parseV5Directories mem lineStr
    let files ← parseV5FileNames mem lineStr
    return { hdr with dirs := dirs, files := hdr.files ++ files }
  else
    let cursor ← (get : Reader ParseCursor)
    let dirs ← (parseDirectoriesV4 mem (cursor.end_.toNat - cursor.data.toNat) : Reader _)
    let cursor ← (get : Reader ParseCursor)
    let files ← parseFileNamesV4 mem (cursor.end_.toNat - cursor.data.toNat)
    return { hdr with dirs := [] :: dirs, files := hdr.files ++ files }

/-- What the header at a cursor makes `parse_line_table` do. -/
inductive UnitStart
  | fail
  | skip (unitEnd : Addr)
  | program (hdr : LineHeader) (unit : ParseCursor)
deriving DecidableEq, Repr

/-- The part of a round of `parse_line_table` up to the call of `parse_line_program`. -/
def readUnit (cursor : ParseCursor) : UnitStart :=
  let (unitLength, cursor) := (readU32 mem).run cursor
  if unitLength = 0xffffffff then .fail
  else
    let unitEnd := cursor.data + unitLength.toUInt64
    if unitEnd > cursor.end_ then .fail
    else
      let (version, unit) := (readU16 mem).run { data := cursor.data, end_ := unitEnd }
      if version ≠ 5 ∧ version ≠ 4 then .skip unitEnd
      else
        let (addressSize, unit) := if version = 5 then (readU8 mem).run unit else (8, unit)
        let (_, unit) := if version = 5 then (readU8 mem).run unit else (0, unit)
        let (prologueLength, unit) := (readU32 mem).run unit
        let prologueEnd := unit.data + prologueLength.toUInt64
        if prologueEnd > unit.end_ then .fail
        else
          let prologue := { data := unit.data, end_ := prologueEnd }
          match (parsePrologue mem lineStr version addressSize).run prologue with
          | (none, _) => .fail
          | (some hdr, prologue) =>
            .program hdr
              { unit with data := if version = 5 then prologueEnd - 1 else prologue.data }

/-- The loop of `parse_line_table` between two rounds. -/
structure TablePoint where
  cursor : ParseCursor
  rows : List LineEntry := []
deriving DecidableEq, Repr

/-- `parse_line_program` from the start of a program, with at most `fuel` rounds. -/
def parseLineProgram (fuel : ℕ) (hdr : LineHeader) (unit : ParseCursor) (rows : List LineEntry) :
    Option (Int × List LineEntry) :=
  Loop.run (opcodeRound mem stack hdr) fuel { unit := unit, state := {}, rows := rows }

/-- One round of the loop of `parse_line_table`; `fuel` bounds the rounds of each program, and
`.inr none` is a program that has not ended. -/
def unitRound (fuel : ℕ) (p : TablePoint) : TablePoint ⊕ Option (Int × List LineEntry) :=
  if ¬ p.cursor.data < p.cursor.end_ then .inr (some (0, p.rows))
  else
    match readUnit mem lineStr p.cursor with
    | .fail => .inr (some (-1, p.rows))
    | .skip unitEnd => .inl { p with cursor := { p.cursor with data := unitEnd } }
    | .program hdr unit =>
      match parseLineProgram mem stack fuel hdr unit p.rows with
      | none => .inr none
      | some (rc, rows) =>
        if rc ≠ 0 then .inr (some (-1, rows))
        else .inl { cursor := { p.cursor with data := unit.end_ }, rows := rows }

/-- `parse_line_table`: the return code and the rows pushed.  `none` is a parser that has not
ended within `fuel` rounds of each loop. -/
def parseLineTable (fuel : ℕ) (sectionStart : Addr) (sectionSize : UInt64) :
    Option (Int × List LineEntry) :=
  (Loop.run (unitRound mem stack lineStr fuel) fuel
    { cursor := { data := sectionStart, end_ := sectionStart + sectionSize } }).join

end Units

end Debugger
