/-
What the parser of the `__debug_line` section does to the memory (`parse_line_table`).

For each function of the parser, `…Accesses` lists what it does from a cursor on, in its order:
the bytes it reads, the strings it copies, and the divisions and array accesses that can go wrong.
The cursors in between are those of the functions themselves.
-/
import Debugger.LineTable

open Prog

namespace Debugger

/-- What the parser does that can be a fault. -/
inductive Access
  /-- a byte of `__debug_line` is read -/
  | byte (p : Addr)
  /-- the C string at an address of `__debug_line` is read to its end: `strdup`, `snprintf` -/
  | copy (p : Addr)
  /-- the same in `__debug_line_str` -/
  | copyLineStr (p : Addr)
  | divide (divisor : UInt8)
  /-- `std_lengths[opcode]` -/
  | stdLength (opcode : UInt8)
deriving DecidableEq, Repr

/-- What is done from a cursor on. -/
abbrev Accesses : Type := ParseCursor → List Access

/-- What is done by a reading function and then behind it. -/
def Accesses.andThen {α : Type} (l : Accesses) (r : Reader α) (k : α → Accesses) : Accesses :=
  fun c => l c ++ k (r.run c).1 (r.run c).2

/-- What is done by a parsing function and then, if it has not failed, behind it. -/
def Accesses.andThenParse {α : Type} (l : Accesses) (p : Parser α) (k : α → Accesses) : Accesses :=
  l.andThen p.run fun a => match a with
    | some a => k a
    | none => fun _ => []

section Readers

variable (mem : Mem)

/-- `read_u8`, `read_u16` and `read_u32`, of `n` bytes -/
def wordAccesses (n : ℕ) : Accesses := fun c =>
  if cursorOk c n then (List.range n).map fun i => .byte (c.data + UInt64.ofNat i) else []

/-- `read_u64`, its last `n` rounds -/
def readU64Accesses : ℕ → Accesses
  | 0 => fun _ => []
  | n + 1 => (wordAccesses 1).andThen (readU8 mem) fun _ => readU64Accesses n

/-- The loop of `read_uleb128` and `read_sleb128`, its last `n` rounds. -/
def lebAccessesFrom : ℕ → Accesses
  | 0 => fun _ => []
  | n + 1 => (wordAccesses 1).andThen (readU8 mem) fun byte =>
    if byte &&& 0x80 = 0 then fun _ => [] else lebAccessesFrom n

/-- `read_uleb128` and `read_sleb128` -/
def lebAccesses : Accesses := lebAccessesFrom mem 10

/-- A scan over bytes as long as they are of a kind. -/
def scanAccesses (goesOn : UInt8 → Bool) : ℕ → Addr → List Access
  | 0, _ => []
  | n + 1, p => .byte p :: if goesOn (mem p) then scanAccesses goesOn n (p + 1) else []

/-- `read_cstr`: it copies nothing. -/
def readCstrAccesses : Accesses := fun c =>
  scanAccesses mem (· ≠ 0) (c.end_.toNat - c.data.toNat) c.data

/-- `skip_padding_zeros` -/
def skipPaddingZerosAccesses : Accesses := fun c =>
  scanAccesses mem (· = 0) (c.end_.toNat - c.data.toNat) c.data

end Readers

section Prologue

variable (mem : Mem) (lineStr : LineStr)

/-- The loop of `read_format_descriptors`. -/
def readDescsAccesses : ℕ → Accesses
  | 0 => fun _ => []
  | n + 1 => (lebAccesses mem).andThen (readUleb128 mem) fun _ =>
    (lebAccesses mem).andThen (readUleb128 mem) fun _ => readDescsAccesses n

/-- `read_format_descriptors` -/
def readFormatDescriptorsAccesses : Accesses :=
  (wordAccesses 1).andThen (readU8 mem) fun count => readDescsAccesses mem count.toNat

/-- What `snprintf` does with the result of `lookup_line_str`. -/
def lookupLineStrAccesses (offset : UInt64) : List Access :=
  match lineStr with
  | none => []
  | some (start, size) => if offset ≥ size then [] else [.copyLineStr (start + offset)]

/-- `read_form_string` -/
def readFormStringAccesses (form : UInt64) : Accesses := fun c =>
  if form = dwFormLineStrp then
    if !cursorOk c 1 then []
    else (lebAccesses mem).andThen (readUleb128 mem)
      (fun offset _ => lookupLineStrAccesses lineStr offset) c
  else if form = dwFormString then readCstrAccesses mem c ++ [.copy c.data]
  else []

/-- `skip_form_value` -/
def skipFormValueAccesses (form : UInt64) : Accesses :=
  if form = dwFormUdata ∨ form = dwFormLineStrp then lebAccesses mem
  else if form = dwFormString then readCstrAccesses mem
  else fun _ => []

/-- One directory entry. -/
def readDirEntryAccesses : List FormatDesc → Accesses
  | [] => fun _ => []
  | desc :: descs =>
    if desc.type = dwLnctPath then
      (readFormStringAccesses mem lineStr desc.form).andThenParse
        (readFormString mem lineStr desc.form) fun _ => readDirEntryAccesses descs
    else
      (skipFormValueAccesses mem desc.form).andThenParse (skipFormValue mem desc.form) fun _ =>
        readDirEntryAccesses descs

/-- The entries of a table. -/
def readEntriesAccesses {α : Type} (entry : Parser α) (l : Accesses) : ℕ → Accesses
  | 0 => fun _ => []
  | n + 1 => l.andThenParse entry fun _ => readEntriesAccesses entry l n

/-- `parse_v5_directories` -/
def parseV5DirectoriesAccesses : Accesses :=
  (readFormatDescriptorsAccesses mem).andThen (readFormatDescriptors mem) fun descs =>
    if descs = [] then fun _ => []
    else
      (lebAccesses mem).andThen (readUleb128 mem) fun count =>
        (readEntriesAccesses (readDirEntry mem lineStr descs [])
          (readDirEntryAccesses mem lineStr descs) count.toNat).andThenParse
          (readEntries (readDirEntry mem lineStr descs []) count.toNat) fun _ =>
            skipPaddingZerosAccesses mem

/-- One file entry. -/
def readFileEntryAccesses : List FormatDesc → Accesses
  | [] => fun _ => []
  | desc :: descs =>
    if desc.type = dwLnctPath then
      (readFormStringAccesses mem lineStr desc.form).andThenParse
        (readFormString mem lineStr desc.form) fun _ => readFileEntryAccesses descs
    else if desc.type = dwLnctDirectoryIndex ∧ desc.form = dwFormUdata then
      (lebAccesses mem).andThen (readUleb128 mem) fun _ => readFileEntryAccesses descs
    else if desc.type = dwLnctMd5 ∧ desc.form = dwFormData16 then
      Accesses.andThenParse (fun _ => []) skip16 fun _ => readFileEntryAccesses descs
    else
      (skipFormValueAccesses mem desc.form).andThenParse (skipFormValue mem desc.form) fun _ =>
        readFileEntryAccesses descs

/-- `parse_v5_file_names` -/
def parseV5FileNamesAccesses : Accesses :=
  (readFormatDescriptorsAccesses mem).andThen (readFormatDescriptors mem) fun descs =>
    if descs = [] then fun _ => []
    else
      (lebAccesses mem).andThen (readUleb128 mem) fun count =>
        readEntriesAccesses (readFileEntry mem lineStr descs ([], 0))
          (readFileEntryAccesses mem lineStr descs) count.toNat

/-- The loop over the version 4 directories: `dir[0]` is looked at, and `dir` is copied. -/
def parseDirectoriesV4Accesses : ℕ → Accesses
  | 0 => fun _ => []
  | n + 1 => fun c =>
    if c.data ≥ c.end_ then []
    else
      (readCstrAccesses mem).andThen (readCstr mem) (fun dir c' => .byte c.data ::
        if dir = [] then [] else .copy c.data :: parseDirectoriesV4Accesses n c') c

/-- `parse_file_names_v4`: `name[0]` is looked at, and `name` is copied at the end of a round. -/
def parseFileNamesV4Accesses : ℕ → Accesses
  | 0 => fun _ => []
  | n + 1 => fun c =>
    if c.data ≥ c.end_ then []
    else
      (readCstrAccesses mem).andThen (readCstr mem) (fun name c' => .byte c.data ::
        if name = [] then []
        else
          (lebAccesses mem).andThen (readUleb128 mem) (fun _ =>
            Accesses.andThenParse (fun _ => []) skip16 fun _ c'' =>
              .copy c.data :: parseFileNamesV4Accesses n c'') c') c

/-- The standard opcode lengths in the header. -/
def readStdLengthsAccesses : ℕ → Accesses
  | 0 => fun _ => []
  | n + 1 => (wordAccesses 1).andThen (readU8 mem) fun _ => readStdLengthsAccesses n

/-- The tables of a unit. -/
def tablesAccesses (version : UInt16) : Accesses := fun c =>
  if version = 5 then
    (parseV5DirectoriesAccesses mem lineStr).andThenParse (parseV5Directories mem lineStr)
      (fun _ => parseV5FileNamesAccesses mem lineStr) c
  else
    (parseDirectoriesV4Accesses mem (c.end_.toNat - c.data.toNat)).andThen
      (parseDirectoriesV4 mem (c.end_.toNat - c.data.toNat))
      (fun _ c' => parseFileNamesV4Accesses mem (c'.end_.toNat - c'.data.toNat) c') c

/-- The header of a unit from `minimum_instruction_length` on. -/
def prologueAccesses (version : UInt16) : Accesses :=
  (wordAccesses 1).andThen (readU8 mem) fun _ =>
    Accesses.andThen (fun c => if version = 5 then wordAccesses 1 c else [])
      (if version = 5 then readU8 mem else return 1) fun _ =>
        (wordAccesses 1).andThen (readU8 mem) fun _ =>
          (wordAccesses 1).andThen (readU8 mem) fun _ =>
            (wordAccesses 1).andThen (readU8 mem) fun _ =>
              (wordAccesses 1).andThen (readU8 mem) fun opcodeBase =>
                (readStdLengthsAccesses mem (min (opcodeBase.toNat - 1) 15)).andThen
                  (readStdLengths mem (min (opcodeBase.toNat - 1) 15)) fun _ =>
                    tablesAccesses mem lineStr version

/-- A round of `parse_line_table` up to the call of `parse_line_program`. -/
def unitAccesses (cursor : ParseCursor) : List Access :=
  let (unitLength, cursor') := (readU32 mem).run cursor
  wordAccesses 4 cursor ++
  if unitLength = 0xffffffff then []
  else
    let unitEnd := cursor'.data + unitLength.toUInt64
    if unitEnd > cursor'.end_ then []
    else
      let unit := { data := cursor'.data, end_ := unitEnd }
      let (version, unit₁) := (readU16 mem).run unit
      wordAccesses 2 unit ++
      if version ≠ 5 ∧ version ≠ 4 then []
      else
        let (_, unit₂) := if version = 5 then (readU8 mem).run unit₁ else (8, unit₁)
        let (_, unit₃) := if version = 5 then (readU8 mem).run unit₂ else (0, unit₂)
        let (prologueLength, unit₄) := (readU32 mem).run unit₃
        let prologueEnd := unit₄.data + prologueLength.toUInt64
        (if version = 5 then wordAccesses 1 unit₁ ++ wordAccesses 1 unit₂ else []) ++
        wordAccesses 4 unit₃ ++
        if prologueEnd > unit₄.end_ then []
        else prologueAccesses mem lineStr version { data := unit₄.data, end_ := prologueEnd }

end Prologue

section Program

variable (mem : Mem) (hdr : LineHeader)

/-- The body of an extended opcode behind its length. -/
def extendedOpAccesses : Accesses :=
  (wordAccesses 1).andThen (readU8 mem) fun sub =>
    if sub = 2 then
      if hdr.addressSize = 8 then readU64Accesses mem 8
      else if hdr.addressSize = 4 then wordAccesses 4
      else fun _ => []
    else fun _ => []

/-- A standard opcode. -/
def standardOpAccesses (opcode : UInt8) : Accesses := fun c =>
  if opcode = 1 then []
  else if opcode = 2 ∨ opcode = 3 ∨ opcode = 4 ∨ opcode = 5 then lebAccesses mem c
  else if opcode = 8 then [.divide hdr.lineRange]
  else if opcode = 9 then wordAccesses 2 c
  else [.stdLength opcode]

/-- A round of the loop of `parse_line_program`. -/
def opcodeAccesses (c : ParseCursor) : List Access :=
  if ¬ c.data < c.end_ then []
  else
    (wordAccesses 1).andThen (readU8 mem) (fun opcode =>
      if opcode = 0 then
        (lebAccesses mem).andThen (readUleb128 mem) fun extLen unit =>
          if unit.data + extLen > unit.end_ then [] else extendedOpAccesses mem hdr unit
      else if opcode < hdr.opcodeBase then standardOpAccesses mem hdr opcode
      else fun _ => [.divide hdr.lineRange]) c

end Program

end Debugger
