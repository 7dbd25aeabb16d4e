/-
The line table from the text of `dwarfdump --debug-line`.

`lineno_load_from_dwarfdump` reads the text line by line.  The lines of a unit fill its tables of
directories and files, whose indices are local to the unit, and every row is resolved in the
tables as they are at that moment.  `DumpUnit` is what a unit is printed from; of a text printed
from units, every row becomes one entry with the path of its own unit
(`rows_of_units_loaded`).
-/
import Debugger.Dwarfdump
import Debugger.FileTables
import Debugger.Lib.SparseTable

open Prog

namespace Debugger

/-! ### Conversions of `sscanf` -/

/-- Literal text of a format. -/
def scanLit (lit text : CStr) : Option CStr :=
  if lit <+: text then some (text.drop lit.length) else none

/-- `%u` in base 10, `%llx` in base 16: the number as `strtoumax` reads it, and the rest. -/
def scanNum (base : ℕ) (text : CStr) : Option (UInt64 × CStr) :=
  let (neg, cs) := sign (text.dropWhile isspace)
  let cs := if base = 16 then skipHexPrefix cs else cs
  match cs with
  | [] => none
  | c :: _ =>
    if (digitValue base c).isSome then
      let (n, rest) := digits base 0 cs
      if n < 2 ^ 64 then some (if neg then -UInt64.ofNat n else UInt64.ofNat n, rest)
      else some (UInt64.ofNat (2 ^ 64 - 1), rest)
    else none

/-- `%d` -/
def scanInt (text : CStr) : Option Int32 :=
  let (v, rest) := strtol text
  if rest = text then none else some (Int32.ofInt v)

/-- `sscanf(line, " include_directories[%d]", &idx) == 1 && idx >= 0`, with the literal text up to
the bracket as a parameter. -/
def scanIndex (lit line : CStr) : Option ℕ :=
  ((scanLit lit (line.dropWhile isspace)).bind scanInt).bind fun idx =>
    if 0 ≤ idx then some idx.toInt.toNat else none

/-- `sscanf(line, " dir_index: %u", &dir_index) == 1` -/
def scanDirIndex (line : CStr) : Option UInt32 :=
  ((scanLit "dir_index:".toList (line.dropWhile isspace)).bind (scanNum 10)).map (·.1.toUInt32)

/-- `sscanf(line, "0x%llx %u %u %u", &addr, &line_no, &column, &file_idx) == 4` -/
def scanRow (line : CStr) : Option LineRow := do
  let text ← scanLit "0x".toList line
  let (address, text) ← scanNum 16 text
  let (lineNo, text) ← scanNum 10 text
  let (column, text) ← scanNum 10 text
  let (fileIdx, _) ← scanNum 10 text
  return { address := address, line := lineNo.toUInt32, column := column.toUInt32,
           fileIndex := fileIdx.toUInt32 }

/-! ### The loader -/

/-- The variables of the loop of `lineno_load_from_dwarfdump`. -/
structure LineDump where
  dirs : List CStr := []
  files : FileTable := []
  havePendingFile : Bool := false
  pendingName : CStr := []
  entries : List LineEntry
deriving DecidableEq

/-- A line while a `file_names` block is open; `none` ends the block. -/
def LineDump.attribute (st : LineDump) (line : CStr) : Option LineDump :=
  match dropTo "name: \"".toList line with
  | some marker =>
    let quote := marker.drop "name: \"".toList.length
    if '"' ∈ quote then
      some { st with pendingName := snprintf maxFile (quote.takeWhile (· ≠ '"')) }
    else some st
  | none =>
    match scanDirIndex line with
    | some dirIndex =>
      -- the block that has been opened last is the one at the end of the table
      let target := st.files.length - 1
      some { st with files := st.files.set target (st.pendingName, dirIndex.toUInt64) }
    | none =>
      if strstr line "mtime:".toList || strstr line "length:".toList ||
        strstr line "md5_checksum:".toList then some st
      else none

/-- A line that belongs to no table. -/
def LineDump.row (st : LineDump) (line : CStr) : LineDump :=
  if "0x".toList <+: line then
    match scanRow line with
    | some row => { st with entries := st.entries ++ dwarfdumpRow st.dirs st.files row }
    | none => st
  else st

/-- The body of the loop of `lineno_load_from_dwarfdump`. -/
def LineDump.step (st : LineDump) (line : CStr) : LineDump :=
  if "debug_line[".toList <+: line then
    { st with dirs := [], files := [], havePendingFile := false }
  else
    match scanIndex "include_directories[".toList line with
    | some idx =>
      { st with dirs := place [] st.dirs (idx, (parseQuotedValue maxFile line).getD []) }
    | none =>
      match scanIndex "file_names[".toList line with
      | some idx =>
        { st with
          havePendingFile := true
          pendingName := []
          files := padTo ([], 0) (idx + 1) st.files }
      | none =>
        match if st.havePendingFile then st.attribute line else none with
        | some st' => st'
        | none => LineDump.row { st with havePendingFile := false } line

/-- The size of the line buffer of the loader. -/
abbrev maxLineDump : ℕ := 512

/-- `lineno_load_from_dwarfdump`, with the table and the directory of the compilation.  `pipe` is
what the pipe yields and the exit status of dwarfdump, `none` when it could not be started. -/
def linenoLoadFromDwarfdump (ln : Lineno) (compDir : CStr) (pipe : Option (List Char × Int)) :
    Int × Lineno × CStr :=
  match pipe with
  | none => (-1, ln, compDir)
  | some (text, closeRc) =>
    let st := (fgetsLines maxLineDump text).foldl LineDump.step { entries := ln.entries }
    let compDir :=
      if compDir = [] then snprintf maxFile ((st.dirs.find? (· ≠ [])).getD []) else compDir
    (if closeRc = 0 ∧ st.entries.length > 0 then 0 else -1,
      { ln with entries := st.entries }, compDir)

/-! ### What a unit is printed from -/

/-- The attributes of a file that no row needs. -/
inductive FileAttr
  | mtime | length | md5Checksum
deriving DecidableEq

def FileAttr.text : FileAttr → CStr
  | mtime => "mtime".toList
  | length => "length".toList
  | md5Checksum => "md5_checksum".toList

/-- An entry of the file table. -/
structure FileBlock where
  index : ℕ
  name : CStr
  dirIndex : UInt32
  attrs : List (FileAttr × CStr)

/-- A unit of the text: what is printed in front of the tables, the tables, and the rows, each
with what is printed behind its file index. -/
structure DumpUnit where
  offset : UInt64
  prologue : List CStr
  dirs : List (ℕ × CStr)
  files : List FileBlock
  rows : List (LineRow × CStr)

/-- `%*u` -/
def uintText (w n : ℕ) : CStr :=
  List.replicate (w - (Nat.toDigits 10 n).length) ' ' ++ Nat.toDigits 10 n

/-- The line that opens a unit. -/
def unitLine (offset : UInt64) : CStr :=
  "debug_line[".toList ++ (hexNumeral 8 offset ++ [']', '\n'])

/-- The line of a directory. -/
def dirLine (dir : ℕ × CStr) : CStr :=
  "include_directories[".toList ++ (uintText 3 dir.1 ++
    ']' :: ' ' :: '=' :: ' ' :: '"' :: (dir.2 ++ ['"', '\n']))

/-- A line of a file's block. -/
def fieldLine (key value : CStr) : CStr :=
  List.replicate (15 - key.length) ' ' ++ (key ++ ':' :: ' ' :: (value ++ ['\n']))

/-- The lines of a file. -/
def FileBlock.lines (file : FileBlock) : List CStr :=
  ("file_names[".toList ++ (uintText 3 file.index ++ [']', ':', '\n'])) ::
    fieldLine "name".toList ('"' :: (file.name ++ ['"'])) ::
    fieldLine "dir_index".toList (Nat.toDigits 10 file.dirIndex.toNat) ::
    file.attrs.map fun (key, value) => fieldLine key.text value

/-- The line of a row. -/
def rowLine (row : LineRow × CStr) : CStr :=
  hexNumeral 16 row.1.address ++ (' ' :: (uintText 6 row.1.line.toNat ++
    (' ' :: (uintText 6 row.1.column.toNat ++
      (' ' :: (uintText 6 row.1.fileIndex.toNat ++ (' ' :: (row.2 ++ ['\n']))))))))

/-- The lines between the tables and the rows. -/
def columnLines : List CStr :=
  ["\n".toList,
    "Address            Line   Column File   ISA Discriminator OpIndex Flags".toList ++ ['\n'],
    "------------------ ------ ------ ------ --- ------------- ------- -------------".toList ++
      ['\n']]

namespace DumpUnit

/-- The lines of a unit, with an empty one behind it. -/
def lines (u : DumpUnit) : List CStr :=
  unitLine u.offset :: (u.prologue ++ (u.dirs.map dirLine ++ (u.files.flatMap FileBlock.lines ++
    (columnLines ++ (u.rows.map rowLine ++ ["\n".toList])))))

/-- The unit's table of directories. -/
def dirTable (u : DumpUnit) : List CStr := tableOf [] u.dirs

/-- The unit's table of files. -/
def fileTable (u : DumpUnit) : FileTable :=
  tableOf ([], 0) (u.files.map fun file => (file.index, file.name, file.dirIndex.toUInt64))

/-- The entries of the unit's rows, with the paths of the unit's own tables. -/
def entries (u : DumpUnit) : List LineEntry :=
  u.rows.map fun (row, _) =>
    { address := row.address, line := row.line, column := row.column,
      file := dwarfdumpResolvePath u.dirTable u.fileTable row.fileIndex }

end DumpUnit

/-- The text printed for a list of units, behind some lines of its own. -/
def lineDumpText (preamble : List CStr) (units : List DumpUnit) : List Char :=
  (preamble ++ units.flatMap DumpUnit.lines).flatten

/-- The line opens a unit or is one of a table's entries. -/
def StartsEntry (line : CStr) : Prop :=
  "debug_line[".toList <+: line ∨
    "include_directories[".toList <+: line.dropWhile isspace ∨
    "file_names[".toList <+: line.dropWhile isspace

instance (line : CStr) : Decidable (StartsEntry line) := inferInstanceAs (Decidable (_ ∨ _))

/-- A line that the loader has no use for. -/
def IsUnread (line : CStr) : Prop :=
  IsDumpLine line ∧ ¬ StartsEntry line ∧ ¬ "0x".toList <+: line

/-- A name or a value on one line. -/
def IsUnquoted (text : CStr) : Prop := '"' ∉ text ∧ '\n' ∉ text

instance (text : CStr) : Decidable (IsUnquoted text) := inferInstanceAs (Decidable (_ ∧ _))

/-- What the loader relies on of a unit: the indices increase and are numbers of type `int`, and
the texts are on one line and without quotes. -/
structure DumpUnit.WellFormed (u : DumpUnit) : Prop where
  prologue : ∀ line ∈ u.prologue, IsUnread line
  dirsIncrease : (u.dirs.map Prod.fst).Pairwise (· < ·)
  dirsBounded : ∀ dir ∈ u.dirs, dir.1 < 2 ^ 31
  dirsPlain : ∀ dir ∈ u.dirs, IsUnquoted dir.2
  filesIncrease : (u.files.map FileBlock.index).Pairwise (· < ·)
  filesBounded : ∀ file ∈ u.files, file.index < 2 ^ 31
  filesPlain : ∀ file ∈ u.files, IsUnquoted file.name
  attrsPlain : ∀ file ∈ u.files, ∀ attr ∈ file.attrs, IsUnquoted attr.2
  rowsPlain : ∀ row ∈ u.rows, '\n' ∉ row.2

/-! ### Numbers are read back -/

section Numbers

theorem dropWhile_spaces {n : ℕ} {text : CStr} (h : ∀ c ∈ text.head?, isspace c = false) :
    (List.replicate n ' ' ++ text).dropWhile isspace = text := by
  rw [List.dropWhile_append_of_pos fun c hc => by
    rw [List.eq_of_mem_replicate hc]
    rfl]
  cases text with
  | nil => rfl
  | cons c text => exact List.dropWhile_cons_of_neg (by rw [h c rfl]; exact Bool.false_ne_true)

/-- A numeral behind blanks. -/
theorem scanNum_digits {base n k : ℕ} {c : Char} {cs rest : CStr}
    (hc : (digitValue base c).isSome = true)
    (hskip : base = 16 → skipHexPrefix (c :: cs) = c :: cs)
    (hdigits : digits base 0 (c :: cs) = (n, rest)) (hn : n < 2 ^ 64) :
    scanNum base (List.replicate k ' ' ++ c :: cs) = some (UInt64.ofNat n, rest) := by
  have hspace : ∀ d ∈ (c :: cs).head?, isspace d = false := by
    rintro d ⟨⟩
    exact (not_space_of_digit hc).1
  have hdigit : (if base = 16 then skipHexPrefix (c :: cs) else c :: cs) = c :: cs := by
    by_cases h : base = 16
    · rw [if_pos h, hskip h]
    · rw [if_neg h]
  rw [scanNum, dropWhile_spaces hspace, sign_of_digit hc]
  dsimp only
  rw [hdigit]
  dsimp only
  rw [if_pos hc, hdigits]
  dsimp only
  rw [if_pos hn, if_neg Bool.false_ne_true]

theorem scanNum_uintText {w n : ℕ} {rest : CStr} (hn : n < 2 ^ 64)
    (hrest : digitValue 10 (rest.headD ' ') = none) :
    scanNum 10 (' ' :: (uintText w n ++ rest)) = some (UInt64.ofNat n, rest) := by
  obtain ⟨c, cs, hcs, hc⟩ := exists_toDigits n
  have hdigits : digits 10 0 (c :: (cs ++ rest)) = (n, rest) := by
    rw [← List.cons_append, ← hcs, digits_numeral n hrest]
  have htext : ' ' :: (uintText w n ++ rest) =
      List.replicate (w - (Nat.toDigits 10 n).length + 1) ' ' ++ c :: (cs ++ rest) := by
    rw [uintText, List.append_assoc, List.replicate_succ, List.cons_append]
    nth_rewrite 2 [hcs]
    rfl
  rw [htext]
  exact scanNum_digits hc (fun h => absurd h (by decide)) hdigits hn

theorem length_hexText : ∀ {w n : ℕ}, (hexText w n).length = w
  | 0, n => by rw [hexText, List.length_nil]
  | w + 1, n => by rw [hexText, List.length_append, length_hexText, List.length_singleton]

theorem scanNum_hexText {v : UInt64} {rest : CStr}
    (hrest : digitValue 16 (rest.headD ' ') = none) :
    scanNum 16 (hexText 16 v.toNat ++ rest) = some (v, rest) := by
  obtain ⟨c, cs, hcs, hc, hdigits⟩ := hexNumeral_split v hrest
  have htext : hexText 16 v.toNat ++ rest = c :: cs :=
    (List.cons.inj (List.cons.inj hcs).2).2
  have hskip : skipHexPrefix (c :: cs) = c :: cs := by
    obtain ⟨d, e, ds, hds⟩ : ∃ d e ds, hexText 16 v.toNat = d :: e :: ds := by
      have hlen := @length_hexText 16 v.toNat
      match hexText 16 v.toNat, hlen with
      | d :: e :: ds, _ => exact ⟨d, e, ds, rfl⟩
    have he : e ∈ hexText 16 v.toNat := by
      rw [hds]
      exact List.mem_cons_of_mem _ List.mem_cons_self
    have hx : e ≠ 'x' := fun h => not_mem_hexText (by decide) (h ▸ he)
    have hX : e ≠ 'X' := fun h => not_mem_hexText (by decide) (h ▸ he)
    rw [← htext, hds, List.cons_append, List.cons_append]
    unfold skipHexPrefix
    split
    · rename_i heq
      obtain ⟨rfl, -⟩ := List.cons.inj (List.cons.inj heq).2
      rw [if_neg fun h => h.1.elim hx hX]
      exact heq.symm
    · rfl
  have h := scanNum_digits (k := 0) hc (fun _ => hskip) hdigits v.toNat_lt
  rw [htext]
  rwa [UInt64.ofNat_toNat] at h

theorem scanInt_uintText {w n : ℕ} {rest : CStr} (hn : n < 2 ^ 31)
    (hrest : digitValue 10 (rest.headD ' ') = none) :
    scanInt (uintText w n ++ rest) = some (Int32.ofNat n) := by
  obtain ⟨c, cs, hcs, hc⟩ := exists_toDigits n
  have hdigits : digits 10 0 (c :: (cs ++ rest)) = (n, rest) := by
    rw [← List.cons_append, ← hcs, digits_numeral n hrest]
  have htext : uintText w n ++ rest =
      List.replicate (w - (Nat.toDigits 10 n).length) ' ' ++ c :: (cs ++ rest) := by
    rw [uintText, List.append_assoc]
    nth_rewrite 2 [hcs]
    rfl
  have hlong : rest.length < (uintText w n ++ rest).length := by
    rw [htext, List.length_append, List.length_cons, List.length_append]
    omega
  have hspace : ∀ d ∈ (c :: (cs ++ rest)).head?, isspace d = false := by
    rintro d ⟨⟩
    exact (not_space_of_digit hc).1
  have hstrtol : strtol (uintText w n ++ rest) = ((n : Int), rest) := by
    rw [htext, strtol, dropWhile_spaces hspace, sign_of_digit hc]
    dsimp only
    rw [if_pos hc, hdigits]
    dsimp only
    rw [if_neg Bool.false_ne_true]
    congr 1
    omega
  rw [scanInt, hstrtol]
  dsimp only
  rw [if_neg fun h => absurd (congrArg List.length h) (Nat.ne_of_lt hlong)]
  rfl

/-- A text that begins with something else than white space. -/
theorem dropWhile_lead {lit rest : CStr} (hlit : lit.head?.any (!isspace ·) = true) :
    (lit ++ rest).dropWhile isspace = lit ++ rest := by
  cases lit with
  | nil => exact absurd hlit Bool.false_ne_true
  | cons c lit =>
    have hc : isspace c = false := (Bool.not_eq_true' _).mp hlit
    exact List.dropWhile_cons_of_neg (by rw [hc]; exact Bool.false_ne_true)

theorem not_prefix_of_head {m lit rest : CStr} (hm : m ≠ []) (hlit : lit ≠ [])
    (h : m.head? ≠ lit.head?) : ¬ m <+: lit ++ rest := by
  obtain ⟨c, m, rfl⟩ := List.exists_cons_of_ne_nil hm
  obtain ⟨d, lit, rfl⟩ := List.exists_cons_of_ne_nil hlit
  exact fun hpre => h (congrArg some (List.cons_prefix_cons.mp hpre).1)

theorem scanLit_append (lit rest : CStr) : scanLit lit (lit ++ rest) = some rest := by
  rw [scanLit, if_pos (List.prefix_append _ _), List.drop_left]

theorem scanIndex_line {lit rest : CStr} {w n : ℕ} (hlit : lit.head?.any (!isspace ·) = true)
    (hn : n < 2 ^ 31) (hrest : digitValue 10 (rest.headD ' ') = none) :
    scanIndex lit (lit ++ (uintText w n ++ rest)) = some n := by
  have hint : (Int32.ofNat n).toInt = n := Int32.toInt_ofNat_of_lt hn
  have hpos : 0 ≤ Int32.ofNat n := by
    rw [Int32.le_iff_toInt_le, hint]
    exact Int.natCast_nonneg n
  rw [scanIndex, dropWhile_lead hlit, scanLit_append, Option.bind_some,
    scanInt_uintText hn hrest, Option.bind_some, if_pos hpos, hint, Int.toNat_natCast]

theorem scanIndex_none {lit line : CStr} (h : ¬ lit <+: line.dropWhile isspace) :
    scanIndex lit line = none := by
  rw [scanIndex, scanLit, if_neg h]
  rfl

end Numbers

/-! ### One line -/

section Step

variable {st : LineDump} {line : CStr}

/-- The first character that is not blank tells that a line starts no entry. -/
theorem not_startsEntry {n : ℕ} {c : Char} {text : CStr} (hspace : isspace c = false)
    (hc : c ≠ 'i' ∧ c ≠ 'f') (hd : c ≠ 'd' ∨ 0 < n) :
    ¬ StartsEntry (List.replicate n ' ' ++ c :: text) := by
  have htrim : (List.replicate n ' ' ++ c :: text).dropWhile isspace = c :: text :=
    dropWhile_spaces (by rintro d ⟨⟩; exact hspace)
  rw [StartsEntry, htrim]
  rintro (h | h | h)
  · cases n with
    | zero => exact hd.elim (fun hd => hd (List.cons_prefix_cons.mp h).1.symm) (Nat.lt_irrefl 0)
    | succ n => exact absurd (List.cons_prefix_cons.mp h).1 (by decide)
  · exact hc.1 (List.cons_prefix_cons.mp h).1.symm
  · exact hc.2 (List.cons_prefix_cons.mp h).1.symm

theorem step_of_not_startsEntry (h : ¬ StartsEntry line) :
    st.step line =
      match if st.havePendingFile then st.attribute line else none with
      | some st' => st'
      | none => LineDump.row { st with havePendingFile := false } line := by
  rw [StartsEntry, not_or, not_or] at h
  rw [LineDump.step, if_neg h.1, scanIndex_none h.2.1, scanIndex_none h.2.2]

/-- Outside of a file's block. -/
theorem step_of_closed (h : ¬ StartsEntry line) (hclosed : st.havePendingFile = false) :
    st.step line = st.row line := by
  rw [step_of_not_startsEntry h, if_neg (by rw [hclosed]; exact Bool.false_ne_true)]
  obtain ⟨dirs, files, havePendingFile, pendingName, entries⟩ := st
  cases hclosed
  rfl

theorem row_of_not_prefix (h : ¬ "0x".toList <+: line) : st.row line = st := if_neg h

theorem step_unread (hentry : ¬ StartsEntry line) (hrow : ¬ "0x".toList <+: line)
    (hclosed : st.havePendingFile = false) : st.step line = st := by
  rw [step_of_closed hentry hclosed, row_of_not_prefix hrow]

/-- A unit opens with empty tables. -/
theorem step_unitLine (offset : UInt64) :
    st.step (unitLine offset) = { st with dirs := [], files := [], havePendingFile := false } :=
  if_pos (List.prefix_append _ _)

/-- What stands in front of the quotes of a directory's line. -/
def dirLead (i : ℕ) : CStr :=
  "include_directories[".toList ++ (uintText 3 i ++ ']' :: ' ' :: '=' :: [' '])

theorem dirLine_eq (dir : ℕ × CStr) :
    dirLine dir = dirLead dir.1 ++ '"' :: (dir.2 ++ '"' :: ['\n']) := by
  unfold dirLine dirLead
  generalize "include_directories[".toList = lead
  simp only [List.append_assoc, List.cons_append, List.nil_append]

theorem not_mem_uintText {w n : ℕ} {c : Char} (hc : c.isDigit = false) (hspace : c ≠ ' ') :
    c ∉ uintText w n := by
  rw [uintText, List.mem_append, not_or]
  refine ⟨fun h => hspace (List.eq_of_mem_replicate h), fun h => ?_⟩
  have hdigit : c.isDigit = true := Nat.isDigit_of_mem_toDigits (by decide) (by decide) h
  exact Bool.false_ne_true (hc.symm.trans hdigit)

theorem step_dirLine {dir : ℕ × CStr} (hbound : dir.1 < 2 ^ 31) (hplain : IsUnquoted dir.2)
    (hfits : (dirLine dir).length < maxLineDump) :
    st.step (dirLine dir) = { st with dirs := place [] st.dirs dir } := by
  have hunit : ¬ "debug_line[".toList <+: dirLine dir :=
    not_prefix_of_head (by decide) (by decide) (by decide)
  have hindex : scanIndex "include_directories[".toList (dirLine dir) = some dir.1 :=
    scanIndex_line (by decide) hbound (by rfl)
  have hpre : '"' ∉ dirLead dir.1 := by
    unfold dirLead
    rw [List.mem_append, List.mem_append, not_or, not_or]
    exact ⟨not_mem_toList_ofList (by decide), not_mem_uintText (by decide) (by decide), by decide⟩
  have hshort : dir.2.length < maxFile := by
    rw [dirLine_eq, List.length_append, List.length_cons, List.length_append, maxLineDump] at hfits
    rw [maxFile]
    omega
  have hquoted : parseQuotedValue maxFile (dirLine dir) = some dir.2 := by
    rw [dirLine_eq, parseQuotedValue_quoted hpre hplain.1, snprintf_of_lt hshort]
  rw [LineDump.step, if_neg hunit, hindex]
  dsimp only
  rw [hquoted]
  rfl

theorem step_fileLine {i : ℕ} (hbound : i < 2 ^ 31) :
    st.step ("file_names[".toList ++ (uintText 3 i ++ [']', ':', '\n'])) =
      { st with
        havePendingFile := true
        pendingName := []
        files := padTo ([], 0) (i + 1) st.files } := by
  generalize hline : "file_names[".toList ++ (uintText 3 i ++ [']', ':', '\n']) = line
  have hunit : ¬ "debug_line[".toList <+: line := by
    rw [← hline]
    exact not_prefix_of_head (by decide) (by decide) (by decide)
  have hdir : scanIndex "include_directories[".toList line = none := by
    rw [← hline]
    refine scanIndex_none ?_
    rw [dropWhile_lead (by decide)]
    exact not_prefix_of_head (by decide) (by decide) (by decide)
  have hindex : scanIndex "file_names[".toList line = some i := by
    rw [← hline]
    exact scanIndex_line (by decide) hbound (by decide)
  rw [LineDump.step, if_neg hunit, hdir, hindex]

/-- The blanks in front of a pattern that does not begin with one. -/
theorem dropTo_replicate {m text : CStr} {n : ℕ} (h : m.head?.any (· ≠ ' ') = true) :
    dropTo m (List.replicate n ' ' ++ text) = dropTo m text := by
  induction n with
  | zero => rfl
  | succ n ih =>
    have hno : ¬ m <+: ' ' :: (List.replicate n ' ' ++ text) := by
      cases m with
      | nil => exact absurd h Bool.false_ne_true
      | cons c m => exact fun hpre => of_decide_eq_true h (List.cons_prefix_cons.mp hpre).1
    rw [List.replicate_succ, List.cons_append, dropTo, if_neg hno, ih]

section Fields

variable {key value : CStr}

/-- The lines of a file's attributes are read by the open block. -/
theorem step_fieldLine {c : Char} {st' : LineDump} (hkey : key = c :: key.tail)
    (hspace : isspace c = false) (hc : c ≠ 'i' ∧ c ≠ 'f') (hlen : key.length < 15)
    (hopen : st.havePendingFile = true) (hattr : st.attribute (fieldLine key value) = some st') :
    st.step (fieldLine key value) = st' := by
  have hentry : ¬ StartsEntry (fieldLine key value) := by
    rw [fieldLine, hkey]
    exact not_startsEntry hspace hc (.inr (by rw [← hkey]; omega))
  rw [step_of_not_startsEntry hentry, if_pos hopen, hattr]

theorem fieldLine_trim {c : Char} (hkey : key = c :: key.tail) (hspace : isspace c = false) :
    (fieldLine key value).dropWhile isspace = key ++ ':' :: ' ' :: (value ++ ['\n']) := by
  refine dropWhile_spaces fun d hd => ?_
  rw [hkey] at hd
  obtain rfl := Option.some.inj hd
  exact hspace

theorem not_mem_fieldLine {c : Char} (hkey : c ∉ key) (hvalue : c ∉ value)
    (hc : c ≠ ' ' ∧ c ≠ ':' ∧ c ≠ '\n') : c ∉ fieldLine key value := by
  simp only [fieldLine, List.mem_append, List.mem_replicate, List.mem_cons, List.not_mem_nil, hkey,
    hvalue, hc.1, hc.2.1, hc.2.2, and_false, or_self, not_false_eq_true]

/-- A field without quotes is not the name. -/
theorem dropTo_name_of_unquoted (hkey : '"' ∉ key) (hvalue : '"' ∉ value) :
    dropTo "name: \"".toList (fieldLine key value) = none :=
  dropTo_eq_none (not_infix_of_not_mem (d := '"') (by decide)
    (not_mem_fieldLine hkey hvalue (by decide)))

theorem step_name {name : CStr} (hname : IsUnquoted name) (hopen : st.havePendingFile = true)
    (hfits : (fieldLine "name".toList ('"' :: (name ++ ['"']))).length < maxLineDump) :
    st.step (fieldLine "name".toList ('"' :: (name ++ ['"']))) =
      { st with pendingName := name } := by
  have hline : fieldLine "name".toList ('"' :: (name ++ ['"'])) =
      List.replicate 11 ' ' ++ ("name: \"".toList ++ (name ++ '"' :: ['\n'])) := by
    have hmarker : "name: \"".toList = "name".toList ++ [':', ' ', '"'] := by decide
    rw [fieldLine, hmarker]
    simp only [List.append_assoc, List.cons_append, List.nil_append]
    rfl
  have hshort : name.length < maxFile := by
    rw [hline, List.length_append, List.length_append, List.length_append, maxLineDump] at hfits
    rw [maxFile]
    omega
  have hmarker : dropTo "name: \"".toList (fieldLine "name".toList ('"' :: (name ++ ['"']))) =
      some ("name: \"".toList ++ (name ++ '"' :: ['\n'])) := by
    rw [hline, dropTo_replicate (by decide), dropTo_append_self (by decide)]
  have htake : (name ++ '"' :: ['\n']).takeWhile (· ≠ '"') = name := by
    have hne : ∀ c ∈ name, decide (c ≠ '"') = true := fun c hc =>
      decide_eq_true fun hq => hname.1 (hq ▸ hc)
    rw [List.takeWhile_append_of_pos hne, List.takeWhile_cons_of_neg (by decide), List.append_nil]
  refine step_fieldLine (c := 'n') (by decide) (by decide) (by decide) (by decide) hopen ?_
  rw [LineDump.attribute, hmarker]
  dsimp only
  rw [List.drop_left, if_pos (List.mem_append_right _ List.mem_cons_self), htake,
    snprintf_of_lt hshort]

theorem step_dirIndex {dirIndex : UInt32} (hopen : st.havePendingFile = true) :
    st.step (fieldLine "dir_index".toList (Nat.toDigits 10 dirIndex.toNat)) =
      { st with
        files := st.files.set (st.files.length - 1) (st.pendingName, dirIndex.toUInt64) } := by
  have hdigits : ∀ {c : Char}, c.isDigit = false → c ∉ Nat.toDigits 10 dirIndex.toNat := by
    intro c hc hmem
    have hdigit : c.isDigit = true := Nat.isDigit_of_mem_toDigits (by decide) (by decide) hmem
    exact Bool.false_ne_true (hc.symm.trans hdigit)
  have hscan : scanDirIndex (fieldLine "dir_index".toList (Nat.toDigits 10 dirIndex.toNat)) =
      some dirIndex := by
    have htext : "dir_index".toList ++ ':' :: ' ' :: (Nat.toDigits 10 dirIndex.toNat ++ ['\n']) =
        "dir_index:".toList ++ ' ' :: (Nat.toDigits 10 dirIndex.toNat ++ ['\n']) := by
      have hlit : "dir_index:".toList = "dir_index".toList ++ [':'] := by decide
      rw [hlit, List.append_assoc, List.singleton_append]
    have hnum : scanNum 10 (' ' :: (uintText 0 dirIndex.toNat ++ ['\n'])) =
        some (UInt64.ofNat dirIndex.toNat, ['\n']) :=
      scanNum_uintText (Nat.lt_trans dirIndex.toNat_lt (by decide)) (by decide)
    have hvalue : uintText 0 dirIndex.toNat = Nat.toDigits 10 dirIndex.toNat := by
      rw [uintText, Nat.zero_sub]
      rfl
    rw [scanDirIndex, fieldLine_trim (c := 'd') (by decide) (by decide), htext, scanLit_append,
      Option.bind_some, ← hvalue, hnum, Option.map_some, UInt64.toUInt32_ofNat',
      UInt32.ofNat_toNat]
  refine step_fieldLine (c := 'd') (by decide) (by decide) (by decide) (by decide) hopen ?_
  rw [LineDump.attribute, dropTo_name_of_unquoted (by decide) (hdigits (by decide)), hscan]

/-- The other attributes are passed over. -/
theorem step_attr {attr : FileAttr × CStr} (hattr : IsUnquoted attr.2)
    (hopen : st.havePendingFile = true) : st.step (fieldLine attr.1.text attr.2) = st := by
  obtain ⟨key, value⟩ := attr
  have hquote : '"' ∉ key.text := by
    cases key <;> exact not_mem_toList_ofList (by decide)
  obtain ⟨c, hkey, hspace, hc, hlen⟩ : ∃ c, key.text = c :: key.text.tail ∧ isspace c = false ∧
      (c ≠ 'i' ∧ c ≠ 'f' ∧ c ≠ 'd') ∧ key.text.length < 15 := by
    cases key with
    | mtime => exact ⟨'m', by decide, by decide, by decide, by decide⟩
    | length => exact ⟨'l', by decide, by decide, by decide, by decide⟩
    | md5Checksum => exact ⟨'m', by decide, by decide, by decide, by decide⟩
  have hscan : scanDirIndex (fieldLine key.text value) = none := by
    rw [scanDirIndex, fieldLine_trim hkey hspace, scanLit, if_neg, Option.bind_none,
      Option.map_none]
    rw [hkey, List.cons_append]
    exact fun hpre => hc.2.2 (List.cons_prefix_cons.mp hpre).1.symm
  have hseen : strstr (fieldLine key.text value) (key.text ++ [':']) = true := by
    rw [strstr_iff]
    refine ⟨List.replicate (15 - key.text.length) ' ', ' ' :: (value ++ ['\n']), ?_⟩
    rw [fieldLine]
    simp only [List.append_assoc, List.cons_append, List.nil_append]
  refine step_fieldLine hkey hspace ⟨hc.1, hc.2.1⟩ hlen hopen ?_
  rw [LineDump.attribute, dropTo_name_of_unquoted hquote hattr.1, hscan]
  dsimp only
  refine if_pos ?_
  rw [Bool.or_eq_true, Bool.or_eq_true]
  cases key with
  | mtime => exact .inl (.inl hseen)
  | length => exact .inl (.inr hseen)
  | md5Checksum => exact .inr hseen

end Fields

/-- A row is read as it has been printed. -/
theorem scanRow_rowLine (row : LineRow × CStr) : scanRow (rowLine row) = some row.1 := by
  have hu32 : ∀ (v : UInt32) (rest : CStr),
      scanNum 10 (' ' :: (uintText 6 v.toNat ++ ' ' :: rest)) =
        some (UInt64.ofNat v.toNat, ' ' :: rest) := fun v rest =>
    scanNum_uintText (Nat.lt_trans v.toNat_lt (by decide)) rfl
  have hback : ∀ v : UInt32, (UInt64.ofNat v.toNat).toUInt32 = v := fun v => by
    rw [UInt64.toUInt32_ofNat', UInt32.ofNat_toNat]
  have htext : ∀ (v : UInt64) (rest : CStr),
      hexNumeral 16 v ++ rest = "0x".toList ++ (hexText 16 v.toNat ++ rest) := fun v rest => rfl
  rw [scanRow, rowLine, htext, scanLit_append, Option.bind_eq_bind, Option.bind_some,
    scanNum_hexText (by rfl), Option.bind_eq_bind, Option.bind_some]
  dsimp only
  rw [hu32, Option.bind_some, hu32, Option.bind_some, hu32, Option.bind_some, hback, hback, hback]
  rfl

theorem step_rowLine (row : LineRow × CStr) (hclosed : st.havePendingFile = false) :
    st.step (rowLine row) =
      { st with entries := st.entries ++ dwarfdumpRow st.dirs st.files row.1 } := by
  have hlead : ∃ rest, rowLine row = "0x".toList ++ rest := ⟨_, rfl⟩
  have hentry : ¬ StartsEntry (rowLine row) := by
    obtain ⟨rest, hrest⟩ := hlead
    rw [hrest]
    exact not_startsEntry (n := 0) (c := '0') (by decide) (by decide) (.inl (by decide))
  have hlead' : "0x".toList <+: rowLine row := by
    obtain ⟨rest, hrest⟩ := hlead
    rw [hrest]
    exact List.prefix_append _ _
  rw [step_of_closed hentry hclosed, LineDump.row, if_pos hlead', scanRow_rowLine]

/-- The empty line behind the tables closes the last block. -/
theorem step_blank : st.step "\n".toList = { st with havePendingFile := false } := by
  have hentry : ¬ StartsEntry "\n".toList := by decide
  have hattr : st.attribute "\n".toList = none := rfl
  rw [step_of_not_startsEntry hentry, hattr, ite_self]
  exact row_of_not_prefix (by decide)

end Step

/-! ### The lines of a unit -/

section Unit

variable {st : LineDump}

theorem foldl_unread {lines : List CStr} (h : ∀ line ∈ lines, IsUnread line)
    (hclosed : st.havePendingFile = false) : lines.foldl LineDump.step st = st := by
  induction lines with
  | nil => rfl
  | cons line lines ih =>
    obtain ⟨⟨-, hentry, hrow⟩, hlines⟩ := List.forall_mem_cons.mp h
    rw [List.foldl_cons, step_unread hentry hrow hclosed, ih hlines]

theorem foldl_dirs {dirs : List (ℕ × CStr)} (hbounded : ∀ dir ∈ dirs, dir.1 < 2 ^ 31)
    (hplain : ∀ dir ∈ dirs, IsUnquoted dir.2)
    (hfits : ∀ line ∈ dirs.map dirLine, line.length < maxLineDump) :
    (dirs.map dirLine).foldl LineDump.step st =
      { st with dirs := dirs.foldl (place []) st.dirs } := by
  induction dirs generalizing st with
  | nil => rfl
  | cons dir dirs ih =>
    obtain ⟨hbound, hbounded⟩ := List.forall_mem_cons.mp hbounded
    obtain ⟨hquoted, hplain⟩ := List.forall_mem_cons.mp hplain
    obtain ⟨hfit, hfits⟩ := List.forall_mem_cons.mp hfits
    rw [List.map_cons, List.foldl_cons, step_dirLine hbound hquoted hfit,
      ih hbounded hplain hfits]
    rfl

/-- The attributes behind the index of the directory leave the tables as they are. -/
theorem foldl_attrs {attrs : List (FileAttr × CStr)} (h : ∀ attr ∈ attrs, IsUnquoted attr.2)
    (hopen : st.havePendingFile = true) :
    (attrs.map fun (key, value) => fieldLine key.text value).foldl LineDump.step st = st := by
  induction attrs with
  | nil => rfl
  | cons attr attrs ih =>
    obtain ⟨hattr, hattrs⟩ := List.forall_mem_cons.mp h
    rw [List.map_cons, List.foldl_cons, step_attr hattr hopen, ih hattrs]

/-- What a file's block adds to the table. -/
def FileBlock.entry (file : FileBlock) : ℕ × CStr × UInt64 :=
  (file.index, file.name, file.dirIndex.toUInt64)

theorem foldl_file {file : FileBlock} (hbound : file.index < 2 ^ 31) (hname : IsUnquoted file.name)
    (hattrs : ∀ attr ∈ file.attrs, IsUnquoted attr.2)
    (hfits : ∀ line ∈ file.lines, line.length < maxLineDump)
    (hlen : st.files.length ≤ file.index) :
    file.lines.foldl LineDump.step st =
      { st with
        havePendingFile := true
        pendingName := file.name
        files := place ([], 0) st.files file.entry } := by
  have htarget : (padTo ([], 0) (file.index + 1) st.files).length - 1 = file.index := by
    rw [length_padTo (by omega), Nat.add_sub_cancel]
  rw [FileBlock.lines, List.foldl_cons, step_fileLine hbound, List.foldl_cons,
    step_name hname rfl (hfits _ (by simp [FileBlock.lines])), List.foldl_cons, step_dirIndex rfl,
    foldl_attrs hattrs rfl]
  dsimp only
  rw [htarget]
  rfl

theorem foldl_files {files : List FileBlock}
    (hinc : (files.map FileBlock.index).Pairwise (· < ·))
    (hbounded : ∀ file ∈ files, file.index < 2 ^ 31)
    (hplain : ∀ file ∈ files, IsUnquoted file.name)
    (hattrs : ∀ file ∈ files, ∀ attr ∈ file.attrs, IsUnquoted attr.2)
    (hfits : ∀ line ∈ files.flatMap FileBlock.lines, line.length < maxLineDump)
    (hlen : ∀ file ∈ files, st.files.length ≤ file.index) :
    ∃ pending name, (files.flatMap FileBlock.lines).foldl LineDump.step st =
      { st with
        havePendingFile := pending
        pendingName := name
        files := (files.map FileBlock.entry).foldl (place ([], 0)) st.files } := by
  induction files generalizing st with
  | nil => exact ⟨st.havePendingFile, st.pendingName, rfl⟩
  | cons file files ih =>
    obtain ⟨hfirst, hinc⟩ := List.pairwise_cons.mp hinc
    obtain ⟨hbound, hbounded⟩ := List.forall_mem_cons.mp hbounded
    obtain ⟨hname, hplain⟩ := List.forall_mem_cons.mp hplain
    obtain ⟨hattr, hattrs⟩ := List.forall_mem_cons.mp hattrs
    obtain ⟨hle, -⟩ := List.forall_mem_cons.mp hlen
    rw [List.flatMap_cons] at hfits
    rw [List.flatMap_cons, List.foldl_append, foldl_file hbound hname hattr
      (fun line hline => hfits line (List.mem_append_left _ hline)) hle]
    refine ih hinc hbounded hplain hattrs (fun line hline =>
      hfits line (List.mem_append_right _ hline)) fun next hnext => ?_
    rw [FileBlock.entry, length_place hle]
    exact hfirst next.index (List.mem_map_of_mem hnext)

theorem foldl_columns : columnLines.foldl LineDump.step st = { st with havePendingFile := false } := by
  rw [columnLines, List.foldl_cons, step_blank, List.foldl_cons,
    step_unread (by decide +kernel) (by decide +kernel) rfl, List.foldl_cons,
    step_unread (by decide +kernel) (by decide +kernel) rfl, List.foldl_nil]

/-- A row is resolved in the tables as they are. -/
theorem foldl_rows {rows : List (LineRow × CStr)} (hclosed : st.havePendingFile = false) :
    (rows.map rowLine).foldl LineDump.step st =
      { st with entries := st.entries ++ rows.flatMap fun row =>
          dwarfdumpRow st.dirs st.files row.1 } := by
  induction rows generalizing st with
  | nil => rw [List.flatMap_nil, List.append_nil]; rfl
  | cons row rows ih =>
    rw [List.map_cons, List.foldl_cons, step_rowLine row hclosed]
    refine (ih ?_).trans ?_
    · exact hclosed
    · rw [List.flatMap_cons, List.append_assoc]

/-- The entries of the rows, in the tables of the unit. -/
theorem DumpUnit.entries_eq (u : DumpUnit) :
    u.rows.flatMap (fun row => dwarfdumpRow u.dirTable u.fileTable row.1) = u.entries := by
  rw [DumpUnit.entries, List.map_eq_flatMap]
  refine List.flatMap_congr fun row _ => ?_
  rw [dwarfdumpRow, dwarfdumpResolvePath, snprintf_snprintf_maxFile]
  rfl

theorem DumpUnit.WellFormed.entriesIncrease {u : DumpUnit} (h : u.WellFormed) :
    ((u.files.map FileBlock.entry).map Prod.fst).Pairwise (· < ·) := by
  rw [List.map_map]
  exact h.filesIncrease

/-- Whatever has been read before, a unit leaves its own tables and adds the entries of its own
rows. -/
theorem foldl_unit {u : DumpUnit} (h : u.WellFormed)
    (hfits : ∀ line ∈ u.lines, line.length < maxLineDump) :
    ∃ name, u.lines.foldl LineDump.step st =
      { dirs := u.dirTable
        files := u.fileTable
        havePendingFile := false
        pendingName := name
        entries := st.entries ++ u.entries } := by
  have hdirs : ∀ line ∈ u.dirs.map dirLine, line.length < maxLineDump := fun line hline =>
    hfits line (by simp only [DumpUnit.lines, List.mem_cons, List.mem_append, hline, true_or, or_true])
  have hfiles : ∀ line ∈ u.files.flatMap FileBlock.lines, line.length < maxLineDump :=
    fun line hline => hfits line
      (by simp only [DumpUnit.lines, List.mem_cons, List.mem_append, hline, true_or, or_true])
  rw [DumpUnit.lines, List.foldl_cons, step_unitLine, List.foldl_append,
    foldl_unread h.prologue rfl, List.foldl_append, foldl_dirs h.dirsBounded h.dirsPlain hdirs,
    List.foldl_append]
  obtain ⟨pending, name, hrun⟩ := @foldl_files
    { st with
      dirs := u.dirs.foldl (place []) []
      files := []
      havePendingFile := false }
    u.files h.filesIncrease h.filesBounded h.filesPlain h.attrsPlain hfiles fun _ _ => Nat.zero_le _
  refine ⟨name, ?_⟩
  rw [hrun, foldl_place_nil h.dirsIncrease, foldl_place_nil h.entriesIncrease, List.foldl_append,
    foldl_columns, List.foldl_append, foldl_rows rfl, List.foldl_cons, step_blank, List.foldl_nil]
  dsimp only
  rw [← u.entries_eq]
  rfl

theorem foldl_units {units : List DumpUnit} (h : ∀ u ∈ units, u.WellFormed)
    (hfits : ∀ line ∈ units.flatMap DumpUnit.lines, line.length < maxLineDump) :
    ((units.flatMap DumpUnit.lines).foldl LineDump.step st).entries =
      st.entries ++ units.flatMap DumpUnit.entries := by
  induction units generalizing st with
  | nil => rw [List.flatMap_nil, List.flatMap_nil, List.append_nil]; rfl
  | cons u units ih =>
    obtain ⟨hu, hunits⟩ := List.forall_mem_cons.mp h
    rw [List.flatMap_cons] at hfits
    obtain ⟨name, hunit⟩ := @foldl_unit st u hu fun line hline =>
      hfits line (List.mem_append_left _ hline)
    rw [List.flatMap_cons, List.foldl_append, hunit,
      ih hunits fun line hline => hfits line (List.mem_append_right _ hline), List.flatMap_cons,
      List.append_assoc]

end Unit

/-! ### The text -/

section Text

theorem isDumpLine_append {text line : CStr} (htext : '\n' ∉ text) (h : IsDumpLine line) :
    IsDumpLine (text ++ line) := by
  obtain ⟨rest, rfl, hrest⟩ := h
  refine ⟨text ++ rest, (List.append_assoc ..).symm, ?_⟩
  rw [List.mem_append, not_or]
  exact ⟨htext, hrest⟩

theorem isDumpLine_cons {c : Char} {line : CStr} (hc : c ≠ '\n') (h : IsDumpLine line) :
    IsDumpLine (c :: line) :=
  @isDumpLine_append [c] line (fun hmem => hc (List.mem_singleton.mp hmem).symm) h

theorem isDumpLine_newline : IsDumpLine ['\n'] := ⟨[], rfl, List.not_mem_nil⟩

theorem not_newline_uintText {w n : ℕ} : '\n' ∉ uintText w n :=
  not_mem_uintText (by decide) (by decide)

theorem isDumpLine_fieldLine {key value : CStr} (hkey : '\n' ∉ key) (hvalue : '\n' ∉ value) :
    IsDumpLine (fieldLine key value) := by
  rw [fieldLine]
  refine isDumpLine_append (fun h => absurd (List.eq_of_mem_replicate h) (by decide)) ?_
  refine isDumpLine_append hkey (isDumpLine_cons (by decide) (isDumpLine_cons (by decide) ?_))
  exact isDumpLine_append hvalue isDumpLine_newline

theorem isDumpLine_dirLine {dir : ℕ × CStr} (h : '\n' ∉ dir.2) : IsDumpLine (dirLine dir) := by
  unfold dirLine
  refine isDumpLine_append (not_mem_toList_ofList (by decide))
    (isDumpLine_append not_newline_uintText ?_)
  refine isDumpLine_cons (by decide) (isDumpLine_cons (by decide) (isDumpLine_cons (by decide)
    (isDumpLine_cons (by decide) (isDumpLine_cons (by decide) ?_))))
  exact isDumpLine_append h (isDumpLine_cons (by decide) isDumpLine_newline)

theorem isDumpLine_rowLine {row : LineRow × CStr} (h : '\n' ∉ row.2) :
    IsDumpLine (rowLine row) := by
  unfold rowLine
  refine isDumpLine_append not_newline_hexNumeral (isDumpLine_cons (by decide) ?_)
  refine isDumpLine_append not_newline_uintText (isDumpLine_cons (by decide) ?_)
  refine isDumpLine_append not_newline_uintText (isDumpLine_cons (by decide) ?_)
  refine isDumpLine_append not_newline_uintText (isDumpLine_cons (by decide) ?_)
  exact isDumpLine_append h isDumpLine_newline

theorem FileBlock.isDumpLine {file : FileBlock} (hname : IsUnquoted file.name)
    (hattrs : ∀ attr ∈ file.attrs, IsUnquoted attr.2) : ∀ line ∈ file.lines, IsDumpLine line := by
  intro line hline
  have hdigits : '\n' ∉ Nat.toDigits 10 file.dirIndex.toNat := fun h => by
    have hdigit := Nat.isDigit_of_mem_toDigits (by decide) (by decide) h
    exact absurd hdigit (by decide)
  rw [FileBlock.lines, List.mem_cons, List.mem_cons, List.mem_cons, List.mem_map] at hline
  rcases hline with rfl | rfl | rfl | ⟨⟨key, value⟩, hattr, rfl⟩
  · refine isDumpLine_append (not_mem_toList_ofList (by decide))
      (isDumpLine_append not_newline_uintText ?_)
    exact isDumpLine_cons (by decide) (isDumpLine_cons (by decide) isDumpLine_newline)
  · refine isDumpLine_fieldLine (not_mem_toList_ofList (by decide)) ?_
    rw [List.mem_cons, List.mem_append, not_or, not_or]
    exact ⟨by decide, hname.2, by decide⟩
  · exact isDumpLine_fieldLine (not_mem_toList_ofList (by decide)) hdigits
  · refine isDumpLine_fieldLine ?_ (hattrs _ hattr).2
    cases key <;> exact not_mem_toList_ofList (by decide)

theorem isDumpLine_columns : ∀ line ∈ columnLines, IsDumpLine line := by
  intro line hline
  rw [columnLines, List.mem_cons, List.mem_cons, List.mem_singleton] at hline
  rcases hline with rfl | rfl | rfl
  · exact ⟨[], by decide, List.not_mem_nil⟩
  · exact isDumpLine_append (not_mem_toList_ofList (by decide)) isDumpLine_newline
  · exact isDumpLine_append (not_mem_toList_ofList (by decide)) isDumpLine_newline

theorem DumpUnit.WellFormed.isDumpLine {u : DumpUnit} (h : u.WellFormed) :
    ∀ line ∈ u.lines, IsDumpLine line := by
  intro line hline
  rw [DumpUnit.lines, List.mem_cons, List.mem_append, List.mem_append, List.mem_append,
    List.mem_append, List.mem_append, List.mem_map, List.mem_flatMap, List.mem_map,
    List.mem_singleton] at hline
  rcases hline with rfl | hline | ⟨dir, hdir, rfl⟩ | ⟨file, hfile, hline⟩ | hline | ⟨row, hrow, rfl⟩ |
    rfl
  · unfold unitLine
    refine isDumpLine_append (not_mem_toList_ofList (by decide))
      (isDumpLine_append not_newline_hexNumeral ?_)
    exact isDumpLine_cons (by decide) isDumpLine_newline
  · exact (h.prologue line hline).1
  · exact isDumpLine_dirLine (h.dirsPlain dir hdir).2
  · exact FileBlock.isDumpLine (h.filesPlain file hfile) (h.attrsPlain file hfile) line hline
  · exact isDumpLine_columns line hline
  · exact isDumpLine_rowLine (h.rowsPlain row hrow)
  · exact ⟨[], by decide, List.not_mem_nil⟩

end Text

/-- The tables of a unit have its directories and files at their indices. -/
theorem DumpUnit.WellFormed.tables {u : DumpUnit} (h : u.WellFormed) :
    (∀ dir ∈ u.dirs, u.dirTable[dir.1]? = some dir.2) ∧
      ∀ file ∈ u.files, u.fileTable[file.index]? = some (file.name, file.dirIndex.toUInt64) := by
  refine ⟨fun dir hdir => getElem?_tableOf h.dirsIncrease hdir, fun file hfile => ?_⟩
  have hentry : file.entry ∈ u.files.map FileBlock.entry := List.mem_map_of_mem hfile
  exact getElem?_tableOf h.entriesIncrease hentry

/-- The loader appends the entries of the units, one after the other. -/
theorem entries_of_units {preamble : List CStr} {units : List DumpUnit}
    (hpreamble : ∀ line ∈ preamble, IsUnread line) (hunits : ∀ u ∈ units, u.WellFormed)
    (hfits : ∀ line ∈ preamble ++ units.flatMap DumpUnit.lines, line.length < maxLineDump)
    (ln : Lineno) (compDir : CStr) (closeRc : Int) :
    (linenoLoadFromDwarfdump ln compDir
        (some (lineDumpText preamble units, closeRc))).2.1.entries =
      ln.entries ++ units.flatMap DumpUnit.entries := by
  have hlines : ∀ line ∈ preamble ++ units.flatMap DumpUnit.lines, IsDumpLine line := by
    intro line hline
    rcases List.mem_append.mp hline with hline | hline
    · exact (hpreamble line hline).1
    · obtain ⟨u, hu, hline⟩ := List.mem_flatMap.mp hline
      exact (hunits u hu).isDumpLine line hline
  rw [linenoLoadFromDwarfdump]
  dsimp only
  rw [lineDumpText, fgetsLines_flatten hlines hfits, List.foldl_append, foldl_unread hpreamble rfl,
    foldl_units hunits fun line hline => hfits line (List.mem_append_right _ hline)]

/-- Of a text printed from units, every row becomes one entry, in order, with the path that its
file index has in the tables of its own unit. -/
theorem rows_of_units_loaded {preamble : List CStr} {units : List DumpUnit}
    (hpreamble : ∀ line ∈ preamble, IsUnread line) (hunits : ∀ u ∈ units, u.WellFormed)
    (hfits : ∀ line ∈ preamble ++ units.flatMap DumpUnit.lines, line.length < maxLineDump)
    (ln : Lineno) (compDir : CStr) (closeRc : Int) :
    (linenoLoadFromDwarfdump ln compDir
        (some (lineDumpText preamble units, closeRc))).2.1.entries =
      ln.entries ++ units.flatMap DumpUnit.entries ∧
    ∀ u ∈ units, (∀ dir ∈ u.dirs, u.dirTable[dir.1]? = some dir.2) ∧
      ∀ file ∈ u.files, u.fileTable[file.index]? = some (file.name, file.dirIndex.toUInt64) :=
  ⟨entries_of_units hpreamble hunits hfits ln compDir closeRc, fun u hu => (hunits u hu).tables⟩

/-- Two units whose files have the same index. -/
def twoUnits : List DumpUnit :=
  [{ offset := 0
     prologue := ["Line table prologue:".toList ++ ['\n'], "        version: 5".toList ++ ['\n']]
     dirs := [(0, "/src".toList), (1, "/usr/include".toList)]
     files := [⟨0, "a.c".toList, 0, [(.md5Checksum, "00ff".toList)]⟩,
       ⟨1, "b.h".toList, 1, [(.mtime, "0x0".toList), (.length, "0x10".toList)]⟩]
     rows := [(⟨0x1000, 3, 1, 0⟩, "  0  is_stmt".toList), (⟨0x1004, 7, 12, 1⟩, "  0".toList)] },
   { offset := 0x40
     prologue := []
     dirs := [(1, "/lib".toList)]
     files := [⟨1, "c.c".toList, 1, []⟩]
     rows := [(⟨0x2000, 5, 2, 1⟩, "  0  is_stmt end_sequence".toList)] }]

theorem twoUnits_wellFormed : ∀ u ∈ twoUnits, u.WellFormed := by
  have hline : ∀ {text : CStr}, '\n' ∉ text → ¬ StartsEntry (text ++ ['\n']) →
      ¬ "0x".toList <+: text ++ ['\n'] → IsUnread (text ++ ['\n']) := fun htext hentry hrow =>
    ⟨isDumpLine_append htext isDumpLine_newline, hentry, hrow⟩
  intro u hu
  rw [twoUnits, List.mem_cons, List.mem_singleton] at hu
  rcases hu with rfl | rfl
  · refine ⟨fun line hmem => ?_, by decide, by decide, by decide, by decide, by decide, by decide,
      by decide, by decide⟩
    rw [List.mem_cons, List.mem_singleton] at hmem
    rcases hmem with rfl | rfl
    · exact hline (by decide) (by decide) (by decide)
    · exact hline (by decide) (by decide) (by decide)
  · exact ⟨fun _ hmem => absurd hmem List.not_mem_nil, by decide, by decide, by decide, by decide,
      by decide, by decide, by decide, by decide⟩

/-- File 1 is another one in the second unit. -/
theorem rows_of_twoUnits_loaded :
    (linenoLoadFromDwarfdump {} [] (some (lineDumpText [] twoUnits, 0))).2.1.entries =
      [⟨0x1000, 3, 1, "/src/a.c".toList⟩, ⟨0x1004, 7, 12, "/usr/include/b.h".toList⟩,
        ⟨0x2000, 5, 2, "/lib/c.c".toList⟩] :=
  (rows_of_units_loaded (fun _ h => absurd h List.not_mem_nil) twoUnits_wellFormed
    (by decide +kernel) {} [] 0).1.trans (by decide +kernel)

end Debugger
