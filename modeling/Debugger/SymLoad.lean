/-
Loading the symbols of an executable (`syms.c`).

`cdbg_syms_load` runs nm on the executable, then on its dSYM, and reads the symbol tables of the
two files itself where that gives nothing.  `NmRow` is what a line of nm is printed from; a listing
is read back row by row (`symsLoadFromNm_rows`).

Where nm lists the symbols of the image in the file, the symbols are the same whichever way they
have been loaded, up to their order and the letters of their sections (`symsLoad_agree`).
-/
import Debugger.DwarfdumpLines
import Debugger.MachOImage

open Prog Reading

namespace Debugger

/-! ### The operating system -/

/-- `PATH_MAX` -/
def pathMax : ℕ := 1024

/-- What the loaders ask the operating system for: whether a file can be read, the file as it is
mapped, and what a command prints with its exit status. -/
structure Host where
  readable : CStr → Bool
  mapFile : CStr → Option MappedFile
  popen : CStr → Option (List Char × Int)

/-- What is read of a mapped file; `none` when that leaves the file. -/
def MappedFile.read {α : Type} (file : MappedFile) (r : Reading α) : Option α :=
  if ∀ p ∈ r.reads, p < file.size then some r.value else none

theorem MappedFile.read_eq {α : Type} {file : MappedFile} {r : Reading α} {a : α}
    (h : r.Yields file.size a) : file.read r = some a :=
  (if_pos h.inside).trans (congrArg some h.value)

/-- `basename` -/
def basename (path : CStr) : CStr :=
  if path = [] then ".".toList
  else
    match path.reverse.dropWhile (· = '/') with
    | [] => "/".toList
    | last => (last.takeWhile (· ≠ '/')).reverse

/-- `dsym_object_path` -/
def dsymObjectPath (host : Host) (executablePath : CStr) : Option CStr :=
  if executablePath.length ≥ pathMax then none
  else
    let out :=
      executablePath ++ (".dSYM/Contents/Resources/DWARF/".toList ++ basename executablePath)
    if out.length ≥ pathMax then none
    else if host.readable out then some out
    else none

/-! ### The listing of nm -/

/-- `%*s`, with at most `width` characters. -/
def scanWord (width : ℕ) (text : CStr) : Option CStr :=
  let word := (text.dropWhile isspace).takeWhile (!isspace ·)
  if word = [] then none else some (word.take width)

/-- `%c %255s` -/
def scanTyped : CStr → Option (Char × CStr)
  | [] => none
  | type :: text => (scanWord (symMaxName - 1) text).map (type, ·)

/-- `sscanf(p, "%llx %c %255s", &addr, &type, name) == 3`, and else
`sscanf(p, "%c %255s", &type, name) == 2` -/
def scanSymbol (p : CStr) : Option SymEntry :=
  let withAddress := do
    let (address, text) ← scanNum 16 p
    let (type, name) ← scanTyped (text.dropWhile isspace)
    return { address := address, type := type, name := name : SymEntry }
  match withAddress with
  | some sym => some sym
  | none => (scanTyped p).map fun typed => { address := 0, type := typed.1, name := typed.2 }

/-- `syms_push`, of a name in a buffer. -/
def pushSymbol (entries : List SymEntry) (sym : SymEntry) : List SymEntry :=
  if sym.interesting then entries ++ [{ sym with name := snprintf symMaxName sym.name }]
  else entries

/-- The body of the loop of `syms_load_from_nm`. -/
def nmLine (entries : List SymEntry) (line : CStr) : List SymEntry :=
  let p := line.dropWhile isBlank
  if p = [] ∨ p.head? = some '\n' then entries
  else
    match scanSymbol p with
    | some sym => pushSymbol entries sym
    | none => entries

/-- The size of the line buffer of the loader. -/
abbrev maxNmLine : ℕ := 512

def nmCommand (path : CStr) : CStr := "nm -n '".toList ++ (path ++ "' 2>/dev/null".toList)

theorem length_nmCommand (path : CStr) : (nmCommand path).length = path.length + 20 := by
  have hfront : "nm -n '".toList.length = 7 := by decide
  have hback : "' 2>/dev/null".toList.length = 13 := by decide
  unfold nmCommand
  simp only [List.length_append, hfront, hback]
  omega

/-- `syms_load_from_nm`: the return code and the symbols. -/
def symsLoadFromNm (host : Host) (entries : List SymEntry) (path : CStr) :
    Int × List SymEntry :=
  if (nmCommand path).length ≥ pathMax + 32 then (-1, entries)
  else
    match host.popen (nmCommand path) with
    | none => (-1, entries)
    | some (text, closeRc) =>
      let entries := (fgetsLines maxNmLine text).foldl nmLine entries
      (if closeRc = 0 ∧ entries.length > 0 then 0 else -1, entries)

/-! ### `cdbg_syms_load` -/

/-- The loop over the objects: the symbols of the first one for which nm succeeds, behind what has
been read of those before it. -/
def symsLoadObjects (host : Host) : List CStr → List SymEntry → Option (List SymEntry)
  | [], _ => none
  | object :: objects, entries =>
    match symsLoadFromNm host entries object with
    | (rc, entries) => if rc = 0 then some entries else symsLoadObjects host objects entries

/-- The dSYM's symbols, for an executable that has none. -/
def symsLoadDsym (dwarf : MappedFile) (linkBase : Addr) (entries : List SymEntry) :
    Option (Int × Syms) := do
  let linkBase ← (if linkBase = 0 then dwarf.read (machoTextVmaddr dwarf) else some linkBase)
  let out ← dwarf.read (symsLoadMacho dwarf entries)
  return (out.1, { entries := out.2, linkBase := linkBase })

/-- The part of `cdbg_syms_load` that reads the files itself. -/
def symsLoadFiles (host : Host) (executablePath : CStr) : Option (Int × Syms) :=
  match host.mapFile executablePath with
  | none => some (-1, {})
  | some exe => do
    let linkBase ← exe.read (machoTextVmaddr exe)
    let out ← exe.read (symsLoadMacho exe [])
    if out.1 = 0 then return (0, { entries := out.2, linkBase := linkBase })
    else
      match (dsymObjectPath host executablePath).bind host.mapFile with
      | none => return (out.1, { entries := out.2, linkBase := linkBase })
      | some dwarf => symsLoadDsym dwarf linkBase out.2

/-- The link base of the executable; 0 where it cannot be mapped. -/
def exeLinkBase (host : Host) (executablePath : CStr) : Option Addr :=
  match host.mapFile executablePath with
  | none => some 0
  | some exe => exe.read (machoTextVmaddr exe)

/-- `cdbg_syms_load`; `none` when a byte outside of a file is read. -/
def symsLoad (host : Host) (executablePath : CStr) : Option (Int × Syms) := do
  let linkBase ← exeLinkBase host executablePath
  let objects := executablePath :: (dsymObjectPath host executablePath).toList
  match symsLoadObjects host objects [] with
  | some entries => return (0, { entries := entries, linkBase := linkBase })
  | none => symsLoadFiles host executablePath

/-! ### What nm prints -/

/-- A line of nm: the value, if the symbol has one, the letter of its type, the name, and what is
printed behind the name. -/
structure NmRow where
  value : Option Addr
  letter : Char
  name : CStr
  note : CStr := []

namespace NmRow

/-- `%016llx`, or blanks. -/
def valueText (row : NmRow) : CStr :=
  match row.value with
  | some v => hexText 16 v.toNat
  | none => List.replicate 16 ' '

def line (row : NmRow) : CStr :=
  row.valueText ++ (' ' :: row.letter :: ' ' :: (row.name ++ (row.note ++ ['\n'])))

/-- What the loader relies on: a letter that is not taken for a digit of a missing value, a name
without white space, a note that is set off from it, and a line that fits the buffer. -/
structure Fits (row : NmRow) : Prop where
  letter : isspace row.letter = false
  unsigned : row.value = none →
    row.letter ≠ '-' ∧ row.letter ≠ '+' ∧ digitValue 16 row.letter = none
  named : row.name ≠ []
  word : ∀ c ∈ row.name, isspace c = false
  note : ∀ c ∈ row.note.head?, isspace c = true
  oneLine : '\n' ∉ row.note
  short : row.name.length + row.note.length ≤ 491

/-- What is kept of a row. -/
def entry (row : NmRow) : Option SymEntry :=
  let sym : SymEntry := { address := row.value.getD 0, type := row.letter, name := row.name }
  if sym.interesting then some { sym with name := snprintf symMaxName sym.name } else none

end NmRow

def nmText (rows : List NmRow) : List Char := (rows.map NmRow.line).flatten

/-! ### A listing is read back -/

section Rows

variable {row : NmRow} {entries : List SymEntry}

/-- A text that does not begin like a number is none. -/
theorem scanNum_none {c : Char} {cs : CStr} (hspace : isspace c = false) (hminus : c ≠ '-')
    (hplus : c ≠ '+') (hdigit : digitValue 16 c = none) : scanNum 16 (c :: cs) = none := by
  have hsign : sign (c :: cs) = (false, c :: cs) := by
    rw [sign]
    · exact fun _ h => hminus (List.cons.inj h).1
    · exact fun _ h => hplus (List.cons.inj h).1
  have hskip : skipHexPrefix (c :: cs) = c :: cs := by
    unfold skipHexPrefix
    split
    · rename_i heq
      rw [(List.cons.inj heq).1] at hdigit
      exact absurd hdigit (by decide)
    · rfl
  rw [scanNum, List.dropWhile_cons_of_neg (by rw [hspace]; exact Bool.false_ne_true), hsign]
  dsimp only
  rw [if_pos rfl, hskip]
  dsimp only
  rw [hdigit, if_neg (by exact Bool.false_ne_true)]

/-- The word behind a blank. -/
theorem scanWord_name (h : row.Fits) {width : ℕ} :
    scanWord width (' ' :: (row.name ++ (row.note ++ ['\n']))) =
      some (row.name.take width) := by
  obtain ⟨c, cs, hcs⟩ := List.exists_cons_of_ne_nil h.named
  have hdrop : (' ' :: (row.name ++ (row.note ++ ['\n']))).dropWhile isspace =
      row.name ++ (row.note ++ ['\n']) := by
    rw [List.dropWhile_cons_of_pos (by decide), hcs]
    refine List.dropWhile_cons_of_neg ?_
    rw [h.word c (hcs ▸ List.mem_cons_self)]
    exact Bool.false_ne_true
  have hend : (row.note ++ ['\n']).takeWhile (!isspace ·) = [] := by
    cases hnote : row.note with
    | nil => rfl
    | cons d ds =>
      have hd := h.note d (by rw [hnote]; rfl)
      exact List.takeWhile_cons_of_neg (by rw [hd]; decide)
  have htake : (row.name ++ (row.note ++ ['\n'])).takeWhile (!isspace ·) = row.name := by
    rw [List.takeWhile_append_of_pos fun d hd => by rw [h.word d hd]; rfl, hend, List.append_nil]
  rw [scanWord, hdrop, htake]
  exact if_neg h.named

theorem scanTyped_row (h : row.Fits) :
    scanTyped (row.letter :: ' ' :: (row.name ++ (row.note ++ ['\n']))) =
      some (row.letter, row.name.take (symMaxName - 1)) := by
  rw [scanTyped, scanWord_name h]
  rfl

/-- The text of a line from the letter on. -/
def NmRow.typed (row : NmRow) : CStr :=
  row.letter :: ' ' :: (row.name ++ (row.note ++ ['\n']))

theorem dropWhile_typed {p : Char → Bool} (hp : p row.letter = false) :
    row.typed.dropWhile p = row.typed :=
  List.dropWhile_cons_of_neg (by rw [hp]; exact Bool.false_ne_true)

/-- A row with a value is read by the first format. -/
theorem scanSymbol_value (h : row.Fits) (v : Addr) :
    scanSymbol (hexText 16 v.toNat ++ ' ' :: row.typed) =
      some { address := v, type := row.letter, name := row.name.take (symMaxName - 1) } := by
  have hnum : scanNum 16 (hexText 16 v.toNat ++ ' ' :: row.typed) = some (v, ' ' :: row.typed) :=
    scanNum_hexText rfl
  have hdrop : (' ' :: row.typed).dropWhile isspace = row.typed := by
    rw [List.dropWhile_cons_of_pos (by decide), dropWhile_typed h.letter]
  have htyped : scanTyped row.typed = some (row.letter, row.name.take (symMaxName - 1)) :=
    scanTyped_row h
  simp only [scanSymbol, hnum, hdrop, htyped, Option.bind_eq_bind, Option.bind_some,
    Option.pure_def]

/-- A row without one is read by the second. -/
theorem scanSymbol_novalue (h : row.Fits) (hvalue : row.value = none) :
    scanSymbol row.typed =
      some { address := 0, type := row.letter, name := row.name.take (symMaxName - 1) } := by
  obtain ⟨hminus, hplus, hdigit⟩ := h.unsigned hvalue
  have hnum : scanNum 16 row.typed = none := scanNum_none h.letter hminus hplus hdigit
  have htyped : scanTyped row.typed = some (row.letter, row.name.take (symMaxName - 1)) :=
    scanTyped_row h
  simp only [scanSymbol, hnum, htyped, Option.bind_eq_bind, Option.bind_none, Option.map_some]

/-- The name is cut off twice at the same place, and only its first character counts. -/
theorem pushSymbol_take (h : row.Fits) (address : Addr) :
    pushSymbol entries
        { address := address, type := row.letter, name := row.name.take (symMaxName - 1) } =
      entries ++
        (if SymEntry.interesting ⟨address, row.letter, row.name⟩ then
          some { address := address, type := row.letter, name := snprintf symMaxName row.name }
          else none : Option SymEntry).toList := by
  obtain ⟨c, cs, hcs⟩ := List.exists_cons_of_ne_nil h.named
  have hinteresting :
      SymEntry.interesting ⟨address, row.letter, row.name.take (symMaxName - 1)⟩ =
        SymEntry.interesting ⟨address, row.letter, row.name⟩ := by
    rw [hcs]
    rfl
  have hname : snprintf symMaxName (row.name.take (symMaxName - 1)) =
      snprintf symMaxName row.name := snprintf_snprintf symMaxName row.name
  rw [pushSymbol, hinteresting]
  dsimp only
  rw [hname]
  split
  · rfl
  · exact (List.append_nil entries).symm

/-- What is left of a line when the blanks in front are gone. -/
theorem nmLine_of_drop {line p : CStr} {sym : SymEntry} {c : Char}
    (hdrop : line.dropWhile isBlank = p) (hhead : p.head? = some c) (hc : c ≠ '\n')
    (hscan : scanSymbol p = some sym) : nmLine entries line = pushSymbol entries sym := by
  have hgo : ¬ (p = [] ∨ p.head? = some '\n') := by
    rintro (hnil | hline)
    · rw [hnil] at hhead
      cases hhead
    · exact hc (Option.some.inj (hhead.symm.trans hline))
  rw [nmLine, hdrop, if_neg hgo, hscan]

/-- A row becomes its symbol. -/
theorem nmLine_row (h : row.Fits) : nmLine entries row.line = entries ++ row.entry.toList := by
  have hblank : ∀ {c : Char}, isspace c = false → isBlank c = false ∧ c ≠ '\n' := by
    intro c hc
    refine ⟨?_, fun heq => by rw [heq] at hc; exact absurd hc (by decide)⟩
    by_contra hb
    rw [Bool.not_eq_false, isBlank, Bool.or_eq_true, decide_eq_true_eq, decide_eq_true_eq] at hb
    rcases hb with rfl | rfl <;> exact absurd hc (by decide)
  cases hvalue : row.value with
  | some v =>
    obtain ⟨d, ds, hds, hd⟩ := @head_hexText 15 v.toNat
    have hspace := hblank (not_space_of_digit hd).1
    have hline : row.line = hexText 16 v.toNat ++ ' ' :: row.typed := by
      rw [NmRow.line, NmRow.valueText, hvalue]
      rfl
    have hdrop : row.line.dropWhile isBlank = hexText 16 v.toNat ++ ' ' :: row.typed := by
      rw [hline, hds]
      exact List.dropWhile_cons_of_neg (by rw [hspace.1]; exact Bool.false_ne_true)
    rw [nmLine_of_drop hdrop (by rw [hds]; rfl) hspace.2 (scanSymbol_value h v), pushSymbol_take h,
      NmRow.entry, hvalue]
    rfl
  | none =>
    have hspace := hblank h.letter
    have hline : row.line = List.replicate 17 ' ' ++ row.typed := by
      rw [NmRow.line, NmRow.valueText, hvalue]
      rfl
    have hdrop : row.line.dropWhile isBlank = row.typed := by
      rw [hline, List.dropWhile_append_of_pos fun c hc => by rw [List.eq_of_mem_replicate hc]; rfl,
        dropWhile_typed hspace.1]
    rw [nmLine_of_drop hdrop rfl hspace.2 (scanSymbol_novalue h hvalue), pushSymbol_take h,
      NmRow.entry, hvalue]
    rfl

theorem foldl_rows_nm {rows : List NmRow} (h : ∀ row ∈ rows, row.Fits) :
    (rows.map NmRow.line).foldl nmLine entries = entries ++ rows.filterMap NmRow.entry := by
  induction rows generalizing entries with
  | nil => exact (List.append_nil entries).symm
  | cons row rows ih =>
    obtain ⟨hrow, hrows⟩ := List.forall_mem_cons.mp h
    rw [List.map_cons, List.foldl_cons, nmLine_row hrow, ih hrows, List.append_assoc,
      List.filterMap_cons]
    cases row.entry <;> rfl

theorem isDumpLine_row (h : row.Fits) : IsDumpLine row.line := by
  have hword : '\n' ∉ row.name := fun hmem => absurd (h.word _ hmem) (by decide)
  have hletter : row.letter ≠ '\n' := by
    intro heq
    have hspace := h.letter
    rw [heq] at hspace
    exact absurd hspace (by decide)
  have hvalue : '\n' ∉ row.valueText := by
    rw [NmRow.valueText]
    cases row.value with
    | some v => exact not_mem_hexText (by decide)
    | none => decide
  exact isDumpLine_append hvalue (isDumpLine_cons (by decide) (isDumpLine_cons hletter
    (isDumpLine_cons (by decide) (isDumpLine_append hword
      (isDumpLine_append h.oneLine isDumpLine_newline)))))

theorem length_line (h : row.Fits) : row.line.length < maxNmLine := by
  have hshort := h.short
  have hvalue : row.valueText.length = 16 := by
    rw [NmRow.valueText]
    cases row.value with
    | some v => exact length_hexText
    | none => rfl
  rw [NmRow.line, List.length_append, hvalue, maxNmLine]
  simp only [List.length_append, List.length_cons, List.length_nil]
  omega

/-- The lines of a listing are read one by one. -/
theorem fgetsLines_nmText {rows : List NmRow} (h : ∀ row ∈ rows, row.Fits) :
    fgetsLines maxNmLine (nmText rows) = rows.map NmRow.line := by
  refine fgetsLines_flatten ?_ ?_
  · intro line hline
    obtain ⟨row, hrow, rfl⟩ := List.mem_map.mp hline
    exact isDumpLine_row (h row hrow)
  · intro line hline
    obtain ⟨row, hrow, rfl⟩ := List.mem_map.mp hline
    exact length_line (h row hrow)

end Rows

/-! ### nm and the symbol table agree -/

/-- What a symbol is looked up by and what is wanted of it. -/
def SymEntry.key (sym : SymEntry) : Addr × CStr := (sym.address, sym.name)

/-- The line is that of the symbol.  The letter may be another one (it tells the section), but it
is one the loader drops in the same cases. -/
structure NmRow.Shows (row : NmRow) (sym : MachSymbol) : Prop where
  value : row.value.getD 0 = sym.value
  name : row.name = sym.name.map fun b => Char.ofNat b.toNat
  letter : row.letter = '?' ∨ row.letter = '-' ↔ nlistTypeChar sym.type = '?'

/-- The symbols that nm lists: those that are no debugging entries and have a name. -/
def MachImage.listed (img : MachImage) : List MachSymbol :=
  (img.symbols.filter (·.strx.toNat < img.strings.length)).filter (·.type &&& 0xe0 = 0)

/-- The rows list the symbols of the image, in an order of their own. -/
def Lists (rows : List NmRow) (img : MachImage) : Prop :=
  ∃ syms, syms.Perm img.listed ∧ List.Forall₂ NmRow.Shows rows syms

section Agree

variable {row : NmRow} {rows : List NmRow} {img : MachImage} {sym : MachSymbol} {host : Host}
  {path : CStr}

theorem nlistTypeChar_ne (type : UInt8) : nlistTypeChar type ≠ '-' := by
  unfold nlistTypeChar
  dsimp only
  split_ifs <;> decide

/-- A row is kept exactly if its symbol is. -/
theorem entry_shows (h : row.Shows sym) (hstab : sym.type &&& 0xe0 = 0) :
    row.entry.map SymEntry.key = sym.entry.map SymEntry.key := by
  have hinteresting :
      SymEntry.interesting ⟨sym.value, row.letter, row.name⟩ =
        SymEntry.interesting ⟨sym.value, nlistTypeChar sym.type, row.name⟩ := by
    have hletter : (nlistTypeChar sym.type = '?' ∨ nlistTypeChar sym.type = '-') =
        (row.letter = '?' ∨ row.letter = '-') := by
      rw [h.letter, or_iff_left (nlistTypeChar_ne sym.type)]
    unfold SymEntry.interesting
    cases row.name with
    | nil => rfl
    | cons c cs => simp only [hletter]
  rw [NmRow.entry, MachSymbol.entry, h.value, hinteresting, h.name]
  dsimp only
  rw [← h.name]
  simp only [hstab, true_and]
  split <;> rfl

/-- The kept symbols are among those that are listed. -/
theorem entries_eq_listed (img : MachImage) :
    img.entries = img.listed.filterMap MachSymbol.entry := by
  rw [MachImage.entries, MachImage.listed]
  generalize img.symbols.filter (·.strx.toNat < img.strings.length) = syms
  rw [List.filterMap_filter]
  refine List.filterMap_congr fun sym _ => ?_
  split
  · rfl
  · rename_i hstab
    rw [MachSymbol.entry]
    refine if_neg fun h => hstab ?_
    simpa using h.1

/-- The symbols of a listing are those of the image. -/
theorem perm_of_lists (h : Lists rows img) :
    ((rows.filterMap NmRow.entry).map SymEntry.key).Perm (img.entries.map SymEntry.key) := by
  obtain ⟨syms, hperm, hshows⟩ := h
  have heq : ∀ {rows : List NmRow} {syms : List MachSymbol},
      List.Forall₂ NmRow.Shows rows syms → (∀ sym ∈ syms, sym.type &&& 0xe0 = 0) →
      (rows.filterMap NmRow.entry).map SymEntry.key =
        (syms.filterMap MachSymbol.entry).map SymEntry.key := by
    intro rows syms hshows hstab
    induction hshows with
    | nil => rfl
    | @cons row sym rows syms hrow _ ih =>
      obtain ⟨hsym, hsyms⟩ := List.forall_mem_cons.mp hstab
      have ih := ih hsyms
      rw [List.map_filterMap, List.map_filterMap] at ih ⊢
      rw [List.filterMap_cons, List.filterMap_cons, entry_shows hrow hsym, ih]
  have hstab : ∀ sym ∈ syms, sym.type &&& 0xe0 = 0 := fun sym hsym => by
    simpa using (List.mem_filter.mp (hperm.mem_iff.mp hsym)).2
  rw [heq hshows hstab, entries_eq_listed]
  exact (hperm.filterMap _).map _

/-- Without a working nm nothing is loaded from it. -/
theorem symsLoadObjects_none (hno : ∀ cmd, ∀ out ∈ host.popen cmd, out.2 ≠ 0) :
    ∀ {objects : List CStr} {entries : List SymEntry},
      symsLoadObjects host objects entries = none := by
  intro objects
  induction objects with
  | nil => exact rfl
  | cons object objects ih =>
    intro entries
    have hrc : (symsLoadFromNm host entries object).1 = -1 := by
      rw [symsLoadFromNm]
      split
      · rfl
      cases hout : host.popen (nmCommand object) with
      | none => rfl
      | some out => exact if_neg fun h => hno _ out hout h.1
    rw [symsLoadObjects]
    rcases hout : symsLoadFromNm host entries object with ⟨rc, entries'⟩
    rw [hout] at hrc
    dsimp only at hrc ⊢
    rw [hrc]
    exact ih

/-- A listing is loaded. -/
theorem symsLoadFromNm_rows (hpath : (nmCommand path).length < pathMax + 32)
    (hnm : host.popen (nmCommand path) = some (nmText rows, 0)) (hrows : ∀ row ∈ rows, row.Fits)
    (hkept : rows.filterMap NmRow.entry ≠ []) :
    symsLoadFromNm host [] path = (0, rows.filterMap NmRow.entry) := by
  rw [symsLoadFromNm, if_neg (Nat.not_le.mpr hpath), hnm]
  dsimp only
  rw [fgetsLines_nmText hrows, foldl_rows_nm hrows, List.nil_append,
    if_pos ⟨rfl, List.length_pos_of_ne_nil hkept⟩]

/-- Where the names are distinct, the address a name is found with is its address. -/
theorem find?_address_iff {entries : List SymEntry} (h : (entries.map (·.name)).Nodup)
    {name : CStr} {address : Addr} :
    (entries.find? (·.name = name)).map (·.address) = some address ↔
      (address, name) ∈ entries.map SymEntry.key := by
  rw [Option.map_eq_some_iff, List.mem_map]
  constructor
  · rintro ⟨sym, hfind, rfl⟩
    have hname : sym.name = name := by simpa using List.find?_some hfind
    exact ⟨sym, List.mem_of_find?_eq_some hfind, by rw [SymEntry.key, hname]⟩
  · rintro ⟨sym, hsym, hkey⟩
    rw [SymEntry.key, Prod.mk.injEq] at hkey
    have hsome : (entries.find? (·.name = name)).isSome := by
      rw [List.find?_isSome]
      exact ⟨sym, hsym, decide_eq_true hkey.2⟩
    obtain ⟨found, hfound⟩ := Option.isSome_iff_exists.mp hsome
    have hname : found.name = name := by simpa using List.find?_some hfound
    have heq : found = sym :=
      List.inj_on_of_nodup_map h (List.mem_of_find?_eq_some hfound) hsym (hname.trans hkey.2.symm)
    exact ⟨found, hfound, by rw [heq, hkey.1]⟩

/-- Tables with the same symbols find the same addresses. -/
theorem lookupName_address_eq {syms syms' : Syms}
    (hperm : (syms.entries.map SymEntry.key).Perm (syms'.entries.map SymEntry.key))
    (hnodup : (syms'.entries.map (·.name)).Nodup) (name : CStr) :
    (syms.lookupName name).map (·.address) = (syms'.lookupName name).map (·.address) := by
  have hnodup' : (syms.entries.map (·.name)).Nodup := by
    have h := (hperm.map Prod.snd).nodup_iff
    simp only [List.map_map] at h
    exact h.mpr hnodup
  refine Option.ext fun address => ?_
  rw [Syms.lookupName, Syms.lookupName, find?_address_iff hnodup, find?_address_iff hnodup']
  exact hperm.mem_iff

end Agree

/-- Whether nm lists the symbols of an executable or the debugger reads its symbol table itself,
the same symbols are loaded with the same addresses, up to their order, and with the same link
base; so a name that occurs once is found at the same address. -/
theorem symsLoad_agree {img : MachImage} {file : MappedFile} {rows : List NmRow}
    {executablePath : CStr} {host host' : Host}
    (hfile : host.mapFile executablePath = some file) (hsame : host'.mapFile = host.mapFile)
    (himg : img.HeldBy file) (hkept : img.entries ≠ [])
    (hrows : ∀ row ∈ rows, row.Fits) (hlists : Lists rows img)
    (hpath : executablePath.length < pathMax)
    (hnm : host.popen (nmCommand executablePath) = some (nmText rows, 0))
    (hno : ∀ cmd, ∀ out ∈ host'.popen cmd, out.2 ≠ 0) :
    ∃ syms syms', symsLoad host executablePath = some (0, syms) ∧
      symsLoad host' executablePath = some (0, syms') ∧
      syms.linkBase = img.textVmaddr ∧ syms'.linkBase = img.textVmaddr ∧
      (syms.entries.map SymEntry.key).Perm (syms'.entries.map SymEntry.key) ∧
      ((syms'.entries.map (·.name)).Nodup → ∀ name,
        (syms.lookupName name).map (·.address) = (syms'.lookupName name).map (·.address)) := by
  have hperm := perm_of_lists hlists
  have hbase := MappedFile.read_eq (yields_machoTextVmaddr himg)
  have hload := MappedFile.read_eq (yields_symsLoadMacho himg [])
  have hfile' : host'.mapFile executablePath = some file := by rw [hsame, hfile]
  have hkept' : rows.filterMap NmRow.entry ≠ [] := by
    intro hnil
    rw [hnil, List.map_nil] at hperm
    exact hkept (List.map_eq_nil_iff.mp hperm.nil_eq.symm)
  have hcmd : (nmCommand executablePath).length < pathMax + 32 := by
    have hlen := length_nmCommand executablePath
    omega
  have hsyms : img.load [] = (0, img.entries) := by
    have hne : img.symbols ≠ [] := by
      intro hnil
      rw [MachImage.entries, hnil] at hkept
      exact hkept rfl
    rw [MachImage.load, if_neg hne, List.nil_append, if_neg hkept]
  refine ⟨{ entries := rows.filterMap NmRow.entry, linkBase := img.textVmaddr },
    { entries := img.entries, linkBase := img.textVmaddr }, ?_, ?_, rfl, rfl, hperm,
    lookupName_address_eq hperm⟩
  · have hobjects := symsLoadFromNm_rows hcmd hnm hrows hkept'
    simp only [symsLoad, exeLinkBase, hfile, hbase, symsLoadObjects, hobjects, Option.bind_eq_bind,
      Option.bind_some, if_true, Option.pure_def]
  · simp only [symsLoad, exeLinkBase, hfile', hbase, symsLoadObjects_none hno, symsLoadFiles,
      hload, hsyms, Option.bind_eq_bind, Option.bind_some, if_true, Option.pure_def]

def asciiBytes (text : String) : List UInt8 := text.toList.map fun c => UInt8.ofNat c.toNat

/-- An image with the text segment of the small one.  It defines `_main` and `_f`, refers to
`_printf` and has a debugging entry. -/
def linkedImage : MachImage where
  machine := smallImage.machine
  length_machine := smallImage.length_machine
  flags := smallImage.flags
  length_flags := smallImage.length_flags
  commands := smallImage.commands.take 1 ++ [.symtab ⟨128, 4, 192, 20⟩]
  commands_lt := by decide
  sizes_lt := by decide +kernel
  symbols := [⟨1, 0x0f, 1, 0, 0x1020, asciiBytes "_main", by decide⟩,
    ⟨7, 0x0e, 1, 0, 0x1010, asciiBytes "_f", by decide⟩,
    ⟨10, 0x01, 0, 0, 0, asciiBytes "_printf", by decide⟩,
    ⟨18, 0x24, 1, 0, 0x1010, asciiBytes "f", by decide⟩]
  strings := 0 :: (asciiBytes "_main" ++ 0 :: (asciiBytes "_f" ++ 0 :: (asciiBytes "_printf" ++
    0 :: (asciiBytes "f" ++ [0]))))
  named := by decide +kernel

def linkedFile : MappedFile := .ofBytes linkedImage.encode (by decide +kernel)

/-- A host with the image in every file, and with an nm or without one. -/
def linkedHost (nm : Option (List Char × Int)) : Host where
  readable _ := false
  mapFile _ := some linkedFile
  popen _ := nm

/-- What nm lists of the image, in the order of the values. -/
def linkedRows : List NmRow :=
  [{ value := none, letter := 'U', name := "_printf".toList },
    { value := some 0x1010, letter := 't', name := "_f".toList },
    { value := some 0x1020, letter := 'T', name := "_main".toList }]

theorem symsLoad_agree_linkedImage :
    ∃ syms syms', symsLoad (linkedHost (some (nmText linkedRows, 0))) "a.out".toList =
        some (0, syms) ∧
      symsLoad (linkedHost none) "a.out".toList = some (0, syms') ∧
      syms.linkBase = 0x1000 ∧ syms'.linkBase = 0x1000 ∧
      (syms.entries.map SymEntry.key).Perm (syms'.entries.map SymEntry.key) ∧
      ((syms'.entries.map (·.name)).Nodup → ∀ name,
        (syms.lookupName name).map (·.address) = (syms'.lookupName name).map (·.address)) := by
  have hheld : linkedImage.HeldBy linkedFile :=
    MachImage.heldBy_encode ⟨by decide +kernel, by decide⟩ _
  have hlists : Lists linkedRows linkedImage := by
    -- nm turns the order of the symbol table round and leaves the debugging entry out
    refine ⟨linkedImage.listed.reverse, linkedImage.listed.reverse_perm, ?_⟩
    exact .cons ⟨by decide, by decide, by decide⟩ (.cons ⟨by decide, by decide, by decide⟩
      (.cons ⟨by decide, by decide, by decide⟩ .nil))
  have hrows : ∀ row ∈ linkedRows, row.Fits := by
    intro row hrow
    rw [linkedRows, List.mem_cons, List.mem_cons, List.mem_singleton] at hrow
    rcases hrow with rfl | rfl | rfl <;>
      exact ⟨by decide, by decide, by decide, by decide, by simp, by decide, by decide⟩
  refine @symsLoad_agree linkedImage linkedFile linkedRows _ _ _ rfl rfl hheld (by decide +kernel)
    hrows hlists (by decide) rfl ?_
  rintro _ out ⟨⟩

/-! ### Whatever the files hold -/

/-- The symbols that can be in a table. -/
def StoredSyms (entries : List SymEntry) : Prop :=
  ∀ sym ∈ entries, sym.interesting = true ∧ sym.name.length < symMaxName

/-- The return code tells whether there are symbols. -/
structure LoadOutcome (rc : Int) (entries : List SymEntry) : Prop where
  rc : rc = 0 ∧ entries ≠ [] ∨ rc = -1 ∧ entries = []
  stored : StoredSyms entries

section StoredSyms

variable {file : MappedFile} {entries : List SymEntry} {host : Host}

theorem stored_nil : StoredSyms [] := fun _ hsym => absurd hsym List.not_mem_nil

theorem StoredSyms.push {sym : SymEntry} (h : StoredSyms entries) (hsym : sym.interesting = true)
    (hname : sym.name.length < symMaxName) : StoredSyms (entries ++ [sym]) := by
  intro other hother
  rcases List.mem_append.mp hother with hold | hnew
  · exact h other hold
  · rw [List.mem_singleton.mp hnew]
    exact ⟨hsym, hname⟩

theorem StoredSyms.pushSymbol {sym : SymEntry} (h : StoredSyms entries) :
    StoredSyms (pushSymbol entries sym) := by
  rw [Debugger.pushSymbol]
  split
  · rename_i hsym
    refine h.push ?_ (length_snprintf_lt (by decide) sym.name)
    -- only the first character of the name counts, and that is not cut off
    rw [SymEntry.interesting] at hsym ⊢
    cases hname : sym.name with
    | nil =>
      rw [hname] at hsym
      cases hsym
    | cons c cs =>
      rw [hname] at hsym
      exact hsym
  · exact h

theorem StoredSyms.nmLine {line : CStr} (h : StoredSyms entries) :
    StoredSyms (nmLine entries line) := by
  rw [Debugger.nmLine]
  split
  · exact h
  · cases scanSymbol (line.dropWhile isBlank) with
    | none => exact h
    | some sym => exact h.pushSymbol

theorem StoredSyms.symsPush {address : Addr} {type : Char} {name : ℕ} (h : StoredSyms entries) :
    StoredSyms (symsPush file entries address type name).value := by
  have hinteresting := @symsPush_interesting file entries address type name fun sym hsym =>
    (h sym hsym).1
  refine fun sym hsym => ⟨hinteresting sym hsym, ?_⟩
  rw [Debugger.symsPush, value_bind] at hsym
  split at hsym
  · rw [value_bind] at hsym
    rcases List.mem_append.mp hsym with hold | hnew
    · exact (h sym hold).2
    · rw [List.mem_singleton.mp hnew]
      exact length_snprintf_lt (by decide) _
  · exact (h sym hsym).2

theorem StoredSyms.symbolRound {symbols strtab strsize i : ℕ} {entries' : List SymEntry}
    (h : StoredSyms entries)
    (hround : (symbolRound file symbols strtab strsize i entries).value = .inl entries') :
    StoredSyms entries' := by
  rw [Debugger.symbolRound, value_bind, value_ite, value_bind, value_ite] at hround
  split at hround
  · exact Sum.inl.inj hround ▸ h
  split at hround
  · exact Sum.inl.inj hround ▸ h
  · exact Sum.inl.inj hround ▸ h.symsPush

theorem loadSymbols_outcome (symtab : ℕ) :
    LoadOutcome (loadSymbols file [] symtab).value.1 (loadSymbols file [] symtab).value.2 := by
  have hnone : LoadOutcome (-1) [] := ⟨.inr ⟨rfl, rfl⟩, stored_nil⟩
  rw [loadSymbols, value_bind, value_ite]
  split
  · exact hnone
  rw [value_bind, value_ite]
  split
  · exact hnone
  rw [value_bind, value_bind, value_ite]
  split
  · exact hnone
  rw [value_bind]
  generalize (file.symoff symtab).value = symbols, (file.nsyms symtab).value = nsyms
  rcases @value_forLoop (List SymEntry) Empty
      (symbolRound file symbols (file.stroff symtab).value (file.strsize symtab).value) []
      nsyms with ⟨entries', hvalue, hstate⟩ | ⟨-, -, -, r, -⟩
  · rw [hvalue]
    refine ⟨?_, stateAt_inv stored_nil (fun _ _ _ => StoredSyms.symbolRound) hstate⟩
    by_cases hnil : entries' = []
    · exact .inr ⟨if_neg (by rw [hnil]; exact Nat.lt_irrefl 0), hnil⟩
    · exact .inl ⟨if_pos (List.length_pos_of_ne_nil hnil), hnil⟩
  · cases r

theorem symsLoadMacho_outcome :
    LoadOutcome (symsLoadMacho file []).value.1 (symsLoadMacho file []).value.2 := by
  have hnone : LoadOutcome (-1) [] := ⟨.inr ⟨rfl, rfl⟩, stored_nil⟩
  rw [symsLoadMacho, value_bind, value_ite]
  split
  · rw [value_bind]
    cases (findSymtab file).value with
    | none => exact hnone
    | some symtab => exact loadSymbols_outcome symtab
  · exact hnone

theorem MappedFile.read_eq_some {α : Type} {r : Reading α} {a : α} (h : file.read r = some a) :
    r.value = a := by
  rw [read] at h
  split at h
  · exact Option.some.inj h
  · cases h

/-- The symbols of a file that has been read. -/
theorem outcome_of_read {out : Int × List SymEntry}
    (h : file.read (symsLoadMacho file []) = some out) : LoadOutcome out.1 out.2 :=
  MappedFile.read_eq_some h ▸ symsLoadMacho_outcome

theorem symsLoadObjects_outcome {kept : List SymEntry} : ∀ {objects : List CStr}
    {entries : List SymEntry}, StoredSyms entries →
      symsLoadObjects host objects entries = some kept →
    LoadOutcome 0 kept := by
  intro objects
  induction objects with
  | nil =>
    intro entries _ hload
    cases hload
  | cons object objects ih =>
    intro entries h hload
    have hnm : StoredSyms (symsLoadFromNm host entries object).2 ∧
        ((symsLoadFromNm host entries object).1 = 0 →
          (symsLoadFromNm host entries object).2 ≠ []) := by
      rw [symsLoadFromNm]
      split
      · exact ⟨h, fun hrc => by cases hrc⟩
      cases host.popen (nmCommand object) with
      | none => exact ⟨h, fun hrc => by cases hrc⟩
      | some out =>
        have hlines : ∀ {lines : List CStr} {entries : List SymEntry}, StoredSyms entries →
            StoredSyms (lines.foldl nmLine entries) := by
          intro lines
          induction lines with
          | nil => exact fun h => h
          | cons line lines ih => exact fun h => ih h.nmLine
        refine ⟨hlines h, fun hrc hnil => ?_⟩
        dsimp only at hrc hnil
        rw [hnil, if_neg fun hpos => Nat.lt_irrefl 0 hpos.2] at hrc
        exact absurd hrc (by decide)
    rw [symsLoadObjects] at hload
    rcases hout : symsLoadFromNm host entries object with ⟨rc, entries'⟩
    rw [hout] at hload hnm
    dsimp only at hload
    split at hload
    · rename_i hrc
      obtain rfl := Option.some.inj hload
      exact ⟨.inl ⟨rfl, hnm.2 hrc⟩, hnm.1⟩
    · exact ih hnm.1 hload

theorem symsLoadFiles_outcome {path : CStr} {rc : Int} {syms : Syms}
    (h : symsLoadFiles host path = some (rc, syms)) : LoadOutcome rc syms.entries := by
  rw [symsLoadFiles] at h
  cases hexe : host.mapFile path with
  | none =>
    rw [hexe] at h
    obtain ⟨rfl, rfl⟩ := Prod.mk.inj (Option.some.inj h)
    exact ⟨.inr ⟨rfl, rfl⟩, stored_nil⟩
  | some exe =>
    rw [hexe] at h
    simp only [Option.bind_eq_bind, Option.bind_eq_some_iff] at h
    obtain ⟨linkBase, -, out, hread, h⟩ := h
    have hout := outcome_of_read hread
    split at h
    · rename_i hrc
      obtain ⟨rfl, rfl⟩ := Prod.mk.inj (Option.some.inj h)
      rwa [hrc] at hout
    rename_i hrc
    have hempty := (hout.rc.resolve_left fun hok => hrc hok.1).2
    cases hdwarf : (dsymObjectPath host path).bind host.mapFile with
    | none =>
      rw [hdwarf] at h
      obtain ⟨rfl, rfl⟩ := Prod.mk.inj (Option.some.inj h)
      exact hout
    | some dwarf =>
      rw [hdwarf, hempty] at h
      simp only [symsLoadDsym, Option.bind_eq_bind, Option.bind_eq_some_iff] at h
      obtain ⟨linkBase', -, out', hread', h⟩ := h
      obtain ⟨rfl, rfl⟩ := Prod.mk.inj (Option.some.inj h)
      exact outcome_of_read hread'

end StoredSyms

/-- Whatever nm prints and whatever the files hold, the return code tells whether there are
symbols, and a symbol has a name that is worth keeping and fits its buffer. -/
theorem symsLoad_outcome {host : Host} {executablePath : CStr} {rc : Int} {syms : Syms}
    (h : symsLoad host executablePath = some (rc, syms)) : LoadOutcome rc syms.entries := by
  rw [symsLoad] at h
  simp only [Option.bind_eq_bind, Option.bind_eq_some_iff] at h
  obtain ⟨linkBase, -, h⟩ := h
  cases hobjects : symsLoadObjects host
      (executablePath :: (dsymObjectPath host executablePath).toList) [] with
  | some kept =>
    rw [hobjects] at h
    obtain ⟨rfl, rfl⟩ := Prod.mk.inj (Option.some.inj h)
    exact symsLoadObjects_outcome stored_nil hobjects
  | none =>
    rw [hobjects] at h
    exact symsLoadFiles_outcome h

/-- A host on which nothing can be mapped and nm prints the header of a slice. -/
def slicedHost : Host where
  readable _ := false
  mapFile _ := none
  popen _ := some ("/bin/f (for architecture arm64):\n".toList, 0)

/-- The header is taken for a symbol. -/
theorem symsLoad_outcome_slicedHost :
    LoadOutcome 0 [{ address := 0, type := '/', name := "bin/f".toList }] :=
  @symsLoad_outcome slicedHost "/bin/f".toList 0
    { entries := [{ address := 0, type := '/', name := "bin/f".toList }] } (by decide +kernel)

end Debugger
