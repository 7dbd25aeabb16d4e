/-
The line-number table and its lookups (`lineno.c`).

A table is the list of its rows in loading order; link addresses become runtime
addresses by adding the slide modulo 2^64.  The scans keep the source's order of
tests: every one of them is a left fold over the rows.
-/
import Debugger.CStdlib

namespace Debugger

/-- `uintptr_t`. -/
abbrev Addr := UInt64

/-- `CDBG_LINENO_MAX_FILE` -/
def maxFile : ℕ := 512

/-- `cdbg_line_entry_t` -/
structure LineEntry where
  address : Addr
  line : UInt32
  column : UInt32
  file : CStr
deriving DecidableEq, Repr

/-- `cdbg_lineno_t`, without the directories used to open source files. -/
structure Lineno where
  entries : List LineEntry := []
  linkBase : Addr := 0
  slide : Addr := 0
deriving DecidableEq, Repr

namespace Lineno

/-- `cdbg_lineno_runtime_addr` -/
def runtimeAddr (ln : Lineno) (linkAddr : Addr) : Addr := linkAddr + ln.slide

/-- `cdbg_lineno_lookup_pc` -/
def lookupPc (ln : Lineno) (runtimePc : Addr) : Option LineEntry :=
  ln.entries.foldl (fun best entry =>
    let addr := ln.runtimeAddr entry.address
    if addr ≤ runtimePc then
      match best with
      | none => some entry
      | some b => if addr > ln.runtimeAddr b.address then some entry else best
    else best) none

/-- `file_matches` -/
def fileMatches (entryFile : CStr) (filter : Option CStr) : Bool :=
  match filter with
  | none => true
  | some [] => true
  | some filter =>
    let base := match strrchr '/' entryFile with
      | some (_, after) => after
      | none => entryFile
    strstr entryFile filter || base = filter

/-- `cdbg_lineno_lookup_line` -/
def lookupLine (ln : Lineno) (fileFilter : Option CStr) (line : UInt32) : Option LineEntry :=
  ln.entries.foldl (fun found entry =>
    if entry.line ≠ line then found
    else if !fileMatches entry.file fileFilter then found
    else
      match found with
      | none => some entry
      | some m => if entry.address < m.address then some entry else found) none

/-- The scan of `cdbg_lineno_lookup_line_unique`, from the row found so far together
with the file of the first row of that line; it stops at a second file. -/
def lookupLineUniqueFrom (line : UInt32) : Option (CStr × LineEntry) → List LineEntry →
    Option LineEntry
  | found, [] => found.map (·.2)
  | found, entry :: rest =>
    if entry.line ≠ line then lookupLineUniqueFrom line found rest
    else
      match found with
      | none => lookupLineUniqueFrom line (some (entry.file, entry)) rest
      | some (onlyFile, m) =>
        if onlyFile ≠ entry.file then none
        else if entry.address < m.address then
          lookupLineUniqueFrom line (some (onlyFile, entry)) rest
        else lookupLineUniqueFrom line found rest

/-- `cdbg_lineno_lookup_line_unique` -/
def lookupLineUnique (ln : Lineno) (line : UInt32) : Option LineEntry :=
  lookupLineUniqueFrom line none ln.entries

/-- `lineno_entry_at_pc`: the row found for the pc answers for at most 128 bytes, and
not beyond the next row. -/
def entryAtPc (ln : Lineno) (runtimePc : Addr) : Option LineEntry :=
  match ln.lookupPc runtimePc with
  | none => none
  | some entry =>
    if entry.line = 0 then none
    else
      let entryRuntime := ln.runtimeAddr entry.address
      let maxPc := ln.entries.foldl (fun maxPc e =>
        let addr := ln.runtimeAddr e.address
        if addr > entryRuntime ∧ addr < maxPc then addr - 1 else maxPc) (entryRuntime + 128)
      if runtimePc > maxPc then none else some entry

/-- `cdbg_lineno_line_at_pc`: file and line. -/
def lineAtPc (ln : Lineno) (runtimePc : Addr) : Option (CStr × UInt32) :=
  (ln.entryAtPc runtimePc).map fun entry => (snprintf maxFile entry.file, entry.line)

/-- `cdbg_lineno_lookup_next_line_after_pc` -/
def lookupNextLineAfterPc (ln : Lineno) (runtimePc : Addr) : Option LineEntry :=
  match ln.lookupPc runtimePc with
  | none => none
  | some current =>
    ln.entries.foldl (fun next entry =>
      if ln.runtimeAddr entry.address ≤ runtimePc then next
      else if entry.file ≠ current.file ∨ entry.line = current.line then next
      else
        match next with
        | none => some entry
        | some n => if entry.address < n.address then some entry else next) none

end Lineno

/-! ### Symbols (`syms.c`) -/

/-- `CDBG_SYM_MAX_NAME` -/
def symMaxName : ℕ := 256

/-- `cdbg_sym_entry_t` -/
structure SymEntry where
  address : Addr
  type : Char
  name : CStr
deriving DecidableEq, Repr

/-- A symbol without a place in the image (`address == 0`, type `U` or `u`). -/
def SymEntry.undefined (sym : SymEntry) : Bool :=
  sym.address = 0 || sym.type = 'U' || sym.type = 'u'

/-- `cdbg_syms_t` -/
structure Syms where
  entries : List SymEntry := []
  linkBase : Addr := 0
  slide : Addr := 0
deriving DecidableEq, Repr

namespace Syms

/-- `cdbg_syms_runtime_addr` -/
def runtimeAddr (syms : Syms) (linkAddr : Addr) : Addr := linkAddr + syms.slide

/-- `cdbg_syms_lookup_name`: names are looked up with one leading underscore. -/
def lookupName (syms : Syms) (name : CStr) : Option SymEntry :=
  let lookup := if name.head? ≠ some '_' then snprintf symMaxName ('_' :: name) else name
  syms.entries.find? (·.name = lookup)

end Syms

end Debugger
