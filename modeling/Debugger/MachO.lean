/-
The Mach-O reader of the debugger: `macho_text_vmaddr` and `macho_find_section` in `lineno.c`,
`syms_load_macho` in `syms.c`.

Offsets are those from the start of the mapped file.  The numbers they are computed from have 32
bits and the file is smaller than an `off_t`, so that no sum wraps in a `size_t`.
-/
import Debugger.Lineno
import Debugger.Lib.Reading

open Prog Reading

namespace Debugger

/-! ### The file -/

/-- `mapped_file_t`: the bytes from the start of the file on, the first `size` of which are the
file. -/
structure MappedFile where
  data : ℕ → UInt8
  size : ℕ
  /-- `st_size` is an `off_t`. -/
  size_lt : size < 2 ^ 63

/-- `sizeof(struct mach_header_64)` and of the other structures of the format. -/
def sizeofMachHeader64 : ℕ := 32
def sizeofLoadCommand : ℕ := 8
def sizeofSegmentCommand64 : ℕ := 72
def sizeofSection64 : ℕ := 80
def sizeofNlist64 : ℕ := 16

/-- `MH_MAGIC_64` and the load commands that are looked for. -/
def mhMagic64 : ℕ := 0xfeedfacf
def lcSymtab : ℕ := 0x2
def lcSegment64 : ℕ := 0x19

namespace MappedFile

variable (file : MappedFile)

def magic : Reading ℕ := word file.data 0 4
def ncmds : Reading ℕ := word file.data 16 4

/-- `lc->cmd`, and so on for the fields of the other structures. -/
def cmd (lc : ℕ) : Reading ℕ := word file.data lc 4
def cmdsize (lc : ℕ) : Reading ℕ := word file.data (lc + 4) 4

def vmaddr (seg : ℕ) : Reading ℕ := word file.data (seg + 24) 8
def nsects (seg : ℕ) : Reading ℕ := word file.data (seg + 64) 4

def sectSize (sec : ℕ) : Reading ℕ := word file.data (sec + 40) 8
def sectOffset (sec : ℕ) : Reading ℕ := word file.data (sec + 48) 4

def symoff (symtab : ℕ) : Reading ℕ := word file.data (symtab + 8) 4
def nsyms (symtab : ℕ) : Reading ℕ := word file.data (symtab + 12) 4
def stroff (symtab : ℕ) : Reading ℕ := word file.data (symtab + 16) 4
def strsize (symtab : ℕ) : Reading ℕ := word file.data (symtab + 20) 4

def nStrx (sym : ℕ) : Reading ℕ := word file.data sym 4
def nType (sym : ℕ) : Reading UInt8 := byte file.data (sym + 4)
def nValue (sym : ℕ) : Reading ℕ := word file.data (sym + 8) 8

end MappedFile

/-! ### The load commands -/

section Commands

variable {S R : Type} (file : MappedFile)

/-- The checks of the three functions at their start. -/
def isMachO : Reading Bool := do
  if file.size < sizeofMachHeader64 then return false
  else return (← file.magic) = mhMagic64

/-- A round of their loop over the load commands: `body` looks at a command and may leave the
loop, `stop` is the result where the next command is not in the file. -/
def commandRound (body : S → ℕ → ℕ → Reading (S ⊕ R)) (stop : S → R) (_i : ℕ) (p : ℕ × S) :
    Reading ((ℕ × S) ⊕ R) := do
  if p.1 + sizeofLoadCommand > file.size then return .inr (stop p.2)
  else
    let cmd ← file.cmd p.1
    match ← body p.2 cmd p.1 with
    | .inl s =>
      let cmdsize ← file.cmdsize p.1
      return .inl (p.1 + cmdsize, s)
    | .inr r => return .inr r

/-- The loop over the load commands. -/
def walkCommands (body : S → ℕ → ℕ → Reading (S ⊕ R)) (stop : S → R) (s : S) : Reading R := do
  let ncmds ← file.ncmds
  match ← forLoop (commandRound file body stop) ncmds 0 (sizeofMachHeader64, s) with
  | .inl p => return stop p.2
  | .inr r => return r

end Commands

section Segments

variable (file : MappedFile)

/-- `"__TEXT"` -/
def textName : List UInt8 := [0x5f, 0x5f, 0x54, 0x45, 0x58, 0x54]

/-- `strcmp(seg->segname, "__TEXT") == 0`, which is decided by the NUL of the string at last. -/
def isTextName (seg : ℕ) : Reading Bool := strncmpEq file.data 7 (seg + 8) textName

/-- The body of the loop of `macho_text_vmaddr`. -/
def textCommand (_ : Unit) (cmd seg : ℕ) : Reading (Unit ⊕ UInt64) := do
  if cmd = lcSegment64 then
    if ← isTextName file seg then
      let vmaddr ← file.vmaddr seg
      return .inr (UInt64.ofNat vmaddr)
    else return .inl ()
  else return .inl ()

/-- `macho_text_vmaddr` -/
def machoTextVmaddr : Reading UInt64 := do
  if ← isMachO file then walkCommands file (textCommand file) (fun _ => 0) ()
  else return 0

/-- `sect_name_eq` -/
def sectNameEq (a : ℕ) (b : List UInt8) : Reading Bool := strncmpEq file.data 16 a b

variable (segname sectname : List UInt8)

/-- A round of the loop over the sections of a segment, `sec` being the first one; the section
that is found, its offset and its size. -/
def sectionRound (sec j : ℕ) (_ : Unit) : Reading (Unit ⊕ UInt32 × UInt32) := do
  if ← sectNameEq file (sec + sizeofSection64 * j + 16) segname then
    if ← sectNameEq file (sec + sizeofSection64 * j) sectname then
      let offset ← file.sectOffset (sec + sizeofSection64 * j)
      let size ← file.sectSize (sec + sizeofSection64 * j)
      return .inr (UInt32.ofNat offset, UInt32.ofNat size)
    else return .inl ()
  else return .inl ()

/-- The body of the loop of `macho_find_section`. -/
def segmentCommand (_ : Unit) (cmd seg : ℕ) : Reading (Unit ⊕ Option (UInt32 × UInt32)) := do
  if cmd = lcSegment64 then
    let nsects ← file.nsects seg
    match ← forLoop (sectionRound file segname sectname (seg + sizeofSegmentCommand64))
        nsects 0 () with
    | .inl _ => return .inl ()
    | .inr found => return .inr (some found)
  else return .inl ()

/-- `macho_find_section`; `none` is `false`. -/
def machoFindSection : Reading (Option (UInt32 × UInt32)) := do
  if ← isMachO file then
    walkCommands file (segmentCommand file segname sectname) (fun _ => none) ()
  else return none

end Segments

/-! ### The symbols -/

/-- `nlist_type_char` -/
def nlistTypeChar (type : UInt8) : Char :=
  let base := type &&& 0x0e
  if base = 0x0 then if type &&& 0x01 ≠ 0 then 'U' else 'u'
  else if base = 0x2 then if type &&& 0x01 ≠ 0 then 'A' else 'a'
  else if base = 0xe then if type &&& 0x01 ≠ 0 then 'T' else 't'
  else if base = 0xc then 'Z'
  else if base = 0xa then 'I'
  else '?'

section Symbols

variable (file : MappedFile)

/-- `sym_name_interesting`, of a name at an offset; in the C locale a byte from blank to tilde is
printed. -/
def symNameInteresting (name : ℕ) (type : Char) : Reading Bool := do
  let c ← byte file.data name
  if c = 0 then return false
  else if type = '?' ∨ type = '-' then return false
  else if c = 0x2e ∨ c = 0x4c then return false
  else return 0x20 ≤ c ∧ c ≤ 0x7e

/-- `syms_push`; the name is copied up to its NUL. -/
def symsPush (entries : List SymEntry) (address : Addr) (type : Char) (name : ℕ) :
    Reading (List SymEntry) := do
  if ← symNameInteresting file name type then
    let text ← cstr file.data (2 ^ 64) name
    let name := snprintf symMaxName (text.map fun b => Char.ofNat b.toNat)
    return entries ++ [{ address := address, type := type, name := name }]
  else return entries

/-- A round of the loop over the symbols, the first of which is at `symbols`. -/
def symbolRound (symbols strtab strsize i : ℕ) (entries : List SymEntry) :
    Reading (List SymEntry ⊕ Empty) := do
  let type ← file.nType (symbols + sizeofNlist64 * i)
  -- `N_STAB`
  if type &&& 0xe0 ≠ 0 then return .inl entries
  else
    let strx ← file.nStrx (symbols + sizeofNlist64 * i)
    if strx ≥ strsize then return .inl entries
    else
      let address ← file.nValue (symbols + sizeofNlist64 * i)
      let entries ←
        symsPush file entries (UInt64.ofNat address) (nlistTypeChar type) (strtab + strx)
      return .inl entries

/-- The body of the first loop of `syms_load_macho`. -/
def symtabCommand (symtab : Option ℕ) (cmd lc : ℕ) : Reading (Option ℕ ⊕ Option ℕ) :=
  return .inl (if cmd = lcSymtab then some lc else symtab)

/-- The `LC_SYMTAB` command that this loop leaves behind. -/
def findSymtab : Reading (Option ℕ) := walkCommands file symtabCommand id none

/-- The checks and the loop behind it. -/
def loadSymbols (entries : List SymEntry) (symtab : ℕ) : Reading (Int × List SymEntry) := do
  let nsyms ← file.nsyms symtab
  if nsyms = 0 then return (-1, entries)
  else
    let symoff ← file.symoff symtab
    if symoff + nsyms * sizeofNlist64 > file.size then return (-1, entries)
    else
      let stroff ← file.stroff symtab
      let strsize ← file.strsize symtab
      if stroff + strsize > file.size then return (-1, entries)
      else
        match ← forLoop (symbolRound file symoff stroff strsize) nsyms 0 entries with
        | .inl entries => return (if entries.length > 0 then 0 else -1, entries)
        | .inr r => nomatch r

/-- `syms_load_macho`: the return code and the symbols. -/
def symsLoadMacho (entries : List SymEntry) : Reading (Int × List SymEntry) := do
  if ← isMachO file then
    match ← findSymtab file with
    | none => return (-1, entries)
    | some symtab => loadSymbols file entries symtab
  else return (-1, entries)

end Symbols

end Debugger
