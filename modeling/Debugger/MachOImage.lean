/-
Mach-O images and what the reader makes of them.

`MachImage` is the part of a 64-bit Mach-O file that `lineno.c` and `syms.c` look at: the load
commands with their segments and sections, the symbol table and its strings.  A file holds an image
when the structures lie where the format puts them (`MachImage.HeldBy`); `MachImage.encode` lays a
file out like that.

What is read of a file that holds an image is what the image says, and no byte outside the file is
looked at (`macho_round_trip`): the address of the first text segment, the first section of a
name, and the symbols that are no debugging entries and whose names are worth keeping.
-/
import Debugger.Lib.Placed
import Debugger.SymNames

open Prog Reading

namespace Debugger

/-! ### Images -/

/-- The name of a segment or of a section. -/
structure MachName where
  text : List UInt8
  length_le : text.length ≤ 16
  noNul : 0 ∉ text

def MachName.encode (name : MachName) : List UInt8 := nameField 16 name.text

/-- `struct section_64` -/
structure MachSection where
  sectname : MachName
  segname : MachName
  addr : UInt64
  size : UInt64
  offset : UInt32
  /-- `align` and the fields behind it -/
  rest : List UInt8
  length_rest : rest.length = 28

def MachSection.encode (s : MachSection) : List UInt8 :=
  s.sectname.encode ++ (s.segname.encode ++ (leBytes 8 s.addr.toNat ++ (leBytes 8 s.size.toNat ++
    (leBytes 4 s.offset.toNat ++ s.rest))))

/-- `struct segment_command_64` with its sections, without `cmd` and `cmdsize`. -/
structure MachSegment where
  segname : MachName
  vmaddr : UInt64
  /-- `vmsize`, `fileoff`, `filesize`, `maxprot` and `initprot` -/
  extent : List UInt8
  length_extent : extent.length = 32
  flags : UInt32
  sections : List MachSection

def MachSegment.encode (seg : MachSegment) : List UInt8 :=
  seg.segname.encode ++ (leBytes 8 seg.vmaddr.toNat ++ (seg.extent ++
    (leBytes 4 seg.sections.length ++ (leBytes 4 seg.flags.toNat ++
      seg.sections.flatMap MachSection.encode))))

/-- `struct symtab_command`, without `cmd` and `cmdsize`. -/
structure MachSymtab where
  symoff : UInt32
  nsyms : UInt32
  stroff : UInt32
  strsize : UInt32

def MachSymtab.encode (t : MachSymtab) : List UInt8 :=
  leBytes 4 t.symoff.toNat ++ (leBytes 4 t.nsyms.toNat ++ (leBytes 4 t.stroff.toNat ++
    leBytes 4 t.strsize.toNat))

/-- A load command. -/
inductive MachCommand
  | segment (seg : MachSegment)
  | symtab (t : MachSymtab)
  | other (cmd : UInt32) (payload : List UInt8)
      (hcmd : cmd.toNat ≠ lcSymtab ∧ cmd.toNat ≠ lcSegment64)

namespace MachCommand

def cmd : MachCommand → ℕ
  | segment _ => lcSegment64
  | symtab _ => lcSymtab
  | other cmd _ _ => cmd.toNat

/-- What lies behind `cmd` and `cmdsize`. -/
def payload : MachCommand → List UInt8
  | segment seg => seg.encode
  | symtab t => t.encode
  | other _ payload _ => payload

def cmdsize (c : MachCommand) : ℕ := sizeofLoadCommand + c.payload.length

def encode (c : MachCommand) : List UInt8 :=
  leBytes 4 c.cmd ++ (leBytes 4 c.cmdsize ++ c.payload)

def segment? : MachCommand → Option MachSegment
  | segment seg => some seg
  | _ => none

def symtab? : MachCommand → Option MachSymtab
  | symtab t => some t
  | _ => none

theorem length_encode (c : MachCommand) : c.encode.length = c.cmdsize := by
  rw [encode, List.length_append, List.length_append, length_leBytes, length_leBytes, cmdsize,
    sizeofLoadCommand]
  omega

end MachCommand

/-- `struct nlist_64`, with the name that `n_strx` stands for. -/
structure MachSymbol where
  strx : UInt32
  type : UInt8
  sect : UInt8
  desc : UInt16
  value : UInt64
  name : List UInt8
  noNul : 0 ∉ name

def MachSymbol.encode (sym : MachSymbol) : List UInt8 :=
  leBytes 4 sym.strx.toNat ++ (sym.type :: sym.sect :: (leBytes 2 sym.desc.toNat ++
    leBytes 8 sym.value.toNat))

/-- The image: the header's fields in front of and behind `ncmds`, the load commands, the symbols
and their strings. -/
structure MachImage where
  machine : List UInt8
  length_machine : machine.length = 12
  flags : List UInt8
  length_flags : flags.length = 12
  commands : List MachCommand
  commands_lt : commands.length < 2 ^ 32
  sizes_lt : ∀ c ∈ commands, c.cmdsize < 2 ^ 32
  symbols : List MachSymbol
  strings : List UInt8
  /-- A symbol's name lies in the strings. -/
  named : ∀ sym ∈ symbols, sym.strx.toNat < strings.length →
    sym.name ++ [0] <+: strings.drop sym.strx.toNat

namespace MachImage

variable (img : MachImage)

def header : List UInt8 :=
  leBytes 4 mhMagic64 ++ (img.machine ++ (leBytes 4 img.commands.length ++ img.flags))

/-- The symbol table command that counts is the last one. -/
def symtab? : Option MachSymtab := (img.commands.filterMap MachCommand.symtab?).getLast?

/-- The symbols and the strings lie where the symbol table command says, and are as many. -/
structure SymbolsAt (file : MappedFile) (t : MachSymtab) : Prop where
  nsyms : t.nsyms.toNat = img.symbols.length
  strsize : t.strsize.toNat = img.strings.length
  symbols : Placed file.data file.size t.symoff.toNat (img.symbols.flatMap MachSymbol.encode)
  strings : Placed file.data file.size t.stroff.toNat img.strings
  symbols_le : t.symoff.toNat + img.symbols.length * sizeofNlist64 ≤ file.size
  strings_le : t.stroff.toNat + img.strings.length ≤ file.size

/-- The file holds the image. -/
structure HeldBy (file : MappedFile) : Prop where
  header : Placed file.data file.size 0 img.header
  commands : Placed file.data file.size sizeofMachHeader64 (img.commands.flatMap MachCommand.encode)
  symbols : ∀ t ∈ img.symtab?, img.SymbolsAt file t
  unlisted : img.symtab? = none → img.symbols = []

/-! ### What the image says -/

/-- The address of the first text segment. -/
def textVmaddr : UInt64 :=
  (img.commands.findSome? fun c =>
    (c.segment?.filter (·.segname.text = textName)).map (·.vmaddr)).getD 0

/-- The first section of the given names; of a name 16 characters count. -/
def section? (segname sectname : List UInt8) : Option MachSection :=
  img.commands.findSome? fun c => c.segment?.bind fun seg => seg.sections.find? fun s =>
    s.segname.text = segname.take 16 ∧ s.sectname.text = sectname.take 16

end MachImage

/-- What is kept of a symbol. -/
def MachSymbol.entry (sym : MachSymbol) : Option SymEntry :=
  let text := sym.name.map fun b => Char.ofNat b.toNat
  if sym.type &&& 0xe0 = 0 ∧
      SymEntry.interesting ⟨sym.value, nlistTypeChar sym.type, text⟩ = true then
    some { address := sym.value, type := nlistTypeChar sym.type, name := snprintf symMaxName text }
  else none

/-- The symbols of an image that are kept, in order. -/
def MachImage.entries (img : MachImage) : List SymEntry :=
  (img.symbols.filter (·.strx.toNat < img.strings.length)).filterMap MachSymbol.entry

/-! ### The load commands -/

section Commands

variable {S T R : Type} {img : MachImage} {file : MappedFile} {body : S → ℕ → ℕ → Reading (S ⊕ R)}
  {stop : S → R} {look : T → MachCommand → T ⊕ R} {rel : S → T → Prop}

theorem MachImage.length_header (img : MachImage) : img.header.length = sizeofMachHeader64 := by
  simp only [MachImage.header, List.length_append, length_leBytes, img.length_machine,
    img.length_flags]
  rfl

theorem yields_isMachO (h : img.HeldBy file) : (isMachO file).Yields file.size true := by
  have hheader := h.header
  have hne : img.header ≠ [] :=
    List.ne_nil_of_length_pos (by rw [img.length_header]; decide)
  have hsize := hheader.length_le hne
  rw [img.length_header] at hsize
  rw [MachImage.header, placed_append] at hheader
  refine .ite (fun hlt => absurd hlt (by omega)) fun _ => ?_
  exact (hheader.1.word (by decide) (by decide)).bind ((yields_pure _).congr (by decide))

theorem yields_ncmds (h : img.HeldBy file) :
    file.ncmds.Yields file.size img.commands.length := by
  have hheader := h.header
  rw [MachImage.header, placed_append, placed_append, placed_append, length_leBytes,
    img.length_machine] at hheader
  exact hheader.2.2.1.word (by decide) img.commands_lt

/-- The fields of a placed command. -/
theorem placed_command {c : MachCommand} {p : ℕ} (h : Placed file.data file.size p c.encode)
    (hsize : c.cmdsize < 2 ^ 32) :
    (file.cmd p).Yields file.size c.cmd ∧ (file.cmdsize p).Yields file.size c.cmdsize ∧
      Placed file.data file.size (p + sizeofLoadCommand) c.payload := by
  rw [MachCommand.encode, placed_append, placed_append, length_leBytes, length_leBytes,
    Nat.add_assoc] at h
  have hcmd : c.cmd < 256 ^ 4 := by
    cases c with
    | segment seg => exact (by decide : lcSegment64 < 256 ^ 4)
    | symtab t => exact (by decide : lcSymtab < 256 ^ 4)
    | other cmd payload hcmd => exact cmd.toNat_lt
  exact ⟨h.1.word (by decide) hcmd, h.2.1.word (by decide) hsize, h.2.2⟩

/-- The loop over the load commands does with the state what `look` does with the commands. -/
theorem yields_walkCommands (h : img.HeldBy file) {s : S} {t : T} (hrel : rel s t)
    (hbody : ∀ c ∈ img.commands, ∀ p s t, Placed file.data file.size (p + sizeofLoadCommand)
      c.payload → rel s t → Sum.elim
        (fun t' => ∃ s', (body s c.cmd p).Yields file.size (.inl s') ∧ rel s' t')
        (fun r => (body s c.cmd p).Yields file.size (.inr r)) (look t c)) :
    Sum.elim
      (fun t' => ∃ s', (walkCommands file body stop s).Yields file.size (stop s') ∧ rel s' t')
      (fun r => (walkCommands file body stop s).Yields file.size r)
      (foldUntil look t img.commands) := by
  -- the cursor stands at the commands that are left
  have hloop := @yields_forLoop _ _ _ _ file.size (commandRound file body stop) look
    (fun i q t =>
      Placed file.data file.size q.1 ((img.commands.drop i).flatMap MachCommand.encode) ∧
        rel q.2 t) img.commands 0 (sizeofMachHeader64, s) t ?_ ⟨h.commands, hrel⟩
  · cases hfold : foldUntil look t img.commands with
    | inl t' =>
      rw [hfold] at hloop
      obtain ⟨q, hq, -, hrel'⟩ := hloop
      exact ⟨q.2, (yields_ncmds h).bind (hq.bind (yields_pure _)), hrel'⟩
    | inr r =>
      rw [hfold] at hloop
      exact (yields_ncmds h).bind (Yields.bind hloop (yields_pure _))
  · rintro j c ⟨p, s⟩ t hc ⟨hplaced, hrel⟩
    have hmem : c ∈ img.commands := List.mem_of_getElem? hc
    rw [Nat.zero_add] at hplaced ⊢
    obtain ⟨hj, rfl⟩ := List.getElem?_eq_some_iff.mp hc
    rw [List.drop_eq_getElem_cons hj, List.flatMap_cons, placed_append,
      MachCommand.length_encode] at hplaced
    obtain ⟨hcmd, hcmdsize, hpayload⟩ := placed_command hplaced.1 (img.sizes_lt _ hmem)
    have hle := hplaced.1.length_le (List.ne_nil_of_length_pos (by
      rw [MachCommand.length_encode, MachCommand.cmdsize, sizeofLoadCommand]; omega))
    rw [MachCommand.length_encode, MachCommand.cmdsize] at hle
    have hlook := hbody _ hmem p s t hpayload hrel
    have hfits : ¬ p + sizeofLoadCommand > file.size := by omega
    cases hstep : look t img.commands[j] with
    | inl t' =>
      rw [hstep] at hlook
      obtain ⟨s', hs', hrel'⟩ := hlook
      refine ⟨(p + img.commands[j].cmdsize, s'), ?_, hplaced.2, hrel'⟩
      exact .ite (fun hgt => absurd hgt hfits) fun _ =>
        hcmd.bind (hs'.bind (hcmdsize.bind (yields_pure _)))
    | inr r =>
      rw [hstep] at hlook
      exact .ite (fun hgt => absurd hgt hfits) fun _ =>
        hcmd.bind (Yields.bind hlook (yields_pure _))

end Commands

/-! ### Segments and sections -/

section Segments

variable {img : MachImage} {file : MappedFile} {seg : MachSegment} {p : ℕ}

/-- The fields of a placed segment, whose `cmd` is at `p`. -/
theorem placed_segment (h : Placed file.data file.size (p + sizeofLoadCommand) seg.encode)
    (hsections : seg.sections.length < 2 ^ 32) :
    Placed file.data file.size (p + 8) seg.segname.encode ∧
      (file.vmaddr p).Yields file.size seg.vmaddr.toNat ∧
      (file.nsects p).Yields file.size seg.sections.length ∧
      Placed file.data file.size (p + sizeofSegmentCommand64)
        (seg.sections.flatMap MachSection.encode) := by
  have hname : seg.segname.encode.length = 16 := length_nameField seg.segname.length_le
  rw [MachSegment.encode] at h
  simp only [placed_append, length_leBytes, hname, seg.length_extent, sizeofLoadCommand,
    Nat.add_assoc, Nat.reduceAdd] at h
  obtain ⟨hsegname, hvmaddr, -, hnsects, -, hrest⟩ := h
  exact ⟨hsegname, hvmaddr.word (by decide) seg.vmaddr.toNat_lt,
    hnsects.word (by decide) hsections, hrest⟩

theorem length_encode_section (s : MachSection) : s.encode.length = sizeofSection64 := by
  simp only [MachSection.encode, MachName.encode, List.length_append, length_leBytes,
    length_nameField s.sectname.length_le, length_nameField s.segname.length_le, s.length_rest]
  rfl

/-- The sections of a segment whose command has a size are counted with 32 bits. -/
theorem sections_lt (hsize : (MachCommand.segment seg).cmdsize < 2 ^ 32) :
    seg.sections.length < 2 ^ 32 := by
  have hlen := @length_table _ MachSection.encode sizeofSection64 seg.sections
    fun s _ => length_encode_section s
  simp only [MachCommand.cmdsize, MachCommand.payload, MachSegment.encode, List.length_append, hlen,
    sizeofSection64] at hsize
  omega

theorem yields_isTextName (h : Placed file.data file.size (p + 8) seg.segname.encode) :
    (isTextName file p).Yields file.size (decide (seg.segname.text = textName)) := by
  refine (h.strncmpEq seg.segname.length_le seg.segname.noNul (by decide) (by decide)).congr ?_
  refine decide_eq_decide.mpr ⟨fun htake => ?_, fun heq => by rw [heq]⟩
  -- the name ends where its first seven characters do
  have hlen : (seg.segname.text.take 7).length = 6 := by rw [htake]; rfl
  rw [List.length_take] at hlen
  have hshort : seg.segname.text.length ≤ 7 := by omega
  rwa [List.take_of_length_le hshort] at htake

/-- A loop over the load commands without a state ends at the first command with a result. -/
theorem yields_walkCommands_find {R : Type} {body : Unit → ℕ → ℕ → Reading (Unit ⊕ R)}
    {stop : Unit → R} {f : MachCommand → Option R} (h : img.HeldBy file)
    (hbody : ∀ c ∈ img.commands, ∀ p, Placed file.data file.size (p + sizeofLoadCommand)
      c.payload → (body () c.cmd p).Yields file.size ((f c).elim (.inl ()) .inr)) :
    (walkCommands file body stop ()).Yields file.size
      ((img.commands.findSome? f).getD (stop ())) := by
  have hwalk := @yields_walkCommands _ _ _ img file body stop
    (fun _ c => (f c).elim (.inl ()) .inr) (fun _ _ => True) h () () trivial ?_
  · rw [foldUntil_findSome] at hwalk
    cases hfind : img.commands.findSome? f with
    | none =>
      rw [hfind] at hwalk
      obtain ⟨s', hs', -⟩ := hwalk
      exact hs'
    | some r =>
      rw [hfind] at hwalk
      exact hwalk
  · intro c hc p s t hplaced _
    have hyields := hbody c hc p hplaced
    cases hf : f c with
    | none =>
      rw [hf] at hyields
      exact ⟨(), hyields, trivial⟩
    | some r =>
      rw [hf] at hyields
      exact hyields

/-- `macho_text_vmaddr` finds the first text segment. -/
theorem yields_machoTextVmaddr (h : img.HeldBy file) :
    (machoTextVmaddr file).Yields file.size img.textVmaddr := by
  refine (yields_isMachO h).bind (.ite (fun _ => ?_) fun hno => absurd rfl hno)
  refine yields_walkCommands_find h fun c hc p hplaced => ?_
  cases c with
  | segment seg =>
    obtain ⟨hname, hvmaddr, -, -⟩ :=
      placed_segment hplaced (sections_lt (img.sizes_lt _ hc))
    refine .ite (fun _ => (yields_isTextName hname).bind (.ite (fun htext => ?_) fun htext => ?_))
      fun hno => absurd rfl hno
    · refine hvmaddr.bind ((yields_pure _).congr ?_)
      simp [MachCommand.segment?, Option.filter_some, of_decide_eq_true htext]
    · refine (yields_pure _).congr ?_
      have hno : seg.segname.text ≠ textName := fun heq => htext (decide_eq_true heq)
      simp [MachCommand.segment?, Option.filter_some, hno]
  | symtab t =>
    exact .ite (fun hcmd => absurd (show lcSymtab = lcSegment64 from hcmd) (by decide))
      fun _ => yields_pure _
  | other cmd payload hcmd =>
    exact .ite (fun heq => absurd heq hcmd.2) fun _ => yields_pure _

variable {segname sectname : List UInt8}

theorem yields_sectNameEq {name : MachName} {s : List UInt8}
    (h : Placed file.data file.size p name.encode) (hs : 0 ∉ s) :
    (sectNameEq file p s).Yields file.size (decide (name.text = s.take 16)) := by
  refine (h.strncmpEq name.length_le name.noNul hs (Nat.le_refl 16)).congr ?_
  rw [List.take_of_length_le name.length_le]

theorem yields_sectionRound {s : MachSection} {sec j : ℕ}
    (h : Placed file.data file.size (sec + sizeofSection64 * j) s.encode) (hseg : 0 ∉ segname)
    (hsect : 0 ∉ sectname) : (sectionRound file segname sectname sec j ()).Yields file.size
      (if s.segname.text = segname.take 16 ∧ s.sectname.text = sectname.take 16 then
        .inr (s.offset, s.size.toUInt32) else .inl ()) := by
  have hsectname : s.sectname.encode.length = 16 := length_nameField s.sectname.length_le
  have hsegname : s.segname.encode.length = 16 := length_nameField s.segname.length_le
  rw [MachSection.encode] at h
  simp only [placed_append, length_leBytes, hsectname, hsegname] at h
  obtain ⟨hplacedSect, hplacedSeg, -, hsize, hoffset, -⟩ := h
  have hsize : (file.sectSize (sec + sizeofSection64 * j)).Yields file.size s.size.toNat :=
    hsize.word (by decide) s.size.toNat_lt
  have hoffset : (file.sectOffset (sec + sizeofSection64 * j)).Yields file.size s.offset.toNat :=
    hoffset.word (by decide) s.offset.toNat_lt
  refine (yields_sectNameEq hplacedSeg hseg).bind (.ite (fun hyes => ?_) fun hno => ?_)
  · refine (yields_sectNameEq hplacedSect hsect).bind (.ite (fun hyes' => ?_) fun hno => ?_)
    · refine hoffset.bind (hsize.bind ((yields_pure _).congr ?_))
      rw [if_pos ⟨of_decide_eq_true hyes, of_decide_eq_true hyes'⟩, UInt32.ofNat_toNat]
      rfl
    · refine (yields_pure _).congr ?_
      rw [if_neg fun hboth => hno (decide_eq_true hboth.2)]
  · refine (yields_pure _).congr ?_
    rw [if_neg fun hboth => hno (decide_eq_true hboth.1)]

/-- The loop over the sections of a segment finds the first one of the names. -/
theorem yields_sections {sec : ℕ} {sections : List MachSection}
    (h : Placed file.data file.size sec (sections.flatMap MachSection.encode)) (hseg : 0 ∉ segname)
    (hsect : 0 ∉ sectname) :
    (forLoop (sectionRound file segname sectname sec) sections.length 0 ()).Yields file.size
      (((sections.find? fun s => s.segname.text = segname.take 16 ∧
        s.sectname.text = sectname.take 16).map fun s => (s.offset, s.size.toUInt32)).elim (.inl ())
          .inr) := by
  have hloop := @yields_forLoop _ _ _ _ file.size (sectionRound file segname sectname sec)
    (fun _ s => ((Option.guard (fun s : MachSection => decide (s.segname.text = segname.take 16 ∧
      s.sectname.text = sectname.take 16)) s).map fun s => (s.offset, s.size.toUInt32)).elim
        (.inl ()) .inr) (fun _ _ _ => True) sections 0 () () ?_ trivial
  · have hfind : ∀ P : MachSection → Bool, (sections.findSome? fun s =>
        (Option.guard P s).map fun s => (s.offset, s.size.toUInt32)) =
          (sections.find? P).map fun s => (s.offset, s.size.toUInt32) := fun P => by
      rw [List.find?_eq_findSome?_guard, List.map_findSome?]
      rfl
    rw [foldUntil_findSome, hfind] at hloop
    generalize (sections.find? _).map _ = found at hloop ⊢
    cases found with
    | none =>
      obtain ⟨s', hs', -⟩ := hloop
      exact hs'
    | some r => exact hloop
  · intro j s _ _ hj _
    have hround := yields_sectionRound (h.record (fun s _ => length_encode_section s) hj) hseg hsect
    rw [Nat.zero_add]
    by_cases hp : s.segname.text = segname.take 16 ∧ s.sectname.text = sectname.take 16
    · rw [if_pos hp] at hround
      simpa [Option.guard, hp] using hround
    · rw [if_neg hp] at hround
      have hguard : Option.guard (fun s : MachSection => decide (s.segname.text = segname.take 16 ∧
          s.sectname.text = sectname.take 16)) s = none := if_neg (by simpa using hp)
      rw [hguard]
      exact ⟨(), hround, trivial⟩

/-- `macho_find_section` finds the first section of the names. -/
theorem yields_machoFindSection (h : img.HeldBy file) (hseg : 0 ∉ segname) (hsect : 0 ∉ sectname) :
    (machoFindSection file segname sectname).Yields file.size
      ((img.section? segname sectname).map fun s => (s.offset, s.size.toUInt32)) := by
  refine (yields_isMachO h).bind (.ite (fun _ => ?_) fun hno => absurd rfl hno)
  have hwalk := @yields_walkCommands_find img file _ (segmentCommand file segname sectname)
    (fun _ => none) (fun c => ((c.segment?.bind fun seg => seg.sections.find? fun s =>
      s.segname.text = segname.take 16 ∧ s.sectname.text = sectname.take 16).map fun s =>
        (s.offset, s.size.toUInt32)).map some) h fun c hc p hplaced => ?_
  · have hmap : ∀ (f : MachCommand → Option MachSection) (g : MachSection → UInt32 × UInt32),
        (img.commands.findSome? fun c => ((f c).map g).map some).getD none =
          (img.commands.findSome? f).map g := fun f g => by
      have hcomp : (img.commands.findSome? fun c => ((f c).map g).map some) =
          (img.commands.findSome? f).map (some ∘ g) := by
        simp only [Option.map_map]
        exact List.map_findSome?.symm
      rw [hcomp]
      cases img.commands.findSome? f <;> rfl
    exact hwalk.congr (hmap _ _)
  · cases c with
    | segment seg =>
      obtain ⟨-, -, hnsects, hsections⟩ := placed_segment hplaced (sections_lt (img.sizes_lt _ hc))
      refine .ite (fun _ => hnsects.bind ((yields_sections hsections hseg hsect).bind ?_))
        fun hno => absurd rfl hno
      rw [MachCommand.segment?, Option.bind_some]
      generalize (seg.sections.find? _).map _ = found
      cases found with
      | none => exact yields_pure _
      | some r => exact yields_pure _
    | symtab t =>
      exact .ite (fun hcmd => absurd (show lcSymtab = lcSegment64 from hcmd) (by decide))
        fun _ => yields_pure _
    | other cmd payload hcmd =>
      exact .ite (fun heq => absurd heq hcmd.2) fun _ => yields_pure _

end Segments

/-! ### Symbols -/

section Symbols

variable {img : MachImage} {file : MappedFile} {t : MachSymtab} {sym : MachSymbol}
  {entries : List SymEntry} {p : ℕ}

theorem length_encode_symbol (sym : MachSymbol) : sym.encode.length = sizeofNlist64 := by
  simp only [MachSymbol.encode, List.length_append, List.length_cons, length_leBytes]
  rfl

theorem placed_symbol (h : Placed file.data file.size p sym.encode) :
    (file.nStrx p).Yields file.size sym.strx.toNat ∧ (file.nType p).Yields file.size sym.type ∧
      (file.nValue p).Yields file.size sym.value.toNat := by
  rw [MachSymbol.encode, placed_append, length_leBytes, placed_cons, placed_cons, placed_append,
    length_leBytes] at h
  exact ⟨h.1.word (by decide) sym.strx.toNat_lt, ⟨h.2.1.2, (inside_byte _).mpr h.2.1.1⟩,
    h.2.2.2.2.word (by decide) sym.value.toNat_lt⟩

/-- `sym_name_interesting` on the bytes of a name. -/
theorem interesting_cons {address : Addr} {type : Char} {b : UInt8} {rest : CStr} :
    SymEntry.interesting ⟨address, type, Char.ofNat b.toNat :: rest⟩ =
      (if type = '?' ∨ type = '-' then false else if b = 0x2e ∨ b = 0x4c then false
        else decide (0x20 ≤ b ∧ b ≤ 0x7e)) := by
  have hbyte := toNat_ofNat_byte b
  have heq : ∀ (c : Char) (n : UInt8), c.toNat = n.toNat → (Char.ofNat b.toNat = c ↔ b = n) := by
    intro c n hc
    constructor
    · rintro rfl
      exact UInt8.toNat_inj.mp (hbyte.symm.trans hc)
    · rintro rfl
      rw [← hc, Char.ofNat_toNat]
  rw [SymEntry.interesting]
  simp only [heq '.' 0x2e rfl, heq 'L' 0x4c rfl, hbyte, UInt8.le_iff_toNat_le]
  rfl

theorem yields_symNameInteresting {address : Addr} {type : Char} {name : List UInt8}
    (h : Placed file.data file.size p (name ++ [0])) (hname : 0 ∉ name) :
    (symNameInteresting file p type).Yields file.size
      (SymEntry.interesting ⟨address, type, name.map fun b => Char.ofNat b.toNat⟩) := by
  cases name with
  | nil => exact (Placed.byte h).bind (.ite (fun _ => yields_pure _) fun hne => absurd rfl hne)
  | cons b name =>
    have hb : b ≠ 0 := fun hb => hname (hb ▸ List.mem_cons_self)
    refine (Placed.byte h).bind (.ite (fun hzero => absurd hzero hb) fun _ => ?_)
    rw [List.map_cons, interesting_cons]
    refine .ite (fun htype => ?_) fun htype => .ite (fun hfirst => ?_) fun hfirst => ?_
    · rw [if_pos htype]
      exact yields_pure _
    · rw [if_neg htype, if_pos hfirst]
      exact yields_pure _
    · rw [if_neg htype, if_neg hfirst]
      exact yields_pure _

/-- A round of the loop over the symbols adds what is kept of the symbol. -/
theorem yields_symbolRound {i : ℕ} (hat : img.SymbolsAt file t)
    (hsym : img.symbols[i]? = some sym) (entries : List SymEntry) :
    (symbolRound file t.symoff.toNat t.stroff.toNat t.strsize.toNat i entries).Yields file.size
      (.inl (entries ++
        (if sym.strx.toNat < img.strings.length then sym.entry else none).toList)) := by
  obtain ⟨hstrx, htype, hvalue⟩ :=
    placed_symbol (hat.symbols.record (fun s _ => length_encode_symbol s) hsym)
  refine htype.bind (.ite (fun hstab => (yields_pure _).congr ?_) fun hstab => hstrx.bind
    (.ite (fun hout => (yields_pure _).congr ?_) fun hin => ?_))
  · have hentry : sym.entry = none := if_neg fun h => hstab h.1
    simp [hentry]
  · rw [hat.strsize] at hout
    rw [if_neg (Nat.not_lt.mpr hout)]
    simp
  · rw [hat.strsize, Nat.not_le] at hin
    have hname :=
      hat.strings.part (Nat.le_of_lt hin) (img.named sym (List.mem_of_getElem? hsym) hin)
    have hlen := hname.length_le (by simp)
    have hfile := file.size_lt
    rw [List.length_append, List.length_singleton] at hlen
    refine hvalue.bind ?_
    rw [UInt64.ofNat_toNat, if_pos hin]
    refine Yields.bind (a := entries ++ sym.entry.toList) ?_ (yields_pure _)
    refine (@yields_symNameInteresting _ _ sym.value _ _ hname sym.noNul).bind
      (.ite (fun hyes => ?_) fun hno => (yields_pure _).congr ?_)
    · refine (hname.cstr sym.noNul (by omega)).bind ((yields_pure _).congr ?_)
      rw [MachSymbol.entry, if_pos ⟨not_not.mp hstab, hyes⟩]
      rfl
    · rw [MachSymbol.entry, if_neg fun h => hno h.2]
      simp

/-- The command that is left behind is the last one. -/
theorem yields_findSymtab (h : img.HeldBy file) : ∃ lc : Option ℕ,
    (findSymtab file).Yields file.size lc ∧ lc.isSome = img.symtab?.isSome ∧
      ∀ p ∈ lc, ∀ t ∈ img.symtab?, Placed file.data file.size (p + sizeofLoadCommand) t.encode := by
  have hlast : ∀ (cs : List MachCommand) (t : Option MachSymtab),
      cs.foldl (fun t c => c.symtab?.or t) t =
        (cs.filterMap MachCommand.symtab?).getLast?.or t := by
    intro cs
    induction cs with
    | nil => exact fun t => rfl
    | cons c cs ih =>
      intro t
      rw [List.foldl_cons, ih, List.filterMap_cons]
      cases c.symtab? with
      | none => rfl
      | some t' =>
        rw [List.getLast?_cons]
        cases (cs.filterMap MachCommand.symtab?).getLast? <;> rfl
  have hwalk := @yields_walkCommands _ _ (Option ℕ) img file symtabCommand id
    (fun t c => .inl (c.symtab?.or t))
    (fun lc t => lc.isSome = t.isSome ∧ ∀ p ∈ lc, ∀ t' ∈ t,
      Placed file.data file.size (p + sizeofLoadCommand) t'.encode) h none none
    ⟨rfl, fun p hp => absurd hp (by simp)⟩ ?_
  · rw [foldUntil_foldl, hlast, Option.or_none] at hwalk
    exact hwalk
  · intro c _ p lc t hplaced hrel
    refine ⟨_, yields_pure _, ?_⟩
    cases c with
    | symtab t' =>
      refine ⟨rfl, fun q hq t'' ht'' => ?_⟩
      obtain rfl := Option.some.inj hq
      obtain rfl := Option.some.inj ht''
      exact hplaced
    | segment seg => exact hrel
    | other cmd payload hcmd =>
      have hkeep : (if (MachCommand.other cmd payload hcmd).cmd = lcSymtab then some p else lc) =
          lc := if_neg hcmd.1
      rw [hkeep]
      exact hrel

/-- The loop over the symbols adds what is kept of them. -/
theorem yields_symbolLoop (hat : img.SymbolsAt file t) (entries : List SymEntry) :
    (forLoop (symbolRound file t.symoff.toNat t.stroff.toNat t.strsize.toNat) img.symbols.length 0
      entries).Yields file.size (.inl (entries ++ img.entries)) := by
  have hfold : ∀ (syms : List MachSymbol) (es : List SymEntry), syms.foldl (fun es sym => es ++
      (if sym.strx.toNat < img.strings.length then sym.entry else none).toList) es =
        es ++ (syms.filter (·.strx.toNat < img.strings.length)).filterMap MachSymbol.entry := by
    intro syms
    induction syms with
    | nil => exact fun es => (List.append_nil es).symm
    | cons sym syms ih =>
      intro es
      rw [List.foldl_cons, ih, List.append_assoc, List.filter_cons]
      split
      case isTrue hin =>
        rw [if_pos (decide_eq_true hin), List.filterMap_cons]
        cases sym.entry <;> rfl
      case isFalse hout => rw [if_neg (by simpa using hout)]; rfl
  have hloop := @yields_forLoop _ _ Empty _ file.size
    (symbolRound file t.symoff.toNat t.stroff.toNat t.strsize.toNat)
    (fun es sym => .inl (es ++
      (if sym.strx.toNat < img.strings.length then sym.entry else none).toList))
    (fun _ es es' => es = es') img.symbols 0 entries entries ?_ rfl
  · rw [foldUntil_foldl, hfold] at hloop
    obtain ⟨es, hes, rfl⟩ := hloop
    exact hes
  · rintro j sym es _ hj rfl
    rw [Nat.zero_add]
    exact ⟨_, yields_symbolRound hat hj es, rfl⟩

/-- What `syms_load_macho` makes of an image. -/
def MachImage.load (img : MachImage) (entries : List SymEntry) : Int × List SymEntry :=
  if img.symbols = [] then (-1, entries)
  else (if entries ++ img.entries = [] then -1 else 0, entries ++ img.entries)

theorem yields_loadSymbols (hat : img.SymbolsAt file t)
    (ht : Placed file.data file.size (p + sizeofLoadCommand) t.encode) (entries : List SymEntry) :
    (loadSymbols file entries p).Yields file.size (img.load entries) := by
  rw [MachSymtab.encode, placed_append, placed_append, placed_append, length_leBytes,
    length_leBytes, length_leBytes] at ht
  simp only [sizeofLoadCommand, Nat.add_assoc, Nat.reduceAdd] at ht
  obtain ⟨hsymoff, hnsyms, hstroff, hstrsize⟩ := ht
  have hsymoff : (file.symoff p).Yields file.size t.symoff.toNat :=
    hsymoff.word (by decide) t.symoff.toNat_lt
  have hnsyms : (file.nsyms p).Yields file.size t.nsyms.toNat :=
    hnsyms.word (by decide) t.nsyms.toNat_lt
  have hstroff : (file.stroff p).Yields file.size t.stroff.toNat :=
    hstroff.word (by decide) t.stroff.toNat_lt
  have hstrsize : (file.strsize p).Yields file.size t.strsize.toNat :=
    hstrsize.word (by decide) t.strsize.toNat_lt
  have hsymbols := hat.symbols_le
  have hstrings := hat.strings_le
  have hloop := yields_symbolLoop hat entries
  rw [← hat.nsyms] at hloop hsymbols
  rw [← hat.strsize] at hstrings
  refine hnsyms.bind (.ite (fun hzero => (yields_pure _).congr ?_) fun hne => hsymoff.bind
    (.ite (fun hgt => absurd hgt (Nat.not_lt.mpr hsymbols)) fun _ => hstroff.bind (hstrsize.bind
      (.ite (fun hgt => absurd hgt (Nat.not_lt.mpr hstrings)) fun _ => hloop.bind
        ((yields_pure _).congr ?_)))))
  · rw [hat.nsyms] at hzero
    rw [MachImage.load, if_pos (List.length_eq_zero_iff.mp hzero)]
  · rw [hat.nsyms] at hne
    rw [MachImage.load, if_neg fun hnil => hne (List.length_eq_zero_iff.mpr hnil)]
    by_cases hnil : entries ++ img.entries = []
    · rw [if_pos hnil, hnil]
      rfl
    · rw [if_neg hnil, if_pos (List.length_pos_iff.mpr hnil)]

/-- `syms_load_macho` adds what is kept of the symbols. -/
theorem yields_symsLoadMacho (h : img.HeldBy file) (entries : List SymEntry) :
    (symsLoadMacho file entries).Yields file.size (img.load entries) := by
  refine (yields_isMachO h).bind (.ite (fun _ => ?_) fun hno => absurd rfl hno)
  obtain ⟨lc, hlc, hsome, hplaced⟩ := yields_findSymtab h
  refine hlc.bind ?_
  cases lc with
  | none =>
    have hnone : img.symtab? = none := Option.isNone_iff_eq_none.mp (by simpa using hsome)
    refine (yields_pure _).congr ?_
    rw [MachImage.load, if_pos (h.unlisted hnone)]
  | some p =>
    obtain ⟨t, ht⟩ := Option.isSome_iff_exists.mp hsome.symm
    exact yields_loadSymbols (h.symbols t ht) (hplaced p rfl t ht) entries

end Symbols

/-! ### Files -/

/-- A file of the given bytes. -/
def MappedFile.ofBytes (bytes : List UInt8) (hsize : bytes.length < 2 ^ 63) : MappedFile where
  data i := bytes.getD i 0
  size := bytes.length
  size_lt := hsize

namespace MachImage

variable (img : MachImage)

/-- The symbols lie behind the load commands, and the strings behind the symbols. -/
def symbolsAt : ℕ :=
  sizeofMachHeader64 + (img.commands.flatMap MachCommand.encode).length

def stringsAt : ℕ := img.symbolsAt + img.symbols.length * sizeofNlist64

def encode : List UInt8 :=
  img.header ++ (img.commands.flatMap MachCommand.encode ++
    (img.symbols.flatMap MachSymbol.encode ++ img.strings))

/-- The symbol table command says where `encode` puts the symbols and the strings. -/
structure LaidOut : Prop where
  symtab : ∀ t ∈ img.symtab?, t.symoff.toNat = img.symbolsAt ∧
    t.nsyms.toNat = img.symbols.length ∧ t.stroff.toNat = img.stringsAt ∧
    t.strsize.toNat = img.strings.length
  unlisted : img.symtab? = none → img.symbols = []

variable {img}

/-- The file an image is laid out to holds the image. -/
theorem heldBy_encode (h : img.LaidOut) (hsize : img.encode.length < 2 ^ 63) :
    img.HeldBy (.ofBytes img.encode hsize) := by
  have hfile : Placed (MappedFile.ofBytes img.encode hsize).data img.encode.length 0 img.encode :=
    placed_of_getD (Nat.le_of_eq (Nat.zero_add _)) fun i _ => by rw [Nat.zero_add]; rfl
  have htable : (img.symbols.flatMap MachSymbol.encode).length =
      img.symbols.length * sizeofNlist64 := length_table fun s _ => length_encode_symbol s
  have hlen : img.encode.length = img.stringsAt + img.strings.length := by
    rw [encode, List.length_append, List.length_append, List.length_append, img.length_header,
      htable, stringsAt, symbolsAt]
    omega
  have hparts : Placed (MappedFile.ofBytes img.encode hsize).data img.encode.length 0
      (img.header ++ (img.commands.flatMap MachCommand.encode ++
        (img.symbols.flatMap MachSymbol.encode ++ img.strings))) := hfile
  rw [placed_append, placed_append, placed_append, img.length_header, htable,
    Nat.zero_add] at hparts
  obtain ⟨hheader, hcommands, hsymbols, hstrings⟩ := hparts
  refine ⟨hheader, hcommands, fun t ht => ?_, h.unlisted⟩
  obtain ⟨hsymoff, hnsyms, hstroff, hstrsize⟩ := h.symtab t ht
  have hsize' : (MappedFile.ofBytes img.encode hsize).size = img.encode.length := rfl
  refine ⟨hnsyms, hstrsize, ?_, ?_, ?_, ?_⟩
  · rw [hsymoff]
    exact hsymbols
  · rw [hstroff]
    exact hstrings
  · rw [hsymoff, hsize', hlen, stringsAt]
    omega
  · exact Nat.le_of_eq (by rw [hstroff, hsize', hlen])

end MachImage

/-- What the Mach-O reader makes of a file that holds an image is what the image says, and it
stays inside the file. -/
theorem macho_round_trip {img : MachImage} {file : MappedFile} (h : img.HeldBy file)
    {segname sectname : List UInt8} (hseg : 0 ∉ segname) (hsect : 0 ∉ sectname)
    (entries : List SymEntry) :
    (machoTextVmaddr file).Yields file.size img.textVmaddr ∧
      (machoFindSection file segname sectname).Yields file.size
        ((img.section? segname sectname).map fun s => (s.offset, s.size.toUInt32)) ∧
      (symsLoadMacho file entries).Yields file.size (img.load entries) :=
  ⟨yields_machoTextVmaddr h, yields_machoFindSection h hseg hsect, yields_symsLoadMacho h entries⟩

/-- An image with a text segment, a debugging section and two symbols, one of which is a debugging
entry. -/
def smallImage : MachImage where
  machine := List.replicate 12 0
  length_machine := rfl
  flags := List.replicate 12 0
  length_flags := rfl
  commands :=
    [.segment ⟨⟨textName, by decide, by decide⟩, 0x1000, List.replicate 32 0, rfl, 0, []⟩,
      .other 0x1b (List.replicate 16 7) (by decide),
      .segment ⟨⟨[0x5f, 0x44], by decide, by decide⟩, 0x2000, List.replicate 32 0, rfl, 0,
        [⟨⟨[0x5f, 0x6c], by decide, by decide⟩, ⟨[0x5f, 0x44], by decide, by decide⟩, 0x2000,
          16, 300, List.replicate 28 0, rfl⟩]⟩,
      .symtab ⟨304, 2, 336, 6⟩]
  commands_lt := by decide
  sizes_lt := by decide +kernel
  symbols := [⟨1, 0x0f, 1, 0, 0x1010, [0x5f, 0x66], by decide⟩,
    ⟨4, 0x24, 1, 0, 0x1010, [0x66], by decide⟩]
  strings := [0, 0x5f, 0x66, 0, 0x66, 0]
  named := by decide

theorem length_smallImage : smallImage.encode.length = 342 := by decide +kernel

def smallFile : MappedFile := .ofBytes smallImage.encode (by rw [length_smallImage]; decide)

theorem smallImage_heldBy : smallImage.HeldBy smallFile :=
  MachImage.heldBy_encode ⟨by decide +kernel, by decide⟩ _

theorem smallImage_round_trip :
    (machoTextVmaddr smallFile).value = 0x1000 ∧
      (machoFindSection smallFile [0x5f, 0x44] [0x5f, 0x6c]).value = some (300, 16) ∧
      (symsLoadMacho smallFile []).value = (0, [⟨0x1010, 'T', "_f".toList⟩]) := by
  obtain ⟨htext, hsection, hsymbols⟩ := @macho_round_trip _ _
    smallImage_heldBy [0x5f, 0x44] [0x5f, 0x6c] (by decide) (by decide) []
  exact ⟨htext.value, hsection.value, hsymbols.value.trans (by decide +kernel)⟩

end Debugger
