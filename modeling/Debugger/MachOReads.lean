/-
Where the Mach-O reader reads (`macho_find_section`, `macho_text_vmaddr`, `syms_load_macho`).

The three functions check that the first 8 bytes of a load command are in the file, and then read
the whole segment command, its sections or the symbol table command; a symbol's name is checked
to begin in the file, and then read up to its NUL.  They stay inside the file exactly when what
they look at does (`macho_inside_iff`).
-/
import Debugger.MachO

open Prog Reading

namespace Debugger

/-! ### The load commands -/

section Commands

variable (file : MappedFile)

/-- Where load command `k` begins. -/
def commandAt : ℕ → ℕ
  | 0 => sizeofMachHeader64
  | k + 1 => commandAt k + (file.cmdsize (commandAt k)).value

/-- `lc->cmd` of load command `k`. -/
def cmdAt (k : ℕ) : ℕ := (file.cmd (commandAt file k)).value

/-- Load command `k` is counted, and its first bytes and those of the commands before it are in
the file. -/
def Begun (k : ℕ) : Prop :=
  k < file.ncmds.value ∧ ∀ i ≤ k, commandAt file i + sizeofLoadCommand ≤ file.size

end Commands

section Walk

variable {S R : Type} {file : MappedFile} {body : S → ℕ → ℕ → Reading (S ⊕ R)} {stop : S → R}
  {s₀ : S} {k : ℕ} {p : ℕ × S}

theorem value_commandRound (h : p.1 + sizeofLoadCommand ≤ file.size) (i : ℕ) :
    (commandRound file body stop i p).value =
      match (body p.2 (file.cmd p.1).value p.1).value with
        | .inl s => .inl (p.1 + (file.cmdsize p.1).value, s)
        | .inr r => .inr r := by
  rw [commandRound, if_neg (Nat.not_lt.mpr h), value_bind, value_bind]
  cases (body p.2 (file.cmd p.1).value p.1).value with
  | inl s => rfl
  | inr r => rfl

theorem inside_commandRound_iff (i : ℕ) :
    (commandRound file body stop i p).Inside file.size ↔
      (p.1 + sizeofLoadCommand ≤ file.size →
        (body p.2 (file.cmd p.1).value p.1).Inside file.size) := by
  rw [commandRound, inside_ite]
  constructor
  · intro h hle
    exact ((inside_bind _ _).mp ((inside_bind _ _).mp (h.2 (Nat.not_lt.mpr hle))).2).1
  · refine fun h => ⟨fun _ => inside_pure _, fun hlt => ?_⟩
    have hle : p.1 + 8 ≤ file.size := Nat.not_lt.mp hlt
    have hcmd : (file.cmd p.1).Inside file.size := (inside_word_iff (by decide)).mpr (by omega)
    have hsize : (file.cmdsize p.1).Inside file.size := (inside_word_iff (by decide)).mpr (by omega)
    refine (inside_bind _ _).mpr ⟨hcmd, (inside_bind _ _).mpr ⟨h hle, ?_⟩⟩
    cases (body p.2 (file.cmd p.1).value p.1).value with
    | inl s => exact (inside_bind _ _).mpr ⟨hsize, inside_pure _⟩
    | inr r => exact inside_pure _

/-- A round that goes on goes on with the next command. -/
theorem commandRound_inl {q : ℕ × S} {i : ℕ}
    (h : (commandRound file body stop i p).value = .inl q) :
    p.1 + sizeofLoadCommand ≤ file.size ∧ q.1 = p.1 + (file.cmdsize p.1).value ∧
      (body p.2 (file.cmd p.1).value p.1).value = .inl q.2 := by
  have hle : p.1 + sizeofLoadCommand ≤ file.size := by
    by_contra hgt
    rw [commandRound, if_pos (Nat.not_le.mp hgt)] at h
    exact nomatch h
  rw [value_commandRound hle] at h
  cases hb : (body p.2 (file.cmd p.1).value p.1).value with
  | inl s =>
    rw [hb] at h
    obtain rfl := Sum.inl.inj h
    exact ⟨hle, rfl, rfl⟩
  | inr r =>
    rw [hb] at h
    exact nomatch h

theorem stateAt_commandRound : ∀ {k : ℕ} {p : ℕ × S},
    stateAt (commandRound file body stop) (sizeofMachHeader64, s₀) k = some p →
      p.1 = commandAt file k ∧ ∀ i < k, commandAt file i + sizeofLoadCommand ≤ file.size := by
  intro k
  induction k with
  | zero =>
    intro p h
    obtain rfl := Option.some.inj h
    exact ⟨rfl, fun i hi => absurd hi (Nat.not_lt_zero i)⟩
  | succ k ih =>
    intro p h
    obtain ⟨q, hq, hround⟩ := Option.bind_eq_some_iff.mp h
    obtain ⟨hcursor, hfits⟩ := ih hq
    obtain ⟨hle, hnext, -⟩ := commandRound_inl (Sum.getLeft?_eq_some_iff.mp hround)
    rw [hcursor] at hle hnext
    exact ⟨hnext, Nat.forall_lt_succ_right.mpr ⟨hfits, hle⟩⟩

/-- The loop over the load commands reads what is read of the commands that are begun. -/
theorem inside_walkCommands_iff (hsize : sizeofMachHeader64 ≤ file.size) :
    (walkCommands file body stop s₀).Inside file.size ↔ ∀ k, Begun file k →
      ∀ s, stateAt (commandRound file body stop) (sizeofMachHeader64, s₀) k =
          some (commandAt file k, s) →
        (body s (cmdAt file k) (commandAt file k)).Inside file.size := by
  have hncmds : file.ncmds.Inside file.size :=
    (inside_word_iff (by decide)).mpr (Nat.le_trans (by decide) hsize)
  rw [walkCommands, inside_bind, inside_bind, inside_forLoop_iff]
  constructor
  · rintro ⟨-, h, -⟩ k ⟨hk, hfits⟩ s hs
    exact (inside_commandRound_iff k).mp (h k hk _ hs) (hfits k (Nat.le_refl k))
  · refine fun h => ⟨hncmds, fun k hk p hp => ?_, by split <;> exact inside_pure _⟩
    obtain ⟨hcursor, hfits⟩ := stateAt_commandRound hp
    obtain ⟨cursor, s⟩ := p
    obtain rfl := hcursor
    refine (inside_commandRound_iff k).mpr fun hle => h k ⟨hk, fun i hi => ?_⟩ s hp
    rcases Nat.lt_or_eq_of_le hi with hlt | rfl
    · exact hfits i hlt
    · exact hle

end Walk

/-! ### Segments and sections -/

section Segments

variable (file : MappedFile) (segname sectname : List UInt8)

/-- The bytes of a name at `p` that are compared with a string, `n` at most, are in the file: each
in front of which the two agree. -/
def NameFits (n p : ℕ) (s : List UInt8) : Prop :=
  ∀ k < n, Agrees file.data p s k → p + k < file.size

/-- Load command `k` is the text segment. -/
def IsText (k : ℕ) : Prop :=
  cmdAt file k = lcSegment64 ∧ (isTextName file (commandAt file k)).value = true

/-- The name of every segment up to the text segment is in the file as far as it is compared, and
so is the address of the text segment. -/
def TextFits : Prop := ∀ k, Begun file k → (∀ i < k, ¬ IsText file i) →
  cmdAt file k = lcSegment64 → NameFits file 7 (commandAt file k + 8) textName ∧
    (IsText file k → commandAt file k + 32 ≤ file.size)

/-- Section `j` of the segment that is load command `k`. -/
def sectionAt (k j : ℕ) : ℕ := commandAt file k + sizeofSegmentCommand64 + sizeofSection64 * j

/-- The section that is looked for. -/
def IsSection (sec : ℕ) : Prop :=
  (sectNameEq file (sec + 16) segname).value = true ∧ (sectNameEq file sec sectname).value = true

/-- The names of a section are in the file as far as they are compared, and so are the size and
the offset of the section that is looked for. -/
def SectionFits (sec : ℕ) : Prop :=
  NameFits file 16 (sec + 16) segname ∧
    ((sectNameEq file (sec + 16) segname).value = true → NameFits file 16 sec sectname) ∧
    (IsSection file segname sectname sec → sec + 52 ≤ file.size)

/-- Load command `k` is a segment with the section that is looked for. -/
def HasSection (k : ℕ) : Prop := cmdAt file k = lcSegment64 ∧
  ∃ j < (file.nsects (commandAt file k)).value,
    IsSection file segname sectname (sectionAt file k j)

/-- The number of sections of every segment up to the one with the section that is looked for is
in the file, and every section up to that one fits. -/
def SectionsFit : Prop := ∀ k, Begun file k → (∀ i < k, ¬ HasSection file segname sectname i) →
  cmdAt file k = lcSegment64 → commandAt file k + 68 ≤ file.size ∧
    ∀ j < (file.nsects (commandAt file k)).value,
      (∀ i < j, ¬ IsSection file segname sectname (sectionAt file k i)) →
        SectionFits file segname sectname (sectionAt file k j)

variable {file segname sectname} {R : Type}

theorem stateAt_commandRound_unit {body : Unit → ℕ → ℕ → Reading (Unit ⊕ R)} {stop : Unit → R} :
    ∀ {k : ℕ}, (∀ i < k, commandAt file i + sizeofLoadCommand ≤ file.size) →
      (stateAt (commandRound file body stop) (sizeofMachHeader64, ()) k =
          some (commandAt file k, ()) ↔
        ∀ i < k, (body () (cmdAt file i) (commandAt file i)).value = .inl ()) := by
  intro k
  induction k with
  | zero => exact fun _ => iff_of_true rfl fun i hi => absurd hi (Nat.not_lt_zero i)
  | succ k ih =>
    intro hfits
    obtain ⟨hfits, hle⟩ := Nat.forall_lt_succ_right.mp hfits
    rw [Nat.forall_lt_succ_right, ← ih hfits, stateAt]
    constructor
    · intro h
      obtain ⟨q, hq, hround⟩ := Option.bind_eq_some_iff.mp h
      obtain ⟨cursor, u⟩ := q
      obtain rfl := (stateAt_commandRound hq).1
      exact ⟨hq, (commandRound_inl (Sum.getLeft?_eq_some_iff.mp hround)).2.2⟩
    · rintro ⟨hk, hbody⟩
      rw [hk, Option.bind_some, value_commandRound hle]
      rw [cmdAt] at hbody
      dsimp only
      rw [hbody]
      rfl

/-- A loop over the load commands without a state. -/
theorem inside_walkCommands_unit_iff {body : Unit → ℕ → ℕ → Reading (Unit ⊕ R)} {stop : Unit → R}
    (hsize : sizeofMachHeader64 ≤ file.size) :
    (walkCommands file body stop ()).Inside file.size ↔ ∀ k, Begun file k →
      (∀ i < k, (body () (cmdAt file i) (commandAt file i)).value = .inl ()) →
        (body () (cmdAt file k) (commandAt file k)).Inside file.size := by
  have hstate : ∀ k, Begun file k →
      (stateAt (commandRound file body stop) (sizeofMachHeader64, ()) k =
          some (commandAt file k, ()) ↔
        ∀ i < k, (body () (cmdAt file i) (commandAt file i)).value = .inl ()) := fun k hk =>
    stateAt_commandRound_unit fun i hi => hk.2 i (Nat.le_of_lt hi)
  rw [inside_walkCommands_iff hsize]
  exact forall₂_congr fun k hk => ⟨fun h hi => h () ((hstate k hk).mpr hi),
    fun h _ hs => h ((hstate k hk).mp hs)⟩

theorem textCommand_inl_iff {cmd seg : ℕ} : (textCommand file () cmd seg).value = .inl () ↔
    ¬ (cmd = lcSegment64 ∧ (isTextName file seg).value = true) := by
  rw [textCommand]
  by_cases hcmd : cmd = lcSegment64
  · rw [if_pos hcmd, value_bind]
    cases (isTextName file seg).value with
    | true => exact iff_of_false (fun h => nomatch h) fun h => h ⟨hcmd, rfl⟩
    | false => exact iff_of_true rfl fun h => Bool.noConfusion h.2
  · rw [if_neg hcmd]
    exact iff_of_true rfl fun h => hcmd h.1

theorem inside_textCommand_iff {cmd seg : ℕ} : (textCommand file () cmd seg).Inside file.size ↔
    (cmd = lcSegment64 → NameFits file 7 (seg + 8) textName ∧
      ((isTextName file seg).value = true → seg + 32 ≤ file.size)) := by
  rw [textCommand, inside_ite, inside_bind, inside_ite, inside_bind]
  simp only [inside_pure, and_true, implies_true]
  refine imp_congr_right fun _ => and_congr inside_strncmpEq_iff (imp_congr_right fun _ => ?_)
  exact inside_word_iff (by decide)

theorem inside_machoTextVmaddr_iff (hsize : sizeofMachHeader64 ≤ file.size) :
    (walkCommands file (textCommand file) (fun _ => 0) ()).Inside file.size ↔ TextFits file := by
  rw [inside_walkCommands_unit_iff hsize]
  refine forall₂_congr fun k _ => imp_congr (forall₂_congr fun i _ => textCommand_inl_iff) ?_
  rw [inside_textCommand_iff]
  exact imp_congr_right fun hcmd => and_congr_right fun _ =>
    ⟨fun h htext => h htext.2, fun h htext => h ⟨hcmd, htext⟩⟩

theorem sectionRound_inl_iff {sec j : ℕ} :
    (sectionRound file segname sectname sec j ()).value = .inl () ↔
      ¬ IsSection file segname sectname (sec + sizeofSection64 * j) := by
  rw [sectionRound, value_bind, IsSection]
  cases (sectNameEq file (sec + sizeofSection64 * j + 16) segname).value with
  | false => exact iff_of_true rfl fun h => Bool.noConfusion h.1
  | true =>
    rw [if_pos rfl, value_bind]
    cases (sectNameEq file (sec + sizeofSection64 * j) sectname).value with
    | false => exact iff_of_true rfl fun h => Bool.noConfusion h.2
    | true => exact iff_of_false (fun h => nomatch h) fun h => h ⟨rfl, rfl⟩

theorem inside_sectNameEq_iff {a : ℕ} {b : List UInt8} :
    (sectNameEq file a b).Inside file.size ↔ NameFits file 16 a b := inside_strncmpEq_iff

theorem inside_sectionRound_iff {sec j : ℕ} :
    (sectionRound file segname sectname sec j ()).Inside file.size ↔
      SectionFits file segname sectname (sec + sizeofSection64 * j) := by
  rw [sectionRound, inside_bind, inside_ite, inside_bind, inside_ite, inside_bind, inside_bind]
  simp only [inside_pure, and_true, implies_true]
  refine and_congr inside_sectNameEq_iff ?_
  have hfields : (file.sectOffset (sec + sizeofSection64 * j)).Inside file.size ∧
      (file.sectSize (sec + sizeofSection64 * j)).Inside file.size ↔
        sec + sizeofSection64 * j + 52 ≤ file.size := by
    rw [MappedFile.sectOffset, MappedFile.sectSize, inside_word_iff (by decide),
      inside_word_iff (by decide)]
    omega
  rw [hfields, inside_sectNameEq_iff]
  exact ⟨fun h => ⟨fun hseg => (h hseg).1, fun hsec => (h hsec.1).2 hsec.2⟩,
    fun h hseg => ⟨h.1 hseg, fun hsec => h.2 ⟨hseg, hsec⟩⟩⟩

theorem segmentCommand_inl_iff {cmd seg : ℕ} :
    (segmentCommand file segname sectname () cmd seg).value = .inl () ↔
      ¬ (cmd = lcSegment64 ∧ ∃ j < (file.nsects seg).value, IsSection file segname sectname
        (seg + sizeofSegmentCommand64 + sizeofSection64 * j)) := by
  rw [segmentCommand]
  by_cases hcmd : cmd = lcSegment64
  · rw [if_pos hcmd, value_bind, value_bind]
    have hsections : (forLoop (sectionRound file segname sectname (seg + sizeofSegmentCommand64))
        (file.nsects seg).value 0 ()).value = .inl () ↔ ∀ j < (file.nsects seg).value,
          ¬ IsSection file segname sectname (seg + sizeofSegmentCommand64 + sizeofSection64 * j) :=
      value_forLoop_unit_iff.trans (forall₂_congr fun j _ => sectionRound_inl_iff)
    have hnone : (¬ (cmd = lcSegment64 ∧ ∃ j < (file.nsects seg).value, IsSection file segname
        sectname (seg + sizeofSegmentCommand64 + sizeofSection64 * j))) ↔
          ∀ j < (file.nsects seg).value, ¬ IsSection file segname sectname
            (seg + sizeofSegmentCommand64 + sizeofSection64 * j) := by
      simp only [hcmd, true_and, not_exists, not_and]
    rw [hnone, ← hsections]
    cases (forLoop (sectionRound file segname sectname (seg + sizeofSegmentCommand64))
      (file.nsects seg).value 0 ()).value with
    | inl u => exact iff_of_true rfl rfl
    | inr r => exact iff_of_false (fun h => nomatch h) fun h => nomatch h
  · rw [if_neg hcmd]
    exact iff_of_true rfl fun h => hcmd h.1

theorem inside_segmentCommand_iff {cmd seg : ℕ} :
    (segmentCommand file segname sectname () cmd seg).Inside file.size ↔
      (cmd = lcSegment64 → seg + 68 ≤ file.size ∧ ∀ j < (file.nsects seg).value,
        (∀ i < j, ¬ IsSection file segname sectname
          (seg + sizeofSegmentCommand64 + sizeofSection64 * i)) →
            SectionFits file segname sectname
              (seg + sizeofSegmentCommand64 + sizeofSection64 * j)) := by
  rw [segmentCommand, inside_ite, inside_bind, inside_bind]
  have hnsects : (file.nsects seg).Inside file.size ↔ seg + 68 ≤ file.size := by
    rw [MappedFile.nsects, inside_word_iff (by decide)]
  rw [hnsects, inside_forLoop_unit_iff]
  constructor
  · rintro ⟨h, -⟩ hcmd
    obtain ⟨hle, hsections, -⟩ := h hcmd
    refine ⟨hle, fun j hj hi => inside_sectionRound_iff.mp (hsections j hj fun i hij => ?_)⟩
    exact sectionRound_inl_iff.mpr (hi i hij)
  · intro h
    refine ⟨fun hcmd => ⟨(h hcmd).1, fun j hj hi => ?_, by split <;> exact inside_pure _⟩,
      fun _ => inside_pure _⟩
    exact inside_sectionRound_iff.mpr ((h hcmd).2 j hj fun i hij =>
      sectionRound_inl_iff.mp (hi i hij))

theorem inside_machoFindSection_iff (hsize : sizeofMachHeader64 ≤ file.size) :
    (walkCommands file (segmentCommand file segname sectname) (fun _ => none) ()).Inside file.size ↔
      SectionsFit file segname sectname := by
  rw [inside_walkCommands_unit_iff hsize]
  exact forall₂_congr fun k _ => imp_congr (forall₂_congr fun i _ => segmentCommand_inl_iff)
    inside_segmentCommand_iff

end Segments

/-! ### Symbols -/

section Symbols

variable (file : MappedFile)

/-- The last `LC_SYMTAB` command that is begun. -/
def SymtabAt (lc : ℕ) : Prop := ∃ k, Begun file k ∧ cmdAt file k = lcSymtab ∧
  lc = commandAt file k ∧ ∀ i, k < i → Begun file i → cmdAt file i ≠ lcSymtab

/-- The name of a symbol that is shown has its NUL in the file. -/
def SymbolFits (symbols strtab strsize i : ℕ) : Prop :=
  let type := (file.nType (symbols + sizeofNlist64 * i)).value
  let strx := (file.nStrx (symbols + sizeofNlist64 * i)).value
  type &&& 0xe0 = 0 → strx < strsize →
    (symNameInteresting file (strtab + strx) (nlistTypeChar type)).value = true →
      ∃ q, strtab + strx ≤ q ∧ q < file.size ∧ file.data q = 0

/-- The fields of a symbol table command are in the file as far as they are looked at, and the
names of its symbols end there. -/
def SymtabFits (lc : ℕ) : Prop :=
  lc + 16 ≤ file.size ∧ ((file.nsyms lc).value ≠ 0 →
    (file.symoff lc).value + (file.nsyms lc).value * sizeofNlist64 ≤ file.size →
      lc + 24 ≤ file.size ∧ ((file.stroff lc).value + (file.strsize lc).value ≤ file.size →
        ∀ i < (file.nsyms lc).value, SymbolFits file (file.symoff lc).value
          (file.stroff lc).value (file.strsize lc).value i))

/-- The symbol table command that is used fits. -/
def SymbolsFit : Prop := ∀ lc, SymtabAt file lc → SymtabFits file lc

variable {file} {symbols strtab strsize i : ℕ} {entries : List SymEntry}

theorem inside_symsPush_iff {address : Addr} {type : Char} {name : ℕ} (hname : name < file.size) :
    (symsPush file entries address type name).Inside file.size ↔
      ((symNameInteresting file name type).value = true →
        ∃ q, name ≤ q ∧ q < file.size ∧ file.data q = 0) := by
  have hlt := file.size_lt
  have hinteresting : (symNameInteresting file name type).Inside file.size := by
    rw [symNameInteresting, inside_bind, inside_byte, inside_ite, inside_ite, inside_ite]
    simp only [inside_pure, implies_true, and_true]
    exact hname
  rw [symsPush, inside_bind, inside_ite, inside_bind]
  simp only [inside_pure, and_true, implies_true, hinteresting, true_and]
  exact imp_congr_right fun _ => inside_cstr_iff (Nat.le_of_lt hname) (by omega)

theorem inside_symbolRound_iff (hsymbol : symbols + sizeofNlist64 * i + 16 ≤ file.size)
    (hstrtab : strtab + strsize ≤ file.size) :
    (symbolRound file symbols strtab strsize i entries).Inside file.size ↔
      SymbolFits file symbols strtab strsize i := by
  have htype : (file.nType (symbols + sizeofNlist64 * i)).Inside file.size :=
    (inside_byte _).mpr (by omega)
  have hstrx : (file.nStrx (symbols + sizeofNlist64 * i)).Inside file.size :=
    (inside_word_iff (by decide)).mpr (by omega)
  have hvalue : (file.nValue (symbols + sizeofNlist64 * i)).Inside file.size :=
    (inside_word_iff (by decide)).mpr (by omega)
  rw [symbolRound, inside_bind, inside_ite, inside_bind, inside_ite, inside_bind, inside_bind]
  simp only [inside_pure, htype, hstrx, hvalue, true_and, and_true, implies_true, not_not,
    ge_iff_le, Nat.not_le]
  refine imp_congr_right fun _ => imp_congr_right fun hlt => ?_
  exact inside_symsPush_iff (by omega)

/-- The loop over the symbols is left by no round. -/
theorem stateAt_symbols : ∀ k, ∃ t,
    stateAt (symbolRound file symbols strtab strsize) entries k = some t := by
  intro k
  induction k with
  | zero => exact ⟨entries, rfl⟩
  | succ k ih =>
    obtain ⟨t, ht⟩ := ih
    cases hround : (symbolRound file symbols strtab strsize k t).value with
    | inl u => exact ⟨u, by rw [stateAt, ht, Option.bind_some, hround]; rfl⟩
    | inr r => exact r.elim

theorem inside_symbolLoop_iff {n : ℕ} (hsymbols : symbols + n * sizeofNlist64 ≤ file.size)
    (hstrtab : strtab + strsize ≤ file.size) :
    (forLoop (symbolRound file symbols strtab strsize) n 0 entries).Inside file.size ↔
      ∀ i < n, SymbolFits file symbols strtab strsize i := by
  have hsymbol : ∀ i < n, symbols + sizeofNlist64 * i + 16 ≤ file.size := fun i hi => by
    simp only [sizeofNlist64] at hsymbols ⊢
    omega
  rw [inside_forLoop_iff]
  refine forall₂_congr fun i hi => ⟨fun h => ?_, fun h t _ => ?_⟩
  · obtain ⟨t, ht⟩ := @stateAt_symbols file symbols strtab strsize entries i
    exact (inside_symbolRound_iff (hsymbol i hi) hstrtab).mp (h t ht)
  · exact (inside_symbolRound_iff (hsymbol i hi) hstrtab).mpr h

theorem inside_loadSymbols_iff {lc : ℕ} :
    (loadSymbols file entries lc).Inside file.size ↔ SymtabFits file lc := by
  have hnsyms : (file.nsyms lc).Inside file.size ↔ lc + 16 ≤ file.size :=
    inside_word_iff (by decide)
  have hsymoff : (file.symoff lc).Inside file.size ↔ lc + 12 ≤ file.size :=
    inside_word_iff (by decide)
  have hstroff : (file.stroff lc).Inside file.size ↔ lc + 20 ≤ file.size :=
    inside_word_iff (by decide)
  have hstrsize : (file.strsize lc).Inside file.size ↔ lc + 24 ≤ file.size :=
    inside_word_iff (by decide)
  rw [loadSymbols, inside_bind, inside_ite, inside_bind, inside_ite, inside_bind, inside_bind,
    inside_ite, inside_bind, hnsyms, hsymoff, hstroff, hstrsize]
  constructor
  · rintro ⟨hcount, -, h⟩
    refine ⟨hcount, fun hne hsymbols => ?_⟩
    obtain ⟨-, hcommand, -, h⟩ := (h hne).2.2 (Nat.not_lt.mpr hsymbols)
    refine ⟨hcommand, fun hstrings => ?_⟩
    exact (inside_symbolLoop_iff hsymbols hstrings).mp (h (Nat.not_lt.mpr hstrings)).1
  · rintro ⟨hcount, h⟩
    refine ⟨hcount, fun _ => inside_pure _, fun hne => ⟨by omega, fun _ => inside_pure _,
      fun hsymbols => ?_⟩⟩
    have hsymbols := Nat.not_lt.mp hsymbols
    obtain ⟨hcommand, h⟩ := h hne hsymbols
    refine ⟨by omega, hcommand, fun _ => inside_pure _, fun hstrings => ⟨?_, ?_⟩⟩
    · have hstrings := Nat.not_lt.mp hstrings
      exact (inside_symbolLoop_iff hsymbols hstrings).mpr (h hstrings)
    · split
      next entries _ => exact inside_pure _
      next r _ => exact r.elim

/-- What the loop over the load commands has found behind the first `k`. -/
def LastSymtab (file : MappedFile) (k : ℕ) : Option ℕ → Prop
  | none => ∀ i < k, cmdAt file i ≠ lcSymtab
  | some lc => ∃ j < k, cmdAt file j = lcSymtab ∧ lc = commandAt file j ∧
      ∀ i, j < i → i < k → cmdAt file i ≠ lcSymtab

theorem LastSymtab.next {k : ℕ} {symtab : Option ℕ} (h : LastSymtab file k symtab) :
    LastSymtab file (k + 1)
      (if cmdAt file k = lcSymtab then some (commandAt file k) else symtab) := by
  by_cases hcmd : cmdAt file k = lcSymtab
  · rw [if_pos hcmd]
    exact ⟨k, Nat.lt_succ_self k, hcmd, rfl,
      fun i hlt hi => absurd (Nat.le_of_lt_succ hi) (Nat.not_le.mpr hlt)⟩
  rw [if_neg hcmd]
  cases symtab with
  | none => exact Nat.forall_lt_succ_right.mpr ⟨h, hcmd⟩
  | some lc =>
    obtain ⟨j, hj, hsymtab, rfl, hlast⟩ := h
    refine ⟨j, Nat.lt_succ_of_lt hj, hsymtab, rfl, fun i hlt hi => ?_⟩
    rcases Nat.lt_succ_iff_lt_or_eq.mp hi with hi | rfl
    · exact hlast i hlt hi
    · exact hcmd

/-- When the loop ends, the commands that are begun are those before its last round. -/
theorem LastSymtab.symtabAt_iff {k : ℕ} {symtab : Option ℕ} (h : LastSymtab file k symtab)
    (hbegun : ∀ i, Begun file i ↔ i < k) {lc : ℕ} : symtab = some lc ↔ SymtabAt file lc := by
  constructor
  · rintro rfl
    obtain ⟨j, hj, hsymtab, rfl, hlast⟩ := h
    exact ⟨j, (hbegun j).mpr hj, hsymtab, rfl, fun i hlt hi => hlast i hlt ((hbegun i).mp hi)⟩
  · rintro ⟨j, hj, hsymtab, rfl, hlast⟩
    have hj := (hbegun j).mp hj
    cases symtab with
    | none => exact absurd hsymtab (h j hj)
    | some lc =>
      obtain ⟨j', hj', hsymtab', rfl, hlast'⟩ := h
      -- there is only one last one
      rcases Nat.lt_trichotomy j j' with hlt | rfl | hlt
      · exact absurd hsymtab' (hlast j' hlt ((hbegun j').mpr hj'))
      · rfl
      · exact absurd hsymtab (hlast' j hlt hj)

theorem stateAt_symtab : ∀ {k : ℕ} {p : ℕ × Option ℕ},
    stateAt (commandRound file symtabCommand id) (sizeofMachHeader64, none) k = some p →
      LastSymtab file k p.2 := by
  intro k
  induction k with
  | zero =>
    intro p h
    obtain rfl := Option.some.inj h
    exact fun i hi => absurd hi (Nat.not_lt_zero i)
  | succ k ih =>
    intro p h
    obtain ⟨⟨cursor, symtab⟩, hq, hround⟩ := Option.bind_eq_some_iff.mp h
    obtain rfl := (stateAt_commandRound hq).1
    have hbody := (commandRound_inl (Sum.getLeft?_eq_some_iff.mp hround)).2.2
    rw [← Sum.inl.inj hbody]
    exact (ih hq).next

/-- The loop over the load commands finds the last symbol table command. -/
theorem findSymtab_value_iff {lc : ℕ} : (findSymtab file).value = some lc ↔ SymtabAt file lc := by
  rw [findSymtab, walkCommands, value_bind, value_bind]
  rcases @value_forLoop (ℕ × Option ℕ) (Option ℕ) (commandRound file symtabCommand id)
    (sizeofMachHeader64, none) file.ncmds.value with
      ⟨p, hvalue, hstate⟩ | ⟨k, hk, p, r, hvalue, hstate, hround⟩
  · have hfits := (stateAt_commandRound hstate).2
    rw [hvalue]
    exact (stateAt_symtab hstate).symtabAt_iff fun i =>
      ⟨fun h => h.1, fun hi => ⟨hi, fun j hj => hfits j (Nat.lt_of_le_of_lt hj hi)⟩⟩
  · obtain ⟨hcursor, hfits⟩ := stateAt_commandRound hstate
    -- the body leaves the loop with no result of its own
    have hstop : ¬ p.1 + sizeofLoadCommand ≤ file.size := fun hle =>
      nomatch (value_commandRound hle k).symm.trans hround
    have hresult : p.2 = r := by
      rw [commandRound, if_pos (Nat.not_le.mp hstop)] at hround
      exact Sum.inr.inj hround
    rw [hvalue]
    have hbegun : ∀ i, Begun file i ↔ i < k := by
      refine fun i => ⟨fun h => Nat.not_le.mp fun hle => ?_, fun hi =>
        ⟨Nat.lt_trans hi hk, fun j hj => hfits j (Nat.lt_of_le_of_lt hj hi)⟩⟩
      exact hstop (hcursor ▸ h.2 k hle)
    exact hresult ▸ (stateAt_symtab hstate).symtabAt_iff hbegun

theorem inside_findSymtab (hsize : sizeofMachHeader64 ≤ file.size) :
    (findSymtab file).Inside file.size :=
  (inside_walkCommands_iff hsize).mpr fun _ _ _ _ => inside_pure _

end Symbols

/-! ### The whole reader -/

section Reader

variable {file : MappedFile}

/-- The file has a header of a Mach-O file. -/
def HasHeader (file : MappedFile) : Prop :=
  sizeofMachHeader64 ≤ file.size ∧ file.magic.value = mhMagic64

theorem isMachO_value_iff : (isMachO file).value = true ↔ HasHeader file := by
  rw [isMachO, HasHeader]
  by_cases hsize : file.size < sizeofMachHeader64
  · rw [if_pos hsize]
    exact iff_of_false Bool.false_ne_true fun h => absurd hsize (Nat.not_lt.mpr h.1)
  · rw [if_neg hsize, value_bind]
    exact ⟨fun h => ⟨Nat.not_lt.mp hsize, of_decide_eq_true h⟩, fun h => decide_eq_true h.2⟩

theorem inside_isMachO : (isMachO file).Inside file.size := by
  rw [isMachO, inside_ite, inside_bind]
  refine ⟨fun _ => inside_pure _, fun hsize => ⟨?_, inside_pure _⟩⟩
  refine (inside_word_iff (by decide)).mpr ?_
  exact Nat.le_trans (by decide) (Nat.not_lt.mp hsize)

/-- What is done behind the header. -/
theorem inside_behind_header_iff {α : Type} {r : Reading α} {a : α} :
    (do if ← isMachO file then r else return a : Reading α).Inside file.size ↔
      (HasHeader file → r.Inside file.size) := by
  rw [inside_bind, inside_ite, isMachO_value_iff]
  exact ⟨fun h => h.2.1, fun h => ⟨inside_isMachO, h, fun _ => inside_pure a⟩⟩

theorem inside_symsLoadMacho_iff {entries : List SymEntry} :
    (symsLoadMacho file entries).Inside file.size ↔ (HasHeader file → SymbolsFit file) := by
  rw [symsLoadMacho, inside_behind_header_iff]
  refine imp_congr_right fun hheader => ?_
  rw [inside_bind, SymbolsFit]
  simp only [inside_findSymtab hheader.1, true_and, ← findSymtab_value_iff]
  cases (findSymtab file).value with
  | none => exact iff_of_true (inside_pure _) fun lc h => nomatch h
  | some symtab =>
    exact inside_loadSymbols_iff.trans
      ⟨fun h lc hlc => Option.some.inj hlc ▸ h, fun h => h symtab rfl⟩

/-- The three functions read only bytes inside the file exactly when, if there is a header, the
segments up to the text segment, those up to the section that is looked for and the symbol table
are in the file as far as they are looked at. -/
theorem macho_inside_iff (file : MappedFile) (segname sectname : List UInt8)
    (entries : List SymEntry) :
    ((machoFindSection file segname sectname).Inside file.size ∧
        (machoTextVmaddr file).Inside file.size ∧
        (symsLoadMacho file entries).Inside file.size) ↔
      (HasHeader file → SectionsFit file segname sectname ∧ TextFits file ∧ SymbolsFit file) := by
  rw [machoFindSection, inside_behind_header_iff, machoTextVmaddr, inside_behind_header_iff,
    inside_symsLoadMacho_iff]
  constructor
  · rintro ⟨hsections, htext, hsymbols⟩ hheader
    exact ⟨(inside_machoFindSection_iff hheader.1).mp (hsections hheader),
      (inside_machoTextVmaddr_iff hheader.1).mp (htext hheader), hsymbols hheader⟩
  · intro h
    exact ⟨fun hheader => (inside_machoFindSection_iff hheader.1).mpr (h hheader).1,
      fun hheader => (inside_machoTextVmaddr_iff hheader.1).mpr (h hheader).2.1,
      fun hheader => (h hheader).2.2⟩

end Reader

/-- A header that counts one load command, and the first 8 bytes of a segment command. -/
def cutSegment : List UInt8 :=
  [0xcf, 0xfa, 0xed, 0xfe, 0, 0, 0, 0, 0, 0, 0, 0, 0, 0, 0, 0, 1, 0, 0, 0, 0, 0, 0, 0, 0, 0, 0, 0,
    0, 0, 0, 0, 0x19, 0, 0, 0, 8, 0, 0, 0]

def cutSegmentFile : MappedFile :=
  { data := fun p => cutSegment.getD p 0, size := 40, size_lt := by decide }

/-- The number of sections is read behind the end of the file. -/
theorem machoFindSection_outside : ¬ ((machoFindSection cutSegmentFile textName textName).Inside
      cutSegmentFile.size ∧ (machoTextVmaddr cutSegmentFile).Inside cutSegmentFile.size ∧
    (symsLoadMacho cutSegmentFile []).Inside cutSegmentFile.size) := by
  rintro ⟨h, -, -⟩
  have hread : 96 ∈ (machoFindSection cutSegmentFile textName textName).reads := by decide +kernel
  exact absurd (h 96 hread) (by decide)

end Debugger
