/-
The names of symbols: as they are loaded (`sym_name_interesting`), as they are shown
(`display_sym_name`) and as they are typed (`cdbg_syms_lookup_name`).

The loader stores only names that begin with a printed character (`symsLoadMacho_interesting`).
A name is shown without its first underscore and looked up with one in front of it, unless it has
one already; so a name that is shown finds its symbol exactly if it has a single underscore
(`typed_back_iff`).
-/
import Debugger.MachO
import Mathlib.Data.List.Nodup

open Prog Reading

namespace Debugger

/-! ### The names that are loaded -/

/-- `sym_name_interesting`, of a symbol that is stored. -/
def SymEntry.interesting (sym : SymEntry) : Bool :=
  match sym.name with
  | [] => false
  | c :: _ =>
    if sym.type = '?' ∨ sym.type = '-' then false
    else if c = '.' ∨ c = 'L' then false
    else 0x20 ≤ c.toNat ∧ c.toNat ≤ 0x7e

section Loaded

variable {file : MappedFile} {entries : List SymEntry}

theorem toNat_ofNat_byte (b : UInt8) : (Char.ofNat b.toNat).toNat = b.toNat := by
  have hvalid : b.toNat.isValidChar := .inl (Nat.lt_trans b.toNat_lt (by decide))
  rw [Char.ofNat, dif_pos hvalid]
  rfl

/-- A name that begins with the byte that passes the test passes it, too. -/
theorem interesting_of_byte {address : Addr} {type : Char} {name : ℕ} {rest : CStr}
    (h : (symNameInteresting file name type).value = true) :
    SymEntry.interesting ⟨address, type, Char.ofNat (file.data name).toNat :: rest⟩ = true := by
  have hbyte := toNat_ofNat_byte (file.data name)
  rw [symNameInteresting, value_bind, value_byte, value_ite, value_ite, value_ite] at h
  simp only [value_pure, Bool.if_false_left, Bool.and_eq_true, Bool.not_eq_true',
    decide_eq_false_iff_not, decide_eq_true_eq] at h
  obtain ⟨-, htype, hdot, hlow, hhigh⟩ := h
  have hne : ∀ c : Char, (file.data name).toNat ≠ c.toNat →
      Char.ofNat (file.data name).toNat ≠ c := fun c hc heq => hc (by rw [← heq, hbyte])
  rw [not_or] at hdot
  rw [SymEntry.interesting]
  dsimp only
  rw [if_neg htype, if_neg, hbyte, decide_eq_true_eq]
  · exact ⟨UInt8.le_iff_toNat_le.mp hlow, UInt8.le_iff_toNat_le.mp hhigh⟩
  · rw [not_or]
    exact ⟨hne _ fun heq => hdot.1 (UInt8.toNat_inj.mp heq),
      hne _ fun heq => hdot.2 (UInt8.toNat_inj.mp heq)⟩

theorem symsPush_interesting {address : Addr} {type : Char} {name : ℕ}
    (h : ∀ sym ∈ entries, sym.interesting) :
    ∀ sym ∈ (symsPush file entries address type name).value, sym.interesting := by
  rw [symsPush, value_bind]
  split
  · rename_i hinteresting
    -- an empty name is not interesting, so the text begins with the byte that was tested
    have hbyte : file.data name ≠ 0 := by
      intro hzero
      simp only [symNameInteresting, value_bind, value_byte, hzero, if_pos] at hinteresting
      cases hinteresting
    obtain ⟨rest, hrest⟩ := value_cstr_of_ne (n := 2 ^ 64) (by decide) hbyte
    intro sym hsym
    rw [value_bind, hrest] at hsym
    rcases List.mem_append.mp hsym with hold | hnew
    · exact h sym hold
    · rw [List.mem_singleton.mp hnew]
      exact interesting_of_byte hinteresting
  · exact h

theorem symbolRound_interesting {symbols strtab strsize i : ℕ} {entries' : List SymEntry}
    (h : ∀ sym ∈ entries, sym.interesting)
    (hround : (symbolRound file symbols strtab strsize i entries).value = .inl entries') :
    ∀ sym ∈ entries', sym.interesting := by
  rw [symbolRound, value_bind, value_ite, value_bind, value_ite] at hround
  split at hround
  · obtain rfl := Sum.inl.inj hround
    exact h
  split at hround
  · obtain rfl := Sum.inl.inj hround
    exact h
  · obtain rfl := Sum.inl.inj hround
    exact symsPush_interesting h

theorem loadSymbols_interesting {symtab : ℕ} (h : ∀ sym ∈ entries, sym.interesting) :
    ∀ sym ∈ (loadSymbols file entries symtab).value.2, sym.interesting := by
  rw [loadSymbols, value_bind, value_ite]
  split
  · exact h
  rw [value_bind, value_ite]
  split
  · exact h
  rw [value_bind, value_bind, value_ite]
  split
  · exact h
  rw [value_bind]
  generalize (file.symoff symtab).value = symbols, (file.nsyms symtab).value = nsyms
  rcases @value_forLoop (List SymEntry) Empty
      (symbolRound file symbols (file.stroff symtab).value (file.strsize symtab).value) entries
      nsyms with ⟨entries', hvalue, hstate⟩ | ⟨-, -, -, r, -⟩
  · rw [hvalue]
    exact stateAt_inv h (fun _ _ _ => symbolRound_interesting) hstate
  · exact nomatch r

/-- All symbols that `syms_load_macho` adds are interesting. -/
theorem symsLoadMacho_interesting (h : ∀ sym ∈ entries, sym.interesting) :
    ∀ sym ∈ (symsLoadMacho file entries).value.2, sym.interesting := by
  rw [symsLoadMacho, value_bind, value_ite]
  split
  · rw [value_bind]
    cases (findSymtab file).value with
    | none => exact h
    | some symtab => exact loadSymbols_interesting h
  · exact h

end Loaded

/-! ### The names that are shown -/

/-- `display_sym_name` -/
def displaySymName : Option SymEntry → CStr
  | none => "??".toList
  | some sym =>
    match sym.name with
    | '_' :: c :: cs => c :: cs
    | name => name

/-- A symbol table with names that the loader accepts, no two of which are the same, and none of
which is cut off. -/
structure Syms.Named (syms : Syms) : Prop where
  interesting : ∀ sym ∈ syms.entries, sym.interesting
  short : ∀ sym ∈ syms.entries, sym.name.length ≤ 254
  distinct : (syms.entries.map (·.name)).Nodup

section Shown

variable {syms : Syms} {sym : SymEntry}

/-- Where the names are distinct, a symbol is found exactly by its name. -/
theorem Syms.Named.find?_iff (h : syms.Named) (hsym : sym ∈ syms.entries) {key : CStr} :
    syms.entries.find? (·.name = key) = some sym ↔ sym.name = key := by
  have hmatch : ∀ found, syms.entries.find? (·.name = key) = some found → found.name = key :=
    fun found hfind => by simpa using List.find?_some hfind
  constructor
  · exact hmatch sym
  · intro hname
    have hsome : (syms.entries.find? (·.name = key)).isSome := by
      rw [List.find?_isSome]
      exact ⟨sym, hsym, decide_eq_true hname⟩
    obtain ⟨found, hfound⟩ := Option.isSome_iff_exists.mp hsome
    rw [hfound, List.inj_on_of_nodup_map h.distinct (List.mem_of_find?_eq_some hfound) hsym
      ((hmatch found hfound).trans hname.symm)]

theorem Syms.lookupName_underscore (rest : CStr) :
    syms.lookupName ('_' :: rest) = syms.entries.find? (·.name = '_' :: rest) := rfl

/-- A name without an underscore is looked up with one. -/
theorem Syms.lookupName_of_ne {name : CStr} (hhead : name.head? ≠ some '_')
    (hlen : name.length ≤ 254) :
    syms.lookupName name = syms.entries.find? (·.name = '_' :: name) := by
  have hfits : ('_' :: name).length < symMaxName := by
    rw [List.length_cons, symMaxName]
    omega
  rw [lookupName]
  simp only [if_pos hhead, snprintf_of_lt hfits]

theorem lookupName_displaySymName_iff (hnamed : syms.Named) (hsym : sym ∈ syms.entries) :
    syms.lookupName (displaySymName (some sym)) = some sym ↔
      sym.name = ['_'] ∨ ∃ c cs, sym.name = '_' :: c :: cs ∧ c ≠ '_' := by
  have hlen := hnamed.short sym hsym
  rw [displaySymName]
  split
  case h_1 c cs hname =>
    rw [hname] at hlen ⊢
    by_cases hc : c = '_'
    · -- the second underscore is taken for the one that is added
      rw [hc, Syms.lookupName_underscore, hnamed.find?_iff hsym, hname, hc]
      simp
    · -- lookup puts back what display has taken away
      have hhead : (c :: cs).head? ≠ some '_' := fun h => hc (Option.some.inj h)
      rw [Syms.lookupName_of_ne hhead (Nat.le_of_succ_le hlen), hnamed.find?_iff hsym, hname]
      exact iff_of_true rfl (.inr ⟨c, cs, rfl, hc⟩)
  case h_2 hname =>
    by_cases hone : sym.name = ['_']
    · rw [hone, Syms.lookupName_underscore, hnamed.find?_iff hsym]
      exact iff_of_true hone (.inl rfl)
    · -- no underscore is taken away, but one is added
      have hhead : sym.name.head? ≠ some '_' := by
        intro h
        obtain ⟨rest, hrest⟩ := List.head?_eq_some_iff.mp h
        cases rest with
        | nil => exact hone hrest
        | cons c cs => exact hname c cs hrest
      rw [Syms.lookupName_of_ne hhead hlen, hnamed.find?_iff hsym]
      refine iff_of_false (List.cons_ne_self _ _).symm ?_
      rintro (h | ⟨c, cs, h, -⟩)
      · exact hone h
      · exact hname c cs h

/-- The name that is shown finds its symbol exactly if it is a single underscore, or has exactly
one in front; and whatever an image adds to the table, its names stay such as are accepted. -/
theorem typed_back_iff (hnamed : syms.Named) (hsym : sym ∈ syms.entries) :
    (syms.lookupName (displaySymName (some sym)) = some sym ↔
      sym.name = ['_'] ∨ ∃ c cs, sym.name = '_' :: c :: cs ∧ c ≠ '_') ∧
    ∀ file : MappedFile, ∀ loaded ∈ (symsLoadMacho file syms.entries).value.2, loaded.interesting :=
  ⟨lookupName_displaySymName_iff hnamed hsym,
    fun _ => symsLoadMacho_interesting hnamed.interesting⟩

end Shown

/-- Names with one, two and no underscores. -/
def underscores : Syms where
  entries := [⟨0x1000, 'T', "_foo".toList⟩, ⟨0x1010, 'T', "__foo".toList⟩,
    ⟨0x1020, 't', "bar".toList⟩]

theorem underscores_named : underscores.Named := ⟨by decide, by decide, by decide⟩

/-- The name of `__foo` as it is shown is that of `_foo`, and that of `bar` is none. -/
theorem other_name_typed_back :
    underscores.Named ∧
    (⟨0x1010, 'T', "__foo".toList⟩ : SymEntry) ∈ underscores.entries ∧
    underscores.lookupName (displaySymName (some ⟨0x1010, 'T', "__foo".toList⟩)) =
      some ⟨0x1000, 'T', "_foo".toList⟩ ∧
    (⟨0x1020, 't', "bar".toList⟩ : SymEntry) ∈ underscores.entries ∧
    underscores.lookupName (displaySymName (some ⟨0x1020, 't', "bar".toList⟩)) = none :=
  ⟨underscores_named, by decide, by decide, by decide, by decide⟩

/-- The name of `_foo` finds it. -/
theorem typed_back_foo :
    underscores.lookupName (displaySymName (some ⟨0x1000, 'T', "_foo".toList⟩)) =
      some ⟨0x1000, 'T', "_foo".toList⟩ :=
  (typed_back_iff underscores_named (by decide)).1.mpr
    (.inr ⟨'f', "oo".toList, by decide, by decide⟩)

end Debugger
