/-
Where `break` plants its breakpoint: `cmd_break` on a function, on a line of a file, and on the
targets that it shares with `dis` (`resolve_dis_target`).

* `break_in_function_iff` — skipping the prologue stays inside of the function exactly if the next
  line of its file does not begin behind the function;
* `file_line_picks_iff` — a line of a file is one of the file that is named exactly if no other
  path that contains the name has a lower row of the line;
* `break_dis_agree_iff` — `break` and `dis` mean the same line as long as its number fits into 32
  bits, but `dis` takes an address for a line number.
-/
import Debugger.Restart
import Debugger.LineLookups
import Debugger.Dwarfdump

open Prog Scan

namespace Debugger

/-! ### A function -/

/-- The target has no part behind a colon. -/
def NoFilePart (target : CStr) : Prop :=
  ∀ filePart c cs, strrchr ':' target ≠ some (filePart, c :: cs)

/-- The target is neither a number nor has the form `file:line`. -/
def IsFunctionName (target : CStr) : Prop :=
  parseU64 target = none ∧ ∀ filePart c cs, strrchr ':' target ≠ some (filePart, c :: cs)

/-- A target without a colon is a number or a name. -/
theorem resolveBreak_of_noFilePart {d : Cdbg} {target : CStr} (h : NoFilePart target) :
    resolveBreak d target =
      match parseU64 target with
      | some parsed => some (resolveBreakNumber d target parsed)
      | none => resolveBreakSymbol d target := by
  rw [resolveBreak]
  split
  · rename_i filePart c cs heq
    exact absurd heq (h filePart c cs)
  · rfl

theorem resolveBreak_of_isFunctionName {d : Cdbg} {target : CStr} (h : IsFunctionName target) :
    resolveBreak d target = resolveBreakSymbol d target := by
  rw [resolveBreak_of_noFilePart h.2, h.1]

/-- What `cmd_break` has found when it succeeds. -/
theorem resolveBreak_of_cmdBreak {target : CStr} {s s' : Sys}
    (h : (cmdBreak target).run s = (0, s')) : ∃ bp,
      s'.dbg.breakpoints = s.dbg.breakpoints ++ [bp] ∧
        resolveBreak s.dbg target = some bp.addr := by
  obtain ⟨bp, hd, -, -, hres⟩ := ((wp_of_run h).mp (cmdBreak_entry target)).2 rfl
  exact ⟨bp, by rw [hd], hres⟩

section Function

variable {d : Cdbg} {f : SymEntry} {row : LineEntry}

/-- The address of a function symbol with a row at its entry: that of the next line, if there is
one, and the entry otherwise. -/
theorem resolveBreakSymbol_eq {target : CStr} (hsym : d.syms.lookupName target = some f)
    (htext : f.isText) :
    resolveBreakSymbol d target = some
      (((d.lineno.lookupNextLineAfterPc (d.syms.runtimeAddr f.address)).map
        fun e => d.lineno.runtimeAddr e.address).getD (d.syms.runtimeAddr f.address)) := by
  -- `T` and `t` are neither `U` nor `u`
  have hdefined : f.undefined = false := by
    simp only [SymEntry.isText, Bool.and_eq_true, Bool.or_eq_true, decide_eq_true_eq, ne_eq]
      at htext
    obtain ⟨haddr, htype⟩ := htext
    rcases htype with htype | htype <;> simp [SymEntry.undefined, haddr, htype]
  rw [resolveBreakSymbol, hsym]
  dsimp only
  rw [hdefined, if_neg Bool.false_ne_true]
  cases d.lineno.lookupNextLineAfterPc (d.syms.runtimeAddr f.address) <;> rfl

/-- A row above the entry of the function that has the file, but not the line, of the row at the
entry. -/
def LaterLine (f : SymEntry) (row e : LineEntry) : Prop :=
  f.address < e.address ∧ e.file = row.file ∧ e.line ≠ row.line

/-- All addresses of the two tables, at run time, are where their slide moves them. -/
structure SameSlide (d : Cdbg) : Prop where
  slide_eq : d.lineno.slide = d.syms.slide
  noWrap : NoWrap d.syms.slide
    (d.lineno.entries.map (·.address) ++ d.syms.entries.map (·.address))

theorem SameSlide.lt_iff (h : SameSlide d) {a b : Addr}
    (ha : a ∈ d.lineno.entries.map (·.address) ++ d.syms.entries.map (·.address))
    (hb : b ∈ d.lineno.entries.map (·.address) ++ d.syms.entries.map (·.address)) :
    d.syms.runtimeAddr a < d.syms.runtimeAddr b ↔ a < b := by
  rw [← UInt64.not_le, ← UInt64.not_le, Syms.runtimeAddr, Syms.runtimeAddr,
    h.noWrap.add_le_add hb ha]

theorem mem_addresses_row {e : LineEntry} (he : e ∈ d.lineno.entries) :
    e.address ∈ d.lineno.entries.map (·.address) ++ d.syms.entries.map (·.address) :=
  List.mem_append_left _ (List.mem_map_of_mem he)

theorem mem_addresses_symbol {g : SymEntry} (hg : g ∈ d.syms.entries) :
    g.address ∈ d.lineno.entries.map (·.address) ++ d.syms.entries.map (·.address) :=
  List.mem_append_right _ (List.mem_map_of_mem hg)

theorem SameSlide.runtimeAddr_eq (h : SameSlide d) (a : Addr) :
    d.lineno.runtimeAddr a = d.syms.runtimeAddr a := by
  rw [Lineno.runtimeAddr, Syms.runtimeAddr, h.slide_eq]

/-- The next line after the entry of the function is the lowest one of the later lines. -/
theorem nextLine_best (h : SameSlide d) (hf : f ∈ d.syms.entries)
    (hrow : d.lineno.entries.find? (·.address = f.address) = some row) :
    Best (fun m e => m.address ≤ e.address) (LaterLine f row) d.lineno.entries
      (d.lineno.lookupNextLineAfterPc (d.syms.runtimeAddr f.address)) := by
  have hcurrent : d.lineno.lookupPc (d.syms.runtimeAddr f.address) = some row := by
    rw [← h.runtimeAddr_eq]
    exact Lineno.lookupPc_runtimeAddr hrow
  refine (d.lineno.lookupNextLineAfterPc_best _).congr (fun e he => ?_) fun _ _ _ _ hle => hle
  have habove : d.syms.runtimeAddr f.address < d.lineno.runtimeAddr e.address ↔
      f.address < e.address := by
    rw [h.runtimeAddr_eq]
    exact h.lt_iff (mem_addresses_symbol hf) (mem_addresses_row he)
  rw [Lineno.IsNextLine, LaterLine, habove, hcurrent]
  simp

/-- The breakpoint that has been planted is the last one. -/
theorem exists_planted_iff {bps bps' : List Breakpoint} {bp : Breakpoint} {P : Breakpoint → Prop}
    (h : bps' = bps ++ [bp]) : (∃ bp', bps' = bps ++ [bp'] ∧ P bp') ↔ P bp := by
  constructor
  · rintro ⟨bp', hbps', hbp'⟩
    have hlast := List.append_cancel_left (hbps'.symm.trans h)
    exact (List.cons.inj hlast).1 ▸ hbp'
  · exact fun hbp => ⟨bp, h, hbp⟩

/-- A breakpoint on a function whose entry has a row is at or behind its entry, and it is in front
of all functions behind it exactly if each of these that comes before a later line of the file has
a later line in front of it, too. -/
theorem break_in_function_iff {s s' : Sys} {target : CStr} (htarget : IsFunctionName target)
    (hsym : s.dbg.syms.lookupName target = some f) (htext : f.isText) (hslide : SameSlide s.dbg)
    (hrow : s.dbg.lineno.entries.find? (·.address = f.address) = some row)
    (hrun : (cmdBreak target).run s = (0, s')) :
    (∃ bp, s'.dbg.breakpoints = s.dbg.breakpoints ++ [bp] ∧
      s.dbg.syms.runtimeAddr f.address ≤ bp.addr ∧
      ∀ g ∈ s.dbg.syms.entries, g.isText →
        s.dbg.syms.runtimeAddr f.address < s.dbg.syms.runtimeAddr g.address →
          bp.addr < s.dbg.syms.runtimeAddr g.address) ↔
      ∀ g ∈ s.dbg.syms.entries, g.isText → f.address < g.address →
        (∃ e ∈ s.dbg.lineno.entries, LaterLine f row e) →
          ∃ e ∈ s.dbg.lineno.entries, LaterLine f row e ∧ e.address < g.address := by
  have hf : f ∈ s.dbg.syms.entries := List.mem_of_find?_eq_some hsym
  have hbest := nextLine_best hslide hf hrow
  obtain ⟨bp, hbps, hres⟩ := resolveBreak_of_cmdBreak hrun
  rw [resolveBreak_of_isFunctionName htarget, resolveBreakSymbol_eq hsym htext] at hres
  -- from here on it is about the address that has been resolved
  rw [exists_planted_iff hbps]
  have hbehind : ∀ g ∈ s.dbg.syms.entries,
      (s.dbg.syms.runtimeAddr f.address < s.dbg.syms.runtimeAddr g.address ↔
        f.address < g.address) :=
    fun g hg => hslide.lt_iff (mem_addresses_symbol hf) (mem_addresses_symbol hg)
  cases hnext : s.dbg.lineno.lookupNextLineAfterPc (s.dbg.syms.runtimeAddr f.address) with
  | none =>
    rw [hnext] at hres
    have haddr : bp.addr = s.dbg.syms.runtimeAddr f.address := (Option.some.inj hres).symm
    rw [haddr]
    refine iff_of_true ⟨UInt64.le_refl _, fun g _ _ hfg => hfg⟩ fun g _ _ _ hlater => ?_
    obtain ⟨e, he, hlater⟩ := hlater
    exact absurd hlater (hbest.none_iff.mp hnext e he)
  | some m =>
    rw [hnext] at hres
    obtain ⟨hm, hlater, hleast⟩ := hbest.best m hnext
    have haddr : bp.addr = s.dbg.syms.runtimeAddr m.address := by
      rw [← hslide.runtimeAddr_eq]
      exact (Option.some.inj hres).symm
    have hfront : ∀ g ∈ s.dbg.syms.entries,
        (s.dbg.syms.runtimeAddr m.address < s.dbg.syms.runtimeAddr g.address ↔
          m.address < g.address) :=
      fun g hg => hslide.lt_iff (mem_addresses_row hm) (mem_addresses_symbol hg)
    rw [haddr]
    constructor
    · rintro ⟨-, hlt⟩ g hg hgtext hfg -
      exact ⟨m, hm, hlater,
        (hfront g hg).mp (hlt g hg hgtext ((hbehind g hg).mpr hfg))⟩
    · intro hcond
      have hle := (hslide.lt_iff (mem_addresses_symbol hf) (mem_addresses_row hm)).mpr hlater.1
      refine ⟨UInt64.le_of_lt hle, fun g hg hgtext hfg => (hfront g hg).mpr ?_⟩
      -- the lowest later line is not behind the one that is in front of `g`
      obtain ⟨e, he, heLater, heg⟩ :=
        hcond g hg hgtext ((hbehind g hg).mp hfg) ⟨m, hm, hlater⟩
      exact UInt64.lt_of_le_of_lt (hleast e he heLater) heg

end Function

/-- A process whose program has a function `f` at `0x1000` and one `g` at `0x1010`, with the rows
of a line table. -/
def twoFunctions (rows : List LineEntry) : Sys :=
  let s := Sys.rerunnable fun _ => .stopped 5 []
  { s with
    dbg := { s.dbg with
      syms := { entries := [⟨0x1000, 'T', "_f".toList⟩, ⟨0x1010, 'T', "_g".toList⟩] }
      lineno := { entries := rows } } }

/-- `f` has one line. -/
def oneLineRows : List LineEntry :=
  [⟨0x1000, 10, 0, "a.c".toList⟩, ⟨0x1010, 20, 0, "a.c".toList⟩]

/-- `f` has two lines. -/
def twoLineRows : List LineEntry :=
  [⟨0x1000, 10, 0, "a.c".toList⟩, ⟨0x1008, 11, 0, "a.c".toList⟩, ⟨0x1010, 20, 0, "a.c".toList⟩]

theorem isFunctionName_f : IsFunctionName "f".toList :=
  ⟨by decide, fun _ _ _ h => nomatch h⟩

/-- The breakpoint on a function of one line is planted in the function behind it. -/
theorem break_in_next_function :
    IsFunctionName "f".toList ∧
    (twoFunctions oneLineRows).dbg.syms.lookupName "f".toList = some ⟨0x1000, 'T', "_f".toList⟩ ∧
    (⟨0x1000, 10, 0, "a.c".toList⟩ : LineEntry) ∈ (twoFunctions oneLineRows).dbg.lineno.entries ∧
    SameSlide (twoFunctions oneLineRows).dbg ∧
    (⟨0x1010, 'T', "_g".toList⟩ : SymEntry) ∈ (twoFunctions oneLineRows).dbg.syms.entries ∧
    (⟨0x1010, 'T', "_g".toList⟩ : SymEntry).isText = true ∧
    ((cmdBreak "f".toList).run (twoFunctions oneLineRows)).1 = 0 ∧
    ((cmdBreak "f".toList).run (twoFunctions oneLineRows)).2.dbg.breakpoints.map (·.addr) =
      [0x1010] ∧
    (twoFunctions oneLineRows).dbg.syms.runtimeAddr 0x1010 = 0x1010 :=
  ⟨isFunctionName_f, by decide, by decide, ⟨by decide, noWrap_of_all 0 (by decide)⟩, by decide,
    by decide, by decide +kernel, by decide +kernel, by decide⟩

/-- A function of two lines. -/
theorem break_in_function_twoLines :
    ∃ bp, ((cmdBreak "f".toList).run (twoFunctions twoLineRows)).2.dbg.breakpoints =
        (twoFunctions twoLineRows).dbg.breakpoints ++ [bp] ∧
      (twoFunctions twoLineRows).dbg.syms.runtimeAddr 0x1000 ≤ bp.addr ∧
      ∀ g ∈ (twoFunctions twoLineRows).dbg.syms.entries, g.isText →
        (twoFunctions twoLineRows).dbg.syms.runtimeAddr 0x1000 <
            (twoFunctions twoLineRows).dbg.syms.runtimeAddr g.address →
          bp.addr < (twoFunctions twoLineRows).dbg.syms.runtimeAddr g.address := by
  have hslide : SameSlide (twoFunctions twoLineRows).dbg := ⟨by decide, noWrap_of_all 0 (by decide)⟩
  refine (@break_in_function_iff ⟨0x1000, 'T', "_f".toList⟩ ⟨0x1000, 10, 0, "a.c".toList⟩
    (twoFunctions twoLineRows) _ _ isFunctionName_f (by decide) (by decide) hslide (by decide)
    (run_of_code (by decide +kernel))).mpr ?_
  rintro g hg - hfg -
  refine ⟨⟨0x1008, 11, 0, "a.c".toList⟩, by decide, ⟨by decide, by decide, by decide⟩, ?_⟩
  rcases List.mem_cons.mp hg with rfl | hg
  · exact absurd hfg (by decide)
  · obtain rfl := List.mem_singleton.mp hg
    decide

/-! ### A line of a file -/

/-- The last component of a path. -/
def baseName (path : CStr) : CStr :=
  match strrchr '/' path with
  | some (_, after) => after
  | none => path

theorem strrchr_eq_some {c : Char} {text before after : CStr}
    (h : strrchr c text = some (before, after)) : text = before ++ c :: after := by
  induction text generalizing before after with
  | nil => cases h
  | cons d text ih =>
    rw [strrchr] at h
    cases hrest : strrchr c text with
    | some r =>
      rw [hrest] at h
      obtain ⟨rfl, rfl⟩ := Prod.mk.inj (Option.some.inj h)
      rw [ih hrest, List.cons_append]
    | none =>
      rw [hrest] at h
      dsimp only at h
      split at h
      · rename_i hd
        obtain ⟨rfl, rfl⟩ := Prod.mk.inj (Option.some.inj h)
        rw [hd, List.nil_append]
      · cases h

theorem baseName_suffix (path : CStr) : baseName path <:+ path := by
  rw [baseName]
  split
  · rename_i before after heq
    exact ⟨before ++ ['/'], by rw [strrchr_eq_some heq, List.append_assoc]; rfl⟩
  · exact List.suffix_refl path

namespace Lineno

/-- A filter lets a file pass whose path contains it, whatever its last component is. -/
theorem fileMatches_iff {path file : CStr} :
    fileMatches path (some file) = true ↔ file <:+: path := by
  cases file with
  | nil => exact iff_of_true rfl List.nil_infix
  | cons c file =>
    have hmatch : fileMatches path (some (c :: file)) =
        (strstr path (c :: file) || decide (baseName path = c :: file)) := rfl
    rw [hmatch, Bool.or_eq_true, decide_eq_true_eq, strstr_iff]
    refine or_iff_left_of_imp fun h => ?_
    exact h ▸ (baseName_suffix path).isInfix

end Lineno

/-- The row is one of the line in a file of that name. -/
def NamedLine (file : CStr) (line : UInt32) (e : LineEntry) : Prop :=
  e.line = line ∧ baseName e.file = file

/-- A line of a file that has rows is looked up as a row of a file of that name exactly if each row
of the line in another file whose path contains the name is beaten by one of a file of that name:
by one with a lower address, or by one with the same address that stands in front of it. -/
theorem file_line_picks_iff (ln : Lineno) (file : CStr) (line : UInt32)
    (hrow : ∃ e ∈ ln.entries, NamedLine file line e) :
    (∃ m, ln.lookupLine (some file) line = some m ∧ baseName m.file = file) ↔
      ∀ front e back, ln.entries = front ++ e :: back → e.line = line → file <:+: e.file →
        baseName e.file ≠ file →
          (∃ e' ∈ front, NamedLine file line e' ∧ e'.address ≤ e.address) ∨
            ∃ e' ∈ back, NamedLine file line e' ∧ e'.address < e.address := by
  obtain ⟨named, hnamed, hline, hbase⟩ := hrow
  have hpass : ∀ e : LineEntry, e.line = line → file <:+: e.file →
      (decide (e.line = line) && Lineno.fileMatches e.file (some file)) = true := fun e h h' => by
    rw [Bool.and_eq_true, decide_eq_true_eq]
    exact ⟨h, Lineno.fileMatches_iff.mpr h'⟩
  have hcontains : ∀ e : LineEntry, baseName e.file = file → file <:+: e.file := fun e h =>
    h ▸ (baseName_suffix e.file).isInfix
  obtain ⟨m, hm, -, ⟨hmline, hmfile⟩, -⟩ :=
    (ln.lookupLine_best (some file) line).exists_of_mem hnamed
      ⟨hline, Lineno.fileMatches_iff.mpr (hcontains named hbase)⟩
  have hscan := hm
  rw [Lineno.lookupLine_eq] at hscan
  -- the row found is the first one of the lowest
  obtain ⟨front, back, hsplit, hfront, hback⟩ := argmin_split hscan
  constructor
  · rintro ⟨m', hm', hmbase⟩ front' e back' hsplit' heline hefile hebase
    obtain rfl := Option.some.inj (hm.symm.trans hm')
    -- the row of the other file stands behind the row found, or in front of it
    rcases List.append_eq_append_iff.mp (hsplit.symm.trans hsplit') with
      ⟨t, rfl, htail⟩ | ⟨t, rfl, htail⟩
    · cases t with
      | nil =>
        obtain ⟨rfl, -⟩ := List.cons.inj htail
        exact absurd hmbase hebase
      | cons a t =>
        obtain ⟨rfl, rfl⟩ := List.cons.inj htail
        refine .inl ⟨m, by simp, ⟨hmline, hmbase⟩, UInt64.le_iff_toNat_le.mpr ?_⟩
        exact hback e (by simp) (hpass e heline hefile)
    · cases t with
      | nil =>
        obtain ⟨rfl, -⟩ := List.cons.inj htail
        exact absurd hmbase hebase
      | cons a t =>
        obtain ⟨rfl, rfl⟩ := List.cons.inj htail
        refine .inr ⟨m, by simp, ⟨hmline, hmbase⟩, UInt64.lt_iff_toNat_lt.mpr ?_⟩
        exact hfront e (by simp) (hpass e heline hefile)
  · intro hbeaten
    refine ⟨m, hm, ?_⟩
    -- were it of another file, it would be beaten, and it is the first of the lowest
    by_contra hmbase
    rcases hbeaten front m back hsplit hmline (Lineno.fileMatches_iff.mp hmfile) hmbase with
      ⟨e, he, ⟨heline, hebase⟩, hle⟩ | ⟨e, he, ⟨heline, hebase⟩, hlt⟩
    · have hgt := hfront e he (hpass e heline (hcontains e hebase))
      exact Nat.not_lt.mpr (UInt64.le_iff_toNat_le.mp hle) hgt
    · have hge := hback e he (hpass e heline (hcontains e hebase))
      exact Nat.not_le.mpr (UInt64.lt_iff_toNat_lt.mp hlt) hge

/-- A program of two files, the name of one of which ends in the name of the other. -/
def twoPaths : Lineno where
  entries := [⟨0x1000, 10, 0, "/src/xmain.c".toList⟩, ⟨0x2000, 10, 0, "/src/main.c".toList⟩,
    ⟨0x2008, 11, 0, "/src/main.c".toList⟩, ⟨0x3000, 11, 0, "/src/xmain.c".toList⟩]

/-- `break main.c:10` is in `xmain.c`. -/
theorem other_file_picked :
    NamedLine "main.c".toList 10 ⟨0x2000, 10, 0, "/src/main.c".toList⟩ ∧
    (⟨0x2000, 10, 0, "/src/main.c".toList⟩ : LineEntry) ∈ twoPaths.entries ∧
    twoPaths.lookupLine (some "main.c".toList) 10 = some ⟨0x1000, 10, 0, "/src/xmain.c".toList⟩ ∧
    baseName "/src/xmain.c".toList ≠ "main.c".toList :=
  ⟨⟨by decide, by decide⟩, by decide, by decide, by decide⟩

/-- `break main.c:11` is in `main.c`. -/
theorem named_file_picked :
    ∃ m, twoPaths.lookupLine (some "main.c".toList) 11 = some m ∧
      baseName m.file = "main.c".toList := by
  refine (file_line_picks_iff twoPaths "main.c".toList 11
    ⟨⟨0x2008, 11, 0, "/src/main.c".toList⟩, by decide, by decide, by decide⟩).mpr ?_
  intro front e back hsplit hline _ hbase
  have hlast : e = ⟨0x3000, 11, 0, "/src/xmain.c".toList⟩ := by
    have hmem : e ∈ twoPaths.entries := by rw [hsplit]; simp
    have hall : ∀ e ∈ twoPaths.entries, e.line = 11 → baseName e.file ≠ "main.c".toList →
        e = ⟨0x3000, 11, 0, "/src/xmain.c".toList⟩ := by decide
    exact hall e hmem hline hbase
  have hmain : (⟨0x2008, 11, 0, "/src/main.c".toList⟩ : LineEntry) ∈ front ++ e :: back := by
    rw [← hsplit]
    decide
  subst hlast
  rcases List.mem_append.mp hmain with hfront | hback
  · exact .inl ⟨_, hfront, ⟨by decide, by decide⟩, by decide⟩
  · rcases List.mem_cons.mp hback with heq | hback
    · exact absurd heq (by decide)
    · exact .inr ⟨_, hback, ⟨by decide, by decide⟩, by decide⟩

/-! ### The targets of `dis` -/

/-- The address `resolve_dis_target` finds. -/
def resolveDisTarget (d : Cdbg) (target : CStr) : Option Addr :=
  match strrchr ':' target with
  | some (filePart, c :: cs) =>
    if filePart.length = 0 ∨ filePart.length ≥ maxFile then none
    else
      match parseU64 (c :: cs) with
      | none => none
      | some lineNo =>
        if lineNo = 0 then none else resolveBreakLine d (some filePart) lineNo.toUInt32
  | _ =>
    match parseU64 target with
    | some parsed => if parsed = 0 then none else resolveBreakLine d none parsed.toUInt32
    | none =>
      match d.syms.lookupName target with
      | none => none
      | some sym => if sym.undefined then none else some (d.syms.runtimeAddr sym.address)

/-- The row whose address `resolve_break_line` gives. -/
def breakLineRow (ln : Lineno) (file : Option CStr) (line : UInt32) : Option LineEntry :=
  match file with
  | some (c :: cs) => ln.lookupLine (some (c :: cs)) line
  | _ => ln.lookupLineUnique line

theorem resolveBreakLine_eq (d : Cdbg) (file : Option CStr) (line : UInt32) :
    resolveBreakLine d file line =
      (breakLineRow d.lineno file line).map fun e => d.lineno.runtimeAddr e.address := rfl

/-- The target begins like a hexadecimal number. -/
def HexPrefix (target : CStr) : Prop := target.take 2 = "0x".toList ∨ target.take 2 = "0X".toList

instance (target : CStr) : Decidable (HexPrefix target) := inferInstanceAs (Decidable (_ ∨ _))

/-- The target names a line, of a file or of the only one that has it. -/
inductive NamesLine (target : CStr) : Option CStr → UInt64 → Prop
  | fileLine {file digits : CStr} {n : UInt64} (hcolon : strrchr ':' target = some (file, digits))
      (hnumber : parseU64 digits = some n) : NamesLine target (some file) n
  | line {n : UInt64} (hcolon : NoFilePart target) (hnumber : parseU64 target = some n)
      (hdecimal : ¬ HexPrefix target) : NamesLine target none n

/-- The target is an address. -/
structure NamesAddress (target : CStr) (n : UInt64) : Prop where
  no_colon : NoFilePart target
  number : parseU64 target = some n
  hexPrefix : HexPrefix target

/-- Where `break` and `dis` both find a place for the target, it is the same one, and the row of a
line has the number that the target names. -/
def SamePlace (d : Cdbg) (target : CStr) : Prop :=
  ∀ a b, resolveBreak d target = some a → resolveDisTarget d target = some b →
    a = b ∧ ∀ file n, NamesLine target file n →
      ∃ row ∈ d.lineno.entries, d.lineno.runtimeAddr row.address = a ∧ row.line.toNat = n.toNat ∧
        breakLineRow d.lineno file n.toUInt32 = some row

/-- The table has a row for the low 32 bits of the number: one in a file that matches, or rows that
are all of one file. -/
def HasLine (ln : Lineno) (n : UInt64) : Option CStr → Prop
  | some file => (file ≠ [] ∧ file.length < maxFile) ∧
      ∃ e ∈ ln.entries, e.line = n.toUInt32 ∧ file <:+: e.file
  | none => (∃ e ∈ ln.entries, e.line = n.toUInt32) ∧ Lineno.OneFile n.toUInt32 ln.entries

/-- The name of a file, if there is one, is neither empty nor too long. -/
def FileFits (file : Option CStr) : Prop := ∀ f ∈ file, f ≠ [] ∧ f.length < maxFile

theorem fileFits_none : FileFits none := fun _ hf => nomatch hf

theorem fileFits_some {file : CStr} :
    FileFits (some file) ↔ file ≠ [] ∧ file.length < maxFile :=
  ⟨fun h => h file rfl, fun h _ hf => Option.mem_some.mp hf ▸ h⟩

theorem hasLine_iff {ln : Lineno} {n : UInt64} {file : Option CStr} :
    HasLine ln n file ↔ FileFits file ∧ ∃ row, breakLineRow ln file n.toUInt32 = some row := by
  cases file with
  | none =>
    rw [and_iff_right fileFits_none, ← Option.isSome_iff_exists]
    change (_ ∧ Lineno.OneFile n.toUInt32 ln.entries) ↔ (ln.lookupLineUnique n.toUInt32).isSome
    by_cases hone : Lineno.OneFile n.toUInt32 ln.entries
    · rw [(Lineno.lookupLineUnique_best hone).isSome_iff, and_iff_left hone]
    · rw [Lineno.lookupLineUnique_eq_none hone]
      exact iff_of_false (fun h => hone h.2) Bool.false_ne_true
  | some file =>
    rw [fileFits_some]
    refine and_congr_right fun hfile => ?_
    have hrow : breakLineRow ln (some file) n.toUInt32 = ln.lookupLine (some file) n.toUInt32 := by
      obtain ⟨c, cs, rfl⟩ := List.exists_cons_of_ne_nil hfile.1
      rfl
    rw [hrow, ← Option.isSome_iff_exists, (ln.lookupLine_best (some file) _).isSome_iff]
    simp only [Lineno.fileMatches_iff]

theorem breakLineRow_mem {ln : Lineno} {file : Option CStr} {line : UInt32} {row : LineEntry}
    (h : breakLineRow ln file line = some row) : row ∈ ln.entries ∧ row.line = line := by
  unfold breakLineRow at h
  split at h
  · obtain ⟨hmem, ⟨hline, -⟩, -⟩ := (ln.lookupLine_best _ line).best row h
    exact ⟨hmem, hline⟩
  · by_cases hone : Lineno.OneFile line ln.entries
    · obtain ⟨hmem, hline, -⟩ := (Lineno.lookupLineUnique_best hone).best row h
      exact ⟨hmem, hline⟩
    · rw [Lineno.lookupLineUnique_eq_none hone] at h
      cases h

section Targets

variable {d : Cdbg} {target : CStr} {file : Option CStr} {n : UInt64} {b : Addr}

theorem exists_cons_of_parse {digits : CStr} (hnumber : parseU64 digits = some n) :
    ∃ c cs, digits = c :: cs := by
  cases digits with
  | nil => cases hnumber
  | cons c cs => exact ⟨c, cs, rfl⟩

theorem NamesLine.unique {file' : Option CStr} {n' : UInt64} (h : NamesLine target file n)
    (h' : NamesLine target file' n') : file' = file ∧ n' = n := by
  cases h with
  | fileLine hcolon hnumber =>
    cases h' with
    | fileLine hcolon' hnumber' =>
      obtain ⟨rfl, rfl⟩ := Prod.mk.inj (Option.some.inj (hcolon.symm.trans hcolon'))
      exact ⟨rfl, Option.some.inj (hnumber'.symm.trans hnumber)⟩
    | line hnone =>
      obtain ⟨c, cs, rfl⟩ := exists_cons_of_parse hnumber
      exact absurd hcolon (hnone _ c cs)
  | line hnone hnumber =>
    cases h' with
    | fileLine hcolon hnumber' =>
      obtain ⟨c, cs, rfl⟩ := exists_cons_of_parse hnumber'
      exact absurd hcolon (hnone _ c cs)
    | line _ hnumber' => exact ⟨rfl, Option.some.inj (hnumber'.symm.trans hnumber)⟩

theorem NamesAddress.not_namesLine (h : NamesAddress target n) {n' : UInt64} :
    ¬ NamesLine target file n' := by
  intro hline
  cases hline with
  | fileLine hcolon hnumber =>
    obtain ⟨c, cs, rfl⟩ := exists_cons_of_parse hnumber
    exact h.no_colon _ c cs hcolon
  | line _ _ hdecimal => exact hdecimal h.hexPrefix

/-- `dis` takes a number for that of a line, whatever its prefix is. -/
theorem resolveDisTarget_number (hcolon : NoFilePart target) (hnumber : parseU64 target = some n) :
    resolveDisTarget d target = if n = 0 then none else resolveBreakLine d none n.toUInt32 := by
  rw [resolveDisTarget]
  split
  · rename_i filePart c cs heq
    exact absurd heq (hcolon filePart c cs)
  · rw [hnumber]

theorem resolveBreak_number (hcolon : NoFilePart target) (hnumber : parseU64 target = some n) :
    resolveBreak d target = some
      (if HexPrefix target then n else (resolveBreakLine d none n.toUInt32).getD n) := by
  rw [resolveBreak_of_noFilePart hcolon, hnumber]
  rfl

/-- A line of a file means the same to `break` and `dis`. -/
theorem resolve_fileLine {filePart digits : CStr}
    (hcolon : strrchr ':' target = some (filePart, digits)) (hnumber : parseU64 digits = some n) :
    resolveBreak d target = resolveDisTarget d target ∧
      resolveDisTarget d target = if filePart.length = 0 ∨ filePart.length ≥ maxFile then none
        else if n = 0 then none else resolveBreakLine d (some filePart) n.toUInt32 := by
  obtain ⟨c, cs, rfl⟩ := exists_cons_of_parse hnumber
  constructor
  · simp only [resolveBreak, resolveDisTarget, hcolon, hnumber]
  · simp only [resolveDisTarget, hcolon, hnumber]

theorem resolveBreakLine_eq_some {line : UInt32} : resolveBreakLine d file line = some b ↔
    ∃ row, breakLineRow d.lineno file line = some row ∧ d.lineno.runtimeAddr row.address = b := by
  rw [resolveBreakLine_eq, Option.map_eq_some_iff]

/-- What `dis` finds for a line. -/
theorem NamesLine.dis_iff (h : NamesLine target file n) : resolveDisTarget d target = some b ↔
    n ≠ 0 ∧ FileFits file ∧ ∃ row, breakLineRow d.lineno file n.toUInt32 = some row ∧
      d.lineno.runtimeAddr row.address = b := by
  cases h with
  | @fileLine filePart digits _ hcolon hnumber =>
    have hfits : FileFits (some filePart) ↔
        ¬ (filePart.length = 0 ∨ filePart.length ≥ maxFile) := by
      rw [fileFits_some, not_or, Nat.not_le, List.length_eq_zero_iff]
    rw [(resolve_fileLine hcolon hnumber).2, hfits, ← resolveBreakLine_eq_some]
    by_cases hfile : filePart.length = 0 ∨ filePart.length ≥ maxFile
    · rw [if_pos hfile]
      exact iff_of_false (fun h => nomatch h) fun h => h.2.1 hfile
    · rw [if_neg hfile, and_iff_right hfile]
      split_ifs with hn <;> simp [hn]
  | line hcolon hnumber =>
    rw [resolveDisTarget_number hcolon hnumber, and_iff_right fileFits_none,
      ← resolveBreakLine_eq_some]
    split_ifs with hn <;> simp [hn]

/-- Where `dis` finds a line, `break` finds it, too. -/
theorem NamesLine.break_of_dis (h : NamesLine target file n)
    (hdis : resolveDisTarget d target = some b) : resolveBreak d target = some b := by
  cases h with
  | fileLine hcolon hnumber => rw [(resolve_fileLine hcolon hnumber).1, hdis]
  | line hcolon hnumber hdecimal =>
    rw [resolveDisTarget_number hcolon hnumber] at hdis
    split at hdis
    · cases hdis
    · rw [resolveBreak_number hcolon hnumber, if_neg hdecimal, hdis,
        Option.getD_some]

/-- A line that `break` and `dis` find has the number that is named exactly if this fits into the
32 bits of a line number. -/
theorem NamesLine.samePlace_iff (h : NamesLine target file n) :
    SamePlace d target ↔ n = 0 ∨ n.toNat < 2 ^ 32 ∨ ¬ HasLine d.lineno n file := by
  constructor
  · intro hsame
    by_contra hbad
    push Not at hbad
    obtain ⟨hn, hbig, hline⟩ := hbad
    obtain ⟨hfits, row, hrow⟩ := hasLine_iff.mp hline
    have hdis : resolveDisTarget d target = some (d.lineno.runtimeAddr row.address) :=
      h.dis_iff.mpr ⟨hn, hfits, row, hrow, rfl⟩
    obtain ⟨row', -, -, hnumber, -⟩ := (hsame _ _ (h.break_of_dis hdis) hdis).2 file n h
    -- a row has a line of 32 bits
    have hlt := row'.line.toNat_lt
    omega
  · intro hcond a b hbreak hdis
    have hsame : a = b := Option.some.inj (hbreak.symm.trans (h.break_of_dis hdis))
    refine ⟨hsame, fun file' n' h' => ?_⟩
    obtain ⟨rfl, rfl⟩ := h.unique h'
    obtain ⟨hn, hfits, row, hrow, haddr⟩ := h.dis_iff.mp hdis
    obtain ⟨hmem, hline⟩ := breakLineRow_mem hrow
    refine ⟨row, hmem, haddr.trans hsame.symm, ?_, hrow⟩
    have hlt : n'.toNat < 2 ^ 32 := by
      rcases hcond with h0 | hlt | hnone
      · exact absurd h0 hn
      · exact hlt
      · exact absurd (hasLine_iff.mpr ⟨hfits, row, hrow⟩) hnone
    rw [hline, UInt64.toNat_toUInt32, Nat.mod_eq_of_lt hlt]

/-- An address is the same place exactly if it is no number of a line, or is that of the line whose
number it is. -/
theorem NamesAddress.samePlace_iff (h : NamesAddress target n) :
    SamePlace d target ↔ n = 0 ∨ ¬ HasLine d.lineno n none ∨
      ∃ row ∈ d.lineno.entries, row.line = n.toUInt32 ∧ d.lineno.runtimeAddr row.address = n ∧
        ∀ e ∈ d.lineno.entries, e.line = n.toUInt32 → row.address ≤ e.address := by
  have hbreak : resolveBreak d target = some n := by
    rw [resolveBreak_number h.no_colon h.number, if_pos h.hexPrefix]
  have hdis : resolveDisTarget d target =
      if n = 0 then none else resolveBreakLine d none n.toUInt32 :=
    resolveDisTarget_number h.no_colon h.number
  -- an address names no line, so that part of `SamePlace` says nothing
  have hnoLine : ∀ a file' n', NamesLine target file' n' →
      ∃ row ∈ d.lineno.entries, d.lineno.runtimeAddr row.address = a ∧
        row.line.toNat = n'.toNat ∧ breakLineRow d.lineno file' n'.toUInt32 = some row :=
    fun _ _ _ h' => absurd h' h.not_namesLine
  by_cases hn : n = 0
  · refine iff_of_true (fun a b _ hb => ?_) (.inl hn)
    rw [hdis, if_pos hn] at hb
    cases hb
  rw [if_neg hn] at hdis
  by_cases hline : HasLine d.lineno n none
  · obtain ⟨-, row, hrow⟩ := hasLine_iff.mp hline
    obtain ⟨hmem, hrowLine, hleast⟩ := (Lineno.lookupLineUnique_best hline.2).best row hrow
    rw [resolveBreakLine_eq_some.mpr ⟨row, hrow, rfl⟩] at hdis
    rw [or_iff_right hn, or_iff_right (not_not.mpr hline)]
    constructor
    · intro hsame
      exact ⟨row, hmem, hrowLine, (hsame _ _ hbreak hdis).1.symm, hleast⟩
    · rintro ⟨row', hmem', hrowLine', haddr, hleast'⟩ a b ha hb
      obtain rfl := Option.some.inj (hbreak.symm.trans ha)
      obtain rfl := Option.some.inj (hdis.symm.trans hb)
      have heq : row.address = row'.address :=
        UInt64.le_antisymm (hleast row' hmem' hrowLine') (hleast' row hmem hrowLine)
      exact ⟨by rw [heq, haddr], hnoLine _⟩
  · refine iff_of_true (fun a b _ hb => ?_) (.inr (.inl hline))
    rw [hdis] at hb
    obtain ⟨row, hrow, -⟩ := resolveBreakLine_eq_some.mp hb
    exact absurd (hasLine_iff.mpr ⟨fileFits_none, row, hrow⟩) hline

end Targets

/-- `break` and `dis` find a line at the same place, in a row of that line, exactly if its number
fits into 32 bits or is none of a line that they find; they find an address at the same place
exactly if `dis`, which takes it for the number of a line, finds none or finds one right there. -/
theorem break_dis_agree_iff (d : Cdbg) (target : CStr) :
    (∀ file n, NamesLine target file n →
      (SamePlace d target ↔ n = 0 ∨ n.toNat < 2 ^ 32 ∨ ¬ HasLine d.lineno n file)) ∧
    ∀ n, NamesAddress target n →
      (SamePlace d target ↔ n = 0 ∨ ¬ HasLine d.lineno n none ∨
        ∃ row ∈ d.lineno.entries, row.line = n.toUInt32 ∧ d.lineno.runtimeAddr row.address = n ∧
          ∀ e ∈ d.lineno.entries, e.line = n.toUInt32 → row.address ≤ e.address) :=
  ⟨fun _ _ h => h.samePlace_iff, fun _ h => h.samePlace_iff⟩

/-- A program with one row, for line 16. -/
def oneRow : Cdbg where
  lineno := { entries := [⟨0x100000f00, 16, 0, "a.c".toList⟩] }

/-- `break 0x10` is at the address, `dis 0x10` at line 16; and both read line 4294967312 as 16. -/
theorem dis_reads_address_as_line :
    (NamesAddress "0x10".toList 0x10 ∧ resolveBreak oneRow "0x10".toList = some 0x10 ∧
      resolveDisTarget oneRow "0x10".toList = some 0x100000f00) ∧
    NamesLine "a.c:4294967312".toList (some "a.c".toList) 4294967312 ∧
      resolveBreak oneRow "a.c:4294967312".toList = some 0x100000f00 ∧
      resolveDisTarget oneRow "a.c:4294967312".toList = some 0x100000f00 ∧
      ∀ row ∈ oneRow.lineno.entries, row.line.toNat ≠ 4294967312 :=
  ⟨⟨⟨fun _ _ _ h => (nomatch h), by decide, by decide⟩, by decide, by decide⟩,
    @NamesLine.fileLine _ _ "4294967312".toList _ (by decide) (by decide), by decide, by decide,
    by decide⟩

/-- Line 16 is one place for both, the address of that number is not. -/
theorem break_dis_agree_oneRow :
    SamePlace oneRow "a.c:16".toList ∧ ¬ SamePlace oneRow "0x10".toList := by
  constructor
  · exact ((break_dis_agree_iff oneRow "a.c:16".toList).1 (some "a.c".toList) 16
      (@NamesLine.fileLine _ _ "16".toList _ (by decide) (by decide))).mpr (.inr (.inl (by decide)))
  · have hline : HasLine oneRow.lineno 0x10 none := ⟨by decide, by decide⟩
    rw [(break_dis_agree_iff oneRow "0x10".toList).2 0x10
      ⟨fun _ _ _ h => (nomatch h), by decide, by decide⟩, or_iff_right (by decide),
      or_iff_right (not_not.mpr hline)]
    decide

end Debugger
