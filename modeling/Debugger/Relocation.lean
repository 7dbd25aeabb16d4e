/-
Where symbols and lines are once the program has been loaded.

The line table and the symbols are loaded apart, each has a link base and a slide of its own, and
the slides are updated one after the other whenever the program is started.  At every prompt of
every session they agree: a link address is the same runtime address in both tables
(`Reaches.relocated_alike`).  This rests on the loaders, which find the same link base as long as
it is not 0 (`loads_same_base`); for a symbol table from the dSYM, 0 counts as not found yet.
-/
import Debugger.Edits
import Debugger.LineLoad
import Debugger.TableBounds

open Prog

namespace Debugger

/-! ### What is kept by the commands -/

/-- What has been loaded, and what loading and relocating depend on. -/
def Sys.loaded (s : Sys) :
    (KCall → ℕ → Bool) × (ℕ → CStr → (Bool × Lineno) × (Bool × Syms)) × Lineno × Syms :=
  (s.os.fault, s.os.debugInfo, s.dbg.lineno, s.dbg.syms)

section Keeping

variable {α : Type} {m : DbgM α}

theorem loaded_of_tables (h : Keeps Sys.tables m) : Keeps Sys.loaded m :=
  h.mono fun s s' hv => by
    have hfault : s'.os.fault = s.os.fault := congrArg Tables.fault hv
    have hinfo : s'.os.debugInfo = s.os.debugInfo := congrArg Tables.debugInfo hv
    have hlineno : s'.dbg.lineno = s.dbg.lineno := congrArg Tables.lineno hv
    have hsyms : s'.dbg.syms = s.dbg.syms := congrArg Tables.syms hv
    rw [Sys.loaded, Sys.loaded, hfault, hinfo, hlineno, hsyms]

theorem loaded_of_keepsCalls (h : Keeps Sys.sansCalls m) : Keeps Sys.loaded m :=
  loaded_of_tables (tables_of_keepsCalls h)

theorem loaded_of_keepsSlots (h : Keeps Sys.sansSlots m) : Keeps Sys.loaded m :=
  loaded_of_tables (tables_of_keepsSlots h)

theorem loaded_of_keepsHolds (h : Keeps Sys.sansHolds m) : Keeps Sys.loaded m :=
  loaded_of_tables (tables_of_keepsHolds h)

theorem modifyDbg_loaded {f : Cdbg → Cdbg}
    (h : ∀ d, (f d).lineno = d.lineno ∧ (f d).syms = d.syms) : Keeps Sys.loaded (modifyDbg f) := by
  intro s
  obtain ⟨hlineno, hsyms⟩ := h s.dbg
  show (s.os.fault, s.os.debugInfo, (f s.dbg).lineno, (f s.dbg).syms) = s.loaded
  rw [hlineno, hsyms]
  rfl

/-- What has been loaded is the same. -/
abbrev SameLoaded (s s' : Sys) : Prop := s'.loaded = s.loaded

instance : IsPreorder Sys SameLoaded where
  refl _ := rfl
  trans _ _ _ h h' := h'.trans h

theorem sameLoaded_allowsEdits : AllowsEdits SameLoaded where
  calls := loaded_of_keepsCalls
  slots := loaded_of_keepsSlots
  holds := loaded_of_keepsHolds
  refresh := loaded_of_tables cdbgRefreshRegs_tables
  enable bp pid addr := loaded_of_tables (cdbgBpEnable_tables bp pid addr)
  disable bp pid := loaded_of_tables (cdbgBpDisable_tables bp pid)
  edit := modifyDbg_loaded

theorem cmdDel_loaded (args : Option CStr) : Keeps Sys.loaded (cmdDel args) :=
  obeys_cmdDel (obeys_deleteBreakpointAt sameLoaded_allowsEdits) args

theorem stopDebuggee_loaded : Keeps Sys.loaded stopDebuggee :=
  Keeps.bind Keeps.get fun _ => Keeps.ite
    (Keeps.bind (loaded_of_tables (setState_tables _)) fun _ => Keeps.pure _)
    (Keeps.bind (loaded_of_tables (killIfLive_tables _)) fun _ => Keeps.ite (Keeps.pure _)
      (Keeps.bind (modifyDbg_loaded fun _ => ⟨rfl, rfl⟩) fun _ => Keeps.pure _))

theorem cdbgSetRunTarget_loaded (argv : List CStr) : Keeps Sys.loaded (cdbgSetRunTarget argv) :=
  have hset : ∀ texts : Cdbg → List CStr,
      Keeps Sys.loaded (modifyDbg fun d => { d with runArgv := texts d }) :=
    fun _ => modifyDbg_loaded fun _ => ⟨rfl, rfl⟩
  Keeps.ite (Keeps.pure _) (Keeps.ite
    (Keeps.bind (hset fun d => (argv.map (snprintf maxPath)).take d.runArgv.length) fun _ =>
      Keeps.pure _)
    (Keeps.bind (hset fun _ => argv.map (snprintf maxPath)) fun _ => Keeps.pure _))

/-- A command that starts no program keeps what has been loaded. -/
theorem exec_loaded {c : Command} (hrun : ∀ argv, c ≠ .runTok argv) :
    Keeps Sys.loaded (exec c) := by
  have hignore : ∀ {m : DbgM Int}, Keeps Sys.loaded m → Keeps Sys.loaded (ignoringCode m) :=
    fun h => Keeps.bind h fun _ => Keeps.pure _
  cases c with
  | runTok argv => exact absurd rfl (hrun argv)
  | lockTok args => exact hignore (obeys_cmdLock sameLoaded_allowsEdits args)
  | unlockTok => exact hignore (obeys_cmdUnlock sameLoaded_allowsEdits)
  | breakTok target => exact hignore (obeys_cmdBreak sameLoaded_allowsEdits target)
  | delTok args => exact hignore (cmdDel_loaded args)
  | watchTok expr resolved => exact hignore (obeys_cmdWatch sameLoaded_allowsEdits expr resolved)
  | unwatchTok args =>
    exact hignore (obeys_cmdUnwatch (obeys_deleteWatchpointAt sameLoaded_allowsEdits) args)
  | killTok =>
    exact Keeps.bind Keeps.get fun _ => Keeps.ite (Keeps.pure _)
      (Keeps.bind stopDebuggee_loaded fun _ => Keeps.pure _)
  | _ => exact loaded_of_tables (exec_tables rfl rfl)

end Keeping

/-! ### What the loaders leave -/

/-- A flag tells whether its table has entries, and two tables with entries are at one link base if
that of the lines is known. -/
structure InfoSound (info : (Bool × Lineno) × (Bool × Syms)) : Prop where
  lines : info.1.1 = true ↔ info.1.2.entries ≠ []
  symbols : info.2.1 = true ↔ info.2.2.entries ≠ []
  base : info.1.2.entries ≠ [] → info.2.2.entries ≠ [] → info.1.2.linkBase ≠ 0 →
    info.1.2.linkBase = info.2.2.linkBase

/-- What `cdbg_load_symbols` gets from the loaders, by the files as they are then; a loader that
does not return leaves nothing. -/
def loadedInfo (hosts : ℕ → Host) (envs : ℕ → ParserEnv) (n : ℕ) (executablePath : CStr) :
    (Bool × Lineno) × (Bool × Syms) :=
  let lines := (linenoLoad (hosts n) (envs n) executablePath).getD (-1, {})
  let symbols := (symsLoad (hosts n) executablePath).getD (-1, {})
  ((lines.1 = 0, lines.2.table), (symbols.1 = 0, symbols.2))

/-- The return code of a loader tells whether its table has entries. -/
theorem code_iff_entries {α : Type} {rc : Int} {entries : List α}
    (h : rc = 0 ∧ entries ≠ [] ∨ rc = -1 ∧ entries = []) :
    decide (rc = 0) = true ↔ entries ≠ [] := by
  rw [decide_eq_true_eq]
  rcases h with ⟨hrc, hne⟩ | ⟨hrc, hnil⟩
  · exact iff_of_true hrc hne
  · exact iff_of_false (fun h => neg_one_ne (hrc.symm.trans h)) fun h => h hnil

/-- The lines that `cdbg_load_symbols` gets from the loader. -/
theorem linenoLoad_getD_code (host : Host) (env : ParserEnv) (path : CStr) :
    ((linenoLoad host env path).getD (-1, {})).1 = 0 ∧
        ((linenoLoad host env path).getD (-1, {})).2.table.entries ≠ [] ∨
      ((linenoLoad host env path).getD (-1, {})).1 = -1 ∧
        ((linenoLoad host env path).getD (-1, {})).2.table.entries = [] := by
  cases hload : linenoLoad host env path with
  | none => exact .inr ⟨rfl, rfl⟩
  | some loaded => exact (linenoLoad_whole hload).code

theorem symsLoad_getD_code (host : Host) (path : CStr) :
    ((symsLoad host path).getD (-1, {})).1 = 0 ∧
        ((symsLoad host path).getD (-1, {})).2.entries ≠ [] ∨
      ((symsLoad host path).getD (-1, {})).1 = -1 ∧
        ((symsLoad host path).getD (-1, {})).2.entries = [] := by
  cases hload : symsLoad host path with
  | none => exact .inr ⟨rfl, rfl⟩
  | some loaded => exact (symsLoad_outcome hload).rc

theorem loadedInfo_sound (hosts : ℕ → Host) (envs : ℕ → ParserEnv) (n : ℕ) (path : CStr) :
    InfoSound (loadedInfo hosts envs n path) := by
  have hlines := linenoLoad_getD_code (hosts n) (envs n) path
  have hsymbols := symsLoad_getD_code (hosts n) path
  refine ⟨code_iff_entries hlines, code_iff_entries hsymbols, fun hl hs hne => ?_⟩
  have hl := of_decide_eq_true ((code_iff_entries hlines).mpr hl)
  have hs := of_decide_eq_true ((code_iff_entries hsymbols).mpr hs)
  rw [loadedInfo] at hne ⊢
  cases hlinesLoad : linenoLoad (hosts n) (envs n) path with
  | none =>
    rw [hlinesLoad] at hl
    exact absurd hl neg_one_ne
  | some lines =>
    cases hsymsLoad : symsLoad (hosts n) path with
    | none =>
      rw [hsymsLoad] at hs
      exact absurd hs neg_one_ne
    | some symbols =>
      obtain ⟨rc, out⟩ := lines
      obtain ⟨rc', syms⟩ := symbols
      rw [hlinesLoad] at hl
      rw [hsymsLoad] at hs
      obtain rfl : rc = 0 := hl
      obtain rfl : rc' = 0 := hs
      rw [hlinesLoad] at hne
      exact (loads_same_base hlinesLoad hsymsLoad hne).symm

/-! ### Relocating -/

/-- A table for a program at `base`; nothing changes where the program is not found. -/
def Lineno.movedTo (ln : Lineno) : Option Addr → Lineno
  | none => ln
  | some base => { ln with slide := base - ln.linkBase }

def Syms.movedTo (syms : Syms) : Option Addr → Syms
  | none => syms
  | some base => { syms with slide := base - syms.linkBase }

/-- Symbols and lines are at the same addresses, as far as there are both and the link base is
known. -/
structure Alike (ln : Lineno) (syms : Syms) : Prop where
  base : ln.entries ≠ [] → syms.entries ≠ [] → ln.linkBase ≠ 0 → ln.linkBase = syms.linkBase
  slide : ln.entries ≠ [] → syms.entries ≠ [] → ln.linkBase ≠ 0 → ln.slide = syms.slide

/-- They are, and will be when another program is loaded. -/
structure Sys.Alike (s : Sys) : Prop where
  regions : s.Reliable .regions
  loads : ∀ n path, InfoSound (s.os.debugInfo n path)
  alike : Debugger.Alike s.dbg.lineno s.dbg.syms

section Relocating

variable {s s' : Sys} {pid : ℕ} {linenoOk symsOk : Bool}

theorem Sys.Alike.of_loaded (h : s.Alike) (hv : s'.loaded = s.loaded) : s'.Alike := by
  have hfault : s'.os.fault = s.os.fault := congrArg Prod.fst hv
  have hinfo : s'.os.debugInfo = s.os.debugInfo := congrArg (·.2.1) hv
  have hlineno : s'.dbg.lineno = s.dbg.lineno := congrArg (·.2.2.1) hv
  have hsyms : s'.dbg.syms = s.dbg.syms := congrArg (·.2.2.2) hv
  refine ⟨fun n => ?_, fun n path => ?_, ?_⟩
  · rw [hfault]
    exact h.regions n
  · rw [hinfo]
    exact h.loads n path
  · rw [hlineno, hsyms]
    exact h.alike

/-- The first executable region is found where it is. -/
theorem wp_regionScan {Q : Option Addr → Sys → Prop} (hr : s.Reliable .regions)
    (h : ∀ s', s.Quiet s' → Q ((s.process pid).bind (·.execBase)) s') :
    wp (regionScan pid) Q s := by
  refine wp_kernelRead (fun s' hq hnone => ?_) fun p base s' hp hbase hq => ?_
  · have hbind : (s.process pid).bind (·.execBase) = none :=
      Option.bind_eq_none_iff.mpr (hnone hr)
    exact hbind ▸ h s' hq
  · have hbind : (s.process pid).bind (·.execBase) = some base := by
      rw [hp]
      exact hbase
    exact hbind ▸ h s' hq

theorem wp_cdbgLinenoUpdateSlide (hr : s.Reliable .regions) :
    wp (cdbgLinenoUpdateSlide pid) (fun _ s' => (s.withDbg { s.dbg with
      lineno := s.dbg.lineno.movedTo ((s.process pid).bind (·.execBase)) }).Quiet s') s := by
  rw [cdbgLinenoUpdateSlide, wp_bind]
  refine wp_regionScan hr fun s₁ hq => ?_
  obtain ⟨n, rfl⟩ := hq
  cases (s.process pid).bind (·.execBase) with
  | none => exact ⟨n, rfl⟩
  | some base => exact ⟨n, rfl⟩

theorem wp_cdbgSymsUpdateSlide (hr : s.Reliable .regions) :
    wp (cdbgSymsUpdateSlide pid) (fun _ s' => (s.withDbg { s.dbg with
      syms := s.dbg.syms.movedTo ((s.process pid).bind (·.execBase)) }).Quiet s') s := by
  rw [cdbgSymsUpdateSlide, wp_bind]
  refine wp_regionScan hr fun s₁ hq => ?_
  obtain ⟨n, rfl⟩ := hq
  cases (s.process pid).bind (·.execBase) with
  | none => exact ⟨n, rfl⟩
  | some base => exact ⟨n, rfl⟩

/-- The slides that are updated are updated for the same address. -/
theorem wp_updateSlides (hr : s.Reliable .regions) :
    wp (updateSlides linenoOk symsOk) (fun _ s' => ∃ base, s'.loaded =
      (s.os.fault, s.os.debugInfo, if linenoOk then s.dbg.lineno.movedTo base else s.dbg.lineno,
        if symsOk then s.dbg.syms.movedTo base else s.dbg.syms)) s := by
  have hlines : wp (updateIf linenoOk (cdbgLinenoUpdateSlide s.dbg.pid)) (fun _ s₁ =>
      (s.withDbg { s.dbg with lineno := if linenoOk
        then s.dbg.lineno.movedTo ((s.process s.dbg.pid).bind (·.execBase))
        else s.dbg.lineno }).Quiet s₁) s := by
    rw [updateIf, wp_ite]
    refine ⟨fun hok => ?_, fun hok => ?_⟩
    · rw [wp_bind, if_pos hok]
      exact wp_cdbgLinenoUpdateSlide hr
    · rw [if_neg hok]
      exact .refl s
  rw [updateSlides, wp_bind, wp_get, wp_bind]
  refine wp_mono hlines fun _ s₁ hq => ?_
  obtain ⟨n, rfl⟩ := hq
  refine wp_mono (Q := fun _ s₂ => s₂.loaded = _) ?_ fun _ s₂ h =>
    ⟨(s.process s.dbg.pid).bind (·.execBase), h⟩
  rw [updateIf, wp_ite]
  refine ⟨fun hok => ?_, fun hok => ?_⟩
  · rw [wp_bind, if_pos hok]
    refine wp_mono (wp_cdbgSymsUpdateSlide hr) fun _ s₂ hq => ?_
    obtain ⟨n', rfl⟩ := hq
    rfl
  · rw [if_neg hok]
    rfl

/-- Slides that have been updated together are as alike as before. -/
theorem Alike.movedTo {ln : Lineno} {syms : Syms} (h : Alike ln syms)
    (hln : ln.entries ≠ [] → linenoOk = true) (hsyms : syms.entries ≠ [] → symsOk = true)
    (base : Option Addr) : Alike (if linenoOk then ln.movedTo base else ln)
      (if symsOk then syms.movedTo base else syms) := by
  cases base with
  | none =>
    rw [Lineno.movedTo, Syms.movedTo, ite_self, ite_self]
    exact h
  | some base =>
    have hentries : (if linenoOk then ln.movedTo (some base) else ln).entries = ln.entries ∧
        (if linenoOk then ln.movedTo (some base) else ln).linkBase = ln.linkBase := by
      split <;> exact ⟨rfl, rfl⟩
    have hentries' : (if symsOk then syms.movedTo (some base) else syms).entries = syms.entries ∧
        (if symsOk then syms.movedTo (some base) else syms).linkBase = syms.linkBase := by
      split <;> exact ⟨rfl, rfl⟩
    constructor
    · rw [hentries.1, hentries.2, hentries'.1, hentries'.2]
      exact h.base
    · rw [hentries.1, hentries.2, hentries'.1]
      intro hl hs hne
      rw [if_pos (hln hl), if_pos (hsyms hs)]
      exact congrArg (base - ·) (h.base hl hs hne)

theorem Sys.Alike.wp_updateSlides (h : s.Alike)
    (hln : s.dbg.lineno.entries ≠ [] → linenoOk = true)
    (hsyms : s.dbg.syms.entries ≠ [] → symsOk = true) :
    wp (updateSlides linenoOk symsOk) (fun _ s' => s'.Alike) s := by
  refine wp_mono (Debugger.wp_updateSlides h.regions) fun _ s' hmoved => ?_
  obtain ⟨base, hv⟩ := hmoved
  have hmoved : (s.withDbg { s.dbg with
      lineno := if linenoOk then s.dbg.lineno.movedTo base else s.dbg.lineno
      syms := if symsOk then s.dbg.syms.movedTo base else s.dbg.syms }).Alike :=
    ⟨h.regions, h.loads, h.alike.movedTo hln hsyms base⟩
  exact hmoved.of_loaded hv

end Relocating

/-! ### Sessions -/

/-- Running `m` keeps symbols and lines alike. -/
abbrev KeepsAlike {α : Type} (m : DbgM α) : Prop := Obeys (Carries Sys.Alike) m

section Sessions

theorem keepsAlike_of_loaded {α : Type} {m : DbgM α} (h : Keeps Sys.loaded m) : KeepsAlike m :=
  h.obeys fun _ _ hv hs => hs.of_loaded hv

theorem keepsAlike_of_tables {α : Type} {m : DbgM α} (h : Keeps Sys.tables m) : KeepsAlike m :=
  keepsAlike_of_loaded (loaded_of_tables h)

theorem updateLoadedSlides_alike : KeepsAlike updateLoadedSlides := by
  refine obeys_carries_iff.mpr fun s hs => ?_
  rw [updateLoadedSlides, wp_bind, wp_get]
  exact hs.wp_updateSlides (fun h => decide_eq_true (List.length_pos_of_ne_nil h))
    fun h => decide_eq_true (List.length_pos_of_ne_nil h)

theorem cdbgLoadSymbols_alike (path : CStr) : KeepsAlike (cdbgLoadSymbols path) := by
  refine obeys_carries_iff.mpr fun s hs => ?_
  have hsound := hs.loads s.os.loads path
  rw [cdbgLoadSymbols, wp_bind, wp_get]
  rcases hinfo : s.os.debugInfo s.os.loads path with ⟨⟨linenoOk, lineno⟩, symsOk, syms⟩
  rw [hinfo] at hsound
  dsimp only
  rw [wp_bind, wp_modify, wp_bind, wp_modifyDbg]
  have halike : Alike { lineno with slide := 0 } { syms with slide := 0 } :=
    ⟨hsound.base, fun _ _ _ => rfl⟩
  rw [wp_ite]
  refine ⟨fun _ => ?_, fun _ => ⟨hs.regions, hs.loads, halike⟩⟩
  rw [wp_bind]
  refine wp_mono (Sys.Alike.wp_updateSlides ⟨hs.regions, hs.loads, halike⟩ hsound.lines.mpr
    hsound.symbols.mpr) fun _ s' h => h

theorem cdbgSpawn_alike : KeepsAlike cdbgSpawn := by
  refine Obeys.bind (keepsAlike_of_tables cdbgProcessSpawn_tables) fun r => ?_
  cases r with
  | none => exact Obeys.pure _
  | some pid =>
    exact Obeys.bind (keepsAlike_of_loaded (modifyDbg_loaded fun _ => ⟨rfl, rfl⟩)) fun _ =>
      Obeys.bind updateLoadedSlides_alike fun _ => Obeys.pure _

theorem cdbgRun_alike (argv : Option (List CStr)) : KeepsAlike (cdbgRun argv) :=
  obeys_cdbgRun keepsAlike_of_tables
    (fun argv => keepsAlike_of_loaded (cdbgSetRunTarget_loaded argv))
    (keepsAlike_of_loaded stopDebuggee_loaded)
    (fun _ => keepsAlike_of_loaded (modifyDbg_loaded fun _ => ⟨rfl, rfl⟩)) cdbgLoadSymbols_alike
    cdbgSpawn_alike updateLoadedSlides_alike
    (fun spec => keepsAlike_of_loaded (obeys_cmdBreak sameLoaded_allowsEdits spec)) argv

/-- Every command keeps symbols and lines alike. -/
theorem exec_alike (c : Command) : KeepsAlike (exec c) := by
  by_cases hrun : ∃ argv, c = .runTok argv
  · obtain ⟨argv, rfl⟩ := hrun
    exact Obeys.bind (cdbgRun_alike argv) fun _ => Obeys.pure _
  · exact keepsAlike_of_loaded (exec_loaded fun argv h => hrun ⟨argv, h⟩)

theorem mainStart_alike (spawnArgv : List CStr) {s : Sys} (hr : s.Reliable .regions)
    (hloads : ∀ n path, InfoSound (s.os.debugInfo n path)) :
    wp (mainStart spawnArgv) (fun _ s' => s'.Alike) s := by
  have hinit : (s.withDbg cdbgInit).Alike :=
    ⟨hr, hloads, fun h => absurd rfl h, fun h => absurd rfl h⟩
  exact wp_mainStart (fun argv => keepsAlike_of_loaded (cdbgSetRunTarget_loaded argv))
    (cdbgRun_alike none) hinit spawnArgv

/-- A link address is the same runtime address for symbols and for lines, at every prompt of every
session, as long as the regions of the debuggee can be listed and a text address other than 0 has
been found in its file. -/
theorem Reaches.relocated_alike {ok : Command → Sys → Sys → Prop} {spawnArgv : List CStr}
    {s₁ s₀ s : Sys} {hosts : ℕ → Host} {envs : ℕ → ParserEnv}
    (hinfo : s₁.os.debugInfo = loadedInfo hosts envs) (hr : s₁.Reliable .regions)
    (hmain : (mainStart spawnArgv).run s₁ = (0, s₀)) (h : Reaches ok s₀ s)
    (hln : s.dbg.lineno.entries ≠ []) (hsyms : s.dbg.syms.entries ≠ [])
    (hbase : s.dbg.lineno.linkBase ≠ 0) (addr : Addr) :
    s.dbg.lineno.runtimeAddr addr = s.dbg.syms.runtimeAddr addr := by
  have halike : s.Alike := by
    clear hln hsyms hbase
    induction h with
    | start =>
      refine (wp_of_run hmain).mp (mainStart_alike spawnArgv hr fun n path => ?_)
      rw [hinfo]
      exact loadedInfo_sound hosts envs n path
    | @command s c _ _ _ ih => exact exec_alike c s.unlogged (ih.of_loaded rfl)
  exact congrArg (addr + ·) (halike.alike.slide hln hsyms hbase)

/-- A small executable, of which dwarfdump prints a row and nm a symbol. -/
def listedHost : Host where
  readable _ := false
  mapFile _ := some smallFile
  popen command :=
    if "nm".toList <+: command then some ("0000000000001010 T _f\n".toList, 0)
    else some ("0x0000000000001010 3 1 1 0 0 is_stmt\n".toList, 0)

/-- This executable is not started yet; it will be at 0x5000. -/
def listedStart : Sys :=
  let p := { twoThreads with execBase := some 0x5000 }
  let idle := Sys.attached .x86_64 p fun _ => .stopped 5 []
  { idle with
    os := { idle.os with debugInfo := loadedInfo (fun _ => listedHost) fun _ => noParser } }

def listedPrompt : Sys := ((mainStart ["./target".toList]).run listedStart).2

theorem relocated_alike_listed :
    listedPrompt.dbg.lineno.runtimeAddr 0x1010 = 0x5010 ∧
      listedPrompt.dbg.lineno.runtimeAddr 0x1010 = listedPrompt.dbg.syms.runtimeAddr 0x1010 := by
  have hfacts : ((mainStart ["./target".toList]).run listedStart).1 = 0 ∧
      listedPrompt.dbg.lineno.entries.isEmpty = false ∧
      listedPrompt.dbg.syms.entries.isEmpty = false ∧
      listedPrompt.dbg.lineno.linkBase ≠ 0 ∧
      listedPrompt.dbg.lineno.runtimeAddr 0x1010 = 0x5010 := by
    decide +kernel
  obtain ⟨hrc, hln, hsyms, hbase, haddr⟩ := hfacts
  have hinfo : listedStart.os.debugInfo = loadedInfo (fun _ => listedHost) fun _ => noParser := by
    rw [listedStart]
  have hprompt : Reaches (fun _ _ _ => True) listedPrompt listedPrompt := .start
  exact ⟨haddr, Reaches.relocated_alike hinfo (fun _ => rfl) (run_of_code hrc) hprompt
    (List.isEmpty_eq_false_iff.mp hln) (List.isEmpty_eq_false_iff.mp hsyms) hbase 0x1010⟩

end Sessions

end Debugger
