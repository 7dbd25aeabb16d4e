/-
What the tables of the debugger hold, and which commands edit them.

`Sys.tables` is what the breakpoint table, the watchpoint table, the list of held threads, the
line table and the symbols hold apart from the state of their entries: that a breakpoint is
switched off where the program stands, and the value a watchpoint had last.

* `exec_tables`: the commands that resume the debuggee, and all others that edit no table,
  leave what the tables hold as it is, whatever the debuggee does and whatever call fails.
* `Reaches.tables_same`: so it is the same at all prompts until a table is edited.
-/
import Debugger.Lib.Obeys
import Debugger.Prompt

open Prog

namespace Debugger

/-! ### What the tables hold -/

/-- What the tables hold, apart from the state of their entries, and what is as it is for good. -/
structure Tables where
  arch : Arch
  fault : KCall → ℕ → Bool
  debugInfo : ℕ → CStr → (Bool × Lineno) × (Bool × Syms)
  breakpoints : List Breakpoint
  watched : List HwSlot
  threadLockActive : Bool
  lockedTid : UInt64
  suspendedTids : List UInt64
  suspendedTidCount : ℕ
  lineno : Lineno
  syms : Syms
  executablePath : CStr
  runArgv : List CStr

def Sys.tables (s : Sys) : Tables where
  arch := s.os.arch
  fault := s.os.fault
  debugInfo := s.os.debugInfo
  breakpoints := s.dbg.breakpoints.map Breakpoint.place
  watched := s.dbg.watchpoints.map Watchpoint.slot
  threadLockActive := s.dbg.threadLockActive
  lockedTid := s.dbg.lockedTid
  suspendedTids := s.dbg.suspendedTids
  suspendedTidCount := s.dbg.suspendedTidCount
  lineno := s.dbg.lineno
  syms := s.dbg.syms
  executablePath := s.dbg.executablePath
  runArgv := s.dbg.runArgv

section Views

variable {s s' : Sys}

theorem Sys.tables_sansReports (s : Sys) : s.sansReports.tables = s.tables := by
  rw [tables, tables]
  congr 1
  · exact List.map_map ..
  · exact List.map_map ..

theorem Sys.tables_of_sansReports (h : s'.sansReports = s.sansReports) :
    s'.tables = s.tables := by
  rw [← s'.tables_sansReports, h, s.tables_sansReports]

theorem Sys.tables_of_quiet (h : s.Quiet s') : s'.tables = s.tables := by
  obtain ⟨n, rfl⟩ := h
  rfl

theorem Sys.tables_of_sansProc {f : Process → Process} (h : s'.sansProc f = s.sansProc f) :
    s'.tables = s.tables := by
  have hd : s'.dbg = s.dbg := congrArg (·.dbg) h
  have ha : s'.os.arch = s.os.arch := congrArg (·.os.arch) h
  have hf : s'.os.fault = s.os.fault := congrArg (·.os.fault) h
  have hi : s'.os.debugInfo = s.os.debugInfo := congrArg (·.os.debugInfo) h
  rw [tables, tables, hd, ha, hf, hi]

variable {α : Type} {m : DbgM α}

theorem tables_of_keepsReports (h : Keeps Sys.sansReports m) : Keeps Sys.tables m :=
  h.mono fun _ _ => Sys.tables_of_sansReports

theorem tables_of_keepsPatches (h : Keeps Sys.sansPatches m) : Keeps Sys.tables m :=
  h.mono fun _ _ hv => Sys.tables_of_sansReports (Sys.sansReports_of_sansPatches hv)

theorem tables_of_keepsCalls (h : Keeps Sys.sansCalls m) : Keeps Sys.tables m :=
  h.mono fun _ _ hv => Sys.tables_of_quiet (Sys.quiet_iff_sansCalls.mpr hv)

theorem tables_of_keepsSlots (h : Keeps Sys.sansSlots m) : Keeps Sys.tables m :=
  h.mono fun _ _ => Sys.tables_of_sansProc

theorem tables_of_keepsHolds (h : Keeps Sys.sansHolds m) : Keeps Sys.tables m :=
  h.mono fun _ _ => Sys.tables_of_sansProc

/-- Changing what no table holds. -/
theorem modifyDbg_tables {f : Cdbg → Cdbg}
    (h : ∀ d (os : Os), (Sys.mk (f d) os []).tables = (Sys.mk d os []).tables) :
    Keeps Sys.tables (modifyDbg f) := fun s => h s.dbg s.os

theorem setState_tables (state : DbgState) : Keeps Sys.tables (setState state) :=
  modifyDbg_tables fun _ _ => rfl

theorem setRegs_tables (regs : Regs) : Keeps Sys.tables (setRegs regs) :=
  modifyDbg_tables fun _ _ => rfl

end Views

/-! ### Resuming the debuggee -/

section Resuming

theorem cdbgRefreshRegs_tables : Keeps Sys.tables cdbgRefreshRegs :=
  tables_of_keepsPatches cdbgRefreshRegs_keeps

theorem cdbgBpEnable_tables (bp : Breakpoint) (pid : ℕ) (addr : Addr) :
    Keeps Sys.tables (cdbgBpEnable bp pid addr) := fun _ =>
  wp_mono (cdbgBpEnable_keeps bp addr) fun _ _ h =>
    Sys.tables_of_sansReports (Sys.sansReports_of_sansPatches h.2.1)

theorem cdbgBpDisable_tables (bp : Breakpoint) (pid : ℕ) :
    Keeps Sys.tables (cdbgBpDisable bp pid) := fun _ =>
  wp_mono (cdbgBpDisable_keeps bp) fun _ _ h =>
    Sys.tables_of_sansReports (Sys.sansReports_of_sansPatches h.2.1)

theorem dropTempBreakpoint_tables (tempBp : Breakpoint) :
    Keeps Sys.tables (dropTempBreakpoint tempBp) :=
  tables_of_keepsPatches (dropTempBreakpoint_keeps tempBp)

theorem ptraceResume_tables (kind : Resume) (pid : ℕ) :
    Keeps Sys.tables (ptraceResume kind pid) := by
  intro s
  refine wp_ptraceResume (fun _ hq _ => Sys.tables_of_quiet hq) fun p s' _ hq => ?_
  obtain ⟨n, rfl⟩ := hq
  rfl

theorem cdbgSingleStep_tables : Keeps Sys.tables cdbgSingleStep :=
  Keeps.bind Keeps.get fun _ => Keeps.bind (ptraceResume_tables _ _) fun _ =>
    Keeps.ite (Keeps.pure _) (Keeps.bind (setState_tables _) fun _ => Keeps.pure _)

theorem cdbgProcessWait_tables (pid : ℕ) : Keeps Sys.tables (cdbgProcessWait pid) := by
  intro s
  refine wp_cdbgProcessWait (fun _ hq _ => Sys.tables_of_quiet hq) (fun _ _ _ _ _ _ _ => rfl)
    fun p sig ms s' _ _ _ hq => ?_
  obtain ⟨n, rfl⟩ := hq
  rfl

theorem cdbgWait_tables : Keeps Sys.tables cdbgWait := by
  refine Keeps.bind Keeps.get fun s => Keeps.bind (cdbgProcessWait_tables _) fun rc =>
    Keeps.ite (Keeps.pure _) (Keeps.bind Keeps.get fun s => ?_)
  split
  · exact Keeps.bind (setState_tables _) fun _ => Keeps.pure _
  · exact Keeps.bind (setState_tables _) fun _ => Keeps.pure _
  · exact Keeps.bind (setState_tables _) fun _ => Keeps.bind
      (tables_of_keepsPatches reenableBreakpointsAfterStep_keeps) fun _ =>
        Keeps.ite (Keeps.pure _) (Keeps.pure _)

theorem stepOverDisabledBreakpoint_tables : Keeps Sys.tables stepOverDisabledBreakpoint := by
  refine Keeps.bind Keeps.get fun s => Keeps.ite (Keeps.pure _) ?_
  refine Keeps.bind cdbgRefreshRegs_tables fun rc => Keeps.ite (Keeps.pure _) ?_
  refine Keeps.bind Keeps.get fun s => Keeps.ite (Keeps.pure _) ?_
  exact Keeps.bind cdbgSingleStep_tables fun rc => Keeps.ite (Keeps.pure _) cdbgWait_tables

theorem cdbgContinue_tables : Keeps Sys.tables cdbgContinue := by
  refine Keeps.bind stepOverDisabledBreakpoint_tables fun rc => Keeps.ite (Keeps.pure _) ?_
  refine Keeps.bind Keeps.get fun s => Keeps.ite (Keeps.pure _) ?_
  exact Keeps.bind (ptraceResume_tables _ _) fun rc => Keeps.ite (Keeps.pure _)
    (Keeps.bind (setState_tables _) fun _ => Keeps.pure _)

theorem reportStop_tables : Keeps Sys.tables reportStop :=
  tables_of_keepsReports reportStop_keeps

theorem reportProcessExit_tables : Keeps Sys.tables reportProcessExit := by
  refine Keeps.bind Keeps.get fun s => Keeps.ite (Keeps.pure _) (modifyDbg_tables fun d os => ?_)
  rw [Sys.tables, Sys.tables]
  congr 1
  · exact List.map_map ..
  · exact List.map_map ..

theorem stepOverCall_tables (returnAddr : Addr) : Keeps Sys.tables (stepOverCall returnAddr) := by
  have hdrop : ∀ {α : Type} (tempBp : Breakpoint) (a : α),
      Keeps Sys.tables (do dropTempBreakpoint tempBp; return a) := fun tempBp a =>
    Keeps.bind (dropTempBreakpoint_tables tempBp) fun _ => Keeps.pure a
  refine Keeps.bind Keeps.get fun s => Keeps.bind (cdbgBpEnable_tables _ _ _) fun r =>
    Keeps.ite (Keeps.pure _) ?_
  refine Keeps.bind cdbgContinue_tables fun rc => Keeps.ite (hdrop _ _) ?_
  refine Keeps.bind Keeps.get fun s => Keeps.ite (hdrop _ _) ?_
  refine Keeps.bind cdbgWait_tables fun rc => Keeps.ite ?_ ?_
  · exact Keeps.bind (dropTempBreakpoint_tables _) fun _ => Keeps.bind Keeps.get fun _ =>
      Keeps.pure _
  · exact Keeps.bind Keeps.get fun s => Keeps.ite (hdrop _ _)
      (tables_of_keepsReports (finishTempBreakpoint_keeps _))

theorem singleStepAndReport_tables : Keeps Sys.tables singleStepAndReport := by
  refine Keeps.bind cdbgSingleStep_tables fun rc => Keeps.ite (Keeps.pure _) ?_
  refine Keeps.bind cdbgWait_tables fun rc => Keeps.ite ?_ ?_
  · exact Keeps.bind Keeps.get fun _ => Keeps.pure _
  · exact Keeps.bind Keeps.get fun s => Keeps.ite
      (Keeps.bind reportStop_tables fun _ => Keeps.pure _) (Keeps.pure _)

theorem stepRound_tables : Keeps Sys.tables stepRound := by
  refine Keeps.bind cdbgSingleStep_tables fun rc => Keeps.ite (Keeps.pure _) ?_
  refine Keeps.bind cdbgWait_tables fun rc => Keeps.ite ?_ ?_
  · exact Keeps.bind Keeps.get fun _ => Keeps.pure _
  · exact Keeps.bind Keeps.get fun s => Keeps.ite (Keeps.pure _) (Keeps.pure _)

theorem nextRound_tables (pc : Addr) : Keeps Sys.tables (nextRound pc) := by
  refine Keeps.bind (tables_of_keepsCalls (callReturnAddress_keeps pc)) fun r => ?_
  cases r with
  | none => exact stepRound_tables
  | some returnAddr =>
    exact Keeps.bind (stepOverCall_tables returnAddr) fun rc => Keeps.ite (Keeps.pure _)
      (Keeps.bind Keeps.get fun s => Keeps.ite (Keeps.pure _) (Keeps.pure _))

theorem checkStop_tables (start : CStr × UInt32) : Keeps Sys.tables (checkStop start) := by
  refine Keeps.bind cdbgRefreshRegs_tables fun rc => Keeps.ite (Keeps.pure _)
    (Keeps.bind Keeps.get fun s => Keeps.ite ?_ ?_)
  · exact Keeps.bind reportStop_tables fun _ => Keeps.pure _
  · refine Keeps.bind (tables_of_keepsCalls findWatchpointHit_keeps) fun r => ?_
    cases r with
    | some i =>
      exact Keeps.bind (tables_of_keepsReports (reportWatchpointHit_keeps i)) fun _ =>
        Keeps.pure _
    | none =>
      dsimp only
      split
      · exact Keeps.pure _
      · exact Keeps.pure _

theorem stepThreadGuardCatchUp_tables (guard : Guard) :
    Keeps Sys.tables (stepThreadGuardCatchUp guard) :=
  tables_of_keepsHolds (stepThreadGuardCatchUp_keeps guard)

theorem stepThreadGuardEnd_tables (guard : Guard) : Keeps Sys.tables (stepThreadGuardEnd guard) :=
  tables_of_keepsHolds (stepThreadGuardEnd_keeps guard)

theorem stepLines_tables {advance : Addr → DbgM (Option Int)}
    (hadv : ∀ pc, Keeps Sys.tables (advance pc)) : Keeps Sys.tables (stepLines advance) := by
  have hround : ∀ start x, Keeps Sys.tables (stepLoopRound advance start x) := by
    intro start x
    refine Keeps.bind (stepThreadGuardCatchUp_tables _) fun guard => Keeps.bind (hadv _)
      fun r => ?_
    cases r with
    | some rc => exact Keeps.pure _
    | none =>
      refine Keeps.bind (checkStop_tables start) fun r => ?_
      cases r with
      | inl pc => exact Keeps.pure _
      | inr rc => exact Keeps.pure _
  refine Keeps.bind cdbgRefreshRegs_tables fun rc => Keeps.ite (Keeps.pure _)
    (Keeps.bind Keeps.get fun s => ?_)
  dsimp only
  split
  · exact singleStepAndReport_tables
  · refine Keeps.bind (stepThreadGuardCatchUp_tables []) fun guard => ?_
    refine Keeps.bind (Keeps.loopUpTo (hround _) _ _) fun r => ?_
    cases r with
    | inl x => exact Keeps.bind (stepThreadGuardEnd_tables _) fun _ => Keeps.pure _
    | inr x => exact Keeps.bind (stepThreadGuardEnd_tables _) fun _ => Keeps.pure _

theorem replStepWith_tables {stepFn : DbgM Int} (h : Keeps Sys.tables stepFn) :
    Keeps Sys.tables (replStepWith stepFn) := by
  refine Keeps.bind Keeps.get fun s => Keeps.ite (Keeps.pure _) (Keeps.ite (Keeps.pure _) ?_)
  exact Keeps.bind h fun rc => Keeps.bind Keeps.get fun s => Keeps.ite (Keeps.pure _)
    (Keeps.bind reportProcessExit_tables fun _ => Keeps.pure _)

theorem exitOrFatal_tables : Keeps Sys.tables exitOrFatal :=
  Keeps.bind Keeps.get fun _ => Keeps.ite
    (Keeps.bind reportProcessExit_tables fun _ => Keeps.pure _) (Keeps.pure _)

theorem reportAfterWait_tables : Keeps Sys.tables reportAfterWait :=
  Keeps.bind Keeps.get fun _ => Keeps.ite (Keeps.bind reportStop_tables fun _ => Keeps.pure _)
    (Keeps.bind reportProcessExit_tables fun _ => Keeps.pure _)

theorem cdbgReplCmdContinue_tables : Keeps Sys.tables cdbgReplCmdContinue := by
  refine Keeps.bind Keeps.get fun s => Keeps.ite (Keeps.pure _) ?_
  refine Keeps.bind cdbgContinue_tables fun rc => Keeps.ite (Keeps.pure _) ?_
  refine Keeps.bind Keeps.get fun s => Keeps.ite
    (Keeps.bind reportProcessExit_tables fun _ => Keeps.pure _) ?_
  exact Keeps.bind cdbgWait_tables fun rc => Keeps.ite exitOrFatal_tables reportAfterWait_tables

theorem cdbgReplCmdSi_tables : Keeps Sys.tables cdbgReplCmdSi := by
  refine Keeps.bind Keeps.get fun s => Keeps.ite (Keeps.pure _) (Keeps.ite (Keeps.pure _) ?_)
  refine Keeps.bind (stepThreadGuardCatchUp_tables []) fun guard => ?_
  have hstep : Keeps Sys.tables stepAndWait :=
    Keeps.bind cdbgSingleStep_tables fun rc => Keeps.ite (Keeps.pure _)
      (Keeps.bind cdbgWait_tables fun _ => Keeps.pure _)
  refine Keeps.bind hstep fun r => Keeps.bind (stepThreadGuardEnd_tables guard) fun _ => ?_
  exact Keeps.ite (Keeps.pure _) (Keeps.ite exitOrFatal_tables reportAfterWait_tables)

end Resuming

/-! ### Commands that edit no table -/

section Looking

theorem cmdThread_tables (args : Option CStr) : Keeps Sys.tables (cmdThread args) := by
  refine Keeps.bind Keeps.get fun s => Keeps.ite (Keeps.pure _)
    (Keeps.bind (tables_of_keepsCalls (cdbgThreadsList_keeps _)) fun r => ?_)
  cases r with
  | none => exact Keeps.pure _
  | some infos =>
    dsimp only
    split
    · exact Keeps.pure _
    · exact Keeps.pure _
    · split
      · exact Keeps.pure _
      · exact Keeps.bind (modifyDbg_tables fun _ _ => rfl) fun _ =>
          Keeps.bind cdbgRefreshRegs_tables fun rc => Keeps.ite (Keeps.pure _) (Keeps.pure _)

theorem cdbgRegsSet_tables (pid : ℕ) (tid : UInt64) (regs : Regs) :
    Keeps Sys.tables (cdbgRegsSet pid tid regs) :=
  tables_of_keepsReports (cdbgRegsSet_keeps pid tid regs)

theorem cmdSet_tables (assignment : Assignment) : Keeps Sys.tables (cmdSet assignment) := by
  cases assignment with
  | register name value =>
    refine Keeps.bind cdbgRefreshRegs_tables fun rc => Keeps.ite (Keeps.pure _)
      (Keeps.bind Keeps.get fun s => ?_)
    split
    · exact Keeps.pure _
    · exact Keeps.bind (setRegs_tables _) fun _ => cdbgRegsSet_tables _ _ _
  | scalar addr size value =>
    exact Keeps.bind cdbgRefreshRegs_tables fun rc => Keeps.ite (Keeps.pure _)
      (Keeps.bind Keeps.get fun s => tables_of_keepsPatches (cdbgMemWrite_keeps _ _))

theorem cdbgFrameUp_tables : Keeps Sys.tables cdbgFrameUp := by
  refine Keeps.bind cdbgRefreshRegs_tables fun rc => Keeps.ite (Keeps.pure _)
    (Keeps.bind Keeps.get fun s => ?_)
  refine Keeps.bind (tables_of_keepsCalls (cdbgRegsFrameUp_keeps _ _)) fun r => ?_
  cases r with
  | none => exact Keeps.pure _
  | some regs =>
    exact Keeps.bind (setRegs_tables regs) fun _ => Keeps.bind (cdbgRegsSet_tables _ _ _)
      fun rc => Keeps.ite (Keeps.pure _) (Keeps.pure _)

end Looking

/-! ### Starting a program -/

section Starting

theorem killIfLive_tables (d : Cdbg) : Keeps Sys.tables (killIfLive d) := by
  refine Keeps.ite (Keeps.bind (Keeps.bind ?_ fun r => ?_) fun rc => Keeps.ite (Keeps.pure _)
    (Keeps.bind (cdbgProcessWait_tables _) fun _ => Keeps.ite (Keeps.pure _) (Keeps.pure _)))
    (Keeps.pure _)
  · exact tables_of_keepsCalls (kernelRead_keeps _ _ _)
  · cases r with
    | none => exact Keeps.pure _
    | some _ => exact Keeps.bind (fun _ => rfl) fun _ => Keeps.pure _

theorem cdbgProcessSpawn_tables : Keeps Sys.tables cdbgProcessSpawn :=
  Keeps.bind Keeps.get fun _ => Keeps.bind (fun _ => rfl) fun _ => Keeps.ite (Keeps.pure _)
    (Keeps.bind (fun _ => rfl) fun _ => Keeps.pure _)

theorem runToEntryStop_tables : Keeps Sys.tables runToEntryStop := by
  have hdrop : ∀ (tempBp : Breakpoint) (rc : Int),
      Keeps Sys.tables (do dropTempBreakpoint tempBp; return rc) := fun tempBp rc =>
    Keeps.bind (dropTempBreakpoint_tables tempBp) fun _ => Keeps.pure rc
  have hfinish : ∀ tempBp, Keeps Sys.tables (finishEntryStop tempBp) := fun tempBp => by
    refine Keeps.bind cdbgRefreshRegs_tables fun rc => Keeps.ite (hdrop _ _)
      (Keeps.bind Keeps.get fun s => Keeps.ite ?_ (hdrop _ _))
    refine Keeps.bind (dropTempBreakpoint_tables tempBp) fun _ => Keeps.ite ?_ (Keeps.pure _)
    exact Keeps.bind (setRegs_tables _) fun _ => Keeps.bind (cdbgRegsSet_tables _ _ _) fun rc =>
      Keeps.ite (Keeps.pure _) (Keeps.pure _)
  refine Keeps.bind Keeps.get fun s => Keeps.ite (Keeps.pure _) ?_
  split
  · exact Keeps.pure _
  · refine Keeps.bind (cdbgBpEnable_tables _ _ _) fun r => Keeps.ite (Keeps.pure _) ?_
    refine Keeps.bind cdbgContinue_tables fun rc => Keeps.ite (hdrop _ _) ?_
    refine Keeps.bind cdbgWait_tables fun rc => Keeps.ite (hdrop _ _) ?_
    exact Keeps.bind Keeps.get fun s => Keeps.ite (hdrop _ _) (hfinish _)

/-- What the parts of `run` keep, `run` keeps. -/
theorem obeys_cdbgRun {R : Sys → Sys → Prop} [IsPreorder Sys R]
    (htables : ∀ {α : Type} {m : DbgM α}, Keeps Sys.tables m → Obeys R m)
    (htarget : ∀ argv, Obeys R (cdbgSetRunTarget argv)) (hstop : Obeys R stopDebuggee)
    (hwiped : ∀ arch, Obeys R (modifyDbg (Cdbg.wiped arch)))
    (hload : ∀ path, Obeys R (cdbgLoadSymbols path)) (hspawn : Obeys R cdbgSpawn)
    (hslides : Obeys R updateLoadedSlides) (hbreak : ∀ spec, Obeys R (cmdBreak spec))
    (argv : Option (List CStr)) : Obeys R (cdbgRun argv) := by
  have hset : ∀ specs, Obeys R (setUpRun specs) := by
    intro specs
    refine Obeys.bind hslides fun _ => Obeys.bind (Obeys.forEach fun spec _ =>
      Obeys.bind (hbreak spec) fun _ => Obeys.pure _) fun _ => ?_
    refine Obeys.bind (htables runToEntryStop_tables) fun rc => Obeys.ite ?_
      (Obeys.bind Obeys.get fun s => Obeys.ite ?_ (Obeys.pure _))
    · exact Obeys.bind (htables reportProcessExit_tables) fun _ => Obeys.pure _
    · exact Obeys.bind (htables cdbgRefreshRegs_tables) fun _ => Obeys.pure _
  have hgiven : Obeys R (setRunTargetIfGiven argv) := by
    cases argv with
    | none => exact Obeys.pure _
    | some argv => exact htarget argv
  refine Obeys.bind hgiven fun rc => Obeys.ite (Obeys.pure _)
    (Obeys.bind Obeys.get fun s => ?_)
  split
  · exact Obeys.pure _
  refine Obeys.bind hstop fun rc => Obeys.ite (Obeys.pure _)
    (Obeys.bind Obeys.get fun s => Obeys.bind (hwiped _) fun _ => ?_)
  refine Obeys.bind (hload _) fun _ => Obeys.bind hspawn fun rc =>
    Obeys.ite (Obeys.pure _) ?_
  refine Obeys.bind (htables cdbgWait_tables) fun rc => Obeys.ite ?_ (hset _)
  exact Obeys.bind (htables reportProcessExit_tables) fun _ => Obeys.pure _

end Starting

/-! ### Sessions -/

/-- The command edits one of the tables. -/
def Command.edits : Command → Bool
  | .breakTok _ | .delTok _ | .watchTok .. | .unwatchTok _ | .lockTok _ | .unlockTok => true
  | _ => false

theorem ignoringCode_tables {m : DbgM Int} (h : Keeps Sys.tables m) :
    Keeps Sys.tables (ignoringCode m) := Keeps.bind h fun _ => Keeps.pure _

/-- The other commands leave what the tables hold as it is. -/
theorem exec_tables {c : Command} (hedits : c.edits = false) (hrestarts : c.restarts = false) :
    Keeps Sys.tables (exec c) := by
  cases c with
  | runTok argv => exact absurd hrestarts.symm Bool.false_ne_true
  | continueTok => exact cdbgReplCmdContinue_tables
  | stepTok => exact replStepWith_tables (stepLines_tables fun _ => stepRound_tables)
  | siTok => exact cdbgReplCmdSi_tables
  | nextTok => exact replStepWith_tables (stepLines_tables nextRound_tables)
  | upTok => exact ignoringCode_tables cdbgFrameUp_tables
  | regsTok =>
    exact Keeps.bind cdbgRefreshRegs_tables fun _ => Keeps.ite (Keeps.pure _) (Keeps.pure _)
  | setTok assignment => exact ignoringCode_tables (cmdSet_tables assignment)
  | threadTok args => exact ignoringCode_tables (cmdThread_tables args)
  | lockTok args => exact absurd hedits.symm Bool.false_ne_true
  | unlockTok => exact absurd hedits.symm Bool.false_ne_true
  | breakTok target => exact absurd hedits.symm Bool.false_ne_true
  | delTok args => exact absurd hedits.symm Bool.false_ne_true
  | watchTok expr resolved => exact absurd hedits.symm Bool.false_ne_true
  | unwatchTok args => exact absurd hedits.symm Bool.false_ne_true
  | killTok => exact absurd hrestarts.symm Bool.false_ne_true

/-- `cdbg_init` -/
def cdbgInit : Cdbg := {}

/-- `main` up to the REPL, with the program's resolved path in front of its arguments. -/
def mainStart (spawnArgv : List CStr) : DbgM Int := do
  modifyDbg fun _ => cdbgInit
  if (← cdbgSetRunTarget spawnArgv) ≠ 0 then return -1
  if (← cdbgRun none) ≠ 0 then return -1
  return 0

/-- What `run` keeps holds at the first prompt if it holds of the state `cdbg_init` makes. -/
theorem wp_mainStart {I : Sys → Prop} (htarget : ∀ argv, Obeys (Carries I) (cdbgSetRunTarget argv))
    (hrun : Obeys (Carries I) (cdbgRun none)) {s : Sys} (hinit : I (s.withDbg cdbgInit))
    (spawnArgv : List CStr) : wp (mainStart spawnArgv) (fun _ => I) s := by
  have hrest : Obeys (Carries I) (do
      if (← cdbgSetRunTarget spawnArgv) ≠ 0 then return -1
      if (← cdbgRun none) ≠ 0 then return -1
      return 0) :=
    Obeys.bind (htarget spawnArgv) fun rc => Obeys.ite (Obeys.pure _)
      (Obeys.bind hrun fun rc => Obeys.ite (Obeys.pure _) (Obeys.pure _))
  rw [mainStart, wp_bind, wp_modifyDbg]
  exact hrest _ hinit

/-- A session that locks a thread and watches a variable. -/
def lockAndWatch : Sys :=
  let idle := Sys.attached .x86_64 twoThreads fun _ => .stopped 5 []
  let s₀ := ((mainStart ["./target".toList]).run idle).2
  let s := (runCommand (.lockTok (some "1".toList)) s₀).2
  (runCommand (.watchTok (some "x".toList) (some (0x2000, 4))) s).2

/-- The tables hold the same at all prompts until one of them is edited. -/
theorem Reaches.tables_same {ok : Command → Sys → Sys → Prop} {s₀ s : Sys}
    (hok : ∀ c s s', ok c s s' → c.edits = false ∧ c.restarts = false) (h : Reaches ok s₀ s) :
    s.tables = s₀.tables := by
  induction h with
  | start => rfl
  | @command s c _ hc _ ih =>
    obtain ⟨hedits, hrestarts⟩ := hok _ _ _ hc
    exact (exec_tables hedits hrestarts s.unlogged).trans ih

theorem lockAndWatch_continued :
    (runCommand .continueTok lockAndWatch).2.tables = lockAndWatch.tables :=
  @Reaches.tables_same (fun c _ _ => c.edits = false ∧ c.restarts = false) _ _
    (fun _ _ _ h => h) (.command .start ⟨rfl, rfl⟩ (by decide +kernel))

end Debugger
