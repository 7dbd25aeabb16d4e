/-
Starting and ending the debuggee (`cdbg_run`, `cdbg_spawn`, `stop_debuggee`).

`cdbgRun` kills a running debuggee, keeps the arguments of all `break` commands,
wipes the tables, spawns the program, sets every breakpoint again in the new
process and runs to the first line of `main`, where it places a temporary
breakpoint.
-/
import Debugger.Commands

open Prog

namespace Debugger

/-! ### Ending the debuggee -/

/-- Kill the debuggee and wait for its end. -/
def killAndWait (pid : ℕ) : DbgM Int := do
  if (← ptraceKill pid) ≠ 0 then return -1
  if (← cdbgProcessWait pid) ≠ 0 then return -1
  return 0

/-- The state without a debuggee. -/
def Cdbg.detached (d : Cdbg) : Cdbg :=
  { d with
    pid := 0
    state := .idle
    currentTid := tidPrimary
    threadLockActive := false
    suspendedTidCount := 0
    breakpoints := d.breakpoints.map fun bp => { bp with enabled := false }
    watchpoints := d.watchpoints.map fun watch => { watch with enabled := false } }

/-- Kill the debuggee unless it has ended. -/
def killIfLive (d : Cdbg) : DbgM Int :=
  if d.state ≠ .idle then killAndWait d.pid else return 0

/-- `stop_debuggee` -/
def stopDebuggee : DbgM Int := do
  let s ← get
  if s.dbg.pid = 0 then
    setState .idle
    return 0
  if (← killIfLive s.dbg) ≠ 0 then return -1
  modifyDbg Cdbg.detached
  return 0

/-! ### Debug information -/

/-- The start of the first readable and executable region of the process. -/
def regionScan (pid : ℕ) : DbgM (Option Addr) :=
  kernelRead .regions pid (·.execBase)

/-- `cdbg_lineno_update_slide` -/
def cdbgLinenoUpdateSlide (pid : ℕ) : DbgM Int := do
  match ← regionScan pid with
  | none => return -1
  | some base =>
    modifyDbg fun d => { d with lineno := { d.lineno with slide := base - d.lineno.linkBase } }
    return 0

/-- `cdbg_syms_update_slide` -/
def cdbgSymsUpdateSlide (pid : ℕ) : DbgM Int := do
  match ← regionScan pid with
  | none => return -1
  | some base =>
    modifyDbg fun d => { d with syms := { d.syms with slide := base - d.syms.linkBase } }
    return 0

/-- Update a slide if the flag is set, ignoring the return code. -/
def updateIf (flag : Bool) (update : DbgM Int) : DbgM PUnit := do
  if flag then
    let _ ← update

/-- Update the slides of the tables for which the flag is set. -/
def updateSlides (linenoOk symsOk : Bool) : DbgM PUnit := do
  let s ← get
  updateIf linenoOk (cdbgLinenoUpdateSlide s.dbg.pid)
  updateIf symsOk (cdbgSymsUpdateSlide s.dbg.pid)

/-- The slide updates of `cdbg_run` and `cdbg_spawn`, for the tables with entries. -/
def updateLoadedSlides : DbgM PUnit := do
  let s ← get
  updateSlides (s.dbg.lineno.entries.length > 0) (s.dbg.syms.entries.length > 0)

/-- `CDBG_MAX_PATH` -/
def maxPath : ℕ := 1024

/-- `cdbg_load_symbols`; a loaded table starts with slide 0. -/
def cdbgLoadSymbols (executablePath : CStr) : DbgM Int := do
  let s ← get
  let ((linenoOk, lineno), (symsOk, syms)) := s.os.debugInfo s.os.loads executablePath
  modify fun s => { s with os := { s.os with loads := s.os.loads + 1 } }
  modifyDbg fun d => { d with
    executablePath := snprintf maxPath executablePath
    lineno := { lineno with slide := 0 }
    syms := { syms with slide := 0 } }
  if s.dbg.pid > 0 then
    updateSlides linenoOk symsOk
    return if linenoOk || symsOk then 0 else -1
  return if linenoOk || symsOk then 0 else -1

/-! ### Starting the debuggee -/

/-- `CDBG_MAX_RUN_ARGS` -/
def maxRunArgs : ℕ := 64

/-- `cdbg_set_run_target`; a list that is too long still overwrites the stored texts. -/
def cdbgSetRunTarget (argv : List CStr) : DbgM Int := do
  if argv = [] then return -1
  if argv.length > maxRunArgs then
    modifyDbg fun d => { d with
      runArgv := (argv.map (snprintf maxPath)).take d.runArgv.length }
    return -1
  modifyDbg fun d => { d with runArgv := argv.map (snprintf maxPath) }
  return 0

/-- `cdbg_spawn` -/
def cdbgSpawn : DbgM Int := do
  match ← cdbgProcessSpawn with
  | none => return -1
  | some pid =>
    modifyDbg fun d => { d with pid := pid, state := .running }
    updateLoadedSlides
    return 0

/-- The line `resolve_entry_stop_addr` falls back to: the row with the lowest address
among those from `addr` on. -/
def firstLineFrom (ln : Lineno) (addr : Addr) : Option LineEntry :=
  ln.entries.foldl (fun first entry =>
    if ln.runtimeAddr entry.address < addr then first
    else
      match first with
      | none => some entry
      | some f => if entry.address < f.address then some entry else first) none

/-- `resolve_entry_stop_addr`: the first line of the body of `main`. -/
def resolveEntryStopAddr (d : Cdbg) : Option Addr :=
  match d.syms.lookupName "main".toList with
  | none => none
  | some sym =>
    if sym.undefined then none
    else
      let addr := d.syms.runtimeAddr sym.address
      match (d.lineno.lookupNextLineAfterPc addr).or (firstLineFrom d.lineno addr) with
      | some entry => some (d.lineno.runtimeAddr entry.address)
      | none => some addr

/-- The end of `run_to_entry_stop`, once the debuggee has stopped: 1 at the entry. -/
def finishEntryStop (tempBp : Breakpoint) : DbgM Int := do
  if (← cdbgRefreshRegs) ≠ 0 then
    dropTempBreakpoint tempBp
    return -1
  let s ← get
  let pc := s.dbg.regs.pc
  if cdbgBpMatchesPc s.os.arch pc tempBp then
    dropTempBreakpoint tempBp
    if pc > 0 then
      let regs := s.dbg.regs.setPc (pc - 1)
      setRegs regs
      if (← cdbgRegsSet s.dbg.pid s.dbg.currentTid regs) ≠ 0 then return -1
      return 1
    return 1
  -- the stop is another one; it is not handled here, nor by `cdbg_run`
  dropTempBreakpoint tempBp
  return 0

/-- `run_to_entry_stop`, once the temporary breakpoint is in place. -/
def continueToEntry (tempBp : Breakpoint) : DbgM Int := do
  if (← cdbgContinue) ≠ 0 then
    dropTempBreakpoint tempBp
    return -1
  if (← cdbgWait) ≠ 0 then
    dropTempBreakpoint tempBp
    return -1
  let s ← get
  if s.dbg.state ≠ .stopped then
    dropTempBreakpoint tempBp
    return 0
  finishEntryStop tempBp

/-- `run_to_entry_stop`: 1 when the debuggee stands at the entry, 0 when it has stopped
elsewhere. -/
def runToEntryStop : DbgM Int := do
  let s ← get
  if s.dbg.state ≠ .stopped then return 0
  match resolveEntryStopAddr s.dbg with
  | none => return 0
  | some entryAddr =>
    let (rc, tempBp) ← cdbgBpEnable {} s.dbg.pid entryAddr
    if rc ≠ 0 then return -1
    continueToEntry tempBp

/-- The state `cdbg_run` starts a new debuggee from. -/
def Cdbg.wiped (arch : Arch) (d : Cdbg) : Cdbg :=
  { d with
    breakpoints := []
    watchpoints := []
    regs := match arch with
      | .x86_64 => .x86 fun _ => 0
      | .aarch64 => .arm fun _ => 0
    currentTid := tidPrimary
    threadLockActive := false
    suspendedTidCount := 0
    waitStatus := .exited 0 }

/-- `cdbg_run`, once the new process has stopped for the first time. -/
def setUpRun (specs : List CStr) : DbgM Int := do
  updateLoadedSlides
  forEach (fun spec => do let _ ← cmdBreak spec) specs
  let entryRc ← runToEntryStop
  if entryRc < 0 then
    reportProcessExit
    return -1
  -- the registers of a stop that is not the one at the entry
  let s ← get
  if entryRc = 0 ∧ s.dbg.state = .stopped then
    let _ ← cdbgRefreshRegs
    return 0
  return 0

/-- `cdbg_run`, once the program is known. -/
def startRun (program : CStr) : DbgM Int := do
  if (← stopDebuggee) ≠ 0 then return -1
  let s ← get
  let specs := s.dbg.breakpoints.map fun bp => snprintf specSize bp.spec
  modifyDbg (Cdbg.wiped s.os.arch)
  let _ ← cdbgLoadSymbols program
  if (← cdbgSpawn) ≠ 0 then return -1
  if (← cdbgWait) ≠ 0 then
    reportProcessExit
    return -1
  setUpRun specs

/-- The arguments of `run` replace the stored ones. -/
def setRunTargetIfGiven : Option (List CStr) → DbgM Int
  | some argv => cdbgSetRunTarget argv
  | none => return 0

/-- `cdbg_run` -/
def cdbgRun (argv : Option (List CStr)) : DbgM Int := do
  if (← setRunTargetIfGiven argv) ≠ 0 then return -1
  let s ← get
  match s.dbg.runArgv with
  | [] => return -1
  | program :: _ => startRun program

end Debugger
