/-
Reporting a stop (`report_stop` and what it calls).

At a stop the debugger re-arms the watchpoints on every thread, selects the first
thread that stands at the trap of an enabled breakpoint, and either handles that
breakpoint hit (the original byte goes back, the pc is moved back by one) or looks
for a watchpoint whose memory has changed.
-/
import Debugger.Breakpoint

open Prog

namespace Debugger

/-- `resync_watchpoints_to_all_threads`, from the entry with the given number on. -/
def resyncFrom (pid : ℕ) : ℕ → List Watchpoint → DbgM PUnit
  | _, [] => pure ⟨⟩
  | i, watch :: rest => do
    if watch.enabled then
      let _ ← cdbgWpHwInstall pid i watch.addr watch.size watch.mode
      resyncFrom pid (i + 1) rest
    else resyncFrom pid (i + 1) rest

/-- `resync_watchpoints_to_all_threads` -/
def resyncWatchpointsToAllThreads : DbgM PUnit := do
  let s ← get
  resyncFrom s.dbg.pid 0 s.dbg.watchpoints

/-- The scan of `switch_current_tid_to_breakpoint_hit`. -/
def switchLoop (pid : ℕ) : List ThreadInfo → DbgM PUnit
  | [] => pure ⟨⟩
  | t :: ts => do
    match ← cdbgRegsGet pid t.selector with
    | none => switchLoop pid ts
    | some regs =>
      let s ← get
      -- the scan ends at the first trapped thread
      if cdbgBpIsTrap s.os.arch regs.pc s.dbg.breakpoints then setCurrentTid t.selector
      else switchLoop pid ts

/-- `switch_current_tid_to_breakpoint_hit` -/
def switchCurrentTidToBreakpointHit : DbgM PUnit := do
  let s ← get
  if s.dbg.breakpoints = [] then return
  match ← cdbgThreadsList s.dbg.pid with
  | none => return
  | some infos => switchLoop s.dbg.pid infos

/-- The end of `handle_breakpoint_hit`: the pc of the selected thread moves back by one. -/
def rewindPc : DbgM Int := do
  let s ← get
  let pc := s.dbg.regs.pc
  -- a trap at the last address would leave the pc at 0
  if pc > 0 then
    let regs := s.dbg.regs.setPc (pc - 1)
    setRegs regs
    if (← cdbgRegsSet s.dbg.pid s.dbg.currentTid regs) ≠ 0 then return -1
    return 0
  return 0

/-- `handle_breakpoint_hit` -/
def handleBreakpointHit (index : ℕ) : DbgM Int := do
  let s ← get
  modify fun s => s.recordHit index
  let (rc, bp) ← cdbgBpDisable (s.dbg.breakpoints.getD index {}) s.dbg.pid
  setBreakpoints (s.dbg.breakpoints.set index bp)
  -- the entry is stored back in any case
  if rc ≠ 0 then return -1
  if (← cdbgRefreshRegs) ≠ 0 then return -1
  rewindPc

/-- The scan of `find_watchpoint_hit`, from the entry with the given number on. -/
def findWatchpointHitFrom (pid : ℕ) : ℕ → List Watchpoint → DbgM (Option ℕ)
  | _, [] => return none
  | i, watch :: rest => do
    if !watch.enabled then findWatchpointHitFrom pid (i + 1) rest
    else
      match ← cdbgMemRead pid watch.addr watch.size with
      | none => findWatchpointHitFrom pid (i + 1) rest
      | some bytes =>
        if valueOf bytes ≠ watch.oldValue then return some i
        findWatchpointHitFrom pid (i + 1) rest

/-- `find_watchpoint_hit` -/
def findWatchpointHit : DbgM (Option ℕ) := do
  let s ← get
  findWatchpointHitFrom s.dbg.pid 0 s.dbg.watchpoints

/-- `report_watchpoint_hit` -/
def reportWatchpointHit (index : ℕ) : DbgM PUnit := do
  let s ← get
  let watch := s.dbg.watchpoints.getD index {}
  match ← cdbgMemRead s.dbg.pid watch.addr watch.size with
  | none => return
  | some bytes =>
    setWatchpoints (s.dbg.watchpoints.set index { watch with oldValue := valueOf bytes })

/-- The end of `report_stop`, when no breakpoint matches the pc. -/
def reportOtherStop : DbgM Int := do
  match ← findWatchpointHit with
  | some i =>
    reportWatchpointHit i
    return 0
  | none => return 0

/-- `report_stop` once a thread is selected; the entry it handles is the first one that
matches the pc. -/
def reportSelected : DbgM Int := do
  if (← cdbgRefreshRegs) ≠ 0 then return -1
  let s ← get
  match s.dbg.breakpoints.findIdx? (cdbgBpMatchesPc s.os.arch s.dbg.regs.pc) with
  | some i => handleBreakpointHit i
  | none => reportOtherStop

/-- `report_stop` -/
def reportStop : DbgM Int := do
  resyncWatchpointsToAllThreads
  switchCurrentTidToBreakpointHit
  reportSelected

/-- The state once the debuggee's end is reported. -/
def Cdbg.exited (d : Cdbg) : Cdbg :=
  { d with
    breakpoints := d.breakpoints.map fun bp => { bp with enabled := false }
    watchpoints := d.watchpoints.map fun watch => { watch with enabled := false }
    pid := 0 }

/-- `report_process_exit` -/
def reportProcessExit : DbgM PUnit := do
  let s ← get
  if s.dbg.state ≠ .idle then return
  modifyDbg Cdbg.exited

/-- `report_stop` looks for an entry exactly when `cdbg_bp_is_trap` holds. -/
theorem cdbgBpIsTrap_iff_findIdx {arch : Arch} {pc : Addr} {bps : List Breakpoint} :
    cdbgBpIsTrap arch pc bps = true ↔
      ∃ i, bps.findIdx? (cdbgBpMatchesPc arch pc) = some i := by
  rw [cdbgBpIsTrap, List.any_eq_true, ← Option.isSome_iff_exists, List.findIdx?_isSome,
    List.any_eq_true]

end Debugger
