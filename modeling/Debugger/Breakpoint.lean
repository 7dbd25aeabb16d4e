/-
Software breakpoints (`breakpoint.c`) and the part of `debugger.c` that waits for
and resumes the debuggee across them.

A table entry is enabled when its trap byte has been written over the byte kept
in `savedByte`.  `cdbgWait` puts disabled entries back as soon as the selected
thread has left their address, and `cdbgContinue` first single-steps off an entry
that is disabled at the pc.
-/
import Debugger.Kernel

open Prog

namespace Debugger

/-- `cdbg_bp_enable`: the return code and the updated entry. -/
def cdbgBpEnable (bp : Breakpoint) (pid : ℕ) (addr : Addr) : DbgM (Int × Breakpoint) := do
  match ← cdbgMemRead pid addr 1 with
  | none => return (-1, bp)
  | some bytes =>
    let bp := { bp with addr := addr, savedByte := bytes.headD 0, enabled := true }
    let s ← get
    if (← cdbgMemWrite pid addr [trapByte s.os.arch]) ≠ 0 then
      return (-1, { bp with enabled := false })
    return (0, bp)

/-- `cdbg_bp_disable` -/
def cdbgBpDisable (bp : Breakpoint) (pid : ℕ) : DbgM (Int × Breakpoint) := do
  if !bp.enabled then return (0, bp)
  if (← cdbgMemWrite pid bp.addr [bp.savedByte]) ≠ 0 then return (-1, bp)
  return (0, { bp with enabled := false })

/-- `cdbg_bp_matches_pc` -/
def cdbgBpMatchesPc (arch : Arch) (pc : Addr) (bp : Breakpoint) : Bool :=
  bp.enabled &&
    match arch with
    | .x86_64 => bp.addr + 1 = pc
    | .aarch64 => bp.addr = pc

/-- `cdbg_bp_is_trap` -/
def cdbgBpIsTrap (arch : Arch) (pc : Addr) (bps : List Breakpoint) : Bool :=
  bps.any (cdbgBpMatchesPc arch pc)

/-- `cdbg_refresh_regs` -/
def cdbgRefreshRegs : DbgM Int := do
  let s ← get
  match ← cdbgRegsGet s.dbg.pid s.dbg.currentTid with
  | none => return -1
  | some regs =>
    setRegs regs
    return 0

/-- `disabled_breakpoint_at_pc` -/
def disabledBreakpointAtPc (bps : List Breakpoint) (pc : Addr) : Option Breakpoint :=
  bps.find? fun bp => !bp.enabled && bp.addr = pc

/-- The loop of `reenable_breakpoints_after_step`: the return code and the entries, up
to the first one that cannot be enabled. -/
def reenableLoop (pid : ℕ) (pc : Addr) : List Breakpoint → DbgM (Int × List Breakpoint)
  | [] => return (0, [])
  | bp :: bps => do
    if !bp.enabled ∧ bp.addr ≠ pc then
      let (rc, bp') ← cdbgBpEnable bp pid bp.addr
      -- the entries behind it stay disabled
      if rc ≠ 0 then return (-1, bp' :: bps)
      let (rc', bps') ← reenableLoop pid pc bps
      return (rc', bp' :: bps')
    let (rc', bps') ← reenableLoop pid pc bps
    return (rc', bp :: bps')

/-- `reenable_breakpoints_after_step` -/
def reenableBreakpointsAfterStep : DbgM Int := do
  let s ← get
  if s.dbg.breakpoints = [] ∨ s.dbg.state ≠ .stopped then return 0
  if (← cdbgRefreshRegs) ≠ 0 then return -1
  let s ← get
  let (rc, bps) ← reenableLoop s.dbg.pid s.dbg.regs.pc s.dbg.breakpoints
  setBreakpoints bps
  return rc

/-- `cdbg_wait`: 0 for a stop, 1 for the end of the debuggee, -1 for a failure. -/
def cdbgWait : DbgM Int := do
  let s ← get
  if (← cdbgProcessWait s.dbg.pid) ≠ 0 then return -1
  let s ← get
  match s.dbg.waitStatus with
  | .exited _ =>
    setState .idle
    return 1
  | .signaled _ =>
    setState .idle
    return 1
  | .stopped _ =>
    setState .stopped
    if (← reenableBreakpointsAfterStep) ≠ 0 then return -1
    return 0

/-- `cdbg_single_step` -/
def cdbgSingleStep : DbgM Int := do
  let s ← get
  if (← ptraceResume .step s.dbg.pid) ≠ 0 then return -1
  setState .running
  return 0

/-- `step_over_disabled_breakpoint` -/
def stepOverDisabledBreakpoint : DbgM Int := do
  let s ← get
  if s.dbg.state ≠ .stopped ∨ s.dbg.breakpoints = [] then return 0
  if (← cdbgRefreshRegs) ≠ 0 then return -1
  let s ← get
  if disabledBreakpointAtPc s.dbg.breakpoints s.dbg.regs.pc = none then return 0
  -- `PT_STEP` steps the primary thread, whatever thread is selected
  if (← cdbgSingleStep) ≠ 0 then return -1
  cdbgWait

/-- `cdbg_continue` -/
def cdbgContinue : DbgM Int := do
  let rc ← stepOverDisabledBreakpoint
  if rc ≠ 0 then return rc
  -- the debuggee has ended in that step
  let s ← get
  if s.dbg.state = .idle then return 0
  if (← ptraceResume .cont s.dbg.pid) ≠ 0 then return -1
  setState .running
  return 0

end Debugger
