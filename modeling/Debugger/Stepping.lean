/-
Source-level stepping (`cdbg_step_next_line`, `cdbg_next_source_line`).

Both commands single-step until the line changes, a breakpoint or a watchpoint is
hit, or the debuggee ends, for at most `maxStepIterations` rounds; `next` runs a
direct call to its return address with a temporary breakpoint instead of stepping
into it.  While they run, a guard suspends every thread other than the primary and
the selected one, also those that appear between two rounds.

A round of either loop is one definition; it returns `.inl` to go on and `.inr`
where the source jumps to `done`, both with the guard, which `done` releases.
-/
import Debugger.Stop

open Prog

namespace Debugger

/-- `CDBG_MAX_STEP_ITERATIONS` -/
def maxStepIterations : ℕ := 100000

/-! ### The thread guard -/

/-- `cdbg_step_thread_guard_t`: the threads it has suspended, in order. -/
abbrev Guard := List UInt64

/-- The scan of `step_thread_guard_catch_up`. -/
def catchUpLoop (pid : ℕ) (currentTid : UInt64) : List ThreadInfo → Guard → DbgM Guard
  | [], guard => return guard
  | t :: ts, guard => do
    if guard.length ≥ maxThreads then return guard
    if t.isPrimary ∨ t.tid = currentTid ∨ t.tid ∈ guard then
      catchUpLoop pid currentTid ts guard
    else
      -- a thread that cannot be suspended is not recorded, so `guard_end` does not resume it
      let rc ← cdbgThreadSuspend pid t.tid
      catchUpLoop pid currentTid ts (if rc = 0 then guard ++ [t.tid] else guard)

/-- `step_thread_guard_catch_up` -/
def stepThreadGuardCatchUp (guard : Guard) : DbgM Guard := do
  let s ← get
  if s.dbg.threadLockActive then return guard
  match ← cdbgThreadsList s.dbg.pid with
  | none => return guard
  | some infos => catchUpLoop s.dbg.pid s.dbg.currentTid infos guard

/-- `step_thread_guard_begin` -/
def stepThreadGuardBegin : DbgM Guard := stepThreadGuardCatchUp []

/-- `step_thread_guard_end` -/
def stepThreadGuardEnd (guard : Guard) : DbgM PUnit := do
  let s ← get
  forEach (fun tid => do let _ ← cdbgThreadResume s.dbg.pid tid) guard

/-- `require_primary_thread_for_step` -/
def requirePrimaryThreadForStep (d : Cdbg) : Bool := d.currentTid = tidPrimary

/-! ### Stepping over a call -/

/-- `call_return_address`: the address behind a direct call instruction at `pc`. -/
def callReturnAddress (pc : Addr) : DbgM (Option Addr) := do
  let s ← get
  match s.os.arch with
  | .x86_64 =>
    match ← cdbgMemRead s.dbg.pid pc 1 with
    | none => return none
    | some bytes => return if bytes.headD 0 = 0xe8 then some (pc + 5) else none
  | .aarch64 =>
    match ← cdbgMemRead s.dbg.pid pc 4 with
    | none => return none
    | some bytes =>
      return if valueOf bytes &&& 0xfc000000 = 0x94000000 then some (pc + 4) else none

/-- Take a temporary breakpoint back, ignoring the return code. -/
def dropTempBreakpoint (tempBp : Breakpoint) : DbgM PUnit := do
  let s ← get
  let _ ← cdbgBpDisable tempBp s.dbg.pid

/-- `finish_temp_breakpoint` -/
def finishTempBreakpoint (tempBp : Breakpoint) : DbgM Int := do
  if (← cdbgRefreshRegs) ≠ 0 then
    dropTempBreakpoint tempBp
    return -1
  let s ← get
  if !cdbgBpMatchesPc s.os.arch s.dbg.regs.pc tempBp then
    -- another stop is reported here, and the caller gets the same code as for the return
    dropTempBreakpoint tempBp
    reportStop
  else
    let (rc, _) ← cdbgBpDisable tempBp s.dbg.pid
    if rc ≠ 0 then return -1
    if s.os.arch = .x86_64 then
      let regs := s.dbg.regs.setPc tempBp.addr
      setRegs regs
      if (← cdbgRegsSet s.dbg.pid s.dbg.currentTid regs) ≠ 0 then return -1
      return 0
    return 0

/-- `step_over_call` -/
def stepOverCall (returnAddr : Addr) : DbgM Int := do
  let s ← get
  let (rc, tempBp) ← cdbgBpEnable {} s.dbg.pid returnAddr
  if rc ≠ 0 then return -1
  if (← cdbgContinue) ≠ 0 then
    dropTempBreakpoint tempBp
    return -1
  -- the debuggee has ended in the step off a breakpoint
  let s ← get
  if s.dbg.state = .idle then
    dropTempBreakpoint tempBp
    return 0
  if (← cdbgWait) ≠ 0 then
    dropTempBreakpoint tempBp
    let s ← get
    return if s.dbg.state = .idle then 0 else -1
  let s ← get
  if s.dbg.state ≠ .stopped then
    dropTempBreakpoint tempBp
    return 0
  finishTempBreakpoint tempBp

/-! ### The two stepping commands -/

/-- Both functions when the pc has no line information: one instruction, and the stop
is reported. -/
def singleStepAndReport : DbgM Int := do
  if (← cdbgSingleStep) ≠ 0 then return -1
  if (← cdbgWait) ≠ 0 then
    let s ← get
    return if s.dbg.state = .idle then 0 else -1
  let s ← get
  if s.dbg.state = .stopped then
    let _ ← reportStop
    return 0
  return 0

/-- One single step of a stepping loop; `some rc` leaves the loop with `rc`. -/
def stepRound : DbgM (Option Int) := do
  if (← cdbgSingleStep) ≠ 0 then return some (-1)
  if (← cdbgWait) ≠ 0 then
    let s ← get
    return some (if s.dbg.state = .idle then 0 else -1)
  let s ← get
  if s.dbg.state ≠ .stopped then return some 0
  return none

/-- One advance of `next` from `pc`: over a direct call, or a single step. -/
def nextRound (pc : Addr) : DbgM (Option Int) := do
  match ← callReturnAddress pc with
  | some returnAddr =>
    if (← stepOverCall returnAddr) ≠ 0 then return some (-1)
    let s ← get
    if s.dbg.state ≠ .stopped then return some 0
    return none
  | none => stepRound

/-- The tests both loops make after an advance: breakpoint, watchpoint, line change.
`.inl pc` goes on. -/
def checkStop (start : CStr × UInt32) : DbgM (Addr ⊕ Int) := do
  if (← cdbgRefreshRegs) ≠ 0 then return .inr (-1)
  let s ← get
  let pc := s.dbg.regs.pc
  if cdbgBpIsTrap s.os.arch pc s.dbg.breakpoints then
    let rc ← reportStop
    return .inr rc
  match ← findWatchpointHit with
  | some i =>
    reportWatchpointHit i
    return .inr 0
  | none =>
    match s.dbg.lineno.lineAtPc pc with
    -- code without line information is stepped through
    | none => return .inl pc
    | some cur => return if cur ≠ start then .inr 0 else .inl pc

/-- One round of a stepping loop with the given advance. -/
def stepLoopRound (advance : Addr → DbgM (Option Int)) (start : CStr × UInt32) :
    Guard × Addr → DbgM ((Guard × Addr) ⊕ (Guard × Int))
  | (guard, pc) => do
    let guard ← stepThreadGuardCatchUp guard
    match ← advance pc with
    | some rc => return .inr (guard, rc)
    | none =>
      match ← checkStop start with
      | .inl pc' => return .inl (guard, pc')
      | .inr rc => return .inr (guard, rc)

/-- A stepping command with the given advance. -/
def stepLines (advance : Addr → DbgM (Option Int)) : DbgM Int := do
  if (← cdbgRefreshRegs) ≠ 0 then return -1
  let s ← get
  let pc := s.dbg.regs.pc
  match s.dbg.lineno.lineAtPc pc with
  | none => singleStepAndReport
  | some start =>
    let guard ← stepThreadGuardBegin
    match ← loopUpTo (stepLoopRound advance start) maxStepIterations (guard, pc) with
    | .inl (guard, _) =>
      -- the rounds are used up
      stepThreadGuardEnd guard
      return -1
    | .inr (guard, rc) =>
      stepThreadGuardEnd guard
      return rc

/-- `cdbg_step_next_line` -/
def cdbgStepNextLine : DbgM Int := stepLines fun _ => stepRound

/-- `cdbg_next_source_line` -/
def cdbgNextSourceLine : DbgM Int := stepLines nextRound

end Debugger
