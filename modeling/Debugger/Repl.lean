/-
The commands of the REPL and the sessions built from them.

`exec` runs one command.  `Reaches` are the states at the prompts of a session:
each further command is run with an empty trace, so that the trace at a prompt
holds what its command has done, and the session ends with the first outcome
other than `ok`.  A side condition on commands restricts sessions to those whose
every command meets it.
-/
import Debugger.Run

open Prog

namespace Debugger

/-- `cdbg_repl_outcome_t` -/
inductive ReplOutcome
  | ok
  | quit
  | fatal
deriving DecidableEq, Repr

/-! ### Commands that resume the debuggee -/

/-- The common end of the commands that resume: `OK` after reporting the debuggee's
end, otherwise fatal. -/
def exitOrFatal : DbgM ReplOutcome := do
  let s ← get
  if s.dbg.state = .idle then
    reportProcessExit
    return .ok
  return .fatal

/-- The common end of the commands that resume, after a successful wait. -/
def reportAfterWait : DbgM ReplOutcome := do
  let s ← get
  if s.dbg.state = .stopped then
    let _ ← reportStop
    return .ok
  reportProcessExit
  return .ok

/-- `cdbg_repl_cmd_continue` -/
def cdbgReplCmdContinue : DbgM ReplOutcome := do
  let s ← get
  if s.dbg.state = .idle then return .ok
  if (← cdbgContinue) ≠ 0 then return .fatal
  let s ← get
  if s.dbg.state = .idle then
    reportProcessExit
    return .ok
  if (← cdbgWait) ≠ 0 then exitOrFatal
  else reportAfterWait

/-- `cdbg_repl_cmd_step` and `cdbg_repl_cmd_next` differ in the function they call. -/
def replStepWith (stepFn : DbgM Int) : DbgM ReplOutcome := do
  let s ← get
  if s.dbg.state = .idle then return .ok
  if !requirePrimaryThreadForStep s.dbg then return .ok
  let rc ← stepFn
  let s ← get
  if rc ≠ 0 ∧ s.dbg.state ≠ .idle then return .fatal
  reportProcessExit
  return .ok

/-- `cdbg_repl_cmd_step` -/
def cdbgReplCmdStep : DbgM ReplOutcome := replStepWith cdbgStepNextLine

/-- `cdbg_repl_cmd_next` -/
def cdbgReplCmdNext : DbgM ReplOutcome := replStepWith cdbgNextSourceLine

/-- One instruction and the wait for it; the second code is -1 without a wait. -/
def stepAndWait : DbgM (Int × Int) := do
  let stepRc ← cdbgSingleStep
  if stepRc ≠ 0 then return (stepRc, -1)
  let waitRc ← cdbgWait
  return (stepRc, waitRc)

/-- `cdbg_repl_cmd_si` -/
def cdbgReplCmdSi : DbgM ReplOutcome := do
  let s ← get
  if s.dbg.state = .idle then return .ok
  if !requirePrimaryThreadForStep s.dbg then return .ok
  let guard ← stepThreadGuardBegin
  let (stepRc, waitRc) ← stepAndWait
  stepThreadGuardEnd guard
  if stepRc ≠ 0 then return .fatal
  if waitRc ≠ 0 then exitOrFatal
  else reportAfterWait

/-- `cdbg_repl_cmd_kill` -/
def cdbgReplCmdKill : DbgM ReplOutcome := do
  let s ← get
  if s.dbg.pid = 0 ∨ s.dbg.state = .idle then return .ok
  let _ ← stopDebuggee
  return .ok

/-- `cdbg_repl_cmd_regs`, without the listing. -/
def cdbgReplCmdRegs : DbgM ReplOutcome := do
  if (← cdbgRefreshRegs) ≠ 0 then return .fatal
  return .ok

/-! ### Dispatch -/

/-- The lines of `cmd_grammar.y` that act on the debuggee or on the debugger's tables. -/
inductive Command
  | runTok (argv : Option (List CStr))
  | continueTok
  | stepTok
  | siTok
  | nextTok
  | upTok
  | regsTok
  | setTok (assignment : Assignment)
  | threadTok (args : Option CStr)
  | lockTok (args : Option CStr)
  | unlockTok
  | breakTok (target : CStr)
  | delTok (args : Option CStr)
  | watchTok (expr : Option CStr) (resolved : Option (Addr × ℕ))
  | unwatchTok (args : Option CStr)
  | killTok

/-- Run a command whose return code the grammar ignores. -/
def ignoringCode (m : DbgM Int) : DbgM ReplOutcome := do
  let _ ← m
  return .ok

/-- The action of a command line. -/
def exec : Command → DbgM ReplOutcome
  | .runTok argv => ignoringCode (cdbgRun argv)
  | .continueTok => cdbgReplCmdContinue
  | .stepTok => cdbgReplCmdStep
  | .siTok => cdbgReplCmdSi
  | .nextTok => cdbgReplCmdNext
  | .upTok => ignoringCode cdbgFrameUp
  | .regsTok => cdbgReplCmdRegs
  | .setTok assignment => ignoringCode (cmdSet assignment)
  | .threadTok args => ignoringCode (cmdThread args)
  | .lockTok args => ignoringCode (cmdLock args)
  | .unlockTok => ignoringCode cmdUnlock
  | .breakTok target => ignoringCode (cmdBreak target)
  | .delTok args => ignoringCode (cmdDel args)
  | .watchTok expr resolved => ignoringCode (cmdWatch expr resolved)
  | .unwatchTok args => ignoringCode (cmdUnwatch args)
  | .killTok => cdbgReplCmdKill

/-- The state with an empty trace. -/
def Sys.unlogged (s : Sys) : Sys := { s with log := [] }

/-- The outcome of a command and the state after it, with the command's own trace. -/
def runCommand (c : Command) (s : Sys) : ReplOutcome × Sys := (exec c).run s.unlogged

/-- The prompts of the sessions that start in `s₀` and whose commands all meet the
condition `ok`, a relation between a command, the state before and the state after. -/
inductive Reaches (ok : Command → Sys → Sys → Prop) (s₀ : Sys) : Sys → Prop
  | start : Reaches ok s₀ s₀
  | command {s : Sys} {c : Command} (h : Reaches ok s₀ s)
      (hok : ok c s (runCommand c s).2) (hrc : (runCommand c s).1 = .ok) :
      Reaches ok s₀ (runCommand c s).2

/-- The debugger in front of a stopped process, with empty tables. -/
def Sys.attached (arch : Arch) (p : Process) (events : ℕ → WaitEvent) : Sys where
  dbg := { pid := p.pid, state := .stopped }
  os := { arch := arch, proc := some p, events := events, images := fun _ => p }

/-- A process with a primary and a second thread. -/
def twoThreads : Process where
  pid := 100
  mem _ := 0x90
  threads := [{ tid := 1, regs := x86At 0x1000 }, { tid := 2, regs := x86At 0x2000 }]
  usedTids := [1, 2]

theorem twoThreads_wellFormed : twoThreads.WellFormed where
  nodup := by decide
  ne_zero := by decide
  used := by decide

end Debugger
