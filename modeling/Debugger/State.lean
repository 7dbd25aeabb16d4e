/-
The state of the debugger (`cdbg_t`) and of the system it runs in.

A `Sys` is the debugger's state, the operating system with the traced process,
and a trace of what has happened so far.  The operating system is a family of
oracles: `fault` decides for every kernel call whether it fails, `events` what
the debuggee does up to each stop, `images` what a newly spawned process looks
like, and `debugInfo` what the two loaders leave in an executable's tables and
whether they succeed.
-/
import Debugger.Machine
import Debugger.Lib.Wp

open Prog

namespace Debugger

/-- `cdbg_state_t` -/
inductive DbgState
  | idle
  | running
  | stopped
deriving DecidableEq, Repr

/-- What `waitpid` reports (`WIFEXITED`, `WIFSIGNALED`, otherwise stopped). -/
inductive WaitStatus
  | exited (code : ℕ)
  | signaled (sig : ℕ)
  | stopped (sig : ℕ)
deriving DecidableEq, Repr

/-- `cdbg_breakpoint_t` -/
structure Breakpoint where
  addr : Addr := 0
  savedByte : UInt8 := 0
  enabled : Bool := false
  spec : CStr := []
deriving DecidableEq, Repr

/-- `cdbg_watchpoint_t`, without the texts it is displayed with. -/
structure Watchpoint where
  enabled : Bool := false
  addr : Addr := 0
  size : ℕ := 0
  oldValue : UInt64 := 0
  mode : WpMode := .write
deriving DecidableEq, Repr

/-- The register contents a watchpoint asks for. -/
def Watchpoint.slot (wp : Watchpoint) : HwSlot :=
  { addr := wp.addr, size := wp.size, mode := wp.mode }

/-- `CDBG_MAX_BREAKPOINTS` -/
def maxBreakpoints : ℕ := 64

/-- `CDBG_MAX_THREADS` -/
def maxThreads : ℕ := 64

/-- `CDBG_TID_PRIMARY` -/
abbrev tidPrimary : UInt64 := 0

/-- `cdbg_t`: the fields that steer execution.  The tables hold exactly the entries
below their counts. -/
structure Cdbg where
  pid : ℕ := 0
  state : DbgState := .idle
  waitStatus : WaitStatus := .exited 0
  regs : Regs := .x86 fun _ => 0
  currentTid : UInt64 := tidPrimary
  threadLockActive : Bool := false
  lockedTid : UInt64 := 0
  suspendedTids : List UInt64 := []
  suspendedTidCount : ℕ := 0
  breakpoints : List Breakpoint := []
  watchpoints : List Watchpoint := []
  lineno : Lineno := {}
  syms : Syms := {}
  executablePath : CStr := []
  runArgv : List CStr := []

/-- The threads held back by `lock`. -/
def Cdbg.lockedOut (d : Cdbg) : List UInt64 :=
  if d.threadLockActive then d.suspendedTids.take d.suspendedTidCount else []

/-- The kinds of kernel calls. -/
inductive KCall
  | memRead
  | memWrite
  | regsGet
  | regsSet
  | taskThreads
  | threadSuspend
  | threadResume
  | debugState
  | regions
  | ptrace
  | waitpid
  | fork
deriving DecidableEq, Repr

/-- How a wait for the debuggee ends. -/
inductive WaitEvent
  | exited (code : ℕ)
  | signaled (sig : ℕ)
  | stopped (sig : ℕ) (moves : List Move)

/-- The event ends the debuggee. -/
def WaitEvent.isEnd : WaitEvent → Bool
  | exited _ => true
  | signaled _ => true
  | stopped _ _ => false

/-- An attempt to write memory or the registers of a thread, with its return code. -/
inductive Attempt
  | memory (addr : Addr) (bytes : List UInt8) (rc : Int)
  | registers (tid : UInt64) (regs : Regs) (rc : Int)

/-- The kernel calls so far: their number, and the attempts to write, the newest first. -/
structure KernelCalls where
  count : ℕ := 0
  attempts : List Attempt := []

/-- The operating system: the traced process and the oracles. -/
structure Os where
  arch : Arch
  proc : Option Process := none
  /-- a `PT_KILL` is pending -/
  killed : Bool := false
  /-- how the process was resumed last -/
  resume : Resume := .cont
  fault : KCall → ℕ → Bool := fun _ _ => false
  calls : KernelCalls := {}
  events : ℕ → WaitEvent
  waits : ℕ := 0
  images : ℕ → Process
  forks : ℕ := 0
  debugInfo : ℕ → CStr → (Bool × Lineno) × (Bool × Syms) := fun _ _ => ((false, {}), false, {})
  loads : ℕ := 0

/-- What the trace records, each with the debugger's and the debuggee's state at that
moment: the process was resumed, has stopped, was written to, and the handling of a
breakpoint hit has begun. -/
inductive Obs
  | resume (kind : Resume) (d : Cdbg) (p : Process)
  | stop (d : Cdbg) (p : Process)
  | memWrite (d : Cdbg) (p : Process) (addr : Addr) (bytes : List UInt8)
  | hit (d : Cdbg) (p : Process) (index : ℕ)

/-- The debugger, the system it runs in and the trace, newest event first. -/
structure Sys where
  dbg : Cdbg
  os : Os
  log : List Obs := []

/-- Programs of the debugger. -/
abbrev DbgM := StateM Sys

namespace Sys

/-- The process a `pid` argument designates. -/
def process (s : Sys) (pid : ℕ) : Option Process := s.os.proc.filter (·.pid = pid)

/-- The process once the calls counter has moved on. -/
def tick (s : Sys) : Sys :=
  { s with os := { s.os with calls := { s.os.calls with count := s.os.calls.count + 1 } } }

/-- Note an attempt to write. -/
def note (s : Sys) (a : Attempt) : Sys :=
  { s with os := { s.os with
    calls := { s.os.calls with attempts := a :: s.os.calls.attempts } } }

/-- Replace the traced process. -/
def withProc (s : Sys) (p : Process) : Sys := { s with os := { s.os with proc := some p } }

/-- Add an event to the trace. -/
def record (s : Sys) (o : Obs) : Sys := { s with log := o :: s.log }

/-- Add the beginning of the handling of a breakpoint hit. -/
def recordHit (s : Sys) (index : ℕ) : Sys :=
  match s.os.proc with
  | some p => s.record (.hit s.dbg p index)
  | none => s

/-- Replace the debugger's state. -/
def withDbg (s : Sys) (d : Cdbg) : Sys := { s with dbg := d }

theorem process_eq_some {s : Sys} {pid : ℕ} {p : Process} :
    s.process pid = some p ↔ s.os.proc = some p ∧ p.pid = pid := by
  simp [process, Option.filter_eq_some_iff]

end Sys

/-! ### Field updates -/

/-- Replace the debugger's state by a function of it. -/
def modifyDbg (f : Cdbg → Cdbg) : DbgM PUnit := modify fun s => s.withDbg (f s.dbg)

def setState (state : DbgState) : DbgM PUnit := modifyDbg fun d => { d with state := state }

def setRegs (regs : Regs) : DbgM PUnit := modifyDbg fun d => { d with regs := regs }

def setCurrentTid (tid : UInt64) : DbgM PUnit := modifyDbg fun d => { d with currentTid := tid }

def setBreakpoints (bps : List Breakpoint) : DbgM PUnit :=
  modifyDbg fun d => { d with breakpoints := bps }

def setWatchpoints (wps : List Watchpoint) : DbgM PUnit :=
  modifyDbg fun d => { d with watchpoints := wps }

section

variable {Q : PUnit → Sys → Prop} {s : Sys}

@[simp] theorem wp_modifyDbg (f : Cdbg → Cdbg) :
    wp (modifyDbg f) Q s ↔ Q ⟨⟩ (s.withDbg (f s.dbg)) := Iff.rfl

@[simp] theorem wp_setState (state : DbgState) :
    wp (setState state) Q s ↔ Q ⟨⟩ (s.withDbg { s.dbg with state := state }) := Iff.rfl

@[simp] theorem wp_setRegs (regs : Regs) :
    wp (setRegs regs) Q s ↔ Q ⟨⟩ (s.withDbg { s.dbg with regs := regs }) := Iff.rfl

@[simp] theorem wp_setCurrentTid (tid : UInt64) :
    wp (setCurrentTid tid) Q s ↔ Q ⟨⟩ (s.withDbg { s.dbg with currentTid := tid }) := Iff.rfl

@[simp] theorem wp_setBreakpoints (bps : List Breakpoint) :
    wp (setBreakpoints bps) Q s ↔ Q ⟨⟩ (s.withDbg { s.dbg with breakpoints := bps }) := Iff.rfl

@[simp] theorem wp_setWatchpoints (wps : List Watchpoint) :
    wp (setWatchpoints wps) Q s ↔ Q ⟨⟩ (s.withDbg { s.dbg with watchpoints := wps }) := Iff.rfl

end

end Debugger
