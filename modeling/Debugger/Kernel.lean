/-
The kernel calls of the debugger (`memory.c`, `process.c`, the Mach part of
`regs.c` and `watchpoint.c`, `ptrace`).

Every call goes through `kernelCall`: it fails when the fault oracle says so, when
the pid does not designate the traced process, or when the call itself has no
answer (no such thread); a failed call changes nothing but the call counter.  The calls that
write memory or registers note the attempt and its code.
`wp_kernelCall` is the one rule all later specifications are derived from.
-/
import Debugger.State

open Prog

namespace Debugger

variable {α : Type}

/-- The outcome of a kernel call that reads or updates the process. -/
def Sys.answer (s : Sys) (c : KCall) (pid : ℕ) (f : Process → Option (α × Process)) :
    Option (α × Process) :=
  if s.os.fault c s.os.calls.count then none else (s.process pid).bind f

/-- A kernel call on the process `pid`; `none` is failure. -/
def kernelCall (c : KCall) (pid : ℕ) (f : Process → Option (α × Process)) :
    DbgM (Option α) := do
  let s ← get
  match s.answer c pid f with
  | none => set s.tick; return none
  | some (a, p) => set (s.tick.withProc p); return some a

/-- A kernel call that leaves the process as it is. -/
def kernelRead (c : KCall) (pid : ℕ) (f : Process → Option α) : DbgM (Option α) :=
  kernelCall c pid fun p => (f p).map fun a => (a, p)

/-- A call that returns 0 or -1. -/
def returnCode (r : Option PUnit) : Int := if r.isSome then 0 else -1

/-- A kernel call that updates the thread `tid` names. -/
def updateThread (c : KCall) (pid : ℕ) (tid : UInt64)
    (f : Thread → Option (Thread → Thread)) : DbgM Int := do
  return returnCode (← kernelCall c pid fun p =>
    (p.thread tid).bind fun t => (f t).map fun g => (⟨⟩, p.mapThread t.tid g))

/-- No call of the given kind fails on its own account. -/
def Sys.Reliable (s : Sys) (c : KCall) : Prop := ∀ n, s.os.fault c n = false

theorem wp_kernelCall {c : KCall} {pid : ℕ} {f : Process → Option (α × Process)}
    {Q : Option α → Sys → Prop} {s : Sys}
    (hfail : (s.Reliable c → ∀ p, s.process pid = some p → f p = none) → Q none s.tick)
    (hok : ∀ p a p', s.process pid = some p → f p = some (a, p') →
      Q (some a) (s.tick.withProc p')) :
    wp (kernelCall c pid f) Q s := by
  rw [kernelCall, wp_bind, wp_get]
  cases h : s.answer c pid f with
  | none =>
    refine hfail fun hr p hp => ?_
    rw [Sys.answer, hr, if_neg (by decide), hp] at h
    exact h
  | some r =>
    rw [Sys.answer] at h
    split at h
    · exact absurd h (by simp)
    · obtain ⟨p, hp, hf⟩ := Option.bind_eq_some_iff.mp h
      exact hok p r.1 r.2 hp hf

/-! ### Memory (`memory.c`) -/

/-- `cdbg_mem_read` -/
def cdbgMemRead (pid : ℕ) (addr : Addr) (len : ℕ) : DbgM (Option (List UInt8)) :=
  kernelRead .memRead pid fun p => some (p.mem.read addr len)

/-- `cdbg_mem_write` -/
def cdbgMemWrite (pid : ℕ) (addr : Addr) (bytes : List UInt8) : DbgM Int := do
  match ← kernelCall .memWrite pid fun p =>
      some (p, { p with mem := p.mem.write addr bytes }) with
  | none =>
    modify fun s => s.note (.memory addr bytes (-1))
    return -1
  | some p =>
    modify fun s => s.record (.memWrite s.dbg p addr bytes)
    modify fun s => s.note (.memory addr bytes 0)
    return 0

/-- `cdbg_mem_read_u64` -/
def cdbgMemReadU64 (pid : ℕ) (addr : Addr) : DbgM (Option UInt64) := do
  return (← cdbgMemRead pid addr 8).map valueOf

/-! ### Registers and threads (`regs.c`) -/

/-- `cdbg_thread_info_t` -/
structure ThreadInfo where
  tid : UInt64
  isPrimary : Bool
deriving DecidableEq, Repr

/-- The id `current_tid` takes for a thread. -/
def ThreadInfo.selector (t : ThreadInfo) : UInt64 := if t.isPrimary then tidPrimary else t.tid

/-- The thread list of a process, primary thread first. -/
def Process.threadInfos (p : Process) : List ThreadInfo :=
  match p.threads with
  | [] => []
  | t :: ts =>
    { tid := t.tid, isPrimary := true } ::
      ts.map fun u => { tid := u.tid, isPrimary := false }

/-- `cdbg_threads_list` with room for `CDBG_MAX_THREADS` entries. -/
def cdbgThreadsList (pid : ℕ) : DbgM (Option (List ThreadInfo)) :=
  kernelRead .taskThreads pid fun p => some (p.threadInfos.take maxThreads)

/-- `cdbg_regs_get` -/
def cdbgRegsGet (pid : ℕ) (tid : UInt64) : DbgM (Option Regs) :=
  kernelRead .regsGet pid fun p => (p.thread tid).map (·.regs)

/-- `cdbg_regs_set` -/
def cdbgRegsSet (pid : ℕ) (tid : UInt64) (regs : Regs) : DbgM Int := do
  let rc ← updateThread .regsSet pid tid fun _ => some fun t => { t with regs := regs }
  modify fun s => s.note (.registers tid regs rc)
  return rc

/-- `cdbg_thread_suspend` -/
def cdbgThreadSuspend (pid : ℕ) (tid : UInt64) : DbgM Int :=
  updateThread .threadSuspend pid tid fun _ =>
    some fun t => { t with suspendCount := t.suspendCount + 1 }

/-- `cdbg_thread_resume`: the kernel refuses to resume a thread that is not suspended. -/
def cdbgThreadResume (pid : ℕ) (tid : UInt64) : DbgM Int :=
  updateThread .threadResume pid tid fun t =>
    if t.suspendCount = 0 then none
    else some fun t => { t with suspendCount := t.suspendCount - 1 }

/-! ### Hardware watchpoints (`watchpoint.c`) -/

/-- One thread's share of `cdbg_wp_hw_install` or `cdbg_wp_hw_uninstall`: read the debug
registers, change one slot, write them back. -/
def setThreadSlot (pid : ℕ) (i : Fin wpMaxHw) (slot : Option HwSlot) (tid : UInt64) :
    DbgM Int :=
  updateThread .debugState pid tid fun _ =>
    some fun t => { t with dr := Function.update t.dr i slot }

/-- The loop of `for_each_thread`: every thread is tried, one failure makes it fail. -/
def setSlotOfThreads (pid : ℕ) (i : Fin wpMaxHw) (slot : Option HwSlot) :
    List UInt64 → Int → DbgM Int
  | [], rc => return rc
  | tid :: tids, rc => do
    let rc' ← setThreadSlot pid i slot tid
    setSlotOfThreads pid i slot tids (if rc' ≠ 0 then -1 else rc)

/-- `for_each_thread` applied to one slot. -/
def forEachThread (pid : ℕ) (i : Fin wpMaxHw) (slot : Option HwSlot) : DbgM Int := do
  match ← kernelRead .taskThreads pid fun p => some (p.threads.map (·.tid)) with
  | none => return -1
  | some tids => setSlotOfThreads pid i slot tids (if tids.length > 0 then 0 else -1)

/-- The hardware accepts the range: on x86_64 a naturally aligned one, on aarch64 one
inside an aligned window of eight bytes. -/
def hwAccepts (arch : Arch) (addr : Addr) (size : ℕ) : Bool :=
  (size = 1 || size = 2 || size = 4 || size = 8) &&
    match arch with
    | .x86_64 => addr &&& (UInt64.ofNat size - 1) = 0
    | .aarch64 => (addr &&& 7).toNat + size ≤ 8

/-- `cdbg_wp_hw_install` -/
def cdbgWpHwInstall (pid : ℕ) (slot : ℕ) (addr : Addr) (size : ℕ) (mode : WpMode) :
    DbgM Int := do
  if h : slot < wpMaxHw then
    let s ← get
    if !hwAccepts s.os.arch addr size then return -1
    forEachThread pid ⟨slot, h⟩ (some { addr := addr, size := size, mode := mode })
  else return -1

/-- `cdbg_wp_hw_uninstall` -/
def cdbgWpHwUninstall (pid : ℕ) (slot : ℕ) : DbgM Int :=
  if h : slot < wpMaxHw then forEachThread pid ⟨slot, h⟩ none else return -1

/-! ### Process control (`process.c`, `ptrace`) -/

/-- `ptrace(PT_STEP)` and `ptrace(PT_CONTINUE)`. -/
def ptraceResume (kind : Resume) (pid : ℕ) : DbgM Int := do
  match ← kernelCall .ptrace pid fun p => some (p, p.resumed) with
  | none => return -1
  | some p =>
    modify fun s => { s with os := { s.os with resume := kind } }
    modify fun s => s.record (.resume kind s.dbg p)
    return 0

/-- `ptrace(PT_KILL)` -/
def ptraceKill (pid : ℕ) : DbgM Int := do
  match ← kernelRead .ptrace pid fun _ => some () with
  | none => return -1
  | some _ =>
    modify fun s => { s with os := { s.os with killed := true } }
    return 0

/-- The process has ended. -/
def endProcess (status : WaitStatus) : DbgM PUnit := do
  modify fun s => { s with os := { s.os with proc := none, killed := false } }
  modifyDbg fun d => { d with waitStatus := status }

/-- The debuggee runs up to its next stop. -/
def runUntilStop (sig : ℕ) (ms : List Move) (p : Process) : DbgM PUnit := do
  modify fun s => s.withProc (p.moves s.os.arch s.os.resume ms)
  modifyDbg fun d => { d with waitStatus := .stopped sig }
  modify fun s => s.record (.stop s.dbg (p.moves s.os.arch s.os.resume ms))

/-- What `waitpid` waits for happens. -/
def awaitEvent (p : Process) : WaitEvent → DbgM PUnit
  | .exited code => endProcess (.exited code)
  | .signaled sig => endProcess (.signaled sig)
  | .stopped sig ms => runUntilStop sig ms p

/-- `cdbg_process_wait`, which stores the status in `wait_status`. -/
def cdbgProcessWait (pid : ℕ) : DbgM Int := do
  match ← kernelRead .waitpid pid some with
  | none => return -1
  | some p =>
    let s ← get
    if s.os.killed then
      endProcess (.signaled 9)
      return 0
    modify fun s => { s with os := { s.os with waits := s.os.waits + 1 } }
    awaitEvent p (s.os.events s.os.waits)
    return 0

/-- `cdbg_process_spawn`: the pid of the new process. -/
def cdbgProcessSpawn : DbgM (Option ℕ) := do
  let s ← get
  modify Sys.tick
  if s.os.fault .fork s.os.calls.count then return none
  let p := s.os.images s.os.forks
  modify fun s => { s with
    os := { s.os with proc := some p, killed := false, forks := s.os.forks + 1 } }
  return some p.pid

end Debugger
