/-
The REPL commands that manage breakpoints, watchpoints, threads and registers
(`cmd_break`, `cmd_del`, `cmd_watch`, `cmd_unwatch`, `cmd_thread`, `cmd_lock`,
`cmd_unlock`, `cmd_set`, `cdbg_frame_up`).

Where a command evaluates a C expression (`watch`, `set`), the result of the
evaluation is an argument of the definition, so that statements about all
arguments hold for every expression and every debug information.
-/
import Debugger.Stepping

open Prog

namespace Debugger

/-- The debuggee can be accessed (`dbg->pid > 0 && dbg->state != CDBG_STATE_IDLE`). -/
def Cdbg.live (d : Cdbg) : Bool := d.pid > 0 && d.state ≠ .idle

/-! ### break -/

/-- `resolve_break_line` -/
def resolveBreakLine (d : Cdbg) (file : Option CStr) (line : UInt32) : Option Addr :=
  let entry := match file with
    | some (c :: cs) => d.lineno.lookupLine (some (c :: cs)) line
    | _ => d.lineno.lookupLineUnique line
  entry.map fun e => d.lineno.runtimeAddr e.address

/-- The location forms of `cmd_break`: a function, with its prologue skipped. -/
def resolveBreakSymbol (d : Cdbg) (target : CStr) : Option Addr :=
  match d.syms.lookupName target with
  | none => none
  | some sym =>
    if sym.undefined then none
    else
      let addr := d.syms.runtimeAddr sym.address
      match d.lineno.lookupNextLineAfterPc addr with
      | some entry => some (d.lineno.runtimeAddr entry.address)
      | none => some addr

/-- The location forms of `cmd_break`: an address, or a line number of any file. -/
def resolveBreakNumber (d : Cdbg) (target : CStr) (parsed : UInt64) : Addr :=
  if target.take 2 = "0x".toList ∨ target.take 2 = "0X".toList then parsed
  else (resolveBreakLine d none parsed.toUInt32).getD parsed

/-- The address `cmd_break` finds for its argument. -/
def resolveBreak (d : Cdbg) (target : CStr) : Option Addr :=
  match strrchr ':' target with
  | some (filePart, c :: cs) =>
    if filePart.length = 0 ∨ filePart.length ≥ maxFile then none
    else
      match parseU64 (c :: cs) with
      | none => none
      | some lineNo =>
        if lineNo = 0 then none else resolveBreakLine d (some filePart) lineNo.toUInt32
  | _ =>
    match parseU64 target with
    | some parsed => some (resolveBreakNumber d target parsed)
    | none => resolveBreakSymbol d target

/-- `sizeof(spec)` -/
def specSize : ℕ := 128

/-- `cmd_break` -/
def cmdBreak (target : CStr) : DbgM Int := do
  let s ← get
  match resolveBreak s.dbg target with
  | none => return -1
  | some addr =>
    if s.dbg.breakpoints.length ≥ maxBreakpoints then return -1
    let (rc, bp) ← cdbgBpEnable {} s.dbg.pid addr
    if rc ≠ 0 then return -1
    -- an entry that is there already at the address is not looked for
    setBreakpoints (s.dbg.breakpoints ++ [{ bp with spec := snprintf specSize target }])
    return 0

/-! ### del and unwatch -/

/-- `CDBG_MAX_CMD` -/
def maxCmd : ℕ := 256

/-- The token loop of `cmd_del` and `cmd_unwatch`: `none` for a token that is no number
or not below the count; `push` stores a number that is not in the list yet. -/
def parseIndices (count : ℕ) (push : List ℕ → ℕ → List ℕ) :
    List CStr → List ℕ → Option (List ℕ)
  | [], indices => some indices
  | token :: tokens, indices =>
    match parseU64 token with
    | none => none
    | some number =>
      if number.toNat ≥ count then none
      else if number.toNat ∈ indices then parseIndices count push tokens indices
      else parseIndices count push tokens (push indices number.toNat)

/-- One pass of the exchange sort: the largest number moves to the front. -/
def exchangePass : ℕ → List ℕ → ℕ × List ℕ
  | x, [] => (x, [])
  | x, y :: ys =>
    if y > x then ((exchangePass y ys).1, x :: (exchangePass y ys).2)
    else ((exchangePass x ys).1, y :: (exchangePass x ys).2)

/-- The nested loops that sort the numbers in descending order; `fuel` bounds the
number of passes by the length of the list. -/
def sortDescending : ℕ → List ℕ → List ℕ
  | 0, xs => xs
  | _, [] => []
  | fuel + 1, x :: xs => (exchangePass x xs).1 :: sortDescending fuel (exchangePass x xs).2

/-- Take the trap of an entry out of a debuggee that can be accessed. -/
def disableIfLive (d : Cdbg) (bp : Breakpoint) : DbgM (Int × Breakpoint) :=
  if d.live then cdbgBpDisable bp d.pid else return (0, bp)

/-- `delete_breakpoint_at` -/
def deleteBreakpointAt (index : ℕ) : DbgM Int := do
  let s ← get
  match s.dbg.breakpoints[index]? with
  | none => return -1
  | some bp =>
    -- the saved byte goes back even if another entry has its trap at the address
    let (rc, _) ← disableIfLive s.dbg bp
    if rc ≠ 0 then return -1
    setBreakpoints (s.dbg.breakpoints.eraseIdx index)
    return 0

/-- The numbers a `del` or `unwatch` argument names, in the order they are deleted. -/
def deletionOrder (count : ℕ) (push : List ℕ → ℕ → List ℕ) (args : CStr) : Option (List ℕ) :=
  if args = "all".toList then some (List.range count).reverse
  else
    (parseIndices count push (strtok (snprintf maxCmd args)) []).map fun indices =>
      sortDescending indices.length indices

/-- `cmd_del` -/
def cmdDel (args : Option CStr) : DbgM Int := do
  let s ← get
  if s.dbg.breakpoints = [] then return 0
  match args.map trimSpace with
  | none => return -1
  | some [] => return -1
  | some args =>
    match deletionOrder s.dbg.breakpoints.length (fun xs n => xs ++ [n]) args with
    | none => return -1
    | some order => forUntil deleteBreakpointAt order

/-- One round of the loop in `delete_watchpoint_at`: entry `i` moves to slot `i - 1`. -/
def shiftWatchpoint (i : ℕ) : DbgM Int := do
  let s ← get
  let watch := s.dbg.watchpoints.getD i {}
  -- the table is changed before the register, whatever the installation returns
  setWatchpoints (s.dbg.watchpoints.set (i - 1) watch)
  if s.dbg.live then
    if (← cdbgWpHwInstall s.dbg.pid (i - 1) watch.addr watch.size watch.mode) ≠ 0 then
      return -1
    return 0
  return 0

/-- Clear a slot on the threads of a debuggee that can be accessed. -/
def uninstallIfLive (d : Cdbg) (index : ℕ) : DbgM Int :=
  if d.live then cdbgWpHwUninstall d.pid index else return 0

/-- `delete_watchpoint_at` -/
def deleteWatchpointAt (index : ℕ) : DbgM Int := do
  let s ← get
  let count := s.dbg.watchpoints.length
  if index ≥ count then return -1
  if (← uninstallIfLive s.dbg index) ≠ 0 then return -1
  if (← forUntil shiftWatchpoint (List.range' (index + 1) (count - (index + 1)))) ≠ 0 then
    return -1
  let s ← get
  setWatchpoints s.dbg.watchpoints.dropLast
  return 0

/-- `cmd_unwatch` -/
def cmdUnwatch (args : Option CStr) : DbgM Int := do
  let s ← get
  if s.dbg.watchpoints = [] then return 0
  match args.map trimSpace with
  | none => return -1
  | some [] => return -1
  | some args =>
    match deletionOrder s.dbg.watchpoints.length
        (fun xs n => if xs.length < wpMaxHw then xs ++ [n] else xs) args with
    | none => return -1
    | some order => forUntil deleteWatchpointAt order

/-! ### watch -/

/-- `watch_hw_size_for` -/
def watchHwSizeFor (requested : ℕ) : ℕ :=
  if requested = 0 then 8
  else if requested ≤ 1 then 1
  else if requested ≤ 2 then 2
  else if requested ≤ 4 then 4
  else 8

/-- `parse_watch_flags`: the read flag, the explicit size and the expression text.  A
flag ends at white space; `fuel` bounds the number of flags by the length. -/
def parseWatchFlags : ℕ → Bool → ℕ → CStr → Option (Bool × ℕ × CStr)
  | fuel + 1, watchRead, explicitSize, '/' :: cs =>
    let flag := cs.takeWhile fun c => !isspace c
    let rest := trimSpace (cs.dropWhile fun c => !isspace c)
    if flag = "r".toList then parseWatchFlags fuel true explicitSize rest
    else if flag = "1".toList then parseWatchFlags fuel watchRead 1 rest
    else if flag = "2".toList then parseWatchFlags fuel watchRead 2 rest
    else if flag = "4".toList then parseWatchFlags fuel watchRead 4 rest
    else if flag = "8".toList then parseWatchFlags fuel watchRead 8 rest
    else none
  | _, watchRead, explicitSize, text => some (watchRead, explicitSize, text)

/-- The sizes the retry loop of `cmd_watch` tries, each half of the one before. -/
def halvings : ℕ → ℕ → List ℕ
  | 0, _ => []
  | fuel + 1, n => if n ≥ 1 then n :: halvings fuel (n / 2) else []

/-- Install with the first size that works. -/
def tryInstall (pid slot : ℕ) (addr : Addr) (mode : WpMode) : List ℕ → DbgM (Option ℕ)
  | [] => return none
  | size :: sizes => do
    if (← cdbgWpHwInstall pid slot addr size mode) = 0 then return some size
    tryInstall pid slot addr mode sizes

/-- `cmd_watch`; `resolved` is what `cdbg_resolve_lvalue_expr_sized` finds for the
expression: its address and size, or nothing. -/
def cmdWatch (expr : Option CStr) (resolved : Option (Addr × ℕ)) : DbgM Int := do
  let s ← get
  if s.dbg.state = .idle then return -1
  match expr.map trimSpace with
  | none => return 0
  | some [] => return 0
  | some text =>
    match parseWatchFlags text.length false 0 text with
    | none => return -1
    | some (watchRead, explicitSize, rest) =>
      if rest = [] then return -1
      if s.dbg.watchpoints.length ≥ wpMaxHw then return -1
      if (← cdbgRefreshRegs) ≠ 0 then return -1
      match resolved with
      | none => return -1
      | some (addr, valueSize) =>
        let mode := if watchRead then WpMode.access else WpMode.write
        let sizes :=
          if explicitSize ≠ 0 then [explicitSize] else halvings 4 (watchHwSizeFor valueSize)
        match ← tryInstall s.dbg.pid s.dbg.watchpoints.length addr mode sizes with
        | none => return -1
        | some hwSize =>
          let old ← cdbgMemRead s.dbg.pid addr hwSize
          setWatchpoints (s.dbg.watchpoints ++
            [{ enabled := true, addr := addr, size := hwSize, mode := mode,
               oldValue := (old.map valueOf).getD 0 }])
          return 0

/-! ### thread, lock and unlock -/

/-- The thread number in the argument of `thread` and `lock`. -/
def parseThreadNumber (args : CStr) (infos : List ThreadInfo) : Option ThreadInfo :=
  match parseU64 args with
  | none => none
  | some index => infos[index.toNat]?

/-- `cmd_thread` -/
def cmdThread (args : Option CStr) : DbgM Int := do
  let s ← get
  if s.dbg.state = .idle then return -1
  match ← cdbgThreadsList s.dbg.pid with
  | none => return -1
  | some infos =>
    match args.map trimSpace with
    | none => return 0
    | some [] => return 0
    | some args =>
      match parseThreadNumber args infos with
      | none => return -1
      | some t =>
        setCurrentTid t.selector
        if (← cdbgRefreshRegs) ≠ 0 then return -1
        return 0

/-- Resume the given threads, ignoring the return codes. -/
def resumeAll (pid : ℕ) : List UInt64 → DbgM PUnit :=
  forEach fun tid => do let _ ← cdbgThreadResume pid tid

/-- The loop of `cmd_lock` with its rollback; `n` threads are suspended so far. -/
def lockLoop (pid : ℕ) (target : UInt64) : List ThreadInfo → ℕ → DbgM (Option ℕ)
  | [], n => return some n
  | t :: ts, n => do
    if t.tid = target then lockLoop pid target ts n
    else
      if (← cdbgThreadSuspend pid t.tid) ≠ 0 then
        -- roll back
        let s ← get
        resumeAll pid (s.dbg.suspendedTids.take n)
        return none
      modifyDbg fun d => { d with suspendedTids := d.suspendedTids.take n ++ [t.tid] }
      lockLoop pid target ts (n + 1)

/-- `cmd_lock` -/
def cmdLock (args : Option CStr) : DbgM Int := do
  let s ← get
  if s.dbg.state = .idle then return -1
  match args.map trimSpace with
  | none => return -1
  | some [] => return -1
  | some args =>
    if s.dbg.threadLockActive then return -1
    match ← cdbgThreadsList s.dbg.pid with
    | none => return -1
    | some infos =>
      match parseThreadNumber args infos with
      | none => return -1
      | some target =>
        match ← lockLoop s.dbg.pid target.tid infos 0 with
        | none => return -1
        | some suspended =>
          -- the locked thread is selected as well
          modifyDbg fun d => { d with
            threadLockActive := true
            lockedTid := target.tid
            suspendedTidCount := suspended
            currentTid := target.selector }
          if (← cdbgRefreshRegs) ≠ 0 then return -1
          return 0

/-- The loop of `cmd_unlock`: -1 when some thread cannot be resumed. -/
def unlockLoop (pid : ℕ) : List UInt64 → Int → DbgM Int
  | [], rc => return rc
  | tid :: tids, rc => do
    let rc' ← cdbgThreadResume pid tid
    unlockLoop pid tids (if rc' ≠ 0 then -1 else rc)

/-- `cmd_unlock` -/
def cmdUnlock : DbgM Int := do
  let s ← get
  if s.dbg.state = .idle then return -1
  if !s.dbg.threadLockActive then return 0
  let rc ← unlockLoop s.dbg.pid (s.dbg.suspendedTids.take s.dbg.suspendedTidCount) 0
  modifyDbg fun d => { d with threadLockActive := false, suspendedTidCount := 0 }
  return rc

/-! ### set and up -/

/-- What a `set` command assigns once its two sides are evaluated. -/
inductive Assignment
  | register (name : CStr) (value : UInt64)
  | scalar (addr : Addr) (size : ℕ) (value : UInt64)

/-- `write_scalar_value` -/
def writeScalarValue (pid : ℕ) (addr : Addr) (size : ℕ) (value : UInt64) : DbgM Int :=
  cdbgMemWrite pid addr (bytesOf (if size = 0 ∨ size > 8 then 8 else size) value)

/-- `cmd_set` on a general-purpose register or a scalar in memory. -/
def cmdSet : Assignment → DbgM Int
  | .register name value => do
    if (← cdbgRefreshRegs) ≠ 0 then return -1
    let s ← get
    match s.dbg.regs.setGprField name value with
    | none => return -1
    | some regs =>
      setRegs regs
      cdbgRegsSet s.dbg.pid s.dbg.currentTid regs
  | .scalar addr size value => do
    if (← cdbgRefreshRegs) ≠ 0 then return -1
    let s ← get
    writeScalarValue s.dbg.pid addr size value

/-- `ret_addr_valid` -/
def retAddrValid (addr : UInt64) : Bool := addr ≥ 0x1000

/-- The saved frame pointer at the frame pointer, when there is one. -/
def savedFramePointer (pid : ℕ) (fp : Addr) : DbgM (Option Addr) :=
  if fp ≠ 0 then cdbgMemReadU64 pid fp else return none

/-- `unwind_from_stack_top` -/
def unwindFromStackTop (pid : ℕ) (regs : Regs) (sp : Addr) : DbgM (Option Regs) :=
  match regs with
  | .arm native => do
    if !retAddrValid (native .lr) then return none
    let native := Function.update native .pc (native .lr)
    let fp := native .fp
    let native := match ← savedFramePointer pid fp with
      | some savedFp => if savedFp > fp then Function.update native .fp savedFp else native
      | none => native
    return some (.arm (Function.update native .sp (sp + 16)))
  | .x86 native => do
    match ← cdbgMemReadU64 pid sp with
    | none => return none
    | some retAddr =>
      if !retAddrValid retAddr then return none
      return some (.x86 (Function.update (Function.update native .rip retAddr) .rsp (sp + 8)))

/-- The frame record at the frame pointer: saved frame pointer and return address. -/
def frameRecord (pid : ℕ) (fp : Addr) : DbgM (Option (Addr × Addr)) := do
  if fp = 0 then return none
  match ← cdbgMemReadU64 pid fp with
  | none => return none
  | some savedFp =>
    match ← cdbgMemReadU64 pid (fp + 8) with
    | none => return none
    | some retAddr =>
      return if savedFp > fp ∧ retAddrValid retAddr then some (savedFp, retAddr) else none

/-- The part of `cdbg_regs_frame_up` that both architectures share. -/
def unwindFromFrame (pid : ℕ) (regs : Regs) : DbgM (Option Regs) := do
  match ← frameRecord pid regs.fp with
  | none => unwindFromStackTop pid regs regs.sp
  | some (savedFp, retAddr) =>
    match regs with
    | .arm native =>
      return some (.arm (Function.update (Function.update (Function.update native
        .pc retAddr) .fp savedFp) .sp (regs.fp + 16)))
    | .x86 native =>
      return some (.x86 (Function.update (Function.update (Function.update native
        .rip retAddr) .rbp savedFp) .rsp (regs.fp + 16)))

/-- `cdbg_regs_frame_up`; on x86_64 a pc at `push rbp` (0x55) has no frame yet. -/
def cdbgRegsFrameUp (pid : ℕ) (regs : Regs) : DbgM (Option Regs) :=
  match regs with
  | .arm _ => unwindFromFrame pid regs
  | .x86 _ => do
    match ← cdbgMemRead pid regs.pc 1 with
    | some [0x55] => unwindFromStackTop pid regs regs.sp
    | _ => unwindFromFrame pid regs

/-- `cdbg_frame_up` -/
def cdbgFrameUp : DbgM Int := do
  if (← cdbgRefreshRegs) ≠ 0 then return -1
  let s ← get
  match ← cdbgRegsFrameUp s.dbg.pid s.dbg.regs with
  | none => return -1
  | some regs =>
    setRegs regs
    if (← cdbgRegsSet s.dbg.pid s.dbg.currentTid regs) ≠ 0 then return -1
    return 0

end Debugger
