/-
Stepping over a direct call (`step_over_call`, `finish_temp_breakpoint`).

The temporary breakpoint stands at the return address, and `finish_temp_breakpoint`
accepts the stop when the pc is there, whatever frame has got there.  For a debuggee
with one thread, given as the sequence of the (pc, sp) states it goes through, the stop
that is accepted is the first arrival at the return address.
-/
import Debugger.Hits

open Prog

namespace Debugger

/-! ### Executions of one thread -/

/-- The pc and the stack pointer of a thread. -/
def Thread.frameState (t : Thread) : Addr × Addr := (t.regs.pc, t.regs.sp)

/-- The pc and the stack pointer the move leads to. -/
def Move.frameState : Move → Option (Addr × Addr)
  | .exec _ regs _ => some (regs.pc, regs.sp)
  | _ => none

@[simp] theorem Move.frameState_exec (tid : UInt64) (regs : Regs) (writes : List (Addr × UInt8)) :
    (Move.exec tid regs writes).frameState = some (regs.pc, regs.sp) := rfl

/-- What the debuggee does up to the event. -/
def WaitEvent.moves : WaitEvent → List Move
  | .stopped _ ms => ms
  | _ => []

/-- The states the debuggee goes through up to the event. -/
def WaitEvent.frameStates (e : WaitEvent) : List (Addr × Addr) :=
  e.moves.filterMap Move.frameState

/-- The move is an instruction of the thread that does not write to `code`. -/
def Move.Single (tid : UInt64) (code : Addr) (m : Move) : Prop :=
  ∃ regs writes, m = .exec tid regs writes ∧ ∀ w ∈ writes, w.1 ≠ code

/-- Up to the event only the one thread runs, and it does not write to `code`. -/
def WaitEvent.Single (tid : UInt64) (code : Addr) (e : WaitEvent) : Prop :=
  ∀ m ∈ e.moves, m.Single tid code

/-- A thread and the states it is to go through; a suspended thread stays where it is. -/
def Thread.path (t : Thread) (states : List (Addr × Addr)) : List (Addr × Addr) :=
  t.frameState :: if t.suspendCount = 0 then states else []

/-- The states of the debuggee from the call instruction on, up to the stop
`step_over_call` looks at.  With a breakpoint disabled at the pc, `cdbg_continue` first
single-steps, and the process stops once more in between. -/
def Sys.execution (s : Sys) (t : Thread) : List (Addr × Addr) :=
  let states := (s.os.events s.os.waits).frameStates
  t.path (if disabledBreakpointAtPc s.dbg.breakpoints t.regs.pc = none then states
    else states.take 1 ++ (s.os.events (s.os.waits + 1)).frameStates)

/-- The state in which an execution stops, when it stops at the return address: on x86_64
it runs into the breakpoint there; otherwise (and on aarch64 always, where the one byte of
the breakpoint does not make a `brk` instruction) a signal ends it. -/
def arrival (arch : Arch) (returnAddr : Addr) (states : List (Addr × Addr)) :
    Option (Addr × Addr) :=
  match arch with
  | .x86_64 => (states.find? (·.1 = returnAddr)).or states.getLast?
  | .aarch64 => states.getLast?

/-- Where a thread stands that has executed the trap at the address. -/
def behindTrap (arch : Arch) (addr : Addr) : Addr :=
  match arch with
  | .x86_64 => addr + 1
  | .aarch64 => addr

theorem cdbgBpMatchesPc_iff {arch : Arch} {pc : Addr} {bp : Breakpoint} :
    cdbgBpMatchesPc arch pc bp = true ↔ bp.enabled = true ∧ pc = behindTrap arch bp.addr := by
  cases arch with
  | x86_64 =>
    show (bp.enabled && decide (bp.addr + 1 = pc)) = true ↔ _
    rw [Bool.and_eq_true, decide_eq_true_eq]
    exact and_congr_right fun _ => eq_comm
  | aarch64 =>
    show (bp.enabled && decide (bp.addr = pc)) = true ↔ _
    rw [Bool.and_eq_true, decide_eq_true_eq]
    exact and_congr_right fun _ => eq_comm

/-- Only a state at the return address can be the arrival of an execution that goes on. -/
theorem arrival_cons {arch : Arch} {returnAddr : Addr} {v w : Addr × Addr}
    {states : List (Addr × Addr)} (hv : arch = .x86_64 → v.1 ≠ returnAddr) :
    arrival arch returnAddr (v :: w :: states) = arrival arch returnAddr (w :: states) := by
  cases arch with
  | x86_64 =>
    rw [arrival, List.find?_cons_of_neg (by simpa using hv rfl), List.getLast?_cons_cons]
    rfl
  | aarch64 => exact List.getLast?_cons_cons

/-- An execution that does not go on. -/
theorem arrival_singleton {arch : Arch} {returnAddr : Addr} {v : Addr × Addr} :
    arrival arch returnAddr [v] = some v := by
  cases arch with
  | x86_64 =>
    rw [arrival, List.find?_singleton]
    split <;> rfl
  | aarch64 => rfl

/-- An execution that is at the return address on x86_64. -/
theorem arrival_of_at {returnAddr : Addr} {v : Addr × Addr} {states : List (Addr × Addr)}
    (hv : v.1 = returnAddr) : arrival .x86_64 returnAddr (v :: states) = some v := by
  rw [arrival, List.find?_cons_of_pos (by simpa using hv)]
  rfl

namespace Process

variable {arch : Arch} {kind : Resume} {p : Process} {t : Thread} {tid : UInt64}
  {returnAddr : Addr}

/-- An instruction of the only thread. -/
theorem move_single (ht : p.threads = [t]) (regs : Regs) (writes : List (Addr × UInt8)) :
    p.move arch kind (.exec t.tid regs writes) =
      if !t.canRun then p
      else if trapAt arch p.mem t.regs.pc then { p with threads := [t.execTrap arch] }
      else
        { p with threads := [t.execInstr (kind = .step) regs], mem := p.mem.stores writes } := by
  have hstep : p.stepsOnce kind t.tid = decide (kind = .step) := by
    simp [stepsOnce, primary, ht]
  have hmap : ∀ f : Thread → Thread, p.mapThread t.tid f = { p with threads := [f t] } := by
    intro f
    simp [mapThread, ht]
  rw [move, ht, List.find?_singleton, if_pos (by simp), hstep, hmap, hmap]

/-- A thread that cannot run stays as it is. -/
theorem moves_of_not_canRun {ms : List Move} (ht : p.threads = [t]) (htid : t.tid = tid)
    (hrun : t.canRun = false) (hms : ∀ m ∈ ms, m.Single tid returnAddr) :
    p.moves arch kind ms = p := by
  induction ms with
  | nil => rfl
  | cons m ms ih =>
    obtain ⟨regs, writes, rfl, -⟩ := hms m List.mem_cons_self
    have hstay : p.move arch kind (.exec tid regs writes) = p := by
      rw [← htid, move_single ht, if_pos (by simp [hrun])]
    rw [moves, List.foldl_cons, hstay]
    exact ih fun m hm => hms m (List.mem_cons_of_mem _ hm)

/-- The whole process runs: the thread ends in some state, and if that is behind the trap at
the return address, it is the one of the arrival there. -/
theorem moves_arrival {ms : List Move} (ht : p.threads = [t]) (htid : t.tid = tid)
    (hhalt : t.halted = false) (hms : ∀ m ∈ ms, m.Single tid returnAddr)
    (hmem : p.mem returnAddr = trapByte arch) :
    ∃ t', (p.moves arch .cont ms).threads = [t'] ∧ t'.tid = tid ∧
      (t'.regs.pc = behindTrap arch returnAddr →
        (arrival arch returnAddr (t.path (ms.filterMap Move.frameState))).map Prod.snd =
          some t'.regs.sp) := by
  by_cases hsusp : t.suspendCount = 0
  · induction ms generalizing p t with
    | nil =>
      refine ⟨t, ht, htid, fun _ => ?_⟩
      rw [Thread.path, if_pos hsusp, List.filterMap_nil, arrival_singleton]
      rfl
    | cons m ms ih =>
      have hrest := fun m hm => hms m (List.mem_cons_of_mem _ hm)
      obtain ⟨regs, writes, rfl, hwrites⟩ := hms m List.mem_cons_self
      have hrun : t.canRun = true := by simp [Thread.canRun, hsusp, hhalt]
      have hmove := @move_single arch .cont p t ht regs writes
      rw [htid, if_neg (by simp [hrun])] at hmove
      rw [moves, List.foldl_cons, hmove]
      by_cases htrap : trapAt arch p.mem t.regs.pc = true
      · -- the thread executes a trap and does not get any further
        rw [if_pos htrap]
        have hstay := @moves_of_not_canRun arch .cont
          { p with threads := [t.execTrap arch] } (t.execTrap arch) _ _ _ rfl htid
          (by simp [Thread.canRun, Thread.execTrap]) hrest
        rw [moves] at hstay
        rw [hstay]
        refine ⟨t.execTrap arch, rfl, htid, fun hpc => ?_⟩
        cases arch with
        | x86_64 =>
          have hat : t.regs.pc = returnAddr := by
            simpa [Thread.execTrap, behindTrap] using hpc
          rw [Thread.path, arrival_of_at (by simpa [Thread.frameState] using hat)]
          exact congrArg some (t.regs.sp_setPc (t.regs.pc + 1)).symm
        | aarch64 =>
          have hat : t.regs.pc = returnAddr := by
            simpa [Thread.execTrap, behindTrap] using hpc
          rw [hat, trapAt_patched hmem] at htrap
          exact absurd htrap (by decide)
      · -- the thread executes an instruction, which is not at the return address on x86_64
        rw [if_neg htrap]
        have hne : arch = .x86_64 → t.regs.pc ≠ returnAddr := by
          intro harch hat
          rw [hat] at htrap
          exact htrap ((trapAt_patched hmem).mpr harch)
        obtain ⟨t', ht', htid', hend⟩ := ih (t := t.execInstr false regs)
          (p := { p with threads := [t.execInstr false regs], mem := p.mem.stores writes })
          rfl htid rfl hrest ((Mem.stores_of_not_mem hwrites).trans hmem) hsusp
        refine ⟨t', ht', htid', fun hpc => ?_⟩
        rw [← hend hpc, Thread.path, if_pos hsusp, Thread.path, if_pos (by exact hsusp),
          List.filterMap_cons_some (Move.frameState_exec tid regs writes), arrival_cons hne]
        rfl
  · have hrun : t.canRun = false := by simp [Thread.canRun, hsusp]
    refine ⟨t, ?_, htid, fun _ => ?_⟩
    · rw [moves_of_not_canRun ht htid hrun hms, ht]
    · rw [Thread.path, if_neg hsusp, arrival_singleton]
      rfl

/-- A single step from an instruction that is not at the return address. -/
theorem moves_step {ms : List Move} (ht : p.threads = [t]) (htid : t.tid = tid)
    (hhalt : t.halted = false) (hms : ∀ m ∈ ms, m.Single tid returnAddr)
    (htrap : trapAt arch p.mem t.regs.pc = false) (hpc : t.regs.pc ≠ returnAddr) :
    ∃ t', (p.moves arch .step ms).threads = [t'] ∧ t'.tid = tid ∧
      ∀ rest, arrival arch returnAddr (t.path ((ms.filterMap Move.frameState).take 1 ++ rest)) =
        arrival arch returnAddr (t'.path rest) := by
  by_cases hsusp : t.suspendCount = 0
  · cases ms with
    | nil => exact ⟨t, ht, htid, fun rest => rfl⟩
    | cons m ms =>
      obtain ⟨regs, writes, rfl, hwrites⟩ := hms m List.mem_cons_self
      have hmove := @move_single arch .step p t ht regs writes
      rw [htid, if_neg (by simp [Thread.canRun, hsusp, hhalt]), if_neg (by simp [htrap])] at hmove
      have hstay := @moves_of_not_canRun arch .step
        { p with threads := [t.execInstr true regs], mem := p.mem.stores writes }
        (t.execInstr true regs) _ _ _ rfl htid (by simp [Thread.canRun, Thread.execInstr])
        fun m hm => hms m (List.mem_cons_of_mem _ hm)
      refine ⟨t.execInstr true regs, ?_, htid, fun rest => ?_⟩
      · rw [moves] at hstay
        rw [moves, List.foldl_cons, hmove]
        exact congrArg (·.threads) hstay
      · rw [Thread.path, if_pos hsusp, Thread.path, if_pos (by exact hsusp),
          List.filterMap_cons_some (Move.frameState_exec tid regs writes), List.take_succ_cons, List.take_zero, List.singleton_append,
          arrival_cons fun _ => hpc]
        rfl
  · have hrun : t.canRun = false := by simp [Thread.canRun, hsusp]
    refine ⟨t, ?_, htid, fun rest => ?_⟩
    · rw [moves_of_not_canRun ht htid hrun hms, ht]
    · rw [Thread.path, if_neg hsusp, Thread.path, if_neg hsusp]

end Process

/-! ### The stop that is accepted -/

/-- `step_over_call` reaches the last test of `finish_temp_breakpoint`, and the temporary
breakpoint matches the pc. -/
def AcceptsReturn (returnAddr : Addr) (s : Sys) : Prop :=
  wp (cdbgBpEnable {} s.dbg.pid returnAddr) (fun r s₁ => r.1 = 0 ∧
    wp cdbgContinue (fun rc s₂ => rc = 0 ∧ s₂.dbg.state ≠ .idle ∧
      wp cdbgWait (fun rc s₃ => rc = 0 ∧ s₃.dbg.state = .stopped ∧
        wp cdbgRefreshRegs (fun rc s₄ => rc = 0 ∧
          cdbgBpMatchesPc s₄.os.arch s₄.dbg.regs.pc r.2 = true) s₃) s₂) s₁) s

instance (returnAddr : Addr) (s : Sys) : Decidable (AcceptsReturn returnAddr s) := by
  delta AcceptsReturn wp
  infer_instance

/-- The debuggee has one thread, for which `J` holds, the trap stands at the return address,
and `n` events have happened. -/
structure Sys.OneThread (arch : Arch) (events : ℕ → WaitEvent) (returnAddr : Addr)
    (tid : UInt64) (n : ℕ) (J : Mem → Thread → Prop) (s : Sys) : Prop where
  arch_eq : s.os.arch = arch
  events_eq : s.os.events = events
  waits_eq : s.os.waits = n
  live : ∀ p, s.os.proc = some p → p.mem returnAddr = trapByte arch ∧
    ∃ t, p.threads = [t] ∧ t.tid = tid ∧ J p.mem t

section Accepted

variable {arch : Arch} {events : ℕ → WaitEvent} {returnAddr : Addr} {tid : UInt64} {n : ℕ}
  {J J' : Mem → Thread → Prop} {K : Thread → Prop} {s s' : Sys} {goal : Option Addr}

theorem Sys.OneThread.of_quiet (h : s.OneThread arch events returnAddr tid n J)
    (hq : s.Quiet s') : s'.OneThread arch events returnAddr tid n J := by
  obtain ⟨k, rfl⟩ := hq
  exact ⟨h.arch_eq, h.events_eq, h.waits_eq, h.live⟩

theorem Sys.OneThread.withDbg (h : s.OneThread arch events returnAddr tid n J) (d : Cdbg) :
    (s.withDbg d).OneThread arch events returnAddr tid n J :=
  ⟨h.arch_eq, h.events_eq, h.waits_eq, h.live⟩

theorem Sys.OneThread.mono (h : s.OneThread arch events returnAddr tid n J)
    (hJ : ∀ m t, J m t → J' m t) : s.OneThread arch events returnAddr tid n J' := by
  refine ⟨h.arch_eq, h.events_eq, h.waits_eq, fun p hp => ?_⟩
  obtain ⟨hmem, t, ht, htid, hJt⟩ := h.live p hp
  exact ⟨hmem, t, ht, htid, hJ _ _ hJt⟩

/-- The only thread is the selected one. -/
theorem Sys.OneThread.selected (h : s.OneThread arch events returnAddr tid n J) {p : Process}
    {t : Thread} (hp : s.process s.dbg.pid = some p) (ht : p.thread s.dbg.currentTid = some t) :
    p.threads = [t] ∧ J p.mem t := by
  obtain ⟨-, u, hu, -, hJ⟩ := h.live p (Sys.process_eq_some.mp hp).1
  obtain rfl : t = u := by
    rw [Process.thread, Process.primary, hu, List.find?_singleton] at ht
    split at ht
    · exact (Option.some.inj ht).symm
    · split at ht
      · exact (Option.some.inj ht).symm
      · exact absurd ht (by simp)
  exact ⟨hu, hJ⟩

/-- Writing traps, which is all that putting breakpoints back does. -/
theorem Sys.OneThread.wp_enable (h : s.OneThread arch events returnAddr tid n fun _ => K)
    (bp : Breakpoint) (pid : ℕ) (addr : Addr) :
    wp (cdbgBpEnable bp pid addr)
      (fun _ s' => s'.OneThread arch events returnAddr tid n fun _ => K) s := by
  refine wp_cdbgBpEnable (fun _ s' hq _ _ => h.of_quiet hq) fun p s' hp hq => ?_
  refine Sys.OneThread.of_quiet (s := s.wrote p addr _) ⟨h.arch_eq, h.events_eq, h.waits_eq, fun q hproc => ?_⟩ hq
  obtain rfl := Option.some.inj hproc
  obtain ⟨hmem, ht⟩ := h.live p (Sys.process_eq_some.mp hp).1
  refine ⟨?_, ht⟩
  show Function.update p.mem addr (trapByte s.os.arch) returnAddr = _
  rw [Function.update_apply, h.arch_eq]
  split
  · rfl
  · exact hmem

theorem Sys.OneThread.wp_reenable (h : s.OneThread arch events returnAddr tid n fun _ => K) :
    wp reenableBreakpointsAfterStep
      (fun _ s' => s'.OneThread arch events returnAddr tid n fun _ => K) s := by
  rw [reenableBreakpointsAfterStep, wp_bind, wp_get, wp_ite]
  refine ⟨fun _ => h, fun _ => ?_⟩
  rw [wp_bind]
  refine wp_cdbgRefreshRegs (fun s₁ hq _ => ?_) fun p t s₁ hp ht hq => ?_
  · rw [wp_ite]
    exact ⟨fun _ => h.of_quiet hq, fun hc => absurd neg_one_ne hc⟩
  · rw [wp_ite]
    refine ⟨fun hc => absurd rfl hc, fun _ => ?_⟩
    rw [wp_bind, wp_get, wp_bind]
    have h₁ : s₁.OneThread arch events returnAddr tid n fun _ => K :=
      (h.withDbg _).of_quiet hq
    refine wp_mono (@wp_reenableLoop _ _ (fun _ s' => s'.OneThread arch events returnAddr tid n fun _ => K)
      (fun _ bp _ _ h' _ _ => h'.wp_enable bp _ _) _ [] _ h₁) fun r s₂ h₂ => ?_
    rw [wp_bind, wp_setBreakpoints]
    exact h₂.withDbg _

/-- A wait for the debuggee: what holds of every state the event may leave the thread in holds
after the wait. -/
theorem Sys.OneThread.wp_wait (h : s.OneThread arch events returnAddr tid n J)
    (hstop : ∀ (p : Process) (t : Thread), p.threads = [t] → t.tid = tid → p.mem returnAddr = trapByte arch →
      J p.mem t → ∀ ms, (events n).moves = ms → ∃ t',
      (p.moves arch s.os.resume ms).threads = [t'] ∧ t'.tid = tid ∧ K t')
    (hspares : ∀ k, (events k).Single tid returnAddr) :
    wp cdbgWait (onCode (fun s' => s'.OneThread arch events returnAddr tid (n + 1) fun _ => K)
      fun _ => True) s := by
  refine wp_cdbgWait (fun s' _ _ => onCode_neg_one.mpr trivial)
    (fun p s' _ _ _ => (onCode_of_ne (by decide)).mpr trivial)
    fun p sig ms s₁ hp _ hev hq => ?_
  have hms : (events n).moves = ms := by
    rw [← h.events_eq, ← h.waits_eq, hev]
    rfl
  have hstopped : (s.stoppedBy p sig ms).OneThread arch events returnAddr tid (n + 1)
      fun _ => K := by
    refine ⟨h.arch_eq, h.events_eq, congrArg (· + 1) h.waits_eq, fun q hq => ?_⟩
    obtain rfl := Option.some.inj hq
    obtain ⟨hmem, t, ht, htid, hJ⟩ := h.live p (Sys.process_eq_some.mp hp).1
    obtain ⟨t', ht', htid', hK⟩ := hstop p t ht htid hmem hJ ms hms
    rw [h.arch_eq]
    refine ⟨(@Process.moves_mem _ _ _ _ (· = returnAddr) (fun m hm => ?_) _ rfl).trans hmem,
      t', ht', htid', hK⟩
    obtain ⟨regs, writes, rfl, hwrites⟩ := hspares n m (hms ▸ hm)
    exact hwrites
  exact wp_mono (hstopped.of_quiet hq).wp_reenable fun _ _ h' =>
    ⟨fun _ => onCode_zero.mpr h', fun _ => onCode_neg_one.mpr trivial⟩

/-- `cdbg_continue` leaves the debuggee on its way to the return address. -/
theorem Sys.OneThread.wp_continue {t₀ : Thread} (hst : s.dbg.state = .stopped)
    (hspares : ∀ k, (events k).Single tid returnAddr) (hpc : t₀.regs.pc ≠ returnAddr)
    (h : s.OneThread arch events returnAddr tid s.os.waits fun m t =>
      t = t₀ ∧ trapAt arch m t.regs.pc = false) :
    wp cdbgContinue (onCode (fun s' => s'.os.resume = .cont ∧ ∃ k,
      s'.OneThread arch events returnAddr tid k fun _ t => t.halted = false ∧
        arrival arch returnAddr (t.path (events k).frameStates) =
          arrival arch returnAddr (s.execution t₀)) fun _ => True) s := by
  have hgo : disabledBreakpointAtPc s.dbg.breakpoints t₀.regs.pc = none → ∀ t, t = t₀ →
      arrival arch returnAddr (t.path (events s.os.waits).frameStates) =
        arrival arch returnAddr (s.execution t₀) := by
    rintro hnone t rfl
    rw [Sys.execution, if_pos hnone, h.events_eq]
  refine cdbgContinue_rule
    (I := fun s' => s'.OneThread arch events returnAddr tid s.os.waits (fun m t =>
      t = t₀ ∧ trapAt arch m t.regs.pc = false) ∧
      disabledBreakpointAtPc s.dbg.breakpoints t₀.regs.pc ≠ none)
    (W := fun s' => s'.os.resume = .step ∧
      s'.OneThread arch events returnAddr tid s.os.waits (fun m t =>
        t = { t₀ with halted := false } ∧ trapAt arch m t.regs.pc = false) ∧
      disabledBreakpointAtPc s.dbg.breakpoints t₀.regs.pc ≠ none)
    (C := fun s' => ∃ k, s'.OneThread arch events returnAddr tid k fun _ t =>
      arrival arch returnAddr (t.path (events k).frameStates) =
        arrival arch returnAddr (s.execution t₀)) hst ?_ ?_ ?_ ?_ (fun _ _ _ _ _ => trivial) ?_
  · intro hnil
    -- without breakpoints the debuggee is resumed where it stands
    refine ⟨_, h.mono fun _ t ht => hgo ?_ t ht.1⟩
    rw [hnil]
    rfl
  · intro _
    -- the pc decides whether there is a breakpoint to step off
    refine wp_cdbgRefreshRegs (fun s' _ _ => onCode_neg_one.mpr trivial)
      fun p t s' hp ht hq => onCode_zero.mpr ?_
    obtain ⟨-, rfl, -⟩ := h.selected hp ht
    have h' : s'.OneThread arch events returnAddr tid s.os.waits _ :=
      (h.withDbg _).of_quiet hq
    obtain ⟨m, rfl⟩ := hq
    exact ⟨fun hnone => ⟨_, h'.mono fun _ u hu => hgo hnone u hu.1⟩, fun hd => ⟨h', hd⟩⟩
  · rintro s' ⟨h', hd⟩
    -- the step off the breakpoint begins
    refine wp_cdbgSingleStep (fun s'' _ _ => onCode_neg_one.mpr trivial)
      fun p s'' hp hq => onCode_zero.mpr ?_
    have hres : (s'.resumedAs .step p).OneThread arch events returnAddr tid s.os.waits
        fun m t => t = { t₀ with halted := false } ∧ trapAt arch m t.regs.pc = false := by
      refine ⟨h'.arch_eq, h'.events_eq, h'.waits_eq, fun q hq => ?_⟩
      obtain rfl := Option.some.inj hq
      obtain ⟨hmem, t, ht, htid, rfl, htrap⟩ := h'.live p (Sys.process_eq_some.mp hp).1
      refine ⟨hmem, { t with halted := false }, ?_, htid, rfl, htrap⟩
      rw [Process.resumed, ht]
      rfl
    have hres' := hres.of_quiet hq
    obtain ⟨m, rfl⟩ := hq
    exact ⟨rfl, hres', hd⟩
  · rintro s' ⟨hstep, h', hd⟩
    -- the step is the first state of the execution
    refine wp_mono (h'.wp_wait (K := fun t =>
      arrival arch returnAddr (t.path (events (s.os.waits + 1)).frameStates) =
        arrival arch returnAddr (s.execution t₀)) ?_ hspares) fun _ _ hw =>
      ⟨fun hrc => ⟨_, hw.1 hrc⟩, fun _ => trivial⟩
    rintro p t ht htid hmem ⟨rfl, htrap⟩ ms rfl
    rw [hstep]
    obtain ⟨t', ht', htid', hpath⟩ := Process.moves_step ht htid rfl (hspares s.os.waits) htrap hpc
    refine ⟨t', ht', htid', ?_⟩
    rw [← hpath, Sys.execution, if_neg hd, h.events_eq]
    rfl
  · rintro s' ⟨k, h'⟩ p s'' hp hq
    -- resuming clears the halt and moves nothing
    have hres : (s'.resumedAs .cont p).OneThread arch events returnAddr tid k fun _ t =>
        t.halted = false ∧ arrival arch returnAddr (t.path (events k).frameStates) =
          arrival arch returnAddr (s.execution t₀) := by
      refine ⟨h'.arch_eq, h'.events_eq, h'.waits_eq, fun q hq => ?_⟩
      obtain rfl := Option.some.inj hq
      obtain ⟨hmem, t, ht, htid, hpath⟩ := h'.live p (Sys.process_eq_some.mp hp).1
      refine ⟨hmem, { t with halted := false }, ?_, htid, rfl, hpath⟩
      rw [Process.resumed, ht]
      rfl
    have hres' := hres.of_quiet hq
    obtain ⟨m, rfl⟩ := hq
    exact ⟨rfl, k, hres'⟩

end Accepted

/-! ### The call instruction -/

/-- At a direct call there is no trap, and none appears when a byte is written at the return
address. -/
theorem callReturnAddress_spec (s : Sys) (pc : Addr) :
    wp (callReturnAddress pc) (fun r s' => s.Quiet s' ∧ ∀ returnAddr, r = some returnAddr →
      pc ≠ returnAddr ∧ ∀ p b, s.process s.dbg.pid = some p →
        trapAt s.os.arch (Function.update p.mem returnAddr b) pc = false) s := by
  rw [callReturnAddress, wp_bind, wp_get]
  cases harch : s.os.arch with
  | x86_64 =>
    dsimp only
    rw [wp_bind]
    refine wp_cdbgMemRead (fun s' hq _ => ⟨hq, by simp⟩) fun p s' hp hq => ⟨hq, ?_⟩
    intro returnAddr hr
    rw [Mem.read_one] at hr
    have hr : (if p.mem pc = 0xe8 then some (pc + 5) else none) = some returnAddr := hr
    -- the byte at the pc is `call`, and the return address is behind it
    obtain ⟨hcall, rfl⟩ : p.mem pc = 0xe8 ∧ pc + 5 = returnAddr := by simpa using hr
    have hne : pc ≠ pc + 5 := by simp
    refine ⟨hne, fun q b hq' => ?_⟩
    obtain rfl := Option.some.inj (hp.symm.trans hq')
    rw [trapAt, Function.update_of_ne hne, hcall]
    rfl
  | aarch64 =>
    dsimp only
    rw [wp_bind]
    refine wp_cdbgMemRead (fun s' hq _ => ⟨hq, by simp⟩) fun p s' hp hq => ⟨hq, ?_⟩
    intro returnAddr hr
    have hr : (if valueOf (p.mem.read pc 4) &&& 0xfc000000 = 0x94000000 then some (pc + 4)
      else none) = some returnAddr := hr
    obtain ⟨hcall, rfl⟩ : valueOf (p.mem.read pc 4) &&& 0xfc000000 = 0x94000000 ∧
        pc + 4 = returnAddr := by simpa using hr
    refine ⟨by simp, fun q b hq' => ?_⟩
    obtain rfl := Option.some.inj (hp.symm.trans hq')
    -- the four bytes of `bl` end before the return address
    have hread : Mem.read (Function.update p.mem (pc + 4) b) pc 4 = p.mem.read pc 4 := by
      refine List.map_congr_left fun i hi => Function.update_of_ne ?_ _ _
      have hi : i < 4 := List.mem_range.mp hi
      intro heq
      have := congrArg UInt64.toNat ((UInt64.add_right_inj pc).mp heq)
      rw [UInt64.toNat_ofNat_of_lt' (Nat.lt_trans hi (by decide))] at this
      exact absurd this (show i ≠ 4 by omega)
    rw [trapAt, hread, decide_eq_false_iff_not]
    intro hbrk
    -- the encodings of `bl` and `brk` differ
    have hand : valueOf (p.mem.read pc 4) &&& 0xffe0001f &&& 0xfc000000 = 0x94000000 := by
      rw [UInt64.and_assoc]
      exact hcall
    rw [hbrk] at hand
    exact absurd hand (by decide)

section Completion

variable {arch : Arch} {events : ℕ → WaitEvent} {returnAddr : Addr} {tid : UInt64} {n : ℕ}
  {s : Sys} {goal : Option (Addr × Addr)}

/-- The debuggee has one thread, whose stack pointer is that of the arrival. -/
def Sys.ArrivedAs (s : Sys) (goal : Option (Addr × Addr)) : Prop :=
  ∃ p t, s.os.proc = some p ∧ p.threads = [t] ∧ goal.map Prod.snd = some t.regs.sp

/-- Accepting the temporary breakpoint leaves the stack pointer alone. -/
theorem Sys.OneThread.wp_finish {tempBp : Breakpoint} (haddr : tempBp.addr = returnAddr)
    (h : s.OneThread arch events returnAddr tid n fun _ t =>
      t.regs.pc = behindTrap arch returnAddr → goal.map Prod.snd = some t.regs.sp)
    (hacc : wp cdbgRefreshRegs (fun rc s' => rc = 0 ∧
      cdbgBpMatchesPc s'.os.arch s'.dbg.regs.pc tempBp = true) s) :
    wp (finishTempBreakpoint tempBp) (fun rc s' => rc = 0 → s'.ArrivedAs goal) s := by
  have hrefresh : wp cdbgRefreshRegs (fun rc s' => rc = 0 → ∃ p t, s'.os.proc = some p ∧
      p.threads = [t] ∧ s'.dbg.regs = t.regs ∧
      (t.regs.pc = behindTrap s'.os.arch returnAddr → goal.map Prod.snd = some t.regs.sp)) s := by
    refine wp_cdbgRefreshRegs (fun _ _ _ hc => absurd hc neg_one_ne) fun p t s' hp ht hq _ => ?_
    obtain ⟨hone, hJ⟩ := h.selected hp ht
    obtain ⟨m, rfl⟩ := hq
    rw [← h.arch_eq] at hJ
    exact ⟨p, t, (Sys.process_eq_some.mp hp).1, hone, rfl, hJ⟩
  rw [finishTempBreakpoint, wp_bind]
  refine wp_mono (wp_and hacc hrefresh) fun rc s₁ h₁ => ?_
  obtain ⟨⟨hrc, hmatch⟩, hone⟩ := h₁
  obtain ⟨p, t, hp, ht, hregs, hgoal⟩ := hone hrc
  rw [cdbgBpMatchesPc_iff, haddr, hregs] at hmatch
  have hgoal := hgoal hmatch.2
  rw [wp_ite]
  refine ⟨fun hc => absurd hrc hc, fun _ => ?_⟩
  rw [wp_bind, wp_get, wp_ite]
  refine ⟨fun hc => ?_, fun _ => ?_⟩
  · rw [← hregs, ← haddr, ← cdbgBpMatchesPc_iff] at hmatch
    simp [hmatch] at hc
  rw [wp_bind]
  have hdisabled : wp (cdbgBpDisable tempBp s₁.dbg.pid) (fun _ s₂ => ∃ p t, s₂.os.proc = some p ∧
      p.threads = [t] ∧ goal.map Prod.snd = some t.regs.sp ∧ t.regs.sp = s₁.dbg.regs.sp) s₁ := by
    have hsp : t.regs.sp = s₁.dbg.regs.sp := by rw [hregs]
    refine wp_cdbgBpDisable (fun _ => ⟨p, t, hp, ht, hgoal, hsp⟩) (fun _ s₂ hq _ => ?_)
      fun _ q s₂ hq' hq => ?_
    · obtain ⟨m, rfl⟩ := hq
      exact ⟨p, t, hp, ht, hgoal, hsp⟩
    · obtain rfl := Option.some.inj (hp.symm.trans (Sys.process_eq_some.mp hq').1)
      obtain ⟨m, rfl⟩ := hq
      exact ⟨_, t, rfl, ht, hgoal, hsp⟩
  refine wp_mono hdisabled fun r s₂ h₂ => ?_
  obtain ⟨rc', bp'⟩ := r
  obtain ⟨q, u, hq, hu, hgoal', hsp⟩ := h₂
  dsimp only
  rw [wp_ite]
  refine ⟨fun _ hc => absurd hc neg_one_ne, fun _ => ?_⟩
  rw [wp_ite]
  refine ⟨fun _ => ?_, fun _ _ => ⟨q, u, hq, hu, hgoal'⟩⟩
  rw [wp_bind, wp_setRegs, wp_bind]
  refine wp_cdbgRegsSet (fun s₃ _ _ => ?_) fun q' v s₃ hq' hv hq₃ => ?_
  · rw [wp_ite]
    exact ⟨fun _ hc => absurd hc neg_one_ne, fun hc => absurd neg_one_ne hc⟩
  · rw [wp_ite]
    refine ⟨fun hc => absurd rfl hc, fun _ _ => ?_⟩
    obtain rfl := Option.some.inj (hq.symm.trans (Sys.process_eq_some.mp hq').1)
    obtain ⟨m, rfl⟩ := hq₃
    -- the only thread is written to or left alone, and keeps its stack pointer either way
    refine ⟨_, if u.tid = v.tid then { u with regs := s₁.dbg.regs.setPc tempBp.addr } else u, rfl,
      by rw [Process.mapThread, hu]; rfl, ?_⟩
    split
    · rw [hgoal', hsp]
      exact congrArg some (Regs.sp_setPc _ _).symm
    · exact hgoal'

/-- When the temporary breakpoint is accepted, the debuggee has arrived at the return address
for the first time. -/
theorem stepOverCall_arrived {p : Process} {t : Thread} (hst : s.dbg.state = .stopped)
    (hp : s.process s.dbg.pid = some p) (hone : p.threads = [t])
    (hpc : t.regs.pc ≠ returnAddr)
    (htrap : ∀ b, trapAt s.os.arch (Function.update p.mem returnAddr b) t.regs.pc = false)
    (hexec : ∀ k, (s.os.events k).Single t.tid returnAddr) (hacc : AcceptsReturn returnAddr s) :
    wp (stepOverCall returnAddr) (fun rc s' => rc = 0 →
      s'.ArrivedAs (arrival s.os.arch returnAddr (s.execution t))) s := by
  -- the temporary breakpoint is the only thing that placing it changes
  have hplaced : wp (cdbgBpEnable {} s.dbg.pid returnAddr) (fun r s₁ => r.1 = 0 →
      r.2.addr = returnAddr ∧ s₁.dbg = s.dbg ∧
      s₁.OneThread s.os.arch s.os.events returnAddr t.tid s.os.waits fun m u =>
        u = t ∧ trapAt s.os.arch m u.regs.pc = false) s := by
    refine wp_cdbgBpEnable (fun _ _ _ _ _ hc => absurd hc neg_one_ne) fun q s₁ hq hq₁ _ => ?_
    obtain rfl := Option.some.inj (hp.symm.trans hq)
    obtain ⟨m, rfl⟩ := hq₁
    refine ⟨rfl, rfl, rfl, rfl, rfl, fun q hq => ?_⟩
    obtain rfl := Option.some.inj hq
    exact ⟨Function.update_self _ _ _, t, hone, rfl, rfl, htrap _⟩
  rw [stepOverCall, wp_bind, wp_get, wp_bind]
  refine wp_mono (wp_and hacc hplaced) fun r s₁ h₁ => ?_
  obtain ⟨rc, tempBp⟩ := r
  obtain ⟨⟨hrc, hacc₁⟩, hplaced⟩ := h₁
  obtain ⟨haddr, hdbg, h₁⟩ := hplaced hrc
  dsimp only at hrc haddr ⊢
  rw [wp_ite]
  refine ⟨fun hc => absurd hrc hc, fun _ => ?_⟩
  rw [wp_bind]
  have hwaits := h₁.waits_eq
  have hexec₁ : s₁.execution t = s.execution t := by
    rw [Sys.execution, Sys.execution, hdbg, h₁.events_eq, hwaits]
  rw [← hwaits] at h₁
  refine wp_mono (wp_and hacc₁ (h₁.wp_continue ((congrArg (·.state) hdbg).trans hst) hexec hpc))
    fun rc s₂ h₂ => ?_
  obtain ⟨⟨hrc, hidle, hacc₂⟩, hway⟩ := h₂
  obtain ⟨hcont, k, hway⟩ := hway.1 hrc
  rw [wp_ite]
  refine ⟨fun hc => absurd hrc hc, fun _ => ?_⟩
  rw [wp_bind, wp_get, wp_ite]
  refine ⟨fun hc => absurd hc hidle, fun _ => ?_⟩
  rw [wp_bind]
  -- the stop that ends the way is described by the arrival
  have hwait := hway.wp_wait (K := fun u => u.regs.pc = behindTrap s.os.arch returnAddr →
    (arrival s.os.arch returnAddr (s.execution t)).map Prod.snd = some u.regs.sp) (by
      rintro q u hu htid hmem ⟨hhalt, hpath⟩ ms rfl
      rw [hcont, ← hexec₁, ← hpath]
      exact Process.moves_arrival hu htid hhalt (hexec k) hmem) hexec
  refine wp_mono (wp_and hacc₂ hwait) fun rc s₃ h₃ => ?_
  obtain ⟨⟨hrc, hst₃, hacc₃⟩, hstop⟩ := h₃
  rw [wp_ite]
  refine ⟨fun hc => absurd hrc hc, fun _ => ?_⟩
  rw [wp_bind, wp_get, wp_ite]
  refine ⟨fun hc => absurd hst₃ hc, fun _ => ?_⟩
  exact (hstop.1 hrc).wp_finish haddr hacc₃

end Completion

/-- Stepping over a call ends with the stack pointer of the calling frame exactly when the
first state in which the debuggee arrives at the return address has that stack pointer: no
other frame gets there before the starting one. -/
theorem step_over_ends_in_frame_iff {s s₁ : Sys} {p : Process} {t : Thread} {returnAddr : Addr}
    (hst : s.dbg.state = .stopped) (hp : s.process s.dbg.pid = some p) (hone : p.threads = [t])
    (hcall : (callReturnAddress t.regs.pc).run s = (some returnAddr, s₁))
    (hexec : ∀ k, (s.os.events k).Single t.tid returnAddr) (hacc : AcceptsReturn returnAddr s₁)
    (hrc : ((stepOverCall returnAddr).run s₁).1 = 0) :
    (∃ p' t', ((stepOverCall returnAddr).run s₁).2.os.proc = some p' ∧ p'.primary = some t' ∧
        t'.regs.sp = t.regs.sp) ↔
      (arrival s.os.arch returnAddr (s.execution t)).map Prod.snd = some t.regs.sp := by
  have hspec := callReturnAddress_spec s t.regs.pc
  rw [wp_of_run hcall] at hspec
  obtain ⟨hq, hspec⟩ := hspec
  obtain ⟨hpc, htrap⟩ := hspec returnAddr rfl
  obtain ⟨m, rfl⟩ := hq
  have harrived := stepOverCall_arrived (s := { s with os := { s.os with calls := m } }) hst hp hone hpc (fun b => htrap p b hp) hexec hacc
  rw [wp_iff] at harrived
  obtain ⟨p', t', hp', ht', hgoal⟩ := harrived hrc
  have hprimary : p'.primary = some t' := by rw [Process.primary, ht']; rfl
  have hgoal : (arrival s.os.arch returnAddr (s.execution t)).map Prod.snd =
      some t'.regs.sp := hgoal
  rw [hgoal, Option.some.injEq]
  constructor
  · rintro ⟨q, u, hq, hu, hsp⟩
    obtain rfl := Option.some.inj (hp'.symm.trans hq)
    obtain rfl := Option.some.inj (hprimary.symm.trans hu)
    exact hsp
  · exact fun hsp => ⟨p', t', hp', hprimary, hsp⟩

/-- A process in front of a call instruction at `0x1000`. -/
def atCall : Process where
  pid := 100
  mem a := if a = 0x1000 then 0xe8 else 0x90
  threads := [{ tid := 1, regs := x86Frame 0x1000 0x8000 }]
  usedTids := [1]

/-- The debugger in front of the call, and the states the debuggee goes through after it. -/
def callVisits (states : List (Addr × Addr)) : Sys :=
  Sys.attached .x86_64 atCall fun _ =>
    .stopped 5 (states.map fun v => .exec 1 (x86Frame v.1 v.2) [])

/-- The function at `0xff0` contains the call of itself at `0x1000`; the stop is accepted where
the inner call returns, with the stack pointer of the inner frame. -/
theorem step_over_ends_in_deeper_frame :
    let s := callVisits [(0xff0, 0x7ff8), (0x1000, 0x7ff0), (0xff0, 0x7fe8), (0x1010, 0x7fe8),
      (0x1005, 0x7ff0), (0x1010, 0x7ff8), (0x1005, 0x8000), (0x1010, 0x8008)]
    let s₁ := ((callReturnAddress 0x1000).run s).2
    ((callReturnAddress 0x1000).run s).1 = some 0x1005 ∧ AcceptsReturn 0x1005 s₁ ∧
      ((stepOverCall 0x1005).run s₁).1 = 0 ∧
      ((stepOverCall 0x1005).run s₁).2.os.proc.map (·.threads.map Thread.frameState) =
        some [(0x1005, 0x7ff0)] := by
  decide +kernel

/-- A call that returns once. -/
theorem step_over_ends_in_frame_once :
    let s := callVisits [(0x2000, 0x7ff8), (0x1005, 0x8000), (0x1006, 0x8000)]
    let s₁ := ((callReturnAddress 0x1000).run s).2
    ∃ p' t', ((stepOverCall 0x1005).run s₁).2.os.proc = some p' ∧ p'.primary = some t' ∧
      t'.regs.sp = 0x8000 := by
  intro s s₁
  have hexec : ∀ k, (s.os.events k).Single 1 0x1005 := by
    intro k m hm
    obtain ⟨v, -, rfl⟩ := List.mem_map.mp hm
    exact ⟨_, _, rfl, by simp⟩
  exact (@step_over_ends_in_frame_iff s s₁ _ { tid := 1, regs := x86Frame 0x1000 0x8000 } 0x1005
    (by decide) rfl rfl
    (run_of_code (by decide +kernel)) hexec (by decide +kernel) (by decide +kernel)).mpr
    (by decide +kernel)

end Debugger
