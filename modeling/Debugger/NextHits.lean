/-
Breakpoints inside a call `next` steps over.

`step_over_call` returns the same value when the call has returned and when
`finish_temp_breakpoint` has reported another breakpoint, so the loop of
`cdbg_next_source_line` decides from the pc, the watchpoints and the line table whether
the command ends.  `StopsInCall` describes a run of the command up to such a stop, and
`HonouredAt` is what makes the command end there.
-/
import Debugger.StepOver
import Debugger.Traced

open Prog

namespace Debugger

/-! ### Runs of the command up to a stop in a call -/

/-- The end of a stepping command, behind its loop. -/
def leaveSteps : (Guard × Addr) ⊕ (Guard × Int) → DbgM Int
  | .inl (guard, _) => do
    stepThreadGuardEnd guard
    return -1
  | .inr (guard, rc) => do
    stepThreadGuardEnd guard
    return rc

/-- The last `k` rounds of `cdbg_next_source_line`. -/
def nextLoop (start : CStr × UInt32) (k : ℕ) (x : Guard × Addr) : DbgM Int := do
  leaveSteps (← loopUpTo (stepLoopRound nextRound start) k x)

/-- What `cdbg_next_source_line` does from a stop in a call on, with `k` rounds left. -/
def afterStop (start : CStr × UInt32) (k : ℕ) (guard : Guard) (tempBp : Breakpoint) :
    DbgM Int := do
  if (← finishTempBreakpoint tempBp) ≠ 0 then leaveSteps (.inr (guard, -1))
  else
    let s ← get
    if s.dbg.state ≠ .stopped then leaveSteps (.inr (guard, 0))
    else
      match ← checkStop start with
      | .inl pc => nextLoop start k (guard, pc)
      | .inr rc => leaveSteps (.inr (guard, rc))

/-- The command given in the state `s₀` is at the head of a round, with `k` rounds left. -/
inductive NextRounds (s₀ : Sys) (start : CStr × UInt32) : ℕ → Guard × Addr → Sys → Prop
  | first {s₁ s₂ guard} : cdbgRefreshRegs.run s₀ = (0, s₁) →
      s₁.dbg.lineno.lineAtPc s₁.dbg.regs.pc = some start →
      stepThreadGuardBegin.run s₁ = (guard, s₂) →
      NextRounds s₀ start maxStepIterations (guard, s₁.dbg.regs.pc) s₂
  | round {k x y s s'} : NextRounds s₀ start (k + 1) x s →
      (stepLoopRound nextRound start x).run s = (.inl y, s') → NextRounds s₀ start k y s'

/-- In a round of the command `step_over_call` has waited for the debuggee, which has stopped;
`finish_temp_breakpoint` is about to look at the stop. -/
inductive StopsInCall (s₀ : Sys) (start : CStr × UInt32) (k : ℕ) (guard : Guard)
    (tempBp : Breakpoint) (s : Sys) : Prop
  | intro {x s₁ s₂ s₃ s₄ s₅ returnAddr} : NextRounds s₀ start (k + 1) x s₁ →
      (stepThreadGuardCatchUp x.1).run s₁ = (guard, s₂) →
      (callReturnAddress x.2).run s₂ = (some returnAddr, s₃) →
      (cdbgBpEnable {} s₃.dbg.pid returnAddr).run s₃ = ((0, tempBp), s₄) →
      cdbgContinue.run s₄ = (0, s₅) → s₅.dbg.state ≠ .idle → cdbgWait.run s₅ = (0, s) →
      StopsInCall s₀ start k guard tempBp s

section Runs

variable {s₀ s : Sys} {start : CStr × UInt32} {k : ℕ} {guard : Guard} {tempBp : Breakpoint}
  {Q : Int → Sys → Prop}

/-- The rest of a command is its loop from the round it has reached. -/
theorem NextRounds.wp_iff {x : Guard × Addr} (h : NextRounds s₀ start k x s) :
    wp cdbgNextSourceLine Q s₀ ↔ wp (nextLoop start k x) Q s := by
  induction h with
  | @first s₁ s₂ guard hrefresh hline hguard =>
    rw [cdbgNextSourceLine, stepLines, wp_bind, wp_of_run hrefresh, wp_ite]
    -- the refresh has returned 0, so the guard behind it does nothing
    have hok : ∀ {A B : Prop}, ((0 : Int) ≠ 0 → A) ∧ (¬(0 : Int) ≠ 0 → B) ↔ B := by
      intro A B
      exact ⟨fun h => h.2 fun hc => hc rfl, fun h => ⟨fun hc => absurd rfl hc, fun _ => h⟩⟩
    rw [hok, wp_bind, wp_get]
    dsimp only
    rw [hline]
    dsimp only
    rw [wp_bind, wp_of_run hguard, nextLoop, wp_bind, wp_bind]
    refine wp_congr fun r s' => ?_
    cases r <;> exact Iff.rfl
  | @round k x y s s' _ hround ih =>
    rw [ih, nextLoop, wp_bind, loopUpTo, wp_bind, wp_of_run hround]
    rfl

theorem StopsInCall.wp_iff (h : StopsInCall s₀ start k guard tempBp s) :
    wp cdbgNextSourceLine Q s₀ ↔ wp (afterStop start k guard tempBp) Q s := by
  obtain ⟨hround, hguard, hcall, henable, hcont, hidle, hwait⟩ := h
  rename_i x s₁ s₂ s₃ s₄ s₅ returnAddr
  obtain ⟨guard₀, pc⟩ := x
  have hst : s.dbg.state = .stopped := by
    have hstopped := cdbgWait_stopped s₅
    rw [wp_of_run hwait] at hstopped
    exact hstopped rfl
  -- each call of the round has the result that the run gives it
  rw [hround.wp_iff, nextLoop, wp_bind, loopUpTo, wp_bind, stepLoopRound, wp_bind,
    wp_of_run hguard, wp_bind, nextRound, wp_bind, wp_of_run hcall]
  dsimp only
  rw [wp_bind, stepOverCall, wp_bind, wp_get, wp_bind, wp_of_run henable]
  dsimp only
  rw [wp_ok, wp_bind, wp_of_run hcont, wp_ok, wp_bind, wp_get, if_neg hidle, wp_bind,
    wp_of_run hwait, wp_ok, wp_bind, wp_get, if_neg (not_not.mpr hst), afterStop, wp_bind]
  refine wp_congr fun rc s' => ?_
  by_cases hrc : rc ≠ 0
  · rw [if_pos hrc, if_pos hrc]
    exact Iff.rfl
  · rw [if_neg hrc, if_neg hrc, wp_bind, wp_get, wp_bind, wp_get]
    by_cases hst' : s'.dbg.state ≠ .stopped
    · rw [if_pos hst', if_pos hst']
      exact Iff.rfl
    · rw [if_neg hst', if_neg hst', wp_pure]
      dsimp only
      rw [wp_bind, wp_bind]
      refine wp_congr fun r s'' => ?_
      cases r <;> exact Iff.rfl

end Runs

/-! ### Where a thread stands that has executed a trap -/

namespace Process

variable {p p' : Process} {arch : Arch} {bps : List Breakpoint}

/-- A thread halted by a trap stands behind it. -/
def Behind (p : Process) (arch : Arch) : Prop :=
  ∀ t ∈ p.threads, t.halted = true → ∀ a, t.last = .trap a → t.regs.pc = behindTrap arch a

theorem Behind.resumed (p : Process) : p.resumed.Behind arch := by
  intro t ht hhalt
  obtain ⟨u, -, rfl⟩ := List.mem_map.mp ht
  exact absurd hhalt (by simp)

theorem Behind.move {kind : Resume} (h : p.Behind arch) (m : Move) :
    (p.move arch kind m).Behind arch := by
  -- a change of one thread, with what holds of its trap
  have hmap : ∀ tid (f : Thread → Thread), (∀ t a, (f t).last = .trap a →
      (f t).regs.pc = behindTrap arch a) → (p.mapThread tid f).Behind arch := by
    intro tid f hf t ht hhalt a hlast
    obtain ⟨u, hu, rfl⟩ := List.mem_map.mp ht
    by_cases htid : u.tid = tid
    · rw [if_pos htid] at hlast ⊢
      exact hf u a hlast
    · rw [if_neg htid] at hhalt hlast ⊢
      exact h u hu hhalt a hlast
  rcases @move_cases arch kind p m with
    hm | ⟨tid, regs, writes, t, -, -, -, ⟨-, hm⟩ | ⟨-, hm⟩⟩ | ⟨tid, regs, -, -, hm⟩ |
      ⟨tid, hm⟩
  · rw [hm]
    exact h
  · rw [hm]
    refine hmap tid _ fun u a hlast => ?_
    obtain rfl : u.regs.pc = a := LastExec.trap.inj hlast
    cases arch with
    | x86_64 => exact Regs.pc_setPc _ _
    | aarch64 => rfl
  · rw [hm]
    exact hmap tid (·.execInstr (p.stepsOnce kind tid) regs) fun u a hlast =>
      LastExec.noConfusion hlast
  · rw [hm]
    intro u hu hhalt
    rcases List.mem_append.mp hu with hu | hu
    · exact h u hu hhalt
    · obtain rfl := List.mem_singleton.mp hu
      exact absurd hhalt (by simp)
  · rw [hm]
    exact fun u hu => h u (List.mem_filter.mp hu).1

theorem Behind.moves {kind : Resume} (h : p.Behind arch) (ms : List Move) :
    (p.moves arch kind ms).Behind arch :=
  moves_induct (P := fun q => q.Behind arch) (fun _ m _ hq => hq.move m) h

/-! ### The thread `report_stop` selects -/

/-- The first listed thread that stands at the trap of an enabled entry. -/
def firstTrapped (p : Process) (arch : Arch) (bps : List Breakpoint) : Option Thread :=
  (p.threadInfos.take maxThreads).findSome? fun i =>
    (p.thread i.selector).filter fun t => cdbgBpIsTrap arch t.regs.pc bps

/-- The only thread is the one that is found. -/
theorem firstTrapped_single {t : Thread} (ht : p.threads = [t])
    (htrap : cdbgBpIsTrap arch t.regs.pc bps = true) : p.firstTrapped arch bps = some t := by
  have hinfos : p.threadInfos.take maxThreads = [{ tid := t.tid, isPrimary := true }] := by
    rw [threadInfos, ht]
    rfl
  have hthread : p.thread 0 = some t := by
    rw [thread, if_pos rfl, primary, ht]
    rfl
  rw [firstTrapped, hinfos, List.findSome?_cons, ThreadInfo.selector, if_pos rfl, hthread,
    Option.filter_some, if_pos htrap]

/-- The first trapped thread depends on where the threads stand only. -/
theorem firstTrapped_of_places (h : p'.places = p.places) :
    (p'.firstTrapped arch bps).map (fun t => (t.tid, t.regs)) =
      (p.firstTrapped arch bps).map fun t => (t.tid, t.regs) := by
  -- the test looks at the registers only
  have hfilter : ∀ o : Option Thread,
      (o.filter fun t => cdbgBpIsTrap arch t.regs.pc bps).map (fun t => (t.tid, t.regs)) =
        (o.map fun t => (t.tid, t.regs)).filter fun v => cdbgBpIsTrap arch v.2.pc bps := by
    intro o
    cases o with
    | none => rfl
    | some t =>
      rw [Option.map_some, Option.filter_some, Option.filter_some]
      split <;> rfl
  rw [firstTrapped, firstTrapped, List.map_findSome?, List.map_findSome?,
    threadInfos_of_tids (tids_of_places h)]
  refine congrArg (List.findSome? · _) (funext fun i => ?_)
  rw [Function.comp_apply, Function.comp_apply, hfilter, hfilter, thread_map_of_places h]

end Process

section First

variable {s : Sys} {p : Process} {u : Thread}

theorem wp_switch_first (hok : ∀ c, s.Reliable c) (hp : s.process s.dbg.pid = some p)
    (hfirst : p.firstTrapped s.os.arch s.dbg.breakpoints = some u) :
    wp switchCurrentTidToBreakpointHit (fun _ s' => ∃ tid, p.thread tid = some u ∧
      (s.withDbg { s.dbg with currentTid := tid }).Quiet s') s := by
  refine wp_switchCurrentTidToBreakpointHit (fun s' _ hno => ?_)
    fun q before i after t s' hinfos hq ht hbefore hs' => ?_
  · obtain ⟨i, hi, hu⟩ := List.exists_of_findSome?_eq_some hfirst
    obtain ⟨hthread, htrap⟩ := Option.filter_eq_some_iff.mp hu
    exact absurd ⟨hthread, htrap⟩ (hno (hok _) (hok _) p hp i hi u)
  · obtain rfl := Option.some.inj (hp.symm.trans hq)
    -- the threads listed before it are not trapped
    have hnone : before.findSome? (fun i => (p.thread i.selector).filter fun t =>
        cdbgBpIsTrap s.os.arch t.regs.pc s.dbg.breakpoints) = none := by
      rw [List.findSome?_eq_none_iff]
      intro j hj
      rw [Option.filter_eq_none_iff]
      exact fun v hv htrap => hbefore (hok _) j hj v ⟨hv, htrap⟩
    rw [Process.firstTrapped, hinfos, List.findSome?_append, hnone, Option.none_or,
      List.findSome?_cons, ht.1, Option.filter_some, if_pos ht.2] at hfirst
    obtain rfl := Option.some.inj hfirst
    exact ⟨i.selector, ht.1, hs'⟩

end First

/-! ### The stop -/

section Stop

variable {s₀ s : Sys} {start : CStr × UInt32} {k : ℕ} {guard : Guard} {tempBp : Breakpoint}

/-- The threads that are halted by a trap stand behind it. -/
def Sys.Behind (s : Sys) : Prop := ∀ p, s.os.proc = some p → p.Behind s.os.arch

theorem cdbgContinue_behind (s : Sys) :
    wp cdbgContinue (fun rc s' => rc = 0 → s'.dbg.state ≠ .idle → s'.Behind) s := by
  refine wp_cdbgContinue (wp_mono (wp_true _) fun rc s' _ =>
    ⟨fun _ => ⟨fun hidle _ hc => absurd hidle hc, fun _ => ?_⟩, fun _ rc hrc h0 => absurd h0 hrc⟩)
  -- a resumed process has no halted threads
  refine wp_resumeRunning (fun _ _ _ h => absurd h neg_one_ne) fun p s'' _ hq _ _ q hq' => ?_
  obtain ⟨n, rfl⟩ := hq
  obtain rfl := Option.some.inj hq'
  exact Process.Behind.resumed p

theorem Sys.Behind.wait (h : s.Behind) : wp cdbgWait (fun rc s' => rc = 0 → s'.Behind) s := by
  refine wp_cdbgWait (fun _ _ _ h => absurd h neg_one_ne)
    (fun _ _ _ _ _ h => absurd h (by decide)) fun p sig ms s₁ hp _ _ hq => ?_
  obtain ⟨n, rfl⟩ := hq
  refine wp_mono (reenableBreakpointsAfterStep_keeps _) fun rc s₂ hv => ⟨fun _ _ q hq => ?_,
    fun _ h => absurd h neg_one_ne⟩
  have hthreads : s₂.os.proc.map (·.threads) =
      some (p.moves s.os.arch s.os.resume ms).threads := by
    have hproc := congrArg (fun s => s.os.proc.map (·.threads)) hv
    simpa [Sys.sansPatches, Sys.sansProc, Sys.stoppedBy, Option.map_map,
      Function.comp_def] using hproc
  rw [hq, Option.map_some, Option.some.injEq] at hthreads
  rw [show s₂.os.arch = s.os.arch from congrArg (·.os.arch) hv]
  intro t ht
  rw [hthreads] at ht
  exact (h p (Sys.process_eq_some.mp hp).1).moves ms t ht

theorem StopsInCall.stopped (h : StopsInCall s₀ start k guard tempBp s) :
    s.dbg.state = .stopped := by
  obtain ⟨-, -, -, -, -, -, hwait⟩ := h
  have hstopped := cdbgWait_stopped (by assumption)
  rw [wp_of_run hwait] at hstopped
  exact hstopped rfl

theorem StopsInCall.behind (h : StopsInCall s₀ start k guard tempBp s) : s.Behind := by
  obtain ⟨-, -, -, -, hcont, hidle, hwait⟩ := h
  rename_i s₄ s₅ _
  have hresumed := cdbgContinue_behind s₄
  rw [wp_of_run hcont] at hresumed
  have hstop := (hresumed rfl hidle).wait
  rw [wp_of_run hwait] at hstop
  exact hstop rfl

theorem StopsInCall.enabled (h : StopsInCall s₀ start k guard tempBp s) :
    tempBp.enabled = true := by
  obtain ⟨-, -, -, henable, -, -, -⟩ := h
  rename_i s₃ s₄ s₅ returnAddr
  have hon : wp (cdbgBpEnable {} s₃.dbg.pid returnAddr) (fun r _ => r.1 = 0 →
      r.2.enabled = true) s₃ :=
    wp_cdbgBpEnable (fun _ _ _ _ _ h => absurd h neg_one_ne) fun _ _ _ _ _ => rfl
  rw [wp_of_run henable] at hon
  exact hon rfl

end Stop

/-! ### Handling the hit -/

/-- The debuggee stands still, with the thread `u` selected and at `addr`; since the stop `s`
nothing has run, memory is now `m`, and no entry of the table has been enabled. -/
structure Landed (s : Sys) (u : Thread) (addr : Addr) (m : Mem) (s' : Sys) : Prop where
  state : s'.dbg.state = .stopped
  runLog : s'.runLog = s.runLog
  arch : s'.os.arch = s.os.arch
  fault : s'.os.fault = s.os.fault
  lineno : s'.dbg.lineno = s.dbg.lineno
  watchpoints : s'.dbg.watchpoints = s.dbg.watchpoints
  off : ∀ bp ∈ s'.dbg.breakpoints, bp.enabled = true → bp ∈ s.dbg.breakpoints
  thread : ∃ p' u', s'.process s'.dbg.pid = some p' ∧ p'.mem = m ∧
    p'.thread s'.dbg.currentTid = some u' ∧ u'.tid = u.tid ∧ u'.regs.pc = addr

/-- What `report_stop` looks at in a thread, and what it has executed last. -/
def Thread.stance (t : Thread) : UInt64 × LastExec × Addr := (t.tid, t.last, t.regs.pc)

/-- `report_stop` has taken out entry `i`, the breakpoint `bp`, for the thread `u`: it is
selected, and its pc has moved back. -/
structure HandledHit (s : Sys) (p : Process) (u : Thread) (i : ℕ) (bp : Breakpoint)
    (s' : Sys) : Prop where
  table : s'.dbg.breakpoints = s.dbg.breakpoints.set i { bp with enabled := false }
  watchpoints : s'.dbg.watchpoints = s.dbg.watchpoints
  process : ∃ p', s'.process s'.dbg.pid = some p' ∧
    p'.mem = Function.update p.mem bp.addr bp.savedByte ∧
    p'.threads.map Thread.stance = p.threads.map (fun t =>
      if t.tid = u.tid ∧ 0 < u.regs.pc then (t.tid, t.last, u.regs.pc - 1) else t.stance) ∧
    (p'.thread s'.dbg.currentTid).map Thread.tid = some u.tid

section Handling

variable {s : Sys} {p : Process} {u : Thread} {i : ℕ} {bp : Breakpoint}

theorem mem_of_mem_set_off {bps : List Breakpoint} {b : Breakpoint}
    (hb : b ∈ bps.set i { bp with enabled := false }) (hon : b.enabled = true) : b ∈ bps := by
  rcases List.mem_or_eq_of_mem_set hb with hb | rfl
  · exact hb
  · exact absurd hon (by simp)

/-- Re-arming the watchpoints has left all of the process but the debug registers alone. -/
structure Rearmed (s : Sys) (p : Process) (s₁ : Sys) (p₁ : Process) : Prop where
  dbg : s₁.dbg = s.dbg
  arch : s₁.os.arch = s.os.arch
  fault : s₁.os.fault = s.os.fault
  process : s₁.process s₁.dbg.pid = some p₁
  mem : p₁.mem = p.mem
  stances : p₁.threads.map Thread.stance = p.threads.map Thread.stance
  places : p₁.places = p.places

theorem wp_resync_rearmed (hp : s.process s.dbg.pid = some p) :
    wp resyncWatchpointsToAllThreads (fun _ s₁ => ∃ p₁, Rearmed s p s₁ p₁) s := by
  refine wp_mono (resyncWatchpointsToAllThreads_keeps.wp_and
    (keepsScene_of_sansSlots resyncWatchpointsToAllThreads_keeps s)) fun _ s₁ h₁ => ?_
  obtain ⟨hscene, hslots⟩ := h₁
  have hd₁ : s₁.dbg = s.dbg := congrArg (·.dbg) hslots
  have hproc : s₁.os.proc.map (fun p => (p.mem, p.pid, p.threads.map Thread.stance)) =
      s.os.proc.map fun p => (p.mem, p.pid, p.threads.map Thread.stance) := by
    have h := congrArg (fun s => s.os.proc.map fun p =>
      (p.mem, p.pid, p.threads.map Thread.stance)) hslots
    simpa [Sys.sansSlots, Sys.sansProc, Process.eachThread, Option.map_map,
      Function.comp_def, show Thread.stance = fun t => (t.tid, t.last, t.regs.pc) from rfl] using h
  rw [(Sys.process_eq_some.mp hp).1, Option.map_some] at hproc
  obtain ⟨p₁, hp₁, heq⟩ := Option.map_eq_some_iff.mp hproc
  obtain ⟨hmem, heq⟩ := Prod.mk.inj heq
  obtain ⟨hpid, hstances⟩ := Prod.mk.inj heq
  obtain ⟨q, hq, hplaces⟩ := Sys.proc_of_scene hscene hp₁
  obtain rfl := Option.some.inj ((Sys.process_eq_some.mp hp).1.symm.trans hq)
  refine ⟨p₁, hd₁, congrArg (·.os.arch) hslots, congrArg (·.os.fault) hslots, ?_, hmem, hstances,
    hplaces⟩
  refine Sys.process_eq_some.mpr ⟨hp₁, ?_⟩
  rw [hpid, hd₁]
  exact (Sys.process_eq_some.mp hp).2

section Rearmed

variable {s₁ : Sys} {p₁ : Process} {u₁ : Thread} {tid : UInt64}

theorem Rearmed.reliable (h : Rearmed s p s₁ p₁) (hok : ∀ c, s.Reliable c) (c : KCall) :
    s₁.Reliable c := fun n => by
  rw [h.fault]
  exact hok c n

/-- The scan finds the same thread. -/
theorem Rearmed.firstTrapped (h : Rearmed s p s₁ p₁)
    (hfirst : p.firstTrapped s.os.arch s.dbg.breakpoints = some u) :
    ∃ u₁, p₁.firstTrapped s₁.os.arch s₁.dbg.breakpoints = some u₁ ∧ u₁.tid = u.tid ∧
      u₁.regs = u.regs := by
  have hmap := @Process.firstTrapped_of_places p p₁ s.os.arch s.dbg.breakpoints h.places
  rw [hfirst, Option.map_some] at hmap
  obtain ⟨u₁, hu₁, heq⟩ := Option.map_eq_some_iff.mp hmap
  rw [← h.arch, ← h.dbg] at hu₁
  exact ⟨u₁, hu₁, (Prod.mk.inj heq).1, (Prod.mk.inj heq).2⟩

/-- The thread that is moved back, and the others. -/
theorem Rearmed.stances_moved (h : Rearmed s p s₁ p₁) (htid : u₁.tid = u.tid)
    (hregs : u₁.regs = u.regs) (hpos : 0 < u.regs.pc) :
    (p₁.mapThread u₁.tid fun v =>
        { v with regs := u₁.regs.setPc (u₁.regs.pc - 1) }).threads.map Thread.stance =
      p.threads.map fun t => if t.tid = u.tid ∧ 0 < u.regs.pc then (t.tid, t.last, u.regs.pc - 1)
        else t.stance := by
  let move := fun v : UInt64 × LastExec × Addr =>
    if v.1 = u.tid ∧ 0 < u.regs.pc then (v.1, v.2.1, u.regs.pc - 1) else v
  have hmoved := congrArg (List.map move) h.stances
  rw [List.map_map, List.map_map] at hmoved
  refine Eq.trans ?_ hmoved
  show (p₁.threads.map _).map Thread.stance = _
  rw [List.map_map]
  refine List.map_congr_left fun t _ => ?_
  show Thread.stance (if t.tid = u₁.tid then _ else t) = move t.stance
  rw [htid, hregs]
  by_cases hthis : t.tid = u.tid
  · rw [if_pos hthis]
    show (t.tid, t.last, (u.regs.setPc (u.regs.pc - 1)).pc) = _
    rw [Regs.pc_setPc]
    exact (if_pos ⟨hthis, hpos⟩).symm
  · rw [if_neg hthis]
    exact (if_neg fun hc => hthis hc.1).symm

/-- The hit of the thread that has been selected is handled. -/
theorem Rearmed.wp_handleBreakpointHit (h : Rearmed s p s₁ p₁) (hok : ∀ c, s.Reliable c)
    (hbp : s.dbg.breakpoints[i]? = some bp) (hon : bp.enabled = true)
    (hsel : p₁.thread tid = some u₁) (htid : u₁.tid = u.tid) (hregs : u₁.regs = u.regs)
    (regs : Regs) (calls : KernelCalls) :
    wp (handleBreakpointHit i) (fun rc s' => (0 < u.regs.pc → rc = 0) ∧ HandledHit s p u i bp s')
      { s₁ with
        dbg := { s₁.dbg with currentTid := tid, regs := regs }
        os := { s₁.os with calls := calls } } := by
  have htable : s₁.dbg.breakpoints = s.dbg.breakpoints := congrArg (·.breakpoints) h.dbg
  have hwatches : s₁.dbg.watchpoints = s.dbg.watchpoints := congrArg (·.watchpoints) h.dbg
  have hpid := (Sys.process_eq_some.mp h.process).2
  refine @Debugger.wp_handleBreakpointHit _ _ i bp p₁ u₁ (by rw [← hbp, ← h.dbg]) hon h.process
    hsel (fun _ _ hc => absurd (h.reliable hok _) hc) (fun rc regs s' hq hz => ?_)
    fun s' hpos hq => ?_
  · -- the pc is 0, and stays so
    have hzero : u.regs.pc = 0 := hregs ▸ hz (h.reliable hok _) (h.reliable hok _)
    obtain ⟨l, rfl⟩ := hq
    refine ⟨fun hpos => absurd (hzero ▸ hpos) (by decide), congrArg (List.set · i _) htable,
      hwatches, _, Sys.process_eq_some.mpr ⟨rfl, hpid⟩, congrArg (Function.update · _ _) h.mem,
      ?_, ?_⟩
    · simp only [hzero, show ¬ (0 : UInt64) < 0 by decide, and_false, if_false]
      exact h.stances
    · exact (congrArg (Option.map Thread.tid) hsel).trans (congrArg some htid)
  · rw [hregs] at hpos
    obtain ⟨l, rfl⟩ := hq
    refine ⟨fun _ => rfl, congrArg (List.set · i _) htable, hwatches, _,
      Sys.process_eq_some.mpr ⟨rfl, hpid⟩, congrArg (Function.update · _ _) h.mem,
      h.stances_moved htid hregs hpos, ?_⟩
    have hselected := Process.thread_mapThread (p := { p₁ with
        mem := Function.update p₁.mem bp.addr bp.savedByte }) (f := fun v => { v with
      regs := u₁.regs.setPc (u₁.regs.pc - 1) }) (fun _ => rfl) hsel
    exact (congrArg (Option.map Thread.tid) hselected).trans (congrArg some htid)

end Rearmed

/-- `report_stop` takes the hit of the first trapped thread. -/
theorem wp_reportStop_first (hok : ∀ c, s.Reliable c) (hp : s.process s.dbg.pid = some p)
    (hfirst : p.firstTrapped s.os.arch s.dbg.breakpoints = some u)
    (hidx : s.dbg.breakpoints.findIdx? (cdbgBpMatchesPc s.os.arch u.regs.pc) = some i)
    (hbp : s.dbg.breakpoints[i]? = some bp) :
    wp reportStop (fun rc s' => (0 < u.regs.pc → rc = 0) ∧ HandledHit s p u i bp s') s := by
  rw [reportStop, wp_bind]
  refine wp_mono (wp_resync_rearmed hp) fun _ s₁ h₁ => ?_
  obtain ⟨p₁, hre⟩ := h₁
  have hok₁ := hre.reliable hok
  obtain ⟨u₁, hfirst₁, htid₁, hregs₁⟩ := hre.firstTrapped hfirst
  rw [wp_bind]
  refine wp_mono (wp_switch_first hok₁ hre.process hfirst₁) fun _ s₂ h₂ => ?_
  obtain ⟨tid, htid, n, rfl⟩ := h₂
  refine wp_reportSelected (fun _ _ hnone => ?_) (fun q t _ hq ht hno _ => ?_)
    fun q t j b s₃ hq ht hj hb hmatch hq₃ => ?_
  · exact absurd (htid.symm.trans (hnone (hok₁ _) p₁ hre.process)) (by simp)
  · obtain rfl := Option.some.inj (hre.process.symm.trans hq)
    obtain rfl := Option.some.inj (htid.symm.trans ht)
    -- the selected thread is trapped, so the stop is a hit
    have htrap : cdbgBpIsTrap s₁.os.arch u₁.regs.pc s₁.dbg.breakpoints = true := by
      rw [hregs₁, hre.arch, hre.dbg, cdbgBpIsTrap_iff_findIdx]
      exact ⟨i, hidx⟩
    exact absurd (htrap.symm.trans hno) (by decide)
  · obtain rfl := Option.some.inj (hre.process.symm.trans hq)
    obtain rfl := Option.some.inj (htid.symm.trans ht)
    have hj : s₁.dbg.breakpoints.findIdx? (cdbgBpMatchesPc s₁.os.arch u₁.regs.pc) = some j := hj
    have hb : s₁.dbg.breakpoints[j]? = some b := hb
    rw [hregs₁, hre.arch, hre.dbg, hidx] at hj
    obtain rfl := Option.some.inj hj
    rw [hre.dbg, hbp] at hb
    obtain rfl := Option.some.inj hb
    obtain ⟨m, rfl⟩ := hq₃
    exact hre.wp_handleBreakpointHit hok hbp (cdbgBpMatchesPc_iff.mp hmatch).1 htid htid₁ hregs₁
      _ _

/-- `report_stop` with a trapped thread: the entry the thread stands behind is taken out, and
its pc moves back. -/
theorem wp_reportStop_trapped (hst : s.dbg.state = .stopped) (hok : ∀ c, s.Reliable c)
    (hp : s.process s.dbg.pid = some p)
    (hfirst : p.firstTrapped s.os.arch s.dbg.breakpoints = some u)
    (hidx : s.dbg.breakpoints.findIdx? (cdbgBpMatchesPc s.os.arch u.regs.pc) = some i)
    (hbp : s.dbg.breakpoints[i]? = some bp) (hpos : 0 < u.regs.pc) :
    wp reportStop (fun rc s' => rc = 0 ∧
      Landed s u (u.regs.pc - 1) (Function.update p.mem bp.addr bp.savedByte) s') s := by
  refine wp_mono (reportStop_keeps.wp_and (wp_reportStop_first hok hp hfirst hidx hbp))
    fun rc s' h => ?_
  obtain ⟨⟨hrc, htable, hwps, p', hp', hmem, hstances, htid⟩, hv⟩ := h
  refine ⟨hrc hpos, (congrArg (·.dbg.state) hv).trans hst, congrArg (·.log) hv,
    congrArg (·.os.arch) hv, congrArg (·.os.fault) hv, congrArg (·.dbg.lineno) hv, hwps,
    fun b hb hon => mem_of_mem_set_off (htable ▸ hb) hon, ?_⟩
  obtain ⟨u', hu', htid⟩ := Option.map_eq_some_iff.mp htid
  refine ⟨p', u', hp', hmem, hu', htid, ?_⟩
  obtain ⟨t, -, heq⟩ := exists_mem_of_map_eq hstances (Process.mem_of_thread hu')
  split at heq
  · exact (congrArg (·.2.2) heq).symm
  · rename_i hother
    exact absurd ⟨(congrArg (·.1) heq).trans htid, hpos⟩ hother

end Handling

/-! ### What makes the command end at the hit -/

/-- The memory of an enabled watchpoint has changed. -/
def WatchChanged (m : Mem) (wps : List Watchpoint) : Prop :=
  ∃ watch ∈ wps, watch.enabled = true ∧ valueOf (m.read watch.addr watch.size) ≠ watch.oldValue

/-- The memory once the temporary breakpoint and the reported entry are taken out. -/
def takenOut (tempBp : Breakpoint) (hit : Option Breakpoint) (m : Mem) : Mem :=
  let m := Function.update m tempBp.addr tempBp.savedByte
  match hit with
  | some bp => Function.update m bp.addr bp.savedByte
  | none => m

/-- The entry that is reported for the thread `u` when the thread `c` is selected. -/
def Sys.reported (s : Sys) (tempBp : Breakpoint) (c u : Thread) : Option Breakpoint :=
  if c.regs.pc = behindTrap s.os.arch tempBp.addr then none
  else s.dbg.breakpoints.find? (cdbgBpMatchesPc s.os.arch u.regs.pc)

/-- What makes `next` end where the thread `u` has executed the trap at `addr`, with the
thread `c` selected. -/
structure HonouredAt (start : CStr × UInt32) (k : ℕ) (tempBp : Breakpoint) (s : Sys) (p : Process)
    (c u : Thread) (addr : Addr) : Prop where
  /-- the kernel does what it is asked for, and the pc of `u` is not 0 -/
  works : s.os.arch = .x86_64 ∧ (∀ call, s.Reliable call) ∧ addr + 1 ≠ 0
  /-- the selected thread has returned and is `u`, or `u` is the first trapped thread -/
  found : if c.regs.pc = behindTrap s.os.arch tempBp.addr then c = u
    else p.firstTrapped s.os.arch s.dbg.breakpoints = some u
  /-- no other breakpoint stands right in front of the one that is hit -/
  clear : ∀ bp ∈ s.dbg.breakpoints, bp.enabled = true → bp.addr + 1 ≠ addr
  /-- the address belongs to another line, a watchpoint has changed, or it is the last round -/
  leaves : (∃ cur, s.dbg.lineno.lineAtPc addr = some cur ∧ cur ≠ start) ∨
    WatchChanged (takenOut tempBp (s.reported tempBp c u) p.mem) s.dbg.watchpoints ∨ k = 0

/-- The debuggee is stopped with the thread `u` selected and at `addr`, and nothing has been
executed since the stop `s`. -/
def EndsAt (s : Sys) (u : Thread) (addr : Addr) (s' : Sys) : Prop :=
  s'.dbg.state = .stopped ∧ s'.runLog = s.runLog ∧ ∃ p' u', s'.os.proc = some p' ∧
    p'.thread s'.dbg.currentTid = some u' ∧ u'.tid = u.tid ∧ u'.regs.pc = addr

section Ending

variable {s s' s'' : Sys} {p : Process} {c u : Thread} {addr : Addr} {m : Mem} {k : ℕ}
  {start : CStr × UInt32} {tempBp : Breakpoint}

theorem EndsAt.of_sansWatches (h : EndsAt s u addr s') (hv : s''.sansWatches = s'.sansWatches) :
    EndsAt s u addr s'' := by
  obtain ⟨hst, hlog, p', u', hp', hu', htid, hpc⟩ := h
  obtain ⟨p'', hp'', hspots⟩ := Sys.proc_of_sansWatches hv.symm hp'
  have hcur : s''.dbg.currentTid = s'.dbg.currentTid := congrArg (·.dbg.currentTid) hv
  obtain ⟨u'', hu'', hspot⟩ := Process.thread_of_spots hspots hu'
  refine ⟨(congrArg (·.dbg.state) hv).trans hst, (congrArg Sys.runLog hv).trans hlog, p'', u'',
    hp'', ?_, (congrArg Thread.tid hspot).trans htid, ?_⟩
  · rw [hcur]
    exact hu''
  · have hregs : u''.spot.regs = u'.spot.regs := congrArg Thread.regs hspot
    exact (congrArg Regs.pc hregs).trans hpc

theorem Landed.ends (h : Landed s u addr m s') : EndsAt s u addr s' := by
  obtain ⟨p', u', hp', -, hu', htid, hpc⟩ := h.thread
  exact ⟨h.state, h.runLog, p', u', (Sys.process_eq_some.mp hp').1, hu', htid, hpc⟩

theorem EndsAt.guardEnd (h : EndsAt s u addr s') (guard : Guard) :
    wp (stepThreadGuardEnd guard) (fun _ => EndsAt s u addr) s' :=
  wp_mono (stepThreadGuardEnd_keeps guard s') fun _ _ hv =>
    h.of_sansWatches (Sys.sansWatches_of_sansHolds hv)

/-- A watchpoint is found exactly when one has changed. -/
theorem findWatchpointHitFrom_iff {pid : ℕ} {wps : List Watchpoint} (i : ℕ)
    (hok : s.Reliable .memRead) (hp : s.process pid = some p) :
    wp (findWatchpointHitFrom pid i wps) (fun r _ => r ≠ none ↔ WatchChanged p.mem wps) s := by
  induction wps generalizing i s with
  | nil =>
    refine iff_of_false (fun h => h rfl) ?_
    rintro ⟨watch, hmem, -⟩
    exact absurd hmem List.not_mem_nil
  | cons watch rest ih =>
    -- the rest decides when the first watchpoint has not changed
    have hrest : ∀ {s' : Sys}, s'.Reliable .memRead → s'.process pid = some p →
        ¬ (watch.enabled = true ∧
          valueOf (p.mem.read watch.addr watch.size) ≠ watch.oldValue) →
        wp (findWatchpointHitFrom pid (i + 1) rest)
          (fun r _ => r ≠ none ↔ WatchChanged p.mem (watch :: rest)) s' := by
      intro s' hok hp hno
      refine wp_mono (ih (i + 1) hok hp) fun r _ hr => hr.trans ?_
      constructor
      · rintro ⟨w, hmem, hw⟩
        exact ⟨w, List.mem_cons_of_mem _ hmem, hw⟩
      · rintro ⟨w, hmem, hw⟩
        rcases List.mem_cons.mp hmem with rfl | hmem
        · exact absurd hw hno
        · exact ⟨w, hmem, hw⟩
    rw [findWatchpointHitFrom, wp_ite]
    refine ⟨fun hoff => hrest hok hp fun hw => ?_, fun hon => ?_⟩
    · simp [hw.1] at hoff
    · rw [wp_bind]
      refine wp_cdbgMemRead (fun s' _ hnone => ?_) fun q s' hq hq' => ?_
      · exact absurd (hp.symm.trans (hnone hok)) (by simp)
      · obtain rfl := Option.some.inj (hp.symm.trans hq)
        obtain ⟨n, rfl⟩ := hq'
        show wp (if valueOf _ ≠ _ then _ else _) _ _
        rw [wp_ite]
        have hon : watch.enabled = true := by simpa using hon
        refine ⟨fun hne => iff_of_true (by simp) ⟨watch, List.mem_cons_self, hon, hne⟩,
          fun hsame => ?_⟩
        exact @hrest { s with os := { s.os with calls := n } } hok hp fun hw => hsame hw.2

/-- The tests behind an advance leave a thread alone that no enabled breakpoint is right in
front of, and find another line or a changed watchpoint. -/
theorem Landed.wp_checkStop (h : Landed s u addr m s') (harch : s.os.arch = .x86_64)
    (hok : ∀ call, s.Reliable call)
    (hclear : ∀ bp ∈ s.dbg.breakpoints, bp.enabled = true → bp.addr + 1 ≠ addr)
    (hleaves : (∃ cur, s.dbg.lineno.lineAtPc addr = some cur ∧ cur ≠ start) ∨
      WatchChanged m s.dbg.watchpoints ∨ k = 0) :
    wp (checkStop start) (fun r s'' => EndsAt s u addr s'' ∧ (k ≠ 0 → ∃ rc, r = .inr rc)) s' := by
  obtain ⟨p', u', hp', hmem, hu', htid, hpc⟩ := h.thread
  have hok' : ∀ call, s'.Reliable call := fun call n => by
    rw [h.fault]
    exact hok call n
  rw [checkStop, wp_bind]
  refine wp_cdbgRefreshRegs (fun s₁ _ hnone => ?_) fun q t s₁ hq ht hq₁ => ?_
  · exact absurd (hu'.symm.trans (hnone (hok' _) p' hp')) (by simp)
  · obtain rfl := Option.some.inj (hp'.symm.trans hq)
    obtain rfl := Option.some.inj (hu'.symm.trans ht)
    obtain ⟨n, rfl⟩ := hq₁
    have hends : ∀ calls, EndsAt s u addr { s' with
        dbg := { s'.dbg with regs := u'.regs }
        os := { s'.os with calls := calls } } := fun calls => h.ends
    have hno : cdbgBpIsTrap s'.os.arch u'.regs.pc s'.dbg.breakpoints = false := by
      rw [Bool.eq_false_iff]
      intro htrap
      obtain ⟨bp, hbp, hmatch⟩ := List.any_eq_true.mp htrap
      rw [cdbgBpMatchesPc_iff, h.arch, harch, hpc] at hmatch
      exact hclear bp (h.off bp hbp hmatch.1) hmatch.1 hmatch.2.symm
    rw [wp_ok, wp_bind, wp_get, wp_ite]
    refine ⟨fun htrap => absurd (htrap.symm.trans hno) (by decide), fun _ => ?_⟩
    rw [wp_bind]
    have hfind : WatchChanged m s.dbg.watchpoints → wp findWatchpointHit (fun r _ => r ≠ none)
        { s' with
          dbg := { s'.dbg with regs := u'.regs }
          os := { s'.os with calls := n } } := by
      intro hchanged
      rw [findWatchpointHit, wp_bind, wp_get]
      refine wp_mono (findWatchpointHitFrom_iff (p := p') 0 (hok' _) hp') fun r _ hr => hr.mpr ?_
      rw [hmem]
      exact h.watchpoints ▸ hchanged
    by_cases hchanged : WatchChanged m s.dbg.watchpoints
    · refine wp_mono (findWatchpointHit_keeps.wp_and (hfind hchanged)) fun r s₂ h₂ => ?_
      obtain ⟨n', rfl⟩ := Sys.quiet_iff_sansCalls.mpr h₂.2
      cases r with
      | none => exact absurd rfl h₂.1
      | some i =>
        dsimp only
        rw [wp_bind]
        exact wp_mono (reportWatchpointHit_keepsWatches i _) fun _ _ hv =>
          ⟨(hends n').of_sansWatches hv, fun _ => ⟨0, rfl⟩⟩
    · refine wp_mono (findWatchpointHit_keeps _) fun r s₂ h₂ => ?_
      obtain ⟨n', rfl⟩ := Sys.quiet_iff_sansCalls.mpr h₂
      cases r with
      | some i =>
        dsimp only
        rw [wp_bind]
        exact wp_mono (reportWatchpointHit_keepsWatches i _) fun _ _ hv =>
          ⟨(hends n').of_sansWatches hv, fun _ => ⟨0, rfl⟩⟩
      | none =>
        dsimp only [Sys.withDbg]
        rw [hpc, h.lineno]
        rcases hleaves with ⟨cur, hcur, hne⟩ | hw | hk
        · rw [hcur]
          dsimp only
          rw [wp_pure, if_pos hne]
          exact ⟨hends n', fun _ => ⟨0, rfl⟩⟩
        · exact absurd hw hchanged
        · cases s.dbg.lineno.lineAtPc addr with
          | none => exact ⟨hends n', fun hne => absurd hk hne⟩
          | some cur => exact ⟨hends n', fun hne => absurd hk hne⟩

end Ending

section Finish

variable {s₀ s : Sys} {p : Process} {c u : Thread} {addr : Addr} {k : ℕ}
  {start : CStr × UInt32} {guard : Guard} {tempBp : Breakpoint}

/-- Taking the temporary breakpoint out. -/
theorem wp_disableTemp {Q : Int × Breakpoint → Sys → Prop} (hok : ∀ call, s.Reliable call)
    (hon : tempBp.enabled = true) (hp : s.process s.dbg.pid = some p)
    (hQ : ∀ s', (s.wrote p tempBp.addr [tempBp.savedByte]).Quiet s' →
      Q (0, { tempBp with enabled := false }) s') :
    wp (cdbgBpDisable tempBp s.dbg.pid) Q s := by
  refine wp_cdbgBpDisable (fun hoff => absurd (hon.symm.trans hoff) (by decide))
    (fun _ s' _ hnone => ?_) fun _ q s' hq hs' => ?_
  · exact absurd (hp.symm.trans (hnone (hok _))) (by simp)
  · obtain rfl := Option.some.inj (hp.symm.trans hq)
    exact hQ s' hs'

theorem Landed.of_earlier {s₁ s' : Sys} {m : Mem} (h : Landed s₁ u addr m s')
    (hlog : s₁.runLog = s.runLog) (hos : s₁.os.arch = s.os.arch ∧ s₁.os.fault = s.os.fault)
    (hlineno : s₁.dbg.lineno = s.dbg.lineno) (hwps : s₁.dbg.watchpoints = s.dbg.watchpoints)
    (hbps : s₁.dbg.breakpoints = s.dbg.breakpoints) : Landed s u addr m s' :=
  ⟨h.state, h.runLog.trans hlog, h.arch.trans hos.1, h.fault.trans hos.2, h.lineno.trans hlineno,
    h.watchpoints.trans hwps, fun b hb hon => hbps ▸ h.off b hb hon, h.thread⟩

/-- The entry that is taken out for a thread behind an enabled one. -/
theorem exists_taken {arch : Arch} {bps : List Breakpoint} {bp : Breakpoint} {pc : Addr}
    (hbp : bp ∈ bps) (hmatch : cdbgBpMatchesPc arch pc bp = true) :
    ∃ i hit, bps.findIdx? (cdbgBpMatchesPc arch pc) = some i ∧ bps[i]? = some hit ∧
      bps.find? (cdbgBpMatchesPc arch pc) = some hit := by
  obtain ⟨i, hidx⟩ := cdbgBpIsTrap_iff_findIdx.mp (List.any_eq_true.mpr ⟨bp, hbp, hmatch⟩)
  obtain ⟨hlt, hfound, hfirst⟩ := List.findIdx?_eq_some_iff_getElem.mp hidx
  refine ⟨i, bps[i], hidx, List.getElem?_eq_getElem hlt, ?_⟩
  rw [List.find?_eq_some_iff_getElem]
  exact ⟨hfound, i, hlt, rfl, fun j hj => by simpa using hfirst j hj⟩

/-- The temporary breakpoint is taken out and the stop reported, which moves the first trapped
thread back. -/
theorem wp_dropAndReport (hst : s.dbg.state = .stopped) (hok : ∀ call, s.Reliable call)
    (hon : tempBp.enabled = true) (hp : s.process s.dbg.pid = some p)
    (hfirst : p.firstTrapped s.os.arch s.dbg.breakpoints = some u) {bp : Breakpoint}
    (hbp : bp ∈ s.dbg.breakpoints) (hmatch : cdbgBpMatchesPc s.os.arch u.regs.pc bp = true)
    (hpos : 0 < u.regs.pc) :
    wp (do dropTempBreakpoint tempBp; reportStop) (fun rc s' => rc = 0 ∧
      Landed s u (u.regs.pc - 1) (takenOut tempBp
        (s.dbg.breakpoints.find? (cdbgBpMatchesPc s.os.arch u.regs.pc)) p.mem) s') s := by
  obtain ⟨i, hit, hidx, hget, hfind⟩ := exists_taken hbp hmatch
  rw [wp_bind, dropTempBreakpoint, wp_bind, wp_get, wp_bind, hfind]
  refine wp_disableTemp hok hon hp fun s₁ hq => ?_
  obtain ⟨m, rfl⟩ := hq
  rw [wp_pure]
  refine wp_mono (wp_reportStop_trapped
    (p := { p with mem := Function.update p.mem tempBp.addr tempBp.savedByte }) hst hok
    (Sys.process_eq_some.mpr ⟨rfl, (Sys.process_eq_some.mp hp).2⟩) hfirst hidx hget hpos)
    fun rc s' h => ⟨h.1, ?_⟩
  exact h.2.of_earlier rfl ⟨rfl, rfl⟩ rfl rfl rfl

/-- The selected thread stands behind the temporary breakpoint, and is moved back. -/
theorem wp_returned (harch : s.os.arch = .x86_64) (hst : s.dbg.state = .stopped)
    (hok : ∀ call, s.Reliable call) (hon : tempBp.enabled = true)
    (hp : s.process s.dbg.pid = some p) (hc : p.thread s.dbg.currentTid = some c) :
    wp (do
      let (rc, _) ← cdbgBpDisable tempBp s.dbg.pid
      if rc ≠ 0 then return (-1 : Int)
      if s.os.arch = .x86_64 then
        let regs := s.dbg.regs.setPc tempBp.addr
        setRegs regs
        if (← cdbgRegsSet s.dbg.pid s.dbg.currentTid regs) ≠ 0 then return -1
        return 0
      return 0)
      (fun rc s' => rc = 0 ∧ Landed s c tempBp.addr (takenOut tempBp none p.mem) s') s := by
  rw [wp_bind]
  refine wp_disableTemp (p := p) hok hon hp fun s₁ hq => ?_
  obtain ⟨m, rfl⟩ := hq
  dsimp only
  rw [wp_ok, wp_ite]
  refine ⟨fun _ => ?_, fun hno => absurd harch hno⟩
  rw [wp_bind, wp_setRegs, wp_bind]
  have hpid := (Sys.process_eq_some.mp hp).2
  refine wp_cdbgRegsSet (fun _ _ hnone => ?_) fun q t s₂ hq ht hq₂ => ?_
  · have hnone := hnone (hok _)
      { p with mem := Function.update p.mem tempBp.addr tempBp.savedByte }
      (Sys.process_eq_some.mpr ⟨rfl, hpid⟩)
    exact absurd (hc.symm.trans hnone) (by simp)
  · obtain rfl := Option.some.inj (Sys.process_eq_some.mp hq).1
    obtain rfl := Option.some.inj (hc.symm.trans ht)
    obtain ⟨l, rfl⟩ := hq₂
    rw [wp_ok, wp_pure]
    refine ⟨rfl, hst, rfl, rfl, rfl, rfl, rfl, fun _ hb _ => hb, ?_⟩
    exact ⟨_, _, Sys.process_eq_some.mpr ⟨rfl, hpid⟩, rfl,
      Process.thread_mapThread (p := { p with
        mem := Function.update p.mem tempBp.addr tempBp.savedByte }) (fun _ => rfl) hc, rfl,
      Regs.pc_setPc _ _⟩

/-- `finish_temp_breakpoint` leaves the thread that has executed the trap at its address. -/
theorem HonouredAt.wp_finish (h : HonouredAt start k tempBp s p c u addr)
    (hst : s.dbg.state = .stopped) (hon : tempBp.enabled = true)
    (hp : s.process s.dbg.pid = some p) (hc : p.thread s.dbg.currentTid = some c)
    (hu : u.regs.pc = addr + 1) {bp : Breakpoint} (hbp : bp ∈ s.dbg.breakpoints)
    (hbpOn : bp.enabled = true) (hbpAddr : bp.addr = addr) :
    wp (finishTempBreakpoint tempBp) (fun rc s' => rc = 0 ∧
      Landed s u addr (takenOut tempBp (s.reported tempBp c u) p.mem) s') s := by
  obtain ⟨harch, hok, hne⟩ := h.works
  rw [finishTempBreakpoint, wp_bind]
  refine wp_cdbgRefreshRegs (fun _ _ hnone => ?_) fun q t s₁ hq ht hq₁ => ?_
  · exact absurd (hc.symm.trans (hnone (hok _) p hp)) (by simp)
  obtain rfl := Option.some.inj (hp.symm.trans hq)
  obtain rfl := Option.some.inj (hc.symm.trans ht)
  obtain ⟨n, rfl⟩ := hq₁
  rw [wp_ok, wp_bind, wp_get, wp_ite]
  have hmatch : cdbgBpMatchesPc s.os.arch c.regs.pc tempBp = true ↔
      c.regs.pc = behindTrap s.os.arch tempBp.addr := by
    rw [cdbgBpMatchesPc_iff]
    exact and_iff_right hon
  have hfound := h.found
  constructor
  · -- another stop than the one at the return address
    intro hno
    have hno : (!cdbgBpMatchesPc s.os.arch c.regs.pc tempBp) = true := hno
    have hpc : ¬ c.regs.pc = behindTrap s.os.arch tempBp.addr := by
      rw [← hmatch]
      simpa using hno
    rw [if_neg hpc] at hfound
    have hpos : 0 < u.regs.pc := by
      rw [hu]
      exact UInt64.pos_iff_ne_zero.mpr hne
    have hbehind : cdbgBpMatchesPc s.os.arch u.regs.pc bp = true :=
      cdbgBpMatchesPc_iff.mpr ⟨hbpOn, by rw [hu, harch, hbpAddr]; rfl⟩
    refine wp_mono (wp_dropAndReport (p := p) hst hok hon hp hfound hbp hbehind hpos)
      fun rc s' h' => ⟨h'.1, ?_⟩
    have hlanded := h'.2.of_earlier (s := s) rfl ⟨rfl, rfl⟩ rfl rfl rfl
    have hback : u.regs.pc - 1 = addr := by
      rw [hu]
      simp
    rw [Sys.reported, if_neg hpc]
    exact hback ▸ hlanded
  · -- the selected thread is at the return address
    intro hyes
    have hyes : ¬ (!cdbgBpMatchesPc s.os.arch c.regs.pc tempBp) = true := hyes
    have hpc : c.regs.pc = behindTrap s.os.arch tempBp.addr := by
      rw [← hmatch]
      simpa using hyes
    rw [if_pos hpc] at hfound
    obtain rfl := hfound
    have haddr : tempBp.addr = addr := by
      rw [hu, harch] at hpc
      exact ((UInt64.add_left_inj 1).mp hpc).symm
    refine wp_mono (wp_returned (p := p) harch hst hok hon hp hc) fun rc s' h' => ⟨h'.1, ?_⟩
    have hlanded := h'.2.of_earlier (s := s) rfl ⟨rfl, rfl⟩ rfl rfl rfl
    rw [Sys.reported, if_pos hpc]
    exact haddr ▸ hlanded

end Finish

/-- When a thread executes the trap of an enabled breakpoint while `next` steps over a call,
and the stop meets `HonouredAt`, the command ends there. -/
theorem next_ends_at_breakpoint {s₀ s : Sys} {start : CStr × UInt32} {k : ℕ} {guard : Guard}
    {tempBp bp : Breakpoint} {p : Process} {c u : Thread}
    (hstop : StopsInCall s₀ start k guard tempBp s) (hp : s.process s.dbg.pid = some p)
    (hbp : bp ∈ s.dbg.breakpoints) (hon : bp.enabled = true) (hu : u ∈ p.threads)
    (hhalt : u.halted = true) (htrap : u.last = .trap bp.addr)
    (hc : p.thread s.dbg.currentTid = some c)
    (hready : HonouredAt start k tempBp s p c u bp.addr) :
    EndsAt s u bp.addr (cdbgNextSourceLine.run s₀).2 := by
  obtain ⟨harch, hok, -⟩ := hready.works
  -- the halted thread stands behind the trap it has executed
  have hbehind : u.regs.pc = bp.addr + 1 := by
    have hpc := hstop.behind p (Sys.process_eq_some.mp hp).1 u hu hhalt bp.addr htrap
    rwa [harch] at hpc
  have hfinish := hready.wp_finish hstop.stopped hstop.enabled hp hc hbehind hbp hon rfl
  refine (hstop.wp_iff (Q := fun _ s' => EndsAt s u bp.addr s')).mpr ?_
  rw [afterStop, wp_bind]
  refine wp_mono hfinish fun rc s₁ h₁ => ?_
  obtain ⟨rfl, hlanded⟩ := h₁
  rw [wp_ok, wp_bind, wp_get, if_neg (not_not.mpr hlanded.state), wp_bind]
  refine wp_mono (hlanded.wp_checkStop harch hok hready.clear hready.leaves) fun r s₂ h₂ => ?_
  obtain ⟨hends, hleft⟩ := h₂
  cases r with
  | inr rc =>
    dsimp only
    rw [leaveSteps, wp_bind]
    exact wp_mono (hends.guardEnd guard) fun _ _ h => h
  | inl pc =>
    -- the loop goes on only after its last round
    have hk : k = 0 := by
      by_contra hne
      obtain ⟨rc, hrc⟩ := hleft hne
      exact absurd hrc (by simp)
    rw [hk]
    dsimp only
    rw [nextLoop, wp_bind, loopUpTo, wp_pure, leaveSteps, wp_bind]
    exact wp_mono (hends.guardEnd guard) fun _ _ h => h

/-! ### A call with a breakpoint in the callee -/

/-- A program with a call on line 1, line 2 behind it, and the callee at `0x2000`, with or
without line information; the callee is a single instruction, with a breakpoint on it. -/
def breakInCallee (known : Bool) : Sys :=
  let s := Sys.attached .x86_64 { atCall with mem := Function.update atCall.mem 0x2000 0xcc }
    fun n =>
      if n = 0 then
        .stopped 5 [.exec 1 (x86Frame 0x2000 0x7ff8) [], .exec 1 (x86Frame 0x2001 0) []]
      else .stopped 5 [.exec 1 (x86Frame 0x1005 0x8000) []]
  { s with dbg := { s.dbg with
    breakpoints := [{ addr := 0x2000, savedByte := 0x90, enabled := true }]
    lineno := { entries :=
      [{ address := 0x1000, line := 1, column := 0, file := "a.c".toList },
        { address := 0x1005, line := 2, column := 0, file := "a.c".toList }] ++
      if known then [{ address := 0x2000, line := 9, column := 0, file := "a.c".toList }]
      else [] } } }

/-- The state in which `next`, given at a call, looks at its first stop. -/
def Sys.firstCallStop (s₀ : Sys) (returnAddr : Addr) : Sys :=
  let s₁ := (cdbgRefreshRegs.run s₀).2
  let s₂ := (stepThreadGuardBegin.run s₁).2
  let s₃ := ((stepThreadGuardCatchUp []).run s₂).2
  let s₄ := ((callReturnAddress s₁.dbg.regs.pc).run s₃).2
  let s₅ := ((cdbgBpEnable {} s₄.dbg.pid returnAddr).run s₄).2
  (cdbgWait.run (cdbgContinue.run s₅).2).2

/-- The calls of the command up to its first stop, with their results. -/
def Sys.CallsFirst (s₀ : Sys) (start : CStr × UInt32) (returnAddr : Addr)
    (tempBp : Breakpoint) : Prop :=
  let s₁ := (cdbgRefreshRegs.run s₀).2
  let s₂ := (stepThreadGuardBegin.run s₁).2
  let s₃ := ((stepThreadGuardCatchUp []).run s₂).2
  let s₄ := ((callReturnAddress s₁.dbg.regs.pc).run s₃).2
  let s₅ := ((cdbgBpEnable {} s₄.dbg.pid returnAddr).run s₄).2
  let s₆ := (cdbgContinue.run s₅).2
  ((cdbgRefreshRegs.run s₀).1 = 0 ∧ s₁.dbg.lineno.lineAtPc s₁.dbg.regs.pc = some start ∧
    (stepThreadGuardBegin.run s₁).1 = []) ∧ ((stepThreadGuardCatchUp []).run s₂).1 = [] ∧
    ((callReturnAddress s₁.dbg.regs.pc).run s₃).1 = some returnAddr ∧
    ((cdbgBpEnable {} s₄.dbg.pid returnAddr).run s₄).1 = (0, tempBp) ∧
    (cdbgContinue.run s₅).1 = 0 ∧ s₆.dbg.state ≠ .idle ∧ (cdbgWait.run s₆).1 = 0

theorem Sys.CallsFirst.stops {s₀ : Sys} {start : CStr × UInt32} {returnAddr : Addr}
    {tempBp : Breakpoint} (h : s₀.CallsFirst start returnAddr tempBp) :
    StopsInCall s₀ start (maxStepIterations - 1) [] tempBp (s₀.firstCallStop returnAddr) := by
  obtain ⟨⟨hrefresh, hline, hbegin⟩, hcatch, hcall, henable, hcont, hidle, hwait⟩ := h
  exact .intro (.first (run_of_code hrefresh) hline (run_of_code hbegin)) (run_of_code hcatch)
    (run_of_code hcall) (run_of_code henable) (run_of_code hcont) hidle (run_of_code hwait)

/-- Up to the stop the debugger stays attached to the same system. -/
theorem Sys.Traced.firstCallStop {s₀ : Sys} {arch : Arch} {fault : KCall → ℕ → Bool}
    (h : s₀.Traced arch fault) (hst : s₀.dbg.state = .stopped) (returnAddr : Addr) :
    (s₀.firstCallStop returnAddr).Traced arch fault := by
  have hI := @traced_invariant arch fault
  have hpatches : ∀ {α : Type} {m : DbgM α} {s : Sys}, Keeps Sys.sansPatches m →
      s.Traced arch fault ∧ s.dbg.state = .stopped →
      (m.run s).2.Traced arch fault ∧ (m.run s).2.dbg.state = .stopped :=
    fun hm h => ⟨hI.keepsPatches hm h.1, (congrArg (·.dbg.state) (hm _)).trans h.2⟩
  have hguard : ∀ {s : Sys}, s.Traced arch fault ∧ s.dbg.state = .stopped →
      ((stepThreadGuardCatchUp []).run s).2.Traced arch fault ∧
        ((stepThreadGuardCatchUp []).run s).2.dbg.state = .stopped :=
    fun h => ⟨hI.keepsHolds (stepThreadGuardCatchUp_keeps []) h.1,
      (congrArg (·.dbg.state) (stepThreadGuardCatchUp_keeps [] _)).trans h.2⟩
  have h₃ := hguard (hguard (hpatches cdbgRefreshRegs_keeps ⟨h, hst⟩))
  have h₄ := hpatches ((callReturnAddress_keeps (cdbgRefreshRegs.run s₀).2.dbg.regs.pc).mono
    fun _ _ => Sys.sansPatches_of_sansCalls) h₃
  have hplaces : ∀ pid, Keeps Sys.sansPatches (cdbgBpEnable {} pid returnAddr) := fun pid s =>
    wp_mono (@cdbgBpEnable_keeps pid s {} returnAddr) fun _ _ hk => hk.2.1
  have h₅ := fun pid => hpatches (hplaces pid) h₄
  have h₆ := fun pid => @wp_mono _ _ _ (fun _ s' => s'.Traced arch fault) _ _
    (hI.continue (h₅ pid).2 (h₅ pid).1) fun rc _ h => (em (rc = 0)).elim h.1 h.2
  exact hI.wait (h₆ _)

/-- The only thread, selected and halted by the breakpoint in the callee. -/
theorem breakInCallee_halted (known : Bool) :
    let s := (breakInCallee known).firstCallStop 0x1005
    (∃ bp ∈ s.dbg.breakpoints, bp.enabled = true ∧ bp.addr = 0x2000) ∧
      ∃ p u, s.process s.dbg.pid = some p ∧ p.threads = [u] ∧
        p.thread s.dbg.currentTid = some u ∧ u.halted = true ∧ u.last = .trap 0x2000 ∧
        u.regs.pc = 0x2001 := by
  intro s
  have hbps : s.dbg.breakpoints.any (fun bp => bp.enabled && bp.addr = 0x2000) = true ∧
      s.dbg.currentTid = 0 ∧ (s.process s.dbg.pid).map (fun p =>
        p.threads.map fun u => (u.halted, u.last, u.regs.pc)) =
          some [(true, .trap 0x2000, 0x2001)] := by
    cases known with
    | true => decide +kernel
    | false => decide +kernel
  obtain ⟨hbps, hcur, hproc⟩ := hbps
  refine ⟨by simpa using hbps, ?_⟩
  obtain ⟨p, hp, hthreads⟩ := Option.map_eq_some_iff.mp hproc
  obtain ⟨u, hu, hfacts⟩ := List.map_eq_singleton_iff.mp hthreads
  obtain ⟨hhalt, hlast, hpc⟩ : u.halted = true ∧ u.last = .trap 0x2000 ∧ u.regs.pc = 0x2001 := by
    simpa using hfacts
  refine ⟨p, u, hp, hu, ?_, hhalt, hlast, hpc⟩
  rw [hcur, Process.thread, if_pos rfl, Process.primary, hu]
  rfl

/-- `next` at the call reports the breakpoint in the callee, which has no line information, and
runs on to the next line. -/
theorem next_goes_on_behind_breakpoint :
    let s₀ := breakInCallee false
    ∃ start k guard tempBp s bp p u, StopsInCall s₀ start k guard tempBp s ∧
      s.process s.dbg.pid = some p ∧ bp ∈ s.dbg.breakpoints ∧ bp.enabled = true ∧
      u ∈ p.threads ∧ u.halted = true ∧ u.last = .trap bp.addr ∧
      ¬ EndsAt s u bp.addr (cdbgNextSourceLine.run s₀).2 := by
  have hcalls : (breakInCallee false).CallsFirst ("a.c".toList, 1) 0x1005
      { addr := 0x1005, savedByte := 0x90, enabled := true } := by
    unfold Sys.CallsFirst
    decide +kernel
  have hfinal : ((cdbgNextSourceLine.run (breakInCallee false)).2.os.proc.bind fun p =>
      p.thread (cdbgNextSourceLine.run (breakInCallee false)).2.dbg.currentTid).map (·.regs.pc) =
        some 0x1005 := by
    decide +kernel
  have hhalted := breakInCallee_halted false
  generalize breakInCallee false = s₀ at hcalls hfinal hhalted ⊢
  obtain ⟨⟨bp, hbp, hon, haddr⟩, p, u, hp, hu, -, hhalt, hlast, -⟩ := hhalted
  refine ⟨_, _, _, _, _, bp, p, u, hcalls.stops, hp, hbp, hon, by simp [hu], hhalt,
    hlast.trans (by rw [haddr]), ?_⟩
  rintro ⟨-, -, p', u', hp', hu', -, hpc⟩
  rw [hp', Option.bind_some, hu', Option.map_some, hpc, haddr] at hfinal
  exact absurd hfinal (by decide)

/-- With line information for the callee the command ends at the breakpoint. -/
theorem next_ends_at_breakpoint_known :
    ∃ u, EndsAt ((breakInCallee true).firstCallStop 0x1005) u 0x2000
      (cdbgNextSourceLine.run (breakInCallee true)).2 := by
  have hcalls : (breakInCallee true).CallsFirst ("a.c".toList, 1) 0x1005
      { addr := 0x1005, savedByte := 0x90, enabled := true } := by
    unfold Sys.CallsFirst
    decide +kernel
  have htable : ∀ b ∈ ((breakInCallee true).firstCallStop 0x1005).dbg.breakpoints,
      b.enabled = true → b.addr + 1 ≠ 0x2000 := by decide +kernel
  have hline : ((breakInCallee true).firstCallStop 0x1005).dbg.lineno.lineAtPc 0x2000 =
      some ("a.c".toList, 9) := by decide +kernel
  have harch : ((breakInCallee true).firstCallStop 0x1005).os.arch = .x86_64 := by
    decide +kernel
  have htraced : (breakInCallee true).Traced .x86_64 fun _ _ => false := by
    refine ⟨rfl, rfl, fun p hp => ?_, by decide⟩
    obtain rfl := Option.some.inj hp
    exact ⟨⟨by decide, by decide, by decide⟩, rfl, by decide⟩
  have hok : ∀ call, ((breakInCallee true).firstCallStop 0x1005).Reliable call := fun call =>
    (htraced.firstCallStop rfl 0x1005).reliable fun _ => rfl
  have hhalted := breakInCallee_halted true
  generalize breakInCallee true = s₀ at hcalls htable hline harch hok hhalted ⊢
  obtain ⟨⟨bp, hbp, hon, haddr⟩, p, u, hp, hu, hcur, hhalt, hlast, hpc⟩ := hhalted
  rw [← haddr] at hlast htable hline
  refine ⟨u, ?_⟩
  rw [← haddr]
  refine next_ends_at_breakpoint hcalls.stops hp hbp hon (by simp [hu]) hhalt hlast hcur
    ⟨⟨harch, hok, by rw [haddr]; decide⟩, ?_, htable, .inl ⟨_, hline, by decide⟩⟩
  rw [harch, hpc, if_neg (by decide)]
  refine Process.firstTrapped_single hu (List.any_eq_true.mpr ⟨bp, hbp, ?_⟩)
  exact cdbgBpMatchesPc_iff.mpr ⟨hon, by rw [hpc, haddr]; rfl⟩

end Debugger
