/-
The breakpoints across a restart of the debuggee.

`cdbg_run` keeps the arguments of the `break` commands, wipes the table, spawns the new
process and, once it has stopped, gives the arguments to `cmd_break` again.

* `specs_after_failed_run`: a run that ends before the new process has stopped leaves an
  empty table behind.
* `rebuilt_table_iff`: the table is rebuilt as the arguments would build it exactly when
  each of them still resolves to its address after it has been cut off at the size of the
  `spec` field.
-/
import Debugger.Repl
import Debugger.Wait

open Prog

namespace Debugger

/-! ### The stages of a run -/

/-- A stopped process of a program that can be run again. -/
def Sys.rerunnable (events : ℕ → WaitEvent) : Sys where
  dbg := { pid := 100, state := .stopped, runArgv := ["./target".toList] }
  os := { arch := .x86_64, proc := some twoThreads, events := events, images := fun _ => twoThreads }

/-- A run with the arguments `argv`, given in the state `s`, spawns the new process in the
state `t`. -/
def SpawnsFrom (argv : Option (List CStr)) (s t : Sys) : Prop :=
  ∃ s₁ s₂ program rest, (setRunTargetIfGiven argv).run s = (0, s₁) ∧
    s₁.dbg.runArgv = program :: rest ∧ stopDebuggee.run s₁ = (0, s₂) ∧
    ((cdbgLoadSymbols program).run (s₂.withDbg (s₂.dbg.wiped s₂.os.arch))).2 = t

/-- The new process could not be spawned, or it has ended before its first stop. -/
def FailsToStart (t : Sys) : Prop :=
  (cdbgSpawn.run t).1 ≠ 0 ∨
    (cdbgSpawn.run t).1 = 0 ∧ (cdbgWait.run (cdbgSpawn.run t).2).1 = 1

/-- A run with the arguments `argv`, given in the state `s`, sets the breakpoints again in
the state `t` of the new process. -/
def RebuildsFrom (argv : Option (List CStr)) (s t : Sys) : Prop :=
  ∃ t₀ t₁ t₂, SpawnsFrom argv s t₀ ∧ cdbgSpawn.run t₀ = (0, t₁) ∧ cdbgWait.run t₁ = (0, t₂) ∧
    (updateLoadedSlides.run t₂).2 = t

section Stages

variable {argv : Option (List CStr)} {s t : Sys}

theorem setRunTargetIfGiven_breakpoints :
    wp (setRunTargetIfGiven argv) (fun _ s' => s'.dbg.breakpoints = s.dbg.breakpoints) s := by
  cases argv with
  | none => rfl
  | some argv =>
    rw [setRunTargetIfGiven, cdbgSetRunTarget, wp_ite]
    refine ⟨fun _ => rfl, fun _ => ?_⟩
    rw [wp_ite]
    exact ⟨fun _ => rfl, fun _ => rfl⟩

/-- Ending the debuggee switches the breakpoints off and keeps their arguments. -/
theorem stopDebuggee_specs :
    wp stopDebuggee (fun _ s' => s'.dbg.breakpoints.map (·.spec) =
      s.dbg.breakpoints.map (·.spec)) s := by
  have hkill : wp (killIfLive s.dbg) (fun _ s' => s'.dbg.breakpoints = s.dbg.breakpoints) s := by
    rw [killIfLive, wp_ite]
    refine ⟨fun _ => ?_, fun _ => rfl⟩
    rw [killAndWait, wp_bind, ptraceKill, wp_bind]
    refine wp_kernelRead (fun s₁ hq _ => ?_) fun p a s₁ _ _ hq => ?_
    · obtain ⟨n, rfl⟩ := hq
      rfl
    · obtain ⟨n, rfl⟩ := hq
      dsimp only
      rw [wp_bind, wp_modify, wp_pure, wp_ite]
      refine ⟨fun h => absurd rfl h, fun _ => ?_⟩
      rw [wp_bind]
      refine wp_cdbgProcessWait (fun s₂ hq _ => ?_) (fun p status waits calls _ _ _ => rfl)
        fun p sig ms s₂ _ _ _ hq => ?_
      · obtain ⟨n, rfl⟩ := hq
        rfl
      · obtain ⟨n, rfl⟩ := hq
        rfl
  rw [stopDebuggee, wp_bind, wp_get, wp_ite]
  refine ⟨fun _ => rfl, fun _ => ?_⟩
  rw [wp_bind]
  refine wp_mono hkill fun rc s' h => ?_
  rw [wp_ite]
  refine ⟨fun _ => by rw [wp_pure, h], fun _ => ?_⟩
  show (s'.dbg.detached.breakpoints).map (·.spec) = _
  rw [Cdbg.detached, List.map_map, h]
  rfl

/-- Updating the slides takes nothing but the slides and the number of kernel calls. -/
theorem updateSlides_breakpoints (linenoOk symsOk : Bool) :
    Keeps (·.dbg.breakpoints) (updateSlides linenoOk symsOk) := by
  have hlineno : ∀ pid, Keeps (·.dbg.breakpoints) (cdbgLinenoUpdateSlide pid) := fun pid s => by
    rw [cdbgLinenoUpdateSlide, wp_bind, regionScan]
    refine wp_kernelRead (fun s' hq _ => ?_) fun p a s' _ _ hq => ?_
    · obtain ⟨n, rfl⟩ := hq
      rfl
    · obtain ⟨n, rfl⟩ := hq
      rfl
  have hsyms : ∀ pid, Keeps (·.dbg.breakpoints) (cdbgSymsUpdateSlide pid) := fun pid s => by
    rw [cdbgSymsUpdateSlide, wp_bind, regionScan]
    refine wp_kernelRead (fun s' hq _ => ?_) fun p a s' _ _ hq => ?_
    · obtain ⟨n, rfl⟩ := hq
      rfl
    · obtain ⟨n, rfl⟩ := hq
      rfl
  have hif : ∀ {flag : Bool} {m : DbgM Int}, Keeps (·.dbg.breakpoints) m →
      Keeps (·.dbg.breakpoints) (updateIf flag m) := fun {flag m} hm s => by
    rw [updateIf, wp_ite]
    refine ⟨fun _ => ?_, fun _ => rfl⟩
    rw [wp_bind]
    exact wp_mono (hm s) fun _ _ h => h
  intro s
  rw [updateSlides, wp_bind, wp_get, wp_bind]
  exact wp_mono (hif (hlineno _) s) fun _ s₁ h₁ =>
    wp_mono (hif (hsyms _) s₁) fun _ s₂ h₂ => h₂.trans h₁

theorem updateLoadedSlides_breakpoints : Keeps (·.dbg.breakpoints) updateLoadedSlides := by
  intro s
  rw [updateLoadedSlides, wp_bind, wp_get]
  exact updateSlides_breakpoints _ _ s

theorem cdbgLoadSymbols_breakpoints (path : CStr) :
    Keeps (·.dbg.breakpoints) (cdbgLoadSymbols path) := by
  intro s
  rw [cdbgLoadSymbols, wp_bind, wp_get]
  dsimp only
  rw [wp_bind, wp_modify, wp_bind, wp_modifyDbg, wp_ite]
  refine ⟨fun _ => ?_, fun _ => rfl⟩
  rw [wp_bind]
  exact wp_mono (updateSlides_breakpoints _ _ _) fun _ s' h => h

theorem cdbgSpawn_breakpoints : Keeps (·.dbg.breakpoints) cdbgSpawn := by
  intro s
  rw [cdbgSpawn, wp_bind, cdbgProcessSpawn, wp_bind, wp_get, wp_bind, wp_modify, wp_ite]
  refine ⟨fun _ => rfl, fun _ => ?_⟩
  dsimp only
  rw [wp_bind, wp_modify, wp_pure]
  dsimp only
  rw [wp_bind, wp_modifyDbg, wp_bind]
  exact wp_mono (updateLoadedSlides_breakpoints _) fun _ s' h => h

/-- The new process is spawned with an empty table. -/
theorem SpawnsFrom.breakpoints (h : SpawnsFrom argv s t) : t.dbg.breakpoints = [] := by
  obtain ⟨s₁, s₂, program, rest, -, -, -, rfl⟩ := h
  exact cdbgLoadSymbols_breakpoints program (s₂.withDbg (s₂.dbg.wiped s₂.os.arch))

/-- A run once the new process is to be spawned. -/
theorem SpawnsFrom.run {Q : Int → Sys → Prop} (h : SpawnsFrom argv s t) :
    wp (cdbgRun argv) Q s ↔ wp (do
      if (← cdbgSpawn) ≠ 0 then return -1
      if (← cdbgWait) ≠ 0 then
        reportProcessExit
        return -1
      setUpRun (s.dbg.breakpoints.map fun bp => snprintf specSize bp.spec)) Q t := by
  obtain ⟨s₁, s₂, program, rest, hset, hargv, hstop, rfl⟩ := h
  have htable : s₁.dbg.breakpoints = s.dbg.breakpoints :=
    (wp_of_run hset).mp setRunTargetIfGiven_breakpoints
  have hspecs : s₂.dbg.breakpoints.map (fun bp => snprintf specSize bp.spec) =
      s.dbg.breakpoints.map fun bp => snprintf specSize bp.spec := by
    have hkept := (wp_of_run hstop).mp (stopDebuggee_specs (s := s₁))
    rw [htable] at hkept
    simpa [List.map_map, Function.comp_def] using congrArg (List.map (snprintf specSize)) hkept
  rw [cdbgRun, wp_bind, wp_of_run hset, if_neg (not_not.mpr rfl), wp_bind, wp_get, hargv]
  dsimp only
  rw [startRun, wp_bind, wp_of_run hstop, if_neg (not_not.mpr rfl), wp_bind, wp_get, hspecs]
  rfl

end Stages

/-! ### A table whose entries are all enabled -/

section Armed

variable {bps : List Breakpoint} (hon : ∀ bp ∈ bps, bp.enabled = true) {s : Sys}

include hon in
theorem reenableLoop_armed {pid : ℕ} {pc : Addr} :
    wp (reenableLoop pid pc bps) (fun r s' => r.2 = bps ∧ s' = s) s := by
  induction bps with
  | nil => exact ⟨rfl, rfl⟩
  | cons bp rest ih =>
    have hbp : bp.enabled = true := hon bp List.mem_cons_self
    rw [reenableLoop, wp_ite]
    refine ⟨fun hoff => absurd hoff.1 (by simp [hbp]), fun _ => ?_⟩
    rw [wp_bind]
    refine wp_mono (ih fun b hb => hon b (List.mem_cons_of_mem _ hb)) fun r s' h => ?_
    exact ⟨congrArg (List.cons bp) h.1, h.2⟩

include hon in
theorem cdbgWait_armed (h : s.dbg.breakpoints = bps) :
    wp cdbgWait (fun _ s' => s'.dbg.breakpoints = bps) s := by
  refine wp_cdbgWait (fun s₁ hq _ => ?_) (fun p s₁ _ _ he => ?_) fun p sig ms s₁ _ _ _ hq => ?_
  · obtain ⟨n, rfl⟩ := hq
    exact h
  · obtain ⟨status, waits, calls, rfl⟩ := he
    exact h
  · have h₁ : s₁.dbg.breakpoints = bps := by
      obtain ⟨n, rfl⟩ := hq
      exact h
    have hloop : wp reenableBreakpointsAfterStep (fun _ s' => s'.dbg.breakpoints = bps) s₁ := by
      rw [reenableBreakpointsAfterStep, wp_bind, wp_get, wp_ite]
      refine ⟨fun _ => h₁, fun _ => ?_⟩
      rw [wp_bind]
      refine wp_cdbgRefreshRegs (fun s₂ hq _ => ?_) fun p t s₂ _ _ hq => ?_
      · rw [wp_ite]
        obtain ⟨n, rfl⟩ := hq
        exact ⟨fun _ => h₁, fun h => absurd neg_one_ne h⟩
      · rw [wp_ite]
        refine ⟨fun h => absurd rfl h, fun _ => ?_⟩
        obtain ⟨n, rfl⟩ := hq
        rw [wp_bind, wp_get, wp_bind]
        refine wp_mono (reenableLoop_armed (s := { s₁ with dbg := _, os := _ }) (h₁ ▸ hon)) fun r s₃ h₃ => ?_
        rw [wp_bind, wp_setBreakpoints]
        exact h₃.1.trans h₁
    exact wp_mono hloop fun _ _ h₂ => ⟨fun _ => h₂, fun _ => h₂⟩

include hon in
theorem cdbgContinue_armed (h : s.dbg.breakpoints = bps) :
    wp cdbgContinue (fun _ s' => s'.dbg.breakpoints = bps) s := by
  -- resuming does not look at the table
  have hresume : ∀ {s' : Sys}, s'.dbg.breakpoints = bps → wp (do
      if (← ptraceResume .cont s'.dbg.pid) ≠ 0 then return -1
      setState .running
      return 0) (fun _ s'' => s''.dbg.breakpoints = bps) s' := fun {s'} h' => by
    refine wp_resumeRunning (fun s₁ hq _ => ?_) fun p s₁ _ hq => ?_
    · obtain ⟨n, rfl⟩ := hq
      exact h'
    · obtain ⟨n, rfl⟩ := hq
      exact h'
  have hstep : wp stepOverDisabledBreakpoint (fun _ s' => s'.dbg.breakpoints = bps) s := by
    rw [stepOverDisabledBreakpoint, wp_bind, wp_get, wp_ite]
    refine ⟨fun _ => h, fun _ => ?_⟩
    rw [wp_bind]
    refine wp_cdbgRefreshRegs (fun s₁ hq _ => ?_) fun p t s₁ _ _ hq => ?_
    · rw [wp_ite]
      obtain ⟨n, rfl⟩ := hq
      exact ⟨fun _ => h, fun h => absurd neg_one_ne h⟩
    · rw [wp_ite]
      refine ⟨fun h => absurd rfl h, fun _ => ?_⟩
      obtain ⟨n, rfl⟩ := hq
      rw [wp_bind, wp_get, wp_ite]
      refine ⟨fun _ => h, fun hfound => absurd ?_ hfound⟩
      -- no entry is disabled, at the pc or elsewhere
      show disabledBreakpointAtPc s.dbg.breakpoints _ = none
      rw [h, disabledBreakpointAtPc, List.find?_eq_none]
      intro bp hbp
      simp [hon bp hbp]
  rw [cdbgContinue, wp_bind]
  refine wp_mono hstep fun rc s₁ h₁ => ?_
  rw [wp_ite]
  refine ⟨fun _ => h₁, fun _ => ?_⟩
  rw [wp_bind, wp_get, wp_ite]
  exact ⟨fun _ => h₁, fun _ => hresume h₁⟩

theorem dropTempBreakpoint_breakpoints (temp : Breakpoint) :
    Keeps (·.dbg.breakpoints) (dropTempBreakpoint temp) := by
  intro s
  rw [dropTempBreakpoint, wp_bind, wp_get, wp_bind]
  refine wp_mono (cdbgBpDisable_keeps temp) fun r s' h => ?_
  exact congrArg Cdbg.breakpoints h.1

include hon in
/-- Running to the entry leaves the table as it is. -/
theorem runToEntryStop_armed (h : s.dbg.breakpoints = bps) :
    wp runToEntryStop (fun _ s' => s'.dbg.breakpoints = bps) s := by
  -- every way out drops the temporary breakpoint, which is not in the table
  have hdrop : ∀ {temp : Breakpoint} {s₁ : Sys} {f : PUnit → DbgM Int},
      s₁.dbg.breakpoints = bps →
      (∀ s₂, s₂.dbg.breakpoints = bps → wp (f ⟨⟩) (fun _ s' => s'.dbg.breakpoints = bps) s₂) →
      wp (dropTempBreakpoint temp >>= f) (fun _ s' => s'.dbg.breakpoints = bps) s₁ :=
    fun {temp s₁ f} h₁ hf => by
      rw [wp_bind]
      exact wp_mono (dropTempBreakpoint_breakpoints temp s₁) fun _ s₂ h₂ => hf s₂ (h₂.trans h₁)
  -- the last way out also moves the pc
  have hfinish : ∀ {temp : Breakpoint} {s₁ : Sys}, s₁.dbg.breakpoints = bps →
      wp (finishEntryStop temp) (fun _ s' => s'.dbg.breakpoints = bps) s₁ := fun {temp s₁} h₁ => by
    rw [finishEntryStop, wp_bind]
    refine wp_cdbgRefreshRegs (fun s₂ hq _ => ?_) fun p t s₂ _ _ hq => ?_
    · obtain ⟨n, rfl⟩ := hq
      rw [if_pos (by decide)]
      exact hdrop h₁ fun s₃ h₃ => h₃
    · obtain ⟨n, rfl⟩ := hq
      rw [if_neg (by decide), wp_bind, wp_get, wp_ite]
      refine ⟨fun _ => hdrop h₁ fun s₃ h₃ => ?_, fun _ => hdrop h₁ fun s₃ h₃ => h₃⟩
      rw [wp_ite]
      refine ⟨fun _ => ?_, fun _ => h₃⟩
      rw [wp_bind, wp_setRegs, wp_bind]
      refine wp_cdbgRegsSet (fun s₄ hq _ => ?_) fun q u s₄ _ _ hq => ?_
      · obtain ⟨n, rfl⟩ := hq
        exact h₃
      · obtain ⟨n, rfl⟩ := hq
        exact h₃
  rw [runToEntryStop, wp_bind, wp_get, wp_ite]
  refine ⟨fun _ => h, fun _ => ?_⟩
  cases resolveEntryStopAddr s.dbg with
  | none => exact h
  | some entryAddr =>
    dsimp only
    rw [wp_bind]
    refine wp_mono (cdbgBpEnable_keeps {} entryAddr) fun r s₁ hr => ?_
    obtain ⟨rc, temp⟩ := r
    have h₁ : s₁.dbg.breakpoints = bps := (congrArg Cdbg.breakpoints hr.1).trans h
    dsimp only
    rw [wp_ite]
    refine ⟨fun _ => h₁, fun _ => ?_⟩
    rw [continueToEntry, wp_bind]
    refine wp_mono (cdbgContinue_armed hon h₁) fun rc s₂ h₂ => ?_
    rw [wp_ite]
    refine ⟨fun _ => hdrop h₂ fun s₃ h₃ => h₃, fun _ => ?_⟩
    rw [wp_bind]
    refine wp_mono (cdbgWait_armed hon h₂) fun rc s₃ h₃ => ?_
    rw [wp_ite]
    refine ⟨fun _ => hdrop h₃ fun s₄ h₄ => h₄, fun _ => ?_⟩
    rw [wp_bind, wp_get, wp_ite]
    exact ⟨fun _ => hdrop h₃ fun s₄ h₄ => h₄, fun _ => hfinish h₃⟩

end Armed

/-! ### A run that does not start -/

/-- After a run whose process could not be spawned or ended before its first stop, the table
holds the arguments it held before exactly when it held none. -/
theorem specs_after_failed_run {argv : Option (List CStr)} {s t : Sys} (h : SpawnsFrom argv s t)
    (hfail : FailsToStart t) :
    wp (cdbgRun argv) (fun rc s' => rc = -1 ∧
      (s'.dbg.breakpoints.map (·.spec) = s.dbg.breakpoints.map (·.spec) ↔
        s.dbg.breakpoints = [])) s := by
  have hempty : ∀ {s' : Sys}, s'.dbg.breakpoints = [] →
      (s'.dbg.breakpoints.map (·.spec) = s.dbg.breakpoints.map (·.spec) ↔
        s.dbg.breakpoints = []) := fun h' => by
    rw [h', List.map_nil, eq_comm, List.map_eq_nil_iff]
  cases hspawn : cdbgSpawn.run t with
  | mk rc t₁ =>
    have htable₁ : t₁.dbg.breakpoints = [] :=
      ((wp_of_run hspawn).mp (cdbgSpawn_breakpoints t)).trans h.breakpoints
    rw [FailsToStart, hspawn] at hfail
    rw [h.run, wp_bind, wp_of_run hspawn]
    rcases hfail with hrc | ⟨hrc, hend⟩
    · rw [if_pos hrc]
      exact ⟨rfl, hempty htable₁⟩
    · dsimp only at hrc hend
      subst hrc
      rw [if_neg (not_not.mpr rfl), wp_bind]
      refine wp_mono (wp_and (cdbgWait_armed (by simp) htable₁)
        (show wp cdbgWait (fun rc _ => rc = 1) t₁ from hend)) fun rc t₂ h₂ => ?_
      rw [h₂.2, if_pos (by decide), wp_bind, reportProcessExit, wp_bind, wp_get, wp_ite]
      refine ⟨fun _ => ⟨rfl, hempty h₂.1⟩, fun _ => ⟨rfl, hempty ?_⟩⟩
      show t₂.dbg.breakpoints.map _ = []
      rw [h₂.1, List.map_nil]


/-- `break 0x1000` and a run of a program that exits before its first stop: the breakpoint
is gone. -/
theorem specs_lost_after_failed_run :
    let s := ((cmdBreak "0x1000".toList).run (Sys.rerunnable fun _ => .exited 127)).2
    let s' := ((cdbgRun none).run s).2
    (∃ t, SpawnsFrom none s t ∧ FailsToStart t) ∧ ((cdbgRun none).run s).1 = -1 ∧
      s'.dbg.breakpoints.map (·.spec) ≠ s.dbg.breakpoints.map (·.spec) := by
  intro s s'
  refine ⟨⟨_, ⟨s, (stopDebuggee.run s).2, "./target".toList, [], rfl, by decide +kernel,
    Prod.ext (by decide +kernel) rfl, rfl⟩, .inr ⟨by decide +kernel, by decide +kernel⟩⟩,
    by decide +kernel, by decide +kernel⟩

/-- The run that fails in front of an empty table. -/
theorem specs_after_failed_run_empty :
    let s := Sys.rerunnable fun _ => .exited 127
    ((cdbgRun none).run s).1 = -1 ∧ ((cdbgRun none).run s).2.dbg.breakpoints = [] := by
  intro s
  have h : SpawnsFrom none s _ := ⟨s, (stopDebuggee.run s).2, "./target".toList, [], rfl, rfl,
    Prod.ext (by decide +kernel) rfl, rfl⟩
  obtain ⟨hrc, hiff⟩ := specs_after_failed_run h (.inr ⟨by decide +kernel, by decide +kernel⟩)
  exact ⟨hrc, List.map_eq_nil_iff.mp (hiff.mpr rfl)⟩

/-! ### Setting the breakpoints again -/

section Rebuild

variable {s : Sys}

/-- Two arguments that resolve alike and leave the same text make the same entry. -/
theorem cmdBreak_congr {target target' : CStr}
    (haddr : resolveBreak s.dbg target = resolveBreak s.dbg target')
    (hspec : snprintf specSize target = snprintf specSize target') :
    (cmdBreak target).run s = (cmdBreak target').run s := by
  simp only [cmdBreak, StateT.run_bind, StateT.run_get, pure_bind, haddr, hspec]

/-- `cmd_break` appends an enabled entry at the address of its argument, or changes nothing. -/
theorem cmdBreak_entry (target : CStr) :
    wp (cmdBreak target) (fun rc s' => (rc ≠ 0 → s'.dbg = s.dbg) ∧ (rc = 0 → ∃ bp : Breakpoint,
      s'.dbg = { s.dbg with breakpoints := s.dbg.breakpoints ++ [bp] } ∧ bp.enabled = true ∧
        bp.spec = snprintf specSize target ∧ resolveBreak s.dbg target = some bp.addr)) s := by
  rw [cmdBreak, wp_bind, wp_get]
  dsimp only
  cases hres : resolveBreak s.dbg target with
  | none => exact ⟨fun _ => rfl, fun h => absurd h neg_one_ne⟩
  | some addr =>
    dsimp only
    rw [wp_ite]
    refine ⟨fun _ => ⟨fun _ => rfl, fun h => absurd h neg_one_ne⟩, fun _ => ?_⟩
    rw [wp_bind]
    refine wp_cdbgBpEnable (fun bp' s₁ hq _ _ => ?_) fun p s₁ _ hq => ?_
    · obtain ⟨n, rfl⟩ := hq
      exact ⟨fun _ => rfl, fun h => absurd h neg_one_ne⟩
    · obtain ⟨n, rfl⟩ := hq
      exact ⟨fun h => absurd rfl h, fun _ => ⟨_, rfl, rfl, rfl, rfl⟩⟩

/-- Giving arguments to `cmd_break` and ignoring its codes, as `cdbg_run` does. -/
def breakEach (specs : List CStr) : DbgM PUnit :=
  forEach (fun spec => do let _ ← cmdBreak spec) specs

/-- `cdbg_run` appends an entry for each argument that is accepted; if all are, the entries
stand at the addresses of the arguments. -/
theorem breakEach_entries : ∀ (specs : List CStr) (s : Sys),
    wp (breakEach specs) (fun _ s' => ∃ added : List Breakpoint,
      s'.dbg = { s.dbg with breakpoints := s.dbg.breakpoints ++ added } ∧
        (∀ bp ∈ added, bp.enabled = true) ∧ added.length ≤ specs.length ∧
        (added.length = specs.length →
          added.map (fun bp => some bp.addr) = specs.map (resolveBreak s.dbg))) s := by
  intro specs
  induction specs with
  | nil => exact fun s => ⟨[], by rw [List.append_nil]; rfl, by simp, by simp, fun _ => rfl⟩
  | cons spec specs ih =>
    intro s
    rw [breakEach, forEach, wp_bind, wp_bind]
    refine wp_mono (cmdBreak_entry spec) fun rc s₁ h₁ => ?_
    rw [wp_pure]
    refine wp_mono (ih s₁) fun _ s₂ h₂ => ?_
    obtain ⟨added, hd, hon, hlen, haddrs⟩ := h₂
    by_cases hrc : rc = 0
    · obtain ⟨bp, hd₁, hbp, -, haddr⟩ := h₁.2 hrc
      rw [hd₁] at hd haddrs
      refine ⟨bp :: added, by simpa using hd, by simpa [hbp] using hon, by simpa using hlen,
        fun hall => ?_⟩
      rw [List.map_cons, List.map_cons, haddr]
      exact congrArg (List.cons _) (haddrs (by simpa using hall))
    · rw [h₁.1 hrc] at hd
      refine ⟨added, hd, hon, Nat.le_succ_of_le hlen, fun hall => ?_⟩
      rw [List.length_cons] at hall
      omega

/-- If every argument is accepted, so is each of them in `cdbg_run`'s loop, and the entries
stand at the addresses of the arguments and keep their texts. -/
theorem breakEach_of_accepted : ∀ {args : List CStr} {s s' : Sys},
    (forUntil cmdBreak args).run s = (0, s') → (breakEach args).run s = (⟨⟩, s') ∧
      ∃ added : List Breakpoint,
        s'.dbg = { s.dbg with breakpoints := s.dbg.breakpoints ++ added } ∧
        added.map (·.spec) = args.map (snprintf specSize) ∧
        added.map (fun bp => some bp.addr) = args.map (resolveBreak s.dbg) := by
  intro args
  induction args with
  | nil =>
    intro s s' h
    obtain rfl : s = s' := congrArg Prod.snd h
    exact ⟨rfl, [], by simp, rfl, rfl⟩
  | cons arg args ih =>
    intro s s' h
    cases hrun : (cmdBreak arg).run s with
    | mk rc s₁ =>
      have hcode : (if rc ≠ 0 then (pure rc : DbgM Int) else forUntil cmdBreak args).run s₁ =
          (0, s') := by
        rw [← h]
        show _ = (if ((cmdBreak arg).run s).1 ≠ 0 then (pure ((cmdBreak arg).run s).1 : DbgM Int)
          else forUntil cmdBreak args).run ((cmdBreak arg).run s).2
        rw [hrun]
      by_cases hrc : rc = 0
      · rw [if_neg (not_not.mpr hrc)] at hcode
        obtain ⟨hrest, added, hd, hspec, haddr⟩ := ih hcode
        obtain ⟨bp, hd₁, -, hbp, hres⟩ := ((wp_of_run hrun).mp (cmdBreak_entry arg)).2 hrc
        rw [hd₁] at hd haddr
        refine ⟨?_, bp :: added, by simpa using hd, ?_, ?_⟩
        · show (breakEach args).run ((cmdBreak arg).run s).2 = _
          rw [hrun, hrest]
        · rw [List.map_cons, hbp, hspec, List.map_cons]
        · rw [List.map_cons, ← hres, haddr, List.map_cons]
          rfl
      · rw [if_pos hrc] at hcode
        exact absurd (congrArg Prod.fst hcode) hrc

/-- Arguments that resolve alike after they have been cut off build the same table. -/
theorem breakEach_congr : ∀ {args : List CStr} {s : Sys},
    (∀ arg ∈ args, resolveBreak s.dbg (snprintf specSize arg) = resolveBreak s.dbg arg) →
    (breakEach (args.map (snprintf specSize))).run s = (breakEach args).run s := by
  intro args
  induction args with
  | nil => exact fun _ => rfl
  | cons arg args ih =>
    intro s h
    have hhead := cmdBreak_congr (h arg List.mem_cons_self) (snprintf_snprintf specSize arg)
    show (breakEach (args.map (snprintf specSize))).run
      ((cmdBreak (snprintf specSize arg)).run s).2 = (breakEach args).run ((cmdBreak arg).run s).2
    rw [hhead]
    refine ih fun other hother => ?_
    -- `cmd_break` adds to the table, which plays no part in the resolution
    have hsame : ∀ target, resolveBreak ((cmdBreak arg).run s).2.dbg target =
        resolveBreak s.dbg target := fun target => by
      have hentry : wp (cmdBreak arg) (fun rc s' => _) s := cmdBreak_entry arg
      by_cases hrc : ((cmdBreak arg).run s).1 = 0
      · obtain ⟨bp, hd, -⟩ := hentry.2 hrc
        rw [hd]
        rfl
      · rw [hentry.1 hrc]
    rw [hsame, hsame]
    exact h other (List.mem_cons_of_mem _ hother)

end Rebuild

/-- The state `s'` has the table of `t'`, switched off if the new process has ended. -/
def Rebuilt (t' s' : Sys) : Prop :=
  (s'.dbg.pid ≠ 0 → s'.dbg.breakpoints = t'.dbg.breakpoints) ∧
    s'.dbg.breakpoints.map (fun bp => { bp with enabled := false }) =
      t'.dbg.breakpoints.map fun bp => { bp with enabled := false }

/-- What `cdbg_run` does after it has set the breakpoints leaves the table as it is. -/
theorem setUpRun_rebuilt {specs : List CStr} {t₂ u : Sys}
    (hrun : (breakEach specs).run (updateLoadedSlides.run t₂).2 = (⟨⟩, u))
    (hon : ∀ bp ∈ u.dbg.breakpoints, bp.enabled = true) :
    wp (setUpRun specs) (fun _ s' => Rebuilt u s') t₂ := by
  have hsame : ∀ {s' : Sys}, s'.dbg.breakpoints = u.dbg.breakpoints → Rebuilt u s' :=
    fun h => ⟨fun _ => h, by rw [h]⟩
  generalize hslides : updateLoadedSlides.run t₂ = slides at hrun
  obtain ⟨a, t⟩ := slides
  rw [setUpRun, wp_bind, wp_of_run hslides]
  show wp (breakEach specs >>= _) _ t
  rw [wp_bind, wp_of_run hrun, wp_bind]
  refine wp_mono (runToEntryStop_armed hon rfl) fun rc s₁ h₁ => ?_
  rw [wp_ite]
  refine ⟨fun _ => ?_, fun _ => ?_⟩
  · rw [wp_bind, reportProcessExit, wp_bind, wp_get, wp_ite]
    refine ⟨fun _ => hsame h₁, fun _ => ⟨fun hpid => absurd rfl hpid, ?_⟩⟩
    show (s₁.dbg.breakpoints.map _).map _ = _
    rw [List.map_map, h₁]
    rfl
  · rw [wp_bind, wp_get, wp_ite]
    refine ⟨fun _ => ?_, fun _ => hsame h₁⟩
    rw [wp_bind]
    refine wp_cdbgRefreshRegs (fun s₂ hq _ => ?_) fun p t s₂ _ _ hq => ?_
    · obtain ⟨n, rfl⟩ := hq
      exact hsame h₁
    · obtain ⟨n, rfl⟩ := hq
      exact hsame h₁

/-- The table that `cdbg_run` rebuilds from the arguments `args` of the `break` commands is
the one the arguments build in the new process exactly when each of them, cut off at the
size of the `spec` field, resolves there as it does in full. -/
theorem rebuilt_table_iff {argv : Option (List CStr)} {args : List CStr} {s₀ s t t' : Sys}
    (hempty : s₀.dbg.breakpoints = []) (hbreaks : (forUntil cmdBreak args).run s₀ = (0, s))
    (h : RebuildsFrom argv s t) (hresolve : (forUntil cmdBreak args).run t = (0, t')) :
    wp (cdbgRun argv) (fun _ s' => Rebuilt t' s') s ↔
      ∀ arg ∈ args, resolveBreak t.dbg (snprintf specSize arg) = resolveBreak t.dbg arg := by
  obtain ⟨t₀, t₁, t₂, hspawns, hspawn, hwait, rfl⟩ := h
  -- the arguments that `run` keeps are those of the table, cut off
  have hspecs : s.dbg.breakpoints.map (fun bp => snprintf specSize bp.spec) =
      args.map (snprintf specSize) := by
    obtain ⟨-, added, hd, hspec, -⟩ := breakEach_of_accepted hbreaks
    have hfull := congrArg (List.map (snprintf specSize)) hspec
    rw [hd, hempty, List.nil_append]
    simpa [List.map_map, Function.comp_def, snprintf_snprintf] using hfull
  -- nothing up to the first stop adds to the wiped table
  have hwiped : (updateLoadedSlides.run t₂).2.dbg.breakpoints = [] := by
    have h₁ : t₁.dbg.breakpoints = [] :=
      ((wp_of_run hspawn).mp (cdbgSpawn_breakpoints t₀)).trans hspawns.breakpoints
    have h₂ : t₂.dbg.breakpoints = [] := (wp_of_run hwait).mp (cdbgWait_armed (by simp) h₁)
    exact Eq.trans (updateLoadedSlides_breakpoints t₂) h₂
  obtain ⟨hall, entries, hd', -, haddrs⟩ := breakEach_of_accepted hresolve
  cases hrun : (breakEach (args.map (snprintf specSize))).run (updateLoadedSlides.run t₂).2 with
  | mk a u =>
    obtain ⟨added, hd, hon, hlen, hadded⟩ := (wp_of_run hrun).mp (breakEach_entries _ _)
    have htable : u.dbg.breakpoints = added := by rw [hd, hwiped, List.nil_append]
    have htable' : t'.dbg.breakpoints = entries := by rw [hd', hwiped, List.nil_append]
    have hrebuilt : wp (setUpRun (args.map (snprintf specSize))) (fun _ s' => Rebuilt u s') t₂ :=
      setUpRun_rebuilt hrun (htable ▸ hon)
    -- the run is its last part, from the first stop on
    have hgo : ∀ {Q : Int → Sys → Prop}, wp (cdbgRun argv) Q s ↔
        wp (setUpRun (args.map (snprintf specSize))) Q t₂ := fun {Q} => by
      rw [hspawns.run, wp_bind, wp_of_run hspawn, if_neg (not_not.mpr rfl), wp_bind,
        wp_of_run hwait, if_neg (not_not.mpr rfl), hspecs]
    rw [hgo]
    constructor
    · -- equal tables have equal addresses, and these are what the arguments resolve to
      intro hsame
      have hoff := hsame.2.symm.trans hrebuilt.2
      rw [htable, htable'] at hoff
      have hlength : added.length = entries.length := by
        simpa using (congrArg List.length hoff).symm
      have hentries : entries.length = args.length := by
        simpa using congrArg List.length haddrs
      have haddr : entries.map (fun bp => some bp.addr) = added.map fun bp => some bp.addr := by
        simpa [List.map_map, Function.comp_def] using
          congrArg (List.map fun bp => some bp.addr) hoff
      have hkeys := hadded (by rw [List.length_map, hlength, hentries])
      rw [← haddr, haddrs, List.map_map] at hkeys
      exact fun arg harg => (List.map_inj_left.mp hkeys arg harg).symm
    · intro hres
      have hrun' := breakEach_congr hres
      rw [hrun, hall] at hrun'
      obtain rfl : u = t' := congrArg Prod.snd hrun'
      exact hrebuilt

/-- A run of the program again, all of whose steps up to the first stop succeed. -/
theorem rebuildsFrom_of_codes {s stopped t₀ : Sys} (hargv : s.dbg.runArgv = ["./target".toList])
    (hstop : stopDebuggee.run s = (0, stopped))
    (hload : ((cdbgLoadSymbols "./target".toList).run
      (stopped.withDbg (stopped.dbg.wiped stopped.os.arch))).2 = t₀)
    (hspawn : (cdbgSpawn.run t₀).1 = 0) (hwait : (cdbgWait.run (cdbgSpawn.run t₀).2).1 = 0) :
    RebuildsFrom none s (updateLoadedSlides.run (cdbgWait.run (cdbgSpawn.run t₀).2).2).2 :=
  ⟨t₀, _, _, ⟨s, stopped, "./target".toList, [], rfl, hargv, hstop, hload⟩, run_of_code hspawn,
    run_of_code hwait, rfl⟩

/-- An address of 130 characters loses its last digits: `break` sets a breakpoint at 0x1000,
`run` sets it again at 0x1. -/
theorem rebuilt_elsewhere :
    ∃ (args : List CStr) (s₀ s t t' : Sys), (∀ arg ∈ args, arg.length ≤ 249) ∧
      s₀.dbg.breakpoints = [] ∧ (forUntil cmdBreak args).run s₀ = (0, s) ∧
      RebuildsFrom none s t ∧ (forUntil cmdBreak args).run t = (0, t') ∧
      ¬ wp (cdbgRun none) (fun _ s' => Rebuilt t' s') s := by
  refine ⟨["0x".toList ++ List.replicate 124 '0' ++ "1000".toList],
    Sys.rerunnable fun _ => .stopped 5 [], _, _, _, by decide +kernel, rfl,
    run_of_code (by decide +kernel), rebuildsFrom_of_codes (by decide +kernel)
      (run_of_code (by decide +kernel)) rfl (by decide +kernel) (by decide +kernel),
    run_of_code (by decide +kernel), fun h => ?_⟩
  have haddrs := congrArg (List.map (·.addr)) (h.1 (by decide +kernel))
  exact absurd haddrs (by decide +kernel)

/-- A short address is set again where it was. -/
theorem rebuilt_table_short :
    ∃ s t t' : Sys, RebuildsFrom none s t ∧ t'.dbg.breakpoints.map (·.addr) = [0x1000] ∧
      wp (cdbgRun none) (fun _ s' => Rebuilt t' s') s := by
  have hbreaks := run_of_code (m := forUntil cmdBreak ["0x1000".toList]) (a := 0)
    (s := Sys.rerunnable fun _ => .stopped 5 []) (by decide +kernel)
  have hrebuilds := rebuildsFrom_of_codes (s := ((forUntil cmdBreak ["0x1000".toList]).run
    (Sys.rerunnable fun _ => .stopped 5 [])).2) (by decide +kernel)
    (run_of_code (by decide +kernel)) rfl (by decide +kernel) (by decide +kernel)
  refine ⟨_, _, _, hrebuilds, ?_, (rebuilt_table_iff rfl hbreaks hrebuilds
    (run_of_code (by decide +kernel))).mpr fun arg harg => ?_⟩
  · decide +kernel
  · rw [List.mem_singleton.mp harg]
    rfl

end Debugger
