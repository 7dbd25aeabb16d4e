/-
Resuming the debuggee and waiting for it: the rules of `cdbg_single_step`,
`cdbg_continue` and `cdbg_wait`.

`Sys.resumedAs`, `Sys.stoppedBy` and `Sys.Ended` say what resuming, a stop and the
end of the debuggee do to the state.
-/
import Debugger.Frame

open Prog

namespace Debugger

/-- The state after the process was resumed. -/
def Sys.resumedAs (s : Sys) (kind : Resume) (p : Process) : Sys :=
  { dbg := { s.dbg with state := .running }
    os := { s.os with proc := some p.resumed, resume := kind }
    log := .resume kind s.dbg p :: s.log }

/-- The state once the process has stopped, before breakpoints are put back. -/
def Sys.stoppedBy (s : Sys) (p : Process) (sig : ℕ) (ms : List Move) : Sys :=
  let p' := p.moves s.os.arch s.os.resume ms
  { dbg := { s.dbg with waitStatus := .stopped sig, state := .stopped }
    os := { s.os with proc := some p', waits := s.os.waits + 1 }
    log := .stop { s.dbg with waitStatus := .stopped sig } p' :: s.log }

/-- The process has ended, and the debugger has noticed. -/
def Sys.Ended (s s' : Sys) : Prop :=
  ∃ status waits calls, s' =
    { dbg := { s.dbg with waitStatus := status, state := .idle }
      os := { s.os with proc := none, killed := false, waits := waits, calls := calls }
      log := s.log }

/-- The selected thread stands at a disabled breakpoint. -/
def Sys.AtDisabled (s : Sys) : Prop :=
  ∃ p t, s.os.proc = some p ∧ p.thread s.dbg.currentTid = some t ∧
    disabledBreakpointAtPc s.dbg.breakpoints t.regs.pc ≠ none

section Rules

variable {s : Sys} {Q : Int → Sys → Prop}

theorem wp_ptraceResume {kind : Resume} {pid : ℕ}
    (hfail : ∀ s', s.Quiet s' → (s.Reliable .ptrace → s.process pid = none) → Q (-1) s')
    (hok : ∀ p s', s.process pid = some p →
      ((s.resumedAs kind p).withDbg s.dbg).Quiet s' → Q 0 s') :
    wp (ptraceResume kind pid) Q s := by
  rw [ptraceResume, wp_bind]
  refine wp_kernelCall (fun h => hfail _ s.quiet_tick fun hr => ?_) fun p a p' hp hf => ?_
  · exact Option.eq_none_iff_forall_ne_some.mpr fun p hp => absurd (h hr p hp) (by simp)
  · obtain ⟨rfl, rfl⟩ := Prod.mk.inj (Option.some.inj hf)
    exact hok p _ hp ⟨_, rfl⟩

/-- Resume the process and note that it runs. -/
theorem wp_resumeRunning {kind : Resume} {pid : ℕ}
    (hfail : ∀ s', s.Quiet s' → (s.Reliable .ptrace → s.process pid = none) → Q (-1) s')
    (hok : ∀ p s', s.process pid = some p → (s.resumedAs kind p).Quiet s' → Q 0 s') :
    wp (do
      if (← ptraceResume kind pid) ≠ 0 then return -1
      setState .running
      return 0) Q s := by
  rw [wp_bind]
  refine wp_ptraceResume (fun s' hs' hr => ?_) fun p s' hp hs' => ?_
  · rw [wp_ite]
    exact ⟨fun _ => hfail s' hs' hr, fun h => absurd (by decide) h⟩
  · rw [wp_ite]
    obtain ⟨n, rfl⟩ := hs'
    exact ⟨fun h => absurd rfl h, fun _ => hok p _ hp ⟨n, rfl⟩⟩

theorem wp_cdbgSingleStep
    (hfail : ∀ s', s.Quiet s' → (s.Reliable .ptrace → s.process s.dbg.pid = none) → Q (-1) s')
    (hok : ∀ p s', s.process s.dbg.pid = some p → (s.resumedAs .step p).Quiet s' → Q 0 s') :
    wp cdbgSingleStep Q s := by
  rw [cdbgSingleStep, wp_bind, wp_get]
  exact wp_resumeRunning hfail hok

/-- `cdbg_continue` once the debugger has stepped off a disabled breakpoint. -/
theorem wp_cdbgContinue
    (hstep : wp stepOverDisabledBreakpoint (onCode (fun s' =>
      (s'.dbg.state = .idle → Q 0 s') ∧
      (s'.dbg.state ≠ .idle → wp (do
        if (← ptraceResume .cont s'.dbg.pid) ≠ 0 then return -1
        setState .running
        return 0) Q s')) fun s' => ∀ rc, rc ≠ 0 → Q rc s') s) :
    wp cdbgContinue Q s := by
  rw [cdbgContinue, wp_bind]
  refine wp_mono hstep fun rc s' h => ?_
  rw [wp_ite]
  refine ⟨fun hrc => h.2 hrc rc hrc, fun hrc => ?_⟩
  obtain ⟨hidle, hcont⟩ := h.1 (not_not.mp hrc)
  rw [wp_bind, wp_get, wp_ite]
  exact ⟨hidle, hcont⟩

theorem wp_cdbgProcessWait {pid : ℕ}
    (hfail : ∀ s', s.Quiet s' → (s.Reliable .waitpid → s.process pid = none) → Q (-1) s')
    (hend : ∀ p status waits calls, s.process pid = some p →
      (s.os.killed = true ∨ (s.os.events s.os.waits).isEnd = true) →
      (∀ sig, status ≠ .stopped sig) →
      Q 0 { s with
        dbg := { s.dbg with waitStatus := status }
        os := { s.os with proc := none, killed := false, waits := waits, calls := calls } })
    (hstop : ∀ p sig ms s', s.process pid = some p → s.os.killed = false →
      s.os.events s.os.waits = .stopped sig ms →
      ((s.stoppedBy p sig ms).withDbg { s.dbg with waitStatus := .stopped sig }).Quiet s' →
      Q 0 s') :
    wp (cdbgProcessWait pid) Q s := by
  rw [cdbgProcessWait, wp_bind]
  refine wp_kernelRead (fun s' hs' hr => hfail s' hs' fun h => ?_) fun p a s' hp ha hs' => ?_
  · exact Option.eq_none_iff_forall_ne_some.mpr fun p hp => absurd (hr h p hp) (by simp)
  · obtain rfl := Option.some.inj ha
    obtain ⟨n, rfl⟩ := hs'
    dsimp only
    rw [wp_bind, wp_get, wp_ite]
    refine ⟨fun hk => hend p _ s.os.waits n hp (.inl hk) (by simp), fun hk => ?_⟩
    rw [wp_bind, wp_modify, wp_bind]
    dsimp only
    cases hev : s.os.events s.os.waits with
    | exited code => exact hend p _ (s.os.waits + 1) n hp (.inr (by rw [hev]; rfl)) (by simp)
    | signaled sig => exact hend p _ (s.os.waits + 1) n hp (.inr (by rw [hev]; rfl)) (by simp)
    | stopped sig ms => exact hstop p sig ms _ hp (by simpa using hk) hev ⟨n, rfl⟩

theorem wp_cdbgWait
    (hfail : ∀ s', s.Quiet s' → (s.Reliable .waitpid → s.process s.dbg.pid = none) → Q (-1) s')
    (hend : ∀ p s', s.process s.dbg.pid = some p →
      (s.os.killed = true ∨ (s.os.events s.os.waits).isEnd = true) → s.Ended s' → Q 1 s')
    (hstop : ∀ p sig ms s', s.process s.dbg.pid = some p → s.os.killed = false →
      s.os.events s.os.waits = .stopped sig ms → (s.stoppedBy p sig ms).Quiet s' →
      wp reenableBreakpointsAfterStep (onCode (Q 0) (Q (-1))) s') :
    wp cdbgWait Q s := by
  rw [cdbgWait, wp_bind, wp_get, wp_bind]
  refine wp_cdbgProcessWait (fun s' hs' hr => ?_) (fun p status waits calls hp hev hst => ?_)
    fun p sig ms s' hp hk hev hs' => ?_
  · rw [wp_ite]
    exact ⟨fun _ => hfail s' hs' hr, fun h => absurd (by decide) h⟩
  · rw [wp_ite]
    refine ⟨fun h => absurd rfl h, fun _ => ?_⟩
    rw [wp_bind, wp_get]
    cases status with
    | exited code => exact hend p _ hp hev ⟨_, waits, calls, rfl⟩
    | signaled sig => exact hend p _ hp hev ⟨_, waits, calls, rfl⟩
    | stopped sig => exact absurd rfl (hst sig)
  · rw [wp_ite]
    refine ⟨fun h => absurd rfl h, fun _ => ?_⟩
    obtain ⟨n, rfl⟩ := hs'
    show wp (do
      setState .stopped
      if (← reenableBreakpointsAfterStep) ≠ 0 then return -1
      return 0) Q _
    rw [wp_bind, wp_setState]
    exact wp_check (hstop p sig ms _ hp hk hev ⟨n, rfl⟩) (fun _ h => h) fun _ h => h

end Rules

/-! ### Putting breakpoints back -/

section Reenable

variable {pid : ℕ} {pc : Addr}

/-- The loop that puts breakpoints back, with an assertion about the table so far. -/
theorem wp_reenableLoop {J : List Breakpoint → Sys → Prop}
    (hstep : ∀ done bp rest s, J (done ++ bp :: rest) s → bp.enabled = false → bp.addr ≠ pc →
      wp (cdbgBpEnable bp pid bp.addr) (fun r s' => J (done ++ r.2 :: rest) s') s) :
    ∀ {bps done : List Breakpoint} {s : Sys}, J (done ++ bps) s →
      wp (reenableLoop pid pc bps) (fun r s' => J (done ++ r.2) s') s := by
  intro bps
  induction bps with
  | nil => exact fun h => h
  | cons bp bps ih =>
    intro done s h
    -- the rest of the loop, with the entries done so far in front
    have hrest : ∀ {bp' s'}, J (done ++ bp' :: bps) s' → wp (reenableLoop pid pc bps)
        (fun r s'' => J (done ++ bp' :: r.2) s'') s' := by
      intro bp' s' h'
      rw [List.append_cons] at h'
      refine wp_mono (ih h') fun r s'' h'' => ?_
      rw [List.append_cons]
      exact h''
    rw [reenableLoop, wp_ite]
    refine ⟨fun hoff => ?_, fun _ => ?_⟩
    · rw [wp_bind]
      refine wp_mono (hstep done bp bps s h (by simpa using hoff.1) hoff.2) fun r s₁ h₁ => ?_
      obtain ⟨rc, bp'⟩ := r
      show wp (if rc ≠ 0 then _ else _) _ _
      rw [wp_ite]
      refine ⟨fun _ => h₁, fun _ => ?_⟩
      rw [wp_bind]
      exact hrest h₁
    · rw [wp_bind]
      exact hrest h

/-- A successful loop leaves exactly the entries at the pc disabled. -/
theorem reenableLoop_flags : ∀ {bps : List Breakpoint} (s : Sys), wp (reenableLoop pid pc bps)
    (fun r _ => r.1 = 0 → r.2.map (fun bp => (bp.addr, bp.enabled)) =
      bps.map fun bp => (bp.addr, bp.enabled || bp.addr ≠ pc)) s := by
  intro bps
  induction bps with
  | nil => exact fun _ _ => rfl
  | cons bp bps ih =>
    intro s
    rw [reenableLoop, wp_ite]
    refine ⟨fun hoff => ?_, fun hon => ?_⟩
    · rw [wp_bind]
      refine wp_cdbgBpEnable (fun bp' s₁ _ _ _ => ?_) fun p s₁ _ _ => ?_
      · show wp (if (-1 : Int) ≠ 0 then _ else _) _ _
        rw [wp_ite]
        exact ⟨fun _ h => absurd h neg_one_ne, fun h => absurd neg_one_ne h⟩
      · show wp (if (0 : Int) ≠ 0 then _ else _) _ _
        rw [wp_ite]
        refine ⟨fun h => absurd rfl h, fun _ => ?_⟩
        rw [wp_bind]
        refine wp_mono (ih s₁) fun r s₂ h₂ hrc => ?_
        obtain ⟨rc', bps'⟩ := r
        have hflag : (bp.enabled || decide (bp.addr ≠ pc)) = true := by simp [hoff.2]
        rw [List.map_cons, hflag]
        exact congrArg (List.cons _) (h₂ hrc)
    · rw [wp_bind]
      refine wp_mono (ih s) fun r s₂ h₂ hrc => ?_
      obtain ⟨rc', bps'⟩ := r
      have hflag : (bp.enabled || decide (bp.addr ≠ pc)) = bp.enabled := by
        cases hen : bp.enabled with
        | true => rfl
        | false =>
          -- a disabled entry that is passed over is the one at the pc
          have hpc : bp.addr = pc := not_not.mp fun hne => hon ⟨by simp [hen], hne⟩
          simp [hpc]
      rw [List.map_cons, hflag]
      exact congrArg (List.cons _) (h₂ hrc)

end Reenable

/-- After a successful wait for a stop, the entries that are not at the pc of the selected
thread are enabled, and the others are as before. -/
theorem reenableBreakpointsAfterStep_flags {s : Sys} (hst : s.dbg.state = .stopped) :
    wp reenableBreakpointsAfterStep (fun rc s' => rc = 0 → ∀ p t, s'.process s'.dbg.pid = some p →
      p.thread s'.dbg.currentTid = some t →
      s'.dbg.breakpoints.map (fun bp => (bp.addr, bp.enabled)) =
        s.dbg.breakpoints.map fun bp => (bp.addr, bp.enabled || bp.addr ≠ t.regs.pc)) s := by
  rw [reenableBreakpointsAfterStep, wp_bind, wp_get, wp_ite]
  refine ⟨fun hnil _ p t _ _ => ?_, fun _ => ?_⟩
  · show s.dbg.breakpoints.map _ = s.dbg.breakpoints.map _
    rw [hnil.resolve_right (not_not.mpr hst)]
    rfl
  · rw [wp_bind]
    refine wp_cdbgRefreshRegs (fun s₁ _ _ => ?_) fun p t s₁ hp ht hq => ?_
    · rw [wp_ite]
      exact ⟨fun _ h => absurd h neg_one_ne, fun h => absurd (by decide) h⟩
    · rw [wp_ite]
      refine ⟨fun h => absurd rfl h, fun _ => ?_⟩
      obtain ⟨n, rfl⟩ := hq
      rw [wp_bind, wp_get, wp_bind]
      refine wp_mono (wp_and (reenableLoop_keeps t.regs.pc s.dbg.breakpoints _)
        (reenableLoop_flags _)) fun r s₂ h₂ => ?_
      obtain ⟨⟨hd, hv, -⟩, hflags⟩ := h₂
      rw [wp_bind, wp_setBreakpoints]
      intro hrc q u hq hu
      have hthreads : s₂.os.proc.map (·.threads) = s.os.proc.map (·.threads) := by
        have hproc := congrArg (fun s => s.os.proc.map (·.threads)) hv
        simpa [Sys.sansPatches, Sys.sansProc, Sys.withDbg, Option.map_map,
          Function.comp_def] using hproc
      rw [(Sys.process_eq_some.mp hp).1, show s₂.os.proc = some q from (Sys.process_eq_some.mp hq).1,
        Option.map_some, Option.map_some, Option.some.injEq] at hthreads
      have hsame : q.thread s.dbg.currentTid = p.thread s.dbg.currentTid := by
        rw [Process.thread, Process.thread, Process.primary, Process.primary, hthreads]
      have hu : q.thread s.dbg.currentTid = some u := by
        rw [← hu]
        show q.thread s.dbg.currentTid = q.thread s₂.dbg.currentTid
        rw [hd]
        rfl
      rw [hsame, ht] at hu
      obtain rfl := Option.some.inj hu
      exact hflags hrc

section Control

variable {s : Sys}

/-- A successful wait leaves the debugger stopped. -/
theorem cdbgWait_stopped (s : Sys) :
    wp cdbgWait (fun rc s' => rc = 0 → s'.dbg.state = .stopped) s := by
  refine wp_cdbgWait (fun s' _ _ h => absurd h (by decide))
    (fun p s' _ _ _ h => absurd h (by decide))
    fun p sig ms s₁ _ _ _ h => ?_
  obtain ⟨n, rfl⟩ := h
  refine wp_mono (reenableBreakpointsAfterStep_keeps _) fun rc s' hv => ⟨fun _ _ => ?_, ?_⟩
  · exact congrArg (·.dbg.state) hv
  · exact fun _ h => absurd h (by decide)

/-- `cdbg_continue` of a stopped debuggee: `I` holds where it steps off a disabled
breakpoint, `W` during that step and `C` where the whole process is resumed. -/
theorem cdbgContinue_rule {I W C D F : Sys → Prop} (hst : s.dbg.state = .stopped)
    (hnone : s.dbg.breakpoints = [] → C s)
    (hrefresh : s.dbg.breakpoints ≠ [] → wp cdbgRefreshRegs (onCode (fun s' =>
      (disabledBreakpointAtPc s'.dbg.breakpoints s'.dbg.regs.pc = none → C s') ∧
      (disabledBreakpointAtPc s'.dbg.breakpoints s'.dbg.regs.pc ≠ none → I s')) F) s)
    (hstep : ∀ s', I s' → wp cdbgSingleStep (onCode W F) s')
    (hwait : ∀ s', W s' → wp cdbgWait (onCode C F) s')
    (hfail : ∀ s', C s' → ∀ s'', s'.Quiet s'' →
      (s'.Reliable .ptrace → s'.process s'.dbg.pid = none) → F s'')
    (hcont : ∀ s', C s' → ∀ p s'', s'.process s'.dbg.pid = some p →
      (s'.resumedAs .cont p).Quiet s'' → D s'') :
    wp cdbgContinue (onCode D F) s := by
  have hstepOver : wp stepOverDisabledBreakpoint (onCode (fun s' => C s') F) s := by
    rw [stepOverDisabledBreakpoint, wp_bind, wp_get, wp_ite]
    refine ⟨fun h => onCode_zero.mpr (hnone (h.resolve_left (not_not.mpr hst))), fun h => ?_⟩
    rw [not_or] at h
    refine wp_check (hrefresh h.2) (fun s' h' => onCode_neg_one.mpr h') fun s' h' => ?_
    rw [wp_bind, wp_get, wp_ite]
    refine ⟨fun hd => onCode_zero.mpr (h'.1 hd), fun hd => ?_⟩
    exact wp_check (hstep s' (h'.2 hd)) (fun s'' h'' => onCode_neg_one.mpr h'')
      fun s'' h'' => hwait s'' h''
  -- none of the ways to go on ends with the debuggee gone
  have hidle : wp stepOverDisabledBreakpoint
      (fun rc s' => rc = 0 → s'.dbg.state ≠ .idle) s := by
    have hst' : ∀ {s' : Sys}, s'.dbg.state = .stopped → s'.dbg.state ≠ .idle :=
      fun h => by rw [h]; decide
    rw [stepOverDisabledBreakpoint, wp_bind, wp_get, wp_ite]
    refine ⟨fun _ _ => hst' hst, fun _ => ?_⟩
    rw [wp_bind]
    refine wp_mono (cdbgRefreshRegs_keeps s) fun rc s₁ hv => ?_
    rw [wp_ite]
    refine ⟨fun _ h => absurd h neg_one_ne, fun _ => ?_⟩
    rw [wp_bind, wp_get, wp_ite]
    refine ⟨fun _ _ => hst' ((congrArg (·.dbg.state) hv).trans hst), fun _ => ?_⟩
    rw [wp_bind]
    refine wp_mono (wp_true _) fun rc s₂ _ => ?_
    rw [wp_ite]
    exact ⟨fun _ h => absurd h neg_one_ne, fun _ =>
      wp_mono (cdbgWait_stopped s₂) fun _ _ h h0 => hst' (h h0)⟩
  refine wp_cdbgContinue (wp_mono (wp_and hstepOver hidle) fun rc s' h =>
    ⟨fun hrc => ⟨fun hi => absurd hi (h.2 hrc), fun _ => ?_⟩,
      fun hrc rc' hrc' => (onCode_of_ne hrc').mpr (h.1.2 hrc)⟩)
  have hC := h.1.1 hrc
  exact wp_resumeRunning (fun s'' hs'' hr => onCode_neg_one.mpr (hfail s' hC s'' hs'' hr))
    fun p s'' hp hs'' => onCode_zero.mpr (hcont s' hC p s'' hp hs'')

end Control

/-- A successful `cdbg_continue` of a stopped debuggee leaves it running. -/
theorem cdbgContinue_running {s : Sys} (h : s.dbg.state = .stopped) :
    wp cdbgContinue (fun rc s' => rc = 0 → s'.dbg.state = .running) s := by
  refine wp_mono (cdbgContinue_rule (I := fun _ => True) (W := fun _ => True) (C := fun _ => True)
    (D := fun s' => s'.dbg.state = .running) (F := fun _ => True) h (fun _ => trivial)
    (fun _ => wp_mono (wp_true _) fun _ _ _ => ⟨fun _ => ⟨fun _ => trivial, fun _ => trivial⟩,
      fun _ => trivial⟩)
    (fun s' _ => wp_mono (wp_true _) fun _ _ _ => ⟨fun _ => trivial, fun _ => trivial⟩)
    (fun s' _ => wp_mono (wp_true _) fun _ _ _ => ⟨fun _ => trivial, fun _ => trivial⟩)
    (fun _ _ _ _ _ => trivial) ?_) fun rc s' h => h.1
  rintro s' - p s'' - ⟨n, rfl⟩
  rfl

/-! ### Putting breakpoints back -/

/-- The disabled entries that are not at the pc are written to memory again. -/
def putBack (arch : Arch) (pc : Addr) : Mem → List Breakpoint → Mem × List Breakpoint
  | m, [] => (m, [])
  | m, bp :: bps =>
    if !bp.enabled ∧ bp.addr ≠ pc then
      let (m', bps') := putBack arch pc (Function.update m bp.addr (trapByte arch)) bps
      (m', { bp with savedByte := m bp.addr, enabled := true } :: bps')
    else
      let (m', bps') := putBack arch pc m bps
      (m', bp :: bps')

/-- The byte at the pc is left alone. -/
theorem putBack_pc {arch : Arch} {pc : Addr} {m : Mem} {bps : List Breakpoint} :
    (putBack arch pc m bps).1 pc = m pc := by
  induction bps generalizing m with
  | nil => rfl
  | cons bp bps ih =>
    rw [putBack]
    split
    · rename_i hoff
      exact ih.trans (Function.update_of_ne (Ne.symm hoff.2) _ _)
    · exact ih

/-- The loop that puts breakpoints back succeeds, and resumes nothing. -/
theorem reenableLoop_putBack {pid : ℕ} {pc : Addr} {bps : List Breakpoint} {s : Sys} {q : Process}
    (hread : s.Reliable .memRead) (hwrite : s.Reliable .memWrite) (hp : s.process pid = some q) :
    wp (reenableLoop pid pc bps) (fun r s' => r = (0, (putBack s.os.arch pc q.mem bps).2) ∧
      ∃ calls log, s' = { s with
        os := { s.os with
          proc := some { q with mem := (putBack s.os.arch pc q.mem bps).1 }, calls := calls }
        log := log } ∧ log.filter Obs.isRun = s.log.filter Obs.isRun) s := by
  induction bps generalizing s q with
  | nil =>
    refine ⟨rfl, s.os.calls, s.log, ?_, rfl⟩
    show s = { s with os := { s.os with proc := some q, calls := s.os.calls }, log := s.log }
    rw [← (Sys.process_eq_some.mp hp).1]
  | cons bp bps ih =>
    rw [reenableLoop, wp_ite]
    constructor
    · intro hoff
      rw [wp_bind]
      refine wp_cdbgBpEnable (fun _ _ _ hnone _ => ?_) fun q' s₁ hq' hq₁ => ?_
      · exact absurd (hp.symm.trans (hnone hread hwrite)) (Option.some_ne_none q)
      · obtain rfl := Option.some.inj (hp.symm.trans hq')
        obtain ⟨k, rfl⟩ := hq₁
        dsimp only
        rw [wp_ok, wp_bind]
        -- the rest of the table is put back into the memory with the new trap
        refine wp_mono (ih hread hwrite (Sys.process_eq_some.mpr
          ⟨rfl, (Sys.process_eq_some.mp hp).2⟩)) fun r s₂ h₂ => ?_
        obtain ⟨rfl, calls, log, rfl, hlog⟩ := h₂
        rw [putBack, if_pos hoff]
        exact ⟨rfl, calls, log, rfl, hlog⟩
    · intro hon
      rw [wp_bind]
      refine wp_mono (ih hread hwrite hp) fun r s₂ h₂ => ?_
      obtain ⟨rfl, calls, log, rfl, hlog⟩ := h₂
      rw [putBack, if_neg hon]
      exact ⟨rfl, calls, log, rfl, hlog⟩

end Debugger
