/-
The control points of the commands that resume the debuggee.

`continue`, `step`, `si` and `next` are built from the same few actions: resume,
wait, report the stop, suspend and resume threads, place and remove a temporary
breakpoint.  `ControlPoints` are assertions for the places between these actions.
`SoundReport`, `Sound` and `SoundNext` say what the actions of `continue` and `si`, of
`step` and of `next` have to establish, and the theorems `continueCmd`, `si`, `step` and
`next` conclude what the commands establish, whatever path they take through their loops
and error exits.
-/
import Debugger.Wait
import Debugger.Repl

open Prog

namespace Debugger

/-- The cached registers are those of the selected thread. -/
def Sys.Refreshed (s : Sys) : Prop :=
  ∃ p t, s.process s.dbg.pid = some p ∧ p.thread s.dbg.currentTid = some t ∧
    s.dbg.regs = t.regs

/-- The cached pc stands at the trap of an enabled breakpoint. -/
def Sys.AtTrap (s : Sys) : Prop :=
  cdbgBpIsTrap s.os.arch s.dbg.regs.pc s.dbg.breakpoints = true

/-- There is no line information at the pc of the selected thread. -/
def Sys.NoLine (s : Sys) : Prop :=
  ∀ p t, s.os.proc = some p → p.thread s.dbg.currentTid = some t →
    s.dbg.lineno.lineAtPc t.regs.pc = none

/-- Assertions for the places between the actions of a command.  The guard is the list
of threads the command has suspended, the optional breakpoint the temporary one. -/
structure ControlPoints where
  /-- the debuggee is stopped and may be resumed -/
  ready : Guard → Option Breakpoint → Sys → Prop
  /-- the debuggee has been resumed -/
  waiting : Guard → Option Breakpoint → Sys → Prop
  /-- the debuggee has stopped, and nothing has been reported -/
  arrived : Guard → Option Breakpoint → Sys → Prop
  /-- a stepping loop is about to look at the stop -/
  settled : Guard → Sys → Prop
  /-- the command has succeeded, but its threads are still suspended -/
  reported : Guard → Sys → Prop
  /-- the debuggee has ended, or a call has failed -/
  failed : Guard → Option Breakpoint → Sys → Prop
  /-- the command has returned -/
  prompt : ReplOutcome → Sys → Prop

namespace ControlPoints

/-- What the actions of `continue` and `si` have to establish, which report every stop. -/
structure SoundReport (P : ControlPoints) : Prop where
  refreshReady {g s} : P.ready g none s →
    wp cdbgRefreshRegs (onCode (P.ready g none) (P.failed g none)) s
  catchUp {g s} : P.ready g none s →
    wp (stepThreadGuardCatchUp g) (fun g' => P.ready g' none) s
  singleStep {g s} : P.ready g none s →
    wp cdbgSingleStep (onCode (P.waiting g none) (P.failed g none)) s
  «continue» {g t s} : s.dbg.state = .stopped → P.ready g t s →
    wp cdbgContinue (onCode (P.waiting g t) (P.failed g t)) s
  wait {g t s} : P.waiting g t s → wp cdbgWait (onCode (P.arrived g t) (P.failed g t)) s
  report {g s} : P.arrived g none s → wp reportStop (fun _ => P.reported g) s
  endArrived {g s} : P.arrived g none s →
    wp (stepThreadGuardEnd g) (fun _ => P.arrived [] none) s
  endFailed {g s} : P.failed g none s → wp (stepThreadGuardEnd g) (fun _ => P.failed [] none) s
  done {s} : s.dbg.state = .stopped → P.reported [] s → P.prompt .ok s
  exit {s} : s.dbg.state = .idle → P.failed [] none s → P.prompt .ok (s.withDbg s.dbg.exited)
  fatal {s} : s.dbg.state ≠ .idle → P.failed [] none s → P.prompt .fatal s

/-- What the actions of `step` have to establish, which looks at a stop before it reports
it. -/
structure Sound (P : ControlPoints) : Prop extends P.SoundReport where
  readyQuiet {g t s s'} : P.ready g t s → s.Quiet s' → P.ready g t s'
  settledQuiet {g s s'} : P.settled g s → s.Quiet s' → P.settled g s'
  settle {g s} : P.arrived g none s → P.settled g s
  goOn {g s} : P.settled g s → s.Refreshed → ¬ s.AtTrap → P.ready g none s
  leave {g s} : P.settled g s → s.Refreshed → ¬ s.AtTrap → P.reported g s
  giveUp {g s} : P.ready g none s → P.failed g none s
  refreshSettled {g s} : P.settled g s →
    wp cdbgRefreshRegs (onCode (P.settled g) (P.failed g none)) s
  reportAtTrap {g s} : P.settled g s → s.Refreshed → s.AtTrap →
    wp reportStop (onCode (P.reported g) (P.failed g none)) s
  watch {g i s} : P.settled g s → s.Refreshed → ¬ s.AtTrap →
    wp (reportWatchpointHit i) (fun _ => P.reported g) s
  endReported {g s} : P.reported g s → wp (stepThreadGuardEnd g) (fun _ => P.reported []) s

/-- What the actions of `next` with a temporary breakpoint have to establish. -/
structure SoundNext (P : ControlPoints) : Prop extends P.Sound where
  tempEnable {g s addr} : P.ready g none s →
    (addr = s.dbg.regs.pc + 5 ∨ addr = s.dbg.regs.pc + 4) →
    wp (cdbgBpEnable {} s.dbg.pid addr)
      (fun r => onCode (P.ready g (some r.2)) (P.failed g none) r.1) s
  dropTemp {g t s} : P.failed g (some t) s →
    wp (dropTempBreakpoint t) (fun _ => P.failed g none) s
  finishTemp {g t s} : s.dbg.state = .stopped → P.arrived g (some t) s →
    wp (finishTempBreakpoint t) (onCode (P.settled g) (P.failed g none)) s

variable {P : ControlPoints} {g : Guard} {s : Sys}

theorem refresh_refreshed (s : Sys) : wp cdbgRefreshRegs (onCode Sys.Refreshed fun _ => True) s := by
  refine wp_cdbgRefreshRegs (fun s' _ _ => ⟨fun h => absurd h (by decide), fun _ => trivial⟩)
    fun p t s' hp ht hs' => ⟨fun _ => ?_, fun _ => trivial⟩
  obtain ⟨n, rfl⟩ := hs'
  exact ⟨p, t, hp, ht, rfl⟩

theorem state_of_sansReports {s s' : Sys} (h : s'.sansReports = s.sansReports) :
    s'.dbg.state = s.dbg.state := congrArg (·.dbg.state) h

/-- A single step that fails has not changed the debugger's state. -/
theorem cdbgSingleStep_state (s : Sys) :
    wp cdbgSingleStep (fun rc s' => rc ≠ 0 → s'.dbg.state = s.dbg.state) s := by
  refine wp_cdbgSingleStep (fun s' hq _ _ => ?_) fun _ _ _ _ h => absurd rfl h
  obtain ⟨n, rfl⟩ := hq
  rfl

theorem stepThreadGuardEnd_state (s : Sys) (g : Guard) :
    wp (stepThreadGuardEnd g) (fun _ s' => s'.dbg = s.dbg) s :=
  wp_mono (stepThreadGuardEnd_keeps g s) fun _ _ h => congrArg (·.dbg) h

/-! ### Looking at a stop -/

/-- What a stepping loop knows when it goes on. -/
def Going (P : ControlPoints) (g : Guard) (pc : Addr) (s : Sys) : Prop :=
  P.ready g none s ∧ s.dbg.state = .stopped ∧ s.dbg.regs.pc = pc

/-- What a stepping loop knows when it leaves with a code. -/
def Leaving (P : ControlPoints) (g : Guard) (rc : Int) (s : Sys) : Prop :=
  (rc = 0 → P.reported g s ∧ s.dbg.state = .stopped ∨
    P.failed g none s ∧ s.dbg.state = .idle) ∧ (rc ≠ 0 → P.failed g none s)

theorem Leaving.of_failed (h : P.failed g none s) : Leaving P g (-1) s :=
  ⟨fun h => absurd h (by decide), fun _ => h⟩

theorem Leaving.of_reported (h : P.reported g s) (hst : s.dbg.state = .stopped) :
    Leaving P g 0 s := ⟨fun _ => .inl ⟨h, hst⟩, fun h => absurd rfl h⟩

/-- The code after a failed wait. -/
theorem Leaving.of_wait (h : P.failed g none s) :
    Leaving P g (if s.dbg.state = .idle then 0 else -1) s := by
  by_cases hi : s.dbg.state = .idle
  · rw [if_pos hi]
    exact ⟨fun _ => .inr ⟨h, hi⟩, fun _ => h⟩
  · rw [if_neg hi]
    exact Leaving.of_failed h

theorem Sound.checkStop (hP : P.Sound) (start : CStr × UInt32) (h : P.settled g s)
    (hst : s.dbg.state = .stopped) :
    wp (checkStop start) (fun r s' => Sum.elim (Going P g · s') (Leaving P g · s') r) s := by
  rw [Debugger.checkStop, wp_bind]
  have href := (cdbgRefreshRegs_keepsReports.wp_and
    (wp_and (hP.refreshSettled h) (refresh_refreshed s)))
  refine wp_mono href fun rc s₁ h₁ => ?_
  obtain ⟨⟨hset, hfresh⟩, hv⟩ := h₁
  have hst₁ : s₁.dbg.state = .stopped := (state_of_sansReports hv).trans hst
  rw [wp_ite]
  refine ⟨fun hrc => Leaving.of_failed (hset.2 hrc), fun hrc => ?_⟩
  have hset := hset.1 (not_not.mp hrc)
  have hfresh := hfresh.1 (not_not.mp hrc)
  rw [wp_bind, wp_get, wp_ite]
  refine ⟨fun htrap => ?_, fun htrap => ?_⟩
  · rw [wp_bind]
    -- a breakpoint: the stop is reported, and the loop ends
    refine wp_mono (reportStop_keeps.wp_and (hP.reportAtTrap hset hfresh htrap))
      fun rc s₂ h₂ => ?_
    have hst₂ := (state_of_sansReports h₂.2).trans hst₁
    exact ⟨fun hrc => .inl ⟨h₂.1.1 hrc, hst₂⟩, fun hrc => h₂.1.2 hrc⟩
  · rw [wp_bind]
    -- no breakpoint: a watchpoint, another line, or on
    refine wp_mono (findWatchpointHit_keeps s₁) fun r s₂ h₂ => ?_
    obtain hq := Sys.quiet_iff_sansCalls.mpr h₂
    have hset₂ := hP.settledQuiet hset hq
    obtain ⟨n, rfl⟩ := hq
    cases r with
    | some i =>
      dsimp only
      rw [wp_bind]
      refine wp_mono ((reportWatchpointHit_keeps i).wp_and (hP.watch hset₂ hfresh htrap))
        fun _ s₃ h₃ => ?_
      exact Leaving.of_reported h₃.1 ((state_of_sansReports h₃.2).trans hst₁)
    | none =>
      have hgo : Going P g s₁.dbg.regs.pc { s₁ with os := { s₁.os with calls := n } } :=
        ⟨hP.goOn hset₂ hfresh htrap, hst₁, rfl⟩
      dsimp only
      cases s₁.dbg.lineno.lineAtPc s₁.dbg.regs.pc with
      | none => exact hgo
      | some cur =>
        rw [wp_pure]
        by_cases hcur : cur ≠ start
        · rw [if_pos hcur]
          exact Leaving.of_reported (hP.leave hset₂ hfresh htrap) hst₁
        · rw [if_neg hcur]
          exact hgo

/-! ### Advancing -/

/-- What an advance of a stepping loop establishes. -/
def Advanced (P : ControlPoints) (g : Guard) (r : Option Int) (s : Sys) : Prop :=
  match r with
  | none => P.settled g s ∧ s.dbg.state = .stopped
  | some rc => Leaving P g rc s

theorem SoundReport.waited (hP : P.SoundReport) {t : Option Breakpoint} (h : P.waiting g t s) :
    wp cdbgWait (onCode (fun s' => P.arrived g t s' ∧ s'.dbg.state = .stopped)
      (P.failed g t)) s :=
  wp_mono (wp_and (hP.wait h) (cdbgWait_stopped s)) fun _ _ h =>
    ⟨fun hrc => ⟨h.1.1 hrc, h.2 hrc⟩, fun hrc => h.1.2 hrc⟩

theorem Sound.stepRound (hP : P.Sound) (h : P.ready g none s) :
    wp stepRound (Advanced P g) s := by
  rw [Debugger.stepRound]
  refine wp_check (hP.singleStep h) (fun s₁ h₁ => Leaving.of_failed h₁) fun s₁ h₁ => ?_
  refine wp_check (hP.waited h₁) (fun s₂ h₂ => Leaving.of_wait h₂) fun s₂ h₂ => ?_
  rw [wp_bind, wp_get, wp_ite]
  exact ⟨fun hst => absurd h₂.2 hst, fun _ => ⟨hP.settle h₂.1, h₂.2⟩⟩

theorem SoundReport.singleStepAndReport (hP : P.SoundReport) (h : P.ready g none s) :
    wp singleStepAndReport (Leaving P g) s := by
  rw [Debugger.singleStepAndReport]
  refine wp_check (hP.singleStep h) (fun s₁ h₁ => Leaving.of_failed h₁) fun s₁ h₁ => ?_
  refine wp_check (hP.waited h₁) (fun s₂ h₂ => Leaving.of_wait h₂) fun s₂ h₂ => ?_
  rw [wp_bind, wp_get, wp_ite]
  refine ⟨fun _ => ?_, fun hst => absurd h₂.2 hst⟩
  rw [wp_bind]
  refine wp_mono (reportStop_keeps.wp_and (hP.report h₂.1)) fun rc s₃ h₃ => ?_
  exact Leaving.of_reported h₃.1 ((state_of_sansReports h₃.2).trans h₂.2)

theorem SoundNext.stepOverCall (hP : P.SoundNext) {addr : Addr} (h : P.ready g none s)
    (hst : s.dbg.state = .stopped) (haddr : addr = s.dbg.regs.pc + 5 ∨ addr = s.dbg.regs.pc + 4) :
    wp (stepOverCall addr) (fun rc s' => (rc ≠ 0 → P.failed g none s') ∧
      (rc = 0 → P.settled g s' ∧ s'.dbg.state = .stopped ∨
        P.failed g none s' ∧ s'.dbg.state = .idle)) s := by
  have hdrop : ∀ {t s₁}, P.failed g (some t) s₁ →
      wp (dropTempBreakpoint t) (fun _ s' => P.failed g none s' ∧ s'.dbg.state = s₁.dbg.state) s₁ :=
    fun {t s₁} h₁ => wp_mono ((dropTempBreakpoint_keeps t).wp_and (hP.dropTemp h₁))
      fun _ _ h => ⟨h.1, congrArg (·.dbg.state) h.2⟩
  rw [Debugger.stepOverCall, wp_bind, wp_get, wp_bind]
  have henable := wp_and (hP.tempEnable h haddr) (@cdbgBpEnable_keeps s.dbg.pid s {} addr)
  refine wp_mono henable fun r s₁ h₁ => ?_
  obtain ⟨h₁, hd₁, -, -⟩ := h₁
  obtain ⟨rc, tempBp⟩ := r
  have hst₁ : s₁.dbg.state = .stopped := by rw [hd₁, hst]
  show wp (if rc ≠ 0 then _ else _) _ _
  rw [wp_ite]
  refine ⟨fun hrc => ⟨fun _ => h₁.2 hrc, fun h => absurd h neg_one_ne⟩, fun hrc => ?_⟩
  have hcont := wp_and (hP.continue hst₁ (h₁.1 (not_not.mp hrc))) (cdbgContinue_running hst₁)
  refine wp_check (A := fun s' => P.waiting g (some tempBp) s' ∧ s'.dbg.state = .running)
    (B := P.failed g (some tempBp)) (wp_mono hcont fun rc s' h =>
      ⟨fun hrc => ⟨h.1.1 hrc, h.2 hrc⟩, fun hrc => h.1.2 hrc⟩) (fun s₂ h₂ => ?_) fun s₂ h₂ => ?_
  · rw [wp_bind]
    exact wp_mono (hdrop h₂) fun _ _ h => ⟨fun _ => h.1, fun h => absurd h neg_one_ne⟩
  · rw [wp_bind, wp_get, wp_ite]
    refine ⟨fun hi => absurd (h₂.2.symm.trans hi) (by decide), fun _ => ?_⟩
    refine wp_check (hP.waited h₂.1) (fun s₃ h₃ => ?_) fun s₃ h₃ => ?_
    · rw [wp_bind]
      refine wp_mono (hdrop h₃) fun _ s₄ h₄ => ?_
      have hl := Leaving.of_wait h₄.1
      refine ⟨fun _ => h₄.1, fun hrc => ?_⟩
      by_cases hi : s₄.dbg.state = .idle
      · exact .inr ⟨h₄.1, hi⟩
      · have hrc' : (if s₄.dbg.state = .idle then (0 : Int) else -1) = 0 := hrc
        rw [if_neg hi] at hrc'
        exact absurd hrc' (by decide)
    · rw [wp_bind, wp_get, wp_ite]
      refine ⟨fun hst => absurd h₃.2 hst, fun _ => ?_⟩
      refine wp_mono ((finishTempBreakpoint_keeps tempBp).wp_and (hP.finishTemp h₃.2 h₃.1))
        fun rc s₄ h₄ => ⟨fun hrc => h₄.1.2 hrc, fun hrc => .inl ⟨h₄.1.1 hrc, ?_⟩⟩
      exact (state_of_sansReports h₄.2).trans h₃.2

theorem SoundNext.nextRound (hP : P.SoundNext) {pc : Addr} (h : Going P g pc s) :
    wp (nextRound pc) (Advanced P g) s := by
  obtain ⟨hready, hst, hpc⟩ := h
  have hret : wp (callReturnAddress pc) (fun r _ => ∀ addr, r = some addr →
      addr = pc + 5 ∨ addr = pc + 4) s := by
    rw [callReturnAddress, wp_bind, wp_get]
    cases s.os.arch with
    | x86_64 =>
      dsimp only
      rw [wp_bind]
      refine wp_cdbgMemRead (fun _ _ _ addr h => absurd h (by simp)) fun p _ _ _ addr h => ?_
      have h : (if (p.mem.read pc 1).headD 0 = 0xe8 then some (pc + 5) else none) = some addr := h
      split at h
      · exact .inl (Option.some.inj h).symm
      · exact absurd h (by simp)
    | aarch64 =>
      dsimp only
      rw [wp_bind]
      refine wp_cdbgMemRead (fun _ _ _ addr h => absurd h (by simp)) fun p _ _ _ addr h => ?_
      have h : (if valueOf (p.mem.read pc 4) &&& 0xfc000000 = 0x94000000 then some (pc + 4)
        else none) = some addr := h
      split at h
      · exact .inr (Option.some.inj h).symm
      · exact absurd h (by simp)
  rw [Debugger.nextRound, wp_bind]
  refine wp_mono ((callReturnAddress_keeps pc).wp_and hret) fun r s₁ h₁ => ?_
  obtain ⟨hr, hq⟩ := h₁
  have hq := Sys.quiet_iff_sansCalls.mpr hq
  have hready₁ := hP.readyQuiet hready hq
  obtain ⟨n, rfl⟩ := hq
  cases r with
  | none => exact hP.stepRound hready₁
  | some addr =>
    dsimp only
    rw [wp_bind]
    have haddr := hr addr rfl
    rw [← hpc] at haddr
    refine wp_mono (hP.stepOverCall hready₁ hst haddr) fun rc s₂ h₂ => ?_
    rw [wp_ite]
    refine ⟨fun hrc => Leaving.of_failed (h₂.1 hrc), fun hrc => ?_⟩
    rw [wp_bind, wp_get, wp_ite]
    rcases h₂.2 (not_not.mp hrc) with ⟨hset, hst₂⟩ | ⟨hfail, hi⟩
    · exact ⟨fun hst => absurd hst₂ hst, fun _ => ⟨hset, hst₂⟩⟩
    · exact ⟨fun _ => ⟨fun _ => .inr ⟨hfail, hi⟩, fun _ => hfail⟩,
        fun h => absurd (hi.symm.trans (not_not.mp h)) (by decide)⟩

/-! ### The stepping loops -/

theorem Sound.stepLoopRound (hP : P.Sound) {advance : Addr → DbgM (Option Int)}
    (hadv : ∀ {g pc s}, Going P g pc s → wp (advance pc) (Advanced P g) s)
    (start : CStr × UInt32) {x : Guard × Addr} (h : Going P x.1 x.2 s) :
    wp (stepLoopRound advance start x)
      (fun r s' => Sum.elim (fun y s' => Going P y.1 y.2 s') (fun y s' => Leaving P y.1 y.2 s')
        r s') s := by
  obtain ⟨g, pc⟩ := x
  obtain ⟨hready, hst, hpc⟩ := h
  rw [Debugger.stepLoopRound, wp_bind]
  refine wp_mono ((stepThreadGuardCatchUp_keeps g).wp_and (hP.catchUp hready)) fun g₁ s₁ h₁ => ?_
  have hd₁ : s₁.dbg = s.dbg := congrArg (·.dbg) h₁.2
  rw [wp_bind]
  refine wp_mono (@hadv g₁ pc s₁ ⟨h₁.1, by rw [hd₁, hst], by rw [hd₁, hpc]⟩) fun r s₂ h₂ => ?_
  cases r with
  | some rc => exact h₂
  | none =>
    dsimp only
    rw [wp_bind]
    refine wp_mono (hP.checkStop start h₂.1 h₂.2) fun r s₃ h₃ => ?_
    cases r with
    | inl pc' => exact h₃
    | inr rc => exact h₃

theorem Sound.guardEnd (hP : P.Sound) {rc : Int} (h : Leaving P g rc s) :
    wp (stepThreadGuardEnd g) (fun _ s' => Leaving P [] rc s') s := by
  by_cases hrc : rc = 0
  · rcases h.1 hrc with ⟨hrep, hst⟩ | ⟨hfail, hi⟩
    · refine wp_mono (wp_and (hP.endReported hrep) (stepThreadGuardEnd_state s g)) fun _ s' h' => ?_
      exact ⟨fun _ => .inl ⟨h'.1, by rw [h'.2, hst]⟩, fun h => absurd hrc h⟩
    · refine wp_mono (wp_and (hP.endFailed hfail) (stepThreadGuardEnd_state s g)) fun _ s' h' => ?_
      exact ⟨fun _ => .inr ⟨h'.1, by rw [h'.2, hi]⟩, fun h => absurd hrc h⟩
  · refine wp_mono (hP.endFailed (h.2 hrc)) fun _ s' h' => ?_
    exact ⟨fun h => absurd h hrc, fun _ => h'⟩

theorem Sound.stepLines (hP : P.Sound) {advance : Addr → DbgM (Option Int)}
    (hadv : ∀ {g pc s}, Going P g pc s → wp (advance pc) (Advanced P g) s)
    (h : P.ready [] none s) (hst : s.dbg.state = .stopped) :
    wp (stepLines advance) (Leaving P []) s := by
  rw [Debugger.stepLines]
  have href : wp cdbgRefreshRegs (onCode (fun s' => P.ready [] none s' ∧ s'.dbg.state = .stopped)
      (P.failed [] none)) s :=
    wp_mono (cdbgRefreshRegs_keepsReports.wp_and (hP.refreshReady h)) fun rc s₁ h₁ =>
      ⟨fun hrc => ⟨h₁.1.1 hrc, (state_of_sansReports h₁.2).trans hst⟩, fun hrc => h₁.1.2 hrc⟩
  refine wp_check href (fun s₁ h₁ => Leaving.of_failed h₁) fun s₁ h₁ => ?_
  obtain ⟨hready₁, hst₁⟩ := h₁
  rw [wp_bind, wp_get]
  dsimp only
  cases s₁.dbg.lineno.lineAtPc s₁.dbg.regs.pc with
  | none => exact hP.singleStepAndReport hready₁
  | some start =>
    dsimp only
    rw [wp_bind]
    refine wp_mono ((stepThreadGuardCatchUp_keeps []).wp_and (hP.catchUp hready₁)) fun g s₂ h₂ => ?_
    have hd₂ : s₂.dbg = s₁.dbg := congrArg (·.dbg) h₂.2
    rw [wp_bind]
    have hgo : Going P g s₁.dbg.regs.pc s₂ := ⟨h₂.1, by rw [hd₂, hst₁], by rw [hd₂]⟩
    refine wp_mono (wp_loopUpTo (I := fun y s' => Going P y.1 y.2 s')
      (E := fun y s' => Leaving P y.1 y.2 s') (fun x s' hx => hP.stepLoopRound hadv start hx)
      maxStepIterations hgo) fun r s₃ h₃ => ?_
    cases r with
    | inl y =>
      show wp (do
        stepThreadGuardEnd y.1
        return -1) _ _
      rw [wp_bind]
      exact hP.guardEnd (Leaving.of_failed (hP.giveUp h₃.1))
    | inr y =>
      show wp (do
        stepThreadGuardEnd y.1
        return y.2) _ _
      rw [wp_bind]
      exact hP.guardEnd h₃

/-- Without line information a stepping command is a single step that is reported. -/
theorem SoundReport.stepLines_noLine (hP : P.SoundReport) {advance : Addr → DbgM (Option Int)}
    (hno : s.NoLine) (h : P.ready [] none s) : wp (stepLines advance) (Leaving P []) s := by
  have hline : wp cdbgRefreshRegs (fun rc s' => rc = 0 →
      s'.dbg.lineno.lineAtPc s'.dbg.regs.pc = none) s := by
    refine wp_cdbgRefreshRegs (fun s' _ _ h => absurd h neg_one_ne) fun p t s' hp ht hq _ => ?_
    obtain ⟨n, rfl⟩ := hq
    exact hno p t (Sys.process_eq_some.mp hp).1 ht
  rw [Debugger.stepLines]
  refine wp_check (wp_mono (wp_and (hP.refreshReady h) hline) fun rc s₁ h₁ =>
    (⟨fun hrc => ⟨h₁.1.1 hrc, h₁.2 hrc⟩, h₁.1.2⟩ : onCode (fun s' => P.ready [] none s' ∧
      s'.dbg.lineno.lineAtPc s'.dbg.regs.pc = none) (P.failed [] none) rc s₁))
    (fun s₁ h₁ => Leaving.of_failed h₁) fun s₁ h₁ => ?_
  rw [wp_bind, wp_get]
  dsimp only
  rw [h₁.2]
  exact hP.singleStepAndReport h₁.1

/-! ### The commands -/

/-- The debugger's report of the debuggee's end has no effect before the end. -/
theorem reportProcessExit_of_ne {Q : PUnit → Sys → Prop} (h : s.dbg.state ≠ .idle) (hQ : Q ⟨⟩ s) :
    wp reportProcessExit Q s := by
  rw [reportProcessExit, wp_bind, wp_get, wp_ite]
  exact ⟨fun _ => hQ, fun h' => absurd h h'⟩

theorem reportProcessExit_of_idle {Q : PUnit → Sys → Prop} (h : s.dbg.state = .idle)
    (hQ : Q ⟨⟩ (s.withDbg s.dbg.exited)) : wp reportProcessExit Q s := by
  rw [reportProcessExit, wp_bind, wp_get, wp_ite]
  exact ⟨fun h' => absurd h h', fun _ => hQ⟩

theorem SoundReport.replStepWith (hP : P.SoundReport) {stepFn : DbgM Int}
    (hstep : wp stepFn (Leaving P []) s) (hst : s.dbg.state = .stopped)
    (hprim : requirePrimaryThreadForStep s.dbg = true) :
    wp (replStepWith stepFn) P.prompt s := by
  rw [Debugger.replStepWith, wp_bind, wp_get, wp_ite]
  refine ⟨fun hi => absurd (hst.symm.trans hi) (by decide), fun _ => ?_⟩
  rw [wp_ite]
  refine ⟨fun h => absurd h (by simp [hprim]), fun _ => ?_⟩
  rw [wp_bind]
  refine wp_mono hstep fun rc s₁ h₁ => ?_
  rw [wp_bind, wp_get, wp_ite]
  refine ⟨fun h => hP.fatal h.2 (h₁.2 h.1), fun h => ?_⟩
  rw [wp_bind]
  by_cases hrc : rc = 0
  · rcases h₁.1 hrc with ⟨hrep, hst₁⟩ | ⟨hfail, hi⟩
    · exact reportProcessExit_of_ne (by rw [hst₁]; decide) (hP.done hst₁ hrep)
    · exact reportProcessExit_of_idle hi (hP.exit hi hfail)
  · have hi : s₁.dbg.state = .idle := not_not.mp fun hi => h ⟨hrc, hi⟩
    exact reportProcessExit_of_idle hi (hP.exit hi (h₁.2 hrc))

theorem Sound.step (hP : P.Sound) (h : P.ready [] none s) (hst : s.dbg.state = .stopped)
    (hprim : requirePrimaryThreadForStep s.dbg = true) : wp cdbgReplCmdStep P.prompt s :=
  hP.replStepWith (hP.stepLines (fun h => hP.stepRound h.1) h hst) hst hprim

theorem SoundNext.next (hP : P.SoundNext) (h : P.ready [] none s) (hst : s.dbg.state = .stopped)
    (hprim : requirePrimaryThreadForStep s.dbg = true) : wp cdbgReplCmdNext P.prompt s :=
  hP.replStepWith (hP.stepLines (fun h => hP.nextRound h) h hst) hst hprim

theorem SoundReport.exitOrFatal (hP : P.SoundReport) (h : P.failed [] none s) :
    wp exitOrFatal P.prompt s := by
  rw [Debugger.exitOrFatal, wp_bind, wp_get, wp_ite]
  refine ⟨fun hi => ?_, fun hi => hP.fatal hi h⟩
  rw [wp_bind]
  exact reportProcessExit_of_idle hi (hP.exit hi h)

theorem SoundReport.reportAfterWait (hP : P.SoundReport) (h : P.arrived [] none s)
    (hst : s.dbg.state = .stopped) : wp reportAfterWait P.prompt s := by
  rw [Debugger.reportAfterWait, wp_bind, wp_get, wp_ite]
  refine ⟨fun _ => ?_, fun h => absurd hst h⟩
  rw [wp_bind]
  refine wp_mono (reportStop_keeps.wp_and (hP.report h)) fun rc s₁ h₁ => ?_
  exact hP.done ((state_of_sansReports h₁.2).trans hst) h₁.1

/-- `continue` is fatal whenever `cdbg_continue` fails. -/
theorem SoundReport.continueCmd (hP : P.SoundReport) (hfatal : ∀ {s}, P.failed [] none s → P.prompt .fatal s)
    (h : P.ready [] none s) (hst : s.dbg.state = .stopped) :
    wp cdbgReplCmdContinue P.prompt s := by
  rw [cdbgReplCmdContinue, wp_bind, wp_get, wp_ite]
  refine ⟨fun hi => absurd (hst.symm.trans hi) (by decide), fun _ => ?_⟩
  have hcont := wp_and (hP.continue hst h) (cdbgContinue_running hst)
  refine wp_check (A := fun s' => P.waiting [] none s' ∧ s'.dbg.state = .running)
    (B := P.failed [] none) (wp_mono hcont fun rc s' h =>
      ⟨fun hrc => ⟨h.1.1 hrc, h.2 hrc⟩, fun hrc => h.1.2 hrc⟩) (fun s₁ h₁ => hfatal h₁)
    fun s₁ h₁ => ?_
  rw [wp_bind, wp_get, wp_ite]
  refine ⟨fun hi => absurd (h₁.2.symm.trans hi) (by decide), fun _ => ?_⟩
  exact wp_check (hP.waited h₁.1) (fun s₂ h₂ => hP.exitOrFatal h₂)
    fun s₂ h₂ => hP.reportAfterWait h₂.1 h₂.2

theorem SoundReport.si (hP : P.SoundReport) (h : P.ready [] none s) (hst : s.dbg.state = .stopped)
    (hprim : requirePrimaryThreadForStep s.dbg = true) : wp cdbgReplCmdSi P.prompt s := by
  rw [cdbgReplCmdSi, wp_bind, wp_get, wp_ite]
  refine ⟨fun hi => absurd (hst.symm.trans hi) (by decide), fun _ => ?_⟩
  rw [wp_ite]
  refine ⟨fun h => absurd h (by simp [hprim]), fun _ => ?_⟩
  rw [wp_bind]
  have hguard := (stepThreadGuardCatchUp_keeps []).wp_and (hP.catchUp h)
  refine wp_mono hguard fun g s₁ h₁ => ?_
  replace h₁ : P.ready g none s₁ ∧ s₁.dbg = s.dbg := ⟨h₁.1, congrArg (·.dbg) h₁.2⟩
  have hst₁ : s₁.dbg.state = .stopped := by rw [h₁.2, hst]
  have hstep : wp stepAndWait (fun r s' =>
      (r.1 = 0 → r.2 = 0 → P.arrived g none s' ∧ s'.dbg.state = .stopped) ∧
      (r.1 ≠ 0 → s'.dbg.state ≠ .idle) ∧ (r.1 ≠ 0 ∨ r.2 ≠ 0 → P.failed g none s')) s₁ := by
    rw [stepAndWait, wp_bind]
    refine wp_mono (wp_and (hP.singleStep h₁.1) (cdbgSingleStep_state s₁)) fun rc s₂ h₂ => ?_
    rw [wp_ite]
    refine ⟨fun hrc => ⟨fun h => absurd h hrc, fun _ => ?_, fun _ => h₂.1.2 hrc⟩, fun hrc => ?_⟩
    · show s₂.dbg.state ≠ .idle
      rw [h₂.2 hrc, hst₁]
      decide
    · rw [wp_bind]
      refine wp_mono (hP.waited (h₂.1.1 (not_not.mp hrc))) fun rc' s₃ h₃ => ?_
      exact ⟨fun _ h0 => h₃.1 h0, fun h => absurd h hrc, fun h => h₃.2 (h.resolve_left hrc)⟩
  rw [wp_bind]
  refine wp_mono hstep fun r s₂ h₂ => ?_
  obtain ⟨stepRc, waitRc⟩ := r
  dsimp only
  rw [wp_bind]
  by_cases hrc : stepRc = 0 ∧ waitRc = 0
  · obtain ⟨rfl, rfl⟩ := hrc
    obtain ⟨harr, hst₂⟩ := h₂.1 rfl rfl
    refine wp_mono (wp_and (hP.endArrived harr) (stepThreadGuardEnd_state s₂ g)) fun _ s₃ h₃ => ?_
    rw [wp_ite]
    refine ⟨fun h => absurd rfl h, fun _ => ?_⟩
    rw [wp_ite]
    exact ⟨fun h => absurd rfl h, fun _ => hP.reportAfterWait h₃.1 (by rw [h₃.2, hst₂])⟩
  · have hfail : P.failed g none s₂ := h₂.2.2 (not_and_or.mp hrc)
    refine wp_mono (wp_and (hP.endFailed hfail) (stepThreadGuardEnd_state s₂ g)) fun _ s₃ h₃ => ?_
    rw [wp_ite]
    have hlive : stepRc ≠ 0 → s₃.dbg.state ≠ .idle := fun h0 => by rw [h₃.2]; exact h₂.2.1 h0
    refine ⟨fun h0 => hP.fatal (hlive h0) h₃.1, fun h0 => ?_⟩
    rw [wp_ite]
    exact ⟨fun _ => hP.exitOrFatal h₃.1, fun h1 => absurd ⟨not_not.mp h0, not_not.mp h1⟩ hrc⟩

end ControlPoints

/-! ### Invariants -/

/-- An assertion that every action of the commands keeps. -/
structure Invariant (I : Sys → Prop) : Prop where
  patches {s s'} : I s → s'.sansPatches = s.sansPatches → I s'
  holds {s s'} : I s → s'.sansHolds = s.sansHolds → I s'
  regsSet {s} (pid : ℕ) (tid : UInt64) (regs : Regs) : I s →
    wp (cdbgRegsSet pid tid regs) (fun _ => I) s
  resumed {s s' kind p} : I s → s.process s.dbg.pid = some p →
    (s.resumedAs kind p).Quiet s' → I s'
  stopped {s s' p sig ms} : I s → s.process s.dbg.pid = some p →
    s.os.events s.os.waits = .stopped sig ms → (s.stoppedBy p sig ms).Quiet s' → I s'
  ended {s s'} : I s → s.Ended s' → I s'
  report {s} : I s → wp reportStop (fun _ => I) s
  watch {s} (i : ℕ) : I s → wp (reportWatchpointHit i) (fun _ => I) s
  exit {s} : s.dbg.state = .idle → I s → I (s.withDbg s.dbg.exited)

namespace Invariant

variable {I : Sys → Prop} {s s' : Sys}

theorem quiet (hI : Invariant I) (h : I s) (hq : s.Quiet s') : I s' :=
  hI.patches h (Sys.sansPatches_of_quiet hq)

theorem keepsPatches {α : Type} {m : DbgM α} (hI : Invariant I) (hm : Keeps Sys.sansPatches m)
    (h : I s) : wp m (fun _ => I) s := wp_mono (hm s) fun _ _ hv => hI.patches h hv

theorem keepsHolds {α : Type} {m : DbgM α} (hI : Invariant I) (hm : Keeps Sys.sansHolds m)
    (h : I s) : wp m (fun _ => I) s := wp_mono (hm s) fun _ _ hv => hI.holds h hv

theorem wait (hI : Invariant I) (h : I s) : wp cdbgWait (fun _ => I) s := by
  refine wp_cdbgWait (fun _ hq _ => hI.quiet h hq) (fun _ _ _ _ he => hI.ended h he)
    fun p sig ms s₁ hp _ hev hq => ?_
  exact wp_mono (hI.keepsPatches reenableBreakpointsAfterStep_keeps (hI.stopped h hp hev hq))
    fun _ _ h => ⟨fun _ => h, fun _ => h⟩

theorem singleStep (hI : Invariant I) (h : I s) : wp cdbgSingleStep (fun _ => I) s :=
  wp_cdbgSingleStep (fun _ hq _ => hI.quiet h hq) fun _ _ hp hq => hI.resumed h hp hq

theorem code {α : Type} {m : DbgM α} {f : α → Int} (hm : wp m (fun _ => I) s) :
    wp m (fun a => onCode I I (f a)) s := wp_mono hm fun _ _ h => ⟨fun _ => h, fun _ => h⟩

theorem «continue» (hI : Invariant I) (hst : s.dbg.state = .stopped) (h : I s) :
    wp cdbgContinue (onCode I I) s :=
  cdbgContinue_rule (I := I) (W := I) (C := I) hst (fun _ => h)
    (fun _ => wp_mono (hI.keepsPatches cdbgRefreshRegs_keeps h) fun _ _ h =>
      ⟨fun _ => ⟨fun _ => h, fun _ => h⟩, fun _ => h⟩)
    (fun _ h => code (hI.singleStep h)) (fun _ h => code (hI.wait h))
    (fun _ h _ hq _ => hI.quiet h hq) fun _ h _ _ hp hq => hI.resumed h hp hq

theorem finishTemp (hI : Invariant I) {t : Breakpoint} (h : I s) :
    wp (finishTempBreakpoint t) (fun _ => I) s := by
  have hdrop : ∀ {s}, I s → wp (dropTempBreakpoint t) (fun _ => I) s :=
    hI.keepsPatches (dropTempBreakpoint_keeps t)
  rw [finishTempBreakpoint, wp_bind]
  refine wp_mono (hI.keepsPatches cdbgRefreshRegs_keeps h) fun rc s₁ h₁ => ?_
  rw [wp_ite]
  refine ⟨fun _ => ?_, fun _ => ?_⟩
  · rw [wp_bind]
    exact hdrop h₁
  · rw [wp_bind, wp_get, wp_ite]
    refine ⟨fun _ => ?_, fun _ => ?_⟩
    · rw [wp_bind]
      exact wp_mono (hdrop h₁) fun _ _ h₂ => hI.report h₂
    · rw [wp_bind]
      refine wp_mono (cdbgBpDisable_keeps t) fun r s₂ h₂ => ?_
      have hI₂ : I s₂ := hI.patches h₁ h₂.2.1
      obtain ⟨rc', bp⟩ := r
      show wp (if rc' ≠ 0 then _ else _) _ _
      rw [wp_ite]
      refine ⟨fun _ => hI₂, fun _ => ?_⟩
      rw [wp_ite]
      refine ⟨fun _ => ?_, fun _ => hI₂⟩
      rw [wp_bind, wp_setRegs, wp_bind]
      refine wp_mono (hI.regsSet _ _ _ (hI.patches hI₂ rfl)) fun rc s₃ h₃ => ?_
      rw [wp_ite]
      exact ⟨fun _ => h₃, fun _ => h₃⟩

/-- The invariant at every control point. -/
def points (I : Sys → Prop) : ControlPoints where
  ready _ _ := I
  waiting _ _ := I
  arrived _ _ := I
  settled _ := I
  reported _ := I
  failed _ _ := I
  prompt _ := I

theorem sound (hI : Invariant I) : (points I).SoundNext where
  readyQuiet := hI.quiet
  settledQuiet := hI.quiet
  settle h := h
  goOn h _ _ := h
  leave h _ _ := h
  giveUp h := h
  refreshReady h := code (hI.keepsPatches cdbgRefreshRegs_keeps h)
  refreshSettled h := code (hI.keepsPatches cdbgRefreshRegs_keeps h)
  catchUp h := hI.keepsHolds (stepThreadGuardCatchUp_keeps _) h
  singleStep h := code (hI.singleStep h)
  «continue» := hI.continue
  wait h := code (hI.wait h)
  report h := hI.report h
  reportAtTrap h _ _ := code (hI.report h)
  watch h _ _ := hI.watch _ h
  endArrived h := hI.keepsHolds (stepThreadGuardEnd_keeps _) h
  endReported h := hI.keepsHolds (stepThreadGuardEnd_keeps _) h
  endFailed h := hI.keepsHolds (stepThreadGuardEnd_keeps _) h
  done _ h := h
  exit := hI.exit
  fatal _ h := h
  tempEnable h _ := code (wp_mono (cdbgBpEnable_keeps _ _) fun _ _ h' => hI.patches h h'.2.1)
  dropTemp h := hI.keepsPatches (dropTempBreakpoint_keeps _) h
  finishTemp _ h := code (hI.finishTemp h)

end Invariant

end Debugger
