/-
The end of the debuggee during a command.

`step`, `si` and `next` survive an exit or a kill at any of their waits.  So does
`continue`, except when the debuggee ends while `cdbg_continue` single-steps off a
disabled breakpoint: `cdbg_wait` then returns 1, `cdbg_continue` passes it on, and the
command takes it for a failure (`exit_outcome`).
-/
import Debugger.Prompt

open Prog

namespace Debugger

/-- The debugger has let go of the debuggee: idle, no pid, everything disabled. -/
structure Cdbg.LetGo (d : Cdbg) : Prop where
  idle : d.state = .idle
  pid : d.pid = 0
  breakpoints : ∀ bp ∈ d.breakpoints, bp.enabled = false
  watchpoints : ∀ watch ∈ d.watchpoints, watch.enabled = false

/-- The next wait for the debuggee reports its end. -/
def Sys.EndsNext (s : Sys) : Prop :=
  s.os.killed = true ∨ (s.os.events s.os.waits).isEnd = true

/-! ### The process is there or gone -/

section Gone

variable {s s' : Sys}

/-- There is a process. -/
def Sys.alive (s : Sys) : Bool := s.os.proc.isSome

theorem Sys.alive_of_sansReports (h : s'.sansReports = s.sansReports) : s'.alive = s.alive := by
  have hproc : s'.os.proc.map Process.sansReports = s.os.proc.map Process.sansReports :=
    congrArg (·.os.proc) h
  have hsome := congrArg Option.isSome hproc
  rwa [Option.isSome_map, Option.isSome_map] at hsome

theorem Sys.alive_of_sansHolds (h : s'.sansHolds = s.sansHolds) : s'.alive = s.alive := by
  have hsome := congrArg (·.os.proc.isSome) h
  simpa [sansHolds, sansProc, alive] using hsome

/-- A function that only reports leaves the process there. -/
theorem keepsAlive {α : Type} {m : DbgM α} (hm : Keeps Sys.sansReports m) (h : s.alive = true) :
    wp m (fun _ s' => s'.alive = true) s :=
  wp_mono (hm s) fun _ _ hv => (Sys.alive_of_sansReports hv).trans h

/-- Once the process is gone the debugger knows. -/
def Sys.Noticed (s : Sys) : Prop := s.alive = false → s.dbg.state = .idle

theorem Sys.Noticed.of_alive (h : s.alive = true) : s.Noticed :=
  fun h' => absurd (h.symm.trans h') (by decide)

theorem Sys.Noticed.keeps {α : Type} {m : DbgM α} (hm : Keeps Sys.sansReports m) (h : s.Noticed) :
    wp m (fun _ s' => s'.Noticed) s := by
  refine wp_mono (hm s) fun _ s' hv ha => ?_
  rw [show s'.dbg.state = s.dbg.state from congrArg (·.dbg.state) hv]
  exact h ((Sys.alive_of_sansReports hv).symm.trans ha)

theorem Sys.Noticed.guardEnd {g : Guard} (h : s.Noticed) :
    wp (stepThreadGuardEnd g) (fun _ s' => s'.Noticed) s := by
  refine wp_mono (stepThreadGuardEnd_keeps g s) fun _ s' hv ha => ?_
  rw [show s'.dbg.state = s.dbg.state from congrArg (·.dbg.state) hv]
  exact h ((Sys.alive_of_sansHolds hv).symm.trans ha)

theorem exited_letGo (hi : s.dbg.state = .idle) : s.dbg.exited.LetGo := by
  refine ⟨hi, rfl, fun bp hbp => ?_, fun watch hw => ?_⟩
  · obtain ⟨b, -, rfl⟩ := List.mem_map.mp hbp
    rfl
  · obtain ⟨w, -, rfl⟩ := List.mem_map.mp hw
    rfl

/-! ### The actions of the commands -/

theorem wp_singleStep_alive (h : s.alive = true) :
    wp cdbgSingleStep (onCode (fun s' => s'.alive = true) fun s' => s'.alive = true) s := by
  refine wp_cdbgSingleStep (fun s' hq _ => ?_) fun p s' _ hq => ?_
  · obtain ⟨n, rfl⟩ := hq
    exact onCode_neg_one.mpr h
  · obtain ⟨n, rfl⟩ := hq
    exact onCode_zero.mpr rfl

/-- A wait that fails leaves the process there, and the debugger notices an end. -/
theorem wp_wait_alive (h : s.alive = true) :
    wp cdbgWait (fun rc s' => (rc = 0 → s'.alive = true ∧ ¬ s.EndsNext) ∧
      (rc ≠ 0 → s'.Noticed ∧ (s'.alive = false → s.EndsNext))) s := by
  refine wp_cdbgWait (fun s' hq _ => ?_) (fun p s' hp hev he => ?_)
    fun p sig ms s₁ hp hk hev hq => ?_
  · obtain ⟨n, rfl⟩ := hq
    exact ⟨fun h => absurd h neg_one_ne, fun _ => ⟨Sys.Noticed.of_alive h,
      fun ha => absurd (h.symm.trans ha) (by decide)⟩⟩
  · obtain ⟨status, waits, calls, rfl⟩ := he
    exact ⟨fun h => absurd h (by decide), fun _ => ⟨fun _ => rfl, fun _ => hev⟩⟩
  · have hends : ¬ s.EndsNext := by
      rintro (hk' | hev')
      · rw [hk] at hk'
        exact absurd hk' (by decide)
      · rw [hev] at hev'
        exact absurd hev' (by simp [WaitEvent.isEnd])
    have halive : s₁.alive = true := by
      obtain ⟨n, rfl⟩ := hq
      rfl
    refine wp_mono (keepsAlive (reenableBreakpointsAfterStep_keeps.mono fun _ _ =>
      Sys.sansReports_of_sansPatches) halive) fun rc s₂ h₂ => ⟨fun _ => ?_, fun _ => ?_⟩
    · exact ⟨fun _ => ⟨h₂, hends⟩, fun h => absurd rfl h⟩
    · exact ⟨fun h => absurd h neg_one_ne, fun _ => ⟨Sys.Noticed.of_alive h₂,
        fun ha => absurd (h₂.symm.trans ha) (by decide)⟩⟩

/-- `cdbg_continue` loses the process only in its single step off a disabled breakpoint. -/
theorem wp_continue_alive (hst : s.dbg.state = .stopped) (h : s.alive = true) :
    wp cdbgContinue (onCode (fun s' => s'.alive = true ∧ ¬ (s.AtDisabled ∧ s.EndsNext))
      (fun s' => s'.Noticed ∧ (s'.alive = false → s.AtDisabled ∧ s.EndsNext))) s := by
  have hlive : ∀ {s' : Sys}, s'.alive = true →
      s'.Noticed ∧ (s'.alive = false → s.AtDisabled ∧ s.EndsNext) := fun h' =>
    ⟨Sys.Noticed.of_alive h', fun ha => absurd (h'.symm.trans ha) (by decide)⟩
  refine cdbgContinue_rule
    (I := fun s' => s'.alive = true ∧ s.AtDisabled ∧ (s'.EndsNext ↔ s.EndsNext))
    (W := fun s' => s'.alive = true ∧ s.AtDisabled ∧ (s'.EndsNext ↔ s.EndsNext))
    (C := fun s' => s'.alive = true ∧ ¬ (s.AtDisabled ∧ s.EndsNext))
    hst (fun hnone => ⟨h, ?_⟩) (fun _ => ?_) (fun s' h' => ?_) (fun s' h' => ?_)
    (fun s' h' s'' hq _ => ?_) fun s' h' p s'' hp hq => ?_
  · rintro ⟨⟨p, t, -, -, hd⟩, -⟩
    exact hd (by rw [hnone]; rfl)
  · refine wp_cdbgRefreshRegs (fun s' hq _ => ?_) fun p t s' hp ht hq => ?_
    · obtain ⟨n, rfl⟩ := hq
      exact onCode_neg_one.mpr (hlive h)
    · obtain ⟨n, rfl⟩ := hq
      obtain ⟨hproc, -⟩ := Sys.process_eq_some.mp hp
      refine onCode_zero.mpr ⟨fun hd => ⟨h, ?_⟩, fun hd => ⟨h, ?_, Iff.rfl⟩⟩
      · rintro ⟨⟨q, u, hq, hu, hne⟩, -⟩
        obtain rfl := Option.some.inj (hproc.symm.trans hq)
        obtain rfl := Option.some.inj (ht.symm.trans hu)
        exact hne hd
      · exact ⟨p, t, hproc, ht, hd⟩
  · refine wp_cdbgSingleStep (fun s'' hq _ => ?_) fun p s'' _ hq => ?_
    · obtain ⟨n, rfl⟩ := hq
      exact onCode_neg_one.mpr (hlive h'.1)
    · obtain ⟨n, rfl⟩ := hq
      exact onCode_zero.mpr ⟨rfl, h'.2⟩
  · refine wp_mono (wp_wait_alive h'.1) fun rc s'' hw => ⟨fun hrc => ?_, fun hrc => ?_⟩
    · exact ⟨(hw.1 hrc).1, fun hbad => (hw.1 hrc).2 (h'.2.2.mpr hbad.2)⟩
    · exact ⟨(hw.2 hrc).1, fun ha => ⟨h'.2.1, h'.2.2.mp ((hw.2 hrc).2 ha)⟩⟩
  · obtain ⟨n, rfl⟩ := hq
    exact hlive h'.1
  · obtain ⟨n, rfl⟩ := hq
    exact ⟨rfl, h'.2⟩

/-- At every control point: the process is there, or its end is noticed. -/
def exitPoints : ControlPoints where
  ready _ _ s := s.alive = true
  waiting _ _ s := s.alive = true
  arrived _ _ s := s.alive = true
  settled _ s := s.alive = true
  reported _ s := s.alive = true
  failed _ _ s := s.Noticed
  prompt o s := s.alive = false → o = .ok ∧ s.dbg.LetGo

theorem exitPoints_sound : exitPoints.SoundNext := by
  have hcode : ∀ {m : DbgM Int} {s : Sys}, Keeps Sys.sansReports m → s.alive = true →
      wp m (onCode (fun s' => s'.alive = true) fun s' => s'.Noticed) s := fun hm h =>
    wp_mono (keepsAlive hm h) fun _ _ h' => ⟨fun _ => h', fun _ => Sys.Noticed.of_alive h'⟩
  have hend : ∀ {g : Guard} {s : Sys}, s.alive = true →
      wp (stepThreadGuardEnd g) (fun _ s' => s'.alive = true) s := fun h =>
    wp_mono (stepThreadGuardEnd_keeps _ _) fun _ _ hv => (Sys.alive_of_sansHolds hv).trans h
  have hquiet : ∀ {s s' : Sys}, s.alive = true → s.Quiet s' → s'.alive = true := fun h hq =>
    (Sys.alive_of_sansReports (Sys.sansReports_of_quiet hq)).trans h
  exact {
    readyQuiet := hquiet
    settledQuiet := hquiet
    settle := id
    goOn := fun h _ _ => h
    leave := fun h _ _ => h
    giveUp := Sys.Noticed.of_alive
    refreshReady := hcode cdbgRefreshRegs_keepsReports
    refreshSettled := hcode cdbgRefreshRegs_keepsReports
    catchUp := fun h => wp_mono (stepThreadGuardCatchUp_keeps _ _) fun _ _ hv =>
      (Sys.alive_of_sansHolds hv).trans h
    singleStep := fun h => wp_mono (wp_singleStep_alive h) fun _ _ h' =>
      onCode_mono h' id Sys.Noticed.of_alive
    «continue» := fun hst h => wp_mono (wp_continue_alive hst h) fun _ _ h' =>
      onCode_mono h' (·.1) (·.1)
    wait := fun h => wp_mono (wp_wait_alive h) fun _ _ h' =>
      ⟨fun hrc => (h'.1 hrc).1, fun hrc => (h'.2 hrc).1⟩
    report := keepsAlive reportStop_keeps
    reportAtTrap := fun h _ _ => hcode reportStop_keeps h
    watch := fun h _ _ => keepsAlive (reportWatchpointHit_keeps _) h
    endArrived := hend
    endReported := hend
    endFailed := Sys.Noticed.guardEnd
    done := fun _ h ha => absurd (h.symm.trans ha) (by decide)
    exit := fun hi _ _ => ⟨rfl, exited_letGo hi⟩
    fatal := fun hi h ha => absurd (h ha) hi
    tempEnable := fun h _ => wp_mono (cdbgBpEnable_keeps _ _) fun _ _ h' =>
      have ha := (Sys.alive_of_sansReports (Sys.sansReports_of_sansPatches h'.2.1)).trans h
      ⟨fun _ => ha, fun _ => Sys.Noticed.of_alive ha⟩
    dropTemp := fun h => Sys.Noticed.keeps ((dropTempBreakpoint_keeps _).mono fun _ _ =>
      Sys.sansReports_of_sansPatches) h
    finishTemp := fun _ h => hcode (finishTempBreakpoint_keeps _) h }

/-! ### The outcome -/

/-- The outcome of `continue` when the debuggee has ended. -/
theorem cdbgReplCmdContinue_exit (hst : s.dbg.state = .stopped) (h : s.alive = true) :
    wp cdbgReplCmdContinue (fun o s' => s'.alive = false →
      (o = .ok ∧ s'.dbg.LetGo ↔ ¬ (s.AtDisabled ∧ s.EndsNext))) s := by
  rw [cdbgReplCmdContinue, wp_bind, wp_get, wp_ite]
  refine ⟨fun hi => absurd (hst.symm.trans hi) (by decide), fun _ => ?_⟩
  have hcont := wp_and (wp_continue_alive hst h) (cdbgContinue_running hst)
  refine wp_check (A := fun s' => (s'.alive = true ∧ ¬ (s.AtDisabled ∧ s.EndsNext)) ∧
      s'.dbg.state = .running)
    (B := fun s' => s'.Noticed ∧ (s'.alive = false → s.AtDisabled ∧ s.EndsNext))
    (wp_mono hcont fun rc s' h' => ⟨fun hrc => ⟨h'.1.1 hrc, h'.2 hrc⟩, fun hrc => h'.1.2 hrc⟩)
    (fun s₁ h₁ ha => ?_) fun s₁ h₁ => ?_
  · exact ⟨fun hok => absurd hok.1 ReplOutcome.noConfusion, fun hnot => absurd (h₁.2 ha) hnot⟩
  · obtain ⟨⟨ha₁, hgood⟩, hrun⟩ := h₁
    have hok : ∀ {o : ReplOutcome} {s' : Sys}, (s'.alive = false → o = .ok ∧ s'.dbg.LetGo) →
        s'.alive = false → (o = .ok ∧ s'.dbg.LetGo ↔ ¬ (s.AtDisabled ∧ s.EndsNext)) :=
      fun h' ha => ⟨fun _ => hgood, fun _ => h' ha⟩
    rw [wp_bind, wp_get, wp_ite]
    refine ⟨fun hi => absurd (hrun.symm.trans hi) (by decide), fun _ => ?_⟩
    refine wp_check (exitPoints_sound.waited (g := []) (t := none) ha₁) (fun s₂ h₂ => ?_)
      fun s₂ h₂ => ?_
    · exact wp_mono (exitPoints_sound.exitOrFatal h₂) fun _ _ => hok
    · exact wp_mono (exitPoints_sound.reportAfterWait h₂.1 h₂.2) fun _ _ => hok

end Gone

/-- When the debuggee ends during a command given at a stop, the command succeeds and the
debugger lets go of it, unless the command is `continue` and the debuggee ends in the
single step off a disabled breakpoint. -/
theorem exit_outcome {c : Command} {s : Sys} (hc : c.resumes = true)
    (hst : s.dbg.state = .stopped) (hproc : s.os.proc ≠ none)
    (hend : (runCommand c s).2.os.proc = none) :
    ((runCommand c s).1 = .ok ∧ (runCommand c s).2.dbg.LetGo) ↔
      ¬ (c = .continueTok ∧ s.AtDisabled ∧ s.EndsNext) := by
  have halive : s.unlogged.alive = true := by
    rw [Sys.alive]
    exact Option.isSome_iff_ne_none.mpr hproc
  have hgone : (runCommand c s).2.alive = false := by
    rw [Sys.alive, hend]
    rfl
  have hrun : s.unlogged.dbg.state ≠ .running := by
    show s.dbg.state ≠ .running
    rw [hst]
    decide
  by_cases hcont : c = .continueTok
  · subst hcont
    rw [show (Command.continueTok = .continueTok ∧ s.AtDisabled ∧ s.EndsNext) ↔
      s.AtDisabled ∧ s.EndsNext from by simp]
    exact cdbgReplCmdContinue_exit hst halive hgone
  · have hsteps : c.steps = true := by
      cases c <;> simp_all [Command.resumes, Command.steps]
    have hprompt : wp (exec c) exitPoints.prompt s.unlogged :=
      steps_cases exitPoints_sound.toSound (fun _ => exitPoints_sound) hsteps hrun
        (fun ha => absurd (halive.symm.trans ha) (by decide)) fun _ => halive
    exact ⟨fun _ h => hcont h.1, fun _ => hprompt hgone⟩

/-- A debuggee that stands at a disabled breakpoint and exits at the next resumption. -/
def atDisabled : Sys :=
  let s := Sys.attached .x86_64
    { pid := 100
      mem := fun _ => 0x90
      threads := [{ tid := 1, regs := x86At 0x1000 }]
      usedTids := [1] } fun _ => .exited 0
  { s with dbg := { s.dbg with breakpoints := [{ addr := 0x1000, savedByte := 0x90 }] } }

/-- `continue` in that state ends the debugger, which still has the pid of the process. -/
theorem continue_exit_fatal :
    atDisabled.dbg.state = .stopped ∧
      (runCommand .continueTok atDisabled).2.os.proc.isNone = true ∧
      (runCommand .continueTok atDisabled).1 = .fatal ∧
      ¬ (runCommand .continueTok atDisabled).2.dbg.LetGo :=
  ⟨rfl, by decide, by decide, fun h => absurd h.pid (by decide)⟩

theorem exit_outcome_step :
    ((runCommand .stepTok atDisabled).1 = .ok ∧ (runCommand .stepTok atDisabled).2.dbg.LetGo) ↔
      ¬ (Command.stepTok = .continueTok ∧ atDisabled.AtDisabled ∧ atDisabled.EndsNext) :=
  exit_outcome rfl rfl (by decide) (Option.isNone_iff_eq_none.mp (by decide))

end Debugger
