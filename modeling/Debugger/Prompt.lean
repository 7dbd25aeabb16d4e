/-
The prompt of the REPL: the debuggee is not running there.

A command other than `run` and `kill` that returns `ok` leaves the debugger stopped
or idle (`exec_prompt`): the commands that resume the debuggee wait for it, and the
others do not change the debugger's state.
-/
import Debugger.Control

open Prog

namespace Debugger

/-- The resumptions and stops in the trace. -/
def Sys.runLog (s : Sys) : List Obs := s.log.filter Obs.isRun

/-- The identity of a process and of its threads. -/
def Process.ids (p : Process) : ℕ × List UInt64 × List UInt64 :=
  (p.pid, p.usedTids, p.threads.map (·.tid))

/-- What only resuming, starting and ending the debuggee change. -/
structure Progress where
  state : DbgState
  pid : ℕ
  arch : Arch
  fault : KCall → ℕ → Bool
  ids : Option (ℕ × List UInt64 × List UInt64)
  log : List Obs

/-- How far the debuggee has got. -/
def Sys.progress (s : Sys) : Progress where
  state := s.dbg.state
  pid := s.dbg.pid
  arch := s.os.arch
  fault := s.os.fault
  ids := s.os.proc.map Process.ids
  log := s.runLog

theorem Sys.progress_sansReports (s : Sys) : s.sansReports.progress = s.progress := by
  have hids : s.sansReports.os.proc.map Process.ids = s.os.proc.map Process.ids := by
    rw [sansReports, sansProc, Option.map_map]
    refine congrArg (Option.map · s.os.proc) (funext fun p => ?_)
    simp [Process.ids, Process.sansReports, Process.eachThread]
  have hlog : s.sansReports.runLog = s.runLog := by
    simp [runLog, sansReports]
  rw [progress, hids, hlog]
  rfl

theorem Sys.progress_of_sansReports {s s' : Sys} (h : s'.sansReports = s.sansReports) :
    s'.progress = s.progress := by
  rw [← s'.progress_sansReports, h, s.progress_sansReports]

theorem Sys.progress_sansProc {f : Thread → Thread} (hf : ∀ t, (f t).tid = t.tid) (s : Sys) :
    (s.sansProc (·.eachThread f)).progress = s.progress := by
  have hids : (s.sansProc (·.eachThread f)).os.proc.map Process.ids =
      s.os.proc.map Process.ids := by
    rw [sansProc, Option.map_map]
    refine congrArg (Option.map · s.os.proc) (funext fun p => ?_)
    simp [Process.ids, Process.eachThread, hf]
  rw [progress, hids]
  rfl

/-! ### Commands that do not resume the debuggee -/

section Keeps

theorem modifyDbg_progress {f : Cdbg → Cdbg}
    (h : ∀ d, (f d).state = d.state ∧ (f d).pid = d.pid) :
    Keeps Sys.progress (modifyDbg f) := fun s => by
  rw [wp_modifyDbg, Sys.progress, Sys.progress, ← (h s.dbg).1, ← (h s.dbg).2]
  rfl

theorem keepsProgress_of_sansReports {α : Type} {m : DbgM α} (h : Keeps Sys.sansReports m) :
    Keeps Sys.progress m := h.mono fun _ _ => Sys.progress_of_sansReports

theorem keepsProgress_of_sansCalls {α : Type} {m : DbgM α} (h : Keeps Sys.sansCalls m) :
    Keeps Sys.progress m := h.mono fun s s' h =>
    show s'.sansCalls.progress = s.sansCalls.progress by rw [h]

theorem Sys.progress_of_sansHolds {s s' : Sys} (h : s'.sansHolds = s.sansHolds) :
    s'.progress = s.progress := by
  rw [← s'.progress_sansProc (f := fun t => { t with suspendCount := 0 }) fun _ => rfl,
    ← s.progress_sansProc (f := fun t => { t with suspendCount := 0 }) fun _ => rfl]
  exact congrArg Sys.progress h

theorem keepsProgress_of_sansHolds {α : Type} {m : DbgM α} (h : Keeps Sys.sansHolds m) :
    Keeps Sys.progress m := h.mono fun _ _ => Sys.progress_of_sansHolds

theorem keepsProgress_of_sansSlots {α : Type} {m : DbgM α} (h : Keeps Sys.sansSlots m) :
    Keeps Sys.progress m := h.mono fun s s' h => by
  rw [← s'.progress_sansProc (f := fun t => { t with dr := fun _ => none }) fun _ => rfl,
    ← s.progress_sansProc (f := fun t => { t with dr := fun _ => none }) fun _ => rfl]
  exact congrArg Sys.progress h

theorem cdbgBpEnable_progress (bp : Breakpoint) (pid : ℕ) (addr : Addr) :
    Keeps Sys.progress (cdbgBpEnable bp pid addr) := fun _ =>
  wp_mono (cdbgBpEnable_keeps bp addr) fun _ _ h =>
    Sys.progress_of_sansReports (Sys.sansReports_of_sansPatches h.2.1)

theorem cdbgBpDisable_progress (bp : Breakpoint) (pid : ℕ) :
    Keeps Sys.progress (cdbgBpDisable bp pid) := fun _ =>
  wp_mono (cdbgBpDisable_keeps bp) fun _ _ h =>
    Sys.progress_of_sansReports (Sys.sansReports_of_sansPatches h.2.1)

theorem cdbgRefreshRegs_progress : Keeps Sys.progress cdbgRefreshRegs :=
  keepsProgress_of_sansReports cdbgRefreshRegs_keepsReports

theorem cmdBreak_progress (target : CStr) : Keeps Sys.progress (cmdBreak target) := by
  refine Keeps.bind Keeps.get fun s => ?_
  split
  · exact Keeps.pure _
  · refine Keeps.ite (Keeps.pure _) (Keeps.bind (cdbgBpEnable_progress _ _ _) fun r => ?_)
    exact Keeps.ite (Keeps.pure _) (Keeps.bind (modifyDbg_progress fun _ => ⟨rfl, rfl⟩) fun _ => Keeps.pure _)

theorem deleteBreakpointAt_progress (index : ℕ) : Keeps Sys.progress (deleteBreakpointAt index) := by
  refine Keeps.bind Keeps.get fun s => ?_
  split
  · exact Keeps.pure _
  · have hdisable : ∀ bp, Keeps Sys.progress (disableIfLive s.dbg bp) := fun bp =>
      Keeps.ite (cdbgBpDisable_progress _ _) (Keeps.pure _)
    refine Keeps.bind (hdisable _) fun r => ?_
    exact Keeps.ite (Keeps.pure _) (Keeps.bind (modifyDbg_progress fun _ => ⟨rfl, rfl⟩) fun _ => Keeps.pure _)

theorem cmdDel_progress (args : Option CStr) : Keeps Sys.progress (cmdDel args) := by
  refine Keeps.bind Keeps.get fun s => Keeps.ite (Keeps.pure _) ?_
  split
  · exact Keeps.pure _
  · exact Keeps.pure _
  · split
    · exact Keeps.pure _
    · exact Keeps.forUntil fun i _ => deleteBreakpointAt_progress i

theorem shiftWatchpoint_progress (i : ℕ) : Keeps Sys.progress (shiftWatchpoint i) := by
  refine Keeps.bind Keeps.get fun s => Keeps.bind (modifyDbg_progress fun _ => ⟨rfl, rfl⟩) fun _ => ?_
  exact Keeps.ite (Keeps.bind (keepsProgress_of_sansSlots (cdbgWpHwInstall_keeps _ _ _ _ _)) fun _ =>
    Keeps.ite (Keeps.pure _) (Keeps.pure _)) (Keeps.pure _)

theorem cdbgWpHwUninstall_keeps (pid slot : ℕ) :
    Keeps Sys.sansSlots (cdbgWpHwUninstall pid slot) := by
  rw [cdbgWpHwUninstall]
  split
  · exact forEachThread_keeps _ _ _
  · exact Keeps.pure _

theorem deleteWatchpointAt_progress (index : ℕ) : Keeps Sys.progress (deleteWatchpointAt index) := by
  refine Keeps.bind Keeps.get fun s => Keeps.ite (Keeps.pure _) ?_
  have huninstall : Keeps Sys.progress (uninstallIfLive s.dbg index) :=
    Keeps.ite (keepsProgress_of_sansSlots (cdbgWpHwUninstall_keeps _ _)) (Keeps.pure _)
  refine Keeps.bind huninstall fun rc => Keeps.ite (Keeps.pure _) ?_
  refine Keeps.bind (Keeps.forUntil fun i _ => shiftWatchpoint_progress i) fun rc =>
    Keeps.ite (Keeps.pure _) (Keeps.bind Keeps.get fun s => ?_)
  exact Keeps.bind (modifyDbg_progress fun _ => ⟨rfl, rfl⟩) fun _ => Keeps.pure _

theorem cmdUnwatch_progress (args : Option CStr) : Keeps Sys.progress (cmdUnwatch args) := by
  refine Keeps.bind Keeps.get fun s => Keeps.ite (Keeps.pure _) ?_
  split
  · exact Keeps.pure _
  · exact Keeps.pure _
  · split
    · exact Keeps.pure _
    · exact Keeps.forUntil fun i _ => deleteWatchpointAt_progress i

theorem tryInstall_keeps (pid slot : ℕ) (addr : Addr) (mode : WpMode) (sizes : List ℕ) :
    Keeps Sys.sansSlots (tryInstall pid slot addr mode sizes) := by
  induction sizes with
  | nil => exact Keeps.pure _
  | cons size sizes ih =>
    exact Keeps.bind (cdbgWpHwInstall_keeps _ _ _ _ _) fun rc => Keeps.ite (Keeps.pure _) ih

theorem cmdWatch_progress (expr : Option CStr) (resolved : Option (Addr × ℕ)) :
    Keeps Sys.progress (cmdWatch expr resolved) := by
  refine Keeps.bind Keeps.get fun s => Keeps.ite (Keeps.pure _) ?_
  split
  · exact Keeps.pure _
  · exact Keeps.pure _
  · split
    · exact Keeps.pure _
    · refine Keeps.ite (Keeps.pure _) (Keeps.ite (Keeps.pure _) (Keeps.bind cdbgRefreshRegs_progress
        fun rc => Keeps.ite (Keeps.pure _) ?_))
      split
      · exact Keeps.pure _
      · refine Keeps.bind (keepsProgress_of_sansSlots (tryInstall_keeps _ _ _ _ _)) fun r => ?_
        cases r with
        | none => exact Keeps.pure _
        | some hwSize =>
          exact Keeps.bind (keepsProgress_of_sansCalls (cdbgMemRead_keeps _ _ _)) fun old =>
            Keeps.bind (modifyDbg_progress fun _ => ⟨rfl, rfl⟩) fun _ => Keeps.pure _

theorem cmdThread_progress (args : Option CStr) : Keeps Sys.progress (cmdThread args) := by
  refine Keeps.bind Keeps.get fun s => Keeps.ite (Keeps.pure _)
    (Keeps.bind (keepsProgress_of_sansCalls (cdbgThreadsList_keeps _)) fun r => ?_)
  cases r with
  | none => exact Keeps.pure _
  | some infos =>
    dsimp only
    split
    · exact Keeps.pure _
    · exact Keeps.pure _
    · split
      · exact Keeps.pure _
      · exact Keeps.bind (modifyDbg_progress fun _ => ⟨rfl, rfl⟩) fun _ => Keeps.bind cdbgRefreshRegs_progress
          fun rc => Keeps.ite (Keeps.pure _) (Keeps.pure _)

theorem resumeAll_keeps (pid : ℕ) (tids : List UInt64) :
    Keeps Sys.sansHolds (resumeAll pid tids) :=
  Keeps.forEach fun _ _ => Keeps.bind (cdbgThreadResume_keeps _ _) fun _ => Keeps.pure _

theorem lockLoop_progress (pid : ℕ) (target : UInt64) (infos : List ThreadInfo) :
    ∀ n, Keeps Sys.progress (lockLoop pid target infos n) := by
  induction infos with
  | nil => exact fun n => Keeps.pure _
  | cons t ts ih =>
    intro n
    refine Keeps.ite (ih n) (Keeps.bind (keepsProgress_of_sansHolds (cdbgThreadSuspend_keeps _ _)) fun rc => ?_)
    refine Keeps.ite (Keeps.bind Keeps.get fun s => ?_) ?_
    · exact Keeps.bind (keepsProgress_of_sansHolds (resumeAll_keeps _ _)) fun _ => Keeps.pure _
    · exact Keeps.bind (modifyDbg_progress fun _ => ⟨rfl, rfl⟩) fun _ => ih _

theorem cmdLock_progress (args : Option CStr) : Keeps Sys.progress (cmdLock args) := by
  refine Keeps.bind Keeps.get fun s => Keeps.ite (Keeps.pure _) ?_
  split
  · exact Keeps.pure _
  · exact Keeps.pure _
  · refine Keeps.ite (Keeps.pure _) (Keeps.bind (keepsProgress_of_sansCalls (cdbgThreadsList_keeps _))
      fun r => ?_)
    cases r with
    | none => exact Keeps.pure _
    | some infos =>
      dsimp only
      split
      · exact Keeps.pure _
      · refine Keeps.bind (lockLoop_progress _ _ _ _) fun r => ?_
        cases r with
        | none => exact Keeps.pure _
        | some n =>
          exact Keeps.bind (modifyDbg_progress fun _ => ⟨rfl, rfl⟩) fun _ => Keeps.bind cdbgRefreshRegs_progress
            fun rc => Keeps.ite (Keeps.pure _) (Keeps.pure _)

theorem unlockLoop_keeps (pid : ℕ) (tids : List UInt64) :
    ∀ rc, Keeps Sys.sansHolds (unlockLoop pid tids rc) := by
  induction tids with
  | nil => exact fun rc => Keeps.pure _
  | cons tid tids ih => exact fun rc => Keeps.bind (cdbgThreadResume_keeps _ _) fun _ => ih _

theorem cmdUnlock_progress : Keeps Sys.progress cmdUnlock :=
  Keeps.bind Keeps.get fun _ => Keeps.ite (Keeps.pure _) (Keeps.ite (Keeps.pure _)
    (Keeps.bind (keepsProgress_of_sansHolds (unlockLoop_keeps _ _ _)) fun _ =>
      Keeps.bind (modifyDbg_progress fun _ => ⟨rfl, rfl⟩) fun _ => Keeps.pure _))

theorem cmdSet_progress (assignment : Assignment) : Keeps Sys.progress (cmdSet assignment) := by
  cases assignment with
  | register name value =>
    refine Keeps.bind cdbgRefreshRegs_progress fun rc => Keeps.ite (Keeps.pure _)
      (Keeps.bind Keeps.get fun s => ?_)
    split
    · exact Keeps.pure _
    · exact Keeps.bind (modifyDbg_progress fun _ => ⟨rfl, rfl⟩) fun _ =>
        (keepsProgress_of_sansReports (cdbgRegsSet_keeps _ _ _))
  | scalar addr size value =>
    refine Keeps.bind cdbgRefreshRegs_progress fun rc => Keeps.ite (Keeps.pure _)
      (Keeps.bind Keeps.get fun s => ?_)
    exact (keepsProgress_of_sansReports ((cdbgMemWrite_keeps _ _).mono fun _ _ =>
      Sys.sansReports_of_sansPatches))

theorem cdbgMemReadU64_keeps (pid : ℕ) (addr : Addr) :
    Keeps Sys.sansCalls (cdbgMemReadU64 pid addr) :=
  Keeps.bind (cdbgMemRead_keeps _ _ _) fun _ => Keeps.pure _

theorem unwindFromStackTop_keeps (pid : ℕ) (regs : Regs) (sp : Addr) :
    Keeps Sys.sansCalls (unwindFromStackTop pid regs sp) := by
  cases regs with
  | arm native =>
    have hsaved : ∀ fp, Keeps Sys.sansCalls (savedFramePointer pid fp) := fun fp =>
      Keeps.ite (cdbgMemReadU64_keeps _ _) (Keeps.pure _)
    exact Keeps.ite (Keeps.pure _) (Keeps.bind (hsaved _) fun saved => Keeps.pure _)
  | x86 native =>
    refine Keeps.bind (cdbgMemReadU64_keeps _ _) fun r => ?_
    cases r with
    | none => exact Keeps.pure _
    | some retAddr => exact Keeps.ite (Keeps.pure _) (Keeps.pure _)

theorem frameRecord_keeps (pid : ℕ) (fp : Addr) : Keeps Sys.sansCalls (frameRecord pid fp) := by
  refine Keeps.ite (Keeps.pure _) (Keeps.bind (cdbgMemReadU64_keeps _ _) fun r => ?_)
  cases r with
  | none => exact Keeps.pure _
  | some savedFp =>
    refine Keeps.bind (cdbgMemReadU64_keeps _ _) fun r => ?_
    cases r with
    | none => exact Keeps.pure _
    | some retAddr => exact Keeps.pure _

theorem unwindFromFrame_keeps (pid : ℕ) (regs : Regs) :
    Keeps Sys.sansCalls (unwindFromFrame pid regs) := by
  refine Keeps.bind (frameRecord_keeps _ _) fun r => ?_
  cases r with
  | none => exact unwindFromStackTop_keeps _ _ _
  | some record => cases regs <;> exact Keeps.pure _

theorem cdbgRegsFrameUp_keeps (pid : ℕ) (regs : Regs) :
    Keeps Sys.sansCalls (cdbgRegsFrameUp pid regs) := by
  cases regs with
  | arm native => exact unwindFromFrame_keeps _ _
  | x86 native =>
    refine Keeps.bind (cdbgMemRead_keeps _ _ _) fun r => ?_
    split
    · exact unwindFromStackTop_keeps _ _ _
    · exact unwindFromFrame_keeps _ _

theorem cdbgFrameUp_progress : Keeps Sys.progress cdbgFrameUp := by
  refine Keeps.bind cdbgRefreshRegs_progress fun rc => Keeps.ite (Keeps.pure _)
    (Keeps.bind Keeps.get fun s => ?_)
  refine Keeps.bind (keepsProgress_of_sansCalls (cdbgRegsFrameUp_keeps _ _)) fun r => ?_
  cases r with
  | none => exact Keeps.pure _
  | some regs =>
    exact Keeps.bind (modifyDbg_progress fun _ => ⟨rfl, rfl⟩) fun _ =>
      Keeps.bind (keepsProgress_of_sansReports (cdbgRegsSet_keeps _ _ _)) fun rc =>
        Keeps.ite (Keeps.pure _) (Keeps.pure _)

end Keeps

/-! ### The prompt -/

/-- The command resumes the debuggee and waits for it. -/
def Command.resumes : Command → Bool
  | .continueTok | .stepTok | .siTok | .nextTok => true
  | _ => false

/-- The command single-steps the debuggee. -/
def Command.steps : Command → Bool
  | .stepTok | .siTok | .nextTok => true
  | _ => false

/-- The command starts or ends a debuggee. -/
def Command.restarts : Command → Bool
  | .runTok _ | .killTok => true
  | _ => false

/-- A command that only looks at and edits the stopped debuggee does not change the
debugger's state and does not let the debuggee run. -/
theorem exec_progress {c : Command} (hr : c.resumes = false) (hs : c.restarts = false) :
    Keeps Sys.progress (exec c) := by
  have hignore : ∀ {m : DbgM Int}, Keeps Sys.progress m → Keeps Sys.progress (ignoringCode m) :=
    fun hm => Keeps.bind hm fun _ => Keeps.pure _
  cases c with
  | runTok argv => simp [Command.restarts] at hs
  | continueTok => simp [Command.resumes] at hr
  | stepTok => simp [Command.resumes] at hr
  | siTok => simp [Command.resumes] at hr
  | nextTok => simp [Command.resumes] at hr
  | upTok => exact hignore cdbgFrameUp_progress
  | regsTok => exact Keeps.bind cdbgRefreshRegs_progress fun _ => Keeps.ite (Keeps.pure _) (Keeps.pure _)
  | setTok assignment => exact hignore (cmdSet_progress _)
  | threadTok args => exact hignore (cmdThread_progress _)
  | lockTok args => exact hignore (cmdLock_progress _)
  | unlockTok => exact hignore cmdUnlock_progress
  | breakTok target => exact hignore (cmdBreak_progress _)
  | delTok args => exact hignore (cmdDel_progress _)
  | watchTok expr resolved => exact hignore (cmdWatch_progress _ _)
  | unwatchTok args => exact hignore (cmdUnwatch_progress _)
  | killTok => simp [Command.restarts] at hs

/-- Nothing is known at any control point, except that the debuggee has stopped or ended
when a command succeeds. -/
def statePoints : ControlPoints where
  ready _ _ _ := True
  waiting _ _ _ := True
  arrived _ _ _ := True
  settled _ _ := True
  reported _ _ := True
  failed _ _ _ := True
  prompt o s := o = .ok → s.dbg.state ≠ .running

private theorem code_trivial {α : Type} {m : StateM Sys α} {s : Sys} {f : α → Int} :
    wp m (fun a => onCode (fun _ => True) (fun _ => True) (f a)) s :=
  wp_mono (wp_true m) fun _ _ _ => ⟨fun _ => trivial, fun _ => trivial⟩

theorem statePoints_sound : statePoints.SoundNext where
  readyQuiet _ _ := trivial
  settledQuiet _ _ := trivial
  settle _ := trivial
  goOn _ _ _ := trivial
  leave _ _ _ := trivial
  giveUp _ := trivial
  refreshReady _ := code_trivial
  refreshSettled _ := code_trivial
  catchUp _ := wp_true _
  singleStep _ := code_trivial
  «continue» _ _ := code_trivial
  wait _ := code_trivial
  report _ := wp_true _
  reportAtTrap _ _ _ := code_trivial
  watch _ _ _ := wp_true _
  endArrived _ := wp_true _
  endReported _ := wp_true _
  endFailed _ := wp_true _
  done hst _ _ := by rw [hst]; decide
  exit hi _ _ h := absurd (hi.symm.trans h) (by decide)
  fatal _ _ h := absurd h (by decide)
  tempEnable _ _ := code_trivial
  dropTemp _ := wp_true _
  finishTemp _ _ := code_trivial

private theorem idle_or_stopped {s : Sys} (h : s.dbg.state ≠ .running) :
    s.dbg.state = .idle ∨ s.dbg.state = .stopped := by
  cases hst : s.dbg.state with
  | idle => exact .inl rfl
  | running => exact absurd hst h
  | stopped => exact .inr rfl

/-- The command goes ahead: the debuggee is stopped, and for a stepping command the primary
thread is selected. -/
def Sys.Admits (s : Sys) (c : Command) : Prop :=
  s.dbg.state = .stopped ∧ (c = .continueTok ∨ s.dbg.currentTid = tidPrimary)

/-- A command that is not admitted does nothing. -/
theorem resumes_skip {c : Command} {s : Sys} (hc : c.resumes = true)
    (hst : s.dbg.state ≠ .running) (hno : ¬ s.Admits c) :
    wp (exec c) (fun o s' => o = .ok ∧ s' = s) s := by
  have hskip : c ≠ .continueTok → ¬ s.dbg.state = .idle →
      (!requirePrimaryThreadForStep s.dbg) = true := by
    intro hc hi
    have ht : s.dbg.currentTid ≠ tidPrimary := fun ht =>
      hno ⟨(idle_or_stopped hst).resolve_left hi, .inr ht⟩
    simp [requirePrimaryThreadForStep, ht]
  have hstep : ∀ {f : DbgM Int}, c ≠ .continueTok →
      wp (replStepWith f) (fun o s' => o = .ok ∧ s' = s) s := by
    intro f hc
    rw [replStepWith, wp_bind, wp_get, wp_ite]
    refine ⟨fun _ => ⟨rfl, rfl⟩, fun hi => ?_⟩
    rw [wp_ite]
    exact ⟨fun _ => ⟨rfl, rfl⟩, fun h => absurd (hskip hc hi) h⟩
  cases c with
  | stepTok => exact hstep Command.noConfusion
  | nextTok => exact hstep Command.noConfusion
  | siTok =>
    show wp cdbgReplCmdSi _ s
    rw [cdbgReplCmdSi, wp_bind, wp_get, wp_ite]
    refine ⟨fun _ => ⟨rfl, rfl⟩, fun hi => ?_⟩
    rw [wp_ite]
    exact ⟨fun _ => ⟨rfl, rfl⟩, fun h => absurd (hskip Command.noConfusion hi) h⟩
  | continueTok =>
    show wp cdbgReplCmdContinue _ s
    rw [cdbgReplCmdContinue, wp_bind, wp_get, wp_ite]
    refine ⟨fun _ => ⟨rfl, rfl⟩, fun hi => ?_⟩
    exact absurd ⟨(idle_or_stopped hst).resolve_left hi, .inl rfl⟩ hno
  | _ => simp [Command.resumes] at hc

/-- The stepping commands. -/
theorem steps_cases {P : ControlPoints} (hP : P.Sound) {c : Command} {s : Sys}
    (hnext : c = .nextTok → P.SoundNext) (hc : c.steps = true) (hst : s.dbg.state ≠ .running)
    (hnop : P.prompt .ok s) (hready : s.Admits c → P.ready [] none s) :
    wp (exec c) P.prompt s := by
  by_cases hgo : s.Admits c
  · have hcont : c ≠ .continueTok := by rintro rfl; simp [Command.steps] at hc
    have hprim : requirePrimaryThreadForStep s.dbg = true := by
      simp [requirePrimaryThreadForStep, hgo.2.resolve_left hcont]
    cases c with
    | stepTok => exact hP.step (hready hgo) hgo.1 hprim
    | nextTok => exact (hnext rfl).next (hready hgo) hgo.1 hprim
    | siTok => exact hP.si (hready hgo) hgo.1 hprim
    | _ => simp [Command.steps] at hc
  · have hres : c.resumes = true := by
      cases c <;> simp_all [Command.steps, Command.resumes]
    refine wp_mono (resumes_skip hres hst hgo) fun o s' h => ?_
    rw [h.1, h.2]
    exact hnop

/-- The commands that resume the debuggee. -/
theorem resumes_cases {P : ControlPoints} (hP : P.SoundNext) {c : Command} {s : Sys}
    (hfatal : ∀ {s}, P.failed [] none s → P.prompt .fatal s)
    (hc : c.resumes = true) (hst : s.dbg.state ≠ .running) (hnop : P.prompt .ok s)
    (hready : s.Admits c → P.ready [] none s) : wp (exec c) P.prompt s := by
  by_cases hcont : c = .continueTok
  · subst hcont
    by_cases hgo : s.Admits .continueTok
    · exact hP.continueCmd hfatal (hready hgo) hgo.1
    · refine wp_mono (resumes_skip hc hst hgo) fun o s' h => ?_
      rw [h.1, h.2]
      exact hnop
  · have hsteps : c.steps = true := by
      cases c <;> simp_all [Command.resumes, Command.steps]
    exact steps_cases hP.toSound (fun _ => hP) hsteps hst hnop hready

/-- The commands that report every stop: `continue` and `si`, and any command that resumes
where there is no line information. -/
theorem reports_cases {P : ControlPoints} (hP : P.SoundReport) {c : Command} {s : Sys}
    (hfatal : ∀ {s}, P.failed [] none s → P.prompt .fatal s) (hc : c.resumes = true)
    (hline : c = .stepTok ∨ c = .nextTok → s.NoLine) (hst : s.dbg.state ≠ .running)
    (hnop : P.prompt .ok s) (hready : s.Admits c → P.ready [] none s) :
    wp (exec c) P.prompt s := by
  by_cases hgo : s.Admits c
  · have hprim : c ≠ .continueTok → requirePrimaryThreadForStep s.dbg = true := fun hcont => by
      simp [requirePrimaryThreadForStep, hgo.2.resolve_left hcont]
    cases c with
    | continueTok => exact hP.continueCmd hfatal (hready hgo) hgo.1
    | siTok => exact hP.si (hready hgo) hgo.1 (hprim Command.noConfusion)
    | stepTok =>
      exact hP.replStepWith (hP.stepLines_noLine (hline (.inl rfl)) (hready hgo)) hgo.1
        (hprim Command.noConfusion)
    | nextTok =>
      exact hP.replStepWith (hP.stepLines_noLine (hline (.inr rfl)) (hready hgo)) hgo.1
        (hprim Command.noConfusion)
    | _ => simp [Command.resumes] at hc
  · refine wp_mono (resumes_skip hc hst hgo) fun o s' h => ?_
    rw [h.1, h.2]
    exact hnop

/-- An invariant of the actions is an invariant of the commands that resume the debuggee. -/
theorem Invariant.resumes {I : Sys → Prop} (hI : Invariant I) {c : Command} {s : Sys}
    (hc : c.resumes = true) (hst : s.dbg.state ≠ .running) (h : I s) :
    wp (exec c) (fun _ => I) s := resumes_cases hI.sound id hc hst h fun _ => h

/-- A command that neither starts nor ends a debuggee comes back to a prompt. -/
theorem exec_prompt {c : Command} {s : Sys} (hc : c.restarts = false)
    (hst : s.dbg.state ≠ .running) :
    wp (exec c) (fun o s' => o = .ok → s'.dbg.state ≠ .running) s := by
  cases hr : c.resumes with
  | true =>
    exact resumes_cases statePoints_sound (fun _ h => absurd h (by decide)) hr hst (fun _ => hst)
      fun _ => trivial
  | false =>
    refine wp_mono (exec_progress hr hc s) fun o s' h _ => ?_
    rw [show s'.dbg.state = s.dbg.state from congrArg Progress.state h]
    exact hst

/-- The debuggee runs at no prompt of a session without `run` and `kill`. -/
theorem Reaches.prompt {ok : Command → Sys → Sys → Prop} {s₀ s : Sys} (h : Reaches ok s₀ s)
    (hok : ∀ c s s', ok c s s' → c.restarts = false) (hst : s₀.dbg.state ≠ .running) :
    s.dbg.state ≠ .running := by
  induction h with
  | start => exact hst
  | @command s c _ hc hrc ih => exact exec_prompt (s := s.unlogged) (hok _ _ _ hc) ih hrc

end Debugger
