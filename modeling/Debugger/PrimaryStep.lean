/-
Single steps go to the primary thread.

`PT_STEP` steps the primary thread, whatever thread is selected, and hangs when that
thread is suspended.  `step`, `si` and `next` check that the primary thread is selected
when they begin.  They do not ask whether `lock` holds it back, `next` goes on after a
stop in which `report_stop` has selected another thread, and `continue` single-steps off
a disabled breakpoint in whatever thread is selected.  As long as none of this happens,
every single step is one the primary thread can take (`steps_primary`).
-/
import Debugger.Report

open Prog

namespace Debugger

/-- `lock` does not hold the primary thread back. -/
def Process.PrimaryFree (p : Process) (d : Cdbg) : Prop :=
  ∀ t, p.primary = some t → t.tid ∉ d.lockedOut

/-- Some thread other than the primary one stands at the trap of a table entry. -/
def Process.OthersTrapped (p : Process) (arch : Arch) (bps : List Breakpoint) : Prop :=
  ∃ i ∈ p.threadInfos, i.isPrimary = false ∧ ∃ t, p.thread i.tid = some t ∧
    ∃ bp ∈ bps, cdbgBpMatchesPc arch t.regs.pc { bp with enabled := true } = true

/-- A single step is for the primary thread: it is selected and not held back. -/
def Obs.StepsPrimary : Obs → Prop
  | .resume .step d p => d.currentTid = tidPrimary ∧ p.PrimaryFree d
  | _ => True

/-- The stops in the trace let a stepping command go on: the primary thread is free, and
no other thread has hit a breakpoint while the whole process ran. -/
structure SafeStops (arch : Arch) (log : List Obs) : Prop where
  free : ∀ d p, .stop d p ∈ log → p.PrimaryFree d
  alone : ∀ d p d' p' l, .stop d p :: .resume .cont d' p' :: l <:+ log →
    ¬ p.OthersTrapped arch d.breakpoints

/-- The primary thread is there to be stepped. -/
def Sys.PrimaryFree (s : Sys) : Prop := ∀ p, s.os.proc = some p → p.PrimaryFree s.dbg

/-- The command `c` from `s` to `s'` steps nothing but a free primary thread. -/
structure PrimaryReady (c : Command) (s s' : Sys) : Prop where
  stepping : c.steps = true → s.dbg.state = .stopped → s.dbg.currentTid = tidPrimary →
    s.PrimaryFree ∧ SafeStops s'.os.arch s'.runLog.tail
  continuing : c = .continueTok → s.dbg.state = .stopped → s.AtDisabled →
    s.dbg.currentTid = tidPrimary ∧ s.PrimaryFree

/-! ### What the single steps depend on -/

section Views

variable {s s' : Sys}

/-- Whether the primary thread is free depends on the ids of the threads only. -/
theorem Process.PrimaryFree.of_tids {p p' : Process} {d d' : Cdbg}
    (htids : p'.threads.map (·.tid) = p.threads.map (·.tid)) (hd : d'.lockedOut = d.lockedOut)
    (h : p.PrimaryFree d) : p'.PrimaryFree d' := by
  intro t' ht'
  have hhead : p'.primary.map (·.tid) = p.primary.map (·.tid) := by
    rw [primary, primary, ← List.head?_map, ← List.head?_map, htids]
  rw [ht', Option.map_some] at hhead
  obtain ⟨t, ht, heq⟩ := Option.map_eq_some_iff.mp hhead.symm
  rw [hd, ← heq]
  exact h t ht

theorem Process.OthersTrapped.of_places {p p' : Process} {arch : Arch} {bps bps' : List Breakpoint}
    (hp : p'.places = p.places) (hbps : bps'.map Breakpoint.place = bps.map Breakpoint.place)
    (h : p'.OthersTrapped arch bps') : p.OthersTrapped arch bps := by
  obtain ⟨i, hi, hprim, t', ht', bp', hbp', hmatch⟩ := h
  obtain ⟨t, ht, -, hregs⟩ := thread_of_places hp ht'
  obtain ⟨bp, hbp, hplace⟩ := exists_mem_of_map_eq hbps hbp'
  refine ⟨i, threadInfos_of_tids (tids_of_places hp) ▸ hi, hprim, t, ht, bp, hbp, ?_⟩
  have haddr : bp.place.addr = bp'.place.addr := by rw [hplace]
  replace haddr : bp.addr = bp'.addr := haddr
  rw [hregs]
  simpa [cdbgBpMatchesPc, haddr] using hmatch

theorem Sys.PrimaryFree.of_scene (hv : s'.scene = s.scene) (h : s.PrimaryFree) :
    s'.PrimaryFree := by
  intro p' hp'
  obtain ⟨p, hp, hplaces⟩ := Sys.proc_of_scene hv hp'
  exact (h p hp).of_tids (Process.tids_of_places hplaces) (congrArg (·.2.2.2.2.1) hv)

theorem Sys.PrimaryFree.of_sansReports (hv : s'.sansReports = s.sansReports) (h : s.PrimaryFree) :
    s'.PrimaryFree := by
  intro p' hp'
  obtain ⟨p, hp, hpp⟩ := Sys.proc_of_sansReports hv hp'
  exact (h p hp).of_tids (Process.tids_of_sansReports hpp)
    (show s'.sansReports.dbg.lockedOut = s.sansReports.dbg.lockedOut by rw [hv])

end Views

/-! ### Reporting a stop keeps the primary thread selected -/

section Selected

variable {s : Sys}

/-- No thread but the primary one has hit a breakpoint. -/
def Sys.Alone (s : Sys) : Prop :=
  ∀ p, s.os.proc = some p → ¬ p.OthersTrapped s.os.arch s.dbg.breakpoints

theorem Sys.Alone.of_scene {s' : Sys} (hv : s'.scene = s.scene) (h : s.Alone) : s'.Alone := by
  intro p' hp' hothers
  obtain ⟨p, hp, hplaces⟩ := Sys.proc_of_scene hv hp'
  have hbps : s'.dbg.breakpoints.map Breakpoint.place = s.dbg.breakpoints.map Breakpoint.place :=
    congrArg (·.2.2.2.2.2) hv
  rw [show s'.os.arch = s.os.arch from congrArg (·.1) hv] at hothers
  exact h p hp (hothers.of_places hplaces hbps)

theorem switchCurrentTid_primary (hsel : s.selection = tidPrimary) (h : s.Alone) :
    wp switchCurrentTidToBreakpointHit (fun _ s' => s'.selection = tidPrimary) s := by
  refine wp_switchCurrentTidToBreakpointHit (fun s' hq _ => ?_)
    fun p before i after t s' hinfos hp ht _ hq => ?_
  · obtain ⟨n, rfl⟩ := hq
    exact hsel
  · obtain ⟨n, rfl⟩ := hq
    obtain ⟨hproc, -⟩ := Sys.process_eq_some.mp hp
    show i.selector = tidPrimary
    rw [ThreadInfo.selector]
    split
    · rfl
    · next hprim =>
      refine absurd ?_ (h p hproc)
      have hmem : i ∈ p.threadInfos := by
        refine List.mem_of_mem_take (i := maxThreads) ?_
        rw [hinfos]
        simp
      obtain ⟨bp, hbp, hmatch⟩ := List.any_eq_true.mp ht.2
      refine ⟨i, hmem, by simpa using hprim, t, ?_, bp, hbp, ?_⟩
      · have hsome := ht.1
        rwa [ThreadInfo.selector, if_neg hprim] at hsome
      · have henabled : bp.enabled = true := by
          simp only [cdbgBpMatchesPc, Bool.and_eq_true] at hmatch
          exact hmatch.1
        have hself : { bp with enabled := true } = bp := by
          rw [← henabled]
        rw [hself]
        exact hmatch

theorem reportStop_primary (hsel : s.selection = tidPrimary) (h : s.Alone) :
    wp reportStop (fun _ s' => s'.selection = tidPrimary) s := by
  rw [reportStop, wp_bind]
  refine wp_mono (resyncWatchpointsToAllThreads_keeps.wp_and
    (keepsScene_of_sansSlots resyncWatchpointsToAllThreads_keeps s)) fun _ s₁ h₁ => ?_
  have hsel₁ : s₁.selection = tidPrimary := (congrArg (·.dbg.currentTid) h₁.2).trans hsel
  rw [wp_bind]
  refine wp_mono (switchCurrentTid_primary hsel₁ (h.of_scene h₁.1)) fun _ s₂ h₂ => ?_
  exact wp_mono (reportSelected_keeps s₂) fun _ _ hv => (Sys.selection_of_sansHits hv).trans h₂

theorem finishTempBreakpoint_primary {t : Breakpoint} (hsel : s.selection = tidPrimary)
    (h : s.Alone) : wp (finishTempBreakpoint t) (fun _ s' => s'.selection = tidPrimary) s := by
  have hdrop : ∀ s₁, wp (dropTempBreakpoint t) (fun _ s₂ => s₂.selection = s₁.selection) s₁ :=
    fun s₁ => wp_mono (dropTempBreakpoint_keeps t s₁) fun _ _ => Sys.selection_of_sansPatches
  rw [finishTempBreakpoint, wp_bind]
  refine wp_mono (wp_and (cdbgRefreshRegs_keeps s) (keepsScene_of_sansPatches
    cdbgRefreshRegs_keeps s)) fun rc s₁ h₁ => ?_
  have hsel₁ := (Sys.selection_of_sansPatches h₁.1).trans hsel
  rw [wp_ite]
  refine ⟨fun _ => ?_, fun _ => ?_⟩
  · rw [wp_bind]
    exact wp_mono (hdrop s₁) fun _ _ h => h.trans hsel₁
  · rw [wp_bind, wp_get, wp_ite]
    refine ⟨fun _ => ?_, fun _ => ?_⟩
    · rw [wp_bind]
      refine wp_mono (wp_and (hdrop s₁) (keepsScene_of_sansPatches (dropTempBreakpoint_keeps t) s₁))
        fun _ s₂ h₂ => ?_
      exact reportStop_primary (h₂.1.trans hsel₁) (h.of_scene (h₂.2.trans h₁.2))
    · have hrest : ∀ s₂ : Sys, wp (if s₁.os.arch = .x86_64 then do
            setRegs (s₁.dbg.regs.setPc t.addr)
            if (← cdbgRegsSet s₁.dbg.pid s₁.dbg.currentTid (s₁.dbg.regs.setPc t.addr)) ≠ 0 then
              return -1
            return (0 : Int)
          else return 0) (fun _ s₃ => s₃.selection = s₂.selection) s₂ :=
        Keeps.ite (Keeps.bind (fun _ => rfl) fun _ => Keeps.bind ((cdbgRegsSet_keepsHits _ _ _).mono
          fun _ _ => Sys.selection_of_sansHits) fun _ => Keeps.ite (Keeps.pure _) (Keeps.pure _))
          (Keeps.pure _)
      rw [wp_bind]
      refine wp_mono (cdbgBpDisable_keeps t) fun r s₂ h₂ => ?_
      have hsel₂ : s₂.selection = tidPrimary :=
        (Sys.selection_of_sansPatches h₂.2.1).trans hsel₁
      obtain ⟨rc', bp⟩ := r
      show wp (if rc' ≠ 0 then _ else _) _ _
      rw [wp_ite]
      exact ⟨fun _ => hsel₂, fun _ => wp_mono (hrest s₂) fun _ _ h => h.trans hsel₂⟩

end Selected

/-! ### The single steps of a command -/

section Steps

variable {s s' : Sys}

/-- All single steps in the trace are for the primary thread. -/
def Sys.StepsPrimary (s : Sys) : Prop := ∀ o ∈ s.runLog, o.StepsPrimary

/-- If the stops before the last event let the command go on, its single steps so far
have been for the primary thread. -/
def Sys.Stepped (s : Sys) : Prop := SafeStops s.os.arch s.runLog.tail → s.StepsPrimary

/-- The primary thread can be stepped. -/
def Sys.Steppable (s : Sys) : Prop := s.dbg.currentTid = tidPrimary ∧ s.PrimaryFree

theorem Sys.StepsPrimary.of_log (hlog : s'.runLog = s.runLog) (h : s.StepsPrimary) :
    s'.StepsPrimary := fun o ho => h o (hlog ▸ ho)

/-- Resuming adds an event, which has to be for the primary thread if it is a step. -/
theorem Sys.StepsPrimary.resumedAs {kind : Resume} {p : Process} (h : s.StepsPrimary)
    (hstep : (Obs.resume kind s.dbg p).StepsPrimary) (hq : (s.resumedAs kind p).Quiet s') :
    s'.StepsPrimary := by
  obtain ⟨n, rfl⟩ := hq
  intro o ho
  rcases List.mem_cons.mp (show o ∈ .resume kind s.dbg p :: s.runLog from ho) with rfl | ho
  · exact hstep
  · exact h o ho

theorem SafeStops.tail {arch : Arch} {o : Obs} {log : List Obs} (h : SafeStops arch (o :: log)) :
    SafeStops arch log :=
  ⟨fun d p hm => h.free d p (List.mem_cons_of_mem _ hm),
    fun d p d' p' l hs => h.alone d p d' p' l (hs.trans (List.suffix_cons o log))⟩

theorem SafeStops.drop {arch : Arch} {log : List Obs} (h : SafeStops arch log) :
    SafeStops arch log.tail := by
  cases log with
  | nil => exact h
  | cons o log => exact h.tail

theorem Sys.Stepped.of_log (harch : s'.os.arch = s.os.arch) (hlog : s'.runLog = s.runLog)
    (h : s.Stepped) : s'.Stepped := by
  intro hsafe
  rw [harch, hlog] at hsafe
  exact (h hsafe).of_log hlog

theorem Sys.Stepped.of_scene (hv : s'.scene = s.scene) (h : s.Stepped) : s'.Stepped :=
  h.of_log (congrArg (·.1) hv) (congrArg (·.2.1) hv)

theorem Sys.Stepped.of_sansReports (hv : s'.sansReports = s.sansReports) (h : s.Stepped) :
    s'.Stepped :=
  h.of_log (congrArg (·.os.arch) hv) (congrArg (·.log) hv)

theorem Sys.Stepped.keeps {α : Type} {m : DbgM α} (hm : Keeps Sys.sansReports m) (h : s.Stepped) :
    wp m (fun _ s' => s'.Stepped) s := wp_mono (hm s) fun _ _ hv => h.of_sansReports hv

theorem Sys.Steppable.of_scene (hv : s'.scene = s.scene) (h : s.Steppable) : s'.Steppable :=
  ⟨(congrArg (·.2.2.2.1) hv).trans h.1, h.2.of_scene hv⟩

/-- The debuggee may be resumed: a safe last stop leaves the primary thread steppable. -/
def Sys.MayStep (s : Sys) : Prop :=
  s.Stepped ∧ (SafeStops s.os.arch s.runLog → s.Steppable)

/-- The debuggee runs; `cont` when all of it was resumed. -/
def Sys.MayStop (cont : Prop) (s : Sys) : Prop :=
  s.Stepped ∧ (SafeStops s.os.arch s.runLog → s.dbg.currentTid = tidPrimary) ∧
    (cont → ∃ d p l, s.runLog = .resume .cont d p :: l)

/-- The debuggee has stopped. -/
def Sys.HasStopped (cont : Prop) (s : Sys) : Prop :=
  s.MayStep ∧ (cont → SafeStops s.os.arch s.runLog → s.Alone)

theorem Sys.MayStep.of_scene (hv : s'.scene = s.scene) (h : s.MayStep) : s'.MayStep := by
  refine ⟨h.1.of_scene hv, fun hsafe => (h.2 ?_).of_scene hv⟩
  rw [show s'.os.arch = s.os.arch from congrArg (·.1) hv,
    show s'.runLog = s.runLog from congrArg (·.2.1) hv] at hsafe
  exact hsafe

theorem Sys.HasStopped.of_scene {cont : Prop} (hv : s'.scene = s.scene) (h : s.HasStopped cont) :
    s'.HasStopped cont := by
  refine ⟨h.1.of_scene hv, fun hcont hsafe => (h.2 hcont ?_).of_scene hv⟩
  rw [show s'.os.arch = s.os.arch from congrArg (·.1) hv,
    show s'.runLog = s.runLog from congrArg (·.2.1) hv] at hsafe
  exact hsafe

theorem Sys.Stepped.resumedAs {kind : Resume} {p : Process} (h : s.Stepped)
    (hstep : SafeStops s.os.arch s.runLog → (Obs.resume kind s.dbg p).StepsPrimary)
    (hq : (s.resumedAs kind p).Quiet s') : s'.Stepped := by
  intro hsafe
  replace hsafe : SafeStops s.os.arch s.runLog := by
    obtain ⟨n, rfl⟩ := hq
    exact hsafe
  exact (h hsafe.drop).resumedAs (hstep hsafe) hq

theorem Sys.MayStep.wp_singleStep (h : s.MayStep) (cont : Prop) (hcont : ¬ cont) :
    wp cdbgSingleStep (onCode (fun s' => s'.MayStop cont) fun s' => s'.Stepped) s := by
  refine wp_cdbgSingleStep (fun s' hq _ => onCode_neg_one.mpr (h.1.of_scene (Sys.scene_of_quiet hq)))
    fun p s' hp hq => onCode_zero.mpr ⟨h.1.resumedAs (fun hsafe => ?_) hq, fun hsafe => ?_,
      fun hc => absurd hc hcont⟩
  · obtain ⟨hsel, hfree⟩ := h.2 hsafe
    exact ⟨hsel, hfree p (Sys.process_eq_some.mp hp).1⟩
  · obtain ⟨n, rfl⟩ := hq
    exact (h.2 (SafeStops.tail hsafe)).1

theorem Sys.MayStop.wp_wait {cont : Prop} (h : s.MayStop cont) :
    wp cdbgWait (onCode (fun s' => s'.HasStopped cont) fun s' => s'.Stepped) s := by
  refine wp_cdbgWait (fun s' hq _ => onCode_neg_one.mpr (h.1.of_scene (Sys.scene_of_quiet hq)))
    (fun p s' _ _ he => ?_) fun p sig ms s' hp _ _ hq => ?_
  · obtain ⟨status, waits, calls, rfl⟩ := he
    exact (onCode_of_ne (by decide)).mpr (h.1.of_log rfl rfl)
  · have hstopped : s'.HasStopped cont := by
      obtain ⟨n, rfl⟩ := hq
      refine ⟨⟨fun hsafe o ho => ?_, fun hsafe => ⟨h.2.1 hsafe.tail, fun q hq => ?_⟩⟩,
        fun hc hsafe q hq => ?_⟩
      · rcases List.mem_cons.mp (show o ∈ .stop _ _ :: s.runLog from ho) with rfl | ho
        · exact trivial
        · exact h.1 (SafeStops.drop hsafe) o ho
      · obtain rfl := Option.some.inj hq
        exact hsafe.free { s.dbg with waitStatus := .stopped sig } _ List.mem_cons_self
      · obtain rfl := Option.some.inj hq
        obtain ⟨d, p', l, hlog⟩ := h.2.2 hc
        refine hsafe.alone { s.dbg with waitStatus := .stopped sig } _ d p' l ?_
        rw [← hlog]
        exact List.suffix_refl _
    refine wp_mono (keepsScene_of_sansPatches reenableBreakpointsAfterStep_keeps s')
      fun rc s'' hv => ⟨fun _ => onCode_zero.mpr (hstopped.of_scene hv), fun _ =>
        onCode_neg_one.mpr (hstopped.1.1.of_scene hv)⟩

theorem Sys.MayStep.wp_continue (hst : s.dbg.state = .stopped) (h : s.MayStep) :
    wp cdbgContinue (onCode (fun s' => s'.MayStop True) fun s' => s'.Stepped) s := by
  refine cdbgContinue_rule (I := Sys.MayStep) (W := Sys.MayStop False) (C := Sys.MayStep)
    hst (fun _ => h) (fun _ => ?_) (fun s' h' => h'.wp_singleStep False id)
    (fun s' h' => wp_mono h'.wp_wait fun _ _ h'' => onCode_mono h'' (·.1) id)
    (fun s' h' s'' hq _ => h'.1.of_scene (Sys.scene_of_quiet hq)) fun s' h' p s'' _ hq => ?_
  · refine wp_mono (keepsScene_of_sansPatches cdbgRefreshRegs_keeps s) fun rc s' hv => ?_
    exact ⟨fun _ => ⟨fun _ => h.of_scene hv, fun _ => h.of_scene hv⟩, fun _ => h.1.of_scene hv⟩
  · have hcont : (Obs.resume .cont s'.dbg p).StepsPrimary := trivial
    refine ⟨h'.1.resumedAs (fun _ => hcont) hq, fun hsafe => ?_, fun _ => ?_⟩
    · obtain ⟨n, rfl⟩ := hq
      exact (h'.2 (SafeStops.tail hsafe)).1
    · obtain ⟨n, rfl⟩ := hq
      exact ⟨_, _, _, rfl⟩

/-- The control points of `step`, `si` and `next`. -/
def primaryPoints : ControlPoints where
  ready _ _ := Sys.MayStep
  waiting _ t := Sys.MayStop (t ≠ none)
  arrived _ t := Sys.HasStopped (t ≠ none)
  settled _ := Sys.MayStep
  reported _ := Sys.Stepped
  failed _ _ := Sys.Stepped
  prompt _ := Sys.Stepped

theorem Sys.MayStep.finishTemp {t : Breakpoint} (h : s.HasStopped True) :
    wp (finishTempBreakpoint t) (fun _ s' => s'.MayStep) s := by
  have hkeeps := finishTempBreakpoint_keeps t s
  by_cases hsafe : SafeStops s.os.arch s.runLog
  · obtain ⟨hsel, hfree⟩ := h.1.2 hsafe
    refine wp_mono (wp_and hkeeps (finishTempBreakpoint_primary hsel (h.2 trivial hsafe)))
      fun _ s' h' => ⟨h.1.1.of_sansReports h'.1, fun _ => ⟨h'.2, hfree.of_sansReports h'.1⟩⟩
  · refine wp_mono hkeeps fun _ s' hv => ⟨h.1.1.of_sansReports hv, fun hsafe' => absurd ?_ hsafe⟩
    rw [show s'.os.arch = s.os.arch from congrArg (·.os.arch) hv,
      show s'.runLog = s.runLog from congrArg (·.log) hv] at hsafe'
    exact hsafe'

theorem primaryPoints_sound : primaryPoints.SoundNext := by
  have hcode : ∀ {m : DbgM Int} {s : Sys}, Keeps Sys.sansPatches m → s.MayStep →
      wp m (onCode Sys.MayStep Sys.Stepped) s := fun hm h =>
    wp_mono (keepsScene_of_sansPatches hm _) fun _ _ hv =>
      ⟨fun _ => h.of_scene hv, fun _ => h.1.of_scene hv⟩
  have hend : ∀ {g : Guard} {s : Sys}, s.Stepped →
      wp (stepThreadGuardEnd g) (fun _ s' => s'.Stepped) s := fun h =>
    wp_mono (keepsScene_of_sansHolds (stepThreadGuardEnd_keeps _) _) fun _ _ hv => h.of_scene hv
  exact {
    readyQuiet := fun h hq => Sys.MayStep.of_scene (Sys.scene_of_quiet hq) h
    settledQuiet := fun h hq => Sys.MayStep.of_scene (Sys.scene_of_quiet hq) h
    settle := (·.1)
    goOn := fun h _ _ => h
    leave := fun h _ _ => h.1
    giveUp := (·.1)
    refreshReady := hcode cdbgRefreshRegs_keeps
    refreshSettled := hcode cdbgRefreshRegs_keeps
    catchUp := fun h => wp_mono (keepsScene_of_sansHolds (stepThreadGuardCatchUp_keeps _) _)
      fun _ _ hv => Sys.MayStep.of_scene hv h
    singleStep := fun h => Sys.MayStep.wp_singleStep h _ (by simp)
    «continue» := fun hst h => wp_mono (Sys.MayStep.wp_continue hst h) fun _ _ h' =>
      onCode_mono h' (fun h' => ⟨h'.1, h'.2.1, fun _ => h'.2.2 trivial⟩) id
    wait := Sys.MayStop.wp_wait
    report := fun h => Sys.Stepped.keeps reportStop_keeps h.1.1
    reportAtTrap := fun h _ _ => wp_mono (Sys.Stepped.keeps reportStop_keeps h.1) fun _ _ h' =>
      ⟨fun _ => h', fun _ => h'⟩
    watch := fun h _ _ => Sys.Stepped.keeps (reportWatchpointHit_keeps _) h.1
    endArrived := fun h => wp_mono (keepsScene_of_sansHolds (stepThreadGuardEnd_keeps _) _)
      fun _ _ hv => Sys.HasStopped.of_scene hv h
    endReported := hend
    endFailed := hend
    done := fun _ h => h
    exit := fun _ h => Sys.Stepped.of_log rfl rfl h
    fatal := fun _ h => h
    tempEnable := fun h _ => wp_mono (cdbgBpEnable_keeps _ _) fun _ _ h' =>
      have hready := Sys.MayStep.of_scene (Sys.scene_of_sansPatches h'.2.1) h
      ⟨fun _ => hready, fun _ => hready.1⟩
    dropTemp := fun h => Sys.Stepped.keeps ((dropTempBreakpoint_keeps _).mono fun _ _ =>
      Sys.sansReports_of_sansPatches) h
    finishTemp := fun _ h => wp_mono (Sys.MayStep.finishTemp ⟨h.1, fun _ => h.2 (by simp)⟩)
      fun _ _ h' => ⟨fun _ => h', fun _ => h'.1⟩ }

/-! ### `continue` -/

theorem Sys.StepsPrimary.keeps {α : Type} {m : DbgM α} (hm : Keeps Sys.runLog m)
    (h : s.StepsPrimary) : wp m (fun _ s' => s'.StepsPrimary) s :=
  wp_mono (hm s) fun _ _ hv => h.of_log hv

theorem reportProcessExit_runLog : Keeps Sys.runLog reportProcessExit :=
  Keeps.bind Keeps.get fun _ => Keeps.ite (Keeps.pure _) fun _ => rfl

theorem exitOrFatal_runLog : Keeps Sys.runLog exitOrFatal :=
  Keeps.bind Keeps.get fun _ => Keeps.ite
    (Keeps.bind reportProcessExit_runLog fun _ => Keeps.pure _) (Keeps.pure _)

theorem reportAfterWait_runLog : Keeps Sys.runLog reportAfterWait := by
  have hreport : Keeps Sys.runLog reportStop :=
    reportStop_keeps.mono fun _ _ hv => congrArg (·.log) hv
  exact Keeps.bind Keeps.get fun _ => Keeps.ite
    (Keeps.bind hreport fun _ => Keeps.pure _)
    (Keeps.bind reportProcessExit_runLog fun _ => Keeps.pure _)

theorem Sys.StepsPrimary.wp_wait (h : s.StepsPrimary) :
    wp cdbgWait (onCode Sys.StepsPrimary Sys.StepsPrimary) s := by
  refine wp_cdbgWait (fun s₁ hq _ => onCode_neg_one.mpr ?_) (fun p s₁ _ _ he => ?_)
    fun p sig ms s₁ _ _ _ hq => ?_
  · exact h.of_log (congrArg (·.2.1) (Sys.scene_of_quiet hq))
  · obtain ⟨status, waits, calls, rfl⟩ := he
    exact (onCode_of_ne (by decide)).mpr h
  · have h₁ : s₁.StepsPrimary := by
      obtain ⟨n, rfl⟩ := hq
      intro o ho
      rcases List.mem_cons.mp (show o ∈ .stop _ _ :: s.runLog from ho) with rfl | ho
      · exact trivial
      · exact h o ho
    refine wp_mono (keepsScene_of_sansPatches reenableBreakpointsAfterStep_keeps s₁)
      fun rc s₂ hv => ?_
    have h₂ : s₂.StepsPrimary := h₁.of_log (congrArg (·.2.1) hv)
    exact ⟨fun _ => onCode_zero.mpr h₂, fun _ => onCode_neg_one.mpr h₂⟩

/-- `continue` single-steps only off a disabled breakpoint. -/
theorem cdbgReplCmdContinue_steps (hst : s.dbg.state = .stopped) (h : s.StepsPrimary)
    (hready : s.AtDisabled → s.Steppable) :
    wp cdbgReplCmdContinue (fun _ s' => s'.StepsPrimary) s := by
  have hcont : wp cdbgContinue (onCode Sys.StepsPrimary Sys.StepsPrimary) s := by
    refine cdbgContinue_rule (I := fun s' => s'.StepsPrimary ∧ s'.Steppable)
      (W := Sys.StepsPrimary) (C := Sys.StepsPrimary) hst (fun _ => h) (fun _ => ?_)
      (fun s₁ h₁ => ?_) (fun s₁ h₁ => h₁.wp_wait)
      (fun s₁ h₁ s₂ hq _ => h₁.of_log (congrArg (·.2.1) (Sys.scene_of_quiet hq)))
      fun s₁ h₁ p s₂ _ hq => @Sys.StepsPrimary.resumedAs s₁ s₂ .cont p h₁ trivial hq
    · refine wp_cdbgRefreshRegs (fun s₁ hq _ => onCode_neg_one.mpr ?_) fun p t s₁ hp ht hq => ?_
      · exact h.of_log (congrArg (·.2.1) (Sys.scene_of_quiet hq))
      · obtain ⟨n, rfl⟩ := hq
        refine onCode_zero.mpr ⟨fun _ => h, fun hd => ⟨h, ?_⟩⟩
        exact hready ⟨p, t, (Sys.process_eq_some.mp hp).1, ht, hd⟩
    · obtain ⟨hlog, hsel, hfree⟩ := h₁
      refine wp_cdbgSingleStep (fun s₂ hq _ => onCode_neg_one.mpr ?_) fun p s₂ hp hq => ?_
      · exact hlog.of_log (congrArg (·.2.1) (Sys.scene_of_quiet hq))
      · exact onCode_zero.mpr (@Sys.StepsPrimary.resumedAs s₁ s₂ .step p hlog
          ⟨hsel, hfree p (Sys.process_eq_some.mp hp).1⟩ hq)
  rw [cdbgReplCmdContinue, wp_bind, wp_get, wp_ite]
  refine ⟨fun _ => h, fun _ => wp_check hcont (fun _ h₁ => h₁) fun s₁ h₁ => ?_⟩
  rw [wp_bind, wp_get, wp_ite]
  refine ⟨fun _ => ?_, fun _ => ?_⟩
  · rw [wp_bind]
    exact h₁.keeps reportProcessExit_runLog
  · exact wp_check h₁.wp_wait (fun s₂ h₂ => h₂.keeps exitOrFatal_runLog)
      fun s₂ h₂ => h₂.keeps reportAfterWait_runLog

end Steps

/-! ### Sessions -/

/-- A command given at a prompt steps nothing but the primary thread. -/
theorem exec_steps {c : Command} {s : Sys} (hc : c.restarts = false)
    (hst : s.dbg.state ≠ .running) (hlog : s.log = [])
    (hready : PrimaryReady c s ((exec c).run s).2) :
    wp (exec c) (fun _ s' => s'.StepsPrimary) s := by
  have h : s.StepsPrimary := by
    intro o ho
    rw [Sys.runLog, hlog] at ho
    exact absurd ho (by simp)
  cases hr : c.resumes with
  | false => exact wp_mono (exec_progress hr hc s) fun _ s' hv => h.of_log (congrArg Progress.log hv)
  | true =>
    by_cases hgo : s.Admits c
    · by_cases hcont : c = .continueTok
      · subst hcont
        exact cdbgReplCmdContinue_steps hgo.1 h (hready.continuing rfl hgo.1)
      · have hsteps : c.steps = true := by
          cases c <;> simp_all [Command.resumes, Command.steps]
        have hsel : s.dbg.currentTid = tidPrimary := hgo.2.resolve_left hcont
        obtain ⟨hfree, hsafe⟩ := hready.stepping hsteps hgo.1 hsel
        have hrun : wp (exec c) (fun _ s' => s'.Stepped) s :=
          steps_cases primaryPoints_sound.toSound (fun _ => primaryPoints_sound) hsteps hst
            (fun _ => h) fun _ => ⟨fun _ => h, fun _ => ⟨hsel, hfree⟩⟩
        exact hrun hsafe
    · refine wp_mono (resumes_skip hr hst hgo) fun o s' h' => ?_
      rw [h'.2]
      exact h

/-- As long as every command of a session meets `PrimaryReady`, each single step is issued
with the primary thread selected and not held back by `lock`. -/
theorem steps_primary {s₀ s : Sys} {c : Command} (hst : s₀.dbg.state ≠ .running)
    (h : Reaches (fun c s s' => c.restarts = false ∧ PrimaryReady c s s') s₀ s)
    (hc : c.restarts = false) (hready : PrimaryReady c s (runCommand c s).2) :
    ∀ o ∈ (runCommand c s).2.log, o.StepsPrimary := by
  have hprompt := h.prompt (fun _ _ _ hok => hok.1) hst
  have hsteps := exec_steps (s := s.unlogged) hc hprompt rfl
    ⟨hready.stepping, hready.continuing⟩
  intro o ho
  by_cases hrun : o.isRun = true
  · exact hsteps o (List.mem_filter.mpr ⟨ho, hrun⟩)
  · cases o with
    | resume kind d p => exact absurd rfl hrun
    | _ => exact trivial

/-- `lock 1` holds the primary thread back and selects thread 1; after `thread 0` the
command `si` single-steps the suspended primary thread. -/
theorem si_steps_locked_primary :
    let s₀ := Sys.attached .x86_64 twoThreads fun _ => .stopped 5 []
    ∃ s, Reaches (fun c _ _ => c.restarts = false) s₀ s ∧
      ¬ ∀ o ∈ (runCommand .siTok s).2.log, o.StepsPrimary := by
  let s₀ := Sys.attached .x86_64 twoThreads fun _ => .stopped 5 []
  let s₁ := (runCommand (.lockTok (some "1".toList)) s₀).2
  let s₂ := (runCommand (.threadTok (some "0".toList)) s₁).2
  refine ⟨s₂, .command (.command .start rfl (by decide)) rfl (by decide), fun h => ?_⟩
  obtain ⟨d, p, hstep, t, ht, hlocked⟩ : ∃ d p, .resume .step d p ∈ (runCommand .siTok s₂).2.log ∧
      ∃ t, p.primary = some t ∧ t.tid ∈ d.lockedOut :=
    ⟨_, _, List.mem_cons_of_mem _ List.mem_cons_self, _, rfl, by decide⟩
  exact (h _ hstep).2 t ht hlocked

theorem steps_primary_si :
    let s₀ := Sys.attached .x86_64 twoThreads fun _ => .stopped 5 []
    (∃ o ∈ (runCommand .siTok s₀).2.log, o.isRun = true) ∧
      ∀ o ∈ (runCommand .siTok s₀).2.log, o.StepsPrimary := by
  refine ⟨by decide, ?_⟩
  refine @steps_primary (Sys.attached .x86_64 twoThreads fun _ => .stopped 5 []) _ _ (by decide)
    .start rfl ⟨fun _ _ _ => ⟨fun p _ t _ => List.not_mem_nil, fun d p h => ?_,
      fun d p d' p' l h => ?_⟩, fun h => Command.noConfusion h⟩
  · exact Obs.noConfusion (List.mem_singleton.mp h)
  · exact absurd h.length_le (show ¬ l.length + 2 ≤ 1 by omega)

end Debugger
