/-
The debuggee and the debugger take turns.

A process may be resumed only when it stands, and its memory may be written only then.
`InTurn` says so of a trace: resumptions and stops alternate, and between a resumption and
the next stop nothing is written.  `Reaches.inTurn` shows it of every command of every
session, for any debuggee and any failures of kernel calls other than of `waitpid`, with
the debuggee standing or gone when the prompt comes back.

`Sys.Touched` is what every action other than resuming and waiting may do: look at the
debuggee and write to it.  What it means for the trace is said once
(`Sys.Rests.touched`, `Sys.Calm.touched`), and the actions are `Obeys` it.
-/
import Debugger.Edits
import Debugger.Traced

open Prog

namespace Debugger

/-! ### Traces -/

/-- The debuggee stands: since it was resumed last, it has stopped. -/
def Standing : List Obs → Prop
  | [] => True
  | .resume .. :: _ => False
  | .stop .. :: _ => True
  | .memWrite .. :: log => Standing log
  | .hit .. :: log => Standing log

/-- The event may come after the trace: a stop while the debuggee runs, anything else while
it stands. -/
def Obs.Allowed (log : List Obs) : Obs → Prop
  | .stop .. => ¬ Standing log
  | _ => Standing log

/-- Every event of the trace, newest first, may come after those before it. -/
def InTurn : List Obs → Prop
  | [] => True
  | o :: log => o.Allowed log ∧ InTurn log

/-- Events that are no resumptions and stops leave the debuggee standing. -/
theorem standing_append {new log : List Obs} (hnew : ∀ o ∈ new, o.isRun = false) :
    Standing (new ++ log) ↔ Standing log := by
  induction new with
  | nil => exact Iff.rfl
  | cons o new ih =>
    obtain ⟨ho, hrest⟩ := List.forall_mem_cons.mp hnew
    cases o with
    | resume kind d p => exact absurd ho.symm Bool.false_ne_true
    | stop d p => exact absurd ho.symm Bool.false_ne_true
    | memWrite d p addr bytes => exact ih hrest
    | hit d p index => exact ih hrest

theorem inTurn_append {new log : List Obs} (hnew : ∀ o ∈ new, o.isRun = false)
    (hlog : InTurn log) (hst : Standing log) : InTurn (new ++ log) := by
  induction new with
  | nil => exact hlog
  | cons o new ih =>
    obtain ⟨ho, hrest⟩ := List.forall_mem_cons.mp hnew
    have hst' := (standing_append hrest).mpr hst
    cases o with
    | resume kind d p => exact absurd ho.symm Bool.false_ne_true
    | stop d p => exact absurd ho.symm Bool.false_ne_true
    | memWrite d p addr bytes => exact ⟨hst', ih hrest⟩
    | hit d p index => exact ⟨hst', ih hrest⟩

/-! ### Looking at the debuggee and writing to it -/

/-- The debuggee is at most looked at and written to, and not if there is none. -/
def Sys.Touched (s s' : Sys) : Prop :=
  (s.os.proc = none → s'.os.proc = none ∧ s'.log = s.log) ∧
    ∃ new, s'.log = new ++ s.log ∧ ∀ o ∈ new, o.isRun = false

instance : IsPreorder Sys Sys.Touched where
  refl _ := ⟨fun h => ⟨h, rfl⟩, [], rfl, fun _ h => absurd h List.not_mem_nil⟩
  trans s s' s'' h h' := by
    obtain ⟨hnone, new, hlog, hnew⟩ := h
    obtain ⟨hnone', new', hlog', hnew'⟩ := h'
    refine ⟨fun hp => ?_, new' ++ new, by rw [hlog', hlog, List.append_assoc], fun o ho => ?_⟩
    · obtain ⟨hp', hsame⟩ := hnone hp
      obtain ⟨hp'', hsame'⟩ := hnone' hp'
      exact ⟨hp'', hsame'.trans hsame⟩
    · rcases List.mem_append.mp ho with ho | ho
      · exact hnew' o ho
      · exact hnew o ho

section Touching

variable {s s' : Sys} {α : Type} {m : DbgM α}

theorem Sys.touched_of_sansProc {f : Process → Process} (h : s'.sansProc f = s.sansProc f) :
    s.Touched s' := by
  have hlog : s'.log = s.log := congrArg (·.log) h
  have hproc : s'.os.proc.map f = s.os.proc.map f := congrArg (·.os.proc) h
  refine ⟨fun hp => ⟨?_, hlog⟩, [], hlog, fun _ h => absurd h List.not_mem_nil⟩
  rw [hp] at hproc
  exact Option.map_eq_none_iff.mp hproc

theorem Sys.touched_of_quiet (h : s.Quiet s') : s.Touched s' := by
  obtain ⟨n, rfl⟩ := h
  exact refl_of Sys.Touched s

theorem touched_of_keepsCalls (h : Keeps Sys.sansCalls m) : Obeys Sys.Touched m :=
  h.obeys fun _ _ hv => Sys.touched_of_quiet (Sys.quiet_iff_sansCalls.mpr hv)

theorem touched_of_keepsSlots (h : Keeps Sys.sansSlots m) : Obeys Sys.Touched m :=
  h.obeys fun _ _ => Sys.touched_of_sansProc

theorem touched_of_keepsHolds (h : Keeps Sys.sansHolds m) : Obeys Sys.Touched m :=
  h.obeys fun _ _ => Sys.touched_of_sansProc

theorem modifyDbg_touched (f : Cdbg → Cdbg) : Obeys Sys.Touched (modifyDbg f) := fun s =>
  refl_of Sys.Touched s

/-- A write is one more event, and there is none without a process. -/
theorem cdbgMemWrite_touched (pid : ℕ) (addr : Addr) (bytes : List UInt8) :
    Obeys Sys.Touched (cdbgMemWrite pid addr bytes) := by
  intro s
  refine wp_cdbgMemWrite (fun s' hq _ => Sys.touched_of_quiet hq) fun p s' hp hq => ?_
  obtain ⟨n, rfl⟩ := hq
  have hsome := (Sys.process_eq_some.mp hp).1
  refine ⟨fun hnone => absurd (hsome.symm.trans hnone) (Option.some_ne_none p), [_], rfl,
    fun o ho => ?_⟩
  rw [List.mem_singleton.mp ho]
  rfl

theorem cdbgRegsSet_touched (pid : ℕ) (tid : UInt64) (regs : Regs) :
    Obeys Sys.Touched (cdbgRegsSet pid tid regs) := by
  intro s
  refine wp_cdbgRegsSet (fun s' hq _ => Sys.touched_of_quiet hq) fun p t s' hp _ hq => ?_
  obtain ⟨n, rfl⟩ := hq
  have hsome := (Sys.process_eq_some.mp hp).1
  exact ⟨fun hnone => absurd (hsome.symm.trans hnone) (Option.some_ne_none p), [], rfl,
    fun _ h => absurd h List.not_mem_nil⟩

theorem cdbgRefreshRegs_touched : Obeys Sys.Touched cdbgRefreshRegs := by
  refine Obeys.bind Obeys.get fun s =>
    Obeys.bind (touched_of_keepsCalls (cdbgRegsGet_keeps _ _)) fun r => ?_
  cases r with
  | none => exact Obeys.pure _
  | some regs => exact Obeys.bind (modifyDbg_touched _) fun _ => Obeys.pure _

theorem cdbgBpEnable_touched (bp : Breakpoint) (pid : ℕ) (addr : Addr) :
    Obeys Sys.Touched (cdbgBpEnable bp pid addr) := by
  refine Obeys.bind (touched_of_keepsCalls (cdbgMemRead_keeps _ _ _)) fun r => ?_
  cases r with
  | none => exact Obeys.pure _
  | some bytes =>
    exact Obeys.bind Obeys.get fun s => Obeys.bind (cdbgMemWrite_touched _ _ _) fun rc =>
      Obeys.ite (Obeys.pure _) (Obeys.pure _)

theorem cdbgBpDisable_touched (bp : Breakpoint) (pid : ℕ) :
    Obeys Sys.Touched (cdbgBpDisable bp pid) :=
  Obeys.ite (Obeys.pure _) (Obeys.bind (cdbgMemWrite_touched _ _ _) fun _ =>
    Obeys.ite (Obeys.pure _) (Obeys.pure _))

theorem dropTempBreakpoint_touched (tempBp : Breakpoint) :
    Obeys Sys.Touched (dropTempBreakpoint tempBp) :=
  Obeys.bind Obeys.get fun _ => Obeys.bind (cdbgBpDisable_touched _ _) fun _ => Obeys.pure _

theorem reenableLoop_touched (pid : ℕ) (pc : Addr) (bps : List Breakpoint) :
    Obeys Sys.Touched (reenableLoop pid pc bps) := by
  induction bps with
  | nil => exact Obeys.pure _
  | cons bp bps ih =>
    refine Obeys.ite (Obeys.bind (cdbgBpEnable_touched _ _ _) fun r => Obeys.ite (Obeys.pure _)
      (Obeys.bind ih fun _ => Obeys.pure _)) (Obeys.bind ih fun _ => Obeys.pure _)

theorem reenableBreakpointsAfterStep_touched :
    Obeys Sys.Touched reenableBreakpointsAfterStep := by
  refine Obeys.bind Obeys.get fun s => Obeys.ite (Obeys.pure _) ?_
  refine Obeys.bind cdbgRefreshRegs_touched fun rc => Obeys.ite (Obeys.pure _) ?_
  exact Obeys.bind Obeys.get fun s => Obeys.bind (reenableLoop_touched _ _ _) fun _ =>
    Obeys.bind (modifyDbg_touched _) fun _ => Obeys.pure _

end Touching

/-! ### Reporting a stop -/

section Reports

theorem switchCurrentTidToBreakpointHit_touched :
    Obeys Sys.Touched switchCurrentTidToBreakpointHit := by
  have hloop : ∀ pid infos, Obeys Sys.Touched (switchLoop pid infos) := by
    intro pid infos
    induction infos with
    | nil => exact Obeys.pure _
    | cons t ts ih =>
      refine Obeys.bind (touched_of_keepsCalls (cdbgRegsGet_keeps _ _)) fun r => ?_
      cases r with
      | none => exact ih
      | some regs =>
        exact Obeys.bind Obeys.get fun s => Obeys.ite (modifyDbg_touched _) ih
  refine Obeys.bind Obeys.get fun s => Obeys.ite (Obeys.pure _)
    (Obeys.bind (touched_of_keepsCalls (cdbgThreadsList_keeps _)) fun r => ?_)
  cases r with
  | none => exact Obeys.pure _
  | some infos => exact hloop _ _

theorem recordHit_touched (index : ℕ) :
    Obeys Sys.Touched (modify fun s => s.recordHit index : DbgM PUnit) := by
  refine Obeys.modify fun s => ?_
  rw [Sys.recordHit]
  cases hp : s.os.proc with
  | none => exact refl_of Sys.Touched s
  | some p =>
    refine ⟨fun hnone => absurd (hp.symm.trans hnone) (Option.some_ne_none p), [_], rfl,
      fun o ho => ?_⟩
    rw [List.mem_singleton.mp ho]
    rfl

theorem rewindPc_touched : Obeys Sys.Touched rewindPc :=
  Obeys.bind Obeys.get fun _ => Obeys.ite (Obeys.bind (modifyDbg_touched _) fun _ =>
    Obeys.bind (cdbgRegsSet_touched _ _ _) fun _ => Obeys.ite (Obeys.pure _) (Obeys.pure _))
    (Obeys.pure _)

theorem handleBreakpointHit_touched (index : ℕ) :
    Obeys Sys.Touched (handleBreakpointHit index) := by
  refine Obeys.bind Obeys.get fun s => Obeys.bind (recordHit_touched index) fun _ => ?_
  refine Obeys.bind (cdbgBpDisable_touched _ _) fun r => Obeys.bind (modifyDbg_touched _)
    fun _ => Obeys.ite (Obeys.pure _) ?_
  exact Obeys.bind cdbgRefreshRegs_touched fun rc => Obeys.ite (Obeys.pure _) rewindPc_touched

theorem reportWatchpointHit_touched (index : ℕ) :
    Obeys Sys.Touched (reportWatchpointHit index) := by
  refine Obeys.bind Obeys.get fun s =>
    Obeys.bind (touched_of_keepsCalls (cdbgMemRead_keeps _ _ _)) fun r => ?_
  cases r with
  | none => exact Obeys.pure _
  | some bytes => exact modifyDbg_touched _

theorem reportStop_touched : Obeys Sys.Touched reportStop := by
  refine Obeys.bind (touched_of_keepsSlots resyncWatchpointsToAllThreads_keeps) fun _ => ?_
  refine Obeys.bind switchCurrentTidToBreakpointHit_touched fun _ => ?_
  refine Obeys.bind cdbgRefreshRegs_touched fun rc => Obeys.ite (Obeys.pure _)
    (Obeys.bind Obeys.get fun s => ?_)
  split
  · exact handleBreakpointHit_touched _
  · refine Obeys.bind (touched_of_keepsCalls findWatchpointHit_keeps) fun r => ?_
    cases r with
    | none => exact Obeys.pure _
    | some i => exact Obeys.bind (reportWatchpointHit_touched i) fun _ => Obeys.pure _

theorem finishTempBreakpoint_touched (tempBp : Breakpoint) :
    Obeys Sys.Touched (finishTempBreakpoint tempBp) := by
  have hdrop := dropTempBreakpoint_touched tempBp
  refine Obeys.bind cdbgRefreshRegs_touched fun rc => Obeys.ite
    (Obeys.bind hdrop fun _ => Obeys.pure _) (Obeys.bind Obeys.get fun s => ?_)
  refine Obeys.ite (Obeys.bind hdrop fun _ => reportStop_touched) ?_
  refine Obeys.bind (cdbgBpDisable_touched _ _) fun r => Obeys.ite (Obeys.pure _)
    (Obeys.ite ?_ (Obeys.pure _))
  exact Obeys.bind (modifyDbg_touched _) fun _ => Obeys.bind (cdbgRegsSet_touched _ _ _)
    fun rc => Obeys.ite (Obeys.pure _) (Obeys.pure _)

end Reports

/-! ### Commands that do not resume the debuggee -/

section Commands

theorem touched_allowsEdits : AllowsEdits Sys.Touched where
  calls := touched_of_keepsCalls
  slots := touched_of_keepsSlots
  holds := touched_of_keepsHolds
  refresh := cdbgRefreshRegs_touched
  enable := cdbgBpEnable_touched
  disable := cdbgBpDisable_touched
  edit _ := modifyDbg_touched _

theorem cmdThread_touched (args : Option CStr) : Obeys Sys.Touched (cmdThread args) := by
  refine Obeys.bind Obeys.get fun s => Obeys.ite (Obeys.pure _)
    (Obeys.bind (touched_of_keepsCalls (cdbgThreadsList_keeps _)) fun r => ?_)
  cases r with
  | none => exact Obeys.pure _
  | some infos =>
    dsimp only
    split
    · exact Obeys.pure _
    · exact Obeys.pure _
    split
    · exact Obeys.pure _
    · exact Obeys.bind (modifyDbg_touched _) fun _ => Obeys.bind cdbgRefreshRegs_touched
        fun rc => Obeys.ite (Obeys.pure _) (Obeys.pure _)

theorem cmdSet_touched (assignment : Assignment) : Obeys Sys.Touched (cmdSet assignment) := by
  cases assignment with
  | register name value =>
    refine Obeys.bind cdbgRefreshRegs_touched fun rc => Obeys.ite (Obeys.pure _)
      (Obeys.bind Obeys.get fun s => ?_)
    split
    · exact Obeys.pure _
    · exact Obeys.bind (modifyDbg_touched _) fun _ => cdbgRegsSet_touched _ _ _
  | scalar addr size value =>
    exact Obeys.bind cdbgRefreshRegs_touched fun rc => Obeys.ite (Obeys.pure _)
      (Obeys.bind Obeys.get fun s => cdbgMemWrite_touched _ _ _)

theorem cdbgFrameUp_touched : Obeys Sys.Touched cdbgFrameUp := by
  refine Obeys.bind cdbgRefreshRegs_touched fun rc => Obeys.ite (Obeys.pure _)
    (Obeys.bind Obeys.get fun s => ?_)
  refine Obeys.bind (touched_of_keepsCalls (cdbgRegsFrameUp_keeps _ _)) fun r => ?_
  cases r with
  | none => exact Obeys.pure _
  | some regs =>
    exact Obeys.bind (modifyDbg_touched _) fun _ => Obeys.bind (cdbgRegsSet_touched _ _ _)
      fun rc => Obeys.ite (Obeys.pure _) (Obeys.pure _)

/-- A command that neither resumes nor starts nor ends a debuggee. -/
theorem exec_touched {c : Command} (hr : c.resumes = false) (hs : c.restarts = false) :
    Obeys Sys.Touched (exec c) := by
  have hignore : ∀ {m : DbgM Int}, Obeys Sys.Touched m → Obeys Sys.Touched (ignoringCode m) :=
    fun hm => Obeys.bind hm fun _ => Obeys.pure _
  cases c with
  | runTok argv => exact absurd hs.symm Bool.false_ne_true
  | continueTok => exact absurd hr.symm Bool.false_ne_true
  | stepTok => exact absurd hr.symm Bool.false_ne_true
  | siTok => exact absurd hr.symm Bool.false_ne_true
  | nextTok => exact absurd hr.symm Bool.false_ne_true
  | upTok => exact hignore cdbgFrameUp_touched
  | regsTok =>
    exact Obeys.bind cdbgRefreshRegs_touched fun _ => Obeys.ite (Obeys.pure _) (Obeys.pure _)
  | setTok assignment => exact hignore (cmdSet_touched assignment)
  | threadTok args => exact hignore (cmdThread_touched args)
  | lockTok args => exact hignore (obeys_cmdLock touched_allowsEdits args)
  | unlockTok => exact hignore (obeys_cmdUnlock touched_allowsEdits)
  | breakTok target => exact hignore (obeys_cmdBreak touched_allowsEdits target)
  | delTok args =>
    exact hignore (obeys_cmdDel (obeys_deleteBreakpointAt touched_allowsEdits) args)
  | watchTok expr resolved => exact hignore (obeys_cmdWatch touched_allowsEdits expr resolved)
  | unwatchTok args =>
    exact hignore (obeys_cmdUnwatch (obeys_deleteWatchpointAt touched_allowsEdits) args)
  | killTok => exact absurd hs.symm Bool.false_ne_true

end Commands

/-! ### Resuming and waiting -/

/-- The debuggee stands, and everything has happened in turn. -/
def Sys.Rests (s : Sys) : Prop := InTurn s.log ∧ Standing s.log

/-- The debuggee stands or is gone, and everything has happened in turn. -/
def Sys.Calm (s : Sys) : Prop := InTurn s.log ∧ (Standing s.log ∨ s.os.proc = none)

/-- The debuggee runs, and everything has happened in turn. -/
def Sys.Away (s : Sys) : Prop := InTurn s.log ∧ ¬ Standing s.log ∧ s.dbg.state = .running

section Turns

variable {arch : Arch} {fault : KCall → ℕ → Bool} {s s' : Sys}

theorem Sys.Rests.calm (h : s.Rests) : s.Calm := ⟨h.1, .inl h.2⟩

theorem Sys.Rests.touched (h : s.Rests) (ht : s.Touched s') : s'.Rests := by
  obtain ⟨-, new, hlog, hnew⟩ := ht
  rw [Sys.Rests, hlog]
  exact ⟨inTurn_append hnew h.1 h.2, (standing_append hnew).mpr h.2⟩

theorem Sys.Calm.touched (h : s.Calm) (ht : s.Touched s') : s'.Calm := by
  rcases h.2 with hst | hnone
  · exact (Sys.Rests.touched ⟨h.1, hst⟩ ht).calm
  · obtain ⟨hnone', hlog⟩ := ht.1 hnone
    rw [Sys.Calm, hlog]
    exact ⟨h.1, .inr hnone'⟩

/-- The debuggee is resumed when it stands. -/
theorem Sys.Rests.resumedAs {kind : Resume} {p : Process} (h : s.Rests)
    (hq : (s.resumedAs kind p).Quiet s') : s'.Away := by
  obtain ⟨n, rfl⟩ := hq
  exact ⟨⟨h.2, h.1⟩, not_false, rfl⟩

/-- It stops when it runs. -/
theorem Sys.Away.stoppedBy {p : Process} {sig : ℕ} {ms : List Move} (h : s.Away)
    (hq : (s.stoppedBy p sig ms).Quiet s') : s'.Rests := by
  obtain ⟨n, rfl⟩ := hq
  exact ⟨⟨h.2.1, h.1⟩, trivial⟩

theorem Sys.Away.ended (h : s.Away) (he : s.Ended s') : s'.Calm := by
  obtain ⟨status, waits, calls, rfl⟩ := he
  exact ⟨h.1, .inr rfl⟩

/-- Whose turn it is at each control point. -/
def turnPoints (arch : Arch) (fault : KCall → ℕ → Bool) : ControlPoints where
  ready _ _ s := s.Traced arch fault ∧ s.Rests
  waiting _ _ s := s.Traced arch fault ∧ s.Away
  arrived _ _ s := s.Traced arch fault ∧ s.Rests
  settled _ s := s.Traced arch fault ∧ s.Rests
  reported _ s := s.Traced arch fault ∧ s.Rests
  failed _ _ s := s.Traced arch fault ∧ s.Calm
  prompt _ s := s.Traced arch fault ∧ s.Calm

/-- What keeps the agreement on the debuggee and only touches it. -/
theorem wp_rests {α : Type} {m : DbgM α} (hm : Obeys Sys.Touched m)
    (ht : wp m (fun _ s' => s'.Traced arch fault) s) (h : s.Rests) :
    wp m (fun _ s' => s'.Traced arch fault ∧ s'.Rests) s :=
  wp_mono (wp_and ht (hm s)) fun _ _ h' => ⟨h'.1, h.touched h'.2⟩

theorem wp_calm {α : Type} {m : DbgM α} (hm : Obeys Sys.Touched m)
    (ht : wp m (fun _ s' => s'.Traced arch fault) s) (h : s.Calm) :
    wp m (fun _ s' => s'.Traced arch fault ∧ s'.Calm) s :=
  wp_mono (wp_and ht (hm s)) fun _ _ h' => ⟨h'.1, h.touched h'.2⟩

/-- The same with a return code: a failure leaves the debuggee standing as well. -/
theorem code_rests {α : Type} {m : DbgM α} {f : α → Int}
    (hm : wp m (fun _ s' => s'.Traced arch fault ∧ s'.Rests) s) :
    wp m (fun a => onCode (fun s' => s'.Traced arch fault ∧ s'.Rests)
      (fun s' => s'.Traced arch fault ∧ s'.Calm) (f a)) s :=
  wp_mono hm fun _ _ h => ⟨fun _ => h, fun _ => ⟨h.1, h.2.calm⟩⟩

theorem rests_quiet (h : s.Traced arch fault ∧ s.Rests) (hq : s.Quiet s') :
    s'.Traced arch fault ∧ s'.Rests :=
  ⟨h.1.of_quiet hq, h.2.touched (Sys.touched_of_quiet hq)⟩

theorem cdbgRefreshRegs_turn (h : s.Traced arch fault ∧ s.Rests) :
    wp cdbgRefreshRegs (fun _ s' => s'.Traced arch fault ∧ s'.Rests) s :=
  wp_rests cdbgRefreshRegs_touched (traced_invariant.keepsPatches cdbgRefreshRegs_keeps h.1) h.2

theorem reportStop_turn (h : s.Traced arch fault ∧ s.Rests) :
    wp reportStop (fun _ s' => s'.Traced arch fault ∧ s'.Rests) s :=
  wp_rests reportStop_touched (traced_invariant.report h.1) h.2

theorem stepThreadGuardEnd_turn {guard : Guard} (h : s.Traced arch fault ∧ s.Rests) :
    wp (stepThreadGuardEnd guard) (fun _ s' => s'.Traced arch fault ∧ s'.Rests) s :=
  wp_rests (touched_of_keepsHolds (stepThreadGuardEnd_keeps guard))
    (traced_invariant.keepsHolds (stepThreadGuardEnd_keeps guard) h.1) h.2

theorem cdbgSingleStep_turn (h : s.Traced arch fault ∧ s.Rests) :
    wp cdbgSingleStep (onCode (fun s' => s'.Traced arch fault ∧ s'.Away)
      (fun s' => s'.Traced arch fault ∧ s'.Calm)) s := by
  refine wp_cdbgSingleStep (fun s' hq _ => onCode_neg_one.mpr ?_)
    fun p s' hp hq => onCode_zero.mpr ⟨h.1.resumedAs hp hq, h.2.resumedAs hq⟩
  obtain ⟨htraced, hrests⟩ := rests_quiet h hq
  exact ⟨htraced, hrests.calm⟩

/-- A wait that does not fail on its own account ends with the debuggee standing or gone. -/
theorem cdbgWait_turn (hwait : ∀ n, fault .waitpid n = false)
    (h : s.Traced arch fault ∧ s.Away) :
    wp cdbgWait (onCode (fun s' => s'.Traced arch fault ∧ s'.Rests)
      (fun s' => s'.Traced arch fault ∧ s'.Calm)) s := by
  have hrunning : s.dbg.state ≠ .idle := by
    rw [h.2.2.2]
    decide
  obtain ⟨q, -, hq⟩ := h.1.process hrunning
  refine wp_cdbgWait (fun s' _ hnone => ?_) (fun p s' _ _ he => ?_) fun p sig ms s' hp _ _ hs' => ?_
  · exact absurd (hnone (h.1.reliable hwait)) (by rw [hq]; exact Option.some_ne_none q)
  · exact (onCode_of_ne (by decide)).mpr ⟨h.1.ended he, h.2.ended he⟩
  · have htraced := h.1.stoppedBy hp hs'
    have hrest := wp_rests reenableBreakpointsAfterStep_touched
      (traced_invariant.keepsPatches reenableBreakpointsAfterStep_keeps htraced)
      (h.2.stoppedBy hs')
    exact wp_mono hrest fun _ _ h' =>
      ⟨fun _ => onCode_zero.mpr h', fun _ => onCode_neg_one.mpr ⟨h'.1, h'.2.calm⟩⟩

theorem turnPoints_sound (hwait : ∀ n, fault .waitpid n = false) :
    (turnPoints arch fault).SoundNext where
  readyQuiet h hq := rests_quiet h hq
  settledQuiet h hq := rests_quiet h hq
  settle h := h
  goOn h _ _ := h
  leave h _ _ := h
  giveUp h := ⟨h.1, h.2.calm⟩
  refreshReady h := code_rests (cdbgRefreshRegs_turn h)
  refreshSettled h := code_rests (cdbgRefreshRegs_turn h)
  catchUp h := wp_rests (touched_of_keepsHolds (stepThreadGuardCatchUp_keeps _))
    (traced_invariant.keepsHolds (stepThreadGuardCatchUp_keeps _) h.1) h.2
  singleStep := cdbgSingleStep_turn
  «continue» hst h := by
    refine cdbgContinue_rule (I := fun s' => s'.Traced arch fault ∧ s'.Rests)
      (W := fun s' => s'.Traced arch fault ∧ s'.Away) hst (fun _ => h) (fun _ => ?_)
      (fun _ => cdbgSingleStep_turn) (fun _ => cdbgWait_turn hwait) (fun s' h' s'' hq _ => ?_)
      fun s' h' p s'' hp hq => ⟨h'.1.resumedAs hp hq, h'.2.resumedAs hq⟩
    · exact wp_mono (cdbgRefreshRegs_turn h) fun _ _ h' =>
        ⟨fun _ => ⟨fun _ => h', fun _ => h'⟩, fun _ => ⟨h'.1, h'.2.calm⟩⟩
    · obtain ⟨htraced, hrests⟩ := rests_quiet h' hq
      exact ⟨htraced, hrests.calm⟩
  wait := cdbgWait_turn hwait
  report h := reportStop_turn h
  reportAtTrap h _ _ := code_rests (reportStop_turn h)
  watch h _ _ := wp_rests (reportWatchpointHit_touched _) (traced_invariant.watch _ h.1) h.2
  endArrived h := stepThreadGuardEnd_turn h
  endReported h := stepThreadGuardEnd_turn h
  endFailed h := wp_calm (touched_of_keepsHolds (stepThreadGuardEnd_keeps _))
    (traced_invariant.keepsHolds (stepThreadGuardEnd_keeps _) h.1) h.2
  done _ h := ⟨h.1, h.2.calm⟩
  exit hi h := ⟨traced_invariant.exit hi h.1, h.2⟩
  fatal _ h := h
  tempEnable h _ := code_rests (wp_rests (cdbgBpEnable_touched _ _ _)
    (wp_mono (cdbgBpEnable_keeps _ _) fun _ _ h' => traced_invariant.patches h.1 h'.2.1) h.2)
  dropTemp h := wp_calm (dropTempBreakpoint_touched _)
    (traced_invariant.keepsPatches (dropTempBreakpoint_keeps _) h.1) h.2
  finishTemp _ h := code_rests (wp_rests (finishTempBreakpoint_touched _)
    (traced_invariant.finishTemp h.1) h.2)

/-- A command given at a prompt leaves the debuggee standing or gone. -/
theorem exec_turn {c : Command} (hwait : ∀ n, fault .waitpid n = false)
    (hc : c.restarts = false) (hst : s.dbg.state ≠ .running) (h : s.Traced arch fault)
    (hlog : s.log = []) : wp (exec c) (fun _ s' => s'.Calm) s := by
  have hrests : s.Rests := by
    rw [Sys.Rests, hlog]
    exact ⟨trivial, trivial⟩
  cases hr : c.resumes with
  | false => exact wp_mono (exec_touched hr hc s) fun _ _ ht => (hrests.touched ht).calm
  | true =>
    have hrun : wp (exec c) (turnPoints arch fault).prompt s :=
      resumes_cases (turnPoints_sound hwait) (fun h => h) hr hst ⟨h, hrests.calm⟩
        fun _ => ⟨h, hrests⟩
    exact wp_mono hrun fun _ _ h' => h'.2

/-- In every session the debuggee is resumed only when it stands and written to only when
it stands, and it stands or is gone when the prompt comes back. -/
theorem Reaches.inTurn {s₀ : Sys} {c : Command} (hwait : ∀ n, fault .waitpid n = false)
    (hst : s₀.dbg.state ≠ .running) (h₀ : s₀.Traced arch fault)
    (h : Reaches (fun c _ _ => c.restarts = false) s₀ s) (hc : c.restarts = false) :
    InTurn (runCommand c s).2.log ∧
      (Standing (runCommand c s).2.log ∨ (runCommand c s).2.os.proc = none) :=
  exec_turn hwait hc (h.prompt (fun _ _ _ hok => hok) hst)
    (h.traced (fun _ _ _ hok => hok) hst h₀).unlogged rfl

/-- Going on from a breakpoint: off it with a single step, the trap back, then all threads
until the next hit. -/
theorem inTurn_continue :
    let s₀ := Sys.attached .x86_64 twoThreads fun _ => .stopped 5 [.exec 1 (x86At 0x1001) []]
    let s₁ := (runCommand (.breakTok "0x1000".toList) s₀).2
    let s₂ := (runCommand .continueTok s₁).2
    (runCommand .continueTok s₂).2.log.length = 7 ∧
      InTurn (runCommand .continueTok s₂).2.log ∧
      (Standing (runCommand .continueTok s₂).2.log ∨
        (runCommand .continueTok s₂).2.os.proc = none) := by
  intro s₀ s₁ s₂
  have htraced : s₀.Traced .x86_64 fun _ _ => false := by
    refine ⟨rfl, rfl, fun p hp => ?_, by decide⟩
    obtain rfl := Option.some.inj hp
    exact ⟨twoThreads_wellFormed, rfl, by decide⟩
  have hreaches : Reaches (fun c _ _ => c.restarts = false) s₀ s₂ :=
    .command (.command .start rfl (by decide +kernel)) rfl (by decide +kernel)
  refine ⟨by decide +kernel, Reaches.inTurn (fun _ => rfl) (by decide) htraced hreaches rfl⟩

end Turns

end Debugger
