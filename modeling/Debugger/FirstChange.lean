/-
Where `step` and `next` stop.

A debuggee with one thread that is single-stepped goes through a sequence of machine states
(`Sys.course`), each with the breakpoints `cdbg_wait` has put back.  Both stepping commands
stop in the first of them that `Stops`, and `next` does so as long as no direct call is on
the way.

The loops count their rounds, so the invariant `Sys.At` of a round names the state by its
number; `stepRound_at` leads from one number to the next and `checkStop_at` looks at one.
-/
import Debugger.NextHits
import Mathlib.Data.Nat.Find

open Prog

namespace Debugger

/-! ### The states a debuggee goes through -/

/-- The debuggee behind an instruction, with the breakpoint table. -/
structure Machine where
  proc : Process
  breakpoints : List Breakpoint

/-- The pc of the primary thread. -/
def Process.pc (p : Process) : Addr := (p.primary.map (·.regs.pc)).getD 0

namespace Machine

/-- The machine once one instruction has been executed. -/
def next (arch : Arch) (m : Machine) (ms : List Move) : Machine :=
  let p := m.proc.resumed.moves arch .step ms
  let (mem, bps) := putBack arch p.pc p.mem m.breakpoints
  { proc := { p with mem := mem }, breakpoints := bps }

/-- Why `step` and `next` stop in a machine state. -/
inductive Stops (arch : Arch) (d : Cdbg) (start : CStr × UInt32) (m : Machine) : Prop
  | breakpoint {bp : Breakpoint} (hmem : bp ∈ m.breakpoints) (hon : bp.enabled = true)
      (hpc : m.proc.pc = behindTrap arch bp.addr) : Stops arch d start m
  | watchpoint (hchanged : WatchChanged m.proc.mem d.watchpoints) : Stops arch d start m
  | line {cur : CStr × UInt32} (hline : d.lineno.lineAtPc m.proc.pc = some cur)
      (hne : cur ≠ start) : Stops arch d start m

/-- The instruction at the pc is a direct call. -/
def AtCall (arch : Arch) (m : Machine) : Prop :=
  match arch with
  | .x86_64 => m.proc.mem m.proc.pc = 0xe8
  | .aarch64 => valueOf (m.proc.mem.read m.proc.pc 4) &&& 0xfc000000 = 0x94000000

end Machine

/-- The debuggee stops again, and only the one thread has run. -/
def WaitEvent.SingleThreaded (tid : UInt64) : WaitEvent → Prop
  | .stopped _ ms => ∀ m ∈ ms, ∃ regs writes, m = .exec tid regs writes
  | _ => False

namespace Sys

/-- The machine states a debuggee goes through that is single-stepped from the state `p` on. -/
def course (s : Sys) (p : Process) : ℕ → Machine
  | 0 => { proc := p, breakpoints := s.dbg.breakpoints }
  | n + 1 => (course s p n).next s.os.arch (s.os.events (s.os.waits + n)).moves

/-- The state with the given number is one a stepping command stops in. -/
def StopsAt (s : Sys) (p : Process) (start : CStr × UInt32) (n : ℕ) : Prop :=
  (s.course p n).Stops s.os.arch s.dbg start

/-- The first state behind an instruction that a stepping command stops in. -/
structure FirstChange (s : Sys) (p : Process) (start : CStr × UInt32) (i : ℕ) : Prop where
  pos : 1 ≤ i
  stops : s.StopsAt p start i
  first : ∀ j, 1 ≤ j → j < i → ¬ s.StopsAt p start j

/-- A stepping command executes an instruction in the state with the given number. -/
structure Visits (s : Sys) (p : Process) (start : CStr × UInt32) (j : ℕ) : Prop where
  limit : j < maxStepIterations
  goesOn : ∀ k, 1 ≤ k → k ≤ j → ¬ s.StopsAt p start k

/-- The debugger controls the process `p`, whose only thread `t` is selected, and the kernel
does what it is asked for. -/
structure Controls (s : Sys) (p : Process) (t : Thread) : Prop where
  state : s.dbg.state = .stopped
  process : s.process s.dbg.pid = some p
  threads : p.threads = [t]
  selected : s.dbg.currentTid = tidPrimary ∨ s.dbg.currentTid = t.tid
  alive : s.os.killed = false
  reliable : ∀ c, s.Reliable c

/-- The debuggee has got to the state with the given number, and the debugger has waited for
it. -/
structure At (s : Sys) (p : Process) (tid : UInt64) (n : ℕ) (s' : Sys) : Prop where
  state : ∃ regs status kind calls log, s' =
    { dbg := { s.dbg with
        state := .stopped, waitStatus := status, regs := regs
        breakpoints := (s.course p n).breakpoints }
      os := { s.os with
        proc := some (s.course p n).proc, waits := s.os.waits + n, resume := kind, calls := calls }
      log := log }
  thread : ∃ t, (s.course p n).proc.threads = [t] ∧ t.tid = tid
  pid : (s.course p n).proc.pid = s.dbg.pid

end Sys

/-- The command succeeds once the debuggee has executed `i` instructions, and leaves it
stopped. -/
structure StopsAfter (command : DbgM Int) (s : Sys) (i : ℕ) : Prop where
  code : (command.run s).1 = 0
  waits : (command.run s).2.os.waits = s.os.waits + i
  state : (command.run s).2.dbg.state = .stopped

/-! ### One instruction -/

section Step

variable {s s' : Sys} {p q : Process} {t : Thread} {n : ℕ} {tid : UInt64}

theorem Process.thread_single (hq : q.threads = [t]) {sel : UInt64}
    (hsel : sel = tidPrimary ∨ sel = t.tid) : q.thread sel = some t := by
  rw [thread, primary, hq]
  rcases hsel with rfl | rfl
  · rw [if_pos rfl, List.head?_cons]
  · rw [List.find?_singleton, if_pos (decide_eq_true rfl), List.head?_cons, ite_self]

theorem Process.pc_single (hq : q.threads = [t]) : q.pc = t.regs.pc := by
  rw [pc, primary, hq, List.head?_cons, Option.map_some, Option.getD_some]

/-- Instructions of the only thread leave it the only one. -/
theorem Process.moves_single {arch : Arch} {kind : Resume} {ms : List Move}
    (hms : ∀ m ∈ ms, ∃ regs writes, m = .exec tid regs writes)
    (hq : ∃ t, q.threads = [t] ∧ t.tid = tid) :
    ∃ t, (q.moves arch kind ms).threads = [t] ∧ t.tid = tid := by
  refine moves_induct (P := fun q => ∃ t, q.threads = [t] ∧ t.tid = tid) (fun q m hm hq => ?_) hq
  obtain ⟨regs, writes, rfl⟩ := hms m hm
  obtain ⟨t, ht, rfl⟩ := hq
  rw [move_single ht]
  split
  · exact ⟨t, ht, rfl⟩
  · split <;> exact ⟨_, rfl, rfl⟩

theorem Process.resumed_single (hq : ∃ t, q.threads = [t] ∧ t.tid = tid) :
    ∃ t, q.resumed.threads = [t] ∧ t.tid = tid := by
  obtain ⟨t, ht, rfl⟩ := hq
  rw [resumed, ht]
  exact ⟨_, rfl, rfl⟩

/-- Behind an instruction the disabled breakpoints are put back. -/
theorem reenable_putBack (hst : s.dbg.state = .stopped) (hok : ∀ c, s.Reliable c)
    (hp : s.process s.dbg.pid = some q) (ht : q.thread s.dbg.currentTid = some t) :
    wp reenableBreakpointsAfterStep (fun rc s' => rc = 0 ∧ ∃ regs calls log, s' =
      { dbg := { s.dbg with
          regs := regs
          breakpoints := (putBack s.os.arch t.regs.pc q.mem s.dbg.breakpoints).2 }
        os := { s.os with
          proc := some { q with mem := (putBack s.os.arch t.regs.pc q.mem s.dbg.breakpoints).1 }
          calls := calls }
        log := log }) s := by
  rw [reenableBreakpointsAfterStep, wp_bind, wp_get, wp_ite]
  refine ⟨fun hnil => ?_, fun _ => ?_⟩
  · have hnil : s.dbg.breakpoints = [] := hnil.resolve_right (not_not.mpr hst)
    refine ⟨rfl, s.dbg.regs, s.os.calls, s.log, ?_⟩
    rw [hnil, putBack]
    show s = { dbg := { s.dbg with breakpoints := [] }
               os := { s.os with proc := some q }, log := s.log }
    rw [← hnil, ← (Sys.process_eq_some.mp hp).1]
  · rw [wp_bind]
    refine wp_cdbgRefreshRegs (fun _ _ hnone => ?_) fun q' u s₁ hq' hu hq₁ => ?_
    · exact absurd (ht.symm.trans (hnone (hok _) q hp)) (Option.some_ne_none t)
    · obtain rfl := Option.some.inj (hp.symm.trans hq')
      obtain rfl := Option.some.inj (ht.symm.trans hu)
      obtain ⟨k, rfl⟩ := hq₁
      rw [wp_ok, wp_bind, wp_get, wp_bind]
      refine wp_mono (reenableLoop_putBack (hok _) (hok _) hp) fun r s₂ h₂ => ?_
      obtain ⟨rfl, calls, log, rfl, -⟩ := h₂
      rw [wp_bind, wp_setBreakpoints]
      exact ⟨rfl, _, calls, log, rfl⟩

variable (hs : s.Controls p t)

include hs

/-- The state a command starts in. -/
theorem Sys.Controls.at_zero : s.At p t.tid 0 s := by
  refine ⟨⟨s.dbg.regs, s.dbg.waitStatus, s.os.resume, s.os.calls, s.log, ?_⟩, ⟨t, hs.threads, rfl⟩,
    (Sys.process_eq_some.mp hs.process).2⟩
  show s = { dbg := { s.dbg with state := .stopped }
             os := { s.os with proc := some p }, log := s.log }
  rw [← hs.state, ← (Sys.process_eq_some.mp hs.process).1]

/-- An advance of a stepping loop by one instruction. -/
theorem stepRound_at (hat : s.At p t.tid n s')
    (hev : (s.os.events (s.os.waits + n)).SingleThreaded t.tid) :
    wp stepRound (fun r s'' => r = none ∧ s.At p t.tid (n + 1) s'') s' := by
  obtain ⟨⟨regs, status, kind, calls, log, rfl⟩, hthread, hpid⟩ := hat
  have hproc : Sys.process
      { dbg := { s.dbg with
          state := .stopped, waitStatus := status, regs := regs
          breakpoints := (s.course p n).breakpoints }
        os := { s.os with
          proc := some (s.course p n).proc, waits := s.os.waits + n, resume := kind, calls := calls }
        log := log } s.dbg.pid = some (s.course p n).proc := Sys.process_eq_some.mpr ⟨rfl, hpid⟩
  rw [stepRound, wp_bind]
  refine wp_cdbgSingleStep (fun _ _ hnone => ?_) fun q s₁ hq hq₁ => ?_
  · exact absurd (hproc.symm.trans (hnone (hs.reliable _))) (Option.some_ne_none _)
  obtain rfl := Option.some.inj (hproc.symm.trans hq)
  obtain ⟨k₁, rfl⟩ := hq₁
  rw [wp_ok, wp_bind]
  have hpid' : (s.course p n).proc.resumed.pid = s.dbg.pid := hpid
  refine wp_cdbgWait (fun _ _ hnone => ?_) (fun _ _ _ hend _ => ?_) fun q sig ms s₂ hq₂ _ hms hs₂ => ?_
  · have hnone := hnone (hs.reliable _)
    exact absurd ((Sys.process_eq_some.mpr ⟨rfl, hpid'⟩).symm.trans hnone) (Option.some_ne_none _)
  · -- the debuggee neither has been killed nor ends
    have hend : s.os.killed = true ∨ (s.os.events (s.os.waits + n)).isEnd = true := hend
    rw [hs.alive] at hend
    cases he : s.os.events (s.os.waits + n) <;> rw [he] at hev hend
    · exact hev.elim
    · exact hev.elim
    · exact absurd hend (by simp [WaitEvent.isEnd])
  obtain rfl := Option.some.inj (Sys.process_eq_some.mp hq₂).1
  obtain ⟨k₂, rfl⟩ := hs₂
  have hms : s.os.events (s.os.waits + n) = .stopped sig ms := hms
  rw [hms] at hev
  obtain ⟨u, hu, htid⟩ := @Process.moves_single _ _ s.os.arch .step _ hev
    (Process.resumed_single hthread)
  have hsel : s.dbg.currentTid = tidPrimary ∨ s.dbg.currentTid = u.tid := by
    rw [htid]
    exact hs.selected
  have hmoved : (s.course p (n + 1)).proc.threads = [u] ∧
      (s.course p (n + 1)).proc.pid = s.dbg.pid := by
    rw [Sys.course, hms]
    exact ⟨hu, (Process.moves_pid ms).trans hpid'⟩
  refine wp_mono (reenable_putBack rfl (fun c => hs.reliable c)
    (Sys.process_eq_some.mpr ⟨rfl, (Process.moves_pid ms).trans hpid'⟩)
    (Process.thread_single hu hsel)) fun rc s₃ h₃ => ?_
  obtain ⟨rfl, regs', calls', log', rfl⟩ := h₃
  refine (onCode_zero).mpr ?_
  rw [wp_ok, wp_bind, wp_get, wp_ite]
  refine ⟨fun hst => absurd rfl hst, fun _ => ?_⟩
  have hpc := Process.pc_single hu
  refine ⟨rfl, ⟨regs', .stopped sig, .step, calls', log', ?_⟩, ⟨u, hmoved.1, htid⟩, hmoved.2⟩
  rw [Sys.course, hms, Machine.next]
  dsimp only [WaitEvent.moves]
  rw [hpc]
  rfl

end Step

/-! ### Reporting a stop -/

section Report

variable {s : Sys} {p : Process} {t : Thread}

theorem rewindPc_code (hok : ∀ c, s.Reliable c) (hp : s.process s.dbg.pid = some p)
    (ht : p.thread s.dbg.currentTid = some t) : wp rewindPc (fun rc _ => rc = 0) s := by
  rw [rewindPc, wp_bind, wp_get, wp_ite]
  refine ⟨fun _ => ?_, fun _ => rfl⟩
  rw [wp_bind, wp_setRegs, wp_bind]
  refine wp_cdbgRegsSet (fun _ _ hnone => ?_) fun _ _ _ _ _ _ => wp_ok.mpr rfl
  exact absurd (ht.symm.trans (hnone (hok _) p hp)) (Option.some_ne_none t)

/-- The end of `handle_breakpoint_hit`. -/
theorem refreshRewind_code (hok : ∀ c, s.Reliable c) (hp : s.process s.dbg.pid = some p)
    (ht : p.thread s.dbg.currentTid = some t) :
    wp (do
      if (← cdbgRefreshRegs) ≠ 0 then return -1
      rewindPc) (fun rc _ => rc = 0) s := by
  rw [wp_bind]
  refine wp_cdbgRefreshRegs (fun _ _ hnone => ?_) fun q u s₁ hq hu hq₁ => ?_
  · exact absurd (ht.symm.trans (hnone (hok _) _ hp)) (Option.some_ne_none t)
  · obtain ⟨k, rfl⟩ := hq₁
    rw [wp_ok]
    exact rewindPc_code hok hq hu

theorem handleBreakpointHit_code (hok : ∀ c, s.Reliable c) (hp : s.process s.dbg.pid = some p)
    (ht : p.thread s.dbg.currentTid = some t) (i : ℕ) :
    wp (handleBreakpointHit i) (fun rc _ => rc = 0) s := by
  obtain ⟨hproc, hpid⟩ := Sys.process_eq_some.mp hp
  have hrecord : s.recordHit i = s.record (.hit s.dbg p i) := by
    rw [Sys.recordHit, hproc]
  rw [handleBreakpointHit, wp_bind, wp_get, wp_bind, wp_modify, wp_bind, hrecord]
  refine wp_cdbgBpDisable (fun _ => ?_) (fun _ _ _ hnone => ?_) fun _ q s₁ hq hs₁ => ?_
  · dsimp only
    rw [wp_bind, wp_setBreakpoints, wp_ok]
    exact refreshRewind_code hok hp ht
  · exact absurd (hp.symm.trans (hnone (hok _))) (Option.some_ne_none p)
  · obtain rfl := Option.some.inj (hp.symm.trans hq)
    obtain ⟨k, rfl⟩ := hs₁
    dsimp only
    rw [wp_bind, wp_setBreakpoints, wp_ok]
    exact refreshRewind_code (fun c => hok c) (Sys.process_eq_some.mpr ⟨rfl, hpid⟩) ht

/-- With a thread selected and a kernel that does what it is asked for, a stop is reported
successfully. -/
theorem reportStop_code (hok : ∀ c, s.Reliable c) (hp : s.process s.dbg.pid = some p)
    (ht : p.thread s.dbg.currentTid = some t) : wp reportStop (fun rc _ => rc = 0) s := by
  -- what the two functions in front of `reportSelected` leave as it is
  have hselected : ∀ s' q u, (∀ c, s'.Reliable c) → s'.process s'.dbg.pid = some q →
      q.thread s'.dbg.currentTid = some u → wp reportSelected (fun rc _ => rc = 0) s' := by
    intro s' q u hok' hq hu
    refine wp_reportSelected (fun _ _ hnone => ?_) (fun _ _ _ _ _ _ _ => rfl)
      fun q' u' i bp s₁ hq' hu' _ _ _ hs₁ => ?_
    · exact absurd (hu.symm.trans (hnone (hok' _) q hq)) (Option.some_ne_none u)
    · obtain ⟨k, rfl⟩ := hs₁
      refine handleBreakpointHit_code (p := q') (t := u') ?_ ?_ ?_ i
      · exact hok'
      · exact hq'
      · exact hu'
  rw [reportStop, wp_bind]
  refine wp_mono (wp_resync_rearmed hp) fun _ s₁ h₁ => ?_
  obtain ⟨p₁, hre⟩ := h₁
  have hok₁ := hre.reliable hok
  obtain ⟨t₁, ht₁, -, -⟩ := Process.thread_of_places hre.places.symm ht
  rw [← hre.dbg] at ht₁
  rw [wp_bind]
  refine wp_switchCurrentTidToBreakpointHit (fun s₂ hq _ => ?_)
    fun q before i after u s₂ _ hq htrap _ hs₂ => ?_
  · obtain ⟨k, rfl⟩ := hq
    exact hselected _ p₁ t₁ (fun c => hok₁ c) hre.process ht₁
  · obtain ⟨k, rfl⟩ := hs₂
    exact hselected _ q u (fun c => hok₁ c) hq htrap.1

end Report

/-! ### Looking at a stop -/

section Look

variable {s s' s'' : Sys} {p : Process} {t : Thread} {n : ℕ} {start : CStr × UInt32}

theorem Sys.At.of_quiet (hat : s.At p t.tid n s') (hq : s'.Quiet s'') : s.At p t.tid n s'' := by
  obtain ⟨⟨regs, status, kind, calls, log, rfl⟩, hthread, hpid⟩ := hat
  obtain ⟨k, rfl⟩ := hq
  exact ⟨⟨regs, status, kind, k, log, rfl⟩, hthread, hpid⟩

variable (hs : s.Controls p t)

include hs

/-- What a stepping loop finds in the state with the given number. -/
theorem Sys.At.facts (hat : s.At p t.tid n s') :
    (∀ c, s'.Reliable c) ∧ s'.process s'.dbg.pid = some (s.course p n).proc ∧
      ∃ u, (s.course p n).proc.thread s'.dbg.currentTid = some u ∧
        (s.course p n).proc.threads = [u] ∧ u.regs.pc = (s.course p n).proc.pc := by
  obtain ⟨⟨regs, status, kind, calls, log, rfl⟩, ⟨u, hu, htid⟩, hpid⟩ := hat
  refine ⟨fun c => hs.reliable c, Sys.process_eq_some.mpr ⟨rfl, hpid⟩, u,
    Process.thread_single hu ?_, hu, (Process.pc_single hu).symm⟩
  rw [htid]
  exact hs.selected

/-- Reading the registers at a stop. -/
theorem Sys.At.wp_refresh {Q : Int → Sys → Prop} (hat : s.At p t.tid n s')
    (hQ : ∀ s₁, s.At p t.tid n s₁ → s₁.dbg.regs.pc = (s.course p n).proc.pc → Q 0 s₁) :
    wp cdbgRefreshRegs Q s' := by
  obtain ⟨hok, hp, u, hu, -, hpc⟩ := hat.facts hs
  refine wp_cdbgRefreshRegs (fun _ _ hnone => ?_) fun q v s₁ hq hv hq₁ => ?_
  · exact absurd (hu.symm.trans (hnone (hok _) _ hp)) (Option.some_ne_none u)
  · obtain rfl := Option.some.inj (hp.symm.trans hq)
    obtain rfl := Option.some.inj (hu.symm.trans hv)
    obtain ⟨⟨regs, status, kind, calls, log, rfl⟩, hthread, hpid⟩ := hat
    obtain ⟨k, rfl⟩ := hq₁
    exact hQ _ ⟨⟨_, status, kind, k, log, rfl⟩, hthread, hpid⟩ hpc

theorem Sys.At.wp_findWatchpointHit (hat : s.At p t.tid n s') :
    wp findWatchpointHit (fun r s'' => s'.Quiet s'' ∧
      (r = none ↔ ¬ WatchChanged (s.course p n).proc.mem s.dbg.watchpoints)) s' := by
  obtain ⟨hok, hp, -⟩ := hat.facts hs
  have hwps : s'.dbg.watchpoints = s.dbg.watchpoints := by
    obtain ⟨⟨regs, status, kind, calls, log, rfl⟩, -⟩ := hat
    rfl
  have hfind : wp findWatchpointHit (fun r _ =>
      r = none ↔ ¬ WatchChanged (s.course p n).proc.mem s.dbg.watchpoints) s' := by
    rw [findWatchpointHit, wp_bind, wp_get, hwps]
    exact wp_mono (findWatchpointHitFrom_iff 0 (hok _) hp) fun r _ hr => not_not.symm.trans
      (not_congr hr)
  exact wp_mono (findWatchpointHit_keeps.wp_and hfind) fun r s₁ h =>
    ⟨Sys.quiet_iff_sansCalls.mpr h.2, h.1⟩

/-- The tests of a stepping loop leave it exactly in the states that stop. -/
theorem Sys.At.checkStop (hat : s.At p t.tid n s') :
    wp (checkStop start) (fun r s'' =>
      (s.StopsAt p start n → r = .inr 0 ∧ s''.os.waits = s.os.waits + n ∧
        s''.dbg.state = .stopped) ∧
      (¬ s.StopsAt p start n → r = .inl (s.course p n).proc.pc ∧ s.At p t.tid n s'')) s' := by
  -- whatever is reported, nothing is executed
  have hends : ∀ {s₁ s₂ : Sys}, s.At p t.tid n s₁ → s₂.sansReports = s₁.sansReports →
      s₂.os.waits = s.os.waits + n ∧ s₂.dbg.state = .stopped := by
    rintro s₁ s₂ ⟨⟨regs, status, kind, calls, log, rfl⟩, -⟩ hv
    exact ⟨congrArg (·.os.waits) hv, congrArg (·.dbg.state) hv⟩
  rw [Debugger.checkStop, wp_bind]
  refine hat.wp_refresh hs fun s₁ hat₁ hpc => ?_
  obtain ⟨hok, hp, u, hu, -, -⟩ := hat₁.facts hs
  have hsame : s₁.os.arch = s.os.arch ∧ s₁.dbg.breakpoints = (s.course p n).breakpoints ∧
      s₁.dbg.lineno = s.dbg.lineno := by
    obtain ⟨⟨regs, status, kind, calls, log, rfl⟩, -⟩ := hat₁
    exact ⟨rfl, rfl, rfl⟩
  rw [wp_ok, wp_bind, wp_get, hpc, hsame.1, hsame.2.1, hsame.2.2, wp_ite]
  have htrap : cdbgBpIsTrap s.os.arch (s.course p n).proc.pc (s.course p n).breakpoints = true ↔
      ∃ bp ∈ (s.course p n).breakpoints, bp.enabled = true ∧
        (s.course p n).proc.pc = behindTrap s.os.arch bp.addr := by
    rw [cdbgBpIsTrap, List.any_eq_true]
    simp only [cdbgBpMatchesPc_iff]
  refine ⟨fun h => ?_, fun h => ?_⟩
  · obtain ⟨bp, hmem, hon, hbp⟩ := htrap.mp h
    have hstops : s.StopsAt p start n := .breakpoint hmem hon hbp
    rw [wp_bind]
    refine wp_mono (reportStop_keeps.wp_and (reportStop_code hok hp hu)) fun rc s₂ h₂ => ?_
    obtain ⟨rfl, hv⟩ := h₂
    exact ⟨fun _ => ⟨rfl, hends hat₁ hv⟩, fun hno => absurd hstops hno⟩
  rw [wp_bind]
  refine wp_mono (hat₁.wp_findWatchpointHit hs) fun r s₂ h₂ => ?_
  obtain ⟨hq, hr⟩ := h₂
  have hat₂ := hat₁.of_quiet hq
  cases r with
  | some i =>
    have hchanged : WatchChanged (s.course p n).proc.mem s.dbg.watchpoints :=
      not_not.mp fun hno => absurd (hr.mpr hno) (Option.some_ne_none i)
    dsimp only
    rw [wp_bind]
    refine wp_mono (reportWatchpointHit_keeps i s₂) fun _ s₃ hv => ?_
    exact ⟨fun _ => ⟨rfl, hends hat₂ hv⟩, fun hno => absurd (.watchpoint hchanged) hno⟩
  | none =>
    have hunchanged := hr.mp rfl
    -- only the line is left to look at
    have hstops : s.StopsAt p start n ↔ ∃ cur,
        s.dbg.lineno.lineAtPc (s.course p n).proc.pc = some cur ∧ cur ≠ start := by
      constructor
      · intro hst
        cases hst with
        | breakpoint hmem hon hbp => exact absurd (htrap.mpr ⟨_, hmem, hon, hbp⟩) h
        | watchpoint hchanged => exact absurd hchanged hunchanged
        | line hcur hne => exact ⟨_, hcur, hne⟩
      · rintro ⟨cur, hcur, hne⟩
        exact .line hcur hne
    rw [hstops]
    dsimp only
    cases hline : s.dbg.lineno.lineAtPc (s.course p n).proc.pc with
    | none =>
      dsimp only
      rw [wp_pure]
      refine ⟨fun hsome => ?_, fun _ => ⟨rfl, hat₂⟩⟩
      obtain ⟨cur, hcur, -⟩ := hsome
      exact absurd hcur.symm (Option.some_ne_none cur)
    | some cur =>
      dsimp only
      rw [wp_pure]
      by_cases hne : cur ≠ start
      · rw [if_pos hne]
        exact ⟨fun _ => ⟨rfl, hends hat₂ rfl⟩, fun hno => absurd ⟨cur, rfl, hne⟩ hno⟩
      · rw [if_neg hne]
        refine ⟨fun hsome => ?_, fun _ => ⟨rfl, hat₂⟩⟩
        obtain ⟨cur', hcur, hne'⟩ := hsome
        rw [← Option.some.inj hcur] at hne'
        exact absurd hne' hne

end Look

/-! ### The loops -/

section Loops

variable {s s' : Sys} {p : Process} {t : Thread} {n : ℕ} {start : CStr × UInt32}

/-- With only the primary thread there is nothing to suspend. -/
theorem stepThreadGuardCatchUp_single (hs : s.Controls p t) (hat : s.At p t.tid n s') :
    wp (stepThreadGuardCatchUp []) (fun guard s'' => guard = [] ∧ s'.Quiet s'') s' := by
  obtain ⟨-, hp, u, -, hu, -⟩ := hat.facts hs
  rw [stepThreadGuardCatchUp, wp_bind, wp_get, wp_ite]
  refine ⟨fun _ => ⟨rfl, .refl s'⟩, fun _ => ?_⟩
  rw [wp_bind]
  refine wp_cdbgThreadsList (fun s₁ hq _ => ⟨rfl, hq⟩) fun q s₁ hq hq₁ => ?_
  obtain rfl := Option.some.inj (hp.symm.trans hq)
  have hinfos : (s.course p n).proc.threadInfos.take maxThreads =
      [{ tid := u.tid, isPrimary := true }] := by
    rw [Process.threadInfos, hu]
    rfl
  dsimp only
  rw [hinfos, catchUpLoop, if_neg (by decide), if_pos (.inl rfl)]
  exact ⟨rfl, hq₁⟩

/-- Away from a direct call `next` advances like `step`. -/
theorem nextRound_at (hs : s.Controls p t) (hat : s.At p t.tid n s')
    (hev : (s.os.events (s.os.waits + n)).SingleThreaded t.tid)
    (hcall : ¬ (s.course p n).AtCall s.os.arch) :
    wp (nextRound (s.course p n).proc.pc) (fun r s'' => r = none ∧ s.At p t.tid (n + 1) s'') s' := by
  obtain ⟨-, hp, -⟩ := hat.facts hs
  have harch : s'.os.arch = s.os.arch := by
    obtain ⟨⟨regs, status, kind, calls, log, rfl⟩, -⟩ := hat
    rfl
  have hnone : wp (callReturnAddress (s.course p n).proc.pc) (fun r s'' => r = none ∧ s'.Quiet s'')
      s' := by
    rw [callReturnAddress, wp_bind, wp_get, harch]
    rw [Machine.AtCall.eq_def] at hcall
    generalize s.os.arch = arch at hcall
    cases arch with
    | x86_64 =>
      dsimp only at hcall ⊢
      rw [wp_bind]
      refine wp_cdbgMemRead (fun _ hq _ => ⟨rfl, hq⟩) fun q s₁ hq hq₁ => ⟨?_, hq₁⟩
      obtain rfl := Option.some.inj (hp.symm.trans hq)
      rw [Mem.read_one]
      exact if_neg hcall
    | aarch64 =>
      dsimp only at hcall ⊢
      rw [wp_bind]
      refine wp_cdbgMemRead (fun _ hq _ => ⟨rfl, hq⟩) fun q s₁ hq hq₁ => ⟨?_, hq₁⟩
      obtain rfl := Option.some.inj (hp.symm.trans hq)
      exact if_neg hcall
  rw [nextRound, wp_bind]
  refine wp_mono hnone fun r s₁ h₁ => ?_
  obtain ⟨rfl, hq⟩ := h₁
  exact stepRound_at hs (hat.of_quiet hq) hev

/-- An advance that executes one instruction in every state the command visits. -/
def RoundAdvances (s : Sys) (p : Process) (t : Thread) (start : CStr × UInt32)
    (advance : Addr → DbgM (Option Int)) : Prop :=
  ∀ j, s.Visits p start j → ∀ s', s.At p t.tid j s' →
    wp (advance (s.course p j).proc.pc) (fun r s'' => r = none ∧ s.At p t.tid (j + 1) s'') s'

/-- A round of a stepping loop leads to the next state, and leaves the loop when that state
stops. -/
theorem stepLoopRound_at (hs : s.Controls p t) {advance : Addr → DbgM (Option Int)}
    (hadv : RoundAdvances s p t start advance) (hvis : s.Visits p start n) (hat : s.At p t.tid n s') :
    wp (stepLoopRound advance start ([], (s.course p n).proc.pc)) (fun r s'' =>
      (s.StopsAt p start (n + 1) → r = .inr ([], 0) ∧ s''.os.waits = s.os.waits + (n + 1) ∧
        s''.dbg.state = .stopped) ∧
      (¬ s.StopsAt p start (n + 1) → r = .inl ([], (s.course p (n + 1)).proc.pc) ∧
        s.At p t.tid (n + 1) s'')) s' := by
  rw [stepLoopRound, wp_bind]
  refine wp_mono (stepThreadGuardCatchUp_single hs hat) fun guard s₁ h₁ => ?_
  obtain ⟨rfl, hq⟩ := h₁
  rw [wp_bind]
  refine wp_mono (hadv n hvis s₁ (hat.of_quiet hq)) fun r s₂ h₂ => ?_
  obtain ⟨rfl, hat₂⟩ := h₂
  dsimp only
  rw [wp_bind]
  refine wp_mono (hat₂.checkStop hs) fun r s₃ h₃ => ?_
  by_cases hst : s.StopsAt p start (n + 1)
  · obtain ⟨rfl, hend⟩ := h₃.1 hst
    exact ⟨fun _ => ⟨rfl, hend⟩, fun hno => absurd hst hno⟩
  · obtain ⟨rfl, hat₃⟩ := h₃.2 hst
    exact ⟨fun h => absurd h hst, fun _ => ⟨rfl, hat₃⟩⟩

/-- A stepping command that starts at a line is its loop. -/
theorem stepLines_wp (hs : s.Controls p t) {advance : Addr → DbgM (Option Int)}
    (hline : s.dbg.lineno.lineAtPc t.regs.pc = some start) {Q : Int → Sys → Prop}
    (hloop : ∀ s₁, s.At p t.tid 0 s₁ → wp (loopUpTo (stepLoopRound advance start)
      maxStepIterations ([], (s.course p 0).proc.pc)) (fun r s' =>
        (∃ pc, r = .inl ([], pc) ∧ Q (-1) s') ∨ ∃ rc, r = .inr ([], rc) ∧ Q rc s') s₁) :
    wp (stepLines advance) Q s := by
  rw [stepLines, wp_bind]
  refine (hs.at_zero).wp_refresh hs fun s₁ hat₁ hpc => ?_
  have hlineno : s₁.dbg.lineno = s.dbg.lineno := by
    obtain ⟨⟨regs, status, kind, calls, log, rfl⟩, -⟩ := hat₁
    rfl
  have hstart : (s.course p 0).proc.pc = t.regs.pc := Process.pc_single hs.threads
  rw [wp_ok, wp_bind, wp_get, hpc, hlineno, hstart]
  dsimp only
  rw [hline]
  dsimp only
  rw [wp_bind, stepThreadGuardBegin]
  refine wp_mono (stepThreadGuardCatchUp_single hs hat₁) fun guard s₂ h₂ => ?_
  obtain ⟨rfl, hq⟩ := h₂
  rw [wp_bind, ← hstart]
  refine wp_mono (hloop s₂ (hat₁.of_quiet hq)) fun r s₃ h₃ => ?_
  rcases h₃ with ⟨pc, rfl, hQ⟩ | ⟨rc, rfl, hQ⟩
  · exact hQ
  · exact hQ

/-- In the states before the first change the loop goes on. -/
theorem stepLoopRound_goesOn (hs : s.Controls p t) {advance : Addr → DbgM (Option Int)}
    (hadv : RoundAdvances s p t start advance) (hn : n < maxStepIterations)
    (hno : ∀ k, 1 ≤ k → k ≤ n + 1 → ¬ s.StopsAt p start k) {b : Guard × Addr}
    (hb : b = ([], (s.course p n).proc.pc) ∧ s.At p t.tid n s') :
    wp (stepLoopRound advance start b) (fun r s'' => ∃ b', r = .inl b' ∧
      b' = ([], (s.course p (n + 1)).proc.pc) ∧ s.At p t.tid (n + 1) s'') s' := by
  obtain ⟨rfl, hat⟩ := hb
  have hvis : s.Visits p start n := ⟨hn, fun k h1 hk => hno k h1 (Nat.le_succ_of_le hk)⟩
  refine wp_mono (stepLoopRound_at hs hadv hvis hat) fun r s₁ h₁ => ?_
  obtain ⟨rfl, hat₁⟩ := h₁.2 (hno (n + 1) (Nat.succ_pos n) (Nat.le_refl _))
  exact ⟨_, rfl, rfl, hat₁⟩

theorem stepLines_first (hs : s.Controls p t) {advance : Addr → DbgM (Option Int)}
    (hadv : RoundAdvances s p t start advance) (hline : s.dbg.lineno.lineAtPc t.regs.pc = some start)
    {i : ℕ} (hi : i ≤ maxStepIterations) (hfirst : s.FirstChange p start i) :
    StopsAfter (stepLines advance) s i := by
  obtain ⟨hpos, hstops, hbefore⟩ := hfirst
  obtain ⟨k, rfl⟩ := Nat.exists_eq_add_of_le' hpos
  have hrun : wp (stepLines advance) (fun rc s' => rc = 0 ∧
      s'.os.waits = s.os.waits + (k + 1) ∧ s'.dbg.state = .stopped) s := by
    refine stepLines_wp hs hline fun s₁ hat₁ => ?_
    refine wp_mono (wp_loopUpTo_leaves (i := k)
      (I := fun j b s' => b = ([], (s.course p j).proc.pc) ∧ s.At p t.tid j s')
      (E := fun c s' => c = (([], 0) : Guard × Int) ∧ s'.os.waits = s.os.waits + (k + 1) ∧
        s'.dbg.state = .stopped) hi (fun j hj b s' hb => ?_) (fun b s' hb => ?_) ⟨rfl, hat₁⟩)
      fun r s' h => ?_
    · exact stepLoopRound_goesOn hs hadv (Nat.lt_trans hj hi)
        (fun m h1 hm => hbefore m h1 (Nat.lt_of_le_of_lt hm (Nat.succ_lt_succ hj))) hb
    · -- the last round
      obtain ⟨rfl, hat⟩ := hb
      have hvis : s.Visits p start k := ⟨hi, fun m h1 hm => hbefore m h1 (Nat.lt_succ_of_le hm)⟩
      refine wp_mono (stepLoopRound_at hs hadv hvis hat) fun r s₂ h₂ => ?_
      obtain ⟨rfl, hend⟩ := h₂.1 hstops
      exact ⟨_, rfl, rfl, hend⟩
    · obtain ⟨c, rfl, rfl, hend⟩ := h
      exact .inr ⟨0, rfl, rfl, hend⟩
  exact ⟨hrun.1, hrun.2.1, hrun.2.2⟩

/-- Without a change within the limit the command fails. -/
theorem stepLines_none (hs : s.Controls p t) {advance : Addr → DbgM (Option Int)}
    (hadv : RoundAdvances s p t start advance) (hline : s.dbg.lineno.lineAtPc t.regs.pc = some start)
    (hno : ∀ j, 1 ≤ j → j ≤ maxStepIterations → ¬ s.StopsAt p start j) :
    wp (stepLines advance) (fun rc _ => rc = -1) s := by
  refine stepLines_wp hs hline fun s₁ hat₁ => ?_
  refine wp_mono (wp_loopUpTo_goesOn
    (I := fun j b s' => b = ([], (s.course p j).proc.pc) ∧ s.At p t.tid j s')
    (fun j hj b s' hb => ?_) ⟨rfl, hat₁⟩) fun r s' h => ?_
  · exact stepLoopRound_goesOn hs hadv hj (fun m h1 hm => hno m h1 (Nat.le_trans hm hj)) hb
  · obtain ⟨b, rfl, rfl, -⟩ := h
    exact .inl ⟨_, rfl, rfl⟩

/-- A stepping command stops in the first state that stops, if the rounds suffice. -/
theorem stepLines_stopsAfter_iff (hs : s.Controls p t) {advance : Addr → DbgM (Option Int)}
    (hadv : RoundAdvances s p t start advance) (hline : s.dbg.lineno.lineAtPc t.regs.pc = some start)
    {i : ℕ} : StopsAfter (stepLines advance) s i ↔
      i ≤ maxStepIterations ∧ s.FirstChange p start i := by
  refine ⟨fun h => ?_, fun h => stepLines_first hs hadv hline h.1 h.2⟩
  by_cases hex : ∃ j, 1 ≤ j ∧ j ≤ maxStepIterations ∧ s.StopsAt p start j
  · classical
    -- the command has stopped after the first of them, and has not executed more
    have hfirst : s.FirstChange p start (Nat.find hex) :=
      ⟨(Nat.find_spec hex).1, (Nat.find_spec hex).2.2, fun j h1 hj hst =>
        Nat.find_min hex hj ⟨h1, Nat.le_trans (Nat.le_of_lt hj) (Nat.find_spec hex).2.1, hst⟩⟩
    have hle := (Nat.find_spec hex).2.1
    obtain rfl : i = Nat.find hex := Nat.add_left_cancel
      (h.waits.symm.trans (stepLines_first hs hadv hline hle hfirst).waits)
    exact ⟨hle, hfirst⟩
  · have hcode := stepLines_none hs hadv hline fun j h1 hj hst => hex ⟨j, h1, hj, hst⟩
    exact absurd (h.code.symm.trans hcode) (by decide)

end Loops

/-- `step` stops at the first change within the limit and nowhere else, and `next` stops at
the same state if no instruction it executes is a direct call. -/
theorem step_next_stop_at_first_change {s : Sys} {p : Process} {t : Thread}
    {start : CStr × UInt32} (hs : s.Controls p t)
    (hline : s.dbg.lineno.lineAtPc t.regs.pc = some start)
    (hrun : ∀ j, s.Visits p start j →
      (s.os.events (s.os.waits + j)).SingleThreaded t.tid) (i : ℕ) :
    (StopsAfter cdbgStepNextLine s i ↔ i ≤ maxStepIterations ∧ s.FirstChange p start i) ∧
      ((∀ j, s.Visits p start j → ¬ (s.course p j).AtCall s.os.arch) →
        (StopsAfter cdbgNextSourceLine s i ↔
          i ≤ maxStepIterations ∧ s.FirstChange p start i)) := by
  refine ⟨stepLines_stopsAfter_iff hs (fun j hj s' hat => ?_) hline,
    fun hcalls => stepLines_stopsAfter_iff hs (fun j hj s' hat => ?_) hline⟩
  · exact stepRound_at hs hat (hrun j hj)
  · exact nextRound_at hs hat (hrun j hj) (hcalls j hj)

/-- A thread that executes one instruction after the other, four bytes of which belong to line
10. -/
def straightLine : Sys :=
  let s := Sys.attached .x86_64
    { pid := 100
      mem := fun _ => 0x90
      threads := [{ tid := 1, regs := x86At 0x1000 }]
      usedTids := [1] }
    fun n => .stopped 5 [.exec 1 (x86At (0x1001 + UInt64.ofNat n)) []]
  { s with dbg := { s.dbg with lineno := { entries :=
    [{ address := 0x1000, line := 10, column := 0, file := "a.c".toList },
      { address := 0x1004, line := 11, column := 0, file := "a.c".toList }] } } }

/-- Four instructions lead to the next line. -/
theorem step_next_stop_after_four :
    StopsAfter cdbgStepNextLine straightLine 4 ∧ StopsAfter cdbgNextSourceLine straightLine 4 := by
  let p : Process :=
    { pid := 100
      mem := fun _ => 0x90
      threads := [{ tid := 1, regs := x86At 0x1000 }]
      usedTids := [1] }
  have hs : straightLine.Controls p { tid := 1, regs := x86At 0x1000 } :=
    ⟨rfl, rfl, rfl, .inl rfl, rfl, fun _ _ => rfl⟩
  -- the states up to the next line have no breakpoints, no call and the line of the start
  have hbefore : ∀ j < 4, (straightLine.course p j).breakpoints = [] ∧
      (straightLine.course p j).proc.mem (straightLine.course p j).proc.pc ≠ 0xe8 ∧
      straightLine.dbg.lineno.lineAtPc (straightLine.course p j).proc.pc =
        some ("a.c".toList, 10) := by
    decide +kernel
  have hno : ∀ j, 1 ≤ j → j < 4 → ¬ straightLine.StopsAt p ("a.c".toList, 10) j := by
    intro j _ hj hst
    obtain ⟨hbps, -, hcur⟩ := hbefore j hj
    cases hst with
    | breakpoint hmem =>
      rw [hbps] at hmem
      exact absurd hmem List.not_mem_nil
    | watchpoint hchanged =>
      obtain ⟨watch, hmem, -⟩ := hchanged
      exact absurd hmem List.not_mem_nil
    | line hline hne => exact hne (Option.some.inj (hline.symm.trans hcur))
  have hstops : straightLine.StopsAt p ("a.c".toList, 10) 4 :=
    .line (show _ = some ("a.c".toList, 11) by decide +kernel) (by decide)
  have hvisits : ∀ j, straightLine.Visits p ("a.c".toList, 10) j → j < 4 := fun j hj =>
    Nat.lt_of_not_le fun hle => hj.goesOn 4 (by decide) hle hstops
  have hrun : ∀ j, straightLine.Visits p ("a.c".toList, 10) j →
      (straightLine.os.events (straightLine.os.waits + j)).SingleThreaded 1 := by
    intro j _ m hm
    exact ⟨_, _, List.mem_singleton.mp hm⟩
  have hfirst : straightLine.FirstChange p ("a.c".toList, 10) 4 := ⟨by decide, hstops, hno⟩
  have hiff := step_next_stop_at_first_change hs (by decide +kernel) hrun 4
  exact ⟨hiff.1.mpr ⟨by decide, hfirst⟩, (hiff.2 fun j hj => (hbefore j (hvisits j hj)).2.1).mpr
    ⟨by decide, hfirst⟩⟩

end Debugger
