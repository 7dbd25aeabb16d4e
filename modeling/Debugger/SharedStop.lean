/-
Several threads at breakpoints.

`report_stop` takes one hit: the first thread it finds behind the trap of an enabled breakpoint
moves back, and that breakpoint is taken out.  The other threads that have executed traps stay
behind them, and `cdbg_continue` resumes them there.  `resumes_rewound_iff` says when no thread
is resumed behind a trap it has executed.
-/
import Debugger.NextHits

open Prog

namespace Debugger

/-- There is an enabled entry at the address. -/
def Patched (bps : List Breakpoint) (a : Addr) : Prop :=
  ∃ bp ∈ bps, bp.enabled = true ∧ bp.addr = a

namespace Process

/-- A thread that has executed the trap of an entry last stands at the program's own
instruction there. -/
def Rewound (p : Process) (bps : List Breakpoint) (own : Mem) : Prop :=
  ∀ t ∈ p.threads, ∀ a, t.last = .trap a → Patched bps a → t.regs.pc = a ∧ p.mem a = own a

/-- No thread stands behind the trap of an entry that it has executed last. -/
def NoneBehind (p : Process) (bps : List Breakpoint) : Prop :=
  ∀ t ∈ p.threads, ∀ a, t.last = .trap a → Patched bps a → t.regs.pc ≠ a + 1

/-- A single thread has executed traps of the table, and the entry that `report_stop` handles
for it holds the program's own byte. -/
def HitsOnce (p : Process) (bps : List Breakpoint) (own : Mem) : Prop :=
  ∀ t ∈ p.threads, ∀ a, t.last = .trap a → Patched bps a → a + 1 ≠ 0 ∧
    (p.firstTrapped .x86_64 bps).map (·.tid) = some t.tid ∧
    (bps.find? (cdbgBpMatchesPc .x86_64 (a + 1))).map (·.savedByte) = some (own a)

end Process

/-- The debuggee is resumed with every thread that has executed a trap moved back. -/
def Obs.ResumesRewound (bps : List Breakpoint) (own : Mem) : Obs → Prop
  | .resume _ _ p => p.Rewound bps own
  | _ => True

/-- The debuggee has stopped without a trap of the table, or without the selected thread. -/
def Obs.StopsClear (bps : List Breakpoint) : Obs → Prop
  | .stop d p => p.thread d.currentTid ≠ none → p.NoneBehind bps
  | _ => True

/-- `report_stop`, and `cdbg_repl_cmd_continue` up to its `PT_CONTINUE`. -/
def reportAndContinue : DbgM Int := do
  let _ ← reportStop
  cdbgContinue

/-! ### What the threads do up to a stop -/

namespace Process

variable {p : Process} {kind : Resume} {bps : List Breakpoint} {own : Mem}

/-- A thread is as it was, or it stands behind the trap it has executed last. -/
theorem moves_behind {ms : List Move} : ∀ t ∈ (p.moves .x86_64 kind ms).threads,
    t ∈ p.threads ∨ ∀ a, t.last = .trap a → t.regs.pc = a + 1 := by
  refine moves_induct (P := fun q => ∀ t ∈ q.threads,
    t ∈ p.threads ∨ ∀ a, t.last = .trap a → t.regs.pc = a + 1) (fun q m _ hq => ?_)
    fun t ht => .inl ht
  have hmap : ∀ tid (f : Thread → Thread), (∀ t a, (f t).last = .trap a →
      (f t).regs.pc = a + 1) → ∀ t ∈ (q.mapThread tid f).threads,
        t ∈ p.threads ∨ ∀ a, t.last = .trap a → t.regs.pc = a + 1 := by
    intro tid f hf t ht
    obtain ⟨u, hu, rfl⟩ := List.mem_map.mp ht
    by_cases htid : u.tid = tid
    · rw [if_pos htid]
      exact .inr (hf u)
    · rw [if_neg htid]
      exact hq u hu
  rcases @move_cases .x86_64 kind q m with
    hm | ⟨tid, regs, writes, t, -, -, -, ⟨-, hm⟩ | ⟨-, hm⟩⟩ | ⟨tid, regs, -, -, hm⟩ |
      ⟨tid, hm⟩
  · rw [hm]
    exact hq
  · rw [hm]
    refine hmap tid _ fun u a hlast => ?_
    obtain rfl : u.regs.pc = a := LastExec.trap.inj hlast
    exact Regs.pc_setPc _ _
  · rw [hm]
    exact hmap tid (·.execInstr (q.stepsOnce kind tid) regs) fun u a hlast =>
      LastExec.noConfusion hlast
  · rw [hm]
    intro u hu
    rcases List.mem_append.mp hu with hu | hu
    · exact hq u hu
    · obtain rfl := List.mem_singleton.mp hu
      exact .inr fun a hlast => LastExec.noConfusion hlast
  · rw [hm]
    exact fun u hu => hq u (List.mem_filter.mp hu).1

/-- The first thread stays the first as long as it exists. -/
theorem moves_primary {arch : Arch} {ms : List Move} {t : Thread} (hwf : p.WellFormed)
    (ht : p.primary = some t) :
    t.tid ∈ (p.moves arch kind ms).threads.map (·.tid) →
      (p.moves arch kind ms).primary.map (·.tid) = some t.tid := by
  refine (moves_induct (P := fun q => t.tid ∈ q.usedTids ∧ (t.tid ∈ q.threads.map (·.tid) →
    q.primary.map (·.tid) = some t.tid)) (fun q m _ hq => ?_) ⟨?_, fun _ => ?_⟩).2
  · have hsame : ∀ {q' : Process}, q'.threads.map (·.tid) = q.threads.map (·.tid) →
        q'.usedTids = q.usedTids → t.tid ∈ q'.usedTids ∧ (t.tid ∈ q'.threads.map (·.tid) →
          q'.primary.map (·.tid) = some t.tid) := by
      intro q' htids hused
      rw [primary, ← List.head?_map] at hq ⊢
      rw [htids, hused]
      exact hq
    rcases @move_cases arch kind q m with
      hm | ⟨tid, regs, writes, t, -, -, -, ⟨-, hm⟩ | ⟨-, hm⟩⟩ | ⟨tid, regs, -, hnew, hm⟩ |
        ⟨tid, hm⟩
    · rw [hm]
      exact hq
    · rw [hm]
      exact hsame (mapThread_tids fun _ => rfl) rfl
    · rw [hm]
      exact hsame (@mapThread_tids q tid (·.execInstr (q.stepsOnce kind tid) regs) fun _ => rfl) rfl
    · rw [hm]
      refine ⟨List.mem_cons_of_mem _ hq.1, fun hmem => ?_⟩
      -- the new id is not that of the first thread
      have hne : t.tid ≠ tid := fun h => hnew (h ▸ hq.1)
      have hold : t.tid ∈ q.threads.map (·.tid) := by simpa [hne] using hmem
      have hfirst := hq.2 hold
      rw [primary, ← List.head?_map] at hfirst ⊢
      rw [List.map_append, List.head?_append, hfirst]
      rfl
    · rw [hm]
      refine ⟨hq.1, fun hmem => ?_⟩
      obtain ⟨u, hu, htid⟩ := List.mem_map.mp hmem
      obtain ⟨hu, hne⟩ := List.mem_filter.mp hu
      have hfirst := hq.2 (htid ▸ List.mem_map_of_mem hu)
      obtain ⟨v, hv, hvtid⟩ := Option.map_eq_some_iff.mp hfirst
      obtain ⟨rest, hrest⟩ : ∃ rest, q.threads = v :: rest := by
        rw [primary] at hv
        cases hq' : q.threads with
        | nil => rw [hq'] at hv; exact absurd hv (by simp)
        | cons w ws => rw [hq', List.head?_cons, Option.some.injEq] at hv; exact ⟨ws, by rw [hv]⟩
      have hkeep : decide (v.tid ≠ tid) = true := by
        rw [hvtid, ← htid]
        exact hne
      rw [primary, hrest]
      show (((v :: rest).filter fun x => decide (x.tid ≠ tid)).head?).map (·.tid) = _
      rw [List.filter_cons, if_pos hkeep]
      exact congrArg some hvtid
  · rw [primary] at ht
    exact hwf.used t (List.mem_of_mem_head? ht)
  · rw [ht]
    rfl

/-- Of two threads with the same id there is only one. -/
theorem WellFormed.eq_of_tid (hwf : p.WellFormed) {t u : Thread} (ht : t ∈ p.threads)
    (hu : u ∈ p.threads) (h : t.tid = u.tid) : t = u :=
  List.inj_on_of_nodup_map hwf.nodup ht hu h

theorem moves_wellFormed {arch : Arch} {ms : List Move} (hwf : p.WellFormed) :
    (p.moves arch kind ms).WellFormed :=
  moves_induct (P := WellFormed) (fun _ m _ hq => hq.move m) hwf

theorem WellFormed.thread_tid (hwf : p.WellFormed) {t : Thread} (ht : t ∈ p.threads) :
    p.thread t.tid = some t := by
  rw [thread, if_neg (hwf.ne_zero t ht)]
  cases hfind : p.threads.find? (·.tid = t.tid) with
  | none => exact absurd (List.find?_eq_none.mp hfind t ht) (by simp)
  | some u =>
    have htid : u.tid = t.tid := by simpa using List.find?_some hfind
    rw [hwf.eq_of_tid (List.mem_of_find?_eq_some hfind) ht htid]

/-- Among at most `CDBG_MAX_THREADS` threads a trapped one is found. -/
theorem WellFormed.firstTrapped_ne_none (hwf : p.WellFormed)
    (hmax : p.threads.length ≤ maxThreads) {arch : Arch} {t : Thread} (ht : t ∈ p.threads)
    (htrap : cdbgBpIsTrap arch t.regs.pc bps = true) : p.firstTrapped arch bps ≠ none := by
  have hinfo : ∃ i ∈ p.threadInfos.take maxThreads, p.thread i.selector = some t := by
    have hall : p.threadInfos.take maxThreads = p.threadInfos := by
      refine List.take_of_length_le ?_
      rw [Process.threadInfos]
      cases hp : p.threads with
      | nil => exact Nat.zero_le _
      | cons u us =>
        rw [hp] at hmax
        simpa using hmax
    rw [hall, Process.threadInfos]
    cases hp : p.threads with
    | nil => rw [hp] at ht; exact absurd ht (by simp)
    | cons u us =>
      rw [hp] at ht
      rcases List.mem_cons.mp ht with rfl | hmem
      · refine ⟨_, List.mem_cons_self, ?_⟩
        rw [ThreadInfo.selector, if_pos rfl, thread, if_pos rfl, primary, hp]
        rfl
      · refine ⟨{ tid := t.tid, isPrimary := false },
          List.mem_cons_of_mem _ (List.mem_map_of_mem hmem), ?_⟩
        exact hwf.thread_tid (hp ▸ ht)
  obtain ⟨i, hi, hthread⟩ := hinfo
  intro hnone
  rw [firstTrapped, List.findSome?_eq_none_iff] at hnone
  have hfilter := hnone i hi
  rw [hthread, Option.filter_some, if_pos htrap] at hfilter
  exact absurd hfilter (by simp)

/-- An id that names a thread goes on to name it as long as it exists. -/
theorem moves_thread {arch : Arch} {ms : List Move} {tid : UInt64} {t t' : Thread}
    (hwf : p.WellFormed) (ht : p.thread tid = some t)
    (ht' : t' ∈ (p.moves arch kind ms).threads) (htid : t'.tid = t.tid) :
    (p.moves arch kind ms).thread tid = some t' := by
  have hwf' := @moves_wellFormed p kind arch ms hwf
  have hmem : t.tid ∈ (p.moves arch kind ms).threads.map (·.tid) :=
    htid ▸ List.mem_map_of_mem ht'
  rw [thread] at ht ⊢
  split
  · rename_i h0
    rw [if_pos h0] at ht
    obtain ⟨u, hu, hut⟩ := Option.map_eq_some_iff.mp (moves_primary hwf ht hmem)
    rw [hu, hwf'.eq_of_tid (List.mem_of_mem_head? hu) ht' (hut.trans htid.symm)]
  · rename_i h0
    rw [if_neg h0] at ht
    have hsel : t.tid = tid := by simpa using List.find?_some ht
    rw [List.find?_eq_some_iff_append]
    obtain ⟨before, after, hsplit⟩ := List.append_of_mem ht'
    refine ⟨by simpa using htid.trans hsel, before, after, hsplit, fun u hu => ?_⟩
    have hnodup := hwf'.nodup
    rw [hsplit, List.map_append, List.map_cons, List.nodup_append] at hnodup
    have hne := hnodup.2.2 u.tid (List.mem_map_of_mem hu) t'.tid List.mem_cons_self
    rw [htid, hsel] at hne
    simpa using hne

theorem thread_resumed {tid : UInt64} {t : Thread} (h : p.thread tid = some t) :
    p.resumed.thread tid = some { t with halted := false } := by
  rw [thread] at h ⊢
  split
  · rename_i h0
    rw [if_pos h0, primary] at h
    rw [primary, resumed, List.head?_map, h]
    rfl
  · rename_i h0
    rw [if_neg h0] at h
    have hcomp : (fun u : Thread => decide (u.tid = tid)) ∘
        (fun u : Thread => { u with halted := false }) = fun u => decide (u.tid = tid) := rfl
    rw [resumed, List.find?_map, hcomp, h]
    rfl

/-- The threads that were moved back are so after a step, too, unless a thread has executed
another trap. -/
theorem rewound_iff_noneBehind {ms : List Move} {m : Mem} {tid : UInt64} {u : Thread}
    (hwf : p.WellFormed) (hrewound : p.Rewound bps own)
    (hsel : ∀ t ∈ p.threads, ∀ a, t.last = .trap a → Patched bps a → p.thread tid = some t)
    (hspares : ∀ m ∈ ms, m.Spares (Patched bps))
    (hu : (p.resumed.moves .x86_64 kind ms).thread tid = some u)
    (hm : m u.regs.pc = (p.resumed.moves .x86_64 kind ms).mem u.regs.pc) :
    Rewound { p.resumed.moves .x86_64 kind ms with mem := m } bps own ↔
      (p.resumed.moves .x86_64 kind ms).NoneBehind bps := by
  constructor
  · intro h t ht a hlast ha hpc
    have hat := (h t ht a hlast ha).1
    rw [hpc] at hat
    exact absurd hat (by simp)
  · intro h t ht a hlast ha
    have hpc := h t ht a hlast ha
    -- the thread has not moved: a trap it had executed now would be in front of its pc
    rcases moves_behind t ht with hold | hnew
    · obtain ⟨t₀, ht₀, rfl⟩ := List.mem_map.mp hold
      obtain ⟨hat, hown⟩ := hrewound t₀ ht₀ a hlast ha
      refine ⟨hat, ?_⟩
      -- it is the selected thread, at whose pc nothing is written
      have hthread := thread_resumed (hsel t₀ ht₀ a hlast ha)
      have hfound := @moves_thread p.resumed kind .x86_64 ms tid _ _ hwf.resumed hthread ht rfl
      obtain rfl := Option.some.inj (hu.symm.trans hfound)
      have hbyte : m a = (p.resumed.moves .x86_64 kind ms).mem a := hat ▸ hm
      rw [← hown]
      exact hbyte.trans (moves_mem hspares ha)
    · exact absurd (hnew a hlast) hpc

end Process

/-! ### From one stop to the next -/

section Continue

variable {s s' : Sys} {p q : Process} {bps : List Breakpoint} {own : Mem}

/-- Putting breakpoints back fails only without the selected thread. -/
theorem reenable_spares (hst : s.dbg.state = .stopped) (hok : ∀ c, s.Reliable c)
    (hp : s.process s.dbg.pid = some q) (hne : s.dbg.breakpoints ≠ []) :
    wp reenableBreakpointsAfterStep (fun rc s' => s'.runLog = s.runLog ∧
      (q.thread s.dbg.currentTid = none ∧ rc = -1 ∨
      ∃ u m, q.thread s.dbg.currentTid = some u ∧ rc = 0 ∧
        s'.process s'.dbg.pid = some { q with mem := m } ∧ m u.regs.pc = q.mem u.regs.pc ∧
        s'.os.fault = s.os.fault)) s := by
  rw [reenableBreakpointsAfterStep, wp_bind, wp_get, wp_ite]
  refine ⟨fun hc => absurd hc (by simp [hne, hst]), fun _ => ?_⟩
  rw [wp_bind]
  refine wp_cdbgRefreshRegs (fun s₁ hq hnone => ?_) fun q' u s₁ hq' hu hq => ?_
  · obtain ⟨n, rfl⟩ := hq
    rw [wp_ite]
    exact ⟨fun _ => ⟨rfl, .inl ⟨hnone (hok _) q hp, rfl⟩⟩, fun hc => absurd neg_one_ne hc⟩
  · obtain rfl := Option.some.inj (hp.symm.trans hq')
    obtain ⟨n, rfl⟩ := hq
    rw [wp_ok, wp_bind, wp_get, wp_bind]
    refine wp_mono (reenableLoop_putBack (hok _) (hok _) hp) fun r s₂ h₂ => ?_
    obtain ⟨rfl, calls, log, rfl, hlog⟩ := h₂
    rw [wp_bind, wp_setBreakpoints]
    exact ⟨hlog, .inr ⟨u, _, hu, rfl, Sys.process_eq_some.mpr
      ⟨rfl, (Sys.process_eq_some.mp hp).2⟩, putBack_pc, rfl⟩⟩

/-- Each resumption of the trace has found the threads moved back exactly if those of `p` are, and
each of its stops is clear. -/
def Sys.AllRewound (s : Sys) (p : Process) (bps : List Breakpoint) (own : Mem) : Prop :=
  (∀ o ∈ s.runLog, o.ResumesRewound bps own) ↔
    p.Rewound bps own ∧ ∀ o ∈ s.runLog, o.StopsClear bps

/-- The same of the trace and of the resumption that comes next. -/
def Sys.NextRewound (s : Sys) (p : Process) (bps : List Breakpoint) (own : Mem) : Prop :=
  s.Reliable .ptrace ∧ ∃ q, s.process s.dbg.pid = some q ∧
    ((∀ o ∈ s.runLog, o.ResumesRewound bps own) ∧ q.Rewound bps own ↔
      p.Rewound bps own ∧ ∀ o ∈ s.runLog, o.StopsClear bps)

/-- From the state `s` the step off a breakpoint has been started. -/
def Sys.SteppingOff (s : Sys) (p : Process) (s' : Sys) : Prop :=
  s.dbg.breakpoints ≠ [] ∧ ∃ d d₀ calls,
    d.breakpoints = s.dbg.breakpoints ∧ d.pid = s.dbg.pid ∧ d.currentTid = s.dbg.currentTid ∧
      s' = { dbg := d
             os := { s.os with proc := some p.resumed, resume := .step, calls := calls }
             log := .resume .step d₀ p :: s.log }

theorem nextRewound_of_quiet (hok : ∀ c, s.Reliable c) (hp : s.process s.dbg.pid = some p)
    (hlog : s.runLog = []) {regs : Regs}
    (hq : (s.withDbg { s.dbg with regs := regs }).Quiet s') : s'.NextRewound p bps own := by
  obtain ⟨n, rfl⟩ := hq
  refine ⟨hok _, p, hp, ?_⟩
  show (∀ o ∈ s.runLog, _) ∧ _ ↔ _ ∧ ∀ o ∈ s.runLog, _
  rw [hlog]
  simp

/-- The step is started with nothing but the threads moved back in its trace. -/
theorem wp_startStep (hok : ∀ c, s.Reliable c) (hp : s.process s.dbg.pid = some p)
    (hne : s.dbg.breakpoints ≠ []) {regs : Regs}
    (hq : (s.withDbg { s.dbg with regs := regs }).Quiet s') :
    wp cdbgSingleStep (onCode (s.SteppingOff p) (·.AllRewound p bps own)) s' := by
  obtain ⟨n, rfl⟩ := hq
  refine wp_cdbgSingleStep (fun s₁ hq hnone => onCode_neg_one.mpr ?_)
    fun p' s₁ hp' hq => onCode_zero.mpr ?_
  · exact absurd (hp.symm.trans (hnone (hok _))) (by simp)
  · obtain rfl := Option.some.inj (hp.symm.trans hp')
    obtain ⟨m, rfl⟩ := hq
    exact ⟨hne, { s.dbg with regs := regs, state := .running }, { s.dbg with regs := regs }, m,
      rfl, rfl, rfl, rfl⟩

/-- The trace of a step that nothing has been resumed before. -/
theorem forall_runLog_step {d d₀ : Cdbg} {P : Obs → Prop} (hlog : s.runLog = []) :
    (∀ o ∈ Obs.stop d q :: .resume .step d₀ p :: s.runLog, P o) ↔
      P (.stop d q) ∧ P (.resume .step d₀ p) := by
  rw [hlog]
  simp

/-- The wait for the step: the threads are moved back behind it unless one of them has executed
another trap. -/
theorem Sys.SteppingOff.wait (h : s.SteppingOff p s') (harch : s.os.arch = .x86_64)
    (hok : ∀ c, s.Reliable c) (hp : s.process s.dbg.pid = some p) (hwf : p.WellFormed)
    (hlog : s.runLog = []) (hspares : (s.os.events s.os.waits).Spares (Patched bps))
    (hsel : p.Rewound bps own → ∀ t ∈ p.threads, ∀ a, t.last = .trap a → Patched bps a →
      p.thread s.dbg.currentTid = some t) :
    wp cdbgWait (onCode (·.NextRewound p bps own) (·.AllRewound p bps own)) s' := by
  obtain ⟨hne, d, d₀, calls, hbps, hpid, htid, rfl⟩ := h
  have hproc : Sys.process { dbg := d
                             os := { s.os with
                               proc := some p.resumed, resume := .step, calls := calls }
                             log := .resume .step d₀ p :: s.log } d.pid = some p.resumed :=
    Sys.process_eq_some.mpr ⟨rfl, (Sys.process_eq_some.mp hp).2.trans hpid.symm⟩
  refine wp_cdbgWait (fun s₁ _ hnone => ?_) (fun p' s₁ _ _ hend => ?_)
    fun p' sig ms s₁ hp' _ hev hq => ?_
  · exact absurd (hproc.symm.trans (hnone (hok _))) (by simp)
  · -- the debuggee ends in the step
    obtain ⟨status, waits, calls', rfl⟩ := hend
    refine (onCode_of_ne (by decide)).mpr ?_
    show (∀ o ∈ .resume .step d₀ p :: s.runLog, _) ↔ _ ∧ ∀ o ∈ .resume .step d₀ p :: s.runLog, _
    rw [hlog]
    simp [Obs.ResumesRewound, Obs.StopsClear]
  · obtain rfl := Option.some.inj (hproc.symm.trans hp')
    obtain ⟨n, rfl⟩ := hq
    have hmoves : p.resumed.moves s.os.arch .step ms =
        p.resumed.moves .x86_64 .step ms := by rw [harch]
    have hspares' : ∀ m ∈ ms, m.Spares (Patched bps) := by
      rw [hev] at hspares
      exact hspares
    refine wp_mono (@reenable_spares _ (p.resumed.moves s.os.arch .step ms) rfl
      (fun c => hok c) (Sys.process_eq_some.mpr ⟨rfl, ?_⟩) ?_) fun rc s₂ h₂ => ?_
    · exact (Process.moves_pid ms).trans ((Sys.process_eq_some.mp hp).2.trans hpid.symm)
    · show d.breakpoints ≠ []
      rw [hbps]
      exact hne
    obtain ⟨hlog₂, h₂⟩ := h₂
    have hlog₂ : s₂.runLog = .stop { d with waitStatus := .stopped sig }
        (p.resumed.moves .x86_64 .step ms) :: .resume .step d₀ p :: s.runLog := by
      rw [hlog₂, ← hmoves]
      rfl
    rcases h₂ with ⟨hnone, rfl⟩ | ⟨u, m, hu, rfl, hq, hm, hfault⟩
    · -- the selected thread has ended, and nothing is resumed any more
      rw [hmoves] at hnone
      refine onCode_neg_one.mpr (onCode_neg_one.mpr ?_)
      rw [AllRewound, hlog₂, forall_runLog_step hlog, forall_runLog_step hlog]
      exact ⟨fun h => ⟨h.2, fun hc => absurd hnone hc, trivial⟩, fun h => ⟨trivial, h.1⟩⟩
    · rw [hmoves] at hu hq hm
      refine onCode_zero.mpr (onCode_zero.mpr ⟨?_, _, hq, ?_⟩)
      · intro n
        rw [hfault]
        exact hok _ n
      rw [hlog₂, forall_runLog_step hlog, forall_runLog_step hlog]
      have hsel' : (p.resumed.moves .x86_64 .step ms).thread d.currentTid = some u := hu
      rw [htid] at hsel'
      constructor
      · rintro ⟨⟨-, hrewound⟩, hq⟩
        exact ⟨hrewound, fun _ => (Process.rewound_iff_noneBehind hwf hrewound (hsel hrewound)
          hspares' hsel' hm).mp hq, trivial⟩
      · rintro ⟨hrewound, hclear, -⟩
        refine ⟨⟨trivial, hrewound⟩, ?_⟩
        exact (Process.rewound_iff_noneBehind hwf hrewound (hsel hrewound) hspares' hsel' hm).mpr
          (hclear fun hc => absurd (hc.symm.trans hu) (by simp))

/-- Going on from a state in which nothing has been resumed yet: every resumption finds the
threads moved back exactly when they are so now, and no further trap is executed in the step
off a breakpoint. -/
theorem continue_rewound_iff (hst : s.dbg.state = .stopped) (harch : s.os.arch = .x86_64)
    (hok : ∀ c, s.Reliable c) (hp : s.process s.dbg.pid = some p) (hwf : p.WellFormed)
    (hlog : s.runLog = []) (hspares : (s.os.events s.os.waits).Spares (Patched bps))
    (hsel : p.Rewound bps own → ∀ t ∈ p.threads, ∀ a, t.last = .trap a → Patched bps a →
      p.thread s.dbg.currentTid = some t)
    (hgo : p.Rewound bps own ∨ ∃ u, p.thread s.dbg.currentTid = some u) :
    wp cdbgContinue (fun _ s' => s'.AllRewound p bps own) s := by
  have hrun : wp cdbgContinue (onCode (·.AllRewound p bps own) (·.AllRewound p bps own)) s := by
    have hquiet : ∀ {regs : Regs} {s' : Sys}, (s.withDbg { s.dbg with regs := regs }).Quiet s' →
        s'.NextRewound p bps own := nextRewound_of_quiet hok hp hlog
    refine cdbgContinue_rule (I := fun s' => s.dbg.breakpoints ≠ [] ∧
      ∃ regs, (s.withDbg { s.dbg with regs := regs }).Quiet s') (W := s.SteppingOff p)
      (C := (·.NextRewound p bps own)) hst
      (fun _ => hquiet (.refl s)) (fun hne => ?_)
      (fun s' h => ?_) (fun s' h => h.wait harch hok hp hwf hlog hspares hsel) ?_ ?_
    · refine wp_cdbgRefreshRegs (fun s' hq hnone => onCode_neg_one.mpr ?_)
        fun p' t s' hp' ht hq => onCode_zero.mpr ⟨fun _ => hquiet hq, fun _ => ⟨hne, _, hq⟩⟩
      -- without the selected thread nothing is resumed
      obtain ⟨n, rfl⟩ := hq
      rcases hgo with hrewound | ⟨u, hu⟩
      · show (∀ o ∈ s.runLog, _) ↔ _ ∧ ∀ o ∈ s.runLog, _
        rw [hlog]
        simpa using hrewound
      · exact absurd (hu.symm.trans (hnone (hok _) p hp)) (by simp)
    · obtain ⟨hne, regs, hq⟩ := h
      exact wp_startStep hok hp hne hq
    · rintro s' ⟨hrel, q, hq, -⟩ s'' - hnone
      exact absurd (hq.symm.trans (hnone hrel)) (by simp)
    · rintro s' ⟨-, q, hq, hiff⟩ q' s'' hq' ⟨n, rfl⟩
      obtain rfl := Option.some.inj (hq.symm.trans hq')
      show (∀ o ∈ .resume .cont s'.dbg q :: s'.runLog, _) ↔
        _ ∧ ∀ o ∈ .resume .cont s'.dbg q :: s'.runLog, _
      rw [List.forall_mem_cons, List.forall_mem_cons, and_comm]
      exact hiff.trans (and_congr_right fun _ => (and_iff_right trivial).symm)
  exact wp_mono hrun fun rc s' h => (em (rc = 0)).elim h.1 h.2

end Continue

/-! ### The stop -/

section Stop

variable {s : Sys} {p : Process} {own : Mem}

/-- A thread behind the hit of the thread `u`: that one is moved back, the others are not. -/
theorem moved_of_stance (hwf : p.WellFormed) {u t t' : Thread} (hu : u ∈ p.threads)
    (ht : t ∈ p.threads) (heq : (if t.tid = u.tid ∧ 0 < u.regs.pc then
      (t.tid, t.last, u.regs.pc - 1) else t.stance) = t'.stance) :
    t'.tid = t.tid ∧ t'.last = t.last ∧ (t'.regs.pc = t.regs.pc ∨ t = u ∧ 0 < u.regs.pc) ∧
      (t = u → 0 < u.regs.pc → t'.regs.pc = u.regs.pc - 1) := by
  split at heq
  · rename_i hcond
    exact ⟨(congrArg (·.1) heq).symm, (congrArg (·.2.1) heq).symm,
      .inr ⟨hwf.eq_of_tid ht hu hcond.1, hcond.2⟩, fun _ _ => (congrArg (·.2.2) heq).symm⟩
  · rename_i hcond
    refine ⟨(congrArg (·.1) heq).symm, (congrArg (·.2.1) heq).symm,
      .inl (congrArg (·.2.2) heq).symm, ?_⟩
    rintro rfl hpos
    exact absurd ⟨rfl, hpos⟩ hcond

/-- The first trapped thread has been moved back, and the entry it stands behind is taken out. -/
structure Process.FirstMoved (p : Process) (bps : List Breakpoint) (u : Thread) (bp : Breakpoint)
    (p' : Process) : Prop where
  first : p.firstTrapped .x86_64 bps = some u
  mem_threads : u ∈ p.threads
  entry : bps.find? (cdbgBpMatchesPc .x86_64 u.regs.pc) = some bp
  behind : u.regs.pc = bp.addr + 1
  mem : p'.mem = Function.update p.mem bp.addr bp.savedByte
  stances : p'.threads.map Thread.stance = p.threads.map (fun t =>
    if t.tid = u.tid ∧ 0 < u.regs.pc then (t.tid, t.last, u.regs.pc - 1) else t.stance)

section FirstMoved

variable {bps : List Breakpoint} {u : Thread} {bp : Breakpoint} {p' : Process}

theorem Process.FirstMoved.byte (h : p.FirstMoved bps u bp p') {a : Addr}
    (ha : u.regs.pc = a + 1) : p'.mem a = bp.savedByte := by
  obtain rfl : a = bp.addr := (UInt64.add_left_inj 1).mp (ha.symm.trans h.behind)
  rw [h.mem, Function.update_self]

/-- All threads are moved back exactly if there was a single one to be moved back. -/
theorem Process.FirstMoved.rewound_iff (h : p.FirstMoved bps u bp p') (hwf : p.WellFormed)
    (hbehind : ∀ t ∈ p.threads, ∀ a, t.last = .trap a → Patched bps a → t.regs.pc = a + 1) :
    p'.Rewound bps own ↔ p.HitsOnce bps own := by
  constructor
  · intro hrewound t ht a hlast ha
    obtain ⟨t', ht', heq⟩ := exists_mem_of_map_eq h.stances.symm ht
    obtain ⟨-, hlast', hstays, -⟩ := moved_of_stance hwf h.mem_threads ht heq.symm
    obtain ⟨hat, hown⟩ := hrewound t' ht' a (hlast'.trans hlast) ha
    have hat₁ := hbehind t ht a hlast ha
    rcases hstays with hstays | ⟨rfl, hpos⟩
    · rw [hat, hat₁] at hstays
      exact absurd hstays.symm (by simp)
    · refine ⟨hat₁ ▸ UInt64.pos_iff_ne_zero.mp hpos, ?_, ?_⟩
      · rw [h.first]
        rfl
      · rw [← hat₁, h.entry, Option.map_some, ← hown, h.byte hat₁]
  · intro honce t' ht' a hlast ha
    obtain ⟨t, ht, heq⟩ := exists_mem_of_map_eq h.stances ht'
    obtain ⟨-, hlast', -, hback⟩ := moved_of_stance hwf h.mem_threads ht heq
    have hlast := hlast'.symm.trans hlast
    obtain ⟨hpos, hone, hsaved⟩ := honce t ht a hlast ha
    rw [h.first, Option.map_some, Option.some.injEq] at hone
    obtain rfl := hwf.eq_of_tid h.mem_threads ht hone
    have hat₁ := hbehind u ht a hlast ha
    rw [← hat₁, h.entry, Option.map_some, Option.some.injEq] at hsaved
    refine ⟨?_, (h.byte hat₁).trans hsaved⟩
    rw [hback rfl (hat₁ ▸ UInt64.pos_iff_ne_zero.mpr hpos), hat₁]
    simp

/-- With a single thread to be moved back, a thread that has executed a trap is that one. -/
theorem Process.FirstMoved.tid_eq (h : p.FirstMoved bps u bp p') (hwf : p.WellFormed)
    (honce : p.HitsOnce bps own) {t' : Thread} (ht' : t' ∈ p'.threads) {a : Addr}
    (hlast : t'.last = .trap a) (ha : Patched bps a) : t'.tid = u.tid := by
  obtain ⟨t, ht, heq⟩ := exists_mem_of_map_eq h.stances ht'
  obtain ⟨htid, hlast', -⟩ := moved_of_stance hwf h.mem_threads ht heq
  obtain ⟨-, hone, -⟩ := honce t ht a (hlast'.symm.trans hlast) ha
  rw [h.first, Option.map_some, Option.some.injEq] at hone
  exact htid.trans hone.symm

end FirstMoved

/-- `report_stop` with a thread behind a trap. -/
theorem wp_reportStop_firstMoved (harch : s.os.arch = .x86_64) (hok : ∀ c, s.Reliable c)
    (hp : s.process s.dbg.pid = some p) (hwf : p.WellFormed)
    (hmax : p.threads.length ≤ maxThreads) {t : Thread} {a : Addr} (ht : t ∈ p.threads)
    (hpc : t.regs.pc = a + 1) (ha : Patched s.dbg.breakpoints a) :
    wp reportStop (fun _ s' => ∃ u bp p' v, p.FirstMoved s.dbg.breakpoints u bp p' ∧
      s'.process s'.dbg.pid = some p' ∧ p'.thread s'.dbg.currentTid = some v ∧
      v.tid = u.tid) s := by
  obtain ⟨b, hb, hon, hba⟩ := ha
  have htrapped : cdbgBpIsTrap s.os.arch t.regs.pc s.dbg.breakpoints = true :=
    List.any_eq_true.mpr ⟨b, hb, cdbgBpMatchesPc_iff.mpr ⟨hon, by rw [harch, hpc, hba]; rfl⟩⟩
  obtain ⟨u, hfirst⟩ :=
    Option.ne_none_iff_exists'.mp (hwf.firstTrapped_ne_none hmax ht htrapped)
  obtain ⟨info, -, hfound⟩ := List.exists_of_findSome?_eq_some hfirst
  obtain ⟨hthread, htrap⟩ := Option.filter_eq_some_iff.mp hfound
  obtain ⟨e, he, hmatch⟩ := List.any_eq_true.mp htrap
  obtain ⟨i, bp, hidx, hget, hfind⟩ := exists_taken he hmatch
  have hbehind : u.regs.pc = bp.addr + 1 := by
    rw [(cdbgBpMatchesPc_iff.mp (List.find?_some hfind)).2, harch]
    rfl
  refine wp_mono (wp_reportStop_first hok hp hfirst hidx hget) fun rc s' h => ?_
  obtain ⟨-, -, -, p', hp', hmem, hstances, hsel⟩ := h
  obtain ⟨v, hv, hvtid⟩ := Option.map_eq_some_iff.mp hsel
  rw [harch] at hfirst hfind
  exact ⟨u, bp, p', v, ⟨hfirst, Process.mem_of_thread hthread, hfind, hbehind, hmem, hstances⟩,
    hp', hv, hvtid⟩

/-- `report_stop` leaves the threads moved back when there is a single one to be moved back. -/
theorem reportStop_rewound (harch : s.os.arch = .x86_64) (hok : ∀ c, s.Reliable c)
    (hp : s.process s.dbg.pid = some p) (hwf : p.WellFormed)
    (hmax : p.threads.length ≤ maxThreads)
    (hbehind : ∀ t ∈ p.threads, ∀ a, t.last = .trap a → Patched s.dbg.breakpoints a →
      t.regs.pc = a + 1) :
    wp reportStop (fun _ s' => ∃ p', s'.process s'.dbg.pid = some p' ∧
      (p'.Rewound s.dbg.breakpoints own ↔ p.HitsOnce s.dbg.breakpoints own) ∧
      (p'.Rewound s.dbg.breakpoints own → ∀ t ∈ p'.threads, ∀ a, t.last = .trap a →
        Patched s.dbg.breakpoints a → p'.thread s'.dbg.currentTid = some t) ∧
      (p'.Rewound s.dbg.breakpoints own ∨ ∃ u, p'.thread s'.dbg.currentTid = some u)) s := by
  by_cases hhit : ∃ t ∈ p.threads, ∃ a, t.last = .trap a ∧ Patched s.dbg.breakpoints a
  · obtain ⟨t, ht, a, hlast, ha⟩ := hhit
    refine wp_mono (reportStop_keeps.wp_and (wp_reportStop_firstMoved harch hok hp hwf hmax ht
      (hbehind t ht a hlast ha) ha)) fun rc s' h => ?_
    obtain ⟨⟨u, bp, p', v, hmoved, hp', hv, hvtid⟩, hkept⟩ := h
    have hwf' : p'.WellFormed := by
      obtain ⟨q, hq, hsame⟩ := Sys.proc_of_sansReports hkept (Sys.process_eq_some.mp hp').1
      obtain rfl := Option.some.inj ((Sys.process_eq_some.mp hp).1.symm.trans hq)
      exact Process.WellFormed.of_sansReports hsame hwf
    have honce : p'.Rewound s.dbg.breakpoints own ↔ p.HitsOnce s.dbg.breakpoints own :=
      hmoved.rewound_iff hwf hbehind
    refine ⟨p', hp', honce, fun h t' ht' a hlast ha => ?_, .inr ⟨v, hv⟩⟩
    have htid := hmoved.tid_eq hwf (honce.mp h) ht' hlast ha
    rw [hv, hwf'.eq_of_tid (Process.mem_of_thread hv) ht' (hvtid.trans htid.symm)]
  · -- nothing to be moved back
    have hnone : ∀ {p' : Process}, p'.sansReports = p.sansReports → ∀ t ∈ p'.threads, ∀ a,
        t.last = .trap a → ¬ Patched s.dbg.breakpoints a := by
      intro p' hv t ht a hlast ha
      obtain ⟨u, hu, -, -, hlast', -⟩ := Process.thread_of_sansReports hv ht
      exact hhit ⟨u, hu, a, hlast'.trans hlast, ha⟩
    refine wp_mono (reportStop_keeps s) fun rc s' hv => ?_
    obtain ⟨hproc, hpid⟩ := Sys.process_eq_some.mp hp
    obtain ⟨p', hp', hsame⟩ := Sys.proc_of_sansReports hv.symm hproc
    have hrewound : p'.Rewound s.dbg.breakpoints own := fun t ht a hlast ha =>
      absurd ha (hnone hsame.symm t ht a hlast)
    refine ⟨p', Sys.process_eq_some.mpr ⟨hp', ?_⟩, iff_of_true hrewound ?_, ?_, .inl hrewound⟩
    · exact (congrArg (·.pid) hsame).symm.trans (hpid.trans (congrArg (·.dbg.pid) hv).symm)
    · exact fun t ht a hlast ha => absurd ha (hnone rfl t ht a hlast)
    · exact fun _ t ht a hlast ha => absurd ha (hnone hsame.symm t ht a hlast)

/-- After `report_stop` and up to the next `PT_CONTINUE` no thread is resumed behind the trap
of a breakpoint that it has executed, and each that has executed one is resumed at the
program's own instruction there, exactly when a single thread has executed one, its entry holds
the program's byte, and no thread executes another in the step off the breakpoint. -/
theorem resumes_rewound_iff (hst : s.dbg.state = .stopped) (harch : s.os.arch = .x86_64)
    (hok : ∀ c, s.Reliable c) (hp : s.process s.dbg.pid = some p) (hwf : p.WellFormed)
    (hmax : p.threads.length ≤ maxThreads)
    (hbehind : ∀ t ∈ p.threads, ∀ a, t.last = .trap a → Patched s.dbg.breakpoints a →
      t.regs.pc = a + 1)
    (hspares : (s.os.events s.os.waits).Spares (Patched s.dbg.breakpoints)) :
    (∀ o ∈ (reportAndContinue.run s.unlogged).2.log, o.ResumesRewound s.dbg.breakpoints own) ↔
      p.HitsOnce s.dbg.breakpoints own ∧
        ∀ o ∈ (reportAndContinue.run s.unlogged).2.log, o.StopsClear s.dbg.breakpoints := by
  have hrun : wp reportAndContinue (fun _ s' =>
      (∀ o ∈ s'.runLog, o.ResumesRewound s.dbg.breakpoints own) ↔
        p.HitsOnce s.dbg.breakpoints own ∧
          ∀ o ∈ s'.runLog, o.StopsClear s.dbg.breakpoints) s.unlogged := by
    rw [reportAndContinue, wp_bind]
    refine wp_mono (reportStop_keeps.wp_and (@reportStop_rewound s.unlogged p own
      harch hok hp hwf hmax hbehind)) fun rc s₁ h₁ => ?_
    obtain ⟨⟨p₁, hp₁, honce, hsel, hgo⟩, hv⟩ := h₁
    obtain ⟨q, hq, hsame⟩ := Sys.proc_of_sansReports hv (Sys.process_eq_some.mp hp₁).1
    obtain rfl := Option.some.inj ((Sys.process_eq_some.mp hp).1.symm.trans hq)
    have hfault : s₁.os.fault = s.os.fault := congrArg (·.os.fault) hv
    have hevent : s₁.os.events s₁.os.waits = s.os.events s.os.waits :=
      congrArg (fun s => s.os.events s.os.waits) hv
    have honce : p₁.Rewound s.dbg.breakpoints own ↔ p.HitsOnce s.dbg.breakpoints own := honce
    rw [← honce]
    refine continue_rewound_iff ((congrArg (·.dbg.state) hv).trans hst)
      ((congrArg (·.os.arch) hv).trans harch) (fun c n => by rw [hfault]; exact hok c n) hp₁
      (hwf.of_sansReports hsame) (congrArg (·.log) hv) (by rw [hevent]; exact hspares) hsel hgo
  -- the other events of the trace are neither resumptions nor stops
  have htrace : ∀ {P : Obs → Prop} {l : List Obs}, (∀ o, o.isRun = false → P o) →
      ((∀ o ∈ l.filter Obs.isRun, P o) ↔ ∀ o ∈ l, P o) := by
    intro P l hP
    constructor
    · intro h o ho
      by_cases hrun : o.isRun = true
      · exact h o (List.mem_filter.mpr ⟨ho, hrun⟩)
      · exact hP o (by simpa using hrun)
    · exact fun h o ho => h o (List.mem_filter.mp ho).1
  have hresumes := @htrace (·.ResumesRewound s.dbg.breakpoints own)
    (reportAndContinue.run s.unlogged).2.log fun o ho => by
      cases o with
      | resume kind d p => exact Bool.noConfusion ho
      | _ => exact trivial
  have hstops := @htrace (·.StopsClear s.dbg.breakpoints)
    (reportAndContinue.run s.unlogged).2.log fun o ho => by
      cases o with
      | stop d p => exact Bool.noConfusion ho
      | _ => exact trivial
  rw [wp_iff] at hrun
  exact hresumes.symm.trans (hrun.trans (and_congr_right fun _ => hstops))

end Stop

/-! ### Two threads at one breakpoint -/

/-- Two threads, of which the first, or both have executed the trap at `0x1000`. -/
def trappedThreads (both : Bool) : Process :=
  { twoThreads with
    mem := Function.update twoThreads.mem 0x1000 0xcc
    threads :=
      [{ tid := 1, regs := x86At 0x1001, last := .trap 0x1000, halted := true },
        if both then { tid := 2, regs := x86At 0x1001, last := .trap 0x1000, halted := true }
        else { tid := 2, regs := x86At 0x2000 }] }

/-- The stop at the breakpoint; the instruction there has two bytes. -/
def atTrap (both : Bool) : Sys :=
  let s := Sys.attached .x86_64 (trappedThreads both) fun _ =>
    .stopped 5 [.exec 1 (x86At 0x1002) []]
  { s with dbg := { s.dbg with
    breakpoints := [{ addr := 0x1000, savedByte := 0x90, enabled := true }] } }

/-- The second of two threads that have executed the same trap is resumed behind it. -/
theorem resumed_behind_trap :
    let s := atTrap true
    ∃ o ∈ (reportAndContinue.run s.unlogged).2.log,
      ¬ o.ResumesRewound s.dbg.breakpoints fun _ => 0x90 := by
  intro s
  have hbehind : (reportAndContinue.run s.unlogged).2.log.any (fun o => match o with
      | .resume _ _ p => p.threads.any fun t => t.last = .trap 0x1000 && t.regs.pc = 0x1001
      | _ => false) = true := by decide +kernel
  obtain ⟨o, ho, hbehind⟩ := List.any_eq_true.mp hbehind
  refine ⟨o, ho, fun h => ?_⟩
  cases o with
  | resume kind d p =>
    obtain ⟨t, ht, hbehind⟩ := List.any_eq_true.mp hbehind
    rw [Bool.and_eq_true, decide_eq_true_eq, decide_eq_true_eq] at hbehind
    have hat := (h t ht 0x1000 hbehind.1 ⟨_, List.mem_cons_self, rfl, rfl⟩).1
    exact absurd (hbehind.2.symm.trans hat) (by decide)
  | _ => exact Bool.noConfusion hbehind

/-- A single thread that has executed a trap is resumed at the instruction. -/
theorem resumes_rewound_iff_single :
    let s := atTrap false
    (∃ o ∈ (reportAndContinue.run s.unlogged).2.log, o.isRun = true) ∧
      ∀ o ∈ (reportAndContinue.run s.unlogged).2.log,
        o.ResumesRewound s.dbg.breakpoints fun _ => 0x90 := by
  intro s
  have honce : ∀ t ∈ (trappedThreads false).threads, ∀ a, t.last = .trap a →
      a = 0x1000 ∧ t.tid = 1 ∧ t.regs.pc = 0x1001 := by
    intro t ht a hlast
    rcases List.mem_cons.mp ht with rfl | ht
    · exact ⟨(LastExec.trap.inj hlast).symm, rfl, rfl⟩
    · obtain rfl := List.mem_singleton.mp ht
      exact LastExec.noConfusion hlast
  have hclear : (reportAndContinue.run s.unlogged).2.log.all (fun o => match o with
      | .stop _ p => p.threads.all fun t => match t.last with
        | .trap a => t.regs.pc != a + 1
        | _ => true
      | _ => true) = true := by decide +kernel
  have hrun : (reportAndContinue.run s.unlogged).2.log.any Obs.isRun = true := by
    decide +kernel
  refine ⟨by simpa using hrun, ?_⟩
  refine (@resumes_rewound_iff s (trappedThreads false) (fun _ => 0x90) rfl rfl (fun _ _ => rfl)
    rfl ⟨by decide, by decide, by decide⟩ (by decide) (fun t ht a hlast _ => ?_)
    (fun m hm => ?_)).mpr ⟨fun t ht a hlast _ => ?_, fun o ho => ?_⟩
  · obtain ⟨rfl, -, hpc⟩ := honce t ht a hlast
    exact hpc
  · obtain rfl := List.mem_singleton.mp hm
    exact fun w hw => absurd hw (by simp)
  · obtain ⟨rfl, htid, -⟩ := honce t ht a hlast
    refine ⟨by decide, ?_, by decide⟩
    rw [htid]
    decide
  · have hall := List.all_eq_true.mp hclear o ho
    cases o with
    | stop d p =>
      intro _ t ht a hlast _
      have hthread := List.all_eq_true.mp hall t ht
      rw [hlast] at hthread
      simpa using hthread
    | _ => exact trivial

end Debugger
