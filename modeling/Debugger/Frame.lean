/-
What the calls of the debugger leave alone.

Two kinds of facts about the functions below `report_stop` are used by all later
proofs:

* the rule of each kernel call, which gives the result and the state after it up to
  the calls made (`Sys.Quiet`);
* views: `sansCalls`, `sansSlots`, `sansHolds`, `sansPatches`, `sansHits` and `sansReports`
  show everything of a state except what reading, programming debug registers, suspending
  and resuming threads, placing breakpoints and reporting a stop may change.

A predicate that depends on such a view only is an invariant of every function that
keeps the view.
-/
import Debugger.Stepping
import Debugger.Lib.Lists

open Prog

namespace Debugger

/-! ### Quiet steps -/

/-- The states agree but for the kernel calls made. -/
def Sys.Quiet (s s' : Sys) : Prop := ∃ n, s' = { s with os := { s.os with calls := n } }

theorem Sys.Quiet.refl (s : Sys) : s.Quiet s := ⟨s.os.calls, rfl⟩

theorem Sys.quiet_tick (s : Sys) : s.Quiet s.tick := ⟨_, rfl⟩

theorem Sys.quiet_note (s : Sys) (a : Attempt) : s.Quiet (s.note a) := ⟨_, rfl⟩

theorem Sys.Quiet.trans {s s' s'' : Sys} (h : s.Quiet s') (h' : s'.Quiet s'') : s.Quiet s'' := by
  obtain ⟨n, rfl⟩ := h
  obtain ⟨n', rfl⟩ := h'
  exact ⟨n', rfl⟩

theorem Sys.withProc_self {s : Sys} {p : Process} (h : s.os.proc = some p) :
    s.withProc p = s := by
  obtain ⟨dbg, os, log⟩ := s
  obtain ⟨arch, proc⟩ := os
  simp_all [withProc]

/-! ### The rules of the kernel calls -/

section Rules

variable {α : Type} {pid : ℕ} {s : Sys}

theorem wp_kernelRead {c : KCall} {f : Process → Option α} {Q : Option α → Sys → Prop}
    (hfail : ∀ s', s.Quiet s' →
      (s.Reliable c → ∀ p, s.process pid = some p → f p = none) → Q none s')
    (hok : ∀ p a s', s.process pid = some p → f p = some a → s.Quiet s' → Q (some a) s') :
    wp (kernelRead c pid f) Q s := by
  refine wp_kernelCall (fun h => hfail _ s.quiet_tick fun hr p hp => ?_)
    fun p a p' hp hf => ?_
  · simpa using h hr p hp
  · obtain ⟨b, hb, hba⟩ := Option.map_eq_some_iff.mp hf
    obtain ⟨rfl, rfl⟩ := Prod.mk.inj hba
    rw [Sys.withProc_self (show s.tick.os.proc = some p from (Sys.process_eq_some.mp hp).1)]
    exact hok p b _ hp hb s.quiet_tick

theorem wp_updateThread {c : KCall} {tid : UInt64} {f : Thread → Option (Thread → Thread)}
    {Q : Int → Sys → Prop}
    (hfail : ∀ s', s.Quiet s' →
      (s.Reliable c → ∀ p t, s.process pid = some p → p.thread tid = some t → f t = none) →
      Q (-1) s')
    (hok : ∀ p t g s', s.process pid = some p → p.thread tid = some t → f t = some g →
      (s.withProc (p.mapThread t.tid g)).Quiet s' → Q 0 s') :
    wp (updateThread c pid tid f) Q s := by
  rw [updateThread, wp_bind]
  refine wp_kernelCall (fun h => hfail _ s.quiet_tick fun hr p t hp ht => ?_)
    fun p a p' hp hf => ?_
  · simpa [ht] using h hr p hp
  · obtain ⟨t, ht, hf⟩ := Option.bind_eq_some_iff.mp hf
    obtain ⟨g, hg, hgp⟩ := Option.map_eq_some_iff.mp hf
    obtain ⟨-, rfl⟩ := Prod.mk.inj hgp
    exact hok p t g _ hp ht hg ⟨_, rfl⟩

theorem wp_cdbgMemRead {addr : Addr} {len : ℕ} {Q : Option (List UInt8) → Sys → Prop}
    (hfail : ∀ s', s.Quiet s' → (s.Reliable .memRead → s.process pid = none) → Q none s')
    (hok : ∀ p s', s.process pid = some p → s.Quiet s' → Q (some (p.mem.read addr len)) s') :
    wp (cdbgMemRead pid addr len) Q s := by
  refine wp_kernelRead (fun s' hs' hr => hfail s' hs' fun h => ?_) fun p a s' hp ha hs' => ?_
  · exact Option.eq_none_iff_forall_ne_some.mpr fun p hp => absurd (hr h p hp) (by simp)
  · obtain rfl := Option.some.inj ha
    exact hok p s' hp hs'

/-- The state after a write to memory. -/
def Sys.wrote (s : Sys) (p : Process) (addr : Addr) (bytes : List UInt8) : Sys :=
  (s.withProc { p with mem := p.mem.write addr bytes }).record (.memWrite s.dbg p addr bytes)

theorem wp_cdbgMemWrite {addr : Addr} {bytes : List UInt8} {Q : Int → Sys → Prop}
    (hfail : ∀ s', s.Quiet s' → (s.Reliable .memWrite → s.process pid = none) → Q (-1) s')
    (hok : ∀ p s', s.process pid = some p → (s.wrote p addr bytes).Quiet s' → Q 0 s') :
    wp (cdbgMemWrite pid addr bytes) Q s := by
  rw [cdbgMemWrite, wp_bind]
  refine wp_kernelCall (fun h => hfail _ (s.quiet_tick.trans (Sys.quiet_note _ _)) fun hr => ?_)
    fun p a p' hp hf => ?_
  · exact Option.eq_none_iff_forall_ne_some.mpr fun p hp => absurd (h hr p hp) (by simp)
  · obtain ⟨rfl, rfl⟩ := Prod.mk.inj (Option.some.inj hf)
    exact hok p _ hp ⟨_, rfl⟩

theorem wp_cdbgThreadsList {Q : Option (List ThreadInfo) → Sys → Prop}
    (hfail : ∀ s', s.Quiet s' → (s.Reliable .taskThreads → s.process pid = none) → Q none s')
    (hok : ∀ p s', s.process pid = some p → s.Quiet s' →
      Q (some (p.threadInfos.take maxThreads)) s') :
    wp (cdbgThreadsList pid) Q s := by
  refine wp_kernelRead (fun s' hs' hr => hfail s' hs' fun h => ?_) fun p a s' hp ha hs' => ?_
  · exact Option.eq_none_iff_forall_ne_some.mpr fun p hp => absurd (hr h p hp) (by simp)
  · obtain rfl := Option.some.inj ha
    exact hok p s' hp hs'

theorem wp_cdbgRegsGet {tid : UInt64} {Q : Option Regs → Sys → Prop}
    (hfail : ∀ s', s.Quiet s' →
      (s.Reliable .regsGet → ∀ p, s.process pid = some p → p.thread tid = none) → Q none s')
    (hok : ∀ p t s', s.process pid = some p → p.thread tid = some t → s.Quiet s' →
      Q (some t.regs) s') :
    wp (cdbgRegsGet pid tid) Q s := by
  refine wp_kernelRead (fun s' hs' hr => hfail s' hs' fun h p hp => ?_)
    fun p a s' hp ha hs' => ?_
  · simpa using hr h p hp
  · obtain ⟨t, ht, rfl⟩ := Option.map_eq_some_iff.mp ha
    exact hok p t s' hp ht hs'

theorem wp_cdbgRegsSet {tid : UInt64} {regs : Regs} {Q : Int → Sys → Prop}
    (hfail : ∀ s', s.Quiet s' →
      (s.Reliable .regsSet → ∀ p, s.process pid = some p → p.thread tid = none) → Q (-1) s')
    (hok : ∀ p t s', s.process pid = some p → p.thread tid = some t →
      (s.withProc (p.mapThread t.tid fun u => { u with regs := regs })).Quiet s' → Q 0 s') :
    wp (cdbgRegsSet pid tid regs) Q s := by
  rw [cdbgRegsSet, wp_bind]
  refine wp_updateThread
    (fun s' hs' hr => hfail _ (hs'.trans (s'.quiet_note _)) fun h p hp => ?_)
    fun p t g s' hp ht hg hs' => ?_
  · exact Option.eq_none_iff_forall_ne_some.mpr fun t ht => absurd (hr h p t hp ht) (by simp)
  · obtain rfl := Option.some.inj hg
    exact hok p t _ hp ht (hs'.trans (s'.quiet_note _))

end Rules

/-! ### Views -/

/-- Apply `f` to every thread. -/
def Process.eachThread (p : Process) (f : Thread → Thread) : Process :=
  { p with threads := p.threads.map f }

/-- A change of one thread that `f` hides. -/
theorem Process.eachThread_mapThread {p : Process} {tid : UInt64} {f g : Thread → Thread}
    (h : ∀ t, f (g t) = f t) : (p.mapThread tid g).eachThread f = p.eachThread f := by
  have hmap : (p.mapThread tid g).threads.map f = p.threads.map f := by
    rw [mapThread, List.map_map]
    refine List.map_congr_left fun t _ => ?_
    rw [Function.comp_apply]
    split
    · exact h t
    · rfl
  rw [eachThread, hmap]
  rfl

/-- Everything but the kernel calls made. -/
def Sys.sansCalls (s : Sys) : Sys := { s with os := { s.os with calls := {} } }

/-- Everything but what `f` hides of the process. -/
def Sys.sansProc (f : Process → Process) (s : Sys) : Sys :=
  { s with os := { s.os with calls := {}, proc := s.os.proc.map f } }

/-- Everything but the debug registers. -/
def Sys.sansSlots : Sys → Sys :=
  Sys.sansProc (·.eachThread fun t => { t with dr := fun _ => none })

/-- Everything but the suspend counts. -/
def Sys.sansHolds : Sys → Sys :=
  Sys.sansProc (·.eachThread fun t => { t with suspendCount := 0 })

/-- What placing and removing a breakpoint does not change of a table entry. -/
def Breakpoint.place (bp : Breakpoint) : Breakpoint :=
  { bp with savedByte := 0, enabled := false }

/-- What reporting a watchpoint hit does not change of a table entry. -/
def Watchpoint.place (watch : Watchpoint) : Watchpoint := { watch with oldValue := 0 }

/-- The event is a write to memory. -/
def Obs.isWrite : Obs → Bool
  | .memWrite .. => true
  | _ => false

/-- The event is that the process was resumed or has stopped. -/
def Obs.isRun : Obs → Bool
  | .resume .. => true
  | .stop .. => true
  | _ => false

/-- Everything but memory, the cached registers and the state of the breakpoints. -/
def Sys.sansPatches (s : Sys) : Sys :=
  { Sys.sansProc (fun p => { p with mem := fun _ => 0 }) s with
    dbg := { s.dbg with
      regs := .x86 fun _ => 0
      breakpoints := s.dbg.breakpoints.map Breakpoint.place }
    log := s.log.filter (!·.isWrite) }

/-- What handling a breakpoint hit does not change of a process. -/
def Process.sansHits (p : Process) : Process :=
  { p with mem := fun _ => 0 }.eachThread fun t => { t with regs := .x86 fun _ => 0 }

/-- Everything but memory, registers and the state of the breakpoints and watchpoints. -/
def Sys.sansHits (s : Sys) : Sys :=
  { Sys.sansProc Process.sansHits s with
    dbg := { s.dbg with
      regs := .x86 fun _ => 0
      breakpoints := s.dbg.breakpoints.map Breakpoint.place
      watchpoints := s.dbg.watchpoints.map Watchpoint.place }
    log := s.log.filter Obs.isRun }

/-- What reporting a stop does not change of a process. -/
def Process.sansReports (p : Process) : Process :=
  { p with mem := fun _ => 0 }.eachThread fun t =>
    { t with regs := .x86 fun _ => 0, dr := fun _ => none }

/-- Everything but what reporting a stop may change: memory, registers, debug registers,
the selected thread, and the state of the breakpoints and watchpoints. -/
def Sys.sansReports (s : Sys) : Sys :=
  { Sys.sansProc Process.sansReports s with
    dbg := { s.dbg with
      regs := .x86 fun _ => 0
      currentTid := 0
      breakpoints := s.dbg.breakpoints.map Breakpoint.place
      watchpoints := s.dbg.watchpoints.map Watchpoint.place }
    log := s.log.filter Obs.isRun }

theorem Sys.quiet_iff_sansCalls {s s' : Sys} : s.Quiet s' ↔ s'.sansCalls = s.sansCalls := by
  constructor
  · rintro ⟨n, rfl⟩
    rfl
  · intro h
    refine ⟨s'.os.calls, ?_⟩
    obtain ⟨d, o, l⟩ := s
    obtain ⟨d', o', l'⟩ := s'
    simp only [sansCalls, Sys.mk.injEq, Os.mk.injEq] at h
    obtain ⟨rfl, ⟨h1, h2, h3, h4, h5, -, h6, h7, h8, h9, h10, h11⟩, rfl⟩ := h
    obtain ⟨a⟩ := o
    obtain ⟨a'⟩ := o'
    simp_all

section Coarser

variable {s s' : Sys}

theorem Sys.sansSlots_of_sansCalls (h : s'.sansCalls = s.sansCalls) :
    s'.sansSlots = s.sansSlots := by
  obtain ⟨n, rfl⟩ := Sys.quiet_iff_sansCalls.mpr h
  rfl

theorem Sys.sansHolds_of_sansCalls (h : s'.sansCalls = s.sansCalls) :
    s'.sansHolds = s.sansHolds := by
  obtain ⟨n, rfl⟩ := Sys.quiet_iff_sansCalls.mpr h
  rfl

theorem Sys.sansPatches_of_sansCalls (h : s'.sansCalls = s.sansCalls) :
    s'.sansPatches = s.sansPatches := by
  obtain ⟨n, rfl⟩ := Sys.quiet_iff_sansCalls.mpr h
  rfl

theorem Sys.sansHits_sansPatches (s : Sys) : s.sansPatches.sansHits = s.sansHits := by
  have hlog : (s.log.filter (!·.isWrite)).filter Obs.isRun = s.log.filter Obs.isRun := by
    rw [List.filter_filter]
    refine List.filter_congr fun o _ => ?_
    cases o <;> rfl
  have hbps : (s.dbg.breakpoints.map Breakpoint.place).map Breakpoint.place =
      s.dbg.breakpoints.map Breakpoint.place := by
    rw [List.map_map]
    rfl
  simp only [sansHits, sansPatches, sansProc, hlog, hbps, Option.map_map]
  rfl

theorem Sys.sansReports_sansHits (s : Sys) : s.sansHits.sansReports = s.sansReports := by
  have hlog : (s.log.filter Obs.isRun).filter Obs.isRun = s.log.filter Obs.isRun := by simp
  have hbps : (s.dbg.breakpoints.map Breakpoint.place).map Breakpoint.place =
      s.dbg.breakpoints.map Breakpoint.place := by
    rw [List.map_map]
    rfl
  have hwps : (s.dbg.watchpoints.map Watchpoint.place).map Watchpoint.place =
      s.dbg.watchpoints.map Watchpoint.place := by
    rw [List.map_map]
    rfl
  simp only [sansReports, sansHits, sansProc, hlog, hbps, hwps, Option.map_map,
    Function.comp_def, Process.sansReports, Process.sansHits, Process.eachThread, List.map_map]
  rfl

theorem Sys.sansReports_sansSlots (s : Sys) : s.sansSlots.sansReports = s.sansReports := by
  simp only [sansReports, sansSlots, sansProc, Option.map_map, Function.comp_def,
    Process.sansReports, Process.eachThread, List.map_map]
  rfl

/-- The processes on both sides of a report. -/
theorem Sys.proc_of_sansReports (h : s'.sansReports = s.sansReports) {p' : Process}
    (hp : s'.os.proc = some p') :
    ∃ p, s.os.proc = some p ∧ p'.sansReports = p.sansReports := by
  have hproc : s'.os.proc.map Process.sansReports = s.os.proc.map Process.sansReports :=
    congrArg (·.os.proc) h
  rw [hp, Option.map_some] at hproc
  obtain ⟨p, hp, hpp⟩ := Option.map_eq_some_iff.mp hproc.symm
  exact ⟨p, hp, hpp.symm⟩

/-- A thread on one side of a report has its counterpart on the other. -/
theorem Process.thread_of_sansReports {p p' : Process} (h : p'.sansReports = p.sansReports)
    {t' : Thread} (ht : t' ∈ p'.threads) :
    ∃ t ∈ p.threads, t.tid = t'.tid ∧ t.suspendCount = t'.suspendCount ∧
      t.last = t'.last ∧ t.halted = t'.halted := by
  obtain ⟨t, hmem, heq⟩ := exists_mem_of_map_eq (congrArg (·.threads) h) ht
  rw [Thread.mk.injEq] at heq
  exact ⟨t, hmem, heq.1, heq.2.2.2.1, heq.2.2.2.2⟩

theorem Process.tids_of_sansReports {p p' : Process} (h : p'.sansReports = p.sansReports) :
    p'.threads.map (·.tid) = p.threads.map (·.tid) := by
  have hm := congrArg (fun q => q.threads.map (·.tid)) h
  simpa [Process.sansReports, Process.eachThread, Function.comp_def] using hm

theorem Process.WellFormed.of_sansReports {p p' : Process} (h : p'.sansReports = p.sansReports)
    (hp : p.WellFormed) : p'.WellFormed :=
  wellFormed_of_tids (tids_of_sansReports h) (congrArg (·.usedTids) h) hp

theorem Sys.sansHits_of_sansPatches (h : s'.sansPatches = s.sansPatches) :
    s'.sansHits = s.sansHits := by
  rw [← s'.sansHits_sansPatches, h, s.sansHits_sansPatches]

theorem Sys.sansReports_of_sansHits (h : s'.sansHits = s.sansHits) :
    s'.sansReports = s.sansReports := by
  rw [← s'.sansReports_sansHits, h, s.sansReports_sansHits]

theorem Sys.sansReports_of_sansPatches (h : s'.sansPatches = s.sansPatches) :
    s'.sansReports = s.sansReports :=
  Sys.sansReports_of_sansHits (Sys.sansHits_of_sansPatches h)

theorem Sys.sansReports_of_sansSlots (h : s'.sansSlots = s.sansSlots) :
    s'.sansReports = s.sansReports := by
  rw [← s'.sansReports_sansSlots, h, s.sansReports_sansSlots]

theorem Sys.sansReports_of_sansCalls (h : s'.sansCalls = s.sansCalls) :
    s'.sansReports = s.sansReports :=
  Sys.sansReports_of_sansPatches (Sys.sansPatches_of_sansCalls h)

end Coarser

/-! ### Reading -/

section Reading

variable {α : Type} (pid : ℕ)

theorem kernelRead_keeps (c : KCall) (f : Process → Option α) :
    Keeps Sys.sansCalls (kernelRead c pid f) := by
  intro s
  exact wp_kernelRead (fun s' h _ => Sys.quiet_iff_sansCalls.mp h)
    fun _ _ s' _ _ h => Sys.quiet_iff_sansCalls.mp h

theorem cdbgMemRead_keeps (addr : Addr) (len : ℕ) : Keeps Sys.sansCalls (cdbgMemRead pid addr len) :=
  kernelRead_keeps _ _ _

theorem cdbgThreadsList_keeps : Keeps Sys.sansCalls (cdbgThreadsList pid) := kernelRead_keeps _ _ _

theorem cdbgRegsGet_keeps (tid : UInt64) : Keeps Sys.sansCalls (cdbgRegsGet pid tid) :=
  kernelRead_keeps _ _ _

theorem callReturnAddress_keeps (pc : Addr) : Keeps Sys.sansCalls (callReturnAddress pc) := by
  refine Keeps.bind Keeps.get fun s => ?_
  cases s.os.arch with
  | x86_64 =>
    refine Keeps.bind (cdbgMemRead_keeps _ _ _) fun r => ?_
    cases r with
    | none => exact Keeps.pure _
    | some bytes => exact Keeps.pure _
  | aarch64 =>
    refine Keeps.bind (cdbgMemRead_keeps _ _ _) fun r => ?_
    cases r with
    | none => exact Keeps.pure _
    | some bytes => exact Keeps.pure _

theorem findWatchpointHitFrom_keeps (wps : List Watchpoint) :
    ∀ i, Keeps Sys.sansCalls (findWatchpointHitFrom pid i wps) := by
  induction wps with
  | nil => exact fun i => Keeps.pure _
  | cons watch rest ih =>
    intro i
    refine Keeps.ite (ih _) (Keeps.bind (cdbgMemRead_keeps _ _ _) fun r => ?_)
    cases r with
    | none => exact ih _
    | some bytes => exact Keeps.ite (Keeps.pure _) (ih _)

theorem findWatchpointHit_keeps : Keeps Sys.sansCalls findWatchpointHit :=
  Keeps.bind Keeps.get fun _ => findWatchpointHitFrom_keeps _ _ _

end Reading

/-! ### Debug registers and suspend counts -/

section Threads

variable (pid : ℕ)

/-- Updating one thread keeps a view that hides the update. -/
theorem updateThread_keeps {h : Process → Process} {c : KCall} {tid : UInt64}
    {f : Thread → Option (Thread → Thread)}
    (hf : ∀ p t g, f t = some g → h (p.mapThread t.tid g) = h p) :
    Keeps (Sys.sansProc h) (updateThread c pid tid f) := by
  intro s
  refine wp_updateThread (fun s' hs' _ => ?_) fun p t g s' hp _ hg hs' => ?_
  · obtain ⟨n, rfl⟩ := hs'
    rfl
  · obtain ⟨n, rfl⟩ := hs'
    obtain ⟨hp, -⟩ := Sys.process_eq_some.mp hp
    simp only [Sys.sansProc, Sys.withProc, hp, Option.map_some, hf p t g hg]

theorem setThreadSlot_keeps (i : Fin wpMaxHw) (slot : Option HwSlot) (tid : UInt64) :
    Keeps Sys.sansSlots (setThreadSlot pid i slot tid) := by
  refine updateThread_keeps pid fun p t g hg => ?_
  obtain rfl := Option.some.inj hg
  exact Process.eachThread_mapThread fun t => rfl

theorem setSlotOfThreads_keeps (i : Fin wpMaxHw) (slot : Option HwSlot) (tids : List UInt64) :
    ∀ rc, Keeps Sys.sansSlots (setSlotOfThreads pid i slot tids rc) := by
  induction tids with
  | nil => exact fun rc => Keeps.pure _
  | cons tid tids ih => exact fun rc => Keeps.bind (setThreadSlot_keeps _ _ _ _) fun _ => ih _

theorem forEachThread_keeps (i : Fin wpMaxHw) (slot : Option HwSlot) :
    Keeps Sys.sansSlots (forEachThread pid i slot) := by
  refine Keeps.bind ((kernelRead_keeps _ _ _).mono fun _ _ => Sys.sansSlots_of_sansCalls) fun r => ?_
  cases r with
  | none => exact Keeps.pure _
  | some tids => exact setSlotOfThreads_keeps _ _ _ _ _

theorem cdbgWpHwInstall_keeps (slot : ℕ) (addr : Addr) (size : ℕ) (mode : WpMode) :
    Keeps Sys.sansSlots (cdbgWpHwInstall pid slot addr size mode) := by
  rw [cdbgWpHwInstall]
  split
  · exact Keeps.bind Keeps.get fun s => Keeps.ite (Keeps.pure _) (forEachThread_keeps _ _ _)
  · exact Keeps.pure _

theorem resyncFrom_keeps (wps : List Watchpoint) :
    ∀ i, Keeps Sys.sansSlots (resyncFrom pid i wps) := by
  induction wps with
  | nil => exact fun i => Keeps.pure _
  | cons watch rest ih =>
    exact fun i => Keeps.ite (Keeps.bind (cdbgWpHwInstall_keeps _ _ _ _ _) fun _ => ih _) (ih _)

theorem resyncWatchpointsToAllThreads_keeps :
    Keeps Sys.sansSlots resyncWatchpointsToAllThreads :=
  Keeps.bind Keeps.get fun _ => resyncFrom_keeps _ _ _

theorem cdbgThreadSuspend_keeps (tid : UInt64) :
    Keeps Sys.sansHolds (cdbgThreadSuspend pid tid) := by
  refine updateThread_keeps pid fun p t g hg => ?_
  obtain rfl := Option.some.inj hg
  exact Process.eachThread_mapThread fun t => rfl

theorem cdbgThreadResume_keeps (tid : UInt64) :
    Keeps Sys.sansHolds (cdbgThreadResume pid tid) := by
  refine updateThread_keeps pid fun p t g hg => ?_
  split at hg
  · exact absurd hg (by simp)
  · obtain rfl := Option.some.inj hg
    exact Process.eachThread_mapThread fun t => rfl

theorem catchUpLoop_keeps (currentTid : UInt64) (infos : List ThreadInfo) :
    ∀ guard, Keeps Sys.sansHolds (catchUpLoop pid currentTid infos guard) := by
  induction infos with
  | nil => exact fun guard => Keeps.pure _
  | cons t ts ih =>
    exact fun guard => Keeps.ite (Keeps.pure _) (Keeps.ite (ih _)
      (Keeps.bind (cdbgThreadSuspend_keeps _ _) fun rc => ih _))

theorem stepThreadGuardCatchUp_keeps (guard : Guard) :
    Keeps Sys.sansHolds (stepThreadGuardCatchUp guard) := by
  refine Keeps.bind Keeps.get fun s => Keeps.ite (Keeps.pure _) (Keeps.bind
    ((cdbgThreadsList_keeps _).mono fun _ _ => Sys.sansHolds_of_sansCalls) fun r => ?_)
  cases r with
  | none => exact Keeps.pure _
  | some infos => exact catchUpLoop_keeps _ _ _ _

theorem stepThreadGuardEnd_keeps (guard : Guard) :
    Keeps Sys.sansHolds (stepThreadGuardEnd guard) :=
  Keeps.bind Keeps.get fun _ => Keeps.forEach fun _ _ =>
    Keeps.bind (cdbgThreadResume_keeps _ _) fun _ => Keeps.pure _

end Threads

/-! ### Placing breakpoints -/

section Patches

variable {pid : ℕ} {s : Sys}

theorem wp_cdbgRefreshRegs {Q : Int → Sys → Prop}
    (hfail : ∀ s', s.Quiet s' →
      (s.Reliable .regsGet → ∀ p, s.process s.dbg.pid = some p →
        p.thread s.dbg.currentTid = none) → Q (-1) s')
    (hok : ∀ p t s', s.process s.dbg.pid = some p → p.thread s.dbg.currentTid = some t →
      (s.withDbg { s.dbg with regs := t.regs }).Quiet s' → Q 0 s') :
    wp cdbgRefreshRegs Q s := by
  rw [cdbgRefreshRegs, wp_bind, wp_get, wp_bind]
  refine wp_cdbgRegsGet hfail fun p t s' hp ht hs' => ?_
  obtain ⟨n, rfl⟩ := hs'
  exact hok p t _ hp ht ⟨n, rfl⟩

theorem wp_cdbgBpEnable {bp : Breakpoint} {addr : Addr} {Q : Int × Breakpoint → Sys → Prop}
    (hfail : ∀ bp' s', s.Quiet s' →
      (s.Reliable .memRead → s.Reliable .memWrite → s.process pid = none) →
      (bp' = bp ∨ ∃ byte, bp' = { bp with addr := addr, savedByte := byte, enabled := false }) →
      Q (-1, bp') s')
    (hok : ∀ p s', s.process pid = some p →
      (s.wrote p addr [trapByte s.os.arch]).Quiet s' →
      Q (0, { bp with addr := addr, savedByte := p.mem addr, enabled := true }) s') :
    wp (cdbgBpEnable bp pid addr) Q s := by
  rw [cdbgBpEnable, wp_bind]
  refine wp_cdbgMemRead (fun s' hs' hr => ?_) fun p s' hp hs' => ?_
  · exact hfail bp s' hs' (fun h _ => hr h) (.inl rfl)
  · obtain ⟨n, rfl⟩ := hs'
    show wp (do if (← cdbgMemWrite pid addr [trapByte s.os.arch]) ≠ 0 then _ else _) Q _
    rw [wp_bind]
    refine wp_cdbgMemWrite (fun s' hs' hr => ?_) fun q s' hq hs' => ?_
    · rw [wp_ite]
      refine ⟨fun _ => ?_, fun h => absurd (by decide) h⟩
      exact hfail _ s' (.trans ⟨n, rfl⟩ hs') (fun _ h => hr h) (.inr ⟨_, rfl⟩)
    · obtain rfl := Option.some.inj (hp.symm.trans hq)
      obtain ⟨n', rfl⟩ := hs'
      rw [wp_ite]
      refine ⟨fun h => absurd rfl h, fun _ => ?_⟩
      rw [Mem.read_one]
      exact hok p _ hp ⟨n', rfl⟩

theorem wp_cdbgBpDisable {bp : Breakpoint} {Q : Int × Breakpoint → Sys → Prop}
    (hoff : bp.enabled = false → Q (0, bp) s)
    (hfail : bp.enabled = true → ∀ s', s.Quiet s' →
      (s.Reliable .memWrite → s.process pid = none) → Q (-1, bp) s')
    (hok : bp.enabled = true → ∀ p s', s.process pid = some p →
      (s.wrote p bp.addr [bp.savedByte]).Quiet s' → Q (0, { bp with enabled := false }) s') :
    wp (cdbgBpDisable bp pid) Q s := by
  rw [cdbgBpDisable, wp_ite]
  refine ⟨fun h => hoff (by simpa using h), fun h => ?_⟩
  have hon : bp.enabled = true := by simpa using h
  rw [wp_bind]
  refine wp_cdbgMemWrite (fun s' hs' hr => ?_) fun p s' hp hs' => ?_
  · rw [wp_ite]
    exact ⟨fun _ => hfail hon s' hs' hr, fun h => absurd (by decide) h⟩
  · rw [wp_ite]
    exact ⟨fun h => absurd rfl h, fun _ => hok hon p s' hp hs'⟩

theorem Sys.sansPatches_of_quiet {s s' : Sys} (h : s.Quiet s') :
    s'.sansPatches = s.sansPatches :=
  Sys.sansPatches_of_sansCalls (Sys.quiet_iff_sansCalls.mp h)

theorem Sys.sansPatches_wrote {s : Sys} {p : Process} {addr : Addr} {bytes : List UInt8}
    (h : s.process pid = some p) : (s.wrote p addr bytes).sansPatches = s.sansPatches := by
  obtain ⟨hp, -⟩ := Sys.process_eq_some.mp h
  simp only [sansPatches, sansProc, wrote, record, withProc, hp, Option.map_some]
  rfl

theorem cdbgRefreshRegs_keeps : Keeps Sys.sansPatches cdbgRefreshRegs := by
  intro s
  refine wp_cdbgRefreshRegs (fun s' h _ => Sys.sansPatches_of_quiet h) fun p t s' _ _ h => ?_
  rw [Sys.sansPatches_of_quiet h]
  rfl

theorem cdbgMemWrite_keeps (addr : Addr) (bytes : List UInt8) :
    Keeps Sys.sansPatches (cdbgMemWrite pid addr bytes) := by
  intro s
  refine wp_cdbgMemWrite (fun s' h _ => Sys.sansPatches_of_quiet h) fun p s' hp h => ?_
  rw [Sys.sansPatches_of_quiet h, Sys.sansPatches_wrote hp]

/-- Enabling an entry at its own address writes to memory and changes nothing else. -/
theorem cdbgBpEnable_keeps (bp : Breakpoint) (addr : Addr) :
    wp (cdbgBpEnable bp pid addr)
      (fun r s' => s'.dbg = s.dbg ∧ s'.sansPatches = s.sansPatches ∧
        (bp.addr = addr → r.2.place = bp.place)) s := by
  refine wp_cdbgBpEnable (fun bp' s' h _ hbp => ?_) fun p s' hp h => ?_
  · have hd : s'.dbg = s.dbg := by obtain ⟨n, rfl⟩ := h; rfl
    refine ⟨hd, Sys.sansPatches_of_quiet h, fun ha => ?_⟩
    rcases hbp with rfl | ⟨byte, rfl⟩
    · rfl
    · rw [← ha]; rfl
  · have hd : s'.dbg = s.dbg := by obtain ⟨n, rfl⟩ := h; rfl
    refine ⟨hd, ?_, fun ha => by rw [← ha]; rfl⟩
    rw [Sys.sansPatches_of_quiet h, Sys.sansPatches_wrote hp]

theorem cdbgBpDisable_keeps (bp : Breakpoint) :
    wp (cdbgBpDisable bp pid)
      (fun r s' => s'.dbg = s.dbg ∧ s'.sansPatches = s.sansPatches ∧ r.2.place = bp.place) s := by
  refine wp_cdbgBpDisable (fun _ => ⟨rfl, rfl, rfl⟩) (fun _ s' h _ => ?_) fun _ p s' hp h => ?_
  · have hd : s'.dbg = s.dbg := by obtain ⟨n, rfl⟩ := h; rfl
    exact ⟨hd, Sys.sansPatches_of_quiet h, rfl⟩
  · have hd : s'.dbg = s.dbg := by obtain ⟨n, rfl⟩ := h; rfl
    refine ⟨hd, ?_, rfl⟩
    rw [Sys.sansPatches_of_quiet h, Sys.sansPatches_wrote hp]

theorem reenableLoop_keeps (pc : Addr) (bps : List Breakpoint) :
    ∀ s, wp (reenableLoop pid pc bps)
      (fun r s' => s'.dbg = s.dbg ∧ s'.sansPatches = s.sansPatches ∧
        r.2.map Breakpoint.place = bps.map Breakpoint.place) s := by
  induction bps with
  | nil => exact fun s => ⟨rfl, rfl, rfl⟩
  | cons bp bps ih =>
    intro s
    rw [reenableLoop, wp_ite]
    refine ⟨fun _ => ?_, fun _ => ?_⟩
    · rw [wp_bind]
      refine wp_mono (cdbgBpEnable_keeps bp bp.addr) fun r s₁ h₁ => ?_
      obtain ⟨hd₁, hv₁, hp₁⟩ := h₁
      obtain ⟨rc, bp'⟩ := r
      show wp (if rc ≠ 0 then _ else _) _ _
      rw [wp_ite]
      refine ⟨fun _ => ⟨hd₁, hv₁, congrArg₂ List.cons (hp₁ rfl) rfl⟩, fun _ => ?_⟩
      rw [wp_bind]
      refine wp_mono (ih s₁) fun r s₂ h₂ => ?_
      obtain ⟨hd₂, hv₂, hp₂⟩ := h₂
      exact ⟨hd₂.trans hd₁, hv₂.trans hv₁, congrArg₂ List.cons (hp₁ rfl) hp₂⟩
    · rw [wp_bind]
      refine wp_mono (ih s) fun r s₂ h₂ => ?_
      obtain ⟨hd₂, hv₂, hp₂⟩ := h₂
      exact ⟨hd₂, hv₂, congrArg₂ List.cons rfl hp₂⟩

/-- Replacing the breakpoints by ones that agree up to their state. -/
theorem Sys.sansPatches_withBreakpoints {s s' : Sys} {bps : List Breakpoint}
    (h : s'.sansPatches = s.sansPatches)
    (hbps : bps.map Breakpoint.place = s'.dbg.breakpoints.map Breakpoint.place) :
    (s'.withDbg { s'.dbg with breakpoints := bps }).sansPatches = s.sansPatches := by
  rw [← h]
  simp only [sansPatches, sansProc, withDbg, hbps]

theorem reenableBreakpointsAfterStep_keeps : Keeps Sys.sansPatches reenableBreakpointsAfterStep := by
  intro s
  rw [reenableBreakpointsAfterStep, wp_bind, wp_get, wp_ite]
  refine ⟨fun _ => rfl, fun _ => ?_⟩
  rw [wp_bind]
  refine wp_mono (cdbgRefreshRegs_keeps s) fun rc s₁ h₁ => ?_
  rw [wp_ite]
  refine ⟨fun _ => h₁, fun _ => ?_⟩
  rw [wp_bind, wp_get, wp_bind]
  refine wp_mono (reenableLoop_keeps _ _ s₁) fun r s₂ h₂ => ?_
  obtain ⟨hd, hv, hp⟩ := h₂
  rw [← hd] at hp
  exact Sys.sansPatches_withBreakpoints (hv.trans h₁) hp

theorem dropTempBreakpoint_keeps (tempBp : Breakpoint) :
    Keeps Sys.sansPatches (dropTempBreakpoint tempBp) := by
  intro s
  rw [dropTempBreakpoint, wp_bind, wp_get, wp_bind]
  exact wp_mono (cdbgBpDisable_keeps tempBp) fun _ _ h => h.2.1

end Patches

/-! ### Reporting a stop -/

section Reports

variable {s : Sys}

theorem Sys.sansReports_of_quiet {s' : Sys} (h : s.Quiet s') : s'.sansReports = s.sansReports :=
  Sys.sansReports_of_sansCalls (Sys.quiet_iff_sansCalls.mp h)

/-- Changing the cached registers or the selected thread. -/
theorem Sys.sansReports_withRegs (regs : Regs) (tid : UInt64) :
    (s.withDbg { s.dbg with regs := regs, currentTid := tid }).sansReports = s.sansReports := rfl

theorem switchLoop_keeps (pid : ℕ) (infos : List ThreadInfo) :
    Keeps Sys.sansReports (switchLoop pid infos) := by
  induction infos with
  | nil => exact Keeps.pure _
  | cons t ts ih =>
    refine Keeps.bind ((cdbgRegsGet_keeps _ _).mono fun _ _ => Sys.sansReports_of_sansCalls)
      fun r => ?_
    cases r with
    | none => exact ih
    | some regs => exact Keeps.bind Keeps.get fun s => Keeps.ite (fun s => rfl) ih

theorem switchCurrentTidToBreakpointHit_keeps :
    Keeps Sys.sansReports switchCurrentTidToBreakpointHit := by
  refine Keeps.bind Keeps.get fun s => Keeps.ite (Keeps.pure _) (Keeps.bind
    ((cdbgThreadsList_keeps _).mono fun _ _ => Sys.sansReports_of_sansCalls) fun r => ?_)
  cases r with
  | none => exact Keeps.pure _
  | some infos => exact switchLoop_keeps _ _

theorem Sys.sansHits_of_quiet {s' : Sys} (h : s.Quiet s') : s'.sansHits = s.sansHits :=
  Sys.sansHits_of_sansPatches (Sys.sansPatches_of_quiet h)

theorem cdbgRegsSet_keepsHits (pid : ℕ) (tid : UInt64) (regs : Regs) :
    Keeps Sys.sansHits (cdbgRegsSet pid tid regs) := by
  intro s
  refine wp_cdbgRegsSet (fun s' h _ => Sys.sansHits_of_quiet h) fun p t s' hp _ h => ?_
  obtain ⟨hp, -⟩ := Sys.process_eq_some.mp hp
  have hview : (p.mapThread t.tid fun u => { u with regs := regs }).sansHits = p.sansHits :=
    Process.eachThread_mapThread (p := { p with mem := fun _ => 0 }) fun _ => rfl
  rw [Sys.sansHits_of_quiet h]
  simp only [Sys.sansHits, Sys.sansProc, Sys.withProc, hp, Option.map_some, hview]

theorem cdbgRegsSet_keeps (pid : ℕ) (tid : UInt64) (regs : Regs) :
    Keeps Sys.sansReports (cdbgRegsSet pid tid regs) :=
  (cdbgRegsSet_keepsHits pid tid regs).mono fun _ _ => Sys.sansReports_of_sansHits

theorem cdbgRefreshRegs_keepsReports : Keeps Sys.sansReports cdbgRefreshRegs :=
  cdbgRefreshRegs_keeps.mono fun _ _ => Sys.sansReports_of_sansPatches

theorem rewindPc_keeps : Keeps Sys.sansHits rewindPc :=
  Keeps.bind Keeps.get fun _ => Keeps.ite (Keeps.bind (fun _ => rfl) fun _ =>
    Keeps.bind (cdbgRegsSet_keepsHits _ _ _) fun _ => Keeps.ite (Keeps.pure _) (Keeps.pure _))
    (Keeps.pure _)

theorem Sys.recordHit_dbg (s : Sys) (index : ℕ) : (s.recordHit index).dbg = s.dbg := by
  rw [recordHit]
  split <;> rfl

theorem Sys.sansHits_recordHit (s : Sys) (index : ℕ) :
    (s.recordHit index).sansHits = s.sansHits := by
  rw [recordHit]
  split <;> rfl

theorem handleBreakpointHit_keeps (index : ℕ) : Keeps Sys.sansHits (handleBreakpointHit index) := by
  intro s
  rw [handleBreakpointHit, wp_bind, wp_get, wp_bind, wp_modify, wp_bind]
  refine wp_mono (cdbgBpDisable_keeps _) fun r s₁ h₁ => ?_
  obtain ⟨hd, hv, hp⟩ := h₁
  obtain ⟨rc, bp⟩ := r
  rw [Sys.recordHit_dbg] at hd
  have hplace : (s.dbg.breakpoints.set index bp).map Breakpoint.place =
      s₁.dbg.breakpoints.map Breakpoint.place := by
    rw [hd]
    exact map_set_getD hp
  have hv₁ : (s₁.withDbg { s₁.dbg with
      breakpoints := s.dbg.breakpoints.set index bp }).sansHits = s.sansHits :=
    (Sys.sansHits_of_sansPatches (Sys.sansPatches_withBreakpoints hv hplace)).trans
      (s.sansHits_recordHit index)
  show wp (do
    setBreakpoints (s.dbg.breakpoints.set index bp)
    if rc ≠ 0 then _ else _) _ _
  rw [wp_bind, wp_setBreakpoints, wp_ite]
  refine ⟨fun _ => hv₁, fun _ => ?_⟩
  rw [wp_bind]
  refine wp_mono (cdbgRefreshRegs_keeps _) fun rc' s₂ h₂ => ?_
  have hv₂ := (Sys.sansHits_of_sansPatches h₂).trans hv₁
  rw [wp_ite]
  refine ⟨fun _ => hv₂, fun _ => ?_⟩
  exact wp_mono (rewindPc_keeps s₂) fun _ _ h => h.trans hv₂

theorem reportWatchpointHit_keepsHits (index : ℕ) :
    Keeps Sys.sansHits (reportWatchpointHit index) := by
  intro s
  rw [reportWatchpointHit, wp_bind, wp_get, wp_bind]
  refine wp_cdbgMemRead (fun s' h _ => Sys.sansHits_of_quiet h) fun p s' _ h => ?_
  obtain ⟨n, rfl⟩ := h
  have hplace : ∀ value, (s.dbg.watchpoints.set index
      { s.dbg.watchpoints.getD index {} with oldValue := value }).map Watchpoint.place =
        s.dbg.watchpoints.map Watchpoint.place := fun value => map_set_getD rfl
  show Sys.sansHits (Sys.withDbg _ _) = s.sansHits
  simp only [Sys.sansHits, Sys.sansProc, Sys.withDbg, hplace]

theorem reportWatchpointHit_keeps (index : ℕ) :
    Keeps Sys.sansReports (reportWatchpointHit index) :=
  (reportWatchpointHit_keepsHits index).mono fun _ _ => Sys.sansReports_of_sansHits

theorem reportOtherStop_keeps : Keeps Sys.sansHits reportOtherStop := by
  refine Keeps.bind (findWatchpointHit_keeps.mono fun _ _ h =>
    Sys.sansHits_of_quiet (Sys.quiet_iff_sansCalls.mpr h)) fun r => ?_
  cases r with
  | none => exact Keeps.pure _
  | some i => exact Keeps.bind (reportWatchpointHit_keepsHits i) fun _ => Keeps.pure _

theorem reportSelected_keeps : Keeps Sys.sansHits reportSelected := by
  refine Keeps.bind (cdbgRefreshRegs_keeps.mono fun _ _ => Sys.sansHits_of_sansPatches) fun rc =>
    Keeps.ite (Keeps.pure _) (Keeps.bind Keeps.get fun s => ?_)
  split
  · exact handleBreakpointHit_keeps _
  · exact reportOtherStop_keeps

theorem reportStop_keeps : Keeps Sys.sansReports reportStop := by
  refine Keeps.bind (resyncWatchpointsToAllThreads_keeps.mono fun _ _ =>
    Sys.sansReports_of_sansSlots) fun _ => ?_
  exact Keeps.bind switchCurrentTidToBreakpointHit_keeps fun _ =>
    reportSelected_keeps.mono fun _ _ => Sys.sansReports_of_sansHits

theorem finishTempBreakpoint_keeps (tempBp : Breakpoint) :
    Keeps Sys.sansReports (finishTempBreakpoint tempBp) := by
  have hdrop : Keeps Sys.sansReports (dropTempBreakpoint tempBp) :=
    (dropTempBreakpoint_keeps tempBp).mono fun _ _ => Sys.sansReports_of_sansPatches
  refine Keeps.bind cdbgRefreshRegs_keepsReports fun rc =>
    Keeps.ite (Keeps.bind hdrop fun _ => Keeps.pure _) (Keeps.bind Keeps.get fun s => ?_)
  refine Keeps.ite (Keeps.bind hdrop fun _ => reportStop_keeps) (Keeps.bind ?_ fun r => ?_)
  · exact fun s => wp_mono (cdbgBpDisable_keeps tempBp) fun _ _ h =>
      Sys.sansReports_of_sansPatches h.2.1
  · refine Keeps.ite (Keeps.pure _) (Keeps.ite ?_ (Keeps.pure _))
    exact Keeps.bind (fun _ => rfl) fun _ => Keeps.bind (cdbgRegsSet_keeps _ _ _) fun _ =>
      Keeps.ite (Keeps.pure _) (Keeps.pure _)

end Reports

end Debugger
