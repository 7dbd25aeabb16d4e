/-
Handling a breakpoint hit.

`handle_breakpoint_hit` puts the saved byte of the entry back (`Sys.handled`) and moves the
pc of the selected thread back by one (`Sys.rewound`).  The rules of this module say when
that happens.  The view `Sys.sansWatches` shows everything it depends on and changes.
-/
import Debugger.Report

open Prog

namespace Debugger

/-! ### A view without watchpoints -/

/-- A thread without its debug registers and its suspend count. -/
def Thread.spot (t : Thread) : Thread := { t with dr := fun _ => none, suspendCount := 0 }

/-- Everything but the watchpoints, the debug registers and the suspend counts. -/
def Sys.sansWatches (s : Sys) : Sys :=
  { Sys.sansProc (·.eachThread Thread.spot) s with dbg := { s.dbg with watchpoints := [] } }

section View

variable {s s' : Sys}

theorem Sys.sansWatches_sansProc {f : Thread → Thread} (hf : ∀ t, (f t).spot = t.spot) (s : Sys) :
    (s.sansProc (·.eachThread f)).sansWatches = s.sansWatches := by
  have hproc : (s.sansProc (·.eachThread f)).os.proc.map (·.eachThread Thread.spot) =
      s.os.proc.map (·.eachThread Thread.spot) := by
    rw [sansProc, Option.map_map]
    refine congrArg (Option.map · s.os.proc) (funext fun p => ?_)
    simp only [Function.comp_apply, Process.eachThread, List.map_map]
    congr 1
    exact List.map_congr_left fun t _ => hf t
  simp only [sansWatches, sansProc] at hproc ⊢
  rw [hproc]

theorem Sys.sansWatches_of_sansSlots (h : s'.sansSlots = s.sansSlots) :
    s'.sansWatches = s.sansWatches := by
  rw [← s'.sansWatches_sansProc (f := fun t => { t with dr := fun _ => none }) fun _ => rfl,
    ← s.sansWatches_sansProc (f := fun t => { t with dr := fun _ => none }) fun _ => rfl]
  exact congrArg Sys.sansWatches h

theorem Sys.sansWatches_of_sansHolds (h : s'.sansHolds = s.sansHolds) :
    s'.sansWatches = s.sansWatches := by
  rw [← s'.sansWatches_sansProc (f := fun t => { t with suspendCount := 0 }) fun _ => rfl,
    ← s.sansWatches_sansProc (f := fun t => { t with suspendCount := 0 }) fun _ => rfl]
  exact congrArg Sys.sansWatches h

theorem Sys.sansWatches_of_quiet (h : s.Quiet s') : s'.sansWatches = s.sansWatches := by
  obtain ⟨n, rfl⟩ := h
  rfl

theorem Sys.progress_of_sansWatches (h : s'.sansWatches = s.sansWatches) :
    s'.progress = s.progress := by
  have hview : ∀ s : Sys, s.sansWatches.progress = s.progress := fun s =>
    s.progress_sansProc (f := Thread.spot) fun _ => rfl
  rw [← hview s', h, hview s]

theorem reportWatchpointHit_keepsWatches (index : ℕ) :
    Keeps Sys.sansWatches (reportWatchpointHit index) := by
  intro s
  rw [reportWatchpointHit, wp_bind, wp_get, wp_bind]
  refine wp_cdbgMemRead (fun s' h _ => Sys.sansWatches_of_quiet h) fun p s' _ h => ?_
  obtain ⟨n, rfl⟩ := h
  rfl

theorem reportOtherStop_keepsWatches : Keeps Sys.sansWatches reportOtherStop := by
  refine Keeps.bind (findWatchpointHit_keeps.mono fun _ _ h =>
    Sys.sansWatches_of_quiet (Sys.quiet_iff_sansCalls.mpr h)) fun r => ?_
  cases r with
  | none => exact Keeps.pure _
  | some i => exact Keeps.bind (reportWatchpointHit_keepsWatches i) fun _ => Keeps.pure _

/-- The processes on both sides of the view. -/
theorem Sys.proc_of_sansWatches (h : s'.sansWatches = s.sansWatches) {p' : Process}
    (hp' : s'.os.proc = some p') : ∃ p, s.os.proc = some p ∧
      p'.eachThread Thread.spot = p.eachThread Thread.spot := by
  have hproc : s'.os.proc.map (·.eachThread Thread.spot) =
      s.os.proc.map (·.eachThread Thread.spot) := congrArg (·.os.proc) h
  rw [hp', Option.map_some] at hproc
  obtain ⟨p, hp, heq⟩ := Option.map_eq_some_iff.mp hproc.symm
  exact ⟨p, hp, heq.symm⟩

/-- An id names the same thread on both sides, up to what the view hides. -/
theorem Process.thread_of_spots {p p' : Process}
    (h : p'.eachThread Thread.spot = p.eachThread Thread.spot) {tid : UInt64} {t' : Thread}
    (ht : p'.thread tid = some t') : ∃ t, p.thread tid = some t ∧ t.spot = t'.spot := by
  have hthreads : p'.threads.map Thread.spot = p.threads.map Thread.spot := congrArg (·.threads) h
  have hmap : (p'.thread tid).map Thread.spot = (p.thread tid).map Thread.spot := by
    rw [thread, thread]
    split
    · rw [primary, primary, ← List.head?_map, ← List.head?_map]
      exact congrArg List.head? hthreads
    · exact find?_of_map_eq (q := fun t => decide (t.tid = tid)) hthreads
  rw [ht, Option.map_some] at hmap
  obtain ⟨t, ht, heq⟩ := Option.map_eq_some_iff.mp hmap.symm
  exact ⟨t, ht, heq⟩

end View

/-! ### The effect of a hit -/

/-- Entry `i` of the table, a breakpoint `bp`, has been taken out. -/
def Sys.handled (s : Sys) (p : Process) (i : ℕ) (bp : Breakpoint) : Sys where
  dbg := { s.dbg with breakpoints := s.dbg.breakpoints.set i { bp with enabled := false } }
  os := { s.os with proc := some { p with mem := Function.update p.mem bp.addr bp.savedByte } }
  log := .memWrite s.dbg p bp.addr [bp.savedByte] :: .hit s.dbg p i :: s.log

/-- The pc of the thread `t` has been moved back by one, also in the cached registers. -/
def Sys.rewound (s : Sys) (t : Thread) : Sys where
  dbg := { s.dbg with regs := t.regs.setPc (t.regs.pc - 1) }
  os := { s.os with proc := s.os.proc.map (·.mapThread t.tid fun u =>
    { u with regs := t.regs.setPc (t.regs.pc - 1) }) }
  log := s.log

/-! ### A debuggee that does not modify its code -/

/-- The move writes to none of the addresses in `code`. -/
def Move.Spares (code : Addr → Prop) : Move → Prop
  | .exec _ _ writes => ∀ w ∈ writes, ¬ code w.1
  | _ => True

/-- Up to the stop the debuggee writes to none of the addresses in `code`. -/
def WaitEvent.Spares (code : Addr → Prop) : WaitEvent → Prop
  | .stopped _ ms => ∀ m ∈ ms, m.Spares code
  | _ => True

theorem Process.moves_mem {arch : Arch} {kind : Resume} {p : Process} {ms : List Move}
    {code : Addr → Prop} (h : ∀ m ∈ ms, m.Spares code) {a : Addr} (ha : code a) :
    (p.moves arch kind ms).mem a = p.mem a := by
  refine moves_induct (P := fun q => q.mem a = p.mem a) (fun q m hm hq => ?_) rfl
  rcases @move_cases arch kind q m with
    heq | ⟨tid, regs, writes, t, rfl, -, -, ⟨-, heq⟩ | ⟨-, heq⟩⟩ | ⟨tid, regs, -, -, heq⟩ |
      ⟨tid, heq⟩
  · rw [heq]
    exact hq
  · rw [heq]
    exact hq
  · rw [heq]
    refine (Mem.stores_of_not_mem fun w hw hwa => ?_).trans hq
    exact h _ hm w hw (hwa ▸ ha)
  · rw [heq]
    exact hq
  · rw [heq]
    exact hq

section Rules

variable {s : Sys} {Q : Int → Sys → Prop}

/-- Moving the pc of the selected thread back, after its registers have been refreshed. -/
theorem wp_rewindPc {p : Process} {t : Thread} (hp : s.process s.dbg.pid = some p)
    (ht : p.thread s.dbg.currentTid = some t) (hregs : s.dbg.regs = t.regs)
    (hstuck : ∀ rc regs s', (s.withDbg { s.dbg with regs := regs }).Quiet s' →
      (s.Reliable .regsSet → t.regs.pc = 0) → Q rc s')
    (hok : ∀ s', 0 < t.regs.pc → (s.rewound t).Quiet s' → Q 0 s') : wp rewindPc Q s := by
  rw [rewindPc, wp_bind, wp_get, wp_ite, hregs]
  refine ⟨fun hpos => ?_, fun hpos => hstuck 0 s.dbg.regs s (.refl _) fun _ => ?_⟩
  · rw [wp_bind, wp_setRegs, wp_bind]
    refine wp_cdbgRegsSet (fun s' hq hnone => ?_) fun q u s' hq hu hs' => ?_
    · rw [wp_ite]
      refine ⟨fun _ => hstuck _ _ s' hq fun hr => ?_, fun h => absurd (by decide) h⟩
      exact absurd (ht.symm.trans (hnone hr p hp)) (by simp)
    · rw [wp_ite]
      obtain rfl := Option.some.inj (hp.symm.trans hq)
      obtain rfl := Option.some.inj (ht.symm.trans hu)
      refine ⟨fun h => absurd rfl h, fun _ => hok s' hpos ?_⟩
      have hrewound : s.rewound t = (s.withDbg { s.dbg with
          regs := t.regs.setPc (t.regs.pc - 1) }).withProc (p.mapThread t.tid fun u =>
            { u with regs := t.regs.setPc (t.regs.pc - 1) }) := by
        rw [Sys.rewound, (Sys.process_eq_some.mp hp).1]
        rfl
      rw [hrewound]
      exact hs'
  · have hzero : ¬ (0 : UInt64) < t.regs.pc := hpos
    exact UInt64.le_zero_iff.mp (UInt64.not_lt.mp hzero)

theorem wp_handleBreakpointHit {i : ℕ} {bp : Breakpoint} {p : Process} {t : Thread}
    (hbp : s.dbg.breakpoints[i]? = some bp) (hon : bp.enabled = true)
    (hp : s.process s.dbg.pid = some p) (ht : p.thread s.dbg.currentTid = some t)
    (hfail : ∀ s', (s.record (.hit s.dbg p i)).Quiet s' → ¬ s.Reliable .memWrite → Q (-1) s')
    (hstuck : ∀ rc regs s', ((s.handled p i bp).withDbg { (s.handled p i bp).dbg with
      regs := regs }).Quiet s' →
      (s.Reliable .regsGet → s.Reliable .regsSet → t.regs.pc = 0) → Q rc s')
    (hok : ∀ s', 0 < t.regs.pc → ((s.handled p i bp).rewound t).Quiet s' → Q 0 s') :
    wp (handleBreakpointHit i) Q s := by
  obtain ⟨hproc, hpid⟩ := Sys.process_eq_some.mp hp
  have hget : s.dbg.breakpoints.getD i {} = bp := by
    rw [List.getD_eq_getElem?_getD, hbp]
    rfl
  have hrecord : s.recordHit i = s.record (.hit s.dbg p i) := by
    rw [Sys.recordHit, hproc]
  rw [handleBreakpointHit, wp_bind, wp_get, wp_bind, wp_modify, wp_bind, hget, hrecord]
  refine wp_cdbgBpDisable (fun hoff => absurd (hoff.symm.trans hon) (by decide))
    (fun _ s₁ hq hnone => ?_) fun _ q s₁ hq hs₁ => ?_
  · obtain ⟨n, rfl⟩ := hq
    show wp (do
      setBreakpoints (s.dbg.breakpoints.set i bp)
      if (-1 : Int) ≠ 0 then _ else _) _ _
    -- a write that fails leaves the entry as it was
    have hself : s.dbg.breakpoints.set i bp = s.dbg.breakpoints := by
      obtain ⟨hlt, rfl⟩ := List.getElem?_eq_some_iff.mp hbp
      exact List.set_getElem_self hlt
    rw [wp_bind, wp_setBreakpoints, wp_ite, hself]
    refine ⟨fun _ => hfail _ ⟨n, rfl⟩ fun hr => ?_, fun h => absurd neg_one_ne h⟩
    have hnone := hnone hr
    rw [show (s.record (.hit s.dbg p i)).process s.dbg.pid = s.process s.dbg.pid from rfl, hp]
      at hnone
    exact absurd hnone (by simp)
  · obtain ⟨n, rfl⟩ := hs₁
    obtain rfl := Option.some.inj (hp.symm.trans hq)
    show wp (do
      setBreakpoints (s.dbg.breakpoints.set i { bp with enabled := false })
      if (0 : Int) ≠ 0 then _ else _) _ _
    rw [wp_bind, wp_setBreakpoints, wp_ite]
    refine ⟨fun h => absurd rfl h, fun _ => ?_⟩
    have hthread : Process.thread { p with mem := p.mem.write bp.addr [bp.savedByte] }
        s.dbg.currentTid = some t := ht
    rw [wp_bind]
    refine wp_cdbgRefreshRegs (fun s₂ hq₂ hnone => ?_) fun q u s₂ hq₂ hu hs₂ => ?_
    · rw [wp_ite]
      refine ⟨fun _ => hstuck _ s.dbg.regs s₂ ?_ fun hr _ => ?_, fun h => absurd neg_one_ne h⟩
      · obtain ⟨m, rfl⟩ := hq₂
        exact ⟨m, rfl⟩
      · have hnone := hnone hr _ (Sys.process_eq_some.mpr ⟨rfl, hpid⟩)
        exact absurd (hthread.symm.trans hnone) (by simp)
    · rw [wp_ite]
      refine ⟨fun h => absurd rfl h, fun _ => ?_⟩
      obtain rfl := Option.some.inj (Sys.process_eq_some.mp hq₂).1
      obtain rfl := Option.some.inj (hthread.symm.trans hu)
      obtain ⟨m, rfl⟩ := hs₂
      refine wp_rewindPc (p := { p with mem := p.mem.write bp.addr [bp.savedByte] })
        (Sys.process_eq_some.mpr ⟨rfl, hpid⟩) hthread rfl (fun rc regs s₃ hs₃ hr => ?_)
        fun s₃ hpos hs₃ => ?_
      · obtain ⟨l, rfl⟩ := hs₃
        exact hstuck rc regs _ ⟨l, rfl⟩ fun _ => hr
      · obtain ⟨l, rfl⟩ := hs₃
        exact hok _ hpos ⟨l, rfl⟩

/-- `report_stop` once a thread is selected. -/
theorem wp_reportSelected
    (hlost : ∀ s', s.Quiet s' → (s.Reliable .regsGet → ∀ p, s.process s.dbg.pid = some p →
      p.thread s.dbg.currentTid = none) → Q (-1) s')
    (hother : ∀ p t s', s.process s.dbg.pid = some p → p.thread s.dbg.currentTid = some t →
      cdbgBpIsTrap s.os.arch t.regs.pc s.dbg.breakpoints = false →
      s'.sansWatches = (s.withDbg { s.dbg with regs := t.regs }).sansWatches → Q 0 s')
    (hhit : ∀ p t i bp s', s.process s.dbg.pid = some p → p.thread s.dbg.currentTid = some t →
      s.dbg.breakpoints.findIdx? (cdbgBpMatchesPc s.os.arch t.regs.pc) = some i →
      s.dbg.breakpoints[i]? = some bp → cdbgBpMatchesPc s.os.arch t.regs.pc bp = true →
      (s.withDbg { s.dbg with regs := t.regs }).Quiet s' → wp (handleBreakpointHit i) Q s') :
    wp reportSelected Q s := by
  rw [reportSelected, wp_bind]
  refine wp_cdbgRefreshRegs (fun s₁ hq hnone => ?_) fun p t s₁ hp ht hq => ?_
  · rw [wp_ite]
    exact ⟨fun _ => hlost s₁ hq hnone, fun h => absurd neg_one_ne h⟩
  · rw [wp_ite]
    refine ⟨fun h => absurd rfl h, fun _ => ?_⟩
    rw [wp_bind, wp_get]
    have hs₁ : s₁.os.arch = s.os.arch ∧ s₁.dbg.regs = t.regs ∧
        s₁.dbg.breakpoints = s.dbg.breakpoints := by
      obtain ⟨n, rfl⟩ := hq
      exact ⟨rfl, rfl, rfl⟩
    rw [hs₁.1, hs₁.2.1, hs₁.2.2]
    cases hidx : s.dbg.breakpoints.findIdx? (cdbgBpMatchesPc s.os.arch t.regs.pc) with
    | some i =>
      obtain ⟨hlt, hmatch, -⟩ := List.findIdx?_eq_some_iff_getElem.mp hidx
      exact hhit p t i _ s₁ hp ht hidx (List.getElem?_eq_getElem hlt) hmatch hq
    | none =>
      have hno : cdbgBpIsTrap s.os.arch t.regs.pc s.dbg.breakpoints = false := by
        rw [← Bool.not_eq_true, cdbgBpIsTrap_iff_findIdx, hidx]
        simp
      -- a stop that is no hit is reported with code 0
      have hrc : wp reportOtherStop (fun rc _ => rc = 0) s₁ := by
        rw [reportOtherStop, wp_bind]
        refine wp_mono (wp_true _) fun r s₂ _ => ?_
        cases r with
        | none => rfl
        | some i =>
          dsimp only
          rw [wp_bind]
          exact wp_mono (wp_true _) fun _ _ _ => rfl
      refine wp_mono (wp_and hrc (reportOtherStop_keepsWatches s₁)) fun rc s₂ h₂ => ?_
      rw [h₂.1]
      exact hother p t s₂ hp ht hno (h₂.2.trans (Sys.sansWatches_of_quiet hq))

end Rules

end Debugger
