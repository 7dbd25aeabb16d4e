/-
What the debugger writes between two points of a run.

Every attempt to write memory or registers is noted with its code, so a run is seen by what it
adds to the notes.  Reading, programming debug registers and waiting for the debuggee add nothing
(`ledger`); resuming it, waiting for its stop and reporting the stop write memory at the addresses
of the entries of the breakpoint table only (`OwnWrites`), and the entries keep their addresses.
-/
import Debugger.Frame
import Debugger.Lib.Obeys

open Prog

namespace Debugger

/-- The attempts to write so far, the newest first. -/
def Sys.attempts (s : Sys) : List Attempt := s.os.calls.attempts

/-- The addresses of the breakpoint table. -/
def Cdbg.bpAddrs (d : Cdbg) : List Addr := d.breakpoints.map (·.addr)

/-- A write to memory is at one of the addresses. -/
def Attempt.At (addrs : List Addr) : Attempt → Prop
  | .memory addr _ _ => addr ∈ addrs
  | .registers .. => True

/-! ### Without a write -/

/-- The attempts to write, and the addresses of the table. -/
def Sys.ledger (s : Sys) : List Attempt × List Addr := (s.attempts, s.dbg.bpAddrs)

section Ledger

variable {α : Type} {pid : ℕ}

theorem kernelCall_ledger {c : KCall} {f : Process → Option (α × Process)} :
    Keeps Sys.ledger (kernelCall c pid f) :=
  fun _ => wp_kernelCall (fun _ => rfl) fun _ _ _ _ _ => rfl

theorem kernelRead_ledger {c : KCall} {f : Process → Option α} :
    Keeps Sys.ledger (kernelRead c pid f) := kernelCall_ledger

theorem updateThread_ledger {c : KCall} {tid : UInt64} {f : Thread → Option (Thread → Thread)} :
    Keeps Sys.ledger (updateThread c pid tid f) :=
  Keeps.bind kernelCall_ledger fun _ => Keeps.pure _

theorem setSlotOfThreads_ledger (i : Fin wpMaxHw) (slot : Option HwSlot) (tids : List UInt64) :
    ∀ rc, Keeps Sys.ledger (setSlotOfThreads pid i slot tids rc) := by
  induction tids with
  | nil => exact fun rc => Keeps.pure _
  | cons tid tids ih => exact fun rc => Keeps.bind updateThread_ledger fun _ => ih _

theorem forEachThread_ledger (i : Fin wpMaxHw) (slot : Option HwSlot) :
    Keeps Sys.ledger (forEachThread pid i slot) := by
  refine Keeps.bind kernelRead_ledger fun r => ?_
  cases r with
  | none => exact Keeps.pure _
  | some tids => exact setSlotOfThreads_ledger _ _ _ _

theorem cdbgWpHwInstall_ledger (i : ℕ) (addr : Addr) (size : ℕ) (mode : WpMode) :
    Keeps Sys.ledger (cdbgWpHwInstall pid i addr size mode) := by
  rw [cdbgWpHwInstall]
  split
  · exact Keeps.bind Keeps.get fun _ => Keeps.ite (Keeps.pure _) (forEachThread_ledger _ _)
  · exact Keeps.pure _

theorem resyncFrom_ledger (wps : List Watchpoint) :
    ∀ i, Keeps Sys.ledger (resyncFrom pid i wps) := by
  induction wps with
  | nil => exact fun i => Keeps.pure _
  | cons watch rest ih =>
    exact fun i => Keeps.ite (Keeps.bind (cdbgWpHwInstall_ledger _ _ _ _) fun _ => ih _) (ih _)

theorem resyncWatchpointsToAllThreads_ledger :
    Keeps Sys.ledger resyncWatchpointsToAllThreads :=
  Keeps.bind Keeps.get fun _ => resyncFrom_ledger _ _

theorem cdbgRefreshRegs_ledger : Keeps Sys.ledger cdbgRefreshRegs := by
  refine Keeps.bind Keeps.get fun s => Keeps.bind kernelRead_ledger fun r => ?_
  cases r with
  | none => exact Keeps.pure _
  | some regs => exact Keeps.bind (fun _ => rfl) fun _ => Keeps.pure _

theorem switchLoop_ledger (infos : List ThreadInfo) :
    Keeps Sys.ledger (switchLoop pid infos) := by
  induction infos with
  | nil => exact Keeps.pure _
  | cons t ts ih =>
    refine Keeps.bind kernelRead_ledger fun r => ?_
    cases r with
    | none => exact ih
    | some regs => exact Keeps.bind Keeps.get fun _ => Keeps.ite (fun _ => rfl) ih

theorem switchCurrentTidToBreakpointHit_ledger :
    Keeps Sys.ledger switchCurrentTidToBreakpointHit := by
  refine Keeps.bind Keeps.get fun s => Keeps.ite (Keeps.pure _)
    (Keeps.bind kernelRead_ledger fun r => ?_)
  cases r with
  | none => exact Keeps.pure _
  | some infos => exact switchLoop_ledger _

theorem findWatchpointHitFrom_ledger (wps : List Watchpoint) :
    ∀ i, Keeps Sys.ledger (findWatchpointHitFrom pid i wps) := by
  induction wps with
  | nil => exact fun i => Keeps.pure _
  | cons watch rest ih =>
    intro i
    refine Keeps.ite (ih _) (Keeps.bind kernelRead_ledger fun r => ?_)
    cases r with
    | none => exact ih _
    | some bytes => exact Keeps.ite (Keeps.pure _) (ih _)

theorem reportOtherStop_ledger : Keeps Sys.ledger reportOtherStop := by
  refine Keeps.bind (Keeps.bind Keeps.get fun _ => findWatchpointHitFrom_ledger _ _) fun r => ?_
  cases r with
  | none => exact Keeps.pure _
  | some i =>
    refine Keeps.bind (Keeps.bind Keeps.get fun s => Keeps.bind kernelRead_ledger fun r => ?_)
      fun _ => Keeps.pure _
    cases r with
    | none => exact Keeps.pure _
    | some bytes => exact fun _ => rfl

theorem ptraceResume_ledger (kind : Resume) : Keeps Sys.ledger (ptraceResume kind pid) := by
  refine Keeps.bind kernelCall_ledger fun r => ?_
  cases r with
  | none => exact Keeps.pure _
  | some p => exact fun _ => rfl

theorem cdbgSingleStep_ledger : Keeps Sys.ledger cdbgSingleStep :=
  Keeps.bind Keeps.get fun _ => Keeps.bind (ptraceResume_ledger _) fun _ =>
    Keeps.ite (Keeps.pure _) (Keeps.bind (fun _ => rfl) fun _ => Keeps.pure _)

theorem cdbgProcessWait_ledger : Keeps Sys.ledger (cdbgProcessWait pid) := by
  refine Keeps.bind kernelRead_ledger fun r => ?_
  cases r with
  | none => exact Keeps.pure _
  | some p =>
    refine Keeps.bind Keeps.get fun s => Keeps.ite (fun _ => rfl)
      (Keeps.bind (fun _ => rfl) fun _ => Keeps.bind ?_ fun _ => Keeps.pure _)
    cases s.os.events s.os.waits with
    | exited code => exact fun _ => rfl
    | signaled sig => exact fun _ => rfl
    | stopped sig ms => exact fun _ => rfl

end Ledger

/-! ### The writes of the table's entries -/

/-- From one state to another the entries of the table keep their addresses, and memory is written
at these only. -/
def Sys.OwnWrites (s s' : Sys) : Prop :=
  s'.dbg.bpAddrs = s.dbg.bpAddrs ∧
    ∃ new, s'.attempts = new ++ s.attempts ∧ ∀ a ∈ new, a.At s.dbg.bpAddrs

instance : IsPreorder Sys Sys.OwnWrites where
  refl _ := ⟨rfl, [], rfl, fun _ h => absurd h List.not_mem_nil⟩
  trans := by
    rintro s s₁ s₂ ⟨haddrs, new, hnew, hat⟩ ⟨haddrs₁, new₁, hnew₁, hat₁⟩
    refine ⟨haddrs₁.trans haddrs, new₁ ++ new, ?_, fun a ha => ?_⟩
    · rw [hnew₁, hnew, List.append_assoc]
    · rcases List.mem_append.mp ha with ha | ha
      · exact haddrs ▸ hat₁ a ha
      · exact hat a ha

section Own

variable {α : Type} {pid : ℕ} {s s' : Sys}

theorem Sys.ownWrites_of_ledger (h : s'.ledger = s.ledger) : s.OwnWrites s' := by
  obtain ⟨hattempts, haddrs⟩ := Prod.mk.inj h
  exact ⟨haddrs, [], hattempts, fun _ h => absurd h List.not_mem_nil⟩

theorem ownWrites_of_ledger {m : DbgM α} (h : Keeps Sys.ledger m) : Obeys Sys.OwnWrites m :=
  h.obeys fun _ _ => Sys.ownWrites_of_ledger

/-- A write to memory is noted with its code, and changes nothing of the debugger. -/
theorem wp_memWrite_attempt (addr : Addr) (bytes : List UInt8) :
    wp (cdbgMemWrite pid addr bytes) (fun rc s' =>
      s'.dbg = s.dbg ∧ s'.attempts = .memory addr bytes rc :: s.attempts) s := by
  rw [cdbgMemWrite, wp_bind]
  exact wp_kernelCall (fun _ => ⟨rfl, rfl⟩) fun _ _ _ _ _ => ⟨rfl, rfl⟩

/-- Writing registers is noted with its code, and changes nothing of the debugger. -/
theorem wp_regsSet_attempt (tid : UInt64) (regs : Regs) :
    wp (cdbgRegsSet pid tid regs) (fun rc s' =>
      s'.dbg = s.dbg ∧ s'.attempts = .registers tid regs rc :: s.attempts) s := by
  rw [cdbgRegsSet, wp_bind, updateThread, wp_bind]
  exact wp_kernelCall (fun _ => ⟨rfl, rfl⟩) fun _ _ _ _ _ => ⟨rfl, rfl⟩

theorem cdbgRegsSet_ownWrites (tid : UInt64) (regs : Regs) :
    Obeys Sys.OwnWrites (cdbgRegsSet pid tid regs) := by
  intro s
  refine wp_mono (wp_regsSet_attempt tid regs) fun rc s' h => ?_
  obtain ⟨hdbg, hattempts⟩ := h
  refine ⟨congrArg Cdbg.bpAddrs hdbg, [_], hattempts, fun a ha => ?_⟩
  rw [List.mem_singleton.mp ha]
  trivial

/-- What an attempt at one of some addresses adds. -/
def Sys.WritesAt (addrs : List Addr) (s s' : Sys) : Prop :=
  s'.dbg = s.dbg ∧ ∃ new, s'.attempts = new ++ s.attempts ∧ ∀ a ∈ new, a.At addrs

theorem Sys.WritesAt.trans {addrs : List Addr} {s'' : Sys} (h : s.WritesAt addrs s')
    (h' : s'.WritesAt addrs s'') : s.WritesAt addrs s'' := by
  obtain ⟨hdbg, new, hnew, hat⟩ := h
  obtain ⟨hdbg', new', hnew', hat'⟩ := h'
  refine ⟨hdbg'.trans hdbg, new' ++ new, by rw [hnew', hnew, List.append_assoc], fun a ha => ?_⟩
  rcases List.mem_append.mp ha with ha | ha
  · exact hat' a ha
  · exact hat a ha

theorem cdbgMemWrite_writesAt {addrs : List Addr} {addr : Addr} (h : addr ∈ addrs)
    (bytes : List UInt8) :
    wp (cdbgMemWrite pid addr bytes) (fun _ s' => s.WritesAt addrs s') s := by
  refine wp_mono (wp_memWrite_attempt addr bytes) fun rc s' hs' => ?_
  refine ⟨hs'.1, [_], hs'.2, fun a ha => ?_⟩
  rw [List.mem_singleton.mp ha]
  exact h

/-- A read notes nothing, and changes nothing of the debugger. -/
theorem wp_kernelRead_attempts {c : KCall} {f : Process → Option α} :
    wp (kernelRead c pid f) (fun _ s' => s'.dbg = s.dbg ∧ s'.attempts = s.attempts) s :=
  wp_kernelCall (fun _ => ⟨rfl, rfl⟩) fun _ _ _ _ _ => ⟨rfl, rfl⟩

theorem Sys.writesAt_of_eq {addrs : List Addr} (hdbg : s'.dbg = s.dbg)
    (hattempts : s'.attempts = s.attempts) : s.WritesAt addrs s' :=
  ⟨hdbg, [], hattempts, fun _ h => absurd h List.not_mem_nil⟩

/-- Enabling an entry writes at its address. -/
theorem cdbgBpEnable_writesAt {addrs : List Addr} {bp : Breakpoint} (h : bp.addr ∈ addrs) :
    wp (cdbgBpEnable bp pid bp.addr) (fun r s' =>
      r.2.addr = bp.addr ∧ s.WritesAt addrs s') s := by
  rw [cdbgBpEnable, wp_bind]
  refine wp_mono wp_kernelRead_attempts fun r s₁ h₁ => ?_
  have hread : s.WritesAt addrs s₁ := Sys.writesAt_of_eq h₁.1 h₁.2
  cases r with
  | none => exact ⟨rfl, hread⟩
  | some bytes =>
    dsimp only
    rw [wp_bind, wp_get, wp_bind]
    refine wp_mono (cdbgMemWrite_writesAt h _) fun rc s₂ h₂ => ?_
    rw [wp_ite]
    exact ⟨fun _ => ⟨rfl, hread.trans h₂⟩, fun _ => ⟨rfl, hread.trans h₂⟩⟩

/-- So does disabling it. -/
theorem cdbgBpDisable_writesAt {addrs : List Addr} {bp : Breakpoint} (h : bp.addr ∈ addrs) :
    wp (cdbgBpDisable bp pid) (fun r s' => r.2.addr = bp.addr ∧ s.WritesAt addrs s') s := by
  rw [cdbgBpDisable, wp_ite]
  refine ⟨fun _ => ⟨rfl, Sys.writesAt_of_eq rfl rfl⟩, fun _ => ?_⟩
  rw [wp_bind]
  refine wp_mono (cdbgMemWrite_writesAt h _) fun rc s₁ h₁ => ?_
  rw [wp_ite]
  exact ⟨fun _ => ⟨rfl, h₁⟩, fun _ => ⟨rfl, h₁⟩⟩

/-- The entries that are put back write at their own addresses. -/
theorem reenableLoop_writesAt {addrs : List Addr} (pc : Addr) :
    ∀ {bps : List Breakpoint} {s : Sys}, (∀ bp ∈ bps, bp.addr ∈ addrs) →
      wp (reenableLoop pid pc bps) (fun r s' =>
        r.2.map (·.addr) = bps.map (·.addr) ∧ s.WritesAt addrs s') s := by
  intro bps
  induction bps with
  | nil => exact fun _ => ⟨rfl, Sys.writesAt_of_eq rfl rfl⟩
  | cons bp bps ih =>
    intro s hbps
    obtain ⟨hbp, hrest⟩ := List.forall_mem_cons.mp hbps
    rw [reenableLoop, wp_ite]
    refine ⟨fun _ => ?_, fun _ => ?_⟩
    · rw [wp_bind]
      refine wp_mono (cdbgBpEnable_writesAt hbp) fun r s₁ h₁ => ?_
      obtain ⟨rc, bp'⟩ := r
      obtain ⟨haddr, hwrites⟩ := h₁
      show wp (if rc ≠ 0 then _ else _) _ _
      rw [wp_ite]
      refine ⟨fun _ => ⟨congrArg₂ List.cons haddr rfl, hwrites⟩, fun _ => ?_⟩
      rw [wp_bind]
      refine wp_mono (ih hrest) fun r s₂ h₂ => ?_
      exact ⟨congrArg₂ List.cons haddr h₂.1, hwrites.trans h₂.2⟩
    · rw [wp_bind]
      refine wp_mono (ih hrest) fun r s₂ h₂ => ?_
      exact ⟨congrArg₂ List.cons rfl h₂.1, h₂.2⟩

/-- Storing back entries with the same addresses. -/
theorem Sys.WritesAt.ownWrites {bps : List Breakpoint} (h : s.WritesAt s.dbg.bpAddrs s')
    (hbps : bps.map (·.addr) = s.dbg.bpAddrs) :
    s.OwnWrites (s'.withDbg { s'.dbg with breakpoints := bps }) := ⟨hbps, h.2⟩

theorem reenableBreakpointsAfterStep_ownWrites :
    Obeys Sys.OwnWrites reenableBreakpointsAfterStep := by
  refine Obeys.bind Obeys.get fun s => Obeys.ite (Obeys.pure _) ?_
  refine Obeys.bind (ownWrites_of_ledger cdbgRefreshRegs_ledger) fun rc =>
    Obeys.ite (Obeys.pure _) fun s => ?_
  rw [wp_bind, wp_get, wp_bind]
  have hmem : ∀ bp ∈ s.dbg.breakpoints, bp.addr ∈ s.dbg.bpAddrs :=
    fun bp hbp => List.mem_map_of_mem hbp
  exact wp_mono (reenableLoop_writesAt _ hmem) fun r s' h => h.2.ownWrites h.1

theorem modifyDbg_ownWrites {f : Cdbg → Cdbg} (h : ∀ d, (f d).bpAddrs = d.bpAddrs) :
    Obeys Sys.OwnWrites (modifyDbg f) := fun s =>
  Sys.ownWrites_of_ledger (by rw [Sys.ledger, Sys.ledger, ← h s.dbg]; rfl)

theorem cdbgWait_ownWrites : Obeys Sys.OwnWrites cdbgWait := by
  refine Obeys.bind Obeys.get fun s =>
    Obeys.bind (ownWrites_of_ledger cdbgProcessWait_ledger) fun rc =>
      Obeys.ite (Obeys.pure _) (Obeys.bind Obeys.get fun s => ?_)
  have hset : ∀ state, Obeys Sys.OwnWrites (setState state) :=
    fun state => modifyDbg_ownWrites fun _ => rfl
  cases s.dbg.waitStatus with
  | exited code => exact Obeys.bind (hset _) fun _ => Obeys.pure _
  | signaled sig => exact Obeys.bind (hset _) fun _ => Obeys.pure _
  | stopped sig =>
    exact Obeys.bind (hset _) fun _ => Obeys.bind reenableBreakpointsAfterStep_ownWrites
      fun _ => Obeys.ite (Obeys.pure _) (Obeys.pure _)

theorem cdbgContinue_ownWrites : Obeys Sys.OwnWrites cdbgContinue := by
  refine Obeys.bind ?_ fun rc => Obeys.ite (Obeys.pure _) (Obeys.bind Obeys.get fun s =>
    Obeys.ite (Obeys.pure _) (Obeys.bind (ownWrites_of_ledger (ptraceResume_ledger _)) fun rc =>
      Obeys.ite (Obeys.pure _) (Obeys.bind (modifyDbg_ownWrites fun _ => rfl) fun _ =>
        Obeys.pure _)))
  -- the step off a disabled entry waits for its stop
  refine Obeys.bind Obeys.get fun s => Obeys.ite (Obeys.pure _)
    (Obeys.bind (ownWrites_of_ledger cdbgRefreshRegs_ledger) fun rc => Obeys.ite (Obeys.pure _)
      (Obeys.bind Obeys.get fun s => Obeys.ite (Obeys.pure _) ?_))
  exact Obeys.bind (ownWrites_of_ledger cdbgSingleStep_ledger) fun rc =>
    Obeys.ite (Obeys.pure _) cdbgWait_ownWrites

/-- The hit of an entry writes its byte back, and sets the pc. -/
theorem handleBreakpointHit_ownWrites {index : ℕ} {s : Sys}
    (hindex : index < s.dbg.breakpoints.length) :
    wp (handleBreakpointHit index) (fun _ s' => s.OwnWrites s') s := by
  have hhit : (s.recordHit index).dbg = s.dbg := s.recordHit_dbg index
  have hget : s.dbg.breakpoints.getD index {} = s.dbg.breakpoints[index] :=
    (List.getElem_eq_getD _).symm
  have hmem : (s.dbg.breakpoints.getD index {}).addr ∈ (s.recordHit index).dbg.bpAddrs := by
    rw [hget, hhit]
    exact List.mem_map_of_mem (List.getElem_mem hindex)
  rw [handleBreakpointHit, wp_bind, wp_get, wp_bind, wp_modify, wp_bind]
  refine wp_mono (cdbgBpDisable_writesAt hmem) fun r s₁ h₁ => ?_
  obtain ⟨rc, bp⟩ := r
  obtain ⟨haddr, hwrites⟩ := h₁
  have hsame : (s.dbg.breakpoints.set index bp).map (·.addr) = (s.recordHit index).dbg.bpAddrs := by
    rw [hhit]
    exact map_set_getD haddr
  have hattempts : (s.recordHit index).attempts = s.attempts := by
    rw [Sys.recordHit]
    split <;> rfl
  have hstored : s.OwnWrites (s₁.withDbg { s₁.dbg with
      breakpoints := s.dbg.breakpoints.set index bp }) := by
    refine trans_of Sys.OwnWrites (Sys.ownWrites_of_ledger ?_) (hwrites.ownWrites hsame)
    rw [Sys.ledger, Sys.ledger, hattempts, hhit]
  have hrewind : Obeys Sys.OwnWrites rewindPc :=
    Obeys.bind Obeys.get fun _ => Obeys.ite (Obeys.bind (modifyDbg_ownWrites fun _ => rfl)
      fun _ => Obeys.bind (cdbgRegsSet_ownWrites _ _) fun _ =>
        Obeys.ite (Obeys.pure _) (Obeys.pure _)) (Obeys.pure _)
  have hrest : Obeys Sys.OwnWrites (do
      if (← cdbgRefreshRegs) ≠ 0 then return -1
      rewindPc : DbgM Int) :=
    Obeys.bind (ownWrites_of_ledger cdbgRefreshRegs_ledger) fun _ =>
      Obeys.ite (Obeys.pure _) hrewind
  show wp (do
    setBreakpoints (s.dbg.breakpoints.set index bp)
    if rc ≠ 0 then _ else _) _ _
  rw [wp_bind, wp_setBreakpoints, wp_ite]
  exact ⟨fun _ => hstored, fun _ => trans_of Sys.OwnWrites hstored (hrest _)⟩

theorem reportSelected_ownWrites : Obeys Sys.OwnWrites reportSelected := by
  refine Obeys.bind (ownWrites_of_ledger cdbgRefreshRegs_ledger) fun rc =>
    Obeys.ite (Obeys.pure _) fun s => ?_
  rw [wp_bind, wp_get]
  split
  · rename_i i hi
    exact handleBreakpointHit_ownWrites (List.findIdx?_eq_some_iff_getElem.mp hi).1
  · exact ownWrites_of_ledger reportOtherStop_ledger s

theorem reportStop_ownWrites : Obeys Sys.OwnWrites reportStop :=
  Obeys.bind (ownWrites_of_ledger resyncWatchpointsToAllThreads_ledger) fun _ =>
    Obeys.bind (ownWrites_of_ledger switchCurrentTidToBreakpointHit_ledger) fun _ =>
      reportSelected_ownWrites

end Own

end Debugger
