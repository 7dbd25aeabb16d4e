/-
Breakpoints on the two architectures.

`cdbg_bp_enable` writes one byte.  On x86_64 that byte is the whole breakpoint instruction; on
aarch64 it is the lowest byte of a little-endian word, whose other bytes stay, and no word with
that lowest byte is a `brk` (`enabled_traps_iff`).

At a trap an x86_64 thread stands behind the byte and an aarch64 thread at the instruction.  The
match accounts for that, but the pc is moved back by one on both (`trap_rewound_iff`).
-/
import Debugger.Hits
import Debugger.Run

open Prog

namespace Debugger

/-! ### The trap instruction -/

/-- What enabling a breakpoint is for: the instruction traps, and taking the breakpoint out
gives the memory back. -/
def Sys.EnabledTraps (s s' : Sys) (bp : Breakpoint) (pid : ℕ) (addr : Addr) : Prop :=
  ∃ p q, s.process pid = some p ∧ s'.process pid = some q ∧ trapAt s.os.arch q.mem addr = true ∧
    wp (cdbgBpDisable bp pid)
      (fun r s'' => r.1 = 0 → ∃ q', s''.process pid = some q' ∧ q'.mem = p.mem) s'

/-- An enabled breakpoint traps, and is taken back, exactly on x86_64. -/
theorem enabled_traps_iff {s s' : Sys} {bp bp' : Breakpoint} {pid : ℕ} {addr : Addr}
    (hrun : (cdbgBpEnable bp pid addr).run s = ((0, bp'), s')) :
    s.EnabledTraps s' bp' pid addr ↔ s.os.arch = .x86_64 := by
  have henable : wp (cdbgBpEnable bp pid addr) (fun r s' => r.1 = 0 →
      ∃ p q, s.process pid = some p ∧ s'.process pid = some q ∧
        q.mem = Function.update p.mem addr (trapByte s.os.arch) ∧
        r.2 = { bp with addr := addr, savedByte := p.mem addr, enabled := true }) s := by
    refine wp_cdbgBpEnable (fun _ _ _ _ _ h => absurd h neg_one_ne) fun p s₁ hp hq _ => ?_
    obtain ⟨n, rfl⟩ := hq
    exact ⟨p, _, hp, Sys.process_eq_some.mpr ⟨rfl, (Sys.process_eq_some.mp hp).2⟩, rfl, rfl⟩
  rw [wp_of_run hrun] at henable
  obtain ⟨p, q, hp, hq, hmem, hbp⟩ := henable rfl
  dsimp only at hbp
  have hbyte : q.mem addr = trapByte s.os.arch := by rw [hmem, Function.update_self]
  rw [← trapAt_patched hbyte]
  refine ⟨fun ⟨_, q', _, hq', htrap, _⟩ => ?_, fun htrap => ⟨p, q, hp, hq, htrap, ?_⟩⟩
  · obtain rfl := Option.some.inj (hq.symm.trans hq')
    exact htrap
  · rw [hbp]
    refine wp_cdbgBpDisable (fun hoff => Bool.noConfusion hoff)
      (fun _ _ _ _ h => absurd h neg_one_ne) fun _ q' s₂ hq' hs₂ _ => ?_
    obtain ⟨n, rfl⟩ := hs₂
    obtain rfl := Option.some.inj (hq.symm.trans hq')
    refine ⟨_, Sys.process_eq_some.mpr ⟨rfl, (Sys.process_eq_some.mp hq).2⟩, ?_⟩
    change Function.update q.mem addr (p.mem addr) = p.mem
    rw [hmem, Function.update_idem, Function.update_eq_self]

/-- The first thread's instruction on x86_64. -/
theorem enabled_traps_iff_x86 :
    let s := Sys.attached .x86_64 twoThreads fun _ => .exited 0
    s.EnabledTraps ((cdbgBpEnable {} 100 0x1000).run s).2
      ((cdbgBpEnable {} 100 0x1000).run s).1.2 100 0x1000 :=
  (enabled_traps_iff (run_of_code (a := (0, (⟨0x1000, 0x90, true, []⟩ : Breakpoint)))
    rfl)).mpr rfl

/-- On aarch64 the instruction with the byte written is `0x909090d4`. -/
theorem enabled_aarch64 :
    let s := Sys.attached .aarch64 twoThreads fun _ => .exited 0
    ((cdbgBpEnable {} 100 0x1000).run s).1.1 = 0 ∧
      ¬ s.EnabledTraps ((cdbgBpEnable {} 100 0x1000).run s).2
        ((cdbgBpEnable {} 100 0x1000).run s).1.2 100 0x1000 := by
  refine ⟨rfl, ?_⟩
  rintro ⟨p, q, -, hq, htrap, -⟩
  obtain rfl := Option.some.inj hq
  exact absurd htrap (by decide +kernel)

/-! ### The pc at a trap -/

/-- The registers of the selected thread. -/
def Sys.selectedRegs (s : Sys) : Option Regs :=
  (s.process s.dbg.pid).bind fun p => (p.thread s.dbg.currentTid).map (·.regs)

/-- A breakpoint at whose trap the selected thread stands has been handled: `report_stop` has
handled the hit of a table entry, or `run_to_entry_stop` has accepted its temporary one. -/
inductive TrapHandled (s : Sys) : Breakpoint → Sys → Prop
  | hit {i : ℕ} {bp : Breakpoint} {regs : Regs} {s' : Sys} (hregs : s.selectedRegs = some regs)
      (hidx : s.dbg.breakpoints.findIdx? (cdbgBpMatchesPc s.os.arch regs.pc) = some i)
      (hbp : s.dbg.breakpoints[i]? = some bp) (hrun : reportSelected.run s = (0, s')) :
      TrapHandled s bp s'
  | entry {tempBp : Breakpoint} {s' : Sys} (hrun : (finishEntryStop tempBp).run s = (1, s')) :
      TrapHandled s tempBp s'

/-- Where the pc belongs after a hit is where it is put: it is moved back by one, unless it
is 0. -/
def PutBack (arch : Arch) (addr : Addr) : Prop :=
  (arch = .x86_64 ∧ addr + 1 ≠ 0) ∨ (arch = .aarch64 ∧ addr = 0)

/-- The registers after the pc is moved back by one, unless it is 0. -/
def Regs.steppedBack (regs : Regs) : Regs :=
  if regs.pc > 0 then regs.setPc (regs.pc - 1) else regs

theorem Regs.setPc_pc (regs : Regs) : regs.setPc regs.pc = regs := by
  cases regs <;> simp [setPc, Regs.pc]

/-- Moving back by one restores the pc at a trap exactly on x86_64, where the match accounts
for it. -/
theorem steppedBack_eq_iff {arch : Arch} {regs : Regs} {bp : Breakpoint}
    (hmatch : cdbgBpMatchesPc arch regs.pc bp = true) :
    regs.steppedBack = regs.setPc bp.addr ↔ PutBack arch bp.addr := by
  have hpc : ∀ {a b : Addr}, regs.setPc a = regs.setPc b → a = b := by
    intro a b h
    rw [← regs.pc_setPc a, h, regs.pc_setPc]
  rw [Regs.steppedBack]
  cases arch with
  | x86_64 =>
    have haddr : bp.addr + 1 = regs.pc := by
      simp only [cdbgBpMatchesPc, Bool.and_eq_true, decide_eq_true_eq] at hmatch
      exact hmatch.2
    by_cases h0 : regs.pc = 0
    · rw [if_neg (by rw [h0]; decide)]
      refine iff_of_false (fun h => ?_) fun h => ?_
      · have hzero : regs.pc = bp.addr := hpc (regs.setPc_pc.trans h)
        grind
      · rcases h with ⟨-, h⟩ | ⟨h, -⟩
        · exact h (haddr.trans h0)
        · exact Arch.noConfusion h
    · rw [if_pos (UInt64.pos_iff_ne_zero.mpr h0), ← haddr]
      refine iff_of_true (congrArg regs.setPc (by simp)) (.inl ⟨rfl, ?_⟩)
      rw [haddr]
      exact h0
  | aarch64 =>
    have haddr : bp.addr = regs.pc := by
      simp only [cdbgBpMatchesPc, Bool.and_eq_true, decide_eq_true_eq] at hmatch
      exact hmatch.2
    by_cases h0 : regs.pc = 0
    · rw [if_neg (by rw [h0]; decide), haddr, regs.setPc_pc]
      exact iff_of_true rfl (.inr ⟨rfl, h0⟩)
    · rw [if_pos (UInt64.pos_iff_ne_zero.mpr h0), haddr]
      refine iff_of_false (fun h => ?_) fun h => ?_
      · have hsub := hpc h
        grind
      · rcases h with ⟨h, -⟩ | ⟨-, h⟩
        · exact Arch.noConfusion h
        · exact h0 h

section Rewinding

variable {s : Sys} {regs : Regs}

theorem Sys.selectedRegs_eq_some : s.selectedRegs = some regs ↔
    ∃ p t, s.process s.dbg.pid = some p ∧ p.thread s.dbg.currentTid = some t ∧ t.regs = regs := by
  simp only [selectedRegs, Option.bind_eq_some_iff, Option.map_eq_some_iff]
  constructor
  · rintro ⟨p, hp, t, ht, rfl⟩
    exact ⟨p, t, hp, ht, rfl⟩
  · rintro ⟨p, t, hp, ht, rfl⟩
    exact ⟨p, hp, t, ht, rfl⟩

theorem Sys.selectedRegs_of_quiet {s' : Sys} (h : s.Quiet s') : s'.selectedRegs = s.selectedRegs := by
  obtain ⟨n, rfl⟩ := h
  rfl

theorem Sys.selectedRegs_sansPatches (s : Sys) : s.sansPatches.selectedRegs = s.selectedRegs := by
  cases hproc : s.os.proc with
  | none => simp [selectedRegs, process, sansPatches, sansProc, hproc]
  | some p =>
    by_cases hpid : p.pid = s.dbg.pid <;>
      simp [selectedRegs, process, sansPatches, sansProc, hproc, hpid, Process.thread,
        Process.primary, Option.filter_some]

/-- What only places breakpoints leaves the selected thread's registers and their names. -/
theorem Sys.selected_of_sansPatches {s' : Sys} (h : s'.sansPatches = s.sansPatches) :
    s'.selectedRegs = s.selectedRegs ∧ s'.dbg.pid = s.dbg.pid ∧
      s'.dbg.currentTid = s.dbg.currentTid ∧ s'.os.arch = s.os.arch := by
  refine ⟨?_, congrArg (·.dbg.pid) h, congrArg (·.dbg.currentTid) h, congrArg (·.os.arch) h⟩
  rw [← s'.selectedRegs_sansPatches, h, s.selectedRegs_sansPatches]

/-- Refreshing reads the registers of the selected thread. -/
theorem wp_refresh_selected {Q : Int → Sys → Prop} (hfail : ∀ s', Q (-1) s')
    (hok : ∀ s', (s.withDbg { s.dbg with regs := regs }).Quiet s' → Q 0 s')
    (h : s.selectedRegs = some regs) : wp cdbgRefreshRegs Q s := by
  obtain ⟨p, t, hp, ht, rfl⟩ := Sys.selectedRegs_eq_some.mp h
  refine wp_cdbgRefreshRegs (fun s' _ _ => hfail s') fun q u s' hq hu hs' => ?_
  obtain rfl := Option.some.inj (hp.symm.trans hq)
  obtain rfl := Option.some.inj (ht.symm.trans hu)
  exact hok s' hs'

/-- Writing the registers of the selected thread. -/
theorem wp_regsSet_selected {regs' : Regs} {tid : UInt64} {pid : ℕ} (hpid : s.dbg.pid = pid)
    (htid : s.dbg.currentTid = tid) :
    wp (cdbgRegsSet pid tid regs') (fun rc s' => rc = 0 → s'.selectedRegs = some regs') s := by
  subst hpid htid
  refine wp_cdbgRegsSet (fun _ _ _ h => absurd h neg_one_ne) fun p t s' hp ht hs' _ => ?_
  rw [Sys.selectedRegs_of_quiet hs']
  refine Sys.selectedRegs_eq_some.mpr ⟨_, _, Sys.process_eq_some.mpr
    ⟨rfl, (Sys.process_eq_some.mp hp).2⟩, Process.thread_mapThread (fun _ => rfl) ht, rfl⟩

/-- The end of both functions: the pc of the selected thread is moved back. -/
theorem wp_moveBack {rc : Int} {tid : UInt64} {pid : ℕ} (hrc : rc ≠ -1) (hpid : s.dbg.pid = pid)
    (htid : s.dbg.currentTid = tid) (h : s.selectedRegs = some regs) :
    wp (if regs.pc > 0 then do
        setRegs (regs.setPc (regs.pc - 1))
        if (← cdbgRegsSet pid tid (regs.setPc (regs.pc - 1))) ≠ 0 then return (-1 : Int)
        return rc
      else return rc) (fun rc' s' => rc' = rc → s'.selectedRegs = some regs.steppedBack) s := by
  rw [wp_ite, Regs.steppedBack]
  refine ⟨fun hpos => ?_, fun hpos _ => ?_⟩
  · rw [wp_bind, wp_setRegs, wp_bind, if_pos hpos]
    refine wp_mono (wp_regsSet_selected (s := s.withDbg { s.dbg with
      regs := regs.setPc (regs.pc - 1) }) hpid htid) fun rc' s' hset => ?_
    rw [wp_ite]
    exact ⟨fun _ h' => absurd h'.symm hrc, fun h0 _ => hset (not_not.mp h0)⟩
  · rw [if_neg hpos]
    exact h

/-- Handling a hit moves the pc of the selected thread back. -/
theorem wp_handleHit_selected {i : ℕ} (h : s.selectedRegs = some regs) :
    wp (handleBreakpointHit i) (fun rc s' => rc = 0 → s'.selectedRegs = some regs.steppedBack)
      s := by
  have hrecord : (s.recordHit i).selectedRegs = some regs := by
    rw [Sys.recordHit]
    split <;> exact h
  have hdbg : (s.recordHit i).dbg = s.dbg := Sys.recordHit_dbg s i
  rw [handleBreakpointHit, wp_bind, wp_get, wp_bind, wp_modify, wp_bind]
  refine wp_mono (cdbgBpDisable_keeps _) fun r s₁ h₁ => ?_
  obtain ⟨rc, bp⟩ := r
  obtain ⟨-, hs₁, -⟩ := h₁
  obtain ⟨hregs₁, hpid₁, htid₁, -⟩ := Sys.selected_of_sansPatches hs₁
  rw [hrecord] at hregs₁
  rw [hdbg] at hpid₁ htid₁
  dsimp only
  rw [wp_bind, wp_setBreakpoints, wp_ite]
  refine ⟨fun _ h0 => absurd h0 neg_one_ne, fun _ => ?_⟩
  rw [wp_bind]
  refine wp_refresh_selected (fun s₂ => ?_) (fun s₂ hs₂ => ?_) hregs₁
  · rw [wp_ite]
    exact ⟨fun _ h0 => absurd h0 neg_one_ne, fun h0 => absurd neg_one_ne h0⟩
  · rw [wp_ite]
    refine ⟨fun h0 => absurd rfl h0, fun _ => ?_⟩
    obtain ⟨n, rfl⟩ := hs₂
    exact wp_moveBack (by decide) rfl rfl hregs₁

/-- `run_to_entry_stop` moves the pc of the selected thread back at its own breakpoint. -/
theorem wp_finishEntry_selected {tempBp : Breakpoint} (h : s.selectedRegs = some regs) :
    wp (finishEntryStop tempBp) (fun rc s' => rc = 1 →
      cdbgBpMatchesPc s.os.arch regs.pc tempBp = true ∧
        s'.selectedRegs = some regs.steppedBack) s := by
  rw [finishEntryStop, wp_bind]
  refine wp_refresh_selected (fun s₁ => ?_) (fun s₁ hs₁ => ?_) h
  · rw [wp_ite]
    refine ⟨fun _ => ?_, fun h0 => absurd neg_one_ne h0⟩
    rw [wp_bind]
    exact wp_mono (wp_true _) fun _ s₂ _ => (wp_pure (s := s₂) (-1)).mpr fun h0 =>
      absurd h0 (by decide)
  · rw [wp_ite]
    refine ⟨fun h0 => absurd rfl h0, fun _ => ?_⟩
    obtain ⟨n, rfl⟩ := hs₁
    rw [wp_bind, wp_get]
    dsimp only
    rw [wp_ite]
    refine ⟨fun hmatch => ?_, fun _ => ?_⟩
    · rw [wp_bind]
      refine wp_mono (dropTempBreakpoint_keeps tempBp _) fun _ s₂ hs₂ => ?_
      obtain ⟨hregs₂, hpid₂, htid₂, -⟩ := Sys.selected_of_sansPatches hs₂
      refine wp_mono (wp_moveBack (by decide) hpid₂ htid₂ (hregs₂.trans h)) fun rc s₃ h₃ hrc => ?_
      exact ⟨hmatch, h₃ hrc⟩
    · rw [wp_bind]
      exact wp_mono (wp_true _) fun _ s₂ _ => (wp_pure (s := s₂) 0).mpr fun h0 =>
        absurd h0 (by decide)

end Rewinding

/-- Once the stop at a breakpoint has been handled, the registers of the thread are those at
the trap with the pc at the breakpoint's address, exactly when `PutBack` holds. -/
theorem trap_rewound_iff {s s' : Sys} {bp : Breakpoint} {regs : Regs}
    (hregs : s.selectedRegs = some regs) (h : TrapHandled s bp s') :
    s'.selectedRegs = some (regs.setPc bp.addr) ↔ PutBack s.os.arch bp.addr := by
  have hback : cdbgBpMatchesPc s.os.arch regs.pc bp = true ∧
      s'.selectedRegs = some regs.steppedBack := by
    cases h with
    | @hit i _ regs' _ hregs' hidx hbp hrun =>
      obtain rfl := Option.some.inj (hregs.symm.trans hregs')
      obtain ⟨hlt, hmatch, -⟩ := List.findIdx?_eq_some_iff_getElem.mp hidx
      obtain ⟨_, rfl⟩ := List.getElem?_eq_some_iff.mp hbp
      refine ⟨hmatch, ?_⟩
      have hwp : wp reportSelected (fun rc s' => rc = 0 → s'.selectedRegs = some regs.steppedBack)
          s := by
        rw [reportSelected, wp_bind]
        refine wp_refresh_selected (fun s₁ => ?_) (fun s₁ hs₁ => ?_) hregs
        · rw [wp_ite]
          exact ⟨fun _ h0 => absurd h0 neg_one_ne, fun h0 => absurd neg_one_ne h0⟩
        · rw [wp_ite]
          refine ⟨fun h0 => absurd rfl h0, fun _ => ?_⟩
          obtain ⟨n, rfl⟩ := hs₁
          rw [wp_bind, wp_get]
          dsimp only [Sys.withDbg]
          rw [hidx]
          exact wp_handleHit_selected hregs
      rw [wp_of_run hrun] at hwp
      exact hwp rfl
    | entry hrun =>
      have hwp := @wp_finishEntry_selected _ _ bp hregs
      rw [wp_of_run hrun] at hwp
      exact hwp rfl
  rw [hback.2, Option.some_inj]
  exact steppedBack_eq_iff hback.1

/-- A thread that stands at the trap of a breakpoint at `0x1000`. -/
def stoppedAtTrap (arch : Arch) (regs : Regs) : Sys :=
  let s := Sys.attached arch { twoThreads with threads := [{ tid := 1, regs := regs }] }
    fun _ => .exited 0
  { s with dbg := { s.dbg with
    breakpoints := [{ addr := 0x1000, savedByte := 0x90, enabled := true }] } }

/-- An x86_64 thread behind the trap is put back. -/
theorem trap_rewound_iff_x86 :
    let s := stoppedAtTrap .x86_64 (x86At 0x1001)
    (reportSelected.run s).2.selectedRegs = some ((x86At 0x1001).setPc 0x1000) :=
  (trap_rewound_iff rfl (@TrapHandled.hit _ 0 ⟨0x1000, 0x90, true, []⟩ (x86At 0x1001) _ rfl
    (by decide +kernel) rfl (run_of_code (by decide +kernel)))).mpr (.inl ⟨rfl, by decide⟩)

/-- An aarch64 thread at the trap is moved in front of it. -/
theorem trap_aarch64_moved :
    let native : ArmGpr → UInt64 := Function.update (fun _ => 0) .pc 0x1000
    let s := stoppedAtTrap .aarch64 (.arm native)
    (reportStop.run s).1 = 0 ∧
      ((reportStop.run s).2.selectedRegs.map Regs.pc) = some 0xfff :=
  ⟨by decide +kernel, by decide +kernel⟩

end Debugger
