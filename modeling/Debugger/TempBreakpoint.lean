/-
Temporary breakpoints are taken back.

`step_over_call` and `run_to_entry_stop` place a breakpoint of their own and let the debuggee run.
Whatever the kernel calls return, one write of the saved byte takes it back, and every other write
to memory is one of the table's entries at its own address; at its trap the pc is then set to it
(`temp_breakpoint_taken_back`).  A user's entry at the same address may write the same byte there
as well (`entry_writes_too`).
-/
import Debugger.Attempts
import Debugger.StepOver

open Prog

namespace Debugger

/-! ### How the functions end -/

/-- What a function that has placed `tempBp` does with the stop `s₁`: one write takes the
breakpoint back, and every other write to memory is at one of the addresses.  At the trap of an
address of which `puts` holds, the pc is set to it once the byte is back. -/
def FinishedAt (puts : Addr → Prop) (tempBp : Breakpoint) (addrs : List Addr)
    (s₁ s' : Sys) : Prop :=
  ∃ rc after, s'.attempts =
      after ++ .memory tempBp.addr [tempBp.savedByte] rc :: s₁.attempts ∧
    (∀ a ∈ after, a.At addrs) ∧
    (s₁.os.arch = .x86_64 → ∀ s₂, cdbgRefreshRegs.run s₁ = (0, s₂) →
      cdbgBpMatchesPc .x86_64 s₂.dbg.regs.pc tempBp = true → puts tempBp.addr → rc = 0 →
        ∃ regs rc', regs.pc = tempBp.addr ∧ after = [.registers s₂.dbg.currentTid regs rc'])

/-- The stop a function looks at that has placed a breakpoint in `s`: the debuggee has been resumed
and has stopped.  `waits` holds of the states in which the function waits for the stop. -/
def StopsAt (waits : DbgState → Prop) (s s₁ : Sys) : Prop :=
  ∃ s₂, cdbgContinue.run s = (0, s₂) ∧ waits s₂.dbg.state ∧
    cdbgWait.run s₂ = (0, s₁) ∧ s₁.dbg.state = .stopped

/-- How a function that has placed `tempBp` ends: without a stop it only takes the breakpoint
back, at a stop as `FinishedAt` says.  Up to there only entries of the table are written. -/
inductive TakenBack (waits : DbgState → Prop) (puts : Addr → Prop) (tempBp : Breakpoint)
    (s s' : Sys) : Prop
  | unseen {s₁ : Sys} {rc : Int} (none : ∀ s₂, ¬ StopsAt waits s s₂) (before : s.OwnWrites s₁)
      (write : s'.attempts = .memory tempBp.addr [tempBp.savedByte] rc :: s₁.attempts)
  | stopped {s₁ : Sys} (stop : StopsAt waits s s₁) (before : s.OwnWrites s₁)
      (done : FinishedAt puts tempBp s.dbg.bpAddrs s₁ s')

section Ends

variable {tempBp : Breakpoint} {s s₁ : Sys} {pid : ℕ} {addr : Addr}

/-- A breakpoint that has been placed. -/
theorem placed_of_enable (h : (cdbgBpEnable {} pid addr).run s = ((0, tempBp), s₁)) :
    tempBp.enabled = true ∧ tempBp.addr = addr := by
  have hplaced : wp (cdbgBpEnable {} pid addr)
      (fun r _ => r.1 = 0 → r.2.enabled = true ∧ r.2.addr = addr) s :=
    wp_cdbgBpEnable (fun _ _ _ _ _ hrc => absurd hrc neg_one_ne) fun _ _ _ _ _ => ⟨rfl, rfl⟩
  exact (wp_of_run h).mp hplaced rfl

theorem wp_bpDisable_temp (hon : tempBp.enabled = true) :
    wp (cdbgBpDisable tempBp pid) (fun r s' => s'.dbg = s.dbg ∧ ∃ rc,
      (r.1 = 0 ↔ rc = 0) ∧
        s'.attempts = .memory tempBp.addr [tempBp.savedByte] rc :: s.attempts) s := by
  rw [cdbgBpDisable, wp_ite]
  refine ⟨fun hoff => ?_, fun _ => ?_⟩
  · rw [hon] at hoff
    exact Bool.noConfusion hoff
  · rw [wp_bind]
    refine wp_mono (wp_memWrite_attempt tempBp.addr [tempBp.savedByte]) fun rc s' h => ?_
    rw [wp_ite]
    refine ⟨fun hrc => ⟨h.1, rc, ?_, h.2⟩, fun hrc => ⟨h.1, rc, ?_, h.2⟩⟩
    · exact iff_of_false neg_one_ne hrc
    · exact iff_of_true rfl (not_not.mp hrc)

theorem wp_dropTempBreakpoint (hon : tempBp.enabled = true) :
    wp (dropTempBreakpoint tempBp) (fun _ s' => s'.dbg = s.dbg ∧ ∃ rc,
      s'.attempts = .memory tempBp.addr [tempBp.savedByte] rc :: s.attempts) s := by
  rw [dropTempBreakpoint, wp_bind, wp_get, wp_bind]
  refine wp_mono (wp_bpDisable_temp hon) fun r s' h => ?_
  obtain ⟨hdbg, rc, -, hwrite⟩ := h
  exact ⟨hdbg, rc, hwrite⟩

/-- Setting the pc and writing the registers is one more attempt. -/
theorem wp_setPc_attempt {tid : UInt64} {pc : Addr} {bad good : Int} {Q : Int → Sys → Prop}
    (h : ∀ r rc s', s'.attempts = .registers tid (s.dbg.regs.setPc pc) rc :: s.attempts →
      Q r s') :
    wp (do
      setRegs (s.dbg.regs.setPc pc)
      if (← cdbgRegsSet pid tid (s.dbg.regs.setPc pc)) ≠ 0 then return bad
      return good) Q s := by
  rw [wp_bind, wp_setRegs, wp_bind]
  refine wp_mono (wp_regsSet_attempt tid _) fun rc s' hs' => ?_
  rw [wp_ite]
  exact ⟨fun _ => h _ rc s' hs'.2, fun _ => h _ rc s' hs'.2⟩

/-- `cdbg_refresh_regs` at the stop. -/
theorem refresh_at_stop {rc : Int} {s₂ : Sys} (h : cdbgRefreshRegs.run s₁ = (rc, s₂)) :
    s₂.attempts = s₁.attempts ∧ s₂.dbg.bpAddrs = s₁.dbg.bpAddrs ∧ s₂.os.arch = s₁.os.arch := by
  have hledger := (wp_of_run h).mp (cdbgRefreshRegs_ledger s₁)
  have hview := (wp_of_run h).mp (cdbgRefreshRegs_keeps s₁)
  exact ⟨congrArg Prod.fst hledger, congrArg Prod.snd hledger, congrArg (·.os.arch) hview⟩

section Finished

variable {puts : Addr → Prop} {addrs : List Addr} {s' s₂ : Sys} {rc : Int}

/-- The breakpoint is taken back, and no trap of it was stopped at whose pc is to be put back. -/
theorem FinishedAt.of_no_stop {after : List Attempt} (hat : ∀ a ∈ after, a.At addrs)
    (hwrite : s'.attempts = after ++ .memory tempBp.addr [tempBp.savedByte] rc :: s₁.attempts)
    (hno : s₁.os.arch = .x86_64 → ∀ s₂, cdbgRefreshRegs.run s₁ = (0, s₂) →
      cdbgBpMatchesPc .x86_64 s₂.dbg.regs.pc tempBp = true → puts tempBp.addr → rc ≠ 0) :
    FinishedAt puts tempBp addrs s₁ s' := by
  refine ⟨rc, after, hwrite, hat, fun harch s₂ hrefresh hmatch hputs h0 => ?_⟩
  exact absurd h0 (hno harch s₂ hrefresh hmatch hputs)

/-- The breakpoint is taken back, and the pc of the thread is set to it. -/
theorem FinishedAt.of_setPc {rc' : Int} {regs : Regs}
    (hrefresh : cdbgRefreshRegs.run s₁ = (0, s₂))
    (hpc : s₁.os.arch = .x86_64 → cdbgBpMatchesPc .x86_64 s₂.dbg.regs.pc tempBp = true →
      regs.pc = tempBp.addr)
    (hwrite : s'.attempts = .registers s₂.dbg.currentTid regs rc' ::
      .memory tempBp.addr [tempBp.savedByte] rc :: s₁.attempts) :
    FinishedAt puts tempBp addrs s₁ s' := by
  refine ⟨rc, [_], hwrite, fun a ha => ?_, fun harch s₂' hrun hmatch _ _ => ?_⟩
  · rw [List.mem_singleton.mp ha]
    trivial
  · obtain rfl : s₂ = s₂' := (Prod.mk.inj (hrefresh.symm.trans hrun)).2
    exact ⟨regs, rc', hpc harch hmatch, rfl⟩

end Finished

/-- `finish_temp_breakpoint` -/
theorem finishTempBreakpoint_finishedAt (hon : tempBp.enabled = true) :
    wp (finishTempBreakpoint tempBp) (fun _ s' =>
      FinishedAt (fun _ => True) tempBp s₁.dbg.bpAddrs s₁ s') s₁ := by
  have hnil : ∀ a ∈ ([] : List Attempt), a.At s₁.dbg.bpAddrs :=
    fun _ h => absurd h List.not_mem_nil
  rcases hrefresh : cdbgRefreshRegs.run s₁ with ⟨rc, s₂⟩
  obtain ⟨hattempts, haddrs, harch⟩ := refresh_at_stop hrefresh
  rw [finishTempBreakpoint, wp_bind, wp_of_run hrefresh, wp_ite]
  refine ⟨fun hbad => ?_, fun hgood => ?_⟩
  · -- the registers are not read
    rw [wp_bind]
    refine wp_mono (wp_dropTempBreakpoint hon) fun _ s₃ h => ?_
    obtain ⟨-, rc', hwrite⟩ := h
    rw [hattempts] at hwrite
    rw [wp_pure]
    refine FinishedAt.of_no_stop hnil hwrite fun _ s₂' hrun => ?_
    exact absurd (Prod.mk.inj (hrefresh.symm.trans hrun)).1 hbad
  obtain rfl : rc = 0 := not_not.mp hgood
  rw [wp_bind, wp_get, wp_ite]
  refine ⟨fun hno => ?_, fun hyes => ?_⟩
  · -- another stop, which is reported
    rw [wp_bind]
    refine wp_mono (wp_dropTempBreakpoint hon) fun _ s₃ h => ?_
    obtain ⟨hdbg, rc', hwrite⟩ := h
    refine wp_mono (reportStop_ownWrites s₃) fun _ s₄ h => ?_
    obtain ⟨-, after, hafter, hat⟩ := h
    rw [hdbg, haddrs] at hat
    rw [hwrite, hattempts] at hafter
    refine FinishedAt.of_no_stop hat hafter fun h86 s₂' hrun hmatch => ?_
    obtain rfl : s₂ = s₂' := (Prod.mk.inj (hrefresh.symm.trans hrun)).2
    rw [harch, h86, hmatch] at hno
    exact Bool.noConfusion hno
  · rw [wp_bind]
    refine wp_mono (wp_bpDisable_temp hon) fun r s₃ h => ?_
    obtain ⟨hdbg, rc', hcode, hwrite⟩ := h
    rw [hattempts] at hwrite
    show wp (if r.1 ≠ 0 then _ else _) _ _
    rw [wp_ite]
    refine ⟨fun hbad => ?_, fun _ => ?_⟩
    · rw [wp_pure]
      exact FinishedAt.of_no_stop hnil hwrite fun _ _ _ _ _ h0 => hbad (hcode.mpr h0)
    rw [wp_ite]
    refine ⟨fun _ => ?_, fun harm => ?_⟩
    · rw [← hdbg]
      refine wp_setPc_attempt fun _ rc'' s₄ hset => ?_
      rw [hwrite, hdbg] at hset
      exact FinishedAt.of_setPc hrefresh (fun _ _ => Regs.pc_setPc _ _) hset
    · rw [wp_pure]
      exact FinishedAt.of_no_stop hnil hwrite fun h86 => absurd (harch.trans h86) harm

/-- The end of `run_to_entry_stop`: the pc behind the trap of the highest address is 0, and the
step back is guarded by `pc > 0`. -/
theorem finishEntryStop_finishedAt (hon : tempBp.enabled = true) :
    wp (finishEntryStop tempBp) (fun _ s' =>
      FinishedAt (fun addr => addr + 1 ≠ 0) tempBp s₁.dbg.bpAddrs s₁ s') s₁ := by
  have hnil : ∀ a ∈ ([] : List Attempt), a.At s₁.dbg.bpAddrs :=
    fun _ h => absurd h List.not_mem_nil
  rcases hrefresh : cdbgRefreshRegs.run s₁ with ⟨rc, s₂⟩
  obtain ⟨hattempts, -, harch⟩ := refresh_at_stop hrefresh
  rw [finishEntryStop, wp_bind, wp_of_run hrefresh, wp_ite]
  refine ⟨fun hbad => ?_, fun hgood => ?_⟩
  · rw [wp_bind]
    refine wp_mono (wp_dropTempBreakpoint hon) fun _ s₃ h => ?_
    obtain ⟨-, rc', hwrite⟩ := h
    rw [hattempts] at hwrite
    rw [wp_pure]
    refine FinishedAt.of_no_stop hnil hwrite fun _ s₂' hrun => ?_
    exact absurd (Prod.mk.inj (hrefresh.symm.trans hrun)).1 hbad
  obtain rfl : rc = 0 := not_not.mp hgood
  rw [wp_bind, wp_get, wp_ite]
  refine ⟨fun hyes => ?_, fun hno => ?_⟩
  · rw [wp_bind]
    refine wp_mono (wp_dropTempBreakpoint hon) fun _ s₃ h => ?_
    obtain ⟨hdbg, rc', hwrite⟩ := h
    rw [hattempts] at hwrite
    rw [wp_ite]
    refine ⟨fun hpos => ?_, fun hzero => ?_⟩
    · rw [← hdbg]
      refine wp_setPc_attempt fun _ rc'' s₄ hset => ?_
      rw [hwrite, hdbg] at hset
      refine FinishedAt.of_setPc hrefresh (fun _ hmatch => ?_) hset
      rw [Regs.pc_setPc, (cdbgBpMatchesPc_iff.mp hmatch).2]
      exact add_sub_cancel_right _ _
    · rw [wp_pure]
      refine FinishedAt.of_no_stop hnil hwrite fun _ s₂' hrun hmatch hputs => ?_
      obtain rfl : s₂ = s₂' := (Prod.mk.inj (hrefresh.symm.trans hrun)).2
      have hpc : s₂.dbg.regs.pc = tempBp.addr + 1 := (cdbgBpMatchesPc_iff.mp hmatch).2
      refine absurd ?_ hzero
      rw [hpc]
      exact UInt64.pos_iff_ne_zero.mpr hputs
  · -- another stop, which is not looked at here
    rw [wp_bind]
    refine wp_mono (wp_dropTempBreakpoint hon) fun _ s₃ h => ?_
    obtain ⟨-, rc', hwrite⟩ := h
    rw [hattempts] at hwrite
    rw [wp_pure]
    refine FinishedAt.of_no_stop hnil hwrite fun h86 s₂' hrun hmatch => ?_
    obtain rfl : s₂ = s₂' := (Prod.mk.inj (hrefresh.symm.trans hrun)).2
    rw [harch, h86] at hno
    exact absurd hmatch hno

/-! ### From the trap to the end -/

section Runs

variable {waits : DbgState → Prop} {puts : Addr → Prop} {s₂ s₃ : Sys} {rc : Int}

/-- A way out that takes the breakpoint back before a stop is looked at. -/
theorem wp_leave (hon : tempBp.enabled = true) (hnone : ∀ s₃, ¬ StopsAt waits s₁ s₃)
    (h : s₁.OwnWrites s₂) :
    wp (dropTempBreakpoint tempBp) (fun _ s' => TakenBack waits puts tempBp s₁ s') s₂ :=
  wp_mono (wp_dropTempBreakpoint hon) fun _ _ h' => .unseen hnone h h'.2.choose_spec

theorem no_stop_of_continue (h : cdbgContinue.run s₁ = (rc, s₂))
    (hbad : rc ≠ 0 ∨ ¬ waits s₂.dbg.state) : ∀ s₃, ¬ StopsAt waits s₁ s₃ := by
  rintro s₃ ⟨s₂', hcont, hwaits, -⟩
  obtain ⟨rfl, rfl⟩ := Prod.mk.inj (h.symm.trans hcont)
  exact hbad.elim (absurd rfl) (absurd hwaits)

theorem no_stop_of_wait (hcont : cdbgContinue.run s₁ = (0, s₂)) (h : cdbgWait.run s₂ = (rc, s₃))
    (hbad : rc ≠ 0 ∨ s₃.dbg.state ≠ .stopped) : ∀ s₄, ¬ StopsAt waits s₁ s₄ := by
  rintro s₄ ⟨s₂', hcont', -, hwait, hstopped⟩
  obtain rfl := (Prod.mk.inj (hcont.symm.trans hcont')).2
  obtain ⟨rfl, rfl⟩ := Prod.mk.inj (h.symm.trans hwait)
  exact hbad.elim (absurd rfl) (absurd hstopped)

theorem stepOverCall_takenBack {returnAddr : Addr}
    (henable : (cdbgBpEnable {} s.dbg.pid returnAddr).run s = ((0, tempBp), s₁)) :
    wp (stepOverCall returnAddr) (fun _ s' =>
      TakenBack (· ≠ .idle) (fun _ => True) tempBp s₁ s') s := by
  have hon := (placed_of_enable henable).1
  rw [stepOverCall, wp_bind, wp_get, wp_bind, wp_of_run henable]
  show wp (if (0 : Int) ≠ 0 then _ else _) _ _
  rcases hcont : cdbgContinue.run s₁ with ⟨rc, s₂⟩
  have h₂ : s₁.OwnWrites s₂ := (wp_of_run hcont).mp (cdbgContinue_ownWrites s₁)
  rw [if_neg (not_not.mpr rfl), wp_bind, wp_of_run hcont, wp_ite]
  refine ⟨fun hbad => ?_, fun hgood => ?_⟩
  · rw [wp_bind]
    exact wp_leave hon (no_stop_of_continue hcont (.inl hbad)) h₂
  obtain rfl : rc = 0 := not_not.mp hgood
  rw [wp_bind, wp_get, wp_ite]
  refine ⟨fun hidle => ?_, fun hwaits => ?_⟩
  · rw [wp_bind]
    exact wp_leave hon (no_stop_of_continue hcont (.inr (not_not.mpr hidle))) h₂
  rcases hwait : cdbgWait.run s₂ with ⟨rc, s₃⟩
  have h₃ : s₁.OwnWrites s₃ :=
    trans_of Sys.OwnWrites h₂ ((wp_of_run hwait).mp (cdbgWait_ownWrites s₂))
  rw [wp_bind, wp_of_run hwait, wp_ite]
  refine ⟨fun hbad => ?_, fun hgood => ?_⟩
  · rw [wp_bind]
    exact wp_leave hon (no_stop_of_wait hcont hwait (.inl hbad)) h₃
  obtain rfl : rc = 0 := not_not.mp hgood
  rw [wp_bind, wp_get, wp_ite]
  refine ⟨fun hends => ?_, fun hstopped => ?_⟩
  · rw [wp_bind]
    exact wp_leave hon (no_stop_of_wait hcont hwait (.inr hends)) h₃
  · refine wp_mono (finishTempBreakpoint_finishedAt hon) fun _ s' h => ?_
    exact .stopped ⟨s₂, hcont, hwaits, hwait, not_not.mp hstopped⟩ h₃ (h₃.1 ▸ h)

theorem runToEntryStop_takenBack {entryAddr : Addr} (hstopped : s.dbg.state = .stopped)
    (hentry : resolveEntryStopAddr s.dbg = some entryAddr)
    (henable : (cdbgBpEnable {} s.dbg.pid entryAddr).run s = ((0, tempBp), s₁)) :
    wp runToEntryStop (fun _ s' =>
      TakenBack (fun _ => True) (fun addr => addr + 1 ≠ 0) tempBp s₁ s') s := by
  have hon := (placed_of_enable henable).1
  rw [runToEntryStop, wp_bind, wp_get, if_neg (not_not.mpr hstopped), hentry]
  dsimp only
  rw [wp_bind, wp_of_run henable]
  show wp (if (0 : Int) ≠ 0 then _ else _) _ _
  rcases hcont : cdbgContinue.run s₁ with ⟨rc, s₂⟩
  have h₂ : s₁.OwnWrites s₂ := (wp_of_run hcont).mp (cdbgContinue_ownWrites s₁)
  rw [if_neg (not_not.mpr rfl), continueToEntry, wp_bind, wp_of_run hcont, wp_ite]
  refine ⟨fun hbad => ?_, fun hgood => ?_⟩
  · rw [wp_bind]
    exact wp_leave hon (no_stop_of_continue hcont (.inl hbad)) h₂
  obtain rfl : rc = 0 := not_not.mp hgood
  rcases hwait : cdbgWait.run s₂ with ⟨rc, s₃⟩
  have h₃ : s₁.OwnWrites s₃ :=
    trans_of Sys.OwnWrites h₂ ((wp_of_run hwait).mp (cdbgWait_ownWrites s₂))
  rw [wp_bind, wp_of_run hwait, wp_ite]
  refine ⟨fun hbad => ?_, fun hgood => ?_⟩
  · rw [wp_bind]
    exact wp_leave hon (no_stop_of_wait hcont hwait (.inl hbad)) h₃
  obtain rfl : rc = 0 := not_not.mp hgood
  rw [wp_bind, wp_get, wp_ite]
  refine ⟨fun hends => ?_, fun hstopped => ?_⟩
  · rw [wp_bind]
    exact wp_leave hon (no_stop_of_wait hcont hwait (.inr hends)) h₃
  · refine wp_mono (finishEntryStop_finishedAt hon) fun _ s' h => ?_
    exact .stopped ⟨s₂, hcont, trivial, hwait, not_not.mp hstopped⟩ h₃ (h₃.1 ▸ h)

end Runs

end Ends

/-- A temporary breakpoint is taken back.  Once it is in place, `step_over_call` and
`run_to_entry_stop` attempt one write of its saved byte before they return, and any other write
to memory is one of an entry of the table, at its address.  When an x86_64 debuggee has stopped at
it and that write has succeeded, the pc is set to it; `run_to_entry_stop` leaves the pc behind the
trap of the highest address. -/
theorem temp_breakpoint_taken_back (s s₁ : Sys) (tempBp : Breakpoint) :
    (∀ returnAddr, (cdbgBpEnable {} s.dbg.pid returnAddr).run s = ((0, tempBp), s₁) →
      tempBp.addr = returnAddr ∧ TakenBack (· ≠ .idle) (fun _ => True) tempBp s₁
        ((stepOverCall returnAddr).run s).2) ∧
    (∀ entryAddr, s.dbg.state = .stopped → resolveEntryStopAddr s.dbg = some entryAddr →
      (cdbgBpEnable {} s.dbg.pid entryAddr).run s = ((0, tempBp), s₁) →
        tempBp.addr = entryAddr ∧ TakenBack (fun _ => True) (fun addr => addr + 1 ≠ 0) tempBp s₁
          (runToEntryStop.run s).2) := by
  refine ⟨fun _ henable => ⟨?_, ?_⟩, fun _ hstopped hentry henable => ⟨?_, ?_⟩⟩
  · exact (placed_of_enable henable).2
  · exact stepOverCall_takenBack henable
  · exact (placed_of_enable henable).2
  · exact runToEntryStop_takenBack hstopped hentry henable

/-- Whether an attempt writes the saved byte of a breakpoint at its address. -/
def Attempt.putsBack (bp : Breakpoint) : Attempt → Bool
  | .memory addr bytes _ => addr = bp.addr && bytes = [bp.savedByte]
  | .registers .. => false

/-- The primary thread runs into the breakpoint at `main`, with both functions. -/
theorem temp_breakpoint_taken_back_main :
    let d := Sys.attached .x86_64 twoThreads
      fun _ => .stopped 5 [.exec 1 (x86At 0x1005) [], .exec 1 (x86At 0) []]
    let s := { d with dbg := { d.dbg with syms := { entries := [⟨0x1005, 'T', "_main".toList⟩] } } }
    let tempBp : Breakpoint := { addr := 0x1005, savedByte := 0x90, enabled := true }
    let s₁ := ((cdbgBpEnable {} s.dbg.pid 0x1005).run s).2
    ((stepOverCall 0x1005).run s).2.attempts.countP (·.putsBack tempBp) = 1 ∧
    TakenBack (· ≠ .idle) (fun _ => True) tempBp s₁ ((stepOverCall 0x1005).run s).2 ∧
    (runToEntryStop.run s).2.attempts.countP (·.putsBack tempBp) = 1 ∧
    TakenBack (fun _ => True) (fun addr => addr + 1 ≠ 0) tempBp s₁ (runToEntryStop.run s).2 := by
  intro d s tempBp s₁
  have henable : (cdbgBpEnable {} s.dbg.pid 0x1005).run s = ((0, tempBp), s₁) :=
    Prod.ext (by decide +kernel) rfl
  have htaken := temp_breakpoint_taken_back s s₁ tempBp
  refine ⟨by decide +kernel, (htaken.1 0x1005 henable).2, by decide +kernel, ?_⟩
  exact (htaken.2 0x1005 rfl (by decide +kernel) henable).2

/-- A debuggee with an `int3` of its own behind a call, a breakpoint of the user on it, and a
second thread about to execute it. -/
def trapBehindCall : Sys :=
  let p := { twoThreads with mem := Function.update twoThreads.mem 0x2000 0xcc }
  let s := Sys.attached .x86_64 p fun _ => .stopped 5 [.exec 2 (x86At 0x2001) []]
  ((cmdBreak "0x2000".toList).run s).2

/-- The entry of the user at the return address is hit by the second thread, and writes the same
byte once more. -/
theorem entry_writes_too : ¬ ∀ (s s₁ : Sys) (tempBp : Breakpoint) (returnAddr : Addr),
    (cdbgBpEnable {} s.dbg.pid returnAddr).run s = ((0, tempBp), s₁) →
      ((stepOverCall returnAddr).run s).2.attempts.countP (·.putsBack tempBp) =
        s₁.attempts.countP (·.putsBack tempBp) + 1 := by
  intro h
  have hcount := h trapBehindCall ((cdbgBpEnable {} trapBehindCall.dbg.pid 0x2000).run
    trapBehindCall).2 { addr := 0x2000, savedByte := 0xcc, enabled := true } 0x2000
    (Prod.ext (by decide +kernel) rfl)
  exact absurd hcount (by decide +kernel)

end Debugger
