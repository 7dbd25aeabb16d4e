/-
The reports of the watchpoints over a session of `watch`, `unwatch` and stops.

Each entry of the table holds the value last shown for its watchpoint, and a deletion moves the
entries together with it, so the reports of one watchpoint follow on one another
(`watch_history_gapless`).  A deletion that fails while it moves the entries leaves one of them
twice, and then they need not.
-/
import Debugger.WatchAtomic

open Prog

namespace Debugger

/-! ### What a stop shows -/

/-- What `report_watchpoint_hit` prints. -/
structure WatchReport where
  index : ℕ
  oldValue : UInt64
  newValue : UInt64
  deriving DecidableEq

/-- `report_watchpoint_hit` with what it prints. -/
def reportWatchpointHitShown (index : ℕ) : DbgM WatchReport := do
  let s ← get
  let watch := s.dbg.watchpoints.getD index {}
  match ← cdbgMemRead s.dbg.pid watch.addr watch.size with
  | none => return ⟨index, watch.oldValue, watch.oldValue⟩
  | some bytes =>
    setWatchpoints (s.dbg.watchpoints.set index { watch with oldValue := valueOf bytes })
    return ⟨index, watch.oldValue, valueOf bytes⟩

/-- The end of `report_stop` with what it prints of a watchpoint. -/
def reportOtherStopShown : DbgM (Int × Option WatchReport) := do
  match ← findWatchpointHit with
  | some i =>
    let report ← reportWatchpointHitShown i
    return (0, some report)
  | none => return (0, none)

/-- `report_stop` once a thread is selected, with what it prints of a watchpoint. -/
def reportSelectedShown : DbgM (Int × Option WatchReport) := do
  if (← cdbgRefreshRegs) ≠ 0 then return (-1, none)
  let s ← get
  match s.dbg.breakpoints.findIdx? (cdbgBpMatchesPc s.os.arch s.dbg.regs.pc) with
  | some i =>
    let rc ← handleBreakpointHit i
    return (rc, none)
  | none => reportOtherStopShown

/-- `report_stop` with what it prints of a watchpoint. -/
def reportStopShown : DbgM (Int × Option WatchReport) := do
  resyncWatchpointsToAllThreads
  switchCurrentTidToBreakpointHit
  reportSelectedShown

/-- The tests of the stepping loops with what they print of a watchpoint. -/
def checkStopShown (start : CStr × UInt32) : DbgM ((Addr ⊕ Int) × Option WatchReport) := do
  if (← cdbgRefreshRegs) ≠ 0 then return (.inr (-1), none)
  let s ← get
  let pc := s.dbg.regs.pc
  if cdbgBpIsTrap s.os.arch pc s.dbg.breakpoints then
    let (rc, report) ← reportStopShown
    return (.inr rc, report)
  match ← findWatchpointHit with
  | some i =>
    let report ← reportWatchpointHitShown i
    return (.inr 0, some report)
  | none =>
    match s.dbg.lineno.lineAtPc pc with
    | none => return (.inl pc, none)
    | some cur => return (if cur ≠ start then .inr 0 else .inl pc, none)

section Erasure

theorem reportWatchpointHit_eq (index : ℕ) :
    reportWatchpointHit index = (fun _ => ⟨⟩) <$> reportWatchpointHitShown index := by
  rw [reportWatchpointHit, reportWatchpointHitShown, map_bind]
  refine bind_congr fun s => ?_
  rw [map_bind]
  refine bind_congr fun r => ?_
  cases r with
  | none => rfl
  | some bytes => rfl

theorem reportOtherStop_eq : reportOtherStop = Prod.fst <$> reportOtherStopShown := by
  rw [reportOtherStop, reportOtherStopShown, map_bind]
  refine bind_congr fun r => ?_
  cases r with
  | none => rfl
  | some i =>
    dsimp only
    rw [reportWatchpointHit_eq, map_bind, bind_map_left]
    rfl

theorem reportSelected_eq : reportSelected = Prod.fst <$> reportSelectedShown := by
  rw [reportSelected, reportSelectedShown, map_bind]
  refine bind_congr fun rc => ?_
  split
  · rfl
  · rw [map_bind]
    refine bind_congr fun s => ?_
    cases s.dbg.breakpoints.findIdx? (cdbgBpMatchesPc s.os.arch s.dbg.regs.pc) with
    | none => exact reportOtherStop_eq
    | some i => exact (bind_pure _).symm

/-- `report_stop` is what shows the reports. -/
theorem reportStop_eq : reportStop = Prod.fst <$> reportStopShown := by
  rw [reportStop, reportStopShown, map_bind]
  refine bind_congr fun _ => ?_
  rw [map_bind, reportSelected_eq]

/-- So are the tests of the stepping loops. -/
theorem checkStop_eq (start : CStr × UInt32) :
    checkStop start = Prod.fst <$> checkStopShown start := by
  rw [checkStop, checkStopShown, map_bind]
  refine bind_congr fun rc => ?_
  split
  · rfl
  · rw [map_bind]
    refine bind_congr fun s => ?_
    dsimp only
    split
    · rw [reportStop_eq, map_bind, bind_map_left]
      rfl
    · rw [map_bind]
      refine bind_congr fun r => ?_
      cases r with
      | some i =>
        dsimp only
        rw [reportWatchpointHit_eq, map_bind, bind_map_left]
        rfl
      | none =>
        dsimp only
        cases s.dbg.lineno.lineAtPc s.dbg.regs.pc with
        | none => rfl
        | some cur => rfl

end Erasure

/-! ### The reports of a stop -/

/-- The watchpoints, and which calls fail. -/
def Sys.watching (s : Sys) : List Watchpoint × (KCall → ℕ → Bool) :=
  (s.dbg.watchpoints, s.os.fault)

/-- What a stop that shows a report does to the table, and one that shows none. -/
def Reported (s : Sys) (report : Option WatchReport) (s' : Sys) : Prop :=
  match report with
  | none => s'.dbg.watchpoints = s.dbg.watchpoints
  | some report => ∃ watch, s.dbg.watchpoints[report.index]? = some watch ∧
      report.oldValue = watch.oldValue ∧ report.oldValue ≠ report.newValue ∧
      s'.dbg.watchpoints =
        s.dbg.watchpoints.set report.index { watch with oldValue := report.newValue }

section Reports

variable {s s' : Sys}

theorem Sys.watching_of_sansPatches (h : s'.sansPatches = s.sansPatches) :
    s'.watching = s.watching :=
  show s'.sansPatches.watching = s.sansPatches.watching from congrArg watching h

theorem Sys.watching_of_sansSlots (h : s'.sansSlots = s.sansSlots) : s'.watching = s.watching :=
  show s'.sansSlots.watching = s.sansSlots.watching from congrArg watching h

theorem Sys.watching_of_sansCalls (h : s'.sansCalls = s.sansCalls) : s'.watching = s.watching :=
  Sys.watching_of_sansPatches (Sys.sansPatches_of_sansCalls h)

theorem Sys.wps_of_watching (h : s'.watching = s.watching) :
    s'.dbg.watchpoints = s.dbg.watchpoints := congrArg Prod.fst h

theorem Reported.of_watching {s₁ : Sys} {report : Option WatchReport}
    (h : s₁.watching = s.watching) (hr : Reported s₁ report s') : Reported s report s' := by
  have hwps := Sys.wps_of_watching h
  cases report with
  | none => exact Eq.trans hr hwps
  | some report =>
    obtain ⟨watch, hget, hold, hne, hset⟩ := hr
    rw [hwps] at hget hset
    exact ⟨watch, hget, hold, hne, hset⟩

theorem switchCurrentTid_keepsWatching : Keeps Sys.watching switchCurrentTidToBreakpointHit := by
  intro s
  have hquiet : ∀ {s₀ s' : Sys}, s₀.Quiet s' → s'.watching = s₀.watching := fun hq =>
    Sys.watching_of_sansCalls (Sys.quiet_iff_sansCalls.mp hq)
  refine wp_switchCurrentTidToBreakpointHit (fun s' hq _ => hquiet hq)
    fun p before i after t s' _ _ _ _ hq => ?_
  exact (hquiet hq).trans rfl

theorem cdbgRegsSet_keepsWatching (pid : ℕ) (tid : UInt64) (regs : Regs) :
    Keeps Sys.watching (cdbgRegsSet pid tid regs) := by
  intro s
  refine wp_cdbgRegsSet (fun s' h _ => Sys.watching_of_sansCalls (Sys.quiet_iff_sansCalls.mp h))
    fun p t s' hp _ h => ?_
  rw [Sys.watching_of_sansCalls (Sys.quiet_iff_sansCalls.mp h)]
  rfl

theorem handleBreakpointHit_keepsWatching (index : ℕ) :
    Keeps Sys.watching (handleBreakpointHit index) := by
  intro s
  rw [handleBreakpointHit, wp_bind, wp_get, wp_bind, wp_modify, wp_bind]
  refine wp_mono (cdbgBpDisable_keeps _) fun r s₁ h₁ => ?_
  obtain ⟨hd, hv, -⟩ := h₁
  obtain ⟨rc, bp⟩ := r
  have hrecord : (s.recordHit index).watching = s.watching := by
    rw [Sys.recordHit]
    split <;> rfl
  have hv₁ := (Sys.watching_of_sansPatches hv).trans hrecord
  change wp (do
    setBreakpoints (s.dbg.breakpoints.set index bp)
    if rc ≠ 0 then return -1
    if (← cdbgRefreshRegs) ≠ 0 then return -1
    rewindPc) _ s₁
  have hrewind : Keeps Sys.watching rewindPc :=
    Keeps.bind Keeps.get fun _ => Keeps.ite (Keeps.bind (fun _ => rfl) fun _ =>
      Keeps.bind (cdbgRegsSet_keepsWatching _ _ _) fun _ => Keeps.ite (Keeps.pure _) (Keeps.pure _))
      (Keeps.pure _)
  have hrefresh : Keeps Sys.watching cdbgRefreshRegs :=
    cdbgRefreshRegs_keeps.mono fun _ _ => Sys.watching_of_sansPatches
  rw [wp_bind, wp_setBreakpoints]
  exact wp_mono (Keeps.ite (Keeps.pure _) (Keeps.bind hrefresh fun _ =>
    Keeps.ite (Keeps.pure _) hrewind) _) fun _ _ h => h.trans hv₁

/-- The entry the scan stops at has changed. -/
theorem wp_findWatchpointHitFrom {pid : ℕ} (wps : List Watchpoint) (i : ℕ) (s : Sys) :
    wp (findWatchpointHitFrom pid i wps) (fun r s' => s.Quiet s' ∧ ∀ j, r = some j →
      ∃ watch p, wps[j - i]? = some watch ∧ i ≤ j ∧ s.process pid = some p ∧
        valueOf (p.mem.read watch.addr watch.size) ≠ watch.oldValue) s := by
  induction wps generalizing i s with
  | nil => exact ⟨⟨_, rfl⟩, fun _ h => absurd h (Option.some_ne_none _).symm⟩
  | cons watch rest ih =>
    -- the rest numbers its entries from `i + 1` on
    have hrest {s₁ : Sys} (hq : s.Quiet s₁) : wp (findWatchpointHitFrom pid (i + 1) rest)
        (fun r s' => s.Quiet s' ∧ ∀ j, r = some j → ∃ watch' p,
          (watch :: rest)[j - i]? = some watch' ∧ i ≤ j ∧ s.process pid = some p ∧
            valueOf (p.mem.read watch'.addr watch'.size) ≠ watch'.oldValue) s₁ := by
      refine wp_mono (ih (i + 1) s₁) fun r s' ⟨hq', hr⟩ => ⟨hq.trans hq', fun j hj => ?_⟩
      obtain ⟨watch', p, hget, hle, hp, hne⟩ := hr j hj
      obtain ⟨n, rfl⟩ := hq
      refine ⟨watch', p, ?_, by omega, hp, hne⟩
      rw [show j - i = j - (i + 1) + 1 by omega, List.getElem?_cons_succ]
      exact hget
    rw [findWatchpointHitFrom, wp_ite]
    refine ⟨fun _ => hrest ⟨_, rfl⟩, fun _ => ?_⟩
    rw [wp_bind]
    refine wp_cdbgMemRead (fun s₁ hq _ => hrest hq) fun p s₁ hp hq => ?_
    change wp (if valueOf _ ≠ _ then _ else _) _ _
    rw [wp_ite]
    refine ⟨fun hne => ⟨hq, fun j hj => ?_⟩, fun _ => hrest hq⟩
    obtain rfl := Option.some.inj hj
    refine ⟨watch, p, ?_, Nat.le_refl i, hp, hne⟩
    rw [Nat.sub_self]
    rfl

/-- An entry that has changed is shown with its last value and the one in memory. -/
theorem wp_reportWatchpointHitShown {i : ℕ} {watch : Watchpoint} {p : Process}
    (hok : s.Reliable .memRead) (hp : s.process s.dbg.pid = some p)
    (hget : s.dbg.watchpoints[i]? = some watch)
    (hne : valueOf (p.mem.read watch.addr watch.size) ≠ watch.oldValue) :
    wp (reportWatchpointHitShown i) (fun r s' => Reported s (some r) s') s := by
  have hgetD : s.dbg.watchpoints.getD i {} = watch := by
    rw [List.getD_eq_getElem?_getD, hget]
    rfl
  rw [reportWatchpointHitShown, wp_bind, wp_get, hgetD]
  dsimp only
  rw [wp_bind]
  refine wp_cdbgMemRead (fun _ _ hnone => ?_) fun q s₁ hq hquiet => ?_
  · exact absurd (hp.symm.trans (hnone hok)) (by simp)
  · obtain rfl := Option.some.inj (hp.symm.trans hq)
    obtain ⟨n, rfl⟩ := hquiet
    exact ⟨watch, hget, rfl, hne.symm, rfl⟩

section Stops

variable (hok : s.Reliable .memRead)

include hok

theorem wp_reportOtherStopShown :
    wp reportOtherStopShown (fun r s' => Reported s r.2 s') s := by
  rw [reportOtherStopShown, wp_bind, findWatchpointHit, wp_bind, wp_get]
  refine wp_mono (wp_findWatchpointHitFrom _ 0 s) fun r s₁ ⟨hq, hr⟩ => ?_
  have hs₁ := Sys.watching_of_sansCalls (Sys.quiet_iff_sansCalls.mp hq)
  cases r with
  | none => exact Sys.wps_of_watching hs₁
  | some i =>
    obtain ⟨watch, p, hget, -, hp, hne⟩ := hr i rfl
    obtain ⟨n, rfl⟩ := hq
    dsimp only
    rw [wp_bind]
    exact wp_reportWatchpointHitShown (s := { s with os := { s.os with calls := n } }) hok hp
      hget hne

theorem wp_reportStopShown : wp reportStopShown (fun r s' => Reported s r.2 s') s := by
  rw [reportStopShown, wp_bind]
  refine wp_mono (resyncWatchpointsToAllThreads_keeps s) fun _ s₁ h₁ => ?_
  rw [wp_bind]
  refine wp_mono (switchCurrentTid_keepsWatching s₁) fun _ s₂ h₂ => ?_
  rw [reportSelectedShown, wp_bind]
  refine wp_mono (cdbgRefreshRegs_keeps s₂) fun rc s₃ h₃ => ?_
  have hs₃ : s₃.watching = s.watching := (Sys.watching_of_sansPatches h₃).trans
    (h₂.trans (Sys.watching_of_sansSlots h₁))
  rw [wp_ite]
  refine ⟨fun _ => Sys.wps_of_watching hs₃, fun _ => ?_⟩
  rw [wp_bind, wp_get]
  cases s₃.dbg.breakpoints.findIdx? (cdbgBpMatchesPc s₃.os.arch s₃.dbg.regs.pc) with
  | some i =>
    dsimp only
    rw [wp_bind]
    exact wp_mono (handleBreakpointHit_keepsWatching i s₃) fun _ _ h =>
      Sys.wps_of_watching (h.trans hs₃)
  | none =>
    refine wp_mono (wp_reportOtherStopShown (s := s₃) fun n => ?_) fun _ _ h => h.of_watching hs₃
    rw [show s₃.os.fault = s.os.fault from congrArg Prod.snd hs₃]
    exact hok n

theorem wp_checkStopShown (start : CStr × UInt32) :
    wp (checkStopShown start) (fun r s' => Reported s r.2 s') s := by
  rw [checkStopShown, wp_bind]
  refine wp_mono (cdbgRefreshRegs_keeps s) fun rc s₁ h₁ => ?_
  have hs₁ := Sys.watching_of_sansPatches h₁
  have hok₁ : s₁.Reliable .memRead := fun n => by
    rw [show s₁.os.fault = s.os.fault from congrArg Prod.snd hs₁]
    exact hok n
  rw [wp_ite]
  refine ⟨fun _ => Sys.wps_of_watching hs₁, fun _ => ?_⟩
  rw [wp_bind, wp_get]
  dsimp only
  rw [wp_ite]
  refine ⟨fun _ => ?_, fun _ => ?_⟩
  · rw [wp_bind]
    exact wp_mono (wp_reportStopShown hok₁) fun _ _ h => h.of_watching hs₁
  · rw [wp_bind, findWatchpointHit, wp_bind, wp_get]
    refine wp_mono (wp_findWatchpointHitFrom _ 0 s₁) fun r s₂ ⟨hq, hr⟩ => ?_
    have hs₂ := Sys.watching_of_sansCalls (Sys.quiet_iff_sansCalls.mp hq)
    cases r with
    | none =>
      dsimp only
      cases s₁.dbg.lineno.lineAtPc s₁.dbg.regs.pc with
      | none => exact Sys.wps_of_watching (hs₂.trans hs₁)
      | some cur => exact Sys.wps_of_watching (hs₂.trans hs₁)
    | some i =>
      obtain ⟨watch, p, hget, -, hp, hne⟩ := hr i rfl
      obtain ⟨n, rfl⟩ := hq
      dsimp only
      rw [wp_bind]
      refine wp_mono (wp_reportWatchpointHitShown (s := { s₁ with os := { s₁.os with calls := n } })
        hok₁ hp hget hne) fun _ _ h => ?_
      exact Reported.of_watching (hs₂.trans hs₁) h

end Stops

end Reports

/-! ### What the commands do to the table -/

/-- The entries from `k` to one that cannot be installed again are the same, so moving them
changes nothing. -/
def UnwatchStays (s : Sys) (k : ℕ) : Prop :=
  ∀ p, k < s.dbg.watchpoints.length → s.dbg.live = true → s.process s.dbg.pid = some p →
    reachesAll s.os.fault s.os.calls.count p.tids = true →
    ∀ j c, reinstallFails s.os.fault s.os.arch p.tids (behind s.os.fault s.os.calls.count p.tids)
        (s.dbg.watchpoints.drop (k + 1)) = some (j, c) →
      ∃ watch, ∀ l, k ≤ l → l ≤ k + 1 + j → s.dbg.watchpoints[l]? = some watch

section Table

variable {s : Sys} (hwf : ∀ p, s.process s.dbg.pid = some p → p.WellFormed)

include hwf

/-- `watch` adds at most one entry, which holds the value in memory. -/
theorem wp_cmdWatch_table (hok : s.Reliable .memRead) (expr : Option CStr)
    (resolved : Option (Addr × ℕ)) :
    wp (cmdWatch expr resolved) (fun _ s' => s'.dbg.watchpoints = s.dbg.watchpoints ∨
      ∃ watch p, s.dbg.watchpoints.length < wpMaxHw ∧ s.process s.dbg.pid = some p ∧
        watch.oldValue = valueOf (p.mem.read watch.addr watch.size) ∧
        s'.dbg.watchpoints = s.dbg.watchpoints ++ [watch]) s :=
  wp_cmdWatch_plan hwf (fun _ _ _ _ hwps _ => .inl hwps) fun _ _ _ p hk _ hp =>
    ⟨fun _ _ hwps _ => .inl hwps, fun _ _ _ _ _ _ hread hwps =>
      .inr ⟨_, p, hk, hp, hread hok, hwps⟩⟩

/-- A deletion erases the entry, or leaves the table as it is. -/
theorem wp_deleteWatchpointAt_table {k : ℕ} (hlen : s.dbg.watchpoints.length ≤ wpMaxHw)
    (hstays : UnwatchStays s k) :
    wp (deleteWatchpointAt k) (fun rc s' => if rc = 0 then k < s.dbg.watchpoints.length ∧
        s'.dbg.watchpoints = s.dbg.watchpoints.eraseIdx k
      else s'.dbg.watchpoints = s.dbg.watchpoints) s := by
  have hfail : wp (deleteWatchpointAt k)
      (fun rc s' => rc ≠ 0 → s'.dbg.watchpoints = s.dbg.watchpoints) s := by
    refine wp_deleteWatchpointAt_cases hwf hlen (fun s' _ h => absurd rfl h)
      (fun _ s' hdbg _ _ => by rw [hdbg]) (fun p _ _ _ _ _ n _ => rfl)
      fun p j c watch s' he hk hlive hp hall hsome hw hwps' _ _ => ?_
    rw [hwps', shiftedTo_eq_iff (List.getElem?_eq_some_iff.mp hw).1]
    exact hstays p hk hlive hp hall j c hsome
  refine wp_mono (wp_and (wp_deleteWatchpointAt_dbg k s) hfail) fun rc s' h => ?_
  split
  · next hrc => exact ⟨(h.1 hrc).1, by rw [(h.1 hrc).2]⟩
  · next hrc => exact h.2 hrc

end Table

/-! ### Sessions -/

/-- A step of a session: the commands, where `unwatch` is one deletion, and the two places at
which a stop is reported. -/
inductive WatchOp
  | watch (expr : Option CStr) (resolved : Option (Addr × ℕ))
  | unwatch (index : ℕ)
  | stop
  | line (start : CStr × UInt32)

/-- A session: which watchpoint each entry is for, counting them as they are set, the value read
when each was set, and the reports so far, each with its watchpoint. -/
structure WatchSession where
  sys : Sys
  entries : List ℕ := []
  firsts : List UInt64 := []
  reports : List (Option ℕ × WatchReport) := []

namespace WatchSession

/-- A stop with what it has shown. -/
def shown (σ : WatchSession) (report : Option WatchReport) (s' : Sys) : WatchSession :=
  { σ with
    sys := s'
    reports := σ.reports ++ (report.map fun r => (σ.entries[r.index]?, r)).toList }

/-- A step of the session in the state `s`. -/
def step (σ : WatchSession) (s : Sys) : WatchOp → WatchSession
  | .watch expr resolved =>
    let s' := ((cmdWatch expr resolved).run s).2
    match s'.dbg.watchpoints.drop s.dbg.watchpoints.length with
    | [] => { σ with sys := s' }
    | watch :: _ =>
      { σ with
        sys := s'
        entries := σ.entries ++ [σ.firsts.length]
        firsts := σ.firsts ++ [(s.process s.dbg.pid).elim 0 fun p =>
          valueOf (p.mem.read watch.addr watch.size)] }
  | .unwatch k =>
    let r := (deleteWatchpointAt k).run s
    { σ with
      sys := r.2
      entries := if r.1 = 0 then σ.entries.eraseIdx k else σ.entries }
  | .stop =>
    let r := reportStopShown.run s
    σ.shown r.1.2 r.2
  | .line start =>
    let r := (checkStopShown start).run s
    σ.shown r.1.2 r.2

/-- The old and new values that have been shown for a watchpoint. -/
def history (σ : WatchSession) (w : ℕ) : List (UInt64 × UInt64) :=
  (σ.reports.filter (·.1 = some w)).map fun r => (r.2.oldValue, r.2.newValue)

end WatchSession

/-- The state of a step: the table is the one the session has left, and the watched memory can be
read. -/
structure WatchSession.At (σ : WatchSession) (s : Sys) : Prop where
  table : s.dbg.watchpoints = σ.sys.dbg.watchpoints
  reads : s.Reliable .memRead
  wellFormed : ∀ p, s.process s.dbg.pid = some p → p.WellFormed

/-- The sessions whose steps are all `ok`. -/
inductive WatchSession.Reaches (ok : WatchOp → Sys → Prop) : WatchSession → Prop
  | start {s : Sys} (h : s.dbg.watchpoints = []) : Reaches ok { sys := s }
  | step {σ : WatchSession} {s : Sys} (h : Reaches ok σ) (op : WatchOp) (hat : σ.At s)
      (hok : ok op s) : Reaches ok (σ.step s op)

/-- Each change begins with the value the one before has ended with, the first with `value`. -/
def GaplessFrom {α : Type} : α → List (α × α) → Prop
  | _, [] => True
  | value, (old, new) :: rest => old = value ∧ old ≠ new ∧ GaplessFrom new rest

/-- Every report is of a watchpoint, and those of one watchpoint follow on one another. -/
def WatchSession.Gapless (σ : WatchSession) : Prop :=
  (∀ r ∈ σ.reports, ∃ w < σ.firsts.length, r.1 = some w) ∧
    ∀ w first, σ.firsts[w]? = some first → GaplessFrom first (σ.history w)

section Gapless

variable {α : Type} {first old new : α} {rest : List (α × α)}

/-- The value a history ends with. -/
def lastValue (first : α) (changes : List (α × α)) : α := (changes.getLast?.map Prod.snd).getD first

theorem GaplessFrom.concat (h : GaplessFrom first rest) (hold : old = lastValue first rest)
    (hne : old ≠ new) : GaplessFrom first (rest ++ [(old, new)]) := by
  induction rest generalizing first with
  | nil => exact ⟨hold, hne, trivial⟩
  | cons change rest ih =>
    obtain ⟨hfirst, hchange, hrest⟩ := h
    refine ⟨hfirst, hchange, ih hrest ?_⟩
    rw [hold, lastValue, lastValue, List.getLast?_cons]
    cases rest.getLast? <;> rfl

theorem lastValue_concat : lastValue first (rest ++ [(old, new)]) = new := by
  rw [lastValue, List.getLast?_concat]
  rfl

end Gapless

/-! ### The invariant -/

/-- Each entry is for a watchpoint of its own and holds the value last shown for it. -/
structure WatchSession.Linked (σ : WatchSession) : Prop where
  room : σ.sys.dbg.watchpoints.length ≤ wpMaxHw
  length : σ.entries.length = σ.sys.dbg.watchpoints.length
  nodup : σ.entries.Nodup
  set : ∀ w ∈ σ.entries, w < σ.firsts.length
  gapless : σ.Gapless
  last : ∀ (i w : ℕ) (watch : Watchpoint) (first : UInt64), σ.entries[i]? = some w →
    σ.sys.dbg.watchpoints[i]? = some watch → σ.firsts[w]? = some first → watch.oldValue = lastValue first (σ.history w)

namespace WatchSession

variable {σ : WatchSession} {s s' : Sys}

/-- A step that shows nothing and leaves the table as it is. -/
theorem Linked.same (h : σ.Linked) (hwps : s'.dbg.watchpoints = σ.sys.dbg.watchpoints) :
    Linked { σ with sys := s' } where
  room := hwps ▸ h.room
  length := h.length.trans (congrArg List.length hwps.symm)
  nodup := h.nodup
  set := h.set
  gapless := h.gapless
  last := fun i w watch first hi hw => h.last i w watch first hi (hwps ▸ hw)

/-- Nothing has been shown for a watchpoint that is not set yet. -/
theorem Gapless.history_length (h : σ.Gapless) : σ.history σ.firsts.length = [] := by
  rw [history, List.map_eq_nil_iff, List.filter_eq_nil_iff]
  intro r hr hw
  obtain ⟨w, hlt, hr⟩ := h.1 r hr
  rw [decide_eq_true_eq, hr, Option.some_inj] at hw
  omega

/-- Setting a watchpoint. -/
theorem Linked.watch (h : σ.Linked) {watch : Watchpoint} {first : UInt64}
    (hroom : σ.sys.dbg.watchpoints.length < wpMaxHw) (hfirst : watch.oldValue = first)
    (hwps : s'.dbg.watchpoints = σ.sys.dbg.watchpoints ++ [watch]) :
    Linked { σ with
      sys := s'
      entries := σ.entries ++ [σ.firsts.length]
      firsts := σ.firsts ++ [first] } where
  room := by
    rw [hwps, List.length_append]
    exact hroom
  length := by rw [hwps, List.length_append, List.length_append, h.length]; rfl
  nodup := by
    refine List.nodup_append'.mpr ⟨h.nodup, List.nodup_singleton _, ?_⟩
    rw [List.disjoint_singleton]
    exact fun hmem => Nat.lt_irrefl _ (h.set _ hmem)
  set := fun w hw => by
    rw [List.length_append, List.length_singleton]
    rcases List.mem_append.mp hw with hw | hw
    · exact Nat.lt_succ_of_lt (h.set w hw)
    · rw [List.mem_singleton.mp hw]
      exact Nat.lt_succ_self _
  gapless := by
    refine ⟨fun r hr => ?_, fun w value hw => ?_⟩
    · obtain ⟨w, hlt, hr⟩ := h.gapless.1 r hr
      rw [List.length_append]
      exact ⟨w, Nat.lt_of_lt_of_le hlt (Nat.le_add_right _ _), hr⟩
    · rcases Nat.lt_or_ge w σ.firsts.length with hlt | hge
      · rw [List.getElem?_append_left hlt] at hw
        exact h.gapless.2 w value hw
      · have hlen := (List.getElem?_eq_some_iff.mp hw).1
        rw [List.length_append, List.length_singleton] at hlen
        obtain rfl : w = σ.firsts.length := by omega
        change GaplessFrom value (σ.history σ.firsts.length)
        rw [h.gapless.history_length]
        trivial
  last := fun i w entry value hi hentry hw => by
    rw [hwps] at hentry
    change (σ.entries ++ [σ.firsts.length])[i]? = some w at hi
    change (σ.firsts ++ [first])[w]? = some value at hw
    change entry.oldValue = lastValue value (σ.history w)
    rcases Nat.lt_or_ge i σ.entries.length with hlt | hge
    · rw [List.getElem?_append_left hlt] at hi
      rw [List.getElem?_append_left (h.length ▸ hlt)] at hentry
      rw [List.getElem?_append_left (h.set w (List.mem_of_getElem? hi))] at hw
      exact h.last i w entry value hi hentry hw
    · rw [List.getElem?_append_right hge, List.getElem?_singleton] at hi
      rw [List.getElem?_append_right (h.length ▸ hge), ← h.length,
        List.getElem?_singleton] at hentry
      split at hi
      · next hzero =>
        obtain rfl := Option.some.inj hi
        rw [if_pos hzero] at hentry
        obtain rfl := Option.some.inj hentry
        rw [List.getElem?_concat_length, Option.some_inj] at hw
        rw [h.gapless.history_length, hfirst, hw]
        rfl
      · exact absurd hi (by simp)

/-- Deleting an entry moves the ones behind it, each with its watchpoint. -/
theorem Linked.unwatch (h : σ.Linked) {k : ℕ} (hk : k < σ.sys.dbg.watchpoints.length)
    (hwps : s'.dbg.watchpoints = σ.sys.dbg.watchpoints.eraseIdx k) :
    Linked { σ with
      sys := s'
      entries := σ.entries.eraseIdx k } where
  room := by
    rw [hwps]
    exact Nat.le_trans (List.length_eraseIdx_le _ _) h.room
  length := by
    rw [hwps, List.length_eraseIdx_of_lt hk, List.length_eraseIdx_of_lt (h.length ▸ hk), h.length]
  nodup := h.nodup.sublist (List.eraseIdx_sublist _ _)
  set := fun w hw => h.set w (List.mem_of_mem_eraseIdx hw)
  gapless := h.gapless
  last := fun i w watch first hi hwatch hw => by
    rw [hwps, List.getElem?_eraseIdx] at hwatch
    change (σ.entries.eraseIdx k)[i]? = some w at hi
    rw [List.getElem?_eraseIdx] at hi
    split at hi
    · next hlt =>
      rw [if_pos hlt] at hwatch
      exact h.last i w watch first hi hwatch hw
    · next hge =>
      rw [if_neg hge] at hwatch
      exact h.last (i + 1) w watch first hi hwatch hw

/-- A report is one more change of its watchpoint. -/
theorem history_shown {report : WatchReport} {w : ℕ} (hw : σ.entries[report.index]? = some w)
    (v : ℕ) : (σ.shown (some report) s').history v =
      if v = w then σ.history v ++ [(report.oldValue, report.newValue)] else σ.history v := by
  rw [history, WatchSession.shown, Option.map_some, Option.toList_some, hw, List.filter_append,
    List.map_append, ← history]
  split
  · next h => rw [h, List.filter_cons_of_pos (by simp), List.filter_nil]; rfl
  · next h =>
    rw [List.filter_cons_of_neg (by simpa using fun hw => h hw.symm), List.filter_nil,
      List.map_nil, List.append_nil]

/-- A stop. -/
theorem Linked.shown (h : σ.Linked) {report : Option WatchReport}
    (hwps : s.dbg.watchpoints = σ.sys.dbg.watchpoints) (hr : Reported s report s') :
    (σ.shown report s').Linked := by
  cases report with
  | none =>
    have hsame : σ.shown none s' = { σ with sys := s' } := by
      rw [WatchSession.shown, Option.map_none, Option.toList_none, List.append_nil]
    rw [hsame]
    exact h.same (Eq.trans hr hwps)
  | some report =>
    obtain ⟨watch, hget, hold, hne, hset⟩ := hr
    rw [hwps] at hget hset
    have hi := (List.getElem?_eq_some_iff.mp hget).1
    obtain ⟨w, hw⟩ : ∃ w, σ.entries[report.index]? = some w :=
      ⟨_, List.getElem?_eq_getElem (h.length ▸ hi)⟩
    refine ⟨?_, ?_, h.nodup, h.set, ⟨fun r hr => ?_, fun v first hv => ?_⟩,
      fun i v entry first hiv hentry hv => ?_⟩
    · change s'.dbg.watchpoints.length ≤ _
      rw [hset, List.length_set]
      exact h.room
    · change σ.entries.length = s'.dbg.watchpoints.length
      rw [hset, List.length_set, h.length]
    · rcases List.mem_append.mp hr with hr | hr
      · exact h.gapless.1 r hr
      · rw [Option.map_some, Option.toList_some, List.mem_singleton] at hr
        exact ⟨w, h.set w (List.mem_of_getElem? hw), by rw [hr, hw]⟩
    · rw [history_shown hw]
      have hgap := h.gapless.2 v first hv
      split
      · next hvw =>
        refine hgap.concat ?_ hne
        rw [hold]
        exact h.last report.index v watch first (hvw ▸ hw) hget hv
      · exact hgap
    · change s'.dbg.watchpoints[i]? = some entry at hentry
      change σ.entries[i]? = some v at hiv
      rw [hset, List.getElem?_set] at hentry
      rw [history_shown hw]
      split at hentry
      · next heq =>
        subst heq
        obtain rfl := Option.some.inj hentry
        rw [if_pos (Option.some.inj (hiv.symm.trans hw)), lastValue_concat]
      · next hindex =>
        have hvw : v ≠ w := by
          rintro rfl
          obtain ⟨hlt, hget'⟩ := List.getElem?_eq_some_iff.mp hw
          obtain ⟨hlt', hgetv⟩ := List.getElem?_eq_some_iff.mp hiv
          exact hindex ((h.nodup.getElem_inj_iff).mp (hget'.trans hgetv.symm))
        rw [if_neg hvw]
        exact h.last i v entry first hiv hentry hv

/-- What a step asks of the state for the reports to stay without a gap. -/
def Stays : WatchOp → Sys → Prop
  | .unwatch k, s => UnwatchStays s k
  | _, _ => True

/-- One step. -/
theorem Linked.step (h : σ.Linked) {op : WatchOp} (hat : σ.At s) (hok : Stays op s) :
    (σ.step s op).Linked := by
  obtain ⟨hwps, hreads, hwf⟩ := hat
  cases op with
  | watch expr resolved =>
    have htable := wp_cmdWatch_table hwf hreads expr resolved
    rw [wp] at htable
    rw [WatchSession.step]
    rcases htable with hsame | ⟨watch, p, hroom, hp, hold, hadd⟩
    · rw [hsame, List.drop_length]
      exact h.same (hsame.trans hwps)
    · rw [hadd, List.drop_left, hp]
      rw [hwps] at hroom hadd
      exact h.watch hroom hold hadd
  | unwatch k =>
    have htable := wp_deleteWatchpointAt_table hwf (hwps ▸ h.room) hok
    rw [wp] at htable
    rw [WatchSession.step]
    split at htable
    · next hrc =>
      rw [if_pos hrc]
      rw [hwps] at htable
      exact h.unwatch htable.1 htable.2
    · next hrc =>
      rw [if_neg hrc]
      exact h.same (htable.trans hwps)
  | stop => exact h.shown hwps (wp_reportStopShown hreads)
  | line start => exact h.shown hwps (wp_checkStopShown hreads start)

/-- A session starts without watchpoints. -/
theorem Linked.start (h : s.dbg.watchpoints = []) : Linked { sys := s } where
  room := by rw [h]; exact Nat.zero_le _
  length := congrArg List.length h.symm
  nodup := List.nodup_nil
  set := fun _ h => absurd h List.not_mem_nil
  gapless := ⟨fun _ h => absurd h List.not_mem_nil, fun _ _ h => absurd h (by simp)⟩
  last := fun _ _ _ _ h => absurd h (by simp)

theorem Reaches.linked (h : Reaches Stays σ) : σ.Linked := by
  induction h with
  | start h => exact .start h
  | step _ op hat hok ih => exact ih.step hat hok

end WatchSession

/-- The reports of a session in which no deletion breaks off amid entries that differ. -/
theorem watch_history_gapless {σ : WatchSession} (h : WatchSession.Reaches WatchSession.Stays σ) :
    σ.Gapless := h.linked.gapless

namespace WatchSession

variable {σ : WatchSession} {s : Sys}

/-- The debuggee before and after a command that does not let it run. -/
theorem wellFormed_of_progress {s' : Sys} (hv : s'.progress = s.progress)
    (hwf : ∀ p, s.process s.dbg.pid = some p → p.WellFormed) (p' : Process)
    (hp' : s'.process s'.dbg.pid = some p') : p'.WellFormed := by
  have hids : s'.os.proc.map Process.ids = s.os.proc.map Process.ids := congrArg Progress.ids hv
  obtain ⟨hproc', hpid'⟩ := Sys.process_eq_some.mp hp'
  rw [hproc', Option.map_some] at hids
  obtain ⟨p, hproc, heq⟩ := Option.map_eq_some_iff.mp hids.symm
  have hpid : p.pid = s.dbg.pid := (congrArg Prod.fst heq).trans
    (hpid'.trans (congrArg Progress.pid hv))
  exact Process.wellFormed_of_tids (congrArg (·.2.2) heq).symm (congrArg (·.2.1) heq).symm
    (hwf p (Sys.process_eq_some.mpr ⟨hproc, hpid⟩))

/-- `unwatch` is a run of steps. -/
theorem Reaches.cmdUnwatch (h : Reaches (fun _ _ => True) σ) (hat : σ.At s)
    (args : Option CStr) : ∃ σ', Reaches (fun _ _ => True) σ' ∧ σ'.reports = σ.reports ∧
      σ'.sys.dbg.watchpoints = ((Debugger.cmdUnwatch args).run s).2.dbg.watchpoints := by
  have hdelete (order : List ℕ) : ∀ {σ : WatchSession} {s : Sys}, Reaches (fun _ _ => True) σ →
      σ.At s → wp (forUntil deleteWatchpointAt order) (fun _ s' => ∃ σ',
        Reaches (fun _ _ => True) σ' ∧ σ'.reports = σ.reports ∧
          σ'.sys.dbg.watchpoints = s'.dbg.watchpoints) s := by
    induction order with
    | nil => exact fun {σ s} h hat => ⟨σ, h, rfl, hat.table.symm⟩
    | cons k order ih =>
      intro σ s h hat
      have hkeeps : ((deleteWatchpointAt k).run s).2.progress = s.progress :=
        deleteWatchpointAt_progress k s
      have hfault : ((deleteWatchpointAt k).run s).2.os.fault = s.os.fault :=
        congrArg Progress.fault hkeeps
      have hstep := h.step (.unwatch k) hat trivial
      have hat' : (σ.step s (.unwatch k)).At ((deleteWatchpointAt k).run s).2 :=
        ⟨rfl, fun n => hfault ▸ hat.reads n, wellFormed_of_progress hkeeps hat.wellFormed⟩
      rw [forUntil, wp_bind, wp, wp_ite]
      exact ⟨fun _ => ⟨_, hstep, rfl, rfl⟩, fun _ => @ih (σ.step s (.unwatch k)) _ hstep hat'⟩
  have hrun : wp (Debugger.cmdUnwatch args) (fun _ s' => ∃ σ', Reaches (fun _ _ => True) σ' ∧
      σ'.reports = σ.reports ∧ σ'.sys.dbg.watchpoints = s'.dbg.watchpoints) s := by
    have hstay : ∃ σ', Reaches (fun _ _ => True) σ' ∧ σ'.reports = σ.reports ∧
      σ'.sys.dbg.watchpoints = s.dbg.watchpoints := ⟨σ, h, rfl, hat.table.symm⟩
    rw [Debugger.cmdUnwatch, wp_bind, wp_get, wp_ite]
    refine ⟨fun _ => hstay, fun _ => ?_⟩
    split
    · exact hstay
    · exact hstay
    · split
      · exact hstay
      · exact hdelete _ h hat
  exact hrun

end WatchSession

/-- A debuggee whose memory holds the given values at 0x3000 and 0x3001, in a session. -/
def WatchSession.memory (σ : WatchSession) (y x : UInt8)
    (fault : KCall → ℕ → Bool) : Sys :=
  let p := { twoThreads with
    mem := Function.update (Function.update twoThreads.mem 0x3000 y) 0x3001 x }
  let s := Sys.attached .x86_64 p fun _ => .exited 0
  { s with
    dbg := { s.dbg with watchpoints := σ.sys.dbg.watchpoints }
    os := { s.os with fault := fault } }

/-- A step there. -/
theorem WatchSession.Reaches.onMemory {ok : WatchOp → Sys → Prop} {σ : WatchSession}
    (h : WatchSession.Reaches ok σ) (op : WatchOp) (y x : UInt8) (fault : KCall → ℕ → Bool)
    (hfault : ∀ n, fault .memRead n = false) (hok : ok op (σ.memory y x fault)) :
    WatchSession.Reaches ok (σ.step (σ.memory y x fault) op) := by
  refine h.step op ⟨rfl, hfault, fun p hp => ?_⟩ hok
  obtain rfl := Option.some.inj hp
  exact ⟨twoThreads_wellFormed.1, twoThreads_wellFormed.2, twoThreads_wellFormed.3⟩

/-- A session in which nothing has happened yet. -/
def freshSession : WatchSession where
  sys := Sys.attached .x86_64 twoThreads fun _ => .exited 0

/-- Watchpoint 0 is set. -/
def oneWatched : WatchSession :=
  freshSession.step (freshSession.memory 1 2 fun _ _ => false)
    (.watch (some "y".toList) (some (0x3000, 1)))

theorem oneWatched_reaches {ok : WatchOp → Sys → Prop} (hok : ∀ expr resolved s,
    ok (.watch expr resolved) s) : WatchSession.Reaches ok oneWatched :=
  (WatchSession.Reaches.start rfl).onMemory _ 1 2 _ (fun _ => rfl) (hok _ _ _)

/-- Watchpoint 1 is set, too. -/
def bothWatched : WatchSession :=
  oneWatched.step (oneWatched.memory 1 2 fun _ _ => false)
    (.watch (some "x".toList) (some (0x3001, 1)))

theorem bothWatched_reaches {ok : WatchOp → Sys → Prop} (hok : ∀ expr resolved s,
    ok (.watch expr resolved) s) : WatchSession.Reaches ok bothWatched :=
  (oneWatched_reaches hok).onMemory _ 1 2 _ (fun _ => rfl) (hok _ _ _)

/-- Its first memory has changed, and watchpoint 0 is deleted. -/
def firstDeleted : WatchSession :=
  let σ := bothWatched.step (bothWatched.memory 3 2 fun _ _ => false) .stop
  σ.step (σ.memory 3 2 fun _ _ => false) (.unwatch 0)

/-- The other one is shown as number 0 from then on, and goes on from where it was. -/
theorem watch_history_gapless_firstDeleted :
    let σ₁ := firstDeleted.step (firstDeleted.memory 3 4 fun _ _ => false) .stop
    let σ := σ₁.step (σ₁.memory 3 5 fun _ _ => false) .stop
    σ.reports = [(some 0, ⟨0, 1, 3⟩), (some 1, ⟨0, 2, 4⟩), (some 1, ⟨0, 4, 5⟩)] ∧ σ.Gapless := by
  intro σ₁ σ
  refine ⟨by decide +kernel, watch_history_gapless ?_⟩
  have hboth : WatchSession.Reaches WatchSession.Stays bothWatched :=
    bothWatched_reaches fun _ _ _ => trivial
  have hshown := hboth.onMemory .stop 3 2 (fun _ _ => false) (fun _ => rfl) trivial
  have hdeleted : WatchSession.Reaches WatchSession.Stays firstDeleted := by
    refine hshown.onMemory (.unwatch 0) 3 2 (fun _ _ => false) (fun _ => rfl) ?_
    let s := (bothWatched.step (bothWatched.memory 3 2 fun _ _ => false) .stop).memory 3 2
      fun _ _ => false
    -- no call fails, so the deletion does not break off
    have hnone : reinstallFails s.os.fault s.os.arch [1, 2]
        (behind s.os.fault s.os.calls.count [1, 2]) (s.dbg.watchpoints.drop 1) = none := by
      decide +kernel
    intro p _ _ hp _ j c hfails
    obtain rfl := Option.some.inj hp
    exact absurd (hnone.symm.trans hfails) (by simp)
  exact (hdeleted.onMemory .stop 3 4 _ (fun _ => rfl) trivial).onMemory .stop 3 5 _ (fun _ => rfl)
    trivial

/-- The deletion of the first breaks off when it installs the second again. -/
def brokenOff : WatchSession :=
  bothWatched.step (bothWatched.memory 1 2 fun c n => c = .taskThreads && n ≠ 0) (.unwatch 0)

/-- Then the memory of the second changes, and it is shown as watchpoint 0. -/
theorem watch_history_not_gapless :
    ¬ ∀ σ, WatchSession.Reaches (fun _ _ => True) σ → σ.Gapless := by
  intro h
  have hboth : WatchSession.Reaches (fun _ _ => True) bothWatched :=
    bothWatched_reaches fun _ _ _ => trivial
  have hbroken : WatchSession.Reaches (fun _ _ => True) brokenOff :=
    hboth.onMemory (.unwatch 0) 1 2 _ (fun _ => rfl) trivial
  have hstop := hbroken.onMemory .stop 1 4 (fun _ _ => false) (fun _ => rfl) trivial
  have hfirst : (brokenOff.step (brokenOff.memory 1 4 fun _ _ => false) .stop).firsts[0]? =
      some 1 := by
    decide +kernel
  have hhistory : (brokenOff.step (brokenOff.memory 1 4 fun _ _ => false) .stop).history 0 =
      [(2, 4)] := by
    decide +kernel
  have hgap := (h _ hstop).2 0 1 hfirst
  rw [hhistory] at hgap
  exact absurd hgap.1 (by decide)

end Debugger
