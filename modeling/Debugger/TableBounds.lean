/-
The tables of the debugger stay within their arrays.

The C tables are arrays of a fixed size with a count beside them.  `Tables.Bounded` says
that the counts are within the arrays, that every text fits its buffer, that every
watchpoint is one the hardware accepts, and that `unlock` resumes neither more threads
than `lock` has stored nor the locked thread.

The commands that edit a table are taken one by one (`KeepsBounds`); `Reaches.tables_bounded`
puts them together: the bounds hold at every prompt, from the one `main` starts the REPL at,
in any order of commands, with any failures of kernel calls and any debuggee.
-/
import Debugger.Edits
import Debugger.Tables

open Prog

namespace Debugger

/-- The tables are within their arrays. -/
structure Tables.Bounded (t : Tables) : Prop where
  breakpoints : t.breakpoints.length ≤ maxBreakpoints
  specs : ∀ bp ∈ t.breakpoints, bp.spec.length < specSize
  watchpoints : t.watched.length ≤ wpMaxHw
  accepted : ∀ slot ∈ t.watched, hwAccepts t.arch slot.addr slot.size = true
  suspendedTids : t.suspendedTids.length ≤ maxThreads
  suspended : t.suspendedTidCount ≤ t.suspendedTids.length
  unlocked : t.threadLockActive = false → t.suspendedTidCount = 0
  locked : t.threadLockActive = true → t.lockedTid ∉ t.suspendedTids.take t.suspendedTidCount
  executablePath : t.executablePath.length < maxPath
  runArgv : t.runArgv.length ≤ maxRunArgs
  runTexts : ∀ arg ∈ t.runArgv, arg.length < maxPath

/-! ### Keeping the bounds -/

/-- Running `m` keeps the tables within their arrays. -/
abbrev KeepsBounds {α : Type} (m : DbgM α) : Prop :=
  Obeys (Carries fun s : Sys => s.tables.Bounded) m

theorem keepsBounds_of_tables {α : Type} {m : DbgM α} (h : Keeps Sys.tables m) :
    KeepsBounds m := h.obeys fun s s' hv hs => by
  show s'.tables.Bounded
  rw [hv]
  exact hs

/-! ### Editing the breakpoints -/

section Breakpoints

variable {t : Tables}

/-- The breakpoints are replaced by others within the array. -/
theorem Tables.Bounded.withBreakpoints (h : t.Bounded) {bps : List Breakpoint}
    (hlen : bps.length ≤ maxBreakpoints) (hspecs : ∀ bp ∈ bps, bp.spec.length < specSize) :
    { t with breakpoints := bps }.Bounded :=
  { h with breakpoints := hlen, specs := hspecs }

theorem cmdBreak_bounds (target : CStr) : KeepsBounds (cmdBreak target) := by
  refine obeys_carries_iff.mpr fun s hs => ?_
  rw [cmdBreak, wp_bind, wp_get]
  dsimp only
  split
  · exact hs
  next addr _ =>
    rw [wp_ite]
    refine ⟨fun _ => hs, fun hroom => ?_⟩
    rw [wp_bind]
    refine wp_mono (cdbgBpEnable_keeps {} addr) fun r s₁ h₁ => ?_
    obtain ⟨hd, hv, -⟩ := h₁
    have hs₁ : s₁.tables = s.tables :=
      Sys.tables_of_sansReports (Sys.sansReports_of_sansPatches hv)
    obtain ⟨rc, bp⟩ := r
    show wp (if rc ≠ 0 then _ else _) _ _
    rw [wp_ite]
    refine ⟨fun _ => by rw [wp_pure, hs₁]; exact hs, fun _ => ?_⟩
    rw [wp_bind, wp_setBreakpoints]
    have hnew : (s₁.withDbg { s₁.dbg with breakpoints := s.dbg.breakpoints ++
        [{ bp with spec := snprintf specSize target }] }).tables =
        { s.tables with breakpoints := s.tables.breakpoints ++
          [{ bp with spec := snprintf specSize target }.place] } := by
      rw [← hs₁]
      simp only [Sys.tables, Sys.withDbg, List.map_append, List.map_cons, List.map_nil, hd]
    rw [wp_pure, hnew]
    refine hs.withBreakpoints ?_ fun entry hentry => ?_
    · rw [List.length_append, Sys.tables, List.length_map]
      exact Nat.lt_of_not_ge hroom
    · rcases List.mem_append.mp hentry with hentry | hentry
      · exact hs.specs entry hentry
      · rw [List.mem_singleton.mp hentry]
        exact length_snprintf_lt (by decide) target

theorem deleteBreakpointAt_bounds (index : ℕ) : KeepsBounds (deleteBreakpointAt index) := by
  refine obeys_carries_iff.mpr fun s hs => ?_
  rw [deleteBreakpointAt, wp_bind, wp_get]
  dsimp only
  split
  · exact hs
  next bp _ =>
    have hdisable : wp (disableIfLive s.dbg bp) (fun _ s' => s'.dbg = s.dbg ∧
        s'.tables = s.tables) s := by
      rw [disableIfLive, wp_ite]
      refine ⟨fun _ => wp_mono (cdbgBpDisable_keeps bp) fun _ s' h => ⟨h.1, ?_⟩,
        fun _ => ⟨rfl, rfl⟩⟩
      exact Sys.tables_of_sansReports (Sys.sansReports_of_sansPatches h.2.1)
    rw [wp_bind]
    refine wp_mono hdisable fun r s₁ h₁ => ?_
    obtain ⟨hd, hs₁⟩ := h₁
    obtain ⟨rc, bp'⟩ := r
    show wp (if rc ≠ 0 then _ else _) _ _
    rw [wp_ite]
    refine ⟨fun _ => by rw [wp_pure, hs₁]; exact hs, fun _ => ?_⟩
    rw [wp_bind, wp_setBreakpoints]
    have hnew : (s₁.withDbg { s₁.dbg with
        breakpoints := s.dbg.breakpoints.eraseIdx index }).tables =
        { s.tables with breakpoints := s.tables.breakpoints.eraseIdx index } := by
      rw [← hs₁]
      simp only [Sys.tables, Sys.withDbg, List.eraseIdx_map, hd]
    rw [wp_pure, hnew]
    refine hs.withBreakpoints (Nat.le_trans (List.length_eraseIdx_le ..) hs.breakpoints) ?_
    exact fun entry hentry => hs.specs entry (List.mem_of_mem_eraseIdx hentry)

theorem cmdDel_bounds (args : Option CStr) : KeepsBounds (cmdDel args) :=
  obeys_cmdDel deleteBreakpointAt_bounds args

end Breakpoints

/-! ### Editing the watchpoints -/

section Watchpoints

variable {t : Tables} {s : Sys}

/-- The watchpoints are replaced by others within the array. -/
theorem Tables.Bounded.withWatched (h : t.Bounded) {slots : List HwSlot}
    (hlen : slots.length ≤ wpMaxHw)
    (hslots : ∀ slot ∈ slots, hwAccepts t.arch slot.addr slot.size = true) :
    { t with watched := slots }.Bounded :=
  { h with watchpoints := hlen, accepted := hslots }

/-- The entries stay among those of a table within its array. -/
theorem Sys.bounded_withWatchpoints (h : s.tables.Bounded) {wps : List Watchpoint}
    (hlen : wps.length ≤ s.dbg.watchpoints.length) (hmem : ∀ w ∈ wps, w ∈ s.dbg.watchpoints) :
    (s.withDbg { s.dbg with watchpoints := wps }).tables.Bounded := by
  have hwatched := h.watchpoints
  rw [Sys.tables, List.length_map] at hwatched
  have hslots : (wps.map Watchpoint.slot).length ≤ wpMaxHw := by
    rw [List.length_map]
    exact Nat.le_trans hlen hwatched
  refine h.withWatched hslots fun slot hslot => ?_
  obtain ⟨w, hw, rfl⟩ := List.mem_map.mp hslot
  exact h.accepted _ (List.mem_map_of_mem (hmem w hw))

/-- One more watchpoint, as long as there is room for it. -/
theorem Sys.bounded_addWatchpoint (h : s.tables.Bounded)
    (hroom : s.dbg.watchpoints.length < wpMaxHw) {w : Watchpoint}
    (hw : hwAccepts s.os.arch w.slot.addr w.slot.size = true) :
    (s.withDbg { s.dbg with watchpoints := s.dbg.watchpoints ++ [w] }).tables.Bounded := by
  have hslots : ((s.dbg.watchpoints ++ [w]).map Watchpoint.slot).length ≤ wpMaxHw := by
    rw [List.length_map, List.length_append]
    exact hroom
  refine h.withWatched hslots fun slot hslot => ?_
  obtain ⟨w', hmem, rfl⟩ := List.mem_map.mp hslot
  rcases List.mem_append.mp hmem with hmem | hmem
  · exact h.accepted _ (List.mem_map_of_mem hmem)
  · rw [List.mem_singleton.mp hmem]
    exact hw

/-- What is installed is accepted by the hardware. -/
theorem tryInstall_accepted {pid slot : ℕ} {addr : Addr} {mode : WpMode} {sizes : List ℕ} :
    wp (tryInstall pid slot addr mode sizes) (fun r s' => s'.dbg = s.dbg ∧
      s'.tables = s.tables ∧ ∀ size, r = some size → hwAccepts s.os.arch addr size = true) s := by
  induction sizes generalizing s with
  | nil => exact ⟨rfl, rfl, fun _ h => absurd h (Option.some_ne_none _).symm⟩
  | cons size sizes ih =>
    have hinstall : wp (cdbgWpHwInstall pid slot addr size mode) (fun rc _ => rc = 0 →
        hwAccepts s.os.arch addr size = true) s := by
      rw [cdbgWpHwInstall]
      split
      · rw [wp_bind, wp_get, wp_ite]
        refine ⟨fun _ h => absurd h neg_one_ne, fun hacc => wp_any fun _ _ _ => ?_⟩
        simpa using hacc
      · exact fun h => absurd h neg_one_ne
    have hkeeps := (cdbgWpHwInstall_keeps pid slot addr size mode).wp_and hinstall
    rw [tryInstall, wp_bind]
    refine wp_mono hkeeps fun rc s₁ h₁ => ?_
    obtain ⟨hacc, hv⟩ := h₁
    have hd : s₁.dbg = s.dbg := congrArg (·.dbg) hv
    have harch : s₁.os.arch = s.os.arch := congrArg (·.os.arch) hv
    have htables := Sys.tables_of_sansProc hv
    rw [wp_ite]
    refine ⟨fun hrc => ⟨hd, htables, fun size' h => ?_⟩, fun _ => ?_⟩
    · obtain rfl := Option.some.inj h
      exact hacc hrc
    · refine wp_mono (ih (s := s₁)) fun r s₂ h₂ => ?_
      rw [hd, harch, htables] at h₂
      exact h₂

theorem cmdWatch_bounds (expr : Option CStr) (resolved : Option (Addr × ℕ)) :
    KeepsBounds (cmdWatch expr resolved) := by
  refine obeys_carries_iff.mpr fun s hs => ?_
  rw [cmdWatch, wp_bind, wp_get, wp_ite]
  refine ⟨fun _ => hs, fun _ => ?_⟩
  dsimp only
  split
  · exact hs
  · exact hs
  split
  · exact hs
  rw [wp_ite]
  refine ⟨fun _ => hs, fun _ => ?_⟩
  rw [wp_ite]
  refine ⟨fun _ => hs, fun hroom => ?_⟩
  rw [wp_bind]
  refine wp_mono (cdbgRefreshRegs_keeps s) fun rc s₁ h₁ => ?_
  have hs₁ : s₁.tables = s.tables :=
    Sys.tables_of_sansReports (Sys.sansReports_of_sansPatches h₁)
  have hwps : s₁.dbg.watchpoints = s.dbg.watchpoints := congrArg (·.dbg.watchpoints) h₁
  rw [wp_ite]
  refine ⟨fun _ => by rw [wp_pure, hs₁]; exact hs, fun _ => ?_⟩
  cases resolved with
  | none =>
    rw [wp_pure, hs₁]
    exact hs
  | some found =>
    dsimp only
    rw [wp_bind]
    refine wp_mono tryInstall_accepted fun r s₂ h₂ => ?_
    obtain ⟨hd₂, hs₂, hacc⟩ := h₂
    rw [hs₁] at hs₂
    cases r with
    | none =>
      rw [wp_pure, hs₂]
      exact hs
    | some hwSize =>
      dsimp only
      rw [wp_bind]
      refine wp_mono ((cdbgMemRead_keeps _ _ _) s₂) fun old s₃ h₃ => ?_
      have hd₃ : s₃.dbg = s₁.dbg := (congrArg (·.dbg) h₃).trans hd₂
      have hs₃ := (Sys.tables_of_quiet (Sys.quiet_iff_sansCalls.mpr h₃)).trans hs₂
      rw [wp_bind, wp_setWatchpoints, wp_pure]
      have hwps₃ : s.dbg.watchpoints = s₃.dbg.watchpoints := by rw [hd₃, hwps]
      have harch : s₃.os.arch = s₁.os.arch :=
        (congrArg Tables.arch hs₃).trans (congrArg Tables.arch hs₁).symm
      rw [hwps₃] at hroom ⊢
      have hbounded : s₃.tables.Bounded := by
        rw [hs₃]
        exact hs
      refine Sys.bounded_addWatchpoint hbounded (Nat.lt_of_not_ge hroom) ?_
      rw [harch]
      exact hacc hwSize rfl

/-- One round of the loop in `delete_watchpoint_at` copies an entry within the table. -/
theorem shiftWatchpoint_bounds {i : ℕ} (hi : i < s.dbg.watchpoints.length)
    (hs : s.tables.Bounded) : wp (shiftWatchpoint i) (fun _ s' => s'.tables.Bounded ∧
      s'.dbg.watchpoints.length = s.dbg.watchpoints.length) s := by
  have hget : s.dbg.watchpoints.getD i {} ∈ s.dbg.watchpoints := by
    rw [List.getD_eq_getElem?_getD, List.getElem?_eq_getElem hi]
    exact List.getElem_mem hi
  rw [shiftWatchpoint, wp_bind, wp_get]
  dsimp only
  rw [wp_bind, wp_setWatchpoints]
  have hmem : ∀ w ∈ s.dbg.watchpoints.set (i - 1) (s.dbg.watchpoints.getD i {}),
      w ∈ s.dbg.watchpoints := fun w hw => by
    rcases List.mem_or_eq_of_mem_set hw with hw | rfl
    · exact hw
    · exact hget
  have hset := Sys.bounded_withWatchpoints hs (Nat.le_of_eq (List.length_set ..)) hmem
  have hlen : (s.dbg.watchpoints.set (i - 1) (s.dbg.watchpoints.getD i {})).length =
      s.dbg.watchpoints.length := List.length_set ..
  rw [wp_ite]
  refine ⟨fun _ => ?_, fun _ => ⟨hset, hlen⟩⟩
  rw [wp_bind]
  refine wp_mono (cdbgWpHwInstall_keeps _ _ _ _ _ _) fun rc s₁ h₁ => ?_
  have hd : s₁.dbg.watchpoints.length = s.dbg.watchpoints.length := by
    rw [show s₁.dbg = _ from congrArg (·.dbg) h₁]
    exact hlen
  have hs₁ : s₁.tables.Bounded := by
    rw [Sys.tables_of_sansProc h₁]
    exact hset
  rw [wp_ite]
  exact ⟨fun _ => ⟨hs₁, hd⟩, fun _ => ⟨hs₁, hd⟩⟩

theorem deleteWatchpointAt_bounds (index : ℕ) : KeepsBounds (deleteWatchpointAt index) := by
  refine obeys_carries_iff.mpr fun s hs => ?_
  rw [deleteWatchpointAt, wp_bind, wp_get]
  dsimp only
  rw [wp_ite]
  refine ⟨fun _ => hs, fun _ => ?_⟩
  have hclear : wp (uninstallIfLive s.dbg index) (fun _ s' => s'.tables.Bounded ∧
      s'.dbg.watchpoints.length = s.dbg.watchpoints.length) s := by
    rw [uninstallIfLive, wp_ite]
    refine ⟨fun _ => wp_mono (cdbgWpHwUninstall_keeps _ _ s) fun _ s' h => ?_, fun _ => ⟨hs, rfl⟩⟩
    rw [Sys.tables_of_sansProc h, show s'.dbg = s.dbg from congrArg (·.dbg) h]
    exact ⟨hs, rfl⟩
  rw [wp_bind]
  refine wp_mono hclear fun rc s₁ h₁ => ?_
  rw [wp_ite]
  refine ⟨fun _ => h₁.1, fun _ => ?_⟩
  -- every index of the loop is below the count
  have hround : ∀ i is s', (∀ j ∈ i :: is, j < s.dbg.watchpoints.length) ∧ s'.tables.Bounded ∧
      s'.dbg.watchpoints.length = s.dbg.watchpoints.length →
      wp (shiftWatchpoint i) (fun rc s'' => (rc = 0 → (∀ j ∈ is, j < s.dbg.watchpoints.length) ∧
        s''.tables.Bounded ∧ s''.dbg.watchpoints.length = s.dbg.watchpoints.length) ∧
          (rc ≠ 0 → s''.tables.Bounded)) s' := by
    rintro i is s' ⟨his, hs', hlen⟩
    obtain ⟨hi, his⟩ := List.forall_mem_cons.mp his
    refine wp_mono (shiftWatchpoint_bounds (hlen ▸ hi) hs') fun rc s'' h'' => ?_
    exact ⟨fun _ => ⟨his, h''.1, h''.2.trans hlen⟩, fun _ => h''.1⟩
  have hrange : ∀ i ∈ List.range' (index + 1) (s.dbg.watchpoints.length - (index + 1)),
      i < s.dbg.watchpoints.length := fun i hi => by
    have hbounds := List.mem_range'_1.mp hi
    omega
  have hloop := wp_forUntil (I := fun is (s' : Sys) =>
    (∀ j ∈ is, j < s.dbg.watchpoints.length) ∧ s'.tables.Bounded ∧
      s'.dbg.watchpoints.length = s.dbg.watchpoints.length)
    (E := fun _ s' => s'.tables.Bounded) hround ⟨hrange, h₁⟩
  rw [wp_bind]
  refine wp_mono hloop fun rc s₂ h₂ => ?_
  rw [wp_ite]
  refine ⟨fun hrc => h₂.2 hrc, fun hrc => ?_⟩
  obtain ⟨-, hs₂, -⟩ := h₂.1 (not_not.mp hrc)
  rw [wp_bind, wp_get, wp_bind, wp_setWatchpoints, wp_pure]
  refine Sys.bounded_withWatchpoints hs₂ ?_ fun w hw => List.mem_of_mem_dropLast hw
  rw [List.length_dropLast]
  exact Nat.sub_le _ _

theorem cmdUnwatch_bounds (args : Option CStr) : KeepsBounds (cmdUnwatch args) :=
  obeys_cmdUnwatch deleteWatchpointAt_bounds args

end Watchpoints

/-! ### Locking a thread -/

section Locks

variable {s : Sys}

/-- The list of held threads is changed while no lock is active. -/
theorem Tables.Bounded.withSuspended {t : Tables} (h : t.Bounded) {tids : List UInt64}
    (hidle : t.threadLockActive = false) (hlen : tids.length ≤ maxThreads) :
    { t with suspendedTids := tids }.Bounded :=
  { h with
    suspendedTids := hlen
    suspended := by
      rw [h.unlocked hidle]
      exact Nat.zero_le _
    locked := fun hactive => absurd (hidle.symm.trans hactive) Bool.false_ne_true }

/-- A thread that is not held back is locked. -/
theorem Tables.Bounded.lock {t : Tables} (h : t.Bounded) {tid : UInt64} {tids : List UInt64}
    {n : ℕ} (hlen : tids.length ≤ maxThreads) (hn : n ≤ tids.length) (hnot : tid ∉ tids.take n) :
    { t with
      threadLockActive := true, lockedTid := tid, suspendedTids := tids,
      suspendedTidCount := n }.Bounded :=
  { h with
    suspendedTids := hlen
    suspended := hn
    unlocked := fun hidle => absurd hidle.symm Bool.false_ne_true
    locked := fun _ => hnot }

/-- The loop of `cmd_lock` stores the threads it suspends, the locked one never. -/
theorem lockLoop_suspended {pid : ℕ} {target : UInt64} : ∀ {infos : List ThreadInfo} {n : ℕ}
    {s : Sys}, n + infos.length ≤ maxThreads → n ≤ s.dbg.suspendedTids.length →
    s.dbg.suspendedTids.length ≤ maxThreads → target ∉ s.dbg.suspendedTids.take n →
    wp (lockLoop pid target infos n) (fun r s' => ∃ tids,
      s'.tables = { s.tables with suspendedTids := tids } ∧ tids.length ≤ maxThreads ∧
        ∀ m, r = some m → m ≤ tids.length ∧ target ∉ tids.take m) s := by
  intro infos
  induction infos with
  | nil =>
    intro n s _ hn hlen htarget
    refine ⟨s.dbg.suspendedTids, rfl, hlen, fun m hm => ?_⟩
    obtain rfl := Option.some.inj hm
    exact ⟨hn, htarget⟩
  | cons t infos ih =>
    intro n s hroom hn hlen htarget
    rw [List.length_cons] at hroom
    rw [lockLoop, wp_ite]
    refine ⟨fun _ => ih (by omega) hn hlen htarget, fun hother => ?_⟩
    rw [wp_bind]
    refine wp_mono (cdbgThreadSuspend_keeps pid t.tid s) fun rc s₁ h₁ => ?_
    have hd₁ : s₁.dbg = s.dbg := congrArg (·.dbg) h₁
    have hs₁ : s₁.tables = s.tables := Sys.tables_of_sansProc h₁
    rw [wp_ite]
    refine ⟨fun _ => ?_, fun _ => ?_⟩
    · rw [wp_bind, wp_get, wp_bind]
      refine wp_mono (resumeAll_keeps pid _ s₁) fun _ s₂ h₂ => ?_
      have hs₂ := (Sys.tables_of_sansProc h₂).trans hs₁
      exact ⟨s.dbg.suspendedTids, hs₂, hlen, fun m hm => absurd hm (Option.some_ne_none _).symm⟩
    · rw [wp_bind, wp_modifyDbg, hd₁]
      have htake : (s.dbg.suspendedTids.take n).length = n := List.length_take_of_le hn
      have hlen' : (s.dbg.suspendedTids.take n ++ [t.tid]).length = n + 1 := by
        rw [List.length_append, htake, List.length_singleton]
      refine wp_mono (ih (n := n + 1) (by omega) (Nat.le_of_eq hlen'.symm) ?_ ?_)
        fun r s' h => ?_
      · exact Nat.le_trans (Nat.le_of_eq hlen') (by omega)
      · change target ∉ (s.dbg.suspendedTids.take n ++ [t.tid]).take (n + 1)
        rw [List.take_of_length_le (Nat.le_of_eq hlen'), List.mem_append, List.mem_singleton]
        rintro (hmem | rfl)
        · exact htarget hmem
        · exact hother rfl
      · obtain ⟨tids, hs', hrest⟩ := h
        refine ⟨tids, hs'.trans ?_, hrest⟩
        rw [← hs₁]
        simp only [Sys.tables, Sys.withDbg, hd₁]

theorem cmdLock_bounds (args : Option CStr) : KeepsBounds (cmdLock args) := by
  refine obeys_carries_iff.mpr fun s hs => ?_
  rw [cmdLock, wp_bind, wp_get, wp_ite]
  refine ⟨fun _ => hs, fun _ => ?_⟩
  split
  · exact hs
  · exact hs
  rw [wp_ite]
  refine ⟨fun _ => hs, fun hidle => ?_⟩
  replace hidle : s.tables.threadLockActive = false := Bool.eq_false_iff.mpr hidle
  rw [wp_bind]
  have hcount : ∀ s' : Sys, s.Quiet s' → s'.tables = s.tables ∧ s'.dbg = s.dbg := fun s' hq => by
    obtain ⟨n, rfl⟩ := hq
    exact ⟨rfl, rfl⟩
  refine wp_cdbgThreadsList (fun s₁ hq _ => ?_) fun p s₁ _ hq => ?_
  · rw [wp_pure, (hcount s₁ hq).1]
    exact hs
  obtain ⟨hs₁, hd₁⟩ := hcount s₁ hq
  dsimp only
  split
  · rw [wp_pure, hs₁]
    exact hs
  next target _ =>
    rw [wp_bind]
    have hlen : 0 + (p.threadInfos.take maxThreads).length ≤ maxThreads := by
      rw [Nat.zero_add, List.length_take]
      exact Nat.min_le_left _ _
    have hmax : s₁.dbg.suspendedTids.length ≤ maxThreads := by
      rw [hd₁]
      exact hs.suspendedTids
    have hnone : target.tid ∉ s₁.dbg.suspendedTids.take 0 := by
      rw [List.take_zero]
      exact List.not_mem_nil
    refine wp_mono (lockLoop_suspended hlen (Nat.zero_le _) hmax hnone) fun r s₂ h₂ => ?_
    obtain ⟨tids, hs₂, htids, hr⟩ := h₂
    rw [hs₁] at hs₂
    cases r with
    | none =>
      rw [wp_pure, hs₂]
      exact hs.withSuspended hidle htids
    | some suspended =>
      obtain ⟨hle, hnot⟩ := hr suspended rfl
      dsimp only
      rw [wp_bind, wp_modifyDbg, wp_bind]
      refine wp_mono (cdbgRefreshRegs_tables _) fun rc s₃ h₃ => ?_
      have hs₃ : s₃.tables = { s.tables with
          threadLockActive := true, lockedTid := target.tid, suspendedTids := tids,
          suspendedTidCount := suspended } := by
        have hfields := congrArg (fun t => { t with
          threadLockActive := true, lockedTid := target.tid,
          suspendedTidCount := suspended : Tables }) hs₂
        exact h₃.trans hfields
      have hbounded : s₃.tables.Bounded := by
        rw [hs₃]
        exact hs.lock htids hle hnot
      rw [wp_ite]
      exact ⟨fun _ => hbounded, fun _ => hbounded⟩

/-- Without a lock no threads are counted as held. -/
theorem Tables.Bounded.unlock {t : Tables} (h : t.Bounded) :
    { t with threadLockActive := false, suspendedTidCount := 0 }.Bounded :=
  { h with
    suspended := Nat.zero_le _
    unlocked := fun _ => rfl
    locked := fun hactive => absurd hactive Bool.false_ne_true }

theorem cmdUnlock_bounds : KeepsBounds cmdUnlock := by
  refine Obeys.bind Obeys.get fun s => Obeys.ite (Obeys.pure _)
    (Obeys.ite (Obeys.pure _) ?_)
  refine Obeys.bind (keepsBounds_of_tables (tables_of_keepsHolds (unlockLoop_keeps _ _ _)))
    fun rc => Obeys.bind (fun s' hs' => ?_) fun _ => Obeys.pure _
  exact hs'.unlock

end Locks

/-! ### Starting and ending the debuggee -/

section Restarting

variable {s : Sys}

theorem stopDebuggee_bounds : KeepsBounds stopDebuggee := by
  refine Obeys.bind Obeys.get fun s => Obeys.ite ?_ ?_
  · exact Obeys.bind (keepsBounds_of_tables (setState_tables _)) fun _ => Obeys.pure _
  · refine Obeys.bind (keepsBounds_of_tables (killIfLive_tables _)) fun rc =>
      Obeys.ite (Obeys.pure _) (Obeys.bind (fun s' hs' => ?_) fun _ =>
        Obeys.pure _)
    have hdetached : (s'.withDbg s'.dbg.detached).tables =
        { s'.tables with threadLockActive := false, suspendedTidCount := 0 } := by
      rw [Sys.tables, Sys.tables]
      congr 1
      · exact List.map_map ..
      · exact List.map_map ..
    show (s'.withDbg s'.dbg.detached).tables.Bounded
    rw [hdetached]
    exact hs'.unlock

/-- The bounds do not concern the slides. -/
theorem updateSlides_bounds (linenoOk symsOk : Bool) :
    KeepsBounds (updateSlides linenoOk symsOk) := by
  have hregion : ∀ pid, KeepsBounds (regionScan pid) := fun pid =>
    keepsBounds_of_tables (tables_of_keepsCalls (kernelRead_keeps _ _ _))
  have hlineno : ∀ pid, KeepsBounds (cdbgLinenoUpdateSlide pid) := by
    intro pid
    refine Obeys.bind (hregion pid) fun r => ?_
    cases r with
    | none => exact Obeys.pure _
    | some base => exact Obeys.bind (fun s hs => { hs with }) fun _ => Obeys.pure _
  have hsyms : ∀ pid, KeepsBounds (cdbgSymsUpdateSlide pid) := by
    intro pid
    refine Obeys.bind (hregion pid) fun r => ?_
    cases r with
    | none => exact Obeys.pure _
    | some base => exact Obeys.bind (fun s hs => { hs with }) fun _ => Obeys.pure _
  have hif : ∀ {flag : Bool} {m : DbgM Int}, KeepsBounds m → KeepsBounds (updateIf flag m) :=
    fun hm => Obeys.ite (Obeys.bind hm fun _ => Obeys.pure _) (Obeys.pure _)
  exact Obeys.bind Obeys.get fun s => Obeys.bind (hif (hlineno _)) fun _ => hif (hsyms _)

theorem updateLoadedSlides_bounds : KeepsBounds updateLoadedSlides :=
  Obeys.bind Obeys.get fun _ => updateSlides_bounds _ _

theorem cdbgLoadSymbols_bounds (path : CStr) : KeepsBounds (cdbgLoadSymbols path) := by
  refine obeys_carries_iff.mpr fun s hs => ?_
  rw [cdbgLoadSymbols, wp_bind, wp_get]
  dsimp only
  rw [wp_bind, wp_modify, wp_bind, wp_modifyDbg]
  have hpath : (snprintf maxPath path).length < maxPath := length_snprintf_lt (by decide) path
  have hloaded : ∀ lineno syms, { s.tables with
      executablePath := snprintf maxPath path, lineno := lineno, syms := syms }.Bounded :=
    fun _ _ => { hs with executablePath := hpath }
  rw [wp_ite]
  refine ⟨fun _ => ?_, fun _ => hloaded _ _⟩
  rw [wp_bind]
  exact updateSlides_bounds _ _ _ (hloaded _ _)

theorem cdbgSetRunTarget_bounds (argv : List CStr) : KeepsBounds (cdbgSetRunTarget argv) := by
  refine obeys_carries_iff.mpr fun s hs => ?_
  have htexts : ∀ arg ∈ argv.map (snprintf maxPath), arg.length < maxPath := by
    intro arg harg
    obtain ⟨text, -, rfl⟩ := List.mem_map.mp harg
    exact length_snprintf_lt (by decide) text
  rw [cdbgSetRunTarget, wp_ite]
  refine ⟨fun _ => hs, fun _ => ?_⟩
  rw [wp_ite]
  refine ⟨fun _ => ?_, fun hfits => ?_⟩
  · rw [wp_bind, wp_modifyDbg]
    exact { hs with
      runArgv := Nat.le_trans (List.length_take_le _ _) hs.runArgv
      runTexts := fun arg harg => htexts arg (List.mem_of_mem_take harg) }
  · rw [wp_bind, wp_modifyDbg]
    refine { hs with runArgv := ?_, runTexts := htexts }
    change (argv.map (snprintf maxPath)).length ≤ maxRunArgs
    rw [List.length_map]
    exact Nat.le_of_not_gt hfits

theorem cdbgSpawn_bounds : KeepsBounds cdbgSpawn := by
  refine Obeys.bind (keepsBounds_of_tables cdbgProcessSpawn_tables) fun r => ?_
  cases r with
  | none => exact Obeys.pure _
  | some pid =>
    exact Obeys.bind (keepsBounds_of_tables (modifyDbg_tables fun _ _ => rfl)) fun _ =>
      Obeys.bind updateLoadedSlides_bounds fun _ => Obeys.pure _

/-- The tables a new debuggee starts with. -/
theorem Tables.Bounded.wiped {t : Tables} (h : t.Bounded) : { t with
    breakpoints := [], watched := [], threadLockActive := false, suspendedTidCount := 0 }.Bounded :=
  { h.unlock with
    breakpoints := Nat.zero_le _
    specs := fun _ hbp => absurd hbp List.not_mem_nil
    watchpoints := Nat.zero_le _
    accepted := fun _ hslot => absurd hslot List.not_mem_nil }

theorem cdbgRun_bounds (argv : Option (List CStr)) : KeepsBounds (cdbgRun argv) :=
  obeys_cdbgRun keepsBounds_of_tables cdbgSetRunTarget_bounds stopDebuggee_bounds
    (fun _ _ hs => hs.wiped) cdbgLoadSymbols_bounds cdbgSpawn_bounds updateLoadedSlides_bounds
    cmdBreak_bounds argv

theorem cdbgReplCmdKill_bounds : KeepsBounds cdbgReplCmdKill :=
  Obeys.bind Obeys.get fun _ => Obeys.ite (Obeys.pure _)
    (Obeys.bind stopDebuggee_bounds fun _ => Obeys.pure _)

end Restarting

/-! ### Sessions -/

theorem ignoringCode_bounds {m : DbgM Int} (h : KeepsBounds m) : KeepsBounds (ignoringCode m) :=
  Obeys.bind h fun _ => Obeys.pure _

/-- Every command keeps the tables within their arrays. -/
theorem exec_bounds (c : Command) : KeepsBounds (exec c) := by
  cases c with
  | runTok argv => exact ignoringCode_bounds (cdbgRun_bounds argv)
  | lockTok args => exact ignoringCode_bounds (cmdLock_bounds args)
  | unlockTok => exact ignoringCode_bounds cmdUnlock_bounds
  | breakTok target => exact ignoringCode_bounds (cmdBreak_bounds target)
  | delTok args => exact ignoringCode_bounds (cmdDel_bounds args)
  | watchTok expr resolved => exact ignoringCode_bounds (cmdWatch_bounds expr resolved)
  | unwatchTok args => exact ignoringCode_bounds (cmdUnwatch_bounds args)
  | killTok => exact cdbgReplCmdKill_bounds
  | _ => exact keepsBounds_of_tables (exec_tables rfl rfl)

theorem mainStart_bounded (spawnArgv : List CStr) (s : Sys) :
    wp (mainStart spawnArgv) (fun _ s' => s'.tables.Bounded) s := by
  have hinit : (s.withDbg cdbgInit).tables.Bounded :=
    { breakpoints := Nat.zero_le _
      specs := fun _ h => absurd h List.not_mem_nil
      watchpoints := Nat.zero_le _
      accepted := fun _ h => absurd h List.not_mem_nil
      suspendedTids := Nat.zero_le _
      suspended := Nat.le_refl _
      unlocked := fun _ => rfl
      locked := fun h => absurd h Bool.false_ne_true
      executablePath := (by decide : 0 < maxPath)
      runArgv := Nat.zero_le _
      runTexts := fun _ h => absurd h List.not_mem_nil }
  exact wp_mainStart cdbgSetRunTarget_bounds (cdbgRun_bounds none) hinit spawnArgv

/-- The tables are within their arrays at every prompt of every session. -/
theorem Reaches.tables_bounded {ok : Command → Sys → Sys → Prop} {spawnArgv : List CStr}
    {s₁ s₀ s : Sys} (hmain : (mainStart spawnArgv).run s₁ = (0, s₀)) (h : Reaches ok s₀ s) :
    s.tables.Bounded := by
  induction h with
  | start => exact (wp_of_run hmain).mp (mainStart_bounded spawnArgv s₁)
  | @command s c _ _ _ ih => exact exec_bounds c s.unlogged ih

theorem lockAndWatch_bounded :
    (lockAndWatch.tables.suspendedTidCount = 1 ∧ lockAndWatch.tables.watched.length = 1) ∧
      lockAndWatch.tables.Bounded :=
  ⟨by decide +kernel, @Reaches.tables_bounded (fun _ _ _ => True) _ _ _ _
    (run_of_code (by decide +kernel)) (.command (.command .start trivial (by decide +kernel))
      trivial (by decide +kernel))⟩

end Debugger
