/-
Which threads are suspended while one of them is locked or stepped.

`cdbg_threads_list` returns the first `CDBG_MAX_THREADS` threads, and the guard of the stepping
commands has room for as many.  So `lock` suspends every other thread exactly when those behind
the table are suspended already (`cmdLock_frozen_iff`), and a catch-up suspends every thread but
the primary one when the new ones are in the list and fit the guard (`CatchUpCovers`).
-/
import Debugger.SuspendCounts
import Debugger.SlotWrites
import Debugger.Control

open Prog

namespace Debugger

/-! ### lock -/

/-- Every thread but the locked one is suspended. -/
def Sys.LockFrozen (s : Sys) : Prop :=
  ∀ p, s.process s.dbg.pid = some p → ∀ t ∈ p.threads, t.tid ≠ s.dbg.lockedTid →
    0 < t.suspendCount

/-- The threads behind those the debugger lists are suspended. -/
def Sys.BeyondFrozen (s : Sys) : Prop :=
  ∀ p, s.process s.dbg.pid = some p → ∀ t ∈ p.threads.drop maxThreads, 0 < t.suspendCount

/-- The listed threads but the target are suspended once more. -/
def Process.suspendedBut (p : Process) (target : UInt64) (tids : List UInt64) : Process :=
  p.eachThread fun t =>
    if t.tid ∈ tids ∧ t.tid ≠ target then { t with suspendCount := t.suspendCount + 1 } else t

section Lock

variable {s : Sys} {p : Process} {target tid : UInt64} {tids : List UInt64}

theorem Process.suspendedBut_nil : p.suspendedBut target [] = p := by
  rw [suspendedBut, eachThread]
  simp

theorem Process.suspendedBut_target : p.suspendedBut target (target :: tids) =
    p.suspendedBut target tids := by
  rw [suspendedBut, suspendedBut, eachThread, eachThread]
  refine congrArg (fun ts => { p with threads := ts }) (List.map_congr_left fun t _ => ?_)
  simp only [List.mem_cons]
  by_cases ht : t.tid = target
  · rw [if_neg (fun h => h.2 ht), if_neg (fun h => h.2 ht)]
  · simp only [ht, false_or]

theorem Process.suspendedBut_cons (htarget : tid ≠ target) (htid : tid ∉ tids) :
    (p.mapThread tid fun t => { t with suspendCount := t.suspendCount + 1 }).suspendedBut
      target tids = p.suspendedBut target (tid :: tids) := by
  rw [suspendedBut, suspendedBut, mapThread, eachThread, eachThread, List.map_map]
  refine congrArg (fun ts => { p with threads := ts }) (List.map_congr_left fun t _ => ?_)
  simp only [Function.comp_apply, List.mem_cons]
  by_cases ht : t.tid = tid
  · rw [if_pos ht]
    rw [if_neg (fun h => htid (ht ▸ h.1)), if_pos ⟨.inl ht, ht ▸ htarget⟩]
  · rw [if_neg ht]
    simp only [ht, false_or]

/-- The loop of `lock` that suspends. -/
theorem wp_lockLoop_some {pid : ℕ} : ∀ {infos : List ThreadInfo} {n : ℕ} {s : Sys} {p : Process},
    s.process pid = some p → (infos.map (·.tid)).Nodup → (∀ t ∈ infos, t.tid ≠ 0) →
    wp (lockLoop pid target infos n) (fun r s' => r.isSome = true →
      s'.process pid = some (p.suspendedBut target (infos.map (·.tid)))) s := by
  intro infos
  induction infos with
  | nil =>
    intro n s p hp _ _ _
    rw [List.map_nil, Process.suspendedBut_nil]
    exact hp
  | cons t ts ih =>
    intro n s p hp hnodup h0
    have h0' : ∀ u ∈ ts, u.tid ≠ 0 := fun u hu => h0 u (List.mem_cons_of_mem _ hu)
    rw [List.map_cons, List.nodup_cons] at hnodup
    rw [lockLoop, wp_ite, List.map_cons]
    refine ⟨fun htarget => ?_, fun htarget => ?_⟩
    · rw [htarget, Process.suspendedBut_target]
      exact ih hp hnodup.2 h0'
    · rw [wp_bind]
      refine wp_updateThread (fun s₁ _ _ => ?_) fun q u f s₁ hq hu hf hquiet => ?_
      · rw [wp_ite]
        refine ⟨fun _ => ?_, fun h => absurd neg_one_ne h⟩
        rw [wp_bind, wp_get, wp_bind]
        exact wp_mono (wp_true _) fun _ _ _ h => absurd h Bool.false_ne_true
      · obtain rfl := Option.some.inj (hp.symm.trans hq)
        obtain rfl := Option.some.inj hf
        obtain ⟨m, rfl⟩ := hquiet
        rw [(Process.thread_eq_some hu (h0 t List.mem_cons_self)).2, if_neg (not_not.mpr rfl),
          wp_bind, wp_modifyDbg, ← Process.suspendedBut_cons htarget hnodup.1]
        refine ih (Sys.process_eq_some.mpr ⟨rfl, ?_⟩) hnodup.2 h0'
        exact (Sys.process_eq_some.mp hp).2

/-- The threads of a debuggee that has been locked. -/
theorem Process.frozen_suspendedBut_iff (hwf : p.WellFormed)
    (htarget : target ∈ (p.threads.take maxThreads).map (·.tid)) :
    (∀ t ∈ (p.suspendedBut target ((p.threads.take maxThreads).map (·.tid))).threads,
        t.tid ≠ target → 0 < t.suspendCount) ↔
      ∀ t ∈ p.threads.drop maxThreads, 0 < t.suspendCount := by
  -- no thread is both listed and behind the list
  have hdisjoint : ∀ t ∈ p.threads.drop maxThreads,
      t.tid ∉ (p.threads.take maxThreads).map (·.tid) := by
    intro t ht hmem
    have hnodup := hwf.nodup
    rw [← List.take_append_drop maxThreads p.threads, List.map_append,
      List.nodup_append'] at hnodup
    exact hnodup.2.2 hmem (List.mem_map_of_mem ht)
  constructor
  · intro h t ht
    have hmem : t ∈ (p.suspendedBut target
        ((p.threads.take maxThreads).map (·.tid))).threads :=
      List.mem_map.mpr ⟨t, List.mem_of_mem_drop ht, if_neg fun h => hdisjoint t ht h.1⟩
    exact h t hmem fun heq => hdisjoint t ht (heq ▸ htarget)
  · intro h u hu hne
    obtain ⟨t, ht, rfl⟩ := List.mem_map.mp hu
    by_cases hlisted : t.tid ∈ (p.threads.take maxThreads).map (·.tid) ∧ t.tid ≠ target
    · rw [if_pos hlisted]
      exact Nat.succ_pos _
    · rw [if_neg hlisted] at hne ⊢
      rw [← List.take_append_drop maxThreads p.threads] at ht
      rcases List.mem_append.mp ht with hfirst | hbeyond
      · exact absurd ⟨List.mem_map_of_mem hfirst, hne⟩ hlisted
      · exact h t hbeyond

/-- The number names a listed thread. -/
theorem mem_of_parseThreadNumber {args : CStr} {infos : List ThreadInfo} {target : ThreadInfo}
    (h : parseThreadNumber args infos = some target) : target ∈ infos := by
  rw [parseThreadNumber] at h
  split at h
  · exact absurd h (by simp)
  · exact List.mem_of_getElem? h

/-- `lock` suspends every other thread exactly when those behind the list are suspended. -/
theorem cmdLock_frozen_iff {s s' : Sys} {args : Option CStr}
    (hwf : ∀ p, s.process s.dbg.pid = some p → p.WellFormed)
    (hrun : (cmdLock args).run s = (0, s')) : s'.LockFrozen ↔ s.BeyondFrozen := by
  have hlock : wp (cmdLock args) (fun rc s' => rc = 0 → (s'.LockFrozen ↔ s.BeyondFrozen)) s := by
    rw [cmdLock, wp_bind, wp_get, wp_ite]
    refine ⟨fun _ h => absurd h neg_one_ne, fun _ => ?_⟩
    split
    · exact fun h => absurd h neg_one_ne
    · exact fun h => absurd h neg_one_ne
    rw [wp_ite]
    refine ⟨fun _ h => absurd h neg_one_ne, fun _ => ?_⟩
    rw [wp_bind]
    refine wp_cdbgThreadsList (fun _ _ _ h => absurd h neg_one_ne) fun p s₁ hp hquiet => ?_
    have hinfos := (hwf p hp).threadInfos maxThreads
    obtain ⟨n, rfl⟩ := hquiet
    dsimp only
    split
    · exact fun h => absurd h neg_one_ne
    next target htarget =>
    rw [wp_bind]
    have hdbg : wp (lockLoop s.dbg.pid target.tid (p.threadInfos.take maxThreads) 0)
        (fun _ s₂ => s₂.dbg.pid = s.dbg.pid)
        { s with os := { s.os with calls := n } } :=
      wp_mono (lockLoop_progress _ _ _ _ _) fun _ _ h => congrArg Progress.pid h
    refine wp_mono (wp_and hdbg (wp_lockLoop_some hp hinfos.1 hinfos.2)) fun r s₂ h₂ => ?_
    obtain ⟨hpid, hr⟩ := h₂
    cases r with
    | none => exact fun h => absurd h neg_one_ne
    | some m =>
      have hproc := hr rfl
      dsimp only
      rw [wp_bind, wp_modifyDbg, wp_bind]
      refine wp_cdbgRefreshRegs (fun _ _ _ h => absurd h neg_one_ne) fun q u s₃ hq hu hquiet _ => ?_
      obtain ⟨n', rfl⟩ := hquiet
      have htids : (p.threadInfos.take maxThreads).map (·.tid) =
          (p.threads.take maxThreads).map (·.tid) := by
        rw [List.map_take, p.threadInfos_tids, List.map_take]
      rw [htids] at hproc
      have hfrozen := Process.frozen_suspendedBut_iff (hwf p hp)
        (htids ▸ List.mem_map_of_mem (mem_of_parseThreadNumber htarget))
      rw [← hpid] at hproc
      constructor
      · intro h p' hp'
        obtain rfl := Option.some.inj (hp.symm.trans hp')
        exact hfrozen.mp (h _ hproc)
      · intro h p' hp'
        obtain rfl := Option.some.inj (hproc.symm.trans hp')
        exact hfrozen.mpr (h p hp)
  rw [wp_of_run hrun] at hlock
  exact hlock rfl

end Lock

/-! ### A catch-up -/

/-- Every thread but the primary one is suspended. -/
def Process.OthersFrozen (p : Process) : Prop := ∀ t ∈ p.threads.tail, 0 < t.suspendCount

/-- The threads with these ids are suspended, and no other thread will have one of them. -/
structure Process.Pinned (p : Process) (tids : List UInt64) : Prop where
  wellFormed : p.WellFormed
  suspended : ∀ t ∈ p.threads, t.tid ∈ tids → 0 < t.suspendCount
  used : ∀ tid ∈ tids, tid ∈ p.usedTids

/-- A catch-up for the primary thread gets to every other thread that is not suspended: the
threads are listed, the thread is in the list, and the guard has room for it after the new ones
in front of it. -/
def CatchUpCovers (s : Sys) (guard : Guard) : Prop :=
  s.dbg.currentTid = tidPrimary → ∀ p, s.process s.dbg.pid = some p →
    ∀ i t, p.threads[i]? = some t → 0 < i → t.suspendCount = 0 →
      s.os.fault .taskThreads s.os.calls.count = false ∧ i < maxThreads ∧
        guard.length + (p.threads.take i).tail.countP (·.tid ∉ guard) < maxThreads

/-- The guard after a catch-up that suspends every thread it gets to. -/
def caughtUp (currentTid : UInt64) : List ThreadInfo → Guard → Guard
  | [], guard => guard
  | t :: ts, guard =>
    if guard.length ≥ maxThreads then guard
    else if t.isPrimary ∨ t.tid = currentTid ∨ t.tid ∈ guard then caughtUp currentTid ts guard
    else caughtUp currentTid ts (guard ++ [t.tid])

section CatchUp

variable {currentTid : UInt64} {infos : List ThreadInfo} {guard : Guard}

theorem mem_caughtUp_of_mem {tid : UInt64} (h : tid ∈ guard) :
    tid ∈ caughtUp currentTid infos guard := by
  induction infos generalizing guard with
  | nil => exact h
  | cons t ts ih =>
    rw [caughtUp]
    split
    · exact h
    · split
      · exact ih h
      · exact ih (List.mem_append_left _ h)

/-- The threads a catch-up would suspend. -/
def newThread (currentTid : UInt64) (guard : Guard) (t : ThreadInfo) : Bool :=
  ¬ (t.isPrimary ∨ t.tid = currentTid ∨ t.tid ∈ guard)

/-- A thread that the guard has room for. -/
theorem mem_caughtUp {i : ℕ} {t : ThreadInfo} (hget : infos[i]? = some t)
    (hprimary : t.isPrimary = false) (hcurrent : t.tid ≠ currentTid)
    (hroom : guard.length + (infos.take i).countP (newThread currentTid guard) < maxThreads) :
    t.tid ∈ caughtUp currentTid infos guard := by
  induction infos generalizing guard i with
  | nil => exact absurd hget (by simp)
  | cons u us ih =>
    rw [caughtUp, if_neg (by omega)]
    cases i with
    | zero =>
      obtain rfl := Option.some.inj hget
      split
      · next hskip =>
        rcases hskip with h | h | h
        · exact absurd h (by simp [hprimary])
        · exact absurd h hcurrent
        · exact mem_caughtUp_of_mem h
      · exact mem_caughtUp_of_mem (List.mem_append_right _ List.mem_cons_self)
    | succ i =>
      rw [List.take_succ_cons, List.countP_cons] at hroom
      split
      · next hskip =>
        exact ih hget (by omega)
      · next hnew =>
        have hone : newThread currentTid guard u = true := decide_eq_true hnew
        rw [if_pos hone] at hroom
        have hle : (us.take i).countP (newThread currentTid (guard ++ [u.tid])) ≤
            (us.take i).countP (newThread currentTid guard) := by
          refine List.countP_mono_left fun v _ hv => ?_
          rw [newThread, decide_eq_true_eq] at hv ⊢
          rintro (h | h | h)
          · exact hv (.inl h)
          · exact hv (.inr (.inl h))
          · exact hv (.inr (.inr (List.mem_append_left _ h)))
        refine ih hget ?_
        rw [List.length_append, List.length_singleton]
        omega

end CatchUp

section Pinned

variable {p : Process} {tids : List UInt64} {tid : UInt64}

theorem Process.Pinned.suspend (h : p.Pinned tids) (hused : tid ∈ p.usedTids) :
    (p.mapThread tid fun t => { t with suspendCount := t.suspendCount + 1 }).Pinned
      (tids ++ [tid]) where
  wellFormed := wellFormed_of_tids (mapThread_tids fun _ => rfl) rfl h.wellFormed
  suspended := by
    intro u hu hmem
    obtain ⟨t, ht, rfl⟩ := List.mem_map.mp hu
    by_cases heq : t.tid = tid
    · rw [if_pos heq]
      exact Nat.succ_pos _
    · rw [if_neg heq] at hmem ⊢
      rcases List.mem_append.mp hmem with hmem | hmem
      · exact h.suspended t ht hmem
      · exact absurd (List.mem_singleton.mp hmem) heq
  used := by
    intro u hu
    rcases List.mem_append.mp hu with hu | hu
    · exact h.used u hu
    · exact List.mem_singleton.mp hu ▸ hused

theorem Process.Pinned.of_sansReports {p' : Process} (hv : p'.sansReports = p.sansReports)
    (h : p.Pinned tids) : p'.Pinned tids where
  wellFormed := h.wellFormed.of_sansReports hv
  suspended := by
    intro u hu hmem
    obtain ⟨t, ht, htid, hcount, -⟩ := thread_of_sansReports hv hu
    rw [← hcount]
    exact h.suspended t ht (htid ▸ hmem)
  used := by
    rw [show p'.usedTids = p.usedTids from congrArg (·.usedTids) hv]
    exact h.used

theorem Process.Pinned.resumed (h : p.Pinned tids) : p.resumed.Pinned tids where
  wellFormed := h.wellFormed.resumed
  suspended := by
    intro u hu hmem
    obtain ⟨t, ht, rfl⟩ := List.mem_map.mp hu
    exact h.suspended t ht hmem
  used := h.used

/-- Mapping the threads with an id to ones that are suspended as often. -/
theorem Process.Pinned.mapThread {f : Thread → Thread} (h : p.Pinned tids)
    (htid : ∀ t, (f t).tid = t.tid) (hcount : ∀ t, (f t).suspendCount = t.suspendCount) :
    (p.mapThread tid f).Pinned tids where
  wellFormed := wellFormed_of_tids (mapThread_tids htid) rfl h.wellFormed
  suspended := by
    intro u hu hmem
    obtain ⟨t, ht, rfl⟩ := List.mem_map.mp hu
    split at hmem
    · next heq =>
      rw [if_pos heq, hcount]
      exact h.suspended t ht (htid t ▸ hmem)
    · next hne =>
      rw [if_neg hne]
      exact h.suspended t ht hmem
  used := h.used

theorem Process.Pinned.move {arch : Arch} {kind : Resume} (h : p.Pinned tids) (m : Move) :
    (p.move arch kind m).Pinned tids := by
  have hwf : (p.move arch kind m).WellFormed := h.wellFormed.move m
  rcases @Process.move_cases arch kind p m with
    hm | ⟨tid, regs, writes, t, -, -, -, ⟨-, hm⟩ | ⟨-, hm⟩⟩ | ⟨tid, regs, -, hnew, hm⟩ |
      ⟨tid, hm⟩
  · rw [hm]
    exact h
  · rw [hm]
    exact h.mapThread (fun _ => rfl) fun _ => rfl
  · rw [hm] at hwf ⊢
    have hmap : (p.mapThread tid (·.execInstr (p.stepsOnce kind tid) regs)).Pinned tids :=
      h.mapThread (fun _ => rfl) fun _ => rfl
    exact ⟨hwf, hmap.suspended, hmap.used⟩
  · rw [hm] at hwf ⊢
    -- the id of a new thread has not been used before
    refine ⟨hwf, fun u hu hmem => ?_, fun u hu => List.mem_cons_of_mem _ (h.used u hu)⟩
    rcases List.mem_append.mp hu with hu | hu
    · exact h.suspended u hu hmem
    · rw [List.mem_singleton.mp hu] at hmem
      exact absurd (h.used tid hmem) hnew
  · rw [hm] at hwf ⊢
    exact ⟨hwf, fun u hu hmem => h.suspended u (List.mem_filter.mp hu).1 hmem, h.used⟩

/-- The scan of a catch-up, when no thread refuses to be suspended; `held` are suspended for
other reasons. -/
theorem wp_catchUpLoop_eq {pid : ℕ} {currentTid : UInt64} {held : List UInt64} :
    ∀ {infos : List ThreadInfo} {guard : Guard} {s : Sys} {p : Process},
    s.process pid = some p → p.Pinned (held ++ guard) → s.Reliable .threadSuspend →
    (∀ i ∈ infos, i.tid ≠ 0 ∧ ∃ t ∈ p.threads, t.tid = i.tid) →
    wp (catchUpLoop pid currentTid infos guard) (fun guard' s' =>
      guard' = caughtUp currentTid infos guard ∧ ∃ p', s'.process pid = some p' ∧
        p'.Pinned (held ++ guard') ∧
        p'.threads.map (·.tid) = p.threads.map (·.tid)) s := by
  intro infos
  induction infos with
  | nil => exact fun hp hpin _ _ => ⟨rfl, _, hp, hpin, rfl⟩
  | cons i infos ih =>
    intro guard s p hp hpin hok hinfos
    have hrest : ∀ j ∈ infos, j.tid ≠ 0 ∧ ∃ t ∈ p.threads, t.tid = j.tid :=
      fun j hj => hinfos j (List.mem_cons_of_mem _ hj)
    rw [catchUpLoop, wp_ite, caughtUp]
    refine ⟨fun hfull => ?_, fun hfull => ?_⟩
    · rw [if_pos hfull]
      exact ⟨rfl, p, hp, hpin, rfl⟩
    rw [wp_ite, if_neg hfull]
    refine ⟨fun hskip => ?_, fun hnew => ?_⟩
    · rw [if_pos hskip]
      exact ih hp hpin hok hrest
    rw [if_neg hnew, wp_bind]
    obtain ⟨h0, t, ht, htid⟩ := hinfos i List.mem_cons_self
    refine wp_updateThread (fun s₁ _ hfail => ?_) fun q u f s₁ hq hu hf hquiet => ?_
    · -- the thread is there, and no call fails
      have hfind : (p.thread i.tid).isSome = true := by
        rw [Process.thread, if_neg h0, List.find?_isSome]
        exact ⟨t, ht, by simpa using htid⟩
      obtain ⟨u, hu⟩ := Option.isSome_iff_exists.mp hfind
      exact absurd (hfail hok p u hp hu) (by simp)
    · obtain rfl := Option.some.inj (hp.symm.trans hq)
      obtain rfl := Option.some.inj hf
      obtain ⟨n, rfl⟩ := hquiet
      rw [(Process.thread_eq_some hu h0).2, if_pos rfl]
      have hused : i.tid ∈ p.usedTids := htid ▸ hpin.wellFormed.used t ht
      have hpin' := hpin.suspend hused
      rw [List.append_assoc] at hpin'
      have htids : (p.mapThread i.tid fun t => { t with
          suspendCount := t.suspendCount + 1 }).threads.map (·.tid) = p.threads.map (·.tid) :=
        Process.mapThread_tids fun _ => rfl
      have hinfos' : ∀ j ∈ infos, j.tid ≠ 0 ∧ ∃ t' ∈ (p.mapThread i.tid fun t => { t with
          suspendCount := t.suspendCount + 1 }).threads, t'.tid = j.tid := by
        intro j hj
        obtain ⟨hj0, t', ht', htid'⟩ := hrest j hj
        have hmem : t'.tid ∈ (p.mapThread i.tid fun t => { t with
            suspendCount := t.suspendCount + 1 }).threads.map (·.tid) :=
          htids ▸ List.mem_map_of_mem ht'
        obtain ⟨v, hv, hvtid⟩ := List.mem_map.mp hmem
        exact ⟨hj0, v, hv, hvtid.trans htid'⟩
      refine wp_mono (ih (Sys.process_eq_some.mpr ⟨rfl, (Sys.process_eq_some.mp hp).2⟩) hpin' hok
        hinfos') fun guard' s' h' => ?_
      obtain ⟨heq, p', hp', hpinned, hsame⟩ := h'
      exact ⟨heq, p', hp', hpinned, hsame.trans htids⟩

end Pinned

/-! ### A stepping command -/

/-- At the single steps with the primary thread selected every other thread is suspended. -/
def StepsFrozen (events : List Obs) : Prop :=
  ∀ d p, .resume .step d p ∈ events → d.currentTid = tidPrimary → p.OthersFrozen

/-- What holds throughout a stepping command whose guard has suspended the given threads; `base`
are the events before it. -/
structure Sys.Pins (base : List Obs) (guard : Guard) (s : Sys) : Prop where
  unlocked : s.dbg.threadLockActive = false
  suspends : s.Reliable .threadSuspend
  proc : ∀ p, s.process s.dbg.pid = some p → p.Pinned guard
  steps : ∃ new, s.runLog = new ++ base ∧ StepsFrozen new

/-- The primary thread can be stepped. -/
def Sys.Frozen (s : Sys) : Prop :=
  s.dbg.currentTid = tidPrimary → ∀ p, s.process s.dbg.pid = some p → p.OthersFrozen

section Command

variable {s s' : Sys} {base : List Obs} {guard : Guard}

theorem Sys.Pins.of_sansReports (hv : s'.sansReports = s.sansReports) (h : s.Pins base guard) :
    s'.Pins base guard where
  unlocked := (congrArg (·.dbg.threadLockActive) hv).trans h.unlocked
  suspends := fun n => by
    rw [show s'.os.fault = s.os.fault from congrArg (·.os.fault) hv]
    exact h.suspends n
  proc := by
    intro p' hp'
    obtain ⟨hproc', hpid'⟩ := Sys.process_eq_some.mp hp'
    obtain ⟨p, hproc, hpp⟩ := Sys.proc_of_sansReports hv hproc'
    have hpid : p.pid = s.dbg.pid := (congrArg (·.pid) hpp).symm.trans
      (hpid'.trans (congrArg (·.dbg.pid) hv))
    exact (h.proc p (Sys.process_eq_some.mpr ⟨hproc, hpid⟩)).of_sansReports hpp
  steps := by
    rw [show s'.runLog = s.runLog from congrArg (·.log) hv]
    exact h.steps

theorem Sys.Pins.keeps {α : Type} {m : DbgM α} (hm : Keeps Sys.sansReports m)
    (h : s.Pins base guard) : wp m (fun _ s' => s'.Pins base guard) s :=
  wp_mono (hm s) fun _ _ hv => h.of_sansReports hv

theorem Process.threadInfos_getElem?_succ {p : Process} {i : ℕ} {t : Thread}
    (h : p.threads[i + 1]? = some t) :
    p.threadInfos[i + 1]? = some { tid := t.tid, isPrimary := false } := by
  rw [threadInfos]
  cases hts : p.threads with
  | nil => rw [hts] at h; exact absurd h (by simp)
  | cons u us =>
    rw [hts, List.getElem?_cons_succ] at h
    dsimp only
    rw [List.getElem?_cons_succ, List.getElem?_map, h, Option.map_some]

/-- The primary thread is never a new one. -/
theorem Process.countP_newThread_le {p : Process} {i : ℕ} {currentTid : UInt64} :
    (p.threadInfos.take (i + 1)).countP (newThread currentTid guard) ≤
      (p.threads.take (i + 1)).tail.countP (·.tid ∉ guard) := by
  rw [threadInfos]
  cases p.threads with
  | nil => exact Nat.le_refl 0
  | cons u us =>
    rw [List.take_succ_cons, List.take_succ_cons, List.countP_cons_of_neg (by simp [newThread]),
      List.tail_cons, ← List.map_take, List.countP_map]
    refine List.countP_mono_left fun v _ hv => ?_
    rw [Function.comp_apply, newThread, decide_eq_true_eq] at hv
    exact decide_eq_true fun hmem => hv (.inr (.inr hmem))

/-- The threads of a list that a catch-up has got to. -/
theorem Process.othersFrozen_of_caughtUp {p p' : Process} {s : Sys}
    (hp : s.process s.dbg.pid = some p) (hprimary : s.dbg.currentTid = tidPrimary)
    (hwf : p.WellFormed) (hcovers : CatchUpCovers s guard)
    (htids : p'.threads.map (·.tid) = p.threads.map (·.tid))
    (hpin : p'.Pinned ((p.threads.filter (0 < ·.suspendCount)).map (·.tid) ++
      caughtUp s.dbg.currentTid (p.threadInfos.take maxThreads) guard)) : p'.OthersFrozen := by
  intro u hu
  obtain ⟨i, hi, hget⟩ := List.getElem_of_mem hu
  rw [List.getElem_tail] at hget
  rw [List.length_tail] at hi
  have hlen : p'.threads.length = p.threads.length := by
    rw [← List.length_map (f := (·.tid)), htids, List.length_map]
  have hmem : u ∈ p'.threads := List.mem_of_mem_tail hu
  have htid : p.threads[i + 1].tid = u.tid := by
    have h := congrArg (·[i + 1]?) htids
    simp only [List.getElem?_map] at h
    rw [List.getElem?_eq_getElem (by omega), List.getElem?_eq_getElem (by omega), hget,
      Option.map_some, Option.map_some, Option.some_inj] at h
    exact h.symm
  refine hpin.suspended u hmem (List.mem_append.mpr ?_)
  rw [← htid]
  by_cases hcount : 0 < p.threads[i + 1].suspendCount
  · exact .inl (List.mem_map_of_mem (List.mem_filter.mpr
      ⟨List.getElem_mem _, decide_eq_true hcount⟩))
  · obtain ⟨-, hlt, hroom⟩ := hcovers hprimary p hp (i + 1) p.threads[i + 1]
      (List.getElem?_eq_getElem (by omega)) (Nat.succ_pos i) (by omega)
    have hinfo := Process.threadInfos_getElem?_succ
      (List.getElem?_eq_getElem (show i + 1 < p.threads.length by omega))
    have hne : p.threads[i + 1].tid ≠ s.dbg.currentTid := by
      rw [hprimary]
      exact hwf.ne_zero _ (List.getElem_mem _)
    refine .inr (mem_caughtUp (i := i + 1) (t := { tid := _, isPrimary := false }) ?_ rfl hne ?_)
    · rw [List.getElem?_take_of_lt hlt, hinfo]
    · rw [List.take_take, Nat.min_eq_left (Nat.le_of_lt hlt)]
      have hle := @Process.countP_newThread_le guard p i s.dbg.currentTid
      omega

/-- A catch-up. -/
theorem Sys.Pins.wp_catchUp (h : s.Pins base guard) :
    wp (stepThreadGuardCatchUp guard) (fun guard' s' => s'.Pins base guard' ∧
      (CatchUpCovers s guard → s'.Frozen)) s := by
  have hsame := stepThreadGuardCatchUp_keeps guard s
  have hrun : wp (stepThreadGuardCatchUp guard) (fun guard' s' =>
      (∀ p, s'.process s.dbg.pid = some p → p.Pinned guard') ∧
      (CatchUpCovers s guard → s.dbg.currentTid = tidPrimary →
        ∀ p, s'.process s.dbg.pid = some p → p.OthersFrozen)) s := by
    rw [stepThreadGuardCatchUp, wp_bind, wp_get, wp_ite]
    refine ⟨fun hl => absurd (h.unlocked.symm.trans hl) (by decide), fun _ => ?_⟩
    rw [wp_bind, cdbgThreadsList, kernelRead, wp_kernelCall_iff]
    split
    · next hnone =>
      refine ⟨h.proc, fun hcovers hprimary p hp t ht => ?_⟩
      by_contra hcount
      obtain ⟨i, hi, hget⟩ := List.getElem_of_mem ht
      rw [List.getElem_tail] at hget
      rw [List.length_tail] at hi
      have hlisted := (hcovers hprimary p hp (i + 1) t
        (List.getElem?_eq_some_iff.mpr ⟨by omega, hget⟩) (Nat.succ_pos i) (by omega)).1
      rw [Sys.answer_eq hlisted hp] at hnone
      exact absurd hnone (by simp)
    · next r hsome =>
      rw [Sys.answer] at hsome
      split at hsome
      · exact absurd hsome (by simp)
      obtain ⟨p, hp, hr⟩ := Option.bind_eq_some_iff.mp hsome
      obtain rfl := Option.some.inj hr
      have hpinned : p.Pinned ((p.threads.filter (0 < ·.suspendCount)).map (·.tid) ++ guard) := by
        have hpin := h.proc p hp
        refine ⟨hpin.wellFormed, fun t ht hmem => ?_, fun tid hmem => ?_⟩
        · rcases List.mem_append.mp hmem with hmem | hmem
          · obtain ⟨u, hu, htid⟩ := List.mem_map.mp hmem
            obtain ⟨hu, hcount⟩ := List.mem_filter.mp hu
            rw [← List.inj_on_of_nodup_map hpin.wellFormed.nodup hu ht htid]
            exact of_decide_eq_true hcount
          · exact hpin.suspended t ht hmem
        · rcases List.mem_append.mp hmem with hmem | hmem
          · obtain ⟨u, hu, rfl⟩ := List.mem_map.mp hmem
            exact hpin.wellFormed.used u (List.mem_filter.mp hu).1
          · exact hpin.used tid hmem
      have hinfos : ∀ i ∈ p.threadInfos.take maxThreads,
          i.tid ≠ 0 ∧ ∃ t ∈ p.threads, t.tid = i.tid := by
        intro i hi
        refine ⟨((h.proc p hp).wellFormed.threadInfos maxThreads).2 i hi, ?_⟩
        have hmem : i.tid ∈ p.threadInfos.map (·.tid) :=
          List.mem_map_of_mem (List.mem_of_mem_take hi)
        rw [p.threadInfos_tids] at hmem
        exact List.mem_map.mp hmem
      refine wp_mono (wp_catchUpLoop_eq (s := s.tick.withProc p) (Sys.process_eq_some.mpr
        ⟨rfl, (Sys.process_eq_some.mp hp).2⟩) hpinned h.suspends hinfos) fun guard' s' h' => ?_
      obtain ⟨heq, p', hp', hpin', htids⟩ := h'
      refine ⟨fun q hq => ?_, fun hcovers hprimary q hq => ?_⟩
      · obtain rfl := Option.some.inj (hp'.symm.trans hq)
        exact ⟨hpin'.wellFormed, fun t ht hmem =>
          hpin'.suspended t ht (List.mem_append_right _ hmem), fun tid hmem =>
          hpin'.used tid (List.mem_append_right _ hmem)⟩
      · obtain rfl := Option.some.inj (hp'.symm.trans hq)
        rw [heq] at hpin'
        exact Process.othersFrozen_of_caughtUp hp hprimary (h.proc p hp).wellFormed hcovers
          htids hpin'
  refine wp_mono (wp_and hsame hrun) fun guard' s' h' => ?_
  obtain ⟨hv, hproc, hfrozen⟩ := h'
  have hdbg : s'.dbg = s.dbg := congrArg (·.dbg) hv
  refine ⟨⟨by rw [hdbg]; exact h.unlocked, fun n => ?_, by rw [hdbg]; exact hproc, ?_⟩,
    fun hcovers => ?_⟩
  · rw [show s'.os.fault = s.os.fault from congrArg (·.os.fault) hv]
    exact h.suspends n
  · rw [Sys.runLog, show s'.log = s.log from congrArg (·.log) hv]
    exact h.steps
  · rw [Sys.Frozen, hdbg]
    exact hfrozen hcovers

theorem Sys.Frozen.of_sansPatches (hv : s'.sansPatches = s.sansPatches) (h : s.Frozen) :
    s'.Frozen := by
  intro hprimary p' hp'
  obtain ⟨hproc', hpid'⟩ := Sys.process_eq_some.mp hp'
  have hprocs : s'.os.proc.map (fun p => { p with mem := fun _ => 0 }) =
      s.os.proc.map (fun p => { p with mem := fun _ => 0 }) := congrArg (·.os.proc) hv
  rw [hproc', Option.map_some] at hprocs
  obtain ⟨p, hproc, heq⟩ := Option.map_eq_some_iff.mp hprocs.symm
  have hpid : p.pid = s.dbg.pid := (congrArg (·.pid) heq).trans
    (hpid'.trans (congrArg (·.dbg.pid) hv))
  have hfrozen := h ((congrArg (·.dbg.currentTid) hv).symm.trans hprimary) p
    (Sys.process_eq_some.mpr ⟨hproc, hpid⟩)
  rw [Process.OthersFrozen, ← show p.threads = p'.threads from congrArg (·.threads) heq]
  exact hfrozen

theorem Sys.Pins.of_sansPatches (hv : s'.sansPatches = s.sansPatches) (h : s.Pins base guard) :
    s'.Pins base guard := h.of_sansReports (Sys.sansReports_of_sansPatches hv)

theorem Sys.Pins.quiet (h : s.Pins base guard) (hq : s.Quiet s') : s'.Pins base guard :=
  h.of_sansReports (Sys.sansReports_of_quiet hq)

/-- Resuming, where a single step needs the other threads to be suspended. -/
theorem Sys.Pins.resumedAs {kind : Resume} {p : Process} (h : s.Pins base guard)
    (hp : s.process s.dbg.pid = some p) (hfrozen : kind = .step → s.Frozen)
    (hq : (s.resumedAs kind p).Quiet s') : s'.Pins base guard := by
  obtain ⟨n, rfl⟩ := hq
  obtain ⟨new, hnew, hsteps⟩ := h.steps
  refine ⟨h.unlocked, h.suspends, fun q hq => ?_, .resume kind s.dbg p :: new, ?_, ?_⟩
  · obtain ⟨hproc, hpid⟩ := Sys.process_eq_some.mp hq
    obtain rfl := Option.some.inj hproc
    exact (h.proc p hp).resumed
  · change .resume kind s.dbg p :: s.runLog = _
    rw [hnew]
    rfl
  · intro d q hmem hprimary
    rcases List.mem_cons.mp hmem with heq | hmem
    · obtain ⟨rfl, rfl, rfl⟩ := Obs.resume.inj heq
      exact hfrozen rfl hprimary q hp
    · exact hsteps d q hmem hprimary

theorem Sys.Pins.wp_singleStep (h : s.Pins base guard) (hfrozen : s.Frozen) :
    wp cdbgSingleStep (fun _ s' => s'.Pins base guard) s :=
  wp_cdbgSingleStep (fun _ hq _ => h.quiet hq) fun _ _ hp hq => h.resumedAs hp (fun _ => hfrozen) hq

theorem Sys.Pins.stoppedBy {p : Process} {sig : ℕ} {ms : List Move} (h : s.Pins base guard)
    (hp : s.process s.dbg.pid = some p) (hq : (s.stoppedBy p sig ms).Quiet s') :
    s'.Pins base guard := by
  obtain ⟨n, rfl⟩ := hq
  obtain ⟨new, hnew, hsteps⟩ := h.steps
  refine ⟨h.unlocked, h.suspends, fun q hq => ?_, .stop { s.dbg with waitStatus := .stopped sig }
    (p.moves s.os.arch s.os.resume ms) :: new, ?_, fun d q hmem hprimary => ?_⟩
  · obtain ⟨hproc, -⟩ := Sys.process_eq_some.mp hq
    obtain rfl := Option.some.inj hproc
    exact Process.moves_induct (P := (·.Pinned guard)) (fun _ m _ hq => hq.move m) (h.proc p hp)
  · change .stop _ _ :: s.runLog = _
    rw [hnew]
    rfl
  · rcases List.mem_cons.mp hmem with heq | hmem
    · exact absurd heq (by simp)
    · exact hsteps d q hmem hprimary

theorem Sys.Pins.wp_wait (h : s.Pins base guard) :
    wp cdbgWait (fun _ s' => s'.Pins base guard) s := by
  refine wp_cdbgWait (fun s' hq _ => h.quiet hq) (fun p s' _ _ he => ?_)
    fun p sig ms s' hp _ _ hq => ?_
  · obtain ⟨status, waits, calls, rfl⟩ := he
    exact ⟨h.unlocked, h.suspends, fun q hq => absurd (Sys.process_eq_some.mp hq).1 (by simp),
      h.steps⟩
  · refine wp_mono (reenableBreakpointsAfterStep_keeps s') fun rc s'' hv => ?_
    have h'' := (h.stoppedBy hp hq).of_sansPatches hv
    exact ⟨fun _ => h'', fun _ => h''⟩

/-- `cdbg_continue` steps at most once, before it resumes the process. -/
theorem Sys.Pins.wp_continue (h : s.Pins base guard) (hfrozen : s.Frozen)
    (hst : s.dbg.state = .stopped) : wp cdbgContinue (fun _ s' => s'.Pins base guard) s := by
  have hcode {m : DbgM Int} {s₁ : Sys} (hm : wp m (fun _ s' => s'.Pins base guard) s₁) :
      wp m (onCode (Sys.Pins base guard) (Sys.Pins base guard)) s₁ :=
    wp_mono hm fun _ _ h => ⟨fun _ => h, fun _ => h⟩
  have hcont := cdbgContinue_rule (I := fun s' => s'.Pins base guard ∧ s'.Frozen)
    (W := Sys.Pins base guard) (C := Sys.Pins base guard) (D := Sys.Pins base guard)
    (F := Sys.Pins base guard) hst (fun _ => h)
    (fun _ => wp_mono (cdbgRefreshRegs_keeps s) fun rc s' hv =>
      ⟨fun _ => ⟨fun _ => h.of_sansPatches hv, fun _ =>
        ⟨h.of_sansPatches hv, hfrozen.of_sansPatches hv⟩⟩, fun _ => h.of_sansPatches hv⟩)
    (fun _ h' => hcode (h'.1.wp_singleStep h'.2)) (fun _ h' => hcode h'.wp_wait)
    (fun _ h' _ hq _ => h'.quiet hq)
    fun _ h' p _ hp hq => h'.resumedAs hp (fun h => absurd h (by decide)) hq
  refine wp_mono hcont fun rc s' hrc => ?_
  by_cases hzero : rc = 0
  · exact hrc.1 hzero
  · exact hrc.2 hzero

theorem Sys.Pins.wp_drop (h : s.Pins base guard) (tempBp : Breakpoint) :
    wp (dropTempBreakpoint tempBp) (fun _ s' => s'.Pins base guard) s :=
  wp_mono (dropTempBreakpoint_keeps tempBp s) fun _ _ hv => h.of_sansPatches hv

theorem Sys.Pins.wp_stepOverCall (h : s.Pins base guard) (hfrozen : s.Frozen)
    (hst : s.dbg.state = .stopped) (addr : Addr) :
    wp (stepOverCall addr) (fun _ s' => s'.Pins base guard) s := by
  rw [stepOverCall, wp_bind, wp_get, wp_bind]
  refine wp_mono (cdbgBpEnable_keeps {} addr) fun r s₁ hr => ?_
  obtain ⟨rc, tempBp⟩ := r
  obtain ⟨hd, hv, -⟩ := hr
  have h₁ := h.of_sansPatches hv
  change wp (if rc ≠ 0 then _ else _) _ _
  rw [wp_ite]
  refine ⟨fun _ => h₁, fun _ => ?_⟩
  rw [wp_bind]
  refine wp_mono (h₁.wp_continue (hfrozen.of_sansPatches hv) (by rw [hd, hst])) fun rc s₂ h₂ => ?_
  rw [wp_ite]
  refine ⟨fun _ => ?_, fun _ => ?_⟩
  · rw [wp_bind]
    exact h₂.wp_drop tempBp
  rw [wp_bind, wp_get, wp_ite]
  refine ⟨fun _ => ?_, fun _ => ?_⟩
  · rw [wp_bind]
    exact h₂.wp_drop tempBp
  rw [wp_bind]
  refine wp_mono h₂.wp_wait fun rc s₃ h₃ => ?_
  rw [wp_ite]
  refine ⟨fun _ => ?_, fun _ => ?_⟩
  · rw [wp_bind]
    exact h₃.wp_drop tempBp
  rw [wp_bind, wp_get, wp_ite]
  refine ⟨fun _ => ?_, fun _ => h₃.keeps (finishTempBreakpoint_keeps tempBp)⟩
  rw [wp_bind]
  exact h₃.wp_drop tempBp

/-- What an advance of a stepping loop needs and establishes. -/
def PinsOthers (base : List Obs) (advance : Addr → DbgM (Option Int)) : Prop :=
  ∀ guard pc s, s.Pins base guard → s.Frozen → s.dbg.state = .stopped →
    wp (advance pc) (fun r s' => s'.Pins base guard ∧ (r = none → s'.dbg.state = .stopped)) s

theorem advances_stepRound : PinsOthers base fun _ => stepRound := by
  intro guard pc s h hfrozen hst
  rw [stepRound, wp_bind]
  refine wp_mono (h.wp_singleStep hfrozen) fun rc s₁ h₁ => ?_
  rw [wp_ite]
  refine ⟨fun _ => ⟨h₁, fun h => absurd h (by simp)⟩, fun _ => ?_⟩
  rw [wp_bind]
  refine wp_mono h₁.wp_wait fun rc s₂ h₂ => ?_
  rw [wp_ite]
  refine ⟨fun _ => ⟨h₂, fun h => absurd h (by simp)⟩, fun _ => ?_⟩
  rw [wp_bind, wp_get, wp_ite]
  exact ⟨fun _ => ⟨h₂, fun h => absurd h (by simp)⟩, fun hst₂ => ⟨h₂, fun _ => not_not.mp hst₂⟩⟩

theorem advances_nextRound : PinsOthers base nextRound := by
  intro guard pc s h hfrozen hst
  rw [nextRound, wp_bind]
  refine wp_mono (callReturnAddress_keeps pc s) fun r s₁ hv => ?_
  have hquiet := Sys.quiet_iff_sansCalls.mpr hv
  have h₁ := h.quiet hquiet
  obtain ⟨n, rfl⟩ := hquiet
  cases r with
  | none => exact advances_stepRound guard pc _ h₁ hfrozen hst
  | some addr =>
    dsimp only
    rw [wp_bind]
    refine wp_mono (h₁.wp_stepOverCall hfrozen hst addr) fun rc s₂ h₂ => ?_
    rw [wp_ite]
    refine ⟨fun _ => ⟨h₂, fun h => absurd h (by simp)⟩, fun _ => ?_⟩
    rw [wp_bind, wp_get, wp_ite]
    exact ⟨fun _ => ⟨h₂, fun h => absurd h (by simp)⟩, fun hst₂ => ⟨h₂, fun _ => not_not.mp hst₂⟩⟩

theorem checkStop_keeps (start : CStr × UInt32) : Keeps Sys.sansReports (checkStop start) := by
  refine Keeps.bind cdbgRefreshRegs_keepsReports fun rc => Keeps.ite (Keeps.pure _)
    (Keeps.bind Keeps.get fun s => Keeps.ite (Keeps.bind reportStop_keeps fun _ => Keeps.pure _)
      (Keeps.bind (findWatchpointHit_keeps.mono fun _ _ => Sys.sansReports_of_sansCalls)
        fun r => ?_))
  cases r with
  | some i => exact Keeps.bind (reportWatchpointHit_keeps i) fun _ => Keeps.pure _
  | none =>
    dsimp only
    cases s.dbg.lineno.lineAtPc s.dbg.regs.pc with
    | none => exact Keeps.pure _
    | some cur => exact Keeps.pure _

/-- A round of a stepping loop whose catch-up gets to every thread. -/
theorem Sys.Pins.wp_stepLoopRound {advance : Addr → DbgM (Option Int)}
    (hadv : PinsOthers base advance) (start : CStr × UInt32) {x : Guard × Addr}
    (h : s.Pins base x.1) (hst : s.dbg.state = .stopped) (hcovers : CatchUpCovers s x.1) :
    wp (stepLoopRound advance start x) (fun r s' => Sum.elim
      (fun (y : Guard × Addr) (s' : Sys) => s'.Pins base y.1 ∧ s'.dbg.state = .stopped)
      (fun (y : Guard × Int) (s' : Sys) => s'.Pins base y.1) r s') s := by
  rw [stepLoopRound, wp_bind]
  refine wp_mono (wp_and (stepThreadGuardCatchUp_keeps x.1 s) h.wp_catchUp)
    fun guard s₁ hguard => ?_
  obtain ⟨hv, h₁, hfrozen⟩ := hguard
  have hst₁ : s₁.dbg.state = .stopped := (congrArg (·.dbg.state) hv).trans hst
  rw [wp_bind]
  refine wp_mono (hadv guard x.2 s₁ h₁ (hfrozen hcovers) hst₁) fun r s₂ hr => ?_
  obtain ⟨h₂, hst₂⟩ := hr
  cases r with
  | some rc => exact h₂
  | none =>
    dsimp only
    rw [wp_bind]
    refine wp_mono (checkStop_keeps start s₂) fun r s₃ hv₃ => ?_
    have h₃ := h₂.of_sansReports hv₃
    cases r with
    | inl pc' => exact ⟨h₃, (congrArg (·.dbg.state) hv₃).trans (hst₂ rfl)⟩
    | inr rc => exact h₃

end Command

/-! ### The catch-ups of a command -/

/-- The catch-ups of the rounds of a stepping loop: the state and the guard before each. -/
def roundCatchUps (advance : Addr → DbgM (Option Int)) (start : CStr × UInt32) :
    ℕ → Guard × Addr → Sys → List (Sys × Guard)
  | 0, _, _ => []
  | n + 1, x, s =>
    let r := (stepLoopRound advance start x).run s
    (s, x.1) :: match r.1 with
      | .inl y => roundCatchUps advance start n y r.2
      | .inr _ => []

/-- The catch-ups of a stepping command in front of its advances; there are none when the pc has
no line information. -/
def stepCatchUps (advance : Addr → DbgM (Option Int)) (s : Sys) : List (Sys × Guard) :=
  let r := cdbgRefreshRegs.run s
  if r.1 ≠ 0 then []
  else
    match r.2.dbg.lineno.lineAtPc r.2.dbg.regs.pc with
    | none => []
    | some start =>
      let g := stepThreadGuardBegin.run r.2
      roundCatchUps advance start maxStepIterations (g.1, r.2.dbg.regs.pc) g.2

section Run

variable {s : Sys} {base : List Obs} {advance : Addr → DbgM (Option Int)}

theorem Sys.Pins.wp_rounds (hadv : PinsOthers base advance) (start : CStr × UInt32) :
    ∀ {n : ℕ} {x : Guard × Addr} {s : Sys}, s.Pins base x.1 → s.dbg.state = .stopped →
    (∀ c ∈ roundCatchUps advance start n x s, CatchUpCovers c.1 c.2) →
    wp (loopUpTo (stepLoopRound advance start) n x) (fun r s' => Sum.elim
      (fun (y : Guard × Addr) (s' : Sys) => s'.Pins base y.1)
      (fun (y : Guard × Int) (s' : Sys) => s'.Pins base y.1) r s') s := by
  intro n
  induction n with
  | zero => exact fun h _ _ => h
  | succ n ih =>
    intro x s h hst hcovers
    rw [roundCatchUps] at hcovers
    have hround := h.wp_stepLoopRound hadv start hst (hcovers _ List.mem_cons_self)
    rw [wp] at hround
    rw [loopUpTo, wp_bind, wp]
    cases hr : ((stepLoopRound advance start x).run s).1 with
    | inl y =>
      rw [hr] at hround hcovers
      exact ih hround.1 hround.2 fun c hc => hcovers c (List.mem_cons_of_mem _ hc)
    | inr y =>
      rw [hr] at hround
      exact hround

/-- A stepping command whose catch-ups get to every thread. -/
theorem wp_stepLines_frozen (hadv : PinsOthers s.runLog advance)
    (hproc : ∀ p, s.process s.dbg.pid = some p → p.WellFormed)
    (hst : s.dbg.state = .stopped) (hl : s.dbg.threadLockActive = false)
    (hok : s.Reliable .threadSuspend) (hline : stepCatchUps advance s ≠ [])
    (hcovers : ∀ c ∈ stepCatchUps advance s, CatchUpCovers c.1 c.2) :
    wp (stepLines advance) (fun _ s' => ∃ new, s'.runLog = new ++ s.runLog ∧ StepsFrozen new)
      s := by
  have h : s.Pins s.runLog [] := ⟨hl, hok, fun p hp => ⟨hproc p hp, fun _ _ hmem =>
    absurd hmem List.not_mem_nil, fun _ hmem => absurd hmem List.not_mem_nil⟩, [], rfl,
    fun _ _ hmem => absurd hmem List.not_mem_nil⟩
  have hrefresh : (cdbgRefreshRegs.run s).2.sansReports = s.sansReports :=
    cdbgRefreshRegs_keepsReports s
  rw [stepCatchUps] at hline hcovers
  rw [stepLines, wp_bind, wp]
  dsimp only at hline hcovers
  generalize cdbgRefreshRegs.run s = r at *
  obtain ⟨rc, s₁⟩ := r
  have h₁ := h.of_sansReports hrefresh
  rw [wp_ite]
  refine ⟨fun _ => h₁.steps, fun hrc => ?_⟩
  rw [if_neg hrc] at hline hcovers
  rw [wp_bind, wp_get]
  dsimp only at hline hcovers ⊢
  cases hat : s₁.dbg.lineno.lineAtPc s₁.dbg.regs.pc with
  | none =>
    rw [hat] at hline
    exact absurd rfl hline
  | some start =>
    rw [hat] at hcovers
    dsimp only at hcovers ⊢
    rw [wp_bind, wp]
    have hbegin : (stepThreadGuardBegin.run s₁).2.Pins s.runLog (stepThreadGuardBegin.run s₁).1 :=
      h₁.wp_catchUp.1
    have hstate : (stepThreadGuardBegin.run s₁).2.dbg.state = s₁.dbg.state :=
      congrArg (·.dbg.state) (stepThreadGuardCatchUp_keeps [] s₁)
    rw [ControlPoints.state_of_sansReports hrefresh, hst] at hstate
    -- releasing the guard is not an event
    have hend : ∀ {guard : Guard} {s' : Sys}, s'.Pins s.runLog guard → wp (stepThreadGuardEnd guard)
        (fun _ s'' => ∃ new, s''.runLog = new ++ s.runLog ∧ StepsFrozen new) s' := by
      intro guard s' h'
      refine wp_mono (stepThreadGuardEnd_keeps guard s') fun _ s'' hv => ?_
      rw [Sys.runLog, show s''.log = s'.log from congrArg (·.log) hv]
      exact h'.steps
    rw [wp_bind]
    refine wp_mono (hbegin.wp_rounds (x := (_, _)) hadv start hstate hcovers) fun r s₃ h₃ => ?_
    cases r with
    | inl y =>
      change wp (do
        stepThreadGuardEnd y.1
        return -1) _ _
      rw [wp_bind]
      exact hend h₃
    | inr y =>
      change wp (do
        stepThreadGuardEnd y.1
        return y.2) _ _
      rw [wp_bind]
      exact hend h₃

end Run

/-- At every single step the command makes with the primary thread selected, every other thread is
suspended. -/
def Sys.StepsOnlyPrimary (s : Sys) (command : DbgM Int) : Prop :=
  ∃ new, (command.run s).2.runLog = new ++ s.runLog ∧ StepsFrozen new

/-- `lock` suspends every other thread exactly when those behind the list are suspended, and the
stepping commands do when each of their catch-ups gets to every thread. -/
theorem other_threads_frozen {s : Sys}
    (hwf : ∀ p, s.process s.dbg.pid = some p → p.WellFormed) :
    (∀ args s', (cmdLock args).run s = (0, s') → (s'.LockFrozen ↔ s.BeyondFrozen)) ∧
      (s.dbg.state = .stopped → s.dbg.threadLockActive = false → s.Reliable .threadSuspend →
        (stepCatchUps (fun _ => stepRound) s ≠ [] →
          (∀ c ∈ stepCatchUps (fun _ => stepRound) s, CatchUpCovers c.1 c.2) →
          s.StepsOnlyPrimary cdbgStepNextLine) ∧
        (stepCatchUps nextRound s ≠ [] →
          (∀ c ∈ stepCatchUps nextRound s, CatchUpCovers c.1 c.2) →
          s.StepsOnlyPrimary cdbgNextSourceLine)) :=
  ⟨fun _ _ hrun => cmdLock_frozen_iff hwf hrun, fun hst hl hok =>
    ⟨wp_stepLines_frozen advances_stepRound hwf hst hl hok,
      wp_stepLines_frozen advances_nextRound hwf hst hl hok⟩⟩

/-- Two threads, and line information for the next two instructions. -/
def twoThreadsAtLine : Sys :=
  let s := Sys.attached .x86_64 twoThreads fun _ => .stopped 5 [.exec 1 (x86At 0x1001) []]
  { s with dbg := { s.dbg with lineno := { entries :=
    [{ address := 0x1000, line := 10, column := 0, file := "a.c".toList },
      { address := 0x1001, line := 11, column := 0, file := "a.c".toList }] } } }

/-- The threads are listed, and there are few of them. -/
def fewThreads (c : Sys × Guard) : Bool :=
  !c.1.os.fault .taskThreads c.1.os.calls.count &&
    c.1.os.proc.all fun p => c.2.length + p.threads.length ≤ maxThreads

/-- Few threads are always got to. -/
theorem CatchUpCovers.of_few {c : Sys × Guard} (h : fewThreads c = true) :
    CatchUpCovers c.1 c.2 := by
  intro _ p hp i t hget hi _
  rw [fewThreads, Bool.and_eq_true, (Sys.process_eq_some.mp hp).1, Option.all_some,
    decide_eq_true_eq, Bool.not_eq_true'] at h
  obtain ⟨hok, hfew⟩ := h
  have hlt := (List.getElem?_eq_some_iff.mp hget).1
  have hcount : (p.threads.take i).tail.countP (·.tid ∉ c.2) ≤ i - 1 := by
    refine Nat.le_trans List.countP_le_length ?_
    rw [List.length_tail, List.length_take]
    omega
  exact ⟨hok, by omega, by omega⟩

/-- `lock 0`, `step` and `next` there. -/
theorem other_threads_frozen_two :
    let s := twoThreadsAtLine
    ((cmdLock (some "0".toList)).run s).1 = 0 ∧
      (((cmdLock (some "0".toList)).run s).2.LockFrozen ↔ s.BeyondFrozen) ∧
      s.StepsOnlyPrimary cdbgStepNextLine ∧ s.StepsOnlyPrimary cdbgNextSourceLine := by
  intro s
  have hwf (p : Process) (hp : s.process s.dbg.pid = some p) : p.WellFormed := by
    obtain rfl := Option.some.inj hp
    exact twoThreads_wellFormed
  have hlock : ((cmdLock (some "0".toList)).run s).1 = 0 := by decide +kernel
  obtain ⟨hl, hsteps⟩ := other_threads_frozen hwf
  obtain ⟨hstep, hnext⟩ := hsteps rfl rfl fun _ => rfl
  have hstepFew : (stepCatchUps (fun _ => stepRound) s).all fewThreads = true := by decide +kernel
  have hnextFew : (stepCatchUps nextRound s).all fewThreads = true := by decide +kernel
  refine ⟨hlock, hl _ _ (run_of_code hlock),
    hstep (List.isEmpty_eq_false_iff.mp (by decide +kernel))
      fun c hc => .of_few (List.all_eq_true.mp hstepFew c hc),
    hnext (List.isEmpty_eq_false_iff.mp (by decide +kernel))
      fun c hc => .of_few (List.all_eq_true.mp hnextFew c hc)⟩

/-- One thread more than the debugger lists. -/
def manyThreads : Process where
  pid := 100
  mem _ := 0x90
  threads := (List.range (maxThreads + 1)).map fun i =>
    { tid := UInt64.ofNat (i + 1), regs := x86At 0x1000 }
  usedTids := (List.range (maxThreads + 1)).map fun i => UInt64.ofNat (i + 1)

/-- `lock 0` succeeds there, and the last thread goes on. -/
theorem other_threads_not_frozen :
    ¬ ∀ s : Sys, (∀ p, s.process s.dbg.pid = some p → p.WellFormed) →
      (∀ args s', (cmdLock args).run s = (0, s') → s'.LockFrozen) ∧
      (s.dbg.state = .stopped → s.dbg.threadLockActive = false → s.Reliable .threadSuspend →
        s.StepsOnlyPrimary cdbgStepNextLine ∧ s.StepsOnlyPrimary cdbgNextSourceLine) := by
  intro h
  let s := Sys.attached .x86_64 manyThreads fun _ => .exited 0
  have hwf (p : Process) (hp : s.process s.dbg.pid = some p) : p.WellFormed := by
    obtain rfl := Option.some.inj hp
    exact ⟨by decide +kernel, by decide +kernel, by decide +kernel⟩
  have hlock : ((cmdLock (some "0".toList)).run s).1 = 0 := by decide +kernel
  have hfrozen := (cmdLock_frozen_iff hwf (run_of_code hlock)).mp
    ((h s hwf).1 _ _ (run_of_code hlock)) manyThreads rfl
  exact absurd hfrozen (by decide +kernel)

end Debugger
