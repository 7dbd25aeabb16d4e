/-
Suspend counts are conserved.

`lock` with its rollback and the guard of the stepping commands share the kernel's
suspend count.  At every moment the debugger holds each thread as often as the
thread occurs in the list `lockedOut ++ guard` (`Holds`): the threads `lock` has
suspended and those the running command has suspended.  At a prompt the guard is
empty (`suspendCount_at_prompt`).
-/
import Debugger.Prompt

open Prog

namespace Debugger

/-- Every thread is suspended as often as the list names it. -/
structure Process.HeldBy (p : Process) (tids : List UInt64) : Prop where
  count : ∀ t ∈ p.threads, t.suspendCount = tids.count t.tid
  used : ∀ tid ∈ tids, tid ∈ p.usedTids ∧ tid ≠ 0

/-! ### The process -/

namespace Process

variable {p : Process} {tids : List UInt64} {tid : UInt64}

theorem thread_eq_some {t : Thread} (h : p.thread tid = some t) (h0 : tid ≠ 0) :
    t ∈ p.threads ∧ t.tid = tid := by
  rw [thread, if_neg h0] at h
  exact ⟨List.mem_of_find?_eq_some h, by simpa using List.find?_some h⟩

theorem HeldBy.perm {tids' : List UInt64} (h : p.HeldBy tids) (hp : tids.Perm tids') :
    p.HeldBy tids' :=
  ⟨fun t ht => by rw [h.count t ht, hp.count_eq], fun tid ht => h.used tid (hp.mem_iff.mpr ht)⟩

/-- Mapping the threads that `tid` names to a new suspend count. -/
theorem heldBy_mapThread {f : Thread → Thread} {tids' : List UInt64}
    (hf : ∀ t, (f t).tid = t.tid)
    (hcount : ∀ t ∈ p.threads, (if t.tid = tid then f t else t).suspendCount = tids'.count t.tid)
    (hused : ∀ u ∈ tids', u ∈ p.usedTids ∧ u ≠ 0) : (p.mapThread tid f).HeldBy tids' := by
  constructor
  · intro t ht
    obtain ⟨u, hu, rfl⟩ := List.mem_map.mp ht
    have htid : (if u.tid = tid then f u else u).tid = u.tid := by
      split
      · exact hf u
      · rfl
    show (if u.tid = tid then f u else u).suspendCount = tids'.count _
    rw [htid]
    exact hcount u hu
  · exact hused

theorem HeldBy.suspend (h : p.HeldBy tids) (hu : tid ∈ p.usedTids) (h0 : tid ≠ 0) :
    (p.mapThread tid fun t => { t with suspendCount := t.suspendCount + 1 }).HeldBy
      (tid :: tids) := by
  refine heldBy_mapThread (fun _ => rfl) (fun t ht => ?_) fun u hu' => ?_
  · rw [List.count_cons]
    by_cases htid : t.tid = tid
    · rw [if_pos htid]
      simp [h.count t ht, htid]
    · rw [if_neg htid, h.count t ht]
      simp [Ne.symm htid]
  · rcases List.mem_cons.mp hu' with rfl | hu'
    · exact ⟨hu, h0⟩
    · exact h.used u hu'

theorem HeldBy.resume (h : p.HeldBy (tid :: tids)) :
    (p.mapThread tid fun t => { t with suspendCount := t.suspendCount - 1 }).HeldBy tids := by
  refine heldBy_mapThread (fun _ => rfl) (fun t ht => ?_) fun u hu => h.used u (by simp [hu])
  have hc := h.count t ht
  rw [List.count_cons] at hc
  by_cases htid : t.tid = tid
  · rw [if_pos htid]
    simp only [htid, BEq.rfl, if_true] at hc
    simp only [htid]
    omega
  · rw [if_neg htid, hc]
    simp [Ne.symm htid]

/-- Nothing has to be done for a thread that is gone. -/
theorem HeldBy.gone (h : p.HeldBy (tid :: tids)) (hgone : ∀ t ∈ p.threads, t.tid ≠ tid) :
    p.HeldBy tids := by
  refine ⟨fun t ht => ?_, fun u hu => h.used u (by simp [hu])⟩
  rw [h.count t ht, List.count_cons]
  simp [(hgone t ht).symm]

theorem HeldBy.of_sansReports {p' : Process} (hv : p'.sansReports = p.sansReports)
    (h : p.HeldBy tids) : p'.HeldBy tids := by
  refine ⟨fun t' ht' => ?_, fun u hu => ?_⟩
  · obtain ⟨t, ht, htid, hcount, -⟩ := thread_of_sansReports hv ht'
    rw [← hcount, ← htid]
    exact h.count t ht
  · rw [show p'.usedTids = p.usedTids from congrArg (·.usedTids) hv]
    exact h.used u hu

theorem HeldBy.resumed (h : p.HeldBy tids) : p.resumed.HeldBy tids := by
  refine ⟨fun t ht => ?_, h.used⟩
  obtain ⟨u, hu, rfl⟩ := List.mem_map.mp ht
  exact h.count u hu

/-- A move neither suspends a thread nor reuses an id. -/
theorem HeldBy.move {arch : Arch} {kind : Resume} (h : p.HeldBy tids) (m : Move) :
    (p.move arch kind m).HeldBy tids := by
  rcases @move_cases arch kind p m with
    hm | ⟨tid, regs, writes, t, -, -, -, ⟨-, hm⟩ | ⟨-, hm⟩⟩ | ⟨tid, regs, -, hu, hm⟩ |
      ⟨tid, hm⟩
  · rw [hm]
    exact h
  · rw [hm]
    refine heldBy_mapThread (fun _ => rfl) (fun t ht => ?_) h.used
    split <;> exact h.count t ht
  · rw [hm]
    have hmap : (p.mapThread tid (·.execInstr (p.stepsOnce kind tid) regs)).HeldBy tids := by
      refine heldBy_mapThread (fun _ => rfl) (fun t ht => ?_) h.used
      split <;> exact h.count t ht
    exact ⟨hmap.count, hmap.used⟩
  · rw [hm]
    refine ⟨fun t ht => ?_, fun u hu' => ⟨List.mem_cons_of_mem _ (h.used u hu').1, (h.used u hu').2⟩⟩
    rcases List.mem_append.mp ht with ht | ht
    · exact h.count t ht
    · obtain rfl := List.mem_singleton.mp ht
      exact (List.count_eq_zero_of_not_mem fun hmem => hu (h.used _ hmem).1).symm
  · rw [hm]
    exact ⟨fun t ht => h.count t (List.mem_filter.mp ht).1, h.used⟩

end Process

/-! ### The debugger's holds -/

/-- The debugger holds exactly the threads in the list. -/
structure Sys.Holding (s : Sys) (tids : List UInt64) : Prop where
  proc : ∀ p, s.os.proc = some p → p.WellFormed ∧ p.pid = s.dbg.pid ∧ p.HeldBy tids
  resume : s.Reliable .threadResume
  ended : s.dbg.state = .idle → s.os.proc = none

/-- The invariant while a command has suspended the threads in `g`. -/
structure Holds (g : Guard) (s : Sys) : Prop where
  holding : s.Holding (s.dbg.lockedOut ++ g)
  nodup : (s.dbg.lockedOut ++ g).Nodup
  locked : s.dbg.threadLockActive = true → g = []

section Holding

variable {s s' : Sys} {tids : List UInt64} {g : Guard} {tid : UInt64}

theorem Sys.Holding.quiet (h : s.Holding tids) (hq : s.Quiet s') : s'.Holding tids := by
  obtain ⟨n, rfl⟩ := hq
  exact ⟨h.proc, h.resume, h.ended⟩

theorem Sys.Holding.perm {tids' : List UInt64} (h : s.Holding tids) (hp : tids.Perm tids') :
    s.Holding tids' :=
  ⟨fun p hs => ⟨(h.proc p hs).1, (h.proc p hs).2.1, (h.proc p hs).2.2.perm hp⟩, h.resume, h.ended⟩

theorem Sys.Holding.of_sansReports (hv : s'.sansReports = s.sansReports) (h : s.Holding tids) :
    s'.Holding tids := by
  have hpid : s'.dbg.pid = s.dbg.pid := congrArg (·.dbg.pid) hv
  have hfault : s'.os.fault = s.os.fault := congrArg (·.os.fault) hv
  have hstate : s'.dbg.state = s.dbg.state := congrArg (·.dbg.state) hv
  refine ⟨fun p' hp' => ?_, fun n => by rw [hfault]; exact h.resume n, fun hi => ?_⟩
  · obtain ⟨p, hp, hpp⟩ := Sys.proc_of_sansReports hv hp'
    obtain ⟨hwf, hid, hheld⟩ := h.proc p hp
    have hpid' : p'.pid = p.pid := congrArg (·.pid) hpp
    exact ⟨hwf.of_sansReports hpp, by rw [hpid', hid, hpid], hheld.of_sansReports hpp⟩
  · refine Option.eq_none_iff_forall_ne_some.mpr fun p' hp' => ?_
    obtain ⟨p, hp, -⟩ := Sys.proc_of_sansReports hv hp'
    rw [h.ended (hstate ▸ hi)] at hp
    exact absurd hp (by simp)

theorem Holds.of_sansReports (hv : s'.sansReports = s.sansReports) (h : Holds g s) :
    Holds g s' := by
  have hactive : s'.dbg.threadLockActive = s.dbg.threadLockActive :=
    congrArg (·.dbg.threadLockActive) hv
  have htids : s'.dbg.suspendedTids = s.dbg.suspendedTids := congrArg (·.dbg.suspendedTids) hv
  have hcount : s'.dbg.suspendedTidCount = s.dbg.suspendedTidCount :=
    congrArg (·.dbg.suspendedTidCount) hv
  have hout : s'.dbg.lockedOut = s.dbg.lockedOut := by
    rw [Cdbg.lockedOut, hactive, htids, hcount, Cdbg.lockedOut]
  refine ⟨?_, by rw [hout]; exact h.nodup, fun ha => h.locked (hactive ▸ ha)⟩
  rw [hout]
  exact h.holding.of_sansReports hv

theorem Holds.quiet (h : Holds g s) (hq : s.Quiet s') : Holds g s' :=
  h.of_sansReports (Sys.sansReports_of_quiet hq)

/-- A function that only reports keeps the invariant. -/
theorem Holds.keeps {α : Type} {m : DbgM α} (hm : Keeps Sys.sansReports m) (h : Holds g s) :
    wp m (fun _ s' => Holds g s') s := wp_mono (hm s) fun _ _ hv => h.of_sansReports hv

theorem Holds.keepsCode {m : DbgM Int} (hm : Keeps Sys.sansReports m) (h : Holds g s) :
    wp m (onCode (Holds g) (Holds g)) s := wp_mono (h.keeps hm) fun _ _ h => ⟨fun _ => h, fun _ => h⟩

/-! ### Suspending and resuming -/

theorem Sys.Holding.wp_suspend (h : s.Holding tids) (h0 : tid ≠ 0) :
    wp (cdbgThreadSuspend s.dbg.pid tid) (fun rc s' => s'.dbg = s.dbg ∧
      (rc = 0 → s'.Holding (tid :: tids)) ∧ (rc ≠ 0 → s'.Holding tids)) s := by
  refine wp_updateThread (fun s' hq _ => ?_) fun p t g s' hp ht hg hq => ?_
  · have hd : s'.dbg = s.dbg := by obtain ⟨n, rfl⟩ := hq; rfl
    exact ⟨hd, fun h => absurd h neg_one_ne, fun _ => h.quiet hq⟩
  · obtain rfl := Option.some.inj hg
    obtain ⟨n, rfl⟩ := hq
    obtain ⟨hproc, -⟩ := Sys.process_eq_some.mp hp
    obtain ⟨hwf, hpid, hheld⟩ := h.proc p hproc
    obtain ⟨hmem, htid⟩ := Process.thread_eq_some ht h0
    refine ⟨rfl, fun _ => ⟨fun q hq => ?_, h.resume, fun hi => ?_⟩, fun h => absurd rfl h⟩
    on_goal 2 => exact absurd (h.ended hi) (by rw [hproc]; simp)
    obtain rfl := Option.some.inj hq
    rw [htid]
    exact ⟨Process.wellFormed_of_tids (Process.mapThread_tids fun _ => rfl) rfl hwf, hpid,
      hheld.suspend (htid ▸ hwf.used t hmem) h0⟩

theorem Sys.Holding.wp_resume (h : s.Holding (tid :: tids)) :
    wp (cdbgThreadResume s.dbg.pid tid) (fun _ s' => s'.dbg = s.dbg ∧ s'.Holding tids) s := by
  have hfail : ∀ s', s.Quiet s' →
      (∀ p, s.os.proc = some p → ∀ t ∈ p.threads, t.tid ≠ tid) →
      s'.dbg = s.dbg ∧ s'.Holding tids := by
    rintro s' ⟨n, rfl⟩ hgone
    refine ⟨rfl, fun p hp => ?_, h.resume, h.ended⟩
    obtain ⟨hwf, hpid, hheld⟩ := h.proc p hp
    exact ⟨hwf, hpid, hheld.gone (hgone p hp)⟩
  refine wp_updateThread (fun s' hq hun => hfail s' hq fun p hp t ht htid => ?_)
    fun p t g s' hp ht hg hq => ?_
  · -- the kernel refuses only what is not there or not suspended
    obtain ⟨hwf, hpid, hheld⟩ := h.proc p hp
    have h0 : tid ≠ 0 := (hheld.used tid (by simp)).2
    have hfind : (p.thread tid).isSome = true := by
      rw [Process.thread, if_neg h0, List.find?_isSome]
      exact ⟨t, ht, by simpa using htid⟩
    obtain ⟨u, hu⟩ := Option.isSome_iff_exists.mp hfind
    obtain ⟨hmem, hutid⟩ := Process.thread_eq_some hu h0
    have hzero := hun h.resume p u (Sys.process_eq_some.mpr ⟨hp, hpid⟩) hu
    have hcount := hheld.count u hmem
    rw [hutid, List.count_cons_self] at hcount
    rw [if_neg (by omega)] at hzero
    exact absurd hzero (by simp)
  · obtain ⟨n, rfl⟩ := hq
    obtain ⟨hproc, -⟩ := Sys.process_eq_some.mp hp
    obtain ⟨hwf, hpid, hheld⟩ := h.proc p hproc
    obtain ⟨-, htid⟩ := Process.thread_eq_some ht (hheld.used tid (by simp)).2
    split at hg
    · exact absurd hg (by simp)
    · obtain rfl := Option.some.inj hg
      refine ⟨rfl, fun q hq => ?_, h.resume, fun hi => ?_⟩
      on_goal 2 => exact absurd (h.ended hi) (by rw [hproc]; simp)
      obtain rfl := Option.some.inj hq
      rw [htid]
      exact ⟨Process.wellFormed_of_tids (Process.mapThread_tids fun _ => rfl) rfl hwf, hpid,
        hheld.resume⟩

/-- Resuming all threads of the list releases all holds. -/
theorem Sys.Holding.wp_resumeAll (pid : ℕ) : ∀ {tids more : List UInt64} {s : Sys},
    s.dbg.pid = pid → s.Holding (tids ++ more) →
    wp (resumeAll pid tids) (fun _ s' => s'.dbg = s.dbg ∧ s'.Holding more) s := by
  intro tids
  induction tids with
  | nil => exact fun _ h => ⟨rfl, h⟩
  | cons tid tids ih =>
    intro more s hpid h
    rw [resumeAll, forEach, wp_bind, wp_bind]
    have hres := h.wp_resume
    rw [hpid] at hres
    refine wp_mono hres fun _ s₁ h₁ => ?_
    rw [wp_pure]
    refine wp_mono (ih (by rw [h₁.1, hpid]) h₁.2) fun _ s₂ h₂ => ?_
    exact ⟨h₂.1.trans h₁.1, h₂.2⟩

/-- The same for the loop of `unlock`, which also computes a code. -/
theorem Sys.Holding.wp_unlockLoop (pid : ℕ) : ∀ {tids : List UInt64} {rc : Int} {s : Sys},
    s.dbg.pid = pid → s.Holding tids →
    wp (unlockLoop pid tids rc) (fun _ s' => s'.dbg = s.dbg ∧ s'.Holding []) s := by
  intro tids
  induction tids with
  | nil => exact fun _ h => ⟨rfl, h⟩
  | cons tid tids ih =>
    intro rc s hpid h
    have hres := h.wp_resume
    rw [hpid] at hres
    rw [unlockLoop, wp_bind]
    refine wp_mono hres fun _ s₁ h₁ => ?_
    refine wp_mono (ih (by rw [h₁.1, hpid]) h₁.2) fun _ s₂ h₂ => ?_
    exact ⟨h₂.1.trans h₁.1, h₂.2⟩

theorem lockedOut_unlocked {d : Cdbg} (h : d.threadLockActive = false) : d.lockedOut = [] := by
  rw [Cdbg.lockedOut, h]
  rfl

theorem Holds.of_unlocked (hl : s.dbg.threadLockActive = false) (h : s.Holding g)
    (hn : g.Nodup) : Holds g s := by
  refine ⟨?_, ?_, fun ha => absurd (hl.symm.trans ha) (by decide)⟩
  · rw [lockedOut_unlocked hl]
    exact h
  · rw [lockedOut_unlocked hl]
    exact hn

theorem Process.threadInfos_tids (p : Process) :
    p.threadInfos.map (·.tid) = p.threads.map (·.tid) := by
  rw [Process.threadInfos]
  cases p.threads with
  | nil => rfl
  | cons t ts => simp

/-- The listed threads have distinct ids other than 0. -/
theorem Process.WellFormed.threadInfos {p : Process} (h : p.WellFormed) (n : ℕ) :
    ((p.threadInfos.take n).map (·.tid)).Nodup ∧ ∀ t ∈ p.threadInfos.take n, t.tid ≠ 0 := by
  refine ⟨?_, fun t ht => ?_⟩
  · rw [List.map_take, p.threadInfos_tids]
    exact h.nodup.sublist (List.take_sublist _ _)
  · have hm : t.tid ∈ p.threadInfos.map (·.tid) := List.mem_map_of_mem (List.mem_of_mem_take ht)
    rw [p.threadInfos_tids] at hm
    obtain ⟨u, hu, hut⟩ := List.mem_map.mp hm
    rw [← hut]
    exact h.ne_zero u hu

/-! ### The guard of the stepping commands -/

theorem Holds.wp_catchUpLoop (pid : ℕ) (currentTid : UInt64) :
    ∀ {infos : List ThreadInfo} {g : Guard} {s : Sys}, s.dbg.pid = pid →
    s.dbg.threadLockActive = false → (∀ t ∈ infos, t.tid ≠ 0) → Holds g s →
    wp (catchUpLoop pid currentTid infos g) (fun g' s' => Holds g' s') s := by
  intro infos
  induction infos with
  | nil => exact fun _ _ _ h => h
  | cons t ts ih =>
    intro g s hpid hl h0 h
    have h0' : ∀ u ∈ ts, u.tid ≠ 0 := fun u hu => h0 u (by simp [hu])
    rw [catchUpLoop, wp_ite]
    refine ⟨fun _ => h, fun _ => ?_⟩
    rw [wp_ite]
    refine ⟨fun _ => ih hpid hl h0' h, fun hskip => ?_⟩
    obtain ⟨-, -, hnew⟩ := not_or.mp hskip |>.imp_right not_or.mp
    have hhold : s.Holding g := by
      have := h.holding
      rwa [lockedOut_unlocked hl] at this
    have hnodup : g.Nodup := by
      have := h.nodup
      rwa [lockedOut_unlocked hl] at this
    have hsus := hhold.wp_suspend (h0 t (by simp))
    rw [hpid] at hsus
    rw [wp_bind]
    refine wp_mono hsus fun rc s₁ h₁ => ?_
    obtain ⟨hd, hok, hbad⟩ := h₁
    have hl₁ : s₁.dbg.threadLockActive = false := by rw [hd, hl]
    refine ih (by rw [hd, hpid]) hl₁ h0' ?_
    by_cases hrc : rc = 0
    · rw [if_pos hrc]
      refine Holds.of_unlocked hl₁ ((hok hrc).perm (List.perm_append_singleton _ _).symm) ?_
      rw [(List.perm_append_singleton t.tid g).nodup_iff, List.nodup_cons]
      exact ⟨hnew, hnodup⟩
    · rw [if_neg hrc]
      exact Holds.of_unlocked hl₁ (hbad hrc) hnodup

theorem Holds.wp_catchUp (h : Holds g s) :
    wp (stepThreadGuardCatchUp g) (fun g' s' => Holds g' s') s := by
  rw [stepThreadGuardCatchUp, wp_bind, wp_get, wp_ite]
  refine ⟨fun _ => h, fun hl => ?_⟩
  rw [wp_bind]
  refine wp_cdbgThreadsList (fun s' hq _ => h.quiet hq) fun p s' hp hq => ?_
  have hwf : p.WellFormed := (h.holding.proc p (Sys.process_eq_some.mp hp).1).1
  have h' := h.quiet hq
  obtain ⟨n, rfl⟩ := hq
  exact Holds.wp_catchUpLoop s.dbg.pid _ rfl (by simpa using hl) (hwf.threadInfos _).2 h'

theorem Holds.wp_guardEnd (h : Holds g s) :
    wp (stepThreadGuardEnd g) (fun _ s' => Holds [] s') s := by
  rw [stepThreadGuardEnd, wp_bind, wp_get]
  cases hl : s.dbg.threadLockActive with
  | true =>
    obtain rfl := h.locked hl
    exact h
  | false =>
    have hhold : s.Holding (g ++ []) := by
      have := h.holding
      rwa [lockedOut_unlocked hl, List.nil_append, ← List.append_nil g] at this
    refine wp_mono (hhold.wp_resumeAll s.dbg.pid rfl) fun _ s' h' => ?_
    exact Holds.of_unlocked (by rw [h'.1, hl]) h'.2 List.nodup_nil

/-! ### Resuming the debuggee -/

theorem Holds.resumedAs {kind : Resume} {p : Process} (h : Holds g s)
    (hp : s.process s.dbg.pid = some p) (hq : (s.resumedAs kind p).Quiet s') : Holds g s' := by
  obtain ⟨n, rfl⟩ := hq
  obtain ⟨hproc, -⟩ := Sys.process_eq_some.mp hp
  obtain ⟨hwf, hpid, hheld⟩ := h.holding.proc p hproc
  refine ⟨⟨fun q hq => ?_, h.holding.resume, fun hi => absurd hi (by simp [Sys.resumedAs])⟩,
    h.nodup, h.locked⟩
  obtain rfl := Option.some.inj hq
  exact ⟨hwf.resumed, hpid, hheld.resumed⟩

theorem Holds.stoppedBy {p : Process} {sig : ℕ} {ms : List Move} (h : Holds g s)
    (hp : s.process s.dbg.pid = some p) (hq : (s.stoppedBy p sig ms).Quiet s') :
    Holds g s' := by
  obtain ⟨n, rfl⟩ := hq
  obtain ⟨hproc, -⟩ := Sys.process_eq_some.mp hp
  obtain ⟨hwf, hpid, hheld⟩ := h.holding.proc p hproc
  refine ⟨⟨fun q hq => ?_, h.holding.resume, fun hi => absurd hi (by simp [Sys.stoppedBy])⟩,
    h.nodup, h.locked⟩
  obtain rfl := Option.some.inj hq
  exact Process.moves_induct (P := fun q => q.WellFormed ∧ q.pid = s.dbg.pid ∧
    q.HeldBy (s.dbg.lockedOut ++ g)) (fun q m _ hq => ⟨hq.1.move m,
      (Process.moves_pid [m]).trans hq.2.1, hq.2.2.move m⟩) ⟨hwf, hpid, hheld⟩

theorem Holds.ended (h : Holds g s) (he : s.Ended s') : Holds g s' := by
  obtain ⟨status, waits, calls, rfl⟩ := he
  exact ⟨⟨fun p hp => absurd hp (by simp), h.holding.resume, fun _ => rfl⟩, h.nodup, h.locked⟩

theorem Holds.wp_wait (h : Holds g s) : wp cdbgWait (onCode (Holds g) (Holds g)) s := by
  have hall : ∀ {rc s'}, Holds g s' → onCode (Holds g) (Holds g) rc s' :=
    fun h => ⟨fun _ => h, fun _ => h⟩
  refine wp_cdbgWait (fun s' hq _ => hall (h.quiet hq)) (fun p s' _ _ he => hall (h.ended he))
    fun p sig ms s' hp _ _ hq => ?_
  refine wp_mono ((h.stoppedBy hp hq).keeps (reenableBreakpointsAfterStep_keeps.mono
    fun _ _ => Sys.sansReports_of_sansPatches)) fun rc s'' h'' => ?_
  exact ⟨fun _ => hall h'', fun _ => hall h''⟩

theorem Holds.wp_singleStep (h : Holds g s) :
    wp cdbgSingleStep (onCode (Holds g) (Holds g)) s :=
  wp_cdbgSingleStep (fun _ hq _ => ⟨fun _ => h.quiet hq, fun _ => h.quiet hq⟩)
    fun _ _ hp hq => ⟨fun _ => h.resumedAs hp hq, fun _ => h.resumedAs hp hq⟩

/-- The invariant at every control point. -/
def holdPoints : ControlPoints where
  ready g _ := Holds g
  waiting g _ := Holds g
  arrived g _ := Holds g
  settled g := Holds g
  reported g := Holds g
  failed g _ := Holds g
  prompt _ := Holds []

theorem Holds.processExit (h : Holds g s) (hi : s.dbg.state = .idle) :
    Holds g (s.withDbg s.dbg.exited) := by
  have hnone := h.holding.ended hi
  exact ⟨⟨fun p hp => absurd (hnone.symm.trans hp) (by simp), h.holding.resume, fun _ => hnone⟩,
    h.nodup, h.locked⟩

theorem holdPoints_sound : holdPoints.SoundNext where
  readyQuiet h hq := Holds.quiet h hq
  settledQuiet h hq := Holds.quiet h hq
  settle h := h
  goOn h _ _ := h
  leave h _ _ := h
  giveUp h := h
  refreshReady h := Holds.keepsCode cdbgRefreshRegs_keepsReports h
  refreshSettled h := Holds.keepsCode cdbgRefreshRegs_keepsReports h
  catchUp h := Holds.wp_catchUp h
  singleStep h := Holds.wp_singleStep h
  «continue» {g _ _} hst h := cdbgContinue_rule (I := Holds g) (W := Holds g) (C := Holds g)
    hst (fun _ => h)
    (fun _ => wp_mono (Holds.keepsCode cdbgRefreshRegs_keepsReports h) fun _ _ h' =>
      onCode_mono h' (fun h' => ⟨fun _ => h', fun _ => h'⟩) id)
    (fun _ h' => Holds.wp_singleStep h') (fun _ h' => Holds.wp_wait h')
    (fun _ h' _ hq _ => Holds.quiet h' hq) fun _ h' _ _ hp hq => Holds.resumedAs h' hp hq
  wait h := Holds.wp_wait h
  report h := Holds.keeps reportStop_keeps h
  reportAtTrap h _ _ := Holds.keepsCode reportStop_keeps h
  watch h _ _ := Holds.keeps (reportWatchpointHit_keeps _) h
  endArrived h := Holds.wp_guardEnd h
  endReported h := Holds.wp_guardEnd h
  endFailed h := Holds.wp_guardEnd h
  done _ h := h
  exit hi h := Holds.processExit h hi
  fatal _ h := h
  tempEnable h _ := wp_mono (cdbgBpEnable_keeps _ _) fun _ _ h' =>
    have h'' := Holds.of_sansReports (Sys.sansReports_of_sansPatches h'.2.1) h
    ⟨fun _ => h'', fun _ => h''⟩
  dropTemp h := Holds.keeps ((dropTempBreakpoint_keeps _).mono fun _ _ =>
    Sys.sansReports_of_sansPatches) h
  finishTemp _ h := Holds.keepsCode (finishTempBreakpoint_keeps _) h

/-! ### lock, unlock and thread -/

theorem Sys.Holding.wp_lockLoop (pid : ℕ) (target : UInt64) :
    ∀ {infos : List ThreadInfo} {n : ℕ} {s : Sys}, s.dbg.pid = pid →
    s.dbg.threadLockActive = false → n ≤ s.dbg.suspendedTids.length →
    s.Holding (s.dbg.suspendedTids.take n) →
    (s.dbg.suspendedTids.take n ++ infos.map (·.tid)).Nodup → (∀ t ∈ infos, t.tid ≠ 0) →
    wp (lockLoop pid target infos n) (fun r s' => s'.dbg.threadLockActive = false ∧
      match r with
      | none => s'.Holding []
      | some m => s'.Holding (s'.dbg.suspendedTids.take m) ∧
          (s'.dbg.suspendedTids.take m).Nodup) s := by
  intro infos
  induction infos with
  | nil =>
    intro n s _ hl _ h hn _
    rw [List.map_nil, List.append_nil] at hn
    exact ⟨hl, h, hn⟩
  | cons t ts ih =>
    intro n s hpid hl hlen h hn h0
    have h0' : ∀ u ∈ ts, u.tid ≠ 0 := fun u hu => h0 u (by simp [hu])
    rw [lockLoop, wp_ite]
    refine ⟨fun _ => ih hpid hl hlen h (hn.sublist ?_) h0', fun _ => ?_⟩
    · exact (List.Sublist.refl _).append ((List.sublist_cons_self t ts).map _)
    · have hsus := h.wp_suspend (h0 t (by simp))
      rw [hpid] at hsus
      rw [wp_bind]
      refine wp_mono hsus fun rc s₁ h₁ => ?_
      obtain ⟨hd, hok, hbad⟩ := h₁
      rw [wp_ite]
      refine ⟨fun hrc => ?_, fun hrc => ?_⟩
      · -- the rollback
        rw [wp_bind, wp_get, wp_bind]
        have hback : s₁.Holding (s₁.dbg.suspendedTids.take n ++ []) := by
          rw [List.append_nil, hd]
          exact hbad hrc
        refine wp_mono (hback.wp_resumeAll pid (by rw [hd, hpid])) fun _ s₂ h₂ => ?_
        exact ⟨(congrArg (·.threadLockActive) (h₂.1.trans hd)).trans hl, h₂.2⟩
      · rw [wp_bind, wp_modifyDbg]
        have hhold := (hok (not_not.mp hrc)).perm (List.perm_append_singleton t.tid _).symm
        have htake : (s₁.dbg.suspendedTids.take n ++ [t.tid]).take (n + 1) =
            s.dbg.suspendedTids.take n ++ [t.tid] := by
          rw [hd, List.take_of_length_le (by simp [hlen])]
        refine ih (by rw [← hpid, ← hd]; rfl) (by rw [← hl, ← hd]; rfl) ?_ ?_ ?_ h0'
        · show n + 1 ≤ (s₁.dbg.suspendedTids.take n ++ [t.tid]).length
          rw [hd]
          simp [hlen]
        · show Sys.Holding _ ((s₁.dbg.suspendedTids.take n ++ [t.tid]).take (n + 1))
          rw [htake]
          exact ⟨hhold.proc, hhold.resume, hhold.ended⟩
        · show ((s₁.dbg.suspendedTids.take n ++ [t.tid]).take (n + 1) ++ _).Nodup
          rw [htake, List.append_assoc]
          exact hn

/-- Selecting a thread and refreshing its registers. -/
theorem Holds.wp_select {tid : UInt64} (h : Holds g s) :
    wp (do
      setCurrentTid tid
      if (← cdbgRefreshRegs) ≠ 0 then return -1
      return (0 : Int)) (fun _ => Holds g) s := by
  rw [wp_bind, wp_setCurrentTid, wp_bind]
  refine wp_mono (Holds.keeps cdbgRefreshRegs_keepsReports
    (h.of_sansReports (Sys.sansReports_withRegs s.dbg.regs tid))) fun rc s' h' => ?_
  rw [wp_ite]
  exact ⟨fun _ => h', fun _ => h'⟩

theorem Holds.cmdThread (args : Option CStr) (h : Holds [] s) :
    wp (cmdThread args) (fun _ => Holds []) s := by
  rw [Debugger.cmdThread, wp_bind, wp_get, wp_ite]
  refine ⟨fun _ => h, fun _ => ?_⟩
  rw [wp_bind]
  refine wp_cdbgThreadsList (fun s' hq _ => h.quiet hq) fun p s' _ hq => ?_
  have h' := h.quiet hq
  dsimp only
  split
  · exact h'
  · exact h'
  · split
    · exact h'
    · exact h'.wp_select

theorem Holds.cmdLock (args : Option CStr) (h : Holds [] s) :
    wp (cmdLock args) (fun _ => Holds []) s := by
  rw [Debugger.cmdLock, wp_bind, wp_get, wp_ite]
  refine ⟨fun _ => h, fun _ => ?_⟩
  split
  · exact h
  · exact h
  · rw [wp_ite]
    refine ⟨fun _ => h, fun hl => ?_⟩
    have hl : s.dbg.threadLockActive = false := by simpa using hl
    rw [wp_bind]
    refine wp_cdbgThreadsList (fun s' hq _ => h.quiet hq) fun p s' hp hq => ?_
    have hwf := (h.holding.proc p (Sys.process_eq_some.mp hp).1).1.threadInfos maxThreads
    have h' := h.quiet hq
    obtain ⟨n, rfl⟩ := hq
    dsimp only
    split
    · exact h'
    · next target _ =>
      rw [wp_bind]
      have hhold := h'.holding
      rw [lockedOut_unlocked hl] at hhold
      refine wp_mono (hhold.wp_lockLoop s.dbg.pid target.tid rfl hl (Nat.zero_le _) hwf.1 hwf.2)
        fun r s₁ h₁ => ?_
      obtain ⟨hl₁, h₁⟩ := h₁
      cases r with
      | none => exact Holds.of_unlocked hl₁ h₁ List.nodup_nil
      | some m =>
        dsimp only at h₁ ⊢
        rw [wp_bind, wp_modifyDbg, wp_bind]
        have hlocked : Holds [] (s₁.withDbg { s₁.dbg with
            threadLockActive := true
            lockedTid := target.tid
            suspendedTidCount := m
            currentTid := target.selector }) := by
          refine ⟨⟨?_, h₁.1.resume, h₁.1.ended⟩, ?_, fun _ => rfl⟩
          · rw [List.append_nil]
            exact h₁.1.proc
          · rw [List.append_nil]
            exact h₁.2
        refine wp_mono (Holds.keeps cdbgRefreshRegs_keepsReports hlocked) fun rc s₂ h₂ => ?_
        rw [wp_ite]
        exact ⟨fun _ => h₂, fun _ => h₂⟩

theorem Holds.cmdUnlock (h : Holds [] s) : wp cmdUnlock (fun _ => Holds []) s := by
  rw [Debugger.cmdUnlock, wp_bind, wp_get, wp_ite]
  refine ⟨fun _ => h, fun _ => ?_⟩
  rw [wp_ite]
  refine ⟨fun _ => h, fun hl => ?_⟩
  have hl : s.dbg.threadLockActive = true := by simpa using hl
  have hhold := h.holding
  rw [List.append_nil, Cdbg.lockedOut, hl, if_pos rfl] at hhold
  rw [wp_bind]
  refine wp_mono (hhold.wp_unlockLoop s.dbg.pid rfl) fun rc s₁ h₁ => ?_
  rw [wp_bind, wp_modifyDbg]
  exact Holds.of_unlocked rfl ⟨h₁.2.proc, h₁.2.resume, h₁.2.ended⟩ List.nodup_nil

end Holding

/-! ### Sessions -/

/-- The commands that resume the debuggee or suspend its threads. -/
def Command.schedules : Command → Bool
  | .continueTok | .stepTok | .siTok | .nextTok => true
  | .threadTok _ | .lockTok _ | .unlockTok => true
  | _ => false

/-- The debugger has just taken over a debuggee in which no thread is suspended. -/
structure Sys.Unheld (s : Sys) : Prop where
  proc : ∀ p, s.os.proc = some p → p.WellFormed ∧ p.pid = s.dbg.pid ∧
    ∀ t ∈ p.threads, t.suspendCount = 0
  unlocked : s.dbg.threadLockActive = false
  ended : s.dbg.state = .idle → s.os.proc = none

theorem Sys.Unheld.holds {s : Sys} (h : s.Unheld) (hr : s.Reliable .threadResume) :
    Holds [] s := by
  refine Holds.of_unlocked h.unlocked ⟨fun p hp => ?_, hr, h.ended⟩ List.nodup_nil
  obtain ⟨hwf, hpid, hzero⟩ := h.proc p hp
  exact ⟨hwf, hpid, hzero, by simp⟩

/-- Every command keeps the invariant. -/
theorem Holds.exec {s : Sys} {c : Command} (hc : c.schedules = true) (h : Holds [] s)
    (hst : s.dbg.state ≠ .running) : wp (exec c) (fun _ => Holds []) s := by
  cases c with
  | continueTok => exact resumes_cases holdPoints_sound id rfl hst h fun _ => h
  | stepTok => exact resumes_cases holdPoints_sound id rfl hst h fun _ => h
  | siTok => exact resumes_cases holdPoints_sound id rfl hst h fun _ => h
  | nextTok => exact resumes_cases holdPoints_sound id rfl hst h fun _ => h
  | threadTok args => exact h.cmdThread args
  | lockTok args => exact h.cmdLock args
  | unlockTok => exact h.cmdUnlock
  | _ => simp [Command.schedules] at hc

theorem Command.restarts_of_schedules {c : Command} (h : c.schedules = true) :
    c.restarts = false := by
  cases c <;> simp_all [Command.schedules, Command.restarts]

theorem Holds.reaches {s₀ s : Sys} (h₀ : Holds [] s₀) (hst : s₀.dbg.state ≠ .running)
    (h : Reaches (fun c _ _ => c.schedules = true) s₀ s) :
    Holds [] s ∧ s.dbg.state ≠ .running := by
  induction h with
  | start => exact ⟨h₀, hst⟩
  | command _ hok hrc ih =>
    obtain ⟨hs, hst⟩ := ih
    exact ⟨Holds.exec hok ⟨⟨hs.holding.proc, hs.holding.resume, hs.holding.ended⟩, hs.nodup,
      hs.locked⟩ hst, exec_prompt (Command.restarts_of_schedules hok) hst hrc⟩

/-- At every prompt of a session of `lock`, `unlock`, `thread`, `step`, `si`, `next` and
`continue`, whatever else fails, a thread is suspended once if `lock` holds it back and
not at all otherwise. -/
theorem suspendCount_at_prompt {s₀ s : Sys} (h₀ : s₀.Unheld) (hst : s₀.dbg.state ≠ .running)
    (hresume : s₀.Reliable .threadResume)
    (h : Reaches (fun c _ _ => c.schedules = true) s₀ s) :
    ∀ p, s.os.proc = some p → ∀ t ∈ p.threads, t.suspendCount =
      if s.dbg.threadLockActive = true ∧
        t.tid ∈ s.dbg.suspendedTids.take s.dbg.suspendedTidCount then 1 else 0 := by
  intro p hp t ht
  obtain ⟨hs, -⟩ := (h₀.holds hresume).reaches hst h
  have hcount := (hs.holding.proc p hp).2.2.count t ht
  rw [List.append_nil] at hcount
  have hnodup := hs.nodup
  rw [List.append_nil] at hnodup
  rw [hcount, hnodup.count, Cdbg.lockedOut]
  by_cases hl : s.dbg.threadLockActive = true
  · simp [hl]
  · simp [hl]

theorem suspendCount_at_prompt_lock :
    let s₀ := Sys.attached .x86_64 twoThreads fun _ => .stopped 5 []
    let s := (runCommand (.lockTok (some "1".toList)) s₀).2
    ∀ p, s.os.proc = some p → ∀ t ∈ p.threads, t.suspendCount =
      if s.dbg.threadLockActive = true ∧
        t.tid ∈ s.dbg.suspendedTids.take s.dbg.suspendedTidCount then 1 else 0 :=
  @suspendCount_at_prompt (Sys.attached .x86_64 twoThreads fun _ => .stopped 5 []) _
    ⟨fun p hp => by
        obtain rfl := Option.some.inj hp
        exact ⟨twoThreads_wellFormed, rfl, by decide⟩, rfl, fun h => absurd h (by decide)⟩
    (by decide) (fun _ => rfl) (Reaches.command Reaches.start rfl (by decide))

end Debugger
