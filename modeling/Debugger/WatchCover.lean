/-
Watchpoints cover every thread at every prompt.

A new thread starts with empty debug registers.  `continue` and `si` report every stop,
and reporting arms each watchpoint on each thread.  `step` and `next` report a stop only
at a breakpoint or without line information; when they end at a new line or a watchpoint,
a thread created since the command began is not covered.  `coversAll_at_prompt` says that
this is the only gap.
-/
import Debugger.StaleSlots

open Prog

namespace Debugger

/-- Every enabled watchpoint is armed in its register of the thread. -/
def Thread.Armed (t : Thread) (wps : List Watchpoint) : Prop :=
  ∀ i watch, wps[i]? = some watch → watch.enabled = true →
    ∃ h : i < wpMaxHw, t.dr ⟨i, h⟩ = some watch.slot

/-- The watchpoints cover the threads with the given ids. -/
def Sys.CoversIn (s : Sys) (ids : List UInt64) : Prop :=
  ∀ p, s.os.proc = some p → ∀ t ∈ p.threads, t.tid ∈ ids → t.Armed s.dbg.watchpoints

/-- The watchpoints cover all threads. -/
def Sys.CoversAll (s : Sys) : Prop :=
  ∀ p, s.os.proc = some p → ∀ t ∈ p.threads, t.Armed s.dbg.watchpoints

/-- The selected thread has stopped at the trap of a table entry, which is enabled once the
entries at other addresses are put back. -/
def Process.AtTableTrap (p : Process) (arch : Arch) (d : Cdbg) : Prop :=
  ∃ t, p.thread d.currentTid = some t ∧ ∃ bp ∈ d.breakpoints,
    (bp.enabled = true ∨ bp.addr ≠ t.regs.pc) ∧
      cdbgBpMatchesPc arch t.regs.pc { bp with enabled := true } = true

/-- At the last stop no thread was new, or it followed a single step and was at the trap of
a breakpoint. -/
def LastStopCovered (ids : List UInt64) (arch : Arch) (log : List Obs) : Prop :=
  ∀ d p l, log = .stop d p :: l → (∀ t ∈ p.threads, t.tid ∈ ids) ∨
    ∃ d' p' l', l = .resume .step d' p' :: l' ∧ p.AtTableTrap arch d

/-- The threads of the debuggee. -/
def Sys.tids (s : Sys) : List UInt64 := (s.os.proc.map (·.threads.map (·.tid))).getD []

/-- `step` and `next` begin without line information, or they end at a stop that is
reported or at which no thread was created during the command. -/
def CoverReady (c : Command) (s s' : Sys) : Prop :=
  c = .stepTok ∨ c = .nextTok → s.NoLine ∨ LastStopCovered s.tids s'.os.arch s'.runLog

/-- What arming the watchpoints rests on: the registers can hold the table, the hardware
accepts its entries, and the threads with the given ids are covered. -/
structure Watched (arch : Arch) (fault : KCall → ℕ → Bool) (ids : List UInt64) (s : Sys) :
    Prop where
  traced : s.Traced arch fault
  fits : s.dbg.watchpoints.length ≤ wpMaxHw
  accepted : ∀ watch ∈ s.dbg.watchpoints, hwAccepts arch watch.addr watch.size = true
  covers : s.CoversIn ids
  used : ∀ p, s.os.proc = some p → ∀ tid ∈ ids, tid ∈ p.usedTids

/-! ### Arming -/

theorem Thread.Armed.of_place {t t' : Thread} {wps wps' : List Watchpoint}
    (hwps : wps'.map Watchpoint.place = wps.map Watchpoint.place) (hdr : t'.dr = t.dr)
    (h : t.Armed wps) : t'.Armed wps' := by
  intro i watch' hw' hen
  have hget := congrArg (·[i]?) hwps
  simp only [List.getElem?_map, hw', Option.map_some] at hget
  obtain ⟨watch, hw, hplace⟩ := Option.map_eq_some_iff.mp hget.symm
  have hen' : watch.place.enabled = true := by rw [hplace]; exact hen
  obtain ⟨hi, hslot⟩ := h i watch hw hen'
  refine ⟨hi, ?_⟩
  rw [hdr, hslot]
  show some watch.place.slot = some watch'.place.slot
  rw [hplace]

/-- Arming the register of an entry does not disturb the others. -/
theorem Thread.Armed.update {t : Thread} {wps : List Watchpoint} {k : ℕ} {hk : k < wpMaxHw}
    {watch : Watchpoint} (h : t.Armed wps) (hw : wps[k]? = some watch) :
    Thread.Armed { t with dr := Function.update t.dr ⟨k, hk⟩ (some watch.slot) } wps := by
  intro i w hi hen
  obtain ⟨hlt, hslot⟩ := h i w hi hen
  refine ⟨hlt, ?_⟩
  by_cases hik : i = k
  · subst hik
    obtain rfl := Option.some.inj (hw.symm.trans hi)
    exact Function.update_self ..
  · rw [← hslot]
    exact Function.update_of_ne (fun heq => hik (congrArg Fin.val heq)) ..

section Watched

variable {arch : Arch} {fault : KCall → ℕ → Bool} {ids : List UInt64} {s s' : Sys}

theorem Sys.CoversAll.of_slots (hv : s'.slots = s.slots) (h : s.CoversAll) : s'.CoversAll := by
  intro p' hp' t' ht'
  obtain ⟨p, t, hp, ht, -, hdr⟩ := Sys.thread_of_slots hv hp' ht'
  exact (h p hp t ht).of_place (congrArg Prod.snd hv) hdr.symm

theorem Watched.of_views (hprog : s'.progress = s.progress) (hv : s'.slots = s.slots)
    (h : Watched arch fault ids s) : Watched arch fault ids s' := by
  have hwps : s'.dbg.watchpoints.map Watchpoint.place = s.dbg.watchpoints.map Watchpoint.place :=
    congrArg Prod.snd hv
  refine ⟨h.traced.of_progress hprog, ?_, fun w' hw' => ?_, fun p' hp' t' ht' hid => ?_,
    fun p' hp' tid htid => ?_⟩
  · have hlen := congrArg List.length hwps
    rw [List.length_map, List.length_map] at hlen
    rw [hlen]
    exact h.fits
  · obtain ⟨w, hw, hplace⟩ := exists_mem_of_map_eq hwps hw'
    have haddr : w.place.addr = w'.place.addr := by rw [hplace]
    have hsize : w.place.size = w'.place.size := by rw [hplace]
    rw [show w'.addr = w.addr from haddr.symm, show w'.size = w.size from hsize.symm]
    exact h.accepted w hw
  · obtain ⟨p, t, hp, ht, htid, hdr⟩ := Sys.thread_of_slots hv hp' ht'
    exact (h.covers p hp t ht (htid ▸ hid)).of_place hwps hdr.symm
  · have hids : s'.os.proc.map Process.ids = s.os.proc.map Process.ids :=
      congrArg Progress.ids hprog
    rw [hp', Option.map_some] at hids
    obtain ⟨p, hp, heq⟩ := Option.map_eq_some_iff.mp hids.symm
    rw [show p'.usedTids = p.usedTids from (congrArg (·.2.1) heq).symm]
    exact h.used p hp tid htid

theorem Watched.of_quiet (h : Watched arch fault ids s) (hq : s.Quiet s') :
    Watched arch fault ids s' := by
  obtain ⟨n, rfl⟩ := hq
  exact ⟨h.traced.of_quiet ⟨n, rfl⟩, h.fits, h.accepted, h.covers, h.used⟩

/-- Arming the register of an entry on every thread. -/
theorem Watched.setSlot {p : Process} {k : ℕ} {watch : Watchpoint} (hk : k < wpMaxHw)
    (h : Watched arch fault ids s) (hp : s.os.proc = some p)
    (hw : s.dbg.watchpoints[k]? = some watch) :
    Watched arch fault ids (s.withProc (p.setSlot ⟨k, hk⟩ (some watch.slot))) := by
  refine ⟨h.traced.setSlot hp, h.fits, h.accepted, fun q hq t ht hid => ?_, fun q hq => ?_⟩
  · obtain rfl := Option.some.inj hq
    obtain ⟨u, hu, rfl⟩ := Process.setSlot_dr ht
    exact (h.covers p hp u hu hid).update hw
  · obtain rfl := Option.some.inj hq
    exact h.used p hp

/-- Re-arming covers all threads. -/
theorem Watched.resync (hdebug : ∀ n, fault .debugState n = false)
    (htasks : ∀ n, fault .taskThreads n = false) (h : Watched arch fault ids s) :
    wp resyncWatchpointsToAllThreads (fun _ s' => Watched arch fault ids s' ∧ s'.CoversAll) s := by
  rw [resyncWatchpointsToAllThreads, wp_bind, wp_get]
  -- before entry `j` the enabled entries below `j` are armed on every thread
  have hloop := @wp_resyncFrom
    (fun j s' => Watched arch fault ids s' ∧ s'.dbg = s.dbg ∧ ∀ p, s'.os.proc = some p →
      ∀ t ∈ p.threads, ∀ i watch, i < j → s.dbg.watchpoints[i]? = some watch →
        watch.enabled = true → ∃ h : i < wpMaxHw, t.dr ⟨i, h⟩ = some watch.slot)
    s.dbg.pid s.dbg.watchpoints 0 s
    (fun j watch s₁ hj h₁ => ?_) ⟨h, rfl, fun _ _ _ _ i _ hi => absurd hi (by omega)⟩
  · refine wp_mono hloop fun _ s' h' => ⟨h'.1, fun p hp t ht i watch hw hen => ?_⟩
    rw [h'.2.1] at hw
    have hlt := (List.getElem?_eq_some_iff.mp hw).1
    exact h'.2.2 p hp t ht i watch (by omega) hw hen
  · obtain ⟨hw₁, hd, hdone⟩ := h₁
    rw [Nat.zero_add] at hdone ⊢
    refine ⟨fun _ => ?_, fun hoff => ⟨hw₁, hd, fun p hp t ht i w hi hw hen => ?_⟩⟩
    · have hpid : ∀ p, s₁.os.proc = some p → s₁.process s.dbg.pid = some p := fun p hp =>
        Sys.process_eq_some.mpr ⟨hp, by rw [(hw₁.traced.proc p hp).2.1, hd]⟩
      refine wp_cdbgWpHwInstall (hw₁.traced.reliable hdebug)
        (fun p hp => (hw₁.traced.proc p (Sys.process_eq_some.mp hp).1).1)
        (fun s₂ hq hnone => ?_) fun p s₂ hk hp _ hq => ?_
      · have hmem : watch ∈ s₁.dbg.watchpoints := by
          rw [hd]
          exact List.mem_of_getElem? hj
        have hlt := (List.getElem?_eq_some_iff.mp hj).1
        have hfits := h.fits
        have haccept : hwAccepts s₁.os.arch watch.addr watch.size = true := by
          rw [hw₁.traced.arch]
          exact hw₁.accepted watch hmem
        -- installing fails only when there is no thread to install on
        have hnil := hnone (hw₁.traced.reliable htasks) (by omega) haccept
        have hw₂ := hw₁.of_quiet hq
        obtain ⟨n, rfl⟩ := hq
        refine ⟨hw₂, hd, fun p hp t ht => ?_⟩
        rw [hnil p (hpid p hp)] at ht
        exact absurd ht (by simp)
      · have hproc := (Sys.process_eq_some.mp hp).1
        have hset := hw₁.setSlot hk hproc (by rw [hd, hj])
        have hw₂ := hset.of_quiet hq
        obtain ⟨n, rfl⟩ := hq
        refine ⟨hw₂, hd, fun q hq t ht i w hi hw hen => ?_⟩
        obtain rfl := Option.some.inj hq
        obtain ⟨u, hu, rfl⟩ := Process.setSlot_dr ht
        -- the other registers keep what the earlier rounds have written
        by_cases hij : i = j
        · subst hij
          obtain rfl := Option.some.inj (hj.symm.trans hw)
          exact ⟨hk, Function.update_self ..⟩
        · obtain ⟨hlt, hslot⟩ := hdone p hproc u hu i w (by omega) hw hen
          refine ⟨hlt, ?_⟩
          rw [← hslot]
          exact Function.update_of_ne (fun heq => hij (congrArg Fin.val heq)) ..
    · by_cases hij : i = j
      · subst hij
        obtain rfl := Option.some.inj (hj.symm.trans hw)
        exact absurd (hoff.symm.trans hen) (by decide)
      · exact hdone p hp t ht i w (by omega) hw hen

/-- A report covers all threads. -/
theorem Watched.report (hdebug : ∀ n, fault .debugState n = false)
    (htasks : ∀ n, fault .taskThreads n = false) (h : Watched arch fault ids s) :
    wp reportStop (fun _ s' => Watched arch fault ids s' ∧ s'.CoversAll) s :=
  reportStop_slots (fun _ _ h hprog hv => ⟨h.1.of_views hprog hv, h.2.of_slots hv⟩)
    (h.resync hdebug htasks)

theorem watched_invariant (hdebug : ∀ n, fault .debugState n = false)
    (htasks : ∀ n, fault .taskThreads n = false) : Invariant (Watched arch fault ids) where
  patches h hv := h.of_views (Sys.progress_of_sansReports (Sys.sansReports_of_sansPatches hv))
    (Sys.slots_of_sansHits (Sys.sansHits_of_sansPatches hv))
  holds h hv := h.of_views (Sys.progress_of_sansHolds hv) (Sys.slots_of_sansHolds hv)
  regsSet pid tid regs h := wp_mono (cdbgRegsSet_keepsHits pid tid regs _) fun _ _ hv =>
    h.of_views (Sys.progress_of_sansReports (Sys.sansReports_of_sansHits hv))
      (Sys.slots_of_sansHits hv)
  resumed {s s' kind p} h hp hq := by
    have hv := Sys.slots_of_resumed hp hq
    have hproc := (Sys.process_eq_some.mp hp).1
    have ht := traced_invariant.resumed h.traced hp hq
    obtain ⟨n, rfl⟩ := hq
    refine ⟨ht, h.fits, h.accepted, fun q hq t ht hid => ?_, fun q hq => ?_⟩
    · obtain ⟨p', u, hp', hu, htid, hdr⟩ := Sys.thread_of_slots hv hq ht
      exact (h.covers p' hp' u hu (htid ▸ hid)).of_place rfl hdr.symm
    · obtain rfl := Option.some.inj hq
      exact h.used p hproc
  stopped {s s' p sig ms} h hp hev hq := by
    have hproc := (Sys.process_eq_some.mp hp).1
    have ht := traced_invariant.stopped h.traced hp hev hq
    obtain ⟨n, rfl⟩ := hq
    refine ⟨ht, h.fits, h.accepted, fun q hq t ht hid => ?_, fun q hq tid htid => ?_⟩
    · obtain rfl := Option.some.inj hq
      -- a thread of `ids` is an old one; a new thread has an id that was not used
      rcases Process.moves_dr.1 t ht with ⟨u, hu, htid, hdr⟩ | ⟨hnew, -⟩
      · exact (h.covers p hproc u hu (htid ▸ hid)).of_place rfl hdr.symm
      · exact absurd (h.used p hproc _ hid) hnew
    · obtain rfl := Option.some.inj hq
      exact Process.moves_dr.2 tid (h.used p hproc tid htid)
  ended h he := by
    have ht := traced_invariant.ended h.traced he
    obtain ⟨status, waits, calls, rfl⟩ := he
    exact ⟨ht, h.fits, h.accepted, fun p hp => absurd hp (by simp), fun p hp => absurd hp (by simp)⟩
  report h := wp_mono (h.report hdebug htasks) fun _ _ h' => h'.1
  watch i h := wp_mono (reportWatchpointHit_keepsHits i _) fun _ _ hv =>
    h.of_views (Sys.progress_of_sansReports (Sys.sansReports_of_sansHits hv))
      (Sys.slots_of_sansHits hv)
  exit {s} hi h := by
    have hnone := h.traced.idle.mp hi
    refine ⟨traced_invariant.exit hi h.traced, ?_, fun watch hw => ?_, fun p hp => ?_, fun p hp => ?_⟩
    · show (s.dbg.watchpoints.map _).length ≤ wpMaxHw
      rw [List.length_map]
      exact h.fits
    · obtain ⟨w, hmem, rfl⟩ := List.mem_map.mp hw
      exact h.accepted w hmem
    · exact absurd (hnone.symm.trans hp) (by simp)
    · exact absurd (hnone.symm.trans hp) (by simp)

/-! ### The control points of `step` and `next` -/

/-- The selected thread stands at the trap of an enabled breakpoint. -/
def Sys.TrapSelected (s : Sys) : Prop :=
  ∀ p t, s.os.proc = some p → p.thread s.dbg.currentTid = some t →
    cdbgBpIsTrap s.os.arch t.regs.pc s.dbg.breakpoints = true

/-- The debuggee has stopped, and its threads are those of the stop; after a single step
the selected thread has not moved either. -/
def Sys.Seen (s : Sys) : Prop :=
  ∃ d p l, s.runLog = .stop d p :: l ∧
    (∀ q, s.os.proc = some q → q.threads.map (·.tid) = p.threads.map (·.tid)) ∧
    ((∃ d' p' l', l = .resume .step d' p' :: l') → p.AtTableTrap s.os.arch d → s.TrapSelected)

theorem Sys.Seen.of_places (hlog : s'.runLog = s.runLog) (harch : s'.os.arch = s.os.arch)
    (hplaces : s'.places = s.places) (htid : s'.dbg.currentTid = s.dbg.currentTid)
    (hbps : s'.dbg.breakpoints = s.dbg.breakpoints) (h : s.Seen) : s'.Seen := by
  have hproc : ∀ q', s'.os.proc = some q' → ∃ q, s.os.proc = some q ∧ q'.places = q.places := by
    intro q' hq'
    have hp : s'.os.proc.map Process.places = s.os.proc.map Process.places := hplaces
    rw [hq', Option.map_some] at hp
    obtain ⟨q, hq, heq⟩ := Option.map_eq_some_iff.mp hp.symm
    exact ⟨q, hq, heq.symm⟩
  obtain ⟨d, p, l, hl, htids, htrap⟩ := h
  refine ⟨d, p, l, hlog.trans hl, fun q' hq' => ?_, fun hstep hat q' t' hq' ht' => ?_⟩
  · obtain ⟨q, hq, heq⟩ := hproc q' hq'
    exact (Process.tids_of_places heq).trans (htids q hq)
  · obtain ⟨q, hq, heq⟩ := hproc q' hq'
    rw [htid] at ht'
    obtain ⟨t, ht, -, hregs⟩ := Process.thread_of_places heq ht'
    rw [harch, hbps, ← hregs]
    exact htrap hstep (harch ▸ hat) q t hq ht

/-- When a stepping loop ends without reporting, the condition on the last stop leaves only
the case that no thread is new. -/
theorem Watched.coversAll (h : Watched arch fault ids s) (hseen : s.Seen) (hfresh : s.Refreshed)
    (hno : ¬ s.AtTrap) (hlast : LastStopCovered ids s.os.arch s.runLog) : s.CoversAll := by
  obtain ⟨d, p, l, hl, htids, htrap⟩ := hseen
  -- all threads of the stop are old, or the stop was at a trap and is reported
  rcases hlast d p l hl with hold | ⟨d', p', l', hstep, hat⟩
  · intro q hq t ht
    refine h.covers q hq t ht ?_
    have hmem : t.tid ∈ p.threads.map (·.tid) := htids q hq ▸ List.mem_map_of_mem ht
    obtain ⟨u, hu, hut⟩ := List.mem_map.mp hmem
    rw [← hut]
    exact hold u hu
  · obtain ⟨q, t, hq, ht, hregs⟩ := hfresh
    refine absurd ?_ hno
    rw [Sys.AtTrap, hregs]
    exact htrap ⟨d', p', l', hstep⟩ hat q t (Sys.process_eq_some.mp hq).1 ht

/-- A successful wait for a stop. -/
theorem Watched.wp_wait (h : Watched arch fault ids s) :
    wp cdbgWait (fun rc s' => rc = 0 → s'.Seen ∧ ∃ d p, s'.runLog = .stop d p :: s.runLog) s := by
  refine wp_cdbgWait (fun s' _ _ h => absurd h (by decide)) (fun p s' _ _ _ h => absurd h (by decide))
    fun p sig ms s₁ hp _ hev hq => ?_
  have ht₁ : s₁.Traced arch fault := traced_invariant.stopped h.traced hp hev hq
  have hst₁ : s₁.dbg.state = .stopped := by
    obtain ⟨n, rfl⟩ := hq
    rfl
  refine wp_mono (wp_and (reenableBreakpointsAfterStep_flags hst₁)
    (reenableBreakpointsAfterStep_keeps s₁)) fun rc s₂ h₂ => ⟨fun hrc _ => ?_,
      fun _ h => absurd h neg_one_ne⟩
  obtain ⟨hflags, hv⟩ := h₂
  have ht₂ := traced_invariant.patches ht₁ hv
  have hscene := Sys.scene_of_sansPatches hv
  obtain ⟨n, rfl⟩ := hq
  have hlog : s₂.runLog = _ :: s.runLog := congrArg (·.2.1) hscene
  refine ⟨⟨_, _, _, hlog, fun q hq => ?_, fun _ hat q t hq ht => ?_⟩, _, _, hlog⟩
  · obtain ⟨p', hp', hplaces⟩ := Sys.proc_of_scene hscene hq
    obtain rfl := Option.some.inj hp'
    exact Process.tids_of_places hplaces
  · obtain ⟨p', hp', hplaces⟩ := Sys.proc_of_scene hscene hq
    obtain rfl := Option.some.inj hp'
    obtain ⟨t₀, ht₀, bp, hbp, hon, hmatch⟩ := hat
    have hsel : s₂.dbg.currentTid = s.dbg.currentTid := congrArg (·.2.2.2.1) hscene
    obtain ⟨t₁, ht₁, -, hregs⟩ := Process.thread_of_places hplaces (hsel ▸ ht)
    obtain rfl := Option.some.inj (ht₀.symm.trans ht₁)
    have hproc : s₂.process s₂.dbg.pid = some q :=
      Sys.process_eq_some.mpr ⟨hq, (ht₂.proc q hq).2.1⟩
    -- the entry that the selected thread stands behind is enabled, or put back by the wait
    obtain ⟨bp', hbp', heq⟩ := exists_mem_of_map_eq (hflags hrc q t hproc ht).symm hbp
    obtain ⟨haddr, hen⟩ := Prod.mk.inj heq
    have hen' : bp'.enabled = true := by
      rw [hen, ← hregs]
      simpa using hon
    rw [cdbgBpIsTrap, List.any_eq_true]
    refine ⟨bp', hbp', ?_⟩
    rw [← hregs]
    simpa [cdbgBpMatchesPc, hen', haddr] using hmatch

theorem LastStopCovered.of_progress (hprog : s'.progress = s.progress)
    (h : LastStopCovered ids s'.os.arch s'.runLog) : LastStopCovered ids s.os.arch s.runLog := by
  rwa [show s'.os.arch = s.os.arch from congrArg Progress.arch hprog,
    show s'.runLog = s.runLog from congrArg Progress.log hprog] at h

/-- The outcome of a stop that has been looked at. -/
def Sys.Covered (ids : List UInt64) (s : Sys) : Prop :=
  LastStopCovered ids s.os.arch s.runLog → s.CoversAll

theorem Sys.Covered.of_views (hprog : s'.progress = s.progress) (hv : s'.slots = s.slots)
    (h : s.Covered ids) : s'.Covered ids := fun hlast => (h (hlast.of_progress hprog)).of_slots hv

theorem Watched.wp_continue (hI : Invariant (Watched arch fault ids))
    (hst : s.dbg.state = .stopped) (h : Watched arch fault ids s) :
    wp cdbgContinue (onCode (fun s' => Watched arch fault ids s' ∧
      ∃ d p l, s'.runLog = .resume .cont d p :: l) (Watched arch fault ids)) s := by
  refine cdbgContinue_rule (I := Watched arch fault ids) (W := Watched arch fault ids)
    (C := Watched arch fault ids) hst (fun _ => h) (fun _ => ?_)
    (fun _ h => Invariant.code (hI.singleStep h)) (fun _ h => Invariant.code (hI.wait h))
    (fun _ h _ hq _ => hI.quiet h hq) fun s₁ h₁ p s₂ hp hq => ⟨hI.resumed h₁ hp hq, ?_⟩
  · exact wp_mono (hI.keepsPatches cdbgRefreshRegs_keeps h) fun _ _ h =>
      ⟨fun _ => ⟨fun _ => h, fun _ => h⟩, fun _ => h⟩
  · obtain ⟨n, rfl⟩ := hq
    exact ⟨_, _, _, rfl⟩

/-- After the temporary breakpoint of `next` the threads are still those of the stop. -/
theorem Sys.Seen.finishTemp {t : Breakpoint} (h : s.Seen)
    (hcont : ∃ d p d' p' l, s.runLog = .stop d p :: .resume .cont d' p' :: l) :
    wp (finishTempBreakpoint t) (fun _ s' => s'.Seen) s := by
  refine wp_mono (finishTempBreakpoint_keeps t s) fun _ s' hv => ?_
  obtain ⟨d, p, l, hl, htids, -⟩ := h
  obtain ⟨d₁, p₁, d₂, p₂, l₁, hl₁⟩ := hcont
  obtain ⟨-, rfl⟩ := List.cons.inj (hl.symm.trans hl₁)
  have hlog : s'.runLog = s.runLog := congrArg (·.log) hv
  refine ⟨d, p, _, hlog.trans hl, fun q' hq' => ?_, fun hstep => ?_⟩
  · obtain ⟨q, hq, hqq⟩ := Sys.proc_of_sansReports hv hq'
    exact (Process.tids_of_sansReports hqq).trans (htids q hq)
  · obtain ⟨d', p', l', heq⟩ := hstep
    exact absurd (List.cons.inj heq).1 (by simp)

/-- What is known where the commands that step resume, wait and look at stops. -/
def coverPoints (arch : Arch) (fault : KCall → ℕ → Bool) (ids : List UInt64) : ControlPoints where
  ready _ _ := Watched arch fault ids
  waiting _ t s := Watched arch fault ids s ∧
    (t ≠ none → ∃ d p l, s.runLog = .resume .cont d p :: l)
  arrived _ t s := Watched arch fault ids s ∧ s.Seen ∧
    (t ≠ none → ∃ d p d' p' l, s.runLog = .stop d p :: .resume .cont d' p' :: l)
  settled _ s := Watched arch fault ids s ∧ s.Seen
  reported _ s := Watched arch fault ids s ∧ s.Covered ids
  failed _ _ := Watched arch fault ids
  prompt o s := o = .ok → Watched arch fault ids s ∧ s.Covered ids

theorem coverPoints_sound (hdebug : ∀ n, fault .debugState n = false)
    (htasks : ∀ n, fault .taskThreads n = false) :
    (coverPoints arch fault ids).SoundNext := by
  have hI : Invariant (Watched arch fault ids) := watched_invariant hdebug htasks
  have hseen : ∀ {s s' : Sys}, s.Seen → s.Quiet s' → s'.Seen := by
    rintro s s' h ⟨n, rfl⟩
    exact h.of_places rfl rfl rfl rfl rfl
  have hreport : ∀ {s : Sys}, Watched arch fault ids s → wp reportStop (fun _ s' =>
      Watched arch fault ids s' ∧ s'.Covered ids) s :=
    fun h => wp_mono (h.report hdebug htasks) fun _ _ h' => ⟨h'.1, fun _ => h'.2⟩
  exact {
    readyQuiet := hI.quiet
    settledQuiet := fun h hq => ⟨hI.quiet h.1 hq, hseen h.2 hq⟩
    settle := fun h => ⟨h.1, h.2.1⟩
    goOn := fun h _ _ => h.1
    leave := fun h hfresh hno => ⟨h.1, fun hlast => h.1.coversAll h.2 hfresh hno hlast⟩
    giveUp := id
    refreshReady := fun h => Invariant.code (hI.keepsPatches cdbgRefreshRegs_keeps h)
    refreshSettled := fun {_ s} h => by
      refine wp_cdbgRefreshRegs (fun s' hq _ => onCode_neg_one.mpr (hI.quiet h.1 hq))
        fun p t s' _ _ hq => onCode_zero.mpr ?_
      have hw : Watched arch fault ids (s.withDbg { s.dbg with regs := t.regs }) :=
        hI.patches h.1 rfl
      have hs : (s.withDbg { s.dbg with regs := t.regs }).Seen :=
        h.2.of_places rfl rfl rfl rfl rfl
      exact ⟨hI.quiet hw hq, hseen hs hq⟩
    catchUp := fun h => hI.keepsHolds (stepThreadGuardCatchUp_keeps _) h
    singleStep := fun h => wp_mono (hI.singleStep h) fun _ _ h' =>
      ⟨fun _ => ⟨h', fun hne => absurd rfl hne⟩, fun _ => h'⟩
    «continue» := fun hst h => wp_mono (Watched.wp_continue hI hst h) fun _ _ h' =>
      onCode_mono h' (fun h' => ⟨h'.1, fun _ => h'.2⟩) id
    wait := fun h => wp_mono (wp_and (hI.wait h.1) h.1.wp_wait) fun rc s' h' => by
      refine ⟨fun hrc => ?_, fun _ => h'.1⟩
      obtain ⟨hs, d, p, hlog⟩ := h'.2 hrc
      refine ⟨h'.1, hs, fun ht => ?_⟩
      obtain ⟨d', p', l, hl⟩ := h.2 ht
      exact ⟨d, p, d', p', l, by rw [hlog, hl]⟩
    report := fun h => hreport h.1
    reportAtTrap := fun h _ _ => wp_mono (hreport h.1) fun _ _ h' => ⟨fun _ => h', fun _ => h'.1⟩
    watch := fun {g i s} h hfresh hno => by
      refine wp_mono (wp_and (hI.watch i h.1) (reportWatchpointHit_keepsHits i s))
        fun _ s' h' => ⟨h'.1, ?_⟩
      have hcov : s.Covered ids := fun hlast => h.1.coversAll h.2 hfresh hno hlast
      exact hcov.of_views (Sys.progress_of_sansReports (Sys.sansReports_of_sansHits h'.2))
        (Sys.slots_of_sansHits h'.2)
    endArrived := fun {g s} h => wp_mono (stepThreadGuardEnd_keeps g s) fun _ s' hv => by
      have hscene := Sys.scene_of_sansHolds hv
      have hd : s'.dbg = s.dbg := congrArg (·.dbg) hv
      refine ⟨hI.holds h.1 hv, h.2.1.of_places (congrArg (·.2.1) hscene) (congrArg (·.1) hscene)
        (congrArg (·.2.2.1) hscene) (by rw [hd]) (by rw [hd]), fun hne => absurd rfl hne⟩
    endReported := fun {g s} h => wp_mono (stepThreadGuardEnd_keeps g s) fun _ s' hv =>
      ⟨hI.holds h.1 hv, h.2.of_views (Sys.progress_of_sansHolds hv) (Sys.slots_of_sansHolds hv)⟩
    endFailed := fun h => hI.keepsHolds (stepThreadGuardEnd_keeps _) h
    done := fun _ h _ => h
    exit := fun {s} hi h _ => ⟨hI.exit hi h, fun _ p hp =>
      absurd ((h.traced.idle.mp hi).symm.trans hp) (by simp)⟩
    fatal := fun _ _ h => absurd h (by decide)
    tempEnable := fun h _ => Invariant.code (wp_mono (cdbgBpEnable_keeps _ _) fun _ _ h' =>
      hI.patches h h'.2.1)
    dropTemp := fun h => hI.keepsPatches (dropTempBreakpoint_keeps _) h
    finishTemp := fun {g t s} _ h => wp_mono (wp_and (hI.finishTemp h.1)
      (h.2.1.finishTemp (h.2.2 (by simp)))) fun _ _ h' => ⟨fun _ => h', fun _ => h'.1⟩ }

/-- What is known where the commands that report every stop resume and wait. -/
def reportPoints (arch : Arch) (fault : KCall → ℕ → Bool) : ControlPoints where
  ready _ _ := Watched arch fault []
  waiting _ _ := Watched arch fault []
  arrived _ _ := Watched arch fault []
  settled _ := Watched arch fault []
  reported _ s := Watched arch fault [] s ∧ s.CoversAll
  failed _ _ := Watched arch fault []
  prompt o s := o = .ok → Watched arch fault [] s ∧ s.CoversAll

theorem reportPoints_sound (hdebug : ∀ n, fault .debugState n = false)
    (htasks : ∀ n, fault .taskThreads n = false) : (reportPoints arch fault).SoundReport := by
  have hI : Invariant (Watched arch fault []) := watched_invariant hdebug htasks
  exact {
    refreshReady := fun h => Invariant.code (hI.keepsPatches cdbgRefreshRegs_keeps h)
    catchUp := fun h => hI.keepsHolds (stepThreadGuardCatchUp_keeps _) h
    singleStep := fun h => Invariant.code (hI.singleStep h)
    «continue» := hI.continue
    wait := fun h => Invariant.code (hI.wait h)
    report := fun h => h.report hdebug htasks
    endArrived := fun h => hI.keepsHolds (stepThreadGuardEnd_keeps _) h
    endFailed := fun h => hI.keepsHolds (stepThreadGuardEnd_keeps _) h
    done := fun _ h _ => h
    exit := fun hi h _ => ⟨hI.exit hi h, fun p hp =>
      absurd ((h.traced.idle.mp hi).symm.trans hp) (by simp)⟩
    fatal := fun _ _ h => absurd h (by decide) }

/-! ### `watch` and `unwatch` -/

theorem Watched.forget (h : Watched arch fault ids s) : Watched arch fault [] s :=
  ⟨h.traced, h.fits, h.accepted, fun _ _ _ _ hid => absurd hid (by simp),
    fun _ _ _ hid => absurd hid (by simp)⟩

/-- The threads that are there may be taken for covered. -/
theorem Watched.start (h : Watched arch fault [] s) (hall : s.CoversAll) :
    Watched arch fault s.tids s := by
  refine ⟨h.traced, h.fits, h.accepted, fun p hp t ht _ => hall p hp t ht, fun p hp tid htid => ?_⟩
  rw [Sys.tids, hp] at htid
  obtain ⟨t, ht, rfl⟩ := List.mem_map.mp htid
  exact (h.traced.proc p hp).1.used t ht

theorem Watched.withTable {wps : List Watchpoint} (h : Watched arch fault [] s)
    (hlen : wps.length ≤ wpMaxHw) (hacc : ∀ w ∈ wps, hwAccepts arch w.addr w.size = true) :
    Watched arch fault [] (s.withDbg { s.dbg with watchpoints := wps }) :=
  ⟨Sys.Traced.of_progress (s := s) rfl h.traced, hlen, hacc,
    fun _ _ _ _ hid => absurd hid (by simp), fun _ _ _ hid => absurd hid (by simp)⟩

theorem Watched.withSlot {p : Process} (h : Watched arch fault [] s) (i : Fin wpMaxHw)
    (slot : Option HwSlot) (hp : s.os.proc = some p) :
    Watched arch fault [] (s.withProc (p.setSlot i slot)) :=
  ⟨h.traced.setSlot hp, h.fits, h.accepted, fun _ _ _ _ hid => absurd hid (by simp),
    fun _ _ _ hid => absurd hid (by simp)⟩

theorem Watched.cmdWatch (hdebug : ∀ n, fault .debugState n = false) (expr : Option CStr)
    (resolved : Option (Addr × ℕ)) (h : Watched arch fault [] s) (hall : s.CoversAll) :
    wp (cmdWatch expr resolved) (fun _ s' => Watched arch fault [] s' ∧ s'.CoversAll) s := by
  refine wp_cmdWatch (h.traced.reliable hdebug)
    (fun p hp => (h.traced.proc p (Sys.process_eq_some.mp hp).1).1) (fun rc s' hv => ?_)
    fun s₁ p watch s' hk hv hp hacc hq => ?_
  · have hh := Sys.sansHits_of_sansPatches hv
    exact ⟨h.of_views (Sys.progress_of_sansReports (Sys.sansReports_of_sansHits hh))
      (Sys.slots_of_sansHits hh), hall.of_slots (Sys.slots_of_sansHits hh)⟩
  · have hh := Sys.sansHits_of_sansPatches hv
    have h₁ : Watched arch fault [] s₁ := h.of_views
      (Sys.progress_of_sansReports (Sys.sansReports_of_sansHits hh)) (Sys.slots_of_sansHits hh)
    have hall₁ : s₁.CoversAll := hall.of_slots (Sys.slots_of_sansHits hh)
    have hwps : s₁.dbg.watchpoints = s.dbg.watchpoints := congrArg (·.dbg.watchpoints) hv
    have hset : Watched arch fault [] ((s₁.withProc (p.setSlot ⟨_, hk⟩ (some watch.slot))).withDbg
        { s₁.dbg with watchpoints := s.dbg.watchpoints ++ [watch] }) := by
      refine (h₁.withSlot _ _ hp).withTable ?_ fun w hw => ?_
      · rw [List.length_append, List.length_singleton]
        exact hk
      · rcases List.mem_append.mp hw with hw | hw
        · exact h.accepted w hw
        · obtain rfl := List.mem_singleton.mp hw
          rw [← h.traced.arch]
          exact hacc
    refine ⟨hset.of_quiet hq, Sys.CoversAll.of_slots (Sys.slots_of_quiet hq) fun q hq t ht => ?_⟩
    obtain rfl := Option.some.inj hq
    obtain ⟨u, hu, rfl⟩ := Process.setSlot_dr ht
    intro i w hw hen
    -- the entries before the new one keep their registers
    by_cases hi : i < s.dbg.watchpoints.length
    · have hold : s.dbg.watchpoints[i]? = some w := by
        rw [← hw]
        exact (List.getElem?_append_left hi).symm
      obtain ⟨hlt, hslot⟩ := hall₁ p hp u hu i w (hwps ▸ hold) hen
      refine ⟨hlt, ?_⟩
      rw [← hslot]
      exact Function.update_of_ne (fun heq => absurd (congrArg Fin.val heq) (Nat.ne_of_lt hi)) ..
    · have hlen := (List.getElem?_eq_some_iff.mp hw).1
      rw [show ((s₁.withProc (p.setSlot ⟨_, hk⟩ (some watch.slot))).withDbg { s₁.dbg with
        watchpoints := s.dbg.watchpoints ++ [watch] }).dbg.watchpoints =
          s.dbg.watchpoints ++ [watch] from rfl, List.length_append,
        List.length_singleton] at hlen
      obtain rfl : i = s.dbg.watchpoints.length := by omega
      obtain rfl := Option.some.inj (List.getElem?_concat_length.symm.trans hw)
      exact ⟨hk, Function.update_self ..⟩

/-- Every enabled watchpoint but the one with the given number is armed on all threads. -/
def Sys.CoversBut (k : ℕ) (s : Sys) : Prop :=
  ∀ p, s.os.proc = some p → ∀ t ∈ p.threads, ∀ i watch, i ≠ k →
    s.dbg.watchpoints[i]? = some watch → watch.enabled = true →
      ∃ h : i < wpMaxHw, t.dr ⟨i, h⟩ = some watch.slot

theorem Sys.CoversAll.of_empty (h : ∀ p, s.os.proc = some p → p.threads = []) : s.CoversAll := by
  intro p hp t ht
  rw [h p hp] at ht
  exact absurd ht (by simp)

theorem Sys.CoversAll.but (h : s.CoversAll) (k : ℕ) : s.CoversBut k :=
  fun p hp t ht i watch _ hw hen => h p hp t ht i watch hw hen

/-- One round of the loop in `delete_watchpoint_at` arms the entry it has moved. -/
theorem Watched.shift (hdebug : ∀ n, fault .debugState n = false)
    (htasks : ∀ n, fault .taskThreads n = false) {i : ℕ} (h : Watched arch fault [] s)
    (hbut : s.CoversBut (i - 1)) (hlt : i < s.dbg.watchpoints.length) :
    wp (shiftWatchpoint i) (fun _ s' => (Watched arch fault [] s' ∧ s'.CoversAll) ∧
      s'.dbg.watchpoints.length = s.dbg.watchpoints.length) s := by
  have hget : s.dbg.watchpoints.getD i {} = s.dbg.watchpoints[i] := by
    rw [List.getD_eq_getElem?_getD, List.getElem?_eq_getElem hlt]
    rfl
  rw [shiftWatchpoint, wp_bind, wp_get, hget]
  dsimp only
  generalize hwatch : s.dbg.watchpoints[i] = watch
  have hmem : watch ∈ s.dbg.watchpoints := hwatch ▸ List.getElem_mem hlt
  have hlen : (s.dbg.watchpoints.set (i - 1) watch).length = s.dbg.watchpoints.length :=
    List.length_set
  have h₁ : Watched arch fault [] (s.withDbg { s.dbg with
      watchpoints := s.dbg.watchpoints.set (i - 1) watch }) := by
    refine h.withTable (hlen ▸ h.fits) fun w hw => ?_
    rcases List.mem_or_eq_of_mem_set hw with hw | rfl
    · exact h.accepted w hw
    · exact h.accepted _ hmem
  rw [wp_bind, wp_setWatchpoints, wp_ite]
  refine ⟨fun _ => ?_, fun hdead => ?_⟩
  · rw [wp_bind]
    refine wp_cdbgWpHwInstall (h₁.traced.reliable hdebug)
      (fun p hp => (h₁.traced.proc p (Sys.process_eq_some.mp hp).1).1) (fun s₂ hq hnone => ?_)
      fun p s₂ hk hp _ hq => ?_
    · -- again only a process without threads makes the installation fail
      have hnil : ∀ p, s.os.proc = some p → p.threads = [] := fun p hp =>
        hnone (h₁.traced.reliable htasks) (by have := h.fits; omega)
          (by rw [h₁.traced.arch]; exact h.accepted _ hmem) p
          (Sys.process_eq_some.mpr ⟨hp, (h.traced.proc p hp).2.1⟩)
      have h₂ := h₁.of_quiet hq
      obtain ⟨n, rfl⟩ := hq
      rw [wp_ite]
      exact ⟨fun _ => ⟨⟨h₂, .of_empty hnil⟩, hlen⟩, fun h => absurd neg_one_ne h⟩
    · have h₂ := (h₁.withSlot ⟨i - 1, hk⟩ (some watch.slot)
        (Sys.process_eq_some.mp hp).1).of_quiet hq
      obtain ⟨n, rfl⟩ := hq
      rw [wp_ite]
      refine ⟨fun h => absurd rfl h, fun _ => ⟨⟨h₂, fun q hq t ht j w hw hen => ?_⟩, hlen⟩⟩
      obtain rfl := Option.some.inj hq
      obtain ⟨u, hu, rfl⟩ := Process.setSlot_dr ht
      replace hw : (s.dbg.watchpoints.set (i - 1) watch)[j]? = some w := hw
      -- the moved entry, and the others with their old registers
      by_cases hj : j = i - 1
      · subst hj
        rw [List.getElem?_set_self (by omega)] at hw
        obtain rfl := Option.some.inj hw
        exact ⟨hk, Function.update_self ..⟩
      · rw [List.getElem?_set_ne (Ne.symm hj)] at hw
        obtain ⟨hlt, hslot⟩ := hbut p (Sys.process_eq_some.mp hp).1 u hu j w hj hw hen
        refine ⟨hlt, ?_⟩
        rw [← hslot]
        exact Function.update_of_ne (fun heq => hj (congrArg Fin.val heq)) ..
  · have hnone : s.os.proc = none := by
      by_contra hsome
      exact hdead (h₁.traced.live fun hi => hsome (h.traced.idle.mp hi))
    exact ⟨⟨h₁, .of_empty fun p hp => absurd (hnone.symm.trans hp) (by simp)⟩, hlen⟩

/-- Deleting an entry leaves the others armed, wherever it stands in the table. -/
theorem Watched.deleteAt (hdebug : ∀ n, fault .debugState n = false)
    (htasks : ∀ n, fault .taskThreads n = false) (k : ℕ) (h : Watched arch fault [] s)
    (hall : s.CoversAll) : wp (deleteWatchpointAt k)
      (fun _ s' => Watched arch fault [] s' ∧ s'.CoversAll) s := by
  rw [deleteWatchpointAt, wp_bind, wp_get, wp_ite]
  refine ⟨fun _ => ⟨h, hall⟩, fun hk => ?_⟩
  replace hk : k < s.dbg.watchpoints.length := Nat.lt_of_not_ge hk
  -- from the moment when only the deleted entry may be without its register
  have hloop : ∀ {s₁ : Sys}, Watched arch fault [] s₁ → s₁.CoversBut k →
      s₁.dbg.watchpoints.length = s.dbg.watchpoints.length →
      wp (do
        if (← forUntil shiftWatchpoint (List.range' (k + 1)
          (s.dbg.watchpoints.length - (k + 1)))) ≠ 0 then return -1
        let s ← get
        setWatchpoints s.dbg.watchpoints.dropLast
        return (0 : Int)) (fun _ s' => Watched arch fault [] s' ∧ s'.CoversAll) s₁ := by
    intro s₁ h₁ hbut hlen
    rw [wp_bind]
    -- before the round that moves entry `i`, every entry but `i - 1` is armed
    refine wp_mono (wp_forUntil (I := fun rest s' => ∃ i, k < i ∧ i ≤ s.dbg.watchpoints.length ∧
        rest = List.range' i (s.dbg.watchpoints.length - i) ∧ Watched arch fault [] s' ∧
        s'.CoversBut (i - 1) ∧ s'.dbg.watchpoints.length = s.dbg.watchpoints.length)
      (E := fun _ s' => Watched arch fault [] s' ∧ s'.CoversAll) (fun j rest s₂ h₂ => ?_)
      ⟨k + 1, by omega, by omega, rfl, h₁, hbut, hlen⟩) fun rc s₂ h₂ => ?_
    · obtain ⟨i, hki, hi, hrest, hw, hbut, hlen⟩ := h₂
      obtain ⟨n, hn⟩ : ∃ n, s.dbg.watchpoints.length - i = n + 1 := by
        cases hn : s.dbg.watchpoints.length - i with
        | zero =>
          rw [hn] at hrest
          exact absurd hrest (by simp)
        | succ n => exact ⟨n, rfl⟩
      rw [hn, List.range'_succ] at hrest
      obtain ⟨rfl, rfl⟩ := List.cons.inj hrest
      refine wp_mono (hw.shift hdebug htasks hbut (by omega)) fun rc s₃ h₃ =>
        ⟨fun _ => ⟨j + 1, by omega, by omega, ?_, h₃.1.1, h₃.1.2.but _, h₃.2.trans hlen⟩,
          fun _ => h₃.1⟩
      rw [show s.dbg.watchpoints.length - (j + 1) = n by omega]
    · rw [wp_ite]
      refine ⟨fun hrc => h₂.2 hrc, fun hrc => ?_⟩
      obtain ⟨i, hki, hi, hrest, hw, hbut, hlen⟩ := h₂.1 (not_not.mp hrc)
      -- the last register is the one that no entry needs any more
      have hend : i = s.dbg.watchpoints.length := by
        have := congrArg List.length hrest
        rw [List.length_range', List.length_nil] at this
        omega
      rw [wp_bind, wp_get, wp_bind, wp_setWatchpoints]
      refine ⟨hw.withTable ?_ fun w hmem => hw.accepted w (List.dropLast_subset _ hmem),
        fun p hp t ht j w hj hen => ?_⟩
      · have := hw.fits
        rw [List.length_dropLast]
        omega
      · replace hj : s₂.dbg.watchpoints.dropLast[j]? = some w := hj
        have hlt := (List.getElem?_eq_some_iff.mp hj).1
        rw [List.length_dropLast] at hlt
        refine hbut p hp t ht j w (by omega) ?_ hen
        rwa [List.getElem?_dropLast, if_pos (by omega)] at hj
  rw [wp_bind, uninstallIfLive, wp_ite]
  refine ⟨fun _ => ?_, fun hdead => ?_⟩
  · refine wp_cdbgWpHwUninstall (h.traced.reliable hdebug)
      (fun p hp => (h.traced.proc p (Sys.process_eq_some.mp hp).1).1) (fun s₁ hq _ => ?_)
      fun p s₁ hlt hp hq => ?_
    · rw [wp_ite]
      exact ⟨fun _ => ⟨h.of_quiet hq, hall.of_slots (Sys.slots_of_quiet hq)⟩,
        fun h => absurd neg_one_ne h⟩
    · rw [wp_ite]
      refine ⟨fun h => absurd rfl h, fun _ => ?_⟩
      have h₁ := (h.withSlot ⟨k, hlt⟩ none
        (Sys.process_eq_some.mp hp).1).of_quiet hq
      obtain ⟨n, rfl⟩ := hq
      refine hloop h₁ (fun q hq t ht i w hi hw hen => ?_) rfl
      obtain rfl := Option.some.inj hq
      obtain ⟨u, hu, rfl⟩ := Process.setSlot_dr ht
      obtain ⟨hlt', hslot⟩ := hall p (Sys.process_eq_some.mp hp).1 u hu i w hw hen
      refine ⟨hlt', ?_⟩
      rw [← hslot]
      exact Function.update_of_ne (fun heq => hi (congrArg Fin.val heq)) ..
  · rw [wp_pure, wp_ite]
    exact ⟨fun h => absurd rfl h, fun _ => hloop h (hall.but k) rfl⟩

theorem Watched.cmdUnwatch (hdebug : ∀ n, fault .debugState n = false)
    (htasks : ∀ n, fault .taskThreads n = false) (args : Option CStr)
    (h : Watched arch fault [] s) (hall : s.CoversAll) :
    wp (cmdUnwatch args) (fun _ s' => Watched arch fault [] s' ∧ s'.CoversAll) s := by
  have hdelete : ∀ order : List ℕ, wp (forUntil deleteWatchpointAt order)
      (fun _ s' => Watched arch fault [] s' ∧ s'.CoversAll) s := fun order =>
    wp_mono (wp_forUntil (I := fun _ s' => Watched arch fault [] s' ∧ s'.CoversAll)
      (E := fun _ s' => Watched arch fault [] s' ∧ s'.CoversAll)
      (fun k _ s₁ h₁ => wp_mono (h₁.1.deleteAt hdebug htasks k h₁.2) fun _ _ h₂ =>
        ⟨fun _ => h₂, fun _ => h₂⟩) ⟨h, hall⟩) fun rc _ h' =>
      (em (rc = 0)).elim h'.1 h'.2
  rw [Debugger.cmdUnwatch, wp_bind, wp_get, wp_ite]
  refine ⟨fun _ => ⟨h, hall⟩, fun _ => ?_⟩
  split
  · exact ⟨h, hall⟩
  · exact ⟨h, hall⟩
  · split
    · exact ⟨h, hall⟩
    · exact hdelete _

end Watched

/-! ### Sessions -/

/-- A command that meets the condition leaves no thread uncovered. -/
theorem Watched.exec {arch : Arch} {fault : KCall → ℕ → Bool} {c : Command} {s : Sys}
    (hdebug : ∀ n, fault .debugState n = false) (htasks : ∀ n, fault .taskThreads n = false)
    (hc : c.watches = true) (hst : s.dbg.state ≠ .running) (h : Watched arch fault [] s)
    (hall : s.CoversAll) (hready : CoverReady c s ((exec c).run s).2) :
    wp (exec c) (fun o s' => o = .ok → Watched arch fault [] s' ∧ s'.CoversAll) s := by
  cases hr : c.resumes with
  | true =>
    -- without line information `step` and `next` report every stop, too
    by_cases hline : c = .stepTok ∨ c = .nextTok → s.NoLine
    · exact reports_cases (reportPoints_sound hdebug htasks) (fun _ h => absurd h (by decide)) hr
        hline hst (fun _ => ⟨h, hall⟩) fun _ => h
    · obtain ⟨hstep, hline⟩ := Classical.not_imp.mp hline
      have hlast := (hready hstep).resolve_left hline
      have hw := h.start hall
      have hrun : wp (Debugger.exec c) (coverPoints arch fault s.tids).prompt s :=
        resumes_cases (coverPoints_sound hdebug htasks) (fun _ h => absurd h (by decide)) hr hst
          (fun _ => ⟨hw, fun _ => hall⟩) fun _ => hw
      exact fun ho => ⟨(hrun ho).1.forget, (hrun ho).2 hlast⟩
  | false =>
    cases c with
    | watchTok expr resolved => exact fun _ => h.cmdWatch hdebug expr resolved hall
    | unwatchTok args => exact fun _ => h.cmdUnwatch hdebug htasks args hall
    | _ => simp_all [Command.watches, Command.resumes]

/-- In every session in which `step` and `next` meet `CoverReady`, each enabled watchpoint is
armed in its register of every thread at every prompt. -/
theorem coversAll_at_prompt {s₀ s : Sys} (h₀ : s₀.Traced s₀.os.arch s₀.os.fault)
    (hst : s₀.dbg.state ≠ .running) (hdebug : s₀.Reliable .debugState)
    (htasks : s₀.Reliable .taskThreads) (hempty : s₀.dbg.watchpoints = [])
    (h : Reaches (fun c s s' => c.watches = true ∧ CoverReady c s s') s₀ s) :
    ∀ p, s.os.proc = some p → ∀ t ∈ p.threads, ∀ i watch, s.dbg.watchpoints[i]? = some watch →
      watch.enabled = true → ∃ h : i < wpMaxHw,
        t.dr ⟨i, h⟩ = some { addr := watch.addr, size := watch.size, mode := watch.mode } := by
  have hok : ∀ (c : Command) (s s' : Sys), (c.watches = true ∧ CoverReady c s s') →
      c.restarts = false := by
    intro c s s' hc
    cases c <;> simp_all [Command.watches, Command.restarts]
  -- the invariant is about the threads of the last prompt, so it starts anew at each
  have hrun : Watched s₀.os.arch s₀.os.fault [] s ∧ s.CoversAll := by
    induction h with
    | start =>
      refine ⟨⟨h₀, ?_, ?_, fun _ _ _ _ hid => absurd hid (by simp),
        fun _ _ _ hid => absurd hid (by simp)⟩, fun p _ t _ i watch hw => ?_⟩
      · rw [hempty]
        exact Nat.zero_le _
      · rw [hempty]
        exact fun _ hw => absurd hw (by simp)
      · rw [hempty] at hw
        exact absurd hw (by simp)
    | @command s c hs hc hrc ih =>
      have hw : Watched s₀.os.arch s₀.os.fault [] s.unlogged :=
        ⟨ih.1.traced.unlogged, ih.1.fits, ih.1.accepted, ih.1.covers, ih.1.used⟩
      exact hw.exec hdebug htasks hc.1 (hs.prompt hok hst) ih.2 hc.2 hrc
  exact hrun.2

/-- A program with two lines, whose first thread creates another one and goes on to the
second line. -/
def createsThread : Sys :=
  let s := Sys.attached .x86_64 twoThreads fun _ =>
    .stopped 5 [.create 3 (x86At 0x3000), .exec 1 (x86At 0x1004) []]
  { s with dbg := { s.dbg with lineno := { entries :=
    [{ address := 0x1000, line := 1, column := 0, file := "a.c".toList },
      { address := 0x1004, line := 2, column := 0, file := "a.c".toList }] } } }

/-- `step` to the next line leaves the new thread without the watchpoint. -/
theorem uncovered_after_step :
    ∃ s, Reaches (fun c _ _ => c.watches = true) createsThread s ∧ s.dbg.state = .stopped ∧
      s.dbg.watchpoints.map (·.enabled) = [true] ∧
      s.os.proc.any (·.threads.any fun t => (t.dr 0).isNone) = true := by
  let s₁ := (runCommand (.watchTok (some "x".toList) (some (0x2000, 8))) createsThread).2
  let s₂ := (runCommand .stepTok s₁).2
  have h₁ : Reaches (fun c _ _ => c.watches = true) createsThread s₁ :=
    .command .start rfl (by decide +kernel)
  have h₂ : Reaches (fun c _ _ => c.watches = true) createsThread s₂ :=
    .command h₁ rfl (by decide +kernel)
  exact ⟨s₂, h₂, by decide +kernel, by decide +kernel, by decide +kernel⟩

/-- A program whose first thread creates another one before the first stop, and goes on to the
second line behind it. -/
def createsThreadFirst : Sys :=
  let s := Sys.attached .x86_64 twoThreads fun n =>
    if n = 0 then .stopped 5 [.create 3 (x86At 0x3000)] else .stopped 5 [.exec 1 (x86At 0x1004) []]
  { s with dbg := createsThread.dbg }

/-- The threads of the last stop are all among the given ones. -/
def noNewThread (ids : List UInt64) : List Obs → Bool
  | .stop _ p :: _ => p.threads.all fun t => ids.contains t.tid
  | _ => true

theorem LastStopCovered.of_noNewThread {ids : List UInt64} {arch : Arch} {log : List Obs}
    (h : noNewThread ids log = true) : LastStopCovered ids arch log := by
  rintro d p l rfl
  refine .inl fun t ht => ?_
  simpa using List.all_eq_true.mp h t ht

/-- The watchpoint is set before the thread is created, at whose stop it is armed there as well;
in the `step` no thread is created. -/
theorem coversAll_at_prompt_watch :
    let s₁ := (runCommand (.watchTok (some "x".toList) (some (0x2000, 8))) createsThreadFirst).2
    let s₂ := (runCommand .continueTok s₁).2
    let s := (runCommand .stepTok s₂).2
    s.tids = [1, 2, 3] ∧
    ∀ p, s.os.proc = some p → ∀ t ∈ p.threads, ∀ i watch, s.dbg.watchpoints[i]? = some watch →
      watch.enabled = true → ∃ h : i < wpMaxHw,
        t.dr ⟨i, h⟩ = some { addr := watch.addr, size := watch.size, mode := watch.mode } := by
  intro s₁ s₂ s
  refine ⟨by decide +kernel, @coversAll_at_prompt createsThreadFirst _
    ⟨rfl, rfl, fun p hp => ?_, by decide⟩ (by decide) (fun _ => rfl) (fun _ => rfl) rfl ?_⟩
  · obtain rfl := Option.some.inj hp
    exact ⟨twoThreads_wellFormed, rfl, by decide⟩
  · have h₁ : Reaches (fun c s s' => c.watches = true ∧ CoverReady c s s') createsThreadFirst s₁ :=
      .command .start ⟨rfl, fun h => by simp at h⟩ (by decide +kernel)
    have h₂ : Reaches (fun c s s' => c.watches = true ∧ CoverReady c s s') createsThreadFirst s₂ :=
      .command h₁ ⟨rfl, fun h => by simp at h⟩ (by decide +kernel)
    have hlast : LastStopCovered s₂.tids s.os.arch s.runLog :=
      .of_noNewThread (by decide +kernel)
    exact .command h₂ ⟨rfl, fun _ => .inr hlast⟩ (by decide +kernel)

end Debugger
