/-
The debug registers: what installing and clearing a hardware watchpoint does to the
threads of the debuggee, and what leaves their registers alone.
-/
import Debugger.Traced
import Debugger.Report

open Prog

namespace Debugger

/-- Change one debug register of every thread. -/
def Process.setSlot (p : Process) (i : Fin wpMaxHw) (slot : Option HwSlot) : Process :=
  p.eachThread fun t => { t with dr := Function.update t.dr i slot }

theorem Process.setSlot_dr {p : Process} {i : Fin wpMaxHw} {slot : Option HwSlot} {t : Thread}
    (ht : t ∈ (p.setSlot i slot).threads) :
    ∃ u ∈ p.threads, t = { u with dr := Function.update u.dr i slot } := by
  obtain ⟨u, hu, rfl⟩ := List.mem_map.mp ht
  exact ⟨u, hu, rfl⟩

/-- A thread keeps its debug registers while the debuggee runs, and a new one has an unused
id and no register armed. -/
theorem Process.moves_dr {arch : Arch} {kind : Resume} {p : Process} {ms : List Move} :
    (∀ t ∈ (p.moves arch kind ms).threads,
      (∃ u ∈ p.threads, u.tid = t.tid ∧ u.dr = t.dr) ∨
        (t.tid ∉ p.usedTids ∧ t.dr = fun _ => none)) ∧
      ∀ tid ∈ p.usedTids, tid ∈ (p.moves arch kind ms).usedTids := by
  refine moves_induct (P := fun q => (∀ t ∈ q.threads,
    (∃ u ∈ p.threads, u.tid = t.tid ∧ u.dr = t.dr) ∨
      (t.tid ∉ p.usedTids ∧ t.dr = fun _ => none)) ∧ ∀ tid ∈ p.usedTids, tid ∈ q.usedTids)
    (fun q m _ hq => ?_) ⟨fun t ht => .inl ⟨t, ht, rfl, rfl⟩, fun _ h => h⟩
  have hmap : ∀ {tid : UInt64} {f : Thread → Thread},
      (∀ t, (f t).tid = t.tid ∧ (f t).dr = t.dr) → ∀ t ∈ (q.mapThread tid f).threads,
        (∃ u ∈ p.threads, u.tid = t.tid ∧ u.dr = t.dr) ∨
          (t.tid ∉ p.usedTids ∧ t.dr = fun _ => none) := by
    intro tid f hf t ht
    obtain ⟨v, hv, rfl⟩ := List.mem_map.mp ht
    split
    · rw [(hf v).1, (hf v).2]
      exact hq.1 v hv
    · exact hq.1 v hv
  rcases @move_cases arch kind q m with
    hm | ⟨tid, regs, writes, t, -, -, -, ⟨-, hm⟩ | ⟨-, hm⟩⟩ | ⟨tid, regs, -, hu, hm⟩ | ⟨tid, hm⟩
  · rw [hm]
    exact hq
  · rw [hm]
    exact ⟨hmap fun _ => ⟨rfl, rfl⟩, hq.2⟩
  · rw [hm]
    exact ⟨hmap (f := (·.execInstr (q.stepsOnce kind tid) regs)) fun _ => ⟨rfl, rfl⟩, hq.2⟩
  · rw [hm]
    refine ⟨fun t ht => ?_, fun v hv => List.mem_cons_of_mem _ (hq.2 v hv)⟩
    rcases List.mem_append.mp ht with ht | ht
    · exact hq.1 t ht
    · obtain rfl := List.mem_singleton.mp ht
      exact .inr ⟨fun hmem => hu (hq.2 _ hmem), rfl⟩
  · rw [hm]
    exact ⟨fun t ht => hq.1 t (List.mem_filter.mp ht).1, hq.2⟩

theorem Sys.Traced.setSlot {arch : Arch} {fault : KCall → ℕ → Bool} {s : Sys} {p : Process}
    {i : Fin wpMaxHw} {slot : Option HwSlot} (h : s.Traced arch fault) (hp : s.os.proc = some p) :
    (s.withProc (p.setSlot i slot)).Traced arch fault := by
  refine h.of_progress ?_
  have hids : (p.setSlot i slot).ids = p.ids := by
    simp [Process.ids, Process.setSlot, Process.eachThread]
  simp only [Sys.progress, Sys.withProc, hp, Option.map_some, hids]
  rfl

section Rules

variable {pid : ℕ} {s : Sys} {i : Fin wpMaxHw} {slot : Option HwSlot}

/-- The threads of a well-formed process can be looked up by their ids. -/
theorem Process.WellFormed.thread_of_mem {p : Process} (h : p.WellFormed) {tid : UInt64}
    (htid : tid ∈ p.threads.map (·.tid)) : ∃ t, p.thread tid = some t ∧ t.tid = tid := by
  obtain ⟨u, hu, rfl⟩ := List.mem_map.mp htid
  have hsome : (p.threads.find? (·.tid = u.tid)).isSome = true := by
    rw [List.find?_isSome]
    exact ⟨u, hu, by simp⟩
  obtain ⟨t, ht⟩ := Option.isSome_iff_exists.mp hsome
  refine ⟨t, ?_, by simpa using List.find?_some ht⟩
  rw [thread, if_neg (h.ne_zero u hu), ht]

/-- The loop over the threads changes the register of each of them. -/
theorem wp_setSlotOfThreads (hr : s.Reliable .debugState) :
    ∀ {tids : List UInt64} {rc : Int} {p : Process}, s.process pid = some p → p.WellFormed →
    (∀ tid ∈ tids, tid ∈ p.threads.map (·.tid)) →
    wp (setSlotOfThreads pid i slot tids rc) (fun rc' s' => rc' = rc ∧
      (s.withProc (p.eachThread fun t =>
        if t.tid ∈ tids then { t with dr := Function.update t.dr i slot } else t)).Quiet s') s := by
  intro tids
  induction tids generalizing s with
  | nil =>
    intro rc p hp _ _
    refine ⟨rfl, ?_⟩
    have hself : p.eachThread (fun t => if t.tid ∈ ([] : List UInt64) then
        { t with dr := Function.update t.dr i slot } else t) = p := by
      simp [Process.eachThread]
    rw [hself, Sys.withProc_self (Sys.process_eq_some.mp hp).1]
    exact .refl s
  | cons tid tids ih =>
    intro rc p hp hwf htids
    obtain ⟨t, ht, htid⟩ := hwf.thread_of_mem (htids tid (by simp))
    rw [setSlotOfThreads, wp_bind]
    refine wp_updateThread (fun s' _ hun => ?_) fun q u g s' hq hu hg hs' => ?_
    · exact absurd (hun hr p t hp ht) (by simp)
    · obtain rfl := Option.some.inj (hp.symm.trans hq)
      obtain rfl := Option.some.inj (ht.symm.trans hu)
      obtain rfl := Option.some.inj hg
      obtain ⟨n, rfl⟩ := hs'
      have hsame := @Process.mapThread_tids p t.tid
        (fun v => { v with dr := Function.update v.dr i slot }) fun _ => rfl
      refine wp_mono (ih (s := { s.withProc (p.mapThread t.tid fun v =>
          { v with dr := Function.update v.dr i slot }) with
        os := { (s.withProc (p.mapThread t.tid fun v =>
          { v with dr := Function.update v.dr i slot })).os with calls := n } }) hr
        (Sys.process_eq_some.mpr ⟨rfl, (Sys.process_eq_some.mp hp).2⟩)
        (Process.wellFormed_of_tids hsame rfl hwf)
        fun v hv => by rw [hsame]; exact htids v (by simp [hv])) fun rc' s' h => ?_
      refine ⟨h.1, ?_⟩
      have heq : (p.mapThread t.tid fun v => { v with dr := Function.update v.dr i slot }).eachThread
          (fun v => if v.tid ∈ tids then { v with dr := Function.update v.dr i slot } else v) =
          p.eachThread fun v => if v.tid ∈ tid :: tids then
            { v with dr := Function.update v.dr i slot } else v := by
        simp only [Process.eachThread, Process.mapThread, List.map_map]
        congr 1
        refine List.map_congr_left fun v _ => ?_
        rw [Function.comp_apply, htid]
        by_cases hv : v.tid = tid
        · by_cases hmem : v.tid ∈ tids <;> simp [hv, hv ▸ hmem]
        · simp [hv]
      obtain ⟨m, hm⟩ := h.2
      refine ⟨m, hm.trans ?_⟩
      show Sys.mk _ _ _ = Sys.mk _ _ _
      rw [← heq]
      rfl

/-- `for_each_thread` succeeds on all threads or does nothing. -/
theorem wp_forEachThread {Q : Int → Sys → Prop} (hr : s.Reliable .debugState)
    (hwf : ∀ p, s.process pid = some p → p.WellFormed)
    (hfail : ∀ s', s.Quiet s' → (s.Reliable .taskThreads → ∀ p, s.process pid = some p →
      p.threads = []) → Q (-1) s')
    (hok : ∀ p s', s.process pid = some p → (s.withProc (p.setSlot i slot)).Quiet s' → Q 0 s') :
    wp (forEachThread pid i slot) Q s := by
  rw [forEachThread, wp_bind]
  refine wp_kernelRead (fun s' hq hun => hfail s' hq fun h p hp => ?_) fun p a s' hp ha hq => ?_
  · exact absurd (hun h p hp) (by simp)
  · obtain rfl := Option.some.inj ha
    dsimp only
    by_cases hnil : p.threads = []
    · rw [hnil]
      refine hfail s' hq fun _ q hq => ?_
      obtain rfl := Option.some.inj (hp.symm.trans hq)
      exact hnil
    · obtain ⟨n, rfl⟩ := hq
      have hpos : (p.threads.map (·.tid)).length > 0 := by
        rw [List.length_map]
        exact List.length_pos_iff.mpr hnil
      rw [if_pos hpos]
      refine wp_mono (wp_setSlotOfThreads (s := { s with os := { s.os with calls := n } }) hr hp
        (hwf p hp) fun _ h => h) fun rc s' h => ?_
      obtain ⟨rfl, m, rfl⟩ := h
      refine hok p _ hp ⟨m, ?_⟩
      have hall : p.eachThread (fun t => if t.tid ∈ p.threads.map (·.tid) then
          { t with dr := Function.update t.dr i slot } else t) = p.setSlot i slot := by
        simp only [Process.eachThread, Process.setSlot]
        congr 1
        refine List.map_congr_left fun t ht => ?_
        rw [if_pos (List.mem_map_of_mem ht)]
      rw [hall]
      rfl

theorem wp_cdbgWpHwInstall {k : ℕ} {addr : Addr} {size : ℕ} {mode : WpMode}
    {Q : Int → Sys → Prop} (hr : s.Reliable .debugState)
    (hwf : ∀ p, s.process pid = some p → p.WellFormed)
    (hfail : ∀ s', s.Quiet s' → (s.Reliable .taskThreads → k < wpMaxHw →
      hwAccepts s.os.arch addr size = true → ∀ p, s.process pid = some p → p.threads = []) →
      Q (-1) s')
    (hok : ∀ p s' (hk : k < wpMaxHw), s.process pid = some p →
      hwAccepts s.os.arch addr size = true →
      (s.withProc (p.setSlot ⟨k, hk⟩ (some { addr := addr, size := size, mode := mode }))).Quiet s' →
      Q 0 s') :
    wp (cdbgWpHwInstall pid k addr size mode) Q s := by
  rw [cdbgWpHwInstall]
  split
  · next hk =>
    rw [wp_bind, wp_get, wp_ite]
    refine ⟨fun hno => ?_, fun hyes => ?_⟩
    · refine hfail s (.refl s) fun _ _ hacc => ?_
      rw [hacc] at hno
      exact absurd hno (by decide)
    · have hacc : hwAccepts s.os.arch addr size = true := by simpa using hyes
      exact wp_forEachThread hr hwf (fun s' hq hun => hfail s' hq fun ht _ _ => hun ht)
        fun p s' hp hq => hok p s' hk hp hacc hq
  · next hk => exact hfail s (.refl s) fun _ hlt => absurd hlt hk

theorem wp_cdbgWpHwUninstall {k : ℕ} {Q : Int → Sys → Prop} (hr : s.Reliable .debugState)
    (hwf : ∀ p, s.process pid = some p → p.WellFormed)
    (hfail : ∀ s', s.Quiet s' → (s.Reliable .taskThreads → k < wpMaxHw →
      ∀ p, s.process pid = some p → p.threads = []) → Q (-1) s')
    (hok : ∀ p s' (hk : k < wpMaxHw), s.process pid = some p →
      (s.withProc (p.setSlot ⟨k, hk⟩ none)).Quiet s' → Q 0 s') :
    wp (cdbgWpHwUninstall pid k) Q s := by
  rw [cdbgWpHwUninstall]
  split
  · next hk =>
    exact wp_forEachThread hr hwf (fun s' hq hun => hfail s' hq fun ht _ => hun ht)
      fun p s' hp hq => hok p s' hk hp hq
  · next hk => exact hfail s (.refl s) fun _ hlt => absurd hlt hk

end Rules

/-! ### The loops over the table -/

/-- The loop of `resync_watchpoints_to_all_threads`: `I` holds before each entry. -/
theorem wp_resyncFrom {I : ℕ → Sys → Prop} {pid : ℕ} : ∀ {wps : List Watchpoint} {i : ℕ} {s : Sys},
    (∀ j watch s, wps[j]? = some watch → I (i + j) s →
      (watch.enabled = true → wp (cdbgWpHwInstall pid (i + j) watch.addr watch.size watch.mode)
        (fun _ => I (i + j + 1)) s) ∧ (watch.enabled = false → I (i + j + 1) s)) →
    I i s → wp (resyncFrom pid i wps) (fun _ => I (i + wps.length)) s := by
  intro wps
  induction wps with
  | nil => exact fun _ h => h
  | cons watch rest ih =>
    intro i s hstep h
    have hfirst := hstep 0 watch s rfl h
    have hlen : i + (watch :: rest).length = i + 1 + rest.length := by
      rw [List.length_cons]
      omega
    have hrest : ∀ {s'}, I (i + 1) s' → wp (resyncFrom pid (i + 1) rest)
        (fun _ => I (i + (watch :: rest).length)) s' := by
      intro s' h'
      rw [hlen]
      refine ih (fun j w s'' hj h'' => ?_) h'
      have hj' := hstep (j + 1) w s'' hj
      rw [show i + (j + 1) = i + 1 + j by omega] at hj'
      exact hj' h''
    rw [resyncFrom, wp_ite]
    refine ⟨fun hen => ?_, fun hen => hrest (hfirst.2 (by simpa using hen))⟩
    rw [wp_bind]
    exact wp_mono (hfirst.1 hen) fun _ _ h' => hrest h'

/-- The retry loop of `cmd_watch` arms one register of every thread, or none. -/
theorem wp_tryInstall {pid slot : ℕ} {addr : Addr} {mode : WpMode} {s : Sys}
    {Q : Option ℕ → Sys → Prop} (hr : s.Reliable .debugState)
    (hwf : ∀ p, s.process pid = some p → p.WellFormed)
    (hnone : ∀ s', s.Quiet s' → Q none s')
    (hsome : ∀ p size s' (hk : slot < wpMaxHw), s.process pid = some p →
      hwAccepts s.os.arch addr size = true →
      (s.withProc (p.setSlot ⟨slot, hk⟩
        (some { addr := addr, size := size, mode := mode }))).Quiet s' → Q (some size) s') :
    ∀ {sizes : List ℕ}, wp (tryInstall pid slot addr mode sizes) Q s := by
  intro sizes
  induction sizes generalizing s with
  | nil => exact hnone s (.refl s)
  | cons size sizes ih =>
    rw [tryInstall, wp_bind]
    refine wp_cdbgWpHwInstall hr hwf (fun s' hq _ => ?_) fun p s' hk hp hacc hq => ?_
    · obtain ⟨n, rfl⟩ := hq
      rw [wp_ite]
      refine ⟨fun h => absurd h neg_one_ne, fun _ => ih hr hwf (fun s' hq => ?_)
        fun p size s' hk hp hacc hq => ?_⟩
      · exact hnone s' (Sys.Quiet.trans ⟨n, rfl⟩ hq)
      · obtain ⟨m, rfl⟩ := hq
        exact hsome p size _ hk hp hacc ⟨m, rfl⟩
    · rw [wp_ite]
      exact ⟨fun _ => hsome p size s' hk hp hacc hq, fun h => absurd rfl h⟩

/-- `cmd_watch` adds an entry whose register is armed on every thread, or only refreshes
the cached registers. -/
theorem wp_cmdWatch {expr : Option CStr} {resolved : Option (Addr × ℕ)} {s : Sys}
    {Q : Int → Sys → Prop} (hr : s.Reliable .debugState)
    (hwf : ∀ p, s.process s.dbg.pid = some p → p.WellFormed)
    (hnone : ∀ rc s', s'.sansPatches = s.sansPatches → Q rc s')
    (hadd : ∀ (s₁ : Sys) p (watch : Watchpoint) s' (hk : s.dbg.watchpoints.length < wpMaxHw),
      s₁.sansPatches = s.sansPatches → s₁.os.proc = some p →
      hwAccepts s.os.arch watch.addr watch.size = true →
      ((s₁.withProc (p.setSlot ⟨_, hk⟩ (some watch.slot))).withDbg { s₁.dbg with
        watchpoints := s.dbg.watchpoints ++ [watch] }).Quiet s' → Q 0 s') :
    wp (cmdWatch expr resolved) Q s := by
  rw [cmdWatch, wp_bind, wp_get, wp_ite]
  refine ⟨fun _ => hnone _ _ rfl, fun _ => ?_⟩
  split
  · exact hnone _ _ rfl
  · exact hnone _ _ rfl
  · split
    · exact hnone _ _ rfl
    · next watchRead explicitSize rest _ =>
      rw [wp_ite]
      refine ⟨fun _ => hnone _ _ rfl, fun _ => ?_⟩
      rw [wp_ite]
      refine ⟨fun _ => hnone _ _ rfl, fun hlen => ?_⟩
      rw [wp_bind]
      refine wp_cdbgRefreshRegs (fun s₁ hq _ => ?_) fun p t s₁ hp _ hq => ?_
      · rw [wp_ite]
        exact ⟨fun _ => hnone _ _ (Sys.sansPatches_of_quiet hq), fun h => absurd (by decide) h⟩
      · rw [wp_ite]
        refine ⟨fun h => absurd rfl h, fun _ => ?_⟩
        have hv₁ : s₁.sansPatches = s.sansPatches := by
          rw [Sys.sansPatches_of_quiet hq]
          rfl
        have hr₁ : s₁.Reliable .debugState := by
          obtain ⟨n, rfl⟩ := hq
          exact hr
        have hwf₁ : ∀ p, s₁.process s.dbg.pid = some p → p.WellFormed := by
          obtain ⟨n, rfl⟩ := hq
          exact hwf
        have harch : s₁.os.arch = s.os.arch := congrArg (·.os.arch) hv₁
        cases resolved with
        | none => exact hnone _ _ hv₁
        | some r =>
          obtain ⟨addr, valueSize⟩ := r
          dsimp only
          rw [wp_bind]
          refine wp_tryInstall hr₁ hwf₁ (fun s₂ hq₂ => ?_) fun q size s₂ hk hq' hacc hq₂ => ?_
          · exact hnone _ _ ((Sys.sansPatches_of_quiet hq₂).trans hv₁)
          · obtain ⟨m, rfl⟩ := hq₂
            rw [harch] at hacc
            have hadd' := fun old s' hq => hadd s₁ q ⟨true, addr, size, old,
              if watchRead then .access else .write⟩ s' hk hv₁ (Sys.process_eq_some.mp hq').1
              hacc hq
            dsimp only
            rw [wp_bind]
            refine wp_cdbgMemRead (fun s₃ hq₃ _ => ?_) fun r s₃ _ hq₃ => ?_
            · obtain ⟨l, rfl⟩ := hq₃
              exact hadd' 0 _ ⟨l, rfl⟩
            · obtain ⟨l, rfl⟩ := hq₃
              exact hadd' _ _ ⟨l, rfl⟩

/-! ### What leaves the debug registers alone -/

section View

variable {s s' : Sys}

/-- The debug registers of the threads and the table of watchpoints. -/
def Sys.slots (s : Sys) :
    Option (List (UInt64 × (Fin wpMaxHw → Option HwSlot))) × List Watchpoint :=
  (s.os.proc.map (·.threads.map fun t => (t.tid, t.dr)),
    s.dbg.watchpoints.map Watchpoint.place)

theorem Sys.slots_of_sansHits (h : s'.sansHits = s.sansHits) : s'.slots = s.slots := by
  have hslots : ∀ s : Sys, s.sansHits.slots = s.slots := by
    intro s
    have hproc : s.sansHits.os.proc.map (·.threads.map fun t => (t.tid, t.dr)) =
        s.os.proc.map (·.threads.map fun t => (t.tid, t.dr)) := by
      rw [sansHits, sansProc, Option.map_map]
      refine congrArg (Option.map · s.os.proc) (funext fun p => ?_)
      simp [Process.sansHits, Process.eachThread]
    have hwps : s.sansHits.dbg.watchpoints.map Watchpoint.place =
        s.dbg.watchpoints.map Watchpoint.place := by
      rw [sansHits, List.map_map]
      rfl
    rw [slots, hproc, hwps, slots]
  rw [← hslots s', h, hslots s]

theorem Sys.slots_of_sansHolds (h : s'.sansHolds = s.sansHolds) : s'.slots = s.slots := by
  have hslots : ∀ s : Sys, s.sansHolds.slots = s.slots := by
    intro s
    have hproc : s.sansHolds.os.proc.map (·.threads.map fun t => (t.tid, t.dr)) =
        s.os.proc.map (·.threads.map fun t => (t.tid, t.dr)) := by
      rw [sansHolds, sansProc, Option.map_map]
      refine congrArg (Option.map · s.os.proc) (funext fun p => ?_)
      simp [Process.eachThread]
    rw [slots, hproc, slots]
    rfl
  rw [← hslots s', h, hslots s]

theorem Sys.slots_of_quiet (h : s.Quiet s') : s'.slots = s.slots :=
  Sys.slots_of_sansHits (Sys.sansHits_of_quiet h)

theorem Sys.slots_of_resumed {kind : Resume} {p : Process} (hp : s.process s.dbg.pid = some p)
    (hq : (s.resumedAs kind p).Quiet s') : s'.slots = s.slots := by
  obtain ⟨n, rfl⟩ := hq
  simp only [slots, resumedAs, (Sys.process_eq_some.mp hp).1, Option.map_some, Process.resumed,
    List.map_map, Function.comp_def]

/-- The threads on both sides of a change that keeps the debug registers. -/
theorem Sys.thread_of_slots (hv : s'.slots = s.slots) {p' : Process} (hp' : s'.os.proc = some p')
    {t' : Thread} (ht' : t' ∈ p'.threads) :
    ∃ p t, s.os.proc = some p ∧ t ∈ p.threads ∧ t.tid = t'.tid ∧ t.dr = t'.dr := by
  have hproc : s'.os.proc.map (·.threads.map fun t => (t.tid, t.dr)) =
      s.os.proc.map (·.threads.map fun t => (t.tid, t.dr)) := congrArg Prod.fst hv
  rw [hp', Option.map_some] at hproc
  obtain ⟨p, hp, hthreads⟩ := Option.map_eq_some_iff.mp hproc.symm
  obtain ⟨t, ht, heq⟩ := exists_mem_of_map_eq hthreads.symm ht'
  obtain ⟨h1, h2⟩ := Prod.mk.inj heq
  exact ⟨p, t, hp, ht, h1, h2⟩

theorem switchCurrentTidToBreakpointHit_slots : Keeps Sys.slots switchCurrentTidToBreakpointHit := by
  intro s
  refine wp_switchCurrentTidToBreakpointHit (fun s' hq _ => Sys.slots_of_quiet hq)
    fun p before i after t s' _ _ _ _ hq => ?_
  exact (Sys.slots_of_quiet hq).trans rfl

/-- After the watchpoints are armed again, reporting a stop changes no debug register. -/
theorem reportStop_slots {Q : Sys → Prop}
    (hQ : ∀ s s', Q s → s'.progress = s.progress → s'.slots = s.slots → Q s')
    (h : wp resyncWatchpointsToAllThreads (fun _ => Q) s) : wp reportStop (fun _ => Q) s := by
  rw [reportStop, wp_bind]
  refine wp_mono h fun _ s₁ h₁ => ?_
  rw [wp_bind]
  refine wp_mono (wp_and (switchCurrentTidToBreakpointHit_slots s₁)
    (switchCurrentTidToBreakpointHit_keeps s₁)) fun _ s₂ h₂ => ?_
  have hQ₂ := hQ s₁ s₂ h₁ (Sys.progress_of_sansReports h₂.2) h₂.1
  exact wp_mono (reportSelected_keeps s₂) fun _ s₃ hv =>
    hQ s₂ s₃ hQ₂ (Sys.progress_of_sansReports (Sys.sansReports_of_sansHits hv))
      (Sys.slots_of_sansHits hv)

end View

end Debugger
