/-
Which threads a write of one debug register reaches.

`for_each_thread` goes on after a failure, so the writes that fail decide thread by thread what
is changed.  The kernel calls are numbered: an installation that begins with call `n` lists the
threads with it and writes to them with the calls behind it (`forEachThread_run`).
-/
import Debugger.DebugRegs

open Prog

namespace Debugger

/-! ### Failing calls -/

/-- The threads with the given ids that the calls from `n` on write to. -/
def written (fault : KCall → ℕ → Bool) : ℕ → List UInt64 → List UInt64
  | _, [] => []
  | n, tid :: tids =>
    if fault .debugState n then written fault (n + 1) tids
    else tid :: written fault (n + 1) tids

/-- The threads that an installation beginning with call `n` reaches. -/
def reached (fault : KCall → ℕ → Bool) (n : ℕ) (tids : List UInt64) : List UInt64 :=
  if fault .taskThreads n then [] else written fault (n + 1) tids

/-- It reaches all of them, and there is one. -/
def reachesAll (fault : KCall → ℕ → Bool) (n : ℕ) (tids : List UInt64) : Bool :=
  tids ≠ [] && reached fault n tids = tids

/-- The call behind it. -/
def behind (fault : KCall → ℕ → Bool) (n : ℕ) (tids : List UInt64) : ℕ :=
  if fault .taskThreads n then n + 1 else n + 1 + tids.length

/-- Change one debug register of the threads with the given ids. -/
def Process.setSlotOf (p : Process) (i : Fin wpMaxHw) (slot : Option HwSlot)
    (tids : List UInt64) : Process :=
  p.eachThread fun t => if t.tid ∈ tids then { t with dr := Function.update t.dr i slot } else t

/-- The system with another process, behind other calls. -/
def Sys.later (s : Sys) (p : Process) (n : ℕ) : Sys :=
  { s with os := { s.os with proc := some p, calls := { s.os.calls with count := n } } }

/-- The ids of the threads of the debuggee. -/
def Process.tids (p : Process) : List UInt64 := p.threads.map (·.tid)

section Written

variable {fault : KCall → ℕ → Bool} {n : ℕ} {tids : List UInt64}

theorem written_length_le : (written fault n tids).length ≤ tids.length := by
  induction tids generalizing n with
  | nil => exact Nat.le_refl _
  | cons tid tids ih =>
    rw [written]
    split
    · exact Nat.le_succ_of_le ih
    · exact Nat.succ_le_succ ih

/-- All threads are written to when no call fails. -/
theorem written_eq_iff :
    written fault n tids = tids ↔ ∀ j < tids.length, fault .debugState (n + j) = false := by
  induction tids generalizing n with
  | nil => exact iff_of_true rfl fun j hj => absurd hj (Nat.not_lt_zero j)
  | cons tid tids ih =>
    have hlen : (written fault (n + 1) tids).length ≤ tids.length := written_length_le
    rw [written]
    constructor
    · intro h
      split at h
      · rw [h, List.length_cons] at hlen
        exact absurd hlen (by omega)
      · next hok =>
        intro j hj
        cases j with
        | zero => simpa using hok
        | succ j =>
          rw [show n + (j + 1) = n + 1 + j by omega]
          exact ih.mp (List.cons.inj h).2 j (Nat.lt_of_succ_lt_succ hj)
    · intro h
      have hok : fault .debugState n = false := h 0 (Nat.succ_pos _)
      rw [hok, if_neg Bool.false_ne_true, ih.mpr fun j hj => ?_]
      rw [show n + 1 + j = n + (j + 1) by omega]
      exact h (j + 1) (Nat.succ_lt_succ hj)

end Written

section Process

variable {p : Process} {i : Fin wpMaxHw} {slot : Option HwSlot} {tids : List UInt64}

theorem Process.setSlotOf_tids : (p.setSlotOf i slot tids).tids = p.tids := by
  rw [Process.tids, Process.tids, setSlotOf, eachThread, List.map_map]
  refine List.map_congr_left fun t _ => ?_
  rw [Function.comp_apply]
  split <;> rfl

theorem Process.WellFormed.setSlotOf (h : p.WellFormed) : (p.setSlotOf i slot tids).WellFormed :=
  Process.wellFormed_of_tids Process.setSlotOf_tids rfl h

theorem Process.setSlotOf_nil : p.setSlotOf i slot [] = p := by
  rw [setSlotOf, eachThread]
  have hid : p.threads.map (fun t => if t.tid ∈ ([] : List UInt64) then
      { t with dr := Function.update t.dr i slot } else t) = p.threads := by
    conv_rhs => rw [← List.map_id p.threads]
    exact List.map_congr_left fun t _ => if_neg List.not_mem_nil
  rw [hid]

/-- Writing to one more thread. -/
theorem Process.setSlotOf_cons {tid : UInt64} :
    (p.mapThread tid fun t => { t with dr := Function.update t.dr i slot }).setSlotOf i slot tids =
      p.setSlotOf i slot (tid :: tids) := by
  simp only [setSlotOf, eachThread, mapThread, List.map_map]
  congr 1
  refine List.map_congr_left fun t _ => ?_
  rw [Function.comp_apply]
  by_cases ht : t.tid = tid
  · by_cases hmem : t.tid ∈ tids <;> simp [ht, ht ▸ hmem]
  · simp [ht]

end Process

section Run

variable {s : Sys} {p : Process} {pid : ℕ} {i : Fin wpMaxHw} {slot : Option HwSlot}

theorem Sys.answer_eq {α : Type} {c : KCall} {f : Process → Option (α × Process)}
    (hok : s.os.fault c s.os.calls.count = false) (hp : s.process pid = some p) :
    s.answer c pid f = f p := by
  rw [answer, hok, if_neg Bool.false_ne_true, hp, Option.bind_some]

/-- A kernel call, as the oracle decides it. -/
theorem wp_kernelCall_iff {α : Type} {c : KCall} {f : Process → Option (α × Process)}
    {Q : Option α → Sys → Prop} : wp (kernelCall c pid f) Q s ↔
      match s.answer c pid f with
      | none => Q none s.tick
      | some r => Q (some r.1) (s.tick.withProc r.2) := by
  rw [kernelCall, wp_bind, wp_get]
  cases s.answer c pid f with
  | none => rfl
  | some r => rfl

/-- Writing to one thread. -/
theorem wp_setThreadSlot_iff {Q : Int → Sys → Prop} (hp : s.process pid = some p)
    (hwf : p.WellFormed) {tid : UInt64} (htid : tid ∈ p.tids) :
    wp (setThreadSlot pid i slot tid) Q s ↔
      if s.os.fault .debugState s.os.calls.count then Q (-1) (s.later p (s.os.calls.count + 1))
      else Q 0 (s.later (p.mapThread tid fun t => { t with dr := Function.update t.dr i slot })
        (s.os.calls.count + 1)) := by
  obtain ⟨t, ht, rfl⟩ := hwf.thread_of_mem htid
  rw [setThreadSlot, updateThread, wp_bind, wp_kernelCall_iff, Sys.answer, hp, Option.bind_some,
    ht]
  by_cases hf : s.os.fault .debugState s.os.calls.count = true
  · rw [if_pos hf, if_pos hf, Sys.later, ← (Sys.process_eq_some.mp hp).1]
    rfl
  · rw [if_neg hf, if_neg hf]
    rfl

/-- The loop over the threads. -/
theorem wp_setSlotOfThreads_iff {Q : Int → Sys → Prop} {tids : List UInt64} {rc : Int}
    (hp : s.process pid = some p) (hwf : p.WellFormed) (htids : ∀ tid ∈ tids, tid ∈ p.tids) :
    wp (setSlotOfThreads pid i slot tids rc) Q s ↔
      Q (if written s.os.fault s.os.calls.count tids = tids then rc else -1)
        (s.later (p.setSlotOf i slot (written s.os.fault s.os.calls.count tids))
          (s.os.calls.count + tids.length)) := by
  induction tids generalizing s p rc with
  | nil =>
    rw [written, if_pos rfl, Process.setSlotOf_nil, Sys.later, ← (Sys.process_eq_some.mp hp).1]
    rfl
  | cons tid tids ih =>
    obtain ⟨htid, hrest⟩ := List.forall_mem_cons.mp htids
    have hpid := (Sys.process_eq_some.mp hp).2
    have hlen : (written s.os.fault (s.os.calls.count + 1) tids).length ≤ tids.length :=
      written_length_le
    have hcount : s.os.calls.count + 1 + tids.length = s.os.calls.count + (tid :: tids).length := by
      rw [List.length_cons]
      omega
    rw [setSlotOfThreads, wp_bind, wp_setThreadSlot_iff hp hwf htid, written]
    by_cases hf : s.os.fault .debugState s.os.calls.count = true
    · have hne : written s.os.fault (s.os.calls.count + 1) tids ≠ tid :: tids := fun heq => by
        rw [heq, List.length_cons] at hlen
        omega
      rw [if_pos hf, if_pos hf, if_pos neg_one_ne, if_neg hne,
        ih (s := s.later p (s.os.calls.count + 1)) (Sys.process_eq_some.mpr ⟨rfl, hpid⟩) hwf hrest,
        ite_self, ← hcount]
      rfl
    · have hiff : written s.os.fault (s.os.calls.count + 1) tids = tids ↔
          tid :: written s.os.fault (s.os.calls.count + 1) tids = tid :: tids := by
        rw [List.cons.injEq, eq_self, true_and]
      have hsame := @Process.mapThread_tids p tid
        (fun t => { t with dr := Function.update t.dr i slot }) fun _ => rfl
      have hrest' : ∀ u ∈ tids, u ∈ (p.mapThread tid fun t =>
          { t with dr := Function.update t.dr i slot }).tids := fun u hu => by
        rw [Process.tids, hsame]
        exact hrest u hu
      rw [if_neg hf, if_neg hf, if_neg (not_not.mpr rfl),
        ih (s := s.later (p.mapThread tid fun t => { t with dr := Function.update t.dr i slot })
          (s.os.calls.count + 1)) (Sys.process_eq_some.mpr ⟨rfl, hpid⟩)
          (Process.wellFormed_of_tids hsame rfl hwf) hrest',
        Process.setSlotOf_cons, ← hcount]
      simp only [← hiff]
      rfl

/-- What `for_each_thread` does. -/
theorem wp_forEachThread_iff {Q : Int → Sys → Prop} (hp : s.process pid = some p)
    (hwf : p.WellFormed) : wp (forEachThread pid i slot) Q s ↔
      Q (if reachesAll s.os.fault s.os.calls.count p.tids then 0 else -1)
        (s.later (p.setSlotOf i slot (reached s.os.fault s.os.calls.count p.tids))
          (behind s.os.fault s.os.calls.count p.tids)) := by
  have hproc := (Sys.process_eq_some.mp hp).1
  rw [forEachThread, kernelRead, wp_bind, wp_kernelCall_iff, Sys.answer, hp, Option.bind_some,
    reachesAll, reached, behind]
  by_cases hf : s.os.fault .taskThreads s.os.calls.count = true
  · rw [if_pos hf, if_pos hf, if_pos hf, Process.setSlotOf_nil, Sys.later, ← hproc]
    cases p.tids with
    | nil => rfl
    | cons tid tids => rfl
  · rw [if_neg hf, if_neg hf, if_neg hf]
    change wp (setSlotOfThreads pid i slot p.tids _) Q (s.later p (s.os.calls.count + 1)) ↔ _
    rw [wp_setSlotOfThreads_iff (s := s.later p (s.os.calls.count + 1))
      (Sys.process_eq_some.mpr ⟨rfl, (Sys.process_eq_some.mp hp).2⟩) hwf fun _ h => h]
    change Q (if written s.os.fault (s.os.calls.count + 1) p.tids = p.tids then
      if p.tids.length > 0 then 0 else -1 else -1) _ ↔ _
    have hrc : (if written s.os.fault (s.os.calls.count + 1) p.tids = p.tids then
        if p.tids.length > 0 then (0 : Int) else -1 else -1) =
        if p.tids ≠ [] && written s.os.fault (s.os.calls.count + 1) p.tids = p.tids then 0 else -1 := by
      cases p.tids with
      | nil => rfl
      | cons tid tids => simp
    rw [hrc]
    rfl

/-- What `cdbg_wp_hw_install` does. -/
theorem wp_cdbgWpHwInstall_iff {Q : Int → Sys → Prop} {k : ℕ} {addr : Addr} {size : ℕ}
    {mode : WpMode} (hp : s.process pid = some p) (hwf : p.WellFormed) (hk : k < wpMaxHw) :
    wp (cdbgWpHwInstall pid k addr size mode) Q s ↔
      if hwAccepts s.os.arch addr size then
        Q (if reachesAll s.os.fault s.os.calls.count p.tids then 0 else -1)
          (s.later (p.setSlotOf ⟨k, hk⟩ (some { addr := addr, size := size, mode := mode })
            (reached s.os.fault s.os.calls.count p.tids)) (behind s.os.fault s.os.calls.count p.tids))
      else Q (-1) s := by
  rw [cdbgWpHwInstall, dif_pos hk, wp_bind, wp_get]
  cases hwAccepts s.os.arch addr size with
  | false => rfl
  | true => exact wp_forEachThread_iff hp hwf

/-- What `cdbg_wp_hw_uninstall` does. -/
theorem wp_cdbgWpHwUninstall_iff {Q : Int → Sys → Prop} {k : ℕ} (hp : s.process pid = some p)
    (hwf : p.WellFormed) (hk : k < wpMaxHw) : wp (cdbgWpHwUninstall pid k) Q s ↔
      Q (if reachesAll s.os.fault s.os.calls.count p.tids then 0 else -1)
        (s.later (p.setSlotOf ⟨k, hk⟩ none (reached s.os.fault s.os.calls.count p.tids))
          (behind s.os.fault s.os.calls.count p.tids)) := by
  rw [cdbgWpHwUninstall, dif_pos hk]
  exact wp_forEachThread_iff hp hwf

/-- Without a process nothing is changed. -/
theorem wp_forEachThread_none (hp : s.process pid = none) :
    wp (forEachThread pid i slot) (fun rc s' => rc = -1 ∧ s' = s.tick) s := by
  rw [forEachThread, kernelRead, wp_bind, wp_kernelCall_iff, Sys.answer, hp, Option.bind_none,
    ite_self]
  exact ⟨rfl, rfl⟩

end Run

/-! ### Trying several sizes -/

/-- The size that is installed on the threads, trying the sizes in turn from call `n` on, and
the call behind. -/
def installedSize (fault : KCall → ℕ → Bool) (tids : List UInt64) : ℕ → List ℕ → Option (ℕ × ℕ)
  | _, [] => none
  | n, size :: sizes =>
    if reachesAll fault n tids then some (size, behind fault n tids)
    else installedSize fault tids (behind fault n tids) sizes

/-- The size that reaches the thread last, when the sizes are tried in turn. -/
def lastReached (fault : KCall → ℕ → Bool) (tids : List UInt64) (tid : UInt64) :
    ℕ → List ℕ → Option ℕ
  | _, [] => none
  | n, size :: sizes =>
    (lastReached fault tids tid (behind fault n tids) sizes).or
      (if tid ∈ reached fault n tids then some size else none)

/-- The register of each thread watches as many bytes at the address as `sizeOf` says. -/
def Process.watchedBy (p : Process) (i : Fin wpMaxHw) (addr : Addr) (mode : WpMode)
    (sizeOf : UInt64 → Option ℕ) : Process :=
  p.eachThread fun t =>
    match sizeOf t.tid with
    | none => t
    | some size =>
      { t with dr := Function.update t.dr i (some { addr := addr, size := size, mode := mode }) }

section Sizes

variable {s : Sys} {p : Process} {pid k : ℕ} {addr : Addr} {mode : WpMode}

theorem reachesAll_eq_true {fault : KCall → ℕ → Bool} {n : ℕ} {tids : List UInt64} :
    reachesAll fault n tids = true ↔ tids ≠ [] ∧ reached fault n tids = tids := by
  rw [reachesAll, Bool.and_eq_true, decide_eq_true_eq, decide_eq_true_eq]

/-- A later write of the register hides an earlier one. -/
theorem Process.setSlotOf_watchedBy {i : Fin wpMaxHw} {size : ℕ} {tids : List UInt64}
    {sizeOf : UInt64 → Option ℕ} :
    (p.setSlotOf i (some { addr := addr, size := size, mode := mode }) tids).watchedBy i addr mode
        sizeOf =
      p.watchedBy i addr mode fun tid =>
        (sizeOf tid).or (if tid ∈ tids then some size else none) := by
  simp only [watchedBy, setSlotOf, eachThread, List.map_map]
  congr 1
  refine List.map_congr_left fun t _ => ?_
  rw [Function.comp_apply]
  by_cases ht : t.tid ∈ tids
  · rw [if_pos ht, if_pos ht]
    cases sizeOf t.tid with
    | none => rfl
    | some size' => simp only [Option.or_some, Function.update_idem, Option.getD_some]
  · rw [if_neg ht, if_neg ht, Option.or_none]

/-- Writing to all threads hides what was written before. -/
theorem Process.setSlotOf_setSlotOf {i : Fin wpMaxHw} {slot slot' : Option HwSlot}
    {tids : List UInt64} :
    (p.setSlotOf i slot tids).setSlotOf i slot' p.tids = p.setSlotOf i slot' p.tids := by
  simp only [setSlotOf, eachThread, List.map_map]
  congr 1
  refine List.map_congr_left fun t ht => ?_
  have htid : t.tid ∈ p.tids := List.mem_map_of_mem ht
  rw [Function.comp_apply, if_pos htid]
  by_cases hmem : t.tid ∈ tids
  · rw [if_pos hmem, if_pos htid, Function.update_idem]
  · rw [if_neg hmem, if_pos htid]

theorem Process.watchedBy_none {i : Fin wpMaxHw} :
    p.watchedBy i addr mode (fun _ => none) = p := by
  rw [watchedBy, eachThread]
  exact congrArg (fun ts => { p with threads := ts }) (List.map_id p.threads)

/-- The retry loop of `cmd_watch`: the sizes that the hardware refuses make no call. -/
theorem wp_tryInstall_cases {Q : Option ℕ → Sys → Prop} (hk : k < wpMaxHw) :
    ∀ {sizes : List ℕ} {s : Sys} {p : Process}, s.process pid = some p → p.WellFormed →
    (∀ n, installedSize s.os.fault p.tids s.os.calls.count (sizes.filter (hwAccepts s.os.arch addr)) =
        none →
      Q none (s.later (p.watchedBy ⟨k, hk⟩ addr mode fun tid => lastReached s.os.fault p.tids tid
        s.os.calls.count (sizes.filter (hwAccepts s.os.arch addr))) n)) →
    (∀ size n, installedSize s.os.fault p.tids s.os.calls.count
        (sizes.filter (hwAccepts s.os.arch addr)) = some (size, n) →
      Q (some size) (s.later (p.setSlotOf ⟨k, hk⟩
        (some { addr := addr, size := size, mode := mode }) p.tids) n)) →
    wp (tryInstall pid k addr mode sizes) Q s := by
  intro sizes
  induction sizes with
  | nil =>
    intro s p hp _ hnone _
    have h := hnone s.os.calls.count rfl
    rw [List.filter_nil] at h
    change Q none (s.later (p.watchedBy ⟨k, hk⟩ addr mode fun _ => none) s.os.calls.count) at h
    rw [Process.watchedBy_none, Sys.later, ← (Sys.process_eq_some.mp hp).1] at h
    exact h
  | cons size sizes ih =>
    intro s p hp hwf hnone hsome
    rw [tryInstall, wp_bind, wp_cdbgWpHwInstall_iff hp hwf hk]
    by_cases hacc : hwAccepts s.os.arch addr size = true
    · rw [List.filter_cons_of_pos hacc] at hnone hsome
      rw [if_pos hacc]
      by_cases hall : reachesAll s.os.fault s.os.calls.count p.tids = true
      · rw [if_pos hall, if_pos rfl, (reachesAll_eq_true.mp hall).2]
        exact hsome size _ (if_pos hall)
      · rw [if_neg hall, if_neg neg_one_ne]
        refine ih (s := s.later _ _) (Sys.process_eq_some.mpr ⟨rfl, (Sys.process_eq_some.mp hp).2⟩)
          hwf.setSlotOf (fun n hn => ?_) fun size' n hn => ?_
        · rw [Process.setSlotOf_tids] at hn ⊢
          have h := hnone n ((if_neg hall).trans hn)
          rw [Process.setSlotOf_watchedBy]
          exact h
        · rw [Process.setSlotOf_tids] at hn ⊢
          rw [Process.setSlotOf_setSlotOf]
          exact hsome size' n ((if_neg hall).trans hn)
    · rw [List.filter_cons_of_neg hacc] at hnone hsome
      rw [if_neg hacc, if_neg neg_one_ne]
      exact ih hp hwf hnone hsome

end Sizes

end Debugger
