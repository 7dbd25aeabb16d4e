/-
The size `cmd_watch` watches.

Without a size flag the size of the value is rounded up to 1, 2, 4 or 8, and halved until an
installation succeeds.  So it is the largest such size that the hardware accepts at the address
(`watch_size_greatest`), unless a call fails; it is within the value when nothing was rounded up.
-/
import Debugger.SlotWrites
import Debugger.Repl
import Mathlib.Order.Bounds.Basic
import Mathlib.Order.Interval.Set.Basic

open Prog

namespace Debugger

/-! ### The plan of the command -/

/-- The flags of `cmd_watch`, in front of an expression. -/
def watchFlags (expr : Option CStr) : Option (Bool × ℕ) :=
  match expr.map trimSpace with
  | none => none
  | some [] => none
  | some text =>
    match parseWatchFlags text.length false 0 text with
    | none => none
    | some (watchRead, explicitSize, rest) =>
      if rest = [] then none else some (watchRead, explicitSize)

/-- The registers that a refresh reads. -/
def Sys.regsRead (s : Sys) : Option (Regs × Process) :=
  s.answer .regsGet s.dbg.pid fun p => (p.thread s.dbg.currentTid).map fun t => (t.regs, p)

/-- What `cmd_watch` sets out to install, and where: the address, the mode and the sizes to be
tried; nothing when it returns before that. -/
def watchPlan (s : Sys) (expr : Option CStr) (resolved : Option (Addr × ℕ)) :
    Option (Addr × WpMode × List ℕ) :=
  if s.dbg.state = .idle ∨ s.dbg.watchpoints.length ≥ wpMaxHw then none
  else
    match watchFlags expr with
    | none => none
    | some (watchRead, explicitSize) =>
      match s.regsRead with
      | none => none
      | some _ => resolved.map fun (addr, valueSize) =>
        (addr, if watchRead then .access else .write,
          if explicitSize ≠ 0 then [explicitSize] else halvings 4 (watchHwSizeFor valueSize))

section Plan

variable {s : Sys} {expr : Option CStr} {resolved : Option (Addr × ℕ)} {Q : Int → Sys → Prop}

/-- Refreshing the registers is one call. -/
theorem wp_cdbgRefreshRegs_iff {Q : Int → Sys → Prop} : wp cdbgRefreshRegs Q s ↔
    match s.regsRead with
    | none => Q (-1) s.tick
    | some r => Q 0 ((s.tick.withProc r.2).withDbg { s.dbg with regs := r.1 }) := by
  rw [cdbgRefreshRegs, wp_bind, wp_get, wp_bind, cdbgRegsGet, kernelRead, wp_kernelCall_iff]
  have hmap : (fun p : Process => ((p.thread s.dbg.currentTid).map (·.regs)).map fun a => (a, p)) =
      fun p => (p.thread s.dbg.currentTid).map fun t => (t.regs, p) := by
    funext p
    rw [Option.map_map]
    rfl
  rw [hmap, Sys.regsRead]
  cases s.answer .regsGet s.dbg.pid fun p =>
      (p.thread s.dbg.currentTid).map fun t => (t.regs, p) with
  | none => rfl
  | some r => rfl

theorem Sys.regsRead_eq_some {r : Regs × Process} (h : s.regsRead = some r) :
    s.process s.dbg.pid = some r.2 := by
  rw [regsRead, answer] at h
  split at h
  · exact absurd h (by simp)
  · obtain ⟨p, hp, h⟩ := Option.bind_eq_some_iff.mp h
    obtain ⟨t, -, rfl⟩ := Option.map_eq_some_iff.mp h
    exact hp

/-- `cmd_watch` behind the checks of its argument, in the state `s` it was given in. -/
def watchInstall (s : Sys) (watchRead : Bool) (explicitSize : ℕ) (resolved : Option (Addr × ℕ)) :
    DbgM Int := do
  if s.dbg.watchpoints.length ≥ wpMaxHw then return -1
  if (← cdbgRefreshRegs) ≠ 0 then return -1
  match resolved with
  | none => return -1
  | some (addr, valueSize) =>
    let mode := if watchRead then WpMode.access else WpMode.write
    let sizes :=
      if explicitSize ≠ 0 then [explicitSize] else halvings 4 (watchHwSizeFor valueSize)
    match ← tryInstall s.dbg.pid s.dbg.watchpoints.length addr mode sizes with
    | none => return -1
    | some hwSize =>
      let old ← cdbgMemRead s.dbg.pid addr hwSize
      setWatchpoints (s.dbg.watchpoints ++
        [{ enabled := true, addr := addr, size := hwSize, mode := mode,
           oldValue := (old.map valueOf).getD 0 }])
      return 0

/-- Without flags or an expression the command returns with nothing done. -/
theorem wp_cmdWatch_refused (hflags : watchFlags expr = none) (h : ∀ rc, Q rc s) :
    wp (cmdWatch expr resolved) Q s := by
  rw [cmdWatch, wp_bind, wp_get, wp_ite]
  refine ⟨fun _ => h _, fun _ => ?_⟩
  rw [watchFlags] at hflags
  cases hexpr : expr.map trimSpace with
  | none => exact h _
  | some text =>
    rw [hexpr] at hflags
    cases text with
    | nil => exact h _
    | cons c cs =>
      dsimp only at hflags ⊢
      cases hparse : parseWatchFlags (c :: cs).length false 0 (c :: cs) with
      | none => exact h _
      | some flags =>
        rw [hparse] at hflags
        dsimp only at hflags ⊢
        rw [wp_ite]
        refine ⟨fun _ => h _, fun hrest => ?_⟩
        rw [if_neg hrest] at hflags
        exact absurd hflags (by simp)

/-- With an expression the command goes on to the installation. -/
theorem wp_cmdWatch_given {watchRead : Bool} {explicitSize : ℕ} (hidle : s.dbg.state ≠ .idle)
    (hflags : watchFlags expr = some (watchRead, explicitSize))
    (h : wp (watchInstall s watchRead explicitSize resolved) Q s) :
    wp (cmdWatch expr resolved) Q s := by
  rw [cmdWatch, wp_bind, wp_get, if_neg hidle]
  rw [watchFlags] at hflags
  cases hexpr : expr.map trimSpace with
  | none =>
    rw [hexpr] at hflags
    cases hflags
  | some text =>
    rw [hexpr] at hflags
    cases text with
    | nil => cases hflags
    | cons c cs =>
      dsimp only at hflags ⊢
      cases hparse : parseWatchFlags (c :: cs).length false 0 (c :: cs) with
      | none =>
        rw [hparse] at hflags
        cases hflags
      | some flags =>
        rw [hparse] at hflags
        dsimp only at hflags ⊢
        rw [wp_ite]
        refine ⟨fun hrest => ?_, fun hrest => ?_⟩
        · rw [if_pos hrest] at hflags
          cases hflags
        · rw [if_neg hrest] at hflags
          obtain ⟨rfl, rfl⟩ := Prod.mk.inj (Option.some.inj hflags)
          exact h

/-- The installation with the sizes in turn, and the value that is read for the new entry. -/
theorem wp_tryAndRecord {p : Process} {addr : Addr} {mode : WpMode} {sizes : List ℕ}
    (hp : s.process s.dbg.pid = some p) (hwf : p.WellFormed)
    (hk : s.dbg.watchpoints.length < wpMaxHw)
    (hfail : installedSize s.os.fault p.tids s.os.calls.count
        (sizes.filter (hwAccepts s.os.arch addr)) = none →
      ∀ s', s'.dbg.watchpoints = s.dbg.watchpoints →
        s'.os.proc = some (p.watchedBy ⟨_, hk⟩ addr mode fun tid => lastReached s.os.fault p.tids
          tid s.os.calls.count (sizes.filter (hwAccepts s.os.arch addr))) → Q (-1) s')
    (hdone : ∀ size n, installedSize s.os.fault p.tids s.os.calls.count
        (sizes.filter (hwAccepts s.os.arch addr)) = some (size, n) →
      ∀ old s', n < s'.os.calls.count →
        (s.Reliable .memRead → old = valueOf (p.mem.read addr size)) →
        s'.dbg.watchpoints = s.dbg.watchpoints ++
          [{ enabled := true, addr := addr, size := size, mode := mode, oldValue := old }] →
        Q 0 s') :
    wp (do
      match ← tryInstall s.dbg.pid s.dbg.watchpoints.length addr mode sizes with
      | none => return (-1 : Int)
      | some hwSize =>
        let old ← cdbgMemRead s.dbg.pid addr hwSize
        setWatchpoints (s.dbg.watchpoints ++
          [{ enabled := true, addr := addr, size := hwSize, mode := mode,
             oldValue := (old.map valueOf).getD 0 }])
        return 0) Q s := by
  rw [wp_bind]
  refine wp_tryInstall_cases hk hp hwf (fun n hn => hfail hn _ rfl rfl) fun size n hn => ?_
  dsimp only
  -- the memory is still the one before the debug registers were written
  have hpid : p.pid = s.dbg.pid := (Sys.process_eq_some.mp hp).2
  rw [wp_bind, cdbgMemRead, kernelRead, wp_kernelCall_iff]
  split
  · next hnone =>
    refine hdone size n hn _ _ (Nat.lt_succ_self n) (fun hok => ?_) rfl
    have hread := hnone.symm.trans
      (Sys.answer_eq (hok n) (Sys.process_eq_some.mpr ⟨rfl, hpid⟩))
    exact absurd hread (by simp)
  · next bytes q hsome =>
    refine hdone size n hn _ _ (Nat.lt_succ_self n) (fun hok => ?_) rfl
    have hread := hsome.symm.trans
      (Sys.answer_eq (hok n) (Sys.process_eq_some.mpr ⟨rfl, hpid⟩))
    rw [(Prod.mk.inj (Option.some.inj hread)).1]
    rfl

/-- `cmd_watch` follows its plan. -/
theorem wp_cmdWatch_plan (hwf : ∀ p, s.process s.dbg.pid = some p → p.WellFormed)
    (hno : watchPlan s expr resolved = none → ∀ rc s', rc = -1 ∨ watchFlags expr = none →
      s'.dbg.watchpoints = s.dbg.watchpoints → s'.os.proc = s.os.proc → Q rc s')
    (hplan : ∀ addr mode sizes p (hk : s.dbg.watchpoints.length < wpMaxHw),
      watchPlan s expr resolved = some (addr, mode, sizes) → s.process s.dbg.pid = some p →
      (installedSize s.os.fault p.tids (s.os.calls.count + 1)
          (sizes.filter (hwAccepts s.os.arch addr)) = none →
        ∀ s', s'.dbg.watchpoints = s.dbg.watchpoints →
          s'.os.proc = some (p.watchedBy ⟨_, hk⟩ addr mode fun tid => lastReached s.os.fault p.tids
            tid (s.os.calls.count + 1) (sizes.filter (hwAccepts s.os.arch addr))) → Q (-1) s') ∧
      ∀ size n, installedSize s.os.fault p.tids (s.os.calls.count + 1)
          (sizes.filter (hwAccepts s.os.arch addr)) = some (size, n) →
        ∀ old s', n < s'.os.calls.count →
          (s.Reliable .memRead → old = valueOf (p.mem.read addr size)) →
          s'.dbg.watchpoints = s.dbg.watchpoints ++
            [{ enabled := true, addr := addr, size := size, mode := mode, oldValue := old }] →
          Q 0 s') : wp (cmdWatch expr resolved) Q s := by
  by_cases hidle : s.dbg.state = .idle
  · rw [cmdWatch, wp_bind, wp_get, if_pos hidle]
    exact hno (if_pos (.inl hidle)) _ _ (.inl rfl) rfl rfl
  cases hflags : watchFlags expr with
  | none =>
    have hnone : watchPlan s expr resolved = none := by
      rw [watchPlan, hflags]
      exact ite_self _
    exact wp_cmdWatch_refused hflags fun rc => hno hnone rc s (.inr hflags) rfl rfl
  | some flags =>
    obtain ⟨watchRead, explicitSize⟩ := flags
    refine wp_cmdWatch_given hidle hflags ?_
    unfold watchInstall
    rw [wp_ite]
    refine ⟨fun hfull => hno (if_pos (.inr hfull)) _ _ (.inl rfl) rfl rfl, fun hfull => ?_⟩
    have hplanned : watchPlan s expr resolved = match s.regsRead with
        | none => none
        | some _ => resolved.map fun (addr, valueSize) =>
          (addr, if watchRead then .access else .write, if explicitSize ≠ 0 then [explicitSize]
            else halvings 4 (watchHwSizeFor valueSize)) := by
      rw [watchPlan, if_neg (not_or.mpr ⟨hidle, hfull⟩), hflags]
    rw [wp_bind, wp_cdbgRefreshRegs_iff]
    cases hregs : s.regsRead with
    | none => exact hno (by rw [hplanned, hregs]) _ _ (.inl rfl) rfl rfl
    | some r =>
      have hp := Sys.regsRead_eq_some hregs
      have hproc := (Sys.process_eq_some.mp hp).1
      dsimp only
      rw [if_neg (not_not.mpr rfl)]
      cases resolved with
      | none => exact hno (by rw [hplanned, hregs]; rfl) _ _ (.inl rfl) rfl hproc.symm
      | some at_ =>
        obtain ⟨addr, valueSize⟩ := at_
        obtain ⟨hfail, hdone⟩ := hplan _ _ _ r.2 (Nat.lt_of_not_ge hfull)
          (by rw [hplanned, hregs]; rfl) hp
        exact wp_tryAndRecord
          (s := (s.tick.withProc r.2).withDbg { s.dbg with regs := r.1 })
          (Sys.process_eq_some.mpr ⟨rfl, (Sys.process_eq_some.mp hp).2⟩) (hwf _ hp)
          (Nat.lt_of_not_ge hfull) hfail hdone

end Plan

/-! ### The size -/

/-- A call that lists threads or writes their debug registers fails, from call `n` up to `m`. -/
def SlotCallFails (fault : KCall → ℕ → Bool) (n m : ℕ) : Prop :=
  ∃ c, n ≤ c ∧ c < m ∧ (fault .taskThreads c = true ∨ fault .debugState c = true)

/-- The size can be watched: it is one of the hardware's, not above the size of the value rounded
up, and accepted at the address. -/
def Watchable (arch : Arch) (addr : Addr) (valueSize size : ℕ) : Prop :=
  size ∈ [8, 4, 2, 1] ∧ size ≤ watchHwSizeFor valueSize ∧ hwAccepts arch addr size = true

section Size

variable {fault : KCall → ℕ → Bool} {tids : List UInt64} {sizes : List ℕ} {n m size : ℕ}

theorem le_behind : n ≤ behind fault n tids := by
  rw [behind]
  split <;> omega

theorem SlotCallFails.mono {n' m' : ℕ} (h : SlotCallFails fault n m) (hn : n' ≤ n) (hm : m ≤ m') :
    SlotCallFails fault n' m' := by
  obtain ⟨c, hnc, hcm, hc⟩ := h
  exact ⟨c, by omega, by omega, hc⟩

/-- An installation that does not reach all threads has a call that fails. -/
theorem fails_of_not_reachesAll (hne : tids ≠ []) (h : ¬ reachesAll fault n tids = true) :
    SlotCallFails fault n (behind fault n tids) := by
  by_cases hlist : fault .taskThreads n = true
  · exact ⟨n, Nat.le_refl n, by rw [behind, if_pos hlist]; omega, .inl hlist⟩
  · rw [reachesAll_eq_true, reached, if_neg hlist, written_eq_iff] at h
    obtain ⟨j, hj⟩ := not_forall.mp fun hall => h ⟨hne, hall⟩
    obtain ⟨hlt, hfault⟩ := Classical.not_imp.mp hj
    refine ⟨n + 1 + j, by omega, ?_, .inr (by simpa using hfault)⟩
    rw [behind, if_neg hlist]
    omega

/-- Without threads nothing is installed. -/
theorem installedSize_of_no_threads : installedSize fault [] n sizes = none := by
  induction sizes generalizing n with
  | nil => rfl
  | cons size sizes ih => exact ih

/-- The installed size is the first one in the list, up to calls that fail. -/
theorem installedSize_eq_some (hdesc : sizes.Pairwise (· > ·))
    (h : installedSize fault tids n sizes = some (size, m)) : n ≤ m ∧ size ∈ sizes ∧
      ∀ larger ∈ sizes, size < larger → SlotCallFails fault n m := by
  induction sizes generalizing n with
  | nil => exact absurd h (by simp [installedSize])
  | cons first rest ih =>
    obtain ⟨hbelow, hrest⟩ := List.pairwise_cons.mp hdesc
    rw [installedSize] at h
    by_cases hall : reachesAll fault n tids = true
    · rw [if_pos hall, Option.some_inj, Prod.mk.injEq] at h
      obtain ⟨rfl, rfl⟩ := h
      refine ⟨le_behind, List.mem_cons_self, fun larger hmem hlt => ?_⟩
      rcases List.mem_cons.mp hmem with rfl | hmem
      · exact absurd hlt (Nat.lt_irrefl _)
      · exact absurd (hbelow larger hmem) (Nat.lt_asymm hlt)
    · rw [if_neg hall] at h
      obtain ⟨hle, hmem, hlarger⟩ := ih hrest h
      have hbehind : n ≤ behind fault n tids := le_behind
      refine ⟨by omega, List.mem_cons_of_mem _ hmem, fun larger hl hlt => ?_⟩
      rcases List.mem_cons.mp hl with rfl | hl
      · have hne : tids ≠ [] := by
          rintro rfl
          rw [installedSize_of_no_threads] at h
          exact absurd h (by simp)
        exact (fails_of_not_reachesAll hne hall).mono (Nat.le_refl n) hle
      · exact (hlarger larger hl hlt).mono hbehind (Nat.le_refl m)

/-- The sizes `cmd_watch` tries without a flag. -/
theorem halvings_rounded (valueSize : ℕ) : halvings 4 (watchHwSizeFor valueSize) =
    [8, 4, 2, 1].filter (· ≤ watchHwSizeFor valueSize) := by
  rw [watchHwSizeFor]
  split
  · rfl
  split
  · rfl
  split
  · rfl
  split
  · rfl
  · rfl

theorem rounded_le {valueSize : ℕ} (h : valueSize ∈ [1, 2, 4] ∨ 8 ≤ valueSize) :
    watchHwSizeFor valueSize ≤ valueSize := by
  rw [watchHwSizeFor]
  simp only [List.mem_cons, List.not_mem_nil, or_false] at h
  repeat' split
  all_goals omega

end Size

/-- Without a size flag the watched size is the largest one that can be watched, up to calls that
fail; the watched bytes are within a value whose size is not rounded up. -/
theorem watch_size_greatest {s s' : Sys} {expr : Option CStr} {addr : Addr} {valueSize : ℕ}
    {watchRead : Bool} (hwf : ∀ p, s.process s.dbg.pid = some p → p.WellFormed)
    (hflags : watchFlags expr = some (watchRead, 0))
    (hrun : (cmdWatch expr (some (addr, valueSize))).run s = (0, s')) :
    ∃ watch, s'.dbg.watchpoints = s.dbg.watchpoints ++ [watch] ∧ watch.addr = addr ∧
      Watchable s.os.arch addr valueSize watch.size ∧
      (∀ size, Watchable s.os.arch addr valueSize size → watch.size < size →
        SlotCallFails s.os.fault s.os.calls.count s'.os.calls.count) ∧
      (valueSize ∈ [1, 2, 4] ∨ 8 ≤ valueSize →
        Set.Ico addr.toNat (addr.toNat + watch.size) ⊆
          Set.Ico addr.toNat (addr.toNat + valueSize)) := by
  have hplan : wp (cmdWatch expr (some (addr, valueSize))) (fun rc s' => rc = 0 →
      ∃ watch, s'.dbg.watchpoints = s.dbg.watchpoints ++ [watch] ∧ watch.addr = addr ∧
        Watchable s.os.arch addr valueSize watch.size ∧
        ∀ size, Watchable s.os.arch addr valueSize size → watch.size < size →
          SlotCallFails s.os.fault s.os.calls.count s'.os.calls.count) s := by
    refine wp_cmdWatch_plan hwf (fun _ rc s' hrc _ _ h0 => ?_)
      fun addr' mode sizes p hk hplan hp => ⟨fun _ _ _ _ h0 => absurd h0 neg_one_ne, ?_⟩
    · rcases hrc with rfl | hnone
      · exact absurd h0 neg_one_ne
      · rw [hflags] at hnone
        exact absurd hnone (by simp)
    · intro size n hn old s' hcalls _ hwps _
      rw [watchPlan] at hplan
      split at hplan
      · exact absurd hplan (by simp)
      rw [hflags] at hplan
      dsimp only at hplan
      split at hplan
      · exact absurd hplan (by simp)
      rw [Option.map_some, Option.some_inj, Prod.mk.injEq, Prod.mk.injEq] at hplan
      obtain ⟨rfl, -, rfl⟩ := hplan
      rw [if_neg (not_not.mpr rfl), halvings_rounded] at hn
      have hmem : ∀ size, size ∈ ([8, 4, 2, 1].filter (· ≤ watchHwSizeFor valueSize)).filter
          (hwAccepts s.os.arch addr) ↔ Watchable s.os.arch addr valueSize size := fun size => by
        rw [List.mem_filter, List.mem_filter, decide_eq_true_eq, and_assoc, Watchable]
      obtain ⟨hle, hsize, hlarger⟩ := installedSize_eq_some
        (((by decide : [8, 4, 2, 1].Pairwise (· > ·)).filter _).filter _) hn
      refine ⟨_, hwps, rfl, (hmem size).mp hsize, fun larger hl hlt => ?_⟩
      exact (hlarger larger ((hmem larger).mpr hl) hlt).mono (by omega) (by omega)
  rw [wp_of_run hrun] at hplan
  obtain ⟨watch, hwps, haddr, hwatch, hlarger⟩ := hplan rfl
  refine ⟨watch, hwps, haddr, hwatch, hlarger, fun hvalue => ?_⟩
  have hle : watch.size ≤ valueSize := Nat.le_trans hwatch.2.1 (rounded_le hvalue)
  exact Set.Ico_subset_Ico_right (by omega)

/-- A value of 8 bytes at an address that is a multiple of 4 is watched on its first 4 bytes. -/
theorem watch_size_greatest_four :
    let s := Sys.attached .x86_64 twoThreads fun _ => .exited 0
    let s' := ((cmdWatch (some "v".toList) (some (0x3004, 8))).run s).2
    ∃ watch, s'.dbg.watchpoints = s.dbg.watchpoints ++ [watch] ∧ watch.addr = 0x3004 ∧
      Watchable s.os.arch 0x3004 8 watch.size ∧
      (∀ size, Watchable s.os.arch 0x3004 8 size → watch.size < size →
        SlotCallFails s.os.fault s.os.calls.count s'.os.calls.count) ∧
      (8 ∈ [1, 2, 4] ∨ 8 ≤ 8 → Set.Ico (0x3004 : Addr).toNat ((0x3004 : Addr).toNat + watch.size) ⊆
        Set.Ico (0x3004 : Addr).toNat ((0x3004 : Addr).toNat + 8)) :=
  watch_size_greatest (fun p hp => by
    obtain rfl := Option.some.inj hp
    exact twoThreads_wellFormed)
    (by decide : watchFlags (some "v".toList) = some (false, 0)) (run_of_code (by decide))

/-- A value of 3 bytes is watched on 4 bytes. -/
theorem watch_size_three :
    ¬ ∀ (s s' : Sys) (expr : Option CStr) (addr : Addr) (valueSize : ℕ) (watchRead : Bool),
      (∀ p, s.process s.dbg.pid = some p → p.WellFormed) → 1 ≤ valueSize →
      watchFlags expr = some (watchRead, 0) →
      (cmdWatch expr (some (addr, valueSize))).run s = (0, s') →
      ∃ watch, s'.dbg.watchpoints = s.dbg.watchpoints ++ [watch] ∧ watch.addr = addr ∧
        Set.Ico addr.toNat (addr.toNat + watch.size) ⊆
          Set.Ico addr.toNat (addr.toNat + valueSize) ∧
        IsGreatest {size | size ∈ [8, 4, 2, 1] ∧ size ≤ valueSize ∧
          hwAccepts s.os.arch addr size = true} watch.size := by
  intro h
  have hwf : ∀ p, (Sys.attached .x86_64 twoThreads fun _ => .exited 0).process 100 = some p →
      p.WellFormed := fun p hp => by
    obtain rfl := Option.some.inj hp
    exact twoThreads_wellFormed
  obtain ⟨watch, hwps, -, -, ⟨-, hle, -⟩, -⟩ := h _ _ (some "v".toList) 0x3000 3 false hwf
    (by decide) (by decide) (run_of_code (by decide))
  have hsize : [4] = [watch].map Watchpoint.size := congrArg (List.map Watchpoint.size) hwps
  rw [List.map_singleton, List.singleton_inj] at hsize
  rw [← hsize] at hle
  exact absurd hle (by decide)

end Debugger
