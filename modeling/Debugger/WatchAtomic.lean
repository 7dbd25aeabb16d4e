/-
What a `watch` or `unwatch` that fails leaves behind.

`for_each_thread` goes on after a failure and nothing is taken back: `cmd_watch` leaves the
registers it has written, `delete_watchpoint_at` also the entries it has moved.  So a failing
command leaves everything as it was exactly when what it has written was there before
(`watch_unwatch_atomic_iff`).
-/
import Debugger.WatchSize
import Debugger.NamedEntries

open Prog

namespace Debugger

/-- The contents of the debug registers of every thread. -/
def Sys.slotContents (s : Sys) : Option (List (Fin wpMaxHw → Option HwSlot)) :=
  s.os.proc.map fun p => p.threads.map (·.dr)

/-- When the command fails, the table and the debug registers are as before. -/
def Sys.Atomic (s : Sys) (m : DbgM Int) : Prop :=
  wp m (fun rc s' => rc = -1 →
    s'.dbg.watchpoints = s.dbg.watchpoints ∧ s'.slotContents = s.slotContents) s

/-- A `watch` that cannot install any size: the last size that reaches a thread is what its
register held before. -/
def WatchUndone (s : Sys) (expr : Option CStr) (resolved : Option (Addr × ℕ)) : Prop :=
  ∀ addr mode sizes p, watchPlan s expr resolved = some (addr, mode, sizes) →
    s.process s.dbg.pid = some p →
    installedSize s.os.fault p.tids (s.os.calls.count + 1) (sizes.filter (hwAccepts s.os.arch addr)) =
      none →
    ∀ t ∈ p.threads, ∀ size, lastReached s.os.fault p.tids t.tid (s.os.calls.count + 1)
        (sizes.filter (hwAccepts s.os.arch addr)) = some size →
      ∀ h : s.dbg.watchpoints.length < wpMaxHw,
        t.dr ⟨_, h⟩ = some { addr := addr, size := size, mode := mode }

/-- The first of the entries that cannot be installed again, from call `n` on, and the call. -/
def reinstallFails (fault : KCall → ℕ → Bool) (arch : Arch) (tids : List UInt64) :
    ℕ → List Watchpoint → Option (ℕ × ℕ)
  | _, [] => none
  | n, watch :: rest =>
    if hwAccepts arch watch.addr watch.size && reachesAll fault n tids then
      (reinstallFails fault arch tids (behind fault n tids) rest).map fun (j, c) => (j + 1, c)
    else some (0, n)

/-- An `unwatch` of entry `k` that fails: if it fails to clear the register, it reaches only
threads on which the register was empty.  If entry `i` cannot be installed again, with call `c`,
then the entries from `k` to `i` are the same, the registers before `i - 1` held that entry, and
so did register `i - 1` if it was reached; otherwise it was empty if it is the one cleared. -/
def UnwatchUndone (s : Sys) (k : ℕ) : Prop :=
  ∀ p, k < s.dbg.watchpoints.length → s.dbg.live = true → s.process s.dbg.pid = some p →
    if reachesAll s.os.fault s.os.calls.count p.tids then
      ∀ j c, reinstallFails s.os.fault s.os.arch p.tids (behind s.os.fault s.os.calls.count p.tids)
          (s.dbg.watchpoints.drop (k + 1)) = some (j, c) →
        ∃ watch, (∀ l, k ≤ l → l ≤ k + 1 + j → s.dbg.watchpoints[l]? = some watch) ∧
          ∀ t ∈ p.threads, ∀ l : Fin wpMaxHw,
            (k ≤ l → l < k + j → t.dr l = some watch.slot) ∧
            (l = k + j →
              if hwAccepts s.os.arch watch.addr watch.size = true ∧
                  t.tid ∈ reached s.os.fault c p.tids then t.dr l = some watch.slot
              else j = 0 → t.dr l = none)
    else ∀ t ∈ p.threads, t.tid ∈ reached s.os.fault s.os.calls.count p.tids →
      ∀ h : k < wpMaxHw, t.dr ⟨k, h⟩ = none

/-! ### watch -/

section Watch

variable {s : Sys} {p : Process}

/-- The registers of a process that a change leaves as they were. -/
theorem slotContents_eq_iff {s' : Sys} {f : Thread → Thread} (hp : s.os.proc = some p)
    (hp' : s'.os.proc = some (p.eachThread f)) :
    s'.slotContents = s.slotContents ↔ ∀ t ∈ p.threads, (f t).dr = t.dr := by
  rw [Sys.slotContents, Sys.slotContents, hp, hp', Option.map_some, Option.map_some,
    Option.some_inj, Process.eachThread, List.map_map, List.map_inj_left]
  rfl

/-- A `watch` that fails. -/
theorem cmdWatch_atomic_iff (hwf : ∀ p, s.process s.dbg.pid = some p → p.WellFormed)
    (expr : Option CStr) (resolved : Option (Addr × ℕ)) :
    s.Atomic (cmdWatch expr resolved) ↔ WatchUndone s expr resolved := by
  have hrun : wp (cmdWatch expr resolved) (fun rc s' => (rc = -1 →
      s'.dbg.watchpoints = s.dbg.watchpoints ∧ s'.slotContents = s.slotContents) ↔
        WatchUndone s expr resolved) s := by
    refine wp_cmdWatch_plan hwf (fun hnone rc s' _ hwps hproc => ?_)
      fun addr mode sizes p hk hplan hp =>
        ⟨fun hn s' hwps hproc => ?_, fun size n hn old s' _ _ _ => ?_⟩
    · refine iff_of_true (fun _ => ⟨hwps, ?_⟩) fun _ _ _ _ hplan => ?_
      · rw [Sys.slotContents, hproc, Sys.slotContents]
      · rw [hnone] at hplan
        exact absurd hplan (by simp)
    · rw [hwps, slotContents_eq_iff (Sys.process_eq_some.mp hp).1 hproc]
      simp only [true_and, forall_const]
      constructor
      · intro h addr' mode' sizes' p' hplan' hp' _ t ht size hsize hk'
        obtain rfl := Option.some.inj (hp.symm.trans hp')
        rw [hplan, Option.some_inj, Prod.mk.injEq, Prod.mk.injEq] at hplan'
        obtain ⟨rfl, rfl, rfl⟩ := hplan'
        have hdr := h t ht
        rw [hsize] at hdr
        exact (Function.update_eq_self_iff.mp hdr).symm
      · intro h t ht
        cases hsize : lastReached s.os.fault p.tids t.tid (s.os.calls.count + 1)
            (sizes.filter (hwAccepts s.os.arch addr)) with
        | none => rfl
        | some size =>
          exact Function.update_eq_self_iff.mpr (h _ _ _ p hplan hp hn t ht size hsize hk).symm
    · refine iff_of_true (fun h => absurd h (by decide))
        fun addr' mode' sizes' p' hplan' hp' hnone => ?_
      obtain rfl := Option.some.inj (hp.symm.trans hp')
      rw [hplan, Option.some_inj, Prod.mk.injEq, Prod.mk.injEq] at hplan'
      obtain ⟨rfl, rfl, rfl⟩ := hplan'
      rw [hn] at hnone
      exact absurd hnone (by simp)
  exact hrun

end Watch

/-! ### unwatch -/

section Unwatch

variable {s : Sys} {p : Process} {k i : ℕ} {wps : List Watchpoint}

theorem shiftedTo_getElem? (hki : k < i) (hi : i ≤ wps.length) (l : ℕ) :
    (shiftedTo k i wps)[l]? = if k ≤ l ∧ l + 1 < i then wps[l + 1]? else wps[l]? := by
  have hlen : ((wps.eraseIdx k).take (i - 1)).length = i - 1 := by
    rw [List.length_take, List.length_eraseIdx_of_lt (by omega)]
    omega
  rw [shiftedTo]
  by_cases hl : l < i - 1
  · rw [List.getElem?_append_left (by omega), List.getElem?_take_of_lt hl, List.getElem?_eraseIdx]
    by_cases hkl : k ≤ l
    · rw [if_neg (by omega), if_pos ⟨hkl, by omega⟩]
    · rw [if_pos (by omega), if_neg (by omega)]
  · rw [List.getElem?_append_right (by omega), hlen, List.getElem?_drop, if_neg (by omega),
      show i - 1 + (l - (i - 1)) = l by omega]

/-- Moving entries leaves the table as it was when they are the same. -/
theorem shiftedTo_eq_iff {j : ℕ} (hj : k + 1 + j < wps.length) :
    shiftedTo k (k + 1 + j + 1) wps = wps ↔
      ∃ watch, ∀ l, k ≤ l → l ≤ k + 1 + j → wps[l]? = some watch := by
  constructor
  · intro h
    refine ⟨wps[k], fun l hkl hl => ?_⟩
    obtain ⟨d, rfl⟩ := Nat.exists_eq_add_of_le hkl
    induction d with
    | zero => exact List.getElem?_eq_getElem (by omega)
    | succ d ih =>
      rw [← ih (by omega) (by omega)]
      have hget := congrArg (·[k + d]?) h
      rw [shiftedTo_getElem? (by omega) (by omega), if_pos (by omega)] at hget
      exact hget
  · rintro ⟨watch, h⟩
    refine List.ext_getElem? fun l => ?_
    rw [shiftedTo_getElem? (by omega) (by omega)]
    split
    · next hl => rw [h l hl.1 (by omega), h (l + 1) (by omega) (by omega)]
    · rfl

/-- The registers of a thread before entry `i` is installed again. -/
def movedSlots (wps : List Watchpoint) (k i : ℕ) (dr : Fin wpMaxHw → Option HwSlot) :
    Fin wpMaxHw → Option HwSlot := fun l =>
  if k ≤ l ∧ l + 1 < i then wps[l.val + 1]?.map Watchpoint.slot
  else if l = k then none else dr l

/-- The process before entry `i` is installed again. -/
def Process.moved (p : Process) (wps : List Watchpoint) (k i : ℕ) : Process :=
  p.eachThread fun t => { t with dr := movedSlots wps k i t.dr }

theorem Process.moved_tids : (p.moved wps k i).tids = p.tids := by
  rw [Process.tids, Process.tids, moved, eachThread, List.map_map]
  rfl

/-- Clearing the register is the first step. -/
theorem Process.setSlotOf_clear (hk : k < wpMaxHw) :
    p.setSlotOf ⟨k, hk⟩ none p.tids = p.moved wps k (k + 1) := by
  rw [setSlotOf, moved, eachThread, eachThread]
  congr 1
  refine List.map_congr_left fun t ht => ?_
  have htid : t.tid ∈ p.tids := List.mem_map_of_mem ht
  rw [if_pos htid]
  congr 1
  funext l
  rw [movedSlots, if_neg (by omega), Function.update_apply]
  simp only [Fin.ext_iff]

/-- Installing one more entry. -/
theorem Process.setSlotOf_moved {hi : i - 1 < wpMaxHw} {watch : Watchpoint} (hki : k < i)
    (hw : wps[i]? = some watch) :
    (p.moved wps k i).setSlotOf ⟨i - 1, hi⟩ (some watch.slot) p.tids = p.moved wps k (i + 1) := by
  rw [setSlotOf, moved, moved, eachThread, eachThread, eachThread, List.map_map]
  congr 1
  refine List.map_congr_left fun t ht => ?_
  have htid : t.tid ∈ p.tids := List.mem_map_of_mem ht
  rw [Function.comp_apply, if_pos htid]
  congr 1
  funext l
  rw [Function.update_apply]
  change (if l = ⟨i - 1, hi⟩ then some watch.slot else movedSlots wps k i t.dr l) = _
  rw [movedSlots, movedSlots]
  by_cases hl : l.val = i - 1
  · rw [if_pos (Fin.ext hl), if_pos (by omega), hl, show i - 1 + 1 = i by omega, hw]
    rfl
  · rw [if_neg (fun h => hl (congrArg Fin.val h))]
    by_cases hmoved : k ≤ l.val ∧ l.val + 1 < i
    · rw [if_pos hmoved, if_pos (by omega)]
    · rw [if_neg hmoved, if_neg (show ¬ (k ≤ l.val ∧ l.val + 1 < i + 1) by omega)]

/-- One round of the loop in `delete_watchpoint_at`. -/
theorem wp_shiftWatchpoint_cases {Q : Int → Sys → Prop} {watch : Watchpoint}
    (hk : i - 1 < wpMaxHw) (hlive : s.dbg.live = true) (hp : s.process s.dbg.pid = some p)
    (hwf : p.WellFormed) (hget : s.dbg.watchpoints.getD i {} = watch)
    (hok : hwAccepts s.os.arch watch.addr watch.size = true →
      reachesAll s.os.fault s.os.calls.count p.tids = true →
      Q 0 ((s.withDbg { s.dbg with watchpoints := s.dbg.watchpoints.set (i - 1) watch }).later
        (p.setSlotOf ⟨i - 1, hk⟩ (some watch.slot) p.tids)
        (behind s.os.fault s.os.calls.count p.tids)))
    (hfail : (hwAccepts s.os.arch watch.addr watch.size &&
        reachesAll s.os.fault s.os.calls.count p.tids) = false → ∀ n,
      Q (-1) ((s.withDbg { s.dbg with watchpoints := s.dbg.watchpoints.set (i - 1) watch }).later
        (p.setSlotOf ⟨i - 1, hk⟩ (some watch.slot) (if hwAccepts s.os.arch watch.addr watch.size
          then reached s.os.fault s.os.calls.count p.tids else [])) n)) :
    wp (shiftWatchpoint i) Q s := by
  have hproc := (Sys.process_eq_some.mp hp).1
  rw [shiftWatchpoint, wp_bind, wp_get, hget]
  dsimp only
  rw [wp_bind, wp_setWatchpoints, wp_ite]
  refine ⟨fun _ => ?_, fun hdead => absurd hlive hdead⟩
  obtain ⟨s₁, hs₁, hos⟩ : ∃ s₁ : Sys, s.withDbg { s.dbg with
      watchpoints := s.dbg.watchpoints.set (i - 1) watch } = s₁ ∧ s₁.os = s.os := ⟨_, rfl, rfl⟩
  have hp₁ : s₁.process s.dbg.pid = some p := by
    rw [Sys.process, hos]
    exact hp
  have hstay : s₁.later p s₁.os.calls.count = s₁ := by rw [Sys.later, ← hproc, ← hos]
  rw [hs₁] at hok hfail ⊢
  rw [wp_bind, wp_cdbgWpHwInstall_iff hp₁ hwf hk, hos]
  change if hwAccepts s.os.arch watch.addr watch.size = true then
    wp (if (if reachesAll s.os.fault s.os.calls.count p.tids then (0 : Int) else -1) ≠ 0 then _ else _) Q
      (s₁.later (p.setSlotOf ⟨i - 1, hk⟩ (some watch.slot) _) _) else _
  cases hacc : hwAccepts s.os.arch watch.addr watch.size with
  | false =>
    have h := hfail (by rw [hacc]; rfl) s₁.os.calls.count
    rw [hacc, if_neg Bool.false_ne_true, Process.setSlotOf_nil, hstay] at h
    exact h
  | true =>
    rw [if_pos rfl]
    cases hall : reachesAll s.os.fault s.os.calls.count p.tids with
    | false =>
      have h := hfail (by rw [hacc, hall]; rfl) (behind s.os.fault s.os.calls.count p.tids)
      rw [hacc, if_pos rfl] at h
      exact h
    | true =>
      rw [(reachesAll_eq_true.mp hall).2]
      exact hok hacc hall

/-- The loop of `delete_watchpoint_at`, up to the entry that cannot be installed again. -/
theorem wp_reinstall {Q : Int → Sys → Prop} (hlen : wps.length ≤ wpMaxHw) :
    ∀ {i : ℕ} {s : Sys}, k < i → i ≤ wps.length → s.dbg.live = true →
    s.dbg.watchpoints = shiftedTo k i wps → s.process s.dbg.pid = some (p.moved wps k i) →
    (p.moved wps k i).WellFormed →
    (∀ s', reinstallFails s.os.fault s.os.arch p.tids s.os.calls.count (wps.drop i) = none → Q 0 s') →
    (∀ j c e watch s' (he : e - 1 < wpMaxHw), e = i + j → wps[e]? = some watch →
      reinstallFails s.os.fault s.os.arch p.tids s.os.calls.count (wps.drop i) = some (j, c) →
      s'.dbg.watchpoints = shiftedTo k (e + 1) wps →
      s'.os.proc = some ((p.moved wps k e).setSlotOf ⟨e - 1, he⟩ (some watch.slot)
        (if hwAccepts s.os.arch watch.addr watch.size then reached s.os.fault c p.tids else [])) →
      Q (-1) s') →
    wp (forUntil shiftWatchpoint (List.range' i (wps.length - i))) Q s := by
  intro i s hki hi hlive hwps hp hwf hdone hfail
  obtain ⟨n, hn⟩ : ∃ n, wps.length - i = n := ⟨_, rfl⟩
  rw [hn]
  induction n generalizing i s with
  | zero =>
    have hdrop : wps.drop i = [] := List.drop_of_length_le (by omega)
    rw [hdrop] at hdone
    exact hdone s rfl
  | succ n ih =>
    have hlt : i < wps.length := by omega
    have hk : i - 1 < wpMaxHw := by omega
    have hget : s.dbg.watchpoints.getD i {} = wps[i] := by
      rw [hwps, List.getD_eq_getElem?_getD, shiftedTo_getElem? hki hi, if_neg (by omega),
        List.getElem?_eq_getElem hlt]
      rfl
    have hset : s.dbg.watchpoints.set (i - 1) wps[i] = shiftedTo k (i + 1) wps := by
      rw [← shiftedTo_succ hki hlt, ← hwps, hget]
    have hsome : wps[i]? = some wps[i] := List.getElem?_eq_getElem hlt
    have hpid := (Sys.process_eq_some.mp hp).2
    rw [List.drop_eq_getElem_cons hlt, reinstallFails] at hdone
    rw [List.drop_eq_getElem_cons hlt, reinstallFails] at hfail
    rw [List.range'_succ, forUntil, wp_bind]
    refine wp_shiftWatchpoint_cases hk hlive hp hwf hget (fun hacc hall => ?_) fun hbad m => ?_
    · rw [Process.moved_tids] at hall
      rw [if_pos (by rw [hacc, hall]; rfl)] at hdone hfail
      rw [if_neg (not_not.mpr rfl), Process.moved_tids, Process.setSlotOf_moved hki hsome, hset]
      have hwf' : (p.moved wps k (i + 1)).WellFormed := by
        have hmoved : (p.moved wps k i).setSlotOf ⟨i - 1, hk⟩ (some wps[i].slot) p.tids =
            p.moved wps k (i + 1) := Process.setSlotOf_moved hki hsome
        rw [← hmoved]
        exact hwf.setSlotOf
      refine ih (s := (s.withDbg { s.dbg with watchpoints := shiftedTo k (i + 1) wps }).later
        (p.moved wps k (i + 1)) _) (by omega) (by omega) hlive rfl
        (Sys.process_eq_some.mpr ⟨rfl, hpid⟩) hwf' (fun s' hnone => hdone s' ?_)
        (fun j c e watch s' he hej hw hsome' => ?_) (by omega)
      · change reinstallFails s.os.fault s.os.arch p.tids (behind s.os.fault s.os.calls.count p.tids)
          (wps.drop (i + 1)) = none at hnone
        rw [hnone]
        rfl
      · refine hfail (j + 1) c e watch s' he (by omega) hw ?_
        change reinstallFails s.os.fault s.os.arch p.tids (behind s.os.fault s.os.calls.count p.tids)
          (wps.drop (i + 1)) = some (j, c) at hsome'
        rw [hsome']
        rfl
    · rw [Process.moved_tids] at hbad
      rw [if_neg (by rw [hbad]; exact Bool.false_ne_true)] at hfail
      rw [if_pos neg_one_ne, Process.moved_tids, hset]
      exact hfail 0 s.os.calls.count i wps[i] _ hk rfl hsome rfl rfl rfl

/-- Moving entries and installing the last of them on some threads leaves the registers of a
thread as they were. -/
theorem movedSlots_update_eq_iff {t : Thread} {watch : Watchpoint} {j : ℕ} {again : Prop}
    [Decidable again] (hl : k + 1 + j - 1 < wpMaxHw)
    (hsame : ∀ l, k ≤ l → l ≤ k + 1 + j → wps[l]? = some watch) :
    (if again then Function.update (movedSlots wps k (k + 1 + j) t.dr) ⟨k + 1 + j - 1, hl⟩
        (some watch.slot) else movedSlots wps k (k + 1 + j) t.dr) = t.dr ↔
      ∀ l : Fin wpMaxHw, (k ≤ l → l < k + j → t.dr l = some watch.slot) ∧
        (l = k + j → if again then t.dr l = some watch.slot else j = 0 → t.dr l = none) := by
  have hmoved (l : Fin wpMaxHw) : movedSlots wps k (k + 1 + j) t.dr l =
      if k ≤ l.val ∧ l.val < k + j then some watch.slot
      else if l.val = k then none else t.dr l := by
    rw [movedSlots]
    by_cases hl : k ≤ l.val ∧ l.val < k + j
    · rw [if_pos hl, if_pos (show k ≤ l.val ∧ l.val + 1 < k + 1 + j by omega),
        hsame (l.val + 1) (by omega) (by omega)]
      rfl
    · rw [if_neg hl, if_neg (show ¬ (k ≤ l.val ∧ l.val + 1 < k + 1 + j) by omega)]
  have hlast (l : Fin wpMaxHw) : l = ⟨k + 1 + j - 1, hl⟩ ↔ l.val = k + j := by
    rw [Fin.ext_iff]
    change l.val = k + 1 + j - 1 ↔ _
    omega
  rw [funext_iff]
  refine forall_congr' fun l => ?_
  by_cases hag : again
  · rw [if_pos hag, Function.update_apply, hmoved, if_pos hag]
    simp only [hlast]
    grind
  · rw [if_neg hag, hmoved, if_neg hag]
    grind

/-- The process once entry `i` has been installed again on some threads. -/
theorem Process.setSlotOf_moved_some {slot : Option HwSlot} {l : Fin wpMaxHw}
    {tids : List UInt64} : (p.moved wps k i).setSlotOf l slot tids =
      p.eachThread fun t => { t with
        dr := if t.tid ∈ tids then Function.update (movedSlots wps k i t.dr) l slot
          else movedSlots wps k i t.dr } := by
  rw [setSlotOf, moved, eachThread, eachThread, eachThread, List.map_map]
  congr 1
  refine List.map_congr_left fun t _ => ?_
  rw [Function.comp_apply]
  split <;> rfl

/-- A deletion, by where it fails: at the number, in clearing the register, or in installing entry
`k + 1 + j` again. -/
theorem wp_deleteWatchpointAt_cases {Q : Int → Sys → Prop}
    (hwf : ∀ p, s.process s.dbg.pid = some p → p.WellFormed)
    (hlen : s.dbg.watchpoints.length ≤ wpMaxHw)
    (hdone : ∀ s', (∀ p, s.dbg.live = true → s.process s.dbg.pid = some p →
      reachesAll s.os.fault s.os.calls.count p.tids = true ∧
        reinstallFails s.os.fault s.os.arch p.tids (behind s.os.fault s.os.calls.count p.tids)
          (s.dbg.watchpoints.drop (k + 1)) = none) → Q 0 s')
    (hno : s.dbg.watchpoints.length ≤ k ∨ s.process s.dbg.pid = none →
      ∀ s', s'.dbg = s.dbg → s'.os.proc = s.os.proc → Q (-1) s')
    (hclear : ∀ p (hk : k < wpMaxHw), k < s.dbg.watchpoints.length → s.dbg.live = true →
      s.process s.dbg.pid = some p →
      ¬ reachesAll s.os.fault s.os.calls.count p.tids = true → ∀ n,
      Q (-1) (s.later (p.setSlotOf ⟨k, hk⟩ none (reached s.os.fault s.os.calls.count p.tids)) n))
    (hmoved : ∀ p j c watch s' (he : k + 1 + j - 1 < wpMaxHw), k < s.dbg.watchpoints.length →
      s.dbg.live = true → s.process s.dbg.pid = some p →
      reachesAll s.os.fault s.os.calls.count p.tids = true →
      reinstallFails s.os.fault s.os.arch p.tids (behind s.os.fault s.os.calls.count p.tids)
        (s.dbg.watchpoints.drop (k + 1)) = some (j, c) →
      s.dbg.watchpoints[k + 1 + j]? = some watch →
      s'.dbg.watchpoints = shiftedTo k (k + 1 + j + 1) s.dbg.watchpoints →
      s'.os.proc = some ((p.moved s.dbg.watchpoints k (k + 1 + j)).setSlotOf ⟨k + 1 + j - 1, he⟩
        (some watch.slot) (if hwAccepts s.os.arch watch.addr watch.size then
          reached s.os.fault c p.tids else [])) →
      Q (-1) s') : wp (deleteWatchpointAt k) Q s := by
  by_cases hk : k < s.dbg.watchpoints.length
  swap
  · rw [deleteWatchpointAt, wp_bind, wp_get, wp_ite]
    exact ⟨fun hge => hno (.inl hge) s rfl rfl, fun hlt => absurd (Nat.lt_of_not_ge hlt) hk⟩
  by_cases hlive : s.dbg.live = true
  swap
  · refine wp_mono (wp_deleteWatchpointAt_succeeds hk hlen fun h => absurd h hlive)
      fun rc s' h => ?_
    rw [h.1]
    exact hdone s' fun p h => absurd h hlive
  rw [deleteWatchpointAt, wp_bind, wp_get, wp_ite]
  refine ⟨fun hge => absurd hk (Nat.not_lt.mpr hge), fun _ => ?_⟩
  rw [wp_bind, uninstallIfLive, if_pos hlive]
  cases hp : s.process s.dbg.pid with
  | none =>
    rw [cdbgWpHwUninstall, dif_pos (by omega)]
    refine wp_mono (wp_forEachThread_none hp) fun rc s' h => ?_
    obtain ⟨hrc, hs'⟩ := h
    rw [hrc, hs', if_pos neg_one_ne]
    exact hno (.inr hp) s.tick rfl rfl
  | some p =>
    have hpid := (Sys.process_eq_some.mp hp).2
    rw [wp_cdbgWpHwUninstall_iff hp (hwf p hp) (by omega)]
    by_cases hall : reachesAll s.os.fault s.os.calls.count p.tids = true
    · have hslot : k < wpMaxHw := by omega
      have hclear : p.setSlotOf ⟨k, hslot⟩ none p.tids = p.moved s.dbg.watchpoints k (k + 1) :=
        Process.setSlotOf_clear hslot
      rw [if_pos hall, if_neg (not_not.mpr rfl), (reachesAll_eq_true.mp hall).2, hclear]
      have hmoved' : (p.moved s.dbg.watchpoints k (k + 1)).WellFormed := by
        rw [← hclear]
        exact (hwf p hp).setSlotOf
      rw [wp_bind]
      refine wp_reinstall (s := s.later _ (behind s.os.fault s.os.calls.count p.tids)) hlen
        (Nat.lt_succ_self k) hk hlive (shiftedTo_first hk).symm
        (Sys.process_eq_some.mpr ⟨rfl, hpid⟩) hmoved' (fun s' hnone => ?_)
        fun j c e watch s' he hej hw hsome hwps' hproc' => ?_
      · rw [if_neg (not_not.mpr rfl), wp_bind, wp_get, wp_bind, wp_setWatchpoints, wp_pure]
        refine hdone _ fun p' _ hp' => ?_
        obtain rfl := Option.some.inj (hp.symm.trans hp')
        exact ⟨hall, hnone⟩
      · rw [if_pos neg_one_ne]
        subst hej
        exact hmoved p j c watch s' he hk hlive hp hall hsome hw hwps' hproc'
    · rw [if_neg hall, if_pos neg_one_ne]
      exact hclear p (by omega) hk hlive hp hall _

/-- An `unwatch` that fails. -/
theorem deleteWatchpointAt_atomic_iff
    (hwf : ∀ p, s.process s.dbg.pid = some p → p.WellFormed)
    (hlen : s.dbg.watchpoints.length ≤ wpMaxHw) (k : ℕ) :
    s.Atomic (deleteWatchpointAt k) ↔ UnwatchUndone s k := by
  have hrun : wp (deleteWatchpointAt k) (fun rc s' => (rc = -1 →
      s'.dbg.watchpoints = s.dbg.watchpoints ∧ s'.slotContents = s.slotContents) ↔
        UnwatchUndone s k) s := by
    have hundone (p : Process) (hk : k < s.dbg.watchpoints.length) (hlive : s.dbg.live = true)
        (hp : s.process s.dbg.pid = some p) : UnwatchUndone s k ↔ _ :=
      ⟨fun h => h p hk hlive hp, fun h p' _ _ hp' => by
        obtain rfl := Option.some.inj (hp.symm.trans hp')
        exact h⟩
    refine wp_deleteWatchpointAt_cases hwf hlen (fun s' h => ?_) (fun hno s' hdbg hproc => ?_)
      (fun p _ hk hlive hp hall n => ?_)
      fun p j c watch s' he hk hlive hp hall hsome hw hwps' hproc' => ?_
    · refine iff_of_true (fun h => absurd h (by decide)) fun p _ hlive hp => ?_
      rw [if_pos (h p hlive hp).1, (h p hlive hp).2]
      exact fun _ _ hsome => absurd hsome (by simp)
    · refine iff_of_true (fun _ => ⟨by rw [hdbg], by rw [Sys.slotContents, hproc]; rfl⟩)
        fun p hk _ hp => ?_
      rcases hno with hge | hnone
      · exact absurd hk (Nat.not_lt.mpr hge)
      · exact absurd (hnone.symm.trans hp) (by simp)
    · rw [hundone p hk hlive hp, if_neg hall]
      change (-1 = -1 → s.dbg.watchpoints = s.dbg.watchpoints ∧
        (s.later _ _).slotContents = s.slotContents) ↔ _
      rw [slotContents_eq_iff (Sys.process_eq_some.mp hp).1 rfl]
      simp only [forall_const, true_and]
      refine forall₂_congr fun t _ => ?_
      by_cases ht : t.tid ∈ reached s.os.fault s.os.calls.count p.tids
      · rw [if_pos ht, Function.update_eq_self_iff]
        exact ⟨fun h _ _ => h.symm, fun h => (h ht (by omega)).symm⟩
      · rw [if_neg ht]
        exact iff_of_true rfl fun h => absurd h ht
    · rw [hundone p hk hlive hp, if_pos hall]
      rw [Process.setSlotOf_moved_some] at hproc'
      rw [hwps', shiftedTo_eq_iff (List.getElem?_eq_some_iff.mp hw).1,
        slotContents_eq_iff (Sys.process_eq_some.mp hp).1 hproc']
      have hreached (t : Thread) : t.tid ∈ (if hwAccepts s.os.arch watch.addr watch.size then
          reached s.os.fault c p.tids else []) ↔
            hwAccepts s.os.arch watch.addr watch.size = true ∧
              t.tid ∈ reached s.os.fault c p.tids := by
        split
        · next hacc => rw [eq_true hacc, true_and]
        · next hacc => exact iff_of_false List.not_mem_nil fun h => hacc h.1
      have hdr (same : ∀ l, k ≤ l → l ≤ k + 1 + j → s.dbg.watchpoints[l]? = some watch)
          (t : Thread) := @movedSlots_update_eq_iff k s.dbg.watchpoints t watch j
            (hwAccepts s.os.arch watch.addr watch.size = true ∧
              t.tid ∈ reached s.os.fault c p.tids) _ he same
      simp only [forall_const, hreached]
      constructor
      · rintro ⟨⟨watch', hsame⟩, hslots⟩ j' c' hsome'
        obtain ⟨rfl, rfl⟩ := Prod.mk.inj (Option.some.inj (hsome.symm.trans hsome'))
        obtain rfl := Option.some.inj (hw.symm.trans (hsame _ (by omega) (Nat.le_refl _)))
        exact ⟨watch, hsame, fun t ht => (hdr hsame t).mp (hslots t ht)⟩
      · intro h
        obtain ⟨watch', hsame, hslots⟩ := h j c hsome
        obtain rfl := Option.some.inj (hw.symm.trans (hsame _ (by omega) (Nat.le_refl _)))
        exact ⟨⟨watch, hsame⟩, fun t ht => (hdr hsame t).mpr (hslots t ht)⟩
  exact hrun

end Unwatch

/-- A failing `watch` or `unwatch` leaves the table and the registers as they were exactly when
what it has written was there before. -/
theorem watch_unwatch_atomic_iff {s : Sys}
    (hwf : ∀ p, s.process s.dbg.pid = some p → p.WellFormed)
    (hlen : s.dbg.watchpoints.length ≤ wpMaxHw) :
    (∀ expr resolved, s.Atomic (cmdWatch expr resolved) ↔ WatchUndone s expr resolved) ∧
      ∀ k, s.Atomic (deleteWatchpointAt k) ↔ UnwatchUndone s k :=
  ⟨cmdWatch_atomic_iff hwf, deleteWatchpointAt_atomic_iff hwf hlen⟩

/-- A debuggee with two threads, and calls that fail from the second thread on. -/
def secondFails : Sys :=
  let s := Sys.attached .x86_64 twoThreads fun _ => .exited 0
  { s with os := { s.os with fault := fun c n => c = .debugState && n % 3 = 0 } }

theorem secondFails_wellFormed (p : Process)
    (hp : secondFails.process secondFails.dbg.pid = some p) : p.WellFormed := by
  obtain rfl := Option.some.inj hp
  exact twoThreads_wellFormed

/-- A `watch` there. -/
theorem watch_atomic_iff_secondFails :
    secondFails.Atomic (cmdWatch (some "v".toList) (some (0x3000, 1))) ↔
      WatchUndone secondFails (some "v".toList) (some (0x3000, 1)) :=
  (watch_unwatch_atomic_iff secondFails_wellFormed (by decide)).1 _ _

/-- It fails, and the first thread keeps what has been written to its register. -/
theorem watch_not_atomic :
    ¬ ∀ s : Sys, (∀ p, s.process s.dbg.pid = some p → p.WellFormed) →
      s.dbg.watchpoints.length ≤ wpMaxHw →
      (∀ expr resolved, s.Atomic (cmdWatch expr resolved)) ∧
        ∀ k, s.Atomic (deleteWatchpointAt k) := by
  intro h
  have hwatch := (h secondFails secondFails_wellFormed (by decide)).1
  have hslots := (hwatch (some "v".toList) (some (0x3000, 1)) (by decide)).2
  have hfirst := congrArg (fun o => o.map fun drs => drs.map (· 0)) hslots
  exact absurd hfirst (by decide)

end Debugger
