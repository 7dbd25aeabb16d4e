/-
The listing of `threads`, and the commands that take a number of it.

A row shows the number of a thread, a star in front of the selected one and an `L` in front of
the one that `lock` has chosen.  `thread` and `lock` take the number of a row: typed behind one of
them, it makes the star, and for `lock` the `L`, stand in front of this row and no other
(`number_marks_row`).
-/
import Debugger.FrozenThreads
import Debugger.Listings
import Debugger.Report
import Debugger.WatchHistory

open Prog

namespace Debugger

/-! ### The listing -/

/-- `thread_is_current` -/
def threadIsCurrent (d : Cdbg) (t : ThreadInfo) : Bool :=
  if d.currentTid = tidPrimary then t.isPrimary else t.tid = d.currentTid

/-- `thread_is_locked` -/
def threadIsLocked (d : Cdbg) (t : ThreadInfo) : Bool :=
  d.threadLockActive && t.tid = d.lockedTid

/-- Where a thread or a frame stands: the pc, its symbol and its line. -/
def placeText (d : Cdbg) (pc : Addr) : CStr :=
  hexNumeral 16 pc ++ " in ".toList ++
    (match lookupSymbolForPc d.syms pc with
    | none => displaySymName none
    | some (sym, offset) => displaySymName (some sym) ++
        if offset ≠ 0 then " + ".toList ++ Nat.toDigits 10 offset.toNat else []) ++
    (match d.lineno.lineAtPc pc with
    | none => []
    | some (file, line) => " at ".toList ++ file ++ ':' :: Nat.toDigits 10 line.toNat)

/-- The marks of a row. -/
def threadMarks (d : Cdbg) (t : ThreadInfo) : CStr :=
  (if threadIsCurrent d t then '*' else ' ') ::
    (if threadIsLocked d t then "L ".toList else "  ".toList)

/-- A row up to the registers. -/
def threadColumns (d : Cdbg) (index : ℕ) (t : ThreadInfo) : CStr :=
  threadMarks d t ++ (padRight 4 (Nat.toDigits 10 index) ++ " tid=0x".toList ++
    padRight 16 (Nat.toDigits 16 t.tid.toNat) ++ ' ' ::
    padRight 9 (if t.isPrimary then "(primary)".toList else []) ++ [' '])

/-- `print_thread_line` -/
def printThreadLine (d : Cdbg) (index : ℕ) (t : ThreadInfo) : DbgM CStr := do
  match ← cdbgRegsGet d.pid t.tid with
  | none => return threadColumns d index t ++ "(registers unavailable)".toList
  | some regs => return threadColumns d index t ++ placeText d regs.pc

/-- The loop of `cmd_threads`. -/
def printThreadLines (d : Cdbg) : ℕ → List ThreadInfo → DbgM (List CStr)
  | _, [] => return []
  | index, t :: ts => do
    let row ← printThreadLine d index t
    return row :: (← printThreadLines d (index + 1) ts)

/-- The rows that `cmd_threads` prints; none when it fails. -/
def threadsListing : DbgM (Option (List CStr)) := do
  let s ← get
  if s.dbg.state = .idle then return none
  match ← cdbgThreadsList s.dbg.pid with
  | none => return none
  | some infos => return some (← printThreadLines s.dbg 0 infos)

/-- The thread that `cmd_thread` reports without a number, and its number; none when there is no
current one. -/
def currentThread (d : Cdbg) (infos : List ThreadInfo) : Option (ℕ × ThreadInfo) :=
  (infos.findIdx? (threadIsCurrent d)).bind fun index => infos[index]?.map (index, ·)

/-- The line that `cmd_thread` prints without a number. -/
def currentThreadLine : ℕ × ThreadInfo → CStr
  | (index, t) => "Current thread is #".toList ++ Nat.toDigits 10 index ++ " (tid=0x".toList ++
      Nat.toDigits 16 t.tid.toNat ++ ')' :: if t.isPrimary then " (primary)".toList else []

/-- `cmd_thread` without a number; none when it fails. -/
def threadReport : DbgM (Option CStr) := do
  let s ← get
  if s.dbg.state = .idle then return none
  match ← cdbgThreadsList s.dbg.pid with
  | none => return none
  | some infos => return (currentThread s.dbg infos).map currentThreadLine

/-- The number of a row, behind its marks. -/
def threadNumber (row : CStr) : CStr := rowNumber (row.drop 3)

/-- The row of the selected thread. -/
def Starred (row : CStr) : Prop := row[0]? = some '*'

/-- The row of the locked thread. -/
def MarkedLocked (row : CStr) : Prop := row[1]? = some 'L'

/-! ### What a row shows -/

section Rows

variable {d : Cdbg} {t : ThreadInfo} {index : ℕ} {rest : CStr}

theorem starred_iff : Starred (threadColumns d index t ++ rest) ↔ threadIsCurrent d t = true := by
  rw [Starred, threadColumns, threadMarks, List.append_assoc, List.cons_append,
    List.getElem?_cons_zero, Option.some_inj]
  cases threadIsCurrent d t with
  | true => exact ⟨fun _ => rfl, fun _ => rfl⟩
  | false => exact ⟨fun h => absurd h (by decide), fun h => absurd h Bool.false_ne_true⟩

theorem markedLocked_iff :
    MarkedLocked (threadColumns d index t ++ rest) ↔ threadIsLocked d t = true := by
  rw [MarkedLocked, threadColumns, threadMarks, List.append_assoc, List.cons_append,
    List.getElem?_cons_succ]
  cases threadIsLocked d t with
  | true => exact ⟨fun _ => rfl, fun _ => rfl⟩
  | false => exact ⟨fun h => absurd (Option.some.inj h) (by decide), fun h =>
      absurd h Bool.false_ne_true⟩

theorem threadMarks_length : (threadMarks d t).length = 3 := by
  rw [threadMarks]
  cases threadIsLocked d t <;> rfl

theorem threadNumber_columns :
    threadNumber (threadColumns d index t ++ rest) = Nat.toDigits 10 index := by
  obtain ⟨tail, hrow⟩ : ∃ tail, threadColumns d index t ++ rest =
      threadMarks d t ++ numberedRow index tail := by
    refine ⟨"tid=0x".toList ++ (padRight 16 (Nat.toDigits 16 t.tid.toNat) ++ ' ' ::
      (padRight 9 (if t.isPrimary then "(primary)".toList else []) ++ ([' '] ++ rest))), ?_⟩
    have hblank : " tid=0x".toList = ' ' :: "tid=0x".toList := rfl
    rw [threadColumns, numberedRow, hblank]
    simp only [List.append_assoc, List.cons_append]
  rw [threadNumber, hrow, ← threadMarks_length (d := d) (t := t), List.drop_left,
    rowNumber_numberedRow]

/-- The rows that are printed, one for each thread. -/
theorem printThreadLines_rows : ∀ {infos : List ThreadInfo} {index : ℕ} {s : Sys},
    wp (printThreadLines d index infos) (fun rows s' => s.Quiet s' ∧
      rows.length = infos.length ∧ ∀ j row, rows[j]? = some row → ∃ t rest,
        infos[j]? = some t ∧ row = threadColumns d (index + j) t ++ rest) s := by
  intro infos
  induction infos with
  | nil =>
    intro index s
    refine ⟨.refl s, rfl, fun j row h => ?_⟩
    exact absurd (List.getElem?_nil.symm.trans h) (Option.some_ne_none row).symm
  | cons t ts ih =>
    intro index s
    have hrow : wp (printThreadLine d index t) (fun row s' => s.Quiet s' ∧
        ∃ rest, row = threadColumns d index t ++ rest) s := by
      rw [printThreadLine, wp_bind]
      exact wp_cdbgRegsGet (fun s' hq _ => ⟨hq, _, rfl⟩) fun p u s' _ _ hq => ⟨hq, _, rfl⟩
    rw [printThreadLines, wp_bind]
    refine wp_mono hrow fun row s₁ h₁ => ?_
    obtain ⟨hq₁, rest, hrest⟩ := h₁
    rw [wp_bind]
    refine wp_mono ih fun rows s₂ h₂ => ?_
    obtain ⟨hq₂, hlen, hrows⟩ := h₂
    refine ⟨hq₁.trans hq₂, congrArg (· + 1) hlen, fun j row' h => ?_⟩
    cases j with
    | zero =>
      obtain rfl := Option.some.inj h
      exact ⟨t, rest, rfl, hrest⟩
    | succ j =>
      obtain ⟨u, rest', hu, hrow'⟩ := hrows j row' h
      refine ⟨u, rest', hu, ?_⟩
      rw [hrow', Nat.add_right_comm, Nat.add_assoc]

end Rows

/-! ### Which rows are marked -/

section Marks

variable {d : Cdbg} {p : Process} {i j : ℕ} {t target : ThreadInfo}

/-- The threads that the debugger lists. -/
def Process.listed (p : Process) : List ThreadInfo := p.threadInfos.take maxThreads

/-- The thread listed at `i` is the selected one. -/
def Selects (d : Cdbg) (p : Process) (i : ℕ) : Prop :=
  ∃ target, p.listed[i]? = some target ∧ d.currentTid = target.selector

/-- The thread listed at `i` is the locked one. -/
def Locks (d : Cdbg) (p : Process) (i : ℕ) : Prop :=
  d.threadLockActive = true ∧ ∃ target, p.listed[i]? = some target ∧ d.lockedTid = target.tid

/-- The primary thread is the first one. -/
theorem Process.isPrimary_iff (h : p.listed[i]? = some t) : t.isPrimary = true ↔ i = 0 := by
  have hget : p.threadInfos[i]? = some t := by
    rw [listed, List.getElem?_take] at h
    split at h
    · exact h
    · exact absurd h (Option.some_ne_none t).symm
  rw [threadInfos] at hget
  cases hthreads : p.threads with
  | nil =>
    rw [hthreads] at hget
    exact absurd hget (by simp)
  | cons u us =>
    rw [hthreads] at hget
    cases i with
    | zero =>
      obtain rfl := Option.some.inj hget
      exact ⟨fun _ => rfl, fun _ => rfl⟩
    | succ i =>
      rw [List.getElem?_cons_succ, List.getElem?_map] at hget
      obtain ⟨v, -, rfl⟩ := Option.map_eq_some_iff.mp hget
      exact ⟨fun h => absurd h Bool.false_ne_true, fun h => absurd h (Nat.succ_ne_zero i)⟩

/-- The ids tell the listed threads apart. -/
theorem Process.WellFormed.listed_inj (hwf : p.WellFormed) (hi : p.listed[i]? = some target)
    (hj : p.listed[j]? = some t) : t.tid = target.tid ↔ j = i := by
  constructor
  · intro htid
    have hlt : j < (p.listed.map (·.tid)).length := by
      rw [List.length_map]
      exact (List.getElem?_eq_some_iff.mp hj).1
    refine (List.getElem?_inj hlt (hwf.threadInfos maxThreads).1).mp ?_
    show (p.listed.map (·.tid))[j]? = (p.listed.map (·.tid))[i]?
    rw [List.getElem?_map, List.getElem?_map, hj, hi, Option.map_some, Option.map_some, htid]
  · rintro rfl
    rw [Option.some.inj (hj.symm.trans hi)]

theorem threadIsCurrent_iff (hwf : p.WellFormed) (hsel : Selects d p i)
    (hj : p.listed[j]? = some t) : threadIsCurrent d t = true ↔ j = i := by
  obtain ⟨target, hi, hcur⟩ := hsel
  have hne : target.tid ≠ tidPrimary :=
    (hwf.threadInfos maxThreads).2 target (List.mem_of_getElem? hi)
  rw [threadIsCurrent, hcur, ThreadInfo.selector]
  by_cases hprimary : target.isPrimary = true
  · rw [if_pos hprimary, if_pos rfl, Process.isPrimary_iff hj,
      (Process.isPrimary_iff hi).mp hprimary]
  · rw [if_neg hprimary, if_neg hne, decide_eq_true_eq]
    exact hwf.listed_inj hi hj

theorem threadIsLocked_iff (hwf : p.WellFormed) (hlock : Locks d p i)
    (hj : p.listed[j]? = some t) : threadIsLocked d t = true ↔ j = i := by
  obtain ⟨hactive, target, hi, htid⟩ := hlock
  rw [threadIsLocked, hactive, htid, Bool.true_and, decide_eq_true_eq]
  exact hwf.listed_inj hi hj

/-- The current thread is the selected one. -/
theorem currentThread_eq (hwf : p.WellFormed) (hsel : Selects d p i) :
    ∃ t, p.listed[i]? = some t ∧ currentThread d p.listed = some (i, t) := by
  obtain ⟨target, hi, -⟩ := id hsel
  refine ⟨target, hi, ?_⟩
  have hfind : p.listed.findIdx? (threadIsCurrent d) = some i := by
    obtain ⟨hlt, hget⟩ := List.getElem?_eq_some_iff.mp hi
    refine List.findIdx?_eq_some_iff_getElem.mpr ⟨hlt, ?_, fun j hj => ?_⟩
    · rw [hget]
      exact (threadIsCurrent_iff hwf hsel hi).mpr rfl
    · have hcurrent := threadIsCurrent_iff hwf hsel
        (List.getElem?_eq_getElem (Nat.lt_trans hj hlt))
      exact fun h => absurd (hcurrent.mp h) (Nat.ne_of_lt hj)
  rw [currentThread, hfind, Option.bind_some, hi]
  rfl

/-- The rows are those of the listed threads, as the debugger `d` shows them. -/
def RowsOf (d : Cdbg) (p : Process) (rows : List CStr) : Prop :=
  rows.length = p.listed.length ∧ ∀ j row, rows[j]? = some row → ∃ t rest,
    p.listed[j]? = some t ∧ row = threadColumns d j t ++ rest

theorem RowsOf.row {rows : List CStr} (h : RowsOf d p rows) (ht : p.listed[j]? = some t) :
    ∃ rest, rows[j]? = some (threadColumns d j t ++ rest) := by
  obtain ⟨hlen, hrows⟩ := h
  have hlt : j < rows.length := by
    rw [hlen]
    exact (List.getElem?_eq_some_iff.mp ht).1
  obtain ⟨u, rest, hu, hrow⟩ := hrows j _ (List.getElem?_eq_getElem hlt)
  obtain rfl := Option.some.inj (ht.symm.trans hu)
  exact ⟨rest, (List.getElem?_eq_getElem hlt).trans (congrArg some hrow)⟩

/-- The row of the locked thread is the one that is marked so. -/
theorem RowsOf.marked_iff {rows : List CStr} (h : RowsOf d p rows) (ht : p.listed[j]? = some t) :
    (∃ row, rows[j]? = some row ∧ MarkedLocked row) ↔ threadIsLocked d t = true := by
  obtain ⟨rest, hrow⟩ := h.row ht
  constructor
  · rintro ⟨row, hj, hmarked⟩
    obtain rfl := Option.some.inj (hrow.symm.trans hj)
    exact markedLocked_iff.mp hmarked
  · exact fun hlocked => ⟨_, hrow, markedLocked_iff.mpr hlocked⟩

end Marks

/-! ### Choosing a row -/

section Choosing

variable {s : Sys} {i : ℕ}

/-- A typed number is its own argument. -/
theorem trimSpace_toDigits : trimSpace (Nat.toDigits 10 i) = Nat.toDigits 10 i := by
  have htrim := trimSpace_intercalate (@numerals_isWord [i])
  rwa [List.map_singleton, List.intercalate_singleton] at htrim

theorem parseThreadNumber_toDigits {infos : List ThreadInfo} (hi : i < 2 ^ 64) :
    parseThreadNumber (Nat.toDigits 10 i) infos = infos[i]? := by
  rw [parseThreadNumber, parseU64_toDigits hi]
  exact congrArg (infos[·]?) (UInt64.toNat_ofNat_of_lt' hi)

/-- `thread` selects the thread of its number. -/
theorem cmdThread_selects (hi : i < 2 ^ 64) :
    wp (cmdThread (some (Nat.toDigits 10 i))) (fun rc s' => rc = 0 →
      (∃ p, s.process s.dbg.pid = some p ∧ Selects s'.dbg p i) ∧
        s'.dbg.threadLockActive = s.dbg.threadLockActive ∧ s'.dbg.lockedTid = s.dbg.lockedTid)
      s := by
  obtain ⟨c, cs, hdigits⟩ := List.exists_cons_of_ne_nil (Nat.toDigits_ne_nil (n := i) (b := 10))
  rw [cmdThread, wp_bind, wp_get, wp_ite]
  refine ⟨fun _ h => absurd h neg_one_ne, fun _ => ?_⟩
  rw [wp_bind]
  refine wp_cdbgThreadsList (fun _ _ _ h => absurd h neg_one_ne) fun p s₁ hp hquiet => ?_
  obtain ⟨n, rfl⟩ := hquiet
  dsimp only
  rw [Option.map_some, trimSpace_toDigits, hdigits]
  dsimp only
  rw [← hdigits, parseThreadNumber_toDigits hi]
  cases htarget : (p.threadInfos.take maxThreads)[i]? with
  | none => exact fun h => absurd h neg_one_ne
  | some target =>
    dsimp only
    rw [wp_bind, setCurrentTid, wp_modifyDbg, wp_bind]
    refine wp_cdbgRefreshRegs (fun _ _ _ h => absurd h neg_one_ne) fun q u s₃ _ _ hquiet _ => ?_
    obtain ⟨n', rfl⟩ := hquiet
    exact ⟨⟨p, hp, target, htarget, rfl⟩, rfl, rfl⟩

/-- `lock` locks and selects the thread of its number. -/
theorem cmdLock_locks (hi : i < 2 ^ 64) :
    wp (cmdLock (some (Nat.toDigits 10 i))) (fun rc s' => rc = 0 →
      ∃ p, s.process s.dbg.pid = some p ∧ Selects s'.dbg p i ∧ Locks s'.dbg p i) s := by
  obtain ⟨c, cs, hdigits⟩ := List.exists_cons_of_ne_nil (Nat.toDigits_ne_nil (n := i) (b := 10))
  rw [cmdLock, wp_bind, wp_get, wp_ite]
  refine ⟨fun _ h => absurd h neg_one_ne, fun _ => ?_⟩
  rw [Option.map_some, trimSpace_toDigits, hdigits]
  dsimp only
  rw [← hdigits, wp_ite]
  refine ⟨fun _ h => absurd h neg_one_ne, fun _ => ?_⟩
  rw [wp_bind]
  refine wp_cdbgThreadsList (fun _ _ _ h => absurd h neg_one_ne) fun p s₁ hp hquiet => ?_
  obtain ⟨n, rfl⟩ := hquiet
  dsimp only
  rw [parseThreadNumber_toDigits hi]
  cases htarget : (p.threadInfos.take maxThreads)[i]? with
  | none => exact fun h => absurd h neg_one_ne
  | some target =>
    dsimp only
    rw [wp_bind]
    refine wp_mono (wp_true _) fun r s₂ _ => ?_
    cases r with
    | none => exact fun h => absurd h neg_one_ne
    | some m =>
      dsimp only
      rw [wp_bind, wp_modifyDbg, wp_bind]
      refine wp_cdbgRefreshRegs (fun _ _ _ h => absurd h neg_one_ne) fun q u s₃ _ _ hquiet _ => ?_
      obtain ⟨n', rfl⟩ := hquiet
      exact ⟨p, hp, ⟨target, htarget, rfl⟩, rfl, target, htarget, rfl⟩

/-- `unlock` takes the mark of the locked thread away and leaves the selection. -/
theorem cmdUnlock_unlocks (hst : s.dbg.state ≠ .idle) :
    wp cmdUnlock (fun _ s' => s'.dbg.threadLockActive = false ∧
      s'.dbg.currentTid = s.dbg.currentTid) s := by
  rw [cmdUnlock, wp_bind, wp_get, wp_ite]
  refine ⟨fun h => absurd h hst, fun _ => ?_⟩
  rw [wp_ite]
  refine ⟨fun hlocked => ?_, fun _ => ?_⟩
  · exact ⟨by rwa [Bool.not_eq_true'] at hlocked, rfl⟩
  · rw [wp_bind]
    refine wp_mono (unlockLoop_keeps _ _ _ s) fun rc s₁ h => ?_
    have hdbg : s₁.sansHolds.dbg = s.sansHolds.dbg := congrArg Sys.dbg h
    have hcur : s₁.dbg.currentTid = s.dbg.currentTid := congrArg Cdbg.currentTid hdbg
    rw [wp_bind, wp_modifyDbg]
    exact ⟨rfl, hcur⟩

end Choosing

/-! ### The marks after a command -/

/-- What `threads` and `thread` print: a star in front of row `i` and no other, the marks of a
locked thread where they are said to be, and the thread of this row as the current one. -/
structure Sys.Shows (s : Sys) (rows : List CStr) (i : ℕ) (marked : ℕ → Prop) : Prop where
  listed : wp threadsListing (fun shown _ => ∀ rows', shown = some rows' →
    rows'.length = rows.length ∧ ∀ j row, rows'[j]? = some row →
      (Starred row ↔ j = i) ∧ (MarkedLocked row ↔ marked j)) s
  reported : wp threadReport (fun shown _ => ∀ line, shown = some line →
    ∃ d t rest, rows[i]? = some (threadColumns d i t ++ rest) ∧ line = currentThreadLine (i, t)) s
  answered : s.Reliable .taskThreads →
    wp threadsListing (fun shown _ => shown ≠ none) s ∧
      wp threadReport (fun shown _ => shown ≠ none) s

section Showing

variable {s s₁ : Sys} {rows : List CStr} {p : Process} {i : ℕ} {marked : ℕ → Prop}

/-- The listing, of a debuggee only. -/
theorem wp_threadsListing {Q : Option (List CStr) → Sys → Prop}
    (hfail : ∀ s', (s.Reliable .taskThreads → s.dbg.state = .idle ∨
      s.process s.dbg.pid = none) → Q none s')
    (hok : ∀ p rows s', s.dbg.state ≠ .idle → s.process s.dbg.pid = some p → s.Quiet s' →
      RowsOf s.dbg p rows → Q (some rows) s') :
    wp threadsListing Q s := by
  rw [threadsListing, wp_bind, wp_get, wp_ite]
  refine ⟨fun hidle => hfail _ fun _ => .inl hidle, fun hst => ?_⟩
  rw [wp_bind]
  refine wp_cdbgThreadsList (fun s₁ _ hnone => hfail _ fun hr => .inr (hnone hr))
    fun p s₁ hp hquiet => ?_
  dsimp only
  rw [wp_bind]
  refine wp_mono printThreadLines_rows fun rows s₂ h₂ => ?_
  obtain ⟨hq₂, hlen, hrows⟩ := h₂
  refine hok p rows s₂ hst hp (hquiet.trans hq₂) ⟨hlen, fun j row hj => ?_⟩
  obtain ⟨t, rest, ht, hrow⟩ := hrows j row hj
  exact ⟨t, rest, ht, by rw [hrow, Nat.zero_add]⟩

theorem wp_threadReport {Q : Option CStr → Sys → Prop}
    (hfail : ∀ s', (s.Reliable .taskThreads → s.dbg.state = .idle ∨
      s.process s.dbg.pid = none) → Q none s')
    (hok : ∀ p s', s.process s.dbg.pid = some p →
      Q ((currentThread s.dbg p.listed).map currentThreadLine) s') :
    wp threadReport Q s := by
  rw [threadReport, wp_bind, wp_get, wp_ite]
  refine ⟨fun hidle => hfail _ fun _ => .inl hidle, fun _ => ?_⟩
  rw [wp_bind]
  exact wp_cdbgThreadsList (fun s₁ _ hnone => hfail _ fun hr => .inr (hnone hr))
    fun p s₁ hp _ => hok p s₁ hp

/-- What is shown of a debuggee of which the rows were listed before. -/
theorem RowsOf.shows {d : Cdbg} (h : RowsOf d p rows) (hwf : p.WellFormed)
    (hst : s.dbg.state ≠ .idle) (hp : s.process s.dbg.pid = some p) (hsel : Selects s.dbg p i)
    (hmarked : ∀ j t, p.listed[j]? = some t → (threadIsLocked s.dbg t = true ↔ marked j)) :
    s.Shows rows i marked := by
  have hanswer : ¬ (s.dbg.state = .idle ∨ s.process s.dbg.pid = none) := by
    rintro (hidle | hnone)
    · exact hst hidle
    · exact Option.some_ne_none p (hp.symm.trans hnone)
  obtain ⟨t, hget, hcurrent⟩ := currentThread_eq hwf hsel
  obtain ⟨rest, hrow⟩ := h.row hget
  refine ⟨wp_threadsListing (fun _ _ rows' hrows' => absurd hrows' (Option.some_ne_none _).symm)
      fun q rows' s' _ hq _ hlists rows'' hrows'' => ?_,
    wp_threadReport (fun _ _ line hline => absurd hline (Option.some_ne_none _).symm)
      fun q s' hq line hline => ?_,
    fun hr => ⟨wp_threadsListing (fun _ hfail => absurd (hfail hr) hanswer)
        fun _ rows' s' _ _ _ _ => Option.some_ne_none rows',
      wp_threadReport (fun _ hfail => absurd (hfail hr) hanswer) fun q s' hq => ?_⟩⟩
  · obtain rfl := Option.some.inj hrows''
    obtain rfl := Option.some.inj (hp.symm.trans hq)
    refine ⟨hlists.1.trans h.1.symm, fun j row hj => ?_⟩
    obtain ⟨u, rest', hu, rfl⟩ := hlists.2 j row hj
    rw [starred_iff, markedLocked_iff]
    exact ⟨threadIsCurrent_iff hwf hsel hu, hmarked j u hu⟩
  · obtain rfl := Option.some.inj (hp.symm.trans hq)
    rw [hcurrent] at hline
    obtain rfl := Option.some.inj hline
    exact ⟨d, t, rest, hrow, rfl⟩
  · obtain rfl := Option.some.inj (hp.symm.trans hq)
    rw [hcurrent]
    exact Option.some_ne_none _

theorem notIdle_of_progress (h : s₁.progress = s.progress) (hst : s.dbg.state ≠ .idle) :
    s₁.dbg.state ≠ .idle := by
  rwa [show s₁.dbg.state = s.dbg.state from congrArg Progress.state h]

/-- The debuggee that was listed is still there as long as it has not got further. -/
theorem process_of_progress (h : s₁.progress = s.progress) (hp : s.process s.dbg.pid = some p) :
    ∃ p₁, s₁.process s₁.dbg.pid = some p₁ ∧ p₁.listed = p.listed := by
  have hids : s₁.os.proc.map Process.ids = s.os.proc.map Process.ids :=
    congrArg Progress.ids h
  obtain ⟨hproc, hpid⟩ := Sys.process_eq_some.mp hp
  rw [hproc, Option.map_some] at hids
  obtain ⟨p₁, hproc₁, heq⟩ := Option.map_eq_some_iff.mp hids
  refine ⟨p₁, Sys.process_eq_some.mpr ⟨hproc₁, ?_⟩, ?_⟩
  · exact (congrArg Prod.fst heq).trans (hpid.trans (congrArg Progress.pid h).symm)
  · rw [Process.listed, Process.listed,
      Process.threadInfos_of_tids (congrArg (fun ids => ids.2.2) heq)]

/-- Rows listed before a command that lets the debuggee stand, and what is shown after it. -/
theorem RowsOf.shows_of_progress (h : RowsOf s.dbg p rows)
    (hwf : ∀ p, s.process s.dbg.pid = some p → p.WellFormed) (hst : s.dbg.state ≠ .idle)
    (hp : s.process s.dbg.pid = some p) (hv : s₁.progress = s.progress)
    (hsel : Selects s₁.dbg p i)
    (hmarked : ∀ j t, p.listed[j]? = some t → (threadIsLocked s₁.dbg t = true ↔ marked j)) :
    s₁.Shows rows i marked := by
  obtain ⟨p₁, hp₁, hlisted⟩ := process_of_progress hv hp
  have hlists : RowsOf s.dbg p₁ rows := by
    rwa [RowsOf, hlisted]
  refine hlists.shows (WatchSession.wellFormed_of_progress hv hwf p₁ hp₁)
    (notIdle_of_progress hv hst) hp₁ ?_ ?_
  · rwa [Selects, hlisted]
  · rwa [hlisted]

/-- `thread` and `lock`, given the number of a row, make the star stand in front of this row and
no other.  `thread` leaves the other mark where it is, `lock` makes it stand in front of this row
and no other, and after an `unlock` no row has it. -/
theorem number_marks_row {row : CStr}
    (hwf : ∀ p, s.process s.dbg.pid = some p → p.WellFormed)
    (hlist : threadsListing.run s = (some rows, s₁)) (hrow : rows[i]? = some row) :
    threadNumber row = Nat.toDigits 10 i ∧
    (∀ s₂, (cmdThread (some (threadNumber row))).run s₁ = (0, s₂) →
      s₂.Shows rows i fun j => ∃ row, rows[j]? = some row ∧ MarkedLocked row) ∧
    ∀ s₂, (cmdLock (some (threadNumber row))).run s₁ = (0, s₂) →
      s₂.Shows rows i (· = i) ∧ (cmdUnlock.run s₂).2.Shows rows i fun _ => False := by
  have hrows : wp threadsListing (fun shown s' => ∀ rows, shown = some rows → s.Quiet s' ∧
      s.dbg.state ≠ .idle ∧ ∃ p, s.process s.dbg.pid = some p ∧ RowsOf s.dbg p rows) s := by
    refine wp_threadsListing (fun _ _ rows h => absurd h (Option.some_ne_none _).symm)
      fun p rows s' hst hp hquiet hlists rows' h => ?_
    obtain rfl := Option.some.inj h
    exact ⟨hquiet, hst, p, hp, hlists⟩
  rw [wp_of_run hlist] at hrows
  obtain ⟨hquiet, hst, p, hp, hlists⟩ := hrows rows rfl
  obtain ⟨n, rfl⟩ := hquiet
  obtain ⟨t, rest, hget, rfl⟩ := hlists.2 i row hrow
  rw [threadNumber_columns]
  have hi : i < 2 ^ 64 := by
    have hlt := (List.getElem?_eq_some_iff.mp hget).1
    rw [Process.listed, List.length_take] at hlt
    exact Nat.lt_of_lt_of_le (Nat.lt_of_lt_of_le hlt (Nat.min_le_left _ _)) (by decide)
  refine ⟨rfl, fun s₂ hrun => ?_, fun s₂ hrun => ?_⟩
  · obtain ⟨hcmd, hv⟩ := (wp_of_run hrun).mp ((cmdThread_progress _).wp_and (cmdThread_selects hi))
    obtain ⟨⟨q, hq, hsel⟩, hactive, htid⟩ := hcmd rfl
    obtain rfl := Option.some.inj (hp.symm.trans hq)
    refine hlists.shows_of_progress hwf hst hp hv hsel fun j u hu => ?_
    rw [hlists.marked_iff hu, threadIsLocked, threadIsLocked, hactive, htid]
  · obtain ⟨hcmd, hv⟩ := (wp_of_run hrun).mp ((cmdLock_progress _).wp_and (cmdLock_locks hi))
    obtain ⟨q, hq, hsel, hlock⟩ := hcmd rfl
    obtain rfl := Option.some.inj (hp.symm.trans hq)
    refine ⟨hlists.shows_of_progress hwf hst hp hv hsel fun j u hu =>
      threadIsLocked_iff (hwf p hp) hlock hu, ?_⟩
    obtain ⟨⟨hactive, hcur⟩, hv'⟩ :=
      cmdUnlock_progress.wp_and (cmdUnlock_unlocks (notIdle_of_progress hv hst))
    obtain ⟨target, htarget, hselected⟩ := hsel
    refine hlists.shows_of_progress hwf hst hp (hv'.trans hv)
      ⟨target, htarget, hcur.trans hselected⟩ fun j u _ => ?_
    rw [threadIsLocked, hactive, Bool.false_and]
    exact ⟨fun h => absurd h Bool.false_ne_true, False.elim⟩

/-- The listing of two threads. -/
def twoRows : Option (List CStr) × Sys :=
  threadsListing.run (Sys.attached .x86_64 twoThreads fun _ => .exited 0)

/-- `lock`, given the number of the second row. -/
theorem number_marks_row_second :
    ((cmdLock (some "1".toList)).run twoRows.2).1 = 0 ∧
      ((cmdLock (some "1".toList)).run twoRows.2).2.Shows (twoRows.1.getD []) 1 (· = 1) := by
  have hsome : twoRows.1.isSome = true := by decide +kernel
  have hrow : (twoRows.1.getD [])[1]? =
      some "   1    tid=0x2                          0x0000000000002000 in ??".toList := by
    decide +kernel
  have hlist : threadsListing.run (Sys.attached .x86_64 twoThreads fun _ => .exited 0) =
      (some (twoRows.1.getD []), twoRows.2) := by
    obtain ⟨rows, hrows⟩ := Option.isSome_iff_exists.mp hsome
    refine Prod.ext ?_ rfl
    rw [hrows, Option.getD_some]
    exact hrows
  have hwf (p : Process) (hp : (Sys.attached .x86_64 twoThreads fun _ => .exited 0).process
      (Sys.attached .x86_64 twoThreads fun _ => .exited 0).dbg.pid = some p) :
      p.WellFormed := by
    obtain rfl := Option.some.inj hp
    exact twoThreads_wellFormed
  have hlock : ((cmdLock (some "1".toList)).run twoRows.2).1 = 0 := by decide +kernel
  obtain ⟨hnumber, -, hmarks⟩ := number_marks_row hwf hlist hrow
  rw [hnumber] at hmarks
  exact ⟨hlock, (hmarks _ (run_of_code hlock)).1⟩

end Showing

end Debugger
