/-
`del` and `unwatch` delete the entries their argument names.

A token that is no number below the count makes the command fail before anything is deleted.
Otherwise the numbers are stored once each, which bounds the buffer, and deleted in descending
order, so that each stands for its entry of the table the command has started with
(`del_unwatch_deletesNamed`).
-/
import Debugger.Deletion
import Debugger.DebugRegs
import Debugger.Lib.Erasing
import Debugger.Repl

open Prog

namespace Debugger

/-! ### The numbers an argument names -/

/-- The tokens of an argument. -/
def argTokens (text : CStr) : List CStr := strtok (trimSpace text)

/-- The token is a number below the count. -/
def Numbers (count : ℕ) (token : CStr) : Prop := ∃ n, parseU64 token = some n ∧ n.toNat < count

instance (count : ℕ) (token : CStr) : Decidable (Numbers count token) :=
  decidable_of_iff ((parseU64 token).any (·.toNat < count) = true) (by
    rw [Option.any_eq_true]
    exact exists_congr fun n => and_congr_right fun _ => decide_eq_true_iff)

/-- The numbers the tokens stand for. -/
def numbersOf (tokens : List CStr) : List ℕ :=
  tokens.filterMap fun token => (parseU64 token).map UInt64.toNat

/-- The argument is a list of tokens, not the word `all`, and fits a line. -/
structure Listed (text : CStr) : Prop where
  tokens : argTokens text ≠ []
  notAll : trimSpace text ≠ "all".toList
  fits : (trimSpace text).length < maxCmd

section Numbers

variable {count : ℕ} {push : List ℕ → ℕ → List ℕ} {tokens : List CStr} {stored : List ℕ}

/-- A token that is no number below the count is found. -/
theorem parseIndices_eq_none (h : ∃ token ∈ tokens, ¬ Numbers count token) :
    parseIndices count push tokens stored = none := by
  induction tokens generalizing stored with
  | nil => exact absurd h (by simp)
  | cons token tokens ih =>
    rw [parseIndices]
    split
    · rfl
    · next number hnumber =>
      by_cases hlt : number.toNat ≥ count
      · rw [if_pos hlt]
      · have hnamed : Numbers count token := ⟨number, hnumber, Nat.lt_of_not_ge hlt⟩
        obtain ⟨bad, hbad, hno⟩ := h
        have hrest : ∃ token ∈ tokens, ¬ Numbers count token := by
          rcases List.mem_cons.mp hbad with rfl | hbad
          · exact absurd hnamed hno
          · exact ⟨bad, hbad, hno⟩
        rw [if_neg hlt, ih hrest, ih hrest, ite_self]

/-- The stored numbers are distinct and below the count. -/
def Stored (count : ℕ) (stored : List ℕ) : Prop := stored.Nodup ∧ ∀ i ∈ stored, i < count

/-- There is room for them in a table of the size. -/
theorem Stored.length_le (h : Stored count stored) : stored.length ≤ count := by
  have hsub : stored.Subperm (List.range count) :=
    List.subperm_of_subset h.1 fun i hi => List.mem_range.mpr (h.2 i hi)
  rw [← List.length_range (n := count)]
  exact hsub.length_le

theorem Stored.store {n : ℕ} (h : Stored count stored) (hnew : n ∉ stored) (hlt : n < count) :
    Stored count (stored ++ [n]) := by
  refine ⟨List.nodup_append'.mpr ⟨h.1, List.nodup_singleton n, ?_⟩, fun i hi => ?_⟩
  · exact List.disjoint_singleton.mpr hnew
  · rcases List.mem_append.mp hi with hi | hi
    · exact h.2 i hi
    · rw [List.mem_singleton.mp hi]
      exact hlt

/-- The tokens store the numbers they stand for. -/
theorem parseIndices_eq_some
    (hpush : ∀ stored n, Stored count stored → n ∉ stored → n < count →
      push stored n = stored ++ [n])
    (h : ∀ token ∈ tokens, Numbers count token) (hstored : Stored count stored) :
    ∃ order, parseIndices count push tokens stored = some order ∧ Stored count order ∧
      ∀ i, i ∈ order ↔ i ∈ stored ∨ i ∈ numbersOf tokens := by
  induction tokens generalizing stored with
  | nil => exact ⟨stored, rfl, hstored, fun i => (or_iff_left List.not_mem_nil).symm⟩
  | cons token tokens ih =>
    obtain ⟨⟨number, hnumber, hlt⟩, hrest⟩ := List.forall_mem_cons.mp h
    have hcons : numbersOf (token :: tokens) = number.toNat :: numbersOf tokens :=
      List.filterMap_cons_some (by rw [hnumber]; rfl)
    rw [parseIndices, hnumber, hcons]
    dsimp only
    rw [if_neg (Nat.not_le.mpr hlt)]
    by_cases hmem : number.toNat ∈ stored
    · obtain ⟨order, horder, hok, hiff⟩ := ih hrest hstored
      refine ⟨order, by rw [if_pos hmem, horder], hok, fun i => ?_⟩
      rw [hiff, List.mem_cons]
      constructor
      · rintro (hi | hi)
        · exact .inl hi
        · exact .inr (.inr hi)
      · rintro (hi | rfl | hi)
        · exact .inl hi
        · exact .inl hmem
        · exact .inr hi
    · obtain ⟨order, horder, hok, hiff⟩ := ih hrest (hstored.store hmem hlt)
      refine ⟨order, by rw [if_neg hmem, hpush stored _ hstored hmem hlt, horder], hok,
        fun i => ?_⟩
      rw [hiff, List.mem_append, List.mem_singleton, List.mem_cons, or_assoc]

/-- What is stored at any time is distinct and below the count. -/
theorem stored_of_parseIndices {order : List ℕ}
    (hpush : ∀ stored n, Stored count stored → n ∉ stored → n < count →
      push stored n = stored ++ [n])
    (h : parseIndices count push tokens [] = some order) : Stored count order := by
  have hall : ∀ token ∈ tokens, Numbers count token := by
    by_contra hno
    push Not at hno
    rw [parseIndices_eq_none hno] at h
    exact absurd h (by simp)
  obtain ⟨order', horder', hok, -⟩ :=
    parseIndices_eq_some hpush hall ⟨List.nodup_nil, fun _ h => absurd h List.not_mem_nil⟩
  obtain rfl := Option.some.inj (horder'.symm.trans h)
  exact hok

/-- What a list of tokens makes the deletion order. -/
theorem deletionOrder_of_listed {text : CStr} (h : Listed text)
    (hpush : ∀ stored n, Stored count stored → n ∉ stored → n < count →
      push stored n = stored ++ [n])
    (hall : ∀ token ∈ argTokens text, Numbers count token) :
    ∃ order, deletionOrder count push (trimSpace text) = some order ∧ order.Pairwise (· > ·) ∧
      (∀ i ∈ order, i < count) ∧ ∀ i, i ∈ order ↔ i ∈ numbersOf (argTokens text) := by
  obtain ⟨order, horder, hok, hiff⟩ :=
    parseIndices_eq_some hpush hall ⟨List.nodup_nil, fun _ h => absurd h List.not_mem_nil⟩
  have hperm := sortDescending_perm order.length order
  have hnodup : (sortDescending order.length order).Nodup := hperm.nodup_iff.mpr hok.1
  refine ⟨sortDescending order.length order, ?_, ?_, fun i hi => hok.2 i (hperm.mem_iff.mp hi),
    fun i => ?_⟩
  · rw [deletionOrder, if_neg h.notAll, snprintf_of_lt h.fits]
    change Option.map _ (parseIndices count push (argTokens text) []) = _
    rw [horder]
    rfl
  · refine ((sortDescending_sorted (Nat.le_refl _)).and hnodup).imp fun hab => ?_
    exact Nat.lt_of_le_of_ne hab.1 (Ne.symm hab.2)
  · rw [hperm.mem_iff, hiff, or_iff_right List.not_mem_nil]

theorem deletionOrder_of_not_listed {text : CStr} (h : Listed text)
    (hbad : ∃ token ∈ argTokens text, ¬ Numbers count token) :
    deletionOrder count push (trimSpace text) = none := by
  rw [deletionOrder, if_neg h.notAll, snprintf_of_lt h.fits]
  change Option.map _ (parseIndices count push (argTokens text) []) = _
  rw [parseIndices_eq_none hbad]
  rfl

theorem Listed.trim_ne_nil {text : CStr} (h : Listed text) : trimSpace text ≠ [] := by
  intro hnil
  refine h.tokens ?_
  rw [argTokens, hnil]
  rfl

end Numbers

/-! ### The deletions -/

/-- A command on a table that deletes the entries its argument names; `room` is the size of the
buffer for the numbers, and `Writable` says that the writes it needs succeed. -/
structure DeletesNamed {α : Type} (cmd : Option CStr → DbgM Int) (table : Sys → List α)
    (room : ℕ) (push : List ℕ → ℕ → List ℕ) (Writable : Sys → Prop) : Prop where
  /-- with a token that is no number below the count it fails, and nothing has changed -/
  rejects : ∀ s text, table s ≠ [] → Listed text →
    (∃ token ∈ argTokens text, ¬ Numbers (table s).length token) →
      (cmd (some text)).run s = (-1, s)
  /-- otherwise it succeeds if the writes do -/
  succeeds : ∀ s text, table s ≠ [] → (table s).length ≤ room → Listed text →
    (∀ token ∈ argTokens text, Numbers (table s).length token) → Writable s →
      wp (cmd (some text)) (fun rc _ => rc = 0) s
  /-- and when it succeeds, the others are left as they were -/
  deletes : ∀ s text, table s ≠ [] → (table s).length ≤ room → Listed text →
    (∀ token ∈ argTokens text, Numbers (table s).length token) →
      wp (cmd (some text)) (fun rc s' =>
        rc = 0 → table s' = without (numbersOf (argTokens text)) (table s)) s
  /-- the numbers stored after any tokens fit the buffer -/
  bounded : ∀ count tokens stored, count ≤ room → parseIndices count push tokens [] = some stored →
    stored.length ≤ room

/-- The memory of a debuggee that can be accessed can be written. -/
def Sys.MemWritable (s : Sys) : Prop :=
  s.dbg.live = true → s.Reliable .memWrite ∧ ∃ p, s.process s.dbg.pid = some p

/-- The debug registers of a debuggee that can be accessed can be written, with the entries of
the table. -/
def Sys.SlotsWritable (s : Sys) : Prop :=
  s.dbg.live = true → s.Reliable .debugState ∧ s.Reliable .taskThreads ∧
    (∃ p, s.process s.dbg.pid = some p ∧ p.WellFormed ∧ p.threads ≠ []) ∧
    ∀ watch ∈ s.dbg.watchpoints, hwAccepts s.os.arch watch.addr watch.size = true

section Loop

variable {α : Type} {f : ℕ → DbgM Int} {table : Sys → List α} {Writable : Sys → Prop} {s : Sys}
  {order : List ℕ}

/-- Deleting in descending order leaves the other entries. -/
theorem wp_deleteAll (hf : ∀ i s, wp (f i) (fun rc s' => rc = 0 →
      i < (table s).length ∧ table s' = (table s).eraseIdx i) s)
    (hdesc : order.Pairwise (· > ·)) (hlt : ∀ i ∈ order, i < (table s).length) :
    wp (forUntil f order) (fun rc s' => rc = 0 → table s' = without order (table s)) s := by
  have hloop := wp_forUntil (f := f)
    (I := fun rest s' => rest.foldl List.eraseIdx (table s') = without order (table s))
    (E := fun rc _ => rc ≠ 0) (fun i rest s₁ h₁ => ?_) (foldl_eraseIdx hdesc hlt)
  · exact wp_mono hloop fun rc s' h hrc => h.1 hrc
  · refine wp_mono (hf i s₁) fun rc s₂ h₂ => ⟨fun hrc => ?_, fun hrc => hrc⟩
    rw [(h₂ hrc).2, ← h₁, List.foldl_cons]

/-- Deleting succeeds when every single deletion does. -/
theorem wp_deleteAll_succeeds (hf : ∀ i s, i < (table s).length → Writable s →
      wp (f i) (fun rc s' => rc = 0 ∧ Writable s' ∧ (table s').length + 1 = (table s).length) s)
    (hdesc : order.Pairwise (· > ·)) (hlt : ∀ i ∈ order, i < (table s).length) (h : Writable s) :
    wp (forUntil f order) (fun rc _ => rc = 0) s := by
  have hloop := wp_forUntil (f := f)
    (I := fun rest s' => rest.Pairwise (· > ·) ∧ (∀ i ∈ rest, i < (table s').length) ∧ Writable s')
    (E := fun _ _ => False) (fun i rest s₁ h₁ => ?_) ⟨hdesc, hlt, h⟩
  · refine wp_mono hloop fun rc s' h' => ?_
    by_contra hrc
    exact h'.2 hrc
  · obtain ⟨hdesc, hlt, h₁⟩ := h₁
    obtain ⟨hbelow, hdesc⟩ := List.pairwise_cons.mp hdesc
    have hi := hlt i List.mem_cons_self
    refine wp_mono (hf i s₁ hi h₁) fun rc s₂ ⟨hrc, h₂, hlen⟩ =>
      ⟨fun _ => ⟨hdesc, fun j hj => ?_, h₂⟩, fun hne => hne hrc⟩
    have hj := hbelow j hj
    omega

end Loop

/-! ### del -/

section Del

variable {s : Sys} {text : CStr} {Q : Int → Sys → Prop}

/-- What `del` does with a list of tokens. -/
theorem cmdDel_listed (hne : s.dbg.breakpoints ≠ []) (h : Listed text) :
    (cmdDel (some text)).run s =
      match deletionOrder s.dbg.breakpoints.length (fun xs n => xs ++ [n]) (trimSpace text) with
      | none => (-1, s)
      | some order => (forUntil deleteBreakpointAt order).run s := by
  cases htrim : trimSpace text with
  | nil => exact absurd htrim h.trim_ne_nil
  | cons c cs =>
    change (if s.dbg.breakpoints = [] then _ else _ : DbgM Int).run s = _
    rw [if_neg hne, Option.map_some, htrim]
    dsimp only
    cases deletionOrder s.dbg.breakpoints.length (fun xs n => xs ++ [n]) (c :: cs) with
    | none => rfl
    | some order => rfl

/-- A deletion that succeeds. -/
theorem wp_deleteBreakpointAt_table (i : ℕ) (s : Sys) :
    wp (deleteBreakpointAt i) (fun rc s' => rc = 0 → i < s.dbg.breakpoints.length ∧
      s'.dbg.breakpoints = s.dbg.breakpoints.eraseIdx i) s := by
  refine wp_deleteBreakpointAt (fun s' _ _ h => absurd h neg_one_ne) (fun bp hbp _ _ => ?_)
    fun bp p s' hbp _ _ hq _ => ?_
  · exact ⟨(List.getElem?_eq_some_iff.mp hbp).1, rfl⟩
  · obtain ⟨n, rfl⟩ := hq
    exact ⟨(List.getElem?_eq_some_iff.mp hbp).1, rfl⟩

/-- A deletion when the memory can be written. -/
theorem wp_deleteBreakpointAt_succeeds {i : ℕ} (hi : i < s.dbg.breakpoints.length)
    (h : s.MemWritable) : wp (deleteBreakpointAt i) (fun rc s' => rc = 0 ∧ s'.MemWritable ∧
      s'.dbg.breakpoints.length + 1 = s.dbg.breakpoints.length) s := by
  have hlen : (s.dbg.breakpoints.eraseIdx i).length + 1 = s.dbg.breakpoints.length := by
    rw [List.length_eraseIdx_of_lt hi]
    omega
  refine wp_deleteBreakpointAt (fun s' _ hfail => ?_) (fun bp _ _ => ⟨rfl, h, hlen⟩)
    fun bp p s' _ _ hp hq => ?_
  · obtain ⟨hlive, hnone⟩ := hfail _ (List.getElem?_eq_getElem hi)
    obtain ⟨hr, p, hp⟩ := h hlive
    rw [hnone hr] at hp
    exact absurd hp (by simp)
  · obtain ⟨n, rfl⟩ := hq
    refine ⟨rfl, fun hlive => ⟨(h hlive).1, _, Sys.process_eq_some.mpr ⟨rfl, ?_⟩⟩, hlen⟩
    exact (Sys.process_eq_some.mp hp).2

theorem cmdDel_deletesNamed : DeletesNamed cmdDel (·.dbg.breakpoints) maxBreakpoints
    (fun xs n => xs ++ [n]) Sys.MemWritable where
  rejects s text hne h hbad := by
    rw [cmdDel_listed hne h, deletionOrder_of_not_listed h hbad]
  succeeds s text hne hroom h hall hwritable := by
    obtain ⟨order, horder, hdesc, hlt, -⟩ := deletionOrder_of_listed h (fun _ _ _ _ _ => rfl) hall
    rw [wp, cmdDel_listed hne h, horder]
    exact wp_deleteAll_succeeds (fun _ _ => wp_deleteBreakpointAt_succeeds) hdesc hlt hwritable
  deletes s text hne hroom h hall := by
    obtain ⟨order, horder, hdesc, hlt, hiff⟩ :=
      deletionOrder_of_listed h (fun _ _ _ _ _ => rfl) hall
    rw [wp, cmdDel_listed hne h, horder]
    have hwithout : without order s.dbg.breakpoints =
        without (numbersOf (argTokens text)) s.dbg.breakpoints := without_congr fun i _ => hiff i
    exact wp_mono (wp_deleteAll wp_deleteBreakpointAt_table hdesc hlt) fun rc s' h' hrc =>
      (h' hrc).trans hwithout
  bounded count tokens stored hroom h :=
    Nat.le_trans (stored_of_parseIndices (fun _ _ _ _ _ => rfl) h).length_le hroom

end Del

/-! ### unwatch -/

section Unwatch

variable {s : Sys} {text : CStr}

/-- What `unwatch` does with a list of tokens. -/
theorem cmdUnwatch_listed (hne : s.dbg.watchpoints ≠ []) (h : Listed text) :
    (cmdUnwatch (some text)).run s =
      match deletionOrder s.dbg.watchpoints.length
          (fun xs n => if xs.length < wpMaxHw then xs ++ [n] else xs) (trimSpace text) with
      | none => (-1, s)
      | some order => (forUntil deleteWatchpointAt order).run s := by
  cases htrim : trimSpace text with
  | nil => exact absurd htrim h.trim_ne_nil
  | cons c cs =>
    change (if s.dbg.watchpoints = [] then _ else _ : DbgM Int).run s = _
    rw [if_neg hne, Option.map_some, htrim]
    dsimp only
    cases deletionOrder s.dbg.watchpoints.length
        (fun xs n => if xs.length < wpMaxHw then xs ++ [n] else xs) (c :: cs) with
    | none => rfl
    | some order => rfl

/-- Installing a watchpoint changes nothing of the debugger. -/
theorem wp_cdbgWpHwInstall_dbg (pid k : ℕ) (addr : Addr) (size : ℕ) (mode : WpMode) :
    wp (cdbgWpHwInstall pid k addr size mode) (fun _ s' => s'.dbg = s.dbg) s :=
  wp_mono (cdbgWpHwInstall_keeps pid k addr size mode s) fun _ _ h => congrArg (·.dbg) h

/-- The table after the entries from `i` on still have to be moved. -/
def shiftedTo (k i : ℕ) (wps : List Watchpoint) : List Watchpoint :=
  (wps.eraseIdx k).take (i - 1) ++ wps.drop (i - 1)

theorem shiftedTo_first {k : ℕ} {wps : List Watchpoint} (hk : k < wps.length) :
    shiftedTo k (k + 1) wps = wps := by
  rw [shiftedTo, Nat.add_sub_cancel, List.eraseIdx_eq_take_drop_succ,
    List.take_append_of_le_length (by rw [List.length_take]; omega), List.take_take, Nat.min_self,
    List.take_append_drop]

/-- One round of the loop in `delete_watchpoint_at`. -/
theorem shiftedTo_succ {k i : ℕ} {wps : List Watchpoint} (hki : k < i) (hi : i < wps.length) :
    (shiftedTo k i wps).set (i - 1) ((shiftedTo k i wps).getD i {}) = shiftedTo k (i + 1) wps := by
  have hlen : ((wps.eraseIdx k).take (i - 1)).length = i - 1 := by
    rw [List.length_take, List.length_eraseIdx_of_lt (by omega)]
    omega
  have hget : (shiftedTo k i wps).getD i {} = wps[i] := by
    rw [shiftedTo, List.getD_eq_getElem?_getD, List.getElem?_append_right (by omega), hlen,
      List.getElem?_drop, show i - 1 + (i - (i - 1)) = i by omega, List.getElem?_eq_getElem hi]
    rfl
  have hmoved : (wps.eraseIdx k)[i - 1]? = some wps[i] := by
    rw [List.getElem?_eraseIdx_of_ge (by omega), show i - 1 + 1 = i by omega,
      List.getElem?_eq_getElem hi]
  rw [hget, shiftedTo, List.set_append_right _ _ (by omega), hlen, Nat.sub_self,
    List.drop_eq_getElem_cons (show i - 1 < wps.length by omega), List.set_cons_zero, shiftedTo,
    Nat.add_sub_cancel, show i - 1 + 1 = i by omega]
  rw [show (wps.eraseIdx k).take i = (wps.eraseIdx k).take (i - 1 + 1) by
    rw [show i - 1 + 1 = i by omega], List.take_add_one, hmoved, List.append_assoc]
  rfl

/-- The loop of `delete_watchpoint_at`, with the entries from `i` on still to be moved. -/
theorem wp_shiftWatchpoints {k i : ℕ} {wps : List Watchpoint} (hki : k < i) (hi : i ≤ wps.length)
    (hs : s.dbg.watchpoints = shiftedTo k i wps) :
    wp (forUntil shiftWatchpoint (List.range' i (wps.length - i))) (fun rc s' => rc = 0 →
      s'.dbg = { s.dbg with watchpoints := shiftedTo k wps.length wps }) s := by
  obtain ⟨n, hn⟩ : ∃ n, wps.length - i = n := ⟨_, rfl⟩
  rw [hn]
  induction n generalizing i s with
  | zero =>
    obtain rfl : i = wps.length := by omega
    intro _
    rw [← hs]
    rfl
  | succ n ih =>
    rw [List.range'_succ, forUntil, wp_bind]
    have hround : wp (shiftWatchpoint i) (fun _ s' => s'.dbg = { s.dbg with
        watchpoints := shiftedTo k (i + 1) wps }) s := by
      rw [shiftWatchpoint, wp_bind, wp_get]
      dsimp only
      rw [wp_bind, wp_setWatchpoints, hs, shiftedTo_succ hki (by omega), wp_ite]
      refine ⟨fun _ => ?_, fun _ => rfl⟩
      rw [wp_bind]
      refine wp_mono (wp_cdbgWpHwInstall_dbg ..) fun rc s' h' => ?_
      rw [wp_ite]
      exact ⟨fun _ => h', fun _ => h'⟩
    refine wp_mono hround fun rc s₁ h₁ => ?_
    rw [wp_ite]
    refine ⟨fun hrc h0 => absurd h0 hrc, fun _ => ?_⟩
    refine wp_mono (ih (s := s₁) (i := i + 1) (by omega) (by omega) (by rw [h₁]) (by omega))
      fun rc s₂ h₂ hrc => ?_
    rw [h₂ hrc, h₁]

/-- A deletion that succeeds. -/
theorem wp_deleteWatchpointAt_dbg (k : ℕ) (s : Sys) :
    wp (deleteWatchpointAt k) (fun rc s' => rc = 0 → k < s.dbg.watchpoints.length ∧
      s'.dbg = { s.dbg with watchpoints := s.dbg.watchpoints.eraseIdx k }) s := by
  rw [deleteWatchpointAt, wp_bind, wp_get, wp_ite]
  refine ⟨fun _ h => absurd h neg_one_ne, fun hk => ?_⟩
  replace hk : k < s.dbg.watchpoints.length := Nat.lt_of_not_ge hk
  have hquiet : wp (uninstallIfLive s.dbg k) (fun _ s' => s'.dbg = s.dbg) s := by
    rw [uninstallIfLive, wp_ite]
    exact ⟨fun _ => wp_mono (cdbgWpHwUninstall_keeps s.dbg.pid k s) fun _ _ h =>
      congrArg (·.dbg) h, fun _ => rfl⟩
  rw [wp_bind]
  refine wp_mono hquiet fun rc s₁ h₁ => ?_
  rw [wp_ite]
  refine ⟨fun _ h => absurd h neg_one_ne, fun _ => ?_⟩
  have hfirst : s₁.dbg.watchpoints = shiftedTo k (k + 1) s.dbg.watchpoints := by
    rw [h₁, shiftedTo_first hk]
  rw [wp_bind]
  refine wp_mono (wp_shiftWatchpoints (Nat.lt_succ_self k) hk hfirst) fun rc s₂ h₂ => ?_
  rw [wp_ite]
  refine ⟨fun _ h => absurd h neg_one_ne, fun hrc => ?_⟩
  have hlast : (shiftedTo k s.dbg.watchpoints.length s.dbg.watchpoints).dropLast =
      s.dbg.watchpoints.eraseIdx k := by
    have hlen := List.length_eraseIdx_of_lt hk
    have hdrop : s.dbg.watchpoints.drop (s.dbg.watchpoints.length - 1) =
        [s.dbg.watchpoints[s.dbg.watchpoints.length - 1]] := by
      rw [List.drop_eq_getElem_cons (by omega), List.drop_of_length_le (by omega)]
    rw [shiftedTo, List.take_of_length_le (by omega), hdrop, List.dropLast_concat]
  rw [wp_bind, wp_get, wp_bind, wp_setWatchpoints]
  intro _
  refine ⟨hk, ?_⟩
  change { s₂.dbg with watchpoints := s₂.dbg.watchpoints.dropLast } = _
  rw [h₂ (not_not.mp hrc), h₁, hlast]

theorem Sys.SlotsWritable.setSlot {p : Process} {i : Fin wpMaxHw} {slot : Option HwSlot}
    {calls : KernelCalls}
    (h : s.SlotsWritable) (hp : s.process s.dbg.pid = some p) : Sys.SlotsWritable
      { s.withProc (p.setSlot i slot) with
        os := { (s.withProc (p.setSlot i slot)).os with calls := calls } } := by
  intro hlive
  obtain ⟨hdebug, htasks, ⟨q, hq, hwf, hne⟩, hacc⟩ := h hlive
  obtain rfl := Option.some.inj (hp.symm.trans hq)
  have htids : (p.setSlot i slot).threads.map (·.tid) = p.threads.map (·.tid) := by
    rw [Process.setSlot, Process.eachThread, List.map_map]
    rfl
  refine ⟨hdebug, htasks, ⟨_, Sys.process_eq_some.mpr ⟨rfl, (Sys.process_eq_some.mp hp).2⟩,
    Process.wellFormed_of_tids htids rfl hwf, ?_⟩, hacc⟩
  exact fun hnil => hne (List.map_eq_nil_iff.mp hnil)

/-- A table of accepted entries may be changed to another one. -/
theorem Sys.SlotsWritable.withTable {wps : List Watchpoint} (h : s.SlotsWritable)
    (hacc : ∀ watch ∈ wps, watch ∈ s.dbg.watchpoints) :
    (s.withDbg { s.dbg with watchpoints := wps }).SlotsWritable := fun hlive =>
  ⟨(h hlive).1, (h hlive).2.1, (h hlive).2.2.1, fun watch hw =>
    (h hlive).2.2.2 watch (hacc watch hw)⟩

/-- Installing an entry of the table. -/
theorem wp_cdbgWpHwInstall_succeeds {k : ℕ} {watch : Watchpoint} (hk : k < wpMaxHw)
    (hlive : s.dbg.live = true) (h : s.SlotsWritable) (hw : watch ∈ s.dbg.watchpoints) :
    wp (cdbgWpHwInstall s.dbg.pid k watch.addr watch.size watch.mode)
      (fun rc s' => rc = 0 ∧ s'.SlotsWritable) s := by
  obtain ⟨hdebug, htasks, ⟨p, hp, hwf, hne⟩, hacc⟩ := h hlive
  refine wp_cdbgWpHwInstall hdebug (fun q hq => ?_) (fun s' _ hnil => ?_) fun q s' _ hq _ hs' => ?_
  · obtain rfl := Option.some.inj (hp.symm.trans hq)
    exact hwf
  · exact absurd (hnil htasks hk (hacc watch hw) p hp) hne
  · obtain ⟨n, rfl⟩ := hs'
    exact ⟨rfl, h.setSlot hq⟩

theorem wp_uninstallIfLive_succeeds {k : ℕ} (hk : k < wpMaxHw) (h : s.SlotsWritable) :
    wp (uninstallIfLive s.dbg k) (fun rc s' => rc = 0 ∧ s'.SlotsWritable) s := by
  rw [uninstallIfLive, wp_ite]
  refine ⟨fun hlive => ?_, fun _ => ⟨rfl, h⟩⟩
  obtain ⟨hdebug, htasks, ⟨p, hp, hwf, hne⟩, hacc⟩ := h hlive
  refine wp_cdbgWpHwUninstall hdebug (fun q hq => ?_) (fun s' _ hnil => ?_) fun q s' _ hq hs' => ?_
  · obtain rfl := Option.some.inj (hp.symm.trans hq)
    exact hwf
  · exact absurd (hnil htasks hk p hp) hne
  · obtain ⟨n, rfl⟩ := hs'
    exact ⟨rfl, h.setSlot hq⟩

/-- A deletion when the debug registers can be written. -/
theorem wp_deleteWatchpointAt_succeeds {k : ℕ} (hk : k < s.dbg.watchpoints.length)
    (hroom : s.dbg.watchpoints.length ≤ wpMaxHw) (h : s.SlotsWritable) :
    wp (deleteWatchpointAt k) (fun rc s' => rc = 0 ∧ s'.SlotsWritable) s := by
  rw [deleteWatchpointAt, wp_bind, wp_get, wp_ite]
  refine ⟨fun hge => absurd hk (Nat.not_lt.mpr hge), fun _ => ?_⟩
  rw [wp_bind]
  have hdbg : wp (uninstallIfLive s.dbg k) (fun _ s' => s'.dbg = s.dbg) s := by
    rw [uninstallIfLive, wp_ite]
    exact ⟨fun _ => wp_mono (cdbgWpHwUninstall_keeps s.dbg.pid k s) fun _ _ h =>
      congrArg (·.dbg) h, fun _ => rfl⟩
  refine wp_mono (wp_and (wp_uninstallIfLive_succeeds (by omega) h) hdbg)
    fun rc s₁ ⟨⟨hrc, h₁⟩, hdbg₁⟩ => ?_
  rw [wp_ite]
  refine ⟨fun h0 => absurd hrc h0, fun _ => ?_⟩
  have hloop := wp_forUntil (f := shiftWatchpoint) (I := fun rest s' => (∀ i ∈ rest, i < s.dbg.watchpoints.length) ∧ s'.SlotsWritable ∧
      s'.dbg.watchpoints.length = s.dbg.watchpoints.length)
    (E := fun _ _ => False) (fun i rest s₂ h₂ => ?_) (s := s₁)
    ⟨fun i (hi : i ∈ List.range' (k + 1) (s.dbg.watchpoints.length - (k + 1))) => ?_, h₁,
      by rw [hdbg₁]⟩
  · rw [wp_bind]
    refine wp_mono hloop fun rc s₂ h₂ => ?_
    rw [wp_ite]
    refine ⟨fun h0 => (h₂.2 h0).elim, fun h0 => ?_⟩
    rw [wp_bind, wp_get, wp_bind, wp_setWatchpoints]
    exact ⟨rfl, (h₂.1 (not_not.mp h0)).2.1.withTable fun watch hw => List.dropLast_subset _ hw⟩
  · obtain ⟨hrest, hw₂, hlen⟩ := h₂
    have hi := hrest i List.mem_cons_self
    have hmem : s₂.dbg.watchpoints.getD i {} ∈ s₂.dbg.watchpoints := by
      rw [List.getD_eq_getElem?_getD, List.getElem?_eq_getElem (by omega)]
      exact List.getElem_mem _
    rw [shiftWatchpoint, wp_bind, wp_get]
    dsimp only
    generalize s₂.dbg.watchpoints.getD i {} = watch at hmem
    have hset : ∀ w ∈ s₂.dbg.watchpoints.set (i - 1) watch, w ∈ s₂.dbg.watchpoints := by
      intro w hw
      rcases List.mem_or_eq_of_mem_set hw with hw | rfl
      · exact hw
      · exact hmem
    have hlen' : (s₂.dbg.watchpoints.set (i - 1) watch).length = s.dbg.watchpoints.length := by
      rw [List.length_set, hlen]
    rw [wp_bind, wp_setWatchpoints, wp_ite]
    refine ⟨fun hlive => ?_, fun _ => ?_⟩
    · rw [wp_bind]
      have hwatch : watch ∈ s₂.dbg.watchpoints.set (i - 1) watch :=
        List.mem_set (by omega) watch
      have h₃ := hw₂.withTable hset
      have hinstall := wp_cdbgWpHwInstall_succeeds (s := s₂.withDbg { s₂.dbg with
        watchpoints := s₂.dbg.watchpoints.set (i - 1) watch }) (k := i - 1) (by omega) hlive h₃
        hwatch
      refine wp_mono (wp_and hinstall (wp_cdbgWpHwInstall_dbg ..)) fun rc s₃ h₃ => ?_
      obtain ⟨⟨hrc, h₃⟩, hdbg₃⟩ := h₃
      rw [wp_ite]
      refine ⟨fun h0 => absurd hrc h0, fun _ => ⟨fun _ => ⟨fun j hj => ?_, h₃, ?_⟩, fun h0 => ?_⟩⟩
      · exact hrest j (List.mem_cons_of_mem _ hj)
      · exact (congrArg (·.watchpoints.length) hdbg₃).trans hlen'
      · exact absurd rfl h0
    · refine ⟨fun _ => ⟨fun j hj => ?_, hw₂.withTable hset, hlen'⟩, fun h0 => absurd rfl h0⟩
      exact hrest j (List.mem_cons_of_mem _ hj)
  · have hi := List.mem_range'_1.mp hi
    omega

/-- The buffer of `unwatch` has room for every new number. -/
theorem storeUnwatch {count : ℕ} (hroom : count ≤ wpMaxHw) (stored : List ℕ) (n : ℕ)
    (h : Stored count stored) (hnew : n ∉ stored) (hlt : n < count) :
    (if stored.length < wpMaxHw then stored ++ [n] else stored) = stored ++ [n] := by
  have hlen := (h.store hnew hlt).length_le
  rw [List.length_append, List.length_singleton] at hlen
  exact if_pos (by omega)

theorem cmdUnwatch_deletesNamed : DeletesNamed cmdUnwatch (·.dbg.watchpoints) wpMaxHw
    (fun xs n => if xs.length < wpMaxHw then xs ++ [n] else xs) Sys.SlotsWritable where
  rejects s text hne h hbad := by
    rw [cmdUnwatch_listed hne h, deletionOrder_of_not_listed h hbad]
  succeeds s text hne hroom h hall hwritable := by
    obtain ⟨order, horder, hdesc, hlt, -⟩ := deletionOrder_of_listed h (storeUnwatch hroom) hall
    rw [wp, cmdUnwatch_listed hne h, horder]
    refine @wp_deleteAll_succeeds _ _ (·.dbg.watchpoints)
      (fun s => s.SlotsWritable ∧ s.dbg.watchpoints.length ≤ wpMaxHw) _ _ (fun i s hi h => ?_) hdesc hlt ⟨hwritable, hroom⟩
    refine wp_mono (wp_and (wp_deleteWatchpointAt_succeeds hi h.2 h.1)
      (wp_deleteWatchpointAt_dbg i s)) fun rc s' hrun => ?_
    obtain ⟨⟨hrc, h'⟩, hdbg⟩ := hrun
    have hlen : s'.dbg.watchpoints.length + 1 = s.dbg.watchpoints.length := by
      rw [(hdbg hrc).2, List.length_eraseIdx_of_lt hi]
      omega
    have hroom := h.2
    exact ⟨hrc, ⟨h', by omega⟩, hlen⟩
  deletes s text hne hroom h hall := by
    obtain ⟨order, horder, hdesc, hlt, hiff⟩ :=
      deletionOrder_of_listed h (storeUnwatch hroom) hall
    rw [wp, cmdUnwatch_listed hne h, horder]
    have hwithout : without order s.dbg.watchpoints =
        without (numbersOf (argTokens text)) s.dbg.watchpoints := without_congr fun i _ => hiff i
    refine wp_mono (@wp_deleteAll _ _ (·.dbg.watchpoints) _ _ (fun i s => ?_) hdesc hlt)
      fun rc s' h' hrc => (h' hrc).trans hwithout
    exact wp_mono (wp_deleteWatchpointAt_dbg i s) fun rc s' h hrc =>
      ⟨(h hrc).1, congrArg (·.watchpoints) (h hrc).2⟩
  bounded count tokens stored hroom h :=
    Nat.le_trans (stored_of_parseIndices (storeUnwatch hroom) h).length_le hroom

end Unwatch

/-- `del` and `unwatch` delete exactly the named entries, or nothing. -/
theorem del_unwatch_deletesNamed :
    DeletesNamed cmdDel (·.dbg.breakpoints) maxBreakpoints (fun xs n => xs ++ [n])
        Sys.MemWritable ∧
      DeletesNamed cmdUnwatch (·.dbg.watchpoints) wpMaxHw
        (fun xs n => if xs.length < wpMaxHw then xs ++ [n] else xs) Sys.SlotsWritable :=
  ⟨cmdDel_deletesNamed, cmdUnwatch_deletesNamed⟩

/-- Three breakpoints. -/
def threeBreakpoints : Sys :=
  let place (target : CStr) (s : Sys) : Sys := ((cmdBreak target).run s).2
  place "0x3000".toList (place "0x2000".toList (place "0x1000".toList
    (Sys.attached .x86_64 twoThreads fun _ => .stopped 5 [])))

/-- Three watchpoints. -/
def threeWatchpoints : Sys :=
  let set (expr : CStr) (addr : Addr) (s : Sys) : Sys :=
    ((cmdWatch (some expr) (some (addr, 8))).run s).2
  set "c".toList 0x3000 (set "b".toList 0x2000 (set "a".toList 0x1000
    (Sys.attached .x86_64 twoThreads fun _ => .stopped 5 [])))

/-- Numbers that are repeated and in no order are deleted once each; with one that is too large
nothing is. -/
theorem del_unwatch_deletesNamed_three :
    ((cmdDel (some "2 0 2".toList)).run threeBreakpoints).1 = 0 ∧
      ((cmdDel (some "2 0 2".toList)).run threeBreakpoints).2.dbg.breakpoints.map (·.addr) =
        [0x2000] ∧
      (cmdDel (some "0 3".toList)).run threeBreakpoints = (-1, threeBreakpoints) ∧
      ((cmdUnwatch (some "0 1 0".toList)).run threeWatchpoints).1 = 0 ∧
      ((cmdUnwatch (some "0 1 0".toList)).run threeWatchpoints).2.dbg.watchpoints.map (·.addr) =
        [0x3000] ∧
      (cmdUnwatch (some "x 0".toList)).run threeWatchpoints = (-1, threeWatchpoints) := by
  obtain ⟨hdel, hunwatch⟩ := del_unwatch_deletesNamed
  have htwo : Listed "2 0 2".toList := ⟨by decide, by decide, by decide⟩
  have hzero : Listed "0 1 0".toList := ⟨by decide, by decide, by decide⟩
  have hbps : threeBreakpoints.dbg.breakpoints.length = 3 := by decide +kernel
  have hwps : threeWatchpoints.dbg.watchpoints.length = 3 := by decide +kernel
  have hbne : threeBreakpoints.dbg.breakpoints ≠ [] := List.ne_nil_of_length_pos (by omega)
  have hwne : threeWatchpoints.dbg.watchpoints ≠ [] := List.ne_nil_of_length_pos (by omega)
  have hmem : threeBreakpoints.MemWritable := by
    have hproc : (threeBreakpoints.process threeBreakpoints.dbg.pid).isSome = true := by
      decide +kernel
    exact fun _ => ⟨fun _ => rfl, Option.isSome_iff_exists.mp hproc⟩
  have hslots : threeWatchpoints.SlotsWritable := by
    have hproc : (threeWatchpoints.process threeWatchpoints.dbg.pid).isSome = true := by
      decide +kernel
    have hids : threeWatchpoints.os.proc.map Process.ids = some twoThreads.ids := by decide +kernel
    obtain ⟨p, hp⟩ := Option.isSome_iff_exists.mp hproc
    rw [(Sys.process_eq_some.mp hp).1, Option.map_some, Option.some_inj] at hids
    have htids : p.threads.map (·.tid) = twoThreads.threads.map (·.tid) :=
      congrArg (·.2.2) hids
    have hthreads : p.threads ≠ [] := by
      intro hnil
      rw [hnil] at htids
      cases htids
    exact fun _ => ⟨fun _ => rfl, fun _ => rfl, ⟨p, hp, Process.wellFormed_of_tids htids
      (congrArg (·.2.1) hids) twoThreads_wellFormed, hthreads⟩, by decide +kernel⟩
  have hbtwo : ∀ token ∈ argTokens "2 0 2".toList,
      Numbers threeBreakpoints.dbg.breakpoints.length token := by
    rw [hbps]
    decide
  have hwzero : ∀ token ∈ argTokens "0 1 0".toList,
      Numbers threeWatchpoints.dbg.watchpoints.length token := by
    rw [hwps]
    decide
  have hdeleted := hdel.succeeds _ _ hbne (by rw [hbps]; decide) htwo hbtwo hmem
  have hunwatched := hunwatch.succeeds _ _ hwne (by rw [hwps]; decide) hzero hwzero hslots
  have hleft := hdel.deletes _ _ hbne (by rw [hbps]; decide) htwo hbtwo hdeleted
  have hkept := hunwatch.deletes _ _ hwne (by rw [hwps]; decide) hzero hwzero hunwatched
  refine ⟨hdeleted, ?_, hdel.rejects _ _ hbne ⟨by decide, by decide, by decide⟩ ?_, hunwatched,
    ?_, hunwatch.rejects _ _ hwne ⟨by decide, by decide, by decide⟩ ?_⟩
  · rw [hleft]
    decide +kernel
  · rw [hbps]
    decide
  · rw [hkept]
    decide +kernel
  · rw [hwps]
    decide

end Debugger
