/-
The numbers that `show bp` and `show watch` print.

A listing has a line for each entry of the table, with its number in front.  The numbers are
what `del` and `unwatch` take: a command line made of the numbers read off some of the lines
deletes exactly the entries of these lines, and the table listed afterwards has the other lines,
numbered anew (`shown_numbers_delete`).
-/
import Debugger.DisasmLines
import Debugger.LineLookups
import Debugger.NamedEntries
import Debugger.Relocation
import Debugger.Repl
import Debugger.RoundTrip
import Debugger.SymNames
import Debugger.WatchFlags

open Prog

namespace Debugger

/-! ### Lines of a listing -/

/-- A line with a number in front, `%-4zu `. -/
def numberedRow (i : ℕ) (rest : CStr) : CStr :=
  padRight 4 (Nat.toDigits 10 i) ++ ' ' :: rest

/-- The lines printed for a table: one for an empty table, otherwise a header and the rows. -/
def tableLines (nothing header : CStr) (rests : List CStr) : List CStr :=
  if rests = [] then [nothing] else header :: rests.mapIdx numberedRow

/-- The number in front of a row. -/
def rowNumber (row : CStr) : CStr := row.takeWhile (· ≠ ' ')

/-- The columns behind the number. -/
def rowRest (row : CStr) : CStr := row.drop 5

/-- The columns `Enb` and `Address`. -/
def enabledAt (enabled : Bool) (addr : Addr) : CStr :=
  padRight 4 (if enabled then ['y'] else ['n']) ++ ' ' :: hexNumeral 16 addr

/-- `sizeof(symloc)` -/
def symlocSize : ℕ := 64

/-- The symbol in the column `Location`, empty when there is none. -/
def symbolLocation (d : Cdbg) (addr : Addr) : CStr :=
  match lookupSymbolForPc d.syms addr with
  | none => []
  | some (sym, offset) =>
    if offset = 0 then snprintf symlocSize (displaySymName (some sym))
    else
      snprintf symlocSize (displaySymName (some sym) ++ "+0x".toList ++
        Nat.toDigits 16 offset.toNat)

/-- The column `Location`. -/
def breakpointLocation (d : Cdbg) (addr : Addr) : CStr :=
  let symloc := symbolLocation d addr
  match d.lineno.lineAtPc addr with
  | some (file, line) =>
    let place := file ++ ':' :: Nat.toDigits 10 line.toNat
    snprintf (maxFile + 64) (if symloc ≠ [] then symloc ++ " at ".toList ++ place else place)
  | none => if symloc ≠ [] then snprintf (maxFile + 64) symloc else "<unknown>".toList

/-- A row of `cmd_show_breakpoints` behind its number. -/
def breakpointColumns (d : Cdbg) (bp : Breakpoint) : CStr :=
  enabledAt bp.enabled bp.addr ++ "  ".toList ++ breakpointLocation d bp.addr

def noBreakpoints : CStr := "No breakpoints.".toList

def breakpointHeader : CStr :=
  padRight 4 "Num".toList ++ ' ' :: padRight 4 "Enb".toList ++ ' ' ::
    padRight 18 "Address".toList ++ "  Location".toList

/-- `cmd_show_breakpoints` -/
def cmdShowBreakpoints (d : Cdbg) : List CStr :=
  tableLines noBreakpoints breakpointHeader (d.breakpoints.map (breakpointColumns d))

/-- A row of `cmd_show_watchpoints` behind its number, up to the text of the expression. -/
def watchpointColumns (watch : Watchpoint) : CStr :=
  enabledAt watch.enabled watch.addr ++ ' ' :: padRight 6 (Nat.toDigits 10 watch.size) ++
    " 0x".toList ++ padRight 6 (Nat.toDigits 16 watch.oldValue.toNat)

def noWatchpoints : CStr := "No watchpoints.".toList

def watchpointHeader : CStr :=
  padRight 4 "Num".toList ++ ' ' :: padRight 4 "Enb".toList ++ ' ' ::
    padRight 18 "Address".toList ++ ' ' :: padRight 6 "Size".toList ++ ' ' ::
    padRight 8 "Value".toList ++ " Expression".toList

/-- `cmd_show_watchpoints` -/
def cmdShowWatchpoints (d : Cdbg) : List CStr :=
  tableLines noWatchpoints watchpointHeader (d.watchpoints.map watchpointColumns)

/-! ### Reading a listing -/

section Rows

variable {i : ℕ} {rest : CStr} {rests : List CStr}

/-- A number consists of digits. -/
theorem toDigits_ne_blank {c : Char} (h : c ∈ Nat.toDigits 10 i) : isspace c = false :=
  (not_space_of_digit (by rw [digitValue_of_isDigit (isDigit_of_mem_toDigits h)]; rfl)).1

theorem rowNumber_numberedRow : rowNumber (numberedRow i rest) = Nat.toDigits 10 i := by
  have hdigits : ∀ c ∈ Nat.toDigits 10 i, decide (c ≠ ' ') = true := by
    intro c hc
    have hspace := toDigits_ne_blank hc
    refine decide_eq_true fun h => ?_
    subst h
    exact absurd hspace (by decide)
  have hblank : ∀ n, (List.replicate n ' ' ++ ' ' :: rest).takeWhile (· ≠ ' ') = [] := by
    intro n
    cases n <;> rfl
  rw [rowNumber, numberedRow, padRight, List.append_assoc,
    List.takeWhile_append_of_pos hdigits, hblank, List.append_nil]

theorem rowRest_numberedRow (hi : i < 10000) : rowRest (numberedRow i rest) = rest := by
  have hdigits : (Nat.toDigits 10 i).length ≤ 4 :=
    (Nat.length_toDigits_le_iff (by decide) (by decide)).mpr hi
  have hlen : (padRight 4 (Nat.toDigits 10 i) ++ [' ']).length = 5 := by
    rw [List.length_append, padRight, List.length_append, List.length_replicate,
      List.length_singleton]
    omega
  rw [rowRest, numberedRow, List.append_cons, ← hlen, List.drop_left]

theorem tableLines_row {nothing header : CStr} (hi : i < rests.length) :
    (tableLines nothing header rests)[i + 1]? = some (numberedRow i (rests[i])) := by
  have hne : rests ≠ [] := List.ne_nil_of_length_pos (Nat.zero_lt_of_lt hi)
  rw [tableLines, if_neg hne, List.getElem?_cons_succ, List.getElem?_mapIdx,
    List.getElem?_eq_getElem hi]
  rfl

/-- The columns of all rows. -/
theorem map_rowRest_tail {nothing header : CStr} (hlen : rests.length ≤ 10000) :
    (tableLines nothing header rests).tail.map rowRest = rests := by
  by_cases hne : rests = []
  · rw [tableLines, if_pos hne, hne]
    rfl
  rw [tableLines, if_neg hne, List.tail_cons]
  refine List.ext_getElem? fun i => ?_
  rw [List.getElem?_map, List.getElem?_mapIdx]
  by_cases hi : i < rests.length
  · rw [List.getElem?_eq_getElem hi]
    exact congrArg some (rowRest_numberedRow (by omega))
  · rw [List.getElem?_eq_none (Nat.le_of_not_lt hi)]
    rfl

end Rows

/-! ### Typing numbers -/

/-- The numbers of some rows, one behind the other. -/
def typedNumbers (rows : List CStr) : CStr := [' '].intercalate (rows.map rowNumber)

section Typing

/-- A number is read back by `parse_u64`. -/
theorem parseU64_toDigits {n : ℕ} (hn : n < 2 ^ 64) :
    parseU64 (Nat.toDigits 10 n) = some (UInt64.ofNat n) := by
  by_cases h0 : n = 0
  · subst h0
    decide
  obtain ⟨c, cs, hcs, hc⟩ := head_toDigits (Nat.pos_of_ne_zero h0)
  have hdigit : isDigit c = true := isDigit_of_mem_toDigits (hcs ▸ List.mem_cons_self)
  have hsome : (digitValue 10 c).isSome = true := by
    rw [digitValue_of_isDigit hdigit]
    rfl
  have hvalue : digits 10 0 (c :: cs) = (n, []) := by
    rw [← hcs, ← List.append_nil (Nat.toDigits 10 n)]
    exact digits_numeral n (by decide)
  have hbase : detectBase (c :: cs) = (10, c :: cs) := by
    rw [detectBase]
    · exact fun _ _ _ h => hc (List.cons.inj h).1
    · exact fun _ h => hc (List.cons.inj h).1
  have hspace := (not_space_of_digit hsome).1
  rw [parseU64, strtoull, hcs, List.dropWhile_cons_of_neg (by rw [hspace]; decide),
    sign_of_digit hsome]
  simp only [hbase, hsome, hvalue, if_true, if_pos hn, Bool.false_eq_true, if_false]

/-- Words with a blank between them are the tokens of their text. -/
theorem strtok_intercalate : ∀ {words : List CStr},
    (∀ w ∈ words, IsWord w ∧ w ≠ []) → strtok ([' '].intercalate words) = words := by
  intro words
  induction words with
  | nil => exact fun _ => rfl
  | cons w words ih =>
    intro h
    obtain ⟨⟨hword, hne⟩, hrest⟩ := List.forall_mem_cons.mp h
    have hsep : ∀ c ∈ w, (c = ' ' || c = '\t' : Bool) = false := by
      intro c hc
      have hspace := hword c hc
      by_contra hsep
      rw [Bool.not_eq_false, Bool.or_eq_true, decide_eq_true_eq, decide_eq_true_eq] at hsep
      rcases hsep with rfl | rfl <;> exact absurd hspace (by decide)
    cases words with
    | nil =>
      rw [List.intercalate_singleton, strtok, List.splitOnP_eq_singleton hsep,
        List.filter_cons_of_pos (by simpa using hne)]
      rfl
    | cons w' words =>
      rw [List.intercalate_cons_cons, strtok, List.append_assoc, List.singleton_append,
        List.splitOnP_append_cons_of_forall_mem hsep ' ' (by decide),
        List.filter_cons_of_pos (by simpa using hne)]
      exact congrArg (w :: ·) (ih hrest)

/-- The last character of such a text. -/
theorem intercalate_words_last : ∀ {words : List CStr}, (∀ w ∈ words, IsWord w ∧ w ≠ []) →
    words ≠ [] →
      ∃ front c, [' '].intercalate words = front ++ [c] ∧ isspace c = false := by
  intro words
  induction words with
  | nil => exact fun _ hne => absurd rfl hne
  | cons w words ih =>
    intro h _
    obtain ⟨⟨hword, hne⟩, hrest⟩ := List.forall_mem_cons.mp h
    cases words with
    | nil =>
      refine ⟨w.dropLast, w.getLast hne, ?_, hword _ (List.getLast_mem hne)⟩
      rw [List.intercalate_singleton, List.dropLast_concat_getLast]
    | cons w' words =>
      obtain ⟨front, c, heq, hc⟩ := ih hrest (List.cons_ne_nil _ _)
      refine ⟨w ++ [' '] ++ front, c, ?_, hc⟩
      rw [List.intercalate_cons_cons, heq]
      simp only [List.append_assoc]

/-- Such a text has no white space at its ends. -/
theorem trimSpace_intercalate {words : List CStr} (h : ∀ w ∈ words, IsWord w ∧ w ≠ []) :
    trimSpace ([' '].intercalate words) = [' '].intercalate words := by
  cases words with
  | nil => rfl
  | cons w words =>
    obtain ⟨hword, hne⟩ := h w List.mem_cons_self
    obtain ⟨c, cs, rfl⟩ := List.exists_cons_of_ne_nil hne
    obtain ⟨tail, htail⟩ : ∃ tail, [' '].intercalate ((c :: cs) :: words) = c :: tail := by
      cases words with
      | nil => exact ⟨cs, List.intercalate_singleton⟩
      | cons w' words => exact ⟨_, List.intercalate_cons_cons⟩
    obtain ⟨front, d, heq, hd⟩ := intercalate_words_last h (List.cons_ne_nil _ _)
    have hc := hword c List.mem_cons_self
    rw [trimSpace, htail, List.dropWhile_cons_of_neg (by rw [hc]; decide), ← htail, heq,
      List.reverse_append, List.reverse_singleton, List.singleton_append,
      List.dropWhile_cons_of_neg (by rw [hd]; decide), List.reverse_cons, List.reverse_reverse]

variable {picked : List ℕ}

/-- The words of a text made of the numbers of rows. -/
theorem numerals_isWord : ∀ w ∈ picked.map (Nat.toDigits 10), IsWord w ∧ w ≠ [] := by
  intro w hw
  obtain ⟨i, -, rfl⟩ := List.mem_map.mp hw
  exact ⟨fun c hc => toDigits_ne_blank hc, Nat.toDigits_ne_nil⟩

theorem argTokens_numerals :
    argTokens ([' '].intercalate (picked.map (Nat.toDigits 10))) =
      picked.map (Nat.toDigits 10) := by
  rw [argTokens, trimSpace_intercalate numerals_isWord, strtok_intercalate numerals_isWord]

theorem numbersOf_numerals (hsmall : ∀ i ∈ picked, i < 2 ^ 64) :
    numbersOf (picked.map (Nat.toDigits 10)) = picked := by
  induction picked with
  | nil => rfl
  | cons i picked ih =>
    obtain ⟨hi, hrest⟩ := List.forall_mem_cons.mp hsmall
    have hcons : numbersOf (List.map (Nat.toDigits 10) (i :: picked)) =
        (UInt64.ofNat i).toNat :: numbersOf (picked.map (Nat.toDigits 10)) :=
      List.filterMap_cons_some (by rw [parseU64_toDigits hi]; rfl)
    rw [hcons, ih hrest, UInt64.toNat_ofNat_of_lt' hi]

/-- Such a text is an argument of `del` and `unwatch`. -/
theorem listed_numerals (hne : picked ≠ [])
    (hfits : ([' '].intercalate (picked.map (Nat.toDigits 10))).length < maxCmd) :
    Listed ([' '].intercalate (picked.map (Nat.toDigits 10))) where
  tokens := by
    rw [argTokens_numerals]
    exact fun h => hne (List.map_eq_nil_iff.mp h)
  notAll := by
    intro hall
    obtain ⟨i, picked, rfl⟩ := List.exists_cons_of_ne_nil hne
    have htokens := @argTokens_numerals (i :: picked)
    rw [argTokens, hall] at htokens
    have hword : Nat.toDigits 10 i = "all".toList := (List.cons.inj htokens).1.symm
    have hdigit := isDigit_of_mem_toDigits (n := i) (hword ▸ (by decide : 'a' ∈ "all".toList))
    exact absurd hdigit (by decide)
  fits := by
    rw [trimSpace_intercalate numerals_isWord]
    exact hfits

/-- A command that deletes the entries its argument names deletes those whose rows show the
numbers. -/
theorem DeletesNamed.typed {α : Type} {cmd : Option CStr → DbgM Int} {table : Sys → List α}
    {room : ℕ} {push : List ℕ → ℕ → List ℕ} {Writable : Sys → Prop}
    (h : DeletesNamed cmd table room push Writable) {s : Sys} {text : CStr}
    (htext : text = [' '].intercalate (picked.map (Nat.toDigits 10))) (hne : picked ≠ [])
    (hlt : ∀ i ∈ picked, i < (table s).length) (hroom : (table s).length ≤ room)
    (hsmall : room ≤ 10000) (hfits : text.length < maxCmd) :
    (Writable s → wp (cmd (some text)) (fun rc _ => rc = 0) s) ∧
      wp (cmd (some text)) (fun rc s' => rc = 0 → table s' = without picked (table s)) s := by
  have hsmall' : ∀ i ∈ picked, i < 2 ^ 64 := fun i hi => by
    have hi := hlt i hi
    omega
  have hnonempty : table s ≠ [] := by
    obtain ⟨i, rest, rfl⟩ := List.exists_cons_of_ne_nil hne
    exact List.ne_nil_of_length_pos (Nat.zero_lt_of_lt (hlt i List.mem_cons_self))
  have hlisted : Listed text := by
    rw [htext] at hfits ⊢
    exact listed_numerals hne hfits
  have htokens : argTokens text = picked.map (Nat.toDigits 10) := by
    rw [htext, argTokens_numerals]
  have hall : ∀ token ∈ argTokens text, Numbers (table s).length token := by
    intro token htoken
    rw [htokens] at htoken
    obtain ⟨i, hi, rfl⟩ := List.mem_map.mp htoken
    refine ⟨UInt64.ofNat i, parseU64_toDigits (hsmall' i hi), ?_⟩
    rw [UInt64.toNat_ofNat_of_lt' (hsmall' i hi)]
    exact hlt i hi
  refine ⟨h.succeeds s text hnonempty hroom hlisted hall, ?_⟩
  have hdeletes := h.deletes s text hnonempty hroom hlisted hall
  rwa [htokens, numbersOf_numerals hsmall'] at hdeletes

end Typing

/-! ### Listing, and deleting what is listed -/

section Deleting

variable {s : Sys} {picked : List ℕ}

/-- The columns of a row depend on the entry and on what its location is looked up in. -/
theorem breakpointColumns_congr {s s' : Sys} (h : s'.loaded = s.loaded) (bp : Breakpoint) :
    breakpointColumns s'.dbg bp = breakpointColumns s.dbg bp := by
  have hln : s'.dbg.lineno = s.dbg.lineno := congrArg (·.2.2.1) h
  have hsyms : s'.dbg.syms = s.dbg.syms := congrArg (·.2.2.2) h
  rw [breakpointColumns, breakpointColumns, breakpointLocation, breakpointLocation, symbolLocation,
    symbolLocation, hln, hsyms]

/-- The text typed from rows of a listing. -/
theorem typedNumbers_rows {nothing header : CStr} {rests : List CStr}
    (hlt : ∀ i ∈ picked, i < rests.length) :
    typedNumbers (picked.map fun i => (tableLines nothing header rests).getD (i + 1) []) =
      [' '].intercalate (picked.map (Nat.toDigits 10)) := by
  rw [typedNumbers, List.map_map]
  refine congrArg _ (List.map_congr_left fun i hi => ?_)
  rw [Function.comp_apply, List.getD_eq_getElem?_getD, tableLines_row (hlt i hi),
    Option.getD_some, rowNumber_numberedRow]

/-- Typing the numbers of some rows behind `del` or `unwatch` deletes the entries of these rows,
and the listing afterwards has the others, numbered anew.  It succeeds if the debuggee can be
written. -/
theorem shown_numbers_delete (s : Sys) (picked : List ℕ) (hne : picked ≠ []) :
    let bps := cmdShowBreakpoints s.dbg
    let wps := cmdShowWatchpoints s.dbg
    let typedBps := typedNumbers (picked.map fun i => bps.getD (i + 1) [])
    let typedWps := typedNumbers (picked.map fun i => wps.getD (i + 1) [])
    ((∀ i ∈ picked, i < s.dbg.breakpoints.length) → s.dbg.breakpoints.length ≤ maxBreakpoints →
      typedBps.length < maxCmd →
      (s.MemWritable → wp (cmdDel (some typedBps)) (fun rc _ => rc = 0) s) ∧
      wp (cmdDel (some typedBps)) (fun rc s' => rc = 0 → cmdShowBreakpoints s'.dbg =
        tableLines noBreakpoints breakpointHeader (without picked (bps.tail.map rowRest))) s) ∧
    ((∀ i ∈ picked, i < s.dbg.watchpoints.length) → s.dbg.watchpoints.length ≤ wpMaxHw →
      typedWps.length < maxCmd →
      (s.SlotsWritable → wp (cmdUnwatch (some typedWps)) (fun rc _ => rc = 0) s) ∧
      wp (cmdUnwatch (some typedWps)) (fun rc s' => rc = 0 → cmdShowWatchpoints s'.dbg =
        tableLines noWatchpoints watchpointHeader (without picked (wps.tail.map rowRest))) s) := by
  intro bps wps typedBps typedWps
  constructor
  · intro hlt hroom hfits
    have htyped : typedBps = [' '].intercalate (picked.map (Nat.toDigits 10)) :=
      typedNumbers_rows (by rwa [List.length_map])
    obtain ⟨hok, hdel⟩ := cmdDel_deletesNamed.typed htyped hne hlt hroom (by decide) hfits
    refine ⟨hok, wp_mono ((cmdDel_loaded _).wp_and hdel) fun rc s' h hrc => ?_⟩
    have hrests : bps.tail.map rowRest = s.dbg.breakpoints.map (breakpointColumns s.dbg) := by
      refine map_rowRest_tail ?_
      rw [List.length_map]
      exact Nat.le_trans hroom (by decide)
    have hcolumns : s'.dbg.breakpoints.map (breakpointColumns s'.dbg) =
        s'.dbg.breakpoints.map (breakpointColumns s.dbg) :=
      List.map_congr_left fun bp _ => breakpointColumns_congr h.2 bp
    rw [cmdShowBreakpoints, hcolumns, hrests, h.1 hrc, without_map]
  · intro hlt hroom hfits
    have htyped : typedWps = [' '].intercalate (picked.map (Nat.toDigits 10)) :=
      typedNumbers_rows (by rwa [List.length_map])
    obtain ⟨hok, hdel⟩ := cmdUnwatch_deletesNamed.typed htyped hne hlt hroom (by decide) hfits
    refine ⟨hok, wp_mono hdel fun rc s' h hrc => ?_⟩
    have hrests : wps.tail.map rowRest = s.dbg.watchpoints.map watchpointColumns := by
      refine map_rowRest_tail ?_
      rw [List.length_map]
      exact Nat.le_trans hroom (by decide)
    rw [cmdShowWatchpoints, hrests, h hrc, without_map]

/-- The numbers of the last and the first row. -/
theorem shown_numbers_delete_two :
    ((cmdDel (some "2 0".toList)).run threeBreakpoints).1 = 0 ∧
      cmdShowBreakpoints ((cmdDel (some "2 0".toList)).run threeBreakpoints).2.dbg =
        [breakpointHeader, "0    y    0x0000000000002000  <unknown>".toList] := by
  have htyped : typedNumbers ([2, 0].map fun i =>
      (cmdShowBreakpoints threeBreakpoints.dbg).getD (i + 1) []) = "2 0".toList := by
    decide +kernel
  obtain ⟨hok, hshown⟩ := (shown_numbers_delete threeBreakpoints [2, 0] (List.cons_ne_nil _ _)).1
    (by decide +kernel) (by decide +kernel) (by decide +kernel)
  rw [htyped] at hok hshown
  have hproc : (threeBreakpoints.process threeBreakpoints.dbg.pid).isSome = true := by
    decide +kernel
  have hrc := hok fun _ => ⟨fun _ => rfl, Option.isSome_iff_exists.mp hproc⟩
  refine ⟨hrc, (hshown hrc).trans ?_⟩
  decide +kernel

end Deleting

end Debugger
