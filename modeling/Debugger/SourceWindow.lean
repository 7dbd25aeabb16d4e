/-
The source listing (`lineno_print_source_window` in `lineno.c`) and the `list` command.

A source file is read in pieces of at most 4095 characters, and the pieces are counted.  As long as
the lines up to the end of the window fit into a piece, what is printed are the lines of the file
whose numbers are in the window, each with its own number, and the target is marked
(`printSourceWindow_shows`).

`list` with a function lists the function's source exactly if no other file of the line table has
the path of the function's file in its own, and is refused otherwise (`listTarget_function_iff`).
-/
import Debugger.BreakTargets
import Debugger.DwarfdumpLines

open Prog

namespace Debugger

/-! ### Opening a source file -/

/-- The directories of `cdbg_lineno_t` that relative paths are looked up in. -/
structure SourceDirs where
  compDir : CStr := []
  exeDir : CStr := []

/-- What a command prints, and its return code. -/
structure Printed where
  rc : Int
  out : List CStr := []
  err : List CStr := []
deriving DecidableEq

/-- A command that fails with a message. -/
def Printed.fail (message : CStr) : Printed := { rc := -1, err := [message] }

section Open

/- `fopen(path, "r")`: the characters of the file. -/
variable (fopen : CStr → Option (List Char)) (dirs : SourceDirs)

/-- The path below a directory, for a relative path. -/
def openBelow (dir path : CStr) : Option (List Char) :=
  if path.head? ≠ some '/' ∧ dir ≠ [] then fopen (snprintf maxFile (dir ++ '/' :: path)) else none

/-- `lineno_open_source` -/
def linenoOpenSource (path : CStr) : Option (List Char) :=
  match fopen path with
  | some text => some text
  | none =>
    match openBelow fopen dirs.compDir path with
    | some text => some text
    | none =>
      match openBelow fopen dirs.exeDir path with
      | some text => some text
      | none => fopen (((strrchr '/' path).map (·.2)).getD path)

end Open

/-! ### The window -/

/-- A line of a file as it is shown: up to its NUL, without the characters that end it. -/
def stripEol (buf : List Char) : CStr :=
  ((buf.takeWhile (· ≠ '\x00')).reverse.dropWhile fun c => c = '\n' ∨ c = '\r').reverse

/-- `"%s%4u | %s\n"` -/
def sourceLine (target lineNo : ℕ) (line : CStr) : CStr :=
  (if lineNo = target then '>' else ' ') ::
    (uintText 4 lineNo ++ (' ' :: '|' :: ' ' :: (line ++ ['\n'])))

/-- The loop of `lineno_print_source_window` behind `lineNo` lines: whether the target is printed,
and what is. -/
def windowLoop (start end_ target : UInt32) : UInt32 → List (List Char) → Bool × List CStr
  | _, [] => (false, [])
  | lineNo, buf :: bufs =>
    let lineNo := lineNo + 1
    if lineNo < start then windowLoop start end_ target lineNo bufs
    else if lineNo > end_ then (false, [])
    else
      let rest := windowLoop start end_ target lineNo bufs
      (lineNo = target || rest.1, sourceLine target.toNat lineNo.toNat (stripEol buf) :: rest.2)

/-- The first and the last line of the window. -/
def windowStart (target totalLines : UInt32) : UInt32 :=
  if target > totalLines / 2 then target - totalLines / 2 else 1

def windowEnd (target totalLines : UInt32) : UInt32 :=
  windowStart target totalLines + totalLines - 1

/-- The size of the line buffer. -/
abbrev maxSourceLine : ℕ := 4096

/-- `lineno_print_source_window` -/
def printSourceWindow (fopen : CStr → Option (List Char)) (dirs : SourceDirs) (file : CStr)
    (target totalLines : UInt32) : Printed :=
  match linenoOpenSource fopen dirs file with
  | none => .fail ("Cannot read source: ".toList ++ (file ++ ['\n']))
  | some text =>
    let shown := windowLoop (windowStart target totalLines) (windowEnd target totalLines) target 0
      (fgetsLines maxSourceLine text)
    { rc := if shown.1 then 0 else -1
      out := ('\n' :: (file ++ ':' :: (Nat.toDigits 10 target.toNat ++ ['\n']))) ::
        (shown.2 ++ [['\n']]) }

/-! ### The lines of a file -/

/-- The lines of a text, without the newlines. -/
def textLines : List Char → List CStr
  | [] => []
  | c :: cs =>
    if c = '\n' then [] :: textLines cs
    else
      match textLines cs with
      | [] => [[c]]
      | line :: lines => (c :: line) :: lines

/-- The lines with their numbers. -/
def numberedLines (text : List Char) : List (CStr × ℕ) := (textLines text).zipIdx 1

section Lines

variable {size : ℕ} {text : List Char}

theorem textLines_append {line rest : List Char} (h : '\n' ∉ line) :
    textLines (line ++ '\n' :: rest) = line :: textLines rest := by
  induction line with
  | nil => rw [List.nil_append, textLines, if_pos rfl]
  | cons c line ih =>
    rw [List.mem_cons, not_or] at h
    rw [List.cons_append, textLines, if_neg fun hc => h.1 hc.symm, ih h.2]

theorem textLines_last {line : List Char} (h : '\n' ∉ line) (hne : line ≠ []) :
    textLines line = [line] := by
  induction line with
  | nil => exact absurd rfl hne
  | cons c line ih =>
    rw [List.mem_cons, not_or] at h
    rw [textLines, if_neg fun hc => h.1 hc.symm]
    cases line with
    | nil => rfl
    | cons d line => rw [ih h.2 (List.cons_ne_nil d line)]

/-- Whatever follows, the first line is at least as long as its first part. -/
theorem length_head_textLines {line rest : List Char} (h : '\n' ∉ line) (hne : line ≠ []) :
    ∃ more lines, textLines (line ++ rest) = (line ++ more) :: lines := by
  induction line with
  | nil => exact absurd rfl hne
  | cons c line ih =>
    rw [List.mem_cons, not_or] at h
    rw [List.cons_append, textLines, if_neg fun hc => h.1 hc.symm]
    cases line with
    | nil =>
      rw [List.nil_append]
      cases textLines rest with
      | nil => exact ⟨[], [], rfl⟩
      | cons line lines => exact ⟨line, lines, rfl⟩
    | cons d line =>
      obtain ⟨more, lines, hlines⟩ := ih h.2 (List.cons_ne_nil d line)
      rw [hlines]
      exact ⟨more, lines, rfl⟩

theorem takeWhile_noNul {line : List Char} (h : '\x00' ∉ line) (rest : List Char) :
    (line ++ rest).takeWhile (· ≠ '\x00') = line ++ rest.takeWhile (· ≠ '\x00') := by
  refine List.takeWhile_append_of_pos fun c hc => decide_eq_true ?_
  rintro rfl
  exact h hc

/-- The newline of a line is not shown. -/
theorem stripEol_newline (line : List Char) : stripEol (line ++ ['\n']) = stripEol line := by
  by_cases h : '\x00' ∈ line
  · obtain ⟨before, after, rfl, hbefore⟩ := List.eq_append_cons_of_mem h
    have hstop : ∀ rest : List Char,
        (before ++ '\x00' :: rest).takeWhile (· ≠ '\x00') = before := by
      intro rest
      rw [takeWhile_noNul hbefore, List.takeWhile_cons_of_neg (by decide), List.append_nil]
    rw [stripEol, stripEol, List.append_assoc, List.cons_append, hstop, hstop]
  · have hself := takeWhile_noNul h []
    rw [List.append_nil, List.takeWhile_nil, List.append_nil] at hself
    rw [stripEol, stripEol, takeWhile_noNul h, hself, List.takeWhile_cons_of_pos (by decide),
      List.takeWhile_nil, List.reverse_append, List.reverse_singleton, List.singleton_append,
      List.dropWhile_cons_of_pos (by decide)]

/-- The pieces that are read are the lines, as far as these fit. -/
theorem fgetsLinesFrom_textLines : ∀ {text pre : List Char} {n : ℕ}, '\n' ∉ pre →
    (∀ line ∈ (textLines (pre ++ text)).take n, line.length < size - 1) →
    ((fgetsLinesFrom size pre text).take n).map stripEol =
      ((textLines (pre ++ text)).take n).map stripEol := by
  intro text
  induction text with
  | nil =>
    intro pre n hpre _
    rw [List.append_nil, fgetsLinesFrom]
    by_cases hnil : pre = []
    · rw [if_pos hnil, hnil, textLines]
    · rw [if_neg hnil, textLines_last hpre hnil]
  | cons c text ih =>
    intro pre n hpre hshort
    cases n with
    | zero => rw [List.take_zero, List.take_zero]
    | succ n =>
      by_cases hc : c = '\n'
      · subst hc
        rw [textLines_append hpre, List.take_succ_cons] at hshort ⊢
        have hrest := @ih [] n List.not_mem_nil
          fun line hline => hshort line (List.mem_cons_of_mem _ hline)
        rw [List.nil_append] at hrest
        rw [fgetsLinesFrom, if_pos (.inl rfl), List.take_succ_cons, List.map_cons, List.map_cons,
          stripEol_newline, hrest]
      · have happ : pre ++ c :: text = (pre ++ [c]) ++ text := by
          rw [List.append_assoc, List.singleton_append]
        have hpre' : '\n' ∉ pre ++ [c] := by
          rw [List.mem_append, not_or, List.mem_singleton]
          exact ⟨hpre, fun h => hc h.symm⟩
        rw [happ] at hshort ⊢
        have hgo : ¬ (c = '\n' ∨ pre.length + 1 ≥ size - 1) := by
          rintro (h | hlong)
          · exact hc h
          obtain ⟨more, lines, hlines⟩ :=
            @length_head_textLines _ text hpre' (List.append_ne_nil_of_right_ne_nil _
              (List.cons_ne_nil c []))
          have hhead := hshort _ (by rw [hlines, List.take_succ_cons]; exact List.mem_cons_self)
          rw [List.length_append, List.length_append, List.length_singleton] at hhead
          omega
        rw [fgetsLinesFrom, if_neg hgo]
        exact ih hpre' hshort

/-- Each piece has a character. -/
theorem length_fgetsLinesFrom : ∀ {text line : List Char},
    (fgetsLinesFrom size line text).length ≤ line.length + text.length := by
  intro text
  induction text with
  | nil =>
    intro line
    rw [fgetsLinesFrom]
    split
    · exact Nat.zero_le _
    · rename_i hne
      exact List.length_pos_of_ne_nil hne
  | cons c text ih =>
    intro line
    rw [fgetsLinesFrom]
    split
    · have h := @ih []
      rw [List.length_cons, List.length_cons]
      rw [List.length_nil] at h
      omega
    · have h := @ih (line ++ [c])
      rw [List.length_append, List.length_singleton] at h
      rw [List.length_cons]
      omega

end Lines

/-! ### What the window shows -/

/-- The number of the line that the window begins with. -/
def firstShown (target totalLines : ℕ) : ℕ :=
  if totalLines / 2 < target then target - totalLines / 2 else 1

/-- The lines of a file that the window is to show. -/
def shownLines (target totalLines : ℕ) (text : List Char) : List (CStr × ℕ) :=
  (numberedLines text).filter fun p =>
    firstShown target totalLines ≤ p.2 ∧ p.2 < firstShown target totalLines + totalLines

section Window

variable {start end_ target lineNo totalLines : UInt32} {bufs : List (List Char)}

theorem filter_zipIdx_gt {α : Type} {lo hi : ℕ} : ∀ {l : List α} {k : ℕ}, hi < k →
    (l.zipIdx k).filter (fun p => decide (lo ≤ p.2 ∧ p.2 ≤ hi)) = [] := by
  intro l k hk
  refine List.filter_eq_nil_iff.mpr fun p hp => ?_
  have hle := (List.mem_zipIdx_iff_le_and_getElem?_sub.mp hp).1
  rw [decide_eq_true_eq]
  omega

/-- The lines up to the end of the window count. -/
theorem filter_zipIdx_take {α : Type} {lo hi : ℕ} (l : List α) :
    ((l.take hi).zipIdx 1).filter (fun p => decide (lo ≤ p.2 ∧ p.2 ≤ hi)) =
      (l.zipIdx 1).filter (fun p => decide (lo ≤ p.2 ∧ p.2 ≤ hi)) := by
  by_cases hlen : l.length ≤ hi
  · rw [List.take_of_length_le hlen]
  have htail : ((l.drop hi).zipIdx (1 + (l.take hi).length)).filter
      (fun p => decide (lo ≤ p.2 ∧ p.2 ≤ hi)) = [] := by
    refine filter_zipIdx_gt ?_
    rw [List.length_take]
    omega
  calc ((l.take hi).zipIdx 1).filter (fun p => decide (lo ≤ p.2 ∧ p.2 ≤ hi))
      = ((l.take hi).zipIdx 1 ++ (l.drop hi).zipIdx (1 + (l.take hi).length)).filter
          (fun p => decide (lo ≤ p.2 ∧ p.2 ≤ hi)) := by
        rw [List.filter_append, htail, List.append_nil]
    _ = (l.zipIdx 1).filter (fun p => decide (lo ≤ p.2 ∧ p.2 ≤ hi)) := by
        rw [← List.zipIdx_append, List.take_append_drop]

/-- The loop prints the pieces whose numbers are in the window. -/
theorem windowLoop_eq : ∀ {bufs : List (List Char)} {lineNo : UInt32},
    lineNo.toNat + bufs.length < 2 ^ 32 →
    windowLoop start end_ target lineNo bufs =
      (((bufs.zipIdx (lineNo.toNat + 1)).filter
          fun p => start.toNat ≤ p.2 ∧ p.2 ≤ end_.toNat).any (·.2 = target.toNat),
        ((bufs.zipIdx (lineNo.toNat + 1)).filter
          fun p => start.toNat ≤ p.2 ∧ p.2 ≤ end_.toNat).map
            fun p => sourceLine target.toNat p.2 (stripEol p.1)) := by
  intro bufs
  induction bufs with
  | nil => exact fun _ => rfl
  | cons buf bufs ih =>
    intro lineNo hlen
    rw [List.length_cons] at hlen
    have hnext : (lineNo + 1).toNat = lineNo.toNat + 1 := by
      rw [UInt32.toNat_add]
      exact Nat.mod_eq_of_lt (Nat.lt_of_le_of_lt (by simp) hlen)
    have ih := @ih (lineNo + 1) (by omega)
    rw [hnext] at ih
    rw [windowLoop, List.zipIdx_cons, List.filter_cons]
    dsimp only
    by_cases hbefore : lineNo + 1 < start
    · have hlt := UInt32.lt_iff_toNat_lt.mp hbefore
      rw [if_pos hbefore, if_neg (by rw [decide_eq_true_eq]; omega), ih]
    by_cases hbehind : lineNo + 1 > end_
    · have hlt := UInt32.lt_iff_toNat_lt.mp hbehind
      rw [if_neg hbefore, if_pos hbehind, if_neg (by rw [decide_eq_true_eq]; omega),
        filter_zipIdx_gt (by omega)]
      rfl
    · rw [UInt32.lt_iff_toNat_lt, hnext] at hbefore
      rw [gt_iff_lt, UInt32.lt_iff_toNat_lt, hnext] at hbehind
      have hin : start.toNat ≤ lineNo.toNat + 1 ∧ lineNo.toNat + 1 ≤ end_.toNat := by omega
      rw [if_neg (by rw [UInt32.lt_iff_toNat_lt, hnext]; omega),
        if_neg (by rw [gt_iff_lt, UInt32.lt_iff_toNat_lt, hnext]; omega),
        if_pos (decide_eq_true hin), ih, List.any_cons, List.map_cons, hnext]
      have htarget : decide (lineNo + 1 = target) = decide (lineNo.toNat + 1 = target.toNat) :=
        decide_eq_decide.mpr (by rw [← UInt32.toNat_inj, hnext])
      rw [htarget]

theorem toNat_windowStart :
    (windowStart target totalLines).toNat = firstShown target.toNat totalLines.toNat := by
  have hhalf : (totalLines / 2).toNat = totalLines.toNat / 2 := UInt32.toNat_div _ _
  rw [windowStart, firstShown]
  by_cases h : totalLines.toNat / 2 < target.toNat
  · have hlt : totalLines / 2 < target := by rwa [UInt32.lt_iff_toNat_lt, hhalf]
    rw [if_pos h, if_pos hlt, UInt32.toNat_sub_of_le _ _ (UInt32.le_of_lt hlt), hhalf]
  · rw [if_neg h, if_neg (by rw [gt_iff_lt, UInt32.lt_iff_toNat_lt, hhalf]; exact h)]
    rfl

/-- What the loop prints of the pieces it prints of the lines. -/
theorem filter_pieces {text : List Char} {lo hi : ℕ}
    (hshort : ∀ p ∈ numberedLines text, p.2 ≤ hi → p.1.length < maxSourceLine - 1) :
    (((fgetsLines maxSourceLine text).zipIdx 1).filter
        fun p => lo ≤ p.2 ∧ p.2 ≤ hi).map (fun p => (stripEol p.1, p.2)) =
      ((numberedLines text).filter fun p => lo ≤ p.2 ∧ p.2 ≤ hi).map
        fun p => (stripEol p.1, p.2) := by
  have hpieces : ((fgetsLines maxSourceLine text).take hi).map stripEol =
      ((textLines text).take hi).map stripEol := by
    have h := @fgetsLinesFrom_textLines maxSourceLine text [] hi
      List.not_mem_nil
    rw [List.nil_append] at h
    refine h fun line hline => ?_
    obtain ⟨i, hi, hget⟩ := List.mem_take_iff_getElem.mp hline
    have hmem : (line, i + 1) ∈ numberedLines text := by
      rw [numberedLines, List.mem_zipIdx_iff_le_and_getElem?_sub]
      refine ⟨by omega, ?_⟩
      rw [Nat.add_sub_cancel, ← hget]
      exact List.getElem?_eq_getElem _
    exact hshort _ hmem (by omega)
  have hshow : ∀ lines : List CStr,
      ((lines.zipIdx 1).filter fun p => lo ≤ p.2 ∧ p.2 ≤ hi).map (fun p => (stripEol p.1, p.2)) =
        (((lines.take hi).map stripEol).zipIdx 1).filter fun p => lo ≤ p.2 ∧ p.2 ≤ hi := by
    intro lines
    rw [← filter_zipIdx_take, List.zipIdx_map, List.filter_map]
    rfl
  rw [numberedLines, hshow, hshow, hpieces]

/-- A number of a line that the file may have is in the window exactly if the loop prints it. -/
theorem in_window_iff {k bound : ℕ} (htotal : 0 < totalLines.toNat)
    (hsize : bound + 2 * totalLines.toNat < 2 ^ 32) (hk : k ≤ bound) :
    ((windowStart target totalLines).toNat ≤ k ∧ k ≤ (windowEnd target totalLines).toNat) ↔
      (firstShown target.toNat totalLines.toNat ≤ k ∧
        k ≤ firstShown target.toNat totalLines.toNat + totalLines.toNat - 1) := by
  have hstart := @toNat_windowStart target totalLines
  have hlt := (windowStart target totalLines).toNat_lt
  have hend : (windowEnd target totalLines).toNat =
      (firstShown target.toNat totalLines.toNat + totalLines.toNat - 1) % 2 ^ 32 := by
    have hsum : (windowStart target totalLines + totalLines - 1).toNat =
        (2 ^ 32 - 1 + (windowStart target totalLines + totalLines).toNat) % 2 ^ 32 :=
      UInt32.toNat_sub _ _
    rw [windowEnd, hsum, UInt32.toNat_add, hstart]
    omega
  rw [hstart, hend]
  rw [hstart] at hlt
  omega

/-- The target is in its window. -/
theorem target_in_window {target totalLines : ℕ} (htotal : 0 < totalLines) (h : 1 ≤ target) :
    firstShown target totalLines ≤ target ∧
      target ≤ firstShown target totalLines + totalLines - 1 := by
  rw [firstShown]
  split <;> omega

theorem any_target_iff {target totalLines : ℕ} {text : List Char} (htotal : 0 < totalLines) :
    (shownLines target totalLines text).any (·.2 = target) =
      decide (1 ≤ target ∧ target ≤ (textLines text).length) := by
  have hmem : ∀ p : CStr × ℕ, p ∈ numberedLines text ↔
      1 ≤ p.2 ∧ (textLines text)[p.2 - 1]? = some p.1 := fun p =>
    List.mem_zipIdx_iff_le_and_getElem?_sub
  rw [Bool.eq_iff_iff, List.any_eq_true, decide_eq_true_eq]
  constructor
  · rintro ⟨p, hp, htarget⟩
    obtain ⟨hle, hget⟩ := (hmem p).mp (List.mem_filter.mp hp).1
    have hlt := (List.getElem?_eq_some_iff.mp hget).1
    rw [decide_eq_true_eq] at htarget
    omega
  · rintro ⟨hle, hlen⟩
    have hlt : target - 1 < (textLines text).length := by omega
    have hin := target_in_window htotal hle
    refine ⟨((textLines text)[target - 1], target), List.mem_filter.mpr ⟨?_, ?_⟩,
      decide_eq_true rfl⟩
    · exact (hmem _).mpr ⟨hle, List.getElem?_eq_getElem hlt⟩
    · rw [decide_eq_true_eq]
      dsimp only
      omega

end Window

/-- Where the lines up to the end of the window fit the buffer, the window shows the lines of the
file whose numbers are in it, each with its number, and marks the target; the return code is 0
exactly if the file has such a line. -/
theorem printSourceWindow_shows {fopen : CStr → Option (List Char)} {dirs : SourceDirs}
    {file : CStr} {text : List Char} {target totalLines : UInt32}
    (hopen : linenoOpenSource fopen dirs file = some text) (htotal : 0 < totalLines.toNat)
    (hsize : text.length + 2 * totalLines.toNat < 2 ^ 32)
    (hshort : ∀ p ∈ numberedLines text,
      p.2 < firstShown target.toNat totalLines.toNat + totalLines.toNat →
        p.1.length < maxSourceLine - 1) :
    printSourceWindow fopen dirs file target totalLines =
      { rc := if 1 ≤ target.toNat ∧ target.toNat ≤ (textLines text).length then 0 else -1
        out := ('\n' :: (file ++ ':' :: (Nat.toDigits 10 target.toNat ++ ['\n']))) ::
          ((shownLines target.toNat totalLines.toNat text).map
            (fun p => sourceLine target.toNat p.2 (stripEol p.1)) ++ [['\n']]) } := by
  have hpieces : (fgetsLines maxSourceLine text).length ≤ text.length := by
    have h := @length_fgetsLinesFrom maxSourceLine text []
    rwa [List.length_nil, Nat.zero_add] at h
  have hcount : (0 : UInt32).toNat + (fgetsLines maxSourceLine text).length < 2 ^ 32 := by
    rw [UInt32.toNat_zero]
    omega
  have hloop := @windowLoop_eq (windowStart target totalLines) (windowEnd target totalLines) target
    (fgetsLines maxSourceLine text) 0 hcount
  rw [UInt32.toNat_zero, Nat.zero_add] at hloop
  generalize hlo : firstShown target.toNat totalLines.toNat = lo at hshort
  -- the bounds of the loop are those of the window
  have hfilter : ((fgetsLines maxSourceLine text).zipIdx 1).filter
        (fun p => decide ((windowStart target totalLines).toNat ≤ p.2 ∧
          p.2 ≤ (windowEnd target totalLines).toNat)) =
      ((fgetsLines maxSourceLine text).zipIdx 1).filter
        fun p => decide (lo ≤ p.2 ∧ p.2 ≤ lo + totalLines.toNat - 1) := by
    refine List.filter_congr fun p hp => decide_eq_decide.mpr ?_
    have hk : p.2 ≤ text.length := by
      obtain ⟨hle, hget⟩ := List.mem_zipIdx_iff_le_and_getElem?_sub.mp hp
      have hlt := (List.getElem?_eq_some_iff.mp hget).1
      omega
    rw [in_window_iff htotal hsize hk, hlo]
  have hshown : (numberedLines text).filter
        (fun p => decide (lo ≤ p.2 ∧ p.2 ≤ lo + totalLines.toNat - 1)) =
      shownLines target.toNat totalLines.toNat text := by
    rw [shownLines, hlo]
    refine List.filter_congr fun p _ => decide_eq_decide.mpr ?_
    omega
  have hsame := @filter_pieces text lo (lo + totalLines.toNat - 1)
    fun p hp hle => hshort p hp (by omega)
  rw [hshown] at hsame
  have hany := congrArg (List.any · fun p => decide (p.2 = target.toNat)) hsame
  have hlines := congrArg (List.map fun p => sourceLine target.toNat p.2 p.1) hsame
  simp only [List.any_map, List.map_map, Function.comp_def] at hany hlines
  rw [printSourceWindow, hopen]
  dsimp only
  rw [hloop, hfilter]
  dsimp only
  rw [hany, hlines, any_target_iff htotal]
  simp only [decide_eq_true_eq]

/-- A file of four lines, in the directory of the compilation. -/
def fourLines (path : CStr) : Option (List Char) :=
  if path = "src/a.c".toList then some "int main(void)\n\x7b\r\n  return 0;\n\x7d".toList else none

theorem printSourceWindow_shows_fourLines :
    (printSourceWindow fourLines { compDir := "src".toList } "a.c".toList 3 3).out =
        ["\na.c:3\n".toList, "    2 | \x7b\n".toList, ">   3 |   return 0;\n".toList,
          "    4 | \x7d\n".toList, "\n".toList] := by
  rw [@printSourceWindow_shows _ _ _ "int main(void)\n\x7b\r\n  return 0;\n\x7d".toList _ _
    (by decide) (by decide) (by decide) (by decide)]
  decide +kernel

/-! ### `list` -/

/-- `CDBG_LIST_SOURCE_LINES` -/
def listSourceLines : UInt32 := 10

/-- The loop of `cdbg_lineno_print_source_at_line`: the file of the rows that match, and `none`
at a second one. -/
def matchedFile (fileFilter : Option CStr) : Option CStr → List LineEntry → Option (Option CStr)
  | found, [] => some found
  | found, entry :: rest =>
    if !Lineno.fileMatches entry.file fileFilter then matchedFile fileFilter found rest
    else
      match found with
      | none => matchedFile fileFilter (some entry.file) rest
      | some file =>
        if file ≠ entry.file then none else matchedFile fileFilter (some file) rest

section List

variable (fopen : CStr → Option (List Char)) (dirs : SourceDirs) (ln : Lineno)

/-- `cdbg_lineno_print_source_at_line` -/
def printSourceAtLine (fileFilter : Option CStr) (line : UInt32) : Printed :=
  let filter := fileFilter.getD []
  if ln.entries = [] then .fail "No line number information loaded\n".toList
  else
    match matchedFile fileFilter none ln.entries with
    | none =>
      if filter = [] then
        .fail ("Line ".toList ++ (Nat.toDigits 10 line.toNat ++
          " is ambiguous; use file:line\n".toList))
      else .fail ("File filter is ambiguous: ".toList ++ (filter ++ ['\n']))
    | some none =>
      if filter = [] then
        .fail ("No source file for line ".toList ++ (Nat.toDigits 10 line.toNat ++ ['\n']))
      else .fail ("No source file matches: ".toList ++ (filter ++ ['\n']))
    | some (some file) => printSourceWindow fopen dirs file line listSourceLines

def listUsage : Printed := .fail "Usage: list [line|file:line|function]\n".toList

/-- The part of `cmd_list` for a function. -/
def listFunction (syms : Syms) (target : CStr) : Printed :=
  match syms.lookupName target with
  | none => .fail ("Unknown function: ".toList ++ (target ++ ['\n']))
  | some sym =>
    if sym.undefined then .fail ("Symbol is undefined: ".toList ++ (sym.name ++ ['\n']))
    else
      match ln.lineAtPc (syms.runtimeAddr sym.address) with
      | none => .fail ("No source line for function: ".toList ++ (target ++ ['\n']))
      | some (file, line) => printSourceAtLine fopen dirs ln (some file) line

/-- The part of `cmd_list` for a line of the only file or for a function. -/
def listLine (syms : Syms) (target : CStr) : Printed :=
  match parseU64 target with
  | some lineNo =>
    if lineNo = 0 then listUsage
    else printSourceAtLine fopen dirs ln none lineNo.toUInt32
  | none => listFunction fopen dirs ln syms target

/-- `cmd_list` with a target, which has been trimmed and is not empty. -/
def listTarget (syms : Syms) (target : CStr) : Printed :=
  match strrchr ':' target with
  | some (filePart, lineText) =>
    if lineText = [] then listLine fopen dirs ln syms target
    else if filePart.length = 0 ∨ filePart.length ≥ maxFile then listUsage
    else
      match parseU64 lineText with
      | some lineNo =>
        if lineNo = 0 then listUsage
        else printSourceAtLine fopen dirs ln (some filePart) lineNo.toUInt32
      | none => listUsage
  | none => listLine fopen dirs ln syms target

end List

section Only

variable {fopen : CStr → Option (List Char)} {dirs : SourceDirs} {ln : Lineno}
  {fileFilter : Option CStr} {entries : List LineEntry} {file : CStr} {line : UInt32}

/-- A file is left exactly if it is the one of all rows that match. -/
theorem matchedFile_iff : ∀ {found : Option CStr}, matchedFile fileFilter found entries =
      some (some file) ↔
    (found = some file ∨ found = none ∧ ∃ e ∈ entries, Lineno.fileMatches e.file fileFilter) ∧
      ∀ e ∈ entries, Lineno.fileMatches e.file fileFilter → e.file = file := by
  induction entries with
  | nil =>
    intro found
    simp [matchedFile]
  | cons entry rest ih =>
    intro found
    by_cases hmatch : Lineno.fileMatches entry.file fileFilter = true
    · cases found with
      | none =>
        have hstep : matchedFile fileFilter none (entry :: rest) =
            matchedFile fileFilter (some entry.file) rest := by
          simp only [matchedFile, hmatch, Bool.not_true, Bool.false_eq_true, if_false]
        rw [hstep, ih]
        simp only [List.mem_cons, forall_eq_or_imp, exists_eq_or_imp, hmatch, Option.some.injEq,
          reduceCtorEq, false_and, or_false, true_or, and_self, false_or, true_and, forall_const]
      | some f =>
        have hstep : matchedFile fileFilter (some f) (entry :: rest) =
            if f ≠ entry.file then none else matchedFile fileFilter (some f) rest := by
          simp only [matchedFile, hmatch, Bool.not_true, Bool.false_eq_true, if_false]
        rw [hstep]
        by_cases hf : f = entry.file
        · rw [if_neg (not_not.mpr hf), ih]
          simp only [List.mem_cons, forall_eq_or_imp, hmatch, forall_const, Option.some.injEq,
            reduceCtorEq, false_and, or_false]
          constructor
          · rintro ⟨rfl, h⟩
            exact ⟨rfl, hf.symm, h⟩
          · rintro ⟨rfl, -, h⟩
            exact ⟨rfl, h⟩
        · rw [if_pos hf]
          simp only [List.mem_cons, forall_eq_or_imp, hmatch, forall_const, Option.some.injEq,
            reduceCtorEq, false_and, or_false, false_iff]
          rintro ⟨hfound, hfile, -⟩
          exact hf (hfound.trans hfile.symm)
    · rw [Bool.not_eq_true] at hmatch
      have hstep : matchedFile fileFilter found (entry :: rest) =
          matchedFile fileFilter found rest := by
        cases found <;> simp only [matchedFile, hmatch, Bool.not_false, if_true]
      rw [hstep, ih]
      simp only [List.mem_cons, forall_eq_or_imp, exists_eq_or_imp, hmatch, Bool.false_eq_true,
        false_or, false_imp_iff, true_and]

theorem strrchr_eq_none {c : Char} {text : CStr} (h : c ∉ text) : strrchr c text = none := by
  induction text with
  | nil => rfl
  | cons d text ih =>
    rw [List.mem_cons, not_or] at h
    rw [strrchr, ih h.2]
    exact if_neg fun hd => h.1 hd.symm

/-- A line that has been found is that of a row. -/
theorem exists_row_of_lineAtPc {pc : Addr} (h : ln.lineAtPc pc = some (file, line)) :
    ∃ e ∈ ln.entries, file = snprintf maxFile e.file ∧ line = e.line := by
  obtain ⟨e, he, hfile⟩ := Option.map_eq_some_iff.mp h
  obtain ⟨hfile, hline⟩ := Prod.mk.inj hfile
  rw [Lineno.entryAtPc] at he
  cases hfound : ln.lookupPc pc with
  | none =>
    rw [hfound] at he
    cases he
  | some row =>
    rw [hfound] at he
    dsimp only at he
    split at he
    · cases he
    split at he
    · cases he
    · obtain rfl := Option.some.inj he
      exact ⟨row, ((ln.lookupPc_nearest pc).row row hfound).1, hfile.symm, hline.symm⟩

/-- The only message of the window is that there is no source. -/
theorem err_printSourceWindow {totalLines : UInt32} {message : CStr}
    (h : message ∈ (printSourceWindow fopen dirs file line totalLines).err) :
    message.head? = some 'C' := by
  rw [printSourceWindow] at h
  cases hopen : linenoOpenSource fopen dirs file with
  | none =>
    rw [hopen] at h
    obtain rfl := List.mem_singleton.mp h
    rfl
  | some text =>
    rw [hopen] at h
    cases h

/-- The refusal of a file filter that the rows of several files match. -/
def listAmbiguous (file : CStr) (line : UInt32) : Printed :=
  if file = [] then
    .fail ("Line ".toList ++ (Nat.toDigits 10 line.toNat ++
      " is ambiguous; use file:line\n".toList))
  else .fail ("File filter is ambiguous: ".toList ++ (file ++ ['\n']))

/-- A listing is no refusal. -/
theorem listAmbiguous_ne_window :
    listAmbiguous file line ≠ printSourceWindow fopen dirs file line listSourceLines := by
  have hfail : ∀ {message : CStr} {c : Char}, message.head? = some c → c ≠ 'C' →
      Printed.fail message ≠ printSourceWindow fopen dirs file line listSourceLines := by
    intro message c hmessage hc heq
    have hmem : message ∈ (Printed.fail message).err := List.mem_singleton_self message
    rw [heq] at hmem
    exact hc (Option.some.inj (hmessage.symm.trans (err_printSourceWindow hmem)))
  rw [listAmbiguous]
  split
  · exact hfail rfl (by decide)
  · exact hfail rfl (by decide)

/-- A file that has been found is not lost again. -/
theorem matchedFile_some_ne : matchedFile fileFilter (some file) entries ≠ some none := by
  induction entries with
  | nil => exact nofun
  | cons entry rest ih =>
    have hstep : matchedFile fileFilter (some file) (entry :: rest) =
        if !Lineno.fileMatches entry.file fileFilter then matchedFile fileFilter (some file) rest
        else if file ≠ entry.file then none else matchedFile fileFilter (some file) rest := rfl
    rw [hstep]
    split
    · exact ih
    · split
      · exact nofun
      · exact ih

/-- No file is found only if no row matches. -/
theorem not_matches_of_matchedFile (h : matchedFile fileFilter none entries = some none) :
    ∀ e ∈ entries, ¬ Lineno.fileMatches e.file fileFilter := by
  induction entries with
  | nil => exact nofun
  | cons entry rest ih =>
    have hstep : matchedFile fileFilter none (entry :: rest) =
        if !Lineno.fileMatches entry.file fileFilter then matchedFile fileFilter none rest
        else matchedFile fileFilter (some entry.file) rest := rfl
    rw [hstep] at h
    split at h
    · rename_i hmatch
      intro e he
      rcases List.mem_cons.mp he with rfl | he
      · simpa using hmatch
      · exact ih h e he
    · exact absurd h matchedFile_some_ne

/-- With a row of the file, a file filter that no row of another file matches lists the lines of
that file. -/
theorem printSourceAtLine_only {e : LineEntry} (he : e ∈ ln.entries) (hfile : e.file = file)
    (hall : ∀ e ∈ ln.entries, Lineno.fileMatches e.file (some file) → e.file = file) :
    printSourceAtLine fopen dirs ln (some file) line =
      printSourceWindow fopen dirs file line listSourceLines := by
  have hmatch : Lineno.fileMatches e.file (some file) = true :=
    Lineno.fileMatches_iff.mpr (hfile ▸ List.infix_refl _)
  rw [printSourceAtLine, if_neg (List.ne_nil_of_mem he),
    matchedFile_iff.mpr ⟨.inr ⟨rfl, e, he, hmatch⟩, hall⟩]

/-- With a row of the file, a file filter that a row of another file matches is refused. -/
theorem printSourceAtLine_ambiguous {e : LineEntry} (he : e ∈ ln.entries) (hfile : e.file = file)
    (hother : ¬ ∀ e ∈ ln.entries, Lineno.fileMatches e.file (some file) → e.file = file) :
    printSourceAtLine fopen dirs ln (some file) line = listAmbiguous file line := by
  have hmatch : Lineno.fileMatches e.file (some file) = true :=
    Lineno.fileMatches_iff.mpr (hfile ▸ List.infix_refl _)
  rw [printSourceAtLine, if_neg (List.ne_nil_of_mem he)]
  cases hchoice : matchedFile (some file) none ln.entries with
  | none => rfl
  | some choice =>
    cases choice with
    | none => exact absurd hmatch (not_matches_of_matchedFile hchoice e he)
    | some f =>
      -- the rows that match are all of one file, which is that of the row
      have hall := (matchedFile_iff.mp hchoice).2
      obtain rfl : f = file := (hall e he hmatch).symm.trans hfile
      exact absurd hall hother

end Only

/-- The source of a function that has a line is listed exactly if no other file of the table has
the path of its file in its own, and refused otherwise. -/
theorem listTarget_function_iff {fopen : CStr → Option (List Char)} {dirs : SourceDirs}
    {ln : Lineno} {syms : Syms} {target file : CStr} {line : UInt32} {sym : SymEntry}
    (hcolon : ':' ∉ target) (hnumber : parseU64 target = none)
    (hsym : syms.lookupName target = some sym) (hdefined : sym.undefined = false)
    (hline : ln.lineAtPc (syms.runtimeAddr sym.address) = some (file, line))
    (hfits : ∀ e ∈ ln.entries, e.file.length < maxFile) :
    (listTarget fopen dirs ln syms target =
        printSourceWindow fopen dirs file line listSourceLines ↔
      ∀ e ∈ ln.entries, file <:+: e.file → e.file = file) ∧
    (listTarget fopen dirs ln syms target = listAmbiguous file line ↔
      ∃ e ∈ ln.entries, file <:+: e.file ∧ e.file ≠ file) := by
  obtain ⟨e, he, hfile, -⟩ := exists_row_of_lineAtPc hline
  rw [snprintf_of_lt (hfits e he)] at hfile
  have hlist : listTarget fopen dirs ln syms target =
      printSourceAtLine fopen dirs ln (some file) line := by
    rw [listTarget, strrchr_eq_none hcolon]
    dsimp only
    rw [listLine, hnumber]
    dsimp only
    rw [listFunction, hsym]
    dsimp only
    rw [hdefined, if_neg Bool.false_ne_true, hline]
  have hmatches : (∀ e ∈ ln.entries, Lineno.fileMatches e.file (some file) → e.file = file) ↔
      ∀ e ∈ ln.entries, file <:+: e.file → e.file = file :=
    forall₂_congr fun e _ => by rw [Lineno.fileMatches_iff]
  have hother : (∃ e ∈ ln.entries, file <:+: e.file ∧ e.file ≠ file) ↔
      ¬ ∀ e ∈ ln.entries, file <:+: e.file → e.file = file := by
    push Not
    rfl
  rw [hlist, hother, ← hmatches]
  by_cases hall : ∀ e ∈ ln.entries, Lineno.fileMatches e.file (some file) → e.file = file
  · rw [printSourceAtLine_only he hfile.symm hall]
    exact ⟨iff_of_true rfl hall,
      iff_of_false listAmbiguous_ne_window.symm (not_not.mpr hall)⟩
  · rw [printSourceAtLine_ambiguous he hfile.symm hall]
    exact ⟨iff_of_false listAmbiguous_ne_window hall, iff_of_true rfl hall⟩

/-- The rows of `f` in `a.c` and of a header whose path goes on behind that of `a.c`. -/
def headerRows : Lineno where
  entries := [⟨0x1000, 3, 0, "a.c".toList⟩, ⟨0x2000, 1, 0, "a.c.inc".toList⟩]

/-- The listing of `f` is refused. -/
theorem listTarget_function_headerRows :
    listTarget (fun _ => none) {} headerRows { entries := [⟨0x1000, 'T', "_f".toList⟩] }
        "f".toList = .fail "File filter is ambiguous: a.c\n".toList := by
  have hambiguous := (@listTarget_function_iff (fun _ => none) {} headerRows
    { entries := [⟨0x1000, 'T', "_f".toList⟩] } "f".toList "a.c".toList 3
    ⟨0x1000, 'T', "_f".toList⟩ (by decide) (by decide) (by decide) (by decide) (by decide)
    (by decide)).2
  exact hambiguous.mpr ⟨⟨0x2000, 1, 0, "a.c.inc".toList⟩, by decide, by decide, by decide⟩

end Debugger
