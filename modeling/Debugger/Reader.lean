/-
The loop of the REPL (`cdbg_repl`): from the characters of standard input to the lines that
are dispatched.

`fgets` fills a buffer of `CDBG_MAX_CMD` bytes, so a line of 255 characters or more is read
in several pieces and each of them is treated as a line.  `dispatched_eq_iff` says for which
inputs this makes no difference: no line has anything but white space in two of its pieces.
-/
import Debugger.Repl
import Debugger.Lib.Lists
import Mathlib.Data.List.DropRight

open Prog

namespace Debugger

/-! ### The reader -/

/-- The characters `fgets` reads when it has room for `n`: up to and with a newline. -/
def fgetsChars : ℕ → List Char → List Char × List Char
  | 0, input => ([], input)
  | _ + 1, [] => ([], [])
  | n + 1, c :: input =>
    if c = '\n' then ([c], input)
    else (c :: (fgetsChars n input).1, (fgetsChars n input).2)

/-- `fgets`: what it stores and what is left; `none` at the end of the input. -/
def fgets (size : ℕ) (input : List Char) : Option (List Char × List Char) :=
  if input = [] then none else some (fgetsChars (size - 1) input)

theorem fgetsChars_length : ∀ (n : ℕ) (input : List Char),
    (fgetsChars n input).1.length + (fgetsChars n input).2.length = input.length ∧
      (0 < n → input ≠ [] → 0 < (fgetsChars n input).1.length)
  | 0, input => ⟨by simp [fgetsChars], fun h => absurd h (Nat.lt_irrefl 0)⟩
  | n + 1, [] => ⟨rfl, fun _ h => absurd rfl h⟩
  | n + 1, c :: input => by
    have ih := (fgetsChars_length n input).1
    rw [fgetsChars]
    split
    · exact ⟨Nat.add_comm _ _, fun _ _ => Nat.one_pos⟩
    · simp only [List.length_cons]
      exact ⟨by omega, fun _ _ => Nat.succ_pos _⟩

theorem fgets_length {size : ℕ} {input line rest : List Char} (hsize : 1 < size)
    (h : fgets size input = some (line, rest)) : rest.length < input.length := by
  rw [fgets] at h
  split at h
  case isTrue => cases h
  case isFalse hne =>
    obtain ⟨hlen, hpos⟩ := fgetsChars_length (size - 1) input
    have hpos := hpos (by omega) hne
    rw [Option.some.inj h] at hlen hpos
    dsimp only at hlen hpos
    omega

/-- The buffer as a string, up to its newline and without surrounding white space. -/
def replText (line : List Char) : CStr :=
  trimSpace ((line.takeWhile (· ≠ '\x00')).takeWhile (· ≠ '\n'))

/-- `cdbg_repl` on an input that can be read without errors. -/
def cdbgRepl {m : Type → Type} [Monad m] (dispatchLine : CStr → m ReplOutcome)
    (input : List Char) : m Int :=
  match _h : fgets maxCmd input with
  | none => return 0
  | some (line, rest) =>
    if replText line = [] then cdbgRepl dispatchLine rest
    else do
      match ← dispatchLine (replText line) with
      | .quit => return 0
      | .fatal => return -1
      | .ok => cdbgRepl dispatchLine rest
termination_by input.length
decreasing_by all_goals exact fgets_length (by decide) _h

/-- The strings the loop passes on, when none of them ends the session. -/
def dispatched (input : List Char) : List CStr :=
  ((cdbgRepl (m := StateM (List CStr))
    (fun line => do modify (· ++ [line]); return .ok) input).run []).2

/-- The lines of an input, each ended by a newline. -/
def inputOf (lines : List CStr) : List Char := lines.flatMap fun line => line ++ ['\n']

/-! ### The loop and the strings it passes on -/

/-- The text as a list of at most one line: a blank one is skipped. -/
def nonBlank (text : CStr) : List CStr := if text = [] then [] else [text]

/-- The strings of the pieces `fgets` reads. -/
def replLines (input : List Char) : List CStr :=
  match _h : fgets maxCmd input with
  | none => []
  | some (line, rest) => nonBlank (replText line) ++ replLines rest
termination_by input.length
decreasing_by exact fgets_length (by decide) _h

/-- Lines are dispatched in order until one ends the session. -/
def dispatchAll {m : Type → Type} [Monad m] (dispatchLine : CStr → m ReplOutcome) :
    List CStr → m Int
  | [] => return 0
  | line :: lines => do
    match ← dispatchLine line with
    | .quit => return 0
    | .fatal => return -1
    | .ok => dispatchAll dispatchLine lines

section Loop

variable {m : Type → Type} [Monad m] {dispatchLine : CStr → m ReplOutcome}
  {input line rest : List Char}

theorem replLines_of_none (h : fgets maxCmd input = none) : replLines input = [] := by
  rw [replLines]
  split <;> simp_all

theorem replLines_of_some (h : fgets maxCmd input = some (line, rest)) :
    replLines input = nonBlank (replText line) ++ replLines rest := by
  rw [replLines]
  split <;> simp_all

theorem cdbgRepl_of_none (h : fgets maxCmd input = none) :
    cdbgRepl dispatchLine input = pure 0 := by
  rw [cdbgRepl]
  split <;> simp_all

theorem cdbgRepl_of_some (h : fgets maxCmd input = some (line, rest)) :
    cdbgRepl dispatchLine input =
      (if replText line = [] then cdbgRepl dispatchLine rest
      else do
        match ← dispatchLine (replText line) with
        | .quit => return 0
        | .fatal => return -1
        | .ok => cdbgRepl dispatchLine rest) := by
  rw [cdbgRepl]
  split
  · simp_all
  · rename_i h'
    obtain ⟨rfl, rfl⟩ := Prod.mk.inj (Option.some.inj (h.symm.trans h'))
    rfl

/-- Whatever the dispatcher does, the loop passes it the strings of the pieces, in order and
until one ends the session. -/
theorem cdbgRepl_eq : ∀ (input : List Char),
    cdbgRepl dispatchLine input = dispatchAll dispatchLine (replLines input) := by
  intro input
  induction hn : input.length using Nat.strongRecOn generalizing input with
  | _ n ih =>
    subst hn
    cases h : fgets maxCmd input with
    | none => rw [cdbgRepl_of_none h, replLines_of_none h]; rfl
    | some read =>
      obtain ⟨line, rest⟩ := read
      have hrest := ih _ (fgets_length (by decide) h) rest rfl
      rw [cdbgRepl_of_some h, replLines_of_some h, nonBlank, hrest]
      split
      · rfl
      · rfl

end Loop

theorem dispatched_eq (input : List Char) : dispatched input = replLines input := by
  have hrun : ∀ (lines before : List CStr),
      ((dispatchAll (m := StateM (List CStr))
        (fun line => do modify (· ++ [line]); return .ok) lines).run before).2 =
        before ++ lines := by
    intro lines
    induction lines with
    | nil => exact fun before => (List.append_nil before).symm
    | cons line lines ih =>
      intro before
      exact (ih (before ++ [line])).trans (List.append_assoc ..)
  rw [dispatched, cdbgRepl_eq, hrun, List.nil_append]

/-! ### White space -/

/-- There is nothing but white space. -/
def Blank (text : CStr) : Prop := ∀ c ∈ text, isspace c = true

theorem trimSpace_eq_nil_iff {text : CStr} : trimSpace text = [] ↔ Blank text := by
  have hdrop : text.dropWhile isspace = [] ↔ Blank text := List.dropWhile_eq_nil_iff
  rw [← hdrop, trimSpace, List.reverse_eq_nil_iff, List.dropWhile_eq_nil_iff]
  cases hd : text.dropWhile isspace with
  | nil => simp
  | cons c cs =>
    -- what is left after dropping does not start with white space
    have hc : ¬ isspace c = true := by
      have hne : text.dropWhile isspace ≠ [] := by rw [hd]; exact List.cons_ne_nil _ _
      have := List.head_dropWhile_not isspace hne
      simp only [hd, List.head_cons] at this
      rw [this]
      exact Bool.false_ne_true
    exact ⟨fun h => absurd (h c (by simp)) hc, fun h => absurd h (List.cons_ne_nil _ _)⟩

theorem trimSpace_append_left {p q : CStr} (h : Blank p) : trimSpace (p ++ q) = trimSpace q := by
  rw [trimSpace, List.dropWhile_append_of_pos h, trimSpace]

theorem trimSpace_append_right {p q : CStr} (h : Blank q) : trimSpace (p ++ q) = trimSpace p := by
  have hq : q.dropWhile isspace = [] := List.dropWhile_eq_nil_iff.mpr h
  have hrev : ∀ c ∈ q.reverse, isspace c = true := fun c hc => h c (List.mem_reverse.mp hc)
  rw [trimSpace, trimSpace, List.dropWhile_append]
  split
  case isTrue hp => rw [hq, List.isEmpty_iff.mp hp]
  case isFalse => rw [List.reverse_append, List.dropWhile_append_of_pos hrev]

theorem nonBlank_eq_nil_iff {text : CStr} : nonBlank (trimSpace text) = [] ↔ Blank text := by
  rw [← trimSpace_eq_nil_iff, nonBlank]
  split <;> simp_all

theorem nonBlank_length (text : CStr) : (nonBlank text).length ≤ 1 := by
  rw [nonBlank]
  split <;> simp

/-! ### The pieces of a line -/

/-- The characters of a line, without NUL and newline. -/
def IsLine (line : CStr) : Prop := ∀ c ∈ line, c ≠ '\x00' ∧ c ≠ '\n'

theorem IsLine.take {line : CStr} (h : IsLine line) (n : ℕ) : IsLine (line.take n) :=
  fun c hc => h c (List.mem_of_mem_take hc)

theorem IsLine.drop {line : CStr} (h : IsLine line) (n : ℕ) : IsLine (line.drop n) :=
  fun c hc => h c (List.mem_of_mem_drop hc)

theorem fgetsChars_line : ∀ {n : ℕ} {line : CStr} {rest : List Char}, IsLine line →
    line.length < n → fgetsChars n (line ++ '\n' :: rest) = (line ++ ['\n'], rest)
  | n + 1, [], rest, _, _ => if_pos rfl
  | n + 1, c :: line, rest, h, hlen => by
    have ih := @fgetsChars_line n line rest (List.forall_mem_cons.mp h).2
      (Nat.lt_of_succ_lt_succ hlen)
    rw [List.cons_append, fgetsChars, if_neg (h c List.mem_cons_self).2, ih]
    rfl

theorem fgetsChars_piece : ∀ {n : ℕ} {line : CStr} {rest : List Char}, IsLine line →
    n ≤ line.length → fgetsChars n (line ++ rest) = (line.take n, line.drop n ++ rest)
  | 0, _, _, _, _ => rfl
  | n + 1, c :: line, rest, h, hlen => by
    have ih := @fgetsChars_piece n line rest (List.forall_mem_cons.mp h).2
      (Nat.le_of_succ_le_succ hlen)
    rw [List.cons_append, fgetsChars, if_neg (h c List.mem_cons_self).2, ih]
    rfl

theorem replText_piece {line : CStr} (h : IsLine line) : replText line = trimSpace line := by
  have h0 : line.takeWhile (· ≠ '\x00') = line :=
    List.takeWhile_eq_self_iff.mpr fun c hc => decide_eq_true (h c hc).1
  have h1 : line.takeWhile (· ≠ '\n') = line :=
    List.takeWhile_eq_self_iff.mpr fun c hc => decide_eq_true (h c hc).2
  rw [replText, h0, h1]

theorem replText_line {line : CStr} (h : IsLine line) :
    replText (line ++ ['\n']) = trimSpace line := by
  have h0 : (line ++ ['\n']).takeWhile (· ≠ '\x00') = line ++ ['\n'] := by
    refine List.takeWhile_eq_self_iff.mpr fun c hc => decide_eq_true ?_
    rcases List.mem_append.mp hc with hc | hc
    · exact (h c hc).1
    · rw [List.mem_singleton.mp hc]
      decide
  have h1 : (line ++ ['\n']).takeWhile (· ≠ '\n') = line := by
    rw [List.takeWhile_append_of_pos fun c hc => decide_eq_true (h c hc).2]
    exact List.append_nil line
  rw [replText, h0, h1]

section Pieces

variable {line : CStr} {rest : List Char}

/-- A line that fits the buffer is one piece. -/
theorem replLines_short (h : IsLine line) (hlen : line.length < maxCmd - 1) :
    replLines (line ++ '\n' :: rest) = nonBlank (trimSpace line) ++ replLines rest := by
  have hread : fgets maxCmd (line ++ '\n' :: rest) = some (line ++ ['\n'], rest) := by
    rw [fgets, if_neg (by simp), fgetsChars_line h hlen]
  rw [replLines_of_some hread, replText_line h]

/-- Of a longer line the first piece is read, and the remaining characters as a line. -/
theorem replLines_long (h : IsLine line) (hlen : maxCmd - 1 ≤ line.length) :
    replLines (line ++ rest) = nonBlank (trimSpace (line.take (maxCmd - 1))) ++
      replLines (line.drop (maxCmd - 1) ++ rest) := by
  have hne : line ++ rest ≠ [] := fun h => by
    rw [(List.append_eq_nil_iff.mp h).1] at hlen
    exact absurd hlen (by decide)
  have hread : fgets maxCmd (line ++ rest) =
      some (line.take (maxCmd - 1), line.drop (maxCmd - 1) ++ rest) := by
    rw [fgets, if_neg hne, fgetsChars_piece h hlen]
  rw [replLines_of_some hread, replText_piece (h.take _)]

/-- Induction on a line piece by piece. -/
theorem pieces_induction {P : CStr → Prop}
    (short : ∀ line, IsLine line → line.length < maxCmd - 1 → P line)
    (long : ∀ line, IsLine line → maxCmd - 1 ≤ line.length → P (line.drop (maxCmd - 1)) → P line)
    (h : IsLine line) : P line := by
  induction hn : line.length using Nat.strongRecOn generalizing line with
  | _ n ih =>
    rcases Nat.lt_or_ge line.length (maxCmd - 1) with hlt | hge
    · exact short line h hlt
    · have hdrop : (line.drop (maxCmd - 1)).length < n := by
        rw [List.length_drop, hn]
        have : 0 < maxCmd - 1 := by decide
        omega
      exact long line h hge (ih _ hdrop (h.drop _) rfl)

/-- The strings of the pieces of one line. -/
def lineStrings (line : CStr) : List CStr := replLines (line ++ ['\n'])

theorem lineStrings_short (h : IsLine line) (hlen : line.length < maxCmd - 1) :
    lineStrings line = nonBlank (trimSpace line) := by
  have hnil : replLines [] = [] := replLines_of_none rfl
  rw [lineStrings, replLines_short h hlen, hnil, List.append_nil]

theorem lineStrings_long (h : IsLine line) (hlen : maxCmd - 1 ≤ line.length) :
    lineStrings line =
      nonBlank (trimSpace (line.take (maxCmd - 1))) ++ lineStrings (line.drop (maxCmd - 1)) :=
  replLines_long h hlen

/-- The pieces of a line end with the line. -/
theorem replLines_cons (h : IsLine line) :
    replLines (line ++ '\n' :: rest) = lineStrings line ++ replLines rest := by
  refine pieces_induction (P := fun line =>
    replLines (line ++ '\n' :: rest) = lineStrings line ++ replLines rest)
    (fun line h hlen => ?_) (fun line h hlen ih => ?_) h
  · rw [replLines_short h hlen, lineStrings_short h hlen]
  · rw [replLines_long h hlen, lineStrings_long h hlen, ih, List.append_assoc]

theorem replLines_inputOf {lines : List CStr} (h : ∀ line ∈ lines, IsLine line) :
    replLines (inputOf lines) = lines.flatMap lineStrings := by
  induction lines with
  | nil => exact replLines_of_none rfl
  | cons line lines ih =>
    have hin : inputOf (line :: lines) = line ++ '\n' :: inputOf lines := by
      rw [inputOf, List.flatMap_cons, List.append_assoc]
      rfl
    rw [hin, replLines_cons (h line List.mem_cons_self), List.flatMap_cons,
      ih fun l hl => h l (List.mem_cons_of_mem _ hl)]

theorem lineStrings_eq_nil_iff (h : IsLine line) : lineStrings line = [] ↔ Blank line := by
  refine pieces_induction (P := fun line => lineStrings line = [] ↔ Blank line)
    (fun line h hlen => ?_) (fun line h hlen ih => ?_) h
  · rw [lineStrings_short h hlen, nonBlank_eq_nil_iff]
  · rw [lineStrings_long h hlen, List.append_eq_nil_iff, nonBlank_eq_nil_iff, ih]
    conv_rhs => rw [← List.take_append_drop (maxCmd - 1) line]
    exact List.forall_mem_append.symm

/-- The characters of the line other than white space all lie in one of its pieces. -/
def InOnePiece (line : CStr) : Prop :=
  ∃ n, ∀ i c, (line)[i]? = some c → isspace c = false → i / (maxCmd - 1) = n

theorem blank_iff_getElem? {text : CStr} :
    Blank text ↔ ∀ (i : ℕ) (c : Char), text[i]? = some c → isspace c ≠ false := by
  refine ⟨fun h i c hc => ?_, fun h c hc => ?_⟩
  · rw [h c (List.mem_of_getElem? hc)]
    exact Bool.noConfusion
  · obtain ⟨i, hi⟩ := List.mem_iff_getElem?.mp hc
    exact Bool.of_not_eq_false (h i c hi)

theorem inOnePiece_short (hlen : line.length < maxCmd - 1) : InOnePiece line :=
  ⟨0, fun _ _ hc _ => Nat.div_eq_of_lt ((List.getElem?_eq_some_iff.mp hc).1.trans hlen)⟩

theorem inOnePiece_long : InOnePiece line ↔
    (Blank (line.take (maxCmd - 1)) ∧ InOnePiece (line.drop (maxCmd - 1))) ∨
      Blank (line.drop (maxCmd - 1)) := by
  have hpos : 0 < maxCmd - 1 := by decide
  generalize hk : maxCmd - 1 = k at hpos
  rw [InOnePiece, InOnePiece, hk]
  constructor
  · rintro ⟨n, hn⟩
    cases n with
    | zero =>
      refine .inr (blank_iff_getElem?.mpr fun i c hc hs => ?_)
      rw [List.getElem?_drop] at hc
      have := (Nat.div_eq_zero_iff_lt hpos).mp (hn _ c hc hs)
      omega
    | succ n =>
      refine .inl ⟨blank_iff_getElem?.mpr fun i c hc hs => ?_, n, fun i c hc hs => ?_⟩
      · obtain ⟨hi, -⟩ := List.getElem?_eq_some_iff.mp hc
        rw [List.length_take] at hi
        rw [List.getElem?_take_of_lt (by omega)] at hc
        have := hn i c hc hs
        rw [Nat.div_eq_of_lt (by omega)] at this
        exact absurd this (by omega)
      · rw [List.getElem?_drop] at hc
        have := hn _ c hc hs
        rw [Nat.add_comm, Nat.add_div_right _ hpos] at this
        omega
  · rintro (⟨htake, n, hn⟩ | hdrop)
    · refine ⟨n + 1, fun i c hc hs => ?_⟩
      rcases Nat.lt_or_ge i k with hi | hi
      · refine absurd hs (blank_iff_getElem?.mp htake i c ?_)
        rw [List.getElem?_take_of_lt hi, hc]
      · have := hn (i - k) c (by rw [List.getElem?_drop, Nat.add_sub_cancel' hi, hc]) hs
        rw [← this, ← Nat.add_div_right _ hpos, Nat.sub_add_cancel hi]
    · refine ⟨0, fun i c hc hs => Nat.div_eq_of_lt (Nat.lt_of_not_le fun hi => ?_)⟩
      refine blank_iff_getElem?.mp hdrop (i - k) c ?_ hs
      rw [List.getElem?_drop, Nat.add_sub_cancel' hi, hc]

/-- One line is passed on as a whole exactly when what is in it lies in one piece. -/
theorem lineStrings_eq_iff (h : IsLine line) :
    lineStrings line = nonBlank (trimSpace line) ↔ InOnePiece line := by
  refine pieces_induction (P := fun line =>
    lineStrings line = nonBlank (trimSpace line) ↔ InOnePiece line)
    (fun line h hlen => ?_) (fun line h hlen ih => ?_) h
  · exact iff_of_true (lineStrings_short h hlen) (inOnePiece_short hlen)
  rw [lineStrings_long h hlen, inOnePiece_long, ← ih]
  have hsplit := List.take_append_drop (maxCmd - 1) line
  have hempty := lineStrings_eq_nil_iff (h.drop (maxCmd - 1))
  generalize line.take (maxCmd - 1) = p at hsplit ⊢
  generalize line.drop (maxCmd - 1) = q at hsplit hempty ⊢
  rw [← hsplit]
  by_cases hp : Blank p
  · rw [nonBlank_eq_nil_iff.mpr hp, trimSpace_append_left hp, List.nil_append]
    refine ⟨fun h => .inl ⟨hp, h⟩, fun h => ?_⟩
    rcases h with ⟨-, h⟩ | hq
    · exact h
    · rw [hempty.mpr hq, nonBlank_eq_nil_iff.mpr hq]
  · have hp1 : nonBlank (trimSpace p) = [trimSpace p] :=
      if_neg fun h => hp (trimSpace_eq_nil_iff.mp h)
    by_cases hq : Blank q
    · rw [trimSpace_append_right hq, hempty.mpr hq, List.append_nil]
      exact iff_of_true rfl (.inr hq)
    · -- both parts give a string, one more than the line may
      refine iff_of_false (fun heq => ?_) (by tauto)
      have hlen := congrArg List.length heq
      have hle := nonBlank_length (trimSpace (p ++ q))
      have hq1 := List.length_pos_of_ne_nil (mt hempty.mp hq)
      rw [List.length_append, hp1, List.length_singleton] at hlen
      omega

end Pieces

/-! ### The lines of an input -/

theorem flatMap_nonBlank (lines : List CStr) :
    lines.flatMap (fun line => nonBlank (trimSpace line)) =
      (lines.map trimSpace).filter (· ≠ []) := by
  induction lines with
  | nil => rfl
  | cons line lines ih =>
    rw [List.flatMap_cons, List.map_cons, List.filter_cons, ih, nonBlank]
    by_cases h : trimSpace line = [] <;> simp [h]

theorem nonBlank_length_le (line : CStr) (h : IsLine line) :
    (nonBlank (trimSpace line)).length ≤ (lineStrings line).length := by
  by_cases hb : Blank line
  · rw [nonBlank_eq_nil_iff.mpr hb]
    exact Nat.zero_le _
  · exact (nonBlank_length _).trans
      (List.length_pos_of_ne_nil (mt (lineStrings_eq_nil_iff h).mp hb))

/-- The strings passed on are the non-blank lines without surrounding white space exactly
when the text of every line lies in one piece of 255 characters. -/
theorem dispatched_eq_iff (lines : List CStr) (h : ∀ line ∈ lines, IsLine line) :
    dispatched (inputOf lines) = (lines.map trimSpace).filter (· ≠ []) ↔
      ∀ line ∈ lines, InOnePiece line := by
  rw [dispatched_eq, replLines_inputOf h, ← flatMap_nonBlank,
    flatMap_eq_iff_of_length_le fun line hl => nonBlank_length_le line (h line hl)]
  exact forall₂_congr fun line hl => lineStrings_eq_iff (h line hl)

/-- Two commands and a blank line. -/
def shortLines : List CStr := ["  break main ".toList, [], "run".toList]

theorem dispatched_eq_iff_shortLines :
    dispatched (inputOf shortLines) = ["break main".toList, "run".toList] := by
  have hline : ∀ line ∈ shortLines, ∀ c ∈ line, c ≠ '\x00' ∧ c ≠ '\n' := by decide
  have hlen : ∀ line ∈ shortLines, line.length < maxCmd - 1 := by decide
  exact (dispatched_eq_iff shortLines hline).mpr fun line hl => inOnePiece_short (hlen line hl)

/-- A command, 248 blanks and a word. -/
def paddedLine : CStr := "print 1".toList ++ List.replicate 248 ' ' ++ "kill".toList

/-- The one line of the input is passed on as two commands. -/
theorem dispatched_paddedLine :
    dispatched (inputOf [paddedLine]) = ["print 1".toList, "kill".toList] ∧
      dispatched (inputOf [paddedLine]) ≠ ([paddedLine].map trimSpace).filter (· ≠ []) := by
  have hline : IsLine paddedLine := by
    have h : ∀ c ∈ paddedLine, c ≠ '\x00' ∧ c ≠ '\n' := by decide +kernel
    exact h
  have hstrings : dispatched (inputOf [paddedLine]) = ["print 1".toList, "kill".toList] := by
    rw [dispatched_eq, replLines_inputOf (List.forall_mem_singleton.mpr hline),
      List.flatMap_singleton, lineStrings_long hline (by decide +kernel),
      lineStrings_short (hline.drop _) (by decide +kernel)]
    decide +kernel
  refine ⟨hstrings, fun h => ?_⟩
  have hlen := congrArg List.length (hstrings.symm.trans h)
  exact absurd hlen (by decide +kernel)

end Debugger
