/-
The listing of a function's instructions: `print_otool_disassembly_range` and `cmd_dis` in
`debugger.c`.

The instructions are those that otool prints, at their addresses at run time; where it has none for
the pc, the debuggee's memory is decoded instead.  `OtoolLine` is a line of otool's text: an
instruction, or one of the lines in between, which the loader skips (`loadOtoolDisassembly_text`).

In a text with increasing addresses, the listing begins with the instruction that the pc is at or
in, and goes on with those behind it (`otool_listing_shows`); `dis` with a function begins with its
first instruction (`cmdDis_function`).
-/
import Debugger.DisasmLines
import Debugger.SourceWindow
import Debugger.SymNames

open Prog

namespace Debugger

/-! ### The text of otool -/

/-- `disasm_entry_t` -/
structure DisasmEntry where
  address : Addr
  text : CStr
deriving DecidableEq

/-- `sizeof(text)` in `disasm_entry_t`, and the size of the line buffer. -/
def disasmEntryText : ℕ := 512
abbrev maxOtoolLine : ℕ := 1024

/-- `parse_otool_instruction` -/
def parseOtoolInstruction (line : CStr) : Option DisasmEntry :=
  let p := line.dropWhile isspace
  if p.head?.any fun c => (digitValue 16 c).isSome then
    match scanNum 16 p with
    | none => none
    | some (value, rest) =>
      if rest.head?.any isspace then
        some { address := value, text := stripEol (rest.dropWhile isspace) }
      else none
  else none

/-- `disasm_entry_push` -/
def disasmEntryPush (entries : List DisasmEntry) (entry : DisasmEntry) : List DisasmEntry :=
  entries ++ [{ entry with text := snprintf disasmEntryText entry.text }]

/-- The body of the loop of `load_otool_disassembly`. -/
def otoolRound (entries : List DisasmEntry) (line : CStr) : List DisasmEntry :=
  match parseOtoolInstruction line with
  | none => entries
  | some entry => disasmEntryPush entries entry

def otoolCommand (path : CStr) : CStr := "otool -tvV '".toList ++ (path ++ "' 2>/dev/null".toList)

section Otool

/- What a command prints, and its exit status. -/
variable (popen : CStr → Option (List Char × Int)) (executablePath : CStr)

/-- `load_otool_disassembly`, which does not look at the exit status. -/
def loadOtoolDisassembly : Option (List DisasmEntry) :=
  if executablePath = [] then none
  else if (otoolCommand executablePath).length ≥ maxPath + 64 then none
  else
    match popen (otoolCommand executablePath) with
    | none => none
    | some out =>
      match (fgetsLines maxOtoolLine out.1).foldl otoolRound [] with
      | [] => none
      | entries => some entries

/-- The scan for the first entry that is printed: the last one before the first address beyond the
pc. -/
def otoolStart (linkPc : Addr) : ℕ → ℕ → List DisasmEntry → ℕ
  | start, _, [] => start
  | start, i, entry :: entries =>
    if entry.address ≤ linkPc then otoolStart linkPc i (i + 1) entries else start

/-- `"%s 0x%016lx: %s\n"` -/
def otoolPrinted (slide runtimePc : Addr) (entry : DisasmEntry) : CStr :=
  let runtimeAddr := entry.address + slide
  (if runtimeAddr = runtimePc then "=>".toList else "  ".toList) ++
    (' ' :: (hexNumeral 16 runtimeAddr ++ (':' :: ' ' :: (entry.text ++ ['\n']))))

/-- The slide that the listing uses. -/
def Cdbg.disasmSlide (d : Cdbg) : Addr :=
  if d.lineno.slide ≠ 0 then d.lineno.slide else d.syms.slide

/-- `print_otool_disassembly_range`; `none` is -1. -/
def printOtoolDisassemblyRange (d : Cdbg) (runtimePc : Addr) (insnCount : ℕ)
    (label : Option CStr) : Option CStr :=
  match loadOtoolDisassembly popen executablePath with
  | none => none
  | some entries =>
    let linkPc := runtimePc - d.disasmSlide
    let start := otoolStart linkPc entries.length 0 entries
    match entries[start]? with
    | none => none
    | some first =>
      if linkPc - first.address > 32 then none
      else
        some (disasmHeader runtimePc label ++
          (((entries.drop start).take insnCount).flatMap (otoolPrinted d.disasmSlide runtimePc) ++
            ['\n']))

/-- `print_disassembly_range` -/
def printDisassemblyRange (runtimePc : Addr) (count : ℕ) (label : Option CStr) : DbgM CStr := do
  let s ← get
  match printOtoolDisassemblyRange popen executablePath s.dbg runtimePc count label with
  | some out => return out
  | none => printMemoryDisassemblyRange runtimePc count label

/-- `CDBG_DISASM_DEFAULT_COUNT` -/
def disasmDefaultCount : ℕ := 10

/-- `sizeof(label)` in `cmd_dis`. -/
def disasmLabel : ℕ := 256

/-- The label that `resolve_dis_target` gives to the address of a target. -/
def disTargetLabel (d : Cdbg) (target : CStr) : CStr :=
  let lineLabel (file : Option CStr) (line : UInt32) :=
    ((breakLineRow d.lineno file line).map fun e =>
      e.file ++ ':' :: Nat.toDigits 10 e.line.toNat).getD []
  snprintf disasmLabel <|
    match strrchr ':' target with
    | some (filePart, c :: cs) => lineLabel (some filePart) ((parseU64 (c :: cs)).getD 0).toUInt32
    | _ =>
      match parseU64 target with
      | some parsed => lineLabel none parsed.toUInt32
      | none => displaySymName (d.syms.lookupName target)

/-- `cmd_dis`: the return code and what is printed. -/
def cmdDis (target : CStr) : DbgM (Int × CStr) := do
  let s ← get
  let trimmed := trimSpace (snprintf (maxPath + 64) target)
  if trimmed = [] ∨ executablePath = [] then return (-1, [])
  else
    match resolveDisTarget s.dbg trimmed with
    | none => return (-1, [])
    | some addr =>
      let out ← printDisassemblyRange popen executablePath addr disasmDefaultCount
        (some (disTargetLabel s.dbg trimmed))
      return (0, out)

end Otool

/-! ### What otool prints -/

/-- A line of otool: an instruction with its address, or another one, such as a label. -/
inductive OtoolLine
  | insn (address : Addr) (text : CStr)
  | other (text : CStr)

namespace OtoolLine

def line : OtoolLine → CStr
  | insn address text => hexText 16 address.toNat ++ '\t' :: (text ++ ['\n'])
  | other text => text ++ ['\n']

/-- What the loader relies on: lines that fit the buffer, an instruction on one line without white
space around it, and no other line that begins like an address. -/
def Fits : OtoolLine → Prop
  | insn _ text => '\n' ∉ text ∧ '\x00' ∉ text ∧ '\r' ∉ text ∧
      (∀ c ∈ text.head?, isspace c = false) ∧ text.length ≤ 1005
  | other text => '\n' ∉ text ∧ text.length ≤ 1022 ∧
      ∀ c ∈ (text.dropWhile isspace).head?, digitValue 16 c = none

/-- The entry that is kept of an instruction. -/
def entry : OtoolLine → Option DisasmEntry
  | insn address text => some { address := address, text := snprintf disasmEntryText text }
  | other _ => none

end OtoolLine

def otoolText (lines : List OtoolLine) : List Char := (lines.map OtoolLine.line).flatten

section Text

variable {line : OtoolLine} {lines : List OtoolLine} {entries : List DisasmEntry}

/-- A line without NUL and line ends is shown as it is. -/
theorem stripEol_line {text : CStr} (hnul : '\x00' ∉ text) (hnl : '\n' ∉ text)
    (hcr : '\r' ∉ text) : stripEol (text ++ ['\n']) = text := by
  have hself := takeWhile_noNul hnul []
  rw [List.append_nil, List.takeWhile_nil, List.append_nil] at hself
  have hkeep : text.reverse.dropWhile (fun c => decide (c = '\n' ∨ c = '\r')) = text.reverse := by
    cases hrev : text.reverse with
    | nil => rfl
    | cons c cs =>
      have hc : c ∈ text := List.mem_reverse.mp (hrev ▸ List.mem_cons_self)
      refine List.dropWhile_cons_of_neg ?_
      rw [decide_eq_true_eq]
      rintro (rfl | rfl)
      · exact hnl hc
      · exact hcr hc
  rw [stripEol_newline, stripEol, hself, hkeep, List.reverse_reverse]

theorem parseOtoolInstruction_line (h : line.Fits) :
    (parseOtoolInstruction line.line).map
        (fun e => { e with text := snprintf disasmEntryText e.text }) = line.entry := by
  cases line with
  | insn address text =>
    obtain ⟨hnl, hnul, hcr, hspace, -⟩ := h
    obtain ⟨c, cs, hcs, hc⟩ := @head_hexText 15 address.toNat
    have hdrop : (OtoolLine.insn address text).line.dropWhile isspace =
        hexText 16 address.toNat ++ '\t' :: (text ++ ['\n']) := by
      rw [OtoolLine.line, hcs]
      exact List.dropWhile_cons_of_neg (by rw [(not_space_of_digit hc).1]; decide)
    have hhead : (hexText 16 address.toNat ++ '\t' :: (text ++ ['\n'])).head? = some c := by
      rw [hcs]
      rfl
    have hnum : scanNum 16 (hexText 16 address.toNat ++ '\t' :: (text ++ ['\n'])) =
        some (address, '\t' :: (text ++ ['\n'])) := scanNum_hexText rfl
    have htext : stripEol (('\t' :: (text ++ ['\n'])).dropWhile isspace) = text := by
      rw [List.dropWhile_cons_of_pos (by decide)]
      cases text with
      | nil => rfl
      | cons d ds =>
        have hd := hspace d rfl
        rw [List.cons_append, List.dropWhile_cons_of_neg (by rw [hd]; decide), ← List.cons_append,
          stripEol_line hnul hnl hcr]
    rw [parseOtoolInstruction, hdrop, hhead, Option.any_some, if_pos hc, hnum]
    dsimp only
    rw [if_pos (by rfl), htext]
    rfl
  | other text =>
    obtain ⟨-, -, hdigit⟩ := h
    have hhead : ¬ (((text ++ ['\n']).dropWhile isspace).head?.any
        fun c => (digitValue 16 c).isSome) = true := by
      rw [List.dropWhile_append]
      split
      · decide
      · rename_i hne
        rw [List.isEmpty_iff] at hne
        obtain ⟨c, cs, hcs⟩ := List.exists_cons_of_ne_nil hne
        rw [hcs] at hdigit ⊢
        have hc := hdigit c rfl
        intro hany
        rw [List.cons_append, List.head?_cons, Option.any_some, hc] at hany
        exact Bool.false_ne_true hany
    rw [parseOtoolInstruction, OtoolLine.line, if_neg hhead]
    rfl

theorem foldl_otoolRound (h : ∀ line ∈ lines, line.Fits) :
    (lines.map OtoolLine.line).foldl otoolRound entries =
      entries ++ lines.filterMap OtoolLine.entry := by
  induction lines generalizing entries with
  | nil => exact (List.append_nil entries).symm
  | cons line lines ih =>
    obtain ⟨hline, hlines⟩ := List.forall_mem_cons.mp h
    have hentry := parseOtoolInstruction_line hline
    have hround : otoolRound entries line.line = entries ++ line.entry.toList := by
      rw [otoolRound, ← hentry]
      cases parseOtoolInstruction line.line with
      | none => exact (List.append_nil entries).symm
      | some e => rfl
    rw [List.map_cons, List.foldl_cons, hround, ih hlines, List.append_assoc, List.filterMap_cons]
    cases line.entry <;> rfl

/-- The lines of the text are read one by one. -/
theorem fgetsLines_otoolText (h : ∀ line ∈ lines, line.Fits) :
    fgetsLines maxOtoolLine (otoolText lines) = lines.map OtoolLine.line := by
  refine fgetsLines_flatten ?_ ?_
  · intro text htext
    obtain ⟨line, hline, rfl⟩ := List.mem_map.mp htext
    have hfits := h line hline
    cases line with
    | insn address text =>
      exact isDumpLine_append (not_mem_hexText (by decide)) (isDumpLine_cons (by decide)
        (isDumpLine_append hfits.1 isDumpLine_newline))
    | other text => exact isDumpLine_append hfits.1 isDumpLine_newline
  · intro text htext
    obtain ⟨line, hline, rfl⟩ := List.mem_map.mp htext
    have hfits := h line hline
    cases line with
    | insn address text =>
      have hlen := hfits.2.2.2.2
      simp only [OtoolLine.line, List.length_append, List.length_cons, List.length_nil,
        length_hexText, maxOtoolLine]
      omega
    | other text =>
      have hlen := hfits.2.1
      simp only [OtoolLine.line, List.length_append, List.length_cons, List.length_nil,
        maxOtoolLine]
      omega

end Text

/-! ### What the listing shows -/

/-- The instruction that the pc is at or in, of rows in any order. -/
structure IsAt (rows : List DisasmEntry) (linkPc : Addr) (e : DisasmEntry) : Prop where
  mem : e ∈ rows
  le : e.address ≤ linkPc
  last : ∀ r ∈ rows, r.address ≤ linkPc → r.address ≤ e.address

/-- The addresses increase. -/
def Ascending (rows : List DisasmEntry) : Prop := (rows.map (·.address)).Pairwise (· < ·)

instance (rows : List DisasmEntry) : Decidable (Ascending rows) :=
  inferInstanceAs (Decidable (List.Pairwise _ _))

section Listing

variable {popen : CStr → Option (List Char × Int)} {executablePath : CStr} {d : Cdbg}
  {runtimePc linkPc : Addr} {n : ℕ} {label : Option CStr} {rows front back : List DisasmEntry}
  {e : DisasmEntry} {lines : List OtoolLine} {status : Int}

/-- The path can be asked for, and otool prints the lines. -/
structure OtoolListed (popen : CStr → Option (List Char × Int)) (executablePath : CStr)
    (lines : List OtoolLine) : Prop where
  nonempty : executablePath ≠ []
  short : (otoolCommand executablePath).length < maxPath + 64
  printed : ∃ status, popen (otoolCommand executablePath) = some (otoolText lines, status)
  fits : ∀ line ∈ lines, line.Fits

/-- The instructions of the text are loaded, if it has any. -/
theorem loadOtoolDisassembly_text (h : OtoolListed popen executablePath lines) :
    loadOtoolDisassembly popen executablePath =
      if lines.filterMap OtoolLine.entry = [] then none
      else some (lines.filterMap OtoolLine.entry) := by
  obtain ⟨status, hprinted⟩ := h.printed
  rw [loadOtoolDisassembly, if_neg h.nonempty, if_neg (Nat.not_le.mpr h.short), hprinted]
  dsimp only
  rw [fgetsLines_otoolText h.fits, foldl_otoolRound h.fits, List.nil_append]
  cases lines.filterMap OtoolLine.entry with
  | nil => rfl
  | cons e rows => exact (if_neg (List.cons_ne_nil e rows)).symm

/-- Nothing is found where all addresses are beyond the pc. -/
theorem otoolStart_none : ∀ {rows : List DisasmEntry} {start i : ℕ},
    (∀ r ∈ rows, linkPc < r.address) → otoolStart linkPc start i rows = start := by
  intro rows start i h
  cases rows with
  | nil => rfl
  | cons r rows =>
    rw [otoolStart]
    exact if_neg (UInt64.not_le.mpr (h r List.mem_cons_self))

/-- The last row in front of the first one beyond the pc is found. -/
theorem otoolStart_split : ∀ {front : List DisasmEntry} {start i : ℕ},
    (∀ r ∈ front, r.address ≤ linkPc) → e.address ≤ linkPc → (∀ r ∈ back, linkPc < r.address) →
    otoolStart linkPc start i (front ++ e :: back) = i + front.length := by
  intro front
  induction front with
  | nil =>
    intro start i _ he hback
    rw [List.nil_append, otoolStart, if_pos he, otoolStart_none hback]
    rfl
  | cons r front ih =>
    intro start i hfront he hback
    obtain ⟨hr, hfront⟩ := List.forall_mem_cons.mp hfront
    rw [List.cons_append, otoolStart, if_pos hr, ih hfront he hback, List.length_cons]
    omega

/-- The rows on both sides of one of them. -/
theorem Ascending.split (h : Ascending (front ++ e :: back)) :
    (∀ r ∈ front, r.address < e.address) ∧ ∀ r ∈ back, e.address < r.address := by
  rw [Ascending, List.map_append, List.pairwise_append, List.map_cons, List.pairwise_cons] at h
  obtain ⟨-, ⟨hback, -⟩, hfront⟩ := h
  exact ⟨fun r hr => hfront _ (List.mem_map_of_mem hr) _ List.mem_cons_self,
    fun r hr => hback _ (List.mem_map_of_mem hr)⟩

/-- The listing begins with the row that the pc is at or in. -/
theorem drop_otoolStart (hasc : Ascending rows) (h : IsAt rows linkPc e) (start : ℕ) :
    rows[otoolStart linkPc start 0 rows]? = some e ∧
      rows.drop (otoolStart linkPc start 0 rows) =
        rows.filter (e.address ≤ ·.address) := by
  obtain ⟨front, back, rfl⟩ := List.append_of_mem h.mem
  obtain ⟨hfront, hback⟩ := hasc.split
  have hstart : otoolStart linkPc start 0 (front ++ e :: back) = front.length := by
    rw [otoolStart_split (fun r hr => UInt64.le_trans (UInt64.le_of_lt (hfront r hr)) h.le) h.le,
      Nat.zero_add]
    intro r hr
    rw [← UInt64.not_le]
    intro hle
    have hlast := h.last r (List.mem_append_right _ (List.mem_cons_of_mem _ hr)) hle
    exact UInt64.lt_irrefl _ (UInt64.lt_of_lt_of_le (hback r hr) hlast)
  have hnone : front.filter (e.address ≤ ·.address) = [] := by
    refine List.filter_eq_nil_iff.mpr fun r hr => ?_
    rw [decide_eq_true_eq, UInt64.not_le]
    exact hfront r hr
  have hall : (e :: back).filter (e.address ≤ ·.address) = e :: back := by
    refine List.filter_eq_self.mpr fun r hr => decide_eq_true ?_
    rcases List.mem_cons.mp hr with rfl | hr
    · exact UInt64.le_refl _
    · exact UInt64.le_of_lt (hback r hr)
  rw [hstart, List.filter_append, hnone, hall]
  constructor
  · simp
  · simp

/-- Where there are rows up to the pc, one of them is the last. -/
theorem exists_isAt (h : ∃ r ∈ rows, r.address ≤ linkPc) : ∃ e, IsAt rows linkPc e := by
  induction rows with
  | nil =>
    obtain ⟨r, hr, -⟩ := h
    cases hr
  | cons r rows ih =>
    by_cases hrest : ∃ r ∈ rows, r.address ≤ linkPc
    · obtain ⟨e, he⟩ := ih hrest
      by_cases hbest : r.address ≤ linkPc ∧ e.address < r.address
      · refine ⟨r, List.mem_cons_self, hbest.1, fun r' hr' hle => ?_⟩
        rcases List.mem_cons.mp hr' with rfl | hr'
        · exact UInt64.le_refl _
        · exact UInt64.le_trans (he.last r' hr' hle) (UInt64.le_of_lt hbest.2)
      · refine ⟨e, List.mem_cons_of_mem _ he.mem, he.le, fun r' hr' hle => ?_⟩
        rcases List.mem_cons.mp hr' with rfl | hr'
        · exact UInt64.not_lt.mp fun hlt => hbest ⟨hle, hlt⟩
        · exact he.last r' hr' hle
    · obtain ⟨r', hr', hle⟩ := h
      have hr : r' = r := (List.mem_cons.mp hr').resolve_right fun hin => hrest ⟨r', hin, hle⟩
      refine ⟨r, List.mem_cons_self, hr ▸ hle, fun r'' hr'' hle'' => ?_⟩
      rcases List.mem_cons.mp hr'' with rfl | hin
      · exact UInt64.le_refl _
      · exact absurd ⟨r'', hin, hle''⟩ hrest

end Listing

/-- Of a text of otool with increasing addresses, the listing shows the instruction that the pc is
at or in and those behind it, as many as asked for, each at its address at run time; where there is
no such instruction within 32 bytes, it shows none of them. -/
theorem otool_listing_shows {popen : CStr → Option (List Char × Int)} {executablePath : CStr}
    {lines : List OtoolLine} (h : OtoolListed popen executablePath lines)
    (hasc : Ascending (lines.filterMap OtoolLine.entry)) (d : Cdbg) (runtimePc : Addr)
    (insnCount : ℕ) (label : Option CStr) :
    (∀ e, IsAt (lines.filterMap OtoolLine.entry) (runtimePc - d.disasmSlide) e →
      runtimePc - d.disasmSlide - e.address ≤ 32 →
        printOtoolDisassemblyRange popen executablePath d runtimePc insnCount label =
          some (disasmHeader runtimePc label ++
            ((((lines.filterMap OtoolLine.entry).filter (e.address ≤ ·.address)).take
              insnCount).flatMap (otoolPrinted d.disasmSlide runtimePc) ++ ['\n']))) ∧
    ((∀ e, IsAt (lines.filterMap OtoolLine.entry) (runtimePc - d.disasmSlide) e →
      32 < runtimePc - d.disasmSlide - e.address) →
        printOtoolDisassemblyRange popen executablePath d runtimePc insnCount label = none) := by
  have hload := loadOtoolDisassembly_text h
  generalize lines.filterMap OtoolLine.entry = rows at hasc hload ⊢
  generalize hpc : runtimePc - d.disasmSlide = linkPc
  constructor
  · intro e he hnear
    have hne : rows ≠ [] := List.ne_nil_of_mem he.mem
    obtain ⟨hget, hdrop⟩ := drop_otoolStart hasc he rows.length
    rw [if_neg hne] at hload
    rw [printOtoolDisassemblyRange, hload]
    dsimp only
    rw [hpc, hget, hdrop]
    exact if_neg (UInt64.not_lt.mpr hnear)
  · intro hfar
    by_cases hne : rows = []
    · rw [if_pos hne] at hload
      rw [printOtoolDisassemblyRange, hload]
    rw [if_neg hne] at hload
    rw [printOtoolDisassemblyRange, hload]
    dsimp only
    rw [hpc]
    by_cases hsome : ∃ r ∈ rows, r.address ≤ linkPc
    · obtain ⟨e, he⟩ := exists_isAt hsome
      rw [(drop_otoolStart hasc he rows.length).1]
      exact if_pos (hfar e he)
    · have hall : ∀ r ∈ rows, linkPc < r.address := fun r hr =>
        UInt64.not_le.mp fun hle => hsome ⟨r, hr, hle⟩
      rw [otoolStart_none hall, List.getElem?_eq_none (Nat.le_refl _)]

/-- A function of two instructions. -/
def pushRet : List OtoolLine :=
  [.other "_f:".toList, .insn 0x1000 "pushq\t%rbp".toList, .insn 0x1001 "retq".toList]

def pushRetOtool : CStr → Option (List Char × Int) := fun _ => some (otoolText pushRet, 0)

theorem listed_pushRet : OtoolListed pushRetOtool "a.out".toList pushRet where
  nonempty := by decide
  short := by decide +kernel
  printed := ⟨0, rfl⟩
  fits := by
    intro line hline
    simp only [pushRet, List.mem_cons, List.not_mem_nil, or_false] at hline
    rcases hline with rfl | rfl | rfl
    · refine ⟨by decide, by decide, fun c hc => ?_⟩
      obtain rfl : '_' = c := Option.some.inj hc
      rfl
    · refine ⟨by decide, by decide, by decide, fun c hc => ?_, by decide⟩
      obtain rfl : 'p' = c := Option.some.inj hc
      rfl
    · refine ⟨by decide, by decide, by decide, fun c hc => ?_, by decide⟩
      obtain rfl : 'r' = c := Option.some.inj hc
      rfl

/-- The program with `f`, moved. -/
def slidFunctions : Sys :=
  let s := twoFunctions oneLineRows
  { s with
    dbg := { s.dbg with
      syms := { s.dbg.syms with slide := 0x5000 }
      lineno := { s.dbg.lineno with slide := 0x5000 } } }

theorem otool_listing_shows_pushRet :
    printOtoolDisassemblyRange pushRetOtool "a.out".toList slidFunctions.dbg 0x6001 10 none =
      some "\nDisassembly at 0x6001:\n=> 0x0000000000006001: retq\n\n".toList := by
  rw [(otool_listing_shows listed_pushRet (by decide +kernel) slidFunctions.dbg 0x6001 10 none).1
    { address := 0x1001, text := "retq".toList }
    ⟨by decide +kernel, by decide, by decide +kernel⟩ (by decide)]
  decide +kernel

/-- `dis` with a function shows the instructions from its first one on, which is marked, if otool
has one at the address of its symbol. -/
theorem cmdDis_function {popen : CStr → Option (List Char × Int)} {executablePath : CStr}
    {lines : List OtoolLine} (h : OtoolListed popen executablePath lines)
    (hasc : Ascending (lines.filterMap OtoolLine.entry)) {s : Sys} {target : CStr}
    {sym : SymEntry} {e : DisasmEntry} (hslide : s.dbg.lineno.slide = s.dbg.syms.slide)
    (htarget : trimSpace (snprintf (maxPath + 64) target) = target) (hne : target ≠ [])
    (hcolon : ':' ∉ target) (hnumber : parseU64 target = none)
    (hsym : s.dbg.syms.lookupName target = some sym) (hdefined : sym.undefined = false)
    (he : e ∈ lines.filterMap OtoolLine.entry) (haddr : e.address = sym.address) :
    wp (cmdDis popen executablePath target) (fun r s' => s' = s ∧ r.1 = 0 ∧
      r.2 = disasmHeader (s.dbg.syms.runtimeAddr sym.address)
          (some (snprintf disasmLabel (displaySymName (some sym)))) ++
        ((((lines.filterMap OtoolLine.entry).filter (sym.address ≤ ·.address)).take
          disasmDefaultCount).flatMap (fun e =>
            (if e.address = sym.address then "=>".toList else "  ".toList) ++
              (' ' :: (hexNumeral 16 (s.dbg.syms.runtimeAddr e.address) ++
                (':' :: ' ' :: (e.text ++ ['\n']))))) ++ ['\n'])) s := by
  generalize hrows : lines.filterMap OtoolLine.entry = rows at hasc he ⊢
  have hresolve : resolveDisTarget s.dbg target = some (s.dbg.syms.runtimeAddr sym.address) := by
    simp only [resolveDisTarget, strrchr_eq_none hcolon, hnumber, hsym, hdefined,
      Bool.false_eq_true, if_false]
  have hlabel : disTargetLabel s.dbg target =
      snprintf disasmLabel (displaySymName (some sym)) := by
    simp only [disTargetLabel, strrchr_eq_none hcolon, hnumber, hsym]
  have hused : s.dbg.disasmSlide = s.dbg.syms.slide := by
    rw [Cdbg.disasmSlide, hslide, ite_not]
    split
    · rfl
    · rfl
  have hpc : s.dbg.syms.runtimeAddr sym.address - s.dbg.disasmSlide = sym.address := by
    rw [hused, Syms.runtimeAddr, UInt64.add_sub_cancel]
  have hat : IsAt rows sym.address e :=
    ⟨he, UInt64.le_of_eq haddr, fun r _ hle => haddr ▸ hle⟩
  have hshow := (otool_listing_shows h (by rwa [hrows]) s.dbg
    (s.dbg.syms.runtimeAddr sym.address) disasmDefaultCount
    (some (snprintf disasmLabel (displaySymName (some sym))))).1 e
    (by rwa [hrows, hpc]) (by rw [hpc, haddr, UInt64.sub_self]; decide)
  have hline : otoolPrinted s.dbg.disasmSlide (s.dbg.syms.runtimeAddr sym.address) = fun e =>
      (if e.address = sym.address then "=>".toList else "  ".toList) ++
        (' ' :: (hexNumeral 16 (s.dbg.syms.runtimeAddr e.address) ++
          (':' :: ' ' :: (e.text ++ ['\n'])))) := by
    funext e
    rw [otoolPrinted, hused]
    simp only [Syms.runtimeAddr, UInt64.add_left_inj]
  rw [hline, haddr, hrows] at hshow
  rw [cmdDis, wp_bind, wp_get]
  dsimp only
  rw [htarget, if_neg (not_or.mpr ⟨hne, h.nonempty⟩), hresolve]
  dsimp only
  rw [wp_bind, printDisassemblyRange, wp_bind, wp_get, hlabel, hshow]
  exact ⟨rfl, rfl, rfl⟩

theorem cmdDis_function_pushRet :
    ((cmdDis pushRetOtool "a.out".toList "f".toList).run slidFunctions).1 =
      (0, ("\nDisassembly at f (0x6000):\n=> 0x0000000000006000: pushq\t%rbp\n" ++
        "   0x0000000000006001: retq\n\n").toList) := by
  have h := @cmdDis_function _ _ _ listed_pushRet (by decide +kernel) slidFunctions "f".toList
    ⟨0x1000, 'T', "_f".toList⟩ { address := 0x1000, text := "pushq\t%rbp".toList } (by decide)
    (by decide +kernel) (by decide) (by decide) (by decide) (by decide) (by decide)
    (by decide +kernel) rfl
  obtain ⟨-, hrc, hout⟩ := h
  refine Prod.ext hrc (hout.trans ?_)
  decide +kernel

end Debugger
