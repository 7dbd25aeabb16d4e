/-
The DWARF line number state machine, and `parse_line_program` beside it.

`LineOp.exec` is what the standard says an operation does to the registers of the machine and
to its table of files, and which rows it appends.  The line and the column of the machine are
numbers of any size, and the path of a row is as long as it is; the interpreter keeps a line in
64 bits, stores 32 of them, and stores paths of up to 511 characters.

* `interpret_state` — the interpreter's registers are the machine's, each cut to its width;
* `stored_iff` — a row is stored as it is exactly if it fits into an entry and its file is one of
  the header (`RowFits`);
* `lineProgram_refines` — the interpreter is where the machine is behind every operation exactly
  if it reads each as it is meant and the rows fit, and then the rows it appends are the machine's.
-/
import Debugger.LineOps

open Prog Leb128

namespace Debugger

/-! ### The state machine -/

/-- A row of the machine's table, with the path of its file. -/
structure MachineRow where
  address : Addr
  line : ℤ
  column : ℕ
  path : CStr
deriving DecidableEq, Repr

/-- What an entry of the line table says. -/
def LineEntry.row (e : LineEntry) : MachineRow where
  address := e.address
  line := e.line.toNat
  column := e.column.toNat
  path := e.file

/-- The machine: its table of files, and the registers that a row shows, as they are at the start
of a sequence. -/
structure LineMachine where
  files : FileTable
  address : Addr := 0
  line : ℤ := 1
  file : ℕ := 1
  column : ℕ := 0

section Machine

variable {hdr : StdHeader} {m : LineMachine}

/-- What an operation does to the machine, and the states whose rows it appends. -/
def LineOp.exec (m : LineMachine) : LineOp hdr → LineMachine × List LineMachine
  | .copy => (m, [m])
  | .advancePc delta =>
    ({ m with address := m.address + delta * hdr.minInstLength.toUInt64 }, [])
  | .advanceLine delta => ({ m with line := m.line + delta.toInt }, [])
  | .setFile file => ({ m with file := file.toNat }, [])
  | .setColumn column => ({ m with column := column.toNat }, [])
  | .constAddPc =>
    ({ m with
        address := m.address + UInt64.ofNat
          ((255 - hdr.opcodeBase.toNat) / hdr.lineRange.toNat * hdr.minInstLength.toNat) }, [])
  | .fixedAdvancePc delta => ({ m with address := m.address + delta.toUInt64 }, [])
  | .counted .. => (m, [])
  | .special opcode _ =>
    let m := { m with
      line := m.line + hdr.lineIncrement opcode
      address := m.address + UInt64.ofNat
        (hdr.adjusted opcode / hdr.lineRange.toNat * hdr.minInstLength.toNat) }
    (m, [m])
  | .endSequence => ({ files := m.files }, [m])
  | .setAddress address _ => ({ m with address := address }, [])
  | .defineFile name dirIndex _ _ _ =>
    ({ m with files := m.files ++ [(name.map fun b => Char.ofNat b.toNat, dirIndex)] }, [])
  | .extended .. => (m, [])

/-- The machine at the start of the program. -/
def StdHeader.start (hdr : StdHeader) : LineMachine where
  files := hdr.files

/-- The machine behind a program, and the states whose rows it has appended. -/
def execOps (m : LineMachine) : List (LineOp hdr) → LineMachine × List LineMachine
  | [] => (m, [])
  | op :: ops =>
    ((execOps (op.exec m).1 ops).1, (op.exec m).2 ++ (execOps (op.exec m).1 ops).2)

/-- The row of a state, if its line is positive and its file in the table, where number 0 is no
file. -/
def LineMachine.row (hdr : StdHeader) (m : LineMachine) : Option MachineRow :=
  if 0 < m.line ∧ m.file ≠ 0 then
    m.files[m.file]?.map fun file =>
      { address := m.address, line := m.line, column := m.column,
        path := filePath hdr.dirs file }
  else none

/-- The rows of a program that have a positive line and a file of the table. -/
def machineRows (ops : List (LineOp hdr)) : List MachineRow :=
  (execOps hdr.start ops).2.filterMap (LineMachine.row hdr)

/-- The machine behind some operations of a program. -/
def machineBehind (ops : List (LineOp hdr)) : LineMachine := (execOps hdr.start ops).1

/-- A row goes into an entry of the line table as it is: its line and its column into 32 bits and
its path into the array of the entry, and its file is one of the header.  Of a state without a row
none is stored. -/
def RowFits (hdr : StdHeader) (m : LineMachine) : Prop :=
  match m.row hdr with
  | some row =>
    row.line < 2 ^ 32 ∧ row.column < 2 ^ 32 ∧ row.path.length < maxFile ∧
      m.file < hdr.files.length
  | none => m.file = 0 ∨ hdr.files.length ≤ m.file ∨ Int64.ofInt m.line ≤ 0

/-- The interpreter reads the operation as it is meant, and the rows that it appends fit. -/
def LineOp.FitsAt (m : LineMachine) (op : LineOp hdr) : Prop :=
  op.Fits ∧ ∀ r ∈ (op.exec m).2, RowFits hdr r

/-- Each operation fits where the machine gets to it. -/
def FitsFrom (m : LineMachine) : List (LineOp hdr) → Prop
  | [] => True
  | op :: ops => op.FitsAt m ∧ FitsFrom (op.exec m).1 ops

/-- Each operation of the program fits where it stands. -/
def ProgramFits (ops : List (LineOp hdr)) : Prop := FitsFrom hdr.start ops

/-! ### The machine and the interpreter's registers -/

/-- The registers of the machine as the interpreter has them. -/
def LineMachine.state (m : LineMachine) : LineState where
  address := m.address
  line := Int64.ofInt m.line
  fileIndex := UInt64.ofNat m.file
  column := UInt64.ofNat m.column

theorem execOps_append (before after : List (LineOp hdr)) (m : LineMachine) :
    execOps m (before ++ after) =
      ((execOps (execOps m before).1 after).1,
        (execOps m before).2 ++ (execOps (execOps m before).1 after).2) := by
  induction before generalizing m with
  | nil => rfl
  | cons op before ih =>
    rw [List.cons_append, execOps, execOps, ih, List.append_assoc]

theorem machineBehind_snoc (before : List (LineOp hdr)) (op : LineOp hdr) :
    machineBehind (before ++ [op]) = (op.exec (machineBehind before)).1 := by
  rw [machineBehind, execOps_append]
  rfl

theorem machineRows_snoc (before : List (LineOp hdr)) (op : LineOp hdr) :
    machineRows (before ++ [op]) =
      machineRows before ++ (op.exec (machineBehind before)).2.filterMap (LineMachine.row hdr) := by
  rw [machineRows, execOps_append, List.filterMap_append]
  simp only [execOps, List.append_nil]
  rfl

theorem fitsFrom_iff {ops : List (LineOp hdr)} : FitsFrom m ops ↔
    ∀ before op after, ops = before ++ op :: after → op.FitsAt (execOps m before).1 := by
  induction ops generalizing m with
  | nil => exact iff_of_true trivial fun before op after h => by simp at h
  | cons first ops ih =>
    rw [FitsFrom, ih]
    constructor
    · rintro ⟨hfirst, hrest⟩ before op after h
      cases before with
      | nil =>
        obtain ⟨rfl, rfl⟩ := List.cons.inj h
        exact hfirst
      | cons _ before =>
        obtain ⟨rfl, htail⟩ := List.cons.inj h
        exact hrest before op after htail
    · exact fun h => ⟨h [] first ops rfl,
        fun before op after hops => h (first :: before) op after (by rw [hops]; rfl)⟩

/-- An operation does to the interpreter's registers what it does to the machine's. -/
theorem interpret_state (op : LineOp hdr) (m : LineMachine) :
    op.interpret m.state = ((op.exec m).1.state, (op.exec m).2.map LineMachine.state) := by
  cases op with
  | advanceLine delta =>
    have hline : Int64.ofInt (m.line + delta.toInt) = Int64.ofInt m.line + delta := by
      rw [Int64.ofInt_add, Int64.ofInt_toInt]
    simp only [LineOp.interpret, LineOp.exec, LineMachine.state, hline, List.map_nil]
  | special opcode hopcode =>
    simp only [LineOp.interpret, LineOp.exec, LineMachine.state, Int64.ofInt_add, List.map_cons,
      List.map_nil]
  | setFile file | setColumn column =>
    simp only [LineOp.interpret, LineOp.exec, LineMachine.state, UInt64.ofNat_toNat, List.map_nil]
  | copy | advancePc _ | constAddPc | fixedAdvancePc _ | counted _ _ _ _ | endSequence
  | setAddress _ _ | defineFile _ _ _ _ _ | extended _ _ _ => rfl

/-- An operation appends one row, or none. -/
theorem exec_rows (op : LineOp hdr) (m : LineMachine) :
    (op.exec m).2 = [] ∨ ∃ r, (op.exec m).2 = [r] := by
  cases op with
  | copy | special _ _ | endSequence => exact .inr ⟨_, rfl⟩
  | advancePc _ | advanceLine _ | setFile _ | setColumn _ | constAddPc | fixedAdvancePc _
  | counted _ _ _ _ | setAddress _ _ | defineFile _ _ _ _ _ | extended _ _ _ => exact .inl rfl

/-- What the operations keep: the operands have 64 bits, and the files of the header stay at their
numbers. -/
structure LineMachine.Ok (hdr : StdHeader) (m : LineMachine) : Prop where
  file_lt : m.file < 2 ^ 64
  column_lt : m.column < 2 ^ 64
  files : hdr.files <+: m.files

theorem LineMachine.ok_start {files : FileTable} (h : hdr.files <+: files) :
    LineMachine.Ok hdr { files := files } where
  file_lt := show 1 < 2 ^ 64 by decide
  column_lt := show 0 < 2 ^ 64 by decide
  files := h

theorem LineMachine.Ok.exec (h : m.Ok hdr) (op : LineOp hdr) :
    (op.exec m).1.Ok hdr ∧ ∀ r ∈ (op.exec m).2, r.Ok hdr := by
  have hnone : ∀ r ∈ ([] : List LineMachine), r.Ok hdr := fun r hr => absurd hr List.not_mem_nil
  have hone : ∀ {m' : LineMachine}, m'.Ok hdr → ∀ r ∈ [m'], r.Ok hdr := by
    intro m' hm' r hr
    rwa [List.mem_singleton.mp hr]
  cases op with
  | copy => exact ⟨h, hone h⟩
  | setFile file => exact ⟨⟨file.toNat_lt, h.column_lt, h.files⟩, hnone⟩
  | setColumn column => exact ⟨⟨h.file_lt, column.toNat_lt, h.files⟩, hnone⟩
  | special opcode _ =>
    have hm : LineMachine.Ok hdr (LineOp.exec m (.special opcode ‹_›)).1 :=
      ⟨h.file_lt, h.column_lt, h.files⟩
    exact ⟨hm, hone hm⟩
  | endSequence => exact ⟨LineMachine.ok_start h.files, hone h⟩
  | defineFile name dirIndex _ _ _ =>
    exact ⟨⟨h.file_lt, h.column_lt, h.files.trans (List.prefix_append _ _)⟩, hnone⟩
  | advancePc _ | advanceLine _ | constAddPc | fixedAdvancePc _ | counted _ _ _ _
  | setAddress _ _ | extended _ _ _ => exact ⟨⟨h.file_lt, h.column_lt, h.files⟩, hnone⟩

theorem ok_machineBehind (ops : List (LineOp hdr)) : (machineBehind ops).Ok hdr := by
  induction ops using List.reverseRecOn with
  | nil => exact LineMachine.ok_start List.prefix_rfl
  | append_singleton before op ih =>
    rw [machineBehind_snoc]
    exact (ih.exec op).1

/-! ### Rows and entries -/

/-- The line in an entry is the machine's exactly if it has 32 bits. -/
theorem storedLine_iff {line : ℤ} (hpos : 0 < line) :
    ((Int64.ofInt line).toUInt64.toUInt32.toNat : ℤ) = line ↔ line < 2 ^ 32 := by
  have hword : (Int64.ofInt line).toUInt64.toNat = (line % 2 ^ 64).toNat :=
    @BitVec.toNat_ofInt 64 line
  rw [UInt64.toNat_toUInt32, hword]
  omega

/-- So is the column. -/
theorem storedColumn_iff {column : ℕ} (hlt : column < 2 ^ 64) :
    (UInt64.ofNat column).toUInt32.toNat = column ↔ column < 2 ^ 32 := by
  rw [UInt64.toNat_toUInt32, UInt64.toNat_ofNat_of_lt' hlt]
  omega

/-- A path is stored as it is exactly if there is room for it and its NUL. -/
theorem snprintf_eq_iff {path : CStr} :
    snprintf maxFile path = path ↔ path.length < maxFile := by
  have hmax : 0 < maxFile := by decide
  constructor
  · intro h
    rw [← h]
    exact length_snprintf_lt hmax path
  · exact snprintf_of_lt

/-- A positive line of 32 bits is positive in the interpreter's register. -/
theorem ofInt_pos {line : ℤ} (hpos : 0 < line) (hlt : line < 2 ^ 32) : ¬ Int64.ofInt line ≤ 0 := by
  rw [Int64.le_iff_toInt_le, Int64.toInt_ofInt_of_le (by omega) (by omega)]
  exact Int.not_le.mpr hpos

/-- The row of a state is stored as it is exactly if it fits. -/
theorem stored_iff (h : m.Ok hdr) :
    (storedEntry hdr m.state).map LineEntry.row = m.row hdr ↔ RowFits hdr m := by
  have hnumber : (UInt64.ofNat m.file).toNat = m.file := UInt64.toNat_ofNat_of_lt' h.file_lt
  have hzero : UInt64.ofNat m.file = 0 ↔ m.file = 0 := by
    rw [← UInt64.toNat_inj, hnumber]
    rfl
  have hstored : storedEntry hdr m.state =
      if 0 < Int64.ofInt m.line ∧ m.file ≠ 0 then
        hdr.files[m.file]?.map fun file =>
          { address := m.address, line := (Int64.ofInt m.line).toUInt64.toUInt32,
            column := (UInt64.ofNat m.column).toUInt32,
            file := snprintf maxFile (filePath hdr.dirs file) }
      else none := by
    rw [storedEntry]
    simp only [LineMachine.state, hnumber, ne_eq, hzero]
  by_cases hfile : m.file = 0
  · -- number 0 is no file
    have hrow : m.row hdr = none := if_neg fun hboth => hboth.2 hfile
    rw [hstored, if_neg fun hboth => hboth.2 hfile, RowFits, hrow]
    exact iff_of_true rfl (.inl hfile)
  by_cases hheader : m.file < hdr.files.length
  · -- a file of the header is in the machine's table as well
    obtain ⟨file, hget⟩ : ∃ file, hdr.files[m.file]? = some file :=
      ⟨_, List.getElem?_eq_getElem hheader⟩
    have hget' : m.files[m.file]? = some file := by
      obtain ⟨defined, hfiles⟩ := h.files
      rw [← hfiles, List.getElem?_append_left hheader, hget]
    by_cases hpos : 0 < m.line
    · have hrow : m.row hdr = some
          { address := m.address, line := m.line, column := m.column,
            path := filePath hdr.dirs file } := by
        rw [LineMachine.row, if_pos ⟨hpos, hfile⟩, hget']
        rfl
      rw [hstored, RowFits, hrow]
      by_cases hkept : 0 < Int64.ofInt m.line
      · rw [if_pos ⟨hkept, hfile⟩, hget]
        simp only [Option.map_some, Option.some.injEq, LineEntry.row, MachineRow.mk.injEq,
          true_and, storedLine_iff hpos, storedColumn_iff h.column_lt, snprintf_eq_iff, hheader,
          and_true]
      · -- so far out of range that the register is not positive
        rw [if_neg fun hboth => hkept hboth.1]
        refine iff_of_false (Option.some_ne_none _).symm fun hfits => ?_
        exact ofInt_pos hpos hfits.1 (Int64.not_lt.mp hkept)
    · have hrow : m.row hdr = none := if_neg fun hboth => hpos hboth.1
      rw [hstored, RowFits, hrow]
      by_cases hkept : 0 < Int64.ofInt m.line
      · rw [if_pos ⟨hkept, hfile⟩, hget]
        refine iff_of_false (Option.some_ne_none _) ?_
        rintro (h0 | hlen | hle)
        · exact hfile h0
        · exact Nat.not_lt.mpr hlen hheader
        · exact Int64.not_lt.mpr hle hkept
      · rw [if_neg fun hboth => hkept hboth.1]
        exact iff_of_true rfl (.inr (.inr (Int64.not_lt.mp hkept)))
  · -- a file that the program has defined is not known to the interpreter
    have hnone : hdr.files[m.file]? = none := List.getElem?_eq_none (Nat.le_of_not_lt hheader)
    have hentry : storedEntry hdr m.state = none := by
      rw [hstored, hnone]
      split <;> rfl
    rw [hentry, RowFits]
    cases m.row hdr with
    | none => exact iff_of_true rfl (.inr (.inl (Nat.le_of_not_lt hheader)))
    | some row =>
      exact iff_of_false (Option.some_ne_none _).symm fun hfits => hheader hfits.2.2.2

/-! ### Whole programs -/

section Programs

variable {mem : Mem} {stack : ℕ → UInt8} {unit : ParseCursor} {rows : List LineEntry}
  {ops before after : List (LineOp hdr)} {op : LineOp hdr} {p q : ProgramPoint}

/-- The interpreter is where the machine is behind some operations: in front of the rest of the
program, with the machine's registers, and it has appended entries that say the machine's rows. -/
structure AtMachine (unit : ParseCursor) (rows : List LineEntry) (before : List (LineOp hdr))
    (p : ProgramPoint) : Prop where
  unit : p.unit = unit.behind (encodeOps before)
  state : p.state = (machineBehind before).state
  rows : ∃ appended, p.rows = rows ++ appended ∧ appended.map LineEntry.row = machineRows before

/-- Behind as many rounds as there are operations, the interpreter is where the machine is. -/
def InStep (mem : Mem) (stack : ℕ → UInt8) (unit : ParseCursor) (ops : List (LineOp hdr)) : Prop :=
  ∀ before after, ops = before ++ after → ∀ rows, ∃ p,
    Loop.after (opcodeRound mem stack hdr.toLineHeader) before.length
        { unit := unit, state := {}, rows := rows } = some p ∧
      AtMachine unit rows before p

theorem AtMachine.start : AtMachine unit rows ([] : List (LineOp hdr))
    { unit := unit, state := {}, rows := rows } where
  unit := by rw [encodeOps, List.flatMap_nil, behind_nil]
  state := rfl
  rows := ⟨[], (List.append_nil rows).symm, rfl⟩

theorem AtMachine.sees (h : AtMachine unit rows before p)
    (hprogram : HoldsProgram mem unit (before ++ op :: after)) : Sees mem p.unit op.encode := by
  rw [h.unit]
  exact hprogram.sees

/-- Behind an operation that is read as it is meant, the interpreter is where the machine is
exactly if the rows fit. -/
theorem AtMachine.behind_iff (h : AtMachine unit rows before p) :
    AtMachine unit rows (before ++ [op]) (p.behind op) ↔
      ∀ r ∈ (op.exec (machineBehind before)).2, RowFits hdr r := by
  obtain ⟨appended, hrows, hmap⟩ := h.rows
  have hok := ((ok_machineBehind before).exec op).2
  have hinterpret := interpret_state op (machineBehind before)
  rw [← h.state] at hinterpret
  have hbehind : p.behind op =
      { unit := unit.behind (encodeOps (before ++ [op])),
        state := (machineBehind (before ++ [op])).state,
        rows := rows ++ (appended ++ ((op.exec (machineBehind before)).2.map
          LineMachine.state).filterMap (storedEntry hdr)) } := by
    have hencode : encodeOps (before ++ [op]) = encodeOps before ++ op.encode := by
      simp [encodeOps]
    rw [ProgramPoint.behind, hinterpret, hrows, h.unit, machineBehind_snoc, hencode, behind_append,
      List.append_assoc]
  have hiff : AtMachine unit rows (before ++ [op]) (p.behind op) ↔
      (((op.exec (machineBehind before)).2.map LineMachine.state).filterMap
        (storedEntry hdr)).map LineEntry.row =
          (op.exec (machineBehind before)).2.filterMap (LineMachine.row hdr) := by
    rw [hbehind]
    constructor
    · rintro ⟨-, -, new, hnew, hmapNew⟩
      obtain rfl := List.append_cancel_left hnew
      rw [machineRows_snoc, List.map_append, hmap] at hmapNew
      exact List.append_cancel_left hmapNew
    · intro heq
      refine ⟨rfl, rfl, _, rfl, ?_⟩
      rw [machineRows_snoc, List.map_append, hmap, heq]
  rw [hiff]
  rcases exec_rows op (machineBehind before) with hnone | ⟨r, hone⟩
  · rw [hnone]
    exact iff_of_true rfl fun r hr => absurd hr List.not_mem_nil
  · rw [hone] at hok ⊢
    have hfits := stored_iff (hok r (List.mem_singleton.mpr rfl))
    rw [List.forall_mem_singleton, ← hfits, List.map_singleton, List.filterMap_cons,
      List.filterMap_cons, List.filterMap_nil, List.filterMap_nil]
    cases storedEntry hdr r.state <;> cases r.row hdr <;> simp

/-- A round leads from where the machine is to where it is behind the next operation exactly if the
operation fits there. -/
theorem AtMachine.round_iff (h : AtMachine unit rows before p)
    (hprogram : HoldsProgram mem unit (before ++ op :: after)) :
    (∃ q, opcodeRound mem stack hdr.toLineHeader p = .inl q ∧
      AtMachine unit rows (before ++ [op]) q) ↔ op.FitsAt (machineBehind before) := by
  have hsees := h.sees hprogram
  constructor
  · rintro ⟨q, hround, hq⟩
    have hfits : op.Fits := by
      refine fits_of_opcodeRound op hsees hround ?_ ?_
      · have hencode : encodeOps (before ++ [op]) = encodeOps before ++ op.encode := by
          simp [encodeOps]
        rw [hq.unit, h.unit, hencode, behind_append]
      · rw [hq.state, h.state, machineBehind_snoc, interpret_state]
    rw [opcodeRound_of_fits op hsees hfits] at hround
    obtain rfl := Sum.inl.inj hround
    exact ⟨hfits, h.behind_iff.mp hq⟩
  · rintro ⟨hfits, hrows⟩
    exact ⟨_, opcodeRound_of_fits op hsees hfits, h.behind_iff.mpr hrows⟩

theorem inStep_iff (h : HoldsProgram mem unit ops) :
    InStep mem stack unit ops ↔ ProgramFits ops := by
  rw [ProgramFits, fitsFrom_iff]
  constructor
  · rintro hstep before op after rfl
    obtain ⟨p, hp, hat⟩ := hstep before (op :: after) rfl []
    obtain ⟨q, hq, hat'⟩ := hstep (before ++ [op]) after (by rw [List.append_assoc]; rfl) []
    rw [List.length_append, List.length_singleton, Loop.after_succ hp,
      Sum.getLeft?_eq_some_iff] at hq
    exact (hat.round_iff h).mp ⟨q, hq, hat'⟩
  · -- by induction on the operations that are behind
    intro hfits before
    induction before using List.reverseRecOn with
    | nil => exact fun _ _ rows => ⟨_, rfl, .start⟩
    | append_singleton before op ih =>
      intro after hops rows
      rw [List.append_assoc, List.singleton_append] at hops
      obtain ⟨p, hp, hat⟩ := ih (op :: after) hops rows
      subst hops
      obtain ⟨q, hq, hat'⟩ : ∃ q, opcodeRound mem stack hdr.toLineHeader p = .inl q ∧
          AtMachine unit rows (before ++ [op]) q :=
        (hat.round_iff h).mpr (hfits before op after rfl)
      refine ⟨q, ?_, hat'⟩
      rw [List.length_append, List.length_singleton, Loop.after_succ hp, hq]
      rfl

/-- The interpreter returns 0 and appends the machine's rows for a program that fits. -/
theorem parseLineProgram_of_programFits (h : HoldsProgram mem unit ops) (hfits : ProgramFits ops)
    (rows : List LineEntry) {fuel : ℕ} (hfuel : ops.length < fuel) :
    ∃ appended, parseLineProgram mem stack fuel hdr.toLineHeader unit rows =
      some (0, rows ++ appended) ∧ appended.map LineEntry.row = machineRows ops := by
  have hstep : InStep mem stack unit ops := (inStep_iff h).mpr hfits
  obtain ⟨p, hp, hat⟩ := hstep ops [] (by simp) rows
  obtain ⟨appended, hrows, hmap⟩ := hat.rows
  refine ⟨appended, ?_, hmap⟩
  -- there the program is at its end
  have hlast : opcodeRound mem stack hdr.toLineHeader p = .inr (0, rows ++ appended) := by
    rw [← hrows]
    refine if_pos ?_
    rw [hat.unit, h.2]
    exact UInt64.lt_irrefl _
  obtain ⟨extra, rfl⟩ := Nat.exists_eq_add_of_lt hfuel
  rw [parseLineProgram, Nat.add_assoc, Loop.run_of_after hp, Loop.run, hlast]

/-- The interpreter keeps in step with the state machine exactly if each operation of the program
fits where it stands; then it returns 0 and appends the rows of the machine. -/
theorem lineProgram_refines (hdr : StdHeader) (mem : Mem) (stack : ℕ → UInt8) (unit : ParseCursor)
    (ops : List (LineOp hdr)) (hprogram : HoldsProgram mem unit ops) :
    (InStep mem stack unit ops ↔ ProgramFits ops) ∧
    (ProgramFits ops → ∀ rows fuel, ops.length < fuel →
      ∃ appended, parseLineProgram mem stack fuel hdr.toLineHeader unit rows =
        some (0, rows ++ appended) ∧ appended.map LineEntry.row = machineRows ops) :=
  ⟨inStep_iff hprogram,
    fun hfits rows _ hfuel => parseLineProgram_of_programFits hprogram hfits rows hfuel⟩

end Programs

end Machine

/-- A header of a C unit with one file. -/
def oneFileHeader : StdHeader where
  addressSize := 8
  minInstLength := 1
  lineBase := -5
  lineRange := 14
  opcodeBase := 13
  stdLengths := [0, 0, 1, 1, 1, 1, 0, 0, 0, 1, 0, 0, 1, 0, 0, 0]
  dirs := [[]]
  files := [([], 0), ("a.c".toList, 0)]
  ten_le_opcodeBase := by decide
  opcodeBase_le := by decide
  lineRange_pos := by decide
  length_stdLengths := rfl

/-- `advance_pc 4`, `define_file "b"`, `copy`: no row is in the file that is defined. -/
def copyOps : List (LineOp oneFileHeader) :=
  [.advancePc 4, .defineFile [98] 0 0 0 (by decide), .copy]

/-- `set_isa 200` -/
def isaOps : List (LineOp oneFileHeader) := [.counted 12 [200] (.inr (.inr (by decide))) rfl]

theorem encodeOps_copyOps : encodeOps copyOps = [2, 4, 0, 6, 3, 98, 0, 0, 0, 0, 1] := by
  simp [encodeOps, copyOps, LineOp.encode, encodeExtended, uleb]

theorem encodeOps_isaOps : encodeOps isaOps = [12, 0xc8, 1] := by
  simp [encodeOps, isaOps, LineOp.encode, uleb]

/-- A program that lies at an address. -/
theorem holdsProgram_write {hdr : StdHeader} (ops : List (LineOp hdr)) {bytes : List UInt8}
    (hbytes : encodeOps ops = bytes) {c : ParseCursor}
    (hend : c.data.toNat + bytes.length ≤ c.end_.toNat) (h : (c.behind bytes).data = c.end_) :
    HoldsProgram (Mem.write (fun _ => 0) c.data bytes) c ops := by
  rw [HoldsProgram, hbytes]
  exact ⟨⟨hend, Mem.read_write (by have := c.end_.toNat_lt; omega)⟩, h⟩

theorem programFits_copyOps : ProgramFits copyOps := by
  refine ⟨⟨trivial, ?_⟩, ⟨trivial, ?_⟩, ⟨trivial, ?_⟩, trivial⟩
  · exact fun r hr => absurd hr List.not_mem_nil
  · exact fun r hr => absurd hr List.not_mem_nil
  · intro r hr
    obtain rfl := List.mem_singleton.mp hr
    exact ⟨by decide, by decide, by decide, by decide⟩

theorem lineProgram_refines_copy :
    ∃ appended, parseLineProgram (Mem.write (fun _ => 0) 0x1000 [2, 4, 0, 6, 3, 98, 0, 0, 0, 0, 1])
        (fun _ => 0) 4 oneFileHeader.toLineHeader { data := 0x1000, end_ := 0x100b } [] =
          some (0, [] ++ appended) ∧ appended.map LineEntry.row = machineRows copyOps :=
  (lineProgram_refines oneFileHeader _ _ _ copyOps
    (holdsProgram_write (c := { data := 0x1000, end_ := 0x100b }) copyOps encodeOps_copyOps
      (by decide) (by decide))).2 programFits_copyOps [] 4 (by decide)

/-- Behind the first byte of the operand of `set_isa`, its second one is taken for a `copy`. -/
theorem lineProgram_misreads_operand :
    HoldsProgram (Mem.write (fun _ => 0) 0x1000 [12, 0xc8, 1]) { data := 0x1000, end_ := 0x1003 }
      isaOps ∧
    ∀ fuel appended, parseLineProgram (Mem.write (fun _ => 0) 0x1000 [12, 0xc8, 1]) (fun _ => 0)
        fuel oneFileHeader.toLineHeader { data := 0x1000, end_ := 0x1003 } [] =
          some (0, appended) →
      appended.map LineEntry.row ≠ machineRows isaOps := by
  refine ⟨holdsProgram_write (c := { data := 0x1000, end_ := 0x1003 }) isaOps encodeOps_isaOps
    (by decide) (by decide), fun fuel appended h => ?_⟩
  have hrun : parseLineProgram (Mem.write (fun _ => 0) 0x1000 [12, 0xc8, 1]) (fun _ => 0) 3
      oneFileHeader.toLineHeader { data := 0x1000, end_ := 0x1003 } [] =
        some (0, [{ address := 0, line := 1, column := 0, file := "a.c".toList }]) := by
    decide +kernel
  obtain ⟨-, rfl⟩ := Prod.mk.inj (Loop.run_unique h hrun)
  decide

end Debugger
