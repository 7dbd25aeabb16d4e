/-
The operations of a DWARF line number program, and `parse_line_program` as an interpreter of
them.

`LineOp.encode` is how an operation is written, and `LineOp.interpret` is what becomes of it in
the registers of `line_state_t` where the interpreter reads it as it is meant.

`opcodeRound_of_fits`, `fits_of_opcodeRound`: it does so unless the operands it has to skip are
longer than a byte each, or the line increment is greater than 127.  A program without such
operations is run to its end (`parseLineProgram_of_fits`).
-/
import Debugger.LineReads
import Debugger.FileTables

open Prog Leb128

namespace Debugger

/-! ### Operations -/

/-- A header whose program has the opcodes of the standard: `std_lengths` is an array of 16. -/
structure StdHeader extends LineHeader where
  ten_le_opcodeBase : 10 ≤ opcodeBase.toNat
  opcodeBase_le : opcodeBase.toNat ≤ 16
  lineRange_pos : 0 < lineRange.toNat
  length_stdLengths : stdLengths.length = 16

/-- The number of operands that the header gives for an opcode. -/
def StdHeader.operandCount (hdr : StdHeader) (opcode : UInt8) : ℕ :=
  (hdr.stdLengths[opcode.toNat]?.getD 0).toNat

/-- The operations of a line number program. -/
inductive LineOp (hdr : StdHeader)
  | copy
  | advancePc (delta : UInt64)
  | advanceLine (delta : Int64)
  | setFile (file : UInt64)
  | setColumn (column : UInt64)
  | constAddPc
  | fixedAdvancePc (delta : UInt16)
  /-- `negate_stmt`, `set_basic_block`, those from `set_prologue_end` on, and those that are not
  known: the header counts their operands, and no register of a row changes -/
  | counted (opcode : UInt8) (operands : List ℕ)
      (hopcode : opcode = 6 ∨ opcode = 7 ∨ 10 ≤ opcode.toNat ∧ opcode < hdr.opcodeBase)
      (hcount : operands.length = hdr.operandCount opcode)
  | special (opcode : UInt8) (hopcode : hdr.opcodeBase ≤ opcode)
  | endSequence
  | setAddress (address : UInt64)
      (hsize : hdr.addressSize = 8 ∨ hdr.addressSize = 4 ∧ address.toNat < 2 ^ 32)
  /-- the name is given by its bytes -/
  | defineFile (name : List UInt8) (dirIndex mtime length : UInt64) (hname : 0 ∉ name)
  /-- an extended operation that changes no register of a row -/
  | extended (sub : UInt8) (data : List UInt8) (hsub : sub ≠ 1 ∧ sub ≠ 2 ∧ sub ≠ 3)

section Machine

variable {hdr : StdHeader}

/-- The opcode of a special operation, counted from `opcode_base`. -/
def StdHeader.adjusted (hdr : StdHeader) (opcode : UInt8) : ℕ :=
  opcode.toNat - hdr.opcodeBase.toNat

/-- The line increment of a special operation. -/
def StdHeader.lineIncrement (hdr : StdHeader) (opcode : UInt8) : ℤ :=
  hdr.lineBase.toInt + (hdr.adjusted opcode % hdr.lineRange.toNat : ℕ)

/-- What the interpreter makes of an operation that it reads as it is meant: the registers, and
those whose row it emits. -/
def LineOp.interpret (regs : LineState) : LineOp hdr → LineState × List LineState
  | .copy => (regs, [regs])
  | .advancePc delta =>
    ({ regs with address := regs.address + delta * hdr.minInstLength.toUInt64 }, [])
  | .advanceLine delta => ({ regs with line := regs.line + delta }, [])
  | .setFile file => ({ regs with fileIndex := file }, [])
  | .setColumn column => ({ regs with column := column }, [])
  | .constAddPc =>
    ({ regs with
        address := regs.address + UInt64.ofNat
          ((255 - hdr.opcodeBase.toNat) / hdr.lineRange.toNat * hdr.minInstLength.toNat) }, [])
  | .fixedAdvancePc delta => ({ regs with address := regs.address + delta.toUInt64 }, [])
  | .counted .. => (regs, [])
  | .special opcode _ =>
    let regs := { regs with
      line := regs.line + Int64.ofInt (hdr.lineIncrement opcode)
      address := regs.address + UInt64.ofNat
        (hdr.adjusted opcode / hdr.lineRange.toNat * hdr.minInstLength.toNat) }
    (regs, [regs])
  | .endSequence => ({}, [regs])
  | .setAddress address _ => ({ regs with address := address }, [])
  | .defineFile .. | .extended .. => (regs, [])

/-- The registers behind a program, and those whose rows it emits. -/
def interpretOps (regs : LineState) : List (LineOp hdr) → LineState × List LineState
  | [] => (regs, [])
  | op :: ops =>
    ((interpretOps (op.interpret regs).1 ops).1, (op.interpret regs).2 ++ (interpretOps (op.interpret regs).1 ops).2)

/-- The entry that `emit_row` stores: none where the line is not positive or the file is not one of
the header, where number 0 is no file. -/
def storedEntry (hdr : StdHeader) (row : LineState) : Option LineEntry :=
  if 0 < row.line ∧ row.fileIndex ≠ 0 then
    hdr.files[row.fileIndex.toNat]?.map fun file =>
      { address := row.address, line := row.line.toUInt64.toUInt32,
        column := row.column.toUInt32, file := snprintf maxFile (filePath hdr.dirs file) }
  else none

/-- The entries that are stored for a program. -/
def storedEntries (ops : List (LineOp hdr)) : List LineEntry :=
  (interpretOps {} ops).2.filterMap (storedEntry hdr)

/-- How an extended operation is written. -/
def encodeExtended (body : List UInt8) : List UInt8 := 0 :: uleb body.length ++ body

/-- How an operation is written. -/
def LineOp.encode : LineOp hdr → List UInt8
  | .copy => [1]
  | .advancePc delta => 2 :: uleb delta.toNat
  | .advanceLine delta => 3 :: sleb delta.toInt
  | .setFile file => 4 :: uleb file.toNat
  | .setColumn column => 5 :: uleb column.toNat
  | .constAddPc => [8]
  | .fixedAdvancePc delta => 9 :: bytesOf 2 delta.toUInt64
  | .counted opcode operands _ _ => opcode :: operands.flatMap uleb
  | .special opcode _ => [opcode]
  | .endSequence => encodeExtended [1]
  | .setAddress address _ => encodeExtended (2 :: bytesOf hdr.addressSize.toNat address)
  | .defineFile name dirIndex mtime length _ =>
    encodeExtended (3 :: name ++ 0 :: uleb dirIndex.toNat ++ uleb mtime.toNat ++ uleb length.toNat)
  | .extended sub data _ => encodeExtended (sub :: data)

/-- How a program is written. -/
def encodeOps (ops : List (LineOp hdr)) : List UInt8 := ops.flatMap LineOp.encode

/-- The interpreter reads the operation as it is meant: the operands it skips are of one byte
each, and the line increment is one of an `int8_t`. -/
def LineOp.Fits : LineOp hdr → Prop
  | .counted _ operands _ _ => ∀ n ∈ operands, n < 128
  | .special opcode _ => hdr.lineIncrement opcode ≤ 127
  | _ => True

/-- The registers and the rows behind two programs, one behind the other. -/
theorem interpretOps_append (before after : List (LineOp hdr)) (regs : LineState) :
    interpretOps regs (before ++ after) =
      ((interpretOps (interpretOps regs before).1 after).1,
        (interpretOps regs before).2 ++ (interpretOps (interpretOps regs before).1 after).2) := by
  induction before generalizing regs with
  | nil => rfl
  | cons op before ih =>
    rw [List.cons_append, interpretOps, interpretOps, ih, List.append_assoc]

/-- `emit_row` appends the entry for a row. -/
theorem emitRow_eq (row : LineState) :
    emitRow hdr.toLineHeader row = [row].filterMap (storedEntry hdr) := by
  have hone : [row].filterMap (storedEntry hdr) = (storedEntry hdr row).toList := by
    cases h : storedEntry hdr row with
    | none => simp [h]
    | some entry => simp [h]
  rw [hone]
  rw [emitRow, storedEntry, buildFilePath]
  by_cases hline : row.line ≤ 0
  · rw [if_pos hline, if_neg fun h => Int64.not_le.mpr h.1 hline]
    rfl
  rw [if_neg hline]
  by_cases hfile : row.fileIndex = 0
  · rw [if_pos hfile, if_neg fun h => h.2 hfile]
    rfl
  rw [if_neg hfile, if_pos ⟨Int64.not_le.mp hline, hfile⟩]
  cases hdr.files[row.fileIndex.toNat]? with
  | none => rfl
  | some file =>
    dsimp only [Option.map_some, Option.toList]
    rw [snprintf_snprintf_maxFile]
    rfl

/-! ### One round of the interpreter -/

/-- The address advance of the standard, in 64-bit arithmetic. -/
theorem advance_eq {a r m : UInt8} :
    (a / r).toUInt64 * m.toUInt64 = UInt64.ofNat (a.toNat / r.toNat * m.toNat) := by
  rw [UInt64.ofNat_mul]
  have h : ∀ b : UInt8, b.toUInt64 = UInt64.ofNat b.toNat := fun b => by
    rw [← UInt8.toNat_toUInt64, UInt64.ofNat_toNat]
  rw [h, h, UInt8.toNat_div]

/-- A line increment is kept in an `int8_t`. -/
theorem increment_eq_iff {base : Int8} {a : UInt8} :
    (base + a.toInt8).toInt64 = Int64.ofInt (base.toInt + a.toNat) ↔
      base.toInt + a.toNat ≤ 127 := by
  have ha : a.toInt8.toInt = (a.toNat : ℤ).bmod 256 := BitVec.toInt_eq_toNat_bmod _
  have hlo := base.le_toInt
  have hhi := base.toInt_lt
  have hlt := a.toNat_lt
  rw [← Int64.toInt_inj, Int8.toInt_toInt64, Int8.toInt_add, ha,
    Int64.toInt_ofInt_of_le (by omega) (by omega), Int.bmod_def, Int.bmod_def]
  omega

section Rounds

variable {mem : Mem} {stack : ℕ → UInt8} {p : ProgramPoint} {opcode : UInt8}

/-- The point behind an operation. -/
def ProgramPoint.behind (p : ProgramPoint) (op : LineOp hdr) : ProgramPoint where
  unit := p.unit.behind op.encode
  state := (op.interpret p.state).1
  rows := p.rows ++ (op.interpret p.state).2.filterMap (storedEntry hdr)

/-- The point behind an operation that appends no row, and behind one that appends one. -/
theorem behind_of_no_row (op : LineOp hdr) {state : LineState}
    (hinterpret : op.interpret p.state = (state, [])) :
    p.behind op = { p with unit := p.unit.behind op.encode, state := state } := by
  rw [ProgramPoint.behind, hinterpret, List.filterMap_nil, List.append_nil]

theorem behind_of_row (op : LineOp hdr) {state row : LineState}
    (hinterpret : op.interpret p.state = (state, [row])) :
    p.behind op =
      { unit := p.unit.behind op.encode, state, rows := p.rows ++ emitRow hdr.toLineHeader row } := by
  rw [ProgramPoint.behind, hinterpret, emitRow_eq]

/-- A round at a standard opcode. -/
theorem opcodeRound_standard (h : Sees mem p.unit [opcode]) (h0 : opcode ≠ 0)
    (hlt : opcode < hdr.opcodeBase) :
    opcodeRound mem stack hdr.toLineHeader p = .inl
      (standardOp mem stack hdr.toLineHeader opcode { p with unit := p.unit.behind [opcode] }) := by
  rw [opcodeRound, if_neg (not_not.mpr h.head.2), readU8_sees h]
  dsimp only
  rw [if_neg h0, if_pos hlt]

/-- A round at a special opcode. -/
theorem opcodeRound_special (h : Sees mem p.unit [opcode]) (hge : hdr.opcodeBase ≤ opcode) :
    opcodeRound mem stack hdr.toLineHeader p = .inl
      (specialOp hdr.toLineHeader opcode { p with unit := p.unit.behind [opcode] }) := by
  have h0 : opcode ≠ 0 := by
    rintro rfl
    have hbase := hdr.ten_le_opcodeBase
    have hle := UInt8.le_iff_toNat_le.mp hge
    have hzero : (0 : UInt8).toNat = 0 := rfl
    omega
  rw [opcodeRound, if_neg (not_not.mpr h.head.2), readU8_sees h]
  dsimp only
  rw [if_neg h0, if_neg (UInt8.not_lt.mpr hge)]

/-- A round at an extended opcode ends behind its body, however much of it has been read. -/
theorem opcodeRound_extended {body : List UInt8} {q : ProgramPoint}
    (h : Sees mem p.unit (encodeExtended body))
    (hq : extendedOp mem hdr.toLineHeader
      { p with unit := p.unit.behind (0 :: uleb body.length) } = q)
    (hend : q.unit.end_ = p.unit.end_) :
    opcodeRound mem stack hdr.toLineHeader p =
      .inl { q with unit := p.unit.behind (encodeExtended body) } := by
  rw [encodeExtended] at h ⊢
  have hbody := (sees_append.mp h).2
  obtain ⟨h₀, hlen⟩ := sees_cons.mp (sees_append.mp h).1
  have hword : (UInt64.ofNat body.length).toNat = body.length :=
    UInt64.toNat_ofNat_of_lt' (Nat.lt_of_le_of_lt (Nat.le_trans (Nat.le_add_left _ _) hbody.1)
      (UInt64.toNat_lt _))
  rw [← hword] at hlen
  have hread := readUleb128_sees hlen
  rw [hword, ← behind_append] at hread
  have hin : ¬ (p.unit.behind (0 :: uleb body.length ++ body)).data > p.unit.end_ := by
    rw [gt_iff_lt, UInt64.not_lt, UInt64.le_iff_toNat_le, h.toNat_behind]
    exact h.1
  have hall : p.unit.behind (0 :: uleb body.length ++ body) =
      { data := (p.unit.behind ([0] ++ uleb body.length)).data + UInt64.ofNat body.length,
        end_ := p.unit.end_ } := behind_append
  rw [hall] at hin ⊢
  subst hq
  rw [← hend, opcodeRound, if_neg (not_not.mpr h₀.head.2), readU8_sees h₀]
  dsimp only
  rw [if_pos rfl, hread]
  exact if_neg hin

/-- The body of an extended opcode does what the operation does. -/
theorem extendedOp_endSequence (h : Sees mem p.unit [1]) :
    extendedOp mem hdr.toLineHeader p =
      { p.emit hdr.toLineHeader with unit := p.unit.behind [1], state := {} } := by
  rw [extendedOp, readU8_sees h]
  rfl

theorem extendedOp_setAddress {address : UInt64}
    (hsize : hdr.addressSize = 8 ∨ hdr.addressSize = 4 ∧ address.toNat < 2 ^ 32)
    (h : Sees mem p.unit (2 :: bytesOf hdr.addressSize.toNat address)) :
    extendedOp mem hdr.toLineHeader p =
      { p with
        unit := p.unit.behind (2 :: bytesOf hdr.addressSize.toNat address)
        state := { p.state with address := address } } := by
  obtain ⟨hsub, hdata⟩ := sees_cons.mp h
  have hbehind : p.unit.behind (2 :: bytesOf hdr.addressSize.toNat address) =
      (p.unit.behind [2]).behind (bytesOf hdr.addressSize.toNat address) := @behind_append p.unit [2] _
  have hsub' : ¬ (2 : UInt8) = 1 := by decide
  rw [extendedOp, readU8_sees hsub]
  dsimp only
  rw [if_neg hsub', if_pos rfl]
  rcases hsize with hsize | ⟨hsize, haddress⟩
  · have hnat : hdr.addressSize.toNat = 8 := by rw [hsize]; rfl
    rw [if_pos hsize, hbehind]
    rw [hnat] at hdata ⊢
    rw [readU64_bytesOf hdata]
  · have hnat : hdr.addressSize.toNat = 4 := by rw [hsize]; rfl
    have h8 : ¬ hdr.addressSize = 8 := by rw [hsize]; decide
    rw [if_neg h8, if_pos hsize, hbehind]
    rw [hnat] at hdata ⊢
    obtain ⟨hread, hvalue⟩ := readU32_bytesOf haddress hdata
    rw [hread]
    dsimp only
    rw [hvalue]

theorem extendedOp_other {sub : UInt8} (hsub : sub ≠ 1 ∧ sub ≠ 2) (h : Sees mem p.unit [sub]) :
    extendedOp mem hdr.toLineHeader p = { p with unit := p.unit.behind [sub] } := by
  rw [extendedOp, readU8_sees h]
  exact (if_neg hsub.1).trans (if_neg hsub.2)

/-- The opcodes that are skipped with as many bytes as they have operands. -/
theorem standardOp_counted
    (hopcode : opcode = 6 ∨ opcode = 7 ∨ 10 ≤ opcode.toNat ∧ opcode < hdr.opcodeBase) :
    standardOp mem stack hdr.toLineHeader opcode p =
      { p with unit := p.unit.advance (UInt64.ofNat (hdr.operandCount opcode)) } := by
  have hlt : opcode.toNat < 16 := by
    have hbase := hdr.opcodeBase_le
    rcases hopcode with rfl | rfl | ⟨-, h⟩
    · decide
    · decide
    · exact Nat.lt_of_lt_of_le (UInt8.lt_iff_toNat_lt.mp h) hbase
  have hlength : (stdLength stack hdr.toLineHeader opcode).toUInt64 =
      UInt64.ofNat (hdr.operandCount opcode) := by
    rw [← hdr.length_stdLengths] at hlt
    rw [stdLength, StdHeader.operandCount, List.getElem?_eq_getElem hlt]
    exact (UInt64.toNat_inj.mp (by simp))
  have hne : ∀ o : UInt8, isDecoded o = true → opcode ≠ o := by
    rintro o ho rfl
    rcases hopcode with rfl | rfl | ⟨h10, -⟩
    · exact Bool.noConfusion ho
    · exact Bool.noConfusion ho
    · simp only [isDecoded, List.mem_cons, List.not_mem_nil, decide_eq_true_eq, or_false] at ho
      rcases ho with rfl | rfl | rfl | rfl | rfl | rfl | rfl <;> exact absurd h10 (by decide)
  rw [standardOp, if_neg (hne 1 rfl), if_neg (hne 2 rfl), if_neg (hne 3 rfl), if_neg (hne 4 rfl),
    if_neg (hne 5 rfl), if_neg (hne 8 rfl), if_neg (hne 9 rfl), hlength]

/-- A standard opcode is below `opcode_base`. -/
theorem StdHeader.lt_opcodeBase (hdr : StdHeader) {opcode : UInt8} (h : opcode.toNat < 10) :
    opcode < hdr.opcodeBase :=
  UInt8.lt_iff_toNat_lt.mpr (Nat.lt_of_lt_of_le h hdr.ten_le_opcodeBase)

/-- The operands are skipped with as many bytes as the header counts operands. -/
theorem opcodeRound_counted {operands : List ℕ}
    (hopcode : opcode = 6 ∨ opcode = 7 ∨ 10 ≤ opcode.toNat ∧ opcode < hdr.opcodeBase)
    (h : Sees mem p.unit (opcode :: operands.flatMap uleb)) :
    opcodeRound mem stack hdr.toLineHeader p =
      .inl { p with
        unit := (p.unit.behind [opcode]).advance (UInt64.ofNat (hdr.operandCount opcode)) } := by
  obtain ⟨hop, -⟩ := sees_cons.mp h
  have hstd : opcode ≠ 0 ∧ opcode < hdr.opcodeBase := by
    rcases hopcode with rfl | rfl | ⟨h10, hlt⟩
    · exact ⟨by decide, hdr.lt_opcodeBase (by decide)⟩
    · exact ⟨by decide, hdr.lt_opcodeBase (by decide)⟩
    · refine ⟨?_, hlt⟩
      rintro rfl
      exact absurd h10 (by decide)
  rw [opcodeRound_standard hop hstd.1 hstd.2, standardOp_counted hopcode]

/-- That is where the operands end exactly if they are of one byte each. -/
theorem advance_eq_behind_iff {operands : List ℕ} (hcount : operands.length = hdr.operandCount opcode)
    (h : Sees mem p.unit (opcode :: operands.flatMap uleb)) :
    (p.unit.behind [opcode]).advance (UInt64.ofNat (hdr.operandCount opcode)) =
      p.unit.behind (opcode :: operands.flatMap uleb) ↔ ∀ n ∈ operands, n < 128 := by
  obtain ⟨-, hoperands⟩ := sees_cons.mp h
  have hcounted : hdr.operandCount opcode < 2 ^ 64 :=
    Nat.lt_trans (UInt8.toNat_lt _) (by decide)
  have hbytes : (operands.flatMap uleb).length < 2 ^ 64 :=
    Nat.lt_of_le_of_lt (Nat.le_trans (Nat.le_add_left _ _) hoperands.1) (UInt64.toNat_lt _)
  rw [← length_flatMap_uleb_eq_iff, hcount]
  change (p.unit.behind [opcode]).advance _ =
    p.unit.behind ([opcode] ++ operands.flatMap uleb) ↔ _
  rw [behind_append]
  constructor
  · intro heq
    -- the cursors agree, so as many bytes have been skipped
    have hdata := (UInt64.add_right_inj _).mp (congrArg ParseCursor.data heq)
    rw [← UInt64.toNat_inj, UInt64.toNat_ofNat_of_lt' hcounted,
      UInt64.toNat_ofNat_of_lt' hbytes] at hdata
    exact hdata.symm
  · intro hlen
    rw [← hlen]
    rfl

/-- The line increment of a special opcode is kept in an `int8_t`. -/
theorem opcodeRound_specialOp (hopcode : hdr.opcodeBase ≤ opcode) (h : Sees mem p.unit [opcode]) :
    ∃ increment : Int8,
      (increment.toInt64 = Int64.ofInt (hdr.lineIncrement opcode) ↔
        hdr.lineIncrement opcode ≤ 127) ∧
      opcodeRound mem stack hdr.toLineHeader p =
        .inl (ProgramPoint.emit { p with
          unit := p.unit.behind [opcode]
          state := { p.state with
            line := p.state.line + increment.toInt64
            address := p.state.address + UInt64.ofNat
              (hdr.adjusted opcode / hdr.lineRange.toNat * hdr.minInstLength.toNat) } }
          hdr.toLineHeader) := by
  have hadjusted : (opcode - hdr.opcodeBase).toNat = hdr.adjusted opcode :=
    UInt8.toNat_sub_of_le _ _ hopcode
  have hincrement : hdr.lineIncrement opcode = hdr.lineBase.toInt +
      ((opcode - hdr.opcodeBase) % hdr.lineRange).toNat := by
    rw [StdHeader.lineIncrement, UInt8.toNat_mod, hadjusted]
  refine ⟨hdr.lineBase + ((opcode - hdr.opcodeBase) % hdr.lineRange).toInt8, ?_, ?_⟩
  · rw [hincrement]
    exact increment_eq_iff
  · rw [opcodeRound_special h hopcode, specialOp]
    dsimp only
    rw [advance_eq, hadjusted]

/-- A round at an operation that the interpreter reads as it is meant. -/
theorem opcodeRound_of_fits (op : LineOp hdr) (h : Sees mem p.unit op.encode) (hfits : op.Fits) :
    opcodeRound mem stack hdr.toLineHeader p = .inl (p.behind op) := by
  cases op with
  | copy =>
    rw [opcodeRound_standard h (by decide) (hdr.lt_opcodeBase (by decide)), standardOp, if_pos rfl]
    exact congrArg _ (behind_of_row .copy rfl).symm
  | advancePc delta =>
    obtain ⟨hop, hdelta⟩ := sees_cons.mp h
    rw [opcodeRound_standard hop (by decide) (hdr.lt_opcodeBase (by decide)), standardOp,
      if_neg (by decide), if_pos rfl, readUleb128_sees hdelta, ← behind_append]
    exact congrArg _ (behind_of_no_row (.advancePc delta) rfl).symm
  | advanceLine delta =>
    obtain ⟨hop, hdelta⟩ := sees_cons.mp h
    rw [opcodeRound_standard hop (by decide) (hdr.lt_opcodeBase (by decide)), standardOp,
      if_neg (by decide), if_neg (by decide), if_pos rfl, readSleb128_sees hdelta, ← behind_append]
    exact congrArg _ (behind_of_no_row (.advanceLine delta) rfl).symm
  | setFile file =>
    obtain ⟨hop, hfile⟩ := sees_cons.mp h
    rw [opcodeRound_standard hop (by decide) (hdr.lt_opcodeBase (by decide)), standardOp,
      if_neg (by decide), if_neg (by decide), if_neg (by decide), if_pos rfl,
      readUleb128_sees hfile, ← behind_append]
    exact congrArg _ (behind_of_no_row (.setFile file) rfl).symm
  | setColumn column =>
    obtain ⟨hop, hcolumn⟩ := sees_cons.mp h
    rw [opcodeRound_standard hop (by decide) (hdr.lt_opcodeBase (by decide)), standardOp,
      if_neg (by decide), if_neg (by decide), if_neg (by decide), if_neg (by decide), if_pos rfl,
      readUleb128_sees hcolumn, ← behind_append]
    exact congrArg _ (behind_of_no_row (.setColumn column) rfl).symm
  | constAddPc =>
    rw [opcodeRound_standard h (by decide) (hdr.lt_opcodeBase (by decide)), standardOp,
      if_neg (by decide), if_neg (by decide), if_neg (by decide), if_neg (by decide),
      if_neg (by decide), if_pos rfl]
    have hsub : (255 - hdr.opcodeBase).toNat = 255 - hdr.opcodeBase.toNat :=
      UInt8.toNat_sub_of_le _ _
        (UInt8.le_iff_toNat_le.mpr (Nat.le_of_lt_succ hdr.opcodeBase.toNat_lt))
    rw [← UInt8.toUInt64_div, advance_eq, hsub]
    exact congrArg _ (behind_of_no_row .constAddPc rfl).symm
  | fixedAdvancePc delta =>
    obtain ⟨hop, hdelta⟩ := sees_cons.mp h
    rw [opcodeRound_standard hop (by decide) (hdr.lt_opcodeBase (by decide)), standardOp,
      if_neg (by decide), if_neg (by decide), if_neg (by decide), if_neg (by decide),
      if_neg (by decide), if_neg (by decide), if_pos rfl, readU16_bytesOf hdelta, ← behind_append]
    exact congrArg _ (behind_of_no_row (.fixedAdvancePc delta) rfl).symm
  | counted opcode operands hopcode hcount =>
    rw [opcodeRound_counted hopcode h, (advance_eq_behind_iff hcount h).mpr hfits]
    exact congrArg _ (behind_of_no_row (.counted opcode operands hopcode hcount) rfl).symm
  | special opcode hopcode =>
    obtain ⟨increment, hline, hround⟩ := opcodeRound_specialOp hopcode h
    rw [hround, hline.mpr hfits]
    exact congrArg _ (behind_of_row (.special opcode hopcode) rfl).symm
  | endSequence =>
    have hbody := (sees_append.mp h).2
    rw [opcodeRound_extended h (extendedOp_endSequence
      (p := { p with unit := p.unit.behind (0 :: uleb ([1] : List UInt8).length) }) hbody) rfl]
    exact congrArg _ (behind_of_row .endSequence rfl).symm
  | setAddress address hsize =>
    have hbody := (sees_append.mp h).2
    rw [opcodeRound_extended h (extendedOp_setAddress (p := { p with
      unit := p.unit.behind (0 :: uleb (2 :: bytesOf hdr.addressSize.toNat address).length) })
      hsize hbody) rfl]
    exact congrArg _ (behind_of_no_row (.setAddress address hsize) rfl).symm
  | defineFile name dirIndex mtime length hname =>
    have hbody := (sees_cons.mp (sees_append.mp h).2).1
    rw [opcodeRound_extended h (extendedOp_other (p := { p with
      unit := p.unit.behind (0 :: uleb (3 :: name ++ 0 :: uleb dirIndex.toNat ++
        uleb mtime.toNat ++ uleb length.toNat).length) }) (by decide) hbody) rfl]
    exact congrArg _ (behind_of_no_row (.defineFile name dirIndex mtime length hname) rfl).symm
  | extended sub data hsub =>
    have hbody := (sees_cons.mp (sees_append.mp h).2).1
    rw [opcodeRound_extended h (extendedOp_other
      (p := { p with unit := p.unit.behind (0 :: uleb (sub :: data).length) })
      ⟨hsub.1, hsub.2.1⟩ hbody) rfl]
    exact congrArg _ (behind_of_no_row (.extended sub data hsub) rfl).symm

/-- Where a round leads to the end of the operation and to its line, the interpreter has read it
as it is meant. -/
theorem fits_of_opcodeRound {q : ProgramPoint} (op : LineOp hdr) (h : Sees mem p.unit op.encode)
    (hround : opcodeRound mem stack hdr.toLineHeader p = .inl q)
    (hunit : q.unit = p.unit.behind op.encode)
    (hline : q.state.line = (op.interpret p.state).1.line) : op.Fits := by
  cases op with
  | counted opcode operands hopcode hcount =>
    rw [opcodeRound_counted hopcode h] at hround
    rw [← Sum.inl.inj hround] at hunit
    exact (advance_eq_behind_iff hcount h).mp hunit
  | special opcode hopcode =>
    obtain ⟨increment, hincrement, hround'⟩ := opcodeRound_specialOp hopcode h
    rw [hround'] at hround
    rw [← Sum.inl.inj hround] at hline
    exact hincrement.mp ((Int64.add_right_inj _).mp hline)
  | copy | advancePc _ | advanceLine _ | setFile _ | setColumn _ | constAddPc | fixedAdvancePc _
  | endSequence | setAddress _ _ | defineFile _ _ _ _ _ | extended _ _ _ => trivial

end Rounds

/-! ### Whole programs -/

section Programs

variable {mem : Mem} {stack : ℕ → UInt8} {unit : ParseCursor} {rows : List LineEntry}
  {ops before after : List (LineOp hdr)} {op : LineOp hdr}

/-- The unit holds the program, up to its end. -/
def HoldsProgram (mem : Mem) (unit : ParseCursor) (ops : List (LineOp hdr)) : Prop :=
  Sees mem unit (encodeOps ops) ∧ (unit.behind (encodeOps ops)).data = unit.end_

/-- Where the interpreter is behind some operations that it has read as they are meant. -/
def pointBehind (unit : ParseCursor) (rows : List LineEntry) (before : List (LineOp hdr)) :
    ProgramPoint where
  unit := unit.behind (encodeOps before)
  state := (interpretOps {} before).1
  rows := rows ++ storedEntries before

theorem pointBehind_snoc :
    pointBehind unit rows (before ++ [op]) = (pointBehind unit rows before).behind op := by
  have hencode : encodeOps (before ++ [op]) = encodeOps before ++ op.encode := by
    simp [encodeOps]
  rw [pointBehind, pointBehind, ProgramPoint.behind, hencode, behind_append, storedEntries,
    storedEntries, interpretOps_append, List.filterMap_append]
  simp [interpretOps]

theorem HoldsProgram.sees (h : HoldsProgram mem unit (before ++ op :: after)) :
    Sees mem (unit.behind (encodeOps before)) op.encode := by
  have hencode : encodeOps (before ++ op :: after) =
      encodeOps before ++ (op.encode ++ encodeOps after) := by
    simp [encodeOps]
  have hsees := h.1
  rw [hencode] at hsees
  exact (sees_append.mp (sees_append.mp hsees).2).1

/-- The run from behind some operations of a program. -/
theorem run_pointBehind (h : HoldsProgram mem unit ops) (hfits : ∀ op ∈ ops, op.Fits)
    (rows : List LineEntry) : ∀ {after before : List (LineOp hdr)} {fuel : ℕ},
      ops = before ++ after → after.length < fuel →
        Loop.run (opcodeRound mem stack hdr.toLineHeader) fuel (pointBehind unit rows before) =
          some (0, rows ++ storedEntries ops) := by
  intro after
  induction after with
  | nil =>
    intro before fuel hops hfuel
    rw [List.append_nil] at hops
    subst hops
    obtain ⟨fuel, rfl⟩ := Nat.exists_eq_add_of_lt hfuel
    have hlast : opcodeRound mem stack hdr.toLineHeader (pointBehind unit rows ops) =
        .inr (0, rows ++ storedEntries ops) := by
      refine if_pos ?_
      change ¬ (unit.behind (encodeOps ops)).data < unit.end_
      rw [h.2]
      exact UInt64.lt_irrefl _
    rw [Loop.run, hlast]
  | cons op after ih =>
    intro before fuel hops hfuel
    obtain ⟨fuel, rfl⟩ := Nat.exists_eq_add_of_lt (Nat.lt_of_le_of_lt (Nat.zero_le _) hfuel)
    rw [List.length_cons] at hfuel
    subst hops
    rw [Loop.run, opcodeRound_of_fits op h.sees (hfits op (by simp)), ← pointBehind_snoc]
    exact ih (by rw [List.append_assoc]; rfl) (by omega)

/-- A program of operations that are read as they are meant is interpreted. -/
theorem parseLineProgram_of_fits (h : HoldsProgram mem unit ops) (hfits : ∀ op ∈ ops, op.Fits)
    (rows : List LineEntry) {fuel : ℕ} (hfuel : ops.length < fuel) :
    parseLineProgram mem stack fuel hdr.toLineHeader unit rows =
      some (0, rows ++ storedEntries ops) := by
  have hrun : Loop.run (opcodeRound mem stack hdr.toLineHeader) fuel (pointBehind unit rows []) =
      some (0, rows ++ storedEntries ops) := run_pointBehind h hfits rows rfl hfuel
  rw [parseLineProgram, ← hrun, pointBehind]
  simp [encodeOps, behind_nil, interpretOps, storedEntries]

end Programs

end Machine

end Debugger
