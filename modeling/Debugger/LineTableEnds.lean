/-
When the parser of the `__debug_line` section ends (`parse_line_table`).

A round of the unit loop moves its cursor to the end of the unit, which is where the cursor
was when fewer than four bytes are left; a round of the opcode loop moves its cursor behind
the opcode, except that the length of an extended opcode can lead back to or before it.
`parseLineTable_ends_iff`: apart from these rounds every round advances, and the parser ends.
-/
import Debugger.LineTable

open Prog

namespace Debugger

/-! ### What reading does to a cursor -/

/-- Reading moves a cursor towards its end and not beyond. -/
def Forward {α : Type} (r : Reader α) : Prop :=
  ∀ c : ParseCursor, c.data ≤ c.end_ → (r.run c).2.end_ = c.end_ ∧
    c.data ≤ (r.run c).2.data ∧ (r.run c).2.data ≤ c.end_

section Forward

variable {α β : Type} {mem : Mem} {c : ParseCursor}

theorem toNat_advance {n : UInt64} (h : c.data.toNat + n.toNat < 2 ^ 64) :
    (c.advance n).data.toNat = c.data.toNat + n.toNat := by
  rw [ParseCursor.advance, UInt64.toNat_add, Nat.mod_eq_of_lt h]

theorem toNat_remaining (h : c.data ≤ c.end_) :
    (c.end_ - c.data).toNat = c.end_.toNat - c.data.toNat :=
  UInt64.toNat_sub_of_le _ _ h

/-- Advancing after the check of `cursor_ok`. -/
theorem advance_of_cursorOk {n : UInt64} (h : c.data ≤ c.end_) (hok : cursorOk c n.toNat = true) :
    c.data ≤ (c.advance n).data ∧ (c.advance n).data ≤ c.end_ := by
  have hrem : n.toNat ≤ c.end_.toNat - c.data.toNat := by
    rw [← toNat_remaining h]
    exact of_decide_eq_true hok
  have hend := c.end_.toNat_lt
  have hle := UInt64.le_iff_toNat_le.mp h
  have hadd : (c.advance n).data.toNat = c.data.toNat + n.toNat := toNat_advance (by omega)
  rw [UInt64.le_iff_toNat_le, UInt64.le_iff_toNat_le, hadd]
  omega

theorem Forward.pure (a : α) : Forward (Pure.pure a : Reader α) :=
  fun _ h => ⟨rfl, UInt64.le_refl _, h⟩

theorem Forward.bind {r : Reader α} {f : α → Reader β} (hr : Forward r)
    (hf : ∀ a, Forward (f a)) : Forward (r >>= f) := by
  intro c h
  obtain ⟨hend, hlo, hhi⟩ := hr c h
  obtain ⟨hend', hlo', hhi'⟩ := hf (r.run c).1 (r.run c).2 (by rw [hend]; exact hhi)
  refine ⟨hend'.trans hend, UInt64.le_trans hlo hlo', ?_⟩
  rw [← hend]
  exact hhi'

theorem forward_of_cursorOk {n : UInt64} {value : ParseCursor → α} {default : α} :
    Forward (fun c => if cursorOk c n.toNat then (value c, c.advance n) else (default, c) :
      Reader α) := by
  intro c h
  change (if cursorOk c n.toNat then (value c, c.advance n) else (default, c)).2.end_ = _ ∧ _ ≤
    (if cursorOk c n.toNat then (value c, c.advance n) else (default, c)).2.data ∧
    (if cursorOk c n.toNat then (value c, c.advance n) else (default, c)).2.data ≤ _
  split
  case isTrue hok => exact ⟨rfl, advance_of_cursorOk h hok⟩
  case isFalse => exact ⟨rfl, UInt64.le_refl _, h⟩

theorem readU8_forward : Forward (readU8 mem) := forward_of_cursorOk (n := 1)

theorem readU16_forward : Forward (readU16 mem) := forward_of_cursorOk (n := 2)

theorem readU64From_forward : ∀ (n i : ℕ) (value : UInt64), Forward (readU64From mem n i value)
  | 0, _, value => .pure value
  | n + 1, i, _ => readU8_forward.bind fun _ => readU64From_forward n (i + 1) _

theorem readLebFrom_forward : ∀ (n : ℕ) (value : UInt64) (shift : ℕ) (last : UInt8),
    Forward (readLebFrom mem n value shift last)
  | 0, _, _, _ => .pure _
  | n + 1, value, shift, last => by
    refine readU8_forward.bind fun byte => ?_
    dsimp only
    split
    · exact .pure _
    · exact readLebFrom_forward n _ _ _

theorem readUleb128_forward : Forward (readUleb128 mem) :=
  (readLebFrom_forward 10 0 0 0).bind fun _ => .pure _

theorem readSleb128_forward : Forward (readSleb128 mem) := by
  refine (readLebFrom_forward 10 0 0 0).bind fun r => ?_
  obtain ⟨value, shift, byte⟩ := r
  dsimp only
  split
  · exact .pure _
  · exact .pure _

end Forward

/-! ### The directories of version 4 -/

section InnerLoops

variable {mem : Mem} {c : ParseCursor}

theorem scanCstr_bounds (mem : Mem) : ∀ (n : ℕ) (p : Addr), p.toNat + n < 2 ^ 64 →
    p.toNat ≤ (scanCstr mem n p).toNat ∧ (scanCstr mem n p).toNat ≤ p.toNat + n
  | 0, p, _ => ⟨Nat.le_refl _, Nat.le_refl _⟩
  | n + 1, p, h => by
    have hp : (p + 1).toNat = p.toNat + 1 := by
      have h1 : (1 : UInt64).toNat = 1 := rfl
      rw [UInt64.toNat_add, h1, Nat.mod_eq_of_lt (by omega)]
    have ih := scanCstr_bounds mem n (p + 1) (by omega)
    rw [scanCstr]
    split
    · exact ⟨Nat.le_refl _, Nat.le_add_right _ _⟩
    · omega

/-- Reading a string before the end of a cursor reads at least its terminator. -/
theorem readCstr_advances (h : c.data < c.end_) :
    ((readCstr mem).run c).2.end_ = c.end_ ∧
      c.data < ((readCstr mem).run c).2.data ∧ ((readCstr mem).run c).2.data ≤ c.end_ := by
  have hlt := UInt64.lt_iff_toNat_lt.mp h
  have hend := c.end_.toNat_lt
  obtain ⟨hlo, hhi⟩ := scanCstr_bounds mem (c.end_.toNat - c.data.toNat) c.data (by omega)
  refine ⟨rfl, ?_⟩
  change c.data < (if _ then _ else _) ∧ (if _ then _ else _) ≤ c.end_
  generalize scanCstr mem (c.end_.toNat - c.data.toNat) c.data = p at hlo hhi ⊢
  split
  case isTrue hge =>
    have hge := UInt64.le_iff_toNat_le.mp hge
    rw [UInt64.lt_iff_toNat_lt, UInt64.le_iff_toNat_le]
    omega
  case isFalse hlt' =>
    have hlt' := UInt64.lt_iff_toNat_lt.mp (UInt64.not_le.mp hlt')
    have h1 : (1 : UInt64).toNat = 1 := rfl
    have hp : (p + 1).toNat = p.toNat + 1 := by
      rw [UInt64.toNat_add, h1, Nat.mod_eq_of_lt (by omega)]
    rw [UInt64.lt_iff_toNat_lt, UInt64.le_iff_toNat_le, hp]
    omega

theorem parseDirectoriesV4_succ (mem : Mem) (n : ℕ) (c : ParseCursor) :
    (parseDirectoriesV4 mem (n + 1)).run c =
      if c.data ≥ c.end_ then ([], c)
      else if ((readCstr mem).run c).1 = [] then ([], ((readCstr mem).run c).2)
      else
        (((readCstr mem).run c).1 ::
          ((parseDirectoriesV4 mem n).run ((readCstr mem).run c).2).1,
          ((parseDirectoriesV4 mem n).run ((readCstr mem).run c).2).2) := by
  change (if c.data ≥ c.end_ then (pure [] : Reader (List CStr)) else do
    let dir ← readCstr mem
    if dir = [] then return []
    return dir :: (← parseDirectoriesV4 mem n)).run c = _
  split
  · rfl
  · change (if ((readCstr mem).run c).1 = [] then (pure [] : Reader (List CStr)) else do
      return ((readCstr mem).run c).1 :: (← parseDirectoriesV4 mem n)).run
        ((readCstr mem).run c).2 = _
    split <;> rfl

/-- The loop over the version 4 directories reads a byte in every round, so it has ended after
as many rounds as there are bytes. -/
theorem parseDirectoriesV4_rounds : ∀ {n : ℕ} {c : ParseCursor},
    c.end_.toNat - c.data.toNat ≤ n →
      (parseDirectoriesV4 mem (n + 1)).run c = (parseDirectoriesV4 mem n).run c := by
  intro n
  induction n with
  | zero =>
    intro c h
    rw [parseDirectoriesV4_succ, if_pos (UInt64.le_iff_toNat_le.mpr (by omega))]
    rfl
  | succ n ih =>
    intro c h
    rw [parseDirectoriesV4_succ mem (n + 1) c, parseDirectoriesV4_succ mem n c]
    by_cases hge : c.data ≥ c.end_
    · rw [if_pos hge, if_pos hge]
    · obtain ⟨hend, hlt, -⟩ := @readCstr_advances mem c (UInt64.not_le.mp hge)
      have hlt := UInt64.lt_iff_toNat_lt.mp hlt
      rw [if_neg hge, if_neg hge, ih (by rw [hend]; omega)]

end InnerLoops

/-! ### One round of the opcode loop -/

/-- The opcodes whose operands `parse_line_program` decodes. -/
def isDecoded (opcode : UInt8) : Bool := opcode ∈ [1, 2, 3, 4, 5, 8, 9]

/-- The opcode at the cursor does not lead back: adding the length of an extended opcode does
not wrap to an address at or before the opcode, nor does skipping operands wrap. -/
def OpcodeFits (mem : Mem) (stack : ℕ → UInt8) (hdr : LineHeader) (p : ProgramPoint) : Prop :=
  let (opcode, unit) := (readU8 mem).run p.unit
  if opcode = 0 then
    let (extLen, unit) := (readUleb128 mem).run unit
    ¬ (2 ^ 64 ≤ unit.data.toNat + extLen.toNat ∧
      unit.data.toNat + extLen.toNat ≤ 2 ^ 64 + p.unit.data.toNat)
  else if opcode < hdr.opcodeBase ∧ isDecoded opcode = false then
    unit.data.toNat + (stdLength stack hdr opcode).toNat < 2 ^ 64
  else True

section Opcodes

variable {mem : Mem} {stack : ℕ → UInt8} {hdr : LineHeader} {p p' : ProgramPoint}

theorem readU8_of_lt (mem : Mem) {c : ParseCursor} (h : c.data < c.end_) :
    (readU8 mem).run c = (mem c.data, c.advance 1) ∧
      (c.advance 1).data.toNat = c.data.toNat + 1 ∧ (c.advance 1).data ≤ c.end_ := by
  have hlt := UInt64.lt_iff_toNat_lt.mp h
  have hend := c.end_.toNat_lt
  have hok : cursorOk c 1 = true := by
    refine decide_eq_true ?_
    rw [toNat_remaining (UInt64.le_of_lt h)]
    omega
  have h1 : (1 : UInt64).toNat = 1 := rfl
  have hadd : (c.advance 1).data.toNat = c.data.toNat + 1 := by
    rw [toNat_advance (by omega), h1]
  refine ⟨if_pos hok, hadd, ?_⟩
  rw [UInt64.le_iff_toNat_le, hadd]
  omega

/-- A standard opcode reads its operands, or skips them. -/
theorem standardOp_unit (opcode : UInt8) (h : p.unit.data ≤ p.unit.end_) :
    (isDecoded opcode = true → p.unit.data ≤ (standardOp mem stack hdr opcode p).unit.data) ∧
      (isDecoded opcode = false → (standardOp mem stack hdr opcode p).unit =
        p.unit.advance (stdLength stack hdr opcode).toUInt64) := by
  have hrefl := UInt64.le_refl p.unit.data
  rw [standardOp]
  by_cases h1 : opcode = 1
  · subst h1
    exact ⟨fun _ => hrefl, fun h => Bool.noConfusion h⟩
  by_cases h2 : opcode = 2
  · subst h2
    exact ⟨fun _ => (readUleb128_forward _ h).2.1, fun h => Bool.noConfusion h⟩
  by_cases h3 : opcode = 3
  · subst h3
    exact ⟨fun _ => (readSleb128_forward _ h).2.1, fun h => Bool.noConfusion h⟩
  by_cases h4 : opcode = 4
  · subst h4
    exact ⟨fun _ => (readUleb128_forward _ h).2.1, fun h => Bool.noConfusion h⟩
  by_cases h5 : opcode = 5
  · subst h5
    exact ⟨fun _ => (readUleb128_forward _ h).2.1, fun h => Bool.noConfusion h⟩
  by_cases h8 : opcode = 8
  · subst h8
    exact ⟨fun _ => hrefl, fun h => Bool.noConfusion h⟩
  by_cases h9 : opcode = 9
  · subst h9
    exact ⟨fun _ => (readU16_forward _ h).2.1, fun h => Bool.noConfusion h⟩
  have hno : isDecoded opcode = false := by simp [isDecoded, h1, h2, h3, h4, h5, h8, h9]
  rw [if_neg h1, if_neg h2, if_neg h3, if_neg h4, if_neg h5, if_neg h8, if_neg h9]
  exact ⟨fun h => Bool.noConfusion (hno.symm.trans h), fun _ => rfl⟩

/-- A round of the opcode loop that goes on advances exactly when its opcode does not lead
back. -/
theorem opcodeRound_advances (h : opcodeRound mem stack hdr p = .inl p') :
    p.unit.data < p'.unit.data ↔ OpcodeFits mem stack hdr p := by
  rw [opcodeRound] at h
  split at h
  case isTrue => exact nomatch h
  case isFalse hlt =>
    have hlt := not_not.mp hlt
    obtain ⟨hread, hnext, hend⟩ := readU8_of_lt mem hlt
    rw [OpcodeFits]
    rw [hread] at h ⊢
    dsimp only at h ⊢
    split at h
    case isTrue h0 =>
      rw [if_pos h0]
      have hlo := UInt64.le_iff_toNat_le.mp (@readUleb128_forward mem (p.unit.advance 1) hend).2.1
      generalize (readUleb128 mem).run (p.unit.advance 1) = r at h hlo ⊢
      obtain ⟨extLen, unit⟩ := r
      dsimp only at h hlo ⊢
      split at h
      case isTrue => exact nomatch h
      case isFalse =>
        obtain rfl := Sum.inl.inj h
        -- the cursor is set behind the length, and the length is added
        have hlen := extLen.toNat_lt
        have hdata := unit.data.toNat_lt
        rw [UInt64.lt_iff_toNat_lt, UInt64.toNat_add]
        omega
    case isFalse h0 =>
      rw [if_neg h0]
      have hbefore : p.unit.data < (p.unit.advance 1).data := by
        rw [UInt64.lt_iff_toNat_lt, hnext]
        exact Nat.lt_succ_self _
      split at h
      case isTrue hstd =>
        obtain rfl := Sum.inl.inj h
        obtain ⟨hdec, hskip⟩ := @standardOp_unit mem stack hdr
          { p with unit := p.unit.advance 1 } (mem p.unit.data) hend
        cases hd : isDecoded (mem p.unit.data) with
        | true =>
          rw [if_neg fun h => Bool.noConfusion h.2]
          exact iff_of_true (UInt64.lt_of_lt_of_le hbefore (hdec hd)) trivial
        | false =>
          rw [if_pos ⟨hstd, rfl⟩, hskip hd, UInt64.lt_iff_toNat_lt]
          have hlen := (stdLength stack hdr (mem p.unit.data)).toNat_lt
          have hdata := (p.unit.advance 1).data.toNat_lt
          rw [ParseCursor.advance, UInt64.toNat_add, UInt8.toNat_toUInt64]
          dsimp only
          omega
      case isFalse hstd =>
        obtain rfl := Sum.inl.inj h
        rw [if_neg fun h => hstd h.1]
        exact iff_of_true hbefore trivial

end Opcodes

/-! ### One round of the unit loop -/

/-- The length of the unit at the cursor is there, and adding it does not wrap. -/
def UnitFits (mem : Mem) (cursor : ParseCursor) : Prop :=
  4 ≤ (cursor.end_ - cursor.data).toNat ∧
    cursor.data.toNat + 4 + ((readU32 mem).run cursor).1.toNat < 2 ^ 64

/-- `unit_end` -/
def unitEnd (mem : Mem) (cursor : ParseCursor) : Addr :=
  ((readU32 mem).run cursor).2.data + ((readU32 mem).run cursor).1.toUInt64

section Units

variable {mem : Mem} {stack : ℕ → UInt8} {lineStr : LineStr} {fuel : ℕ} {c : ParseCursor}
  {p p' : TablePoint} {hdr : LineHeader} {unit : ParseCursor}

/-- Reading does not move the end of a cursor. -/
theorem readU8_end (c : ParseCursor) : ((readU8 mem).run c).2.end_ = c.end_ := by
  change (if _ then _ else _ : UInt8 × ParseCursor).2.end_ = _
  split <;> rfl

theorem readU16_end (c : ParseCursor) : ((readU16 mem).run c).2.end_ = c.end_ := by
  change (if _ then _ else _ : UInt16 × ParseCursor).2.end_ = _
  split <;> rfl

theorem readU32_end (c : ParseCursor) : ((readU32 mem).run c).2.end_ = c.end_ := by
  change (if _ then _ else _ : UInt32 × ParseCursor).2.end_ = _
  split <;> rfl

/-- Whatever is in the unit, its program is read up to `unit_end`, and what is skipped is
skipped up to there. -/
theorem readUnit_cases (mem : Mem) (lineStr : LineStr) (c : ParseCursor) :
    readUnit mem lineStr c = .fail ∨ readUnit mem lineStr c = .skip (unitEnd mem c) ∨
      ∃ hdr unit, readUnit mem lineStr c = .program hdr unit ∧ unit.end_ = unitEnd mem c := by
  rw [readUnit, unitEnd]
  generalize (readU32 mem).run c = r
  obtain ⟨unitLength, c'⟩ := r
  dsimp only
  split
  case isTrue => exact .inl rfl
  split
  case isTrue => exact .inl rfl
  have hend := @readU16_end mem ⟨c'.data, c'.data + unitLength.toUInt64⟩
  generalize (readU16 mem).run ⟨c'.data, c'.data + unitLength.toUInt64⟩ = r at hend ⊢
  obtain ⟨version, unit⟩ := r
  dsimp only at hend ⊢
  split
  case isTrue => exact .inr (.inl rfl)
  have hend₁ : (if version = 5 then (readU8 mem).run unit else (8, unit)).2.end_ = unit.end_ := by
    split
    · exact readU8_end unit
    · rfl
  generalize (if version = 5 then (readU8 mem).run unit else (8, unit)) = r at hend₁ ⊢
  obtain ⟨addressSize, unit₁⟩ := r
  dsimp only at hend₁ ⊢
  have hend₂ : (if version = 5 then (readU8 mem).run unit₁ else (0, unit₁)).2.end_ =
      unit₁.end_ := by
    split
    · exact readU8_end unit₁
    · rfl
  generalize (if version = 5 then (readU8 mem).run unit₁ else (0, unit₁)) = r at hend₂ ⊢
  obtain ⟨segmentSize, unit₂⟩ := r
  dsimp only at hend₂ ⊢
  have hend₃ := @readU32_end mem unit₂
  generalize (readU32 mem).run unit₂ = r at hend₃ ⊢
  obtain ⟨prologueLength, unit₃⟩ := r
  dsimp only at hend₃ ⊢
  split
  case isTrue => exact .inl rfl
  split
  case h_1 => exact .inl rfl
  case h_2 =>
    refine .inr (.inr ⟨_, _, rfl, ?_⟩)
    exact hend₃.trans (hend₂.trans (hend₁.trans hend))

/-- A round of the unit loop that goes on moves the cursor to `unit_end`. -/
theorem unitRound_cursor (h : unitRound mem stack lineStr fuel p = .inl p') :
    p.cursor.data < p.cursor.end_ ∧ p'.cursor.data = unitEnd mem p.cursor := by
  rw [unitRound] at h
  split at h
  case isTrue => exact nomatch h
  case isFalse hlt =>
    refine ⟨not_not.mp hlt, ?_⟩
    rcases readUnit_cases mem lineStr p.cursor with hu | hu | ⟨hdr, unit, hu, hend⟩
    · rw [hu] at h
      exact nomatch h
    · rw [hu] at h
      rw [← Sum.inl.inj h]
    · rw [hu] at h
      dsimp only at h
      split at h
      case h_1 => exact nomatch h
      case h_2 =>
        split at h
        case isTrue => exact nomatch h
        case isFalse =>
          rw [← Sum.inl.inj h]
          exact hend

/-- A round of the unit loop that goes on advances exactly when the length of the unit is
there and does not wrap. -/
theorem unitRound_advances (h : unitRound mem stack lineStr fuel p = .inl p') :
    p.cursor.data < p'.cursor.data ↔ UnitFits mem p.cursor := by
  obtain ⟨hlt, hcursor⟩ := unitRound_cursor h
  have hlt' := UInt64.lt_iff_toNat_lt.mp hlt
  have hend := p.cursor.end_.toNat_lt
  have hrem := toNat_remaining (UInt64.le_of_lt hlt)
  rw [hcursor, unitEnd, UnitFits]
  by_cases h4 : cursorOk p.cursor 4 = true
  · have hread : (readU32 mem).run p.cursor = (((readU32 mem).run p.cursor).1, p.cursor.advance 4) := by
      refine Prod.ext rfl ?_
      change (if _ then _ else _ : UInt32 × ParseCursor).2 = _
      rw [if_pos h4]
    have hle : 4 ≤ (p.cursor.end_ - p.cursor.data).toNat := of_decide_eq_true h4
    have hadd : (p.cursor.advance 4).data.toNat = p.cursor.data.toNat + 4 :=
      toNat_advance (n := 4) (by
        have h4' : (4 : UInt64).toNat = 4 := rfl
        omega)
    have hlen := ((readU32 mem).run p.cursor).1.toNat_lt
    rw [hread]
    dsimp only
    rw [UInt64.lt_iff_toNat_lt, UInt64.toNat_add, hadd, UInt32.toNat_toUInt64]
    omega
  · have hread : (readU32 mem).run p.cursor = (0, p.cursor) := by
      change (if _ then _ else _ : UInt32 × ParseCursor) = _
      rw [if_neg h4]
    have hle : ¬ 4 ≤ (p.cursor.end_ - p.cursor.data).toNat := fun h => h4 (decide_eq_true h)
    rw [hread]
    refine iff_of_false (fun h => ?_) fun h => hle h.1
    have h0 : (0 : UInt32).toUInt64 = 0 := rfl
    rw [h0, UInt64.add_zero] at h
    exact UInt64.lt_irrefl p.cursor.data h

end Units

/-! ### All rounds of a run -/

section Runs

variable (mem : Mem) (stack : ℕ → UInt8) (lineStr : LineStr) (fuel : ℕ) (start : TablePoint)

/-- Every round of the unit loop that goes on satisfies `U`, and every round of the opcode
loop that does, in the program of any unit the parser comes by, satisfies `O`. -/
structure EveryRound (U : TablePoint → TablePoint → Prop)
    (O : LineHeader → ProgramPoint → ProgramPoint → Prop) : Prop where
  units : ∀ p p', Loop.Visits (unitRound mem stack lineStr fuel) start p →
    unitRound mem stack lineStr fuel p = .inl p' → U p p'
  opcodes : ∀ p hdr unit, Loop.Visits (unitRound mem stack lineStr fuel) start p →
    p.cursor.data < p.cursor.end_ → readUnit mem lineStr p.cursor = .program hdr unit →
    ∀ q q', Loop.Visits (opcodeRound mem stack hdr) { unit := unit, state := {}, rows := p.rows } q →
      opcodeRound mem stack hdr q = .inl q' → O hdr q q'

/-- Every round strictly advances its cursor. -/
def Advances : Prop := EveryRound mem stack lineStr fuel start
  (fun p p' => p.cursor.data < p'.cursor.data) fun _ q q' => q.unit.data < q'.unit.data

/-- No round meets a unit or an opcode that leads back. -/
def Fits : Prop := EveryRound mem stack lineStr fuel start
  (fun p _ => UnitFits mem p.cursor) fun hdr q _ => OpcodeFits mem stack hdr q

variable {mem stack lineStr fuel start}

theorem EveryRound.congr {U U' : TablePoint → TablePoint → Prop}
    {O O' : LineHeader → ProgramPoint → ProgramPoint → Prop}
    (hU : ∀ p p', unitRound mem stack lineStr fuel p = .inl p' → (U p p' ↔ U' p p'))
    (hO : ∀ hdr q q', opcodeRound mem stack hdr q = .inl q' → (O hdr q q' ↔ O' hdr q q')) :
    EveryRound mem stack lineStr fuel start U O ↔ EveryRound mem stack lineStr fuel start U' O' :=
  ⟨fun h => ⟨fun p p' hv hb => (hU p p' hb).mp (h.units p p' hv hb),
      fun p hdr unit hv hlt hu q q' hq hb =>
        (hO hdr q q' hb).mp (h.opcodes p hdr unit hv hlt hu q q' hq hb)⟩,
    fun h => ⟨fun p p' hv hb => (hU p p' hb).mpr (h.units p p' hv hb),
      fun p hdr unit hv hlt hu q q' hq hb =>
        (hO hdr q q' hb).mpr (h.opcodes p hdr unit hv hlt hu q q' hq hb)⟩⟩

theorem advances_iff_fits :
    Advances mem stack lineStr fuel start ↔ Fits mem stack lineStr fuel start :=
  EveryRound.congr (fun _ _ hb => unitRound_advances hb) fun _ _ _ hb => opcodeRound_advances hb

/-- The space above a cursor shrinks as it advances. -/
theorem space_lt {a b : Addr} (h : a < b) : 2 ^ 64 - b.toNat < 2 ^ 64 - a.toNat := by
  have hlt := UInt64.lt_iff_toNat_lt.mp h
  have hb := b.toNat_lt
  omega

theorem unitRound_ne_out {p : TablePoint} (h : ∀ hdr unit,
    p.cursor.data < p.cursor.end_ → readUnit mem lineStr p.cursor = .program hdr unit →
      (parseLineProgram mem stack fuel hdr unit p.rows).isSome = true) :
    unitRound mem stack lineStr fuel p ≠ .inr none := by
  intro hout
  rw [unitRound] at hout
  split at hout
  case isTrue => exact nomatch hout
  case isFalse hlt =>
    have hlt := not_not.mp hlt
    cases hu : readUnit mem lineStr p.cursor with
    | fail =>
      rw [hu] at hout
      exact nomatch hout
    | skip e =>
      rw [hu] at hout
      exact nomatch hout
    | program hdr unit =>
      obtain ⟨⟨rc, rows⟩, hrun⟩ := Option.isSome_iff_exists.mp (h hdr unit hlt hu)
      rw [hu] at hout
      dsimp only at hout
      rw [hrun] at hout
      dsimp only at hout
      split at hout
      · exact nomatch hout
      · exact nomatch hout

/-- A parser whose every round advances ends. -/
theorem Advances.ends {sectionStart : Addr} {sectionSize : UInt64} (hfuel : 2 ^ 64 < fuel)
    (h : Advances mem stack lineStr fuel
      { cursor := { data := sectionStart, end_ := sectionStart + sectionSize } }) :
    (parseLineTable mem stack lineStr fuel sectionStart sectionSize).isSome = true := by
  have hbound : ∀ a : Addr, 2 ^ 64 - a.toNat < fuel := fun a =>
    Nat.lt_of_le_of_lt (Nat.sub_le _ _) hfuel
  obtain ⟨r, hr⟩ := Option.isSome_iff_exists.mp
    (Loop.run_isSome (fun p : TablePoint => 2 ^ 64 - p.cursor.data.toNat)
      (fun p p' hv hb => space_lt (h.units p p' hv hb)) (hbound sectionStart))
  obtain ⟨p, hv, hb⟩ := Loop.run_result hr
  -- the last round has not left because its program ran on
  have hout : unitRound mem stack lineStr fuel p ≠ .inr none :=
    unitRound_ne_out fun hdr unit hlt hu =>
      Loop.run_isSome (fun q : ProgramPoint => 2 ^ 64 - q.unit.data.toNat)
        (fun q q' hq hb => space_lt (h.opcodes p hdr unit hv hlt hu q q' hq hb))
        (hbound unit.data)
  rw [parseLineTable, hr]
  cases r with
  | none => exact absurd hb hout
  | some r => rfl

/-- Every round of the parser strictly advances and the parser ends exactly when no round
meets a unit or an opcode that leads back.  The loop over the directories of a version 4 unit has
always ended after as many rounds as there are bytes. -/
theorem parseLineTable_ends_iff (mem : Mem) (stack : ℕ → UInt8) (lineStr : LineStr)
    (sectionStart : Addr) (sectionSize : UInt64) {fuel : ℕ} (hfuel : 2 ^ 64 < fuel) :
    ((Advances mem stack lineStr fuel
        { cursor := { data := sectionStart, end_ := sectionStart + sectionSize } } ∧
      (parseLineTable mem stack lineStr fuel sectionStart sectionSize).isSome = true) ↔
    Fits mem stack lineStr fuel
      { cursor := { data := sectionStart, end_ := sectionStart + sectionSize } }) ∧
    ∀ (c : ParseCursor) (rounds : ℕ), c.end_.toNat - c.data.toNat ≤ rounds →
      (parseDirectoriesV4 mem (rounds + 1)).run c = (parseDirectoriesV4 mem rounds).run c :=
  ⟨⟨fun h => advances_iff_fits.mp h.1,
    fun h => ⟨advances_iff_fits.mpr h, (advances_iff_fits.mpr h).ends hfuel⟩⟩,
    fun _ _ => parseDirectoriesV4_rounds⟩

end Runs

instance (mem : Mem) (cursor : ParseCursor) : Decidable (UnitFits mem cursor) :=
  inferInstanceAs (Decidable (_ ∧ _))

instance (mem : Mem) (stack : ℕ → UInt8) (hdr : LineHeader) (p : ProgramPoint) :
    Decidable (OpcodeFits mem stack hdr p) :=
  inferInstanceAs (Decidable (if ((readU8 mem).run p.unit).1 = 0 then
    ¬ (2 ^ 64 ≤ ((readUleb128 mem).run ((readU8 mem).run p.unit).2).2.data.toNat +
        ((readUleb128 mem).run ((readU8 mem).run p.unit).2).1.toNat ∧
      ((readUleb128 mem).run ((readU8 mem).run p.unit).2).2.data.toNat +
        ((readUleb128 mem).run ((readU8 mem).run p.unit).2).1.toNat ≤ 2 ^ 64 + p.unit.data.toNat)
    else if ((readU8 mem).run p.unit).1 < hdr.opcodeBase ∧
        isDecoded ((readU8 mem).run p.unit).1 = false then
      ((readU8 mem).run p.unit).2.data.toNat +
        (stdLength stack hdr ((readU8 mem).run p.unit).1).toNat < 2 ^ 64
    else True))

/-- A round with more rounds for its program. -/
theorem unitRound_mono {mem : Mem} {stack : ℕ → UInt8} {lineStr : LineStr} {fuel fuel' : ℕ}
    {p : TablePoint} (hle : fuel ≤ fuel') (h : unitRound mem stack lineStr fuel p ≠ .inr none) :
    unitRound mem stack lineStr fuel' p = unitRound mem stack lineStr fuel p := by
  rw [unitRound] at h
  rw [unitRound, unitRound]
  split
  · rfl
  · next hlt =>
    rw [if_neg hlt] at h
    cases hu : readUnit mem lineStr p.cursor with
    | fail => rfl
    | skip => rfl
    | program hdr unit =>
      rw [hu] at h
      dsimp only at h ⊢
      cases hrun : parseLineProgram mem stack fuel hdr unit p.rows with
      | none =>
        rw [hrun] at h
        exact absurd rfl h
      | some r =>
        have hmore : parseLineProgram mem stack fuel' hdr unit p.rows = some r :=
          Loop.run_mono hrun hle
        rw [hmore]

/-- A section with a unit of version 4, whose program sets the address `0x2000`, emits two rows and
ends the sequence, and with a unit of version 3, which is skipped. -/
def twoUnitBytes : Mem := Mem.write (fun _ => 0) 0x1000
  ([61, 0, 0, 0, 4, 0, 37, 0, 0, 0, 1, 1, 0xfb, 14, 10, 0, 1, 1, 1, 1, 0, 0, 0, 1, 0,
    0x61, 0x2e, 0x63, 0, 0] ++ List.replicate 16 0 ++ [0,
    0, 9, 2, 0, 0x20, 0, 0, 0, 0, 0, 0, 5, 3, 1, 0x4b, 0, 1, 1,
    2, 0, 0, 0, 3, 0])

/-- Where the parser goes on at a unit, the unit fits, its program ends within the given number of
rounds, and so do its opcodes that are got to. -/
def TablePoint.fits (mem : Mem) (stack : ℕ → UInt8) (lineStr : LineStr) (fuel : ℕ)
    (p : TablePoint) : Bool :=
  !(p.cursor.data < p.cursor.end_) || (UnitFits mem p.cursor &&
    match readUnit mem lineStr p.cursor with
    | .program hdr unit => (parseLineProgram mem stack fuel hdr unit p.rows).isSome &&
      (Loop.trace (opcodeRound mem stack hdr) fuel
        { unit := unit, state := {}, rows := p.rows }).all fun q =>
          !(q.unit.data < q.unit.end_) || OpcodeFits mem stack hdr q
    | _ => true)

/-- A parser that ends within some rounds is checked on the rounds it has made. -/
theorem Fits.of_trace {mem : Mem} {stack : ℕ → UInt8} {lineStr : LineStr} {fuel fuel' : ℕ}
    {start : TablePoint} (hle : fuel ≤ fuel')
    (hrun : (Loop.run (unitRound mem stack lineStr fuel) fuel start).isSome = true)
    (hall : ∀ p ∈ Loop.trace (unitRound mem stack lineStr fuel) fuel start,
      p.fits mem stack lineStr fuel = true) : Fits mem stack lineStr fuel' start := by
  have hpoint : ∀ p ∈ Loop.trace (unitRound mem stack lineStr fuel) fuel start,
      p.cursor.data < p.cursor.end_ → UnitFits mem p.cursor ∧ ∀ hdr unit,
        readUnit mem lineStr p.cursor = .program hdr unit →
        (parseLineProgram mem stack fuel hdr unit p.rows).isSome = true ∧
          ∀ q ∈ Loop.trace (opcodeRound mem stack hdr) fuel
            { unit := unit, state := {}, rows := p.rows },
            q.unit.data < q.unit.end_ → OpcodeFits mem stack hdr q := by
    intro p hp hlt
    have hfits := hall p hp
    rw [TablePoint.fits, decide_eq_true hlt, Bool.not_true, Bool.false_or, Bool.and_eq_true_iff,
      decide_eq_true_eq] at hfits
    refine ⟨hfits.1, fun hdr unit hu => ?_⟩
    obtain ⟨hends, hops⟩ := Bool.and_eq_true_iff.mp (hu ▸ hfits.2)
    refine ⟨hends, fun q hq hqlt => ?_⟩
    have hop := List.all_eq_true.mp hops q hq
    rwa [decide_eq_true hqlt, Bool.not_true, Bool.false_or, decide_eq_true_eq] at hop
  have hsame : ∀ p ∈ Loop.trace (unitRound mem stack lineStr fuel) fuel start,
      unitRound mem stack lineStr fuel' p = unitRound mem stack lineStr fuel p := fun p hp =>
    unitRound_mono hle (unitRound_ne_out fun hdr unit hlt hu => ((hpoint p hp hlt).2 hdr unit hu).1)
  refine ⟨fun p p' hv hb => ?_, fun p hdr unit hv hlt hu q q' hq hb => ?_⟩
  · exact (hpoint p (hv.mem_trace hrun hsame) (unitRound_cursor hb).1).1
  · obtain ⟨hends, hops⟩ := (hpoint p (hv.mem_trace hrun hsame) hlt).2 hdr unit hu
    refine hops q (hq.mem_trace hends fun _ _ => rfl) ?_
    by_contra hge
    rw [opcodeRound, if_pos hge] at hb
    exact nomatch hb

theorem parseLineTable_ends_iff_twoUnits :
    (Advances twoUnitBytes (fun _ => 0) none (2 ^ 64 + 1)
        { cursor := { data := 0x1000, end_ := 0x1000 + 71 } } ∧
      (parseLineTable twoUnitBytes (fun _ => 0) none (2 ^ 64 + 1) 0x1000 71).isSome = true) :=
  (parseLineTable_ends_iff twoUnitBytes (fun _ => 0) none 0x1000 71 (by decide)).1.mpr
    (@Fits.of_trace twoUnitBytes (fun _ => 0) none 8 (2 ^ 64 + 1) _ (by decide) (by decide +kernel)
      (by decide +kernel))

/-- On a section of one byte the parser stays at its first byte for ever. -/
theorem parseLineTable_oneByte :
    unitRound (fun _ => 0) (fun _ => 0) none 1
        { cursor := { data := 0x1000, end_ := 0x1001 } } =
      .inl { cursor := { data := 0x1000, end_ := 0x1001 } } ∧
    ∀ fuel, parseLineTable (fun _ => 0) (fun _ => 0) none fuel 0x1000 1 = none := by
  have hround : ∀ fuel, unitRound (fun _ => 0) (fun _ => 0) none fuel
      { cursor := { data := 0x1000, end_ := 0x1001 } } =
        .inl { cursor := { data := 0x1000, end_ := 0x1001 } } := by
    intro fuel
    have hu : readUnit (fun _ => 0) none { data := 0x1000, end_ := 0x1001 } = .skip 0x1000 := by
      decide +kernel
    rw [unitRound, if_neg (by decide), hu]
  refine ⟨hround 1, fun fuel => ?_⟩
  have hrun : Loop.run (unitRound (fun _ => 0) (fun _ => 0) none fuel) fuel
      { cursor := { data := 0x1000, end_ := 0x1000 + 1 } } = none :=
    Loop.run_eq_none (hround fuel) fuel
  rw [parseLineTable, hrun]
  rfl

end Debugger
