/-
When the parser of the `__debug_line` section faults (`parse_line_table`).

A string that does not end in its section, a division by a `line_range` of 0, an opcode behind
`std_lengths` and an extended opcode whose length leads in front of the section are the only
ways to a fault (`parseLineTable_faults_iff`).
-/
import Debugger.LineWithin

open Prog

namespace Debugger

/-! ### Faults -/

/-- The bytes of a buffer; it lies in the address space of a user process, which ends before the
last 8 GiB of the addresses. -/
structure ByteRange where
  start : Addr
  size : UInt64
  room : start.toNat + size.toNat + 2 ^ 33 ≤ 2 ^ 64

/-- The byte is in the buffer. -/
def ByteRange.Holds (r : ByteRange) (p : Addr) : Prop :=
  r.start.toNat ≤ p.toNat ∧ p.toNat < r.start.toNat + r.size.toNat

/-- A string from an address on ends in the buffer. -/
def ByteRange.EndsString (r : ByteRange) (mem : Mem) (p : Addr) : Prop :=
  ∃ q, p ≤ q ∧ r.Holds q ∧ mem q = 0

/-- The bytes that are read to the end of a string, looking at no more than `n`. -/
def cstrReads (mem : Mem) : ℕ → Addr → List Addr
  | 0, _ => []
  | n + 1, p => p :: if mem p = 0 then [] else cstrReads mem n (p + 1)

/-- What is done is no fault. -/
def Access.Allowed (mem : Mem) (debugLine : ByteRange) (lineStr : Option ByteRange) : Access → Prop
  | .byte p => debugLine.Holds p
  | .copy p => ∀ q ∈ cstrReads mem (2 ^ 64) p, debugLine.Holds q
  | .copyLineStr p => ∀ q ∈ cstrReads mem (2 ^ 64) p, ∃ r ∈ lineStr, r.Holds q
  | .divide divisor => divisor ≠ 0
  | .stdLength opcode => opcode.toNat < 16

section Strings

variable {mem : Mem} {r : ByteRange}

theorem cstrReads_holds_iff : ∀ {n : ℕ} {p : Addr},
    r.start.toNat ≤ p.toNat → p.toNat ≤ r.start.toNat + r.size.toNat →
      r.start.toNat + r.size.toNat < p.toNat + n →
        ((∀ q ∈ cstrReads mem n p, r.Holds q) ↔ r.EndsString mem p) := by
  have hroom := r.room
  intro n
  induction n with
  | zero => exact fun _ _ h => absurd h (by omega)
  | succ n ih =>
    intro p hlo hhi hn
    rw [cstrReads, List.forall_mem_cons]
    by_cases hend : p.toNat = r.start.toNat + r.size.toNat
    · refine iff_of_false (fun h => absurd h.1.2 (by omega)) ?_
      rintro ⟨q, hle, hq, -⟩
      have hle := UInt64.le_iff_toNat_le.mp hle
      exact absurd hq.2 (by omega)
    have hp : r.Holds p := ⟨hlo, by omega⟩
    by_cases h0 : mem p = 0
    · rw [if_pos h0]
      exact iff_of_true ⟨hp, by simp⟩ ⟨p, UInt64.le_refl p, hp, h0⟩
    · have hsucc : (p + 1).toNat = p.toNat + 1 := toNat_succ (by omega)
      rw [if_neg h0, ih (by omega) (by omega) (by omega)]
      refine ⟨fun ⟨_, q, hle, hq⟩ => ⟨q, ?_, hq⟩, fun ⟨q, hle, hq, hzero⟩ => ⟨hp, q, ?_, hq, hzero⟩⟩
      · have hle := UInt64.le_iff_toNat_le.mp hle
        exact UInt64.le_iff_toNat_le.mpr (by omega)
      · -- the NUL is not the first byte
        have hle := UInt64.le_iff_toNat_le.mp hle
        have hne : p.toNat ≠ q.toNat := fun h => h0 (UInt64.toNat_inj.mp h ▸ hzero)
        exact UInt64.le_iff_toNat_le.mpr (by omega)

/-- A string that is copied ends in its section. -/
def Access.StringEnds (mem : Mem) (debugLine : ByteRange) (lineStr : Option ByteRange) :
    Access → Prop
  | .copy p => debugLine.EndsString mem p
  | .copyLineStr p => ∃ r ∈ lineStr, r.EndsString mem p
  | _ => True

/-- `__debug_line_str` as the parser gets it. -/
def lineStrOf (lineStr : Option ByteRange) : LineStr := lineStr.map fun r => (r.start, r.size)

/-- A cursor in the section. -/
def ByteRange.HoldsCursor (r : ByteRange) (c : ParseCursor) : Prop :=
  r.start ≤ c.data ∧ c.end_.toNat ≤ r.start.toNat + r.size.toNat

/-- What is read through a cursor in the section is no fault unless a string does not end. -/
theorem Access.InCursor.allowed_iff {a : Access} {c : ParseCursor} {lineStr : Option ByteRange}
    (hc : r.HoldsCursor c) (h : a.InCursor (lineStrOf lineStr) c) :
    a.Allowed mem r lineStr ↔ a.StringEnds mem r lineStr := by
  have hroom := r.room
  have hlo := UInt64.le_iff_toNat_le.mp hc.1
  have hhi := hc.2
  cases a with
  | byte p =>
    have hp := UInt64.le_iff_toNat_le.mp h.1
    have hend := UInt64.lt_iff_toNat_lt.mp h.2
    exact iff_of_true ⟨by omega, by omega⟩ trivial
  | copy p =>
    have hp := UInt64.le_iff_toNat_le.mp h.1
    have hend := UInt64.le_iff_toNat_le.mp h.2
    exact cstrReads_holds_iff (by omega) (by omega) (by omega)
  | copyLineStr p =>
    obtain ⟨start, size, offset, hsome, hoffset, rfl⟩ := h
    cases lineStr with
    | none => exact nomatch hsome
    | some s =>
      obtain ⟨rfl, rfl⟩ := Prod.mk.inj (Option.some.inj hsome)
      have hsroom := s.room
      have hlt := UInt64.lt_iff_toNat_lt.mp hoffset
      have hadd : (s.start + offset).toNat = s.start.toNat + offset.toNat := by
        rw [UInt64.toNat_add, Nat.mod_eq_of_lt (by omega)]
      have hreads := @cstrReads_holds_iff mem s (2 ^ 64) (s.start + offset) (by omega) (by omega)
        (by omega)
      simpa [Access.Allowed, Access.StringEnds] using hreads
  | divide n => exact absurd h id
  | stdLength n => exact absurd h id

end Strings

/-! ### The line number program -/

/-- The opcode at the cursor does not divide by 0, has its length in `std_lengths` if it is asked
for, and does not lead in front of an address. -/
def OpcodeSafe (mem : Mem) (start : Addr) (hdr : LineHeader) (c : ParseCursor) : Prop :=
  let (opcode, unit) := (readU8 mem).run c
  if opcode = 0 then
    let (extLen, unit) := (readUleb128 mem).run unit
    unit.data + extLen ≤ unit.end_ → start ≤ unit.data + extLen
  else if opcode < hdr.opcodeBase then
    (opcode = 8 → hdr.lineRange ≠ 0) ∧ (isDecoded opcode = false → opcode.toNat < 16)
  else hdr.lineRange ≠ 0

section Opcodes

variable {mem : Mem} {stack : ℕ → UInt8} {hdr : LineHeader} {p p' : ProgramPoint}
  {c : ParseCursor} {r : ByteRange} {lineStr : Option ByteRange}

theorem extendedOpAccesses_reads : (extendedOpAccesses mem hdr).Reads := by
  refine (wordAccesses_reads (by decide)).andThen readU8_forward fun sub => ?_
  split
  · split
    · exact readU64Accesses_reads 8
    split
    · exact wordAccesses_reads (by decide)
    · exact .nil
  · exact .nil

theorem readU64_forward : Forward (readU64 mem) := readU64From_forward 8 0 0

theorem extendedOp_end (h : p.unit.data ≤ p.unit.end_) :
    (extendedOp mem hdr p).unit.end_ = p.unit.end_ := by
  obtain ⟨hend, -, hhi⟩ := @readU8_forward mem p.unit h
  rw [extendedOp]
  generalize (readU8 mem).run p.unit = r at hend hhi ⊢
  obtain ⟨sub, unit⟩ := r
  have hunit : unit.data ≤ unit.end_ := hend ▸ hhi
  have h64 := (@readU64_forward mem unit hunit).1
  have h32 := (@readU32_forward mem unit hunit).1
  generalize readU64 mem = read₆₄ at h64 ⊢
  generalize readU32 mem = read₃₂ at h32 ⊢
  dsimp only
  split
  · exact hend
  split
  · split
    · exact h64.trans hend
    split
    · exact h32.trans hend
    · exact hend
  · exact hend

theorem standardOp_end (opcode : UInt8) (h : p.unit.data ≤ p.unit.end_) :
    (standardOp mem stack hdr opcode p).unit.end_ = p.unit.end_ := by
  rw [standardOp]
  split
  · rfl
  split
  · exact (readUleb128_forward _ h).1
  split
  · exact (readSleb128_forward _ h).1
  split
  · exact (readUleb128_forward _ h).1
  split
  · exact (readUleb128_forward _ h).1
  split
  · rfl
  split
  · exact (readU16_forward _ h).1
  · rfl

/-- A round that goes on keeps the end of the unit; an extended opcode sets the cursor behind its
length. -/
theorem opcodeRound_inl (h : opcodeRound mem stack hdr p = .inl p') :
    p.unit.data < p.unit.end_ ∧ p'.unit.end_ = p.unit.end_ ∧
      (mem p.unit.data = 0 → p'.unit.data = ((readUleb128 mem).run (p.unit.advance 1)).2.data +
        ((readUleb128 mem).run (p.unit.advance 1)).1 ∧
          p'.unit.data ≤ ((readUleb128 mem).run (p.unit.advance 1)).2.end_) := by
  rw [opcodeRound] at h
  split at h
  case isTrue => exact absurd h Sum.inr_ne_inl
  case isFalse hlt =>
    have hlt := not_not.mp hlt
    obtain ⟨hread, -, hend⟩ := readU8_of_lt mem hlt
    refine ⟨hlt, ?_⟩
    rw [hread] at h
    dsimp only at h
    split at h
    case isTrue h0 =>
      obtain ⟨hend', -, hhi⟩ := @readUleb128_forward mem (p.unit.advance 1) hend
      generalize (readUleb128 mem).run (p.unit.advance 1) = r at h hend' hhi ⊢
      obtain ⟨extLen, unit⟩ := r
      dsimp only at h hend' hhi ⊢
      split at h
      case isTrue => exact absurd h Sum.inr_ne_inl
      case isFalse hle =>
        obtain rfl := Sum.inl.inj h
        refine ⟨?_, fun _ => ⟨rfl, UInt64.not_lt.mp hle⟩⟩
        have hunit : unit.data ≤ unit.end_ := hend' ▸ hhi
        exact (extendedOp_end (p := { p with unit := unit }) hunit).trans hend'
    case isFalse h0 =>
      refine ⟨?_, fun h => absurd h h0⟩
      split at h
      · obtain rfl := Sum.inl.inj h
        exact standardOp_end (p := { p with unit := p.unit.advance 1 }) _ hend
      · obtain rfl := Sum.inl.inj h
        rfl

theorem ByteRange.HoldsCursor.mono {c' : ParseCursor} (hc : r.HoldsCursor c) (hin : c'.In c) :
    r.HoldsCursor c' :=
  ⟨UInt64.le_trans hc.1 hin.1, Nat.le_trans (UInt64.le_iff_toNat_le.mp hin.2.2) hc.2⟩

theorem Accesses.Reads.allowed {l : Accesses} (hl : l.Reads) (hc : r.HoldsCursor c)
    (hle : c.data ≤ c.end_) : ∀ a ∈ l c, a.Allowed mem r lineStr := by
  intro a ha
  obtain ⟨p, rfl, hlo, hhi⟩ := hl c hle a ha
  have hstart := UInt64.le_iff_toNat_le.mp (UInt64.le_trans hc.1 hlo)
  have hend := UInt64.lt_iff_toNat_lt.mp hhi
  exact ⟨hstart, Nat.lt_of_lt_of_le hend hc.2⟩

theorem standardOpAccesses_allowed {opcode : UInt8} (hc : r.HoldsCursor c) (hle : c.data ≤ c.end_)
    (hrange : opcode = 8 → hdr.lineRange ≠ 0)
    (hlength : isDecoded opcode = false → opcode.toNat < 16) :
    ∀ a ∈ standardOpAccesses mem hdr opcode c, a.Allowed mem r lineStr := by
  intro a ha
  rw [standardOpAccesses] at ha
  split at ha
  case isTrue => exact absurd ha List.not_mem_nil
  case isFalse h1 =>
    split at ha
    case isTrue => exact lebAccesses_reads.allowed hc hle a ha
    case isFalse h2 =>
      split at ha
      case isTrue h8 =>
        obtain rfl := List.mem_singleton.mp ha
        exact hrange h8
      case isFalse h8 =>
        split at ha
        case isTrue => exact (wordAccesses_reads (by decide)).allowed hc hle a ha
        case isFalse h9 =>
          obtain rfl := List.mem_singleton.mp ha
          simp only [not_or] at h2
          exact hlength (by simp [isDecoded, h1, h2, h8, h9])

/-- What an opcode that is safe does is no fault. -/
theorem OpcodeSafe.allowed (h : OpcodeSafe mem r.start hdr c) (hc : r.HoldsCursor c)
    (hlt : c.data < c.end_) : ∀ a ∈ opcodeAccesses mem hdr c, a.Allowed mem r lineStr := by
  have hle := UInt64.le_of_lt hlt
  have hread := (readU8_of_lt mem hlt).1
  have hin₁ := (@readU8_forward mem).in hle
  rw [OpcodeSafe] at h
  rw [opcodeAccesses, if_neg (not_not.mpr hlt), Accesses.andThen]
  rw [hread] at h hin₁ ⊢
  dsimp only at h hin₁ ⊢
  refine List.forall_mem_append.mpr ⟨(wordAccesses_reads (by decide)).allowed hc hle, ?_⟩
  by_cases h0 : mem c.data = 0
  · rw [if_pos h0]
    have hin₂ := ((@readUleb128_forward mem).in hin₁.2.1).trans hin₁
    refine List.forall_mem_append.mpr
      ⟨lebAccesses_reads.allowed (hc.mono hin₁) hin₁.2.1, fun a ha => ?_⟩
    dsimp only at ha
    split at ha
    · exact absurd ha List.not_mem_nil
    · exact extendedOpAccesses_reads.allowed (hc.mono hin₂) hin₂.2.1 a ha
  rw [if_neg h0] at h ⊢
  by_cases hstd : mem c.data < hdr.opcodeBase
  · rw [if_pos hstd] at h ⊢
    exact standardOpAccesses_allowed (hc.mono hin₁) hin₁.2.1 h.1 h.2
  · rw [if_neg hstd] at h ⊢
    intro a ha
    obtain rfl := List.mem_singleton.mp ha
    exact h

/-- An opcode that is safe leads to no address in front of the section. -/
theorem OpcodeSafe.holds (h : OpcodeSafe mem r.start hdr p.unit) (hc : r.HoldsCursor p.unit)
    (hround : opcodeRound mem stack hdr p = .inl p') : r.HoldsCursor p'.unit := by
  have hroom := r.room
  obtain ⟨hlt, hend, hext⟩ := opcodeRound_inl hround
  refine ⟨?_, hend ▸ hc.2⟩
  rw [OpcodeSafe, (readU8_of_lt mem hlt).1] at h
  dsimp only at h
  by_cases h0 : mem p.unit.data = 0
  · rw [if_pos h0] at h
    obtain ⟨hdata, hle⟩ := hext h0
    rw [hdata] at hle ⊢
    exact h hle
  · refine UInt64.le_trans hc.1 (UInt64.le_of_lt ((opcodeRound_advances hround).mpr ?_))
    -- what is added is less than 256
    rw [OpcodeFits, (readU8_of_lt mem hlt).1]
    dsimp only
    rw [if_neg h0]
    split
    · have hnext := (readU8_of_lt mem hlt).2.1
      have hlen := (stdLength stack hdr (mem p.unit.data)).toNat_lt
      have hlt' := UInt64.lt_iff_toNat_lt.mp hlt
      have hhi := hc.2
      rw [hnext]
      omega
    · trivial

/-- The first byte of an opcode is read. -/
theorem le_of_opcode_allowed (hlt : c.data < c.end_)
    (h : ∀ a ∈ opcodeAccesses mem hdr c, a.Allowed mem r lineStr) : r.start ≤ c.data := by
  have hlt' := UInt64.lt_iff_toNat_lt.mp hlt
  have hok : cursorOk c 1 = true := by
    refine decide_eq_true ?_
    rw [toNat_remaining (UInt64.le_of_lt hlt)]
    omega
  rw [opcodeAccesses, if_neg (not_not.mpr hlt), Accesses.andThen, wordAccesses, if_pos hok] at h
  have hbyte := h (.byte (c.data + 0)) (List.mem_append_left _ (List.mem_singleton.mpr rfl))
  rw [UInt64.add_zero] at hbyte
  exact UInt64.le_iff_toNat_le.mpr hbyte.1

/-- An opcode whose round is no fault and leads to no address in front of the section is safe. -/
theorem opcodeSafe_of_allowed (hlt : p.unit.data < p.unit.end_)
    (h : ∀ a ∈ opcodeAccesses mem hdr p.unit, a.Allowed mem r lineStr)
    (hnext : ∀ p', opcodeRound mem stack hdr p = .inl p' → r.start ≤ p'.unit.data) :
    OpcodeSafe mem r.start hdr p.unit := by
  have hread := (readU8_of_lt mem hlt).1
  have hsame : ¬¬ p.unit.data < p.unit.end_ := not_not.mpr hlt
  rw [OpcodeSafe, hread]
  rw [opcodeAccesses, if_neg hsame, Accesses.andThen, hread] at h
  have hrest := (List.forall_mem_append.mp h).2
  dsimp only at hrest ⊢
  by_cases h0 : mem p.unit.data = 0
  · rw [if_pos h0]
    rcases hlength : (readUleb128 mem).run (p.unit.advance 1) with ⟨extLen, unit⟩
    dsimp only
    intro hle
    refine hnext { extendedOp mem hdr { p with unit := unit } with
      unit := { (extendedOp mem hdr { p with unit := unit }).unit with
        data := unit.data + extLen } } ?_
    rw [opcodeRound, if_neg hsame, hread]
    dsimp only
    rw [if_pos h0, hlength]
    dsimp only
    rw [if_neg (UInt64.not_lt.mpr hle)]
  rw [if_neg h0] at hrest ⊢
  by_cases hstd : mem p.unit.data < hdr.opcodeBase
  · rw [if_pos hstd] at hrest ⊢
    refine ⟨fun h8 => hrest (.divide hdr.lineRange) ?_, fun hd => hrest (.stdLength _) ?_⟩
    · simp [standardOpAccesses, h8]
    · simp only [isDecoded, List.mem_cons, List.not_mem_nil, or_false, decide_eq_false_iff_not,
        not_or] at hd
      simp [standardOpAccesses, hd]
  · rw [if_neg hstd] at hrest ⊢
    exact hrest (.divide hdr.lineRange) (List.mem_singleton.mpr rfl)

end Opcodes

/-! ### All rounds of a run -/

section Runs

variable (mem : Mem) (stack : ℕ → UInt8) (debugLine : ByteRange) (lineStr : Option ByteRange)
  (fuel : ℕ)

/-- The parser at the start of the section. -/
def tableStart : TablePoint :=
  { cursor := { data := debugLine.start, end_ := debugLine.start + debugLine.size } }

/-- Every unit the parser begins satisfies `U`, and every opcode it begins, in the program of
any of these units, satisfies `O`. -/
structure EveryVisit (U : ParseCursor → Prop) (O : LineHeader → ParseCursor → Prop) : Prop where
  units : ∀ p, Loop.Visits (unitRound mem stack (lineStrOf lineStr) fuel) (tableStart debugLine) p →
    p.cursor.data < p.cursor.end_ → U p.cursor
  opcodes : ∀ p hdr unit,
    Loop.Visits (unitRound mem stack (lineStrOf lineStr) fuel) (tableStart debugLine) p →
    p.cursor.data < p.cursor.end_ →
    readUnit mem (lineStrOf lineStr) p.cursor = .program hdr unit →
    ∀ q, Loop.Visits (opcodeRound mem stack hdr) { unit := unit, state := {}, rows := p.rows } q →
      q.unit.data < q.unit.end_ → O hdr q.unit

/-- Nothing that the parser does is a fault. -/
def NoFault : Prop := EveryVisit mem stack debugLine lineStr fuel
  (fun c => ∀ a ∈ unitAccesses mem (lineStrOf lineStr) c, a.Allowed mem debugLine lineStr)
  fun hdr c => ∀ a ∈ opcodeAccesses mem hdr c, a.Allowed mem debugLine lineStr

/-- Every string that the header of a unit names ends in its section, and every opcode is
safe. -/
def SafeRun : Prop := EveryVisit mem stack debugLine lineStr fuel
  (fun c => ∀ a ∈ unitAccesses mem (lineStrOf lineStr) c, a.StringEnds mem debugLine lineStr)
  fun hdr c => OpcodeSafe mem debugLine.start hdr c

variable {mem stack debugLine lineStr fuel} {p p' : TablePoint}

theorem ByteRange.HoldsCursor.room {c : ParseCursor} (h : debugLine.HoldsCursor c) :
    c.end_.toNat + 2 ^ 33 ≤ 2 ^ 64 :=
  Nat.le_trans (Nat.add_le_add_right h.2 _) debugLine.room

/-- A round of the unit loop stays in the section. -/
theorem unitRound_holds (h : debugLine.HoldsCursor p.cursor)
    (hround : unitRound mem stack (lineStrOf lineStr) fuel p = .inl p') :
    debugLine.HoldsCursor p'.cursor := by
  rw [unitRound] at hround
  split at hround
  case isTrue => exact absurd hround Sum.inr_ne_inl
  case isFalse hlt =>
    have hle := UInt64.le_of_lt (not_not.mp hlt)
    have hin := (@readUnit_within mem (lineStrOf lineStr) p.cursor h.room hle).2
    cases hu : readUnit mem (lineStrOf lineStr) p.cursor with
    | fail =>
      rw [hu] at hround
      exact absurd hround Sum.inr_ne_inl
    | skip unitEnd =>
      rw [hu] at hround hin
      obtain rfl := Sum.inl.inj hround
      exact ⟨UInt64.le_trans h.1 hin.1, h.2⟩
    | program hdr unit =>
      rw [hu] at hround hin
      dsimp only at hround
      split at hround
      case h_1 => exact absurd hround Sum.inr_ne_inl
      case h_2 =>
        split at hround
        case isTrue => exact absurd hround Sum.inr_ne_inl
        case isFalse =>
          obtain rfl := Sum.inl.inj hround
          exact ⟨UInt64.le_trans h.1 hin.2.1, h.2⟩

theorem tableStart_holds : debugLine.HoldsCursor (tableStart debugLine).cursor := by
  have hroom := debugLine.room
  refine ⟨UInt64.le_refl _, ?_⟩
  rw [tableStart, UInt64.toNat_add, Nat.mod_eq_of_lt (by omega)]

/-- The unit loop stays in the section, whatever is in it. -/
theorem visits_holds
    (hv : Loop.Visits (unitRound mem stack (lineStrOf lineStr) fuel) (tableStart debugLine) p) :
    debugLine.HoldsCursor p.cursor :=
  hv.invariant (I := fun p => debugLine.HoldsCursor p.cursor) tableStart_holds
    fun _ _ _ h hround => unitRound_holds h hround

/-- An opcode that is safe, in a program that is safe so far, is in the section. -/
theorem SafeRun.program_holds (h : SafeRun mem stack debugLine lineStr fuel) {hdr : LineHeader}
    {unit : ParseCursor} {q : ProgramPoint}
    (hv : Loop.Visits (unitRound mem stack (lineStrOf lineStr) fuel) (tableStart debugLine) p)
    (hlt : p.cursor.data < p.cursor.end_)
    (hu : readUnit mem (lineStrOf lineStr) p.cursor = .program hdr unit)
    (hq : Loop.Visits (opcodeRound mem stack hdr) { unit := unit, state := {}, rows := p.rows } q) :
    debugLine.HoldsCursor q.unit := by
  have hc := visits_holds hv
  have hin := (@readUnit_within mem (lineStrOf lineStr) p.cursor hc.room (UInt64.le_of_lt hlt)).2
  rw [hu] at hin
  refine hq.invariant (I := fun q => debugLine.HoldsCursor q.unit) ?_
    fun q q' hq hholds hround => ?_
  · exact ⟨UInt64.le_trans hc.1 hin.1,
      Nat.le_trans (UInt64.le_iff_toNat_le.mp hin.2.2) hc.2⟩
  · have hqlt := (opcodeRound_inl hround).1
    exact (h.opcodes p hdr unit hv hlt hu q hq hqlt).holds hholds hround

/-- The parser of `__debug_line` faults nowhere exactly when every string that a unit it begins
names ends in its section and every opcode it begins is safe. -/
theorem parseLineTable_faults_iff (mem : Mem) (stack : ℕ → UInt8) (debugLine : ByteRange)
    (lineStr : Option ByteRange) (fuel : ℕ) :
    NoFault mem stack debugLine lineStr fuel ↔ SafeRun mem stack debugLine lineStr fuel := by
  have hunits : ∀ p, Loop.Visits (unitRound mem stack (lineStrOf lineStr) fuel)
      (tableStart debugLine) p → p.cursor.data < p.cursor.end_ →
      ∀ a ∈ unitAccesses mem (lineStrOf lineStr) p.cursor,
        (a.Allowed mem debugLine lineStr ↔ a.StringEnds mem debugLine lineStr) := by
    intro p hv hlt a ha
    have hc := visits_holds hv
    have hin := (@readUnit_within mem (lineStrOf lineStr) p.cursor hc.room (UInt64.le_of_lt hlt)).1
    exact (hin a ha).allowed_iff hc
  constructor
  · intro h
    refine ⟨fun p hv hlt a ha => (hunits p hv hlt a ha).mp (h.units p hv hlt a ha),
      fun p hdr unit hv hlt hu q hq hqlt => ?_⟩
    have hallowed := h.opcodes p hdr unit hv hlt hu q hq hqlt
    refine opcodeSafe_of_allowed hqlt hallowed
      fun q' (hround : opcodeRound mem stack hdr q = .inl q') => ?_
    by_cases hnext : q'.unit.data < q'.unit.end_
    · exact le_of_opcode_allowed hnext (h.opcodes p hdr unit hv hlt hu q' (.round hq hround) hnext)
    · -- the program ends behind the opcode
      have hend := (opcodeRound_inl hround).2.1
      have hlast : q.unit.end_ ≤ q'.unit.data := hend ▸ UInt64.not_lt.mp hnext
      exact UInt64.le_trans (le_of_opcode_allowed hqlt hallowed)
        (UInt64.le_trans (UInt64.le_of_lt hqlt) hlast)
  · intro h
    exact ⟨fun p hv hlt a ha => (hunits p hv hlt a ha).mpr (h.units p hv hlt a ha),
      fun p hdr unit hv hlt hu q hq hqlt =>
        (h.opcodes p hdr unit hv hlt hu q hq hqlt).allowed (h.program_holds hv hlt hu hq) hqlt⟩

end Runs

/-- A unit of version 4 whose header has a `line_range` of 0, with one special opcode. -/
def zeroLineRange : Mem := Mem.write (fun _ => 0) 0x1000
  [14, 0, 0, 0, 4, 0, 7, 0, 0, 0, 1, 1, 0, 0, 1, 0, 0, 5]

/-- The section of these 18 bytes. -/
def zeroLineRangeSection : ByteRange := { start := 0x1000, size := 18, room := by decide }

def zeroLineRangeHeader : LineHeader :=
  { addressSize := 8, minInstLength := 1, lineBase := 0, lineRange := 0, opcodeBase := 1,
    stdLengths := List.replicate 16 0, dirs := [[]], files := [([], 0)] }

/-- The special opcode divides by 0. -/
theorem parseLineTable_divides_by_zero :
    ¬ NoFault zeroLineRange (fun _ => 0) zeroLineRangeSection none 1 := by
  intro h
  have hu : readUnit zeroLineRange none { data := 0x1000, end_ := 0x1000 + 18 } =
      .program zeroLineRangeHeader { data := 0x1011, end_ := 0x1012 } := by decide +kernel
  have hdivide : .divide 0 ∈ opcodeAccesses zeroLineRange zeroLineRangeHeader
      { data := 0x1011, end_ := 0x1012 } := by
    decide +kernel
  have hallowed := h.opcodes _ zeroLineRangeHeader _ .start (by decide) hu _ .start (by decide)
  exact hallowed (.divide 0) hdivide rfl

end Debugger
