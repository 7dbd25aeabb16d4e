/-
The listing of the debuggee's memory: `print_memory_disassembly_range` of `debugger.c`.

The loop decodes one instruction after the other, each behind the bytes of the one before: it is a
sweep over the buffer (`map_piece_disasmLines`), and its lines cover the buffer from its start, or
as much of it as there are rounds for (`disassembly_tiles_buffer`).
-/
import Debugger.Disassembly
import Debugger.Frame
import Debugger.Lib.Sweep

open Prog Reading

namespace Debugger

/-! ### The listing -/

/-- `sizeof(bytes)` and `sizeof(text)` in `print_memory_disassembly_range`. -/
def disasmBytes : ℕ := 256
def disasmText : ℕ := 128

/-- A line of the listing: where its bytes lie in the buffer, the instruction and the bytes that
are printed behind it. -/
structure DisasmLine extends Insn where
  offset : ℕ
  shown : List UInt8

/-- The bytes of the buffer that a line stands for. -/
def DisasmLine.piece (line : DisasmLine) : ℕ × ℕ := (line.offset, line.used)

/-- `%-24s` -/
def padRight (width : ℕ) (text : CStr) : CStr :=
  text ++ List.replicate (width - text.length) ' '

/-- What is printed for a line. -/
def DisasmLine.printed (pc : Addr) (line : DisasmLine) : CStr :=
  let addr := pc + UInt64.ofNat line.offset
  let marker := if addr = pc then "=>".toList else "  ".toList
  marker ++ ' ' :: (hexNumeral 16 addr ++ ": ".toList ++ padRight 24 line.text ++ " ;".toList ++
    line.shown.flatMap (fun b => ' ' :: hexText 2 b.toNat) ++ ['\n'])

section Listing

variable (arch : Arch) (pc : Addr) (bytes : ℕ → UInt8)

/-- The instruction at an offset, in the branch of `#if` for the architecture. -/
def insnAt (offset : ℕ) : Reading Insn := do
  let insn ← (match arch with
    | .x86_64 =>
      decodeX8664Instruction bytes (pc + UInt64.ofNat offset) offset (disasmBytes - offset)
        disasmText
    | .aarch64 =>
      if disasmBytes - offset ≥ 4 then do
        let insn ← u32Le bytes offset
        return { used := 4
                 text := snprintf disasmText (".inst 0x".toList ++ hexText 8 insn.toNat) }
      else return { used := 0 })
  if insn.used = 0 then
    let b ← byte bytes offset
    return { used := 1, text := snprintf disasmText (".byte 0x".toList ++ hexText 2 b.toNat) }
  else return insn

/-- The loop body. -/
def disasmLine (offset : ℕ) : Reading DisasmLine := do
  let insn ← insnAt arch pc bytes offset
  let shown ← slice bytes offset insn.used
  return { insn with offset := offset, shown := shown }

/-- The loop, with the number of rounds that are left. -/
def disasmLines : ℕ → ℕ → Reading (List DisasmLine)
  | 0, _ => return []
  | n + 1, offset => do
    if offset < disasmBytes then
      let line ← disasmLine arch pc bytes offset
      let lines ← disasmLines n (offset + line.used)
      return line :: lines
    else return []

end Listing

/-- The line above the listing. -/
def disasmHeader (pc : Addr) (label : Option CStr) : CStr :=
  let addr := "0x".toList ++ Nat.toDigits 16 pc.toNat
  match label with
  | some (c :: cs) =>
    "\nDisassembly at ".toList ++ (c :: cs) ++ " (".toList ++ addr ++ "):\n".toList
  | _ => "\nDisassembly at ".toList ++ addr ++ ":\n".toList

/-- `print_memory_disassembly_range`: what it prints. -/
def printMemoryDisassemblyRange (pc : Addr) (insnCount : ℕ) (label : Option CStr) :
    DbgM CStr := do
  let s ← get
  match ← cdbgMemRead s.dbg.pid pc disasmBytes with
  | none => return []
  | some bytes =>
    let lines := (disasmLines s.os.arch pc (fun i => bytes.getD i 0) insnCount 0).value
    return disasmHeader pc label ++ lines.flatMap (·.printed pc) ++ ['\n']

/-! ### The loop tiles the buffer -/

section Lines

variable {arch : Arch} {pc : Addr} {bytes : ℕ → UInt8} {offset : ℕ}

/-- An instruction begins and ends in the buffer, on either architecture. -/
theorem insnAt_ensures (h : offset < disasmBytes) :
    (insnAt arch pc bytes offset).Ensures offset disasmBytes (·.Fits (disasmBytes - offset)) := by
  have hleft : offset + (disasmBytes - offset) = disasmBytes := Nat.add_sub_cancel' h.le
  have hone : 1 ≤ disasmBytes - offset := by omega
  refine .bind (P := fun insn => insn.used = 0 ∨ insn.Fits (disasmBytes - offset)) ?_
    fun insn hinsn => .ite (fun _ => ?_) fun hused => .pure (hinsn.resolve_left hused)
  · cases arch with
    | x86_64 =>
      have hdecode := @decode_ensures bytes offset (disasmBytes - offset)
        (pc + UInt64.ofNat offset) disasmText hone
      rw [hleft] at hdecode
      exact hdecode.mono fun _ => .inr
    | aarch64 =>
      refine .ite (fun hfour => ?_) fun _ => .pure (.inl rfl)
      exact .bind (u32Le_ensures (Nat.le_refl _) (by omega)) fun _ _ =>
        .pure (.inr ⟨Nat.succ_pos 3, hfour⟩)
  · exact .bind (.byte (Nat.le_refl _) h) fun _ _ => .pure ⟨Nat.le_refl 1, hone⟩

/-- A line is the instruction at its offset, with its bytes. -/
structure DisasmLine.Shows (line : DisasmLine) (arch : Arch) (pc : Addr) (bytes : ℕ → UInt8) :
    Prop where
  insn : line.toInsn = (insnAt arch pc bytes line.offset).value
  shown : line.shown = (slice bytes line.offset line.used).value

theorem disasmLine_ensures (h : offset < disasmBytes) :
    (disasmLine arch pc bytes offset).Ensures offset disasmBytes (·.Shows arch pc bytes) := by
  have hinsn := @insnAt_ensures arch pc bytes offset h
  have hend : offset + (insnAt arch pc bytes offset).value.used ≤ disasmBytes := by
    have hfits := hinsn.value.2
    omega
  refine .bind (P := (· = (insnAt arch pc bytes offset).value)) ⟨hinsn.reads, rfl⟩ ?_
  rintro insn rfl
  exact .bind (.slice (Nat.le_refl _) hend) fun shown hshown => .pure ⟨rfl, hshown⟩

/-- The loop reads the buffer only, and every line shows its bytes. -/
theorem disasmLines_ensures : ∀ {n offset : ℕ},
    (disasmLines arch pc bytes n offset).Ensures 0 disasmBytes fun lines =>
      ∀ line ∈ lines, line.Shows arch pc bytes := by
  intro n
  induction n with
  | zero => exact fun {_} => .pure (by simp)
  | succ n ih =>
    intro offset
    refine .ite (fun hlt => ?_) fun _ => .pure (by simp)
    refine .bind ((disasmLine_ensures hlt).widen (Nat.zero_le offset) (Nat.le_refl _))
      fun line hline => .bind ih fun lines hlines => .pure ?_
    exact List.forall_mem_cons.mpr ⟨hline, hlines⟩

/-- The loop is a sweep over the buffer. -/
theorem map_piece_disasmLines : ∀ {n offset : ℕ},
    (disasmLines arch pc bytes n offset).value.map DisasmLine.piece =
      sweep disasmBytes (fun p => (insnAt arch pc bytes p).value.used) n offset := by
  intro n
  induction n with
  | zero => exact fun {_} => rfl
  | succ n ih =>
    intro offset
    rw [disasmLines, sweep]
    split
    case isTrue hlt => exact congrArg (_ :: ·) ih
    case isFalse hge => rfl

/-- The lines cut the first `hi` bytes of the buffer into pieces, one behind the other, and show
them all. -/
structure Covers (arch : Arch) (pc : Addr) (bytes : ℕ → UInt8) (lines : List DisasmLine)
    (hi : ℕ) : Prop where
  decoded : ∀ line ∈ lines, line.Shows arch pc bytes
  tiles : Tiles 0 hi (lines.map DisasmLine.piece)
  disjoint : (lines.map DisasmLine.piece).Pairwise fun a b => a.1 + a.2 ≤ b.1
  unique : ∀ x < hi, ∃! piece, piece ∈ lines.map DisasmLine.piece ∧ InPiece x piece
  shown : lines.flatMap (·.shown) = (slice bytes 0 hi).value

theorem covers_of_tiles {lines : List DisasmLine} {hi : ℕ}
    (htiles : Tiles 0 hi (lines.map DisasmLine.piece))
    (hshows : ∀ line ∈ lines, line.Shows arch pc bytes) :
    Covers arch pc bytes lines hi where
  decoded := hshows
  tiles := htiles
  disjoint := htiles.pairwise
  unique x hx := htiles.existsUnique (Nat.zero_le x) hx
  shown := by
    have hpieces := htiles.flatMap_range bytes
    rw [List.flatMap_map] at hpieces
    exact (List.flatMap_congr fun line hline => (hshows line hline).shown).trans hpieces

/-- The lines cover the buffer, or as much of it as there are rounds for. -/
theorem disasmLines_cover (n : ℕ) : ∃ hi ≤ disasmBytes,
    Covers arch pc bytes (disasmLines arch pc bytes n 0).value hi ∧
      (hi = disasmBytes ∨ (disasmLines arch pc bytes n 0).value.length = n) ∧
      (disasmBytes ≤ n → hi = disasmBytes) := by
  have hlen : ∀ p < disasmBytes, 0 < (insnAt arch pc bytes p).value.used ∧
      p + (insnAt arch pc bytes p).value.used ≤ disasmBytes := fun p hp => by
    obtain ⟨hpos, hle⟩ := (@insnAt_ensures arch pc bytes p hp).value
    omega
  obtain ⟨hi, hhi, htiles, hend⟩ := @tiles_sweep _ _ hlen n 0 (Nat.zero_le _)
  rw [← map_piece_disasmLines] at htiles hend
  rw [List.length_map] at hend
  refine ⟨hi, hhi, covers_of_tiles htiles disasmLines_ensures.value, hend, fun hn => ?_⟩
  have hcount := htiles.length_le
  rw [List.length_map] at hcount
  omega

end Lines

/-- What the decoder uses and reads is part of what is left of the bytes, and a relative call or
branch is printed with its target; so the lines cover the buffer, and nothing behind it is
read. -/
theorem disassembly_tiles_buffer :
    (∀ (bytes : ℕ → UInt8) (pc : Addr) (p len outLen : ℕ), 1 ≤ len →
      (decodeX8664Instruction bytes pc p len outLen).Ensures p (p + len) (·.Fits len) ∧
      ReadsUsed Insn.used (decodeX8664Instruction bytes pc p len outLen) p ∧
      ∀ f ∈ relForms, f.Recognised bytes p len → ∃ target : Addr,
        (target.toNat : ℤ) = (pc.toNat + f.size + f.disp bytes p) % 2 ^ 64 ∧
        (decodeX8664Instruction bytes pc p len outLen).value =
          { used := f.size, text := snprintf outLen (branchTo f.mnemonic target) } ∧
        (24 < outLen → snprintf outLen (branchTo f.mnemonic target) =
          branchTo f.mnemonic target)) ∧
    ∀ (arch : Arch) (bytes : ℕ → UInt8) (pc : Addr) (insnCount : ℕ),
      (disasmLines arch pc bytes insnCount 0).Ensures 0 disasmBytes fun lines =>
        ∃ hi ≤ disasmBytes, Covers arch pc bytes lines hi ∧
          (hi = disasmBytes ∨ lines.length = insnCount) ∧
          (disasmBytes ≤ insnCount → hi = disasmBytes) := by
  refine ⟨fun bytes pc p len outLen hlen => ?_, fun arch bytes pc insnCount =>
    ⟨disasmLines_ensures.reads, disasmLines_cover insnCount⟩⟩
  refine ⟨decode_ensures pc outLen hlen, decode_readsUsed pc outLen hlen, fun f hf h => ?_⟩
  obtain ⟨target, htarget, hvalue⟩ := decode_relative hf h pc outLen
  have hfits := length_branchTo (relForms_mnemonic f hf) target
  exact ⟨target, htarget, hvalue, fun hout => snprintf_of_lt (Nat.lt_of_le_of_lt hfits hout)⟩

/-- A call to itself, and zeros. -/
def callBytes : ℕ → UInt8 := fun i => [0xe8, 0xfb, 0xff, 0xff, 0xff].getD i 0

theorem disassembly_tiles_callBytes :
    (∃ target : Addr, (target.toNat : ℤ) = 0x1000 ∧
      (decodeX8664Instruction callBytes 0x1000 0 256 disasmText).value =
        { used := 5, text := branchTo "callq".toList target }) ∧
    ∃ hi ≤ disasmBytes, hi = disasmBytes ∧
      Covers .x86_64 0x1000 callBytes (disasmLines .x86_64 0x1000 callBytes 256 0).value hi := by
  obtain ⟨hdecode, hlines⟩ := disassembly_tiles_buffer
  constructor
  · obtain ⟨target, htarget, hvalue, hwhole⟩ := (hdecode callBytes 0x1000 0 256 disasmText
      (by decide)).2.2 ⟨[0xe8], "callq".toList, 4⟩ List.mem_cons_self ⟨rfl, by decide⟩
    rw [hwhole (by decide)] at hvalue
    exact ⟨target, htarget, hvalue⟩
  · obtain ⟨hi, hle, hcovers, -, hall⟩ := (hlines .x86_64 callBytes 0x1000 256).value
    exact ⟨hi, hle, hall (Nat.le_refl _), hcovers⟩

/-- What is printed is the debuggee's memory from `pc` on, in consecutive pieces. -/
theorem wp_printMemoryDisassemblyRange (pc : Addr) (insnCount : ℕ) (label : Option CStr)
    (s : Sys) :
    wp (printMemoryDisassemblyRange pc insnCount label) (fun out _ => out = [] ∨
      ∃ (p : Process) (lines : List DisasmLine) (hi : ℕ), s.process s.dbg.pid = some p ∧
        out = disasmHeader pc label ++ lines.flatMap (DisasmLine.printed pc) ++ ['\n'] ∧
        hi ≤ disasmBytes ∧ Tiles 0 hi (lines.map DisasmLine.piece) ∧
        lines.flatMap (·.shown) = p.mem.read pc hi) s := by
  rw [printMemoryDisassemblyRange, wp_bind, wp_get, wp_bind]
  refine wp_cdbgMemRead (fun s' _ _ => .inl rfl) fun p s' hp _ => .inr ?_
  obtain ⟨hi, hle, hcovers, -⟩ := @disasmLines_cover s.os.arch pc
    (fun i => (p.mem.read pc disasmBytes).getD i 0) insnCount
  refine ⟨p, _, hi, hp, rfl, hle, hcovers.tiles, hcovers.shown.trans ?_⟩
  refine List.map_congr_left fun i hi' => ?_
  have hlt : i < disasmBytes := Nat.lt_of_lt_of_le (List.mem_range.mp hi') hle
  simp [Mem.read, hlt]

end Debugger
