/-
Reading the memory of the debuggee (`memory.c`), and what is read after a write.

`cdbg_mem_read` asks Mach for the bytes and, where it does not get all of them, `PT_READ_D` for
each one, which returns the `int` at its address.  In both ways the bytes are those of the memory
(`cdbgMemReadCalls_eq`), as in `cdbgMemRead` of the debugger's model.  A read therefore finds the
bytes that a write has left, in whichever ways the two are made, unless the Mach calls of the
write have cut some off (`mem_read_written`).
-/
import Debugger.MemWrite
import Debugger.PrintPaths
import Debugger.Shown

open Prog

namespace Debugger

/-! ### The calls -/

/-- What the calls of one `cdbg_mem_read` come to. -/
structure ReadCalls where
  /-- `task_for_pid` -/
  task : Bool := true
  /-- `mach_vm_read`, with the number of bytes that it has read -/
  read : Option UInt32
  /-- the `PT_READ_D` of each byte -/
  peek : ℕ → Bool := fun _ => true

/-- `PT_READ_D`: the `int` at the address. -/
def ptReadD (m : Mem) (addr : Addr) : Int32 := (valueOf (m.read addr 4)).toUInt32.toInt32

/-- `word` and `errno` after a call of `ptrace`; `EIO` is 5. -/
def peekWord (ok : Bool) (m : Mem) (addr : Addr) : Int64 × Int32 :=
  if ok then ((ptReadD m addr).toInt64, 0) else (-1, 5)

/-- The loop of `mem_read_ptrace`, with `n` bytes left. -/
def peekLoop (peek : ℕ → Bool) (m : Mem) : ℕ → ℕ → Addr → Option (List UInt8)
  | _, 0, _ => some []
  | i, n + 1, addr =>
    let (word, errno) := peekWord (peek i) m addr
    if word = -1 ∧ errno ≠ 0 then none
    else (peekLoop peek m (i + 1) n (addr + 1)).map (word.toUInt64.toUInt8 :: ·)

/-- `mem_read_ptrace` -/
def memReadPtrace (calls : ReadCalls) (addr : Addr) (len : ℕ) (m : Mem) : Option (List UInt8) :=
  peekLoop calls.peek m 0 len addr

/-- `cdbg_mem_read`, call by call -/
def cdbgMemReadCalls (calls : ReadCalls) (addr : Addr) (len : ℕ) (m : Mem) :
    Option (List UInt8) :=
  if calls.task then
    match calls.read with
    | some readSize =>
      if readSize.toNat = len then some (m.read addr readSize.toNat)
      else memReadPtrace calls addr len m
    | none => memReadPtrace calls addr len m
  else memReadPtrace calls addr len m

/-- One of the two ways gets all of the bytes. -/
def ReadCalls.Gets (calls : ReadCalls) (len : ℕ) : Prop :=
  (calls.task = true ∧ calls.read.map (·.toNat) = some len) ∨ ∀ i < len, calls.peek i = true

instance (calls : ReadCalls) (len : ℕ) : Decidable (calls.Gets len) :=
  inferInstanceAs (Decidable (_ ∨ _))

/-! ### What is read -/

section Read

variable {m : Mem} {calls : ReadCalls} {addr : Addr} {len : ℕ}

theorem valueOf_toUInt8 {b : UInt8} {bytes : List UInt8} (h : bytes.length < 8) :
    (valueOf (b :: bytes)).toUInt8 = b := by
  have hb := b.toNat_lt
  apply UInt8.toNat_inj.mp
  rw [UInt64.toNat_toUInt8, valueOf_toNat (by rw [List.length_cons]; omega), leNat]
  omega

/-- The sign of an `int` is not in its low byte. -/
theorem toUInt8_toInt64 (x : Int32) : x.toInt64.toUInt64.toUInt8 = x.toUInt32.toUInt8 := by
  apply UInt8.toBitVec_inj.mp
  refine BitVec.eq_of_getLsbD_eq fun i hi => ?_
  show ((x.toBitVec.signExtend 64).setWidth 8).getLsbD i = (x.toBitVec.setWidth 8).getLsbD i
  rw [BitVec.getLsbD_setWidth, BitVec.getLsbD_setWidth, BitVec.getLsbD_signExtend]
  simp [hi, show i < 64 by omega, show i < 32 by omega]

/-- The low byte of the `int` is the byte at its address. -/
theorem toUInt8_ptReadD : (ptReadD m addr).toInt64.toUInt64.toUInt8 = m addr := by
  rw [toUInt8_toInt64, ptReadD, UInt32.toUInt32_toInt32, UInt64.toUInt8_toUInt32, Mem.read_succ,
    valueOf_toUInt8 (by simp)]

/-- A byte that can not be read ends the loop; a word of -1 does not. -/
theorem peekLoop_succ {peek : ℕ → Bool} {i n : ℕ} : peekLoop peek m i (n + 1) addr =
    if peek i then (peekLoop peek m (i + 1) n (addr + 1)).map (m addr :: ·) else none := by
  rw [peekLoop, peekWord]
  cases peek i with
  | false => rfl
  | true =>
    rw [if_pos rfl, if_pos rfl]
    dsimp only
    rw [if_neg (fun h => h.2 rfl), toUInt8_ptReadD]

theorem peekLoop_eq_some {peek : ℕ → Bool} : ∀ {n i : ℕ} {addr : Addr},
    (∀ k < n, peek (i + k) = true) → peekLoop peek m i n addr = some (m.read addr n) := by
  intro n
  induction n with
  | zero => exact fun _ => rfl
  | succ n ih =>
    intro i addr h
    have htail : ∀ k < n, peek (i + 1 + k) = true := by
      intro k hk
      rw [Nat.add_assoc, Nat.add_comm 1]
      exact h (k + 1) (by omega)
    have hhead : peek i = true := h 0 (by omega)
    rw [peekLoop_succ, if_pos hhead, ih htail, Mem.read_succ, Option.map_some, Mem.read]
    simp only [offset_succ]

theorem peekLoop_eq_none {peek : ℕ → Bool} : ∀ {n i k : ℕ} {addr : Addr},
    k < n → peek (i + k) = false → peekLoop peek m i n addr = none := by
  intro n
  induction n with
  | zero => exact fun hk => absurd hk (by omega)
  | succ n ih =>
    intro i k addr hk hpeek
    rw [peekLoop_succ]
    cases k with
    | zero => rw [if_neg (by simpa using hpeek)]
    | succ k =>
      rw [ih (k := k) (by omega) (by rw [← hpeek, Nat.add_assoc, Nat.add_comm 1])]
      split <;> rfl

/-- The bytes are those of the memory, in whichever way they are read. -/
theorem cdbgMemReadCalls_eq : cdbgMemReadCalls calls addr len m =
    if calls.Gets len then some (m.read addr len) else none := by
  rw [cdbgMemReadCalls, memReadPtrace]
  have hpeeks : peekLoop calls.peek m 0 len addr =
      if ∀ i < len, calls.peek i = true then some (m.read addr len) else none := by
    split
    · rename_i hall
      exact peekLoop_eq_some fun k hk => by rw [Nat.zero_add]; exact hall k hk
    · rename_i hno
      obtain ⟨k, hk⟩ := not_forall.mp hno
      obtain ⟨hlt, hpeek⟩ := Classical.not_imp.mp hk
      exact peekLoop_eq_none hlt (by simpa using hpeek)
  rw [hpeeks]
  obtain ⟨task, read, peek⟩ := calls
  cases task with
  | false => simp [ReadCalls.Gets]
  | true =>
    cases read with
    | none => simp [ReadCalls.Gets]
    | some readSize =>
      by_cases hlen : readSize.toNat = len
      · simp [ReadCalls.Gets, hlen]
      · simp [ReadCalls.Gets, hlen]

/-- The read of the debugger's model is this one, where its oracle says whether the calls get the
bytes. -/
theorem wp_cdbgMemRead_calls {s : Sys} {p : Process} (hp : s.process s.dbg.pid = some p)
    (hgets : calls.Gets len ↔ s.os.fault .memRead s.os.calls.count = false) :
    wp (cdbgMemRead s.dbg.pid addr len)
      (fun bytes _ => bytes = cdbgMemReadCalls calls addr len p.mem) s := by
  refine wp_mono (wp_cdbgMemRead_eq hp addr len) fun bytes _ hbytes => ?_
  rw [hbytes, cdbgMemReadCalls_eq]
  cases hfault : s.os.fault .memRead s.os.calls.count with
  | false => rw [if_neg (by decide), if_pos (hgets.mpr hfault)]
  | true => rw [if_pos rfl, if_neg fun h => by simp [hgets.mp h] at hfault]

end Read

/-! ### What is read after a write -/

/-- What a successful `cdbg_mem_write` stores: by the Mach calls the bytes up to a length of 32
bits, by `PT_WRITE_D` the bytes and three zeros. -/
def WriteCalls.stored (calls : WriteCalls) (buf : Buffer) : List UInt8 :=
  if calls.byMach then buf.bytes.take (buf.bytes.length % 2 ^ 32)
  else if buf.bytes = [] then [] else buf.bytes ++ [0, 0, 0]

theorem WriteCalls.length_stored_le (calls : WriteCalls) (buf : Buffer) :
    (calls.stored buf).length ≤ buf.bytes.length + 3 := by
  rw [WriteCalls.stored]
  split
  · rw [List.length_take]
    omega
  split
  · exact Nat.zero_le _
  · simp

theorem cdbgMemWriteCalls_stores {calls : WriteCalls} {addr : Addr} {buf : Buffer} {s : Space}
    (hrc : (cdbgMemWriteCalls calls addr buf s).1 = 0) :
    (cdbgMemWriteCalls calls addr buf s).2.mem = s.mem.write addr (calls.stored buf) := by
  rw [cdbgMemWriteCalls_eq] at hrc ⊢
  rw [WriteCalls.stored]
  cases hmach : calls.byMach with
  | true => rfl
  | false =>
    rw [hmach] at hrc
    simp only [Bool.false_eq_true, if_false] at hrc ⊢
    by_cases hne : buf.bytes = []
    · rw [if_pos hne, memWritePtrace, hne]
      rfl
    · rw [if_neg hne, memWritePtrace_eq hne fun i hi => ?_]
      by_contra hno
      rw [memWritePtrace_fails hi (Bool.not_eq_true _ ▸ hno)] at hrc
      exact absurd hrc (by decide)

/-- The two ranges have no address in common. -/
def Apart (addr : Addr) (n : ℕ) (addr' : Addr) (n' : ℕ) : Prop :=
  ∀ i < n, ∀ i' < n', addr + UInt64.ofNat i ≠ addr' + UInt64.ofNat i'

theorem Mem.read_write_apart {m : Mem} {addr addr' : Addr} {bytes : List UInt8} {n : ℕ}
    (h : Apart addr n addr' bytes.length) : (m.write addr' bytes).read addr n = m.read addr n := by
  rw [Mem.read, Mem.read, List.map_inj_left]
  intro i hi
  exact Mem.write_of_ne fun j hj => h i (List.mem_range.mp hi) j hj

theorem apart_behind {addr : Addr} {n n' : ℕ} (h : n + n' ≤ 2 ^ 64) :
    Apart addr n (addr + UInt64.ofNat n) n' := by
  intro i hi j hj heq
  rw [UInt64.add_assoc, ← UInt64.ofNat_add] at heq
  exact absurd (offset_inj (by omega) (by omega) heq) (by omega)

/-- What is read where a buffer has been stored: its bytes, unless the Mach calls cut off some
that were not there. -/
theorem read_stored_iff {calls : WriteCalls} {addr : Addr} {buf : Buffer} {m : Mem}
    (hsize : buf.bytes.length + 3 ≤ 2 ^ 64) :
    (m.write addr (calls.stored buf)).read addr buf.bytes.length = buf.bytes ↔
      (calls.byMach = true → CutOffThere addr buf m) := by
  rw [WriteCalls.stored]
  cases calls.byMach with
  | true =>
    have hcut := @machVmWrite_eq_iff addr buf { mem := m, prot := fun _ => .rx }
    have hcovered := @Mem.write_covered m addr buf.bytes
      (buf.bytes.take (buf.bytes.length % 2 ^ 32)) (by rw [List.length_take]; omega)
    rw [if_pos rfl, ← Mem.write_eq_self_iff buf.size, hcovered, eq_comm]
    exact hcut.trans ⟨fun h _ => h, fun h => h rfl⟩
  | false =>
    refine iff_of_true ?_ fun h => absurd h (by decide)
    rw [if_neg (by decide)]
    by_cases hne : buf.bytes = []
    · rw [hne]
      rfl
    · rw [if_neg hne, Mem.write_append, Mem.read_write_apart (apart_behind hsize),
        Mem.read_write buf.size]

/-- After a write that is reported as successful a read of the same bytes finds them, in whichever
ways the two are made, exactly if the Mach calls cut off only what was there; apart from the bytes
and three more behind them everything is read as before. -/
theorem mem_read_written (calls : WriteCalls) (addr : Addr) (buf : Buffer) (s : Space)
    (hsize : buf.bytes.length + 3 ≤ 2 ^ 64)
    (hwrite : (cdbgMemWriteCalls calls addr buf s).1 = 0) :
    (∀ reads : ReadCalls, reads.Gets buf.bytes.length →
      (cdbgMemReadCalls reads addr buf.bytes.length
          (cdbgMemWriteCalls calls addr buf s).2.mem = some buf.bytes ↔
        (calls.byMach = true → CutOffThere addr buf s.mem))) ∧
    ∀ (reads : ReadCalls) (addr' : Addr) (n : ℕ), Apart addr' n addr (buf.bytes.length + 3) →
      cdbgMemReadCalls reads addr' n (cdbgMemWriteCalls calls addr buf s).2.mem =
        cdbgMemReadCalls reads addr' n s.mem := by
  rw [cdbgMemWriteCalls_stores hwrite]
  refine ⟨fun reads hgets => ?_, fun reads addr' n hapart => ?_⟩
  · rw [cdbgMemReadCalls_eq, if_pos hgets, Option.some.injEq, read_stored_iff hsize]
  · rw [cdbgMemReadCalls_eq, cdbgMemReadCalls_eq, Mem.read_write_apart fun i hi j hj => ?_]
    exact hapart i hi j (Nat.lt_of_lt_of_le hj (calls.length_stored_le buf))

/-- A trap that `PT_WRITE_D` has stored is read back through Mach, and the next page is as it
was. -/
theorem mem_read_written_trap :
    (cdbgMemWriteCalls { task := false } 0x1000 trapBuffer readOnlyCode).1 = 0 ∧
      cdbgMemReadCalls { read := some 1 } 0x1000 1
        (cdbgMemWriteCalls { task := false } 0x1000 trapBuffer readOnlyCode).2.mem = some [0xcc] ∧
      ∀ reads : ReadCalls, cdbgMemReadCalls reads 0x2000 8
        (cdbgMemWriteCalls { task := false } 0x1000 trapBuffer readOnlyCode).2.mem =
          cdbgMemReadCalls reads 0x2000 8 readOnlyCode.mem := by
  have hwrite : (cdbgMemWriteCalls { task := false } 0x1000 trapBuffer readOnlyCode).1 = 0 := by
    decide
  have hapart : Apart 0x2000 8 0x1000 4 := by
    unfold Apart
    decide
  obtain ⟨hread, hother⟩ :=
    mem_read_written { task := false } 0x1000 trapBuffer readOnlyCode (by decide) hwrite
  refine ⟨hwrite, (hread { read := some 1 } (by decide)).mpr ?_, fun reads => ?_⟩
  · exact fun hmach => absurd hmach (by decide)
  · exact hother reads 0x2000 8 hapart

end Debugger
