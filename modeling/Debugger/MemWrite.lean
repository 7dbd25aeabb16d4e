/-
Writing to the memory of the debuggee (`memory.c`).

`cdbgMemWrite` of the debugger's model stores exactly the bytes it is given.  Here the three
ways of the source are told apart: a Mach write, one more with the page made writable, and
`PT_WRITE_D` byte by byte, which stores an `int` each time.  A `PT_WRITE_D` leaves three zeros
behind its byte, the next ones cover those of the ones before (`memWritePtrace_eq`), and the
last three stay; the Mach calls take a length of 32 bits, and the page is left with the
protection of code.  `mem_write_exact_iff` says where nothing of that can be seen.
-/
import Debugger.SetFrame

open Prog

namespace Debugger

/-! ### The memory -/

section Write

variable {m m' : Mem} {addr : Addr} {bytes : List UInt8}

theorem Mem.write_append : ∀ {xs : List UInt8} {m : Mem} {addr : Addr} {ys : List UInt8},
    m.write addr (xs ++ ys) = (m.write addr xs).write (addr + UInt64.ofNat xs.length) ys := by
  intro xs
  induction xs with
  | nil =>
    intro m addr ys
    show m.write addr ys = m.write (addr + 0) ys
    rw [UInt64.add_zero]
  | cons x xs ih =>
    intro m addr ys
    rw [List.cons_append, Mem.write, ih, offset_succ]
    rfl

/-- A write does not depend on the bytes it replaces. -/
theorem Mem.write_congr : ∀ {bytes : List UInt8} {m m' : Mem} {addr : Addr},
    (∀ a, (∀ i < bytes.length, a ≠ addr + UInt64.ofNat i) → m a = m' a) →
      m.write addr bytes = m'.write addr bytes := by
  intro bytes
  induction bytes with
  | nil =>
    intro m m' addr h
    exact funext fun a => h a (by simp)
  | cons b bs ih =>
    intro m m' addr h
    rw [Mem.write, Mem.write]
    refine ih fun a ha => ?_
    by_cases haddr : a = addr
    · rw [haddr, Function.update_self, Function.update_self]
    · rw [Function.update_of_ne haddr, Function.update_of_ne haddr]
      refine h a fun i hi => ?_
      cases i with
      | zero => simpa using haddr
      | succ i =>
        rw [← offset_succ]
        exact ha i (Nat.lt_of_succ_lt_succ hi)

/-- A longer write at the same address covers the one before. -/
theorem Mem.write_covered {xs : List UInt8} (h : xs.length ≤ bytes.length) :
    (m.write addr xs).write addr bytes = m.write addr bytes :=
  Mem.write_congr fun _ ha => Mem.write_of_ne fun i hi => ha i (by omega)

theorem Mem.read_write (h : bytes.length < 2 ^ 64) :
    (m.write addr bytes).read addr bytes.length = bytes := by
  refine List.ext_getElem (by simp [Mem.read]) fun i hi hi' => ?_
  simp only [Mem.read, List.getElem_map, List.getElem_range]
  exact Mem.write_at hi' h

/-- The bytes behind a write are the old ones. -/
theorem Mem.read_behind {n : ℕ} (h : bytes.length + n ≤ 2 ^ 64) :
    (m.write addr bytes).read (addr + UInt64.ofNat bytes.length) n =
      m.read (addr + UInt64.ofNat bytes.length) n := by
  rw [Mem.read, Mem.read, List.map_inj_left]
  intro i hi
  rw [List.mem_range] at hi
  refine Mem.write_of_ne fun j hj heq => ?_
  rw [UInt64.add_assoc, ← UInt64.ofNat_add] at heq
  exact absurd (offset_inj (by omega) (by omega) heq) (by omega)

/-- A write changes nothing exactly if the bytes are there already. -/
theorem Mem.write_eq_self_iff (h : bytes.length < 2 ^ 64) :
    m.write addr bytes = m ↔ m.read addr bytes.length = bytes := by
  constructor
  · intro heq
    rw [← heq, Mem.read_write h]
  · intro hread
    funext a
    by_cases hin : ∃ i, ∃ _ : i < bytes.length, a = addr + UInt64.ofNat i
    · obtain ⟨i, hi, rfl⟩ := hin
      have hget := congrArg (·[i]?) hread
      simp only [Mem.read, List.getElem?_map, List.getElem?_range hi, Option.map_some,
        List.getElem?_eq_getElem hi, Option.some.injEq] at hget
      rw [Mem.write_at hi h, hget]
    · exact Mem.write_of_ne fun i hi heq => hin ⟨i, hi, heq⟩

end Write

/-! ### The calls -/

/-- The protection of a page. -/
structure Protection where
  read : Bool
  write : Bool
  execute : Bool
deriving DecidableEq, Repr

/-- `VM_PROT_READ | VM_PROT_WRITE`; `VM_PROT_COPY` is no lasting protection. -/
def Protection.rw : Protection := { read := true, write := true, execute := false }

/-- `VM_PROT_READ | VM_PROT_EXECUTE` -/
def Protection.rx : Protection := { read := true, write := false, execute := true }

/-- The memory of the debuggee, and the protection of its pages by their addresses. -/
structure Space where
  mem : Mem
  prot : Addr → Protection

/-- What the calls of one `cdbg_mem_write` come to, in the order of the source. -/
structure WriteCalls where
  /-- `task_for_pid` -/
  task : Bool := true
  /-- the first `mach_vm_write` -/
  write : Bool := true
  /-- `sysconf(_SC_PAGESIZE)` -/
  pageSize : Int := 4096
  /-- `mach_vm_protect`, and the `mach_vm_write` and `mach_vm_protect` after it -/
  unprotect : Bool := true
  rewrite : Bool := true
  restore : Bool := true
  /-- the `PT_WRITE_D` of each byte -/
  poke : ℕ → Bool := fun _ => true

/-- A buffer of the debugger; its length is a `size_t`. -/
structure Buffer where
  bytes : List UInt8
  size : bytes.length < 2 ^ 64

/-- `mach_vm_write`, which takes a length of 32 bits. -/
def machVmWrite (s : Space) (addr : Addr) (buf : Buffer) : Space :=
  { s with mem := s.mem.write addr (buf.bytes.take (buf.bytes.length % 2 ^ 32)) }

/-- `mach_vm_protect` of one page -/
def machVmProtect (s : Space) (page : Addr) (prot : Protection) : Space :=
  { s with prot := Function.update s.prot page prot }

/-- The page of the address. -/
def WriteCalls.page (calls : WriteCalls) (addr : Addr) : Addr :=
  addr &&& ~~~(UInt64.ofInt calls.pageSize - 1)

/-- `mem_write_mach` -/
def memWriteMach (calls : WriteCalls) (addr : Addr) (buf : Buffer) (s : Space) : Int × Space :=
  if calls.write then (0, machVmWrite s addr buf)
  else if calls.pageSize ≤ 0 then (-1, s)
  else if !calls.unprotect then (-1, s)
  else
    let s := machVmProtect s (calls.page addr) .rw
    let s := if calls.rewrite then machVmWrite s addr buf else s
    let s := if calls.restore then machVmProtect s (calls.page addr) .rx else s
    (if calls.rewrite then 0 else -1, s)

/-- The loop of `mem_write_ptrace`; `PT_WRITE_D` stores an `int`. -/
def pokeLoop (poke : ℕ → Bool) : ℕ → Addr → List UInt8 → Mem → Int × Mem
  | _, _, [], m => (0, m)
  | i, addr, b :: bs, m =>
    if poke i then pokeLoop poke (i + 1) (addr + 1) bs (m.write addr (bytesOf 4 b.toUInt64))
    else (-1, m)

/-- `mem_write_ptrace` -/
def memWritePtrace (calls : WriteCalls) (addr : Addr) (buf : Buffer) (s : Space) : Int × Space :=
  let (rc, mem) := pokeLoop calls.poke 0 addr buf.bytes s.mem
  (rc, { s with mem := mem })

/-- `cdbg_mem_write`, call by call -/
def cdbgMemWriteCalls (calls : WriteCalls) (addr : Addr) (buf : Buffer) (s : Space) :
    Int × Space :=
  if calls.task then
    match memWriteMach calls addr buf s with
    | (0, s) => (0, s)
    | (_, s) => memWritePtrace calls addr buf s
  else memWritePtrace calls addr buf s

/-- Where `cdbg_mem_write` returns 0 the bytes have replaced those at the address, and nothing
else has changed. -/
def WritesExactly (calls : WriteCalls) (addr : Addr) (buf : Buffer) (s : Space) : Prop :=
  (cdbgMemWriteCalls calls addr buf s).1 = 0 →
    (cdbgMemWriteCalls calls addr buf s).2 = { s with mem := s.mem.write addr buf.bytes }

/-- The Mach calls write the bytes. -/
def WriteCalls.byMach (calls : WriteCalls) : Bool :=
  calls.task && (calls.write || (decide (0 < calls.pageSize) && calls.unprotect && calls.rewrite))

/-- The protection that the Mach calls leave the page with, where they change it. -/
def WriteCalls.leftProt (calls : WriteCalls) : Option Protection :=
  if calls.task && !calls.write && decide (0 < calls.pageSize) && calls.unprotect then
    some (if calls.restore then .rx else .rw)
  else none

/-- What the Mach calls cut off is there already. -/
def CutOffThere (addr : Addr) (buf : Buffer) (m : Mem) : Prop :=
  let n := buf.bytes.length % 2 ^ 32
  m.read (addr + UInt64.ofNat n) (buf.bytes.length - n) = buf.bytes.drop n

/-- Behind the bytes, with these in place, there are three zeros. -/
def ZerosBehind (addr : Addr) (buf : Buffer) (m : Mem) : Prop :=
  (m.write addr buf.bytes).read (addr + UInt64.ofNat buf.bytes.length) 3 = [0, 0, 0]

/-- Nothing but the bytes changes: the page has the protection it is left with, and the bytes
are written by Mach calls that cut off only what is there, or by `PT_WRITE_D` before zeros, if
at all. -/
def NothingElse (calls : WriteCalls) (addr : Addr) (buf : Buffer) (s : Space) : Prop :=
  if calls.byMach then
    CutOffThere addr buf s.mem ∧ ∀ p ∈ calls.leftProt, s.prot (calls.page addr) = p
  else
    (∃ i < buf.bytes.length, calls.poke i = false) ∨
      (buf.bytes = [] ∨ ZerosBehind addr buf s.mem) ∧
        ∀ p ∈ calls.leftProt, s.prot (calls.page addr) = p

/-! ### What the calls do -/

section Calls

variable {calls : WriteCalls} {addr : Addr} {buf : Buffer} {s : Space}

/-- The protections after the Mach calls. -/
def protAfter (calls : WriteCalls) (addr : Addr) (prot : Addr → Protection) :
    Addr → Protection :=
  calls.leftProt.elim prot (Function.update prot (calls.page addr))

/-- What the Mach calls leave, and whether they are enough. -/
theorem cdbgMemWriteCalls_eq : cdbgMemWriteCalls calls addr buf s =
    if calls.byMach then
      (0, { mem := (machVmWrite s addr buf).mem, prot := protAfter calls addr s.prot })
    else memWritePtrace calls addr buf { s with prot := protAfter calls addr s.prot } := by
  obtain ⟨task, write, pageSize, unprotect, rewrite, restore, poke⟩ := calls
  by_cases hsize : pageSize ≤ 0
  · have hnot : ¬0 < pageSize := by omega
    cases task <;> cases write <;>
      simp [cdbgMemWriteCalls, memWriteMach, WriteCalls.byMach, WriteCalls.leftProt, protAfter,
        machVmWrite, hsize, hnot]
  · have hpos : 0 < pageSize := by omega
    cases task <;> cases write <;> cases unprotect <;> cases rewrite <;> cases restore <;>
      simp [cdbgMemWriteCalls, memWriteMach, WriteCalls.byMach, WriteCalls.leftProt, protAfter,
        machVmWrite, machVmProtect, WriteCalls.page, hsize, hpos]

/-- The protections are the old ones exactly if the page had the one it is left with. -/
theorem protAfter_eq_iff {prot : Addr → Protection} :
    protAfter calls addr prot = prot ↔ ∀ p ∈ calls.leftProt, prot (calls.page addr) = p := by
  rw [protAfter]
  cases calls.leftProt with
  | none => simp
  | some p => simp [eq_comm]

/-- The bytes of an `int` with the value of a byte. -/
theorem bytesOf_byte (b : UInt8) : bytesOf 4 b.toUInt64 = [b, 0, 0, 0] := by
  have hlt := b.toNat_lt
  have hhigh : ∀ n : UInt64, 8 ≤ n.toNat → n.toNat < 64 → (b.toUInt64 >>> n).toUInt8 = 0 := by
    intro n hn hn'
    apply UInt8.toNat_inj.mp
    have hshift : b.toNat >>> n.toNat = 0 := by
      rw [Nat.shiftRight_eq_div_pow]
      refine Nat.div_eq_of_lt (Nat.lt_of_lt_of_le hlt ?_)
      exact Nat.pow_le_pow_right (by decide) hn
    simp [Nat.mod_eq_of_lt hn', hshift]
  simp only [bytesOf, List.range_succ, List.range_zero, List.nil_append, List.cons_append,
    List.map_cons, List.map_nil]
  rw [hhigh (UInt64.ofNat (8 * 1)) (by decide) (by decide),
    hhigh (UInt64.ofNat (8 * 2)) (by decide) (by decide),
    hhigh (UInt64.ofNat (8 * 3)) (by decide) (by decide)]
  simp

/-- The zeros behind a byte are covered by the next ones, all but the last. -/
theorem pokeLoop_eq {poke : ℕ → Bool} : ∀ {bs : List UInt8} {i : ℕ} {addr : Addr} {b : UInt8}
    {m : Mem}, (∀ k, i ≤ k → k < i + (b :: bs).length → poke k = true) →
      pokeLoop poke i addr (b :: bs) m = (0, m.write addr (b :: bs ++ [0, 0, 0])) := by
  intro bs
  induction bs with
  | nil =>
    intro i addr b m h
    rw [pokeLoop, if_pos (h i (Nat.le_refl i) (by simp)), pokeLoop, bytesOf_byte]
    rfl
  | cons c bs ih =>
    intro i addr b m h
    have htail : ∀ k, i + 1 ≤ k → k < i + 1 + (c :: bs).length → poke k = true := by
      intro k hk hlen
      rw [List.length_cons] at hlen
      exact h k (by omega) (by simp only [List.length_cons]; omega)
    rw [pokeLoop, if_pos (h i (Nat.le_refl i) (by simp)), ih htail, bytesOf_byte]
    have hcovered : ∀ m : Mem, (m.write (addr + 1) [0, 0, 0]).write (addr + 1)
        (c :: bs ++ [0, 0, 0]) = m.write (addr + 1) (c :: bs ++ [0, 0, 0]) :=
      fun m => Mem.write_covered (by simp)
    exact congrArg (Prod.mk 0) (hcovered (Function.update m addr b))

/-- A `PT_WRITE_D` that fails ends the loop. -/
theorem pokeLoop_fails {poke : ℕ → Bool} : ∀ {bs : List UInt8} {i : ℕ} {addr : Addr} {m : Mem}
    {k : ℕ}, i ≤ k → k < i + bs.length → poke k = false → (pokeLoop poke i addr bs m).1 = -1 := by
  intro bs
  induction bs with
  | nil =>
    intro i addr m k hle hlt
    rw [List.length_nil] at hlt
    omega
  | cons b bs ih =>
    intro i addr m k hle hlt hpoke
    rw [pokeLoop]
    rcases Nat.eq_or_lt_of_le hle with rfl | hlt'
    · rw [if_neg (by simp [hpoke])]
    · split
      · exact ih hlt' (by rw [List.length_cons] at hlt; omega) hpoke
      · rfl

/-- `PT_WRITE_D` stores the bytes and three zeros behind them. -/
theorem memWritePtrace_eq (hne : buf.bytes ≠ [])
    (h : ∀ i < buf.bytes.length, calls.poke i = true) :
    memWritePtrace calls addr buf s =
      (0, { s with mem := s.mem.write addr (buf.bytes ++ [0, 0, 0]) }) := by
  obtain ⟨b, bs, hbs⟩ := List.exists_cons_of_ne_nil hne
  rw [hbs] at h
  rw [memWritePtrace, hbs, pokeLoop_eq fun k _ hk => h k (by omega)]

theorem memWritePtrace_fails {i : ℕ} (hi : i < buf.bytes.length) (h : calls.poke i = false) :
    (memWritePtrace calls addr buf s).1 = -1 :=
  pokeLoop_fails (Nat.zero_le i) (by omega) h

/-- What the Mach calls write are the bytes exactly if what they cut off is there. -/
theorem machVmWrite_eq_iff :
    (machVmWrite s addr buf).mem = s.mem.write addr buf.bytes ↔ CutOffThere addr buf s.mem := by
  rw [machVmWrite, CutOffThere]
  dsimp only
  generalize hn : buf.bytes.length % 2 ^ 32 = n
  have hle : n ≤ buf.bytes.length := hn ▸ Nat.mod_le _ _
  have hsize := buf.size
  have hlen : (buf.bytes.take n).length = n := by rw [List.length_take, Nat.min_eq_left hle]
  have hsplit : s.mem.write addr buf.bytes =
      (s.mem.write addr (buf.bytes.take n)).write (addr + UInt64.ofNat n) (buf.bytes.drop n) := by
    rw [← congrArg UInt64.ofNat hlen, ← Mem.write_append, List.take_append_drop]
  have hread := @Mem.read_behind s.mem addr (buf.bytes.take n) (buf.bytes.length - n) (by omega)
  rw [hlen] at hread
  rw [hsplit, eq_comm, Mem.write_eq_self_iff (by rw [List.length_drop]; omega), List.length_drop,
    hread]

/-- The zeros change nothing exactly if they are there. -/
theorem write_zeros_eq_iff {m : Mem} :
    m.write addr (buf.bytes ++ [0, 0, 0]) = m.write addr buf.bytes ↔ ZerosBehind addr buf m := by
  rw [Mem.write_append, Mem.write_eq_self_iff (by decide)]
  rfl

end Calls

/-- A write that is reported as successful has replaced the bytes and changed nothing else
exactly if nothing else changes by the way it is made. -/
theorem mem_write_exact_iff (calls : WriteCalls) (addr : Addr) (buf : Buffer) (s : Space) :
    WritesExactly calls addr buf s ↔ NothingElse calls addr buf s := by
  rw [WritesExactly, NothingElse, cdbgMemWriteCalls_eq]
  cases hmach : calls.byMach with
  | true =>
    simp only [if_true, Space.mk.injEq, true_imp_iff, machVmWrite_eq_iff, protAfter_eq_iff]
  | false =>
    simp only [Bool.false_eq_true, if_false]
    by_cases hfails : ∃ i < buf.bytes.length, calls.poke i = false
    · obtain ⟨i, hi, hpoke⟩ := hfails
      refine iff_of_true (fun hrc => ?_) (.inl ⟨i, hi, hpoke⟩)
      rw [memWritePtrace_fails hi hpoke] at hrc
      exact absurd hrc (by decide)
    · rw [or_iff_right hfails]
      by_cases hne : buf.bytes = []
      · simp [memWritePtrace, hne, pokeLoop, Mem.write, protAfter_eq_iff]
      · have hpoke : ∀ i < buf.bytes.length, calls.poke i = true := by
          intro i hi
          by_contra hno
          exact hfails ⟨i, hi, Bool.not_eq_true _ ▸ hno⟩
        rw [memWritePtrace_eq hne hpoke, or_iff_right hne, ← write_zeros_eq_iff]
        simp only [Space.mk.injEq, true_imp_iff, protAfter_eq_iff]

/-- A trap byte -/
def trapBuffer : Buffer := { bytes := [0xcc], size := by decide }

/-- Instructions, in pages that can be read only -/
def readOnlyCode : Space :=
  { mem := fun _ => 0x90, prot := fun _ => { read := true, write := false, execute := false } }

/-- Without a task port the three bytes behind the trap are zeroed; with one, and a first write
that fails, the page can be executed afterwards. -/
theorem mem_write_changes_more :
    (¬WritesExactly { task := false } 0x1000 trapBuffer readOnlyCode ∧
      (cdbgMemWriteCalls { task := false } 0x1000 trapBuffer readOnlyCode).2.mem 0x1001 = 0) ∧
    ¬WritesExactly { write := false } 0x1000 trapBuffer readOnlyCode ∧
      (cdbgMemWriteCalls { write := false } 0x1000 trapBuffer readOnlyCode).2.prot 0x1000 = .rx := by
  have hbehind : (cdbgMemWriteCalls { task := false } 0x1000 trapBuffer readOnlyCode).2.mem
      0x1001 = 0 := by decide
  have hpage : (cdbgMemWriteCalls { write := false } 0x1000 trapBuffer readOnlyCode).2.prot
      0x1000 = .rx := by decide
  refine ⟨⟨fun h => ?_, hbehind⟩, fun h => ?_, hpage⟩
  · rw [h (by decide)] at hbehind
    exact absurd hbehind (by decide)
  · rw [h (by decide)] at hpage
    exact absurd hpage (by decide)

end Debugger
