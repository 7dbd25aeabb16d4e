/-
What the debugger shows of a debuggee with breakpoints.

`x`, `print` and `call_return_address` read the live memory, in which every enabled breakpoint
has its trap byte.  `shown_eq_iff` says when they give what they would give without the
breakpoints.
-/
import Debugger.Dispatch
import Debugger.PrintPaths

open Prog

namespace Debugger

/-! ### Memory with breakpoints -/

/-- The memory with the trap byte at the address of every breakpoint. -/
def Mem.withTraps (m : Mem) (arch : Arch) (bps : List Breakpoint) : Mem := fun a =>
  if a ∈ bps.map (·.addr) then trapByte arch else m a

/-- The same debugger and debuggee with the breakpoints set. -/
def Sys.withBreakpoints (s : Sys) (bps : List Breakpoint) : Sys :=
  { s with
    dbg := { s.dbg with breakpoints := bps }
    os := { s.os with
      proc := s.os.proc.map fun p => { p with mem := p.mem.withTraps s.os.arch bps } } }

/-- No breakpoint in the range hides another byte than the trap byte. -/
def Mem.Undisturbed (m : Mem) (arch : Arch) (bps : List Breakpoint) (addr : Addr) (len : ℕ) :
    Prop :=
  ∀ i < len, addr + UInt64.ofNat i ∈ bps.map (·.addr) → m (addr + UInt64.ofNat i) = trapByte arch

section Memory

variable {m : Mem} {arch : Arch} {bps : List Breakpoint} {addr : Addr} {len : ℕ}

theorem withTraps_append (bp : Breakpoint) : m.withTraps arch (bps ++ [bp]) =
    Function.update (m.withTraps arch bps) bp.addr (trapByte arch) := by
  funext a
  have hmem : a ∈ (bps ++ [bp]).map (·.addr) ↔ a ∈ bps.map (·.addr) ∨ a = bp.addr := by
    rw [List.map_append, List.mem_append, List.map_singleton, List.mem_singleton]
  rw [Mem.withTraps]
  by_cases ha : a = bp.addr
  · rw [if_pos (hmem.mpr (.inr ha)), ha, Function.update_self]
  · rw [Function.update_of_ne ha, Mem.withTraps]
    simp only [hmem, ha, or_false]

/-- Reading a range gives the program's bytes exactly when no breakpoint hides one. -/
theorem read_withTraps_iff :
    (m.withTraps arch bps).read addr len = m.read addr len ↔ m.Undisturbed arch bps addr len := by
  rw [Mem.read, Mem.read, List.map_inj_left]
  refine forall_congr' fun i => ?_
  rw [List.mem_range, Mem.withTraps]
  refine imp_congr_right fun _ => ?_
  split
  · next h => exact ⟨fun heq _ => heq.symm, fun heq => (heq h).symm⟩
  · next h => exact iff_of_true rfl fun hmem => absurd hmem h

end Memory

/-- Enabling one more breakpoint in a debuggee with breakpoints. -/
theorem cdbgBpEnable_withBreakpoints {s : Sys} {bps : List Breakpoint} {addr : Addr} :
    wp (cdbgBpEnable {} s.dbg.pid addr) (fun r s' => r.1 = 0 →
      r.2.addr = addr ∧ s'.os.proc = (s.withBreakpoints (bps ++ [r.2])).os.proc)
      (s.withBreakpoints bps) := by
  refine wp_cdbgBpEnable (fun _ _ _ _ _ h => absurd h neg_one_ne) fun p s' hp hs' _ => ?_
  obtain ⟨n, rfl⟩ := hs'
  obtain ⟨hproc, -⟩ := Sys.process_eq_some.mp hp
  obtain ⟨q, hq, rfl⟩ := Option.map_eq_some_iff.mp hproc
  refine ⟨rfl, ?_⟩
  change some _ = s.os.proc.map _
  rw [hq, Option.map_some, withTraps_append]
  rfl

/-! ### The three readers -/

/-- The range `cmd_examine` dumps. -/
def examineRange (addrText : CStr) (countText : Option CStr) : Option (Addr × ℕ) :=
  match parseU64 addrText, (countText.map parseU64).getD (some 16) with
  | some addr, some count => if count = 0 ∨ count > 64 then none else some (addr, count.toNat)
  | _, _ => none

/-- The bytes `cmd_examine` prints. -/
def examineDump (addrText : CStr) (countText : Option CStr) : DbgM (Option (List UInt8)) := do
  let s ← get
  match examineRange addrText countText with
  | none => return none
  | some (addr, count) => cdbgMemRead s.dbg.pid addr count

/-- `cmd_examine` succeeds when it prints bytes. -/
theorem cmdExamine_eq (addrText : CStr) (countText : Option CStr) :
    cmdExamine addrText countText = do
      return if (← examineDump addrText countText).isSome then 0 else -1 := by
  funext s
  change (cmdExamine addrText countText).run s = StateT.run _ s
  rw [cmdExamine, examineDump, examineRange]
  rcases parseU64 addrText with _ | addr
  · rfl
  · rcases (countText.map parseU64).getD (some 16) with _ | count
    · rfl
    · by_cases hcount : count = 0 ∨ count > 64
      · simp only [hcount, if_true]
        rfl
      · simp only [hcount, if_false]
        rfl

/-- The byte of the instruction that tells a direct call. -/
def callByteAddr (arch : Arch) (pc : Addr) : Addr :=
  match arch with
  | .x86_64 => pc
  | .aarch64 => pc + 3

/-- The byte is that of a direct call. -/
def isCallByte (arch : Arch) (b : UInt8) : Bool :=
  match arch with
  | .x86_64 => b = 0xe8
  | .aarch64 => b &&& 0xfc = 0x94

/-- The high bits of a word are those of its last byte. -/
theorem valueOf_and_high (b₀ b₁ b₂ b₃ : UInt8) :
    valueOf [b₀, b₁, b₂, b₃] &&& 0xfc000000 = 0x94000000 ↔ b₃ &&& 0xfc = 0x94 := by
  have hlen : [b₀, b₁, b₂, b₃].length ≤ 8 := by simp
  have hlow : b₀.toNat + 256 * (b₁.toNat + 256 * b₂.toNat) < 2 ^ 24 := by
    have h₀ := b₀.toNat_lt
    have h₁ := b₁.toNat_lt
    have h₂ := b₂.toNat_lt
    omega
  have hval : (valueOf [b₀, b₁, b₂, b₃]).toNat / 2 ^ 24 = b₃.toNat := by
    rw [valueOf_toNat hlen]
    simp only [leNat]
    omega
  have hand : ∀ a c : ℕ, a &&& c <<< 24 = (a / 2 ^ 24 &&& c) <<< 24 := by
    intro a c
    refine Nat.eq_of_testBit_eq fun i => ?_
    rw [Nat.testBit_and, Nat.testBit_shiftLeft, Nat.testBit_shiftLeft, Nat.testBit_and,
      ← Nat.shiftRight_eq_div_pow, Nat.testBit_shiftRight]
    by_cases hi : i ≥ 24
    · rw [Nat.add_sub_cancel' hi]
      simp [hi]
    · simp [hi]
  rw [← UInt64.toNat_inj, UInt64.toNat_and, ← UInt8.toNat_inj, UInt8.toNat_and]
  change _ &&& 0xfc <<< 24 = 0x94 <<< 24 ↔ _
  rw [hand, hval, Nat.shiftLeft_eq, Nat.shiftLeft_eq]
  exact Nat.mul_left_inj (by decide)

section Readers

variable {s : Sys} {p : Process}

theorem wp_kernelRead_eq {α : Type} (c : KCall) (pid : ℕ) (f : Process → Option α) :
    wp (kernelRead c pid f) (fun a _ => a =
      if s.os.fault c s.os.calls.count then none else (s.process pid).bind f) s := by
  have hrun : wp (kernelRead c pid f) (fun a _ => a =
      (s.answer c pid fun p => (f p).map fun a => (a, p)).map Prod.fst) s := by
    rw [kernelRead, kernelCall, wp_bind, wp_get]
    cases s.answer c pid fun p => (f p).map fun a => (a, p) with
    | none => rfl
    | some r => rfl
  refine wp_mono hrun fun a _ ha => ?_
  rw [ha, Sys.answer]
  split
  · rfl
  · cases s.process pid with
    | none => rfl
    | some p =>
      rw [Option.bind_some, Option.bind_some, Option.map_map]
      exact congrFun Option.map_id (f p)

theorem wp_cdbgMemRead_eq (hp : s.process s.dbg.pid = some p) (addr : Addr) (len : ℕ) :
    wp (cdbgMemRead s.dbg.pid addr len) (fun a _ => a =
      if s.os.fault .memRead s.os.calls.count then none else some (p.mem.read addr len)) s := by
  refine wp_mono (wp_kernelRead_eq .memRead s.dbg.pid fun p => some (p.mem.read addr len))
    fun a _ ha => ?_
  rw [ha, hp, Option.bind_some]

/-- The address behind a direct call. -/
def behindCall (arch : Arch) (pc : Addr) : Addr :=
  match arch with
  | .x86_64 => pc + 5
  | .aarch64 => pc + 4

/-- `call_return_address` looks at one byte of what it reads. -/
theorem wp_callReturnAddress_eq (hp : s.process s.dbg.pid = some p) (pc : Addr) :
    wp (callReturnAddress pc) (fun a _ => a =
      if s.os.fault .memRead s.os.calls.count then none
      else if isCallByte s.os.arch (p.mem (callByteAddr s.os.arch pc)) then
        some (behindCall s.os.arch pc)
      else none) s := by
  rw [callReturnAddress, wp_bind, wp_get]
  cases s.os.arch with
  | x86_64 =>
    dsimp only
    rw [wp_bind]
    refine wp_mono (wp_cdbgMemRead_eq hp pc 1) fun bytes s' hbytes => ?_
    by_cases hf : s.os.fault .memRead s.os.calls.count = true
    · rw [if_pos hf] at hbytes ⊢
      subst hbytes
      rfl
    · rw [if_neg hf] at hbytes ⊢
      subst hbytes
      change (if (p.mem.read pc 1).headD 0 = 0xe8 then some (pc + 5) else none) = _
      rw [Mem.read_one]
      simp only [isCallByte, decide_eq_true_eq]
      rfl
  | aarch64 =>
    dsimp only
    rw [wp_bind]
    refine wp_mono (wp_cdbgMemRead_eq hp pc 4) fun bytes s' hbytes => ?_
    by_cases hf : s.os.fault .memRead s.os.calls.count = true
    · rw [if_pos hf] at hbytes ⊢
      subst hbytes
      rfl
    · rw [if_neg hf] at hbytes ⊢
      subst hbytes
      change (if valueOf (p.mem.read pc 4) &&& 0xfc000000 = 0x94000000 then some (pc + 4)
        else none) = _
      simp only [Mem.read, List.range_succ, List.range_zero, List.nil_append, List.cons_append,
        List.map_cons, List.map_nil, valueOf_and_high, isCallByte, decide_eq_true_eq]
      rfl

/-- What `x` prints. -/
theorem wp_examineDump_eq (hp : s.process s.dbg.pid = some p) (addrText : CStr)
    (countText : Option CStr) :
    wp (examineDump addrText countText) (fun a _ => a =
      (examineRange addrText countText).bind fun r =>
        if s.os.fault .memRead s.os.calls.count then none else some (p.mem.read r.1 r.2)) s := by
  rw [examineDump, wp_bind, wp_get]
  cases examineRange addrText countText with
  | none => rfl
  | some r => exact wp_cdbgMemRead_eq hp r.1 r.2

/-! ### With and without breakpoints -/

/-- The trap byte is not that of a call. -/
theorem isCallByte_trapByte (arch : Arch) : isCallByte arch (trapByte arch) = false := by
  cases arch <;> decide

/-- The debuggee with the breakpoints. -/
theorem process_withBreakpoints (hp : s.process s.dbg.pid = some p) (bps : List Breakpoint) :
    (s.withBreakpoints bps).process (s.withBreakpoints bps).dbg.pid =
      some { p with mem := p.mem.withTraps s.os.arch bps } := by
  obtain ⟨hproc, hpid⟩ := Sys.process_eq_some.mp hp
  refine Sys.process_eq_some.mpr ⟨?_, hpid⟩
  rw [Sys.withBreakpoints, hproc]
  rfl

/-- The dump is that without breakpoints. -/
theorem examineDump_eq_iff (hp : s.process s.dbg.pid = some p) (bps : List Breakpoint)
    (addrText : CStr) (countText : Option CStr) :
    ((examineDump addrText countText).run (s.withBreakpoints bps)).1 =
        ((examineDump addrText countText).run s).1 ↔
      s.os.fault .memRead s.os.calls.count = true ∨ ∀ addr count,
        examineRange addrText countText = some (addr, count) →
          p.mem.Undisturbed s.os.arch bps addr count := by
  rw [(wp_iff _).mp (wp_examineDump_eq (process_withBreakpoints hp bps) addrText countText),
    (wp_iff _).mp (wp_examineDump_eq hp addrText countText)]
  cases hrange : examineRange addrText countText with
  | none => exact iff_of_true rfl (.inr fun _ _ h => nomatch h)
  | some r =>
    rw [Option.bind_some, Option.bind_some]
    change (if s.os.fault .memRead s.os.calls.count then none else some _) = _ ↔ _
    by_cases hf : s.os.fault .memRead s.os.calls.count = true
    · rw [if_pos hf, if_pos hf]
      exact iff_of_true rfl (.inl hf)
    · rw [if_neg hf, if_neg hf, Option.some_inj, read_withTraps_iff, or_iff_right hf]
      refine ⟨fun h addr count heq => ?_, fun h => h r.1 r.2 rfl⟩
      cases heq
      exact h

/-- The value is that without breakpoints. -/
theorem readScalarValue_withTraps_iff {env : EvalEnv} {arch : Arch} {bps : List Breakpoint}
    {addr : Addr} {size : ℕ} :
    readScalarValue { env with mem := env.mem.withTraps arch bps } addr size =
        readScalarValue env addr size ↔
      env.readableAt addr (scalarWidth size) = false ∨
        env.mem.Undisturbed arch bps addr (scalarWidth size) := by
  have hwidth : scalarWidth size ≤ 8 := by
    rw [scalarWidth]
    split <;> omega
  have hlen (m : Mem) : (m.read addr (scalarWidth size)).length = scalarWidth size := by
    rw [Mem.read, List.length_map, List.length_range]
  rw [readScalarValue, readScalarValue, EvalEnv.memRead, EvalEnv.memRead]
  change (if env.readableAt addr (scalarWidth size) then some _ else none).map valueOf = _ ↔ _
  cases hread : env.readableAt addr (scalarWidth size) with
  | false => exact iff_of_true rfl (.inl rfl)
  | true =>
    rw [if_pos rfl, if_pos rfl, Option.map_some, Option.map_some, Option.some_inj,
      or_iff_right (by decide), ← read_withTraps_iff]
    refine ⟨fun h => ?_, congrArg valueOf⟩
    have hnat := congrArg UInt64.toNat h
    rw [valueOf_toNat ((hlen _).trans_le hwidth), valueOf_toNat ((hlen _).trans_le hwidth)] at hnat
    exact leNat_inj ((hlen _).trans (hlen _).symm) hnat

/-- The call is recognised as without breakpoints. -/
theorem callReturnAddress_eq_iff (hp : s.process s.dbg.pid = some p) (bps : List Breakpoint)
    (pc : Addr) :
    ((callReturnAddress pc).run (s.withBreakpoints bps)).1 =
        ((callReturnAddress pc).run s).1 ↔
      s.os.fault .memRead s.os.calls.count = true ∨
        isCallByte s.os.arch (p.mem (callByteAddr s.os.arch pc)) = false ∨
          callByteAddr s.os.arch pc ∉ bps.map (·.addr) := by
  rw [(wp_iff _).mp (wp_callReturnAddress_eq (process_withBreakpoints hp bps) pc),
    (wp_iff _).mp (wp_callReturnAddress_eq hp pc)]
  change (if s.os.fault .memRead s.os.calls.count then none else if isCallByte s.os.arch
    (p.mem.withTraps s.os.arch bps (callByteAddr s.os.arch pc)) then some _ else none) = _ ↔ _
  by_cases hf : s.os.fault .memRead s.os.calls.count = true
  · rw [if_pos hf, if_pos hf]
    exact iff_of_true rfl (.inl hf)
  · rw [if_neg hf, if_neg hf, or_iff_right hf, Mem.withTraps]
    by_cases hmem : callByteAddr s.os.arch pc ∈ bps.map (·.addr)
    · rw [if_pos hmem, isCallByte_trapByte, or_iff_left (not_not_intro hmem)]
      cases isCallByte s.os.arch (p.mem (callByteAddr s.os.arch pc)) with
      | false => exact iff_of_true rfl rfl
      | true => exact iff_of_false nofun nofun
    · rw [if_neg hmem]
      exact iff_of_true rfl (.inr hmem)

end Readers

/-- What `x`, `print` and `call_return_address` read of a debuggee with breakpoints is what
they read without them exactly when reading fails or no breakpoint hides a byte that they look
at: a byte of the dump or of the value other than the trap byte, or the byte that tells a call.
A debuggee with breakpoints is what `cdbg_bp_enable` leaves of one with a breakpoint less. -/
theorem shown_eq_iff {s : Sys} {p : Process} (hp : s.process s.dbg.pid = some p)
    (bps : List Breakpoint) :
    (∀ addrText countText,
      ((examineDump addrText countText).run (s.withBreakpoints bps)).1 =
          ((examineDump addrText countText).run s).1 ↔
        s.os.fault .memRead s.os.calls.count = true ∨ ∀ addr count,
          examineRange addrText countText = some (addr, count) →
            p.mem.Undisturbed s.os.arch bps addr count) ∧
    (∀ (env : EvalEnv) addr size,
      readScalarValue { env with mem := env.mem.withTraps s.os.arch bps } addr size =
          readScalarValue env addr size ↔
        env.readableAt addr (scalarWidth size) = false ∨
          env.mem.Undisturbed s.os.arch bps addr (scalarWidth size)) ∧
    (∀ pc, ((callReturnAddress pc).run (s.withBreakpoints bps)).1 =
          ((callReturnAddress pc).run s).1 ↔
        s.os.fault .memRead s.os.calls.count = true ∨
          isCallByte s.os.arch (p.mem (callByteAddr s.os.arch pc)) = false ∨
            callByteAddr s.os.arch pc ∉ bps.map (·.addr)) ∧
    ∀ addr, wp (cdbgBpEnable {} s.dbg.pid addr) (fun r s' => r.1 = 0 →
      r.2.addr = addr ∧ s'.os.proc = (s.withBreakpoints (bps ++ [r.2])).os.proc)
      (s.withBreakpoints bps) :=
  ⟨examineDump_eq_iff hp bps, fun _ _ _ => readScalarValue_withTraps_iff,
    callReturnAddress_eq_iff hp bps, fun _ => cdbgBpEnable_withBreakpoints⟩

/-- A breakpoint hides the byte at its address. -/
theorem shown_eq_iff_twoThreads :
    let s := Sys.attached .x86_64 twoThreads fun _ => .stopped 5 []
    ∀ addrText countText,
      ((examineDump addrText countText).run
            (s.withBreakpoints [{ addr := 0x1000, savedByte := 0x90, enabled := true }])).1 =
          ((examineDump addrText countText).run s).1 ↔
        s.os.fault .memRead s.os.calls.count = true ∨ ∀ addr count,
          examineRange addrText countText = some (addr, count) →
            twoThreads.mem.Undisturbed .x86_64
              [{ addr := 0x1000, savedByte := 0x90, enabled := true }] addr count :=
  (shown_eq_iff (s := Sys.attached .x86_64 twoThreads fun _ => .stopped 5 []) rfl _).1

/-- `x` prints the trap byte of a breakpoint. -/
theorem shown_trapByte :
    ¬ ∀ (s : Sys) (p : Process), s.process s.dbg.pid = some p → ∀ bps : List Breakpoint,
      (∀ addrText countText,
        ((examineDump addrText countText).run (s.withBreakpoints bps)).1 =
          ((examineDump addrText countText).run s).1) ∧
      (∀ (env : EvalEnv) addr size,
        readScalarValue { env with mem := env.mem.withTraps s.os.arch bps } addr size =
          readScalarValue env addr size) ∧
      ∀ pc, ((callReturnAddress pc).run (s.withBreakpoints bps)).1 =
        ((callReturnAddress pc).run s).1 := by
  intro h
  have hx := (h (Sys.attached .x86_64 twoThreads fun _ => .stopped 5 []) twoThreads rfl
    [{ addr := 0x1000, savedByte := 0x90, enabled := true }]).1 "0x1000".toList (some "1".toList)
  exact absurd hx (by decide)

end Debugger
