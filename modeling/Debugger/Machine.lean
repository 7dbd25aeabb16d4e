/-
The debuggee: a process with shared memory and threads.

Between two stops a process performs an arbitrary list of `Move`s: a thread
executes the instruction at its pc, with any effect on its registers and on
memory, a thread is created, or a thread ends.  The machine fixes only what the
debugger relies on:

* a thread whose pc is at a trap instruction executes the trap: it stands behind
  it on x86_64 and at it on aarch64, and does not run any further;
* under `PT_STEP` the primary thread executes at most one instruction;
* a thread with a positive suspend count does not run;
* a new thread has an unused non-zero id, empty debug registers and is not
  suspended.

Every list of moves is a behaviour of some program, so a statement about all
lists of moves is a statement about all programs and all schedules.
-/
import Debugger.Regs
import Mathlib.Data.List.Nodup

namespace Debugger

/-- The memory of a process, as bytes. -/
abbrev Mem := Addr → UInt8

/-- `len` bytes from `addr` on. -/
def Mem.read (m : Mem) (addr : Addr) (len : ℕ) : List UInt8 :=
  (List.range len).map fun i => m (addr + UInt64.ofNat i)

/-- Store the bytes from `addr` on. -/
def Mem.write (m : Mem) (addr : Addr) : List UInt8 → Mem
  | [] => m
  | b :: bs => Mem.write (Function.update m addr b) (addr + 1) bs

/-- Single stores, in order. -/
def Mem.stores (m : Mem) : List (Addr × UInt8) → Mem
  | [] => m
  | (a, b) :: ws => Mem.stores (Function.update m a b) ws

@[simp] theorem Mem.read_one (m : Mem) (addr : Addr) : m.read addr 1 = [m addr] := by
  simp [Mem.read]

theorem Mem.stores_of_not_mem {m : Mem} {a : Addr} {ws : List (Addr × UInt8)}
    (h : ∀ w ∈ ws, w.1 ≠ a) : m.stores ws a = m a := by
  induction ws generalizing m with
  | nil => rfl
  | cons w ws ih =>
    rw [Mem.stores, ih fun v hv => h v (by simp [hv]),
      Function.update_of_ne (h w (by simp)).symm]

/-- A value as `len` little-endian bytes. -/
def bytesOf (len : ℕ) (value : UInt64) : List UInt8 :=
  (List.range len).map fun i => (value >>> UInt64.ofNat (8 * i)).toUInt8

/-- The value of at most eight little-endian bytes. -/
def valueOf (bytes : List UInt8) : UInt64 :=
  bytes.foldr (fun b acc => acc <<< 8 ||| b.toUInt64) 0

/-- `CDBG_TRAP_BYTE` -/
def trapByte : Arch → UInt8
  | .x86_64 => 0xcc
  | .aarch64 => 0xd4

/-- The instruction at the address is a breakpoint instruction: `int3` on x86_64, a
`brk` encoding on aarch64. -/
def trapAt (arch : Arch) (m : Mem) (pc : Addr) : Bool :=
  match arch with
  | .x86_64 => m pc = 0xcc
  | .aarch64 => valueOf (m.read pc 4) &&& 0xffe0001f = 0xd4200000

theorem Mem.read_succ (m : Mem) (addr : Addr) (n : ℕ) :
    m.read addr (n + 1) = m addr :: (List.range n).map fun i => m (addr + UInt64.ofNat (i + 1)) := by
  rw [Mem.read, List.range_succ_eq_map, List.map_cons, List.map_map]
  simp [Function.comp_def]

/-- The low bits of a value are those of its first byte. -/
theorem valueOf_cons_low (b : UInt8) (bytes : List UInt8) :
    valueOf (b :: bytes) &&& 0x1f = b.toUInt64 &&& 0x1f := by
  have hmask : ∀ v : UInt64, (v &&& 0x1f).toNat = v.toNat % 2 ^ 5 := fun v => by
    rw [UInt64.toNat_and]
    exact Nat.and_two_pow_sub_one_eq_mod v.toNat 5
  have hshift : (valueOf bytes <<< 8).toNat % 2 ^ 5 = 0 := by
    rw [UInt64.toNat_shiftLeft, Nat.shiftLeft_eq]
    show (valueOf bytes).toNat * 2 ^ 8 % 2 ^ 64 % 2 ^ 5 = 0
    omega
  apply UInt64.toNat_inj.mp
  show ((valueOf bytes <<< 8 ||| b.toUInt64) &&& 0x1f).toNat = _
  rw [hmask, hmask, UInt64.toNat_or, Nat.or_mod_two_pow, hshift, Nat.zero_or]

/-- The byte `cdbg_bp_enable` writes is a breakpoint instruction on x86_64 only. -/
theorem trapAt_patched {arch : Arch} {m : Mem} {addr : Addr} (h : m addr = trapByte arch) :
    trapAt arch m addr = true ↔ arch = .x86_64 := by
  cases arch with
  | x86_64 => exact iff_of_true (decide_eq_true h) rfl
  | aarch64 =>
    have hlow : valueOf (m.read addr 4) &&& 0x1f = 0x14 := by
      rw [Mem.read_succ, h, valueOf_cons_low]
      decide
    simp only [trapAt, decide_eq_true_eq, reduceCtorEq, iff_false]
    intro hbrk
    have hand : valueOf (m.read addr 4) &&& 0xffe0001f &&& 0x1f = 0x14 := by
      rw [UInt64.and_assoc]
      exact hlow
    rw [hbrk] at hand
    exact absurd hand (by decide)

/-- `cdbg_wp_mode_t` -/
inductive WpMode
  | write
  | access
deriving DecidableEq, Repr

/-- What one hardware watchpoint register watches. -/
structure HwSlot where
  addr : Addr
  size : ℕ
  mode : WpMode
deriving DecidableEq, Repr

/-- `CDBG_WP_MAX_HW` -/
abbrev wpMaxHw : ℕ := 4

/-- What a thread executed last. -/
inductive LastExec
  | nothing
  | instr (addr : Addr)
  | trap (addr : Addr)
deriving DecidableEq, Repr

/-- A thread of the debuggee.  `suspendCount` is the kernel's count, that is the number
of successful `thread_suspend` minus successful `thread_resume` calls; `last` and
`halted` record the execution. -/
structure Thread where
  tid : UInt64
  regs : Regs
  dr : Fin wpMaxHw → Option HwSlot := fun _ => none
  suspendCount : ℕ := 0
  last : LastExec := .nothing
  halted : Bool := false

/-- A process under `ptrace`; its first thread is the primary one. -/
structure Process where
  pid : ℕ
  mem : Mem
  threads : List Thread
  usedTids : List UInt64
  /-- the start of the first readable and executable region -/
  execBase : Option Addr := none

/-- The two ways of resuming a process. -/
inductive Resume
  | step
  | cont
deriving DecidableEq, Repr

/-- One action of the debuggee. -/
inductive Move
  | exec (tid : UInt64) (regs : Regs) (writes : List (Addr × UInt8))
  | create (tid : UInt64) (regs : Regs)
  | finish (tid : UInt64)

namespace Thread

/-- The thread may execute another instruction before the next stop. -/
def canRun (t : Thread) : Bool := t.suspendCount = 0 && !t.halted

/-- The thread behind (x86_64) or at (aarch64) the trap it has just executed. -/
def execTrap (arch : Arch) (t : Thread) : Thread :=
  { t with
    regs := if arch = .x86_64 then t.regs.setPc (t.regs.pc + 1) else t.regs
    last := .trap t.regs.pc
    halted := true }

/-- The thread after the instruction at its pc; `once` when it is single-stepped. -/
def execInstr (once : Bool) (regs : Regs) (t : Thread) : Thread :=
  { t with regs := regs, last := .instr t.regs.pc, halted := once }

end Thread

namespace Process

/-- The primary thread. -/
def primary (p : Process) : Option Thread := p.threads.head?

/-- The thread `tid` names: 0 (`CDBG_TID_PRIMARY`) is the primary thread. -/
def thread (p : Process) (tid : UInt64) : Option Thread :=
  if tid = 0 then p.primary else p.threads.find? (·.tid = tid)

/-- Apply `f` to the threads with the given id. -/
def mapThread (p : Process) (tid : UInt64) (f : Thread → Thread) : Process :=
  { p with threads := p.threads.map fun t => if t.tid = tid then f t else t }

/-- The single-stepped thread is the primary one. -/
def stepsOnce (p : Process) (kind : Resume) (tid : UInt64) : Bool :=
  kind = .step && p.primary.any (·.tid = tid)

/-- One move of the debuggee; a move the machine does not allow has no effect. -/
def move (arch : Arch) (kind : Resume) (p : Process) : Move → Process
  | .exec tid regs writes =>
    match p.threads.find? (·.tid = tid) with
    | none => p
    | some t =>
      if !t.canRun then p
      else if trapAt arch p.mem t.regs.pc then p.mapThread tid (·.execTrap arch)
      else
        { p.mapThread tid (·.execInstr (p.stepsOnce kind tid) regs) with
          mem := p.mem.stores writes }
  | .create tid regs =>
    if tid = 0 ∨ tid ∈ p.usedTids then p
    else
      { p with
        threads := p.threads ++ [{ tid := tid, regs := regs }]
        usedTids := tid :: p.usedTids }
  | .finish tid => { p with threads := p.threads.filter (·.tid ≠ tid) }

/-- What the debuggee does up to the next stop. -/
def moves (arch : Arch) (kind : Resume) (p : Process) (ms : List Move) : Process :=
  ms.foldl (move arch kind) p

/-- The process at the moment it is resumed: every thread may run again. -/
def resumed (p : Process) : Process :=
  { p with threads := p.threads.map fun t => { t with halted := false } }

/-- Ids name at most one thread, 0 names none, and no id is used twice. -/
structure WellFormed (p : Process) : Prop where
  nodup : (p.threads.map (·.tid)).Nodup
  ne_zero : ∀ t ∈ p.threads, t.tid ≠ 0
  used : ∀ t ∈ p.threads, t.tid ∈ p.usedTids

/-! ### What a move can do -/

section Moves

variable {arch : Arch} {kind : Resume} {p : Process}

/-- A move does nothing, or it executes one instruction or one trap in a thread that can
run, or it creates a thread with an unused id, or it ends a thread. -/
theorem move_cases (m : Move) :
    p.move arch kind m = p ∨
    (∃ tid regs writes t, m = .exec tid regs writes ∧
      p.threads.find? (·.tid = tid) = some t ∧ t.canRun = true ∧
      (trapAt arch p.mem t.regs.pc = true ∧
          p.move arch kind m = p.mapThread tid (·.execTrap arch) ∨
        trapAt arch p.mem t.regs.pc = false ∧
          p.move arch kind m = { p.mapThread tid (·.execInstr (p.stepsOnce kind tid) regs) with
            mem := p.mem.stores writes })) ∨
    (∃ tid regs, tid ≠ 0 ∧ tid ∉ p.usedTids ∧ p.move arch kind m =
      { p with
        threads := p.threads ++ [{ tid := tid, regs := regs }]
        usedTids := tid :: p.usedTids }) ∨
    (∃ tid, p.move arch kind m = { p with threads := p.threads.filter (·.tid ≠ tid) }) := by
  cases m with
  | exec tid regs writes =>
    rw [move]
    cases ht : p.threads.find? (·.tid = tid) with
    | none => exact .inl rfl
    | some t =>
      dsimp only
      by_cases hrun : t.canRun = true
      · rw [if_neg (by simp [hrun])]
        refine .inr (.inl ⟨tid, regs, writes, t, rfl, ht, hrun, ?_⟩)
        by_cases htrap : trapAt arch p.mem t.regs.pc = true
        · rw [if_pos htrap]
          exact .inl ⟨htrap, rfl⟩
        · rw [if_neg htrap]
          exact .inr ⟨by simpa using htrap, rfl⟩
      · rw [if_pos (by simp [hrun])]
        exact .inl rfl
  | create tid regs =>
    rw [move]
    split
    · exact .inl rfl
    · next h =>
      rw [not_or] at h
      exact .inr (.inr (.inl ⟨tid, regs, h.1, h.2, rfl⟩))
  | finish tid => exact .inr (.inr (.inr ⟨tid, rfl⟩))

/-- What every move preserves is preserved by any number of moves. -/
theorem moves_induct {P : Process → Prop} {ms : List Move}
    (h : ∀ p, ∀ m ∈ ms, P p → P (p.move arch kind m)) (hp : P p) :
    P (p.moves arch kind ms) := by
  induction ms generalizing p with
  | nil => exact hp
  | cons m ms ih =>
    exact ih (fun q m' hm' => h q m' (by simp [hm'])) (h p m (by simp) hp)

theorem mapThread_tids {tid : UInt64} {f : Thread → Thread} (hf : ∀ t, (f t).tid = t.tid) :
    (p.mapThread tid f).threads.map (·.tid) = p.threads.map (·.tid) := by
  rw [mapThread, List.map_map]
  refine List.map_congr_left fun t _ => ?_
  rw [Function.comp_apply]
  split
  · exact hf t
  · rfl

/-- Well-formedness speaks about the ids of the threads only. -/
theorem wellFormed_of_tids {q : Process} (htids : q.threads.map (·.tid) = p.threads.map (·.tid))
    (hused : q.usedTids = p.usedTids) (h : p.WellFormed) : q.WellFormed := by
  have hmem : ∀ t ∈ q.threads, ∃ u ∈ p.threads, u.tid = t.tid := by
    intro t ht
    have : t.tid ∈ p.threads.map (·.tid) := htids ▸ List.mem_map_of_mem ht
    exact List.mem_map.mp this
  constructor
  · rw [htids]
    exact h.nodup
  · intro t ht
    obtain ⟨u, hu, hut⟩ := hmem t ht
    rw [← hut]
    exact h.ne_zero u hu
  · intro t ht
    obtain ⟨u, hu, hut⟩ := hmem t ht
    rw [← hut, hused]
    exact h.used u hu

theorem WellFormed.move (h : p.WellFormed) (m : Move) : (p.move arch kind m).WellFormed := by
  rcases @move_cases arch kind p m with
    hm | ⟨tid, regs, writes, t, -, -, -, ⟨-, hm⟩ | ⟨-, hm⟩⟩ | ⟨tid, regs, h0, hu, hm⟩ |
      ⟨tid, hm⟩
  · rw [hm]
    exact h
  · rw [hm]
    exact wellFormed_of_tids (mapThread_tids fun _ => rfl) rfl h
  · rw [hm]
    exact wellFormed_of_tids (@mapThread_tids p tid
      (·.execInstr (p.stepsOnce kind tid) regs) fun _ => rfl) rfl h
  · rw [hm]
    constructor
    · rw [List.map_append, List.nodup_append']
      refine ⟨h.nodup, by simp, ?_⟩
      rw [List.disjoint_left]
      intro a ha ha'
      obtain ⟨t, ht, rfl⟩ := List.mem_map.mp ha
      obtain rfl : t.tid = tid := by simpa using ha'
      exact hu (h.used t ht)
    · intro t ht
      rcases List.mem_append.mp ht with ht | ht
      · exact h.ne_zero t ht
      · obtain rfl := List.mem_singleton.mp ht
        exact h0
    · intro t ht
      rcases List.mem_append.mp ht with ht | ht
      · exact List.mem_cons_of_mem _ (h.used t ht)
      · obtain rfl := List.mem_singleton.mp ht
        exact List.mem_cons_self
  · rw [hm]
    constructor
    · exact h.nodup.sublist (List.filter_sublist.map _)
    · exact fun t ht => h.ne_zero t (List.mem_filter.mp ht).1
    · exact fun t ht => h.used t (List.mem_filter.mp ht).1

theorem WellFormed.resumed (h : p.WellFormed) : p.resumed.WellFormed := by
  refine wellFormed_of_tids (p := p) ?_ rfl h
  rw [Process.resumed, List.map_map]
  rfl

theorem moves_pid (ms : List Move) : (p.moves arch kind ms).pid = p.pid := by
  refine moves_induct (P := fun q => q.pid = p.pid) (fun q m _ hq => ?_) rfl
  rcases @move_cases arch kind q m with
    hm | ⟨tid, regs, writes, t, -, -, -, ⟨-, hm⟩ | ⟨-, hm⟩⟩ | ⟨tid, regs, -, -, hm⟩ |
      ⟨tid, hm⟩ <;> rw [hm] <;> exact hq

end Moves

end Process

end Debugger
