/-
The frames of the debuggee: `up` (`cdbg_regs_frame_up`) and `tb` (`cmd_backtrace`).

Both follow the frame records, and each of them takes the way in which memory is read as a
parameter: the debugger's own (`cdbgRegsFrameUp_eq`) or that of a memory some of which can not
be read.  An `up` increases the frame pointer, or leaves it and increases the stack pointer, so
that no frame comes back (`frames_increase`); `callers_agree_iff` says when `up` arrives at
frame #1 of `tb`.
-/
import Debugger.Commands
import Debugger.AstEval
import Debugger.Frame
import Mathlib.Data.List.Chain
import Mathlib.Data.Prod.Lex

open Prog

namespace Debugger

/-! ### The two unwinders -/

/-- A frame of `tb`: its frame pointer, and the address that is printed. -/
structure BacktraceFrame where
  fp : Addr
  pc : Addr
deriving DecidableEq, Repr

/-- `CDBG_MAX_BACKTRACE_FRAMES` -/
abbrev maxBacktraceFrames : ℕ := 64

section Unwinders

variable {m : Type → Type} [Monad m] (read : Addr → ℕ → m (Option (List UInt8)))

/-- `cdbg_mem_read_u64` -/
def memReadU64 (addr : Addr) : m (Option UInt64) := do
  return (← read addr 8).map valueOf

/-- `unwind_from_stack_top` -/
def stackTopWith (regs : Regs) (sp : Addr) : m (Option Regs) :=
  match regs with
  | .arm native => do
    if !retAddrValid (native .lr) then return none
    let native := Function.update native .pc (native .lr)
    let fp := native .fp
    let native := match ← (if fp ≠ 0 then memReadU64 read fp else return none) with
      | some savedFp => if savedFp > fp then Function.update native .fp savedFp else native
      | none => native
    return some (.arm (Function.update native .sp (sp + 16)))
  | .x86 native => do
    match ← memReadU64 read sp with
    | none => return none
    | some retAddr =>
      if !retAddrValid retAddr then return none
      return some (.x86 (Function.update (Function.update native .rip retAddr) .rsp (sp + 8)))

/-- The frame record `cdbg_regs_frame_up` follows. -/
def recordWith (fp : Addr) : m (Option (Addr × Addr)) := do
  if fp = 0 then return none
  match ← memReadU64 read fp with
  | none => return none
  | some savedFp =>
    match ← memReadU64 read (fp + 8) with
    | none => return none
    | some retAddr =>
      return if savedFp > fp ∧ retAddrValid retAddr then some (savedFp, retAddr) else none

/-- `cdbg_regs_frame_up` behind the check of the instruction. -/
def frameWith (regs : Regs) : m (Option Regs) := do
  match ← recordWith read regs.fp with
  | none => stackTopWith read regs regs.sp
  | some (savedFp, retAddr) =>
    match regs with
    | .arm native =>
      return some (.arm (Function.update (Function.update (Function.update native
        .pc retAddr) .fp savedFp) .sp (regs.fp + 16)))
    | .x86 native =>
      return some (.x86 (Function.update (Function.update (Function.update native
        .rip retAddr) .rbp savedFp) .rsp (regs.fp + 16)))

/-- `cdbg_regs_frame_up` -/
def frameUpWith (regs : Regs) : m (Option Regs) :=
  match regs with
  | .arm _ => frameWith read regs
  | .x86 _ => do
    match ← read regs.pc 1 with
    | some [0x55] => stackTopWith read regs regs.sp
    | _ => frameWith read regs

/-- `frame_record_next` -/
def frameRecordNext (fp : Addr) : m (Option BacktraceFrame) := do
  match ← memReadU64 read fp with
  | none => return none
  | some savedFp =>
    match ← memReadU64 read (fp + 8) with
    | none => return none
    | some savedPc =>
      return if savedFp = 0 ∨ savedPc < 0x1000 ∨ savedFp ≤ fp then none
        else some { fp := savedFp, pc := savedPc }

/-- The loop of `cmd_backtrace` from a frame pointer on. -/
def backtraceFrom : ℕ → Addr → m (List BacktraceFrame)
  | 0, _ => return []
  | n + 1, fp => do
    if fp = 0 then return []
    match ← frameRecordNext read fp with
    | none => return []
    | some frame => return frame :: (← backtraceFrom n frame.fp)

/-- The frames `cmd_backtrace` prints, once it has the registers. -/
def backtraceWith (regs : Regs) : m (List BacktraceFrame) := do
  return { fp := regs.fp, pc := regs.pc } ::
    (← backtraceFrom read (maxBacktraceFrames - 1) regs.fp)

end Unwinders

/-- `cmd_backtrace`: the frames that are printed, or -1. -/
def cmdBacktrace : DbgM (Option (List BacktraceFrame)) := do
  if (← cdbgRefreshRegs) ≠ 0 then return none
  let s ← get
  return some (← backtraceWith (cdbgMemRead s.dbg.pid) s.dbg.regs)

/-- `cdbg_regs_frame_up` of the debugger reads with `cdbg_mem_read`. -/
theorem cdbgRegsFrameUp_eq (pid : ℕ) (regs : Regs) :
    cdbgRegsFrameUp pid regs = frameUpWith (cdbgMemRead pid) regs := by
  cases regs <;> rfl

/-! ### Every `up` increases the frame -/

theorem retAddrValid_iff {addr : Addr} : retAddrValid addr ↔ 0x1000 ≤ addr := decide_eq_true_iff

theorem recordEnds_iff {fp savedFp savedPc : Addr} :
    savedFp = 0 ∨ savedPc < 0x1000 ∨ savedFp ≤ fp ↔ ¬(savedFp > fp ∧ retAddrValid savedPc) := by
  rw [retAddrValid_iff, gt_iff_lt, not_and_or, UInt64.not_lt, UInt64.not_le]
  constructor
  · rintro (rfl | h | h)
    · exact .inl (by simp)
    · exact .inr h
    · exact .inl h
  · exact fun h => .inr h.symm

/-- A frame, in the order of frame pointers and then of stack pointers. -/
def Regs.frame (regs : Regs) : ℕ ×ₗ ℕ := toLex (regs.fp.toNat, regs.sp.toNat)

section Increase

variable {σ : Type} {read : Addr → ℕ → StateM σ (Option (List UInt8))} {s : σ} {regs : Regs}

/-- The result, if there is one, is above a frame. -/
def Above (regs : Regs) (r : Option Regs) (_ : σ) : Prop := ∀ regs', r = some regs' →
  regs.frame < regs'.frame

theorem above_none : Above regs none s := fun _ h => nomatch h

theorem above_of_fp {regs' : Regs} (h : regs.fp < regs'.fp) : Above regs (some regs') s := by
  intro r hr
  obtain rfl := Option.some.inj hr
  rw [Regs.frame, Regs.frame, Prod.Lex.toLex_lt_toLex]
  exact .inl (UInt64.lt_iff_toNat_lt.mp h)

theorem above_of_sp {regs' : Regs} {n : UInt64} (hfp : regs'.fp = regs.fp)
    (hsp : regs'.sp = regs.sp + n) (hn : 0 < n.toNat ∧ n.toNat ≤ 16)
    (h : regs.sp.toNat + 16 < 2 ^ 64) : Above regs (some regs') s := by
  intro r hr
  obtain rfl := Option.some.inj hr
  rw [Regs.frame, Regs.frame, Prod.Lex.toLex_lt_toLex]
  refine .inr ⟨by rw [hfp], ?_⟩
  rw [hsp, UInt64.toNat_add, Nat.mod_eq_of_lt (lt_of_le_of_lt (Nat.add_le_add_left hn.2 _) h)]
  exact Nat.lt_add_of_pos_right hn.1

/-- The return address from the link register or the stack top: the frame pointer stays, or
is the one that is saved above it. -/
theorem stackTopWith_above (hsp : regs.sp.toNat + 16 < 2 ^ 64) :
    wp (stackTopWith read regs regs.sp) (Above regs) s := by
  cases regs with
  | arm native =>
    rw [stackTopWith, wp_ite]
    refine ⟨fun _ => above_none, fun _ => ?_⟩
    rw [wp_bind]
    refine wp_any fun saved s' => ?_
    cases saved with
    | none => exact above_of_sp rfl rfl (by decide) hsp
    | some savedFp =>
      dsimp only
      split
      · exact above_of_fp ‹_›
      · exact above_of_sp rfl rfl (by decide) hsp
  | x86 native =>
    rw [stackTopWith, wp_bind]
    refine wp_any fun retAddr s' => ?_
    cases retAddr with
    | none => exact above_none
    | some retAddr =>
      dsimp only
      rw [wp_ite]
      exact ⟨fun _ => above_none, fun _ =>
        above_of_sp rfl rfl (by decide) hsp⟩

theorem recordWith_above {fp : Addr} :
    wp (recordWith read fp) (fun r _ => ∀ savedFp retAddr, r = some (savedFp, retAddr) →
      fp < savedFp) s := by
  rw [recordWith, wp_ite]
  refine ⟨fun _ _ _ h => (nomatch h), fun _ => ?_⟩
  rw [wp_bind]
  refine wp_any fun saved s' => ?_
  cases saved with
  | none => exact fun _ _ h => nomatch h
  | some savedFp =>
    dsimp only
    rw [wp_bind]
    refine wp_any fun ret s'' => ?_
    cases ret with
    | none => exact fun _ _ h => nomatch h
    | some retAddr =>
      intro saved ret h
      obtain ⟨⟨habove, -⟩, h⟩ := Option.ite_none_right_eq_some.mp h
      obtain ⟨rfl, -⟩ := Prod.mk.inj (Option.some.inj h)
      exact habove

theorem frameWith_above (hsp : regs.sp.toNat + 16 < 2 ^ 64) :
    wp (frameWith read regs) (Above regs) s := by
  rw [frameWith, wp_bind]
  refine wp_mono recordWith_above fun record s' habove => ?_
  cases record with
  | none => exact stackTopWith_above hsp
  | some record =>
    cases regs with
    | arm native => exact above_of_fp (habove _ _ rfl)
    | x86 native => exact above_of_fp (habove _ _ rfl)

/-- An `up` that succeeds increases the frame. -/
theorem frameUpWith_above (hsp : regs.sp.toNat + 16 < 2 ^ 64) :
    wp (frameUpWith read regs) (Above regs) s := by
  cases regs with
  | arm native => exact frameWith_above hsp
  | x86 native =>
    rw [frameUpWith, wp_bind]
    refine wp_any fun insn s' => ?_
    split
    · exact stackTopWith_above hsp
    · exact frameWith_above hsp

/-- The frame `tb` prints for a frame record is the caller's, which is above the callee's. -/
theorem frameRecordNext_above {fp : Addr} :
    wp (frameRecordNext read fp) (fun r _ => ∀ frame, r = some frame → fp < frame.fp) s := by
  rw [frameRecordNext, wp_bind]
  refine wp_any fun saved s' => ?_
  cases saved with
  | none => exact fun _ h => nomatch h
  | some savedFp =>
    dsimp only
    rw [wp_bind]
    refine wp_any fun ret s'' => ?_
    cases ret with
    | none => exact fun _ h => nomatch h
    | some savedPc =>
      intro frame h
      obtain ⟨hend, h⟩ := Option.ite_none_left_eq_some.mp h
      obtain rfl := Option.some.inj h
      exact UInt64.not_le.mp fun hle => hend (.inr (.inr hle))

theorem backtraceFrom_above (n : ℕ) : ∀ {fp : Addr} {s : σ},
    wp (backtraceFrom read n fp)
      (fun frames _ => (fp :: frames.map BacktraceFrame.fp).IsChain (· < ·)) s := by
  induction n with
  | zero => exact fun {fp s} => .singleton fp
  | succ n ih =>
    intro fp s
    -- a frame is kept only if its frame pointer is above `fp`, from which the rest goes on
    rw [backtraceFrom, wp_ite]
    refine ⟨fun _ => .singleton fp, fun _ => ?_⟩
    rw [wp_bind]
    refine wp_mono frameRecordNext_above fun next s' habove => ?_
    cases next with
    | none => exact .singleton fp
    | some frame =>
      dsimp only
      rw [wp_bind]
      exact wp_mono ih fun frames s'' hchain => .cons_cons (habove frame rfl) hchain

theorem backtraceWith_above :
    wp (backtraceWith read regs)
      (fun frames _ => (frames.map BacktraceFrame.fp).Pairwise (· < ·)) s := by
  rw [backtraceWith, wp_bind]
  exact wp_mono (backtraceFrom_above _) fun frames s' hchain => hchain.pairwise

end Increase

theorem cmdBacktrace_above {s : Sys} :
    wp cmdBacktrace (fun r _ => ∀ frames, r = some frames →
      frames.Pairwise (·.fp < ·.fp)) s := by
  rw [cmdBacktrace, wp_bind]
  refine wp_any fun rc s' => ?_
  rw [wp_ite]
  refine ⟨fun _ _ h => (nomatch h), fun _ => ?_⟩
  rw [wp_bind, wp_get, wp_bind]
  refine wp_mono backtraceWith_above fun printed s'' habove frames h => ?_
  obtain rfl := Option.some.inj h
  exact List.pairwise_map.mp habove

/-- An `up` from one frame to the next, with a stack pointer that does not wrap. -/
def Up {σ : Type} (read : Addr → ℕ → StateM σ (Option (List UInt8))) (regs regs' : Regs) : Prop :=
  regs.sp.toNat + 16 < 2 ^ 64 ∧ ∃ s s', (frameUpWith read regs).run s = (some regs', s')

theorem Up.lt {σ : Type} {read : Addr → ℕ → StateM σ (Option (List UInt8))} {regs regs' : Regs}
    (h : Up read regs regs') : regs.frame < regs'.frame := by
  obtain ⟨hsp, s, s', hrun⟩ := h
  exact (wp_of_run hrun).mp (frameUpWith_above hsp) regs' rfl

/-- However memory is read, and whatever happens to it between two commands: every `up`
increases the frame, no frame of a sequence of `up`s comes back, and the frame pointers of `tb`
increase. -/
theorem frames_increase {σ : Type} (read : Addr → ℕ → StateM σ (Option (List UInt8))) :
    (∀ regs regs' : Regs, Up read regs regs' → regs.frame < regs'.frame) ∧
    (∀ ups : List Regs, ups.IsChain (Up read) → (ups.map Regs.frame).Pairwise (· < ·)) ∧
    (∀ regs s, ((backtraceWith read regs).run s).1.Pairwise (·.fp < ·.fp)) ∧
    (∀ (s : Sys) (frames : List BacktraceFrame), (cmdBacktrace.run s).1 = some frames →
      frames.Pairwise (·.fp < ·.fp)) := by
  refine ⟨fun _ _ => Up.lt, fun ups hups => ?_, fun regs s => ?_, fun s => ?_⟩
  · exact (List.isChain_map_of_isChain Regs.frame (fun _ _ => Up.lt) hups).pairwise
  · exact List.pairwise_map.mp backtraceWith_above
  · exact cmdBacktrace_above

/-! ### The caller of `up` and of `tb` -/

section Callers

variable (mem : Mem) (readable : Addr → Bool) (regs : Regs)

/-- `cdbg_mem_read` of a memory some bytes of which can not be read -/
def readIfReadable (addr : Addr) (len : ℕ) : Id (Option (List UInt8)) :=
  if ∀ i < len, readable (addr + UInt64.ofNat i) then some (mem.read addr len) else none

/-- The word in memory, when its bytes can be read. -/
def wordAt (addr : Addr) : Option UInt64 := (memReadU64 (readIfReadable mem readable) addr).run

/-- There is a frame record at the frame pointer, behind which the stack goes on above. -/
def FrameRecord (savedFp retAddr : Addr) : Prop :=
  regs.fp ≠ 0 ∧ wordAt mem readable regs.fp = some savedFp ∧
    wordAt mem readable (regs.fp + 8) = some retAddr ∧ regs.fp < savedFp ∧ 0x1000 ≤ retAddr

/-- The x86_64 pc is at `push rbp`. -/
def AtPush : Prop :=
  match regs with
  | .arm _ => False
  | .x86 _ => readable regs.pc ∧ mem regs.pc = 0x55

/-- The return address in the link register, or on top of the stack. -/
def returnOnTop : Option Addr :=
  match regs with
  | .arm native => (some (native .lr)).filter retAddrValid
  | .x86 _ => (wordAt mem readable regs.sp).filter retAddrValid

/-- `up` arrives at frame #1 of `tb`, and fails when there is none. -/
def CallersAgree : Prop :=
  let frames := (backtraceWith (readIfReadable mem readable) regs).run
  let upper := (frameUpWith (readIfReadable mem readable) regs).run
  (∀ frame, frames[1]? = some frame → ∃ regs', upper = some regs' ∧ regs'.pc = frame.pc) ∧
    (frames.length = 1 → upper = none)

variable {mem readable regs}

theorem stackTopWith_pc :
    (stackTopWith (readIfReadable mem readable) regs regs.sp).run.map Regs.pc =
      returnOnTop mem readable regs := by
  cases regs with
  | arm native =>
    rw [stackTopWith, returnOnTop]
    by_cases h : retAddrValid (native .lr)
    · rw [if_neg (by simpa using h), Id.run_bind, Option.filter_some_pos h]
      dsimp only [Id.run_pure, Option.map_some, Regs.pc]
      split
      · split <;> rfl
      · rfl
    · rw [if_pos (by simpa using h), Option.filter_some_neg (Bool.eq_false_iff.mpr h)]
      rfl
  | x86 native =>
    rw [stackTopWith, returnOnTop, Id.run_bind, wordAt]
    cases (memReadU64 (readIfReadable mem readable) (Regs.x86 native).sp).run with
    | none => rfl
    | some retAddr =>
      dsimp only
      by_cases h : retAddrValid retAddr
      · rw [if_neg (by simpa using h), Option.filter_some_pos h]
        rfl
      · rw [if_pos (by simpa using h), Option.filter_some_neg (Bool.eq_false_iff.mpr h)]
        rfl

theorem recordWith_eq_some {savedFp retAddr : Addr} :
    (recordWith (readIfReadable mem readable) regs.fp).run = some (savedFp, retAddr) ↔
      FrameRecord mem readable regs savedFp retAddr := by
  rw [recordWith, FrameRecord, wordAt, wordAt]
  by_cases hfp : regs.fp = 0
  · rw [if_pos hfp]
    exact ⟨fun h => (nomatch h), fun h => absurd hfp h.1⟩
  rw [if_neg hfp, Id.run_bind]
  cases (memReadU64 (readIfReadable mem readable) regs.fp).run with
  | none => exact ⟨fun h => (nomatch h), fun h => nomatch h.2.1⟩
  | some saved =>
    dsimp only
    rw [Id.run_bind]
    cases (memReadU64 (readIfReadable mem readable) (regs.fp + 8)).run with
    | none => exact ⟨fun h => (nomatch h), fun h => nomatch h.2.2.1⟩
    | some ret =>
      dsimp only
      rw [Id.run_pure, Option.ite_none_right_eq_some]
      simp only [Option.some.injEq, Prod.mk.injEq, retAddrValid_iff]
      constructor
      · rintro ⟨⟨habove, hvalid⟩, rfl, rfl⟩
        exact ⟨hfp, rfl, rfl, habove, hvalid⟩
      · rintro ⟨-, rfl, rfl, habove, hvalid⟩
        exact ⟨⟨habove, hvalid⟩, rfl, rfl⟩

/-- What `frame_record_next` finds is the record `cdbg_regs_frame_up` follows. -/
theorem frameRecordNext_eq {m : Type → Type} [Monad m] [LawfulMonad m]
    {read : Addr → ℕ → m (Option (List UInt8))} {fp : Addr} (hfp : fp ≠ 0) :
    frameRecordNext read fp =
      Option.map (fun record => BacktraceFrame.mk record.1 record.2) <$> recordWith read fp := by
  rw [frameRecordNext, recordWith, if_neg hfp, map_bind]
  refine bind_congr fun saved => ?_
  cases saved with
  | none => simp
  | some savedFp =>
    dsimp only
    rw [map_bind]
    refine bind_congr fun ret => ?_
    cases ret with
    | none => simp
    | some retAddr =>
      simp only [map_pure, recordEnds_iff]
      by_cases h : savedFp > fp ∧ retAddrValid retAddr
      · simp [h]
      · simp [h]

theorem FrameRecord.unique {savedFp retAddr savedFp' retAddr' : Addr}
    (h : FrameRecord mem readable regs savedFp retAddr)
    (h' : FrameRecord mem readable regs savedFp' retAddr') :
    savedFp = savedFp' ∧ retAddr = retAddr' :=
  Prod.mk.inj (Option.some.inj
    ((recordWith_eq_some.mpr h).symm.trans (recordWith_eq_some.mpr h')))

/-- `tb` prints frame #1 for the record at the frame pointer, and stops when there is none. -/
theorem backtraceWith_one (mem : Mem) (readable : Addr → Bool) (regs : Regs) :
    ∃ frame₀ frames, (backtraceWith (readIfReadable mem readable) regs).run = frame₀ :: frames ∧
      frames.head? = (recordWith (readIfReadable mem readable) regs.fp).run.map
        fun record => ⟨record.1, record.2⟩ := by
  refine ⟨_, (backtraceFrom (readIfReadable mem readable) (maxBacktraceFrames - 1) regs.fp).run, rfl, ?_⟩
  rw [show maxBacktraceFrames - 1 = 62 + 1 from rfl, backtraceFrom]
  by_cases hfp : regs.fp = 0
  · rw [if_pos hfp, recordWith, if_pos hfp]
    rfl
  · rw [if_neg hfp, Id.run_bind, frameRecordNext_eq hfp, Id.run_map]
    cases (recordWith (readIfReadable mem readable) regs.fp).run with
    | none => rfl
    | some record => rfl

theorem frameUpWith_atPush (h : AtPush mem readable regs) :
    frameUpWith (readIfReadable mem readable) regs =
      stackTopWith (readIfReadable mem readable) regs regs.sp := by
  cases regs with
  | arm native => exact h.elim
  | x86 native =>
    obtain ⟨hread, hpush⟩ := h
    have hinsn : (readIfReadable mem readable (Regs.x86 native).pc 1) = some [0x55] := by
      rw [readIfReadable, if_pos (by simpa using hread), Mem.read_one, hpush]
    rw [frameUpWith, hinsn]
    rfl

theorem frameUpWith_not_atPush (h : ¬AtPush mem readable regs) :
    frameUpWith (readIfReadable mem readable) regs =
      frameWith (readIfReadable mem readable) regs := by
  cases regs with
  | arm native => rfl
  | x86 native =>
    have hinsn : readIfReadable mem readable (Regs.x86 native).pc 1 ≠ some [0x55] := by
      intro hinsn
      obtain ⟨hread, hbytes⟩ := Option.ite_none_right_eq_some.mp hinsn
      rw [Mem.read_one] at hbytes
      exact h ⟨by simpa using hread, (List.cons.inj (Option.some.inj hbytes)).1⟩
    have hbind : ∀ {α β : Type} (a : Id α) (f : α → Id β), a >>= f = f a := fun _ _ => rfl
    rw [frameUpWith, hbind]
    split
    · exact absurd ‹_› hinsn
    · rfl

theorem callersAgree_of_record {savedFp retAddr : Addr}
    (h : FrameRecord mem readable regs savedFp retAddr) :
    CallersAgree mem readable regs ↔
      (AtPush mem readable regs → returnOnTop mem readable regs = some retAddr) := by
  have hrecord := recordWith_eq_some.mpr h
  obtain ⟨frame₀, frames, hframes, hhead⟩ :=
    backtraceWith_one mem readable regs
  rw [hrecord, Option.map_some, List.head?_eq_some_iff] at hhead
  obtain ⟨frames, rfl⟩ := hhead
  have hagree : CallersAgree mem readable regs ↔
      (frameUpWith (readIfReadable mem readable) regs).run.map Regs.pc = some retAddr := by
    simp [CallersAgree, hframes]
  rw [hagree]
  by_cases hpush : AtPush mem readable regs
  · rw [frameUpWith_atPush hpush, stackTopWith_pc]
    exact ⟨fun h _ => h, fun h => h hpush⟩
  · rw [frameUpWith_not_atPush hpush, frameWith, Id.run_bind, hrecord]
    refine ⟨fun _ h => absurd h hpush, fun _ => ?_⟩
    cases regs with
    | arm native => rfl
    | x86 native => rfl

theorem callersAgree_of_no_record
    (h : ¬∃ savedFp retAddr, FrameRecord mem readable regs savedFp retAddr) :
    CallersAgree mem readable regs ↔ returnOnTop mem readable regs = none := by
  have hrecord : (recordWith (readIfReadable mem readable) regs.fp).run = none :=
    Option.eq_none_iff_forall_ne_some.mpr fun record hrecord =>
      h ⟨_, _, recordWith_eq_some.mp hrecord⟩
  obtain ⟨frame₀, frames, hframes, hhead⟩ :=
    backtraceWith_one mem readable regs
  rw [hrecord, Option.map_none, List.head?_eq_none_iff] at hhead
  subst hhead
  have hup : frameUpWith (readIfReadable mem readable) regs =
      stackTopWith (readIfReadable mem readable) regs regs.sp := by
    by_cases hpush : AtPush mem readable regs
    · exact frameUpWith_atPush hpush
    · rw [frameUpWith_not_atPush hpush, frameWith]
      show (match (recordWith (readIfReadable mem readable) regs.fp).run with
        | none => _
        | some (savedFp, retAddr) => _) = _
      rw [hrecord]
  rw [← stackTopWith_pc, Option.map_eq_none_iff, ← hup]
  simp [CallersAgree, hframes]

/-- `up` and `tb` agree on the caller unless one of them makes do without the frame record the
other follows: at the first instruction of a function, `up` takes the return address on top of
the stack where `tb` takes the record, and behind the last record, it takes the one on top of the
stack or in the link register where `tb` ends. -/
theorem callers_agree_iff (mem : Mem) (readable : Addr → Bool) (regs : Regs) :
    CallersAgree mem readable regs ↔
      (∀ savedFp retAddr, FrameRecord mem readable regs savedFp retAddr →
        AtPush mem readable regs → returnOnTop mem readable regs = some retAddr) ∧
      ((¬∃ savedFp retAddr, FrameRecord mem readable regs savedFp retAddr) →
        returnOnTop mem readable regs = none) := by
  by_cases h : ∃ savedFp retAddr, FrameRecord mem readable regs savedFp retAddr
  · obtain ⟨savedFp, retAddr, hrecord⟩ := h
    rw [callersAgree_of_record hrecord]
    refine ⟨fun hpush => ⟨fun fp ret h' => ?_, fun hnone => absurd ⟨_, _, hrecord⟩ hnone⟩,
      fun h => h.1 _ _ hrecord⟩
    obtain ⟨-, rfl⟩ := h'.unique hrecord
    exact hpush
  · rw [callersAgree_of_no_record h]
    exact ⟨fun hnone => ⟨fun fp ret h' => absurd ⟨_, _, h'⟩ h, fun _ => hnone⟩, fun h' => h'.2 h⟩

end Callers

/-- The pc is at `push rbp`, with the return address to the caller on top of the stack, and the
frame pointer is still that of the caller. -/
def entryMem : Mem :=
  Mem.stores (fun _ => 0) [(0x400000, 0x55), (0x6f00, 0x10), (0x6f01, 0x01), (0x6f02, 0x40),
    (0x7001, 0x80), (0x7008, 0x20), (0x7009, 0x02), (0x700a, 0x40)]

/-- The registers there. -/
def entryRegs : Regs :=
  .x86 (Function.update (Function.update (Function.update (fun _ => 0)
    .rip 0x400000) .rbp 0x7000) .rsp 0x6f00)

/-- At the first instruction of a function, `up` arrives at the caller and `tb` goes on with the
caller's caller. -/
theorem callers_disagree_at_entry : ¬CallersAgree entryMem (fun _ => true) entryRegs := by
  have hrecord : FrameRecord entryMem (fun _ => true) entryRegs 0x8000 0x400220 := by
    unfold FrameRecord
    decide
  have htop : returnOnTop entryMem (fun _ => true) entryRegs = some 0x400110 := by decide
  rw [callersAgree_of_record hrecord, htop]
  exact fun h => absurd (h ⟨rfl, by decide⟩) (by decide)

end Debugger
