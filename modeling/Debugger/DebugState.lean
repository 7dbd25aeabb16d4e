/-
The debug registers as `watchpoint.c` programs them: DR0-DR3 and DR7 on x86_64,
DBGWVR and DBGWCR on aarch64.

Everywhere else in this development a thread's debug registers are a map from slots to
watched ranges.  Here they are the words of `x86_debug_state64_t` and
`arm_debug_state64_t`; `decode` reads them as the hardware does, and both back ends are
shown to refine the slot map over every sequence of calls (`backends_refine_slotMap`).
-/
import Debugger.Kernel
import Debugger.Lib.BitField

open Prog

namespace Debugger

/-! ### The slot map -/

/-- A call of `watchpoint.h`; `slot` is an `int`, `size` a `size_t`. -/
inductive WpCall
  | install (slot : Int) (addr : Addr) (size : UInt64) (mode : WpMode)
  | uninstall (slot : Int)
deriving DecidableEq, Repr

/-- What is watched: the kind of access, and for each byte whether it is one of them. -/
abbrev WatchedBytes : Type := WpMode × (Addr → Bool)

/-- The bytes of `[addr, addr + size)`. -/
def HwSlot.watched (w : HwSlot) : WatchedBytes :=
  (w.mode, fun b => decide (w.addr.toNat ≤ b.toNat ∧ b.toNat < w.addr.toNat + w.size))

/-- The slot numbers the hardware does not have. -/
def slotOutOfRange (slot : Int) : Bool := slot < 0 || slot ≥ (wpMaxHw : ℕ)

theorem slotOutOfRange_iff {slot : Int} :
    slotOutOfRange slot = true ↔ slot < 0 ∨ slot ≥ (wpMaxHw : ℕ) := by
  simp [slotOutOfRange]

/-- The sizes a debug register can watch. -/
def sizeWatchable (size : UInt64) : Bool := size = 1 || size = 2 || size = 4 || size = 8

theorem sizeWatchable_iff {size : UInt64} :
    sizeWatchable size = true ↔ size = 1 ∨ size = 2 ∨ size = 4 ∨ size = 8 := by
  simp [sizeWatchable, or_assoc]

/-- The range does not fit a debug register: on x86_64 it is not aligned to its size, on
aarch64 it crosses an 8-byte boundary. -/
def rangeRefused (arch : Arch) (addr : Addr) (size : UInt64) : Bool :=
  match arch with
  | .x86_64 => ¬ size.toNat ∣ addr.toNat
  | .aarch64 => addr.toNat / 8 ≠ (addr.toNat + size.toNat - 1) / 8

/-- The calls that are refused. -/
def WpCall.refused (arch : Arch) : WpCall → Bool
  | .install slot addr size _ =>
    slotOutOfRange slot || !sizeWatchable size || rangeRefused arch addr size
  | .uninstall slot => slotOutOfRange slot

/-- For each slot what it watches. -/
abbrev SlotMap : Type := Fin wpMaxHw → Option HwSlot

def SlotMap.set (m : SlotMap) (slot : Int) (w : Option HwSlot) : SlotMap :=
  fun i => if (i : ℕ) = slot then w else m i

/-- One call on the slot map. -/
def SlotMap.call (arch : Arch) (m : SlotMap) (c : WpCall) : SlotMap :=
  if c.refused arch then m
  else
    match c with
    | .install slot addr size mode =>
      m.set slot (some { addr := addr, size := size.toNat, mode := mode })
    | .uninstall slot => m.set slot none

section SlotMap

variable {arch : Arch} {m : SlotMap} {c : WpCall} {slot : Int} {addr : Addr} {size : UInt64}
  {mode : WpMode}

theorem SlotMap.call_refused (h : c.refused arch = true) : m.call arch c = m :=
  if_pos h

theorem SlotMap.call_install (h : (WpCall.install slot addr size mode).refused arch = false) :
    m.call arch (.install slot addr size mode) =
      m.set slot (some { addr := addr, size := size.toNat, mode := mode }) :=
  if_neg (by rw [h]; exact Bool.false_ne_true)

theorem SlotMap.call_uninstall (h : (WpCall.uninstall slot).refused arch = false) :
    m.call arch (.uninstall slot) = m.set slot none :=
  if_neg (by rw [h]; exact Bool.false_ne_true)

end SlotMap

/-- The slot map after the calls: each slot has its last accepted install, unless it was
uninstalled since or never installed. -/
def slotMap (arch : Arch) (calls : List WpCall) : SlotMap :=
  calls.foldl (SlotMap.call arch) fun _ => none

/-! ### Back ends -/

/-- `for_each_thread`, where the kernel gives the state of every thread and takes it
back. -/
def eachThreadState {σ : Type} (fn : σ → σ) (threads : List σ) : Int × List σ :=
  (if threads.length > 0 then 0 else -1, threads.map fn)

/-- One of the two implementations of `watchpoint.h`, on the debug states of the threads of
a task. -/
structure Backend (σ : Type) where
  arch : Arch
  zeroed : σ
  install : List σ → Int → Addr → UInt64 → WpMode → Int × List σ
  uninstall : List σ → Int → Int × List σ
  decode : σ → Fin wpMaxHw → Option WatchedBytes

section Backend

variable {σ : Type} (b : Backend σ)

def Backend.call (threads : List σ) : WpCall → Int × List σ
  | .install slot addr size mode => b.install threads slot addr size mode
  | .uninstall slot => b.uninstall threads slot

/-- The debug states after the calls. -/
def Backend.run (calls : List WpCall) (threads : List σ) : List σ :=
  calls.foldl (fun ts c => (b.call ts c).2) threads

/-- A back end refines the slot map.  On threads whose debug state starts zeroed, the
registers of every thread decode to the slot map after any calls; a call returns -1 exactly
when it is to be refused, and a refused call changes nothing. -/
structure Backend.Refines : Prop where
  decodes : ∀ (calls : List WpCall) (threads : List σ), (∀ t ∈ threads, t = b.zeroed) →
    ∀ t ∈ b.run calls threads, ∀ i,
      b.decode t i = (slotMap b.arch calls i).map HwSlot.watched
  returns : ∀ (c : WpCall) (threads : List σ), threads ≠ [] →
    (b.call threads c).1 = if c.refused b.arch then -1 else 0
  refused : ∀ (c : WpCall) (threads : List σ), c.refused b.arch = true →
    (b.call threads c).2 = threads

/-- A relation between debug states and slot maps is kept by the back end: a call that is
to be refused does nothing, any other changes every thread alike and keeps the relation. -/
def Backend.Simulates (R : σ → SlotMap → Prop) : Prop :=
  ∀ c : WpCall,
    (c.refused b.arch = true ∧ ∀ threads, b.call threads c = (-1, threads)) ∨
    (c.refused b.arch = false ∧ ∃ fn : σ → σ,
      (∀ threads, b.call threads c = eachThreadState fn threads) ∧
        ∀ t m, R t m → R (fn t) (m.call b.arch c))

variable {b} {R : σ → SlotMap → Prop}

theorem Backend.Simulates.call (h : b.Simulates R) (c : WpCall) {threads : List σ} {m : SlotMap}
    (hR : ∀ t ∈ threads, R t m) : ∀ t ∈ (b.call threads c).2, R t (m.call b.arch c) := by
  intro t ht
  rcases h c with ⟨hc, hcall⟩ | ⟨-, fn, hcall, hstep⟩
  · rw [hcall] at ht
    rw [SlotMap.call_refused hc]
    exact hR t ht
  · rw [hcall] at ht
    obtain ⟨u, hu, rfl⟩ := List.mem_map.mp ht
    exact hstep u m (hR u hu)

theorem Backend.Simulates.run (h : b.Simulates R) (calls : List WpCall) :
    ∀ {threads : List σ} {m : SlotMap}, (∀ t ∈ threads, R t m) →
      ∀ t ∈ b.run calls threads, R t (calls.foldl (SlotMap.call b.arch) m) := by
  induction calls with
  | nil => exact fun hR => hR
  | cons c calls ih => exact fun hR => ih (h.call c hR)

/-- A relation that holds initially, is kept by every call and on which decoding gives the
slot map. -/
theorem Backend.Simulates.refines (h : b.Simulates R) (hzero : R b.zeroed fun _ => none)
    (hdecode : ∀ t m, R t m → ∀ i, b.decode t i = (m i).map HwSlot.watched) : b.Refines where
  decodes := fun calls _ hz t ht =>
    hdecode t _ (h.run calls (fun u hu => hz u hu ▸ hzero) t ht)
  returns := by
    intro c threads hne
    rcases h c with ⟨hc, hcall⟩ | ⟨hc, fn, hcall, -⟩
    · rw [hcall, if_pos hc]
    · rw [hcall, eachThreadState, if_pos (List.length_pos_of_ne_nil hne), hc,
        if_neg Bool.false_ne_true]
  refused := by
    intro c threads hc
    rcases h c with ⟨-, hcall⟩ | ⟨hc', -⟩
    · rw [hcall]
    · exact Bool.noConfusion (hc.symm.trans hc')

end Backend

/-- An uninstall refuses a slot out of range, and goes to every thread else. -/
theorem uninstall_split {σ : Type} {arch : Arch} {uninstall : List σ → Int → Int × List σ}
    {clear : Fin wpMaxHw → σ → σ} (h : ∀ threads slot, uninstall threads slot =
      if h : slot < 0 ∨ slot ≥ (wpMaxHw : ℕ) then (-1, threads)
      else eachThreadState (clear ⟨slot.toNat, by omega⟩) threads) (slot : Int) :
    ((WpCall.uninstall slot).refused arch = true ∧
      ∀ threads, uninstall threads slot = (-1, threads)) ∨
    ((WpCall.uninstall slot).refused arch = false ∧
      ∃ j : Fin wpMaxHw, (j : ℕ) = slot ∧ ∀ threads, uninstall threads slot =
        eachThreadState (clear j) threads) := by
  by_cases hslot : slot < 0 ∨ slot ≥ (wpMaxHw : ℕ)
  · exact .inl ⟨slotOutOfRange_iff.mpr hslot, fun threads => (h threads slot).trans (dif_pos hslot)⟩
  · exact .inr ⟨Bool.eq_false_iff.mpr fun h => hslot (slotOutOfRange_iff.mp h),
      ⟨slot.toNat, by omega⟩, by dsimp only; omega,
      fun threads => (h threads slot).trans (dif_neg hslot)⟩

/-! ### x86_64 -/

namespace X86

/-- The part of `x86_debug_state64_t` that is programmed. -/
structure DebugState where
  dr : Fin wpMaxHw → UInt64
  dr7 : UInt64

def zeroed : DebugState := { dr := fun _ => 0, dr7 := 0 }

/-- `struct x86_wp_ctx` -/
structure WpCtx where
  slot : Fin wpMaxHw
  addr : Addr
  lenBits : UInt64
  mode : WpMode

/-- The R/W field: 1 is writes only, 3 is reads or writes. -/
def rwBits (mode : WpMode) : UInt64 := if mode = .access then 3 else 1

/-- `install_x86_thread` -/
def installX86Thread (ctx : WpCtx) (state : DebugState) : DebugState :=
  let localEnableBit := UInt64.ofNat (ctx.slot * 2)
  let rwShift := UInt64.ofNat (16 + ctx.slot * 4)
  let lenShift := UInt64.ofNat (18 + ctx.slot * 4)
  let dr7 := state.dr7 &&& ~~~(3 <<< rwShift)
  let dr7 := dr7 &&& ~~~(3 <<< lenShift)
  let dr7 := dr7 ||| rwBits ctx.mode <<< rwShift
  let dr7 := dr7 ||| ctx.lenBits <<< lenShift
  let dr7 := dr7 ||| 1 <<< localEnableBit
  { dr := Function.update state.dr ctx.slot ctx.addr, dr7 := dr7 }

/-- `uninstall_x86_thread` -/
def uninstallX86Thread (slot : Fin wpMaxHw) (state : DebugState) : DebugState :=
  { dr := Function.update state.dr slot 0
    dr7 := state.dr7 &&& ~~~(1 <<< UInt64.ofNat (slot * 2)) }

/-- The LEN field of a size. -/
def lenBitsOf (size : UInt64) : Option UInt64 :=
  if size = 1 then some 0
  else if size = 2 then some 1
  else if size = 8 then some 2
  else if size = 4 then some 3
  else none

/-- `cdbg_wp_hw_install` -/
def cdbgWpHwInstall (threads : List DebugState) (slot : Int) (addr : Addr) (size : UInt64)
    (mode : WpMode) : Int × List DebugState :=
  if h : slot < 0 ∨ slot ≥ (wpMaxHw : ℕ) then (-1, threads)
  else
    match lenBitsOf size with
    | none => (-1, threads)
    | some lenBits =>
      -- the debug registers require natural alignment
      if addr &&& (size - 1) ≠ 0 then (-1, threads)
      else
        eachThreadState (installX86Thread
          { slot := ⟨slot.toNat, by omega⟩, addr := addr, lenBits := lenBits, mode := mode })
          threads

/-- `cdbg_wp_hw_uninstall` -/
def cdbgWpHwUninstall (threads : List DebugState) (slot : Int) : Int × List DebugState :=
  if h : slot < 0 ∨ slot ≥ (wpMaxHw : ℕ) then (-1, threads)
  else eachThreadState (uninstallX86Thread ⟨slot.toNat, by omega⟩) threads

/-- The access an R/W field stands for; 0 is execution and 2 is I/O. -/
def rwMode (rw : ℕ) : Option WpMode :=
  if rw = 1 then some .write else if rw = 3 then some .access else none

/-- The number of bytes a LEN field stands for. -/
def lenBytes (len : ℕ) : ℕ :=
  if len = 0 then 1 else if len = 1 then 2 else if len = 2 then 8 else 4

/-- What the processor traps on: a slot is armed when its local or its global enable bit
is set, and the low address bits its length covers are ignored. -/
def decode (state : DebugState) (i : Fin wpMaxHw) : Option WatchedBytes :=
  if field state.dr7 (i * 2) 1 = 0 ∧ field state.dr7 (i * 2 + 1) 1 = 0 then none
  else
    let len := lenBytes (field state.dr7 (18 + i * 4) 2)
    let base := (state.dr i).toNat / len * len
    (rwMode (field state.dr7 (16 + i * 4) 2)).map fun mode =>
      (mode, fun b => decide (base ≤ b.toNat ∧ b.toNat < base + len))

def backend : Backend DebugState where
  arch := .x86_64
  zeroed := zeroed
  install := cdbgWpHwInstall
  uninstall := cdbgWpHwUninstall
  decode := decode

/-! What one call does to the registers of a slot. -/

/-- The registers of one slot: its local enable bit, its two fields of DR7 and its
address. -/
structure SlotFields where
  enable : ℕ
  rw : ℕ
  len : ℕ
  addr : UInt64
deriving DecidableEq, Repr

def DebugState.slot (state : DebugState) (i : Fin wpMaxHw) : SlotFields where
  enable := field state.dr7 (i * 2) 1
  rw := field state.dr7 (16 + i * 4) 2
  len := field state.dr7 (18 + i * 4) 2
  addr := state.dr i

section Fields

variable {ctx : WpCtx} {state : DebugState} {slot i : Fin wpMaxHw} {k l : ℕ}

theorem rwBits_lt (mode : WpMode) : (rwBits mode).toNat < 2 ^ 2 := by
  cases mode <;> decide

/-- A field of DR7 that is none of the three of the slot keeps its value. -/
theorem field_install_of_disjoint (hlen : ctx.lenBits.toNat < 2 ^ 2)
    (he : ctx.slot * 2 + 1 ≤ k ∨ k + l ≤ ctx.slot * 2)
    (hf : 20 + ctx.slot * 4 ≤ k ∨ k + l ≤ 16 + ctx.slot * 4) :
    field (installX86Thread ctx state).dr7 k l = field state.dr7 k l := by
  have hs : (ctx.slot : ℕ) < 4 := ctx.slot.isLt
  rw [installX86Thread, field_or_of_disjoint (w := 1) (by omega) (by decide) he,
    field_or_of_disjoint (by omega) hlen (by omega),
    field_or_of_disjoint (by omega) (rwBits_lt ctx.mode) (by omega),
    field_clear_of_disjoint (w := 2) (by omega) (by decide) (by omega),
    field_clear_of_disjoint (w := 2) (by omega) (by decide) (by omega)]

theorem install_slot_of_ne (hlen : ctx.lenBits.toNat < 2 ^ 2) (hi : i ≠ ctx.slot) :
    (installX86Thread ctx state).slot i = state.slot i := by
  have hs : (ctx.slot : ℕ) < 4 := ctx.slot.isLt
  have hi' : (i : ℕ) < 4 := i.isLt
  have hne : (i : ℕ) ≠ ctx.slot := fun h => hi (Fin.ext h)
  have hdr : (installX86Thread ctx state).dr i = state.dr i := Function.update_of_ne hi _ _
  rw [DebugState.slot, hdr, field_install_of_disjoint hlen (by omega) (by omega),
    field_install_of_disjoint hlen (by omega) (by omega),
    field_install_of_disjoint hlen (by omega) (by omega), DebugState.slot]

theorem install_slot_self (hlen : ctx.lenBits.toNat < 2 ^ 2) :
    (installX86Thread ctx state).slot ctx.slot =
      { enable := 1, rw := (rwBits ctx.mode).toNat, len := ctx.lenBits.toNat,
        addr := ctx.addr } := by
  have hs : (ctx.slot : ℕ) < 4 := ctx.slot.isLt
  have hdr : (installX86Thread ctx state).dr ctx.slot = ctx.addr := Function.update_self ..
  have henable : field (installX86Thread ctx state).dr7 (ctx.slot * 2) 1 = 1 := by
    rw [installX86Thread, field_or (by omega) (by omega) (by decide)]
    have hbit : ∀ n < 2, n ||| 1 = 1 := by decide
    exact hbit _ field_lt
  -- the field is cleared, then set; what is set before and after lies beside it
  have hrw : field (installX86Thread ctx state).dr7 (16 + ctx.slot * 4) 2 =
      (rwBits ctx.mode).toNat := by
    rw [installX86Thread, field_or_of_disjoint (w := 1) (by omega) (by decide) (by omega),
      field_or_of_disjoint (by omega) hlen (by omega),
      field_or (by omega) (by omega) (rwBits_lt ctx.mode),
      field_clear_of_disjoint (w := 2) (by omega) (by decide) (by omega),
      field_clear (by omega) (by omega) (by decide), Nat.zero_or]
  have hlen' : field (installX86Thread ctx state).dr7 (18 + ctx.slot * 4) 2 =
      ctx.lenBits.toNat := by
    rw [installX86Thread, field_or_of_disjoint (w := 1) (by omega) (by decide) (by omega),
      field_or (by omega) (by omega) hlen,
      field_or_of_disjoint (by omega) (rwBits_lt ctx.mode) (by omega),
      field_clear (by omega) (by omega) (by decide), Nat.zero_or]
  rw [DebugState.slot, hdr, henable, hrw, hlen']

theorem uninstall_slot_of_ne (hi : i ≠ slot) :
    (uninstallX86Thread slot state).slot i = state.slot i := by
  have hs : (slot : ℕ) < 4 := slot.isLt
  have hi' : (i : ℕ) < 4 := i.isLt
  have hne : (i : ℕ) ≠ slot := fun h => hi (Fin.ext h)
  have hfield : ∀ {k l : ℕ}, (slot : ℕ) * 2 + 1 ≤ k ∨ k + l ≤ slot * 2 →
      field (uninstallX86Thread slot state).dr7 k l = field state.dr7 k l := fun h =>
    field_clear_of_disjoint (w := 1) (by omega) (by decide) h
  have hdr : (uninstallX86Thread slot state).dr i = state.dr i := Function.update_of_ne hi _ _
  rw [DebugState.slot, hdr, hfield (by omega), hfield (by omega), hfield (by omega),
    DebugState.slot]

theorem uninstall_enable : ((uninstallX86Thread slot state).slot slot).enable = 0 := by
  have hs : (slot : ℕ) < 4 := slot.isLt
  exact field_clear (by omega) (by omega) (by decide)

end Fields

/-! ### x86_64 refines the slot map -/

/-- The registers of a slot are programmed for what it is to watch. -/
def SlotFields.Holds (f : SlotFields) : Option HwSlot → Prop
  | none => f.enable = 0
  | some w => f.enable = 1 ∧ f.rw = (rwBits w.mode).toNat ∧ lenBytes f.len = w.size ∧
      f.addr = w.addr ∧ w.size ∣ w.addr.toNat

/-- The debug state programs the slot map, and no global enable bit is set. -/
structure Programs (state : DebugState) (m : SlotMap) : Prop where
  slots : ∀ i, (state.slot i).Holds (m i)
  noGlobal : ∀ i : Fin wpMaxHw, field state.dr7 (i * 2 + 1) 1 = 0

theorem Programs.decode {state : DebugState} {m : SlotMap} (h : Programs state m)
    (i : Fin wpMaxHw) : decode state i = (m i).map HwSlot.watched := by
  have hslot := h.slots i
  cases hm : m i with
  | none =>
    rw [hm] at hslot
    exact if_pos ⟨hslot, h.noGlobal i⟩
  | some w =>
    rw [hm] at hslot
    obtain ⟨he, hrw, hlen, haddr, hdvd⟩ := hslot
    have hnot : ¬ (field state.dr7 (i * 2) 1 = 0 ∧ field state.dr7 (i * 2 + 1) 1 = 0) :=
      fun h0 => Nat.one_ne_zero (he.symm.trans h0.1)
    have hmode : rwMode (rwBits w.mode).toNat = some w.mode := by cases w.mode <;> rfl
    change field state.dr7 (16 + i * 4) 2 = _ at hrw
    change lenBytes (field state.dr7 (18 + i * 4) 2) = _ at hlen
    change state.dr i = _ at haddr
    rw [X86.decode, if_neg hnot, hrw, hlen, haddr, hmode]
    dsimp only
    rw [Nat.div_mul_cancel hdvd]
    rfl

theorem lenBitsOf_eq_none {size : UInt64} : lenBitsOf size = none ↔ sizeWatchable size = false := by
  rw [lenBitsOf, sizeWatchable]
  split_ifs <;> simp [*]

/-- The LEN field of a size is two bits wide and stands for it; the size is a power of two,
so masking with one less finds what is not aligned to it. -/
theorem lenBitsOf_eq_some {size bits : UInt64} (h : lenBitsOf size = some bits) :
    bits.toNat < 2 ^ 2 ∧ lenBytes bits.toNat = size.toNat ∧
      ∀ addr : Addr, addr &&& (size - 1) = 0 ↔ size.toNat ∣ addr.toNat := by
  rw [lenBitsOf] at h
  split_ifs at h with h1 h2 h8 h4
  · obtain rfl := Option.some.inj h
    rw [h1]
    exact ⟨by decide, by decide, fun addr => and_eq_zero_iff_dvd (w := 0) (by decide)⟩
  · obtain rfl := Option.some.inj h
    rw [h2]
    exact ⟨by decide, by decide, fun addr => and_eq_zero_iff_dvd (w := 1) (by decide)⟩
  · obtain rfl := Option.some.inj h
    rw [h8]
    exact ⟨by decide, by decide, fun addr => and_eq_zero_iff_dvd (w := 3) (by decide)⟩
  · obtain rfl := Option.some.inj h
    rw [h4]
    exact ⟨by decide, by decide, fun addr => and_eq_zero_iff_dvd (w := 2) (by decide)⟩

theorem Programs.set_self {state state' : DebugState} {m : SlotMap} {slot : Int}
    {j : Fin wpMaxHw} {w : Option HwSlot} (h : Programs state m) (hj : (j : ℕ) = slot)
    (hself : (state'.slot j).Holds w) (hother : ∀ i, i ≠ j → state'.slot i = state.slot i)
    (hglobal : ∀ i : Fin wpMaxHw, field state'.dr7 (i * 2 + 1) 1 = field state.dr7 (i * 2 + 1) 1) :
    Programs state' (m.set slot w) where
  slots := by
    intro i
    by_cases hi : i = j
    · rw [SlotMap.set, if_pos (by rw [hi, hj]), hi]
      exact hself
    · have hne : ¬ ((i : ℕ) : Int) = slot := fun h => hi (Fin.ext (by omega))
      rw [SlotMap.set, if_neg hne, hother i hi]
      exact h.slots i
  noGlobal := fun i => (hglobal i).trans (h.noGlobal i)

theorem Programs.install {ctx : WpCtx} {state : DebugState} {m : SlotMap} {slot : Int}
    {w : HwSlot} (h : Programs state m) (hs : (ctx.slot : ℕ) = slot)
    (hlen : ctx.lenBits.toNat < 2 ^ 2) (hmode : ctx.mode = w.mode) (haddr : ctx.addr = w.addr)
    (hsize : lenBytes ctx.lenBits.toNat = w.size) (hdvd : w.size ∣ w.addr.toNat) :
    Programs (installX86Thread ctx state) (m.set slot (some w)) := by
  refine h.set_self hs ?_ (fun i hi => install_slot_of_ne hlen hi) fun i => ?_
  · rw [install_slot_self hlen]
    exact ⟨rfl, by rw [hmode], hsize, haddr, hdvd⟩
  · have hs : (ctx.slot : ℕ) < 4 := ctx.slot.isLt
    have hi : (i : ℕ) < 4 := i.isLt
    exact field_install_of_disjoint hlen (by omega) (by omega)

theorem Programs.uninstall {j : Fin wpMaxHw} {state : DebugState} {m : SlotMap} {slot : Int}
    (h : Programs state m) (hs : (j : ℕ) = slot) :
    Programs (uninstallX86Thread j state) (m.set slot none) := by
  refine h.set_self hs uninstall_enable (fun i hi => uninstall_slot_of_ne hi) fun i => ?_
  have hs : (j : ℕ) < 4 := j.isLt
  exact field_clear_of_disjoint (w := 1) (by omega) (by decide) (by omega)

/-- Either an install is to be refused and is, or every thread's registers are programmed. -/
theorem install_cases (slot : Int) (addr : Addr) (size : UInt64) (mode : WpMode) :
    ((WpCall.install slot addr size mode).refused .x86_64 = true ∧
      ∀ threads, cdbgWpHwInstall threads slot addr size mode = (-1, threads)) ∨
    ((WpCall.install slot addr size mode).refused .x86_64 = false ∧
      ∃ ctx : WpCtx, (ctx.slot : ℕ) = slot ∧ ctx.addr = addr ∧ ctx.mode = mode ∧
        ctx.lenBits.toNat < 2 ^ 2 ∧ lenBytes ctx.lenBits.toNat = size.toNat ∧
        size.toNat ∣ addr.toNat ∧ ∀ threads, cdbgWpHwInstall threads slot addr size mode =
          eachThreadState (installX86Thread ctx) threads) := by
  by_cases hslot : slot < 0 ∨ slot ≥ (wpMaxHw : ℕ)
  · refine .inl ⟨?_, fun threads => dif_pos hslot⟩
    rw [WpCall.refused, slotOutOfRange_iff.mpr hslot]
    rfl
  have hin : slotOutOfRange slot = false :=
    Bool.eq_false_iff.mpr fun h => hslot (slotOutOfRange_iff.mp h)
  cases hb : lenBitsOf size with
  | none =>
    refine .inl ⟨?_, fun threads => ?_⟩
    · simp [WpCall.refused, lenBitsOf_eq_none.mp hb]
    · rw [cdbgWpHwInstall, dif_neg hslot, hb]
  | some bits =>
    obtain ⟨hlt, hbytes, halign⟩ := lenBitsOf_eq_some hb
    have hsize : sizeWatchable size = true := by
      refine Bool.eq_true_of_not_eq_false fun h => ?_
      rw [lenBitsOf_eq_none.mpr h] at hb
      cases hb
    by_cases hz : addr &&& (size - 1) = 0
    · refine .inr ⟨?_, { slot := ⟨slot.toNat, by omega⟩, addr, lenBits := bits, mode },
        by dsimp only; omega, rfl, rfl, hlt, hbytes, (halign addr).mp hz, fun threads => ?_⟩
      · simp [WpCall.refused, hin, hsize, rangeRefused, (halign addr).mp hz]
      · rw [cdbgWpHwInstall, dif_neg hslot, hb]
        exact if_neg (not_not.mpr hz)
    · refine .inl ⟨?_, fun threads => ?_⟩
      · simp [WpCall.refused, rangeRefused, mt (halign addr).mpr hz]
      · rw [cdbgWpHwInstall, dif_neg hslot, hb]
        exact if_pos hz

theorem simulates : backend.Simulates Programs := by
  intro c
  cases c with
  | install slot addr size mode =>
    rcases install_cases slot addr size mode with
      h | ⟨hc, ctx, hs, haddr, hmode, hlen, hsize, hdvd, h⟩
    · exact .inl h
    · refine .inr ⟨hc, _, h, fun t m hR => ?_⟩
      have hm : m.call backend.arch (.install slot addr size mode) = _ := SlotMap.call_install hc
      rw [hm]
      exact hR.install hs hlen hmode haddr hsize hdvd
  | uninstall slot =>
    rcases uninstall_split (fun _ _ => rfl) slot with h | ⟨hc, j, hs, h⟩
    · exact .inl h
    · refine .inr ⟨hc, _, h, fun t m hR => ?_⟩
      have hm : m.call backend.arch (.uninstall slot) = _ := SlotMap.call_uninstall hc
      rw [hm]
      exact hR.uninstall hs

theorem programs_zeroed : Programs zeroed fun _ => none where
  slots := fun _ => field_zero
  noGlobal := fun _ => field_zero

theorem refines : backend.Refines :=
  simulates.refines programs_zeroed fun _ _ h => h.decode

end X86

/-! ### aarch64 -/

namespace Arm

/-- The part of `arm_debug_state64_t` that is programmed. -/
structure DebugState where
  wvr : Fin 16 → UInt64
  wcr : Fin 16 → UInt64

def zeroed : DebugState := { wvr := fun _ => 0, wcr := fun _ => 0 }

/-- `WCR_E`: the watchpoint is enabled. -/
def wcrE : UInt64 := (1 : UInt64) <<< 0

/-- `WCR_PAC_EL0EL1`: trap at EL0 and EL1. -/
def wcrPacEl0El1 : UInt64 := (3 : UInt64) <<< 1

/-- `WCR_LSC_STORE`: trap on stores. -/
def wcrLscStore : UInt64 := (2 : UInt64) <<< 3

/-- `WCR_LSC_ANY`: trap on loads or stores. -/
def wcrLscAny : UInt64 := (3 : UInt64) <<< 3

/-- `WCR_BAS_SHIFT`: the byte address select. -/
def wcrBasShift : UInt64 := 5

/-- The registers of a slot. -/
def slotReg (i : Fin wpMaxHw) : Fin 16 := i.castLE (by decide)

/-- `struct arm_wp_ctx` -/
structure WpCtx where
  slot : Fin wpMaxHw
  wvr : UInt64
  wcr : UInt64

/-- `install_arm_thread` -/
def installArmThread (ctx : WpCtx) (state : DebugState) : DebugState where
  wvr := Function.update state.wvr (slotReg ctx.slot) ctx.wvr
  wcr := Function.update state.wcr (slotReg ctx.slot) ctx.wcr

/-- `uninstall_arm_thread` -/
def uninstallArmThread (slot : Fin wpMaxHw) (state : DebugState) : DebugState where
  wvr := Function.update state.wvr (slotReg slot) 0
  wcr := Function.update state.wcr (slotReg slot) 0

/-- The byte address select of `size` bytes from `offset` on, computed as an `unsigned`. -/
def basOf (size : UInt64) (offset : UInt32) : UInt64 :=
  (((1 : UInt32) <<< size.toUInt32 - 1) <<< offset).toUInt64

/-- The control word of an install. -/
def wcrOf (mode : WpMode) (bas : UInt64) : UInt64 :=
  wcrE ||| wcrPacEl0El1 ||| (if mode = .access then wcrLscAny else wcrLscStore) |||
    bas <<< wcrBasShift

/-- `cdbg_wp_hw_install` -/
def cdbgWpHwInstall (threads : List DebugState) (slot : Int) (addr : Addr) (size : UInt64)
    (mode : WpMode) : Int × List DebugState :=
  if h : slot < 0 ∨ slot ≥ (wpMaxHw : ℕ) then (-1, threads)
  else if size ≠ 1 ∧ size ≠ 2 ∧ size ≠ 4 ∧ size ≠ 8 then (-1, threads)
  else
    let offset := (addr &&& 7).toUInt32
    -- what crosses an 8-byte window has no byte address select
    if offset.toUInt64 + size > 8 then (-1, threads)
    else
      eachThreadState (installArmThread
        { slot := ⟨slot.toNat, by omega⟩, wvr := addr &&& ~~~7,
          wcr := wcrOf mode (basOf size offset) }) threads

/-- `cdbg_wp_hw_uninstall` -/
def cdbgWpHwUninstall (threads : List DebugState) (slot : Int) : Int × List DebugState :=
  if h : slot < 0 ∨ slot ≥ (wpMaxHw : ℕ) then (-1, threads)
  else eachThreadState (uninstallArmThread ⟨slot.toNat, by omega⟩) threads

/-- The access an LSC field stands for; 1 is loads only. -/
def lscMode (lsc : ℕ) : Option WpMode :=
  if lsc = 2 then some .write else if lsc = 3 then some .access else none

/-- What the processor traps on at EL0: an enabled watchpoint whose PAC field includes EL0
watches the bytes of its 8-byte window that the byte address select names. -/
def decode (state : DebugState) (i : Fin wpMaxHw) : Option WatchedBytes :=
  let wcr := state.wcr (slotReg i)
  if field wcr 0 1 = 1 ∧ field wcr 2 1 = 1 then
    (lscMode (field wcr 3 2)).map fun mode =>
      (mode, fun b => decide (b.toNat / 8 = (state.wvr (slotReg i)).toNat / 8) &&
        (field wcr 5 8).testBit (b.toNat % 8))
  else none

def backend : Backend DebugState where
  arch := .aarch64
  zeroed := zeroed
  install := cdbgWpHwInstall
  uninstall := cdbgWpHwUninstall
  decode := decode

/-! ### aarch64 refines the slot map -/

section Fields

variable {mode : WpMode} {bas : UInt64} {addr : Addr} {size : UInt64} {offset : UInt32}

/-- The byte address select has a bit for each byte of the range. -/
theorem basOf_toNat (hs : sizeWatchable size = true) (h : offset.toNat + size.toNat ≤ 8) :
    (basOf size offset).toNat = (2 ^ size.toNat - 1) <<< offset.toNat := by
  have hall : ∀ n < 8, n + size.toNat ≤ 8 →
      (basOf size (UInt32.ofNat n)).toNat = (2 ^ size.toNat - 1) <<< n := by
    rcases sizeWatchable_iff.mp hs with rfl | rfl | rfl | rfl <;> decide
  have hpos : 0 < size.toNat := by
    rcases sizeWatchable_iff.mp hs with rfl | rfl | rfl | rfl <;> decide
  have hoff := hall offset.toNat (by omega) h
  rwa [UInt32.ofNat_toNat] at hoff

theorem wcrOf_bas (hbas : bas.toNat < 2 ^ 8) : field (wcrOf mode bas) 5 8 = bas.toNat := by
  have hconst : field (wcrE ||| wcrPacEl0El1 |||
      (if mode = .access then wcrLscAny else wcrLscStore)) 5 8 = 0 := by
    cases mode <;> rfl
  rw [wcrOf]
  exact (field_or (by decide) (by decide) hbas).trans (by rw [hconst, Nat.zero_or])

theorem wcrOf_low (hbas : bas.toNat < 2 ^ 8) :
    field (wcrOf mode bas) 0 1 = 1 ∧ field (wcrOf mode bas) 2 1 = 1 ∧
      lscMode (field (wcrOf mode bas) 3 2) = some mode := by
  have hlow : ∀ {k l : ℕ}, k + l ≤ 5 → field (wcrOf mode bas) k l =
      field (wcrE ||| wcrPacEl0El1 ||| (if mode = .access then wcrLscAny else wcrLscStore)) k l :=
    fun h => field_or_of_disjoint (by decide) hbas (.inr h)
  rw [hlow (by decide), hlow (by decide), hlow (by decide)]
  cases mode <;> exact ⟨rfl, rfl, rfl⟩

/-- Clearing the three low bits of an address gives the start of its 8-byte window. -/
theorem window_of_wvr : (addr &&& ~~~7).toNat / 8 = addr.toNat / 8 := by
  have h : ∀ v : UInt64, field v 3 61 = v.toNat / 8 := fun v =>
    Nat.mod_eq_of_lt (Nat.div_lt_of_lt_mul v.toNat_lt)
  rw [← h, ← h]
  exact @field_clear_of_disjoint addr 7 0 3 3 61 (by decide) (by decide) (by decide)

end Fields

/-- The registers of a slot are programmed for what it is to watch. -/
def SlotHolds (wvr wcr : UInt64) : Option HwSlot → Prop
  | none => wcr = 0
  | some w => ∃ bas : UInt64, wcr = wcrOf w.mode bas ∧
      bas.toNat = (2 ^ w.size - 1) <<< (w.addr.toNat % 8) ∧
      wvr.toNat / 8 = w.addr.toNat / 8 ∧ w.addr.toNat % 8 + w.size ≤ 8

/-- The debug state programs the slot map. -/
def Programs (state : DebugState) (m : SlotMap) : Prop :=
  ∀ i, SlotHolds (state.wvr (slotReg i)) (state.wcr (slotReg i)) (m i)

/-- A byte is in the range exactly when it lies in the range's window and its place in the
window is one of those selected. -/
theorem watched_eq (w : HwSlot) (h : w.addr.toNat % 8 + w.size ≤ 8) (b : Addr) :
    (decide (b.toNat / 8 = w.addr.toNat / 8) &&
      ((2 ^ w.size - 1) <<< (w.addr.toNat % 8)).testBit (b.toNat % 8)) =
    decide (w.addr.toNat ≤ b.toNat ∧ b.toNat < w.addr.toNat + w.size) := by
  rw [Nat.testBit_shiftLeft, Nat.testBit_two_pow_sub_one, Bool.eq_iff_iff]
  simp only [Bool.and_eq_true, decide_eq_true_eq]
  omega

theorem Programs.decode {state : DebugState} {m : SlotMap} (h : Programs state m)
    (i : Fin wpMaxHw) : decode state i = (m i).map HwSlot.watched := by
  have hslot := h i
  cases hm : m i with
  | none =>
    rw [hm] at hslot
    change state.wcr (slotReg i) = 0 at hslot
    rw [Arm.decode, hslot]
    rfl
  | some w =>
    rw [hm] at hslot
    obtain ⟨bas, hwcr, hbas, hwvr, hfit⟩ := hslot
    have hlt : bas.toNat < 2 ^ 8 := by
      rw [hbas, Nat.shiftLeft_eq]
      calc (2 ^ w.size - 1) * 2 ^ (w.addr.toNat % 8)
          < 2 ^ w.size * 2 ^ (w.addr.toNat % 8) :=
            Nat.mul_lt_mul_of_pos_right (Nat.sub_lt (Nat.two_pow_pos _) Nat.one_pos)
              (Nat.two_pow_pos _)
        _ = 2 ^ (w.addr.toNat % 8 + w.size) := by rw [← Nat.pow_add, Nat.add_comm]
        _ ≤ 2 ^ 8 := Nat.pow_le_pow_right Nat.two_pos hfit
    obtain ⟨hE, hEl0, hlsc⟩ := @wcrOf_low w.mode bas hlt
    rw [Arm.decode, hwcr, if_pos ⟨hE, hEl0⟩, hlsc, wcrOf_bas hlt, hbas, hwvr]
    simp only [watched_eq w hfit]
    rfl

theorem slotReg_inj {i j : Fin wpMaxHw} : slotReg i = slotReg j ↔ i = j := by
  rw [Fin.ext_iff, Fin.ext_iff, slotReg, slotReg, Fin.val_castLE, Fin.val_castLE]

/-- Writing one slot's registers. -/
theorem Programs.update {state : DebugState} {m : SlotMap} {slot : Int} {j : Fin wpMaxHw}
    {w : Option HwSlot} {wvr wcr : UInt64} (h : Programs state m) (hj : (j : ℕ) = slot)
    (hw : SlotHolds wvr wcr w) :
    Programs { wvr := Function.update state.wvr (slotReg j) wvr
               wcr := Function.update state.wcr (slotReg j) wcr } (m.set slot w) := by
  intro i
  by_cases hi : i = j
  · rw [SlotMap.set, if_pos (by rw [hi, hj]), hi]
    simpa using hw
  · have hne : ¬ ((i : ℕ) : Int) = slot := fun h => hi (Fin.ext (by omega))
    have hreg : slotReg i ≠ slotReg j := mt slotReg_inj.mp hi
    rw [SlotMap.set, if_neg hne]
    dsimp only
    rw [Function.update_of_ne hreg, Function.update_of_ne hreg]
    exact h i

/-- Either an install is to be refused and is, or every thread's registers are programmed. -/
theorem install_cases (slot : Int) (addr : Addr) (size : UInt64) (mode : WpMode) :
    ((WpCall.install slot addr size mode).refused .aarch64 = true ∧
      ∀ threads, cdbgWpHwInstall threads slot addr size mode = (-1, threads)) ∨
    ((WpCall.install slot addr size mode).refused .aarch64 = false ∧
      ∃ ctx : WpCtx, (ctx.slot : ℕ) = slot ∧
        SlotHolds ctx.wvr ctx.wcr (some { addr := addr, size := size.toNat, mode := mode }) ∧
        ∀ threads, cdbgWpHwInstall threads slot addr size mode =
          eachThreadState (installArmThread ctx) threads) := by
  by_cases hslot : slot < 0 ∨ slot ≥ (wpMaxHw : ℕ)
  · refine .inl ⟨?_, fun threads => dif_pos hslot⟩
    rw [WpCall.refused, slotOutOfRange_iff.mpr hslot]
    rfl
  have hin : slotOutOfRange slot = false :=
    Bool.eq_false_iff.mpr fun h => hslot (slotOutOfRange_iff.mp h)
  by_cases hsize : size ≠ 1 ∧ size ≠ 2 ∧ size ≠ 4 ∧ size ≠ 8
  · refine .inl ⟨?_, fun threads => ?_⟩
    · have hno : sizeWatchable size = false := by simpa [sizeWatchable, and_assoc] using hsize
      simp [WpCall.refused, hno]
    · rw [cdbgWpHwInstall, dif_neg hslot, if_pos hsize]
  have hyes : sizeWatchable size = true := by
    rw [sizeWatchable_iff]
    by_contra h
    simp only [not_or] at h
    exact hsize h
  have hbound : 0 < size.toNat ∧ size.toNat ≤ 8 := by
    rcases sizeWatchable_iff.mp hyes with rfl | rfl | rfl | rfl <;> decide
  -- the offset in the window, as the code computes it
  have hoff : ((addr &&& 7).toUInt32).toNat = addr.toNat % 8 := by
    rw [UInt64.toNat_toUInt32, toNat_and_of_ones (w := 3) (by decide)]
    omega
  have hcross : ((addr &&& 7).toUInt32.toUInt64 + size > 8) ↔ 8 < addr.toNat % 8 + size.toNat := by
    rw [gt_iff_lt, UInt64.lt_iff_toNat_lt, UInt64.toNat_add, UInt32.toNat_toUInt64, hoff]
    have h8 : (8 : UInt64).toNat = 8 := rfl
    omega
  by_cases hwin : (addr &&& 7).toUInt32.toUInt64 + size > 8
  · refine .inl ⟨?_, fun threads => ?_⟩
    · have hrange : addr.toNat / 8 ≠ (addr.toNat + size.toNat - 1) / 8 := by
        have := hcross.mp hwin
        omega
      simp [WpCall.refused, rangeRefused, hrange]
    · rw [cdbgWpHwInstall, dif_neg hslot, if_neg hsize]
      exact if_pos hwin
  · have hfit : addr.toNat % 8 + size.toNat ≤ 8 := not_lt.mp (mt hcross.mpr hwin)
    refine .inr ⟨?_, ⟨⟨slot.toNat, by omega⟩, addr &&& ~~~7,
      wcrOf mode (basOf size (addr &&& 7).toUInt32)⟩, by dsimp only; omega,
      ⟨_, rfl, ?_, window_of_wvr, hfit⟩, fun threads => ?_⟩
    · have hrange : addr.toNat / 8 = (addr.toNat + size.toNat - 1) / 8 := by omega
      simp [WpCall.refused, hin, hyes, rangeRefused, hrange]
    · rw [basOf_toNat hyes (by rw [hoff]; exact hfit), hoff]
    · rw [cdbgWpHwInstall, dif_neg hslot, if_neg hsize]
      exact if_neg hwin

theorem simulates : backend.Simulates Programs := by
  intro c
  cases c with
  | install slot addr size mode =>
    rcases install_cases slot addr size mode with h | ⟨hc, ctx, hs, hw, h⟩
    · exact .inl h
    · refine .inr ⟨hc, _, h, fun t m hR => ?_⟩
      have hm : m.call backend.arch (.install slot addr size mode) = _ := SlotMap.call_install hc
      rw [hm]
      exact hR.update hs hw
  | uninstall slot =>
    rcases uninstall_split (fun _ _ => rfl) slot with h | ⟨hc, j, hs, h⟩
    · exact .inl h
    · refine .inr ⟨hc, _, h, fun t m hR => ?_⟩
      have hm : m.call backend.arch (.uninstall slot) = _ := SlotMap.call_uninstall hc
      rw [hm]
      exact hR.update hs rfl

theorem refines : backend.Refines :=
  simulates.refines (fun _ => rfl) fun _ _ h => h.decode

end Arm

/-! ### Both back ends -/

end Debugger
