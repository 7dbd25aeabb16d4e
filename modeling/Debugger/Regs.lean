/-
The register file of a thread (`regs.h`, `regs.c`), for both architectures.

The Mach thread-state structures are maps from the names of their fields to
64-bit values.  The floating-point state is not part of the model: no function
below reads it, and writing it touches no general-purpose register.
-/
import Debugger.Lineno
import Mathlib.Data.UInt
import Mathlib.Logic.Function.Basic

namespace Debugger

/-- The architecture the debugger is built for (`__x86_64__` or `__aarch64__`). -/
inductive Arch
  | x86_64
  | aarch64
deriving DecidableEq, Repr

/-- The fields of `x86_thread_state64_t`. -/
inductive X86Gpr
  | rax | rbx | rcx | rdx | rdi | rsi | rbp | rsp
  | r8 | r9 | r10 | r11 | r12 | r13 | r14 | r15
  | rip | rflags | cs | fs | gs
deriving DecidableEq, Repr

/-- The fields of `arm_thread_state64_t`; `cpsr` holds 32 bits. -/
inductive ArmGpr
  | x (idx : Fin 29)
  | fp | lr | sp | pc | cpsr
deriving DecidableEq, Repr

/-- `cdbg_regs_t`: the `native` part. -/
inductive Regs
  | x86 (native : X86Gpr → UInt64)
  | arm (native : ArmGpr → UInt64)

/-- The register `set_gpr_field` selects on x86_64, by exact name or by number. -/
def x86GprOfName (name : CStr) : Option X86Gpr :=
  if name = "rax".toList then some .rax
  else if name = "rbx".toList then some .rbx
  else if name = "rcx".toList then some .rcx
  else if name = "rdx".toList then some .rdx
  else if name = "rsi".toList then some .rsi
  else if name = "rdi".toList then some .rdi
  else if name = "rbp".toList then some .rbp
  else if name = "rsp".toList then some .rsp
  else if name = "rip".toList then some .rip
  else if name = "rflags".toList ∨ name = "eflags".toList then some .rflags
  else if name = "cs".toList then some .cs
  else if name = "fs".toList then some .fs
  else if name = "gs".toList then some .gs
  else if name.head? = some 'r' then
    let (idx, endp) := strtol name.tail
    if endp ≠ [] then none
    else if idx = 8 then some .r8
    else if idx = 9 then some .r9
    else if idx = 10 then some .r10
    else if idx = 11 then some .r11
    else if idx = 12 then some .r12
    else if idx = 13 then some .r13
    else if idx = 14 then some .r14
    else if idx = 15 then some .r15
    else none
  else none

/-- The register `set_gpr_field` selects on aarch64. -/
def armGprOfName (name : CStr) : Option ArmGpr :=
  if name = "pc".toList then some .pc
  else if name = "sp".toList then some .sp
  else if name = "fp".toList ∨ name = "x29".toList then some .fp
  else if name = "lr".toList ∨ name = "x30".toList then some .lr
  else if name = "cpsr".toList then some .cpsr
  else if name.head? = some 'x' then
    let (idx, endp) := strtol name.tail
    if h : endp = [] ∧ 0 ≤ idx ∧ idx ≤ 28 then some (.x ⟨idx.toNat, by omega⟩) else none
  else none

namespace Regs

/-- `cdbg_regs_pc` -/
def pc : Regs → Addr
  | x86 native => native .rip
  | arm native => native .pc

/-- `cdbg_regs_set_pc` -/
def setPc (pc : Addr) : Regs → Regs
  | x86 native => x86 (Function.update native .rip pc)
  | arm native => arm (Function.update native .pc pc)

/-- `cdbg_regs_fp` -/
def fp : Regs → Addr
  | x86 native => native .rbp
  | arm native => native .fp

/-- The stack pointer. -/
def sp : Regs → Addr
  | x86 native => native .rsp
  | arm native => native .sp

@[simp] theorem pc_setPc (r : Regs) (pc : Addr) : (r.setPc pc).pc = pc := by
  cases r <;> simp [setPc, Regs.pc]

@[simp] theorem sp_setPc (r : Regs) (pc : Addr) : (r.setPc pc).sp = r.sp := by
  cases r <;> simp [setPc, Regs.sp]

/-- `set_gpr_field`: `none` is the return value -1. -/
def setGprField (name : CStr) (value : UInt64) : Regs → Option Regs
  | x86 native => (x86GprOfName name).map fun r => x86 (Function.update native r value)
  | arm native => (armGprOfName name).map fun r =>
      arm (Function.update native r (if r = .cpsr then value % 2 ^ 32 else value))

end Regs

/-- The x86_64 registers with the given pc and zeros otherwise. -/
def x86At (pc : Addr) : Regs := .x86 (Function.update (fun _ => 0) .rip pc)

/-- The x86_64 registers with the given pc and stack pointer and zeros otherwise. -/
def x86Frame (pc sp : Addr) : Regs :=
  .x86 (Function.update (Function.update (fun _ => 0) .rip pc) .rsp sp)

end Debugger
