/-
Registers by name (`set_gpr_field`, `set_fp_field`, `cdbg_regs_get_by_name`), with the
floating-point state of both architectures.

The names are written down twice in the source, for setting and for getting.  Both tables
select the same register for every name (`getByName_eq`), and setting one touches no other
(`set_get_by_name`).
-/
import Debugger.Extended80
import Debugger.Regs

namespace Debugger

/-! ### The register files -/

/-- A register of 128 bits. -/
structure Reg128 where
  lo : UInt64 := 0
  hi : UInt64 := 0
deriving DecidableEq, Repr

/-- `cdbg_regs_t` on x86_64: `native` and the registers of `fp` that have a name. -/
structure X86Regs where
  native : X86Gpr → UInt64
  xmm : Fin 16 → Reg128
  st : Fin 8 → MmstReg

/-- `cdbg_regs_t` on aarch64: `native` and `neon`. -/
structure ArmRegs where
  native : ArmGpr → UInt64
  v : Fin 32 → Reg128
  fpsr : UInt32
  fpcr : UInt32

/-- The registers of x86_64 that have a name. -/
inductive X86Reg
  | gpr (r : X86Gpr)
  | xmm (i : Fin 16)
  | st (i : Fin 8)
deriving DecidableEq, Repr

/-- The registers of aarch64 that have a name. -/
inductive ArmReg
  | gpr (r : ArmGpr)
  | v (i : Fin 32)
  | fpsr
  | fpcr
deriving DecidableEq, Repr

theorem toNat_lt_of_strtol {top : ℕ} {idx : Int} {endp : CStr}
    (h : endp = [] ∧ 0 ≤ idx ∧ idx ≤ top) : idx.toNat < top + 1 := by
  omega

/-- `strtol` on the number of a register, and the check behind it. -/
def regNumber (top : ℕ) (text : CStr) : Option (Fin (top + 1)) :=
  let (idx, endp) := strtol text
  if h : endp = [] ∧ 0 ≤ idx ∧ idx ≤ top then some ⟨idx.toNat, toNat_lt_of_strtol h⟩
  else none

/-! ### x86_64 -/

/-- The register `set_fp_field` selects on x86_64. -/
def x86FpOfName (name : CStr) : Option X86Reg :=
  (if "xmm".toList.isPrefixOf name then (regNumber 15 (name.drop 3)).map .xmm else none).orElse
    fun _ => if "st".toList.isPrefixOf name then (regNumber 7 (name.drop 2)).map .st else none

/-- The register a name stands for when it is set. -/
def x86RegOfName (name : CStr) : Option X86Reg :=
  ((x86GprOfName name).map .gpr).orElse fun _ => x86FpOfName name

namespace X86Regs

/-- `set_gpr_field`; `none` is -1. -/
def setGprField (name : CStr) (value : UInt64) (regs : X86Regs) : Option X86Regs :=
  (x86GprOfName name).map fun r => { regs with native := Function.update regs.native r value }

/-- `set_fp_field`; a double is given by its bits. -/
def setFpField (name : CStr) (value : UInt64) (isFloat : Bool) (fvalue : UInt64) (regs : X86Regs) :
    Option X86Regs :=
  match x86FpOfName name with
  | some (.xmm i) => some { regs with xmm := Function.update regs.xmm i { lo := value, hi := 0 } }
  | some (.st i) =>
    let d := if isFloat then fvalue else doubleOfInt64 value.toInt64
    some { regs with st := Function.update regs.st i (doubleTo80bit d) }
  | _ => none

/-- `cdbg_regs_get_by_name`; `none` is -1. -/
def getByName (regs : X86Regs) (name : CStr) : Option UInt64 :=
  if name = "rax".toList then some (regs.native .rax)
  else if name = "rbx".toList then some (regs.native .rbx)
  else if name = "rcx".toList then some (regs.native .rcx)
  else if name = "rdx".toList then some (regs.native .rdx)
  else if name = "rsi".toList then some (regs.native .rsi)
  else if name = "rdi".toList then some (regs.native .rdi)
  else if name = "rbp".toList then some (regs.native .rbp)
  else if name = "rsp".toList then some (regs.native .rsp)
  else if name = "rip".toList then some (regs.native .rip)
  else if name = "rflags".toList ∨ name = "eflags".toList then some (regs.native .rflags)
  else if name = "cs".toList then some (regs.native .cs)
  else if name = "fs".toList then some (regs.native .fs)
  else if name = "gs".toList then some (regs.native .gs)
  else
    let numbered : Option UInt64 :=
      if name.head? = some 'r' then
        let (idx, endp) := strtol name.tail
        if endp ≠ [] then none
        else if idx = 8 then some (regs.native .r8)
        else if idx = 9 then some (regs.native .r9)
        else if idx = 10 then some (regs.native .r10)
        else if idx = 11 then some (regs.native .r11)
        else if idx = 12 then some (regs.native .r12)
        else if idx = 13 then some (regs.native .r13)
        else if idx = 14 then some (regs.native .r14)
        else if idx = 15 then some (regs.native .r15)
        else none
      else none
    let xmm : Option UInt64 :=
      if "xmm".toList.isPrefixOf name then
        (regNumber 15 (name.drop 3)).map fun i => (regs.xmm i).lo
      else none
    let st : Option UInt64 :=
      if "st".toList.isPrefixOf name then
        (regNumber 7 (name.drop 2)).map fun i => (regs.st i).mant80
      else none
    numbered.orElse fun _ => xmm.orElse fun _ => st

/-- The low and the high part of a register. -/
def contents (regs : X86Regs) : X86Reg → UInt64 × UInt64
  | .gpr r => (regs.native r, 0)
  | .xmm i => ((regs.xmm i).lo, (regs.xmm i).hi)
  | .st i => ((regs.st i).mant80, (regs.st i).expSign.toUInt64)

end X86Regs

/-! ### aarch64 -/

/-- The register `set_fp_field` selects on aarch64. -/
def armFpOfName (name : CStr) : Option ArmReg :=
  if name = "fpsr".toList then some .fpsr
  else if name = "fpcr".toList then some .fpcr
  else if name.head? = some 'v' then (regNumber 31 name.tail).map .v
  else none

/-- The register a name stands for when it is set. -/
def armRegOfName (name : CStr) : Option ArmReg :=
  ((armGprOfName name).map .gpr).orElse fun _ => armFpOfName name

namespace ArmRegs

/-- `set_gpr_field`; `cpsr` keeps 32 bits. -/
def setGprField (name : CStr) (value : UInt64) (regs : ArmRegs) : Option ArmRegs :=
  (armGprOfName name).map fun r =>
    { regs with
      native := Function.update regs.native r (if r = .cpsr then value % 2 ^ 32 else value) }

/-- `set_fp_field`, which does not look at a floating-point value. -/
def setFpField (name : CStr) (value : UInt64) (_isFloat : Bool) (_fvalue : UInt64)
    (regs : ArmRegs) : Option ArmRegs :=
  match armFpOfName name with
  | some .fpsr => some { regs with fpsr := value.toUInt32 }
  | some .fpcr => some { regs with fpcr := value.toUInt32 }
  | some (.v i) => some { regs with v := Function.update regs.v i { lo := value, hi := 0 } }
  | _ => none

/-- `cdbg_regs_get_by_name` -/
def getByName (regs : ArmRegs) (name : CStr) : Option UInt64 :=
  if name = "pc".toList then some (regs.native .pc)
  else if name = "sp".toList then some (regs.native .sp)
  else if name = "fp".toList ∨ name = "x29".toList then some (regs.native .fp)
  else if name = "lr".toList ∨ name = "x30".toList then some (regs.native .lr)
  else if name = "cpsr".toList then some (regs.native .cpsr)
  else if name = "fpsr".toList then some regs.fpsr.toUInt64
  else if name = "fpcr".toList then some regs.fpcr.toUInt64
  else
    let x : Option UInt64 :=
      if name.head? = some 'x' then
        (regNumber 28 name.tail).map fun i => regs.native (.x i)
      else none
    let v : Option UInt64 :=
      if name.head? = some 'v' then
        (regNumber 31 name.tail).map fun i => (regs.v i).lo
      else none
    x.orElse fun _ => v

/-- The low and the high part of a register. -/
def contents (regs : ArmRegs) : ArmReg → UInt64 × UInt64
  | .gpr r => (regs.native r, 0)
  | .v i => ((regs.v i).lo, (regs.v i).hi)
  | .fpsr => (regs.fpsr.toUInt64, 0)
  | .fpcr => (regs.fpcr.toUInt64, 0)

end ArmRegs

/-! ### Both tables select the same register -/

section Tables

variable {α β : Type} {c : Prop} [Decidable c] {a : α} {o o' : Option α}

theorem map_ite_some {f : α → β} :
    (if c then some a else o).map f = if c then some (f a) else o.map f := by
  split <;> rfl

theorem orElse_ite_some {g : Unit → Option α} :
    (if c then some a else o).orElse g = if c then some a else o.orElse g := by
  split <;> rfl

theorem map_orElse {f : α → β} {g : Unit → Option α} :
    (o.orElse g).map f = (o.map f).orElse fun _ => (g ()).map f := by
  cases o <;> rfl

theorem map_ite_none {f : α → β} : (if c then o else none).map f = if c then o.map f else none := by
  split <;> rfl

theorem orElse_eq_none {g : Unit → Option α} (h : o.orElse g = none) : o = none ∧ g () = none := by
  cases o with
  | none => exact ⟨rfl, h⟩
  | some a => exact nomatch h

theorem map_none_ite {f : α → β} :
    (if c then none else o).map f = if c then none else o.map f := by
  split <;> rfl

end Tables

theorem X86Regs.getByName_eq (regs : X86Regs) (name : CStr) :
    regs.getByName name = (x86RegOfName name).map fun reg => (regs.contents reg).1 := by
  rw [x86RegOfName, map_orElse, Option.map_map, x86GprOfName, x86FpOfName, map_orElse]
  simp only [map_ite_some, map_ite_none, map_none_ite, orElse_ite_some, Option.map_map]
  rfl

/-- The numbers of `x0` to `x28`. -/
theorem armX_eq_regNumber (text : CStr) :
    (if h : (strtol text).2 = [] ∧ 0 ≤ (strtol text).1 ∧ (strtol text).1 ≤ 28 then
      some (ArmGpr.x ⟨(strtol text).1.toNat, by omega⟩) else none) =
      (regNumber 28 text).map ArmGpr.x := by
  by_cases h : (strtol text).2 = [] ∧ 0 ≤ (strtol text).1 ∧ (strtol text).1 ≤ 28
  · have hsome : regNumber 28 text = some ⟨(strtol text).1.toNat, by omega⟩ := dif_pos h
    rw [dif_pos h, hsome]
    rfl
  · have hnone : regNumber 28 text = none := dif_neg h
    rw [dif_neg h, hnone]
    rfl

theorem ArmRegs.getByName_eq (regs : ArmRegs) (name : CStr) :
    regs.getByName name = (armRegOfName name).map fun reg => (regs.contents reg).1 := by
  rw [armRegOfName, map_orElse, Option.map_map, armGprOfName, armFpOfName]
  dsimp only
  rw [armX_eq_regNumber]
  simp only [map_ite_some, map_ite_none, orElse_ite_some, Option.map_map]
  -- `fpsr` and `fpcr` stand before the numbers when they are read
  have hfirst : ∀ {text : CStr}, text.head? ≠ some 'x' → name = text → name.head? ≠ some 'x' :=
    fun h heq => heq ▸ h
  rw [ArmRegs.getByName]
  by_cases hfpsr : name = "fpsr".toList
  · rw [if_neg (hfirst (by decide) hfpsr), hfpsr]
    rfl
  by_cases hfpcr : name = "fpcr".toList
  · rw [if_neg (hfirst (by decide) hfpcr), hfpcr]
    rfl
  rw [if_neg hfpsr, if_neg hfpcr, if_neg hfpsr, if_neg hfpcr]
  rfl

/-! ### Setting and getting -/

/-- The functions that take a register by its name, on the registers of one architecture. -/
structure NamedFile (σ Reg : Type) where
  setGprField : CStr → UInt64 → σ → Option σ
  setFpField : CStr → UInt64 → Bool → UInt64 → σ → Option σ
  getByName : σ → CStr → Option UInt64
  /-- the register a name stands for, and what it holds -/
  ofName : CStr → Option Reg
  contents : σ → Reg → UInt64 × UInt64

def x86File : NamedFile X86Regs X86Reg where
  setGprField := X86Regs.setGprField
  setFpField := X86Regs.setFpField
  getByName := X86Regs.getByName
  ofName := x86RegOfName
  contents := X86Regs.contents

def armFile : NamedFile ArmRegs ArmReg where
  setGprField := ArmRegs.setGprField
  setFpField := ArmRegs.setFpField
  getByName := ArmRegs.getByName
  ofName := armRegOfName
  contents := ArmRegs.contents

/-- An x87 register, which gets the value as a double. -/
def X86Reg.isX87 : X86Reg → Bool
  | .st _ => true
  | _ => false

/-- What a register keeps of a value. -/
def ArmReg.kept : ArmReg → UInt64 → UInt64
  | .gpr .cpsr, value | .fpsr, value | .fpcr, value => value % 2 ^ 32
  | _, value => value

namespace NamedFile

variable {σ Reg : Type}

/-- `cdbg_regs_set_by_name`, up to the call that writes the registers back. -/
def setByName (f : NamedFile σ Reg) (name : CStr) (value : UInt64) (isFloat : Bool)
    (fvalue : UInt64) (regs : σ) : Option σ :=
  (f.setGprField name value regs).orElse fun _ => f.setFpField name value isFloat fvalue regs

/-- Setting and getting by name agree on the names, and setting changes one register: it holds
what it keeps of the value, and zeros above. -/
structure SetsOne (f : NamedFile σ Reg) (isX87 : Reg → Bool) (kept : Reg → UInt64 → UInt64) :
    Prop where
  accepts : ∀ name value isFloat fvalue regs,
    ((f.setGprField name value regs).isSome ∨
        (f.setFpField name value isFloat fvalue regs).isSome) ↔
      (f.getByName regs name).isSome
  named : ∀ name regs, (f.getByName regs name).isSome ↔ (f.ofName name).isSome
  sets : ∀ name reg, f.ofName name = some reg → ∀ value isFloat fvalue regs,
    ∃ regs', f.setByName name value isFloat fvalue regs = some regs' ∧
      (∀ reg', reg' ≠ reg → f.contents regs' reg' = f.contents regs reg') ∧
      (isX87 reg = false → f.contents regs' reg = (kept reg value, 0) ∧
        f.getByName regs' name = some (kept reg value))

/-- It is enough to know the register that is read for a name, and the one that is set. -/
theorem SetsOne.of_table [DecidableEq Reg] {f : NamedFile σ Reg} {isX87 : Reg → Bool}
    {kept : Reg → UInt64 → UInt64}
    (hget : ∀ regs name, f.getByName regs name =
      (f.ofName name).map fun reg => (f.contents regs reg).1)
    (hnone : ∀ name value isFloat fvalue regs, f.ofName name = none →
      f.setGprField name value regs = none ∧ f.setFpField name value isFloat fvalue regs = none)
    (hset : ∀ name reg, f.ofName name = some reg → ∀ value isFloat fvalue regs, ∃ regs' new,
      f.setByName name value isFloat fvalue regs = some regs' ∧
        f.contents regs' = Function.update (f.contents regs) reg new ∧
        (isX87 reg = false → new = (kept reg value, 0))) :
    f.SetsOne isX87 kept where
  named name regs := by rw [hget, Option.isSome_map]
  accepts name value isFloat fvalue regs := by
    rw [hget, Option.isSome_map]
    cases h : f.ofName name with
    | none =>
      obtain ⟨hgpr, hfp⟩ := hnone name value isFloat fvalue regs h
      simp [hgpr, hfp]
    | some reg =>
      obtain ⟨regs', new, hregs', -⟩ := hset name reg h value isFloat fvalue regs
      refine iff_of_true ?_ rfl
      rw [setByName] at hregs'
      cases hgpr : f.setGprField name value regs with
      | some r => exact .inl rfl
      | none =>
        rw [hgpr] at hregs'
        change f.setFpField name value isFloat fvalue regs = some regs' at hregs'
        exact .inr (by rw [hregs']; rfl)
  sets name reg h value isFloat fvalue regs := by
    obtain ⟨regs', new, hregs', hcontents, hnew⟩ := hset name reg h value isFloat fvalue regs
    refine ⟨regs', hregs', fun reg' hne => ?_, fun hx87 => ?_⟩
    · rw [hcontents, Function.update_of_ne hne]
    · have hreg : f.contents regs' reg = (kept reg value, 0) := by
        rw [hcontents, Function.update_self, hnew hx87]
      refine ⟨hreg, ?_⟩
      rw [hget, h, Option.map_some, hreg]

end NamedFile

/-! ### The fields and their names -/

section Fields

variable {name : CStr} {value fvalue : UInt64} {isFloat : Bool}

theorem X86Regs.contents_native (regs : X86Regs) (r : X86Gpr) (value : UInt64) :
    ({ regs with native := Function.update regs.native r value } : X86Regs).contents =
      Function.update regs.contents (.gpr r) (value, 0) := by
  funext reg
  cases reg with
  | gpr r' =>
    by_cases h : r' = r
    · subst h
      simp [X86Regs.contents]
    · simp [X86Regs.contents, h]
  | xmm i => rfl
  | st i => rfl

theorem X86Regs.contents_xmm (regs : X86Regs) (i : Fin 16) (r : Reg128) :
    ({ regs with xmm := Function.update regs.xmm i r } : X86Regs).contents =
      Function.update regs.contents (.xmm i) (r.lo, r.hi) := by
  funext reg
  cases reg with
  | gpr r' => rfl
  | xmm j =>
    by_cases h : j = i
    · subst h
      simp [X86Regs.contents]
    · simp [X86Regs.contents, h]
  | st j => rfl

theorem X86Regs.contents_st (regs : X86Regs) (i : Fin 8) (r : MmstReg) :
    ({ regs with st := Function.update regs.st i r } : X86Regs).contents =
      Function.update regs.contents (.st i) (r.mant80, r.expSign.toUInt64) := by
  funext reg
  cases reg with
  | gpr r' => rfl
  | xmm j => rfl
  | st j =>
    by_cases h : j = i
    · subst h
      simp [X86Regs.contents]
    · simp [X86Regs.contents, h]

theorem ArmRegs.contents_native (regs : ArmRegs) (r : ArmGpr) (value : UInt64) :
    ({ regs with native := Function.update regs.native r value } : ArmRegs).contents =
      Function.update regs.contents (.gpr r) (value, 0) := by
  funext reg
  cases reg with
  | gpr r' =>
    by_cases h : r' = r
    · subst h
      simp [ArmRegs.contents]
    · simp [ArmRegs.contents, h]
  | v i => rfl
  | fpsr => rfl
  | fpcr => rfl

theorem ArmRegs.contents_v (regs : ArmRegs) (i : Fin 32) (r : Reg128) :
    ({ regs with v := Function.update regs.v i r } : ArmRegs).contents =
      Function.update regs.contents (.v i) (r.lo, r.hi) := by
  funext reg
  cases reg with
  | gpr r' => rfl
  | v j =>
    by_cases h : j = i
    · subst h
      simp [ArmRegs.contents]
    · simp [ArmRegs.contents, h]
  | fpsr => rfl
  | fpcr => rfl

theorem ArmRegs.contents_fpsr (regs : ArmRegs) (value : UInt32) :
    ({ regs with fpsr := value } : ArmRegs).contents =
      Function.update regs.contents .fpsr (value.toUInt64, 0) := by
  funext reg
  cases reg <;> simp [ArmRegs.contents]

theorem ArmRegs.contents_fpcr (regs : ArmRegs) (value : UInt32) :
    ({ regs with fpcr := value } : ArmRegs).contents =
      Function.update regs.contents .fpcr (value.toUInt64, 0) := by
  funext reg
  cases reg <;> simp [ArmRegs.contents]

theorem x86FpOfName_ne_gpr (r : X86Gpr) : x86FpOfName name ≠ some (.gpr r) := by
  rw [x86FpOfName]
  cases regNumber 15 (name.drop 3) <;> cases regNumber 7 (name.drop 2) <;>
    (split <;> split <;> simp)

theorem armFpOfName_ne_gpr (r : ArmGpr) : armFpOfName name ≠ some (.gpr r) := by
  rw [armFpOfName]
  cases regNumber 31 name.tail <;> (split <;> try split <;> try split) <;> simp

theorem toUInt32_toUInt64 (value : UInt64) : value.toUInt32.toUInt64 = value % 2 ^ 32 := by
  rw [← UInt64.toNat_inj, UInt32.toNat_toUInt64, UInt64.toNat_toUInt32, UInt64.toNat_mod]
  rfl

/-- Setting a register of x86_64 by name. -/
theorem x86File_sets {reg : X86Reg} (h : x86RegOfName name = some reg) (regs : X86Regs) :
    ∃ regs' new, x86File.setByName name value isFloat fvalue regs = some regs' ∧
      regs'.contents = Function.update regs.contents reg new ∧
      (reg.isX87 = false → new = (value, 0)) := by
  have hgpr : X86Regs.setGprField name value regs = (x86GprOfName name).map _ := rfl
  have hfp : x86GprOfName name = none →
      x86File.setByName name value isFloat fvalue regs =
        X86Regs.setFpField name value isFloat fvalue regs := fun hg => by
    show (X86Regs.setGprField name value regs).orElse _ = _
    rw [hgpr, hg]
    rfl
  rw [x86RegOfName] at h
  cases hg : x86GprOfName name with
  | some r =>
    rw [hg] at h hgpr
    obtain rfl := Option.some.inj h
    refine ⟨_, _, ?_, X86Regs.contents_native regs r value, fun _ => rfl⟩
    show (X86Regs.setGprField name value regs).orElse _ = _
    rw [hgpr]
    rfl
  | none =>
    rw [hg] at h
    change x86FpOfName name = some reg at h
    rw [hfp hg, X86Regs.setFpField, h]
    cases reg with
    | gpr r => exact absurd h (x86FpOfName_ne_gpr r)
    | xmm i => exact ⟨_, _, rfl, X86Regs.contents_xmm regs i _, fun _ => rfl⟩
    | st i => exact ⟨_, _, rfl, X86Regs.contents_st regs i _, fun hx => nomatch hx⟩

theorem x86File_refuses (h : x86RegOfName name = none) {regs : X86Regs} :
    X86Regs.setGprField name value regs = none ∧
      X86Regs.setFpField name value isFloat fvalue regs = none := by
  obtain ⟨hgpr, hfp⟩ := orElse_eq_none h
  rw [X86Regs.setGprField, X86Regs.setFpField, Option.map_eq_none_iff.mp hgpr, hfp]
  exact ⟨rfl, rfl⟩

theorem armFile_refuses (h : armRegOfName name = none) {regs : ArmRegs} :
    ArmRegs.setGprField name value regs = none ∧
      ArmRegs.setFpField name value isFloat fvalue regs = none := by
  obtain ⟨hgpr, hfp⟩ := orElse_eq_none h
  rw [ArmRegs.setGprField, ArmRegs.setFpField, Option.map_eq_none_iff.mp hgpr, hfp]
  exact ⟨rfl, rfl⟩

/-- Setting a register of aarch64 by name. -/
theorem armFile_sets {reg : ArmReg} (h : armRegOfName name = some reg) (regs : ArmRegs) :
    ∃ regs', armFile.setByName name value isFloat fvalue regs = some regs' ∧
      regs'.contents = Function.update regs.contents reg (reg.kept value, 0) := by
  have hgpr : ArmRegs.setGprField name value regs = (armGprOfName name).map _ := rfl
  have hfp : armGprOfName name = none →
      armFile.setByName name value isFloat fvalue regs =
        ArmRegs.setFpField name value isFloat fvalue regs := fun hg => by
    show (ArmRegs.setGprField name value regs).orElse _ = _
    rw [hgpr, hg]
    rfl
  rw [armRegOfName] at h
  cases hg : armGprOfName name with
  | some r =>
    rw [hg] at h hgpr
    obtain rfl := Option.some.inj h
    have hset : armFile.setByName name value isFloat fvalue regs =
        ArmRegs.setGprField name value regs := by
      show (ArmRegs.setGprField name value regs).orElse _ = _
      rw [hgpr]
      rfl
    refine ⟨_, hset.trans hgpr, ?_⟩
    rw [ArmRegs.contents_native]
    cases r <;> rfl
  | none =>
    rw [hg] at h
    change armFpOfName name = some reg at h
    rw [hfp hg, ArmRegs.setFpField, h]
    cases reg with
    | gpr r => exact absurd h (armFpOfName_ne_gpr r)
    | v i => exact ⟨_, rfl, ArmRegs.contents_v regs i _⟩
    | fpsr =>
      refine ⟨_, rfl, ?_⟩
      rw [ArmRegs.contents_fpsr, toUInt32_toUInt64]
      rfl
    | fpcr =>
      refine ⟨_, rfl, ?_⟩
      rw [ArmRegs.contents_fpcr, toUInt32_toUInt64]
      rfl

end Fields

theorem x86File_setsOne : x86File.SetsOne X86Reg.isX87 fun _ value => value :=
  .of_table X86Regs.getByName_eq
    (fun name value isFloat fvalue regs h => @x86File_refuses name value fvalue isFloat h regs)
    fun _ _ h _ _ _ regs => x86File_sets h regs

theorem armFile_setsOne : armFile.SetsOne (fun _ => false) ArmReg.kept :=
  .of_table ArmRegs.getByName_eq
    (fun name value isFloat fvalue regs h => @armFile_refuses name value fvalue isFloat h regs)
    fun name reg h value isFloat fvalue regs => by
      obtain ⟨regs', hset, hcontents⟩ := @armFile_sets name value fvalue isFloat reg h regs
      exact ⟨regs', _, hset, hcontents, fun _ => rfl⟩

/-- The two names stand for one register. -/
def Aliases {σ : Type} (getByName : σ → CStr → Option UInt64) (name name' : CStr) : Prop :=
  ∀ regs, getByName regs name = getByName regs name'

/-- Setting and getting a register by name are inverse for every name and both architectures,
x87 registers apart, and setting one leaves the others alone. -/
theorem set_get_by_name :
    (x86File.SetsOne X86Reg.isX87 (fun _ value => value) ∧
        Aliases x86File.getByName "rflags".toList "eflags".toList) ∧
      (armFile.SetsOne (fun _ => false) ArmReg.kept ∧
        Aliases armFile.getByName "fp".toList "x29".toList ∧
        Aliases armFile.getByName "lr".toList "x30".toList) :=
  ⟨⟨x86File_setsOne, fun _ => rfl⟩, armFile_setsOne, fun _ => rfl, fun _ => rfl⟩

end Debugger
