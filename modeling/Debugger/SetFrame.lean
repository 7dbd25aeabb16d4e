/-
The bytes that `set` changes.

A successful `set` of a memory location runs down to one write (`cmdSetLine_wrote`), of as
many bytes as the name of the target's type makes `type_scalar_size` say.  The bytes behind
the target are left alone exactly where that is not more than its size, or where they hold
the higher bytes of the value already (`set_frame_iff`).
-/
import Debugger.AstEval
import Debugger.CmdLine
import Debugger.Frame

open Prog

namespace Debugger

/-! ### Writing bytes -/

section Write

variable {m : Mem} {addr a : Addr} {i j : ℕ}

theorem offset_inj (hi : i < 2 ^ 64) (hj : j < 2 ^ 64)
    (h : addr + UInt64.ofNat i = addr + UInt64.ofNat j) : i = j := by
  have hnat : (UInt64.ofNat i).toNat = (UInt64.ofNat j).toNat := by
    rw [UInt64.add_right_inj] at h
    rw [h]
  rwa [UInt64.toNat_ofNat', UInt64.toNat_ofNat', Nat.mod_eq_of_lt hi, Nat.mod_eq_of_lt hj] at hnat

theorem offset_succ (addr : Addr) (i : ℕ) :
    addr + 1 + UInt64.ofNat i = addr + UInt64.ofNat (i + 1) := by
  rw [UInt64.ofNat_add, UInt64.add_assoc, UInt64.add_comm 1]
  rfl

theorem Mem.write_of_ne : ∀ {bytes : List UInt8} {m : Mem} {addr : Addr},
    (∀ i < bytes.length, a ≠ addr + UInt64.ofNat i) → m.write addr bytes a = m a := by
  intro bytes
  induction bytes with
  | nil =>
    intro m addr _
    rfl
  | cons b bs ih =>
    intro m addr h
    have h0 : a ≠ addr := by simpa using h 0 (by simp)
    rw [Mem.write, ih, Function.update_of_ne h0]
    intro i hi
    rw [offset_succ]
    exact h (i + 1) (by simpa using hi)

theorem Mem.write_at : ∀ {bytes : List UInt8} {m : Mem} {addr : Addr} {i : ℕ}
    (hi : i < bytes.length), bytes.length < 2 ^ 64 →
    m.write addr bytes (addr + UInt64.ofNat i) = bytes[i] := by
  intro bytes
  induction bytes with
  | nil =>
    intro m addr i hi
    exact absurd hi (Nat.not_lt_zero i)
  | cons b bs ih =>
    intro m addr i hi hlen
    rw [List.length_cons] at hi hlen
    cases i with
    | zero =>
      rw [Mem.write, Mem.write_of_ne]
      · simp
      · intro j hj heq
        rw [offset_succ] at heq
        exact absurd (offset_inj (by omega) (by omega) heq) (by omega)
    | succ i =>
      rw [Mem.write, ← offset_succ, ih (by omega) (by omega)]
      rfl

/-- The bytes outside a range of `size` stay as they are exactly where the written bytes
behind the range were there before. -/
theorem write_frame_iff {value : UInt64} {width size : ℕ} (hwidth : width ≤ 8) :
    (∀ a, (∀ i < size, a ≠ addr + UInt64.ofNat i) →
      m.write addr (bytesOf width value) a = m a) ↔
    ∀ i, size ≤ i → i < width →
      (value >>> UInt64.ofNat (8 * i)).toUInt8 = m (addr + UInt64.ofNat i) := by
  have hlen : (bytesOf width value).length = width := by simp [bytesOf]
  have hat : ∀ i, i < width → m.write addr (bytesOf width value) (addr + UInt64.ofNat i) =
      (value >>> UInt64.ofNat (8 * i)).toUInt8 := by
    intro i hi
    rw [Mem.write_at (by omega) (by omega)]
    simp [bytesOf]
  constructor
  · intro h i hsize hi
    rw [← hat i hi]
    refine h _ fun j hj heq => ?_
    exact absurd (offset_inj (by omega) (by omega) heq) (by omega)
  · intro h a ha
    by_cases hin : ∃ i, i < width ∧ a = addr + UInt64.ofNat i
    · obtain ⟨i, hi, rfl⟩ := hin
      have hsize : size ≤ i := by
        by_contra hlt
        exact ha i (by omega) rfl
      rw [hat i hi, h i hsize hi]
    · exact Mem.write_of_ne fun i hi heq => hin ⟨i, by omega, heq⟩

end Write

/-! ### The width of a target -/

section Width

variable {info : DebugInfo} {strtod : CStr → UInt64} {mem : Mem} {readable : Addr → Bool}
  {type : CStr}

/-- The size that the name of the type of a target gives it; the size of an array variable
is that of its elements. -/
def namedSize (var : VarInfo) : ℕ := if var.isArray then var.size else typeScalarSize var.type

theorem length_snprintf_le (n : ℕ) (text : CStr) : (snprintf (n + 1) text).length ≤ n := by
  rw [snprintf, List.length_take]
  exact Nat.min_le_left _ _

/-- A type name that is copied from one buffer to the next is the same. -/
theorem snprintf_copy {n m : ℕ} (h : n ≤ m) (text : CStr) :
    snprintf (m + 1) (snprintf (n + 1) text) = snprintf (n + 1) text :=
  snprintf_of_lt (Nat.lt_succ_of_le (Nat.le_trans (length_snprintf_le n text) h))

theorem scalarWidth_typeScalarSize (type : CStr) :
    scalarWidth (typeScalarSize type) = typeScalarSize type := by
  have h : typeScalarSize type = 1 ∨ typeScalarSize type = 2 ∨ typeScalarSize type = 4 ∨
      typeScalarSize type = 8 := by
    unfold typeScalarSize
    repeat' split
    all_goals simp
  rcases h with h | h | h | h <;> simp [h, scalarWidth]

/-- An element has the width of a scalar of its type, unless it is a struct. -/
theorem scalarWidth_typeElementSize (h : type = [] ∨ typeIsScalar type = true) :
    scalarWidth (typeElementSize info type) = typeScalarSize type := by
  by_cases hempty : type = []
  · subst hempty
    rfl
  · rw [typeElementSize, if_neg hempty, if_pos (h.resolve_left hempty),
      scalarWidth_typeScalarSize]

/-- An element of an array or behind a pointer has the width of its type's name. -/
theorem scalarWidth_elementVar (htype : snprintf maxTypeName type = type)
    (h : (elementVar type (typeElementSize info type)).type = [] ∨
      typeIsScalar (elementVar type (typeElementSize info type)).type = true) :
    scalarWidth (elementVar type (typeElementSize info type)).size =
      scalarWidth (namedSize (elementVar type (typeElementSize info type))) := by
  simp only [elementVar, namedSize, htype] at h ⊢
  rw [scalarWidth_typeElementSize h]
  exact (scalarWidth_typeScalarSize type).symm

theorem completeVarType_width (var : VarInfo) :
    (completeVarType info var).size = namedSize (completeVarType info var) ∧
      ((completeVarType info var).isArray = true →
        (completeVarType info var).elementSize =
          typeElementSize info (completeVarType info var).elementType ∧
        (completeVarType info var).elementType.length ≤ 127) := by
  unfold completeVarType
  cases h : parseArrayType var.type with
  | none => simp [h, namedSize]
  | some parsed =>
    have hlen : parsed.1.length ≤ 127 := by
      unfold parseArrayType at h
      split at h
      · split at h
        · cases h
          exact length_snprintf_le 127 _
        · simp at h
      · simp at h
    simp [h, namedSize, hlen]

theorem resolveVariableAddress_width {name : CStr} {addr : Addr} {var : VarInfo}
    (h : resolveVariableAddress info name = some (addr, var)) :
    var.size = namedSize var ∧ (var.isArray = true →
      var.elementSize = typeElementSize info var.elementType ∧ var.elementType.length ≤ 127) := by
  unfold resolveVariableAddress at h
  split at h
  · obtain ⟨-, rfl⟩ := Prod.mk.inj (Option.some.inj h)
    exact completeVarType_width _
  · obtain ⟨addr', -, h⟩ := Option.map_eq_some_iff.mp h
    obtain ⟨-, rfl⟩ := Prod.mk.inj h
    exact completeVarType_width _

/-- What every resolved target has in common: a scalar is as wide as the name of its type
says, and an array knows the size of its elements. -/
structure Measured (info : DebugInfo) (var : VarInfo) : Prop where
  width : var.type = [] ∨ typeIsScalar var.type = true →
    scalarWidth var.size = scalarWidth (namedSize var)
  element : var.isArray = true →
    var.elementSize = typeElementSize info var.elementType ∧ var.elementType.length ≤ 127

theorem measured_elementVar (htype : type.length ≤ 127) :
    Measured info (elementVar type (typeElementSize info type)) :=
  ⟨scalarWidth_elementVar (snprintf_of_lt (Nat.lt_succ_of_le htype)), fun h => Bool.noConfusion h⟩

theorem measured_memberLocation {structType name : CStr} {structAddr addr : Addr}
    {var : VarInfo}
    (h : memberLocation (info.env strtod mem readable) structType structAddr name =
      some (addr, var)) : Measured info var := by
  simp only [memberLocation, Option.bind_eq_bind] at h
  obtain ⟨m, hm, h⟩ := Option.bind_eq_some_iff.mp h
  obtain ⟨-, rfl⟩ := Prod.mk.inj (Option.some.inj h)
  -- `dwarf_lookup_struct` takes the size of a member from the name of its type
  have hmember : m.size = typeScalarSize m.type ∧ snprintf maxTypeName m.type = m.type := by
    simp only [DebugInfo.env, lookupStructMember] at hm
    obtain ⟨⟨members, byteSize⟩, hs, hfind⟩ := Option.bind_eq_some_iff.mp hm
    have hmem := List.mem_of_find?_eq_some hfind
    unfold dwarfLookupStruct at hs
    split at hs
    · split at hs
      · simp at hs
      · obtain ⟨rfl, -⟩ := Prod.mk.inj (Option.some.inj hs)
        obtain ⟨d, -, rfl⟩ := List.mem_map.mp hmem
        exact ⟨rfl, snprintf_copy (by decide) d.type⟩
    · simp at hs
  refine ⟨fun _ => ?_, fun h => Bool.noConfusion h⟩
  simp [namedSize, hmember]

/-- Every location that `cdbg_ast_resolve_lvalue` finds is measured by the name of its
type. -/
theorem measured_of_resolve {t : Ast} : ∀ {addr : Addr} {var : VarInfo},
    cdbgAstResolveLvalue (info.env strtod mem readable) t = some (addr, var) →
    Measured info var := by
  induction t with
  | ident name =>
    intro addr var h
    rw [cdbgAstResolveLvalue] at h
    have hvar := resolveVariableAddress_width h
    exact ⟨fun _ => congrArg scalarWidth hvar.1, hvar.2⟩
  | member lhs name ih =>
    intro addr var h
    rw [cdbgAstResolveLvalue] at h
    obtain ⟨base, -, h⟩ := Option.bind_eq_some_iff.mp h
    exact measured_memberLocation h
  | arrow lhs name ih =>
    intro addr var h
    rw [cdbgAstResolveLvalue] at h
    obtain ⟨base, -, h⟩ := Option.bind_eq_some_iff.mp h
    dsimp only at h
    split at h
    · simp at h
    · obtain ⟨ptr, -, h⟩ := Option.bind_eq_some_iff.mp h
      exact measured_memberLocation h
  | index lhs rhs ihl ihr =>
    intro addr var h
    rw [cdbgAstResolveLvalue] at h
    obtain ⟨⟨baseAddr, baseVar⟩, hbase, h⟩ := Option.bind_eq_some_iff.mp h
    obtain ⟨idx, -, h⟩ := Option.bind_eq_some_iff.mp h
    dsimp only at h
    split at h
    · rename_i harray
      split at h
      · simp at h
      · obtain ⟨-, rfl⟩ := Prod.mk.inj (Option.some.inj h)
        obtain ⟨hsize, hlen⟩ := (ihl hbase).element harray
        rw [hsize]
        exact measured_elementVar hlen
    · split at h
      · obtain ⟨ptr, -, h⟩ := Option.bind_eq_some_iff.mp h
        obtain ⟨-, rfl⟩ := Prod.mk.inj (Option.some.inj h)
        exact measured_elementVar (length_snprintf_le 127 _)
      · simp at h
  | unop kind lhs ih =>
    intro addr var h
    cases kind with
    | deref =>
      rw [cdbgAstResolveLvalue] at h
      obtain ⟨inner, -, h⟩ := Option.bind_eq_some_iff.mp h
      have huntyped : ∀ {v : VarInfo} {a : Addr},
          some (inner.value, ({ size := 8 } : VarInfo)) = some (a, v) → Measured info v := by
        intro v a hv
        obtain ⟨-, rfl⟩ := Prod.mk.inj (Option.some.inj hv)
        exact ⟨fun _ => rfl, fun h => Bool.noConfusion h⟩
      dsimp only at h
      split at h
      · split at h
        · split at h
          · obtain ⟨-, rfl⟩ := Prod.mk.inj (Option.some.inj h)
            exact measured_elementVar (length_snprintf_le 127 _)
          · exact huntyped h
        · exact huntyped h
      · exact huntyped h
    | pos | neg | not | bnot | addr => simp [cdbgAstResolveLvalue] at h
  | num _ | float _ | binop _ _ _ _ _ =>
    intro addr var h
    simp [cdbgAstResolveLvalue] at h

end Width

/-! ### The command -/

/-- Where a command evaluates expressions: with the debug information of the state and the
memory of the debuggee. -/
def Sys.evalEnv (s : Sys) (info : Sys → DebugInfo) (strtod : CStr → UInt64)
    (readable : Sys → Addr → Bool) : EvalEnv :=
  (info s).env strtod (((s.process s.dbg.pid).map (·.mem)).getD fun _ => 0) (readable s)

/-- The expressions of `print` and `set`. -/
def withExpressions (env : ExprEnv) (evalEnv : Sys → EvalEnv) : ExprEnv where
  resolveProgram := env.resolveProgram
  languageSupportsExpr := env.languageSupportsExpr
  evalExpr text s := do
    let ast ← cdbgAstParse text
    let result ← cdbgAstEval (evalEnv s) ast
    some (result.value, result.isAddress)
  resolveLvalue text s := do
    let ast ← cdbgAstParse text
    resolveSetLhs (evalEnv s) ast

/-- The state once the registers are read. -/
def Sys.refreshed (s : Sys) : Sys := (cdbgRefreshRegs.run s).2

section Command

variable {env : ExprEnv} {s s' : Sys}

theorem refreshed_process :
    s.refreshed.dbg.pid = s.dbg.pid ∧ s.refreshed.os.proc = s.os.proc := by
  have h : wp cdbgRefreshRegs
      (fun _ s' => s'.dbg.pid = s.dbg.pid ∧ s'.os.proc = s.os.proc) s :=
    wp_cdbgRefreshRegs (fun _ ⟨_, hs'⟩ _ => by simp [hs'])
      fun _ _ _ _ _ ⟨_, hs'⟩ => by simp [hs', Sys.withDbg]
  exact h

/-- A `set` of a memory location that succeeds has written the bytes of the value. -/
theorem cmdSetLine_wrote {args lhs rhs : CStr}
    (hrun : (cmdSetLine env (some args)).run s = (0, s'))
    (hopt : setOptions.any (·.isPrefixOf (trimSpace (snprintf maxCmd args))) = false)
    (hsides : splitAssignment (trimSpace (snprintf maxCmd args)) = some (lhs, rhs))
    (hreg : lhs.head? ≠ some '$') :
    ∃ p value addr size, s.process s.dbg.pid = some p ∧
      env.evalExpr rhs s.refreshed = some (value, false) ∧
      env.resolveLvalue lhs s.refreshed = some (addr, size) ∧
      s'.process s'.dbg.pid =
        some { p with mem := p.mem.write addr (bytesOf (scalarWidth size) value) } := by
  have hfail : ∀ {t : Sys} {P : Prop}, wp (pure (-1 : Int)) (fun rc _ => rc = 0 → P) t :=
    fun h => absurd h neg_one_ne
  suffices h : wp (cmdSetLine env (some args)) (fun rc s' => rc = 0 →
      ∃ p value addr size, s.process s.dbg.pid = some p ∧
        env.evalExpr rhs s.refreshed = some (value, false) ∧
        env.resolveLvalue lhs s.refreshed = some (addr, size) ∧
        s'.process s'.dbg.pid =
          some { p with mem := p.mem.write addr (bytesOf (scalarWidth size) value) }) s from
    (wp_of_run hrun).mp h rfl
  rw [cmdSetLine]
  simp only [Option.map_some, hopt, Bool.false_eq_true, if_false, hsides]
  refine (wp_ite _ _).mpr ⟨fun _ => hfail, fun _ => ?_⟩
  rw [wp_bind, wp_iff cdbgRefreshRegs]
  -- both sides are resolved once the registers are read
  show wp _ _ s.refreshed
  refine (wp_ite _ _).mpr ⟨fun _ => hfail, fun _ => ?_⟩
  rw [wp_bind, wp_get]
  cases hvalue : env.evalExpr rhs s.refreshed with
  | none => exact hfail
  | some result =>
    obtain ⟨value, isAddress⟩ := result
    dsimp only
    refine (wp_ite _ _).mpr ⟨fun _ => hfail, fun haddress => ?_⟩
    rw [if_neg hreg]
    cases hloc : env.resolveLvalue lhs s.refreshed with
    | none => exact hfail
    | some loc =>
      obtain ⟨addr, size⟩ := loc
      obtain rfl : isAddress = false := by simpa using haddress
      show wp (cmdSet (.scalar addr size value)) _ s.refreshed
      rw [cmdSet, wp_bind, wp_iff cdbgRefreshRegs]
      show wp _ _ s.refreshed.refreshed
      refine (wp_ite _ _).mpr ⟨fun _ => hfail, fun _ => ?_⟩
      rw [wp_bind, wp_get, writeScalarValue]
      refine wp_cdbgMemWrite (fun _ _ _ h => absurd h (by decide))
        fun p s'' hp ⟨_, hs''⟩ _ => ⟨p, value, addr, size, ?_, rfl, rfl, ?_⟩
      · simpa [Sys.process, refreshed_process] using hp
      · subst hs''
        have hpid : p.pid = s.refreshed.refreshed.dbg.pid := by
          obtain ⟨-, h⟩ := Option.filter_eq_some_iff.mp hp
          simpa using h
        simp [Sys.process, Sys.wrote, Sys.withProc, Sys.record, hpid, scalarWidth]

/-- The bytes of a range of `size` are the only ones that differ. -/
def OnlyChanges (m m' : Mem) (addr : Addr) (size : ℕ) : Prop :=
  ∀ a, (∀ i < size, a ≠ addr + UInt64.ofNat i) → m' a = m a

/-- The bytes behind the first `size` ones that `write_scalar_value` writes for the target
are in memory already: there are none where the type's name gives it at most this size. -/
def TailInPlace (m : Mem) (addr : Addr) (var : VarInfo) (value : UInt64) (size : ℕ) : Prop :=
  ∀ i, size ≤ i → i < scalarWidth (namedSize var) →
    (value >>> UInt64.ofNat (8 * i)).toUInt8 = m (addr + UInt64.ofNat i)

/-- A successful `set` changes only the bytes of its target exactly where it writes no more,
or what it writes behind the target is there already. -/
theorem set_frame_iff {info : Sys → DebugInfo} {strtod : CStr → UInt64}
    {readable : Sys → Addr → Bool} {args lhs rhs : CStr} {t : Ast} {addr : Addr} {var : VarInfo}
    {value : UInt64} {p p' : Process}
    (hrun : (cmdSetLine (withExpressions env fun s => s.evalEnv info strtod readable)
      (some args)).run s = (0, s'))
    (hopt : setOptions.any (·.isPrefixOf (trimSpace (snprintf maxCmd args))) = false)
    (hsides : splitAssignment (trimSpace (snprintf maxCmd args)) = some (lhs, rhs))
    (hreg : lhs.head? ≠ some '$') (ht : cdbgAstParse lhs = some t)
    (hloc : cdbgAstResolveLvalue (s.refreshed.evalEnv info strtod readable) t = some (addr, var))
    (hvalue : (withExpressions env fun s => s.evalEnv info strtod readable).evalExpr rhs
      s.refreshed = some (value, false))
    (hp : s.process s.dbg.pid = some p) (hp' : s'.process s'.dbg.pid = some p') (size : ℕ) :
    OnlyChanges p.mem p'.mem addr size ↔ TailInPlace p.mem addr var value size := by
  obtain ⟨q, value', addr', size', hq, hvalue', hloc', hq'⟩ :=
    cmdSetLine_wrote hrun hopt hsides hreg
  obtain rfl : p = q := Option.some.inj (hp.symm.trans hq)
  obtain rfl : value = value' := (Prod.mk.inj (Option.some.inj (hvalue.symm.trans hvalue'))).1
  have hmem : p'.mem = p.mem.write addr' (bytesOf (scalarWidth size') value) :=
    congrArg Process.mem (Option.some.inj (hp'.symm.trans hq'))
  -- the left side is not of a struct type, so the name of its type gives the width
  have hlhs : addr' = addr ∧ scalarWidth size' = scalarWidth (namedSize var) := by
    simp only [withExpressions, ht, Option.bind_eq_bind, Option.bind_some, resolveSetLhs,
      hloc] at hloc'
    split at hloc'
    · split at hloc'
      · simp at hloc'
      · rename_i hscalar
        obtain ⟨rfl, rfl⟩ := Prod.mk.inj (Option.some.inj hloc')
        refine ⟨rfl, (measured_of_resolve hloc).width ?_⟩
        by_cases hempty : var.type = []
        · exact .inl hempty
        · exact .inr (by simpa [hempty] using hscalar)
    · simp at hloc'
  rw [OnlyChanges, TailInPlace, hmem, hlhs.1, hlhs.2]
  refine write_frame_iff ?_
  unfold scalarWidth
  split <;> omega

end Command

/-! ### An `uint8_t` -/

/-- A program with the variable `uint8_t x`. -/
def oneByteInfo (_ : Sys) : DebugInfo where
  findVar name := if name = "x".toList then some ("uint8_t".toList, 0x3000) else none
  findStruct _ := none
  lookupSym _ := none

/-- The program, stopped. -/
def oneByte : Sys := Sys.attached .x86_64 twoThreads fun _ => .exited 0

/-- The variable `x` as `complete_var_type` leaves it. -/
def oneByteVar : VarInfo :=
  { name := "x".toList, type := "uint8_t".toList, size := 4, isSigned := true }

/-- `set x = 256` stores four bytes. -/
abbrev setOneByte : DbgM Int :=
  cmdSetLine (withExpressions bareEnv fun s => s.evalEnv oneByteInfo (fun _ => 0) fun _ _ => true)
    (some "x = 256".toList)

theorem set_frame_iff_oneByte :
    OnlyChanges twoThreads.mem (twoThreads.mem.write 0x3000 [0, 1, 0, 0]) 0x3000 4 ↔
      TailInPlace twoThreads.mem 0x3000 oneByteVar 256 4 :=
  @set_frame_iff _ oneByte _ _ _ _ "x = 256".toList "x".toList "256".toList (.ident "x".toList)
    _ _ _ twoThreads { twoThreads with mem := twoThreads.mem.write 0x3000 [0, 1, 0, 0] }
    (run_of_code (m := setOneByte) (by decide +kernel)) (by decide) (by decide) (by decide)
    (by decide) (by decide +kernel) (by decide +kernel) rfl rfl 4

/-- `set x = 256` changes the byte behind the `uint8_t` variable `x`. -/
theorem set_changes_neighbour :
    ¬ ∀ (cSize : CStr → ℕ) (env : ExprEnv) (info : Sys → DebugInfo) (strtod : CStr → UInt64)
      (readable : Sys → Addr → Bool) (s s' : Sys) (args lhs rhs : CStr) (t : Ast) (addr : Addr)
      (var : VarInfo) (p p' : Process), cSize "uint8_t".toList = 1 →
      (cmdSetLine (withExpressions env fun s => s.evalEnv info strtod readable)
        (some args)).run s = (0, s') →
      setOptions.any (·.isPrefixOf (trimSpace (snprintf maxCmd args))) = false →
      splitAssignment (trimSpace (snprintf maxCmd args)) = some (lhs, rhs) →
      lhs.head? ≠ some '$' → cdbgAstParse lhs = some t →
      cdbgAstResolveLvalue (s.refreshed.evalEnv info strtod readable) t = some (addr, var) →
      s.process s.dbg.pid = some p → s'.process s'.dbg.pid = some p' →
      OnlyChanges p.mem p'.mem addr (cSize var.type) := by
  intro h
  have honly : OnlyChanges twoThreads.mem (twoThreads.mem.write 0x3000 [0, 1, 0, 0]) 0x3000 1 :=
    h (fun _ => 1) bareEnv oneByteInfo (fun _ => 0) (fun _ _ => true) oneByte _
      "x = 256".toList "x".toList "256".toList (.ident "x".toList) 0x3000 oneByteVar twoThreads
      { twoThreads with mem := twoThreads.mem.write 0x3000 [0, 1, 0, 0] } rfl
      (run_of_code (m := setOneByte) (by decide +kernel)) (by decide) (by decide) (by decide)
      (by decide) (by decide +kernel) rfl rfl
  have hbyte := honly 0x3001 (by decide)
  exact absurd hbyte (by decide)

end Debugger
