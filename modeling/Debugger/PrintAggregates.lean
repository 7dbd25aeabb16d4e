/-
Arrays and structs as `print` shows them.

What `print` shows of an array are the texts that it shows of the elements one by one
(`print_array_elements`), and what it shows of a struct are the numbers of the members
(`print_struct_members`).  The elements must not be pointers: those are shown in another form in
an array than on their own.
-/
import Debugger.PrintText
import Debugger.SetFrame

open Prog

namespace Debugger

/-! ### Output of several calls -/

section Writes

variable {ws : List Written} {sep : List Char}

theorem writeAll_ok : (writeAll ws).ok = true ↔ ∀ w ∈ ws, w.ok = true := by
  induction ws with
  | nil => simp [writeAll]
  | cons w ws ih =>
    rw [writeAll, List.forall_mem_cons]
    by_cases hw : w.ok = true
    · rw [if_pos hw, ← ih]
      simp [hw]
    · rw [if_neg hw]
      simp [hw]

theorem writeAll_text (h : ∀ w ∈ ws, w.ok = true) :
    (writeAll ws).text = ws.flatMap Written.text := by
  induction ws with
  | nil => rfl
  | cons w ws ih =>
    obtain ⟨hw, hws⟩ := List.forall_mem_cons.mp h
    rw [writeAll, if_pos hw, List.flatMap_cons, ← ih hws]

theorem writeAll_eq (h : ∀ w ∈ ws, w.ok = true) :
    writeAll ws = { text := ws.flatMap Written.text, ok := true } := by
  have hok := writeAll_ok.mpr h
  have htext := writeAll_text h
  cases hw : writeAll ws with
  | mk text ok =>
    rw [hw] at hok htext
    cases hok
    cases htext
    rfl

theorem Written.printed_rc {w : Written} : w.printed.rc = 0 ↔ w.ok = true := by
  rw [Written.printed]
  by_cases hw : w.ok = true
  · simp [hw]
  · simp [hw]

/-- Calls between two that cannot fail. -/
theorem writeAll_framed_ok {before after : Written} (hbefore : before.ok = true)
    (hafter : after.ok = true) :
    (writeAll (before :: (ws ++ [after]))).ok = true ↔ ∀ w ∈ ws, w.ok = true := by
  rw [writeAll_ok, List.forall_mem_cons, List.forall_mem_append, List.forall_mem_singleton]
  exact ⟨fun h => h.2.1, fun h => ⟨hbefore, h, hafter⟩⟩

theorem writeAll_framed_text {before after : Written} (hbefore : before.ok = true)
    (hafter : after.ok = true) (h : ∀ w ∈ ws, w.ok = true) :
    (writeAll (before :: (ws ++ [after]))).text =
      before.text ++ (ws.flatMap Written.text ++ after.text) := by
  rw [writeAll_text]
  · simp
  · rw [List.forall_mem_cons, List.forall_mem_append, List.forall_mem_singleton]
    exact ⟨hbefore, h, hafter⟩

theorem writeAll_framed_printed {before after : Written} (hbefore : before.ok = true)
    (hafter : after.ok = true) (h : ∀ w ∈ ws, w.ok = true) :
    (writeAll (before :: (ws ++ [after]))).printed =
      { rc := 0, out := [before.text ++ (ws.flatMap Written.text ++ after.text)] } := by
  rw [Written.printed, if_pos ((writeAll_framed_ok hbefore hafter).mpr h),
    writeAll_framed_text hbefore hafter h]

theorem separated_cons {x : List Char} : ∀ {xs : List (List Char)},
    separated sep (x :: xs) = x ++ xs.flatMap (sep ++ ·) := by
  intro xs
  induction xs generalizing x with
  | nil => rw [separated, List.flatMap_nil, List.append_nil]
  | cons y xs ih =>
    rw [separated, ih, List.flatMap_cons, List.append_assoc]
    exact List.cons_ne_nil y xs

/-- A separator in front of every text but the first one. -/
theorem flatMap_separated (text : ℕ → List Char) (n : ℕ) :
    ((List.range n).flatMap fun i => (if i > 0 then sep else []) ++ text i) =
      separated sep ((List.range n).map text) := by
  cases n with
  | zero => rfl
  | succ n =>
    rw [List.range_succ_eq_map, List.map_cons, separated_cons, List.flatMap_cons, List.map_map,
      List.flatMap_map, List.flatMap_map]
    rfl

theorem mapIdx_separated {α : Type} (text : α → List Char) (xs : List α) :
    (xs.mapIdx fun i x => (if i > 0 then sep else []) ++ text x).flatten =
      separated sep (xs.map text) := by
  cases xs with
  | nil => rfl
  | cons x xs =>
    have htail : (xs.mapIdx fun i x => (if i + 1 > 0 then sep else []) ++ text x) =
        xs.map fun x => sep ++ text x := by
      refine List.ext_getElem (by simp) fun i h h' => ?_
      rw [List.getElem_mapIdx, List.getElem_map, if_pos (Nat.succ_pos i)]
    rw [List.mapIdx_cons, List.flatten_cons, htail, List.map_cons, separated_cons, List.flatMap_map]
    rfl

end Writes

/-! ### Scalars -/

/-- `label = text` on a line, and success. -/
def shownAs (label text : CStr) : Printed :=
  { rc := 0, out := [label ++ (" = ".toList ++ (text ++ ['\n']))] }

section Scalar

variable {env : PrintEnv} {v : UInt64} {size : ℕ} {addr : Addr}

theorem readScalarValue_lt (hsize : 0 < size ∧ size ≤ 8)
    (h : readScalarValue env.eval addr size = some v) : v.toNat < 256 ^ size := by
  rw [readScalarValue, scalarWidth_eq hsize, EvalEnv.memRead] at h
  split at h
  · cases h
    have hlen : (env.eval.mem.read addr size).length = size := by
      rw [Mem.read, List.length_map, List.length_range]
    rw [valueOf_toNat (by rw [hlen]; exact hsize.2)]
    have hlt := leNat_lt (env.eval.mem.read addr size)
    rwa [hlen] at hlt
  · cases h

/-- On its own a scalar is shown as in an aggregate, with the number in hexadecimal behind it. -/
theorem scalarText_default (hsize : 0 < size ∧ size ≤ 8) (hv : v.toNat < 256 ^ size)
    (isSigned : Bool) : scalarText env .default v size isSigned false false =
      some (printScalarInline v size isSigned false ++
        ' ' :: '(' :: (hexadecimalText v ++ [')'])) := by
  rw [scalarText, maskToSize_eq hsize hv]
  rfl

theorem typeScalarSize_pos (type : CStr) : 0 < typeScalarSize type ∧ typeScalarSize type ≤ 8 := by
  unfold typeScalarSize
  split_ifs <;> omega

theorem aggregateMembers_eq_none {type : CStr} (hne : typeElementSize env.info type ≠ 0)
    (h : aggregateMembers env type = none) : 0 < typeElementSize env.info type ∧
      typeElementSize env.info type ≤ 8 := by
  refine ⟨Nat.pos_of_ne_zero hne, ?_⟩
  rw [aggregateMembers] at h
  rw [typeElementSize]
  split
  · omega
  · by_cases hscalar : typeIsScalar type = true
    · rw [if_pos hscalar]
      exact (typeScalarSize_pos type).2
    · rw [if_neg hscalar] at h ⊢
      rw [Option.map_eq_none_iff.mp h]

end Scalar

/-! ### Arrays -/

/-- The texts of an array's elements, one behind the other or one on a line. -/
def arrayText (env : PrintEnv) (label type : CStr) (shown : List CStr) : CStr :=
  if env.printPretty then
    label ++ (" = ".toList ++ printTypeAnnotation env .default type ++ ('[' :: '\n' ::
      ((shown.zipIdx.flatMap fun line => ' ' :: ' ' :: '[' :: (Nat.toDigits 10 line.2 ++
        (']' :: ' ' :: (line.1 ++ ['\n'])))) ++ [']', '\n'])))
  else label ++ (" = [".toList ++ (separated [',', ' '] shown ++ [']', '\n']))

section Arrays

variable {env : PrintEnv} {var : VarInfo} {addr : Addr}

/-- An element on its own is shown as in its array. -/
theorem printLocation_element (htype : snprintf maxTypeName var.elementType = var.elementType)
    (helement : var.elementSize = typeElementSize env.info var.elementType)
    (hsize : var.elementSize ≠ 0) (hpointer : typeIsPointer var.elementType = false)
    (label : CStr) : let w := printArrayElementValue env var addr
    let printed := printLocation env .default label addr
      (elementVar var.elementType var.elementSize)
    (printed.rc = 0 ↔ w.ok = true) ∧ (w.ok = true → printed = shownAs label w.text) := by
  have harray : ¬ ((elementVar var.elementType var.elementSize).isArray = true ∧
      PrintFormat.default = .default) := fun h => Bool.noConfusion h.1
  have hscalar : ¬ ((elementVar var.elementType var.elementSize).isPointer = true ∨
      PrintFormat.default ≠ .default) := by
    simp [elementVar, hpointer]
  have hvarType : (elementVar var.elementType var.elementSize).type = var.elementType := htype
  dsimp only
  rw [printLocation, if_neg harray, if_neg hscalar, hvarType, printArrayElementValue]
  cases hmembers : aggregateMembers env var.elementType with
  | some members =>
    dsimp only
    rw [Written.printed_rc, writeAll_ok, writeAll_ok]
    constructor
    · simp
    · intro hok
      have hstruct := hok _ (List.mem_cons_of_mem _ List.mem_cons_self)
      rw [writeAll_eq (by simpa using hstruct), writeAll_eq (by simpa using hstruct)]
      simp [Written.printed, shownAs, List.append_assoc]
  | none =>
    dsimp only
    have hwidth := aggregateMembers_eq_none (helement ▸ hsize) hmembers
    rw [← helement] at hwidth
    have hvarSize : (elementVar var.elementType var.elementSize).size = var.elementSize := rfl
    rw [hvarSize]
    cases hread : readScalarValue env.eval addr var.elementSize with
    | none => exact ⟨by simp, fun h => Bool.noConfusion h⟩
    | some v =>
      have htext := @scalarText_default env v var.elementSize hwidth
        (readScalarValue_lt hwidth hread) (typeIsSigned var.elementType)
      have hpointer' : (elementVar var.elementType var.elementSize).isPointer = false := hpointer
      have hsigned : (elementVar var.elementType var.elementSize).isSigned =
        typeIsSigned var.elementType := rfl
      dsimp only
      rw [hpointer', hsigned, printScalar, htext, hpointer]
      refine ⟨by simp, fun _ => ?_⟩
      simp [labelled, shownAs, List.append_assoc]

theorem lvalueShaped_of_resolve {env : EvalEnv} {e : Ast} {loc : Addr × VarInfo}
    (h : cdbgAstResolveLvalue env e = some loc) : cdbgAstIsLvalueShaped e = true := by
  cases e with
  | num | float | binop => simp [cdbgAstResolveLvalue] at h
  | unop kind lhs =>
    cases kind with
    | deref => rfl
    | _ => simp [cdbgAstResolveLvalue] at h
  | _ => rfl

theorem printExpression_of_resolve {e : Ast} {text : CStr} {fmt : PrintFormat}
    (htext : cdbgAstParse text = some e)
    (hres : cdbgAstResolveLvalue env.eval e = some (addr, var)) :
    printExpression env fmt text = printLocation env fmt text addr var := by
  rw [printExpression, htext]
  dsimp only
  rw [if_pos (lvalueShaped_of_resolve hres), hres]

theorem resolve_element {e : Ast} {i : ℕ}
    (hres : cdbgAstResolveLvalue env.eval e = some (addr, var)) (harray : var.isArray = true)
    (hi : i < var.arrayCount) (hi' : i < 2 ^ 64) :
    cdbgAstResolveLvalue env.eval (.index e (.num (UInt64.ofNat i))) =
      some (elementAddr var addr i, elementVar var.elementType var.elementSize) := by
  have hindex : (UInt64.ofNat i).toNat = i := by
    rw [UInt64.toNat_ofNat', Nat.mod_eq_of_lt hi']
  rw [cdbgAstResolveLvalue, hres, cdbgAstEval, resolveIndex]
  simp only [Option.bind_eq_bind, Option.bind_some, harray, if_true, hindex]
  rw [if_neg (by omega), elementAddr]

/-- The calls for an element on a line of its own. -/
def elementLine (shown : Written) (i : ℕ) : Written :=
  writeAll [{ text := ' ' :: ' ' :: '[' :: (Nat.toDigits 10 i ++ [']', ' ']) }, shown,
    { text := ['\n'] }]

theorem elementLine_ok {shown : Written} {i : ℕ} :
    (elementLine shown i).ok = true ↔ shown.ok = true := by
  rw [elementLine, writeAll_ok]
  simp

theorem elementLine_text {shown : Written} {i : ℕ} (h : shown.ok = true) :
    (elementLine shown i).text =
      ' ' :: ' ' :: '[' :: (Nat.toDigits 10 i ++ (']' :: ' ' :: (shown.text ++ ['\n']))) := by
  rw [elementLine, writeAll_text]
  · simp
  · simpa using h

/-- The calls for an element behind the one in front of it. -/
def elementBehind (shown : Written) (i : ℕ) : Written :=
  writeAll [{ text := if i > 0 then [',', ' '] else [] }, shown]

theorem elementBehind_ok {shown : Written} {i : ℕ} :
    (elementBehind shown i).ok = true ↔ shown.ok = true := by
  rw [elementBehind, writeAll_ok]
  simp

theorem elementBehind_text {shown : Written} {i : ℕ} (h : shown.ok = true) :
    (elementBehind shown i).text = (if i > 0 then [',', ' '] else []) ++ shown.text := by
  rw [elementBehind, writeAll_text]
  · simp
  · simpa using h

/-- The texts with their numbers. -/
theorem flatMap_zipIdx_map {β : Type} (text : ℕ → CStr) (line : CStr × ℕ → List β) (n : ℕ) :
    (((List.range n).map text).zipIdx.flatMap line) =
      (List.range n).flatMap fun i => line (text i, i) := by
  have hzip : (List.range n).zipIdx = (List.range n).map fun i => (i, i) := by
    refine List.ext_getElem (by simp) fun i h h' => ?_
    simp
  rw [List.zipIdx_map, List.flatMap_map, hzip, List.flatMap_map]
  rfl

/-- The text of an array is put together from the texts of its elements. -/
theorem printArrayVariable_eq {name : CStr} (hcount : 0 < var.arrayCount ∧ var.arrayCount ≤ 256)
    (hsize : var.elementSize ≠ 0) :
    let element := fun i => printArrayElementValue env var (elementAddr var addr i)
    ((printArrayVariable env name var addr).rc = 0 ↔ ∀ i < var.arrayCount, (element i).ok = true) ∧
    ((∀ i < var.arrayCount, (element i).ok = true) → printArrayVariable env name var addr =
      { rc := 0, out := [arrayText env name var.type
          ((List.range var.arrayCount).map fun i => (element i).text)] }) := by
  intro element
  rw [printArrayVariable, if_neg (by omega), if_neg (by simp [maxArrayPrint, hcount.2])]
  dsimp only
  -- the calls for an element succeed if the one that prints it does
  have hcalls : ∀ {calls : ℕ → Written}, (∀ i, (calls i).ok = true ↔ (element i).ok = true) →
      ((∀ w ∈ (List.range var.arrayCount).map calls, w.ok = true) ↔
        ∀ i < var.arrayCount, (element i).ok = true) := by
    intro calls hcall
    rw [List.forall_mem_map]
    simp only [List.mem_range, hcall]
  by_cases hpretty : env.printPretty = true
  · have hlines := @hcalls (fun i => elementLine (element i) i) fun i => elementLine_ok
    rw [if_pos hpretty, Written.printed_rc]
    refine ⟨(writeAll_framed_ok rfl rfl).trans hlines, fun hok => ?_⟩
    refine (writeAll_framed_printed rfl rfl (hlines.mpr hok)).trans ?_
    rw [List.flatMap_map, arrayText, if_pos hpretty, flatMap_zipIdx_map,
      List.flatMap_congr fun i hi => elementLine_text (hok i (List.mem_range.mp hi))]
    simp
  · have hbehind := @hcalls (fun i => elementBehind (element i) i) fun i => elementBehind_ok
    rw [if_neg hpretty, Written.printed_rc]
    refine ⟨(writeAll_framed_ok rfl rfl).trans hbehind, fun hok => ?_⟩
    refine (writeAll_framed_printed rfl rfl (hbehind.mpr hok)).trans ?_
    rw [List.flatMap_map, arrayText, if_neg hpretty,
      List.flatMap_congr fun i hi => elementBehind_text (hok i (List.mem_range.mp hi)),
      flatMap_separated]
    simp

/-- `print` shows an array exactly when it shows every element, and what it shows of the array are
the texts that it shows of the elements. -/
theorem print_array_elements {e : Ast} {text : CStr} {element : ℕ → CStr}
    (htext : cdbgAstParse text = some e)
    (hres : cdbgAstResolveLvalue env.eval e = some (addr, var)) (harray : var.isArray = true)
    (hcount : 0 < var.arrayCount ∧ var.arrayCount ≤ 256) (hsize : var.elementSize ≠ 0)
    (hpointer : typeIsPointer var.elementType = false)
    (helement : ∀ i < var.arrayCount,
      cdbgAstParse (element i) = some (.index e (.num (UInt64.ofNat i)))) :
    ((printExpression env .default text).rc = 0 ↔
      ∀ i < var.arrayCount, (printExpression env .default (element i)).rc = 0) ∧
    ((printExpression env .default text).rc = 0 → ∃ shown : ℕ → CStr,
      printExpression env .default text =
        { rc := 0, out := [arrayText env text var.type ((List.range var.arrayCount).map shown)] } ∧
      ∀ i < var.arrayCount,
        printExpression env .default (element i) = shownAs (element i) (shown i)) := by
  have hmeasured := (measured_of_resolve hres).element harray
  have htype : snprintf maxTypeName var.elementType = var.elementType :=
    snprintf_of_lt (Nat.lt_succ_of_le hmeasured.2)
  -- the elements on their own
  have hown : ∀ i < var.arrayCount,
      ((printExpression env .default (element i)).rc = 0 ↔
        (printArrayElementValue env var (elementAddr var addr i)).ok = true) ∧
      ((printArrayElementValue env var (elementAddr var addr i)).ok = true →
        printExpression env .default (element i) =
          shownAs (element i) (printArrayElementValue env var (elementAddr var addr i)).text) := by
    intro i hi
    rw [printExpression_of_resolve (helement i hi) (resolve_element hres harray hi (by omega))]
    exact printLocation_element htype hmeasured.1 hsize hpointer (element i)
  have hwhole : printExpression env .default text = printArrayVariable env text var addr := by
    rw [printExpression_of_resolve htext hres, printLocation, if_pos ⟨harray, rfl⟩]
  obtain ⟨hrc, hout⟩ := @printArrayVariable_eq env var addr text hcount hsize
  rw [hwhole]
  refine ⟨hrc.trans (forall₂_congr fun i hi => (hown i hi).1.symm), fun h => ?_⟩
  have hok := hrc.mp h
  exact ⟨_, hout hok, fun i hi => (hown i hi).2 (hok i hi)⟩

end Arrays

/-! ### Structs -/

/-- The members of a struct with their texts, between braces. -/
def structText (env : PrintEnv) (members : List StructMember) (shown : StructMember → CStr) :
    CStr :=
  if env.printPretty then
    '{' :: '\n' :: ((members.flatMap fun m => ' ' :: ' ' :: (m.name ++ (" = ".toList ++
      printTypeAnnotation env .default m.type ++ (shown m ++ ['\n'])))) ++ ['}'])
  else '{' :: (separated [',', ' '] (members.map fun m => m.name ++ '=' :: shown m) ++ ['}'])

section Structs

variable {env : PrintEnv} {var : VarInfo} {addr : Addr} {members : List StructMember}

/-- The value of a member, if it can be read. -/
def memberValue (env : PrintEnv) (addr : Addr) (m : StructMember) : Option UInt64 :=
  readScalarValue env.eval (addr + UInt64.ofNat m.offset) m.size

/-- What is printed for a member whose value is read. -/
def memberText (env : PrintEnv) (addr : Addr) (m : StructMember) : CStr :=
  printScalarInline ((memberValue env addr m).getD 0) m.size m.isSigned false

theorem printMember_ok {m : StructMember} {before after : CStr} :
    (printMember env addr m before after).ok = true ↔ (memberValue env addr m).isSome = true := by
  rw [printMember, memberValue]
  cases readScalarValue env.eval (addr + UInt64.ofNat m.offset) m.size with
  | none => simp
  | some v => simp

theorem printMember_text {m : StructMember} {before after : CStr}
    (h : (memberValue env addr m).isSome = true) :
    (printMember env addr m before after).text = before ++ (memberText env addr m ++ after) := by
  obtain ⟨v, hv⟩ := Option.isSome_iff_exists.mp h
  rw [memberText, hv]
  rw [memberValue] at hv
  rw [printMember, hv]
  rfl

/-- A member on a line of its own, with its type. -/
theorem printMember_line {m : StructMember} (h : (memberValue env addr m).isSome = true) :
    (printMember env addr m
        (' ' :: ' ' :: (m.name ++ (" = ".toList ++ printTypeAnnotation env .default m.type)))
        ['\n']).text =
      ' ' :: ' ' :: (m.name ++ (" = ".toList ++ printTypeAnnotation env .default m.type ++
        (memberText env addr m ++ ['\n']))) := by
  rw [printMember_text h]
  simp

/-- The members behind each other, with a separator in front of all but the first one. -/
def membersInline (env : PrintEnv) (addr : Addr) (members : List StructMember) : List Written :=
  members.mapIdx fun i m => printMember env addr m
    ((if i > 0 then [',', ' '] else []) ++ (m.name ++ ['='])) []

theorem membersInline_ok : (∀ w ∈ membersInline env addr members, w.ok = true) ↔
    ∀ m ∈ members, (memberValue env addr m).isSome = true := by
  constructor
  · intro h m hm
    obtain ⟨i, hi, rfl⟩ := List.getElem_of_mem hm
    exact printMember_ok.mp (h _ (List.mem_mapIdx.mpr ⟨i, hi, rfl⟩))
  · intro h w hw
    obtain ⟨i, hi, rfl⟩ := List.mem_mapIdx.mp hw
    exact printMember_ok.mpr (h _ (List.getElem_mem hi))

theorem membersInline_text (h : ∀ m ∈ members, (memberValue env addr m).isSome = true) :
    (membersInline env addr members).flatMap Written.text =
      separated [',', ' '] (members.map fun m => m.name ++ '=' :: memberText env addr m) := by
  have htexts : (membersInline env addr members).map Written.text =
      members.mapIdx fun i m => (if i > 0 then [',', ' '] else []) ++
        (m.name ++ '=' :: memberText env addr m) := by
    refine List.ext_getElem (by simp [membersInline]) fun i hi hi' => ?_
    simp only [membersInline, List.getElem_map, List.getElem_mapIdx]
    rw [printMember_text (h _ (List.getElem_mem _))]
    simp
  rw [List.flatMap_def, htexts, mapIdx_separated]

/-- A struct is printed whole exactly if all its members are read. -/
theorem printStructElement_eq :
    ((printStructElement env addr members).ok = true ↔
      ∀ m ∈ members, (memberValue env addr m).isSome = true) ∧
    ((∀ m ∈ members, (memberValue env addr m).isSome = true) →
      (printStructElement env addr members).text =
        structText env members (memberText env addr)) := by
  rw [printStructElement, structText]
  by_cases hpretty : env.printPretty = true
  · rw [if_pos hpretty, if_pos hpretty, writeAll_framed_ok rfl rfl, List.forall_mem_map]
    refine ⟨forall₂_congr fun m _ => printMember_ok, fun hread => ?_⟩
    rw [writeAll_framed_text rfl rfl (by simpa [printMember_ok] using hread), List.flatMap_map,
      List.flatMap_congr fun m hm => printMember_line (hread m hm)]
    rfl
  · rw [if_neg hpretty, if_neg hpretty]
    refine ⟨(writeAll_framed_ok rfl rfl).trans membersInline_ok, fun hread => ?_⟩
    refine (writeAll_framed_text rfl rfl (membersInline_ok.mpr hread)).trans ?_
    rw [membersInline_text hread]
    rfl

/-- The type of every location fits the buffers of type names. -/
theorem type_fits {env : EvalEnv} {info : DebugInfo} {e : Ast}
    (hinfo : env.resolveVariableAddress = resolveVariableAddress info)
    (h : cdbgAstResolveLvalue env e = some (addr, var)) :
    snprintf maxTypeName var.type = var.type := by
  have hcopy : ∀ text, snprintf maxTypeName (snprintf maxTypeName text) =
      snprintf maxTypeName text := snprintf_snprintf maxTypeName
  have hmember : ∀ {type : CStr} {a : Addr} {name : CStr},
      memberLocation env type a name = some (addr, var) →
      snprintf maxTypeName var.type = var.type := by
    intro type a name h
    obtain ⟨m, -, h⟩ := Option.bind_eq_some_iff.mp h
    cases h
    exact hcopy m.type
  have hcomplete : ∀ v : VarInfo, (completeVarType info v).type = v.type := by
    intro v
    rw [completeVarType]
    dsimp only
    split <;> rfl
  cases e with
  | num | float | binop => simp [cdbgAstResolveLvalue] at h
  | ident name =>
    rw [cdbgAstResolveLvalue, hinfo, resolveVariableAddress] at h
    split at h
    · cases h
      rw [hcomplete]
      exact hcopy _
    · obtain ⟨a, -, h⟩ := Option.map_eq_some_iff.mp h
      cases h
      rw [hcomplete]
      rfl
  | member lhs name =>
    rw [cdbgAstResolveLvalue] at h
    obtain ⟨base, -, h⟩ := Option.bind_eq_some_iff.mp h
    exact hmember h
  | arrow lhs name =>
    rw [cdbgAstResolveLvalue] at h
    obtain ⟨base, -, h⟩ := Option.bind_eq_some_iff.mp h
    dsimp only at h
    split at h
    · cases h
    · obtain ⟨ptr, -, h⟩ := Option.bind_eq_some_iff.mp h
      exact hmember h
  | index lhs rhs =>
    rw [cdbgAstResolveLvalue] at h
    obtain ⟨base, -, h⟩ := Option.bind_eq_some_iff.mp h
    obtain ⟨idx, -, h⟩ := Option.bind_eq_some_iff.mp h
    dsimp only at h
    split at h
    · split at h
      · cases h
      · cases h
        exact hcopy _
    · split at h
      · obtain ⟨ptr, -, h⟩ := Option.bind_eq_some_iff.mp h
        cases h
        exact hcopy _
      · cases h
  | unop kind lhs =>
    cases kind with
    | deref =>
      rw [cdbgAstResolveLvalue] at h
      obtain ⟨inner, -, h⟩ := Option.bind_eq_some_iff.mp h
      dsimp only at h
      split at h
      · split at h
        · split at h <;> cases h
          · exact hcopy _
          · rfl
        · cases h
          rfl
      · cases h
        rfl
    | _ => simp [cdbgAstResolveLvalue] at h

theorem find?_name {m : StructMember} (hdistinct : (members.map (·.name)).Nodup)
    (hm : m ∈ members) : members.find? (·.name = m.name) = some m := by
  induction members with
  | nil => exact absurd hm List.not_mem_nil
  | cons m' members ih =>
    rw [List.map_cons, List.nodup_cons] at hdistinct
    rcases List.mem_cons.mp hm with rfl | hm
    · rw [List.find?_cons_of_pos (by simp)]
    · have hne : m'.name ≠ m.name := fun h =>
        hdistinct.1 (h ▸ List.mem_map_of_mem hm)
      rw [List.find?_cons_of_neg (by simpa using hne), ih hdistinct.2 hm]

/-- The members of a struct are those that `dwarf_lookup_struct` finds, with the sizes of their
types. -/
theorem mem_aggregateMembers {m : StructMember}
    (hmembers : aggregateMembers env var.type = some members) (hm : m ∈ members) :
    (∃ byteSize, dwarfLookupStruct env.info var.type = some (members, byteSize)) ∧
      (0 < m.size ∧ m.size ≤ 8) ∧ snprintf maxTypeName m.type = m.type := by
  rw [aggregateMembers] at hmembers
  split at hmembers
  · cases hmembers
  obtain ⟨⟨found, byteSize⟩, hfound, hmembers⟩ := Option.map_eq_some_iff.mp hmembers
  obtain rfl : found = members := hmembers
  have hdecl : ∃ d, m = structMember d := by
    unfold dwarfLookupStruct at hfound
    split at hfound
    · split at hfound
      · cases hfound
      · cases hfound
        obtain ⟨d, -, rfl⟩ := List.mem_map.mp hm
        exact ⟨d, rfl⟩
    · cases hfound
  obtain ⟨d, rfl⟩ := hdecl
  exact ⟨⟨byteSize, hfound⟩, typeScalarSize_pos _, snprintf_copy (by decide) d.type⟩

/-- Where a member of a struct is. -/
theorem resolve_member {e : Ast} {m : StructMember}
    (hres : cdbgAstResolveLvalue env.eval e = some (addr, var))
    (hmembers : aggregateMembers env var.type = some members)
    (hdistinct : (members.map (·.name)).Nodup) (hm : m ∈ members) :
    cdbgAstResolveLvalue env.eval (.member e m.name) =
      some (addr + UInt64.ofNat m.offset,
        { name := snprintf maxTypeName m.name, type := m.type, size := m.size,
          isSigned := m.isSigned, isPointer := typeIsPointer m.type }) := by
  obtain ⟨⟨byteSize, hfound⟩, -, htype⟩ := mem_aggregateMembers hmembers hm
  have hlookup : lookupStructMember env.info (snprintf maxTypeName var.type) m.name = some m := by
    rw [lookupStructMember, type_fits rfl hres, hfound, Option.bind_some, find?_name hdistinct hm]
  rw [cdbgAstResolveLvalue, hres, resolveMember]
  simp only [Option.bind_eq_bind, Option.bind_some]
  rw [memberLocation]
  show (lookupStructMember env.info _ _).bind _ = _
  rw [hlookup, Option.bind_some, htype]

/-- A member that is no struct is printed as a number, or as an address if it is a pointer. -/
theorem printLocation_member {m : StructMember} {label name : CStr}
    (hsize : 0 < m.size ∧ m.size ≤ 8) (hscalar : aggregateMembers env m.type = none) :
    printLocation env .default label (addr + UInt64.ofNat m.offset)
        { name := name, type := m.type, size := m.size, isSigned := m.isSigned,
          isPointer := typeIsPointer m.type } =
      (memberValue env addr m).elim { rc := -1 } fun v =>
        shownAs label <| printTypeAnnotation env .default m.type ++
          if typeIsPointer m.type then hexNumeral 16 v
          else memberText env addr m ++ ' ' :: '(' :: (hexadecimalText v ++ [')']) := by
  rw [printLocation, if_neg (by simp)]
  dsimp only
  have hnone : (if typeIsPointer m.type = true ∨ PrintFormat.default ≠ .default then none
      else aggregateMembers env m.type) = none := by
    rw [hscalar, ite_self]
  rw [hnone, memberText]
  dsimp only
  cases hv : memberValue env addr m with
  | none =>
    rw [memberValue] at hv
    rw [hv]
    rfl
  | some v =>
    have hlt := readScalarValue_lt hsize hv
    rw [memberValue] at hv
    rw [hv]
    dsimp only [Option.elim_some]
    by_cases hptr : typeIsPointer m.type = true
    · rw [printScalar, hptr, scalarText, maskToSize_eq hsize hlt]
      simp [labelled, shownAs, List.append_assoc]
    · rw [Bool.not_eq_true] at hptr
      rw [printScalar, hptr, scalarText_default hsize hlt m.isSigned]
      simp [labelled, shownAs, List.append_assoc]

/-- `print` shows a struct exactly when it can read all its members.  What it shows are the numbers
of the members, each as `print` shows it for the member alone, where a pointer is shown as an
address. -/
theorem print_struct_members {e : Ast} {text : CStr} {member : StructMember → CStr}
    (htext : cdbgAstParse text = some e)
    (hres : cdbgAstResolveLvalue env.eval e = some (addr, var)) (harray : var.isArray = false)
    (hpointer : var.isPointer = false) (hmembers : aggregateMembers env var.type = some members)
    (hdistinct : (members.map (·.name)).Nodup)
    (hmember : ∀ m ∈ members, cdbgAstParse (member m) = some (.member e m.name)) :
    ((printExpression env .default text).rc = 0 ↔
      ∀ m ∈ members, (memberValue env addr m).isSome = true) ∧
    ((printExpression env .default text).rc = 0 → printExpression env .default text =
      (shownAs text <| printTypeAnnotation env .default var.type ++
        structText env members (memberText env addr))) ∧
    ∀ m ∈ members, aggregateMembers env m.type = none →
      printExpression env .default (member m) = (memberValue env addr m).elim { rc := -1 } fun v =>
        shownAs (member m) <| printTypeAnnotation env .default m.type ++
          if typeIsPointer m.type then hexNumeral 16 v
          else memberText env addr m ++ ' ' :: '(' :: (hexadecimalText v ++ [')']) := by
  have hshown : ¬ (var.isPointer = true ∨ PrintFormat.default ≠ .default) := by simp [hpointer]
  have hwhole : printExpression env .default text = (writeAll
      [{ text := text ++ (" = ".toList ++ printTypeAnnotation env .default var.type) },
        printStructElement env addr members, { text := ['\n'] }]).printed := by
    rw [printExpression_of_resolve htext hres, printLocation, if_neg (by simp [harray]),
      if_neg hshown, hmembers]
  have hstruct := @printStructElement_eq env addr members
  have hok : (printExpression env .default text).rc = 0 ↔
      ∀ m ∈ members, (memberValue env addr m).isSome = true := by
    rw [hwhole, Written.printed_rc, writeAll_ok, ← hstruct.1]
    simp
  refine ⟨hok, fun h => ?_, fun m hm hscalar => ?_⟩
  · have hread := hok.mp h
    have hall : (printStructElement env addr members).ok = true := hstruct.1.mpr hread
    rw [hwhole, writeAll_eq (by simpa using hall)]
    simp [Written.printed, shownAs, hstruct.2 hread, List.append_assoc]
  · have hsize := (mem_aggregateMembers hmembers hm).2.1
    rw [printExpression_of_resolve (hmember m hm) (resolve_member hres hmembers hdistinct hm)]
    exact printLocation_member hsize hscalar

end Structs

/-! ### An array and a struct -/

/-- A program with `int a[3]` and a `struct node s` of a number and a pointer. -/
def arrayAndNode : PrintEnv where
  info :=
    { findVar := fun name =>
        if name = "a".toList then some ("int[3]".toList, 0x3000)
        else if name = "s".toList then some ("node".toList, 0x3004) else none
      findStruct := fun name => if name = "node".toList then
        some (16, [⟨"key".toList, "int".toList, 0⟩, ⟨"next".toList, "node *".toList, 8⟩]) else none
      lookupSym := fun _ => none }
  strtod _ := 0
  mem addr := if addr = 0x3000 then 7 else if addr < 0x3008 then 0xff else 0
  readable _ := true
  printPretty := false
  aggregateKind _ := .none
  syms := {}
  floatText _ := []
  doubleText _ := []

/-- The variables as `resolve_variable_address` fills them in. -/
def threeInts : VarInfo :=
  { name := "a".toList, type := "int[3]".toList, elementType := "int".toList, size := 12,
    elementSize := 4, arrayCount := 3, isSigned := true, isArray := true }

def nodeVar : VarInfo := { name := "s".toList, type := "node".toList, size := 8, isSigned := true }

/-- `a[i]` -/
def elementOfA (i : ℕ) : CStr := 'a' :: '[' :: (Nat.toDigits 10 i ++ [']'])

theorem print_array_elements_three : ∃ shown : ℕ → CStr,
    printExpression arrayAndNode .default "a".toList =
      { rc := 0, out := [arrayText arrayAndNode "a".toList "int[3]".toList
        ((List.range 3).map shown)] } ∧
    ∀ i < 3, printExpression arrayAndNode .default (elementOfA i) =
      shownAs (elementOfA i) (shown i) :=
  (@print_array_elements arrayAndNode threeInts 0x3000 (.ident "a".toList) "a".toList elementOfA
    (by decide +kernel) (by decide +kernel) rfl (by decide) (by decide) (by decide)
    (by decide +kernel)).2 (by decide +kernel)

/-- The pointer is `0` in the struct and an address on its own. -/
theorem print_struct_members_node :
    printExpression arrayAndNode .default "s.next".toList =
      shownAs "s.next".toList "0x0000000000000000".toList :=
  ((@print_struct_members arrayAndNode nodeVar 0x3004 _ (.ident "s".toList) "s".toList
    (fun m => 's' :: '.' :: m.name) (by decide +kernel) (by decide +kernel) rfl rfl rfl (by decide)
    (by decide +kernel)).2.2 _ (List.mem_cons_of_mem _ List.mem_cons_self) (by decide)).trans
    (by decide +kernel)

example : (printExpression arrayAndNode .default "a".toList).out =
      ["a = [-249 (0xffffff07), -1 (0xffffffff), 0 (0x0)]\n".toList] ∧
    (printExpression arrayAndNode .default "s".toList).out =
      ["s = \x7bkey=-1, next=0\x7d\n".toList] := by decide +kernel

end Debugger
