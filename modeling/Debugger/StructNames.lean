/-
Structs, arrays of them and the names of scalars.

`type_is_scalar` looks for the words of scalar types anywhere in the name of a type, so a
struct counts as one where its tag contains such a word (`typeIsScalar_identifier`).  Where it
does not, and the name of the array fits into its buffer, a struct and the elements of an array
of them have the size that the debug information gives, and `print` shows the members
(`struct_not_scalar_iff`).
-/
import Debugger.RoundTrip
import Debugger.Subscript

open Prog

namespace Debugger

/-- The words by which `type_is_scalar` knows a type without a star. -/
def scalarWords : List CStr :=
  ["char".toList, "short".toList, "int".toList, "long".toList, "bool".toList]

/-- The name of the type of an array of structs. -/
def structArray (tag : CStr) (length : ℕ) : CStr := (CType.array (.struct tag) length).name

/-! ### Names of types -/

section Names

variable {tag : CStr} {n : ℕ}

theorem structArray_eq : structArray tag n = tag ++ '[' :: (Nat.toDigits 10 n ++ [']']) := by
  simp [structArray, CType.name, CType.before, CType.after]

/-- An identifier has neither stars nor brackets. -/
theorem not_mem_identifier (h : isIdentifier tag = true) {c : Char} (hc : isIdentChar c = false) :
    c ∉ tag := by
  intro hmem
  cases tag with
  | nil => simp at hmem
  | cons d ds =>
    simp only [isIdentifier, Bool.and_eq_true, List.all_eq_true] at h
    rcases List.mem_cons.mp hmem with rfl | hmem
    · simp [isIdentChar, h.1] at hc
    · exact Bool.noConfusion ((h.2 c hmem).symm.trans hc)

theorem identifier_ne_nil (h : isIdentifier tag = true) : tag ≠ [] := by
  rintro rfl
  exact Bool.noConfusion h

/-- A struct counts as a scalar where its tag contains one of the words. -/
theorem typeIsScalar_identifier (h : isIdentifier tag = true) :
    typeIsScalar tag = false ↔ ∀ word ∈ scalarWords, strstr tag word = false := by
  have hstar : '*' ∉ tag := not_mem_identifier h (by decide)
  simp [typeIsScalar, scalarWords, hstar, and_assoc]

/-- A numeral at the start of a text is read by `strtoul`. -/
theorem strtoul_digits {c : Char} {cs rest : CStr} {m : ℕ} (hc : (digitValue 10 c).isSome = true)
    (h : digits 10 0 (c :: cs) = (m, rest)) :
    strtoul (c :: cs) = some (UInt64.ofNat (min m (2 ^ 64 - 1)), rest) := by
  have hspace := (not_space_of_digit hc).1
  rw [strtoul, List.dropWhile_cons_of_neg (by simp [hspace]), sign_of_digit hc]
  simp [hc, h]

/-- The text of a type is taken apart at its first bracket. -/
theorem split_at_bracket {count : CStr} (hbracket : '[' ∉ tag) :
    (tag ++ '[' :: count).takeWhile (· ≠ '[') = tag ∧
      (tag ++ '[' :: count).dropWhile (· ≠ '[') = '[' :: count := by
  have hpass : ∀ c ∈ tag, decide (c ≠ '[') = true := by
    intro c hc
    have hc' : c ≠ '[' := by
      rintro rfl
      exact hbracket hc
    simpa using hc'
  constructor
  · rw [List.takeWhile_append_of_pos hpass, List.takeWhile_cons_of_neg (by simp), List.append_nil]
  · rw [List.dropWhile_append_of_pos hpass, List.dropWhile_cons_of_neg (by simp)]

/-- A number and the closing bracket make an array of a type. -/
theorem parseArrayType_append {count rest : CStr} {v : UInt64} (hne : tag ≠ [])
    (hbracket : '[' ∉ tag) (hcount : strtoul count = some (v, ']' :: rest)) :
    parseArrayType (tag ++ '[' :: count) = some (snprintf maxTypeName tag, v.toNat) := by
  obtain ⟨htake, hdrop⟩ := @split_at_bracket tag count hbracket
  obtain ⟨c, cs, rfl⟩ := List.exists_cons_of_ne_nil hne
  simp only [parseArrayType, htake, hdrop, hcount]

/-- Where nothing follows the number, or there is none, the type is no array. -/
theorem parseArrayType_open {count : CStr} (hne : tag ≠ []) (hbracket : '[' ∉ tag)
    (hcount : ∀ r ∈ strtoul count, r.2 = []) :
    parseArrayType (tag ++ '[' :: count) = none := by
  obtain ⟨htake, hdrop⟩ := @split_at_bracket tag count hbracket
  obtain ⟨c, cs, rfl⟩ := List.exists_cons_of_ne_nil hne
  cases h : strtoul count with
  | none => simp only [parseArrayType, htake, hdrop, h]
  | some r =>
    obtain ⟨v, rest⟩ := r
    obtain rfl : rest = [] := hcount _ h
    simp only [parseArrayType, htake, hdrop, h]

/-- The name of an array that fits is read back. -/
theorem parseArrayType_structArray (h : isIdentifier tag = true) (hn : n < 2 ^ 64)
    (hfits : (structArray tag n).length < maxTypeName) :
    parseArrayType (structArray tag n) = some (tag, n) := by
  obtain ⟨c, cs, hcs, hc⟩ := exists_toDigits n
  have hread : digits 10 0 (c :: (cs ++ [']'])) = (n, [']']) := by
    rw [← List.cons_append, ← hcs]
    exact digits_numeral n (by decide)
  have htag : tag.length < maxTypeName := by
    rw [structArray_eq, List.length_append] at hfits
    omega
  have hcount : strtoul (Nat.toDigits 10 n ++ [']']) = some (UInt64.ofNat n, [']']) := by
    rw [hcs, List.cons_append, strtoul_digits hc hread, Nat.min_eq_left (by omega)]
  rw [structArray_eq, parseArrayType_append (identifier_ne_nil h)
    (not_mem_identifier h (by decide)) hcount, snprintf_of_lt htag, UInt64.toNat_ofNat',
    Nat.mod_eq_of_lt hn]

/-- A name that is cut off before its closing bracket is not that of an array. -/
theorem parseArrayType_cut (h : isIdentifier tag = true)
    (hcut : maxTypeName ≤ (structArray tag n).length) :
    parseArrayType (snprintf maxTypeName (structArray tag n)) = none := by
  have hbracket : '[' ∉ tag := not_mem_identifier h (by decide)
  rw [structArray_eq, snprintf] at *
  by_cases htag : maxTypeName - 1 ≤ tag.length
  · rw [List.take_append_of_le_length htag]
    exact parseArrayType_of_not_mem fun hmem => hbracket (List.mem_of_mem_take hmem)
  · obtain ⟨k, hk⟩ : ∃ k, maxTypeName - 1 = tag.length + (k + 1) :=
      ⟨maxTypeName - 1 - tag.length - 1, by omega⟩
    have hdigits : k ≤ (Nat.toDigits 10 n).length := by
      simp only [List.length_append, List.length_cons, List.length_nil] at hcut
      omega
    rw [hk, List.take_length_add_append, List.take_succ_cons, List.take_append_of_le_length hdigits]
    -- only digits are left behind the bracket
    refine parseArrayType_open (identifier_ne_nil h) hbracket ?_
    cases hcs : (Nat.toDigits 10 n).take k with
    | nil =>
      intro r hr
      cases hr
    | cons c cs =>
      have hall : ∀ d ∈ c :: cs, (digitValue 10 d).isSome = true := by
        intro d hd
        have hdigit := isDigit_of_mem_toDigits (List.mem_of_mem_take (hcs ▸ hd))
        simp [digitValue_of_isDigit hdigit]
      obtain ⟨m, hread⟩ : ∃ m, digits 10 0 (c :: cs) = (m, []) := by
        refine ⟨_, Prod.ext rfl ?_⟩
        simpa using @digits_rest 10 [] (c :: cs) 0 hall rfl
      rw [strtoul_digits (hall c List.mem_cons_self) hread]
      intro r hr
      cases hr
      rfl

end Names

/-! ### Variables of struct types -/

/-- The struct has its size and is shown as one: `v` is a variable of its type and `w` an array
of `n` of them. -/
structure TreatedAsStruct (info : DebugInfo) (env : EvalEnv) (tag : CStr) (byteSize : ℕ)
    (v w : CStr) (a b : Addr) (n : ℕ) : Prop where
  notScalar : typeIsScalar tag = false
  size : typeElementSize info tag = byteSize
  element : ∀ rhs idx, cdbgAstEval env rhs = some idx → idx.value.toNat < n →
    (cdbgAstResolveLvalue env (.index (.ident w) rhs)).map Prod.fst =
      some (b + idx.value * UInt64.ofNat byteSize)
  printed : ∃ var, cdbgAstResolveLvalue env (.ident v) = some (a, var) ∧ var.isArray = false ∧
    printAst env (.ident v) = some .aggregate

section Variables

variable {info : DebugInfo} {strtod : CStr → UInt64} {mem : Mem} {readable : Addr → Bool}
  {tag v w : CStr} {members : List StructMember} {byteSize n : ℕ} {a b : Addr}

/-- A type that is not a scalar has the size of its struct. -/
theorem typeElementSize_struct (hne : tag ≠ []) (hscalar : typeIsScalar tag = false)
    (hstruct : dwarfLookupStruct info tag = some (members, byteSize)) (hsize : 0 < byteSize) :
    typeElementSize info tag = byteSize := by
  rw [typeElementSize, if_neg hne, if_neg (by simp [hscalar]), hstruct]
  exact if_pos hsize

/-- An array whose name does not fit is taken for a number. -/
theorem index_of_cut (htag : isIdentifier tag = true)
    (hw : info.findVar w = some (structArray tag n, b))
    (hcut : maxTypeName ≤ (structArray tag n).length) (rhs : Ast) :
    cdbgAstResolveLvalue (info.env strtod mem readable) (.index (.ident w) rhs) = none := by
  have hstar : '*' ∉ snprintf maxTypeName (structArray tag n) := by
    intro hmem
    have hmem := List.mem_of_mem_take hmem
    rw [structArray_eq] at hmem
    simp only [List.mem_append, List.mem_cons, List.not_mem_nil, or_false] at hmem
    rcases hmem with hmem | hmem | hmem | hmem
    · exact not_mem_identifier htag (by decide) hmem
    · exact absurd hmem (by decide)
    · exact absurd (isDigit_of_mem_toDigits hmem) (by decide)
    · exact absurd hmem (by decide)
  have hbase : cdbgAstResolveLvalue (info.env strtod mem readable) (.ident w) =
      some (b, completeVarType info
        { name := w, type := snprintf maxTypeName (structArray tag n) }) := by
    show resolveVariableAddress info w = _
    simp only [resolveVariableAddress, hw]
  rw [cdbgAstResolveLvalue, hbase]
  cases cdbgAstEval (info.env strtod mem readable) rhs with
  | none => rfl
  | some idx =>
    simp [completeVarType, parseArrayType_cut htag hcut, typeIsPointer, hstar, resolveIndex]

/-- A struct is treated as one exactly where no word of a scalar is in its tag and the name of
the array fits. -/
theorem struct_not_scalar_iff (htag : isIdentifier tag = true)
    (hstruct : dwarfLookupStruct info tag = some (members, byteSize)) (hsize : 0 < byteSize)
    (hv : info.findVar v = some (tag, a)) (hw : info.findVar w = some (structArray tag n, b))
    (hpos : 0 < n) (hn : n < 2 ^ 64) :
    TreatedAsStruct info (info.env strtod mem readable) tag byteSize v w a b n ↔
      (∀ word ∈ scalarWords, strstr tag word = false) ∧
        (structArray tag n).length < maxTypeName := by
  constructor
  · intro h
    refine ⟨(typeIsScalar_identifier htag).mp h.notScalar, ?_⟩
    by_contra hcut
    have helement := h.element (.num 0) { value := 0 } rfl hpos
    rw [index_of_cut htag hw (Nat.le_of_not_lt hcut)] at helement
    simp at helement
  · rintro ⟨hwords, hfits⟩
    have hscalar := (typeIsScalar_identifier htag).mpr hwords
    have hsizeOf := typeElementSize_struct (identifier_ne_nil htag) hscalar hstruct hsize
    have htagFits : tag.length < maxTypeName := by
      rw [structArray_eq, List.length_append] at hfits
      omega
    refine ⟨hscalar, hsizeOf, ?_, ?_⟩
    · intro rhs idx hidx hlt
      have hbase : cdbgAstResolveLvalue (info.env strtod mem readable) (.ident w) =
          some (b, completeVarType info { name := w, type := structArray tag n }) :=
        resolveVariableAddress_of_findVar hw hfits
      have hin : ¬ n ≤ idx.value.toNat := Nat.not_le.mpr hlt
      rw [cdbgAstResolveLvalue, hbase, hidx]
      simp [completeVarType, parseArrayType_structArray htag hn hfits, resolveIndex, hin, hsizeOf]
    · have hres : cdbgAstResolveLvalue (info.env strtod mem readable) (.ident v) =
          some (a, completeVarType info { name := v, type := tag }) :=
        resolveVariableAddress_of_findVar hv htagFits
      have harray : parseArrayType tag = none :=
        parseArrayType_of_not_mem (not_mem_identifier htag (by decide))
      have hstar : '*' ∉ tag := not_mem_identifier htag (by decide)
      have hisStruct : (info.env strtod mem readable).isStruct tag = true := by
        simp [DebugInfo.env, hstruct]
      refine ⟨_, hres, by simp [completeVarType, harray], ?_⟩
      rw [printAst, if_pos (show cdbgAstIsLvalueShaped (.ident v) = true from rfl), hres]
      simp [completeVarType, harray, typeIsPointer, hstar, hscalar, hisStruct]

end Variables

/-! ### A point -/

/-- A program with a struct of the given tag, a variable `v` of it and an array `w` of two. -/
def oneStruct (tag : CStr) : DebugInfo where
  findVar name :=
    if name = "v".toList then some (tag, 0x1000)
    else if name = "w".toList then some (structArray tag 2, 0x2000) else none
  findStruct name :=
    if name = tag then some (16, [{ name := "x".toList, type := "long".toList, offset := 0 }])
    else none
  lookupSym _ := none

/-- `struct vec` -/
theorem struct_not_scalar_iff_vec :
    TreatedAsStruct (oneStruct "vec".toList)
        ((oneStruct "vec".toList).env (fun _ => 0) (fun _ => 0) fun _ => true) "vec".toList 16
        "v".toList "w".toList 0x1000 0x2000 2 ↔
      (∀ word ∈ scalarWords, strstr "vec".toList word = false) ∧
        (structArray "vec".toList 2).length < maxTypeName :=
  @struct_not_scalar_iff (oneStruct "vec".toList) (fun _ => 0) (fun _ => 0) (fun _ => true)
    "vec".toList "v".toList "w".toList _ 16 2 0x1000 0x2000 (by decide) rfl (by decide) rfl rfl
    (by decide) (by decide)

/-- `struct point` counts as an `int`. -/
theorem struct_counts_as_scalar :
    ¬ ∀ (info : DebugInfo) (strtod : CStr → UInt64) (mem : Mem) (readable : Addr → Bool)
      (tag v w : CStr) (members : List StructMember) (byteSize n : ℕ) (a b : Addr),
      isIdentifier tag = true → dwarfLookupStruct info tag = some (members, byteSize) →
      0 < byteSize → info.findVar v = some (tag, a) →
      info.findVar w = some (structArray tag n, b) → 0 < n → n < 2 ^ 64 →
      TreatedAsStruct info (info.env strtod mem readable) tag byteSize v w a b n := by
  intro h
  have hstruct := h (oneStruct "point".toList) (fun _ => 0) (fun _ => 0) (fun _ => true)
    "point".toList "v".toList "w".toList _ 16 2 0x1000 0x2000 (by decide) rfl (by decide) rfl rfl
    (by decide) (by decide)
  exact absurd hstruct.notScalar (by decide)

end Debugger
