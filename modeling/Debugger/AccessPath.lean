/-
Access paths.

`CDecls.locate` says where C finds the object that a path of `.`, `->` and `[index]` denotes,
and `CDecls.reach` where the path leads with the values that the debugger gives its indices.
`cdbg_ast_resolve_lvalue` follows a path with what it knows of the last object: the name of
its type, and whether it is a pointer or an array.  Only for a variable does it know that it
is an array, and behind a pointer it takes the text before the first star for the type.

* `tracked_of_followed` — along the paths of `Followed` it keeps up with the types of C;
* `lost_of_not_followed` — where it does not, it knows of neither a pointer nor an array any
  more, and every further step fails;
* `resolve_correct_iff` — so it finds the object of a path exactly where it has followed the
  path, its indices lead there and the entry of the last step has the object's size, or
  where its last step meets the object by chance.
-/
import Debugger.AstEval
import Debugger.CTypes

namespace Debugger

/-! ### The meaning of a path in C -/

/-- The declarations of a program at a stop: variables, and the members of structs; and the
values of the expressions that its paths take for indices. -/
structure CDecls where
  var : CStr → Option (CType × Addr)
  field : CStr → CStr → Option (CType × ℕ)
  structSize : CStr → ℕ
  value : Ast → Option ℤ

namespace CDecls

/-- The size of a type. -/
def size (D : CDecls) : CType → ℕ
  | .base _ size => size
  | .struct tag => D.structSize tag
  | .pointer _ => 8
  | .array element length => length * D.size element

/-- The address of an element. -/
def elementAddr (D : CDecls) (base : Addr) (n : ℤ) (element : CType) : Addr :=
  base + UInt64.ofInt (n * D.size element)

/-- The type and the address of the object that a path denotes, with these values of its
indices: `none` where the path is not well typed, an index of an array is out of range or a
pointer cannot be read. -/
def locateBy (D : CDecls) (value : Ast → Option ℤ) (env : EvalEnv) :
    Ast → Option (CType × Addr)
  | .ident name => D.var name
  | .member p name =>
    match D.locateBy value env p with
    | some (.struct tag, a) =>
      (D.field tag name).map fun f => (f.1, a + UInt64.ofNat f.2)
    | _ => none
  | .arrow p name =>
    match D.locateBy value env p with
    | some (.pointer (.struct tag), a) =>
      match readScalarValue env a 8, D.field tag name with
      | some ptr, some (type, offset) => some (type, ptr + UInt64.ofNat offset)
      | _, _ => none
    | some (.array (.struct tag) length, a) =>
      if length = 0 then none
      else (D.field tag name).map fun f => (f.1, a + UInt64.ofNat f.2)
    | _ => none
  | .index p i =>
    match D.locateBy value env p, value i with
    | some (.pointer target, a), some n =>
      (readScalarValue env a 8).map fun ptr => (target, D.elementAddr ptr n target)
    | some (.array element length, a), some n =>
      if 0 ≤ n ∧ n < length then some (element, D.elementAddr a n element) else none
    | _, _ => none
  | .num _ | .float _ | .binop .. | .unop .. => none

/-- The object that a path denotes in C. -/
def locate (D : CDecls) (env : EvalEnv) (e : Ast) : Option (CType × Addr) :=
  D.locateBy D.value env e

/-- Where the path leads with the debugger's values of its indices, which have 64 bits and
no sign. -/
def reach (D : CDecls) (env : EvalEnv) (e : Ast) : Option (CType × Addr) :=
  D.locateBy (fun i => (cdbgAstEval env i).map fun r => (r.value.toNat : ℤ)) env e

/-- The type of a path. -/
def typeOf (D : CDecls) : Ast → Option CType
  | .ident name => (D.var name).map (·.1)
  | .member p name =>
    match D.typeOf p with
    | some (.struct tag) => (D.field tag name).map (·.1)
    | _ => none
  | .arrow p name =>
    match D.typeOf p with
    | some (.pointer (.struct tag)) | some (.array (.struct tag) _) =>
      (D.field tag name).map (·.1)
    | _ => none
  | .index p _ =>
    match D.typeOf p with
    | some (.pointer element) | some (.array element _) => some element
    | _ => none
  | .num _ | .float _ | .binop .. | .unop .. => none

/-- The types of the declarations, and what they are built from. -/
inductive Knows (D : CDecls) : CType → Prop
  | var {name type a} (h : D.var name = some (type, a)) : Knows D type
  | field {tag name type offset} (h : D.field tag name = some (type, offset)) : Knows D type
  | target {type} (h : Knows D (.pointer type)) : Knows D type
  | element {type length} (h : Knows D (.array type length)) : Knows D type

/-- The entry of a variable is correct, apart from its size.  A star in the name of an array
may make it count as a pointer as well. -/
structure Describes (D : CDecls) (v : VarInfo) (t : CType) : Prop where
  type : v.type = t.name
  isArray : v.isArray = t.isArray
  starred : t.isArray = false → v.isPointer = t.starred
  unstarred : t.starred = false → v.isPointer = false
  element : ∀ u n, t = .array u n →
    v.elementType = u.name ∧ v.elementSize = D.size u ∧ v.arrayCount = n

/-- The lookups return the correct entries, and the names of types fit into their buffers.
Only of base types, of structs and of the elements of an array variable is the size asked
for: that of a member or a variable says nothing about the steps behind it. -/
structure Correct (D : CDecls) (env : EvalEnv) : Prop where
  named : ∀ type, D.Knows type → type.Named ∧ type.name.length < maxTypeName
  var : ∀ name type a, D.var name = some (type, a) →
    ∃ v, env.resolveVariableAddress name = some (a, v) ∧ D.Describes v type
  field : ∀ tag name type offset, D.field tag name = some (type, offset) →
    ∃ m, env.lookupStructMember tag name = some m ∧ m.type = type.name ∧ m.offset = offset
  element : ∀ type, D.Knows type → type.isPlain = true →
    env.typeElementSize type.name = D.size type

/-- The size in the entry of the last step: a variable and a member have the one that the
lookups give, an element that of its type. -/
def entrySize (D : CDecls) (env : EvalEnv) : Ast → Option ℕ
  | .ident name => (env.resolveVariableAddress name).map (·.2.size)
  | .member p name =>
    match D.typeOf p with
    | some (.struct tag) => (env.lookupStructMember tag name).map (·.size)
    | _ => none
  | .arrow p name =>
    match D.typeOf p with
    | some (.pointer (.struct tag)) => (env.lookupStructMember tag name).map (·.size)
    | _ => none
  | .index p i => (D.typeOf (.index p i)).map D.size
  | .num _ | .float _ | .binop .. | .unop .. => none

end CDecls

/-- The node is a variable. -/
def Ast.isIdent : Ast → Bool
  | .ident _ => true
  | _ => false

/-- The paths that the debugger follows: an index is only applied to an array variable or a
pointer to a base type or a struct, and `->` only to a pointer. -/
def Followed (D : CDecls) : Ast → Prop
  | .ident _ => True
  | .member p _ => Followed D p
  | .arrow p _ => Followed D p ∧ ∀ type, D.typeOf p = some type → type.isPointer = true
  | .index p _ => Followed D p ∧ ∀ type, D.typeOf p = some type →
      match type with
      | .pointer target => target.isPlain = true
      | _ => p.isIdent = true
  | .num _ | .float _ | .binop .. | .unop .. => False

/-- The last index of a path meets the object at `a` by chance: it is taken from what is
stored at the array or the pointer, as an element of the type that the name before its first
star says. -/
def MeetsByChance (D : CDecls) (env : EvalEnv) (e : Ast) (t : CType) (a : Addr) : Prop :=
  ∃ p i base b r ptr, e = .index p i ∧ Followed D p ∧ D.reach env p = some (base, b) ∧
    cdbgAstEval env i = some r ∧ base.starred = true ∧ (base.isArray && p.isIdent) = false ∧
    readScalarValue env b 8 = some ptr ∧
    env.typeElementSize (pointeeText base.name) = D.size t ∧
    ptr + r.value * UInt64.ofNat (D.size t) = a

/-- The paths whose object, of this type and at this address, the debugger finds. -/
def Resolvable (D : CDecls) (env : EvalEnv) (e : Ast) (t : CType) (a : Addr) : Prop :=
  (Followed D e ∧ D.reach env e = some (t, a) ∧ D.entrySize env e = some (D.size t)) ∨
    MeetsByChance D env e t a

/-! ### The types of a path -/

section Types

variable {D : CDecls} {env : EvalEnv} {value : Ast → Option ℤ} {p : Ast}

theorem typeOf_of_locateBy : ∀ {t : CType} {a : Addr},
    D.locateBy value env p = some (t, a) → D.typeOf p = some t := by
  induction p with
  | ident name =>
    intro t a h
    rw [CDecls.locateBy] at h
    rw [CDecls.typeOf, h]
    rfl
  | member p name ih =>
    intro t a h
    rw [CDecls.locateBy] at h
    split at h
    · rename_i hbase
      obtain ⟨f, hf, h⟩ := Option.map_eq_some_iff.mp h
      obtain ⟨rfl, -⟩ := Prod.mk.inj h
      rw [CDecls.typeOf, ih hbase]
      simp only [hf, Option.map_some]
    · simp at h
  | arrow p name ih =>
    intro t a h
    rw [CDecls.locateBy] at h
    split at h
    · rename_i hbase
      split at h
      · rename_i hf
        obtain ⟨rfl, -⟩ := Prod.mk.inj (Option.some.inj h)
        rw [CDecls.typeOf, ih hbase]
        simp only [hf, Option.map_some]
      · simp at h
    · rename_i hbase
      split at h
      · simp at h
      · obtain ⟨f, hf, h⟩ := Option.map_eq_some_iff.mp h
        obtain ⟨rfl, -⟩ := Prod.mk.inj h
        rw [CDecls.typeOf, ih hbase]
        simp only [hf, Option.map_some]
    · simp at h
  | index p i ih _ =>
    intro t a h
    rw [CDecls.locateBy] at h
    split at h
    · rename_i hbase _
      obtain ⟨ptr, -, h⟩ := Option.map_eq_some_iff.mp h
      obtain ⟨rfl, -⟩ := Prod.mk.inj h
      rw [CDecls.typeOf, ih hbase]
    · rename_i hbase _
      split at h
      · obtain ⟨rfl, -⟩ := Prod.mk.inj (Option.some.inj h)
        rw [CDecls.typeOf, ih hbase]
      · simp at h
    · simp at h
  | num _ | float _ | binop _ _ _ _ _ | unop _ _ _ =>
    intro t a h
    simp [CDecls.locateBy] at h

theorem knows_of_typeOf : ∀ {t : CType}, D.typeOf p = some t → D.Knows t := by
  induction p with
  | ident name =>
    intro t h
    obtain ⟨⟨t, a⟩, hvar, rfl⟩ := Option.map_eq_some_iff.mp h
    exact .var hvar
  | member p name ih =>
    intro t h
    rw [CDecls.typeOf] at h
    split at h
    · obtain ⟨⟨t, offset⟩, hfield, rfl⟩ := Option.map_eq_some_iff.mp h
      exact .field hfield
    · simp at h
  | arrow p name ih =>
    intro t h
    rw [CDecls.typeOf] at h
    split at h
    · obtain ⟨⟨t, offset⟩, hfield, rfl⟩ := Option.map_eq_some_iff.mp h
      exact .field hfield
    · obtain ⟨⟨t, offset⟩, hfield, rfl⟩ := Option.map_eq_some_iff.mp h
      exact .field hfield
    · simp at h
  | index p i ih _ =>
    intro t h
    rw [CDecls.typeOf] at h
    split at h
    · rename_i hbase
      obtain rfl := Option.some.inj h
      exact .target (ih hbase)
    · rename_i hbase
      obtain rfl := Option.some.inj h
      exact .element (ih hbase)
    · simp at h
  | num _ | float _ | binop _ _ _ _ _ | unop _ _ _ =>
    intro t h
    simp [CDecls.typeOf] at h

/-- An index is applied to a pointer or an array. -/
theorem base_of_typeOf_index {i : Ast} {t : CType} (h : D.typeOf (.index p i) = some t) :
    ∃ base, D.typeOf p = some base ∧ (base = .pointer t ∨ ∃ n, base = .array t n) := by
  rw [CDecls.typeOf] at h
  split at h
  · rename_i hbase
    obtain rfl := Option.some.inj h
    exact ⟨_, hbase, .inl rfl⟩
  · rename_i n hbase
    obtain rfl := Option.some.inj h
    exact ⟨_, hbase, .inr ⟨n, rfl⟩⟩
  · simp at h

/-- The debugger's address of an element. -/
theorem elementAddr_value (a : Addr) (n : UInt64) (t : CType) :
    D.elementAddr a n.toNat t = a + n * UInt64.ofNat (D.size t) := by
  have hcast : ∀ k : ℕ, UInt64.ofInt k = UInt64.ofNat k := by
    intro k
    apply UInt64.toNat_inj.mp
    rw [UInt64.ofInt, UInt64.toNat_ofNat', UInt64.toNat_ofNat']
    omega
  rw [CDecls.elementAddr, UInt64.ofInt_mul, hcast, hcast, UInt64.ofNat_toNat]

end Types

/-! ### Following a path -/

section Follow

variable {D : CDecls} {env : EvalEnv} {p e i : Ast} {t : CType} {a b : Addr}
  {v : VarInfo}

theorem reach_index : D.reach env (.index p i) =
    match D.reach env p, cdbgAstEval env i with
    | some (.pointer target, a), some r =>
      (readScalarValue env a 8).map fun ptr =>
        (target, ptr + r.value * UInt64.ofNat (D.size target))
    | some (.array element length, a), some r =>
      if r.value.toNat < length then
        some (element, a + r.value * UInt64.ofNat (D.size element))
      else none
    | _, _ => none := by
  rw [CDecls.reach, CDecls.locateBy, ← CDecls.reach]
  cases D.reach env p with
  | none => rfl
  | some base =>
    obtain ⟨type, a⟩ := base
    cases cdbgAstEval env i with
    | none => cases type <;> rfl
    | some r =>
      cases type with
      | base _ _ | struct _ => rfl
      | pointer target => simp only [Option.map_some, elementAddr_value]
      | array element length =>
        have hrange : (0 ≤ (r.value.toNat : ℤ) ∧ (r.value.toNat : ℤ) < length) ↔
            r.value.toNat < length := by omega
        simp only [Option.map_some, elementAddr_value, hrange]

/-- What the debugger knows of an object that it has followed a path to. -/
structure Tracked (D : CDecls) (env : EvalEnv) (e : Ast) (v : VarInfo) (t : CType) : Prop where
  type : v.type = t.name
  size : D.entrySize env e = some v.size
  isArray : v.isArray = (t.isArray && e.isIdent)
  starred : (t.isArray && e.isIdent) = false → v.isPointer = t.starred
  unstarred : t.starred = false → v.isPointer = false
  element : ∀ u n, t = .array u n → e.isIdent = true →
    v.elementType = u.name ∧ v.elementSize = D.size u ∧ v.arrayCount = n

theorem snprintf_name (hD : D.Correct env) (h : D.Knows t) :
    snprintf maxTypeName t.name = t.name :=
  List.take_of_length_le (Nat.le_pred_of_lt (hD.named t h).2)

/-- A member or an element is known by the name and the size of its type. -/
theorem tracked_of_name (hD : D.Correct env) (h : D.Knows t) (he : e.isIdent = false)
    (htype : v.type = t.name) (hsize : D.entrySize env e = some v.size)
    (harray : v.isArray = false) (hpointer : v.isPointer = typeIsPointer t.name) :
    Tracked D env e v t := by
  have hstar := CType.name_contains_star (hD.named t h).1
  refine ⟨htype, hsize, ?_, fun _ => hpointer.trans hstar, fun h => ?_, ?_⟩
  · simp [harray, he]
  · rw [hpointer, hstar, h]
  · intro _ _ _ hident
    exact absurd hident (by simp [he])

theorem tracked_memberLocation (hD : D.Correct env) {tag name : CStr} {offset : ℕ}
    (hfield : D.field tag name = some (t, offset)) (he : e.isIdent = false)
    (hentry : D.entrySize env e = (env.lookupStructMember tag name).map (·.size)) :
    ∃ v, memberLocation env tag a name = some (a + UInt64.ofNat offset, v) ∧
      Tracked D env e v t := by
  obtain ⟨m, hm, htype, rfl⟩ := hD.field tag name t offset hfield
  have hname : snprintf maxTypeName m.type = t.name := by
    rw [htype]
    exact snprintf_name hD (.field hfield)
  have hloc : memberLocation env tag a name = some (a + UInt64.ofNat m.offset,
      { name := snprintf maxTypeName name, type := t.name, size := m.size,
        isSigned := m.isSigned, isPointer := typeIsPointer t.name }) := by
    rw [memberLocation, hm]
    simp only [Option.bind_eq_bind, Option.bind_some, hname]
  rw [hm] at hentry
  exact ⟨_, hloc, tracked_of_name hD (.field hfield) he rfl hentry rfl rfl⟩

theorem tracked_elementVar (hD : D.Correct env) (ht : D.typeOf (.index p i) = some t) :
    Tracked D env (.index p i) (elementVar t.name (D.size t)) t := by
  have h := knows_of_typeOf ht
  refine tracked_of_name hD h rfl (snprintf_name hD h) ?_ rfl rfl
  rw [CDecls.entrySize, ht]
  rfl

/-- The type behind a pointer to a base type or a struct. -/
theorem pointee_of_plain (hD : D.Correct env) (h : D.Knows (.pointer t))
    (hplain : t.isPlain = true) (hv : v.type = (CType.pointer t).name) :
    pointerPointeeType v = t.name := by
  rw [pointerPointeeType, hv, CType.pointeeText_name hplain (hD.named _ h.target).1,
    snprintf_name hD h.target]

/-- A base type or a struct is no pointer, and not an array of pointers. -/
theorem CType.starred_of_plain (h : t.isPlain = true) : t.starred = false := by
  cases t with
  | base _ _ | struct _ => rfl
  | pointer _ | array _ _ => exact Bool.noConfusion h

/-- The pointer branch of an index: what is stored at the location is taken for a pointer to
the type that the name before its first star says. -/
theorem resolveIndex_pointer {r : ExprResult} (hD : D.Correct env) (hknows : D.Knows t)
    (hv : Tracked D env p v t) (harray : v.isArray = false) :
    resolveIndex env (some (a, v)) (some r) =
      if t.starred = true then
        (readScalarValue env a 8).map fun ptr =>
          (ptr + r.value * UInt64.ofNat (env.typeElementSize (pointeeText t.name)),
            elementVar (pointeeText t.name) (env.typeElementSize (pointeeText t.name)))
      else none := by
  have hstarred := hv.starred (hv.isArray ▸ harray)
  have hpointee : pointerPointeeType v = pointeeText t.name := by
    rw [pointerPointeeType, hv.type]
    refine List.take_of_length_le (Nat.le_trans ?_ (Nat.le_pred_of_lt (hD.named t hknows).2))
    unfold pointeeText
    split
    · rw [List.length_reverse]
      exact Nat.le_trans (List.dropWhile_sublist _).length_le
        (by rw [List.length_reverse]; exact (List.takeWhile_sublist _).length_le)
    · exact Nat.le_refl _
  simp only [resolveIndex, Option.bind_eq_bind, Option.bind_some, harray, hstarred, hpointee,
    Bool.false_eq_true, if_false]
  split
  · cases readScalarValue env a 8 <;> rfl
  · rfl

/-- Along the paths that the debugger follows it gets where its indices lead, and knows of
the object there what the next step needs. -/
theorem tracked_of_followed (hD : D.Correct env) : ∀ {t : CType} {a : Addr},
    Followed D p → D.reach env p = some (t, a) →
    ∃ v, cdbgAstResolveLvalue env p = some (a, v) ∧ Tracked D env p v t := by
  induction p with
  | ident name =>
    intro t a _ h
    -- a variable is described as it is declared
    obtain ⟨v, hv, hdesc⟩ := hD.var name t a h
    refine ⟨v, hv, hdesc.type, ?_, ?_, fun hnot => hdesc.starred ?_, hdesc.unstarred,
      fun u n ht _ => hdesc.element u n ht⟩
    · rw [CDecls.entrySize, hv]
      rfl
    · rw [hdesc.isArray, Ast.isIdent, Bool.and_true]
    · simpa [Ast.isIdent] using hnot
  | member p name ih =>
    intro t a hp h
    rw [CDecls.reach, CDecls.locateBy, ← CDecls.reach] at h
    split at h
    · rename_i tag b hbase
      obtain ⟨⟨t', offset⟩, hfield, h⟩ := Option.map_eq_some_iff.mp h
      obtain ⟨rfl, rfl⟩ := Prod.mk.inj h
      obtain ⟨v, hv, htracked⟩ := ih hp hbase
      have htype := typeOf_of_locateBy hbase
      obtain ⟨w, hw, hmember⟩ := tracked_memberLocation (a := b) (e := .member p name) hD
        hfield rfl (by rw [CDecls.entrySize, htype])
      refine ⟨w, ?_, hmember⟩
      -- the struct is looked up under the name of the tracked type
      have htag : snprintf maxTypeName v.type = tag := by
        rw [htracked.type, snprintf_name hD (knows_of_typeOf htype)]
        exact List.append_nil tag
      rw [cdbgAstResolveLvalue, hv]
      simp only [resolveMember, Option.bind_eq_bind, Option.bind_some, htag, hw]
    · simp at h
  | arrow p name ih =>
    intro t a hp h
    rw [CDecls.reach, CDecls.locateBy, ← CDecls.reach] at h
    split at h
    · rename_i tag b hbase
      split at h
      · rename_i ptr t' offset hread hfield
        obtain ⟨rfl, rfl⟩ := Prod.mk.inj (Option.some.inj h)
        obtain ⟨v, hv, htracked⟩ := ih hp.1 hbase
        have htype := typeOf_of_locateBy hbase
        obtain ⟨w, hw, hmember⟩ := tracked_memberLocation (a := ptr) (e := .arrow p name) hD
          hfield rfl (by rw [CDecls.entrySize, htype])
        refine ⟨w, ?_, hmember⟩
        -- the struct is named by the text before the star
        have htag : pointerPointeeType v = tag := by
          rw [pointee_of_plain hD (knows_of_typeOf htype) rfl htracked.type]
          exact List.append_nil tag
        have hpointer : v.isPointer = true := htracked.starred rfl
        rw [cdbgAstResolveLvalue, hv]
        simp only [resolveArrow, Option.bind_eq_bind, Option.bind_some, hpointer, Bool.not_true,
          Bool.false_eq_true, if_false, hread, htag, hw]
      · simp at h
    · -- `->` on an array is not followed
      rename_i tag n b hbase
      exact absurd (hp.2 _ (typeOf_of_locateBy hbase)) (by simp [CType.isPointer])
    · simp at h
  | index p i ih _ =>
    intro t a hp h
    have htype : D.typeOf (.index p i) = some t := typeOf_of_locateBy h
    rw [reach_index] at h
    split at h
    · rename_i target b r hbase hindex
      obtain ⟨ptr, hread, h⟩ := Option.map_eq_some_iff.mp h
      obtain ⟨rfl, rfl⟩ := Prod.mk.inj h
      obtain ⟨v, hv, htracked⟩ := ih hp.1 hbase
      have hknows := knows_of_typeOf (typeOf_of_locateBy hbase)
      -- an element behind a pointer: its name is cut off at the first star
      have hplain : target.isPlain = true := hp.2 _ (typeOf_of_locateBy hbase)
      have hname : pointeeText (CType.pointer target).name = target.name :=
        CType.pointeeText_name hplain (hD.named _ hknows.target).1
      refine ⟨elementVar target.name (D.size target), ?_, tracked_elementVar hD htype⟩
      rw [cdbgAstResolveLvalue, hv, hindex,
        resolveIndex_pointer hD hknows htracked htracked.isArray,
        if_pos (show (CType.pointer target).starred = true from rfl), hread, hname,
        hD.element target hknows.target hplain]
      rfl
    · rename_i u n b r hbase hindex
      split at h
      · rename_i hrange
        obtain ⟨rfl, rfl⟩ := Prod.mk.inj (Option.some.inj h)
        obtain ⟨v, hv, htracked⟩ := ih hp.1 hbase
        -- an element of an array, which only a variable is known to be
        have hident : p.isIdent = true := hp.2 _ (typeOf_of_locateBy hbase)
        have harray : v.isArray = true := by rw [htracked.isArray, hident]; rfl
        obtain ⟨helem, hsize, hcount⟩ := htracked.element u n rfl hident
        refine ⟨elementVar u.name (D.size u), ?_, tracked_elementVar hD htype⟩
        rw [cdbgAstResolveLvalue, hv, hindex]
        simp only [resolveIndex, Option.bind_eq_bind, Option.bind_some, harray, if_true, hcount,
          helem, hsize]
        rw [if_neg (by omega)]
      · simp at h
    · simp at h
  | num _ | float _ | binop _ _ _ _ _ | unop _ _ _ =>
    intro t a _ h
    simp [CDecls.reach, CDecls.locateBy] at h

/-- Where the indices of a followed path lead nowhere, the debugger fails as well. -/
theorem fails_of_not_reached (hD : D.Correct env) : ∀ {t : CType}, Followed D p →
    D.typeOf p = some t → D.reach env p = none → cdbgAstResolveLvalue env p = none := by
  induction p with
  | ident name =>
    intro t _ ht h
    -- a variable has a type and an address, or neither
    have hvar : D.var name = none := h
    rw [CDecls.typeOf, hvar] at ht
    simp at ht
  | member p name ih =>
    intro t hp ht h
    rw [CDecls.typeOf] at ht
    split at ht
    · rename_i tag hbase
      cases hreach : D.reach env p with
      | none =>
        rw [cdbgAstResolveLvalue, ih hp hbase hreach]
        rfl
      | some base =>
        obtain ⟨type, b⟩ := base
        obtain rfl : type = .struct tag :=
          Option.some.inj ((typeOf_of_locateBy hreach).symm.trans hbase)
        obtain ⟨f, hfield, -⟩ := Option.map_eq_some_iff.mp ht
        rw [CDecls.reach, CDecls.locateBy, ← CDecls.reach, hreach] at h
        simp [hfield] at h
    · simp at ht
  | arrow p name ih =>
    intro t hp ht h
    rw [CDecls.typeOf] at ht
    split at ht
    · rename_i tag hbase
      cases hreach : D.reach env p with
      | none =>
        rw [cdbgAstResolveLvalue, ih hp.1 hbase hreach]
        rfl
      | some base =>
        obtain ⟨type, b⟩ := base
        obtain rfl : type = .pointer (.struct tag) :=
          Option.some.inj ((typeOf_of_locateBy hreach).symm.trans hbase)
        obtain ⟨f, hfield, -⟩ := Option.map_eq_some_iff.mp ht
        obtain ⟨v, hv, htracked⟩ := tracked_of_followed hD hp.1 hreach
        -- only the read of the pointer can have failed
        have hread : readScalarValue env b 8 = none := by
          rw [CDecls.reach, CDecls.locateBy, ← CDecls.reach, hreach] at h
          cases hread : readScalarValue env b 8 with
          | none => rfl
          | some ptr => simp [hread, hfield] at h
        rw [cdbgAstResolveLvalue, hv]
        simp [resolveArrow, hread]
    · rename_i tag n hbase
      exact absurd (hp.2 _ hbase) (by simp [CType.isPointer])
    · simp at ht
  | index p i ih _ =>
    intro t hp ht h
    obtain ⟨base, hbase, hform⟩ := base_of_typeOf_index ht
    cases hreach : D.reach env p with
    | none =>
      rw [cdbgAstResolveLvalue, ih hp.1 hbase hreach]
      rfl
    | some located =>
      obtain ⟨type, b⟩ := located
      obtain rfl : type = base :=
        Option.some.inj ((typeOf_of_locateBy hreach).symm.trans hbase)
      obtain ⟨v, hv, htracked⟩ := tracked_of_followed hD hp.1 hreach
      cases hindex : cdbgAstEval env i with
      | none =>
        rw [cdbgAstResolveLvalue, hv, hindex]
        rfl
      | some r =>
        rw [reach_index, hreach, hindex] at h
        rcases hform with rfl | ⟨n, rfl⟩
        · -- the pointer cannot be read
          have hread : readScalarValue env b 8 = none := Option.map_eq_none_iff.mp h
          rw [cdbgAstResolveLvalue, hv, hindex, resolveIndex_pointer hD (knows_of_typeOf hbase)
            htracked htracked.isArray, hread]
          split <;> rfl
        · -- the index is out of range
          have hident : p.isIdent = true := hp.2 _ hbase
          have harray : v.isArray = true := by rw [htracked.isArray, hident]; rfl
          obtain ⟨-, -, hcount⟩ := htracked.element t n rfl hident
          have hrange : r.value.toNat ≥ v.arrayCount := by
            rw [hcount]
            by_contra hlt
            simp [Nat.not_le.mp hlt] at h
          rw [cdbgAstResolveLvalue, hv, hindex]
          simp [resolveIndex, harray, hrange]
  | num _ | float _ | binop _ _ _ _ _ | unop _ _ _ =>
    intro t hp
    exact hp.elim

end Follow

/-! ### Losing a path -/

section Lose

variable {D : CDecls} {env : EvalEnv} {p e i : Ast} {t base : CType} {a b : Addr} {v : VarInfo}

/-- An index goes through the pointer branch unless it is applied to an array variable. -/
theorem resolve_index {r : ExprResult} (hD : D.Correct env) (hp : Followed D p)
    (hbase : D.reach env p = some (base, b)) (hindex : cdbgAstEval env i = some r)
    (hvar : (base.isArray && p.isIdent) = false) :
    cdbgAstResolveLvalue env (.index p i) =
      if base.starred = true then
        (readScalarValue env b 8).map fun ptr =>
          (ptr + r.value * UInt64.ofNat (env.typeElementSize (pointeeText base.name)),
            elementVar (pointeeText base.name) (env.typeElementSize (pointeeText base.name)))
      else none := by
  obtain ⟨v, hv, htracked⟩ := tracked_of_followed hD hp hbase
  rw [cdbgAstResolveLvalue, hv, hindex,
    resolveIndex_pointer hD (knows_of_typeOf (typeOf_of_locateBy hbase)) htracked
      (htracked.isArray.trans hvar)]

/-- Of what an index is applied to where it is not followed. -/
theorem base_of_not_followed (hp : Followed D p) (hbase : D.typeOf p = some base)
    (hnot : ¬ Followed D (.index p i)) :
    (base.isArray && p.isIdent) = false ∧ (base = .pointer t → t.isPlain = false) := by
  rw [Followed] at hnot
  constructor
  · rw [← Bool.not_eq_true, Bool.and_eq_true]
    rintro ⟨harray, hident⟩
    refine hnot ⟨hp, fun t' h' => ?_⟩
    obtain rfl := Option.some.inj (hbase.symm.trans h')
    cases base with
    | pointer _ => exact Bool.noConfusion harray
    | base _ _ | struct _ | array _ _ => exact hident
  · rintro rfl
    rw [← Bool.not_eq_true]
    intro hplain
    refine hnot ⟨hp, fun t' h' => ?_⟩
    obtain rfl := Option.some.inj (hbase.symm.trans h')
    exact hplain

/-- Where the debugger does not follow a path, it fails, or it has an element before it of
which it takes neither a pointer nor an array. -/
theorem lost_of_not_followed (hD : D.Correct env) : ∀ {t : CType},
    ¬ Followed D p → D.typeOf p = some t →
    cdbgAstResolveLvalue env p = none ∨
      (∃ q i, p = .index q i) ∧ t.isPlain = false ∧
        ∃ b v, cdbgAstResolveLvalue env p = some (b, v) ∧ v.isPointer = false ∧
          v.isArray = false := by
  induction p with
  | ident name =>
    intro t hnot _
    exact absurd trivial hnot
  | member p name ih =>
    intro t hnot h
    refine .inl ?_
    rw [CDecls.typeOf] at h
    split at h
    · rename_i hbase
      -- a struct is plain, so the path before it has failed
      rcases ih hnot hbase with hnone | ⟨-, hplain, -⟩
      · rw [cdbgAstResolveLvalue, hnone]
        rfl
      · exact Bool.noConfusion hplain
    · simp at h
  | arrow p name ih =>
    intro t hnot h
    refine .inl ?_
    -- `->` fails on what is not known to be a pointer
    have hstuck : ∀ {b : Addr} {v : VarInfo}, cdbgAstResolveLvalue env p = some (b, v) →
        v.isPointer = false → cdbgAstResolveLvalue env (.arrow p name) = none := by
      intro b v hv hpointer
      rw [cdbgAstResolveLvalue, hv]
      simp [resolveArrow, hpointer]
    have hfails : cdbgAstResolveLvalue env p = none →
        cdbgAstResolveLvalue env (.arrow p name) = none := by
      intro hnone
      rw [cdbgAstResolveLvalue, hnone]
      rfl
    have hlost : ∀ {base : CType}, D.typeOf p = some base → ¬ Followed D p →
        cdbgAstResolveLvalue env (.arrow p name) = none := by
      intro base hbase hp
      rcases ih hp hbase with hnone | ⟨-, -, b', v, hv, hpointer, -⟩
      · exact hfails hnone
      · exact hstuck hv hpointer
    rw [CDecls.typeOf] at h
    split at h
    · rename_i hbase
      -- a pointer to a struct would have been followed
      by_cases hp : Followed D p
      · refine absurd ⟨hp, fun t' h' => ?_⟩ hnot
        obtain rfl := Option.some.inj (hbase.symm.trans h')
        rfl
      · exact hlost hbase hp
    · rename_i hbase
      -- an array is never known to be a pointer
      by_cases hp : Followed D p
      · cases hreach : D.reach env p with
        | none => exact hfails (fails_of_not_reached hD hp hbase hreach)
        | some located =>
          obtain ⟨type, b⟩ := located
          obtain ⟨v, hv, htracked⟩ := tracked_of_followed hD hp hreach
          obtain rfl := Option.some.inj ((typeOf_of_locateBy hreach).symm.trans hbase)
          exact hstuck hv (htracked.unstarred rfl)
      · exact hlost hbase hp
    · simp at h
  | index p i ih _ =>
    intro t hnot h
    obtain ⟨base, hbase, hform⟩ := base_of_typeOf_index h
    cases hindex : cdbgAstEval env i with
    | none =>
      refine .inl ?_
      rw [cdbgAstResolveLvalue, hindex]
      cases cdbgAstResolveLvalue env p <;> rfl
    | some r =>
      by_cases hp : Followed D p
      · cases hreach : D.reach env p with
        | none =>
          refine .inl ?_
          rw [cdbgAstResolveLvalue, fails_of_not_reached hD hp hbase hreach]
          rfl
        | some located =>
          obtain ⟨type, b⟩ := located
          obtain rfl := Option.some.inj ((typeOf_of_locateBy hreach).symm.trans hbase)
          -- the path is lost at this index
          obtain ⟨hvar, hplain⟩ := base_of_not_followed (t := t) hp hbase hnot
          rw [resolve_index hD hp hreach hindex hvar]
          split
          · rename_i hstarred
            cases readScalarValue env b 8 with
            | none => exact .inl rfl
            | some ptr =>
              refine .inr ⟨⟨p, i, rfl⟩, ?_, _, _, rfl, ?_, rfl⟩
              · rcases hform with rfl | ⟨n, rfl⟩
                · exact hplain rfl
                · rw [← Bool.not_eq_true]
                  intro ht
                  exact Bool.noConfusion ((CType.starred_of_plain ht).symm.trans hstarred)
              · -- the text before the first star has no star
                have hno := @CType.not_mem_pointeeText type.name
                simpa [elementVar, typeIsPointer] using hno
          · exact .inl rfl
      · -- the path was lost before, and the index has nothing to start from
        refine .inl ?_
        rw [cdbgAstResolveLvalue, hindex]
        rcases ih hp hbase with hnone | ⟨-, -, b', v, hv, hpointer, harray⟩
        · rw [hnone]
          rfl
        · rw [hv]
          simp [resolveIndex, hpointer, harray]
  | num _ | float _ | binop _ _ _ _ _ | unop _ _ _ =>
    intro t hnot h
    simp [CDecls.typeOf] at h

/-- A chance hit is what the debugger takes for the object. -/
theorem resolve_of_chance (hD : D.Correct env) (h : MeetsByChance D env e t a) :
    ∃ v, cdbgAstResolveLvalue env e = some (a, v) ∧ v.size = D.size t := by
  obtain ⟨p, i, base, b, r, ptr, rfl, hp, hbase, hindex, hstarred, hvar, hread, hsize, rfl⟩ := h
  rw [resolve_index hD hp hbase hindex hvar, if_pos hstarred, hread, hsize]
  exact ⟨_, rfl, rfl⟩

/-- What the debugger finds at the end of a path that it does not follow, it finds by
chance. -/
theorem chance_of_not_followed (hD : D.Correct env) (ht : D.typeOf e = some t)
    (hnot : ¬ Followed D e) (hv : cdbgAstResolveLvalue env e = some (a, v))
    (hsize : v.size = D.size t) : MeetsByChance D env e t a := by
  -- only an index in the last place gives an object at all
  rcases lost_of_not_followed hD hnot ht with hnone | ⟨⟨p, i, rfl⟩, -, -⟩
  · rw [hnone] at hv
    simp at hv
  obtain ⟨base, hbase, -⟩ := base_of_typeOf_index ht
  cases hindex : cdbgAstEval env i with
  | none =>
    rw [cdbgAstResolveLvalue, hindex] at hv
    cases hp : cdbgAstResolveLvalue env p <;> simp [resolveIndex, hp] at hv
  | some r =>
    by_cases hp : Followed D p
    · cases hreach : D.reach env p with
      | none =>
        rw [cdbgAstResolveLvalue, fails_of_not_reached hD hp hbase hreach] at hv
        simp [resolveIndex] at hv
      | some located =>
        obtain ⟨type, b⟩ := located
        obtain rfl := Option.some.inj ((typeOf_of_locateBy hreach).symm.trans hbase)
        obtain ⟨hvar, -⟩ := base_of_not_followed (t := t) hp hbase hnot
        rw [resolve_index hD hp hreach hindex hvar] at hv
        split at hv
        · rename_i hstarred
          obtain ⟨ptr, hread, hv⟩ := Option.map_eq_some_iff.mp hv
          obtain ⟨haddr, rfl⟩ := Prod.mk.inj hv
          have helem : env.typeElementSize (pointeeText type.name) = D.size t := hsize
          refine ⟨p, i, type, b, r, ptr, rfl, hp, hreach, hindex, hstarred, hvar, hread, helem, ?_⟩
          rw [← haddr, helem]
        · simp at hv
    · -- the path was lost before its last index
      rw [cdbgAstResolveLvalue, hindex] at hv
      rcases lost_of_not_followed hD hp hbase with hnone | ⟨-, -, b', w, hw, hpointer, harray⟩
      · rw [hnone] at hv
        simp [resolveIndex] at hv
      · rw [hw] at hv
        simp [resolveIndex, hpointer, harray] at hv

/-- The debugger finds the object that a path denotes exactly where it follows the path, its
indices lead to the object and the entry of the last step has the object's size, or where
the last index meets it by chance. -/
theorem resolve_correct_iff (hD : D.Correct env) (h : D.locate env e = some (t, a)) :
    (∃ v, cdbgAstResolveLvalue env e = some (a, v) ∧ v.size = D.size t) ↔
      Resolvable D env e t a := by
  have ht : D.typeOf e = some t := typeOf_of_locateBy h
  constructor
  · rintro ⟨v, hv, hsize⟩
    by_cases hfollowed : Followed D e
    · cases hreach : D.reach env e with
      | none =>
        rw [fails_of_not_reached hD hfollowed ht hreach] at hv
        simp at hv
      | some located =>
        obtain ⟨type, b⟩ := located
        obtain ⟨w, hw, htracked⟩ := tracked_of_followed hD hfollowed hreach
        obtain rfl := Option.some.inj ((typeOf_of_locateBy hreach).symm.trans ht)
        obtain ⟨rfl, rfl⟩ := Prod.mk.inj (Option.some.inj (hw.symm.trans hv))
        exact .inl ⟨hfollowed, hreach, hsize ▸ htracked.size⟩
    · exact .inr (chance_of_not_followed hD ht hfollowed hv hsize)
  · rintro (⟨hfollowed, hreach, hentry⟩ | hchance)
    · obtain ⟨v, hv, htracked⟩ := tracked_of_followed hD hfollowed hreach
      exact ⟨v, hv, Option.some.inj (htracked.size.symm.trans hentry)⟩
    · exact resolve_of_chance hD hchance

end Lose

/-! ### A program with arrays, structs and pointers -/

/-- `int` -/
def intType : CType := .base "int".toList 4

/-- `struct node` -/
def nodeType : CType := .struct "node".toList

/-- A program with `struct node { int val; struct node *next; }` and the variables
`struct node nodes[2]`, `int data[2]`, `int i` and `int **pp`; `i` is 1. -/
def listDecls : CDecls where
  var name :=
    if name = "nodes".toList then some (.array nodeType 2, 0x1000)
    else if name = "data".toList then some (.array intType 2, 0x4000)
    else if name = "i".toList then some (intType, 0x2000)
    else if name = "pp".toList then some (.pointer (.pointer intType), 0x3000)
    else none
  field tag name :=
    if tag = "node".toList then
      if name = "val".toList then some (intType, 0)
      else if name = "next".toList then some (.pointer nodeType, 8)
      else none
    else none
  structSize _ := 16
  value e := if e = .ident "i".toList then some 1 else if e = .num 0 then some 0 else none

/-- The program's debug information, with the debugger's own lookups.  `nodes[1].next` points
to `nodes[0]`. -/
def listEnv : EvalEnv :=
  DebugInfo.env
    { findVar := fun name =>
        if name = "nodes".toList then some ("node[2]".toList, 0x1000)
        else if name = "data".toList then some ("int[2]".toList, 0x4000)
        else if name = "i".toList then some ("int".toList, 0x2000)
        else if name = "pp".toList then some ("int **".toList, 0x3000)
        else none,
      findStruct := fun tag =>
        if tag = "node".toList then
          some (16, [⟨"val".toList, "int".toList, 0⟩, ⟨"next".toList, "node *".toList, 8⟩])
        else none,
      lookupSym := fun _ => none }
    (fun _ => 0) (fun a => if a = 0x2000 then 1 else if a = 0x1019 then 0x10 else 0)
    fun _ => true

theorem listDecls_knows {t : CType} (h : listDecls.Knows t) :
    t ∈ [.array nodeType 2, nodeType, .pointer nodeType, intType, .array intType 2,
      .pointer (.pointer intType), .pointer intType] := by
  induction h with
  | var h =>
    simp only [listDecls] at h
    split_ifs at h <;> (obtain ⟨rfl, -⟩ := Prod.mk.inj (Option.some.inj h); decide)
  | field h =>
    simp only [listDecls] at h
    split_ifs at h <;> (obtain ⟨rfl, -⟩ := Prod.mk.inj (Option.some.inj h); decide)
  | target _ ih =>
    simp only [List.mem_cons, List.not_mem_nil, or_false, nodeType, intType, reduceCtorEq,
      false_or, CType.pointer.injEq] at ih
    rcases ih with rfl | rfl | rfl <;> decide
  | element _ ih =>
    simp only [List.mem_cons, List.not_mem_nil, or_false, nodeType, intType, reduceCtorEq,
      false_or, CType.array.injEq] at ih
    rcases ih with ⟨rfl, -⟩ | ⟨rfl, -⟩ <;> decide

/-- The debugger's own lookups are correct for the program. -/
theorem listDecls_correct : listDecls.Correct listEnv where
  named t h := by
    have hint : CType.PlainName "int".toList := ⟨by decide, by decide⟩
    have hnode : CType.PlainName "node".toList := ⟨by decide, by decide⟩
    have hmem := listDecls_knows h
    simp only [List.mem_cons, List.not_mem_nil, or_false] at hmem
    rcases hmem with rfl | rfl | rfl | rfl | rfl | rfl | rfl
    · exact ⟨hnode, by decide⟩
    · exact ⟨hnode, by decide⟩
    · exact ⟨hnode, by decide⟩
    · exact ⟨hint, by decide⟩
    · exact ⟨hint, by decide⟩
    · exact ⟨hint, by decide⟩
    · exact ⟨hint, by decide⟩
  var name t a h := by
    simp only [listDecls] at h
    split_ifs at h with hnodes hdata hi hpp
    · obtain ⟨rfl, rfl⟩ := Prod.mk.inj (Option.some.inj h)
      refine ⟨_, by rw [hnodes]; rfl, by decide, by decide, ?_, fun _ => by decide, ?_⟩
      · exact fun hno => Bool.noConfusion hno
      · intro u n hu
        obtain ⟨rfl, rfl⟩ := CType.array.inj hu
        exact ⟨by decide, by decide, by decide⟩
    · obtain ⟨rfl, rfl⟩ := Prod.mk.inj (Option.some.inj h)
      refine ⟨_, by rw [hdata]; rfl, by decide, by decide, ?_, fun _ => by decide, ?_⟩
      · exact fun hno => Bool.noConfusion hno
      · intro u n hu
        obtain ⟨rfl, rfl⟩ := CType.array.inj hu
        exact ⟨by decide, by decide, by decide⟩
    · obtain ⟨rfl, rfl⟩ := Prod.mk.inj (Option.some.inj h)
      refine ⟨_, by rw [hi]; rfl, by decide, by decide, fun _ => by decide,
        fun _ => by decide, ?_⟩
      exact fun u n hu => CType.noConfusion hu
    · obtain ⟨rfl, rfl⟩ := Prod.mk.inj (Option.some.inj h)
      refine ⟨_, by rw [hpp]; rfl, by decide, by decide, fun _ => by decide, ?_, ?_⟩
      · exact fun hno => Bool.noConfusion hno
      · exact fun u n hu => CType.noConfusion hu
  field tag name t offset h := by
    simp only [listDecls] at h
    split_ifs at h with htag hval hnext
    · obtain ⟨rfl, rfl⟩ := Prod.mk.inj (Option.some.inj h)
      exact ⟨_, by rw [htag, hval]; rfl, by decide, by decide⟩
    · obtain ⟨rfl, rfl⟩ := Prod.mk.inj (Option.some.inj h)
      exact ⟨_, by rw [htag, hnext]; rfl, by decide, by decide⟩
  element t h hplain := by
    have hmem := listDecls_knows h
    simp only [List.mem_cons, List.not_mem_nil, or_false] at hmem
    rcases hmem with rfl | rfl | rfl | rfl | rfl | rfl | rfl
    · exact Bool.noConfusion hplain
    · decide
    · exact Bool.noConfusion hplain
    · decide
    · exact Bool.noConfusion hplain
    · exact Bool.noConfusion hplain
    · exact Bool.noConfusion hplain

/-- The path `nodes[i].next->val`, whose index is a variable. -/
def nextVal : Ast :=
  .arrow (.member (.index (.ident "nodes".toList) (.ident "i".toList)) "next".toList)
    "val".toList

theorem resolve_correct_iff_nextVal :
    (∃ v, cdbgAstResolveLvalue listEnv nextVal = some (0x1000, v) ∧
      v.size = listDecls.size intType) ↔ Resolvable listDecls listEnv nextVal intType 0x1000 :=
  resolve_correct_iff listDecls_correct (by decide)

/-- The debugger follows `nodes[i].next->val`, and finds the `val` of `nodes[0]`. -/
example : Followed listDecls nextVal ∧ listDecls.reach listEnv nextVal = some (intType, 0x1000) ∧
    listDecls.entrySize listEnv nextVal = some (listDecls.size intType) := by
  refine ⟨⟨⟨trivial, ?_⟩, ?_⟩, by decide, by decide⟩
  · intro type h
    obtain rfl := Option.some.inj (h.symm.trans (show _ = some (CType.array nodeType 2) by decide))
    rfl
  · intro type h
    obtain rfl := Option.some.inj (h.symm.trans (show _ = some (CType.pointer nodeType) by decide))
    rfl

/-- The sizes of the entries are right as well. -/
def CDecls.Sized (D : CDecls) (env : EvalEnv) : Prop :=
  (∀ name type a entry, D.var name = some (type, a) →
    env.resolveVariableAddress name = some entry → entry.2.size = D.size type) ∧
  ∀ tag name type offset m, D.field tag name = some (type, offset) →
    env.lookupStructMember tag name = some m → m.size = D.size type

theorem listDecls_sized : listDecls.Sized listEnv := by
  constructor
  · intro name type a entry h hentry
    simp only [listDecls] at h
    split_ifs at h with hnodes hdata hi hpp
    · obtain ⟨rfl, rfl⟩ := Prod.mk.inj (Option.some.inj h)
      rw [hnodes] at hentry
      rw [← Option.some.inj hentry]
      decide
    · obtain ⟨rfl, rfl⟩ := Prod.mk.inj (Option.some.inj h)
      rw [hdata] at hentry
      rw [← Option.some.inj hentry]
      decide
    · obtain ⟨rfl, rfl⟩ := Prod.mk.inj (Option.some.inj h)
      rw [hi] at hentry
      rw [← Option.some.inj hentry]
      decide
    · obtain ⟨rfl, rfl⟩ := Prod.mk.inj (Option.some.inj h)
      rw [hpp] at hentry
      rw [← Option.some.inj hentry]
      decide
  · intro tag name type offset m h hentry
    simp only [listDecls] at h
    split_ifs at h with htag hval hnext
    · obtain ⟨rfl, rfl⟩ := Prod.mk.inj (Option.some.inj h)
      rw [htag, hval] at hentry
      rw [← Option.some.inj hentry]
      decide
    · obtain ⟨rfl, rfl⟩ := Prod.mk.inj (Option.some.inj h)
      rw [htag, hnext] at hentry
      rw [← Option.some.inj hentry]
      decide

/-- `pp[0]` is a pointer of eight bytes, and the debugger takes it for an `int` of four. -/
theorem path_lost :
    ¬ ∀ (D : CDecls) (env : EvalEnv) (e : Ast) (t : CType) (a : Addr), D.Correct env →
      D.Sized env → D.locate env e = some (t, a) →
      ∃ v, cdbgAstResolveLvalue env e = some (a, v) ∧ v.size = D.size t := by
  intro h
  obtain ⟨v, hv, hsize⟩ := h listDecls listEnv (.index (.ident "pp".toList) (.num 0))
    (.pointer intType) 0 listDecls_correct listDecls_sized (by decide)
  have hresolved : (cdbgAstResolveLvalue listEnv (.index (.ident "pp".toList) (.num 0))).map
      (·.2.size) = some 4 := by decide
  rw [hv] at hresolved
  exact absurd (hsize.symm.trans (Option.some.inj hresolved)) (by decide)

end Debugger
