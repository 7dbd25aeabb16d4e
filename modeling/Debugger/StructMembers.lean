/-
The members of a struct: `dwarf_lookup_struct` of `debugger.c`, on what `dwarfdump` prints.

The scan has no depth.  A structure DIE with the DIEs behind it, up to the next structure DIE, is a
stretch of the text (`stretches`).  The scan takes the member DIEs of the stretches whose structure
DIE has the name, and stops at the first `NULL` there (`lookupStruct_seen`).  It returns the struct
when it comes to the struct's own stretch and finds just its members in front of the `NULL`
(`lookupStruct_of_readAlone`).
-/
import Debugger.SeenDies
import Debugger.Lib.Lists

open Prog

namespace Debugger

/-! ### The scan -/

/-- The size of the buffers of a member's name and type. -/
abbrev maxMemberName : ℕ := 64

/-- The size of the buffer of a struct's name. -/
abbrev maxStructName : ℕ := 128

/-- What is read of a `cdbg_struct_member_t`. -/
structure MemberRead where
  name : CStr := []
  type : CStr := []
  offset : UInt64 := 0
deriving DecidableEq

/-- The member with its size and its sign. -/
def MemberRead.member (m : MemberRead) : StructMember :=
  { name := m.name, type := m.type, offset := m.offset.toNat, size := typeScalarSize m.type,
    isSigned := typeIsSigned m.type }

/-- The variables of the loop. -/
structure StructScan where
  inStruct : Bool := false
  structMatches : Bool := false
  readingMember : Bool := false
  member : MemberRead := {}
  members : List StructMember := []
  byteSize : UInt64 := 0

/-- The member that has been read is put into the array. -/
def pushMember (maxMembers : ℕ) (members : List StructMember) (m : MemberRead) :
    List StructMember :=
  if m.name ≠ [] && members.length < maxMembers then members ++ [m.member] else members

/-- The rest of the loop body, for a line that begins neither a struct nor a member. -/
def structAttr (name : CStr) (s : StructScan) (line : CStr) : StructScan :=
  if !s.inStruct then s
  else if strstr line "DW_AT_name".toList && !s.readingMember then
    if parseQuotedValue maxStructName line = some name then { s with structMatches := true } else s
  else if !s.structMatches then s
  else if strstr line "DW_AT_byte_size".toList then
    { s with byteSize := (parseParenHex line).getD s.byteSize }
  else if !s.readingMember then s
  else if strstr line "DW_AT_name".toList then
    { s with member := { s.member with
        name := (parseQuotedValue maxMemberName line).getD s.member.name } }
  else if strstr line "DW_AT_type".toList then
    { s with member := { s.member with
        type := (parseQuotedValue maxMemberName line).getD s.member.type } }
  else if strstr line "DW_AT_data_member_location".toList then
    { s with member := { s.member with
        offset := (parseMemberOffset line).getD s.member.offset } }
  else s

/-- The loop body behind the end of the member before; `none` is `break`. -/
def structLine (name : CStr) (s : StructScan) (line : CStr) : Option StructScan :=
  if dwarfStartsDie line then
    if strstr line "DW_TAG_structure_type".toList then
      some { s with inStruct := true, structMatches := false, byteSize := 0 }
    else if s.inStruct && s.structMatches && strstr line "DW_TAG_member".toList then
      some { s with member := {}, readingMember := true }
    else if s.inStruct && s.structMatches && strstr line "NULL".toList then none
    else
      let s := if s.inStruct && !s.structMatches then { s with inStruct := false } else s
      some (structAttr name s line)
  else some (structAttr name s line)

/-- The loop and the end of the last member: the members and the size. -/
def structLoop (name : CStr) (maxMembers : ℕ) (s : StructScan) :
    List CStr → List StructMember × UInt64
  | [] =>
    (if s.readingMember then pushMember maxMembers s.members s.member else s.members, s.byteSize)
  | line :: lines =>
    if s.readingMember && dwarfStartsDie line then
      let members := pushMember maxMembers s.members s.member
      if s.inStruct && s.structMatches && strstr line "NULL".toList then (members, s.byteSize)
      else
        match structLine name { s with members := members, member := {}, readingMember := false }
          line with
        | some s => structLoop name maxMembers s lines
        | none => (members, s.byteSize)
    else
      match structLine name s line with
      | some s => structLoop name maxMembers s lines
      | none => (s.members, s.byteSize)

/-- `dwarf_lookup_struct`, on what `dwarfdump --debug-info` prints -/
def lookupStruct (name : CStr) (maxMembers : ℕ) (text : List Char) :
    Option (List StructMember × UInt64) :=
  if name = [] then none
  else
    match structLoop name maxMembers {} (fgetsLines maxDumpLine text) with
    | ([], _) => none
    | result => some result

/-! ### The scan over DIEs -/

/-- Where the scan is: outside of a struct, in one whose name has not been read, or in one of the
name, with the size that has been read. -/
inductive StructScope
  | outside
  | unnamed
  | named (size : UInt64)

/-- The line has the name of the struct. -/
def namesStruct (name line : CStr) : Bool :=
  strstr line "DW_AT_name".toList && parseQuotedValue maxStructName line = some name

/-- The size behind a line of a struct of the name. -/
def sizeLine (reading : Bool) (size : UInt64) (line : CStr) : UInt64 :=
  if strstr line "DW_AT_name".toList && !reading then size
  else if strstr line "DW_AT_byte_size".toList then (parseParenHex line).getD size
  else size

/-- A line of a member; a size is none of its attributes. -/
def MemberRead.line (m : MemberRead) (line : CStr) : MemberRead :=
  if strstr line "DW_AT_byte_size".toList then m
  else if strstr line "DW_AT_name".toList then
    { m with name := (parseQuotedValue maxMemberName line).getD m.name }
  else if strstr line "DW_AT_type".toList then
    { m with type := (parseQuotedValue maxMemberName line).getD m.type }
  else if strstr line "DW_AT_data_member_location".toList then
    { m with offset := (parseMemberOffset line).getD m.offset }
  else m

namespace SeenDie

/-- The DIE is taken for a struct. -/
def isStruct (x : SeenDie) : Bool := x.is .structureType

/-- The DIE is taken for a member. -/
def isMember (x : SeenDie) : Bool := !x.isStruct && x.is .member

/-- What is read of a member. -/
def memberRead (x : SeenDie) : MemberRead := x.rest.foldl MemberRead.line {}

/-- The DIE is a struct of the name. -/
def structNames (name : CStr) (x : SeenDie) : Bool := x.rest.any (namesStruct name)

/-- The size read last behind the name of a struct. -/
def structSize (name : CStr) (x : SeenDie) : UInt64 :=
  (x.rest.dropWhile (!namesStruct name ·)).foldl (sizeLine false) 0

/-- The size behind a DIE in a struct of the name; the first line of a member is not looked at
again. -/
def sizeFrom (size : UInt64) (x : SeenDie) : UInt64 :=
  if x.isMember then x.rest.foldl (sizeLine true) size
  else (x.line :: x.rest).foldl (sizeLine false) size

end SeenDie

namespace StructScope

def isNamed : StructScope → Bool
  | named _ => true
  | _ => false

/-- A line that begins no DIE. -/
def line (name : CStr) (reading : Bool) : StructScope → CStr → StructScope
  | outside, _ => outside
  | unnamed, l => if namesStruct name l then named 0 else unnamed
  | named size, l => named (sizeLine reading size l)

/-- The scan stops at the DIE; a member in front of it is ended by a `NULL` anywhere. -/
def stops (s : StructScope) (reading : Bool) (x : SeenDie) : Bool :=
  s.isNamed && x.isNull && (reading || (!x.isStruct && !x.isMember))

/-- A struct whose name has not been read is left at the next DIE. -/
def leave : StructScope → StructScope
  | named size => named size
  | _ => outside

/-- The DIE is read as a member. -/
def takes (s : StructScope) (x : SeenDie) : Bool := s.isNamed && x.isMember

/-- Behind a DIE that is no struct. -/
def behind (x : SeenDie) : StructScope → StructScope
  | named size => named (x.sizeFrom size)
  | _ => outside

/-- A DIE at which the scan goes on. -/
def die (name : CStr) (s : StructScope) (x : SeenDie) : StructScope :=
  if x.isStruct then
    if x.structNames name then named (x.structSize name) else unnamed
  else s.behind x

def size : StructScope → UInt64
  | named size => size
  | _ => 0

/-- The variables of the loop when the given member is being read. -/
def scan (s : StructScope) (members : List StructMember) (read : Option MemberRead) :
    StructScan where
  inStruct := match s with
    | outside => false
    | _ => true
  structMatches := s.isNamed
  readingMember := read.isSome
  member := read.getD {}
  members := members
  byteSize := s.size

end StructScope

/-- The walk of the scan over the DIEs: the members and the size. -/
def structDies (name : CStr) (maxMembers : ℕ) (s : StructScope) (reading : Bool)
    (ms : List StructMember) : List SeenDie → List StructMember × UInt64
  | [] => (ms, s.size)
  | x :: xs =>
    if s.stops reading x then (ms, s.size)
    else structDies name maxMembers (s.die name x) (s.takes x)
      (if s.takes x then pushMember maxMembers ms x.memberRead else ms) xs

section Scan

variable {name : CStr} {s : StructScope} {size : UInt64} {ms : List StructMember} {m : MemberRead}
  {line : CStr} {lines : List CStr} {x : SeenDie} {maxMembers : ℕ} {reading : Bool}
  {ls : List (Entry × CStr)} {es : List Entry}

theorem StructScope.foldl_line_outside :
    lines.foldl (StructScope.line name reading) .outside = .outside := by
  induction lines with
  | nil => rfl
  | cons line lines ih => exact ih

theorem StructScope.foldl_line_named :
    lines.foldl (StructScope.line name reading) (.named size) =
      .named (lines.foldl (sizeLine reading) size) := by
  induction lines generalizing size with
  | nil => rfl
  | cons line lines ih => exact ih

/-- The size of a struct is read behind its name. -/
theorem StructScope.foldl_line_unnamed :
    lines.foldl (StructScope.line name false) .unnamed =
      if lines.any (namesStruct name) then
        .named ((lines.dropWhile (!namesStruct name ·)).foldl (sizeLine false) 0)
      else .unnamed := by
  induction lines with
  | nil => rfl
  | cons line lines ih =>
    rw [List.foldl_cons, StructScope.line, List.any_cons]
    by_cases hname : namesStruct name line = true
    · have hskip : sizeLine false 0 line = 0 := by
        rw [namesStruct, Bool.and_eq_true_iff] at hname
        rw [sizeLine, hname.1]
        rfl
      rw [if_pos hname, hname, Bool.true_or, if_pos rfl, StructScope.foldl_line_named,
        List.dropWhile_cons_of_neg (by simp [hname]), List.foldl_cons, hskip]
    · rw [if_neg hname, Bool.eq_false_iff.mpr hname, Bool.false_or, ih,
        List.dropWhile_cons_of_pos (by simp [hname])]

/-- A line while no member is being read. -/
theorem structAttr_none :
    structAttr name (s.scan ms none) line = (s.line name false line).scan ms none := by
  rw [structAttr]
  cases s with
  | outside => rfl
  | unnamed =>
    rw [StructScope.line, namesStruct]
    generalize strstr line "DW_AT_name".toList = isName
    cases isName with
    | false => rfl
    | true =>
      show (if parseQuotedValue maxStructName line = some name then _ else _) = _
      by_cases hname : parseQuotedValue maxStructName line = some name
      · rw [if_pos hname, decide_eq_true hname]
        rfl
      · rw [if_neg hname, decide_eq_false hname]
        rfl
  | named size =>
    rw [StructScope.line, sizeLine]
    generalize strstr line "DW_AT_name".toList = isName
    generalize strstr line "DW_AT_byte_size".toList = isSize
    cases isName with
    | true =>
      show (if parseQuotedValue maxStructName line = some name then _ else _) = _
      split <;> rfl
    | false => cases isSize <;> rfl

/-- A line of a member that is being read. -/
theorem structAttr_some :
    structAttr name ((StructScope.named size).scan ms (some m)) line =
      (StructScope.named (sizeLine true size line)).scan ms (some (m.line line)) := by
  rw [structAttr, sizeLine, MemberRead.line]
  generalize strstr line "DW_AT_name".toList = isName
  generalize strstr line "DW_AT_byte_size".toList = isSize
  generalize strstr line "DW_AT_type".toList = isType
  generalize strstr line "DW_AT_data_member_location".toList = isLocation
  cases isSize <;> cases isName <;> cases isType <;> cases isLocation <;> rfl

/-- The first line of a DIE, when no member is being read any more. -/
theorem structLine_start (h : dwarfStartsDie x.line = true) :
    structLine name (s.scan ms none) x.line =
      if s.stops false x then none
      else if x.isStruct then some (StructScope.unnamed.scan ms none)
      else if s.takes x then some (s.scan ms (some {}))
      else some ((s.leave.line name false x.line).scan ms none) := by
  rw [structLine, if_pos h, StructScope.stops, StructScope.takes, SeenDie.isMember]
  show (if x.isStruct then _ else if (s.scan ms none).inStruct && s.isNamed && x.is .member then _
    else if (s.scan ms none).inStruct && s.isNamed && x.isNull then _ else _) = _
  have hleave : (if (s.scan ms none).inStruct && !(s.scan ms none).structMatches then
      { s.scan ms none with inStruct := false } else s.scan ms none) = s.leave.scan ms none := by
    cases s <;> rfl
  rw [hleave]
  dsimp only
  rw [structAttr_none]
  generalize x.isStruct = isStruct
  generalize x.is .member = isMember
  generalize x.isNull = isNull
  cases isStruct <;> cases isMember <;> cases isNull <;> cases s <;> rfl

/-- The scan of the lines is a walk over the DIEs seen in them: behind the lead, with the member
that is being read. -/
theorem structLoop_blocks :
    (∀ s ms, structLoop name maxMembers (StructScope.scan s ms none) (ls.map (·.2)) =
      structDies name maxMembers
        (((lead startsDie ls).map (·.2)).foldl (StructScope.line name false) s) false ms
        (blocks startsDie ls)) ∧
    (∀ size ms m,
      structLoop name maxMembers ((StructScope.named size).scan ms (some m)) (ls.map (·.2)) =
      structDies name maxMembers
        (.named (((lead startsDie ls).map (·.2)).foldl (sizeLine true) size)) true
        (pushMember maxMembers ms (((lead startsDie ls).map (·.2)).foldl MemberRead.line m))
        (blocks startsDie ls)) := by
  induction ls with
  | nil => exact ⟨fun _ _ => rfl, fun _ _ _ => rfl⟩
  | cons l ls ih =>
    obtain ⟨ihNone, ihSome⟩ := ih
    cases hstart : startsDie l with
    | false =>
      have hline : dwarfStartsDie l.2 = false := hstart
      rw [lead_cons_other hstart, blocks_cons_other hstart, List.map_cons]
      constructor
      · intro s ms
        rw [structLoop, hline, Bool.and_false, if_neg Bool.false_ne_true, structLine, hline,
          if_neg Bool.false_ne_true, structAttr_none]
        exact ihNone _ _
      · intro size ms m
        rw [structLoop, hline, Bool.and_false, if_neg Bool.false_ne_true, structLine, hline,
          if_neg Bool.false_ne_true, structAttr_some]
        exact ihSome _ _ _
    | true =>
      have hline : dwarfStartsDie l.2 = true := hstart
      rw [lead_cons_start hstart, blocks_cons_start hstart, List.map_cons]
      let x : SeenDie := ⟨l, lead startsDie ls⟩
      -- The DIE when the scan goes on at it.
      have hgo : ∀ s ms, StructScope.stops s false x = false →
          (match structLine name (s.scan ms none) l.2 with
            | some s => structLoop name maxMembers s (ls.map (·.2))
            | none => (ms, s.size)) =
          structDies name maxMembers (s.die name x) (s.takes x)
            (if s.takes x then pushMember maxMembers ms x.memberRead else ms)
            (blocks startsDie ls) := by
        intro s ms hstop
        have hfirst : structLine name (s.scan ms none) l.2 = _ :=
          @structLine_start name s ms x hstart
        rw [hfirst, hstop, if_neg Bool.false_ne_true, StructScope.die]
        by_cases hstruct : x.isStruct = true
        · have hmember : x.isMember = false := by
            rw [SeenDie.isMember, hstruct, Bool.not_true, Bool.false_and]
          rw [if_pos hstruct, if_pos hstruct, StructScope.takes, hmember, Bool.and_false,
            if_neg Bool.false_ne_true]
          exact (ihNone _ _).trans (by rw [StructScope.foldl_line_unnamed]; rfl)
        rw [if_neg hstruct, if_neg hstruct]
        by_cases htakes : s.takes x = true
        · obtain ⟨hnamed, hmember⟩ := Bool.and_eq_true_iff.mp htakes
          rw [if_pos htakes, htakes, if_pos rfl]
          cases s with
          | named size =>
            rw [StructScope.behind, SeenDie.sizeFrom, if_pos hmember]
            exact ihSome _ _ _
          | outside | unnamed => exact absurd hnamed Bool.false_ne_true
        · rw [if_neg htakes, if_neg htakes, Bool.eq_false_iff.mpr htakes]
          refine (ihNone _ _).trans (congrArg (structDies name maxMembers · false ms _) ?_)
          cases s with
          | named size =>
            have hmember : x.isMember = false := Bool.eq_false_iff.mpr htakes
            rw [StructScope.behind, SeenDie.sizeFrom, if_neg (Bool.eq_false_iff.mp hmember)]
            exact StructScope.foldl_line_named
          | outside | unnamed => exact StructScope.foldl_line_outside
      refine ⟨fun s ms => ?_, fun size ms m => ?_⟩
      · rw [structLoop, structDies]
        show (match structLine name (s.scan ms none) l.2 with
          | some s => _
          | none => (ms, s.size)) = if s.stops false x then _ else _
        cases hstop : s.stops false x with
        | false => exact hgo s ms hstop
        | true =>
          have hfirst : structLine name (s.scan ms none) l.2 = _ :=
            @structLine_start name s ms x hstart
          rw [hfirst, hstop]
          rfl
      · rw [structLoop, hline, structDies]
        show (if x.isNull then _ else _) = if x.isNull && true then _ else _
        rw [Bool.and_true]
        cases hnull : x.isNull with
        | true => rfl
        | false =>
          have hstop : (StructScope.named size).stops false x = false := by
            rw [StructScope.stops, hnull, Bool.and_false, Bool.false_and]
          exact hgo (.named size) (pushMember maxMembers ms m) hstop

/-- `dwarf_lookup_struct` returns the result of the walk when it has a member. -/
theorem lookupStruct_seen (hname : name ≠ []) :
    lookupStruct name maxMembers (dumpText es) =
      if (structDies name maxMembers .outside false [] (seen es)).1 = [] then none
      else some (structDies name maxMembers .outside false [] (seen es)) := by
  have hwalk := (@structLoop_blocks name maxMembers (readLines es)).1 .outside []
  rw [map_readLines, StructScope.foldl_line_outside] at hwalk
  have hloop : structLoop name maxMembers {} (fgetsLines maxDumpLine (dumpText es)) =
      structDies name maxMembers .outside false [] (seen es) := hwalk
  rw [lookupStruct, if_neg hname, hloop]
  obtain ⟨ms, size⟩ := structDies name maxMembers .outside false [] (seen es)
  cases ms <;> rfl


end Scan

/-! ### Structs of the tree -/

/-- An attribute of a member, with its whole texts. -/
def MemberDecl.attr (d : MemberDecl) : Attr → MemberDecl
  | .name text => { d with name := text }
  | .type _ text => { d with type := text }
  | .memberLocation offset => { d with offset := offset.toNat }
  | _ => d

namespace DieHead

/-- The name of a DIE. -/
def name (head : DieHead) : CStr := (head.attrs.foldl MemberDecl.attr ⟨[], [], 0⟩).name

/-- The member a DIE declares. -/
def memberDecl (head : DieHead) : MemberDecl := head.attrs.foldl MemberDecl.attr ⟨[], [], 0⟩

/-- The size of a DIE. -/
def byteSize (head : DieHead) : UInt64 :=
  head.attrs.foldl (fun size a => match a with
    | .byteSize size => size
    | _ => size) 0

end DieHead

namespace Dies

/-- The DIEs of a list without those below them. -/
def heads : Dies → List DieHead
  | nil => []
  | leaf head rest => head :: rest.heads
  | node head _ _ rest => head :: rest.heads

/-- The members among the children of a struct. -/
def members (children : Dies) : List MemberDecl :=
  (children.heads.filter (·.tag = .member)).map DieHead.memberDecl

/-- The structs with children, in the order of the text. -/
def structs : Dies → List (DieHead × Dies)
  | nil => []
  | leaf _ rest => rest.structs
  | node head children _ rest =>
    if head.tag = .structureType then (head, children) :: (children.structs ++ rest.structs)
    else children.structs ++ rest.structs

end Dies

/-- The struct of a name: the first one that has members. -/
def Dies.structNamed (name : CStr) (ds : Dies) : Option (DieHead × Dies) :=
  ds.structs.find? fun s => s.1.name = name ∧ s.2.members ≠ []

/-- What `dwarf_lookup_struct` returns of a member besides its size. -/
def StructMember.decl (m : StructMember) : MemberDecl := ⟨m.name, m.type, m.offset⟩

/-! ### Stretches -/

/-- A structure DIE with the DIEs behind it, up to the next structure DIE. -/
abbrev Stretch := Block SeenDie

/-- The stretches of the text. -/
def stretches (es : List Entry) : List Stretch := blocks SeenDie.isStruct (seen es)

/-- A member that is read has a name. -/
def SeenDie.isNamedMember (x : SeenDie) : Bool := x.isMember && x.memberRead.name ≠ []

/-- The DIE is that of the member, and is read as it is declared. -/
def SeenDie.DeclaresMember (depth : ℕ) (x : SeenDie) (head : DieHead) : Prop :=
  x.entry = .die depth head ∧ x.memberRead.member.decl = head.memberDecl

/-- The stretch of a struct is come to, and up to the first `NULL` in it stand the members of the
struct, read as they are declared. -/
structure ReadAlone (name : CStr) (depth : ℕ) (head : DieHead) (children : Dies)
    (front : List Stretch) (own : SeenDie) (inside : List SeenDie) (last : SeenDie) : Prop where
  /-- No stretch of the name in front has a `NULL` or a named member. -/
  passed : ∀ b ∈ front, b.head.isNull = false ∧ (b.head.structNames name = true →
    ∀ y ∈ b.body, y.isNull = false ∧ y.isNamedMember = false)
  entry : own.entry = .die depth head
  named : own.structNames name = true ∧ own.isNull = false
  goesOn : ∀ y ∈ inside, y.isNull = false
  members : List.Forall₂ (SeenDie.DeclaresMember (depth + 1))
    (inside.filter SeenDie.isNamedMember) (children.heads.filter (·.tag = .member))
  size : inside.foldl SeenDie.sizeFrom (own.structSize name) = head.byteSize
  last : last.isNull = true ∧ last.isMember = false

section Structs

variable {name : CStr} {s : StructScope} {size : UInt64} {reading : Bool} {maxMembers depth : ℕ}
  {ms : List StructMember} {x : SeenDie} {xs ys : List SeenDie} {ds children : Dies}
  {head : DieHead} {front back : List Stretch} {own last : SeenDie} {inside rest : List SeenDie}

/-- The members are taken in order, as far as there is room. -/
theorem foldl_pushMember {reads : List MemberRead} {ms : List StructMember}
    (hms : ms.length ≤ maxMembers) : reads.foldl (pushMember maxMembers) ms =
      ms ++ ((reads.filter (·.name ≠ [])).take (maxMembers - ms.length)).map MemberRead.member := by
  induction reads generalizing ms with
  | nil => simp
  | cons m reads ih =>
    rw [List.foldl_cons, pushMember]
    by_cases hname : m.name = []
    · have hskip : (m.name ≠ [] && decide (ms.length < maxMembers)) = false := by simp [hname]
      rw [hskip, if_neg Bool.false_ne_true, ih hms, List.filter_cons_of_neg (by simp [hname])]
    rw [List.filter_cons_of_pos (by simp [hname])]
    by_cases hroom : ms.length < maxMembers
    · have hpush : (m.name ≠ [] && decide (ms.length < maxMembers)) = true := by
        simp [hname, hroom]
      have hlen : (ms ++ [m.member]).length ≤ maxMembers := by
        rw [List.length_append, List.length_singleton]
        exact hroom
      have hrest : maxMembers - ms.length = maxMembers - (ms ++ [m.member]).length + 1 := by
        rw [List.length_append, List.length_singleton]
        omega
      rw [if_pos hpush, ih hlen, hrest, List.take_succ_cons, List.map_cons, List.append_assoc,
        List.singleton_append]
    · have hfull : (m.name ≠ [] && decide (ms.length < maxMembers)) = false := by simp [hroom]
      have hzero : maxMembers - ms.length = 0 := by omega
      rw [hfull, if_neg Bool.false_ne_true, ih hms, hzero, List.take_zero, List.take_zero]

/-- A structure DIE begins a stretch. -/
theorem structDies_struct (hstruct : x.isStruct = true) (hnull : x.isNull = false) :
    structDies name maxMembers s reading ms (x :: xs) =
      structDies name maxMembers
        (if x.structNames name then .named (x.structSize name) else .unnamed) false ms xs := by
  have hmember : x.isMember = false := by
    rw [SeenDie.isMember, hstruct, Bool.not_true, Bool.false_and]
  rw [structDies, StructScope.stops, hnull, Bool.and_false, Bool.false_and,
    if_neg Bool.false_ne_true, StructScope.takes, hmember, Bool.and_false,
    if_neg Bool.false_ne_true, StructScope.die, if_pos hstruct]

/-- Outside of the stretches of the name nothing is taken. -/
theorem structDies_outside (hs : s.isNamed = false) (hys : ∀ y ∈ ys, y.isStruct = false) :
    ∃ s' reading', structDies name maxMembers s reading ms (ys ++ xs) =
      structDies name maxMembers s' reading' ms xs := by
  induction ys generalizing s reading with
  | nil => exact ⟨s, reading, rfl⟩
  | cons y ys ih =>
    obtain ⟨hy, hys⟩ := List.forall_mem_cons.mp hys
    have hbehind : s.die name y = .outside := by
      rw [StructScope.die, hy, if_neg Bool.false_ne_true]
      cases s with
      | named => exact absurd hs.symm Bool.false_ne_true
      | outside | unnamed => rfl
    rw [List.cons_append, structDies, StructScope.stops, StructScope.takes, hs, Bool.false_and,
      Bool.false_and, Bool.false_and, if_neg Bool.false_ne_true, if_neg Bool.false_ne_true,
      hbehind]
    exact ih rfl hys

/-- In a stretch of the name the members in front of a `NULL` are taken, and the size is read. -/
theorem structDies_inside (hys : ∀ y ∈ ys, y.isStruct = false ∧ y.isNull = false) :
    ∃ reading', structDies name maxMembers (.named size) reading ms (ys ++ xs) =
      structDies name maxMembers (.named (ys.foldl SeenDie.sizeFrom size)) reading'
        (((ys.filter SeenDie.isMember).map SeenDie.memberRead).foldl (pushMember maxMembers) ms)
        xs := by
  induction ys generalizing size reading ms with
  | nil => exact ⟨reading, rfl⟩
  | cons y ys ih =>
    obtain ⟨⟨hstruct, hnull⟩, hys⟩ := List.forall_mem_cons.mp hys
    have hbehind : (StructScope.named size).die name y = .named (y.sizeFrom size) := by
      rw [StructScope.die, hstruct, if_neg Bool.false_ne_true]
      rfl
    rw [List.cons_append, structDies, StructScope.stops, hnull, Bool.and_false, Bool.false_and,
      if_neg Bool.false_ne_true, hbehind, List.foldl_cons]
    cases hmember : y.isMember with
    | true =>
      rw [StructScope.takes, hmember, List.filter_cons_of_pos hmember]
      exact ih hys
    | false =>
      rw [StructScope.takes, hmember, List.filter_cons_of_neg (Bool.eq_false_iff.mp hmember)]
      exact ih hys

/-- The named ones of the members that are read. -/
theorem filter_memberRead : (((ys.filter SeenDie.isMember).map SeenDie.memberRead).filter
    (·.name ≠ [])) = (ys.filter SeenDie.isNamedMember).map SeenDie.memberRead := by
  rw [List.filter_map, List.filter_filter]
  refine congrArg (List.map _) (List.filter_congr fun y _ => ?_)
  rw [SeenDie.isNamedMember, Bool.and_comm]
  rfl

/-- Stretches without a `NULL` or a named member of a struct of the name are passed. -/
theorem structDies_passed (hms : ms.length ≤ maxMembers)
    (hstart : ∀ b ∈ front, b.head.isStruct = true ∧ ∀ y ∈ b.body, y.isStruct = false)
    (hpassed : ∀ b ∈ front, b.head.isNull = false ∧ (b.head.structNames name = true →
      ∀ y ∈ b.body, y.isNull = false ∧ y.isNamedMember = false)) :
    ∃ s' reading', structDies name maxMembers s reading ms (front.flatMap Block.toList ++ xs) =
      structDies name maxMembers s' reading' ms xs := by
  induction front generalizing s reading with
  | nil => exact ⟨s, reading, rfl⟩
  | cons b front ih =>
    obtain ⟨⟨hstruct, hbody⟩, hstarts⟩ := List.forall_mem_cons.mp hstart
    obtain ⟨⟨hnull, hquiet⟩, hpassed⟩ := List.forall_mem_cons.mp hpassed
    have ih := fun s reading => @ih s reading hstarts hpassed
    rw [List.flatMap_cons, Block.toList, List.cons_append, List.cons_append,
      structDies_struct hstruct hnull, List.append_assoc]
    cases hnames : b.head.structNames name with
    | false =>
      obtain ⟨s', reading', hskip⟩ := @structDies_outside name .unnamed false maxMembers ms
        (front.flatMap Block.toList ++ xs) b.body rfl hbody
      rw [if_neg Bool.false_ne_true, hskip]
      exact ih s' reading'
    | true =>
      have hquiet := hquiet hnames
      have hnone : b.body.filter SeenDie.isNamedMember = [] :=
        List.filter_eq_nil_iff.mpr fun y hy => Bool.eq_false_iff.mp (hquiet y hy).2
      obtain ⟨reading', hskip⟩ := @structDies_inside name (b.head.structSize name) false maxMembers
        ms (front.flatMap Block.toList ++ xs) b.body fun y hy => ⟨hbody y hy, (hquiet y hy).1⟩
      rw [if_pos rfl, hskip, foldl_pushMember hms, filter_memberRead, hnone, List.map_nil,
        List.take_nil, List.map_nil, List.append_nil]
      exact ih _ reading'

/-- `dwarf_lookup_struct` returns the members and the size of a struct that is read alone. -/
theorem lookupStruct_of_readAlone (hname : name ≠ [])
    (hstruct : ds.structNamed name = some (head, children))
    (hroom : children.members.length ≤ maxMembers)
    (hsplit : stretches (ds.entries 0) = front ++ ⟨own, inside ++ last :: rest⟩ :: back)
    (halone : ReadAlone name depth head children front own inside last) :
    (lookupStruct name maxMembers (dumpText (ds.entries 0))).map
        (fun r => (r.1.map StructMember.decl, r.2)) =
      (ds.structNamed name).map (fun s => (s.2.members, s.1.byteSize)) := by
  have hstarts : ∀ b ∈ stretches (ds.entries 0), b.head.isStruct = true ∧
      ∀ y ∈ b.body, y.isStruct = false := fun b hb => starts_of_mem_blocks hb
  have hseen : lead SeenDie.isStruct (seen (ds.entries 0)) ++ (front.flatMap Block.toList ++
      own :: (inside ++ (last :: (rest ++ back.flatMap Block.toList)))) = seen (ds.entries 0) := by
    have hall := @lead_append_blocks _ SeenDie.isStruct (seen (ds.entries 0))
    rw [stretches] at hsplit
    rwa [hsplit, List.flatMap_append, List.flatMap_cons, Block.toList, List.cons_append,
      List.append_assoc, List.cons_append] at hall
  rw [hsplit, List.forall_mem_append, List.forall_mem_cons] at hstarts
  obtain ⟨hfront, ⟨hown, hbody⟩, -⟩ := hstarts
  rw [List.forall_mem_append, List.forall_mem_cons] at hbody
  obtain ⟨hinside, hlast, -⟩ := hbody
  have hdecl : (inside.filter SeenDie.isNamedMember).map (·.memberRead.member.decl) =
      children.members := by
    rw [Dies.members, ← List.forall₂_eq_eq_eq, List.forall₂_map_left_iff,
      List.forall₂_map_right_iff]
    exact halone.members.imp fun _ _ h => h.2
  have hwalk : structDies name maxMembers .outside false [] (seen (ds.entries 0)) =
      ((inside.filter SeenDie.isNamedMember).map fun y => y.memberRead.member, head.byteSize) := by
    rw [← hseen]
    obtain ⟨s₀, reading₀, hlead⟩ := @structDies_outside name .outside false maxMembers []
      (front.flatMap Block.toList ++ own :: (inside ++ (last :: (rest ++
        back.flatMap Block.toList)))) (lead SeenDie.isStruct (seen (ds.entries 0))) rfl
      fun y hy => not_starts_of_mem_lead hy
    obtain ⟨s₁, reading₁, hpass⟩ := @structDies_passed name s₀ reading₀ maxMembers []
      (own :: (inside ++ (last :: (rest ++ back.flatMap Block.toList)))) front (Nat.zero_le _)
      hfront halone.passed
    obtain ⟨reading₂, hread⟩ := @structDies_inside name (own.structSize name) false maxMembers []
      (last :: (rest ++ back.flatMap Block.toList)) inside
      fun y hy => ⟨hinside y hy, halone.goesOn y hy⟩
    have hstop : (StructScope.named head.byteSize).stops reading₂ last = true := by
      rw [StructScope.stops, halone.last.1, halone.last.2, hlast]
      exact Bool.or_true _
    have hlen : (inside.filter SeenDie.isNamedMember).length ≤ maxMembers := by
      rwa [← List.length_map, hdecl]
    rw [hlead, hpass, structDies_struct hown halone.named.2, if_pos halone.named.1, hread,
      halone.size, structDies, if_pos hstop, foldl_pushMember (Nat.zero_le _), filter_memberRead,
      List.nil_append, List.length_nil, Nat.sub_zero, List.take_of_length_le (by
        rwa [List.length_map]), List.map_map]
    rfl
  have hmembers : children.members ≠ [] := by
    have hfound := List.find?_some hstruct
    exact (of_decide_eq_true hfound).2
  have hsome : (inside.filter SeenDie.isNamedMember).map (fun y => y.memberRead.member) ≠ [] := by
    intro hnil
    rw [List.map_eq_nil_iff] at hnil
    rw [← hdecl, hnil] at hmembers
    exact hmembers rfl
  rw [lookupStruct_seen hname, hwalk, if_neg hsome, hstruct, Option.map_some, Option.map_some,
    List.map_map, ← hdecl]
  rfl

end Structs

/-! ### Plain structs -/

/-- What the line of an attribute says of a member. -/
def MemberRead.attr (m : MemberRead) : Attr → MemberRead
  | .name text => { m with name := snprintf maxMemberName text }
  | .type _ text => { m with type := snprintf maxMemberName text }
  | .memberLocation offset => { m with offset := offset }
  | _ => m

section Plain

variable {depth : ℕ} {a : Attr} {head : DieHead} {m : MemberRead} {name : CStr}

theorem MemberRead.line_attrLine (ha : a.Plain) : m.line (attrLine depth a) = m.attr a := by
  rw [MemberRead.line, strstr_attr_byteSize ha, strstr_attr_name ha, strstr_attr_type ha,
    strstr_attr_memberLocation ha]
  cases a with
  | name text =>
    have hread : parseQuotedValue maxMemberName (attrLine depth (.name text)) =
        some (snprintf maxMemberName text) := parseQuotedValue_name ha
    rw [hread]
    rfl
  | type ref text =>
    have hread : parseQuotedValue maxMemberName (attrLine depth (.type ref text)) =
        some (snprintf maxMemberName text) := parseQuotedValue_type ha
    rw [hread]
    rfl
  | memberLocation offset =>
    rw [parseMemberOffset_memberLocation]
    rfl
  | _ => rfl

/-- The empty line behind a DIE says nothing of a member. -/
theorem MemberRead.line_newline : m.line ['\n'] = m := by
  rw [MemberRead.line, strstr_newline isAttrMarker_byteSize.1, strstr_newline isAttrMarker_name.1,
    strstr_newline isAttrMarker_type.1, strstr_newline isAttrMarker_memberLocation.1]
  rfl

/-- The name or the type of an attribute. -/
def Attr.text : Attr → CStr
  | .name text | .type _ text => text
  | _ => []

/-- A DIE whose texts are plain and short is read as the member it declares. -/
theorem declaresMember_of_plain (h : ∀ a ∈ head.attrs, a.Plain)
    (hfits : ∀ a ∈ head.attrs, a.text.length ≤ 63) :
    (Entry.die depth head).seenDie.DeclaresMember depth head := by
  refine ⟨rfl, ?_⟩
  rw [SeenDie.memberRead, foldl_rest_seenDie (e := .die depth head) h
    (fun _ _ => MemberRead.line_attrLine) (fun _ => MemberRead.line_newline), DieHead.memberDecl]
  have hstep : ∀ {as : List Attr} {m : MemberRead} {d : MemberDecl},
      (∀ a ∈ as, a.text.length ≤ 63) → m.member.decl = d →
      (as.foldl MemberRead.attr m).member.decl = as.foldl MemberDecl.attr d := by
    intro as
    induction as with
    | nil => exact fun _ hm => hm
    | cons a as ih =>
      intro m d has hm
      obtain ⟨ha, has⟩ := List.forall_mem_cons.mp has
      refine ih has ?_
      subst hm
      cases a with
      | name text =>
        have hcut : snprintf maxMemberName text = text := List.take_of_length_le ha
        rw [MemberRead.attr, hcut]
        rfl
      | type ref text =>
        have hcut : snprintf maxMemberName text = text := List.take_of_length_le ha
        rw [MemberRead.attr, hcut]
        rfl
      | _ => rfl
  exact hstep hfits rfl

theorem isMember_seenDie {e : Entry} : e.seenDie.isMember = e.is .member := by
  have hread : e.seenDie.isMember = (!e.is .structureType && e.is .member) := by
    rw [← strstr_header_structure, ← strstr_header_member]
    rfl
  rw [hread]
  cases e with
  | null => rfl
  | die depth head =>
    show (!decide (head.tag = .structureType) && decide (head.tag = .member)) = _
    rw [Entry.is]
    cases head.tag <;> rfl

theorem isNull_seenDie {e : Entry} : e.seenDie.isNull = e.isNull := strstr_header_null

/-- The name and the size of a plain struct whose name stands in front of its size. -/
theorem structSize_of_plain {offset : UInt64} {attrs : List Attr}
    (hhead : head = ⟨offset, .structureType, .name name :: attrs⟩)
    (h : ∀ a ∈ head.attrs, a.Plain) (hlen : name.length ≤ 127) :
    (Entry.die depth head).seenDie.structNames name = true ∧
      (Entry.die depth head).seenDie.structSize name = head.byteSize := by
  have hread : parseQuotedValue maxStructName (attrLine depth (.name name)) = some name := by
    have hcut : snprintf maxStructName name = name := List.take_of_length_le hlen
    have hplain : PlainText name := h (.name name) (hhead ▸ List.mem_cons_self)
    rw [parseQuotedValue_name hplain, hcut]
  have hnames : namesStruct name (attrLine depth (.name name)) = true := by
    have hname : (Attr.name name).Plain := h (.name name) (hhead ▸ List.mem_cons_self)
    rw [namesStruct, strstr_attr_name hname, hread, decide_eq_true rfl]
    rfl
  obtain ⟨lines, hlines⟩ : ∃ lines, (Entry.die depth head).seenDie.rest =
      attrLine depth (.name name) :: lines := by
    rw [rest_seenDie]
    subst hhead
    exact ⟨_, rfl⟩
  have hsize : ∀ size a, a.Plain → sizeLine false size (attrLine depth a) = match a with
      | .byteSize size => size
      | _ => size := by
    intro size a ha
    rw [sizeLine, strstr_attr_name ha, strstr_attr_byteSize ha]
    cases a with
    | byteSize size =>
      rw [parseParenHex_byteSize]
      rfl
    | _ => rfl
  have hempty : ∀ size, sizeLine false size ['\n'] = size := by
    intro size
    rw [sizeLine, strstr_newline isAttrMarker_name.1, strstr_newline isAttrMarker_byteSize.1]
    rfl
  constructor
  · rw [SeenDie.structNames, hlines, List.any_cons, hnames, Bool.true_or]
  · rw [SeenDie.structSize, hlines, List.dropWhile_cons_of_neg (by rw [hnames]; decide), ← hlines,
      foldl_rest_seenDie (e := .die depth head) h hsize hempty]
    rfl

end Plain

/-- A union between the declaration and the definition of a struct `S`. -/
def declaredFirst : Dies :=
  .node ⟨11, .compileUnit, [.name "t.c".toList]⟩
    (.leaf ⟨42, .structureType, [.name "S".toList, .other .declaration "true".toList]⟩
    (.node ⟨47, .unionType, [.name "U".toList, .byteSize 8]⟩
      (.leaf ⟨56, .member, [.name "u".toList, .type 113 "long".toList, .memberLocation 0]⟩ .nil) 65
    (.node ⟨66, .structureType, [.name "S".toList, .byteSize 4]⟩
      (.leaf ⟨75, .member, [.name "a".toList, .type 120 "int".toList, .memberLocation 0]⟩ .nil) 84
    .nil))) 85 .nil

/-- The member of the union is returned, with the size of the union. -/
theorem lookupStruct_declaredFirst : (∀ e ∈ declaredFirst.entries 0, e.Plain) ∧
    FitsLines (declaredFirst.entries 0) ∧
    (declaredFirst.structNamed "S".toList).map (fun s => (s.2.members, s.1.byteSize)) =
      some ([⟨"a".toList, "int".toList, 0⟩], 4) ∧
    (lookupStruct "S".toList 32 (dumpText (declaredFirst.entries 0))).map
      (fun r => (r.1.map StructMember.decl, r.2)) = some ([⟨"u".toList, "long".toList, 0⟩], 8) := by
  decide +kernel

def pairHead : DieHead := ⟨66, .structureType, [.name "S".toList, .byteSize 16]⟩

def pairMembers : Dies :=
  .leaf ⟨75, .member, [.name "a".toList, .type 120 "int".toList, .memberLocation 0]⟩
  (.leaf ⟨84, .member, [.name "next".toList, .type 127 "S *".toList, .memberLocation 8]⟩ .nil)

/-- A struct behind a union, with a global `pNULL` behind it. -/
def definedOnly : Dies :=
  .node ⟨11, .compileUnit, [.name "t.c".toList]⟩
    (.node ⟨47, .unionType, [.name "U".toList, .byteSize 8]⟩
      (.leaf ⟨56, .member, [.name "u".toList, .type 113 "long".toList, .memberLocation 0]⟩ .nil) 65
    (.node pairHead pairMembers 93
    (.leaf ⟨94, .var, [.name "pNULL".toList, .type 127 "S *".toList, .addr 0x3000]⟩ .nil))) 105
    .nil

/-- Without a declaration in front the struct is found, whatever stands behind its `NULL`. -/
theorem lookupStruct_definedOnly :
    (lookupStruct "S".toList 32 (dumpText (definedOnly.entries 0))).map
      (fun r => (r.1.map StructMember.decl, r.2)) =
      (definedOnly.structNamed "S".toList).map (fun s => (s.2.members, s.1.byteSize)) := by
  let own := (Entry.die 1 pairHead).seenDie
  let inside := (pairMembers.entries 2).map Entry.seenDie
  have hsplit : stretches (definedOnly.entries 0) = [] ++
      ⟨own, inside ++ (Entry.null 2 93).seenDie :: (seen (definedOnly.entries 0)).drop 8⟩ :: [] := by
    decide +kernel
  have hmembers : inside.filter SeenDie.isNamedMember = inside := by decide +kernel
  have hown : own.structNames "S".toList = true ∧ own.structSize "S".toList = pairHead.byteSize :=
    structSize_of_plain rfl (by decide) (by decide)
  have halone : ReadAlone "S".toList 1 pairHead pairMembers [] own inside
      (Entry.null 2 93).seenDie := by
    constructor
    case members =>
      rw [hmembers]
      exact .cons (declaresMember_of_plain (by decide) (by decide))
        (.cons (declaresMember_of_plain (by decide) (by decide)) .nil)
    case passed => exact fun b hb => absurd hb List.not_mem_nil
    case entry => rfl
    case named => exact ⟨hown.1, isNull_seenDie⟩
    case goesOn =>
      intro y hy
      obtain ⟨e, he, rfl⟩ := List.mem_map.mp hy
      have hdie : ∀ e ∈ pairMembers.entries 2, e.isNull = false := by decide
      rw [isNull_seenDie, hdie e he]
    case size =>
      rw [hown.2]
      decide +kernel
    case last => exact ⟨isNull_seenDie, isMember_seenDie⟩
  exact lookupStruct_of_readAlone (by decide) rfl (by decide) hsplit halone

end Debugger
