/-
The type in front of a value: `dwarf_lookup_aggregate_kind` and `format_type_for_display` of
`debugger.c`.

On what `dwarfdump` prints, the lookup returns the kind of the first DIE of a struct or union of the
name, at whatever depth it stands (`lookupAggregateKind_seen`).  The keyword is then put in front of
the type exactly when the type is the name with an array suffix or with one star one blank behind
it (`displayed_as_declared_iff`): a second star, and a star in front of an array suffix, change
their place or are lost.
-/
import Debugger.SeenDies
import Debugger.SplitAssign
import Debugger.StructNames

open Prog

namespace Debugger

/-! ### The kind of a name -/

/-- `cdbg_aggregate_kind_t` -/
inductive AggregateKind
  | none
  | struct
  | union
deriving DecidableEq, Repr

/-- The size of the buffer of an aggregate's name. -/
abbrev maxAggregateName : ℕ := 128

/-- The variables of the loop. -/
structure AggregateScan where
  inAggregate : Bool := false
  currentKind : AggregateKind := .none
deriving DecidableEq

/-- The loop body from the test of `in_aggregate` on: the name has been found. -/
def aggregateNamed (name : CStr) (s : AggregateScan) (line : CStr) : Bool :=
  s.inAggregate && strstr line "DW_AT_name".toList &&
    decide (parseQuotedValue maxAggregateName line = some name)

/-- The loop body: the variables behind it, and whether it breaks. -/
def aggregateLine (name : CStr) (s : AggregateScan) (line : CStr) : AggregateScan × Bool :=
  if dwarfStartsDie line then
    if strstr line "DW_TAG_structure_type".toList then
      ({ inAggregate := true, currentKind := .struct }, false)
    else if strstr line "DW_TAG_union_type".toList then
      ({ inAggregate := true, currentKind := .union }, false)
    else if s.inAggregate && strstr line "NULL".toList then
      ({ s with inAggregate := false }, false)
    else
      let s := { s with inAggregate := false }
      (s, aggregateNamed name s line)
  else (s, aggregateNamed name s line)

/-- The loop of `dwarf_lookup_aggregate_kind`. -/
def aggregateLoop (name : CStr) (s : AggregateScan) : List CStr → AggregateKind
  | [] => .none
  | line :: lines =>
    let (s, found) := aggregateLine name s line
    if found then s.currentKind else aggregateLoop name s lines

/-- `dwarf_lookup_aggregate_kind`, on what `dwarfdump --debug-info` prints; `none` when there is
nothing it can be run on. -/
def dwarfLookupAggregateKind (dump : Option (List Char)) (name : CStr) : AggregateKind :=
  match dump with
  | none => .none
  | some text =>
    if name = [] ∨ typeIsScalar name = true then .none
    else aggregateLoop name {} (fgetsLines maxDumpLine text)

/-! ### The kind of a DIE -/

/-- The kind of aggregate a DIE declares. -/
def SeenDie.aggregateKind (x : SeenDie) : AggregateKind :=
  if x.is .structureType then .struct else if x.is .unionType then .union else .none

/-- The line has the name, as far as the buffer holds it. -/
def namesAggregate (name line : CStr) : Bool :=
  strstr line "DW_AT_name".toList && decide (parseQuotedValue maxAggregateName line = some name)

/-- The DIE declares an aggregate of the name. -/
def SeenDie.declaresAggregate (name : CStr) (x : SeenDie) : Bool :=
  x.aggregateKind != .none && x.rest.any (namesAggregate name)

/-- The first struct or union of a name, in the order of the text. -/
def aggregateNamedIn (name : CStr) (es : List Entry) : Option SeenDie :=
  (seen es).find? (·.declaresAggregate name)

section Scan

variable {name : CStr} {s : AggregateScan} {x : SeenDie} {ls : List (Entry × CStr)}
  {es : List Entry}

/-- The scope the scan is in behind the first line of a DIE. -/
def AggregateScan.enter (s : AggregateScan) (x : SeenDie) : AggregateScan :=
  match x.aggregateKind with
  | .none => { s with inAggregate := false }
  | kind => { inAggregate := true, currentKind := kind }

theorem AggregateScan.enter_inAggregate :
    (s.enter x).inAggregate = (x.aggregateKind != .none) := by
  rw [AggregateScan.enter]
  split
  · rename_i hkind
    rw [hkind]
    rfl
  · rename_i hkind
    rw [bne_iff_ne.mpr hkind]

theorem AggregateScan.enter_currentKind (h : x.aggregateKind ≠ .none) :
    (s.enter x).currentKind = x.aggregateKind := by
  rw [AggregateScan.enter]
  split
  · rename_i hkind
    exact absurd hkind h
  · rfl

/-- The first line of a DIE opens the scope of an aggregate, and closes every other one. -/
theorem aggregateLine_start (h : dwarfStartsDie x.line = true) :
    aggregateLine name s x.line = (s.enter x, false) := by
  rw [aggregateLine, if_pos h, AggregateScan.enter, SeenDie.aggregateKind]
  show (if x.is .structureType then _ else if x.is .unionType then _ else _) = _
  by_cases hstruct : x.is .structureType = true
  · rw [if_pos hstruct, if_pos hstruct]
  by_cases hunion : x.is .unionType = true
  · rw [if_neg hstruct, if_pos hunion, if_neg hstruct, if_pos hunion]
  · rw [if_neg hstruct, if_neg hunion, if_neg hstruct, if_neg hunion]
    exact ite_self _

/-- A line inside of a DIE may have the name. -/
theorem aggregateLine_other {line : CStr} (h : dwarfStartsDie line = false) :
    aggregateLine name s line = (s, s.inAggregate && namesAggregate name line) := by
  rw [aggregateLine, h, if_neg Bool.false_ne_true, aggregateNamed, namesAggregate, Bool.and_assoc]

/-- The scan of the lines finds the first aggregate of the name, unless it is in one whose name
comes first. -/
theorem aggregateLoop_blocks : ∀ s : AggregateScan, aggregateLoop name s (ls.map (·.2)) =
    if s.inAggregate && ((lead startsDie ls).map (·.2)).any (namesAggregate name) then
      s.currentKind
    else (((blocks startsDie ls).find? (SeenDie.declaresAggregate name)).map
      SeenDie.aggregateKind).getD .none := by
  induction ls with
  | nil =>
    intro s
    show AggregateKind.none = if s.inAggregate && false then _ else _
    rw [Bool.and_false]
    rfl
  | cons l ls ih =>
    intro s
    cases hstart : startsDie l with
    | false =>
      have hline : dwarfStartsDie l.2 = false := hstart
      rw [lead_cons_other hstart, blocks_cons_other hstart, List.map_cons, List.map_cons,
        List.any_cons, aggregateLoop, aggregateLine_other hline]
      dsimp only
      rw [ih]
      cases s.inAggregate <;> cases namesAggregate name l.2 <;> rfl
    | true =>
      let x : SeenDie := ⟨l, lead startsDie ls⟩
      have hline : aggregateLine name s l.2 = _ := @aggregateLine_start name s x hstart
      rw [lead_cons_start hstart, blocks_cons_start hstart, List.map_cons, List.map_nil,
        List.any_nil, Bool.and_false, if_neg Bool.false_ne_true, aggregateLoop, hline]
      dsimp only
      rw [if_neg Bool.false_ne_true, ih, AggregateScan.enter_inAggregate]
      by_cases hfound : x.declaresAggregate name = true
      · have hkind : x.aggregateKind ≠ .none := bne_iff_ne.mp (Bool.and_eq_true_iff.mp hfound).1
        rw [List.find?_cons_of_pos hfound]
        exact (if_pos hfound).trans (AggregateScan.enter_currentKind hkind)
      · rw [List.find?_cons_of_neg hfound]
        exact if_neg hfound

/-- `dwarf_lookup_aggregate_kind` finds the kind of the first aggregate of the name. -/
theorem lookupAggregateKind_seen (hname : name ≠ []) (hscalar : typeIsScalar name = false) :
    dwarfLookupAggregateKind (some (dumpText es)) name =
      ((aggregateNamedIn name es).map SeenDie.aggregateKind).getD .none := by
  have hlook : ¬ (name = [] ∨ typeIsScalar name = true) := by simp [hname, hscalar]
  rw [dwarfLookupAggregateKind, if_neg hlook, ← map_readLines]
  exact aggregateLoop_blocks {}

end Scan

/-! ### The type as it is shown -/

/-- `type_has_struct_union_prefix` -/
def typeHasStructUnionPrefix (type : CStr) : Bool :=
  "struct ".toList.isPrefixOf type || "union ".toList.isPrefixOf type

/-- The size of the buffer of a type that is shown. -/
abbrev maxDisplayType : ℕ := 256

/-- What is put in front of the name. -/
def AggregateKind.keyword : AggregateKind → CStr
  | none => []
  | struct => "struct ".toList
  | union => "union ".toList

/-- `format_type_for_display` -/
def formatTypeForDisplay (aggregateKind : CStr → AggregateKind) (type : CStr) : CStr :=
  if type = [] then []
  else if typeHasStructUnionPrefix type then snprintf maxDisplayType type
  else
    let work := snprintf maxDisplayType type
    let arraySuffix := snprintf 64 (work.dropWhile (· ≠ '['))
    let work := work.takeWhile (· ≠ '[')
    let ptrSuffix := if work.contains '*' then " *".toList else []
    let base := trimSpace (work.takeWhile (· ≠ '*'))
    match aggregateKind base with
    | .none => snprintf maxDisplayType type
    | kind => snprintf maxDisplayType (kind.keyword ++ (base ++ (arraySuffix ++ ptrSuffix)))

section Display

variable {base suffix : CStr} {k : ℕ} {aggregateKind : CStr → AggregateKind}

theorem isspace_of_mem_identifier (hbase : isIdentifier base = true) {c : Char} (hc : c ∈ base) :
    isspace c = false := by
  refine Bool.eq_false_iff.mpr fun hspace => ?_
  have hword : isIdentChar c = false := by
    simp only [isspace, Bool.or_eq_true, decide_eq_true_eq] at hspace
    rcases hspace with ((((rfl | rfl) | rfl) | rfl) | rfl) | rfl <;> decide
  exact not_mem_identifier hbase hword hc

/-- The type is taken apart at the first bracket and at the first star in front of it. -/
theorem formatTypeForDisplay_eq (hbase : isIdentifier base = true)
    (hsuffix : ∀ c ∈ suffix.head?, c = '[' ∨ c = '*')
    (hspelt : typeHasStructUnionPrefix (base ++ (List.replicate k ' ' ++ suffix)) = false)
    (hlen : base.length + k + suffix.length < maxDisplayType)
    (hkind : aggregateKind base ≠ .none) :
    formatTypeForDisplay aggregateKind (base ++ (List.replicate k ' ' ++ suffix)) =
      snprintf maxDisplayType ((aggregateKind base).keyword ++ (base ++
        (snprintf 64 (suffix.dropWhile (· ≠ '[')) ++
          if '*' ∈ suffix.takeWhile (· ≠ '[') then " *".toList else []))) := by
  have hfront : ∀ {d : Char}, isIdentChar d = false → d ≠ ' ' →
      ∀ c ∈ base ++ List.replicate k ' ', decide (c ≠ d) = true := by
    intro d hd hblank c hc
    refine decide_eq_true ?_
    rintro rfl
    rcases List.mem_append.mp hc with hc | hc
    · exact not_mem_identifier hbase hd hc
    · exact hblank (List.mem_replicate.mp hc).2
  have hbracket := @hfront '[' (by decide) (by decide)
  have hstar := @hfront '*' (by decide) (by decide)
  have hnostar : '*' ∉ base ++ List.replicate k ' ' := fun h =>
    of_decide_eq_true (hstar _ h) rfl
  have hblank : Blank (List.replicate k ' ') := by
    intro c hc
    rw [(List.mem_replicate.mp hc).2]
    rfl
  have htrim : trimSpace (base ++ List.replicate k ' ') = base := by
    rw [trimSpace_append_right hblank, trimSpace_eq_self_iff]
    exact ⟨fun c hc => isspace_of_mem_identifier hbase (List.mem_of_mem_head? hc),
      fun c hc => isspace_of_mem_identifier hbase (List.mem_of_mem_getLast? hc)⟩
  -- the text up to the first star, in front of the brackets
  have hhead : (suffix.takeWhile (· ≠ '[')).takeWhile (· ≠ '*') = [] := by
    cases suffix with
    | nil => rfl
    | cons c cs =>
      rcases hsuffix c rfl with rfl | rfl
      · rw [List.takeWhile_cons_of_neg (by decide), List.takeWhile_nil]
      · rw [List.takeWhile_cons_of_pos (by decide), List.takeWhile_cons_of_neg (by decide)]
  have hne : base ++ (List.replicate k ' ' ++ suffix) ≠ [] := fun h =>
    identifier_ne_nil hbase (List.append_eq_nil_iff.mp h).1
  have hwork : snprintf maxDisplayType (base ++ (List.replicate k ' ' ++ suffix)) =
      base ++ List.replicate k ' ' ++ suffix := by
    rw [snprintf_of_lt, List.append_assoc]
    rw [List.length_append, List.length_append, List.length_replicate]
    omega
  have hcontains : ((base ++ List.replicate k ' ' ++ suffix.takeWhile (· ≠ '[')).contains '*' =
      true) = ('*' ∈ suffix.takeWhile (· ≠ '[')) := by
    rw [List.contains_iff_mem, List.mem_append, or_iff_right hnostar]
  rw [formatTypeForDisplay, if_neg hne, hspelt, if_neg Bool.false_ne_true]
  dsimp only
  rw [hwork, List.dropWhile_append_of_pos hbracket, List.takeWhile_append_of_pos hbracket,
    List.takeWhile_append_of_pos hstar, hhead, List.append_nil, htrim]
  simp only [hcontains]

/-- What is put behind the name is what stood there in three cases only. -/
theorem suffix_eq_iff (hsuffix : ∀ c ∈ suffix.head?, c = '[' ∨ c = '*') :
    (snprintf 64 (suffix.dropWhile (· ≠ '[')) ++
        if '*' ∈ suffix.takeWhile (· ≠ '[') then " *".toList else []) =
        List.replicate k ' ' ++ suffix ↔
      k = 0 ∧ (suffix = [] ∨ suffix.head? = some '[' ∧ suffix.length ≤ 63) ∨
        k = 1 ∧ suffix = ['*'] := by
  cases suffix with
  | nil =>
    have hleft : snprintf 64 (([] : CStr).dropWhile (· ≠ '[')) ++
        (if '*' ∈ ([] : CStr).takeWhile (· ≠ '[') then " *".toList else []) = [] := rfl
    rw [hleft, List.append_nil, eq_comm, List.replicate_eq_nil_iff]
    simp
  | cons c cs =>
    rcases hsuffix c rfl with rfl | rfl
    · have hdrop : ('[' :: cs).dropWhile (· ≠ '[') = '[' :: cs := rfl
      have htake : ('[' :: cs).takeWhile (· ≠ '[') = [] := rfl
      rw [hdrop, htake, if_neg List.not_mem_nil, List.append_nil, snprintf]
      cases k with
      | zero =>
        rw [List.replicate_zero, List.nil_append, List.take_eq_self_iff]
        simp
      | succ k =>
        refine iff_of_false (fun h => ?_) (by simp)
        rw [List.replicate_succ, List.cons_append] at h
        exact absurd (List.cons.inj h).1 (by decide)
    · have hstar : '*' ∈ ('*' :: cs).takeWhile (· ≠ '[') := by
        rw [List.takeWhile_cons_of_pos (by decide)]
        exact List.mem_cons_self
      rw [if_pos hstar, List.dropWhile_cons_of_pos (by decide)]
      cases hdrop : cs.dropWhile (· ≠ '[') with
      | nil =>
        have hleft : snprintf 64 ([] : CStr) ++ " *".toList = ' ' :: ['*'] := rfl
        rw [hleft]
        cases k with
        | zero => simp
        | succ k =>
          rw [List.replicate_succ, List.cons_append, List.cons_inj_right]
          cases k with
          | zero => simp [eq_comm]
          | succ k => simp [List.replicate_succ]
      | cons d ds =>
        have hd : d = '[' := by
          have hhead := List.head?_dropWhile_not (fun c : Char => decide (c ≠ '[')) cs
          rw [hdrop] at hhead
          simpa using hhead
        subst hd
        refine iff_of_false (fun h => ?_) ?_
        · cases k with
          | zero => exact absurd (List.cons.inj h).1 (by decide)
          | succ k => exact absurd (List.cons.inj h).1 (by decide)
        · rintro (⟨-, h⟩ | ⟨-, h⟩)
          · simp at h
          · obtain rfl := (List.cons.inj h).2
            cases hdrop

/-- The keyword stands in front of the unchanged type exactly for the name alone, with an array
suffix directly behind it, or with one star one blank behind it. -/
theorem displayed_as_declared_iff {es : List Entry} {x : SeenDie}
    (hbase : isIdentifier base = true) (hscalar : typeIsScalar base = false)
    (hfound : aggregateNamedIn base es = some x)
    (hsuffix : ∀ c ∈ suffix.head?, c = '[' ∨ c = '*')
    (hspelt : typeHasStructUnionPrefix (base ++ (List.replicate k ' ' ++ suffix)) = false)
    (hlen : base.length + k + suffix.length < 247) :
    formatTypeForDisplay (dwarfLookupAggregateKind (some (dumpText es)))
        (base ++ (List.replicate k ' ' ++ suffix)) =
        x.aggregateKind.keyword ++ (base ++ (List.replicate k ' ' ++ suffix)) ↔
      k = 0 ∧ (suffix = [] ∨ suffix.head? = some '[' ∧ suffix.length ≤ 63) ∨
        k = 1 ∧ suffix = ['*'] := by
  have hkind : dwarfLookupAggregateKind (some (dumpText es)) base = x.aggregateKind := by
    rw [lookupAggregateKind_seen (identifier_ne_nil hbase) hscalar, hfound]
    rfl
  have hsome : x.aggregateKind ≠ .none := by
    have hdeclares := List.find?_some hfound
    exact bne_iff_ne.mp (Bool.and_eq_true_iff.mp hdeclares).1
  have hkeyword : x.aggregateKind.keyword.length ≤ 7 := by
    cases x.aggregateKind <;> decide
  have harray : (snprintf 64 (suffix.dropWhile (· ≠ '['))).length ≤ suffix.length :=
    (List.length_take_le' _ _).trans (List.dropWhile_suffix _).length_le
  have hptr : (if '*' ∈ suffix.takeWhile (· ≠ '[') then " *".toList else []).length ≤ 2 := by
    split <;> decide
  have hmax : maxDisplayType = 256 := rfl
  rw [formatTypeForDisplay_eq hbase hsuffix hspelt (by omega) (by rw [hkind]; exact hsome), hkind,
    snprintf_of_lt (by simp only [List.length_append]; omega), List.append_cancel_left_eq,
    List.append_cancel_left_eq]
  exact suffix_eq_iff hsuffix

end Display

/-! ### A list node -/

/-- A struct `node` below a function, behind a variable of that name. -/
def nodeEntries : List Entry :=
  [.die 0 ⟨0x0b, .subprogram, [.name "push".toList]⟩,
    .die 1 ⟨0x20, .var, [.name "node".toList]⟩,
    .die 1 ⟨0x2e, .structureType, [.byteSize 16, .name "node".toList]⟩,
    .null 1 0x40]

/-- A second star is not shown. -/
theorem displayed_as_declared_node :
    formatTypeForDisplay (dwarfLookupAggregateKind (some (dumpText nodeEntries)))
        "node **".toList ≠ "struct node **".toList := by
  let e : Entry := .die 1 ⟨0x2e, .structureType, [.byteSize 16, .name "node".toList]⟩
  have hfound : aggregateNamedIn "node".toList nodeEntries = some e.seenDie := by
    have hfirst : nodeEntries.find? (fun e => e.seenDie.declaresAggregate "node".toList) =
        some e := by decide +kernel
    rw [aggregateNamedIn, (seen_of_plain (by decide +kernel) (by decide +kernel)).1, List.find?_map]
    exact congrArg (Option.map Entry.seenDie) hfirst
  have hkind : e.seenDie.aggregateKind = .struct := by decide +kernel
  have hkeyword := @displayed_as_declared_iff "node".toList "**".toList 1 nodeEntries _
    (by decide) (by decide) hfound (fun _ hc => .inr (Option.some.inj hc).symm) (by decide)
    (by decide)
  rw [hkind] at hkeyword
  exact fun h => absurd (hkeyword.mp h) (by decide)

end Debugger
