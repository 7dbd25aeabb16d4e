/-
The text of `dwarfdump --debug-info` and the functions that read its lines.

The scans of `debugger.c` look at one line at a time and tell what it is by the marker texts in
it (`DW_TAG_...`, `NULL`, `DW_AT_...`).  `Dies` is the tree the text is printed from.  In a line
whose names and values are `Plain`, exactly the markers of its key occur
(`strstr_attrLine`, `strstr_headerLine`), and the readers return what has been printed
(`parseQuotedValue_name`, `parseHexValue_attrLine`, `parseFbregOffset_fbreg`).  Whatever the names
are, the lines that are read of a text are those of its entries (`fgetsLines_dumpText`).
-/
import Debugger.VarInfo
import Debugger.Lib.Substring
import Mathlib.Data.Nat.Digits.Defs

open Prog

namespace Debugger

/-! ### Reading lines -/

/-- The lines `fgets` reads into a buffer of `size` bytes, from a line on of which `line` has
been read. -/
def fgetsLinesFrom (size : ℕ) (line : CStr) : List Char → List CStr
  | [] => if line = [] then [] else [line]
  | c :: cs =>
    if c = '\n' ∨ line.length + 1 ≥ size - 1 then (line ++ [c]) :: fgetsLinesFrom size [] cs
    else fgetsLinesFrom size (line ++ [c]) cs

/-- `while (fgets(line, size, fp) != NULL)` -/
def fgetsLines (size : ℕ) (text : List Char) : List CStr := fgetsLinesFrom size [] text

/-- The size of the line buffers of the scans. -/
abbrev maxDumpLine : ℕ := 1024

/-- `dwarf_starts_die` -/
def dwarfStartsDie (line : CStr) : Bool :=
  strstr line "DW_TAG_".toList || strstr line "NULL".toList

/-- `dwarf_line_depth` -/
def dwarfLineDepth (line : CStr) : ℕ :=
  match line.dropWhile (· ≠ ':') with
  | [] => 0
  | _ :: rest => (rest.takeWhile (· = ' ')).length

/-- `parse_quoted_value` into a buffer of `size` bytes. -/
def parseQuotedValue (size : ℕ) (line : CStr) : Option CStr :=
  match line.dropWhile (· ≠ '"') with
  | [] => none
  | _ :: rest => if '"' ∈ rest then some (snprintf size (rest.takeWhile (· ≠ '"'))) else none

/-- The text behind an optional `0x`, which counts only before a digit. -/
def skipHexPrefix : CStr → CStr
  | '0' :: x :: c :: rest =>
    if (x = 'x' ∨ x = 'X') ∧ (digitValue 16 c).isSome then c :: rest else '0' :: x :: c :: rest
  | cs => cs

/-- `strtoull(text, &end, 16)`; `none` when nothing was converted. -/
def strtoull16 (text : CStr) : Option UInt64 :=
  let (neg, cs) := sign (text.dropWhile isspace)
  let cs := skipHexPrefix cs
  match cs with
  | [] => none
  | c :: _ =>
    if (digitValue 16 c).isSome then
      let (n, _) := digits 16 0 cs
      if n < 2 ^ 64 then some (if neg then -UInt64.ofNat n else UInt64.ofNat n)
      else some (UInt64.ofNat (2 ^ 64 - 1))
    else none

/-- `parse_hex_value` -/
def parseHexValue (line : CStr) : Option Addr :=
  (dropTo "0x".toList line).bind strtoull16

/-- `parse_fbreg_offset` -/
def parseFbregOffset (line : CStr) : Option Int64 :=
  (dropTo "DW_OP_fbreg".toList line).bind fun fbreg =>
    let text := fbreg.drop "DW_OP_fbreg".toList.length
    match strtol text with
    | (value, rest) => if rest = text then none else some (Int64.ofInt value)

/-- The number in base 16 behind the first parenthesis. -/
def parseParenHex (line : CStr) : Option UInt64 :=
  match line.dropWhile (· ≠ '(') with
  | [] => none
  | _ :: rest => strtoull16 rest

/-- `parse_member_offset` -/
def parseMemberOffset (line : CStr) : Option UInt64 :=
  (dropTo "DW_AT_data_member_location".toList line).bind parseParenHex

/-- `pc_in_range`; a high pc below the low one is a length. -/
def pcInRange (pc low high : Addr) : Bool :=
  if low = 0 ∨ high = 0 then false
  else
    let high := if high < low then high + low else high
    low ≤ pc ∧ pc < high

/-! ### The printed tree -/

/-- The tags of the DIEs of a C program. -/
inductive Tag
  | compileUnit | subprogram | formalParameter | var | lexicalBlock | inlinedSubroutine
  | label | unspecifiedParameters | baseType | pointerType | constType | volatileType | typedef
  | structureType | unionType | enumerationType | enumerator | member | arrayType
  | subrangeType | subroutineType
deriving DecidableEq, Repr

/-- The tag as it is printed. -/
def Tag.text : Tag → CStr
  | compileUnit => "DW_TAG_compile_unit".toList
  | subprogram => "DW_TAG_subprogram".toList
  | formalParameter => "DW_TAG_formal_parameter".toList
  | var => "DW_TAG_variable".toList
  | lexicalBlock => "DW_TAG_lexical_block".toList
  | inlinedSubroutine => "DW_TAG_inlined_subroutine".toList
  | label => "DW_TAG_label".toList
  | unspecifiedParameters => "DW_TAG_unspecified_parameters".toList
  | baseType => "DW_TAG_base_type".toList
  | pointerType => "DW_TAG_pointer_type".toList
  | constType => "DW_TAG_const_type".toList
  | volatileType => "DW_TAG_volatile_type".toList
  | typedef => "DW_TAG_typedef".toList
  | structureType => "DW_TAG_structure_type".toList
  | unionType => "DW_TAG_union_type".toList
  | enumerationType => "DW_TAG_enumeration_type".toList
  | enumerator => "DW_TAG_enumerator".toList
  | member => "DW_TAG_member".toList
  | arrayType => "DW_TAG_array_type".toList
  | subrangeType => "DW_TAG_subrange_type".toList
  | subroutineType => "DW_TAG_subroutine_type".toList

/-- Attributes no scan reads. -/
inductive OtherKey
  | producer | language | stmtList | compDir | frameBase | declFile | declLine | prototyped
  | external | declaration | encoding | count | constValue | abstractOrigin
deriving DecidableEq, Repr

def OtherKey.text : OtherKey → CStr
  | producer => "DW_AT_producer".toList
  | language => "DW_AT_language".toList
  | stmtList => "DW_AT_stmt_list".toList
  | compDir => "DW_AT_comp_dir".toList
  | frameBase => "DW_AT_frame_base".toList
  | declFile => "DW_AT_decl_file".toList
  | declLine => "DW_AT_decl_line".toList
  | prototyped => "DW_AT_prototyped".toList
  | external => "DW_AT_external".toList
  | declaration => "DW_AT_declaration".toList
  | encoding => "DW_AT_encoding".toList
  | count => "DW_AT_count".toList
  | constValue => "DW_AT_const_value".toList
  | abstractOrigin => "DW_AT_abstract_origin".toList

/-- An attribute of a DIE. -/
inductive Attr
  | name (text : CStr)
  | type (ref : UInt64) (text : CStr)
  | fbreg (offset : Int64)
  | addr (address : Addr)
  | lowPc (address : Addr)
  | highPc (address : Addr)
  | byteSize (size : UInt64)
  | memberLocation (offset : UInt64)
  | other (key : OtherKey) (value : CStr)
deriving DecidableEq

/-- `%0*x` with at most the given number of digits. -/
def hexText : ℕ → ℕ → CStr
  | 0, _ => []
  | w + 1, n => hexText w (n / 16) ++ [Nat.digitChar (n % 16)]

/-- `0x%0*x` -/
def hexNumeral (w : ℕ) (v : UInt64) : CStr := '0' :: 'x' :: hexText w v.toNat

/-- `%+lld` -/
def intText (v : Int64) : CStr :=
  (if v < 0 then '-' else '+') :: Nat.toDigits 10 v.toInt.natAbs

namespace Attr

def key : Attr → CStr
  | name _ => "DW_AT_name".toList
  | type .. => "DW_AT_type".toList
  | fbreg _ | addr _ => "DW_AT_location".toList
  | lowPc _ => "DW_AT_low_pc".toList
  | highPc _ => "DW_AT_high_pc".toList
  | byteSize _ => "DW_AT_byte_size".toList
  | memberLocation _ => "DW_AT_data_member_location".toList
  | other key _ => key.text

/-- The operation of a location. -/
def op : Attr → CStr
  | fbreg _ => "DW_OP_fbreg".toList
  | addr _ => "DW_OP_addr".toList
  | _ => []

/-- What is printed between the parentheses. -/
def value : Attr → CStr
  | name text => '"' :: (text ++ ['"'])
  | type ref text => hexNumeral 8 ref ++ ' ' :: '"' :: (text ++ ['"'])
  | fbreg offset => "DW_OP_fbreg".toList ++ ' ' :: intText offset
  | addr address => "DW_OP_addr".toList ++ ' ' :: hexNumeral 16 address
  | lowPc address | highPc address => hexNumeral 16 address
  | byteSize size => hexNumeral 16 size
  | memberLocation offset => hexNumeral 16 offset
  | other _ value => value

theorem value_name (text : CStr) : (name text).value = '"' :: (text ++ ['"']) := rfl

theorem value_type (ref : UInt64) (text : CStr) :
    (type ref text).value = hexNumeral 8 ref ++ ' ' :: '"' :: (text ++ ['"']) := rfl

theorem value_fbreg (offset : Int64) :
    (fbreg offset).value = "DW_OP_fbreg".toList ++ ' ' :: intText offset := rfl

theorem value_addr (address : Addr) :
    (addr address).value = "DW_OP_addr".toList ++ ' ' :: hexNumeral 16 address := rfl

end Attr

/-- A DIE without its children. -/
structure DieHead where
  offset : UInt64
  tag : Tag
  attrs : List Attr
deriving DecidableEq

/-- A list of DIEs.  The children of a `node` are closed by a `NULL` entry. -/
inductive Dies
  | nil
  | leaf (head : DieHead) (rest : Dies)
  | node (head : DieHead) (children : Dies) (nullOffset : UInt64) (rest : Dies)

/-- An entry of the text: a DIE or the end of a list of children, with its depth. -/
inductive Entry
  | die (depth : ℕ) (head : DieHead)
  | null (depth : ℕ) (offset : UInt64)
deriving DecidableEq

/-- The entries of a list of DIEs in the order of the text. -/
def Dies.entries (depth : ℕ) : Dies → List Entry
  | nil => []
  | leaf head rest => .die depth head :: rest.entries depth
  | node head children nullOffset rest =>
    .die depth head :: (children.entries (depth + 1) ++
      .null (depth + 1) nullOffset :: rest.entries depth)

/-- The first line of an entry. -/
def headerLine (depth : ℕ) (offset : UInt64) (text : CStr) : CStr :=
  hexNumeral 8 offset ++ ':' :: (List.replicate (1 + 2 * depth) ' ' ++ (text ++ ['\n']))

/-- The line of an attribute. -/
def attrLine (depth : ℕ) (a : Attr) : CStr :=
  List.replicate (14 + 2 * depth) ' ' ++ (a.key ++ '\t' :: '(' :: (a.value ++ [')', '\n']))

namespace Entry

def depth : Entry → ℕ
  | die depth _ | null depth _ => depth

def attrs : Entry → List Attr
  | die _ head => head.attrs
  | null .. => []

/-- The marker of the entry. -/
def text : Entry → CStr
  | die _ head => head.tag.text
  | null .. => "NULL".toList

def offset : Entry → UInt64
  | die _ head => head.offset
  | null _ offset => offset

/-- The lines of an entry, with an empty one behind it. -/
def lines (e : Entry) : List CStr :=
  headerLine e.depth e.offset e.text :: (e.attrs.map (attrLine e.depth) ++ [['\n']])

end Entry

/-- The text printed for a list of entries. -/
def dumpText (es : List Entry) : List Char := (es.flatMap Entry.lines).flatten

/-! ### Markers -/

/-- How the texts begin that the scans look for. -/
def markerLeads : List CStr :=
  ["DW_TAG_".toList, "DW_AT_".toList, "DW_OP_".toList, "NULL".toList]

/-- A text the scans look for; it has no separators. -/
def IsMarker (m : CStr) : Prop :=
  (∃ lead ∈ markerLeads, lead <+: m) ∧
    ∀ c ∈ m, c ≠ ' ' ∧ c ≠ '\t' ∧ c ≠ '(' ∧ c ≠ ')' ∧ c ≠ '\n' ∧ c ≠ '"' ∧ c ≠ ':'

instance (m : CStr) : Decidable (IsMarker m) := inferInstanceAs (Decidable (_ ∧ _))

/-- A name or a value without anything the scans look for. -/
structure PlainText (text : CStr) : Prop where
  noMarker : ∀ lead ∈ markerLeads, ¬ lead <:+: text
  noQuote : '"' ∉ text
  noNewline : '\n' ∉ text

instance (text : CStr) : Decidable (PlainText text) :=
  decidable_of_iff ((∀ lead ∈ markerLeads, ¬ lead <:+: text) ∧ '"' ∉ text ∧ '\n' ∉ text)
    ⟨fun ⟨hm, hq, hn⟩ => ⟨hm, hq, hn⟩, fun ⟨hm, hq, hn⟩ => ⟨hm, hq, hn⟩⟩

/-- The texts of the attribute are plain. -/
def Attr.Plain : Attr → Prop
  | .name text | .type _ text => PlainText text
  | .other _ value => (∀ lead ∈ markerLeads, ¬ lead <:+: value) ∧ '\n' ∉ value
  | _ => True

instance : (a : Attr) → Decidable a.Plain
  | .name text | .type _ text => inferInstanceAs (Decidable (PlainText text))
  | .other _ value =>
    inferInstanceAs (Decidable ((∀ lead ∈ markerLeads, ¬ lead <:+: value) ∧ '\n' ∉ value))
  | .fbreg _ | .addr _ | .lowPc _ | .highPc _ | .byteSize _ | .memberLocation _ => .isTrue trivial

section Markers

variable {m : CStr} {depth : ℕ} {a : Attr}

theorem strstr_iff {text : CStr} : strstr text m = true ↔ m <:+: text := by
  rw [strstr, List.any_eq_true, List.infix_iff_prefix_suffix]
  refine exists_congr fun t => ?_
  rw [List.mem_tails, List.isPrefixOf_iff_prefix, and_comm]

/-- The texts of a literal are looked at as lists. -/
theorem isMarker_ofList (h : IsMarker m) : IsMarker (String.ofList m).toList := by
  rwa [String.toList_ofList]

theorem IsMarker.ne_nil (hm : IsMarker m) : m ≠ [] := by
  rintro rfl
  exact absurd hm (by decide)

/-- A marker has a character that no numeral has. -/
theorem IsMarker.mem (hm : IsMarker m) : '_' ∈ m ∨ 'N' ∈ m := by
  obtain ⟨⟨lead, hlead, hpre⟩, -⟩ := hm
  have hall : ∀ lead ∈ markerLeads, '_' ∈ lead ∨ 'N' ∈ lead := by decide
  exact (hall lead hlead).imp (hpre.subset ·) (hpre.subset ·)

theorem IsMarker.not_infix_of_plain (hm : IsMarker m) {text : CStr}
    (htext : ∀ lead ∈ markerLeads, ¬ lead <:+: text) : ¬ m <:+: text := by
  intro h
  obtain ⟨⟨lead, hlead, hpre⟩, -⟩ := hm
  exact htext lead hlead (hpre.isInfix.trans h)

theorem mem_hexText : ∀ {w n : ℕ} {c : Char}, c ∈ hexText w n → ∃ d < 16, c = Nat.digitChar d
  | 0, _, _, h => absurd h List.not_mem_nil
  | w + 1, n, c, h => by
    rw [hexText, List.mem_append, List.mem_singleton] at h
    rcases h with h | rfl
    · exact mem_hexText h
    · exact ⟨n % 16, Nat.mod_lt n (by decide), rfl⟩

theorem not_mem_hexText {w n : ℕ} {c : Char} (hc : ∀ d < 16, c ≠ Nat.digitChar d) :
    c ∉ hexText w n := fun h => by
  obtain ⟨d, hd, rfl⟩ := mem_hexText h
  exact hc d hd rfl

theorem not_mem_intText {v : Int64} {c : Char} (hc : c.isDigit = false) (hminus : c ≠ '-')
    (hplus : c ≠ '+') : c ∉ intText v := by
  intro h
  rw [intText, List.mem_cons] at h
  rcases h with h | h
  · split at h
    · exact hminus h
    · exact hplus h
  · rw [Nat.isDigit_of_mem_toDigits (by decide) (by decide) h] at hc
    exact Bool.noConfusion hc

/-- No marker occurs in a numeral, also behind `0x`. -/
theorem IsMarker.not_infix_hex (hm : IsMarker m) {w : ℕ} {v : UInt64} :
    ¬ m <:+: hexNumeral w v := by
  have hno : ∀ c, c ≠ '0' → c ≠ 'x' → (∀ d < 16, c ≠ Nat.digitChar d) →
      c ∉ hexNumeral w v := by
    intro c h0 hx hc
    simp only [hexNumeral, List.mem_cons, h0, hx, false_or]
    exact not_mem_hexText hc
  rcases hm.mem with h | h
  · exact not_infix_of_not_mem h (hno '_' (by decide) (by decide) (by decide))
  · exact not_infix_of_not_mem h (hno 'N' (by decide) (by decide) (by decide))

theorem IsMarker.not_infix_int (hm : IsMarker m) {v : Int64} : ¬ m <:+: intText v := by
  rcases hm.mem with h | h
  · exact not_infix_of_not_mem h (not_mem_intText (by decide) (by decide) (by decide))
  · exact not_infix_of_not_mem h (not_mem_intText (by decide) (by decide) (by decide))

/-- In the first line of an entry the markers of its tag occur. -/
theorem strstr_headerLine (hm : IsMarker m) {offset : UInt64} {text : CStr} :
    strstr (headerLine depth offset text) m = strstr text m := by
  have hsep := fun c hc => hm.2 c hc
  have hcolon : ':' ∉ m := fun h => (hsep _ h).2.2.2.2.2.2 rfl
  have hblank : ' ' ∉ m := fun h => (hsep _ h).1 rfl
  have hnl : '\n' ∉ m := fun h => (hsep _ h).2.2.2.2.1 rfl
  rw [Bool.eq_iff_iff, strstr_iff, strstr_iff, headerLine, infix_append_cons_iff hcolon,
    or_iff_right hm.not_infix_hex, infix_replicate_append_iff hm.ne_nil hblank,
    infix_append_cons_iff hnl, List.infix_nil, or_iff_left hm.ne_nil]

theorem infix_value_iff (hm : IsMarker m) (ha : a.Plain) : m <:+: a.value ↔ m <:+: a.op := by
  have hsep := fun c hc => hm.2 c hc
  have hblank : ' ' ∉ m := fun h => (hsep _ h).1 rfl
  have hquote : '"' ∉ m := fun h => (hsep _ h).2.2.2.2.2.1 rfl
  have hquoted : ∀ {text : CStr}, PlainText text → ¬ m <:+: '"' :: (text ++ ['"']) := by
    intro text htext h
    rw [infix_cons_iff_of_not_mem hm.ne_nil hquote, infix_append_cons_iff hquote, List.infix_nil,
      or_iff_left hm.ne_nil] at h
    exact hm.not_infix_of_plain htext.noMarker h
  have hempty : ¬ m <:+: [] := fun h => hm.ne_nil (List.infix_nil.mp h)
  cases a with
  | name text => exact iff_of_false (hquoted ha) hempty
  | type ref text =>
    refine iff_of_false (fun h => ?_) hempty
    rw [Attr.value_type, infix_append_cons_iff hblank, or_iff_right hm.not_infix_hex] at h
    exact hquoted ha h
  | fbreg offset =>
    rw [Attr.value_fbreg, infix_append_cons_iff hblank, or_iff_left hm.not_infix_int]
    exact Iff.rfl
  | addr address =>
    rw [Attr.value_addr, infix_append_cons_iff hblank, or_iff_left hm.not_infix_hex]
    exact Iff.rfl
  | lowPc address => exact iff_of_false hm.not_infix_hex hempty
  | highPc address => exact iff_of_false hm.not_infix_hex hempty
  | byteSize size => exact iff_of_false hm.not_infix_hex hempty
  | memberLocation offset => exact iff_of_false hm.not_infix_hex hempty
  | other key value => exact iff_of_false (hm.not_infix_of_plain ha.1) hempty

/-- In the line of an attribute the markers of its key occur, and those of its operation. -/
theorem strstr_attrLine (hm : IsMarker m) (ha : a.Plain) :
    strstr (attrLine depth a) m = (strstr a.key m || strstr a.op m) := by
  have hsep := fun c hc => hm.2 c hc
  have hblank : ' ' ∉ m := fun h => (hsep _ h).1 rfl
  have htab : '\t' ∉ m := fun h => (hsep _ h).2.1 rfl
  have hopen : '(' ∉ m := fun h => (hsep _ h).2.2.1 rfl
  have hclose : ')' ∉ m := fun h => (hsep _ h).2.2.2.1 rfl
  have hnl : '\n' ∉ m := fun h => (hsep _ h).2.2.2.2.1 rfl
  rw [Bool.eq_iff_iff, Bool.or_eq_true, strstr_iff, strstr_iff, strstr_iff, attrLine,
    infix_replicate_append_iff hm.ne_nil hblank, infix_append_cons_iff htab,
    infix_cons_iff_of_not_mem hm.ne_nil hopen, infix_append_cons_iff hclose,
    infix_cons_iff_of_not_mem hm.ne_nil hnl, List.infix_nil, or_iff_left hm.ne_nil,
    infix_value_iff hm ha]

end Markers

/-! ### Numerals -/

section Numerals

theorem digitValue_digitChar : ∀ {d : ℕ}, d < 16 → digitValue 16 (Nat.digitChar d) = some d := by
  decide

/-- The digits of a hexadecimal numeral are read as its value. -/
theorem digits_hexText {rest : CStr} : ∀ {w n acc : ℕ},
    digits 16 acc (hexText w n ++ rest) = digits 16 (acc * 16 ^ w + n % 16 ^ w) rest
  | 0, n, acc => by simp [hexText, Nat.mod_one]
  | w + 1, n, acc => by
    have hdigit := digitValue_digitChar (Nat.mod_lt n (by decide : 16 > 0))
    rw [hexText, List.append_assoc, digits_hexText, List.singleton_append, digits, hdigit]
    have hmod : n % 16 ^ (w + 1) = n % 16 + 16 * (n / 16 % 16 ^ w) := by
      rw [Nat.pow_succ', Nat.mod_mul]
    have hpow : acc * 16 ^ (w + 1) = acc * 16 ^ w * 16 := by
      rw [Nat.pow_succ, Nat.mul_assoc]
    dsimp only
    rw [hmod, hpow]
    congr 1
    omega

theorem head_hexText : ∀ {w n : ℕ}, ∃ c cs, hexText (w + 1) n = c :: cs ∧
    (digitValue 16 c).isSome = true
  | 0, n => ⟨_, [], rfl, by
      rw [digitValue_digitChar (Nat.mod_lt n (by decide : 16 > 0))]
      rfl⟩
  | w + 1, n => by
    obtain ⟨c, cs, hcs, hc⟩ := @head_hexText w (n / 16)
    exact ⟨c, cs ++ [Nat.digitChar (n % 16)], by rw [hexText, hcs, List.cons_append], hc⟩

/-- A hexadecimal numeral of full width begins with `0x` and a digit, and its digits are read as
its value. -/
theorem hexNumeral_split (v : UInt64) {rest : CStr} (hrest : digitValue 16 (rest.headD ' ') = none) :
    ∃ c cs, hexNumeral 16 v ++ rest = '0' :: 'x' :: c :: cs ∧ (digitValue 16 c).isSome = true ∧
      digits 16 0 (c :: cs) = (v.toNat, rest) := by
  obtain ⟨c, cs, hcs, hc⟩ := @head_hexText 15 v.toNat
  have hdigits : digits 16 0 (hexText 16 v.toNat ++ rest) = (v.toNat, rest) := by
    have hlt : v.toNat < 16 ^ 16 := v.toNat_lt
    rw [digits_hexText, Nat.zero_mul, Nat.zero_add, Nat.mod_eq_of_lt hlt]
    cases rest with
    | nil => rfl
    | cons d rest =>
      have hd : digitValue 16 d = none := hrest
      rw [digits, hd]
  rw [hcs, List.cons_append] at hdigits
  exact ⟨c, cs ++ rest, by rw [hexNumeral, hcs]; rfl, hc, hdigits⟩

/-- A hexadecimal numeral of full width is read back. -/
theorem strtoull16_hexNumeral (v : UInt64) {rest : CStr} (hrest : digitValue 16 (rest.headD ' ') = none) :
    strtoull16 (hexNumeral 16 v ++ rest) = some v := by
  obtain ⟨c, cs, htext, hc, hdigits⟩ := hexNumeral_split v hrest
  have hspace : ('0' :: 'x' :: c :: cs).dropWhile isspace = '0' :: 'x' :: c :: cs :=
    List.dropWhile_cons_of_neg (by decide)
  have hsign : sign ('0' :: 'x' :: c :: cs) = (false, '0' :: 'x' :: c :: cs) := rfl
  have hskip : skipHexPrefix ('0' :: 'x' :: c :: cs) = c :: cs := if_pos ⟨.inl rfl, hc⟩
  rw [htext, strtoull16, hspace, hsign]
  dsimp only
  rw [hskip]
  dsimp only
  rw [if_pos hc, hdigits]
  dsimp only
  rw [if_pos v.toNat_lt, if_neg Bool.false_ne_true, UInt64.ofNat_toNat]

/-- `%+lld` is read back. -/
theorem strtol_intText (v : Int64) {rest : CStr} (hrest : digitValue 10 (rest.headD ' ') = none) :
    strtol (' ' :: (intText v ++ rest)) = (v.toInt, rest) := by
  obtain ⟨c, cs, hcs, hc⟩ := exists_toDigits v.toInt.natAbs
  have hdigits : digits 10 0 (c :: (cs ++ rest)) = (v.toInt.natAbs, rest) := by
    rw [← List.cons_append, ← hcs, digits_numeral _ hrest]
  have hmin := v.le_toInt
  have hmax := v.toInt_lt
  have hneg : v < 0 ↔ v.toInt < 0 := Int64.lt_iff_toInt_lt
  have hsign : sign ((' ' :: (intText v ++ rest)).dropWhile isspace) =
      (decide (v < 0), c :: (cs ++ rest)) := by
    rw [intText, hcs, List.dropWhile_cons_of_pos (by decide)]
    by_cases h : v < 0
    · rw [if_pos h, decide_eq_true h]
      rfl
    · rw [if_neg h, decide_eq_false h]
      rfl
  rw [strtol, hsign]
  dsimp only
  rw [if_pos hc, hdigits]
  dsimp only
  have hvalue : (if decide (v < 0) = true then -(v.toInt.natAbs : Int) else v.toInt.natAbs) =
      v.toInt := by
    simp only [decide_eq_true_eq, hneg]
    split <;> omega
  rw [hvalue]
  congr 1
  omega

end Numerals

attribute [irreducible] hexText

/-! ### Reading a printed line -/

section Lines

variable {depth : ℕ} {a : Attr} {text pre post : CStr}

/-- The depth of an entry is read off the blanks behind the colon. -/
theorem dwarfLineDepth_headerLine {offset : UInt64} (h : text.head? ≠ some ' ') :
    dwarfLineDepth (headerLine depth offset text) = 1 + 2 * depth := by
  have hcolon : ∀ c ∈ hexNumeral 8 offset, decide (c ≠ ':') = true := by
    intro c hc
    rw [hexNumeral, List.mem_cons, List.mem_cons] at hc
    rcases hc with rfl | rfl | hc
    · decide
    · decide
    · obtain ⟨d, hd, rfl⟩ := mem_hexText hc
      have hne : ∀ d < 16, decide (Nat.digitChar d ≠ ':') = true := by decide
      exact hne d hd
  have hdrop : (headerLine depth offset text).dropWhile (· ≠ ':') =
      ':' :: (List.replicate (1 + 2 * depth) ' ' ++ (text ++ ['\n'])) := by
    rw [headerLine, List.dropWhile_append_of_pos hcolon, List.dropWhile_cons_of_neg (by decide)]
  rw [dwarfLineDepth, hdrop]
  dsimp only
  rw [List.takeWhile_append_of_pos (fun c hc => by rw [List.eq_of_mem_replicate hc]; decide)]
  have hstop : (text ++ ['\n']).takeWhile (· = ' ') = [] := by
    cases text with
    | nil => rfl
    | cons c text =>
      have hc : c ≠ ' ' := fun hc => h (by rw [hc]; rfl)
      rw [List.cons_append, List.takeWhile_cons_of_neg (by simpa using hc)]
  rw [hstop, List.append_nil, List.length_replicate]

theorem parseQuotedValue_quoted {size : ℕ} (hpre : '"' ∉ pre) (htext : '"' ∉ text) :
    parseQuotedValue size (pre ++ '"' :: (text ++ '"' :: post)) = some (snprintf size text) := by
  have hne : ∀ {cs : CStr}, '"' ∉ cs → ∀ c ∈ cs, decide (c ≠ '"') = true := fun h c hc =>
    decide_eq_true fun hq => h (hq ▸ hc)
  have hdrop : (pre ++ '"' :: (text ++ '"' :: post)).dropWhile (· ≠ '"') =
      '"' :: (text ++ '"' :: post) := by
    rw [List.dropWhile_append_of_pos (hne hpre), List.dropWhile_cons_of_neg (by decide)]
  have htake : (text ++ '"' :: post).takeWhile (· ≠ '"') = text := by
    rw [List.takeWhile_append_of_pos (hne htext), List.takeWhile_cons_of_neg (by decide),
      List.append_nil]
  rw [parseQuotedValue, hdrop]
  dsimp only
  rw [if_pos (List.mem_append_right _ List.mem_cons_self), htake]

/-- The part of a line in front of the value. -/
def attrLead (depth : ℕ) (a : Attr) : CStr :=
  List.replicate (14 + 2 * depth) ' ' ++ (a.key ++ ['\t'])

theorem attrLine_eq : attrLine depth a = attrLead depth a ++ '(' :: (a.value ++ [')', '\n']) := by
  simp only [attrLine, attrLead, List.append_assoc, List.cons_append, List.nil_append]

theorem not_mem_attrLead {c : Char} (hblank : c ≠ ' ') (htab : c ≠ '\t') (hkey : c ∉ a.key) :
    c ∉ attrLead depth a := by
  simp only [attrLead, List.mem_append, List.mem_replicate, List.mem_singleton, hblank, htab, hkey,
    and_false, or_self, not_false_eq_true]

/-- The name is read back, as far as it fits the buffer. -/
theorem parseQuotedValue_name {size : ℕ} (h : PlainText text) :
    parseQuotedValue size (attrLine depth (.name text)) = some (snprintf size text) := by
  have hlead : '"' ∉ attrLead depth (.name text) ++ ['('] := by
    rw [List.mem_append, not_or]
    exact ⟨not_mem_attrLead (by decide) (by decide) (show '"' ∉ "DW_AT_name".toList by decide),
      by decide⟩
  have hline : attrLine depth (.name text) = (attrLead depth (.name text) ++ ['(']) ++
      '"' :: (text ++ '"' :: [')', '\n']) := by
    rw [attrLine_eq, Attr.value_name]
    simp only [List.append_assoc, List.cons_append, List.nil_append]
  rw [hline, parseQuotedValue_quoted hlead h.noQuote]

theorem parseQuotedValue_type {size : ℕ} {ref : UInt64} (h : PlainText text) :
    parseQuotedValue size (attrLine depth (.type ref text)) = some (snprintf size text) := by
  have hlead : '"' ∉ attrLead depth (.type ref text) ++ '(' :: (hexNumeral 8 ref ++ [' ']) := by
    have hhex : '"' ∉ hexText 8 ref.toNat := not_mem_hexText (by decide)
    have hnumeral : '"' ∉ hexNumeral 8 ref := by
      rw [hexNumeral, List.mem_cons, List.mem_cons]
      exact not_or.mpr ⟨by decide, not_or.mpr ⟨by decide, hhex⟩⟩
    have hkey : '"' ∉ attrLead depth (.type ref text) :=
      not_mem_attrLead (by decide) (by decide) (show '"' ∉ "DW_AT_type".toList by decide)
    rw [List.mem_append, List.mem_cons, List.mem_append, not_or, not_or, not_or]
    exact ⟨hkey, by decide, hnumeral, by decide⟩
  have hline : attrLine depth (.type ref text) =
      (attrLead depth (.type ref text) ++ '(' :: (hexNumeral 8 ref ++ [' '])) ++
      '"' :: (text ++ '"' :: [')', '\n']) := by
    rw [attrLine_eq, Attr.value_type]
    simp only [List.append_assoc, List.cons_append, List.nil_append]
  rw [hline, parseQuotedValue_quoted hlead h.noQuote]

/-- A number is read back behind the parenthesis. -/
theorem parseParenHex_append {value : UInt64} (hpre : '(' ∉ pre) :
    parseParenHex (pre ++ '(' :: (hexNumeral 16 value ++ [')', '\n'])) = some value := by
  have hne : ∀ c ∈ pre, decide (c ≠ '(') = true := fun c hc =>
    decide_eq_true fun h => hpre (h ▸ hc)
  rw [parseParenHex, List.dropWhile_append_of_pos hne, List.dropWhile_cons_of_neg (by decide)]
  exact strtoull16_hexNumeral value rfl

/-- The address of a range attribute is read back. -/
theorem parseHexValue_attrLine {address : Addr} (hvalue : a.value = hexNumeral 16 address)
    (hkey : '0' ∉ a.key) : parseHexValue (attrLine depth a) = some address := by
  have hlead : ¬ "0x".toList <:+: attrLead depth a :=
    not_infix_of_not_mem (d := '0') (by decide) (not_mem_attrLead (by decide) (by decide) hkey)
  have hself : dropTo "0x".toList (hexNumeral 16 address ++ [')', '\n']) =
      some (hexNumeral 16 address ++ [')', '\n']) :=
    dropTo_append_self (m := "0x".toList) (b := hexText 16 address.toNat ++ [')', '\n']) (by decide)
  rw [parseHexValue, attrLine_eq, dropTo_append_cons (by decide) (by decide) hlead, hvalue, hself,
    Option.bind_some, strtoull16_hexNumeral address rfl]

theorem parseParenHex_byteSize {size : UInt64} :
    parseParenHex (attrLine depth (.byteSize size)) = some size := by
  have hlead : '(' ∉ attrLead depth (.byteSize size) :=
    not_mem_attrLead (by decide) (by decide) (show '(' ∉ "DW_AT_byte_size".toList by decide)
  rw [attrLine_eq]
  exact parseParenHex_append hlead

theorem parseMemberOffset_memberLocation {offset : UInt64} :
    parseMemberOffset (attrLine depth (.memberLocation offset)) = some offset := by
  have hno : ¬ "DW_AT_data_member_location".toList <:+: List.replicate (13 + 2 * depth) ' ' :=
    not_infix_of_not_mem (d := 'D') (by decide) fun h =>
      absurd (List.eq_of_mem_replicate h) (by decide)
  have hline : attrLine depth (.memberLocation offset) = List.replicate (13 + 2 * depth) ' ' ++
      ' ' :: ("DW_AT_data_member_location".toList ++ ('\t' :: '(' :: (hexNumeral 16 offset ++
        [')', '\n']))) := by
    rw [attrLine, show 14 + 2 * depth = 13 + 2 * depth + 1 by omega, List.replicate_succ',
      List.append_assoc]
    rfl
  have htab : '(' ∉ "DW_AT_data_member_location".toList ++ ['\t'] := by decide
  have hread := @parseParenHex_append _ offset htab
  rw [List.append_assoc, List.singleton_append] at hread
  rw [parseMemberOffset, hline, dropTo_append_cons (by decide) (by decide) hno,
    dropTo_append_self (by decide), Option.bind_some, hread]

/-- The offset of a location is read back. -/
theorem parseFbregOffset_fbreg {offset : Int64} :
    parseFbregOffset (attrLine depth (.fbreg offset)) = some offset := by
  have hlead : ¬ "DW_OP_fbreg".toList <:+: attrLead depth (.fbreg offset) :=
    not_infix_of_not_mem (d := 'f') (by decide) (not_mem_attrLead (by decide) (by decide)
      (show 'f' ∉ "DW_AT_location".toList by decide))
  have hself : dropTo "DW_OP_fbreg".toList ("DW_OP_fbreg".toList ++ (' ' :: (intText offset ++
      [')', '\n']))) = some ("DW_OP_fbreg".toList ++ (' ' :: (intText offset ++ [')', '\n']))) :=
    dropTo_append_self (by decide)
  have hvalue : (Attr.fbreg offset).value ++ [')', '\n'] =
      "DW_OP_fbreg".toList ++ (' ' :: (intText offset ++ [')', '\n'])) := by
    rw [Attr.value_fbreg, List.append_assoc, List.cons_append]
  rw [parseFbregOffset, attrLine_eq, dropTo_append_cons (by decide) (by decide) hlead, hvalue,
    hself, Option.bind_some]
  dsimp only
  rw [List.drop_left, strtol_intText offset rfl]
  dsimp only
  rw [if_neg (fun h => by cases h), Int64.ofInt_toInt]

/-- No other location is taken for a stack slot. -/
theorem parseFbregOffset_addr {address : Addr} :
    parseFbregOffset (attrLine depth (.addr address)) = none := by
  have hno : ¬ "DW_OP_fbreg".toList <:+: attrLine depth (.addr address) := by
    have hfalse : strstr (attrLine depth (.addr address)) "DW_OP_fbreg".toList = false :=
      strstr_attrLine (a := .addr address) (isMarker_ofList (by decide)) trivial
    rw [← strstr_iff, hfalse]
    exact Bool.false_ne_true
  rw [parseFbregOffset, dropTo_eq_none hno, Option.bind_none]

end Lines

/-! ### What a line is taken for -/

namespace Attr

def isName : Attr → Bool
  | name _ => true
  | _ => false

def isType : Attr → Bool
  | type .. => true
  | _ => false

def isLocation : Attr → Bool
  | fbreg _ | addr _ => true
  | _ => false

def isLowPc : Attr → Bool
  | lowPc _ => true
  | _ => false

def isHighPc : Attr → Bool
  | highPc _ => true
  | _ => false

def isByteSize : Attr → Bool
  | byteSize _ => true
  | _ => false

def isMemberLocation : Attr → Bool
  | memberLocation _ => true
  | _ => false

end Attr

/-- The entry is a DIE with the given tag. -/
def Entry.is (tag : Tag) : Entry → Bool
  | .die _ head => head.tag = tag
  | .null .. => false

/-- The entry ends a list of children. -/
def Entry.isNull : Entry → Bool
  | .die .. => false
  | .null .. => true

section Kind

variable {depth : ℕ} {a : Attr} {e : Entry}

/-- The texts of a literal are compared as lists. -/
theorem strstr_toList_ofList {text m : CStr} {b : Bool} (h : strstr text m = b) :
    strstr (String.ofList text).toList (String.ofList m).toList = b := by
  rwa [String.toList_ofList, String.toList_ofList]

/-- The empty line behind an entry has no marker. -/
theorem strstr_newline {m : CStr} (hm : IsMarker m) : strstr ['\n'] m = false := by
  have hnl : '\n' ∉ m := fun h => (hm.2 _ h).2.2.2.2.1 rfl
  refine Bool.eq_false_iff.mpr fun h => ?_
  have hocc := strstr_iff.mp h
  rw [infix_cons_iff_of_not_mem hm.ne_nil hnl, List.infix_nil] at hocc
  exact hm.ne_nil hocc

/-- The text of an attribute. -/
def IsAttrMarker (m : CStr) : Prop := IsMarker m ∧ "DW_AT_".toList <+: m

theorem isAttrMarker_ofList {m : CStr} (hm : IsMarker m)
    (hattr : ['D', 'W', '_', 'A', 'T', '_'] <+: m) : IsAttrMarker (String.ofList m).toList :=
  ⟨isMarker_ofList hm, by rwa [String.toList_ofList, String.toList_ofList]⟩

theorem isAttrMarker_name : IsAttrMarker "DW_AT_name".toList :=
  isAttrMarker_ofList (by decide) (by decide)

theorem isAttrMarker_type : IsAttrMarker "DW_AT_type".toList :=
  isAttrMarker_ofList (by decide) (by decide)

theorem isAttrMarker_location : IsAttrMarker "DW_AT_location".toList :=
  isAttrMarker_ofList (by decide) (by decide)

theorem isAttrMarker_lowPc : IsAttrMarker "DW_AT_low_pc".toList :=
  isAttrMarker_ofList (by decide) (by decide)

theorem isAttrMarker_highPc : IsAttrMarker "DW_AT_high_pc".toList :=
  isAttrMarker_ofList (by decide) (by decide)

theorem isAttrMarker_byteSize : IsAttrMarker "DW_AT_byte_size".toList :=
  isAttrMarker_ofList (by decide) (by decide)

theorem isAttrMarker_memberLocation : IsAttrMarker "DW_AT_data_member_location".toList :=
  isAttrMarker_ofList (by decide) (by decide)

theorem dwarfStartsDie_attrLine (ha : a.Plain) : dwarfStartsDie (attrLine depth a) = false := by
  have hother : ∀ key : OtherKey, strstr key.text "DW_TAG_".toList = false ∧
      strstr key.text "NULL".toList = false := by
    intro key
    cases key <;> exact ⟨strstr_toList_ofList rfl, strstr_toList_ofList rfl⟩
  have hkey : strstr a.key "DW_TAG_".toList = false ∧ strstr a.key "NULL".toList = false := by
    cases a with
    | other key value => exact hother key
    | _ => exact ⟨strstr_toList_ofList rfl, strstr_toList_ofList rfl⟩
  have hop : strstr a.op "DW_TAG_".toList = false ∧ strstr a.op "NULL".toList = false := by
    cases a with
    | fbreg | addr => exact ⟨strstr_toList_ofList rfl, strstr_toList_ofList rfl⟩
    | _ => exact ⟨rfl, rfl⟩
  rw [dwarfStartsDie, strstr_attrLine (isMarker_ofList (by decide)) ha,
    strstr_attrLine (isMarker_ofList (by decide)) ha, hkey.1, hkey.2, hop.1, hop.2]
  rfl

theorem strstr_attr {m : CStr} {b : Bool} (hm : IsAttrMarker m) (ha : a.Plain)
    (hkey : strstr a.key m = b) : strstr (attrLine depth a) m = b := by
  have hop : strstr a.op m = false := by
    refine Bool.eq_false_iff.mpr fun h => ?_
    have hocc : strstr a.op "DW_AT_".toList = true :=
      strstr_iff.mpr (hm.2.isInfix.trans (strstr_iff.mp h))
    have hno : strstr a.op "DW_AT_".toList = false := by
      cases a with
      | fbreg | addr => exact strstr_toList_ofList rfl
      | _ => rfl
    exact Bool.eq_false_iff.mp hno hocc
  rw [strstr_attrLine hm.1 ha, hkey, hop, Bool.or_false]

theorem strstr_attr_name (ha : a.Plain) :
    strstr (attrLine depth a) "DW_AT_name".toList = a.isName := by
  refine strstr_attr isAttrMarker_name ha ?_
  cases a with
  | other key => cases key <;> exact strstr_toList_ofList rfl
  | _ => exact strstr_toList_ofList rfl

theorem strstr_attr_type (ha : a.Plain) :
    strstr (attrLine depth a) "DW_AT_type".toList = a.isType := by
  refine strstr_attr isAttrMarker_type ha ?_
  cases a with
  | other key => cases key <;> exact strstr_toList_ofList rfl
  | _ => exact strstr_toList_ofList rfl

theorem strstr_attr_location (ha : a.Plain) :
    strstr (attrLine depth a) "DW_AT_location".toList = a.isLocation := by
  refine strstr_attr isAttrMarker_location ha ?_
  cases a with
  | other key => cases key <;> exact strstr_toList_ofList rfl
  | _ => exact strstr_toList_ofList rfl

theorem strstr_attr_lowPc (ha : a.Plain) :
    strstr (attrLine depth a) "DW_AT_low_pc".toList = a.isLowPc := by
  refine strstr_attr isAttrMarker_lowPc ha ?_
  cases a with
  | other key => cases key <;> exact strstr_toList_ofList rfl
  | _ => exact strstr_toList_ofList rfl

theorem strstr_attr_highPc (ha : a.Plain) :
    strstr (attrLine depth a) "DW_AT_high_pc".toList = a.isHighPc := by
  refine strstr_attr isAttrMarker_highPc ha ?_
  cases a with
  | other key => cases key <;> exact strstr_toList_ofList rfl
  | _ => exact strstr_toList_ofList rfl

theorem strstr_attr_byteSize (ha : a.Plain) :
    strstr (attrLine depth a) "DW_AT_byte_size".toList = a.isByteSize := by
  refine strstr_attr isAttrMarker_byteSize ha ?_
  cases a with
  | other key => cases key <;> exact strstr_toList_ofList rfl
  | _ => exact strstr_toList_ofList rfl

theorem strstr_attr_memberLocation (ha : a.Plain) :
    strstr (attrLine depth a) "DW_AT_data_member_location".toList = a.isMemberLocation := by
  refine strstr_attr isAttrMarker_memberLocation ha ?_
  cases a with
  | other key => cases key <;> exact strstr_toList_ofList rfl
  | _ => exact strstr_toList_ofList rfl

theorem Tag.strstr_text (tag : Tag) : strstr tag.text "DW_TAG_".toList = true ∧
    strstr tag.text "DW_AT_".toList = false := by
  cases tag <;> exact ⟨strstr_toList_ofList rfl, strstr_toList_ofList rfl⟩

theorem dwarfStartsDie_header (e : Entry) :
    dwarfStartsDie (headerLine e.depth e.offset e.text) = true := by
  rw [dwarfStartsDie, strstr_headerLine (isMarker_ofList (by decide)),
    strstr_headerLine (isMarker_ofList (by decide))]
  cases e with
  | null => exact Bool.or_eq_true_iff.mpr (.inr (strstr_toList_ofList rfl))
  | die depth head => exact Bool.or_eq_true_iff.mpr (.inl head.tag.strstr_text.1)

theorem Tag.text_eq (tag : Tag) : ∃ rest, tag.text = 'D' :: rest := by
  cases tag <;> exact ⟨_, String.toList_ofList⟩

/-- The first line of an entry has no text of an attribute. -/
theorem strstr_header_attr {m : CStr} (hm : IsAttrMarker m) :
    strstr (headerLine e.depth e.offset e.text) m = false := by
  rw [strstr_headerLine hm.1]
  refine Bool.eq_false_iff.mpr fun h => ?_
  have hocc : strstr e.text "DW_AT_".toList = true :=
    strstr_iff.mpr (hm.2.isInfix.trans (strstr_iff.mp h))
  cases e with
  | null => exact Bool.eq_false_iff.mp (strstr_toList_ofList rfl) hocc
  | die depth head => exact Bool.eq_false_iff.mp head.tag.strstr_text.2 hocc

theorem strstr_header_tag {tag : Tag} (hm : IsMarker tag.text)
    (hnull : strstr "NULL".toList tag.text = false)
    (htag : ∀ tag' : Tag, strstr tag'.text tag.text = decide (tag' = tag)) :
    strstr (headerLine e.depth e.offset e.text) tag.text = e.is tag := by
  rw [strstr_headerLine hm]
  cases e with
  | null => exact hnull
  | die depth head => exact htag head.tag

theorem strstr_header_subprogram :
    strstr (headerLine e.depth e.offset e.text) "DW_TAG_subprogram".toList = e.is .subprogram :=
  @strstr_header_tag e .subprogram (isMarker_ofList (by decide)) (strstr_toList_ofList rfl)
    (fun tag => by cases tag <;> exact strstr_toList_ofList rfl)

theorem strstr_header_variable :
    strstr (headerLine e.depth e.offset e.text) "DW_TAG_variable".toList = e.is .var :=
  @strstr_header_tag e .var (isMarker_ofList (by decide)) (strstr_toList_ofList rfl)
    (fun tag => by cases tag <;> exact strstr_toList_ofList rfl)

theorem strstr_header_formal : strstr (headerLine e.depth e.offset e.text)
    "DW_TAG_formal_parameter".toList = e.is .formalParameter :=
  @strstr_header_tag e .formalParameter (isMarker_ofList (by decide)) (strstr_toList_ofList rfl)
    (fun tag => by cases tag <;> exact strstr_toList_ofList rfl)

theorem strstr_header_structure : strstr (headerLine e.depth e.offset e.text)
    "DW_TAG_structure_type".toList = e.is .structureType :=
  @strstr_header_tag e .structureType (isMarker_ofList (by decide)) (strstr_toList_ofList rfl)
    (fun tag => by cases tag <;> exact strstr_toList_ofList rfl)

theorem strstr_header_member : strstr (headerLine e.depth e.offset e.text)
    "DW_TAG_member".toList = e.is .member :=
  @strstr_header_tag e .member (isMarker_ofList (by decide)) (strstr_toList_ofList rfl)
    (fun tag => by cases tag <;> exact strstr_toList_ofList rfl)

theorem strstr_header_null :
    strstr (headerLine e.depth e.offset e.text) "NULL".toList = e.isNull := by
  rw [strstr_headerLine (isMarker_ofList (by decide))]
  cases e with
  | null => exact strstr_toList_ofList rfl
  | die depth head =>
    have hno : ∀ tag : Tag, strstr tag.text "NULL".toList = false := by
      intro tag
      cases tag <;> exact strstr_toList_ofList rfl
    exact hno head.tag

end Kind

/-! ### The lines of the text -/

/-- One line with the newline that ends it. -/
def IsDumpLine (line : CStr) : Prop := ∃ text, line = text ++ ['\n'] ∧ '\n' ∉ text

/-- All texts of the entry are plain. -/
def Entry.Plain (e : Entry) : Prop := ∀ a ∈ e.attrs, a.Plain

instance (e : Entry) : Decidable e.Plain := inferInstanceAs (Decidable (∀ a ∈ e.attrs, a.Plain))

section Text

variable {e : Entry} {es : List Entry} {depth : ℕ} {a : Attr}

theorem not_newline_hexNumeral {w : ℕ} {v : UInt64} : '\n' ∉ hexNumeral w v := by
  rw [hexNumeral, List.mem_cons, List.mem_cons, not_or, not_or]
  exact ⟨by decide, by decide, not_mem_hexText (by decide)⟩

theorem not_mem_toList_ofList {c : Char} {text : CStr} (h : c ∉ text) :
    c ∉ (String.ofList text).toList := by
  rwa [String.toList_ofList]

theorem Tag.not_newline_text (tag : Tag) : '\n' ∉ tag.text := by
  cases tag <;> exact not_mem_toList_ofList (by decide)

theorem OtherKey.not_newline_text (key : OtherKey) : '\n' ∉ key.text := by
  cases key <;> exact not_mem_toList_ofList (by decide)

theorem Attr.not_newline_key (a : Attr) : '\n' ∉ a.key := by
  cases a with
  | other key => exact key.not_newline_text
  | _ => exact not_mem_toList_ofList (by decide)

theorem Attr.not_newline_value (ha : a.Plain) : '\n' ∉ a.value := by
  have hquoted : ∀ {text : CStr}, PlainText text → '\n' ∉ '"' :: (text ++ ['"']) := by
    intro text htext
    rw [List.mem_cons, List.mem_append, not_or, not_or]
    exact ⟨by decide, htext.noNewline, by decide⟩
  have hblank : ∀ {cs : CStr}, '\n' ∉ cs → '\n' ∉ ' ' :: cs := fun h hmem =>
    (List.mem_cons.mp hmem).elim (by decide) h
  cases a with
  | name text => exact hquoted ha
  | type ref text =>
    rw [Attr.value_type, List.mem_append, not_or]
    exact ⟨not_newline_hexNumeral, hblank (hquoted ha)⟩
  | fbreg offset =>
    rw [Attr.value_fbreg, List.mem_append, not_or]
    exact ⟨by decide, hblank (not_mem_intText (by decide) (by decide) (by decide))⟩
  | addr address =>
    rw [Attr.value_addr, List.mem_append, not_or]
    exact ⟨by decide, hblank not_newline_hexNumeral⟩
  | lowPc | highPc | byteSize | memberLocation => exact not_newline_hexNumeral
  | other key value => exact ha.2

theorem isDumpLine_headerLine {offset : UInt64} {text : CStr} (h : '\n' ∉ text) :
    IsDumpLine (headerLine depth offset text) := by
  refine ⟨hexNumeral 8 offset ++ ':' :: (List.replicate (1 + 2 * depth) ' ' ++ text), ?_, ?_⟩
  · simp only [headerLine, List.append_assoc, List.cons_append]
  · rw [List.mem_append, List.mem_cons, List.mem_append, List.mem_replicate]
    simp [h, not_newline_hexNumeral]

theorem isDumpLine_attrLine (ha : a.Plain) : IsDumpLine (attrLine depth a) := by
  refine ⟨attrLead depth a ++ '(' :: (a.value ++ [')']), ?_, ?_⟩
  · rw [attrLine_eq]
    simp only [List.append_assoc, List.cons_append, List.nil_append]
  · have hlead : '\n' ∉ attrLead depth a :=
      not_mem_attrLead (by decide) (by decide) a.not_newline_key
    have hvalue := Attr.not_newline_value ha
    rw [List.mem_append, List.mem_cons, List.mem_append]
    simp [hlead, hvalue]

theorem Entry.not_newline_text (e : Entry) : '\n' ∉ e.text := by
  cases e with
  | die depth head => exact head.tag.not_newline_text
  | null => exact (by decide : '\n' ∉ "NULL".toList)

theorem Entry.isDumpLine (he : e.Plain) : ∀ line ∈ e.lines, IsDumpLine line := by
  intro line h
  rw [Entry.lines, List.mem_cons, List.mem_append, List.mem_map] at h
  rcases h with rfl | ⟨a, ha, rfl⟩ | h
  · exact isDumpLine_headerLine e.not_newline_text
  · exact isDumpLine_attrLine (he a ha)
  · exact ⟨[], List.mem_singleton.mp h, List.not_mem_nil⟩

theorem fgetsLinesFrom_line {size : ℕ} {text rest : List Char} : ∀ {line : CStr},
    '\n' ∉ text → line.length + text.length + 1 < size →
    fgetsLinesFrom size line (text ++ '\n' :: rest) =
      (line ++ text ++ ['\n']) :: fgetsLinesFrom size [] rest := by
  induction text with
  | nil =>
    intro line _ _
    rw [List.nil_append, fgetsLinesFrom, if_pos (.inl rfl), List.append_nil]
  | cons c text ih =>
    intro line h hlen
    rw [List.mem_cons, not_or] at h
    rw [List.length_cons] at hlen
    have hgo : ¬ (c = '\n' ∨ line.length + 1 ≥ size - 1) := by
      rw [not_or]
      exact ⟨fun hc => h.1 hc.symm, by omega⟩
    rw [List.cons_append, fgetsLinesFrom, if_neg hgo, ih h.2 (by
      rw [List.length_append, List.length_singleton]
      omega)]
    simp only [List.append_assoc, List.singleton_append]

/-- Lines that fit the buffer are read one by one. -/
theorem fgetsLines_flatten {size : ℕ} {lines : List CStr} (h : ∀ line ∈ lines, IsDumpLine line)
    (hlen : ∀ line ∈ lines, line.length < size) : fgetsLines size lines.flatten = lines := by
  induction lines with
  | nil => rfl
  | cons line lines ih =>
    obtain ⟨hline, hlines⟩ := List.forall_mem_cons.mp h
    obtain ⟨hlt, hlts⟩ := List.forall_mem_cons.mp hlen
    obtain ⟨text, rfl, htext⟩ := hline
    rw [List.length_append, List.length_singleton] at hlt
    have ih := ih hlines hlts
    rw [fgetsLines] at ih ⊢
    rw [List.flatten_cons, List.append_assoc, List.singleton_append,
      fgetsLinesFrom_line htext (by rw [List.length_nil]; omega), ih, List.nil_append]

/-- Every line of the text fits the buffers of the scans. -/
def FitsLines (es : List Entry) : Prop :=
  ∀ line ∈ es.flatMap Entry.lines, line.length < maxDumpLine

instance (es : List Entry) : Decidable (FitsLines es) :=
  inferInstanceAs (Decidable (∀ line ∈ es.flatMap Entry.lines, line.length < maxDumpLine))

/-- The lines the scans read of an entry. -/
def Entry.readLines (e : Entry) : List CStr := fgetsLines maxDumpLine e.lines.flatten

/-- A plain entry without overlong lines is read as it is printed. -/
theorem Entry.readLines_of_plain (hplain : e.Plain) (hfits : FitsLines [e]) :
    e.readLines = e.lines := by
  rw [FitsLines, List.flatMap_singleton] at hfits
  exact fgetsLines_flatten (e.isDumpLine hplain) hfits

/-- What stands behind a newline is read apart from what stands in front of it. -/
theorem fgetsLinesFrom_append {size : ℕ} {text rest : List Char} : ∀ {line : CStr},
    fgetsLinesFrom size line (text ++ '\n' :: rest) =
      fgetsLinesFrom size line (text ++ ['\n']) ++ fgetsLinesFrom size [] rest := by
  induction text with
  | nil =>
    intro line
    rw [List.nil_append, List.nil_append, fgetsLinesFrom, fgetsLinesFrom, if_pos (.inl rfl),
      if_pos (.inl rfl), fgetsLinesFrom, if_pos rfl]
    rfl
  | cons c text ih =>
    intro line
    rw [List.cons_append, List.cons_append, fgetsLinesFrom, fgetsLinesFrom]
    split
    · rw [ih, List.cons_append]
    · exact ih

/-- The lines that are read of a text, whatever the names in it are. -/
theorem fgetsLines_dumpText :
    fgetsLines maxDumpLine (dumpText es) = es.flatMap Entry.readLines := by
  induction es with
  | nil => rfl
  | cons e es ih =>
    have hlines : e.lines.flatten =
        (headerLine e.depth e.offset e.text :: e.attrs.map (attrLine e.depth)).flatten ++ ['\n'] := by
      rw [Entry.lines, ← List.cons_append, List.flatten_append]
      rfl
    rw [dumpText, List.flatMap_cons, List.flatten_append, List.flatMap_cons, Entry.readLines, ← ih,
      hlines, List.append_assoc]
    exact fgetsLinesFrom_append

/-- The lines of a text without overlong lines are those that have been printed. -/
theorem fgetsLines_of_plain (hplain : ∀ e ∈ es, e.Plain) (hfits : FitsLines es) :
    fgetsLines maxDumpLine (dumpText es) = es.flatMap Entry.lines := by
  rw [fgetsLines_dumpText, List.flatMap_def, List.flatMap_def]
  refine congrArg List.flatten (List.map_congr_left fun e he => ?_)
  refine e.readLines_of_plain (hplain e he) fun line hline => hfits line ?_
  rw [List.flatMap_singleton] at hline
  exact List.mem_flatMap.mpr ⟨e, he, hline⟩

end Text

end Debugger
