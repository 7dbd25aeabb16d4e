/-
The C library functions on strings that the debugger's commands rely on.

A C string is the list of its characters up to the terminating NUL, one `Char`
per byte.  Integer types are the fixed-width types of the C code, so `strtoull`
saturates at `ULLONG_MAX` and negates modulo 2^64 as ISO C prescribes.
-/
import Mathlib.Algebra.Group.Int.Defs
import Mathlib.Algebra.Group.Nat.Defs
import Mathlib.Data.List.Basic

namespace Debugger

/-- A C string, without its terminator. -/
abbrev CStr := List Char

/-- A condition on the characters of a text is decided by going through the text, not through all
characters there are. -/
instance (priority := high) decidableForallChar {p : Char → Prop} [DecidablePred p] (text : CStr) :
    Decidable (∀ c ∈ text, p c) :=
  List.decidableBAll p text

/-- `isspace` in the C locale. -/
def isspace (c : Char) : Bool :=
  c = ' ' || c = '\t' || c = '\n' || c = '\x0b' || c = '\x0c' || c = '\r'

/-- The characters `[ \t]`. -/
def isBlank (c : Char) : Bool := c = ' ' || c = '\t'

/-- `trim_space`: the text without surrounding white space. -/
def trimSpace (text : CStr) : CStr :=
  ((text.dropWhile isspace).reverse.dropWhile isspace).reverse

/-- `snprintf(buf, size, "%s", text)`: what ends up in the buffer. -/
def snprintf (size : ℕ) (text : CStr) : CStr := text.take (size - 1)

/-- A text that fits is copied whole. -/
theorem snprintf_of_lt {size : ℕ} {text : CStr} (h : text.length < size) :
    snprintf size text = text := List.take_of_length_le (by omega)

/-- There is room for the terminator. -/
theorem length_snprintf_lt {size : ℕ} (hsize : 0 < size) (text : CStr) :
    (snprintf size text).length < size := by
  rw [snprintf, List.length_take]
  omega

theorem snprintf_snprintf (size : ℕ) (text : CStr) :
    snprintf size (snprintf size text) = snprintf size text := by
  rw [snprintf, snprintf, List.take_take, Nat.min_self]

/-- The value of a digit character in a base up to 36. -/
def digitValue (base : ℕ) (c : Char) : Option ℕ :=
  let v :=
    if '0' ≤ c ∧ c ≤ '9' then c.toNat - '0'.toNat
    else if 'a' ≤ c ∧ c ≤ 'z' then c.toNat - 'a'.toNat + 10
    else if 'A' ≤ c ∧ c ≤ 'Z' then c.toNat - 'A'.toNat + 10
    else base
  if v < base then some v else none

/-- Read the longest run of digits: the number read so far, and the rest. -/
def digits (base : ℕ) : ℕ → CStr → ℕ × CStr
  | acc, [] => (acc, [])
  | acc, c :: cs =>
    match digitValue base c with
    | some d => digits base (acc * base + d) cs
    | none => (acc, c :: cs)

/-- The optional sign of a numeral. -/
def sign : CStr → Bool × CStr
  | '-' :: cs => (true, cs)
  | '+' :: cs => (false, cs)
  | cs => (false, cs)

/-- Base detection of `strtoull(_, _, 0)`: a `0x` counts only before a hex digit. -/
def detectBase : CStr → ℕ × CStr
  | '0' :: x :: c :: cs =>
    if (x = 'x' ∨ x = 'X') ∧ (digitValue 16 c).isSome then (16, c :: cs)
    else (8, '0' :: x :: c :: cs)
  | '0' :: cs => (8, '0' :: cs)
  | cs => (10, cs)

/-- `strtoull(text, &end, 0)`: the value and the text at `end`; `none` when nothing
was converted (`end == text`). -/
def strtoull (text : CStr) : Option (UInt64 × CStr) :=
  let (neg, cs) := sign (text.dropWhile isspace)
  let (base, cs) := detectBase cs
  match cs with
  | [] => none
  | c :: _ =>
    if (digitValue base c).isSome then
      let (n, rest) := digits base 0 cs
      if n < 2 ^ 64 then
        some (if neg then -UInt64.ofNat n else UInt64.ofNat n, rest)
      else some (UInt64.ofNat (2 ^ 64 - 1), rest)
    else none

/-- `parse_u64`: the whole text has to be one numeral. -/
def parseU64 (text : CStr) : Option UInt64 :=
  match strtoull text with
  | some (v, []) => some v
  | _ => none

/-- `strtol(text, &end, 10)`: the value and the text at `end`. -/
def strtol (text : CStr) : Int × CStr :=
  let (neg, cs) := sign (text.dropWhile isspace)
  match cs with
  | [] => (0, text)
  | c :: _ =>
    if (digitValue 10 c).isSome then
      let (n, rest) := digits 10 0 cs
      let v : Int := if neg then -n else n
      (max (-2 ^ 63) (min v (2 ^ 63 - 1)), rest)
    else (0, text)

/-- `strrchr`: the text before and after the last occurrence of `c`. -/
def strrchr (c : Char) : CStr → Option (CStr × CStr)
  | [] => none
  | d :: ds =>
    match strrchr c ds with
    | some (before, after) => some (d :: before, after)
    | none => if d = c then some ([], ds) else none

/-- `strstr(text, needle) != NULL`. -/
def strstr (text needle : CStr) : Bool := text.tails.any (needle.isPrefixOf ·)

/-- The tokens `strtok(_, " \t")` yields one after the other. -/
def strtok (text : CStr) : List CStr :=
  (text.splitOnP fun c => c = ' ' || c = '\t').filter (· ≠ [])

/-- `parse_u64` accepts a hexadecimal address, rejects a trailing blank and an empty
`0x`. -/
example : parseU64 "0x1000".toList = some 0x1000 ∧ parseU64 "12 ".toList = none ∧
    parseU64 "0x".toList = none := by decide

/-! ### Numerals -/

section Numerals

/-- A digit is neither white space nor a sign. -/
theorem not_space_of_digit {base : ℕ} {c : Char} (h : (digitValue base c).isSome = true) :
    isspace c = false ∧ c ≠ '-' ∧ c ≠ '+' := by
  refine ⟨?_, ?_, ?_⟩
  · by_contra hspace
    rw [Bool.not_eq_false, isspace] at hspace
    simp only [Bool.or_eq_true, decide_eq_true_eq] at hspace
    rcases hspace with ((((rfl | rfl) | rfl) | rfl) | rfl) | rfl <;> simp [digitValue] at h
  · rintro rfl
    simp [digitValue] at h
  · rintro rfl
    simp [digitValue] at h

theorem sign_of_digit {base : ℕ} {c : Char} {cs : CStr} (h : (digitValue base c).isSome = true) :
    sign (c :: cs) = (false, c :: cs) := by
  obtain ⟨-, hminus, hplus⟩ := not_space_of_digit h
  rw [sign]
  · exact fun _ h => hminus (List.cons.inj h).1
  · exact fun _ h => hplus (List.cons.inj h).1

/-- A decimal digit has its value. -/
theorem digitValue_digitChar_ten : ∀ {d : ℕ}, d < 10 → digitValue 10 (Nat.digitChar d) = some d := by
  decide

/-- The digits of a decimal numeral are read as its value. -/
theorem digits_toDigits {rest : CStr} : ∀ {n : ℕ},
    digits 10 0 (Nat.toDigits 10 n ++ rest) = digits 10 n rest := by
  intro n
  induction n using Nat.strongRecOn generalizing rest with
  | ind n ih =>
    by_cases hlt : n < 10
    · rw [Nat.toDigits_of_lt_base hlt, List.singleton_append, digits, digitValue_digitChar_ten hlt]
      dsimp only
      rw [Nat.zero_mul, Nat.zero_add]
    · have hdigit := digitValue_digitChar_ten (Nat.mod_lt n (by decide : 10 > 0))
      rw [Nat.toDigits_of_base_le (by decide) (by omega), List.append_assoc, ih (n / 10) (by omega),
        List.singleton_append, digits, hdigit]
      dsimp only
      congr 1
      omega

/-- A decimal numeral begins with a digit. -/
theorem exists_toDigits (n : ℕ) :
    ∃ c cs, Nat.toDigits 10 n = c :: cs ∧ (digitValue 10 c).isSome = true := by
  obtain ⟨c, cs, hcs⟩ : ∃ c cs, Nat.toDigits 10 n = c :: cs :=
    List.exists_cons_of_ne_nil Nat.toDigits_ne_nil
  have hdigit : c.isDigit = true := Nat.isDigit_of_mem_toDigits (by decide) (by decide)
    (hcs ▸ List.mem_cons_self)
  have hrange : '0' ≤ c ∧ c ≤ '9' := by
    simpa [Char.isDigit, Char.le_def, UInt32.le_iff_toNat_le] using hdigit
  have hle : c.toNat ≤ 57 := by
    simpa [Char.le_def, UInt32.le_iff_toNat_le] using hrange.2
  have hlt : c.toNat - '0'.toNat < 10 := by
    have h0 : '0'.toNat = 48 := rfl
    omega
  refine ⟨c, cs, hcs, ?_⟩
  rw [digitValue]
  simp only [if_pos hrange, if_pos hlt, Option.isSome_some]

/-- The digits of a decimal numeral end where its text does. -/
theorem digits_numeral (n : ℕ) {rest : CStr} (hrest : digitValue 10 (rest.headD ' ') = none) :
    digits 10 0 (Nat.toDigits 10 n ++ rest) = (n, rest) := by
  rw [digits_toDigits]
  cases rest with
  | nil => rfl
  | cons d rest =>
    have hd : digitValue 10 d = none := hrest
    rw [digits, hd]

/-- A run of digits is read to its end. -/
theorem digits_rest {base : ℕ} {rest : CStr} : ∀ {w : CStr} {acc : ℕ},
    (∀ c ∈ w, (digitValue base c).isSome = true) → digitValue base (rest.headD ' ') = none →
    (digits base acc (w ++ rest)).2 = rest := by
  intro w
  induction w with
  | nil =>
    intro acc _ hrest
    cases rest with
    | nil => rfl
    | cons d rest =>
      have hd : digitValue base d = none := hrest
      rw [List.nil_append, digits, hd]
  | cons c w ih =>
    intro acc hw hrest
    obtain ⟨d, hd⟩ := Option.isSome_iff_exists.mp (hw c List.mem_cons_self)
    rw [List.cons_append, digits, hd]
    exact ih (fun c hc => hw c (List.mem_cons_of_mem _ hc)) hrest

end Numerals

end Debugger
