/-
Which names of registers are accepted.

The number of a register is read by `strtol`, which also reads white space, a sign and leading
zeros, and which finds 0 where there is nothing to read.  So there are names besides those of the
manual (`Misspelt`), and they stand for real registers; `onlyDocumented_iff` says that there are no
others.
-/
import Debugger.RegFile
import Debugger.Reader

open Prog

namespace Debugger

/-! ### What `strtol` reads to the end -/

/-- The texts that `strtol` reads to their end as `n`. -/
inductive LooseNumeral (n : ℕ) : CStr → Prop
  | empty (h : n = 0) : LooseNumeral n []
  | padded {blanks sgn : CStr} (k : ℕ) (hblanks : Blank blanks)
      (hsgn : sgn = [] ∨ sgn = ['+'] ∨ sgn = ['-'] ∧ n = 0) :
      LooseNumeral n (blanks ++ (sgn ++ (List.replicate k '0' ++ Nat.toDigits 10 n)))

section Numeral

variable {c : Char} {d n : ℕ} {w cs : CStr}

/-- A digit is determined by its value. -/
theorem digitChar_of_digitValue (h : digitValue 10 c = some d) : d < 10 ∧ c = Nat.digitChar d := by
  have h0 : '0'.toNat = 48 := rfl
  rw [digitValue] at h
  by_cases hrange : '0' ≤ c ∧ c ≤ '9'
  · rw [if_pos hrange] at h
    split at h
    case isFalse => cases h
    case isTrue hlt =>
      obtain rfl := Option.some.inj h
      have hlo : 48 ≤ c.toNat := by
        simpa [Char.le_def, UInt32.le_iff_toNat_le] using hrange.1
      refine ⟨hlt, Char.toNat_inj.mp ?_⟩
      rw [Nat.toNat_digitChar_of_lt_ten hlt, h0]
      omega
  · -- letters have values from ten on
    have hten : ¬(if 'a' ≤ c ∧ c ≤ 'z' then c.toNat - 'a'.toNat + 10
        else if 'A' ≤ c ∧ c ≤ 'Z' then c.toNat - 'A'.toNat + 10 else 10) < 10 := by
      split
      case isTrue => omega
      case isFalse => split <;> omega
    rw [if_neg hrange, if_neg hten] at h
    cases h

theorem digits_cons_of_digit {base acc : ℕ} (h : digitValue base c = some d) :
    digits base acc (c :: cs) = digits base (acc * base + d) cs := by
  rw [digits, h]

/-- The parts of a text that is read to its end. -/
theorem digits_snoc {base acc : ℕ} (h : digits base acc (w ++ [c]) = (n, [])) :
    ∃ m d, digits base acc w = (m, []) ∧ digitValue base c = some d ∧ n = m * base + d := by
  induction w generalizing acc with
  | nil =>
    rw [List.nil_append, digits] at h
    cases hd : digitValue base c with
    | none =>
      rw [hd] at h
      exact absurd (Prod.mk.inj h).2 (List.cons_ne_nil _ _)
    | some d =>
      rw [hd] at h
      exact ⟨acc, d, rfl, rfl, ((Prod.mk.inj h).1).symm⟩
  | cons e w ih =>
    cases he : digitValue base e with
    | none =>
      rw [List.cons_append, digits, he] at h
      exact absurd (Prod.mk.inj h).2 (List.cons_ne_nil _ _)
    | some d =>
      rw [List.cons_append, digits_cons_of_digit he] at h
      obtain ⟨m, d', hw, hc, hn⟩ := ih h
      exact ⟨m, d', by rw [digits_cons_of_digit he, hw], hc, hn⟩

/-- Digits are a numeral behind zeros. -/
theorem numeral_of_digits : ∀ {w : CStr} {n : ℕ}, w ≠ [] → digits 10 0 w = (n, []) →
    ∃ k, w = List.replicate k '0' ++ Nat.toDigits 10 n := by
  intro w
  induction w using List.reverseRecOn with
  | nil => exact fun hne _ => absurd rfl hne
  | append_singleton w c ih =>
    intro n _ h
    obtain ⟨m, d, hw, hc, rfl⟩ := digits_snoc h
    obtain ⟨hlt, rfl⟩ := digitChar_of_digitValue hc
    by_cases hnil : w = []
    · subst hnil
      obtain rfl := (Prod.mk.inj hw).1
      refine ⟨0, ?_⟩
      rw [Nat.zero_mul, Nat.zero_add, Nat.toDigits_of_lt_base hlt]
      rfl
    obtain ⟨k, rfl⟩ := ih hnil hw
    by_cases hm : m = 0
    · -- the digits before the last one are all zeros
      subst hm
      refine ⟨k + 1, ?_⟩
      rw [Nat.zero_mul, Nat.zero_add, Nat.toDigits_of_lt_base hlt, Nat.toDigits_zero,
        List.replicate_succ']
    · refine ⟨k, ?_⟩
      rw [List.append_assoc, ← Nat.toDigits_of_lt_base hlt,
        Nat.toDigits_append_toDigits (by decide) (Nat.pos_of_ne_zero hm) hlt, Nat.mul_comm 10 m]

theorem digits_zeros : ∀ k : ℕ, digits 10 0 (List.replicate k '0' ++ cs) = digits 10 0 cs
  | 0 => rfl
  | k + 1 => by
    have h0 : digitValue 10 '0' = some 0 := by decide
    rw [List.replicate_succ, List.cons_append, digits_cons_of_digit h0]
    exact digits_zeros k

/-- `strtol` on a text with a number: the number with its sign, as far as a `long` holds it. -/
theorem strtol_eq {neg : Bool} {rest : CStr} (hsign : sign (w.dropWhile isspace) = (neg, c :: cs))
    (hc : (digitValue 10 c).isSome = true) (hdigits : digits 10 0 (c :: cs) = (n, rest)) :
    strtol w = (max (-2 ^ 63) (min (if neg then -(n : ℤ) else n) (2 ^ 63 - 1)), rest) := by
  rw [strtol, hsign]
  dsimp only
  rw [if_pos hc, hdigits]

/-- A number that fits is read as it is. -/
theorem strtol_loose (h : LooseNumeral n w) (hn : n < 2 ^ 63) : strtol w = ((n : ℤ), []) := by
  cases h with
  | empty h0 =>
    subst h0
    rfl
  | @padded blanks sgn k hblanks hsgn =>
    have hdigits : digits 10 0 (List.replicate k '0' ++ Nat.toDigits 10 n) = (n, []) := by
      have hnum := @digits_numeral n [] (by decide)
      rw [List.append_nil] at hnum
      rw [digits_zeros, hnum]
    obtain ⟨c, cs, hcs, hc⟩ : ∃ c cs, List.replicate k '0' ++ Nat.toDigits 10 n = c :: cs ∧
        (digitValue 10 c).isSome = true := by
      cases k with
      | zero => exact exists_toDigits n
      | succ k => exact ⟨'0', List.replicate k '0' ++ Nat.toDigits 10 n, rfl, by decide⟩
    rw [hcs] at hdigits ⊢
    have hspace : ¬isspace c = true := by
      rw [(not_space_of_digit hc).1]
      exact Bool.false_ne_true
    have hdrop : ∀ {text : CStr}, (blanks ++ text).dropWhile isspace = text.dropWhile isspace :=
      List.dropWhile_append_of_pos hblanks
    have hfits : max (-2 ^ 63 : ℤ) (min n (2 ^ 63 - 1)) = n := by omega
    rcases hsgn with rfl | rfl | ⟨rfl, rfl⟩
    · have hsign : sign ((blanks ++ ([] ++ c :: cs)).dropWhile isspace) = (false, c :: cs) := by
        rw [hdrop, List.nil_append, List.dropWhile_cons_of_neg hspace, sign_of_digit hc]
      rw [strtol_eq hsign hc hdigits, if_neg Bool.false_ne_true, hfits]
    · have hsign : sign ((blanks ++ (['+'] ++ c :: cs)).dropWhile isspace) = (false, c :: cs) := by
        rw [hdrop]
        rfl
      rw [strtol_eq hsign hc hdigits, if_neg Bool.false_ne_true, hfits]
    · have hsign : sign ((blanks ++ (['-'] ++ c :: cs)).dropWhile isspace) = (true, c :: cs) := by
        rw [hdrop]
        rfl
      rw [strtol_eq hsign hc hdigits]
      rfl

/-- The sign of a text, put in front of what follows it. -/
theorem sign_split (text : CStr) :
    ∃ sgn, text = sgn ++ (sign text).2 ∧
      (sgn = [] ∧ (sign text).1 = false ∨ sgn = ['+'] ∧ (sign text).1 = false ∨
        sgn = ['-'] ∧ (sign text).1 = true) := by
  unfold sign
  split
  · exact ⟨['-'], rfl, .inr (.inr ⟨rfl, rfl⟩)⟩
  · exact ⟨['+'], rfl, .inr (.inl ⟨rfl, rfl⟩)⟩
  · exact ⟨[], rfl, .inl ⟨rfl, rfl⟩⟩

/-- What `strtol` reads to the end as a number that fits and is not negative. -/
theorem loose_of_strtol (h : strtol w = ((n : ℤ), [])) (hn : n < 2 ^ 63 - 1) : LooseNumeral n w := by
  obtain ⟨sgn, hsplit, hsgn⟩ := sign_split (w.dropWhile isspace)
  have hblanks : Blank (w.takeWhile isspace) := fun c hc => List.mem_takeWhile_imp hc
  have hw : w = w.takeWhile isspace ++ (sgn ++ (sign (w.dropWhile isspace)).2) := by
    rw [← hsplit, List.takeWhile_append_dropWhile]
  obtain ⟨neg, cs, hsign⟩ : ∃ neg cs, sign (w.dropWhile isspace) = (neg, cs) := ⟨_, _, rfl⟩
  rw [hsign] at hw hsgn
  dsimp only at hw hsgn
  have hnothing : ((0 : ℤ), w) = ((n : ℤ), []) → LooseNumeral n w := fun heq => by
    obtain ⟨h0, rfl⟩ := Prod.mk.inj heq
    exact .empty (by omega)
  rw [strtol, hsign] at h
  cases cs with
  | nil => exact hnothing h
  | cons c cs =>
    dsimp only at h
    split at h
    case isFalse => exact hnothing h
    case isTrue hc =>
      obtain ⟨m, rest, hdigits⟩ : ∃ m rest, digits 10 0 (c :: cs) = (m, rest) := ⟨_, _, rfl⟩
      rw [hdigits] at h
      obtain ⟨hvalue, rfl⟩ := Prod.mk.inj h
      obtain ⟨k, hk⟩ := numeral_of_digits (List.cons_ne_nil _ _) hdigits
      have hsame : m = n ∧ (neg = true → n = 0) := by
        cases neg with
        | false =>
          simp only [Bool.false_eq_true, if_false] at hvalue
          exact ⟨by omega, fun h => nomatch h⟩
        | true =>
          simp only [if_true] at hvalue
          exact ⟨by omega, fun _ => by omega⟩
      obtain ⟨rfl, hzero⟩ := hsame
      rw [hw, hk]
      refine .padded k hblanks ?_
      rcases hsgn with ⟨rfl, -⟩ | ⟨rfl, -⟩ | ⟨rfl, hneg⟩
      · exact .inl rfl
      · exact .inr (.inl rfl)
      · exact .inr (.inr ⟨rfl, hzero hneg⟩)

end Numeral

/-! ### Names -/

/-- A name with a decimal number from `lo` to `hi`. -/
def Numbered (letters : CStr) (lo hi : ℕ) (name : CStr) : Prop :=
  ∃ n, lo ≤ n ∧ n ≤ hi ∧ name = letters ++ Nat.toDigits 10 n

/-- A name with something else that `strtol` reads as such a number. -/
def Misspelt (letters : CStr) (lo hi : ℕ) (name : CStr) : Prop :=
  ∃ n text, lo ≤ n ∧ n ≤ hi ∧ LooseNumeral n text ∧ text ≠ Nat.toDigits 10 n ∧
    name = letters ++ text

/-- The names without a number. -/
def x86Plain : List CStr :=
  ["rax", "rbx", "rcx", "rdx", "rsi", "rdi", "rbp", "rsp", "rip", "rflags", "eflags", "cs", "fs",
    "gs"].map String.toList

def armPlain : List CStr := ["pc", "sp", "fp", "lr", "cpsr", "fpsr", "fpcr"].map String.toList

/-- The names of the registers of x86_64 in the manual. -/
def x86Documented (name : CStr) : Prop :=
  name ∈ x86Plain ∨ Numbered "r".toList 8 15 name ∨ Numbered "xmm".toList 0 15 name ∨
    Numbered "st".toList 0 7 name

/-- The names of the registers of aarch64 in the manual. -/
def armDocumented (name : CStr) : Prop :=
  name ∈ armPlain ∨ Numbered "x".toList 0 30 name ∨ Numbered "v".toList 0 31 name

/-- The other names that are accepted. -/
def x86Surplus (name : CStr) : Prop :=
  Misspelt "r".toList 8 15 name ∨ Misspelt "xmm".toList 0 15 name ∨ Misspelt "st".toList 0 7 name

def armSurplus (name : CStr) : Prop :=
  Misspelt "x".toList 0 28 name ∨ Misspelt "v".toList 0 31 name

section Names

variable {α : Type} {letters letters' name text : CStr} {lo hi lo' hi' n : ℕ} {o : Option α}

theorem looseNumeral_toDigits (n : ℕ) : LooseNumeral n (Nat.toDigits 10 n) :=
  @LooseNumeral.padded n [] [] 0 (fun _ h => nomatch h) (.inl rfl)

/-- A text is read as one number. -/
theorem LooseNumeral.unique {m : ℕ} (h : LooseNumeral n text) (h' : LooseNumeral m text)
    (hn : n < 2 ^ 63) (hm : m < 2 ^ 63) : n = m := by
  have heq := (strtol_loose h hn).symm.trans (strtol_loose h' hm)
  exact Int.ofNat.inj (Prod.mk.inj heq).1

/-- Names whose number is read. -/
theorem loose_iff (letters name : CStr) (lo hi : ℕ) :
    (∃ text, name = letters ++ text ∧ ∃ n, lo ≤ n ∧ n ≤ hi ∧ LooseNumeral n text) ↔
      Numbered letters lo hi name ∨ Misspelt letters lo hi name := by
  constructor
  · rintro ⟨text, rfl, n, hlo, hhi, h⟩
    by_cases heq : text = Nat.toDigits 10 n
    · exact .inl ⟨n, hlo, hhi, heq ▸ rfl⟩
    · exact .inr ⟨n, text, hlo, hhi, h, heq, rfl⟩
  · rintro (⟨n, hlo, hhi, rfl⟩ | ⟨n, text, hlo, hhi, h, -, rfl⟩)
    · exact ⟨_, rfl, n, hlo, hhi, looseNumeral_toDigits n⟩
    · exact ⟨text, rfl, n, hlo, hhi, h⟩

theorem regNumber_isSome_iff (hhi : hi < 2 ^ 63 - 1) : (regNumber hi text).isSome = true ↔
    ∃ n, 0 ≤ n ∧ n ≤ hi ∧ LooseNumeral n text := by
  have hdef : regNumber hi text = (if h : (strtol text).2 = [] ∧ 0 ≤ (strtol text).1 ∧
      (strtol text).1 ≤ hi then some ⟨(strtol text).1.toNat, by omega⟩ else none) := rfl
  rw [hdef]
  constructor
  · intro h
    split at h
    case isFalse => exact nomatch h
    case isTrue hidx =>
      obtain ⟨hend, h0, hle⟩ := hidx
      refine ⟨(strtol text).1.toNat, Nat.zero_le _, by omega, loose_of_strtol ?_ (by omega)⟩
      rw [Int.toNat_of_nonneg h0, ← hend]
  · rintro ⟨n, -, hle, h⟩
    have hread : strtol text = ((n : ℤ), []) := strtol_loose h (by omega)
    have hidx : (strtol text).2 = [] ∧ 0 ≤ (strtol text).1 ∧ (strtol text).1 ≤ hi := by
      rw [hread]
      exact ⟨rfl, Int.natCast_nonneg n, Int.ofNat_le.mpr hle⟩
    rw [dif_pos hidx]
    rfl

/-- The names that begin with the letters. -/
theorem exists_append_iff {P : CStr → Prop} :
    (∃ text, name = letters ++ text ∧ P text) ↔
      letters.isPrefixOf name = true ∧ P (name.drop letters.length) := by
  rw [List.isPrefixOf_iff_prefix]
  constructor
  · rintro ⟨text, rfl, h⟩
    exact ⟨List.prefix_append _ _, by rwa [List.drop_left]⟩
  · rintro ⟨⟨text, rfl⟩, h⟩
    exact ⟨text, rfl, by rwa [List.drop_left] at h⟩

theorem exists_cons_iff {P : CStr → Prop} {c : Char} :
    (∃ text, name = [c] ++ text ∧ P text) ↔ name.head? = some c ∧ P name.tail := by
  cases name with
  | nil => exact iff_of_false (fun ⟨_, h, _⟩ => nomatch h) fun h => nomatch h.1
  | cons d ds =>
    constructor
    · rintro ⟨text, h, hP⟩
      obtain ⟨rfl, rfl⟩ := List.cons.inj h
      exact ⟨rfl, hP⟩
    · rintro ⟨h, hP⟩
      obtain rfl := Option.some.inj h
      exact ⟨ds, rfl, hP⟩

theorem ite_some_isSome {c : Prop} [Decidable c] {a : α} :
    (if c then some a else o).isSome = true ↔ c ∨ o.isSome = true := by
  split
  case isTrue h => exact iff_of_true rfl (.inl h)
  case isFalse h => exact ⟨.inr, fun h' => h'.resolve_left h⟩

theorem ite_none_isSome {c : Prop} [Decidable c] :
    (if c then o else none).isSome = true ↔ c ∧ o.isSome = true := by
  split
  case isTrue h => exact ⟨fun h' => ⟨h, h'⟩, fun h' => h'.2⟩
  case isFalse h => exact iff_of_false Bool.false_ne_true fun h' => h h'.1

theorem none_ite_isSome {c : Prop} [Decidable c] :
    (if c then none else o).isSome = true ↔ ¬c ∧ o.isSome = true := by
  split
  case isTrue h => exact iff_of_false Bool.false_ne_true fun h' => h'.1 h
  case isFalse h => exact ⟨fun h' => ⟨h, h'⟩, fun h' => h'.2⟩

theorem orElse_isSome {g : Unit → Option α} :
    (o.orElse g).isSome = true ↔ o.isSome = true ∨ (g ()).isSome = true := by
  cases o with
  | none => exact ⟨.inr, fun h => h.resolve_left Bool.false_ne_true⟩
  | some a => exact iff_of_true rfl (.inl rfl)

/-- The numbers that are compared with the values of `strtol` one by one. -/
theorem exists_loose_iff (hhi : hi < 2 ^ 63 - 1) :
    (∃ n, lo ≤ n ∧ n ≤ hi ∧ LooseNumeral n text) ↔
      (strtol text).2 = [] ∧ (lo : ℤ) ≤ (strtol text).1 ∧ (strtol text).1 ≤ hi := by
  constructor
  · rintro ⟨n, hlo, hle, h⟩
    rw [strtol_loose h (by omega)]
    exact ⟨rfl, Int.ofNat_le.mpr hlo, Int.ofNat_le.mpr hle⟩
  · rintro ⟨hend, hlo, hle⟩
    refine ⟨(strtol text).1.toNat, by omega, by omega, loose_of_strtol ?_ (by omega)⟩
    rw [Int.toNat_of_nonneg (by omega), ← hend]

theorem x86GprOfName_isSome_iff : (x86GprOfName name).isSome = true ↔
    name ∈ x86Plain ∨ ∃ text, name = "r".toList ++ text ∧ ∃ n, 8 ≤ n ∧ n ≤ 15 ∧
      LooseNumeral n text := by
  have hnumbers : ∀ idx : ℤ, ((8 : ℕ) : ℤ) ≤ idx ∧ idx ≤ (15 : ℕ) ↔ idx = 8 ∨ idx = 9 ∨ idx = 10 ∨
      idx = 11 ∨ idx = 12 ∨ idx = 13 ∨ idx = 14 ∨ idx = 15 := fun idx => by omega
  rw [show "r".toList = ['r'] from rfl, exists_cons_iff, exists_loose_iff (by decide), hnumbers,
    x86GprOfName]
  simp only [ite_some_isSome, ite_none_isSome, none_ite_isSome, x86Plain, List.map_cons,
    List.mem_cons, List.map_nil, List.not_mem_nil, or_false, or_assoc, ne_eq, not_not,
    Option.isSome_some, and_true]

theorem x86RegOfName_isSome_iff :
    (x86RegOfName name).isSome = true ↔ x86Documented name ∨ x86Surplus name := by
  have hr := loose_iff "r".toList name 8 15
  have hxmm := loose_iff "xmm".toList name 0 15
  have hst := loose_iff "st".toList name 0 7
  have hxmm' : (if "xmm".toList.isPrefixOf name then (regNumber 15 (name.drop 3)).map X86Reg.xmm
      else none).isSome = true ↔
      ∃ text, name = "xmm".toList ++ text ∧ ∃ n, 0 ≤ n ∧ n ≤ 15 ∧ LooseNumeral n text := by
    rw [ite_none_isSome, Option.isSome_map, regNumber_isSome_iff (by decide), exists_append_iff]
    rfl
  have hst' : (if "st".toList.isPrefixOf name then (regNumber 7 (name.drop 2)).map X86Reg.st
      else none).isSome = true ↔
      ∃ text, name = "st".toList ++ text ∧ ∃ n, 0 ≤ n ∧ n ≤ 7 ∧ LooseNumeral n text := by
    rw [ite_none_isSome, Option.isSome_map, regNumber_isSome_iff (by decide), exists_append_iff]
    rfl
  rw [x86RegOfName, orElse_isSome, Option.isSome_map, x86GprOfName_isSome_iff, x86FpOfName,
    orElse_isSome, hxmm', hst', hr, hxmm, hst, x86Documented, x86Surplus]
  exact Iff.of_eq (by ac_rfl)

theorem armGprOfName_isSome_iff : (armGprOfName name).isSome = true ↔
    name ∈ ["pc", "sp", "fp", "x29", "lr", "x30", "cpsr"].map String.toList ∨
      ∃ text, name = "x".toList ++ text ∧ ∃ n, 0 ≤ n ∧ n ≤ 28 ∧ LooseNumeral n text := by
  rw [show "x".toList = ['x'] from rfl, exists_cons_iff, ← regNumber_isSome_iff (by decide),
    armGprOfName]
  dsimp only
  rw [armX_eq_regNumber]
  simp only [ite_some_isSome, ite_none_isSome, Option.isSome_map, List.map_cons, List.mem_cons,
    List.map_nil, List.not_mem_nil, or_false, or_assoc]

theorem armRegOfName_isSome_iff :
    (armRegOfName name).isSome = true ↔ armDocumented name ∨ armSurplus name := by
  have hx := loose_iff "x".toList name 0 28
  have hv := loose_iff "v".toList name 0 31
  -- `x29` and `x30` have lines of their own
  have hx30 : Numbered "x".toList 0 30 name ↔
      Numbered "x".toList 0 28 name ∨ name = "x29".toList ∨ name = "x30".toList := by
    constructor
    · rintro ⟨n, -, hle, rfl⟩
      obtain h | rfl | rfl : n ≤ 28 ∨ n = 29 ∨ n = 30 := by omega
      · exact .inl ⟨n, Nat.zero_le n, h, rfl⟩
      · exact .inr (.inl (by decide))
      · exact .inr (.inr (by decide))
    · rintro (⟨n, -, hle, rfl⟩ | rfl | rfl)
      · exact ⟨n, Nat.zero_le n, by omega, rfl⟩
      · exact ⟨29, by decide, by decide, by decide⟩
      · exact ⟨30, by decide, by decide, by decide⟩
  have hfp : (armFpOfName name).isSome = true ↔ name = "fpsr".toList ∨ name = "fpcr".toList ∨
      ∃ text, name = "v".toList ++ text ∧ ∃ n, 0 ≤ n ∧ n ≤ 31 ∧ LooseNumeral n text := by
    rw [show "v".toList = ['v'] from rfl, exists_cons_iff, ← regNumber_isSome_iff (by decide),
      armFpOfName]
    simp only [ite_some_isSome, ite_none_isSome, Option.isSome_map]
  rw [armRegOfName, orElse_isSome, Option.isSome_map, armGprOfName_isSome_iff, hfp, hx, hv,
    armDocumented, armSurplus, hx30]
  simp only [armPlain, List.map_cons, List.mem_cons, List.map_nil, List.not_mem_nil, or_false]
  exact Iff.of_eq (by ac_rfl)

/-- A misspelt name is no documented one with the same letters. -/
theorem Misspelt.not_numbered (h : Misspelt letters lo hi name) (hhi : hi < 2 ^ 63)
    (hhi' : hi' < 2 ^ 63) : ¬Numbered letters lo' hi' name := by
  obtain ⟨n, text, -, hle, hloose, hne, rfl⟩ := h
  rintro ⟨m, -, hle', heq⟩
  obtain rfl := List.append_cancel_left heq
  exact hne (by rw [(looseNumeral_toDigits m).unique hloose (by omega) (by omega)])

theorem head_of_misspelt (h : Misspelt letters lo hi name) (hne : letters ≠ []) :
    name.head? = letters.head? := by
  obtain ⟨n, text, -, -, -, -, rfl⟩ := h
  exact List.head?_append_of_ne_nil _ hne

theorem head_of_numbered (h : Numbered letters lo hi name) (hne : letters ≠ []) :
    name.head? = letters.head? := by
  obtain ⟨n, -, -, rfl⟩ := h
  exact List.head?_append_of_ne_nil _ hne

/-- Names with other letters in front differ. -/
theorem Misspelt.not_other (h : Misspelt letters lo hi name) (hne : letters ≠ [])
    (hne' : letters' ≠ []) (hhead : letters.head? ≠ letters'.head?) :
    ¬Numbered letters' lo' hi' name := fun h' =>
  hhead ((head_of_misspelt h hne).symm.trans (head_of_numbered h' hne'))

theorem x86Surplus.not_documented (h : x86Surplus name) : ¬x86Documented name := by
  rintro (hplain | hr | hxmm | hst)
  · -- no plain name is one of letters with a number
    have hletters : ∀ t ∈ x86Plain, ¬"xmm".toList <+: t ∧ ¬"st".toList <+: t ∧
        (t.head? = some 'r' → (strtol t.tail).2 ≠ []) := by decide
    obtain ⟨hnoxmm, hnost, hnor⟩ := hletters name hplain
    rcases h with h | h | h
    · have hhead := head_of_misspelt h (by decide)
      obtain ⟨n, text, -, hle, hloose, -, rfl⟩ := h
      refine hnor hhead ?_
      rw [show ("r".toList ++ text).tail = text from rfl, strtol_loose hloose (by omega)]
    · obtain ⟨n, text, -, -, -, -, rfl⟩ := h
      exact hnoxmm (List.prefix_append _ _)
    · obtain ⟨n, text, -, -, -, -, rfl⟩ := h
      exact hnost (List.prefix_append _ _)
  · rcases h with h | h | h
    · exact h.not_numbered (by decide) (by decide) hr
    · exact h.not_other (by decide) (by decide) (by decide) hr
    · exact h.not_other (by decide) (by decide) (by decide) hr
  · rcases h with h | h | h
    · exact h.not_other (by decide) (by decide) (by decide) hxmm
    · exact h.not_numbered (by decide) (by decide) hxmm
    · exact h.not_other (by decide) (by decide) (by decide) hxmm
  · rcases h with h | h | h
    · exact h.not_other (by decide) (by decide) (by decide) hst
    · exact h.not_other (by decide) (by decide) (by decide) hst
    · exact h.not_numbered (by decide) (by decide) hst

theorem armSurplus.not_documented (h : armSurplus name) : ¬armDocumented name := by
  rintro (hplain | hx | hv)
  · have hletters : ∀ t ∈ armPlain, t.head? ≠ some 'x' ∧ t.head? ≠ some 'v' := by decide
    obtain ⟨hnox, hnov⟩ := hletters name hplain
    rcases h with h | h
    · exact hnox (head_of_misspelt h (by decide))
    · exact hnov (head_of_misspelt h (by decide))
  · rcases h with h | h
    · exact h.not_numbered (by decide) (by decide) hx
    · exact h.not_other (by decide) (by decide) (by decide) hx
  · rcases h with h | h
    · exact h.not_other (by decide) (by decide) (by decide) hv
    · exact h.not_numbered (by decide) (by decide) hv

end Names

/-! ### When only the names of the manual are accepted -/

/-- What `cdbg_regs_set_by_name` comes to before the registers are written back: its return code
and the registers. -/
def NamedFile.setResult {σ Reg : Type} (f : NamedFile σ Reg) (name : CStr) (value : UInt64)
    (isFloat : Bool) (fvalue : UInt64) (regs : σ) : Int × σ :=
  match f.setByName name value isFloat fvalue regs with
  | some regs' => (0, regs')
  | none => (-1, regs)

/-- A documented name is accepted, and any other one is refused and changes no register. -/
structure NamedFile.OnlyDocumented {σ Reg : Type} (f : NamedFile σ Reg) (documented : CStr → Prop)
    (name : CStr) : Prop where
  set : documented name → ∀ value isFloat fvalue regs,
    (f.setResult name value isFloat fvalue regs).1 = 0
  get : ∀ regs, (f.getByName regs name).isSome = true ↔ documented name
  refuse : ¬documented name → ∀ value isFloat fvalue regs,
    f.setResult name value isFloat fvalue regs = (-1, regs)

section OnlyDocumented

variable {σ Reg : Type} {f : NamedFile σ Reg} {isX87 : Reg → Bool}
  {kept : Reg → UInt64 → UInt64} {documented surplus : CStr → Prop}

/-- Names that are accepted besides the documented ones are the only exceptions. -/
theorem NamedFile.SetsOne.documented_iff [Inhabited σ] (h : f.SetsOne isX87 kept)
    (hnames : ∀ name, (f.ofName name).isSome = true ↔ documented name ∨ surplus name)
    (hsurplus : ∀ name, surplus name → ¬documented name) (name : CStr) :
    f.OnlyDocumented documented name ↔ ¬surplus name := by
  constructor
  · intro honly hs
    have hnamed := (h.named name default).mpr ((hnames name).mpr (.inr hs))
    exact hsurplus name hs ((honly.get default).mp hnamed)
  · intro hs
    have hiff : (f.ofName name).isSome = true ↔ documented name := by
      rw [hnames, or_iff_left hs]
    refine ⟨fun hd value isFloat fvalue regs => ?_, fun regs => (h.named name regs).trans hiff,
      fun hd value isFloat fvalue regs => ?_⟩
    · obtain ⟨reg, hreg⟩ := Option.isSome_iff_exists.mp (hiff.mpr hd)
      obtain ⟨regs', hset, -⟩ := h.sets name reg hreg value isFloat fvalue regs
      rw [NamedFile.setResult, hset]
    · have hget : ¬(f.getByName regs name).isSome = true := fun hget =>
        hd (hiff.mp ((h.named name regs).mp hget))
      have hset := mt (h.accepts name value isFloat fvalue regs).mp hget
      rw [not_or, Option.not_isSome_iff_eq_none, Option.not_isSome_iff_eq_none] at hset
      rw [NamedFile.setResult, NamedFile.setByName, hset.1, hset.2]
      rfl

end OnlyDocumented

instance : Inhabited X86Regs := ⟨{ native := fun _ => 0, xmm := fun _ => {}, st := fun _ => {} }⟩

instance : Inhabited ArmRegs := ⟨{ native := fun _ => 0, v := fun _ => {}, fpsr := 0, fpcr := 0 }⟩

/-- Only the documented names are accepted exactly as far as no other text is read as a number:
nothing at all, or a number behind white space, a sign or zeros. -/
theorem onlyDocumented_iff (name : CStr) :
    (x86File.OnlyDocumented x86Documented name ↔ ¬x86Surplus name) ∧
      (armFile.OnlyDocumented armDocumented name ↔ ¬armSurplus name) :=
  ⟨x86File_setsOne.documented_iff (fun _ => x86RegOfName_isSome_iff)
      (fun _ => x86Surplus.not_documented) name,
    armFile_setsOne.documented_iff (fun _ => armRegOfName_isSome_iff)
      (fun _ => armSurplus.not_documented) name⟩

/-- A letter alone stands for the first of its registers. -/
theorem letter_accepted :
    ¬∀ name : CStr, x86File.OnlyDocumented x86Documented name ∧
      armFile.OnlyDocumented armDocumented name := by
  intro h
  have hx := ((h "x".toList).2.get default).mp (by decide)
  have hsurplus : armSurplus "x".toList :=
    .inl ⟨0, [], by decide, by decide, .empty rfl, by decide, rfl⟩
  exact hsurplus.not_documented hx

end Debugger
