/-
C types, and their names in the debug information.

A type is built from base types and structs by pointers and arrays.  Its name is the one
that `dwarfdump` prints: a base type's or a struct's name in the middle, stars and opening
brackets before it, lengths behind it.  What the debugger reads off a name is a fact about
the type for some types only:

* `name_contains_star` — there is a star in the name where a pointer is inside the type,
  also below an array;
* `pointeeText_name` — the text before the first star is the name of what a pointer points
  to where that is a base type or a struct.
-/
import Debugger.VarInfo
import Mathlib.Data.List.TakeWhile

namespace Debugger

/-- The types of C. -/
inductive CType
  | base (name : CStr) (size : ℕ)
  | struct (tag : CStr)
  | pointer (target : CType)
  | array (element : CType) (length : ℕ)
deriving DecidableEq, Repr

namespace CType

def isPointer : CType → Bool
  | pointer _ => true
  | _ => false

def isArray : CType → Bool
  | array .. => true
  | _ => false

/-- A base type or a struct. -/
def isPlain : CType → Bool
  | base .. | struct _ => true
  | _ => false

/-- The type is a pointer, or an array of such types. -/
def starred : CType → Bool
  | pointer _ => true
  | array element _ => element.starred
  | _ => false

/-- The part of the name up to the place of a declared name. -/
def before : CType → CStr
  | base name _ | struct name => name
  | pointer target =>
    target.before ++ (if target.starred then [] else [' ']) ++
      (if target.isArray then ['('] else []) ++ ['*']
  | array element _ => element.before

/-- The part of the name behind the place of a declared name. -/
def after : CType → CStr
  | base .. | struct _ => []
  | pointer target => (if target.isArray then [')'] else []) ++ target.after
  | array element length => '[' :: (Nat.toDigits 10 length ++ ']' :: element.after)

/-- The name of the type. -/
def name (t : CType) : CStr := t.before ++ t.after

/-- The name of a base type or a struct: without a star, and no blank at its end. -/
def PlainName (text : CStr) : Prop := '*' ∉ text ∧ text.getLast? ≠ some ' '

/-- The names inside the type are those of base types and structs. -/
def Named : CType → Prop
  | base name _ | struct name => PlainName name
  | pointer target => target.Named
  | array element _ => element.Named

/-- `int *(*)[4]` is a pointer to an array of pointers. -/
example : (pointer (array (pointer (base "int".toList 4)) 4)).name = "int *(*)[4]".toList := by
  decide

section Names

variable {t : CType}

theorem not_mem_after (t : CType) : '*' ∉ t.after := by
  induction t with
  | base _ _ | struct _ => simp [after]
  | pointer target ih =>
    rw [after, List.mem_append]
    rintro (h | h)
    · split at h <;> simp at h
    · exact ih h
  | array element length ih =>
    rw [after]
    intro h
    simp only [List.mem_cons, List.mem_append] at h
    rcases h with h | h | h | h
    · exact absurd h (by decide)
    · have hdigit := Nat.isDigit_of_mem_toDigits (by decide) (by decide) h
      exact absurd hdigit (by decide)
    · exact absurd h (by decide)
    · exact ih h

theorem mem_before (h : t.Named) : '*' ∈ t.before ↔ t.starred = true := by
  induction t with
  | base name _ => exact iff_of_false h.1 (by simp [starred])
  | struct tag => exact iff_of_false h.1 (by simp [starred])
  | pointer target ih => simp [before, starred]
  | array element length ih => exact ih h

/-- There is a star in the name of a pointer, and of an array of pointers. -/
theorem name_contains_star (h : t.Named) : typeIsPointer t.name = t.starred := by
  rw [Bool.eq_iff_iff, typeIsPointer, List.contains_iff_mem, name, List.mem_append, mem_before h]
  simp [not_mem_after]

/-- The text of a type's name before its first star has no star. -/
theorem not_mem_pointeeText {text : CStr} : '*' ∉ pointeeText text := by
  unfold pointeeText
  split
  · intro h
    have hmem := (List.dropWhile_sublist _).mem (List.mem_reverse.mp h)
    have hne := List.mem_takeWhile_imp (List.mem_reverse.mp hmem)
    simp at hne
  · rename_i h
    simpa using h

/-- The text before the star names a base type or a struct. -/
theorem pointeeText_name (ht : t.isPlain = true) (h : t.Named) :
    pointeeText (pointer t).name = t.name := by
  have hplain : ∀ {text : CStr}, PlainName text →
      pointeeText (text ++ [' ', '*']) = text := by
    intro text htext
    have hcontains : (text ++ [' ', '*']).contains '*' = true := by simp
    have htake : (text ++ [' ', '*']).takeWhile (· ≠ '*') = text ++ [' '] := by
      rw [List.takeWhile_append_of_pos]
      · simp
      · intro c hc
        have hne : c ≠ '*' := by
          rintro rfl
          exact htext.1 hc
        simpa using hne
    rw [pointeeText, if_pos hcontains, htake, List.reverse_append]
    -- the blank before the star is cut off, and it is the only one
    show ((' ' :: text.reverse).dropWhile (· = ' ')).reverse = text
    rw [List.dropWhile_cons_of_pos (by simp)]
    cases hrev : text.reverse with
    | nil => simpa using hrev.symm
    | cons c cs =>
      have hlast : text.getLast? = some c := by
        rw [List.getLast?_eq_head?_reverse, hrev]
        rfl
      have hc : c ≠ ' ' := fun hc => htext.2 (hc ▸ hlast)
      rw [List.dropWhile_cons_of_neg (by simpa using hc), ← hrev, List.reverse_reverse]
  cases t with
  | base text _ | struct text =>
    show pointeeText ((text ++ [' '] ++ [] ++ ['*']) ++ ([] ++ [])) = text ++ []
    simpa using hplain h
  | pointer _ | array _ _ => exact Bool.noConfusion ht

end Names

end CType

end Debugger
