/-
The flags of `watch` (`parse_watch_flags`).

The loop trims the text in place after every flag, so what it has not read yet is the rest of
the text without white space at its end (`parseWatchFlags_flags`).  A sequence of flags is read
as a set with a last size, and a flag of another name anywhere in it is refused.
-/
import Debugger.SplitAssign

open Prog

namespace Debugger

/-- The flags of `watch`. -/
inductive WatchFlag
  | read | size1 | size2 | size4 | size8
deriving DecidableEq, Repr

namespace WatchFlag

/-- The text of a flag behind its slash. -/
def name : WatchFlag → CStr
  | read => "r".toList
  | size1 => "1".toList
  | size2 => "2".toList
  | size4 => "4".toList
  | size8 => "8".toList

/-- The size a flag asks for. -/
def size? : WatchFlag → Option ℕ
  | read => none
  | size1 => some 1
  | size2 => some 2
  | size4 => some 4
  | size8 => some 8

end WatchFlag

/-- Words behind slashes, each with the white space after it. -/
def slashed : List (CStr × CStr) → CStr
  | [] => []
  | (word, blanks) :: ws => '/' :: word ++ (blanks ++ slashed ws)

/-- The flags of a sequence as words. -/
def flagWords (fs : List (WatchFlag × CStr)) : List (CStr × CStr) :=
  fs.map fun f => (f.1.name, f.2)

/-- A word of a flag ends at white space. -/
def IsWord (word : CStr) : Prop := ∀ c ∈ word, isspace c = false

instance (word : CStr) : Decidable (IsWord word) :=
  inferInstanceAs (Decidable (∀ c ∈ word, isspace c = false))

/-- There is white space here, or the end of the text. -/
def WordEnds (text : CStr) : Prop := ∀ c ∈ text.head?, isspace c = true

instance : ∀ text : CStr, Decidable (WordEnds text)
  | [] => .isTrue fun _ h => nomatch h
  | c :: _ => decidable_of_iff (isspace c = true)
      ⟨fun h _ hc => Option.some.inj hc ▸ h, fun h => h c rfl⟩

/-- The white space after a flag. -/
def Separates (blanks : CStr) : Prop := Blank blanks ∧ blanks ≠ []

instance (blanks : CStr) : Decidable (Separates blanks) :=
  inferInstanceAs (Decidable ((∀ c ∈ blanks, isspace c = true) ∧ blanks ≠ []))

theorem Separates.wordEnds {blanks : CStr} (h : Separates blanks) (text : CStr) :
    WordEnds (blanks ++ text) := by
  obtain ⟨hblank, hne⟩ := h
  cases blanks with
  | nil => exact absurd rfl hne
  | cons b bs =>
    intro c hc
    obtain rfl := Option.some.inj hc
    exact hblank b List.mem_cons_self

theorem WatchFlag.name_isWord (flag : WatchFlag) : IsWord flag.name := by
  cases flag <;> decide

section Scan

variable {word rest text : CStr} {flag : WatchFlag} {watchRead : Bool} {explicitSize fuel : ℕ}

theorem takeWhile_word (hword : IsWord word) (hrest : WordEnds rest) :
    (word ++ rest).takeWhile (fun c => !isspace c) = word := by
  have hw : ∀ c ∈ word, (!isspace c) = true := fun c hc => by rw [hword c hc]; rfl
  rw [List.takeWhile_append_of_pos hw]
  cases rest with
  | nil => exact List.append_nil word
  | cons c cs =>
    have hc : isspace c = true := hrest c rfl
    rw [List.takeWhile_cons_of_neg (by rw [hc]; decide), List.append_nil]

theorem dropWhile_word (hword : IsWord word) (hrest : WordEnds rest) :
    (word ++ rest).dropWhile (fun c => !isspace c) = rest := by
  have hw : ∀ c ∈ word, (!isspace c) = true := fun c hc => by rw [hword c hc]; rfl
  rw [List.dropWhile_append_of_pos hw]
  cases rest with
  | nil => rfl
  | cons c cs =>
    have hc : isspace c = true := hrest c rfl
    rw [List.dropWhile_cons_of_neg (by rw [hc]; decide)]

/-- Trimming a text that begins with a word only takes white space from its end. -/
theorem trimSpace_word (hword : IsWord word) (hne : word ≠ []) :
    trimSpace (word ++ rest) = word ++ rest.rdropWhile isspace := by
  have hdrop : ∀ {w cs : CStr}, IsWord w → w ≠ [] → (w ++ cs).dropWhile isspace = w ++ cs := by
    intro w cs hw hne
    cases w with
    | nil => exact absurd rfl hne
    | cons c w =>
      refine List.dropWhile_cons_of_neg ?_
      rw [hw c List.mem_cons_self]
      exact Bool.false_ne_true
  have hrev : (word.reverse).dropWhile isspace = word.reverse := by
    have h := @hdrop word.reverse [] (fun c hc => hword c (List.mem_reverse.mp hc))
      (mt List.reverse_eq_nil_iff.mp hne)
    rwa [List.append_nil] at h
  rw [trimSpace, hdrop hword hne, List.reverse_append, List.dropWhile_append, List.rdropWhile]
  split
  case isTrue h =>
    rw [List.isEmpty_iff.mp h, hrev, List.reverse_reverse, List.reverse_nil, List.append_nil]
  case isFalse => rw [List.reverse_append, List.reverse_reverse]

theorem trimSpace_slashed (hword : IsWord word) :
    trimSpace ('/' :: word ++ rest) = '/' :: word ++ rest.rdropWhile isspace := by
  refine trimSpace_word (fun c hc => ?_) (List.cons_ne_nil _ _)
  rcases List.mem_cons.mp hc with rfl | hc
  · rfl
  · exact hword c hc

theorem trimSpace_rdropWhile (text : CStr) : trimSpace (text.rdropWhile isspace) = trimSpace text := by
  have hblank : Blank (text.rtakeWhile isspace) := fun c hc => List.mem_rtakeWhile_imp hc
  have hsplit : text.rdropWhile isspace ++ text.rtakeWhile isspace = text := by
    rw [List.rdropWhile, List.rtakeWhile, ← List.reverse_append, List.takeWhile_append_dropWhile,
      List.reverse_reverse]
  rw [← trimSpace_append_right hblank, hsplit]

theorem WordEnds.rdropWhile (h : WordEnds text) : WordEnds (text.rdropWhile isspace) := by
  intro c hc
  obtain ⟨cs, hcs⟩ := List.head?_eq_some_iff.mp hc
  obtain ⟨t, ht⟩ := List.rdropWhile_prefix isspace text
  refine h c ?_
  rw [← ht, hcs]
  rfl

/-! ### One flag -/

/-- A flag sets what it stands for, and the text behind it is trimmed. -/
theorem parseWatchFlags_flag (hrest : WordEnds rest) :
    parseWatchFlags (fuel + 1) watchRead explicitSize ('/' :: flag.name ++ rest) =
      parseWatchFlags fuel (watchRead || decide (flag = .read)) (flag.size?.getD explicitSize)
        (trimSpace rest) := by
  rw [List.cons_append, parseWatchFlags]
  rw [takeWhile_word flag.name_isWord hrest, dropWhile_word flag.name_isWord hrest]
  have hor : (watchRead || false) = watchRead := Bool.or_false _
  cases flag with
  | read =>
    have hread : (watchRead || decide (WatchFlag.read = .read)) = true := Bool.or_true _
    rw [hread]
    exact if_pos rfl
  | size1 =>
    rw [if_neg (by decide)]
    refine (if_pos rfl).trans ?_
    exact hor.symm ▸ rfl
  | size2 =>
    rw [if_neg (by decide), if_neg (by decide)]
    refine (if_pos rfl).trans ?_
    exact hor.symm ▸ rfl
  | size4 =>
    rw [if_neg (by decide), if_neg (by decide), if_neg (by decide)]
    refine (if_pos rfl).trans ?_
    exact hor.symm ▸ rfl
  | size8 =>
    rw [if_neg (by decide), if_neg (by decide), if_neg (by decide), if_neg (by decide)]
    refine (if_pos rfl).trans ?_
    exact hor.symm ▸ rfl

/-- A word that is no flag is refused. -/
theorem parseWatchFlags_unknown (hword : IsWord word) (hrest : WordEnds rest)
    (hno : ∀ flag : WatchFlag, flag.name ≠ word) :
    parseWatchFlags (fuel + 1) watchRead explicitSize ('/' :: word ++ rest) = none := by
  rw [List.cons_append, parseWatchFlags]
  rw [takeWhile_word hword hrest]
  refine (if_neg (hno .read).symm).trans ?_
  refine (if_neg (hno .size1).symm).trans ?_
  refine (if_neg (hno .size2).symm).trans ?_
  refine (if_neg (hno .size4).symm).trans ?_
  exact if_neg (hno .size8).symm

/-- Where no flag begins, the loop ends. -/
theorem parseWatchFlags_end (h : ∀ c ∈ text.head?, c ≠ '/') :
    parseWatchFlags fuel watchRead explicitSize text = some (watchRead, explicitSize, text) := by
  cases text with
  | nil => cases fuel <;> rfl
  | cons c cs =>
    have hc : c ≠ '/' := h c rfl
    cases fuel with
    | zero => rfl
    | succ fuel =>
      rw [parseWatchFlags]
      intro _ _ _ hcs
      exact hc (List.cons.inj hcs).1

/-- `parse_watch_flags` as `cmd_watch` calls it: no flag has been read, and there are no more
flags than characters. -/
def readWatchFlags (text : CStr) : Option (Bool × ℕ × CStr) :=
  parseWatchFlags text.length false 0 text

/-- White space at the end of a text that begins with a flag makes no difference. -/
theorem parseWatchFlags_trim (h : text.head? = some '/') :
    parseWatchFlags (fuel + 1) watchRead explicitSize (trimSpace text) =
      parseWatchFlags (fuel + 1) watchRead explicitSize text := by
  obtain ⟨cs, rfl⟩ := List.head?_eq_some_iff.mp h
  have hword : IsWord (cs.takeWhile fun c => !isspace c) := fun c hc => by
    have hc' := List.mem_takeWhile_imp hc
    rwa [Bool.not_eq_true'] at hc'
  have hrest : WordEnds (cs.dropWhile fun c => !isspace c) := fun c hc => by
    have hc' := List.head?_dropWhile_not (fun c => !isspace c) cs
    rw [hc] at hc'
    simpa using hc'
  rw [← List.takeWhile_append_dropWhile (p := fun c => !isspace c) (l := cs)]
  generalize cs.takeWhile (fun c => !isspace c) = word at hword ⊢
  generalize cs.dropWhile (fun c => !isspace c) = rest at hrest ⊢
  have htrim : trimSpace ('/' :: (word ++ rest)) = '/' :: (word ++ rest.rdropWhile isspace) :=
    trimSpace_slashed hword
  rw [htrim, parseWatchFlags, parseWatchFlags, takeWhile_word hword hrest,
    dropWhile_word hword hrest, takeWhile_word hword hrest.rdropWhile,
    dropWhile_word hword hrest.rdropWhile, trimSpace_rdropWhile]

end Scan

/-! ### A sequence of flags -/

section Sequence

variable {fs : List (WatchFlag × CStr)} {ws : List (CStr × CStr)} {word rest text : CStr}

theorem length_le_slashed : ∀ ws : List (CStr × CStr), ws.length ≤ (slashed ws).length
  | [] => Nat.le_refl 0
  | (word, blanks) :: ws => by
    have ih := length_le_slashed ws
    simp only [slashed, List.length_append, List.length_cons]
    omega

/-- The last size of a sequence, if there is one, behind those before it. -/
theorem lastSize_cons (flag : WatchFlag) (flags : List WatchFlag) (explicitSize : ℕ) :
    ((flag :: flags).filterMap WatchFlag.size?).getLast?.getD explicitSize =
      (flags.filterMap WatchFlag.size?).getLast?.getD (flag.size?.getD explicitSize) := by
  cases h : flag.size? with
  | none => rw [List.filterMap_cons_none h, Option.getD_none]
  | some size =>
    rw [List.filterMap_cons_some h, List.getLast?_cons, Option.getD_some, Option.getD_some]

/-- The loop on what is left of a sequence of flags. -/
theorem parseWatchFlags_flags (hhead : ∀ c ∈ text.head?, c ≠ '/')
    (htrim : trimSpace text = text) :
    ∀ {fs : List (WatchFlag × CStr)} {fuel explicitSize : ℕ} {watchRead : Bool},
      (∀ f ∈ fs, Separates f.2) → fs.length ≤ fuel →
        parseWatchFlags fuel watchRead explicitSize (trimSpace (slashed (flagWords fs) ++ text)) =
          some (watchRead || decide (WatchFlag.read ∈ fs.map Prod.fst),
            ((fs.map Prod.fst).filterMap WatchFlag.size?).getLast?.getD explicitSize, text) := by
  intro fs
  induction fs with
  | nil =>
    intro fuel explicitSize watchRead _ _
    rw [show slashed (flagWords []) ++ text = text from rfl, htrim, parseWatchFlags_end hhead]
    simp
  | cons f fs ih =>
    obtain ⟨flag, blanks⟩ := f
    intro fuel explicitSize watchRead hsep hfuel
    obtain ⟨fuel, rfl⟩ := Nat.exists_eq_succ_of_ne_zero (Nat.ne_zero_of_lt hfuel)
    have hblanks : Separates blanks := hsep _ List.mem_cons_self
    have hends : WordEnds (blanks ++ (slashed (flagWords fs) ++ text)) := hblanks.wordEnds _
    have hsplit : slashed (flagWords ((flag, blanks) :: fs)) ++ text =
        '/' :: flag.name ++ (blanks ++ (slashed (flagWords fs) ++ text)) := by
      simp [flagWords, slashed]
    rw [hsplit, trimSpace_slashed flag.name_isWord, parseWatchFlags_flag hends.rdropWhile,
      trimSpace_rdropWhile, trimSpace_append_left hblanks.1,
      ih (fun f hf => hsep f (List.mem_cons_of_mem _ hf)) (Nat.le_of_succ_le_succ hfuel),
      List.map_cons, lastSize_cons, Bool.or_assoc]
    congr 2
    rw [← Bool.decide_or]
    simp only [List.mem_cons, eq_comm]

/-- A word that is no flag is refused behind any others. -/
theorem parseWatchFlags_refuses (hword : IsWord word) (hrest : WordEnds rest)
    (hno : ∀ flag : WatchFlag, flag.name ≠ word) :
    ∀ {ws : List (CStr × CStr)} {fuel explicitSize : ℕ} {watchRead : Bool},
      (∀ w ∈ ws, IsWord w.1 ∧ Separates w.2) → ws.length < fuel →
        parseWatchFlags fuel watchRead explicitSize
          (trimSpace (slashed ws ++ ('/' :: word ++ rest))) = none := by
  intro ws
  induction ws with
  | nil =>
    intro fuel explicitSize watchRead _ hfuel
    obtain ⟨fuel, rfl⟩ := Nat.exists_eq_succ_of_ne_zero (Nat.ne_zero_of_lt hfuel)
    rw [show slashed [] ++ ('/' :: word ++ rest) = '/' :: word ++ rest from rfl,
      trimSpace_slashed hword, parseWatchFlags_unknown hword hrest.rdropWhile hno]
  | cons w ws ih =>
    obtain ⟨other, blanks⟩ := w
    intro fuel explicitSize watchRead hws hfuel
    obtain ⟨fuel, rfl⟩ := Nat.exists_eq_succ_of_ne_zero (Nat.ne_zero_of_lt hfuel)
    obtain ⟨hother, hblanks⟩ := hws _ List.mem_cons_self
    have hends : WordEnds (blanks ++ (slashed ws ++ ('/' :: word ++ rest))) := hblanks.wordEnds _
    have hsplit : slashed ((other, blanks) :: ws) ++ ('/' :: word ++ rest) =
        '/' :: other ++ (blanks ++ (slashed ws ++ ('/' :: word ++ rest))) := by
      simp [slashed]
    rw [hsplit, trimSpace_slashed hother]
    by_cases hflag : ∃ flag : WatchFlag, flag.name = other
    · obtain ⟨flag, rfl⟩ := hflag
      rw [parseWatchFlags_flag hends.rdropWhile, trimSpace_rdropWhile,
        trimSpace_append_left hblanks.1]
      exact ih (fun w hw => hws w (List.mem_cons_of_mem _ hw)) (Nat.lt_of_succ_lt_succ hfuel)
    · exact parseWatchFlags_unknown hother hends.rdropWhile fun flag h => hflag ⟨flag, h⟩

/-- The flags of `watch` are read as a set with a last size. -/
theorem readWatchFlags_flags (hsep : ∀ f ∈ fs, Separates f.2)
    (hhead : ∀ c ∈ text.head?, c ≠ '/' ∧ isspace c = false)
    (hlast : ∀ c ∈ text.getLast?, isspace c = false) :
    readWatchFlags (slashed (flagWords fs) ++ text) =
      some (decide (WatchFlag.read ∈ fs.map Prod.fst),
        ((fs.map Prod.fst).filterMap WatchFlag.size?).getLast?.getD 0, text) := by
  have htrim : trimSpace text = text :=
    trimSpace_eq_self_iff.mpr ⟨fun c hc => (hhead c hc).2, hlast⟩
  have hhead' : ∀ c ∈ text.head?, c ≠ '/' := fun c hc => (hhead c hc).1
  cases fs with
  | nil =>
    rw [show slashed (flagWords []) ++ text = text from rfl, readWatchFlags,
      parseWatchFlags_end hhead']
    rfl
  | cons f fs =>
    have hlen : (f :: fs).length ≤ (slashed (flagWords (f :: fs)) ++ text).length := by
      have h := length_le_slashed (flagWords (f :: fs))
      rw [flagWords, List.length_map] at h
      rw [List.length_append, flagWords]
      omega
    have hflags := @parseWatchFlags_flags text hhead' htrim (f :: fs)
      (slashed (flagWords (f :: fs)) ++ text).length 0 false hsep hlen
    rw [Bool.false_or] at hflags
    rw [readWatchFlags, ← hflags]
    exact (parseWatchFlags_trim rfl).symm

/-- A word that is no flag is refused, wherever it stands. -/
theorem readWatchFlags_refuses (hws : ∀ w ∈ ws, IsWord w.1 ∧ Separates w.2) (hword : IsWord word)
    (hrest : WordEnds rest) (hno : ∀ flag : WatchFlag, flag.name ≠ word) :
    readWatchFlags (slashed ws ++ ('/' :: word ++ rest)) = none := by
  have hhead : (slashed ws ++ ('/' :: word ++ rest)).head? = some '/' := by
    cases ws with
    | nil => rfl
    | cons w ws => rfl
  have hlen : ws.length < (slashed ws ++ ('/' :: word ++ rest)).length := by
    have h := length_le_slashed ws
    simp only [List.length_append, List.length_cons]
    omega
  have hno' := @parseWatchFlags_refuses word rest hword hrest hno ws _ 0 false hws hlen
  obtain ⟨fuel, hfuel⟩ := Nat.exists_eq_succ_of_ne_zero (Nat.ne_zero_of_lt hlen)
  rw [readWatchFlags]
  rw [hfuel] at hno' ⊢
  rw [← hno']
  exact (parseWatchFlags_trim hhead).symm

/-- The order of flags with at most one size makes no difference, nor does the white space
between them. -/
theorem lastSize_perm {flags flags' : List WatchFlag} (h : flags.Perm flags')
    (hone : (flags.filterMap WatchFlag.size?).length ≤ 1) :
    (flags.filterMap WatchFlag.size?).getLast? = (flags'.filterMap WatchFlag.size?).getLast? := by
  have hsizes := h.filterMap WatchFlag.size?
  match hs : flags.filterMap WatchFlag.size?, hone with
  | [], _ => rw [hs] at hsizes; rw [hsizes.nil_eq]
  | [size], _ => rw [hs] at hsizes; rw [List.singleton_perm.mp hsizes]

end Sequence

/-- `parse_watch_flags` reads a sequence of flags as a set with a last size, whatever their order,
and refuses a word that is no flag anywhere among them. -/
theorem watchFlags_set :
    (∀ (fs : List (WatchFlag × CStr)) (text : CStr), (∀ f ∈ fs, Separates f.2) →
      (∀ c ∈ text.head?, c ≠ '/' ∧ isspace c = false) → (∀ c ∈ text.getLast?, isspace c = false) →
      readWatchFlags (slashed (flagWords fs) ++ text) =
          some (decide (WatchFlag.read ∈ fs.map Prod.fst),
            ((fs.map Prod.fst).filterMap WatchFlag.size?).getLast?.getD 0, text) ∧
        ∀ fs' : List (WatchFlag × CStr), (∀ f ∈ fs', Separates f.2) →
          (fs.map Prod.fst).Perm (fs'.map Prod.fst) →
          ((fs.map Prod.fst).filterMap WatchFlag.size?).length ≤ 1 →
          readWatchFlags (slashed (flagWords fs') ++ text) =
            readWatchFlags (slashed (flagWords fs) ++ text)) ∧
      ∀ (ws : List (CStr × CStr)) (word rest : CStr), (∀ w ∈ ws, IsWord w.1 ∧ Separates w.2) →
        IsWord word → WordEnds rest → (∀ flag : WatchFlag, flag.name ≠ word) →
        readWatchFlags (slashed ws ++ ('/' :: word ++ rest)) = none := by
  refine ⟨fun fs text hsep hhead hlast => ⟨readWatchFlags_flags hsep hhead hlast, ?_⟩,
    fun ws word rest hws hword hrest hno => readWatchFlags_refuses hws hword hrest hno⟩
  intro fs' hsep' hperm hone
  rw [readWatchFlags_flags hsep hhead hlast, readWatchFlags_flags hsep' hhead hlast,
    lastSize_perm hperm hone]
  congr 2
  exact decide_eq_decide.mpr hperm.symm.mem_iff

/-- Two orders of `/r` and `/4` in front of an expression, and a flag of another size. -/
theorem watchFlags_set_two :
    readWatchFlags "/r /4 buf[0]".toList = some (true, 4, "buf[0]".toList) ∧
      readWatchFlags "/4  /r\tbuf[0]".toList = readWatchFlags "/r /4 buf[0]".toList ∧
      readWatchFlags "/r /3 buf[0]".toList = none := by
  have hhead : ∀ c ∈ "buf[0]".toList.head?, c ≠ '/' ∧ isspace c = false := by
    intro c hc
    obtain rfl : 'b' = c := Option.some.inj hc
    decide
  have hlast : ∀ c ∈ "buf[0]".toList.getLast?, isspace c = false := by
    intro c hc
    obtain rfl : ']' = c := Option.some.inj hc
    decide
  have hset := watchFlags_set.1 [(.read, " ".toList), (.size4, " ".toList)] "buf[0]".toList
    (by decide) hhead hlast
  exact ⟨hset.1, hset.2 [(.size4, "  ".toList), (.read, "\t".toList)] (by decide) (by decide)
      (by decide),
    watchFlags_set.2 [("r".toList, " ".toList)] "3".toList " buf[0]".toList (by decide) (by decide)
      (by decide) fun flag => by cases flag <;> decide⟩

end Debugger
