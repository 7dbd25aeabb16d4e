/-
What the parser of a unit's header reads (`parse_line_table` up to `parse_line_program`).

A reading function moves its cursor towards its end and reads only what is in between, and so
does what is put together of such functions (`Within`): the bytes of a header's tables are read
inside the header, whatever they are.
-/
import Debugger.LineAccess
import Debugger.LineReads

open Prog

namespace Debugger

/-! ### Reading through a cursor -/

theorem toNat_succ {p : Addr} (h : p.toNat + 1 < 2 ^ 64) : (p + 1).toNat = p.toNat + 1 := by
  have h1 : (1 : UInt64).toNat = 1 := rfl
  rw [UInt64.toNat_add, h1, Nat.mod_eq_of_lt h]

/-- The bytes read are before the end of the cursor and not in front of it. -/
def Access.InCursor (lineStr : LineStr) (c : ParseCursor) : Access → Prop
  | .byte p => c.data ≤ p ∧ p < c.end_
  | .copy p => c.data ≤ p ∧ p ≤ c.end_
  | .copyLineStr p => ∃ start size offset, lineStr = some (start, size) ∧ offset < size ∧
      p = start + offset
  | _ => False

/-- A cursor inside another one. -/
def ParseCursor.In (c' c : ParseCursor) : Prop :=
  c.data ≤ c'.data ∧ c'.data ≤ c'.end_ ∧ c'.end_ ≤ c.end_

/-- Only bytes from the cursor to its end are read. -/
def Accesses.Reads (l : Accesses) : Prop :=
  ∀ c : ParseCursor, c.data ≤ c.end_ → ∀ a ∈ l c, ∃ p, a = .byte p ∧ c.data ≤ p ∧ p < c.end_

/-- A reading function moves its cursor towards the end and reads what is in between. -/
def Within {α : Type} (lineStr : LineStr) (r : Reader α) (l : Accesses) : Prop :=
  Forward r ∧ ∀ c : ParseCursor, c.data ≤ c.end_ → ∀ a ∈ l c, a.InCursor lineStr c

section Cursors

variable {α : Type} {c c' : ParseCursor}

theorem ParseCursor.In.refl (hc : c.data ≤ c.end_) : c.In c :=
  ⟨UInt64.le_refl _, hc, UInt64.le_refl _⟩

theorem ParseCursor.In.trans {c'' : ParseCursor} (h : c''.In c') (h' : c'.In c) : c''.In c :=
  ⟨UInt64.le_trans h'.1 h.1, h.2.1, UInt64.le_trans h.2.2 h'.2.2⟩

theorem Forward.in {r : Reader α} (h : Forward r) (hc : c.data ≤ c.end_) : (r.run c).2.In c := by
  obtain ⟨hend, hlo, hhi⟩ := h c hc
  exact ⟨hlo, hend ▸ hhi, hend ▸ UInt64.le_refl _⟩

end Cursors

/-! ### What the readers read -/

section Reads

variable {α : Type} {mem : Mem} {c : ParseCursor}

theorem Accesses.Reads.nil : Accesses.Reads fun _ => [] :=
  fun _ _ _ h => absurd h List.not_mem_nil

theorem Accesses.Reads.andThen {l : Accesses} {r : Reader α} {k : α → Accesses} (hl : l.Reads)
    (hr : Forward r) (hk : ∀ a, (k a).Reads) : (l.andThen r k).Reads := by
  intro c hc a ha
  obtain ⟨hlo, hmid, hhi⟩ := hr.in hc
  rcases List.mem_append.mp ha with ha | ha
  · exact hl c hc a ha
  · obtain ⟨p, rfl, hp, hend⟩ := hk _ _ hmid a ha
    exact ⟨p, rfl, UInt64.le_trans hlo hp, UInt64.lt_of_lt_of_le hend hhi⟩

/-- The bytes behind the check of `cursor_ok`. -/
theorem wordAccesses_reads {n : ℕ} (hn : n ≤ 8) : (wordAccesses n).Reads := by
  intro c hc a ha
  rw [wordAccesses] at ha
  split at ha
  case isFalse => exact absurd ha List.not_mem_nil
  case isTrue hok =>
    obtain ⟨i, hi, rfl⟩ := List.mem_map.mp ha
    have hi := List.mem_range.mp hi
    have hend := c.end_.toNat_lt
    have hle := UInt64.le_iff_toNat_le.mp hc
    have hrem : n ≤ c.end_.toNat - c.data.toNat := by
      rw [← toNat_remaining hc]
      exact of_decide_eq_true hok
    have hofNat : (UInt64.ofNat i).toNat = i :=
      UInt64.toNat_ofNat_of_lt' (Nat.lt_of_lt_of_le (Nat.lt_of_lt_of_le hi hn) (by decide))
    have hadd : (c.data + UInt64.ofNat i).toNat = c.data.toNat + i := by
      rw [UInt64.toNat_add, hofNat, Nat.mod_eq_of_lt (by omega)]
    exact ⟨_, rfl, UInt64.le_iff_toNat_le.mpr (by omega), UInt64.lt_iff_toNat_lt.mpr (by omega)⟩

theorem readU64Accesses_reads : ∀ n : ℕ, (readU64Accesses mem n).Reads
  | 0 => .nil
  | n + 1 => (wordAccesses_reads (by decide)).andThen readU8_forward fun _ =>
    readU64Accesses_reads n

theorem lebAccessesFrom_reads : ∀ n : ℕ, (lebAccessesFrom mem n).Reads
  | 0 => .nil
  | n + 1 => by
    refine (wordAccesses_reads (by decide)).andThen readU8_forward fun byte => ?_
    split
    · exact .nil
    · exact lebAccessesFrom_reads n

theorem lebAccesses_reads : (lebAccesses mem).Reads := lebAccessesFrom_reads 10

/-- A scan reads bytes in front of its end. -/
theorem scanAccesses_mem {goesOn : UInt8 → Bool} : ∀ {n : ℕ} {p : Addr} {a : Access},
    p.toNat + n < 2 ^ 64 → a ∈ scanAccesses mem goesOn n p →
      ∃ q, a = .byte q ∧ p ≤ q ∧ q.toNat < p.toNat + n := by
  intro n
  induction n with
  | zero => exact fun _ h => absurd h List.not_mem_nil
  | succ n ih =>
    intro p a hn ha
    rw [scanAccesses, List.mem_cons] at ha
    rcases ha with rfl | ha
    · exact ⟨p, rfl, UInt64.le_refl p, by omega⟩
    · split at ha
      · have hsucc : (p + 1).toNat = p.toNat + 1 := toNat_succ (by omega)
        obtain ⟨q, rfl, hlo, hhi⟩ := ih (by omega) ha
        have hlo := UInt64.le_iff_toNat_le.mp hlo
        exact ⟨q, rfl, UInt64.le_iff_toNat_le.mpr (by omega), by omega⟩
      · exact absurd ha List.not_mem_nil

theorem scanAccesses_reads (goesOn : UInt8 → Bool) :
    Accesses.Reads fun c => scanAccesses mem goesOn (c.end_.toNat - c.data.toNat) c.data := by
  intro c hc a ha
  have hend := c.end_.toNat_lt
  have hle := UInt64.le_iff_toNat_le.mp hc
  obtain ⟨q, rfl, hlo, hhi⟩ := scanAccesses_mem (by omega) ha
  exact ⟨q, rfl, hlo, UInt64.lt_iff_toNat_lt.mpr (by omega)⟩

end Reads

/-! ### Reading functions -/

section Within

variable {α β : Type} {mem : Mem} {lineStr : LineStr} {c c' : ParseCursor}

theorem Access.InCursor.mono {a : Access} (hin : c'.In c) (h : a.InCursor lineStr c') :
    a.InCursor lineStr c := by
  cases a with
  | byte p => exact ⟨UInt64.le_trans hin.1 h.1, UInt64.lt_of_lt_of_le h.2 hin.2.2⟩
  | copy p => exact ⟨UInt64.le_trans hin.1 h.1, UInt64.le_trans h.2 hin.2.2⟩
  | copyLineStr p => exact h
  | divide n => exact h
  | stdLength n => exact h

theorem Within.pure (a : α) : Within lineStr (Pure.pure a : Reader α) fun _ => [] :=
  ⟨.pure a, fun _ _ _ h => absurd h (List.not_mem_nil)⟩

theorem Within.bind {r : Reader α} {l : Accesses} {f : α → Reader β} {k : α → Accesses}
    (hr : Within lineStr r l) (hf : ∀ a, Within lineStr (f a) (k a)) :
    Within lineStr (r >>= f) (l.andThen r k) := by
  refine ⟨hr.1.bind fun a => (hf a).1, fun c hc a ha => ?_⟩
  have hin := hr.1.in hc
  rcases List.mem_append.mp ha with ha | ha
  · exact hr.2 c hc a ha
  · exact ((hf _).2 _ hin.2.1 a ha).mono hin

theorem Accesses.Reads.in {l : Accesses} (hl : l.Reads) (hc : c.data ≤ c.end_) :
    ∀ a ∈ l c, a.InCursor lineStr c := by
  intro a ha
  obtain ⟨p, rfl, hlo, hhi⟩ := hl c hc a ha
  exact ⟨hlo, hhi⟩

theorem Accesses.Reads.within {l : Accesses} {r : Reader α} (hl : l.Reads) (hr : Forward r) :
    Within lineStr r l :=
  ⟨hr, fun _ hc => hl.in hc⟩

theorem wordAccesses_in {n : ℕ} (hn : n ≤ 8) (hc : c.data ≤ c.end_) :
    ∀ a ∈ wordAccesses n c, a.InCursor lineStr c := (wordAccesses_reads hn).in hc

theorem readU32_forward : Forward (readU32 mem) := forward_of_cursorOk (n := 4)

theorem readU8_within : Within lineStr (readU8 mem) (wordAccesses 1) :=
  (wordAccesses_reads (by decide)).within readU8_forward

theorem readUleb128_within : Within lineStr (readUleb128 mem) (lebAccesses mem) :=
  lebAccesses_reads.within readUleb128_forward

theorem readDescs_within : ∀ n : ℕ, Within lineStr (readDescs mem n) (readDescsAccesses mem n)
  | 0 => .pure _
  | n + 1 => by
    have hdescs := readDescs_within n
    refine readUleb128_within.bind fun type => readUleb128_within.bind fun form => ?_
    exact ⟨hdescs.1.bind fun _ => .pure _, hdescs.2⟩

theorem readFormatDescriptors_within :
    Within lineStr (readFormatDescriptors mem) (readFormatDescriptorsAccesses mem) :=
  readU8_within.bind fun count => readDescs_within count.toNat

theorem readStdLengths_within : ∀ n : ℕ,
    Within lineStr (readStdLengths mem n) (readStdLengthsAccesses mem n)
  | 0 => .pure _
  | n + 1 => by
    have hlengths := readStdLengths_within n
    refine readU8_within.bind fun length => ?_
    exact ⟨hlengths.1.bind fun _ => .pure _, hlengths.2⟩

theorem scanZeros_bounds (mem : Mem) : ∀ (n : ℕ) (p : Addr), p.toNat + n < 2 ^ 64 →
    p.toNat ≤ (scanZeros mem n p).toNat ∧ (scanZeros mem n p).toNat ≤ p.toNat + n
  | 0, p, _ => ⟨Nat.le_refl _, Nat.le_refl _⟩
  | n + 1, p, h => by
    have hp : (p + 1).toNat = p.toNat + 1 := toNat_succ (by omega)
    have ih := scanZeros_bounds mem n (p + 1) (by omega)
    rw [scanZeros]
    split
    · omega
    · exact ⟨Nat.le_refl _, Nat.le_add_right _ _⟩

theorem readCstr_forward : Forward (readCstr mem) := by
  intro c hc
  rcases UInt64.lt_or_eq_of_le hc with hlt | heq
  · obtain ⟨hend, hlo, hhi⟩ := @readCstr_advances mem c hlt
    exact ⟨hend, UInt64.le_of_lt hlo, hhi⟩
  · have hdata : ((readCstr mem).run c).2.data = c.data := by
      change (if scanCstr mem (c.end_.toNat - c.data.toNat) c.data ≥ c.end_ then
        scanCstr mem (c.end_.toNat - c.data.toNat) c.data else _) = c.data
      rw [← heq, Nat.sub_self, scanCstr, if_pos (UInt64.le_refl _)]
    exact ⟨rfl, hdata ▸ UInt64.le_refl _, hdata ▸ hc⟩

theorem readCstr_within : Within lineStr (readCstr mem) (readCstrAccesses mem) :=
  (scanAccesses_reads _).within readCstr_forward

theorem skipPaddingZeros_forward : Forward (skipPaddingZeros mem) := by
  intro c hc
  have hend := c.end_.toNat_lt
  have hle := UInt64.le_iff_toNat_le.mp hc
  obtain ⟨hlo, hhi⟩ := scanZeros_bounds mem (c.end_.toNat - c.data.toNat) c.data (by omega)
  have hhi' : (scanZeros mem (c.end_.toNat - c.data.toNat) c.data).toNat ≤ c.end_.toNat := by omega
  exact ⟨rfl, UInt64.le_iff_toNat_le.mpr hlo, UInt64.le_iff_toNat_le.mpr hhi'⟩

theorem skipPaddingZeros_within :
    Within lineStr (skipPaddingZeros mem) (skipPaddingZerosAccesses mem) :=
  (scanAccesses_reads _).within skipPaddingZeros_forward

end Within

/-! ### The tables of a unit -/

section Tables

variable {α β : Type} {mem : Mem} {lineStr : LineStr} {form : UInt64}

theorem Within.parseBind {p : Parser α} {l : Accesses} {f : α → Parser β} {k : α → Accesses}
    (hp : Within lineStr p.run l) (hf : ∀ a, Within lineStr (f a).run (k a)) :
    Within lineStr (p >>= f).run (l.andThenParse p k) := by
  have hrun : (p >>= f).run =
      p.run >>= fun a => a.elim (Pure.pure none) fun a => (f a).run := by
    rw [OptionT.run_bind]
    refine bind_congr fun a => ?_
    cases a <;> rfl
  rw [hrun]
  refine hp.bind fun a => ?_
  cases a with
  | none => exact .pure none
  | some a => exact hf a

theorem Within.liftBind {r : Reader α} {l : Accesses} {f : α → Parser β} {k : α → Accesses}
    (hr : Within lineStr r l) (hf : ∀ a, Within lineStr (f a).run (k a)) :
    Within lineStr (liftM r >>= f : Parser β).run (l.andThen r k) := by
  have hrun : (liftM r >>= f : Parser β).run = r >>= fun a => (f a).run := rfl
  rw [hrun]
  exact hr.bind hf

theorem mem_andThenParse {p : Parser α} {l : Accesses} {k : α → Accesses} {c : ParseCursor}
    {x : Access} :
    x ∈ l.andThenParse p k c ↔
      x ∈ l c ∨ ∃ a, (p.run.run c).1 = some a ∧ x ∈ k a (p.run.run c).2 := by
  have hmem : x ∈ l.andThenParse p k c ↔
      x ∈ l c ∨ x ∈ (p.run.run c).1.elim (fun _ => []) k (p.run.run c).2 := by
    rw [Accesses.andThenParse, Accesses.andThen, List.mem_append]
    cases (p.run.run c).1 <;> rfl
  rw [hmem]
  cases (p.run.run c).1 with
  | none => simp
  | some a => simp

theorem skip16_run (c : ParseCursor) :
    skip16.run.run c = if cursorOk c 16 then (some ⟨⟩, c.advance 16) else (none, c) := by
  change (if !cursorOk c 16 then (failure : Parser PUnit) else set (c.advance 16)).run.run c = _
  cases cursorOk c 16 with
  | true => rfl
  | false => rfl

theorem readFormString_run (c : ParseCursor) :
    (readFormString mem lineStr form).run.run c =
      if form = dwFormLineStrp then
        if cursorOk c 1 then
          (some (snprintf maxFile (lookupLineStr mem lineStr ((readUleb128 mem).run c).1)),
            ((readUleb128 mem).run c).2)
        else (none, c)
      else if form = dwFormString then
        (some (snprintf maxFile ((readCstr mem).run c).1), ((readCstr mem).run c).2)
      else (none, c) := by
  rw [readFormString]
  split
  · change (if !cursorOk c 1 then (failure : Parser CStr) else _).run.run c = _
    cases cursorOk c 1 with
    | true => rfl
    | false => rfl
  · split
    · rfl
    · rfl

theorem readFormString_within :
    Within lineStr (readFormString mem lineStr form).run
      (readFormStringAccesses mem lineStr form) := by
  refine ⟨fun c hc => ?_, fun c hc a ha => ?_⟩
  · rw [readFormString_run]
    split
    · split
      · exact readUleb128_forward c hc
      · exact ⟨rfl, UInt64.le_refl _, hc⟩
    · split
      · exact readCstr_forward c hc
      · exact ⟨rfl, UInt64.le_refl _, hc⟩
  · rw [readFormStringAccesses] at ha
    split at ha
    · split at ha
      · exact absurd ha List.not_mem_nil
      · rcases List.mem_append.mp ha with ha | ha
        · exact readUleb128_within.2 c hc a ha
        · cases lineStr with
          | none => exact absurd ha List.not_mem_nil
          | some r =>
            obtain ⟨start, size⟩ := r
            change a ∈ (if ((readUleb128 mem).run c).1 ≥ size then [] else
              [.copyLineStr (start + ((readUleb128 mem).run c).1)]) at ha
            split at ha
            · exact absurd ha List.not_mem_nil
            · obtain rfl := List.mem_singleton.mp ha
              exact ⟨start, size, _, rfl, UInt64.not_le.mp ‹_›, rfl⟩
    · split at ha
      · rcases List.mem_append.mp ha with ha | ha
        · exact readCstr_within.2 c hc a ha
        · obtain rfl := List.mem_singleton.mp ha
          exact ⟨UInt64.le_refl _, hc⟩
      · exact absurd ha List.not_mem_nil

theorem skip16_within : Within lineStr skip16.run fun _ => [] := by
  refine ⟨fun c hc => ?_, fun _ _ _ ha => absurd ha List.not_mem_nil⟩
  rw [skip16_run]
  split
  case isTrue hok => exact ⟨rfl, advance_of_cursorOk hc hok⟩
  case isFalse => exact ⟨rfl, UInt64.le_refl _, hc⟩

theorem failure_within : Within lineStr (failure : Parser α).run fun _ => [] := .pure none

/-- A reading function whose result is not used. -/
theorem Within.ignore {r : Reader α} {l : Accesses} (h : Within lineStr r l) :
    Within lineStr (do let _ ← (r : Reader α) : Parser PUnit).run l :=
  ⟨h.1.bind fun _ => .pure _, h.2⟩

theorem Within.thenReturn {r : Reader PUnit} {l : Accesses} (h : Within lineStr r l) (a : α) :
    Within lineStr (do (r : Reader PUnit); return a : Parser α).run l :=
  ⟨h.1.bind fun _ => .pure _, h.2⟩

theorem skipFormValue_within :
    Within lineStr (skipFormValue mem form).run (skipFormValueAccesses mem form) := by
  rw [skipFormValue, skipFormValueAccesses]
  split
  · exact readUleb128_within.ignore
  split
  case isTrue h =>
    -- no bytes of an MD5 are read
    have hne : ¬ form = dwFormString := by rintro rfl; exact absurd h (by decide)
    rw [if_neg hne]
    exact skip16_within
  split
  · exact readCstr_within.ignore
  · exact failure_within

theorem readDirEntry_within : ∀ (descs : List FormatDesc) (path : CStr),
    Within lineStr (readDirEntry mem lineStr descs path).run
      (readDirEntryAccesses mem lineStr descs)
  | [], path => .pure (some path)
  | desc :: descs, path => by
    rw [readDirEntry, readDirEntryAccesses]
    split
    · exact readFormString_within.parseBind fun path => readDirEntry_within descs path
    · exact skipFormValue_within.parseBind fun _ => readDirEntry_within descs path

theorem readFileEntry_within : ∀ (descs : List FormatDesc) (file : CStr × UInt64),
    Within lineStr (readFileEntry mem lineStr descs file).run
      (readFileEntryAccesses mem lineStr descs)
  | [], file => .pure (some file)
  | desc :: descs, (name, dirIndex) => by
    rw [readFileEntry, readFileEntryAccesses]
    split
    · exact readFormString_within.parseBind fun name => readFileEntry_within descs _
    split
    · exact readUleb128_within.liftBind fun dirIndex => readFileEntry_within descs _
    split
    · exact skip16_within.parseBind fun _ => readFileEntry_within descs _
    · exact skipFormValue_within.parseBind fun _ => readFileEntry_within descs _

/-- A result is put together behind a parsing function. -/
theorem Within.parseMap {p : Parser α} {l : Accesses} (h : Within lineStr p.run l) (f : α → β) :
    Within lineStr (do return f (← p) : Parser β).run l := by
  have hforward : Forward (p >>= fun a => Pure.pure (f a) : Parser β).run :=
    (h.parseBind (k := fun _ _ => []) fun a => .pure (some (f a))).1
  exact ⟨hforward, h.2⟩

theorem readEntries_within {entry : Parser α} {l : Accesses} (h : Within lineStr entry.run l) :
    ∀ n : ℕ, Within lineStr (readEntries entry n).run (readEntriesAccesses entry l n)
  | 0 => .pure (some [])
  | n + 1 => h.parseBind fun e => (readEntries_within h n).parseMap (e :: ·)

theorem parseV5Directories_within :
    Within lineStr (parseV5Directories mem lineStr).run
      (parseV5DirectoriesAccesses mem lineStr) := by
  refine readFormatDescriptors_within.liftBind fun descs => ?_
  split
  · exact .pure (some [])
  · refine readUleb128_within.liftBind fun count => ?_
    refine (readEntries_within (readDirEntry_within descs []) count.toNat).parseBind fun dirs => ?_
    exact skipPaddingZeros_within.thenReturn dirs

theorem parseV5FileNames_within :
    Within lineStr (parseV5FileNames mem lineStr).run (parseV5FileNamesAccesses mem lineStr) := by
  refine readFormatDescriptors_within.liftBind fun descs => ?_
  split
  · exact .pure (some [])
  · exact readUleb128_within.liftBind fun count =>
      readEntries_within (readFileEntry_within descs ([], 0)) count.toNat

/-- A round that is taken before the end of the cursor: it also looks at the first byte of a name
and copies the name. -/
theorem Within.nameRound {r : Reader α} {l l' : Accesses} (hr : Within lineStr r l) (a : α)
    (hl : ∀ (c : ParseCursor) (x : Access),
      x ∈ l' c → x = .byte c.data ∨ x = .copy c.data ∨ x ∈ l c) :
    Within lineStr (do
        let cursor ← get
        if cursor.data ≥ cursor.end_ then return a
        r)
      fun c => if c.data ≥ c.end_ then [] else l' c := by
  refine ⟨fun c hc => ?_, fun c hc x hx => ?_⟩
  · change ((if c.data ≥ c.end_ then (Pure.pure a : Reader α) else r).run c).2.end_ = _ ∧
      _ ≤ ((if c.data ≥ c.end_ then (Pure.pure a : Reader α) else r).run c).2.data ∧
      ((if c.data ≥ c.end_ then (Pure.pure a : Reader α) else r).run c).2.data ≤ _
    split
    · exact ⟨rfl, UInt64.le_refl _, hc⟩
    · exact hr.1 c hc
  · dsimp only at hx
    split at hx
    case isTrue => exact absurd hx List.not_mem_nil
    case isFalse hlt =>
      rcases hl c x hx with rfl | rfl | hx
      · exact ⟨UInt64.le_refl _, UInt64.not_le.mp hlt⟩
      · exact ⟨UInt64.le_refl _, hc⟩
      · exact hr.2 c hc x hx

theorem parseDirectoriesV4_within : ∀ n : ℕ,
    Within lineStr (parseDirectoriesV4 mem n) (parseDirectoriesV4Accesses mem n)
  | 0 => .pure []
  | n + 1 => by
    have hdirs := parseDirectoriesV4_within n
    have hround : Within lineStr (do
        let dir ← readCstr mem
        if dir = [] then return []
        return dir :: (← parseDirectoriesV4 mem n))
        ((readCstrAccesses mem).andThen (readCstr mem) fun dir =>
          if dir = [] then fun _ => [] else parseDirectoriesV4Accesses mem n) := by
      refine readCstr_within.bind fun dir => ?_
      split
      · exact .pure []
      · exact ⟨hdirs.1.bind fun _ => .pure _, hdirs.2⟩
    refine hround.nameRound [] fun c x hx => ?_
    rcases List.mem_append.mp hx with hx | hx
    · exact .inr (.inr (List.mem_append_left _ hx))
    rcases List.mem_cons.mp hx with rfl | hx
    · exact .inl rfl
    refine .inr ?_
    split at hx
    case isTrue => exact absurd hx List.not_mem_nil
    case isFalse hdir =>
      refine (List.mem_cons.mp hx).imp_right fun hx => List.mem_append_right _ ?_
      dsimp only
      rwa [if_neg hdir]

/-- A round of `parse_file_names_v4` behind its check. -/
def fileNameRound (mem : Mem) (rest : Parser FileTable) : Parser FileTable := do
  let name ← (readCstr mem : Reader CStr)
  if name = [] then return []
  let dirIndex ← (readUleb128 mem : Reader UInt64)
  skip16
  return (name, dirIndex) :: (← rest)

theorem parseFileNamesV4_succ (n : ℕ) :
    (parseFileNamesV4 mem (n + 1)).run = (do
      let cursor ← get
      if cursor.data ≥ cursor.end_ then return some []
      (fileNameRound mem (parseFileNamesV4 mem n)).run : Reader (Option FileTable)) := by
  funext c
  change (if c.data ≥ c.end_ then (pure [] : Parser FileTable)
      else fileNameRound mem (parseFileNamesV4 mem n)).run.run c =
    (if c.data ≥ c.end_ then (pure (some []) : Reader (Option FileTable))
      else (fileNameRound mem (parseFileNamesV4 mem n)).run).run c
  split <;> rfl

theorem parseFileNamesV4_within : ∀ n : ℕ,
    Within lineStr (parseFileNamesV4 mem n).run (parseFileNamesV4Accesses mem n)
  | 0 => .pure (some [])
  | n + 1 => by
    have hfiles := parseFileNamesV4_within n
    have hround : Within lineStr (fileNameRound mem (parseFileNamesV4 mem n)).run
        ((readCstrAccesses mem).andThen (readCstr mem) fun name =>
          if name = [] then fun _ => []
          else (lebAccesses mem).andThen (readUleb128 mem) fun _ =>
            Accesses.andThenParse (fun _ => []) skip16 fun _ =>
              parseFileNamesV4Accesses mem n) := by
      refine readCstr_within.liftBind fun name => ?_
      split
      · exact .pure (some [])
      · exact readUleb128_within.liftBind fun dirIndex => skip16_within.parseBind fun _ =>
          hfiles.parseMap ((name, dirIndex) :: ·)
    rw [parseFileNamesV4_succ]
    refine hround.nameRound (some []) fun c x hx => ?_
    rcases List.mem_append.mp hx with hx | hx
    · exact .inr (.inr (List.mem_append_left _ hx))
    rcases List.mem_cons.mp hx with rfl | hx
    · exact .inl rfl
    refine .inr ?_
    split at hx
    case isTrue => exact absurd hx List.not_mem_nil
    case isFalse hname =>
      have hmem : x = .copy c.data ∨ x ∈ (lebAccesses mem).andThen (readUleb128 mem)
          (fun _ => Accesses.andThenParse (fun _ => []) skip16 fun _ =>
            parseFileNamesV4Accesses mem n) ((readCstr mem).run c).2 := by
        rcases List.mem_append.mp hx with hx | hx
        · exact .inr (List.mem_append_left _ hx)
        · -- the name is copied when the 16 bytes are there
          rcases mem_andThenParse.mp hx with hx | ⟨u, h16, hx⟩
          · exact absurd hx List.not_mem_nil
          · refine (List.mem_cons.mp hx).imp_right fun hx => List.mem_append_right _ ?_
            exact mem_andThenParse.mpr (.inr ⟨u, h16, hx⟩)
      refine hmem.imp_right fun hx => List.mem_append_right _ ?_
      dsimp only
      rwa [if_neg hname]

end Tables

/-! ### The header of a unit -/

section Headers

variable {α β : Type} {mem : Mem} {lineStr : LineStr} {version : UInt16} {c : ParseCursor}

/-- A function that looks at its cursor first. -/
theorem Within.withCursor {f : ParseCursor → Parser α} {l : ParseCursor → Accesses}
    (h : ∀ c, Within lineStr (f c).run (l c)) :
    Within lineStr (liftM (get : Reader ParseCursor) >>= f : Parser α).run fun c => l c c :=
  ⟨fun c hc => (h c).1 c hc, fun c hc => (h c).2 c hc⟩

theorem parsePrologue_within (addressSize : UInt8) :
    Within lineStr (parsePrologue mem lineStr version addressSize).run
      (prologueAccesses mem lineStr version) := by
  have hmaxOps : Within lineStr (if version = 5 then readU8 mem else return 1)
      (fun c => if version = 5 then wordAccesses 1 c else []) := by
    by_cases h5 : version = 5
    · simp only [if_pos h5]
      exact readU8_within
    · simp only [if_neg h5]
      exact .pure 1
  refine readU8_within.liftBind fun minInstLength => hmaxOps.liftBind fun _ => ?_
  refine readU8_within.liftBind fun _ => readU8_within.liftBind fun lineBase => ?_
  refine readU8_within.liftBind fun lineRange => readU8_within.liftBind fun opcodeBase => ?_
  refine (readStdLengths_within _).liftBind fun stdLengths => ?_
  by_cases h5 : version = 5
  · have htables : tablesAccesses mem lineStr version =
        (parseV5DirectoriesAccesses mem lineStr).andThenParse (parseV5Directories mem lineStr)
          fun _ => parseV5FileNamesAccesses mem lineStr := by
      funext c
      exact if_pos h5
    rw [if_pos h5, htables]
    exact parseV5Directories_within.parseBind fun dirs => parseV5FileNames_within.parseMap _
  · have htables : tablesAccesses mem lineStr version = fun c =>
        (parseDirectoriesV4Accesses mem (c.end_.toNat - c.data.toNat)).andThen
          (parseDirectoriesV4 mem (c.end_.toNat - c.data.toNat))
          (fun _ c' => parseFileNamesV4Accesses mem (c'.end_.toNat - c'.data.toNat) c') c := by
      funext c
      exact if_neg h5
    rw [if_neg h5, htables]
    exact .withCursor fun c => (parseDirectoriesV4_within _).liftBind fun dirs =>
      .withCursor fun c => (parseFileNamesV4_within _).parseMap _

/-- What a unit makes `parse_line_table` do stays inside the cursor. -/
def UnitStart.In (c : ParseCursor) : UnitStart → Prop
  | .fail => True
  | .skip unitEnd => c.data ≤ unitEnd ∧ unitEnd ≤ c.end_
  | .program _ unit => c.data ≤ unit.data ∧ c.data ≤ unit.end_ ∧ unit.end_ ≤ c.end_

/-- A length of 32 bits that is added to an address does not wrap. -/
theorem toNat_add_word {p : Addr} (n : UInt32) (h : p.toNat + 2 ^ 33 ≤ 2 ^ 64) :
    (p + n.toUInt64).toNat = p.toNat + n.toNat := by
  have hn := n.toNat_lt
  rw [UInt64.toNat_add, UInt32.toNat_toUInt64, Nat.mod_eq_of_lt (by omega)]

/-- The cursor up to an address that is a length further on. -/
theorem in_of_length {unitEnd : Addr} (n : UInt32) (hc : c.data ≤ c.end_)
    (h : c.end_.toNat + 2 ^ 33 ≤ 2 ^ 64) (hunit : unitEnd = c.data + n.toUInt64)
    (hend : ¬ unitEnd > c.end_) : ParseCursor.In ⟨c.data, unitEnd⟩ c := by
  have hle := UInt64.le_iff_toNat_le.mp hc
  refine ⟨UInt64.le_refl _, UInt64.le_iff_toNat_le.mpr ?_, UInt64.not_lt.mp hend⟩
  rw [hunit, toNat_add_word n (by omega)]
  exact Nat.le_add_right _ _

/-- A version that is read lies at the cursor. -/
theorem readU16_lt (hc : c.data ≤ c.end_) (h : ((readU16 mem).run c).1 ≠ 0) :
    c.data < ((readU16 mem).run c).2.data := by
  by_cases hok : cursorOk c 2 = true
  · have hread : ((readU16 mem).run c).2 = c.advance 2 := by
      change (if cursorOk c 2 then _ else _ : UInt16 × ParseCursor).2 = _
      rw [if_pos hok]
    have hend := c.end_.toNat_lt
    have hle := UInt64.le_iff_toNat_le.mp hc
    have hrem : 2 ≤ (c.end_ - c.data).toNat := of_decide_eq_true hok
    rw [toNat_remaining hc] at hrem
    have h2 : (2 : UInt64).toNat = 2 := rfl
    rw [hread, UInt64.lt_iff_toNat_lt, toNat_advance (by omega)]
    omega
  · refine absurd ?_ h
    change (if cursorOk c 2 then _ else _ : UInt16 × ParseCursor).1 = _
    rw [if_neg hok]

theorem readU8_of_version5 (a : UInt8) (hc : c.data ≤ c.end_) :
    (if version = 5 then (readU8 mem).run c else (a, c)).2.In c := by
  split
  · exact readU8_forward.in hc
  · exact .refl hc

theorem le_sub_one {a b : Addr} (h : a < b) : a ≤ b - 1 := by
  have h1 : (1 : UInt64).toNat = 1 := rfl
  have hlt := UInt64.lt_iff_toNat_lt.mp h
  have hle : (1 : UInt64) ≤ b := UInt64.le_iff_toNat_le.mpr (by omega)
  rw [UInt64.le_iff_toNat_le, UInt64.toNat_sub_of_le _ _ hle]
  omega

/-- The header behind its length is read inside the cursor, and what is left of it and its last
byte are there. -/
theorem parsePrologue_in {unit : ParseCursor} (prologueLength : UInt32) (addressSize : UInt8)
    (hroom : c.end_.toNat + 2 ^ 33 ≤ 2 ^ 64) (hunit : unit.In c) (hlt : c.data < unit.data)
    (hfits : ¬ unit.data + prologueLength.toUInt64 > unit.end_) :
    (∀ a ∈ prologueAccesses mem lineStr version
        { data := unit.data, end_ := unit.data + prologueLength.toUInt64 }, a.InCursor lineStr c) ∧
      ((parsePrologue mem lineStr version addressSize).run.run
        { data := unit.data, end_ := unit.data + prologueLength.toUInt64 }).2.In c ∧
      c.data ≤ unit.data + prologueLength.toUInt64 - 1 := by
  have hend := UInt64.le_iff_toNat_le.mp hunit.2.2
  have hin := in_of_length prologueLength hunit.2.1 (by omega) rfl hfits
  obtain ⟨hforward, hreads⟩ := @parsePrologue_within mem lineStr version addressSize
  exact ⟨fun a ha => (hreads _ hin.2.1 a ha).mono (hin.trans hunit),
    (hforward.in hin.2.1).trans (hin.trans hunit),
    le_sub_one (UInt64.lt_of_lt_of_le hlt hin.2.1)⟩

/-- The header of a unit is read inside the cursor, and what it makes the parser do stays
there. -/
theorem readUnit_within (hroom : c.end_.toNat + 2 ^ 33 ≤ 2 ^ 64) (hc : c.data ≤ c.end_) :
    (∀ a ∈ unitAccesses mem lineStr c, a.InCursor lineStr c) ∧
      (readUnit mem lineStr c).In c := by
  have hin₁ := (@readU32_forward mem).in hc
  have hlength : ∀ a ∈ wordAccesses 4 c, a.InCursor lineStr c := wordAccesses_in (by decide) hc
  rw [unitAccesses, readUnit]
  generalize (readU32 mem).run c = r at hin₁ ⊢
  obtain ⟨unitLength, c₁⟩ := r
  dsimp only at hin₁ ⊢
  by_cases hbad : unitLength = 0xffffffff
  · rw [if_pos hbad, if_pos hbad, List.append_nil]
    exact ⟨hlength, trivial⟩
  rw [if_neg hbad, if_neg hbad]
  by_cases hfits : c₁.data + unitLength.toUInt64 > c₁.end_
  · rw [if_pos hfits, if_pos hfits, List.append_nil]
    exact ⟨hlength, trivial⟩
  rw [if_neg hfits, if_neg hfits]
  have hroom₁ := UInt64.le_iff_toNat_le.mp hin₁.2.2
  have hunit := (in_of_length unitLength hin₁.2.1 (by omega) rfl hfits).trans hin₁
  generalize c₁.data + unitLength.toUInt64 = unitEnd at hunit ⊢
  have hin₂ := (@readU16_forward mem).in hunit.2.1
  have hlt := @readU16_lt mem _ hunit.2.1
  have hversion : ∀ a ∈ wordAccesses 2 ⟨c₁.data, unitEnd⟩, a.InCursor lineStr c := fun a ha =>
    (wordAccesses_in (by decide) hunit.2.1 a ha).mono hunit
  generalize (readU16 mem).run ⟨c₁.data, unitEnd⟩ = r at hin₂ hlt ⊢
  obtain ⟨version, unit₁⟩ := r
  dsimp only at hin₂ hlt ⊢
  by_cases hold : version ≠ 5 ∧ version ≠ 4
  · rw [if_pos hold, if_pos hold, List.append_nil]
    exact ⟨List.forall_mem_append.mpr ⟨hlength, hversion⟩,
      UInt64.le_trans hunit.1 hunit.2.1, hunit.2.2⟩
  rw [if_neg hold, if_neg hold]
  have hin₂ := hin₂.trans hunit
  have hfirst : c.data < unit₁.data := by
    refine UInt64.lt_of_le_of_lt hunit.1 (hlt ?_)
    rintro rfl
    exact hold ⟨by decide, by decide⟩
  have hin₃ := @readU8_of_version5 mem version _ 8 hin₂.2.1
  generalize (if version = 5 then (readU8 mem).run unit₁ else (8, unit₁)) = r at hin₃ ⊢
  obtain ⟨addressSize, unit₂⟩ := r
  dsimp only at hin₃ ⊢
  have hin₄ := (@readU8_of_version5 mem version _ 0 hin₃.2.1).trans hin₃
  have hsizes : ∀ a ∈ (if version = 5 then wordAccesses 1 unit₁ ++ wordAccesses 1 unit₂ else []),
      a.InCursor lineStr c := by
    intro a ha
    split at ha
    · rcases List.mem_append.mp ha with ha | ha
      · exact (wordAccesses_in (by decide) hin₂.2.1 a ha).mono hin₂
      · exact (wordAccesses_in (by decide) hin₃.2.1 a ha).mono (hin₃.trans hin₂)
    · exact absurd ha List.not_mem_nil
  generalize (if version = 5 then (readU8 mem).run unit₂ else (0, unit₂)) = r at hin₄ ⊢
  obtain ⟨segmentSize, unit₃⟩ := r
  dsimp only at hin₄ ⊢
  have hin₅ := ((@readU32_forward mem).in hin₄.2.1).trans hin₄
  have hprologueLength : ∀ a ∈ wordAccesses 4 unit₃, a.InCursor lineStr c := fun a ha =>
    (wordAccesses_in (by decide) hin₄.2.1 a ha).mono (hin₄.trans hin₂)
  generalize (readU32 mem).run unit₃ = r at hin₅ ⊢
  obtain ⟨prologueLength, unit₄⟩ := r
  dsimp only at hin₅ ⊢
  have hfields : ∀ l : List Access, (∀ a ∈ l, a.InCursor lineStr c) →
      ∀ a ∈ wordAccesses 4 c ++ (wordAccesses 2 ⟨c₁.data, unitEnd⟩ ++
        ((if version = 5 then wordAccesses 1 unit₁ ++ wordAccesses 1 unit₂ else []) ++
          wordAccesses 4 unit₃ ++ l)), a.InCursor lineStr c := fun l hl =>
    List.forall_mem_append.mpr ⟨hlength, List.forall_mem_append.mpr ⟨hversion,
      List.forall_mem_append.mpr ⟨List.forall_mem_append.mpr ⟨hsizes, hprologueLength⟩, hl⟩⟩⟩
  by_cases hlong : unit₄.data + prologueLength.toUInt64 > unit₄.end_
  · rw [if_pos hlong, if_pos hlong]
    exact ⟨hfields [] fun a ha => absurd ha List.not_mem_nil, trivial⟩
  rw [if_neg hlong, if_neg hlong]
  obtain ⟨hreads, hafter, hlast⟩ := @parsePrologue_in mem lineStr version c unit₄ prologueLength
    addressSize hroom (hin₅.trans hin₂) (UInt64.lt_of_lt_of_le hfirst hin₅.1) hlong
  have hreads := hfields _ hreads
  rw [StateT.run] at hafter
  generalize (parsePrologue mem lineStr version addressSize).run
    ⟨unit₄.data, unit₄.data + prologueLength.toUInt64⟩ = r at hafter ⊢
  obtain ⟨_ | hdr, prologue⟩ := r
  · exact ⟨hreads, trivial⟩
  · obtain ⟨hlo, hhi, hend⟩ := hin₅.trans hin₂
    refine ⟨hreads, ?_, UInt64.le_trans hlo hhi, hend⟩
    dsimp only
    split
    · exact hlast
    · exact hafter.1

end Headers

end Debugger
