/-
Bytes that lie at an offset of a file.

`Placed data size p bs` says that the bytes `bs` lie from `p` on and below `size`.  A record is
placed where its fields are, one behind the other (`placed_append`), and a table where each of its
records is (`Placed.record`).  What is placed can be read: `Yields` says that a reading has a value
and stays below the size, with one rule for each way a reading is put together.  Numbers
(`Placed.word`), C strings (`Placed.cstr`) and names in fields of a fixed width
(`Placed.strncmpEq`) are read as what was placed.

A counted loop over a table does to its state what a fold over the table's entries does
(`yields_forLoop`).
-/
import Debugger.Lib.Reading

namespace Prog

/-! ### Numbers as bytes -/

/-- The `n` bytes of a number, the least significant one first. -/
def leBytes : ℕ → ℕ → List UInt8
  | 0, _ => []
  | n + 1, v => UInt8.ofNat v :: leBytes n (v / 256)

@[simp] theorem length_leBytes : ∀ (n v : ℕ), (leBytes n v).length = n := by
  intro n
  induction n with
  | zero => exact fun _ => rfl
  | succ n ih => exact fun v => congrArg (· + 1) (ih (v / 256))

theorem leNat_leBytes : ∀ {n v : ℕ}, v < 256 ^ n → leNat (leBytes n v) = v := by
  intro n
  induction n with
  | zero =>
    intro v hv
    rw [leBytes, leNat]
    omega
  | succ n ih =>
    intro v hv
    rw [Nat.pow_succ] at hv
    have hbyte : (UInt8.ofNat v).toNat = v % 256 := UInt8.toNat_ofNat'
    rw [leBytes, leNat, ih (by omega), hbyte]
    omega

namespace Reading

/-! ### Readings with a known value -/

/-- The reading has the value and stays below the size. -/
structure Yields {α : Type} (r : Reading α) (size : ℕ) (a : α) : Prop where
  value : r.value = a
  inside : r.Inside size

section Yields

variable {α β : Type} {size : ℕ} {r r' : Reading α} {a : α}

theorem yields_pure (a : α) : (pure a : Reading α).Yields size a := ⟨rfl, inside_pure a⟩

theorem Yields.bind {f : α → Reading β} {b : β} (hr : r.Yields size a)
    (hf : (f a).Yields size b) : (r >>= f).Yields size b := by
  obtain ⟨rfl, hin⟩ := hr
  exact ⟨hf.value, (inside_bind r f).mpr ⟨hin, hf.inside⟩⟩

theorem Yields.ite {c : Prop} [Decidable c] (h : c → r.Yields size a)
    (h' : ¬c → r'.Yields size a) : (if c then r else r').Yields size a := by
  split
  case isTrue hc => exact h hc
  case isFalse hc => exact h' hc

/-- The value of a reading with known value and bounds is that value. -/
theorem Yields.congr {b : α} (h : r.Yields size a) (hab : a = b) : r.Yields size b := hab ▸ h

end Yields

/-! ### Placed bytes -/

/-- The bytes lie at the offset, below the size. -/
def Placed (data : ℕ → UInt8) (size : ℕ) : ℕ → List UInt8 → Prop
  | _, [] => True
  | p, b :: bs => (p < size ∧ data p = b) ∧ Placed data size (p + 1) bs

section Placed

variable {α : Type} {data : ℕ → UInt8} {size p n k v : ℕ} {bs cs s t : List UInt8}

theorem placed_cons {b : UInt8} : Placed data size p (b :: bs) ↔
    (p < size ∧ data p = b) ∧ Placed data size (p + 1) bs := Iff.rfl

theorem placed_append : ∀ {bs : List UInt8} {p : ℕ}, Placed data size p (bs ++ cs) ↔
    Placed data size p bs ∧ Placed data size (p + bs.length) cs := by
  intro bs
  induction bs with
  | nil => simp [Placed]
  | cons b bs ih =>
    intro p
    have hlen : p + 1 + bs.length = p + (b :: bs).length := by
      rw [List.length_cons]
      omega
    rw [List.cons_append, placed_cons, placed_cons, ih, hlen, and_assoc (c := Placed _ _ _ cs)]

/-- A list of bytes lies wherever a part of the data is that list. -/
theorem placed_of_getD : ∀ {bs : List UInt8} {p : ℕ}, p + bs.length ≤ size →
    (∀ i < bs.length, data (p + i) = bs.getD i 0) → Placed data size p bs := by
  intro bs
  induction bs with
  | nil => exact fun _ _ => trivial
  | cons b bs ih =>
    intro p hsize h
    rw [List.length_cons] at hsize
    refine ⟨⟨by omega, h 0 (by simp)⟩, ih (by omega) fun i hi => ?_⟩
    have hnext := h (i + 1) (by simpa using hi)
    rwa [List.getD_cons_succ, Nat.add_comm i 1, ← Nat.add_assoc] at hnext

theorem Placed.length_le : ∀ {bs : List UInt8} {p : ℕ}, Placed data size p bs → bs ≠ [] →
    p + bs.length ≤ size := by
  intro bs
  induction bs with
  | nil => exact fun _ hne => absurd rfl hne
  | cons b bs ih =>
    intro p h _
    rw [List.length_cons]
    cases bs with
    | nil => exact h.1.1
    | cons c bs =>
      have hrest := ih h.2 (List.cons_ne_nil c bs)
      omega

theorem Placed.number : ∀ {bs : List UInt8} {p : ℕ}, Placed data size p bs →
    number data p bs.length = leNat bs := by
  intro bs
  induction bs with
  | nil => exact fun _ => rfl
  | cons b bs ih =>
    intro p h
    obtain ⟨⟨-, hb⟩, hbs⟩ := h
    have hrest : (List.range bs.length).map (fun i => data (p + (i + 1))) =
        (List.range bs.length).map fun i => data (p + 1 + i) :=
      List.map_congr_left fun i _ => by rw [Nat.add_assoc, Nat.add_comm 1 i]
    rw [Reading.number, List.length_cons, List.range_succ_eq_map, List.map_cons, List.map_map,
      leNat, leNat, Function.comp_def, Nat.add_zero, hb]
    simp only [Nat.succ_eq_add_one]
    rw [hrest]
    exact congrArg (b.toNat + 256 * ·) (ih hbs)

/-- A field of `n` bytes is read as its number. -/
theorem Placed.word (h : Placed data size p (leBytes n v)) (hn : 0 < n) (hv : v < 256 ^ n) :
    (Reading.word data p n).Yields size v := by
  have hnumber := h.number
  rw [length_leBytes, leNat_leBytes hv] at hnumber
  refine ⟨hnumber, (inside_word_iff hn).mpr ?_⟩
  have hle := h.length_le (List.ne_nil_of_length_pos (by rw [length_leBytes]; exact hn))
  rwa [length_leBytes] at hle

theorem Placed.byte {b : UInt8} (h : Placed data size p (b :: bs)) :
    (Reading.byte data p).Yields size b := ⟨h.1.2, (inside_byte p).mpr h.1.1⟩

/-- A record of a table whose records have one size. -/
theorem Placed.record {encode : α → List UInt8} {width : ℕ} {a : α} :
    ∀ {as : List α} {p i : ℕ}, (∀ b ∈ as, (encode b).length = width) →
      Placed data size p (as.flatMap encode) → as[i]? = some a →
        Placed data size (p + width * i) (encode a) := by
  intro as
  induction as with
  | nil => exact fun _ _ hi => absurd hi (by simp)
  | cons b as ih =>
    intro p i hwidth h hi
    rw [List.flatMap_cons, placed_append, hwidth b List.mem_cons_self] at h
    cases i with
    | zero =>
      rw [List.getElem?_cons_zero] at hi
      obtain rfl := Option.some.inj hi
      exact h.1
    | succ i =>
      rw [List.getElem?_cons_succ] at hi
      have hrest := ih (fun c hc => hwidth c (List.mem_cons_of_mem _ hc)) h.2 hi
      rwa [Nat.add_assoc, Nat.add_comm width, ← Nat.mul_succ] at hrest

/-- A part of what is placed. -/
theorem Placed.part (h : Placed data size p bs) (hk : k ≤ bs.length) (hcs : cs <+: bs.drop k) :
    Placed data size (p + k) cs := by
  obtain ⟨rest, hrest⟩ := hcs
  rw [← List.take_append_drop k bs, ← hrest, placed_append, placed_append, List.length_take,
    Nat.min_eq_left hk] at h
  exact h.2.1

/-- The size of a table whose records have one size. -/
theorem length_table {encode : α → List UInt8} {width : ℕ} : ∀ {as : List α},
    (∀ b ∈ as, (encode b).length = width) → (as.flatMap encode).length = as.length * width := by
  intro as
  induction as with
  | nil => simp
  | cons b as ih =>
    intro hwidth
    rw [List.flatMap_cons, List.length_append, hwidth b List.mem_cons_self,
      ih fun c hc => hwidth c (List.mem_cons_of_mem _ hc), List.length_cons, Nat.succ_mul,
      Nat.add_comm]

/-- A string with its NUL is read back. -/
theorem Placed.cstr : ∀ {s : List UInt8} {p n : ℕ}, Placed data size p (s ++ [0]) → 0 ∉ s →
    s.length < n → (Reading.cstr data n p).Yields size s := by
  intro s
  induction s with
  | nil =>
    intro p n h _ hn
    obtain ⟨n, rfl⟩ := Nat.exists_eq_succ_of_ne_zero (Nat.pos_iff_ne_zero.mp hn)
    rw [Reading.cstr]
    exact (Placed.byte h).bind (.ite (fun _ => yields_pure []) fun hne => absurd rfl hne)
  | cons b s ih =>
    intro p n h hs hn
    obtain ⟨n, rfl⟩ := Nat.exists_eq_succ_of_ne_zero (Nat.pos_iff_ne_zero.mp (Nat.zero_lt_of_lt hn))
    obtain ⟨hne, hs⟩ := not_or.mp fun hor => hs (List.mem_cons.mpr hor)
    rw [Reading.cstr]
    refine (Placed.byte h).bind (.ite (fun h0 => absurd h0.symm hne) fun _ => ?_)
    exact (ih h.2 hs (Nat.lt_of_succ_lt_succ hn)).bind (yields_pure (b :: s))

/-- A name in a field of `n` bytes. -/
def nameField (n : ℕ) (s : List UInt8) : List UInt8 := s ++ List.replicate (n - s.length) 0

theorem length_nameField (hs : s.length ≤ n) : (nameField n s).length = n := by
  rw [nameField, List.length_append, List.length_replicate, Nat.add_sub_cancel' hs]

/-- A name is compared with a string as far as `k` characters of the name and its padding go. -/
theorem yields_strncmpEq : ∀ {k p m : ℕ} {s t : List UInt8},
    Placed data size p (s ++ List.replicate m 0) → 0 ∉ s → 0 ∉ t → k ≤ s.length + m →
      (strncmpEq data k p t).Yields size (decide (s.take k = t.take k)) := by
  intro k
  induction k with
  | zero => exact fun _ _ _ _ => (yields_pure true).congr (by simp)
  | succ k ih =>
    intro p m s t h hs ht hk
    rw [strncmpEq]
    cases s with
    | nil =>
      obtain ⟨m, rfl⟩ := Nat.exists_eq_succ_of_ne_zero (n := m) (by simp at hk; omega)
      refine (Placed.byte h).bind ?_
      cases t with
      | nil =>
        refine .ite (fun hne => absurd rfl hne) fun _ => ?_
        exact .ite (fun _ => (yields_pure true).congr (by simp)) fun hne => absurd rfl hne
      | cons c t =>
        have hc : (0 : UInt8) ≠ c := fun hc => ht (hc ▸ List.mem_cons_self)
        exact .ite (fun _ => (yields_pure false).congr (by simp)) fun heq => absurd hc heq
    | cons b s =>
      obtain ⟨hne, hs⟩ := not_or.mp fun hor => hs (List.mem_cons.mpr hor)
      refine (Placed.byte h).bind ?_
      cases t with
      | nil =>
        exact .ite (fun _ => (yields_pure false).congr (by simp)) fun heq =>
          absurd (Ne.symm hne) heq
      | cons c t =>
        refine .ite (fun hbc => (yields_pure false).congr ?_) fun heq =>
          .ite (fun h0 => absurd h0.symm hne) fun _ => ?_
        · exact (decide_eq_false fun htake => hbc (List.cons.inj htake).1).symm
        · obtain rfl : b = c := not_not.mp heq
          have hk : k ≤ s.length + m := by
            rw [List.length_cons] at hk
            omega
          refine (ih h.2 hs (fun hmem => ht (List.mem_cons_of_mem _ hmem)) hk).congr ?_
          rw [List.take_succ_cons, List.take_succ_cons]
          exact decide_eq_decide.mpr (List.cons_inj_right b).symm

theorem Placed.strncmpEq (h : Placed data size p (nameField n s)) (hlen : s.length ≤ n)
    (hs : 0 ∉ s) (ht : 0 ∉ t) (hk : k ≤ n) :
    (Reading.strncmpEq data k p t).Yields size (decide (s.take k = t.take k)) :=
  yields_strncmpEq h hs ht (by omega)

end Placed

/-! ### Loops over tables -/

section Loops

variable {α S R T : Type} {size : ℕ}

/-- A fold that an entry may end with a result. -/
def foldUntil (step : T → α → T ⊕ R) : T → List α → T ⊕ R
  | t, [] => .inl t
  | t, a :: as =>
    match step t a with
    | .inl t' => foldUntil step t' as
    | .inr r => .inr r

/-- A fold without a state that ends at the first entry with a result. -/
theorem foldUntil_findSome {f : α → Option R} : ∀ {as : List α},
    foldUntil (fun (_ : Unit) a => (f a).elim (.inl ()) .inr) () as =
      (as.findSome? f).elim (.inl ()) .inr := by
  intro as
  induction as with
  | nil => rfl
  | cons a as ih =>
    rw [foldUntil, List.findSome?_cons]
    cases f a with
    | none => exact ih
    | some r => rfl

/-- A fold that goes on to the end. -/
theorem foldUntil_foldl {g : T → α → T} : ∀ {as : List α} {t : T},
    (foldUntil (fun t a => .inl (g t a)) t as : T ⊕ R) = .inl (as.foldl g t) := by
  intro as
  induction as with
  | nil => exact fun {_} => rfl
  | cons a as ih => exact fun {_} => ih

/-- A loop whose rounds do to the state what `step` does with the entries is a fold. -/
theorem yields_forLoop {body : ℕ → S → Reading (S ⊕ R)} {step : T → α → T ⊕ R}
    {rel : ℕ → S → T → Prop} : ∀ {as : List α} {i : ℕ} {s : S} {t : T},
    (∀ j a u t', as[j]? = some a → rel (i + j) u t' → Sum.elim
      (fun t'' => ∃ u', (body (i + j) u).Yields size (.inl u') ∧ rel (i + j + 1) u' t'')
      (fun r => (body (i + j) u).Yields size (.inr r)) (step t' a)) → rel i s t →
    Sum.elim (fun t' => ∃ s', (forLoop body as.length i s).Yields size (.inl s') ∧
        rel (i + as.length) s' t')
      (fun r => (forLoop body as.length i s).Yields size (.inr r)) (foldUntil step t as) := by
  intro as
  induction as with
  | nil => exact fun _ hrel => ⟨_, yields_pure _, hrel⟩
  | cons a as ih =>
    intro i s t hround hrel
    have hfirst := hround 0 a s t rfl hrel
    rw [List.length_cons, forLoop, foldUntil]
    cases hstep : step t a with
    | inr r =>
      rw [hstep] at hfirst
      have hleft : (body i s).Yields size (.inr r) := hfirst
      exact hleft.bind (yields_pure _)
    | inl t' =>
      rw [hstep] at hfirst
      obtain ⟨s', hs', hrel'⟩ : ∃ s', (body i s).Yields size (.inl s') ∧ rel (i + 1) s' t' := hfirst
      have hlen : i + 1 + as.length = i + (as.length + 1) := by omega
      have hrest := @ih (i + 1) s' t' (fun j b u t'' hj hu => by
        have hshift : i + 1 + j = i + (j + 1) := by omega
        rw [hshift] at hu ⊢
        exact hround (j + 1) b u t'' hj hu) hrel'
      rw [← hlen]
      dsimp only
      cases hfold : foldUntil step t' as with
      | inl t'' =>
        rw [hfold] at hrest
        obtain ⟨s'', hs'', hrel''⟩ := hrest
        exact ⟨s'', hs'.bind hs'', hrel''⟩
      | inr r =>
        rw [hfold] at hrest
        exact hs'.bind hrest

end Loops

end Reading

end Prog
