/-
Computations that read bytes at offsets.

A `Reading` is a value with the offsets of the bytes that were read for it, so that a program
over bytes says by itself where it reads.  It is inside a size when all of them are below it:
that of a sequence is that of its parts (`inside_bind`), that of a loop is that of every round
that is begun (`inside_forLoop_iff`), and a comparison of names reads up to the first byte that
differs (`inside_strncmpEq_iff`).

Where a reading is bounded on both sides and its value matters, `Ensures` says both at once, with
one rule for each way a reading is put together.
-/
import Debugger.Lib.LittleEndian

namespace Prog

/-- A value and the offsets of the bytes read for it. -/
structure Reading (α : Type) where
  value : α
  reads : List ℕ

namespace Reading

variable {α β : Type} {size : ℕ}

instance : Monad Reading where
  pure a := { value := a, reads := [] }
  bind r f := { value := (f r.value).value, reads := r.reads ++ (f r.value).reads }

/-- Only bytes below a size are read. -/
def Inside (r : Reading α) (size : ℕ) : Prop := ∀ p ∈ r.reads, p < size

@[simp] theorem value_pure (a : α) : (pure a : Reading α).value = a := rfl

@[simp] theorem value_bind (r : Reading α) (f : α → Reading β) :
    (r >>= f).value = (f r.value).value := rfl

@[simp] theorem value_ite {p : Prop} [Decidable p] (r r' : Reading α) :
    (if p then r else r').value = if p then r.value else r'.value := by
  split <;> rfl

@[simp] theorem inside_pure (a : α) : (pure a : Reading α).Inside size :=
  fun _ h => absurd h List.not_mem_nil

@[simp] theorem inside_bind (r : Reading α) (f : α → Reading β) :
    (r >>= f).Inside size ↔ r.Inside size ∧ (f r.value).Inside size :=
  List.forall_mem_append

@[simp] theorem inside_ite {p : Prop} [Decidable p] (r r' : Reading α) :
    (if p then r else r').Inside size ↔ (p → r.Inside size) ∧ (¬p → r'.Inside size) := by
  split
  case isTrue h => exact ⟨fun hr => ⟨fun _ => hr, fun hp => absurd h hp⟩, fun hr => hr.1 h⟩
  case isFalse h => exact ⟨fun hr => ⟨fun hp => absurd hp h, fun _ => hr⟩, fun hr => hr.2 h⟩

/-! ### Words and names -/

section Bytes

variable (data : ℕ → UInt8)

/-- The byte at an offset. -/
def byte (p : ℕ) : Reading UInt8 := { value := data p, reads := [p] }

/-- The number of `n` bytes. -/
def number (p n : ℕ) : ℕ := leNat ((List.range n).map fun i => data (p + i))

/-- The number of `n` bytes is read. -/
def word (p n : ℕ) : Reading ℕ := { value := number data p n, reads := (List.range n).map (p + ·) }

/-- `strncmp(p, s, n) == 0` -/
def strncmpEq : ℕ → ℕ → List UInt8 → Reading Bool
  | 0, _, _ => return true
  | n + 1, p, s => do
    let b ← byte data p
    if b ≠ s.headD 0 then return false
    else if b = 0 then return true
    else strncmpEq n (p + 1) s.tail

/-- The bytes of a C string, looking at no more than `n`. -/
def cstr : ℕ → ℕ → Reading (List UInt8)
  | 0, _ => return []
  | n + 1, p => do
    let b ← byte data p
    if b = 0 then return []
    else return b :: (← cstr n (p + 1))

/-- The first `k` bytes at an offset are those of a string, and there is no NUL among them. -/
def Agrees (p : ℕ) (s : List UInt8) (k : ℕ) : Prop :=
  ∀ i < k, data (p + i) = s.getD i 0 ∧ data (p + i) ≠ 0

variable {data}

@[simp] theorem value_byte (p : ℕ) : (byte data p).value = data p := rfl

@[simp] theorem value_word (p n : ℕ) : (word data p n).value = number data p n := rfl

@[simp] theorem inside_byte (p : ℕ) : (byte data p).Inside size ↔ p < size := by
  simp [Inside, byte]

theorem number_lt (p n : ℕ) : number data p n < 256 ^ n := by
  have hlt := leNat_lt ((List.range n).map fun i => data (p + i))
  rwa [List.length_map, List.length_range] at hlt

theorem inside_word_iff {p n : ℕ} (hn : 0 < n) : (word data p n).Inside size ↔ p + n ≤ size := by
  constructor
  · intro h
    have hmem : n - 1 ∈ List.range n := List.mem_range.mpr (Nat.sub_lt hn Nat.one_pos)
    have hlast := h (p + (n - 1)) (List.mem_map_of_mem hmem)
    omega
  · intro h q hq
    obtain ⟨i, hi, rfl⟩ := List.mem_map.mp hq
    have hi := List.mem_range.mp hi
    omega

theorem agrees_succ {p : ℕ} {s : List UInt8} {k : ℕ} :
    Agrees data p s (k + 1) ↔
      (data p = s.headD 0 ∧ data p ≠ 0) ∧ Agrees data (p + 1) s.tail k := by
  have hhead : s.getD 0 0 = s.headD 0 := by cases s <;> rfl
  have htail : ∀ i, s.getD (i + 1) 0 = s.tail.getD i 0 := fun i => by cases s <;> rfl
  constructor
  · intro h
    refine ⟨hhead ▸ h 0 (Nat.succ_pos k), fun i hi => ?_⟩
    have hi := h (i + 1) (Nat.succ_lt_succ hi)
    rwa [htail, Nat.add_comm i 1, ← Nat.add_assoc] at hi
  · rintro ⟨h₀, h⟩ i hi
    cases i with
    | zero => exact hhead ▸ h₀
    | succ i =>
      rw [htail, Nat.add_comm i 1, ← Nat.add_assoc]
      exact h i (Nat.lt_of_succ_lt_succ hi)

/-- A comparison reads the bytes in front of which the name and the string agree. -/
theorem inside_strncmpEq_iff : ∀ {n p : ℕ} {s : List UInt8},
    (strncmpEq data n p s).Inside size ↔ ∀ k < n, Agrees data p s k → p + k < size := by
  intro n
  induction n with
  | zero =>
    exact fun {p s} => iff_of_true (inside_pure true) fun k hk => absurd hk (Nat.not_lt_zero k)
  | succ n ih =>
    intro p s
    rw [strncmpEq, inside_bind, inside_byte, value_byte]
    have hrest : (if data p ≠ s.headD 0 then (pure false : Reading Bool)
        else if data p = 0 then pure true else strncmpEq data n (p + 1) s.tail).Inside size ↔
          (data p = s.headD 0 ∧ data p ≠ 0 → (strncmpEq data n (p + 1) s.tail).Inside size) := by
      split
      case isTrue h => exact iff_of_true (inside_pure false) fun h' => absurd h'.1 h
      case isFalse h =>
        split
        case isTrue h0 => exact iff_of_true (inside_pure true) fun h' => absurd h0 h'.2
        case isFalse h0 => exact ⟨fun hin _ => hin, fun hin => hin ⟨not_not.mp h, h0⟩⟩
    rw [hrest, ih]
    constructor
    · rintro ⟨hp, h⟩ k hk hagrees
      cases k with
      | zero => exact hp
      | succ k =>
        obtain ⟨h₀, hagrees⟩ := agrees_succ.mp hagrees
        have hlt := h h₀ k (Nat.lt_of_succ_lt_succ hk) hagrees
        omega
    · intro h
      refine ⟨h 0 (Nat.succ_pos n) fun i hi => absurd hi (Nat.not_lt_zero i),
        fun h₀ k hk hagrees => ?_⟩
      have hlt := h (k + 1) (Nat.succ_lt_succ hk) (agrees_succ.mpr ⟨h₀, hagrees⟩)
      omega

theorem value_cstr_of_ne {n p : ℕ} (hn : 0 < n) (hp : data p ≠ 0) :
    ∃ rest, (cstr data n p).value = data p :: rest := by
  obtain ⟨m, rfl⟩ := Nat.exists_eq_succ_of_ne_zero (Nat.pos_iff_ne_zero.mp hn)
  rw [cstr, value_bind, value_byte, if_neg hp]
  exact ⟨_, rfl⟩

/-- A C string is read up to its NUL. -/
theorem inside_cstr_iff : ∀ {n p : ℕ}, p ≤ size → size < p + n →
    ((cstr data n p).Inside size ↔ ∃ q, p ≤ q ∧ q < size ∧ data q = 0) := by
  intro n
  induction n with
  | zero => exact fun hp hn => absurd hn (Nat.not_lt.mpr hp)
  | succ n ih =>
    intro p hp hn
    rw [cstr, inside_bind, inside_byte, value_byte]
    by_cases hend : p = size
    · refine iff_of_false (fun h => absurd h.1 (hend ▸ Nat.lt_irrefl p)) ?_
      rintro ⟨q, hle, hlt, -⟩
      omega
    have hlt : p < size := Nat.lt_of_le_of_ne hp hend
    split
    case isTrue h0 => exact iff_of_true ⟨hlt, inside_pure []⟩ ⟨p, Nat.le_refl p, hlt, h0⟩
    case isFalse h0 =>
      rw [inside_bind, ih hlt (by omega)]
      constructor
      · rintro ⟨-, ⟨q, hle, hq⟩, -⟩
        exact ⟨q, Nat.le_of_succ_le hle, hq⟩
      · -- the NUL is not the first byte
        rintro ⟨q, hle, hq, hzero⟩
        have hne : p ≠ q := by
          rintro rfl
          exact h0 hzero
        exact ⟨hlt, ⟨q, Nat.lt_of_le_of_ne hle hne, hq, hzero⟩, inside_pure _⟩

end Bytes

/-! ### Readings of a range -/

section Ensures

/-- Only bytes from `lo` on and below `hi` are read, and the value has a property. -/
structure Ensures (r : Reading α) (lo hi : ℕ) (Q : α → Prop) : Prop where
  reads : ∀ p ∈ r.reads, lo ≤ p ∧ p < hi
  value : Q r.value

/-- The bytes of a range. -/
def slice (data : ℕ → UInt8) (p n : ℕ) : Reading (List UInt8) where
  value := (List.range n).map fun i => data (p + i)
  reads := (List.range n).map (p + ·)

variable {r r' : Reading α} {lo hi : ℕ} {P Q : α → Prop} {data : ℕ → UInt8}

theorem Ensures.mono (h : r.Ensures lo hi P) (hPQ : ∀ a, P a → Q a) : r.Ensures lo hi Q :=
  ⟨h.reads, hPQ _ h.value⟩

theorem Ensures.widen {lo' hi' : ℕ} (h : r.Ensures lo hi Q) (hlo : lo' ≤ lo) (hhi : hi ≤ hi') :
    r.Ensures lo' hi' Q :=
  ⟨fun p hp => ⟨Nat.le_trans hlo (h.reads p hp).1, Nat.lt_of_lt_of_le (h.reads p hp).2 hhi⟩,
    h.value⟩

theorem Ensures.pure {a : α} (h : Q a) : (Pure.pure a : Reading α).Ensures lo hi Q :=
  ⟨fun _ hp => absurd hp List.not_mem_nil, h⟩

theorem Ensures.bind {f : α → Reading β} {R : β → Prop} (hr : r.Ensures lo hi P)
    (hf : ∀ a, P a → (f a).Ensures lo hi R) : (r >>= f).Ensures lo hi R where
  reads p hp := (List.mem_append.mp hp).elim (hr.reads p) ((hf _ hr.value).reads p)
  value := (hf _ hr.value).value

theorem Ensures.ite {c : Prop} [Decidable c] (h : c → r.Ensures lo hi Q)
    (h' : ¬c → r'.Ensures lo hi Q) : (if c then r else r').Ensures lo hi Q := by
  split
  case isTrue hc => exact h hc
  case isFalse hc => exact h' hc

theorem Ensures.byte {p : ℕ} (hlo : lo ≤ p) (hhi : p < hi) :
    (byte data p).Ensures lo hi (· = data p) where
  reads q hq := by
    obtain rfl := List.mem_singleton.mp hq
    exact ⟨hlo, hhi⟩
  value := rfl

theorem Ensures.slice {p n : ℕ} (hlo : lo ≤ p) (hhi : p + n ≤ hi) :
    (slice data p n).Ensures lo hi (· = (List.range n).map fun i => data (p + i)) where
  reads q hq := by
    obtain ⟨i, hi, rfl⟩ := List.mem_map.mp hq
    have hi := List.mem_range.mp hi
    omega
  value := rfl

end Ensures

/-! ### Loops -/

section Loops

variable {S R : Type} (body : ℕ → S → Reading (S ⊕ R))

/-- `n` rounds of a counted loop from the counter `i` on; a round may leave it with a result. -/
def forLoop : ℕ → ℕ → S → Reading (S ⊕ R)
  | 0, _, s => return .inl s
  | n + 1, i, s => do
    match ← body i s with
    | .inl s' => forLoop n (i + 1) s'
    | .inr r => return .inr r

/-- The state after `k` rounds, unless the loop has been left. -/
def stateAt (s : S) : ℕ → Option S
  | 0 => some s
  | k + 1 => (stateAt s k).bind fun s => (body k s).value.getLeft?

variable {body} {s : S}

theorem stateAt_none {i : ℕ} (h : stateAt body s i = none) : ∀ k, stateAt body s (i + k) = none
  | 0 => h
  | k + 1 => by rw [← Nat.add_assoc, stateAt, stateAt_none h k, Option.bind_none]

/-- What each round keeps holds after any number of them. -/
theorem stateAt_inv {P : S → Prop} (hs : P s)
    (hround : ∀ i t u, P t → (body i t).value = .inl u → P u) :
    ∀ {k : ℕ} {t : S}, stateAt body s k = some t → P t
  | 0, t, h => Option.some.inj h ▸ hs
  | k + 1, t, h => by
    obtain ⟨u, hu, hstep⟩ := Option.bind_eq_some_iff.mp h
    exact hround k u t (stateAt_inv hs hround hu) (Sum.getLeft?_eq_some_iff.mp hstep)

/-- The rounds behind the first `i`. -/
theorem inside_forLoop_from : ∀ {n i : ℕ} {t : S}, stateAt body s i = some t →
    ((forLoop body n i t).Inside size ↔
      ∀ k < n, ∀ u, stateAt body s (i + k) = some u → (body (i + k) u).Inside size) := by
  intro n
  induction n with
  | zero => exact fun _ => iff_of_true (inside_pure _) fun k hk => absurd hk (Nat.not_lt_zero k)
  | succ n ih =>
    intro i t ht
    have hnext : stateAt body s (i + 1) = (body i t).value.getLeft? := by rw [stateAt, ht]; rfl
    have hrest : ((match (body i t).value with
        | .inl u => forLoop body n (i + 1) u
        | .inr r => pure (.inr r)) : Reading (S ⊕ R)).Inside size ↔
          ∀ k < n, ∀ u, stateAt body s (i + 1 + k) = some u → (body (i + 1 + k) u).Inside size := by
      cases hb : (body i t).value with
      | inl u => exact ih (hnext.trans (congrArg Sum.getLeft? hb))
      | inr r =>
        have hleft : stateAt body s (i + 1) = none := hnext.trans (congrArg Sum.getLeft? hb)
        exact iff_of_true (inside_pure _)
          fun k _ u hu => nomatch (stateAt_none hleft k).symm.trans hu
    rw [forLoop, inside_bind, hrest]
    constructor
    · rintro ⟨h₀, h⟩ k hk u hu
      cases k with
      | zero => exact Option.some.inj (ht.symm.trans hu) ▸ h₀
      | succ k =>
        rw [Nat.add_comm k 1, ← Nat.add_assoc] at hu ⊢
        exact h k (Nat.lt_of_succ_lt_succ hk) u hu
    · intro h
      refine ⟨h 0 (Nat.succ_pos n) t ht, fun k hk u hu => ?_⟩
      rw [Nat.add_assoc, Nat.add_comm 1 k] at hu ⊢
      exact h (k + 1) (Nat.succ_lt_succ hk) u hu

/-- A loop reads what the rounds that are begun read. -/
theorem inside_forLoop_iff {n : ℕ} : (forLoop body n 0 s).Inside size ↔
    ∀ k < n, ∀ t, stateAt body s k = some t → (body k t).Inside size := by
  have h := @inside_forLoop_from size S R body s n 0 s rfl
  simpa only [Nat.zero_add] using h

theorem value_forLoop_from : ∀ {n i : ℕ} {t : S}, stateAt body s i = some t →
    (∃ u, (forLoop body n i t).value = .inl u ∧ stateAt body s (i + n) = some u) ∨
      ∃ k < i + n, ∃ u r, (forLoop body n i t).value = .inr r ∧ stateAt body s k = some u ∧
        (body k u).value = .inr r := by
  intro n
  induction n with
  | zero => exact fun {i t} ht => .inl ⟨t, rfl, ht⟩
  | succ n ih =>
    intro i t ht
    have hnext : stateAt body s (i + 1) = (body i t).value.getLeft? := by rw [stateAt, ht]; rfl
    rw [forLoop, value_bind]
    cases hb : (body i t).value with
    | inl u =>
      have hrounds : i + (n + 1) = i + 1 + n := by omega
      rw [hrounds]
      exact ih (hnext.trans (congrArg Sum.getLeft? hb))
    | inr r => exact .inr ⟨i, by omega, t, r, rfl, ht, hb⟩

/-- The result of a loop is the state after its rounds, or that of a round that leaves it. -/
theorem value_forLoop (n : ℕ) :
    (∃ u, (forLoop body n 0 s).value = .inl u ∧ stateAt body s n = some u) ∨
      ∃ k < n, ∃ u r, (forLoop body n 0 s).value = .inr r ∧ stateAt body s k = some u ∧
        (body k u).value = .inr r := by
  have h := @value_forLoop_from S R body s n 0 s rfl
  rwa [Nat.zero_add] at h

/-- A loop without a state goes on as long as its rounds do. -/
theorem stateAt_unit_iff {body : ℕ → Unit → Reading (Unit ⊕ R)} : ∀ {k : ℕ},
    stateAt body () k = some () ↔ ∀ i < k, (body i ()).value = .inl ()
  | 0 => iff_of_true rfl fun i hi => absurd hi (Nat.not_lt_zero i)
  | k + 1 => by
    have hround : (body k ()).value.getLeft? = some () ↔ (body k ()).value = .inl () := by
      cases (body k ()).value with
      | inl u => simp
      | inr r => simp
    rw [Nat.forall_lt_succ_right, ← stateAt_unit_iff, ← hround, stateAt]
    cases h : stateAt body () k with
    | none => simp
    | some u => simp

theorem inside_forLoop_unit_iff {body : ℕ → Unit → Reading (Unit ⊕ R)} {n : ℕ} :
    (forLoop body n 0 ()).Inside size ↔
      ∀ k < n, (∀ i < k, (body i ()).value = .inl ()) → (body k ()).Inside size := by
  rw [inside_forLoop_iff]
  exact forall₂_congr fun k _ => ⟨fun h hk => h () (stateAt_unit_iff.mpr hk),
    fun h _ hk => h (stateAt_unit_iff.mp hk)⟩

theorem value_forLoop_unit_iff {body : ℕ → Unit → Reading (Unit ⊕ R)} {n : ℕ} :
    (forLoop body n 0 ()).value = .inl () ↔ ∀ k < n, (body k ()).value = .inl () := by
  rcases @value_forLoop Unit R body () n with ⟨u, hvalue, hstate⟩ | ⟨k, hk, u, r, hvalue, -, hleft⟩
  · exact iff_of_true hvalue (stateAt_unit_iff.mp hstate)
  · exact iff_of_false (fun h => nomatch hvalue.symm.trans h)
      fun h => nomatch hleft.symm.trans (h k hk)

end Loops

end Reading

end Prog
