/-
Weakest preconditions for deterministic state-passing programs.

`wp m Q s` says that running `m : StateM σ α` from `s` ends in a result and a
state satisfying `Q`.  The module has four layers:

* the structural rules (`wp_pure`, `wp_bind`, `wp_get`, `wp_modify`, `wp_ite`),
  tagged `simp`, which execute a `do` block symbolically up to its calls;
* the rules for the control structures of imperative code: traversal with early exit
  (`wp_forUntil`) and a loop with a bounded number of rounds (`wp_loopUpTo`);
* the check of a return code (`wp_check`, for postconditions of the form `onCode`);
* views (`Keeps v m`: no run of `m` changes what `v` shows of the state), closed
  under sequencing, branching and all the loops.
-/
import Mathlib.Data.List.Basic

namespace Prog

variable {σ α β γ : Type}

/-- `m` run from `s` ends in a result and a state satisfying `Q`. -/
def wp (m : StateM σ α) (Q : α → σ → Prop) (s : σ) : Prop :=
  Q (m.run s).1 (m.run s).2

section Structural

variable {Q Q' : α → σ → Prop} {s : σ}

@[simp] theorem wp_pure (a : α) : wp (pure a) Q s ↔ Q a s := Iff.rfl

@[simp] theorem wp_bind (m : StateM σ β) (f : β → StateM σ α) :
    wp (m >>= f) Q s ↔ wp m (fun b s' => wp (f b) Q s') s := Iff.rfl

@[simp] theorem wp_get {Q : σ → σ → Prop} : wp get Q s ↔ Q s s := Iff.rfl

@[simp] theorem wp_set {Q : PUnit → σ → Prop} (t : σ) :
    wp (set t : StateM σ PUnit) Q s ↔ Q ⟨⟩ t := Iff.rfl

@[simp] theorem wp_modify {Q : PUnit → σ → Prop} (f : σ → σ) :
    wp (modify f : StateM σ PUnit) Q s ↔ Q ⟨⟩ (f s) := Iff.rfl

@[simp] theorem wp_ite {c : Prop} [Decidable c] (m m' : StateM σ α) :
    wp (if c then m else m') Q s ↔ (c → wp m Q s) ∧ (¬ c → wp m' Q s) := by
  by_cases h : c <;> simp [h]

theorem wp_mono {m : StateM σ α} (h : wp m Q s) (hQ : ∀ a s', Q a s' → Q' a s') :
    wp m Q' s := hQ _ _ h

theorem wp_congr {m : StateM σ α} (h : ∀ a s', Q a s' ↔ Q' a s') : wp m Q s ↔ wp m Q' s := h _ _

theorem wp_and {m : StateM σ α} (h : wp m Q s) (h' : wp m Q' s) :
    wp m (fun a s' => Q a s' ∧ Q' a s') s := ⟨h, h'⟩

theorem wp_iff (m : StateM σ α) : wp m Q s ↔ Q (m.run s).1 (m.run s).2 := Iff.rfl

/-- A run is known up to its final state once its result is. -/
theorem run_of_code {m : StateM σ α} {a : α} (h : (m.run s).1 = a) :
    m.run s = (a, (m.run s).2) := Prod.ext h rfl

/-- What is left to show once the result of a run is known. -/
theorem wp_of_run {m : StateM σ α} {a : α} {s' : σ} (h : m.run s = (a, s')) :
    wp m Q s ↔ Q a s' := by
  rw [wp, h]

/-- Nothing is known of the run. -/
theorem wp_any {m : StateM σ α} (h : ∀ a s', Q a s') : wp m Q s := h _ _

theorem wp_true (m : StateM σ α) : wp m (fun _ _ => True) s := trivial

end Structural

/-! ### Traversals -/

/-- Run `f` on every element in order. -/
def forEach (f : β → StateM σ PUnit) : List β → StateM σ PUnit
  | [] => pure ⟨⟩
  | b :: bs => do f b; forEach f bs

/-- Run `f` on the elements in order until it returns a non-zero code. -/
def forUntil (f : β → StateM σ Int) : List β → StateM σ Int
  | [] => pure 0
  | b :: bs => do
    let rc ← f b
    if rc ≠ 0 then return rc
    forUntil f bs

/-- Early-exit traversal: `I` tracks the elements still to be visited, `E` holds
when the body has failed. -/
theorem wp_forUntil {f : β → StateM σ Int} {I : List β → σ → Prop} {E : Int → σ → Prop}
    (hf : ∀ b bs s, I (b :: bs) s →
      wp (f b) (fun rc s' => (rc = 0 → I bs s') ∧ (rc ≠ 0 → E rc s')) s) :
    ∀ {bs s}, I bs s →
      wp (forUntil f bs) (fun rc s' => (rc = 0 → I [] s') ∧ (rc ≠ 0 → E rc s')) s := by
  intro bs
  induction bs with
  | nil => intro s hs; exact ⟨fun _ => hs, fun h => absurd rfl h⟩
  | cons b bs ih =>
    intro s hs
    rw [forUntil, wp_bind]
    refine wp_mono (hf b bs s hs) fun rc s' hs' => ?_
    rw [wp_ite]
    refine ⟨fun hrc => ⟨fun h0 => absurd h0 hrc, fun _ => hs'.2 hrc⟩, fun hrc => ?_⟩
    exact ih (hs'.1 (not_not.mp hrc))

/-! ### Bounded loops -/

/-- At most `n` rounds of `body`; a round either goes on with a new loop state
(`.inl`) or leaves the loop with a result (`.inr`). -/
def loopUpTo (body : β → StateM σ (β ⊕ γ)) : ℕ → β → StateM σ (β ⊕ γ)
  | 0, b => pure (.inl b)
  | n + 1, b => do
    match ← body b with
    | .inl b' => loopUpTo body n b'
    | .inr r => return .inr r

/-- The loop rule: `I` holds at the head of every round, `E` when a round leaves. -/
theorem wp_loopUpTo {body : β → StateM σ (β ⊕ γ)} {I : β → σ → Prop} {E : γ → σ → Prop}
    (hbody : ∀ b s, I b s → wp (body b) (fun r s' => Sum.elim I E r s') s) :
    ∀ (n : ℕ) {b s}, I b s → wp (loopUpTo body n b) (fun r s' => Sum.elim I E r s') s := by
  intro n
  induction n with
  | zero => intro b s hs; exact hs
  | succ n ih =>
    intro b s hs
    rw [loopUpTo, wp_bind]
    refine wp_mono (hbody b s hs) fun r s' hr => ?_
    cases r with
    | inl b' => exact ih hr
    | inr r => exact hr

/-- As many rounds as all go on: `I` counts them. -/
theorem wp_loopUpTo_goesOn {body : β → StateM σ (β ⊕ γ)} : ∀ {n : ℕ} {I : ℕ → β → σ → Prop},
    (∀ i < n, ∀ b s, I i b s → wp (body b) (fun r s' => ∃ b', r = .inl b' ∧ I (i + 1) b' s') s) →
    ∀ {b s}, I 0 b s → wp (loopUpTo body n b) (fun r s' => ∃ b', r = .inl b' ∧ I n b' s') s := by
  intro n
  induction n with
  | zero => exact fun _ b s hs => ⟨b, rfl, hs⟩
  | succ n ih =>
    intro I hbody b s hs
    rw [loopUpTo, wp_bind]
    refine wp_mono (hbody 0 (Nat.succ_pos n) b s hs) fun r s' hr => ?_
    obtain ⟨b', rfl, hb'⟩ := hr
    -- the rounds that are left are counted from the second one on
    exact ih (I := fun i => I (i + 1)) (fun i hi => hbody (i + 1) (Nat.succ_lt_succ hi)) hb'

/-- The loop ends in the first round that leaves it. -/
theorem wp_loopUpTo_leaves {body : β → StateM σ (β ⊕ γ)} {E : γ → σ → Prop} :
    ∀ {i n : ℕ} {I : ℕ → β → σ → Prop}, i < n →
    (∀ j < i, ∀ b s, I j b s → wp (body b) (fun r s' => ∃ b', r = .inl b' ∧ I (j + 1) b' s') s) →
    (∀ b s, I i b s → wp (body b) (fun r s' => ∃ c, r = .inr c ∧ E c s') s) →
    ∀ {b s}, I 0 b s → wp (loopUpTo body n b) (fun r s' => ∃ c, r = .inr c ∧ E c s') s := by
  intro i
  induction i with
  | zero =>
    intro n I hn _ hlast b s hs
    obtain ⟨n, rfl⟩ := Nat.exists_eq_succ_of_ne_zero (Nat.ne_of_gt hn)
    rw [loopUpTo, wp_bind]
    refine wp_mono (hlast b s hs) fun r s' hr => ?_
    obtain ⟨c, rfl, hc⟩ := hr
    exact ⟨c, rfl, hc⟩
  | succ i ih =>
    intro n I hn hbody hlast b s hs
    obtain ⟨n, rfl⟩ := Nat.exists_eq_succ_of_ne_zero (Nat.ne_of_gt (Nat.zero_lt_of_lt hn))
    rw [loopUpTo, wp_bind]
    refine wp_mono (hbody 0 (Nat.succ_pos i) b s hs) fun r s' hr => ?_
    obtain ⟨b', rfl, hb'⟩ := hr
    exact ih (I := fun j => I (j + 1)) (Nat.lt_of_succ_lt_succ hn)
      (fun j hj => hbody (j + 1) (Nat.succ_lt_succ hj)) hlast hb'

/-! ### Return codes -/

/-- The postcondition of a call that returns 0 for success. -/
def onCode (ok bad : σ → Prop) (rc : Int) (s : σ) : Prop :=
  (rc = 0 → ok s) ∧ (rc ≠ 0 → bad s)

theorem neg_one_ne : (-1 : Int) ≠ 0 := by decide

section Codes

variable {ok ok' bad bad' : σ → Prop} {rc : Int} {s : σ}

@[simp] theorem onCode_zero : onCode ok bad 0 s ↔ ok s := by simp [onCode]

theorem onCode_of_ne (h : rc ≠ 0) : onCode ok bad rc s ↔ bad s := by simp [onCode, h]

@[simp] theorem onCode_neg_one : onCode ok bad (-1) s ↔ bad s := onCode_of_ne neg_one_ne

/-- A check of a return code that is 0. -/
theorem wp_ok {a b : StateM σ α} {Q : α → σ → Prop} :
    wp (if (0 : Int) ≠ 0 then a else b) Q s ↔ wp b Q s := by rw [if_neg (not_not.mpr rfl)]

theorem onCode_mono (h : onCode ok bad rc s) (hok : ok s → ok' s) (hbad : bad s → bad' s) :
    onCode ok' bad' rc s := ⟨fun h0 => hok (h.1 h0), fun h0 => hbad (h.2 h0)⟩

/-- `if (m() != 0) a; else b;` -/
theorem wp_check {A B : σ → Prop} {m : StateM σ Int} {a b : StateM σ α} {Q : α → σ → Prop}
    (hm : wp m (onCode A B) s) (ha : ∀ s', B s' → wp a Q s') (hb : ∀ s', A s' → wp b Q s') :
    wp (m >>= fun rc => if rc ≠ 0 then a else b) Q s := by
  rw [wp_bind]
  refine wp_mono hm fun rc s' h => ?_
  rw [wp_ite]
  exact ⟨fun hrc => ha s' (h.2 hrc), fun hrc => hb s' (h.1 (not_not.mp hrc))⟩

end Codes

/-! ### Views -/

/-- No run of `m` changes what the view `v` shows of the state. -/
def Keeps {δ : Type} (v : σ → δ) (m : StateM σ α) : Prop := ∀ s, wp m (fun _ s' => v s' = v s) s

section Keeps

variable {δ : Type} {v : σ → δ}

/-- What `m` keeps may be used in its postcondition. -/
theorem Keeps.wp_and {m : StateM σ α} {Q : α → σ → Prop} {s : σ} (h : Keeps v m)
    (hm : wp m Q s) : wp m (fun a s' => Q a s' ∧ v s' = v s) s := ⟨hm, h s⟩

/-- A coarser view is kept as well. -/
theorem Keeps.mono {ε : Type} {w : σ → ε} {m : StateM σ α} (h : Keeps v m)
    (hw : ∀ s s', v s' = v s → w s' = w s) : Keeps w m := fun s => hw s _ (h s)

theorem Keeps.pure (a : α) : Keeps v (pure a : StateM σ α) := fun _ => rfl

theorem Keeps.get : Keeps v (get : StateM σ σ) := fun _ => rfl

theorem Keeps.bind {m : StateM σ β} {f : β → StateM σ α} (hm : Keeps v m)
    (hf : ∀ b, Keeps v (f b)) : Keeps v (m >>= f) := fun s => (hf _ _).trans (hm s)

theorem Keeps.ite {c : Prop} [Decidable c] {m m' : StateM σ α} (h : Keeps v m)
    (h' : Keeps v m') : Keeps v (if c then m else m') := by
  intro s
  rw [wp_ite]
  exact ⟨fun _ => h s, fun _ => h' s⟩

theorem Keeps.forEach {f : β → StateM σ PUnit} {bs : List β} (hf : ∀ b ∈ bs, Keeps v (f b)) :
    Keeps v (forEach f bs) := by
  induction bs with
  | nil => exact Keeps.pure _
  | cons b bs ih =>
    exact Keeps.bind (hf b (by simp)) fun _ => ih fun c hc => hf c (by simp [hc])

theorem Keeps.forUntil {f : β → StateM σ Int} {bs : List β} (hf : ∀ b ∈ bs, Keeps v (f b)) :
    Keeps v (forUntil f bs) := by
  induction bs with
  | nil => exact Keeps.pure _
  | cons b bs ih =>
    exact Keeps.bind (hf b (by simp)) fun rc =>
      Keeps.ite (Keeps.pure _) (ih fun c hc => hf c (by simp [hc]))

theorem Keeps.loopUpTo {body : β → StateM σ (β ⊕ γ)} (hbody : ∀ b, Keeps v (body b)) :
    ∀ n b, Keeps v (loopUpTo body n b)
  | 0, _ => Keeps.pure _
  | n + 1, b => Keeps.bind (hbody b) fun r => by
      cases r with
      | inl b' => exact Keeps.loopUpTo hbody n b'
      | inr r => exact Keeps.pure _

end Keeps

end Prog
