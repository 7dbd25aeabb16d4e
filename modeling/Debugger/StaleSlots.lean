/-
No stale hardware watchpoint.

An armed debug register belongs to the entry of the table with its number.  `watch` and
the re-arming at a stop keep this.  `unwatch` keeps it as long as it deletes entries from
the end of the table: deleting an entry in the middle moves the later ones down by one
register and leaves the last register armed (`noStale_at_prompt`).
-/
import Debugger.DebugRegs

open Prog

namespace Debugger

/-- Every armed debug register of every thread is the one of a table entry. -/
def Sys.NoStale (s : Sys) : Prop :=
  ∀ p, s.os.proc = some p → ∀ t ∈ p.threads, ∀ (i : Fin wpMaxHw) slot, t.dr i = some slot →
    ∃ watch, s.dbg.watchpoints[i.val]? = some watch ∧ slot = watch.slot

/-- The commands that set and delete watchpoints, and those that resume the debuggee. -/
def Command.watches : Command → Bool
  | .watchTok _ _ | .unwatchTok _ => true
  | .continueTok | .stepTok | .siTok | .nextTok => true
  | _ => false

/-- The numbers `unwatch` deletes, in order. -/
def unwatchOrder (count : ℕ) (args : CStr) : Option (List ℕ) :=
  deletionOrder count (fun xs n => if xs.length < wpMaxHw then xs ++ [n] else xs) args

/-- What the command deletes are the last entries of the table. -/
def DeletesTail (c : Command) (s : Sys) : Prop :=
  ∀ args order, c = .unwatchTok (some args) →
    unwatchOrder s.dbg.watchpoints.length (trimSpace args) = some order →
    order <+: (List.range s.dbg.watchpoints.length).reverse

namespace Sys.NoStale

variable {s s' : Sys}

theorem of_slots (hv : s'.slots = s.slots) (h : s.NoStale) : s'.NoStale := by
  intro p' hp' t' ht' i slot hslot
  have hwps : s'.dbg.watchpoints.map Watchpoint.place = s.dbg.watchpoints.map Watchpoint.place :=
    congrArg Prod.snd hv
  obtain ⟨p, t, hp, ht, -, hdr⟩ := Sys.thread_of_slots hv hp' ht'
  obtain ⟨watch, hw, rfl⟩ := h p hp t ht i slot (by rw [hdr, hslot])
  have hget := congrArg (·[i.val]?) hwps
  simp only [List.getElem?_map, hw, Option.map_some] at hget
  obtain ⟨watch', hw', hplace⟩ := Option.map_eq_some_iff.mp hget
  refine ⟨watch', hw', ?_⟩
  show watch.place.slot = watch'.place.slot
  rw [hplace]

theorem of_none (h : s.os.proc = none) : s.NoStale := fun p hp =>
  absurd (h.symm.trans hp) (by simp)

/-- Arming the register of a table entry. -/
theorem setSlot {p : Process} {k : ℕ} {watch : Watchpoint} (hk : k < wpMaxHw) (h : s.NoStale)
    (hp : s.os.proc = some p) (hw : s.dbg.watchpoints[k]? = some watch) :
    (s.withProc (p.setSlot ⟨k, hk⟩ (some watch.slot))).NoStale := by
  intro q hq t ht i slot hslot
  obtain rfl := Option.some.inj hq
  obtain ⟨u, hu, rfl⟩ := Process.setSlot_dr ht
  by_cases hi : i = ⟨k, hk⟩
  · subst hi
    simp only [Function.update_self, Option.some.injEq] at hslot
    exact ⟨watch, hw, hslot.symm⟩
  · simp only [Function.update_of_ne hi] at hslot
    exact h p hp u hu i slot hslot

/-- A new entry at the end of the table, with its register. -/
theorem append {p : Process} {wps : List Watchpoint} (hk : wps.length < wpMaxHw)
    {watch : Watchpoint} (h : s.NoStale) (hp : s.os.proc = some p)
    (hwps : s.dbg.watchpoints = wps) :
    ((s.withProc (p.setSlot ⟨wps.length, hk⟩ (some watch.slot))).withDbg { s.dbg with
      watchpoints := wps ++ [watch] }).NoStale := by
  subst hwps
  intro q hq t ht i slot hslot
  obtain rfl := Option.some.inj hq
  obtain ⟨u, hu, rfl⟩ := Process.setSlot_dr ht
  by_cases hi : i = ⟨s.dbg.watchpoints.length, hk⟩
  · subst hi
    simp only [Function.update_self, Option.some.injEq] at hslot
    exact ⟨watch, List.getElem?_concat_length, hslot.symm⟩
  · simp only [Function.update_of_ne hi] at hslot
    obtain ⟨w, hw, hslot⟩ := h p hp u hu i slot hslot
    refine ⟨w, ?_, hslot⟩
    show (s.dbg.watchpoints ++ [watch])[i.val]? = some w
    rw [List.getElem?_append_left (List.getElem?_eq_some_iff.mp hw).1, hw]

/-- Clearing the register of the last entry, which leaves the table. -/
theorem dropLast {p : Process} {k : ℕ} (hk : k < wpMaxHw) (h : s.NoStale)
    (hp : s.os.proc = some p) (hlast : s.dbg.watchpoints.length = k + 1) :
    ((s.withProc (p.setSlot ⟨k, hk⟩ none)).withDbg { s.dbg with
      watchpoints := s.dbg.watchpoints.dropLast }).NoStale := by
  intro q hq t ht i slot hslot
  obtain rfl := Option.some.inj hq
  obtain ⟨u, hu, rfl⟩ := Process.setSlot_dr ht
  by_cases hi : i = ⟨k, hk⟩
  · subst hi
    simp at hslot
  · simp only [Function.update_of_ne hi] at hslot
    obtain ⟨w, hw, hslot⟩ := h p hp u hu i slot hslot
    refine ⟨w, ?_, hslot⟩
    have hne : i.val ≠ k := fun heq => hi (Fin.ext heq)
    have hlt := (List.getElem?_eq_some_iff.mp hw).1
    show s.dbg.watchpoints.dropLast[i.val]? = some w
    rw [List.getElem?_dropLast, if_pos (by omega), hw]

theorem stoppedBy {p : Process} {sig : ℕ} {ms : List Move} (h : s.NoStale)
    (hp : s.os.proc = some p) (hq : (s.stoppedBy p sig ms).Quiet s') : s'.NoStale := by
  obtain ⟨n, rfl⟩ := hq
  intro q hq t ht i slot hslot
  obtain rfl := Option.some.inj hq
  rcases Process.moves_dr.1 t ht with ⟨u, hu, -, hdr⟩ | ⟨-, hdr⟩
  · exact h p hp u hu i slot (hdr ▸ hslot)
  · rw [hdr] at hslot
    exact absurd hslot (by simp)

end Sys.NoStale

/-! ### The commands that resume the debuggee -/

section Invariant

variable {arch : Arch} {fault : KCall → ℕ → Bool} {s s' : Sys}

/-- The register of an entry can be armed at any time. -/
theorem Sys.NoStale.resync (hdebug : ∀ n, fault .debugState n = false)
    (ht : s.Traced arch fault) (h : s.NoStale) :
    wp resyncWatchpointsToAllThreads (fun _ s' => s'.Traced arch fault ∧ s'.NoStale) s := by
  rw [resyncWatchpointsToAllThreads, wp_bind, wp_get]
  have hloop := @wp_resyncFrom (fun _ s' => (s'.Traced arch fault ∧ s'.NoStale) ∧ s'.dbg = s.dbg)
    s.dbg.pid s.dbg.watchpoints 0 s
    (fun j watch s₁ hj h₁ => ⟨fun _ => ?_, fun _ => h₁⟩) ⟨⟨ht, h⟩, rfl⟩
  · exact wp_mono hloop fun _ _ h' => h'.1
  · obtain ⟨⟨ht₁, hs₁⟩, hd⟩ := h₁
    refine wp_cdbgWpHwInstall (ht₁.reliable hdebug)
      (fun p hp => (ht₁.proc p (Sys.process_eq_some.mp hp).1).1)
      (fun s₂ hq _ => ⟨⟨ht₁.of_quiet hq, hs₁.of_slots (Sys.slots_of_quiet hq)⟩, ?_⟩)
      fun p s₂ hk hp _ hq => ?_
    · obtain ⟨n, rfl⟩ := hq
      exact hd
    · have hproc := (Sys.process_eq_some.mp hp).1
      have hentry : s₁.dbg.watchpoints[0 + j]? = some watch := by rw [hd, Nat.zero_add, hj]
      have hstale := hs₁.setSlot hk hproc hentry
      refine ⟨⟨?_, hstale.of_slots (Sys.slots_of_quiet hq)⟩, ?_⟩
      · exact (ht₁.setSlot hproc).of_quiet hq
      · obtain ⟨n, rfl⟩ := hq
        exact hd

theorem noStale_invariant (hdebug : ∀ n, fault .debugState n = false) :
    Invariant (fun s => s.Traced arch fault ∧ s.NoStale) where
  patches h hv := ⟨traced_invariant.patches h.1 hv,
    h.2.of_slots (Sys.slots_of_sansHits (Sys.sansHits_of_sansPatches hv))⟩
  holds h hv := ⟨traced_invariant.holds h.1 hv, h.2.of_slots (Sys.slots_of_sansHolds hv)⟩
  regsSet pid tid regs h := wp_and (traced_invariant.regsSet pid tid regs h.1)
    (wp_mono (cdbgRegsSet_keepsHits pid tid regs _) fun _ _ hv =>
      h.2.of_slots (Sys.slots_of_sansHits hv))
  resumed h hp hq := ⟨traced_invariant.resumed h.1 hp hq,
    h.2.of_slots (Sys.slots_of_resumed hp hq)⟩
  stopped h hp hev hq := ⟨traced_invariant.stopped h.1 hp hev hq,
    h.2.stoppedBy (Sys.process_eq_some.mp hp).1 hq⟩
  ended h he := ⟨traced_invariant.ended h.1 he, by
    obtain ⟨status, waits, calls, rfl⟩ := he
    exact Sys.NoStale.of_none rfl⟩
  report h := wp_and (traced_invariant.report h.1) (reportStop_slots
    (fun _ _ h _ hv => h.of_slots hv) (wp_mono (h.2.resync hdebug h.1) fun _ _ h' => h'.2))
  watch i h := wp_and (traced_invariant.watch i h.1)
    (wp_mono (reportWatchpointHit_keepsHits i _) fun _ _ hv =>
      h.2.of_slots (Sys.slots_of_sansHits hv))
  exit hi h := ⟨traced_invariant.exit hi h.1, Sys.NoStale.of_none (h.1.idle.mp hi)⟩

/-! ### `watch` and `unwatch` -/

theorem Sys.NoStale.cmdWatch (hdebug : ∀ n, fault .debugState n = false) (expr : Option CStr)
    (resolved : Option (Addr × ℕ)) (ht : s.Traced arch fault) (h : s.NoStale) :
    wp (cmdWatch expr resolved) (fun _ s' => s'.NoStale) s := by
  refine wp_cmdWatch (ht.reliable hdebug)
    (fun p hp => (ht.proc p (Sys.process_eq_some.mp hp).1).1)
    (fun rc s' hv => h.of_slots (Sys.slots_of_sansHits (Sys.sansHits_of_sansPatches hv)))
    fun s₁ p watch s' hk hv hp _ hq => ?_
  have h₁ := h.of_slots (Sys.slots_of_sansHits (Sys.sansHits_of_sansPatches hv))
  exact (h₁.append hk hp (congrArg (·.dbg.watchpoints) hv)).of_slots
    (Sys.slots_of_quiet hq)

/-- Deleting the last entry clears its register. -/
theorem Sys.NoStale.deleteLast (hdebug : ∀ n, fault .debugState n = false) {k : ℕ}
    (ht : s.Traced arch fault) (h : s.NoStale) (hlast : s.dbg.watchpoints.length = k + 1) :
    wp (deleteWatchpointAt k) (fun rc s' => s'.NoStale ∧
      (rc = 0 → s'.dbg.watchpoints.length = k)) s := by
  have hdrop : s.dbg.watchpoints.dropLast.length = k := by
    rw [List.length_dropLast, hlast, Nat.add_sub_cancel]
  rw [deleteWatchpointAt, wp_bind, wp_get, wp_ite]
  refine ⟨fun hge => absurd hge (by omega), fun _ => ?_⟩
  have hloop : List.range' (k + 1) (s.dbg.watchpoints.length - (k + 1)) = [] := by
    rw [hlast, Nat.sub_self]
    rfl
  rw [hloop, wp_bind, uninstallIfLive, wp_ite]
  refine ⟨fun _ => ?_, fun hdead => ?_⟩
  · refine wp_cdbgWpHwUninstall (ht.reliable hdebug)
      (fun p hp => (ht.proc p (Sys.process_eq_some.mp hp).1).1) (fun s₁ hq _ => ?_)
      fun p s₁ hk hp hq => ?_
    · rw [wp_ite]
      exact ⟨fun _ => ⟨h.of_slots (Sys.slots_of_quiet hq), fun h => absurd h neg_one_ne⟩,
        fun h => absurd (by decide) h⟩
    · rw [wp_ite]
      refine ⟨fun h => absurd rfl h, fun _ => ?_⟩
      obtain ⟨n, rfl⟩ := hq
      refine ⟨?_, fun _ => hdrop⟩
      exact (h.dropLast hk (Sys.process_eq_some.mp hp).1 hlast).of_slots rfl
  · -- without a live debuggee there is no process, and only the table changes
    have hnone : s.os.proc = none := by
      by_contra hsome
      exact hdead (ht.live fun hi => hsome (ht.idle.mp hi))
    rw [wp_pure, wp_ite]
    exact ⟨fun h => absurd rfl h, fun _ => ⟨Sys.NoStale.of_none hnone, fun _ => hdrop⟩⟩

/-- Deleting entries from the end of the table. -/
theorem Sys.NoStale.deleteTail (hdebug : ∀ n, fault .debugState n = false) {order : List ℕ}
    (ht : s.Traced arch fault) (h : s.NoStale)
    (horder : order <+: (List.range s.dbg.watchpoints.length).reverse) :
    wp (forUntil deleteWatchpointAt order) (fun _ s' => s'.NoStale) s := by
  have hloop := wp_forUntil (f := deleteWatchpointAt)
    (I := fun rest s' => (s'.Traced arch fault ∧ s'.NoStale) ∧
      rest <+: (List.range s'.dbg.watchpoints.length).reverse)
    (E := fun _ s' => s'.NoStale) (fun k rest s₁ h₁ => ?_) ⟨⟨ht, h⟩, horder⟩
  · refine wp_mono hloop fun rc s' h' => ?_
    by_cases hrc : rc = 0
    · exact (h'.1 hrc).1.2
    · exact h'.2 hrc
  · obtain ⟨⟨ht₁, hs₁⟩, hpre⟩ := h₁
    obtain ⟨k', hlen⟩ : ∃ k', s₁.dbg.watchpoints.length = k' + 1 := by
      cases hlen : s₁.dbg.watchpoints.length with
      | zero =>
        rw [hlen] at hpre
        exact absurd (List.prefix_nil.mp hpre) (by simp)
      | succ k' => exact ⟨k', rfl⟩
    rw [hlen, List.range_succ, List.reverse_append, List.reverse_singleton, List.singleton_append,
      List.cons_prefix_cons] at hpre
    obtain ⟨rfl, hrest⟩ := hpre
    refine wp_mono (wp_and (ht₁.keeps (deleteWatchpointAt_progress k))
      (hs₁.deleteLast hdebug ht₁ hlen)) fun rc s₂ h₂ => ⟨fun hrc => ?_, fun _ => h₂.2.1⟩
    rw [h₂.2.2 hrc]
    exact ⟨⟨h₂.1, h₂.2.1⟩, hrest⟩

theorem Sys.NoStale.cmdUnwatch (hdebug : ∀ n, fault .debugState n = false) (args : Option CStr)
    (ht : s.Traced arch fault) (h : s.NoStale) (htail : DeletesTail (.unwatchTok args) s) :
    wp (cmdUnwatch args) (fun _ s' => s'.NoStale) s := by
  rw [Debugger.cmdUnwatch, wp_bind, wp_get, wp_ite]
  refine ⟨fun _ => h, fun _ => ?_⟩
  cases args with
  | none => exact h
  | some args =>
    have horder := htail args
    rw [Option.map_some]
    split
    · exact h
    · exact h
    · next text heq =>
      obtain rfl := Option.some.inj heq
      split
      · exact h
      · next order hsome => exact h.deleteTail hdebug ht (horder order rfl hsome)

end Invariant

/-! ### Sessions -/

/-- In every session in which `unwatch` deletes the last entries only, an armed debug
register of a thread is the one of the table entry with its number. -/
theorem noStale_at_prompt {s₀ s : Sys} (h₀ : s₀.Traced s₀.os.arch s₀.os.fault)
    (hst : s₀.dbg.state ≠ .running) (hdebug : s₀.Reliable .debugState)
    (hempty : ∀ p, s₀.os.proc = some p → ∀ t ∈ p.threads, ∀ i, t.dr i = none)
    (h : Reaches (fun c s _ => c.watches = true ∧ DeletesTail c s) s₀ s) :
    ∀ p, s.os.proc = some p → ∀ t ∈ p.threads, ∀ (i : Fin wpMaxHw) slot, t.dr i = some slot →
      ∃ watch, s.dbg.watchpoints[i.val]? = some watch ∧
        slot = { addr := watch.addr, size := watch.size, mode := watch.mode } := by
  have hstart : s₀.NoStale := fun p hp t ht i slot hslot => by
    rw [hempty p hp t ht i] at hslot
    exact absurd hslot (by simp)
  have hok : ∀ (c : Command) (s _ : Sys), (c.watches = true ∧ DeletesTail c s) →
      c.restarts = false := by
    intro c s _ hc
    cases c <;> simp_all [Command.watches, Command.restarts]
  have hrun : s.Traced s₀.os.arch s₀.os.fault ∧ s.NoStale := by
    induction h with
    | start => exact ⟨h₀, hstart⟩
    | @command s c hs hc hrc ih =>
      have hprompt : s.dbg.state ≠ .running := hs.prompt hok hst
      have ht : s.unlogged.Traced _ _ := ih.1.unlogged
      have hs : s.unlogged.NoStale := ih.2
      refine ⟨ht.exec (hok c s s hc) hprompt, ?_⟩
      show wp (exec c) (fun _ s' => s'.NoStale) s.unlogged
      cases hr : c.resumes with
      | true =>
        exact wp_mono ((noStale_invariant hdebug).resumes hr hprompt ⟨ht, hs⟩) fun _ _ h' => h'.2
      | false =>
        cases c with
        | watchTok expr resolved => exact hs.cmdWatch hdebug expr resolved ht
        | unwatchTok args => exact hs.cmdUnwatch hdebug args ht hc.2
        | _ => simp_all [Command.watches, Command.resumes]
  exact hrun.2

/-- With two watchpoints set, `unwatch 0` moves the second one to register 0 and leaves it
armed in register 1 of every thread as well. -/
theorem stale_after_unwatch :
    let s₀ := Sys.attached .x86_64 twoThreads fun _ => .stopped 5 []
    ∃ s, Reaches (fun c _ _ => c.watches = true) s₀ s ∧ s.dbg.watchpoints.length = 1 ∧
      s.os.proc.any (·.threads.all fun t => (t.dr 1).isSome) = true := by
  let s₀ := Sys.attached .x86_64 twoThreads fun _ => .stopped 5 []
  let s₁ := (runCommand (.watchTok (some "x".toList) (some (0x2000, 8))) s₀).2
  let s₂ := (runCommand (.watchTok (some "y".toList) (some (0x3000, 8))) s₁).2
  let s₃ := (runCommand (.unwatchTok (some "0".toList)) s₂).2
  have h₁ : Reaches (fun c _ _ => c.watches = true) s₀ s₁ := .command .start rfl (by decide +kernel)
  have h₂ : Reaches (fun c _ _ => c.watches = true) s₀ s₂ := .command h₁ rfl (by decide +kernel)
  have h₃ : Reaches (fun c _ _ => c.watches = true) s₀ s₃ := .command h₂ rfl (by decide +kernel)
  exact ⟨s₃, h₃, by decide +kernel, by decide +kernel⟩

/-- Of two watchpoints the last one is deleted again, and the debuggee goes on to the next stop. -/
theorem noStale_at_prompt_watch :
    let s₀ := Sys.attached .x86_64 twoThreads fun _ => .stopped 5 []
    let s₁ := (runCommand (.watchTok (some "x".toList) (some (0x2000, 8))) s₀).2
    let s₂ := (runCommand (.watchTok (some "y".toList) (some (0x3000, 8))) s₁).2
    let s₃ := (runCommand (.unwatchTok (some "1".toList)) s₂).2
    let s := (runCommand .continueTok s₃).2
    s.dbg.watchpoints.map (·.addr) = [0x2000] ∧
    ∀ p, s.os.proc = some p → ∀ t ∈ p.threads, ∀ (i : Fin wpMaxHw) slot, t.dr i = some slot →
      ∃ watch, s.dbg.watchpoints[i.val]? = some watch ∧
        slot = { addr := watch.addr, size := watch.size, mode := watch.mode } := by
  intro s₀ s₁ s₂ s₃ s
  refine ⟨by decide +kernel, @noStale_at_prompt s₀ _
    ⟨rfl, rfl, fun p hp => ?_, by decide⟩ (by decide) (fun _ => rfl) (fun p hp t ht i => ?_) ?_⟩
  · obtain rfl := Option.some.inj hp
    exact ⟨twoThreads_wellFormed, rfl, by decide⟩
  · obtain rfl := Option.some.inj hp
    rcases List.mem_pair.mp ht with rfl | rfl <;> rfl
  · have h₁ : Reaches (fun c s _ => c.watches = true ∧ DeletesTail c s) s₀ s₁ :=
      .command .start ⟨rfl, fun _ _ h => Command.noConfusion h⟩ (by decide +kernel)
    have h₂ : Reaches (fun c s _ => c.watches = true ∧ DeletesTail c s) s₀ s₂ :=
      .command h₁ ⟨rfl, fun _ _ h => Command.noConfusion h⟩ (by decide +kernel)
    have htail : DeletesTail (.unwatchTok (some "1".toList)) s₂ := by
      intro args order hargs horder
      injection hargs with hargs
      obtain rfl := Option.some.inj hargs
      have hone : unwatchOrder s₂.dbg.watchpoints.length (trimSpace "1".toList) = some [1] := by
        decide +kernel
      obtain rfl := Option.some.inj (hone.symm.trans horder)
      decide +kernel
    have h₃ : Reaches (fun c s _ => c.watches = true ∧ DeletesTail c s) s₀ s₃ :=
      .command h₂ ⟨rfl, htail⟩ (by decide +kernel)
    exact .command h₃ ⟨rfl, fun _ _ h => Command.noConfusion h⟩ (by decide +kernel)

end Debugger
