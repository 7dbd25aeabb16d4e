/-
The breakpoints as an overlay over the program's bytes.

The table of breakpoints is a list of patches, laid where an entry is enabled.  `break`,
the re-enabling after a stop and a stop of a debuggee that spares its code keep table and
memory in agreement.  Taking an entry out keeps them in agreement when its saved byte is the trap byte or
no other enabled entry has its address (`DisableSafe`); `break` given twice at an address
makes entries for which that fails.  `overlay_of_runs` covers all runs in which every
entry that is taken out is safe.
-/
import Debugger.Hits
import Debugger.Traced
import Debugger.Deletion
import Debugger.Lib.Overlay

open Prog

namespace Debugger

/-! ### The table as patches -/

/-- The patches that are laid: the enabled entries with their saved bytes. -/
def Laid (bps : List Breakpoint) (q : Addr × UInt8) : Prop :=
  ∃ bp ∈ bps, bp.enabled = true ∧ (bp.addr, bp.savedByte) = q

/-- Entry `i` keeps the trap byte, or no other enabled entry has its address. -/
def DisableSafe (arch : Arch) (bps : List Breakpoint) (i : ℕ) : Prop :=
  ∀ bp, bps[i]? = some bp → bp.enabled = true → bp.savedByte = trapByte arch ∨
    ∀ j bp', j ≠ i → bps[j]? = some bp' → bp'.enabled = true → bp'.addr ≠ bp.addr

/-- Where an enabled entry to be deleted keeps another byte than the trap byte, the other
enabled entries at its address are deleted before it. -/
def DeletesSafely (arch : Arch) (bps : List Breakpoint) (order : List ℕ) : Prop :=
  ∀ i ∈ order, ∀ bp, bps[i]? = some bp → bp.enabled = true → bp.savedByte = trapByte arch ∨
    ∀ j bp', j ≠ i → bps[j]? = some bp' → bp'.enabled = true → bp'.addr = bp.addr →
      j ∈ order ∧ i < j

theorem laid_middle {before after : List Breakpoint} {bp : Breakpoint} {q : Addr × UInt8} :
    Laid (before ++ bp :: after) q ↔
      (bp.enabled = true ∧ (bp.addr, bp.savedByte) = q) ∨ Laid (before ++ after) q := by
  simp only [Laid, List.mem_append, List.mem_cons]
  constructor
  · rintro ⟨b, hb | rfl | hb, hq⟩
    · exact .inr ⟨b, .inl hb, hq⟩
    · exact .inl hq
    · exact .inr ⟨b, .inr hb, hq⟩
  · rintro (hq | ⟨b, hb | hb, hq⟩)
    · exact ⟨bp, .inr (.inl rfl), hq⟩
    · exact ⟨b, .inl hb, hq⟩
    · exact ⟨b, .inr (.inr hb), hq⟩

section Table

variable {arch : Arch} {code : Addr → Prop} {orig m : Mem} {before after : List Breakpoint}

/-- Enabling an entry lays its patch. -/
theorem Laid.enable {bp' : Breakpoint}
    (h : Overlaid (trapByte arch) orig m code (Laid (before ++ after)))
    (hon : bp'.enabled = true) (hbyte : bp'.savedByte = m bp'.addr) :
    Overlaid (trapByte arch) orig (Function.update m bp'.addr (trapByte arch)) code
      (Laid (before ++ bp' :: after)) := by
  refine h.lay fun q => ?_
  rw [laid_middle, hbyte]
  exact or_congr ⟨fun hq => hq.2.symm, fun hq => ⟨hon, hq.symm⟩⟩ Iff.rfl

/-- A disabled entry is no patch. -/
theorem laid_middle_off {bp : Breakpoint} (hoff : bp.enabled = false) {q : Addr × UInt8} :
    Laid (before ++ bp :: after) q ↔ Laid (before ++ after) q := by
  rw [laid_middle, hoff]
  simp

/-- Taking an entry out lifts its patch. -/
theorem Laid.disable {bps : List Breakpoint} {i : ℕ} {bp : Breakpoint}
    (h : Overlaid (trapByte arch) orig m code (Laid bps)) (hbp : bps[i]? = some bp)
    (hon : bp.enabled = true) (hsafe : DisableSafe arch bps i) :
    Overlaid (trapByte arch) orig (Function.update m bp.addr bp.savedByte) code
      (Laid (bps.eraseIdx i)) := by
  obtain ⟨before, after, heq, -, herase, hindex⟩ := exists_split_of_getElem? hbp
  rw [herase]
  refine h.lift (p := (bp.addr, bp.savedByte)) (fun q => ?_) ((hsafe bp hbp hon).imp id
    fun halone q hq => ?_)
  · rw [heq, laid_middle]
    exact or_congr ⟨fun hq => hq.2.symm, fun hq => ⟨hon, hq.symm⟩⟩ Iff.rfl
  · obtain ⟨b, hb, hben, rfl⟩ := hq
    obtain ⟨j, hj, hget⟩ := hindex b hb
    exact halone j b hj hget hben

/-- Marking an entry as disabled leaves the patches of the table without it. -/
theorem laid_set_off {bps : List Breakpoint} {i : ℕ} {bp : Breakpoint} (hbp : bps[i]? = some bp)
    {q : Addr × UInt8} :
    Laid (bps.set i { bp with enabled := false }) q ↔ Laid (bps.eraseIdx i) q := by
  obtain ⟨before, after, -, hset, herase, -⟩ := exists_split_of_getElem? hbp
  rw [hset, herase]
  exact laid_middle_off rfl

theorem laid_erase_off {bps : List Breakpoint} {i : ℕ} {bp : Breakpoint} (hbp : bps[i]? = some bp)
    (hoff : bp.enabled = false) {q : Addr × UInt8} : Laid (bps.eraseIdx i) q ↔ Laid bps q := by
  obtain ⟨before, after, heq, -, herase, -⟩ := exists_split_of_getElem? hbp
  rw [herase, heq]
  exact (laid_middle_off hoff).symm

end Table

/-- Deleting the largest number first leaves the rest of the order safe. -/
theorem DeletesSafely.erase {arch : Arch} {bps : List Breakpoint} {i : ℕ} {rest : List ℕ}
    (hbelow : ∀ j ∈ rest, j < i) (h : DeletesSafely arch bps (i :: rest)) :
    DeletesSafely arch (bps.eraseIdx i) rest := by
  intro k hk bp hbp hon
  have hki := hbelow k hk
  rw [List.getElem?_eraseIdx_of_lt hki] at hbp
  refine (h k (List.mem_cons_of_mem _ hk) bp hbp hon).imp id fun halone j bp' hj hbp' hon' haddr => ?_
  by_cases hji : j < i
  · rw [List.getElem?_eraseIdx_of_lt hji] at hbp'
    obtain ⟨hmem, hlt⟩ := halone j bp' hj hbp' hon' haddr
    exact ⟨(List.mem_cons.mp hmem).resolve_left (Nat.ne_of_lt hji), hlt⟩
  · -- an entry behind the deleted one would have had to be deleted before
    rw [List.getElem?_eraseIdx_of_ge (by omega)] at hbp'
    obtain ⟨hmem, -⟩ := halone (j + 1) bp' (by omega) hbp' hon' haddr
    rcases List.mem_cons.mp hmem with heq | hmem
    · omega
    · have := hbelow _ hmem
      omega

theorem DeletesSafely.head {arch : Arch} {bps : List Breakpoint} {i : ℕ} {rest : List ℕ}
    (hbelow : ∀ j ∈ rest, j < i) (h : DeletesSafely arch bps (i :: rest)) :
    DisableSafe arch bps i := by
  intro bp hbp hon
  refine (h i List.mem_cons_self bp hbp hon).imp id fun halone j bp' hj hbp' hon' haddr => ?_
  obtain ⟨hmem, hlt⟩ := halone j bp' hj hbp' hon' haddr
  rcases List.mem_cons.mp hmem with heq | hmem
  · exact hj heq
  · have := hbelow j hmem
    omega

/-! ### Agreement of memory and table -/

/-- The memory of the debuggee agrees with the entries `bps`, and the debuggee does not modify
its code. -/
structure OverlaidBy (arch : Arch) (fault : KCall → ℕ → Bool) (code : Addr → Prop) (orig : Mem)
    (bps : List Breakpoint) (s : Sys) : Prop where
  traced : s.Traced arch fault
  spares : ∀ n, (s.os.events n).Spares code
  mem : ∀ p, s.os.proc = some p → Overlaid (trapByte arch) orig p.mem code (Laid bps)

/-- Memory and table agree. -/
def Sys.Overlaid (arch : Arch) (fault : KCall → ℕ → Bool) (code : Addr → Prop) (orig : Mem)
    (s : Sys) : Prop := OverlaidBy arch fault code orig s.dbg.breakpoints s

section Agreement

variable {arch : Arch} {fault : KCall → ℕ → Bool} {code : Addr → Prop} {orig : Mem}
  {bps : List Breakpoint} {s s' : Sys}

theorem OverlaidBy.of_quiet (h : OverlaidBy arch fault code orig bps s) (hq : s.Quiet s') :
    OverlaidBy arch fault code orig bps s' := by
  obtain ⟨n, rfl⟩ := hq
  exact ⟨h.traced.of_quiet ⟨n, rfl⟩, h.spares, h.mem⟩

theorem OverlaidBy.of_sansWatches (hv : s'.sansWatches = s.sansWatches)
    (h : OverlaidBy arch fault code orig bps s) : OverlaidBy arch fault code orig bps s' := by
  have hevents : s'.os.events = s.os.events := congrArg (·.os.events) hv
  refine ⟨h.traced.of_progress (Sys.progress_of_sansWatches hv), hevents ▸ h.spares,
    fun p' hp' => ?_⟩
  obtain ⟨p, hp, hspots⟩ := Sys.proc_of_sansWatches hv hp'
  rw [show p'.mem = p.mem from congrArg (·.mem) hspots]
  exact h.mem p hp

/-- The cached registers, the selected thread and the table take no part in it. -/
theorem OverlaidBy.withDbg {d : Cdbg} (h : OverlaidBy arch fault code orig bps s)
    (hd : d.pid = s.dbg.pid ∧ d.state = s.dbg.state) :
    OverlaidBy arch fault code orig bps (s.withDbg d) := by
  refine ⟨h.traced.of_progress ?_, h.spares, h.mem⟩
  simp only [Sys.progress, Sys.withDbg, hd.1, hd.2]
  rfl

/-- A write to memory that leaves memory in agreement with other entries. -/
theorem OverlaidBy.wrote {p : Process} {addr : Addr} {byte : UInt8} {bps' : List Breakpoint}
    (h : OverlaidBy arch fault code orig bps s) (hp : s.process s.dbg.pid = some p)
    (hmem : Prog.Overlaid (trapByte arch) orig (Function.update p.mem addr byte) code (Laid bps')) :
    OverlaidBy arch fault code orig bps' (s.wrote p addr [byte]) := by
  refine ⟨h.traced.of_progress (Sys.progress_of_sansReports
    (Sys.sansReports_of_sansPatches (Sys.sansPatches_wrote hp))), h.spares, fun q hq => ?_⟩
  obtain rfl := Option.some.inj hq
  exact hmem

/-- Putting breakpoints back. -/
theorem OverlaidBy.reenableLoop {pid : ℕ} {pc : Addr} (hpid : pid = s.dbg.pid)
    (h : OverlaidBy arch fault code orig bps s) :
    wp (reenableLoop pid pc bps) (fun r => OverlaidBy arch fault code orig r.2) s := by
  refine wp_mono (@wp_reenableLoop pid pc
    (fun bps' s' => s'.dbg = s.dbg ∧ OverlaidBy arch fault code orig bps' s')
    (fun done bp rest s₁ h₁ hoff _ => ?_) bps [] s ⟨rfl, h⟩) fun r s' h' => h'.2
  obtain ⟨hd, h₁⟩ := h₁
  have hrest : ∀ p, s₁.os.proc = some p →
      Prog.Overlaid (trapByte arch) orig p.mem code (Laid (done ++ rest)) := fun p hp =>
    (h₁.mem p hp).congr (fun q => (laid_middle_off hoff).symm) fun _ _ => rfl
  have hskip : ∀ {bp' : Breakpoint} {s₂ : Sys}, bp'.enabled = false → s₁.Quiet s₂ →
      OverlaidBy arch fault code orig (done ++ bp' :: rest) s₂ := fun hoff' hq =>
    OverlaidBy.of_quiet ⟨h₁.traced, h₁.spares, fun p hp =>
      (hrest p hp).congr (fun q => laid_middle_off hoff') fun _ _ => rfl⟩ hq
  subst hpid
  refine wp_cdbgBpEnable (fun bp' s₂ hq _ hbp' => ?_) fun p s₂ hp hq => ?_
  · refine ⟨?_, hskip ?_ hq⟩
    · obtain ⟨n, rfl⟩ := hq
      exact hd
    · rcases hbp' with rfl | ⟨byte, rfl⟩
      · exact hoff
      · rfl
  · rw [← hd] at hp
    have hlaid := @Laid.enable _ _ _ _ _ _ ⟨bp.addr, p.mem bp.addr, true, bp.spec⟩
      (hrest p (Sys.process_eq_some.mp hp).1) rfl rfl
    rw [h₁.traced.arch] at hq
    refine ⟨?_, (h₁.wrote hp hlaid).of_quiet hq⟩
    obtain ⟨n, rfl⟩ := hq
    exact hd

theorem Sys.Overlaid.reenable (h : s.Overlaid arch fault code orig) :
    wp reenableBreakpointsAfterStep (fun _ s' => s'.Overlaid arch fault code orig) s := by
  rw [reenableBreakpointsAfterStep, wp_bind, wp_get, wp_ite]
  refine ⟨fun _ => h, fun _ => ?_⟩
  rw [wp_bind]
  refine wp_cdbgRefreshRegs (fun s₁ hq _ => ?_) fun p t s₁ _ _ hq => ?_
  · have h₁ := h.of_quiet hq
    rw [wp_ite]
    obtain ⟨n, rfl⟩ := hq
    exact ⟨fun _ => h₁, fun h => absurd neg_one_ne h⟩
  · rw [wp_ite]
    refine ⟨fun h => absurd rfl h, fun _ => ?_⟩
    have h₁ : OverlaidBy arch fault code orig s.dbg.breakpoints s₁ :=
      OverlaidBy.of_quiet (OverlaidBy.withDbg (d := { s.dbg with regs := t.regs }) h
        ⟨rfl, rfl⟩) hq
    obtain ⟨n, rfl⟩ := hq
    rw [wp_bind, wp_get, wp_bind]
    refine wp_mono (h₁.reenableLoop rfl) fun r s₂ h₂ => ?_
    exact h₂.withDbg ⟨rfl, rfl⟩

theorem Sys.Overlaid.wait (h : s.Overlaid arch fault code orig) :
    wp cdbgWait (fun _ s' => s'.Overlaid arch fault code orig) s := by
  refine wp_cdbgWait (fun s₁ hq _ => ?_) (fun p s₁ _ _ he => ?_) fun p sig ms s₁ hp _ hev hq => ?_
  · have h₁ := h.of_quiet hq
    obtain ⟨n, rfl⟩ := hq
    exact h₁
  · have ht := h.traced.ended he
    obtain ⟨status, waits, calls, rfl⟩ := he
    exact ⟨ht, h.spares, fun p hp => absurd hp (by simp)⟩
  · have hstopped : s₁.Overlaid arch fault code orig := by
      have ht := h.traced.stoppedBy hp hq
      have hspare : ∀ m ∈ ms, m.Spares code := by
        have := h.spares s.os.waits
        rwa [hev] at this
      obtain ⟨n, rfl⟩ := hq
      refine ⟨ht, h.spares, fun q hq => ?_⟩
      obtain rfl := Option.some.inj hq
      exact (h.mem p (Sys.process_eq_some.mp hp).1).congr (fun _ => Iff.rfl)
        fun a ha => Process.moves_mem hspare ha
    exact wp_mono hstopped.reenable fun _ _ h₂ => ⟨fun _ => h₂, fun _ => h₂⟩

theorem Sys.Overlaid.cmdBreak (target : CStr) (h : s.Overlaid arch fault code orig) :
    wp (cmdBreak target) (fun _ s' => s'.Overlaid arch fault code orig) s := by
  rw [Debugger.cmdBreak, wp_bind, wp_get]
  dsimp only
  cases resolveBreak s.dbg target with
  | none => exact h
  | some addr =>
    dsimp only
    rw [wp_ite]
    refine ⟨fun _ => h, fun _ => ?_⟩
    rw [wp_bind]
    refine wp_cdbgBpEnable (fun bp' s₁ hq _ _ => ?_) fun p s₁ hp hq => ?_
    · have h₁ := h.of_quiet hq
      obtain ⟨n, rfl⟩ := hq
      show wp (if (-1 : Int) ≠ 0 then _ else _) _ _
      rw [wp_ite]
      exact ⟨fun _ => h₁, fun h => absurd neg_one_ne h⟩
    · show wp (if (0 : Int) ≠ 0 then _ else _) _ _
      rw [wp_ite]
      refine ⟨fun h => absurd rfl h, fun _ => ?_⟩
      have hold : Prog.Overlaid (trapByte arch) orig p.mem code (Laid (s.dbg.breakpoints ++ [])) := by
        rw [List.append_nil]
        exact h.mem p (Sys.process_eq_some.mp hp).1
      have hnew := @Laid.enable _ _ _ _ _ _ ⟨addr, p.mem addr, true, snprintf specSize target⟩
        hold rfl rfl
      rw [h.traced.arch] at hq
      have h₁ := (h.wrote hp hnew).of_quiet hq
      obtain ⟨n, rfl⟩ := hq
      rw [wp_bind, wp_setBreakpoints]
      exact h₁.withDbg ⟨rfl, rfl⟩

theorem OverlaidBy.erased {i : ℕ}
    (h : OverlaidBy arch fault code orig (s.dbg.breakpoints.eraseIdx i) s) :
    (s.erased i).Overlaid arch fault code orig :=
  h.withDbg (d := { s.dbg with breakpoints := s.dbg.breakpoints.eraseIdx i }) ⟨rfl, rfl⟩

theorem Sys.Overlaid.deleteAt {i : ℕ} (h : s.Overlaid arch fault code orig)
    (hsafe : DisableSafe arch s.dbg.breakpoints i) :
    wp (deleteBreakpointAt i) (fun rc s' => s'.Overlaid arch fault code orig ∧
      (rc = 0 → s'.dbg.breakpoints = s.dbg.breakpoints.eraseIdx i)) s := by
  refine wp_deleteBreakpointAt (fun s₁ hq _ => ?_) (fun bp hbp hoff => ?_)
    fun bp p s₁ hbp hon hp hq => ?_
  · have h₁ := h.of_quiet hq
    obtain ⟨n, rfl⟩ := hq
    exact ⟨h₁, fun h => absurd h neg_one_ne⟩
  · refine ⟨OverlaidBy.erased ⟨h.traced, h.spares, fun p hp => ?_⟩, fun _ => rfl⟩
    have hlive : s.dbg.live = true := h.traced.live fun hi =>
      absurd ((h.traced.idle.mp hi).symm.trans hp) (by simp)
    exact (h.mem p hp).congr (fun q => laid_erase_off hbp (hoff hlive)) fun _ _ => rfl
  · have hlift := Laid.disable (h.mem p (Sys.process_eq_some.mp hp).1) hbp hon hsafe
    obtain ⟨n, rfl⟩ := hq
    have herased := OverlaidBy.erased (s := s.wrote p bp.addr [bp.savedByte]) (h.wrote hp hlift)
    exact ⟨herased.of_quiet ⟨n, rfl⟩, fun _ => rfl⟩

theorem Sys.Overlaid.cmdDel (args : Option CStr) (h : s.Overlaid arch fault code orig)
    (hsafe : ∀ text order, args = some text → deletionOrder s.dbg.breakpoints.length
      (fun xs n => xs ++ [n]) (trimSpace text) = some order →
      DeletesSafely arch s.dbg.breakpoints order) :
    wp (cmdDel args) (fun _ s' => s'.Overlaid arch fault code orig) s := by
  refine wp_cmdDel (J := fun rest s' => s'.Overlaid arch fault code orig ∧
    DeletesSafely arch s'.dbg.breakpoints rest) (fun _ => h)
    (fun text order htext horder => ⟨h, hsafe text order htext horder⟩)
    (fun i rest s₁ hbelow h₁ => ?_) fun _ h' => h'.1
  refine wp_mono (h₁.1.deleteAt (h₁.2.head hbelow)) fun rc s₂ h₂ => ⟨fun hrc => ⟨h₂.1, ?_⟩,
    fun _ => h₂.1⟩
  rw [h₂.2 hrc]
  exact h₁.2.erase hbelow

theorem Process.ids_mapThread {p : Process} {tid : UInt64} {f : Thread → Thread}
    (hf : ∀ t, (f t).tid = t.tid) : (p.mapThread tid f).ids = p.ids := by
  rw [Process.ids, Process.mapThread_tids hf]
  rfl

/-- Handling a breakpoint hit whose entry is safe to take out. -/
theorem Sys.Overlaid.handleHit {i : ℕ} {bp : Breakpoint} {p : Process} {t : Thread}
    (h : s.Overlaid arch fault code orig) (hbp : s.dbg.breakpoints[i]? = some bp)
    (hon : bp.enabled = true) (hp : s.process s.dbg.pid = some p)
    (ht : p.thread s.dbg.currentTid = some t) :
    wp (handleBreakpointHit i) (fun _ s' => (∀ d q j, .hit d q j ∈ s'.log →
      DisableSafe arch d.breakpoints j) → s'.Overlaid arch fault code orig) s := by
  have hproc := (Sys.process_eq_some.mp hp).1
  have hhandled : DisableSafe arch s.dbg.breakpoints i →
      (s.handled p i bp).Overlaid arch fault code orig := fun hsafe => by
    refine ⟨Sys.Traced.of_progress ?_ h.traced, h.spares, fun q hq => ?_⟩
    · simp only [Sys.progress, Sys.handled, hproc, Option.map_some]
      rfl
    · obtain rfl := Option.some.inj hq
      exact (Laid.disable (h.mem p hproc) hbp hon hsafe).congr (fun q => laid_set_off hbp)
        fun _ _ => rfl
  refine wp_handleBreakpointHit hbp hon hp ht (fun s₁ hq _ => ?_) (fun rc regs s₁ hq _ => ?_)
    fun s₁ _ hq => ?_
  · obtain ⟨n, rfl⟩ := hq
    exact fun _ => ⟨Sys.Traced.of_progress (s := s) rfl h.traced, h.spares, h.mem⟩
  · obtain ⟨n, rfl⟩ := hq
    intro hlog
    have hsafe := hlog s.dbg p i (List.mem_cons_of_mem _ List.mem_cons_self)
    have hcached := OverlaidBy.withDbg (d := { (s.handled p i bp).dbg with regs := regs })
      (hhandled hsafe) ⟨rfl, rfl⟩
    exact hcached.of_quiet ⟨n, rfl⟩
  · obtain ⟨n, rfl⟩ := hq
    intro hlog
    have hsafe := hlog s.dbg p i (List.mem_cons_of_mem _ List.mem_cons_self)
    have hmap := hhandled hsafe
    have hrewound : ((s.handled p i bp).rewound t).Overlaid arch fault code orig := by
      refine ⟨Sys.Traced.of_progress ?_ hmap.traced, hmap.spares, fun q hq => ?_⟩
      · simp only [Sys.progress, Sys.rewound, Sys.handled, Option.map_some]
        rw [Process.ids_mapThread (f := fun u => { u with regs := t.regs.setPc (t.regs.pc - 1) })
          fun _ => rfl]
        rfl
      · obtain rfl := Option.some.inj hq
        exact hmap.mem { p with mem := Function.update p.mem bp.addr bp.savedByte } rfl
    exact OverlaidBy.of_quiet hrewound ⟨n, rfl⟩

theorem Sys.Overlaid.report (h : s.Overlaid arch fault code orig) :
    wp reportStop (fun _ s' => (∀ d q j, .hit d q j ∈ s'.log →
      DisableSafe arch d.breakpoints j) → s'.Overlaid arch fault code orig) s := by
  rw [reportStop, wp_bind]
  refine wp_mono (resyncWatchpointsToAllThreads_keeps s) fun _ s₁ hv₁ => ?_
  replace hv₁ := Sys.sansWatches_of_sansSlots hv₁
  have h₁ : s₁.Overlaid arch fault code orig := by
    rw [Sys.Overlaid, show s₁.dbg.breakpoints = s.dbg.breakpoints from
      congrArg (·.dbg.breakpoints) hv₁]
    exact OverlaidBy.of_sansWatches hv₁ h
  rw [wp_bind]
  have hswitch : wp switchCurrentTidToBreakpointHit
      (fun _ s' => s'.Overlaid arch fault code orig) s₁ := by
    refine wp_switchCurrentTidToBreakpointHit (fun s₂ hq _ => ?_) fun p before j after t s₂ _ _ _ _ hq => ?_
    · have h₂ := h₁.of_quiet hq
      obtain ⟨n, rfl⟩ := hq
      exact h₂
    · obtain ⟨n, rfl⟩ := hq
      have hselected := OverlaidBy.withDbg
        (d := { s₁.dbg with currentTid := j.selector }) h₁ ⟨rfl, rfl⟩
      exact hselected.of_quiet ⟨n, rfl⟩
  refine wp_mono hswitch fun _ s₂ h₂ => ?_
  refine wp_reportSelected (fun s₃ hq _ _ => ?_) (fun p t s₃ _ _ _ hv _ => ?_)
    fun p t i bp s₃ hp ht _ hbp hmatch hq => ?_
  · have h₃ := h₂.of_quiet hq
    obtain ⟨n, rfl⟩ := hq
    exact h₃
  · rw [Sys.Overlaid, show s₃.dbg.breakpoints = s₂.dbg.breakpoints from
      congrArg (·.dbg.breakpoints) hv]
    exact OverlaidBy.of_sansWatches hv (OverlaidBy.withDbg h₂ ⟨rfl, rfl⟩)
  · have h₃ := OverlaidBy.of_quiet (OverlaidBy.withDbg h₂ (d := { s₂.dbg with regs := t.regs })
      ⟨rfl, rfl⟩) hq
    obtain ⟨n, rfl⟩ := hq
    have hon : bp.enabled = true := by
      simp only [cdbgBpMatchesPc, Bool.and_eq_true] at hmatch
      exact hmatch.1
    exact Sys.Overlaid.handleHit (p := p) (t := t) h₃ hbp hon hp ht

/-! ### Runs -/

/-- What acts on table and memory: the commands `break` and `del`, resuming the debuggee,
waiting for it and reporting its stop. -/
inductive TableOp
  | breakTok (target : CStr)
  | delTok (args : Option CStr)
  | resume (kind : Resume)
  | wait
  | report

def TableOp.run : TableOp → DbgM Int
  | .breakTok target => Debugger.cmdBreak target
  | .delTok args => Debugger.cmdDel args
  | .resume kind => do
    let s ← get
    if (← ptraceResume kind s.dbg.pid) ≠ 0 then return -1
    setState .running
    return 0
  | .wait => cdbgWait
  | .report => reportStop

/-- Every entry the operation takes out is safe to take out. -/
def TableOp.Safe (arch : Arch) : TableOp → Sys → Sys → Prop
  | .delTok args, s, _ => ∀ text order, args = some text →
      deletionOrder s.dbg.breakpoints.length (fun xs n => xs ++ [n]) (trimSpace text) =
        some order → DeletesSafely arch s.dbg.breakpoints order
  | .report, _, s' => ∀ d q j, .hit d q j ∈ s'.log → DisableSafe arch d.breakpoints j
  | _, _, _ => True

/-- The states reached from `s₀` by operations that all meet the condition `ok`. -/
inductive TableRuns (ok : TableOp → Sys → Sys → Prop) (s₀ : Sys) : Sys → Prop
  | start : TableRuns ok s₀ s₀
  | op {s : Sys} {o : TableOp} (h : TableRuns ok s₀ s) (hok : ok o s (o.run.run s.unlogged).2) :
      TableRuns ok s₀ (o.run.run s.unlogged).2

theorem Sys.Overlaid.unlogged (h : s.Overlaid arch fault code orig) :
    s.unlogged.Overlaid arch fault code orig := ⟨h.traced.unlogged, h.spares, h.mem⟩

/-- Every operation keeps memory and table in agreement. -/
theorem Sys.Overlaid.op {o : TableOp} (h : s.Overlaid arch fault code orig)
    (hsafe : o.Safe arch s (o.run.run s).2) :
    wp o.run (fun _ s' => s'.Overlaid arch fault code orig) s := by
  cases o with
  | breakTok target => exact h.cmdBreak target
  | delTok args => exact h.cmdDel args hsafe
  | resume kind =>
    rw [TableOp.run, wp_bind, wp_get]
    refine wp_resumeRunning (fun s₁ hq _ => ?_) fun p s₁ hp hq => ?_
    · have h₁ := h.of_quiet hq
      obtain ⟨n, rfl⟩ := hq
      exact h₁
    · have ht := h.traced.resumedAs hp hq
      obtain ⟨n, rfl⟩ := hq
      refine ⟨ht, h.spares, fun q hq => ?_⟩
      obtain rfl := Option.some.inj hq
      exact h.mem p (Sys.process_eq_some.mp hp).1
  | wait => exact h.wait
  | report => exact h.report hsafe

/-- The agreement in every state of a run whose operations take out only entries that are
safe to take out. -/
theorem TableRuns.overlaid {s₀ : Sys} (h : TableRuns (TableOp.Safe arch) s₀ s)
    (h₀ : s₀.Overlaid arch fault code orig) : s.Overlaid arch fault code orig := by
  induction h with
  | start => exact h₀
  | @op s o _ hok ih =>
    have hsafe : o.Safe arch s.unlogged (o.run.run s.unlogged).2 := by
      cases o <;> exact hok
    exact ih.unlogged.op hsafe

end Agreement

/-- Memory shows the trap byte at the enabled entries and the program's own bytes elsewhere,
in every state reached by operations that take out only entries that are safe to take out. -/
theorem overlay_of_runs {arch : Arch} {fault : KCall → ℕ → Bool} {code : Addr → Prop} {orig : Mem}
    {s₀ s : Sys} (ht : s₀.Traced arch fault) (hempty : s₀.dbg.breakpoints = [])
    (hown : ∀ p, s₀.os.proc = some p → ∀ a, code a → p.mem a = orig a)
    (hspares : ∀ n, (s₀.os.events n).Spares code)
    (h : TableRuns (TableOp.Safe arch) s₀ s) {p : Process} (hp : s.os.proc = some p) {a : Addr}
    (ha : code a) :
    ((∃ bp ∈ s.dbg.breakpoints, bp.enabled = true ∧ bp.addr = a) → p.mem a = trapByte arch) ∧
      ((¬ ∃ bp ∈ s.dbg.breakpoints, bp.enabled = true ∧ bp.addr = a) → p.mem a = orig a) := by
  have hclear : s₀.Overlaid arch fault code orig := by
    refine ⟨ht, hspares, fun p hp => .of_clear (fun q => ?_) (hown p hp)⟩
    rw [hempty, Laid]
    simp
  have hshows := ((h.overlaid hclear).mem p hp).shows ha
  have hlaid : (∃ q, Laid s.dbg.breakpoints q ∧ q.1 = a) ↔
      ∃ bp ∈ s.dbg.breakpoints, bp.enabled = true ∧ bp.addr = a := by
    constructor
    · rintro ⟨q, ⟨bp, hbp, hon, rfl⟩, hqa⟩
      exact ⟨bp, hbp, hon, hqa⟩
    · rintro ⟨bp, hbp, hon, haddr⟩
      exact ⟨_, ⟨bp, hbp, hon, rfl⟩, haddr⟩
  rwa [hlaid] at hshows

/-- After `break 0x1000` twice, `del 0` shows the original byte under the entry that is still
enabled, and deleting that entry, too, leaves its trap byte behind. -/
theorem overlay_lost_after_del :
    let s₀ := Sys.attached .x86_64 twoThreads fun _ => .stopped 5 []
    ∃ s s', TableRuns (fun _ _ _ => True) s₀ s ∧ TableRuns (fun _ _ _ => True) s₀ s' ∧
      (∃ bp ∈ s.dbg.breakpoints, bp.enabled = true ∧ bp.addr = 0x1000) ∧
      s.os.proc.map (·.mem 0x1000) ≠ some 0xcc ∧
      s'.dbg.breakpoints = [] ∧ s'.os.proc.map (·.mem 0x1000) ≠ some (twoThreads.mem 0x1000) := by
  let s₀ := Sys.attached .x86_64 twoThreads fun _ => .stopped 5 []
  let after (o : TableOp) (s : Sys) : Sys := (o.run.run s.unlogged).2
  let s₁ := after (.breakTok "0x1000".toList) s₀
  let s₂ := after (.breakTok "0x1000".toList) s₁
  let s₃ := after (.delTok (some "0".toList)) s₂
  let s₄ := after (.delTok (some "0".toList)) s₃
  have h₃ : TableRuns (fun _ _ _ => True) s₀ s₃ := .op (.op (.op .start trivial) trivial) trivial
  refine ⟨s₃, s₄, h₃, .op h₃ trivial, ?_⟩
  decide +kernel

/-- One breakpoint, set and deleted. -/
theorem overlay_of_runs_break_del :
    let s₀ := Sys.attached .x86_64 twoThreads fun _ => .stopped 5 []
    let s₁ := ((TableOp.breakTok "0x1000".toList).run.run s₀.unlogged).2
    let s₂ := ((TableOp.delTok (some "all".toList)).run.run s₁.unlogged).2
    s₂.os.proc.map (·.mem 0x1000) = some 0x90 := by
  intro s₀ s₁ s₂
  have htraced : s₀.Traced .x86_64 s₀.os.fault := by
    refine ⟨rfl, rfl, fun p hp => ?_, by decide⟩
    obtain rfl := Option.some.inj hp
    exact ⟨twoThreads_wellFormed, rfl, by decide⟩
  have hown : ∀ p, s₀.os.proc = some p → ∀ a, True → p.mem a = 0x90 := fun p hp a _ => by
    obtain rfl := Option.some.inj hp
    rfl
  have hspares : ∀ n, (s₀.os.events n).Spares fun _ => True := fun n m hm =>
    absurd hm List.not_mem_nil
  have hsafe : TableOp.Safe .x86_64 (.delTok (some "all".toList)) s₁ s₂ := by
    intro text order htext horder i hi bp hbp _
    refine .inr fun j bp' hj hbp' => ?_
    have hlen : s₁.dbg.breakpoints.length = 1 := by decide +kernel
    have hi' := (List.getElem?_eq_some_iff.mp hbp).1
    have hj' := (List.getElem?_eq_some_iff.mp hbp').1
    omega
  have hruns : TableRuns (TableOp.Safe .x86_64) s₀ s₂ :=
    .op (s := s₁) (.op (s := s₀) (o := .breakTok "0x1000".toList) .start trivial) hsafe
  have hproc : s₂.os.proc.isSome = true := by decide +kernel
  have hnone : s₂.dbg.breakpoints = [] := by decide +kernel
  clear_value s₂
  obtain ⟨p, hp⟩ := Option.isSome_iff_exists.mp hproc
  have hmem := (overlay_of_runs (a := 0x1000) htraced rfl hown hspares hruns hp trivial).2
    (by simp [hnone])
  rw [hp, Option.map_some, hmem]

end Debugger
