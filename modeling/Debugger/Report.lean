/-
The rules of `report_stop`: what its outcome depends on (`Sys.scene`), and which thread
it selects.
-/
import Debugger.Prompt

open Prog

namespace Debugger

/-! ### Where the threads stand -/

namespace Process

variable {p p' : Process} {f : Thread → Thread}

/-- The ids and registers of the threads. -/
def places (p : Process) : List (UInt64 × Regs) := p.threads.map fun t => (t.tid, t.regs)

theorem places_eachThread (hf : ∀ t, (f t).tid = t.tid ∧ (f t).regs = t.regs) :
    (p.eachThread f).places = p.places := by
  rw [places, eachThread, List.map_map]
  refine List.map_congr_left fun t _ => ?_
  rw [Function.comp_apply, (hf t).1, (hf t).2]

theorem tids_of_places (h : p'.places = p.places) :
    p'.threads.map (·.tid) = p.threads.map (·.tid) := by
  have hfst := congrArg (List.map Prod.fst) h
  rwa [places, places, List.map_map, List.map_map] at hfst

theorem threadInfos_of_tids (h : p'.threads.map (·.tid) = p.threads.map (·.tid)) :
    p'.threadInfos = p.threadInfos := by
  have hinfos : ∀ q : Process, q.threadInfos = match q.threads.map (·.tid) with
      | [] => []
      | tid :: tids => { tid := tid, isPrimary := true } ::
          tids.map fun u => { tid := u, isPrimary := false } := by
    intro q
    rw [threadInfos]
    cases q.threads with
    | nil => rfl
    | cons t ts => simp
  rw [hinfos, hinfos, h]

/-- An id names threads with the same id and registers on both sides. -/
theorem thread_map_of_places (h : p'.places = p.places) (tid : UInt64) :
    (p'.thread tid).map (fun t => (t.tid, t.regs)) =
      (p.thread tid).map fun t => (t.tid, t.regs) := by
  rw [thread, thread]
  split
  · rw [primary, primary, ← List.head?_map, ← List.head?_map]
    exact congrArg List.head? h
  · exact find?_of_map_eq (q := fun x => decide (x.1 = tid)) h

theorem thread_of_places (h : p'.places = p.places) {tid : UInt64} {t' : Thread}
    (ht : p'.thread tid = some t') :
    ∃ t, p.thread tid = some t ∧ t.tid = t'.tid ∧ t.regs = t'.regs := by
  have hmap := thread_map_of_places h tid
  rw [ht, Option.map_some] at hmap
  obtain ⟨t, ht, heq⟩ := Option.map_eq_some_iff.mp hmap.symm
  obtain ⟨h1, h2⟩ := Prod.mk.inj heq
  exact ⟨t, ht, h1, h2⟩

theorem mem_of_thread {tid : UInt64} {t : Thread} (h : p.thread tid = some t) :
    t ∈ p.threads := by
  rw [thread] at h
  split at h
  · exact List.mem_of_mem_head? h
  · exact List.mem_of_find?_eq_some h

/-- A change of the thread an id names, seen through the id. -/
theorem thread_mapThread {tid : UInt64} {t : Thread} {f : Thread → Thread}
    (hf : ∀ u, (f u).tid = u.tid) (h : p.thread tid = some t) :
    (p.mapThread t.tid f).thread tid = some (f t) := by
  rw [thread] at h ⊢
  by_cases htid : tid = 0
  · rw [if_pos htid, primary] at h
    rw [if_pos htid, primary, mapThread, List.head?_map, h, Option.map_some, if_pos rfl]
  · rw [if_neg htid] at h
    have hcomp : (fun u : Thread => decide (u.tid = tid)) ∘
        (fun u => if u.tid = t.tid then f u else u) = fun u => decide (u.tid = tid) := by
      funext u
      rw [Function.comp_apply]
      split
      · rw [hf]
      · rfl
    rw [if_neg htid, mapThread, List.find?_map, hcomp, h, Option.map_some, if_pos rfl]

end Process

/-- Where the threads of the debuggee stand. -/
def Sys.places (s : Sys) : Option (List (UInt64 × Regs)) := s.os.proc.map Process.places

/-! ### The scene of a stop -/

section Scene

variable {s s' : Sys}

/-- Everything a thread switch and a single step depend on. -/
def Sys.scene (s : Sys) :
    Arch × List Obs × Option (List (UInt64 × Regs)) × UInt64 × List UInt64 × List Breakpoint :=
  (s.os.arch, s.runLog, s.places, s.dbg.currentTid, s.dbg.lockedOut,
    s.dbg.breakpoints.map Breakpoint.place)

theorem Sys.scene_sansPatches (s : Sys) : s.sansPatches.scene = s.scene := by
  have hlog : (s.log.filter (!·.isWrite)).filter Obs.isRun = s.log.filter Obs.isRun := by
    rw [List.filter_filter]
    refine List.filter_congr fun o _ => ?_
    cases o <;> rfl
  have hbps : (s.dbg.breakpoints.map Breakpoint.place).map Breakpoint.place =
      s.dbg.breakpoints.map Breakpoint.place := by
    rw [List.map_map]
    rfl
  have hplaces : s.sansPatches.places = s.places := by
    rw [places, places, sansPatches, sansProc, Option.map_map]
    rfl
  simp only [scene, hplaces]
  simp only [runLog, sansPatches, sansProc, hlog, hbps]
  rfl

theorem Sys.scene_sansProc {f : Thread → Thread} (s : Sys)
    (hf : ∀ t, (f t).tid = t.tid ∧ (f t).regs = t.regs) :
    (s.sansProc (·.eachThread f)).scene = s.scene := by
  have hplaces : (s.sansProc (·.eachThread f)).places = s.places := by
    rw [places, places, sansProc, Option.map_map]
    refine congrArg (Option.map · s.os.proc) (funext fun p => ?_)
    exact Process.places_eachThread hf
  simp only [scene, hplaces]
  rfl

theorem Sys.scene_of_sansPatches (h : s'.sansPatches = s.sansPatches) : s'.scene = s.scene := by
  rw [← s'.scene_sansPatches, h, s.scene_sansPatches]

theorem keepsScene_of_sansPatches {α : Type} {m : DbgM α} (h : Keeps Sys.sansPatches m) :
    Keeps Sys.scene m := h.mono fun _ _ => Sys.scene_of_sansPatches

theorem keepsScene_of_sansSlots {α : Type} {m : DbgM α} (h : Keeps Sys.sansSlots m) :
    Keeps Sys.scene m := h.mono fun s s' h => by
  rw [← s'.scene_sansProc (f := fun t => { t with dr := fun _ => none }) fun _ => ⟨rfl, rfl⟩,
    ← s.scene_sansProc (f := fun t => { t with dr := fun _ => none }) fun _ => ⟨rfl, rfl⟩]
  exact congrArg Sys.scene h

theorem Sys.scene_of_sansHolds (h : s'.sansHolds = s.sansHolds) : s'.scene = s.scene := by
  rw [← s'.scene_sansProc (f := fun t => { t with suspendCount := 0 }) fun _ => ⟨rfl, rfl⟩,
    ← s.scene_sansProc (f := fun t => { t with suspendCount := 0 }) fun _ => ⟨rfl, rfl⟩]
  exact congrArg Sys.scene h

theorem keepsScene_of_sansHolds {α : Type} {m : DbgM α} (h : Keeps Sys.sansHolds m) :
    Keeps Sys.scene m := h.mono fun _ _ => Sys.scene_of_sansHolds

theorem Sys.scene_of_quiet (h : s.Quiet s') : s'.scene = s.scene := by
  obtain ⟨n, rfl⟩ := h
  rfl

/-- The processes on both sides of a change that keeps the scene. -/
theorem Sys.proc_of_scene (h : s'.scene = s.scene) {p' : Process} (hp' : s'.os.proc = some p') :
    ∃ p, s.os.proc = some p ∧ p'.places = p.places := by
  have hplaces : s'.os.proc.map Process.places = s.os.proc.map Process.places :=
    congrArg (·.2.2.1) h
  rw [hp', Option.map_some] at hplaces
  obtain ⟨p, hp, heq⟩ := Option.map_eq_some_iff.mp hplaces.symm
  exact ⟨p, hp, heq.symm⟩

end Scene

/-! ### Selecting a thread -/

section Switch

variable {s : Sys} {Q : PUnit → Sys → Prop}

/-- The pc of the thread an entry of the thread list names is at a trap. -/
def Sys.TrappedAt (s : Sys) (p : Process) (info : ThreadInfo) (t : Thread) : Prop :=
  p.thread info.selector = some t ∧ cdbgBpIsTrap s.os.arch t.regs.pc s.dbg.breakpoints = true

theorem wp_switchLoop {pid : ℕ} {infos : List ThreadInfo}
    (hstay : ∀ s', s.Quiet s' → (s.Reliable .regsGet → ∀ p, s.process pid = some p →
      ∀ i ∈ infos, ∀ t, ¬ s.TrappedAt p i t) → Q ⟨⟩ s')
    (hswitch : ∀ p before i after t s', infos = before ++ i :: after → s.process pid = some p →
      s.TrappedAt p i t → (s.Reliable .regsGet → ∀ j ∈ before, ∀ u, ¬ s.TrappedAt p j u) →
      (s.withDbg { s.dbg with currentTid := i.selector }).Quiet s' → Q ⟨⟩ s') :
    wp (switchLoop pid infos) Q s := by
  induction infos generalizing s with
  | nil => exact hstay s (.refl s) fun _ _ _ _ hi => absurd hi (by simp)
  | cons i rest ih =>
    have hnext : ∀ s₁, s.Quiet s₁ → (s.Reliable .regsGet → ∀ p, s.process pid = some p →
        ∀ t, ¬ s.TrappedAt p i t) → wp (switchLoop pid rest) Q s₁ := by
      rintro s₁ ⟨n, rfl⟩ hno
      refine ih (fun s' hq hrest => hstay s' (Sys.Quiet.trans ⟨n, rfl⟩ hq) fun hr p hp j hj => ?_)
        fun p before j after t s' hinfos hp ht hbefore hq => ?_
      · rcases List.mem_cons.mp hj with rfl | hj
        · exact hno hr p hp
        · exact hrest hr p hp j hj
      · obtain ⟨m, rfl⟩ := hq
        refine hswitch p (i :: before) j after t _ (by rw [hinfos]; rfl) hp ht
          (fun hr k hk => ?_) ⟨m, rfl⟩
        rcases List.mem_cons.mp hk with rfl | hk
        · exact hno hr p hp
        · exact hbefore hr k hk
    rw [switchLoop, wp_bind]
    refine wp_cdbgRegsGet (fun s₁ hq hnone => hnext s₁ hq fun hr p hp t ht => ?_)
      fun p t s₁ hp ht hq => ?_
    · exact absurd ((hnone hr p hp).symm.trans ht.1) (by simp)
    · dsimp only
      rw [wp_bind, wp_get, wp_ite]
      refine ⟨fun htrap => ?_, fun htrap => hnext s₁ hq fun _ q hq' u hu => ?_⟩
      · obtain ⟨n, rfl⟩ := hq
        exact hswitch p [] i rest t _ rfl hp ⟨ht, htrap⟩ (fun _ j hj => absurd hj (by simp))
          ⟨n, rfl⟩
      · obtain ⟨n, rfl⟩ := hq
        obtain rfl := Option.some.inj (hp.symm.trans hq')
        obtain rfl := Option.some.inj (ht.symm.trans hu.1)
        exact htrap hu.2

/-- `switch_current_tid_to_breakpoint_hit` selects the first listed thread that stands at
the trap of an enabled breakpoint. -/
theorem wp_switchCurrentTidToBreakpointHit
    (hstay : ∀ s', s.Quiet s' → (s.Reliable .regsGet → s.Reliable .taskThreads →
      ∀ p, s.process s.dbg.pid = some p → ∀ i ∈ p.threadInfos.take maxThreads, ∀ t,
        ¬ s.TrappedAt p i t) → Q ⟨⟩ s')
    (hswitch : ∀ p before i after t s', p.threadInfos.take maxThreads = before ++ i :: after →
      s.process s.dbg.pid = some p → s.TrappedAt p i t →
      (s.Reliable .regsGet → ∀ j ∈ before, ∀ u, ¬ s.TrappedAt p j u) →
      (s.withDbg { s.dbg with currentTid := i.selector }).Quiet s' → Q ⟨⟩ s') :
    wp switchCurrentTidToBreakpointHit Q s := by
  rw [switchCurrentTidToBreakpointHit, wp_bind, wp_get, wp_ite]
  refine ⟨fun hnil => hstay s (.refl s) fun _ _ p _ i _ t ht => ?_, fun _ => ?_⟩
  · rw [Sys.TrappedAt, hnil] at ht
    exact absurd ht.2 (by simp [cdbgBpIsTrap])
  · rw [wp_bind]
    refine wp_cdbgThreadsList (fun s' hq hnone => hstay s' hq fun _ hr p hp => ?_)
      fun p s' hp hq => ?_
    · rw [hnone hr] at hp
      exact absurd hp (by simp)
    · obtain ⟨n, rfl⟩ := hq
      refine wp_switchLoop (fun s' hq hno => hstay s' (Sys.Quiet.trans ⟨n, rfl⟩ hq)
        fun hr _ q hq => ?_) fun q before i after t s' hinfos hq ht hbefore hs' => ?_
      · obtain rfl := Option.some.inj (hp.symm.trans hq)
        exact hno hr p hp
      · obtain rfl := Option.some.inj (hp.symm.trans hq)
        obtain ⟨m, rfl⟩ := hs'
        exact hswitch p before i after t _ hinfos hp ht hbefore ⟨m, rfl⟩

end Switch

/-! ### The selected thread -/

section Selection

/-- The selected thread. -/
def Sys.selection (s : Sys) : UInt64 := s.dbg.currentTid

theorem Sys.selection_of_sansPatches {s s' : Sys} (h : s'.sansPatches = s.sansPatches) :
    s'.selection = s.selection := congrArg (·.dbg.currentTid) h

theorem Sys.selection_of_sansHits {s s' : Sys} (h : s'.sansHits = s.sansHits) :
    s'.selection = s.selection := congrArg (·.dbg.currentTid) h

end Selection

end Debugger
