/-
The debugger and the operating system agree on the debuggee.

`Sys.Traced` is the part of the state all later invariants rest on: the process, when
there is one, is well formed and carries the debugger's pid, and the debugger is idle
exactly when there is none.  Every command but `run` and `kill` keeps it
(`Reaches.traced`).
-/
import Debugger.Prompt

open Prog

namespace Debugger

/-- The debugger traces the one process of the system, on the given architecture and with
the given failures of kernel calls. -/
structure Sys.Traced (arch : Arch) (fault : KCall → ℕ → Bool) (s : Sys) : Prop where
  arch : s.os.arch = arch
  fault : s.os.fault = fault
  proc : ∀ p, s.os.proc = some p → p.WellFormed ∧ p.pid = s.dbg.pid ∧ 0 < p.pid
  idle : s.dbg.state = .idle ↔ s.os.proc = none

section Traced

variable {arch : Arch} {fault : KCall → ℕ → Bool} {s s' : Sys}

theorem Sys.Traced.reliable (h : s.Traced arch fault) {c : KCall} (hc : ∀ n, fault c n = false) :
    s.Reliable c := fun n => by rw [h.fault]; exact hc n

/-- The process, at a moment when the debugger is not idle. -/
theorem Sys.Traced.process (h : s.Traced arch fault) (hst : s.dbg.state ≠ .idle) :
    ∃ p, s.os.proc = some p ∧ s.process s.dbg.pid = some p := by
  obtain ⟨p, hp⟩ := Option.ne_none_iff_exists'.mp fun hn => hst (h.idle.mpr hn)
  exact ⟨p, hp, Sys.process_eq_some.mpr ⟨hp, (h.proc p hp).2.1⟩⟩

theorem Sys.Traced.live (h : s.Traced arch fault) (hst : s.dbg.state ≠ .idle) :
    s.dbg.live = true := by
  obtain ⟨p, hp, -⟩ := h.process hst
  obtain ⟨-, hpid, hpos⟩ := h.proc p hp
  simp [Cdbg.live, ← hpid, hpos, hst]

theorem Sys.Traced.of_progress (hv : s'.progress = s.progress) (h : s.Traced arch fault) :
    s'.Traced arch fault := by
  have hids : s'.os.proc.map Process.ids = s.os.proc.map Process.ids := congrArg Progress.ids hv
  have hpid : s'.dbg.pid = s.dbg.pid := congrArg Progress.pid hv
  have hstate : s'.dbg.state = s.dbg.state := congrArg Progress.state hv
  refine ⟨(congrArg Progress.arch hv).trans h.arch, (congrArg Progress.fault hv).trans h.fault,
    fun p' hp' => ?_, ?_⟩
  · rw [hp', Option.map_some] at hids
    obtain ⟨p, hp, heq⟩ := Option.map_eq_some_iff.mp hids.symm
    obtain ⟨hwf, hid, hpos⟩ := h.proc p hp
    have hpid' : p.pid = p'.pid := congrArg Prod.fst heq
    refine ⟨Process.wellFormed_of_tids (congrArg (·.2.2) heq).symm (congrArg (·.2.1) heq).symm hwf,
      ?_, hpid' ▸ hpos⟩
    rw [← hpid', hid, hpid]
  · rw [hstate, h.idle]
    rw [← Option.map_eq_none_iff (f := Process.ids), ← hids, Option.map_eq_none_iff]

theorem Sys.Traced.keeps {α : Type} {m : DbgM α} (hm : Keeps Sys.progress m)
    (h : s.Traced arch fault) : wp m (fun _ s' => s'.Traced arch fault) s :=
  wp_mono (hm s) fun _ _ hv => h.of_progress hv

theorem Sys.Traced.of_quiet (h : s.Traced arch fault) (hq : s.Quiet s') : s'.Traced arch fault := by
  obtain ⟨n, rfl⟩ := hq
  exact ⟨h.arch, h.fault, h.proc, h.idle⟩

theorem Sys.Traced.resumedAs {kind : Resume} {p : Process} (h : s.Traced arch fault)
    (hp : s.process s.dbg.pid = some p) (hq : (s.resumedAs kind p).Quiet s') :
    s'.Traced arch fault := by
  obtain ⟨n, rfl⟩ := hq
  obtain ⟨hwf, hpid, hpos⟩ := h.proc p (Sys.process_eq_some.mp hp).1
  refine ⟨h.arch, h.fault, fun q hq => ?_, by simp [Sys.resumedAs]⟩
  obtain rfl := Option.some.inj hq
  exact ⟨hwf.resumed, hpid, hpos⟩

theorem Sys.Traced.stoppedBy {p : Process} {sig : ℕ} {ms : List Move} (h : s.Traced arch fault)
    (hp : s.process s.dbg.pid = some p) (hq : (s.stoppedBy p sig ms).Quiet s') :
    s'.Traced arch fault := by
  obtain ⟨n, rfl⟩ := hq
  obtain ⟨hwf, hpid, hpos⟩ := h.proc p (Sys.process_eq_some.mp hp).1
  refine ⟨h.arch, h.fault, fun q hq => ?_, by simp [Sys.stoppedBy]⟩
  obtain rfl := Option.some.inj hq
  refine ⟨?_, (Process.moves_pid ms).trans hpid, (Process.moves_pid ms).symm ▸ hpos⟩
  exact Process.moves_induct (fun q m _ hq => hq.move m) hwf

theorem Sys.Traced.ended (h : s.Traced arch fault) (he : s.Ended s') : s'.Traced arch fault := by
  obtain ⟨status, waits, calls, rfl⟩ := he
  exact ⟨h.arch, h.fault, fun p hp => absurd hp (by simp), by simp⟩

theorem Sys.Traced.of_sansReports (hv : s'.sansReports = s.sansReports)
    (h : s.Traced arch fault) : s'.Traced arch fault :=
  h.of_progress (Sys.progress_of_sansReports hv)

theorem traced_invariant : Invariant (Sys.Traced arch fault) where
  patches h hv := h.of_sansReports (Sys.sansReports_of_sansPatches hv)
  holds h hv := h.of_progress (Sys.progress_of_sansHolds hv)
  regsSet pid tid regs h := h.keeps (keepsProgress_of_sansReports (cdbgRegsSet_keeps pid tid regs))
  resumed := Sys.Traced.resumedAs
  stopped h hp _ hq := h.stoppedBy hp hq
  ended := Sys.Traced.ended
  report h := h.keeps (keepsProgress_of_sansReports reportStop_keeps)
  watch i h := h.keeps (keepsProgress_of_sansReports (reportWatchpointHit_keeps i))
  exit hi h := ⟨h.arch, h.fault, fun p hp =>
    absurd ((h.idle.mp hi).symm.trans hp) (by simp), h.idle⟩

/-- Every command but `run` and `kill` keeps the agreement. -/
theorem Sys.Traced.exec {c : Command} (h : s.Traced arch fault) (hc : c.restarts = false)
    (hst : s.dbg.state ≠ .running) : wp (exec c) (fun _ s' => s'.Traced arch fault) s := by
  cases hr : c.resumes with
  | true => exact traced_invariant.resumes hr hst h
  | false => exact h.keeps (exec_progress hr hc)

theorem Sys.Traced.unlogged (h : s.Traced arch fault) : s.unlogged.Traced arch fault :=
  ⟨h.arch, h.fault, h.proc, h.idle⟩

theorem Reaches.traced {ok : Command → Sys → Sys → Prop} {s₀ : Sys} (h : Reaches ok s₀ s)
    (hok : ∀ c s s', ok c s s' → c.restarts = false) (hst : s₀.dbg.state ≠ .running)
    (h₀ : s₀.Traced arch fault) : s.Traced arch fault := by
  induction h with
  | start => exact h₀
  | @command s c hs hc hrc ih =>
    exact ih.unlogged.exec (hok _ _ _ hc) (hs.prompt hok hst)

end Traced

end Debugger
