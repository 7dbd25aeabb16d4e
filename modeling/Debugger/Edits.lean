/-
The commands that edit the tables and the lock.

`break`, `del`, `watch`, `unwatch`, `lock` and `unlock` look at the debuggee, write to it, and
change fields of the debugger other than the line table and the symbols.  A relation between
states that allows each of these (`AllowsEdits`) is obeyed by the commands, which is shown here
once for all such relations.
-/
import Debugger.Lib.Obeys
import Debugger.Prompt

open Prog

namespace Debugger

/-- What a relation allows if the commands that edit the tables and the lock obey it. -/
structure AllowsEdits (R : Sys → Sys → Prop) : Prop where
  calls : ∀ {α : Type} {m : DbgM α}, Keeps Sys.sansCalls m → Obeys R m
  slots : ∀ {α : Type} {m : DbgM α}, Keeps Sys.sansSlots m → Obeys R m
  holds : ∀ {α : Type} {m : DbgM α}, Keeps Sys.sansHolds m → Obeys R m
  refresh : Obeys R cdbgRefreshRegs
  enable : ∀ bp pid addr, Obeys R (cdbgBpEnable bp pid addr)
  disable : ∀ bp pid, Obeys R (cdbgBpDisable bp pid)
  edit : ∀ {f : Cdbg → Cdbg}, (∀ d, (f d).lineno = d.lineno ∧ (f d).syms = d.syms) →
    Obeys R (modifyDbg f)

section Deleting

variable {R : Sys → Sys → Prop} [IsPreorder Sys R]

theorem obeys_cmdDel (hdelete : ∀ i, Obeys R (deleteBreakpointAt i)) (args : Option CStr) :
    Obeys R (cmdDel args) := by
  refine Obeys.bind Obeys.get fun s => Obeys.ite (Obeys.pure _) ?_
  split
  · exact Obeys.pure _
  · exact Obeys.pure _
  · split
    · exact Obeys.pure _
    · exact Obeys.forUntil fun i _ => hdelete i

theorem obeys_cmdUnwatch (hdelete : ∀ i, Obeys R (deleteWatchpointAt i)) (args : Option CStr) :
    Obeys R (cmdUnwatch args) := by
  refine Obeys.bind Obeys.get fun s => Obeys.ite (Obeys.pure _) ?_
  split
  · exact Obeys.pure _
  · exact Obeys.pure _
  · split
    · exact Obeys.pure _
    · exact Obeys.forUntil fun i _ => hdelete i

end Deleting

section Editing

variable {R : Sys → Sys → Prop} [IsPreorder Sys R]

theorem obeys_cmdBreak (h : AllowsEdits R) (target : CStr) : Obeys R (cmdBreak target) := by
  refine Obeys.bind Obeys.get fun s => ?_
  split
  · exact Obeys.pure _
  · refine Obeys.ite (Obeys.pure _) (Obeys.bind (h.enable _ _ _) fun r => ?_)
    exact Obeys.ite (Obeys.pure _)
      (Obeys.bind (h.edit fun _ => ⟨rfl, rfl⟩) fun _ => Obeys.pure _)

theorem obeys_deleteBreakpointAt (h : AllowsEdits R) (index : ℕ) :
    Obeys R (deleteBreakpointAt index) := by
  refine Obeys.bind Obeys.get fun s => ?_
  split
  · exact Obeys.pure _
  · refine Obeys.bind (Obeys.ite (h.disable _ _) (Obeys.pure _)) fun r => ?_
    exact Obeys.ite (Obeys.pure _)
      (Obeys.bind (h.edit fun _ => ⟨rfl, rfl⟩) fun _ => Obeys.pure _)

theorem obeys_deleteWatchpointAt (h : AllowsEdits R) (index : ℕ) :
    Obeys R (deleteWatchpointAt index) := by
  have hset : ∀ wps, Obeys R (setWatchpoints wps) := fun _ => h.edit fun _ => ⟨rfl, rfl⟩
  have hshift : ∀ i, Obeys R (shiftWatchpoint i) := fun i =>
    Obeys.bind Obeys.get fun s => Obeys.bind (hset _) fun _ => Obeys.ite
      (Obeys.bind (h.slots (cdbgWpHwInstall_keeps _ _ _ _ _)) fun rc =>
        Obeys.ite (Obeys.pure _) (Obeys.pure _)) (Obeys.pure _)
  have hclear : ∀ d, Obeys R (uninstallIfLive d index) := fun d =>
    Obeys.ite (h.slots (cdbgWpHwUninstall_keeps _ _)) (Obeys.pure _)
  refine Obeys.bind Obeys.get fun s => Obeys.ite (Obeys.pure _) ?_
  refine Obeys.bind (hclear _) fun rc => Obeys.ite (Obeys.pure _) ?_
  refine Obeys.bind (Obeys.forUntil fun i _ => hshift i) fun rc => Obeys.ite (Obeys.pure _) ?_
  exact Obeys.bind Obeys.get fun s => Obeys.bind (hset _) fun _ => Obeys.pure _

theorem obeys_cmdWatch (h : AllowsEdits R) (expr : Option CStr) (resolved : Option (Addr × ℕ)) :
    Obeys R (cmdWatch expr resolved) := by
  refine Obeys.bind Obeys.get fun s => Obeys.ite (Obeys.pure _) ?_
  split
  · exact Obeys.pure _
  · exact Obeys.pure _
  split
  · exact Obeys.pure _
  refine Obeys.ite (Obeys.pure _) (Obeys.ite (Obeys.pure _) ?_)
  refine Obeys.bind h.refresh fun rc => Obeys.ite (Obeys.pure _) ?_
  split
  · exact Obeys.pure _
  refine Obeys.bind (h.slots (tryInstall_keeps _ _ _ _ _)) fun r => ?_
  cases r with
  | none => exact Obeys.pure _
  | some hwSize =>
    exact Obeys.bind (h.calls (cdbgMemRead_keeps _ _ _)) fun old =>
      Obeys.bind (h.edit fun _ => ⟨rfl, rfl⟩) fun _ => Obeys.pure _

theorem obeys_lockLoop (h : AllowsEdits R) (pid : ℕ) (target : UInt64)
    (infos : List ThreadInfo) : ∀ n, Obeys R (lockLoop pid target infos n) := by
  induction infos with
  | nil => exact fun n => Obeys.pure _
  | cons t ts ih =>
    intro n
    refine Obeys.ite (ih n) (Obeys.bind (h.holds (cdbgThreadSuspend_keeps _ _)) fun rc =>
      Obeys.ite ?_ ?_)
    · exact Obeys.bind Obeys.get fun s =>
        Obeys.bind (h.holds (resumeAll_keeps _ _)) fun _ => Obeys.pure _
    · exact Obeys.bind (h.edit fun _ => ⟨rfl, rfl⟩) fun _ => ih _

theorem obeys_cmdLock (h : AllowsEdits R) (args : Option CStr) : Obeys R (cmdLock args) := by
  refine Obeys.bind Obeys.get fun s => Obeys.ite (Obeys.pure _) ?_
  split
  · exact Obeys.pure _
  · exact Obeys.pure _
  refine Obeys.ite (Obeys.pure _) (Obeys.bind (h.calls (cdbgThreadsList_keeps _)) fun r => ?_)
  cases r with
  | none => exact Obeys.pure _
  | some infos =>
    dsimp only
    split
    · exact Obeys.pure _
    refine Obeys.bind (obeys_lockLoop h _ _ _ _) fun r => ?_
    cases r with
    | none => exact Obeys.pure _
    | some n =>
      exact Obeys.bind (h.edit fun _ => ⟨rfl, rfl⟩) fun _ => Obeys.bind h.refresh
        fun rc => Obeys.ite (Obeys.pure _) (Obeys.pure _)

theorem obeys_cmdUnlock (h : AllowsEdits R) : Obeys R cmdUnlock :=
  Obeys.bind Obeys.get fun _ => Obeys.ite (Obeys.pure _) (Obeys.ite (Obeys.pure _)
    (Obeys.bind (h.holds (unlockLoop_keeps _ _ _)) fun _ =>
      Obeys.bind (h.edit fun _ => ⟨rfl, rfl⟩) fun _ => Obeys.pure _))

end Editing

end Debugger
