/-
What a command line does before it is rejected, and without a process.

The keywords' states of the parser all reduce, so the action of a line runs as soon as the
words that its command takes have been read.

* `rejected_line_iff`: a line the grammar does not derive runs no handler exactly when it
  has no word or its first word is no keyword.
* `idle_line_iff`: without a process every accepted line but `run` keeps the session going
  exactly when it is not `regs`.
-/
import Debugger.CmdLine

open Prog

namespace Debugger

/-! ### The tokens of a line -/

section Lexer

variable {fuel : ℕ} {text : CStr}

/-- In `WORDSTATE` there are only words. -/
theorem cmdyylex_wordstate : ∀ {fuel : ℕ} {text : CStr}, ∀ t ∈ cmdyylex fuel .wordstate text,
    t.1 = .word := by
  intro fuel
  induction fuel with
  | zero => exact fun t ht => absurd ht (by simp [cmdyylex])
  | succ fuel ih =>
    intro text t ht
    rw [cmdyylex] at ht
    cases hrest : text.dropWhile isBlank with
    | nil =>
      rw [hrest] at ht
      exact absurd ht (by simp)
    | cons c cs =>
      rw [hrest] at ht
      rcases List.mem_cons.mp ht with rfl | ht
      · rfl
      · exact ih t ht

/-- In `ARGSTATE` the rest of the line is one token. -/
theorem cmdyylex_argstate : cmdyylex fuel .argstate text = [] ∨
    ∃ arg more, cmdyylex fuel .argstate text = (.restline, arg) :: more := by
  cases fuel with
  | zero => exact .inl rfl
  | succ fuel =>
    rw [cmdyylex]
    cases text.dropWhile isBlank with
    | nil => exact .inl rfl
    | cons c cs => exact .inr ⟨_, _, rfl⟩

/-- A line has no token, or its first one is that of its first word. -/
theorem lexLine_cases (line : CStr) : lexLine line = [] ∨
    ∃ word fuel rest, lexLine line =
      (keyword word, word) :: cmdyylex fuel (keyword word).begins rest := by
  rw [lexLine, cmdyylex]
  cases line.dropWhile isBlank with
  | nil => exact .inl rfl
  | cons c cs => exact .inr ⟨_, _, _, rfl⟩

end Lexer

/-! ### The parser on a line -/

theorem keyword_ne (word : CStr) : keyword word ≠ .word ∧ keyword word ≠ .restline := by
  have htable : ∀ e ∈ keywords, e.2 ≠ .word ∧ e.2 ≠ .restline := by decide
  rw [keyword]
  cases h : keywords.find? (·.1 = word) with
  | some e => exact htable e (List.mem_of_find?_eq_some h)
  | none =>
    dsimp only
    split <;> exact ⟨by decide, by decide⟩

section States

variable {k : TokKind}

/-- Every keyword is a command by itself. -/
theorem keyword_state (hk : k ≠ .word ∧ k ≠ .restline) :
    shifts grammar [] k = true ∧ (reduces grammar [k]).isSome = true := by
  cases k with
  | word => exact absurd rfl hk.1
  | restline => exact absurd rfl hk.2
  | _ => exact ⟨rfl, rfl⟩

/-- The rules that print a message instead of calling a handler. -/
def messageRules : List (List TokKind) := [[.lockTok], [.breakTok], [.xTok], [.unknownTok]]

theorem bare_state (hk : k ≠ .word ∧ k ≠ .restline) (h : k.begins = .initial) :
    consistent grammar [k] = true ∧ (k ≠ .unknownTok → [k] ∉ messageRules) := by
  cases k with
  | word => exact absurd rfl hk.1
  | restline => exact absurd rfl hk.2
  | _ => first | exact absurd h (by decide) | exact ⟨rfl, by decide⟩

theorem argstate_state (h : k.begins = .argstate) :
    consistent grammar [k] = false ∧ shifts grammar [k] .restline = true ∧
      consistent grammar [k, .restline] = true ∧
      (reduces grammar [k, .restline]).isSome = true := by
  cases k with
  | _ => first | exact absurd h (by decide) | exact ⟨rfl, rfl, rfl, rfl⟩

theorem wordstate_state (h : k.begins = .wordstate) :
    consistent grammar [k] = false ∧ shifts grammar [k] .word = true ∧
      (k ≠ .xTok → consistent grammar [k, .word] = true) ∧
      (reduces grammar [k, .word]).isSome = true := by
  cases k with
  | xTok => exact ⟨rfl, rfl, fun h => absurd rfl h, rfl⟩
  | _ => first | exact absurd h (by decide) | exact ⟨rfl, rfl, fun _ => rfl, rfl⟩

/-- All other rules call a handler. -/
theorem isHandler_of_mem {r : Rule TokKind CStr Action} (hr : r ∈ grammar)
    (hrhs : r.rhs ∉ messageRules) (vs : List CStr) : (r.action vs).isHandler = true := by
  have hall : (grammar.all fun r => decide (r.rhs ∈ messageRules) || (r.action vs).isHandler) =
      true := rfl
  have hr := List.all_eq_true.mp hall r hr
  simpa [hrhs] using hr

end States

/-- A line that begins with a keyword and is not derivable runs a handler. -/
theorem handler_runs {word : CStr} {fuel : ℕ} {rest : CStr} {tokens : List Token}
    (htokens : tokens = (keyword word, word) :: cmdyylex fuel (keyword word).begins rest)
    (hk : keyword word ≠ .unknownTok) (h : ¬ Derivable grammar tokens) :
    ∃ a, (parse grammar tokens).1 = [a] ∧ a.isHandler = true := by
  subst htokens
  generalize hkw : keyword word = k at hk h ⊢
  have hne : k ≠ .word ∧ k ≠ .restline := hkw ▸ keyword_ne word
  obtain ⟨hshift, hreduce⟩ := keyword_state hne
  rw [parse, parseFrom_shift rfl hshift]
  cases hbegins : k.begins with
  | initial =>
    obtain ⟨hc, hmessage⟩ := bare_state hne hbegins
    obtain ⟨r, hr, hrhs, hrun⟩ := @exists_run_of_consistent _ _ _ _ _
      (cmdyylex fuel .initial rest) [(k, word)] hc hreduce
    exact ⟨_, hrun, isHandler_of_mem hr (hrhs ▸ hmessage hk) _⟩
  | argstate =>
    rw [hbegins] at h
    obtain ⟨hc, hs, hc', hr'⟩ := argstate_state hbegins
    rcases @cmdyylex_argstate fuel rest with hnil | ⟨arg, more, hmore⟩
    · rw [hnil] at h
      exact absurd (derivable_of_reduces hreduce) h
    · rw [hmore, List.nil_append, parseFrom_shift hc hs]
      obtain ⟨r, hr, hrhs, hrun⟩ := @exists_run_of_consistent _ _ _ _ _
        more [(k, word), (.restline, arg)] hc' hr'
      exact ⟨_, hrun, isHandler_of_mem hr (by rw [hrhs]; simp [messageRules]) _⟩
  | wordstate =>
    rw [hbegins] at h
    obtain ⟨hc, hs, hc', hr'⟩ := wordstate_state hbegins
    have hwords := @cmdyylex_wordstate fuel rest
    generalize cmdyylex fuel .wordstate rest = words at h hwords
    match words with
    | [] => exact absurd (derivable_of_reduces hreduce) h
    | (k₁, w₁) :: more =>
      obtain rfl : k₁ = .word := hwords _ List.mem_cons_self
      rw [List.nil_append, parseFrom_shift hc hs]
      by_cases hx : k = .xTok
      · -- `x` takes a second word
        subst hx
        match more with
        | [] => exact absurd (derivable_of_reduces hr') h
        | (k₂, w₂) :: more =>
          obtain rfl : k₂ = .word := hwords _ (List.mem_cons_of_mem _ List.mem_cons_self)
          have hc₂ : consistent grammar [.xTok, .word] = false := rfl
          have hs₂ : shifts grammar [.xTok, .word] .word = true := rfl
          have hc₃ : consistent grammar [.xTok, .word, .word] = true := rfl
          have hr₃ : (reduces grammar [.xTok, .word, .word]).isSome = true := rfl
          rw [List.singleton_append, parseFrom_shift hc₂ hs₂]
          obtain ⟨r, hr, hrhs, hrun⟩ := @exists_run_of_consistent _ _ _ _ _
            more [(.xTok, word), (.word, w₁), (.word, w₂)] hc₃ hr₃
          exact ⟨_, hrun, isHandler_of_mem hr (by rw [hrhs]; simp [messageRules]) _⟩
      · obtain ⟨r, hr, hrhs, hrun⟩ := @exists_run_of_consistent _ _ _ _ _
          more [(k, word), (.word, w₁)] (hc' hx) hr'
        exact ⟨_, hrun, isHandler_of_mem hr (by rw [hrhs]; simp [messageRules]) _⟩

/-! ### Rejected lines -/

/-- A line the grammar does not derive runs no handler, changes nothing and ends in `OK`
exactly when it has no word or its first word is no keyword. -/
theorem rejected_line_iff (env : ExprEnv) {line : CStr} (h : ¬ Derivable grammar (lexLine line)) :
    ((∀ a ∈ (parse grammar (lexLine line)).1, a.isHandler = false) ∧
      ∀ s, (cdbgReplDispatchLine env line).run s = (.ok, s)) ↔
    ∀ t ∈ (lexLine line).head?, t.1 = .unknownTok := by
  rcases lexLine_cases line with hnil | ⟨word, fuel, rest, htokens⟩
  · rw [cdbgReplDispatchLine, hnil]
    have hnone : (parse grammar ([] : List Token)).1 = [] := rfl
    rw [hnone]
    exact iff_of_true ⟨by simp, fun s => rfl⟩ (by simp)
  · rw [htokens, List.head?_cons]
    by_cases hk : keyword word = .unknownTok
    · -- the message is printed, whatever follows
      have hrun : (parse grammar ((keyword word, word) ::
          cmdyylex fuel (keyword word).begins rest)).1 = [.printfUnknown word] := by
        have hc : consistent grammar [.unknownTok] = true := rfl
        rw [hk, parse, parseFrom_shift rfl rfl, parseFrom_of_consistent (r := _) rfl hc]
        rfl
      rw [cdbgReplDispatchLine, htokens, hrun]
      exact iff_of_true ⟨by simp [Action.isHandler], fun s => rfl⟩ (by simp [hk])
    · obtain ⟨a, hrun, ha⟩ := handler_runs htokens hk h
      refine iff_of_false (fun hno => ?_) (by simpa using hk)
      rw [← htokens, hrun] at hno
      exact absurd (hno.1 a (List.mem_singleton.mpr rfl)) (by simp [ha])

/-- `break 0x1000 now` is no line of the grammar, but sets a breakpoint. -/
theorem rejected_break_runs :
    let line := "break 0x1000 now".toList
    let s := Sys.attached .x86_64 twoThreads fun _ => .stopped 5 []
    ¬ Derivable grammar (lexLine line) ∧
      ((cdbgReplDispatchLine bareEnv line).run s).2.dbg.breakpoints ≠ s.dbg.breakpoints :=
  ⟨fun h => absurd (accepts_iff.mpr h) (by decide), by decide +kernel⟩

/-- An unknown command with surplus words does nothing. -/
theorem rejected_line_unknown :
    (∀ a ∈ (parse grammar (lexLine "brk 0x1000 now".toList)).1, a.isHandler = false) ∧
      ∀ s, (cdbgReplDispatchLine bareEnv "brk 0x1000 now".toList).run s = (.ok, s) :=
  (rejected_line_iff bareEnv fun h => absurd (accepts_iff.mpr h) (by decide)).mpr (by decide)

/-! ### Lines without a process -/

section Progress

variable {env : ExprEnv}

theorem cmdPrint_progress (expr : CStr) : Keeps Sys.progress (cmdPrint env expr) := by
  refine Keeps.ite (Keeps.pure _) (Keeps.ite (Keeps.pure _) ?_)
  exact Keeps.bind cdbgRefreshRegs_progress fun _ => Keeps.ite (Keeps.pure _)
    (Keeps.bind Keeps.get fun _ => Keeps.pure _)

theorem cmdSetLine_progress (args : Option CStr) : Keeps Sys.progress (cmdSetLine env args) := by
  rw [cmdSetLine]
  split
  · exact Keeps.pure _
  · refine Keeps.ite (Keeps.pure _) ?_
    split
    · exact Keeps.pure _
    · refine Keeps.ite (Keeps.pure _) (Keeps.bind cdbgRefreshRegs_progress fun _ =>
        Keeps.ite (Keeps.pure _) (Keeps.bind Keeps.get fun _ => ?_))
      split
      · exact Keeps.pure _
      · refine Keeps.ite (Keeps.pure _) (Keeps.ite (cmdSet_progress _) ?_)
        split
        · exact Keeps.pure _
        · exact cmdSet_progress _

theorem cmdShow_progress (args : Option CStr) : Keeps Sys.progress (cmdShow env args) := by
  refine Keeps.bind Keeps.get fun s => ?_
  split
  · exact Keeps.pure _
  · refine Keeps.ite (Keeps.pure _) (Keeps.ite (Keeps.pure _) (Keeps.ite (Keeps.pure _)
      (Keeps.ite (Keeps.pure _) ?_)))
    exact Keeps.bind cdbgRefreshRegs_progress fun _ => Keeps.ite (Keeps.pure _) (Keeps.pure _)

theorem cmdThreads_progress : Keeps Sys.progress cmdThreads :=
  Keeps.bind Keeps.get fun _ => Keeps.ite (Keeps.pure _) (Keeps.bind
    (Keeps.mono (cdbgThreadsList_keeps _) fun _ _ h => Sys.progress_of_sansReports
      (Sys.sansReports_of_sansCalls h)) fun _ => Keeps.pure _)

theorem cmdList_progress (target : Option CStr) : Keeps Sys.progress (cmdList target) :=
  Keeps.ite (Keeps.bind cdbgRefreshRegs_progress fun _ => Keeps.ite (Keeps.pure _) (Keeps.pure _))
    (Keeps.pure _)

theorem cmdExamine_progress (addrText : CStr) (countText : Option CStr) :
    Keeps Sys.progress (cmdExamine addrText countText) := by
  refine Keeps.bind Keeps.get fun s => ?_
  split
  · refine Keeps.ite (Keeps.pure _) (Keeps.bind ?_ fun _ => Keeps.pure _)
    exact Keeps.mono (cdbgMemRead_keeps _ _ _) fun _ _ h => Sys.progress_of_sansReports
      (Sys.sansReports_of_sansCalls h)
  · exact Keeps.pure _

end Progress

/-- What the debugger looks like without a process; no kernel call on pid 0 succeeds. -/
structure Sys.Idle (s : Sys) : Prop where
  state : s.dbg.state = .idle
  pid : s.dbg.pid = 0
  none : s.process 0 = none

/-- The outcome of an accepted line without a process. -/
def Action.idleOutcome (a : Action) : ReplOutcome :=
  if a = .cdbgReplCmdQuit then .quit else .ok

/-- Without a process every action but `run` and `regs` keeps the session going and leaves
the debugger idle. -/
theorem Action.run_idle {env : ExprEnv} {a : Action} {s : Sys} (h : s.Idle)
    (hrun : ∀ args, a ≠ .cmdRun args) (hregs : a ≠ .cdbgReplCmdRegs) :
    wp (a.run env) (fun o s' => o.getD .ok = a.idleOutcome ∧ s'.dbg.state = .idle ∧
      s'.dbg.pid = 0) s := by
  -- a command that keeps what it may not touch leaves the debugger idle
  have hkeep : ∀ {m : DbgM Int}, Keeps Sys.progress m → wp (ignored m)
      (fun o s' => o.getD .ok = .ok ∧ s'.dbg.state = .idle ∧ s'.dbg.pid = 0) s :=
    fun {m} hm => by
      rw [ignored, wp_bind]
      refine wp_mono (hm s) fun _ s' hv => ⟨rfl, ?_, ?_⟩
      · exact (congrArg Progress.state hv).trans h.state
      · exact (congrArg Progress.pid hv).trans h.pid
  -- the commands that check the state return at once
  have hok : ∀ {m : DbgM ReplOutcome}, wp m (fun o s' => o = .ok ∧ s' = s) s → wp (stored m)
      (fun o s' => o.getD .ok = .ok ∧ s'.dbg.state = .idle ∧ s'.dbg.pid = 0) s :=
    fun {m} hm => by
      show wp (m >>= fun o => pure (some o)) _ s
      rw [wp_bind]
      refine wp_mono hm fun o s' h' => ?_
      rw [h'.1, h'.2]
      exact ⟨rfl, h.state, h.pid⟩
  cases a with
  | cmdRun args => exact absurd rfl (hrun args)
  | cdbgReplCmdRegs => exact absurd rfl hregs
  | cdbgReplCmdContinue =>
    refine hok ?_
    rw [Debugger.cdbgReplCmdContinue, wp_bind, wp_get, if_pos h.state]
    exact ⟨rfl, rfl⟩
  | cdbgReplCmdStep =>
    refine hok ?_
    rw [Debugger.cdbgReplCmdStep, replStepWith, wp_bind, wp_get, if_pos h.state]
    exact ⟨rfl, rfl⟩
  | cdbgReplCmdSi =>
    refine hok ?_
    rw [Debugger.cdbgReplCmdSi, wp_bind, wp_get, if_pos h.state]
    exact ⟨rfl, rfl⟩
  | cdbgReplCmdNext =>
    refine hok ?_
    rw [Debugger.cdbgReplCmdNext, replStepWith, wp_bind, wp_get, if_pos h.state]
    exact ⟨rfl, rfl⟩
  | cdbgReplCmdKill =>
    refine hok ?_
    rw [Debugger.cdbgReplCmdKill, wp_bind, wp_get, if_pos (.inl h.pid)]
    exact ⟨rfl, rfl⟩
  | cdbgReplCmdQuit =>
    show wp (Debugger.cdbgReplCmdQuit >>= fun o => pure (some o)) _ s
    rw [wp_bind, Debugger.cdbgReplCmdQuit, wp_bind, stopDebuggee, wp_bind, wp_get, if_pos h.pid,
      wp_bind, wp_setState]
    exact ⟨rfl, rfl, h.pid⟩
  | cdbgFrameUp => exact hkeep cdbgFrameUp_progress
  | cmdPrintFromRepl cmd rest => exact hkeep (cmdPrint_progress _)
  | cmdSet args => exact hkeep (cmdSetLine_progress _)
  | cmdShow args => exact hkeep (cmdShow_progress _)
  | cmdBacktrace => exact hkeep cdbgRefreshRegs_progress
  | cmdThreads => exact hkeep cmdThreads_progress
  | cmdThread args => exact hkeep (cmdThread_progress _)
  | cmdLock args => exact hkeep (cmdLock_progress _)
  | cmdUnlock => exact hkeep cmdUnlock_progress
  | cmdBreak target => exact hkeep (cmdBreak_progress _)
  | cmdDel args => exact hkeep (cmdDel_progress _)
  | cmdWatch expr =>
    show wp (get >>= fun s => ignored (Debugger.cmdWatch expr _)) _ s
    rw [wp_bind, wp_get]
    exact hkeep (cmdWatch_progress _ _)
  | cmdUnwatch args => exact hkeep (cmdUnwatch_progress _)
  | cmdList target => exact hkeep (cmdList_progress _)
  | cmdExamine addrText countText => exact hkeep (cmdExamine_progress _ _)
  | _ => exact ⟨rfl, h.state, h.pid⟩

/-- Without a process, `regs` ends the session. -/
theorem regs_idle {s : Sys} (h : s.Idle) :
    wp cdbgReplCmdRegs (fun o _ => o = .fatal) s := by
  rw [cdbgReplCmdRegs, wp_bind]
  refine wp_cdbgRefreshRegs (fun s₁ _ _ => ?_) fun p t s₁ hp _ _ => ?_
  · rw [if_pos (by decide)]
    rfl
  · rw [h.pid, h.none] at hp
    exact absurd hp (by simp)

def Action.isRun : Action → Bool
  | .cmdRun _ => true
  | _ => false

/-- The action of a rule tells the keywords `run`, `regs` and `quit` from the others. -/
theorem keyword_of_action {r : Rule TokKind CStr Action} (hr : r ∈ grammar) (vs : List CStr) :
    ((r.action vs).isRun = true ↔ r.rhs.head? = some .runTok) ∧
      (r.action vs = .cdbgReplCmdRegs ↔ r.rhs.head? = some .regsTok) ∧
      (r.action vs = .cdbgReplCmdQuit ↔ r.rhs.head? = some .quitTok) := by
  have hall : (grammar.all fun r =>
      ((r.action vs).isRun == decide (r.rhs.head? = some .runTok)) &&
      (decide (r.action vs = .cdbgReplCmdRegs) == decide (r.rhs.head? = some .regsTok)) &&
      (decide (r.action vs = .cdbgReplCmdQuit) == decide (r.rhs.head? = some .quitTok))) = true :=
    rfl
  have hr := List.all_eq_true.mp hall r hr
  simp only [Bool.and_eq_true, beq_iff_eq] at hr
  obtain ⟨⟨hrun, hregs⟩, hquit⟩ := hr
  exact ⟨by rw [hrun, decide_eq_true_iff], decide_eq_decide.mp hregs, decide_eq_decide.mp hquit⟩

/-- Without a process, an accepted line other than `run` ends in `OK` (`QUIT` for `quit`) and
leaves the debugger idle exactly when it is not `regs`. -/
theorem idle_line_iff (env : ExprEnv) {line : CStr} {s : Sys} {k : TokKind} {word : CStr}
    {args : List Token} (h : s.Idle) (hline : Derivable grammar (lexLine line))
    (htokens : lexLine line = (k, word) :: args) (hrun : k ≠ .runTok) :
    wp (cdbgReplDispatchLine env line) (fun o s' =>
      o = (if k = .quitTok then .quit else .ok) ∧ s'.dbg.state = .idle ∧ s'.dbg.pid = 0) s ↔
      k ≠ .regsTok := by
  rw [cdbgReplDispatchLine]
  generalize lexLine line = tokens at hline htokens
  -- the line is the right side of one rule, whose action is the only one that runs
  obtain ⟨r, hr, hrhs, hparse⟩ := @parseFrom_of_derivable _ _ _ _ _ tokens [] hline
  generalize ([] ++ tokens).map (fun t : Token => t.2) = vs at hparse
  obtain ⟨hcmdRun, hregs, hquit⟩ := keyword_of_action hr vs
  have hhead : r.rhs.head? = some k := by
    rw [hrhs, List.nil_append, htokens]
    rfl
  rw [hhead, Option.some.injEq] at hcmdRun hregs hquit
  rw [parse, hparse, runActions, wp_bind]
  by_cases hk : k = .regsTok
  · refine iff_of_false (fun hwp => ?_) (not_not.mpr hk)
    rw [hregs.mpr hk] at hwp
    -- `cdbg_refresh_regs` fails on pid 0, and the command passes that on as `FATAL`
    have hfatal : wp (stored cdbgReplCmdRegs) (fun o _ => o = some .fatal) s := by
      show wp (cdbgReplCmdRegs >>= fun o => pure (some o)) _ s
      rw [wp_bind]
      exact wp_mono (regs_idle h) fun o s' ho => congrArg some ho
    obtain ⟨ho, hout⟩ := wp_and hfatal hwp
    rw [ho, if_neg (show ¬ k = .quitTok by rw [hk]; decide)] at hout
    exact ReplOutcome.noConfusion (show ReplOutcome.fatal = .ok from hout.1)
  · refine iff_of_true ?_ hk
    refine wp_mono (@Action.run_idle env _ _ h (fun args ha => ?_) fun ha => ?_) fun o s' h' => ?_
    · exact hrun (hcmdRun.mp (by rw [ha]; rfl))
    · exact hk (hregs.mp ha)
    · refine ⟨h'.1.trans ?_, h'.2⟩
      rw [Action.idleOutcome]
      by_cases hq : k = .quitTok
      · rw [if_pos hq, if_pos (hquit.mpr hq)]
      · rw [if_neg hq, if_neg fun ha => hq (hquit.mp ha)]

/-- The debugger before anything has been started. -/
def Sys.fresh : Sys where
  dbg := {}
  os := { arch := .x86_64, events := fun _ => .exited 0, images := fun _ => twoThreads }

theorem Sys.fresh_idle : Sys.fresh.Idle := ⟨rfl, rfl, rfl⟩

/-- `regs` before anything has been started ends the session. -/
theorem regs_idle_fatal :
    Sys.fresh.Idle ∧ Derivable grammar (lexLine "regs".toList) ∧
      ((cdbgReplDispatchLine bareEnv "regs".toList).run Sys.fresh).1 = .fatal :=
  ⟨Sys.fresh_idle, accepts_iff.mp (by decide), by decide +kernel⟩

/-- `kill` before anything has been started. -/
theorem idle_line_kill : ((cdbgReplDispatchLine bareEnv "kill".toList).run Sys.fresh).1 = .ok :=
  ((@idle_line_iff bareEnv "kill".toList _ .killTok "kill".toList [] Sys.fresh_idle
    (accepts_iff.mp (by decide)) (by decide) (by decide)).mpr
    (by decide)).1

end Debugger
