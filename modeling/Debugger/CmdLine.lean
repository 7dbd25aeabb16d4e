/-
The command line (`cmd_lexer.l`, `cmd_grammar.y`, `cdbg_repl_dispatch_line`).

The lexer turns a line into tokens: the first word selects a command and the start
condition in which the rest is read.  The parser generated from the grammar is `Prog.parse`
on the list of its rules; `cdbgReplDispatchLine` runs the actions the parser runs.

What a command prints is left out, and what it finds outside the modelled state (programs
on the disk, values of C expressions) is an argument, `ExprEnv`.
-/
import Debugger.Prompt
import Debugger.Lib.Lr

open Prog

namespace Debugger

/-! ### The lexer -/

/-- The tokens of `cmd_grammar.y`. -/
inductive TokKind
  | word | restline | unknownTok | printTok
  | helpTok | runTok | continueTok | stepTok | siTok | nextTok | upTok | regsTok
  | setTok | showTok | tbTok | threadsTok | threadTok | lockTok | unlockTok | leaksTok
  | breakTok | delTok | watchTok | unwatchTok | disTok | listTok | linesTok | listsTok
  | symsTok | xTok | killTok | quitTok
deriving DecidableEq, Repr

/-- A token with the text of those that have one. -/
abbrev Token := TokKind × CStr

/-- The start conditions of the lexer. -/
inductive StartCond
  | initial
  | argstate
  | wordstate
deriving DecidableEq, Repr

/-- The keyword rules of the `INITIAL` condition. -/
def keywords : List (CStr × TokKind) :=
  [("help".toList, .helpTok), ("h".toList, .helpTok), ("run".toList, .runTok),
    ("continue".toList, .continueTok), ("c".toList, .continueTok), ("step".toList, .stepTok),
    ("s".toList, .stepTok), ("si".toList, .siTok), ("next".toList, .nextTok),
    ("n".toList, .nextTok), ("up".toList, .upTok), ("regs".toList, .regsTok),
    ("r".toList, .regsTok), ("print".toList, .printTok), ("p".toList, .printTok),
    ("set".toList, .setTok), ("show".toList, .showTok), ("tb".toList, .tbTok),
    ("threads".toList, .threadsTok), ("thread".toList, .threadTok), ("lock".toList, .lockTok),
    ("unlock".toList, .unlockTok), ("leaks".toList, .leaksTok), ("break".toList, .breakTok),
    ("b".toList, .breakTok), ("del".toList, .delTok), ("delete".toList, .delTok),
    ("watch".toList, .watchTok), ("unwatch".toList, .unwatchTok), ("dis".toList, .disTok),
    ("list".toList, .listTok), ("l".toList, .listTok), ("lines".toList, .linesTok),
    ("lists".toList, .listsTok), ("syms".toList, .symsTok), ("sym".toList, .symsTok),
    ("x".toList, .xTok), ("kill".toList, .killTok), ("quit".toList, .quitTok),
    ("q".toList, .quitTok)]

/-- The `BEGIN` of the rule that returns the token. -/
def TokKind.begins : TokKind → StartCond
  | .helpTok | .runTok | .printTok | .setTok | .showTok | .delTok | .watchTok | .unwatchTok
  | .disTok | .listTok => .argstate
  | .threadTok | .lockTok | .breakTok | .linesTok | .listsTok | .symsTok | .xTok => .wordstate
  | _ => .initial

/-- The token of the first word of a line: of the rules that match the most characters,
the whole word, the first one counts, and `[^ \t]+` is the last. -/
def keyword (text : CStr) : TokKind :=
  match keywords.find? (·.1 = text) with
  | some (_, kind) => kind
  | none =>
    if "print/".toList.isPrefixOf text || "p/".toList.isPrefixOf text then .printTok
    else .unknownTok

/-- The tokens of `cmdyylex` in the given start condition; `fuel` bounds their number by the
length of the text. -/
def cmdyylex : ℕ → StartCond → CStr → List Token
  | 0, _, _ => []
  | fuel + 1, cond, text =>
    match text.dropWhile isBlank with
    | [] => []
    | c :: cs =>
      match cond with
      | .initial =>
        let word := (c :: cs).takeWhile fun d => !isBlank d
        let rest := (c :: cs).dropWhile fun d => !isBlank d
        (keyword word, word) :: cmdyylex fuel (keyword word).begins rest
      | .argstate =>
        (.restline, c :: cs.takeWhile (· ≠ '\n')) ::
          cmdyylex fuel .initial (cs.dropWhile (· ≠ '\n'))
      | .wordstate =>
        let rest := (c :: cs).dropWhile fun d => !isBlank d
        (.word, (c :: cs).takeWhile fun d => !isBlank d) :: cmdyylex fuel .wordstate rest

/-- The tokens of a line. -/
def lexLine (line : CStr) : List Token := cmdyylex (line.length + 1) .initial line

/-! ### The grammar -/

/-- The semantic actions of the rules of `line`. -/
inductive Action
  | cmdHelp (args : Option CStr)
  | cmdRun (args : Option CStr)
  | cdbgReplCmdContinue
  | cdbgReplCmdStep
  | cdbgReplCmdSi
  | cdbgReplCmdNext
  | cdbgFrameUp
  | cdbgReplCmdRegs
  | cmdPrintFromRepl (cmd : CStr) (rest : Option CStr)
  | cmdSet (args : Option CStr)
  | cmdShow (args : Option CStr)
  | cmdBacktrace
  | cmdThreads
  | cmdThread (args : Option CStr)
  | cmdLock (args : CStr)
  | cmdUnlock
  | cmdLeaks
  | cmdBreak (target : CStr)
  | cmdDel (args : Option CStr)
  | cmdWatch (expr : Option CStr)
  | cmdUnwatch (args : Option CStr)
  | cmdDis (target : Option CStr)
  | cmdList (target : Option CStr)
  | cmdLines (filter : Option CStr)
  | cdbgLinenoPrintGroupedList (filter : Option CStr)
  | cdbgSymsPrintList (filter : Option CStr)
  | cmdExamine (addrText : CStr) (countText : Option CStr)
  | cdbgReplCmdKill
  | cdbgReplCmdQuit
  | fputs (message : String)
  | printfUnknown (command : CStr)
deriving DecidableEq

/-- The action calls a command handler; the others only print a message. -/
def Action.isHandler : Action → Bool
  | .fputs _ | .printfUnknown _ => false
  | _ => true

/-- A command without arguments. -/
def bare (tok : TokKind) (action : Action) : Rule TokKind CStr Action :=
  { rhs := [tok], action := fun _ => action }

/-- A command with or without a further token, the second of its values. -/
def withOptional (tok arg : TokKind) (action : Option CStr → Action) :
    List (Rule TokKind CStr Action) :=
  [{ rhs := [tok], action := fun _ => action none },
    { rhs := [tok, arg], action := fun vs => action vs[1]? }]

/-- A command that prints how it is used where its word is missing. -/
def withUsage (tok : TokKind) (usage : String) (action : CStr → Action) :
    List (Rule TokKind CStr Action) :=
  [{ rhs := [tok], action := fun _ => .fputs usage },
    { rhs := [tok, .word], action := fun vs => action (vs.getD 1 []) }]

/-- The rules of `line`. -/
def grammar : List (Rule TokKind CStr Action) :=
  withOptional .helpTok .restline .cmdHelp ++
  withOptional .runTok .restline .cmdRun ++
  [bare .continueTok .cdbgReplCmdContinue, bare .stepTok .cdbgReplCmdStep,
    bare .siTok .cdbgReplCmdSi, bare .nextTok .cdbgReplCmdNext, bare .upTok .cdbgFrameUp,
    bare .regsTok .cdbgReplCmdRegs] ++
  [{ rhs := [.printTok], action := fun vs => .cmdPrintFromRepl (vs.getD 0 []) none },
    { rhs := [.printTok, .restline],
      action := fun vs => .cmdPrintFromRepl (vs.getD 0 []) vs[1]? }] ++
  withOptional .setTok .restline .cmdSet ++
  withOptional .showTok .restline .cmdShow ++
  [bare .tbTok .cmdBacktrace, bare .threadsTok .cmdThreads] ++
  withOptional .threadTok .word .cmdThread ++
  withUsage .lockTok "Usage: lock <thread-number>\n" .cmdLock ++
  [bare .unlockTok .cmdUnlock, bare .leaksTok .cmdLeaks] ++
  withUsage .breakTok "Usage: break <addr|name|file:line|line>\n" .cmdBreak ++
  withOptional .delTok .restline .cmdDel ++
  withOptional .watchTok .restline .cmdWatch ++
  withOptional .unwatchTok .restline .cmdUnwatch ++
  withOptional .disTok .restline .cmdDis ++
  withOptional .listTok .restline .cmdList ++
  withOptional .linesTok .word .cmdLines ++
  withOptional .listsTok .word .cdbgLinenoPrintGroupedList ++
  withOptional .symsTok .word .cdbgSymsPrintList ++
  withUsage .xTok "Usage: x <addr> [count]\n" (.cmdExamine · none) ++
  [{ rhs := [.xTok, .word, .word], action := fun vs => .cmdExamine (vs.getD 1 []) vs[2]? }] ++
  [bare .killTok .cdbgReplCmdKill, bare .quitTok .cdbgReplCmdQuit,
    { rhs := [.unknownTok], action := fun vs => .printfUnknown (vs.getD 0 []) }]

/-! ### The commands that the debugger's state has no part in, and those with arguments -/

/-- What commands find outside the modelled state. -/
structure ExprEnv where
  /-- `cdbg_resolve_program` -/
  resolveProgram : CStr → Option CStr
  /-- `cdbg_language_check_expr` -/
  languageSupportsExpr : Bool
  /-- the value of an expression and whether it is an address -/
  evalExpr : CStr → Sys → Option (UInt64 × Bool)
  /-- the address and the size of an lvalue -/
  resolveLvalue : CStr → Sys → Option (Addr × ℕ)

/-- No program is found and no expression has a value. -/
def bareEnv : ExprEnv where
  resolveProgram _ := none
  languageSupportsExpr := true
  evalExpr _ _ := none
  resolveLvalue _ _ := none

/-- The arguments of `run`; only the program is looked up. -/
def runArguments (env : ExprEnv) (args : CStr) : Option (List CStr) :=
  match strtok (snprintf (maxPath * 2) args) with
  | [] => none
  | program :: rest =>
    if (program :: rest).length > maxRunArgs then none
    else (env.resolveProgram program).map fun resolved =>
      snprintf maxPath resolved :: rest.map (snprintf maxPath)

/-- `cmd_run` -/
def cmdRun (env : ExprEnv) (args : Option CStr) : DbgM Int :=
  match args.map trimSpace with
  | none => cdbgRun none
  | some [] => cdbgRun none
  | some (c :: cs) =>
    match runArguments env (c :: cs) with
    | none => return -1
    | some argv => cdbgRun (some argv)

/-- The text `cmd_print_from_repl` hands to `cmd_print`. -/
def printText (cmd : CStr) (rest : Option CStr) : CStr :=
  let fmt := if "p/".toList.isPrefixOf cmd then some (cmd.drop 2)
    else if "print/".toList.isPrefixOf cmd then some (cmd.drop 6) else none
  match fmt, rest with
  | some fmt, some (c :: cs) => snprintf maxCmd ('/' :: fmt ++ ' ' :: c :: cs)
  | some fmt, _ => snprintf maxCmd ('/' :: fmt)
  | none, some rest => snprintf maxCmd rest
  | none, none => []

/-- `parse_print_format`: the expression behind a format letter. -/
def skipPrintFormat (expr : CStr) : CStr :=
  match expr with
  | '/' :: letter :: rest =>
    if letter ∈ "dixotcsuafz".toList ∧ (rest.head?.all isspace) then trimSpace rest else expr
  | _ => expr

/-- `cmd_print`, without the display. -/
def cmdPrint (env : ExprEnv) (expr : CStr) : DbgM Int := do
  if skipPrintFormat (trimSpace expr) = [] then return -1
  if !env.languageSupportsExpr then return -1
  if (← cdbgRefreshRegs) ≠ 0 then return -1
  let s ← get
  return if (env.evalExpr (skipPrintFormat (trimSpace expr)) s).isSome then 0 else -1

/-- `split_assignment` at a blank. -/
def splitAtSpace (args : CStr) : Option (CStr × CStr) :=
  match args.dropWhile fun c => !isspace c with
  | [] => none
  | _ :: rest => some (trimSpace (args.takeWhile fun c => !isspace c), trimSpace rest)

/-- The scan of `split_assignment` for an `=` that is no part of `==`, `<=`, `>=` or `!=`. -/
def splitAtEq : CStr → CStr → Option (CStr × CStr)
  | _, [] => none
  | before, '=' :: rest =>
    if before.getLast?.any (· ∈ "<>!".toList) ∨ rest.head? = some '=' then
      splitAtEq (before ++ ['=']) rest
    else some (trimSpace before, trimSpace rest)
  | before, c :: rest => splitAtEq (before ++ [c]) rest

/-- `split_assignment` -/
def splitAssignment (args : CStr) : Option (CStr × CStr) :=
  ((splitAtEq [] (trimSpace args)).or (splitAtSpace (trimSpace args))).filter
    fun sides => sides.1 ≠ [] ∧ sides.2 ≠ []

/-- The texts after which `set` changes an option of the debugger. -/
def setOptions : List CStr := ["print ".toList, "language ".toList, "malloc-log ".toList]

/-- `cmd_set`; `set print`, `set language` and `set malloc-log` change no modelled field. -/
def cmdSetLine (env : ExprEnv) (args : Option CStr) : DbgM Int := do
  match args.map fun args => trimSpace (snprintf maxCmd args) with
  | none => return -1
  | some text =>
    if setOptions.any (·.isPrefixOf text) then return 0
    match splitAssignment text with
    | none => return -1
    | some (lhs, rhs) =>
      if lhs.head? = some '&' ∨ !env.languageSupportsExpr then return -1
      if (← cdbgRefreshRegs) ≠ 0 then return -1
      let s ← get
      match env.evalExpr rhs s with
      | none => return -1
      | some (value, isAddress) =>
        if isAddress then return -1
        if lhs.head? = some '$' then cmdSet (.register lhs.tail value)
        else
          match env.resolveLvalue lhs s with
          | none => return -1
          | some (addr, size) => cmdSet (.scalar addr size value)

/-- The expression of `watch`, behind its flags. -/
def watchText (expr : Option CStr) : CStr :=
  let text := trimSpace (expr.getD [])
  match parseWatchFlags text.length false 0 text with
  | some (_, _, rest) => snprintf maxCmd rest
  | none => []

/-- `cmd_show`, without the display. -/
def cmdShow (env : ExprEnv) (args : Option CStr) : DbgM Int := do
  let s ← get
  match args.map trimSpace with
  | none => return -1
  | some args =>
    if args = "bp".toList ∨ args = "watch".toList then return 0
    if s.dbg.state ≠ .stopped then return -1
    if args ∉ ["locals".toList, "args".toList, "globals".toList] then return -1
    if !env.languageSupportsExpr then return -1
    if (← cdbgRefreshRegs) ≠ 0 then return -1
    return 0

/-- `cmd_threads`, without the listing. -/
def cmdThreads : DbgM Int := do
  let s ← get
  if s.dbg.state = .idle then return -1
  return if (← cdbgThreadsList s.dbg.pid).isSome then 0 else -1

/-- `cmd_list`, without the listing. -/
def cmdList (target : Option CStr) : DbgM Int := do
  if (target.map trimSpace).getD [] = [] then
    if (← cdbgRefreshRegs) ≠ 0 then return -1
    return 0
  return 0

/-- `cmd_examine`, without the dump. -/
def cmdExamine (addrText : CStr) (countText : Option CStr) : DbgM Int := do
  let s ← get
  match parseU64 addrText, (countText.map parseU64).getD (some 16) with
  | some addr, some count =>
    if count = 0 ∨ count > 64 then return -1
    return if (← cdbgMemRead s.dbg.pid addr count.toNat).isSome then 0 else -1
  | _, _ => return -1

/-- `cdbg_repl_cmd_quit` -/
def cdbgReplCmdQuit : DbgM ReplOutcome := do
  let _ ← stopDebuggee
  modifyDbg fun d => { d with lineno := {}, syms := {} }
  return .quit

/-! ### Dispatch -/

/-- A handler whose return code the grammar ignores; the outcome stays as it is. -/
def ignored (m : DbgM Int) : DbgM (Option ReplOutcome) := do
  let _ ← m
  return none

/-- A handler whose outcome the grammar stores. -/
def stored (m : DbgM ReplOutcome) : DbgM (Option ReplOutcome) := some <$> m

/-- Run an action; what only prints (`help`, `leaks`, `dis`, `lines`, `lists`, `syms` and the
messages) leaves the state as it is. -/
def Action.run (env : ExprEnv) : Action → DbgM (Option ReplOutcome)
  | .cmdRun args => ignored (Debugger.cmdRun env args)
  | .cdbgReplCmdContinue => stored Debugger.cdbgReplCmdContinue
  | .cdbgReplCmdStep => stored Debugger.cdbgReplCmdStep
  | .cdbgReplCmdSi => stored Debugger.cdbgReplCmdSi
  | .cdbgReplCmdNext => stored Debugger.cdbgReplCmdNext
  | .cdbgFrameUp => ignored Debugger.cdbgFrameUp
  | .cdbgReplCmdRegs => stored Debugger.cdbgReplCmdRegs
  | .cmdPrintFromRepl cmd rest => ignored (cmdPrint env (printText cmd rest))
  | .cmdSet args => ignored (cmdSetLine env args)
  | .cmdShow args => ignored (Debugger.cmdShow env args)
  | .cmdBacktrace => ignored cdbgRefreshRegs
  | .cmdThreads => ignored Debugger.cmdThreads
  | .cmdThread args => ignored (Debugger.cmdThread args)
  | .cmdLock args => ignored (Debugger.cmdLock (some args))
  | .cmdUnlock => ignored Debugger.cmdUnlock
  | .cmdBreak target => ignored (Debugger.cmdBreak target)
  | .cmdDel args => ignored (Debugger.cmdDel args)
  | .cmdWatch expr => do
    let s ← get
    ignored (Debugger.cmdWatch expr (env.resolveLvalue (watchText expr) s))
  | .cmdUnwatch args => ignored (Debugger.cmdUnwatch args)
  | .cmdList target => ignored (Debugger.cmdList target)
  | .cmdExamine addrText countText => ignored (Debugger.cmdExamine addrText countText)
  | .cdbgReplCmdKill => stored Debugger.cdbgReplCmdKill
  | .cdbgReplCmdQuit => stored Debugger.cdbgReplCmdQuit
  | _ => return none

/-- Run actions in order; each may overwrite the outcome. -/
def runActions (env : ExprEnv) : List Action → ReplOutcome → DbgM ReplOutcome
  | [], outcome => return outcome
  | a :: as, outcome => do
    let stored ← a.run env
    runActions env as (stored.getD outcome)

/-- `cdbg_repl_dispatch_line` -/
def cdbgReplDispatchLine (env : ExprEnv) (line : CStr) : DbgM ReplOutcome :=
  runActions env (parse grammar (lexLine line)).1 .ok

end Debugger
