import Debugger.Repl
import Debugger.Frame
import Debugger.Wait
import Debugger.Control
import Debugger.Prompt
import Debugger.SuspendCounts
import Debugger.DebuggeeExit
import Debugger.Report
import Debugger.PrimaryStep
import Debugger.Traced
import Debugger.DebugRegs
import Debugger.StaleSlots
import Debugger.WatchCover
import Debugger.Deletion
import Debugger.Hits
import Debugger.Lib.Overlay
import Debugger.Overlay
import Debugger.Restart
import Debugger.CmdLine
import Debugger.Dispatch
import Debugger.Lib.Flex
import Debugger.Lib.OpPrec
import Debugger.Ast
import Debugger.ExprSyntax
import Debugger.RoundTrip
import Debugger.AstEval
import Debugger.VarInfo
import Debugger.Lib.LittleEndian
import Debugger.PrintPaths
import Debugger.SetFrame
import Debugger.CTypes
import Debugger.AccessPath
import Debugger.StepOver
import Debugger.NextHits
import Debugger.SharedStop
import Debugger.DebugState
import Debugger.LineAtPc
import Debugger.Reader
import Debugger.LineTableEnds
import Debugger.FileTables
import Debugger.FirstChange
import Debugger.Lib.Substring
import Debugger.Dwarfdump
import Debugger.Lib.Blocks
import Debugger.SeenDies
import Debugger.LocalVar
import Debugger.ShowVars
import Debugger.StructMembers
import Debugger.TrapArch
import Debugger.Shown
import Debugger.Lib.Erasing
import Debugger.NamedEntries
import Debugger.SlotWrites
import Debugger.WatchSize
import Debugger.WatchAtomic
import Debugger.WatchHistory
import Debugger.FrozenThreads
import Debugger.Attempts
import Debugger.TempBreakpoint
import Debugger.Lib.SparseTable
import Debugger.DwarfdumpLines
import Debugger.Lib.TwosComplement
import Debugger.SignedArith
import Debugger.FloatResults
import Debugger.Failures
import Debugger.EvalOps
import Debugger.Subscript
import Debugger.StructNames
import Debugger.Literals
import Debugger.SplitAssign
import Debugger.MemWrite
import Debugger.Scalars
import Debugger.WatchFlags
import Debugger.Extended80
import Debugger.RegFile
import Debugger.RegNames
import Debugger.Unwind
import Debugger.Lib.Leb128
import Debugger.LineReads
import Debugger.LineOps
import Debugger.LineMachine
import Debugger.LineAccess
import Debugger.LineFaults
import Debugger.Lib.Reading
import Debugger.MachO
import Debugger.MachOReads
import Debugger.Lib.Scan
import Debugger.LineLookups
import Debugger.SequenceStarts
import Debugger.BreakTargets
import Debugger.SymNames
import Debugger.GlobalsOnce
import Debugger.Lib.Runs
import Debugger.LineTablePrint
import Debugger.Disassembly
import Debugger.DisasmLines
import Debugger.MachOImage
import Debugger.SymLoad
import Debugger.SourceWindow
import Debugger.OtoolListing
import Debugger.TypeDisplay
import Debugger.PrintText
import Debugger.PrintAggregates
import Debugger.SetThenPrint
import Debugger.Lib.Obeys
import Debugger.Edits
import Debugger.Tables
import Debugger.TableBounds
import Debugger.TraceTurns
import Debugger.LineLoad
import Debugger.Relocation
import Debugger.Listings
import Debugger.ThreadListing
import Debugger.MemRead
