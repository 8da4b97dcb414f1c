import ChessEval.Number.Shortest
import ChessEval.Text.Blank
import ChessEval.Text.Glyphless
import ChessEval.Text.Lines
import ChessEval.Text.Quoted
import ChessEval.Diagnostic
import ChessEval.Ty.Basic
import ChessEval.Ty.Operators
import ChessEval.Text.Cursor
import ChessEval.Token.Basic
import ChessEval.Token.Pattern
import ChessEval.Token.Scan
import ChessEval.Expr.Basic
import ChessEval.Program.Basic
import ChessEval.Dump
import ChessEval.Program.Dump
import ChessEval.Expr.Parser
import ChessEval.Program.Parser
import ChessEval.Config
import ChessEval.Declarations
import ChessEval.Predefined
import ChessEval.TypeTable
import ChessEval.Analysis
import ChessEval.Check.Expr
import ChessEval.Check.Program
import ChessEval.Inference.Constraint
import ChessEval.Inference.Program
import ChessEval.Code.Expr
import ChessEval.Code.Line
import ChessEval.Code.Stmt
import ChessEval.Code.Unit
import ChessEval.Compilation
import ChessEval.Command.FileTree
import ChessEval.Main
import ChessEval.Proofs.Specificity
import ChessEval.Proofs.UnionFind
import ChessEval.Proofs.Solving
import ChessEval.Proofs.Runs
import ChessEval.Proofs.Nodes
import ChessEval.Proofs.Printing
import ChessEval.Proofs.BoardTexts
import ChessEval.Proofs.Grammar
import ChessEval.Proofs.GrammarPrograms
import ChessEval.Proofs.NodeNumbers
import ChessEval.Proofs.Typing
import ChessEval.Proofs.Inspecting
import ChessEval.Proofs.Checking
import ChessEval.Proofs.ProgramChecking
import ChessEval.Proofs.Collecting
import ChessEval.Proofs.ProgramCollecting
import ChessEval.Proofs.OperandTypes
import ChessEval.Proofs.InferredTypes
import ChessEval.Proofs.Overloads
import ChessEval.Proofs.Guards
import ChessEval.Proofs.WellTyped
import ChessEval.Proofs.Spelling
import ChessEval.Proofs.FunctionNames
import ChessEval.Proofs.Generation
import ChessEval.Proofs.Recording
import ChessEval.Proofs.CallTargets
import ChessEval.Proofs.KnownTypes
import ChessEval.Proofs.Settling
import ChessEval.Proofs.CheckedTypes
import ChessEval.Proofs.Progress
import ChessEval.Proofs.Target
import ChessEval.Proofs.Translating
import ChessEval.Proofs.Scoping
import ChessEval.Proofs.Lookups
import ChessEval.Proofs.Stages
import ChessEval.Proofs.Bindings
import ChessEval.Proofs.Phases
import ChessEval.Proofs.Binders
import ChessEval.Proofs.LoopLinks
import ChessEval.Proofs.LoopVariables
import ChessEval.Proofs.LoopBlocks
import ChessEval.Proofs.Conflicts
import ChessEval.Proofs.Startup
import ChessEval.Proofs.Occurrences
import ChessEval.Proofs.ScopeStack
import ChessEval.Proofs.LexicalNames
import ChessEval.Proofs.TokenReading
import ChessEval.Proofs.Rereading
import ChessEval.Proofs.RereadingStatements
import ChessEval.Proofs.RereadingPrograms
import ChessEval.Proofs.RoundTrip
import ChessEval.Proofs.Patterns
import ChessEval.Proofs.Segments
import ChessEval.Proofs.Relexing
import ChessEval.Proofs.Filings
import ChessEval.Proofs.Lockstep
import ChessEval.Proofs.Modularity
import ChessEval.Proofs.DefinitionOrder
import ChessEval.Proofs.ComputedOnce
import ChessEval.Proofs.Appraisal
import ChessEval.Proofs.ExecutionPaths
import ChessEval.Proofs.LooserOperands
import ChessEval.Proofs.ScopeCalls
import ChessEval.Proofs.UndeclaredNames
import ChessEval.Proofs.Hoisting
import ChessEval.Proofs.OverloadCalls
import ChessEval.Proofs.LineForms
import ChessEval.Proofs.NamesInCode
import ChessEval.Proofs.Brackets
import ChessEval.Proofs.Temporaries
import ChessEval.Proofs.ReaderProgress
import ChessEval.Proofs.FaultLines
import ChessEval.Proofs.OutputFiles
import ChessEval.Proofs.ScopeBalance
import ChessEval.Proofs.VoidTypes
import ChessEval.Proofs.SlotCalls
import ChessEval.Proofs.SweepLimit
