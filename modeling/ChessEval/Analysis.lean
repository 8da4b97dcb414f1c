import ChessEval.Config
import ChessEval.Context
import ChessEval.Declarations
import ChessEval.Diagnostic
import ChessEval.TypeTable

/-!
# Analyses

What the analysis of a program finds, and the steps it is made of. Every step can file diagnostics and
goes on after them.
-/

namespace ChessEval

/-- What is known about a program: its declarations, the types of its nodes, the headers that its
calls mean, latest first, and its settings. -/
structure Analysis where
  declarations : Declarations
  types : TypeTable
  calls : List (Nat × Header)
  config : Config
deriving DecidableEq, Repr

namespace Analysis

def header? (a : Analysis) (id : Nat) : Option Header :=
  a.calls.lookup id

/-- What is known before the analysis of a program with the given number of nodes. -/
def initial (exprCount : Nat) : Analysis :=
  ⟨{}, .ofSize exprCount, [], Config.default⟩

end Analysis

/-- An analysis under way. -/
structure Inspection where
  file : String
  analysis : Analysis
  diagnostics : Diagnostics
deriving DecidableEq, Repr

abbrev Inspect := StateM Inspection

namespace Inspect

def report (context : Context) (issue : Issue) : Inspect Unit :=
  modify fun s =>
    { s with diagnostics := s.diagnostics.add ⟨issue, context.line, s.file⟩ context.place }

def reportAll (context : Context) : List (Issue × Nat) → Inspect Unit
  | [] => return
  | (issue, line) :: rest => do
    report (context.moveTo line) issue
    reportAll context rest

def analysis : Inspect Analysis :=
  return (← get).analysis

def update (f : Analysis → Analysis) : Inspect Unit :=
  modify fun s => { s with analysis := f s.analysis }

/-- Makes a declaration, or files the issue that prevents it and leaves the declarations alone. -/
def declare (context : Context) (change : Declarations → Except Issue Declarations) :
    Inspect Unit := do
  match change (← analysis).declarations with
  | .ok declarations => update fun a => { a with declarations := declarations }
  | .error issue => report context issue

def openScope : Inspect Unit :=
  update fun a => { a with declarations := a.declarations.openScope }

/-- Closes the innermost scope, with a warning for every variable in it that was never read. -/
def closeScope (context : Context) : Inspect Unit := do
  match (← analysis).declarations.closeScope with
  | .ok (unused, declarations) =>
    update fun a => { a with declarations := declarations }
    reportAll context (unused.map fun (name, line) => (.unusedVariable name, line))
  | .error issue => report (context.moveTo 0) issue

end Inspect

end ChessEval
