import ChessEval.Check.Program
import ChessEval.Code.Unit
import ChessEval.Inference.Program
import ChessEval.Program.Parser
import ChessEval.Token.Scan

/-!
# Compilations

A compilation takes a program through its stages. A stage is entered only from the one before it; a
request at any other time changes nothing. A compilation whose types never settle has no next state.
-/

namespace ChessEval

/-- How far a compilation has come. -/
inductive Stage where
  | parsed
  | checked
  | inferred
  | generated
  | failed
deriving DecidableEq, Repr

def Stage.name : Stage → String
  | .parsed => "Parsed"
  | .checked => "Checked"
  | .inferred => "Inferred"
  | .generated => "Generated"
  | .failed => "Failed"

def Program.ofSource (source file : String) : Except Fault Program :=
  match Token.ofSource source file with
  | .error fault => .error fault
  | .ok tokens => (Program.ofTokens tokens file).1

/-- A program on its way to generated code. -/
structure Compilation where
  program : Program
  analysis : Option Analysis
  diagnostics : Diagnostics
  output : Option String
  stage : Stage

namespace Compilation

def ofProgram (p : Program) : Compilation :=
  ⟨p, none, {}, none, .parsed⟩

def stageAfter (diagnostics : Diagnostics) (stage : Stage) : Stage :=
  if diagnostics.hasErrors then .failed else stage

def check (c : Compilation) : Compilation :=
  if c.stage = .parsed then
    let (analysis, diagnostics) := c.program.check c.diagnostics
    { c with
      analysis := some analysis
      diagnostics := diagnostics
      stage := stageAfter diagnostics .checked }
  else c

/-- Infers the types of a program that has been checked. -/
def infer (c : Compilation) : Option Compilation :=
  if c.stage = .checked then
    match c.analysis with
    | none => some { c with stage := stageAfter c.diagnostics .inferred }
    | some analysis =>
      (analysis.infer c.program c.diagnostics).map fun (analysis, diagnostics) =>
        { c with
          analysis := some analysis
          diagnostics := diagnostics
          stage := stageAfter diagnostics .inferred }
  else some c

/-- Generates the code of a program whose types are known. -/
def generate (c : Compilation) : Compilation :=
  if c.stage = .inferred then
    match c.analysis with
    | none => c
    | some analysis =>
      match Code.generate c.program analysis with
      | .ok output => { c with output := some output, stage := .generated }
      | .error fault => { c with diagnostics := c.diagnostics.add fault none, stage := .failed }
  else c

/-- Goes through all remaining stages, up to the first failure. -/
def run (c : Compilation) : Option Compilation :=
  c.check.infer.map generate

inductive Request where
  | check
  | infer
  | generate
  | run
deriving DecidableEq, Repr

def request (c : Compilation) : Request → Option Compilation
  | .check => some c.check
  | .infer => c.infer
  | .generate => some c.generate
  | .run => c.run

def requests (c : Compilation) : List Request → Option Compilation
  | [] => some c
  | r :: rest =>
    match c.request r with
    | none => none
    | some c => c.requests rest

end Compilation

end ChessEval
