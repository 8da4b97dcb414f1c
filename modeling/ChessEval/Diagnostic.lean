import ChessEval.Issue

/-!
# Diagnostics

Analysis does not stop at the first fault. It collects all of them, with errors and warnings apart,
and shows each kind in the order of the lines.
-/

namespace ChessEval

/-- A fault and the definition it was found in. -/
structure Diagnostic where
  fault : Fault
  place : Option String
deriving DecidableEq, Repr

namespace Diagnostic

/-- The word that tells errors from warnings. -/
def severity (diagnostic : Diagnostic) : String :=
  if diagnostic.fault.issue.isWarning then "Warning" else "Error"

def render (diagnostic : Diagnostic) : String :=
  let fault := diagnostic.fault
  let head := diagnostic.severity ++ " (" ++ fault.file ++ ", line " ++ toString fault.line ++ "): " ++
    fault.issue.message ++ "."
  match diagnostic.place with
  | none => head
  | some place => head ++ "\n ** in " ++ place

end Diagnostic

/-- The errors and the warnings found so far, each in the order in which they were found. -/
structure Diagnostics where
  errors : List Diagnostic := []
  warnings : List Diagnostic := []
deriving DecidableEq, Repr, Inhabited

namespace Diagnostics

/-- Files a fault under errors or under warnings, after those found before it. -/
def add (ds : Diagnostics) (fault : Fault) (place : Option String) : Diagnostics :=
  if fault.issue.isWarning then { ds with warnings := ds.warnings ++ [⟨fault, place⟩] }
  else { ds with errors := ds.errors ++ [⟨fault, place⟩] }

/-- Whether anything keeps the program from being compiled. -/
def hasErrors (ds : Diagnostics) : Bool :=
  !ds.errors.isEmpty

def hasWarnings (ds : Diagnostics) : Bool :=
  !ds.warnings.isEmpty

def byLine (diagnostics : List Diagnostic) : List Diagnostic :=
  diagnostics.mergeSort fun a b => a.fault.line ≤ b.fault.line

def renderAll (diagnostics : List Diagnostic) : String :=
  String.join ((byLine diagnostics).map fun d => d.render ++ "\n")

def renderErrors (ds : Diagnostics) : String :=
  renderAll ds.errors ++ toString ds.errors.length ++
    " errors detected. The program has not been compiled.\n"

def renderWarnings (ds : Diagnostics) : String :=
  renderAll ds.warnings ++ toString ds.warnings.length ++ " warnings detected.\n"

end Diagnostics

end ChessEval
