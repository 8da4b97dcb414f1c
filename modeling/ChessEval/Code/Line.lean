/-!
# Lines of generated code
-/

namespace ChessEval.Code

/-- A line of generated code and the number of blocks around it. -/
structure Line where
  level : Nat
  text : String
deriving DecidableEq, Repr

namespace Line

def top (text : String) : Line :=
  ⟨0, text⟩

def all (level : Nat) (texts : List String) : List Line :=
  texts.map fun text => ⟨level, text⟩

/-- A line as it is written: four spaces for each block around it, none on an empty line. -/
def render (line : Line) : String :=
  if line.text.isEmpty then "" else String.ofList (List.replicate (4 * line.level) ' ') ++ line.text

end Line

def render (lines : List Line) : String :=
  "\n".intercalate (lines.map Line.render) ++ "\n"

end ChessEval.Code
