import ChessEval.Code.Stmt

/-!
# Code of programs

The generated file holds the settings, the globals, forward declarations, a preamble that initialises
the globals which cannot be initialised where they are declared, the functions and rules, and one
evaluation function for each phase of the game.
-/

namespace ChessEval.Code

open Generate

def includes : List String := [
  "#include \"generated_eval.h\"",
  "#include \"predefined_functions.h\"",
  "#include \"predefined_functions.tcc\"",
  "using namespace std;"]

def configValue : ConfigValue → String
  | .number value => value.code
  | .boolean value => boolean value

def settings (config : Config) : List String :=
  "// Configs" :: config.map fun s =>
    "const " ++ s.codeType ++ " " ++ s.name ++ " = " ++ configValue s.value ++ ";"

/-- The declarations of globals, the lines for the preamble, and the names of the globals that the
preamble initialises. -/
structure Globals where
  lines : List Line
  preamble : List String
  deferred : List String
deriving DecidableEq, Repr

/-- Whether a global can be initialised where it is declared: its value needs no lines before it, calls
no function that is not yet declared, and reads no global that the preamble initialises. -/
def isImmediate (a : Analysis) (deferred before : List String) (value : Expr) : Bool :=
  before.isEmpty && !callsDefined a value && !readsAny deferred value

def globals (s : Scene) (done : Globals) : List GlobalDef → Generate Globals
  | [] => return done
  | g :: rest => do
    let type ← Generate.typeCode s g.type g.line
    let (code, before) ← Generate.expr s g.value
    let name := variableName g.name
    if isImmediate s.analysis done.deferred before g.value then
      let line ← emit (type ++ " " ++ name ++ " = " ++ code ++ ";")
      globals s { done with lines := done.lines ++ line } rest
    else
      let line ← emit (type ++ " " ++ name ++ ";")
      globals s
        { lines := done.lines ++ line
          preamble := done.preamble ++ before ++ [name ++ " = " ++ code ++ ";"]
          deferred := g.name :: done.deferred } rest

def params (s : Scene) : List Param → Generate (List String)
  | [] => return []
  | p :: rest => do
    let type ← Generate.typeCode s p.type p.line
    let others ← params s rest
    return (type ++ (if p.byReference then "&" else "") ++ " " ++ variableName p.name) :: others

/-- The result type, the name and the parameters of a function. -/
def signature (s : Scene) (f : FunctionDef) : Generate String := do
  let returnType ← Generate.typeCode s f.returnType f.line
  let params ← params s f.params
  return returnType ++ " " ++ call (functionName f.name (f.params.map Param.type)) params

def functionHeaders (s : Scene) : List FunctionDef → Generate (List Line)
  | [] => return []
  | f :: rest => do
    let text ← signature s f
    let line ← emit (text ++ ";")
    let others ← functionHeaders s rest
    return line ++ others

/-- The forward declarations of functions and rules. -/
def headers (s : Scene) (p : Program) : Generate (List Line) := do
  let start ← emit "// Functions Headers"
  let functions ← functionHeaders s p.functions
  let rules ← emitAll (["", "// Rules Headers"] ++
    p.rules.map fun r => "long int " ++ ruleName r.name ++ "();")
  return start ++ functions ++ rules

/-- The function that initialises globals. -/
def preamble (lines : List String) : Generate (List Line) := do
  let head ← emit "void preamble() \x7b"
  indent
  let body ← emitAll lines
  dedent
  let close ← emit "\x7d"
  return head ++ body ++ close

def function (s : Scene) (f : FunctionDef) : Generate (List Line) := do
  let text ← signature s f
  let head ← emit (text ++ " \x7b")
  indent
  let body ← statements { s with inRule := false } f.body
  dedent
  let close ← emit "\x7d"
  return head ++ body ++ close

def guard (s : Scene) : Option Expr → Generate (List Line)
  | none => return []
  | some e => do
    let (code, before) ← Generate.expr s e
    emitAll (before ++ ["if (!(" ++ code ++ ")) return 0;"])

def rule (s : Scene) (r : RuleDef) : Generate (List Line) := do
  let head ← emit ("long int " ++ ruleName r.name ++ "() \x7b")
  indent
  let guardLines ← guard { s with inRule := true } r.guard
  let body ← statements { s with inRule := true } r.body
  let last ← emit "return 0;"
  dedent
  let close ← emit "\x7d"
  return head ++ guardLines ++ body ++ last ++ close

/-- The lines inside of the function that evaluates a phase: the sum of its rules, less the symmetric
ones among them seen from the rival's side. -/
def phaseTexts (rules : List RuleEntry) (ph : Phase) : List String :=
  let active := rules.filter fun r => r.schedule.runsIn ph
  let symmetric := active.filter fun r => r.schedule.symmetric
  let mirrored :=
    if symmetric.isEmpty then []
    else "invert_players();" :: symmetric.map fun r => "score -= " ++ ruleName r.name ++ "();"
  ["long int score = 0;"] ++ active.map (fun r => "score += " ++ ruleName r.name ++ "();") ++ ["reset();"] ++
    mirrored ++ ["return score;"]

def phase (rules : List RuleEntry) (ph : Phase) : Generate (List Line) := do
  let head ← emit ("long int " ++ phaseName ph ++ "() \x7b")
  indent
  let body ← emitAll (phaseTexts rules ph)
  dedent
  let close ← emit "\x7d"
  return head ++ body ++ close

/-- Parts of a file, each after an empty line. -/
def separated {α : Type} (block : α → Generate (List Line)) : List α → Generate (List Line)
  | [] => return []
  | x :: rest => do
    let empty ← emit ""
    let first ← block x
    let others ← separated block rest
    return empty ++ first ++ others

def file (p : Program) (a : Analysis) : Generate (List Line) := do
  let s : Scene := ⟨p.file, a, false⟩
  let start ← emitAll (includes ++ [""] ++ settings a.config ++ ["", "// Globals"])
  let globals ← globals s ⟨[], [], []⟩ p.globals
  let gap ← emit ""
  let headers ← headers s p
  let gap' ← emit ""
  let preamble ← preamble globals.preamble
  let functions ← separated (function s) p.functions
  let rules ← separated (rule s) p.rules
  let phases ← separated (phase a.declarations.rules) Phase.all
  return start ++ globals.lines ++ gap ++ headers ++ gap' ++ preamble ++ functions ++ rules ++ phases

/-- The lines of the file generated for a program, or the first fault that prevents it. -/
def lines (p : Program) (a : Analysis) : Except Fault (List Line) :=
  match (file p a).run ⟨0, 0⟩ with
  | .ok (lines, _) => .ok lines
  | .error fault => .error fault

def generate (p : Program) (a : Analysis) : Except Fault String :=
  match lines p a with
  | .ok lines => .ok (render lines)
  | .error fault => .error fault

end ChessEval.Code
