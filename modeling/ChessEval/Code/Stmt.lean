import ChessEval.Code.Expr
import ChessEval.Code.Line

/-!
# Code of statements

A statement becomes lines of code. What its expressions need comes on lines before it.
-/

namespace ChessEval.Code

/-- The number of the next temporary variable, and the number of blocks around the next line. -/
structure Counters where
  nextTemp : Nat
  level : Nat
deriving DecidableEq, Repr

/-- A step of generation, which counts temporary variables and open blocks, and can fail. -/
abbrev Generate := StateT Counters (Except Fault)

/-- What all statements of a program share. -/
structure Scene where
  file : String
  analysis : Analysis
  /-- Whether the statement belongs to a rule, where every result is a score. -/
  inRule : Bool
deriving DecidableEq, Repr

namespace Generate

/-- Lines at the current level. -/
def emitAll (texts : List String) : Generate (List Line) := fun c =>
  .ok (Line.all c.level texts, c)

def emit (text : String) : Generate (List Line) :=
  emitAll [text]

def indent : Generate Unit :=
  modify fun c => { c with level := c.level + 1 }

/-- Goes back by one level, if there is one. -/
def dedent : Generate Unit :=
  modify fun c => { c with level := c.level - 1 }

/-- The lines of a block, one level further in. -/
def nested (block : Generate (List Line)) : Generate (List Line) := do
  indent
  let lines ← block
  dedent
  return lines

def expr (s : Scene) (e : Expr) : Generate (String × List String) := fun c =>
  match (Code.expr s.file s.analysis e).run ⟨c.nextTemp, []⟩ with
  | (.ok code, h) => .ok ((code, h.lines), { c with nextTemp := h.nextTemp })
  | (.error fault, _) => .error fault

def temp (sort : String) : Generate String := fun c =>
  .ok (sort ++ "_" ++ toString c.nextTemp, { c with nextTemp := c.nextTemp + 1 })

def typeCode (s : Scene) (type : Ty) (line : Nat) : Generate String := fun c =>
  match Code.typeCode s.file type line with
  | .ok text => .ok (text, c)
  | .error fault => .error fault

def declarator (s : Scene) (type : Ty) (typeText : String) (d : Declarator) : Generate (List Line) := do
  let start := typeText ++ " " ++ variableName d.name
  match d.value with
  | some value =>
    let (code, before) ← expr s value
    emitAll (before ++ [start ++ " = " ++ code ++ ";"])
  | none =>
    match type.defaultCode? with
    | some code => emit (start ++ " = " ++ code ++ ";")
    | none => emit (start ++ ";")

def declarators (s : Scene) (type : Ty) (typeText : String) : List Declarator → Generate (List Line)
  | [] => return []
  | d :: rest => do
    let first ← declarator s type typeText d
    let others ← declarators s type typeText rest
    return first ++ others

def elementType : Ty → Ty
  | .array element => element
  | _ => .generic

def loopHead (vector iterator source : String) : String :=
  "for (" ++ vector ++ "::iterator " ++ iterator ++ " = " ++ source ++ ".begin(); " ++ iterator ++
    " != " ++ source ++ ".end(); ++" ++ iterator ++ ") \x7b"

def returns (s : Scene) : Option Expr → Generate (List Line)
  | value =>
    if s.inRule then emit "return 0;"
    else
      match value with
      | some value => do
        let (code, before) ← expr s value
        emitAll (before ++ ["return " ++ code ++ ";"])
      | none => emit "return;"

mutual

def statement (s : Scene) : Stmt → Generate (List Line)
  | .declare type ds line => do
    let typeText ← typeCode s type line
    declarators s type typeText ds
  | .assign target value _ => do
    let (targetCode, beforeTarget) ← expr s target
    let (valueCode, beforeValue) ← expr s value
    emitAll (beforeTarget ++ beforeValue ++ [targetCode ++ " = " ++ valueCode ++ ";"])
  | .ifThen condition thenBody none _ => do
    let (code, before) ← expr s condition
    let head ← emitAll (before ++ ["if (" ++ code ++ ") \x7b"])
    let thenLines ← nested (statements s thenBody)
    let close ← emit "\x7d"
    return head ++ thenLines ++ close
  | .ifThen condition thenBody (some elseBody) _ => do
    let (code, before) ← expr s condition
    let head ← emitAll (before ++ ["if (" ++ code ++ ") \x7b"])
    let thenLines ← nested (statements s thenBody)
    let middle ← emit "\x7d else \x7b"
    let elseLines ← nested (statements s elseBody)
    let close ← emit "\x7d"
    return head ++ thenLines ++ middle ++ elseLines ++ close
  | .whileDo condition body _ => do
    let (code, before) ← expr s condition
    if before.isEmpty then
      let head ← emit ("while (" ++ code ++ ") \x7b")
      let lines ← nested (statements s body)
      let close ← emit "\x7d"
      return head ++ lines ++ close
    else
      -- the condition's own lines have to run before every check of it
      let head ← emit "while (true) \x7b"
      indent
      let check ← emitAll (before ++ ["if (!(" ++ code ++ ")) break;"])
      let lines ← statements s body
      dedent
      let close ← emit "\x7d"
      return head ++ check ++ lines ++ close
  | .forAll name source body line => do
    let (code, before) ← expr s source
    let type := s.analysis.types.typeOf source.id
    let vector ← typeCode s type line
    let element ← typeCode s (elementType type) line
    let copy ← temp "_src"
    let iterator ← temp "_it"
    let head ← emitAll
      (before ++ [vector ++ " " ++ copy ++ " = " ++ code ++ ";", loopHead vector iterator copy])
    indent
    let first ← emit (element ++ " " ++ variableName name ++ " = *" ++ iterator ++ ";")
    let lines ← statements s body
    dedent
    let close ← emit "\x7d"
    return head ++ first ++ lines ++ close
  | .returns value _ => returns s value
  | .score value _ => do
    let (code, before) ← expr s value
    emitAll (before ++ ["return " ++ code ++ ";"])
  | .call site _ => do
    let (code, before) ← expr s site
    emitAll (before ++ [code ++ ";"])

def statements (s : Scene) : List Stmt → Generate (List Line)
  | [] => return []
  | first :: rest => do
    let lines ← statement s first
    let others ← statements s rest
    return lines ++ others

end

end Generate

end ChessEval.Code
