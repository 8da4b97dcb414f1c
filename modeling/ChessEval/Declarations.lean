import ChessEval.Header
import ChessEval.Issue
import ChessEval.Schedule

/-!
# Declarations

What has been declared at a point of a program: variables in nested scopes, globals, functions with
their headers, and rules. A name means its innermost variable, or else the global of that name.
-/

namespace ChessEval

/-- A variable or a global: its type, the line of its declaration, and whether it has been read. -/
structure Binding where
  type : Ty
  line : Nat
  used : Bool
deriving DecidableEq, Repr

/-- The bindings of one block. No name is bound twice. -/
abbrev Scope := List (String × Binding)

namespace Scope

def find? (s : Scope) (name : String) : Option Binding :=
  s.lookup name

def markUsed (s : Scope) (name : String) : Scope :=
  s.map fun (n, b) => if n = name then (n, { b with used := true }) else (n, b)

def bind (s : Scope) (name : String) (type : Ty) (line : Nat) : Scope :=
  (name, ⟨type, line, false⟩) :: s

/-- The order of unused bindings: by line, then by name. -/
def earlier (a b : String × Nat) : Bool :=
  a.2 < b.2 || (a.2 == b.2 && a.1 ≤ b.1)

/-- The names that were never read, with the lines of their declarations. -/
def unused (s : Scope) : List (String × Nat) :=
  ((s.filter fun (_, b) => !b.used).map fun (n, b) => (n, b.line)).mergeSort earlier

end Scope

/-- Everything declared so far. The innermost scope comes first. -/
structure Declarations where
  scopes : List Scope := []
  globals : Scope := []
  functions : List (String × FunctionEntry) := []
  rules : List RuleEntry := []
deriving DecidableEq, Repr, Inhabited

namespace Declarations

def depth (d : Declarations) : Nat :=
  d.scopes.length

def openScope (d : Declarations) : Declarations :=
  { d with scopes := [] :: d.scopes }

/-- Closes the innermost scope and gives the names in it that were never read. -/
def closeScope (d : Declarations) : Except Issue (List (String × Nat) × Declarations) :=
  match d.scopes with
  | [] => .error .noActiveScope
  | scope :: outer => .ok (scope.unused, { d with scopes := outer })

def declare (d : Declarations) (name : String) (type : Ty) (line : Nat) :
    Except Issue Declarations :=
  match d.scopes with
  | [] => .error .noActiveScope
  | scope :: outer =>
    if (scope.find? name).isSome then .error (.variableRedeclared name)
    else .ok { d with scopes := scope.bind name type line :: outer }

/-- The type of the innermost variable of a name, and the scopes in which it has been read. -/
def readVariable (name : String) : List Scope → Option (Ty × List Scope)
  | [] => none
  | scope :: outer =>
    match scope.find? name with
    | some b => some (b.type, scope.markUsed name :: outer)
    | none => (readVariable name outer).map fun (type, outer) => (type, scope :: outer)

def read (d : Declarations) (name : String) : Option (Ty × Declarations) :=
  match readVariable name d.scopes with
  | some (type, scopes) => some (type, { d with scopes := scopes })
  | none =>
    (d.globals.find? name).map fun b =>
      (b.type, { d with globals := d.globals.markUsed name })

def defineGlobal (d : Declarations) (name : String) (type : Ty) (line : Nat) :
    Except Issue Declarations :=
  if (d.globals.find? name).isSome then .error (.globalRedeclared name)
  else .ok { d with globals := d.globals.bind name type line }

def global? (d : Declarations) (name : String) : Option Binding :=
  d.globals.find? name

def unusedGlobals (d : Declarations) : List (String × Nat) :=
  d.globals.unused

def function? (d : Declarations) (name : String) : Option FunctionEntry :=
  d.functions.lookup name

def addHeader (functions : List (String × FunctionEntry)) (name : String) (header : Header) :
    List (String × FunctionEntry) :=
  functions.map fun (n, f) =>
    if n = name then (n, { f with headers := f.headers ++ [header] }) else (n, f)

/-- Defines a function or a further header of one. All headers of a function have the same result
type and different parameter types. -/
def defineFunction (d : Declarations) (name : String) (returnType : Ty) (header : Header) :
    Except Issue Declarations :=
  match d.function? name with
  | none => .ok { d with functions := d.functions ++ [(name, ⟨returnType, [header]⟩)] }
  | some f =>
    if f.returnType ≠ returnType then
      .error (.returnTypeConflict name f.returnType.name returnType.name)
    else if f.headers.any fun h => h.conflicts header then
      .error (.functionRedeclared name header.text)
    else .ok { d with functions := addHeader d.functions name header }

def callText (name : String) (arguments : List Ty) : String :=
  name ++ "(" ++ ", ".intercalate (arguments.map Ty.name) ++ ")"

/-- The one header of a function that accepts arguments of the given types. -/
def resolveCall (d : Declarations) (name : String) (arguments : List Ty) :
    Except Issue ResolvedCall :=
  match d.function? name with
  | none => .error (.functionNotDeclared name)
  | some f =>
    match f.headers.filter fun h => h.accepts arguments with
    | [header] => .ok ⟨f.returnType, header⟩
    | [] =>
      .error (.noMatchingHeader name (callText name arguments) (Header.listing name f.headers))
    | candidates =>
      .error (.ambiguousCall (callText name arguments) (Header.listing name candidates))

def rule? (d : Declarations) (name : String) : Option RuleEntry :=
  d.rules.find? fun rule => rule.name == name

def defineRule (d : Declarations) (name : String) (schedule : Schedule) (line : Nat) :
    Except Issue Declarations :=
  if (d.rule? name).isSome then .error (.ruleRedeclared name)
  else .ok { d with rules := d.rules ++ [⟨name, schedule, line⟩] }

end Declarations

end ChessEval
