/-!
# Contexts

A context is where a diagnostic belongs: a line, and the definition around it if there is one.
-/

namespace ChessEval

inductive DefinitionKind where
  | global
  | function
  | rule
deriving DecidableEq, Repr

def DefinitionKind.name : DefinitionKind → String
  | .global => "Global"
  | .function => "Function"
  | .rule => "Rule"

structure Place where
  kind : DefinitionKind
  name : String
  line : Nat
deriving DecidableEq, Repr

def Place.text (p : Place) : String :=
  p.kind.name ++ ": " ++ p.name ++ ", line " ++ toString p.line

structure Context where
  line : Nat
  definition : Option Place
deriving DecidableEq, Repr

namespace Context

def topLevel (line : Nat) : Context :=
  ⟨line, none⟩

def ofDefinition (kind : DefinitionKind) (name : String) (line : Nat) : Context :=
  ⟨line, some ⟨kind, name, line⟩⟩

def moveTo (c : Context) (line : Nat) : Context :=
  { c with line := line }

/-- The definition as messages show it. -/
def place (c : Context) : Option String :=
  c.definition.map Place.text

end Context

end ChessEval
