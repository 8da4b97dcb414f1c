import ChessEval.Ty.Basic

/-!
# Headers

A function can have several headers, which differ in the types of their parameters. A call selects the
header that its arguments fit.
-/

namespace ChessEval

/-- The parameters of a function: their types, and which of them are passed by reference. -/
structure Header where
  params : List Ty
  byReference : List Bool
  predefined : Bool
deriving DecidableEq, Repr

namespace Header

def ofParams (params : List Ty) (byReference : List Bool) : Header :=
  ⟨params, byReference, false⟩

/-- A header of a predefined function, which takes nothing by reference. -/
def ofPredefined (params : List Ty) : Header :=
  ⟨params, List.replicate params.length false, true⟩

/-- Headers with the same parameter types cannot stand beside each other. -/
def conflicts (h k : Header) : Bool :=
  h.params == k.params

/-- Whether arguments unify with parameters one by one, and there are as many of them. -/
def fits : List Ty → List Ty → Bool
  | [], [] => true
  | param :: params, argument :: arguments => param.unifies argument && fits params arguments
  | _, _ => false

/-- Whether a call with arguments of the given types can mean this header. -/
def accepts (h : Header) (arguments : List Ty) : Bool :=
  fits h.params arguments

def paramText (type : Ty) (byReference : Bool) : String :=
  if byReference then "&" ++ type.name else type.name

def text (h : Header) : String :=
  "(" ++ ", ".intercalate (List.zipWith paramText h.params h.byReference) ++ ")"

def listing (name : String) (headers : List Header) : String :=
  ", ".intercalate (headers.map fun h => name ++ h.text)

end Header

structure FunctionEntry where
  returnType : Ty
  headers : List Header
deriving DecidableEq, Repr

structure ResolvedCall where
  returnType : Ty
  header : Header
deriving DecidableEq, Repr

end ChessEval
