import ChessEval.Ty.Basic

/-!
# Type tables

The types found for the nodes of a program, by the numbers of the nodes. Analysis records a type once;
inference replaces it.
-/

namespace ChessEval

/-- The type of each node, if it has been found. -/
structure TypeTable where
  entries : Array (Option Ty)
deriving DecidableEq, Repr, Inhabited

namespace TypeTable

def ofSize (size : Nat) : TypeTable :=
  ⟨Array.replicate size none⟩

def get? (t : TypeTable) (id : Nat) : Option Ty :=
  t.entries.getD id none

/-- The type of a node, `generic` if it has not been found. -/
def typeOf (t : TypeTable) (id : Nat) : Ty :=
  (t.get? id).getD .generic

def grow (t : TypeTable) (id : Nat) : TypeTable :=
  ⟨t.entries ++ Array.replicate (id + 1 - t.entries.size) none⟩

def resolve (t : TypeTable) (id : Nat) (type : Ty) : TypeTable :=
  ⟨(t.grow id).entries.setIfInBounds id (some type)⟩

def record (t : TypeTable) (id : Nat) (type : Ty) : TypeTable :=
  match t.get? id with
  | some _ => t
  | none => t.resolve id type

end TypeTable

end ChessEval
