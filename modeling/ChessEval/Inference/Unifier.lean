import ChessEval.Inference.Constraint
import ChessEval.Ty.Operators

/-!
# Solving constraints

Slots that have the same type form a class, and the root of a class holds its type. A constraint can
merge two classes or make the type of a class more specific; two types that do not unify are a
conflict. The constraints on elements are applied again and again until a sweep changes nothing.
-/

namespace ChessEval

/-- The link from each slot towards the root of its class, and the types that roots hold. -/
structure Unifier where
  parent : Array Nat
  types : Array Ty
deriving DecidableEq, Repr

/-- A step on a unifier. A step that fails keeps the links it has shortened. -/
abbrev Unify := ExceptT Issue (StateM Unifier)

namespace Unifier

def ofTypes (types : Array Ty) : Unifier :=
  ⟨Array.range types.size, types⟩

def link (parent : Array Nat) (slot : Nat) : Nat :=
  parent.getD slot slot

/-- The slot at the end of at most the given number of links. -/
def follow (parent : Array Nat) : Nat → Nat → Nat
  | 0, slot => slot
  | count + 1, slot =>
    if link parent slot = slot then slot else follow parent count (link parent slot)

/-- The root of a slot's class. No path has more links than there are slots. -/
def root (u : Unifier) (slot : Nat) : Nat :=
  follow u.parent u.parent.size slot

/-- Links every slot on a path to the root directly, over at most the given number of links. -/
def shorten (root : Nat) : Nat → Array Nat → Nat → Array Nat
  | 0, parent, _ => parent
  | count + 1, parent, slot =>
    if link parent slot = root then parent
    else shorten root count (parent.setIfInBounds slot root) (link parent slot)

/-- The unifier after the path from a slot to its root has been shortened. -/
def compress (u : Unifier) (slot : Nat) : Unifier :=
  { u with parent := shorten (u.root slot) u.parent.size u.parent slot }

def typeAt (u : Unifier) (slot : Nat) : Ty :=
  u.types.getD (u.root slot) .generic

end Unifier

namespace Unify

/-- The root of a slot's class. The path to it is shortened. -/
def find (slot : Nat) : Unify Nat := do
  let u ← get
  set (u.compress slot)
  return u.root slot

def typeOf (slot : Nat) : Unify Ty := do
  let root ← find slot
  return (← get).types.getD root .generic

/-- Makes the class of a slot at least of the given type, and says whether it was not before. -/
def fix (slot : Nat) (type : Ty) : Unify Bool := do
  let root ← find slot
  let u ← get
  let current := u.types.getD root .generic
  if current.unifies type then
    let merged := current.merge type
    set { u with types := u.types.setIfInBounds root merged }
    return merged != current
  else throw (.inferenceConflict current.name type.name)

/-- Merges the classes of two slots. The root of the first one stays. -/
def union (left right : Nat) : Unify Unit := do
  let leftRoot ← find left
  let rightRoot ← find right
  if leftRoot = rightRoot then return
  else
    let rightType := (← get).types.getD rightRoot .generic
    let _ ← fix leftRoot rightType
    modify fun u => { u with parent := u.parent.setIfInBounds rightRoot leftRoot }

/-- Brings an array and its element in line, and says whether anything changed. -/
def element (array element : Nat) : Unify Bool := do
  let arrayType ← typeOf array
  let elementType ← typeOf element
  let arrayChanged ← fix array (.array elementType)
  match arrayType.element? with
  | .ok known =>
    let elementChanged ← fix element known
    return arrayChanged || elementChanged
  | .error _ => return arrayChanged

/-- Brings all arrays and elements in line once, and says whether anything changed. -/
def sweep : List (Nat × Nat) → Unify Bool
  | [] => return false
  | (array, e) :: rest => do
    let first ← element array e
    let others ← sweep rest
    return first || others

/-- Sweeps until nothing changes, and says whether that happened within the given number of
sweeps. -/
def settle (elements : List (Nat × Nat)) : Nat → Unify Bool
  | 0 => return false
  | limit + 1 => do
    if ← sweep elements then settle elements limit else return true

/-- Applies the constraints that need to be applied only once. -/
def applyAll : List Constraint → Unify Unit
  | [] => return
  | .fixed slot type :: rest => do
    let _ ← fix slot type
    applyAll rest
  | .equal left right :: rest => do
    union left right
    applyAll rest
  | .element .. :: rest => applyAll rest

def elementPairs : List Constraint → List (Nat × Nat)
  | [] => []
  | .element array e :: rest => (array, e) :: elementPairs rest
  | _ :: rest => elementPairs rest

/-- Solves constraints, and says whether the types settled within the given number of sweeps. -/
def solve (limit : Nat) (constraints : List Constraint) : Unify Bool := do
  applyAll constraints
  settle (elementPairs constraints) limit

end Unify

end ChessEval
