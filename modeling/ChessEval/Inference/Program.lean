import ChessEval.Inference.Unifier

/-!
# Inference

Inference replaces the placeholders that the analysis of a correct program has left by the types that
the uses of a value ask for. Types that keep growing, because one would have to contain itself, never
settle; then there is no result.
-/

namespace ChessEval

/-- The number of brackets around the innermost part of a type. -/
def Ty.depth : Ty → Nat
  | .array element => element.depth + 1
  | _ => 0

def Constraint.depth : Constraint → Nat
  | .fixed _ type => type.depth
  | _ => 0

namespace Analysis

def nodeCount (a : Analysis) (p : Program) : Nat :=
  max p.exprCount a.types.entries.size

/-- The types that slots start with: those of the nodes, and `generic` for loop variables. -/
def initialTypes (a : Analysis) (nodes slots : Nat) : Array Ty :=
  ((List.range nodes).map a.types.typeOf ++ List.replicate (slots - nodes) Ty.generic).toArray

/-- A number of sweeps within which constraints settle or come to a conflict, if they ever do. A class
whose type is at most `d` deep can become more specific at most `3 * d + 2` times, and no type of the
least solution is deeper than the types at the start and the element constraints together. -/
def sweepLimit (types : Array Ty) (constraints : List Constraint) : Nat :=
  let depths := types.toList.map Ty.depth ++ constraints.map Constraint.depth
  let deepest := depths.foldl max 0 + constraints.length
  types.size * (3 * deepest + 2) + 1

/-- Replaces the types of the nodes that have one by those of their slots. -/
def writeBack (u : Unifier) (nodes : Nat) (types : TypeTable) : TypeTable :=
  (List.range nodes).foldl
    (fun t id => if (t.get? id).isSome then t.resolve id (u.typeAt id) else t) types

def unresolvedSources (types : TypeTable) (file : String) (sources : List LoopSource)
    (diagnostics : Diagnostics) : Diagnostics :=
  sources.foldl
    (fun ds s =>
      if (types.typeOf s.id).isResolved then ds
      else ds.add ⟨.unresolvedForallSource s.name, s.context.line, file⟩ s.context.place)
    diagnostics

def unresolvedLists (types : TypeTable) (file : String) (lists : List EmptyListUse)
    (diagnostics : Diagnostics) : Diagnostics :=
  lists.foldl
    (fun ds l =>
      if (types.typeOf l.id).isResolved then ds
      else ds.add ⟨.unresolvedEmptyArray, l.context.line, file⟩ l.context.place)
    diagnostics

/-- Inference with at most the given number of sweeps: the analysis and the diagnostics after it, or
nothing if the types have not settled. After a conflict the types stay as they were. -/
def inferWithin (limit : Nat) (a : Analysis) (p : Program) (diagnostics : Diagnostics) :
    Option (Analysis × Diagnostics) :=
  let nodes := a.nodeCount p
  let collection := a.collect p nodes
  let start := Unifier.ofTypes (a.initialTypes nodes collection.nextSlot)
  match (Unify.solve limit collection.constraints).run start with
  | (.error issue, _) => some (a, diagnostics.add ⟨issue, 0, p.file⟩ none)
  | (.ok false, _) => none
  | (.ok true, u) =>
    let types := writeBack u nodes a.types
    let diagnostics := unresolvedSources types p.file collection.sources diagnostics
    let diagnostics := unresolvedLists types p.file collection.emptyLists diagnostics
    some ({ a with types := types }, diagnostics)

/-- A number of sweeps that is enough for the constraints of a program, if any is. -/
def inferenceLimit (a : Analysis) (p : Program) : Nat :=
  let nodes := a.nodeCount p
  let collection := a.collect p nodes
  sweepLimit (a.initialTypes nodes collection.nextSlot) collection.constraints

/-- Inference: the analysis and the diagnostics after it, or nothing if the types never settle. -/
def infer (a : Analysis) (p : Program) (diagnostics : Diagnostics) :
    Option (Analysis × Diagnostics) :=
  a.inferWithin (a.inferenceLimit p) p diagnostics

end Analysis

end ChessEval
