import ChessEval.Analysis
import ChessEval.Ty.Operators

/-!
# Types of expressions

Every node of an expression gets a type. A node with a fault gets the type `generic`, which fits
everywhere, so that one fault is filed only once.
-/

namespace ChessEval

def Literal.type : Literal → Ty
  | .number _ => .num
  | .boolean _ => .bool
  | .string _ => .string
  | .cell _ => .cell
  | .row _ => .row
  | .rank _ => .rank
  | .file _ => .file
  | .cellRange .. => .array .cell
  | .rowRange .. => .array .row
  | .rankRange .. => .array .rank
  | .fileRange .. => .array .file
  | .board .cells => .array .cell
  | .board .rows => .array .row
  | .board .ranks => .array .rank
  | .board .files => .array .file
  | .pieces _ => .array .piece
  | .player _ => .player

def BinaryOp.type (operator : BinaryOp) (left right : Ty) : Except OperandError Ty :=
  match operator with
  | .or | .and => left.logical right
  | .equal | .notEqual => left.equality right
  | .less | .lessEqual | .greater | .greaterEqual => left.ordered right
  | .add | .subtract | .multiply | .divide => left.arithmetic right
  | .elementOf => left.membership right
  | .concat => left.concatenation right

def UnaryOp.type (operator : UnaryOp) (operand : Ty) : Except OperandError Ty :=
  match operator with
  | .not => operand.negation
  | .negate | .absolute => operand.signed

namespace Inspect

/-- The type of a node: the recorded one, or else the one that `compute` finds, which is recorded. -/
def recorded (mark : Mark) (compute : Inspect Ty) : Inspect Ty := do
  match (← analysis).types.get? mark.id with
  | some type => return type
  | none =>
    let type ← compute
    update fun a => { a with types := a.types.record mark.id type }
    return type

def operatorResult (context : Context) : Except OperandError Ty → Inspect Ty
  | .ok type => return type
  | .error e => do
    report context (.operatorType e.message)
    return .generic

def nameType (context : Context) (name : String) : Inspect Ty := do
  match (← analysis).declarations.read name with
  | some (type, declarations) =>
    update fun a => { a with declarations := declarations }
    return type
  | none =>
    report context (.variableNotDeclared name)
    return .generic

/-- Arguments that are passed by reference and are not variables, by their positions from
`position` on. -/
def wrongReferences (name : String) (position : Nat) : List Expr → List Bool → List Issue
  | argument :: arguments, byReference :: rest =>
    (if byReference && !argument.isIdentifier then [.referenceArgument name position] else []) ++
      wrongReferences name (position + 1) arguments rest
  | _, _ => []

def reportEach (context : Context) : List Issue → Inspect Unit
  | [] => return
  | issue :: rest => do
    report context issue
    reportEach context rest

/-- The type of a call whose arguments have the given types. The header it means is recorded. -/
def callType (context : Context) (id : Nat) (name : String) (arguments : List Expr)
    (types : List Ty) : Inspect Ty := do
  match (← analysis).declarations.resolveCall name types with
  | .error issue =>
    report context issue
    return .generic
  | .ok resolved =>
    reportEach context (wrongReferences name 1 arguments resolved.header.byReference)
    update fun a => { a with calls := (id, resolved.header) :: a.calls }
    return resolved.returnType

def mergeElement (context : Context) (merged element : Ty) : Inspect Ty := do
  if element = .void then
    report context .voidListElement
    return merged
  else if merged.unifies element then return merged.merge element
  else
    report context (.listElementMismatch merged.name element.name)
    return merged

mutual

def exprType (context : Context) : Expr → Inspect Ty
  | .literal m value => recorded m (return value.type)
  | .identifier m name => recorded m (nameType (context.moveTo m.line) name)
  | .binary m operator left right => recorded m do
    let leftType ← exprType context left
    let rightType ← exprType context right
    operatorResult (context.moveTo m.line) (operator.type leftType rightType)
  | .unary m operator operand => recorded m do
    let type ← exprType context operand
    operatorResult (context.moveTo m.line) (operator.type type)
  | .call m name arguments => recorded m do
    let types ← exprTypes context arguments
    callType (context.moveTo m.line) m.id name arguments types
  | .member m base field => recorded m do
    let type ← exprType context base
    callType (context.moveTo m.line) m.id field [base] [type]
  | .index m base position => recorded m do
    let baseType ← exprType context base
    let positionType ← exprType context position
    if !positionType.isNum then
      report (context.moveTo m.line) (.indexNotNum positionType.name)
    operatorResult (context.moveTo m.line) baseType.element?
  | .list m elements => recorded m do
    let element ← elementsType context (context.moveTo m.line) .generic elements
    return .array element
  | .emptyList m => recorded m (return .emptyArray)

def exprTypes (context : Context) : List Expr → Inspect (List Ty)
  | [] => return []
  | e :: rest => do
    let type ← exprType context e
    let types ← exprTypes context rest
    return type :: types

/-- The type that the elements of a list share, given the one of the elements before. Issues belong
to the list. -/
def elementsType (context list : Context) (merged : Ty) : List Expr → Inspect Ty
  | [] => return merged
  | e :: rest => do
    let type ← exprType context e
    let merged ← mergeElement list merged type
    elementsType context list merged rest

end

end Inspect

end ChessEval
