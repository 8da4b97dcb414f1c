import ChessEval.Issue
import ChessEval.Stmt.Basic
import ChessEval.TypeTable

/-!
# Control flow of statements

What can be said about a block without running it: whether it returns on every path, whether it
contributes to the score, which statements cannot be reached, and which returns have the wrong type.
-/

namespace ChessEval

mutual

/-- Whether a statement returns on every path. Loops may run zero times, so they never count. -/
def Stmt.alwaysReturns : Stmt → Bool
  | .returns .. => true
  | .ifThen _ thenBody (some elseBody) _ => blockReturns thenBody && blockReturns elseBody
  | _ => false

def blockReturns : List Stmt → Bool
  | [] => false
  | s :: rest => s.alwaysReturns || blockReturns rest

end

mutual

def Stmt.scoreLines : Stmt → List Nat
  | .score _ line => [line]
  | .whileDo _ body _ => blockScoreLines body
  | .forAll _ _ body _ => blockScoreLines body
  | .ifThen _ thenBody none _ => blockScoreLines thenBody
  | .ifThen _ thenBody (some elseBody) _ => blockScoreLines thenBody ++ blockScoreLines elseBody
  | _ => []

def blockScoreLines : List Stmt → List Nat
  | [] => []
  | s :: rest => s.scoreLines ++ blockScoreLines rest

end

def blockScores (body : List Stmt) : Bool :=
  !(blockScoreLines body).isEmpty

mutual

/-- The places in a statement after which a statement cannot be reached. `last` says that nothing
follows the statement in its block. -/
def Stmt.unreachable (last : Bool) : Stmt → List (Issue × Nat)
  | .returns _ line => if last then [] else [(.unreachableAfterReturn, line)]
  | .whileDo _ body _ => blockUnreachable body
  | .forAll _ _ body _ => blockUnreachable body
  | .ifThen _ thenBody none _ => blockUnreachable thenBody
  | .ifThen _ thenBody (some elseBody) line =>
    blockUnreachable thenBody ++ blockUnreachable elseBody ++
      if !last && blockReturns thenBody && blockReturns elseBody then
        [(.unreachableAfterIfElse, line)]
      else []
  | _ => []

/-- The places in a block after which a statement cannot be reached. -/
def blockUnreachable : List Stmt → List (Issue × Nat)
  | [] => []
  | s :: rest => s.unreachable rest.isEmpty ++ blockUnreachable rest

end

def returnedType (types : TypeTable) : Option Expr → Ty
  | some value => types.typeOf value.id
  | none => .void

mutual

def Stmt.wrongReturns (types : TypeTable) (expected : Ty) (label : String) :
    Stmt → List (Issue × Nat)
  | .returns value line =>
    let received := returnedType types value
    if expected.unifies received then []
    else [(.returnTypeMismatch label expected.name received.name, line)]
  | .whileDo _ body _ => blockWrongReturns types expected label body
  | .forAll _ _ body _ => blockWrongReturns types expected label body
  | .ifThen _ thenBody none _ => blockWrongReturns types expected label thenBody
  | .ifThen _ thenBody (some elseBody) _ =>
    blockWrongReturns types expected label thenBody ++
      blockWrongReturns types expected label elseBody
  | _ => []

def blockWrongReturns (types : TypeTable) (expected : Ty) (label : String) :
    List Stmt → List (Issue × Nat)
  | [] => []
  | s :: rest => s.wrongReturns types expected label ++ blockWrongReturns types expected label rest

end

end ChessEval
