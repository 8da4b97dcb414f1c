import ChessEval.Expr.Basic
import ChessEval.Ty.Basic

/-!
# Statements
-/

namespace ChessEval

structure Declarator where
  name : String
  value : Option Expr
  line : Nat
deriving Repr

/-- Statements. The target of an assignment is an identifier. -/
inductive Stmt where
  | declare (type : Ty) (declarators : List Declarator) (line : Nat)
  | assign (target value : Expr) (line : Nat)
  | ifThen (condition : Expr) (thenBody : List Stmt) (elseBody : Option (List Stmt)) (line : Nat)
  | whileDo (condition : Expr) (body : List Stmt) (line : Nat)
  | forAll (name : String) (source : Expr) (body : List Stmt) (line : Nat)
  | returns (value : Option Expr) (line : Nat)
  | score (value : Expr) (line : Nat)
  | call (call : Expr) (line : Nat)
deriving Repr

def Stmt.line : Stmt → Nat
  | .declare _ _ line | .assign _ _ line | .ifThen _ _ _ line | .whileDo _ _ line
  | .forAll _ _ _ line | .returns _ line | .score _ line | .call _ line => line

end ChessEval
