import ChessEval.Number.Basic

/-!
# Expressions

Every node of an expression carries a number of its own, by which the analysis records what it finds
about the node, and the line on which the expression starts.
-/

namespace ChessEval

inductive BoardCollection where
  | cells
  | rows
  | ranks
  | files
deriving DecidableEq, Repr

/-- The two players, seen from the side to move. -/
inductive Player where
  | self
  | rival
deriving DecidableEq, Repr

/-- Constants. Rows, ranks and files are counted from 1, a cell keeps its text. -/
inductive Literal where
  | number (value : Number)
  | boolean (value : Bool)
  | string (value : String)
  | cell (name : String)
  | row (index : Nat)
  | rank (index : Nat)
  | file (index : Nat)
  | cellRange (first last : String)
  | rowRange (first last : Nat)
  | rankRange (first last : Nat)
  | fileRange (first last : Nat)
  | board (collection : BoardCollection)
  | pieces (name : String)
  | player (player : Player)
deriving DecidableEq, Repr

/-- The operators with two operands. -/
inductive BinaryOp where
  | or
  | and
  | equal
  | notEqual
  | less
  | lessEqual
  | greater
  | greaterEqual
  | elementOf
  | add
  | subtract
  | multiply
  | divide
  | concat
deriving DecidableEq, Repr

/-- The operators with one operand. -/
inductive UnaryOp where
  | not
  | negate
  | absolute
deriving DecidableEq, Repr

/-- The number of a node and the line on which it starts. -/
structure Mark where
  id : Nat
  line : Nat
deriving DecidableEq, Repr, Inhabited

/-- Expressions. `member` is a call with one argument written as `base.field`. -/
inductive Expr where
  | literal (mark : Mark) (value : Literal)
  | identifier (mark : Mark) (name : String)
  | binary (mark : Mark) (operator : BinaryOp) (left right : Expr)
  | unary (mark : Mark) (operator : UnaryOp) (operand : Expr)
  | call (mark : Mark) (name : String) (arguments : List Expr)
  | member (mark : Mark) (base : Expr) (field : String)
  | index (mark : Mark) (base index : Expr)
  | list (mark : Mark) (elements : List Expr)
  | emptyList (mark : Mark)
deriving Repr

namespace Expr

def mark : Expr → Mark
  | .literal m _ | .identifier m _ | .binary m _ _ _ | .unary m _ _ | .call m _ _ | .member m _ _
  | .index m _ _ | .list m _ | .emptyList m => m

def id (e : Expr) : Nat :=
  e.mark.id

def line (e : Expr) : Nat :=
  e.mark.line

def isIdentifier : Expr → Bool
  | .identifier .. => true
  | _ => false

/-- Whether an expression calls a function at its topmost node. -/
def isCall : Expr → Bool
  | .call .. | .member .. => true
  | _ => false

end Expr

end ChessEval
