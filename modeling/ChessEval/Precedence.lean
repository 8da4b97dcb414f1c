import ChessEval.Expr.Basic
import ChessEval.Token.Basic

/-!
# Precedence

How tightly operators hold their operands together, and the roles that kinds of tokens have in
expressions, types and statements.
-/

namespace ChessEval

/-- The levels of precedence, from the loosest to the tightest. -/
inductive Precedence where
  | lowest
  | or
  | and
  | relational
  | additive
  | multiplicative
  | unary
  | call
  | member
  | primary
deriving DecidableEq, Repr

namespace Precedence

/-- The place of a level among all levels. -/
def rank : Precedence → Nat
  | .lowest => 0
  | .or => 1
  | .and => 2
  | .relational => 3
  | .additive => 4
  | .multiplicative => 5
  | .unary => 6
  | .call => 7
  | .member => 8
  | .primary => 9

/-- Whether the first level holds its operands looser than the second. -/
def looserThan (p q : Precedence) : Bool :=
  p.rank < q.rank

def name : Precedence → String
  | .lowest => "Default"
  | .or => "Or"
  | .and => "And"
  | .relational => "Relational"
  | .additive => "Additive"
  | .multiplicative => "Multiplicative"
  | .unary => "Unary"
  | .call => "Call"
  | .member => "Member"
  | .primary => "Primary"

def ofName? (name : String) : Option Precedence :=
  [lowest, or, and, relational, additive, multiplicative, unary, call, member, primary].find?
    fun p => p.name == name

end Precedence

def BinaryOp.precedence : BinaryOp → Precedence
  | .or => .or
  | .and => .and
  | .equal | .notEqual | .less | .lessEqual | .greater | .greaterEqual | .elementOf => .relational
  | .add | .subtract | .concat => .additive
  | .multiply | .divide => .multiplicative

/-- The ways in which an operand can start. -/
inductive OperandForm where
  | primary
  | boardLiteral
  | keywordCallee
  | sign
  | grouping
  | list
deriving DecidableEq, Repr

/-- The ways in which an operand can go on. -/
inductive OperatorForm where
  | binary
  | call
  | index
  | member
deriving DecidableEq, Repr

/-- The statements that their first token tells. -/
inductive StmtForm where
  | ifThen
  | whileDo
  | forAll
  | returns
  | score
  | declare
deriving DecidableEq, Repr

namespace TokenKind

def binaryOp? : TokenKind → Option BinaryOp
  | .orWord => some .or
  | .andWord => some .and
  | .equals => some .equal
  | .notEquals => some .notEqual
  | .less => some .less
  | .lessEquals => some .lessEqual
  | .greater => some .greater
  | .greaterEquals => some .greaterEqual
  | .inWord => some .elementOf
  | .plus => some .add
  | .dash => some .subtract
  | .star => some .multiply
  | .slash => some .divide
  | .plusPlus => some .concat
  | _ => none

def operator? (kind : TokenKind) : Option (OperatorForm × Precedence) :=
  match kind.binaryOp? with
  | some op => some (.binary, op.precedence)
  | none =>
    match kind with
    | .openParen => some (.call, .call)
    | .openBracket => some (.index, .call)
    | .dot => some (.member, .member)
    | _ => none

def operand? : TokenKind → Option OperandForm
  | .number | .string | .trueWord | .falseWord | .identifier | .selfWord | .rivalWord
  | .boardLiteral | .pieceLiteral => some .primary
  | .cellLiteral | .rowLiteral | .rankLiteral | .fileLiteral | .cellRange | .rowRange | .rankRange
  | .fileRange => some .boardLiteral
  | .pieceType | .cellType | .rowType | .rankType | .fileType | .playerType => some .keywordCallee
  | .dash | .plus | .notWord => some .sign
  | .openParen => some .grouping
  | .openBracket => some .list
  | _ => none

def statement? : TokenKind → Option StmtForm
  | .ifWord => some .ifThen
  | .whileWord => some .whileDo
  | .forallWord => some .forAll
  | .returnWord => some .returns
  | .scoreWord => some .score
  | .numType | .boolType | .stringType | .pieceType | .cellType | .rowType | .rankType | .fileType
  | .playerType => some .declare
  | _ => none

def continuesType (kind : TokenKind) : Bool :=
  kind == .openBracket

def startsType : TokenKind → Bool
  | .voidType | .numType | .boolType | .stringType | .pieceType | .cellType | .rowType | .rankType
  | .fileType | .playerType => true
  | _ => false

def typePrecedence? (kind : TokenKind) : Option Precedence :=
  if kind.continuesType then some .call
  else if kind.startsType then some .primary
  else none

end TokenKind

end ChessEval
