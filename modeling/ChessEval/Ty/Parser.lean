import ChessEval.Precedence
import ChessEval.TokenStream
import ChessEval.Ty.Basic

/-!
# Reading types

A type is written as a type word followed by any number of `[]`.
-/

namespace ChessEval

/-- The type that a type word stands for. -/
def TokenKind.scalar? : TokenKind → Option Ty
  | .voidType => some .void
  | .numType => some .num
  | .boolType => some .bool
  | .stringType => some .string
  | .pieceType => some .piece
  | .cellType => some .cell
  | .rowType => some .row
  | .rankType => some .rank
  | .fileType => some .file
  | .playerType => some .player
  | _ => none

namespace Parse

def scalarType : Parse Ty := do
  match (← currentKind).scalar? with
  | some type =>
    let _ ← advance
    return type
  | none => unexpected "expected a type"

/-- The array brackets after a type, at most the given number of pairs. -/
def arraySuffixes (limit : Precedence) : Nat → Ty → Parse Ty
  | 0, type => return type
  | count + 1, type => do
    let kind ← currentKind
    if kind.continuesType ∧ kind.typePrecedence?.any limit.looserThan then
      let _ ← expect .openBracket
      let _ ← expect .closeBracket
      arraySuffixes limit count (.array type)
    else return type

/-- A type whose brackets hold tighter than the given level. -/
def type (limit : Precedence) : Parse Ty := do
  let scalar ← scalarType
  arraySuffixes limit (← get).rest.length scalar

/-- The fault of `void` where only a type of values can stand. -/
def misplacedVoid (line : Nat) (file : String) : Fault :=
  ⟨.unexpectedTokenDetailed "void" "void is only allowed as a function return type", line, file⟩

def valueType : Parse Ty := do
  let start ← get
  let type ← type .lowest
  if type.containsVoid then throw (misplacedVoid start.current.line start.file)
  else return type

end Parse

end ChessEval
