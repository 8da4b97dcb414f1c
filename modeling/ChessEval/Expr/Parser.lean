import ChessEval.Number.Decimal
import ChessEval.Precedence
import ChessEval.TokenStream

/-!
# Reading expressions

An expression is an operand that is extended for as long as the next token holds to it tighter than
the context does. The readers of the single forms take the reader of nested expressions as an
argument, and `expression` ties them together. An expression nests no deeper than there are tokens.
-/

namespace ChessEval.Parse

def boardCollection (word : String) : BoardCollection :=
  match word with
  | "cells" => .cells
  | "rows" => .rows
  | "ranks" => .ranks
  | _ => .files

def primary : Parse Expr := do
  let token ← current
  let build : Mark → Expr ←
    match token.kind with
    | .number =>
      match Number.ofText? token.text with
      | some value => pure fun m => Expr.literal m (.number value)
      | none => throw ((← get).fault (.malformedNumber token.text))
    | .string => pure fun m => Expr.literal m (.string token.text)
    | .trueWord => pure fun m => Expr.literal m (.boolean true)
    | .falseWord => pure fun m => Expr.literal m (.boolean false)
    | .selfWord => pure fun m => Expr.literal m (.player .self)
    | .rivalWord => pure fun m => Expr.literal m (.player .rival)
    | .pieceLiteral => pure fun m => Expr.literal m (.pieces token.text)
    | .boardLiteral => pure fun m => Expr.literal m (.board (boardCollection token.text))
    | .identifier => pure fun m => Expr.identifier m token.text
    | _ => unexpectedToken
  let _ ← advance
  return build ⟨← freshId, token.line⟩

/-- The number of a file from its letter, 1 for `a`. Only the low byte of the letter counts. -/
def fileNumber (letter : Char) : Nat :=
  letter.toNat % 256 - 'a'.toNat + 1

def digitValue (c : Char) : Nat :=
  if c.isDigit then c.toNat - '0'.toNat else 0

def withoutDollars (text : List Char) : List Char :=
  text.dropWhile (· == '$')

/-- The parts of a text before and after its first two points. -/
def splitRange? : List Char → Option (List Char × List Char)
  | '.' :: '.' :: rest => some ([], rest)
  | c :: rest => (splitRange? rest).map fun (before, after) => (c :: before, after)
  | [] => none

def rangeEnds (text : List Char) : List Char × List Char :=
  let (first, last) := (splitRange? text).getD (text, text)
  (withoutDollars first, withoutDollars last)

def lastDigit (text : List Char) : Nat :=
  digitValue (text.getLastD '0')

def firstFile (text : List Char) : Nat :=
  fileNumber (text.headD 'a')

def boardLiteral? (token : Token) : Option Literal :=
  let text := token.text.toList
  let body := withoutDollars text
  let (first, last) := rangeEnds text
  match token.kind with
  | .cellLiteral => some (.cell (String.ofList body))
  | .rowLiteral => some (.row (lastDigit body))
  | .rankLiteral => some (.rank (lastDigit body))
  | .fileLiteral => some (.file (firstFile body))
  | .cellRange => some (.cellRange (String.ofList first) (String.ofList last))
  | .rowRange => some (.rowRange (lastDigit first) (lastDigit last))
  | .rankRange => some (.rankRange (lastDigit first) (lastDigit last))
  | .fileRange => some (.fileRange (firstFile first) (firstFile last))
  | _ => none

/-- The fault of a token that has been consumed and does not belong there. -/
def consumedToken {α : Type} (token : Token) : Parse α := do
  throw ⟨.unexpectedToken token.text, token.line, (← get).file⟩

def boardLiteral : Parse Expr := do
  let token ← advance
  match boardLiteral? token with
  | some value => return .literal ⟨← freshId, token.line⟩ value
  | none => consumedToken token

/-- A type word in the place of a function name, which must be called. -/
def keywordCallee : Parse Expr := do
  if (← peekKind) ≠ .openParen then
    unexpected "a type name can only be used here as a function call"
  else
    let token ← advance
    return .identifier ⟨← freshId, token.line⟩ token.text

/-- The sign that a token stands for, and how tightly it holds its operand. -/
def sign (kind : TokenKind) : UnaryOp × Precedence :=
  match kind with
  | .notWord => (.not, .and)
  | .plus => (.absolute, .unary)
  | _ => (.negate, .unary)

/-- An operator before its only operand. -/
def signed (nested : Precedence → Parse Expr) : Parse Expr := do
  let token ← advance
  let (operator, limit) := sign token.kind
  let operand ← nested limit
  return .unary ⟨← freshId, token.line⟩ operator operand

def grouping (nested : Precedence → Parse Expr) : Parse Expr := do
  let _ ← advance
  let e ← nested .lowest
  let _ ← expect .closeParen
  return e

def list (nested : Precedence → Parse Expr) : Parse Expr := do
  let token ← advance
  if (← currentKind) = .closeBracket then
    let _ ← advance
    return .emptyList ⟨← freshId, token.line⟩
  else
    let elements ← commaSeparated (nested .lowest)
    let _ ← expect .closeBracket
    return .list ⟨← freshId, token.line⟩ elements

/-- An operator between two operands, the left one of which has been read. -/
def binary (nested : Precedence → Parse Expr) (left : Expr) (limit : Precedence) : Parse Expr := do
  let token ← advance
  match token.kind.binaryOp? with
  | none => consumedToken token
  | some operator =>
    let right ← nested limit
    return .binary ⟨← freshId, left.line⟩ operator left right

def arguments (nested : Precedence → Parse Expr) : Parse (List Expr) := do
  if (← currentKind) = .closeParen then return [] else commaSeparated (nested .lowest)

def call (nested : Precedence → Parse Expr) (left : Expr) : Parse Expr := do
  match left with
  | .identifier mark name =>
    let _ ← advance
    let arguments ← arguments nested
    let _ ← expect .closeParen
    return .call ⟨← freshId, mark.line⟩ name arguments
  | _ => unexpected "only named functions can be called"

def index (nested : Precedence → Parse Expr) (left : Expr) : Parse Expr := do
  let _ ← advance
  let position ← nested .lowest
  let _ ← expect .closeBracket
  return .index ⟨← freshId, left.line⟩ left position

def member (left : Expr) : Parse Expr := do
  let _ ← advance
  let token ← current
  if token.kind = .identifier ∨ token.kind.isCallable then
    let _ ← advance
    return .member ⟨← freshId, left.line⟩ left token.text
  else unexpected "expected a function name after '.'"

def operand (nested : Precedence → Parse Expr) : Parse Expr := do
  match (← currentKind).operand? with
  | some .primary => primary
  | some .boardLiteral => boardLiteral
  | some .keywordCallee => keywordCallee
  | some .sign => signed nested
  | some .grouping => grouping nested
  | some .list => list nested
  | none => unexpectedToken

def extend (nested : Precedence → Parse Expr) (form : OperatorForm) (left : Expr)
    (precedence : Precedence) : Parse Expr :=
  match form with
  | .binary => binary nested left precedence
  | .call => call nested left
  | .index => index nested left
  | .member => member left

/-- An operand extended by the operators that hold tighter than `limit`, at most the given number. -/
def extensions (nested : Precedence → Parse Expr) (limit : Precedence) : Nat → Expr → Parse Expr
  | 0, left => return left
  | count + 1, left => do
    match (← currentKind).operator? with
    | some (form, precedence) =>
      if limit.looserThan precedence then
        let left ← extend nested form left precedence
        extensions nested limit count left
      else return left
    | none => return left

/-- An expression that nests at most `depth` deep. -/
def expressionWithin : Nat → Precedence → Parse Expr
  | 0, _ => unexpectedToken
  | depth + 1, limit => do
    let left ← operand (expressionWithin depth)
    extensions (expressionWithin depth) limit (← get).rest.length left

/-- An expression whose operators hold tighter than `limit`. -/
def expression (limit : Precedence) : Parse Expr := do
  expressionWithin ((← get).rest.length + 1) limit

end ChessEval.Parse
