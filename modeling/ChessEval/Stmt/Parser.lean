import ChessEval.Expr.Parser
import ChessEval.Stmt.Basic
import ChessEval.Ty.Parser

/-!
# Reading statements

The readers of the single forms take the reader of nested statements as an argument. A statement nests
no deeper than there are tokens.
-/

namespace ChessEval.Parse

/-- Statements between curly brackets. -/
def blockOf (nested : Parse Stmt) : Parse (List Stmt) :=
  braced nested

def assignment : Parse Stmt := do
  let target ← expression .primary
  let _ ← expect .assignment
  let value ← expression .lowest
  let _ ← expect .semicolon
  return .assign target value target.line

def declarator : Parse Declarator := do
  let token ← expectFor .identifier "expected identifier during variable declaration"
  if (← currentKind) = .assignment then
    let _ ← advance
    return ⟨token.text, some (← expression .lowest), token.line⟩
  else return ⟨token.text, none, token.line⟩

def declaration : Parse Stmt := do
  let token ← current
  let type ← valueType
  let declarators ← commaSeparated declarator
  let _ ← expect .semicolon
  return .declare type declarators token.line

/-- What follows `else`: another conditional or a block. -/
def elseBranch (nested : Parse Stmt) : Parse (Option (List Stmt)) := do
  if (← currentKind) = .elseWord then
    let _ ← advance
    if (← currentKind) = .ifWord then return some [← nested] else return some (← blockOf nested)
  else return none

def conditional (nested : Parse Stmt) : Parse Stmt := do
  let token ← advance
  let condition ← expression .lowest
  let thenBody ← blockOf nested
  let elseBody ← elseBranch nested
  return .ifThen condition thenBody elseBody token.line

def whileLoop (nested : Parse Stmt) : Parse Stmt := do
  let token ← advance
  let condition ← expression .lowest
  let body ← blockOf nested
  return .whileDo condition body token.line

def forallLoop (nested : Parse Stmt) : Parse Stmt := do
  let token ← advance
  let _ ← expect .openParen
  let name ← expect .identifier
  let _ ← expect .inWord
  let source ← expression .lowest
  let _ ← expect .closeParen
  let body ← blockOf nested
  return .forAll name.text source body token.line

def returnStmt : Parse Stmt := do
  let token ← advance
  let value ← if (← currentKind) = .semicolon then pure none else some <$> expression .lowest
  let _ ← expect .semicolon
  return .returns value token.line

def scoreStmt : Parse Stmt := do
  let token ← advance
  let value ← expression .lowest
  let _ ← expect .semicolon
  return .score value token.line

def callStmt : Parse Stmt := do
  let call ← expression .lowest
  if call.isCall then
    let _ ← expect .semicolon
    return .call call call.line
  else unexpected "only calls can be used as statements"

/-- The form of the statement at hand, if its first token tells it. A type word before a parenthesis
starts a call. -/
def statementForm? : Parse (Option StmtForm) := do
  let kind ← currentKind
  if kind.isCallable ∧ (← peekKind) = .openParen then return none else return kind.statement?

def statementOf (nested : Parse Stmt) : Parse Stmt := do
  match ← statementForm? with
  | some .ifThen => conditional nested
  | some .whileDo => whileLoop nested
  | some .forAll => forallLoop nested
  | some .returns => returnStmt
  | some .score => scoreStmt
  | some .declare => declaration
  | none =>
    if (← currentKind) = .identifier ∧ (← peekKind) = .assignment then assignment else callStmt

/-- A statement that nests at most `depth` deep. -/
def statementWithin : Nat → Parse Stmt
  | 0 => unexpectedToken
  | depth + 1 => statementOf (statementWithin depth)

def statement : Parse Stmt := do
  statementWithin ((← get).rest.length + 1)

def block : Parse (List Stmt) :=
  blockOf statement

end ChessEval.Parse
