import ChessEval.Check.Expr

/-!
# Checking statements
-/

namespace ChessEval.Inspect

/-- Types a condition, which must be a truth value. -/
def condition (context : Context) (statement : String) (e : Expr) : Inspect Unit := do
  let type ← exprType context e
  if !type.isBool then report context (.conditionNotBool statement type.name)

def initialValue (context : Context) (type : Ty) : Option Expr → Inspect Unit
  | none => return
  | some value => do
    let valueType ← exprType context value
    if !type.unifies valueType then
      report context (.assignmentTypeMismatch type.name valueType.name)

/-- Checks the names of a declaration in order. A name is not in scope in its own initial value. -/
def declarators (context : Context) (type : Ty) : List Declarator → Inspect Unit
  | [] => return
  | d :: rest => do
    initialValue (context.moveTo d.line) type d.value
    declare (context.moveTo d.line) fun ds => ds.declare d.name type d.line
    declarators context type rest

/-- The type of a loop variable, `generic` and an issue if there is nothing to loop over. -/
def loopVariableType (context : Context) (source : Ty) : Inspect Ty := do
  match source.element? with
  | .ok type => return type
  | .error _ =>
    report context (.forallSourceNotArray source.name)
    return .generic

mutual

def statement (context : Context) : Stmt → Inspect Unit
  | .declare type ds line => declarators (context.moveTo line) type ds
  | .assign target value line => do
    let context := context.moveTo line
    let targetType ← exprType context target
    let valueType ← exprType context value
    if !targetType.unifies valueType then
      report context (.assignmentTypeMismatch targetType.name valueType.name)
  | .ifThen e thenBody none line => do
    condition (context.moveTo line) "if" e
    openScope
    statements (context.moveTo line) thenBody
    closeScope (context.moveTo line)
  | .ifThen e thenBody (some elseBody) line => do
    condition (context.moveTo line) "if" e
    openScope
    statements (context.moveTo line) thenBody
    closeScope (context.moveTo line)
    openScope
    statements (context.moveTo line) elseBody
    closeScope (context.moveTo line)
  | .whileDo e body line => do
    condition (context.moveTo line) "while" e
    openScope
    statements (context.moveTo line) body
    closeScope (context.moveTo line)
  | .forAll name source body line => do
    let context := context.moveTo line
    let sourceType ← exprType context source
    let type ← loopVariableType context sourceType
    openScope
    declare context fun ds => ds.declare name type line
    statements context body
    closeScope context
  | .returns none _ => return
  | .returns (some value) line => do
    let _ ← exprType (context.moveTo line) value
  | .score value line => do
    let context := context.moveTo line
    let type ← exprType context value
    if !type.isNum then report context (.scoreNotNum type.name)
  | .call site line => do
    let _ ← exprType (context.moveTo line) site

def statements (context : Context) : List Stmt → Inspect Unit
  | [] => return
  | s :: rest => do
    statement context s
    statements context rest

end

end ChessEval.Inspect
