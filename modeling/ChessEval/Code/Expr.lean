import ChessEval.Analysis
import ChessEval.Code.Names

/-!
# Code of expressions

An expression becomes one text. List literals cannot stand inside it: each becomes a numbered variable
that is declared and filled on lines before, inner lists before outer ones.
-/

namespace ChessEval.Code

/-- The number of the next temporary variable, and the lines that must come before an expression. -/
structure Hoist where
  nextTemp : Nat
  lines : List String
deriving DecidableEq, Repr

/-- A step of writing an expression. A step that fails keeps the lines written before. -/
abbrev Write := ExceptT Fault (StateM Hoist)

namespace Write

def temp (sort : String) : Write String := do
  let h ← get
  set { h with nextTemp := h.nextTemp + 1 }
  return sort ++ "_" ++ toString h.nextTemp

def line (text : String) : Write Unit :=
  modify fun h => { h with lines := h.lines ++ [text] }

/-- A result without effect on the lines. -/
def ofExcept {α : Type} : Except Fault α → Write α
  | .ok value => return value
  | .error fault => throw fault

end Write

def typeCode (file : String) (type : Ty) (line : Nat) : Except Fault String :=
  match type.code with
  | .ok text => .ok text
  | .error issue => .error ⟨issue, line, file⟩

def hasArrayType (a : Analysis) (id : Nat) : Bool :=
  match a.types.typeOf id with
  | .array _ => true
  | _ => false

/-- What stands before the operands of a binary operator, and between them. -/
def binaryWords : BinaryOp → Bool → String × String
  | .elementOf, _ => ("in_expr(", ", ")
  | .concat, _ => ("concat(", ", ")
  | .equal, true => ("array_equality(", ", ")
  | .notEqual, true => ("!array_equality(", ", ")
  | operator, _ => ("(", " " ++ operator.symbol ++ " ")

def binary (operator : BinaryOp) (arrays : Bool) (left right : String) : String :=
  (binaryWords operator arrays).1 ++ left ++ (binaryWords operator arrays).2 ++ right ++ ")"

def unaryWord : UnaryOp → String
  | .not => "!("
  | .negate => "-("
  | .absolute => "abs("

def unary (operator : UnaryOp) (operand : String) : String :=
  unaryWord operator ++ operand ++ ")"

def calleeName (file : String) (a : Analysis) (mark : Mark) (name : String) : Except Fault String :=
  match a.header? mark.id with
  | some header =>
    .ok (if header.predefined then predefinedName name else functionName name header.params)
  | none => .error ⟨.missingCallResolution name, mark.line, file⟩

/-- Declares the variable of a list literal, and gives its name. -/
def hoistList (file : String) (a : Analysis) (mark : Mark) : Write String := do
  let type ← Write.ofExcept (typeCode file (a.types.typeOf mark.id) mark.line)
  let name ← Write.temp "_lit"
  Write.line (type ++ " " ++ name ++ ";")
  return name

def pushBack (name : String) : List String → Write Unit
  | [] => return
  | element :: rest => do
    Write.line (name ++ ".push_back(" ++ element ++ ");")
    pushBack name rest

def call (callee : String) (arguments : List String) : String :=
  callee ++ "(" ++ ", ".intercalate arguments ++ ")"

mutual

def expr (file : String) (a : Analysis) : Expr → Write String
  | .literal _ value => return literal value
  | .identifier _ name => return variableName name
  | .binary _ operator left right => do
    let leftCode ← expr file a left
    let rightCode ← expr file a right
    return binary operator (hasArrayType a left.id && hasArrayType a right.id) leftCode rightCode
  | .unary _ operator operand => do
    let code ← expr file a operand
    return unary operator code
  | .call m name arguments => do
    let codes ← exprs file a arguments
    let callee ← Write.ofExcept (calleeName file a m name)
    return call callee codes
  | .member m base field => do
    let code ← expr file a base
    let callee ← Write.ofExcept (calleeName file a m field)
    return call callee [code]
  | .index _ base position => do
    let baseCode ← expr file a base
    let positionCode ← expr file a position
    return call "access_array" [baseCode, positionCode]
  | .list m elements => do
    let codes ← exprs file a elements
    let name ← hoistList file a m
    pushBack name codes
    return name
  | .emptyList m => hoistList file a m

def exprs (file : String) (a : Analysis) : List Expr → Write (List String)
  | [] => return []
  | e :: rest => do
    let code ← expr file a e
    let codes ← exprs file a rest
    return code :: codes

end

/-- Whether a call means a function that the program defines. -/
def isDefinedCall (a : Analysis) (id : Nat) : Bool :=
  match a.header? id with
  | some header => !header.predefined
  | none => false

mutual

/-- Whether an expression calls a function that the program defines. -/
def callsDefined (a : Analysis) : Expr → Bool
  | .literal .. | .identifier .. | .emptyList _ => false
  | .binary _ _ left right => callsDefined a left || callsDefined a right
  | .unary _ _ operand => callsDefined a operand
  | .call m _ arguments => isDefinedCall a m.id || anyCallsDefined a arguments
  | .member m base _ => isDefinedCall a m.id || callsDefined a base
  | .index _ base position => callsDefined a base || callsDefined a position
  | .list _ elements => anyCallsDefined a elements

/-- Whether one of several expressions calls a function that the program defines. -/
def anyCallsDefined (a : Analysis) : List Expr → Bool
  | [] => false
  | e :: rest => callsDefined a e || anyCallsDefined a rest

end

mutual

def readsAny (names : List String) : Expr → Bool
  | .identifier _ name => names.contains name
  | .literal .. | .emptyList _ => false
  | .binary _ _ left right => readsAny names left || readsAny names right
  | .unary _ _ operand => readsAny names operand
  | .call _ _ arguments => anyReadsAny names arguments
  | .member _ base _ => readsAny names base
  | .index _ base position => readsAny names base || readsAny names position
  | .list _ elements => anyReadsAny names elements

/-- Whether one of the given names occurs in one of several expressions. -/
def anyReadsAny (names : List String) : List Expr → Bool
  | [] => false
  | e :: rest => readsAny names e || anyReadsAny names rest

end

end ChessEval.Code
