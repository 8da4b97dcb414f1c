import ChessEval.Ty.Basic

/-!
# Operator typing

The result type of each operator on given operand types, or the reason why the operands do not fit.
-/

namespace ChessEval

/-- Why the operands of an operator do not fit. -/
inductive OperandError where
  | notNumeric (left right : Ty)
  | mixedCoordinates (left right : Ty)
  | notLogical (left right : Ty)
  | notOrdered (left right : Ty)
  | notComparable (left right : Ty)
  | notSearchable (container : Ty)
  | notFindable (element container : Ty)
  | notJoinable (left right : Ty)
  | notNegatable (operand : Ty)
  | notSigned (operand : Ty)
  | notArray (operand : Ty)
deriving DecidableEq, Repr

def OperandError.message : OperandError → String
  | .notNumeric l r =>
    "Arithmetic operator expects NUM or coordinate operands, found " ++ l.name ++ " and " ++ r.name
  | .mixedCoordinates l r => "Cannot operate " ++ l.name ++ " with " ++ r.name
  | .notLogical l r => "Boolean operator expects BOOL operands, found " ++ l.name ++ " and " ++ r.name
  | .notOrdered l r => "Cannot compare " ++ l.name ++ " with " ++ r.name
  | .notComparable l r => "Cannot check equality between " ++ l.name ++ " and " ++ r.name
  | .notSearchable c => "Operator 'in' expects an array, found " ++ c.name
  | .notFindable e c => "Cannot look for " ++ e.name ++ " inside " ++ c.name
  | .notJoinable l r => "Cannot concatenate " ++ l.name ++ " with " ++ r.name
  | .notNegatable t => "Operator 'not' expects BOOL, found " ++ t.name
  | .notSigned t => "Unary sign expects NUM, found " ++ t.name
  | .notArray t => t.name ++ " is not an array"

namespace Ty

def element? : Ty → Except OperandError Ty
  | .array element => .ok element
  | .generic | .genericArray | .emptyArray => .ok .generic
  | t => .error (.notArray t)

/-- Sums, differences, products and quotients. A coordinate absorbs a number. -/
def arithmetic (s t : Ty) : Except OperandError Ty :=
  if !s.isNumeric || !t.isNumeric then .error (.notNumeric s t)
  else
    match s, t with
    | .generic, t => .ok t
    | s, .generic => .ok s
    | .num, t => .ok t
    | s, .num => .ok s
    | s, t => if s = t then .ok s else .error (.mixedCoordinates s t)

def logical (s t : Ty) : Except OperandError Ty :=
  if s.isBool && t.isBool then .ok .bool else .error (.notLogical s t)

def ordered (s t : Ty) : Except OperandError Ty :=
  if s.isNumeric && t.isNumeric && (s == t || s.isNum || t.isNum) then .ok .bool
  else .error (.notOrdered s t)

/-- Whether values of two types can be compared for equality. Rows and ranks can be compared with
each other, and nothing can be compared with `void`. -/
def comparable : Ty → Ty → Bool
  | .void, _ => false
  | _, .void => false
  | .row, .rank => true
  | .rank, .row => true
  | s, t => s.unifies t

def equality (s t : Ty) : Except OperandError Ty :=
  if s.comparable t then .ok .bool else .error (.notComparable s t)

/-- Search for an element of the first type in an array of the second type. -/
def membership (s t : Ty) : Except OperandError Ty :=
  match t.element? with
  | .error _ => .error (.notSearchable t)
  | .ok element => if s.unifies element then .ok .bool else .error (.notFindable s t)

def concatenation : Ty → Ty → Except OperandError Ty
  | .generic, _ => .ok .generic
  | _, .generic => .ok .generic
  | .string, _ => .ok .string
  | _, .string => .ok .string
  | s, t => if s.isArray && s.unifies t then .ok (s.merge t) else .error (.notJoinable s t)

def negation (t : Ty) : Except OperandError Ty :=
  if t.isBool then .ok .bool else .error (.notNegatable t)

/-- Opposite and absolute value of a number. -/
def signed (t : Ty) : Except OperandError Ty :=
  if t.isNum then .ok .num else .error (.notSigned t)

end Ty

end ChessEval
