import ChessEval.Text.Blank

/-!
# Types

A type is a scalar, an array, or one of three placeholders. Placeholders stand for types that are not
known yet: `generic` for any type at all, `genericArray` and `emptyArray` for an array whose elements
are unknown.
-/

namespace ChessEval

/-- The types of the language and the placeholders that exist during analysis. -/
inductive Ty where
  | void
  | bool
  | num
  | string
  | piece
  | cell
  | row
  | rank
  | file
  | player
  | array (element : Ty)
  | genericArray
  | emptyArray
  | generic
deriving DecidableEq, Repr, Inhabited

namespace Ty

def name : Ty → String
  | .void => "VOID"
  | .bool => "BOOL"
  | .num => "NUM"
  | .string => "STRING"
  | .piece => "PIECE"
  | .cell => "CELL"
  | .row => "ROW"
  | .rank => "RANK"
  | .file => "FILE"
  | .player => "PLAYER"
  | .array element => "[" ++ element.name ++ "]"
  | .genericArray => "GENERIC_ARRAY"
  | .emptyArray => "EMPTY_ARRAY"
  | .generic => "GENERIC"

def isArray : Ty → Bool
  | .array _ | .genericArray | .emptyArray | .generic => true
  | _ => false

/-- Whether a type can be a truth value. -/
def isBool : Ty → Bool
  | .bool | .generic => true
  | _ => false

def isNum : Ty → Bool
  | .num | .generic => true
  | _ => false

/-- The types that name a place on the board. -/
def isCoordinate : Ty → Bool
  | .cell | .row | .rank | .file => true
  | _ => false

/-- Whether a value of the type can be used as a number. -/
def isNumeric (t : Ty) : Bool :=
  t.isNum || t.isCoordinate

/-- Whether no placeholder is left anywhere inside a type. -/
def isResolved : Ty → Bool
  | .generic | .genericArray | .emptyArray => false
  | .array element => element.isResolved
  | _ => true

/-- Whether `void` stands anywhere inside a type. -/
def containsVoid : Ty → Bool
  | .void => true
  | .array element => element.containsVoid
  | _ => false

/-- Whether two types can be the same once their placeholders are known. -/
def unifies : Ty → Ty → Bool
  | .generic, _ => true
  | _, .generic => true
  | .genericArray, t => t.isArray
  | .emptyArray, t => t.isArray
  | t, .genericArray => t.isArray
  | t, .emptyArray => t.isArray
  | .array s, .array t => s.unifies t
  | s, t => s == t

/-- The more specific of two types that unify. A known type wins over a placeholder on either
side. -/
def merge : Ty → Ty → Ty
  | .generic, t => t
  | t, .generic => t
  | .genericArray, t => t
  | t, .genericArray => t
  | .emptyArray, t => t
  | t, .emptyArray => t
  | .array s, .array t => .array (s.merge t)
  | s, _ => s

/-- The scalar types and the placeholder that the list of predefined functions can name. -/
def ofWord? (word : String) : Option Ty :=
  match word with
  | "void" => some .void
  | "bool" => some .bool
  | "num" => some .num
  | "string" => some .string
  | "piece" => some .piece
  | "cell" => some .cell
  | "row" => some .row
  | "rank" => some .rank
  | "file" => some .file
  | "player" => some .player
  | "genericArray" => some .genericArray
  | _ => none

/-- The text between square brackets, if a text starts with an opening one: `some none` when the
closing one is missing. -/
def bracketed? : List Char → Option (Option (List Char))
  | '[' :: rest =>
    match rest.getLast? with
    | some ']' => some (some rest.dropLast)
    | _ => some none
  | _ => none

/-- Reads a type with at most `depth` pairs of brackets. -/
def ofTextWithin : Nat → List Char → Option Ty
  | 0, text => ofWord? (String.ofList (Text.trim text))
  | depth + 1, text =>
    match bracketed? (Text.trim text) with
    | some (some inner) => (ofTextWithin depth inner).map .array
    | some none => none
    | none => ofWord? (String.ofList (Text.trim text))

/-- Reads a type as the list of predefined functions writes it: `num`, `[piece]`, `genericArray`.
Blanks may surround the type and the element type. -/
def ofText? (text : String) : Option Ty :=
  ofTextWithin text.length text.toList

end Ty

end ChessEval
