import ChessEval.Expr.Basic
import ChessEval.Issue
import ChessEval.Number.Shortest
import ChessEval.Schedule
import ChessEval.Ty.Basic

/-!
# Names in generated code

How types, functions, variables, rules and constants are spelled in the generated program. Names of
the program get a word in front, so that they never clash with names of the engine or of the target
language.
-/

namespace ChessEval

namespace Ty

/-- The spelling of a type. Two closing brackets are kept apart, and placeholders have no spelling. -/
def code : Ty → Except Issue String
  | .array element =>
    match element.code with
    | .error issue => .error issue
    | .ok text => .ok ("vector<" ++ text ++ (if text.toList.getLast? = some '>' then " " else "") ++ ">")
  | .bool => .ok "bool"
  | .string => .ok "string"
  | .void => .ok "void"
  | .generic => .error (.unresolvedType (name .generic))
  | .genericArray => .error (.unresolvedType (name .genericArray))
  | .emptyArray => .error (.unresolvedType (name .emptyArray))
  | _ => .ok "int"

/-- The value of a variable that is declared without one. Arrays start empty by themselves. -/
def defaultCode? : Ty → Option String
  | .array _ => none
  | .bool => some "false"
  | .string => some "\"\""
  | _ => some "0"

/-- A type as a part of a function's name. -/
def mangled : Ty → String
  | .array element => "vec_" ++ element.mangled
  | .void => "void"
  | .bool => "bool"
  | .num => "num"
  | .string => "string"
  | .piece => "piece"
  | .cell => "cell"
  | .row => "row"
  | .rank => "rank"
  | .file => "file"
  | .player => "player"
  | .genericArray | .emptyArray | .generic => "generic"

end Ty

namespace Code

/-- The name of a function with the given parameter types. Types that differ in the program can be
the same in the generated code, so the name tells them apart. -/
def functionName (name : String) (params : List Ty) : String :=
  if params.isEmpty then "fn_" ++ name
  else "fn_" ++ name ++ "__" ++ "_".intercalate (params.map Ty.mangled)

def variableName (name : String) : String :=
  "var_" ++ name

def predefinedName (name : String) : String :=
  "func_" ++ name

def ruleName (name : String) : String :=
  "rule_" ++ name

def phaseName : Phase → String
  | .opening => "opn_eval"
  | .midgame => "mid_eval"
  | .endgame => "end_eval"

def boolean (value : Bool) : String :=
  if value then "true" else "false"

def board : BoardCollection → String
  | .cells => "cells()"
  | .rows => "rows()"
  | .ranks => "ranks()"
  | .files => "files()"

def player : Player → String
  | .self => "self()"
  | .rival => "rival()"

def literal : Literal → String
  | .number value => value.code
  | .boolean value => boolean value
  | .string value => Text.literal value
  | .cell name => "get_cell(\"" ++ name ++ "\")"
  | .row index => "get_row(" ++ toString index ++ ")"
  | .rank index => "get_rank(" ++ toString index ++ ")"
  | .file index => "get_file(" ++ toString index ++ ")"
  | .cellRange first last => "get_rang_cell(\"" ++ first ++ "\", \"" ++ last ++ "\")"
  | .rowRange first last => "get_rang_row(" ++ toString first ++ ", " ++ toString last ++ ")"
  | .rankRange first last => "get_rang_rank(" ++ toString first ++ ", " ++ toString last ++ ")"
  | .fileRange first last => "get_rang_file(" ++ toString first ++ ", " ++ toString last ++ ")"
  | .board collection => board collection
  | .pieces name => name ++ "()"
  | .player side => player side

end Code

def BinaryOp.symbol : BinaryOp → String
  | .or => "||"
  | .and => "&&"
  | .equal => "=="
  | .notEqual => "!="
  | .less => "<"
  | .lessEqual => "<="
  | .greater => ">"
  | .greaterEqual => ">="
  | .elementOf => "in"
  | .add => "+"
  | .subtract => "-"
  | .multiply => "*"
  | .divide => "/"
  | .concat => "++"

end ChessEval
