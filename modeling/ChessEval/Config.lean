import ChessEval.Issue
import ChessEval.Program.Basic

/-!
# Settings

The settings of a generated evaluator. Each has a default, which a program can override with a value
of the right kind.
-/

namespace ChessEval

/-- A setting: its name, its type, the type of the constant it becomes, and its value. -/
structure Setting where
  name : String
  type : Ty
  codeType : String
  value : ConfigValue
deriving DecidableEq, Repr

namespace Setting

/-- Whether the setting becomes an integer constant. -/
def isIntegral (s : Setting) : Bool :=
  s.codeType == "int"

def admits (s : Setting) : ConfigValue → Bool
  | .number value => s.type == .num && (!s.isIntegral || value.isInteger)
  | .boolean _ => s.type == .bool

/-- The kind of value that a setting takes, as messages show it. -/
def expected (s : Setting) : String :=
  if s.isIntegral then s.type.name ++ " (integer)" else s.type.name

end Setting

abbrev Config := List Setting

namespace Config

def default : Config := [
  ⟨"centipawn_value", .num, "int", .number Number.one⟩,
  ⟨"debug", .bool, "bool", .boolean false⟩,
  ⟨"default_PStables", .bool, "bool", .boolean false⟩]

def find? (config : Config) (name : String) : Option Setting :=
  List.find? (fun s => s.name == name) config

def replace (config : Config) (name : String) (value : ConfigValue) : Config :=
  config.map fun s => if s.name = name then { s with value := value } else s

def set (config : Config) (name : String) (value : ConfigValue) : Except Issue Config :=
  match config.find? name with
  | none => .error (.unknownConfigOption name)
  | some s =>
    if s.admits value then .ok (config.replace name value)
    else .error (.configOptionType name s.expected)

end Config

end ChessEval
