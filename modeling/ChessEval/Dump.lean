/-!
# Dumps

A dump shows a value of nested named parts over several lines. Each level is indented by four more
spaces, and every part is followed by a comma.
-/

namespace ChessEval

/-- A value to be shown: an atom as it is, or parts with or without names. -/
inductive Dump where
  | atom (text : String)
  | record (name : String) (fields : List (String × Dump))
  | tuple (name : String) (items : List Dump)
  | list (items : List Dump)

namespace Dump

def indent (level : Nat) : String :=
  String.ofList (List.replicate (4 * level) ' ')

mutual

/-- A dump whose first line continues a line of the given level. -/
def render (level : Nat) : Dump → String
  | .atom text => text
  | .record name fields =>
    name ++ " \x7b\n" ++ renderFields (level + 1) fields ++ indent level ++ "\x7d"
  | .tuple name items => name ++ "(\n" ++ renderItems (level + 1) items ++ indent level ++ ")"
  | .list [] => "[]"
  | .list (item :: items) =>
    "[\n" ++ renderItems (level + 1) (item :: items) ++ indent level ++ "]"

def renderFields (level : Nat) : List (String × Dump) → String
  | [] => ""
  | (name, value) :: rest =>
    indent level ++ name ++ ": " ++ render level value ++ ",\n" ++ renderFields level rest

/-- Parts without names, one after another. -/
def renderItems (level : Nat) : List Dump → String
  | [] => ""
  | item :: rest => indent level ++ render level item ++ ",\n" ++ renderItems level rest

end

def text (dump : Dump) : String :=
  dump.render 0

def nat (n : Nat) : Dump :=
  .atom (toString n)

def bool (b : Bool) : Dump :=
  .atom (if b then "true" else "false")

def option : Option Dump → Dump
  | none => .atom "None"
  | some value => .tuple "Some" [value]

end Dump

end ChessEval
