/-!
# Lines of a text

A line ends at a newline, and a carriage return right before that newline belongs to the line's end.
A text that ends with a newline has no empty last line.
-/

namespace ChessEval.Text

def withoutReturn (line : List Char) : List Char :=
  match line.getLast? with
  | some '\r' => line.dropLast
  | _ => line

/-- The lines of a text of which `current` has been read already, latest character first. -/
def linesFrom (current : List Char) : List Char → List (List Char)
  | [] => if current.isEmpty then [] else [current.reverse]
  | '\n' :: rest => withoutReturn current.reverse :: linesFrom [] rest
  | c :: rest => linesFrom (c :: current) rest

def lines (s : String) : List String :=
  (linesFrom [] s.toList).map String.ofList

def line? (s : String) (number : Nat) : Option String :=
  if number = 0 then none else (lines s)[number - 1]?

end ChessEval.Text
