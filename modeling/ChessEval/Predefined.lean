import ChessEval.Issue
import ChessEval.Token.Pattern
import ChessEval.Ty.Basic

/-!
# Predefined functions

The functions that every program can call. A list of them can be written as text, one function a line:
the result type, the name, and the type of the parameter, if there is one, in parentheses. Blank lines
and lines that start with `#` are skipped.
-/

namespace ChessEval

structure Predefined where
  name : String
  returnType : Ty
  params : List Ty
deriving DecidableEq, Repr

namespace Predefined

def all : List Predefined := [
  ⟨"value", .num, [.piece]⟩,
  ⟨"row", .row, [.piece]⟩,
  ⟨"file", .file, [.piece]⟩,
  ⟨"rank", .rank, [.piece]⟩,
  ⟨"player", .player, [.piece]⟩,
  ⟨"piece", .piece, [.cell]⟩,
  ⟨"castled", .bool, [.player]⟩,
  ⟨"startingRow", .row, [.piece]⟩,
  ⟨"coveredBy", .array .piece, [.piece]⟩,
  ⟨"attackedBy", .array .piece, [.piece]⟩,
  ⟨"check", .bool, [.piece]⟩,
  ⟨"visibleCells", .array .cell, [.piece]⟩,
  ⟨"cell", .cell, [.piece]⟩,
  ⟨"coveredCells", .array .cell, [.piece]⟩,
  ⟨"len", .num, [.genericArray]⟩]

def takeName? (text : List Char) : Option (List Char × List Char) :=
  (Pattern.word.length? text).map fun n => (text.take n, text.drop n)

/-- The text between parentheses, which must hold at most one word. -/
def parameterWord? : List Char → Option (List Char)
  | '(' :: rest =>
    let inner := Text.trim rest.dropLast
    if rest.getLast? = some ')' ∧ inner.all (fun c => !Text.isBlank c) then some inner else none
  | _ => none

/-- The parameter types that a word between parentheses stands for. -/
def params? (word : List Char) : Option (List Ty) :=
  if word.isEmpty then some []
  else (Ty.ofText? (String.ofList word)).map fun type => [type]

/-- The function that a line without blanks at its ends describes. -/
def ofLine? (line : List Char) : Option Predefined := do
  let returnWord := line.takeWhile fun c => !Text.isBlank c
  let afterReturn := line.dropWhile fun c => !Text.isBlank c
  let (name, afterName) ← takeName? (Text.trimStart afterReturn)
  let word ← parameterWord? (Text.trimStart afterName)
  let returnType ← Ty.ofText? (String.ofList returnWord)
  let params ← params? word
  return ⟨String.ofList name, returnType, params⟩

def ofLines : List (String × Nat) → Except Issue (List Predefined)
  | [] => .ok []
  | (text, number) :: rest =>
    let line := Text.trim text.toList
    if line.isEmpty || line.head? = some '#' then ofLines rest
    else
      match ofLine? line with
      | none => .error (.malformedPredefined number text)
      | some function =>
        match ofLines rest with
        | .error issue => .error issue
        | .ok functions => .ok (function :: functions)

def ofText (text : String) : Except Issue (List Predefined) :=
  ofLines ((Text.lines text).zipIdx 1)

end Predefined

end ChessEval
