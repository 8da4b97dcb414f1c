import ChessEval.Issue
import ChessEval.Text.Cursor
import ChessEval.Token.Basic
import ChessEval.Token.Pattern

/-!
# Reading tokens

A text is cut into pieces from left to right. Of the patterns that fit at a place the first in the
lexicon decides; blanks and comments leave no token.
-/

namespace ChessEval

/-- What a piece of text becomes. -/
inductive Lexeme where
  /-- The piece only separates tokens. -/
  | gap
  /-- The piece is the text of a token of this kind. -/
  | token (kind : TokenKind)
  /-- The piece is a reserved word or a name. -/
  | word
  /-- The piece is a quoted string. -/
  | string
deriving DecidableEq, Repr

namespace Lexeme

def mark (first : Char) (rest : List Char) (kind : TokenKind) : Pattern × Lexeme :=
  (.shape (.exactly first) (rest.map .exactly), .token kind)

def board (classes : List CharClass) (kind : TokenKind) : Pattern × Lexeme :=
  (.shape (.exactly '$') classes, .token kind)

/-- A pattern for a range of board literals: two of them with two points between. -/
def boardRange (classes : List CharClass) (kind : TokenKind) : Pattern × Lexeme :=
  board (classes ++ [.exactly '.', .exactly '.', .exactly '$'] ++ classes) kind

def lexicon : List (Pattern × Lexeme) := [
  (.blanks, .gap),
  (.lineComment, .gap),
  (.blockComment, .gap),
  boardRange [.fileLetter, .rowDigit] .cellRange,
  boardRange [.exactly 'r', .rowDigit] .rankRange,
  boardRange [.rowDigit] .rowRange,
  boardRange [.fileLetter] .fileRange,
  board [.fileLetter, .rowDigit] .cellLiteral,
  board [.exactly 'r', .rowDigit] .rankLiteral,
  board [.rowDigit] .rowLiteral,
  board [.fileLetter] .fileLiteral,
  (.word, .word),
  (.number, .token .number),
  (.string, .string),
  mark '[' [] .openBracket,
  mark ']' [] .closeBracket,
  mark '\x7b' [] .openCurly,
  mark '\x7d' [] .closeCurly,
  mark '(' [] .openParen,
  mark ')' [] .closeParen,
  mark ':' ['='] .assignment,
  mark '=' ['='] .equals,
  mark '!' ['='] .notEquals,
  mark '<' ['='] .lessEquals,
  mark '<' [] .less,
  mark '>' ['='] .greaterEquals,
  mark '>' [] .greater,
  mark '+' ['+'] .plusPlus,
  mark '+' [] .plus,
  mark '-' [] .dash,
  mark '*' [] .star,
  mark '/' [] .slash,
  mark '&' [] .ampersand,
  mark '.' [] .dot,
  mark ';' [] .semicolon,
  mark ',' [] .comma]

/-- The first lexeme of a list of patterns that fits at the start of a text, and its length. -/
def firstOf? : List (Pattern × Lexeme) → List Char → Option (Lexeme × Nat)
  | [], _ => none
  | (p, lexeme) :: rest, cs =>
    match p.length? cs with
    | some n => some (lexeme, n)
    | none => firstOf? rest cs

def first? (cs : List Char) : Option (Lexeme × Nat) :=
  firstOf? lexicon cs

theorem firstOf?_pos {table : List (Pattern × Lexeme)} {cs : List Char} {lexeme : Lexeme} {n : Nat}
    (h : firstOf? table cs = some (lexeme, n)) : 0 < n := by
  induction table with
  | nil => simp [firstOf?] at h
  | cons entry rest ih =>
    rw [firstOf?] at h
    split at h
    · rename_i k hk
      simp only [Option.some.injEq, Prod.mk.injEq] at h
      obtain ⟨-, rfl⟩ := h
      exact Pattern.length?_pos hk
    · exact ih h

/-- A lexeme is never empty. -/
theorem first?_pos {cs : List Char} {lexeme : Lexeme} {n : Nat} (h : first? cs = some (lexeme, n)) :
    0 < n :=
  firstOf?_pos h

/-- The text that the characters between the quotes of a string stand for. A backslash before any
other character than these four stands for itself. -/
def unescape : List Char → List Char
  | '\\' :: 'n' :: rest => '\n' :: unescape rest
  | '\\' :: 't' :: rest => '\t' :: unescape rest
  | '\\' :: '\\' :: rest => '\\' :: unescape rest
  | '\\' :: '"' :: rest => '"' :: unescape rest
  | c :: rest => c :: unescape rest
  | [] => []

/-- The token that a piece of text becomes, given the lines on which it starts and ends. Only a
string can end on a later line than it starts. -/
def token? (lexeme : Lexeme) (text : List Char) (line endLine : Nat) : Option Token :=
  match lexeme with
  | .gap => none
  | .token kind => some ⟨kind, String.ofList text, line, line⟩
  | .word =>
    let word := String.ofList text
    some ⟨(reserved? word).getD .identifier, word, line, line⟩
  | .string => some ⟨.string, String.ofList (unescape (text.drop 1).dropLast), line, endLine⟩

end Lexeme

namespace Token

open Text

/-- The tokens of a text from a place on, ended by an end token, or the first place where no lexeme starts. -/
def scan (cursor : Cursor) : Except Cursor (List Token) :=
  if hend : cursor.atEnd then .ok [eof cursor.line.toNat]
  else
    match h : Lexeme.first? cursor.rest with
    | none => .error cursor
    | some (lexeme, n) =>
      let text := cursor.rest.take n
      let next := cursor.advance (byteCount text)
      have : next.rest.length < cursor.rest.length :=
        Cursor.length_advance_lt (eq_false_of_ne_true hend) (Lexeme.first?_pos h)
      match scan next with
      | .error place => .error place
      | .ok tokens => .ok ((lexeme.token? text cursor.line.toNat next.line.toNat).toList ++ tokens)
termination_by cursor.rest.length

/-- The file of a text that no file is named for. -/
def defaultFile : String := "shell"

def ofSource (source : String) (file : String := defaultFile) : Except Fault (List Token) :=
  match scan (.ofText source) with
  | .ok tokens => .ok tokens
  | .error place => .error ⟨.unrecognisedToken (String.singleton place.current), place.line.toNat, file⟩

end Token

end ChessEval
