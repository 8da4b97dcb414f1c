import ChessEval.Text.Glyphless

/-!
# Quoted texts

Messages and tree dumps show a text between double quotes, on one line and with every invisible
character spelled out. The generated program shows a text as a string literal, which spells out only
what would end the literal or the line.
-/

namespace ChessEval.Text

/-- A code point by number: `\u`, then its lower-case hexadecimal digits in braces. -/
def codePoint (c : Char) : List Char :=
  ['\\', 'u', '\x7b'] ++ Nat.toDigits 16 c.toNat ++ ['\x7d']

def quotedChar (c : Char) : List Char :=
  match c with
  | '\x00' => ['\\', '0']
  | '\t' => ['\\', 't']
  | '\r' => ['\\', 'r']
  | '\n' => ['\\', 'n']
  | '\\' => ['\\', '\\']
  | '"' => ['\\', '"']
  | c =>
    if c.toNat < 0x20 then codePoint c
    else if c.toNat < 0x7F then [c]
    else if isGlyphless c then codePoint c
    else [c]

/-- A text between double quotes, all of it visible and on one line. -/
def quoted (s : String) : String :=
  String.ofList (['"'] ++ s.toList.flatMap quotedChar ++ ['"'])

def literalChar (c : Char) : List Char :=
  match c with
  | '"' => ['\\', '"']
  | '\\' => ['\\', '\\']
  | '\n' => ['\\', 'n']
  | '\t' => ['\\', 't']
  | c => [c]

def literal (s : String) : String :=
  String.ofList (['"'] ++ s.toList.flatMap literalChar ++ ['"'])

end ChessEval.Text
