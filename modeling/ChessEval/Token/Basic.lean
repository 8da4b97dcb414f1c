/-!
# Tokens

The words of a program: literals, names, reserved words and marks. Each token knows the lines on
which its text starts and ends.
-/

namespace ChessEval

inductive TokenKind where
  | eof
  | number
  | string
  | identifier
  | cellLiteral
  | rowLiteral
  | rankLiteral
  | fileLiteral
  | cellRange
  | rowRange
  | rankRange
  | fileRange
  | boardLiteral
  | pieceLiteral
  | openBracket
  | closeBracket
  | openCurly
  | closeCurly
  | openParen
  | closeParen
  | assignment
  | equals
  | notEquals
  | less
  | lessEquals
  | greater
  | greaterEquals
  | dot
  | semicolon
  | comma
  | ampersand
  | plusPlus
  | plus
  | dash
  | slash
  | star
  | configWord
  | ruleWord
  | doifWord
  | ifWord
  | elseWord
  | whileWord
  | forallWord
  | inWord
  | returnWord
  | scoreWord
  | andWord
  | orWord
  | notWord
  | trueWord
  | falseWord
  | selfWord
  | rivalWord
  | voidType
  | numType
  | boolType
  | stringType
  | pieceType
  | cellType
  | rowType
  | rankType
  | fileType
  | playerType
deriving DecidableEq, Repr, Inhabited

namespace TokenKind

def name : TokenKind → String
  | .eof => "EOF"
  | .number => "Number"
  | .string => "String"
  | .identifier => "Identifier"
  | .cellLiteral => "CellLiteral"
  | .rowLiteral => "RowLiteral"
  | .rankLiteral => "RankLiteral"
  | .fileLiteral => "FileLiteral"
  | .cellRange => "CellRange"
  | .rowRange => "RowRange"
  | .rankRange => "RankRange"
  | .fileRange => "FileRange"
  | .boardLiteral => "BoardLiteral"
  | .pieceLiteral => "PieceLiteral"
  | .openBracket => "OpenBracket"
  | .closeBracket => "CloseBracket"
  | .openCurly => "OpenCurly"
  | .closeCurly => "CloseCurly"
  | .openParen => "OpenParen"
  | .closeParen => "CloseParen"
  | .assignment => "Assignment"
  | .equals => "Equals"
  | .notEquals => "NotEquals"
  | .less => "Less"
  | .lessEquals => "LessEquals"
  | .greater => "Greater"
  | .greaterEquals => "GreaterEquals"
  | .dot => "Dot"
  | .semicolon => "Semicolon"
  | .comma => "Comma"
  | .ampersand => "Ampersand"
  | .plusPlus => "PlusPlus"
  | .plus => "Plus"
  | .dash => "Dash"
  | .slash => "Slash"
  | .star => "Star"
  | .configWord => "Config"
  | .ruleWord => "Rule"
  | .doifWord => "Doif"
  | .ifWord => "If"
  | .elseWord => "Else"
  | .whileWord => "While"
  | .forallWord => "Forall"
  | .inWord => "In"
  | .returnWord => "Return"
  | .scoreWord => "Score"
  | .andWord => "And"
  | .orWord => "Or"
  | .notWord => "Not"
  | .trueWord => "True"
  | .falseWord => "False"
  | .selfWord => "SelfPlayer"
  | .rivalWord => "Rival"
  | .voidType => "Void"
  | .numType => "Num"
  | .boolType => "Bool"
  | .stringType => "StringType"
  | .pieceType => "Piece"
  | .cellType => "Cell"
  | .rowType => "Row"
  | .rankType => "Rank"
  | .fileType => "File"
  | .playerType => "Player"

def all : List TokenKind := [
  .eof, .number, .string, .identifier, .cellLiteral, .rowLiteral, .rankLiteral, .fileLiteral,
  .cellRange, .rowRange, .rankRange, .fileRange, .boardLiteral, .pieceLiteral, .openBracket,
  .closeBracket, .openCurly, .closeCurly, .openParen, .closeParen, .assignment, .equals, .notEquals,
  .less, .lessEquals, .greater, .greaterEquals, .dot, .semicolon, .comma, .ampersand, .plusPlus,
  .plus, .dash, .slash, .star, .configWord, .ruleWord, .doifWord, .ifWord, .elseWord, .whileWord,
  .forallWord, .inWord, .returnWord, .scoreWord, .andWord, .orWord, .notWord, .trueWord, .falseWord,
  .selfWord, .rivalWord, .voidType, .numType, .boolType, .stringType, .pieceType, .cellType,
  .rowType, .rankType, .fileType, .playerType]

def ofName? (name : String) : Option TokenKind :=
  all.find? fun kind => kind.name == name

/-- The type words that are also names of predefined functions, as in `row(p)` and `p.file`. -/
def isCallable : TokenKind → Bool
  | .pieceType | .cellType | .rowType | .rankType | .fileType | .playerType => true
  | _ => false

end TokenKind

structure Token where
  kind : TokenKind
  text : String
  line : Nat
  endLine : Nat
deriving DecidableEq, Repr, Inhabited

namespace Token

def eof (line : Nat) : Token :=
  ⟨.eof, "EOF", line, line⟩

def shown (token : Token) : String :=
  "Token \x7b\nkind: " ++ token.kind.name ++ ",\nvalue: " ++ token.text ++ "\x7d"

end Token

def pieceCollections : List String :=
  ["pieces", "pawns", "bishops", "rooks", "knights", "kings", "queens"]

def reservedWords : List (String × TokenKind) :=
  [("config", .configWord), ("rule", .ruleWord), ("doif", .doifWord), ("if", .ifWord),
    ("else", .elseWord), ("while", .whileWord), ("forall", .forallWord), ("in", .inWord),
    ("return", .returnWord), ("score", .scoreWord), ("and", .andWord), ("or", .orWord),
    ("not", .notWord), ("true", .trueWord), ("false", .falseWord), ("self", .selfWord),
    ("rival", .rivalWord), ("void", .voidType), ("num", .numType), ("bool", .boolType),
    ("string", .stringType), ("piece", .pieceType), ("cell", .cellType), ("row", .rowType),
    ("rank", .rankType), ("file", .fileType), ("player", .playerType), ("cells", .boardLiteral),
    ("rows", .boardLiteral), ("ranks", .boardLiteral), ("files", .boardLiteral)] ++
  ["s", "r"].flatMap fun side => pieceCollections.map fun c => (side ++ c, TokenKind.pieceLiteral)

def reserved? (word : String) : Option TokenKind :=
  reservedWords.lookup word

end ChessEval
