import ChessEval.Program.Parser
import ChessEval.Proofs.Nodes

/-!
# Printing programs

A program is printed as the tokens that spell it. An operand stands in parentheses only when its
operator holds looser than its place asks for: the levels are `or`, `and`, `not`, the comparisons, the
sums, the products, the signs `-` and `+`, and last calls, elements and members together with the
operands that need no operator. A left operand may have the level of its operator, a right operand
must have a higher one. How a number is written is left open.
-/

namespace ChessEval

def TokenKind.fixedText : TokenKind → String
  | .openBracket => "["
  | .closeBracket => "]"
  | .openCurly => "\x7b"
  | .closeCurly => "\x7d"
  | .openParen => "("
  | .closeParen => ")"
  | .assignment => ":="
  | .equals => "=="
  | .notEquals => "!="
  | .less => "<"
  | .lessEquals => "<="
  | .greater => ">"
  | .greaterEquals => ">="
  | .dot => "."
  | .semicolon => ";"
  | .comma => ","
  | .ampersand => "&"
  | .plusPlus => "++"
  | .plus => "+"
  | .dash => "-"
  | .slash => "/"
  | .star => "*"
  | .configWord => "config"
  | .ruleWord => "rule"
  | .doifWord => "doif"
  | .ifWord => "if"
  | .elseWord => "else"
  | .whileWord => "while"
  | .forallWord => "forall"
  | .inWord => "in"
  | .returnWord => "return"
  | .scoreWord => "score"
  | .andWord => "and"
  | .orWord => "or"
  | .notWord => "not"
  | .trueWord => "true"
  | .falseWord => "false"
  | .selfWord => "self"
  | .rivalWord => "rival"
  | .voidType => "void"
  | .numType => "num"
  | .boolType => "bool"
  | .stringType => "string"
  | .pieceType => "piece"
  | .cellType => "cell"
  | .rowType => "row"
  | .rankType => "rank"
  | .fileType => "file"
  | .playerType => "player"
  | _ => ""

namespace Token

/-- A printed token. -/
def printed (kind : TokenKind) (text : String) : Token :=
  ⟨kind, text, 1, 1⟩

def fixed (kind : TokenKind) : Token :=
  printed kind kind.fixedText

/-- The name of a function, which can be one of the type words. -/
def callee (name : String) : Token :=
  printed (((reserved? name).filter TokenKind.isCallable).getD .identifier) name

def separated : List (List Token) → List Token
  | [] => []
  | first :: rest => first ++ rest.flatMap (fixed .comma :: ·)

def braces (tokens : List Token) : List Token :=
  fixed .openCurly :: (tokens ++ [fixed .closeCurly])

/-- The tokens of an operand, in parentheses if its level is below the lowest that its place takes. -/
def enclosed (level lowest : Nat) (tokens : List Token) : List Token :=
  if level < lowest then fixed .openParen :: (tokens ++ [fixed .closeParen]) else tokens

end Token

def BinaryOp.kind : BinaryOp → TokenKind
  | .or => .orWord
  | .and => .andWord
  | .equal => .equals
  | .notEqual => .notEquals
  | .less => .less
  | .lessEqual => .lessEquals
  | .greater => .greater
  | .greaterEqual => .greaterEquals
  | .elementOf => .inWord
  | .add => .plus
  | .subtract => .dash
  | .multiply => .star
  | .divide => .slash
  | .concat => .plusPlus

def BinaryOp.level : BinaryOp → Nat
  | .or => 1
  | .and => 2
  | .equal | .notEqual | .less | .lessEqual | .greater | .greaterEqual | .elementOf => 4
  | .add | .subtract | .concat => 5
  | .multiply | .divide => 6

def UnaryOp.kind : UnaryOp → TokenKind
  | .not => .notWord
  | .negate => .dash
  | .absolute => .plus

def UnaryOp.level : UnaryOp → Nat
  | .not => 3
  | .negate | .absolute => 7

namespace Literal

def place (text : List Char) : List Char :=
  '$' :: text

/-- Two places on the board with two points between. -/
def span (first last : List Char) : List Char :=
  place first ++ '.' :: '.' :: place last

def digit (index : Nat) : Char :=
  Char.ofNat (48 + index)

def letter (index : Nat) : Char :=
  Char.ofNat (96 + index)

/-- The two ends of a range of cells. -/
def cellSpan (first last : List Char) : List Char :=
  if first.getLast? = some '.' then place first else span first last

def token (numeral : Number → String) : Literal → Token
  | .number value => .printed .number (numeral value)
  | .boolean true => .fixed .trueWord
  | .boolean false => .fixed .falseWord
  | .string value => .printed .string value
  | .cell name => .printed .cellLiteral (String.ofList (place name.toList))
  | .row index => .printed .rowLiteral (String.ofList (place [digit index]))
  | .rank index => .printed .rankLiteral (String.ofList (place ['r', digit index]))
  | .file index => .printed .fileLiteral (String.ofList (place [letter index]))
  | .cellRange first last => .printed .cellRange (String.ofList (cellSpan first.toList last.toList))
  | .rowRange first last => .printed .rowRange (String.ofList (span [digit first] [digit last]))
  | .rankRange first last =>
    .printed .rankRange (String.ofList (span ['r', digit first] ['r', digit last]))
  | .fileRange first last => .printed .fileRange (String.ofList (span [letter first] [letter last]))
  | .board .cells => .printed .boardLiteral "cells"
  | .board .rows => .printed .boardLiteral "rows"
  | .board .ranks => .printed .boardLiteral "ranks"
  | .board .files => .printed .boardLiteral "files"
  | .pieces name => .printed .pieceLiteral name
  | .player .self => .fixed .selfWord
  | .player .rival => .fixed .rivalWord

end Literal

/-- The tokens of a type. -/
def Ty.print : Ty → List Token
  | .void => [.fixed .voidType]
  | .bool => [.fixed .boolType]
  | .num => [.fixed .numType]
  | .string => [.fixed .stringType]
  | .piece => [.fixed .pieceType]
  | .cell => [.fixed .cellType]
  | .row => [.fixed .rowType]
  | .rank => [.fixed .rankType]
  | .file => [.fixed .fileType]
  | .player => [.fixed .playerType]
  | .array element => element.print ++ [.fixed .openBracket, .fixed .closeBracket]
  | .genericArray | .emptyArray | .generic => []

namespace Expr

/-- The level of calls, elements and members, and of operands without an operator. -/
def tightest : Nat := 8

def level : Expr → Nat
  | .binary _ operator _ _ => operator.level
  | .unary _ operator _ => operator.level
  | _ => tightest

def number? : Expr → Option Number
  | .literal _ (.number value) => some value
  | _ => none

mutual

/-- An expression without the numbers of its nodes and their lines. -/
def unmarked : Expr → Expr
  | .literal _ value => .literal default value
  | .identifier _ name => .identifier default name
  | .binary _ operator left right => .binary default operator left.unmarked right.unmarked
  | .unary _ operator operand => .unary default operator operand.unmarked
  | .call _ name arguments => .call default name (allUnmarked arguments)
  | .member _ base field => .member default base.unmarked field
  | .index _ base position => .index default base.unmarked position.unmarked
  | .list _ elements => .list default (allUnmarked elements)
  | .emptyList _ => .emptyList default

/-- Several expressions without numbers and lines. -/
def allUnmarked : List Expr → List Expr
  | [] => []
  | e :: rest => e.unmarked :: allUnmarked rest

end

@[simp]
lemma allUnmarked_eq (es : List Expr) : allUnmarked es = es.map unmarked := by
  induction es with
  | nil => rfl
  | cons e rest ih => rw [allUnmarked, ih, List.map_cons]

end Expr

section Trees

variable (numeral : Number → String)

namespace Expr

mutual

def print : Expr → List Token
  | .literal _ value => [value.token numeral]
  | .identifier _ name => [.printed .identifier name]
  | .binary _ operator left right =>
    Token.enclosed left.level operator.level left.print ++
      .fixed operator.kind :: Token.enclosed right.level (operator.level + 1) right.print
  | .unary _ operator operand =>
    .fixed operator.kind :: Token.enclosed operand.level operator.level operand.print
  | .call _ name arguments =>
    .callee name :: .fixed .openParen :: (Token.separated (printAll arguments) ++ [.fixed .closeParen])
  | .member _ base field =>
    Token.enclosed base.level tightest base.print ++ [.fixed .dot, .callee field]
  | .index _ base position =>
    Token.enclosed base.level tightest base.print ++
      .fixed .openBracket :: (position.print ++ [.fixed .closeBracket])
  | .list _ elements =>
    .fixed .openBracket :: (Token.separated (printAll elements) ++ [.fixed .closeBracket])
  | .emptyList _ => [.fixed .openBracket, .fixed .closeBracket]

def printAll : List Expr → List (List Token)
  | [] => []
  | e :: rest => e.print :: printAll rest

end

@[simp]
lemma printAll_eq (es : List Expr) : printAll numeral es = es.map (print numeral) := by
  induction es with
  | nil => rfl
  | cons e rest ih => rw [printAll, ih, List.map_cons]

/-- The tokens of an operand whose place takes no level below the given one. -/
def operandTokens (lowest : Nat) (e : Expr) : List Token :=
  Token.enclosed e.level lowest (e.print numeral)

end Expr

def Declarator.print (d : Declarator) : List Token :=
  .printed .identifier d.name ::
    d.value.toList.flatMap fun value => .fixed .assignment :: value.print numeral

/-- One name of a declaration without numbers and lines. -/
def Declarator.unmarked (d : Declarator) : Declarator :=
  ⟨d.name, d.value.map Expr.unmarked, 0⟩

namespace Stmt

/-- Whether the block of an `else` is only another conditional, and needs no curly brackets. -/
def chains : List Stmt → Bool
  | [.ifThen ..] => true
  | _ => false

mutual

def print : Stmt → List Token
  | .declare type declarators _ =>
    type.print ++ Token.separated (declarators.map (Declarator.print numeral)) ++ [.fixed .semicolon]
  | .assign target value _ =>
    target.print numeral ++ .fixed .assignment :: (value.print numeral ++ [.fixed .semicolon])
  | .ifThen condition thenBody none _ =>
    .fixed .ifWord :: (condition.print numeral ++ Token.braces (printBlock thenBody))
  | .ifThen condition thenBody (some elseBody) _ =>
    .fixed .ifWord :: (condition.print numeral ++ Token.braces (printBlock thenBody) ++
      .fixed .elseWord ::
        if chains elseBody then printBlock elseBody else Token.braces (printBlock elseBody))
  | .whileDo condition body _ =>
    .fixed .whileWord :: (condition.print numeral ++ Token.braces (printBlock body))
  | .forAll name source body _ =>
    .fixed .forallWord :: .fixed .openParen :: .printed .identifier name :: .fixed .inWord ::
      (source.print numeral ++ .fixed .closeParen :: Token.braces (printBlock body))
  | .returns none _ => [.fixed .returnWord, .fixed .semicolon]
  | .returns (some value) _ => .fixed .returnWord :: (value.print numeral ++ [.fixed .semicolon])
  | .score value _ => .fixed .scoreWord :: (value.print numeral ++ [.fixed .semicolon])
  | .call site _ => site.print numeral ++ [.fixed .semicolon]

def printBlock : List Stmt → List Token
  | [] => []
  | s :: rest => s.print ++ printBlock rest

end

mutual

/-- A statement without the numbers and lines of what is in it. -/
def unmarked : Stmt → Stmt
  | .declare type declarators _ => .declare type (declarators.map Declarator.unmarked) 0
  | .assign target value _ => .assign target.unmarked value.unmarked 0
  | .ifThen condition thenBody none _ => .ifThen condition.unmarked (blockUnmarked thenBody) none 0
  | .ifThen condition thenBody (some elseBody) _ =>
    .ifThen condition.unmarked (blockUnmarked thenBody) (some (blockUnmarked elseBody)) 0
  | .whileDo condition body _ => .whileDo condition.unmarked (blockUnmarked body) 0
  | .forAll name source body _ => .forAll name source.unmarked (blockUnmarked body) 0
  | .returns value _ => .returns (value.map Expr.unmarked) 0
  | .score value _ => .score value.unmarked 0
  | .call site _ => .call site.unmarked 0

/-- The statements of a block without numbers and lines. -/
def blockUnmarked : List Stmt → List Stmt
  | [] => []
  | s :: rest => s.unmarked :: blockUnmarked rest

end

lemma printBlock_eq (block : List Stmt) : printBlock numeral block = block.flatMap (print numeral) := by
  induction block with
  | nil => rfl
  | cons s rest ih => rw [printBlock, ih, List.flatMap_cons]

lemma print_returns (value : Option Expr) (line : Nat) :
    print numeral (.returns value line) =
      .fixed .returnWord :: (value.toList.flatMap (Expr.print numeral) ++ [.fixed .semicolon]) := by
  cases value <;> simp [print]

lemma unmarked_ifThen (condition : Expr) (thenBody : List Stmt) (elseBody : Option (List Stmt)) (line : Nat) :
    unmarked (.ifThen condition thenBody elseBody line) =
      .ifThen condition.unmarked (blockUnmarked thenBody) (elseBody.map blockUnmarked) 0 := by
  cases elseBody <;> rw [unmarked] <;> rfl

lemma blockUnmarked_eq (block : List Stmt) : blockUnmarked block = block.map unmarked := by
  induction block with
  | nil => rfl
  | cons s rest ih => rw [blockUnmarked, ih, List.map_cons]

end Stmt

def Number.isNegative : Number → Bool
  | .finite negative _ _ | .infinite negative => negative
  | .undefined => false

def Number.magnitude (value : Number) : Number :=
  if value.isNegative then value.opposite else value

def ConfigValue.magnitude? : ConfigValue → Option Number
  | .number value => some value.magnitude
  | .boolean _ => none

/-- The tokens of the value of a setting. -/
def ConfigValue.print : ConfigValue → List Token
  | .boolean true => [.fixed .trueWord]
  | .boolean false => [.fixed .falseWord]
  | .number value =>
    (if value.isNegative then [.fixed .dash] else []) ++ [.printed .number (numeral value.magnitude)]

def ConfigEntry.print (entry : ConfigEntry) : List Token :=
  .printed .identifier entry.name :: .fixed .assignment ::
    (entry.value.print numeral ++ [.fixed .semicolon])

def ConfigEntry.unmarked (entry : ConfigEntry) : ConfigEntry :=
  { entry with line := 0 }

def Param.print (param : Param) : List Token :=
  param.type.print ++ (if param.byReference then [.fixed .ampersand] else []) ++
    [.printed .identifier param.name]

def Param.unmarked (param : Param) : Param :=
  { param with line := 0 }

def RuleOption.print (option : RuleOption) : List Token :=
  [.printed .identifier option.name]

def RuleOption.unmarked (option : RuleOption) : RuleOption :=
  { option with line := 0 }

def RuleOption.printAll (options : List RuleOption) : List Token :=
  if options = [] then []
  else
    .fixed .openParen :: (Token.separated (options.map RuleOption.print) ++ [.fixed .closeParen])

def Definition.print : Definition → List Token
  | .global g =>
    g.type.print ++ .printed .identifier g.name :: .fixed .assignment ::
      (g.value.print numeral ++ [.fixed .semicolon])
  | .function f =>
    f.returnType.print ++ .printed .identifier f.name :: .fixed .openParen ::
      (Token.separated (f.params.map Param.print) ++ .fixed .closeParen ::
        Token.braces (Stmt.printBlock numeral f.body))
  | .rule r =>
    .fixed .ruleWord :: .printed .identifier r.name :: (RuleOption.printAll r.options ++
      (r.guard.toList.flatMap (fun e => .fixed .doifWord :: e.print numeral)) ++
        Token.braces (Stmt.printBlock numeral r.body))

def Definition.unmarked : Definition → Definition
  | .global g => .global { g with value := g.value.unmarked, line := 0 }
  | .function f => .function { f with
      params := f.params.map Param.unmarked, body := Stmt.blockUnmarked f.body, line := 0 }
  | .rule r => .rule { r with
      options := r.options.map RuleOption.unmarked, guard := r.guard.map Expr.unmarked,
      body := Stmt.blockUnmarked r.body, line := 0 }

namespace Program

def print (p : Program) : List Token :=
  (if p.config = [] then []
    else .fixed .configWord :: Token.braces (p.config.flatMap (ConfigEntry.print numeral))) ++
  p.definitions.flatMap (Definition.print numeral) ++ [Token.eof 1]

def numerals (p : Program) : List Number :=
  p.config.filterMap (·.value.magnitude?) ++ p.nodes.filterMap Expr.number?

/-- A program without the numbers of its nodes and the lines of its parts. -/
def unmarked (p : Program) : Program :=
  { p with
    config := p.config.map ConfigEntry.unmarked
    definitions := p.definitions.map Definition.unmarked }

end Program

end Trees

/-- The constants that tokens can stand for. Rows and ranks are single digits, files are letters with
a code of one byte, and the names of cells do not start with a dollar sign. -/
def Literal.Printable : Literal → Prop
  | .cell name => name.toList.head? ≠ some '$'
  | .row index | .rank index => index ≤ 9
  | .file index => 1 ≤ index ∧ index ≤ 159
  | .cellRange first last => first.toList.head? ≠ some '$' ∧ last.toList.head? ≠ some '$' ∧
      Parse.splitRange? first.toList = none ∧ (first.toList.getLast? = some '.' → last = first)
  | .rowRange first last | .rankRange first last => first ≤ 9 ∧ last ≤ 9
  | .fileRange first last => (1 ≤ first ∧ first ≤ 159) ∧ 1 ≤ last ∧ last ≤ 159
  | _ => True

/-- The nodes that tokens can stand for. -/
def Expr.Printable : Expr → Prop
  | .literal _ value => value.Printable
  | .list _ elements => elements ≠ []
  | _ => True

/-- The types of values that tokens can stand for. -/
def Ty.Printable (type : Ty) : Prop :=
  type.isResolved = true ∧ type.containsVoid = false

/-- The statements that tokens can stand for. -/
def Stmt.Printable : Stmt → Prop
  | .declare type declarators _ => type.Printable ∧ declarators ≠ []
  | .assign target _ _ => target.isIdentifier = true
  | .call site _ => site.isCall = true
  | _ => True

/-- The definitions that tokens can stand for. -/
def Definition.Printable : Definition → Prop
  | .global g => g.type.Printable
  | .function f => f.returnType.isResolved = true ∧ (∀ param ∈ f.params, param.type.Printable) ∧
      ∀ s ∈ Stmt.blockParts f.body, s.Printable
  | .rule r => ∀ s ∈ Stmt.blockParts r.body, s.Printable

end ChessEval
