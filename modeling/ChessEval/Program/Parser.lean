import ChessEval.Program.Basic
import ChessEval.Stmt.Parser

/-!
# Reading programs
-/

namespace ChessEval

namespace Parse

def configNumber : Parse ConfigValue := do
  let negative := (← currentKind) == .dash
  if negative then
    let _ ← advance
  let token ← expect .number
  match Number.ofText? token.text with
  | some value => return .number (if negative then value.opposite else value)
  | none => throw ⟨.malformedNumber token.text, token.line, (← get).file⟩

def configValue : Parse ConfigValue := do
  match ← currentKind with
  | .trueWord =>
    let _ ← advance
    return .boolean true
  | .falseWord =>
    let _ ← advance
    return .boolean false
  | .dash | .number => configNumber
  | _ => unexpected "config values must be numbers or booleans"

def configEntry : Parse ConfigEntry := do
  let name ← expect .identifier
  let _ ← expect .assignment
  let value ← configValue
  let _ ← expect .semicolon
  return ⟨name.text, value, name.line⟩

def configBlock : Parse (List ConfigEntry) := do
  let _ ← expect .configWord
  braced configEntry

/-- Consumes an ampersand, and says whether there was one. -/
def ampersand : Parse Bool := do
  if (← currentKind) = .ampersand then
    let _ ← advance
    return true
  else return false

/-- A parameter. The ampersand can stand before the type or after it. -/
def param : Parse Param := do
  let token ← current
  let before ← ampersand
  let type ← valueType
  let after ← ampersand
  let name ← expect .identifier
  return ⟨type, name.text, before || after, token.line⟩

def function (returnType : Ty) (name : String) (line : Nat) : Parse Definition := do
  let _ ← expect .openParen
  let params ← if (← currentKind) = .closeParen then pure [] else commaSeparated param
  let _ ← expect .closeParen
  let body ← block
  return .function ⟨returnType, name, params, body, line⟩

def ruleOption : Parse RuleOption := do
  let token ← expect .identifier
  return ⟨token.text, token.line⟩

def ruleOptions : Parse (List RuleOption) := do
  if (← currentKind) = .openParen then
    let _ ← advance
    let options ← commaSeparated ruleOption
    let _ ← expect .closeParen
    return options
  else return []

def ruleGuard : Parse (Option Expr) := do
  if (← currentKind) = .doifWord then
    let _ ← advance
    return some (← expression .lowest)
  else return none

def rule : Parse Definition := do
  let token ← advance
  let name ← expect .identifier
  let options ← ruleOptions
  let guard ← ruleGuard
  let body ← block
  return .rule ⟨name.text, options, guard, body, token.line⟩

/-- A global or a function, which both start with a type and a name. -/
def globalOrFunction : Parse Definition := do
  let start ← get
  let line := start.current.line
  let type ← type .lowest
  let name ← expectFor .identifier "expected a global or function name"
  if (← currentKind) = .openParen then function type name.text line
  else if type.containsVoid then throw (misplacedVoid line start.file)
  else
    let _ ← expect .assignment
    let value ← expression .lowest
    let _ ← expect .semicolon
    return .global ⟨type, name.text, value, line⟩

def definition : Parse Definition := do
  if (← currentKind) = .ruleWord then rule else globalOrFunction

/-- The definitions up to the end, at most the given number. -/
def definitionsWithin : Nat → Parse (List Definition)
  | 0 => return []
  | count + 1 => do
    if (← get).hasTokens then
      let first ← definition
      let rest ← definitionsWithin count
      return first :: rest
    else return []

/-- A program. There are no more definitions than tokens. -/
def program : Parse Program := do
  let config ← if (← currentKind) = .configWord then configBlock else pure []
  let definitions ← definitionsWithin (← get).rest.length
  let s ← get
  return ⟨s.file, config, definitions, s.nextId⟩

def on {α : Type} (reader : Parse α) (s : TokenStream) : Except Fault α × TokenStream :=
  reader.run s

end Parse

namespace Program

def ofTokens (tokens : List Token) (file : String) : Except Fault Program × TokenStream :=
  Parse.program.on (TokenStream.ofTokens tokens file)

end Program

end ChessEval
