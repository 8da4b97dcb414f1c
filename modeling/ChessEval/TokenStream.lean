import ChessEval.Issue
import ChessEval.Token.Basic

/-!
# Token streams

A token stream is what a reader of the grammar has in front of it: the current token, the tokens after
it, and the number for the next expression node. It always has a current token, since the last one is
never consumed. A reader that fails leaves the stream where it stopped.
-/

namespace ChessEval

structure TokenStream where
  current : Token
  rest : List Token
  file : String
  nextId : Nat
deriving DecidableEq, Repr, Inhabited

abbrev Parse := ExceptT Fault (StateM TokenStream)

namespace TokenStream

/-- Tokens that end with an end token, which is added on the line of the last token if it is
missing. -/
def terminated (tokens : List Token) : List Token :=
  match tokens.getLast? with
  | some last => if last.kind = .eof then tokens else tokens ++ [Token.eof last.line]
  | none => [Token.eof 1]

def ofTokens (tokens : List Token) (file : String) : TokenStream :=
  match terminated tokens with
  | first :: rest => ⟨first, rest, file, 0⟩
  | [] => ⟨Token.eof 1, [], file, 0⟩

def next (s : TokenStream) : TokenStream :=
  match s.rest with
  | [] => s
  | token :: rest => { s with current := token, rest := rest }

def peekKind (s : TokenStream) : TokenKind :=
  match s.rest with
  | [] => s.current.kind
  | token :: _ => token.kind

def hasTokens (s : TokenStream) : Bool :=
  s.current.kind != .eof

def fault (s : TokenStream) (issue : Issue) : Fault :=
  ⟨issue, s.current.line, s.file⟩

/-- The fault of a current token that cannot stand where it stands, with the reason. -/
def unexpected (s : TokenStream) (message : String) : Fault :=
  s.fault (.unexpectedTokenDetailed s.current.text message)

end TokenStream

namespace Parse

def current : Parse Token :=
  return (← get).current

def currentKind : Parse TokenKind :=
  return (← get).current.kind

def peekKind : Parse TokenKind :=
  return (← get).peekKind

/-- Moves on and gives the token that was current. -/
def advance : Parse Token := do
  let s ← get
  set s.next
  return s.current

def freshId : Parse Nat := do
  let s ← get
  set { s with nextId := s.nextId + 1 }
  return s.nextId

def unexpected {α : Type} (message : String) : Parse α := do
  throw ((← get).unexpected message)

/-- Fails because nothing can start with the current token. -/
def unexpectedToken {α : Type} : Parse α := do
  let s ← get
  throw (s.fault (.unexpectedToken s.current.text))

def expectOr (kind : TokenKind) (fault : Fault) : Parse Token := do
  if (← currentKind) = kind then advance else throw fault

def expect (kind : TokenKind) : Parse Token := do
  expectOr kind ((← get).unexpected ("expected " ++ kind.name))

def expectFor (kind : TokenKind) (message : String) : Parse Token := do
  expectOr kind ((← get).unexpected message)

/-- The items after the first of a list with commas between, at most the given number. -/
def commaTail {α : Type} (item : Parse α) : Nat → Parse (List α)
  | 0 => return []
  | count + 1 => do
    if (← currentKind) = .comma then
      let _ ← advance
      let first ← item
      let rest ← commaTail item count
      return first :: rest
    else return []

/-- One or more items with commas between. There are no more commas than tokens ahead. -/
def commaSeparated {α : Type} (item : Parse α) : Parse (List α) := do
  let first ← item
  let rest ← commaTail item (← get).rest.length
  return first :: rest

/-- Items up to a closing curly bracket or the end, at most the given number. -/
def itemsWithin {α : Type} (item : Parse α) : Nat → Parse (List α)
  | 0 => return []
  | count + 1 => do
    let kind ← currentKind
    if kind = .eof ∨ kind = .closeCurly then return []
    else
      let first ← item
      let rest ← itemsWithin item count
      return first :: rest

def braced {α : Type} (item : Parse α) : Parse (List α) := do
  let _ ← expect .openCurly
  let items ← itemsWithin item (← get).rest.length
  let _ ← expect .closeCurly
  return items

end Parse

end ChessEval
