import ChessEval.Text.Blank

/-!
# Lexical patterns

A pattern says how long a piece of text it covers at the start of a text. Every piece is non-empty,
so a reader that moves from piece to piece comes to the end.
-/

namespace ChessEval

/-- The characters that board literals and marks are made of. -/
inductive CharClass where
  | exactly (c : Char)
  | fileLetter
  | rowDigit
deriving DecidableEq, Repr

def CharClass.holds : CharClass → Char → Bool
  | .exactly c, d => c == d
  | .fileLetter, d => 'a' ≤ d && d ≤ 'h'
  | .rowDigit, d => '1' ≤ d && d ≤ '8'

/-- The shapes that pieces of text can have. -/
inductive Pattern where
  | blanks
  | lineComment
  | blockComment
  | shape (first : CharClass) (rest : List CharClass)
  | word
  | number
  | string
deriving DecidableEq, Repr

namespace Pattern

/-- Whether a text starts with one character of each class, in order. -/
def fits : List CharClass → List Char → Bool
  | [], _ => true
  | _ :: _, [] => false
  | p :: ps, c :: cs => p.holds c && fits ps cs

/-- The characters before and including the first `*/`. -/
def commentEnd? : List Char → Option Nat
  | '*' :: '/' :: _ => some 2
  | _ :: rest => (commentEnd? rest).map (· + 1)
  | [] => none

/-- The characters before and including the quote that ends a string. A backslash takes the next
character with it, unless that is a newline. -/
def stringEnd? : List Char → Option Nat
  | '"' :: _ => some 1
  | '\\' :: c :: rest => if c = '\n' then none else (stringEnd? rest).map (· + 2)
  | '\\' :: [] => none
  | _ :: rest => (stringEnd? rest).map (· + 1)
  | [] => none

def isLetter (c : Char) : Bool :=
  ('a' ≤ c && c ≤ 'z') || ('A' ≤ c && c ≤ 'Z') || c == '_'

def isDigit (c : Char) : Bool :=
  '0' ≤ c && c ≤ '9'

/-- The number of characters at the start of a text that a predicate accepts. -/
def run (p : Char → Bool) (cs : List Char) : Nat :=
  (cs.takeWhile p).length

/-- The decimal point and the digits after it, zero characters if there are none. -/
def placesLength : List Char → Nat
  | '.' :: rest => if run isDigit rest = 0 then 0 else 1 + run isDigit rest
  | _ => 0

/-- The number of characters that a pattern covers at the start of a text. -/
def length? : Pattern → List Char → Option Nat
  | .blanks, cs => if run Text.isBlank cs = 0 then none else some (run Text.isBlank cs)
  | .lineComment, '/' :: '/' :: rest => some (2 + run (· != '\n') rest)
  | .blockComment, '/' :: '*' :: rest => (commentEnd? rest).map (2 + ·)
  | .shape first rest, cs => if fits (first :: rest) cs then some (rest.length + 1) else none
  | .word, c :: rest =>
    if isLetter c then some (1 + run (fun d => isLetter d || isDigit d) rest) else none
  | .number, cs =>
    if run isDigit cs = 0 then none
    else some (run isDigit cs + placesLength (cs.drop (run isDigit cs)))
  | .string, '"' :: rest => (stringEnd? rest).map (1 + ·)
  | _, _ => none

/-- What a pattern covers is never empty. -/
theorem length?_pos {p : Pattern} {cs : List Char} {n : Nat} (h : p.length? cs = some n) : 0 < n := by
  unfold length? at h
  split at h
  · split at h <;> simp at h
    omega
  · simp at h
    omega
  · simp only [Option.map_eq_some_iff] at h
    obtain ⟨k, -, rfl⟩ := h
    omega
  · split at h <;> simp at h
    omega
  · split at h <;> simp at h
    omega
  · split at h <;> simp at h
    omega
  · simp only [Option.map_eq_some_iff] at h
    obtain ⟨k, -, rfl⟩ := h
    omega
  · simp at h

end Pattern

end ChessEval
