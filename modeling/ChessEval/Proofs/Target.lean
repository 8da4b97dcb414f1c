import ChessEval.Code.Unit
import Mathlib.Data.List.Nodup

/-!
# Generated code as a tree

The blocks of generated code and the variables that occur in them, how such code is written as lines, and what
its variables denote.
-/

namespace ChessEval

open List

variable {name : String} {block : List String} {found : Nat × Nat}

/-- The names declared so far in the blocks around a place, innermost block and latest name first. -/
abbrev Blocks := List (List String)

namespace Blocks

def place? (name : String) : List String → Option Nat
  | [] => none
  | latest :: earlier => if latest = name then some earlier.length else place? name earlier

/-- The declaration that a name denotes: the number of blocks around its block, and the number of names
that this block declares before it. -/
def declaration? (name : String) : Blocks → Option (Nat × Nat)
  | [] => none
  | block :: outer =>
    match place? name block with
    | some place => some (outer.length, place)
    | none => declaration? name outer

def declare (name : String) : Blocks → Blocks
  | [] => []
  | block :: outer => (name :: block) :: outer

lemma place?_of_ne {other : String} (h : other ≠ name) (block : List String) :
    place? name (other :: block) = place? name block :=
  if_neg h

lemma place?_eq_none : place? name block = none ↔ name ∉ block := by
  induction block with
  | nil => simp [place?]
  | cons latest earlier ih =>
    by_cases h : latest = name
    · simp [place?, h]
    · rw [place?_of_ne h, ih, mem_cons, not_or]
      exact ⟨fun hearlier => ⟨fun heq => h heq.symm, hearlier⟩, fun hboth => hboth.2⟩

lemma place?_append {later : List String} (h : name ∉ later) : place? name (later ++ block) = place? name block := by
  induction later with
  | nil => rfl
  | cons latest later ih =>
    obtain ⟨hne, hlater⟩ := not_or.mp (mt mem_cons.mpr h)
    rw [cons_append, place?_of_ne (Ne.symm hne)]
    exact ih hlater

lemma declaration?_push (name : String) (blocks : Blocks) :
    declaration? name ([] :: blocks) = declaration? name blocks :=
  rfl

lemma declaration?_declare_of_ne {other : String} (h : other ≠ name) (blocks : Blocks) :
    declaration? name (blocks.declare other) = declaration? name blocks := by
  cases blocks with
  | nil => rfl
  | cons block outer => simp only [declare, declaration?, place?_of_ne h]

lemma lt_of_declaration? {blocks : Blocks} (h : declaration? name blocks = some found) : found.1 < blocks.length := by
  induction blocks with
  | nil => cases h
  | cons block outer ih =>
    rw [declaration?] at h
    cases hplace : place? name block with
    | some place =>
      rw [hplace] at h
      cases h
      exact Nat.lt_succ_self _
    | none =>
      rw [hplace] at h
      exact Nat.lt_succ_of_lt (ih h)

lemma declaration?_globals {later : List String} (hnodup : (later ++ block).Nodup)
    (hfound : declaration? name [block] = some found) :
    declaration? name [[], later ++ block] = declaration? name [block] := by
  have hmem : name ∈ block := by
    by_contra hnot
    rw [declaration?, place?_eq_none.mpr hnot] at hfound
    cases hfound
  have hlater : name ∉ later := fun hlater => disjoint_of_nodup_append hnodup hlater hmem
  rw [declaration?_push, declaration?, place?_append hlater]
  rfl

/-- A new name denotes its own declaration, which is inside of the block that it denoted before. -/
lemma declaration?_declare_self {outer : Blocks} (hnew : name ∉ block)
    (hfound : declaration? name (block :: outer) = some found) :
    ∃ own, declaration? name (declare name (block :: outer)) = some own ∧ found.1 < own.1 := by
  refine ⟨(outer.length, block.length), by simp [declare, declaration?, place?], ?_⟩
  rw [declaration?, place?_eq_none.mpr hnew] at hfound
  exact lt_of_declaration? hfound

end Blocks

namespace Target

/-- A term. -/
inductive Term where
  | text (code : String)
  | var (mark : Mark) (name : String)
  | binary (operator : BinaryOp) (arrays : Bool) (left right : Term)
  | unary (operator : UnaryOp) (operand : Term)
  | call (callee : String) (arguments : List Term)

mutual

def Term.code : Term → String
  | .text code => code
  | .var _ name => Code.variableName name
  | .binary operator arrays left right => Code.binary operator arrays left.code right.code
  | .unary operator operand => Code.unary operator operand.code
  | .call callee arguments => Code.call callee (Term.codes arguments)

def Term.codes : List Term → List String
  | [] => []
  | term :: rest => term.code :: Term.codes rest

end

mutual

/-- The variables in a term, each with the identifier that it stands for. -/
def Term.vars : Term → List (Mark × String)
  | .text _ => []
  | .var mark name => [(mark, name)]
  | .binary _ _ left right => left.vars ++ right.vars
  | .unary _ operand => operand.vars
  | .call _ arguments => Term.allVars arguments

def Term.allVars : List Term → List (Mark × String)
  | [] => []
  | term :: rest => term.vars ++ Term.allVars rest

end

/-- A line of code. -/
inductive Row where
  | text (line : String)
  | run (before : String) (value : Term) (after : String)
  | assign (target value : Term)
  /-- The preamble gives a global its value. -/
  | store (name : String) (value : Term)
  | declare (type name : String) (value : Option Term)

def Row.code : Row → String
  | .text line => line
  | .run before value after => before ++ value.code ++ after
  | .assign target value => target.code ++ " = " ++ value.code ++ ";"
  | .store name value => Code.variableName name ++ " = " ++ value.code ++ ";"
  | .declare type name none => type ++ " " ++ Code.variableName name ++ ";"
  | .declare type name (some value) =>
    type ++ " " ++ Code.variableName name ++ " = " ++ value.code ++ ";"

inductive Step where
  | row (row : Row)
  | block (head : Row) (body : List Step)
  | choose (head : Row) (body other : List Step)

def Step.rows (all : List Row) : List Step :=
  all.map Step.row

mutual

def Step.lines (level : Nat) : Step → List Code.Line
  | .row r => [⟨level, r.code⟩]
  | .block head body => [⟨level, head.code⟩] ++ Step.allLines (level + 1) body ++ [⟨level, "\x7d"⟩]
  | .choose head body other =>
    [⟨level, head.code⟩] ++ Step.allLines (level + 1) body ++ [⟨level, "\x7d else \x7b"⟩] ++
      Step.allLines (level + 1) other ++ [⟨level, "\x7d"⟩]

def Step.allLines (level : Nat) : List Step → List Code.Line
  | [] => []
  | step :: rest => step.lines level ++ Step.allLines level rest

end

/-- The result type, the name and the parameters of a function, which have types and names. -/
structure Head where
  returnType : String
  callee : String
  params : List (String × String)

def Head.code (head : Head) : String :=
  head.returnType ++ " " ++
    Code.call head.callee (head.params.map fun (type, name) => type ++ " " ++ Code.variableName name)

/-- A part of a file. -/
inductive Item where
  | lines (lines : List Code.Line)
  | global (row : Row)
  | prototype (head : Head)
  | function (head : Head) (body : List Step)

def Item.code : Item → List Code.Line
  | .lines all => all
  | .global row => [.top row.code]
  | .prototype head => [.top (head.code ++ ";")]
  | .function head body => [.top (head.code ++ " \x7b")] ++ Step.allLines 1 body ++ [.top "\x7d"]

@[simp] lemma Item.code_lines (all : List Code.Line) : (Item.lines all).code = all := rfl

/-- An occurrence of a variable in code. -/
structure Use where
  /-- The identifier that it stands for, if any. -/
  source : Option Mark
  name : String
  /-- What has been declared around it. -/
  blocks : Blocks
  /-- The variable in whose initial value it stands. -/
  declaring : Option String
deriving DecidableEq, Repr

namespace Use

def declaration? (use : Use) : Option (Nat × Nat) :=
  use.blocks.declaration? use.name

/-- An occurrence in the initial value of a variable of its own name. -/
def IsOwn (use : Use) : Prop :=
  use.declaring = some use.name

end Use

def Term.uses (blocks : Blocks) (declaring : Option String) (term : Term) : List Use :=
  term.vars.map fun v => ⟨some v.1, v.2, blocks, declaring⟩

namespace Row

/-- What has been declared after a line. -/
def after (blocks : Blocks) : Row → Blocks
  | .declare _ name _ => blocks.declare name
  | _ => blocks

/-- The occurrences in a line. -/
def uses (blocks : Blocks) : Row → List Use
  | .text _ => []
  | .run _ value _ => value.uses blocks none
  | .assign target value => target.uses blocks none ++ value.uses blocks none
  | .store name value => ⟨none, name, blocks, none⟩ :: value.uses blocks none
  | .declare _ _ none => []
  | .declare _ name (some value) => value.uses (blocks.declare name) (some name)

end Row

/-- What has been declared after a step. -/
def Step.after (blocks : Blocks) : Step → Blocks
  | .row r => r.after blocks
  | _ => blocks

mutual

def Step.uses (blocks : Blocks) : Step → List Use
  | .row r => r.uses blocks
  | .block head body => head.uses blocks ++ Step.allUses ([] :: blocks) body
  | .choose head body other =>
    head.uses blocks ++ Step.allUses ([] :: blocks) body ++ Step.allUses ([] :: blocks) other

def Step.allUses (blocks : Blocks) : List Step → List Use
  | [] => []
  | step :: rest => step.uses blocks ++ Step.allUses (step.after blocks) rest

end

namespace Item

/-- The globals that have been declared after a part of a file. -/
def after (globals : List String) : Item → List String
  | .global (.declare _ name _) => name :: globals
  | _ => globals

/-- The occurrences in a part of a file. -/
def uses (globals : List String) : Item → List Use
  | .lines _ | .prototype _ => []
  | .global row => row.uses [globals]
  | .function head body => Step.allUses [(head.params.map Prod.snd).reverse, globals] body

/-- The occurrences in the rest of a file. -/
def allUses (globals : List String) : List Item → List Use
  | [] => []
  | item :: rest => item.uses globals ++ allUses (item.after globals) rest

end Item

lemma Term.codes_eq (terms : List Term) : Term.codes terms = terms.map Term.code := by
  induction terms with
  | nil => rfl
  | cons term rest ih => rw [Term.codes, ih, map_cons]

lemma Term.allVars_eq (terms : List Term) : Term.allVars terms = terms.flatMap Term.vars := by
  induction terms with
  | nil => rfl
  | cons term rest ih => rw [Term.allVars, ih, flatMap_cons]

namespace Step

lemma allLines_append (level : Nat) (steps steps' : List Step) :
    allLines level (steps ++ steps') = allLines level steps ++ allLines level steps' := by
  induction steps with
  | nil => rfl
  | cons step rest ih => rw [cons_append, allLines, ih, allLines, append_assoc]

lemma allLines_rows (level : Nat) (all : List Row) :
    allLines level (rows all) = Code.Line.all level (all.map Row.code) := by
  induction all with
  | nil => rfl
  | cons row rest ih =>
    rw [rows, map_cons, allLines, ← rows, ih, lines]
    rfl

lemma allUses_append (blocks : Blocks) (steps steps' : List Step) :
    allUses blocks (steps ++ steps') =
      allUses blocks steps ++ allUses (steps.foldl Step.after blocks) steps' := by
  induction steps generalizing blocks with
  | nil => rfl
  | cons step rest ih => rw [cons_append, allUses, ih, allUses, append_assoc, foldl_cons]

end Step

lemma Item.allUses_append (globals : List String) (items items' : List Item) :
    allUses globals (items ++ items') =
      allUses globals items ++ allUses (items.foldl Item.after globals) items' := by
  induction items generalizing globals with
  | nil => rfl
  | cons item rest ih => rw [cons_append, allUses, ih, allUses, append_assoc, foldl_cons]

end Target

end ChessEval
