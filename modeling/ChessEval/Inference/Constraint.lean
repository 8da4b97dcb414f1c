import ChessEval.Analysis

/-!
# Constraints on types

Every node of a program has a slot for its type, and so has every loop variable. Each use of a value
says something about its slot. The constraints of a program are collected in the order of its text.
-/

namespace ChessEval

/-- What a use of a value says about types. -/
inductive Constraint where
  /-- The slot has at least this type. -/
  | fixed (slot : Nat) (type : Ty)
  /-- Both slots have the same type. -/
  | equal (left right : Nat)
  /-- The first slot has an array type whose elements have the type of the second slot. -/
  | element (array element : Nat)
deriving DecidableEq, Repr

/-- Names in scope, innermost block first. A loop variable has a slot, any other variable has none. -/
abbrev LoopScopes := List (List (String × Option Nat))

namespace LoopScopes

def slot? (scopes : LoopScopes) (name : String) : Option Nat :=
  (scopes.findSome? fun scope => scope.lookup name).join

def bind (scopes : LoopScopes) (name : String) (slot : Option Nat) : LoopScopes :=
  match scopes with
  | [] => []
  | scope :: outer => ((name, slot) :: scope) :: outer

end LoopScopes

/-- Whether a type is an array type, known or not. -/
def Ty.isArrayShape : Ty → Bool
  | .array _ | .genericArray | .emptyArray => true
  | _ => false

/-- What a binary operator says about its operands and its result. -/
def BinaryOp.constraints (types : TypeTable) (id left right : Nat) : BinaryOp → List Constraint
  | .equal | .notEqual =>
    if (types.typeOf left).isArrayShape && (types.typeOf right).isArrayShape then
      [.equal left right]
    else []
  | .elementOf => [.element right left]
  | .concat =>
    if (types.typeOf id).isArrayShape then [.equal left id, .equal right id] else []
  | _ => []

/-- What a call says about its arguments: each has at least the type of its parameter. -/
def Analysis.argumentConstraints (a : Analysis) (id : Nat) (arguments : List Expr) :
    List Constraint :=
  match a.header? id with
  | none => []
  | some header => List.zipWith (fun e type => .fixed e.id type) arguments header.params

mutual

def Expr.constraints (a : Analysis) (scopes : LoopScopes) : Expr → List Constraint
  | .literal .. => []
  | .identifier m name =>
    match scopes.slot? name with
    | some slot => [.equal m.id slot]
    | none => []
  | .binary m operator left right =>
    left.constraints a scopes ++ right.constraints a scopes ++
      operator.constraints a.types m.id left.id right.id
  | .unary _ _ operand => operand.constraints a scopes
  | .call m _ arguments =>
    Expr.allConstraints a scopes arguments ++ a.argumentConstraints m.id arguments
  | .member m base _ => base.constraints a scopes ++ a.argumentConstraints m.id [base]
  | .index m base position =>
    base.constraints a scopes ++ position.constraints a scopes ++
      [.fixed position.id .num, .element base.id m.id]
  | .list m elements => Expr.elementConstraints a scopes m.id elements
  | .emptyList _ => []

def Expr.allConstraints (a : Analysis) (scopes : LoopScopes) : List Expr → List Constraint
  | [] => []
  | e :: rest => e.constraints a scopes ++ Expr.allConstraints a scopes rest

/-- The constraints of the elements of a list, each followed by its place in the list. -/
def Expr.elementConstraints (a : Analysis) (scopes : LoopScopes) (list : Nat) :
    List Expr → List Constraint
  | [] => []
  | e :: rest =>
    e.constraints a scopes ++ .element list e.id :: Expr.elementConstraints a scopes list rest

end

mutual

def Expr.emptyLists : Expr → List Mark
  | .literal .. | .identifier .. => []
  | .binary _ _ left right => left.emptyLists ++ right.emptyLists
  | .unary _ _ operand => operand.emptyLists
  | .call _ _ arguments => Expr.allEmptyLists arguments
  | .member _ base _ => base.emptyLists
  | .index _ base position => base.emptyLists ++ position.emptyLists
  | .list _ elements => Expr.allEmptyLists elements
  | .emptyList m => [m]

def Expr.allEmptyLists : List Expr → List Mark
  | [] => []
  | e :: rest => e.emptyLists ++ Expr.allEmptyLists rest

end

/-- A loop whose source must get a known element type. -/
structure LoopSource where
  id : Nat
  name : String
  context : Context
deriving DecidableEq, Repr

/-- An empty list that must get a known type. -/
structure EmptyListUse where
  id : Nat
  context : Context
deriving DecidableEq, Repr

structure Collection where
  constraints : List Constraint
  nextSlot : Nat
  scopes : LoopScopes
  sources : List LoopSource
  emptyLists : List EmptyListUse
deriving DecidableEq, Repr

abbrev Collect := StateM Collection

namespace Collect

def add (c : Constraint) : Collect Unit :=
  modify fun s => { s with constraints := s.constraints ++ [c] }

def openScope : Collect Unit :=
  modify fun s => { s with scopes := [] :: s.scopes }

def closeScope : Collect Unit :=
  modify fun s => { s with scopes := s.scopes.tail }

def bind (name : String) (slot : Option Nat) : Collect Unit :=
  modify fun s => { s with scopes := s.scopes.bind name slot }

def newSlot : Collect Nat := do
  let s ← get
  set { s with nextSlot := s.nextSlot + 1 }
  return s.nextSlot

def expr (a : Analysis) (context : Context) (e : Expr) : Collect Unit :=
  modify fun s =>
    { s with
      constraints := s.constraints ++ e.constraints a s.scopes
      emptyLists := s.emptyLists ++ e.emptyLists.map fun m => ⟨m.id, context.moveTo m.line⟩ }

def exprOf (a : Analysis) (context : Context) (type : Ty) (e : Expr) : Collect Unit := do
  add (.fixed e.id type)
  expr a context e

def optionalExpr (a : Analysis) (context : Context) (type : Ty) : Option Expr → Collect Unit
  | none => return
  | some e => exprOf a context type e

def declarators (a : Analysis) (context : Context) (type : Ty) : List Declarator → Collect Unit
  | [] => return
  | d :: rest => do
    optionalExpr a context type d.value
    bind d.name none
    declarators a context type rest

mutual

def statement (a : Analysis) (returnType : Ty) (context : Context) : Stmt → Collect Unit
  | .declare type ds line => declarators a (context.moveTo line) type ds
  | .assign target value line => do
    expr a (context.moveTo line) target
    expr a (context.moveTo line) value
    add (.equal target.id value.id)
  | .ifThen condition thenBody none line => do
    expr a (context.moveTo line) condition
    openScope
    statements a returnType context thenBody
    closeScope
  | .ifThen condition thenBody (some elseBody) line => do
    expr a (context.moveTo line) condition
    openScope
    statements a returnType context thenBody
    closeScope
    openScope
    statements a returnType context elseBody
    closeScope
  | .whileDo condition body line => do
    expr a (context.moveTo line) condition
    openScope
    statements a returnType context body
    closeScope
  | .forAll name source body line => do
    expr a (context.moveTo line) source
    let slot ← newSlot
    add (.element source.id slot)
    modify fun s => { s with sources := s.sources ++ [⟨source.id, name, context.moveTo line⟩] }
    openScope
    bind name (some slot)
    statements a returnType context body
    closeScope
  | .returns value line => optionalExpr a (context.moveTo line) returnType value
  | .score value line => exprOf a (context.moveTo line) .num value
  | .call site line => expr a (context.moveTo line) site

def statements (a : Analysis) (returnType : Ty) (context : Context) : List Stmt → Collect Unit
  | [] => return
  | s :: rest => do
    statement a returnType context s
    statements a returnType context rest

end

def global (a : Analysis) (g : GlobalDef) : Collect Unit :=
  exprOf a (.ofDefinition .global g.name g.line) g.type g.value

def params : List Param → Collect Unit
  | [] => return
  | p :: rest => do
    bind p.name none
    params rest

def function (a : Analysis) (f : FunctionDef) : Collect Unit := do
  openScope
  params f.params
  statements a f.returnType (.ofDefinition .function f.name f.line) f.body
  closeScope

def rule (a : Analysis) (r : RuleDef) : Collect Unit := do
  let context := Context.ofDefinition .rule r.name r.line
  openScope
  match r.guard with
  | none => pure ()
  | some e => expr a context e
  statements a .void context r.body
  closeScope

def each {α : Type} (step : α → Collect Unit) : List α → Collect Unit
  | [] => return
  | x :: rest => do
    step x
    each step rest

def program (a : Analysis) (p : Program) : Collect Unit := do
  each (global a) p.globals
  each (function a) p.functions
  each (rule a) p.rules

end Collect

/-- The constraints of a program, where the slots of nodes come before all others. -/
def Analysis.collect (a : Analysis) (p : Program) (slots : Nat) : Collection :=
  ((Collect.program a p).run ⟨[], slots, [], [], []⟩).2

end ChessEval
