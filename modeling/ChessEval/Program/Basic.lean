import ChessEval.Stmt.Basic

/-!
# Programs

A program is a block of settings followed by definitions of globals, functions and rules.
-/

namespace ChessEval

inductive ConfigValue where
  | number (value : Number)
  | boolean (value : Bool)
deriving DecidableEq, Repr

/-- A setting made at the start of a program. -/
structure ConfigEntry where
  name : String
  value : ConfigValue
  line : Nat
deriving DecidableEq, Repr

structure GlobalDef where
  type : Ty
  name : String
  value : Expr
  line : Nat
deriving Repr

structure Param where
  type : Ty
  name : String
  byReference : Bool
  line : Nat
deriving DecidableEq, Repr

structure FunctionDef where
  returnType : Ty
  name : String
  params : List Param
  body : List Stmt
  line : Nat
deriving Repr

structure RuleOption where
  name : String
  line : Nat
deriving DecidableEq, Repr

/-- A rule, which adds to the score of a position when its guard holds. -/
structure RuleDef where
  name : String
  options : List RuleOption
  guard : Option Expr
  body : List Stmt
  line : Nat
deriving Repr

/-- A definition at the top level of a program. -/
inductive Definition where
  | global (definition : GlobalDef)
  | function (definition : FunctionDef)
  | rule (definition : RuleDef)
deriving Repr

structure Program where
  file : String
  config : List ConfigEntry
  definitions : List Definition
  exprCount : Nat
deriving Repr

namespace Definition

def global? : Definition → Option GlobalDef
  | .global g => some g
  | _ => none

def function? : Definition → Option FunctionDef
  | .function f => some f
  | _ => none

def rule? : Definition → Option RuleDef
  | .rule r => some r
  | _ => none

end Definition

namespace Program

def globals (p : Program) : List GlobalDef :=
  p.definitions.filterMap Definition.global?

def functions (p : Program) : List FunctionDef :=
  p.definitions.filterMap Definition.function?

def rules (p : Program) : List RuleDef :=
  p.definitions.filterMap Definition.rule?

end Program

end ChessEval
