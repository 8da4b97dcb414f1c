import ChessEval.Check.Stmt
import ChessEval.Predefined
import ChessEval.Stmt.Flow

/-!
# Checking programs

The headers of all functions are known before anything else is checked, so definitions can call
functions that come after them. A global is in scope from the definition after its own.
-/

namespace ChessEval

namespace Inspect

def each {α : Type} (step : α → Inspect Unit) : List α → Inspect Unit
  | [] => return
  | a :: rest => do
    step a
    each step rest

def setting (entry : ConfigEntry) : Inspect Unit := do
  match (← analysis).config.set entry.name entry.value with
  | .ok config => update fun a => { a with config := config }
  | .error issue => report (.topLevel entry.line) issue

def predefined (f : Predefined) : Inspect Unit :=
  declare (.topLevel 0) fun ds => ds.defineFunction f.name f.returnType (.ofPredefined f.params)

def functionContext (f : FunctionDef) : Context :=
  .ofDefinition .function f.name f.line

def functionHeader (f : FunctionDef) : Header :=
  .ofParams (f.params.map Param.type) (f.params.map Param.byReference)

def registerFunction (f : FunctionDef) : Inspect Unit :=
  declare (functionContext f) fun ds => ds.defineFunction f.name f.returnType (functionHeader f)

def global (g : GlobalDef) : Inspect Unit := do
  let context := Context.ofDefinition .global g.name g.line
  let type ← exprType context g.value
  if !g.type.unifies type then
    report context (.globalTypeMismatch g.name g.type.name type.name)
  declare context fun ds => ds.defineGlobal g.name g.type g.line

def param (context : Context) (p : Param) : Inspect Unit :=
  declare (context.moveTo p.line) fun ds => ds.declare p.name p.type p.line

def wrongReturns (context : Context) (expected : Ty) (label : String) (body : List Stmt) :
    Inspect Unit := do
  reportAll context (blockWrongReturns (← analysis).types expected label body)

/-- Whether a function can have an effect: it gives back a value on every path, or it takes something
by reference. -/
def functionOutcome (context : Context) (f : FunctionDef) : Inspect Unit := do
  if f.returnType = .void then
    if !f.params.any Param.byReference then report context (.voidWithoutReference f.name)
  else if !blockReturns f.body then report context .missingReturn

def function (f : FunctionDef) : Inspect Unit := do
  let context := functionContext f
  openScope
  each (param context) f.params
  statements context f.body
  wrongReturns context f.returnType ("function '" ++ f.name ++ "'") f.body
  reportAll context ((blockScoreLines f.body).map fun line => (.scoreInFunction, line))
  functionOutcome context f
  reportAll context (blockUnreachable f.body)
  closeScope context

def wrongOptions (seen : List String) : List RuleOption → List (Issue × Nat)
  | [] => []
  | o :: rest =>
    if seen.contains o.name then (.repeatedRuleOption o.name, o.line) :: wrongOptions seen rest
    else if o.name = "sym" ∨ (Phase.ofTag? o.name).isSome then wrongOptions (o.name :: seen) rest
    else (.unknownRuleOption o.name, o.line) :: wrongOptions (o.name :: seen) rest

def schedule (options : List RuleOption) : Schedule :=
  .ofPhases (options.filterMap fun o => Phase.ofTag? o.name) (options.any fun o => o.name == "sym")

/-- Checks the guard of a rule, which must be a truth value. -/
def guard (context : Context) (name : String) : Option Expr → Inspect Unit
  | none => return
  | some e => do
    let type ← exprType (context.moveTo e.line) e
    if !type.isBool then report (context.moveTo e.line) (.guardNotBool name type.name)

def rule (r : RuleDef) : Inspect Unit := do
  let context := Context.ofDefinition .rule r.name r.line
  reportAll context (wrongOptions [] r.options)
  declare context fun ds => ds.defineRule r.name (schedule r.options) r.line
  guard context r.name r.guard
  openScope
  statements context r.body
  wrongReturns context .void ("rule '" ++ r.name ++ "'") r.body
  if !blockScores r.body then report context (.noScoreInRule r.name)
  reportAll context (blockUnreachable r.body)
  closeScope context

/-- Files a warning for every global that was never read. -/
def unusedGlobals : Inspect Unit := do
  each (fun (name, line) => report (.topLevel line) (.unusedGlobal name))
    (← analysis).declarations.unusedGlobals

def program (p : Program) : Inspect Unit := do
  each setting p.config
  each predefined Predefined.all
  each registerFunction p.functions
  each global p.globals
  each function p.functions
  each rule p.rules
  unusedGlobals

end Inspect

def Program.check (p : Program) (diagnostics : Diagnostics) : Analysis × Diagnostics :=
  let start : Inspection := ⟨p.file, Analysis.initial p.exprCount, diagnostics⟩
  let result := ((Inspect.program p).run start).2
  (result.analysis, result.diagnostics)

end ChessEval
