import ChessEval.Proofs.Filings

namespace ChessEval

/-- Lists that are equal except at one place, where a relation holds between them. -/
inductive AgreeBut {α : Type} (R : α → α → Prop) : Nat → List α → List α → Prop
  | nil (i : Nat) : AgreeBut R i [] []
  | here {a b : α} (rest : List α) : R a b → AgreeBut R 0 (a :: rest) (b :: rest)
  | there {i : Nat} {rest rest' : List α} (a : α) : AgreeBut R i rest rest' →
    AgreeBut R (i + 1) (a :: rest) (a :: rest')

namespace Inspect

variable {α : Type}

def ofKind (kind : Definition → Option α) (step : α → Inspect Unit) (d : Definition) : Inspect Unit :=
  (kind d).elim (pure ()) step

lemma each_ofKind (kind : Definition → Option α) (step : α → Inspect Unit) (ds : List Definition) :
    each (ofKind kind step) ds = each step (ds.filterMap kind) := by
  induction ds with
  | nil => rfl
  | cons d rest ih =>
    rw [each, ih, ofKind]
    cases hkind : kind d with
    | none =>
      rw [List.filterMap_cons_none hkind]
      rfl
    | some a =>
      rw [List.filterMap_cons_some hkind]
      rfl

lemma files_ofKind {kind : Definition → Option α} {step : α → Inspect Unit} (h : ∀ a, Files (step a))
    (d : Definition) : Files (ofKind kind step d) := by
  unfold ofKind
  cases kind d with
  | none => exact files_pure ()
  | some a => exact h a

def header : Definition → Inspect Unit :=
  ofKind Definition.function? registerFunction

def globalValue : Definition → Inspect Unit :=
  ofKind Definition.global? global

lemma files_header (d : Definition) : Files (header d) :=
  files_ofKind (fun _ => files_declare _ _) d

lemma files_globalValue (d : Definition) : Files (globalValue d) :=
  files_ofKind files_global d

/-- The check of a function or a rule, cut into parts. -/
structure Parts where
  head : Inspect Unit
  body : Inspect Unit
  outcome : Inspect Unit
  close : Inspect Unit

/-- The diagnostics of the parts of a check: those about the header, those about the statements, those about the
effect of the whole, and those about what cannot be reached or is never read. -/
structure Filing where
  head : Diagnostics
  body : Diagnostics
  outcome : Diagnostics
  close : Diagnostics

namespace Filing

def all (f : Filing) : Diagnostics :=
  f.head ++ (f.body ++ (f.outcome ++ f.close))

/-- The same diagnostics about the header. If there is no result, its absence is part of the header. -/
def SameHead (isVoid : Bool) (f g : Filing) : Prop :=
  g.head = f.head ∧ (isVoid = true → g.outcome = f.outcome)

end Filing

namespace Parts

def none : Parts :=
  ⟨pure (), pure (), pure (), pure ()⟩

def all (parts : Parts) : Inspect Unit := do
  parts.head
  parts.body
  parts.outcome
  parts.close

/-- A property of every part. -/
structure Each (P : Inspect Unit → Prop) (parts : Parts) : Prop where
  head : P parts.head
  body : P parts.body
  outcome : P parts.outcome
  close : P parts.close

def filing (parts : Parts) (s : Inspection) : Filing :=
  let s₁ := (parts.head.run s).2
  let s₂ := (parts.body.run s₁).2
  let s₃ := (parts.outcome.run s₂).2
  ⟨filed parts.head s, filed parts.body s₁, filed parts.outcome s₂, filed parts.close s₃⟩

end Parts

def functionParts (f : FunctionDef) : Parts where
  head := do
    openScope
    each (param (functionContext f)) f.params
  body := do
    statements (functionContext f) f.body
    wrongReturns (functionContext f) f.returnType ("function '" ++ f.name ++ "'") f.body
    reportAll (functionContext f) ((blockScoreLines f.body).map fun line => (.scoreInFunction, line))
  outcome := functionOutcome (functionContext f) f
  close := do
    reportAll (functionContext f) (blockUnreachable f.body)
    closeScope (functionContext f)

def ruleParts (r : RuleDef) : Parts where
  head := do
    reportAll (.ofDefinition .rule r.name r.line) (wrongOptions [] r.options)
    declare (.ofDefinition .rule r.name r.line) fun ds => ds.defineRule r.name (schedule r.options) r.line
    guard (.ofDefinition .rule r.name r.line) r.name r.guard
  body := do
    openScope
    statements (.ofDefinition .rule r.name r.line) r.body
    wrongReturns (.ofDefinition .rule r.name r.line) .void ("rule '" ++ r.name ++ "'") r.body
  outcome := if !blockScores r.body then report (.ofDefinition .rule r.name r.line) (.noScoreInRule r.name) else pure ()
  close := do
    reportAll (.ofDefinition .rule r.name r.line) (blockUnreachable r.body)
    closeScope (.ofDefinition .rule r.name r.line)

lemma all_functionParts (f : FunctionDef) : (functionParts f).all = function f := by
  rw [function_eq]
  simp only [Parts.all, functionParts, block, functionBody, bind_assoc]

lemma all_ruleParts (r : RuleDef) : (ruleParts r).all = rule r := by
  unfold Parts.all ruleParts rule
  cases blockScores r.body <;> simp

def functionPass (d : Definition) : Parts :=
  d.function?.elim .none functionParts

def rulePass (d : Definition) : Parts :=
  d.rule?.elim .none ruleParts

lemma all_functionPass (d : Definition) : (functionPass d).all = ofKind Definition.function? function d := by
  cases d with
  | function f => exact all_functionParts f
  | _ => rfl

lemma all_rulePass (d : Definition) : (rulePass d).all = ofKind Definition.rule? rule d := by
  cases d with
  | rule r => exact all_ruleParts r
  | _ => rfl

def filingEach (pass : Definition → Parts) : List Definition → Inspection → List Filing
  | [], _ => []
  | d :: rest, s => (pass d).filing s :: filingEach pass rest ((pass d).all.run s).2

lemma files_functionPass (d : Definition) : (functionPass d).Each Files := by
  cases d with
  | function f =>
    refine ⟨?_, ?_, files_closed.functionOutcome _ _, ?_⟩
    · exact files_closed.openScope.bind fun _ => files_each (fun _ => files_declare _ _) _
    · exact (files_closed.statements _ (fun _ _ _ _ _ _ => trivial) _).bind fun _ =>
        (files_closed.wrongReturns _ _ _ _).bind fun _ => files_reportAll _ _
    · exact (files_reportAll _ _).bind fun _ => files_closed.closeScope _
  | _ => exact ⟨files_pure _, files_pure _, files_pure _, files_pure _⟩

lemma files_rulePass (d : Definition) : (rulePass d).Each Files := by
  cases d with
  | rule r =>
    refine ⟨?_, ?_, files_closed.reportUnless _ _ rfl, ?_⟩
    · exact (files_reportAll _ _).bind fun _ => (files_declare _ _).bind fun _ =>
        files_closed.guard _ _ _ fun _ _ _ _ => trivial
    · exact files_closed.openScope.bind fun _ =>
        (files_closed.statements _ (fun _ _ _ _ _ _ => trivial) _).bind fun _ => files_closed.wrongReturns _ _ _ _
    · exact (files_reportAll _ _).bind fun _ => files_closed.closeScope _
  | _ => exact ⟨files_pure _, files_pure _, files_pure _, files_pure _⟩

namespace Parts

variable {parts : Parts}

lemma Each.files (h : parts.Each Files) : Files parts.all :=
  h.head.bind fun _ => h.body.bind fun _ => h.outcome.bind fun _ => h.close

lemma filed_all (h : parts.Each Files) (s : Inspection) : filed parts.all s = (parts.filing s).all := by
  unfold all
  rw [filed_bind h.head fun _ => h.body.bind fun _ => h.outcome.bind fun _ => h.close,
    filed_bind h.body fun _ => h.outcome.bind fun _ => h.close, filed_bind h.outcome fun _ => h.close]
  rfl

end Parts

lemma filed_filingEach {pass : Definition → Parts} (h : ∀ d, (pass d).Each Files) (ds : List Definition)
    (s : Inspection) :
    filed (each (fun d => (pass d).all) ds) s = .join ((filingEach pass ds s).map Filing.all) := by
  induction ds generalizing s with
  | nil => rfl
  | cons d rest ih =>
    rw [each, filed_bind (h d).files fun _ => files_each (fun d => (h d).files) rest, ih, Parts.filed_all (h d)]
    rfl

/-- What the check of a program files: before the definitions are looked at, in the passes over them, and about the
globals in the end. -/
structure Filings where
  preparation : Diagnostics
  headers : List Diagnostics
  globals : List Diagnostics
  functions : List Filing
  rules : List Filing
  unread : Diagnostics

namespace Filings

def all (f : Filings) : Diagnostics :=
  f.preparation ++ (.join f.headers ++ (.join f.globals ++ (.join (f.functions.map Filing.all) ++
    (.join (f.rules.map Filing.all) ++ f.unread))))

/-- Filings that are the same except for the statements of one definition and the globals that are never read. -/
structure AgreeBut (i : Nat) (isVoid : Bool) (f g : Filings) : Prop where
  preparation : g.preparation = f.preparation
  headers : g.headers = f.headers
  globals : g.globals = f.globals
  functions : ChessEval.AgreeBut (Filing.SameHead isVoid) i f.functions g.functions
  rules : ChessEval.AgreeBut (Filing.SameHead isVoid) i f.rules g.rules

end Filings

end Inspect

namespace Program

open Inspect

lemma each_header (p : Program) : each header p.definitions = each registerFunction p.functions :=
  each_ofKind _ _ _

lemma each_globalValue (p : Program) : each globalValue p.definitions = each global p.globals :=
  each_ofKind _ _ _

lemma each_functionPass (p : Program) :
    each (fun d => (functionPass d).all) p.definitions = each function p.functions := by
  simp only [all_functionPass]
  exact each_ofKind _ _ _

lemma each_rulePass (p : Program) : each (fun d => (rulePass d).all) p.definitions = each rule p.rules := by
  simp only [all_rulePass]
  exact each_ofKind _ _ _

lemma introduced_eq (p : Program) : p.introduced = ((each header p.definitions).run p.prepared).2 := by
  rw [introduced, each_header]

lemma grounded_eq (p : Program) : p.grounded = ((each globalValue p.definitions).run p.introduced).2 := by
  rw [grounded, each_globalValue]

lemma functionsChecked_eq (p : Program) :
    p.functionsChecked = ((each (fun d => (functionPass d).all) p.definitions).run p.grounded).2 := by
  rw [functionsChecked, each_functionPass]

lemma rulesChecked_eq (p : Program) :
    p.rulesChecked = ((each (fun d => (rulePass d).all) p.definitions).run p.functionsChecked).2 := by
  rw [rulesChecked, each_rulePass]

def filings (p : Program) : Filings where
  preparation := filed (prepare p) p.start
  headers := filedEach header p.definitions p.prepared
  globals := filedEach globalValue p.definitions p.introduced
  functions := filingEach functionPass p.definitions p.grounded
  rules := filingEach rulePass p.definitions p.functionsChecked
  unread := filed unusedGlobals p.rulesChecked

lemma check_filings (p : Program) (ds : Diagnostics) : (p.check ds).2 = ds ++ p.filings.all := by
  rw [diagnostics_check, ← each_header, ← each_globalValue, ← each_functionPass, ← each_rulePass,
    filed_each files_header, filed_each files_globalValue, filed_filingEach files_functionPass,
    filed_filingEach files_rulePass]
  simp only [filings, Filings.all]

end Program

end ChessEval
