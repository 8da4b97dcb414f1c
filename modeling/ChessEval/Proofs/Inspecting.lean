import ChessEval.Proofs.FiledIssues
import ChessEval.Proofs.Runs
import Mathlib.Data.Set.Defs

/-!
# What holds of every step of an analysis

An analysis is put together from a few kinds of steps: it files issues, opens and closes scopes, makes
declarations, reads names, resolves calls and records types. A property of steps that holds of these and
of two steps in a row holds of the analysis of every expression, statement and definition.
-/

namespace ChessEval.Inspect

open List

def definitions (p : Program) : Inspect Unit := do
  each global p.globals
  each function p.functions
  each rule p.rules
  unusedGlobals

def declaredRule (r : RuleDef) : Inspect Unit := do
  let context := Context.ofDefinition .rule r.name r.line
  guard context r.name r.guard
  openScope
  statements context r.body
  wrongReturns context .void ("rule '" ++ r.name ++ "'") r.body
  if !blockScores r.body then report context (.noScoreInRule r.name)
  reportAll context (blockUnreachable r.body)
  closeScope context

def block (context : Context) (inside : Inspect Unit) : Inspect Unit := do
  openScope
  inside
  closeScope context

/-- A property that holds of the steps from which the analysis of expressions is put together. -/
structure ClosedExpr (nodes : Set Expr) (P : ∀ α : Type, Inspect α → Prop) : Prop where
  pure : ∀ {α : Type} (a : α), P α (Pure.pure a)
  bind : ∀ {α β : Type} {x : Inspect α} {f : α → Inspect β}, P α x → (∀ a, P β (f a)) → P β (x >>= f)
  report : ∀ context issue, issue.isInternal = false → P Unit (report context issue)
  nameType : ∀ context name, P Ty (nameType context name)
  callType : ∀ context, ∀ n ∈ nodes, ∀ name arguments, n.call? = some (name, arguments) →
    ∀ types, P Ty (callType context n.id name arguments types)
  recorded : ∀ n ∈ nodes, ∀ compute, P Ty compute → P Ty (recorded n.mark compute)

/-- A property that holds of the steps from which the analysis of the bodies of definitions is put together, where a
scope that is opened is also closed. -/
structure ClosedBody (nodes : Set Expr) (P : ∀ α : Type, Inspect α → Prop) : Prop extends ClosedExpr nodes P where
  block : ∀ context inside, P Unit inside → P Unit (block context inside)
  declareVariable : ∀ context name type line,
    P Unit (declare context fun ds => ds.declare name type line)

/-- A property that holds of the steps from which the analysis of some nodes is put together, except for the
declarations of rules. -/
structure ClosedWithin (nodes : Set Expr) (P : ∀ α : Type, Inspect α → Prop) : Prop extends ClosedBody nodes P where
  analysis : P Analysis Inspect.analysis
  openScope : P Unit openScope
  closeScope : ∀ context, P Unit (closeScope context)
  declareGlobal : ∀ context name type line,
    P Unit (declare context fun ds => ds.defineGlobal name type line)
  block context _ hinside := bind openScope fun _ => bind hinside fun _ => closeScope context

/-- A property that holds of the steps from which the analysis of some nodes is put together. -/
structure Closed (nodes : Set Expr) (P : ∀ α : Type, Inspect α → Prop) : Prop extends ClosedWithin nodes P where
  declareRule : ∀ context name schedule line,
    P Unit (declare context fun ds => ds.defineRule name schedule line)

lemma statement_ifElse (context : Context) (e : Expr) (body elseBody : List Stmt) (line : Nat) :
    statement context (.ifThen e body (some elseBody) line) = (do
      condition (context.moveTo line) "if" e
      block (context.moveTo line) (statements (context.moveTo line) body)
      block (context.moveTo line) (statements (context.moveTo line) elseBody)) := rfl

lemma statement_forAll (context : Context) (name : String) (e : Expr) (body : List Stmt) (line : Nat) :
    statement context (.forAll name e body line) = (do
      let sourceType ← exprType (context.moveTo line) e
      let type ← loopVariableType (context.moveTo line) sourceType
      block (context.moveTo line) (do
        declare (context.moveTo line) fun ds => ds.declare name type line
        statements (context.moveTo line) body)) := rfl

/-- The analysis of the parameters and the body of a function, for which a scope has been opened. -/
def functionBody (f : FunctionDef) : Inspect Unit := do
  each (param (functionContext f)) f.params
  statements (functionContext f) f.body
  wrongReturns (functionContext f) f.returnType ("function '" ++ f.name ++ "'") f.body
  reportAll (functionContext f) ((blockScoreLines f.body).map fun line => (.scoreInFunction, line))
  functionOutcome (functionContext f) f
  reportAll (functionContext f) (blockUnreachable f.body)

/-- The analysis of the body of a rule, for which a scope has been opened. -/
def ruleBody (r : RuleDef) : Inspect Unit := do
  statements (.ofDefinition .rule r.name r.line) r.body
  wrongReturns (.ofDefinition .rule r.name r.line) .void ("rule '" ++ r.name ++ "'") r.body
  if !blockScores r.body then report (.ofDefinition .rule r.name r.line) (.noScoreInRule r.name)
  reportAll (.ofDefinition .rule r.name r.line) (blockUnreachable r.body)

lemma function_eq (f : FunctionDef) : function f = block (functionContext f) (functionBody f) := rfl

lemma declaredRule_eq (r : RuleDef) : declaredRule r = (do
    guard (.ofDefinition .rule r.name r.line) r.name r.guard
    block (.ofDefinition .rule r.name r.line) (ruleBody r)) := by
  unfold declaredRule block ruleBody
  cases blockScores r.body <;> rfl

lemma of_analysis {α : Type} {f : Analysis → Inspect α} {s : Inspection} {result : α × Inspection}
    (h : (analysis >>= f).run s = result) : (f s.analysis).run s = result :=
  h

lemma reportEach_eq (context : Context) (issues : List Issue) :
    reportEach context issues = reportAll context (issues.map fun issue => (issue, context.line)) := by
  induction issues with
  | nil => rfl
  | cons issue rest ih =>
    rw [reportEach, ih]
    rfl

namespace ClosedExpr

variable {nodes : Set Expr} {P : ∀ α : Type, Inspect α → Prop} (h : ClosedExpr nodes P)
include h

section Expressions

variable {context : Context}

lemma reportUnless (condition : Bool) (issue : Issue) (hissue : issue.isInternal = false) :
    P Unit (if !condition then Inspect.report context issue else Pure.pure ()) := by
  split
  · exact h.report _ _ hissue
  · exact h.pure ()

lemma operatorResult (result : Except OperandError Ty) : P Ty (operatorResult context result) := by
  cases result with
  | ok type => exact h.pure type
  | error e => exact h.bind (h.report _ _ rfl) fun _ => h.pure _

lemma mergeElement (merged element : Ty) : P Ty (mergeElement context merged element) := by
  unfold Inspect.mergeElement
  split
  · exact h.bind (h.report _ _ rfl) fun _ => h.pure _
  · split
    · exact h.pure _
    · exact h.bind (h.report _ _ rfl) fun _ => h.pure _

lemma exprTypes {es : List Expr} (hes : ∀ e ∈ es, P Ty (exprType context e)) :
    P (List Ty) (exprTypes context es) := by
  induction es with
  | nil => exact h.pure _
  | cons e rest ih =>
    obtain ⟨he, hrest⟩ := forall_mem_cons.mp hes
    exact h.bind he fun _ => h.bind (ih hrest) fun _ => h.pure _

lemma elementsType {list : Context} {es : List Expr} (hes : ∀ e ∈ es, P Ty (exprType context e))
    (merged : Ty) : P Ty (elementsType context list merged es) := by
  induction es generalizing merged with
  | nil => exact h.pure _
  | cons e rest ih =>
    obtain ⟨he, hrest⟩ := forall_mem_cons.mp hes
    exact h.bind he fun _ => h.bind (h.mergeElement _ _) fun merged => ih hrest merged

theorem exprType (e : Expr) (hnodes : ∀ n ∈ e.nodes, n ∈ nodes) : P Ty (exprType context e) := by
  induction e using Expr.children_induction with
  | step e ih =>
    have hself : e ∈ nodes := hnodes e e.self_mem_nodes
    have hchild : ∀ c ∈ e.children, P Ty (Inspect.exprType context c) := fun c hc =>
      ih c hc fun n hn => hnodes n (Expr.mem_nodes_of_child hc hn)
    cases e with
    | literal m value => exact h.recorded _ hself _ (h.pure _)
    | identifier m name => exact h.recorded _ hself _ (h.nameType _ _)
    | binary m operator left right =>
      exact h.recorded _ hself _ (h.bind (hchild left (by simp [Expr.children])) fun _ =>
        h.bind (hchild right (by simp [Expr.children])) fun _ => h.operatorResult _)
    | unary m operator operand =>
      exact h.recorded _ hself _ (h.bind (hchild operand (by simp [Expr.children])) fun _ =>
        h.operatorResult _)
    | call m name arguments =>
      exact h.recorded _ hself _ (h.bind (h.exprTypes hchild) fun types =>
        h.callType _ _ hself _ _ rfl types)
    | member m base field =>
      exact h.recorded _ hself _ (h.bind (hchild base (by simp [Expr.children])) fun type =>
        h.callType _ _ hself _ _ rfl [type])
    | index m base position =>
      refine h.recorded _ hself _ (h.bind (hchild base (by simp [Expr.children])) fun _ =>
        h.bind (hchild position (by simp [Expr.children])) fun positionType => ?_)
      dsimp only
      split
      · exact h.bind (h.report _ _ rfl) fun _ => h.operatorResult _
      · exact h.operatorResult _
    | list m elements =>
      exact h.recorded _ hself _ (h.bind (h.elementsType hchild _) fun _ => h.pure _)
    | emptyList m => exact h.recorded _ hself _ (h.pure _)

lemma condition (statement : String) (e : Expr) (hnodes : ∀ n ∈ e.nodes, n ∈ nodes) :
    P Unit (condition context statement e) :=
  h.bind (h.exprType e hnodes) fun _ => h.reportUnless _ _ rfl

lemma initialValue (type : Ty) (value : Option Expr) (hnodes : ∀ e ∈ value, ∀ n ∈ e.nodes, n ∈ nodes) :
    P Unit (initialValue context type value) := by
  cases value with
  | none => exact h.pure ()
  | some e => exact h.bind (h.exprType e (hnodes e rfl)) fun _ => h.reportUnless _ _ rfl

lemma loopVariableType (source : Ty) : P Ty (loopVariableType context source) := by
  unfold Inspect.loopVariableType
  split
  · exact h.pure _
  · exact h.bind (h.report _ _ rfl) fun _ => h.pure _

end Expressions

lemma each {α : Type} {step : α → Inspect Unit} {items : List α} (hstep : ∀ x ∈ items, P Unit (step x)) :
    P Unit (each step items) := by
  induction items with
  | nil => exact h.pure ()
  | cons x rest ih =>
    obtain ⟨hx, hrest⟩ := forall_mem_cons.mp hstep
    exact h.bind hx fun _ => ih hrest

lemma reportAll (context : Context) {issues : List (Issue × Nat)} (hissues : ∀ x ∈ issues, x.1.isInternal = false) :
    P Unit (reportAll context issues) := by
  induction issues with
  | nil => exact h.pure ()
  | cons issue rest ih =>
    obtain ⟨hissue, hrest⟩ := forall_mem_cons.mp hissues
    exact h.bind (h.report _ _ hissue) fun _ => ih hrest

lemma unreachable (context : Context) (body : List Stmt) : P Unit (Inspect.reportAll context (blockUnreachable body)) :=
  h.reportAll context fun x hx => Issue.isInternal_of_isOrdinary (Stmt.isOrdinary_blockUnreachable body x hx)

lemma scoreLines (context : Context) (lines : List Nat) :
    P Unit (Inspect.reportAll context (lines.map fun line => (.scoreInFunction, line))) :=
  h.reportAll context (forall_mem_map.mpr fun _ _ => rfl)

lemma wrongOptions (context : Context) (options : List RuleOption) :
    P Unit (Inspect.reportAll context (Inspect.wrongOptions [] options)) :=
  h.reportAll context fun x hx => Issue.isInternal_of_isOrdinary (isError_wrongOptions [] options x hx).ordinary

lemma functionOutcome (context : Context) (f : FunctionDef) : P Unit (functionOutcome context f) := by
  unfold Inspect.functionOutcome
  split
  · exact h.reportUnless _ _ rfl
  · exact h.reportUnless _ _ rfl

lemma guard (context : Context) (name : String) (value : Option Expr)
    (hnodes : ∀ e ∈ value, ∀ n ∈ e.nodes, n ∈ nodes) : P Unit (guard context name value) := by
  cases value with
  | none => exact h.pure ()
  | some e => exact h.bind (h.exprType e (hnodes e rfl)) fun _ => h.reportUnless _ _ rfl

lemma global (g : GlobalDef) (hnodes : ∀ n ∈ g.value.nodes, n ∈ nodes)
    (hdeclare : P Unit (declare (.ofDefinition .global g.name g.line) fun ds => ds.defineGlobal g.name g.type g.line)) :
    P Unit (global g) := by
  refine h.bind (h.exprType g.value hnodes) fun type => ?_
  dsimp only
  split
  · exact h.bind (h.report _ _ rfl) fun _ => hdeclare
  · exact hdeclare

end ClosedExpr

/-- A step after which the state is related to the one before. -/
def Related {α : Type} (R : Inspection → Inspection → Prop) (x : Inspect α) : Prop :=
  ∀ s a s', x.run s = (a, s') → R s s'

/-- A relation that holds after two steps in a row if it holds after each, and after the smallest steps. -/
structure Bears (R : Inspection → Inspection → Prop) : Prop where
  refl : ∀ s, R s s
  trans : ∀ {s t u}, R s t → R t u → R s u
  report : ∀ context issue, issue.isInternal = false → Related R (report context issue)
  read : ∀ {s name type d}, s.analysis.declarations.read name = some (type, d) →
    R s { s with analysis := { s.analysis with declarations := d } }

namespace Bears

variable {α β : Type} {R : Inspection → Inspection → Prop} (h : Bears R)
include h

lemma pure (a : α) : Related R (Pure.pure a : Inspect α) := by
  intro s b s' hrun
  cases hrun
  exact h.refl s

lemma bind {x : Inspect α} {f : α → Inspect β} (hx : Related R x) (hf : ∀ a, Related R (f a)) :
    Related R (x >>= f) := by
  intro s b s' hrun
  obtain ⟨a, t, ha, hb⟩ := runState_bind.mp hrun
  exact h.trans (hx s a t ha) (hf a t b s' hb)

lemma analysis : Related R Inspect.analysis := by
  intro s a s' hrun
  cases hrun
  exact h.refl s

lemma nameType (context : Context) (name : String) : Related R (nameType context name) := by
  intro s type s' hrun
  replace hrun := of_analysis hrun
  split at hrun
  next hread =>
    cases hrun
    exact h.read hread
  next => exact h.bind (h.report _ _ rfl) (fun _ => h.pure _) s type s' hrun

lemma recorded {m : Mark} (hrecord : ∀ s type,
      R s { s with analysis := { s.analysis with types := s.analysis.types.record m.id type } })
    {compute : Inspect Ty} (hcompute : Related R compute) : Related R (recorded m compute) := by
  intro s type s' hrun
  replace hrun := of_analysis hrun
  split at hrun
  next => exact h.pure _ s type s' hrun
  next =>
    obtain ⟨type', t, ht, hrun⟩ := runState_bind.mp hrun
    cases hrun
    exact h.trans (hcompute s type t ht) (hrecord t type)

lemma closedExpr {nodes : Set Expr}
    (hcall : ∀ context, ∀ n ∈ nodes, ∀ name arguments, n.call? = some (name, arguments) →
      ∀ types, Related R (callType context n.id name arguments types))
    (hrecord : ∀ n ∈ nodes, ∀ s type,
      R s { s with analysis := { s.analysis with types := s.analysis.types.record n.id type } }) :
    ClosedExpr nodes fun _ => Related R where
  pure := h.pure
  bind := h.bind
  report := h.report
  nameType := h.nameType
  callType := hcall
  recorded n hn _ := h.recorded (hrecord n hn)

lemma closedEmpty : ClosedExpr ∅ fun _ => Related R :=
  h.closedExpr (fun _ _ hn => hn.elim) fun _ hn => hn.elim

lemma callType {id : Nat} (hcall : ∀ s header,
      R s { s with analysis := { s.analysis with calls := (id, header) :: s.analysis.calls } })
    (context : Context) (name : String) (arguments : List Expr) (types : List Ty) :
    Related R (callType context id name arguments types) := by
  intro s type s' hrun
  replace hrun := of_analysis hrun
  split at hrun
  next issue hissue =>
    have hordinary := (Declarations.isError_resolveCall hissue).ordinary
    exact h.bind (h.report _ _ (Issue.isInternal_of_isOrdinary hordinary)) (fun _ => h.pure _) s type s' hrun
  next resolved _ =>
    obtain ⟨_, t, ht, hrun⟩ := runState_bind.mp hrun
    cases hrun
    rw [reportEach_eq] at ht
    refine h.trans (h.closedEmpty.reportAll context (forall_mem_map.mpr fun issue hissue => ?_) s _ t ht)
      (hcall t resolved.header)
    exact Issue.isInternal_of_isOrdinary (isError_wrongReferences issue hissue).ordinary

lemma closeScope (hclose : ∀ s unused d, s.analysis.declarations.closeScope = .ok (unused, d) →
      R s { s with analysis := { s.analysis with declarations := d } })
    (herror : ∀ context issue, Related R (Inspect.report context issue)) (context : Context) :
    Related R (closeScope context) := by
  intro s a s' hrun
  replace hrun := of_analysis hrun
  split at hrun
  next unused d hd =>
    obtain ⟨_, t, ht, hrun⟩ := runState_bind.mp hrun
    cases ht
    refine h.trans (hclose s unused d hd) (h.closedEmpty.reportAll context (forall_mem_map.mpr ?_) _ a s' hrun)
    exact fun _ _ => rfl
  next issue _ => exact herror _ issue s a s' hrun

omit h in
lemma declare {context : Context} {change : Declarations → Except Issue Declarations}
    (hok : ∀ s d, change s.analysis.declarations = .ok d →
      R s { s with analysis := { s.analysis with declarations := d } })
    (herror : ∀ s issue, change s.analysis.declarations = .error issue →
      ∀ a s', (Inspect.report context issue).run s = (a, s') → R s s') : Related R (declare context change) := by
  intro s a s' hrun
  replace hrun := of_analysis hrun
  split at hrun
  next d hd =>
    cases hrun
    exact hok s d hd
  next issue hissue => exact herror s issue hissue a s' hrun

end Bears

namespace ClosedBody

variable {nodes : Set Expr} {P : ∀ α : Type, Inspect α → Prop} (h : ClosedBody nodes P)
include h

lemma declarators {context : Context} (type : Ty) (ds : List Declarator)
    (hnodes : ∀ d ∈ ds, ∀ e ∈ d.value, ∀ n ∈ e.nodes, n ∈ nodes) :
    P Unit (declarators context type ds) := by
  induction ds with
  | nil => exact h.pure ()
  | cons d rest ih =>
    obtain ⟨hd, hrest⟩ := forall_mem_cons.mp hnodes
    exact h.bind (h.initialValue type d.value hd) fun _ =>
      h.bind (h.declareVariable _ _ _ _) fun _ => ih hrest

theorem statements (block : List Stmt) :
    (∀ s ∈ Stmt.blockParts block, ∀ e ∈ s.exprs, ∀ n ∈ e.nodes, n ∈ nodes) →
      ∀ context, P Unit (statements context block) := by
  induction block using Stmt.block_induction (fun stmt =>
    (∀ s ∈ stmt.parts, ∀ e ∈ s.exprs, ∀ n ∈ e.nodes, n ∈ nodes) → ∀ context, P Unit (statement context stmt)) with
  | declare type ds line hnodes context =>
    simp only [Stmt.parts, forall_mem_singleton] at hnodes
    refine h.declarators type ds fun d hd e he => hnodes e ?_
    exact mem_flatMap.mpr ⟨d, hd, Option.mem_toList.mpr he⟩
  | assign target value line hnodes context =>
    simp only [Stmt.parts, Stmt.exprs, forall_mem_singleton, forall_mem_cons] at hnodes
    exact h.bind (h.exprType target hnodes.1) fun _ => h.bind (h.exprType value hnodes.2) fun _ =>
      h.reportUnless _ _ rfl
  | ifThen condition body line ih hnodes context | whileDo condition body line ih hnodes context =>
    simp only [Stmt.parts, forall_mem_cons] at hnodes
    exact h.bind (h.condition _ _ (hnodes.1 _ (mem_singleton_self _))) fun _ => h.block _ _ (ih hnodes.2 _)
  | ifElse condition thenBody elseBody line ihthen ihelse hnodes context =>
    simp only [Stmt.parts, forall_mem_cons, forall_mem_append] at hnodes
    rw [statement_ifElse]
    exact h.bind (h.condition _ _ (hnodes.1 _ (mem_singleton_self _))) fun _ =>
      h.bind (h.block _ _ (ihthen hnodes.2.1 _)) fun _ => h.block _ _ (ihelse hnodes.2.2 _)
  | forAll name source body line ih hnodes context =>
    simp only [Stmt.parts, forall_mem_cons] at hnodes
    rw [statement_forAll]
    exact h.bind (h.exprType source (hnodes.1 _ (mem_singleton_self _))) fun _ =>
      h.bind (h.loopVariableType _) fun _ => h.block _ _
        (h.bind (h.declareVariable _ _ _ _) fun _ => ih hnodes.2 _)
  | returns value line hnodes context =>
    cases value with
    | none => exact h.pure ()
    | some value =>
      have hvalue : ∀ n ∈ value.nodes, n ∈ nodes := hnodes _ (mem_singleton_self _) _ (mem_singleton_self _)
      exact h.bind (h.exprType value hvalue) fun _ => h.pure ()
  | score value line hnodes context =>
    have hvalue : ∀ n ∈ value.nodes, n ∈ nodes := hnodes _ (mem_singleton_self _) _ (mem_singleton_self _)
    exact h.bind (h.exprType value hvalue) fun _ => h.reportUnless _ _ rfl
  | call site line hnodes context =>
    have hsite : ∀ n ∈ site.nodes, n ∈ nodes := hnodes _ (mem_singleton_self _) _ (mem_singleton_self _)
    exact h.bind (h.exprType site hsite) fun _ => h.pure ()
  | nil => exact fun _ _ => h.pure ()
  | cons s rest ihs ihrest =>
    intro hnodes context
    obtain ⟨hs, hrest⟩ := forall_mem_append.mp hnodes
    exact h.bind (ihs hs context) fun _ => ihrest hrest context

lemma statement (stmt : Stmt) (hnodes : ∀ s ∈ stmt.parts, ∀ e ∈ s.exprs, ∀ n ∈ e.nodes, n ∈ nodes)
    (context : Context) : P Unit (statement context stmt) := by
  have hblock := h.statements [stmt] (by simpa [Stmt.blockParts] using hnodes) context
  rwa [Inspect.statements, Inspect.statements, bind_pure_unit] at hblock

lemma functionBody (f : FunctionDef)
    (hnodes : ∀ s ∈ Stmt.blockParts f.body, ∀ e ∈ s.exprs, ∀ n ∈ e.nodes, n ∈ nodes)
    (hreturns : ∀ context expected label, P Unit (wrongReturns context expected label f.body)) :
    P Unit (Inspect.functionBody f) :=
  h.bind (h.each fun _ _ => h.declareVariable _ _ _ _) fun _ =>
    h.bind (h.statements f.body hnodes _) fun _ => h.bind (hreturns _ _ _) fun _ =>
      h.bind (h.scoreLines _ _) fun _ => h.bind (h.functionOutcome _ _) fun _ => h.unreachable _ _

lemma function (f : FunctionDef) (hnodes : ∀ s ∈ Stmt.blockParts f.body, ∀ e ∈ s.exprs, ∀ n ∈ e.nodes, n ∈ nodes)
    (hreturns : ∀ context expected label, P Unit (wrongReturns context expected label f.body)) :
    P Unit (function f) :=
  h.block _ _ (h.functionBody f hnodes hreturns)

lemma ruleBody (r : RuleDef) (hnodes : ∀ s ∈ Stmt.blockParts r.body, ∀ e ∈ s.exprs, ∀ n ∈ e.nodes, n ∈ nodes)
    (hreturns : ∀ context expected label, P Unit (wrongReturns context expected label r.body)) :
    P Unit (ruleBody r) := by
  refine h.bind (h.statements r.body hnodes _) fun _ => h.bind (hreturns _ _ _) fun _ => ?_
  dsimp only
  split
  · exact h.bind (h.report _ _ rfl) fun _ => h.unreachable _ _
  · exact h.unreachable _ _

lemma declaredRule (r : RuleDef) (hguard : ∀ e ∈ r.guard, ∀ n ∈ e.nodes, n ∈ nodes)
    (hnodes : ∀ s ∈ Stmt.blockParts r.body, ∀ e ∈ s.exprs, ∀ n ∈ e.nodes, n ∈ nodes)
    (hreturns : ∀ context expected label, P Unit (wrongReturns context expected label r.body)) :
    P Unit (declaredRule r) := by
  rw [declaredRule_eq]
  exact h.bind (h.guard _ _ _ hguard) fun _ => h.block _ _ (h.ruleBody r hnodes hreturns)

end ClosedBody

namespace ClosedWithin

variable {nodes : Set Expr} {P : ∀ α : Type, Inspect α → Prop} (h : ClosedWithin nodes P)
include h

lemma wrongReturns (context : Context) (expected : Ty) (label : String) (body : List Stmt) :
    P Unit (wrongReturns context expected label body) :=
  h.bind h.analysis fun _ => h.reportAll _ fun x hx =>
    Issue.isInternal_of_isOrdinary (Stmt.isError_blockWrongReturns body x hx).ordinary

lemma global (g : GlobalDef) (hnodes : ∀ n ∈ g.value.nodes, n ∈ nodes) : P Unit (global g) :=
  h.toClosedExpr.global g hnodes (h.declareGlobal _ _ _ _)

lemma function (f : FunctionDef) (hnodes : ∀ s ∈ Stmt.blockParts f.body, ∀ e ∈ s.exprs, ∀ n ∈ e.nodes, n ∈ nodes) :
    P Unit (function f) :=
  h.toClosedBody.function f hnodes fun _ _ _ => h.wrongReturns _ _ _ _

lemma declaredRule (r : RuleDef) (hguard : ∀ e ∈ r.guard, ∀ n ∈ e.nodes, n ∈ nodes)
    (hnodes : ∀ s ∈ Stmt.blockParts r.body, ∀ e ∈ s.exprs, ∀ n ∈ e.nodes, n ∈ nodes) : P Unit (declaredRule r) :=
  h.toClosedBody.declaredRule r hguard hnodes fun _ _ _ => h.wrongReturns _ _ _ _

lemma unusedGlobals : P Unit unusedGlobals :=
  h.bind h.analysis fun _ => h.each fun _ _ => h.report _ _ rfl

end ClosedWithin

namespace Closed

variable {nodes : Set Expr} {P : ∀ α : Type, Inspect α → Prop} (h : Closed nodes P)
include h

lemma rule (r : RuleDef) (hguard : ∀ e ∈ r.guard, ∀ n ∈ e.nodes, n ∈ nodes)
    (hnodes : ∀ s ∈ Stmt.blockParts r.body, ∀ e ∈ s.exprs, ∀ n ∈ e.nodes, n ∈ nodes) : P Unit (rule r) :=
  h.bind (h.wrongOptions _ _) fun _ => h.bind (h.declareRule _ _ _ _) fun _ => h.declaredRule r hguard hnodes

theorem definitions {p : Program} (hnodes : ∀ n ∈ p.nodes, n ∈ nodes) : P Unit (definitions p) := by
  have hexpr : ∀ e ∈ p.exprs, ∀ n ∈ e.nodes, n ∈ nodes := fun e he n hn =>
    hnodes n (mem_flatMap.mpr ⟨e, he, hn⟩)
  have hstmt : ∀ s ∈ p.stmts, ∀ e ∈ s.exprs, ∀ n ∈ e.nodes, n ∈ nodes := fun s hs e he =>
    hexpr e (Program.mem_exprs.mpr (.inr (.inr ⟨s, hs, he⟩)))
  refine h.bind (h.each fun g hg => h.global g ?_) fun _ => h.bind (h.each fun f hf => h.function f ?_) fun _ =>
    h.bind (h.each fun r hr => h.rule r ?_ ?_) fun _ => h.unusedGlobals
  · exact hexpr _ (Program.mem_exprs.mpr (.inl ⟨g, hg, rfl⟩))
  · exact fun s hs => hstmt s (Program.mem_stmts.mpr (.inl ⟨f, hf, hs⟩))
  · exact fun e he => hexpr e (Program.mem_exprs.mpr (.inr (.inl ⟨r, hr, he⟩)))
  · exact fun s hs => hstmt s (Program.mem_stmts.mpr (.inr ⟨r, hr, hs⟩))

end Closed

end ChessEval.Inspect
