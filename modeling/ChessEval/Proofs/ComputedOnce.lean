import ChessEval.Proofs.NodeNumbers
import ChessEval.Proofs.Recording

/-!
# Types that are computed once

The analysis looks for the recorded type of a node before it computes one. Here it is written once more so
that it notes the nodes whose types it computes, and how a node gets its type is left open: the type can be
looked for first, or always be computed. When the nodes of a program have distinct numbers, all ways come to
the same, because every node is reached exactly once.
-/

namespace ChessEval

open List

/-- A step of an analysis that notes the numbers of the nodes whose types it computes. -/
abbrev Noting := StateT (List Nat) Inspect

namespace Noting

open Inspect

/-- Computes the type of a node, notes the node and records the type. -/
def afresh (mark : Mark) (compute : Noting Ty) : Noting Ty := do
  let type ← compute
  modify (· ++ [mark.id])
  update fun a => { a with types := a.types.record mark.id type }
  return type

/-- The recorded type of a node, or else the one that is computed. -/
def lookedUp (mark : Mark) (compute : Noting Ty) : Noting Ty := do
  match (← analysis).types.get? mark.id with
  | some type => return type
  | none => afresh mark compute

section Steps

-- Every step is the step of the analysis that has the same name, with `keep` in the place of `recorded`. The
-- steps that compute no types are those of the analysis.
variable (keep : Mark → Noting Ty → Noting Ty)

mutual

def exprType (context : Context) : Expr → Noting Ty
  | .literal m value => keep m (return value.type)
  | .identifier m name => keep m (nameType (context.moveTo m.line) name)
  | .binary m operator left right => keep m do
    let leftType ← exprType context left
    let rightType ← exprType context right
    operatorResult (context.moveTo m.line) (operator.type leftType rightType)
  | .unary m operator operand => keep m do
    let type ← exprType context operand
    operatorResult (context.moveTo m.line) (operator.type type)
  | .call m name arguments => keep m do
    let types ← exprTypes context arguments
    callType (context.moveTo m.line) m.id name arguments types
  | .member m base field => keep m do
    let type ← exprType context base
    callType (context.moveTo m.line) m.id field [base] [type]
  | .index m base position => keep m do
    let baseType ← exprType context base
    let positionType ← exprType context position
    if !positionType.isNum then
      report (context.moveTo m.line) (.indexNotNum positionType.name)
    operatorResult (context.moveTo m.line) baseType.element?
  | .list m elements => keep m do
    let element ← elementsType context (context.moveTo m.line) .generic elements
    return .array element
  | .emptyList m => keep m (return .emptyArray)

def exprTypes (context : Context) : List Expr → Noting (List Ty)
  | [] => return []
  | e :: rest => do
    let type ← exprType context e
    let types ← exprTypes context rest
    return type :: types

def elementsType (context list : Context) (merged : Ty) : List Expr → Noting Ty
  | [] => return merged
  | e :: rest => do
    let type ← exprType context e
    let merged ← mergeElement list merged type
    elementsType context list merged rest

end

def condition (context : Context) (statement : String) (e : Expr) : Noting Unit := do
  let type ← exprType keep context e
  if !type.isBool then report context (.conditionNotBool statement type.name)

def initialValue (context : Context) (type : Ty) : Option Expr → Noting Unit
  | none => return
  | some value => do
    let valueType ← exprType keep context value
    if !type.unifies valueType then
      report context (.assignmentTypeMismatch type.name valueType.name)

def declarators (context : Context) (type : Ty) : List Declarator → Noting Unit
  | [] => return
  | d :: rest => do
    initialValue keep (context.moveTo d.line) type d.value
    declare (context.moveTo d.line) fun ds => ds.declare d.name type d.line
    declarators context type rest

mutual

def statement (context : Context) : Stmt → Noting Unit
  | .declare type ds line => declarators keep (context.moveTo line) type ds
  | .assign target value line => do
    let context := context.moveTo line
    let targetType ← exprType keep context target
    let valueType ← exprType keep context value
    if !targetType.unifies valueType then
      report context (.assignmentTypeMismatch targetType.name valueType.name)
  | .ifThen e thenBody none line => do
    condition keep (context.moveTo line) "if" e
    openScope
    statements (context.moveTo line) thenBody
    closeScope (context.moveTo line)
  | .ifThen e thenBody (some elseBody) line => do
    condition keep (context.moveTo line) "if" e
    openScope
    statements (context.moveTo line) thenBody
    closeScope (context.moveTo line)
    openScope
    statements (context.moveTo line) elseBody
    closeScope (context.moveTo line)
  | .whileDo e body line => do
    condition keep (context.moveTo line) "while" e
    openScope
    statements (context.moveTo line) body
    closeScope (context.moveTo line)
  | .forAll name source body line => do
    let context := context.moveTo line
    let sourceType ← exprType keep context source
    let type ← loopVariableType context sourceType
    openScope
    declare context fun ds => ds.declare name type line
    statements context body
    closeScope context
  | .returns none _ => return
  | .returns (some value) line => do
    let _ ← exprType keep (context.moveTo line) value
  | .score value line => do
    let context := context.moveTo line
    let type ← exprType keep context value
    if !type.isNum then report context (.scoreNotNum type.name)
  | .call site line => do
    let _ ← exprType keep (context.moveTo line) site

def statements (context : Context) : List Stmt → Noting Unit
  | [] => return
  | s :: rest => do
    statement context s
    statements context rest

end

def global (g : GlobalDef) : Noting Unit := do
  let context := Context.ofDefinition .global g.name g.line
  let type ← exprType keep context g.value
  if !g.type.unifies type then
    report context (.globalTypeMismatch g.name g.type.name type.name)
  declare context fun ds => ds.defineGlobal g.name g.type g.line

def function (f : FunctionDef) : Noting Unit := do
  let context := functionContext f
  openScope
  each (param context) f.params
  statements keep context f.body
  wrongReturns context f.returnType ("function '" ++ f.name ++ "'") f.body
  reportAll context ((blockScoreLines f.body).map fun line => (.scoreInFunction, line))
  functionOutcome context f
  reportAll context (blockUnreachable f.body)
  closeScope context

def guard (context : Context) (name : String) : Option Expr → Noting Unit
  | none => return
  | some e => do
    let type ← exprType keep (context.moveTo e.line) e
    if !type.isBool then report (context.moveTo e.line) (.guardNotBool name type.name)

def rule (r : RuleDef) : Noting Unit := do
  let context := Context.ofDefinition .rule r.name r.line
  reportAll context (wrongOptions [] r.options)
  declare context fun ds => ds.defineRule r.name (schedule r.options) r.line
  guard keep context r.name r.guard
  openScope
  statements keep context r.body
  wrongReturns context .void ("rule '" ++ r.name ++ "'") r.body
  if !blockScores r.body then report context (.noScoreInRule r.name)
  reportAll context (blockUnreachable r.body)
  closeScope context

/-- The analysis of a program, with the way in which a node gets its type. -/
def program (p : Program) : Noting Unit := do
  each setting p.config
  each predefined Predefined.all
  each registerFunction p.functions
  p.globals.forM (global keep)
  p.functions.forM (function keep)
  p.rules.forM (rule keep)
  unusedGlobals

end Steps

end Noting

/-- The analysis of a program and the diagnostics after it, with the nodes whose types it has computed. -/
def Program.checkNoting (p : Program) (keep : Mark → Noting Ty → Noting Ty) (diagnostics : Diagnostics) :
    (Analysis × Diagnostics) × List Nat :=
  let start : Inspection := ⟨p.file, Analysis.initial p.exprCount, diagnostics⟩
  let result := ((Noting.program keep p).run []).run start
  ((result.2.analysis, result.2.diagnostics), result.1.2)

/-- The nodes of a program in the order in which the analysis reaches them. -/
def Program.reached (p : Program) : List Nat :=
  p.globals.flatMap (fun g => g.value.ids) ++
    (p.functions.flatMap (fun f => Stmt.blockIds f.body) ++ p.rules.flatMap
      fun r => r.guard.toList.flatMap Expr.ids ++ Stmt.blockIds r.body)

namespace Noting

open Inspect

/-- A relation between a step of the analysis and the step with notes, given the nodes that are reached in it. -/
structure Follows (keep : Mark → Noting Ty → Noting Ty)
    (R : ∀ α : Type, List Nat → Inspect α → Noting α → Prop) : Prop where
  pure : ∀ {α : Type} (a : α), R α [] (Pure.pure a) (Pure.pure a)
  bind : ∀ {α β : Type} {ids ids' : List Nat} {x : Inspect α} {y : Noting α} {f : α → Inspect β}
    {g : α → Noting β}, R α ids x y → (∀ a, R β ids' (f a) (g a)) → R β (ids ++ ids') (x >>= f) (y >>= g)
  step : ∀ {α : Type} {x : Inspect α}, KeepsTypes x → R α [] x (liftM x)
  node : ∀ {ids : List Nat} {x : Inspect Ty} {y : Noting Ty} (mark : Mark), R Ty ids x y →
    R Ty (ids ++ [mark.id]) (recorded mark x) (keep mark y)

namespace Follows

variable {keep : Mark → Noting Ty → Noting Ty} {R : ∀ α : Type, List Nat → Inspect α → Noting α → Prop}
  (h : Follows keep R)
include h

section Expressions

variable {α β : Type} {ids : List Nat} {x : Inspect α} {y : Noting α} {f : α → Inspect β} {g : α → Noting β}
  {context : Context}

lemma bindStep (hx : R α ids x y) (hf : ∀ a, R β [] (f a) (g a)) : R β ids (x >>= f) (y >>= g) := by
  rw [← append_nil ids]
  exact h.bind hx hf

lemma stepBind (hx : KeepsTypes x) (hf : ∀ a, R β ids (f a) (g a)) : R β ids (x >>= f) (liftM x >>= g) :=
  h.bind (h.step hx) hf

lemma reportUnless (condition : Bool) (issue : Issue) :
    R Unit [] (if !condition then report context issue else Pure.pure ())
      (if !condition then liftM (report context issue) else Pure.pure ()) := by
  split
  · exact h.step (.report _ _)
  · exact h.pure ()

lemma exprTypes {es : List Expr}
    (hes : ∀ e ∈ es, R Ty e.ids (Inspect.exprType context e) (exprType keep context e)) :
    R (List Ty) (es.flatMap Expr.ids) (Inspect.exprTypes context es) (exprTypes keep context es) := by
  induction es with
  | nil => exact h.pure _
  | cons e rest ih =>
    obtain ⟨he, hrest⟩ := forall_mem_cons.mp hes
    exact h.bind he fun _ => h.bindStep (ih hrest) fun _ => h.pure _

lemma elementsType {list : Context} {es : List Expr}
    (hes : ∀ e ∈ es, R Ty e.ids (Inspect.exprType context e) (exprType keep context e)) (merged : Ty) :
    R Ty (es.flatMap Expr.ids) (Inspect.elementsType context list merged es)
      (elementsType keep context list merged es) := by
  induction es generalizing merged with
  | nil => exact h.pure _
  | cons e rest ih =>
    obtain ⟨he, hrest⟩ := forall_mem_cons.mp hes
    exact h.bind he fun _ => h.stepBind (KeepsTypes.closed.mergeElement _ _) fun merged => ih hrest merged

theorem exprType (e : Expr) : R Ty e.ids (Inspect.exprType context e) (exprType keep context e) := by
  induction e using Expr.children_induction with
  | step e ih =>
    rw [Expr.ids_eq]
    cases e with
    | literal m value => exact h.node m (h.pure _)
    | identifier m name => exact h.node m (h.step (.nameType _ _))
    | binary m operator left right =>
      exact h.node m (h.bind (ih left (by simp [Expr.children])) fun _ =>
        h.bind (ih right (by simp [Expr.children])) fun _ => h.step (KeepsTypes.closed.operatorResult _))
    | unary m operator operand =>
      exact h.node m (h.bind (ih operand (by simp [Expr.children])) fun _ =>
        h.step (KeepsTypes.closed.operatorResult _))
    | call m name arguments =>
      exact h.node m (h.bindStep (h.exprTypes ih) fun _ => h.step (.callType _ _ _ _ _))
    | member m base field =>
      exact h.node m (h.bind (ih base (by simp [Expr.children])) fun _ => h.step (.callType _ _ _ _ _))
    | index m base position =>
      refine h.node m (h.bind (ih base (by simp [Expr.children])) fun _ =>
        h.bind (ih position (by simp [Expr.children])) fun positionType => ?_)
      dsimp only
      split
      · exact h.stepBind (.report _ _) fun _ => h.step (KeepsTypes.closed.operatorResult _)
      · exact h.step (KeepsTypes.closed.operatorResult _)
    | list m elements =>
      exact h.node m (h.bindStep (h.elementsType ih _) fun _ => h.pure _)
    | emptyList m => exact h.node m (h.pure _)

lemma condition (statement : String) (e : Expr) :
    R Unit e.ids (Inspect.condition context statement e) (condition keep context statement e) :=
  h.bindStep (h.exprType e) fun _ => h.reportUnless _ _

lemma initialValue (type : Ty) (value : Option Expr) :
    R Unit (value.toList.flatMap Expr.ids) (Inspect.initialValue context type value)
      (initialValue keep context type value) := by
  cases value with
  | none => exact h.pure ()
  | some e => exact h.bind (h.exprType e) fun _ => h.reportUnless _ _

lemma declarators (type : Ty) (ds : List Declarator) :
    R Unit ((ds.flatMap fun d => d.value.toList).flatMap Expr.ids) (Inspect.declarators context type ds)
      (declarators keep context type ds) := by
  induction ds with
  | nil => exact h.pure ()
  | cons d rest ih =>
    rw [flatMap_cons, flatMap_append]
    exact h.bind (h.initialValue type d.value) fun _ => h.stepBind (.declare _ _) fun _ => ih

end Expressions

theorem statements (block : List Stmt) : ∀ context,
    R Unit (Stmt.blockIds block) (Inspect.statements context block) (statements keep context block) := by
  induction block using Stmt.block_induction (fun s => ∀ context,
    R Unit s.ids (Inspect.statement context s) (statement keep context s)) with
  | declare type ds line context =>
    rw [Stmt.ids_declare]
    exact h.declarators type ds
  | assign target value line context =>
    rw [Stmt.ids_assign]
    exact h.bind (h.exprType target) fun _ => h.bindStep (h.exprType value) fun _ => h.reportUnless _ _
  | ifThen condition body line ih context | whileDo condition body line ih context =>
    exact h.bind (h.condition _ _) fun _ => h.stepBind (fun _ => rfl) fun _ =>
      h.bindStep (ih _) fun _ => h.step (.closeScope _)
  | ifElse condition thenBody elseBody line ihthen ihelse context =>
    rw [Stmt.ids_ifElse]
    exact h.bind (h.condition _ _) fun _ => h.stepBind (fun _ => rfl) fun _ =>
      h.bind (ihthen _) fun _ => h.stepBind (.closeScope _) fun _ => h.stepBind (fun _ => rfl) fun _ =>
        h.bindStep (ihelse _) fun _ => h.step (.closeScope _)
  | forAll name source body line ih context =>
    rw [Stmt.ids_forAll]
    exact h.bind (h.exprType source) fun _ => h.stepBind (KeepsTypes.closed.loopVariableType _) fun _ =>
      h.stepBind (fun _ => rfl) fun _ => h.stepBind (.declare _ _) fun _ =>
        h.bindStep (ih _) fun _ => h.step (.closeScope _)
  | returns value line context =>
    rw [Stmt.ids_returns]
    cases value with
    | none => exact h.pure ()
    | some value => exact h.bind (h.exprType value) fun _ => h.pure ()
  | score value line context =>
    rw [Stmt.ids_score]
    exact h.bindStep (h.exprType value) fun _ => h.reportUnless _ _
  | call site line context =>
    rw [Stmt.ids_call]
    exact h.bindStep (h.exprType site) fun _ => h.pure ()
  | nil => exact fun _ => h.pure ()
  | cons s rest ihs ihrest =>
    intro context
    rw [Stmt.blockIds_cons]
    exact h.bind (ihs context) fun _ => ihrest context

lemma each {α : Type} {ids : α → List Nat} {step : α → Inspect Unit} {noting : α → Noting Unit}
    (hstep : ∀ x, R Unit (ids x) (step x) (noting x)) (items : List α) :
    R Unit (items.flatMap ids) (Inspect.each step items) (items.forM noting) := by
  induction items with
  | nil => exact h.pure ()
  | cons x rest ih => exact h.bind (hstep x) fun _ => ih

lemma global (g : GlobalDef) : R Unit g.value.ids (Inspect.global g) (global keep g) := by
  refine h.bindStep (h.exprType g.value) fun type => ?_
  dsimp only
  split
  · exact h.stepBind (.report _ _) fun _ => h.step (.declare _ _)
  · exact h.step (.declare _ _)

lemma function (f : FunctionDef) : R Unit (Stmt.blockIds f.body) (Inspect.function f) (function keep f) :=
  h.stepBind (fun _ => rfl) fun _ => h.stepBind (KeepsTypes.closed.each fun _ _ => .declare _ _) fun _ =>
    h.bindStep (h.statements f.body _) fun _ => h.stepBind (KeepsTypes.closed.wrongReturns _ _ _ _) fun _ =>
      h.stepBind (.reportAll _ _) fun _ => h.stepBind (KeepsTypes.closed.functionOutcome _ _) fun _ =>
        h.stepBind (.reportAll _ _) fun _ => h.step (.closeScope _)

lemma guard (context : Context) (name : String) (value : Option Expr) :
    R Unit (value.toList.flatMap Expr.ids) (Inspect.guard context name value) (guard keep context name value) := by
  cases value with
  | none => exact h.pure ()
  | some e => exact h.bind (h.exprType e) fun _ => h.reportUnless _ _

lemma rule (r : RuleDef) : R Unit (r.guard.toList.flatMap Expr.ids ++ Stmt.blockIds r.body) (Inspect.rule r)
    (rule keep r) := by
  refine h.stepBind (.reportAll _ _) fun _ => h.stepBind (.declare _ _) fun _ =>
    h.bind (h.guard _ _ _) fun _ => h.stepBind (fun _ => rfl) fun _ =>
      h.bindStep (h.statements r.body _) fun _ => h.stepBind (KeepsTypes.closed.wrongReturns _ _ _ _) fun _ => ?_
  dsimp only
  split
  · exact h.stepBind (.report _ _) fun _ => h.stepBind (.reportAll _ _) fun _ => h.step (.closeScope _)
  · exact h.stepBind (.reportAll _ _) fun _ => h.step (.closeScope _)

theorem program (p : Program) : R Unit p.reached (Inspect.program p) (program keep p) :=
  h.stepBind (KeepsTypes.closed.each fun _ _ => .setting _) fun _ =>
    h.stepBind (KeepsTypes.closed.each fun _ _ => .declare _ _) fun _ =>
      h.stepBind (KeepsTypes.closed.each fun _ _ => .declare _ _) fun _ =>
        h.bind (h.each h.global _) fun _ => h.bind (h.each h.function _) fun _ =>
          h.bindStep (h.each h.rule _) fun _ => h.step KeepsTypes.closed.unusedGlobals

end Follows

end Noting

namespace Inspection

/-- A later analysis with types for the given nodes and for those that had one before. -/
def Fills (ids : List Nat) (s s' : Inspection) : Prop :=
  ∀ id, (s'.analysis.types.get? id).isSome ↔ id ∈ ids ∨ (s.analysis.types.get? id).isSome

variable {ids ids' : List Nat} {s t u : Inspection}

lemma Fills.of_eq (h : t.analysis.types = s.analysis.types) : s.Fills [] t := by
  intro id
  simp [h]

lemma Fills.trans (hst : s.Fills ids t) (htu : t.Fills ids' u) : s.Fills (ids ++ ids') u := by
  intro id
  rw [htu id, hst id, mem_append]
  tauto

lemma Fills.fresh (hfresh : s.Fresh (ids ++ ids')) (h : s.Fills ids t) : t.Fresh ids' := by
  refine ⟨(nodup_append.mp hfresh.1).2.1, fun id hid => ?_⟩
  have hnone : s.analysis.types.get? id = none := hfresh.2 id (mem_append_right _ hid)
  have hnew : ¬(t.analysis.types.get? id).isSome := by
    rw [h id, hnone]
    rintro (hmem | hsome)
    · exact hfresh.disjoint hmem hid
    · cases hsome
  simpa using hnew

def withType (s : Inspection) (mark : Mark) (type : Ty) : Inspection :=
  { s with analysis := { s.analysis with types := s.analysis.types.record mark.id type } }

lemma fills_withType {mark : Mark} {type : Ty} (h : s.analysis.types.get? mark.id = none) :
    s.Fills [mark.id] (s.withType mark type) := by
  intro id
  change ((s.analysis.types.record mark.id type).get? id).isSome ↔ _
  rw [TypeTable.get?_record _ _ _ _ h]
  by_cases hid : id = mark.id <;> simp [hid]

end Inspection

namespace Noting

open Inspect

variable {α β : Type} {ids ids' : List Nat} {s : Inspection} {noted : List Nat}

lemma run_bind (y : Noting α) (g : α → Noting β) (noted : List Nat) (s : Inspection) :
    ((y >>= g).run noted).run s =
      ((g ((y.run noted).run s).1.1).run ((y.run noted).run s).1.2).run ((y.run noted).run s).2 := rfl

section Nodes

variable {mark : Mark} {x : Inspect Ty} {y : Noting Ty}

lemma run_recorded_none (hfresh : s.analysis.types.get? mark.id = none) :
    (recorded mark x).run s = ((x.run s).1, (x.run s).2.withType mark (x.run s).1) := by
  rcases hrun : (recorded mark x).run s with ⟨type, s'⟩
  replace hrun := of_analysis hrun
  rw [hfresh] at hrun
  exact hrun.symm

lemma run_recorded_some {type : Ty} (hfound : s.analysis.types.get? mark.id = some type) :
    (recorded mark x).run s = (type, s) := by
  rcases hrun : (recorded mark x).run s with ⟨type', s'⟩
  replace hrun := of_analysis hrun
  rw [hfound] at hrun
  exact hrun.symm

lemma run_afresh {s' : Inspection} {noted' : List Nat} {type : Ty}
    (h : (y.run noted).run s = ((type, noted'), s')) :
    ((afresh mark y).run noted).run s = ((type, noted' ++ [mark.id]), s'.withType mark type) := by
  rw [afresh, run_bind, h]
  rfl

lemma run_lookedUp_none (hfresh : s.analysis.types.get? mark.id = none) :
    ((lookedUp mark y).run noted).run s = ((afresh mark y).run noted).run s := by
  have hread : (((liftM analysis : Noting Analysis).run noted).run s).1.1.types.get? mark.id = none := hfresh
  rw [lookedUp, run_bind, hread]
  rfl

lemma run_lookedUp_some {type : Ty} (hfound : s.analysis.types.get? mark.id = some type) :
    ((lookedUp mark y).run noted).run s = ((type, noted), s) := by
  have hread : (((liftM analysis : Noting Analysis).run noted).run s).1.1.types.get? mark.id = some type := hfound
  rw [lookedUp, run_bind, hread]
  rfl

end Nodes

/-- A step with notes that does at nodes without a type what a step of the analysis does. -/
def Agrees (ids : List Nat) (x : Inspect α) (y : Noting α) : Prop :=
  ∀ s noted, s.Fresh ids → (y.run noted).run s = (((x.run s).1, noted ++ ids), (x.run s).2) ∧
    s.Fills ids (x.run s).2

lemma Agrees.bind {x : Inspect α} {y : Noting α} {f : α → Inspect β} {g : α → Noting β} (hx : Agrees ids x y)
    (hf : ∀ a, Agrees ids' (f a) (g a)) : Agrees (ids ++ ids') (x >>= f) (y >>= g) := by
  intro s noted hfresh
  obtain ⟨hrun, hfills⟩ := hx s noted hfresh.left
  obtain ⟨hrun', hfills'⟩ := hf (x.run s).1 (x.run s).2 (noted ++ ids) (hfills.fresh hfresh)
  refine ⟨?_, hfills.trans hfills'⟩
  rw [run_bind, hrun, ← append_assoc]
  exact hrun'

lemma agrees_step {x : Inspect α} (hx : KeepsTypes x) : Agrees [] x (liftM x) := by
  intro s noted _
  rw [append_nil]
  exact ⟨rfl, .of_eq (hx s)⟩

lemma Agrees.afresh {x : Inspect Ty} {y : Noting Ty} (mark : Mark) (h : Agrees ids x y) :
    Agrees (ids ++ [mark.id]) (recorded mark x) (afresh mark y) := by
  intro s noted hfresh
  have hnone : s.analysis.types.get? mark.id = none := hfresh.2 mark.id (by simp)
  obtain ⟨hrun, hfills⟩ := h s noted hfresh.left
  have hlast : (x.run s).2.analysis.types.get? mark.id = none :=
    (hfills.fresh hfresh).2 mark.id (mem_singleton_self _)
  rw [run_recorded_none hnone, run_afresh hrun, ← append_assoc]
  exact ⟨rfl, hfills.trans (Inspection.fills_withType hlast)⟩

lemma Agrees.lookedUp {x : Inspect Ty} {y : Noting Ty} (mark : Mark) (h : Agrees ids x y) :
    Agrees (ids ++ [mark.id]) (recorded mark x) (lookedUp mark y) := by
  intro s noted hfresh
  rw [run_lookedUp_none (hfresh.2 mark.id (by simp))]
  exact h.afresh mark s noted hfresh

theorem follows_afresh : Follows afresh fun _ => Agrees where
  pure _ := agrees_step fun _ => rfl
  bind := .bind
  step := agrees_step
  node mark h := h.afresh mark

theorem follows_lookedUp : Follows lookedUp fun _ => Agrees where
  pure _ := agrees_step fun _ => rfl
  bind := .bind
  step := agrees_step
  node mark h := h.lookedUp mark

/-- A step with notes that is a step of the analysis once the notes are dropped. -/
def Erases (_ids : List Nat) (x : Inspect α) (y : Noting α) : Prop :=
  ∀ s noted, ∃ noted', (y.run noted).run s = (((x.run s).1, noted'), (x.run s).2)

lemma Erases.bind {x : Inspect α} {y : Noting α} {f : α → Inspect β} {g : α → Noting β} (hx : Erases ids x y)
    (hf : ∀ a, Erases ids' (f a) (g a)) : Erases (ids ++ ids') (x >>= f) (y >>= g) := by
  intro s noted
  obtain ⟨noted', hrun⟩ := hx s noted
  rw [run_bind, hrun]
  exact hf (x.run s).1 (x.run s).2 noted'

lemma Erases.lookedUp {x : Inspect Ty} {y : Noting Ty} (mark : Mark) (h : Erases ids x y) :
    Erases (ids ++ [mark.id]) (recorded mark x) (lookedUp mark y) := by
  intro s noted
  cases hfound : s.analysis.types.get? mark.id with
  | none =>
    obtain ⟨noted', hrun⟩ := h s noted
    rw [run_lookedUp_none hfound, run_recorded_none hfound, run_afresh hrun]
    exact ⟨_, rfl⟩
  | some type =>
    rw [run_lookedUp_some hfound, run_recorded_some hfound]
    exact ⟨noted, rfl⟩

/-- The analysis is the one with notes in which the type of a node is looked for first. -/
theorem follows_erased : Follows lookedUp fun _ => Erases where
  pure _ _ noted := ⟨noted, rfl⟩
  bind := .bind
  step _ _ noted := ⟨noted, rfl⟩
  node mark h := h.lookedUp mark

end Noting

namespace Program

open Noting

/-- Whatever the numbers of its nodes are, the analysis of a program is the one that looks a node up first,
without its notes. -/
theorem checkNoting_lookedUp (p : Program) (ds : Diagnostics) : (p.checkNoting lookedUp ds).1 = p.check ds := by
  obtain ⟨noted, hrun⟩ := follows_erased.program p ⟨p.file, Analysis.initial p.exprCount, ds⟩ []
  simp only [checkNoting, check, hrun]

lemma perm_reached (p : Program) : p.reached.Perm (p.nodes.map Expr.id) := by
  rw [map_id_nodes]
  exact (perm_definitions p.definitions).symm

lemma checkNoting_of_follows {p : Program} {keep : Mark → Noting Ty → Noting Ty}
    (hkeep : Follows keep fun _ => Agrees) (hnodup : (p.nodes.map Expr.id).Nodup) (ds : Diagnostics) :
    p.checkNoting keep ds = (p.check ds, p.reached) ∧
      ∀ id, ((p.check ds).1.types.get? id).isSome ↔ id ∈ p.reached := by
  have hfresh : Inspection.Fresh ⟨p.file, Analysis.initial p.exprCount, ds⟩ p.reached :=
    ⟨p.perm_reached.nodup_iff.mpr hnodup, fun id _ => get?_ofSize p.exprCount id⟩
  obtain ⟨hrun, hfills⟩ := hkeep.program p _ [] hfresh
  rcases hchecked : (Inspect.program p).run ⟨p.file, Analysis.initial p.exprCount, ds⟩ with ⟨result, final⟩
  rw [hchecked] at hrun hfills
  have hcheck : p.check ds = (final.analysis, final.diagnostics) := by rw [check, hchecked]
  rw [hcheck, checkNoting, hrun]
  refine ⟨rfl, fun id => ?_⟩
  have hempty : (Analysis.initial p.exprCount).types.get? id = none := get?_ofSize p.exprCount id
  have hid := hfills id
  rw [hempty] at hid
  simpa using hid

/-- The analysis of a program that has been read computes the type of every node exactly once, so it comes to
the same if no type is looked for first. Afterwards the nodes of the program have types, and nothing else. -/
theorem types_computed_once {tokens : List Token} {file : String} {p : Program}
    (h : (Program.ofTokens tokens file).1 = .ok p) (ds : Diagnostics) :
    (p.checkNoting lookedUp ds).1 = p.check ds ∧
      (p.checkNoting lookedUp ds).2.Perm (p.nodes.map Expr.id) ∧
      (∀ n ∈ p.nodes, (p.checkNoting lookedUp ds).2.count n.id = 1) ∧
      p.checkNoting afresh ds = p.checkNoting lookedUp ds ∧
      ∀ id, ((p.check ds).1.types.get? id).isSome ↔ ∃ n ∈ p.nodes, n.id = id := by
  have hnodup := (wellFormed_of_ofTokens h).nodup
  obtain ⟨hlookedUp, htypes⟩ := checkNoting_of_follows follows_lookedUp hnodup ds
  obtain ⟨hafresh, -⟩ := checkNoting_of_follows follows_afresh hnodup ds
  refine ⟨p.checkNoting_lookedUp ds, ?_, fun n hn => ?_, hafresh.trans hlookedUp.symm, fun id => ?_⟩
  · rw [hlookedUp]
    exact p.perm_reached
  · rw [hlookedUp, p.perm_reached.count_eq]
    exact count_eq_one_of_mem hnodup (mem_map_of_mem hn)
  · rw [htypes id, p.perm_reached.mem_iff, mem_map]

theorem types_computed_once_faulty :
    ∃ tokens p, Token.ofSource "rule r \x7b score g + y; \x7d num g := true;" "" = .ok tokens ∧
      (Program.ofTokens tokens "").1 = .ok p ∧
      ((p.checkNoting lookedUp {}).2 = [3, 0, 1, 2] ∧ (p.check {}).2.errors.map (fun d => d.fault.issue) =
        [.globalTypeMismatch "g" "NUM" "BOOL", .variableNotDeclared "y"]) ∧
      p.checkNoting afresh {} = p.checkNoting lookedUp {} ∧
      ∀ id, ((p.check {}).1.types.get? id).isSome ↔ ∃ n ∈ p.nodes, n.id = id := by
  have hrun : ((Token.ofSource "rule r \x7b score g + y; \x7d num g := true;" "").toOption.any fun tokens =>
      (Program.ofTokens tokens "").1.toOption.any fun p =>
        (p.checkNoting lookedUp {}).2 = [3, 0, 1, 2] ∧ (p.check {}).2.errors.map (fun d => d.fault.issue) =
          [.globalTypeMismatch "g" "NUM" "BOOL", .variableNotDeclared "y"]) = true := by
    decide +kernel
  obtain ⟨tokens, htokens, hrun⟩ := (Option.any_eq_true _ _).mp hrun
  obtain ⟨p, hread, htest⟩ := (Option.any_eq_true _ _).mp hrun
  have hread := ok_of_toOption hread
  obtain ⟨-, -, -, hafresh, htypes⟩ := types_computed_once hread {}
  exact ⟨tokens, p, ok_of_toOption htokens, hread, of_decide_eq_true htest, hafresh, htypes⟩

-- Two nodes with one number: the second one is found in the table, and its fault is not filed.
example : ((checkNoting ⟨"", [], [.global ⟨.num, "a", .identifier ⟨0, 1⟩ "y", 1⟩,
      .global ⟨.num, "b", .identifier ⟨0, 2⟩ "y", 2⟩], 1⟩ lookedUp {}).2,
    (checkNoting ⟨"", [], [.global ⟨.num, "a", .identifier ⟨0, 1⟩ "y", 1⟩,
      .global ⟨.num, "b", .identifier ⟨0, 2⟩ "y", 2⟩], 1⟩ afresh {}).2) = ([0], [0, 0]) := by
  decide +kernel

end Program

end ChessEval
