import ChessEval.Proofs.DeclaredRules
import ChessEval.Proofs.PartFilings
import ChessEval.Proofs.ScopeBalance

/-!
# Checking is modular

What is filed about a definition does not depend on the statements of the others. Two programs that differ in the body
of one definition are checked side by side here: outside of that body they file and record the same.
-/

namespace ChessEval

open List

variable {f : FunctionDef} {r : RuleDef} {s t : Inspection} {ds ds' : List Definition} {i : Nat}

namespace Definition

/-- The statements of a definition, which a global does not have. -/
def body : Definition → List Stmt
  | .global _ => []
  | .function f => f.body
  | .rule r => r.body

def emptied : Definition → Definition
  | .global g => .global g
  | .function f => .function { f with body := [] }
  | .rule r => .rule { r with body := [] }

/-- Definitions that differ in their statements at most. -/
def SameHeader (d d' : Definition) : Prop :=
  d'.emptied = d.emptied

namespace SameHeader

variable {d : Definition}

lemma global {g : GlobalDef} (h : SameHeader (.global g) d) : d = .global g := by
  cases d with
  | global g' => exact h
  | _ => cases h

lemma function (h : SameHeader (.function f) d) : ∃ body, d = .function { f with body := body } := by
  cases d with
  | function f' =>
    have hfields := Definition.function.inj h
    simp only [FunctionDef.mk.injEq, true_and] at hfields
    obtain ⟨htype, hname, hparams, hline⟩ := hfields
    exact ⟨f'.body, by rw [← htype, ← hname, ← hparams, ← hline]⟩
  | _ => cases h

lemma rule (h : SameHeader (.rule r) d) : ∃ body, d = .rule { r with body := body } := by
  cases d with
  | rule r' =>
    have hfields := Definition.rule.inj h
    simp only [RuleDef.mk.injEq, true_and] at hfields
    obtain ⟨hname, hoptions, hguard, hline⟩ := hfields
    exact ⟨r'.body, by rw [← hname, ← hoptions, ← hguard, ← hline]⟩
  | _ => cases h

end SameHeader

/-- Whether a definition is a function without a result. -/
def isVoid : Definition → Bool
  | .function f => f.returnType = .void
  | _ => false

end Definition

namespace Program

/-- Programs that differ at most in the statements of one definition and in the number of their nodes. -/
structure DifferIn (i : Nat) (p q : Program) : Prop where
  file : q.file = p.file
  config : q.config = p.config
  definitions : AgreeBut Definition.SameHeader i p.definitions q.definitions

def bodyAt (p : Program) (i : Nat) : List Stmt :=
  ((p.definitions[i]?).map Definition.body).getD []

lemma definitionIds_rule (r : RuleDef) :
    definitionIds (.rule r) = r.guard.toList.flatMap Expr.ids ++ Stmt.blockIds r.body :=
  flatMap_append

def emptiedAt (p : Program) (i : Nat) : Program :=
  { p with definitions := p.definitions.modify i Definition.emptied }

end Program

/-! ### Two programs side by side -/

namespace Inspection

/-- Analyses of programs that agree in the given nodes. -/
structure Similar (ids : Set Nat) (s t : Inspection) : Prop where
  indistinct : s.bare.Indistinct id Scope.SameNames ids t.bare
  rules : t.analysis.declarations.rules = s.analysis.declarations.rules

/-- Similar analyses between two definitions. -/
structure SideBySide (ids : Set Nat) (s t : Inspection) : Prop extends Similar ids s t where
  depth : s.analysis.declarations.depth = 0

variable {ids mine yours : Set Nat} {s t s' t' : Inspection}

lemma SideBySide.apart (h : s.SideBySide ids t) (hs : s.LocalTo mine s') (ht : t.LocalTo yours t')
    (hmine : ∀ id ∈ ids, id ∉ mine) (hyours : ∀ id ∈ ids, id ∉ yours)
    (hrules : s'.analysis.declarations.rules = s.analysis.declarations.rules)
    (hrules' : t'.analysis.declarations.rules = t.analysis.declarations.rules) : s'.SideBySide ids t' := by
  have hdepth : s'.analysis.declarations.depth = 0 := hs.depth.trans h.depth
  have hdepth' : t'.analysis.declarations.depth = 0 :=
    ht.depth.trans ((congrArg List.length h.indistinct.scopes).trans h.depth)
  obtain ⟨names, hnames⟩ := hs.globals
  obtain ⟨names', hnames'⟩ := ht.globals
  refine ⟨⟨⟨?_, ?_, ?_, fun name types => ?_, fun id hid => ?_, fun id hid => ?_, rfl⟩, ?_⟩, hdepth⟩
  · exact ht.file.trans (h.indistinct.file.trans hs.file.symm)
  · exact (length_eq_zero_iff.mp hdepth').trans (length_eq_zero_iff.mp hdepth).symm
  · change t'.analysis.declarations.globals.names = s'.analysis.declarations.globals.names
    rw [hnames, hnames', Scope.names_markAll, Scope.names_markAll]
    exact h.indistinct.globals
  · have hcalls := h.indistinct.calls name types
    rwa [analysis_bare, analysis_bare, ← Declarations.resolveCall_congr hs.functions,
      ← Declarations.resolveCall_congr ht.functions] at hcalls
  · exact (ht.types id (hyours id hid)).trans ((h.indistinct.types id hid).trans (hs.types id (hmine id hid)).symm)
  · exact (ht.headers id (hyours id hid)).trans
      ((h.indistinct.headers id hid).trans (hs.headers id (hmine id hid)).symm)
  · rw [hrules, hrules', h.rules]

end Inspection

namespace Inspect

variable {α β : Type} {ids : Set Nat}

/-- A step that similar analyses go through in the same way and in which no rule is declared. -/
structure Steady (ids : Set Nat) (x : Inspect α) : Prop where
  files : Files x
  lockstep : Lockstep id Scope.SameNames ids x
  rules : KeepsRules x

/-- A step that files the same for similar analyses and leaves them similar. -/
structure Same (ids : Set Nat) (x : Inspect Unit) : Prop where
  files : Files x
  filed : ∀ s t, s.Similar ids t → filed x t = filed x s
  similar : ∀ s t, s.Similar ids t → (x.run s).2.Similar ids (x.run t).2

section Steady

lemma Steady.bind {x : Inspect α} {f : α → Inspect β} (hx : Steady ids x) (hf : ∀ a, Steady ids (f a)) :
    Steady ids (x >>= f) :=
  ⟨hx.files.bind fun a => (hf a).files, hx.lockstep.bind fun a => (hf a).lockstep,
    keepsRules_closed.bind hx.rules fun a => (hf a).rules⟩

theorem steady_closed (ids : Set Nat) : ClosedBody {n | n.id ∈ ids} fun _ => Steady ids where
  pure a := ⟨files_pure a, lockstep_pure a, keepsRules_closed.pure a⟩
  bind := .bind
  report context issue hissue :=
    ⟨files_report context issue, lockstep_report context issue, keepsRules_closed.report context issue hissue⟩
  block context _ h := ⟨files_closed.block context _ h.files,
    (lockstep_closed id Scope.readAlike_sameNames ids).block context _ h.lockstep,
    keepsRules_closed.block context _ h.rules⟩
  declareVariable context name type line := ⟨files_declare _ _, lockstep_declareVariable context name type line,
    keepsRules_closed.declareVariable context name type line⟩
  nameType context name := ⟨files_closed.nameType context name,
    lockstep_nameType Scope.readAlike_sameNames context name, keepsRules_closed.nameType context name⟩
  callType context n _ name arguments h types := ⟨files_closed.callType context n trivial name arguments h types,
    lockstep_callType context n.id name arguments types,
    keepsRules_closed.callType context n trivial name arguments h types⟩
  recorded n hn compute h := ⟨files_closed.recorded n trivial compute h.files, lockstep_recorded hn h.lockstep,
    keepsRules_closed.recorded n trivial compute h.rules⟩

lemma steady_openScope : Steady ids openScope :=
  ⟨files_closed.openScope, lockstep_openScope, keepsRules_closed.openScope⟩

lemma steady_closeScope (context : Context) : Steady ids (closeScope context) :=
  ⟨files_closed.closeScope context, lockstep_closeScope context, keepsRules_closed.closeScope context⟩

lemma steady_wrongReturns {body : List Stmt} (hids : ∀ id ∈ Stmt.blockIds body, id ∈ ids) (context : Context)
    (expected : Ty) (label : String) : Steady ids (wrongReturns context expected label body) :=
  ⟨files_closed.wrongReturns _ _ _ _, lockstep_wrongReturns hids _ _ _, keepsRules_closed.wrongReturns _ _ _ _⟩

lemma steady_statements {body : List Stmt} (hids : ∀ id ∈ Stmt.blockIds body, id ∈ ids) (context : Context) :
    Steady ids (statements context body) :=
  (steady_closed ids).statements body (fun _ hs _ he _ hn => hids _ (Stmt.id_mem_blockIds hs he hn)) context

lemma Steady.same {x : Inspect Unit} (h : Steady ids x) : Same ids x := by
  refine ⟨h.files, fun s t hst => ?_, fun s t hst => ⟨(h.lockstep.filed h.files hst.indistinct).2, ?_⟩⟩
  · have hfiled := (h.lockstep.filed h.files hst.indistinct).1
    rwa [Diagnostics.seenBy_id, Diagnostics.seenBy_id] at hfiled
  · exact (h.rules t _ _ rfl).trans (hst.rules.trans (h.rules s _ _ rfl).symm)

lemma Same.bind {x y : Inspect Unit} (hx : Same ids x) (hy : Same ids y) : Same ids (x >>= fun _ => y) := by
  refine ⟨hx.files.bind fun _ => hy.files, fun s t h => ?_, fun s t h => hy.similar _ _ (hx.similar s t h)⟩
  rw [filed_bind hx.files fun _ => hy.files, filed_bind hx.files fun _ => hy.files, hx.filed s t h,
    hy.filed _ _ (hx.similar s t h)]

end Steady

section Passes

lemma same_declareRule (context : Context) (name : String) (schedule : Schedule) (line : Nat) :
    Same ids (declare context fun ds => ds.defineRule name schedule line) := by
  have hrule : ∀ s t : Inspection, s.Similar ids t →
      (t.analysis.declarations.rule? name).isSome = (s.analysis.declarations.rule? name).isSome := by
    intro s t h
    rw [Declarations.rule?, Declarations.rule?, h.rules]
  have hfiles := files_declare context fun ds => ds.defineRule name schedule line
  have hafter : ∀ s t : Inspection, s.Similar ids t →
      Inspection.Indistinct id Scope.SameNames ids
        ((declare context fun ds => ds.defineRule name schedule line).run s.bare).2
        ((declare context fun ds => ds.defineRule name schedule line).run t.bare).2 := fun s t h =>
    indistinct_declareRule h.indistinct (hrule s t h) rfl rfl
  refine ⟨hfiles, fun s t h => ?_, fun s t h => ⟨(hfiles.indistinct (hafter s t h)).2, ?_⟩⟩
  · have hfiled := (hfiles.indistinct (hafter s t h)).1
    rwa [Diagnostics.seenBy_id, Diagnostics.seenBy_id] at hfiled
  · rw [rules_declareRule, rules_declareRule, hrule s t h, h.rules]

/-- Definitions that a pass checks in parts without leaving traces for the others. -/
structure Modular (ids : Set Nat) (pass : Definition → Parts) : Prop where
  same : ∀ d, (∀ id ∈ Program.definitionIds d, id ∈ ids) → ∀ s t, s.SideBySide ids t →
    (pass d).filing t = (pass d).filing s ∧ ((pass d).all.run s).2.SideBySide ids ((pass d).all.run t).2
  changed : ∀ d d', d.SameHeader d' → (∀ id ∈ Program.definitionIds d.emptied, id ∈ ids) →
    (∀ id ∈ Stmt.blockIds d.body, id ∉ ids) → (∀ id ∈ Stmt.blockIds d'.body, id ∉ ids) →
    ∀ s t, s.SideBySide ids t → ((pass d).filing s).SameHead d.isVoid ((pass d').filing t) ∧
      ((pass d).all.run s).2.SideBySide ids ((pass d').all.run t).2

lemma Parts.Each.filing {parts : Parts} (h : parts.Each (Same ids)) (hst : s.Similar ids t) :
    parts.filing t = parts.filing s ∧ (parts.all.run s).2.Similar ids (parts.all.run t).2 := by
  have h₁ := h.head.similar s t hst
  have h₂ := h.body.similar _ _ h₁
  have h₃ := h.outcome.similar _ _ h₂
  refine ⟨?_, h.close.similar _ _ h₃⟩
  unfold Parts.filing
  dsimp only
  rw [h.head.filed s t hst, h.body.filed _ _ h₁, h.outcome.filed _ _ h₂, h.close.filed _ _ h₃]

lemma same_functionParts (hids : ∀ id ∈ Stmt.blockIds f.body, id ∈ ids) :
    (functionParts f).Each (Same ids) where
  head := (steady_openScope.bind fun _ =>
    (steady_closed ids).each fun _ _ => (steady_closed ids).declareVariable _ _ _ _).same
  body := ((steady_statements hids _).bind fun _ => (steady_wrongReturns hids _ _ _).bind fun _ =>
    (steady_closed ids).scoreLines _ _).same
  outcome := ((steady_closed ids).functionOutcome _ _).same
  close := (((steady_closed ids).unreachable _ _).bind fun _ => steady_closeScope _).same

lemma same_ruleHead (hids : ∀ id ∈ r.guard.toList.flatMap Expr.ids, id ∈ ids) : Same ids (ruleParts r).head := by
  have hguard : ∀ e ∈ r.guard, ∀ n ∈ e.nodes, n.id ∈ ids := fun e he _ hn =>
    hids _ (mem_flatMap.mpr ⟨e, Option.mem_toList.mpr he, Expr.id_mem_ids_of_mem hn⟩)
  exact ((steady_closed ids).wrongOptions _ _).same.bind
    ((same_declareRule _ _ _ _).bind ((steady_closed ids).guard _ _ _ hguard).same)

lemma same_ruleParts (hids : ∀ id ∈ r.guard.toList.flatMap Expr.ids ++ Stmt.blockIds r.body, id ∈ ids) :
    (ruleParts r).Each (Same ids) := by
  obtain ⟨hguard, hbody⟩ := forall_mem_append.mp hids
  exact {
    head := same_ruleHead hguard
    body := (steady_openScope.bind fun _ => (steady_statements hbody _).bind fun _ =>
      steady_wrongReturns hbody _ _ _).same
    outcome := ((steady_closed ids).reportUnless _ _ rfl).same
    close := (((steady_closed ids).unreachable _ _).bind fun _ => steady_closeScope _).same }

lemma depth_functionParts (f : FunctionDef) (s : Inspection) :
    ((functionParts f).all.run s).2.analysis.declarations.depth = s.analysis.declarations.depth := by
  have hlocal : Local Set.univ (functionParts f).all := by
    rw [all_functionParts]
    exact local_function fun _ _ => trivial
  exact (hlocal.run s).depth

lemma depth_ruleParts (r : RuleDef) (s : Inspection) :
    ((ruleParts r).all.run s).2.analysis.declarations.depth = s.analysis.declarations.depth := by
  have hlocal : Local Set.univ (ruleParts r).all := by
    rw [all_ruleParts]
    exact local_rule fun _ _ => trivial
  exact (hlocal.run s).depth

lemma filed_reportUnless (hfile : t.file = s.file) (condition : Bool) (context : Context) (issue : Issue) :
    filed (if !condition then report context issue else pure ()) t =
      filed (if !condition then report context issue else pure ()) s := by
  cases condition with
  | true => rfl
  | false =>
    change ({} : Diagnostics).add ⟨issue, context.line, t.file⟩ context.place =
      ({} : Diagnostics).add ⟨issue, context.line, s.file⟩ context.place
    rw [hfile]

/-- The statements of a function without a result make no difference to what is filed about its effect. -/
lemma filed_functionOutcome (hvoid : f.returnType = .void) (hfile : t.file = s.file) (body : List Stmt) :
    filed (functionOutcome (functionContext f) { f with body := body }) t =
      filed (functionOutcome (functionContext f) f) s := by
  unfold functionOutcome
  rw [if_pos hvoid, if_pos hvoid]
  exact filed_reportUnless hfile _ _ _

lemma changed_functionParts {body : List Stmt} (hmine : ∀ id ∈ Stmt.blockIds f.body, id ∉ ids)
    (hyours : ∀ id ∈ Stmt.blockIds body, id ∉ ids) (h : s.SideBySide ids t) :
    ((functionParts f).filing s).SameHead (decide (f.returnType = .void))
        ((functionParts { f with body := body }).filing t) ∧
      ((functionParts f).all.run s).2.SideBySide ids ((functionParts { f with body := body }).all.run t).2 := by
  have hfiles := files_functionPass (.function f)
  have hfiles' := files_functionPass (.function { f with body := body })
  have hhead : Same ids (functionParts f).head :=
    (steady_openScope.bind fun _ =>
      (steady_closed ids).each fun _ _ => (steady_closed ids).declareVariable _ _ _ _).same
  refine ⟨⟨hhead.filed s t h.toSimilar, fun hvoid => ?_⟩, ?_⟩
  · refine filed_functionOutcome (of_decide_eq_true hvoid) ?_ body
    exact (hfiles'.body.file _).trans ((hfiles'.head.file t).trans (h.indistinct.file.trans
      ((hfiles.body.file _).trans (hfiles.head.file s)).symm))
  · rw [all_functionParts, all_functionParts]
    have hkeeps : ∀ f : FunctionDef, KeepsRules (function f) := fun f =>
      keepsRules_closed.function f fun _ _ _ _ _ _ => trivial
    have hs : Local {id | id ∈ Stmt.blockIds f.body} (function f) := local_function fun _ hid => hid
    have ht : Local {id | id ∈ Stmt.blockIds body} (function { f with body := body }) :=
      local_function fun _ hid => hid
    exact h.apart (hs.run s) (ht.run t) (fun id hid hmem => hmine id hmem hid)
      (fun id hid hmem => hyours id hmem hid) ((hkeeps f).run s) ((hkeeps _).run t)

/-- What is left of the check of a rule once its header has been checked. -/
def ruleRest (r : RuleDef) : Inspect Unit := do
  (ruleParts r).body
  (ruleParts r).outcome
  (ruleParts r).close

lemma ruleRest_eq (r : RuleDef) : ruleRest r = block (.ofDefinition .rule r.name r.line) (ruleBody r) := by
  unfold ruleRest ruleParts block ruleBody
  cases blockScores r.body <;> simp

lemma local_ruleRest (r : RuleDef) : Local {id | id ∈ Stmt.blockIds r.body} (ruleRest r) := by
  have hclosed := local_closed {id | id ∈ Stmt.blockIds r.body}
  rw [ruleRest_eq]
  exact hclosed.block _ _ (hclosed.ruleBody r (fun _ hs _ he _ hn => Stmt.id_mem_blockIds hs he hn)
    fun _ _ _ => local_wrongReturns _ _ _ _)

lemma keepsRules_ruleRest (r : RuleDef) : KeepsRules (ruleRest r) := by
  rw [ruleRest_eq]
  exact keepsRules_closed.block _ _ (keepsRules_closed.ruleBody r (fun _ _ _ _ _ _ => trivial)
    fun _ _ _ => keepsRules_closed.wrongReturns _ _ _ _)

lemma changed_ruleParts {body : List Stmt} (hguard : ∀ id ∈ r.guard.toList.flatMap Expr.ids, id ∈ ids)
    (hmine : ∀ id ∈ Stmt.blockIds r.body, id ∉ ids) (hyours : ∀ id ∈ Stmt.blockIds body, id ∉ ids)
    (h : s.SideBySide ids t) : ((ruleParts r).filing s).SameHead false ((ruleParts { r with body := body }).filing t) ∧
      ((ruleParts r).all.run s).2.SideBySide ids ((ruleParts { r with body := body }).all.run t).2 := by
  have hhead := same_ruleHead hguard
  have hlocal : Local Set.univ (ruleParts r).head :=
    (local_reportAll _ _).bind fun _ => (local_declareRule _ _ _ _).bind fun _ => local_guard (fun _ _ => trivial) _
  have hafter : ((ruleParts r).head.run s).2.SideBySide ids ((ruleParts r).head.run t).2 :=
    ⟨hhead.similar s t h.toSimilar, (hlocal.run s).depth.trans h.depth⟩
  refine ⟨⟨hhead.filed s t h.toSimilar, fun hvoid => Bool.noConfusion hvoid⟩, ?_⟩
  exact hafter.apart ((local_ruleRest r).run _) ((local_ruleRest { r with body := body }).run _)
    (fun id hid hmem => hmine id hmem hid) (fun id hid hmem => hyours id hmem hid) ((keepsRules_ruleRest r).run _)
    ((keepsRules_ruleRest _).run _)

lemma modular_functionPass (ids : Set Nat) : Modular ids functionPass := by
  constructor
  · intro d hids s t h
    cases d with
    | function f =>
      obtain ⟨hfiling, hsimilar⟩ := (same_functionParts hids).filing h.toSimilar
      exact ⟨hfiling, hsimilar, (depth_functionParts f s).trans h.depth⟩
    | _ => exact ⟨rfl, h⟩
  · intro d d' hheader hids hmine hyours s t h
    cases d with
    | function f =>
      obtain ⟨body, rfl⟩ := Definition.SameHeader.function hheader
      exact changed_functionParts hmine hyours h
    | global g =>
      obtain rfl := Definition.SameHeader.global hheader
      exact ⟨⟨rfl, fun _ => rfl⟩, h⟩
    | rule r =>
      obtain ⟨body, rfl⟩ := Definition.SameHeader.rule hheader
      exact ⟨⟨rfl, fun _ => rfl⟩, h⟩

lemma modular_rulePass (ids : Set Nat) : Modular ids rulePass := by
  constructor
  · intro d hids s t h
    cases d with
    | rule r =>
      rw [Program.definitionIds_rule] at hids
      obtain ⟨hfiling, hsimilar⟩ := (same_ruleParts hids).filing h.toSimilar
      exact ⟨hfiling, hsimilar, (depth_ruleParts r s).trans h.depth⟩
    | _ => exact ⟨rfl, h⟩
  · intro d d' hheader hids hmine hyours s t h
    cases d with
    | rule r =>
      obtain ⟨body, rfl⟩ := Definition.SameHeader.rule hheader
      rw [Definition.emptied, Program.definitionIds_rule, Stmt.blockIds_nil, append_nil] at hids
      have hguard : ∀ id ∈ r.guard.toList.flatMap Expr.ids, id ∈ ids := hids
      exact changed_ruleParts hguard hmine hyours h
    | global g =>
      obtain rfl := Definition.SameHeader.global hheader
      exact ⟨⟨rfl, fun _ => rfl⟩, h⟩
    | function f =>
      obtain ⟨body, rfl⟩ := Definition.SameHeader.function hheader
      exact ⟨⟨rfl, fun _ => rfl⟩, h⟩

lemma filingEach_same {pass : Definition → Parts} (hpass : Modular ids pass)
    (hids : ∀ d ∈ ds, ∀ id ∈ Program.definitionIds d, id ∈ ids) (h : s.SideBySide ids t) :
    filingEach pass ds t = filingEach pass ds s ∧
      ((each (fun d => (pass d).all) ds).run s).2.SideBySide ids ((each (fun d => (pass d).all) ds).run t).2 := by
  induction ds generalizing s t with
  | nil => exact ⟨rfl, h⟩
  | cons d rest ih =>
    obtain ⟨hd, hrest⟩ := forall_mem_cons.mp hids
    obtain ⟨hfiling, hafter⟩ := hpass.same d hd s t h
    obtain ⟨hfilings, hall⟩ := ih hrest hafter
    exact ⟨by rw [filingEach, filingEach, hfiling, hfilings], hall⟩

/-- Passes over definitions that agree except in one body file the same except about that body. -/
theorem filingEach_agree {pass : Definition → Parts} (hpass : Modular ids pass)
    (hagree : AgreeBut Definition.SameHeader i ds ds')
    (hids : ∀ d ∈ ds.modify i Definition.emptied, ∀ id ∈ Program.definitionIds d, id ∈ ids)
    (hmine : ∀ d ∈ ds[i]?, ∀ id ∈ Stmt.blockIds d.body, id ∉ ids)
    (hyours : ∀ d ∈ ds'[i]?, ∀ id ∈ Stmt.blockIds d.body, id ∉ ids) {isVoid : Bool}
    (hvoid : ∀ d ∈ ds[i]?, d.isVoid = isVoid) (h : s.SideBySide ids t) :
    AgreeBut (Filing.SameHead isVoid) i (filingEach pass ds s) (filingEach pass ds' t) ∧
      ((each (fun d => (pass d).all) ds).run s).2.SideBySide ids ((each (fun d => (pass d).all) ds').run t).2 := by
  induction hagree generalizing s t with
  | nil i => exact ⟨.nil i, h⟩
  | @here d d' rest hheader =>
    rw [modify_zero_cons, forall_mem_cons] at hids
    have hd := hmine d rfl
    have hd' := hyours d' rfl
    obtain ⟨hhead, hafter⟩ := hpass.changed d d' hheader hids.1 hd hd' s t h
    obtain ⟨hfilings, hall⟩ := filingEach_same hpass hids.2 hafter
    rw [hvoid d rfl] at hhead
    refine ⟨?_, hall⟩
    rw [filingEach, filingEach, hfilings]
    exact .here _ hhead
  | @there i rest rest' d _ ih =>
    rw [modify_succ_cons, forall_mem_cons] at hids
    obtain ⟨hfiling, hafter⟩ := hpass.same d hids.1 s t h
    obtain ⟨hfilings, hall⟩ := ih hids.2 hmine hyours hvoid hafter
    refine ⟨?_, hall⟩
    rw [filingEach, filingEach, hfiling]
    exact .there _ hfilings

end Passes

end Inspect

/-! ### Before the bodies are checked -/

namespace Inspection

def withTypes (s : Inspection) (types : TypeTable) : Inspection :=
  { s with analysis := { s.analysis with types := types } }

lemma declarations_withTypes (s : Inspection) (types : TypeTable) :
    (s.withTypes types).analysis.declarations = s.analysis.declarations := rfl

lemma indistinct_withTypes {types : TypeTable} (h : ∀ id, types.get? id = s.analysis.types.get? id) :
    s.bare.Indistinct id Eq Set.univ (s.withTypes types).bare :=
  ⟨rfl, rfl, rfl, fun _ _ => rfl, fun id _ => h id, fun _ _ => rfl, rfl⟩

end Inspection

namespace Inspect

variable {α β : Type}

/-- A step that has nothing to do with the types of nodes. -/
def Untyped (x : Inspect α) : Prop :=
  ∀ s types, x.run (s.withTypes types) = ((x.run s).1, (x.run s).2.withTypes types)

lemma Untyped.bind {x : Inspect α} {f : α → Inspect β} (hx : Untyped x) (hf : ∀ a, Untyped (f a)) :
    Untyped (x >>= f) := by
  intro s types
  rw [run_andThen, hx s types, hf]
  rfl

lemma untyped_each {step : α → Inspect Unit} (h : ∀ a, Untyped (step a)) (items : List α) :
    Untyped (each step items) := by
  induction items with
  | nil => exact fun _ _ => rfl
  | cons a rest ih => exact (h a).bind fun _ => ih

lemma untyped_analysis {f : Analysis → Inspect α} (hsame : ∀ a types, f { a with types := types } = f a)
    (hf : ∀ a, Untyped (f a)) : Untyped (analysis >>= f) := by
  intro s types
  change (f { s.analysis with types := types }).run (s.withTypes types) = _
  rw [hsame, hf]
  rfl

lemma untyped_setting (entry : ConfigEntry) : Untyped (setting entry) := by
  refine untyped_analysis (fun _ _ => rfl) fun a => ?_
  split
  · exact fun _ _ => rfl
  · exact fun _ _ => rfl

lemma untyped_declare (context : Context) (change : Declarations → Except Issue Declarations) :
    Untyped (declare context change) := by
  refine untyped_analysis (fun _ _ => rfl) fun a => ?_
  split
  · exact fun _ _ => rfl
  · exact fun _ _ => rfl

lemma untyped_prepare (p : Program) : Untyped (prepare p) :=
  (untyped_each untyped_setting _).bind fun _ => untyped_each (fun _ => untyped_declare _ _) _

lemma untyped_header (d : Definition) : Untyped (header d) := by
  unfold header ofKind
  cases d.function? with
  | none => exact fun _ _ => rfl
  | some f => exact untyped_declare (functionContext f) fun ds =>
      ds.defineFunction f.name f.returnType (functionHeader f)

lemma Untyped.filed {x : Inspect α} (h : Untyped x) (s : Inspection) (types : TypeTable) :
    filed x (s.withTypes types) = filed x s := by
  have hrun := h s.bare types
  unfold Inspect.filed
  rw [show (s.withTypes types).bare = s.bare.withTypes types from rfl, hrun]
  rfl

lemma filedEach_untyped {step : α → Inspect Unit} (h : ∀ a, Untyped (step a)) (items : List α) (s : Inspection)
    (types : TypeTable) : filedEach step items (s.withTypes types) = filedEach step items s := by
  induction items generalizing s with
  | nil => rfl
  | cons a rest ih => rw [filedEach, filedEach, (h a).filed, h a s types, ih]

/-- Definitions with the same headers are the same to a step that does not look at statements. -/
lemma each_agree {step : Definition → Inspect Unit} (hstep : ∀ d d', d.SameHeader d' → step d' = step d)
    (h : AgreeBut Definition.SameHeader i ds ds') :
    each step ds' = each step ds ∧ ∀ s, filedEach step ds' s = filedEach step ds s := by
  induction h with
  | nil i => exact ⟨rfl, fun _ => rfl⟩
  | @here d d' rest hheader =>
    exact ⟨by rw [each, each, hstep d d' hheader], fun s => by rw [filedEach, filedEach, hstep d d' hheader]⟩
  | @there i rest rest' d _ ih =>
    exact ⟨by rw [each, each, ih.1], fun s => by rw [filedEach, filedEach, ih.2]⟩

lemma header_congr {d d' : Definition} (h : d.SameHeader d') : header d' = header d := by
  cases d with
  | global g => rw [h.global]
  | function f =>
    obtain ⟨body, rfl⟩ := h.function
    rfl
  | rule r =>
    obtain ⟨body, rfl⟩ := h.rule
    rfl

lemma globalValue_congr {d d' : Definition} (h : d.SameHeader d') : globalValue d' = globalValue d := by
  cases d with
  | global g => rw [h.global]
  | function f =>
    obtain ⟨body, rfl⟩ := h.function
    rfl
  | rule r =>
    obtain ⟨body, rfl⟩ := h.rule
    rfl

end Inspect

namespace Program

open Inspect

lemma perm_emptiedAt (ds : List Definition) (i : Nat) :
    (ds.flatMap definitionIds).Perm ((ds.modify i Definition.emptied).flatMap definitionIds ++
      Stmt.blockIds (((ds[i]?).map Definition.body).getD [])) := by
  induction ds generalizing i with
  | nil => simp [Stmt.blockIds_nil]
  | cons d rest ih =>
    cases i with
    | zero =>
      have hd : (definitionIds d).Perm (definitionIds d.emptied ++ Stmt.blockIds d.body) := by
        cases d with
        | global g => simp [Definition.emptied, Definition.body, Stmt.blockIds_nil]
        | function f => exact .refl _
        | rule r =>
          rw [Definition.emptied, definitionIds_rule, definitionIds_rule, Stmt.blockIds_nil, append_nil]
          exact .refl _
      rw [modify_zero_cons, flatMap_cons, flatMap_cons]
      refine (hd.append_right _).trans ?_
      rw [append_assoc, append_assoc]
      exact (perm_append_comm).append_left _
    | succ i =>
      rw [modify_succ_cons, flatMap_cons, flatMap_cons, append_assoc]
      exact (ih i).append_left _

lemma notMem_blockIds_bodyAt {p : Program} (h : (p.nodes.map Expr.id).Nodup) {id : Nat}
    (hid : id ∈ (p.emptiedAt i).nodes.map Expr.id) : id ∉ Stmt.blockIds (p.bodyAt i) := by
  rw [map_id_nodes] at h hid
  have hnodup := (perm_emptiedAt p.definitions i).nodup_iff.mp h
  exact fun hmem => disjoint_of_nodup_append hnodup hid hmem

lemma modify_emptied (h : AgreeBut Definition.SameHeader i ds ds') :
    ds'.modify i Definition.emptied = ds.modify i Definition.emptied := by
  induction h with
  | nil i => rfl
  | @here d d' rest hheader =>
    rw [modify_zero_cons, modify_zero_cons, show d'.emptied = d.emptied from hheader]
  | @there i rest rest' d _ ih => rw [modify_succ_cons, modify_succ_cons, ih]

section DifferIn

variable {p q : Program} {i : Nat} (h : p.DifferIn i q)
include h

lemma DifferIn.start : q.start = p.start.withTypes (.ofSize q.exprCount) := by
  unfold Program.start
  rw [h.file]
  rfl

lemma DifferIn.prepared : q.prepared = p.prepared.withTypes (.ofSize q.exprCount) := by
  have hprepare : prepare q = prepare p := by rw [prepare, prepare, h.config]
  rw [Program.prepared, Program.prepared, hprepare, h.start, untyped_prepare p p.start]

lemma DifferIn.introduced : q.introduced = p.introduced.withTypes (.ofSize q.exprCount) := by
  rw [introduced_eq, introduced_eq, (each_agree (fun _ _ => header_congr) h.definitions).1, h.prepared,
    untyped_each untyped_header p.definitions p.prepared]

lemma DifferIn.preparation : q.filings.preparation = p.filings.preparation := by
  have hprepare : prepare q = prepare p := by rw [prepare, prepare, h.config]
  simp only [filings]
  rw [hprepare, h.start, (untyped_prepare p).filed]

lemma DifferIn.headers : q.filings.headers = p.filings.headers := by
  simp only [filings]
  rw [(each_agree (fun _ _ => header_congr) h.definitions).2, h.prepared, filedEach_untyped untyped_header]

omit h in
lemma types_introduced (p : Program) : p.introduced.analysis.types = .ofSize p.exprCount := by
  have hstart : p.start = p.start.withTypes (.ofSize p.exprCount) := rfl
  rw [introduced_eq, Program.prepared, hstart, untyped_prepare p p.start,
    untyped_each untyped_header p.definitions]
  rfl

lemma DifferIn.indistinct_introduced : p.introduced.bare.Indistinct id Eq Set.univ q.introduced.bare := by
  rw [h.introduced]
  refine Inspection.indistinct_withTypes fun id => ?_
  rw [types_introduced, get?_ofSize, get?_ofSize]

omit h in
lemma lockstep_globalValue (d : Definition) : Lockstep id Eq Set.univ (globalValue d) := by
  cases d with
  | global g => exact lockstep_global fun _ _ => trivial
  | _ => exact lockstep_pure ()

lemma DifferIn.globals : q.filings.globals = p.filings.globals ∧
    p.grounded.bare.Indistinct id Eq Set.univ q.grounded.bare := by
  obtain ⟨heach, hfiled⟩ := each_agree (fun _ _ => globalValue_congr) h.definitions
  obtain ⟨hsame, hafter⟩ := filedEach_lockstep (fun d (_ : d ∈ p.definitions) => lockstep_globalValue d)
    files_globalValue h.indistinct_introduced
  simp only [Diagnostics.seenBy_id, map_id'] at hsame
  refine ⟨(hfiled _).trans hsame, ?_⟩
  rw [grounded_eq, grounded_eq, heach]
  exact hafter

omit h in
lemma keepsRules_globalValue (d : Definition) : KeepsRules (globalValue d) := by
  cases d with
  | global g => exact keepsRules_closed.global g fun _ _ => trivial
  | _ => exact keepsRules_closed.pure ()

lemma DifferIn.grounded (ids : Set Nat) : p.grounded.SideBySide ids q.grounded := by
  have hglobals := h.globals.2
  have hkeeps : KeepsRules (each globalValue p.definitions) :=
    keepsRules_closed.each fun d _ => keepsRules_globalValue d
  refine ⟨⟨⟨hglobals.file, hglobals.scopes, ?_, hglobals.calls, fun id _ => hglobals.types id trivial,
    fun id _ => hglobals.headers id trivial, hglobals.diagnostics⟩, ?_⟩, p.depth_grounded⟩
  · exact congrArg Scope.names hglobals.globals.symm
  · rw [grounded_eq, grounded_eq, (each_agree (fun _ _ => globalValue_congr) h.definitions).1, hkeeps.run,
      hkeeps.run, h.introduced, Inspection.declarations_withTypes]

end DifferIn

/-! ### The whole check -/

/-- Programs that differ in the body of one function or rule are checked in the same way outside of it: what is filed
agrees except about the statements in that body and the globals that are never read, and the same is recorded at every
node that is not in the body. -/
theorem checking_is_modular {p q : Program} {i : Nat} (h : p.DifferIn i q) (hp : (p.nodes.map Expr.id).Nodup)
    (hq : (q.nodes.map Expr.id).Nodup) (ds : Diagnostics) :
    ((p.check ds).2 = ds ++ p.filings.all ∧ (q.check ds).2 = ds ++ q.filings.all) ∧
    p.filings.AgreeBut i ((p.definitions[i]?).any Definition.isVoid) q.filings ∧
    (∀ r ∈ [p, q], r.filings.unread = ⟨[], (r.check ds).1.declarations.unusedGlobals.map fun entry =>
      ⟨⟨.unusedGlobal entry.1, entry.2, r.file⟩, none⟩⟩) ∧
    ∀ n ∈ (p.emptiedAt i).nodes, (q.check ds).1.types.get? n.id = (p.check ds).1.types.get? n.id ∧
      (q.check ds).1.header? n.id = (p.check ds).1.header? n.id := by
  -- the nodes at which the analyses are compared
  let ids : Set Nat := {id | id ∉ Stmt.blockIds (p.bodyAt i) ∧ id ∉ Stmt.blockIds (q.bodyAt i)}
  have hsame : (q.emptiedAt i).nodes = (p.emptiedAt i).nodes := by
    unfold emptiedAt nodes exprs
    rw [modify_emptied h.definitions]
  have houtside : ∀ id ∈ (p.emptiedAt i).nodes.map Expr.id, id ∈ ids := fun id hid =>
    ⟨notMem_blockIds_bodyAt hp hid, notMem_blockIds_bodyAt hq (hsame ▸ hid)⟩
  have hids : ∀ d ∈ p.definitions.modify i Definition.emptied, ∀ id ∈ definitionIds d, id ∈ ids := by
    intro d hd id hid
    apply houtside
    rw [map_id_nodes]
    exact mem_flatMap.mpr ⟨d, hd, hid⟩
  have hbody : ∀ r : Program, ∀ d ∈ r.definitions[i]?, r.bodyAt i = d.body := by
    intro r d hd
    rw [bodyAt, Option.mem_def.mp hd]
    rfl
  have hmine : ∀ d ∈ p.definitions[i]?, ∀ id ∈ Stmt.blockIds d.body, id ∉ ids := fun d hd id hid hmem =>
    hmem.1 (hbody p d hd ▸ hid)
  have hyours : ∀ d ∈ q.definitions[i]?, ∀ id ∈ Stmt.blockIds d.body, id ∉ ids := fun d hd id hid hmem =>
    hmem.2 (hbody q d hd ▸ hid)
  have hvoid : ∀ d ∈ p.definitions[i]?, d.isVoid = (p.definitions[i]?).any Definition.isVoid := by
    intro d hd
    rw [Option.mem_def.mp hd]
    rfl
  obtain ⟨hfunctions, hafter⟩ := filingEach_agree (modular_functionPass ids) h.definitions hids hmine hyours hvoid
    (h.grounded ids)
  rw [← functionsChecked_eq, ← functionsChecked_eq] at hafter
  obtain ⟨hrules, hfinal⟩ := filingEach_agree (modular_rulePass ids) h.definitions hids hmine hyours hvoid hafter
  rw [← rulesChecked_eq, ← rulesChecked_eq] at hfinal
  refine ⟨⟨p.check_filings ds, q.check_filings ds⟩, ⟨h.preparation, h.headers, h.globals.1, hfunctions, hrules⟩,
    fun r _ => r.unread_check ds, fun n hn => ?_⟩
  have hn' := houtside n.id (mem_map_of_mem hn)
  rw [analysis_check, analysis_check]
  exact ⟨hfinal.indistinct.types n.id hn', hfinal.indistinct.headers n.id hn'⟩

/-- A global, a function with the given body, and a rule with two faults. -/
def flagged (body : List Stmt) : Program where
  file := ""
  config := []
  definitions := [
    .global ⟨.bool, "flag", .literal ⟨0, 1⟩ (.boolean true), 1⟩,
    .function ⟨.bool, "f", [⟨.bool, "x", false, 2⟩], body, 2⟩,
    .rule ⟨"r", [], none, [.score (.call ⟨2, 3⟩ "f" [.identifier ⟨1, 3⟩ "y"]) 3], 3⟩]
  exprCount := 4

/-- One body reads the global and the other the parameter. The faults of the rule are filed in both programs. -/
theorem checking_is_modular_flagged :
    ∃ p q : Program, (p = flagged [.returns (some (.identifier ⟨3, 2⟩ "flag")) 2] ∧
        q = flagged [.returns (some (.identifier ⟨3, 2⟩ "x")) 2]) ∧
      (p.DifferIn 1 q ∧ (p.nodes.map Expr.id).Nodup ∧ (q.nodes.map Expr.id).Nodup) ∧
      (p.check {}).2.errors.map (fun d => d.fault.issue) = [.variableNotDeclared "y", .scoreNotNum "BOOL"] ∧
      (p.check {}).2.warnings.map (fun d => d.fault.issue) = [.unusedVariable "x"] ∧
      (q.check {}).2.warnings.map (fun d => d.fault.issue) = [.unusedGlobal "flag"] ∧
      p.filings.AgreeBut 1 false q.filings ∧
      ∀ n ∈ (p.emptiedAt 1).nodes, (q.check {}).1.types.get? n.id = (p.check {}).1.types.get? n.id ∧
        (q.check {}).1.header? n.id = (p.check {}).1.header? n.id := by
  refine ⟨_, _, ⟨rfl, rfl⟩, ?_⟩
  have hdiffer : (flagged [.returns (some (.identifier ⟨3, 2⟩ "flag")) 2]).DifferIn 1
      (flagged [.returns (some (.identifier ⟨3, 2⟩ "x")) 2]) :=
    ⟨rfl, rfl, .there _ (.here _ rfl)⟩
  have hids : ((flagged [.returns (some (.identifier ⟨3, 2⟩ "flag")) 2]).nodes.map Expr.id).Nodup ∧
      ((flagged [.returns (some (.identifier ⟨3, 2⟩ "x")) 2]).nodes.map Expr.id).Nodup := by
    decide +kernel
  obtain ⟨-, hfilings, -, hrecorded⟩ := checking_is_modular hdiffer hids.1 hids.2 {}
  exact ⟨⟨hdiffer, hids⟩, by decide +kernel, by decide +kernel, by decide +kernel, hfilings, hrecorded⟩

end Program

end ChessEval
