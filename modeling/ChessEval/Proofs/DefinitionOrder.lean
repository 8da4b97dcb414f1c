import ChessEval.Proofs.DeclaredRules
import ChessEval.Proofs.Progress
import ChessEval.Proofs.Registration
import ChessEval.Proofs.ScopeBalance

/-!
# The order of definitions

Functions and rules can be defined in any order. They are registered in any order, and the checks of two of them
do not get in each other's way: they work at different nodes, they declare rules of different names, and that
one of them has read a global makes no difference to the other.
-/

namespace ChessEval

open List

namespace Diagnostics

/-- Diagnostics with errors or without them, and with the same warnings. -/
structure Agree (ds others : Diagnostics) : Prop where
  errors : others.errors = [] ↔ ds.errors = []
  warnings : others.warnings.Perm ds.warnings

variable {ds ds' others others' : Diagnostics} {φ : Issue → Issue}

lemma Agree.refl (ds : Diagnostics) : ds.Agree ds :=
  ⟨Iff.rfl, .refl _⟩

lemma Agree.append (h : ds.Agree ds') (hothers : others.Agree others') : (ds ++ others).Agree (ds' ++ others') := by
  refine ⟨?_, h.warnings.append hothers.warnings⟩
  rw [errors_append, errors_append, append_eq_nil_iff, append_eq_nil_iff, h.errors, hothers.errors]

lemma agree_join {all all' : List Diagnostics} (h : (all'.map (·.seenBy φ)).Perm (all.map (·.seenBy φ))) :
    (join all).Agree (join all') := by
  have herrors : ∀ all : List Diagnostics, (join all).errors = [] ↔ ∀ ds ∈ all.map (·.seenBy φ), ds.errors = [] := by
    intro all
    simp [errors_join, seenBy]
  have hwarnings : ∀ all : List Diagnostics, (join all).warnings = (all.map (·.seenBy φ)).flatMap warnings := by
    intro all
    rw [warnings_join, flatMap_map]
    rfl
  constructor
  · rw [herrors, herrors]
    exact forall_congr' fun ds => imp_congr_left h.mem_iff
  · rw [hwarnings, hwarnings]
    exact h.flatMap_right _

end Diagnostics

namespace Inspection

def hasRule (s : Inspection) (name : String) : Bool :=
  (s.analysis.declarations.rule? name).isSome

def recordedAt (s : Inspection) (id : Nat) : Option Ty × Option Header :=
  (s.analysis.types.get? id, s.analysis.header? id)

/-- Analyses between two definitions that differ in the order of what has been declared. -/
structure Matches (s t : Inspection) : Prop where
  indistinct : s.bare.Indistinct Issue.unlisted Eq Set.univ t.bare
  rules : ∀ name, t.hasRule name = s.hasRule name
  depth : s.analysis.declarations.depth = 0

variable {ids others : Set Nat} {s t u : Inspection} {φ : Issue → Issue} {γ : Scope → Scope → Prop} {id : Nat}

lemma Matches.trans (h : s.Matches t) (h' : t.Matches u) : s.Matches u where
  indistinct := ⟨h'.indistinct.file.trans h.indistinct.file, h'.indistinct.scopes.trans h.indistinct.scopes,
    h.indistinct.globals.trans h'.indistinct.globals,
    fun name types => (h'.indistinct.calls name types).trans (h.indistinct.calls name types),
    fun id hid => (h'.indistinct.types id hid).trans (h.indistinct.types id hid),
    fun id hid => (h'.indistinct.headers id hid).trans (h.indistinct.headers id hid), rfl⟩
  rules name := (h'.rules name).trans (h.rules name)
  depth := h.depth

lemma Matches.refl (h : s.analysis.declarations.depth = 0) : s.Matches s :=
  ⟨⟨rfl, rfl, rfl, fun _ _ => rfl, fun _ _ => rfl, fun _ _ => rfl, rfl⟩, fun _ => rfl, h⟩

lemma Matches.depth_right (h : s.Matches t) : t.analysis.declarations.depth = 0 :=
  (congrArg List.length h.indistinct.scopes).trans h.depth

lemma Indistinct.recordedAt (h : s.bare.Indistinct φ γ ids t.bare) (hid : id ∈ ids) :
    t.recordedAt id = s.recordedAt id :=
  Prod.ext (h.types id hid) (h.headers id hid)

lemma LocalTo.recordedAt (h : s.LocalTo ids t) (hid : id ∉ ids) : t.recordedAt id = s.recordedAt id :=
  Prod.ext (h.types id hid) (h.headers id hid)

lemma LocalTo.indistinct (h : s.LocalTo ids t) (hdepth : s.analysis.declarations.depth = 0)
    (hothers : ∀ id ∈ others, id ∉ ids) {names : List String}
    (hnames : t.analysis.declarations.globals = s.analysis.declarations.globals.markAll names) :
    s.bare.Indistinct φ (fun x y => y = x.markAll names) others t.bare := by
  refine ⟨h.file, ?_, hnames, fun name types => ?_, fun id hid => h.types id (hothers id hid),
    fun id hid => h.headers id (hothers id hid), rfl⟩
  · have hdepth' := h.depth.trans hdepth
    exact (length_eq_zero_iff.mp hdepth').trans (length_eq_zero_iff.mp hdepth).symm
  · rw [analysis_bare, analysis_bare, Declarations.resolveCall_congr h.functions]

end Inspection

namespace Inspect

variable {α : Type}

/-- What a step leaves behind: the nodes at which it records something, and the names of the rules that it declares. -/
structure Traces where
  ids : List Nat
  rules : List String

/-- Steps that leave nothing behind in the same place. -/
structure Traces.Apart (a b : Traces) : Prop where
  ids : a.ids.Disjoint b.ids
  rules : a.rules.Disjoint b.rules

lemma Traces.Apart.symm {a b : Traces} (h : a.Apart b) : b.Apart a :=
  ⟨h.ids.symm, h.rules.symm⟩

/-- A step that leaves behind what is stated, and to which nothing else makes a difference. -/
structure Leaves (a : Traces) (x : Inspect Unit) : Prop where
  files : Files x
  bounded : Local {id | id ∈ a.ids} x
  hasRule : ∀ s name, (x.run s).2.hasRule name = (s.hasRule name || a.rules.contains name)
  lockstep : ∀ {φ : Issue → Issue} {γ : Scope → Scope → Prop} {ids : Set Nat}, Scope.ReadAlike γ →
    (∀ id ∈ a.ids, id ∈ ids) → ∀ {s t : Inspection}, s.Indistinct φ γ ids t →
      (∀ name ∈ a.rules, t.hasRule name = s.hasRule name) → (x.run s).2.Indistinct φ γ ids (x.run t).2

section Leaves

variable {a b : Traces} {x y : Inspect Unit} {s t : Inspection}

lemma Leaves.indistinct {φ : Issue → Issue} {γ : Scope → Scope → Prop} {ids : Set Nat} (hx : Leaves a x)
    (hγ : Scope.ReadAlike γ) (hids : ∀ id ∈ a.ids, id ∈ ids) (h : s.bare.Indistinct φ γ ids t.bare)
    (hrules : ∀ name ∈ a.rules, t.hasRule name = s.hasRule name) :
    (filed x t).seenBy φ = (filed x s).seenBy φ ∧ (x.run s).2.bare.Indistinct φ γ ids (x.run t).2.bare :=
  hx.files.indistinct (hx.lockstep hγ hids h hrules)

lemma Leaves.matches (hx : Leaves a x) (h : s.Matches t) :
    (filed x t).seenBy Issue.unlisted = (filed x s).seenBy Issue.unlisted ∧ (x.run s).2.Matches (x.run t).2 := by
  obtain ⟨hfiled, hafter⟩ := hx.indistinct Scope.readAlike_eq (fun _ _ => trivial) h.indistinct
    fun name _ => h.rules name
  refine ⟨hfiled, hafter, fun name => ?_, (hx.bounded.run s).depth.trans h.depth⟩
  rw [hx.hasRule, hx.hasRule, h.rules]

lemma Leaves.undisturbed (hx : Leaves a x) (hy : Leaves b y) (hapart : a.Apart b)
    (hdepth : s.analysis.declarations.depth = 0) {names : List String}
    (hnames : (x.run s).2.analysis.declarations.globals = s.analysis.declarations.globals.markAll names) :
    filed y (x.run s).2 = filed y s ∧
      (y.run s).2.bare.Indistinct id (fun u v => v = u.markAll names) {id | id ∈ b.ids} (y.run (x.run s).2).2.bare := by
  have hindistinct : s.bare.Indistinct id (fun u v => v = u.markAll names) {id | id ∈ b.ids} (x.run s).2.bare :=
    (hx.bounded.run s).indistinct hdepth (fun id hb ha => hapart.ids ha hb) hnames
  have hrules : ∀ name ∈ b.rules, (x.run s).2.hasRule name = s.hasRule name := by
    intro name hname
    have hnot : a.rules.contains name = false := by
      simpa using fun ha => hapart.rules ha hname
    rw [hx.hasRule, hnot, Bool.or_false]
  obtain ⟨hfiled, hafter⟩ := hy.indistinct (Scope.readAlike_markAll names) (fun _ hid => hid) hindistinct hrules
  rw [Diagnostics.seenBy_id, Diagnostics.seenBy_id] at hfiled
  exact ⟨hfiled, hafter⟩

/-- Two steps that leave nothing behind in the same place can change places. -/
theorem Leaves.comm (hx : Leaves a x) (hy : Leaves b y) (hapart : a.Apart b)
    (hdepth : s.analysis.declarations.depth = 0) :
    filed y (x.run s).2 = filed y s ∧ filed x (y.run s).2 = filed x s ∧
      (y.run (x.run s).2).2.Matches (x.run (y.run s).2).2 := by
  have hs := hx.bounded.run s
  have ht := hy.bounded.run s
  have hst := hy.bounded.run (x.run s).2
  have hts := hx.bounded.run (y.run s).2
  obtain ⟨names, hnames⟩ := hs.globals
  obtain ⟨names', hnames'⟩ := ht.globals
  obtain ⟨hfiled, hafter⟩ := hx.undisturbed hy hapart hdepth hnames
  obtain ⟨hfiled', hafter'⟩ := hy.undisturbed hx hapart.symm hdepth hnames'
  have hdepthxy := hst.depth.trans (hs.depth.trans hdepth)
  have hdepthyx := hts.depth.trans (ht.depth.trans hdepth)
  have hrecorded : ∀ id, (x.run (y.run s).2).2.recordedAt id = (y.run (x.run s).2).2.recordedAt id := by
    intro id
    -- at its own nodes each step records what it records alone, and elsewhere nothing
    by_cases ha : id ∈ a.ids
    · exact (hafter'.recordedAt ha).trans (hst.recordedAt (hapart.ids ha)).symm
    · by_cases hb : id ∈ b.ids
      · exact (hts.recordedAt ha).trans (hafter.recordedAt hb).symm
      · exact (hts.recordedAt ha).trans ((ht.recordedAt hb).trans ((hst.recordedAt hb).trans (hs.recordedAt ha)).symm)
  refine ⟨hfiled, hfiled', ⟨?_, ?_, ?_, fun name types => ?_, fun id _ => ?_, fun id _ => ?_, rfl⟩, fun name => ?_,
    hdepthxy⟩
  · exact (hts.file.trans ht.file).trans (hst.file.trans hs.file).symm
  · exact (length_eq_zero_iff.mp hdepthyx).trans (length_eq_zero_iff.mp hdepthxy).symm
  · -- whatever one of the steps has read counts as read for the other
    have hxy : (y.run (x.run s).2).2.analysis.declarations.globals =
        (s.analysis.declarations.globals.markAll names').markAll names := hnames' ▸ hafter.globals
    have hyx : (x.run (y.run s).2).2.analysis.declarations.globals =
        (s.analysis.declarations.globals.markAll names).markAll names' := hnames ▸ hafter'.globals
    change (y.run (x.run s).2).2.analysis.declarations.globals = (x.run (y.run s).2).2.analysis.declarations.globals
    rw [hxy, hyx, Scope.markAll_comm]
  · rw [Inspection.analysis_bare, Inspection.analysis_bare,
      Declarations.resolveCall_congr (hts.functions.trans ht.functions),
      Declarations.resolveCall_congr (hst.functions.trans hs.functions)]
  · exact congrArg Prod.fst (hrecorded id)
  · exact congrArg Prod.snd (hrecorded id)
  · rw [hx.hasRule, hy.hasRule, hy.hasRule, hx.hasRule, Bool.or_assoc, Bool.or_assoc,
      Bool.or_comm (b.rules.contains name)]

lemma filedEach_matches {step : α → Inspect Unit} {traces : α → Traces} (hstep : ∀ a, Leaves (traces a) (step a))
    (items : List α) {s t : Inspection} (h : s.Matches t) :
    (filedEach step items t).map (·.seenBy Issue.unlisted) = (filedEach step items s).map (·.seenBy Issue.unlisted) ∧
      ((each step items).run s).2.Matches ((each step items).run t).2 := by
  induction items generalizing s t with
  | nil => exact ⟨rfl, h⟩
  | cons a rest ih =>
    obtain ⟨hfiled, hafter⟩ := (hstep a).matches h
    obtain ⟨hfiled', hall⟩ := ih hafter
    exact ⟨by rw [filedEach, filedEach, map_cons, map_cons, hfiled, hfiled'], hall⟩

/-- Steps that leave nothing behind in the same place can be taken in any order. -/
theorem filedEach_perm {step : α → Inspect Unit} {traces : α → Traces} {items items' : List α}
    (hperm : items.Perm items') (hstep : ∀ a, Leaves (traces a) (step a))
    (hapart : items.Pairwise fun a b => (traces a).Apart (traces b)) {s t : Inspection} (h : s.Matches t) :
    ((filedEach step items' t).map (·.seenBy Issue.unlisted)).Perm
        ((filedEach step items s).map (·.seenBy Issue.unlisted)) ∧
      ((each step items).run s).2.Matches ((each step items').run t).2 := by
  induction hperm generalizing s t with
  | nil => exact ⟨.refl _, h⟩
  | cons a _ ih =>
    obtain ⟨hfiled, hafter⟩ := (hstep a).matches h
    obtain ⟨hperm, hall⟩ := ih (pairwise_cons.mp hapart).2 hafter
    refine ⟨?_, hall⟩
    rw [filedEach, filedEach, map_cons, map_cons, hfiled]
    exact hperm.cons _
  | swap a b rest =>
    -- first the two change places in the run from `s`, then the run goes over to `t`
    obtain ⟨hb, -⟩ := pairwise_cons.mp hapart
    have hba : (traces b).Apart (traces a) := hb a mem_cons_self
    obtain ⟨hfileda, hfiledb, hcomm⟩ := (hstep b).comm (hstep a) hba h.depth
    obtain ⟨hfileda', hafter⟩ := (hstep a).matches h
    obtain ⟨hfiledb', hafter'⟩ := (hstep b).matches hafter
    obtain ⟨hfiled, hall⟩ := filedEach_matches hstep rest (hcomm.trans hafter')
    refine ⟨?_, hall⟩
    simp only [filedEach, map_cons]
    rw [hfileda, hfileda', hfiledb', hfiledb, hfiled]
    exact .swap _ _ _
  | trans hperm _ ih ih' =>
    obtain ⟨hfiled, hafter⟩ := ih hapart h
    obtain ⟨hfiled', hafter'⟩ := ih' ((hperm.pairwise_iff fun h => h.symm).mp hapart) (.refl h.depth_right)
    exact ⟨hfiled'.trans hfiled, hafter.trans hafter'⟩

def functionTraces (f : FunctionDef) : Traces :=
  ⟨Stmt.blockIds f.body, []⟩

def ruleTraces (r : RuleDef) : Traces :=
  ⟨r.guard.toList.flatMap Expr.ids ++ Stmt.blockIds r.body, [r.name]⟩

lemma KeepsRules.hasRule {β : Type} {x : Inspect β} (h : KeepsRules x) (s : Inspection) (name : String) :
    (x.run s).2.hasRule name = s.hasRule name := by
  rw [Inspection.hasRule, Inspection.hasRule, Declarations.rule?, Declarations.rule?, h.run s]

lemma leaves_function (f : FunctionDef) : Leaves (functionTraces f) (function f) where
  files := files_function f
  bounded := local_function fun _ hid => hid
  hasRule s name := by
    rw [(keepsRules_closed.function f fun _ _ _ _ _ _ => trivial).hasRule]
    exact (Bool.or_false _).symm
  lockstep hγ hids _ _ h _ := (lockstep_function hγ hids _ _ _ _ _ _ h rfl rfl).2

lemma hasRule_declareRule (context : Context) (name : String) (schedule : Schedule) (line : Nat) (s : Inspection)
    (other : String) :
    ((declare context fun ds => ds.defineRule name schedule line).run s).2.hasRule other =
      (s.hasRule other || [name].contains other) := by
  rw [Inspection.hasRule, Declarations.rule?, rules_declareRule, Inspection.hasRule]
  by_cases hother : other = name
  · subst hother
    split
    · rename_i hrule
      simpa [Declarations.rule?] using hrule
    · simp [find?_append]
  · split
    · simp [Declarations.rule?, hother]
    · simp [Declarations.rule?, find?_append, hother, Ne.symm hother]

/-- Declares a rule once its options have been looked at. -/
def ruleHeader (r : RuleDef) : Inspect Unit := do
  reportAll (.ofDefinition .rule r.name r.line) (wrongOptions [] r.options)
  declare (.ofDefinition .rule r.name r.line) fun ds => ds.defineRule r.name (schedule r.options) r.line

lemma run_rule (r : RuleDef) (s : Inspection) : (rule r).run s = (declaredRule r).run ((ruleHeader r).run s).2 := rfl

lemma keepsRules_wrongOptions (r : RuleDef) :
    KeepsRules (reportAll (.ofDefinition .rule r.name r.line) (wrongOptions [] r.options)) :=
  keepsRules_closed.wrongOptions _ _

lemma hasRule_ruleHeader (r : RuleDef) (s : Inspection) (name : String) :
    ((ruleHeader r).run s).2.hasRule name = (s.hasRule name || [r.name].contains name) := by
  rw [ruleHeader, run_andThen, hasRule_declareRule, (keepsRules_wrongOptions r).hasRule]

lemma indistinct_ruleHeader {φ : Issue → Issue} {γ : Scope → Scope → Prop} {ids : Set Nat} {r : RuleDef}
    (h : s.Indistinct φ γ ids t) (hrule : t.hasRule r.name = s.hasRule r.name) :
    ((ruleHeader r).run s).2.Indistinct φ γ ids ((ruleHeader r).run t).2 := by
  obtain ⟨-, hoptions⟩ := lockstep_reportAll (.ofDefinition .rule r.name r.line) (wrongOptions [] r.options)
    _ _ _ _ _ _ h rfl rfl
  refine indistinct_declareRule hoptions ?_ rfl rfl
  exact ((keepsRules_wrongOptions r).hasRule t _).trans (hrule.trans ((keepsRules_wrongOptions r).hasRule s _).symm)

lemma leaves_rule (r : RuleDef) : Leaves (ruleTraces r) (rule r) where
  files := files_rule r
  bounded := local_rule fun _ hid => hid
  hasRule s name := by
    have hdeclared : KeepsRules (declaredRule r) :=
      keepsRules_closed.declaredRule r (fun _ _ _ _ => trivial) fun _ _ _ _ _ _ => trivial
    rw [run_rule, hdeclared.hasRule, hasRule_ruleHeader]
    rfl
  lockstep hγ hids s t h hrules := by
    have hheader := indistinct_ruleHeader h (hrules r.name mem_cons_self)
    rw [run_rule, run_rule]
    exact (lockstep_declaredRule hγ hids _ _ _ _ _ _ hheader rfl rfl).2

end Leaves

section Registration

variable {s : Inspection} {fs gs : List FunctionDef}

lemma admitsAll_of_filed (h : (filed (each registerFunction fs) s).errors = []) :
    s.analysis.declarations.AdmitsAll fs :=
  @admitsAll_of_registerFunctions s.bare _ _ _ (run_unit _ _) h

lemma filed_registerFunctions (h : s.analysis.declarations.AdmitsAll fs) :
    filed (each registerFunction fs) s = {} := by
  obtain ⟨d, -, hrun⟩ := @run_registerFunctions s.bare fs h
  rw [filed, hrun]
  rfl

/-- It makes no difference to the calls in a program in which order the functions are registered. -/
lemma indistinct_registerFunctions (h : s.analysis.declarations.AdmitsAll fs) (hperm : gs.Perm fs) :
    ((each registerFunction fs).run s).2.bare.Indistinct Issue.unlisted Eq Set.univ
      ((each registerFunction gs).run s).2.bare := by
  obtain ⟨d, hd, hrun⟩ := run_registerFunctions h
  obtain ⟨e, he, hrun'⟩ := run_registerFunctions (h.perm hperm)
  rw [hrun, hrun']
  refine ⟨rfl, he.scopes.trans hd.scopes.symm, hd.globals.trans he.globals.symm, fun name types => ?_, fun _ _ => rfl,
    fun _ _ => rfl, rfl⟩
  obtain ⟨htype, hheaders⟩ := Declarations.Introduces.perm hperm h.compatible hd he name
  exact Declarations.resolveCall_perm htype hheaders types

end Registration

end Inspect

namespace Program

open Inspect

/-- Programs with the same definitions, in orders that differ in the functions and rules at most. -/
structure Reorders (p q : Program) : Prop where
  file : q.file = p.file
  config : q.config = p.config
  exprCount : q.exprCount = p.exprCount
  definitions : q.definitions.Perm p.definitions
  globals : q.globals = p.globals

section Reorders

variable {p q : Program}

lemma Reorders.symm (h : p.Reorders q) : q.Reorders p :=
  ⟨h.file.symm, h.config.symm, h.exprCount.symm, h.definitions.symm, h.globals.symm⟩

lemma Reorders.functions (h : p.Reorders q) : q.functions.Perm p.functions :=
  h.definitions.filterMap _

lemma Reorders.rules (h : p.Reorders q) : q.rules.Perm p.rules :=
  h.definitions.filterMap _

lemma Reorders.nodup (h : p.Reorders q) (hnodup : (p.nodes.map Expr.id).Nodup) : (q.nodes.map Expr.id).Nodup := by
  rw [map_id_nodes] at hnodup ⊢
  exact (h.definitions.flatMap_right _).nodup_iff.mpr hnodup

lemma Reorders.start (h : p.Reorders q) : q.start = p.start := by
  rw [Program.start, Program.start, h.file, h.exprCount]

lemma Reorders.prepare (h : p.Reorders q) : prepare q = prepare p := by
  rw [Inspect.prepare, Inspect.prepare, h.config]

lemma Reorders.prepared (h : p.Reorders q) : q.prepared = p.prepared := by
  rw [Program.prepared, Program.prepared, h.prepare, h.start]

lemma apart_of_nodup (hnodup : (p.nodes.map Expr.id).Nodup) :
    (p.functions.Pairwise fun f g => (functionTraces f).Apart (functionTraces g)) ∧
      p.rules.Pairwise fun r r' => (ruleTraces r).ids.Disjoint (ruleTraces r').ids := by
  rw [map_id_nodes, (perm_definitions p.definitions).nodup_iff] at hnodup
  have hrest := (nodup_append.mp hnodup).2.1
  obtain ⟨hfunctions, hrules, -⟩ := nodup_append.mp hrest
  refine ⟨(nodup_flatMap.mp hfunctions).2.imp fun h => ⟨h, disjoint_nil_left _⟩, ?_⟩
  exact (nodup_flatMap.mp hrules).2

lemma hasRule_grounded (p : Program) (name : String) : p.grounded.hasRule name = p.prepared.hasRule name := by
  have hregister : KeepsRules (each registerFunction p.functions) :=
    keepsRules_closed.each fun _ _ => keepsRules_declare _ fun _ _ => rules_defineFunction
  have hglobals : KeepsRules (each Inspect.global p.globals) :=
    keepsRules_closed.each fun g _ => keepsRules_closed.global g fun _ _ => trivial
  rw [grounded, hglobals.hasRule, introduced, hregister.hasRule]

lemma admitsAll_of_check (hclean : (p.check {}).2.errors = []) :
    p.prepared.analysis.declarations.AdmitsAll p.functions := by
  rw [diagnostics_check] at hclean
  simp only [Diagnostics.errors_append, append_eq_nil_iff] at hclean
  exact admitsAll_of_filed hclean.2.2.1

lemma Reorders.grounded (h : p.Reorders q) (hclean : (p.check {}).2.errors = []) :
    (filed (each Inspect.global p.globals) p.introduced).Agree (filed (each Inspect.global q.globals) q.introduced) ∧
      p.grounded.Matches q.grounded := by
  have hindistinct : p.introduced.bare.Indistinct Issue.unlisted Eq Set.univ q.introduced.bare := by
    rw [introduced, introduced, h.prepared]
    exact indistinct_registerFunctions (admitsAll_of_check hclean) h.functions
  have hstep : ∀ g ∈ p.globals, Lockstep Issue.unlisted Eq Set.univ (Inspect.global g) := fun g _ =>
    lockstep_global fun _ _ => trivial
  obtain ⟨hfiled, hafter⟩ := filedEach_lockstep hstep files_global hindistinct
  rw [h.globals, filed_each files_global, filed_each files_global]
  refine ⟨Diagnostics.agree_join (.of_eq hfiled), ?_, fun name => ?_, p.depth_grounded⟩
  · rw [Program.grounded, Program.grounded, h.globals]
    exact hafter
  · rw [hasRule_grounded, hasRule_grounded, h.prepared]

/-- Programs that differ in the order of functions and rules file the same, up to the order, and end in analyses that
cannot be told apart. -/
theorem Reorders.agree (h : p.Reorders q) (hnodup : (p.nodes.map Expr.id).Nodup)
    (hclean : (p.check {}).2.errors = []) :
    (p.check {}).2.Agree (q.check {}).2 ∧ p.rulesChecked.Matches q.rulesChecked := by
  obtain ⟨hfunctionsApart, hrulesApart⟩ := apart_of_nodup hnodup
  have hnames : p.rules.Pairwise fun r r' => r.name ≠ r'.name :=
    pairwise_map.mp (rules_of_check (p := p) (Prod.mk.eta).symm hclean).2
  have hadmits := admitsAll_of_check hclean
  obtain ⟨hglobals, hgrounded⟩ := h.grounded hclean
  obtain ⟨hfunctions, hchecked⟩ := filedEach_perm h.functions.symm leaves_function hfunctionsApart hgrounded
  obtain ⟨hrules, hfinal⟩ := filedEach_perm h.rules.symm leaves_rule
    (hrulesApart.and hnames |>.imp fun ⟨hids, hname⟩ => ⟨hids, by simpa [ruleTraces] using Ne.symm hname⟩) hchecked
  have hunread : filed unusedGlobals q.rulesChecked = filed unusedGlobals p.rulesChecked := by
    have hglobals : p.rulesChecked.analysis.declarations.globals = q.rulesChecked.analysis.declarations.globals :=
      hfinal.indistinct.globals
    rw [filed_unusedGlobals, filed_unusedGlobals, file_rulesChecked, file_rulesChecked, h.file,
      Declarations.unusedGlobals, Declarations.unusedGlobals, hglobals]
  refine ⟨?_, hfinal⟩
  rw [diagnostics_check, diagnostics_check, h.prepare, h.start, h.prepared, filed_registerFunctions hadmits,
    filed_registerFunctions (hadmits.perm h.functions), hunread, filed_each files_function, filed_each files_function,
    filed_each files_rule, filed_each files_rule]
  exact (Diagnostics.Agree.refl _).append ((Diagnostics.Agree.refl _).append ((Diagnostics.Agree.refl _).append
    (hglobals.append ((Diagnostics.agree_join hfunctions).append
      ((Diagnostics.agree_join hrules).append (.refl _))))))

/-- A program is checked without errors in all orders of its functions and rules or in none, and if it is, then with
the same warnings, and with the same types and headers recorded at its nodes. -/
theorem definitions_in_any_order {source file : String} (hread : Program.ofSource source file = .ok p)
    (h : p.Reorders q) (ds : Diagnostics) :
    ((q.check ds).2.errors = ds.errors ↔ (p.check ds).2.errors = ds.errors) ∧
    ((p.check ds).2.errors = ds.errors → (q.check ds).2.warnings.Perm (p.check ds).2.warnings ∧
      ∀ id, (q.check ds).1.types.get? id = (p.check ds).1.types.get? id ∧
        (q.check ds).1.header? id = (p.check ds).1.header? id) := by
  obtain ⟨tokens, htokens⟩ := tokens_of_ofSource hread
  have hnodup := (wellFormed_of_ofTokens htokens).nodup
  simp only [errors_check]
  refine ⟨⟨fun hclean => ?_, fun hclean => ?_⟩, fun hclean => ⟨?_, fun id => ?_⟩⟩
  · exact (h.symm.agree (h.nodup hnodup) hclean).1.errors.mpr hclean
  · exact (h.agree hnodup hclean).1.errors.mpr hclean
  · rw [check_append q, check_append p]
    exact (h.agree hnodup hclean).1.warnings.append_left _
  · obtain ⟨-, hmatches⟩ := h.agree hnodup hclean
    rw [analysis_check, analysis_check]
    exact ⟨hmatches.indistinct.types id trivial, hmatches.indistinct.headers id trivial⟩

/-- Functions that are used before and after their definitions, and two headers of one function. -/
theorem definitions_in_any_order_reversed :
    ∃ source p q, Program.ofSource source "" = .ok p ∧
      q = { p with definitions := p.definitions.reverse } ∧ p.Reorders q ∧
      (p.check {}).2.errors = [] ∧
      (p.check {}).2.warnings.map (fun d => d.fault.issue) =
        [.unusedVariable "a", .unusedVariable "b", .unusedVariable "c"] ∧
      (q.check {}).2.warnings.map (fun d => d.fault.issue) =
        [.unusedVariable "c", .unusedVariable "b", .unusedVariable "a"] ∧
      (q.check {}).2.errors = [] ∧ (q.check {}).2.warnings.Perm (p.check {}).2.warnings ∧
      ∀ id, (q.check {}).1.types.get? id = (p.check {}).1.types.get? id ∧
        (q.check {}).1.header? id = (p.check {}).1.header? id := by
  have hrun : ((Program.ofSource ("num f(num a) \x7b return h(1) + h(true); \x7d num g := 1; " ++
      "num h(num b) \x7b return g; \x7d num h(bool c) \x7b return 2; \x7d rule r \x7b score f(1); \x7d")
      "").toOption.any fun p =>
        p.globals.length = 1 ∧ (p.check {}).2.errors = [] ∧
        (p.check {}).2.warnings.map (fun d => d.fault.issue) =
          [.unusedVariable "a", .unusedVariable "b", .unusedVariable "c"] ∧
        (({ p with definitions := p.definitions.reverse } : Program).check {}).2.warnings.map (fun d => d.fault.issue) =
          [.unusedVariable "c", .unusedVariable "b", .unusedVariable "a"]) = true := by
    decide +kernel
  obtain ⟨p, hread, htest⟩ := (Option.any_eq_true _ _).mp hrun
  obtain ⟨hglobals, hclean, hwarnings, hwarnings'⟩ := of_decide_eq_true htest
  have hreorders : p.Reorders { p with definitions := p.definitions.reverse } := by
    refine ⟨rfl, rfl, rfl, reverse_perm _, ?_⟩
    obtain ⟨g, hg⟩ := length_eq_one_iff.mp hglobals
    rw [Program.globals] at hg ⊢
    rw [filterMap_reverse, hg, reverse_singleton, Program.globals, hg]
  obtain ⟨hiff, hsame⟩ := definitions_in_any_order (of_toOption hread) hreorders {}
  exact ⟨_, p, _, of_toOption hread, rfl, hreorders, hclean, hwarnings, hwarnings', hiff.mpr hclean, hsame hclean⟩

end Reorders

end Program

end ChessEval
