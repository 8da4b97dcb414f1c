import ChessEval.Proofs.Lockstep

/-!
# Types and issues of an expression, from the declarations alone

What an analysis finds in an expression depends on the declarations only: every node has a type, also a node with a
fault, and issues of its own, which follow from the types of its operands.
-/

namespace ChessEval

open List

namespace Ty

/-- The type that is recorded where a check of operands was made. -/
def recovered : Except OperandError Ty → Ty
  | .ok type => type
  | .error _ => .generic

def operandIssues : Except OperandError Ty → List Issue
  | .ok _ => []
  | .error e => [.operatorType e.message]

/-- The element type of a list after one more element, which is passed over if it does not fit. -/
def mergeFitting (merged element : Ty) : Ty :=
  if element ≠ .void ∧ merged.unifies element = true then merged.merge element else merged

def elementIssues (merged element : Ty) : List Issue :=
  if element = .void then [.voidListElement]
  else if merged.unifies element then [] else [.listElementMismatch merged.name element.name]

/-- The issues that the elements of a list bring up, given the element type of those before. -/
def listIssues (merged : Ty) : List Ty → List Issue
  | [] => []
  | type :: rest => merged.elementIssues type ++ (merged.mergeFitting type).listIssues rest

end Ty

namespace Declarations

def callResult (d : Declarations) (name : String) (types : List Ty) : Ty :=
  match d.resolveCall name types with
  | .ok resolved => resolved.returnType
  | .error _ => .generic

def callIssues (d : Declarations) (name : String) (arguments : List Expr) (types : List Ty) : List Issue :=
  match d.resolveCall name types with
  | .ok resolved => Inspect.wrongReferences name 1 arguments resolved.header.byReference
  | .error issue => [issue]

end Declarations

namespace Expr

mutual

def typeIn (d : Declarations) : Expr → Ty
  | .literal _ value => value.type
  | .identifier _ name => (d.names.find? name).getD .generic
  | .binary _ operator left right => Ty.recovered (operator.type (left.typeIn d) (right.typeIn d))
  | .unary _ operator operand => Ty.recovered (operator.type (operand.typeIn d))
  | .call _ name arguments => d.callResult name (typesIn d arguments)
  | .member _ base field => d.callResult field [base.typeIn d]
  | .index _ base _ => Ty.recovered (base.typeIn d).element?
  | .list _ elements => .array ((typesIn d elements).foldl Ty.mergeFitting .generic)
  | .emptyList _ => .emptyArray

def typesIn (d : Declarations) : List Expr → List Ty
  | [] => []
  | e :: rest => e.typeIn d :: typesIn d rest

end

lemma typesIn_eq (d : Declarations) (es : List Expr) : typesIn d es = es.map (typeIn d) := by
  induction es with
  | nil => rfl
  | cons e rest ih => rw [typesIn, ih, map_cons]

def ownIssues (d : Declarations) : Expr → List Issue
  | .literal .. | .emptyList _ => []
  | .identifier _ name => if (d.names.find? name).isSome then [] else [.variableNotDeclared name]
  | .binary _ operator left right => Ty.operandIssues (operator.type (left.typeIn d) (right.typeIn d))
  | .unary _ operator operand => Ty.operandIssues (operator.type (operand.typeIn d))
  | .call _ name arguments => d.callIssues name arguments (arguments.map (typeIn d))
  | .member _ base field => d.callIssues field [base] [base.typeIn d]
  | .index _ base position =>
    (if (position.typeIn d).isNum then [] else [.indexNotNum (position.typeIn d).name]) ++
      Ty.operandIssues (base.typeIn d).element?
  | .list _ elements => Ty.listIssues .generic (elements.map (typeIn d))

/-- The issues of the topmost node with their line. -/
def issuesHere (d : Declarations) (e : Expr) : List (Issue × Nat) :=
  (e.ownIssues d).map fun issue => (issue, e.line)

def issues (d : Declarations) (e : Expr) : List (Issue × Nat) :=
  e.nodes.flatMap (issuesHere d)

lemma issues_eq (d : Declarations) (e : Expr) : e.issues d = e.children.flatMap (issues d) ++ e.issuesHere d := by
  unfold issues
  rw [nodes_eq, flatMap_append, flatMap_singleton, flatMap_assoc]

end Expr

namespace Inspection

/-- The analysis knows the names and functions of the given declarations. -/
structure Knows (s : Inspection) (d : Declarations) : Prop where
  names : s.names = d.names
  functions : s.analysis.declarations.functions = d.functions

/-- A later analysis, in which types have been recorded at some nodes at most, and some errors have been filed. -/
structure Finds (place : Option String) (ids : List Nat) (issues : List (Issue × Nat)) (s s' : Inspection) :
    Prop where
  file : s'.file = s.file
  names : s'.names = s.names
  functions : s'.analysis.declarations.functions = s.analysis.declarations.functions
  types : ∀ id ∉ ids, s'.analysis.types.get? id = s.analysis.types.get? id
  warnings : s'.diagnostics.warnings = s.diagnostics.warnings
  errors : ∃ filed : List (Issue × Nat), filed.Perm issues ∧ s'.diagnostics.errors = s.diagnostics.errors ++
    filed.map fun entry => ⟨⟨entry.1, entry.2, s.file⟩, place⟩

section Finds

variable {place : Option String} {ids ids' : List Nat} {issues issues' : List (Issue × Nat)} {s t u : Inspection}
  {d : Declarations}

lemma Finds.refl (place : Option String) (s : Inspection) : s.Finds place [] [] s :=
  ⟨rfl, rfl, rfl, fun _ _ => rfl, rfl, [], .nil, (append_nil _).symm⟩

lemma Finds.trans (hst : s.Finds place ids issues t) (htu : t.Finds place ids' issues' u) :
    s.Finds place (ids ++ ids') (issues ++ issues') u := by
  obtain ⟨filed, hperm, herrors⟩ := hst.errors
  obtain ⟨filed', hperm', herrors'⟩ := htu.errors
  refine ⟨htu.file.trans hst.file, htu.names.trans hst.names, htu.functions.trans hst.functions, fun id hid => ?_,
    htu.warnings.trans hst.warnings, filed ++ filed', hperm.append hperm', ?_⟩
  · rw [mem_append, not_or] at hid
    exact (htu.types id hid.2).trans (hst.types id hid.1)
  · rw [herrors', herrors, hst.file, map_append, append_assoc]

lemma Finds.perm (h : s.Finds place ids issues t) (hperm : issues.Perm issues') : s.Finds place ids issues' t := by
  obtain ⟨filed, hfiled, herrors⟩ := h.errors
  exact ⟨h.file, h.names, h.functions, h.types, h.warnings, filed, hfiled.trans hperm, herrors⟩

lemma Finds.knows (h : s.Finds place ids issues t) (hs : s.Knows d) : t.Knows d :=
  ⟨h.names.trans hs.names, h.functions.trans hs.functions⟩

lemma Finds.fresh (h : s.Finds place ids issues t) (hfresh : s.Fresh (ids ++ ids')) : t.Fresh ids' := by
  refine ⟨(nodup_append.mp hfresh.1).2.1, fun id hid => ?_⟩
  rw [h.types id fun hmem => hfresh.disjoint hmem hid]
  exact hfresh.2 id (mem_append_right _ hid)

end Finds

end Inspection

namespace Declarations

lemma find?_of_read_none {d : Declarations} {name : String} (h : d.read name = none) : d.names.find? name = none := by
  unfold read at h
  cases hvar : readVariable name d.scopes with
  | some found => simp [hvar] at h
  | none =>
    rw [hvar] at h
    rw [names, readVariable_none hvar]
    simp [NameTypes.find?, Scope.lookup_names, Option.map_eq_none_iff.mp h]

end Declarations

namespace Inspect

variable {s s' : Inspection} {context : Context} {line : Nat} {d : Declarations} {type : Ty}

section Steps

lemma finds_report {issue : Issue} {result : Unit} (hissue : issue.isWarning = false)
    (h : (report (context.moveTo line) issue).run s = (result, s')) : s.Finds context.place [] [(issue, line)] s' := by
  cases h
  refine ⟨rfl, rfl, rfl, fun _ _ => rfl, ?_, [(issue, line)], .refl _, ?_⟩
  · change (Diagnostics.add _ _ _).warnings = _
    simp [Diagnostics.add, hissue]
  · change (Diagnostics.add _ _ _).errors = _
    simp only [Diagnostics.add, hissue, Bool.false_eq_true, if_false]
    rfl

lemma finds_reportEach {issues : List Issue} {result : Unit} (hissues : ∀ issue ∈ issues, issue.isWarning = false)
    (h : (reportEach (context.moveTo line) issues).run s = (result, s')) :
    s.Finds context.place [] (issues.map fun issue => (issue, line)) s' := by
  induction issues generalizing s with
  | nil =>
    cases h
    exact .refl _ _
  | cons issue rest ih =>
    obtain ⟨hissue, hrest⟩ := forall_mem_cons.mp hissues
    obtain ⟨_, t, ht, h⟩ := runState_bind.mp h
    exact (finds_report hissue ht).trans (ih hrest h)

lemma finds_operatorResult {result : Except OperandError Ty}
    (h : (operatorResult (context.moveTo line) result).run s = (type, s')) :
    type = Ty.recovered result ∧
      s.Finds context.place [] ((Ty.operandIssues result).map fun issue => (issue, line)) s' := by
  cases result with
  | ok t =>
    cases h
    exact ⟨rfl, .refl _ _⟩
  | error e =>
    obtain ⟨_, t, ht, h⟩ := runState_bind.mp h
    cases h
    exact ⟨rfl, finds_report rfl ht⟩

lemma finds_nameType {m : Mark} {name : String} (hs : s.Knows d)
    (h : (nameType (context.moveTo m.line) name).run s = (type, s')) :
    type = (Expr.identifier m name).typeIn d ∧
      s.Finds context.place [] ((Expr.identifier m name).issuesHere d) s' := by
  replace h := of_analysis h
  unfold Expr.issuesHere
  rw [Expr.typeIn, Expr.ownIssues, ← hs.names]
  split at h
  · rename_i found declarations hread
    cases h
    obtain ⟨hfind, hnames, hfunctions, -⟩ := Declarations.read_some hread
    rw [Inspection.names, hfind]
    exact ⟨rfl, rfl, hnames, hfunctions, fun _ _ => rfl, rfl, [], .nil, (append_nil _).symm⟩
  · rename_i hread
    obtain ⟨_, t, ht, h⟩ := runState_bind.mp h
    cases h
    rw [Inspection.names, Declarations.find?_of_read_none hread]
    exact ⟨rfl, finds_report rfl ht⟩

lemma finds_callType {id : Nat} {name : String} {arguments : List Expr} {types : List Ty} (hs : s.Knows d)
    (h : (callType (context.moveTo line) id name arguments types).run s = (type, s')) :
    type = d.callResult name types ∧
      s.Finds context.place [] ((d.callIssues name arguments types).map fun issue => (issue, line)) s' := by
  replace h := of_analysis h
  rw [Declarations.resolveCall_congr hs.functions] at h
  rw [Declarations.callResult, Declarations.callIssues]
  split at h
  · rename_i issue hresolve
    rw [hresolve]
    obtain ⟨_, t, ht, h⟩ := runState_bind.mp h
    cases h
    exact ⟨rfl, finds_report (Declarations.isError_resolveCall hresolve).error ht⟩
  · rename_i resolved hresolve
    rw [hresolve]
    obtain ⟨_, t, ht, h⟩ := runState_bind.mp h
    have hfinds := finds_reportEach (fun _ h => (isError_wrongReferences _ h).error) ht
    cases h
    exact ⟨rfl, hfinds.file, hfinds.names, hfinds.functions, hfinds.types, hfinds.warnings, hfinds.errors⟩

lemma finds_mergeElement {merged element : Ty}
    (h : (mergeElement (context.moveTo line) merged element).run s = (type, s')) :
    type = merged.mergeFitting element ∧
      s.Finds context.place [] ((merged.elementIssues element).map fun issue => (issue, line)) s' := by
  unfold mergeElement at h
  unfold Ty.mergeFitting Ty.elementIssues
  split at h
  · rename_i hvoid
    obtain ⟨_, t, ht, h⟩ := runState_bind.mp h
    cases h
    rw [if_neg fun h => h.1 hvoid, if_pos hvoid]
    exact ⟨rfl, finds_report rfl ht⟩
  · rename_i hvoid
    rw [if_neg hvoid]
    split at h
    · rename_i hunify
      cases h
      rw [if_pos ⟨hvoid, hunify⟩, if_pos hunify]
      exact ⟨rfl, .refl _ _⟩
    · rename_i hunify
      obtain ⟨_, t, ht, h⟩ := runState_bind.mp h
      cases h
      rw [if_neg fun h => hunify h.2, if_neg hunify]
      exact ⟨rfl, finds_report rfl ht⟩

end Steps

/-- What the analysis of several expressions has done that came to them for the first time. -/
structure Appraised (d : Declarations) (place : Option String) (es : List Expr) (s s' : Inspection) : Prop where
  finds : s.Finds place (es.flatMap Expr.ids) (es.flatMap (Expr.issues d)) s'
  types : ∀ e ∈ es, ∀ n ∈ e.nodes, s'.analysis.types.get? n.id = some (n.typeIn d)

section Appraised

variable {place : Option String} {t u : Inspection} {e : Expr} {es rest : List Expr} {types : List Ty} {merged : Ty}

lemma Appraised.nil (d : Declarations) (place : Option String) (s : Inspection) : Appraised d place [] s s :=
  ⟨.refl place s, fun _ he => absurd he not_mem_nil⟩

lemma types_of_finds {ids : List Nat} {issues : List (Issue × Nat)} (hfinds : t.Finds place ids issues u)
    (hnew : ∀ id ∈ e.ids, id ∉ ids) (h : ∀ n ∈ e.nodes, t.analysis.types.get? n.id = some (n.typeIn d)) :
    ∀ n ∈ e.nodes, u.analysis.types.get? n.id = some (n.typeIn d) := by
  intro n hn
  rw [hfinds.types _ (hnew _ (Expr.id_mem_ids_of_mem hn))]
  exact h n hn

lemma Appraised.cons (hfresh : s.Fresh ((e :: rest).flatMap Expr.ids)) (he : Appraised d place [e] s t)
    (hrest : Appraised d place rest t u) : Appraised d place (e :: rest) s u := by
  rw [flatMap_cons] at hfresh
  refine ⟨by simpa using he.finds.trans hrest.finds, ?_⟩
  intro e' he'
  rcases mem_cons.mp he' with rfl | he'
  · exact types_of_finds hrest.finds (fun id hid => hfresh.disjoint hid) (he.types _ mem_cons_self)
  · exact hrest.types e' he'

/-- A node has been worked at when its operands have been, its own issues are filed with theirs, and its type is
recorded. -/
lemma appraised_node (hfresh : s.Fresh e.ids) (hfinds : s.Finds place (e.children.flatMap Expr.ids)
      (e.children.flatMap (Expr.issues d) ++ e.issuesHere d) u)
    (htypes : ∀ c ∈ e.children, ∀ n ∈ c.nodes, u.analysis.types.get? n.id = some (n.typeIn d))
    (hs' : s' = { u with analysis := { u.analysis with types := u.analysis.types.record e.id (e.typeIn d) } }) :
    Appraised d place [e] s s' := by
  rw [Expr.ids_eq] at hfresh
  have hempty : u.analysis.types.get? e.id = none := (hfinds.fresh hfresh).2 e.id mem_cons_self
  have hget : ∀ id, s'.analysis.types.get? id = if id = e.id then some (e.typeIn d) else u.analysis.types.get? id := by
    intro id
    rw [hs']
    exact u.analysis.types.get?_record e.id id (e.typeIn d) hempty
  have hrecord : u.Finds place [e.id] [] s' := by
    refine ⟨by rw [hs'], by rw [hs']; rfl, by rw [hs'], fun id hid => ?_, by rw [hs'], [], .nil, by rw [hs']; simp⟩
    rw [hget, if_neg fun h => hid (mem_singleton.mpr h)]
  constructor
  · rw [flatMap_singleton, flatMap_singleton, Expr.ids_eq, Expr.issues_eq]
    simpa using hfinds.trans hrecord
  · intro e' he' n hn
    obtain rfl := mem_singleton.mp he'
    rw [hget]
    rcases Expr.mem_nodes.mp hn with rfl | ⟨c, hc, hn⟩
    · exact if_pos rfl
    · have hmem : n.id ∈ e'.children.flatMap Expr.ids := mem_flatMap.mpr ⟨c, hc, Expr.id_mem_ids_of_mem hn⟩
      rw [if_neg fun h => hfresh.disjoint hmem (mem_singleton.mpr h)]
      exact htypes c hc n hn

lemma Appraised.node (hfresh : s.Fresh e.ids) (hchildren : Appraised d place e.children s t)
    (hown : t.Finds place [] (e.issuesHere d) u)
    (hs' : s' = { u with analysis := { u.analysis with types := u.analysis.types.record e.id (e.typeIn d) } }) :
    Appraised d place [e] s s' := by
  refine appraised_node hfresh ?_ (fun c hc => ?_) hs'
  · simpa using hchildren.finds.trans hown
  · exact types_of_finds hown (fun _ _ => not_mem_nil) (hchildren.types c hc)

/-- An analysis that comes to the expression for the first time records its types and files its issues. -/
def AppraisesAs (d : Declarations) (context : Context) (e : Expr) : Prop :=
  ∀ s type s', (exprType context e).run s = (type, s') → s.Fresh e.ids → s.Knows d →
    type = e.typeIn d ∧ Appraised d context.place [e] s s'

lemma appraised_of_exprTypes (ih : ∀ e ∈ es, AppraisesAs d context e) (h : (exprTypes context es).run s = (types, s'))
    (hfresh : s.Fresh (es.flatMap Expr.ids)) (hs : s.Knows d) :
    types = es.map (Expr.typeIn d) ∧ Appraised d context.place es s s' := by
  induction es generalizing s types with
  | nil =>
    cases h
    exact ⟨rfl, .nil _ _ _⟩
  | cons e rest ihrest =>
    rw [exprTypes, runState_bind] at h
    obtain ⟨first, t, hfirst, h⟩ := h
    rw [runState_bind] at h
    obtain ⟨others, u, hothers, h⟩ := h
    cases h
    obtain ⟨ihe, ih⟩ := forall_mem_cons.mp ih
    have hparts : s.Fresh (e.ids ++ rest.flatMap Expr.ids) := hfresh
    obtain ⟨rfl, he⟩ := ihe s first t hfirst hparts.left hs
    have hfinds := he.finds
    rw [flatMap_singleton] at hfinds
    obtain ⟨rfl, hrest⟩ := ihrest ih hothers (hfinds.fresh hparts) (hfinds.knows hs)
    exact ⟨rfl, .cons hfresh he hrest⟩

lemma finds_elementsType (ih : ∀ e ∈ es, AppraisesAs d context e)
    (h : (elementsType context (context.moveTo line) merged es).run s = (type, s'))
    (hfresh : s.Fresh (es.flatMap Expr.ids)) (hs : s.Knows d) :
    type = (es.map (Expr.typeIn d)).foldl Ty.mergeFitting merged ∧
      s.Finds context.place (es.flatMap Expr.ids) (es.flatMap (Expr.issues d) ++
        (merged.listIssues (es.map (Expr.typeIn d))).map fun issue => (issue, line)) s' ∧
      ∀ e ∈ es, ∀ n ∈ e.nodes, s'.analysis.types.get? n.id = some (n.typeIn d) := by
  induction es generalizing s merged with
  | nil =>
    cases h
    exact ⟨rfl, .refl _ _, fun _ he => absurd he not_mem_nil⟩
  | cons e rest ihrest =>
    rw [elementsType, runState_bind] at h
    obtain ⟨first, t, hfirst, h⟩ := h
    rw [runState_bind] at h
    obtain ⟨merged', u, hmerge, h⟩ := h
    obtain ⟨ihe, ih⟩ := forall_mem_cons.mp ih
    have hparts : s.Fresh (e.ids ++ rest.flatMap Expr.ids) := hfresh
    obtain ⟨rfl, he⟩ := ihe s first t hfirst hparts.left hs
    obtain ⟨rfl, hown⟩ := finds_mergeElement hmerge
    have hfinds := he.finds.trans hown
    rw [flatMap_singleton, flatMap_singleton, append_nil] at hfinds
    obtain ⟨rfl, hrest, htypes⟩ := ihrest ih h (hfinds.fresh hparts) (hfinds.knows hs)
    refine ⟨rfl, (hfinds.trans hrest).perm ?_, forall_mem_cons.mpr ⟨?_, htypes⟩⟩
    · -- the issue of the list at this element was filed before those of the elements after it
      rw [map_cons, Ty.listIssues, map_append, flatMap_cons, append_assoc, append_assoc]
      refine List.Perm.append_left _ ?_
      rw [← append_assoc, ← append_assoc]
      exact perm_append_comm.append_right _
    · refine types_of_finds hrest (fun id hid => hparts.disjoint hid) ?_
      exact types_of_finds hown (fun _ _ => not_mem_nil) (he.types e mem_cons_self)

/-- What an analysis finds in an expression follows from the declarations. -/
theorem appraisesAs (d : Declarations) (context : Context) (e : Expr) : AppraisesAs d context e := by
  induction e using Expr.children_induction with
  | step e ih =>
    intro s type s' h hfresh hs
    -- no node has a type yet, so every one is computed and nothing is looked up
    have hempty : s.analysis.types.get? e.id = none := hfresh.2 _ e.id_mem_ids
    have hoperands : s.Fresh (e.children.flatMap Expr.ids) := by
      rw [Expr.ids_eq] at hfresh
      exact hfresh.left
    cases e with obtain ⟨u, hcompute, hs'⟩ := run_recorded hempty h
    | literal m value | emptyList m =>
      cases hcompute
      exact ⟨rfl, .node hfresh (.nil d _ s) (.refl _ _) hs'⟩
    | identifier m name =>
      obtain ⟨rfl, hown⟩ := finds_nameType hs hcompute
      exact ⟨rfl, .node hfresh (.nil d _ s) hown hs'⟩
    | binary m operator left right =>
      obtain ⟨leftType, rightType, t₁, hpair, hcompute⟩ := of_pair hcompute
      obtain ⟨htypes, hchildren⟩ := appraised_of_exprTypes ih hpair hoperands hs
      cases htypes
      obtain ⟨rfl, hown⟩ := finds_operatorResult hcompute
      exact ⟨rfl, .node hfresh hchildren hown hs'⟩
    | unary m operator operand =>
      obtain ⟨operandType, t₁, hoperand, hcompute⟩ := of_single hcompute
      obtain ⟨htypes, hchildren⟩ := appraised_of_exprTypes ih hoperand hoperands hs
      cases htypes
      obtain ⟨rfl, hown⟩ := finds_operatorResult hcompute
      exact ⟨rfl, .node hfresh hchildren hown hs'⟩
    | call m name arguments =>
      rw [runState_bind] at hcompute
      obtain ⟨types, t₁, harguments, hcall⟩ := hcompute
      obtain ⟨rfl, hchildren⟩ := appraised_of_exprTypes ih harguments hoperands hs
      obtain ⟨htype, hown⟩ := finds_callType (hchildren.finds.knows hs) hcall
      have htype' : type = (Expr.call m name arguments).typeIn d := by
        rw [Expr.typeIn, Expr.typesIn_eq]
        exact htype
      subst htype'
      exact ⟨rfl, .node hfresh hchildren hown hs'⟩
    | member m base field =>
      obtain ⟨baseType, t₁, hbase, hcall⟩ := of_single hcompute
      obtain ⟨htypes, hchildren⟩ := appraised_of_exprTypes ih hbase hoperands hs
      cases htypes
      obtain ⟨rfl, hown⟩ := finds_callType (hchildren.finds.knows hs) hcall
      exact ⟨rfl, .node hfresh hchildren hown hs'⟩
    | index m base position =>
      obtain ⟨baseType, positionType, t₁, hpair, hcompute⟩ := of_pair hcompute
      obtain ⟨htypes, hchildren⟩ := appraised_of_exprTypes ih hpair hoperands hs
      cases htypes
      have hown : type = (Expr.index m base position).typeIn d ∧
          t₁.Finds context.place [] ((Expr.index m base position).issuesHere d) u := by
        rw [Expr.typeIn, Expr.issuesHere, Expr.ownIssues]
        cases hnum : (position.typeIn d).isNum with
        | true =>
          rw [hnum] at hcompute
          exact finds_operatorResult hcompute
        | false =>
          rw [hnum] at hcompute
          obtain ⟨_, t₂, hreport, hcompute⟩ := runState_bind.mp hcompute
          obtain ⟨htype, hresult⟩ := finds_operatorResult hcompute
          exact ⟨htype, (finds_report rfl hreport).trans hresult⟩
      obtain ⟨rfl, hown⟩ := hown
      exact ⟨rfl, .node hfresh hchildren hown hs'⟩
    | list m elements =>
      rw [runState_bind] at hcompute
      obtain ⟨element, t₁, helements, hcompute⟩ := hcompute
      cases hcompute
      obtain ⟨helement, hfinds, htypes⟩ := finds_elementsType ih helements hoperands hs
      have htype : .array element = (Expr.list m elements).typeIn d := by
        rw [Expr.typeIn, Expr.typesIn_eq, helement]
        rfl
      exact ⟨htype, appraised_node hfresh hfinds htypes (htype ▸ hs')⟩

end Appraised

end Inspect

end ChessEval
