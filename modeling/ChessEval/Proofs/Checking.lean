import ChessEval.Proofs.Inspecting
import ChessEval.Proofs.Typing

/-!
# Checking expressions establishes the typing rules

Errors are never taken back, so an analysis that ends without errors had none at any step.
-/

namespace ChessEval

open List

variable {id : Nat} {type : Ty} {name : String} {context : Context} {e : Expr}

namespace TypeTable

lemma size_grow (t : TypeTable) (id : Nat) : id < (t.grow id).entries.size := by
  simp only [grow, Array.size_append, Array.size_replicate]
  omega

lemma get?_grow (t : TypeTable) (id other : Nat) : (t.grow id).get? other = t.get? other := by
  simp only [get?, grow, Array.getD_eq_getD_getElem?, Array.getElem?_append]
  split
  · rfl
  · rename_i h
    rw [Array.getElem?_eq_none (by omega : t.entries.size ≤ other), Array.getElem?_replicate]
    split <;> rfl

lemma get?_resolve (t : TypeTable) (id other : Nat) (type : Ty) :
    (t.resolve id type).get? other = if other = id then some type else t.get? other := by
  have hsize := t.size_grow id
  by_cases h : other = id
  · subst h
    simp [get?, resolve, Array.getD_eq_getD_getElem?, hsize]
  · rw [if_neg h, ← t.get?_grow id other]
    simp [get?, resolve, Array.getD_eq_getD_getElem?, Array.getElem?_setIfInBounds_ne (Ne.symm h)]

lemma get?_record (t : TypeTable) (id other : Nat) (type : Ty) (hfresh : t.get? id = none) :
    (t.record id type).get? other = if other = id then some type else t.get? other := by
  unfold record
  rw [hfresh]
  exact t.get?_resolve id other type

lemma typeOf_eq {t : TypeTable} (h : t.get? id = some type) : t.typeOf id = type := by
  rw [typeOf, h, Option.getD_some]

end TypeTable

namespace Scope

def names (s : Scope) : List (String × Ty) :=
  s.map fun (name, binding) => (name, binding.type)

lemma lookup_names (s : Scope) (name : String) :
    s.names.lookup name = (s.find? name).map Binding.type := by
  unfold names find?
  induction s with
  | nil => rfl
  | cons entry rest ih =>
    obtain ⟨n, b⟩ := entry
    simp only [map_cons, lookup_cons]
    cases name == n with
    | true => rfl
    | false => exact ih

lemma names_markUsed (s : Scope) (name : String) : (s.markUsed name).names = s.names := by
  unfold names markUsed
  rw [map_map]
  apply map_congr_left
  rintro ⟨n, b⟩ -
  simp only [Function.comp_apply]
  split <;> rfl

end Scope

namespace Declarations

def names (d : Declarations) : NameTypes :=
  d.scopes.map Scope.names ++ [d.globals.names]

lemma readVariable_some {scopes scopes' : List Scope} (h : readVariable name scopes = some (type, scopes')) :
    scopes'.map Scope.names = scopes.map Scope.names ∧
      ∀ Γ, NameTypes.find? (scopes.map Scope.names ++ Γ) name = some type := by
  induction scopes generalizing scopes' with
  | nil => cases h
  | cons scope outer ih =>
    rw [readVariable] at h
    cases hfind : scope.find? name with
    | some b =>
      rw [hfind] at h
      cases h
      refine ⟨by simp [Scope.names_markUsed], fun Γ => ?_⟩
      simp [NameTypes.find?, Scope.lookup_names, hfind]
    | none =>
      rw [hfind] at h
      obtain ⟨⟨type', outer'⟩, houter, heq⟩ := Option.map_eq_some_iff.mp h
      cases heq
      obtain ⟨hnames, hfound⟩ := ih houter
      refine ⟨by simp [hnames], fun Γ => ?_⟩
      rw [map_cons, cons_append, NameTypes.find?, findSome?_cons, Scope.lookup_names,
        hfind]
      exact hfound Γ

lemma readVariable_none {scopes : List Scope} (h : readVariable name scopes = none) (Γ : NameTypes) :
    NameTypes.find? (scopes.map Scope.names ++ Γ) name = Γ.find? name := by
  induction scopes with
  | nil => rfl
  | cons scope outer ih =>
    rw [readVariable] at h
    cases hfind : scope.find? name with
    | some b => simp [hfind] at h
    | none =>
      rw [hfind] at h
      rw [map_cons, cons_append, NameTypes.find?, findSome?_cons, Scope.lookup_names,
        hfind]
      exact ih (Option.map_eq_none_iff.mp h)

lemma read_some {d d' : Declarations} (h : d.read name = some (type, d')) :
    d.names.find? name = some type ∧ d'.names = d.names ∧ d'.functions = d.functions ∧
      d'.rules = d.rules := by
  rcases eq_of_read h with ⟨scopes, hread, rfl⟩ | ⟨hnone, b, hb, rfl, rfl⟩
  · obtain ⟨hnames, hfound⟩ := readVariable_some hread
    exact ⟨hfound _, by simp [names, hnames], rfl, rfl⟩
  · refine ⟨?_, by simp [names, Scope.names_markUsed], rfl, rfl⟩
    rw [names, readVariable_none hnone]
    simp [NameTypes.find?, Scope.lookup_names, hb]

lemma declare_ok {d d' : Declarations} {line : Nat} (h : d.declare name type line = .ok d') :
    d'.names = d.names.bind name type ∧ d'.functions = d.functions ∧ d'.rules = d.rules := by
  obtain ⟨scope, outer, hscopes, -, rfl⟩ := eq_of_declare h
  exact ⟨by simp [names, hscopes, NameTypes.bind, Scope.names, Scope.bind], rfl, rfl⟩

end Declarations

namespace Inspection

/-- No error has been filed. -/
def Clean (s : Inspection) : Prop :=
  s.diagnostics.errors = []

def names (s : Inspection) : NameTypes :=
  s.analysis.declarations.names

/-- Nothing is recorded yet at some distinct nodes. -/
def Fresh (s : Inspection) (ids : List Nat) : Prop :=
  ids.Nodup ∧ ∀ id ∈ ids, s.analysis.types.get? id = none

/-- A later analysis that knows the same functions and the same about all nodes but some. -/
abbrev Extends (ids : List Nat) (s s' : Inspection) : Prop :=
  s.analysis.EqOn {id | id ∉ ids} s'.analysis

section Extends

variable {ids ids' : List Nat} {s t u : Inspection}

lemma Extends.append (hst : s.Extends ids t) (htu : t.Extends ids' u) :
    s.Extends (ids ++ ids') u := by
  refine (hst.mono ?_).trans (htu.mono ?_)
  · exact fun id hid hmem => hid (mem_append_left _ hmem)
  · exact fun id hid hmem => hid (mem_append_right _ hmem)

lemma Fresh.left (h : s.Fresh (ids ++ ids')) : s.Fresh ids :=
  ⟨(nodup_append.mp h.1).1, fun id hid => h.2 id (mem_append_left _ hid)⟩

lemma Fresh.disjoint (h : s.Fresh (ids ++ ids')) (hid : id ∈ ids) : id ∉ ids' :=
  fun hid' => (nodup_append.mp h.1).2.2 id hid id hid' rfl

lemma Fresh.right (h : s.Fresh (ids ++ ids')) (hst : s.Extends ids t) : t.Fresh ids' := by
  refine ⟨(nodup_append.mp h.1).2.1, fun id hid => ?_⟩
  rw [hst.types id fun hmem => h.disjoint hmem hid]
  exact h.2 id (mem_append_right _ hid)

end Extends

end Inspection

namespace Inspect

variable {α β : Type}

/-- A step that takes back no error. -/
def KeepsErrors (x : Inspect α) : Prop :=
  ∀ s a s', x.run s = (a, s') → s'.Clean → s.Clean

namespace KeepsErrors

lemma pure (a : α) : KeepsErrors (Pure.pure a) := by
  intro s b s' h hclean
  cases h
  exact hclean

lemma bind {x : Inspect α} {f : α → Inspect β} (hx : KeepsErrors x) (hf : ∀ a, KeepsErrors (f a)) :
    KeepsErrors (x >>= f) := by
  intro s b s' h hclean
  obtain ⟨a, t, ha, hb⟩ := runState_bind.mp h
  exact hx s a t ha (hf a t b s' hb hclean)

lemma report (context : Context) (issue : Issue) : KeepsErrors (report context issue) := by
  intro s a s' h hclean
  cases h
  unfold Inspection.Clean Diagnostics.add at hclean
  dsimp only at hclean
  split at hclean
  · exact hclean
  · simp at hclean

lemma reportAll (context : Context) (issues : List (Issue × Nat)) :
    KeepsErrors (reportAll context issues) := by
  induction issues with
  | nil => exact .pure ()
  | cons issue rest ih => exact (report _ _).bind fun _ => ih

lemma bears : Bears fun s s' => s'.Clean → s.Clean where
  refl _ := id
  trans hst htu := hst ∘ htu
  report context issue _ := report context issue
  read _ := id

lemma analysis : KeepsErrors Inspect.analysis :=
  bears.analysis

lemma declare (context : Context) (change : Declarations → Except Issue Declarations) :
    KeepsErrors (declare context change) :=
  Bears.declare (fun _ _ _ => id) fun s issue _ => report context issue s

lemma openScope : KeepsErrors openScope := by
  intro s a s' h hclean
  cases h
  exact hclean

lemma closeScope (context : Context) : KeepsErrors (closeScope context) :=
  bears.closeScope (fun _ _ _ _ => id) report context

lemma callType (context : Context) (id : Nat) (name : String) (arguments : List Expr)
    (types : List Ty) : KeepsErrors (callType context id name arguments types) :=
  bears.callType (fun _ _ hclean => hclean) context name arguments types

lemma closedExpr : ClosedExpr Set.univ fun _ => KeepsErrors :=
  bears.closedExpr (fun context n _ name arguments _ => callType context n.id name arguments) fun _ _ _ _ => id

theorem closed : Closed Set.univ fun _ => KeepsErrors where
  toClosedExpr := closedExpr
  analysis := analysis
  openScope := openScope
  closeScope := closeScope
  declareVariable context _ _ _ := declare context _
  declareGlobal context _ _ _ := declare context _
  declareRule context _ _ _ := declare context _

lemma exprType (context : Context) (e : Expr) : KeepsErrors (exprType context e) :=
  closed.exprType e fun _ _ => trivial

lemma statements (block : List Stmt) (context : Context) : KeepsErrors (statements context block) :=
  closed.statements block (fun _ _ _ _ _ _ => trivial) context

end KeepsErrors

section Steps

variable {s s' : Inspection} {type : Ty}

lemma not_clean_report {issue : Issue} (hissue : issue.isWarning = false) :
    ¬((report context issue).run s).2.Clean := by
  change ¬(s.diagnostics.add ⟨issue, context.line, s.file⟩ context.place).errors = []
  simp [Diagnostics.add, hissue]

lemma analysis_reportAll {issues : List (Issue × Nat)} {result : Unit}
    (h : (reportAll context issues).run s = (result, s')) : s'.analysis = s.analysis := by
  induction issues generalizing s with
  | nil =>
    cases h
    rfl
  | cons issue rest ih =>
    obtain ⟨_, t, ht, h⟩ := runState_bind.mp h
    cases ht
    exact (ih h).trans rfl

lemma of_operatorResult {result : Except OperandError Ty} (h : (operatorResult context result).run s = (type, s'))
    (hclean : s'.Clean) : result = .ok type ∧ s' = s := by
  cases result with
  | ok t =>
    cases h
    exact ⟨rfl, rfl⟩
  | error e =>
    cases h
    exact absurd hclean (not_clean_report rfl)

lemma of_nameType (h : (nameType context name).run s = (type, s')) (hclean : s'.Clean) :
    s.names.find? name = some type ∧ s'.names = s.names ∧
      s'.analysis.types = s.analysis.types ∧ ∀ ids, s.analysis.EqOn ids s'.analysis := by
  replace h := of_analysis h
  split at h
  · rename_i found declarations hread
    cases h
    obtain ⟨hfind, hnames, hfunctions, -⟩ := Declarations.read_some hread
    exact ⟨hfind, hnames, rfl, fun ids => ⟨hfunctions, fun _ _ => rfl, fun _ _ => rfl⟩⟩
  · cases h
    exact absurd hclean (not_clean_report rfl)

lemma header?_cons (a : Analysis) (id other : Nat) (header : Header) :
    ({ a with calls := (id, header) :: a.calls } : Analysis).header? other =
      if other = id then some header else a.header? other := by
  unfold Analysis.header?
  rw [lookup_cons]
  by_cases h : other = id
  · simp [h]
  · simp [h, beq_eq_false_iff_ne.mpr h]

lemma of_callType {arguments : List Expr} {types : List Ty}
    (h : (callType context id name arguments types).run s = (type, s')) (hclean : s'.Clean) :
    ∃ resolved, s.analysis.declarations.resolveCall name types = .ok resolved ∧
      resolved.returnType = type ∧
      s'.analysis = { s.analysis with calls := (id, resolved.header) :: s.analysis.calls } := by
  replace h := of_analysis h
  split at h
  · rename_i issue hresolve
    cases h
    exact absurd hclean (not_clean_report (Declarations.isError_resolveCall hresolve).error)
  · rename_i resolved hresolve
    obtain ⟨_, t, ht, h⟩ := runState_bind.mp h
    rw [reportEach_eq] at ht
    have hanalysis := analysis_reportAll ht
    cases h
    refine ⟨resolved, hresolve, rfl, ?_⟩
    change { t.analysis with calls := (id, resolved.header) :: t.analysis.calls } = _
    rw [hanalysis]

lemma of_mergeElement {merged element : Ty} (h : (mergeElement context merged element).run s = (type, s'))
    (hclean : s'.Clean) : element ≠ .void ∧ merged.unifies element = true ∧ type = merged.merge element ∧ s' = s := by
  unfold mergeElement at h
  split at h
  · cases h
    exact absurd hclean (not_clean_report rfl)
  · split at h
    · cases h
      exact ⟨‹_›, ‹_›, rfl, rfl⟩
    · cases h
      exact absurd hclean (not_clean_report rfl)

/-- In a clean analysis the elements of a list are typed like the arguments of a call, and then
merged. -/
lemma of_elementsType {list : Context} {merged : Ty} {es : List Expr}
    (h : (elementsType context list merged es).run s = (type, s')) (hclean : s'.Clean) :
    ∃ types, (exprTypes context es).run s = (types, s') ∧ Ty.mergeAll merged types = some type := by
  induction es generalizing s merged with
  | nil =>
    cases h
    exact ⟨[], rfl, rfl⟩
  | cons e rest ih =>
    rw [elementsType, runState_bind] at h
    obtain ⟨first, t, hfirst, h⟩ := h
    rw [runState_bind] at h
    obtain ⟨merged', u, hmerge, h⟩ := h
    have hu : u.Clean :=
      KeepsErrors.closed.elementsType (fun e _ => KeepsErrors.exprType _ e) _ u type s' h hclean
    obtain ⟨hvoid, hunify, rfl, rfl⟩ := of_mergeElement hmerge hu
    obtain ⟨types, htypes, hall⟩ := ih h
    refine ⟨first :: types, ?_, ?_⟩
    · exact runState_bind.mpr ⟨first, u, hfirst, runState_bind.mpr ⟨types, s', htypes, rfl⟩⟩
    · rw [Ty.mergeAll, if_pos ⟨hvoid, hunify⟩]
      exact hall

lemma run_recorded {m : Mark} {compute : Inspect Ty} (hfresh : s.analysis.types.get? m.id = none)
    (h : (recorded m compute).run s = (type, s')) : ∃ t, compute.run s = (type, t) ∧
      s' = { t with analysis := { t.analysis with types := t.analysis.types.record m.id type } } := by
  replace h := of_analysis h
  rw [hfresh] at h
  obtain ⟨type', t, ht, h⟩ := runState_bind.mp h
  cases h
  exact ⟨t, ht, rfl⟩

lemma of_recorded {m : Mark} {compute : Inspect Ty} (hfresh : s.analysis.types.get? m.id = none)
    (h : (recorded m compute).run s = (type, s')) (hclean : s'.Clean) :
    ∃ t, compute.run s = (type, t) ∧ t.Clean ∧
      s'.analysis = { t.analysis with types := t.analysis.types.record m.id type } := by
  obtain ⟨t, ht, rfl⟩ := run_recorded hfresh h
  exact ⟨t, ht, hclean, rfl⟩

end Steps

/-- What a clean analysis of an expression has done. -/
structure Checked (e : Expr) (type : Ty) (s s' : Inspection) : Prop where
  rest : s.Extends e.ids s'
  names : s'.names = s.names
  typed : e.AllTyped s'.analysis s.names
  type : s'.analysis.types.get? e.id = some type

structure AllChecked (es : List Expr) (types : List Ty) (s s' : Inspection) : Prop where
  rest : s.Extends (es.flatMap Expr.ids) s'
  names : s'.names = s.names
  typed : ∀ e ∈ es, e.AllTyped s'.analysis s.names
  types : es.map (fun e => s'.analysis.types.typeOf e.id) = types

section Checked

variable {context : Context} {s t s' : Inspection} {type : Ty} {types : List Ty}

lemma AllChecked.nil (s : Inspection) : AllChecked [] [] s s :=
  ⟨.refl _ _, rfl, by simp, rfl⟩

lemma AllChecked.cons {rest : List Expr} (hfresh : s.Fresh ((e :: rest).flatMap Expr.ids)) (he : Checked e type s t)
    (hrest : AllChecked rest types t s') : AllChecked (e :: rest) (type :: types) s s' := by
  rw [flatMap_cons] at hfresh
  have hkept : ∀ id ∈ e.ids, id ∈ {id | id ∉ rest.flatMap Expr.ids} := fun id hid =>
    hfresh.disjoint hid
  refine ⟨?_, hrest.names.trans he.names, ?_, ?_⟩
  · rw [flatMap_cons]
    exact he.rest.append hrest.rest
  · intro e' he'
    rcases mem_cons.mp he' with rfl | he'
    · exact he.typed.congr hrest.rest hkept
    · exact he.names ▸ hrest.typed e' he'
  · rw [map_cons, hrest.types, hrest.rest.typeOf (hkept _ e.id_mem_ids)]
    rw [TypeTable.typeOf_eq he.type]

lemma allChecked_of_exprTypes {es : List Expr}
    (ih : ∀ e ∈ es, ∀ s type s', (exprType context e).run s = (type, s') → s'.Clean →
      s.Fresh e.ids → Checked e type s s')
    (h : (exprTypes context es).run s = (types, s')) (hclean : s'.Clean)
    (hfresh : s.Fresh (es.flatMap Expr.ids)) : AllChecked es types s s' := by
  induction es generalizing s types with
  | nil =>
    cases h
    exact .nil _
  | cons e rest ihrest =>
    rw [exprTypes, runState_bind] at h
    obtain ⟨first, t, hfirst, h⟩ := h
    rw [runState_bind] at h
    obtain ⟨others, u, hothers, h⟩ := h
    cases h
    obtain ⟨ihe, ih⟩ := forall_mem_cons.mp ih
    have ht : t.Clean :=
      KeepsErrors.closed.exprTypes (fun e _ => KeepsErrors.exprType _ e) t others _ hothers hclean
    have hparts : s.Fresh (e.ids ++ rest.flatMap Expr.ids) := hfresh
    have he := ihe s first t hfirst ht hparts.left
    exact .cons hfresh he (ihrest ih hothers (hparts.right he.rest))

lemma eqOn_record {a : Analysis} (hfresh : a.types.get? id = none) (type : Ty) :
    a.EqOn {other | other ≠ id} { a with types := a.types.record id type } := by
  refine ⟨rfl, fun other hother => ?_, fun _ _ => rfl⟩
  change (a.types.record id type).get? other = _
  rw [a.types.get?_record id other type hfresh, if_neg hother]

/-- A node is checked when its operands have been, nothing but its own header has changed since, and
its type is recorded by its rule. -/
lemma Checked.of_children {u : Inspection} (hfresh : s.Fresh e.ids) (hchildren : AllChecked e.children types s t)
    (hkept : t.analysis.EqOn {id | id ≠ e.id} u.analysis) (htypes : u.analysis.types = t.analysis.types)
    (hnames : u.names = t.names) (hs' : s'.analysis = { u.analysis with types := u.analysis.types.record e.id type })
    (htyped : e.children.map (fun c => s'.analysis.types.typeOf c.id) = types →
      s'.analysis.types.get? e.id = some type → e.Typed s'.analysis s.names) : Checked e type s s' := by
  rw [Expr.ids_eq] at hfresh
  have hnew : ∀ id ∈ e.children.flatMap Expr.ids, id ≠ e.id := fun id hid heq =>
    hfresh.disjoint hid (mem_singleton.mpr heq)
  have hempty : u.analysis.types.get? e.id = none := by
    rw [htypes]
    exact (hfresh.right hchildren.rest).2 e.id (mem_singleton_self _)
  have hts' : t.analysis.EqOn {id | id ≠ e.id} s'.analysis :=
    hkept.trans (hs' ▸ eqOn_record hempty type)
  have htype : s'.analysis.types.get? e.id = some type := by
    rw [hs']
    exact (u.analysis.types.get?_record e.id e.id type hempty).trans (if_pos rfl)
  have hmap : e.children.map (fun c => s'.analysis.types.typeOf c.id) = types := by
    rw [← hchildren.types]
    apply map_congr_left
    intro c hc
    exact hts'.typeOf (hnew _ (mem_flatMap.mpr ⟨c, hc, c.id_mem_ids⟩))
  refine ⟨?_, ?_, ?_, htype⟩
  · refine (hchildren.rest.mono ?_).trans (hts'.mono ?_)
    · intro id hid hmem
      rw [Expr.ids_eq] at hid
      exact hid (mem_append_left _ hmem)
    · intro id hid heq
      exact hid (heq ▸ e.id_mem_ids)
  · rw [← hchildren.names, ← hnames]
    unfold Inspection.names
    rw [hs']
  · refine Expr.allTyped_iff.mpr ⟨fun c hc => ?_, htyped hmap htype⟩
    refine (hchildren.typed c hc).congr hts' fun id hid => ?_
    exact hnew id (mem_flatMap.mpr ⟨c, hc, hid⟩)

lemma of_single {α : Type} {f : Ty → Inspect α} {result : α}
    (h : (exprType context e >>= f).run s = (result, s')) :
    ∃ type t, (exprTypes context [e]).run s = ([type], t) ∧ (f type).run t = (result, s') := by
  obtain ⟨type, t, htype, h⟩ := runState_bind.mp h
  refine ⟨type, t, ?_, h⟩
  simp only [exprTypes, runState_bind]
  exact ⟨type, t, htype, [], t, rfl, rfl⟩

lemma of_pair {α : Type} {left right : Expr} {f : Ty → Ty → Inspect α} {result : α}
    (h : (exprType context left >>= fun leftType => exprType context right >>= f leftType).run s = (result, s')) :
    ∃ leftType rightType t, (exprTypes context [left, right]).run s = ([leftType, rightType], t) ∧
      (f leftType rightType).run t = (result, s') := by
  obtain ⟨leftType, t, hleft, h⟩ := runState_bind.mp h
  obtain ⟨rightType, u, hright, h⟩ := runState_bind.mp h
  refine ⟨leftType, rightType, u, ?_, h⟩
  simp only [exprTypes, runState_bind]
  exact ⟨leftType, t, hleft, [rightType], u, ⟨rightType, u, hright, [], u, rfl, rfl⟩, rfl⟩

lemma Checked.of_call {u : Inspection} {arguments : List Expr} (hfresh : s.Fresh e.ids)
    (hchildren : AllChecked e.children types s t)
    (hcall : (callType context e.id name arguments types).run t = (type, u)) (hu : u.Clean)
    (hs' : s'.analysis = { u.analysis with types := u.analysis.types.record e.id type })
    (htyped : s'.analysis.Resolves e.id name
      (e.children.map fun c => s'.analysis.types.typeOf c.id) → e.Typed s'.analysis s.names) : Checked e type s s' := by
  obtain ⟨resolved, hresolve, hreturn, hanalysis⟩ := of_callType hcall hu
  have hkept : t.analysis.EqOn {id | id ≠ e.id} u.analysis := by
    rw [hanalysis]
    refine ⟨rfl, fun _ _ => rfl, fun id hid => ?_⟩
    rw [header?_cons, if_neg hid]
  have hnames : u.names = t.names := by
    unfold Inspection.names
    rw [hanalysis]
  refine .of_children hfresh hchildren hkept (by rw [hanalysis]) hnames hs' fun hmap htype => ?_
  refine htyped ⟨resolved, ?_, ?_, htype.trans (congrArg some hreturn.symm)⟩
  · rw [hmap, ← hresolve, hs', hanalysis]
  · rw [hs', hanalysis]
    exact (header?_cons t.analysis e.id e.id resolved.header).trans (if_pos rfl)

/-- A clean analysis of an expression records a type by its rule at each node. -/
theorem checked_of_exprType (e : Expr) : ∀ s type s', (exprType context e).run s = (type, s') →
    s'.Clean → s.Fresh e.ids → Checked e type s s' := by
  induction e using Expr.children_induction with
  | step e ih =>
    intro s type s' h hclean hfresh
    have hempty : s.analysis.types.get? e.id = none := hfresh.2 _ e.id_mem_ids
    have hoperands : s.Fresh (e.children.flatMap Expr.ids) := by
      rw [Expr.ids_eq] at hfresh
      exact hfresh.left
    cases e with obtain ⟨t, hcompute, ht, hanalysis⟩ := of_recorded hempty h hclean
    | literal m value | emptyList m =>
      cases hcompute
      exact .of_children hfresh (.nil s) (.refl _ _) rfl rfl hanalysis fun _ htype => htype
    | identifier m name =>
      obtain ⟨hfind, hnames, htypes, hkept⟩ := of_nameType hcompute ht
      exact .of_children hfresh (.nil s) (hkept _) htypes hnames hanalysis
        fun _ htype => ⟨type, hfind, htype⟩
    | binary m operator left right =>
      obtain ⟨leftType, rightType, t₁, hpair, hcompute⟩ := of_pair hcompute
      obtain ⟨hresult, rfl⟩ := of_operatorResult hcompute ht
      have hchildren := allChecked_of_exprTypes ih hpair ht hoperands
      refine .of_children hfresh hchildren (.refl _ _) rfl rfl hanalysis fun hmap htype => ?_
      simp only [Expr.children, map_cons, map_nil, List.cons.injEq, and_true] at hmap
      exact ⟨type, by rw [hmap.1, hmap.2, hresult], htype⟩
    | unary m operator operand =>
      obtain ⟨operandType, t₁, hoperand, hcompute⟩ := of_single hcompute
      obtain ⟨hresult, rfl⟩ := of_operatorResult hcompute ht
      have hchildren := allChecked_of_exprTypes ih hoperand ht hoperands
      refine .of_children hfresh hchildren (.refl _ _) rfl rfl hanalysis fun hmap htype => ?_
      simp only [Expr.children, map_cons, map_nil, List.cons.injEq, and_true] at hmap
      exact ⟨type, by rw [hmap, hresult], htype⟩
    | call m name arguments =>
      rw [runState_bind] at hcompute
      obtain ⟨types, t₁, harguments, hcall⟩ := hcompute
      have ht₁ : t₁.Clean := KeepsErrors.callType _ _ _ _ _ _ _ _ hcall ht
      have hchildren := allChecked_of_exprTypes ih harguments ht₁ hoperands
      exact .of_call hfresh hchildren hcall ht hanalysis fun hresolves => hresolves
    | member m base field =>
      obtain ⟨baseType, t₁, hbase, hcall⟩ := of_single hcompute
      have ht₁ : t₁.Clean := KeepsErrors.callType _ _ _ _ _ _ _ _ hcall ht
      have hchildren := allChecked_of_exprTypes ih hbase ht₁ hoperands
      exact .of_call hfresh hchildren hcall ht hanalysis fun hresolves => hresolves
    | index m base position =>
      obtain ⟨baseType, positionType, t₁, hpair, hcompute⟩ := of_pair hcompute
      have hnum : positionType.isNum = true ∧
          (operatorResult (context.moveTo m.line) baseType.element?).run t₁ = (type, t) := by
        cases hnum : positionType.isNum with
        | true =>
          rw [hnum] at hcompute
          exact ⟨rfl, hcompute⟩
        | false =>
          rw [hnum] at hcompute
          obtain ⟨_, t₂, hreport, hresult⟩ := runState_bind.mp hcompute
          cases hreport
          exact absurd (KeepsErrors.closed.operatorResult _ _ _ _ hresult ht) (not_clean_report rfl)
      obtain ⟨hresult, rfl⟩ := of_operatorResult hnum.2 ht
      have hchildren := allChecked_of_exprTypes ih hpair ht hoperands
      refine .of_children hfresh hchildren (.refl _ _) rfl rfl hanalysis fun hmap htype => ?_
      simp only [Expr.children, map_cons, map_nil, List.cons.injEq, and_true] at hmap
      exact ⟨hmap.2 ▸ hnum.1, type, hmap.1 ▸ hresult, htype⟩
    | list m elements =>
      rw [runState_bind] at hcompute
      obtain ⟨element, t₁, helements, hcompute⟩ := hcompute
      cases hcompute
      obtain ⟨types, htypes, hmerge⟩ := of_elementsType helements ht
      have hchildren := allChecked_of_exprTypes ih htypes ht hoperands
      refine .of_children hfresh hchildren (.refl _ _) rfl rfl hanalysis fun hmap htype => ?_
      exact ⟨element, by rw [← hmerge, ← hmap]; rfl, htype⟩

lemma Checked.typeOf (h : Checked e type s s') : s'.analysis.types.typeOf e.id = type :=
  TypeTable.typeOf_eq h.type

end Checked

end Inspect

end ChessEval
