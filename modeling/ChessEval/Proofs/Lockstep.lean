import ChessEval.Proofs.Filings
import ChessEval.Proofs.Recording

/-!
# Analyses that cannot be told apart

What a step does depends on little of what is known: the scopes, the types of the globals, the headers that
calls find, and what is recorded at the nodes that the step works at.
-/

namespace ChessEval

open List

namespace Diagnostics

/-- Diagnostics with their errors as a reader sees them who does not tell all issues apart. -/
def seenBy (φ : Issue → Issue) (ds : Diagnostics) : Diagnostics :=
  { ds with errors := ds.errors.map fun d => { d with fault := { d.fault with issue := φ d.fault.issue } } }

lemma seenBy_id (ds : Diagnostics) : ds.seenBy id = ds := by
  simp [seenBy]

lemma seenBy_add {φ : Issue → Issue} {ds ds' : Diagnostics} (h : ds'.seenBy φ = ds.seenBy φ) {issue issue' : Issue}
    (hissue : issue' = issue ∨ issue.isWarning = false ∧ issue'.isWarning = false ∧ φ issue' = φ issue) (line : Nat)
    (file : String) (place : Option String) :
    (ds'.add ⟨issue', line, file⟩ place).seenBy φ = (ds.add ⟨issue, line, file⟩ place).seenBy φ := by
  simp only [seenBy, mk.injEq] at h
  rcases hissue with rfl | ⟨hwarning, hwarning', hsame⟩
  · by_cases hwarning : issue'.isWarning = true <;> simp [seenBy, add, hwarning, h.1, h.2]
  · simp [seenBy, add, hwarning, hwarning', hsame, h.1, h.2]

end Diagnostics

namespace Scope

def markAll (s : Scope) (names : List String) : Scope :=
  s.map fun (n, b) => if n ∈ names then (n, { b with used := true }) else (n, b)

lemma markAll_nil (s : Scope) : s.markAll [] = s := by
  simp [markAll]

lemma markUsed_eq (s : Scope) (name : String) : s.markUsed name = s.markAll [name] := by
  simp [markAll, markUsed]

lemma markAll_markAll (s : Scope) (names others : List String) :
    (s.markAll names).markAll others = s.markAll (names ++ others) := by
  unfold markAll
  rw [map_map]
  apply map_congr_left
  rintro ⟨n, b⟩ -
  by_cases hn : n ∈ names <;> by_cases ho : n ∈ others <;> simp [hn, ho]

lemma markAll_congr (s : Scope) {names others : List String} (h : ∀ n, n ∈ names ↔ n ∈ others) :
    s.markAll names = s.markAll others := by
  simp only [markAll, h]

lemma markAll_comm (s : Scope) (names others : List String) :
    (s.markAll names).markAll others = (s.markAll others).markAll names := by
  rw [markAll_markAll, markAll_markAll]
  exact markAll_congr s fun n => by simp only [mem_append, or_comm]

lemma names_markAll (s : Scope) (names : List String) : (s.markAll names).names = s.names := by
  unfold Scope.names markAll
  rw [map_map]
  apply map_congr_left
  rintro ⟨n, b⟩ -
  simp only [Function.comp_apply]
  split <;> rfl

/-- A relation between blocks whose names have the same types, also after one of them has been read. -/
structure ReadAlike (γ : Scope → Scope → Prop) : Prop where
  names : ∀ {s t}, γ s t → t.names = s.names
  markUsed : ∀ {s t}, γ s t → ∀ name, γ (s.markUsed name) (t.markUsed name)

lemma readAlike_eq : ReadAlike Eq :=
  ⟨fun h => h ▸ rfl, fun h _ => h ▸ rfl⟩

/-- Blocks that differ at most in the lines of their names and in which of them have been read. -/
def SameNames (s t : Scope) : Prop :=
  t.names = s.names

lemma readAlike_sameNames : ReadAlike SameNames := by
  refine ⟨id, fun {s t} h name => ?_⟩
  unfold SameNames
  rw [names_markUsed, names_markUsed]
  exact h

lemma readAlike_markAll (names : List String) : ReadAlike fun s t => t = s.markAll names := by
  refine ⟨fun h => h ▸ names_markAll _ _, fun h name => ?_⟩
  rw [h, markUsed_eq, markUsed_eq, markAll_comm]

end Scope

lemma Declarations.resolveCall_congr {d e : Declarations} (h : e.functions = d.functions) (name : String)
    (types : List Ty) : e.resolveCall name types = d.resolveCall name types := by
  rw [resolveCall, resolveCall, function?, function?, h]

namespace Stmt

lemma id_mem_blockIds {body : List Stmt} {s : Stmt} {e n : Expr} (hs : s ∈ blockParts body) (he : e ∈ s.exprs)
    (hn : n ∈ e.nodes) : n.id ∈ blockIds body :=
  mem_flatMap.mpr ⟨e, mem_flatMap.mpr ⟨s, hs, he⟩, Expr.id_mem_ids_of_mem hn⟩

lemma blockWrongReturns_congr {types types' : TypeTable} {expected : Ty} {label : String} (body : List Stmt) :
    (∀ id ∈ blockIds body, types'.get? id = types.get? id) →
      blockWrongReturns types' expected label body = blockWrongReturns types expected label body := by
  induction body using block_induction (fun s => (∀ id ∈ s.ids, types'.get? id = types.get? id) →
    s.wrongReturns types' expected label = s.wrongReturns types expected label) with
  | declare | assign | score | call => rfl
  | ifThen condition thenBody line ih h =>
    rw [ids_ifThen, forall_mem_append] at h
    exact ih h.2
  | ifElse condition thenBody elseBody line ihthen ihelse h =>
    rw [ids_ifElse, forall_mem_append, forall_mem_append] at h
    rw [wrongReturns, wrongReturns, ihthen h.2.1, ihelse h.2.2]
  | whileDo condition body line ih h =>
    rw [ids_whileDo, forall_mem_append] at h
    exact ih h.2
  | forAll name source body line ih h =>
    rw [ids_forAll, forall_mem_append] at h
    exact ih h.2
  | returns value line h =>
    cases value with
    | none => rfl
    | some value =>
      rw [ids_returns, Option.toList_some, flatMap_singleton] at h
      rw [wrongReturns, wrongReturns, returnedType, returnedType, TypeTable.typeOf, TypeTable.typeOf,
        h value.id value.id_mem_ids]
  | nil => exact fun _ => rfl
  | cons s rest ihs ihrest =>
    intro h
    rw [blockIds_cons, forall_mem_append] at h
    rw [blockWrongReturns, blockWrongReturns, ihs h.1, ihrest h.2]

end Stmt

namespace Inspection

/-- Analyses that cannot be told apart by a step that works at the given nodes. -/
structure Indistinct (φ : Issue → Issue) (γ : Scope → Scope → Prop) (ids : Set Nat) (s t : Inspection) : Prop where
  file : t.file = s.file
  scopes : t.analysis.declarations.scopes = s.analysis.declarations.scopes
  globals : γ s.analysis.declarations.globals t.analysis.declarations.globals
  calls : ∀ name types, (t.analysis.declarations.resolveCall name types).mapError φ =
    (s.analysis.declarations.resolveCall name types).mapError φ
  types : ∀ id ∈ ids, t.analysis.types.get? id = s.analysis.types.get? id
  headers : ∀ id ∈ ids, t.analysis.header? id = s.analysis.header? id
  diagnostics : t.diagnostics.seenBy φ = s.diagnostics.seenBy φ

variable {φ : Issue → Issue} {γ : Scope → Scope → Prop} {ids : Set Nat} {s t : Inspection}

lemma Indistinct.replace (h : s.Indistinct φ γ ids t) (d d' : Declarations) (hscopes : d'.scopes = d.scopes)
    (hglobals : γ d.globals d'.globals) (hfunctions : d.functions = s.analysis.declarations.functions)
    (hfunctions' : d'.functions = t.analysis.declarations.functions) :
    Indistinct φ γ ids { s with analysis := { s.analysis with declarations := d } }
      { t with analysis := { t.analysis with declarations := d' } } := by
  refine ⟨h.file, hscopes, hglobals, fun name types => ?_, h.types, h.headers, h.diagnostics⟩
  have hcalls := h.calls name types
  rwa [← Declarations.resolveCall_congr hfunctions, ← Declarations.resolveCall_congr hfunctions'] at hcalls

lemma Indistinct.bare (h : s.Indistinct φ γ ids t) : s.bare.Indistinct φ γ ids t.bare :=
  ⟨h.file, h.scopes, h.globals, h.calls, h.types, h.headers, rfl⟩

end Inspection

namespace Inspect

variable {α β : Type} {φ : Issue → Issue} {γ : Scope → Scope → Prop} {ids : Set Nat}

/-- A step through which analyses go in the same way if they cannot be told apart. -/
def Lockstep (φ : Issue → Issue) (γ : Scope → Scope → Prop) (ids : Set Nat) (x : Inspect α) : Prop :=
  ∀ s t a s' b t', s.Indistinct φ γ ids t → x.run s = (a, s') → x.run t = (b, t') → b = a ∧ s'.Indistinct φ γ ids t'

section Lockstep

variable {s t s' t' : Inspection} {a b : α} {result result' : Unit} {context : Context}

lemma lockstep_pure (a : α) : Lockstep φ γ ids (pure a) := by
  intro s t b s' c t' h hs ht
  cases hs
  cases ht
  exact ⟨rfl, h⟩

lemma Lockstep.bind {x : Inspect α} {f : α → Inspect β} (hx : Lockstep φ γ ids x)
    (hf : ∀ a, Lockstep φ γ ids (f a)) : Lockstep φ γ ids (x >>= f) := by
  intro s t b s' c t' h hs ht
  obtain ⟨a, u, ha, hb⟩ := runState_bind.mp hs
  obtain ⟨a', u', ha', hc⟩ := runState_bind.mp ht
  obtain ⟨rfl, hu⟩ := hx s t a u a' u' h ha ha'
  exact hf _ u u' b s' c t' hu hb hc

lemma indistinct_report {issue issue' : Issue} (h : s.Indistinct φ γ ids t)
    (hissue : issue' = issue ∨ issue.isWarning = false ∧ issue'.isWarning = false ∧ φ issue' = φ issue)
    (hs : (report context issue).run s = (result, s')) (ht : (report context issue').run t = (result', t')) :
    s'.Indistinct φ γ ids t' := by
  cases hs
  cases ht
  refine ⟨h.file, h.scopes, h.globals, h.calls, h.types, h.headers, ?_⟩
  change (t.diagnostics.add ⟨issue', context.line, t.file⟩ context.place).seenBy φ =
    (s.diagnostics.add ⟨issue, context.line, s.file⟩ context.place).seenBy φ
  rw [h.file]
  exact Diagnostics.seenBy_add h.diagnostics hissue _ _ _

lemma lockstep_report (context : Context) (issue : Issue) : Lockstep φ γ ids (report context issue) :=
  fun _ _ _ _ _ _ h hs ht => ⟨rfl, indistinct_report h (.inl rfl) hs ht⟩

lemma lockstep_reportAll (context : Context) (issues : List (Issue × Nat)) :
    Lockstep φ γ ids (reportAll context issues) := by
  induction issues with
  | nil => exact lockstep_pure ()
  | cons issue rest ih => exact (lockstep_report _ _).bind fun _ => ih

lemma lockstep_openScope : Lockstep φ γ ids openScope := by
  intro s t a s' b t' h hs ht
  cases hs
  cases ht
  exact ⟨rfl, h.replace s.analysis.declarations.openScope t.analysis.declarations.openScope
    (congrArg (List.cons []) h.scopes) h.globals rfl rfl⟩

lemma lockstep_closeScope (context : Context) : Lockstep φ γ ids (closeScope context) := by
  intro s t a s' b t' h hs ht
  replace hs := of_analysis hs
  replace ht := of_analysis ht
  rw [Declarations.closeScope] at hs ht
  rw [h.scopes] at ht
  split at hs
  · rename_i unused d hclose
    split at hclose
    · cases hclose
    · rename_i scope outer hscopes
      cases hclose
      rw [hscopes] at ht
      obtain ⟨_, u, hu, hs⟩ := runState_bind.mp hs
      obtain ⟨_, u', hu', ht⟩ := runState_bind.mp ht
      cases hu
      cases hu'
      exact lockstep_reportAll _ _ _ _ _ _ _ _ (h.replace { s.analysis.declarations with scopes := outer }
        { t.analysis.declarations with scopes := outer } rfl h.globals rfl rfl) hs ht
  · rename_i issue hclose
    split at hclose
    · rename_i hscopes
      cases hclose
      rw [hscopes] at ht
      exact lockstep_report _ _ _ _ _ _ _ _ h hs ht
    · cases hclose

lemma indistinct_declare {change : Declarations → Except Issue Declarations} (h : s.Indistinct φ γ ids t)
    (hchange : (∃ issue, change s.analysis.declarations = .error issue ∧
        change t.analysis.declarations = .error issue) ∨
      ∃ d d', change s.analysis.declarations = .ok d ∧ change t.analysis.declarations = .ok d' ∧
        d'.scopes = d.scopes ∧ γ d.globals d'.globals ∧ d.functions = s.analysis.declarations.functions ∧
        d'.functions = t.analysis.declarations.functions)
    (hs : (declare context change).run s = (result, s')) (ht : (declare context change).run t = (result', t')) :
    s'.Indistinct φ γ ids t' := by
  replace hs := of_analysis hs
  replace ht := of_analysis ht
  rcases hchange with ⟨issue, hd, hd'⟩ | ⟨d, d', hd, hd', hscopes, hglobals, hfunctions, hfunctions'⟩
  · rw [hd] at hs
    rw [hd'] at ht
    exact indistinct_report h (.inl rfl) hs ht
  · rw [hd] at hs
    rw [hd'] at ht
    cases hs
    cases ht
    exact h.replace d d' hscopes hglobals hfunctions hfunctions'

lemma lockstep_declareVariable (context : Context) (name : String) (type : Ty) (line : Nat) :
    Lockstep φ γ ids (declare context fun ds => ds.declare name type line) := by
  intro s t _ s' _ t' h hs ht
  refine ⟨rfl, indistinct_declare h ?_ hs ht⟩
  unfold Declarations.declare
  rw [h.scopes]
  cases s.analysis.declarations.scopes with
  | nil => exact .inl ⟨_, rfl, rfl⟩
  | cons scope outer =>
    dsimp only
    split
    · exact .inl ⟨_, rfl, rfl⟩
    · exact .inr ⟨_, _, rfl, rfl, rfl, h.globals, rfl, rfl⟩

lemma lockstep_declareGlobal (context : Context) (name : String) (type : Ty) (line : Nat) :
    Lockstep φ Eq ids (declare context fun ds => ds.defineGlobal name type line) := by
  intro s t _ s' _ t' h hs ht
  refine ⟨rfl, indistinct_declare h ?_ hs ht⟩
  unfold Declarations.defineGlobal
  rw [← h.globals]
  split
  · exact .inl ⟨_, rfl, rfl⟩
  · exact .inr ⟨_, _, rfl, rfl, h.scopes, rfl, rfl, rfl⟩

lemma lockstep_nameType (hγ : Scope.ReadAlike γ) (context : Context) (name : String) :
    Lockstep φ γ ids (nameType context name) := by
  intro s t type s' type' t' h hs ht
  replace hs := of_analysis hs
  replace ht := of_analysis ht
  rw [Declarations.read] at hs ht
  rw [h.scopes] at ht
  cases hread : Declarations.readVariable name s.analysis.declarations.scopes with
  | some found =>
    rw [hread] at hs ht
    cases hs
    cases ht
    exact ⟨rfl, h.replace { s.analysis.declarations with scopes := found.2 }
      { t.analysis.declarations with scopes := found.2 } rfl h.globals rfl rfl⟩
  | none =>
    have htype : (t.analysis.declarations.globals.find? name).map Binding.type =
        (s.analysis.declarations.globals.find? name).map Binding.type := by
      rw [← Scope.lookup_names, ← Scope.lookup_names, hγ.names h.globals]
    rw [hread] at hs ht
    cases hfind : s.analysis.declarations.globals.find? name with
    | none =>
      rw [hfind] at htype hs
      rw [Option.map_eq_none_iff.mp htype] at ht
      exact ((lockstep_report _ _).bind fun _ => lockstep_pure _) _ _ _ _ _ _ h hs ht
    | some found =>
      rw [hfind] at htype hs
      obtain ⟨found', hfind', hsame⟩ := Option.map_eq_some_iff.mp htype
      rw [hfind'] at ht
      cases hs
      cases ht
      exact ⟨hsame, h.replace
        { s.analysis.declarations with globals := s.analysis.declarations.globals.markUsed name }
        { t.analysis.declarations with
          scopes := s.analysis.declarations.scopes
          globals := t.analysis.declarations.globals.markUsed name }
        rfl (hγ.markUsed h.globals name) rfl rfl⟩

lemma lockstep_recordCall {id : Nat} (header : Header) :
    Lockstep φ γ ids (update fun a => { a with calls := (id, header) :: a.calls }) := by
  intro s t _ s' _ t' h hs ht
  cases hs
  cases ht
  refine ⟨rfl, h.file, h.scopes, h.globals, h.calls, h.types, fun other hother => ?_, h.diagnostics⟩
  calc ({ t.analysis with calls := (id, header) :: t.analysis.calls } : Analysis).header? other
    _ = if other = id then some header else t.analysis.header? other := header?_cons _ _ _ _
    _ = if other = id then some header else s.analysis.header? other := by rw [h.headers other hother]
    _ = _ := (header?_cons _ _ _ _).symm

lemma lockstep_callType (context : Context) (id : Nat) (name : String) (arguments : List Expr) (types : List Ty) :
    Lockstep φ γ ids (callType context id name arguments types) := by
  intro s t type s' type' t' h hs ht
  replace hs := of_analysis hs
  replace ht := of_analysis ht
  have hcalls := h.calls name types
  cases hresolve : s.analysis.declarations.resolveCall name types with
  | ok resolved =>
    cases hresolve' : t.analysis.declarations.resolveCall name types with
    | ok resolved' =>
      rw [hresolve, hresolve'] at hcalls
      cases hcalls
      simp only [hresolve, reportEach_eq] at hs
      simp only [hresolve', reportEach_eq] at ht
      exact ((lockstep_reportAll _ _).bind fun _ => (lockstep_recordCall _).bind fun _ => lockstep_pure _)
        _ _ _ _ _ _ h hs ht
    | error issue =>
      rw [hresolve, hresolve'] at hcalls
      cases hcalls
  | error issue =>
    cases hresolve' : t.analysis.declarations.resolveCall name types with
    | ok resolved' =>
      rw [hresolve, hresolve'] at hcalls
      cases hcalls
    | error issue' =>
      -- the two issues may list the headers in different orders
      rw [hresolve, hresolve'] at hcalls
      rw [hresolve] at hs
      rw [hresolve'] at ht
      obtain ⟨_, u, hu, hs⟩ := runState_bind.mp hs
      obtain ⟨_, u', hu', ht⟩ := runState_bind.mp ht
      have hissue : φ issue' = φ issue := Except.error.inj hcalls
      have hindistinct := indistinct_report h (.inr ⟨(Declarations.isError_resolveCall hresolve).error,
        (Declarations.isError_resolveCall hresolve').error, hissue⟩) hu hu'
      exact lockstep_pure _ _ _ _ _ _ _ hindistinct hs ht

lemma lockstep_record (id : Nat) (type : Ty) :
    Lockstep φ γ ids (update fun a => { a with types := a.types.record id type }) := by
  intro s t _ s' _ t' h hs ht
  cases hs
  cases ht
  refine ⟨rfl, h.file, h.scopes, h.globals, h.calls, fun other hother => ?_, h.headers, h.diagnostics⟩
  have htypes := h.types other hother
  change (t.analysis.types.record id type).get? other = (s.analysis.types.record id type).get? other
  by_cases hid : other = id
  · subst hid
    cases hget : s.analysis.types.get? other with
    | some found => rw [TypeTable.record, TypeTable.record, htypes, hget, htypes, hget]
    | none =>
      rw [TypeTable.get?_record _ _ _ _ hget, TypeTable.get?_record _ _ _ _ (htypes.trans hget), htypes]
  · rw [TypeTable.get?_record_ne _ _ hid, TypeTable.get?_record_ne _ _ hid, htypes]

lemma lockstep_recorded {n : Expr} (hn : n.id ∈ ids) {compute : Inspect Ty} (hcompute : Lockstep φ γ ids compute) :
    Lockstep φ γ ids (recorded n.mark compute) := by
  intro s t type s' type' t' h hs ht
  replace hs := of_analysis hs
  replace ht := of_analysis ht
  rw [show t.analysis.types.get? n.mark.id = s.analysis.types.get? n.mark.id from h.types _ hn] at ht
  cases hget : s.analysis.types.get? n.mark.id with
  | some found =>
    rw [hget] at hs ht
    exact lockstep_pure _ _ _ _ _ _ _ h hs ht
  | none =>
    rw [hget] at hs ht
    exact (hcompute.bind fun _ => (lockstep_record _ _).bind fun _ => lockstep_pure _) _ _ _ _ _ _ h hs ht

theorem lockstep_closed (φ : Issue → Issue) (hγ : Scope.ReadAlike γ) (ids : Set Nat) :
    ClosedBody {n | n.id ∈ ids} fun _ => Lockstep φ γ ids where
  pure := lockstep_pure
  bind := .bind
  report context issue _ := lockstep_report context issue
  block _ _ hinside := lockstep_openScope.bind fun _ => hinside.bind fun _ => lockstep_closeScope _
  declareVariable := lockstep_declareVariable
  nameType := lockstep_nameType hγ
  callType context n _ name arguments _ types := lockstep_callType context n.id name arguments types
  recorded _ hn _ hcompute := lockstep_recorded hn hcompute

lemma lockstep_wrongReturns {body : List Stmt} (hids : ∀ id ∈ Stmt.blockIds body, id ∈ ids) (context : Context)
    (expected : Ty) (label : String) : Lockstep φ γ ids (wrongReturns context expected label body) := by
  intro s t _ s' _ t' h hs ht
  replace hs := of_analysis hs
  replace ht := of_analysis ht
  rw [Stmt.blockWrongReturns_congr body fun id hid => h.types id (hids id hid)] at ht
  exact lockstep_reportAll _ _ _ _ _ _ _ _ h hs ht

lemma lockstep_function (hγ : Scope.ReadAlike γ) {f : FunctionDef} (hids : ∀ id ∈ Stmt.blockIds f.body, id ∈ ids) :
    Lockstep φ γ ids (function f) :=
  (lockstep_closed φ hγ ids).function f (fun _ hs _ he _ hn => hids _ (Stmt.id_mem_blockIds hs he hn))
    (lockstep_wrongReturns hids)

lemma lockstep_declaredRule (hγ : Scope.ReadAlike γ) {r : RuleDef}
    (hids : ∀ id ∈ r.guard.toList.flatMap Expr.ids ++ Stmt.blockIds r.body, id ∈ ids) :
    Lockstep φ γ ids (declaredRule r) := by
  obtain ⟨hguard, hbody⟩ := forall_mem_append.mp hids
  exact (lockstep_closed φ hγ ids).declaredRule r
    (fun e he _ hn => hguard _ (mem_flatMap.mpr ⟨e, Option.mem_toList.mpr he, Expr.id_mem_ids_of_mem hn⟩))
    (fun _ hs _ he _ hn => hbody _ (Stmt.id_mem_blockIds hs he hn)) (lockstep_wrongReturns hbody)

lemma lockstep_global {g : GlobalDef} (hids : ∀ id ∈ g.value.ids, id ∈ ids) : Lockstep φ Eq ids (global g) := by
  have hvalue : Lockstep φ Eq ids (exprType (.ofDefinition .global g.name g.line) g.value) :=
    (lockstep_closed φ Scope.readAlike_eq ids).exprType g.value fun n hn => hids _ (Expr.id_mem_ids_of_mem hn)
  refine hvalue.bind fun type => ?_
  dsimp only
  split
  · exact (lockstep_report _ _).bind fun _ => lockstep_declareGlobal _ _ _ _
  · exact lockstep_declareGlobal _ _ _ _

lemma indistinct_declareRule {name : String} {schedule : Schedule} {line : Nat} (h : s.Indistinct φ γ ids t)
    (hrule : (t.analysis.declarations.rule? name).isSome = (s.analysis.declarations.rule? name).isSome)
    (hs : (declare context fun ds => ds.defineRule name schedule line).run s = (result, s'))
    (ht : (declare context fun ds => ds.defineRule name schedule line).run t = (result', t')) :
    s'.Indistinct φ γ ids t' := by
  refine indistinct_declare h ?_ hs ht
  unfold Declarations.defineRule
  rw [hrule]
  split
  · exact .inl ⟨_, rfl, rfl⟩
  · exact .inr ⟨_, _, rfl, rfl, h.scopes, h.globals, rfl, rfl⟩

lemma Files.indistinct {x : Inspect α} (hfiles : Files x)
    (h : (x.run s.bare).2.Indistinct φ γ ids (x.run t.bare).2) :
    (filed x t).seenBy φ = (filed x s).seenBy φ ∧ (x.run s).2.bare.Indistinct φ γ ids (x.run t).2.bare := by
  refine ⟨h.diagnostics, ?_⟩
  rw [hfiles.bare_run s, hfiles.bare_run t]
  exact h.bare

lemma Lockstep.filed {x : Inspect α} (hx : Lockstep φ γ ids x) (hfiles : Files x)
    (h : s.bare.Indistinct φ γ ids t.bare) :
    (filed x t).seenBy φ = (filed x s).seenBy φ ∧ (x.run s).2.bare.Indistinct φ γ ids (x.run t).2.bare := by
  exact hfiles.indistinct (hx s.bare t.bare _ _ _ _ h rfl rfl).2

lemma filedEach_lockstep {step : α → Inspect Unit} {items : List α}
    (hstep : ∀ x ∈ items, Lockstep φ γ ids (step x)) (hfiles : ∀ x, Files (step x))
    (h : s.bare.Indistinct φ γ ids t.bare) :
    (filedEach step items t).map (·.seenBy φ) = (filedEach step items s).map (·.seenBy φ) ∧
      ((each step items).run s).2.bare.Indistinct φ γ ids ((each step items).run t).2.bare := by
  induction items generalizing s t with
  | nil => exact ⟨rfl, h⟩
  | cons x rest ih =>
    obtain ⟨hx, hrest⟩ := forall_mem_cons.mp hstep
    obtain ⟨hfiled, hafter⟩ := hx.filed (hfiles x) h
    obtain ⟨hfiled', hafter'⟩ := ih hrest hafter
    exact ⟨by rw [filedEach, filedEach, map_cons, map_cons, hfiled, hfiled'], hafter'⟩

end Lockstep

end Inspect

end ChessEval
