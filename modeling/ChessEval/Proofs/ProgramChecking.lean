import ChessEval.Proofs.Checking

/-!
# Checking programs establishes the typing rules

Scopes are opened and closed around blocks, so a block leaves the names around it as they were.
-/

namespace ChessEval

open List

variable {name : String} {type : Ty} {line : Nat} {body : List Stmt} {inner block : List (String × Ty)} {α : Type}
  {p : Program} {Γ : NameTypes} {a b : Analysis} {ids : Set Nat}

namespace Inspect

section Scopes

variable {context : Context} {s s' : Inspection} {result : Unit}

lemma of_reportUnless {condition : Bool} {issue : Issue} (hissue : issue.isWarning = false)
    (h : (if !condition then report context issue else pure () : Inspect Unit).run s = (result, s'))
    (hclean : s'.Clean) : condition = true ∧ s' = s := by
  cases condition with
  | true =>
    cases h
    exact ⟨rfl, rfl⟩
  | false =>
    cases h
    exact absurd hclean (not_clean_report hissue)

lemma of_openScope (h : openScope.run s = (result, s')) :
    s'.names = [] :: s.names ∧ ∀ ids, s.analysis.EqOn ids s'.analysis := by
  cases h
  exact ⟨rfl, fun ids => ⟨rfl, fun _ _ => rfl, fun _ _ => rfl⟩⟩

lemma of_closeScope (h : (closeScope context).run s = (result, s')) (hclean : s'.Clean) :
    s'.names = s.names.tail ∧ ∀ ids, s.analysis.EqOn ids s'.analysis := by
  replace h := of_analysis h
  unfold Declarations.closeScope at h
  cases hscopes : s.analysis.declarations.scopes with
  | nil =>
    rw [hscopes] at h
    cases h
    exact absurd hclean (not_clean_report rfl)
  | cons scope outer =>
    rw [hscopes] at h
    obtain ⟨_, t, ht, h⟩ := runState_bind.mp h
    cases ht
    have hanalysis := analysis_reportAll h
    unfold Inspection.names
    rw [hanalysis]
    refine ⟨?_, fun ids => ⟨rfl, fun _ _ => rfl, fun _ _ => rfl⟩⟩
    simp [Declarations.names, hscopes]

lemma ok_of_declare {change : Declarations → Except Issue Declarations}
    (hissue : ∀ issue, change s.analysis.declarations = .error issue → issue.isWarning = false)
    (h : (declare context change).run s = (result, s')) (hclean : s'.Clean) :
    ∃ d, change s.analysis.declarations = .ok d ∧
      s' = { s with analysis := { s.analysis with declarations := d } } := by
  replace h := of_analysis h
  split at h
  · rename_i d hd
    cases h
    exact ⟨d, hd, rfl⟩
  · rename_i issue herror
    cases h
    exact absurd hclean (not_clean_report (hissue issue herror))

lemma of_declare (h : (declare context fun ds => ds.declare name type line).run s = (result, s')) (hclean : s'.Clean) :
    s'.names = s.names.bind name type ∧ ∀ ids, s.analysis.EqOn ids s'.analysis := by
  obtain ⟨d, hdeclare, rfl⟩ := ok_of_declare (fun _ h => (Declarations.of_declare_error h).1) h hclean
  obtain ⟨hnames, hfunctions, -⟩ := Declarations.declare_ok hdeclare
  exact ⟨hnames, fun ids => ⟨hfunctions, fun _ _ => rfl, fun _ _ => rfl⟩⟩

end Scopes

section Statements

variable {context : Context} {s t s' : Inspection} {result : Unit}

/-- What a clean analysis of a statement has done. -/
structure StmtChecked (stmt : Stmt) (s s' : Inspection) : Prop where
  rest : s.Extends stmt.ids s'
  names : s'.names = stmt.binds s.names
  typed : stmt.Typed s'.analysis s.names

/-- What a clean analysis of a block has done. -/
structure BlockChecked (block : List Stmt) (s s' : Inspection) : Prop where
  rest : s.Extends (Stmt.blockIds block) s'
  outer : s'.names.tail = s.names.tail
  typed : Stmt.BlockTyped s'.analysis s.names block

/-- In a clean analysis an expression has the type that is asked of it. -/
lemma of_required {e : Expr} {good : Ty → Bool} {issue : Ty → Issue} (hissue : ∀ type, (issue type).isWarning = false)
    (h : (exprType context e >>= fun type =>
      if !good type then report context (issue type) else pure () : Inspect Unit).run s = (result, s'))
    (hclean : s'.Clean) (hfresh : s.Fresh e.ids) :
    ∃ type, Checked e type s s' ∧ good (s'.analysis.types.typeOf e.id) = true := by
  obtain ⟨type, t, htype, h⟩ := runState_bind.mp h
  obtain ⟨hgood, rfl⟩ := of_reportUnless (hissue type) h hclean
  have hchecked := checked_of_exprType e s type s' htype hclean hfresh
  exact ⟨type, hchecked, hchecked.typeOf ▸ hgood⟩

lemma of_initialValue {value : Option Expr} (h : (initialValue context type value).run s = (result, s'))
    (hclean : s'.Clean) (hfresh : s.Fresh (value.toList.flatMap Expr.ids)) :
    s.Extends (value.toList.flatMap Expr.ids) s' ∧ s'.names = s.names ∧
      ∀ e ∈ value, e.AllTyped s'.analysis s.names ∧
        type.unifies (s'.analysis.types.typeOf e.id) = true := by
  cases value with
  | none =>
    cases h
    exact ⟨.refl _ _, rfl, by simp⟩
  | some e =>
    simp only [Option.toList_some, flatMap_singleton] at hfresh ⊢
    obtain ⟨_, hchecked, hunify⟩ := of_required (fun _ => rfl) h hclean hfresh
    refine ⟨hchecked.rest, hchecked.names, ?_⟩
    rintro e' ⟨⟩
    exact ⟨hchecked.typed, hunify⟩

lemma of_declarators {ds : List Declarator} (h : (declarators context type ds).run s = (result, s'))
    (hclean : s'.Clean) (hfresh : s.Fresh ((ds.flatMap fun d => d.value.toList).flatMap Expr.ids)) :
    s.Extends ((ds.flatMap fun d => d.value.toList).flatMap Expr.ids) s' ∧
      s'.names = Stmt.bindAll s.names type ds ∧
      Stmt.DeclaratorsTyped s'.analysis type s.names ds := by
  induction ds generalizing s with
  | nil =>
    cases h
    exact ⟨.refl _ _, rfl, trivial⟩
  | cons d rest ih =>
    rw [declarators, runState_bind] at h
    obtain ⟨_, t, hvalue, h⟩ := h
    rw [runState_bind] at h
    obtain ⟨_, u, hdeclare, h⟩ := h
    rw [flatMap_cons, flatMap_append] at hfresh ⊢
    have hu : u.Clean := KeepsErrors.closed.declarators _ _ (fun _ _ _ _ _ _ => trivial) _ _ _ h hclean
    have ht : t.Clean := KeepsErrors.declare _ _ _ _ _ hdeclare hu
    obtain ⟨hext, hnames, hinitial⟩ := of_initialValue hvalue ht hfresh.left
    obtain ⟨hbind, hsame⟩ := of_declare hdeclare hu
    have hu' := hext.trans (hsame _)
    obtain ⟨hext', hnames', htyped⟩ := ih h (hfresh.right hu')
    have hΓ : u.names = s.names.bind d.name type := by rw [hbind, hnames]
    refine ⟨Inspection.Extends.append hu' hext', by rw [hnames', hΓ]; rfl, ?_, hΓ ▸ htyped⟩
    intro e he
    obtain ⟨he₁, he₂⟩ := hinitial e he
    have hkept : ∀ id ∈ e.ids, id ∈ {id | id ∉ (rest.flatMap fun d => d.value.toList).flatMap Expr.ids} :=
      fun id hid => hfresh.disjoint (mem_flatMap.mpr ⟨e, Option.mem_toList.mpr he, hid⟩)
    have hts' := ((hsame _).trans hext')
    exact ⟨he₁.congr hts' hkept, hts'.typeOf (hkept _ e.id_mem_ids) ▸ he₂⟩

lemma of_loopVariableType {source : Ty} (h : (loopVariableType context source).run s = (type, s')) (hclean : s'.Clean) :
    source.element? = .ok type ∧ s' = s := by
  unfold loopVariableType at h
  cases helement : source.element? with
  | ok found =>
    rw [helement] at h
    cases h
    exact ⟨rfl, rfl⟩
  | error e =>
    rw [helement] at h
    cases h
    exact absurd hclean (not_clean_report rfl)

lemma BlockChecked.close {u : Inspection} (hnames : t.names = inner :: s.names)
    (hst : ∀ ids, s.analysis.EqOn ids t.analysis) (hbody : BlockChecked body t u)
    (hclose : (closeScope context).run u = (result, s')) (hclean : s'.Clean) :
    s.Extends (Stmt.blockIds body) s' ∧ s'.names = s.names ∧
      Stmt.BlockTyped s'.analysis (inner :: s.names) body := by
  obtain ⟨htail, hsame⟩ := of_closeScope hclose hclean
  refine ⟨((hst _).trans hbody.rest).trans (hsame _), ?_, ?_⟩
  · rw [htail, hbody.outer, hnames, tail_cons]
  · rw [← hnames]
    exact Stmt.BlockTyped.congr (hsame Set.univ) body _ (fun _ _ => trivial) hbody.typed

lemma BlockChecked.cons {stmt : Stmt} {rest : List Stmt}
    (hfresh : s.Fresh (Stmt.blockIds (stmt :: rest))) (hstmt : StmtChecked stmt s t)
    (hrest : BlockChecked rest t s') : BlockChecked (stmt :: rest) s s' := by
  rw [Stmt.blockIds_cons] at hfresh
  refine ⟨?_, ?_, ?_, ?_⟩
  · rw [Stmt.blockIds_cons]
    exact Inspection.Extends.append hstmt.rest hrest.rest
  · rw [hrest.outer, hstmt.names, Stmt.tail_binds]
  · have hsingle : Stmt.BlockTyped t.analysis s.names [stmt] := ⟨hstmt.typed, trivial⟩
    refine (Stmt.BlockTyped.congr hrest.rest [stmt] _ ?_ hsingle).1
    intro id hid
    rw [Stmt.blockIds_cons, Stmt.blockIds_nil, append_nil] at hid
    exact hfresh.disjoint hid
  · exact hstmt.names ▸ hrest.typed

/-- What an analysis of a block gives when it is clean. -/
abbrev ChecksBlock (block : List Stmt) : Prop :=
  ∀ context s result s', (statements context block).run s = (result, s') → s'.Clean →
    s.Fresh (Stmt.blockIds block) → BlockChecked block s s'

lemma of_conditional {statement : String} {e : Expr} {t₁ t₂ t₃ : Inspection} {inner outer : Context}
    (ih : ChecksBlock body) (hcondition : (condition context statement e).run s = (result, t₁))
    (hopen : openScope.run t₁ = (result, t₂)) (hbody : (statements inner body).run t₂ = (result, t₃))
    (hclose : (closeScope outer).run t₃ = (result, s')) (hclean : s'.Clean)
    (hfresh : s.Fresh (e.ids ++ Stmt.blockIds body)) :
    s.Extends (e.ids ++ Stmt.blockIds body) s' ∧ s'.names = s.names ∧ e.AllTyped s'.analysis s.names ∧
      (s'.analysis.types.typeOf e.id).isBool = true ∧
      Stmt.BlockTyped s'.analysis ([] :: s.names) body := by
  have ht₃ : t₃.Clean := KeepsErrors.closeScope _ _ _ _ hclose hclean
  have ht₂ : t₂.Clean := KeepsErrors.statements _ _ _ _ _ hbody ht₃
  have ht₁ : t₁.Clean := KeepsErrors.openScope _ _ _ hopen ht₂
  obtain ⟨type, he, hbool⟩ := of_required (fun _ => rfl) hcondition ht₁ hfresh.left
  obtain ⟨hnames, hsame⟩ := of_openScope hopen
  have hchecked := ih _ _ _ _ hbody ht₃ (hfresh.right (he.rest.trans (hsame _)))
  obtain ⟨hext, hnames', htyped⟩ := hchecked.close hnames hsame hclose hclean
  have hkept : ∀ id ∈ e.ids, id ∈ {id | id ∉ Stmt.blockIds body} := fun id hid => hfresh.disjoint hid
  exact ⟨Inspection.Extends.append he.rest hext, hnames'.trans he.names, he.typed.congr hext hkept,
    hext.typeOf (hkept _ e.id_mem_ids) ▸ hbool, he.names ▸ htyped⟩

/-- A clean analysis of a block records types by the rules at its nodes. -/
theorem checked_of_statements (block : List Stmt) : ChecksBlock block := by
  induction block using Stmt.block_induction (fun stmt => ∀ context s result s',
    (statement context stmt).run s = (result, s') → s'.Clean → s.Fresh stmt.ids →
      StmtChecked stmt s s') with
  | declare type ds line context s result s' h hclean hfresh =>
    rw [Stmt.ids_declare] at hfresh
    obtain ⟨hext, hnames, htyped⟩ := of_declarators h hclean hfresh
    exact ⟨Stmt.ids_declare line type ds ▸ hext, hnames, htyped⟩
  | assign target value line context s result s' h hclean hfresh =>
    rw [Stmt.ids_assign] at hfresh
    obtain ⟨targetType, valueType, t, hpair, h⟩ := of_pair h
    obtain ⟨hunify, rfl⟩ := of_reportUnless rfl h hclean
    have hall := allChecked_of_exprTypes (fun e _ => checked_of_exprType e) hpair hclean
      (by simpa using hfresh)
    have htypes := hall.types
    simp only [map_cons, map_nil, List.cons.injEq, and_true] at htypes
    refine ⟨?_, hall.names, hall.typed target (by simp), hall.typed value (by simp), ?_⟩
    · rw [Stmt.ids_assign]
      simpa using hall.rest
    · rw [htypes.1, htypes.2]
      exact hunify
  | ifThen condition body line ih context s result s' h hclean hfresh
  | whileDo condition body line ih context s result s' h hclean hfresh =>
    simp only [statement, runState_bind] at h
    obtain ⟨_, t₁, hcondition, _, t₂, hopen, _, t₃, hbody, hclose⟩ := h
    obtain ⟨hext, hnames, htyped⟩ := of_conditional ih hcondition hopen hbody hclose hclean hfresh
    exact ⟨hext, hnames, htyped⟩
  | ifElse condition thenBody elseBody line ihthen ihelse context s result s' h hclean hfresh =>
    rw [Stmt.ids_ifElse, ← append_assoc] at hfresh
    simp only [statement, runState_bind] at h
    obtain ⟨_, t₁, hcondition, _, t₂, hopen, _, t₃, hthen, _, t, hclose, _, t₄, hopen', _, t₅, helse,
      hclose'⟩ := h
    have ht₅ : t₅.Clean := KeepsErrors.closeScope _ _ _ _ hclose' hclean
    have ht₄ : t₄.Clean := KeepsErrors.statements _ _ _ _ _ helse ht₅
    have ht : t.Clean := KeepsErrors.openScope _ _ _ hopen' ht₄
    obtain ⟨hext, hnames, hcond, hbool, hthenTyped⟩ :=
      of_conditional ihthen hcondition hopen hthen hclose ht hfresh.left
    obtain ⟨hnames₄, hsame⟩ := of_openScope hopen'
    have hchecked := ihelse _ _ _ _ helse ht₅ (hfresh.right (hext.trans (hsame _)))
    obtain ⟨hext', hnames', helseTyped⟩ := hchecked.close hnames₄ hsame hclose' hclean
    have hkept : ∀ id ∈ condition.ids ++ Stmt.blockIds thenBody,
        id ∈ {id | id ∉ Stmt.blockIds elseBody} := fun id hid => hfresh.disjoint hid
    rw [forall_mem_append] at hkept
    refine ⟨?_, hnames'.trans hnames, hcond.congr hext' hkept.1,
      hext'.typeOf (hkept.1 _ condition.id_mem_ids) ▸ hbool,
      Stmt.BlockTyped.congr hext' thenBody _ hkept.2 hthenTyped, hnames ▸ helseTyped⟩
    rw [Stmt.ids_ifElse, ← append_assoc]
    exact Inspection.Extends.append hext hext'
  | forAll name source body line ih context s result s' h hclean hfresh =>
    rw [Stmt.ids_forAll] at hfresh
    simp only [statement, runState_bind] at h
    obtain ⟨sourceType, t₁, hsource, type, t₂, hvariable, _, t₃, hopen, _, t₄, hdeclare, _, t₅, hbody,
      hclose⟩ := h
    have ht₅ : t₅.Clean := KeepsErrors.closeScope _ _ _ _ hclose hclean
    have ht₄ : t₄.Clean := KeepsErrors.statements _ _ _ _ _ hbody ht₅
    have ht₃ : t₃.Clean := KeepsErrors.declare _ _ _ _ _ hdeclare ht₄
    have ht₂ : t₂.Clean := KeepsErrors.openScope _ _ _ hopen ht₃
    obtain ⟨helement, rfl⟩ := of_loopVariableType hvariable ht₂
    have hchecked := checked_of_exprType source s sourceType t₂ hsource ht₂ hfresh.left
    obtain ⟨hnames₃, hsame₃⟩ := of_openScope hopen
    obtain ⟨hnames₄, hsame₄⟩ := of_declare hdeclare ht₄
    have hsame : ∀ ids, t₂.analysis.EqOn ids t₄.analysis := fun ids => (hsame₃ ids).trans (hsame₄ ids)
    have hinner : t₄.names = [(name, type)] :: t₂.names := by
      rw [hnames₄, hnames₃]
      rfl
    have hblock := ih _ _ _ _ hbody ht₅ (hfresh.right (hchecked.rest.trans (hsame _)))
    obtain ⟨hext, hnames, htyped⟩ := hblock.close hinner hsame hclose hclean
    have hkept : ∀ id ∈ source.ids, id ∈ {id | id ∉ Stmt.blockIds body} := fun id hid =>
      hfresh.disjoint hid
    refine ⟨?_, hnames.trans hchecked.names, hchecked.typed.congr hext hkept, type, ?_,
      hchecked.names ▸ htyped⟩
    · rw [Stmt.ids_forAll]
      exact Inspection.Extends.append hchecked.rest hext
    · rw [hext.typeOf (hkept _ source.id_mem_ids), hchecked.typeOf]
      exact helement
  | returns value line context s result s' h hclean hfresh =>
    rw [Stmt.ids_returns] at hfresh
    cases value with
    | none =>
      cases h
      exact ⟨.refl _ _, rfl, by simp [Stmt.Typed]⟩
    | some value =>
      simp only [Option.toList_some, flatMap_singleton] at hfresh
      rw [statement, runState_bind] at h
      obtain ⟨type, t, htype, h⟩ := h
      cases h
      have hvalue := checked_of_exprType value s type _ htype hclean hfresh
      refine ⟨?_, hvalue.names, ?_⟩
      · rw [Stmt.ids_returns]
        simpa using hvalue.rest
      · rintro e ⟨⟩
        exact hvalue.typed
  | score value line context s result s' h hclean hfresh =>
    rw [Stmt.ids_score] at hfresh
    obtain ⟨type, hvalue, hnum⟩ := of_required (fun _ => rfl) h hclean hfresh
    exact ⟨Stmt.ids_score line value ▸ hvalue.rest, hvalue.names, hvalue.typed, hnum⟩
  | call site line context s result s' h hclean hfresh =>
    rw [Stmt.ids_call] at hfresh
    rw [statement, runState_bind] at h
    obtain ⟨type, t, htype, h⟩ := h
    cases h
    have hsite := checked_of_exprType site s type _ htype hclean hfresh
    exact ⟨Stmt.ids_call line site ▸ hsite.rest, hsite.names, hsite.typed⟩
  | nil =>
    intro context s result s' h hclean hfresh
    cases h
    exact ⟨.refl _ _, rfl, trivial⟩
  | cons stmt rest ihstmt ihrest =>
    intro context s result s' h hclean hfresh
    rw [statements, runState_bind] at h
    obtain ⟨_, t, hstmt, hrest⟩ := h
    have ht : t.Clean := KeepsErrors.statements rest _ _ _ _ hrest hclean
    have hparts := hfresh
    rw [Stmt.blockIds_cons] at hparts
    have hchecked := ihstmt context s _ t hstmt ht hparts.left
    exact .cons hfresh hchecked (ihrest context t _ s' hrest hclean (hparts.right hchecked.rest))

end Statements

namespace KeepsErrors

lemma each {step : α → Inspect Unit} (h : ∀ a, KeepsErrors (step a)) (items : List α) :
    KeepsErrors (each step items) :=
  closed.each fun a _ => h a

lemma global (g : GlobalDef) : KeepsErrors (global g) :=
  closed.global g fun _ _ => trivial

lemma functionOutcome (context : Context) (f : FunctionDef) :
    KeepsErrors (functionOutcome context f) :=
  closed.functionOutcome context f

lemma function (f : FunctionDef) : KeepsErrors (function f) :=
  closed.function f fun _ _ _ _ _ _ => trivial

lemma rule (r : RuleDef) : KeepsErrors (rule r) :=
  closed.rule r (fun _ _ _ _ => trivial) fun _ _ _ _ _ _ => trivial

lemma unusedGlobals : KeepsErrors unusedGlobals :=
  closed.unusedGlobals

end KeepsErrors

end Inspect

namespace Declarations

def signatures (functions : List (String × FunctionEntry)) : List (String × Header) :=
  functions.flatMap fun (name, f) => f.headers.map fun header => (name, header)

lemma signatures_append (functions others : List (String × FunctionEntry)) :
    signatures (functions ++ others) = signatures functions ++ signatures others :=
  flatMap_append

end Declarations

namespace Inspect

section Definitions

variable {context : Context} {s t s' : Inspection} {result : Unit}

/-- What a step has done that only makes settings and defines functions, each with one header. -/
structure Prepared (added : List (String × FunctionEntry)) (s s' : Inspection) : Prop where
  names : s'.names = s.names
  types : s'.analysis.types = s.analysis.types
  calls : s'.analysis.calls = s.analysis.calls
  returnTypes : s'.analysis.declarations.returnTypes ⊆
    added.map (fun entry => entry.2.returnType) ++ s.analysis.declarations.returnTypes
  signatures : Declarations.signatures s'.analysis.declarations.functions ⊆
    Declarations.signatures added ++ Declarations.signatures s.analysis.declarations.functions

lemma Prepared.trans {added added' : List (String × FunctionEntry)} (h : Prepared added s t)
    (h' : Prepared added' t s') : Prepared (added ++ added') s s' := by
  refine ⟨h'.names.trans h.names, h'.types.trans h.types, h'.calls.trans h.calls, fun type htype => ?_,
    fun entry hentry => ?_⟩
  · rcases mem_append.mp (h'.returnTypes htype) with hmem | hmem
    · simp [mem_append, hmem]
    · rcases mem_append.mp (h.returnTypes hmem) with hmem | hmem <;> simp [mem_append, hmem]
  · rw [Declarations.signatures_append]
    rcases mem_append.mp (h'.signatures hentry) with hmem | hmem
    · simp [mem_append, hmem]
    · rcases mem_append.mp (h.signatures hmem) with hmem | hmem <;> simp [mem_append, hmem]

/-- A step that only makes settings and defines the given functions. -/
def Prepares (added : List (String × FunctionEntry)) (x : Inspect Unit) : Prop :=
  ∀ s result s', x.run s = (result, s') → Prepared added s s'

lemma prepares_each {step : α → Inspect Unit} {added : α → List (String × FunctionEntry)}
    (h : ∀ x, Prepares (added x) (step x)) (items : List α) : Prepares (items.flatMap added) (each step items) := by
  induction items with
  | nil =>
    intro s result s' h
    cases h
    exact ⟨rfl, rfl, rfl, List.Subset.refl _, List.Subset.refl _⟩
  | cons x rest ih =>
    intro s result s' hrun
    obtain ⟨_, t, ht, hrest⟩ := runState_bind.mp hrun
    exact (h x s _ t ht).trans (ih t result s' hrest)

lemma prepares_setting (entry : ConfigEntry) : Prepares [] (setting entry) := by
  intro s result s' h
  replace h := of_analysis h
  split at h <;> (cases h; exact ⟨rfl, rfl, rfl, List.Subset.refl _, List.Subset.refl _⟩)

lemma returnTypes_addHeader (functions : List (String × FunctionEntry)) (name : String)
    (header : Header) :
    (Declarations.addHeader functions name header).map (fun entry => entry.2.returnType) =
      functions.map fun entry => entry.2.returnType := by
  rw [Declarations.addHeader, map_map]
  apply map_congr_left
  rintro ⟨n, f⟩ -
  simp only [Function.comp_apply]
  split <;> rfl

lemma signatures_addHeader (functions : List (String × FunctionEntry)) (name : String) (header : Header) :
    Declarations.signatures (Declarations.addHeader functions name header) ⊆
      (name, header) :: Declarations.signatures functions := by
  intro entry hentry
  obtain ⟨_, hmem, hheader⟩ := mem_flatMap.mp hentry
  obtain ⟨⟨n, f⟩, hf, rfl⟩ := mem_map.mp hmem
  have hold : ∀ k ∈ f.headers, (n, k) ∈ Declarations.signatures functions := fun k hk =>
    mem_flatMap.mpr ⟨(n, f), hf, mem_map.mpr ⟨k, hk, rfl⟩⟩
  dsimp only at hheader
  split at hheader
  · rename_i heq
    subst heq
    obtain ⟨k, hk, rfl⟩ := mem_map.mp hheader
    rcases mem_append.mp hk with hk | hk
    · exact mem_cons_of_mem _ (hold k hk)
    · rw [mem_singleton.mp hk]
      exact mem_cons_self
  · obtain ⟨k, hk, rfl⟩ := mem_map.mp hheader
    exact mem_cons_of_mem _ (hold k hk)

lemma of_defineFunction {d d' : Declarations} {returnType : Ty} {header : Header}
    (h : d.defineFunction name returnType header = .ok d') :
    d'.names = d.names ∧ d'.returnTypes ⊆ [returnType] ++ d.returnTypes ∧
      Declarations.signatures d'.functions ⊆ [(name, header)] ++ Declarations.signatures d.functions := by
  rcases Declarations.eq_of_defineFunction h with ⟨-, rfl⟩ | ⟨_, -, -, -, rfl⟩
  · refine ⟨rfl, ?_, ?_⟩
    · simp [Declarations.returnTypes]
    · simp [Declarations.signatures]
  · refine ⟨rfl, ?_, signatures_addHeader _ _ _⟩
    rw [Declarations.returnTypes, returnTypes_addHeader]
    exact subset_append_right _ _

lemma prepares_defineFunction (context : Context) (name : String) (returnType : Ty) (header : Header) :
    Prepares [(name, ⟨returnType, [header]⟩)]
      (declare context fun ds => ds.defineFunction name returnType header) := by
  intro s result s' h
  replace h := of_analysis h
  split at h
  · rename_i declarations hok
    cases h
    obtain ⟨hnames, hresults, hsignatures⟩ := of_defineFunction hok
    exact ⟨hnames, rfl, rfl, hresults, hsignatures⟩
  · cases h
    exact ⟨rfl, rfl, rfl, subset_append_right _ _, subset_append_right _ _⟩

lemma prepares_predefined (f : Predefined) :
    Prepares [(f.name, ⟨f.returnType, [.ofPredefined f.params]⟩)] (predefined f) :=
  prepares_defineFunction _ _ _ _

lemma prepares_registerFunction (f : FunctionDef) :
    Prepares [(f.name, ⟨f.returnType, [functionHeader f]⟩)] (registerFunction f) :=
  prepares_defineFunction _ _ _ _

def registered (p : Program) : List (String × FunctionEntry) :=
  Predefined.all.map (fun f => (f.name, ⟨f.returnType, [.ofPredefined f.params]⟩)) ++
    p.functions.map fun f => (f.name, ⟨f.returnType, [functionHeader f]⟩)

lemma prepared_of_passes {t₁ t₂ t₃ : Inspection} (hsettings : (each setting p.config).run s = (result, t₁))
    (hpredefined : (each predefined Predefined.all).run t₁ = (result, t₂))
    (hregister : (each registerFunction p.functions).run t₂ = (result, t₃)) : Prepared (registered p) s t₃ := by
  have h₁ := prepares_each prepares_setting p.config _ _ _ hsettings
  have h₂ := prepares_each prepares_predefined Predefined.all _ _ _ hpredefined
  have h₃ := prepares_each prepares_registerFunction p.functions _ _ _ hregister
  have hall := (h₁.trans h₂).trans h₃
  simp only [flatMap_eq_nil_iff.mpr fun _ _ => rfl, nil_append, ← map_eq_flatMap] at hall
  exact hall

lemma of_program (h : (program p).run s = (result, s')) :
    ∃ t, Prepared (registered p) s t ∧ (definitions p).run t = (result, s') := by
  simp only [program, runState_bind] at h
  obtain ⟨_, t₁, hsettings, _, t₂, hpredefined, _, t₃, hregister, hrest⟩ := h
  exact ⟨t₃, prepared_of_passes hsettings hpredefined hregister,
    by simpa only [definitions, runState_bind] using hrest⟩

lemma names_defineGlobal {d d' : Declarations} (hnames : d.names = [block])
    (h : d.defineGlobal name type line = .ok d') : d'.names = [(name, type) :: block] ∧ d'.functions = d.functions := by
  have hscopes : d.scopes = [] := by
    simpa [Declarations.names] using congrArg List.length hnames
  have hglobals : d.globals.names = block := by simpa [Declarations.names, hscopes] using hnames
  obtain ⟨-, rfl⟩ := Declarations.eq_of_defineGlobal h
  refine ⟨?_, rfl⟩
  rw [← hglobals]
  simp [Declarations.names, hscopes, Scope.names, Scope.bind]

lemma of_global {g : GlobalDef} (hnames : s.names = [block]) (h : (global g).run s = (result, s')) (hclean : s'.Clean)
    (hfresh : s.Fresh g.value.ids) :
    s.Extends g.value.ids s' ∧ s'.names = [(g.name, g.type) :: block] ∧
      g.value.AllTyped s'.analysis [block] ∧
      g.type.unifies (s'.analysis.types.typeOf g.value.id) = true := by
  obtain ⟨type, t, htype, h⟩ := runState_bind.mp h
  have hdeclare : g.type.unifies type = true ∧
      (declare (.ofDefinition .global g.name g.line)
        fun ds => ds.defineGlobal g.name g.type g.line).run t = (result, s') := by
    cases hunify : g.type.unifies type with
    | true =>
      rw [hunify] at h
      exact ⟨rfl, h⟩
    | false =>
      rw [hunify] at h
      obtain ⟨_, u, hreport, h⟩ := runState_bind.mp h
      cases hreport
      exact absurd (KeepsErrors.declare _ _ _ _ _ h hclean) (not_clean_report rfl)
  have ht : t.Clean := KeepsErrors.declare _ _ _ _ _ hdeclare.2 hclean
  have hchecked := checked_of_exprType g.value s type t htype ht hfresh
  have hblock : t.names = [block] := hchecked.names.trans hnames
  obtain ⟨d, hok, rfl⟩ := ok_of_declare (fun _ h => (Declarations.isError_defineGlobal h).error) hdeclare.2 hclean
  obtain ⟨hnames', hfunctions⟩ := names_defineGlobal hblock hok
  have hsame : ∀ ids, t.analysis.EqOn ids { t.analysis with declarations := d } :=
    fun ids => ⟨hfunctions, fun _ _ => rfl, fun _ _ => rfl⟩
  refine ⟨hchecked.rest.trans (hsame _), hnames', ?_, ?_⟩
  · rw [← hnames]
    exact hchecked.typed.congr (hsame Set.univ) fun _ _ => trivial
  · rw [← hchecked.typeOf] at hdeclare
    exact hdeclare.1

lemma of_globals {gs : List GlobalDef} (hnames : s.names = [block]) (h : (each global gs).run s = (result, s'))
    (hclean : s'.Clean) (hfresh : s.Fresh (gs.flatMap fun g => g.value.ids)) :
    s.Extends (gs.flatMap fun g => g.value.ids) s' ∧
      s'.names = [(gs.map fun g => (g.name, g.type)).reverse ++ block] ∧
      Program.GlobalsTyped s'.analysis block gs := by
  induction gs generalizing s block with
  | nil =>
    cases h
    exact ⟨.refl _ _, by simpa using hnames, trivial⟩
  | cons g rest ih =>
    obtain ⟨_, t, hg, hrest⟩ := runState_bind.mp h
    rw [flatMap_cons] at hfresh ⊢
    have ht : t.Clean := KeepsErrors.each KeepsErrors.global rest _ _ _ hrest hclean
    obtain ⟨hext, hblock, htyped, hunify⟩ := of_global hnames hg ht hfresh.left
    obtain ⟨hext', hnames', hglobals⟩ := ih hblock hrest (hfresh.right hext)
    have hkept : ∀ id ∈ g.value.ids, id ∈ {id | id ∉ rest.flatMap fun g => g.value.ids} :=
      fun id hid => hfresh.disjoint hid
    refine ⟨Inspection.Extends.append hext hext', by simpa using hnames', htyped.congr hext' hkept, ?_,
      hglobals⟩
    rw [hext'.typeOf (hkept _ g.value.id_mem_ids)]
    exact hunify

lemma of_params {context : Context} {params : List Param} (hnames : s.names = inner :: Γ)
    (h : (each (param context) params).run s = (result, s')) (hclean : s'.Clean) :
    s'.names = ((params.map fun p => (p.name, p.type)).reverse ++ inner) :: Γ ∧
      ∀ ids, s.analysis.EqOn ids s'.analysis := by
  induction params generalizing s inner with
  | nil =>
    cases h
    exact ⟨by simpa using hnames, fun ids => .refl ids _⟩
  | cons p rest ih =>
    obtain ⟨_, t, hp, hrest⟩ := runState_bind.mp h
    have ht : t.Clean := KeepsErrors.each (fun _ => KeepsErrors.declare _ _) rest _ _ _ hrest hclean
    obtain ⟨hbind, hsame⟩ := of_declare hp ht
    rw [hnames] at hbind
    obtain ⟨hnames', hsame'⟩ := ih hbind hrest
    exact ⟨by simpa using hnames', fun ids => (hsame ids).trans (hsame' ids)⟩

/-- A step that at most files issues. -/
def Reports (x : Inspect Unit) : Prop :=
  ∀ s result s', x.run s = (result, s') → s'.analysis = s.analysis

lemma Reports.bind {x y : Inspect Unit} (hx : Reports x) (hy : Reports y) :
    Reports (x >>= fun _ => y) := by
  intro s result s' h
  obtain ⟨_, t, ht, h⟩ := runState_bind.mp h
  exact (hy t result s' h).trans (hx s _ t ht)

lemma reports_reportAll (context : Context) (issues : List (Issue × Nat)) :
    Reports (reportAll context issues) :=
  fun _ _ _ h => analysis_reportAll h

lemma reports_reportUnless (condition : Bool) (context : Context) (issue : Issue) :
    Reports (if !condition then report context issue else pure ()) := by
  intro s result s' h
  split at h <;> (cases h; rfl)

lemma reports_wrongReturns (context : Context) (expected : Ty) (label : String) (body : List Stmt) :
    Reports (wrongReturns context expected label body) := by
  intro s result s' h
  replace h := of_analysis h
  exact analysis_reportAll h

lemma eq_nil_of_reportAll {issues : List (Issue × Nat)} (hissues : ∀ x ∈ issues, x.1.isWarning = false)
    (h : (reportAll context issues).run s = (result, s')) (hclean : s'.Clean) : issues = [] := by
  cases issues with
  | nil => rfl
  | cons issue rest =>
    obtain ⟨_, t, ht, h⟩ := runState_bind.mp h
    cases ht
    exact absurd (KeepsErrors.reportAll _ _ _ _ _ h hclean)
      (not_clean_report (hissues issue mem_cons_self))

lemma of_wrongReturns {expected : Ty} {label : String}
    (h : (wrongReturns context expected label body).run s = (result, s')) (hclean : s'.Clean) :
    Stmt.ReturnsTyped s.analysis.types expected body := by
  replace h := of_analysis h
  have hnone := eq_nil_of_reportAll (fun x hx => (Stmt.isError_blockWrongReturns body x hx).error) h hclean
  exact Stmt.returnsTyped_of_blockWrongReturns body hnone

lemma reports_functionOutcome (context : Context) (f : FunctionDef) :
    Reports (functionOutcome context f) := by
  unfold functionOutcome
  split
  · exact reports_reportUnless _ _ _
  · exact reports_reportUnless _ _ _

lemma of_body {u v : Inspection} {checks : Inspect Unit} {close : Context} (hnames : t.names = inner :: s.names)
    (hst : ∀ ids, s.analysis.EqOn ids t.analysis) (hbody : (statements context body).run t = (result, u))
    (hchecks : checks.run u = (result, v)) (hreports : Reports checks)
    (hclose : (closeScope close).run v = (result, s')) (hclean : s'.Clean) (hu : u.Clean)
    (hfresh : s.Fresh (Stmt.blockIds body)) :
    s.Extends (Stmt.blockIds body) s' ∧ s'.names = s.names ∧
      Stmt.BlockTyped s'.analysis (inner :: s.names) body ∧ u.analysis.EqOn Set.univ s'.analysis := by
  have hv := hreports u result v hchecks
  have hempty : t.Fresh (Stmt.blockIds body) :=
    ⟨hfresh.1, fun id hid => ((hst Set.univ).types id trivial).trans (hfresh.2 id hid)⟩
  obtain ⟨hrest, houter, htyped⟩ := checked_of_statements body _ _ _ _ hbody hu hempty
  have hblock : BlockChecked body t v := by
    refine ⟨?_, ?_, hv ▸ htyped⟩
    · unfold Inspection.Extends
      rw [hv]
      exact hrest
    · unfold Inspection.names
      rw [hv]
      exact houter
  obtain ⟨hext, hnames', hbodyTyped⟩ := hblock.close hnames hst hclose hclean
  exact ⟨hext, hnames', hbodyTyped, hv ▸ (of_closeScope hclose hclean).2 Set.univ⟩

/-- The rules of a function, given the names around it. -/
def FunctionTyped (a : Analysis) (Γ : NameTypes) (f : FunctionDef) : Prop :=
  Stmt.BlockTyped a (f.names :: Γ) f.body ∧ Stmt.ReturnsTyped a.types f.returnType f.body

lemma FunctionTyped.congr {f : FunctionDef} (hab : a.EqOn ids b) (hids : ∀ id ∈ Stmt.blockIds f.body, id ∈ ids)
    (h : FunctionTyped a Γ f) : FunctionTyped b Γ f :=
  ⟨Stmt.BlockTyped.congr hab f.body _ hids h.1, h.2.congr hab hids⟩

lemma of_function {f : FunctionDef} (h : (function f).run s = (result, s')) (hclean : s'.Clean)
    (hfresh : s.Fresh (Stmt.blockIds f.body)) :
    s.Extends (Stmt.blockIds f.body) s' ∧ s'.names = s.names ∧
      FunctionTyped s'.analysis s.names f := by
  simp only [function, runState_bind] at h
  obtain ⟨_, t₁, hopen, _, t₂, hparams, _, t₃, hbody, _, t₄, hreturns, _, t₅, hscores, _, t₆, houtcome,
    _, t₇, hunreachable, hclose⟩ := h
  have ht₇ : t₇.Clean := KeepsErrors.closeScope _ _ _ _ hclose hclean
  have ht₆ : t₆.Clean := KeepsErrors.reportAll _ _ _ _ _ hunreachable ht₇
  have ht₅ : t₅.Clean := KeepsErrors.functionOutcome _ _ _ _ _ houtcome ht₆
  have ht₄ : t₄.Clean := KeepsErrors.reportAll _ _ _ _ _ hscores ht₅
  have ht₃ : t₃.Clean :=
    (KeepsErrors.analysis.bind fun _ => KeepsErrors.reportAll _ _) _ _ _ hreturns ht₄
  have ht₂ : t₂.Clean := KeepsErrors.statements _ _ _ _ _ hbody ht₃
  obtain ⟨hnames₁, hsame₁⟩ := of_openScope hopen
  obtain ⟨hnames₂, hsame₂⟩ := of_params hnames₁ hparams ht₂
  have hreports := (reports_wrongReturns (functionContext f) f.returnType
    ("function '" ++ f.name ++ "'") f.body).bind
      ((reports_reportAll (functionContext f)
        ((blockScoreLines f.body).map fun line => (.scoreInFunction, line))).bind
        ((reports_functionOutcome (functionContext f) f).bind
          (reports_reportAll (functionContext f) (blockUnreachable f.body))))
  obtain ⟨hext, hnames, htyped, hkept⟩ := of_body (by simpa [FunctionDef.names] using hnames₂)
    (fun ids => (hsame₁ ids).trans (hsame₂ ids)) hbody
    (by simp only [runState_bind]; exact ⟨_, t₄, hreturns, _, t₅, hscores, _, t₆, houtcome, hunreachable⟩)
    hreports hclose hclean ht₃ hfresh
  exact ⟨hext, hnames, htyped, (of_wrongReturns hreturns ht₄).congr hkept fun _ _ => trivial⟩

lemma of_guard {e : Option Expr} (h : (guard context name e).run s = (result, s')) (hclean : s'.Clean)
    (hfresh : s.Fresh (e.toList.flatMap Expr.ids)) :
    s.Extends (e.toList.flatMap Expr.ids) s' ∧ s'.names = s.names ∧
      ∀ e' ∈ e, e'.AllTyped s'.analysis s.names ∧
        (s'.analysis.types.typeOf e'.id).isBool = true := by
  cases e with
  | none =>
    cases h
    exact ⟨.refl _ _, rfl, by simp⟩
  | some e =>
    simp only [Option.toList_some, flatMap_singleton] at hfresh ⊢
    obtain ⟨_, hchecked, hbool⟩ := of_required (fun _ => rfl) h hclean hfresh
    refine ⟨hchecked.rest, hchecked.names, ?_⟩
    rintro e' ⟨⟩
    exact ⟨hchecked.typed, hbool⟩

lemma of_declareRule {schedule : Schedule}
    (h : (declare context fun ds => ds.defineRule name schedule line).run s = (result, s')) :
    s'.names = s.names ∧ ∀ ids, s.analysis.EqOn ids s'.analysis := by
  replace h := of_analysis h
  split at h
  · rename_i declarations hok
    cases h
    obtain ⟨-, rfl⟩ := Declarations.eq_of_defineRule hok
    exact ⟨rfl, fun ids => ⟨rfl, fun _ _ => rfl, fun _ _ => rfl⟩⟩
  · cases h
    exact ⟨rfl, fun ids => ⟨rfl, fun _ _ => rfl, fun _ _ => rfl⟩⟩

/-- The rules of a rule, given the names around it. -/
def RuleTyped (a : Analysis) (Γ : NameTypes) (r : RuleDef) : Prop :=
  (∀ e ∈ r.guard, e.AllTyped a Γ ∧ (a.types.typeOf e.id).isBool = true) ∧
    Stmt.BlockTyped a ([] :: Γ) r.body ∧ Stmt.ReturnsTyped a.types .void r.body

lemma RuleTyped.congr {r : RuleDef} (hab : a.EqOn ids b)
    (hids : ∀ id ∈ r.guard.toList.flatMap Expr.ids ++ Stmt.blockIds r.body, id ∈ ids) (h : RuleTyped a Γ r) :
    RuleTyped b Γ r := by
  rw [forall_mem_append] at hids
  refine ⟨fun e he => ?_, Stmt.BlockTyped.congr hab r.body _ hids.2 h.2.1, h.2.2.congr hab hids.2⟩
  obtain ⟨htyped, hbool⟩ := h.1 e he
  have hsub : ∀ id ∈ e.ids, id ∈ ids := fun id hid =>
    hids.1 id (mem_flatMap.mpr ⟨e, Option.mem_toList.mpr he, hid⟩)
  exact ⟨htyped.congr hab hsub, hab.typeOf (hsub _ e.id_mem_ids) ▸ hbool⟩

lemma of_rule {r : RuleDef} (h : (rule r).run s = (result, s')) (hclean : s'.Clean)
    (hfresh : s.Fresh (r.guard.toList.flatMap Expr.ids ++ Stmt.blockIds r.body)) :
    s.Extends (r.guard.toList.flatMap Expr.ids ++ Stmt.blockIds r.body) s' ∧ s'.names = s.names ∧
      RuleTyped s'.analysis s.names r := by
  simp only [rule, runState_bind] at h
  obtain ⟨_, t₁, hoptions, _, t₂, hdeclare, _, t₃, hguard, _, t₄, hopen, _, t₅, hbody, _, t₆, hreturns,
    h⟩ := h
  have hend : ∃ t₇ t₈, (if !blockScores r.body then
        report (.ofDefinition .rule r.name r.line) (.noScoreInRule r.name) else pure ()).run t₆ = ((), t₇) ∧
      (reportAll (.ofDefinition .rule r.name r.line) (blockUnreachable r.body)).run t₇ = ((), t₈) ∧
      (closeScope (.ofDefinition .rule r.name r.line)).run t₈ = (result, s') := by
    cases hscores : blockScores r.body with
    | true =>
      rw [hscores] at h
      obtain ⟨_, t₈, hunreachable, hclose⟩ := runState_bind.mp h
      exact ⟨t₆, t₈, rfl, hunreachable, hclose⟩
    | false =>
      rw [hscores] at h
      obtain ⟨_, t₇, hreport, h⟩ := runState_bind.mp h
      obtain ⟨_, t₈, hunreachable, hclose⟩ := runState_bind.mp h
      exact ⟨t₇, t₈, hreport, hunreachable, hclose⟩
  obtain ⟨t₇, t₈, hscores, hunreachable, hclose⟩ := hend
  have ht₈ : t₈.Clean := KeepsErrors.closeScope _ _ _ _ hclose hclean
  have ht₇ : t₇.Clean := KeepsErrors.reportAll _ _ _ _ _ hunreachable ht₈
  have ht₆ : t₆.Clean := KeepsErrors.closed.reportUnless _ _ rfl _ _ _ hscores ht₇
  have ht₅ : t₅.Clean :=
    (KeepsErrors.analysis.bind fun _ => KeepsErrors.reportAll _ _) _ _ _ hreturns ht₆
  have ht₄ : t₄.Clean := KeepsErrors.statements _ _ _ _ _ hbody ht₅
  have ht₃ : t₃.Clean := KeepsErrors.openScope _ _ _ hopen ht₄
  have hsame₁ := analysis_reportAll hoptions
  obtain ⟨hnames₂, hsame₂⟩ := of_declareRule hdeclare
  have hst₂ : ∀ ids, s.analysis.EqOn ids t₂.analysis := fun ids => hsame₁ ▸ hsame₂ ids
  have hΓ : t₂.names = s.names := by
    rw [hnames₂]
    unfold Inspection.names
    rw [hsame₁]
  have hfresh₂ : t₂.Fresh (r.guard.toList.flatMap Expr.ids ++ Stmt.blockIds r.body) :=
    ⟨hfresh.1, fun id hid => ((hst₂ Set.univ).types id trivial).trans (hfresh.2 id hid)⟩
  obtain ⟨hext₃, hnames₃, hguardTyped⟩ := of_guard hguard ht₃ hfresh₂.left
  obtain ⟨hnames₄, hsame₄⟩ := of_openScope hopen
  have hreports := (reports_wrongReturns (.ofDefinition .rule r.name r.line) .void
    ("rule '" ++ r.name ++ "'") r.body).bind
      ((reports_reportUnless (blockScores r.body) (.ofDefinition .rule r.name r.line)
        (.noScoreInRule r.name)).bind
        (reports_reportAll (.ofDefinition .rule r.name r.line) (blockUnreachable r.body)))
  obtain ⟨hext, hnames, hblock, hclosed⟩ := of_body hnames₄ hsame₄ hbody
    (by simp only [runState_bind]; exact ⟨_, t₆, hreturns, _, t₇, hscores, hunreachable⟩) hreports hclose
    hclean ht₅ (hfresh₂.right hext₃)
  have hkept : ∀ e ∈ r.guard, ∀ id ∈ e.ids, id ∈ {id | id ∉ Stmt.blockIds r.body} :=
    fun e he id hid => hfresh.disjoint (mem_flatMap.mpr ⟨e, Option.mem_toList.mpr he, hid⟩)
  refine ⟨(hst₂ _).trans (Inspection.Extends.append hext₃ hext), hnames.trans (hnames₃.trans hΓ), ?_,
    hΓ ▸ hnames₃ ▸ hblock, (of_wrongReturns hreturns ht₆).congr hclosed fun _ _ => trivial⟩
  intro e he
  obtain ⟨htyped, hbool⟩ := hguardTyped e he
  refine ⟨hΓ ▸ htyped.congr hext (hkept e he), ?_⟩
  rw [hext.typeOf (hkept e he _ e.id_mem_ids)]
  exact hbool

/-- Definitions are checked one after another, each without effect on the nodes of the others. -/
lemma of_each {step : α → Inspect Unit} {ids : α → List Nat} {good : Analysis → NameTypes → α → Prop}
    (hkeeps : ∀ x, KeepsErrors (step x))
    (hstep : ∀ x s result s', (step x).run s = (result, s') → s'.Clean → s.Fresh (ids x) →
      s.Extends (ids x) s' ∧ s'.names = s.names ∧ good s'.analysis s.names x)
    (hcongr : ∀ x a b Γ set, Analysis.EqOn set a b → (∀ id ∈ ids x, id ∈ set) → good a Γ x → good b Γ x)
    {items : List α} (h : (each step items).run s = (result, s')) (hclean : s'.Clean)
    (hfresh : s.Fresh (items.flatMap ids)) :
    s.Extends (items.flatMap ids) s' ∧ s'.names = s.names ∧
      ∀ x ∈ items, good s'.analysis s.names x := by
  induction items generalizing s with
  | nil =>
    cases h
    exact ⟨.refl _ _, rfl, by simp⟩
  | cons x rest ih =>
    obtain ⟨_, t, hx, hrest⟩ := runState_bind.mp h
    rw [flatMap_cons] at hfresh ⊢
    have ht : t.Clean := KeepsErrors.each hkeeps rest _ _ _ hrest hclean
    obtain ⟨hext, hnames, hgood⟩ := hstep x s _ t hx ht hfresh.left
    obtain ⟨hext', hnames', hall⟩ := ih hrest (hfresh.right hext)
    refine ⟨Inspection.Extends.append hext hext', hnames'.trans hnames, ?_⟩
    intro y hy
    rcases mem_cons.mp hy with rfl | hy
    · exact hcongr y _ _ _ _ hext' (fun id hid => hfresh.disjoint hid) hgood
    · exact hnames ▸ hall y hy

lemma reports_each {step : α → Inspect Unit} (h : ∀ x, Reports (step x)) (items : List α) :
    Reports (each step items) := by
  induction items with
  | nil =>
    intro s result s' h
    cases h
    rfl
  | cons x rest ih => exact (h x).bind ih

lemma reports_unusedGlobals : Reports unusedGlobals := by
  intro s result s' h
  replace h := of_analysis h
  refine reports_each (fun entry => ?_) _ _ _ _ h
  intro s result s' h
  cases h
  rfl

end Definitions

end Inspect

namespace Program

lemma GlobalsTyped.congr (hab : a.EqOn ids b) {gs : List GlobalDef}
    (hids : ∀ id ∈ gs.flatMap fun g => g.value.ids, id ∈ ids) (h : GlobalsTyped a block gs) :
    GlobalsTyped b block gs := by
  induction gs generalizing block with
  | nil => trivial
  | cons g rest ih =>
    rw [flatMap_cons, forall_mem_append] at hids
    obtain ⟨htyped, hunify, hrest⟩ := h
    exact ⟨htyped.congr hab hids.1, hab.typeOf (hids.1 _ g.value.id_mem_ids) ▸ hunify,
      ih hids.2 hrest⟩

lemma get?_ofSize (size id : Nat) : (TypeTable.ofSize size).get? id = none := by
  simp only [TypeTable.get?, TypeTable.ofSize, Array.getD_eq_getD_getElem?, Array.getElem?_replicate]
  split <;> rfl

lemma fresh_of_types (hnodup : (p.nodes.map Expr.id).Nodup) {t : Inspection}
    (htypes : t.analysis.types = .ofSize p.exprCount) :
    t.Fresh (p.globals.flatMap (fun g => g.value.ids) ++
      (p.functions.flatMap (fun f => Stmt.blockIds f.body) ++ p.rules.flatMap
        fun r => r.guard.toList.flatMap Expr.ids ++ Stmt.blockIds r.body)) := by
  rw [map_id_nodes] at hnodup
  refine ⟨(perm_definitions p.definitions).nodup_iff.mp hnodup, fun id _ => ?_⟩
  rw [htypes]
  exact get?_ofSize _ _

lemma run_of_check {ds ds' : Diagnostics} (h : p.check ds = (a, ds')) :
    ∃ result final, (Inspect.program p).run ⟨p.file, Analysis.initial p.exprCount, ds⟩ = (result, final) ∧
      final.analysis = a ∧ final.diagnostics = ds' := by
  rw [check] at h
  exact ⟨_, _, Prod.eta _ |>.symm, Prod.mk.inj h⟩

/-- A program with distinct node numbers that is checked without errors follows the typing rules. -/
theorem typed_of_check (hnodup : (p.nodes.map Expr.id).Nodup) {ds ds' : Diagnostics} (h : p.check ds = (a, ds'))
    (hclean : ds'.errors = []) : p.Typed a := by
  obtain ⟨result, final, hrun, rfl, rfl⟩ := run_of_check h
  obtain ⟨t₃, hprepared, hrun⟩ := Inspect.of_program hrun
  simp only [Inspect.definitions, runState_bind] at hrun
  obtain ⟨_, t₄, hglobals, _, t₅, hfunctions, _, t₆, hrules, hunused⟩ := hrun
  -- no pass takes an error back, so a clean end means that the passes before it were clean
  have ht₆ : t₆.Clean := Inspect.KeepsErrors.unusedGlobals _ _ _ hunused hclean
  have ht₅ : t₅.Clean := Inspect.KeepsErrors.each Inspect.KeepsErrors.rule _ _ _ _ hrules ht₆
  have ht₄ : t₄.Clean := Inspect.KeepsErrors.each Inspect.KeepsErrors.function _ _ _ _ hfunctions ht₅
  have hΓ : t₃.names = [[]] := hprepared.names
  have hfresh := fresh_of_types hnodup hprepared.types
  obtain ⟨hext₄, hnames₄, hglobalsTyped⟩ := Inspect.of_globals hΓ hglobals ht₄ hfresh.left
  have hfresh₄ := hfresh.right hext₄
  obtain ⟨hext₅, hnames₅, hfunctionsTyped⟩ := Inspect.of_each Inspect.KeepsErrors.function
    (fun f s result s' => Inspect.of_function)
    (fun f a b Γ set hab hids => Inspect.FunctionTyped.congr hab hids) hfunctions ht₅ hfresh₄.left
  have hfresh₅ := hfresh₄.right hext₅
  obtain ⟨hext₆, -, hrulesTyped⟩ := Inspect.of_each Inspect.KeepsErrors.rule
    (fun r s result s' => Inspect.of_rule)
    (fun r a b Γ set hab hids => Inspect.RuleTyped.congr hab hids) hrules ht₆ hfresh₅
  have hfinal : final.analysis = t₆.analysis := Inspect.reports_unusedGlobals _ _ _ hunused
  have hgs : t₄.names = [p.globalNames] := by rw [hnames₄, globalNames, append_nil]
  have hfs : t₅.names = [p.globalNames] := hnames₅.trans hgs
  have hkept : t₆.analysis.declarations.functions = t₃.analysis.declarations.functions :=
    (hext₆.functions.trans hext₅.functions).trans hext₄.functions
  have hfunctionsFinal : ∀ f ∈ p.functions, Inspect.FunctionTyped t₆.analysis [p.globalNames] f := by
    intro f hf
    refine Inspect.FunctionTyped.congr hext₆ (fun id hid => hfresh₄.disjoint ?_) (hgs ▸ hfunctionsTyped f hf)
    exact mem_flatMap.mpr ⟨f, hf, hid⟩
  rw [hfinal]
  refine ⟨?_, ?_, fun f hf => (hfunctionsFinal f hf).1, ?_, ?_, fun f hf => (hfunctionsFinal f hf).2, ?_⟩
  · intro type htype
    rw [Declarations.returnTypes, hkept] at htype
    rcases mem_append.mp (hprepared.returnTypes htype) with hmem | hmem
    · simpa [Inspect.registered, Function.comp_def] using hmem
    · simp [Analysis.initial, Declarations.returnTypes] at hmem
  · exact GlobalsTyped.congr (hext₅.append hext₆) (fun id hid => hfresh.disjoint hid) hglobalsTyped
  · intro r hr
    exact (hfs ▸ hrulesTyped r hr).1
  · intro r hr
    exact (hfs ▸ hrulesTyped r hr).2.1
  · intro r hr
    exact (hfs ▸ hrulesTyped r hr).2.2

end Program

end ChessEval
