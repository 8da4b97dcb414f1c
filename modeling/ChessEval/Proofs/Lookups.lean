import ChessEval.Proofs.Scoping

/-!
# Where names are looked up

The analysis of a program with a log of the expressions that it types and the declarations in which it looks up
their names.
-/

namespace ChessEval

open List

lemma Blocks.lookup_of_place?_none {α : Type} {bindings : List (String × α)} {name : String}
    (h : place? name (bindings.map Prod.fst) = none) : bindings.lookup name = none := by
  have hmem : name ∉ bindings.map Prod.fst := place?_eq_none.mp h
  refine lookup_eq_none_iff.mpr fun entry hentry => ?_
  have hne : name ≠ entry.1 := fun heq => hmem (heq ▸ mem_map_of_mem hentry)
  simpa using hne

namespace NameTypes

def blocks (Γ : NameTypes) : Blocks :=
  Γ.map fun block => block.map Prod.fst

lemma blocks_bind (Γ : NameTypes) (name : String) (type : Ty) :
    (Γ.bind name type).blocks = Γ.blocks.declare name := by
  cases Γ <;> rfl

lemma blocks_tail (Γ : NameTypes) : blocks Γ.tail = Γ.blocks.tail :=
  map_tail

lemma declaration?_of_find? {Γ : NameTypes} {name : String} {type : Ty} (h : Γ.find? name = some type) :
    ∃ declaration, Γ.blocks.declaration? name = some declaration := by
  induction Γ with
  | nil => cases h
  | cons block outer ih =>
    rw [blocks, map_cons, Blocks.declaration?]
    cases hplace : Blocks.place? name (block.map Prod.fst) with
    | some place => exact ⟨_, rfl⟩
    | none =>
      rw [find?, findSome?_cons, Blocks.lookup_of_place?_none hplace] at h
      exact ih h

end NameTypes

namespace Scope

def block (scope : Scope) : List String :=
  scope.map Prod.fst

lemma find?_of_place? {scope : Scope} {name : String} {place : Nat}
    (h : Blocks.place? name scope.block = some place) :
    ∃ b, scope.find? name = some b ∧ scope.reverse[place]? = some (name, b) := by
  induction scope with
  | nil => cases h
  | cons entry rest ih =>
    obtain ⟨latest, b⟩ := entry
    by_cases hname : latest = name
    · have hplace : place = rest.length := by simpa [block, Blocks.place?, hname, eq_comm] using h
      refine ⟨b, ?_, by simp [hplace, hname]⟩
      rw [hname]
      exact lookup_cons_self
    · rw [block, map_cons, Blocks.place?_of_ne hname] at h
      obtain ⟨b', hfind, hplace⟩ := ih h
      refine ⟨b', ?_, ?_⟩
      · have hother : (name == latest) = false := by simpa using Ne.symm hname
        rw [find?, lookup_cons, hother]
        exact hfind
      · rw [reverse_cons, getElem?_append_left (List.getElem?_eq_some_iff.mp hplace).1]
        exact hplace

lemma find?_of_place?_none {scope : Scope} {name : String} (h : Blocks.place? name scope.block = none) :
    scope.find? name = none :=
  Blocks.lookup_of_place?_none h

lemma reverse_markUsed {scope : Scope} {name : String} {place : Nat} {b : Binding}
    (h : scope.reverse[place]? = some (name, b)) :
    (scope.markUsed name).reverse[place]? = some (name, { b with used := true }) := by
  rw [markUsed, ← map_reverse, getElem?_map, h]
  simp

end Scope

namespace Declarations

/-- The binding in nested scopes that a declaration stands for: the number of scopes around its own, and
the number of bindings before it in there. -/
def bindingIn? (scopes : List Scope) (declaration : Nat × Nat) : Option (String × Binding) :=
  (scopes.reverse[declaration.1]?).bind fun scope => scope.reverse[declaration.2]?

def binding? (d : Declarations) : Nat × Nat → Option (String × Binding) :=
  bindingIn? (d.scopes ++ [d.globals])

/-- A name is read as a declaration: it is the innermost one of that name, the name has its type, and it
is noted as used. -/
structure Reads (d : Declarations) (name : String) (declaration : Nat × Nat) (type : Ty) : Prop where
  innermost : d.names.blocks.declaration? name = some declaration
  read : ∃ b d', b.type = type ∧ d.binding? declaration = some (name, b) ∧ d.read name = some (type, d') ∧
    d'.binding? declaration = some (name, { b with used := true })

variable {scope : Scope} {scopes : List Scope} {globals : Scope} {name : String} {declaration : Nat × Nat}

lemma bindingIn?_self (place : Nat) :
    bindingIn? (scope :: scopes) (scopes.length, place) = scope.reverse[place]? := by
  simp [bindingIn?]

lemma bindingIn?_cons {entry : String × Binding} (h : bindingIn? scopes declaration = some entry) :
    bindingIn? (scope :: scopes) declaration = some entry := by
  unfold bindingIn? at h ⊢
  obtain ⟨found, hfound, hentry⟩ := Option.bind_eq_some_iff.mp h
  rw [reverse_cons, getElem?_append_left (List.getElem?_eq_some_iff.mp hfound).1]
  exact h

lemma readVariable_of_declaration?
    (h : Blocks.declaration? name ((scopes ++ [globals]).map Scope.block) = some declaration) :
    ∃ b, bindingIn? (scopes ++ [globals]) declaration = some (name, b) ∧
      ((∃ scopes', readVariable name scopes = some (b.type, scopes') ∧
          bindingIn? (scopes' ++ [globals]) declaration = some (name, { b with used := true })) ∨
        readVariable name scopes = none ∧ globals.find? name = some b ∧
          bindingIn? (scopes ++ [globals.markUsed name]) declaration = some (name, { b with used := true })) := by
  induction scopes with
  | nil =>
    rw [nil_append, map_singleton, Blocks.declaration?] at h
    cases hplace : Blocks.place? name globals.block with
    | none =>
      rw [hplace] at h
      cases h
    | some place =>
      rw [hplace] at h
      cases h
      obtain ⟨b, hfind, hentry⟩ := Scope.find?_of_place? hplace
      exact ⟨b, (bindingIn?_self place).trans hentry, .inr ⟨rfl, hfind,
        (bindingIn?_self place).trans (Scope.reverse_markUsed hentry)⟩⟩
  | cons scope outer ih =>
    rw [cons_append, map_cons, Blocks.declaration?, length_map] at h
    cases hplace : Blocks.place? name scope.block with
    | some place =>
      rw [hplace] at h
      cases h
      obtain ⟨b, hfind, hentry⟩ := Scope.find?_of_place? hplace
      have hread : readVariable name (scope :: outer) = some (b.type, scope.markUsed name :: outer) := by
        rw [readVariable, hfind]
      exact ⟨b, (bindingIn?_self place).trans hentry, .inl ⟨_, hread,
        (bindingIn?_self place).trans (Scope.reverse_markUsed hentry)⟩⟩
    | none =>
      rw [hplace] at h
      obtain ⟨b, hentry, hread⟩ := ih h
      have habsent : scope.find? name = none := Scope.find?_of_place?_none hplace
      refine ⟨b, bindingIn?_cons hentry, ?_⟩
      rcases hread with ⟨scopes', hfound, hused⟩ | ⟨hnone, hfind, hused⟩
      · exact .inl ⟨scope :: scopes', by rw [readVariable, habsent, hfound]; rfl, bindingIn?_cons hused⟩
      · exact .inr ⟨by rw [readVariable, habsent, hnone]; rfl, hfind, bindingIn?_cons hused⟩

lemma exists_reads {d : Declarations} (h : d.names.blocks.declaration? name = some declaration) :
    ∃ type, d.Reads name declaration type := by
  have hblocks : d.names.blocks = (d.scopes ++ [d.globals]).map Scope.block := by
    simp [names, NameTypes.blocks, Scope.names, Scope.block, Function.comp_def]
  have hfound := h
  rw [hblocks] at hfound
  obtain ⟨b, hentry, hread⟩ := readVariable_of_declaration? hfound
  refine ⟨b.type, h, ?_⟩
  rcases hread with ⟨scopes', hfound, hused⟩ | ⟨hnone, hfind, hused⟩
  · exact ⟨b, { d with scopes := scopes' }, rfl, hentry, by rw [read, hfound], hused⟩
  · exact ⟨b, { d with globals := d.globals.markUsed name }, rfl, hentry,
      by rw [read, hnone, hfind]; rfl, hused⟩

end Declarations

lemma Scope.not_mem_of_find? {scope : Scope} {name : String} (h : scope.find? name = none) :
    name ∉ scope.names.map Prod.fst := by
  intro hmem
  obtain ⟨⟨name, type⟩, hentry, rfl⟩ := mem_map.mp hmem
  have hlookup : scope.names.lookup name = none := by
    rw [lookup_names, h, Option.map_none]
  simpa using lookup_eq_none_iff.mp hlookup _ hentry

namespace Declarations

lemma new_of_declare {d d' : Declarations} {name : String} {type : Ty} {line : Nat}
    (h : d.declare name type line = .ok d') : ∀ block ∈ d.names.blocks.head?, name ∉ block := by
  obtain ⟨scope, outer, hscopes, hnone, -⟩ := eq_of_declare h
  have hhead : d.names.blocks.head? = some (scope.names.map Prod.fst) := by
    simp [names, hscopes, NameTypes.blocks]
  simpa [hhead] using Scope.not_mem_of_find? hnone

lemma new_of_defineGlobal {d d' : Declarations} {name : String} {type : Ty} {line : Nat}
    (h : d.defineGlobal name type line = .ok d') : name ∉ d.globals.names.map Prod.fst :=
  Scope.not_mem_of_find? (eq_of_defineGlobal h).1

end Declarations

namespace Stmt

def blockDeclares (blocks : Blocks) (block : List Stmt) : Blocks :=
  block.foldl declares blocks

lemma tail_declares (blocks : Blocks) (s : Stmt) : (s.declares blocks).tail = blocks.tail := by
  cases s with
  | declare type ds line =>
    change (declareAll blocks ds).tail = blocks.tail
    induction ds generalizing blocks with
    | nil => rfl
    | cons d rest ih =>
      rw [declareAll, ih]
      cases blocks <;> rfl
  | _ => rfl

lemma tail_blockDeclares (blocks : Blocks) (block : List Stmt) :
    (blockDeclares blocks block).tail = blocks.tail := by
  induction block generalizing blocks with
  | nil => rfl
  | cons s rest ih => exact (ih _).trans (tail_declares blocks s)

end Stmt

/-- An expression that is typed, and the declarations in which its names are looked up. -/
structure Visit where
  expr : Expr
  declarations : Declarations

/-- A step of an analysis that logs what it visits. -/
abbrev Trace := StateT (List Visit) Inspect

namespace Trace

open Inspect (report reportAll analysis declare openScope closeScope)

def exprType (context : Context) (e : Expr) : Trace Ty := do
  let a ← analysis
  modify (· ++ [⟨e, a.declarations⟩])
  Inspect.exprType context e

-- From here to `program` the steps are those of `Inspect`, with this one where they type an expression.

def condition (context : Context) (statement : String) (e : Expr) : Trace Unit := do
  let type ← exprType context e
  if !type.isBool then report context (.conditionNotBool statement type.name)

def initialValue (context : Context) (type : Ty) : Option Expr → Trace Unit
  | none => return
  | some value => do
    let valueType ← exprType context value
    if !type.unifies valueType then
      report context (.assignmentTypeMismatch type.name valueType.name)

def declarators (context : Context) (type : Ty) : List Declarator → Trace Unit
  | [] => return
  | d :: rest => do
    initialValue (context.moveTo d.line) type d.value
    declare (context.moveTo d.line) fun ds => ds.declare d.name type d.line
    declarators context type rest

mutual

def statement (context : Context) : Stmt → Trace Unit
  | .declare type ds line => declarators (context.moveTo line) type ds
  | .assign target value line => do
    let context := context.moveTo line
    let targetType ← exprType context target
    let valueType ← exprType context value
    if !targetType.unifies valueType then
      report context (.assignmentTypeMismatch targetType.name valueType.name)
  | .ifThen e thenBody none line => do
    condition (context.moveTo line) "if" e
    openScope
    statements (context.moveTo line) thenBody
    closeScope (context.moveTo line)
  | .ifThen e thenBody (some elseBody) line => do
    condition (context.moveTo line) "if" e
    openScope
    statements (context.moveTo line) thenBody
    closeScope (context.moveTo line)
    openScope
    statements (context.moveTo line) elseBody
    closeScope (context.moveTo line)
  | .whileDo e body line => do
    condition (context.moveTo line) "while" e
    openScope
    statements (context.moveTo line) body
    closeScope (context.moveTo line)
  | .forAll name source body line => do
    let context := context.moveTo line
    let sourceType ← exprType context source
    let type ← Inspect.loopVariableType context sourceType
    openScope
    declare context fun ds => ds.declare name type line
    statements context body
    closeScope context
  | .returns none _ => return
  | .returns (some value) line => do
    let _ ← exprType (context.moveTo line) value
  | .score value line => do
    let context := context.moveTo line
    let type ← exprType context value
    if !type.isNum then report context (.scoreNotNum type.name)
  | .call site line => do
    let _ ← exprType (context.moveTo line) site

def statements (context : Context) : List Stmt → Trace Unit
  | [] => return
  | s :: rest => do
    statement context s
    statements context rest

end

def each {α : Type} (step : α → Trace Unit) : List α → Trace Unit
  | [] => return
  | a :: rest => do
    step a
    each step rest

def global (g : GlobalDef) : Trace Unit := do
  let context := Context.ofDefinition .global g.name g.line
  let type ← exprType context g.value
  if !g.type.unifies type then
    report context (.globalTypeMismatch g.name g.type.name type.name)
  declare context fun ds => ds.defineGlobal g.name g.type g.line

def function (f : FunctionDef) : Trace Unit := do
  let context := Inspect.functionContext f
  openScope
  Inspect.each (Inspect.param context) f.params
  statements context f.body
  Inspect.wrongReturns context f.returnType ("function '" ++ f.name ++ "'") f.body
  reportAll context ((blockScoreLines f.body).map fun line => (.scoreInFunction, line))
  Inspect.functionOutcome context f
  reportAll context (blockUnreachable f.body)
  closeScope context

def guard (context : Context) (name : String) : Option Expr → Trace Unit
  | none => return
  | some e => do
    let type ← exprType (context.moveTo e.line) e
    if !type.isBool then report (context.moveTo e.line) (.guardNotBool name type.name)

def rule (r : RuleDef) : Trace Unit := do
  let context := Context.ofDefinition .rule r.name r.line
  reportAll context (Inspect.wrongOptions [] r.options)
  declare context fun ds => ds.defineRule r.name (Inspect.schedule r.options) r.line
  guard context r.name r.guard
  openScope
  statements context r.body
  Inspect.wrongReturns context .void ("rule '" ++ r.name ++ "'") r.body
  if !blockScores r.body then report context (.noScoreInRule r.name)
  reportAll context (blockUnreachable r.body)
  closeScope context

def definitions (p : Program) : Trace Unit := do
  each global p.globals
  each function p.functions
  each rule p.rules
  Inspect.unusedGlobals

def program (p : Program) : Trace Unit := do
  Inspect.each Inspect.setting p.config
  Inspect.each Inspect.predefined Predefined.all
  Inspect.each Inspect.registerFunction p.functions
  definitions p

variable {α β : Type} {s t s' : Inspection} {visits visits' new : List Visit}
  {ids ids' : List Nat} {before middle after : Blocks} {sites sites' : List Site}

lemma run_bind_eq {x : Trace α} {f : α → Trace β} {b : β} :
    ((x >>= f).run visits).run s = ((b, visits'), s') ↔
      ∃ a seen t, (x.run visits).run s = ((a, seen), t) ∧ ((f a).run seen).run t = ((b, visits'), s') := by
  rw [StateT.run_bind, runState_bind]
  simp only [Prod.exists]

lemma run_lift {y : Inspect α} {a : α} :
    ((liftM y : Trace α).run visits).run s = ((a, visits'), s') ↔ y.run s = (a, s') ∧ visits' = visits := by
  constructor
  · intro h
    cases h
    exact ⟨rfl, rfl⟩
  · rintro ⟨h, rfl⟩
    exact congrArg (fun r => ((r.1, visits'), r.2)) h

structure Logged (ids : List Nat) (after : Blocks) (sites : List Site) (s s' : Inspection)
    (logged : List Visit) : Prop where
  rest : s.Extends ids s'
  names : s'.names.blocks = after
  visited : logged.map (fun v => (v.expr, v.declarations.names.blocks)) =
    sites.map fun site => (site.expr, site.blocks)
  declared : ∀ site ∈ sites, site.New
  typed : ∀ visit ∈ logged, visit.expr.AllTyped s'.analysis visit.declarations.names ∧
    ∀ id ∈ visit.expr.ids, id ∈ ids

/-- A step that does what a step of the analysis does, and logs the given sites if no error is filed. -/
def Logs (ids : List Nat) (before after : Blocks) (sites : List Site) (x : Trace α) (y : Inspect α) : Prop :=
  ∀ visits s a visits' s', (x.run visits).run s = ((a, visits'), s') → y.run s = (a, s') ∧
    (s'.Clean → s.Clean ∧ (s.names.blocks = before → s.Fresh ids →
      ∃ new, visits' = visits ++ new ∧ Logged ids after sites s s' new))

lemma Logged.append {new' : List Visit} (hfresh : s.Fresh (ids ++ ids')) (h : Logged ids middle sites s t new)
    (h' : Logged ids' after sites' t s' new') :
    Logged (ids ++ ids') after (sites ++ sites') s s' (new ++ new') where
  rest := h.rest.append h'.rest
  names := h'.names
  visited := by rw [map_append, h.visited, h'.visited, map_append]
  declared := forall_mem_append.mpr ⟨h.declared, h'.declared⟩
  typed := by
    refine forall_mem_append.mpr ⟨fun visit hvisit => ?_, fun visit hvisit => ?_⟩
    · obtain ⟨htyped, hids⟩ := h.typed visit hvisit
      exact ⟨htyped.congr h'.rest fun id hid => hfresh.disjoint (hids id hid),
        fun id hid => mem_append_left _ (hids id hid)⟩
    · obtain ⟨htyped, hids⟩ := h'.typed visit hvisit
      exact ⟨htyped, fun id hid => mem_append_right _ (hids id hid)⟩

lemma Logs.bind {x : Trace α} {y : Inspect α} {f : α → Trace β} {g : α → Inspect β}
    (hx : Logs ids before middle sites x y) (hf : ∀ a, Logs ids' middle after sites' (f a) (g a)) :
    Logs (ids ++ ids') before after (sites ++ sites') (x >>= f) (y >>= g) := by
  intro visits s b visits' s' h
  obtain ⟨a, seen, t, ha, hb⟩ := run_bind_eq.mp h
  obtain ⟨hy, hfirst⟩ := hx _ _ _ _ _ ha
  obtain ⟨hg, hsecond⟩ := hf a _ _ _ _ _ hb
  refine ⟨runState_bind.mpr ⟨a, t, hy, hg⟩, fun hclean => ?_⟩
  obtain ⟨ht, hsecond⟩ := hsecond hclean
  obtain ⟨hs, hfirst⟩ := hfirst ht
  refine ⟨hs, fun hbefore hfresh => ?_⟩
  obtain ⟨new, rfl, hnew⟩ := hfirst hbefore hfresh.left
  obtain ⟨new', rfl, hnew'⟩ := hsecond hnew.names (hfresh.right hnew.rest)
  exact ⟨new ++ new', append_assoc _ _ _, hnew.append hfresh hnew'⟩

lemma Logs.andThen {x : Trace α} {y : Inspect α} {f : α → Trace β} {g : α → Inspect β}
    (hx : Logs ids before middle sites x y) (hf : ∀ a, Logs [] middle after [] (f a) (g a)) :
    Logs ids before after sites (x >>= f) (y >>= g) := by
  have h := hx.bind hf
  rw [append_nil, append_nil] at h
  exact h

lemma logs_pure (a : α) : Logs [] before before [] (pure a) (pure a) := by
  intro visits s b visits' s' h
  cases h
  refine ⟨rfl, fun hclean => ⟨hclean, fun hbefore _ => ⟨[], (append_nil _).symm, ?_⟩⟩⟩
  exact ⟨.refl _ _, hbefore, rfl, by simp, by simp⟩

lemma logs_lift {y : Inspect α} (herrors : Inspect.KeepsErrors y)
    (hsame : ∀ s a s', y.run s = (a, s') → s'.Clean → s.names.blocks = before →
      s'.names.blocks = after ∧ ∀ ids, s.analysis.EqOn ids s'.analysis) :
    Logs [] before after [] (liftM y) y := by
  intro visits s a visits' s' h
  obtain ⟨hy, rfl⟩ := run_lift.mp h
  refine ⟨hy, fun hclean => ⟨herrors s a s' hy hclean, fun hbefore _ => ⟨[], (append_nil _).symm, ?_⟩⟩⟩
  obtain ⟨hafter, heq⟩ := hsame s a s' hy hclean hbefore
  exact ⟨heq _, hafter, rfl, by simp, by simp⟩

lemma logs_reports {y : Inspect Unit} (herrors : Inspect.KeepsErrors y) (hreports : Inspect.Reports y) :
    Logs [] before before [] (liftM y) y := by
  refine logs_lift herrors fun s a s' h hclean hbefore => ?_
  have hsame : s'.analysis = s.analysis := hreports s a s' h
  refine ⟨?_, fun ids => hsame ▸ .refl _ _⟩
  unfold Inspection.names at hbefore ⊢
  rw [hsame, hbefore]

lemma logs_reportUnless (condition : Bool) (context : Context) (issue : Issue) :
    Logs [] before before [] (if !condition then liftM (report context issue) else pure ())
      (if !condition then report context issue else pure ()) := by
  cases condition with
  | true => exact logs_pure ()
  | false => exact logs_reports (.report _ _) (Inspect.reports_reportUnless false context issue)

lemma Logs.unless {x : Trace Unit} {y : Inspect Unit} (h : Logs ids before after sites x y) (condition : Bool)
    (context : Context) (issue : Issue) :
    Logs ids before after sites (if !condition then liftM (report context issue) >>= fun _ => x else x)
      (if !condition then report context issue >>= fun _ => y else y) := by
  cases condition with
  | true => exact h
  | false => exact (logs_reportUnless false context issue).bind fun _ => h

lemma logs_exprType (context : Context) (e : Expr) :
    Logs e.ids before before [⟨e, before, none⟩] (exprType context e) (Inspect.exprType context e) := by
  intro visits s type visits' s' h
  have hrun : (Inspect.exprType context e).run s = (type, s') ∧
      visits' = visits ++ [⟨e, s.analysis.declarations⟩] := by
    cases h
    exact ⟨rfl, rfl⟩
  obtain ⟨hy, rfl⟩ := hrun
  refine ⟨hy, fun hclean => ⟨Inspect.KeepsErrors.exprType _ _ _ _ _ hy hclean, fun hbefore hfresh => ?_⟩⟩
  have hchecked := Inspect.checked_of_exprType e s type s' hy hclean hfresh
  refine ⟨_, rfl, hchecked.rest, hchecked.names ▸ hbefore, ?_, ?_, ?_⟩
  · exact congrArg (fun blocks => [(e, blocks)]) hbefore
  · simp [Site.New]
  · exact forall_mem_singleton.mpr ⟨hchecked.typed, fun _ hid => hid⟩

lemma logs_openScope : Logs [] before ([] :: before) [] (liftM openScope) openScope := by
  refine logs_lift .openScope fun s a s' h _ hbefore => ?_
  obtain ⟨hnames, hsame⟩ := Inspect.of_openScope h
  exact ⟨by rw [hnames, ← hbefore]; rfl, hsame⟩

lemma logs_closeScope (context : Context) :
    Logs [] before before.tail [] (liftM (closeScope context)) (closeScope context) := by
  refine logs_lift (.closeScope _) fun s a s' h hclean hbefore => ?_
  obtain ⟨hnames, hsame⟩ := Inspect.of_closeScope h hclean
  exact ⟨by rw [hnames, NameTypes.blocks_tail, hbefore], hsame⟩

lemma logs_declare (context : Context) (name : String) (type : Ty) (line : Nat) :
    Logs [] before (before.declare name) [] (liftM (declare context fun ds => ds.declare name type line))
      (declare context fun ds => ds.declare name type line) := by
  refine logs_lift (.declare _ _) fun s a s' h hclean hbefore => ?_
  obtain ⟨hnames, hsame⟩ := Inspect.of_declare h hclean
  exact ⟨by rw [hnames, NameTypes.blocks_bind, hbefore], hsame⟩

lemma Logs.declared {x : Trace Unit} {y z : Inspect Unit} {name : String} {es : List Expr}
    (hx : Logs ids before before (es.map fun e => ⟨e, before, none⟩) x y) (herrors : Inspect.KeepsErrors z)
    (hz : ∀ s a s', z.run s = (a, s') → s'.Clean → s.names.blocks = before →
      s'.names.blocks = after ∧ (∀ ids, s.analysis.EqOn ids s'.analysis) ∧
        ∀ block ∈ before.head?, name ∉ block) :
    Logs ids before after (es.map fun e => ⟨e, before, some name⟩) (x >>= fun _ => liftM z)
      (y >>= fun _ => z) := by
  intro visits s b visits' s' h
  obtain ⟨a, seen, t, ha, hb⟩ := run_bind_eq.mp h
  obtain ⟨hy, hfirst⟩ := hx _ _ _ _ _ ha
  obtain ⟨hdeclare, rfl⟩ := run_lift.mp hb
  refine ⟨runState_bind.mpr ⟨a, t, hy, hdeclare⟩, fun hclean => ?_⟩
  obtain ⟨hs, hfirst⟩ := hfirst (herrors t b s' hdeclare hclean)
  refine ⟨hs, fun hbefore hfresh => ?_⟩
  obtain ⟨new, rfl, hnew⟩ := hfirst hbefore hfresh
  obtain ⟨hafter, hsame, hfree⟩ := hz t b s' hdeclare hclean hnew.names
  refine ⟨new, rfl, hnew.rest.trans (hsame _), hafter, hnew.visited.trans (by simp), ?_, fun visit hvisit => ?_⟩
  · simpa [Site.New] using fun _ _ => hfree
  · obtain ⟨htyped, hids⟩ := hnew.typed visit hvisit
    exact ⟨htyped.congr (hsame Set.univ) fun _ _ => trivial, hids⟩

lemma logs_condition (context : Context) (statement : String) (e : Expr) :
    Logs e.ids before before [⟨e, before, none⟩] (condition context statement e)
      (Inspect.condition context statement e) :=
  (logs_exprType context e).andThen fun _ => logs_reportUnless _ _ _

lemma logs_initialValue (context : Context) (type : Ty) (value : Option Expr) :
    Logs (value.toList.flatMap Expr.ids) before before (value.toList.map fun e => ⟨e, before, none⟩)
      (initialValue context type value) (Inspect.initialValue context type value) := by
  cases value with
  | none => exact logs_pure ()
  | some e =>
    rw [Option.toList_some, flatMap_singleton]
    exact (logs_exprType context e).andThen fun _ => logs_reportUnless _ _ _

lemma logs_declarators {context : Context} {type : Ty} {ds : List Declarator} :
    Logs ((ds.flatMap fun d => d.value.toList).flatMap Expr.ids) before (Stmt.declareAll before ds)
      (Stmt.declaratorSites before ds) (declarators context type ds) (Inspect.declarators context type ds) := by
  induction ds generalizing before with
  | nil => exact logs_pure ()
  | cons d rest ih =>
    have hfirst : Logs (d.value.toList.flatMap Expr.ids) before (before.declare d.name)
        (d.value.toList.map fun e => ⟨e, before, some d.name⟩)
        (initialValue (context.moveTo d.line) type d.value >>= fun _ =>
          liftM (declare (context.moveTo d.line) fun ds => ds.declare d.name type d.line))
        (Inspect.initialValue (context.moveTo d.line) type d.value >>= fun _ =>
          declare (context.moveTo d.line) fun ds => ds.declare d.name type d.line) := by
      refine (logs_initialValue _ _ _).declared (.declare _ _) fun s a s' h hclean hbefore => ?_
      obtain ⟨hnames, hsame⟩ := Inspect.of_declare h hclean
      obtain ⟨d', hd, -⟩ := Inspect.ok_of_declare (fun _ h => (Declarations.of_declare_error h).1) h hclean
      exact ⟨by rw [hnames, NameTypes.blocks_bind, hbefore], hsame, hbefore ▸ Declarations.new_of_declare hd⟩
    have h := hfirst.bind fun _ => ih
    rw [bind_assoc, bind_assoc] at h
    rw [flatMap_cons, flatMap_append]
    exact h

lemma Logs.close {x : Trace Unit} {y : Inspect Unit} (context : Context)
    (h : Logs ids before middle sites x y) (htail : middle.tail = after) :
    Logs ids before after sites (x >>= fun _ => liftM (closeScope context))
      (y >>= fun _ => closeScope context) := by
  have hclose := h.andThen fun _ => logs_closeScope context
  rw [htail] at hclose
  exact hclose

lemma logs_loopVariableType (context : Context) (source : Ty) :
    Logs [] before before [] (liftM (Inspect.loopVariableType context source))
      (Inspect.loopVariableType context source) := by
  refine logs_lift (Inspect.KeepsErrors.closed.loopVariableType source) fun s a s' h hclean hbefore => ?_
  obtain ⟨-, rfl⟩ := Inspect.of_loopVariableType h hclean
  exact ⟨hbefore, fun ids => .refl ids _⟩

theorem logs_statements (block : List Stmt) : ∀ context before,
    Logs (Stmt.blockIds block) before (Stmt.blockDeclares before block) (Stmt.blockSites before block)
      (statements context block) (Inspect.statements context block) := by
  induction block using Stmt.block_induction (fun stmt => ∀ context before,
    Logs stmt.ids before (stmt.declares before) (stmt.sites before) (statement context stmt)
      (Inspect.statement context stmt)) with
  | declare type ds line context before =>
    rw [Stmt.ids_declare]
    exact logs_declarators
  | assign target value line context before =>
    rw [Stmt.ids_assign]
    exact (logs_exprType _ target).bind fun _ => (logs_exprType _ value).andThen fun _ =>
      logs_reportUnless _ _ _
  | ifThen condition body line ih context before | whileDo condition body line ih context before =>
    exact (logs_condition _ _ _).bind fun _ => logs_openScope.bind fun _ =>
      (ih _ _).close _ (Stmt.tail_blockDeclares _ _)
  | ifElse condition thenBody elseBody line ihthen ihelse context before =>
    have hthen := (ihthen (context.moveTo line) ([] :: before)).close (context.moveTo line)
      (Stmt.tail_blockDeclares _ _)
    have helse := (ihelse (context.moveTo line) ([] :: before)).close (context.moveTo line)
      (Stmt.tail_blockDeclares _ _)
    have hbodies := hthen.bind fun _ => logs_openScope.bind fun _ => helse
    rw [bind_assoc, bind_assoc] at hbodies
    rw [Stmt.ids_ifElse]
    exact (logs_condition _ _ _).bind fun _ => logs_openScope.bind fun _ => hbodies
  | forAll name source body line ih context before =>
    rw [Stmt.ids_forAll]
    exact (logs_exprType _ source).bind fun _ => (logs_loopVariableType _ _).bind fun _ =>
      logs_openScope.bind fun _ => (logs_declare _ _ _ _).bind fun _ =>
        (ih _ _).close _ (Stmt.tail_blockDeclares _ _)
  | returns value line context before =>
    rw [Stmt.ids_returns]
    cases value with
    | none => exact logs_pure ()
    | some value =>
      rw [Option.toList_some, flatMap_singleton]
      exact (logs_exprType _ value).andThen fun _ => logs_pure ()
  | score value line context before =>
    rw [Stmt.ids_score]
    exact (logs_exprType _ value).andThen fun _ => logs_reportUnless _ _ _
  | call site line context before =>
    rw [Stmt.ids_call]
    exact (logs_exprType _ site).andThen fun _ => logs_pure ()
  | nil =>
    intro context before
    exact logs_pure ()
  | cons stmt rest ihstmt ihrest =>
    intro context before
    rw [Stmt.blockIds_cons]
    exact (ihstmt context before).bind fun _ => ihrest context _

lemma logs_each {γ : Type} {step : γ → Trace Unit} {step' : γ → Inspect Unit} {ids : γ → List Nat}
    {sites : γ → List Site} (h : ∀ x, Logs (ids x) before before (sites x) (step x) (step' x))
    (items : List γ) :
    Logs (items.flatMap ids) before before (items.flatMap sites) (each step items)
      (Inspect.each step' items) := by
  induction items with
  | nil => exact logs_pure ()
  | cons x rest ih => exact (h x).bind fun _ => ih

lemma logs_global (g : GlobalDef) (block : List String) :
    Logs g.value.ids [block] [g.name :: block] [⟨g.value, [block], some g.name⟩] (global g)
      (Inspect.global g) := by
  let context := Context.ofDefinition .global g.name g.line
  let mismatch := fun type : Ty => report context (.globalTypeMismatch g.name g.type.name type.name)
  let define := declare context fun ds => ds.defineGlobal g.name g.type g.line
  have htrace : global g = (exprType context g.value >>= fun type =>
      if !g.type.unifies type then liftM (mismatch type) else pure ()) >>= fun _ => liftM define := by
    rw [bind_assoc]
    refine bind_congr fun type => ?_
    cases g.type.unifies type <;> rfl
  have hinspect : Inspect.global g = (Inspect.exprType context g.value >>= fun type =>
      if !g.type.unifies type then mismatch type else pure ()) >>= fun _ => define := by
    rw [bind_assoc]
    refine bind_congr fun type => ?_
    cases g.type.unifies type <;> rfl
  have hvalue : Logs g.value.ids [block] [block] ([g.value].map fun e => ⟨e, [block], none⟩)
      (exprType context g.value >>= fun type =>
        if !g.type.unifies type then liftM (mismatch type) else pure ())
      (Inspect.exprType context g.value >>= fun type =>
        if !g.type.unifies type then mismatch type else pure ()) :=
    (logs_exprType context g.value).andThen fun _ => logs_reportUnless _ _ _
  rw [htrace, hinspect]
  refine hvalue.declared (.declare _ _) fun s a s' h hclean hbefore => ?_
  obtain ⟨d, hd, rfl⟩ := Inspect.ok_of_declare (fun _ h => (Declarations.isError_defineGlobal h).error) h hclean
  have hscopes : s.analysis.declarations.scopes = [] := by
    simpa [Inspection.names, Declarations.names, NameTypes.blocks] using congrArg List.length hbefore
  have hnames : s.names = [s.analysis.declarations.globals.names] := by
    simp [Inspection.names, Declarations.names, hscopes]
  have hblock : s.analysis.declarations.globals.names.map Prod.fst = block := by
    rw [hnames] at hbefore
    exact singleton_inj.mp hbefore
  obtain ⟨hdefined, hfunctions⟩ := Inspect.names_defineGlobal hnames hd
  refine ⟨?_, fun ids => ⟨hfunctions, fun _ _ => rfl, fun _ _ => rfl⟩, ?_⟩
  · change d.names.blocks = _
    rw [hdefined, ← hblock]
    rfl
  · rintro _ ⟨⟩
    exact hblock ▸ Declarations.new_of_defineGlobal hd

lemma logs_globals {gs : List GlobalDef} {block : List String} :
    Logs (gs.flatMap fun g => g.value.ids) [block] [(gs.map GlobalDef.name).reverse ++ block]
      (Program.globalSites block gs) (each global gs) (Inspect.each Inspect.global gs) := by
  induction gs generalizing block with
  | nil => exact logs_pure ()
  | cons g rest ih =>
    have hblock : ((g :: rest).map GlobalDef.name).reverse ++ block =
        (rest.map GlobalDef.name).reverse ++ g.name :: block := by simp
    rw [hblock]
    exact (logs_global g block).bind fun _ => ih

lemma logs_params (context : Context) (params : List Param) :
    Logs [] ([] :: before) ((params.map Param.name).reverse :: before) []
      (liftM (Inspect.each (Inspect.param context) params)) (Inspect.each (Inspect.param context) params) := by
  refine logs_lift (.each (fun _ => .declare _ _) _) fun s a s' h hclean hbefore => ?_
  obtain ⟨inner, Γ, hnames⟩ : ∃ inner Γ, s.names = inner :: Γ := by
    cases hnames : s.names with
    | nil => simp [hnames, NameTypes.blocks] at hbefore
    | cons inner Γ => exact ⟨inner, Γ, rfl⟩
  rw [hnames] at hbefore
  obtain ⟨hinner, hΓ⟩ := List.cons.inj hbefore
  obtain ⟨hparams, hsame⟩ := Inspect.of_params hnames h hclean
  refine ⟨?_, hsame⟩
  rw [map_eq_nil_iff.mp hinner, append_nil] at hparams
  rw [hparams, ← hΓ]
  simp [NameTypes.blocks, Function.comp_def]

lemma logs_wrongReturns (context : Context) (expected : Ty) (label : String) (body : List Stmt) :
    Logs [] before before [] (liftM (Inspect.wrongReturns context expected label body))
      (Inspect.wrongReturns context expected label body) :=
  logs_reports (.bind .analysis fun _ => .reportAll _ _) (Inspect.reports_wrongReturns _ _ _ _)

lemma logs_reportAll (context : Context) (issues : List (Issue × Nat)) :
    Logs [] before before [] (liftM (reportAll context issues)) (reportAll context issues) :=
  logs_reports (.reportAll _ _) (Inspect.reports_reportAll _ _)

lemma logs_function (p : Program) (f : FunctionDef) :
    Logs (Stmt.blockIds f.body) [p.globalBlock] [p.globalBlock] (p.functionSites f) (function f)
      (Inspect.function f) := by
  let names : Blocks := [(f.params.map Param.name).reverse, p.globalBlock]
  have htail : (Stmt.blockDeclares names f.body).tail = [p.globalBlock] := Stmt.tail_blockDeclares _ _
  have hclose := @logs_closeScope (Stmt.blockDeclares names f.body) (Inspect.functionContext f)
  rw [htail] at hclose
  have hend := (logs_reports (.functionOutcome _ f) (Inspect.reports_functionOutcome (Inspect.functionContext f) f)).bind
    fun _ => (logs_reportAll (Inspect.functionContext f) (blockUnreachable f.body)).bind fun _ => hclose
  exact logs_openScope.bind fun _ => (logs_params _ _).bind fun _ =>
    (logs_statements f.body _ names).andThen fun _ => (logs_wrongReturns _ _ _ _).bind fun _ =>
      (logs_reportAll _ _).bind fun _ => hend

lemma logs_guard (context : Context) (name : String) (value : Option Expr) :
    Logs (value.toList.flatMap Expr.ids) before before (value.toList.map fun e => ⟨e, before, none⟩)
      (guard context name value) (Inspect.guard context name value) := by
  cases value with
  | none => exact logs_pure ()
  | some e =>
    rw [Option.toList_some, flatMap_singleton]
    exact (logs_exprType _ e).andThen fun _ => logs_reportUnless _ _ _

lemma logs_declareRule (context : Context) (name : String) (schedule : Schedule) (line : Nat) :
    Logs [] before before [] (liftM (declare context fun ds => ds.defineRule name schedule line))
      (declare context fun ds => ds.defineRule name schedule line) := by
  refine logs_lift (.declare _ _) fun s a s' h _ hbefore => ?_
  obtain ⟨hnames, hsame⟩ := Inspect.of_declareRule h
  exact ⟨hnames ▸ hbefore, hsame⟩

lemma logs_rule (p : Program) (r : RuleDef) :
    Logs (r.guard.toList.flatMap Expr.ids ++ Stmt.blockIds r.body) [p.globalBlock] [p.globalBlock]
      (p.ruleSites r) (rule r) (Inspect.rule r) := by
  let context := Context.ofDefinition .rule r.name r.line
  have htail : (Stmt.blockDeclares [[], p.globalBlock] r.body).tail = [p.globalBlock] :=
    Stmt.tail_blockDeclares _ _
  have hclose := @logs_closeScope (Stmt.blockDeclares [[], p.globalBlock] r.body) context
  rw [htail] at hclose
  have hend := ((logs_reportAll context (blockUnreachable r.body)).bind fun _ => hclose).unless
    (blockScores r.body) context (.noScoreInRule r.name)
  exact (logs_reportAll _ _).bind fun _ => (logs_declareRule _ _ _ _).bind fun _ =>
    (logs_guard _ _ _).bind fun _ => logs_openScope.bind fun _ => (logs_statements r.body _ _).andThen fun _ =>
      (logs_wrongReturns _ _ _ _).bind fun _ => hend

lemma logs_definitions (p : Program) :
    Logs (p.globals.flatMap (fun g => g.value.ids) ++ (p.functions.flatMap (fun f => Stmt.blockIds f.body) ++
        p.rules.flatMap fun r => r.guard.toList.flatMap Expr.ids ++ Stmt.blockIds r.body))
      [[]] [p.globalBlock] p.sites (definitions p) (Inspect.definitions p) := by
  have hglobals : Logs (p.globals.flatMap fun g => g.value.ids) [[]] [p.globalBlock]
      (Program.globalSites [] p.globals) (each global p.globals) (Inspect.each Inspect.global p.globals) := by
    have h := @logs_globals p.globals []
    rw [append_nil] at h
    exact h
  rw [Program.sites, append_assoc]
  exact hglobals.bind fun _ => (logs_each (logs_function p) p.functions).bind fun _ =>
    (logs_each (logs_rule p) p.rules).andThen fun _ => logs_reports .unusedGlobals Inspect.reports_unusedGlobals

lemma of_program {p : Program} {result : Unit}
    (h : ((program p).run visits).run s = ((result, visits'), s')) :
    (Inspect.program p).run s = (result, s') ∧ ∃ t, Inspect.Prepared (Inspect.registered p) s t ∧
      ((definitions p).run visits).run t = ((result, visits'), s') := by
  obtain ⟨_, _, t₁, h₁, hrest₁⟩ := run_bind_eq.mp h
  obtain ⟨_, _, t₂, h₂, hrest₂⟩ := run_bind_eq.mp hrest₁
  obtain ⟨_, _, t₃, h₃, hrest₃⟩ := run_bind_eq.mp hrest₂
  obtain ⟨hsettings, rfl⟩ := run_lift.mp h₁
  obtain ⟨hpredefined, rfl⟩ := run_lift.mp h₂
  obtain ⟨hregister, rfl⟩ := run_lift.mp h₃
  have hdefinitions := (logs_definitions p _ _ _ _ _ hrest₃).1
  refine ⟨?_, t₃, Inspect.prepared_of_passes hsettings hpredefined hregister, hrest₃⟩
  simp only [Inspect.definitions, runState_bind] at hdefinitions
  simp only [Inspect.program, runState_bind]
  exact ⟨_, t₁, hsettings, _, t₂, hpredefined, _, t₃, hregister, hdefinitions⟩

end Trace

/-- The analysis of a program and the diagnostics after it, given those before, with its log. -/
def Program.trace (p : Program) (diagnostics : Diagnostics) : (Analysis × Diagnostics) × List Visit :=
  let start : Inspection := ⟨p.file, Analysis.initial p.exprCount, diagnostics⟩
  let result := ((Trace.program p).run []).run start
  ((result.2.analysis, result.2.diagnostics), result.1.2)

namespace Program

variable {p : Program} {ds ds' : Diagnostics} {a : Analysis}

/-- The log has no effect on the analysis. -/
theorem trace_check (p : Program) (ds : Diagnostics) : (p.trace ds).1 = p.check ds := by
  rcases hrun : ((Trace.program p).run []).run ⟨p.file, Analysis.initial p.exprCount, ds⟩ with
    ⟨⟨result, visits⟩, final⟩
  rw [trace, hrun, check, (Trace.of_program hrun).1]

/-- An analysis without errors visits the sites of a program. -/
theorem visits_of_check (hnodup : (p.nodes.map Expr.id).Nodup) (h : p.check ds = (a, ds'))
    (hclean : ds'.errors = []) :
    (p.trace ds).2.map (fun v => (v.expr, v.declarations.names.blocks)) =
        p.sites.map (fun site => (site.expr, site.blocks)) ∧
      (∀ site ∈ p.sites, site.New) ∧
      ∀ visit ∈ (p.trace ds).2, visit.expr.AllTyped a visit.declarations.names := by
  rcases hrun : ((Trace.program p).run []).run ⟨p.file, Analysis.initial p.exprCount, ds⟩ with
    ⟨⟨result, visits⟩, final⟩
  obtain ⟨hcheck, t, hprepared, hdefinitions⟩ := Trace.of_program hrun
  rw [Program.check, hcheck] at h
  obtain ⟨rfl, rfl⟩ := Prod.mk.inj h
  have hfresh := fresh_of_types hnodup hprepared.types
  have hnames : t.names.blocks = [[]] := by
    rw [hprepared.names]
    rfl
  obtain ⟨new, rfl, hlogged⟩ := ((Trace.logs_definitions p _ _ _ _ _ hdefinitions).2 hclean).2 hnames hfresh
  rw [trace, hrun]
  exact ⟨hlogged.visited, hlogged.declared, fun visit hvisit => (hlogged.typed visit hvisit).1⟩

end Program

end ChessEval
