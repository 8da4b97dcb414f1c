import ChessEval.Proofs.Bindings

namespace ChessEval

open List

variable {name : String} {Γ : Binders} {stmts : List Stmt}

/-- What puts a name into scope. A loop is known by the node of its source. -/
inductive Binder where
  | global
  | param
  | declaration
  | loop (source : Nat)
deriving DecidableEq, Repr

/-- The names in scope with their binders, innermost block and latest name first. -/
abbrev Binders := List (List (String × Binder))

namespace Binders

/-- The names in scope without their binders. -/
def blocks (Γ : Binders) : Blocks :=
  Γ.map fun block => block.map Prod.fst

def bind (Γ : Binders) (name : String) (binder : Binder) : Binders :=
  match Γ with
  | [] => []
  | block :: outer => ((name, binder) :: block) :: outer

def find? (Γ : Binders) (name : String) : Option Binder :=
  Γ.findSome? fun block => block.lookup name

/-- The name at a position, given by the number of blocks around its block and the number of names that its block has
before it, and what binds it. -/
def at? (Γ : Binders) (position : Nat × Nat) : Option (String × Binder) :=
  Γ.reverse[position.1]?.bind fun block => block.reverse[position.2]?

lemma blocks_bind (Γ : Binders) (name : String) (binder : Binder) :
    (Γ.bind name binder).blocks = Γ.blocks.declare name := by
  cases Γ <;> rfl

lemma tail_bind (Γ : Binders) (name : String) (binder : Binder) : (Γ.bind name binder).tail = Γ.tail := by
  cases Γ <;> rfl

lemma lookup_of_place? {block : List (String × Binder)} {place : Nat}
    (h : Blocks.place? name (block.map Prod.fst) = some place) :
    ∃ binder, block.lookup name = some binder ∧ block.reverse[place]? = some (name, binder) := by
  induction block with
  | nil => cases h
  | cons latest earlier ih =>
    obtain ⟨other, binder⟩ := latest
    by_cases hother : other = name
    · subst hother
      have hplace : place = earlier.length := by simpa [Blocks.place?, eq_comm] using h
      subst hplace
      refine ⟨binder, by simp, ?_⟩
      rw [reverse_cons, getElem?_append_right (by simp)]
      simp
    · rw [map_cons, Blocks.place?_of_ne hother] at h
      obtain ⟨found, hlookup, hplace⟩ := ih h
      have hlt : place < earlier.reverse.length := (List.getElem?_eq_some_iff.mp hplace).1
      refine ⟨found, ?_, ?_⟩
      · rw [lookup_cons, beq_eq_false_iff_ne.mpr (Ne.symm hother)]
        exact hlookup
      · rw [reverse_cons, getElem?_append_left hlt]
        exact hplace

lemma at?_of_declaration? {position : Nat × Nat} (h : Γ.blocks.declaration? name = some position) :
    ∃ binder, Γ.find? name = some binder ∧ Γ.at? position = some (name, binder) := by
  induction Γ with
  | nil => cases h
  | cons block outer ih =>
    rw [blocks, map_cons, Blocks.declaration?] at h
    cases hplace : Blocks.place? name (block.map Prod.fst) with
    | some place =>
      rw [hplace] at h
      cases h
      obtain ⟨binder, hlookup, hat⟩ := lookup_of_place? hplace
      refine ⟨binder, by rw [find?, findSome?_cons, hlookup], ?_⟩
      rw [at?, reverse_cons, getElem?_append_right (by simp)]
      simpa using hat
    | none =>
      rw [hplace] at h
      obtain ⟨binder, hfind, hat⟩ := ih h
      have hlt : position.1 < outer.reverse.length := by
        simpa [blocks] using Blocks.lt_of_declaration? h
      refine ⟨binder, ?_, ?_⟩
      · rw [find?, findSome?_cons, Blocks.lookup_of_place?_none hplace]
        exact hfind
      · rw [at?, reverse_cons, getElem?_append_left hlt]
        exact hat

end Binders

/-- An expression and the names in scope there. -/
structure View where
  expr : Expr
  binders : Binders

namespace Stmt

def bindDeclared (Γ : Binders) : List Declarator → Binders
  | [] => Γ
  | d :: rest => bindDeclared (Γ.bind d.name .declaration) rest

/-- The names in scope after a statement. -/
def bound (Γ : Binders) : Stmt → Binders
  | .declare _ ds _ => bindDeclared Γ ds
  | _ => Γ

def blockBound (Γ : Binders) : List Stmt → Binders
  | [] => Γ
  | s :: rest => blockBound (s.bound Γ) rest

/-- The expressions of a declaration. -/
def declaratorViews (Γ : Binders) : List Declarator → List View
  | [] => []
  | d :: rest => (d.value.toList.map fun e => ⟨e, Γ⟩) ++ declaratorViews (Γ.bind d.name .declaration) rest

mutual

/-- The expressions of a statement. -/
def views (Γ : Binders) : Stmt → List View
  | .declare _ ds _ => declaratorViews Γ ds
  | .assign target value _ => [⟨target, Γ⟩, ⟨value, Γ⟩]
  | .ifThen condition thenBody none _ => ⟨condition, Γ⟩ :: blockViews ([] :: Γ) thenBody
  | .ifThen condition thenBody (some elseBody) _ =>
    ⟨condition, Γ⟩ :: (blockViews ([] :: Γ) thenBody ++ blockViews ([] :: Γ) elseBody)
  | .whileDo condition body _ => ⟨condition, Γ⟩ :: blockViews ([] :: Γ) body
  | .forAll name source body _ => ⟨source, Γ⟩ :: blockViews ([(name, .loop source.id)] :: Γ) body
  | .returns value _ => value.toList.map fun e => ⟨e, Γ⟩
  | .score value _ => [⟨value, Γ⟩]
  | .call site _ => [⟨site, Γ⟩]

def blockViews (Γ : Binders) : List Stmt → List View
  | [] => []
  | s :: rest => s.views Γ ++ blockViews (s.bound Γ) rest

end

end Stmt

namespace Program

def globalBinders (p : Program) : List (String × Binder) :=
  (p.globals.map fun g => (g.name, .global)).reverse

/-- The values of globals, each of which sees the ones before it. -/
def globalViews (block : List (String × Binder)) : List GlobalDef → List View
  | [] => []
  | g :: rest => ⟨g.value, [block]⟩ :: globalViews ((g.name, .global) :: block) rest

def functionViews (p : Program) (f : FunctionDef) : List View :=
  Stmt.blockViews [(f.params.map fun q => (q.name, .param)).reverse, p.globalBinders] f.body

def ruleViews (p : Program) (r : RuleDef) : List View :=
  (r.guard.toList.map fun e => ⟨e, [p.globalBinders]⟩) ++ Stmt.blockViews [[], p.globalBinders] r.body

/-- The expressions of a program with the names in scope at each of them. -/
def views (p : Program) : List View :=
  globalViews [] p.globals ++ p.functions.flatMap p.functionViews ++ p.rules.flatMap p.ruleViews

end Program

/-! ### Without binders -/

/-- An expression and the names in scope there, without their binders. -/
def View.erase (x : View) : Expr × Blocks :=
  (x.expr, x.binders.blocks)

def Site.erase (site : Site) : Expr × Blocks :=
  (site.expr, site.blocks)

namespace Stmt

lemma blocks_bindDeclared (Γ : Binders) (ds : List Declarator) :
    (bindDeclared Γ ds).blocks = declareAll Γ.blocks ds := by
  induction ds generalizing Γ with
  | nil => rfl
  | cons d rest ih => rw [bindDeclared, ih, Binders.blocks_bind, declareAll]

lemma blocks_bound (Γ : Binders) (s : Stmt) : (s.bound Γ).blocks = s.declares Γ.blocks := by
  cases s with
  | declare type ds line => exact blocks_bindDeclared Γ ds
  | _ => rfl

lemma tail_bindDeclared (Γ : Binders) (ds : List Declarator) : (bindDeclared Γ ds).tail = Γ.tail := by
  induction ds generalizing Γ with
  | nil => rfl
  | cons d rest ih => rw [bindDeclared, ih, Binders.tail_bind]

lemma tail_bound (Γ : Binders) (s : Stmt) : (s.bound Γ).tail = Γ.tail := by
  cases s with
  | declare type ds line => exact tail_bindDeclared Γ ds
  | _ => rfl

lemma tail_blockBound (Γ : Binders) (block : List Stmt) : (blockBound Γ block).tail = Γ.tail := by
  induction block generalizing Γ with
  | nil => rfl
  | cons s rest ih => rw [blockBound, ih, tail_bound]

lemma erase_declaratorViews (Γ : Binders) (ds : List Declarator) :
    (declaratorViews Γ ds).map View.erase = (declaratorSites Γ.blocks ds).map Site.erase := by
  induction ds generalizing Γ with
  | nil => rfl
  | cons d rest ih =>
    rw [declaratorViews, declaratorSites, map_append, map_append, ih, Binders.blocks_bind, map_map,
      map_map]
    rfl

lemma erase_blockViews (block : List Stmt) : ∀ Γ,
    (blockViews Γ block).map View.erase = (blockSites Γ.blocks block).map Site.erase := by
  induction block using Stmt.block_induction (fun s => ∀ Γ,
    (s.views Γ).map View.erase = (s.sites Γ.blocks).map Site.erase) with
  | declare type ds line Γ => exact erase_declaratorViews Γ ds
  | assign target value line Γ => rfl
  | ifThen condition body line ih Γ | whileDo condition body line ih Γ | forAll name source body line ih Γ =>
    rw [views, sites, map_cons, map_cons, ih]
    rfl
  | ifElse condition thenBody elseBody line ihthen ihelse Γ =>
    rw [views, sites, map_cons, map_cons, map_append, map_append, ihthen, ihelse]
    rfl
  | returns value line Γ =>
    rw [views, sites, map_map, map_map]
    rfl
  | score value line Γ => rfl
  | call site line Γ => rfl
  | nil => exact fun _ => rfl
  | cons s rest ihs ihrest =>
    intro Γ
    rw [blockViews, blockSites, map_append, map_append, ihs, ihrest, blocks_bound]

lemma expr_blockViews (block : List Stmt) : ∀ Γ,
    (blockViews Γ block).map View.expr = (blockParts block).flatMap exprs := by
  induction block using Stmt.block_induction (fun s => ∀ Γ,
    (s.views Γ).map View.expr = s.parts.flatMap exprs) with
  | declare type ds line Γ =>
    rw [views, parts, flatMap_singleton, exprs]
    induction ds generalizing Γ with
    | nil => rfl
    | cons d rest ih => simp [declaratorViews, ih, Function.comp_def]
  | assign target value line Γ => rfl
  | ifThen condition body line ih Γ | whileDo condition body line ih Γ | forAll name source body line ih Γ =>
    simp [views, parts, exprs, ih]
  | ifElse condition thenBody elseBody line ihthen ihelse Γ => simp [views, parts, exprs, ihthen, ihelse]
  | returns value line Γ => simp [views, parts, exprs, Function.comp_def]
  | score value line Γ => rfl
  | call site line Γ => rfl
  | nil => exact fun _ => rfl
  | cons s rest ihs ihrest =>
    intro Γ
    rw [blockViews, blockParts, map_append, flatMap_append, ihs, ihrest]

end Stmt

/-- Every loop that binds a name is among some statements. -/
def Binders.FromLoops (Γ : Binders) (stmts : List Stmt) : Prop :=
  ∀ block ∈ Γ, ∀ name source, (name, .loop source) ∈ block →
    ∃ e body line, .forAll name e body line ∈ stmts ∧ e.id = source

/-- Every loop that binds a name at some expressions is among some statements. -/
def View.FromLoops (views : List View) (stmts : List Stmt) : Prop :=
  ∀ view ∈ views, view.binders.FromLoops stmts

namespace Binders.FromLoops

variable {Γ : Binders} {stmts : List Stmt}

lemma push (h : Γ.FromLoops stmts) : FromLoops ([] :: Γ) stmts :=
  forall_mem_cons.mpr ⟨by simp, h⟩

lemma bind {binder : Binder} (h : Γ.FromLoops stmts) (hbinder : ∀ source, binder ≠ .loop source) :
    (Γ.bind name binder).FromLoops stmts := by
  cases Γ with
  | nil => exact h
  | cons block outer =>
    obtain ⟨hblock, houter⟩ := forall_mem_cons.mp h
    refine forall_mem_cons.mpr ⟨fun other source hmem => ?_, houter⟩
    rcases mem_cons.mp hmem with heq | hmem
    · exact absurd (Prod.mk.inj heq).2.symm (hbinder source)
    · exact hblock other source hmem

lemma of_find? {source : Nat} (h : Γ.FromLoops stmts) (hfind : Γ.find? name = some (.loop source)) :
    ∃ e body line, .forAll name e body line ∈ stmts ∧ e.id = source := by
  obtain ⟨block, hblock, hlookup⟩ := exists_of_findSome?_eq_some hfind
  obtain ⟨later, earlier, heq, -⟩ := lookup_eq_some_iff.mp hlookup
  exact h block hblock name source (by simp [heq])

end Binders.FromLoops

namespace Stmt

lemma fromLoops_bindDeclared (h : Γ.FromLoops stmts) (ds : List Declarator) : (bindDeclared Γ ds).FromLoops stmts := by
  induction ds generalizing Γ with
  | nil => exact h
  | cons d rest ih => exact ih (h.bind fun _ => nofun)

lemma fromLoops_bound (h : Γ.FromLoops stmts) (s : Stmt) : (s.bound Γ).FromLoops stmts := by
  cases s with
  | declare type ds line => exact fromLoops_bindDeclared h ds
  | _ => exact h

lemma fromLoops_declaratorViews (h : Γ.FromLoops stmts) (ds : List Declarator) :
    View.FromLoops (declaratorViews Γ ds) stmts := by
  induction ds generalizing Γ with
  | nil => simp [View.FromLoops, declaratorViews]
  | cons d rest ih =>
    refine forall_mem_append.mpr ⟨?_, ih (h.bind fun _ => nofun)⟩
    simpa using fun _ _ => h

lemma fromLoops_blockViews (block : List Stmt) : blockParts block ⊆ stmts → ∀ Γ : Binders,
    Γ.FromLoops stmts → View.FromLoops (blockViews Γ block) stmts := by
  induction block using Stmt.block_induction (fun s => s.parts ⊆ stmts → ∀ Γ : Binders,
    Γ.FromLoops stmts → View.FromLoops (s.views Γ) stmts) with
  | declare type ds line hsub Γ h => exact fromLoops_declaratorViews h ds
  | assign target value line hsub Γ h | score value line hsub Γ h | call value line hsub Γ h =>
    simpa [View.FromLoops, views] using h
  | ifThen condition body line ih hsub Γ h | whileDo condition body line ih hsub Γ h =>
    obtain ⟨-, hbody⟩ := cons_subset.mp hsub
    exact forall_mem_cons.mpr ⟨h, ih hbody _ h.push⟩
  | ifElse condition thenBody elseBody line ihthen ihelse hsub Γ h =>
    obtain ⟨-, hbodies⟩ := cons_subset.mp hsub
    obtain ⟨hthen, helse⟩ := append_subset.mp hbodies
    exact forall_mem_cons.mpr ⟨h, forall_mem_append.mpr ⟨ihthen hthen _ h.push, ihelse helse _ h.push⟩⟩
  | forAll name source body line ih hsub Γ h =>
    obtain ⟨hself, hbody⟩ := cons_subset.mp hsub
    refine forall_mem_cons.mpr ⟨h, ih hbody _ (forall_mem_cons.mpr ⟨fun other found hmem => ?_, h⟩)⟩
    cases mem_singleton.mp hmem
    exact ⟨source, body, line, hself, rfl⟩
  | returns value line hsub Γ h => simpa [View.FromLoops, views] using fun _ _ => h
  | nil => simp [View.FromLoops, blockViews]
  | cons s rest ihs ihrest =>
    intro hsub Γ h
    obtain ⟨hs, hrest⟩ := append_subset.mp hsub
    exact forall_mem_append.mpr ⟨ihs hs Γ h, ihrest hrest _ (fromLoops_bound h s)⟩

end Stmt

namespace Program

variable {p : Program}

lemma erase_globalViews (block : List (String × Binder)) (gs : List GlobalDef) :
    (globalViews block gs).map View.erase = (globalSites (block.map Prod.fst) gs).map Site.erase := by
  induction gs generalizing block with
  | nil => rfl
  | cons g rest ih =>
    rw [globalViews, globalSites, map_cons, map_cons, ih]
    rfl

lemma map_fst_globalBinders (p : Program) : p.globalBinders.map Prod.fst = p.globalBlock := by
  simp [globalBinders, globalBlock, Function.comp_def]

lemma erase_views (p : Program) : p.views.map View.erase = p.sites.map Site.erase := by
  have hfunction : ∀ f, (p.functionViews f).map View.erase = (p.functionSites f).map Site.erase := by
    intro f
    rw [functionViews, functionSites, Stmt.erase_blockViews]
    simp [Binders.blocks, map_fst_globalBinders, Function.comp_def]
  have hrule : ∀ r, (p.ruleViews r).map View.erase = (p.ruleSites r).map Site.erase := by
    intro r
    rw [ruleViews, ruleSites, map_append, map_append, Stmt.erase_blockViews, map_map, map_map]
    simp [Binders.blocks, map_fst_globalBinders, View.erase, Site.erase, Function.comp_def]
  simp only [views, sites, map_append, map_flatMap, hfunction, hrule, erase_globalViews, map_nil]

lemma expr_globalViews (block : List (String × Binder)) (gs : List GlobalDef) :
    (globalViews block gs).map View.expr = gs.map GlobalDef.value := by
  induction gs generalizing block with
  | nil => rfl
  | cons g rest ih => rw [globalViews, map_cons, ih, map_cons]

lemma expr_views (p : Program) : p.views.map View.expr =
    p.globals.map GlobalDef.value ++ (p.functions.flatMap (fun f => (Stmt.blockParts f.body).flatMap Stmt.exprs) ++
      p.rules.flatMap fun r => r.guard.toList ++ (Stmt.blockParts r.body).flatMap Stmt.exprs) := by
  simp only [views, functionViews, ruleViews, map_append, map_flatMap, expr_globalViews,
    Stmt.expr_blockViews, map_map, Function.comp_def, map_id', append_assoc]

lemma exists_view {e : Expr} : (∃ view ∈ p.views, view.expr = e) ↔ e ∈ p.exprs := by
  have hmem : (∃ view ∈ p.views, view.expr = e) ↔ e ∈ p.views.map View.expr := mem_map.symm
  rw [hmem, expr_views, mem_exprs]
  simp only [mem_append, mem_map, mem_flatMap, Option.mem_toList, mem_stmts]
  constructor
  · rintro (⟨g, hg, rfl⟩ | ⟨f, hf, s, hs, he⟩ | ⟨r, hr, he | ⟨s, hs, he⟩⟩)
    · exact .inl ⟨g, hg, rfl⟩
    · exact .inr (.inr ⟨s, .inl ⟨f, hf, hs⟩, he⟩)
    · exact .inr (.inl ⟨r, hr, he⟩)
    · exact .inr (.inr ⟨s, .inr ⟨r, hr, hs⟩, he⟩)
  · rintro (⟨g, hg, rfl⟩ | ⟨r, hr, he⟩ | ⟨s, ⟨f, hf, hs⟩ | ⟨r, hr, hs⟩, he⟩)
    · exact .inl ⟨g, hg, rfl⟩
    · exact .inr (.inr ⟨r, hr, .inl he⟩)
    · exact .inr (.inl ⟨f, hf, s, hs, he⟩)
    · exact .inr (.inr ⟨r, hr, .inr ⟨s, hs, he⟩⟩)

lemma eq_of_view (hnodup : (p.nodes.map Expr.id).Nodup) {view view' : View} (hview : view ∈ p.views)
    (hview' : view' ∈ p.views) {n : Expr} (hn : n ∈ view.expr.nodes) (hn' : n ∈ view'.expr.nodes) : view = view' := by
  have hids : (p.views.flatMap fun view => view.expr.ids).Nodup := by
    have hexprs : (p.views.flatMap fun view => view.expr.ids) = (p.views.map View.expr).flatMap Expr.ids :=
      (flatMap_map ..).symm
    rw [map_id_nodes] at hnodup
    rw [hexprs, expr_views]
    have hperm := (perm_definitions p.definitions).nodup_iff.mp hnodup
    simpa [flatMap_append, flatMap_assoc, flatMap_map, Stmt.blockIds, globals, functions, rules]
      using hperm
  by_contra hne
  have hsymm : Std.Symm (Function.onFun List.Disjoint fun view : View => view.expr.ids) := ⟨fun _ _ h => h.symm⟩
  have hapart := (nodup_flatMap.mp hids).2.forall hview hview' hne
  exact hapart (Expr.id_mem_ids_of_mem hn) (Expr.id_mem_ids_of_mem hn')

lemma fromLoops_globals (p : Program) : Binders.FromLoops [p.globalBinders] p.stmts := by
  simp [Binders.FromLoops, globalBinders]

lemma fromLoops_views (p : Program) : View.FromLoops p.views p.stmts := by
  have hglobals : ∀ block gs, Binders.FromLoops [block] p.stmts → View.FromLoops (globalViews block gs) p.stmts := by
    intro block gs hblock
    induction gs generalizing block with
    | nil => simp [View.FromLoops, globalViews]
    | cons g rest ih => exact forall_mem_cons.mpr ⟨hblock, ih _ (hblock.bind fun _ => nofun)⟩
  have hparts : ∀ f ∈ p.functions, Stmt.blockParts f.body ⊆ p.stmts := fun f hf s hs => mem_stmts.mpr (.inl ⟨f, hf, hs⟩)
  have hparts' : ∀ r ∈ p.rules, Stmt.blockParts r.body ⊆ p.stmts := fun r hr s hs => mem_stmts.mpr (.inr ⟨r, hr, hs⟩)
  refine forall_mem_append.mpr ⟨forall_mem_append.mpr ⟨hglobals [] _ (by simp [Binders.FromLoops]), ?_⟩, ?_⟩
  · refine forall_mem_flatMap.mpr fun f hf => Stmt.fromLoops_blockViews f.body (hparts f hf) _ ?_
    exact forall_mem_cons.mpr ⟨by simp, p.fromLoops_globals⟩
  · refine forall_mem_flatMap.mpr fun r hr => forall_mem_append.mpr ⟨?_, ?_⟩
    · simpa using fun _ _ => p.fromLoops_globals
    · exact Stmt.fromLoops_blockViews r.body (hparts' r hr) _ p.fromLoops_globals.push

end Program

end ChessEval
