import ChessEval.Proofs.Collecting

namespace ChessEval

open List

variable {block : List (String × Ty)} {f : FunctionDef} {ids' : List Nat}

namespace Collect

section Definitions

variable {a : Analysis} {c c' : Collection} {result : Unit}

lemma covered_of_each {α : Type} {step : α → Collect Unit} {good : Collection → α → Prop}
    (hmono : ∀ x c c', Collection.Grows c c' → good c x → good c' x) {items : List α}
    (hstep : ∀ x ∈ items, ∀ c result c', c.scopes = [] → (step x).run c = (result, c') →
      c.Grows c' ∧ c'.scopes = [] ∧ good c' x)
    (hscopes : c.scopes = []) (h : (each step items).run c = (result, c')) :
    c.Grows c' ∧ c'.scopes = [] ∧ ∀ x ∈ items, good c' x := by
  induction items generalizing c with
  | nil =>
    cases h
    exact ⟨.refl _, hscopes, by simp⟩
  | cons x rest ih =>
    rw [each, runState_bind] at h
    obtain ⟨_, d, hx, hrest⟩ := h
    obtain ⟨hstep, hsteps⟩ := forall_mem_cons.mp hstep
    obtain ⟨hgrows, hscopes', hgood⟩ := hstep c _ d hscopes hx
    obtain ⟨hgrows', hscopes'', hall⟩ := ih hsteps hscopes' hrest
    exact ⟨hgrows.trans hgrows', hscopes'',
      forall_mem_cons.mpr ⟨hmono x d c' hgrows' hgood, hall⟩⟩

lemma covered_of_global {g : GlobalDef} (hblock : ∀ x ∈ block, x.2.isResolved = true)
    (htyped : g.value.AllTyped a [block]) (hscopes : c.scopes = []) (h : (global a g).run c = (result, c')) :
    c.Grows c' ∧ c'.scopes = [] ∧ ∀ n ∈ g.value.nodes, n.Collected a c' := by
  have hagrees : c.Agrees c.scopes [block] := hscopes ▸ .globals hblock
  obtain ⟨hgrows, hscopes', -, hnodes⟩ := collected_of_exprOf htyped hagrees h
  exact ⟨hgrows, hscopes'.trans hscopes, hnodes⟩

lemma agrees_of_params {ps : List Param} {inner : List (String × Ty)} {Γ : NameTypes}
    (hresolved : ∀ p ∈ ps, p.type.isResolved = true) (hopen : c.scopes ≠ [])
    (hagrees : c.Agrees c.scopes (inner :: Γ)) (h : (params ps).run c = (result, c')) :
    Follows c c' (((ps.map fun p => (p.name, p.type)).reverse ++ inner) :: Γ) := by
  induction ps generalizing c inner with
  | nil =>
    cases h
    exact ⟨.refl _, hopen, hagrees⟩
  | cons p rest ih =>
    rw [params, runState_bind] at h
    obtain ⟨_, d, hbind, hrest⟩ := h
    cases hbind
    have hgrows : c.Grows ((bind p.name none).run c).2 := grows_scopes _ c
    obtain ⟨hp, hps⟩ := forall_mem_cons.mp hresolved
    have hbound : ((bind p.name none).run c).2.Agrees (c.scopes.bind p.name none)
        (NameTypes.bind (inner :: Γ) p.name p.type) := (hagrees.mono hgrows).bind hopen hp
    obtain ⟨hgrows', hopen', hagrees'⟩ := ih hps (bind_ne_nil hopen) hbound hrest
    exact ⟨hgrows.trans hgrows', hopen', by simpa using hagrees'⟩

lemma covered_of_function (hblock : ∀ x ∈ block, x.2.isResolved = true)
    (hparams : ∀ p ∈ f.params, p.type.isResolved = true)
    (hresolved : ∀ s ∈ Stmt.blockParts f.body, ∀ type ∈ s.declared, type.isResolved = true)
    (htyped : Stmt.BlockTyped a [f.names, block] f.body) (hscopes : c.scopes = [])
    (h : (function a f).run c = (result, c')) :
    c.Grows c' ∧ c'.scopes = [] ∧ ∀ s ∈ Stmt.blockParts f.body, s.Covered a c' := by
  simp only [function, runState_bind] at h
  obtain ⟨_, c₁, h₁, _, c₂, h₂, _, c₃, h₃, h₄⟩ := h
  cases h₁
  have hgrows₁ : c.Grows (openScope.run c).2 := grows_scopes _ c
  have hagrees : c.Agrees ([] :: c.scopes) [[], block] := hscopes ▸ (LoopScopes.InStep.globals hblock).push
  obtain ⟨hgrows₂, hopen₂, hagrees₂⟩ :=
    agrees_of_params hparams (cons_ne_nil _ _) (hagrees.mono hgrows₁) h₂
  rw [append_nil] at hagrees₂
  obtain ⟨hgrows₃, hagrees₃, hcovered⟩ := covered_of_scoped (covered_of_statements a f.body) htyped
    hresolved hopen₂ hagrees₂ h₃ h₄
  refine ⟨(hgrows₁.trans hgrows₂).trans hgrows₃, ?_, hcovered⟩
  have hlength := hagrees₃.length_eq
  simpa using hlength

lemma allTyped_push {Γ : NameTypes} {e : Expr} (h : e.AllTyped a Γ) : e.AllTyped a ([] :: Γ) := by
  intro n hn
  cases n <;> exact h _ hn

lemma covered_of_rule {r : RuleDef} (hblock : ∀ x ∈ block, x.2.isResolved = true)
    (hresolved : ∀ s ∈ Stmt.blockParts r.body, ∀ type ∈ s.declared, type.isResolved = true)
    (hguard : ∀ e ∈ r.guard, e.AllTyped a [block]) (htyped : Stmt.BlockTyped a [[], block] r.body)
    (hscopes : c.scopes = []) (h : (rule a r).run c = (result, c')) :
    c.Grows c' ∧ c'.scopes = [] ∧ (∀ e ∈ r.guard, ∀ n ∈ e.nodes, n.Collected a c') ∧
      ∀ s ∈ Stmt.blockParts r.body, s.Covered a c' := by
  have hagrees : c.Agrees ([] :: c.scopes) [[], block] :=
    hscopes ▸ (LoopScopes.InStep.globals hblock).push
  have hgrows₁ : c.Grows (openScope.run c).2 := grows_scopes _ c
  have hbody : ∀ c₂ : Collection, c.Grows c₂ → c₂.scopes = [] :: c.scopes →
      (statements a .void (.ofDefinition .rule r.name r.line) r.body >>= fun _ => closeScope).run c₂ =
        (result, c') →
      c₂.Grows c' ∧ c'.scopes = [] ∧ ∀ s ∈ Stmt.blockParts r.body, s.Covered a c' := by
    intro c₂ hgrows₂ hscopes₂ h
    rw [runState_bind] at h
    obtain ⟨_, c₃, h₃, h₄⟩ := h
    obtain ⟨hgrows₃, hagrees₃, hcovered⟩ := covered_of_scoped (covered_of_statements a r.body) htyped
      hresolved (hscopes₂ ▸ cons_ne_nil _ _) (hscopes₂ ▸ hagrees.mono hgrows₂) h₃ h₄
    exact ⟨hgrows₃, by simpa using hagrees₃.length_eq, hcovered⟩
  rw [rule, runState_bind] at h
  obtain ⟨_, c₁, h₁, h⟩ := h
  cases h₁
  cases hr : r.guard with
  | none =>
    rw [hr] at h
    obtain ⟨hgrows, hscopes', hcovered⟩ := hbody _ hgrows₁ rfl h
    exact ⟨hgrows₁.trans hgrows, hscopes', by simp, hcovered⟩
  | some e =>
    rw [hr] at h
    dsimp only at h
    rw [runState_bind] at h
    obtain ⟨_, c₂, h₂, h⟩ := h
    obtain ⟨hgrows₂, hscopes₂, hnodes⟩ :=
      collected_of_expr (allTyped_push (hguard e hr)) (hagrees.mono hgrows₁) h₂
    obtain ⟨hgrows, hscopes', hcovered⟩ := hbody c₂ (hgrows₁.trans hgrows₂) hscopes₂ h
    refine ⟨(hgrows₁.trans hgrows₂).trans hgrows, hscopes', ?_, hcovered⟩
    rintro e' ⟨⟩ n hn
    exact (hnodes n hn).mono hgrows

end Definitions

end Collect

namespace Program

section Resolved

variable {p : Program} (hwf : p.WellFormed)
include hwf

lemma WellFormed.global {g : GlobalDef} (hg : g ∈ p.globals) : g.type.isResolved = true :=
  hwf.resolved _ (mem_globals.mp hg) g.type (mem_singleton_self _)

lemma WellFormed.globalNames : ∀ x ∈ p.globalNames, x.2.isResolved = true := by
  intro x hx
  obtain ⟨g, hg, rfl⟩ := mem_map.mp (mem_reverse.mp hx)
  exact hwf.global hg

lemma WellFormed.returnType (hf : f ∈ p.functions) : f.returnType.isResolved = true :=
  hwf.resolved _ (mem_functions.mp hf) _ mem_cons_self

lemma WellFormed.params (hf : f ∈ p.functions) : ∀ q ∈ f.params, q.type.isResolved = true := by
  intro q hq
  refine hwf.resolved _ (mem_functions.mp hf) _ (mem_cons_of_mem _ ?_)
  exact mem_append_left _ (mem_map_of_mem hq)

lemma WellFormed.functionBody (hf : f ∈ p.functions) :
    ∀ s ∈ Stmt.blockParts f.body, ∀ type ∈ s.declared, type.isResolved = true := by
  intro s hs type htype
  refine hwf.resolved _ (mem_functions.mp hf) _ (mem_cons_of_mem _ ?_)
  exact mem_append_right _ (mem_flatMap.mpr ⟨s, hs, htype⟩)

lemma WellFormed.ruleBody {r : RuleDef} (hr : r ∈ p.rules) :
    ∀ s ∈ Stmt.blockParts r.body, ∀ type ∈ s.declared, type.isResolved = true := fun s hs _ htype =>
  hwf.resolved _ (mem_rules.mp hr) _ (mem_flatMap.mpr ⟨s, hs, htype⟩)

end Resolved

lemma GlobalsTyped.value {a : Analysis} {gs : List GlobalDef} (h : GlobalsTyped a block gs)
    (hblock : ∀ x ∈ block, x.2.isResolved = true) (hgs : ∀ g ∈ gs, g.type.isResolved = true) :
    ∀ g ∈ gs, ∃ block', (∀ x ∈ block', x.2.isResolved = true) ∧ g.value.AllTyped a [block'] := by
  induction gs generalizing block with
  | nil => simp
  | cons g rest ih =>
    obtain ⟨hg, hrest⟩ := forall_mem_cons.mp hgs
    exact forall_mem_cons.mpr ⟨⟨block, hblock, h.1⟩,
      ih h.2.2 (forall_mem_cons.mpr ⟨hg, hblock⟩) hrest⟩

section Phases

variable {p : Program} {a : Analysis} (hwf : p.WellFormed) (htyped : p.Typed a) {c c' : Collection}
  {result : Unit} (hscopes : c.scopes = [])
include hwf htyped hscopes

lemma covered_of_globals (h : (Collect.each (Collect.global a) p.globals).run c = (result, c')) :
    c.Grows c' ∧ c'.scopes = [] ∧ ∀ g ∈ p.globals, ∀ n ∈ g.value.nodes, n.Collected a c' := by
  refine Collect.covered_of_each
    (fun g c c' hgrows (h : ∀ n ∈ g.value.nodes, n.Collected a c) n hn => (h n hn).mono hgrows)
    (fun g hg c result c' hscopes hrun => ?_) hscopes h
  obtain ⟨block, hblock, hvalue⟩ := htyped.globals.value (by simp) (fun _ => hwf.global) g hg
  exact Collect.covered_of_global hblock hvalue hscopes hrun

lemma covered_of_functions (h : (Collect.each (Collect.function a) p.functions).run c = (result, c')) :
    c.Grows c' ∧ c'.scopes = [] ∧ ∀ f ∈ p.functions, ∀ s ∈ Stmt.blockParts f.body, s.Covered a c' :=
  Collect.covered_of_each
    (fun f c _ hgrows (h : ∀ s ∈ Stmt.blockParts f.body, s.Covered a c) s hs => (h s hs).mono hgrows)
    (fun f hf _ _ _ => Collect.covered_of_function hwf.globalNames (hwf.params hf)
      (hwf.functionBody hf) (htyped.functions f hf)) hscopes h

lemma covered_of_rules {rules : List RuleDef} (hrules : rules ⊆ p.rules)
    (h : (Collect.each (Collect.rule a) rules).run c = (result, c')) :
    c.Grows c' ∧ c'.scopes = [] ∧ ∀ r ∈ rules,
      (∀ e ∈ r.guard, ∀ n ∈ e.nodes, n.Collected a c') ∧ ∀ s ∈ Stmt.blockParts r.body, s.Covered a c' :=
  Collect.covered_of_each
    (fun r c _ hgrows (h : (∀ e ∈ r.guard, ∀ n ∈ e.nodes, n.Collected a c) ∧
      ∀ s ∈ Stmt.blockParts r.body, s.Covered a c) =>
      ⟨fun e he n hn => (h.1 e he n hn).mono hgrows, fun s hs => (h.2 s hs).mono hgrows⟩)
    (fun r hr _ _ _ => Collect.covered_of_rule hwf.globalNames (hwf.ruleBody (hrules hr))
      (fun e he => (htyped.guards r (hrules hr) e he).1) (htyped.rules r (hrules hr))) hscopes h

end Phases

/-- The constraints of a typed program cover all of its nodes and statements. -/
theorem covered_of_collect {p : Program} {a : Analysis} (hwf : p.WellFormed) (htyped : p.Typed a)
    (slots : Nat) :
    (∀ n ∈ p.nodes, n.Collected a (a.collect p slots)) ∧
      ∀ s ∈ p.stmts, s.Demanded (a.collect p slots) := by
  obtain ⟨result, c, hrun⟩ : ∃ result c, (Collect.program a p).run ⟨[], slots, [], [], []⟩ = (result, c) :=
    ⟨_, _, rfl⟩
  have hc : a.collect p slots = c := congrArg Prod.snd hrun
  simp only [Collect.program, runState_bind] at hrun
  obtain ⟨_, c₁, h₁, _, c₂, h₂, h₃⟩ := hrun
  obtain ⟨-, hscopes₁, hglobals⟩ := covered_of_globals hwf htyped rfl h₁
  obtain ⟨hgrows₂, hscopes₂, hfunctions⟩ := covered_of_functions hwf htyped hscopes₁ h₂
  obtain ⟨hgrows₃, -, hrules⟩ := covered_of_rules hwf htyped hscopes₂ (List.Subset.refl _) h₃
  have hstmts : ∀ s ∈ p.stmts, s.Covered a c := by
    intro s hs
    rcases mem_stmts.mp hs with ⟨f, hf, hs⟩ | ⟨r, hr, hs⟩
    · exact (hfunctions f hf s hs).mono hgrows₃
    · exact (hrules r hr).2 s hs
  rw [hc]
  refine ⟨fun n hn => ?_, fun s hs => (hstmts s hs).demanded⟩
  obtain ⟨e, he, hne⟩ := mem_flatMap.mp hn
  rcases mem_exprs.mp he with ⟨g, hg, rfl⟩ | ⟨r, hr, her⟩ | ⟨s, hs, hes⟩
  · exact (hglobals g hg n hne).mono (hgrows₂.trans hgrows₃)
  · exact (hrules r hr).1 e her n hne
  · exact (hstmts s hs).nodes e hes n hne

end Program

namespace Collection

/-- The slots of loop variables come after those of the nodes. -/
structure SlotsFrom (nodes : Nat) (c : Collection) : Prop where
  next : nodes ≤ c.nextSlot
  scopes : ∀ scope ∈ c.scopes, ∀ x ∈ scope, ∀ slot ∈ x.2, nodes ≤ slot ∧ slot < c.nextSlot

lemma SlotsFrom.slot? {nodes : Nat} {c : Collection} (h : c.SlotsFrom nodes) {name : String}
    {slot : Nat} (hslot : c.scopes.slot? name = some slot) : nodes ≤ slot ∧ slot < c.nextSlot := by
  have hfind : c.scopes.findSome? (fun scope => scope.lookup name) = some (some slot) :=
    Option.join_eq_some_iff.mp hslot
  obtain ⟨scope, hscope, hlookup⟩ := exists_of_findSome?_eq_some hfind
  obtain ⟨l₁, l₂, heq, -⟩ := lookup_eq_some_iff.mp hlookup
  exact h.scopes scope hscope (name, some slot) (by simp [heq]) slot rfl

/-- What a step adds speaks of the given nodes and of loop variables. -/
structure AddsOn (nodes : Nat) (ids : List Nat) (c c' : Collection) : Prop where
  next : c.nextSlot ≤ c'.nextSlot
  added : ∀ k ∈ c'.constraints, k ∈ c.constraints ∨
    ∀ slot ∈ k.slots, slot ∈ ids ∨ (nodes ≤ slot ∧ slot < c'.nextSlot)

lemma AddsOn.trans {nodes : Nat} {ids : List Nat} {c d e : Collection} (hcd : AddsOn nodes ids c d)
    (hde : AddsOn nodes ids' d e) : AddsOn nodes (ids ++ ids') c e := by
  refine ⟨hcd.next.trans hde.next, fun k hk => ?_⟩
  rcases hde.added k hk with hk | hk
  · rcases hcd.added k hk with hk | hk
    · exact .inl hk
    · refine .inr fun slot hslot => ?_
      rcases hk slot hslot with hmem | ⟨hfrom, hto⟩
      · exact .inl (mem_append_left _ hmem)
      · exact .inr ⟨hfrom, hto.trans_le hde.next⟩
  · refine .inr fun slot hslot => ?_
    rcases hk slot hslot with hmem | hrange
    · exact .inl (mem_append_right _ hmem)
    · exact .inr hrange

end Collection

namespace Collect

/-- A step that speaks only of the given nodes and of loop variables. -/
def Stays (nodes : Nat) (ids : List Nat) (x : Collect Unit) : Prop :=
  ∀ c result c', x.run c = (result, c') → c.SlotsFrom nodes →
    c'.SlotsFrom nodes ∧ Collection.AddsOn nodes ids c c'

section Stays

variable {a : Analysis} {nodes : Nat} {ids : List Nat} {context : Context}

lemma Stays.bind {x y : Collect Unit} (hx : Stays nodes ids x) (hy : Stays nodes ids' y) :
    Stays nodes (ids ++ ids') (x >>= fun _ => y) := by
  intro c result c' h hc
  rw [runState_bind] at h
  obtain ⟨_, d, hxd, hyd⟩ := h
  obtain ⟨hd, hadds⟩ := hx c _ d hxd hc
  obtain ⟨hc', hadds'⟩ := hy d _ c' hyd hd
  exact ⟨hc', hadds.trans hadds'⟩

lemma Stays.mono {x : Collect Unit} (hx : Stays nodes ids x) (hsub : ids ⊆ ids') : Stays nodes ids' x := by
  intro c result c' h hc
  obtain ⟨hc', hadds⟩ := hx c result c' h hc
  refine ⟨hc', hadds.next, fun k hk => (hadds.added k hk).imp_right fun hk slot hslot => ?_⟩
  exact (hk slot hslot).imp_left (hsub ·)

lemma stays_pure : Stays nodes [] (pure ()) := by
  intro c result c' h hc
  cases h
  exact ⟨hc, le_rfl, fun k hk => .inl hk⟩

lemma stays_add {k : Constraint} (hk : ∀ slot ∈ k.slots, slot ∈ ids) : Stays nodes ids (add k) := by
  intro c result c' h hc
  cases h
  refine ⟨⟨hc.next, hc.scopes⟩, le_rfl, fun k' hk' => ?_⟩
  rcases mem_append.mp hk' with hk' | hk'
  · exact .inl hk'
  · rw [mem_singleton.mp hk']
    exact .inr fun slot hslot => .inl (hk slot hslot)

lemma stays_openScope : Stays nodes [] openScope := by
  intro c result c' h hc
  cases h
  exact ⟨⟨hc.next, by simpa using hc.scopes⟩, le_rfl, fun k hk => .inl hk⟩

lemma stays_closeScope : Stays nodes [] closeScope := by
  intro c result c' h hc
  cases h
  exact ⟨⟨hc.next, fun scope hscope => hc.scopes scope (mem_of_mem_tail hscope)⟩, le_rfl,
    fun k hk => .inl hk⟩

lemma stays_bind (name : String) : Stays nodes [] (bind name none) := by
  intro c result c' h hc
  cases h
  refine ⟨⟨hc.next, ?_⟩, le_rfl, fun k hk => .inl hk⟩
  intro scope hscope x hx slot hslot
  change scope ∈ c.scopes.bind name none at hscope
  cases hscopes : c.scopes with
  | nil => simp [hscopes, LoopScopes.bind] at hscope
  | cons first outer =>
    rw [hscopes] at hscope
    rcases mem_cons.mp hscope with rfl | hscope
    · rcases mem_cons.mp hx with rfl | hx
      · cases hslot
      · exact hc.scopes first (by simp [hscopes]) x hx slot hslot
    · exact hc.scopes scope (by simp [hscopes, hscope]) x hx slot hslot

lemma stays_expr (e : Expr) : Stays nodes e.ids (expr a context e) := by
  intro c result c' h hc
  cases h
  refine ⟨⟨hc.next, hc.scopes⟩, le_rfl, fun k hk => ?_⟩
  rcases mem_append.mp hk with hk | hk
  · exact .inl hk
  · refine .inr fun slot hslot => ?_
    obtain ⟨n, hn, hkn⟩ := Expr.mem_constraints.mp hk
    rcases Expr.slots_own hkn hslot with rfl | ⟨child, hchild, rfl⟩ | ⟨name, hname⟩
    · exact .inl (Expr.id_mem_ids_of_mem hn)
    · exact .inl (Expr.id_mem_ids_of_mem (Expr.child_mem_nodes hchild hn))
    · exact .inr (hc.slot? hname)

lemma stays_exprOf (type : Ty) (e : Expr) : Stays nodes e.ids (exprOf a context type e) := by
  have hadd : Stays nodes e.ids (add (.fixed e.id type)) := by
    apply stays_add
    intro slot hslot
    rw [mem_singleton.mp hslot]
    exact e.id_mem_ids
  exact (hadd.bind (stays_expr e)).mono (by simp)

lemma stays_optionalExpr (type : Ty) (value : Option Expr) :
    Stays nodes (value.toList.flatMap Expr.ids) (optionalExpr a context type value) := by
  cases value with
  | none => exact stays_pure
  | some e => exact (stays_exprOf type e).mono (by simp)

lemma stays_declarators (type : Ty) (ds : List Declarator) :
    Stays nodes ((ds.flatMap fun d => d.value.toList).flatMap Expr.ids) (declarators a context type ds) := by
  induction ds with
  | nil => exact stays_pure
  | cons d rest ih =>
    refine ((stays_optionalExpr type d.value).bind ((stays_bind d.name).bind ih)).mono ?_
    simp

lemma stays_forAll {name : String} {source : Expr} {body : List Stmt} {line : Nat} {returnType : Ty}
    (ih : Stays nodes (Stmt.blockIds body) (statements a returnType context body)) :
    Stays nodes (source.ids ++ Stmt.blockIds body)
      (statement a returnType context (.forAll name source body line)) := by
  intro c result c' h hc
  simp only [statement, runState_bind] at h
  obtain ⟨_, c₁, h₁, slot, c₂, h₂, _, c₃, h₃, _, c₄, h₄, _, c₅, h₅, _, c₆, h₆, _, c₇, h₇, h₈⟩ := h
  obtain ⟨hc₁, hadds₁⟩ := stays_expr source c _ c₁ h₁ hc
  have hc₆ := enterLoop h₂ h₃ h₄ h₅ h₆
  have hslots₆ : c₆.SlotsFrom nodes := by
    rw [hc₆]
    refine ⟨Nat.le_succ_of_le hc₁.next, ?_⟩
    intro scope hscope x hx slot hslot
    rcases mem_cons.mp hscope with rfl | hscope
    · rw [mem_singleton.mp hx] at hslot
      cases hslot
      exact ⟨hc₁.next, Nat.lt_succ_self _⟩
    · obtain ⟨hfrom, hto⟩ := hc₁.scopes scope hscope x hx slot hslot
      exact ⟨hfrom, Nat.lt_succ_of_lt hto⟩
  have hadds₆ : Collection.AddsOn nodes source.ids c₁ c₆ := by
    rw [hc₆]
    refine ⟨Nat.le_succ _, fun k hk => ?_⟩
    rcases mem_append.mp hk with hk | hk
    · exact .inl hk
    · rw [mem_singleton.mp hk]
      refine .inr fun slot hslot => ?_
      simp only [Constraint.slots, mem_cons, not_mem_nil, or_false] at hslot
      rcases hslot with rfl | rfl
      · exact .inl source.id_mem_ids
      · exact .inr ⟨hc₁.next, Nat.lt_succ_self _⟩
  obtain ⟨hc₇, hadds₇⟩ := ih c₆ _ c₇ h₇ hslots₆
  obtain ⟨hc', hadds₈⟩ := stays_closeScope c₇ _ c' h₈ hc₇
  obtain ⟨hnext, hadded⟩ := ((hadds₁.trans hadds₆).trans hadds₇).trans hadds₈
  refine ⟨hc', hnext, fun k hk => (hadded k hk).imp_right fun hk slot hslot => ?_⟩
  refine (hk slot hslot).imp_left fun hmem => ?_
  simpa using hmem

/-- Collecting from a block speaks only of its nodes and of loop variables. -/
theorem stays_statements (a : Analysis) (nodes : Nat) (block : List Stmt) :
    ∀ returnType context, Stays nodes (Stmt.blockIds block) (statements a returnType context block) := by
  induction block using Stmt.block_induction (fun stmt =>
    ∀ returnType context, Stays nodes stmt.ids (statement a returnType context stmt)) with
  | declare type ds line returnType context =>
    rw [Stmt.ids_declare]
    exact stays_declarators type ds
  | assign target value line returnType context =>
    have hadd : Stays nodes (target.ids ++ value.ids) (add (.equal target.id value.id)) := by
      apply stays_add
      intro slot hslot
      simp only [Constraint.slots, mem_cons, not_mem_nil, or_false] at hslot
      rcases hslot with rfl | rfl
      · exact mem_append_left _ target.id_mem_ids
      · exact mem_append_right _ value.id_mem_ids
    refine ((stays_expr target).bind ((stays_expr value).bind hadd)).mono ?_
    simp [Stmt.ids_assign]
  | ifThen condition body line ih returnType context | whileDo condition body line ih returnType context =>
    refine ((stays_expr condition).bind (stays_openScope.bind ((ih _ _).bind stays_closeScope))).mono ?_
    simp [Stmt.ids_ifThen, Stmt.ids_whileDo]
  | ifElse condition thenBody elseBody line ihthen ihelse returnType context =>
    refine ((stays_expr condition).bind (stays_openScope.bind ((ihthen _ _).bind (stays_closeScope.bind
      (stays_openScope.bind ((ihelse _ _).bind stays_closeScope)))))).mono ?_
    simp [Stmt.ids_ifElse]
  | forAll name source body line ih returnType context =>
    rw [Stmt.ids_forAll]
    exact stays_forAll (ih _ _)
  | returns value line returnType context =>
    rw [Stmt.ids_returns]
    exact stays_optionalExpr returnType value
  | score value line returnType context =>
    rw [Stmt.ids_score]
    exact stays_exprOf .num value
  | call site line returnType context =>
    rw [Stmt.ids_call]
    exact stays_expr site
  | nil => exact fun _ _ => stays_pure
  | cons stmt rest ihstmt ihrest =>
    intro returnType context
    rw [Stmt.blockIds_cons]
    exact (ihstmt _ _).bind (ihrest _ _)

lemma stays_each {α : Type} {step : α → Collect Unit} {idsOf : α → List Nat}
    (hstep : ∀ x, Stays nodes (idsOf x) (step x)) (items : List α) :
    Stays nodes (items.flatMap idsOf) (each step items) := by
  induction items with
  | nil => exact stays_pure
  | cons x rest ih => exact (hstep x).bind ih

lemma stays_global (g : GlobalDef) : Stays nodes g.value.ids (global a g) :=
  stays_exprOf g.type g.value

lemma stays_params (ps : List Param) : Stays nodes [] (params ps) := by
  induction ps with
  | nil => exact stays_pure
  | cons p rest ih => exact (stays_bind p.name).bind ih

lemma stays_function (f : FunctionDef) : Stays nodes (Stmt.blockIds f.body) (function a f) := by
  refine (stays_openScope.bind ((stays_params f.params).bind
    ((stays_statements a nodes f.body _ _).bind stays_closeScope))).mono ?_
  simp

lemma stays_rule (r : RuleDef) :
    Stays nodes (r.guard.toList.flatMap Expr.ids ++ Stmt.blockIds r.body) (rule a r) := by
  unfold rule
  cases r.guard with
  | none =>
    refine (stays_openScope.bind ((stays_statements a nodes r.body _ _).bind stays_closeScope)).mono ?_
    simp
  | some e =>
    refine (stays_openScope.bind ((stays_expr e).bind
      ((stays_statements a nodes r.body _ _).bind stays_closeScope))).mono ?_
    simp

end Stays

end Collect

/-- The constraints of a program with node numbers below `slots` speak only of slots that exist. -/
theorem Program.slots_of_collect {p : Program} (a : Analysis) {slots : Nat}
    (hbelow : ∀ n ∈ p.nodes, n.id < slots) :
    slots ≤ (a.collect p slots).nextSlot ∧
      ∀ k ∈ (a.collect p slots).constraints, ∀ slot ∈ k.slots,
        slot < (a.collect p slots).nextSlot := by
  have hstays : Collect.Stays slots (p.globals.flatMap (fun g => g.value.ids) ++
      (p.functions.flatMap (fun f => Stmt.blockIds f.body) ++ p.rules.flatMap
        fun r => r.guard.toList.flatMap Expr.ids ++ Stmt.blockIds r.body)) (Collect.program a p) :=
    (Collect.stays_each Collect.stays_global p.globals).bind
      ((Collect.stays_each Collect.stays_function p.functions).bind
        (Collect.stays_each Collect.stays_rule p.rules))
  obtain ⟨hslots, hadds⟩ := hstays ⟨[], slots, [], [], []⟩ _ _ rfl ⟨le_rfl, by simp⟩
  refine ⟨hslots.next, fun k hk slot hslot => ?_⟩
  rcases hadds.added k hk with hk | hk
  · simp at hk
  · rcases hk slot hslot with hmem | ⟨-, hlt⟩
    · refine lt_of_lt_of_le ?_ hslots.next
      have hid : slot ∈ p.nodes.map Expr.id := by
        rw [p.map_id_nodes]
        exact (perm_definitions p.definitions).mem_iff.mpr hmem
      obtain ⟨n, hn, rfl⟩ := mem_map.mp hid
      exact hbelow n hn
    · exact hlt

end ChessEval
