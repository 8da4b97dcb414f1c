import ChessEval.Proofs.CheckedTypes
import ChessEval.Proofs.Generation
import ChessEval.Proofs.Recording
import ChessEval.Proofs.SweepLimit

/-!
# Progress without empty lists

A program that is checked without errors and in which no empty list occurs always compiles. Its types meet
all of its constraints, where each loop variable gets the type of the elements that it runs over. So the
solver settles and changes nothing, no type is missing, and code is generated.
-/

namespace ChessEval

open List

variable {block : List (String × Ty)} {type returnType : Ty} {body : List Stmt} {file : String}

namespace Collection

/-- Types of slots that give every node its type and meet all that has been collected from a program
without empty lists. -/
structure Met (a : Analysis) (p : Program) (τ : Nat → Ty) (c : Collection) : Prop where
  nodes : ∀ id, id < a.nodeCount p → τ id = a.types.typeOf id
  next : a.nodeCount p ≤ c.nextSlot
  slots : ∀ k ∈ c.constraints, ∀ slot ∈ k.slots, slot < c.nextSlot
  holds : ∀ k ∈ c.constraints, k.Holds τ
  sources : ∀ s ∈ c.sources, ∃ n ∈ p.nodes, n.id = s.id
  emptyLists : c.emptyLists = []

/-- A loop variable whose slot has its type. -/
def Carries (τ : Nat → Ty) (next : Nat) : Option Nat → Ty → Prop
  | none, _ => True
  | some slot, type => slot < next ∧ τ slot = type

/-- Some types of slots meet all that has been collected, and loop variables have the types that the names
in scope have. -/
def Meetable (a : Analysis) (p : Program) (Γ : NameTypes) (c : Collection) : Prop :=
  ∃ τ, c.Met a p τ ∧ LoopScopes.InStep (Carries τ c.nextSlot) (fun _ => True) c.scopes Γ

/-- Outside of all blocks no loop variable is in scope, so the types of the globals do not matter. -/
lemma Meetable.globals {a : Analysis} {p : Program} {c : Collection} (h : c.Meetable a p [block])
    (block' : List (String × Ty)) : c.Meetable a p [block'] := by
  obtain ⟨τ, hmet, hscopes⟩ := h
  have hnone : c.scopes = [] := by simpa using hscopes.length_eq
  exact ⟨τ, hmet, hnone ▸ .globals trivial⟩

end Collection

namespace Collect

/-- A step after which all that has been collected can still be met, and which changes the names in scope. -/
def Meets (a : Analysis) (p : Program) (Γ Γ' : NameTypes) (x : Collect Unit) : Prop :=
  ∀ c : Collection, c.Meetable a p Γ → (x.run c).2.Meetable a p Γ'

section Meets

variable {a : Analysis} {p : Program} {Γ Γ' Γ'' : NameTypes}

lemma Meets.bind {x y : Collect Unit} (hx : Meets a p Γ Γ' x) (hy : Meets a p Γ' Γ'' y) :
    Meets a p Γ Γ'' (x >>= fun _ => y) :=
  fun c hc => hy _ (hx c hc)

lemma meets_pure : Meets a p Γ Γ (pure ()) :=
  fun _ hc => hc

lemma meets_openScope : Meets a p Γ ([] :: Γ) openScope := by
  rintro c ⟨τ, hmet, hscopes⟩
  exact ⟨τ, { hmet with }, hscopes.push⟩

lemma meets_closeScope (hΓ : Γ ≠ []) : Meets a p (block :: Γ) Γ closeScope := by
  rintro c ⟨τ, hmet, hscopes⟩
  have hopen : c.scopes ≠ [] := by
    have hlength := hscopes.length_eq
    rw [← length_pos_iff] at hΓ ⊢
    simp only [length_cons] at hlength
    omega
  exact ⟨τ, { hmet with }, hscopes.pop hopen⟩

lemma meets_bind (name : String) (type : Ty) (hΓ : Γ.tail ≠ []) :
    Meets a p Γ (Γ.bind name type) (bind name none) := by
  rintro c ⟨τ, hmet, hscopes⟩
  have hopen : c.scopes ≠ [] := by
    have hlength := hscopes.length_eq
    rw [← length_pos_iff] at hΓ ⊢
    simp only [length_tail] at hΓ
    omega
  exact ⟨τ, { hmet with }, hscopes.bind hopen trivial⟩

lemma meets_params {ps : List Param} {inner : List (String × Ty)} (hΓ : Γ ≠ []) :
    Meets a p (inner :: Γ) (((ps.map fun q => (q.name, q.type)).reverse ++ inner) :: Γ) (params ps) := by
  induction ps generalizing inner with
  | nil => exact meets_pure
  | cons q rest ih =>
    have hq : Meets a p (inner :: Γ) (((q.name, q.type) :: inner) :: Γ) (bind q.name none) :=
      meets_bind q.name q.type hΓ
    rw [map_cons, reverse_cons, append_assoc]
    exact hq.bind ih

lemma meets_each {α : Type} {step : α → Collect Unit} {items : List α}
    (hstep : ∀ x ∈ items, Meets a p Γ Γ (step x)) : Meets a p Γ Γ (each step items) := by
  induction items with
  | nil => exact meets_pure
  | cons x rest ih =>
    obtain ⟨hx, hrest⟩ := forall_mem_cons.mp hstep
    exact hx.bind (ih hrest)

end Meets

end Collect

namespace Program.Filled

open Collect

variable {p : Program} {a : Analysis} (h : p.Filled a) {context : Context} {Γ : NameTypes}
include h

lemma meets_add {k : Constraint} (hslots : ∀ slot ∈ k.slots, ∃ n ∈ p.nodes, n.id = slot)
    (hk : ∀ τ : Nat → Ty, (∀ n ∈ p.nodes, τ n.id = a.types.typeOf n.id) → k.Holds τ) :
    Meets a p Γ Γ (add k) := by
  rintro c ⟨τ, hmet, hscopes⟩
  have hnodes : ∀ n ∈ p.nodes, τ n.id = a.types.typeOf n.id := fun n hn =>
    hmet.nodes n.id (a.lt_nodeCount h.wellFormed hn)
  refine ⟨τ, { hmet with slots := ?_, holds := ?_ }, hscopes⟩
  · refine forall_mem_append.mpr ⟨hmet.slots, forall_mem_singleton.mpr fun slot hslot => ?_⟩
    obtain ⟨n, hn, rfl⟩ := hslots slot hslot
    exact (a.lt_nodeCount h.wellFormed hn).trans_le hmet.next
  · exact forall_mem_append.mpr ⟨hmet.holds, forall_mem_singleton.mpr (hk τ hnodes)⟩

lemma meets_expr {e : Expr} (he : e ∈ p.exprs) (htyped : e.AllTyped a Γ) :
    Meets a p Γ Γ (expr a context e) := by
  rintro c ⟨τ, hmet, hscopes⟩
  have hmem : ∀ n ∈ e.nodes, n ∈ p.nodes := fun n hn => mem_flatMap.mpr ⟨e, he, hn⟩
  have hnodes : ∀ n ∈ p.nodes, τ n.id = a.types.typeOf n.id := fun n hn =>
    hmet.nodes n.id (a.lt_nodeCount h.wellFormed hn)
  refine ⟨τ, { hmet with slots := ?_, holds := ?_, emptyLists := ?_ }, hscopes⟩
  · refine forall_mem_append.mpr ⟨hmet.slots, fun k hk slot hk' => ?_⟩
    obtain ⟨n, hn, hkn⟩ := Expr.mem_constraints.mp hk
    have hbelow : ∀ n ∈ e.nodes, n.id < c.nextSlot := fun n hn =>
      (a.lt_nodeCount h.wellFormed (hmem n hn)).trans_le hmet.next
    rcases Expr.slots_own hkn hk' with rfl | ⟨child, hchild, rfl⟩ | ⟨name, hname⟩
    · exact hbelow n hn
    · exact hbelow child (Expr.child_mem_nodes hchild hn)
    · obtain ⟨type, hslot, -⟩ := hscopes.of_slot? hname
      exact hslot
  · refine forall_mem_append.mpr ⟨hmet.holds, fun k hk => ?_⟩
    obtain ⟨n, hn, hkn⟩ := Expr.mem_constraints.mp hk
    refine h.holds_own (hmem n hn) (htyped n hn) hnodes (fun name slot type hslot hfind => ?_) k hkn
    rcases hscopes.find hfind with ⟨hnone, -⟩ | hcarries
    · rw [hnone] at hslot
      cases hslot
    · rw [hslot] at hcarries
      exact hcarries.2
  · have hnone : e.emptyLists = [] := eq_nil_iff_forall_not_mem.mpr fun m hm =>
      h.filled m (hmem _ (Expr.mem_emptyLists.mp hm))
    change c.emptyLists ++ e.emptyLists.map _ = []
    rw [hnone, hmet.emptyLists]
    rfl

lemma meets_exprOf {e : Expr} (he : e ∈ p.exprs) (htyped : e.AllTyped a Γ)
    (hunifies : type.unifies (a.types.typeOf e.id) = true) : Meets a p Γ Γ (exprOf a context type e) := by
  have hn : e ∈ p.nodes := mem_flatMap.mpr ⟨e, he, e.self_mem_nodes⟩
  have hfixed : Meets a p Γ Γ (add (.fixed e.id type)) := by
    refine h.meets_add (forall_mem_singleton.mpr ⟨e, hn, rfl⟩) fun τ hnodes => ?_
    change type ≤ τ e.id
    rw [hnodes e hn]
    exact Ty.le_of_unifies (h.isResolved hn) hunifies
  exact hfixed.bind (h.meets_expr he htyped)

lemma meets_optionalExpr {value : Option Expr} (hexprs : ∀ e ∈ value, e ∈ p.exprs)
    (htyped : ∀ e ∈ value, e.AllTyped a Γ ∧ type.unifies (a.types.typeOf e.id) = true) :
    Meets a p Γ Γ (optionalExpr a context type value) := by
  cases value with
  | none => exact meets_pure
  | some e =>
    obtain ⟨he, hunifies⟩ := htyped e rfl
    exact h.meets_exprOf (hexprs e rfl) he hunifies

lemma meets_declarators {ds : List Declarator} (hexprs : ∀ d ∈ ds, ∀ e ∈ d.value, e ∈ p.exprs)
    (htyped : Stmt.DeclaratorsTyped a type Γ ds) (hΓ : Γ.tail ≠ []) :
    Meets a p Γ (Stmt.bindAll Γ type ds) (declarators a context type ds) := by
  induction ds generalizing Γ with
  | nil => exact meets_pure
  | cons d rest ih =>
    obtain ⟨hd, hexprs⟩ := forall_mem_cons.mp hexprs
    have hrest := ih hexprs htyped.2 (by rwa [Γ.tail_bind])
    exact (h.meets_optionalExpr hd htyped.1).bind ((meets_bind d.name type hΓ).bind hrest)

/-- A statement of the program which, if it returns something, returns what is expected. -/
def Returns (_ : p.Filled a) (expected : Ty) (s : Stmt) : Prop :=
  s ∈ p.stmts ∧ ∀ value line, s = .returns value line →
    expected.unifies (returnedType a.types value) = true

/-- All that is collected from a typed block can be met. -/
abbrev MeetsBlock (block : List Stmt) : Prop :=
  ∀ Γ returnType context, Stmt.BlockTyped a Γ block → (∀ s ∈ Stmt.blockParts block, h.Returns returnType s) →
    Γ.tail ≠ [] → ∃ inner, Meets a p Γ (inner :: Γ.tail) (statements a returnType context block)

lemma meets_scoped {inner : List (String × Ty)} (ih : h.MeetsBlock body)
    (htyped : Stmt.BlockTyped a (inner :: Γ) body) (hparts : ∀ s ∈ Stmt.blockParts body, h.Returns returnType s)
    (hΓ : Γ ≠ []) : Meets a p (inner :: Γ) Γ (statements a returnType context body >>= fun _ => closeScope) := by
  obtain ⟨last, hbody⟩ := ih (inner :: Γ) returnType context htyped hparts hΓ
  exact hbody.bind (meets_closeScope hΓ)

lemma meetable_enterLoop (name : String) (context : Context) {source : Expr} {c : Collection} (hn : source ∈ p.nodes)
    (helement : (a.types.typeOf source.id).element? = .ok type) (hc : c.Meetable a p Γ) :
    Collection.Meetable a p ([(name, type)] :: Γ)
      { c with
        constraints := c.constraints ++ [.element source.id c.nextSlot]
        nextSlot := c.nextSlot + 1
        scopes := [(name, some c.nextSlot)] :: c.scopes
        sources := c.sources ++ [⟨source.id, name, context⟩] } := by
  obtain ⟨τ, hmet, hscopes⟩ := hc
  have hid : source.id < a.nodeCount p := a.lt_nodeCount h.wellFormed hn
  have hbelow : source.id < c.nextSlot := hid.trans_le hmet.next
  have harray : τ source.id = .array type :=
    (hmet.nodes source.id hid).trans (Ty.eq_array_of_element? (h.isResolved hn) helement)
  let τ' := Function.update τ c.nextSlot type
  have hold : ∀ slot, slot < c.nextSlot → τ' slot = τ slot := fun slot hslot =>
    Function.update_of_ne hslot.ne type τ
  have hnew : τ' c.nextSlot = type := Function.update_self c.nextSlot type τ
  refine ⟨τ', ⟨fun id hlt => ?_, Nat.le_succ_of_le hmet.next, ?_, ?_, ?_, hmet.emptyLists⟩, ?_⟩
  · rw [hold id (hlt.trans_le hmet.next)]
    exact hmet.nodes id hlt
  · refine forall_mem_append.mpr ⟨fun k hk slot hslot => ?_, forall_mem_singleton.mpr ?_⟩
    · exact Nat.lt_succ_of_lt (hmet.slots k hk slot hslot)
    · simp only [Constraint.slots, forall_mem_cons]
      exact ⟨Nat.lt_succ_of_lt hbelow, Nat.lt_succ_self _, by simp⟩
  · refine forall_mem_append.mpr ⟨fun k hk => ?_, forall_mem_singleton.mpr ?_⟩
    · exact (hmet.holds k hk).congr fun slot hslot => hold slot (hmet.slots k hk slot hslot)
    · change τ' source.id = .array (τ' c.nextSlot)
      rw [hold _ hbelow, hnew]
      exact harray
  · exact forall_mem_append.mpr ⟨hmet.sources, forall_mem_singleton.mpr ⟨source, hn, rfl⟩⟩
  · refine .block (.cons ⟨rfl, Nat.lt_succ_self _, hnew⟩ .nil) (hscopes.imp fun slot type' hentry => ?_)
    cases slot with
    | none => trivial
    | some slot => exact ⟨Nat.lt_succ_of_lt hentry.1, (hold slot hentry.1).trans hentry.2⟩

lemma meets_forAll {name : String} {source : Expr} {line : Nat} (ih : h.MeetsBlock body)
    (hexpr : source ∈ p.exprs) (hsource : source.AllTyped a Γ)
    (helement : (a.types.typeOf source.id).element? = .ok type) (htyped : Stmt.BlockTyped a ([(name, type)] :: Γ) body)
    (hparts : ∀ s ∈ Stmt.blockParts body, h.Returns returnType s) (hΓ : Γ ≠ []) :
    Meets a p Γ Γ (statement a returnType context (.forAll name source body line)) := by
  intro c hc
  have hn : source ∈ p.nodes := mem_flatMap.mpr ⟨source, hexpr, source.self_mem_nodes⟩
  have hcollected : ((expr a (context.moveTo line) source).run c).2.Meetable a p Γ :=
    h.meets_expr hexpr hsource c hc
  have hentered := h.meetable_enterLoop name (context.moveTo line) hn helement hcollected
  exact h.meets_scoped ih htyped hparts hΓ _ hentered

lemma meets_conditional {condition : Expr} {inner : Context} (ih : h.MeetsBlock body)
    (hexpr : condition ∈ p.exprs) (hcondition : condition.AllTyped a Γ) (htyped : Stmt.BlockTyped a ([] :: Γ) body)
    (hparts : ∀ s ∈ Stmt.blockParts body, h.Returns returnType s) (hΓ : Γ ≠ []) :
    Meets a p Γ Γ (do
      expr a context condition
      openScope
      statements a returnType inner body
      closeScope) :=
  (h.meets_expr hexpr hcondition).bind (meets_openScope.bind (h.meets_scoped ih htyped hparts hΓ))

theorem meets_statements (block : List Stmt) : h.MeetsBlock block := by
  have hexprs : ∀ {s : Stmt} {returnType : Ty}, h.Returns returnType s → ∀ e ∈ s.exprs, e ∈ p.exprs :=
    fun hs e he => mem_exprs.mpr (.inr (.inr ⟨_, hs.1, he⟩))
  have hne : ∀ {Γ : NameTypes}, Γ.tail ≠ [] → Γ ≠ [] := by
    rintro Γ hΓ rfl
    exact hΓ rfl
  induction block using Stmt.block_induction (fun stmt => ∀ Γ returnType context, stmt.Typed a Γ →
    (∀ s ∈ stmt.parts, h.Returns returnType s) → Γ.tail ≠ [] →
    Meets a p Γ (stmt.binds Γ) (statement a returnType context stmt)) with
  | declare type ds line Γ returnType context htyped hparts hΓ =>
    have hself := hparts (.declare type ds line) (by simp [Stmt.parts])
    refine h.meets_declarators (fun d hd e he => ?_) htyped hΓ
    exact hexprs hself e (mem_flatMap.mpr ⟨d, hd, Option.mem_toList.mpr he⟩)
  | assign target value line Γ returnType context htyped hparts hΓ =>
    obtain ⟨htarget, hvalue, hunifies⟩ := htyped
    have hself := hparts (.assign target value line) (by simp [Stmt.parts])
    have het := hexprs hself target (by simp [Stmt.exprs])
    have hev := hexprs hself value (by simp [Stmt.exprs])
    have hnt : target ∈ p.nodes := mem_flatMap.mpr ⟨target, het, target.self_mem_nodes⟩
    have hnv : value ∈ p.nodes := mem_flatMap.mpr ⟨value, hev, value.self_mem_nodes⟩
    have hequal : Meets a p Γ Γ (add (.equal target.id value.id)) := by
      refine h.meets_add ?_ fun τ hnodes => ?_
      · simp only [Constraint.slots, forall_mem_cons]
        exact ⟨⟨target, hnt, rfl⟩, ⟨value, hnv, rfl⟩, by simp⟩
      · change τ target.id = τ value.id
        rw [hnodes target hnt, hnodes value hnv]
        exact Ty.eq_of_unifies (h.isResolved hnt) (h.isResolved hnv) hunifies
    exact (h.meets_expr het htarget).bind ((h.meets_expr hev hvalue).bind hequal)
  | ifThen condition body line ih Γ returnType context htyped hparts hΓ
  | whileDo condition body line ih Γ returnType context htyped hparts hΓ =>
    obtain ⟨hcondition, -, hbody⟩ := htyped
    obtain ⟨hself, hparts⟩ := forall_mem_cons.mp hparts
    exact h.meets_conditional ih (hexprs hself condition (by simp [Stmt.exprs])) hcondition hbody hparts (hne hΓ)
  | ifElse condition thenBody elseBody line ihthen ihelse Γ returnType context htyped hparts hΓ =>
    obtain ⟨hcondition, -, hthen, helse⟩ := htyped
    obtain ⟨hself, hbranches⟩ := forall_mem_cons.mp hparts
    obtain ⟨hbody, hbody'⟩ := forall_mem_append.mp hbranches
    have hfirst : Meets a p Γ Γ (statement a returnType context (.ifThen condition thenBody none line)) :=
      h.meets_conditional ihthen (hexprs hself condition (by simp [Stmt.exprs])) hcondition hthen hbody (hne hΓ)
    exact hfirst.bind (meets_openScope.bind (h.meets_scoped ihelse helse hbody' (hne hΓ)))
  | forAll name source body line ih Γ returnType context htyped hparts hΓ =>
    obtain ⟨hsource, type, helement, hbody⟩ := htyped
    obtain ⟨hself, hparts⟩ := forall_mem_cons.mp hparts
    exact h.meets_forAll ih (hexprs hself source (by simp [Stmt.exprs])) hsource helement hbody hparts (hne hΓ)
  | returns value line Γ returnType context htyped hparts hΓ =>
    have hself := hparts (.returns value line) (by simp [Stmt.parts])
    refine h.meets_optionalExpr (fun e he => hexprs hself e (Option.mem_toList.mpr he)) fun e he => ?_
    have hreturned := hself.2 value line rfl
    rw [he] at hreturned
    exact ⟨htyped e he, hreturned⟩
  | score value line Γ returnType context htyped hparts hΓ =>
    obtain ⟨hvalue, hnum⟩ := htyped
    have hself := hparts (.score value line) (by simp [Stmt.parts])
    have hexpr := hexprs hself value (by simp [Stmt.exprs])
    have hknown := h.isResolved (mem_flatMap.mpr ⟨value, hexpr, value.self_mem_nodes⟩)
    have hunifies : Ty.num.unifies (a.types.typeOf value.id) = true := by
      rw [Ty.eq_num_of_isNum hknown hnum]
      rfl
    exact h.meets_exprOf hexpr hvalue hunifies
  | call site line Γ returnType context htyped hparts hΓ =>
    have hself := hparts (.call site line) (by simp [Stmt.parts])
    exact h.meets_expr (hexprs hself site (by simp [Stmt.exprs])) htyped
  | nil =>
    intro Γ returnType context htyped hparts hΓ
    cases Γ with
    | nil => exact absurd rfl hΓ
    | cons inner outer => exact ⟨inner, meets_pure⟩
  | cons stmt rest ihstmt ihrest =>
    intro Γ returnType context htyped hparts hΓ
    obtain ⟨hstmt, hrest⟩ := forall_mem_append.mp hparts
    have htail := stmt.tail_binds Γ
    obtain ⟨inner, hmeets⟩ := ihrest _ returnType context htyped.2 hrest (by rwa [htail])
    rw [htail] at hmeets
    exact ⟨inner, (ihstmt Γ returnType context htyped.1 hstmt hΓ).bind hmeets⟩

lemma meets_globals {gs : List GlobalDef} (hgs : gs ⊆ p.globals) (htyped : GlobalsTyped a block gs) :
    Meets a p [p.globalNames] [p.globalNames] (each (global a) gs) := by
  induction gs generalizing block with
  | nil => exact meets_pure
  | cons g rest ih =>
    obtain ⟨hvalue, hunifies, hrest⟩ := htyped
    obtain ⟨hg, hgs⟩ := cons_subset.mp hgs
    have hexpr : g.value ∈ p.exprs := mem_exprs.mpr (.inl ⟨g, hg, rfl⟩)
    have hfirst : Meets a p [p.globalNames] [p.globalNames] (global a g) := fun c hc =>
      (h.meets_exprOf hexpr hvalue hunifies c (hc.globals block)).globals _
    exact hfirst.bind (ih hgs hrest)

lemma meets_function {f : FunctionDef} (hf : f ∈ p.functions) :
    Meets a p [p.globalNames] [p.globalNames] (function a f) := by
  have hparts : ∀ s ∈ Stmt.blockParts f.body, h.Returns f.returnType s := by
    intro s hs
    refine ⟨mem_stmts.mpr (.inl ⟨f, hf, hs⟩), ?_⟩
    rintro value line rfl
    exact h.typed.functionReturns f hf value line hs
  have hparams : Meets a p [[], p.globalNames] [f.names, p.globalNames] (params f.params) := by
    have hmeets : Meets a p [[], p.globalNames]
        [(f.params.map fun q => (q.name, q.type)).reverse ++ [], p.globalNames] (params f.params) :=
      meets_params (cons_ne_nil _ _)
    rwa [append_nil] at hmeets
  exact meets_openScope.bind (hparams.bind (h.meets_scoped (h.meets_statements f.body)
    (h.typed.functions f hf) hparts (cons_ne_nil _ _)))

lemma meets_rule {r : RuleDef} (hr : r ∈ p.rules) :
    Meets a p [p.globalNames] [p.globalNames] (rule a r) := by
  have hparts : ∀ s ∈ Stmt.blockParts r.body, h.Returns .void s := by
    intro s hs
    refine ⟨mem_stmts.mpr (.inr ⟨r, hr, hs⟩), ?_⟩
    rintro value line rfl
    exact h.typed.ruleReturns r hr value line hs
  have hbody : Meets a p [[], p.globalNames] [p.globalNames]
      (statements a .void (.ofDefinition .rule r.name r.line) r.body >>= fun _ => closeScope) :=
    h.meets_scoped (h.meets_statements r.body) (h.typed.rules r hr) hparts (cons_ne_nil _ _)
  unfold rule
  cases hguard : r.guard with
  | none => exact meets_openScope.bind hbody
  | some e =>
    have hexpr : e ∈ p.exprs := mem_exprs.mpr (.inr (.inl ⟨r, hr, hguard⟩))
    have htyped := allTyped_push (h.typed.guards r hr e hguard).1
    exact meets_openScope.bind ((h.meets_expr hexpr htyped).bind hbody)

/-- The constraints of a program without empty lists are met by the types that it has. -/
theorem meetable_collect : (a.collect p (a.nodeCount p)).Meetable a p [p.globalNames] := by
  have hprogram : Meets a p [p.globalNames] [p.globalNames] (Collect.program a p) :=
    (h.meets_globals (List.Subset.refl _) h.typed.globals).bind
      ((meets_each fun f hf => h.meets_function hf).bind (meets_each fun r hr => h.meets_rule hr))
  refine hprogram ⟨[], a.nodeCount p, [], [], []⟩
    ⟨a.types.typeOf, ⟨fun _ _ => rfl, le_rfl, ?_, ?_, ?_, rfl⟩, .globals trivial⟩
  · simp
  · simp
  · simp

end Program.Filled

lemma Diagnostics.foldl_good {α : Type} {good : α → Bool} {fault : α → Fault} {place : α → Option String}
    {items : List α} (h : ∀ x ∈ items, good x = true) (ds : Diagnostics) :
    items.foldl (fun ds x => if good x then ds else ds.add (fault x) (place x)) ds = ds := by
  induction items with
  | nil => rfl
  | cons x rest ih =>
    obtain ⟨hx, hrest⟩ := forall_mem_cons.mp h
    rw [foldl_cons, if_pos hx]
    exact ih hrest

namespace Program.Filled

variable {p : Program} {a : Analysis} (h : p.Filled a)
include h

lemma solved : ∃ u, p.Solved (a.inferenceLimit p) a u := by
  obtain ⟨τ, hmet, -⟩ := h.meetable_collect
  have hσ : Solution (a.initialTypes (a.nodeCount p) (a.collect p (a.nodeCount p)).nextSlot)
      (a.collect p (a.nodeCount p)).constraints τ := by
    refine ⟨fun slot hslot => ?_, hmet.holds⟩
    by_cases hnode : slot < a.nodeCount p
    · rw [a.getD_initialTypes hnode, hmet.nodes slot hnode]
    · rw [a.getD_initialTypes_of_le (not_lt.mp hnode)]
      exact Ty.generic_le _
  obtain ⟨u, hsettles⟩ := Unify.settles_of_solution (a.slots_lt_size h.wellFormed) hσ
  exact ⟨u, h.wellFormed, h.typed, hsettles⟩

/-- Inference settles and reports nothing. -/
theorem inferred : ∃ u, p.Inferred (a.inferenceLimit p) a u ∧
    ∀ ds, a.infer p ds = some (a.withTypes p u, ds) := by
  obtain ⟨u, hsolved⟩ := h.solved
  obtain ⟨τ, hmet, -⟩ := h.meetable_collect
  have hknown : ∀ n ∈ p.nodes, (u.typeAt n.id).isResolved = true := fun n hn =>
    Ty.isResolved_mono (hsolved.initial hn) (h.isResolved hn)
  have hsources : ∀ s ∈ (a.collect p (a.nodeCount p)).sources,
      ((a.withTypes p u).types.typeOf s.id).isResolved = true := by
    intro s hs
    obtain ⟨n, hn, hid⟩ := hmet.sources s hs
    rw [← hid, hsolved.typeOf hn]
    exact hknown n hn
  refine ⟨u, ⟨hsolved, fun s hs => Analysis.isResolved_typeAt (hsources s hs), ?_⟩, fun ds => ?_⟩
  · rw [hmet.emptyLists]
    simp
  · have hsettles := hsolved.settles
    unfold Analysis.Settles at hsettles
    unfold Analysis.infer Analysis.inferWithin
    simp only [hsettles, hmet.emptyLists]
    have hreported : Analysis.unresolvedSources (a.withTypes p u).types p.file
        (a.collect p (a.nodeCount p)).sources ds = ds := Diagnostics.foldl_good hsources ds
    exact congrArg (fun reported => some (a.withTypes p u, reported)) hreported

lemma generated {u : Unifier} (hu : p.Inferred (a.inferenceLimit p) a u) :
    ∃ output, Code.generate p (a.withTypes p u) = .ok output := by
  have hspelled : ∀ e ∈ p.written, e.AllSpelled (a.withTypes p u).types := by
    intro e he n hn
    have hnode : n ∈ p.nodes := mem_flatMap.mpr ⟨e, mem_exprs_of_mem_written he, hn⟩
    have hknown : ((a.withTypes p u).types.typeOf n.id).isResolved = true := by
      rw [hu.typeOf hnode]
      exact Ty.isResolved_mono (hu.initial hnode) (h.isResolved hnode)
    cases n with
    | list m elements => exact hknown
    | emptyList m => exact hknown
    | _ => trivial
  have hspells := Code.spells_generate hu.ready
  cases hresult : Code.generate p (a.withTypes p u) with
  | ok output => exact ⟨output, rfl⟩
  | error fault =>
    rw [hresult] at hspells
    exact absurd hspelled hspells.1

end Program.Filled

namespace Program

variable {p : Program} {a : Analysis} {ds : Diagnostics}

lemma filled_of_check {tokens : List Token} (hread : (Program.ofTokens tokens file).1 = .ok p)
    (hfilled : ∀ m, .emptyList m ∉ p.nodes) {start : Diagnostics} (hcheck : p.check start = (a, ds))
    (hclean : ds.errors = []) : p.Filled a := by
  have hwf := wellFormed_of_ofTokens hread
  exact ⟨hwf, p.typed_of_check hwf.nodup hcheck hclean, hfilled⟩

lemma tokens_of_ofSource {source : String} (hread : Program.ofSource source file = .ok p) :
    ∃ tokens, (Program.ofTokens tokens file).1 = .ok p := by
  unfold ofSource at hread
  split at hread
  · cases hread
  · exact ⟨_, hread⟩

/-- A source without empty lists that is checked without errors compiles: all recorded types are known,
inference leaves them and the diagnostics as they are, and code is generated. -/
theorem compiles_of_filled {source file : String} (hread : Program.ofSource source file = .ok p)
    (hfilled : ∀ m, .emptyList m ∉ p.nodes) (hcheck : p.check {} = (a, ds)) (hclean : ds.errors = []) :
    (∀ id type, a.types.get? id = some type → type.isResolved = true) ∧
      (∃ a', a.infer p ds = some (a', ds) ∧ ∀ id, a'.types.get? id = a.types.get? id) ∧
      ∃ c output, (Compilation.ofProgram p).run = some c ∧ c.stage = .generated ∧ c.output = some output ∧
        c.diagnostics = ds := by
  obtain ⟨tokens, htokens⟩ := tokens_of_ofSource hread
  have h := filled_of_check htokens hfilled hcheck hclean
  obtain ⟨u, hinferred, hinfer⟩ := h.inferred
  have hknown : ∀ id type, a.types.get? id = some type →
      type.isResolved = true ∧ (a.withTypes p u).types.get? id = some type := by
    intro id type htype
    obtain ⟨n, hn, rfl⟩ := (p.recorded_of_check hcheck hclean).types id type htype
    have hresolved := h.isResolved hn
    rw [TypeTable.typeOf_eq htype] at hresolved
    refine ⟨hresolved, ?_⟩
    rw [hinferred.get?_withTypes hn, hinferred.eq_of_known hn (TypeTable.typeOf_eq htype) hresolved]
  refine ⟨fun id type htype => (hknown id type htype).1, ⟨a.withTypes p u, hinfer ds, fun id => ?_⟩, ?_⟩
  · cases htype : a.types.get? id with
    | some type => exact (hknown id type htype).2
    | none => simp [Analysis.withTypes, Analysis.get?_writeBack, htype]
  · obtain ⟨output, houtput⟩ := h.generated hinferred
    have hstage : ∀ stage, Compilation.stageAfter ds stage = stage := fun stage => by
      simp [Compilation.stageAfter, Diagnostics.hasErrors, hclean]
    refine ⟨⟨p, some (a.withTypes p u), ds, some output, .generated⟩, output, ?_, rfl, rfl, rfl⟩
    simp [Compilation.run, Compilation.check, Compilation.infer, Compilation.generate, Compilation.ofProgram,
      hcheck, hinfer ds, hstage, houtput]

lemma of_toOption {source : String} (h : (Program.ofSource source file).toOption = some p) :
    Program.ofSource source file = .ok p :=
  ok_of_toOption h

/-- A loop over a list of lists, whose variable is passed to a function. -/
theorem compiles_of_filled_nested :
    ∃ p a ds,
      Program.ofSource ("num first(num[] xs) \x7b return xs[0]; \x7d " ++
        "rule r \x7b forall (x in [[1, 2], [3]]) \x7b score first(x ++ [4]); \x7d \x7d") "" = .ok p ∧
      (∀ m, .emptyList m ∉ p.nodes) ∧ p.check {} = (a, ds) ∧ ds.errors = [] ∧
      (∀ id type, a.types.get? id = some type → type.isResolved = true) ∧
      (∃ a', a.infer p ds = some (a', ds) ∧ ∀ id, a'.types.get? id = a.types.get? id) ∧
      ∃ c output, (Compilation.ofProgram p).run = some c ∧ c.stage = .generated ∧ c.output = some output := by
  have hrun : ((Program.ofSource ("num first(num[] xs) \x7b return xs[0]; \x7d " ++
      "rule r \x7b forall (x in [[1, 2], [3]]) \x7b score first(x ++ [4]); \x7d \x7d") "").toOption.any
      fun p => (p.nodes.all fun n => n.emptyLists.isEmpty) && (p.check {}).2.errors.isEmpty) = true := by
    decide +kernel
  obtain ⟨p, hread, htest⟩ := (Option.any_eq_true _ _).mp hrun
  obtain ⟨hlists, hclean⟩ := (Bool.and_eq_true _ _).mp htest
  have hread := of_toOption hread
  have hfilled : ∀ m, .emptyList m ∉ p.nodes := by
    intro m hm
    have hnone := all_eq_true.mp hlists _ hm
    cases hnone
  obtain ⟨a, ds, hcheck⟩ : ∃ a ds, p.check {} = (a, ds) := ⟨_, _, rfl⟩
  rw [hcheck] at hclean
  have hclean := List.isEmpty_iff.mp hclean
  obtain ⟨hknown, hinfer, c, output, hc, hstage, houtput, -⟩ := compiles_of_filled hread hfilled hcheck hclean
  exact ⟨p, a, ds, hread, hfilled, hcheck, hclean, hknown, hinfer, c, output, hc, hstage, houtput⟩

end Program

end ChessEval
