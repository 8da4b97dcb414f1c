import ChessEval.Proofs.Binders
import ChessEval.Proofs.LoopVariables

/-!
# Links to loop variables

Inference walks through the scopes of a program on its own, after the analysis has done so. Here both walks are compared
with what binds the names of the program: the slots of loop variables are linked to exactly those identifiers that the
analysis has found to be bound by a loop, each to the slot of its own loop.
-/

namespace ChessEval

open List

variable {binder : Binder} {slot : Nat} {k : Constraint} {e : Expr} {name : String} {s : Stmt}

/-- Whether a constraint speaks of a slot after those of the nodes, which only loop variables have. -/
def Constraint.IsTied (nodes : Nat) (k : Constraint) : Prop :=
  ∃ slot ∈ k.slots, nodes ≤ slot

def Binder.slot? (slotOf : Nat → Nat) : Binder → Option Nat
  | .loop source => some (slotOf source)
  | _ => none

lemma Binder.slot?_eq_some {slotOf : Nat → Nat} :
    binder.slot? slotOf = some slot ↔ ∃ source, binder = .loop source ∧ slotOf source = slot := by
  cases binder <;> simp [Binder.slot?]

def Binders.scopes (slotOf : Nat → Nat) (Γ : Binders) : LoopScopes :=
  Γ.map fun block => block.map fun x => (x.1, x.2.slot? slotOf)

lemma Binders.scopes_bind (slotOf : Nat → Nat) (Γ : Binders) (name : String) (binder : Binder) :
    (Γ.bind name binder).scopes slotOf = (Γ.scopes slotOf).bind name (binder.slot? slotOf) := by
  cases Γ <;> rfl

lemma Binders.lookup_scope (slotOf : Nat → Nat) (block : List (String × Binder)) (name : String) :
    (block.map fun x => (x.1, x.2.slot? slotOf)).lookup name = (block.lookup name).map (Binder.slot? slotOf) := by
  induction block with
  | nil => rfl
  | cons x rest ih =>
    rw [map_cons, lookup_cons, lookup_cons]
    cases name == x.1 with
    | true => rfl
    | false => exact ih

lemma Binders.slot?_scopes (slotOf : Nat → Nat) (Γ : Binders) (name : String) :
    (Γ.scopes slotOf).slot? name = (Γ.find? name).bind (Binder.slot? slotOf) := by
  induction Γ with
  | nil => rfl
  | cons block outer ih =>
    unfold LoopScopes.slot? Binders.find? Binders.scopes at ih ⊢
    rw [map_cons, findSome?_cons, findSome?_cons, Binders.lookup_scope]
    cases block.lookup name with
    | none => exact ih
    | some binder => rfl

/-- A constraint links an identifier at a view to the slot of the loop that binds it. -/
def View.Links (slotOf : Nat → Nat) (view : View) (k : Constraint) : Prop :=
  ∃ m name source, .identifier m name ∈ view.expr.nodes ∧ view.binders.find? name = some (.loop source) ∧
    k = .equal m.id (slotOf source)

def Stmt.loopSource? : Stmt → Option Nat
  | .forAll _ source _ _ => some source.id
  | _ => none

def Stmt.loopSources (stmts : List Stmt) : List Nat :=
  stmts.filterMap loopSource?

def NumbersFrom (slotOf : Nat → Nat) (first : Nat) (loops : List Nat) : Prop :=
  loops.map slotOf = List.range' first loops.length

lemma numbersFrom_append {slotOf : Nat → Nat} {first : Nat} {loops loops' : List Nat} :
    NumbersFrom slotOf first (loops ++ loops') ↔
      NumbersFrom slotOf first loops ∧ NumbersFrom slotOf (first + loops.length) loops' := by
  unfold NumbersFrom
  rw [map_append, length_append, ← List.range'_append_1]
  constructor
  · intro h
    exact append_inj h (by simp)
  · rintro ⟨hfirst, hsecond⟩
    rw [hfirst, hsecond]

namespace Collect

variable {nodes : Nat} {slotOf : Nat → Nat} {Γ Γ' Γ'' : Binders} {views views' : List View} {loops loops' : List Nat}
  {c c' d : Collection} {result : Unit} {a : Analysis} {context : Context}

/-- The scopes of a collection are those of the names in scope, apart from the globals, which have no slots. -/
def InScope (slotOf : Nat → Nat) (Γ : Binders) (c : Collection) : Prop :=
  ∃ globals : List (String × Option Nat), (∀ x ∈ globals, x.2 = none) ∧ Γ.scopes slotOf = c.scopes ++ [globals]

/-- What has been collected about loop variables: the links at some views and the sources of some loops. -/
def Linked (nodes : Nat) (slotOf : Nat → Nat) (views : List View) (loops : List Nat) (c c' : Collection) : Prop :=
  ∀ k : Constraint, k.IsTied nodes → (k ∈ c'.constraints ↔
    k ∈ c.constraints ∨ (∃ view ∈ views, view.Links slotOf k) ∨ ∃ source ∈ loops, k = .element source (slotOf source))

def Walks (nodes : Nat) (slotOf : Nat → Nat) (Γ Γ' : Binders) (views : List View) (loops : List Nat)
    (x : Collect Unit) : Prop :=
  ∀ c result c', x.run c = (result, c') → InScope slotOf Γ c → NumbersFrom slotOf c.nextSlot loops →
    InScope slotOf Γ' c' ∧ c'.nextSlot = c.nextSlot + loops.length ∧ Linked nodes slotOf views loops c c'

lemma InScope.slot? (h : InScope slotOf Γ c) (name : String) :
    c.scopes.slot? name = (Γ.find? name).bind (Binder.slot? slotOf) := by
  obtain ⟨globals, hnone, hscopes⟩ := h
  rw [← Binders.slot?_scopes, hscopes]
  unfold LoopScopes.slot?
  rw [findSome?_append]
  cases c.scopes.findSome? fun scope => scope.lookup name with
  | some slot => rfl
  | none =>
    cases hlookup : globals.lookup name with
    | none => simp [hlookup]
    | some slot =>
      obtain ⟨later, earlier, heq, -⟩ := lookup_eq_some_iff.mp hlookup
      have hslot : slot = none := hnone (name, slot) (by simp [heq])
      simp [hlookup, hslot]

lemma Linked.trans (h : Linked nodes slotOf views loops c d) (h' : Linked nodes slotOf views' loops' d c') :
    Linked nodes slotOf (views ++ views') (loops ++ loops') c c' := by
  intro k hk
  rw [h' k hk, h k hk]
  simp only [mem_append, or_and_right, exists_or, or_assoc]
  exact or_congr_right (or_congr_right or_left_comm)

lemma Walks.bind {x y : Collect Unit} (hx : Walks nodes slotOf Γ Γ' views loops x)
    (hy : Walks nodes slotOf Γ' Γ'' views' loops' y) :
    Walks nodes slotOf Γ Γ'' (views ++ views') (loops ++ loops') (x >>= fun _ => y) := by
  intro c result c' h hscope hnumbers
  obtain ⟨_, d, hxd, hyd⟩ := runState_bind.mp h
  obtain ⟨hfirst, hsecond⟩ := numbersFrom_append.mp hnumbers
  obtain ⟨hscope', hnext, hlinked⟩ := hx c _ d hxd hscope hfirst
  rw [← hnext] at hsecond
  obtain ⟨hscope'', hnext', hlinked'⟩ := hy d _ c' hyd hscope' hsecond
  refine ⟨hscope'', ?_, hlinked.trans hlinked'⟩
  rw [hnext', hnext, length_append, Nat.add_assoc]

lemma Walks.congr {x : Collect Unit} (h : Walks nodes slotOf Γ Γ' views loops x) (hviews : views = views')
    (hloops : loops = loops') : Walks nodes slotOf Γ Γ' views' loops' x :=
  hviews ▸ hloops ▸ h

lemma linked_of_eq (h : c'.constraints = c.constraints) : Linked nodes slotOf [] [] c c' := by
  intro k _
  simp [h]

lemma walks_pure : Walks nodes slotOf Γ Γ [] [] (pure ()) := by
  intro c result c' h hscope _
  cases h
  exact ⟨hscope, rfl, linked_of_eq rfl⟩

lemma walks_add (hk : ¬k.IsTied nodes) : Walks nodes slotOf Γ Γ [] [] (add k) := by
  intro c result c' h hscope _
  cases h
  refine ⟨hscope, rfl, fun other hother => ?_⟩
  have hne : other ≠ k := fun heq => hk (heq ▸ hother)
  simp [hne]

lemma walks_openScope : Walks nodes slotOf Γ ([] :: Γ) [] [] openScope := by
  intro c result c' h hscope _
  cases h
  obtain ⟨globals, hnone, hscopes⟩ := hscope
  exact ⟨⟨globals, hnone, congrArg ([] :: ·) hscopes⟩, rfl, linked_of_eq rfl⟩

lemma InScope.scopes_ne_nil (h : InScope slotOf Γ c) (hopen : Γ.tail ≠ []) : c.scopes ≠ [] := by
  obtain ⟨globals, -, hscopes⟩ := h
  intro hnil
  have htail := congrArg List.tail hscopes
  rw [hnil, Binders.scopes, ← map_tail] at htail
  exact hopen (map_eq_nil_iff.mp htail)

lemma walks_closeScope (hopen : Γ.tail ≠ []) : Walks nodes slotOf Γ Γ.tail [] [] closeScope := by
  intro c result c' h hscope _
  have hne := hscope.scopes_ne_nil hopen
  cases h
  obtain ⟨globals, hnone, hscopes⟩ := hscope
  refine ⟨⟨globals, hnone, ?_⟩, rfl, linked_of_eq rfl⟩
  rw [Binders.scopes, map_tail, ← Binders.scopes, hscopes, tail_append_of_ne_nil hne]

lemma walks_bind (hopen : Γ.tail ≠ []) (hbinder : binder.slot? slotOf = none) (name : String) :
    Walks nodes slotOf Γ (Γ.bind name binder) [] [] (bind name none) := by
  intro c result c' h hscope _
  obtain ⟨scope, outer, hcons⟩ := exists_cons_of_ne_nil (hscope.scopes_ne_nil hopen)
  cases h
  obtain ⟨globals, hnone, hscopes⟩ := hscope
  refine ⟨⟨globals, hnone, ?_⟩, rfl, linked_of_eq rfl⟩
  rw [Binders.scopes_bind, hbinder, hscopes, hcons]
  change _ = c.scopes.bind name none ++ [globals]
  rw [hcons]
  rfl

lemma mem_constraints_of_isTied (hbelow : ∀ id ∈ e.ids, id < nodes) (hscope : InScope slotOf Γ c) (hk : k.IsTied nodes) :
    k ∈ e.constraints a c.scopes ↔ View.Links slotOf ⟨e, Γ⟩ k := by
  rw [Expr.mem_constraints]
  constructor
  · rintro ⟨n, hn, hown⟩
    by_cases hname : ∃ m name, n = .identifier m name
    · obtain ⟨m, name, rfl⟩ := hname
      rw [Expr.own, hscope.slot? name] at hown
      cases hslot : (Γ.find? name).bind (Binder.slot? slotOf) with
      | none => simp [hslot] at hown
      | some slot =>
        obtain ⟨binder, hfind, hbinder⟩ := Option.bind_eq_some_iff.mp hslot
        obtain ⟨source, rfl, rfl⟩ := Binder.slot?_eq_some.mp hbinder
        exact ⟨m, name, source, hn, hfind, by simpa [hslot] using hown⟩
    · -- Any other node speaks of itself and its operands.
      exfalso
      push Not at hname
      rw [Expr.own_of_ne_identifier hname] at hown
      obtain ⟨slot, hslot, hle⟩ := hk
      rcases Expr.slots_own hown hslot with rfl | ⟨child, hchild, rfl⟩ | ⟨name, hfound⟩
      · exact absurd (hbelow _ (Expr.id_mem_ids_of_mem hn)) (Nat.not_lt.mpr hle)
      · exact absurd (hbelow _ (Expr.id_mem_ids_of_mem (Expr.child_mem_nodes hchild hn))) (Nat.not_lt.mpr hle)
      · cases hfound
  · rintro ⟨m, name, source, hn, hfind, rfl⟩
    refine ⟨_, hn, ?_⟩
    rw [Expr.own, hscope.slot? name, hfind]
    simp [Binder.slot?]

lemma walks_expr (hbelow : ∀ id ∈ e.ids, id < nodes) : Walks nodes slotOf Γ Γ [⟨e, Γ⟩] [] (expr a context e) := by
  intro c result c' h hscope _
  cases h
  refine ⟨hscope, rfl, fun k hk => ?_⟩
  simp [mem_constraints_of_isTied hbelow hscope hk]

lemma walks_exprOf (hbelow : ∀ id ∈ e.ids, id < nodes) (type : Ty) :
    Walks nodes slotOf Γ Γ [⟨e, Γ⟩] [] (exprOf a context type e) := by
  have hadd : ¬Constraint.IsTied nodes (.fixed e.id type) := by
    simpa [Constraint.IsTied, Constraint.slots] using hbelow e.id e.id_mem_ids
  exact (walks_add hadd).bind (walks_expr hbelow)

lemma walks_optionalExpr {value : Option Expr} (hbelow : ∀ id ∈ value.toList.flatMap Expr.ids, id < nodes) (type : Ty) :
    Walks nodes slotOf Γ Γ (value.toList.map fun e => ⟨e, Γ⟩) [] (optionalExpr a context type value) := by
  cases value with
  | none => exact walks_pure
  | some e => exact walks_exprOf (by simpa using hbelow) type

lemma walks_declarators {ds : List Declarator}
    (hbelow : ∀ id ∈ (ds.flatMap fun d => d.value.toList).flatMap Expr.ids, id < nodes) (type : Ty)
    (hopen : Γ.tail ≠ []) :
    Walks nodes slotOf Γ (Stmt.bindDeclared Γ ds) (Stmt.declaratorViews Γ ds) [] (declarators a context type ds) := by
  induction ds generalizing Γ with
  | nil => exact walks_pure
  | cons d rest ih =>
    rw [flatMap_cons, flatMap_append, forall_mem_append] at hbelow
    have hrest := ih hbelow.2 (Γ := Γ.bind d.name .declaration) (by rwa [Binders.tail_bind])
    exact (walks_optionalExpr hbelow.1 type).bind ((walks_bind hopen rfl d.name).bind hrest)

lemma walks_leave {block : List (String × Binder)} (hΓ : Γ ≠ []) (body : List Stmt) :
    Walks nodes slotOf (Stmt.blockBound (block :: Γ) body) Γ [] [] closeScope := by
  have htail : (Stmt.blockBound (block :: Γ) body).tail = Γ := Stmt.tail_blockBound _ body
  have hclose : Walks nodes slotOf (Stmt.blockBound (block :: Γ) body) (Stmt.blockBound (block :: Γ) body).tail [] []
      closeScope := walks_closeScope (by rwa [htail])
  rwa [htail] at hclose

lemma walks_forAll {source : Expr} {body : List Stmt} {line : Nat} {returnType : Ty}
    (hbelow : ∀ id ∈ source.ids, id < nodes) (hΓ : Γ ≠ [])
    (ih : Walks nodes slotOf ([(name, .loop source.id)] :: Γ) (Stmt.blockBound ([(name, .loop source.id)] :: Γ) body)
      (Stmt.blockViews ([(name, .loop source.id)] :: Γ) body) loops (statements a returnType context body)) :
    Walks nodes slotOf Γ Γ (⟨source, Γ⟩ :: Stmt.blockViews ([(name, .loop source.id)] :: Γ) body) (source.id :: loops)
      (statement a returnType context (.forAll name source body line)) := by
  intro c result c' h hscope hnumbers
  simp only [statement, runState_bind] at h
  obtain ⟨_, c₁, h₁, slot, c₂, h₂, _, c₃, h₃, _, c₄, h₄, _, c₅, h₅, _, c₆, h₆, _, c₇, h₇, h₈⟩ := h
  obtain ⟨hscope₁, hnext₁, hlinked₁⟩ := walks_expr hbelow c _ c₁ h₁ hscope rfl
  have hc₆ := enterLoop h₂ h₃ h₄ h₅ h₆
  obtain ⟨hself, hbody⟩ := numbersFrom_append.mp (show NumbersFrom slotOf c.nextSlot ([source.id] ++ loops) from hnumbers)
  have hslot : slotOf source.id = c₁.nextSlot := by
    rw [hnext₁]
    exact (List.cons.inj hself).1
  have hscope₆ : InScope slotOf ([(name, .loop source.id)] :: Γ) c₆ := by
    obtain ⟨globals, hnone, hscopes⟩ := hscope₁
    refine ⟨globals, hnone, ?_⟩
    rw [hc₆, ← hslot]
    exact congrArg ([(name, some (slotOf source.id))] :: ·) hscopes
  have hnext₆ : c₆.nextSlot = c.nextSlot + 1 := by
    rw [hc₆, hnext₁]
    rfl
  have hlinked₆ : Linked nodes slotOf [] [source.id] c₁ c₆ := by
    intro k _
    simp [hc₆, hslot]
  obtain ⟨hscope₇, hnext₇, hlinked₇⟩ := ih c₆ _ c₇ h₇ hscope₆ (hnext₆ ▸ hbody)
  obtain ⟨hscope₈, hnext₈, hlinked₈⟩ := walks_leave hΓ body c₇ _ c' h₈ hscope₇ rfl
  refine ⟨hscope₈, ?_, ?_⟩
  · rw [hnext₈, hnext₇, hnext₆, length_cons, length_nil]
    omega
  · simpa using ((hlinked₁.trans hlinked₆).trans hlinked₇).trans hlinked₈

/-- Collecting from a block links exactly the identifiers in it that a loop binds. -/
theorem walks_statements (a : Analysis) (nodes : Nat) (slotOf : Nat → Nat) (block : List Stmt) :
    (∀ id ∈ Stmt.blockIds block, id < nodes) → ∀ returnType context (Γ : Binders), Γ.tail ≠ [] →
      Walks nodes slotOf Γ (Stmt.blockBound Γ block) (Stmt.blockViews Γ block)
        (Stmt.loopSources (Stmt.blockParts block)) (statements a returnType context block) := by
  induction block using Stmt.block_induction (fun stmt =>
    (∀ id ∈ stmt.ids, id < nodes) → ∀ returnType context (Γ : Binders), Γ.tail ≠ [] →
      Walks nodes slotOf Γ (stmt.bound Γ) (stmt.views Γ) (Stmt.loopSources stmt.parts)
        (statement a returnType context stmt)) with
  | declare type ds line hbelow returnType context Γ hopen =>
    rw [Stmt.ids_declare] at hbelow
    exact walks_declarators hbelow type hopen
  | assign target value line hbelow returnType context Γ hopen =>
    rw [Stmt.ids_assign, forall_mem_append] at hbelow
    obtain ⟨htarget, hvalue⟩ := hbelow
    have hadd : ¬Constraint.IsTied nodes (.equal target.id value.id) := by
      simpa [Constraint.IsTied, Constraint.slots] using
        ⟨htarget _ target.id_mem_ids, hvalue _ value.id_mem_ids⟩
    exact (walks_expr htarget).bind ((walks_expr hvalue).bind (walks_add hadd))
  | ifThen condition thenBody line ihthen hbelow returnType context Γ hopen =>
    rw [Stmt.ids_ifThen, forall_mem_append] at hbelow
    have hΓ : Γ ≠ [] := ne_nil_of_tail_ne_nil hopen
    have hthen := ihthen hbelow.2 returnType context ([] :: Γ) hΓ
    refine ((walks_expr hbelow.1).bind (walks_openScope.bind (hthen.bind (walks_leave hΓ thenBody)))).congr ?_ ?_
    · simp [Stmt.views]
    · simp [Stmt.loopSources, Stmt.parts, Stmt.loopSource?, filterMap_cons]
  | ifElse condition thenBody elseBody line ihthen ihelse hbelow returnType context Γ hopen =>
    rw [Stmt.ids_ifElse, forall_mem_append, forall_mem_append] at hbelow
    have hΓ : Γ ≠ [] := ne_nil_of_tail_ne_nil hopen
    have hthen := ihthen hbelow.2.1 returnType context ([] :: Γ) hΓ
    have helse := ihelse hbelow.2.2 returnType context ([] :: Γ) hΓ
    refine ((walks_expr hbelow.1).bind (walks_openScope.bind (hthen.bind ((walks_leave hΓ thenBody).bind
      (walks_openScope.bind (helse.bind (walks_leave hΓ elseBody))))))).congr ?_ ?_
    · simp [Stmt.views]
    · simp [Stmt.loopSources, Stmt.parts, Stmt.loopSource?, filterMap_cons]
  | whileDo condition body line ih hbelow returnType context Γ hopen =>
    rw [Stmt.ids_whileDo, forall_mem_append] at hbelow
    have hΓ : Γ ≠ [] := ne_nil_of_tail_ne_nil hopen
    have hbody := ih hbelow.2 returnType context ([] :: Γ) hΓ
    refine ((walks_expr hbelow.1).bind (walks_openScope.bind (hbody.bind (walks_leave hΓ body)))).congr ?_ ?_
    · simp [Stmt.views]
    · simp [Stmt.loopSources, Stmt.parts, Stmt.loopSource?, filterMap_cons]
  | forAll name source body line ih hbelow returnType context Γ hopen =>
    rw [Stmt.ids_forAll, forall_mem_append] at hbelow
    have hΓ : Γ ≠ [] := ne_nil_of_tail_ne_nil hopen
    exact walks_forAll hbelow.1 hΓ (ih hbelow.2 returnType context _ hΓ)
  | returns value line hbelow returnType context Γ hopen =>
    rw [Stmt.ids_returns] at hbelow
    exact walks_optionalExpr hbelow returnType
  | score value line hbelow returnType context Γ hopen =>
    rw [Stmt.ids_score] at hbelow
    exact walks_exprOf hbelow .num
  | call site line hbelow returnType context Γ hopen =>
    rw [Stmt.ids_call] at hbelow
    exact walks_expr hbelow
  | nil => exact fun _ _ _ _ _ => walks_pure
  | cons stmt rest ihstmt ihrest =>
    intro hbelow returnType context Γ hopen
    rw [Stmt.blockIds_cons, forall_mem_append] at hbelow
    have hrest := ihrest hbelow.2 returnType context (stmt.bound Γ) (by rwa [Stmt.tail_bound])
    rw [Stmt.blockParts, Stmt.loopSources, filterMap_append]
    exact (ihstmt hbelow.1 returnType context Γ hopen).bind hrest

lemma walks_each {α : Type} {step : α → Collect Unit} {viewsOf : α → List View} {loopsOf : α → List Nat}
    {items : List α} (hstep : ∀ x ∈ items, Walks nodes slotOf Γ Γ (viewsOf x) (loopsOf x) (step x)) :
    Walks nodes slotOf Γ Γ (items.flatMap viewsOf) (items.flatMap loopsOf) (each step items) := by
  induction items with
  | nil => exact walks_pure
  | cons x rest ih =>
    obtain ⟨hx, hrest⟩ := forall_mem_cons.mp hstep
    exact hx.bind (ih hrest)

lemma InScope.global {block : List (String × Binder)} (h : InScope slotOf [block] c) (name : String) :
    InScope slotOf [(name, .global) :: block] c := by
  obtain ⟨globals, hnone, hscopes⟩ := h
  obtain ⟨hnil, hglobals⟩ := append_inj' (show [] ++ Binders.scopes slotOf [block] = _ from hscopes) rfl
  refine ⟨(name, none) :: globals, forall_mem_cons.mpr ⟨rfl, hnone⟩, ?_⟩
  rw [← hnil, ← singleton_inj.mp hglobals]
  rfl

lemma walks_globals {gs : List GlobalDef} (hbelow : ∀ id ∈ gs.flatMap fun g => g.value.ids, id < nodes)
    (block : List (String × Binder)) :
    Walks nodes slotOf [block] [(gs.map fun g => (g.name, .global)).reverse ++ block] (Program.globalViews block gs) []
      (each (global a) gs) := by
  induction gs generalizing block with
  | nil => exact walks_pure
  | cons g rest ih =>
    rw [flatMap_cons, forall_mem_append] at hbelow
    have hvalue : Walks nodes slotOf [block] [(g.name, .global) :: block] [⟨g.value, [block]⟩] [] (global a g) := by
      intro c result c' h hscope hnumbers
      obtain ⟨hscope', hrest⟩ := walks_exprOf hbelow.1 g.type c result c' h hscope hnumbers
      exact ⟨hscope'.global g.name, hrest⟩
    have hwalk := hvalue.bind (ih hbelow.2 ((g.name, .global) :: block))
    rwa [map_cons, reverse_cons, append_assoc]

lemma walks_params (hΓ : Γ ≠ []) (ps : List Param) (block : List (String × Binder)) :
    Walks nodes slotOf (block :: Γ) (((ps.map fun q => (q.name, .param)).reverse ++ block) :: Γ) [] [] (params ps) := by
  induction ps generalizing block with
  | nil => exact walks_pure
  | cons q rest ih =>
    rw [map_cons, reverse_cons, append_assoc]
    have hopen : List.tail (block :: Γ) ≠ [] := hΓ
    exact (walks_bind hopen rfl q.name).bind (ih ((q.name, .param) :: block))

lemma walks_function (p : Program) {f : FunctionDef} (hbelow : ∀ id ∈ Stmt.blockIds f.body, id < nodes) :
    Walks nodes slotOf [p.globalBinders] [p.globalBinders] (p.functionViews f)
      (Stmt.loopSources (Stmt.blockParts f.body)) (function a f) := by
  have hΓ : [p.globalBinders] ≠ [] := cons_ne_nil _ _
  have hbody := walks_statements a nodes slotOf f.body hbelow f.returnType (.ofDefinition .function f.name f.line)
    [(f.params.map fun q => (q.name, .param)).reverse ++ [], p.globalBinders] hΓ
  refine (walks_openScope.bind ((walks_params hΓ f.params []).bind (hbody.bind (walks_leave hΓ f.body)))).congr ?_ ?_
  · simp [Program.functionViews]
  · simp

lemma walks_guard (hbelow : ∀ id ∈ e.ids, id < nodes) :
    Walks nodes slotOf ([] :: Γ) ([] :: Γ) [⟨e, Γ⟩] [] (expr a context e) := by
  intro c result c' h hscope hnumbers
  obtain ⟨hscope', hnext, hlinked⟩ := walks_expr hbelow c result c' h hscope hnumbers
  refine ⟨hscope', hnext, fun k hk => ?_⟩
  have hlinks : View.Links slotOf ⟨e, [] :: Γ⟩ k ↔ View.Links slotOf ⟨e, Γ⟩ k := Iff.rfl
  simpa [hlinks] using hlinked k hk

lemma walks_rule (p : Program) {r : RuleDef}
    (hbelow : ∀ id ∈ r.guard.toList.flatMap Expr.ids ++ Stmt.blockIds r.body, id < nodes) :
    Walks nodes slotOf [p.globalBinders] [p.globalBinders] (p.ruleViews r)
      (Stmt.loopSources (Stmt.blockParts r.body)) (rule a r) := by
  have hΓ : [p.globalBinders] ≠ [] := cons_ne_nil _ _
  rw [forall_mem_append] at hbelow
  have hbody := walks_statements a nodes slotOf r.body hbelow.2 .void (.ofDefinition .rule r.name r.line)
    [[], p.globalBinders] hΓ
  unfold rule
  cases hguard : r.guard with
  | none =>
    refine (walks_openScope.bind (hbody.bind (walks_leave hΓ r.body))).congr ?_ ?_
    · simp [Program.ruleViews, hguard]
    · simp
  | some e =>
    have he : ∀ id ∈ e.ids, id < nodes := by simpa [hguard] using hbelow.1
    refine (walks_openScope.bind ((walks_guard he).bind (hbody.bind (walks_leave hΓ r.body)))).congr ?_ ?_
    · simp [Program.ruleViews, hguard]
    · simp

end Collect

namespace Program

variable {p : Program} {a : Analysis} {nodes : Nat}

/-- The statements of a program in the order in which inference goes through them. -/
def collected (p : Program) : List Stmt :=
  p.functions.flatMap (fun f => Stmt.blockParts f.body) ++ p.rules.flatMap fun r => Stmt.blockParts r.body

def loops (p : Program) : List Nat :=
  Stmt.loopSources p.collected

def loopSlot (p : Program) (nodes source : Nat) : Nat :=
  nodes + p.loops.idxOf source

lemma mem_collected : s ∈ p.collected ↔ s ∈ p.stmts := by
  rw [collected, mem_stmts]
  simp

lemma mem_loops {source : Nat} : source ∈ p.loops ↔ ∃ s ∈ p.stmts, s.loopSource? = some source := by
  simp [loops, Stmt.loopSources, mem_filterMap, mem_collected]

lemma loops_eq (p : Program) :
    p.loops = p.functions.flatMap (fun f => Stmt.loopSources (Stmt.blockParts f.body)) ++
      p.rules.flatMap fun r => Stmt.loopSources (Stmt.blockParts r.body) := by
  simp only [loops, collected, Stmt.loopSources, filterMap_append, filterMap_flatMap]

lemma loopSources_sublist (block : List Stmt) :
    (Stmt.loopSources (Stmt.blockParts block)).Sublist (Stmt.blockIds block) := by
  rw [Stmt.loopSources, Stmt.blockIds, filterMap_eq_flatMap_toList, flatMap_assoc]
  refine List.Sublist.flatMap_right _ fun s _ => ?_
  cases s with
  | forAll name source body line => simpa [Stmt.loopSource?, Stmt.exprs] using source.id_mem_ids
  | _ => exact nil_sublist _

lemma nodup_loops (hnodup : (p.nodes.map Expr.id).Nodup) : p.loops.Nodup := by
  rw [map_id_nodes, (perm_definitions p.definitions).nodup_iff] at hnodup
  change (p.globals.flatMap _ ++ (p.functions.flatMap _ ++ p.rules.flatMap _)).Nodup at hnodup
  refine (nodup_append'.mp hnodup).2.1.sublist ?_
  rw [loops_eq]
  refine List.Sublist.append (List.Sublist.flatMap_right _ fun f _ => loopSources_sublist f.body) ?_
  refine List.Sublist.flatMap_right _ fun r _ => ?_
  exact (loopSources_sublist r.body).trans (sublist_append_right _ _)

lemma eq_of_loopSource? (hnodup : p.loops.Nodup) {s' : Stmt} (hs : s ∈ p.stmts) (hs' : s' ∈ p.stmts) {source : Nat}
    (h : s.loopSource? = some source) (h' : s'.loopSource? = some source) : s = s' := by
  by_contra hne
  have hpairs := pairwise_filterMap.mp hnodup
  have hsymm : Std.Symm fun t t' : Stmt =>
      ∀ x, t.loopSource? = some x → ∀ x', t'.loopSource? = some x' → x ≠ x' :=
    ⟨fun _ _ hapart x hx x' hx' => (hapart x' hx' x hx).symm⟩
  exact hpairs.forall (mem_collected.mpr hs) (mem_collected.mpr hs') hne source h source h' rfl

lemma numbersFrom_loops (hnodup : p.loops.Nodup) (nodes : Nat) : NumbersFrom (p.loopSlot nodes) nodes p.loops := by
  refine ext_getElem (by simp) fun i hi _ => ?_
  rw [getElem_map, getElem_range', loopSlot, hnodup.idxOf_getElem, Nat.one_mul]

lemma walks_program (a : Analysis) (slotOf : Nat → Nat) (hbelow : ∀ n ∈ p.nodes, n.id < nodes) :
    Collect.Walks nodes slotOf [[]] [p.globalBinders] p.views p.loops (Collect.program a p) := by
  have hids : ∀ id ∈ p.nodes.map Expr.id, id < nodes := forall_mem_map.mpr hbelow
  simp only [map_id_nodes, (perm_definitions p.definitions).mem_iff] at hids
  change ∀ id ∈ p.globals.flatMap _ ++ (p.functions.flatMap _ ++ p.rules.flatMap _), _ at hids
  simp only [forall_mem_append] at hids
  obtain ⟨hglobals, hfunctions, hrules⟩ := hids
  have hfirst : Collect.Walks nodes slotOf [[]] [p.globalBinders] (globalViews [] p.globals) []
      (Collect.each (Collect.global a) p.globals) := by
    simpa [globalBinders] using Collect.walks_globals hglobals []
  have hsecond : Collect.Walks nodes slotOf [p.globalBinders] [p.globalBinders] (p.functions.flatMap p.functionViews)
      (p.functions.flatMap fun f => Stmt.loopSources (Stmt.blockParts f.body))
      (Collect.each (Collect.function a) p.functions) :=
    Collect.walks_each fun f hf => Collect.walks_function p fun id hid =>
      hfunctions id (mem_flatMap.mpr ⟨f, hf, hid⟩)
  have hthird : Collect.Walks nodes slotOf [p.globalBinders] [p.globalBinders] (p.rules.flatMap p.ruleViews)
      (p.rules.flatMap fun r => Stmt.loopSources (Stmt.blockParts r.body))
      (Collect.each (Collect.rule a) p.rules) :=
    Collect.walks_each fun r hr => Collect.walks_rule p fun id hid =>
      hrules id (mem_flatMap.mpr ⟨r, hr, hid⟩)
  refine (hfirst.bind (hsecond.bind hthird)).congr ?_ ?_
  · rw [views, append_assoc]
  · rw [loops_eq, nil_append]

/-- The constraints on the variables of loops: the links of the identifiers that they bind, and their sources. -/
theorem mem_constraints_iff_links (a : Analysis) (hnodup : (p.nodes.map Expr.id).Nodup)
    (hbelow : ∀ n ∈ p.nodes, n.id < nodes) (hk : k.IsTied nodes) :
    k ∈ (a.collect p nodes).constraints ↔ (∃ view ∈ p.views, view.Links (p.loopSlot nodes) k) ∨
      ∃ source ∈ p.loops, k = .element source (p.loopSlot nodes source) := by
  have hstart : Collect.InScope (p.loopSlot nodes) [[]] ⟨[], nodes, [], [], []⟩ := ⟨[], by simp, rfl⟩
  obtain ⟨-, -, hlinked⟩ := walks_program a (p.loopSlot nodes) hbelow ⟨[], nodes, [], [], []⟩ _ _ rfl hstart
    (numbersFrom_loops (nodup_loops hnodup) nodes)
  have hmem := hlinked k hk
  rwa [or_iff_right not_mem_nil] at hmem

end Program

def Analysis.LoopSlot (a : Analysis) (p : Program) (s : Stmt) (slot : Nat) : Prop :=
  ∃ source, s.loopSource? = some source ∧ a.nodeCount p ≤ slot ∧
    .element source slot ∈ (a.collect p (a.nodeCount p)).constraints

lemma Analysis.LoopSlot.le {a : Analysis} {p : Program} (h : a.LoopSlot p s slot) : a.nodeCount p ≤ slot := by
  obtain ⟨source, -, hle, -⟩ := h
  exact hle

namespace Program

variable {p : Program} {a : Analysis} {ds ds' : Diagnostics}

lemma WellFormed.mem_constraints (hwf : p.WellFormed) (a : Analysis) (hk : k.IsTied (a.nodeCount p)) :
    k ∈ (a.collect p (a.nodeCount p)).constraints ↔
      (∃ view ∈ p.views, view.Links (p.loopSlot (a.nodeCount p)) k) ∨
        ∃ source ∈ p.loops, k = .element source (p.loopSlot (a.nodeCount p) source) :=
  mem_constraints_iff_links a hwf.nodup (fun _ => a.lt_nodeCount hwf) hk

lemma WellFormed.loopSlot_iff (hwf : p.WellFormed) (hs : s ∈ p.stmts) :
    a.LoopSlot p s slot ↔ ∃ source, s.loopSource? = some source ∧ slot = p.loopSlot (a.nodeCount p) source := by
  constructor
  · rintro ⟨source, hsource, hle, hmem⟩
    have hk : Constraint.IsTied (a.nodeCount p) (.element source slot) := ⟨slot, by simp [Constraint.slots], hle⟩
    rcases (hwf.mem_constraints a hk).mp hmem with ⟨view, -, m, name, other, -, -, heq⟩ | ⟨other, -, heq⟩
    · cases heq
    · cases heq
      exact ⟨source, hsource, rfl⟩
  · rintro ⟨source, hsource, rfl⟩
    have hle : a.nodeCount p ≤ p.loopSlot (a.nodeCount p) source := Nat.le_add_right _ _
    refine ⟨source, hsource, hle, (hwf.mem_constraints a ⟨_, by simp [Constraint.slots], hle⟩).mpr (.inr ?_)⟩
    exact ⟨source, mem_loops.mpr ⟨s, hs, hsource⟩, rfl⟩

lemma mem_nodes_of_view {view : View} (hview : view ∈ p.views) {n : Expr} (hn : n ∈ view.expr.nodes) :
    n ∈ p.nodes :=
  mem_flatMap.mpr ⟨view.expr, exists_view.mp ⟨view, hview, rfl⟩, hn⟩

lemma WellFormed.link_iff (hwf : p.WellFormed) {view : View} (hview : view ∈ p.views) {m : Mark}
    (hnode : .identifier m name ∈ view.expr.nodes) (hfind : view.binders.find? name = some binder)
    (hslot : a.nodeCount p ≤ slot) :
    .equal m.id slot ∈ (a.collect p (a.nodeCount p)).constraints ↔ ∃ source body line,
      .forAll name source body line ∈ p.stmts ∧ binder = .loop source.id ∧
        a.LoopSlot p (.forAll name source body line) slot := by
  have hk : Constraint.IsTied (a.nodeCount p) (.equal m.id slot) := ⟨slot, by simp [Constraint.slots], hslot⟩
  rw [hwf.mem_constraints a hk]
  constructor
  · rintro (⟨view', hview', m', name', found, hnode', hfind', heq⟩ | ⟨found, -, heq⟩)
    · injection heq with hid hfound
      have hsame := hwf.eq_of_id (mem_nodes_of_view hview hnode) (mem_nodes_of_view hview' hnode') hid
      cases hsame
      cases eq_of_view hwf.nodup hview hview' hnode hnode'
      obtain ⟨source, body, line, hmem, rfl⟩ := (p.fromLoops_views view hview).of_find? hfind'
      refine ⟨source, body, line, hmem, Option.some.inj (hfind.symm.trans hfind'), ?_⟩
      exact (hwf.loopSlot_iff hmem).mpr ⟨source.id, rfl, hfound⟩
    · cases heq
  · rintro ⟨source, body, line, hmem, rfl, hloop⟩
    obtain ⟨found, hfound, rfl⟩ := (hwf.loopSlot_iff hmem).mp hloop
    cases hfound
    exact .inl ⟨view, hview, m, name, source.id, hnode, hfind, rfl⟩

/-- After an analysis without errors, inference and analysis agree about the variables of loops. Every loop has a slot
of its own. An identifier is linked to the slot of a loop exactly if the analysis has found that the loop binds it, and
nothing else is said about these slots but what their loops go through. -/
theorem links_follow_bindings {tokens : List Token} {file : String} (hread : (ofTokens tokens file).1 = .ok p)
    (hcheck : p.check ds = (a, ds')) (hclean : ds'.errors = []) :
    (p.trace ds).1 = p.check ds ∧
      (∀ s ∈ p.stmts, s.loopSource?.isSome → ∃! slot, a.LoopSlot p s slot) ∧
      (∀ s ∈ p.stmts, ∀ s' ∈ p.stmts, ∀ slot, a.LoopSlot p s slot → a.LoopSlot p s' slot → s = s') ∧
      (∀ m name, .identifier m name ∈ p.nodes → ∃ view ∈ p.views, .identifier m name ∈ view.expr.nodes ∧
        ∃ visit ∈ (p.trace ds).2, visit.declarations.names.blocks = view.binders.blocks ∧
          ∃ declaration binder, visit.Resolves a m name declaration ∧
            view.binders.at? declaration = some (name, binder) ∧
            (∀ id, binder = .loop id → ∃ source body line,
              .forAll name source body line ∈ p.stmts ∧ source.id = id) ∧
            ∀ slot, a.nodeCount p ≤ slot → (.equal m.id slot ∈ (a.collect p (a.nodeCount p)).constraints ↔
              ∃ source body line, .forAll name source body line ∈ p.stmts ∧ binder = .loop source.id ∧
                a.LoopSlot p (.forAll name source body line) slot)) ∧
      ∀ k ∈ (a.collect p (a.nodeCount p)).constraints, k.IsTied (a.nodeCount p) →
        (∃ m name slot, .identifier m name ∈ p.nodes ∧ a.nodeCount p ≤ slot ∧ k = .equal m.id slot) ∨
          ∃ name source body line slot, .forAll name source body line ∈ p.stmts ∧
            a.LoopSlot p (.forAll name source body line) slot ∧ k = .element source.id slot := by
  have hwf := wellFormed_of_ofTokens hread
  refine ⟨p.trace_check ds, ?_, ?_, ?_, ?_⟩
  · intro s hs hloop
    obtain ⟨source, hsource⟩ := Option.isSome_iff_exists.mp hloop
    refine ⟨_, (hwf.loopSlot_iff hs).mpr ⟨source, hsource, rfl⟩, fun slot hslot => ?_⟩
    obtain ⟨source', hsource', rfl⟩ := (hwf.loopSlot_iff hs).mp hslot
    rw [Option.some.inj (hsource'.symm.trans hsource)]
  · intro s hs s' hs' slot hslot hslot'
    obtain ⟨source, hsource, rfl⟩ := (hwf.loopSlot_iff hs).mp hslot
    obtain ⟨source', hsource', heq⟩ := (hwf.loopSlot_iff hs').mp hslot'
    have hindex : p.loops.idxOf source = p.loops.idxOf source' := Nat.add_left_cancel heq
    have hsame : source = source' := (idxOf_inj (mem_loops.mpr ⟨s, hs, hsource⟩)).mp hindex
    exact eq_of_loopSource? (nodup_loops hwf.nodup) hs hs' hsource (hsame ▸ hsource')
  · intro m name hnode
    obtain ⟨e, he, hne⟩ := mem_flatMap.mp hnode
    obtain ⟨view, hview, rfl⟩ := exists_view.mpr he
    have hmem := mem_map_of_mem (f := View.erase) hview
    rw [erase_views] at hmem
    obtain ⟨site, hsite, herase⟩ := mem_map.mp hmem
    obtain ⟨hexpr, hblocks⟩ := Prod.mk.inj herase
    obtain ⟨visit, hvisit, hnames, hresolves⟩ := exists_visit hwf.nodup hcheck hclean hsite
    obtain ⟨declaration, hresolved, hdeclaration⟩ := hresolves m name (hexpr ▸ hne)
    obtain ⟨binder, hfind, hat⟩ := Binders.at?_of_declaration? (hblocks ▸ hdeclaration)
    exact ⟨view, hview, hne, visit, hvisit, hnames.trans hblocks, declaration, binder, hresolved, hat,
      fun id hid => (p.fromLoops_views view hview).of_find? (hid ▸ hfind),
      fun slot hslot => hwf.link_iff hview hne hfind hslot⟩
  · intro k hk htied
    rcases (hwf.mem_constraints a htied).mp hk with ⟨view, hview, m, name, source, hnode, -, rfl⟩ | ⟨id, hid, rfl⟩
    · exact .inl ⟨m, name, _, mem_nodes_of_view hview hnode, Nat.le_add_right _ _, rfl⟩
    · obtain ⟨s, hs, hsource⟩ := mem_loops.mp hid
      cases s with
      | forAll name source body line =>
        cases hsource
        exact .inr ⟨name, source, body, line, _, hs, (hwf.loopSlot_iff hs).mpr ⟨_, rfl, rfl⟩, rfl⟩
      | _ => cases hsource

lemma exists_of_isNamed {n : Expr} (h : n.isNamed name = true) : ∃ m, n = .identifier m name := by
  cases n with
  | identifier m other => exact ⟨m, congrArg _ (beq_iff_eq.mp h)⟩
  | _ => cases h

/-- The `x` of a loop is linked to the loop, and the `x` declared in a block of its body is not. -/
theorem links_follow_bindings_shadowed : ∃ tokens p a ds, (ofTokens tokens "").1 = .ok p ∧ p.check {} = (a, ds) ∧
    ds.errors = [] ∧
    (∃ m slot source body line, .identifier m "x" ∈ p.nodes ∧
      .equal m.id slot ∈ (a.collect p (a.nodeCount p)).constraints ∧ .forAll "x" source body line ∈ p.stmts ∧
      a.LoopSlot p (.forAll "x" source body line) slot) ∧
    ∃ m, .identifier m "x" ∈ p.nodes ∧ ∃ view ∈ p.views, .identifier m "x" ∈ view.expr.nodes ∧
      ∃ visit ∈ (p.trace {}).2, ∃ declaration binder, visit.Resolves a m "x" declaration ∧
        view.binders.at? declaration = some ("x", binder) ∧ ∀ id, binder ≠ .loop id := by
  have hrun : infersWith ("num[] w := [1]; rule r \x7b forall (x in w) \x7b if (x > 1) \x7b num x := 2; score x; " ++
      "\x7d \x7d \x7d") 100
      (fun p a _ =>
        p.nodes.any (fun n => n.isNamed "x" && n.id == 3) && p.nodes.any (fun n => n.isNamed "x" && n.id == 7) &&
          decide (a.nodeCount p ≤ 8) && decide (.equal 3 8 ∈ (a.collect p (a.nodeCount p)).constraints) &&
          decide (∀ k ∈ (a.collect p (a.nodeCount p)).constraints, 7 ∈ k.slots → ∀ slot ∈ k.slots,
            slot < a.nodeCount p)) = true := by
    decide +kernel
  obtain ⟨tokens, p, a, ds, -, -, -, hread, hcheck, hclean, -, -, htest⟩ := of_infersWith hrun
  simp only [Bool.and_eq_true, decide_eq_true_eq, any_eq_true, beq_iff_eq] at htest
  obtain ⟨⟨⟨⟨⟨n, hn, hnamed, hid⟩, n', hn', hnamed', hid'⟩, hle⟩, hlink⟩, hfree⟩ := htest
  obtain ⟨m, rfl⟩ := exists_of_isNamed hnamed
  obtain ⟨m', rfl⟩ := exists_of_isNamed hnamed'
  obtain ⟨-, hslots, -, hbindings, -⟩ := links_follow_bindings hread hcheck hclean
  refine ⟨tokens, p, a, ds, hread, hcheck, hclean, ?_, m', hn', ?_⟩
  · obtain ⟨view, -, -, visit, -, -, declaration, binder, -, -, -, hiff⟩ := hbindings m "x" hn
    rw [← (show m.id = 3 from hid)] at hlink
    obtain ⟨source, body, line, hmem, -, hloop⟩ := (hiff 8 hle).mp hlink
    exact ⟨m, 8, source, body, line, hn, hlink, hmem, hloop⟩
  · obtain ⟨view, hview, hnode, visit, hvisit, -, declaration, binder, hresolves, hat, hfrom, hiff⟩ :=
      hbindings m' "x" hn'
    refine ⟨view, hview, hnode, visit, hvisit, declaration, binder, hresolves, hat, fun id hbinder => ?_⟩
    obtain ⟨source, body, line, hmem, rfl⟩ := hfrom id hbinder
    obtain ⟨slot, hslot, -⟩ := hslots _ hmem rfl
    have hlink' := (hiff slot hslot.le).mpr ⟨source, body, line, hmem, hbinder, hslot⟩
    have hlt := hfree _ hlink' (by simp [Constraint.slots, (show m'.id = 7 from hid')]) slot
      (by simp [Constraint.slots])
    exact Nat.not_lt.mpr hslot.le hlt

end Program

end ChessEval
