import ChessEval.Proofs.NodeNumbers
import ChessEval.Proofs.Solving
import ChessEval.Proofs.Typing

namespace ChessEval

open List

variable {es : List Expr} {e n : Expr} {m : Mark} {a : Analysis} {c : Constraint} {scopes : LoopScopes} {slot : Nat}
  {name : String} {type : Ty}

namespace Expr

/-- The constraints that a node itself adds to those of its operands. -/
def own (a : Analysis) (scopes : LoopScopes) : Expr → List Constraint
  | .identifier m name =>
    match scopes.slot? name with
    | some slot => [.equal m.id slot]
    | none => []
  | .binary m operator left right => operator.constraints a.types m.id left.id right.id
  | .call m _ arguments => a.argumentConstraints m.id arguments
  | .member m base _ => a.argumentConstraints m.id [base]
  | .index m base position => [.fixed position.id .num, .element base.id m.id]
  | .list m elements => elements.map fun e => .element m.id e.id
  | .literal .. | .unary .. | .emptyList _ => []

section Membership

variable {a : Analysis} {scopes : LoopScopes} {c : Constraint}

lemma mem_allConstraints : c ∈ allConstraints a scopes es ↔ ∃ e ∈ es, c ∈ e.constraints a scopes := by
  induction es with
  | nil => simp [allConstraints]
  | cons e rest ih => simp [allConstraints, ih]

lemma mem_elementConstraints {list : Nat} :
    c ∈ elementConstraints a scopes list es ↔
      (∃ e ∈ es, c ∈ e.constraints a scopes) ∨ c ∈ es.map fun e => Constraint.element list e.id := by
  induction es with
  | nil => simp [elementConstraints]
  | cons e rest ih =>
    simp only [elementConstraints, mem_append, mem_cons, ih, map_cons, or_and_right,
      exists_or, exists_eq_left]
    rw [or_or_or_comm, or_assoc]

lemma mem_constraints_step :
    c ∈ e.constraints a scopes ↔
      (∃ child ∈ e.children, c ∈ child.constraints a scopes) ∨ c ∈ e.own a scopes := by
  cases e with
  | literal | unary | member | emptyList => simp [constraints, children, own]
  | identifier m name =>
    rw [or_iff_right (by simp [children])]
    rfl
  | binary m operator left right | index m left right => simp [constraints, children, own, or_assoc]
  | call m name arguments => simp [constraints, children, own, mem_allConstraints]
  | list m elements => simp only [constraints, children, own, mem_elementConstraints]

/-- The constraints of an expression are those of its nodes. -/
theorem mem_constraints : c ∈ e.constraints a scopes ↔ ∃ n ∈ e.nodes, c ∈ n.own a scopes := by
  induction e using children_induction with
  | step e ih =>
    rw [mem_constraints_step]
    constructor
    · rintro (⟨child, hchild, hc⟩ | hc)
      · obtain ⟨n, hn, hcn⟩ := (ih child hchild).mp hc
        exact ⟨n, mem_nodes_of_child hchild hn, hcn⟩
      · exact ⟨e, e.self_mem_nodes, hc⟩
    · rintro ⟨n, hn, hcn⟩
      rcases mem_nodes.mp hn with rfl | ⟨child, hchild, hn⟩
      · exact .inr hcn
      · exact .inl ⟨child, hchild, (ih child hchild).mpr ⟨n, hn, hcn⟩⟩

end Membership

lemma mem_allEmptyLists : m ∈ allEmptyLists es ↔ ∃ e ∈ es, m ∈ e.emptyLists := by
  induction es with
  | nil => simp [allEmptyLists]
  | cons e rest ih => simp [allEmptyLists, ih]

lemma mem_emptyLists_step : m ∈ e.emptyLists ↔ e = .emptyList m ∨ ∃ child ∈ e.children, m ∈ child.emptyLists := by
  cases e with
  | emptyList m' => simp [emptyLists, children, eq_comm]
  | _ => simp [emptyLists, children, mem_allEmptyLists]

lemma mem_emptyLists : m ∈ e.emptyLists ↔ .emptyList m ∈ e.nodes := by
  induction e using children_induction with
  | step e ih =>
    rw [mem_emptyLists_step, mem_nodes]
    refine or_congr eq_comm (exists_congr fun child => ?_)
    exact and_congr_right fun hchild => ih child hchild

lemma mem_argumentConstraints {id : Nat} {arguments : List Expr} :
    c ∈ a.argumentConstraints id arguments ↔ ∃ header, a.header? id = some header ∧
      ∃ e type, (e, type) ∈ arguments.zip header.params ∧ c = .fixed e.id type := by
  unfold Analysis.argumentConstraints
  cases a.header? id with
  | none => simp
  | some header =>
    simp only [← map_uncurry_zip_eq_zipWith, mem_map, Prod.exists, Function.uncurry_apply_pair,
      Option.some.injEq, exists_eq_left']
    simp only [eq_comm]

lemma mem_operatorConstraints {types : TypeTable} {id left right : Nat} {operator : BinaryOp} :
    c ∈ operator.constraints types id left right ↔
      ((operator = .equal ∨ operator = .notEqual) ∧ (types.typeOf left).isArrayShape = true ∧
          (types.typeOf right).isArrayShape = true ∧ c = .equal left right) ∨
        (operator = .elementOf ∧ c = .element right left) ∨
        (operator = .concat ∧ (types.typeOf id).isArrayShape = true ∧
          (c = .equal left id ∨ c = .equal right id)) := by
  cases operator <;> simp [BinaryOp.constraints, and_assoc]

lemma slots_own (hc : c ∈ n.own a scopes) (hslot : slot ∈ c.slots) :
    slot = n.id ∨ (∃ child ∈ n.children, slot = child.id) ∨ ∃ name, scopes.slot? name = some slot := by
  cases n with
  | literal m value => simp [own] at hc
  | identifier m name =>
    cases hfind : scopes.slot? name with
    | none => simp [own, hfind] at hc
    | some found =>
      simp only [own, hfind, mem_singleton] at hc
      subst hc
      simp only [Constraint.slots, mem_cons, not_mem_nil, or_false] at hslot
      rcases hslot with rfl | rfl
      · exact .inl rfl
      · exact .inr (.inr ⟨name, hfind⟩)
  | binary m operator left right =>
    simp only [own] at hc
    have hcases : slot = m.id ∨ slot = left.id ∨ slot = right.id := by
      rcases mem_operatorConstraints.mp hc with ⟨-, -, -, rfl⟩ | ⟨-, rfl⟩ | ⟨-, -, rfl | rfl⟩ <;>
        simp only [Constraint.slots, mem_cons, not_mem_nil, or_false] at hslot <;> tauto
    rcases hcases with rfl | rfl | rfl
    · exact .inl rfl
    · exact .inr (.inl ⟨left, by simp [children], rfl⟩)
    · exact .inr (.inl ⟨right, by simp [children], rfl⟩)
  | unary m operator operand => simp [own] at hc
  | call m name arguments | member m base field =>
    obtain ⟨header, -, e, type, hzip, rfl⟩ := mem_argumentConstraints.mp hc
    rw [mem_singleton.mp hslot]
    exact .inr (.inl ⟨e, (of_mem_zip hzip).1, rfl⟩)
  | index m base position =>
    simp only [own, mem_cons, not_mem_nil, or_false] at hc
    rcases hc with rfl | rfl
    · rw [mem_singleton.mp hslot]
      exact .inr (.inl ⟨position, by simp [children], rfl⟩)
    · simp only [Constraint.slots, mem_cons, not_mem_nil, or_false] at hslot
      rcases hslot with rfl | rfl
      · exact .inr (.inl ⟨base, by simp [children], rfl⟩)
      · exact .inl rfl
  | list m elements =>
    obtain ⟨e, he, rfl⟩ := mem_map.mp hc
    simp only [Constraint.slots, mem_cons, not_mem_nil, or_false] at hslot
    rcases hslot with rfl | rfl
    · exact .inl rfl
    · exact .inr (.inl ⟨e, he, rfl⟩)
  | emptyList m => simp [own] at hc

lemma own_nil_subset (hc : c ∈ n.own a []) : c ∈ n.own a scopes := by
  cases n with
  | identifier m name => simp [own, LoopScopes.slot?] at hc
  | _ => exact hc

end Expr

namespace LoopScopes

/-- Scopes of loop variables in step with the names in scope: each variable has what `entry` asks for its
type, and the globals, which have no slots, are as `globals` asks. -/
inductive InStep (entry : Option Nat → Ty → Prop) (globals : List (String × Ty) → Prop) :
    LoopScopes → NameTypes → Prop
  | globals {block : List (String × Ty)} (hblock : globals block) : InStep entry globals [] [block]
  | block {scope : List (String × Option Nat)} {block : List (String × Ty)} {scopes : LoopScopes}
    {Γ : NameTypes} (hblock : List.Forall₂ (fun x y => x.1 = y.1 ∧ entry x.2 y.2) scope block)
    (houter : InStep entry globals scopes Γ) : InStep entry globals (scope :: scopes) (block :: Γ)

namespace InStep

variable {entry entry' : Option Nat → Ty → Prop} {globals : List (String × Ty) → Prop}
  {scopes : LoopScopes} {Γ : NameTypes}

lemma imp (hentry : ∀ slot type, entry slot type → entry' slot type) (h : InStep entry globals scopes Γ) :
    InStep entry' globals scopes Γ := by
  induction h with
  | globals hblock => exact .globals hblock
  | block hblock _ ih => exact .block (hblock.imp fun _ _ h => ⟨h.1, hentry _ _ h.2⟩) ih

lemma push (h : InStep entry globals scopes Γ) : InStep entry globals ([] :: scopes) ([] :: Γ) :=
  .block .nil h

lemma pop {block : List (String × Ty)} (hopen : scopes ≠ []) (h : InStep entry globals scopes (block :: Γ)) :
    InStep entry globals scopes.tail Γ := by
  cases h with
  | globals hblock => exact absurd rfl hopen
  | block hblock houter => exact houter

lemma bind {slot : Option Nat} (hopen : scopes ≠ []) (hentry : entry slot type) (h : InStep entry globals scopes Γ) :
    InStep entry globals (scopes.bind name slot) (Γ.bind name type) := by
  cases h with
  | globals hblock => exact absurd rfl hopen
  | block hblock houter => exact .block (.cons ⟨rfl, hentry⟩ hblock) houter

lemma length_eq (h : InStep entry globals scopes Γ) : scopes.length + 1 = Γ.length := by
  induction h with
  | globals hblock => rfl
  | block hblock _ ih => simp [ih]

lemma opened {scopes' : LoopScopes} (hopen : scopes ≠ []) (h : InStep entry globals scopes Γ)
    (h' : InStep entry' globals scopes' Γ) : scopes' ≠ [] := by
  rw [← length_pos_iff] at hopen ⊢
  have := h.length_eq
  have := h'.length_eq
  omega

lemma lookup_block {scope : List (String × Option Nat)} {block : List (String × Ty)}
    (h : List.Forall₂ (fun x y => x.1 = y.1 ∧ entry x.2 y.2) scope block) (name : String) :
    (scope.lookup name = none ∧ block.lookup name = none) ∨
      ∃ slot type, scope.lookup name = some slot ∧ block.lookup name = some type ∧ entry slot type := by
  induction h with
  | nil => exact .inl ⟨rfl, rfl⟩
  | @cons x y scope block hentry _ ih =>
    obtain ⟨n, slot⟩ := x
    obtain ⟨n', type⟩ := y
    obtain ⟨hn : n = n', hentry⟩ := hentry
    subst hn
    by_cases hname : name = n
    · subst hname
      exact .inr ⟨slot, type, by simp, by simp, hentry⟩
    · simpa [lookup_cons, beq_eq_false_iff_ne.mpr hname] using ih

lemma find (h : InStep entry globals scopes Γ) (hfind : Γ.find? name = some type) :
    (scopes.slot? name = none ∧ ∃ block, globals block ∧ block.lookup name = some type) ∨
      entry (scopes.slot? name) type := by
  induction h with
  | @globals block hblock =>
    exact .inl ⟨rfl, block, hblock, by simpa [NameTypes.find?] using hfind⟩
  | @block scope block scopes Γ hblock _ ih =>
    rcases lookup_block hblock name with ⟨hnone, hnone'⟩ | ⟨slot, type', hscope, hblock', hentry⟩
    · have hslot : slot? (scope :: scopes) name = scopes.slot? name := by
        simp [slot?, hnone]
      rw [hslot]
      exact ih (by simpa [NameTypes.find?, hnone'] using hfind)
    · have hslot : slot? (scope :: scopes) name = slot := by
        simp [slot?, hscope]
      have htype : type' = type := by simpa [NameTypes.find?, hblock'] using hfind
      subst htype
      rw [hslot]
      exact .inr hentry

/-- Where all globals and all variables without a slot have known types, a name has a known type or a slot. -/
lemma find_known (h : InStep entry (fun block => ∀ x ∈ block, x.2.isResolved = true) scopes Γ)
    (hknown : ∀ type, entry none type → type.isResolved = true) (hfind : Γ.find? name = some type) :
    (scopes.slot? name = none ∧ type.isResolved = true) ∨
      ∃ slot, scopes.slot? name = some slot ∧ entry (some slot) type := by
  rcases h.find hfind with ⟨hslot, block, hblock, hlookup⟩ | hentry
  · obtain ⟨l₁, l₂, heq, -⟩ := lookup_eq_some_iff.mp hlookup
    exact .inl ⟨hslot, hblock (name, type) (by simp [heq])⟩
  · cases hslot : scopes.slot? name with
    | none => exact .inl ⟨rfl, hknown type (hslot ▸ hentry)⟩
    | some slot => exact .inr ⟨slot, rfl, hslot ▸ hentry⟩

lemma of_slot? (h : InStep entry globals scopes Γ) (hslot : scopes.slot? name = some slot) :
    ∃ type, entry (some slot) type := by
  induction h with
  | globals hblock => cases hslot
  | @block scope block scopes Γ hblock _ ih =>
    rcases lookup_block hblock name with ⟨hnone, -⟩ | ⟨slot', type, hscope, -, hentry⟩
    · exact ih (by simpa [slot?, hnone] using hslot)
    · have hsame : slot' = some slot := by simpa [slot?, hscope] using hslot
      exact ⟨type, hsame ▸ hentry⟩

end InStep

end LoopScopes

namespace Collection

/-- A later collection, which has everything that an earlier one has. -/
structure Grows (c c' : Collection) : Prop where
  constraints : c.constraints ⊆ c'.constraints
  sources : c.sources ⊆ c'.sources
  emptyLists : c.emptyLists ⊆ c'.emptyLists

lemma Grows.refl (c : Collection) : c.Grows c :=
  ⟨List.Subset.refl _, List.Subset.refl _, List.Subset.refl _⟩

lemma Grows.trans {c d e : Collection} (hcd : c.Grows d) (hde : d.Grows e) : c.Grows e :=
  ⟨List.Subset.trans hcd.constraints hde.constraints, List.Subset.trans hcd.sources hde.sources,
    List.Subset.trans hcd.emptyLists hde.emptyLists⟩

/-- A slot holds the elements of the source of a loop. -/
def HasSource (c : Collection) (slot : Nat) : Prop :=
  ∃ source ∈ c.sources, .element source.id slot ∈ c.constraints

lemma HasSource.mono {c c' : Collection} (hgrows : c.Grows c') (h : c.HasSource slot) : c'.HasSource slot := by
  obtain ⟨source, hsource, helement⟩ := h
  exact ⟨source, hgrows.sources hsource, hgrows.constraints helement⟩

/-- A variable either has a known type and no slot, or it is a loop variable. -/
def Entry (c : Collection) : Option Nat → Ty → Prop
  | none, type => type.isResolved = true
  | some slot, _ => c.HasSource slot

/-- The scopes of loop variables are in step with the names in scope, and the globals have known types. -/
abbrev Agrees (c : Collection) : LoopScopes → NameTypes → Prop :=
  LoopScopes.InStep c.Entry fun block => ∀ x ∈ block, x.2.isResolved = true

namespace Agrees

variable {c c' : Collection} {scopes : LoopScopes} {Γ : NameTypes}

lemma mono (hgrows : c.Grows c') (h : c.Agrees scopes Γ) : c'.Agrees scopes Γ := by
  refine h.imp fun slot type hentry => ?_
  cases slot with
  | none => exact hentry
  | some slot => exact HasSource.mono hgrows hentry

lemma find (h : c.Agrees scopes Γ) (hfind : Γ.find? name = some type) :
    (scopes.slot? name = none ∧ type.isResolved = true) ∨
      ∃ slot, scopes.slot? name = some slot ∧ c.HasSource slot :=
  LoopScopes.InStep.find_known h (fun _ hknown => hknown) hfind

end Agrees

end Collection

/-- A node whose constraints have been collected. A name has a known type or is tied to the slot of its
loop variable. -/
structure Expr.Collected (a : Analysis) (c : Collection) (n : Expr) : Prop where
  own : ∀ k ∈ n.own a [], k ∈ c.constraints
  linked : ∀ m name, n = .identifier m name → (a.types.typeOf m.id).isResolved = true ∨
    ∃ slot, .equal m.id slot ∈ c.constraints ∧ c.HasSource slot
  listed : ∀ m, n = .emptyList m → ∃ use ∈ c.emptyLists, use.id = m.id

/-- What a statement itself says about types has been collected. -/
def Stmt.Demanded (c : Collection) : Stmt → Prop
  | .assign target value _ => .equal target.id value.id ∈ c.constraints
  | .forAll _ source _ _ => (∃ loop ∈ c.sources, loop.id = source.id) ∧
    ∃ slot, .element source.id slot ∈ c.constraints
  | .score value _ => .fixed value.id .num ∈ c.constraints
  | _ => True

/-- A statement that has been collected from, with the nodes of its expressions. -/
structure Stmt.Covered (a : Analysis) (c : Collection) (s : Stmt) : Prop where
  demanded : s.Demanded c
  nodes : ∀ e ∈ s.exprs, ∀ n ∈ e.nodes, n.Collected a c

section Mono

variable {a : Analysis} {c c' : Collection}

lemma Expr.Collected.mono (hgrows : c.Grows c') (h : n.Collected a c) : n.Collected a c' := by
  refine ⟨fun k hk => hgrows.constraints (h.own k hk), fun m name heq => ?_, fun m heq => ?_⟩
  · rcases h.linked m name heq with hresolved | ⟨slot, hequal, hsource⟩
    · exact .inl hresolved
    · exact .inr ⟨slot, hgrows.constraints hequal, hsource.mono hgrows⟩
  · obtain ⟨use, huse, hid⟩ := h.listed m heq
    exact ⟨use, hgrows.emptyLists huse, hid⟩

lemma Stmt.Covered.mono (hgrows : c.Grows c') {s : Stmt} (h : s.Covered a c) : s.Covered a c' := by
  refine ⟨?_, fun e he n hn => (h.nodes e he n hn).mono hgrows⟩
  have hdemanded := h.demanded
  cases s with
  | assign target value line => exact hgrows.constraints hdemanded
  | forAll name source body line =>
    obtain ⟨⟨loop, hloop, hid⟩, slot, hslot⟩ := hdemanded
    exact ⟨⟨loop, hgrows.sources hloop, hid⟩, slot, hgrows.constraints hslot⟩
  | score value line => exact hgrows.constraints hdemanded
  | _ => trivial

end Mono

namespace Collect

section Steps

variable {a : Analysis} {context : Context} {c c' : Collection} {result : Unit} {Γ : NameTypes}

/-- The names in scope after a step that has collected more. -/
structure Follows (c c' : Collection) (Γ : NameTypes) : Prop where
  grows : c.Grows c'
  opened : c'.scopes ≠ []
  agrees : c'.Agrees c'.scopes Γ

lemma grows_add (k : Constraint) (c : Collection) :
    c.Grows ((add k).run c).2 :=
  ⟨subset_append_left _ _, List.Subset.refl _, List.Subset.refl _⟩

lemma grows_scopes (scopes : LoopScopes) (c : Collection) : c.Grows { c with scopes := scopes } :=
  ⟨List.Subset.refl _, List.Subset.refl _, List.Subset.refl _⟩

lemma bind_ne_nil (hopen : scopes ≠ []) {slot : Option Nat} : scopes.bind name slot ≠ [] := by
  cases scopes with
  | nil => exact absurd rfl hopen
  | cons scope outer => simp [LoopScopes.bind]

/-- Before the body of a loop its variable gets a new slot, which holds the elements of the source. -/
lemma enterLoop {source : Nat} {c₁ c₂ c₃ c₄ c₅ : Collection} (h₁ : newSlot.run c = (slot, c₁))
    (h₂ : (add (.element source slot)).run c₁ = (result, c₂))
    (h₃ : StateT.run (modify fun s => { s with sources := s.sources ++ [⟨source, name, context⟩] } :
      Collect Unit) c₂ = (result, c₃)) (h₄ : openScope.run c₃ = (result, c₄))
    (h₅ : (bind name (some slot)).run c₄ = (result, c₅)) :
    c₅ =
      { c with
        constraints := c.constraints ++ [.element source c.nextSlot]
        nextSlot := c.nextSlot + 1
        scopes := [(name, some c.nextSlot)] :: c.scopes
        sources := c.sources ++ [⟨source, name, context⟩] } := by
  cases h₁
  cases h₂
  cases h₃
  cases h₄
  cases h₅
  rfl

lemma collected_of_expr (htyped : e.AllTyped a Γ) (hagrees : c.Agrees c.scopes Γ)
    (h : (expr a context e).run c = (result, c')) :
    c.Grows c' ∧ c'.scopes = c.scopes ∧ ∀ n ∈ e.nodes, n.Collected a c' := by
  cases h
  have hgrows : c.Grows ((expr a context e).run c).2 :=
    ⟨subset_append_left _ _, List.Subset.refl _, subset_append_left _ _⟩
  refine ⟨hgrows, rfl, fun n hn => ⟨fun k hk => ?_, ?_, ?_⟩⟩
  · exact mem_append_right _ (Expr.mem_constraints.mpr ⟨n, hn, Expr.own_nil_subset hk⟩)
  · rintro m name rfl
    obtain ⟨type, hfind, htype⟩ := htyped _ hn
    rcases hagrees.find hfind with ⟨-, hresolved⟩ | ⟨slot, hslot, hsource⟩
    · exact .inl (by rwa [TypeTable.typeOf, htype])
    · refine .inr ⟨slot, ?_, hsource.mono hgrows⟩
      refine mem_append_right _ (Expr.mem_constraints.mpr ⟨_, hn, ?_⟩)
      simp [Expr.own, hslot]
  · rintro m rfl
    refine ⟨⟨m.id, context.moveTo m.line⟩, mem_append_right _ ?_, rfl⟩
    exact mem_map_of_mem (Expr.mem_emptyLists.mpr hn)

lemma collected_of_exprOf (htyped : e.AllTyped a Γ) (hagrees : c.Agrees c.scopes Γ)
    (h : (exprOf a context type e).run c = (result, c')) :
    c.Grows c' ∧ c'.scopes = c.scopes ∧ .fixed e.id type ∈ c'.constraints ∧
      ∀ n ∈ e.nodes, n.Collected a c' := by
  rw [exprOf, runState_bind] at h
  obtain ⟨_, d, hadd, h⟩ := h
  cases hadd
  have hd := grows_add (.fixed e.id type) c
  obtain ⟨hgrows, hscopes, hnodes⟩ := collected_of_expr htyped (hagrees.mono hd) h
  exact ⟨hd.trans hgrows, hscopes, hgrows.constraints (mem_append_right _ (mem_singleton_self _)),
    hnodes⟩

lemma covered_of_optionalExpr {value : Option Expr} (htyped : ∀ e ∈ value, e.AllTyped a Γ)
    (hagrees : c.Agrees c.scopes Γ) (h : (optionalExpr a context type value).run c = (result, c')) :
    c.Grows c' ∧ c'.scopes = c.scopes ∧ ∀ e ∈ value, ∀ n ∈ e.nodes, n.Collected a c' := by
  cases value with
  | none =>
    cases h
    exact ⟨.refl c, rfl, by simp⟩
  | some e =>
    obtain ⟨hgrows, hscopes, -, hnodes⟩ := collected_of_exprOf (htyped e rfl) hagrees h
    exact ⟨hgrows, hscopes, by rintro e' ⟨⟩; exact hnodes⟩

lemma covered_of_declarators {ds : List Declarator} (hresolved : type.isResolved = true)
    (htyped : Stmt.DeclaratorsTyped a type Γ ds) (hopen : c.scopes ≠ []) (hagrees : c.Agrees c.scopes Γ)
    (h : (declarators a context type ds).run c = (result, c')) :
    Follows c c' (Stmt.bindAll Γ type ds) ∧
      ∀ d ∈ ds, ∀ e ∈ d.value, ∀ n ∈ e.nodes, n.Collected a c' := by
  induction ds generalizing c Γ with
  | nil =>
    cases h
    exact ⟨⟨.refl _, hopen, hagrees⟩, by simp⟩
  | cons d rest ih =>
    rw [declarators, runState_bind] at h
    obtain ⟨_, c₁, hvalue, h⟩ := h
    rw [runState_bind] at h
    obtain ⟨_, c₂, hbind, h⟩ := h
    cases hbind
    obtain ⟨hgrows, hscopes, hnodes⟩ :=
      covered_of_optionalExpr (fun e he => (htyped.1 e he).1) hagrees hvalue
    have hbound : c₁.Agrees (c₁.scopes.bind d.name none) (Γ.bind d.name type) :=
      ((hscopes ▸ hagrees).mono hgrows).bind (hscopes ▸ hopen) hresolved
    have hgrows₂ : c₁.Grows ((bind d.name none).run c₁).2 := grows_scopes _ c₁
    obtain ⟨hfollows, hrest⟩ := ih htyped.2 (bind_ne_nil (hscopes ▸ hopen)) (hbound.mono hgrows₂) h
    refine ⟨⟨(hgrows.trans hgrows₂).trans hfollows.grows, hfollows.opened, hfollows.agrees⟩, ?_⟩
    intro d' hd' e he n hn
    rcases mem_cons.mp hd' with rfl | hd'
    · exact (hnodes e he n hn).mono (hgrows₂.trans hfollows.grows)
    · exact hrest d' hd' e he n hn

/-- What collecting from a block gives when the names in scope have been followed. -/
abbrev CoversBlock (a : Analysis) (block : List Stmt) : Prop :=
  ∀ Γ returnType context c result c', (statements a returnType context block).run c = (result, c') →
    Stmt.BlockTyped a Γ block →
    (∀ s ∈ Stmt.blockParts block, ∀ type ∈ s.declared, type.isResolved = true) → c.scopes ≠ [] →
    c.Agrees c.scopes Γ →
    c.Grows c' ∧ c'.Agrees c'.scopes.tail Γ.tail ∧ ∀ s ∈ Stmt.blockParts block, s.Covered a c'

lemma covered_of_scoped {body : List Stmt} {returnType : Ty} {inner : List (String × Ty)}
    {d e : Collection} (ih : CoversBlock a body) (htyped : Stmt.BlockTyped a (inner :: Γ) body)
    (hresolved : ∀ s ∈ Stmt.blockParts body, ∀ type ∈ s.declared, type.isResolved = true)
    (hopen : d.scopes ≠ []) (hagrees : d.Agrees d.scopes (inner :: Γ))
    (hbody : (statements a returnType context body).run d = (result, e))
    (hclose : closeScope.run e = (result, c')) :
    d.Grows c' ∧ c'.Agrees c'.scopes Γ ∧ ∀ s ∈ Stmt.blockParts body, s.Covered a c' := by
  obtain ⟨hgrows, hagrees', hcovered⟩ := ih _ _ _ _ _ _ hbody htyped hresolved hopen hagrees
  cases hclose
  have hclosed : e.Grows (closeScope.run e).2 := grows_scopes _ e
  exact ⟨hgrows.trans hclosed, hagrees'.mono hclosed, fun s hs => (hcovered s hs).mono hclosed⟩

lemma covered_of_conditional {condition : Expr} {body : List Stmt} {returnType : Ty}
    {c₁ c₂ c₃ : Collection} {inner : Context} (ih : CoversBlock a body)
    (hcondition : condition.AllTyped a Γ) (htyped : Stmt.BlockTyped a ([] :: Γ) body)
    (hresolved : ∀ s ∈ Stmt.blockParts body, ∀ type ∈ s.declared, type.isResolved = true)
    (hagrees : c.Agrees c.scopes Γ) (h₁ : (expr a context condition).run c = (result, c₁))
    (h₂ : openScope.run c₁ = (result, c₂))
    (h₃ : (statements a returnType inner body).run c₂ = (result, c₃))
    (h₄ : closeScope.run c₃ = (result, c')) :
    c.Grows c' ∧ c'.Agrees c'.scopes Γ ∧ (∀ n ∈ condition.nodes, n.Collected a c') ∧
      ∀ s ∈ Stmt.blockParts body, s.Covered a c' := by
  obtain ⟨hgrows₁, hscopes₁, hnodes⟩ := collected_of_expr hcondition hagrees h₁
  have hagrees₁ : c₁.Agrees c₁.scopes Γ := hscopes₁ ▸ hagrees.mono hgrows₁
  cases h₂
  have hgrows₂ : c₁.Grows (openScope.run c₁).2 := grows_scopes _ c₁
  obtain ⟨hgrows, hagrees', hcovered⟩ := covered_of_scoped ih htyped hresolved
    (cons_ne_nil _ _) (hagrees₁.mono hgrows₂).push h₃ h₄
  have hgrows' := hgrows₂.trans hgrows
  exact ⟨hgrows₁.trans hgrows', hagrees', fun n hn => (hnodes n hn).mono hgrows', hcovered⟩

end Steps

/-- Collecting from a typed block covers it and follows the names in scope. -/
theorem covered_of_statements (a : Analysis) (block : List Stmt) : CoversBlock a block := by
  induction block using Stmt.block_induction (fun stmt =>
    ∀ Γ returnType context c result c', (statement a returnType context stmt).run c = (result, c') →
      stmt.Typed a Γ → (∀ s ∈ stmt.parts, ∀ type ∈ s.declared, type.isResolved = true) →
      c.scopes ≠ [] → c.Agrees c.scopes Γ →
      Follows c c' (stmt.binds Γ) ∧ ∀ s ∈ stmt.parts, s.Covered a c') with
  | declare type ds line Γ returnType context c result c' h htyped hresolved hopen hagrees =>
    have htype : type.isResolved = true :=
      hresolved (.declare type ds line) (by simp [Stmt.parts]) type (by simp [Stmt.declared])
    obtain ⟨hfollows, hnodes⟩ := covered_of_declarators htype htyped hopen hagrees h
    refine ⟨hfollows, fun s hs => ?_⟩
    rw [mem_singleton.mp hs]
    refine ⟨trivial, fun e he => ?_⟩
    obtain ⟨d, hd, hvalue⟩ := mem_flatMap.mp he
    exact hnodes d hd e (Option.mem_toList.mp hvalue)
  | assign target value line Γ returnType context c result c' h htyped hresolved hopen hagrees =>
    obtain ⟨htarget, hvalue, -⟩ := htyped
    simp only [statement, runState_bind] at h
    obtain ⟨_, c₁, h₁, _, c₂, h₂, hadd⟩ := h
    obtain ⟨hgrows₁, hscopes₁, hnodes₁⟩ := collected_of_expr htarget hagrees h₁
    have hagrees₁ : c₁.Agrees c₁.scopes Γ := hscopes₁ ▸ hagrees.mono hgrows₁
    obtain ⟨hgrows₂, hscopes₂, hnodes₂⟩ := collected_of_expr hvalue hagrees₁ h₂
    cases hadd
    have hgrows₃ := grows_add (.equal target.id value.id) c₂
    have hagrees₂ : c₂.Agrees c₂.scopes Γ := hscopes₂ ▸ hagrees₁.mono hgrows₂
    refine ⟨⟨(hgrows₁.trans hgrows₂).trans hgrows₃, hagrees.opened hopen hagrees₂,
      hagrees₂.mono hgrows₃⟩, fun s hs => ?_⟩
    rw [mem_singleton.mp hs]
    refine ⟨mem_append_right _ (mem_singleton_self _), fun e he n hn => ?_⟩
    simp only [Stmt.exprs, mem_cons, not_mem_nil, or_false] at he
    rcases he with rfl | rfl
    · exact (hnodes₁ n hn).mono (hgrows₂.trans hgrows₃)
    · exact (hnodes₂ n hn).mono hgrows₃
  | ifThen condition body line ih Γ returnType context c result c' h htyped hresolved hopen hagrees
  | whileDo condition body line ih Γ returnType context c result c' h htyped hresolved hopen hagrees =>
    obtain ⟨hcondition, -, hbody⟩ := htyped
    simp only [statement, runState_bind] at h
    obtain ⟨_, c₁, h₁, _, c₂, h₂, _, c₃, h₃, h₄⟩ := h
    simp only [Stmt.parts, forall_mem_cons] at hresolved ⊢
    obtain ⟨hgrows, hagrees', hnodes, hcovered⟩ :=
      covered_of_conditional ih hcondition hbody hresolved.2 hagrees h₁ h₂ h₃ h₄
    exact ⟨⟨hgrows, hagrees.opened hopen hagrees', hagrees'⟩,
      ⟨trivial, by simpa [Stmt.exprs] using hnodes⟩, hcovered⟩
  | ifElse condition thenBody elseBody line ihthen ihelse Γ returnType context c result c' h htyped
      hresolved hopen hagrees =>
    obtain ⟨hcondition, -, hthen, helse⟩ := htyped
    simp only [statement, runState_bind] at h
    obtain ⟨_, c₁, h₁, _, c₂, h₂, _, c₃, h₃, _, d, h₄, _, c₅, h₅, _, c₆, h₆, h₇⟩ := h
    simp only [Stmt.parts, forall_mem_cons, forall_mem_append] at hresolved ⊢
    obtain ⟨hgrows, hagrees', hnodes, hcovered⟩ :=
      covered_of_conditional ihthen hcondition hthen hresolved.2.1 hagrees h₁ h₂ h₃ h₄
    cases h₅
    have hgrows₅ : d.Grows (openScope.run d).2 := grows_scopes _ d
    obtain ⟨hgrows₆, hagrees'', hcovered'⟩ := covered_of_scoped ihelse helse hresolved.2.2
      (cons_ne_nil _ _) (hagrees'.mono hgrows₅).push h₆ h₇
    have hgrows' := hgrows₅.trans hgrows₆
    exact ⟨⟨hgrows.trans hgrows', hagrees.opened hopen hagrees'', hagrees''⟩,
      ⟨trivial, by simpa [Stmt.exprs] using fun n hn => (hnodes n hn).mono hgrows'⟩,
      fun s hs => (hcovered s hs).mono hgrows', hcovered'⟩
  | forAll name source body line ih Γ returnType context c result c' h htyped hresolved hopen hagrees =>
    obtain ⟨hsource, type, -, hbody⟩ := htyped
    simp only [statement, runState_bind] at h
    obtain ⟨_, c₁, h₁, slot, c₂, h₂, _, c₃, h₃, _, c₄, h₄, _, c₅, h₅, _, c₆, h₆, _, c₇, h₇, h₈⟩ := h
    simp only [Stmt.parts, forall_mem_cons] at hresolved ⊢
    obtain ⟨hgrows₁, hscopes₁, hnodes⟩ := collected_of_expr hsource hagrees h₁
    have hagrees₁ : c₁.Agrees c₁.scopes Γ := hscopes₁ ▸ hagrees.mono hgrows₁
    have hc₆ := enterLoop h₂ h₃ h₄ h₅ h₆
    have hgrows₂ : c₁.Grows c₆ := by
      rw [hc₆]
      exact ⟨subset_append_left _ _, subset_append_left _ _, List.Subset.refl _⟩
    have hloop : ⟨source.id, name, context.moveTo line⟩ ∈ c₆.sources := by simp [hc₆]
    have helement : .element source.id c₁.nextSlot ∈ c₆.constraints := by simp [hc₆]
    have hslot : c₆.HasSource c₁.nextSlot := ⟨_, hloop, helement⟩
    have hscopes₆ : c₆.scopes = [(name, some c₁.nextSlot)] :: c₁.scopes := by rw [hc₆]
    have hagrees₆ : c₆.Agrees c₆.scopes ([(name, type)] :: Γ) := by
      rw [hscopes₆]
      exact .block (.cons ⟨rfl, hslot⟩ .nil) (hagrees₁.mono hgrows₂)
    obtain ⟨hgrows, hagrees', hcovered⟩ := covered_of_scoped ih hbody hresolved.2
      (hscopes₆ ▸ cons_ne_nil _ _) hagrees₆ h₇ h₈
    refine ⟨⟨(hgrows₁.trans hgrows₂).trans hgrows, hagrees.opened hopen hagrees', hagrees'⟩,
      ⟨⟨⟨_, hgrows.sources hloop, rfl⟩, _, hgrows.constraints helement⟩, fun e he n hn => ?_⟩, hcovered⟩
    rw [mem_singleton.mp he] at hn
    exact (hnodes n hn).mono (hgrows₂.trans hgrows)
  | returns value line Γ returnType context c result c' h htyped hresolved hopen hagrees =>
    obtain ⟨hgrows, hscopes, hnodes⟩ := covered_of_optionalExpr htyped hagrees h
    refine ⟨⟨hgrows, hscopes ▸ hopen, hscopes ▸ hagrees.mono hgrows⟩, fun s hs => ?_⟩
    rw [mem_singleton.mp hs]
    exact ⟨trivial, fun e he => hnodes e (Option.mem_toList.mp he)⟩
  | score value line Γ returnType context c result c' h htyped hresolved hopen hagrees =>
    obtain ⟨hgrows, hscopes, hfixed, hnodes⟩ := collected_of_exprOf htyped.1 hagrees h
    refine ⟨⟨hgrows, hscopes ▸ hopen, hscopes ▸ hagrees.mono hgrows⟩, fun s hs => ?_⟩
    rw [mem_singleton.mp hs]
    refine ⟨hfixed, fun e he => ?_⟩
    rw [mem_singleton.mp he]
    exact hnodes
  | call site line Γ returnType context c result c' h htyped hresolved hopen hagrees =>
    obtain ⟨hgrows, hscopes, hnodes⟩ := collected_of_expr htyped hagrees h
    refine ⟨⟨hgrows, hscopes ▸ hopen, hscopes ▸ hagrees.mono hgrows⟩, fun s hs => ?_⟩
    rw [mem_singleton.mp hs]
    refine ⟨trivial, fun e he => ?_⟩
    rw [mem_singleton.mp he]
    exact hnodes
  | nil =>
    intro Γ returnType context c result c' h htyped hresolved hopen hagrees
    cases h
    refine ⟨.refl _, ?_, by simp [Stmt.blockParts]⟩
    cases Γ with
    | nil => exact absurd hagrees.length_eq (by simp)
    | cons inner outer => exact hagrees.pop hopen
  | cons stmt rest ihstmt ihrest =>
    intro Γ returnType context c result c' h htyped hresolved hopen hagrees
    rw [statements, runState_bind] at h
    obtain ⟨_, d, hstmt, hrest⟩ := h
    simp only [Stmt.blockParts, forall_mem_append] at hresolved ⊢
    obtain ⟨hfollows, hcovered⟩ := ihstmt _ _ _ _ _ _ hstmt htyped.1 hresolved.1 hopen hagrees
    obtain ⟨hgrows, hagrees', hcovered'⟩ :=
      ihrest _ _ _ _ _ _ hrest htyped.2 hresolved.2 hfollows.opened hfollows.agrees
    exact ⟨hfollows.grows.trans hgrows, stmt.tail_binds Γ ▸ hagrees',
      fun s hs => (hcovered s hs).mono hgrows, hcovered'⟩

end Collect

end ChessEval
