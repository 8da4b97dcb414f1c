import ChessEval.Program.Basic
import Mathlib.Data.List.Flatten

/-!
# Nodes of a program

The nodes of an expression, the statements inside a statement and the expressions of a program are listed here
in the order of the text.
-/

namespace ChessEval

open List

variable {n e c : Expr}

namespace Expr

/-- The operands of the topmost node. -/
def children : Expr → List Expr
  | .literal .. | .identifier .. | .emptyList _ => []
  | .binary _ _ left right => [left, right]
  | .unary _ _ operand => [operand]
  | .call _ _ arguments => arguments
  | .member _ base _ => [base]
  | .index _ base position => [base, position]
  | .list _ elements => elements

def call? : Expr → Option (String × List Expr)
  | .call _ name arguments => some (name, arguments)
  | .member _ base field => some (field, [base])
  | _ => none

mutual

def nodes : Expr → List Expr
  | .literal m value => [.literal m value]
  | .identifier m name => [.identifier m name]
  | .binary m operator left right =>
    left.nodes ++ right.nodes ++ [.binary m operator left right]
  | .unary m operator operand => operand.nodes ++ [.unary m operator operand]
  | .call m name arguments => allNodes arguments ++ [.call m name arguments]
  | .member m base field => base.nodes ++ [.member m base field]
  | .index m base position => base.nodes ++ position.nodes ++ [.index m base position]
  | .list m elements => allNodes elements ++ [.list m elements]
  | .emptyList m => [.emptyList m]

def allNodes : List Expr → List Expr
  | [] => []
  | e :: rest => e.nodes ++ allNodes rest

end

def ids (e : Expr) : List Nat :=
  e.nodes.map Expr.id

lemma allNodes_eq (es : List Expr) : allNodes es = es.flatMap nodes := by
  induction es with
  | nil => rfl
  | cons e rest ih => rw [allNodes, ih, flatMap_cons]

lemma nodes_eq (e : Expr) : e.nodes = e.children.flatMap nodes ++ [e] := by
  cases e <;> simp [nodes, children, allNodes_eq]

lemma ids_eq (e : Expr) : e.ids = e.children.flatMap ids ++ [e.id] := by
  unfold ids
  rw [nodes_eq, map_append, map_flatMap]
  rfl

/-- A fact about every expression follows from what it says of an expression once its operands
have it. -/
@[elab_as_elim]
theorem children_induction {motive : Expr → Prop}
    (step : ∀ e, (∀ c ∈ e.children, motive c) → motive e) (e : Expr) : motive e := by
  apply @Expr.rec motive fun es => ∀ e ∈ es, motive e
  · exact fun m value => step _ (by simp [children])
  · exact fun m name => step _ (by simp [children])
  · exact fun m operator left right hl hr => step _ (by simp [children, hl, hr])
  · exact fun m operator operand h => step _ (by simp [children, h])
  · exact fun m name arguments h => step _ h
  · exact fun m base field h => step _ (by simp [children, h])
  · exact fun m base position hb hp => step _ (by simp [children, hb, hp])
  · exact fun m elements h => step _ h
  · exact fun m => step _ (by simp [children])
  · simp
  · exact fun e rest he hrest => forall_mem_cons.mpr ⟨he, hrest⟩

lemma mem_nodes : n ∈ e.nodes ↔ n = e ∨ ∃ c ∈ e.children, n ∈ c.nodes := by
  rw [nodes_eq, mem_append, mem_flatMap, mem_singleton, or_comm]

lemma self_mem_nodes (e : Expr) : e ∈ e.nodes :=
  mem_nodes.mpr (.inl rfl)

lemma mem_nodes_of_child (hc : c ∈ e.children) (hn : n ∈ c.nodes) : n ∈ e.nodes :=
  mem_nodes.mpr (.inr ⟨c, hc, hn⟩)

lemma mem_nodes_trans {m : Expr} (hn : n ∈ m.nodes) (hm : m ∈ e.nodes) : n ∈ e.nodes := by
  induction e using children_induction with
  | step e ih =>
    rcases mem_nodes.mp hm with rfl | ⟨c, hc, hmc⟩
    · exact hn
    · exact mem_nodes_of_child hc (ih c hc hmc)

lemma child_mem_nodes (hc : c ∈ n.children) (hn : n ∈ e.nodes) : c ∈ e.nodes :=
  mem_nodes_trans (mem_nodes_of_child hc c.self_mem_nodes) hn

lemma id_mem_ids (e : Expr) : e.id ∈ e.ids :=
  mem_map_of_mem e.self_mem_nodes

lemma id_mem_ids_of_mem (hn : n ∈ e.nodes) : n.id ∈ e.ids :=
  mem_map_of_mem hn

end Expr

namespace Stmt

/-- The expressions of a statement itself, without those of the blocks in it. -/
def exprs : Stmt → List Expr
  | .declare _ declarators _ => declarators.flatMap fun d => d.value.toList
  | .assign target value _ => [target, value]
  | .ifThen condition _ _ _ | .whileDo condition _ _ => [condition]
  | .forAll _ source _ _ => [source]
  | .returns value _ => value.toList
  | .score value _ => [value]
  | .call site _ => [site]

mutual

/-- A statement and the statements inside it. -/
def parts : Stmt → List Stmt
  | .declare type declarators line => [.declare type declarators line]
  | .assign target value line => [.assign target value line]
  | .ifThen condition thenBody none line =>
    .ifThen condition thenBody none line :: blockParts thenBody
  | .ifThen condition thenBody (some elseBody) line =>
    .ifThen condition thenBody (some elseBody) line :: (blockParts thenBody ++ blockParts elseBody)
  | .whileDo condition body line => .whileDo condition body line :: blockParts body
  | .forAll name source body line => .forAll name source body line :: blockParts body
  | .returns value line => [.returns value line]
  | .score value line => [.score value line]
  | .call site line => [.call site line]

/-- The statements of a block and those inside them. -/
def blockParts : List Stmt → List Stmt
  | [] => []
  | s :: rest => s.parts ++ blockParts rest

end

lemma blockParts_eq (block : List Stmt) : blockParts block = block.flatMap parts := by
  induction block with
  | nil => rfl
  | cons s rest ih => rw [blockParts, ih, flatMap_cons]

lemma parts_ifThen (condition : Expr) (thenBody : List Stmt) (elseBody : Option (List Stmt)) (line : Nat) :
    (ifThen condition thenBody elseBody line).parts = .ifThen condition thenBody elseBody line ::
      (blockParts thenBody ++ elseBody.toList.flatMap blockParts) := by
  cases elseBody <;> simp [parts]

lemma self_mem_parts (s : Stmt) : s ∈ s.parts := by
  cases s with
  | ifThen condition thenBody elseBody line => simp [parts_ifThen]
  | _ => simp [parts]

/-- The numbers of the nodes in a statement. -/
def ids (s : Stmt) : List Nat :=
  (s.parts.flatMap exprs).flatMap Expr.ids

/-- The numbers of the nodes in a block. -/
def blockIds (block : List Stmt) : List Nat :=
  ((blockParts block).flatMap exprs).flatMap Expr.ids

lemma blockIds_nil : blockIds [] = [] := rfl

lemma blockIds_cons (s : Stmt) (rest : List Stmt) : blockIds (s :: rest) = s.ids ++ blockIds rest := by
  rw [blockIds, blockParts, flatMap_append, flatMap_append]
  rfl

lemma ids_leaf {s : Stmt} (h : s.parts = [s]) : s.ids = s.exprs.flatMap Expr.ids := by
  rw [ids, h, flatMap_singleton]

section Ids

variable (line : Nat)

lemma ids_declare (type : Ty) (declarators : List Declarator) :
    (declare type declarators line).ids =
      (declarators.flatMap fun d => d.value.toList).flatMap Expr.ids :=
  ids_leaf rfl

lemma ids_assign (target value : Expr) : (assign target value line).ids = target.ids ++ value.ids :=
  (ids_leaf rfl).trans (congrArg (target.ids ++ ·) (append_nil _))

lemma ids_ifThen (condition : Expr) (thenBody : List Stmt) :
    (ifThen condition thenBody none line).ids = condition.ids ++ blockIds thenBody := rfl

lemma ids_ifElse (condition : Expr) (thenBody elseBody : List Stmt) :
    (ifThen condition thenBody (some elseBody) line).ids =
      condition.ids ++ (blockIds thenBody ++ blockIds elseBody) := by
  unfold blockIds
  rw [← flatMap_append, ← flatMap_append]
  rfl

lemma ids_whileDo (condition : Expr) (body : List Stmt) :
    (whileDo condition body line).ids = condition.ids ++ blockIds body := rfl

lemma ids_forAll (name : String) (source : Expr) (body : List Stmt) :
    (forAll name source body line).ids = source.ids ++ blockIds body := rfl

lemma ids_returns (value : Option Expr) :
    (returns value line).ids = value.toList.flatMap Expr.ids :=
  ids_leaf rfl

lemma ids_score (value : Expr) : (score value line).ids = value.ids :=
  (ids_leaf rfl).trans (append_nil _)

lemma ids_call (site : Expr) : (call site line).ids = site.ids :=
  (ids_leaf rfl).trans (append_nil _)

end Ids

/-- A fact about every block follows by induction on its statements, where a statement may use the
fact for the blocks inside it. -/
@[elab_as_elim]
theorem block_induction {motive : List Stmt → Prop} (single : Stmt → Prop)
    (declare : ∀ type declarators line, single (.declare type declarators line))
    (assign : ∀ target value line, single (.assign target value line))
    (ifThen : ∀ condition thenBody line, motive thenBody →
      single (.ifThen condition thenBody none line))
    (ifElse : ∀ condition thenBody elseBody line, motive thenBody → motive elseBody →
      single (.ifThen condition thenBody (some elseBody) line))
    (whileDo : ∀ condition body line, motive body → single (.whileDo condition body line))
    (forAll : ∀ name source body line, motive body → single (.forAll name source body line))
    (returns : ∀ value line, single (.returns value line))
    (score : ∀ value line, single (.score value line))
    (call : ∀ site line, single (.call site line))
    (nil : motive []) (cons : ∀ s rest, single s → motive rest → motive (s :: rest))
    (block : List Stmt) : motive block := by
  apply @Stmt.rec_1 single motive fun elseBody => ∀ body, elseBody = some body → motive body
  · exact declare
  · exact assign
  · intro condition thenBody elseBody line hthen helse
    cases elseBody with
    | none => exact ifThen condition thenBody line hthen
    | some elseBody => exact ifElse condition thenBody elseBody line hthen (helse elseBody rfl)
  · exact whileDo
  · exact forAll
  · exact returns
  · exact score
  · exact call
  · exact nil
  · exact cons
  · simp
  · rintro body hbody _ ⟨⟩
    exact hbody

end Stmt

namespace Definition

def stmts : Definition → List Stmt
  | .global _ => []
  | .function f => Stmt.blockParts f.body
  | .rule r => Stmt.blockParts r.body

/-- The expressions of a definition, without those inside them. -/
def exprs : Definition → List Expr
  | .global g => [g.value]
  | .function f => (Stmt.blockParts f.body).flatMap Stmt.exprs
  | .rule r => r.guard.toList ++ (Stmt.blockParts r.body).flatMap Stmt.exprs

end Definition

namespace Program

def stmts (p : Program) : List Stmt :=
  p.definitions.flatMap Definition.stmts

/-- The expressions of a program, without those inside them. -/
def exprs (p : Program) : List Expr :=
  p.definitions.flatMap Definition.exprs

def nodes (p : Program) : List Expr :=
  p.exprs.flatMap Expr.nodes

lemma child_mem_nodes {p : Program} (hc : c ∈ n.children) (hn : n ∈ p.nodes) : c ∈ p.nodes := by
  obtain ⟨e, he, hne⟩ := mem_flatMap.mp hn
  exact mem_flatMap.mpr ⟨e, he, Expr.child_mem_nodes hc hne⟩

section Definitions

variable {p : Program}

lemma mem_globals {g : GlobalDef} : g ∈ p.globals ↔ .global g ∈ p.definitions := by
  rw [globals, mem_filterMap]
  constructor
  · rintro ⟨_ | _ | _, hd, hg⟩ <;> cases hg
    exact hd
  · exact fun h => ⟨_, h, rfl⟩

lemma mem_functions {f : FunctionDef} : f ∈ p.functions ↔ .function f ∈ p.definitions := by
  rw [functions, mem_filterMap]
  constructor
  · rintro ⟨_ | _ | _, hd, hf⟩ <;> cases hf
    exact hd
  · exact fun h => ⟨_, h, rfl⟩

lemma mem_rules {r : RuleDef} : r ∈ p.rules ↔ .rule r ∈ p.definitions := by
  rw [rules, mem_filterMap]
  constructor
  · rintro ⟨_ | _ | _, hd, hr⟩ <;> cases hr
    exact hd
  · exact fun h => ⟨_, h, rfl⟩

lemma mem_stmts {s : Stmt} :
    s ∈ p.stmts ↔ (∃ f ∈ p.functions, s ∈ Stmt.blockParts f.body) ∨
      ∃ r ∈ p.rules, s ∈ Stmt.blockParts r.body := by
  rw [stmts, mem_flatMap]
  constructor
  · rintro ⟨g | f | r, hd, hs⟩
    · cases hs
    · exact .inl ⟨f, mem_functions.mpr hd, hs⟩
    · exact .inr ⟨r, mem_rules.mpr hd, hs⟩
  · rintro (⟨f, hf, hs⟩ | ⟨r, hr, hs⟩)
    · exact ⟨_, mem_functions.mp hf, hs⟩
    · exact ⟨_, mem_rules.mp hr, hs⟩

/-- An expression of a program is the value of a global, the guard of a rule or part of a statement. -/
lemma mem_exprs :
    e ∈ p.exprs ↔ (∃ g ∈ p.globals, e = g.value) ∨ (∃ r ∈ p.rules, e ∈ r.guard) ∨
      ∃ s ∈ p.stmts, e ∈ s.exprs := by
  rw [exprs, mem_flatMap]
  constructor
  · rintro ⟨g | f | r, hd, he⟩
    · exact .inl ⟨g, mem_globals.mpr hd, mem_singleton.mp he⟩
    · obtain ⟨s, hs, he⟩ := mem_flatMap.mp he
      exact .inr (.inr ⟨s, mem_stmts.mpr (.inl ⟨f, mem_functions.mpr hd, hs⟩), he⟩)
    · rcases mem_append.mp he with he | he
      · exact .inr (.inl ⟨r, mem_rules.mpr hd, Option.mem_toList.mp he⟩)
      · obtain ⟨s, hs, he⟩ := mem_flatMap.mp he
        exact .inr (.inr ⟨s, mem_stmts.mpr (.inr ⟨r, mem_rules.mpr hd, hs⟩), he⟩)
  · rintro (⟨g, hg, rfl⟩ | ⟨r, hr, he⟩ | ⟨s, hs, he⟩)
    · exact ⟨_, mem_globals.mp hg, mem_singleton_self _⟩
    · exact ⟨_, mem_rules.mp hr, mem_append_left _ (Option.mem_toList.mpr he)⟩
    · rcases mem_stmts.mp hs with ⟨f, hf, hs⟩ | ⟨r, hr, hs⟩
      · exact ⟨_, mem_functions.mp hf, mem_flatMap.mpr ⟨s, hs, he⟩⟩
      · exact ⟨_, mem_rules.mp hr, mem_append_right _ (mem_flatMap.mpr ⟨s, hs, he⟩)⟩

end Definitions

def definitionIds (d : Definition) : List Nat :=
  d.exprs.flatMap Expr.ids

lemma perm_definitions (ds : List Definition) :
    (ds.flatMap definitionIds).Perm
      ((ds.filterMap Definition.global?).flatMap (fun g => g.value.ids) ++
        ((ds.filterMap Definition.function?).flatMap (fun f => Stmt.blockIds f.body) ++
          (ds.filterMap Definition.rule?).flatMap
            fun r => r.guard.toList.flatMap Expr.ids ++ Stmt.blockIds r.body)) := by
  induction ds with
  | nil => exact .refl _
  | cons d rest ih =>
    rw [flatMap_cons]
    cases d with
    | global g =>
      have hids : definitionIds (.global g) = g.value.ids := by simp [definitionIds, Definition.exprs]
      simp only [hids, filterMap_cons, Definition.global?, Definition.function?,
        Definition.rule?, flatMap_cons, append_assoc]
      exact ih.append_left _
    | function f =>
      have hids : definitionIds (.function f) = Stmt.blockIds f.body := rfl
      simp only [hids, filterMap_cons, Definition.global?, Definition.function?,
        Definition.rule?, flatMap_cons, append_assoc]
      exact (ih.append_left _).trans (perm_append_comm_assoc _ _ _)
    | rule r =>
      have hids : definitionIds (.rule r) =
          r.guard.toList.flatMap Expr.ids ++ Stmt.blockIds r.body := by
        simp [definitionIds, Definition.exprs, Stmt.blockIds]
      rw [hids]
      simp only [filterMap_cons, Definition.global?, Definition.function?,
        Definition.rule?, flatMap_cons]
      refine (ih.append_left _).trans ((perm_append_comm_assoc _ _ _).trans ?_)
      exact (perm_append_comm_assoc _ _ _).append_left _

lemma map_id_nodes (p : Program) : p.nodes.map Expr.id = p.definitions.flatMap definitionIds := by
  simp only [nodes, exprs, map_flatMap, flatMap_assoc]
  rfl

end Program

end ChessEval
