import ChessEval.Proofs.GrammarPrograms
import ChessEval.Token.Scan
import Mathlib.Data.List.Nodup

/-!
# Numbers of the nodes that are read

A reader of the grammar numbers every node it builds with the next free number. The expressions read so far are
tracked through each reader: their nodes have increasing numbers below the next free one, and no list literal
among them is without elements.
-/

namespace ChessEval

open List

variable {e : Expr} {type : Ty} {p : Program}

/-- A list literal has elements; `[]` is a form of its own. -/
def Expr.Filled : Expr → Prop
  | .list _ elements => elements ≠ []
  | _ => True

/-- The type that a statement gives to variables. -/
def Stmt.declared : Stmt → List Ty
  | .declare type _ _ => [type]
  | _ => []

def Definition.declared : Definition → List Ty
  | .global g => [g.type]
  | .function f =>
    f.returnType :: (f.params.map Param.type ++ (Stmt.blockParts f.body).flatMap Stmt.declared)
  | .rule r => (Stmt.blockParts r.body).flatMap Stmt.declared

lemma Expr.Printable.filled (h : e.Printable) : e.Filled := by
  cases e with
  | list mark elements => exact h
  | _ => trivial

lemma Stmt.Printable.resolved {s : Stmt} (h : s.Printable) (htype : type ∈ s.declared) : type.isResolved = true := by
  cases s with
  | declare declared declarators line =>
    rw [mem_singleton.mp htype]
    exact h.1.1
  | _ => cases htype

lemma Stmt.resolved_of_printable {parts : List Stmt} (h : ∀ part ∈ parts, part.Printable)
    (htype : type ∈ parts.flatMap Stmt.declared) : type.isResolved = true := by
  obtain ⟨part, hpart, htype⟩ := mem_flatMap.mp htype
  exact (h part hpart).resolved htype

lemma Definition.Printable.resolved {d : Definition} (h : d.Printable) (htype : type ∈ d.declared) :
    type.isResolved = true := by
  cases d with
  | global g =>
    rw [mem_singleton.mp htype]
    exact h.1
  | function f =>
    rcases mem_cons.mp htype with rfl | htype
    · exact h.1
    rcases mem_append.mp htype with htype | htype
    · obtain ⟨p, hp, rfl⟩ := mem_map.mp htype
      exact (h.2.1 p hp).1
    · exact Stmt.resolved_of_printable h.2.2 htype
  | rule r => exact Stmt.resolved_of_printable h htype

/-- Expressions whose nodes have increasing numbers below the next free one. -/
structure Tracked (next : Nat) (es : List Expr) : Prop where
  below : ∀ id ∈ es.flatMap Expr.ids, id < next
  increasing : (es.flatMap Expr.ids).Pairwise (· < ·)
  filled : ∀ e ∈ es, ∀ n ∈ e.nodes, n.Filled

namespace Tracked

variable {next : Nat} {es before : List Expr}

lemma nil (next : Nat) : Tracked next [] :=
  ⟨by simp, by simp, by simp⟩

lemma sublist {es' : List Expr} (h : Tracked next es) (hsub : es'.Sublist es) : Tracked next es' :=
  ⟨fun id hid => h.below id ((hsub.flatMap _).subset hid),
    h.increasing.sublist (hsub.flatMap _), fun e he => h.filled e (hsub.subset he)⟩

lemma build (h : Tracked next (before ++ e.children)) (hid : e.id = next) (hfilled : e.Filled) :
    Tracked (next + 1) (before ++ [e]) := by
  have hids : (before ++ [e]).flatMap Expr.ids =
      (before ++ e.children).flatMap Expr.ids ++ [next] := by
    simp [e.ids_eq, hid]
  refine ⟨?_, ?_, Expr.forall_nodes_of_children h.filled hfilled⟩
  · intro id hmem
    rw [hids, mem_append, mem_singleton] at hmem
    rcases hmem with hmem | rfl
    · exact Nat.lt_succ_of_lt (h.below id hmem)
    · exact Nat.lt_succ_self id
  · rw [hids, pairwise_append]
    refine ⟨h.increasing, pairwise_singleton _ _, ?_⟩
    intro id hmem _ hlast
    rw [mem_singleton.mp hlast]
    exact h.below id hmem

end Tracked

/-- Every node that is built takes the next free number. -/
instance Tracked.carried : Carried fun s es => Tracked s.nextId es where
  steady _ hid h := hid ▸ h
  node hid hprintable _ h := h.build hid hprintable.filled
  call hid h := (h.sublist ((sublist_cons_self _ _).append_left _)).build hid trivial

/-- What reading gives a program: distinct numbers for its nodes, elements in every list literal, and
declared types without placeholders. -/
structure Program.WellFormed (p : Program) : Prop where
  below : ∀ n ∈ p.nodes, n.id < p.exprCount
  increasing : (p.nodes.map Expr.id).Pairwise (· < ·)
  filled : ∀ n ∈ p.nodes, n.Filled
  resolved : ∀ d ∈ p.definitions, ∀ type ∈ d.declared, type.isResolved = true

lemma Program.WellFormed.nodup (h : p.WellFormed) : (p.nodes.map Expr.id).Nodup :=
  h.increasing.imp Nat.ne_of_lt

lemma Program.WellFormed.eq_of_id (h : p.WellFormed) {n n' : Expr} (hn : n ∈ p.nodes) (hn' : n' ∈ p.nodes)
    (hid : n.id = n'.id) : n = n' :=
  inj_on_of_nodup_map h.nodup hn hn' hid

lemma Program.map_id_exprs (p : Program) : p.nodes.map Expr.id = p.exprs.flatMap Expr.ids := by
  rw [Program.nodes, map_flatMap]
  rfl

lemma Program.wellFormed_of_definitions (htracked : Tracked p.exprCount p.exprs)
    (hresolved : ∀ d ∈ p.definitions, ∀ type ∈ d.declared, type.isResolved = true) : p.WellFormed := by
  refine ⟨?_, p.map_id_exprs ▸ htracked.increasing, ?_, hresolved⟩
  · intro n hn
    exact htracked.below n.id (p.map_id_exprs ▸ mem_map_of_mem hn)
  · intro n hn
    obtain ⟨e, he, hne⟩ := mem_flatMap.mp hn
    exact htracked.filled e he n hne

/-- A program that has been read is well formed. -/
theorem Program.wellFormed_of_ofTokens {tokens : List Token} {file : String}
    (h : (Program.ofTokens tokens file).1 = .ok p) : p.WellFormed := by
  obtain ⟨htracked, -, hcount, hprintable⟩ :=
    Parse.reads_program (fun s es => Tracked s.nextId es) (Tracked.nil _) (Prod.ext h rfl)
  apply wellFormed_of_definitions (hcount ▸ htracked)
  intro d hd type htype
  exact (hprintable d hd).resolved htype

/-- The next free number counts the nodes, and a call twice, since the name before its arguments has taken
a number as well. -/
def Counted (next : Nat) (es : List Expr) : Prop :=
  next = (es.flatMap Expr.nodes).length + (es.flatMap Expr.nodes).countP Expr.hasCallee

lemma Expr.nodes_in_place (before : List Expr) (e : Expr) :
    (before ++ [e]).flatMap nodes = (before ++ e.children).flatMap nodes ++ [e] := by
  simp only [flatMap_append, flatMap_singleton, nodes_eq e, append_assoc]

instance Counted.carried : Carried fun s es => Counted s.nextId es where
  steady _ hid h := hid ▸ h
  node {s before e} _ _ hcallee h := by
    have hone : [e].countP Expr.hasCallee = 0 := by simp [hcallee]
    change s.nextId + 1 = _
    rw [e.nodes_in_place, length_append, countP_append, hone, h]
    exact Nat.add_right_comm _ _ _
  call {s before es callee mark name} _ h := by
    -- the name gives way to the call, which counts twice
    have hname : (before ++ Expr.identifier callee name :: es).flatMap Expr.nodes =
        before.flatMap Expr.nodes ++ .identifier callee name :: es.flatMap Expr.nodes := by
      simp [Expr.nodes]
    change s.nextId + 1 = _
    rw [Expr.nodes_in_place, h, hname]
    simp only [Expr.children, Expr.hasCallee, flatMap_append, length_append, length_cons,
      length_nil, countP_append, countP_cons, countP_nil, Bool.false_eq_true, if_false, if_true]
    omega

theorem Program.counted_of_ofTokens {tokens : List Token} {file : String}
    (h : (Program.ofTokens tokens file).1 = .ok p) : p.exprCount = p.nodes.length + p.nodes.countP Expr.hasCallee := by
  have hstart : Counted (TokenStream.ofTokens tokens file).nextId [] := by
    unfold TokenStream.ofTokens
    split <;> rfl
  obtain ⟨hcounted, -, hcount, -⟩ :=
    Parse.reads_program (fun s es => Counted s.nextId es) hstart (Prod.ext h rfl)
  rw [hcount, hcounted]
  rfl

lemma Expr.child_lt_of_increasing (h : e.ids.Pairwise (· < ·)) : ∀ n ∈ e.nodes, ∀ c ∈ n.children, c.id < n.id := by
  induction e using Expr.children_induction with
  | step e ih =>
    rw [ids_eq, pairwise_append] at h
    obtain ⟨hchildren, -, hlast⟩ := h
    intro n hn c hc
    rcases mem_nodes.mp hn with rfl | ⟨d, hd, hnd⟩
    · exact hlast c.id (mem_flatMap.mpr ⟨c, hc, c.id_mem_ids⟩) n.id (mem_singleton_self _)
    · exact ih d hd ((pairwise_flatMap.mp hchildren).1 d hd) n hnd c hc

/-- The nodes of a program have increasing numbers in the order of the text, operands before what they
belong to, and the numbers that are not used are those of the names before the arguments of calls. -/
theorem Program.nodes_numbered_in_order {tokens : List Token} {file : String} {p : Program}
    (h : (Program.ofTokens tokens file).1 = .ok p) :
    (p.nodes.map Expr.id).Pairwise (· < ·) ∧ (∀ n ∈ p.nodes, n.id < p.exprCount) ∧
      (p.nodes.map Expr.id).Nodup ∧ (∀ n ∈ p.nodes, ∀ c ∈ n.children, c.id < n.id) ∧
      p.exprCount = p.nodes.length + p.nodes.countP Expr.hasCallee := by
  have hwf := wellFormed_of_ofTokens h
  refine ⟨hwf.increasing, hwf.below, hwf.nodup, fun n hn => ?_, counted_of_ofTokens h⟩
  obtain ⟨e, he, hne⟩ := mem_flatMap.mp hn
  have hids : e.ids.Pairwise (· < ·) :=
    (pairwise_flatMap.mp (p.map_id_exprs ▸ hwf.increasing)).1 e he
  exact e.child_lt_of_increasing hids n hne

theorem Program.nodes_numbered_in_order_calls :
    ∃ tokens p, Token.ofSource "num x := f(1, g(2)) + y.z; num w := -x;" "" = .ok tokens ∧
      (Program.ofTokens tokens "").1 = .ok p ∧
      (p.nodes.map Expr.id = [1, 3, 4, 5, 6, 7, 8, 9, 10] ∧ p.exprCount = 11) ∧
      (∀ n ∈ p.nodes, ∀ c ∈ n.children, c.id < n.id) ∧
      p.exprCount = p.nodes.length + p.nodes.countP Expr.hasCallee := by
  have hrun : ((Token.ofSource "num x := f(1, g(2)) + y.z; num w := -x;" "").toOption.any fun tokens =>
      (Program.ofTokens tokens "").1.toOption.any fun p =>
        p.nodes.map Expr.id = [1, 3, 4, 5, 6, 7, 8, 9, 10] ∧ p.exprCount = 11) = true := by
    decide +kernel
  obtain ⟨tokens, htokens, hrun⟩ := (Option.any_eq_true _ _).mp hrun
  obtain ⟨p, hread, htest⟩ := (Option.any_eq_true _ _).mp hrun
  have hread := ok_of_toOption hread
  obtain ⟨-, -, -, hchild, hcount⟩ := nodes_numbered_in_order hread
  exact ⟨tokens, p, ok_of_toOption htokens, hread, of_decide_eq_true htest, hchild, hcount⟩

end ChessEval
