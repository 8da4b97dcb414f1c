import ChessEval.Proofs.Generation
import ChessEval.Proofs.Recording

/-!
# Types that become known

Inference asks for known types only at empty lists and at the sources of loops. Where no type is generic
after the check, this decides all others: every expression takes its type from a node that is no result of
an operator on unknown values.
-/

namespace ChessEval

/-- Whether `generic` stands anywhere inside a type. -/
def Ty.containsGeneric : Ty → Bool
  | .generic => true
  | .array element => element.containsGeneric
  | _ => false

lemma Expr.origin_mem_nodes (types : TypeTable) (e : Expr) : e.origin types ∈ e.nodes := by
  induction e using Expr.children_induction with
  | step e ih =>
    cases e with
    | binary m operator left right =>
      cases operator with
      | concat =>
        rw [origin]
        split
        · exact mem_nodes_of_child (by simp [children]) (ih left (by simp [children]))
        · exact self_mem_nodes _
      | _ => exact self_mem_nodes _
    | index m base position =>
      exact mem_nodes_of_child (by simp [children]) (ih base (by simp [children]))
    | list m elements =>
      cases elements with
      | nil => exact self_mem_nodes _
      | cons first rest =>
        exact mem_nodes_of_child (by simp [children]) (ih first (by simp [children]))
    | _ => exact self_mem_nodes _

namespace Program

variable {limit : Nat} {a : Analysis} {p : Program} {u : Unifier}

lemma Inferred.isResolved_of_not_containsGeneric (h : p.Inferred limit a u)
    (hgeneric : ∀ id type, a.types.get? id = some type → type.containsGeneric = false) {n : Expr}
    (hn : n ∈ p.nodes) : (u.typeAt n.id).isResolved = true := by
  refine (h.isResolved_iff_origin hn).mpr fun hundetermined => ?_
  have horigin : n.origin a.types ∈ p.nodes := by
    obtain ⟨e, he, hn⟩ := List.mem_flatMap.mp hn
    exact List.mem_flatMap.mpr ⟨e, he, Expr.mem_nodes_trans (n.origin_mem_nodes a.types) hn⟩
  cases hnode : n.origin a.types with
  | binary m operator left right =>
    rw [hnode] at hundetermined horigin
    obtain ⟨Γ, hΓ⟩ := h.typed.node horigin
    obtain ⟨type, htype⟩ := hΓ.recorded
    have hsame : type = .generic := (TypeTable.typeOf_eq htype).symm.trans hundetermined.1
    subst hsame
    cases hgeneric _ _ htype
  | _ =>
    rw [hnode] at hundetermined
    exact hundetermined

/-- Where the check leaves no generic type, inference without errors leaves no placeholder: every node has
a type, and every type is known. -/
theorem inferred_types_known {tokens : List Token} {file : String} {ds ds' ds'' : Diagnostics}
    {a' : Analysis} (hread : (Program.ofTokens tokens file).1 = .ok p) (hcheck : p.check ds = (a, ds'))
    (hclean : ds'.errors = [])
    (hgeneric : ∀ id type, a.types.get? id = some type → type.containsGeneric = false)
    (hinfer : a.inferWithin limit p ds' = some (a', ds'')) (hclean' : ds''.errors = []) :
    (∀ id type, a'.types.get? id = some type → type.isResolved = true) ∧
      ∀ n ∈ p.nodes, ∃ type, a'.types.get? n.id = some type := by
  obtain ⟨u, hinferred, rfl⟩ := inferred_of_infer hread hcheck hclean hinfer hclean'
  refine ⟨fun id type htype => ?_, fun n hn => ⟨_, hinferred.get?_withTypes hn⟩⟩
  have hold : ∃ type, a.types.get? id = some type := by
    rw [Analysis.withTypes, Analysis.get?_writeBack] at htype
    split at htype
    · exact Option.isSome_iff_exists.mp ‹_ ∧ _›.2
    · exact ⟨type, htype⟩
  obtain ⟨old, hold⟩ := hold
  obtain ⟨n, hn, rfl⟩ := (p.recorded_of_check hcheck hclean).types id old hold
  rw [hinferred.get?_withTypes hn] at htype
  cases htype
  exact hinferred.isResolved_of_not_containsGeneric hgeneric hn

theorem inferred_types_known_nested :
    ∃ tokens p a ds a' ds',
      Token.ofSource "rule r \x7b forall (x in [[]] ++ [[]]) \x7b num[] y := x; score y[0]; \x7d \x7d" "" =
        .ok tokens ∧
      (Program.ofTokens tokens "").1 = .ok p ∧ p.check {} = (a, ds) ∧ ds.errors = [] ∧
      (∀ id type, a.types.get? id = some type → type.containsGeneric = false) ∧
      a.inferWithin 5 p ds = some (a', ds') ∧ ds'.errors = [] ∧
      (∀ id type, a'.types.get? id = some type → type.isResolved = true) ∧
      ∃ n ∈ p.nodes, a.types.get? n.id = some (.array .emptyArray) ∧
        a'.types.get? n.id = some (.array (.array .num)) := by
  have hrun : Program.infersWith
      "rule r \x7b forall (x in [[]] ++ [[]]) \x7b num[] y := x; score y[0]; \x7d \x7d" 5
      (fun p a a' => decide (∀ n ∈ p.nodes, (a.types.typeOf n.id).containsGeneric = false) &&
        decide (∃ n ∈ p.nodes, a.types.get? n.id = some (.array .emptyArray) ∧
          a'.types.get? n.id = some (.array (.array .num)))) = true := by
    decide +kernel
  obtain ⟨tokens, p, a, ds, a', ds', htokens, hread, hcheck, hclean, hinfer, hclean', htest⟩ :=
    Program.of_infersWith hrun
  obtain ⟨hnodes, hlists⟩ := (Bool.and_eq_true _ _).mp htest
  have hgeneric : ∀ id type, a.types.get? id = some type → type.containsGeneric = false := by
    intro id type htype
    obtain ⟨n, hn, rfl⟩ := (p.recorded_of_check hcheck hclean).types id type htype
    rw [← TypeTable.typeOf_eq htype]
    exact of_decide_eq_true hnodes n hn
  obtain ⟨hknown, -⟩ := inferred_types_known hread hcheck hclean hgeneric hinfer hclean'
  exact ⟨tokens, p, a, ds, a', ds', htokens, hread, hcheck, hclean, hgeneric, hinfer, hclean', hknown,
    of_decide_eq_true hlists⟩

end Program

end ChessEval
