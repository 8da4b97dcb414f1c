import ChessEval.Proofs.Guards

/-!
# Well-typed programs

The operators of a program accept the types that inference ends with, and so do its statements, wherever
the analysis knew something about the operands. An operand or a condition that was `generic` is the one
thing that no constraint speaks of: there the final types may not fit.
-/

namespace ChessEval

instance decidableExistsOk {ε α : Type} (x : Except ε α) (P : α → Prop) [DecidablePred P] :
    Decidable (∃ y, x = .ok y ∧ P y) :=
  match x with
  | .ok y => decidable_of_iff (P y) (by simp)
  | .error _ => .isFalse (by simp)

namespace Expr

/-- An operator accepts its operands and has its result type, and elements have the type that their list
has elements of. -/
def Fits (types : TypeTable) : Expr → Prop
  | .binary m operator left right =>
    ∃ type, operator.type (types.typeOf left.id) (types.typeOf right.id) = .ok type ∧
      type.unifies (types.typeOf m.id) = true
  | .unary m operator operand =>
    ∃ type, operator.type (types.typeOf operand.id) = .ok type ∧
      type.unifies (types.typeOf m.id) = true
  | .list m elements => ∀ e ∈ elements, types.typeOf m.id = .array (types.typeOf e.id)
  | _ => True

/-- An operator with an operand of unknown type, of which it says nothing. -/
def Loose (types : TypeTable) : Expr → Prop
  | .binary _ operator left right =>
    operator ≠ .elementOf ∧ (types.typeOf left.id = .generic ∨ types.typeOf right.id = .generic)
  | .unary _ _ operand => types.typeOf operand.id = .generic
  | _ => False

instance (types : TypeTable) : (n : Expr) → Decidable (n.Fits types)
  | .binary m operator left right =>
    decidableExistsOk (operator.type (types.typeOf left.id) (types.typeOf right.id))
      fun type => type.unifies (types.typeOf m.id) = true
  | .unary m operator operand =>
    decidableExistsOk (operator.type (types.typeOf operand.id))
      fun type => type.unifies (types.typeOf m.id) = true
  | .list m elements =>
    inferInstanceAs (Decidable (∀ e ∈ elements, types.typeOf m.id = .array (types.typeOf e.id)))
  | .literal .. | .identifier .. | .call .. | .member .. | .index .. | .emptyList _ => .isTrue trivial

instance (types : TypeTable) : (n : Expr) → Decidable (n.Loose types)
  | .binary _ operator left right =>
    inferInstanceAs (Decidable (operator ≠ .elementOf ∧
      (types.typeOf left.id = .generic ∨ types.typeOf right.id = .generic)))
  | .unary _ _ operand => inferInstanceAs (Decidable (types.typeOf operand.id = .generic))
  | .literal .. | .identifier .. | .call .. | .member .. | .index .. | .list .. | .emptyList _ =>
    .isFalse fun h => h

end Expr

namespace Stmt

/-- Both sides of an assignment have the same type, conditions are truth values, and scores are
numbers. -/
def Fits (types : TypeTable) : Stmt → Prop
  | .assign target value _ => types.typeOf target.id = types.typeOf value.id
  | .ifThen condition _ _ _ | .whileDo condition _ _ => types.typeOf condition.id = .bool
  | .score value _ => types.typeOf value.id = .num
  | _ => True

/-- A statement with a condition of unknown type. -/
def Loose (types : TypeTable) : Stmt → Prop
  | .ifThen condition _ _ _ | .whileDo condition _ _ => types.typeOf condition.id = .generic
  | _ => False

instance (types : TypeTable) : (s : Stmt) → Decidable (s.Fits types)
  | .assign target value _ => inferInstanceAs (Decidable (types.typeOf target.id = types.typeOf value.id))
  | .ifThen condition _ _ _ | .whileDo condition _ _ =>
    inferInstanceAs (Decidable (types.typeOf condition.id = .bool))
  | .score value _ => inferInstanceAs (Decidable (types.typeOf value.id = .num))
  | .declare .. | .forAll .. | .returns .. | .call .. => .isTrue trivial

instance (types : TypeTable) : (s : Stmt) → Decidable (s.Loose types)
  | .ifThen condition _ _ _ | .whileDo condition _ _ =>
    inferInstanceAs (Decidable (types.typeOf condition.id = .generic))
  | .declare .. | .assign .. | .forAll .. | .returns .. | .score .. | .call .. =>
    .isFalse fun h => h

end Stmt

/-- All nodes, statements and guards of a program fit the given types. -/
structure Program.WellTyped (types : TypeTable) (p : Program) : Prop where
  nodes : ∀ n ∈ p.nodes, n.Fits types
  stmts : ∀ s ∈ p.stmts, s.Fits types
  guards : ∀ r ∈ p.rules, ∀ e ∈ r.guard, types.typeOf e.id = .bool

section Operands

variable {p : Program} {m : Mark} {operator : BinaryOp} {left right : Expr}
  (hn : .binary m operator left right ∈ p.nodes)
include hn

lemma Program.left_mem_nodes : left ∈ p.nodes :=
  child_mem_nodes (by simp [Expr.children]) hn

lemma Program.right_mem_nodes : right ∈ p.nodes :=
  child_mem_nodes (by simp [Expr.children]) hn

end Operands

namespace Program.Solved

variable {limit : Nat} {a : Analysis} {p : Program} {u : Unifier} (h : p.Solved limit a u)
include h

section Binary

variable {m : Mark} {operator : BinaryOp} {left right : Expr} {result : Ty}
  (hn : .binary m operator left right ∈ p.nodes)
include hn

lemma fits_numeric (hleft : (a.types.typeOf left.id).isNumeric = true)
    (hright : (a.types.typeOf right.id).isNumeric = true) (hl : a.types.typeOf left.id ≠ .generic)
    (hr : a.types.typeOf right.id ≠ .generic) :
    u.typeAt left.id = a.types.typeOf left.id ∧ u.typeAt right.id = a.types.typeOf right.id :=
  ⟨h.eq_of_known (left_mem_nodes hn) rfl ((Ty.isNumeric_cases hleft).resolve_left hl),
    h.eq_of_known (right_mem_nodes hn) rfl ((Ty.isNumeric_cases hright).resolve_left hr)⟩

lemma fits_equality (hoperator : operator = .equal ∨ operator = .notEqual)
    (hok : (a.types.typeOf left.id).equality (a.types.typeOf right.id) = .ok result)
    (hl : a.types.typeOf left.id ≠ .generic) (hr : a.types.typeOf right.id ≠ .generic) :
    (u.typeAt left.id).equality (u.typeAt right.id) = .ok result := by
  obtain ⟨hcomparable, hbool⟩ := Ty.equality_ok hok
  by_cases hshape : (a.types.typeOf left.id).isArrayShape = true ∧
      (a.types.typeOf right.id).isArrayShape = true
  · have hequal : u.typeAt left.id = u.typeAt right.id :=
      h.holds hn (k := .equal left.id right.id)
        (Expr.mem_operatorConstraints.mpr (.inl ⟨hoperator, hshape.1, hshape.2, rfl⟩))
    have hfinal := Ty.isArrayShape_mono (h.initial (right_mem_nodes hn)) hshape.2
    rw [hequal, Ty.equality, if_pos, hbool]
    rw [Ty.comparable_of_isArrayShape hfinal hfinal]
    exact Ty.unifies_of_le le_rfl
  · obtain ⟨hleft, hright⟩ := Ty.isResolved_of_comparable hcomparable hl hr hshape
    rw [h.eq_of_known (left_mem_nodes hn) rfl hleft, h.eq_of_known (right_mem_nodes hn) rfl hright, hok]

lemma fits_concat (hoperator : operator = .concat)
    (hok : (a.types.typeOf left.id).concatenation (a.types.typeOf right.id) = .ok (a.types.typeOf m.id))
    (hl : a.types.typeOf left.id ≠ .generic) (hr : a.types.typeOf right.id ≠ .generic) :
    (u.typeAt left.id).concatenation (u.typeAt right.id) = .ok (u.typeAt m.id) := by
  rcases Ty.concatenation_ok hok with ⟨-, hgeneric⟩ | ⟨hresult, -, -, hstring⟩ | ⟨hresult, hunifies, hs, ht⟩
  · exact absurd hgeneric (not_or.mpr ⟨hl, hr⟩)
  · have hfinal : u.typeAt m.id = .string := h.eq_of_known hn hresult rfl
    have hl' := Ty.ne_generic_mono (h.initial (left_mem_nodes hn)) hl
    have hr' := Ty.ne_generic_mono (h.initial (right_mem_nodes hn)) hr
    rw [hfinal]
    rcases hstring with hstring | hstring
    · rw [h.eq_of_known (left_mem_nodes hn) hstring rfl]
      exact Ty.concatenation_string_left hr'
    · rw [h.eq_of_known (right_mem_nodes hn) hstring rfl]
      exact Ty.concatenation_string_right hl'
  · have hshape : (a.types.typeOf m.id).isArrayShape = true := by
      rw [hresult]
      exact Ty.isArrayShape_mono (Ty.le_merge_left hunifies) hs
    have hleft : u.typeAt left.id = u.typeAt m.id := h.holds hn (k := .equal left.id m.id)
      (Expr.mem_operatorConstraints.mpr (.inr (.inr ⟨hoperator, hshape, .inl rfl⟩)))
    have hright : u.typeAt right.id = u.typeAt m.id := h.holds hn (k := .equal right.id m.id)
      (Expr.mem_operatorConstraints.mpr (.inr (.inr ⟨hoperator, hshape, .inr rfl⟩)))
    rw [hleft, hright]
    exact Ty.concatenation_self (Ty.isArrayShape_mono (h.initial hn) hshape)

/-- A binary operator fits its final types if neither operand was unknown, and a search always does. -/
lemma fits_binary (hloose : ¬(Expr.binary m operator left right).Loose a.types) :
    ∃ type, operator.type (u.typeAt left.id) (u.typeAt right.id) = .ok type ∧
      type.unifies (u.typeAt m.id) = true := by
  obtain ⟨Γ, result, hok, htype⟩ := h.typed.node hn
  have hm : a.types.typeOf m.id = result := TypeTable.typeOf_eq htype
  have hresult : result.unifies (u.typeAt m.id) = true := Ty.unifies_of_le (hm ▸ h.initial hn)
  by_cases hoperator : operator = .elementOf
  · subst hoperator
    have helement : u.typeAt right.id = .array (u.typeAt left.id) :=
      h.holds hn (k := .element right.id left.id) (List.mem_singleton_self _)
    obtain ⟨-, rfl⟩ := Ty.membership_ok hok
    refine ⟨.bool, ?_, ?_⟩
    · simp only [BinaryOp.type, Ty.membership, helement, Ty.element?]
      rw [if_pos (Ty.unifies_of_le le_rfl)]
    · exact hresult
  · obtain ⟨hl, hr⟩ : a.types.typeOf left.id ≠ .generic ∧ a.types.typeOf right.id ≠ .generic := by
      simpa [Expr.Loose, hoperator] using hloose
    have hsame : u.typeAt left.id = a.types.typeOf left.id → u.typeAt right.id = a.types.typeOf right.id →
        ∃ type, operator.type (u.typeAt left.id) (u.typeAt right.id) = .ok type ∧
          type.unifies (u.typeAt m.id) = true := by
      intro hleft hright
      rw [hleft, hright]
      exact ⟨result, hok, hresult⟩
    cases operator with
    | or | and =>
      obtain ⟨hleft, hright, -⟩ := Ty.logical_ok hok
      have hl := (Ty.isBool_cases hleft).resolve_left hl
      have hr := (Ty.isBool_cases hright).resolve_left hr
      exact hsame (by rw [hl, h.eq_of_known (left_mem_nodes hn) hl rfl])
        (by rw [hr, h.eq_of_known (right_mem_nodes hn) hr rfl])
    | less | lessEqual | greater | greaterEqual =>
      obtain ⟨hleft, hright, -⟩ := Ty.ordered_ok hok
      obtain ⟨hleft, hright⟩ := h.fits_numeric hn hleft hright hl hr
      exact hsame hleft hright
    | add | subtract | multiply | divide =>
      obtain ⟨hleft, hright, -⟩ := Ty.arithmetic_ok hok
      obtain ⟨hleft, hright⟩ := h.fits_numeric hn hleft hright hl hr
      exact hsame hleft hright
    | equal => exact ⟨result, h.fits_equality hn (.inl rfl) hok hl hr, hresult⟩
    | notEqual => exact ⟨result, h.fits_equality hn (.inr rfl) hok hl hr, hresult⟩
    | elementOf => exact absurd rfl hoperator
    | concat => exact ⟨_, h.fits_concat hn rfl (hm ▸ hok) hl hr, Ty.unifies_of_le le_rfl⟩

end Binary

lemma fits_unary {m : Mark} {operator : UnaryOp} {operand : Expr}
    (hn : .unary m operator operand ∈ p.nodes)
    (hloose : ¬(Expr.unary m operator operand).Loose a.types) :
    ∃ type, operator.type (u.typeAt operand.id) = .ok type ∧ type.unifies (u.typeAt m.id) = true := by
  obtain ⟨Γ, result, hok, htype⟩ := h.typed.node hn
  have hm : a.types.typeOf m.id = result := TypeTable.typeOf_eq htype
  have hmem : operand ∈ p.nodes := child_mem_nodes (by simp [Expr.children]) hn
  rw [h.eq_of_known hmem rfl (UnaryOp.isResolved_of_ne_generic hok hloose)]
  exact ⟨result, hok, Ty.unifies_of_le (hm ▸ h.initial hn)⟩

/-- Every node fits its final types unless the analysis knew nothing of an operand. -/
theorem fits_node {n : Expr} (hn : n ∈ p.nodes) (hloose : ¬n.Loose a.types) :
    n.Fits (a.withTypes p u).types := by
  have hchild : ∀ c ∈ n.children, (a.withTypes p u).types.typeOf c.id = u.typeAt c.id := fun c hc =>
    h.typeOf (child_mem_nodes hc hn)
  have hself := h.typeOf hn
  cases n with
  | binary m operator left right =>
    simp only [Expr.Fits, hchild left (by simp [Expr.children]), hchild right (by simp [Expr.children])]
    rw [show (a.withTypes p u).types.typeOf m.id = _ from hself]
    exact h.fits_binary hn hloose
  | unary m operator operand =>
    simp only [Expr.Fits, hchild operand (by simp [Expr.children])]
    rw [show (a.withTypes p u).types.typeOf m.id = _ from hself]
    exact h.fits_unary hn hloose
  | list m elements =>
    intro e he
    rw [hchild e he, show (a.withTypes p u).types.typeOf m.id = _ from hself]
    exact h.holds hn (k := .element m.id e.id) (List.mem_map_of_mem he)
  | _ => trivial

lemma condition_bool {condition : Expr} (hmem : condition ∈ p.nodes)
    (hbool : (a.types.typeOf condition.id).isBool = true)
    (hloose : a.types.typeOf condition.id ≠ .generic) :
    (a.withTypes p u).types.typeOf condition.id = .bool := by
  rw [h.typeOf hmem]
  exact h.eq_of_known hmem ((Ty.isBool_cases hbool).resolve_left hloose) rfl

/-- Every statement fits its final types unless the analysis knew nothing of its condition. -/
theorem fits_stmt {s : Stmt} (hs : s ∈ p.stmts) (hloose : ¬s.Loose a.types) :
    s.Fits (a.withTypes p u).types := by
  have hexpr : ∀ e ∈ s.exprs, e ∈ p.nodes := fun e he =>
    List.mem_flatMap.mpr ⟨e, mem_exprs.mpr (.inr (.inr ⟨s, hs, he⟩)), e.self_mem_nodes⟩
  have hdemanded := (covered_of_collect h.wellFormed h.typed (a.nodeCount p)).2 s hs
  obtain ⟨Γ, htyped⟩ := h.typed.stmt hs
  cases s with
  | assign target value line =>
    change (a.withTypes p u).types.typeOf target.id = (a.withTypes p u).types.typeOf value.id
    rw [h.typeOf (hexpr target (by simp [Stmt.exprs])), h.typeOf (hexpr value (by simp [Stmt.exprs]))]
    exact h.solution.meets _ hdemanded
  | ifThen condition thenBody elseBody line =>
    refine h.condition_bool (hexpr condition (by simp [Stmt.exprs])) ?_ hloose
    cases elseBody with
    | none => exact htyped.2.1
    | some elseBody => exact htyped.2.1
  | whileDo condition body line =>
    exact h.condition_bool (hexpr condition (by simp [Stmt.exprs])) htyped.2.1 hloose
  | score value line =>
    change (a.withTypes p u).types.typeOf value.id = .num
    rw [h.typeOf (hexpr value (by simp [Stmt.exprs]))]
    exact Ty.eq_of_isResolved_of_le rfl (h.solution.meets _ hdemanded)
  | _ => trivial

end Program.Solved

/-- After checking and inference without errors a program is well typed exactly if the operators and the
conditions of which the analysis knew nothing fit their final types. -/
theorem Program.wellTyped_iff_loose {tokens : List Token} {file : String} {p : Program} {a a' : Analysis}
    {ds ds' ds'' : Diagnostics} {limit : Nat} (hread : (Program.ofTokens tokens file).1 = .ok p)
    (hcheck : p.check ds = (a, ds')) (hclean : ds'.errors = [])
    (hinfer : a.inferWithin limit p ds' = some (a', ds'')) (hclean' : ds''.errors = []) :
    p.WellTyped a'.types ↔ (∀ n ∈ p.nodes, n.Loose a.types → n.Fits a'.types) ∧
      ∀ s ∈ p.stmts, s.Loose a.types → s.Fits a'.types := by
  obtain ⟨u, h, rfl⟩ := Program.inferred_of_infer hread hcheck hclean hinfer hclean'
  constructor
  · intro hwell
    exact ⟨fun n hn _ => hwell.nodes n hn, fun s hs _ => hwell.stmts s hs⟩
  · rintro ⟨hnodes, hstmts⟩
    refine ⟨fun n hn => ?_, fun s hs => ?_, fun r hr e he => ?_⟩
    · by_cases hloose : n.Loose a.types
      · exact hnodes n hn hloose
      · exact h.fits_node hn hloose
    · by_cases hloose : s.Loose a.types
      · exact hstmts s hs hloose
      · exact h.fits_stmt hs hloose
    · exact h.guard_bool hr he

/-- A loop variable that becomes a number fits a sum, a comparison and a search. -/
theorem Program.wellTyped_iff_loose_number :
    ∃ tokens p a ds a' ds',
      Token.ofSource
        "rule r \x7b forall (x in []) \x7b x := 1; if (x < 2 and x in [3]) \x7b score x + 1; \x7d \x7d \x7d" "" =
        .ok tokens ∧
      (Program.ofTokens tokens "").1 = .ok p ∧ p.check {} = (a, ds) ∧ ds.errors = [] ∧
      a.inferWithin 3 p ds = some (a', ds') ∧ ds'.errors = [] ∧ (∃ n ∈ p.nodes, n.Loose a.types) ∧
      p.WellTyped a'.types := by
  have hrun : Program.infersWith
      "rule r \x7b forall (x in []) \x7b x := 1; if (x < 2 and x in [3]) \x7b score x + 1; \x7d \x7d \x7d" 3
      (fun p a a' => decide ((∃ n ∈ p.nodes, n.Loose a.types) ∧
        (∀ n ∈ p.nodes, n.Loose a.types → n.Fits a'.types) ∧
          ∀ s ∈ p.stmts, s.Loose a.types → s.Fits a'.types)) = true := by decide +kernel
  obtain ⟨tokens, p, a, ds, a', ds', htokens, hread, hcheck, hclean, hinfer, hclean', htest⟩ :=
    Program.of_infersWith hrun
  obtain ⟨hloose, hfits⟩ := of_decide_eq_true htest
  exact ⟨tokens, p, a, ds, a', ds', htokens, hread, hcheck, hclean, hinfer, hclean', hloose,
    (Program.wellTyped_iff_loose hread hcheck hclean hinfer hclean').mpr hfits⟩

/-- A loop variable that becomes a number passes as a condition. -/
theorem Program.number_condition_not_wellTyped :
    ∃ tokens p a ds a' ds',
      Token.ofSource "rule r \x7b forall (x in []) \x7b x := 1; if (x) \x7b score 1; \x7d \x7d \x7d" "" =
        .ok tokens ∧
      (Program.ofTokens tokens "").1 = .ok p ∧ p.check {} = (a, ds) ∧ ds.errors = [] ∧
      a.inferWithin 3 p ds = some (a', ds') ∧ ds'.errors = [] ∧ ¬p.WellTyped a'.types := by
  have hrun : Program.infersWith
      "rule r \x7b forall (x in []) \x7b x := 1; if (x) \x7b score 1; \x7d \x7d \x7d" 3
      (fun p _ a' => decide (¬∀ s ∈ p.stmts, s.Fits a'.types)) = true := by decide +kernel
  obtain ⟨tokens, p, a, ds, a', ds', htokens, hread, hcheck, hclean, hinfer, hclean', htest⟩ :=
    Program.of_infersWith hrun
  have hunfit := of_decide_eq_true htest
  exact ⟨tokens, p, a, ds, a', ds', htokens, hread, hcheck, hclean, hinfer, hclean',
    fun hwell => hunfit hwell.stmts⟩

end ChessEval
