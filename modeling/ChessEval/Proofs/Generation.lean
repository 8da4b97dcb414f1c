import ChessEval.Proofs.OperandTypes
import ChessEval.Proofs.Spelling

/-!
# Generation after inference

After inference without errors only the type of a list literal can be unknown, and only if the value that
decides it is the result of an operator with an operand of unknown type: no constraint ties that result to
its operands. Generation succeeds exactly if no list literal that is written is stuck in this way.
-/

namespace ChessEval

variable {e n : Expr} {name : String}

namespace Expr

/-- The node that decides the type of an expression: a list has the type of its first element, an element
that of its array, and a join of arrays that of the first one. -/
def origin (types : TypeTable) : Expr → Expr
  | .list _ (e :: _) => e.origin types
  | .index _ base _ => base.origin types
  | .binary m .concat left right =>
    if (types.typeOf m.id).isArrayShape then left.origin types else .binary m .concat left right
  | e => e

/-- The result of an operator of which nothing is known before inference and too little after it. -/
def Undetermined (before after : TypeTable) : Expr → Prop
  | .binary m _ _ _ => before.typeOf m.id = .generic ∧ (after.typeOf m.id).isResolved = false
  | _ => False

instance (before after : TypeTable) (e : Expr) : Decidable (e.Undetermined before after) :=
  match e with
  | .binary m _ _ _ =>
    inferInstanceAs (Decidable (before.typeOf m.id = .generic ∧ (after.typeOf m.id).isResolved = false))
  | .literal .. | .identifier .. | .unary .. | .call .. | .member .. | .index .. | .list .. | .emptyList .. =>
    instDecidableFalse

/-- A list literal whose type is left undetermined. -/
def Stuck (before after : TypeTable) : Expr → Prop
  | .list m elements => ((Expr.list m elements).origin before).Undetermined before after
  | _ => False

instance (before after : TypeTable) (e : Expr) : Decidable (e.Stuck before after) :=
  match e with
  | .list m elements =>
    inferInstanceAs (Decidable (((Expr.list m elements).origin before).Undetermined before after))
  | .literal .. | .identifier .. | .unary .. | .binary .. | .call .. | .member .. | .index .. | .emptyList .. =>
    instDecidableFalse

end Expr

/-- Some list literal that is written is stuck. -/
def Program.Stuck (before after : TypeTable) (p : Program) : Prop :=
  ∃ e ∈ p.written, ∃ n ∈ e.nodes, n.Stuck before after

instance (before after : TypeTable) (p : Program) : Decidable (p.Stuck before after) :=
  inferInstanceAs (Decidable (∃ e ∈ p.written, ∃ n ∈ e.nodes, n.Stuck before after))

lemma Program.mem_exprs_of_mem_written {p : Program} (h : e ∈ p.written) : e ∈ p.exprs := by
  obtain ⟨d, hd, he⟩ := List.mem_flatMap.mp h
  refine List.mem_flatMap.mpr ⟨d, hd, ?_⟩
  have hsub : ∀ inRule (s : Stmt), e ∈ s.written inRule → e ∈ s.exprs := by
    intro inRule s hs
    cases s with
    | returns value line =>
      cases inRule with
      | true => cases hs
      | false => exact hs
    | _ => exact hs
  cases d with
  | global g => exact he
  | function f =>
    obtain ⟨s, hs, he⟩ := List.mem_flatMap.mp he
    exact List.mem_flatMap.mpr ⟨s, hs, hsub false s he⟩
  | rule r =>
    rcases List.mem_append.mp he with he | he
    · exact List.mem_append_left _ he
    · obtain ⟨s, hs, he⟩ := List.mem_flatMap.mp he
      exact List.mem_append_right _ (List.mem_flatMap.mpr ⟨s, hs, hsub true s he⟩)

namespace Program.Inferred

variable {limit : Nat} {a : Analysis} {p : Program} {u : Unifier} (h : p.Inferred limit a u)
include h

section Nodes

variable {m : Mark}

lemma isResolved_of_recorded (hn : n ∈ p.nodes) {type : Ty} (htype : a.types.get? n.id = some type)
    (hknown : type.isResolved = true) : (u.typeAt n.id).isResolved = true := by
  apply Ty.isResolved_mono (h.initial hn)
  rw [TypeTable.typeOf_eq htype]
  exact hknown

lemma isResolved_call (hn : n ∈ p.nodes) {arguments : List Expr} (hcall : n.call? = some (name, arguments)) :
    (u.typeAt n.id).isResolved = true := by
  obtain ⟨Γ, hΓ⟩ := h.typed.node hn
  obtain ⟨resolved, hresolve, -, htype⟩ := hΓ.resolves hcall
  exact h.isResolved_of_recorded hn htype (h.typed.isResolved_returnType h.wellFormed hresolve)

lemma isResolved_identifier (hn : .identifier m name ∈ p.nodes) : (u.typeAt m.id).isResolved = true := by
  rcases (h.collected hn).linked m name rfl with hknown | ⟨slot, hequal, source, hsource, helement⟩
  · exact Ty.isResolved_mono (h.initial hn) hknown
  · have hslot : u.typeAt m.id = u.typeAt slot := h.solution.meets _ hequal
    have harray : u.typeAt source.id = .array (u.typeAt slot) := h.solution.meets _ helement
    have hknown := h.sources source hsource
    rw [harray] at hknown
    rw [hslot]
    exact hknown

/-- The result of an operator has a known type unless it was unknown before inference, or is an array. -/
lemma isResolved_binary {operator : BinaryOp} {left right : Expr}
    (hn : .binary m operator left right ∈ p.nodes)
    (hshape : operator = .concat → ¬(a.types.typeOf m.id).isArrayShape = true) :
    (u.typeAt m.id).isResolved = true ↔
      ¬(Expr.binary m operator left right).Undetermined a.types (a.withTypes p u).types := by
  have hfinal : (a.withTypes p u).types.typeOf m.id = u.typeAt m.id := h.typeOf hn
  simp only [Expr.Undetermined, hfinal, not_and, Bool.not_eq_false]
  refine ⟨fun hknown _ => hknown, fun hgeneric => ?_⟩
  obtain ⟨Γ, type, htype, hrecorded⟩ := h.typed.node hn
  have hinitial : a.types.typeOf m.id = type := TypeTable.typeOf_eq hrecorded
  rcases BinaryOp.type_cases htype with hknown | rfl | ⟨hconcat, harray⟩
  · exact h.isResolved_of_recorded hn hrecorded hknown
  · exact hgeneric hinitial
  · exact absurd (hinitial ▸ harray) (hshape hconcat)

end Nodes

/-- An expression has a known type exactly if the node that decides it is not undetermined. -/
theorem isResolved_iff_origin (he : e ∈ p.nodes) :
    (u.typeAt e.id).isResolved = true ↔
      ¬(e.origin a.types).Undetermined a.types (a.withTypes p u).types := by
  induction e using Expr.children_induction with
  | step e ih =>
    have hchild : ∀ c ∈ e.children, (u.typeAt c.id).isResolved = true ↔
        ¬(c.origin a.types).Undetermined a.types (a.withTypes p u).types := fun c hc =>
      ih c hc (child_mem_nodes hc he)
    cases e with
    | literal m value =>
      obtain ⟨Γ, hrecorded⟩ := h.typed.node he
      exact iff_of_true (h.isResolved_of_recorded he hrecorded value.isResolved_type) (fun h => h)
    | identifier m name => exact iff_of_true (h.isResolved_identifier he) (fun h => h)
    | binary m operator left right =>
      by_cases hjoin : operator = .concat ∧ (a.types.typeOf m.id).isArrayShape = true
      · -- a join of arrays has the type of both operands, so the left one decides it
        obtain ⟨rfl, hshape⟩ := hjoin
        have hleft : u.typeAt left.id = u.typeAt m.id := h.holds he (k := .equal left.id m.id)
          (Expr.mem_operatorConstraints.mpr (.inr (.inr ⟨rfl, hshape, .inl rfl⟩)))
        have ihleft := hchild left (by simp [Expr.children])
        rw [hleft] at ihleft
        rw [Expr.origin, if_pos hshape]
        exact ihleft
      · have hself : (Expr.binary m operator left right).origin a.types = .binary m operator left right := by
          cases operator with
          | concat => rw [Expr.origin, if_neg fun hshape => hjoin ⟨rfl, hshape⟩]
          | _ => rfl
        rw [hself]
        exact h.isResolved_binary he fun hconcat hshape => hjoin ⟨hconcat, hshape⟩
    | unary m operator operand =>
      obtain ⟨Γ, type, htype, hrecorded⟩ := h.typed.node he
      exact iff_of_true (h.isResolved_of_recorded he hrecorded (UnaryOp.isResolved_of_type htype)) (fun h => h)
    | call m name arguments | member m base field => exact iff_of_true (h.isResolved_call he rfl) (fun h => h)
    | index m base position =>
      have helement : u.typeAt base.id = .array (u.typeAt m.id) :=
        h.holds he (k := .element base.id m.id) (by simp [Expr.own])
      have ihbase := hchild base (by simp [Expr.children])
      rw [helement] at ihbase
      exact ihbase
    | list m elements =>
      cases elements with
      | nil => exact absurd rfl (h.wellFormed.filled _ he) -- the reader makes `[]` a form of its own
      | cons first rest =>
        have helement : u.typeAt m.id = .array (u.typeAt first.id) :=
          h.holds he (k := .element m.id first.id) (by simp [Expr.own])
        have ihfirst := hchild first (by simp [Expr.children])
        change (u.typeAt m.id).isResolved = true ↔ _
        rw [helement]
        exact ihfirst
    | emptyList m => exact iff_of_true (h.isResolved_emptyList he) (fun h => h)

lemma spelled_iff (hn : n ∈ p.nodes) :
    n.Spelled (a.withTypes p u).types ↔ ¬n.Stuck a.types (a.withTypes p u).types := by
  cases n with
  | list m elements =>
    have hfinal : (a.withTypes p u).types.typeOf m.id = u.typeAt m.id := h.typeOf hn
    rw [Expr.Spelled, hfinal]
    exact h.isResolved_iff_origin hn
  | emptyList m =>
    have hfinal : (a.withTypes p u).types.typeOf m.id = u.typeAt m.id := h.typeOf hn
    rw [Expr.Spelled, hfinal]
    exact iff_of_true (h.isResolved_emptyList hn) (fun h => h)
  | _ => exact iff_of_true trivial (fun h => h)

lemma allSpelled_written_iff :
    (∀ e ∈ p.written, e.AllSpelled (a.withTypes p u).types) ↔
      ¬p.Stuck a.types (a.withTypes p u).types := by
  have hnode : ∀ e ∈ p.written, ∀ n ∈ e.nodes, n ∈ p.nodes := fun e he n hn =>
    List.mem_flatMap.mpr ⟨e, mem_exprs_of_mem_written he, hn⟩
  simp only [Stuck, not_exists, not_and]
  constructor
  · intro hspelled e he n hn
    exact (h.spelled_iff (hnode e he n hn)).mp (hspelled e he n hn)
  · intro hfree e he n hn
    exact (h.spelled_iff (hnode e he n hn)).mpr (hfree e he n hn)

lemma linked (he : e ∈ p.exprs) : e.Linked (a.withTypes p u) := by
  rintro n hn ⟨name, arguments⟩ hcall
  obtain ⟨Γ, hΓ⟩ := h.typed.node (List.mem_flatMap.mpr ⟨e, he, hn⟩)
  obtain ⟨resolved, -, hheader, -⟩ := hΓ.resolves hcall
  change (a.header? n.id).isSome = true
  rw [hheader]
  rfl

lemma declared {s : Stmt} (hs : s ∈ p.stmts) : ∀ type ∈ s.declared, type.isResolved = true := by
  rcases mem_stmts.mp hs with ⟨f, hf, hs⟩ | ⟨r, hr, hs⟩
  · exact h.wellFormed.functionBody hf s hs
  · exact h.wellFormed.ruleBody hr s hs

lemma source_array {source : Expr} {body : List Stmt} {line : Nat} (hs : .forAll name source body line ∈ p.stmts) :
    ∃ element, (a.withTypes p u).types.typeOf source.id = .array element ∧ element.isResolved = true := by
  have hexpr : source ∈ p.exprs := mem_exprs.mpr (.inr (.inr ⟨_, hs, by simp [Stmt.exprs]⟩))
  have hnode : source ∈ p.nodes := List.mem_flatMap.mpr ⟨source, hexpr, source.self_mem_nodes⟩
  obtain ⟨⟨loop, hloop, hid⟩, slot, helement⟩ :=
    (covered_of_collect h.wellFormed h.typed (a.nodeCount p)).2 _ hs
  have harray : u.typeAt source.id = .array (u.typeAt slot) := h.solution.meets _ helement
  have hknown := h.sources loop hloop
  rw [hid, harray] at hknown
  exact ⟨u.typeAt slot, (h.typeOf hnode).trans harray, hknown⟩

lemma ready : p.Ready (a.withTypes p u) where
  globals _ := h.wellFormed.global
  returnTypes _ := h.wellFormed.returnType
  params _ := h.wellFormed.params
  linked _ := h.linked
  stmts s hs := by
    refine ⟨h.declared hs, fun e he => h.linked (mem_exprs.mpr (.inr (.inr ⟨s, hs, he⟩))), ?_⟩
    rintro name source body line rfl
    exact h.source_array hs

end Program.Inferred

lemma Compilation.stage_generate {c : Compilation} {a : Analysis} {known : Prop}
    (hstage : c.stage = .inferred) (hanalysis : c.analysis = some a)
    (h : Code.Spells known (Code.generate c.program a)) :
    (c.generate.stage = .generated ↔ known) ∧ (c.generate.stage = .failed ↔ ¬known) := by
  rw [generate, if_pos hstage]
  simp only [hanalysis]
  cases hresult : Code.generate c.program a with
  | ok output =>
    have hknown : known := by
      rw [hresult] at h
      exact h
    simp [hknown]
  | error fault =>
    have hunknown : ¬known := by
      rw [hresult] at h
      exact h.1
    simp [hunknown]

/-- After checking and inference without errors, code is generated exactly if no list literal is stuck, and
otherwise the generator blames an unknown type. -/
theorem Program.generates_iff_not_stuck {tokens : List Token} {file : String} {p : Program}
    {a a' : Analysis} {ds ds' ds'' : Diagnostics} {limit : Nat}
    (hread : (Program.ofTokens tokens file).1 = .ok p) (hcheck : p.check ds = (a, ds'))
    (hclean : ds'.errors = []) (hinfer : a.inferWithin limit p ds' = some (a', ds''))
    (hclean' : ds''.errors = []) :
    ((∃ output, Code.generate p a' = .ok output) ↔ ¬p.Stuck a.types a'.types) ∧
      (∀ fault, Code.generate p a' = .error fault → ∃ type, fault.issue = .unresolvedType type) ∧
      ∀ c : Compilation, c.program = p → c.analysis = some a' → c.stage = .inferred →
        (c.generate.stage = .generated ↔ ¬p.Stuck a.types a'.types) ∧
          (c.generate.stage = .failed ↔ p.Stuck a.types a'.types) := by
  obtain ⟨u, h, rfl⟩ := Program.inferred_of_infer hread hcheck hclean hinfer hclean'
  have hspells := Code.spells_generate h.ready
  rw [propext h.allSpelled_written_iff] at hspells
  refine ⟨?_, ?_, ?_⟩
  · cases hresult : Code.generate p (a.withTypes p u) with
    | ok output =>
      rw [hresult] at hspells
      exact iff_of_true ⟨output, rfl⟩ hspells
    | error fault =>
      rw [hresult] at hspells
      exact iff_of_false (by simp) hspells.1
  · intro fault hresult
    rw [hresult] at hspells
    exact hspells.2
  · rintro c rfl hanalysis hstage
    obtain ⟨hgenerated, hfailed⟩ := Compilation.stage_generate hstage hanalysis hspells
    exact ⟨hgenerated, hfailed.trans not_not⟩

/-- A sum of loop variables whose type is known from the use of its list. -/
theorem Program.generates_iff_not_stuck_score :
    ∃ tokens p a ds a' ds',
      Token.ofSource "rule r \x7b forall (x in []) \x7b x := 1; score [x + x][0]; \x7d \x7d" "" = .ok tokens ∧
      (Program.ofTokens tokens "").1 = .ok p ∧ p.check {} = (a, ds) ∧ ds.errors = [] ∧
      a.inferWithin 4 p ds = some (a', ds') ∧ ds'.errors = [] ∧
      (∃ output, Code.generate p a' = .ok output) ∧
      (Compilation.mk p (some a') ds' none .inferred).generate.stage = .generated := by
  have hrun : Program.infersWith
      "rule r \x7b forall (x in []) \x7b x := 1; score [x + x][0]; \x7d \x7d" 4
      (fun p a a' => decide (¬p.Stuck a.types a'.types)) = true := by decide +kernel
  obtain ⟨tokens, p, a, ds, a', ds', htokens, hread, hcheck, hclean, hinfer, hclean', htest⟩ :=
    Program.of_infersWith hrun
  obtain ⟨hgenerates, -, hstage⟩ := Program.generates_iff_not_stuck hread hcheck hclean hinfer hclean'
  have hfree := of_decide_eq_true htest
  exact ⟨tokens, p, a, ds, a', ds', htokens, hread, hcheck, hclean, hinfer, hclean', hgenerates.mpr hfree,
    (hstage _ rfl rfl rfl).1.mpr hfree⟩

/-- The type of a list of sums of loop variables stays unknown where only its length is used. -/
theorem Program.sum_of_unknowns_not_generated :
    ∃ tokens p a ds a' ds',
      Token.ofSource "rule r \x7b forall (x in []) \x7b x := 1; score len([x + x]); \x7d \x7d" "" = .ok tokens ∧
      (Program.ofTokens tokens "").1 = .ok p ∧ p.check {} = (a, ds) ∧ ds.errors = [] ∧
      a.inferWithin 4 p ds = some (a', ds') ∧ ds'.errors = [] ∧
      ∃ fault type, Code.generate p a' = .error fault ∧ fault.issue = .unresolvedType type := by
  have hrun : Program.infersWith
      "rule r \x7b forall (x in []) \x7b x := 1; score len([x + x]); \x7d \x7d" 4
      (fun p _ a' => (Code.generate p a').toOption.isNone) = true := by decide +kernel
  obtain ⟨tokens, p, a, ds, a', ds', htokens, hread, hcheck, hclean, hinfer, hclean', htest⟩ :=
    Program.of_infersWith hrun
  refine ⟨tokens, p, a, ds, a', ds', htokens, hread, hcheck, hclean, hinfer, hclean', ?_⟩
  obtain ⟨u, h, rfl⟩ := Program.inferred_of_infer hread hcheck hclean hinfer hclean'
  have hspells := Code.spells_generate h.ready
  cases hresult : Code.generate p (a.withTypes p u) with
  | ok output =>
    rw [hresult] at htest
    cases htest
  | error fault =>
    rw [hresult] at hspells
    obtain ⟨type, htype⟩ := hspells.2
    exact ⟨fault, type, rfl, htype⟩

end ChessEval
