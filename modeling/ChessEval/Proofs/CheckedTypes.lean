import ChessEval.Proofs.OperandTypes
import ChessEval.Proofs.Overloads

namespace ChessEval

open List

variable {τ : Nat → Ty} {Γ : NameTypes} {n : Expr}

namespace Ty

variable {s t r : Ty}

lemma le_of_unifies (ht : t.isResolved = true) (h : s.unifies t = true) : s ≤ t := by
  rcases unifies_iff.mp h with h | h
  · exact h
  · exact (eq_of_isResolved_of_le ht h).le

lemma eq_of_unifies (hs : s.isResolved = true) (ht : t.isResolved = true) (h : s.unifies t = true) :
    s = t :=
  (eq_of_isResolved_of_le hs (le_of_unifies ht h)).symm

lemma eq_array_of_element? (ht : t.isResolved = true) (h : t.element? = .ok r) : t = .array r := by
  cases t with
  | array element =>
    cases h
    rfl
  | generic | genericArray | emptyArray => cases ht
  | _ => cases h

lemma ne_generic_of_isResolved (ht : t.isResolved = true) : t ≠ .generic := by
  rintro rfl
  cases ht

lemma eq_num_of_isNum (ht : t.isResolved = true) (h : t.isNum = true) : t = .num :=
  (isNum_cases h).resolve_left (ne_generic_of_isResolved ht)

lemma eq_of_mergeAll {merged : Ty} {types : List Ty} (htypes : ∀ type ∈ types, type.isResolved = true)
    (h : mergeAll merged types = some r) : ∀ type ∈ types, type = r := fun type htype =>
  (eq_of_isResolved_of_le (htypes type htype) ((mergeAll_le h).2 type htype)).symm

end Ty

lemma TypeTable.isResolved_typeOf {t : TypeTable} {id : Nat} {type : Ty} (h : t.get? id = some type)
    (hknown : type.isResolved = true) : (t.typeOf id).isResolved = true := by
  rw [typeOf_eq h]
  exact hknown

lemma BinaryOp.isResolved_of_type {operator : BinaryOp} {left right result : Ty}
    (hleft : left.isResolved = true) (hright : right.isResolved = true)
    (h : operator.type left right = .ok result) : result.isResolved = true := by
  have hgeneric := Ty.ne_generic_of_isResolved hleft
  have hgeneric' := Ty.ne_generic_of_isResolved hright
  rcases BinaryOp.type_cases h with hknown | rfl | ⟨rfl, hshape⟩
  · exact hknown
  · cases operator with
    | add | subtract | multiply | divide =>
      obtain ⟨-, -, hknown | ⟨hunknown, -⟩⟩ := Ty.arithmetic_ok h
      · exact hknown
      · exact absurd hunknown hgeneric
    | concat =>
      rcases Ty.concatenation_ok h with ⟨-, hunknown⟩ | ⟨hstring, -⟩ | ⟨hmerge, hunifies, -⟩
      · exact absurd hunknown (not_or.mpr ⟨hgeneric, hgeneric'⟩)
      · cases hstring
      · have hle := Ty.le_merge_left hunifies
        rw [← hmerge] at hle
        exact absurd (Ty.le_generic hle) hgeneric
    | or | and => cases (Ty.logical_ok h).2.2
    | equal | notEqual => cases (Ty.equality_ok h).2
    | less | lessEqual | greater | greaterEqual => cases (Ty.ordered_ok h).2.2
    | elementOf => cases (Ty.membership_ok h).2
  · rcases Ty.concatenation_ok h with ⟨rfl, -⟩ | ⟨rfl, -⟩ | ⟨rfl, hunifies, -⟩
    · cases hshape
    · rfl
    · exact Ty.isResolved_mono (Ty.le_merge_left hunifies) hleft

lemma BinaryOp.holds_constraints {types : TypeTable} {id left right : Nat} {operator : BinaryOp}
    (hid : τ id = types.typeOf id) (hleft : τ left = types.typeOf left) (hright : τ right = types.typeOf right)
    (hleftKnown : (types.typeOf left).isResolved = true) (hrightKnown : (types.typeOf right).isResolved = true)
    (h : operator.type (types.typeOf left) (types.typeOf right) = .ok (types.typeOf id)) :
    ∀ k ∈ operator.constraints types id left right, k.Holds τ := by
  intro k hk
  rcases Expr.mem_operatorConstraints.mp hk with ⟨hoperator, hl, hr, rfl⟩ | ⟨rfl, rfl⟩ | ⟨rfl, hshape, hk⟩
  · have hequality : (types.typeOf left).equality (types.typeOf right) = .ok (types.typeOf id) := by
      rcases hoperator with rfl | rfl <;> exact h
    have hunifies := (Ty.equality_ok hequality).1
    rw [Ty.comparable_of_isArrayShape hl hr] at hunifies
    exact (hleft.trans (Ty.eq_of_unifies hleftKnown hrightKnown hunifies)).trans hright.symm
  · obtain ⟨⟨element, helement, hunifies⟩, -⟩ := Ty.membership_ok h
    have harray := Ty.eq_array_of_element? hrightKnown helement
    rw [harray] at hright hrightKnown
    have helementKnown : element.isResolved = true := hrightKnown
    have hsame := Ty.eq_of_unifies hleftKnown helementKnown hunifies
    change τ right = .array (τ left)
    rw [hright, hleft, hsame]
  · rcases Ty.concatenation_ok h with ⟨hgeneric, -⟩ | ⟨hstring, -⟩ | ⟨hmerge, hunifies, -⟩
    · rw [hgeneric] at hshape
      cases hshape
    · rw [hstring] at hshape
      cases hshape
    · have hsame := Ty.eq_of_unifies hleftKnown hrightKnown hunifies
      rw [← hsame, Ty.merge_eq_left le_rfl] at hmerge
      rcases hk with rfl | rfl
      · exact (hleft.trans hmerge.symm).trans hid.symm
      · exact (hright.trans (hsame.symm.trans hmerge.symm)).trans hid.symm

lemma Header.params_le_of_fits {params arguments : List Ty}
    (hknown : ∀ type ∈ arguments, type.isResolved = true) (h : fits params arguments = true) :
    List.Forall₂ (· ≤ ·) params arguments := by
  induction params generalizing arguments with
  | nil =>
    cases arguments with
    | nil => exact .nil
    | cons argument arguments => cases h
  | cons param params ih =>
    cases arguments with
    | nil => cases h
    | cons argument arguments =>
      rw [fits_cons] at h
      obtain ⟨hargument, harguments⟩ := forall_mem_cons.mp hknown
      exact .cons (Ty.le_of_unifies hargument h.1) (ih harguments h.2)

namespace NameTypes

/-- All names in scope have known types. -/
def Known (Γ : NameTypes) : Prop :=
  ∀ block ∈ Γ, ∀ x ∈ block, x.2.isResolved = true

variable {Γ : NameTypes} {name : String} {type : Ty}

lemma Known.find (h : Γ.Known) (hfind : Γ.find? name = some type) : type.isResolved = true := by
  obtain ⟨block, hblock, hlookup⟩ := exists_of_findSome?_eq_some hfind
  obtain ⟨l₁, l₂, heq, -⟩ := lookup_eq_some_iff.mp hlookup
  exact h block hblock (name, type) (by simp [heq])

lemma Known.push {block : List (String × Ty)} (h : Γ.Known) (hblock : ∀ x ∈ block, x.2.isResolved = true) :
    Known (block :: Γ) :=
  forall_mem_cons.mpr ⟨hblock, h⟩

lemma Known.bind (h : Γ.Known) (htype : type.isResolved = true) : (Γ.bind name type).Known := by
  cases Γ with
  | nil => exact h
  | cons block outer =>
    obtain ⟨hblock, houter⟩ := forall_mem_cons.mp h
    exact forall_mem_cons.mpr ⟨forall_mem_cons.mpr ⟨htype, hblock⟩, houter⟩

end NameTypes

/-- A typed program in which no empty list occurs. -/
structure Program.Filled (a : Analysis) (p : Program) : Prop where
  wellFormed : p.WellFormed
  typed : p.Typed a
  filled : ∀ m, .emptyList m ∉ p.nodes

namespace Program.Filled

variable {p : Program} {a : Analysis} (h : p.Filled a)
include h

lemma isResolved_step (hΓ : Γ.Known) (hn : n ∈ p.nodes) (htyped : n.Typed a Γ)
    (hchildren : ∀ c ∈ n.children, (a.types.typeOf c.id).isResolved = true) :
    (a.types.typeOf n.id).isResolved = true := by
  cases n with
  | literal m value =>
    exact TypeTable.isResolved_typeOf htyped value.isResolved_type
  | identifier m name =>
    obtain ⟨type, hfind, htype⟩ := htyped
    exact TypeTable.isResolved_typeOf htype (hΓ.find hfind)
  | binary m operator left right =>
    obtain ⟨type, hresult, htype⟩ := htyped
    have hleft := hchildren left (by simp [Expr.children])
    have hright := hchildren right (by simp [Expr.children])
    exact TypeTable.isResolved_typeOf htype (BinaryOp.isResolved_of_type hleft hright hresult)
  | unary m operator operand =>
    obtain ⟨type, hresult, htype⟩ := htyped
    exact TypeTable.isResolved_typeOf htype (UnaryOp.isResolved_of_type hresult)
  | call m name arguments | member m base field =>
    obtain ⟨resolved, hresolve, -, htype⟩ := htyped
    exact TypeTable.isResolved_typeOf htype (h.typed.isResolved_returnType h.wellFormed hresolve)
  | index m base position =>
    obtain ⟨-, type, helement, htype⟩ := htyped
    have hbase := hchildren base (by simp [Expr.children])
    rw [Ty.eq_array_of_element? hbase helement] at hbase
    exact TypeTable.isResolved_typeOf htype hbase
  | list m elements =>
    obtain ⟨type, hmerge, htype⟩ := htyped
    cases elements with
    | nil => exact absurd rfl (h.wellFormed.filled _ hn)
    | cons first rest =>
      have hfirst := hchildren first (by simp [Expr.children])
      have hle := (Ty.mergeAll_le hmerge).2 _ mem_cons_self
      have hknown : type.isResolved = true := Ty.isResolved_mono hle hfirst
      exact TypeTable.isResolved_typeOf htype hknown
  | emptyList m => exact absurd hn (h.filled m)

lemma isResolved_nodes (hΓ : Γ.Known) {e : Expr} (hnodes : ∀ n ∈ e.nodes, n ∈ p.nodes) (htyped : e.AllTyped a Γ) :
    ∀ n ∈ e.nodes, (a.types.typeOf n.id).isResolved = true := by
  induction e using Expr.children_induction with
  | step e ih =>
    have hchild : ∀ c ∈ e.children, ∀ n ∈ c.nodes, (a.types.typeOf n.id).isResolved = true := by
      intro c hc
      exact ih c hc (fun n hn => hnodes n (Expr.mem_nodes_of_child hc hn)) (htyped.child hc)
    intro n hn
    rcases Expr.mem_nodes.mp hn with rfl | ⟨c, hc, hnc⟩
    · exact h.isResolved_step hΓ (hnodes n hn) (htyped n hn) fun c hc => hchild c hc c c.self_mem_nodes
    · exact hchild c hc n hnc

lemma keeps_known : Stmt.Keeps a (· ∈ p.stmts) NameTypes.Known where
  opened Γ hΓ := hΓ.push (by simp)
  declared Γ type ds line hs hΓ name := by
    refine hΓ.bind ?_
    have hdeclared : type ∈ (Stmt.declare type ds line).declared := by simp [Stmt.declared]
    rcases mem_stmts.mp hs with ⟨f, hf, hs⟩ | ⟨r, hr, hs⟩
    · exact h.wellFormed.functionBody hf _ hs type hdeclared
    · exact h.wellFormed.ruleBody hr _ hs type hdeclared
  looped Γ name source body line hs hΓ hsource type helement := by
    have hexpr : source ∈ p.exprs := mem_exprs.mpr (.inr (.inr ⟨_, hs, by simp [Stmt.exprs]⟩))
    have hknown := h.isResolved_nodes hΓ (fun n hn => mem_flatMap.mpr ⟨source, hexpr, hn⟩) hsource
      source source.self_mem_nodes
    rw [Ty.eq_array_of_element? hknown helement] at hknown
    exact hΓ.push (forall_mem_singleton.mpr hknown)

lemma allTyped_known {e : Expr} (he : e ∈ p.exprs) : ∃ Γ : NameTypes, Γ.Known ∧ e.AllTyped a Γ := by
  have hglobals : NameTypes.Known [p.globalNames] := forall_mem_singleton.mpr h.wellFormed.globalNames
  have hblock : ∀ body Γ, Γ.Known → Stmt.BlockTyped a Γ body → (∀ s ∈ Stmt.blockParts body, s ∈ p.stmts) →
      ∀ s ∈ Stmt.blockParts body, e ∈ s.exprs → ∃ Γ : NameTypes, Γ.Known ∧ e.AllTyped a Γ := by
    intro body Γ hΓ hbody hstmts s hs he
    obtain ⟨Γ', hΓ', htyped⟩ := Stmt.BlockTyped.parts h.keeps_known body Γ hstmts hΓ hbody s hs
    exact Stmt.Typed.exprs h.keeps_known (hstmts s hs) hΓ' htyped e he
  rcases mem_exprs.mp he with ⟨g, hg, rfl⟩ | ⟨r, hr, her⟩ | ⟨s, hs, hes⟩
  · obtain ⟨block, hblock, htyped⟩ := h.typed.globals.value (by simp) (fun _ => h.wellFormed.global) g hg
    exact ⟨[block], forall_mem_singleton.mpr hblock, htyped⟩
  · exact ⟨_, hglobals, (h.typed.guards r hr e her).1⟩
  · rcases mem_stmts.mp hs with ⟨f, hf, hs⟩ | ⟨r, hr, hs⟩
    · have hparams : ∀ x ∈ f.names, x.2.isResolved = true := by
        intro x hx
        obtain ⟨q, hq, rfl⟩ := mem_map.mp (mem_reverse.mp hx)
        exact h.wellFormed.params hf q hq
      exact hblock f.body _ (hglobals.push hparams) (h.typed.functions f hf)
        (fun s hs => mem_stmts.mpr (.inl ⟨f, hf, hs⟩)) s hs hes
    · exact hblock r.body _ (hglobals.push (by simp)) (h.typed.rules r hr)
        (fun s hs => mem_stmts.mpr (.inr ⟨r, hr, hs⟩)) s hs hes

/-- The analysis of a program without empty lists knows the type of every node. -/
theorem isResolved (hn : n ∈ p.nodes) : (a.types.typeOf n.id).isResolved = true := by
  obtain ⟨e, he, hne⟩ := mem_flatMap.mp hn
  obtain ⟨Γ, hΓ, htyped⟩ := h.allTyped_known he
  exact h.isResolved_nodes hΓ (fun n hn => mem_flatMap.mpr ⟨e, he, hn⟩) htyped n hne

lemma holds_call (hn : n ∈ p.nodes) (htyped : n.Typed a Γ) {name : String} {arguments : List Expr}
    (hcall : n.call? = some (name, arguments)) (hnodes : ∀ n ∈ p.nodes, τ n.id = a.types.typeOf n.id) :
    ∀ k ∈ a.argumentConstraints n.id arguments, k.Holds τ := by
  obtain ⟨resolved, hresolve, hheader, -⟩ := htyped.resolves hcall
  have hargument : ∀ e ∈ arguments, e ∈ p.nodes := fun e he =>
    child_mem_nodes (Expr.children_of_call? hcall ▸ he) hn
  have hfits := Declarations.accepts_of_resolveCall hresolve
  have hlength : resolved.header.params.length = arguments.length := by
    simpa using Header.length_eq_of_fits hfits
  have hsame : (arguments.map fun e => τ e.id) = arguments.map fun e => a.types.typeOf e.id :=
    map_congr_left fun e he => hnodes e (hargument e he)
  refine (Expr.holds_argumentConstraints hheader hlength).mpr ?_
  rw [hsame]
  refine Header.params_le_of_fits ?_ hfits
  simp only [forall_mem_map]
  exact fun e he => h.isResolved (hargument e he)

/-- The types of nodes meet what a node asks for, if the slot of a loop variable has its type. -/
lemma holds_own (hn : n ∈ p.nodes) (htyped : n.Typed a Γ) (hnodes : ∀ n ∈ p.nodes, τ n.id = a.types.typeOf n.id)
    {scopes : LoopScopes}
    (hscopes : ∀ name slot type, scopes.slot? name = some slot → Γ.find? name = some type → τ slot = type) :
    ∀ k ∈ n.own a scopes, k.Holds τ := by
  have hchild : ∀ c ∈ n.children, τ c.id = a.types.typeOf c.id ∧ (a.types.typeOf c.id).isResolved = true :=
    fun c hc => ⟨hnodes c (child_mem_nodes hc hn), h.isResolved (child_mem_nodes hc hn)⟩
  have hself := hnodes n hn
  intro k hk
  cases n with
  | literal m value => cases hk
  | unary m operator operand => cases hk
  | emptyList m => cases hk
  | identifier m name =>
    obtain ⟨type, hfind, htype⟩ := htyped
    cases hslot : scopes.slot? name with
    | none => simp [Expr.own, hslot] at hk
    | some slot =>
      simp only [Expr.own, hslot, mem_singleton] at hk
      subst hk
      exact (hself.trans (TypeTable.typeOf_eq htype)).trans (hscopes name slot type hslot hfind).symm
  | binary m operator left right =>
    obtain ⟨type, hresult, htype⟩ := htyped
    obtain ⟨hleft, hleftKnown⟩ := hchild left (by simp [Expr.children])
    obtain ⟨hright, hrightKnown⟩ := hchild right (by simp [Expr.children])
    rw [← TypeTable.typeOf_eq htype] at hresult
    exact BinaryOp.holds_constraints hself hleft hright hleftKnown hrightKnown hresult k hk
  | call m name arguments => exact h.holds_call hn htyped rfl hnodes k hk
  | member m base field => exact h.holds_call hn htyped rfl hnodes k hk
  | index m base position =>
    obtain ⟨hnum, type, helement, htype⟩ := htyped
    obtain ⟨hbase, hbaseKnown⟩ := hchild base (by simp [Expr.children])
    obtain ⟨hposition, hpositionKnown⟩ := hchild position (by simp [Expr.children])
    simp only [Expr.own, mem_cons, not_mem_nil, or_false] at hk
    rcases hk with rfl | rfl
    · exact (hposition.trans (Ty.eq_num_of_isNum hpositionKnown hnum)).ge
    · have harray := hbase.trans (Ty.eq_array_of_element? hbaseKnown helement)
      have hvalue := hself.trans (TypeTable.typeOf_eq htype)
      exact harray.trans (congrArg Ty.array hvalue.symm)
  | list m elements =>
    obtain ⟨type, hmerge, htype⟩ := htyped
    obtain ⟨e, he, rfl⟩ := mem_map.mp hk
    have hknown : ∀ t ∈ elements.map fun e => a.types.typeOf e.id, t.isResolved = true := by
      simp only [forall_mem_map]
      exact fun e he => (hchild e he).2
    have helement := Ty.eq_of_mergeAll hknown hmerge _ (mem_map_of_mem he)
    have hlist := hself.trans (TypeTable.typeOf_eq htype)
    exact hlist.trans (congrArg Ty.array ((hchild e he).1.trans helement).symm)

end Program.Filled

end ChessEval
