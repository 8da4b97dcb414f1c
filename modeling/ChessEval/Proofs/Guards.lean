import ChessEval.Proofs.OperandTypes
import ChessEval.Proofs.Overloads

/-!
# Guards

A guard stands outside of all loops, and nothing but its own constraints speaks of its nodes.
-/

namespace ChessEval

open List

variable {e : Expr} {type : Ty} {a : Analysis} {r : RuleDef}

namespace Expr

/-- An assignment of types says of a node what the analysis found and what the node itself asks for. -/
structure Met (a : Analysis) (τ : Nat → Ty) (n : Expr) : Prop where
  above : a.types.typeOf n.id ≤ τ n.id
  own : ∀ k ∈ n.own a [], k.Holds τ

lemma Met.congr {a : Analysis} {σ τ : Nat → Ty} {n : Expr} (h : n.Met a σ) (hid : τ n.id = σ n.id)
    (hchildren : ∀ c ∈ n.children, τ c.id = σ c.id) : n.Met a τ := by
  refine ⟨hid.symm ▸ h.above, fun k hk => (h.own k hk).congr fun slot hslot => ?_⟩
  rcases slots_own hk hslot with rfl | ⟨c, hc, rfl⟩ | ⟨name, hname⟩
  · exact hid
  · exact hchildren c hc
  · simp [LoopScopes.slot?] at hname

/-- Types for the nodes of some expressions, which get the given types themselves and change nothing elsewhere. -/
structure Filling (a : Analysis) (es : List Expr) (targets : List Ty) (σ τ : Nat → Ty) : Prop where
  outside : ∀ id, id ∉ es.flatMap ids → τ id = σ id
  tops : es.map (fun e => τ e.id) = targets
  met : ∀ e ∈ es, ∀ n ∈ e.nodes, n.Met a τ
  unknown : ∀ type ∈ targets, type.isResolved = false →
    ∃ e ∈ es, ∃ m, .emptyList m ∈ e.nodes ∧ (τ m.id).isResolved = false

/-- An expression that can be given every type above the one that the analysis found. -/
def Fillable (a : Analysis) (e : Expr) : Prop :=
  ∀ σ type, a.types.typeOf e.id ≤ type → ∃ τ, Filling a [e] [type] σ τ

variable {a : Analysis}

lemma exists_filling {es : List Expr} {targets : List Ty} (hes : ∀ e ∈ es, e.Fillable a)
    (hle : List.Forall₂ (fun e type => a.types.typeOf e.id ≤ type) es targets)
    (hnodup : (es.flatMap ids).Nodup) (σ : Nat → Ty) : ∃ τ, Filling a es targets σ τ := by
  induction hle with
  | nil => exact ⟨σ, fun _ _ => rfl, rfl, by simp, by simp⟩
  | @cons e type es targets hle _ ih =>
    rw [flatMap_cons] at hnodup
    obtain ⟨-, hrest, hdisjoint⟩ := nodup_append'.mp hnodup
    obtain ⟨τ₁, h₁⟩ := ih (fun e he => hes e (mem_cons_of_mem _ he)) hrest
    obtain ⟨τ, h⟩ := hes e mem_cons_self τ₁ type hle
    have hkept : ∀ c ∈ es, ∀ n ∈ c.nodes, τ n.id = τ₁ n.id := by
      intro c hc n hn
      apply h.outside
      rw [flatMap_singleton]
      intro hmem
      exact hdisjoint hmem (mem_flatMap.mpr ⟨c, hc, id_mem_ids_of_mem hn⟩)
    refine ⟨τ, fun id hid => ?_, ?_, ?_, ?_⟩
    · rw [flatMap_cons, mem_append, not_or] at hid
      rw [h.outside id (by simpa using hid.1), h₁.outside id hid.2]
    · have htop : τ e.id = type := by simpa using h.tops
      rw [map_cons, htop, ← h₁.tops]
      congr 1
      exact map_congr_left fun c hc => hkept c hc c c.self_mem_nodes
    · intro c hc n hn
      rcases mem_cons.mp hc with rfl | hc
      · exact h.met c (mem_singleton_self c) n hn
      · exact (h₁.met c hc n hn).congr (hkept c hc n hn) fun child hchild =>
          hkept c hc child (child_mem_nodes hchild hn)
    · intro target htarget hunknown
      rcases mem_cons.mp htarget with rfl | htarget
      · obtain ⟨c, hc, m, hm, hτ⟩ := h.unknown target (mem_singleton_self target) hunknown
        rw [mem_singleton.mp hc] at hm
        exact ⟨e, mem_cons_self, m, hm, hτ⟩
      · obtain ⟨c, hc, m, hm, hτ⟩ := h₁.unknown target htarget hunknown
        refine ⟨c, mem_cons_of_mem _ hc, m, hm, ?_⟩
        rw [← hτ]
        exact congrArg Ty.isResolved (hkept c hc _ hm)

/-- Types for the operands of a node, given the type of the node itself. -/
structure Spread (a : Analysis) (e : Expr) (type : Ty) (targets : List Ty) : Prop where
  above : List.Forall₂ (fun c target => a.types.typeOf c.id ≤ target) e.children targets
  own : ∀ τ : Nat → Ty, τ e.id = type → e.children.map (fun c => τ c.id) = targets →
    ∀ k ∈ e.own a [], k.Holds τ
  unknown : type.isResolved = false →
    (∃ m, e = .emptyList m) ∨ ∃ target ∈ targets, target.isResolved = false

lemma Fillable.of_spread (hnodup : e.ids.Nodup) (hchildren : ∀ c ∈ e.children, c.Fillable a)
    (hspread : ∀ type, a.types.typeOf e.id ≤ type → ∃ targets, Spread a e type targets) : e.Fillable a := by
  intro σ type htype
  obtain ⟨targets, htargets⟩ := hspread type htype
  rw [ids_eq] at hnodup
  obtain ⟨hrest, -, hdisjoint⟩ := nodup_append'.mp hnodup
  obtain ⟨τ, h⟩ := exists_filling hchildren htargets.above hrest σ
  have hself : e.id ∉ e.children.flatMap ids := fun hmem => hdisjoint hmem (mem_singleton_self _)
  have hkept : ∀ c ∈ e.children, ∀ n ∈ c.nodes, Function.update τ e.id type n.id = τ n.id := by
    intro c hc n hn
    apply Function.update_of_ne
    rintro heq
    exact hself (heq ▸ mem_flatMap.mpr ⟨c, hc, id_mem_ids_of_mem hn⟩)
  refine ⟨Function.update τ e.id type, ?_, ?_, ?_, ?_⟩
  · intro id hid
    rw [flatMap_singleton, ids_eq, mem_append, mem_singleton, not_or] at hid
    rw [Function.update_of_ne hid.2, h.outside id hid.1]
  · simp
  · intro e' he' n hn
    rw [mem_singleton.mp he'] at hn
    rcases mem_nodes.mp hn with rfl | ⟨c, hc, hn⟩
    · refine ⟨by simpa using htype, htargets.own _ (by simp) ?_⟩
      rw [← h.tops]
      exact map_congr_left fun c hc => hkept c hc c c.self_mem_nodes
    · exact (h.met c hc n hn).congr (hkept c hc n hn) fun child hchild =>
        hkept c hc child (child_mem_nodes hchild hn)
  · intro target htarget hunknown
    rw [mem_singleton.mp htarget] at hunknown
    refine ⟨e, mem_singleton_self e, ?_⟩
    rcases htargets.unknown hunknown with ⟨m, rfl⟩ | ⟨target, htarget, hopen⟩
    · exact ⟨m, self_mem_nodes _, by simpa [Expr.id, Expr.mark] using hunknown⟩
    · obtain ⟨c, hc, m, hm, hτ⟩ := h.unknown target htarget hopen
      refine ⟨m, mem_nodes_of_child hc hm, ?_⟩
      rw [← hτ]
      exact congrArg Ty.isResolved (hkept c hc _ hm)

lemma spread_operands (hown : e.own a [] = []) (hunknown : type.isResolved = false →
      (∃ m, e = .emptyList m) ∨ ∃ c ∈ e.children, (a.types.typeOf c.id).isResolved = false) :
    Spread a e type (e.children.map fun c => a.types.typeOf c.id) := by
  refine ⟨?_, by simp [hown], fun h => (hunknown h).imp_right ?_⟩
  · rw [forall₂_map_right_iff, forall₂_same]
    exact fun _ _ => le_rfl
  · rintro ⟨c, hc, hopen⟩
    exact ⟨_, mem_map_of_mem hc, hopen⟩

lemma spread_known {known : Ty} (hown : e.own a [] = []) (htype : a.types.typeOf e.id = known)
    (hknown : known.isResolved = true) (hle : a.types.typeOf e.id ≤ type) :
    Spread a e type (e.children.map fun c => a.types.typeOf c.id) :=
  spread_operands hown fun h => absurd (Ty.isResolved_mono (htype ▸ hle) hknown) (by simp [h])

section Binary

variable {m : Mark} {operator : BinaryOp} {left right : Expr} {type leftType rightType : Ty}

lemma spread_pair (hleft : a.types.typeOf left.id ≤ leftType) (hright : a.types.typeOf right.id ≤ rightType)
    (hown : ∀ τ : Nat → Ty, τ m.id = type → τ left.id = leftType → τ right.id = rightType →
      ∀ k ∈ operator.constraints a.types m.id left.id right.id, k.Holds τ)
    (hunknown : type.isResolved = false → leftType.isResolved = false) :
    Spread a (.binary m operator left right) type [leftType, rightType] := by
  refine ⟨.cons hleft (.cons hright .nil), fun τ htop htops => ?_,
    fun h => .inr ⟨leftType, mem_cons_self, hunknown h⟩⟩
  obtain ⟨hl, hr⟩ : τ left.id = leftType ∧ τ right.id = rightType := by simpa [children] using htops
  exact hown τ htop hl hr

lemma exists_spread_equality (hoperator : operator = .equal ∨ operator = .notEqual)
    (hok : (a.types.typeOf left.id).equality (a.types.typeOf right.id) = .ok (a.types.typeOf m.id))
    (hle : a.types.typeOf m.id ≤ type) : ∃ targets, Spread a (.binary m operator left right) type targets := by
  obtain ⟨hcomparable, hbool⟩ := Ty.equality_ok hok
  have hknown : (a.types.typeOf m.id).isResolved = true := by rw [hbool]; rfl
  by_cases hshape : (a.types.typeOf left.id).isArrayShape = true ∧
      (a.types.typeOf right.id).isArrayShape = true
  · rw [Ty.comparable_of_isArrayShape hshape.1 hshape.2] at hcomparable
    refine ⟨_, spread_pair (Ty.le_merge_left hcomparable) (Ty.le_merge_right hcomparable) ?_ ?_⟩
    · intro τ _ hl hr k hk
      rcases mem_operatorConstraints.mp hk with ⟨-, -, -, rfl⟩ | ⟨h, -⟩ | ⟨h, -⟩
      · exact hl.trans hr.symm
      · rcases hoperator with rfl | rfl <;> cases h
      · rcases hoperator with rfl | rfl <;> cases h
    · intro h
      exact absurd (Ty.isResolved_mono hle hknown) (by simp [h])
  · refine ⟨_, spread_known ?_ hbool rfl hle⟩
    have hnone : operator.constraints a.types m.id left.id right.id = [] := by
      rcases hoperator with rfl | rfl <;> simp [BinaryOp.constraints, hshape]
    exact hnone

lemma exists_spread_elementOf
    (hok : (a.types.typeOf left.id).membership (a.types.typeOf right.id) = .ok (a.types.typeOf m.id))
    (hle : a.types.typeOf m.id ≤ type) :
    ∃ targets, Spread a (.binary m .elementOf left right) type targets := by
  obtain ⟨⟨element, helement, hunifies⟩, hbool⟩ := Ty.membership_ok hok
  have hknown : (a.types.typeOf m.id).isResolved = true := by rw [hbool]; rfl
  refine ⟨_, spread_pair (Ty.le_merge_left hunifies)
    (Ty.le_array_of_element? helement (Ty.le_merge_right hunifies)) ?_ ?_⟩
  · intro τ _ hl hr k hk
    rw [mem_singleton.mp hk]
    change τ right.id = .array (τ left.id)
    rw [hl, hr]
  · intro h
    exact absurd (Ty.isResolved_mono hle hknown) (by simp [h])

lemma exists_spread_concat
    (hok : (a.types.typeOf left.id).concatenation (a.types.typeOf right.id) = .ok (a.types.typeOf m.id))
    (hle : a.types.typeOf m.id ≤ type) :
    ∃ targets, Spread a (.binary m .concat left right) type targets := by
  rcases Ty.concatenation_ok hok with ⟨hresult, hgeneric⟩ | ⟨hresult, -⟩ | ⟨hresult, hunifies, hs, ht⟩
  · refine ⟨_, spread_operands ?_ fun _ => .inr ?_⟩
    · simp [own, BinaryOp.constraints, hresult, Ty.isArrayShape]
    · rcases hgeneric with h | h
      · exact ⟨left, by simp [children], by rw [h]; rfl⟩
      · exact ⟨right, by simp [children], by rw [h]; rfl⟩
  · refine ⟨_, spread_known ?_ hresult rfl hle⟩
    simp [own, BinaryOp.constraints, hresult, Ty.isArrayShape]
  · have hl := (Ty.le_merge_left hunifies).trans (hresult ▸ hle)
    have hr := (Ty.le_merge_right hunifies).trans (hresult ▸ hle)
    refine ⟨_, spread_pair hl hr ?_ fun h => h⟩
    intro τ htop hl hr k hk
    rcases mem_operatorConstraints.mp hk with ⟨h | h, -⟩ | ⟨h, -⟩ | ⟨-, -, rfl | rfl⟩
    · cases h
    · cases h
    · cases h
    · exact hl.trans htop.symm
    · exact hr.trans htop.symm

lemma exists_spread_binary
    (hok : operator.type (a.types.typeOf left.id) (a.types.typeOf right.id) = .ok (a.types.typeOf m.id))
    (hle : a.types.typeOf m.id ≤ type) : ∃ targets, Spread a (.binary m operator left right) type targets := by
  cases operator with
  | or | and =>
    obtain ⟨-, -, hbool⟩ := Ty.logical_ok hok
    exact ⟨_, spread_known rfl hbool rfl hle⟩
  | less | lessEqual | greater | greaterEqual =>
    obtain ⟨-, -, hbool⟩ := Ty.ordered_ok hok
    exact ⟨_, spread_known rfl hbool rfl hle⟩
  | add | subtract | multiply | divide =>
    obtain ⟨-, -, hknown | ⟨hleft, -, -⟩⟩ := Ty.arithmetic_ok hok
    · exact ⟨_, spread_known rfl rfl hknown hle⟩
    · exact ⟨_, spread_operands rfl fun _ => .inr ⟨left, by simp [children], by rw [hleft]; rfl⟩⟩
  | equal => exact exists_spread_equality (.inl rfl) hok hle
  | notEqual => exact exists_spread_equality (.inr rfl) hok hle
  | elementOf => exact exists_spread_elementOf hok hle
  | concat => exact exists_spread_concat hok hle

end Binary

lemma exists_spread_call {name : String} {arguments : List Expr} (hcall : e.call? = some (name, arguments))
    (hresolves : a.Resolves e.id name (arguments.map fun e => a.types.typeOf e.id))
    (hknown : (a.types.typeOf e.id).isResolved = true) (hle : a.types.typeOf e.id ≤ type) :
    ∃ targets, Spread a e type targets := by
  obtain ⟨resolved, hresolve, hheader, -⟩ := hresolves
  have hfits := Declarations.accepts_of_resolveCall hresolve
  obtain ⟨targets, harguments, hparams⟩ := Header.exists_le_of_fits hfits
  have hlength : resolved.header.params.length = arguments.length := by
    simpa using Header.length_eq_of_fits hfits
  refine ⟨targets, ?_, fun τ _ htops => ?_, fun h => absurd (Ty.isResolved_mono hle hknown) (by simp [h])⟩
  · rw [children_of_call? hcall]
    exact forall₂_map_left_iff.mp harguments
  · rw [own_of_call? hcall]
    rw [children_of_call? hcall] at htops
    exact (holds_argumentConstraints hheader hlength).mpr (htops ▸ hparams)

lemma spread_index {m : Mark} {base position : Expr} (hnum : (a.types.typeOf position.id).isNum = true)
    (helement : (a.types.typeOf base.id).element? = .ok (a.types.typeOf m.id)) (hle : a.types.typeOf m.id ≤ type) :
    Spread a (.index m base position) type [.array type, .num] := by
  have hposition : a.types.typeOf position.id ≤ .num := by
    rcases Ty.isNum_cases hnum with h | h <;> rw [h]
    exact Ty.generic_le _
  refine ⟨.cons (Ty.le_array_of_element? helement hle) (.cons hposition .nil), fun τ htop htops => ?_,
    fun h => .inr ⟨.array type, mem_cons_self, h⟩⟩
  obtain ⟨hbase, hpos⟩ : τ base.id = .array type ∧ τ position.id = .num := by
    simpa [children] using htops
  intro k hk
  simp only [own, mem_cons, not_mem_nil, or_false] at hk
  rcases hk with rfl | rfl
  · exact hpos.ge
  · change τ base.id = .array (τ m.id)
    rw [hbase]
    exact congrArg Ty.array htop.symm

lemma exists_spread_list {m : Mark} {elements : List Expr} {merged : Ty} (hfilled : elements ≠ [])
    (hmerge : Ty.mergeAll .generic (elements.map fun e => a.types.typeOf e.id) = some merged)
    (hle : .array merged ≤ type) : ∃ targets, Spread a (.list m elements) type targets := by
  obtain ⟨element, rfl, helement⟩ := Ty.array_le_iff.mp hle
  obtain ⟨-, hmerged⟩ := Ty.mergeAll_le hmerge
  refine ⟨elements.map fun _ => element, ?_, fun τ htop htops => ?_, fun h => .inr ?_⟩
  · change List.Forall₂ _ elements _
    rw [forall₂_map_right_iff, forall₂_same]
    exact fun e he => (hmerged _ (mem_map_of_mem he)).trans helement
  · intro k hk
    obtain ⟨e, he, rfl⟩ := mem_map.mp hk
    change τ m.id = .array (τ e.id)
    have htop' : τ m.id = .array element := htop
    rw [htop', map_inj_left.mp htops e he]
  · obtain ⟨e, he⟩ := exists_mem_of_ne_nil elements hfilled
    exact ⟨element, mem_map.mpr ⟨e, he, rfl⟩, h⟩

lemma exists_spread {block : List (String × Ty)} (hblock : ∀ x ∈ block, x.2.isResolved = true)
    (hreturns : ∀ name arguments resolved, a.declarations.resolveCall name arguments = .ok resolved →
      resolved.returnType.isResolved = true) (hfilled : e.Filled) (htyped : e.Typed a [block])
    (hle : a.types.typeOf e.id ≤ type) : ∃ targets, Spread a e type targets := by
  have hcalls : ∀ {name arguments}, e.call? = some (name, arguments) →
      ∃ targets, Spread a e type targets := by
    intro name arguments hcall
    have hresolves := htyped.resolves hcall
    refine exists_spread_call hcall hresolves ?_ hle
    obtain ⟨resolved, hresolve, -, htype⟩ := hresolves
    rw [TypeTable.typeOf_eq htype]
    exact hreturns name _ resolved hresolve
  cases e with
  | literal m value =>
    exact ⟨_, spread_known rfl (TypeTable.typeOf_eq htyped) value.isResolved_type hle⟩
  | identifier m name =>
    obtain ⟨found, hfind, htype⟩ := htyped
    refine ⟨_, spread_known rfl (TypeTable.typeOf_eq htype) ?_ hle⟩
    have hlookup : block.lookup name = some found := by simpa [NameTypes.find?] using hfind
    obtain ⟨l₁, l₂, heq, -⟩ := lookup_eq_some_iff.mp hlookup
    exact hblock (name, found) (by simp [heq])
  | binary m operator left right =>
    obtain ⟨result, hok, htype⟩ := htyped
    exact exists_spread_binary (TypeTable.typeOf_eq htype ▸ hok) hle
  | unary m operator operand =>
    obtain ⟨result, hok, htype⟩ := htyped
    exact ⟨_, spread_known rfl (TypeTable.typeOf_eq htype) (UnaryOp.isResolved_of_type hok) hle⟩
  | call m name arguments => exact hcalls rfl
  | member m base field => exact hcalls rfl
  | index m base position =>
    obtain ⟨hnum, element, helement, htype⟩ := htyped
    exact ⟨_, spread_index hnum (TypeTable.typeOf_eq htype ▸ helement) hle⟩
  | list m elements =>
    obtain ⟨merged, hmerge, htype⟩ := htyped
    exact exists_spread_list hfilled hmerge (TypeTable.typeOf_eq htype ▸ hle)
  | emptyList m => exact ⟨_, spread_operands rfl fun _ => .inl ⟨m, rfl⟩⟩

theorem fillable {block : List (String × Ty)} (hblock : ∀ x ∈ block, x.2.isResolved = true)
    (hreturns : ∀ name arguments resolved, a.declarations.resolveCall name arguments = .ok resolved →
      resolved.returnType.isResolved = true) (hnodup : e.ids.Nodup) (hfilled : ∀ n ∈ e.nodes, n.Filled)
    (htyped : e.AllTyped a [block]) : e.Fillable a := by
  induction e using children_induction with
  | step e ih =>
    refine .of_spread hnodup (fun c hc => ?_) fun type hle =>
      exists_spread hblock hreturns (hfilled e e.self_mem_nodes) (htyped e e.self_mem_nodes) hle
    rw [ids_eq] at hnodup
    have hchildren := (nodup_flatMap.mp (nodup_append'.mp hnodup).1).1
    exact ih c hc (hchildren c hc) (fun n hn => hfilled n (mem_nodes_of_child hc hn)) (htyped.child hc)

lemma own_push (n : Expr) : n.own a [[]] = n.own a [] := by
  cases n <;> rfl

end Expr

namespace Collection

/-- What speaks of a node of an expression is asked for by one of its own nodes. -/
def Isolates (a : Analysis) (e : Expr) (c : Collection) : Prop :=
  ∀ k ∈ c.constraints, (∃ n ∈ e.nodes, k ∈ n.own a []) ∨ ∀ slot ∈ k.slots, slot ∉ e.ids

lemma Isolates.of_addsOn {nodes : Nat} {ids : List Nat} {c c' : Collection} (h : c.Isolates a e)
    (hadds : AddsOn nodes ids c c') (hdisjoint : e.ids.Disjoint ids) (hbelow : ∀ id ∈ e.ids, id < nodes) :
    c'.Isolates a e := by
  intro k hk
  rcases hadds.added k hk with hk | hk
  · exact h k hk
  · refine .inr fun slot hslot hmem => ?_
    rcases hk slot hslot with hid | ⟨hfrom, -⟩
    · exact hdisjoint hmem hid
    · exact absurd (hbelow slot hmem) (not_lt.mpr hfrom)

end Collection

namespace Collect

variable {a : Analysis}

lemma each_append {α : Type} (step : α → Collect Unit) (xs ys : List α) :
    each step (xs ++ ys) = each step xs >>= fun _ => each step ys := by
  induction xs with
  | nil => rfl
  | cons x rest ih => simp only [cons_append, each, ih, bind_assoc]

lemma isolates_of_rule {nodes : Nat} {c c' : Collection} {result : Unit} (hguard : r.guard = some e)
    (hscopes : c.scopes = []) (hslots : c.SlotsFrom nodes) (hbelow : ∀ id ∈ e.ids, id < nodes)
    (hdisjoint : e.ids.Disjoint (Stmt.blockIds r.body)) (hisolates : c.Isolates a e)
    (h : (rule a r).run c = (result, c')) : c'.Isolates a e := by
  rw [rule, runState_bind] at h
  obtain ⟨_, c₁, h₁, h⟩ := h
  cases h₁
  rw [hguard] at h
  dsimp only at h
  rw [runState_bind] at h
  obtain ⟨_, c₂, h₂, h⟩ := h
  obtain ⟨hslots₁, -⟩ := stays_openScope c _ _ rfl hslots
  obtain ⟨hslots₂, -⟩ := stays_expr e _ _ c₂ h₂ hslots₁
  have hisolates₂ : c₂.Isolates a e := by
    cases h₂
    intro k hk
    rcases mem_append.mp hk with hk | hk
    · exact hisolates k hk
    · have hscope : k ∈ e.constraints a ([] :: c.scopes) := hk
      rw [hscopes] at hscope
      obtain ⟨n, hn, hkn⟩ := Expr.mem_constraints.mp hscope
      exact .inl ⟨n, hn, n.own_push ▸ hkn⟩
  have hrest := (stays_statements a nodes r.body .void (.ofDefinition .rule r.name r.line)).bind
    stays_closeScope
  obtain ⟨-, hadds⟩ := hrest c₂ result c' h hslots₂
  exact hisolates₂.of_addsOn hadds (by simpa using hdisjoint) hbelow

end Collect

namespace Program

/-- The constraints of a program that speak of a guard are those of the guard. -/
theorem isolates_guard {p : Program} (hwf : p.WellFormed) (htyped : p.Typed a) (hr : r ∈ p.rules)
    (hguard : r.guard = some e) {slots : Nat} (hbelow : ∀ n ∈ p.nodes, n.id < slots) :
    (a.collect p slots).Isolates a e := by
  obtain ⟨before, after, hsplit⟩ := append_of_mem hr
  have hid : ∀ id ∈ e.ids, id < slots := by
    intro id hid
    obtain ⟨n, hn, rfl⟩ := mem_map.mp hid
    exact hbelow n (mem_flatMap.mpr ⟨e, mem_exprs.mpr (.inr (.inl ⟨r, hr, hguard⟩)), hn⟩)
  -- the nodes of the guard are those of no other part of the program
  have hnodup := hwf.nodup
  rw [map_id_nodes, (perm_definitions p.definitions).nodup_iff] at hnodup
  change (p.globals.flatMap _ ++ (p.functions.flatMap _ ++ p.rules.flatMap _)).Nodup at hnodup
  rw [hsplit] at hnodup
  simp only [flatMap_append, flatMap_cons, hguard, Option.toList_some, flatMap_nil,
    append_nil, nodup_append', disjoint_append_left, disjoint_append_right] at hnodup
  obtain ⟨-, ⟨-, ⟨-, ⟨⟨-, -, hbody⟩, -, hafter, -⟩, ⟨hbefore, -⟩, -⟩, -, ⟨hfunctions, -⟩, -⟩, -, -,
    ⟨hglobals, -⟩, -⟩ := hnodup
  -- the run up to the rule, the rule, and the rest
  obtain ⟨result, c, hrun⟩ : ∃ result c, (Collect.program a p).run ⟨[], slots, [], [], []⟩ = (result, c) :=
    ⟨_, _, rfl⟩
  have hc : a.collect p slots = c := congrArg Prod.snd hrun
  rw [hc]
  rw [Collect.program, hsplit, Collect.each_append] at hrun
  simp only [Collect.each, runState_bind] at hrun
  obtain ⟨_, c₁, h₁, _, c₂, h₂, _, c₃, h₃, _, c₄, h₄, h₅⟩ := hrun
  have hsub : before ⊆ p.rules := hsplit ▸ subset_append_left _ _
  obtain ⟨-, hscopes₁, -⟩ := covered_of_globals hwf htyped rfl h₁
  obtain ⟨-, hscopes₂, -⟩ := covered_of_functions hwf htyped hscopes₁ h₂
  obtain ⟨-, hscopes₃, -⟩ := covered_of_rules hwf htyped hscopes₂ hsub h₃
  obtain ⟨hslots₁, hadds₁⟩ := Collect.stays_each Collect.stays_global p.globals _ _ c₁ h₁ ⟨le_rfl, by simp⟩
  obtain ⟨hslots₂, hadds₂⟩ := Collect.stays_each Collect.stays_function p.functions _ _ c₂ h₂ hslots₁
  obtain ⟨hslots₃, hadds₃⟩ := Collect.stays_each Collect.stays_rule before _ _ c₃ h₃ hslots₂
  obtain ⟨hslots₄, -⟩ := Collect.stays_rule r _ _ c₄ h₄ hslots₃
  obtain ⟨-, hadds₅⟩ := Collect.stays_each Collect.stays_rule after _ _ c h₅ hslots₄
  have hstart : Collection.Isolates a e ⟨[], slots, [], [], []⟩ := by simp [Collection.Isolates]
  have hisolates₃ := ((hstart.of_addsOn hadds₁ hglobals.symm hid).of_addsOn hadds₂ hfunctions.symm hid).of_addsOn
    hadds₃ hbefore.symm hid
  exact (Collect.isolates_of_rule hguard hscopes₃ hslots₃ hid hbody hisolates₃ h₄).of_addsOn hadds₅ hafter hid

/-- After inference without errors every guard is a truth value. -/
theorem Inferred.guard_bool {limit : Nat} {p : Program} {u : Unifier} (h : p.Inferred limit a u) (hr : r ∈ p.rules)
    (hguard : r.guard = some e) : (a.withTypes p u).types.typeOf e.id = .bool := by
  have he : e ∈ p.exprs := mem_exprs.mpr (.inr (.inl ⟨r, hr, hguard⟩))
  have hnodes : ∀ n ∈ e.nodes, n ∈ p.nodes := fun n hn => mem_flatMap.mpr ⟨e, he, hn⟩
  obtain ⟨htyped, hbool⟩ := h.typed.guards r hr e hguard
  rcases Ty.isBool_cases hbool with hgeneric | hbool
  · -- a guard of unknown type could stay unknown, together with an empty list in it
    exfalso
    have hnodup : e.ids.Nodup := by
      have hall := h.wellFormed.nodup
      rw [nodes, map_flatMap] at hall
      exact (nodup_flatMap.mp hall).1 e he
    have hfillable := Expr.fillable h.wellFormed.globalNames
      (fun _ _ _ => h.typed.isResolved_returnType h.wellFormed) hnodup
      (fun n hn => h.wellFormed.filled n (hnodes n hn)) htyped
    obtain ⟨τ, hτ⟩ := hfillable u.typeAt .generic hgeneric.le
    have hmet : ∀ n ∈ e.nodes, n.Met a τ := hτ.met e (mem_singleton_self e)
    have houtside : ∀ id, id ∉ e.ids → τ id = u.typeAt id := fun id hid =>
      hτ.outside id (by simpa using hid)
    have hinitial : ∀ id, id < a.nodeCount p → a.types.typeOf id ≤ τ id := by
      intro id hid
      by_cases hmem : id ∈ e.ids
      · obtain ⟨n, hn, rfl⟩ := mem_map.mp hmem
        exact (hmet n hn).above
      · rw [houtside id hmem]
        exact h.initial_of_lt hid
    have hmeets : ∀ k ∈ (a.collect p (a.nodeCount p)).constraints, k.Holds τ := by
      intro k hk
      rcases isolates_guard h.wellFormed h.typed hr hguard (fun _ => a.lt_nodeCount h.wellFormed) k hk with
        ⟨n, hn, hown⟩ | hapart
      · exact (hmet n hn).own k hown
      · exact (h.solution.meets k hk).congr fun slot hslot => houtside slot (hapart slot hslot)
    obtain ⟨_, hsingle, m, hm, hunknown⟩ := hτ.unknown .generic (mem_singleton_self _) rfl
    rw [mem_singleton.mp hsingle] at hm
    have hle : u.typeAt m.id ≤ τ m.id := h.least hinitial hmeets (hnodes _ hm)
    rw [Ty.isResolved_mono hle (h.isResolved_emptyList (hnodes _ hm))] at hunknown
    cases hunknown
  · rw [h.typeOf (hnodes e e.self_mem_nodes)]
    exact h.eq_of_known (hnodes e e.self_mem_nodes) hbool rfl

end Program

end ChessEval
