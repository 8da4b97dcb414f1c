import ChessEval.Proofs.FiledIssues
import Mathlib.Data.Set.Basic

/-!
# Typing rules

What the analysis of a program must have recorded at each node, given the types of the names in scope.
-/

namespace ChessEval

open List

variable {ids : Set Nat} {n e : Expr} {type : Ty} {Γ : NameTypes} {s : Stmt}

/-- The types of the names in scope, innermost block first and the globals last. -/
abbrev NameTypes := List (List (String × Ty))

namespace NameTypes

def find? (Γ : NameTypes) (name : String) : Option Ty :=
  Γ.findSome? fun block => block.lookup name

def bind (Γ : NameTypes) (name : String) (type : Ty) : NameTypes :=
  match Γ with
  | [] => []
  | block :: outer => ((name, type) :: block) :: outer

lemma tail_bind (Γ : NameTypes) (name : String) (type : Ty) : (Γ.bind name type).tail = Γ.tail := by
  cases Γ <;> rfl

end NameTypes

/-- The type that elements of the given types share with those before them, if they fit and none is
`void`. -/
def Ty.mergeAll (merged : Ty) : List Ty → Option Ty
  | [] => some merged
  | type :: rest =>
    if type ≠ .void ∧ merged.unifies type = true then mergeAll (merged.merge type) rest else none

def Declarations.returnTypes (d : Declarations) : List Ty :=
  d.functions.map fun entry => entry.2.returnType

namespace Analysis

/-- A call means the only header that fits the arguments, and has the result type of the function. -/
def Resolves (a : Analysis) (id : Nat) (name : String) (arguments : List Ty) : Prop :=
  ∃ resolved, a.declarations.resolveCall name arguments = .ok resolved ∧
    a.header? id = some resolved.header ∧ a.types.get? id = some resolved.returnType

/-- Two analyses that know the same functions and the same about some nodes. -/
structure EqOn (ids : Set Nat) (a b : Analysis) : Prop where
  functions : b.declarations.functions = a.declarations.functions
  types : ∀ id ∈ ids, b.types.get? id = a.types.get? id
  headers : ∀ id ∈ ids, b.header? id = a.header? id

namespace EqOn

variable {ids ids' : Set Nat} {a b c : Analysis}

lemma refl (ids : Set Nat) (a : Analysis) : EqOn ids a a :=
  ⟨rfl, fun _ _ => rfl, fun _ _ => rfl⟩

lemma trans (hab : EqOn ids a b) (hbc : EqOn ids b c) : EqOn ids a c :=
  ⟨hbc.functions.trans hab.functions, fun id h => (hbc.types id h).trans (hab.types id h),
    fun id h => (hbc.headers id h).trans (hab.headers id h)⟩

lemma mono (h : EqOn ids a b) (hsub : ids' ⊆ ids) : EqOn ids' a b :=
  ⟨h.functions, fun id hid => h.types id (hsub hid), fun id hid => h.headers id (hsub hid)⟩

lemma typeOf (h : EqOn ids a b) {id : Nat} (hid : id ∈ ids) :
    b.types.typeOf id = a.types.typeOf id := by
  unfold TypeTable.typeOf
  rw [h.types id hid]

lemma resolveCall (h : EqOn ids a b) (name : String) (arguments : List Ty) :
    b.declarations.resolveCall name arguments = a.declarations.resolveCall name arguments := by
  unfold Declarations.resolveCall Declarations.function?
  rw [h.functions]

lemma resolves (h : EqOn ids a b) {id : Nat} (hid : id ∈ ids) {name : String} {arguments : List Ty}
    (hcall : a.Resolves id name arguments) : b.Resolves id name arguments := by
  obtain ⟨resolved, hresolve, hheader, htype⟩ := hcall
  exact ⟨resolved, (h.resolveCall name arguments).trans hresolve, (h.headers id hid).trans hheader,
    (h.types id hid).trans htype⟩

end EqOn

end Analysis

namespace Expr

/-- The rule of a node. -/
def Typed (a : Analysis) (Γ : NameTypes) : Expr → Prop
  | .literal m value => a.types.get? m.id = some value.type
  | .identifier m name => ∃ type, Γ.find? name = some type ∧ a.types.get? m.id = some type
  | .binary m operator left right =>
    ∃ type, operator.type (a.types.typeOf left.id) (a.types.typeOf right.id) = .ok type ∧
      a.types.get? m.id = some type
  | .unary m operator operand =>
    ∃ type, operator.type (a.types.typeOf operand.id) = .ok type ∧ a.types.get? m.id = some type
  | .call m name arguments =>
    a.Resolves m.id name (arguments.map fun e => a.types.typeOf e.id)
  | .member m base field => a.Resolves m.id field [a.types.typeOf base.id]
  | .index m base position =>
    (a.types.typeOf position.id).isNum = true ∧
      ∃ type, (a.types.typeOf base.id).element? = .ok type ∧ a.types.get? m.id = some type
  | .list m elements =>
    ∃ type, Ty.mergeAll .generic (elements.map fun e => a.types.typeOf e.id) = some type ∧
      a.types.get? m.id = some (.array type)
  | .emptyList m => a.types.get? m.id = some .emptyArray

/-- The rules of all nodes of an expression. -/
def AllTyped (a : Analysis) (Γ : NameTypes) (e : Expr) : Prop :=
  ∀ n ∈ e.nodes, n.Typed a Γ

variable {a b : Analysis} {Γ : NameTypes}

lemma Typed.congr (hab : a.EqOn ids b) (hid : n.id ∈ ids) (hchildren : ∀ c ∈ n.children, c.id ∈ ids) (h : n.Typed a Γ) :
    n.Typed b Γ := by
  have hmap : ∀ es : List Expr, (∀ e ∈ es, e.id ∈ ids) →
      es.map (fun e => b.types.typeOf e.id) = es.map fun e => a.types.typeOf e.id := fun es hes =>
    map_congr_left fun e he => hab.typeOf (hes e he)
  cases n with
  | literal m value => exact (hab.types _ hid).trans h
  | identifier m name =>
    obtain ⟨type, hfind, htype⟩ := h
    exact ⟨type, hfind, (hab.types _ hid).trans htype⟩
  | binary m operator left right =>
    obtain ⟨type, hresult, htype⟩ := h
    refine ⟨type, ?_, (hab.types _ hid).trans htype⟩
    rw [hab.typeOf (hchildren left (by simp [children])),
      hab.typeOf (hchildren right (by simp [children]))]
    exact hresult
  | unary m operator operand =>
    obtain ⟨type, hresult, htype⟩ := h
    refine ⟨type, ?_, (hab.types _ hid).trans htype⟩
    rw [hab.typeOf (hchildren operand (by simp [children]))]
    exact hresult
  | call m name arguments =>
    change b.Resolves m.id name (arguments.map fun e => b.types.typeOf e.id)
    rw [hmap arguments hchildren]
    exact hab.resolves hid h
  | member m base field =>
    change b.Resolves m.id field [b.types.typeOf base.id]
    rw [hab.typeOf (hchildren base (by simp [children]))]
    exact hab.resolves hid h
  | index m base position =>
    obtain ⟨hnum, type, helement, htype⟩ := h
    have hposition := hab.typeOf (hchildren position (by simp [children]))
    have hbase := hab.typeOf (hchildren base (by simp [children]))
    exact ⟨hposition ▸ hnum, type, hbase ▸ helement, (hab.types _ hid).trans htype⟩
  | list m elements =>
    obtain ⟨type, hmerge, htype⟩ := h
    exact ⟨type, (hmap elements hchildren).symm ▸ hmerge, (hab.types _ hid).trans htype⟩
  | emptyList m => exact (hab.types _ hid).trans h

lemma Typed.recorded (h : n.Typed a Γ) : ∃ type, a.types.get? n.id = some type := by
  cases n with
  | literal m value | emptyList m => exact ⟨_, h⟩
  | identifier m name | binary m operator left right | unary m operator operand | list m elements =>
    obtain ⟨type, -, htype⟩ := h
    exact ⟨_, htype⟩
  | call m name arguments | member m base field =>
    obtain ⟨resolved, -, -, htype⟩ := h
    exact ⟨_, htype⟩
  | index m base position =>
    obtain ⟨-, type, -, htype⟩ := h
    exact ⟨type, htype⟩

lemma AllTyped.congr (hab : a.EqOn ids b) (hids : ∀ id ∈ e.ids, id ∈ ids) (h : e.AllTyped a Γ) : e.AllTyped b Γ := by
  intro n hn
  refine (h n hn).congr hab (hids _ (id_mem_ids_of_mem hn)) ?_
  intro c hc
  exact hids _ (id_mem_ids_of_mem (child_mem_nodes hc hn))

lemma AllTyped.child {c : Expr} (h : e.AllTyped a Γ) (hc : c ∈ e.children) : c.AllTyped a Γ :=
  fun n hn => h n (mem_nodes_of_child hc hn)

lemma allTyped_iff : e.AllTyped a Γ ↔ (∀ c ∈ e.children, c.AllTyped a Γ) ∧ e.Typed a Γ := by
  constructor
  · intro h
    exact ⟨fun c hc => h.child hc, h e e.self_mem_nodes⟩
  · rintro ⟨hchildren, he⟩ n hn
    rcases mem_nodes.mp hn with rfl | ⟨c, hc, hnc⟩
    · exact he
    · exact hchildren c hc n hnc

end Expr

namespace Stmt

def bindAll (Γ : NameTypes) (type : Ty) : List Declarator → NameTypes
  | [] => Γ
  | d :: rest => bindAll (Γ.bind d.name type) type rest

def binds (Γ : NameTypes) : Stmt → NameTypes
  | .declare type declarators _ => bindAll Γ type declarators
  | _ => Γ

lemma tail_binds (Γ : NameTypes) (stmt : Stmt) : (stmt.binds Γ).tail = Γ.tail := by
  cases stmt with
  | declare type ds line =>
    change (bindAll Γ type ds).tail = Γ.tail
    induction ds generalizing Γ with
    | nil => rfl
    | cons d rest ih => exact (ih _).trans (Γ.tail_bind d.name type)
  | _ => rfl

/-- The rule of a declaration: an initial value has the type of its variable, and does not see it. -/
def DeclaratorsTyped (a : Analysis) (type : Ty) (Γ : NameTypes) : List Declarator → Prop
  | [] => True
  | d :: rest =>
    (∀ e ∈ d.value, e.AllTyped a Γ ∧ type.unifies (a.types.typeOf e.id) = true) ∧
      DeclaratorsTyped a type (Γ.bind d.name type) rest

mutual

/-- The rules of a statement and of everything in it. -/
def Typed (a : Analysis) (Γ : NameTypes) : Stmt → Prop
  | .declare type declarators _ => DeclaratorsTyped a type Γ declarators
  | .assign target value _ =>
    target.AllTyped a Γ ∧ value.AllTyped a Γ ∧
      (a.types.typeOf target.id).unifies (a.types.typeOf value.id) = true
  | .ifThen condition thenBody none _ =>
    condition.AllTyped a Γ ∧ (a.types.typeOf condition.id).isBool = true ∧
      BlockTyped a ([] :: Γ) thenBody
  | .ifThen condition thenBody (some elseBody) _ =>
    condition.AllTyped a Γ ∧ (a.types.typeOf condition.id).isBool = true ∧
      BlockTyped a ([] :: Γ) thenBody ∧ BlockTyped a ([] :: Γ) elseBody
  | .whileDo condition body _ =>
    condition.AllTyped a Γ ∧ (a.types.typeOf condition.id).isBool = true ∧
      BlockTyped a ([] :: Γ) body
  | .forAll name source body _ =>
    source.AllTyped a Γ ∧ ∃ type, (a.types.typeOf source.id).element? = .ok type ∧
      BlockTyped a ([(name, type)] :: Γ) body
  | .returns value _ => ∀ e ∈ value, e.AllTyped a Γ
  | .score value _ => value.AllTyped a Γ ∧ (a.types.typeOf value.id).isNum = true
  | .call site _ => site.AllTyped a Γ

/-- The rules of a block, whose declarations hold for the statements after them. -/
def BlockTyped (a : Analysis) (Γ : NameTypes) : List Stmt → Prop
  | [] => True
  | s :: rest => s.Typed a Γ ∧ BlockTyped a (s.binds Γ) rest

end

section Congr

variable {a b : Analysis} {ids : Set Nat}

lemma DeclaratorsTyped.congr (hab : a.EqOn ids b) {declarators : List Declarator}
    (hids : ∀ id ∈ (declarators.flatMap fun d => d.value.toList).flatMap Expr.ids, id ∈ ids)
    (h : DeclaratorsTyped a type Γ declarators) : DeclaratorsTyped b type Γ declarators := by
  induction declarators generalizing Γ with
  | nil => trivial
  | cons d rest ih =>
    simp only [flatMap_cons, flatMap_append, forall_mem_append] at hids
    refine ⟨?_, ih hids.2 h.2⟩
    intro e he
    obtain ⟨htyped, hunify⟩ := h.1 e he
    have hsub : ∀ id ∈ e.ids, id ∈ ids := fun id hid =>
      hids.1 id (mem_flatMap.mpr ⟨e, Option.mem_toList.mpr he, hid⟩)
    exact ⟨htyped.congr hab hsub, hab.typeOf (hsub _ e.id_mem_ids) ▸ hunify⟩

/-- A block keeps its rules while nothing changes at its nodes. -/
theorem BlockTyped.congr (hab : a.EqOn ids b) (block : List Stmt) :
    ∀ Γ, (∀ id ∈ blockIds block, id ∈ ids) → BlockTyped a Γ block → BlockTyped b Γ block := by
  induction block using block_induction
    (fun s => ∀ Γ, (∀ id ∈ s.ids, id ∈ ids) → s.Typed a Γ → s.Typed b Γ) with
  | declare type declarators line Γ hids h =>
    rw [ids_declare] at hids
    exact DeclaratorsTyped.congr hab hids h
  | assign target value line Γ hids h =>
    obtain ⟨htarget, hvalue, hunify⟩ := h
    simp only [ids_assign, forall_mem_append] at hids
    exact ⟨htarget.congr hab hids.1, hvalue.congr hab hids.2,
      hab.typeOf (hids.1 _ target.id_mem_ids) ▸ hab.typeOf (hids.2 _ value.id_mem_ids) ▸ hunify⟩
  | ifThen condition body line ih Γ hids h
  | whileDo condition body line ih Γ hids h =>
    obtain ⟨hcondition, hbool, hbody⟩ := h
    simp only [ids_ifThen, ids_whileDo, forall_mem_append] at hids
    exact ⟨hcondition.congr hab hids.1, hab.typeOf (hids.1 _ condition.id_mem_ids) ▸ hbool, ih _ hids.2 hbody⟩
  | ifElse condition thenBody elseBody line ihthen ihelse Γ hids h =>
    obtain ⟨hcondition, hbool, hthen, helse⟩ := h
    simp only [ids_ifElse, forall_mem_append] at hids
    exact ⟨hcondition.congr hab hids.1, hab.typeOf (hids.1 _ condition.id_mem_ids) ▸ hbool,
      ihthen _ hids.2.1 hthen, ihelse _ hids.2.2 helse⟩
  | forAll name source body line ih Γ hids h =>
    obtain ⟨hsource, type, helement, hbody⟩ := h
    simp only [ids_forAll, forall_mem_append] at hids
    exact ⟨hsource.congr hab hids.1, type, hab.typeOf (hids.1 _ source.id_mem_ids) ▸ helement,
      ih _ hids.2 hbody⟩
  | returns value line Γ hids h =>
    intro e he
    rw [ids_returns] at hids
    exact (h e he).congr hab fun id hid =>
      hids id (mem_flatMap.mpr ⟨e, Option.mem_toList.mpr he, hid⟩)
  | score value line Γ hids h =>
    obtain ⟨hvalue, hnum⟩ := h
    rw [ids_score] at hids
    exact ⟨hvalue.congr hab hids, hab.typeOf (hids _ value.id_mem_ids) ▸ hnum⟩
  | call site line Γ hids h =>
    rw [ids_call] at hids
    exact Expr.AllTyped.congr hab hids h
  | nil =>
    intro Γ _ h
    exact h
  | cons s rest ihs ihrest =>
    rintro Γ hids ⟨hs, hrest⟩
    simp only [blockIds_cons, forall_mem_append] at hids
    exact ⟨ihs Γ hids.1 hs, ihrest _ hids.2 hrest⟩

end Congr

section Parts

variable {a : Analysis}

/-- A property of the names in scope that statements of some kind keep wherever they add names. -/
structure Keeps (a : Analysis) (kind : Stmt → Prop) (P : NameTypes → Prop) : Prop where
  opened : ∀ Γ, P Γ → P ([] :: Γ)
  declared : ∀ Γ type ds line, kind (.declare type ds line) → P Γ → ∀ name, P (Γ.bind name type)
  looped : ∀ Γ name source body line, kind (.forAll name source body line) → P Γ → source.AllTyped a Γ →
    ∀ type, (a.types.typeOf source.id).element? = .ok type → P ([(name, type)] :: Γ)

lemma keeps_true (a : Analysis) : Keeps a (fun _ => True) fun _ => True :=
  ⟨fun _ _ => trivial, fun _ _ _ _ _ _ _ => trivial, fun _ _ _ _ _ _ _ _ _ _ => trivial⟩

variable {kind : Stmt → Prop} {P : NameTypes → Prop} (hkeeps : Keeps a kind P)
include hkeeps

lemma Keeps.bindAll {ds : List Declarator} {line : Nat} (hkind : kind (.declare type ds line)) (hΓ : P Γ)
    (names : List Declarator) : P (bindAll Γ type names) := by
  induction names generalizing Γ with
  | nil => exact hΓ
  | cons d rest ih => exact ih (hkeeps.declared Γ type ds line hkind hΓ d.name)

lemma Keeps.binds (hkind : kind s) (hΓ : P Γ) : P (s.binds Γ) := by
  cases s with
  | declare type ds line => exact hkeeps.bindAll hkind hΓ ds
  | _ => exact hΓ

lemma DeclaratorsTyped.values {ds all : List Declarator} {line : Nat} (hkind : kind (.declare type all line))
    (hΓ : P Γ) (h : DeclaratorsTyped a type Γ ds) : ∀ d ∈ ds, ∀ e ∈ d.value, ∃ Γ', P Γ' ∧ e.AllTyped a Γ' := by
  induction ds generalizing Γ with
  | nil => simp
  | cons d rest ih =>
    have hrest := ih (hkeeps.declared Γ type all line hkind hΓ d.name) h.2
    exact forall_mem_cons.mpr ⟨fun e he => ⟨Γ, hΓ, (h.1 e he).1⟩, hrest⟩

lemma Typed.exprs (hkind : kind s) (hΓ : P Γ) (h : s.Typed a Γ) : ∀ e ∈ s.exprs, ∃ Γ', P Γ' ∧ e.AllTyped a Γ' := by
  intro e he
  cases s with
  | declare type ds line =>
    obtain ⟨d, hd, hvalue⟩ := mem_flatMap.mp he
    exact DeclaratorsTyped.values hkeeps hkind hΓ h d hd e (Option.mem_toList.mp hvalue)
  | assign target value line =>
    simp only [Stmt.exprs, mem_cons, not_mem_nil, or_false] at he
    rcases he with rfl | rfl
    · exact ⟨Γ, hΓ, h.1⟩
    · exact ⟨Γ, hΓ, h.2.1⟩
  | ifThen condition thenBody elseBody line =>
    rw [mem_singleton.mp he]
    cases elseBody with
    | none => exact ⟨Γ, hΓ, h.1⟩
    | some elseBody => exact ⟨Γ, hΓ, h.1⟩
  | returns value line => exact ⟨Γ, hΓ, h e (Option.mem_toList.mp he)⟩
  | whileDo condition body line | forAll name source body line | score value line =>
    exact mem_singleton.mp he ▸ ⟨Γ, hΓ, h.1⟩
  | call site line => exact mem_singleton.mp he ▸ ⟨Γ, hΓ, h⟩

/-- In a typed block every statement is typed, with the names in scope where it stands. -/
theorem BlockTyped.parts (block : List Stmt) :
    ∀ Γ, (∀ s ∈ blockParts block, kind s) → P Γ → BlockTyped a Γ block →
      ∀ s ∈ blockParts block, ∃ Γ', P Γ' ∧ s.Typed a Γ' := by
  induction block using block_induction (fun stmt => ∀ Γ, (∀ s ∈ stmt.parts, kind s) → P Γ →
    stmt.Typed a Γ → ∀ s ∈ stmt.parts, ∃ Γ', P Γ' ∧ s.Typed a Γ') with
  | declare type ds line Γ hkind hΓ h s hs | assign target value line Γ hkind hΓ h s hs
  | returns value line Γ hkind hΓ h s hs | score value line Γ hkind hΓ h s hs | call site line Γ hkind hΓ h s hs =>
    exact mem_singleton.mp hs ▸ ⟨Γ, hΓ, h⟩
  | ifElse condition thenBody elseBody line ihthen ihelse Γ hkind hΓ h s hs =>
    obtain ⟨-, hbranches⟩ := forall_mem_cons.mp hkind
    obtain ⟨hthen, helse⟩ := forall_mem_append.mp hbranches
    rcases mem_cons.mp hs with rfl | hs
    · exact ⟨Γ, hΓ, h⟩
    rcases mem_append.mp hs with hs | hs
    · exact ihthen _ hthen (hkeeps.opened Γ hΓ) h.2.2.1 s hs
    · exact ihelse _ helse (hkeeps.opened Γ hΓ) h.2.2.2 s hs
  | ifThen condition body line ih Γ hkind hΓ h s hs
  | whileDo condition body line ih Γ hkind hΓ h s hs =>
    obtain ⟨-, hbody⟩ := forall_mem_cons.mp hkind
    rcases mem_cons.mp hs with rfl | hs
    · exact ⟨Γ, hΓ, h⟩
    · exact ih _ hbody (hkeeps.opened Γ hΓ) h.2.2 s hs
  | forAll name source body line ih Γ hkind hΓ h s hs =>
    obtain ⟨hself, hbody⟩ := forall_mem_cons.mp hkind
    rcases mem_cons.mp hs with rfl | hs
    · exact ⟨Γ, hΓ, h⟩
    · obtain ⟨hsource, type, helement, htyped⟩ := h
      exact ih _ hbody (hkeeps.looped Γ _ _ _ _ hself hΓ hsource type helement) htyped s hs
  | nil => simp [blockParts]
  | cons stmt rest ihstmt ihrest =>
    intro Γ hkind hΓ h s hs
    obtain ⟨hstmt, hrest⟩ := forall_mem_append.mp hkind
    rcases mem_append.mp hs with hs | hs
    · exact ihstmt Γ hstmt hΓ h.1 s hs
    · exact ihrest _ hrest (hkeeps.binds (hstmt stmt stmt.self_mem_parts) hΓ) h.2 s hs

end Parts

def ReturnsTyped (types : TypeTable) (expected : Ty) (body : List Stmt) : Prop :=
  ∀ value line, .returns value line ∈ blockParts body →
    expected.unifies (returnedType types value) = true

section Returns

variable {types : TypeTable} {expected : Ty} {label : String}

lemma returnsTyped_of_blockWrongReturns (body : List Stmt) :
    blockWrongReturns types expected label body = [] → ReturnsTyped types expected body := by
  induction body using block_induction (fun s => s.wrongReturns types expected label = [] →
    ∀ value line, .returns value line ∈ s.parts → expected.unifies (returnedType types value) = true) with
  | ifThen condition body line ih h value line hmem | whileDo condition body line ih h value line hmem
  | forAll name source body line ih h value line hmem =>
    exact ih h value line (by simpa [parts] using hmem)
  | ifElse condition thenBody elseBody line ihthen ihelse h value line hmem =>
    obtain ⟨hthen, helse⟩ := append_eq_nil_iff.mp h
    have hbranch : .returns value line ∈ blockParts thenBody ∨ .returns value line ∈ blockParts elseBody := by
      simpa [parts] using hmem
    exact hbranch.elim (ihthen hthen value line) (ihelse helse value line)
  | returns value line h value' line' hmem =>
    cases mem_singleton.mp hmem
    by_contra hnot
    simp [wrongReturns, hnot] at h
  | declare type ds line h value line' hmem => cases mem_singleton.mp hmem
  | assign target value line h value' line' hmem => cases mem_singleton.mp hmem
  | score value line h value' line' hmem => cases mem_singleton.mp hmem
  | call site line h value line' hmem => cases mem_singleton.mp hmem
  | nil => simp [blockParts, ReturnsTyped]
  | cons s rest ihs ihrest =>
    intro h value line hmem
    obtain ⟨hs, hrest⟩ := append_eq_nil_iff.mp h
    exact (mem_append.mp hmem).elim (ihs hs value line) (ihrest hrest value line)

lemma ReturnsTyped.congr {a b : Analysis} (hab : a.EqOn ids b) {body : List Stmt}
    (hids : ∀ id ∈ blockIds body, id ∈ ids) (h : ReturnsTyped a.types expected body) :
    ReturnsTyped b.types expected body := by
  intro value line hmem
  have hsame : returnedType b.types value = returnedType a.types value := by
    cases value with
    | none => rfl
    | some e =>
      apply hab.typeOf (hids e.id _)
      have hexpr : e ∈ (blockParts body).flatMap exprs :=
        mem_flatMap.mpr ⟨_, hmem, by simp [exprs]⟩
      exact mem_flatMap.mpr ⟨e, hexpr, e.id_mem_ids⟩
  rw [hsame]
  exact h value line hmem

end Returns

end Stmt

/-- The parameters of a function as a block, the last one first. -/
def FunctionDef.names (f : FunctionDef) : List (String × Ty) :=
  (f.params.map fun p => (p.name, p.type)).reverse

namespace Program

def globalNames (p : Program) : List (String × Ty) :=
  (p.globals.map fun g => (g.name, g.type)).reverse

/-- The rules of globals, each of which sees the ones before it. -/
def GlobalsTyped (a : Analysis) (block : List (String × Ty)) : List GlobalDef → Prop
  | [] => True
  | g :: rest =>
    g.value.AllTyped a [block] ∧ g.type.unifies (a.types.typeOf g.value.id) = true ∧
      GlobalsTyped a ((g.name, g.type) :: block) rest

lemma GlobalsTyped.values {a : Analysis} {gs : List GlobalDef} {block : List (String × Ty)}
    (h : GlobalsTyped a block gs) : ∀ g ∈ gs, ∃ Γ, g.value.AllTyped a Γ := by
  induction gs generalizing block with
  | nil => simp
  | cons g rest ih => exact forall_mem_cons.mpr ⟨⟨[block], h.1⟩, ih h.2.2⟩

/-- The rules of a whole program, in which only functions that are predefined or defined exist. -/
structure Typed (a : Analysis) (p : Program) : Prop where
  returnTypes : a.declarations.returnTypes ⊆
    Predefined.all.map Predefined.returnType ++ p.functions.map FunctionDef.returnType
  globals : GlobalsTyped a [] p.globals
  functions : ∀ f ∈ p.functions, Stmt.BlockTyped a [f.names, p.globalNames] f.body
  guards : ∀ r ∈ p.rules, ∀ e ∈ r.guard,
    e.AllTyped a [p.globalNames] ∧ (a.types.typeOf e.id).isBool = true
  rules : ∀ r ∈ p.rules, Stmt.BlockTyped a [[], p.globalNames] r.body
  functionReturns : ∀ f ∈ p.functions, Stmt.ReturnsTyped a.types f.returnType f.body
  ruleReturns : ∀ r ∈ p.rules, Stmt.ReturnsTyped a.types .void r.body

section Parts

variable {a : Analysis} {p : Program} (h : p.Typed a)
include h

lemma Typed.stmt (hs : s ∈ p.stmts) : ∃ Γ, s.Typed a Γ := by
  have hparts : ∀ body Γ, Stmt.BlockTyped a Γ body → s ∈ Stmt.blockParts body → ∃ Γ', s.Typed a Γ' := by
    intro body Γ hbody hs
    obtain ⟨Γ', -, hΓ'⟩ :=
      Stmt.BlockTyped.parts (Stmt.keeps_true a) body Γ (fun _ _ => trivial) trivial hbody s hs
    exact ⟨Γ', hΓ'⟩
  rcases mem_stmts.mp hs with ⟨f, hf, hs⟩ | ⟨r, hr, hs⟩
  · exact hparts f.body _ (h.functions f hf) hs
  · exact hparts r.body _ (h.rules r hr) hs

lemma Typed.expr (he : e ∈ p.exprs) : ∃ Γ, e.AllTyped a Γ := by
  rcases mem_exprs.mp he with ⟨g, hg, rfl⟩ | ⟨r, hr, her⟩ | ⟨s, hs, hes⟩
  · exact h.globals.values g hg
  · exact ⟨_, (h.guards r hr e her).1⟩
  · obtain ⟨Γ, hΓ⟩ := h.stmt hs
    obtain ⟨Γ', -, hΓ'⟩ := Stmt.Typed.exprs (Stmt.keeps_true a) trivial trivial hΓ e hes
    exact ⟨Γ', hΓ'⟩

/-- Every node of a typed program follows its rule. -/
theorem Typed.node (hn : n ∈ p.nodes) : ∃ Γ, n.Typed a Γ := by
  obtain ⟨e, he, hne⟩ := mem_flatMap.mp hn
  obtain ⟨Γ, hΓ⟩ := h.expr he
  exact ⟨Γ, hΓ n hne⟩

end Parts

end Program

end ChessEval
