import ChessEval.Proofs.Appraisal
import ChessEval.Proofs.LooserOperands
import ChessEval.Proofs.Overloads
import Mathlib.Data.List.Forall2

/-!
# One undeclared name, one error

A name that is not declared has the type `generic`, which fits everywhere. Put in the place of a part of an expression
without faults, it is filed once, and what is around it has nothing to add: its types say less than before and still
fit. There is one exception. Where a number is added to a coordinate that is lost, the sum is taken for a number, which
does not fit where the coordinate did.
-/

namespace ChessEval

open List

namespace Expr

/-- A node with a place for one of its operands. -/
inductive Frame where
  | leftOperand (mark : Mark) (operator : BinaryOp) (other : Expr)
  | rightOperand (mark : Mark) (operator : BinaryOp) (other : Expr)
  | operand (mark : Mark) (operator : UnaryOp)
  | argument (mark : Mark) (name : String) (earlier later : List Expr)
  | receiver (mark : Mark) (field : String)
  | indexed (mark : Mark) (other : Expr)
  | indexing (mark : Mark) (other : Expr)
  | element (mark : Mark) (earlier later : List Expr)

namespace Frame

/-- The node with an operand in the place. -/
def fill : Frame → Expr → Expr
  | .leftOperand m operator other, e => .binary m operator e other
  | .rightOperand m operator other, e => .binary m operator other e
  | .operand m operator, e => .unary m operator e
  | .argument m name earlier later, e => .call m name (earlier ++ e :: later)
  | .receiver m field, e => .member m e field
  | .indexed m other, e => .index m e other
  | .indexing m other, e => .index m other e
  | .element m earlier later, e => .list m (earlier ++ e :: later)

def before : Frame → List Expr
  | .rightOperand _ _ other | .indexing _ other => [other]
  | .argument _ _ earlier _ | .element _ earlier _ => earlier
  | _ => []

def after : Frame → List Expr
  | .leftOperand _ _ other | .indexed _ other => [other]
  | .argument _ _ _ later | .element _ _ later => later
  | _ => []

lemma children_fill (f : Frame) (e : Expr) : (f.fill e).children = f.before ++ e :: f.after := by
  cases f <;> rfl

lemma isIdentifier_fill (f : Frame) (e : Expr) : (f.fill e).isIdentifier = false := by
  cases f <;> rfl

end Frame

/-- An expression in a place inside other nodes, the outermost of which comes first. -/
def plug : List Frame → Expr → Expr
  | [], e => e
  | f :: rest, e => f.fill (plug rest e)

lemma plug_mem_children (f : Frame) (rest : List Frame) (e : Expr) :
    plug rest e ∈ (plug (f :: rest) e).children := by
  rw [plug, f.children_fill]
  exact mem_append_right _ mem_cons_self

lemma plug_mem_nodes {outer inner frames : List Frame} (h : frames = outer ++ inner) (e : Expr) :
    plug inner e ∈ (plug frames e).nodes := by
  subst h
  induction outer with
  | nil => exact self_mem_nodes _
  | cons f rest ih => exact mem_nodes_of_child (plug_mem_children f (rest ++ inner) e) ih

end Expr

/-- The operators that compute with numbers and coordinates. -/
def BinaryOp.isArithmetic : BinaryOp → Bool
  | .add | .subtract | .multiply | .divide => true
  | _ => false

section Operators

variable {s s' t t' r : Ty}

/-- The result of an operator says less when its operands do, unless a number stands beside a lost coordinate. -/
lemma BinaryOp.type_anti {operator : BinaryOp} (h : operator.type s t = .ok r) (hs : s' ≤ s) (ht : t' ≤ t) :
    ∃ r', operator.type s' t' = .ok r' ∧ (r' ≤ r ∨ (operator.isArithmetic = true ∧
      ((s.isCoordinate = true ∧ s' = .generic ∧ t' = .num) ∨
        (t.isCoordinate = true ∧ t' = .generic ∧ s' = .num)))) := by
  cases operator with
  | or | and => exact ⟨r, Ty.logical_anti h hs ht, .inl le_rfl⟩
  | equal | notEqual => exact ⟨r, Ty.equality_anti h hs ht, .inl le_rfl⟩
  | less | lessEqual | greater | greaterEqual => exact ⟨r, Ty.ordered_anti h hs ht, .inl le_rfl⟩
  | elementOf => exact ⟨r, Ty.membership_anti h hs ht, .inl le_rfl⟩
  | add | subtract | multiply | divide =>
    obtain ⟨r', hr', hle⟩ := Ty.arithmetic_anti h hs ht
    exact ⟨r', hr', hle.imp_right fun hlost => ⟨rfl, hlost⟩⟩
  | concat =>
    obtain ⟨r', hle, hr'⟩ := Ty.concatenation_anti h hs ht
    exact ⟨r', hr', .inl hle⟩

lemma UnaryOp.type_anti {operator : UnaryOp} (h : operator.type t = .ok r) (ht : t' ≤ t) :
    operator.type t' = .ok r := by
  cases operator with
  | not => exact Ty.negation_anti h ht
  | negate | absolute => exact Ty.signed_anti h ht

end Operators

namespace Ty

variable {types types' : List Ty} {merged merged' element : Ty}

lemma operandIssues_eq_nil {result : Except OperandError Ty} (h : operandIssues result = []) :
    ∃ type, result = .ok type := by
  cases result with
  | ok type => exact ⟨type, rfl⟩
  | error e => cases h

lemma elementIssues_eq_nil : merged.elementIssues element = [] ↔ element ≠ .void ∧ merged.unifies element = true := by
  unfold elementIssues
  split
  · simp_all
  · split <;> simp_all

lemma listIssues_anti (h : merged.listIssues types = []) (hmerged : merged' ≤ merged)
    (htypes : List.Forall₂ (· ≤ ·) types' types) : merged'.listIssues types' = [] ∧
      types'.foldl mergeFitting merged' ≤ types.foldl mergeFitting merged := by
  induction htypes generalizing merged merged' with
  | nil => exact ⟨rfl, hmerged⟩
  | @cons type' type rest' rest hle hrest ih =>
    rw [listIssues, append_eq_nil_iff, elementIssues_eq_nil] at h
    obtain ⟨⟨hvoid, hunify⟩, h⟩ := h
    have hfits' : type' ≠ .void ∧ merged'.unifies type' = true :=
      ⟨ne_void_anti hvoid hle, unifies_anti hmerged hle hunify⟩
    have hnext : merged'.mergeFitting type' ≤ merged.mergeFitting type := by
      rw [mergeFitting, mergeFitting, if_pos hfits', if_pos ⟨hvoid, hunify⟩]
      exact merge_mono hmerged hle hunify
    obtain ⟨hissues, hfold⟩ := ih h hnext
    rw [listIssues, append_eq_nil_iff, elementIssues_eq_nil]
    exact ⟨⟨hfits', hissues⟩, hfold⟩

end Ty

section Calls

variable {d : Declarations} {name : String} {arguments arguments' : List Expr} {types types' : List Ty}

lemma wrongReferences_anti {position : Nat} {byReference : List Bool}
    (hnames : List.Forall₂ (fun e' e => e.isIdentifier = true → e'.isIdentifier = true) arguments' arguments)
    (h : Inspect.wrongReferences name position arguments byReference = []) :
    Inspect.wrongReferences name position arguments' byReference = [] := by
  induction hnames generalizing position byReference with
  | nil => rfl
  | @cons e' e rest' rest hname hrest ih =>
    cases byReference with
    | nil => rfl
    | cons flag flags =>
      rw [Inspect.wrongReferences, append_eq_nil_iff] at h ⊢
      refine ⟨?_, ih h.2⟩
      have hflag := h.1
      cases flag with
      | false => rfl
      | true =>
        cases hidentifier : e.isIdentifier with
        | true => rw [hname hidentifier]; rfl
        | false => rw [hidentifier] at hflag; cases hflag

def Declarations.acceptingHeaders (d : Declarations) (name : String) (types : List Ty) : List Header :=
  match d.function? name with
  | some f => f.headers.filter fun h => h.accepts types
  | none => []

lemma Declarations.acceptingHeaders_eq {f : FunctionEntry} (h : d.function? name = some f) :
    d.acceptingHeaders name types = f.headers.filter fun k => k.accepts types := by
  rw [acceptingHeaders, h]

lemma Declarations.callIssues_anti (h : d.callIssues name arguments types = [])
    (hnames : List.Forall₂ (fun e' e => e.isIdentifier = true → e'.isIdentifier = true) arguments' arguments)
    (htypes : List.Forall₂ (· ≤ ·) types' types) (hone : (d.acceptingHeaders name types').length = 1) :
    d.callIssues name arguments' types' = [] ∧ d.callResult name types' = d.callResult name types := by
  unfold callIssues callResult at *
  cases hresolve : d.resolveCall name types with
  | error issue =>
    rw [hresolve] at h
    cases h
  | ok resolved =>
    have hresolve' : d.resolveCall name types' = .ok resolved := by
      obtain ⟨f, hf, hreturn, hfilter⟩ := resolveCall_eq_ok_iff.mp hresolve
      have hmem : resolved.header ∈ f.headers.filter fun k => k.accepts types := hfilter ▸ mem_singleton_self _
      -- the header that was meant before still accepts the arguments, so it is the one that does
      have hmem' : resolved.header ∈ f.headers.filter fun k => k.accepts types' := by
        obtain ⟨hheader, haccepts⟩ := mem_filter.mp hmem
        exact mem_filter.mpr ⟨hheader, Header.fits_of_le htypes haccepts⟩
      rw [acceptingHeaders_eq hf] at hone
      obtain ⟨header, hheader⟩ := length_eq_one_iff.mp hone
      rw [hheader] at hmem'
      exact resolveCall_eq_ok_iff.mpr ⟨f, hf, hreturn, mem_singleton.mp hmem' ▸ hheader⟩
    rw [hresolve] at h
    rw [hresolve']
    exact ⟨wrongReferences_anti hnames h, rfl⟩

end Calls

namespace Expr

/-- Whether a node, if it is a call, has one header that accepts its arguments. -/
def callsOne (d : Declarations) (type : Expr → Ty) (n : Expr) : Bool :=
  n.call?.all fun call => (d.acceptingHeaders call.1 (call.2.map type)).length == 1

/-- Whether a coordinate is lost in the place of one operand while the other is a number. -/
def Frame.misleads (old new : Expr → Ty) (e e' : Expr) : Frame → Bool
  | .leftOperand _ operator other | .rightOperand _ operator other =>
    operator.isArithmetic && (old e).isCoordinate && new e' == .generic && new other == .num
  | _ => false

/-- Whether a coordinate is lost beside a number anywhere around a place. -/
def misled (old new : Expr → Ty) (e e' : Expr) : List Frame → Bool
  | [] => false
  | f :: rest => f.misleads old new (plug rest e) (plug rest e') || misled old new e e' rest

/-- An expression that says no more than another and can be passed by reference where the other can. -/
structure Looser (d : Declarations) (e' e : Expr) : Prop where
  type : e'.typeIn d ≤ e.typeIn d
  name : e.isIdentifier = true → e'.isIdentifier = true

section Looser

variable {d : Declarations} {e e' left left' right right' : Expr} {m : Mark} {frames : List Frame}

lemma Looser.refl (d : Declarations) (e : Expr) : Looser d e e :=
  ⟨le_rfl, fun h => h⟩

lemma Looser.operands (h : Looser d e' e) (earlier later : List Expr) :
    List.Forall₂ (Looser d) (earlier ++ e' :: later) (earlier ++ e :: later) :=
  rel_append (forall₂_same.mpr fun c _ => .refl d c)
    (.cons h (forall₂_same.mpr fun c _ => .refl d c))

lemma looser_call {name : String} {arguments arguments' : List Expr}
    (hlooser : List.Forall₂ (Looser d) arguments' arguments)
    (hown : d.callIssues name arguments (arguments.map (typeIn d)) = [])
    (hone : (d.acceptingHeaders name (arguments'.map (typeIn d))).length = 1) :
    d.callIssues name arguments' (arguments'.map (typeIn d)) = [] ∧
      d.callResult name (arguments'.map (typeIn d)) = d.callResult name (arguments.map (typeIn d)) := by
  refine Declarations.callIssues_anti hown (hlooser.imp fun _ _ h => h.name) ?_ hone
  rw [forall₂_map_left_iff, forall₂_map_right_iff]
  exact hlooser.imp fun _ _ h => h.type

lemma looser_binary {operator : BinaryOp} (hown : (binary m operator left right).ownIssues d = [])
    (hleft : left'.typeIn d ≤ left.typeIn d) (hright : right'.typeIn d ≤ right.typeIn d) :
    (binary m operator left' right').ownIssues d = [] ∧
      ((binary m operator left' right').typeIn d ≤ (binary m operator left right).typeIn d ∨
        (operator.isArithmetic = true ∧
          (((left.typeIn d).isCoordinate = true ∧ left'.typeIn d = .generic ∧ right'.typeIn d = .num) ∨
            ((right.typeIn d).isCoordinate = true ∧ right'.typeIn d = .generic ∧ left'.typeIn d = .num)))) := by
  obtain ⟨type, htype⟩ := Ty.operandIssues_eq_nil hown
  obtain ⟨type', htype', hle⟩ := BinaryOp.type_anti htype hleft hright
  rw [ownIssues, typeIn, typeIn, htype, htype']
  exact ⟨rfl, hle⟩

lemma looser_index (hown : (index m left right).ownIssues d = []) (hleft : left'.typeIn d ≤ left.typeIn d)
    (hright : right'.typeIn d ≤ right.typeIn d) :
    (index m left' right').ownIssues d = [] ∧ (index m left' right').typeIn d ≤ (index m left right).typeIn d := by
  rw [ownIssues, append_eq_nil_iff] at hown
  obtain ⟨hposition, hbase⟩ := hown
  have hnum : (right.typeIn d).isNum = true := by
    by_contra hnot
    rw [if_neg hnot] at hposition
    cases hposition
  obtain ⟨type, htype⟩ := Ty.operandIssues_eq_nil hbase
  obtain ⟨type', hle, htype'⟩ := Ty.element?_anti htype hleft
  rw [ownIssues, typeIn, typeIn, htype, htype', if_pos (Ty.isNum_anti hnum hright)]
  exact ⟨rfl, hle⟩

/-- A node around an operand that says less has no issues of its own, and it says less unless it is misled. -/
lemma Looser.fill (h : Looser d e' e) (f : Frame) (hown : (f.fill e).ownIssues d = [])
    (hone : (f.fill e').callsOne d (typeIn d) = true) : (f.fill e').ownIssues d = [] ∧
      (f.misleads (typeIn d) (typeIn d) e e' = false → (f.fill e').typeIn d ≤ (f.fill e).typeIn d) := by
  cases f with
  | leftOperand m operator other =>
    obtain ⟨hissues, hle⟩ := looser_binary hown h.type (le_refl (other.typeIn d))
    refine ⟨hissues, fun hplain => ?_⟩
    rcases hle with hle | ⟨hoperator, ⟨hlost, he', hother⟩ | ⟨hlost, hother, -⟩⟩
    · exact hle
    · simp [Frame.misleads, hoperator, hlost, he', hother] at hplain
    · -- the other operand is the same in both expressions, it cannot have been lost
      rw [hother] at hlost
      cases hlost
  | rightOperand m operator other =>
    obtain ⟨hissues, hle⟩ := looser_binary hown (le_refl (other.typeIn d)) h.type
    refine ⟨hissues, fun hplain => ?_⟩
    rcases hle with hle | ⟨hoperator, ⟨hlost, hother, -⟩ | ⟨hlost, he', hother⟩⟩
    · exact hle
    · rw [hother] at hlost
      cases hlost
    · simp [Frame.misleads, hoperator, hlost, he', hother] at hplain
  | operand m operator =>
    obtain ⟨type, htype⟩ := Ty.operandIssues_eq_nil hown
    have htype' := UnaryOp.type_anti htype h.type
    rw [Frame.fill, Frame.fill, ownIssues, typeIn, typeIn, htype, htype']
    exact ⟨rfl, fun _ => le_rfl⟩
  | argument m name earlier later =>
    obtain ⟨hissues, hresult⟩ := looser_call (h.operands earlier later) hown (beq_iff_eq.mp hone)
    refine ⟨hissues, fun _ => ?_⟩
    rw [Frame.fill, Frame.fill, typeIn, typeIn, typesIn_eq, typesIn_eq, hresult]
  | receiver m field =>
    obtain ⟨hissues, hresult⟩ := looser_call (h.operands [] []) hown (beq_iff_eq.mp hone)
    exact ⟨hissues, fun _ => le_of_eq hresult⟩
  | indexed m other =>
    obtain ⟨hissues, hle⟩ := looser_index hown h.type (le_refl (other.typeIn d))
    exact ⟨hissues, fun _ => hle⟩
  | indexing m other =>
    obtain ⟨hissues, hle⟩ := looser_index hown (le_refl (other.typeIn d)) h.type
    exact ⟨hissues, fun _ => hle⟩
  | element m earlier later =>
    have htypes : List.Forall₂ (· ≤ ·) ((earlier ++ e' :: later).map (typeIn d))
        ((earlier ++ e :: later).map (typeIn d)) := by
      rw [forall₂_map_left_iff, forall₂_map_right_iff]
      exact (h.operands earlier later).imp fun _ _ h => h.type
    obtain ⟨hissues, hle⟩ := Ty.listIssues_anti hown le_rfl htypes
    refine ⟨hissues, fun _ => ?_⟩
    rw [Frame.fill, Frame.fill, typeIn, typeIn, typesIn_eq, typesIn_eq]
    exact hle

lemma not_unifies_of_misleads {f : Frame} (h : f.misleads (typeIn d) (typeIn d) e e' = true) :
    ((f.fill e').typeIn d).unifies ((f.fill e).typeIn d) = false := by
  have hsum : ∀ {operator : BinaryOp} {s : Ty}, operator.isArithmetic = true → s.isCoordinate = true →
      operator.type .generic .num = .ok .num ∧ operator.type .num .generic = .ok .num ∧
        operator.type s .num = .ok s ∧ operator.type .num s = .ok s ∧ Ty.num.unifies s = false := by
    intro operator s hoperator hs
    cases operator <;> cases hoperator <;> cases s <;> cases hs <;> decide
  cases f with
  | leftOperand m operator other | rightOperand m operator other =>
    simp only [Frame.misleads, Bool.and_eq_true, beq_iff_eq] at h
    obtain ⟨⟨⟨hoperator, hlost⟩, he'⟩, hother⟩ := h
    obtain ⟨hleft', hright', hleft, hright, hdiffer⟩ := hsum hoperator hlost
    simp [Frame.fill, typeIn, he', hother, hleft, hleft', hright, hright', Ty.recovered, hdiffer]
  | _ => cases h

lemma issues_fill (f : Frame) (e : Expr) : (f.fill e).issues d = f.before.flatMap (issues d) ++ (e.issues d ++
    f.after.flatMap (issues d)) ++ (f.fill e).issuesHere d := by
  rw [issues_eq, f.children_fill, flatMap_append, flatMap_cons]

lemma Looser.plug (h : Looser d e' e) (hissues : (plug frames e).issues d = [])
    (hone : ∀ n ∈ (plug frames e').nodes, n.callsOne d (typeIn d) = true)
    (hplain : misled (typeIn d) (typeIn d) e e' frames = false) :
    Looser d (Expr.plug frames e') (Expr.plug frames e) ∧ (Expr.plug frames e').issues d = e'.issues d := by
  induction frames with
  | nil => exact ⟨h, rfl⟩
  | cons f rest ih =>
    rw [misled, Bool.or_eq_false_iff] at hplain
    rw [Expr.plug, issues_fill] at hissues
    simp only [append_eq_nil_iff] at hissues
    obtain ⟨⟨hbefore, hinner, hafter⟩, hhere⟩ := hissues
    -- the other operands are as before, so the only issues left are those of the place
    obtain ⟨hlooser, hrest⟩ :=
      ih hinner (fun n hn => hone n (mem_nodes_of_child (plug_mem_children f rest e') hn)) hplain.2
    obtain ⟨hown, hle⟩ := hlooser.fill f (map_eq_nil_iff.mp hhere) (hone _ (self_mem_nodes _))
    refine ⟨⟨hle hplain.1, fun hname => ?_⟩, ?_⟩
    · rw [Expr.plug, f.isIdentifier_fill] at hname
      cases hname
    · rw [Expr.plug, issues_fill, hbefore, hafter, issuesHere, hown, hrest]
      simp

end Looser

section Misled

variable {d : Declarations} {old new old' new' : Expr → Ty} {e e' : Expr} {frames outer inner : List Frame} {f : Frame}

lemma plug_append (outer inner : List Frame) (e : Expr) : plug (outer ++ inner) e = plug outer (plug inner e) := by
  induction outer with
  | nil => rfl
  | cons f rest ih => rw [cons_append, plug, plug, ih]

lemma misled_append (outer inner : List Frame) : misled old new e e' (outer ++ inner) =
    (misled old new (plug inner e) (plug inner e') outer || misled old new e e' inner) := by
  induction outer with
  | nil => rfl
  | cons f rest ih => rw [cons_append, misled, misled, ih, plug_append, plug_append, Bool.or_assoc]

lemma exists_of_misled (h : misled old new e e' frames = true) :
    ∃ outer f inner, frames = outer ++ f :: inner ∧ f.misleads old new (plug inner e) (plug inner e') = true := by
  induction frames with
  | nil => cases h
  | cons f rest ih =>
    rw [misled, Bool.or_eq_true] at h
    rcases h with h | h
    · exact ⟨[], f, rest, rfl, h⟩
    · obtain ⟨outer, g, inner, rfl, hg⟩ := ih h
      exact ⟨f :: outer, g, inner, rfl, hg⟩

lemma misleads_congr (hold : old e = old' e) (hnew : ∀ c ∈ (f.fill e').children, new c = new' c) :
    f.misleads old new e e' = f.misleads old' new' e e' := by
  have he' : new e' = new' e' := by
    refine hnew e' ?_
    rw [f.children_fill]
    exact mem_append_right _ mem_cons_self
  cases f with
  | leftOperand m operator other | rightOperand m operator other =>
    have hother : new other = new' other := hnew other (by simp [Frame.fill, children])
    rw [Frame.misleads, Frame.misleads, hold, he', hother]
  | _ => rfl

lemma misled_congr (hold : ∀ n ∈ (plug frames e).nodes, old n = old' n)
    (hnew : ∀ n ∈ (plug frames e').nodes, new n = new' n) :
    misled old new e e' frames = misled old' new' e e' frames := by
  induction frames with
  | nil => rfl
  | cons f rest ih =>
    have hrest := ih (fun n hn => hold n (mem_nodes_of_child (plug_mem_children f rest e) hn))
      fun n hn => hnew n (mem_nodes_of_child (plug_mem_children f rest e') hn)
    have hfirst := misleads_congr (hold _ (mem_nodes_of_child (plug_mem_children f rest e) (self_mem_nodes _)))
      fun c hc => hnew c (mem_nodes_of_child hc (self_mem_nodes c))
    rw [misled, misled, hrest, hfirst]

lemma issues_eq_nil_of_mem {n : Expr} (hn : n ∈ e.nodes) (h : e.issues d = []) : n.issues d = [] := by
  rw [issues, flatMap_eq_nil_iff] at h ⊢
  exact fun k hk => h k (mem_nodes_trans hk hn)

/-- Every part around the place has a type that unifies with the one before, exactly if no coordinate is lost. -/
lemma misled_eq_false_iff (hlooser : Looser d e' e) (hissues : (plug frames e).issues d = [])
    (hone : ∀ n ∈ (plug frames e').nodes, n.callsOne d (typeIn d) = true) :
    misled (typeIn d) (typeIn d) e e' frames = false ↔ ∀ outer inner, frames = outer ++ inner →
      ((plug inner e').typeIn d).unifies ((plug inner e).typeIn d) = true := by
  constructor
  · rintro hplain outer inner rfl
    rw [misled_append, Bool.or_eq_false_iff] at hplain
    have hpart := hlooser.plug (issues_eq_nil_of_mem (plug_mem_nodes rfl e) hissues)
      (fun n hn => hone n (mem_nodes_trans hn (plug_mem_nodes rfl e'))) hplain.2
    exact Ty.unifies_of_le hpart.1.type
  · intro hunify
    rw [Bool.eq_false_iff]
    intro hmisled
    obtain ⟨outer, f, inner, rfl, hf⟩ := exists_of_misled hmisled
    exact absurd (hunify outer (f :: inner) rfl) (Bool.eq_false_iff.mp (not_unifies_of_misleads hf))

end Misled

end Expr

namespace Inspect

open Expr

/-- An expression is taken where one of the given type would be: as the initial value of a variable, on both sides of an
assignment and as a condition. -/
structure TakenFor (type : Ty) (context : Context) (value : Expr) (s s' : Inspection) : Prop where
  initialValue : ∀ declared : Ty, declared.unifies type = true →
    (initialValue context declared (some value)).run s = ((), s')
  assigned : ∀ outside line target targetType r, context = outside.moveTo line →
    (exprType context target).run r = (targetType, s) → targetType.unifies type = true →
      (statement outside (.assign target value line)).run r = ((), s')
  assignedTo : ∀ outside line other otherType r, context = outside.moveTo line →
    (exprType context other).run s' = (otherType, r) → type.unifies otherType = true →
      (statement outside (.assign value other line)).run s = ((), r)
  condition : ∀ word, type.isBool = true → (condition context word value).run s = ((), s')

lemma takenFor_of_le {type type' : Ty} {context : Context} {value : Expr} {s s' : Inspection}
    (h : (exprType context value).run s = (type', s')) (hle : type' ≤ type) : TakenFor type context value s s' := by
  refine ⟨fun declared hdeclared => ?_, ?_, ?_, fun word hbool => ?_⟩
  · have hfits := Ty.unifies_anti (le_refl declared) hle hdeclared
    rw [Inspect.initialValue, runState_bind]
    refine ⟨type', s', h, ?_⟩
    rw [hfits]
    rfl
  · rintro outside line target targetType r rfl htarget hunifies
    have hfits := Ty.unifies_anti (le_refl targetType) hle hunifies
    rw [statement, runState_bind]
    refine ⟨targetType, s, htarget, ?_⟩
    rw [runState_bind]
    refine ⟨type', s', h, ?_⟩
    rw [hfits]
    rfl
  · rintro outside line other otherType r rfl hother hunifies
    have hfits := Ty.unifies_anti hle (le_refl otherType) hunifies
    rw [statement, runState_bind]
    refine ⟨type', s', h, ?_⟩
    rw [runState_bind]
    refine ⟨otherType, r, hother, ?_⟩
    rw [hfits]
    rfl
  · rw [Inspect.condition, runState_bind]
    refine ⟨type', s', h, ?_⟩
    rw [Ty.isBool_anti hbool hle]
    rfl

def recordedType (s : Inspection) (e : Expr) : Ty :=
  s.analysis.types.typeOf e.id

section Undeclared

variable {d : Declarations} {context : Context} {place : Option String} {s t : Inspection} {e n : Expr} {m : Mark}
  {name : String}

lemma Appraised.recordedType (h : Appraised d place [e] s t) (hn : n ∈ e.nodes) :
    recordedType t n = n.typeIn d :=
  TypeTable.typeOf_eq (h.types e mem_cons_self n hn)

lemma issues_of_clean (h : Appraised d place [e] s t) (hclean : t.diagnostics.errors = s.diagnostics.errors) :
    e.issues d = [] := by
  obtain ⟨filed, hperm, herrors⟩ := h.finds.errors
  rw [hclean, self_eq_append_right, map_eq_nil_iff] at herrors
  rw [herrors, flatMap_singleton] at hperm
  exact hperm.symm.eq_nil

lemma diagnostics_of_single {issue : Issue} {line : Nat} (h : Appraised d place [e] s t)
    (hissues : e.issues d = [(issue, line)]) (hissue : issue.isWarning = false) :
    t.diagnostics = s.diagnostics.add ⟨issue, line, s.file⟩ place := by
  obtain ⟨filed, hperm, herrors⟩ := h.finds.errors
  rw [flatMap_singleton, hissues, perm_singleton] at hperm
  rw [hperm] at herrors
  rw [Diagnostics.add, if_neg (by simp [hissue]), ← h.finds.warnings]
  exact congrArg (Diagnostics.mk · t.diagnostics.warnings) herrors

lemma looser_undeclared (hname : d.read name = none) (e : Expr) : Looser d (.identifier m name) e := by
  refine ⟨?_, fun _ => rfl⟩
  rw [typeIn, Declarations.find?_of_read_none hname]
  exact Ty.generic_le _

lemma issues_undeclared (hname : d.read name = none) :
    (Expr.identifier m name).issues d = [(.variableNotDeclared name, m.line)] := by
  rw [issues, nodes, flatMap_singleton, issuesHere, ownIssues, Declarations.find?_of_read_none hname]
  rfl

lemma callsOne_congr {type type' : Expr → Ty} (h : ∀ c ∈ n.children, type c = type' c) :
    n.callsOne d type = n.callsOne d type' := by
  cases n with
  | call m name arguments =>
    have hmap : arguments.map type = arguments.map type' := map_congr_left h
    simp only [callsOne, call?, Option.all_some, hmap]
  | member m base field =>
    have hmap : [base].map type = [base].map type' := map_congr_left h
    simp only [callsOne, call?, Option.all_some, hmap]
  | _ => rfl

end Undeclared

/-- A name that is not declared, in the place of a part of an expression without errors, is filed as one error and
nothing else is, as long as no coordinate is lost beside a number: this is what keeps the types around the place
compatible with those before. The type of the expression then says no more than before, and it is taken wherever the
former one would be. -/
theorem undeclared_name_filed_once {context : Context} {s t t' : Inspection} {frames : List Frame} {e : Expr}
    {m : Mark} {name : String} {type type' : Ty}
    (hrun : (exprType context (plug frames e)).run s = (type, t)) (hfresh : s.Fresh (plug frames e).ids)
    (hclean : t.diagnostics.errors = s.diagnostics.errors) (hname : s.analysis.declarations.read name = none)
    (hrun' : (exprType context (plug frames (.identifier m name))).run s = (type', t'))
    (hfresh' : s.Fresh (plug frames (.identifier m name)).ids)
    (hone : ∀ n ∈ (plug frames (.identifier m name)).nodes,
      n.callsOne s.analysis.declarations (recordedType t') = true) :
    (misled (recordedType t) (recordedType t') e (.identifier m name) frames = false ↔
      ∀ outer inner, frames = outer ++ inner →
        (recordedType t' (plug inner (.identifier m name))).unifies (recordedType t (plug inner e)) = true) ∧
    (misled (recordedType t) (recordedType t') e (.identifier m name) frames = false →
      t'.diagnostics = s.diagnostics.add ⟨.variableNotDeclared name, m.line, s.file⟩ context.place ∧
      type' ≤ type ∧ type'.unifies type = true ∧
      TakenFor type context (plug frames (.identifier m name)) s t') := by
  set d := s.analysis.declarations
  have hknows : s.Knows d := ⟨rfl, rfl⟩
  obtain ⟨htype, happraised⟩ := appraisesAs d context _ s type t hrun hfresh hknows
  obtain ⟨htype', happraised'⟩ := appraisesAs d context _ s type' t' hrun' hfresh' hknows
  have hissues := issues_of_clean happraised hclean
  have hlooser : Looser d (.identifier m name) e := looser_undeclared hname e
  have hone' : ∀ n ∈ (plug frames (.identifier m name)).nodes, n.callsOne d (typeIn d) = true := by
    intro n hn
    rw [← hone n hn]
    exact callsOne_congr fun c hc => (happraised'.recordedType (child_mem_nodes hc hn)).symm
  have hparts : ∀ outer inner, frames = outer ++ inner →
      recordedType t (plug inner e) = (plug inner e).typeIn d ∧
        recordedType t' (plug inner (.identifier m name)) = (plug inner (.identifier m name)).typeIn d :=
    fun outer inner hframes => ⟨happraised.recordedType (plug_mem_nodes hframes e),
      happraised'.recordedType (plug_mem_nodes hframes _)⟩
  rw [misled_congr (fun n hn => happraised.recordedType hn) fun n hn => happraised'.recordedType hn]
  constructor
  · rw [misled_eq_false_iff hlooser hissues hone']
    refine forall₂_congr fun outer inner => forall_congr' fun hframes => ?_
    rw [(hparts outer inner hframes).1, (hparts outer inner hframes).2]
  · intro hplain
    obtain ⟨hwhole, hissues'⟩ := hlooser.plug hissues hone' hplain
    have hle : type' ≤ type := by
      rw [htype, htype']
      exact hwhole.type
    rw [issues_undeclared hname] at hissues'
    exact ⟨diagnostics_of_single happraised' hissues' rfl, hle, Ty.unifies_of_le hle, takenFor_of_le hrun' hle⟩

/-- In `len([x + 1, 1]) == 1` the name is passed through a sum, a list, a call and a comparison. -/
theorem undeclared_name_filed_once_nested :
    let s : Inspection := ⟨"rules", ⟨{ functions := [("len", ⟨.num, [.ofPredefined [.genericArray]]⟩)] }, .ofSize 8, [],
      Config.default⟩, {}⟩
    let one := fun id => Expr.literal ⟨id, 1⟩ (.number .one)
    let frames : List Frame := [.leftOperand ⟨7, 1⟩ .equal (one 6), .argument ⟨5, 1⟩ "len" [] [],
      .element ⟨4, 1⟩ [] [one 3], .leftOperand ⟨2, 1⟩ .add (one 1)]
    let new := plug frames (.identifier ⟨0, 1⟩ "x")
    ((exprType (.topLevel 1) (plug frames (one 0))).run s).1 = .bool ∧
      ((exprType (.topLevel 1) new).run s).2.diagnostics =
        s.diagnostics.add ⟨.variableNotDeclared "x", 1, "rules"⟩ none ∧
      TakenFor .bool (.topLevel 1) new s ((exprType (.topLevel 1) new).run s).2 := by
  intro s one frames new
  have htype : ((exprType (.topLevel 1) (plug frames (one 0))).run s).1 = .bool := by decide +kernel
  have hclean : ((exprType (.topLevel 1) (plug frames (one 0))).run s).2.diagnostics.errors = [] := by decide +kernel
  have hone : ∀ n ∈ new.nodes,
      n.callsOne s.analysis.declarations (recordedType ((exprType (.topLevel 1) new).run s).2) = true := by
    decide +kernel
  have hplain : misled (recordedType ((exprType (.topLevel 1) (plug frames (one 0))).run s).2)
      (recordedType ((exprType (.topLevel 1) new).run s).2) (one 0) (.identifier ⟨0, 1⟩ "x") frames = false := by
    decide +kernel
  rcases hold : (exprType (.topLevel 1) (plug frames (one 0))).run s with ⟨type, t⟩
  rcases hnew : (exprType (.topLevel 1) new).run s with ⟨type', t'⟩
  rw [hold] at htype hclean hplain
  rw [hnew] at hone hplain
  have hfresh : s.Fresh (plug frames (one 0)).ids := ⟨by decide +kernel, by decide +kernel⟩
  have hfresh' : s.Fresh new.ids := ⟨by decide +kernel, by decide +kernel⟩
  have h := undeclared_name_filed_once hold hfresh hclean (by decide +kernel) hnew hfresh' hone
  obtain ⟨hfiled, -, -, htaken⟩ := h.2 hplain
  exact ⟨htype, hfiled, htype ▸ htaken⟩

/-- `$e4 + 1 == $e5` has no errors. With an unknown name instead of `$e4` the sum is taken for a number, and there is a
second error where it is compared with a cell. -/
theorem undeclared_name_beside_number :
    let s : Inspection := ⟨"rules", Analysis.initial 5, {}⟩
    let frames : List Frame := [.leftOperand ⟨4, 1⟩ .equal (.literal ⟨3, 1⟩ (.cell "e5")),
      .leftOperand ⟨2, 1⟩ .add (.literal ⟨1, 1⟩ (.number .one))]
    let old := (exprType (.topLevel 1) (plug frames (.literal ⟨0, 1⟩ (.cell "e4")))).run s
    let new := (exprType (.topLevel 1) (plug frames (.identifier ⟨0, 1⟩ "x"))).run s
    old.2.diagnostics.errors = [] ∧ new.2.diagnostics.errors.map (fun d => d.fault.issue) =
      [.variableNotDeclared "x", .operatorType (OperandError.notComparable .num .cell).message] := by
  decide +kernel

end Inspect

end ChessEval
