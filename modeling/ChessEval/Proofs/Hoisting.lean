import ChessEval.Proofs.Spelling

/-!
# Lines of list literals

A list literal becomes a variable that is declared and filled on lines before the expression.
-/

namespace ChessEval

open List

def Expr.isList : Expr → Bool
  | .list .. | .emptyList _ => true
  | _ => false

def Expr.lists (e : Expr) : List Expr :=
  e.nodes.filter Expr.isList

lemma Expr.lists_eq (e : Expr) :
    e.lists = e.children.flatMap Expr.lists ++ if e.isList then [e] else [] := by
  rw [lists, nodes_eq, filter_append, filter_flatMap, filter_singleton, cond_eq_ite]
  rfl

def Translate.literalName (next : Nat) : String :=
  "_lit" ++ "_" ++ toString next

namespace Code

/-- The code of a list literal: the number and the type of its variable, and what is put into it. -/
structure ListCode where
  node : Expr
  number : Nat
  type : String
  elements : List String

namespace ListCode

def name (l : ListCode) : String :=
  Translate.literalName l.number

def declaration (l : ListCode) : String :=
  l.type ++ " " ++ l.name ++ ";"

/-- The declaration and right after it the elements in order. -/
def lines (l : ListCode) : List String :=
  l.declaration :: l.elements.map fun element => l.name ++ ".push_back(" ++ element ++ ");"

/-- The variable has the type of the list literal. It is filled with the codes of the elements, and these
are written after the count has reached `first` and right before the variable is numbered. -/
structure Codes (file : String) (a : Analysis) (first : Nat) (l : ListCode) : Prop where
  type_eq : typeCode file (a.types.typeOf l.node.id) l.node.line = .ok l.type
  elements_eq : ∃ h h', (exprs file a l.node.children).run h = (.ok l.elements, h') ∧
    first ≤ h.nextTemp ∧ h'.nextTemp = l.number

lemma Codes.mono {file : String} {a : Analysis} {first earlier : Nat} {l : ListCode}
    (hcodes : l.Codes file a first) (hle : earlier ≤ first) : l.Codes file a earlier := by
  obtain ⟨h, h', hrun, hfirst, hnumber⟩ := hcodes.elements_eq
  exact ⟨hcodes.type_eq, h, h', hrun, hle.trans hfirst, hnumber⟩

end ListCode

section Hoisting

variable {file : String} {a : Analysis} {h h₁ h' : Hoist} {lists lists' : List ListCode}

/-- A step of writing that adds the lines of list literals. -/
structure Hoists (file : String) (a : Analysis) (lists : List ListCode) (h h' : Hoist) : Prop where
  next_eq : h'.nextTemp = h.nextTemp + lists.length
  lines_eq : h'.lines = h.lines ++ lists.flatMap ListCode.lines
  numbers : lists.map ListCode.number = List.range' h.nextTemp lists.length
  codes : ∀ l ∈ lists, l.Codes file a h.nextTemp

lemma Hoists.refl (h : Hoist) : Hoists file a [] h h :=
  ⟨rfl, (append_nil _).symm, rfl, by simp⟩

lemma Hoists.trans (hfirst : Hoists file a lists h h₁) (hnext : Hoists file a lists' h₁ h') :
    Hoists file a (lists ++ lists') h h' where
  next_eq := by rw [hnext.next_eq, hfirst.next_eq, length_append, Nat.add_assoc]
  lines_eq := by rw [hnext.lines_eq, hfirst.lines_eq, flatMap_append, append_assoc]
  numbers := by
    rw [map_append, hfirst.numbers, hnext.numbers, hfirst.next_eq, length_append]
    exact List.range'_append_1
  codes := by
    intro l hl
    rcases mem_append.mp hl with hl | hl
    · exact hfirst.codes l hl
    · refine (hnext.codes l hl).mono ?_
      rw [hfirst.next_eq]
      exact Nat.le_add_right _ _

lemma Hoists.mem_numbers (hhoists : Hoists file a lists h h') {n : Nat} :
    n ∈ lists.map ListCode.number ↔ h.nextTemp ≤ n ∧ n < h'.nextTemp := by
  rw [hhoists.numbers, mem_range'_1, hhoists.next_eq]

/-- The list literals before one of a run have the numbers from the start of the count to its own. -/
lemma Hoists.mem_numbers_before {earlier later : List ListCode} {l : ListCode} {n : Nat}
    (hhoists : Hoists file a (earlier ++ l :: later) h h') :
    n ∈ earlier.map ListCode.number ↔ h.nextTemp ≤ n ∧ n < l.number := by
  have hnumbers := hhoists.numbers
  rw [length_append, ← List.range'_append_1, map_append, map_cons, length_cons,
    List.range'_succ] at hnumbers
  obtain ⟨hearlier, hrest⟩ := append_inj hnumbers (by simp)
  rw [hearlier, mem_range'_1, (List.cons.inj hrest).1]

lemma of_ofExcept {α : Type} {x : Except Fault α} {value : α} (hrun : (Write.ofExcept x).run h = (.ok value, h')) :
    x = .ok value ∧ h' = h := by
  cases x with
  | error fault => cases hrun
  | ok value =>
    cases hrun
    exact ⟨rfl, rfl⟩

lemma run_hoistList {m : Mark} {name : String}
    (hrun : (hoistList file a m).run h = (.ok name, h')) :
    ∃ type, typeCode file (a.types.typeOf m.id) m.line = .ok type ∧ name = Translate.literalName h.nextTemp ∧
      h' = ⟨h.nextTemp + 1, h.lines ++ [type ++ " " ++ name ++ ";"]⟩ := by
  obtain ⟨type, u, htype, hname⟩ := run_bind_ok.mp hrun
  cases hname
  obtain ⟨hcode, rfl⟩ := of_ofExcept htype
  exact ⟨type, hcode, rfl, rfl⟩

lemma run_pushBack {name : String} {elements : List String} {result : Unit}
    (hrun : (pushBack name elements).run h = (.ok result, h')) :
    h' = ⟨h.nextTemp, h.lines ++ elements.map fun element => name ++ ".push_back(" ++ element ++ ");"⟩ := by
  induction elements generalizing h with
  | nil =>
    cases hrun
    simp
  | cons element rest ih =>
    obtain ⟨_, u, hline, hrest⟩ := run_bind_ok.mp hrun
    cases hline
    rw [ih hrest]
    simp

/-- The code of a node that is not a list literal, made from the codes of its operands. -/
inductive Composes (file : String) (a : Analysis) : Expr → List String → String → Prop where
  | literal {m value} : Composes file a (.literal m value) [] (literal value)
  | identifier {m name} : Composes file a (.identifier m name) [] (variableName name)
  | binary {m operator left right x y} :
    Composes file a (.binary m operator left right) [x, y]
      (binary operator (hasArrayType a left.id && hasArrayType a right.id) x y)
  | unary {m operator operand x} : Composes file a (.unary m operator operand) [x] (unary operator x)
  | call {m name arguments codes callee} (hcallee : calleeName file a m name = .ok callee) :
    Composes file a (.call m name arguments) codes (call callee codes)
  | member {m base field x callee} (hcallee : calleeName file a m field = .ok callee) :
    Composes file a (.member m base field) [x] (call callee [x])
  | index {m base position x y} :
    Composes file a (.index m base position) [x, y] (call "access_array" [x, y])

/-- What a node adds to the codes of its operands: a list literal takes a number and its lines, any other
node takes nothing. -/
inductive Finishes (file : String) (a : Analysis) (e : Expr) (codes : List String) (h : Hoist) :
    String → Hoist → Prop where
  | node {code} (hlist : e.isList = false) (hcode : Composes file a e codes code) :
    Finishes file a e codes h code h
  | list {type} (hlist : e.isList = true)
    (htype : typeCode file (a.types.typeOf e.id) e.line = .ok type) :
    Finishes file a e codes h (Translate.literalName h.nextTemp)
      ⟨h.nextTemp + 1, h.lines ++ (ListCode.mk e h.nextTemp type codes).lines⟩

lemma run_exprs_one {e : Expr} {code : String} (hrun : (expr file a e).run h = (.ok code, h')) :
    (exprs file a [e]).run h = (.ok [code], h') :=
  run_bind_ok.mpr ⟨code, h', hrun, rfl⟩

lemma run_exprs_two {e e' : Expr} {code code' : String} (hrun : (expr file a e).run h = (.ok code, h₁))
    (hrun' : (expr file a e').run h₁ = (.ok code', h')) :
    (exprs file a [e, e']).run h = (.ok [code, code'], h') :=
  run_bind_ok.mpr ⟨code, h₁, hrun, run_bind_ok.mpr ⟨[code'], h', run_exprs_one hrun', rfl⟩⟩

/-- An expression is written operands first. -/
theorem run_expr_cases {e : Expr} {code : String} (hrun : (expr file a e).run h = (.ok code, h')) :
    ∃ codes u, (exprs file a e.children).run h = (.ok codes, u) ∧ Finishes file a e codes u code h' := by
  cases e with
  | literal m value =>
    cases hrun
    exact ⟨[], _, rfl, .node rfl .literal⟩
  | identifier m name =>
    cases hrun
    exact ⟨[], _, rfl, .node rfl .identifier⟩
  | binary m operator left right =>
    obtain ⟨leftCode, u, hleft, hother⟩ := run_bind_ok.mp hrun
    obtain ⟨rightCode, v, hright, hresult⟩ := run_bind_ok.mp hother
    cases hresult
    exact ⟨_, _, run_exprs_two hleft hright, .node rfl .binary⟩
  | unary m operator operand =>
    obtain ⟨operandCode, u, hoperand, hresult⟩ := run_bind_ok.mp hrun
    cases hresult
    exact ⟨_, _, run_exprs_one hoperand, .node rfl .unary⟩
  | call m name arguments =>
    obtain ⟨codes, u, hcodes, hcall⟩ := run_bind_ok.mp hrun
    obtain ⟨callee, v, htext, hresult⟩ := run_bind_ok.mp hcall
    cases hresult
    obtain ⟨hcallee, rfl⟩ := of_ofExcept htext
    exact ⟨_, _, hcodes, .node rfl (.call hcallee)⟩
  | member m base field =>
    obtain ⟨baseCode, u, hbase, hcall⟩ := run_bind_ok.mp hrun
    obtain ⟨callee, v, htext, hresult⟩ := run_bind_ok.mp hcall
    cases hresult
    obtain ⟨hcallee, rfl⟩ := of_ofExcept htext
    exact ⟨_, _, run_exprs_one hbase, .node rfl (.member hcallee)⟩
  | index m base position =>
    obtain ⟨baseCode, u, hbase, hother⟩ := run_bind_ok.mp hrun
    obtain ⟨positionCode, v, hposition, hresult⟩ := run_bind_ok.mp hother
    cases hresult
    exact ⟨_, _, run_exprs_two hbase hposition, .node rfl .index⟩
  | list m elements =>
    obtain ⟨codes, u, hcodes, hlist⟩ := run_bind_ok.mp hrun
    obtain ⟨name, v, hname, hfilled⟩ := run_bind_ok.mp hlist
    obtain ⟨_, w, hfill, hresult⟩ := run_bind_ok.mp hfilled
    cases hresult
    obtain ⟨type, htype, rfl, rfl⟩ := run_hoistList hname
    rw [run_pushBack hfill, append_assoc]
    exact ⟨codes, u, hcodes, .list rfl htype⟩
  | emptyList m =>
    obtain ⟨type, htype, rfl, rfl⟩ := run_hoistList hrun
    exact ⟨[], h, rfl, .list rfl htype⟩

lemma length_of_exprs {es : List Expr} {codes : List String}
    (hrun : (exprs file a es).run h = (.ok codes, h')) : codes.length = es.length := by
  induction es generalizing h codes with
  | nil =>
    cases hrun
    rfl
  | cons e rest ih =>
    obtain ⟨code, u, -, hothers⟩ := run_bind_ok.mp hrun
    obtain ⟨others, v, hrest, hresult⟩ := run_bind_ok.mp hothers
    cases hresult
    rw [length_cons, length_cons, ih hrest]

lemma Hoists.list {e : Expr} {elements : List String} {type : String}
    (hlists : Hoists file a lists h h₁) (helements : (exprs file a e.children).run h = (.ok elements, h₁))
    (htype : typeCode file (a.types.typeOf e.id) e.line = .ok type) :
    let l : ListCode := ⟨e, h₁.nextTemp, type, elements⟩
    Hoists file a (lists ++ [l]) h ⟨h₁.nextTemp + 1, h₁.lines ++ l.lines⟩ where
  next_eq := by simp [hlists.next_eq, Nat.add_assoc]
  lines_eq := by simp [hlists.lines_eq]
  numbers := by simp [hlists.numbers, hlists.next_eq, List.range'_concat]
  codes := by
    intro l hl
    rcases mem_append.mp hl with hl | hl
    · exact hlists.codes l hl
    · cases mem_singleton.mp hl
      exact ⟨htype, h, h₁, helements, le_rfl, rfl⟩

/-- Writing an expression adds the lines of its list literals. -/
def WritesLists (file : String) (a : Analysis) (e : Expr) : Prop :=
  ∀ h code h', (expr file a e).run h = (.ok code, h') →
    ∃ lists, lists.map ListCode.node = e.lists ∧ Hoists file a lists h h'

lemma lists_exprs {es : List Expr} (hes : ∀ e ∈ es, WritesLists file a e) {codes : List String}
    (hrun : (exprs file a es).run h = (.ok codes, h')) :
    ∃ lists, lists.map ListCode.node = es.flatMap Expr.lists ∧ Hoists file a lists h h' := by
  induction es generalizing h codes with
  | nil =>
    cases hrun
    exact ⟨[], rfl, .refl _⟩
  | cons e rest ih =>
    obtain ⟨he, hrest⟩ := forall_mem_cons.mp hes
    obtain ⟨code, u, hcode, hothers⟩ := run_bind_ok.mp hrun
    obtain ⟨others, v, hcodes, hresult⟩ := run_bind_ok.mp hothers
    cases hresult
    obtain ⟨lists, hlists, hfirst⟩ := he _ _ _ hcode
    obtain ⟨lists', hlists', hnext⟩ := ih hrest hcodes
    exact ⟨lists ++ lists', by rw [map_append, hlists, hlists', flatMap_cons], hfirst.trans hnext⟩

theorem writesLists_expr (e : Expr) : WritesLists file a e := by
  induction e using Expr.children_induction with
  | step e ih =>
    intro h code h' hrun
    obtain ⟨codes, u, hcodes, hfinish⟩ := run_expr_cases hrun
    obtain ⟨lists, hlists, hhoists⟩ := lists_exprs ih hcodes
    rw [Expr.lists_eq, ← hlists]
    cases hfinish with
    | node hlist hcode => exact ⟨lists, by simp [hlist], hhoists⟩
    | list hlist htype => exact ⟨_, by simp [hlist], hhoists.list hcodes htype⟩

end Hoisting

end Code

end ChessEval
