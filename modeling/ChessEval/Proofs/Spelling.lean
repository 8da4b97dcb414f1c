import ChessEval.Proofs.Overloads
import ChessEval.Proofs.TypeTexts

/-!
# Types that generated code spells

Code spells the types of list literals, of declarations and of the sources of loops.
-/

namespace ChessEval

open List

variable {e : Expr} {a : Analysis} {type : Ty}

namespace Expr

/-- A node whose type is known if code spells it. -/
def Spelled (types : TypeTable) : Expr → Prop
  | .list m _ | .emptyList m => (types.typeOf m.id).isResolved = true
  | _ => True

/-- An expression in which code can spell all types. -/
def AllSpelled (types : TypeTable) (e : Expr) : Prop :=
  ∀ n ∈ e.nodes, n.Spelled types

lemma allSpelled_iff {types : TypeTable} :
    e.AllSpelled types ↔ (∀ c ∈ e.children, c.AllSpelled types) ∧ e.Spelled types := by
  constructor
  · intro h
    exact ⟨fun c hc n hn => h n (mem_nodes_of_child hc hn), h e e.self_mem_nodes⟩
  · rintro ⟨hchildren, he⟩ n hn
    rcases mem_nodes.mp hn with rfl | ⟨c, hc, hn⟩
    · exact he
    · exact hchildren c hc n hn

/-- Every call in an expression means a header. -/
def Linked (a : Analysis) (e : Expr) : Prop :=
  ∀ n ∈ e.nodes, ∀ call, n.call? = some call → (a.header? n.id).isSome = true

lemma Linked.child {c : Expr} (h : e.Linked a) (hc : c ∈ e.children) : c.Linked a :=
  fun n hn => h n (mem_nodes_of_child hc hn)

end Expr

namespace Code

/-- The outcome of a step that succeeds exactly if what it spells is known, and otherwise blames an
unknown type. -/
def Spells (known : Prop) {α : Type} : Except Fault α → Prop
  | .ok _ => known
  | .error fault => ¬known ∧ ∃ type, fault.issue = .unresolvedType type

lemma spells_typeCode (file : String) (type : Ty) (line : Nat) :
    Spells (type.isResolved = true) (typeCode file type line) := by
  unfold typeCode
  rcases type.code_cases with ⟨hknown, text, htext⟩ | ⟨hunknown, name, hname⟩
  · rw [htext]
    exact hknown
  · rw [hname]
    exact ⟨by simp [hunknown], name, rfl⟩

namespace Write

/-- A step of writing an expression that succeeds exactly if what it spells is known. -/
def Spells (known : Prop) {α : Type} (x : Write α) : Prop :=
  ∀ h, Code.Spells known (x.run h).1

variable {α β : Type} {known known' : Prop}

lemma Spells.congr {x : Write α} (h : Spells known x) (hiff : known ↔ known') : Spells known' x :=
  propext hiff ▸ h

lemma spells_pure (y : α) : Spells True (pure y) :=
  fun _ => trivial

lemma Spells.bind {x : Write α} {f : α → Write β} (hx : Spells known x)
    (hf : ∀ y, Spells known' (f y)) : Spells (known ∧ known') (x >>= f) := by
  intro h
  have hxh := hx h
  rw [run_bind]
  rcases hrun : x.run h with ⟨fault | y, t⟩
  · rw [hrun] at hxh
    exact ⟨fun hknown => hxh.1 hknown.1, hxh.2⟩
  · rw [hrun] at hxh
    have hft := hf y t
    rcases hrun' : (f y).run t with ⟨fault | z, t'⟩
    · rw [hrun'] at hft
      dsimp only
      rw [hrun']
      exact ⟨fun hknown => hft.1 hknown.2, hft.2⟩
    · rw [hrun'] at hft
      dsimp only
      rw [hrun']
      exact ⟨hxh, hft⟩

lemma Spells.and_then {x : Write α} {f : α → Write β} (hx : Spells known x)
    (hf : ∀ y, Spells True (f y)) : Spells known (x >>= f) :=
  (hx.bind hf).congr (and_iff_left trivial)

lemma spells_ofExcept {outcome : Except Fault α} (h : Code.Spells known outcome) :
    Spells known (ofExcept outcome) := by
  intro s
  cases outcome with
  | ok y => exact h
  | error fault => exact h

lemma spells_hoistList (file : String) (a : Analysis) (m : Mark) :
    Spells ((a.types.typeOf m.id).isResolved = true) (hoistList file a m) := by
  refine (spells_ofExcept (spells_typeCode file _ m.line)).and_then fun type => ?_
  intro h
  trivial

lemma spells_pushBack (name : String) (codes : List String) : Spells True (pushBack name codes) := by
  induction codes with
  | nil => exact spells_pure ()
  | cons code rest ih =>
    have hline : Spells True (line (name ++ ".push_back(" ++ code ++ ");")) := fun _ => trivial
    exact hline.and_then fun _ => ih

lemma spells_calleeName (file name : String) {m : Mark} (h : (a.header? m.id).isSome = true) :
    Spells True (ofExcept (calleeName file a m name)) := by
  apply spells_ofExcept
  obtain ⟨header, hheader⟩ := Option.isSome_iff_exists.mp h
  rw [calleeName, hheader]
  trivial

lemma spells_exprs {file : String} {es : List Expr} (h : ∀ e ∈ es, Spells (e.AllSpelled a.types) (expr file a e)) :
    Spells (∀ e ∈ es, e.AllSpelled a.types) (exprs file a es) := by
  induction es with
  | nil => exact (spells_pure []).congr (by simp)
  | cons e rest ih =>
    obtain ⟨he, hrest⟩ := forall_mem_cons.mp h
    refine (he.bind fun _ => (ih hrest).and_then fun _ => spells_pure _).congr ?_
    rw [forall_mem_cons]

/-- Writing an expression succeeds exactly if the types of all list literals in it are known. -/
theorem spells_expr (file : String) (hlinked : e.Linked a) : Spells (e.AllSpelled a.types) (expr file a e) := by
  induction e using Expr.children_induction with
  | step e ih =>
    have hchild : ∀ c ∈ e.children, Spells (c.AllSpelled a.types) (expr file a c) := fun c hc =>
      ih c hc (hlinked.child hc)
    have hself := hlinked e e.self_mem_nodes
    refine Spells.congr ?_ Expr.allSpelled_iff.symm
    cases e with
    | literal m value | identifier m name => exact (spells_pure _).congr (by simp [Expr.children, Expr.Spelled])
    | binary m operator left right | index m left right =>
      have hleft := hchild left (by simp [Expr.children])
      have hright := hchild right (by simp [Expr.children])
      exact (hleft.bind fun _ => hright.and_then fun _ => spells_pure _).congr
        (by simp [Expr.children, Expr.Spelled])
    | unary m operator operand =>
      have hoperand := hchild operand (by simp [Expr.children])
      exact (hoperand.and_then fun _ => spells_pure _).congr (by simp [Expr.children, Expr.Spelled])
    | call m name arguments =>
      have hcallee := spells_calleeName file name (hself _ rfl)
      exact ((spells_exprs hchild).and_then fun _ => hcallee.and_then fun _ => spells_pure _).congr
        (by simp [Expr.children, Expr.Spelled])
    | member m base field =>
      have hbase := hchild base (by simp [Expr.children])
      have hcallee := spells_calleeName file field (hself _ rfl)
      exact (hbase.and_then fun _ => hcallee.and_then fun _ => spells_pure _).congr
        (by simp [Expr.children, Expr.Spelled])
    | list m elements =>
      exact (spells_exprs hchild).bind fun codes => (spells_hoistList file a m).and_then fun name =>
        (spells_pushBack name codes).and_then fun _ => spells_pure name
    | emptyList m => exact (spells_hoistList file a m).congr (by simp [Expr.children, Expr.Spelled])

end Write

end Code

namespace Stmt

/-- The expressions of a statement that are written. -/
def written (inRule : Bool) : Stmt → List Expr
  | .returns value _ => if inRule then [] else value.toList
  | s => s.exprs

/-- A statement in which code can spell all types. -/
def AllSpelled (inRule : Bool) (types : TypeTable) (s : Stmt) : Prop :=
  ∀ e ∈ s.written inRule, e.AllSpelled types

/-- A statement in which all that is not an expression can be written: the types of its variables are
known, and so is the type of the elements that it runs over. -/
structure Ready (a : Analysis) (s : Stmt) : Prop where
  declared : ∀ type ∈ s.declared, type.isResolved = true
  linked : ∀ e ∈ s.exprs, e.Linked a
  source : ∀ name source body line, s = .forAll name source body line →
    ∃ element, a.types.typeOf source.id = .array element ∧ element.isResolved = true

end Stmt

namespace Code

namespace Generate

/-- A step of generation that succeeds exactly if what it spells is known. -/
def Spells (known : Prop) {α : Type} (x : Generate α) : Prop :=
  ∀ c, Code.Spells known (x.run c)

variable {α β : Type} {known known' : Prop}

lemma Spells.congr {x : Generate α} (h : Spells known x) (hiff : known ↔ known') : Spells known' x :=
  propext hiff ▸ h

lemma spells_pure (y : α) : Spells True (pure y) :=
  fun _ => trivial

lemma Spells.bind {x : Generate α} {f : α → Generate β} (hx : Spells known x)
    (hf : ∀ y, Spells known' (f y)) : Spells (known ∧ known') (x >>= f) := by
  intro c
  have hxc := hx c
  rw [StateT.run_bind]
  cases hrun : x.run c with
  | error fault =>
    rw [hrun] at hxc
    exact ⟨fun hknown => hxc.1 hknown.1, hxc.2⟩
  | ok result =>
    obtain ⟨y, t⟩ := result
    rw [hrun] at hxc
    have hft := hf y t
    change Code.Spells _ ((f y).run t)
    cases hrun' : (f y).run t with
    | error fault =>
      rw [hrun'] at hft
      exact ⟨fun hknown => hft.1 hknown.2, hft.2⟩
    | ok result =>
      rw [hrun'] at hft
      exact ⟨hxc, hft⟩

lemma Spells.and_then {x : Generate α} {f : α → Generate β} (hx : Spells known x)
    (hf : ∀ y, Spells True (f y)) : Spells known (x >>= f) :=
  (hx.bind hf).congr (and_iff_left trivial)

lemma Spells.after {x : Generate α} {f : α → Generate β} (hx : Spells known x) (hknown : known)
    (hf : ∀ y, Spells known' (f y)) : Spells known' (x >>= f) :=
  (hx.bind hf).congr (and_iff_right hknown)

lemma Spells.ite {c : Prop} [Decidable c] {x y : Generate α} (hx : Spells known x) (hy : Spells known y) :
    Spells known (if c then x else y) := by
  split
  · exact hx
  · exact hy

section Steps

variable {s : Scene}

lemma spells_emitAll (texts : List String) : Spells True (emitAll texts) :=
  fun _ => trivial

lemma spells_emit (text : String) : Spells True (emit text) :=
  spells_emitAll [text]

lemma Spells.emits {texts : List String} {f : List Line → Generate β} (hf : ∀ lines, Spells known (f lines)) :
    Spells known (emitAll texts >>= f) :=
  (spells_emitAll texts).after trivial hf

lemma Spells.enters {f : Unit → Generate β} (hf : ∀ y, Spells known (f y)) : Spells known (indent >>= f) :=
  fun c => hf () { c with level := c.level + 1 }

lemma Spells.leaves {f : Unit → Generate β} (hf : ∀ y, Spells known (f y)) : Spells known (dedent >>= f) :=
  fun c => hf () { c with level := c.level - 1 }

lemma spells_nested {block : Generate (List Line)} (h : Spells known block) : Spells known (nested block) :=
  .enters fun _ => h.and_then fun _ => .leaves fun _ => spells_pure _

/-- The block of a function or loop, and the line that closes it. -/
lemma Spells.closed {block : Generate (List Line)} (h : Spells known block) {text : String}
    {f : List Line → List Line → List Line} :
    Spells known (do let lines ← block; dedent; let close ← emit text; return f lines close) :=
  h.and_then fun _ => .leaves fun _ => .emits fun _ => spells_pure _

lemma spells_expr (hlinked : e.Linked s.analysis) : Spells (e.AllSpelled s.analysis.types) (expr s e) := by
  intro c
  have hwrite := Write.spells_expr s.file hlinked ⟨c.nextTemp, []⟩
  change Code.Spells _ (expr s e c)
  unfold expr
  rcases hrun : (Code.expr s.file s.analysis e).run ⟨c.nextTemp, []⟩ with ⟨fault | code, h⟩
  · rw [hrun] at hwrite
    exact hwrite
  · rw [hrun] at hwrite
    exact hwrite

lemma spells_typeCode (type : Ty) (line : Nat) :
    Spells (type.isResolved = true) (typeCode s type line) := by
  intro c
  have hcode := Code.spells_typeCode s.file type line
  change Code.Spells _ (typeCode s type line c)
  unfold typeCode
  cases hrun : Code.typeCode s.file type line with
  | ok text =>
    rw [hrun] at hcode
    exact hcode
  | error fault =>
    rw [hrun] at hcode
    exact hcode

lemma run_typeCode {line : Nat} {c c' : Counters} {text : String} :
    (typeCode s type line).run c = .ok (text, c') ↔
      Code.typeCode s.file type line = .ok text ∧ c' = c := by
  unfold typeCode
  simp only [StateT.run]
  cases Code.typeCode s.file type line with
  | error fault => simp
  | ok code => simp [eq_comm]

lemma spells_temp (sort : String) : Spells True (temp sort) :=
  fun _ => trivial

lemma spells_declarator {d : Declarator} (typeText : String) (hlinked : ∀ e ∈ d.value, e.Linked s.analysis) :
    Spells (∀ e ∈ d.value, e.AllSpelled s.analysis.types) (declarator s type typeText d) := by
  unfold declarator
  cases hvalue : d.value with
  | some value =>
    exact ((spells_expr (hlinked value hvalue)).and_then fun _ => spells_emitAll _).congr (by simp)
  | none =>
    dsimp only
    cases type.defaultCode? with
    | some code => exact (spells_emit _).congr (by simp)
    | none => exact (spells_emit _).congr (by simp)

lemma spells_declarators {ds : List Declarator} (typeText : String)
    (hlinked : ∀ d ∈ ds, ∀ e ∈ d.value, e.Linked s.analysis) :
    Spells (∀ d ∈ ds, ∀ e ∈ d.value, e.AllSpelled s.analysis.types) (declarators s type typeText ds) := by
  induction ds with
  | nil => exact (spells_pure _).congr (by simp)
  | cons d rest ih =>
    obtain ⟨hd, hrest⟩ := forall_mem_cons.mp hlinked
    exact ((spells_declarator typeText hd).bind fun _ =>
      (ih hrest).and_then fun _ => spells_pure _).congr (by rw [forall_mem_cons])

lemma spells_returns {value : Option Expr} (line : Nat) (hlinked : ∀ e ∈ value, e.Linked s.analysis) :
    Spells ((Stmt.returns value line).AllSpelled s.inRule s.analysis.types) (returns s value) := by
  unfold returns Stmt.AllSpelled Stmt.written
  cases s.inRule with
  | true => exact (spells_emit _).congr (by simp)
  | false =>
    cases value with
    | some value =>
      exact ((spells_expr (hlinked value rfl)).and_then fun _ => spells_emitAll _).congr (by simp)
    | none => exact (spells_emit _).congr (by simp)

end Steps

/-- What code of a block spells. -/
abbrev SpellsBlock (s : Scene) (block : List Stmt) : Prop :=
  (∀ stmt ∈ Stmt.blockParts block, stmt.Ready s.analysis) →
    Spells (∀ stmt ∈ Stmt.blockParts block, stmt.AllSpelled s.inRule s.analysis.types) (statements s block)

/-- Writing a block succeeds exactly if code can spell all types in its statements. -/
theorem spells_statements (s : Scene) (block : List Stmt) : SpellsBlock s block := by
  induction block using Stmt.block_induction (fun stmt =>
    (∀ part ∈ stmt.parts, part.Ready s.analysis) →
      Spells (∀ part ∈ stmt.parts, part.AllSpelled s.inRule s.analysis.types) (statement s stmt)) with
  | declare type ds line hready =>
    obtain ⟨hdeclared, hlinked, -⟩ := hready (.declare type ds line) (by simp [Stmt.parts])
    have htype : type.isResolved = true := hdeclared type (by simp [Stmt.declared])
    refine ((spells_typeCode type line).after htype fun text => spells_declarators text ?_).congr ?_
    · intro d hd e he
      exact hlinked e (mem_flatMap.mpr ⟨d, hd, Option.mem_toList.mpr he⟩)
    · simp only [Stmt.parts, forall_mem_singleton, Stmt.AllSpelled, Stmt.written, Stmt.exprs,
        forall_mem_flatMap, Option.mem_toList, Option.mem_def]
  | assign target value line hready =>
    have hlinked := (hready (.assign target value line) (by simp [Stmt.parts])).linked
    have htarget := spells_expr (hlinked target (by simp [Stmt.exprs]))
    have hvalue := spells_expr (hlinked value (by simp [Stmt.exprs]))
    exact (htarget.bind fun _ => hvalue.and_then fun _ => spells_emitAll _).congr
      (by simp [Stmt.parts, Stmt.AllSpelled, Stmt.written, Stmt.exprs])
  | ifThen condition thenBody line ihthen hready =>
    obtain ⟨hself, hthen⟩ := forall_mem_cons.mp hready
    have hcondition := spells_expr (hself.linked condition (by simp [Stmt.exprs]))
    exact (hcondition.bind fun _ => .emits fun _ => (spells_nested (ihthen hthen)).and_then fun _ =>
      .emits fun _ => spells_pure _).congr
      (by simp [Stmt.parts, Stmt.AllSpelled, Stmt.written, Stmt.exprs])
  | ifElse condition thenBody elseBody line ihthen ihelse hready =>
    obtain ⟨hself, hbodies⟩ := forall_mem_cons.mp hready
    obtain ⟨hthen, helse⟩ := forall_mem_append.mp hbodies
    have hcondition := spells_expr (hself.linked condition (by simp [Stmt.exprs]))
    refine (hcondition.bind fun _ => .emits fun _ => (spells_nested (ihthen hthen)).bind fun _ => .emits fun _ =>
      (spells_nested (ihelse helse)).and_then fun _ => .emits fun _ => spells_pure _).congr ?_
    simp only [Stmt.parts, forall_mem_cons, forall_mem_append]
    simp [Stmt.AllSpelled, Stmt.written, Stmt.exprs]
  | whileDo condition body line ih hready =>
    obtain ⟨hself, hbody⟩ := forall_mem_cons.mp hready
    have hcondition := spells_expr (hself.linked condition (by simp [Stmt.exprs]))
    exact (hcondition.bind fun _ => Spells.ite
      (.emits fun _ => (spells_nested (ih hbody)).and_then fun _ => .emits fun _ => spells_pure _)
      (.emits fun _ => .enters fun _ => .emits fun _ => (ih hbody).closed)).congr
      (by simp [Stmt.parts, Stmt.AllSpelled, Stmt.written, Stmt.exprs])
  | forAll name source body line ih hready =>
    obtain ⟨hself, hbody⟩ := forall_mem_cons.mp hready
    have hsource := spells_expr (hself.linked source (by simp [Stmt.exprs]))
    obtain ⟨element, htype, helement⟩ := hself.source name source body line rfl
    refine (hsource.bind fun result => (spells_typeCode _ line).after (by rw [htype]; exact helement)
      fun vector => (spells_typeCode _ line).after (by rw [htype]; exact helement) fun item =>
      (spells_temp "_src").after trivial fun copy => (spells_temp "_it").after trivial fun iterator =>
      .emits fun _ => .enters fun _ => .emits fun _ => (ih hbody).closed).congr ?_
    simp [Stmt.parts, Stmt.AllSpelled, Stmt.written, Stmt.exprs]
  | returns value line hready =>
    have hlinked := (hready (.returns value line) (by simp [Stmt.parts])).linked
    refine (spells_returns line fun e he => hlinked e (Option.mem_toList.mpr he)).congr ?_
    simp [Stmt.parts]
  | score value line hready | call value line hready =>
    have hlinked := (hready _ (Stmt.self_mem_parts _)).linked
    exact ((spells_expr (hlinked value (by simp [Stmt.exprs]))).and_then fun _ => spells_emitAll _).congr
      (by simp [Stmt.parts, Stmt.AllSpelled, Stmt.written, Stmt.exprs])
  | nil =>
    intro _
    exact (spells_pure _).congr (by simp [Stmt.blockParts])
  | cons stmt rest ihstmt ihrest =>
    intro hready
    simp only [Stmt.blockParts, forall_mem_append] at hready ⊢
    exact (ihstmt hready.1).bind fun _ => (ihrest hready.2).and_then fun _ => spells_pure _

end Generate

end Code

def Definition.written : Definition → List Expr
  | .global g => [g.value]
  | .function f => (Stmt.blockParts f.body).flatMap (Stmt.written false)
  | .rule r => r.guard.toList ++ (Stmt.blockParts r.body).flatMap (Stmt.written true)

namespace Program

def written (p : Program) : List Expr :=
  p.definitions.flatMap Definition.written

/-- A program in which all that is not an expression can be written. -/
structure Ready (a : Analysis) (p : Program) : Prop where
  globals : ∀ g ∈ p.globals, g.type.isResolved = true
  returnTypes : ∀ f ∈ p.functions, f.returnType.isResolved = true
  params : ∀ f ∈ p.functions, ∀ q ∈ f.params, q.type.isResolved = true
  linked : ∀ e ∈ p.exprs, e.Linked a
  stmts : ∀ s ∈ p.stmts, s.Ready a

lemma forall_mem_written {p : Program} {types : TypeTable} :
    (∀ e ∈ p.written, e.AllSpelled types) ↔
      (∀ g ∈ p.globals, g.value.AllSpelled types) ∧
        (∀ f ∈ p.functions, ∀ s ∈ Stmt.blockParts f.body, s.AllSpelled false types) ∧
        ∀ r ∈ p.rules, (∀ e ∈ r.guard, e.AllSpelled types) ∧
          ∀ s ∈ Stmt.blockParts r.body, s.AllSpelled true types := by
  simp only [written, forall_mem_flatMap]
  constructor
  · intro h
    refine ⟨fun g hg => ?_, fun f hf s hs e he => ?_, fun r hr => ⟨fun e he => ?_, fun s hs e he => ?_⟩⟩
    · exact h _ (mem_globals.mp hg) g.value (mem_singleton_self _)
    · exact h _ (mem_functions.mp hf) e (mem_flatMap.mpr ⟨s, hs, he⟩)
    · exact h _ (mem_rules.mp hr) e (mem_append_left _ (Option.mem_toList.mpr he))
    · exact h _ (mem_rules.mp hr) e (mem_append_right _ (mem_flatMap.mpr ⟨s, hs, he⟩))
  · rintro ⟨hglobals, hfunctions, hrules⟩ d hd e he
    cases d with
    | global g =>
      rw [mem_singleton.mp he]
      exact hglobals g (mem_globals.mpr hd)
    | function f =>
      obtain ⟨s, hs, he⟩ := mem_flatMap.mp he
      exact hfunctions f (mem_functions.mpr hd) s hs e he
    | rule r =>
      rcases mem_append.mp he with he | he
      · exact (hrules r (mem_rules.mpr hd)).1 e (Option.mem_toList.mp he)
      · obtain ⟨s, hs, he⟩ := mem_flatMap.mp he
        exact (hrules r (mem_rules.mpr hd)).2 s hs e he

end Program

namespace Code

open Generate

section Definitions

variable {s : Scene}

lemma spells_globals {gs : List GlobalDef} (done : Globals)
    (htypes : ∀ g ∈ gs, g.type.isResolved = true) (hlinked : ∀ g ∈ gs, g.value.Linked s.analysis) :
    Generate.Spells (∀ g ∈ gs, g.value.AllSpelled s.analysis.types) (globals s done gs) := by
  induction gs generalizing done with
  | nil => exact (spells_pure _).congr (by simp)
  | cons g rest ih =>
    obtain ⟨htype, htypes⟩ := forall_mem_cons.mp htypes
    obtain ⟨hvalue, hlinked⟩ := forall_mem_cons.mp hlinked
    rw [forall_mem_cons]
    refine (Generate.spells_typeCode g.type g.line).after htype fun text =>
      (spells_expr hvalue).bind fun result => ?_
    obtain ⟨code, before⟩ := result
    dsimp only
    split
    · exact .emits fun _ => ih _ htypes hlinked
    · exact .emits fun _ => ih _ htypes hlinked

lemma spells_params {ps : List Param} (htypes : ∀ q ∈ ps, q.type.isResolved = true) :
    Generate.Spells True (params s ps) := by
  induction ps with
  | nil => exact spells_pure _
  | cons q rest ih =>
    obtain ⟨htype, htypes⟩ := forall_mem_cons.mp htypes
    exact (Generate.spells_typeCode q.type q.line).after htype fun _ =>
      (ih htypes).and_then fun _ => spells_pure _

lemma spells_signature {f : FunctionDef} (hreturn : f.returnType.isResolved = true)
    (hparams : ∀ q ∈ f.params, q.type.isResolved = true) : Generate.Spells True (signature s f) :=
  (Generate.spells_typeCode f.returnType f.line).after hreturn fun _ =>
    (spells_params hparams).and_then fun _ => spells_pure _

lemma spells_functionHeaders {fs : List FunctionDef} (hreturns : ∀ f ∈ fs, f.returnType.isResolved = true)
    (hparams : ∀ f ∈ fs, ∀ q ∈ f.params, q.type.isResolved = true) :
    Generate.Spells True (functionHeaders s fs) := by
  induction fs with
  | nil => exact spells_pure _
  | cons f rest ih =>
    obtain ⟨hreturn, hreturns⟩ := forall_mem_cons.mp hreturns
    obtain ⟨hparam, hparams⟩ := forall_mem_cons.mp hparams
    exact (spells_signature hreturn hparam).after trivial fun _ => .emits fun _ =>
      (ih hreturns hparams).and_then fun _ => spells_pure _

lemma spells_function {f : FunctionDef} (hreturn : f.returnType.isResolved = true)
    (hparams : ∀ q ∈ f.params, q.type.isResolved = true)
    (hready : ∀ stmt ∈ Stmt.blockParts f.body, stmt.Ready s.analysis) :
    Generate.Spells (∀ stmt ∈ Stmt.blockParts f.body, stmt.AllSpelled false s.analysis.types)
      (function s f) :=
  (spells_signature hreturn hparams).after trivial fun _ => .emits fun _ => .enters fun _ =>
    (spells_statements { s with inRule := false } f.body hready).closed

lemma spells_guard {value : Option Expr} (hlinked : ∀ e ∈ value, e.Linked s.analysis) :
    Generate.Spells (∀ e ∈ value, e.AllSpelled s.analysis.types) (guard s value) := by
  cases value with
  | none => exact (spells_pure _).congr (by simp)
  | some e => exact ((spells_expr (hlinked e rfl)).and_then fun _ => spells_emitAll _).congr (by simp)

lemma spells_rule {r : RuleDef} (hlinked : ∀ e ∈ r.guard, e.Linked s.analysis)
    (hready : ∀ stmt ∈ Stmt.blockParts r.body, stmt.Ready s.analysis) :
    Generate.Spells ((∀ e ∈ r.guard, e.AllSpelled s.analysis.types) ∧
      ∀ stmt ∈ Stmt.blockParts r.body, stmt.AllSpelled true s.analysis.types) (rule s r) :=
  .emits fun _ => .enters fun _ => (spells_guard (s := { s with inRule := true }) hlinked).bind fun _ =>
    (spells_statements { s with inRule := true } r.body hready).and_then fun _ => (spells_emit _).closed

lemma spells_separated {α : Type} {block : α → Generate (List Line)} {known : α → Prop} {items : List α}
    (h : ∀ x ∈ items, Generate.Spells (known x) (block x)) :
    Generate.Spells (∀ x ∈ items, known x) (separated block items) := by
  induction items with
  | nil => exact (spells_pure _).congr (by simp)
  | cons x rest ih =>
    obtain ⟨hx, hrest⟩ := forall_mem_cons.mp h
    exact (Spells.emits fun _ => hx.bind fun _ => (ih hrest).and_then fun _ => spells_pure _).congr
      forall_mem_cons.symm

lemma spells_phase (rules : List RuleEntry) (ph : Phase) : Generate.Spells True (phase rules ph) :=
  .emits fun _ => .enters fun _ => (spells_emitAll _).closed

end Definitions

/-- Generation succeeds exactly if code can spell all types in the expressions that it writes. -/
theorem spells_generate {p : Program} (h : p.Ready a) :
    Spells (∀ e ∈ p.written, e.AllSpelled a.types) (generate p a) := by
  have hexpr : ∀ {e}, e ∈ p.exprs → e.Linked a := fun he => h.linked _ he
  have hfile : Generate.Spells (∀ e ∈ p.written, e.AllSpelled a.types) (file p a) := by
    refine (Spells.emits fun _ =>
      (spells_globals ⟨[], [], []⟩ h.globals fun g hg =>
        hexpr (Program.mem_exprs.mpr (.inl ⟨g, hg, rfl⟩))).bind fun globals => ?_).congr
      Program.forall_mem_written.symm
    have hheaders : Generate.Spells True (headers ⟨p.file, a, false⟩ p) := .emits fun _ =>
      (spells_functionHeaders h.returnTypes h.params).after trivial fun _ => .emits fun _ => spells_pure _
    have hpreamble : Generate.Spells True (preamble globals.preamble) := .emits fun _ => .enters fun _ =>
      (spells_emitAll _).closed
    refine .emits fun _ => hheaders.after trivial fun _ => .emits fun _ => hpreamble.after trivial fun _ => ?_
    refine (spells_separated fun f hf => spells_function (h.returnTypes f hf) (h.params f hf)
      fun stmt hs => h.stmts stmt (Program.mem_stmts.mpr (.inl ⟨f, hf, hs⟩))).bind fun functions => ?_
    exact (spells_separated fun r hr => spells_rule
      (fun e he => hexpr (Program.mem_exprs.mpr (.inr (.inl ⟨r, hr, he⟩))))
      fun stmt hs => h.stmts stmt (Program.mem_stmts.mpr (.inr ⟨r, hr, hs⟩))).and_then fun _ =>
      ((spells_separated fun ph _ => spells_phase _ ph).congr (by simp)).and_then fun _ => spells_pure _
  have hrun := hfile ⟨0, 0⟩
  unfold generate lines
  rcases hresult : (file p a).run ⟨0, 0⟩ with fault | ⟨result, n⟩
  · rwa [hresult] at hrun
  · rwa [hresult] at hrun

end Code

end ChessEval
