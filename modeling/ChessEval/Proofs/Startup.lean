import ChessEval.Proofs.Bindings

/-!
# The start of a generated program

Before any rule runs, the globals get their values: some where they are declared, in the order of the file,
and the others in the preamble. A value that needs lines before it, or calls a function of the program, has
to wait for the preamble, and so has every value that reads a global which waits. In this order each value
is computed from globals that have theirs.
-/

namespace ChessEval

open List

variable {starts : List Start} {e : Expr} {n : Nat} {waiting : List String}

open Target

namespace Target

/-- The line that gives a global its value where it is declared. -/
def Item.initialiser : Item → List Row
  | .global (.declare type name (some value)) => [.declare type name (some value)]
  | _ => []

def Step.row? : Step → Option Row
  | .row r => some r
  | _ => none

/-- The lines of the function that initialises globals. -/
def Item.preamble : Item → List Row
  | .function head body => if head.callee = "preamble" then body.filterMap Step.row? else []
  | _ => []

/-- The lines that run first: the initial values of globals in the order of the file, and the preamble. -/
def startup (items : List Item) : List Row :=
  items.flatMap Item.initialiser ++ items.flatMap Item.preamble

end Target

/-- How a global gets its value: lines that prepare it, and the line that computes and stores it. -/
structure Start where
  definition : GlobalDef
  before : List Row
  last : Row

namespace Start

def rows (s : Start) : List Row :=
  s.before ++ [s.last]

/-- The global is initialised where it is declared. -/
def Inlines (file : String) (a : Analysis) (s : Start) : Prop :=
  ∃ next, s.before = (Translate.expr file a next s.definition.value).before ∧
    s.last = .declare s.definition.type.spelling s.definition.name
      (some (Translate.expr file a next s.definition.value).value)

/-- The global is initialised in the preamble. -/
def Stores (file : String) (a : Analysis) (s : Start) : Prop :=
  ∃ next, s.before = (Translate.expr file a next s.definition.value).before ∧
    s.last = .store s.definition.name (Translate.expr file a next s.definition.value).value

/-- Every value reads only globals that are known or have got their values before it. -/
def InOrder (known : List String) : List Start → Prop
  | [] => True
  | s :: rest =>
    (∀ m name, .identifier m name ∈ s.definition.value.nodes → name ∈ known) ∧
      InOrder (s.definition.name :: known) rest

lemma InOrder.mono {known known' : List String} (h : InOrder known starts) (hsub : known ⊆ known') :
    InOrder known' starts := by
  induction starts generalizing known known' with
  | nil => trivial
  | cons s rest ih => exact ⟨fun m name hname => hsub (h.1 m name hname), ih h.2 (cons_subset_cons _ hsub)⟩

lemma inOrder_append {known : List String} {starts' : List Start} :
    InOrder known (starts ++ starts') ↔ InOrder known starts ∧
      InOrder ((starts.map fun s => s.definition.name).reverse ++ known) starts' := by
  induction starts generalizing known with
  | nil => simp [InOrder]
  | cons s rest ih => simp [InOrder, ih, and_assoc]

lemma InOrder.read {earlier later : List Start} {s : Start} (h : InOrder [] starts)
    (hsplit : starts = earlier ++ s :: later) {m : Mark} {name : String}
    (hname : .identifier m name ∈ s.definition.value.nodes) : ∃ t ∈ earlier, t.definition.name = name := by
  rw [hsplit, inOrder_append] at h
  have hmem := h.2.1 m name hname
  simpa using hmem

end Start

namespace Code

variable {a : Analysis}

lemma anyCallsDefined_eq (es : List Expr) : anyCallsDefined a es = es.any (callsDefined a) := by
  induction es with
  | nil => rfl
  | cons e rest ih => rw [anyCallsDefined, ih, any_cons]

lemma callsDefined_step (e : Expr) :
    callsDefined a e = ((e.call?.isSome && isDefinedCall a e.id) || e.children.any (callsDefined a)) := by
  cases e <;> simp [callsDefined, anyCallsDefined_eq, Expr.call?, Expr.children, Expr.id, Expr.mark]

lemma predefined_of_callsDefined (h : callsDefined a e = false) :
    ∀ n ∈ e.nodes, n.call?.isSome = true → ∀ header, a.header? n.id = some header → header.predefined = true := by
  induction e using Expr.children_induction with
  | step e ih =>
    rw [callsDefined_step, Bool.or_eq_false_iff, any_eq_false] at h
    intro n hn hcall header hheader
    rcases Expr.mem_nodes.mp hn with rfl | ⟨c, hc, hn⟩
    · have hown := h.1
      rw [hcall, Bool.true_and, isDefinedCall, hheader] at hown
      simpa using hown
    · exact ih c hc (by simpa using h.2 c hc) n hn hcall header hheader

lemma anyReadsAny_eq (names : List String) (es : List Expr) : anyReadsAny names es = es.any (readsAny names) := by
  induction es with
  | nil => rfl
  | cons e rest ih => rw [anyReadsAny, ih, any_cons]

lemma not_mem_of_readsAny {names : List String} (h : readsAny names e = false) :
    ∀ m name, .identifier m name ∈ e.nodes → name ∉ names := by
  induction e using Expr.children_induction with
  | step e ih =>
    intro m name hname
    have hchildren : ∀ c ∈ e.children, readsAny names c = false := by
      cases e <;> simp_all [readsAny, anyReadsAny_eq, Expr.children]
    rcases Expr.mem_nodes.mp hname with rfl | ⟨c, hc, hname⟩
    · simpa [readsAny] using h
    · exact ih c hc (hchildren c hc) m name hname

end Code

namespace Translate

section Hoisting

variable {file : String} {a : Analysis}

lemma before_exprs {es : List Expr} (h : (exprs file a n es).before = []) :
    ∀ e ∈ es, ∃ k, (expr file a k e).before = [] := by
  induction es generalizing n with
  | nil => simp
  | cons e rest ih =>
    obtain ⟨hfirst, hrest⟩ := append_eq_nil_iff.mp h
    exact forall_mem_cons.mpr ⟨⟨n, hfirst⟩, ih hrest⟩

lemma isList_of_before (h : (expr file a n e).before = []) : ∀ k ∈ e.nodes, k.isList = false := by
  induction e using Expr.children_induction generalizing n with
  | step e ih =>
    have hstep : e.isList = false ∧ (exprs file a n e.children).before = [] := by
      cases e with
      | list m elements => cases (append_eq_nil_iff.mp h).2
      | emptyList m => cases h
      | literal m value | identifier m name => simp [Expr.isList, Expr.children, exprs]
      | _ => simpa [Expr.isList, Expr.children, expr, exprs] using h
    intro k hk
    rcases Expr.mem_nodes.mp hk with rfl | ⟨c, hc, hk⟩
    · exact hstep.1
    · obtain ⟨n', hn'⟩ := before_exprs hstep.2 c hc
      exact ih c hc hn' k hk

end Hoisting

/-- The globals that are initialised where they are declared and those that the preamble initialises, both in
the order of the program. -/
structure Starts (s : Code.Scene) (gs : List GlobalDef) (t : GlobalItems) (inlined deferred : List Start) : Prop where
  items : t.items.flatMap Item.initialiser = inlined.flatMap Start.rows
  preamble : t.preamble = deferred.flatMap Start.rows
  once : ((inlined ++ deferred).map Start.definition).Perm gs
  inlinedOrder : (inlined.map Start.definition).Sublist gs
  deferredOrder : (deferred.map Start.definition).Sublist gs
  inlines : ∀ x ∈ inlined, x.Inlines s.file s.analysis
  stores : ∀ x ∈ deferred, x.Stores s.file s.analysis
  plain : ∀ x ∈ inlined, x.before = [] ∧ ∀ n ∈ x.definition.value.nodes, n.isList = false ∧
    (n.call?.isSome = true → ∀ header, s.analysis.header? n.id = some header → header.predefined = true)

lemma of_isImmediate {s : Code.Scene}
    (h : Code.isImmediate s.analysis waiting ((expr s.file s.analysis n e).before.map Row.code) e = true) :
    (expr s.file s.analysis n e).before = [] ∧ Code.callsDefined s.analysis e = false ∧
      Code.readsAny waiting e = false := by
  simpa [Code.isImmediate, and_assoc] using h

section Cons

variable {s : Code.Scene} {rest : List GlobalDef} {t : GlobalItems} {inlined deferred : List Start} {g : GlobalDef}
  {n : Nat} (h : Starts s rest t inlined deferred)
include h

lemma Starts.inline (himmediate : Code.isImmediate s.analysis waiting
      ((expr s.file s.analysis n g.value).before.map Row.code) g.value = true) :
    let row := Row.declare g.type.spelling g.name (some (expr s.file s.analysis n g.value).value)
    Starts s (g :: rest) ⟨.global row :: t.items, t.preamble, t.next⟩ (⟨g, [], row⟩ :: inlined) deferred := by
  obtain ⟨hbefore, hcalls, -⟩ := of_isImmediate himmediate
  refine ⟨?_, h.preamble, h.once.cons g, h.inlinedOrder.cons_cons g, h.deferredOrder.cons g, ?_, h.stores, ?_⟩
  · rw [flatMap_cons, flatMap_cons, h.items]
    rfl
  · exact forall_mem_cons.mpr ⟨⟨n, hbefore.symm, rfl⟩, h.inlines⟩
  · refine forall_mem_cons.mpr ⟨⟨rfl, fun k hk => ?_⟩, h.plain⟩
    exact ⟨isList_of_before hbefore k hk, Code.predefined_of_callsDefined hcalls k hk⟩

lemma Starts.defer :
    let value := expr s.file s.analysis n g.value
    Starts s (g :: rest)
      ⟨.global (.declare g.type.spelling g.name none) :: t.items,
        value.before ++ .store g.name value.value :: t.preamble, t.next⟩
      inlined (⟨g, value.before, .store g.name value.value⟩ :: deferred) := by
  refine ⟨h.items, ?_, ?_, h.inlinedOrder.cons g, h.deferredOrder.cons_cons g, h.inlines, ?_, h.plain⟩
  · rw [flatMap_cons, h.preamble, Start.rows, append_assoc]
    rfl
  · rw [map_append, map_cons]
    have hrest := h.once
    rw [map_append] at hrest
    exact perm_middle.trans (hrest.cons g)
  · exact forall_mem_cons.mpr ⟨⟨n, rfl, rfl⟩, h.stores⟩

end Cons

/-- Each value is computed from globals that have theirs: one that does not wait reads none that does, and the
others run after all that do not wait. -/
theorem exists_starts (s : Code.Scene) {gs : List GlobalDef} (waiting known : List String) {block : List String}
    (n : Nat) (hfound : ∀ site ∈ Program.globalSites block gs, site.Found)
    (hblock : ∀ name ∈ block, name ∈ known ∨ name ∈ waiting) :
    ∃ inlined deferred, Starts s gs (globals s waiting n gs) inlined deferred ∧ Start.InOrder known inlined ∧
      Start.InOrder ((inlined.map fun x => x.definition.name).reverse ++ (waiting ++ known)) deferred := by
  induction gs generalizing waiting known block n with
  | nil =>
    refine ⟨[], [], ⟨rfl, rfl, .refl _, .refl _, .refl _, ?_, ?_, ?_⟩, trivial, trivial⟩ <;> simp
  | cons g rest ih =>
    let h := expr s.file s.analysis n g.value
    obtain ⟨hfirst, hrest⟩ := forall_mem_cons.mp hfound
    have hreads : ∀ m name, .identifier m name ∈ g.value.nodes → name ∈ known ∨ name ∈ waiting := by
      intro m name hname
      obtain ⟨found, hdeclared⟩ := hfirst m name hname
      refine hblock name ?_
      by_contra hnot
      have hnone := Blocks.place?_eq_none.mpr hnot
      simp [Blocks.declaration?, hnone] at hdeclared
    rw [globals]
    by_cases himmediate : Code.isImmediate s.analysis waiting (h.before.map Row.code) g.value = true
    · have hblock' : ∀ name ∈ g.name :: block, name ∈ g.name :: known ∨ name ∈ waiting :=
        forall_mem_cons.mpr ⟨.inl mem_cons_self, fun name hname =>
          (hblock name hname).imp_left (mem_cons_of_mem _)⟩
      obtain ⟨inlined, deferred, hstarts, hinlined, hdeferred⟩ := ih waiting (g.name :: known) h.next hrest hblock'
      rw [if_pos himmediate]
      refine ⟨_, deferred, hstarts.inline himmediate, ⟨fun m name hname => ?_, hinlined⟩, hdeferred.mono ?_⟩
      · have hwaits := Code.not_mem_of_readsAny (of_isImmediate himmediate).2.2 m name hname
        exact (hreads m name hname).resolve_right hwaits
      · intro name hname
        simp only [map_cons, reverse_cons, mem_append, mem_cons] at hname ⊢
        tauto
    · have hblock' : ∀ name ∈ g.name :: block, name ∈ known ∨ name ∈ g.name :: waiting :=
        forall_mem_cons.mpr ⟨.inr mem_cons_self, fun name hname =>
          (hblock name hname).imp_right (mem_cons_of_mem _)⟩
      obtain ⟨inlined, deferred, hstarts, hinlined, hdeferred⟩ := ih (g.name :: waiting) known h.next hrest hblock'
      rw [if_neg himmediate]
      refine ⟨inlined, _, hstarts.defer, hinlined, fun m name hname => ?_, hdeferred.mono ?_⟩
      · have := hreads m name hname
        simp only [mem_append]
        tauto
      · intro name hname
        simp only [mem_append, mem_cons] at hname ⊢
        tauto

/-- A part of a file that takes no part in the start. -/
def IsLater (item : Item) : Prop :=
  item.initialiser = [] ∧ item.preamble = []

lemma startup_later {items : List Item} (h : ∀ item ∈ items, IsLater item) :
    items.flatMap Item.initialiser = [] ∧ items.flatMap Item.preamble = [] :=
  ⟨flatMap_eq_nil_iff.mpr fun item hitem => (h item hitem).1,
    flatMap_eq_nil_iff.mpr fun item hitem => (h item hitem).2⟩

lemma isLater_function {head : Head} {body : List Step} (h : head.callee ≠ "preamble") :
    IsLater (.function head body) :=
  ⟨rfl, if_neg h⟩

lemma isLater_separated {α : Type} {item : Nat → α → Item × Nat} (h : ∀ n x, IsLater (item n x).1) (xs : List α) :
    ∀ i ∈ (separated item n xs).1, IsLater i := by
  induction xs generalizing n with
  | nil => simp [separated]
  | cons x rest ih =>
    rw [separated]
    exact forall_mem_cons.mpr ⟨⟨rfl, rfl⟩, forall_mem_cons.mpr ⟨h n x, ih⟩⟩

lemma functionName_ne (name : String) (params : List Ty) : Code.functionName name params ≠ "preamble" := by
  intro h
  have htext := congrArg String.toList h
  unfold Code.functionName at htext
  split at htext <;> simp at htext

lemma ruleName_ne (name : String) : Code.ruleName name ≠ "preamble" := by
  intro h
  have htext := congrArg String.toList h
  simp [Code.ruleName] at htext

lemma preamble_globals {s : Code.Scene} (gs : List GlobalDef) :
    (globals s waiting n gs).items.flatMap Item.preamble = [] := by
  induction gs generalizing waiting n with
  | nil => rfl
  | cons g rest ih =>
    rw [globals]
    split
    · exact ih
    · exact ih

lemma filterMap_rows (all : List Row) : (Step.rows all).filterMap Step.row? = all := by
  induction all with
  | nil => rfl
  | cons row rest ih => exact congrArg (row :: ·) ih

lemma startup_file (p : Program) (a : Analysis) :
    startup (file p a) = (globals ⟨p.file, a, false⟩ [] 0 p.globals).items.flatMap Item.initialiser ++
      (globals ⟨p.file, a, false⟩ [] 0 p.globals).preamble := by
  have hprototypes : ∀ item ∈ p.functions.map fun f => Item.prototype (functionHead f), IsLater item := by
    intro item hitem
    obtain ⟨f, -, rfl⟩ := mem_map.mp hitem
    exact ⟨rfl, rfl⟩
  have hfunctions : ∀ n f, IsLater (function ⟨p.file, a, false⟩ n f).1 := fun n f =>
    isLater_function (functionName_ne f.name _)
  have hrules : ∀ n r, IsLater (rule ⟨p.file, a, false⟩ n r).1 := fun n r => isLater_function (ruleName_ne r.name)
  simp only [startup, file, flatMap_append, (startup_later hprototypes).1, (startup_later hprototypes).2,
    (startup_later (isLater_separated hfunctions _)).1, (startup_later (isLater_separated hfunctions _)).2,
    (startup_later (isLater_separated hrules _)).1, (startup_later (isLater_separated hrules _)).2,
    preamble_globals, append_nil]
  simp [Item.initialiser, Item.preamble, filterMap_rows]

end Translate

namespace Program

variable {p : Program}

/-- In the code of every program that is generated, the start gives each global its value exactly once. Every
value is computed after those of the globals that occur in it, and a value that is computed where its global is
declared needs no lines before it and calls no function of the program. The output is the lines, each with a
newline after it. -/
theorem globals_start_in_order {source file : String} {rs : List Compilation.Request} {c : Compilation}
    (hread : Program.ofSource source file = .ok p)
    (hreach : (Compilation.ofProgram p).requests rs = some c) (hstage : c.stage = .generated) :
    ∃ a inlined deferred, c.analysis = some a ∧
      c.output = some (Code.render ((Translate.file p a).flatMap Item.code)) ∧
      Code.Shows (Code.render ((Translate.file p a).flatMap Item.code)) ((Translate.file p a).flatMap Item.code) ∧
      startup (Translate.file p a) = (inlined ++ deferred).flatMap Start.rows ∧
      (∀ s ∈ inlined, s.Inlines p.file a) ∧ (∀ s ∈ deferred, s.Stores p.file a) ∧
      (p.globals.map GlobalDef.name).Nodup ∧ ((inlined ++ deferred).map Start.definition).Perm p.globals ∧
      (inlined.map Start.definition).Sublist p.globals ∧ (deferred.map Start.definition).Sublist p.globals ∧
      (∀ earlier s later, inlined ++ deferred = earlier ++ s :: later → ∀ m name,
        .identifier m name ∈ s.definition.value.nodes → ∃ t ∈ earlier, t.definition.name = name) ∧
      ∀ s ∈ inlined, s.before = [] ∧ ∀ n ∈ s.definition.value.nodes, n.isList = false ∧
        (n.call?.isSome = true → ∀ header, a.header? n.id = some header → header.predefined = true) := by
  obtain ⟨_, a, _, _, text, hchecked, hnone, -, -, hgenerate, rfl⟩ :=
    (Compilation.reaches_of_requests hreach).of_generated hstage
  have hclean : (p.check {}).2.errors = [] := by rw [hchecked, hnone]
  obtain ⟨tokens, htokens⟩ := tokens_of_ofSource hread
  have hnodes := (wellFormed_of_ofTokens htokens).nodup
  have hcheck : p.check {} = ((p.check {}).1, (p.check {}).2) := Prod.mk.eta.symm
  have hglobalSites : globalSites [] p.globals ⊆ p.sites :=
    fun site hsite => mem_append_left _ (mem_append_left _ hsite)
  have hnew : ∀ site ∈ globalSites [] p.globals, site.New := fun site hsite =>
    (visits_of_check hnodes hcheck hclean).2.1 site (hglobalSites hsite)
  have hfound : ∀ site ∈ globalSites [] p.globals, site.Found := by
    intro site hsite m name hnode
    obtain ⟨visit, -, -, hresolves⟩ := exists_visit hnodes hcheck hclean (hglobalSites hsite)
    obtain ⟨declaration, -, hdeclaration⟩ := hresolves m name hnode
    exact ⟨declaration, hdeclaration⟩
  have hnames : (p.globals.map GlobalDef.name).Nodup := by
    have hreversed := Translate.nodup_globals nodup_nil hnew
    rwa [append_nil, nodup_reverse] at hreversed
  obtain ⟨inlined, deferred, hstarts, hinlined, hdeferred⟩ :=
    Translate.exists_starts ⟨p.file, a, false⟩ [] [] 0 hfound (by simp)
  have horder : Start.InOrder [] (inlined ++ deferred) := Start.inOrder_append.mpr ⟨hinlined, hdeferred⟩
  refine ⟨a, inlined, deferred, rfl, congrArg some (Code.render_of_generate hgenerate), Code.shows_file p a, ?_,
    hstarts.inlines, hstarts.stores, hnames, hstarts.once, hstarts.inlinedOrder, hstarts.deferredOrder, ?_,
    hstarts.plain⟩
  · rw [Translate.startup_file, hstarts.items, hstarts.preamble, flatMap_append]
  · intro earlier s later hsplit m name hname
    exact horder.read hsplit hname

/-- A list and a call wait for the preamble, and so does the value that reads the list. -/
theorem globals_start_in_order_waiting :
    ∃ p c a inlined deferred,
      Program.ofSource ("num[] w := [1, 2]; num z := 3; num y := w[0] + z; num v := twice(z); num u := z * 2; " ++
        "num twice(num k) \x7b return k + k; \x7d rule r \x7b score y + v + u; \x7d") "" = .ok p ∧
      (Compilation.ofProgram p).requests [.run] = some c ∧ c.stage = .generated ∧ c.analysis = some a ∧
      (startup (Translate.file p a)).map Row.code =
        ["int var_z = 3;", "int var_u = (var_z * 2);", "vector<int> _lit_0;", "_lit_0.push_back(1);",
          "_lit_0.push_back(2);", "var_w = _lit_0;", "var_y = (access_array(var_w, 0) + var_z);",
          "var_v = fn_twice__num(var_z);"] ∧
      startup (Translate.file p a) = (inlined ++ deferred).flatMap Start.rows ∧
      ((inlined ++ deferred).map Start.definition).Perm p.globals ∧
      ∀ earlier s later, inlined ++ deferred = earlier ++ s :: later → ∀ m name,
        .identifier m name ∈ s.definition.value.nodes → ∃ t ∈ earlier, t.definition.name = name := by
  have hrun : compilesWith ("num[] w := [1, 2]; num z := 3; num y := w[0] + z; num v := twice(z); num u := z * 2; " ++
      "num twice(num k) \x7b return k + k; \x7d rule r \x7b score y + v + u; \x7d") [.run] (fun p a =>
      decide ((startup (Translate.file p a)).map Row.code =
        ["int var_z = 3;", "int var_u = (var_z * 2);", "vector<int> _lit_0;", "_lit_0.push_back(1);",
          "_lit_0.push_back(2);", "var_w = _lit_0;", "var_y = (access_array(var_w, 0) + var_z);",
          "var_v = fn_twice__num(var_z);"])) = true := by
    decide +kernel
  obtain ⟨p, c, a, hread, hreach, hstage, hanalysis, htest⟩ := of_compilesWith hrun
  obtain ⟨a', inlined, deferred, hanalysis', -, -, hrows, -, -, -, honce, -, -, horder, -⟩ :=
    globals_start_in_order hread hreach hstage
  cases hanalysis.symm.trans hanalysis'
  exact ⟨p, c, a, inlined, deferred, hread, hreach, hstage, hanalysis, of_decide_eq_true htest, hrows, honce, horder⟩

end Program

end ChessEval
