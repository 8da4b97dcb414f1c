import ChessEval.Proofs.Lookups
import ChessEval.Proofs.NamesInCode
import ChessEval.Proofs.Stages

/-!
# Bindings of generated code

Every variable in generated code denotes the declaration that the analysis has found for its identifier,
except in the initial value of a variable of the same name: there the target language takes the new
variable, and the analysis an outer one.
-/

namespace ChessEval

open Target

namespace Code

/-- A text is made of lines as they are written, with a newline after each, and can be split into them. -/
def Shows (text : String) (lines : List Line) : Prop :=
  text.toList = lines.flatMap (fun line => line.render.toList ++ ['\n']) ∧
    ((∀ line ∈ lines, '\n' ∉ line.text.toList) → text.toList.splitOn '\n' = lines.map (·.render.toList) ++ [[]])

lemma splitOn_of_lines {lines : List Line} (h : ∀ line ∈ lines, '\n' ∉ line.text.toList) :
    (lines.flatMap fun line => line.render.toList ++ ['\n']).splitOn '\n' = lines.map (·.render.toList) ++ [[]] := by
  induction lines with
  | nil => rfl
  | cons line rest ih =>
    obtain ⟨hline, hrest⟩ := List.forall_mem_cons.mp h
    have hwritten : '\n' ∉ line.render.toList := by
      unfold Line.render
      split <;> simp [hline]
    rw [List.flatMap_cons, List.append_assoc, List.singleton_append, List.splitOn,
      List.splitOnP_append_cons _ _ (by simp), ← List.splitOn, ← List.splitOn, ih hrest,
      List.splitOn_eq_singleton hwritten]
    rfl

lemma shows_render {lines : List Line} (h : lines ≠ []) : Shows (render lines) lines := by
  have htext : (render lines).toList = lines.flatMap fun line => line.render.toList ++ ['\n'] := by
    induction lines with
    | nil => exact absurd rfl h
    | cons line rest ih =>
      cases rest with
      | nil => simp [render]
      | cons other rest =>
        have hrest := ih (by simp)
        simp only [render, String.toList_append] at hrest
        rw [List.flatMap_cons, ← hrest]
        simp [render]
  exact ⟨htext, fun hlines => htext ▸ splitOn_of_lines hlines⟩

end Code

lemma Code.lines_of_generate {p : Program} {a : Analysis} {text : String} (h : generate p a = .ok text) :
    ∃ lines, Code.lines p a = .ok lines ∧ text = render lines := by
  unfold generate at h
  cases hlines : Code.lines p a with
  | error fault =>
    rw [hlines] at h
    cases h
  | ok lines =>
    rw [hlines] at h
    cases h
    exact ⟨lines, rfl, rfl⟩

lemma Code.render_of_generate {p : Program} {a : Analysis} {text : String} (h : generate p a = .ok text) :
    text = render ((Translate.file p a).flatMap Item.code) := by
  obtain ⟨lines, hlines, rfl⟩ := lines_of_generate h
  rw [Translate.lines_eq hlines]

lemma Code.shows_file (p : Program) (a : Analysis) :
    Shows (render ((Translate.file p a).flatMap Item.code)) ((Translate.file p a).flatMap Item.code) :=
  shows_render (List.cons_ne_nil _ _)

lemma Code.shows_of_lines {p : Program} {a : Analysis} {lines : List Line} (h : Code.lines p a = .ok lines) :
    Shows (render lines) lines := by
  rw [Translate.lines_eq h]
  exact shows_file p a

/-- The analysis has found a declaration for an identifier when it came to the expression around it, and
has recorded its type. -/
structure Visit.Resolves (visit : Visit) (a : Analysis) (m : Mark) (name : String) (declaration : Nat × Nat) :
    Prop where
  node : .identifier m name ∈ visit.expr.nodes
  reads : ∃ type, visit.declarations.Reads name declaration type ∧ a.types.get? m.id = some type

namespace Program

variable {p : Program} {a : Analysis} {ds ds' : Diagnostics}

lemma exists_visit (hnodup : (p.nodes.map Expr.id).Nodup) (h : p.check ds = (a, ds')) (hclean : ds'.errors = [])
    {site : Site} (hsite : site ∈ p.sites) :
    ∃ visit ∈ (p.trace ds).2, visit.declarations.names.blocks = site.blocks ∧
      ∀ m name, .identifier m name ∈ site.expr.nodes → ∃ declaration,
        visit.Resolves a m name declaration ∧ site.blocks.declaration? name = some declaration := by
  obtain ⟨hvisited, -, htyped⟩ := visits_of_check hnodup h hclean
  have hmem : (site.expr, site.blocks) ∈ p.sites.map fun site => (site.expr, site.blocks) :=
    List.mem_map_of_mem hsite
  rw [← hvisited] at hmem
  obtain ⟨visit, hvisit, heq⟩ := List.mem_map.mp hmem
  obtain ⟨hexpr, hblocks⟩ := Prod.mk.inj heq
  refine ⟨visit, hvisit, hblocks, fun m name hnode => ?_⟩
  rw [← hexpr] at hnode
  obtain ⟨type, hfind, htype⟩ := htyped visit hvisit _ hnode
  obtain ⟨declaration, hdeclaration⟩ := NameTypes.declaration?_of_find? hfind
  obtain ⟨type', hreads⟩ := Declarations.exists_reads hdeclaration
  obtain ⟨b, d', -, -, hread, -⟩ := hreads.read
  have hsame : type' = type := Option.some.inj ((Declarations.read_some hread).1.symm.trans hfind)
  exact ⟨declaration, ⟨hnode, type, hsame ▸ hreads, htype⟩, hblocks ▸ hdeclaration⟩

lemma outer_of_own {use : Use} {site : Site} {declaration : Nat × Nat} (hfrom : use.From site) (hnew : site.New)
    (hfound : site.blocks.declaration? use.name = some declaration) (hown : use.IsOwn) :
    ∃ own, use.declaration? = some own ∧ declaration.1 < own.1 := by
  obtain ⟨hdeclares, hblocks⟩ := hfrom.own hown
  cases hsite : site.blocks with
  | nil =>
    rw [hsite] at hfound
    cases hfound
  | cons block outer =>
    have hfresh : use.name ∉ block := hnew use.name hdeclares block (by rw [hsite]; rfl)
    rw [hsite] at hfound
    rw [Use.declaration?, hblocks, hsite]
    exact Blocks.declaration?_declare_self hfresh hfound

/-- In the code of every program that is generated, a variable denotes the declaration that the analysis has
found for its identifier, unless it stands in the initial value of a variable of its own name: then it denotes
that variable, and the analysis has found an outer one. Apart from these, a variable only occurs where the
preamble gives a global its value, and every identifier that is written has its occurrence. The text of a term
names the variables in it and no others, and different variables by different names. -/
theorem bindings_kept_unless_own {source file : String} {rs : List Compilation.Request} {c : Compilation}
    (hread : Program.ofSource source file = .ok p)
    (hreach : (Compilation.ofProgram p).requests rs = some c) (hstage : c.stage = .generated) :
    ∃ a, c.analysis = some a ∧ c.output = some (Code.render ((Translate.file p a).flatMap Item.code)) ∧
      (p.trace {}).1 = p.check {} ∧
      (∀ use ∈ Item.allUses [] (Translate.file p a), ∀ m, use.source = some m →
        ∃ visit ∈ (p.trace {}).2, ∃ declaration, visit.Resolves (p.check {}).1 m use.name declaration ∧
          (¬use.IsOwn → use.declaration? = some declaration) ∧
          (use.IsOwn → ∃ own, use.declaration? = some own ∧ declaration.1 < own.1)) ∧
      (∀ use ∈ Item.allUses [] (Translate.file p a), use.source = none → ∃ site ∈ p.sites, use.Fills site) ∧
      (∀ e ∈ p.written, ∀ m name, .identifier m name ∈ e.nodes →
        ∃ use ∈ Item.allUses [] (Translate.file p a), use.source = some m ∧ use.name = name) ∧
      (∀ e k, (Translate.expr p.file a k e).value.NamesVars) ∧ Function.Injective Code.variableName := by
  obtain ⟨_, a, _, _, text, hchecked, hnone, -, -, hgenerate, rfl⟩ :=
    (Compilation.reaches_of_requests hreach).of_generated hstage
  have hclean : (p.check {}).2.errors = [] := by rw [hchecked, hnone]
  obtain ⟨tokens, htokens⟩ := tokens_of_ofSource hread
  have hnodup := (wellFormed_of_ofTokens htokens).nodup
  have hcheck : p.check {} = ((p.check {}).1, (p.check {}).2) := Prod.mk.eta.symm
  have hnew : ∀ site ∈ p.sites, site.New := (visits_of_check hnodup hcheck hclean).2.1
  have hfound : ∀ site ∈ p.sites, site.Found := by
    intro site hsite m name hnode
    obtain ⟨visit, -, -, hresolves⟩ := exists_visit hnodup hcheck hclean hsite
    obtain ⟨declaration, -, hdeclaration⟩ := hresolves m name hnode
    exact ⟨declaration, hdeclaration⟩
  obtain ⟨hexplained, hcomplete⟩ := Translate.covers_file a hnew hfound
  refine ⟨a, rfl, congrArg some (Code.render_of_generate hgenerate), p.trace_check {}, ?_, ?_, ?_,
    fun e k => Translate.namesVars_expr k e, Code.variableName_injective⟩
  · intro use huse m hm
    obtain ⟨site, hsite, hfrom | hfills⟩ := hexplained use huse
    · obtain ⟨m', hm', hnode⟩ := hfrom.node
      have hmark : m' = m := Option.some.inj (hm'.symm.trans hm)
      obtain ⟨visit, hvisit, -, hresolves⟩ := exists_visit hnodup hcheck hclean hsite
      obtain ⟨declaration, hresolved, hdeclaration⟩ := hresolves m use.name (hmark ▸ hnode)
      exact ⟨visit, hvisit, declaration, hresolved, fun hother => (hfrom.same hother).trans hdeclaration,
        outer_of_own hfrom (hnew site hsite) hdeclaration⟩
    · rw [hfills.source] at hm
      cases hm
  · intro use huse hnone
    obtain ⟨site, hsite, hfrom | hfills⟩ := hexplained use huse
    · obtain ⟨m, hm, -⟩ := hfrom.node
      rw [hnone] at hm
      cases hm
    · exact ⟨site, hsite, hfills⟩
  · intro e he m name hnode
    exact hcomplete e he (m, name) hnode

/-- Whether a source comes to generated code and a test of the program and its analysis holds. -/
def compilesWith (source : String) (rs : List Compilation.Request) (test : Program → Analysis → Bool) : Bool :=
  (Program.ofSource source "").toOption.any fun p => ((Compilation.ofProgram p).requests rs).any fun c =>
    decide (c.stage = .generated) && c.analysis.any (test p)

lemma of_compilesWith {source : String} {rs : List Compilation.Request} {test : Program → Analysis → Bool}
    (h : compilesWith source rs test = true) :
    ∃ p c a, Program.ofSource source "" = .ok p ∧ (Compilation.ofProgram p).requests rs = some c ∧
      c.stage = .generated ∧ c.analysis = some a ∧ test p a = true := by
  obtain ⟨p, hread, hrun⟩ := (Option.any_eq_true _ _).mp h
  obtain ⟨c, hreach, hend⟩ := (Option.any_eq_true _ _).mp hrun
  obtain ⟨hstage, htested⟩ := (Bool.and_eq_true _ _).mp hend
  obtain ⟨a, hanalysis, htest⟩ := (Option.any_eq_true _ _).mp htested
  exact ⟨p, c, a, of_toOption hread, hreach, of_decide_eq_true hstage, hanalysis, htest⟩

/-- Variables of one name at three levels, and globals that get their values in the preamble. -/
theorem bindings_kept_unless_own_shadowed :
    ∃ p c a,
      Program.ofSource ("num[] w := [1, 2]; num y := w[0]; rule r \x7b num x := y; forall (x in w) \x7b " ++
        "if (x > y) \x7b num y := x + w[1]; score x * y; \x7d \x7d score x; \x7d") "" = .ok p ∧
      (Compilation.ofProgram p).requests [.check, .infer, .generate] = some c ∧ c.stage = .generated ∧
      c.analysis = some a ∧
      (∃ use ∈ Item.allUses [] (Translate.file p a), use.name = "y" ∧ use.declaration? = some (3, 0)) ∧
      ∀ use ∈ Item.allUses [] (Translate.file p a), ∀ m, use.source = some m →
        ∃ visit ∈ (p.trace {}).2, ∃ declaration, visit.Resolves (p.check {}).1 m use.name declaration ∧
          use.declaration? = some declaration := by
  have hrun : compilesWith ("num[] w := [1, 2]; num y := w[0]; rule r \x7b num x := y; forall (x in w) \x7b " ++
      "if (x > y) \x7b num y := x + w[1]; score x * y; \x7d \x7d score x; \x7d") [.check, .infer, .generate]
      (fun p a =>
        decide (∃ use ∈ Item.allUses [] (Translate.file p a), use.name = "y" ∧ use.declaration? = some (3, 0)) &&
          decide (∀ use ∈ Item.allUses [] (Translate.file p a), use.declaring ≠ some use.name)) = true := by
    decide +kernel
  obtain ⟨p, c, a, hread, hreach, hstage, hanalysis, htest⟩ := of_compilesWith hrun
  obtain ⟨hinner, hother⟩ := (Bool.and_eq_true _ _).mp htest
  refine ⟨p, c, a, hread, hreach, hstage, hanalysis, of_decide_eq_true hinner, fun use huse m hm => ?_⟩
  obtain ⟨a', hanalysis', -, -, hkept, -⟩ := bindings_kept_unless_own hread hreach hstage
  cases hanalysis.symm.trans hanalysis'
  obtain ⟨visit, hvisit, declaration, hresolves, hsame, -⟩ := hkept use huse m hm
  exact ⟨visit, hvisit, declaration, hresolves, hsame (of_decide_eq_true hother use huse)⟩

/-- The value of a variable that should be computed from the global of its name reads the variable itself. -/
theorem own_value_not_kept :
    ∃ p c a,
      Program.ofSource "num x := 1; rule r \x7b num x := x + 1; score x; \x7d" "" = .ok p ∧
      (Compilation.ofProgram p).requests [.run] = some c ∧ c.stage = .generated ∧ c.analysis = some a ∧
      ⟨1, "int var_x = (var_x + 1);"⟩ ∈ (Translate.file p a).flatMap Item.code ∧
      ∃ use ∈ Item.allUses [] (Translate.file p a), use.name = "x" ∧ use.declaration? = some (1, 0) ∧
        ∃ visit ∈ (p.trace {}).2, (∃ n ∈ visit.expr.nodes, use.source = some n.mark) ∧
          visit.declarations.names.blocks.declaration? "x" = some (0, 0) := by
  have hrun : compilesWith "num x := 1; rule r \x7b num x := x + 1; score x; \x7d" [.run] (fun p a =>
      decide (⟨1, "int var_x = (var_x + 1);"⟩ ∈ (Translate.file p a).flatMap Item.code) &&
        decide (∃ use ∈ Item.allUses [] (Translate.file p a), use.name = "x" ∧ use.declaration? = some (1, 0) ∧
          ∃ visit ∈ (p.trace {}).2, (∃ n ∈ visit.expr.nodes, use.source = some n.mark) ∧
            visit.declarations.names.blocks.declaration? "x" = some (0, 0))) = true := by
    decide +kernel
  obtain ⟨p, c, a, hread, hreach, hstage, hanalysis, htest⟩ := of_compilesWith hrun
  obtain ⟨hline, hown⟩ := (Bool.and_eq_true _ _).mp htest
  exact ⟨p, c, a, hread, hreach, hstage, hanalysis, of_decide_eq_true hline, of_decide_eq_true hown⟩

end Program

end ChessEval
