import ChessEval.Proofs.Recording
import ChessEval.Proofs.Translating

/-!
# Targets of calls

The header that a clean analysis records for a call belongs to a predefined function or to a function of
the program, and the name that code gives the function there is the one in its forward declaration.
-/

namespace ChessEval

namespace Code

def Declares (file : String) (lines : List Line) (f : FunctionDef) (callee : String) : Prop :=
  ∃ returnType params, typeCode file f.returnType f.line = .ok returnType ∧
    Line.top (returnType ++ " " ++ call callee params ++ ";") ∈ lines

lemma exists_headers {p : Program} (hwf : p.WellFormed) (s : Scene) (next : Nat) :
    ∃ lines, (headers s p).run ⟨next, 0⟩ = .ok (lines, ⟨next, 0⟩) ∧
      ∀ f ∈ p.functions, Declares s.file lines f (functionName f.name (f.params.map Param.type)) := by
  have hspells : Generate.Spells True (functionHeaders s p.functions) :=
    spells_functionHeaders (fun f => hwf.returnType) fun f => hwf.params
  have hrun := hspells ⟨next, 0⟩
  cases hfunctions : (functionHeaders s p.functions).run ⟨next, 0⟩ with
  | error fault =>
    rw [hfunctions] at hrun
    exact absurd trivial hrun.1
  | ok result =>
    obtain ⟨lines, c⟩ := result
    obtain ⟨rfl, rfl, htypes⟩ := Translate.of_functionHeaders hfunctions
    refine ⟨_, runExcept_bind.mpr ⟨_, _, rfl, runExcept_bind.mpr ⟨_, _, hfunctions, rfl⟩⟩, fun f hf => ?_⟩
    have hline : Line.top ((Translate.functionHead f).code ++ ";") ∈
        (p.functions.map fun f => Target.Item.prototype (Translate.functionHead f)).flatMap Target.Item.code :=
      List.mem_flatMap.mpr ⟨_, List.mem_map_of_mem hf, List.mem_singleton_self _⟩
    exact ⟨_, _, htypes f hf, List.mem_append_left _ (List.mem_append_right _ hline)⟩

lemma predefinedName_ne (name rest : String) : predefinedName name ≠ "fn_" ++ rest := by
  intro h
  have htext := congrArg String.toList h
  simp [predefinedName] at htext

end Code

namespace Program

structure Target (p : Program) (name : String) (arguments : List Expr) (header : Header) : Prop where
  length : header.params.length = arguments.length
  defined : (∃ f ∈ Predefined.all, f.name = name ∧ header = .ofPredefined f.params) ∨
    ∃ f ∈ p.functions, f.name = name ∧ header = Inspect.functionHeader f
  references : ∀ (i : Nat) (argument : Expr), arguments[i]? = some argument →
    header.byReference[i]? = some true → ∃ m x, argument = .identifier m x

variable {p : Program} {a : Analysis}

lemma mem_signatures_registered {name : String} {header : Header}
    (h : (name, header) ∈ Declarations.signatures (Inspect.registered p)) :
    (∃ f ∈ Predefined.all, f.name = name ∧ header = .ofPredefined f.params) ∨
      ∃ f ∈ p.functions, f.name = name ∧ header = Inspect.functionHeader f := by
  rw [Inspect.registered, Declarations.signatures_append, List.mem_append] at h
  refine h.imp (fun h => ?_) fun h => ?_
  · obtain ⟨_, hmem, hheader⟩ := List.mem_flatMap.mp h
    obtain ⟨f, hf, rfl⟩ := List.mem_map.mp hmem
    obtain ⟨hname, hparams⟩ := Prod.mk.inj (List.mem_singleton.mp hheader)
    exact ⟨f, hf, hname.symm, hparams⟩
  · obtain ⟨_, hmem, hheader⟩ := List.mem_flatMap.mp h
    obtain ⟨f, hf, rfl⟩ := List.mem_map.mp hmem
    obtain ⟨hname, hparams⟩ := Prod.mk.inj (List.mem_singleton.mp hheader)
    exact ⟨f, hf, hname.symm, hparams⟩

lemma Recorded.target (hrecorded : p.Recorded a) (hwf : p.WellFormed) (htyped : p.Typed a) {n : Expr}
    (hn : n ∈ p.nodes) {name : String} {arguments : List Expr}
    (hcall : n.call? = some (name, arguments)) :
    ∃ header, a.header? n.id = some header ∧ p.Target name arguments header := by
  obtain ⟨Γ, hΓ⟩ := htyped.node hn
  obtain ⟨resolved, hresolve, hheader, -⟩ := hΓ.resolves hcall
  obtain ⟨f, hf, -, hfilter⟩ := Declarations.resolveCall_eq_ok_iff.mp hresolve
  refine ⟨resolved.header, hheader, ?_, ?_, ?_⟩
  · simpa using Header.length_eq_of_fits (Declarations.accepts_of_resolveCall hresolve)
  · apply mem_signatures_registered
    apply hrecorded.signatures
    obtain ⟨l₁, l₂, heq, -⟩ := List.lookup_eq_some_iff.mp hf
    have hmem := List.mem_singleton_self resolved.header
    rw [← hfilter] at hmem
    rw [Declarations.signatures, heq]
    simp [List.mem_of_mem_filter hmem]
  · obtain ⟨n', hn', hid, name', arguments', hcall', hreferences⟩ := hrecorded.calls _ _ hheader
    rw [hwf.eq_of_id hn' hn hid, hcall] at hcall'
    cases hcall'
    exact hreferences

lemma calls_of_inferWithin {limit : Nat} {ds ds' : Diagnostics} {b : Analysis}
    (h : a.inferWithin limit p ds = some (b, ds')) : b.calls = a.calls := by
  unfold Analysis.inferWithin at h
  dsimp only at h
  split at h
  · cases h
    rfl
  · cases h
  · cases h
    rfl

/-- The name that code gives the function of a call is declared if the program defines the function. -/
lemma exists_calleeName {n : Expr} {name : String} {arguments : List Expr} {header : Header}
    (hheader : a.header? n.id = some header) (htarget : p.Target name arguments header)
    {lines : List Code.Line} (hlines : ∀ f ∈ p.functions,
      Code.Declares p.file lines f (Code.functionName f.name (f.params.map Param.type))) :
    ∃ callee, Code.calleeName p.file a n.mark name = .ok callee ∧
      ∀ rest, callee = "fn_" ++ rest →
        ∃ f ∈ p.functions, f.name = name ∧ Code.Declares p.file lines f callee := by
  unfold Code.calleeName
  rw [show a.header? n.mark.id = some header from hheader]
  refine ⟨_, rfl, fun rest hrest => ?_⟩
  rcases htarget.defined with ⟨f, -, -, rfl⟩ | ⟨f, hf, rfl, rfl⟩
  · exact absurd hrest (Code.predefinedName_ne name rest)
  · exact ⟨f, hf, rfl, hlines f hf⟩

/-- In a program that is checked without errors exactly the calls have a header. It is one that the call
can mean, and the names that code gives functions of the program at calls are those of the forward
declarations, before inference and after it. -/
theorem calls_linked {tokens : List Token} {file : String} {ds ds' : Diagnostics}
    (hread : (Program.ofTokens tokens file).1 = .ok p) (hcheck : p.check ds = (a, ds'))
    (hclean : ds'.errors = []) :
    (∀ id, (∃ header, a.header? id = some header) ↔
      ∃ n ∈ p.nodes, n.id = id ∧ n.call?.isSome = true) ∧
    (∀ n ∈ p.nodes, ∀ name arguments, n.call? = some (name, arguments) →
      ∃ header, a.header? n.id = some header ∧ p.Target name arguments header) ∧
    ∀ b, (b = a ∨ ∃ limit ds₁ ds₂, a.inferWithin limit p ds₁ = some (b, ds₂)) → ∀ inRule next,
      ∃ lines, (Code.headers ⟨p.file, b, inRule⟩ p).run ⟨next, 0⟩ = .ok (lines, ⟨next, 0⟩) ∧
        ∀ n ∈ p.nodes, ∀ name arguments, n.call? = some (name, arguments) →
          ∃ callee, Code.calleeName p.file b n.mark name = .ok callee ∧
            ∀ rest, callee = "fn_" ++ rest →
              ∃ f ∈ p.functions, f.name = name ∧ Code.Declares p.file lines f callee := by
  have hwf := Program.wellFormed_of_ofTokens hread
  have htyped := p.typed_of_check hwf.nodup hcheck hclean
  have hrecorded := p.recorded_of_check hcheck hclean
  refine ⟨fun id => ⟨?_, ?_⟩, fun n hn name arguments => hrecorded.target hwf htyped hn, ?_⟩
  · rintro ⟨header, hheader⟩
    obtain ⟨n, hn, hid, name, arguments, hcall, -⟩ := hrecorded.calls id header hheader
    exact ⟨n, hn, hid, by rw [hcall]; rfl⟩
  · rintro ⟨n, hn, rfl, hsome⟩
    obtain ⟨⟨name, arguments⟩, hcall⟩ := Option.isSome_iff_exists.mp hsome
    obtain ⟨header, hheader, -⟩ := hrecorded.target hwf htyped hn hcall
    exact ⟨header, hheader⟩
  · intro b hb inRule next
    have hcalls : b.calls = a.calls := by
      rcases hb with rfl | ⟨limit, ds₁, ds₂, hinfer⟩
      · rfl
      · exact calls_of_inferWithin hinfer
    obtain ⟨lines, hlines, hdeclares⟩ := Code.exists_headers hwf ⟨p.file, b, inRule⟩ next
    refine ⟨lines, hlines, fun n hn name arguments hcall => ?_⟩
    obtain ⟨header, hheader, htarget⟩ := hrecorded.target hwf htyped hn hcall
    rw [Analysis.header?, ← hcalls] at hheader
    exact exists_calleeName hheader htarget hdeclares

theorem calls_linked_overload :
    ∃ tokens p a ds b ds',
      Token.ofSource ("num len(num x) \x7b return x; \x7d void inc(&num x) \x7b x := x + 1; \x7d " ++
        "rule r \x7b num y := len([1]) + len(2); inc(y); score y; \x7d") "" = .ok tokens ∧
      (Program.ofTokens tokens "").1 = .ok p ∧ p.check {} = (a, ds) ∧ ds.errors = [] ∧
      a.inferWithin 3 p ds = some (b, ds') ∧
      (∃ n ∈ p.nodes, ∃ arguments header, n.call? = some ("inc", arguments) ∧
        a.header? n.id = some header ∧ header.byReference = [true] ∧ p.Target "inc" arguments header) ∧
      ∃ lines, (Code.headers ⟨p.file, b, true⟩ p).run ⟨0, 0⟩ = .ok (lines, ⟨0, 0⟩) ∧
        ∃ f ∈ p.functions, f.name = "len" ∧ Code.Declares p.file lines f "fn_len__num" := by
  have hrun : Program.infersWith
      ("num len(num x) \x7b return x; \x7d void inc(&num x) \x7b x := x + 1; \x7d " ++
        "rule r \x7b num y := len([1]) + len(2); inc(y); score y; \x7d") 3
      (fun p a b => decide (∃ n ∈ p.nodes, ∃ call ∈ n.call?, call.1 = "inc" ∧
          (a.header? n.id).map Header.byReference = some [true]) &&
        decide (∃ n ∈ p.nodes, ∃ call ∈ n.call?, call.1 = "len" ∧
          (Code.calleeName p.file b n.mark "len").toOption = some "fn_len__num")) = true := by
    decide +kernel
  obtain ⟨tokens, p, a, ds, b, ds', htokens, hread, hcheck, hclean, hinfer, -, htest⟩ :=
    Program.of_infersWith hrun
  obtain ⟨htarget, hcallee⟩ := (Bool.and_eq_true _ _).mp htest
  obtain ⟨-, htargets, hcallees⟩ := calls_linked hread hcheck hclean
  refine ⟨tokens, p, a, ds, b, ds', htokens, hread, hcheck, hclean, hinfer, ?_, ?_⟩
  · obtain ⟨n, hn, ⟨name, arguments⟩, hcall, rfl, hflags⟩ := of_decide_eq_true htarget
    obtain ⟨header, hheader, htarget⟩ := htargets n hn _ _ hcall
    rw [hheader] at hflags
    exact ⟨n, hn, arguments, header, hcall, hheader, Option.some.inj hflags, htarget⟩
  · obtain ⟨lines, hlines, hdeclared⟩ := hcallees b (.inr ⟨3, ds, ds', hinfer⟩) true 0
    obtain ⟨n, hn, ⟨name, arguments⟩, hcall, rfl, hname⟩ := of_decide_eq_true hcallee
    obtain ⟨callee, hcallee, hdeclares⟩ := hdeclared n hn _ _ hcall
    rw [hcallee] at hname
    cases hname
    exact ⟨lines, hlines, hdeclares "len__num" rfl⟩

end Program

end ChessEval
