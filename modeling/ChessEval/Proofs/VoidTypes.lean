import ChessEval.Proofs.RoundTrip

/-!
# Where `void` can stand

A reader of the type of a global, a parameter or a variable refuses every type with `void` in it. The type of what a
function gives back is not looked into: each type that can be written is read there, and so is `void` in brackets.
-/

namespace ChessEval

lemma Stmt.Printable.containsVoid {s : Stmt} (h : s.Printable) {type : Ty} (htype : type ∈ s.declared) :
    type.containsVoid = false := by
  cases s with
  | declare declared declarators line =>
    rw [List.mem_singleton.mp htype]
    exact h.1.2
  | _ => cases htype

lemma Definition.Printable.stmts {d : Definition} (h : d.Printable) : ∀ s ∈ d.stmts, s.Printable := by
  cases d with
  | global g => exact fun s hs => absurd hs List.not_mem_nil
  | function f => exact h.2.2
  | rule r => exact h

namespace Program

lemma exists_function_returning {type : Ty} (h : type.isResolved = true) (file : String) :
    ∃ tokens p, (Program.ofTokens tokens file).1 = .ok p ∧ ∃ f ∈ p.functions, f.returnType = type := by
  let p : Program := ⟨file, [], [.function ⟨type, "f", [], [], 0⟩], 0⟩
  have hprintable : ∀ d ∈ p.definitions, d.Printable :=
    List.forall_mem_singleton.mpr ⟨h, by simp, by simp [Stmt.blockParts]⟩
  have hnodes : ∀ n ∈ p.nodes, Parse.Legible Number.plain n := by
    simp [p, nodes, exprs, Definition.exprs, Stmt.blockParts]
  obtain ⟨q, hq, hsame⟩ := exists_ofTokens_print file (by simp [p]) hprintable hnodes
  have hdefinitions : q.definitions.map Definition.unmarked = [.function ⟨type, "f", [], [], 0⟩] :=
    congrArg Program.definitions hsame
  obtain ⟨d, hd, hfunction⟩ := List.map_eq_singleton_iff.mp hdefinitions
  cases d with
  | function f =>
    have hf : f ∈ q.functions := mem_functions.mpr (hd ▸ List.mem_singleton_self _)
    exact ⟨_, q, hq, f, hf, congrArg FunctionDef.returnType (Definition.function.inj hfunction)⟩
  | _ => cases hfunction

/-- In a program that has been read, no global, parameter or variable has a type with `void` in it. What a function
gives back has any type that can be written, also `void` in brackets. -/
theorem void_only_in_results {tokens : List Token} {file : String} {p : Program}
    (h : (Program.ofTokens tokens file).1 = .ok p) :
    (∀ g ∈ p.globals, g.type.containsVoid = false) ∧
      (∀ f ∈ p.functions, ∀ q ∈ f.params, q.type.containsVoid = false) ∧
      (∀ s ∈ p.stmts, ∀ type ∈ s.declared, type.containsVoid = false) ∧
      ∀ type : Ty, type.isResolved = true ↔
        ∃ tokens' p', (Program.ofTokens tokens' file).1 = .ok p' ∧ ∃ f ∈ p'.functions, f.returnType = type := by
  obtain ⟨-, -, -, hprintable⟩ := reached_of_ofTokens h
  refine ⟨fun g hg => ?_, fun f hf q hq => ?_, fun s hs type htype => ?_, fun type => ⟨fun htype => ?_, ?_⟩⟩
  · exact (hprintable _ (mem_globals.mp hg)).2
  · exact ((hprintable _ (mem_functions.mp hf)).2.1 q hq).2
  · obtain ⟨d, hd, hsd⟩ := List.mem_flatMap.mp hs
    exact ((hprintable d hd).stmts s hsd).containsVoid htype
  · exact exists_function_returning htype file
  · rintro ⟨tokens', p', hread, f, hf, rfl⟩
    obtain ⟨-, -, -, hprintable'⟩ := reached_of_ofTokens hread
    exact (hprintable' _ (mem_functions.mp hf)).1

theorem void_only_in_results_locals :
    ∃ tokens p, Token.ofSource "num[] g := []; void f(num& x) \x7b num[][] y := []; x := 1; \x7d" "" = .ok tokens ∧
      (Program.ofTokens tokens "").1 = .ok p ∧
      (p.stmts.flatMap Stmt.declared = [.array (.array .num)] ∧ p.functions.map FunctionDef.returnType = [.void]) ∧
      (∀ g ∈ p.globals, g.type.containsVoid = false) ∧
      (∀ f ∈ p.functions, ∀ q ∈ f.params, q.type.containsVoid = false) ∧
      ∀ s ∈ p.stmts, ∀ type ∈ s.declared, type.containsVoid = false := by
  have hrun : ((Token.ofSource "num[] g := []; void f(num& x) \x7b num[][] y := []; x := 1; \x7d" "").toOption.any
      fun tokens => (Program.ofTokens tokens "").1.toOption.any fun p =>
        p.stmts.flatMap Stmt.declared = [.array (.array .num)] ∧ p.functions.map FunctionDef.returnType = [.void]) =
          true := by
    decide +kernel
  obtain ⟨tokens, htokens, hrun⟩ := (Option.any_eq_true _ _).mp hrun
  obtain ⟨p, hread, htest⟩ := (Option.any_eq_true _ _).mp hrun
  have hread := ok_of_toOption hread
  obtain ⟨hglobals, hparams, hlocals, -⟩ := void_only_in_results hread
  exact ⟨tokens, p, ok_of_toOption htokens, hread, of_decide_eq_true htest, hglobals, hparams, hlocals⟩

/-- A function that gives back an array of `void` is read. -/
theorem void_array_result :
    ∃ tokens p, Token.ofSource "void[] f() \x7b return []; \x7d" "" = .ok tokens ∧
      (Program.ofTokens tokens "").1 = .ok p ∧
      ∃ f ∈ p.functions, f.returnType = .array .void ∧ f.returnType.containsVoid = true ∧ f.returnType ≠ .void := by
  have hrun : ((Token.ofSource "void[] f() \x7b return []; \x7d" "").toOption.any fun tokens =>
      (Program.ofTokens tokens "").1.toOption.any fun p =>
        ∃ f ∈ p.functions, f.returnType = .array .void) = true := by
    decide +kernel
  obtain ⟨tokens, htokens, hrun⟩ := (Option.any_eq_true _ _).mp hrun
  obtain ⟨p, hread, htest⟩ := (Option.any_eq_true _ _).mp hrun
  obtain ⟨f, hf, htype⟩ := of_decide_eq_true htest
  exact ⟨tokens, p, ok_of_toOption htokens, ok_of_toOption hread, f, hf, htype, htype ▸ rfl, htype ▸ Ty.noConfusion⟩

end Program

end ChessEval
