import ChessEval.Proofs.Progress
import ChessEval.Proofs.RereadingPrograms

/-!
# Reading inverts printing

A program that has been read from any tokens is printed with as few parentheses as its operators allow,
and reading what is printed gives the program back, up to the numbers of its nodes and the lines of its
parts. What is printed must be of a form that tokens have: that is so because it has been read.
-/

namespace ChessEval

open Expr

/-- Expressions that have been read since the stream was at `start`: they have taken the numbers that
are no longer free, and their nodes can be printed. -/
structure Reached (start s : TokenStream) (es : List Expr) : Prop where
  file : s.file = start.file
  count : s.nextId = start.nextId + taken es
  printable : ∀ e ∈ es, ∀ n ∈ e.nodes, n.Printable

namespace Reached

lemma refl (s : TokenStream) : Reached s s [] :=
  ⟨rfl, rfl, by simp⟩

instance carried (start : TokenStream) : Carried (Reached start) where
  steady hfile hid h := ⟨hfile.trans h.file, hid.trans h.count, h.printable⟩
  node := by
    intro s before e _ hprintable hcallee h
    refine ⟨h.file, ?_, forall_nodes_of_children h.printable hprintable⟩
    have htaken : taken [e] = taken e.children + 1 := by
      rw [taken_singleton, hcallee]
      rfl
    have hcount := h.count
    rw [taken_append] at hcount
    rw [taken_append, htaken, TokenStream.numbered]
    dsimp only
    omega
  call := by
    intro s before es callee mark name _ h
    refine ⟨h.file, ?_, ?_⟩
    · have hcall : taken [.call mark name es] = taken es + 1 + 1 := taken_singleton _
      have hname : taken [.identifier callee name] = 1 := taken_singleton _
      have hcount := h.count
      rw [taken_append, taken_cons, hname] at hcount
      rw [taken_append, hcall, TokenStream.numbered]
      dsimp only
      omega
    · have harguments : ∀ e ∈ before ++ es, ∀ n ∈ e.nodes, n.Printable := by
        intro e he
        exact h.printable e (((List.sublist_cons_self _ _).append_left _).subset he)
      have hcall : (Expr.call mark name es).Printable := trivial
      exact forall_nodes_of_children harguments hcall

end Reached

namespace Program

lemma reached_of_ofTokens {tokens : List Token} {file : String} {p : Program}
    (hread : (Program.ofTokens tokens file).1 = .ok p) :
    p.file = file ∧ p.exprCount = taken p.exprs ∧ (∀ n ∈ p.nodes, n.Printable) ∧
      ∀ d ∈ p.definitions, d.Printable := by
  obtain ⟨hreached, hfile, hcount, hdefinitions⟩ :=
    Parse.reads_program (Reached (TokenStream.ofTokens tokens file)) (Reached.refl _)
      (Prod.ext hread rfl)
  obtain ⟨hstart, hzero⟩ : (TokenStream.ofTokens tokens file).file = file ∧
      (TokenStream.ofTokens tokens file).nextId = 0 := by
    unfold TokenStream.ofTokens
    split <;> exact ⟨rfl, rfl⟩
  refine ⟨?_, ?_, ?_, hdefinitions⟩
  · rw [hfile, hreached.file, hstart]
  · rw [hcount, hreached.count, hzero, Nat.zero_add]
  · intro n hn
    obtain ⟨e, he, hne⟩ := List.mem_flatMap.mp hn
    exact hreached.printable e he n hne

/-- Reading inverts printing: the tokens of a program that has been read spell it again, up to the
numbers of nodes and the lines, if every number has a numeral that reads back to it. -/
theorem reading_inverts_printing (numeral : Number → String) {tokens : List Token} {file : String}
    {p : Program} (hread : (Program.ofTokens tokens file).1 = .ok p)
    (hnumeral : ∀ value ∈ p.numerals, Number.ofText? (numeral value) = some value) :
    ∃ q, (Program.ofTokens (p.print numeral) file).1 = .ok q ∧ q.unmarked = p.unmarked := by
  obtain ⟨hfile, hcount, hnodes, hdefinitions⟩ := reached_of_ofTokens hread
  have hconfig : ∀ entry ∈ p.config, Parse.LegibleSetting numeral entry.value := by
    intro entry hentry size hsize
    apply hnumeral
    exact List.mem_append_left _ (List.mem_filterMap.mpr ⟨entry, hentry, hsize⟩)
  have hlegible : ∀ n ∈ p.nodes, Parse.Legible numeral n := by
    intro n hn
    refine ⟨hnodes n hn, ?_⟩
    intro value hvalue
    apply hnumeral
    exact List.mem_append_right _ (List.mem_filterMap.mpr ⟨n, hn, hvalue⟩)
  obtain ⟨q, hq, hsame⟩ := exists_ofTokens_print file hconfig hdefinitions hlegible
  refine ⟨q, hq, ?_⟩
  rw [hsame, ← hfile, ← hcount]
  rfl

/-- Operators that need parentheses on the right and on the left, a prefix before an operator that
holds less tight and one before an index and a member, a chain of conditions and a negative setting. -/
theorem reading_inverts_printing_nested :
    ∃ p tokens, (Program.ofTokens tokens "").1 = .ok p ∧
      (∀ value ∈ p.numerals, Number.ofText? value.plain = some value) ∧
      (p.print Number.plain).countP (·.kind == .openParen) = 3 ∧
      ∃ q, (Program.ofTokens (p.print Number.plain) "").1 = .ok q ∧ q.unmarked = p.unmarked := by
  have hrun : ((Program.ofSource ("config \x7b n := -2; \x7d rule r \x7b if not a - (b - c) == -d[0].e " ++
      "\x7b a := (not a or b) and c; \x7d else if f(1) \x7b score a; \x7d \x7d") "").toOption.any fun p =>
        (∀ value ∈ p.numerals, Number.ofText? value.plain = some value) ∧
          (p.print Number.plain).countP (·.kind == .openParen) = 3) = true := by
    decide +kernel
  obtain ⟨p, hread, htest⟩ := (Option.any_eq_true _ _).mp hrun
  obtain ⟨tokens, htokens⟩ := tokens_of_ofSource (of_toOption hread)
  obtain ⟨hnumeral, hcount⟩ := of_decide_eq_true htest
  exact ⟨p, tokens, htokens, hnumeral, hcount, reading_inverts_printing _ htokens hnumeral⟩

end Program

end ChessEval
