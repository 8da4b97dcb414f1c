import ChessEval.Proofs.Brackets
import ChessEval.Proofs.NamesInCode

/-!
# Temporary variables

List literals and loops need variables of their own, which are numbered by one count through the whole
generated file. The code of an expression declares one for each list literal and uses none that it has not
declared before, and in a generated file no number is taken twice.
-/

namespace ChessEval.Code

open List

/-- A line that declares the temporary variable of a number: that of a list literal, the copy of an array
that a loop runs over, or the iterator of the loop. -/
def DeclaresTemp (text : String) (n : Nat) : Prop :=
  ∃ type spelled, Ty.code type = .ok spelled ∧
    (text = spelled ++ " _lit_" ++ toString n ++ ";" ∨
      (∃ value, text = spelled ++ " _src_" ++ toString n ++ " = " ++ value) ∨
      ∃ rest, text = "for (" ++ spelled ++ "::iterator _it_" ++ toString n ++ " = " ++ rest)

section Declaring

variable {type : Ty} {text rest : String} {n k : Nat}

lemma toString_append_inj {c c' : Char} {cs cs' : List Char} (hc : c.isDigit = false) (hc' : c'.isDigit = false)
    (h : (toString n).toList ++ c :: cs = (toString k).toList ++ c' :: cs') : n = k ∧ c = c' ∧ cs = cs' := by
  have hdigits : ∀ (n : Nat) {c : Char} {cs : List Char}, c.isDigit = false →
      ((toString n).toList ++ c :: cs).takeWhile Char.isDigit = Nat.toDigits 10 n := by
    intro n c cs hc
    rw [Nat.toString_eq_repr, Nat.toList_repr, takeWhile_append_of_pos, takeWhile_cons_of_neg (by simp [hc]),
      append_nil]
    exact fun d hd => Nat.isDigit_of_mem_toDigits (by decide) (by decide) hd
  have hsame : Nat.toDigits 10 n = Nat.toDigits 10 k := by
    rw [← hdigits n hc, h, hdigits k hc']
  have hnumber : n = k := toDigits_inj hsame
  subst hnumber
  exact ⟨rfl, List.cons.inj (append_cancel_left h)⟩

lemma spelled_append_inj {type' : Ty} {text' rest' : String} (htype : type.code = .ok text)
    (htype' : type'.code = .ok text') (h : text ++ rest = text' ++ rest') : text = text' ∧ rest = rest' := by
  have hlist := congrArg String.toList h
  rw [String.toList_append, String.toList_append] at hlist
  have htext := (spelling_of_code htype).append_inj (spelling_of_code htype') hlist
  subst htext
  exact ⟨rfl, String.toList_inj.mp (append_cancel_left hlist)⟩

/-- Whether neither of two words is the start of the other. -/
def apart (word word' : String) : Bool :=
  !word.toList.isPrefixOf word'.toList && !word'.toList.isPrefixOf word.toList

lemma not_prefix_of_apart {word word' : String} {cs : List Char} (hapart : apart word word' = true)
    (h : word.toList <+: cs) : ¬ word'.toList <+: cs := by
  intro h'
  simp only [apart, Bool.and_eq_true, Bool.not_eq_true', ← Bool.not_eq_true, isPrefixOf_iff_prefix] at hapart
  obtain hprefix | hprefix := prefix_or_prefix_of_prefix h h'
  · exact hapart.1 hprefix
  · exact hapart.2 hprefix

lemma DeclaresTemp.start (h : DeclaresTemp text n) :
    ∃ word ∈ ["int", "bool", "string", "void", "vector<", "for ("], word.toList <+: text.toList := by
  have htyped : ∀ {type spelled}, Ty.code type = .ok spelled → ∀ rest,
      ∃ word ∈ ["int", "bool", "string", "void", "vector<", "for ("], word.toList <+: (spelled ++ rest).toList := by
    intro type spelled hcode rest
    obtain ⟨word, hword, hprefix⟩ := (spelling_of_code hcode).start rest
    exact ⟨word, mem_append_left ["for ("] hword, hprefix⟩
  obtain ⟨type, spelled, hcode, rfl | ⟨value, rfl⟩ | ⟨rest, rfl⟩⟩ := h
  · rw [String.append_assoc, String.append_assoc]
    exact htyped hcode _
  · rw [String.append_assoc, String.append_assoc, String.append_assoc]
    exact htyped hcode _
  · refine ⟨"for (", by decide, ?_⟩
    simp only [String.append_assoc]
    rw [String.toList_append]
    exact prefix_append _ _

lemma not_declares {word : String} (h : word.toList <+: text.toList)
    (hapart : ["int", "bool", "string", "void", "vector<", "for ("].all (apart word) = true) :
    ¬ DeclaresTemp text n := by
  intro hdeclares
  obtain ⟨word', hword', hprefix⟩ := hdeclares.start
  exact not_prefix_of_apart (all_eq_true.mp hapart word' hword') h hprefix

lemma loop_ne_spelled (htype : type.code = .ok text) (rest tail : String) : "for (" ++ tail ≠ text ++ rest := by
  intro h
  obtain ⟨word, hword, hprefix⟩ := (spelling_of_code htype).start rest
  have hapart : ∀ word ∈ ["int", "bool", "string", "void", "vector<"], apart word "for (" = true := by decide
  refine not_prefix_of_apart (hapart word hword) hprefix ?_
  rw [← h, String.toList_append]
  exact prefix_append _ _

lemma declares_typed (htype : type.code = .ok text) :
    DeclaresTemp (text ++ " " ++ rest) n ↔
      rest = "_lit_" ++ toString n ++ ";" ∨ ∃ value, rest = "_src_" ++ toString n ++ " = " ++ value := by
  have hlist : " _lit_" = " " ++ "_lit_" := rfl
  have hsource : " _src_" = " " ++ "_src_" := rfl
  simp only [DeclaresTemp, hlist, hsource, String.append_assoc]
  constructor
  · rintro ⟨type', spelled, hspelled, h | ⟨value, h⟩ | ⟨value, h⟩⟩
    · obtain ⟨-, hrest⟩ := spelled_append_inj htype hspelled h
      exact .inl ((String.append_right_inj " ").mp hrest)
    · obtain ⟨-, hrest⟩ := spelled_append_inj htype hspelled h
      exact .inr ⟨value, (String.append_right_inj " ").mp hrest⟩
    · exact absurd h.symm (loop_ne_spelled htype _ _)
  · rintro (rfl | ⟨value, rfl⟩)
    · exact ⟨type, text, htype, .inl rfl⟩
    · exact ⟨type, text, htype, .inr (.inl ⟨value, rfl⟩)⟩

lemma declares_loop (htype : type.code = .ok text) :
    DeclaresTemp ("for (" ++ text ++ "::iterator " ++ rest) n ↔
      ∃ tail, rest = "_it_" ++ toString n ++ " = " ++ tail := by
  have hiterator : "::iterator _it_" = "::iterator " ++ "_it_" := rfl
  simp only [DeclaresTemp, hiterator, String.append_assoc]
  constructor
  · rintro ⟨type', spelled, hspelled, h | ⟨value, h⟩ | ⟨value, h⟩⟩
    · exact absurd h (loop_ne_spelled hspelled _ _)
    · exact absurd h (loop_ne_spelled hspelled _ _)
    · obtain ⟨-, hrest⟩ := spelled_append_inj htype hspelled ((String.append_right_inj "for (").mp h)
      exact ⟨value, (String.append_right_inj "::iterator ").mp hrest⟩
  · rintro ⟨tail, rfl⟩
    exact ⟨type, text, htype, .inr (.inr ⟨tail, rfl⟩)⟩

lemma number_eq_iff {value : String} :
    (∃ tail, toString k ++ (" = " ++ value) = toString n ++ (" = " ++ tail)) ↔ n = k := by
  constructor
  · rintro ⟨tail, h⟩
    have hlist := congrArg String.toList h
    rw [String.toList_append, String.toList_append, String.toList_append, String.toList_append] at hlist
    exact (toString_append_inj (by decide) (by decide) hlist).1.symm
  · rintro rfl
    exact ⟨value, rfl⟩

lemma declares_listVariable (htype : type.code = .ok text) :
    DeclaresTemp (text ++ " " ++ Translate.literalName k ++ ";") n ↔ n = k := by
  have hname : Translate.literalName k = "_lit_" ++ toString k := rfl
  have hother : ∀ tail, "_lit_" ++ (toString k ++ ";") ≠ "_src_" ++ tail := by
    intro tail h
    have hlist := congrArg String.toList h
    simp at hlist
  rw [String.append_assoc, hname, declares_typed htype]
  simp only [String.append_assoc]
  constructor
  · rintro (h | ⟨value, h⟩)
    · have hlist := congrArg String.toList ((String.append_right_inj "_lit_").mp h)
      rw [String.toList_append, String.toList_append] at hlist
      exact (toString_append_inj (by decide) (by decide) hlist).1.symm
    · exact absurd h (hother _)
  · rintro rfl
    exact .inl rfl

lemma declares_source {value : String} (htype : type.code = .ok text) :
    DeclaresTemp (text ++ " " ++ ("_src" ++ "_" ++ toString k) ++ " = " ++ value) n ↔ n = k := by
  have hname : "_src" ++ "_" ++ toString k = "_src_" ++ toString k := rfl
  have hother : ∀ tail, "_src_" ++ (toString k ++ (" = " ++ value)) ≠ "_lit_" ++ tail := by
    intro tail h
    have hlist := congrArg String.toList h
    simp at hlist
  rw [hname, String.append_assoc, String.append_assoc, declares_typed htype, ← number_eq_iff]
  simp only [String.append_assoc]
  constructor
  · rintro (h | ⟨tail, h⟩)
    · exact absurd h (hother _)
    · exact ⟨tail, (String.append_right_inj "_src_").mp h⟩
  · rintro ⟨tail, h⟩
    exact .inr ⟨tail, congrArg ("_src_" ++ ·) h⟩

lemma declares_iterator {value : String} (htype : type.code = .ok text) :
    DeclaresTemp ("for (" ++ text ++ "::iterator " ++ ("_it" ++ "_" ++ toString k) ++ " = " ++ value) n ↔ n = k := by
  have hname : "_it" ++ "_" ++ toString k = "_it_" ++ toString k := rfl
  rw [hname, String.append_assoc, String.append_assoc, declares_loop htype, ← number_eq_iff]
  simp only [String.append_assoc]
  constructor
  · rintro ⟨tail, h⟩
    exact ⟨tail, (String.append_right_inj "_it_").mp h⟩
  · rintro ⟨tail, h⟩
    exact ⟨tail, congrArg ("_it_" ++ ·) h⟩

lemma not_declares_typed (htype : type.code = .ok text) (hname : rest.toList.head? ≠ some '_') :
    ¬ DeclaresTemp (text ++ " " ++ rest) n := by
  rw [declares_typed htype]
  rintro (rfl | ⟨value, rfl⟩) <;> simp at hname

lemma not_declares_of_isPlain (h : isPlain text = true) : ¬ DeclaresTemp text n := by
  have hall : ["_lit", "var_", "return", "if (", "while (", "const ", "long int ", "score ", "reset",
      "invert_players", "#include ", "using ", "// "].all
        (fun word => ["int", "bool", "string", "void", "vector<", "for ("].all (apart word)) = true := by decide
  obtain ⟨word, hword, hstart⟩ := any_eq_true.mp h
  have hprefix := isPrefixOf_iff_prefix.mp hstart
  exact not_declares hprefix (all_eq_true.mp hall word hword)

end Declaring

section Numbering

variable {P : Stmt → Prop} {level k k₁ k' n : Nat} {text : String} {lines lines' : List Line}

lemma eq_iff_succ_range : n = k ↔ k ≤ n ∧ n < k + 1 := by
  omega

lemma not_iff_empty_range {p : Prop} (h : ¬ p) : p ↔ k ≤ n ∧ n < k := by
  constructor
  · exact fun hp => absurd hp h
  · omega

lemma Sentence.declares (hP : ∀ s, P s → s.Printable) (h : Sentence P k k' text) :
    DeclaresTemp text n ↔ k ≤ n ∧ n < k' := by
  have hwritten : ∀ {e code} rest, Written e code → e.isIdentifier = true ∨ e.isCall = true →
      ¬ DeclaresTemp (code ++ rest) n := by
    intro e code rest hcode he
    have hwords : ∀ word ∈ ["var_", "fn_", "func_"],
        ["int", "bool", "string", "void", "vector<", "for ("].all (apart word) = true := by decide
    obtain ⟨word, hword, hprefix⟩ := hcode.start he rest
    exact not_declares hprefix (hwords word hword)
  cases h with
  | list htype => rw [declares_listVariable htype, eq_iff_succ_range]
  | source htype => rw [String.append_assoc, declares_source htype, eq_iff_succ_range]
  | typed htype hname => exact not_iff_empty_range (not_declares_typed htype hname)
  | plain hstart => exact not_iff_empty_range (not_declares_of_isPlain hstart)
  | assign hstmt hcode => exact not_iff_empty_range (hwritten _ hcode (.inl (hP _ hstmt)))
  | call hstmt hcode => exact not_iff_empty_range (hwritten _ hcode (.inr (hP _ hstmt)))

lemma Opening.declares (h : Opening k k' text) : DeclaresTemp text n ↔ k ≤ n ∧ n < k' := by
  cases h with
  | loop htype => rw [declares_iterator htype, eq_iff_succ_range]
  | typed htype hname => exact not_iff_empty_range (not_declares_typed htype hname)
  | plain hstart => exact not_iff_empty_range (not_declares_of_isPlain hstart)

/-- Lines that declare the temporary variables between two counts, each on one line. -/
structure Numbered (k : Nat) (lines : List Line) (k' : Nat) : Prop where
  le : k ≤ k'
  once : lines.Pairwise fun line line' => ∀ n, DeclaresTemp line.text n → ¬ DeclaresTemp line'.text n
  all : ∀ n, (∃ line ∈ lines, DeclaresTemp line.text n) ↔ k ≤ n ∧ n < k'

lemma Numbered.append (hfirst : Numbered k lines k₁) (hnext : Numbered k₁ lines' k') :
    Numbered k (lines ++ lines') k' where
  le := hfirst.le.trans hnext.le
  once := by
    refine pairwise_append.mpr ⟨hfirst.once, hnext.once, ?_⟩
    intro line hline line' hline' n hn hn'
    have hbelow := (hfirst.all n).mp ⟨line, hline, hn⟩
    have habove := (hnext.all n).mp ⟨line', hline', hn'⟩
    omega
  all := by
    intro n
    have hsplit : (∃ line ∈ lines ++ lines', DeclaresTemp line.text n) ↔
        (∃ line ∈ lines, DeclaresTemp line.text n) ∨ ∃ line ∈ lines', DeclaresTemp line.text n := by
      simp only [mem_append, or_and_right, exists_or]
    have hle := hfirst.le
    have hle' := hnext.le
    rw [hsplit, hfirst.all, hnext.all]
    omega

lemma numbered_nil (k : Nat) : Numbered k [] k :=
  ⟨le_rfl, .nil, fun n => not_iff_empty_range (by simp)⟩

lemma numbered_line {line : Line} (hle : k ≤ k') (h : ∀ n, DeclaresTemp line.text n ↔ k ≤ n ∧ n < k') :
    Numbered k [line] k' :=
  ⟨hle, pairwise_singleton _ _, fun n => by simpa using h n⟩

lemma numbered_other {line : Line} (h : line.text ∈ ["", "\x7d", "\x7d else \x7b"]) : Numbered k [line] k := by
  have hnone : ∀ text ∈ ["", "\x7d", "\x7d else \x7b"], ∀ word ∈ ["int", "bool", "string", "void", "vector<", "for ("],
      ¬ word.toList <+: text.toList := by decide
  refine numbered_line le_rfl fun n => not_iff_empty_range fun hn => ?_
  obtain ⟨word, hword, hprefix⟩ := hn.start
  exact hnone line.text h word hword hprefix

lemma Sentence.le (h : Sentence P k k' text) : k ≤ k' := by
  cases h <;> omega

lemma Opening.le (h : Opening k k' text) : k ≤ k' := by
  cases h <;> omega

/-- What generation emits takes the numbers of the count one after the other. -/
theorem Emitted.numbered (hP : ∀ s, P s → s.Printable) (h : Emitted P level k lines k') : Numbered k lines k' := by
  have hhead : ∀ {level k k' text}, Opening k k' text → Numbered k [Line.mk level text] k' :=
    fun hopening => numbered_line hopening.le fun _ => hopening.declares
  have hclose : ∀ {level k}, Numbered k [Line.mk level "\x7d"] k := numbered_other (by simp)
  have helse : ∀ {level k}, Numbered k [Line.mk level "\x7d else \x7b"] k := numbered_other (by simp)
  induction h with
  | done level k => exact numbered_nil k
  | blank hrest ih => exact (numbered_other (by decide)).append ih
  | row hrow hrest ih => exact (numbered_line hrow.le fun _ => hrow.declares hP).append ih
  | block hopening hbody hrest ihbody ihrest =>
    exact (hhead hopening).append (ihbody.append (hclose.append ihrest))
  | choose hopening hbody hother hrest ihbody ihother ihrest =>
    exact (hhead hopening).append (ihbody.append (helse.append (ihother.append (hclose.append ihrest))))

end Numbering

section Naming

variable {file : String} {a : Analysis}

/-- Of list literals in order, each is filled with terms that name earlier ones only. -/
def NamesEarlier (file : String) (a : Analysis) (lists : List ListCode) : Prop :=
  ∀ earlier l later, lists = earlier ++ l :: later →
    ∃ start, l.elements = (Translate.exprs file a start l.node.children).values.map Target.Term.code ∧
      ∀ n, Translate.literalName n ∈ Target.Term.allAtoms (Translate.exprs file a start l.node.children).values →
        n ∈ earlier.map ListCode.number

variable {h h' : Hoist} {lists : List ListCode}

lemma Hoists.namesEarlier (hhoists : Hoists file a lists h h') : NamesEarlier file a lists := by
  rintro earlier l later rfl
  obtain ⟨g, g', hrun, hfirst, hnumber⟩ := (hhoists.codes l (by simp)).elements_eq
  obtain ⟨helements, hstate⟩ := Translate.of_exprs (fun e _ => Translate.writes_expr e) g _ g' hrun
  refine ⟨g.nextTemp, helements, fun n hn => ?_⟩
  obtain ⟨hlow, hhigh⟩ := (Translate.namesOwn_exprs (fun e _ => Translate.namesOwn_expr e) g.nextTemp).2.range n hn
  have hnext : (Translate.exprs file a g.nextTemp l.node.children).next = l.number := by
    rw [← hnumber, hstate]
  rw [hhoists.mem_numbers_before]
  exact ⟨hfirst.trans hlow, hhigh.trans_eq hnext⟩

/-- Writing an expression keeps the lines that are there and adds one declaration for each list literal in it,
inner ones first, numbered from the count on and followed by one line for each element. What an element or the
expression itself names has been declared before. In a generated file no number is taken twice. -/
theorem list_literals_hoisted :
    (∀ file a e h code h', (expr file a e).run h = (.ok code, h') →
      ∃ lists : List ListCode,
        h'.lines = h.lines ++ lists.flatMap ListCode.lines ∧
        lists.map ListCode.node = e.nodes.filter Expr.isList ∧
        lists.map ListCode.number = List.range' h.nextTemp (e.nodes.filter Expr.isList).length ∧
        h'.nextTemp = h.nextTemp + (e.nodes.filter Expr.isList).length ∧
        (∀ l ∈ lists, typeCode file (a.types.typeOf l.node.id) l.node.line = .ok l.type ∧
          l.elements.length = l.node.children.length ∧
          ∃ g g', (exprs file a l.node.children).run g = (.ok l.elements, g')) ∧
        NamesEarlier file a lists ∧
        (code = (Translate.expr file a h.nextTemp e).value.code ∧
          ∀ n, Translate.literalName n ∈ (Translate.expr file a h.nextTemp e).value.atoms →
            n ∈ lists.map ListCode.number)) ∧
    ∀ tokens file p a lines, (Program.ofTokens tokens file).1 = .ok p → Code.lines p a = .ok lines →
      (lines.Pairwise fun line line' => ∀ n, DeclaresTemp line.text n → ¬ DeclaresTemp line'.text n) ∧
        ∃ total, ∀ n, (∃ line ∈ lines, DeclaresTemp line.text n) ↔ n < total := by
  constructor
  · intro file a e h code h' hrun
    obtain ⟨lists, hnodes, hhoists⟩ := writesLists_expr e h code h' hrun
    have hlength : lists.length = (e.nodes.filter Expr.isList).length := by
      rw [← Expr.lists, ← hnodes, length_map]
    refine ⟨lists, hhoists.lines_eq, hnodes, ?_, ?_, ?_, hhoists.namesEarlier, ?_⟩
    · rw [← hlength]
      exact hhoists.numbers
    · rw [← hlength]
      exact hhoists.next_eq
    · intro l hl
      obtain ⟨htype, g, g', helements, -, -⟩ := hhoists.codes l hl
      exact ⟨htype, length_of_exprs helements, g, g', helements⟩
    · obtain ⟨hcode, hstate⟩ := Translate.writes_expr e h code h' hrun
      refine ⟨hcode, fun n hn => hhoists.mem_numbers.mpr ?_⟩
      rw [hstate]
      exact (Translate.namesOwn_expr e h.nextTemp).2.range n hn
  · intro tokens file p a lines hread hlines
    obtain ⟨total, hemitted⟩ := Translate.emitted_file (Program.printable_stmts hread) hlines
    have hnumbered := hemitted.numbered fun _ => id
    exact ⟨hnumbered.once, total, fun n => by rw [hnumbered.all]; simp⟩

/-- A list of lists as the value of a global, and a loop over it. -/
theorem list_literals_hoisted_nested :
    ∃ p tokens a g code h' lists all total,
      Program.ofSource ("num y := 1; num[][] w := [[1, y], [2]]; rule r \x7b forall (v in w) \x7b score v[0]; \x7d \x7d")
        "" = .ok p ∧
      g ∈ p.globals ∧ (expr "" a g.value).run ⟨5, ["int x;"]⟩ = (.ok code, h') ∧
      h'.lines = ["int x;"] ++ lists.flatMap ListCode.lines ∧ lists.map ListCode.number = [5, 6, 7] ∧
      h'.nextTemp = 8 ∧ NamesEarlier "" a lists ∧
      (Program.ofTokens tokens "").1 = .ok p ∧ Code.lines p a = .ok all ∧
      (all.Pairwise fun line line' => ∀ n, DeclaresTemp line.text n → ¬ DeclaresTemp line'.text n) ∧
      ∀ n, (∃ line ∈ all, DeclaresTemp line.text n) ↔ n < total := by
  have hrun : Program.compilesWith
      "num y := 1; num[][] w := [[1, y], [2]]; rule r \x7b forall (v in w) \x7b score v[0]; \x7d \x7d" [.run]
      (fun p a => (Code.lines p a).toOption.isSome && p.globals.any fun g =>
        decide ((g.value.nodes.filter Expr.isList).length = 3) &&
          ((expr "" a g.value).run ⟨5, ["int x;"]⟩).1.toOption.isSome) = true := by
    decide +kernel
  obtain ⟨p, c, a, hread, -, -, -, htest⟩ := Program.of_compilesWith hrun
  obtain ⟨hlines, hglobal⟩ := (Bool.and_eq_true _ _).mp htest
  obtain ⟨g, hg, htests⟩ := any_eq_true.mp hglobal
  obtain ⟨hcount, hok⟩ := (Bool.and_eq_true _ _).mp htests
  obtain ⟨code, hcode⟩ := Option.isSome_iff_exists.mp hok
  obtain ⟨all, hall⟩ := Option.isSome_iff_exists.mp hlines
  obtain ⟨tokens, htokens⟩ := Program.tokens_of_ofSource hread
  have hexpr : (expr "" a g.value).run ⟨5, ["int x;"]⟩ = (.ok code, ((expr "" a g.value).run ⟨5, ["int x;"]⟩).2) :=
    Prod.ext (ok_of_toOption hcode) rfl
  obtain ⟨lists, hbefore, -, hnumbers, hnext, -, hnames, -⟩ := list_literals_hoisted.1 "" a g.value _ _ _ hexpr
  obtain ⟨honce, total, htotal⟩ := list_literals_hoisted.2 tokens "" p a all htokens (ok_of_toOption hall)
  rw [of_decide_eq_true hcount] at hnumbers hnext
  exact ⟨p, tokens, a, g, code, _, lists, all, total, hread, hg, hexpr, hbefore, hnumbers, hnext,
    hnames, htokens, ok_of_toOption hall, honce, htotal⟩

end Naming

end ChessEval.Code
