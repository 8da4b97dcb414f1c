import ChessEval.Proofs.Hoisting
import ChessEval.Proofs.Target

/-!
# The forms of generated lines

Every generated line is a sentence, opens a block or closes one, and the lines of a block are indented by one
level more than the lines around it.
-/

namespace ChessEval

open List

variable {start text code name : String} {type : Ty}

namespace Code

lemma code_of_typeCode {file : String} {line : Nat} (h : typeCode file type line = .ok text) :
    type.code = .ok text := by
  unfold typeCode at h
  cases hcode : type.code with
  | error issue =>
    rw [hcode] at h
    cases h
  | ok code =>
    rw [hcode] at h
    cases h
    rfl

/-- Whether the last character of a text neither opens nor closes a block. -/
def stops (text : String) : Bool :=
  text.toList.getLast?.any fun c => c != '\x7b' && c != '\x7d'

def opens (text : String) : Bool :=
  text.toList.getLast? == some '\x7b'

lemma stops_append (start : String) {rest : String} (h : stops rest = true) : stops (start ++ rest) = true := by
  unfold stops at h ⊢
  obtain ⟨c, hc, hchar⟩ := (Option.any_eq_true _ _).mp h
  rw [String.toList_append, getLast?_append, hc]
  exact hchar

lemma opens_append (start : String) {rest : String} (h : opens rest = true) : opens (start ++ rest) = true := by
  unfold opens at h ⊢
  rw [String.toList_append, getLast?_append, beq_iff_eq.mp h]
  rfl

/-- Whether a text starts like a line without a type. -/
def isPlain (text : String) : Bool :=
  ["_lit", "var_", "return", "if (", "while (", "const ", "long int ", "score ", "reset", "invert_players",
    "#include ", "using ", "// "].any fun start => start.toList.isPrefixOf text.toList

lemma isPlain_append (h : isPlain start = true) (rest : String) : isPlain (start ++ rest) = true := by
  obtain ⟨word, hword, hstart⟩ := any_eq_true.mp h
  refine any_eq_true.mpr ⟨word, hword, ?_⟩
  have hleads := isPrefixOf_iff_prefix.mp hstart
  rw [String.toList_append]
  exact isPrefixOf_iff_prefix.mpr (hleads.trans (prefix_append _ _))

/-- A text that is the code of an expression. -/
def Written (e : Expr) (code : String) : Prop :=
  ∃ file a h h', (expr file a e).run h = (.ok code, h')

/-- A line inside of a block, and the counts of temporary variables before and after it. -/
inductive Sentence (P : Stmt → Prop) : Nat → Nat → String → Prop where
  /-- The variable of a list literal. -/
  | list {k type text} (htype : Ty.code type = .ok text) :
    Sentence P k (k + 1) (text ++ " " ++ Translate.literalName k ++ ";")
  /-- The copy of an array that a loop runs over. -/
  | source {k type text code} (htype : Ty.code type = .ok text) :
    Sentence P k (k + 1) (text ++ " " ++ ("_src" ++ "_" ++ toString k) ++ " = " ++ code ++ ";")
  /-- Any other declaration. -/
  | typed {k type text rest} (htype : Ty.code type = .ok text) (hname : rest.toList.head? ≠ some '_')
    (hstops : stops rest = true) : Sentence P k k (text ++ " " ++ rest)
  | plain {k text} (hstart : isPlain text = true) (hstops : stops text = true) : Sentence P k k text
  | assign {k target value line code rest} (hstmt : P (.assign target value line)) (hcode : Written target code)
    (hstops : stops rest = true) : Sentence P k k (code ++ rest)
  | call {k site line code} (hstmt : P (.call site line)) (hcode : Written site code) :
    Sentence P k k (code ++ ";")

/-- A line that opens a block, and the counts of temporary variables before and after it. -/
inductive Opening : Nat → Nat → String → Prop where
  /-- The iterator of a loop. -/
  | loop {k type text rest} (htype : Ty.code type = .ok text) (hopens : opens rest = true) :
    Opening k (k + 1) ("for (" ++ text ++ "::iterator " ++ ("_it" ++ "_" ++ toString k) ++ " = " ++ rest)
  /-- A function that has a type. -/
  | typed {k type text rest} (htype : Ty.code type = .ok text) (hname : rest.toList.head? ≠ some '_')
    (hopens : opens rest = true) : Opening k k (text ++ " " ++ rest)
  | plain {k text} (hstart : isPlain text = true) (hopens : opens text = true) : Opening k k text

/-- Lines at a level, and the counts of temporary variables before and after them. -/
inductive Emitted (P : Stmt → Prop) : Nat → Nat → List Line → Nat → Prop where
  | done (level k : Nat) : Emitted P level k [] k
  | blank {k k' lines} (hrest : Emitted P 0 k lines k') : Emitted P 0 k (.top "" :: lines) k'
  | row {level k k₁ k' text lines} (hrow : Sentence P k k₁ text) (hrest : Emitted P level k₁ lines k') :
    Emitted P level k (⟨level, text⟩ :: lines) k'
  | block {level k k₁ k₂ k' head body lines} (hhead : Opening k k₁ head)
    (hbody : Emitted P (level + 1) k₁ body k₂) (hrest : Emitted P level k₂ lines k') :
    Emitted P level k (⟨level, head⟩ :: (body ++ ⟨level, "\x7d"⟩ :: lines)) k'
  | choose {level k k₁ k₂ k₃ k' head body other lines} (hhead : Opening k k₁ head)
    (hbody : Emitted P (level + 1) k₁ body k₂) (hother : Emitted P (level + 1) k₂ other k₃)
    (hrest : Emitted P level k₃ lines k') :
    Emitted P level k
      (⟨level, head⟩ :: (body ++ ⟨level, "\x7d else \x7b"⟩ :: (other ++ ⟨level, "\x7d"⟩ :: lines))) k'

section Emitting

variable {P : Stmt → Prop} {level k k₁ k' : Nat} {lines lines' : List Line}

lemma Emitted.append (hfirst : Emitted P level k lines k₁) (hnext : Emitted P level k₁ lines' k') :
    Emitted P level k (lines ++ lines') k' := by
  induction hfirst with
  | done => exact hnext
  | blank hrest ih => exact .blank (ih hnext)
  | row hrow hrest ih => exact .row hrow (ih hnext)
  | block hhead hbody hrest _ ih =>
    rw [cons_append, append_assoc, cons_append]
    exact .block hhead hbody (ih hnext)
  | choose hhead hbody hother hrest _ _ ih =>
    rw [cons_append, append_assoc, cons_append, append_assoc, cons_append]
    exact .choose hhead hbody hother (ih hnext)

lemma emitted_row (hrow : Sentence P k k' text) : Emitted P level k [⟨level, text⟩] k' :=
  .row hrow (.done _ _)

lemma Emitted.snoc {texts : List String} (hfirst : Emitted P level k (Line.all level texts) k₁)
    (hrow : Sentence P k₁ k' text) : Emitted P level k (Line.all level (texts ++ [text])) k' := by
  rw [Line.all, map_append]
  exact hfirst.append (emitted_row hrow)

lemma emitted_fill {number : Nat} {elements : List String} :
    Emitted P level k (Line.all level (elements.map fun element =>
      Translate.literalName number ++ ".push_back(" ++ element ++ ");")) k := by
  induction elements with
  | nil => exact .done _ _
  | cons element rest ih =>
    have hname : isPlain (Translate.literalName number) = true := isPlain_append (by decide) _
    exact .row (.plain (isPlain_append (isPlain_append (isPlain_append hname _) _) _)
      (stops_append _ (by decide))) ih

lemma emitted_lists {lists : List ListCode} (hnumbers : lists.map ListCode.number = List.range' k lists.length)
    (htypes : ∀ l ∈ lists, ∃ type, Ty.code type = .ok l.type) :
    Emitted P level k (Line.all level (lists.flatMap ListCode.lines)) (k + lists.length) := by
  induction lists generalizing k with
  | nil => exact .done _ _
  | cons l rest ih =>
    obtain ⟨⟨type, htype⟩, hrest⟩ := forall_mem_cons.mp htypes
    rw [map_cons, length_cons, List.range'_succ] at hnumbers
    obtain ⟨hnumber, hnumbers⟩ := List.cons.inj hnumbers
    rw [flatMap_cons, Line.all, map_append, length_cons, Nat.add_comm rest.length, ← Nat.add_assoc]
    subst hnumber
    have hfirst : Emitted P level l.number (Line.all level l.lines) (l.number + 1) := .row (.list htype) emitted_fill
    exact hfirst.append (ih hnumbers hrest)

lemma run_generate_expr {s : Scene} {e : Expr} {before : List String} {c c' : Counters}
    (h : (Generate.expr s e).run c = .ok ((code, before), c')) :
    (expr s.file s.analysis e).run ⟨c.nextTemp, []⟩ = (.ok code, ⟨c'.nextTemp, before⟩) ∧ c'.level = c.level := by
  unfold Generate.expr at h
  simp only [StateT.run] at h
  rcases hrun : (expr s.file s.analysis e).run ⟨c.nextTemp, []⟩ with ⟨fault | text, final⟩
  · simp only [hrun] at h
    cases h
  · simp only [hrun] at h
    cases h
    exact ⟨rfl, rfl⟩

lemma emitted_before {file : String} {a : Analysis} {e : Expr} {n : Nat} {h : Hoist}
    (hrun : (expr file a e).run ⟨n, []⟩ = (.ok code, h)) : Emitted P level n (Line.all level h.lines) h.nextTemp := by
  obtain ⟨lists, -, hhoists⟩ := writesLists_expr e _ _ _ hrun
  have hlines : h.lines = lists.flatMap ListCode.lines := hhoists.lines_eq
  rw [hlines, hhoists.next_eq]
  exact emitted_lists hhoists.numbers fun l hl => ⟨_, code_of_typeCode (hhoists.codes l hl).type_eq⟩

lemma emitted_plain {texts : List String}
    (h : ∀ text ∈ texts, level = 0 ∧ text = "" ∨ isPlain text = true ∧ stops text = true) :
    Emitted P level k (Line.all level texts) k := by
  induction texts with
  | nil => exact .done _ _
  | cons text rest ih =>
    obtain ⟨⟨rfl, rfl⟩ | ⟨hstart, hstops⟩, hrest⟩ := forall_mem_cons.mp h
    · exact .blank (ih hrest)
    · exact .row (.plain hstart hstops) (ih hrest)

end Emitting

section Forms

variable {P : Stmt → Prop} {k : Nat}

lemma sentence_plain {stop : String} (hstart : isPlain start = true) (hstops : stops stop = true) :
    Sentence P k k (start ++ code ++ stop) :=
  .plain (isPlain_append (isPlain_append hstart _) _) (stops_append _ hstops)

lemma head_variableName (name rest : String) : (variableName name ++ rest).toList.head? ≠ some '_' := by
  simp [variableName]

lemma sentence_variable {mark : String} (htype : type.code = .ok text) :
    Sentence P k k (text ++ " " ++ variableName name ++ mark ++ code ++ ";") := by
  rw [String.append_assoc, String.append_assoc, String.append_assoc]
  exact .typed htype (head_variableName _ _) (stops_append _ (stops_append _ (stops_append _ (by decide))))

lemma sentence_name (htype : type.code = .ok text) : Sentence P k k (text ++ " " ++ variableName name ++ ";") := by
  rw [String.append_assoc]
  exact .typed htype (head_variableName _ _) (stops_append _ (by decide))

lemma sentence_assign {target value : Expr} {line : Nat} (hstmt : P (.assign target value line))
    (hcode : Written target code) : Sentence P k k (code ++ " = " ++ text ++ ";") := by
  rw [String.append_assoc, String.append_assoc]
  exact .assign hstmt hcode (stops_append _ (stops_append _ (by decide)))

lemma sentence_store : Sentence P k k (variableName name ++ " = " ++ code ++ ";") := by
  have hname : isPlain (variableName name ++ " = ") = true := isPlain_append (isPlain_append (by decide) _) _
  exact sentence_plain hname (by decide)

lemma opening_loop {source : String} (htype : type.code = .ok text) :
    Opening k (k + 1) (Generate.loopHead text ("_it" ++ "_" ++ toString k) source) := by
  have hhead : ∀ iterator, Generate.loopHead text iterator source = "for (" ++ text ++ "::iterator " ++ iterator ++
      " = " ++ (source ++ ".begin(); " ++ iterator ++ " != " ++ source ++ ".end(); ++" ++ iterator ++ ") \x7b") := by
    intro iterator
    unfold Generate.loopHead
    simp only [String.append_assoc]
  rw [hhead]
  exact .loop htype (opens_append _ (by decide))

lemma opening_plain {stop : String} (hstart : isPlain start = true) (hopens : opens stop = true) :
    Opening k k (start ++ code ++ stop) :=
  .plain (isPlain_append (isPlain_append hstart _) _) (opens_append _ hopens)

lemma head_functionName (name rest : String) (params : List Ty) :
    (functionName name params ++ rest).toList.head? ≠ some '_' := by
  unfold functionName
  split <;> simp

lemma head_call (name rest : String) (params : List Ty) (texts : List String) :
    (call (functionName name params) texts ++ rest).toList.head? ≠ some '_' := by
  rw [call, String.append_assoc, String.append_assoc, String.append_assoc]
  exact head_functionName _ _ _

end Forms

end Code

end ChessEval
