import ChessEval.Proofs.LineForms

/-!
# Generation as a translation

Generation translates a program into code with blocks and variables and writes this down as lines. Where
generation succeeds, its lines are those of the translation, they have the forms of generated lines, and the
next line is at the level where generation started.
-/

namespace ChessEval

variable {text name : String} {type : Ty} {h h' : Code.Hoist}

def Ty.spelling (type : Ty) : String :=
  type.code.toOption.getD ""

lemma Code.spelling_of_typeCode {file : String} {line : Nat} (h : typeCode file type line = .ok text) :
    type.spelling = text := by
  rw [Ty.spelling, code_of_typeCode h]
  rfl

namespace Translate

open Target

/-- A term, the lines that must come before it, and the number of the next temporary variable. -/
structure Hoisted where
  value : Term
  before : List Row
  next : Nat

/-- Several terms, the lines that must come before them, and the number of the next temporary variable. -/
structure HoistedAll where
  values : List Term
  before : List Row
  next : Nat

def callee (file : String) (a : Analysis) (mark : Mark) (name : String) : String :=
  (Code.calleeName file a mark name).toOption.getD ""

def literalRows (a : Analysis) (mark : Mark) (next : Nat) (elements : List Term) : List Row :=
  .text ((a.types.typeOf mark.id).spelling ++ " " ++ literalName next ++ ";") ::
    elements.map fun element => .run (literalName next ++ ".push_back(") element ");"

mutual

def expr (file : String) (a : Analysis) (next : Nat) : Expr → Hoisted
  | .literal _ value => ⟨.text (Code.literal value), [], next⟩
  | .identifier m name => ⟨.var m name, [], next⟩
  | .binary _ operator left right =>
    let l := expr file a next left
    let r := expr file a l.next right
    let arrays := Code.hasArrayType a left.id && Code.hasArrayType a right.id
    ⟨.binary operator arrays l.value r.value, l.before ++ r.before, r.next⟩
  | .unary _ operator operand =>
    let h := expr file a next operand
    ⟨.unary operator h.value, h.before, h.next⟩
  | .call m name arguments =>
    let h := exprs file a next arguments
    ⟨.call (callee file a m name) h.values, h.before, h.next⟩
  | .member m base field =>
    let h := expr file a next base
    ⟨.call (callee file a m field) [h.value], h.before, h.next⟩
  | .index _ base position =>
    let b := expr file a next base
    let i := expr file a b.next position
    ⟨.call "access_array" [b.value, i.value], b.before ++ i.before, i.next⟩
  | .list m elements =>
    let h := exprs file a next elements
    ⟨.text (literalName h.next), h.before ++ literalRows a m h.next h.values, h.next + 1⟩
  | .emptyList m => ⟨.text (literalName next), literalRows a m next [], next + 1⟩

def exprs (file : String) (a : Analysis) (next : Nat) : List Expr → HoistedAll
  | [] => ⟨[], [], next⟩
  | e :: rest =>
    let h := expr file a next e
    let t := exprs file a h.next rest
    ⟨h.value :: t.values, h.before ++ t.before, t.next⟩

end

section Expressions

variable {file : String} {a : Analysis}

/-- Writing an expression gives the text of its translation. -/
def Writes (file : String) (a : Analysis) (e : Expr) : Prop :=
  ∀ h code h', (Code.expr file a e).run h = (.ok code, h') →
    code = (expr file a h.nextTemp e).value.code ∧
      h' = ⟨(expr file a h.nextTemp e).next, h.lines ++ (expr file a h.nextTemp e).before.map Row.code⟩

lemma callee_eq {mark : Mark} (h : Code.calleeName file a mark name = .ok text) : callee file a mark name = text := by
  rw [callee, h]
  rfl

lemma of_exprs {es : List Expr} (hes : ∀ e ∈ es, Writes file a e) :
    ∀ h codes h', (Code.exprs file a es).run h = (.ok codes, h') →
      codes = (exprs file a h.nextTemp es).values.map Term.code ∧
        h' = ⟨(exprs file a h.nextTemp es).next,
          h.lines ++ (exprs file a h.nextTemp es).before.map Row.code⟩ := by
  induction es with
  | nil =>
    intro h codes h' hrun
    cases hrun
    exact ⟨rfl, by simp [exprs]⟩
  | cons e rest ih =>
    intro h codes h' hrun
    obtain ⟨he, hrest⟩ := List.forall_mem_cons.mp hes
    obtain ⟨code, u, hcode, hrun⟩ := run_bind_ok.mp hrun
    obtain ⟨codes', v, hcodes, hrun⟩ := run_bind_ok.mp hrun
    cases hrun
    obtain ⟨rfl, rfl⟩ := he h code u hcode
    obtain ⟨rfl, rfl⟩ := ih hrest _ codes' _ hcodes
    simp [exprs]

theorem writes_expr (e : Expr) : Writes file a e := by
  induction e using Expr.children_induction with
  | step e ih =>
    intro h code h' hrun
    obtain ⟨codes, u, hcodes, hfinish⟩ := Code.run_expr_cases hrun
    obtain ⟨hvalues, rfl⟩ := of_exprs ih h codes u hcodes
    clear ih hrun hcodes
    cases hfinish with
    | node hlist hcode =>
      cases hcode with
      | call hcallee | member hcallee =>
        simp_all [exprs, expr, Expr.children, Term.code, Term.codes, Term.codes_eq, callee_eq hcallee]
      | _ => simp_all [exprs, expr, Expr.children, Term.code, Term.codes]
    | list hlist htype =>
      obtain rfl := Code.spelling_of_typeCode htype
      subst hvalues
      cases e with
      | list m elements | emptyList m =>
        simp [exprs, expr, Expr.children, Expr.id, Expr.mark, Term.code, Row.code, literalRows, Code.ListCode.lines,
          Code.ListCode.declaration, Code.ListCode.name]
      | _ => cases hlist

end Expressions

/-- Steps of code, and the number of the next temporary variable. -/
structure Translated where
  steps : List Step
  next : Nat

def initialValue (s : Code.Scene) (type : Ty) (next : Nat) : Option Expr → Option Term × List Row × Nat
  | some value =>
    let h := expr s.file s.analysis next value
    (some h.value, h.before, h.next)
  | none => (type.defaultCode?.map Term.text, [], next)

def declarators (s : Code.Scene) (type : Ty) (next : Nat) : List Declarator → Translated
  | [] => ⟨[], next⟩
  | d :: rest =>
    let v := initialValue s type next d.value
    let t := declarators s type v.2.2 rest
    ⟨Step.rows (v.2.1 ++ [.declare type.spelling d.name v.1]) ++ t.steps, t.next⟩

def exprRow (s : Code.Scene) (next : Nat) (start : String) (e : Expr) (stop : String) : Translated :=
  let h := expr s.file s.analysis next e
  ⟨Step.rows (h.before ++ [.run start h.value stop]), h.next⟩

def returns (s : Code.Scene) (next : Nat) (value : Option Expr) : Translated :=
  if s.inRule then ⟨[.row (.text "return 0;")], next⟩
  else
    match value with
    | some value => exprRow s next "return " value ";"
    | none => ⟨[.row (.text "return;")], next⟩

mutual

def statement (s : Code.Scene) (next : Nat) : Stmt → Translated
  | .declare type ds _ => declarators s type next ds
  | .assign target value _ =>
    let t := expr s.file s.analysis next target
    let v := expr s.file s.analysis t.next value
    ⟨Step.rows (t.before ++ v.before ++ [.assign t.value v.value]), v.next⟩
  | .ifThen condition thenBody none _ =>
    let h := expr s.file s.analysis next condition
    let t := statements s h.next thenBody
    ⟨Step.rows h.before ++ [.block (.run "if (" h.value ") \x7b") t.steps], t.next⟩
  | .ifThen condition thenBody (some elseBody) _ =>
    let h := expr s.file s.analysis next condition
    let t := statements s h.next thenBody
    let o := statements s t.next elseBody
    ⟨Step.rows h.before ++ [.choose (.run "if (" h.value ") \x7b") t.steps o.steps], o.next⟩
  | .whileDo condition body _ =>
    let h := expr s.file s.analysis next condition
    let t := statements s h.next body
    if h.before.isEmpty then ⟨[.block (.run "while (" h.value ") \x7b") t.steps], t.next⟩
    else
      let check := Step.rows (h.before ++ [.run "if (!(" h.value ")) break;"])
      ⟨[.block (.text "while (true) \x7b") (check ++ t.steps)], t.next⟩
  | .forAll name source body _ =>
    let h := expr s.file s.analysis next source
    let type := s.analysis.types.typeOf source.id
    let vector := type.spelling
    let copy := "_src" ++ "_" ++ toString h.next
    let iterator := "_it" ++ "_" ++ toString (h.next + 1)
    let element := (Code.Generate.elementType type).spelling
    let t := statements s (h.next + 2) body
    ⟨Step.rows (h.before ++ [.run (vector ++ " " ++ copy ++ " = ") h.value ";"]) ++
      [.block (.text (Code.Generate.loopHead vector iterator copy))
        (.row (.declare element name (some (.text ("*" ++ iterator)))) :: t.steps)], t.next⟩
  | .returns value _ => returns s next value
  | .score value _ => exprRow s next "return " value ";"
  | .call site _ => exprRow s next "" site ";"

def statements (s : Code.Scene) (next : Nat) : List Stmt → Translated
  | [] => ⟨[], next⟩
  | first :: rest =>
    let f := statement s next first
    let t := statements s f.next rest
    ⟨f.steps ++ t.steps, t.next⟩

end

section Statements

open Code (Counters Emitted Line Sentence Opening Written)

variable {P : Stmt → Prop} {s : Code.Scene} {level n k k₁ k₂ k' : Nat} {c : Counters} {lines : List Line}
  {rows : List Row} {steps body other : List Step} {head : Row}

lemma emitted_rows (hrows : Emitted P level k (Line.all level (rows.map Row.code)) k₁)
    (hsteps : Emitted P level k₁ (Step.allLines level steps) k') :
    Emitted P level k (Step.allLines level (Step.rows rows ++ steps)) k' := by
  rw [Step.allLines_append, Step.allLines_rows]
  exact hrows.append hsteps

lemma emitted_last {row : Row} (hrows : Emitted P level k (Line.all level (rows.map Row.code)) k₁)
    (hrow : Sentence P k₁ k' row.code) : Emitted P level k (Step.allLines level (Step.rows (rows ++ [row]))) k' := by
  rw [Step.allLines_rows, List.map_append]
  exact hrows.snoc hrow

lemma emitted_block (hhead : Opening k k₁ head.code)
    (hbody : Emitted P (level + 1) k₁ (Step.allLines (level + 1) body) k') :
    Emitted P level k (Step.allLines level [.block head body]) k' := by
  rw [Step.allLines, Step.allLines, List.append_nil]
  exact .block hhead hbody (.done _ _)

lemma emitted_choose (hhead : Opening k k₁ head.code)
    (hbody : Emitted P (level + 1) k₁ (Step.allLines (level + 1) body) k₂)
    (hother : Emitted P (level + 1) k₂ (Step.allLines (level + 1) other) k') :
    Emitted P level k (Step.allLines level [.choose head body other]) k' := by
  rw [Step.allLines, Step.allLines, List.append_nil, Step.lines, List.append_assoc, List.append_assoc]
  exact .choose hhead hbody hother (.done _ _)

/-- What generation that starts at a count and a level gives: the expected lines, which have the forms of
generated lines, the next count, and the level where it started. -/
structure Gives (P : Stmt → Prop) (expected : List Line) (next level n : Nat) (lines : List Line)
    (c : Counters) : Prop where
  lines_eq : lines = expected
  counters_eq : c = ⟨next, level⟩
  emitted : Emitted P level n expected next

def Translated.Gives (P : Stmt → Prop) (t : Translated) (level n : Nat) (lines : List Line) (c : Counters) : Prop :=
  Translate.Gives P (Step.allLines level t.steps) t.next level n lines c

/-- Generation that starts with an expression goes on with its translation, after the lines that this needs. -/
lemma of_expr {α : Type} {e : Expr} {next : String × List String → Code.Generate α} {result : α × Counters}
    (h : (Code.Generate.expr s e >>= next).run ⟨n, level⟩ = .ok result) :
    Written e (expr s.file s.analysis n e).value.code ∧
      (∀ inner, Emitted P inner n (Line.all inner ((expr s.file s.analysis n e).before.map Row.code))
        (expr s.file s.analysis n e).next) ∧
      (next ((expr s.file s.analysis n e).value.code, (expr s.file s.analysis n e).before.map Row.code)).run
        ⟨(expr s.file s.analysis n e).next, level⟩ = .ok result := by
  obtain ⟨⟨code, before⟩, ⟨count, level'⟩, hcode, h⟩ := runExcept_bind.mp h
  obtain ⟨hrun, hlevel⟩ := Code.run_generate_expr hcode
  obtain ⟨rfl, hfinal⟩ := writes_expr e _ _ _ hrun
  obtain ⟨hnext, hbefore⟩ := Code.Hoist.mk.inj hfinal
  cases hlevel
  cases hnext
  cases hbefore
  exact ⟨⟨_, _, _, _, hrun⟩, fun inner => Code.emitted_before hrun, h⟩

lemma of_exprRow {e : Expr} {start stop : String}
    (hrow : ∀ code k, Written e code → Sentence P k k (start ++ code ++ stop))
    (h : (do let (code, before) ← Code.Generate.expr s e
             Code.Generate.emitAll (before ++ [start ++ code ++ stop])).run ⟨n, level⟩ = .ok (lines, c)) :
    (exprRow s n start e stop).Gives P level n lines c := by
  obtain ⟨hwritten, hbefore, h⟩ := of_expr (P := P) h
  cases h
  refine ⟨?_, rfl, emitted_last (hbefore level) (hrow _ _ hwritten)⟩
  rw [exprRow, Step.allLines_rows]
  simp [Row.code]

lemma of_declarator {typeText : String} {d : Declarator} (htype : type.code = .ok typeText)
    (h : (Code.Generate.declarator s type typeText d).run ⟨n, level⟩ = .ok (lines, c)) :
    Gives P (Step.allLines level (Step.rows ((initialValue s type n d.value).2.1 ++
        [.declare typeText d.name (initialValue s type n d.value).1])))
      (initialValue s type n d.value).2.2 level n lines c := by
  unfold Code.Generate.declarator at h
  cases hvalue : d.value with
  | some value =>
    simp only [hvalue] at h
    obtain ⟨-, hbefore, h⟩ := of_expr (P := P) h
    cases h
    refine ⟨?_, rfl, emitted_last (hbefore level) (Code.sentence_variable htype)⟩
    rw [Step.allLines_rows]
    simp [initialValue, Row.code]
  | none =>
    simp only [hvalue] at h
    cases hdefault : type.defaultCode? with
    | some code =>
      simp only [hdefault] at h
      cases h
      simp only [initialValue, hdefault]
      exact ⟨rfl, rfl, Code.emitted_row (Code.sentence_variable htype)⟩
    | none =>
      simp only [hdefault] at h
      cases h
      simp only [initialValue, hdefault]
      exact ⟨rfl, rfl, Code.emitted_row (Code.sentence_name htype)⟩

lemma of_declarators {typeText : String} {ds : List Declarator} (hspelling : type.spelling = typeText)
    (htype : type.code = .ok typeText)
    (h : (Code.Generate.declarators s type typeText ds).run ⟨n, level⟩ = .ok (lines, c)) :
    (declarators s type n ds).Gives P level n lines c := by
  induction ds generalizing n lines c with
  | nil =>
    cases h
    exact ⟨rfl, rfl, .done _ _⟩
  | cons d rest ih =>
    obtain ⟨first, u, hfirst, h⟩ := runExcept_bind.mp h
    obtain ⟨rfl, rfl, hrow⟩ := of_declarator (P := P) htype hfirst
    obtain ⟨others, v, hothers, h⟩ := runExcept_bind.mp h
    obtain ⟨rfl, rfl, hrest⟩ := ih hothers
    cases h
    rw [declarators, hspelling]
    refine ⟨(Step.allLines_append _ _ _).symm, rfl, ?_⟩
    rw [Step.allLines_append]
    exact hrow.append hrest

lemma of_returns {value : Option Expr} (h : (Code.Generate.returns s value).run ⟨n, level⟩ = .ok (lines, c)) :
    (returns s n value).Gives P level n lines c := by
  unfold Code.Generate.returns at h
  unfold returns
  by_cases hrule : s.inRule = true
  · rw [if_pos hrule] at h ⊢
    cases h
    exact ⟨rfl, rfl, Code.emitted_row (.plain (by decide) (by decide))⟩
  · rw [if_neg hrule] at h ⊢
    cases value with
    | none =>
      cases h
      exact ⟨rfl, rfl, Code.emitted_row (.plain (by decide) (by decide))⟩
    | some e => exact of_exprRow (fun _ _ _ => Code.sentence_plain (by decide) (by decide)) h

lemma code_loopVariable (element name iterator : String) :
    (Row.declare element name (some (.text ("*" ++ iterator)))).code =
      element ++ " " ++ Code.variableName name ++ " = *" ++ iterator ++ ";" := by
  have hstar : " = *" = " = " ++ "*" := rfl
  simp only [Row.code, Term.code, hstar, String.append_assoc]

/-- A nested block has its lines one level further in, and the level afterwards is the one before. -/
lemma of_nested {t : Translated} {block : Code.Generate (List Line)}
    (hblock : ∀ lines c, block.run ⟨n, level + 1⟩ = .ok (lines, c) → t.Gives P (level + 1) n lines c)
    (h : (Code.Generate.nested block).run ⟨n, level⟩ = .ok (lines, c)) :
    lines = Step.allLines (level + 1) t.steps ∧ c = ⟨t.next, level⟩ ∧
      Emitted P (level + 1) n (Step.allLines (level + 1) t.steps) t.next := by
  obtain ⟨_, u, hindent, h⟩ := runExcept_bind.mp h
  cases hindent
  obtain ⟨inner, v, hlines, h⟩ := runExcept_bind.mp h
  obtain ⟨rfl, rfl, hinner⟩ := hblock _ _ hlines
  cases h
  exact ⟨rfl, rfl, hinner⟩

lemma of_emitAll {α : Type} {texts : List String} {next : List Line → Code.Generate α} {result : α × Counters}
    (h : (Code.Generate.emitAll texts >>= next).run c = .ok result) :
    (next (Line.all c.level texts)).run c = .ok result :=
  h

lemma of_indent {α : Type} {next : Unit → Code.Generate α} {result : α × Counters}
    (h : (Code.Generate.indent >>= next).run c = .ok result) :
    (next ()).run { c with level := c.level + 1 } = .ok result :=
  h

/-- The lines of statements are those of their translation, and the level is the same afterwards. -/
theorem gives_statements (block : List Stmt) : (∀ part ∈ Stmt.blockParts block, P part) → ∀ s level n lines c,
    (Code.Generate.statements s block).run ⟨n, level⟩ = .ok (lines, c) →
      (statements s n block).Gives P level n lines c := by
  induction block using Stmt.block_induction (fun stmt => (∀ part ∈ stmt.parts, P part) → ∀ s level n lines c,
    (Code.Generate.statement s stmt).run ⟨n, level⟩ = .ok (lines, c) →
      (statement s n stmt).Gives P level n lines c) with
  | declare type ds line hparts s level n lines c h =>
    obtain ⟨text, u, htext, h⟩ := runExcept_bind.mp h
    obtain ⟨hcode, rfl⟩ := Code.Generate.run_typeCode.mp htext
    exact of_declarators (Code.spelling_of_typeCode hcode) (Code.code_of_typeCode hcode) h
  | assign target value line hparts s level n lines c h =>
    obtain ⟨hwritten, htarget, h⟩ := of_expr (P := P) h
    obtain ⟨-, hvalue, h⟩ := of_expr (P := P) h
    cases h
    rw [statement]
    refine ⟨?_, rfl, emitted_last ?_ (Code.sentence_assign (hparts _ (Stmt.self_mem_parts _)) hwritten)⟩
    · rw [Step.allLines_rows]
      simp [Row.code]
    · rw [List.map_append, Line.all, List.map_append]
      exact (htarget level).append (hvalue level)
  | ifThen condition thenBody line ih hparts s level n lines c h =>
    obtain ⟨-, hbefore, h⟩ := of_expr (P := P) h
    obtain ⟨thenLines, v, hthen, h⟩ := runExcept_bind.mp (of_emitAll h)
    obtain ⟨rfl, rfl, hbody⟩ :=
      of_nested (fun _ _ => ih (fun part hpart => hparts part (List.mem_cons_of_mem _ hpart)) _ _ _ _ _) hthen
    cases h
    rw [statement]
    refine ⟨?_, rfl, emitted_rows (hbefore level) (emitted_block (Code.opening_plain (by decide) (by decide)) hbody)⟩
    simp only [Step.allLines_append, Step.allLines_rows, Step.allLines, Step.lines]
    simp [Row.code, Line.all]
  | ifElse condition thenBody elseBody line ihthen ihelse hparts s level n lines c h =>
    obtain ⟨-, hbefore, h⟩ := of_expr (P := P) h
    obtain ⟨thenLines, v, hthen, h⟩ := runExcept_bind.mp (of_emitAll h)
    obtain ⟨rfl, rfl, hbody⟩ :=
      of_nested (fun _ _ => ihthen (fun part hpart => hparts part (by simp [Stmt.parts, hpart])) _ _ _ _ _) hthen
    obtain ⟨elseLines, w, helse, h⟩ := runExcept_bind.mp (of_emitAll h)
    obtain ⟨rfl, rfl, hother⟩ :=
      of_nested (fun _ _ => ihelse (fun part hpart => hparts part (by simp [Stmt.parts, hpart])) _ _ _ _ _) helse
    cases h
    rw [statement]
    refine ⟨?_, rfl, emitted_rows (hbefore level)
      (emitted_choose (Code.opening_plain (by decide) (by decide)) hbody hother)⟩
    simp only [Step.allLines_append, Step.allLines_rows, Step.allLines, Step.lines]
    simp [Row.code, Line.all]
  | whileDo condition body line ih hparts s level n lines c h =>
    have hbody := ih fun part hpart => hparts part (List.mem_cons_of_mem _ hpart)
    obtain ⟨-, hbefore, h⟩ := of_expr (P := P) h
    dsimp only at h
    rw [statement]
    by_cases hempty : (expr s.file s.analysis n condition).before.isEmpty = true
    · rw [if_pos (by simpa using hempty)] at h
      obtain ⟨bodyLines, v, hlines, h⟩ := runExcept_bind.mp (of_emitAll h)
      obtain ⟨rfl, rfl, hinner⟩ := of_nested (fun _ _ => hbody _ _ _ _ _) hlines
      cases h
      simp only [if_pos hempty]
      have hnext := hbefore level
      rw [List.isEmpty_iff.mp hempty] at hnext
      refine ⟨?_, rfl, hnext.append (emitted_block (Code.opening_plain (by decide) (by decide)) hinner)⟩
      simp [Step.allLines, Step.lines, Row.code, Line.all]
    · rw [if_neg (by simpa using hempty)] at h
      obtain ⟨bodyLines, v, hlines, h⟩ := runExcept_bind.mp (of_emitAll (of_indent (of_emitAll h)))
      obtain ⟨rfl, rfl, hinner⟩ := hbody _ _ _ _ _ hlines
      cases h
      simp only [if_neg hempty]
      refine ⟨?_, rfl, emitted_block (.plain (by decide) (by decide)) ?_⟩
      · simp only [Step.allLines_append, Step.allLines_rows, Step.allLines, Step.lines]
        simp [Row.code, Line.all]
      · rw [Step.allLines_append]
        exact (emitted_last (hbefore _) (Code.sentence_plain (by decide) (by decide))).append hinner
  | forAll name source body line ih hparts s level n lines c h =>
    obtain ⟨-, hbefore, h⟩ := of_expr (P := P) h
    obtain ⟨vector, u, hvectorText, h⟩ := runExcept_bind.mp h
    obtain ⟨hvector, rfl⟩ := Code.Generate.run_typeCode.mp hvectorText
    obtain ⟨element, u, helementText, h⟩ := runExcept_bind.mp h
    obtain ⟨helement, rfl⟩ := Code.Generate.run_typeCode.mp helementText
    obtain ⟨copy, u, hcopy, h⟩ := runExcept_bind.mp h
    cases hcopy
    obtain ⟨iterator, u, hiterator, h⟩ := runExcept_bind.mp h
    cases hiterator
    obtain ⟨bodyLines, v, hbody, h⟩ := runExcept_bind.mp (of_emitAll (of_indent (of_emitAll h)))
    obtain ⟨rfl, rfl, hinner⟩ :=
      ih (fun part hpart => hparts part (List.mem_cons_of_mem _ hpart)) _ _ _ _ _ hbody
    cases h
    simp only [statement, Code.spelling_of_typeCode hvector, Code.spelling_of_typeCode helement]
    refine ⟨?_, rfl, ?_⟩
    · simp only [Step.allLines_append, Step.allLines_rows, Step.allLines, Step.lines, code_loopVariable]
      simp [Row.code, Line.all]
    · rw [Step.allLines_append]
      refine (emitted_last (hbefore level) (.source (Code.code_of_typeCode hvector))).append ?_
      exact emitted_block (Code.opening_loop (Code.code_of_typeCode hvector))
        (.row (Code.sentence_variable (Code.code_of_typeCode helement)) hinner)
  | returns value line hparts s level n lines c h => exact of_returns h
  | score value line hparts s level n lines c h =>
    exact of_exprRow (fun _ _ _ => Code.sentence_plain (by decide) (by decide)) h
  | call site line hparts s level n lines c h =>
    have hrow : ∀ code k, Written site code → Sentence P k k ("" ++ code ++ ";") := by
      intro code k hcode
      rw [String.empty_append]
      exact .call (hparts _ (Stmt.self_mem_parts _)) hcode
    refine of_exprRow hrow ?_
    simp only [String.empty_append]
    exact h
  | nil =>
    intro hparts s level n lines c h
    cases h
    exact ⟨rfl, rfl, .done _ _⟩
  | cons first rest ihfirst ihrest =>
    intro hparts s level n lines c h
    obtain ⟨hfirst, hrest⟩ := List.forall_mem_append.mp hparts
    obtain ⟨firstLines, u, hlines, h⟩ := runExcept_bind.mp h
    obtain ⟨rfl, rfl, hfirst⟩ := ihfirst hfirst _ _ _ _ _ hlines
    obtain ⟨others, v, hothers, h⟩ := runExcept_bind.mp h
    obtain ⟨rfl, rfl, hrest⟩ := ihrest hrest _ _ _ _ _ hothers
    cases h
    refine ⟨(Step.allLines_append _ _ _).symm, rfl, ?_⟩
    rw [statements, Step.allLines_append]
    exact hfirst.append hrest

end Statements

/-- The declarations of globals, the lines of the preamble, and the number of the next temporary
variable. -/
structure GlobalItems where
  items : List Item
  preamble : List Row
  next : Nat

/-- The translation of globals, of which those named before are initialised in the preamble. -/
def globals (s : Code.Scene) (deferred : List String) (next : Nat) : List GlobalDef → GlobalItems
  | [] => ⟨[], [], next⟩
  | g :: rest =>
    let h := expr s.file s.analysis next g.value
    if Code.isImmediate s.analysis deferred (h.before.map Row.code) g.value then
      let t := globals s deferred h.next rest
      ⟨.global (.declare g.type.spelling g.name (some h.value)) :: t.items, t.preamble, t.next⟩
    else
      let t := globals s (g.name :: deferred) h.next rest
      ⟨.global (.declare g.type.spelling g.name none) :: t.items,
        h.before ++ .store g.name h.value :: t.preamble, t.next⟩

def functionHead (f : FunctionDef) : Head where
  returnType := f.returnType.spelling
  callee := Code.functionName f.name (f.params.map Param.type)
  params := f.params.map fun q => (q.type.spelling ++ (if q.byReference then "&" else ""), q.name)

def ruleHead (r : RuleDef) : Head :=
  ⟨"long int", Code.ruleName r.name, []⟩

def function (s : Code.Scene) (next : Nat) (f : FunctionDef) : Item × Nat :=
  let t := statements { s with inRule := false } next f.body
  (.function (functionHead f) t.steps, t.next)

def guard (s : Code.Scene) (next : Nat) : Option Expr → Translated
  | none => ⟨[], next⟩
  | some e => exprRow s next "if (!(" e ")) return 0;"

def rule (s : Code.Scene) (next : Nat) (r : RuleDef) : Item × Nat :=
  let g := guard { s with inRule := true } next r.guard
  let t := statements { s with inRule := true } g.next r.body
  (.function (ruleHead r) (g.steps ++ t.steps ++ [.row (.text "return 0;")]), t.next)

/-- The translation of definitions, each after an empty line. -/
def separated {α : Type} (item : Nat → α → Item × Nat) (next : Nat) : List α → List Item × Nat
  | [] => ([], next)
  | x :: rest =>
    let first := item next x
    let others := separated item first.2 rest
    (.lines [.top ""] :: first.1 :: others.1, others.2)

/-- The lines of the function that evaluates a phase. -/
def phaseLines (rules : List RuleEntry) (ph : Phase) : List Code.Line :=
  [.top ("long int " ++ Code.phaseName ph ++ "() \x7b")] ++ Code.Line.all 1 (Code.phaseTexts rules ph) ++ [.top "\x7d"]

def file (p : Program) (a : Analysis) : List Item :=
  let s : Code.Scene := ⟨p.file, a, false⟩
  let g := globals s [] 0 p.globals
  let functions := separated (function s) g.next p.functions
  let rules := separated (rule s) functions.2 p.rules
  let ruleHeaders := p.rules.map fun r => "long int " ++ Code.ruleName r.name ++ "();"
  let phases := Phase.all.flatMap fun ph => .top "" :: phaseLines a.declarations.rules ph
  [.lines (Code.Line.all 0 (Code.includes ++ [""] ++ Code.settings a.config ++ ["", "// Globals"]))] ++ g.items ++
    [.lines [.top "", .top "// Functions Headers"]] ++ p.functions.map (fun f => .prototype (functionHead f)) ++
    [.lines (Code.Line.all 0 (["", "// Rules Headers"] ++ ruleHeaders ++ [""])),
      .function ⟨"void", "preamble", []⟩ (Step.rows g.preamble)] ++
    functions.1 ++ rules.1 ++ [.lines phases]

section Programs

open Code (Counters Emitted Line Sentence Opening)

variable {P : Stmt → Prop} {s : Code.Scene} {n k k' : Nat} {c c' : Counters} {lines : List Line}

/-- The globals are declared one on a line, and the preamble initialises those that need lines before them. -/
lemma of_globals {gs : List GlobalDef} {done result : Code.Globals}
    (h : (Code.globals s done gs).run ⟨n, 0⟩ = .ok (result, c)) :
    let g := globals s done.deferred n gs
    result.lines = done.lines ++ g.items.flatMap Item.code ∧
      result.preamble = done.preamble ++ g.preamble.map Row.code ∧ c = ⟨g.next, 0⟩ ∧
      (∀ k, Emitted P 0 k (g.items.flatMap Item.code) k) ∧
      Emitted P 1 n (Line.all 1 (g.preamble.map Row.code)) g.next := by
  induction gs generalizing n done with
  | nil =>
    cases h
    exact ⟨(List.append_nil _).symm, (List.append_nil _).symm, rfl, fun k => .done _ _, .done _ _⟩
  | cons g rest ih =>
    obtain ⟨type, u, htypeText, h⟩ := runExcept_bind.mp h
    obtain ⟨htype, rfl⟩ := Code.Generate.run_typeCode.mp htypeText
    have hspelled := Code.code_of_typeCode htype
    obtain ⟨-, hbefore, h⟩ := of_expr (P := P) h
    dsimp only at h
    rw [globals, Code.spelling_of_typeCode htype]
    by_cases himmediate : Code.isImmediate s.analysis done.deferred
        ((expr s.file s.analysis n g.value).before.map Row.code) g.value = true
    · simp only [if_pos himmediate] at h ⊢
      obtain ⟨hlines, hpreamble, rfl, hitems, hrows⟩ := ih (of_emitAll h)
      rw [hlines, hpreamble]
      refine ⟨by simp [Item.code, Row.code, Line.all, Line.top], rfl, rfl, fun k => ?_, ?_⟩
      · exact (Code.emitted_row (Code.sentence_variable hspelled)).append (hitems k)
      · have hempty : (expr s.file s.analysis n g.value).before.map Row.code = [] := by
          unfold Code.isImmediate at himmediate
          simp only [Bool.and_eq_true] at himmediate
          exact List.isEmpty_iff.mp himmediate.1.1
        have hnext := hbefore 1
        rw [hempty] at hnext
        exact hnext.append hrows
    · simp only [if_neg himmediate] at h ⊢
      obtain ⟨hlines, hpreamble, rfl, hitems, hrows⟩ := ih (of_emitAll h)
      rw [hlines, hpreamble]
      refine ⟨by simp [Item.code, Row.code, Line.all, Line.top], by simp [Row.code], rfl, fun k => ?_, ?_⟩
      · exact (Code.emitted_row (Code.sentence_name hspelled)).append (hitems k)
      · rw [List.map_append, Line.all, List.map_append]
        exact (hbefore 1).append (.row Code.sentence_store hrows)

lemma of_params {ps : List Param} {texts : List String} (h : (Code.params s ps).run c = .ok (texts, c')) :
    texts = ps.map (fun q => q.type.spelling ++ (if q.byReference then "&" else "") ++ " " ++
      Code.variableName q.name) ∧ c' = c := by
  induction ps generalizing c texts with
  | nil =>
    cases h
    exact ⟨rfl, rfl⟩
  | cons q rest ih =>
    obtain ⟨type, u, htype, hrest⟩ := runExcept_bind.mp h
    obtain ⟨others, v, hothers, hresult⟩ := runExcept_bind.mp hrest
    cases hresult
    obtain ⟨htypeCode, rfl⟩ := Code.Generate.run_typeCode.mp htype
    obtain ⟨rfl, rfl⟩ := ih hothers
    rw [List.map_cons, Code.spelling_of_typeCode htypeCode]
    exact ⟨rfl, rfl⟩

lemma of_signature {f : FunctionDef} (h : (Code.signature s f).run c = .ok (text, c')) :
    text = (functionHead f).code ∧ c' = c ∧
      Code.typeCode s.file f.returnType f.line = .ok f.returnType.spelling := by
  obtain ⟨returnType, u, hreturn, hrest⟩ := runExcept_bind.mp h
  obtain ⟨params, v, hparams, hresult⟩ := runExcept_bind.mp hrest
  cases hresult
  obtain ⟨htype, rfl⟩ := Code.Generate.run_typeCode.mp hreturn
  obtain ⟨rfl, rfl⟩ := of_params hparams
  obtain rfl := Code.spelling_of_typeCode htype
  exact ⟨by simp [functionHead, Head.code, Function.comp_def], rfl, htype⟩

lemma of_functionHeaders {fs : List FunctionDef} (h : (Code.functionHeaders s fs).run ⟨n, 0⟩ = .ok (lines, c)) :
    lines = (fs.map fun f => Item.prototype (functionHead f)).flatMap Item.code ∧ c = ⟨n, 0⟩ ∧
      ∀ f ∈ fs, Code.typeCode s.file f.returnType f.line = .ok f.returnType.spelling := by
  induction fs generalizing lines c with
  | nil =>
    cases h
    exact ⟨rfl, rfl, by simp⟩
  | cons f rest ih =>
    obtain ⟨text, u, htext, h⟩ := runExcept_bind.mp h
    obtain ⟨rfl, rfl, htype⟩ := of_signature htext
    obtain ⟨others, v, hothers, h⟩ := runExcept_bind.mp (of_emitAll h)
    obtain ⟨rfl, rfl, htypes⟩ := ih hothers
    cases h
    exact ⟨rfl, rfl, List.forall_mem_cons.mpr ⟨htype, htypes⟩⟩

lemma emitted_prototypes {fs : List FunctionDef} (h : ∀ f ∈ fs, f.returnType.code = .ok f.returnType.spelling) :
    Emitted P 0 k ((fs.map fun f => Item.prototype (functionHead f)).flatMap Item.code) k := by
  induction fs with
  | nil => exact .done _ _
  | cons f rest ih =>
    obtain ⟨htype, hrest⟩ := List.forall_mem_cons.mp h
    rw [List.map_cons, List.flatMap_cons, Item.code, Head.code, String.append_assoc]
    exact .row (.typed htype (Code.head_call _ _ _ _) (Code.stops_append _ (by decide))) (ih hrest)

/-- What the generation of an item gives outside of all blocks. -/
def GivesItem (P : Stmt → Prop) (item : Item × Nat) (n : Nat) (lines : List Line) (c : Counters) : Prop :=
  Gives P item.1.code item.2 0 n lines c

lemma of_function {f : FunctionDef} (hparts : ∀ part ∈ Stmt.blockParts f.body, P part)
    (h : (Code.function s f).run ⟨n, 0⟩ = .ok (lines, c)) : GivesItem P (function s n f) n lines c := by
  obtain ⟨text, u, htext, h⟩ := runExcept_bind.mp h
  obtain ⟨rfl, rfl, htype⟩ := of_signature htext
  obtain ⟨body, v, hbody, h⟩ := runExcept_bind.mp (of_indent (of_emitAll h))
  obtain ⟨rfl, rfl, hinner⟩ := gives_statements _ hparts _ _ _ _ _ hbody
  cases h
  refine ⟨rfl, rfl, ?_⟩
  rw [function, Item.code, Head.code, String.append_assoc]
  exact .block (.typed (Code.code_of_typeCode htype) (Code.head_call _ _ _ _) (Code.opens_append _ (by decide)))
    hinner (.done _ _)

lemma of_guard {value : Option Expr} (h : (Code.guard s value).run ⟨n, 1⟩ = .ok (lines, c)) :
    (guard s n value).Gives P 1 n lines c := by
  cases value with
  | none =>
    cases h
    exact ⟨rfl, rfl, .done _ _⟩
  | some e => exact of_exprRow (fun _ _ _ => Code.sentence_plain (by decide) (by decide)) h

lemma code_ruleHead (r : RuleDef) :
    (ruleHead r).code ++ " \x7b" = "long int " ++ Code.ruleName r.name ++ "() \x7b" := by
  have hstart : "long int " = "long int" ++ " " := rfl
  have hstop : "() \x7b" = "(" ++ ("" ++ (")" ++ " \x7b")) := rfl
  have hnone : ", ".intercalate [] = "" := rfl
  simp only [ruleHead, Head.code, Code.call, List.map_nil, hstart, hstop, hnone, String.append_assoc]

lemma of_rule {r : RuleDef} (hparts : ∀ part ∈ Stmt.blockParts r.body, P part)
    (h : (Code.rule s r).run ⟨n, 0⟩ = .ok (lines, c)) : GivesItem P (rule s n r) n lines c := by
  obtain ⟨guardLines, u, hguardLines, h⟩ := runExcept_bind.mp (of_indent (of_emitAll h))
  obtain ⟨rfl, rfl, hguard⟩ := of_guard (P := P) hguardLines
  obtain ⟨body, v, hbody, h⟩ := runExcept_bind.mp h
  obtain ⟨rfl, rfl, hinner⟩ := gives_statements _ hparts _ _ _ _ _ hbody
  cases h
  have hlast : ∀ k, Emitted P 1 k [⟨1, "return 0;"⟩] k := fun k => Code.emitted_row (.plain (by decide) (by decide))
  refine ⟨?_, rfl, ?_⟩
  · simp only [rule, Item.code, code_ruleHead, Step.allLines_append, Step.allLines, Step.lines]
    simp [Row.code, Line.top, Line.all]
  · rw [rule, Item.code, code_ruleHead, Step.allLines_append, Step.allLines_append]
    exact .block (Code.opening_plain (by decide) (by decide)) ((hguard.append hinner).append (hlast _)) (.done _ _)

lemma of_separated {α : Type} {block : α → Code.Generate (List Line)} {item : Nat → α → Item × Nat} {items : List α}
    (hitem : ∀ x ∈ items, ∀ n lines c, (block x).run ⟨n, 0⟩ = .ok (lines, c) → GivesItem P (item n x) n lines c)
    (h : (Code.separated block items).run ⟨n, 0⟩ = .ok (lines, c)) :
    Gives P ((separated item n items).1.flatMap Item.code) (separated item n items).2 0 n lines c := by
  induction items generalizing n lines c with
  | nil =>
    cases h
    exact ⟨rfl, rfl, .done _ _⟩
  | cons x rest ih =>
    obtain ⟨hx, hrest⟩ := List.forall_mem_cons.mp hitem
    obtain ⟨first, u, hfirst, h⟩ := runExcept_bind.mp (of_emitAll h)
    obtain ⟨rfl, rfl, hcode⟩ := hx _ _ _ hfirst
    obtain ⟨others, v, hothers, h⟩ := runExcept_bind.mp h
    obtain ⟨rfl, rfl, hlast⟩ := ih hrest hothers
    cases h
    exact ⟨rfl, rfl, .blank (hcode.append hlast)⟩

lemma emitted_phase (rules : List RuleEntry) (ph : Phase) : Emitted P 0 k (phaseLines rules ph) k := by
  have hcall : ∀ start name, Code.isPlain start = true → Code.isPlain (start ++ Code.ruleName name ++ "();") = true ∧
      Code.stops (start ++ Code.ruleName name ++ "();") = true := fun start name hstart =>
    ⟨Code.isPlain_append (Code.isPlain_append hstart _) _, Code.stops_append _ (by decide)⟩
  refine .block (Code.opening_plain (by decide) (by decide)) (Code.emitted_plain ?_) (.done 0 k)
  simp only [Code.phaseTexts, List.forall_mem_append, List.forall_mem_singleton, List.forall_mem_map]
  refine ⟨⟨⟨⟨by decide, fun r _ => .inr (hcall _ _ (by decide))⟩, by decide⟩, ?_⟩, by decide⟩
  split
  · simp
  · rw [List.forall_mem_cons, List.forall_mem_map]
    exact ⟨by decide, fun r _ => .inr (hcall _ _ (by decide))⟩

lemma of_phases {rules : List RuleEntry} {phases : List Phase}
    (h : (Code.separated (Code.phase rules) phases).run ⟨n, 0⟩ = .ok (lines, c)) :
    Gives P (phases.flatMap fun ph => .top "" :: phaseLines rules ph) n 0 n lines c := by
  induction phases generalizing lines c with
  | nil =>
    cases h
    exact ⟨rfl, rfl, .done _ _⟩
  | cons ph rest ih =>
    obtain ⟨first, u, hfirst, h⟩ := runExcept_bind.mp (of_emitAll h)
    cases hfirst
    obtain ⟨others, v, hothers, h⟩ := runExcept_bind.mp h
    obtain ⟨rfl, rfl, hlast⟩ := ih hothers
    cases h
    exact ⟨rfl, rfl, .blank ((emitted_phase rules ph).append hlast)⟩

lemma code_preamble (rows : List Row) : (Item.function ⟨"void", "preamble", []⟩ (Step.rows rows)).code =
    [.top "void preamble() \x7b"] ++ Line.all 1 (rows.map Row.code) ++ [.top "\x7d"] := by
  have hhead : (Head.mk "void" "preamble" []).code ++ " \x7b" = "void preamble() \x7b" := by decide
  rw [Item.code, hhead, Step.allLines_rows]

lemma of_preamble {rows : List Row} (h : (Code.preamble (rows.map Row.code)).run ⟨n, 0⟩ = .ok (lines, c)) :
    lines = (Item.function ⟨"void", "preamble", []⟩ (Step.rows rows)).code ∧ c = ⟨n, 0⟩ := by
  cases h
  exact ⟨(code_preamble rows).symm, rfl⟩

lemma emitted_preamble {rows : List Row} (h : Emitted P 1 k (Line.all 1 (rows.map Row.code)) k') :
    Emitted P 0 k (Item.function ⟨"void", "preamble", []⟩ (Step.rows rows)).code k' := by
  have hvoid : Ty.code .void = .ok "void" := rfl
  have hhead : Opening k k ("void" ++ " " ++ "preamble() \x7b") := .typed hvoid (by decide) (by decide)
  rw [code_preamble]
  exact .block hhead h (.done 0 k')

lemma emitted_settings (config : Config) :
    Emitted P 0 k (Line.all 0 (Code.includes ++ [""] ++ Code.settings config ++ ["", "// Globals"])) k := by
  refine Code.emitted_plain ?_
  simp only [Code.settings, List.forall_mem_append, List.forall_mem_cons, List.forall_mem_map]
  refine ⟨⟨⟨by decide, by decide⟩, by decide, fun setting _ => .inr ⟨?_, Code.stops_append _ (by decide)⟩⟩, by decide⟩
  simp only [String.append_assoc]
  exact Code.isPlain_append (by decide) _

lemma emitted_ruleHeaders (rules : List RuleDef) : Emitted P 0 k (Line.all 0 (["", "// Rules Headers"] ++
    rules.map (fun r => "long int " ++ Code.ruleName r.name ++ "();") ++ [""])) k := by
  refine Code.emitted_plain ?_
  simp only [List.forall_mem_append, List.forall_mem_map]
  refine ⟨⟨by decide, fun r _ => .inr ⟨?_, Code.stops_append _ (by decide)⟩⟩, by decide⟩
  exact Code.isPlain_append (Code.isPlain_append (by decide) _) _

/-- The lines of a generated file are those of the translation of its program and have the forms of generated
lines, and no block is left open. -/
theorem gives_file {p : Program} {a : Analysis} (hparts : ∀ part ∈ p.stmts, P part)
    (hrun : (Code.file p a).run ⟨0, 0⟩ = .ok (lines, c)) :
    lines = (file p a).flatMap Item.code ∧ c.level = 0 ∧ Emitted P 0 0 ((file p a).flatMap Item.code) c.nextTemp := by
  obtain ⟨globals, u, hglobals, h⟩ := runExcept_bind.mp (of_emitAll hrun)
  obtain ⟨hglobalLines, hpreamble, rfl, hitems, hrows⟩ := of_globals (P := P) hglobals
  obtain ⟨headers, u, hheaders, h⟩ := runExcept_bind.mp (of_emitAll h)
  obtain ⟨functionHeaders, u', hfunctionHeaders, hresult⟩ := runExcept_bind.mp (of_emitAll hheaders)
  obtain ⟨rfl, rfl, htypes⟩ := of_functionHeaders hfunctionHeaders
  cases hresult
  obtain ⟨preamble, u, hpreambleLines, h⟩ := runExcept_bind.mp (of_emitAll h)
  rw [hpreamble] at hpreambleLines
  obtain ⟨rfl, rfl⟩ := of_preamble hpreambleLines
  obtain ⟨functions, u, hfunctionLines, h⟩ := runExcept_bind.mp h
  obtain ⟨rfl, rfl, hfunctions⟩ := of_separated (fun f hf _ _ _ => of_function fun part hpart =>
    hparts part (Program.mem_stmts.mpr (.inl ⟨f, hf, hpart⟩))) hfunctionLines
  obtain ⟨rules, u, hruleLines, h⟩ := runExcept_bind.mp h
  obtain ⟨rfl, rfl, hrules⟩ := of_separated (fun r hr _ _ _ => of_rule fun part hpart =>
    hparts part (Program.mem_stmts.mpr (.inr ⟨r, hr, hpart⟩))) hruleLines
  obtain ⟨phases, u, hphaseLines, h⟩ := runExcept_bind.mp h
  obtain ⟨rfl, rfl, hphases⟩ := of_phases (P := P) hphaseLines
  cases h
  refine ⟨?_, rfl, ?_⟩
  · rw [hglobalLines]
    simp [file, Line.all, Line.top]
  · have hheading : Emitted P 0 0 (Line.all 0 ["", "// Functions Headers"]) 0 := Code.emitted_plain (by decide)
    simp only [file, List.flatMap_append, List.flatMap_cons, List.flatMap_nil, Item.code_lines, List.append_nil,
      List.append_assoc]
    refine (emitted_settings a.config).append ((hitems 0).append (hheading.append ?_))
    refine (emitted_prototypes fun f hf => Code.code_of_typeCode (htypes f hf)).append ?_
    exact (emitted_ruleHeaders p.rules).append ((emitted_preamble hrows).append
      (hfunctions.append (hrules.append hphases)))

lemma run_file_of_lines {p : Program} {a : Analysis} (h : Code.lines p a = .ok lines) :
    ∃ c, (Code.file p a).run ⟨0, 0⟩ = .ok (lines, c) := by
  unfold Code.lines at h
  rcases hrun : (Code.file p a).run ⟨0, 0⟩ with fault | ⟨result, c⟩
  · simp only [hrun] at h
    cases h
  · simp only [hrun] at h
    cases h
    exact ⟨c, rfl⟩

theorem lines_eq {p : Program} {a : Analysis} (h : Code.lines p a = .ok lines) :
    lines = (file p a).flatMap Item.code := by
  obtain ⟨c, hrun⟩ := run_file_of_lines h
  exact (gives_file (P := fun _ => True) (fun _ _ => trivial) hrun).1

theorem emitted_file {p : Program} {a : Analysis} (hparts : ∀ part ∈ p.stmts, P part)
    (h : Code.lines p a = .ok lines) : ∃ total, Emitted P 0 0 lines total := by
  obtain ⟨c, hrun⟩ := run_file_of_lines h
  obtain ⟨rfl, -, hemitted⟩ := gives_file hparts hrun
  exact ⟨c.nextTemp, hemitted⟩

end Programs

end Translate

end ChessEval
