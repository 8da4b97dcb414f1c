import ChessEval.Proofs.Translating

/-!
# Scopes of programs and of generated code

Which names are in scope at each expression of a program, and how the occurrences of variables in the generated
code see the same declarations.
-/

namespace ChessEval

open List

/-- An expression of a program, the names in scope there, and the variable whose initial value it is. -/
structure Site where
  expr : Expr
  blocks : Blocks
  declares : Option String

namespace Site

/-- The variable that gets its value at a site is new in its block. -/
def New (site : Site) : Prop :=
  ∀ name ∈ site.declares, ∀ block ∈ site.blocks.head?, name ∉ block

/-- The identifiers at a site have been declared. -/
def Found (site : Site) : Prop :=
  ∀ m name, .identifier m name ∈ site.expr.nodes → ∃ found, site.blocks.declaration? name = some found

end Site

namespace Stmt

def declareAll (blocks : Blocks) : List Declarator → Blocks
  | [] => blocks
  | d :: rest => declareAll (blocks.declare d.name) rest

/-- The names in scope after a statement. -/
def declares (blocks : Blocks) : Stmt → Blocks
  | .declare _ ds _ => declareAll blocks ds
  | _ => blocks

/-- The sites of a declaration. -/
def declaratorSites (blocks : Blocks) : List Declarator → List Site
  | [] => []
  | d :: rest =>
    (d.value.toList.map fun e => ⟨e, blocks, some d.name⟩) ++ declaratorSites (blocks.declare d.name) rest

mutual

def sites (blocks : Blocks) : Stmt → List Site
  | .declare _ ds _ => declaratorSites blocks ds
  | .assign target value _ => [⟨target, blocks, none⟩, ⟨value, blocks, none⟩]
  | .ifThen condition thenBody none _ =>
    ⟨condition, blocks, none⟩ :: blockSites ([] :: blocks) thenBody
  | .ifThen condition thenBody (some elseBody) _ =>
    ⟨condition, blocks, none⟩ :: (blockSites ([] :: blocks) thenBody ++ blockSites ([] :: blocks) elseBody)
  | .whileDo condition body _ => ⟨condition, blocks, none⟩ :: blockSites ([] :: blocks) body
  | .forAll name source body _ => ⟨source, blocks, none⟩ :: blockSites ([name] :: blocks) body
  | .returns value _ => value.toList.map fun e => ⟨e, blocks, none⟩
  | .score value _ => [⟨value, blocks, none⟩]
  | .call site _ => [⟨site, blocks, none⟩]

def blockSites (blocks : Blocks) : List Stmt → List Site
  | [] => []
  | s :: rest => s.sites blocks ++ blockSites (s.declares blocks) rest

end

end Stmt

namespace Program

def globalBlock (p : Program) : List String :=
  (p.globals.map GlobalDef.name).reverse

def globalSites (block : List String) : List GlobalDef → List Site
  | [] => []
  | g :: rest => ⟨g.value, [block], some g.name⟩ :: globalSites (g.name :: block) rest

def functionSites (p : Program) (f : FunctionDef) : List Site :=
  Stmt.blockSites [(f.params.map Param.name).reverse, p.globalBlock] f.body

def ruleSites (p : Program) (r : RuleDef) : List Site :=
  (r.guard.toList.map fun e => ⟨e, [p.globalBlock], none⟩) ++ Stmt.blockSites [[], p.globalBlock] r.body

def sites (p : Program) : List Site :=
  globalSites [] p.globals ++ p.functions.flatMap p.functionSites ++ p.rules.flatMap p.ruleSites

end Program

namespace Target

/-- The variables in a line, each with the identifier that it stands for. -/
def Row.vars : Row → List (Mark × String)
  | .text _ => []
  | .run _ value _ => value.vars
  | .assign target value => target.vars ++ value.vars
  | .store _ value => value.vars
  | .declare _ _ value => value.toList.flatMap Term.vars

/-- A line that declares nothing and whose variables all stand for identifiers. -/
def Row.IsPlain : Row → Prop
  | .text _ | .run .. | .assign .. => True
  | .store .. | .declare .. => False

namespace Use

/-- An occurrence outside of initial values. -/
def plain (blocks : Blocks) (v : Mark × String) : Use :=
  ⟨some v.1, v.2, blocks, none⟩

/-- An occurrence that stands for an identifier at a site. It denotes what the identifier denotes there,
unless it is in the initial value of the variable that it names. -/
structure From (use : Use) (site : Site) : Prop where
  node : ∃ m, use.source = some m ∧ .identifier m use.name ∈ site.expr.nodes
  same : ¬use.IsOwn → use.declaration? = site.blocks.declaration? use.name
  own : use.IsOwn → site.declares = some use.name ∧ use.blocks = site.blocks.declare use.name

/-- An occurrence by which the preamble gives a global the value that is at its site. -/
structure Fills (use : Use) (site : Site) : Prop where
  source : use.source = none
  declares : site.declares = some use.name
  same : use.declaration? = (site.blocks.declare use.name).declaration? use.name

lemma from_plain {blocks : Blocks} {v : Mark × String} {site : Site}
    (hnode : .identifier v.1 v.2 ∈ site.expr.nodes)
    (hsame : blocks.declaration? v.2 = site.blocks.declaration? v.2) : (plain blocks v).From site where
  node := ⟨v.1, rfl, hnode⟩
  same _ := hsame
  own h := by cases h

end Use

/-- Occurrences that belong to the given sites, with at least one for every identifier in the expressions
that are written. -/
structure Covers (uses : List Use) (sites : List Site) (written : List Expr) : Prop where
  explained : ∀ use ∈ uses, ∃ site ∈ sites, use.From site ∨ use.Fills site
  complete : ∀ e ∈ written, ∀ v : Mark × String, .identifier v.1 v.2 ∈ e.nodes →
    ∃ use ∈ uses, use.source = some v.1 ∧ use.name = v.2

namespace Covers

variable {uses uses' : List Use} {sites sites' : List Site} {written written' : List Expr}

lemma nil : Covers [] [] [] :=
  ⟨by simp, by simp⟩

lemma append (h : Covers uses sites written) (h' : Covers uses' sites' written') :
    Covers (uses ++ uses') (sites ++ sites') (written ++ written') := by
  refine ⟨fun use huse => ?_, fun e he v hv => ?_⟩
  · rcases mem_append.mp huse with huse | huse
    · obtain ⟨site, hsite, hfrom⟩ := h.explained use huse
      exact ⟨site, mem_append_left _ hsite, hfrom⟩
    · obtain ⟨site, hsite, hfrom⟩ := h'.explained use huse
      exact ⟨site, mem_append_right _ hsite, hfrom⟩
  · rcases mem_append.mp he with he | he
    · obtain ⟨use, huse, hstands⟩ := h.complete e he v hv
      exact ⟨use, mem_append_left _ huse, hstands⟩
    · obtain ⟨use, huse, hstands⟩ := h'.complete e he v hv
      exact ⟨use, mem_append_right _ huse, hstands⟩

lemma explain (h : Covers uses sites written) (hsub : sites ⊆ sites') : Covers uses sites' written := by
  refine ⟨fun use huse => ?_, h.complete⟩
  obtain ⟨site, hsite, hfrom⟩ := h.explained use huse
  exact ⟨site, hsub hsite, hfrom⟩

lemma congr (h : Covers uses sites written) (hsame : ∀ use, use ∈ uses ↔ use ∈ uses') :
    Covers uses' sites written := by
  refine ⟨fun use huse => h.explained use ((hsame use).mpr huse), fun e he v hv => ?_⟩
  obtain ⟨use, huse, hstands⟩ := h.complete e he v hv
  exact ⟨use, (hsame use).mp huse, hstands⟩

end Covers

lemma Row.uses_of_isPlain {row : Row} (h : row.IsPlain) (blocks : Blocks) :
    row.uses blocks = row.vars.map (Use.plain blocks) ∧ row.after blocks = blocks := by
  cases row with
  | text line => exact ⟨rfl, rfl⟩
  | run start value stop => exact ⟨rfl, rfl⟩
  | assign target value => exact ⟨(map_append).symm, rfl⟩
  | store name value => cases h
  | declare type name value => cases h

lemma Step.allUses_rows {all : List Row} (h : ∀ row ∈ all, row.IsPlain) (blocks : Blocks) :
    Step.allUses blocks (Step.rows all) = (all.flatMap Row.vars).map (Use.plain blocks) ∧
      (Step.rows all).foldl Step.after blocks = blocks := by
  induction all with
  | nil => exact ⟨rfl, rfl⟩
  | cons row rest ih =>
    obtain ⟨hrow, hrest⟩ := forall_mem_cons.mp h
    obtain ⟨huses, hafter⟩ := Row.uses_of_isPlain hrow blocks
    obtain ⟨ihuses, ihafter⟩ := ih hrest
    have hstep : (Step.row row).after blocks = blocks := hafter
    constructor
    · rw [rows, map_cons, allUses, hstep, ← rows, ihuses, uses, huses, flatMap_cons, map_append]
    · rw [rows, map_cons, foldl_cons, hstep, ← rows, ihafter]

end Target

namespace Translate

open Target

/-- The variables in a term and in the lines before it. -/
def Hoisted.vars (h : Hoisted) : List (Mark × String) :=
  h.before.flatMap Row.vars ++ h.value.vars

/-- The variables in several terms and in the lines before them. -/
def HoistedAll.vars (h : HoistedAll) : List (Mark × String) :=
  h.before.flatMap Row.vars ++ Term.allVars h.values

section Expressions

variable {file : String} {a : Analysis}

lemma vars_literalRows (mark : Mark) (next : Nat) (elements : List Term) :
    (literalRows a mark next elements).flatMap Row.vars = Term.allVars elements := by
  rw [Term.allVars_eq, literalRows, flatMap_cons, flatMap_map]
  rfl

/-- A variable occurs in the translation of an expression for each identifier in it. -/
def Keeps (file : String) (a : Analysis) (e : Expr) : Prop :=
  ∀ n, (∀ row ∈ (expr file a n e).before, row.IsPlain) ∧
    ∀ v, v ∈ (expr file a n e).vars ↔ .identifier v.1 v.2 ∈ e.nodes

lemma keeps_exprs {es : List Expr} (hes : ∀ e ∈ es, Keeps file a e) (n : Nat) :
    (∀ row ∈ (exprs file a n es).before, row.IsPlain) ∧
      ∀ v, v ∈ (exprs file a n es).vars ↔ ∃ e ∈ es, .identifier v.1 v.2 ∈ e.nodes := by
  induction es generalizing n with
  | nil => simp [exprs, HoistedAll.vars, Term.allVars]
  | cons e rest ih =>
    obtain ⟨he, hrest⟩ := forall_mem_cons.mp hes
    obtain ⟨hplain, hvars⟩ := he n
    obtain ⟨hplains, hvarsRest⟩ := ih hrest (expr file a n e).next
    refine ⟨forall_mem_append.mpr ⟨hplain, hplains⟩, fun v => ?_⟩
    have hsplit : v ∈ (exprs file a n (e :: rest)).vars ↔
        v ∈ (expr file a n e).vars ∨ v ∈ (exprs file a (expr file a n e).next rest).vars := by
      simp only [exprs, HoistedAll.vars, Hoisted.vars, Term.allVars, flatMap_append, mem_append]
      tauto
    rw [hsplit, hvars, hvarsRest]
    simp

/-- The names in a translation are those in the translations of the operands, and the expression if it is a name. -/
lemma mem_vars_expr {e : Expr} {n : Nat} {v : Mark × String} :
    v ∈ (expr file a n e).vars ↔ .identifier v.1 v.2 = e ∨ v ∈ (exprs file a n e.children).vars := by
  cases e <;> simp [expr, exprs, Hoisted.vars, HoistedAll.vars, Term.vars, Term.allVars, vars_literalRows,
    Expr.children, Prod.ext_iff]

theorem keeps_expr (e : Expr) : Keeps file a e := by
  induction e using Expr.children_induction with
  | step e ih =>
    intro n
    obtain ⟨hplain, hvars⟩ := keeps_exprs ih n
    refine ⟨?_, fun v => by rw [mem_vars_expr, hvars, Expr.mem_nodes]⟩
    cases e with
    | literal m value | identifier m name => simp [expr]
    | list m elements => exact forall_mem_append.mpr ⟨hplain, by simp [literalRows, Row.IsPlain]⟩
    | emptyList m => simp [expr, literalRows, Row.IsPlain]
    | _ => simpa [expr, exprs, Expr.children] using hplain

end Expressions

section Statements

variable {s : Code.Scene} {n : Nat} {blocks : Blocks}

/-- The occurrences of an expression in blocks in which names mean what they mean at its site. -/
lemma covers_plain {file : String} {a : Analysis} {e : Expr} {outer : Blocks} {name : Option String}
    (hsame : ∀ m x, .identifier m x ∈ e.nodes → blocks.declaration? x = outer.declaration? x) :
    Covers ((expr file a n e).vars.map (Use.plain blocks)) [⟨e, outer, name⟩] [e] := by
  have hvars : ∀ v, v ∈ (expr file a n e).vars ↔ .identifier v.1 v.2 ∈ e.nodes := (keeps_expr e n).2
  constructor
  · intro use huse
    obtain ⟨v, hv, rfl⟩ := mem_map.mp huse
    have hnode := (hvars v).mp hv
    exact ⟨_, mem_singleton_self _, .inl (Use.from_plain hnode (hsame v.1 v.2 hnode))⟩
  · intro e' he' v hv
    rw [mem_singleton.mp he'] at hv
    exact ⟨Use.plain blocks v, mem_map_of_mem ((hvars v).mpr hv), rfl, rfl⟩

lemma allUses_before (e : Expr) (steps : List Step) :
    Step.allUses blocks (Step.rows (expr s.file s.analysis n e).before ++ steps) =
        ((expr s.file s.analysis n e).before.flatMap Row.vars).map (Use.plain blocks) ++
          Step.allUses blocks steps ∧
      (Step.rows (expr s.file s.analysis n e).before ++ steps).foldl Step.after blocks =
        steps.foldl Step.after blocks := by
  have hplain : ∀ row ∈ (expr s.file s.analysis n e).before, row.IsPlain := (keeps_expr e n).1
  obtain ⟨huses, hafter⟩ := Step.allUses_rows hplain blocks
  rw [Step.allUses_append, huses, foldl_append, hafter]
  exact ⟨rfl, rfl⟩

lemma rows_append (all all' : List Row) : Step.rows (all ++ all') = Step.rows all ++ Step.rows all' :=
  map_append

lemma uses_exprRow (start : String) (e : Expr) (stop : String) :
    Step.allUses blocks (exprRow s n start e stop).steps =
        (expr s.file s.analysis n e).vars.map (Use.plain blocks) ∧
      (exprRow s n start e stop).steps.foldl Step.after blocks = blocks := by
  rw [exprRow, rows_append]
  refine ⟨(allUses_before e _).1.trans ?_, (allUses_before e _).2⟩
  rw [Hoisted.vars, map_append]
  simp [Step.rows, Step.allUses, Step.uses, Row.uses, Term.uses, Use.plain]

lemma uses_block (start : String) (e : Expr) (stop : String) (body : List Step) :
    Step.allUses blocks (Step.rows (expr s.file s.analysis n e).before ++
        [.block (.run start (expr s.file s.analysis n e).value stop) body]) =
      (expr s.file s.analysis n e).vars.map (Use.plain blocks) ++ Step.allUses ([] :: blocks) body := by
  rw [(allUses_before e _).1, Hoisted.vars, map_append]
  simp [Step.allUses, Step.uses, Row.uses, Term.uses, Use.plain]

lemma uses_choose (start : String) (e : Expr) (stop : String) (body other : List Step) :
    Step.allUses blocks (Step.rows (expr s.file s.analysis n e).before ++
        [.choose (.run start (expr s.file s.analysis n e).value stop) body other]) =
      (expr s.file s.analysis n e).vars.map (Use.plain blocks) ++
        (Step.allUses ([] :: blocks) body ++ Step.allUses ([] :: blocks) other) := by
  rw [(allUses_before e _).1, Hoisted.vars, map_append]
  simp [Step.allUses, Step.uses, Row.uses, Term.uses, Use.plain]

/-- In the code of an initial value the variable itself is in scope, in the lines before it is not. -/
lemma covers_declared {e : Expr} {type name : String} :
    Covers (Step.allUses blocks (Step.rows ((expr s.file s.analysis n e).before ++
      [.declare type name (some (expr s.file s.analysis n e).value)]))) [⟨e, blocks, some name⟩] [e] := by
  have hvars : ∀ v, v ∈ (expr s.file s.analysis n e).vars ↔ .identifier v.1 v.2 ∈ e.nodes := (keeps_expr e n).2
  have huses : Step.allUses blocks (Step.rows ((expr s.file s.analysis n e).before ++
        [.declare type name (some (expr s.file s.analysis n e).value)])) =
      ((expr s.file s.analysis n e).before.flatMap Row.vars).map (Use.plain blocks) ++
        (expr s.file s.analysis n e).value.uses (blocks.declare name) (some name) := by
    rw [rows_append, (allUses_before e _).1]
    simp [Step.rows, Step.allUses, Step.uses, Row.uses]
  rw [huses]
  constructor
  · intro use huse
    refine ⟨_, mem_singleton_self _, .inl ?_⟩
    rcases mem_append.mp huse with huse | huse
    · obtain ⟨v, hv, rfl⟩ := mem_map.mp huse
      exact Use.from_plain ((hvars v).mp (mem_append_left _ hv)) rfl
    · obtain ⟨v, hv, rfl⟩ := mem_map.mp huse
      refine ⟨⟨v.1, rfl, (hvars v).mp (mem_append_right _ hv)⟩, fun hother => ?_, fun hown => ?_⟩
      · exact Blocks.declaration?_declare_of_ne (fun heq => hother (congrArg some heq)) blocks
      · exact ⟨hown, congrArg blocks.declare (Option.some.inj hown)⟩
  · intro e' he' v hv
    rw [mem_singleton.mp he'] at hv
    rcases mem_append.mp ((hvars v).mpr hv) with hbefore | hvalue
    · exact ⟨_, mem_append_left _ (mem_map_of_mem hbefore), rfl, rfl⟩
    · exact ⟨_, mem_append_right _ (mem_map_of_mem hvalue), rfl, rfl⟩

/-- Steps that follow the scopes of a part of a program: they leave the given names in scope, and their
occurrences cover its sites. -/
structure Follows (blocks : Blocks) (steps : List Step) (after : Blocks) (sites : List Site)
    (written : List Expr) : Prop where
  after : steps.foldl Step.after blocks = after
  covers : Covers (Step.allUses blocks steps) sites written

lemma Follows.append {steps steps' : List Step} {blocks' blocks'' : Blocks} {sites sites' : List Site}
    {written written' : List Expr} (h : Follows blocks steps blocks' sites written)
    (h' : Follows blocks' steps' blocks'' sites' written') :
    Follows blocks (steps ++ steps') blocks'' (sites ++ sites') (written ++ written') := by
  constructor
  · rw [foldl_append, h.after, h'.after]
  · rw [Step.allUses_append, h.after]
    exact h.covers.append h'.covers

lemma follows_declarator {type : Ty} {d : Declarator} :
    Follows blocks (Step.rows ((initialValue s type n d.value).2.1 ++
        [.declare type.spelling d.name (initialValue s type n d.value).1]))
      (blocks.declare d.name) (d.value.toList.map fun e => ⟨e, blocks, some d.name⟩) d.value.toList := by
  cases d.value with
  | some e => exact ⟨by rw [initialValue, rows_append, (allUses_before e _).2]; rfl, covers_declared⟩
  | none =>
    have huses : Step.allUses blocks (Step.rows ((initialValue s type n none).2.1 ++
        [.declare type.spelling d.name (initialValue s type n none).1])) = [] := by
      cases hdefault : type.defaultCode? <;>
        simp [initialValue, hdefault, Step.rows, Step.allUses, Step.uses, Row.uses, Term.uses, Term.vars]
    exact ⟨rfl, huses ▸ Covers.nil⟩

lemma follows_declarators {type : Ty} {ds : List Declarator} :
    Follows blocks (declarators s type n ds).steps (Stmt.declareAll blocks ds)
      (Stmt.declaratorSites blocks ds) (ds.flatMap fun d => d.value.toList) := by
  induction ds generalizing n blocks with
  | nil => exact ⟨rfl, Covers.nil⟩
  | cons d rest ih => exact follows_declarator.append ih

lemma follows_exprRow {start stop : String} {e : Expr} :
    Follows blocks (exprRow s n start e stop).steps blocks [⟨e, blocks, none⟩] [e] := by
  refine ⟨(uses_exprRow start e stop).2, ?_⟩
  rw [(uses_exprRow start e stop).1]
  exact covers_plain fun _ _ _ => rfl

lemma follows_assign {target value : Expr} {line : Nat} :
    Follows blocks (statement s n (.assign target value line)).steps blocks
      [⟨target, blocks, none⟩, ⟨value, blocks, none⟩] [target, value] := by
  let t := expr s.file s.analysis n target
  let v := expr s.file s.analysis t.next value
  have hplain : ∀ row ∈ t.before ++ v.before ++ [.assign t.value v.value], row.IsPlain := by
    refine forall_mem_append.mpr ⟨forall_mem_append.mpr ⟨?_, ?_⟩, ?_⟩
    · exact (keeps_expr target n).1
    · exact (keeps_expr value t.next).1
    · simp [Row.IsPlain]
  obtain ⟨huses, hafter⟩ := Step.allUses_rows hplain blocks
  have hcovers : Covers (t.vars.map (Use.plain blocks) ++ v.vars.map (Use.plain blocks))
      [⟨target, blocks, none⟩, ⟨value, blocks, none⟩] [target, value] :=
    (covers_plain fun _ _ _ => rfl).append (covers_plain fun _ _ _ => rfl)
  refine ⟨hafter, hcovers.congr fun use => ?_⟩
  rw [statement, huses, ← map_append]
  have hvars : ∀ x, x ∈ t.vars ++ v.vars ↔
      x ∈ (t.before ++ v.before ++ [Row.assign t.value v.value]).flatMap Row.vars := fun x => by
    simp only [Hoisted.vars, flatMap_append, flatMap_singleton, Row.vars, mem_append]
    tauto
  simp only [mem_map, hvars]

lemma Follows.block {head : String} {steps : List Step} {after : Blocks} {sites : List Site}
    {written : List Expr} (h : Follows ([] :: blocks) steps after sites written) :
    Follows blocks [.block (.text head) steps] blocks sites written := by
  have huses : Step.allUses blocks [.block (.text head) steps] = Step.allUses ([] :: blocks) steps := by
    simp [Step.allUses, Step.uses, Row.uses]
  exact ⟨rfl, huses ▸ h.covers⟩

lemma follows_whileDo {condition : Expr} {body : List Stmt} {line : Nat} {after : Blocks} {sites : List Site}
    {written : List Expr}
    (hbody : Follows ([] :: blocks) (statements s (expr s.file s.analysis n condition).next body).steps after
      sites written) :
    Follows blocks (statement s n (.whileDo condition body line)).steps blocks
      (⟨condition, blocks, none⟩ :: sites) (condition :: written) := by
  rw [statement]
  by_cases hbefore : (expr s.file s.analysis n condition).before.isEmpty = true
  · have huses := @uses_block s n blocks "while (" condition ") \x7b"
      (statements s (expr s.file s.analysis n condition).next body).steps
    rw [List.isEmpty_iff.mp hbefore, Step.rows, map_nil, nil_append] at huses
    rw [if_pos hbefore]
    exact ⟨rfl, huses ▸ (covers_plain fun _ _ _ => rfl).append hbody.covers⟩
  · -- the condition is checked inside the block, which has declared nothing yet
    obtain ⟨huses, hafter⟩ := @uses_exprRow s n ([] :: blocks) "if (!(" condition ")) break;"
    have hcheck : Follows ([] :: blocks) (exprRow s n "if (!(" condition ")) break;").steps ([] :: blocks)
        [⟨condition, blocks, none⟩] [condition] :=
      ⟨hafter, huses ▸ covers_plain fun _ x _ => Blocks.declaration?_push x blocks⟩
    rw [if_neg hbefore]
    exact (hcheck.append hbody).block

lemma follows_returns {value : Option Expr} {line : Nat} :
    Follows blocks (returns s n value).steps blocks (value.toList.map fun e => ⟨e, blocks, none⟩)
      (Stmt.written s.inRule (.returns value line)) := by
  by_cases hrule : s.inRule = true
  · have hreturns : returns s n value = ⟨[.row (.text "return 0;")], n⟩ := if_pos hrule
    rw [hreturns, Stmt.written, if_pos hrule]
    exact ⟨rfl, Covers.nil.explain (nil_subset _)⟩
  · rw [Stmt.written, if_neg hrule]
    cases value with
    | some e =>
      have hreturns : returns s n (some e) = exprRow s n "return " e ";" := if_neg hrule
      rw [hreturns]
      exact follows_exprRow
    | none =>
      have hreturns : returns s n none = ⟨[.row (.text "return;")], n⟩ := if_neg hrule
      rw [hreturns]
      exact ⟨rfl, Covers.nil⟩

/-- The code of a statement follows its scopes. -/
theorem follows_statements (block : List Stmt) : ∀ s n blocks,
    ∃ after, Follows blocks (statements s n block).steps after (Stmt.blockSites blocks block)
      ((Stmt.blockParts block).flatMap (Stmt.written s.inRule)) := by
  induction block using Stmt.block_induction (fun stmt => ∀ s n blocks,
    Follows blocks (statement s n stmt).steps (stmt.declares blocks) (stmt.sites blocks)
      (stmt.parts.flatMap (Stmt.written s.inRule))) with
  | declare type ds line s n blocks =>
    rw [Stmt.parts, flatMap_singleton]
    exact follows_declarators
  | assign target value line s n blocks =>
    rw [Stmt.parts, flatMap_singleton]
    exact follows_assign
  | ifThen condition thenBody line ihthen s n blocks =>
    obtain ⟨after, hthen⟩ := ihthen s (expr s.file s.analysis n condition).next ([] :: blocks)
    refine ⟨(allUses_before condition _).2, ?_⟩
    rw [statement, uses_block]
    exact (covers_plain fun _ _ _ => rfl).append hthen.covers
  | ifElse condition thenBody elseBody line ihthen ihelse s n blocks =>
    obtain ⟨after, hthen⟩ := ihthen s (expr s.file s.analysis n condition).next ([] :: blocks)
    obtain ⟨after', helse⟩ := ihelse s
      (statements s (expr s.file s.analysis n condition).next thenBody).next ([] :: blocks)
    refine ⟨(allUses_before condition _).2, ?_⟩
    rw [statement, uses_choose, Stmt.parts, flatMap_cons, flatMap_append]
    exact (covers_plain fun _ _ _ => rfl).append (hthen.covers.append helse.covers)
  | whileDo condition body line ih s n blocks =>
    obtain ⟨after, hbody⟩ := ih s (expr s.file s.analysis n condition).next ([] :: blocks)
    exact follows_whileDo hbody
  | forAll name source body line ih s n blocks =>
    obtain ⟨after, hbody⟩ := ih s ((expr s.file s.analysis n source).next + 2) ([name] :: blocks)
    have hvariable : ∀ type term, Follows ([] :: blocks)
        [.row (.declare type name (some (.text term)))] ([name] :: blocks) [] [] :=
      fun type term => ⟨rfl, Covers.nil⟩
    exact follows_exprRow.append ((hvariable _ _).append hbody).block
  | returns value line s n blocks =>
    rw [Stmt.parts, flatMap_singleton]
    exact follows_returns
  | score value line s n blocks | call value line s n blocks =>
    rw [Stmt.parts, flatMap_singleton]
    exact follows_exprRow
  | nil =>
    intro s n blocks
    exact ⟨blocks, rfl, Covers.nil⟩
  | cons first rest ihfirst ihrest =>
    intro s n blocks
    obtain ⟨after, hrest⟩ := ihrest s (statement s n first).next (first.declares blocks)
    refine ⟨after, ?_⟩
    rw [Stmt.blockParts, flatMap_append]
    exact (ihfirst s n blocks).append hrest

end Statements

section Programs

variable {s : Code.Scene} {p : Program} {n : Nat}

lemma follows_store {later block : List String} {g : GlobalDef} (hnodup : (later ++ g.name :: block).Nodup)
    (hfound : Site.Found ⟨g.value, [block], some g.name⟩) :
    Follows [[], later ++ g.name :: block] (Step.rows ((expr s.file s.analysis n g.value).before ++
        [.store g.name (expr s.file s.analysis n g.value).value])) [[], later ++ g.name :: block]
      [⟨g.value, [block], some g.name⟩] [g.value] := by
  let h := expr s.file s.analysis n g.value
  let blocks : Blocks := [[], later ++ g.name :: block]
  have hsplit : later ++ g.name :: block = (later ++ [g.name]) ++ block := by simp
  have hvalue : Covers (h.vars.map (Use.plain blocks)) [⟨g.value, [block], some g.name⟩] [g.value] := by
    refine covers_plain fun m x hx => ?_
    obtain ⟨found, hdeclared⟩ := hfound m x hx
    have hnodup' : ((later ++ [g.name]) ++ block).Nodup := hsplit ▸ hnodup
    have hsame := Blocks.declaration?_globals hnodup' hdeclared
    rwa [← hsplit] at hsame
  have hname : Covers [⟨none, g.name, blocks, none⟩] [⟨g.value, [block], some g.name⟩] [] := by
    have hown : Blocks.declaration? g.name [g.name :: block] = some (0, block.length) := by
      simp [Blocks.declaration?, Blocks.place?]
    have hfills : Use.Fills ⟨none, g.name, blocks, none⟩ ⟨g.value, [block], some g.name⟩ :=
      ⟨rfl, rfl, Blocks.declaration?_globals hnodup hown⟩
    exact ⟨by simpa using .inr hfills, by simp⟩
  have hrow : Step.allUses blocks (Step.rows [.store g.name h.value]) =
      ⟨none, g.name, blocks, none⟩ :: h.value.vars.map (Use.plain blocks) := by
    simp [Step.rows, Step.allUses, Step.uses, Row.uses, Term.uses, Use.plain]
  rw [rows_append]
  refine ⟨(allUses_before g.value _).2, ?_⟩
  rw [(allUses_before g.value _).1, hrow]
  refine ((hvalue.append hname).explain (by simp)).congr fun use => ?_
  simp only [Hoisted.vars, map_append, mem_append, mem_cons, not_mem_nil, or_false]
  tauto

lemma covers_globals {deferred : List String} {block full : List String} {gs : List GlobalDef}
    (hfull : (gs.map GlobalDef.name).reverse ++ block = full) (hnodup : full.Nodup)
    (hfound : ∀ site ∈ Program.globalSites block gs, site.Found) :
    (globals s deferred n gs).items.foldl Item.after block = full ∧
      Covers (Item.allUses block (globals s deferred n gs).items ++
          Step.allUses [[], full] (Step.rows (globals s deferred n gs).preamble))
        (Program.globalSites block gs) (gs.map GlobalDef.value) := by
  induction gs generalizing deferred n block with
  | nil => exact ⟨hfull, Covers.nil⟩
  | cons g rest ih =>
    let h := expr s.file s.analysis n g.value
    have hlater : (rest.map GlobalDef.name).reverse ++ g.name :: block = full := by simpa using hfull
    obtain ⟨hfirst, hrest⟩ := forall_mem_cons.mp hfound
    rw [globals]
    by_cases himmediate : Code.isImmediate s.analysis deferred (h.before.map Row.code) g.value = true
    · have hbefore : h.before = [] := by
        simp only [Code.isImmediate, Bool.and_eq_true, List.isEmpty_iff, map_eq_nil_iff] at himmediate
        exact himmediate.1.1
      obtain ⟨hafter, hcovers⟩ := @ih h.next deferred (g.name :: block) hlater hrest
      have hvalue := @covers_declared s n [block] g.value g.type.spelling g.name
      have huses : Step.allUses [block] (Step.rows (h.before ++
            [.declare g.type.spelling g.name (some h.value)])) =
          Row.uses [block] (.declare g.type.spelling g.name (some h.value)) := by
        simp [hbefore, Step.rows, Step.allUses, Step.uses]
      rw [huses] at hvalue
      rw [if_pos himmediate, Item.allUses, append_assoc]
      exact ⟨hafter, hvalue.append hcovers⟩
    · obtain ⟨hafter, hcovers⟩ := @ih h.next (g.name :: deferred) (g.name :: block) hlater hrest
      have hstore := @follows_store s n _ block g (hlater ▸ hnodup) hfirst
      rw [hlater] at hstore
      let t := globals s (g.name :: deferred) h.next rest
      have hpreamble : ∀ use,
          use ∈ Step.allUses [[], full] (Step.rows (h.before ++ .store g.name h.value :: t.preamble)) ↔
            use ∈ Step.allUses [[], full] (Step.rows (h.before ++ [.store g.name h.value])) ∨
              use ∈ Step.allUses [[], full] (Step.rows t.preamble) := fun use => by
        rw [append_cons, rows_append, Step.allUses_append, hstore.after, mem_append]
      rw [if_neg himmediate]
      refine ⟨hafter, (hstore.covers.append hcovers).congr fun use => ?_⟩
      simp only [Item.allUses, Item.uses, Row.uses, Item.after, nil_append, mem_append]
      rw [hpreamble]
      tauto

lemma covers_function (f : FunctionDef) :
    Covers ((function s n f).1.uses p.globalBlock) (p.functionSites f)
      ((Stmt.blockParts f.body).flatMap (Stmt.written false)) := by
  have hparams : (functionHead f).params.map Prod.snd = f.params.map Param.name := by
    simp [functionHead, Function.comp_def]
  obtain ⟨after, hbody⟩ := follows_statements f.body { s with inRule := false } n
    [(f.params.map Param.name).reverse, p.globalBlock]
  rw [function, Item.uses, hparams]
  exact hbody.covers

lemma covers_rule (r : RuleDef) :
    Covers ((rule s n r).1.uses p.globalBlock) (p.ruleSites r)
      (r.guard.toList ++ (Stmt.blockParts r.body).flatMap (Stmt.written true)) := by
  let scene : Code.Scene := { s with inRule := true }
  have hguard : Follows [[], p.globalBlock] (guard scene n r.guard).steps [[], p.globalBlock]
      (r.guard.toList.map fun e => ⟨e, [p.globalBlock], none⟩) r.guard.toList := by
    cases r.guard with
    | none => exact ⟨rfl, Covers.nil⟩
    | some e =>
      obtain ⟨huses, hafter⟩ := @uses_exprRow scene n [[], p.globalBlock] "if (!(" e ")) return 0;"
      exact ⟨hafter, huses ▸ covers_plain fun _ _ _ => rfl⟩
  obtain ⟨after, hbody⟩ := follows_statements r.body scene (guard scene n r.guard).next [[], p.globalBlock]
  have hreturn : Follows after [.row (.text "return 0;")] after [] [] := ⟨rfl, Covers.nil⟩
  have hall := ((hguard.append hbody).append hreturn).covers
  rw [append_nil, append_nil] at hall
  exact hall

lemma covers_separated {α : Type} {item : Nat → α → Item × Nat} {block : List String}
    {sites : α → List Site} {written : α → List Expr}
    (hitem : ∀ n x, (item n x).1.after block = block ∧ Covers ((item n x).1.uses block) (sites x) (written x))
    (xs : List α) :
    (separated item n xs).1.foldl Item.after block = block ∧
      Covers (Item.allUses block (separated item n xs).1) (xs.flatMap sites) (xs.flatMap written) := by
  induction xs generalizing n with
  | nil => exact ⟨rfl, Covers.nil⟩
  | cons x rest ih =>
    obtain ⟨hafter, hcovers⟩ := hitem n x
    obtain ⟨hafterRest, hcoversRest⟩ := @ih (item n x).2
    have hblank : (Item.lines [.top ""]).after block = block := rfl
    constructor
    · rw [separated, foldl_cons, foldl_cons, hblank, hafter]
      exact hafterRest
    · rw [separated, Item.allUses, Item.allUses, Item.uses, hblank, nil_append, hafter]
      exact hcovers.append hcoversRest

lemma nodup_globals {block : List String} {gs : List GlobalDef} (hblock : block.Nodup)
    (hnew : ∀ site ∈ Program.globalSites block gs, site.New) :
    ((gs.map GlobalDef.name).reverse ++ block).Nodup := by
  induction gs generalizing block with
  | nil => exact hblock
  | cons g rest ih =>
    obtain ⟨hfirst, hrest⟩ := forall_mem_cons.mp hnew
    have hname : g.name ∉ block := hfirst g.name rfl block rfl
    simpa using ih (nodup_cons.mpr ⟨hname, hblock⟩) hrest

lemma allUses_prototypes (block : List String) (fs : List FunctionDef) :
    Item.allUses block (fs.map fun f => .prototype (functionHead f)) = [] ∧
      (fs.map fun f => Item.prototype (functionHead f)).foldl Item.after block = block := by
  induction fs with
  | nil => exact ⟨rfl, rfl⟩
  | cons f rest ih => exact ih

lemma allUses_file {a : Analysis} {g : GlobalItems} {functions rules : List Item × Nat}
    (hg : globals ⟨p.file, a, false⟩ [] 0 p.globals = g)
    (hfunctions : separated (function ⟨p.file, a, false⟩) g.next p.functions = functions)
    (hrules : separated (rule ⟨p.file, a, false⟩) functions.2 p.rules = rules)
    (hafter : g.items.foldl Item.after [] = p.globalBlock)
    (hafterFunctions : functions.1.foldl Item.after p.globalBlock = p.globalBlock) :
    Item.allUses [] (file p a) =
      Item.allUses [] g.items ++ Step.allUses [[], p.globalBlock] (Step.rows g.preamble) ++
        Item.allUses p.globalBlock functions.1 ++ Item.allUses p.globalBlock rules.1 := by
  unfold file
  simp only [hg, hfunctions, hrules, Item.allUses_append, foldl_append, foldl_cons, foldl_nil,
    Item.allUses, Item.uses, Item.after, hafter, hafterFunctions, (allUses_prototypes _ _).1,
    (allUses_prototypes _ _).2]
  simp

lemma mem_of_mem_written {e : Expr} (he : e ∈ p.written) : e ∈ p.globals.map GlobalDef.value ++
    p.functions.flatMap (fun f => (Stmt.blockParts f.body).flatMap (Stmt.written false)) ++
    p.rules.flatMap (fun r => r.guard.toList ++ (Stmt.blockParts r.body).flatMap (Stmt.written true)) := by
  obtain ⟨d, hd, he⟩ := mem_flatMap.mp he
  rw [mem_append, mem_append]
  cases d with
  | global g =>
    have hvalue : e = g.value := mem_singleton.mp he
    exact .inl (.inl (hvalue ▸ mem_map_of_mem (Program.mem_globals.mpr hd)))
  | function f => exact .inl (.inr (mem_flatMap.mpr ⟨f, Program.mem_functions.mpr hd, he⟩))
  | rule r => exact .inr (mem_flatMap.mpr ⟨r, Program.mem_rules.mpr hd, he⟩)

/-- The occurrences in the code of a program belong to its sites. -/
theorem covers_file (a : Analysis) (hnew : ∀ site ∈ p.sites, site.New)
    (hfound : ∀ site ∈ p.sites, site.Found) : Covers (Item.allUses [] (file p a)) p.sites p.written := by
  let s : Code.Scene := ⟨p.file, a, false⟩
  have hglobalSites : Program.globalSites [] p.globals ⊆ p.sites :=
    fun site hsite => mem_append_left _ (mem_append_left _ hsite)
  have hnodup : ((p.globals.map GlobalDef.name).reverse ++ []).Nodup :=
    nodup_globals nodup_nil fun site hsite => hnew site (hglobalSites hsite)
  rw [append_nil] at hnodup
  obtain ⟨hafter, hglobals⟩ := @covers_globals s 0 [] [] p.globalBlock p.globals (append_nil _) hnodup
    fun site hsite => hfound site (hglobalSites hsite)
  have hfunction : ∀ n f, (function s n f).1.after p.globalBlock = p.globalBlock ∧
      Covers ((function s n f).1.uses p.globalBlock) (p.functionSites f)
        ((Stmt.blockParts f.body).flatMap (Stmt.written false)) :=
    fun n f => ⟨rfl, covers_function f⟩
  have hrule : ∀ n r, (rule s n r).1.after p.globalBlock = p.globalBlock ∧
      Covers ((rule s n r).1.uses p.globalBlock) (p.ruleSites r)
        (r.guard.toList ++ (Stmt.blockParts r.body).flatMap (Stmt.written true)) :=
    fun n r => ⟨rfl, covers_rule r⟩
  obtain ⟨hafterFunctions, hfunctions⟩ := covers_separated hfunction p.functions
  obtain ⟨-, hrules⟩ := covers_separated hrule p.rules
  rw [allUses_file rfl rfl rfl hafter hafterFunctions]
  obtain ⟨hexplained, hcomplete⟩ := (hglobals.append hfunctions).append hrules
  exact ⟨hexplained, fun e he => hcomplete e (mem_of_mem_written he)⟩

end Programs

end Translate

end ChessEval
