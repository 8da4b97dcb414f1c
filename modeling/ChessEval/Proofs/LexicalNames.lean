import ChessEval.Proofs.Progress
import ChessEval.Proofs.ScopeStack

/-!
# Names are lexical

The analysis of a program goes through the occurrences of its names, block by block. So identifiers get the types
of the declarations that they mean, and the variables that are reported as unused are those that no identifier
means.
-/

namespace ChessEval

open List

variable {context : Context} {number next : Nat} {blocks : List Nat} {before : List Occurrence}

open Occurrence

namespace Inspect

section Statements

variable {types : TypeTable} {file : String} {place : Place}

lemma follows_declareWritten (name : String) (type : Ty) (line : Nat) :
    Follows types file (number :: blocks) before
      [⟨name, line, number :: blocks, place, .declaration (.written type)⟩] [] True (fun _ => True)
      (declare context fun ds => ds.declare name type line) :=
  (follows_declare (.written type) name type line).weaken (fun _ => rfl) fun _ h => h

lemma follows_declarators (hplace : context.definition = some place) (number : Nat) (blocks : List Nat) (type : Ty)
    (ds : List Declarator) (before : List Occurrence) :
    Follows types file (number :: blocks) before (Stmt.declaratorOccurrences place (number :: blocks) type ds)
      ((ds.flatMap fun d => d.value.toList).flatMap Expr.ids) True (fun _ => True) (declarators context type ds) := by
  induction ds generalizing before with
  | nil => exact (Silent.pure _).follows
  | cons d rest ih =>
    have hmoved : (context.moveTo d.line).definition = some place := hplace
    rw [flatMap_cons, flatMap_append]
    refine (follows_initialValue hmoved type d.value before).andThen (fun _ => ?_)
      (apart_of_flat fun o ho => (Expr.flat_flatMap_occurrences _ o ho).2)
    exact (follows_declareWritten d.name type d.line).andThen (fun _ => ih _)
      (apart_of_flat fun o ho => by rw [mem_singleton.mp ho])

lemma follows_loopVariableType (id : Nat) (source : Ty) :
    Follows types file blocks before [] [] (types.get? id = some source)
      (fun type => type = (Origin.elements id).type types) (loopVariableType context source) := by
  intro s type s' hrun
  have halike : s.Alike s' := by
    refine (?_ : Silent (loopVariableType context source)) s type s' hrun
    unfold loopVariableType
    split
    · exact .pure _
    · exact (Silent.report rfl).bind fun _ => .pure _
  refine ⟨halike.grows, fun hsource _ _ hs => ⟨?_, halike.passes hs⟩⟩
  rw [Origin.type, TypeTable.typeOf_eq hsource]
  cases helement : source.element? with
  | ok element =>
    rw [loopVariableType, helement] at hrun
    cases hrun
    rfl
  | error fault =>
    rw [loopVariableType, helement] at hrun
    cases hrun
    rfl

lemma follows_conditional (hplace : context.definition = some place) (statement : String) (e : Expr) {body : List Stmt}
    (hnew : Unopened before (number :: blocks) {next})
    (hbody : ∀ before, Unopened before (next :: number :: blocks) (Set.Ici 0) →
      Follows types file (next :: number :: blocks) before
        (Stmt.blockOccurrences place (next :: number :: blocks) 0 body) (Stmt.blockIds body) True (fun _ => True)
        (statements context body)) :
    Follows types file (number :: blocks) before (e.occurrences place (number :: blocks) ++
      Stmt.blockOccurrences place (next :: number :: blocks) 0 body) (e.ids ++ Stmt.blockIds body) True (fun _ => True)
      (condition context statement e >>= fun _ => openScope >>= fun _ => statements context body >>= fun _ =>
        closeScope context) := by
  have hflat : ∀ o ∈ e.occurrences place (number :: blocks), o.blocks = number :: blocks := fun o ho =>
    (e.flat_occurrences o ho).2
  have hunopened := hnew.append (unopened_of_flat hflat)
  refine (follows_condition hplace statement e before).andThen (fun _ => ?_) (apart_of_flat hflat)
  exact (hbody _ (hunopened.inner rfl)).block hplace hunopened (Stmt.inside_blockOccurrences _ _ _)

/-- The analysis of a block goes through its names, if nothing before stands in the blocks inside it. -/
theorem follows_statements (block : List Stmt) : ∀ {context : Context}, context.definition = some place →
    ∀ number blocks next before, Unopened before (number :: blocks) (Set.Ici next) →
      Follows types file (number :: blocks) before (Stmt.blockOccurrences place (number :: blocks) next block)
        (Stmt.blockIds block) True (fun _ => True) (statements context block) := by
  induction block using Stmt.block_induction (fun s => ∀ context,
    (∀ line, (Context.moveTo context line).definition = some place) → ∀ number blocks next before,
      Unopened before (number :: blocks) (Set.Ico next (next + s.ownBlocks)) →
      Follows types file (number :: blocks) before (s.occurrences place (number :: blocks) next)
        s.ids True (fun _ => True) (statement context s)) with
  | declare type ds line context hplace number blocks next before hnew =>
    rw [Stmt.ids_declare]
    exact follows_declarators (hplace line) number blocks type ds before
  | assign target value line context hplace number blocks next before hnew =>
    rw [Stmt.ids_assign]
    refine (follows_exprType (hplace line) target before).andThen (fun _ => ?_)
      (apart_of_flat fun o ho => (target.flat_occurrences o ho).2)
    exact (follows_exprType (hplace line) value _).andSilent fun _ => .reportUnless _ rfl
  | ifThen condition body line ih context hplace number blocks next before hnew
  | whileDo condition body line ih context hplace number blocks next before hnew =>
    have hfirst : Unopened before (number :: blocks) {next} := hnew.mono (by simp [Stmt.ownBlocks])
    exact follows_conditional (hplace line) _ condition hfirst (ih (hplace line) next (number :: blocks) 0)
  | ifElse condition thenBody elseBody line ihthen ihelse context hplace number blocks next before hnew =>
    have hfirst : Unopened before (number :: blocks) {next} := hnew.mono (by simp [Stmt.ownBlocks])
    have hsecond : Unopened before (number :: blocks) {next + 1} := hnew.mono (by simp [Stmt.ownBlocks])
    -- the names of the first branch stand in block `next`, those of the second in block `next + 1`
    have hinside : Inside place (number :: blocks) {next} (condition.occurrences place (number :: blocks) ++
        Stmt.blockOccurrences place (next :: number :: blocks) 0 thenBody) :=
      (inside_of_flat condition.flat_occurrences).append ((Stmt.inside_blockOccurrences _ _ _).outer rfl)
    have hinside' : Inside place (number :: blocks) {next + 1}
        (Stmt.blockOccurrences place ((next + 1) :: number :: blocks) 0 elseBody) :=
      (Stmt.inside_blockOccurrences _ _ _).outer rfl
    have hunopened := hsecond.append (hinside.unopened (by simp))
    have hthen := follows_conditional (hplace line) "if" condition hfirst
      (ihthen (hplace line) next (number :: blocks) 0)
    have helse := (ihelse (hplace line) (next + 1) _ 0 _ (hunopened.inner rfl)).block (hplace line) hunopened
      (Stmt.inside_blockOccurrences _ _ _)
    have hboth := hthen.andThen (fun _ => helse) (hinside.apart (hinside'.unopened (by simp)))
    rw [append_assoc, append_assoc] at hboth
    rw [Stmt.ids_ifElse]
    exact hboth
  | forAll name source body line ih context hplace number blocks next before hnew =>
    have hfirst : Unopened before (number :: blocks) {next} := hnew.mono (by simp [Stmt.ownBlocks])
    have hflat : ∀ o ∈ source.occurrences place (number :: blocks), o.blocks = number :: blocks := fun o ho =>
      (source.flat_occurrences o ho).2
    set o : Occurrence := ⟨name, line, next :: number :: blocks, place, .declaration (.elements source.id)⟩
    have hunopened : Unopened (before ++ source.occurrences place (number :: blocks)) (number :: blocks) {next} :=
      hfirst.append (unopened_of_flat hflat)
    have hvariable : ∀ o' ∈ [o], o'.blocks = next :: number :: blocks := by simp [o]
    have hbody := ih (hplace line) next (number :: blocks) 0 _
      ((hunopened.inner rfl).append (unopened_of_flat hvariable))
    have hloop : ∀ type, Follows types file (number :: blocks)
        (before ++ source.occurrences place (number :: blocks) ++ [])
        (o :: Stmt.blockOccurrences place (next :: number :: blocks) 0 body) (Stmt.blockIds body)
        (type = (Origin.elements source.id).type types) (fun _ => True)
        (openScope >>= fun _ => (declare (context.moveTo line) (fun ds => ds.declare name type line) >>= fun _ =>
          statements (context.moveTo line) body) >>= fun _ => closeScope (context.moveTo line)) := by
      intro type
      rw [append_nil]
      refine Follows.block (hplace line) ?_ hunopened (forall_mem_cons.mpr ⟨⟨rfl, .inl rfl⟩,
        Stmt.inside_blockOccurrences body (next :: number :: blocks) 0⟩)
      exact (follows_declare (.elements source.id) name type line).andThen (fun _ => hbody) (apart_of_flat hvariable)
    rw [Stmt.ids_forAll]
    refine (follows_exprType (hplace line) source before).bind (fun sourceType => ?_) (apart_of_flat hflat)
    exact (follows_loopVariableType source.id sourceType).bind hloop fun d hd => by cases hd
  | returns value line context hplace number blocks next before hnew =>
    rw [Stmt.ids_returns]
    cases value with
    | none => exact (Silent.pure _).follows
    | some value =>
      rw [Stmt.occurrences, Option.toList_some, flatMap_singleton, flatMap_singleton]
      exact (follows_exprType (hplace line) value before).andSilent fun _ => .pure ()
  | score value line context hplace number blocks next before hnew =>
    rw [Stmt.ids_score]
    exact (follows_exprType (hplace line) value before).andSilent fun _ => .reportUnless _ rfl
  | call site line context hplace number blocks next before hnew =>
    rw [Stmt.ids_call]
    exact (follows_exprType (hplace line) site before).andSilent fun _ => .pure ()
  | nil => exact fun _ _ _ _ _ _ => (Silent.pure _).follows
  | cons s rest ihs ihrest =>
    intro context hplace number blocks next before hnew
    have hs : Inside place (number :: blocks) (Set.Ico next (next + s.ownBlocks)) _ :=
      s.inside_occurrences (number :: blocks) next
    have hrest : Inside place (number :: blocks) (Set.Ici (next + s.ownBlocks)) _ :=
      Stmt.inside_blockOccurrences rest (number :: blocks) (next + s.ownBlocks)
    have hbefore : Unopened before (number :: blocks) (Set.Ici (next + s.ownBlocks)) :=
      hnew.mono (Set.Ici_subset_Ici.mpr (Nat.le_add_right _ _))
    rw [Stmt.blockIds_cons]
    have hstmt := ihs context (fun _ => hplace) number blocks next before (hnew.mono Set.Ico_subset_Ici_self)
    refine hstmt.andThen (fun _ => ?_) ?_
    · refine ihrest hplace number blocks _ _ (hbefore.append (hs.unopened fun k hk hk' => ?_))
      have hlow : next + s.ownBlocks ≤ k := hk'
      have hhigh : k < next + s.ownBlocks := hk.2
      omega
    · refine hs.apart (hrest.unopened fun k hk hk' => ?_)
      have hlow : next + s.ownBlocks ≤ k := hk
      have hhigh : k < next + s.ownBlocks := hk'.2
      omega

end Statements

section Definitions

variable {types : TypeTable} {file : String}

namespace Silent

lemma each {α : Type} {step : α → Inspect Unit} (h : ∀ a, Silent (step a)) (items : List α) :
    Silent (each step items) := by
  induction items with
  | nil => exact .pure ()
  | cons a rest ih => exact (h a).bind fun _ => ih

lemma setting (entry : ConfigEntry) : Silent (setting entry) := by
  intro s result s' h
  replace h := of_analysis h
  split at h
  · cases h
    exact ⟨rfl, rfl, rfl, rfl, rfl, rfl⟩
  · rename_i issue hissue
    exact Silent.report (Config.isError_set hissue).ordinary s result s' h

lemma defineFunction (context : Context) (name : String) (returnType : Ty) (header : Header) :
    Silent (declare context fun ds => ds.defineFunction name returnType header) := by
  intro s result s' h
  replace h := of_analysis h
  split at h
  · rename_i ds hds
    cases h
    rcases Declarations.eq_of_defineFunction hds with ⟨-, rfl⟩ | ⟨_, -, -, -, rfl⟩ <;>
      exact ⟨rfl, rfl, rfl, rfl, rfl, rfl⟩
  · rename_i issue hissue
    exact Silent.report (Declarations.isError_defineFunction hissue).ordinary s result s' h

lemma declareRule (context : Context) (name : String) (schedule : Schedule) (line : Nat) :
    Silent (declare context fun ds => ds.defineRule name schedule line) := by
  intro s result s' h
  replace h := of_analysis h
  split at h
  · rename_i ds hds
    cases h
    obtain ⟨-, rfl⟩ := Declarations.eq_of_defineRule hds
    exact ⟨rfl, rfl, rfl, rfl, rfl, rfl⟩
  · rename_i issue hissue
    exact Silent.report (Declarations.isError_defineRule hissue).ordinary s result s' h

lemma wrongReturns (context : Context) (expected : Ty) (label : String) (body : List Stmt) :
    Silent (wrongReturns context expected label body) :=
  analysis.bind fun _ => reportAll fun x hx => (Stmt.isError_blockWrongReturns body x hx).ordinary

lemma functionOutcome (context : Context) (f : FunctionDef) : Silent (functionOutcome context f) := by
  unfold Inspect.functionOutcome
  split
  · exact reportUnless _ rfl
  · exact reportUnless _ rfl

end Silent

lemma follows_global (g : GlobalDef) (before : List Occurrence) :
    Follows types file [] before (Program.globalOccurrences g) g.value.ids True (fun _ => True) (global g) := by
  have hplace : (Context.ofDefinition .global g.name g.line).definition = some ⟨.global, g.name, g.line⟩ := rfl
  rw [← append_nil g.value.ids]
  refine (follows_exprType hplace g.value before).andThen (fun type => ?_)
    (apart_of_flat fun o ho => (g.value.flat_occurrences o ho).2)
  dsimp only
  split
  · exact (Silent.report rfl).andFollows fun _ => follows_defineGlobal g.name g.type g.line
  · exact follows_defineGlobal g.name g.type g.line

lemma follows_params {place : Place} (number : Nat) (params : List Param) (before : List Occurrence) :
    Follows types file [number] before
      (params.map fun p => ⟨p.name, p.line, [number], place, .declaration (.written p.type)⟩) [] True (fun _ => True)
      (each (param context) params) := by
  induction params generalizing before with
  | nil => exact (Silent.pure _).follows
  | cons p rest ih =>
    exact (follows_declareWritten p.name p.type p.line).andThen (fun _ => ih _)
      (apart_of_flat fun o ho => by rw [mem_singleton.mp ho])

lemma inside_functionOccurrences (number : Nat) (f : FunctionDef) :
    Inside ⟨.function, f.name, f.line⟩ [number] (Set.Ici 0) (Program.functionOccurrences number f) := by
  refine (inside_of_flat fun o ho => ?_).append (Stmt.inside_blockOccurrences _ _ _)
  obtain ⟨p, -, rfl⟩ := mem_map.mp ho
  exact ⟨rfl, rfl⟩

lemma follows_function (number : Nat) (f : FunctionDef) (before : List Occurrence)
    (hnew : Unopened before [] {number}) :
    Follows types file [] before (Program.functionOccurrences number f) (Stmt.blockIds f.body) True (fun _ => True)
      (function f) := by
  have hplace : (functionContext f).definition = some ⟨.function, f.name, f.line⟩ := rfl
  have hflat : ∀ o ∈ f.params.map fun p => (⟨p.name, p.line, [number], ⟨.function, f.name, f.line⟩,
      .declaration (.written p.type)⟩ : Occurrence), o.blocks = [number] := by
    intro o ho
    obtain ⟨p, -, rfl⟩ := mem_map.mp ho
    rfl
  let checks : Inspect Unit :=
    wrongReturns (functionContext f) f.returnType ("function '" ++ f.name ++ "'") f.body >>= fun _ =>
      reportAll (functionContext f) ((blockScoreLines f.body).map fun line => (.scoreInFunction, line)) >>= fun _ =>
        functionOutcome (functionContext f) f >>= fun _ => reportAll (functionContext f) (blockUnreachable f.body)
  have hscores : ∀ x ∈ (blockScoreLines f.body).map fun line => (Issue.scoreInFunction, line),
      x.1.isOrdinary = true := forall_mem_map.mpr fun _ _ => rfl
  have hchecks : Silent checks :=
    (Silent.wrongReturns _ _ _ _).bind fun _ => (Silent.reportAll hscores).bind fun _ =>
      (Silent.functionOutcome _ _).bind fun _ => .reportAll (Stmt.isOrdinary_blockUnreachable _)
  have hbody : Follows types file [number] before (Program.functionOccurrences number f) (Stmt.blockIds f.body) True
      (fun _ => True) (each (param (functionContext f)) f.params >>= fun _ =>
        statements (functionContext f) f.body >>= fun _ => checks) :=
    (follows_params number f.params before).andThen (fun _ =>
      (follows_statements f.body hplace number [] 0 _ ((hnew.inner rfl).append (unopened_of_flat hflat))).andSilent
        fun _ => hchecks) (apart_of_flat hflat)
  exact hbody.block hplace hnew (inside_functionOccurrences number f)

lemma follows_guard {place : Place} (hplace : context.definition = some place) (name : String) (value : Option Expr)
    (before : List Occurrence) :
    Follows types file [] before (value.toList.flatMap (Expr.occurrences place [])) (value.toList.flatMap Expr.ids)
      True (fun _ => True) (guard context name value) := by
  cases value with
  | none => exact (Silent.pure _).follows
  | some e =>
    have hmoved : (context.moveTo e.line).definition = some place := hplace
    rw [Option.toList_some, flatMap_singleton, flatMap_singleton]
    exact (follows_exprType hmoved e before).andSilent fun _ => .reportUnless _ rfl

lemma follows_rule (number : Nat) (r : RuleDef) (before : List Occurrence) (hnew : Unopened before [] {number}) :
    Follows types file [] before (Program.ruleOccurrences number r)
      (r.guard.toList.flatMap Expr.ids ++ Stmt.blockIds r.body) True (fun _ => True) (rule r) := by
  have hplace : (Context.ofDefinition .rule r.name r.line).definition = some ⟨.rule, r.name, r.line⟩ := rfl
  have hflat : ∀ o ∈ r.guard.toList.flatMap (Expr.occurrences ⟨.rule, r.name, r.line⟩ []), o.blocks = [] :=
    fun o ho => (Expr.flat_flatMap_occurrences _ o ho).2
  let checks : Inspect Unit :=
    wrongReturns (.ofDefinition .rule r.name r.line) .void ("rule '" ++ r.name ++ "'") r.body >>= fun _ =>
      (if !blockScores r.body then report (.ofDefinition .rule r.name r.line) (.noScoreInRule r.name)
        else pure ()) >>= fun _ =>
        reportAll (.ofDefinition .rule r.name r.line) (blockUnreachable r.body)
  have hchecks : Silent checks :=
    (Silent.wrongReturns _ _ _ _).bind fun _ => (Silent.reportUnless _ rfl).bind fun _ =>
      .reportAll (Stmt.isOrdinary_blockUnreachable _)
  have hunopened := hnew.append (unopened_of_flat hflat)
  have hbody : Follows types file [] _ _ (Stmt.blockIds r.body) True (fun _ => True) _ :=
    ((follows_statements r.body hplace number [] 0 _ (hunopened.inner rfl)).andSilent fun _ => hchecks).block hplace
      hunopened (Stmt.inside_blockOccurrences _ _ _)
  have hshape : rule r = reportAll (.ofDefinition .rule r.name r.line) (wrongOptions [] r.options) >>= fun _ =>
      declare (.ofDefinition .rule r.name r.line) (fun ds => ds.defineRule r.name (schedule r.options) r.line) >>= fun _ =>
        guard (.ofDefinition .rule r.name r.line) r.name r.guard >>= fun _ => openScope >>= fun _ =>
          (statements (.ofDefinition .rule r.name r.line) r.body >>= fun _ => checks) >>= fun _ =>
            closeScope (.ofDefinition .rule r.name r.line) := by
    unfold rule
    dsimp only [checks]
    split <;> rfl
  rw [hshape]
  exact (Silent.reportAll fun x hx => (isError_wrongOptions _ _ x hx).ordinary).andFollows fun _ =>
    (Silent.declareRule _ _ _ _).andFollows fun _ =>
      (follows_guard hplace r.name r.guard before).andThen (fun _ => hbody) (apart_of_flat hflat)

section Numbered

variable {α : Type} {step : α → Inspect Unit} {names : Nat → α → List Occurrence} {ids : α → List Nat}
  (hinside : ∀ number a, ∃ place, Inside place [] {number} (names number a))
include hinside

lemma unopened_numbered (items : List α) (hout : number < next ∨ next + items.length ≤ number) :
    Unopened (Program.numbered names next items) [] {number} := by
  induction items generalizing next with
  | nil => exact fun o ho => by cases ho
  | cons a rest ih =>
    obtain ⟨place, ha⟩ := hinside next a
    rw [length_cons] at hout
    refine (ha.unopened fun k hk hk' => ?_).append (ih (by omega))
    have hnext : k = next := hk
    have hnumber : k = number := hk'
    omega

lemma apart_numbered (items : List α) {os : List Occurrence}
    (hos : ∀ k, next ≤ k → k < next + items.length → Unopened os [] {k}) :
    Apart [] (Program.numbered names next items) os := by
  induction items generalizing next with
  | nil => exact fun d hd => by cases hd
  | cons a rest ih =>
    obtain ⟨place, ha⟩ := hinside next a
    rw [length_cons] at hos
    refine forall_mem_append.mpr ⟨ha.apart (hos next (by omega) (by omega)), ih fun k hlow hhigh => ?_⟩
    exact hos k (by omega) (by omega)

lemma follows_numbered (hstep : ∀ number a before, Unopened before [] {number} →
      Follows types file [] before (names number a) (ids a) True (fun _ => True) (step a))
    (items : List α) (next : Nat) (before : List Occurrence) (hnew : Unopened before [] (Set.Ici next)) :
    Follows types file [] before (Program.numbered names next items) (items.flatMap ids) True (fun _ => True)
      (each step items) := by
  induction items generalizing next before with
  | nil => exact (Silent.pure _).follows
  | cons a rest ih =>
    obtain ⟨place, ha⟩ := hinside next a
    have hnext : Unopened before [] {next} := hnew.mono (by simp)
    have hlater : Unopened (before ++ names next a) [] (Set.Ici (next + 1)) := by
      refine (hnew.mono (Set.Ici_subset_Ici.mpr (Nat.le_succ _))).append (ha.unopened fun k hk hk' => ?_)
      have heq : k = next := hk
      have hle : next + 1 ≤ k := hk'
      omega
    exact (hstep next a before hnext).andThen (fun _ => ih (next + 1) _ hlater)
      (ha.apart (unopened_numbered hinside rest (.inl (Nat.lt_succ_self _))))

end Numbered

lemma flat_globalOccurrences (g : GlobalDef) : ∀ o ∈ Program.globalOccurrences g, o.blocks = [] := by
  refine forall_mem_append.mpr ⟨fun o ho => (g.value.flat_occurrences o ho).2, fun o ho => ?_⟩
  rw [mem_singleton.mp ho]

lemma follows_globals (gs : List GlobalDef) (before : List Occurrence) :
    Follows types file [] before (gs.flatMap Program.globalOccurrences) (gs.flatMap fun g => g.value.ids) True
      (fun _ => True) (each global gs) := by
  induction gs generalizing before with
  | nil => exact (Silent.pure _).follows
  | cons g rest ih =>
    refine (follows_global g before).andThen (fun _ => ih _) (apart_of_flat (flat_globalOccurrences g))

lemma inside_function (number : Nat) (f : FunctionDef) :
    ∃ place, Inside place [] {number} (Program.functionOccurrences number f) :=
  ⟨_, (inside_functionOccurrences number f).outer rfl⟩

lemma inside_rule (number : Nat) (r : RuleDef) :
    ∃ place, Inside place [] {number} (Program.ruleOccurrences number r) :=
  ⟨_, (inside_of_flat (Expr.flat_flatMap_occurrences _)).append ((Stmt.inside_blockOccurrences _ _ _).outer rfl)⟩

/-- What happens before the definitions of a program are checked says nothing about its variables. -/
lemma of_program_silent {p : Program} {s s' : Inspection} {result : Unit} (h : (program p).run s = (result, s')) :
    ∃ t, s.Alike t ∧ (definitions p).run t = (result, s') := by
  simp only [program, runState_bind] at h
  obtain ⟨_, t₁, hsettings, _, t₂, hpredefined, _, t₃, hregister, hrest⟩ := h
  refine ⟨t₃, ?_, by simpa only [definitions, runState_bind] using hrest⟩
  have h₁ := Silent.each Silent.setting p.config _ _ _ hsettings
  have h₂ := Silent.each (fun _ => Silent.defineFunction _ _ _ _) Predefined.all _ _ _ hpredefined
  have h₃ := Silent.each (fun _ => Silent.defineFunction _ _ _ _) p.functions _ _ _ hregister
  exact (h₁.trans h₂).trans h₃

/-- The analysis of the definitions of a program goes through all its names. -/
theorem follows_definitions (p : Program) :
    Follows types file [] [] p.occurrences
      (p.globals.flatMap (fun g => g.value.ids) ++ (p.functions.flatMap (fun f => Stmt.blockIds f.body) ++
        p.rules.flatMap fun r => r.guard.toList.flatMap Expr.ids ++ Stmt.blockIds r.body))
      True (fun _ => True)
      (each global p.globals >>= fun _ => each function p.functions >>= fun _ => each rule p.rules) := by
  have hglobals : ∀ o ∈ p.globals.flatMap Program.globalOccurrences, o.blocks = [] := by
    intro o ho
    obtain ⟨g, -, hg⟩ := mem_flatMap.mp ho
    exact flat_globalOccurrences g o hg
  have hfunctions : Unopened (Program.numbered Program.functionOccurrences 0 p.functions) []
      (Set.Ici p.functions.length) := by
    intro o ho k hk
    have hout : 0 + p.functions.length ≤ k := by simpa using hk
    exact unopened_numbered inside_function p.functions (.inr hout) o ho k rfl
  refine (follows_globals p.globals []).andThen (fun _ => ?_) (apart_of_flat hglobals)
  refine (follows_numbered inside_function follows_function p.functions 0 _ (unopened_of_flat hglobals)).andThen
    (fun _ => ?_) ?_
  · exact follows_numbered inside_rule follows_rule p.rules p.functions.length _
      ((unopened_of_flat hglobals).append hfunctions)
  · refine apart_numbered inside_function p.functions fun k _ hk => ?_
    exact unopened_numbered inside_rule p.rules (.inl (by omega))

end Definitions

end Inspect

namespace Program

variable {p : Program} {tokens : List Token} {file : String}

lemma perm_unread (os : List Occurrence) :
    (closed [] [] os ++ (declared [] os).filter fun d => d.blocks = [] ∧ d ∉ meant [] os).Perm (unread os) := by
  have hsplit := filter_append_perm (fun d => decide (d.blocks ≠ [])) (unread os)
  simpa [unread, closed, filter_filter] using hsplit

lemma perm_globalWarnings (types : TypeTable) (file : String) (os : List Occurrence) :
    ((scope types os []).unused.map fun x => (⟨⟨.unusedGlobal x.1, x.2, file⟩, none⟩ : Diagnostic)).Perm
      (((declared [] os).filter fun d => d.blocks = [] ∧ d ∉ meant [] os).map (unusedWarning file)) := by
  refine ((perm_unused types os []).map _).trans (.of_eq ?_)
  rw [map_map]
  refine map_congr_left fun d hd => ?_
  have hblocks : d.blocks = [] := (of_decide_eq_true (mem_filter.mp hd).2).1
  simp [unusedWarning, hblocks]

/-- Every identifier of a program that can be read gets the type of the declaration that it means: the first one
in the innermost block around it that declares its name before it, or else the first global of its name. Identifiers
without a meaning are reported as undeclared, and the declarations that no identifier means as unused. -/
theorem names_are_lexical (hread : (Program.ofTokens tokens file).1 = .ok p) (ds : Diagnostics) :
    (∀ m name, .identifier m name ∈ p.nodes ↔ ∃ o ∈ p.occurrences, o.IsNode m name) ∧
      (∀ x ∈ placed [] p.occurrences, x.2.Typed (p.check ds).1.types x.1) ∧
      (p.check ds).2.undeclared =
        ds.undeclared ++ (Occurrence.undeclared [] p.occurrences).map (undeclaredError p.file) ∧
      (p.check ds).2.unused.Perm (ds.unused ++ (unread p.occurrences).map (unusedWarning p.file)) := by
  have hnodup := (wellFormed_of_ofTokens hread).nodup
  rcases hrun : (Inspect.program p).run ⟨p.file, Analysis.initial p.exprCount, ds⟩ with ⟨result, final⟩
  have hcheck : p.check ds = (final.analysis, final.diagnostics) := by rw [Program.check, hrun]
  rw [hcheck]
  obtain ⟨t, hsilent, hrun⟩ := Inspect.of_program_silent hrun
  have hrun : ((Inspect.each Inspect.global p.globals >>= fun _ => Inspect.each Inspect.function p.functions >>= fun _ =>
      Inspect.each Inspect.rule p.rules) >>= fun _ => Inspect.unusedGlobals).run t = (result, final) := hrun
  obtain ⟨_, u, hdefinitions, hrun⟩ := runState_bind.mp hrun
  obtain ⟨_, v, hv, hglobals⟩ := runState_bind.mp hrun
  cases hv
  obtain ⟨hfile, hanalysis, hundeclared, hunused⟩ := Inspect.of_each_report (fun _ _ _ => rfl) hglobals
  have hfresh := fresh_of_types hnodup hsilent.types
  have hstart : t.At final.analysis.types p.file [] [] := ⟨hsilent.file, hsilent.scopes, hsilent.globals⟩
  have hwithin : u.Within final.analysis.types := fun id type hid => by rwa [hanalysis]
  obtain ⟨-, hpass⟩ := (Inspect.follows_definitions p t _ u hdefinitions).2 trivial hfresh hwithin hstart
  refine ⟨fun m name => p.exists_occurrence.symm, hpass.typed, ?_, ?_⟩
  · rw [hundeclared, hpass.undeclared, hsilent.undeclared]
  · rw [hunused, ← hsilent.unused]
    have hunread := perm_globalWarnings final.analysis.types p.file p.occurrences
    rw [← hpass.reached.file] at hunread
    have hscope : u.analysis.declarations.globals = scope final.analysis.types p.occurrences [] := hpass.reached.globals
    rw [← hscope] at hunread
    refine (hpass.unused.append hunread).trans ?_
    rw [append_assoc, hpass.reached.file, ← map_append]
    exact ((perm_unread p.occurrences).map _).append_left _

/-- A name in its own initial value, one that is declared twice, one that an inner block shadows and one in a guard. -/
theorem names_are_lexical_shadowed :
    ∃ p tokens, (Program.ofTokens tokens "").1 = .ok p ∧
      ((Occurrence.undeclared [] p.occurrences).map Occurrence.name = ["g", "h"] ∧
        (unread p.occurrences).map (fun o => (o.name, o.blocks)) = [("x", [0]), ("y", [0, 0]), ("g", [1])]) ∧
      (∀ m name, .identifier m name ∈ p.nodes ↔ ∃ o ∈ p.occurrences, o.IsNode m name) ∧
      (∀ x ∈ placed [] p.occurrences, x.2.Typed (p.check {}).1.types x.1) ∧
      (p.check {}).2.undeclared =
        [] ++ (Occurrence.undeclared [] p.occurrences).map (undeclaredError p.file) ∧
      (p.check {}).2.unused.Perm ([] ++ (unread p.occurrences).map (unusedWarning p.file)) := by
  have hrun : ((Program.ofSource ("num g := g; num f(num x, bool x) \x7b forall (x in [true]) \x7b bool y := x; \x7d " ++
      "return h; \x7d rule r doif g == 1 \x7b bool g; score 1; \x7d") "").toOption.any fun p =>
        (Occurrence.undeclared [] p.occurrences).map Occurrence.name = ["g", "h"] ∧
          (unread p.occurrences).map (fun o => (o.name, o.blocks)) = [("x", [0]), ("y", [0, 0]), ("g", [1])]) = true := by
    decide +kernel
  obtain ⟨p, hread, htest⟩ := (Option.any_eq_true _ _).mp hrun
  obtain ⟨tokens, htokens⟩ := tokens_of_ofSource (of_toOption hread)
  exact ⟨p, tokens, htokens, of_decide_eq_true htest, names_are_lexical htokens {}⟩

end Program

end ChessEval
