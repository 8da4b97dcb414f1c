import ChessEval.Proofs.Bindings
import ChessEval.Proofs.DeclaredRules

/-!
# Phases in code

The function of a phase adds up the rules that run in it, and takes off those of the rival. Which rules these
are is read here from the tags in the source: checking turns the tags into schedules, and no later pass changes
those.
-/

namespace ChessEval

open List

def RuleDef.carries (r : RuleDef) (tag : String) : Bool :=
  r.options.any fun o => o.name == tag

namespace Program

/-- The rules that run in a phase: those with its tag, and those with the tag of no phase. -/
def rulesIn (p : Program) (ph : Phase) : List RuleDef :=
  p.rules.filter fun r => r.carries ph.tag || !Phase.all.any fun other => r.carries other.tag

def symmetricIn (p : Program) (ph : Phase) : List RuleDef :=
  (p.rulesIn ph).filter fun r => r.carries "sym"

def phaseBody (p : Program) (ph : Phase) : List String :=
  ["long int score = 0;"] ++ (p.rulesIn ph).map (fun r => "score += rule_" ++ r.name ++ "();") ++ ["reset();"] ++
    (if p.symmetricIn ph = [] then [] else
      "invert_players();" :: (p.symmetricIn ph).map fun r => "score -= rule_" ++ r.name ++ "();") ++
    ["return score;"]

end Program

/-! ### From tags to schedules -/

lemma Phase.mem_all (ph : Phase) : ph ∈ Phase.all := by
  cases ph <;> decide

lemma Phase.ofTag?_eq_some {tag : String} {ph : Phase} : Phase.ofTag? tag = some ph ↔ tag = ph.tag := by
  constructor
  · intro h
    rw [Phase.ofTag?] at h
    have hfound := find?_some h
    exact (beq_iff_eq.mp hfound).symm
  · rintro rfl
    cases ph <;> rfl

lemma Schedule.runsIn_ofPhases (phases : List Phase) (symmetric : Bool) (ph : Phase) :
    (Schedule.ofPhases phases symmetric).runsIn ph = (phases.contains ph || phases.isEmpty) := by
  cases phases with
  | nil => simpa [Schedule.ofPhases, Schedule.runsIn] using ph.mem_all
  | cons first rest =>
    rw [Bool.eq_iff_iff]
    simp [Schedule.ofPhases, Schedule.runsIn, ph.mem_all]

namespace Inspect

lemma runsIn_schedule (r : RuleDef) (ph : Phase) :
    (schedule r.options).runsIn ph = (r.carries ph.tag || !Phase.all.any fun other => r.carries other.tag) := by
  have htags : ∀ other, (r.options.filterMap fun o => Phase.ofTag? o.name).contains other = r.carries other.tag := by
    intro other
    rw [Bool.eq_iff_iff, contains_iff_mem, mem_filterMap, RuleDef.carries, any_eq_true]
    simp only [Phase.ofTag?_eq_some, beq_iff_eq]
  rw [schedule, Schedule.runsIn_ofPhases, htags ph]
  congr 1
  simp only [← htags]
  cases r.options.filterMap fun o => Phase.ofTag? o.name with
  | nil => rfl
  | cons first rest =>
    have hfirst : (Phase.all.any fun other => (first :: rest).contains other) = true :=
      any_eq_true.mpr ⟨first, first.mem_all, by simp⟩
    rw [hfirst]
    rfl

end Inspect

/-! ### Where the functions of phases stand -/

namespace Code

/-- The line that opens the function of a phase. -/
def phaseHead : Phase → Line
  | .opening => .top "long int opn_eval() \x7b"
  | .midgame => .top "long int mid_eval() \x7b"
  | .endgame => .top "long int end_eval() \x7b"

/-- A line that opens no function of a phase: it is inside of a block, or it starts otherwise. -/
def Plain (line : Line) : Prop :=
  line.level = 0 → line.text.toList.head? ≠ some 'l' ∨ "long int rule_".toList <+: line.text.toList

instance : DecidablePred Plain := fun line =>
  inferInstanceAs (Decidable (line.level = 0 → _ ∨ _))

lemma Plain.ne_phaseHead {line : Line} (h : Plain line) (ph : Phase) : line ≠ phaseHead ph := by
  rintro rfl
  cases ph <;> rcases h rfl with h | h <;> simp [phaseHead, Line.top] at h

lemma plain_of_level {line : Line} (h : line.level ≠ 0) : Plain line :=
  fun hzero => absurd hzero h

lemma plain_settings (config : Config) : ∀ text ∈ settings config, Plain (.top text) := by
  rw [settings, forall_mem_cons, forall_mem_map]
  exact ⟨by decide, fun setting _ _ => .inl (by simp [Line.top])⟩

end Code

lemma Ty.plain_spelling (type : Ty) (rest : String) : Code.Plain (.top (type.spelling ++ (" " ++ rest))) := by
  intro _
  left
  cases type with
  | array element =>
    unfold Ty.spelling Ty.code
    cases element.code <;> simp [Except.toOption, Code.Line.top]
  | _ => simp [Ty.spelling, Ty.code, Except.toOption, Code.Line.top]

namespace Target

mutual

lemma Step.le_level {level : Nat} (step : Step) : ∀ line ∈ step.lines level, level ≤ line.level := by
  intro line hline
  cases step with
  | row r =>
    rw [mem_singleton.mp hline]
  | block head body =>
    simp only [Step.lines, mem_append, mem_singleton] at hline
    rcases hline with (rfl | hbody) | rfl
    · exact le_refl _
    · exact Nat.le_of_succ_le (Step.le_level_all body line hbody)
    · exact le_refl _
  | choose head body other =>
    simp only [Step.lines, mem_append, mem_singleton] at hline
    rcases hline with (((rfl | hbody) | rfl) | hother) | rfl
    · exact le_refl _
    · exact Nat.le_of_succ_le (Step.le_level_all body line hbody)
    · exact le_refl _
    · exact Nat.le_of_succ_le (Step.le_level_all other line hother)
    · exact le_refl _

lemma Step.le_level_all {level : Nat} (steps : List Step) :
    ∀ line ∈ Step.allLines level steps, level ≤ line.level := by
  intro line hline
  cases steps with
  | nil => cases hline
  | cons step rest =>
    rcases mem_append.mp hline with h | h
    · exact step.le_level line h
    · exact Step.le_level_all rest line h

end

/-- A part of a file in which no function of a phase is opened. -/
def Item.Plain (item : Item) : Prop :=
  ∀ line ∈ item.code, Code.Plain line

lemma Item.plain_function {head : Head} {body : List Step} (h : Code.Plain (.top (head.code ++ " \x7b"))) :
    (Item.function head body).Plain := by
  intro line hline
  simp only [Item.code, mem_append, mem_singleton] at hline
  rcases hline with (rfl | hbody) | rfl
  · exact h
  · exact Code.plain_of_level (Nat.ne_of_gt (Step.le_level_all body line hbody))
  · exact fun _ => .inl (by decide)

end Target

namespace Translate

open Target

lemma plain_functionHead (f : FunctionDef) (rest : String) : Code.Plain (.top ((functionHead f).code ++ rest)) := by
  simp only [Head.code, functionHead, String.append_assoc]
  exact f.returnType.plain_spelling _

lemma plain_ruleHead (r : RuleDef) (rest : String) : Code.Plain (.top ((ruleHead r).code ++ rest)) :=
  fun _ => .inr (by simp [ruleHead, Head.code, Code.call, Code.ruleName, Code.Line.top])

lemma plain_declare (type : Ty) (name : String) (value : Option Term) :
    (Item.global (.declare type.spelling name value)).Plain := by
  intro line hline
  rw [mem_singleton.mp hline]
  cases value with
  | none =>
    simp only [Row.code, String.append_assoc]
    exact type.plain_spelling _
  | some term =>
    simp only [Row.code, String.append_assoc]
    exact type.plain_spelling _

lemma plain_globals {s : Code.Scene} {deferred : List String} {next : Nat} {gs : List GlobalDef} :
    ∀ item ∈ (globals s deferred next gs).items, item.Plain := by
  induction gs generalizing deferred next with
  | nil => simp [globals]
  | cons g rest ih =>
    rw [globals]
    dsimp only
    split
    · exact forall_mem_cons.mpr ⟨plain_declare _ _ _, ih⟩
    · exact forall_mem_cons.mpr ⟨plain_declare _ _ _, ih⟩

lemma plain_separated {α : Type} {item : Nat → α → Item × Nat} (hitem : ∀ next x, (item next x).1.Plain)
    {next : Nat} {xs : List α} : ∀ part ∈ (separated item next xs).1, part.Plain := by
  induction xs generalizing next with
  | nil => simp [separated]
  | cons x rest ih =>
    rw [separated]
    refine forall_mem_cons.mpr ⟨?_, forall_mem_cons.mpr ⟨hitem next x, ih⟩⟩
    intro line hline
    rw [mem_singleton.mp hline]
    exact fun _ => .inl (by decide)

lemma exists_front (p : Program) (a : Analysis) :
    ∃ front, (∀ line ∈ front, Code.Plain line) ∧ (file p a).flatMap Item.code =
      front ++ Phase.all.flatMap fun ph => .top "" :: phaseLines a.declarations.rules ph := by
  have hincludes : ∀ text ∈ Code.includes, Code.Plain (.top text) := by decide
  have hempty : Code.Plain (.top "") := by decide
  have hrules : ∀ r ∈ p.rules, Code.Plain (.top ("long int " ++ Code.ruleName r.name ++ "();")) :=
    fun r _ _ => .inr (by simp [Code.ruleName, Code.Line.top])
  have hprototypes : ∀ f ∈ p.functions, Code.Plain (.top ((functionHead f).code ++ ";")) :=
    fun f _ => plain_functionHead f _
  refine ⟨(file p a).dropLast.flatMap Item.code, ?_, ?_⟩
  · rw [file, dropLast_concat]
    refine forall_mem_flatMap.mpr ?_
    simp only [forall_mem_append, forall_mem_cons, forall_mem_map, not_mem_nil, false_implies,
      implies_true, and_true, Item.code_lines, Code.Line.all, and_assoc]
    refine ⟨hincludes, hempty, Code.plain_settings _, hempty, by decide, plain_globals, hempty, by decide, ?_, hempty,
      by decide, hrules, hempty, ?_, ?_, ?_⟩
    · exact fun f hf line hline => mem_singleton.mp hline ▸ hprototypes f hf
    · exact Item.plain_function (by decide)
    · exact plain_separated fun _ f => Item.plain_function (plain_functionHead f _)
    · exact plain_separated fun _ r => Item.plain_function (plain_ruleHead r _)
  · rw [file, dropLast_concat, flatMap_append, flatMap_singleton, Item.code_lines]

end Translate

namespace Code

lemma symmetric_schedule (r : RuleDef) : (Inspect.schedule r.options).symmetric = r.carries "sym" := by
  unfold Inspect.schedule Schedule.ofPhases
  split <;> rfl

lemma phase_eq (p : Program) (ph : Phase) :
    Translate.phaseLines (p.rules.map Inspect.ruleEntry) ph =
      [phaseHead ph] ++ Line.all 1 (p.phaseBody ph) ++ [.top "\x7d"] := by
  have hactive : (p.rules.map Inspect.ruleEntry).filter (fun r => r.schedule.runsIn ph) =
      (p.rulesIn ph).map Inspect.ruleEntry := by
    rw [filter_map, Program.rulesIn]
    simp only [Function.comp_def, Inspect.ruleEntry, Inspect.runsIn_schedule]
  have hsymmetric : ((p.rulesIn ph).map Inspect.ruleEntry).filter (fun r => r.schedule.symmetric) =
      (p.symmetricIn ph).map Inspect.ruleEntry := by
    rw [filter_map, Program.symmetricIn]
    simp only [Function.comp_def, Inspect.ruleEntry, symmetric_schedule]
  have hadd : ∀ name, "score += " ++ ruleName name ++ "();" = "score += rule_" ++ name ++ "();" := fun name =>
    String.toList_inj.mp (by simp [ruleName])
  have htake : ∀ name, "score -= " ++ ruleName name ++ "();" = "score -= rule_" ++ name ++ "();" := fun name =>
    String.toList_inj.mp (by simp [ruleName])
  have hhead : Line.top ("long int " ++ phaseName ph ++ "() \x7b") = phaseHead ph := by
    cases ph <;> rfl
  rw [Translate.phaseLines, phaseTexts, hactive, hsymmetric, Program.phaseBody, hhead]
  simp only [map_map, Function.comp_def, isEmpty_map, List.isEmpty_iff, Inspect.ruleEntry, hadd, htake]

lemma phaseHead_notMem_phase {ph other : Phase} (h : other ≠ ph) (rules : List RuleEntry) :
    phaseHead ph ∉ Translate.phaseLines rules other := by
  intro hmem
  simp only [Translate.phaseLines, Line.all, mem_append, mem_singleton, mem_map] at hmem
  rcases hmem with (hhead | ⟨text, -, hbody⟩) | hend
  · revert h hhead
    cases ph <;> cases other <;> simp [phaseHead, Line.top, phaseName]
  · cases ph <;> cases hbody
  · revert hend
    cases ph <;> simp [phaseHead, Line.top]

lemma exists_phase {lines front : List Line} {rules : List RuleEntry} (hfront : ∀ line ∈ front, Plain line)
    (hlines : lines = front ++ Phase.all.flatMap fun ph => .top "" :: Translate.phaseLines rules ph) (ph : Phase) :
    ∃ before after, lines = before ++ Translate.phaseLines rules ph ++ after ∧
      phaseHead ph ∉ before ∧ phaseHead ph ∉ after := by
  obtain ⟨earlier, later, hall⟩ := append_of_mem ph.mem_all
  have hnodup : (earlier ++ ph :: later).Nodup := hall ▸ by decide
  have hothers : ∀ phases : List Phase, ph ∉ phases →
      phaseHead ph ∉ phases.flatMap fun other => .top "" :: Translate.phaseLines rules other := by
    intro phases hph hmem
    obtain ⟨other, hother, hmem⟩ := mem_flatMap.mp hmem
    rcases mem_cons.mp hmem with hempty | hmem
    · exact absurd hempty.symm (Plain.ne_phaseHead (by decide) ph)
    · exact phaseHead_notMem_phase (ne_of_mem_of_not_mem hother hph) rules hmem
  have hapart := nodup_middle.mp hnodup
  obtain ⟨hph, -⟩ := nodup_cons.mp hapart
  rw [mem_append, not_or] at hph
  refine ⟨front ++ (earlier.flatMap fun other => .top "" :: Translate.phaseLines rules other) ++ [.top ""],
    later.flatMap fun other => .top "" :: Translate.phaseLines rules other, ?_, ?_, hothers later hph.2⟩
  · rw [hlines, hall]
    simp [flatMap_append]
  · simp only [mem_append, mem_singleton, not_or]
    refine ⟨⟨fun hmem => (hfront _ hmem).ne_phaseHead ph rfl, hothers earlier hph.1⟩, fun hempty => ?_⟩
    exact absurd hempty.symm (Plain.ne_phaseHead (by decide) ph)

end Code

namespace Compilation

/-- In the code of every program that is generated, the function of each phase adds up the rules that have its tag or the
tag of no phase, in the order of the source, and takes off the symmetric ones among them after the players have changed
sides. No rule is called twice in either sum, and the function is opened once. The output is
the lines, each with a newline after it. -/
theorem phases_follow_tags {source file : String} {p : Program} {rs : List Request} {c : Compilation}
    (hread : Program.ofSource source file = .ok p) (hreach : (ofProgram p).requests rs = some c)
    (hstage : c.stage = .generated) :
    ∃ a lines, c.analysis = some a ∧ Code.lines p a = .ok lines ∧ c.output = some (Code.render lines) ∧
      Code.Shows (Code.render lines) lines ∧ ∀ ph : Phase,
      (∃ before after, lines = before ++ ([Code.phaseHead ph] ++ Code.Line.all 1 (p.phaseBody ph) ++ [.top "\x7d"]) ++
        after ∧ Code.phaseHead ph ∉ before ∧ Code.phaseHead ph ∉ after) ∧
      ((p.rulesIn ph).map RuleDef.name).Nodup ∧ ((p.symmetricIn ph).map RuleDef.name).Nodup := by
  obtain ⟨tokens, htokens⟩ := Program.tokens_of_ofSource hread
  obtain ⟨a, a', ds, ds', text, hcheck, hclean, hinfer, hclean', hcode, rfl⟩ :=
    (reaches_of_requests hreach).of_generated hstage
  obtain ⟨u, -, rfl⟩ := Program.inferred_of_infer htokens hcheck hclean hinfer hclean'
  obtain ⟨hrules, hnodup⟩ := Program.rules_of_check hcheck hclean
  obtain ⟨lines, hlines, rfl⟩ := Code.lines_of_generate hcode
  refine ⟨_, lines, rfl, hlines, rfl, Code.shows_of_lines hlines, fun ph => ⟨?_, hnodup.sublist (filter_sublist.map _),
    hnodup.sublist ((filter_sublist.trans filter_sublist).map _)⟩⟩
  obtain ⟨front, hfront, hfile⟩ := Translate.exists_front p (a.withTypes p u)
  rw [← Code.phase_eq, ← hrules]
  exact Code.exists_phase hfront ((Translate.lines_eq hlines).trans hfile) ph

/-- A symmetric rule of one phase, a rule of all phases, and a rule of another phase. -/
theorem phases_follow_tags_mixed :
    ∃ p c a lines before after,
      Program.ofSource ("rule A (sym, opening) \x7b score 1; \x7d rule B \x7b score 2; \x7d " ++
        "rule C (endgame) \x7b score 3; \x7d") "" = .ok p ∧
      (ofProgram p).requests [.run] = some c ∧ c.stage = .generated ∧ c.analysis = some a ∧
      Code.lines p a = .ok lines ∧ c.output = some (Code.render lines) ∧
      lines = before ++ ([Code.phaseHead .opening] ++ Code.Line.all 1 ["long int score = 0;", "score += rule_A();",
        "score += rule_B();", "reset();", "invert_players();", "score -= rule_A();", "return score;"] ++
        [.top "\x7d"]) ++ after ∧
      p.phaseBody .endgame = ["long int score = 0;", "score += rule_B();", "score += rule_C();", "reset();",
        "return score;"] := by
  have hrun : Program.compilesWith ("rule A (sym, opening) \x7b score 1; \x7d rule B \x7b score 2; \x7d " ++
      "rule C (endgame) \x7b score 3; \x7d") [.run] (fun p _ =>
        decide (p.phaseBody .opening = ["long int score = 0;", "score += rule_A();", "score += rule_B();", "reset();",
          "invert_players();", "score -= rule_A();", "return score;"]) &&
        decide (p.phaseBody .endgame = ["long int score = 0;", "score += rule_B();", "score += rule_C();", "reset();",
          "return score;"])) = true := by
    decide +kernel
  obtain ⟨p, c, _, hread, hreach, hstage, -, htest⟩ := Program.of_compilesWith hrun
  obtain ⟨hopening, hendgame⟩ := (Bool.and_eq_true _ _).mp htest
  obtain ⟨a, lines, hanalysis, hlines, houtput, -, hphases⟩ := phases_follow_tags hread hreach hstage
  obtain ⟨⟨before, after, hbody, -, -⟩, -⟩ := hphases .opening
  rw [of_decide_eq_true hopening] at hbody
  exact ⟨p, c, a, lines, before, after, hread, hreach, hstage, hanalysis, hlines, houtput, hbody,
    of_decide_eq_true hendgame⟩

end Compilation

end ChessEval
