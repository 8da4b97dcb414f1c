import ChessEval.Proofs.ProgramChecking
import Mathlib.Data.List.Nodup

namespace ChessEval

variable {d d' : Declarations} {name : String} {type : Ty} {line : Nat}

namespace Inspect

/-- A step that declares no rule. -/
def KeepsRules {α : Type} (x : Inspect α) : Prop :=
  ∀ s a s', x.run s = (a, s') → s'.analysis.declarations.rules = s.analysis.declarations.rules

lemma KeepsRules.run {α : Type} {x : Inspect α} (h : KeepsRules x) (s : Inspection) :
    (x.run s).2.analysis.declarations.rules = s.analysis.declarations.rules :=
  h s _ _ rfl

lemma rules_defineFunction {returnType : Ty} {header : Header} (h : d.defineFunction name returnType header = .ok d') :
    d'.rules = d.rules := by
  rcases Declarations.eq_of_defineFunction h with ⟨-, rfl⟩ | ⟨_, -, -, -, rfl⟩ <;> rfl

lemma keepsRules_report (context : Context) (issue : Issue) : KeepsRules (report context issue) := by
  intro s a s' h
  cases h
  rfl

lemma keepsRules_declare {change : Declarations → Except Issue Declarations} (context : Context)
    (hchange : ∀ d d', change d = .ok d' → d'.rules = d.rules) : KeepsRules (declare context change) :=
  Bears.declare (fun _ _ hd => hchange _ _ hd) fun s issue _ => keepsRules_report context issue s

lemma bears_keepsRules : Bears fun s s' => s'.analysis.declarations.rules = s.analysis.declarations.rules where
  refl _ := rfl
  trans hst htu := htu.trans hst
  report context issue _ := keepsRules_report context issue
  read h := (Declarations.read_some h).2.2.2

lemma keepsRules_closed : ClosedWithin Set.univ fun _ => KeepsRules where
  toClosedExpr := bears_keepsRules.closedExpr (fun context _ _ name arguments _ types =>
    bears_keepsRules.callType (fun _ _ => rfl) context name arguments types) fun _ _ _ _ => rfl
  analysis := bears_keepsRules.analysis
  openScope s _ _ h := by
    cases h
    rfl
  closeScope := bears_keepsRules.closeScope (fun _ _ _ h => (Declarations.tables_closeScope h).2) keepsRules_report
  declareVariable context _ _ _ := keepsRules_declare context fun _ _ h => (Declarations.declare_ok h).2.2
  declareGlobal context _ _ _ := keepsRules_declare context fun _ _ h => by
    rw [(Declarations.eq_of_defineGlobal h).2]

lemma keepsRules_setting (entry : ConfigEntry) : KeepsRules (setting entry) := by
  intro s b s' h
  replace h := of_analysis h
  split at h <;> (cases h; rfl)

lemma rules_declareRule (context : Context) (name : String) (schedule : Schedule) (line : Nat) (s : Inspection) :
    ((declare context fun ds => ds.defineRule name schedule line).run s).2.analysis.declarations.rules =
      if (s.analysis.declarations.rule? name).isSome then s.analysis.declarations.rules
      else s.analysis.declarations.rules ++ [⟨name, schedule, line⟩] := by
  rcases hrun : (declare context fun ds => ds.defineRule name schedule line).run s with ⟨_, s'⟩
  replace hrun := of_analysis hrun
  dsimp only [Declarations.defineRule] at hrun
  split
  · rename_i hsome
    rw [if_pos hsome] at hrun
    cases hrun
    rfl
  · rename_i hnone
    rw [if_neg hnone] at hrun
    cases hrun
    rfl

/-- What is kept about a rule once it has been declared. -/
def ruleEntry (r : RuleDef) : RuleEntry :=
  ⟨r.name, schedule r.options, r.line⟩

lemma rules_defineRule {schedule : Schedule} (h : d.defineRule name schedule line = .ok d') :
    d'.rules = d.rules ++ [⟨name, schedule, line⟩] ∧ name ∉ d.rules.map RuleEntry.name := by
  obtain ⟨hnone, rfl⟩ := Declarations.eq_of_defineRule h
  refine ⟨rfl, fun hmem => ?_⟩
  obtain ⟨entry, hentry, rfl⟩ := List.mem_map.mp hmem
  simpa using List.find?_eq_none.mp hnone entry hentry

lemma of_rules {s s' : Inspection} {result : Unit} {rs : List RuleDef} (h : (each rule rs).run s = (result, s'))
    (hclean : s'.Clean) :
    s'.analysis.declarations.rules = s.analysis.declarations.rules ++ rs.map ruleEntry ∧
      ((s.analysis.declarations.rules.map RuleEntry.name).Nodup →
        (s'.analysis.declarations.rules.map RuleEntry.name).Nodup) := by
  induction rs generalizing s with
  | nil =>
    cases h
    exact ⟨(List.append_nil _).symm, id⟩
  | cons r rest ih =>
    obtain ⟨_, t, hfirst, hrest⟩ := runState_bind.mp h
    have ht : t.Clean := KeepsErrors.each KeepsErrors.rule rest _ _ _ hrest hclean
    obtain ⟨hrules, hnodup⟩ := ih hrest
    obtain ⟨_, t₁, hoptions, hfirst⟩ := runState_bind.mp hfirst
    obtain ⟨_, t₂, hdeclare, hdeclared⟩ := runState_bind.mp hfirst
    have hbody : t.analysis.declarations.rules = t₂.analysis.declarations.rules :=
      keepsRules_closed.declaredRule r (fun _ _ _ _ => trivial) (fun _ _ _ _ _ _ => trivial) _ _ _ hdeclared
    have ht₂ : t₂.Clean := KeepsErrors.closed.declaredRule r (fun _ _ _ _ => trivial) (fun _ _ _ _ _ _ => trivial)
      _ _ _ hdeclared ht
    obtain ⟨d, hd, rfl⟩ := ok_of_declare (fun _ h => (Declarations.isError_defineRule h).error) hdeclare ht₂
    obtain ⟨hnew, hfree⟩ := rules_defineRule hd
    rw [analysis_reportAll hoptions] at hnew hfree
    refine ⟨?_, fun hbefore => hnodup ?_⟩
    · rw [hrules, hbody, hnew, List.map_cons, List.append_assoc]
      rfl
    · rw [hbody, hnew, List.map_append]
      exact List.Nodup.append hbefore (List.nodup_singleton _) (by simpa using hfree)

end Inspect

lemma Program.rules_of_check {p : Program} {a : Analysis} {ds ds' : Diagnostics} (hcheck : p.check ds = (a, ds'))
    (hclean : ds'.errors = []) :
    a.declarations.rules = p.rules.map Inspect.ruleEntry ∧ (p.rules.map RuleDef.name).Nodup := by
  obtain ⟨result, final, hrun, rfl, rfl⟩ := Program.run_of_check hcheck
  simp only [Inspect.program, runState_bind] at hrun
  obtain ⟨_, t₁, hsettings, _, t₂, hpredefined, _, t₃, hregister, _, t₄, hglobals, _, t₅, hfunctions, _, t₆, hrules,
    hunused⟩ := hrun
  have ht₆ : t₆.Clean := Inspect.KeepsErrors.unusedGlobals _ _ _ hunused hclean
  have hkeeps := Inspect.keepsRules_closed
  have hnone : t₅.analysis.declarations.rules = [] := by
    rw [hkeeps.each (fun f _ => hkeeps.function f fun _ _ _ _ _ _ => trivial) _ _ _ hfunctions,
      hkeeps.each (fun g _ => hkeeps.global g fun _ _ => trivial) _ _ _ hglobals,
      hkeeps.each (fun f _ => Inspect.keepsRules_declare _ fun _ _ => Inspect.rules_defineFunction) _ _ _ hregister,
      hkeeps.each (fun f _ => Inspect.keepsRules_declare _ fun _ _ => Inspect.rules_defineFunction) _ _ _ hpredefined,
      hkeeps.each (fun entry _ => Inspect.keepsRules_setting entry) _ _ _ hsettings]
    rfl
  obtain ⟨hall, hnodup⟩ := Inspect.of_rules hrules ht₆
  rw [hnone, List.nil_append] at hall
  rw [hnone, hall, List.map_map] at hnodup
  exact ⟨(hkeeps.unusedGlobals _ _ _ hunused).trans hall, hnodup List.nodup_nil⟩

end ChessEval
