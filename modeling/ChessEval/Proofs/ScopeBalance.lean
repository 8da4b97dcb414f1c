import ChessEval.Proofs.Locality

/-!
# Scopes balance

Whatever a step of the check files, it leaves as many scopes open as it finds. So a variable is never declared
outside of all scopes, every scope that is closed is open, and the check never reports a defect of its own.
-/

namespace ChessEval

/-- The diagnostics that tell of a defect of the analysis itself. -/
def Diagnostics.internal (ds : Diagnostics) : List Diagnostic :=
  (ds.errors ++ ds.warnings).filter fun d => d.fault.issue.isInternal

lemma Diagnostics.internal_add {fault : Fault} (h : fault.issue.isInternal = false) (ds : Diagnostics)
    (place : Option String) : (ds.add fault place).internal = ds.internal := by
  unfold add
  split <;> simp [internal, h]

namespace Predefined

def listed : List String := [
  "# Functions provided by the chess engine runtime.",
  "# One per line: <returnType> <name>(<paramType>)",
  "",
  "num value(piece)",
  "row row(piece)",
  "file file(piece)",
  "rank rank(piece)",
  "player player(piece)",
  "piece piece(cell)",
  "bool castled(player)",
  "row startingRow(piece)",
  "[piece] coveredBy(piece)",
  "[piece] attackedBy(piece)",
  "bool check(piece)",
  "[cell] visibleCells(piece)",
  "cell cell(piece)",
  "[cell] coveredCells(piece)",
  "num len(genericArray)"]

def listing : String :=
  String.ofList (listed.flatMap fun line => line.toList ++ ['\n'])

lemma ofText_listing : ofText listing = .ok all := by
  rw [ofText, Text.lines, listing, String.toList_ofList]
  decide +kernel

end Predefined

namespace Inspection

/-- A later analysis with as many open scopes, in which no defect of the analysis has been filed. -/
structure Balanced (s s' : Inspection) : Prop where
  depth : s'.analysis.declarations.depth = s.analysis.declarations.depth
  internal : s'.diagnostics.internal = s.diagnostics.internal

lemma Balanced.trans {s t u : Inspection} (hst : s.Balanced t) (htu : t.Balanced u) : s.Balanced u :=
  ⟨htu.depth.trans hst.depth, htu.internal.trans hst.internal⟩

end Inspection

namespace Inspect

variable {α β : Type} {n : Nat} {context : Context}

/-- A step that leaves the scopes balanced wherever at least `n` of them are open. -/
def Balances (n : Nat) (x : Inspect α) : Prop :=
  ∀ s a s', x.run s = (a, s') → n ≤ s.analysis.declarations.depth → s.Balanced s'

lemma Balances.run {x : Inspect α} (h : Balances n x) (s : Inspection) (hs : n ≤ s.analysis.declarations.depth) :
    s.Balanced (x.run s).2 :=
  h s _ _ rfl hs

lemma balances_report {issue : Issue} (hissue : issue.isInternal = false) : Balances n (report context issue) := by
  intro s _ s' h _
  cases h
  exact ⟨rfl, Diagnostics.internal_add hissue _ _⟩

lemma bears_balances (n : Nat) : Bears fun s s' => n ≤ s.analysis.declarations.depth → s.Balanced s' where
  refl _ _ := ⟨rfl, rfl⟩
  trans hst htu hs := (hst hs).trans (htu ((hst hs).depth ▸ hs))
  report _ _ hissue := balances_report hissue
  read hread _ := ⟨((bears_local ∅).read hread).depth, rfl⟩

lemma Balances.bind {x : Inspect α} {f : α → Inspect β} (hx : Balances n x) (hf : ∀ a, Balances n (f a)) :
    Balances n (x >>= f) :=
  (bears_balances n).bind hx hf

lemma balances_analysis : Balances n analysis :=
  (bears_balances n).analysis

lemma balances_declare {change : Declarations → Except Issue Declarations}
    (hok : ∀ d d', change d = .ok d' → d'.depth = d.depth)
    (herror : ∀ d issue, n ≤ d.depth → change d = .error issue → issue.isOrdinary = true) :
    Balances n (declare context change) := by
  refine Bears.declare (fun s d hd _ => ⟨hok _ _ hd, rfl⟩) fun s issue hissue a s' h hs => ?_
  exact balances_report (Issue.isInternal_of_isOrdinary (herror _ _ hs hissue)) s a s' h hs

lemma balances_expr (n : Nat) : ClosedExpr Set.univ fun _ => Balances n :=
  (bears_balances n).closedExpr (fun context _ _ name arguments _ =>
    (bears_balances n).callType (fun _ _ _ => ⟨rfl, rfl⟩) context name arguments) fun _ _ _ _ _ => ⟨rfl, rfl⟩

lemma balances_block {inside : Inspect Unit} (hinside : Balances (n + 1) inside) (context : Context) :
    Balances n (block context inside) := by
  intro s _ s' h hs
  simp only [block, runState_bind] at h
  obtain ⟨_, t, ht, _, u, hu, h⟩ := h
  cases ht
  have hopened := hinside _ _ _ hu (Nat.succ_le_succ hs)
  replace h := of_analysis h
  cases hscopes : u.analysis.declarations.scopes with
  | nil => simpa [Declarations.depth, Declarations.openScope, hscopes] using hopened.depth
  | cons scope outer =>
    rw [Declarations.closeScope, hscopes] at h
    obtain ⟨_, v, hv, h⟩ := runState_bind.mp h
    cases hv
    have hdepth : outer.length = s.analysis.declarations.depth := by
      simpa [Declarations.depth, Declarations.openScope, hscopes] using hopened.depth
    have hreported := (balances_expr 0).reportAll context (List.forall_mem_map.mpr fun _ _ => rfl) _ _ _ h
      (Nat.zero_le _)
    exact ⟨hreported.depth.trans hdepth, hreported.internal.trans hopened.internal⟩

/-- In a body at least one scope is open, so that a variable can be declared. -/
lemma balances_body (n : Nat) : ClosedBody Set.univ fun _ => Balances (n + 1) where
  toClosedExpr := balances_expr (n + 1)
  block context inside h := balances_block (fun s a s' hrun hs => h s a s' hrun (Nat.le_of_succ_le hs)) context
  declareVariable context name type line := by
    refine balances_declare (fun _ _ h => (depth_declare h).2.1) fun d issue hd h => ?_
    refine (Declarations.of_declare_error h).2 fun hscopes => ?_
    rw [Declarations.depth, hscopes] at hd
    exact Nat.not_succ_le_zero _ hd

lemma balances_wrongReturns (context : Context) (expected : Ty) (label : String) (body : List Stmt) :
    Balances n (wrongReturns context expected label body) :=
  balances_analysis.bind fun _ => (balances_expr n).reportAll context fun x hx =>
    Issue.isInternal_of_isOrdinary (Stmt.isError_blockWrongReturns body x hx).ordinary

lemma balances_setting (entry : ConfigEntry) : Balances n (setting entry) := by
  refine balances_analysis.bind fun a => ?_
  split
  · intro s _ s' h _
    cases h
    exact ⟨rfl, rfl⟩
  next issue h => exact balances_report (Issue.isInternal_of_isOrdinary (Config.isError_set h).ordinary)

lemma balances_declareFunction (name : String) (type : Ty) (header : Header) :
    Balances n (declare context fun ds => ds.defineFunction name type header) := by
  refine balances_declare (fun d d' h => ?_) fun d issue _ h => (Declarations.isError_defineFunction h).ordinary
  rcases Declarations.eq_of_defineFunction h with ⟨-, rfl⟩ | ⟨_, -, -, -, rfl⟩ <;> rfl

lemma balances_global (g : GlobalDef) : Balances n (global g) := by
  refine (balances_expr n).global g (fun _ _ => trivial) ?_
  refine balances_declare (fun d d' h => ?_) fun d issue _ h => (Declarations.isError_defineGlobal h).ordinary
  obtain ⟨-, rfl⟩ := Declarations.eq_of_defineGlobal h
  rfl

lemma balances_function (f : FunctionDef) : Balances n (function f) :=
  balances_block ((balances_body n).functionBody f (fun _ _ _ _ _ _ => trivial) fun _ _ _ =>
    balances_wrongReturns _ _ _ _) _

lemma balances_rule (r : RuleDef) : Balances n (rule r) := by
  have hdeclare : Balances n (declare (.ofDefinition .rule r.name r.line) fun ds =>
      ds.defineRule r.name (schedule r.options) r.line) := by
    refine balances_declare (fun d d' h => ?_) fun d issue _ h => (Declarations.isError_defineRule h).ordinary
    obtain ⟨-, rfl⟩ := Declarations.eq_of_defineRule h
    rfl
  have hbody : Balances (n + 1) (ruleBody r) := (balances_body n).ruleBody r (fun _ _ _ _ _ _ => trivial)
    fun _ _ _ => balances_wrongReturns _ _ _ _
  have hrest : Balances n (declaredRule r) := by
    rw [declaredRule_eq]
    exact ((balances_expr n).guard _ _ _ fun _ _ _ _ => trivial).bind fun _ => balances_block hbody _
  exact ((balances_expr n).wrongOptions _ _).bind fun _ => hdeclare.bind fun _ => hrest

lemma balances_each {step : α → Inspect Unit} (h : ∀ x, Balances n (step x)) (items : List α) :
    Balances n (each step items) :=
  (balances_expr n).each fun x _ => h x

lemma balances_prepare (p : Program) : Balances n (prepare p) :=
  (balances_each balances_setting _).bind fun _ => balances_each (fun _ => balances_declareFunction _ _ _) _

lemma balances_registerFunctions (fs : List FunctionDef) : Balances n (each registerFunction fs) :=
  balances_each (fun _ => balances_declareFunction _ _ _) fs

theorem balances_program (p : Program) : Balances n (program p) := by
  rw [program_eq]
  exact (balances_prepare p).bind fun _ => (balances_registerFunctions _).bind fun _ =>
    (balances_each balances_global _).bind fun _ => (balances_each balances_function _).bind fun _ =>
      (balances_each balances_rule _).bind fun _ => balances_analysis.bind fun _ =>
        balances_each (fun _ => balances_report rfl) _

end Inspect

open Inspect in
lemma Program.depth_grounded (p : Program) : p.grounded.analysis.declarations.depth = 0 := by
  have hprepared := (balances_prepare p).run p.start (Nat.zero_le _)
  have hintroduced := (balances_registerFunctions p.functions).run p.prepared (Nat.zero_le _)
  have hgrounded := (balances_each balances_global p.globals).run p.introduced (Nat.zero_le _)
  exact ((hprepared.trans hintroduced).trans hgrounded).depth

/-- Checking a program leaves no scope open and files no defect of the check. A statement leaves open what it finds
open, and files no such defect where a scope is open. The written list of the predefined functions has no defect
either. -/
theorem Program.scopes_balance (p : Program) (ds : Diagnostics) :
    (p.check ds).1.declarations.depth = 0 ∧ (p.check ds).2.internal = ds.internal ∧
      (∀ context stmt s, ((Inspect.statement context stmt).run s).2.analysis.declarations.depth =
        s.analysis.declarations.depth) ∧
      (∀ context stmt s, 0 < s.analysis.declarations.depth →
        ((Inspect.statement context stmt).run s).2.diagnostics.internal = s.diagnostics.internal) ∧
      Predefined.ofText Predefined.listing = .ok Predefined.all := by
  rcases hrun : (Inspect.program p).run ⟨p.file, Analysis.initial p.exprCount, ds⟩ with ⟨_, final⟩
  have hcheck : p.check ds = (final.analysis, final.diagnostics) := by rw [Program.check, hrun]
  obtain ⟨hdepth, hinternal⟩ := Inspect.balances_program p _ _ _ hrun (Nat.zero_le _)
  rw [hcheck]
  refine ⟨hdepth, hinternal, fun context stmt s => ?_, fun context stmt s hs => ?_, Predefined.ofText_listing⟩
  · exact ((Inspect.local_closed Set.univ).statement stmt (fun _ _ _ _ _ _ => trivial) context).run s |>.depth
  · exact ((Inspect.balances_body 0).statement stmt (fun _ _ _ _ _ _ => trivial) context).run s hs |>.internal

theorem Program.scopes_balance_redeclared :
    let scopes := [[("x", ⟨.num, 1, false⟩)]]
    let s : Inspection := ⟨"", { Analysis.initial 0 with declarations := { scopes } }, {}⟩
    let s' := ((Inspect.statement (.topLevel 1) (.declare .bool [⟨"x", none, 2⟩] 2)).run s).2
    0 < s.analysis.declarations.depth ∧ s'.diagnostics.errors.map (fun d => d.fault.issue) = [.variableRedeclared "x"] ∧
      s'.diagnostics.internal = s.diagnostics.internal := by
  obtain ⟨-, -, -, hstatement, -⟩ := Program.scopes_balance ⟨"", [], [], 0⟩ {}
  exact ⟨Nat.one_pos, by decide +kernel, hstatement _ _ _ Nat.one_pos⟩

end ChessEval
