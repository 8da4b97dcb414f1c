import ChessEval.Proofs.ProgramChecking

/-!
# What the steps of an analysis file

A step files its diagnostics after those that are there and never looks at them.
-/

namespace ChessEval

namespace Diagnostics

instance : Append Diagnostics :=
  ⟨fun ds others => ⟨ds.errors ++ others.errors, ds.warnings ++ others.warnings⟩⟩

variable (ds others rest : Diagnostics)

@[simp] lemma errors_append : (ds ++ others).errors = ds.errors ++ others.errors := rfl

@[simp] lemma warnings_append : (ds ++ others).warnings = ds.warnings ++ others.warnings := rfl

@[simp] lemma append_empty : ds ++ ({} : Diagnostics) = ds :=
  congr (congrArg mk (List.append_nil _)) (List.append_nil _)

@[simp] lemma empty_append : ({} : Diagnostics) ++ ds = ds := rfl

lemma append_add (fault : Fault) (place : Option String) :
    (ds ++ others).add fault place = ds ++ others.add fault place := by
  unfold add
  split
  · exact congrArg (mk _) (List.append_assoc _ _ _)
  · exact congrArg (mk · _) (List.append_assoc _ _ _)

def join (all : List Diagnostics) : Diagnostics :=
  all.foldr (· ++ ·) {}

@[simp] lemma join_nil : join [] = {} := rfl

@[simp] lemma join_cons (all : List Diagnostics) : join (ds :: all) = ds ++ join all := rfl

lemma errors_join (all : List Diagnostics) : (join all).errors = all.flatMap errors := by
  induction all with
  | nil => rfl
  | cons ds rest ih => rw [join_cons, errors_append, ih, List.flatMap_cons]

lemma warnings_join (all : List Diagnostics) : (join all).warnings = all.flatMap warnings := by
  induction all with
  | nil => rfl
  | cons ds rest ih => rw [join_cons, warnings_append, ih, List.flatMap_cons]

end Diagnostics

namespace Inspection

/-- An analysis that has filed the given diagnostics before its own. -/
def behind (s : Inspection) (ds : Diagnostics) : Inspection :=
  { s with diagnostics := ds ++ s.diagnostics }

/-- An analysis as it is known, without what it has filed. -/
def bare (s : Inspection) : Inspection :=
  { s with diagnostics := {} }

variable (s : Inspection)

@[simp] lemma analysis_bare : s.bare.analysis = s.analysis := rfl

lemma bare_behind : s.bare.behind s.diagnostics = s := by
  unfold behind bare
  rw [Diagnostics.append_empty]

end Inspection

namespace Inspect

variable {α β : Type}

/-- A step that files its diagnostics after those before and does not look at them. -/
structure Files (x : Inspect α) : Prop where
  behind : ∀ s ds, x.run (s.behind ds) = ((x.run s).1, (x.run s).2.behind ds)
  file : ∀ s, (x.run s).2.file = s.file

def filed (x : Inspect α) (s : Inspection) : Diagnostics :=
  (x.run s.bare).2.diagnostics

section Steps

lemma files_pure (a : α) : Files (pure a) :=
  ⟨fun _ _ => rfl, fun _ => rfl⟩

lemma Files.bind {x : Inspect α} {f : α → Inspect β} (hx : Files x) (hf : ∀ a, Files (f a)) : Files (x >>= f) := by
  constructor
  · intro s ds
    change (f (x.run (s.behind ds)).1).run (x.run (s.behind ds)).2 = _
    rw [hx.behind s ds]
    exact (hf _).behind _ _
  · intro s
    exact ((hf _).file _).trans (hx.file s)

lemma files_analysis : Files analysis :=
  ⟨fun _ _ => rfl, fun _ => rfl⟩

lemma files_update (f : Analysis → Analysis) : Files (update f) :=
  ⟨fun _ _ => rfl, fun _ => rfl⟩

lemma files_report (context : Context) (issue : Issue) : Files (report context issue) := by
  refine ⟨fun s ds => ?_, fun _ => rfl⟩
  exact congrArg (fun filed => ((), { s with diagnostics := filed })) (Diagnostics.append_add _ _ _ _)

lemma files_reportAll (context : Context) (issues : List (Issue × Nat)) : Files (reportAll context issues) := by
  induction issues with
  | nil => exact files_pure ()
  | cons issue rest ih => exact (files_report _ _).bind fun _ => ih

lemma files_declare (context : Context) (change : Declarations → Except Issue Declarations) :
    Files (declare context change) := by
  refine .bind files_analysis fun a => ?_
  split
  · exact files_update _
  · exact files_report _ _

lemma files_setting (entry : ConfigEntry) : Files (setting entry) := by
  refine .bind files_analysis fun a => ?_
  split
  · exact files_update _
  · exact files_report _ _

lemma files_closeScope (context : Context) : Files (closeScope context) := by
  refine .bind files_analysis fun a => ?_
  split
  · exact (files_update _).bind fun _ => files_reportAll _ _
  · exact files_report _ _

lemma files_nameType (context : Context) (name : String) : Files (nameType context name) := by
  refine .bind files_analysis fun a => ?_
  split
  · exact (files_update _).bind fun _ => files_pure _
  · exact (files_report _ _).bind fun _ => files_pure _

lemma files_callType (context : Context) (id : Nat) (name : String) (arguments : List Expr) (types : List Ty) :
    Files (callType context id name arguments types) := by
  refine .bind files_analysis fun a => ?_
  split
  · exact (files_report _ _).bind fun _ => files_pure _
  · rw [reportEach_eq]
    exact (files_reportAll _ _).bind fun _ => (files_update _).bind fun _ => files_pure _

lemma Files.recorded {m : Mark} {compute : Inspect Ty} (h : Files compute) : Files (recorded m compute) := by
  refine .bind files_analysis fun a => ?_
  split
  · exact files_pure _
  · exact h.bind fun _ => (files_update _).bind fun _ => files_pure _

theorem files_closed : Closed Set.univ fun _ => Files where
  pure := files_pure
  bind := .bind
  analysis := files_analysis
  report context issue _ := files_report context issue
  openScope := files_update _
  closeScope := files_closeScope
  declareVariable context _ _ _ := files_declare context _
  declareGlobal context _ _ _ := files_declare context _
  declareRule context _ _ _ := files_declare context _
  nameType := files_nameType
  callType context n _ name arguments _ := files_callType context n.id name arguments
  recorded _ _ _ := .recorded

lemma files_each {step : α → Inspect Unit} (h : ∀ a, Files (step a)) (items : List α) : Files (each step items) :=
  files_closed.each fun a _ => h a

lemma files_registerFunction (f : FunctionDef) : Files (registerFunction f) :=
  files_declare _ _

lemma files_global (g : GlobalDef) : Files (global g) :=
  files_closed.global g fun _ _ => trivial

lemma files_function (f : FunctionDef) : Files (function f) :=
  files_closed.function f fun _ _ _ _ _ _ => trivial

lemma files_rule (r : RuleDef) : Files (rule r) :=
  files_closed.rule r (fun _ _ _ _ => trivial) fun _ _ _ _ _ _ => trivial

lemma files_program (p : Program) : Files (program p) :=
  (files_each files_setting _).bind fun _ => (files_each (fun _ => files_declare _ _) _).bind fun _ =>
    (files_each files_registerFunction _).bind fun _ => files_closed.definitions fun _ _ => trivial

end Steps

section Filed

variable {x : Inspect α} {s : Inspection}

lemma Files.run_eq (h : Files x) (s : Inspection) :
    x.run s = ((x.run s.bare).1, (x.run s.bare).2.behind s.diagnostics) := by
  rw [← h.behind, s.bare_behind]

lemma Files.diagnostics (h : Files x) (s : Inspection) :
    (x.run s).2.diagnostics = s.diagnostics ++ filed x s := by
  rw [h.run_eq]
  rfl

lemma Files.bare_run (h : Files x) (s : Inspection) : (x.run s).2.bare = (x.run s.bare).2.bare := by
  rw [h.run_eq]
  rfl

lemma Files.result (h : Files x) (s : Inspection) : (x.run s).1 = (x.run s.bare).1 := by
  rw [h.run_eq]

lemma run_andThen (x : Inspect α) (f : α → Inspect β) (s : Inspection) :
    (x >>= f).run s = (f (x.run s).1).run (x.run s).2 := rfl

lemma run_unit (x : Inspect Unit) (s : Inspection) : x.run s = ((), (x.run s).2) := rfl

lemma filed_bind {f : α → Inspect β} (hx : Files x) (hf : ∀ a, Files (f a)) (s : Inspection) :
    filed (x >>= f) s = filed x s ++ filed (f (x.run s).1) (x.run s).2 := by
  have hrun : filed (x >>= f) s = ((f (x.run s.bare).1).run (x.run s.bare).2).2.diagnostics := rfl
  rw [hrun, (hf _).diagnostics, ← hx.result, filed, filed, filed, ← hx.bare_run]

def filedEach (step : α → Inspect Unit) : List α → Inspection → List Diagnostics
  | [], _ => []
  | a :: rest, s => filed (step a) s :: filedEach step rest ((step a).run s).2

lemma filed_each {step : α → Inspect Unit} (h : ∀ a, Files (step a)) (items : List α) (s : Inspection) :
    filed (each step items) s = .join (filedEach step items s) := by
  induction items generalizing s with
  | nil => rfl
  | cons a rest ih =>
    rw [each, filed_bind (h a) (fun _ => files_each h rest), ih]
    rfl

lemma run_each_cons (step : α → Inspect Unit) (a : α) (rest : List α) (s : Inspection) :
    (each step (a :: rest)).run s = (each step rest).run ((step a).run s).2 := rfl

end Filed

lemma filed_unused (unused : List (String × Nat)) (s : Inspection) :
    filed (each (fun entry : String × Nat => report (.topLevel entry.2) (.unusedGlobal entry.1)) unused) s =
      ⟨[], unused.map fun entry => ⟨⟨.unusedGlobal entry.1, entry.2, s.file⟩, none⟩⟩ := by
  induction unused generalizing s with
  | nil => rfl
  | cons entry rest ih =>
    rw [each, filed_bind (files_report _ _) fun _ => files_each (fun _ => files_report _ _) _, ih]
    rfl

lemma filed_unusedGlobals (s : Inspection) :
    filed unusedGlobals s = ⟨[], s.analysis.declarations.unusedGlobals.map fun entry =>
      ⟨⟨.unusedGlobal entry.1, entry.2, s.file⟩, none⟩⟩ :=
  filed_unused _ s

/-- What is done before any definition is looked at. -/
def prepare (p : Program) : Inspect Unit := do
  each setting p.config
  each predefined Predefined.all

lemma files_prepare (p : Program) : Files (prepare p) :=
  (files_each files_setting _).bind fun _ => files_each (fun _ => files_declare _ _) _

lemma program_eq (p : Program) : program p = (do
    prepare p
    each registerFunction p.functions
    each global p.globals
    each function p.functions
    each rule p.rules
    unusedGlobals) := by
  simp only [program, prepare, bind_assoc]

end Inspect

namespace Program

open Inspect

def start (p : Program) : Inspection :=
  ⟨p.file, .initial p.exprCount, {}⟩

/-- The analysis of a program before its definitions are looked at. -/
def prepared (p : Program) : Inspection :=
  ((prepare p).run p.start).2

/-- The analysis of a program that knows the headers of all functions. -/
def introduced (p : Program) : Inspection :=
  ((each registerFunction p.functions).run p.prepared).2

/-- The analysis of a program that knows all functions and globals. -/
def grounded (p : Program) : Inspection :=
  ((each global p.globals).run p.introduced).2

def functionsChecked (p : Program) : Inspection :=
  ((each function p.functions).run p.grounded).2

def rulesChecked (p : Program) : Inspection :=
  ((each rule p.rules).run p.functionsChecked).2

lemma check_eq (p : Program) (ds : Diagnostics) :
    p.check ds = (((Inspect.program p).run p.start).2.analysis,
      ds ++ ((Inspect.program p).run p.start).2.diagnostics) := by
  have hstart : (⟨p.file, .initial p.exprCount, ds⟩ : Inspection) = p.start.behind ds := by
    unfold Inspection.behind start
    rw [Diagnostics.append_empty]
  rw [check, hstart]
  simp only [(files_program p).behind p.start ds]
  generalize (Inspect.program p).run p.start = result
  rfl

lemma check_append (p : Program) (ds : Diagnostics) : (p.check ds).2 = ds ++ (p.check {}).2 := by
  rw [check_eq p ds, check_eq p {}, Diagnostics.empty_append]

lemma errors_check (p : Program) (ds : Diagnostics) :
    (p.check ds).2.errors = ds.errors ↔ (p.check {}).2.errors = [] := by
  rw [check_append, Diagnostics.errors_append, List.append_right_eq_self]

lemma run_program (p : Program) : (Inspect.program p).run p.start = unusedGlobals.run p.rulesChecked := by
  rw [program_eq]
  simp only [run_andThen]
  unfold rulesChecked functionsChecked grounded introduced prepared
  rfl

lemma analysis_check (p : Program) (ds : Diagnostics) : (p.check ds).1 = p.rulesChecked.analysis := by
  rw [check_eq, run_program]
  exact reports_unusedGlobals _ _ _ (run_unit _ _)

lemma diagnostics_check (p : Program) (ds : Diagnostics) :
    (p.check ds).2 = ds ++ (filed (prepare p) p.start ++ (filed (each registerFunction p.functions) p.prepared ++
      (filed (each global p.globals) p.introduced ++ (filed (each function p.functions) p.grounded ++
        (filed (each rule p.rules) p.functionsChecked ++ filed unusedGlobals p.rulesChecked))))) := by
  have hunread : Files unusedGlobals := files_closed.unusedGlobals
  have hrules := fun _ : Unit => (files_each files_rule p.rules).bind fun _ => hunread
  have hfunctions := fun _ : Unit => (files_each files_function p.functions).bind hrules
  have hglobals := fun _ : Unit => (files_each files_global p.globals).bind hfunctions
  have hheaders := fun _ : Unit => (files_each files_registerFunction p.functions).bind hglobals
  rw [check_eq, (files_program p).diagnostics p.start, start, Diagnostics.empty_append, ← start, program_eq,
    filed_bind (files_prepare p) hheaders, filed_bind (files_each files_registerFunction _) hglobals,
    filed_bind (files_each files_global _) hfunctions, filed_bind (files_each files_function _) hrules,
    filed_bind (files_each files_rule _) fun _ => hunread]
  unfold rulesChecked functionsChecked grounded introduced prepared
  rfl

lemma file_rulesChecked (p : Program) : p.rulesChecked.file = p.file := by
  rw [rulesChecked, (files_each files_rule _).file, functionsChecked, (files_each files_function _).file, grounded,
    (files_each files_global _).file, introduced, (files_each files_registerFunction _).file, prepared,
    (files_prepare p).file, start]

lemma unread_check (p : Program) (ds : Diagnostics) :
    filed unusedGlobals p.rulesChecked = ⟨[], (p.check ds).1.declarations.unusedGlobals.map fun entry =>
      ⟨⟨.unusedGlobal entry.1, entry.2, p.file⟩, none⟩⟩ := by
  rw [filed_unusedGlobals, file_rulesChecked, p.analysis_check ds]

end Program

end ChessEval
