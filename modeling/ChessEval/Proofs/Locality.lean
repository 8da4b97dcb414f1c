import ChessEval.Proofs.Lockstep

namespace ChessEval

variable {name : String} {type : Ty} {r : RuleDef}

namespace Inspection

/-- A later analysis in which only the given nodes have been worked at. -/
structure LocalTo (ids : Set Nat) (s s' : Inspection) : Prop where
  file : s'.file = s.file
  functions : s'.analysis.declarations.functions = s.analysis.declarations.functions
  depth : s'.analysis.declarations.depth = s.analysis.declarations.depth
  globals : ∃ names, s'.analysis.declarations.globals = s.analysis.declarations.globals.markAll names
  types : ∀ id ∉ ids, s'.analysis.types.get? id = s.analysis.types.get? id
  headers : ∀ id ∉ ids, s'.analysis.header? id = s.analysis.header? id

section LocalTo

variable {ids : Set Nat} {s t u : Inspection}

lemma LocalTo.refl (ids : Set Nat) (s : Inspection) : s.LocalTo ids s :=
  ⟨rfl, rfl, rfl, ⟨[], (Scope.markAll_nil _).symm⟩, fun _ _ => rfl, fun _ _ => rfl⟩

lemma LocalTo.of_analysis (hfile : t.file = s.file) (h : t.analysis = s.analysis) : s.LocalTo ids t := by
  refine ⟨hfile, ?_, ?_, ⟨[], ?_⟩, fun _ _ => ?_, fun _ _ => ?_⟩
  all_goals rw [h]
  exact (Scope.markAll_nil _).symm

lemma LocalTo.trans (hst : s.LocalTo ids t) (htu : t.LocalTo ids u) : s.LocalTo ids u := by
  obtain ⟨names, hnames⟩ := hst.globals
  obtain ⟨others, hothers⟩ := htu.globals
  refine ⟨htu.file.trans hst.file, htu.functions.trans hst.functions, htu.depth.trans hst.depth,
    ⟨names ++ others, ?_⟩, fun id hid => (htu.types id hid).trans (hst.types id hid),
    fun id hid => (htu.headers id hid).trans (hst.headers id hid)⟩
  rw [hothers, hnames, Scope.markAll_markAll]

end LocalTo

end Inspection

namespace Inspect

variable {α β : Type} {ids : Set Nat}

/-- A step that works at the given nodes only. -/
def Local (ids : Set Nat) (x : Inspect α) : Prop :=
  ∀ s a s', x.run s = (a, s') → s.LocalTo ids s'

section Local

variable {s s' : Inspection} {context : Context}

lemma Local.run {x : Inspect α} (h : Local ids x) (s : Inspection) : s.LocalTo ids (x.run s).2 :=
  h s _ _ rfl

lemma local_report (context : Context) (issue : Issue) : Local ids (report context issue) := by
  intro s _ s' h
  cases h
  exact .of_analysis rfl rfl

lemma length_readVariable {scopes scopes' : List Scope}
    (h : Declarations.readVariable name scopes = some (type, scopes')) : scopes'.length = scopes.length := by
  have hnames := congrArg List.length (Declarations.readVariable_some h).1
  simpa using hnames

lemma localTo_read {s : Inspection} {d : Declarations} (h : s.analysis.declarations.read name = some (type, d)) :
    s.LocalTo ids { s with analysis := { s.analysis with declarations := d } } := by
  rcases Declarations.eq_of_read h with ⟨scopes, hread, rfl⟩ | ⟨-, _, -, -, rfl⟩
  · exact ⟨rfl, rfl, length_readVariable hread, ⟨[], (Scope.markAll_nil _).symm⟩, fun _ _ => rfl, fun _ _ => rfl⟩
  · exact ⟨rfl, rfl, rfl, ⟨[name], Scope.markUsed_eq _ _⟩, fun _ _ => rfl, fun _ _ => rfl⟩

lemma bears_local (ids : Set Nat) : Bears (Inspection.LocalTo ids) where
  refl := .refl ids
  trans := .trans
  report context issue _ := local_report context issue
  read := localTo_read

lemma Local.bind {x : Inspect α} {f : α → Inspect β} (hx : Local ids x) (hf : ∀ a, Local ids (f a)) :
    Local ids (x >>= f) :=
  (bears_local ids).bind hx hf

lemma local_reportAll (context : Context) (issues : List (Issue × Nat)) : Local ids (reportAll context issues) := by
  induction issues with
  | nil => exact (bears_local ids).pure ()
  | cons issue rest ih => exact (local_report _ _).bind fun _ => ih

lemma local_declare {change : Declarations → Except Issue Declarations}
    (hchange : ∀ d d', change d = .ok d' → d'.functions = d.functions ∧ d'.depth = d.depth ∧ d'.globals = d.globals)
    (context : Context) : Local ids (declare context change) := by
  refine Bears.declare (fun s d hd => ?_) fun s issue _ => local_report context issue s
  obtain ⟨hfunctions, hdepth, hglobals⟩ := hchange _ _ hd
  exact ⟨rfl, hfunctions, hdepth, ⟨[], hglobals.trans (Scope.markAll_nil _).symm⟩, fun _ _ => rfl, fun _ _ => rfl⟩

lemma local_block {inside : Inspect Unit} (hinside : Local ids inside) (context : Context) :
    Local ids (block context inside) := by
  intro s _ s' h
  simp only [block, runState_bind] at h
  obtain ⟨_, t, ht, _, u, hu, h⟩ := h
  cases ht
  have hopened := hinside _ _ _ hu
  replace h := of_analysis h
  -- the step inside keeps the depth, so the scope that is closed is the one that was opened
  cases hscopes : u.analysis.declarations.scopes with
  | nil => simpa [Declarations.depth, Declarations.openScope, hscopes] using hopened.depth
  | cons scope outer =>
    rw [Declarations.closeScope, hscopes] at h
    obtain ⟨_, v, hv, h⟩ := runState_bind.mp h
    cases hv
    have hdepth : outer.length = s.analysis.declarations.depth := by
      simpa [Declarations.depth, Declarations.openScope, hscopes] using hopened.depth
    have hreported : Inspection.LocalTo ids _ s' := local_reportAll _ _ _ _ _ h
    refine Inspection.LocalTo.trans ?_ hreported
    exact ⟨hopened.file, hopened.functions, hdepth, hopened.globals, hopened.types, hopened.headers⟩

lemma depth_declare {d d' : Declarations} {line : Nat} (h : d.declare name type line = .ok d') :
    d'.functions = d.functions ∧ d'.depth = d.depth ∧ d'.globals = d.globals := by
  obtain ⟨scope, outer, hscopes, -, rfl⟩ := Declarations.eq_of_declare h
  exact ⟨rfl, by simp [Declarations.depth, hscopes], rfl⟩

theorem local_closed (ids : Set Nat) : ClosedBody {n | n.id ∈ ids} fun _ => Local ids where
  toClosedExpr := by
    refine (bears_local ids).closedExpr (fun context n hn name arguments _ => ?_) fun n hn s type => ?_
    · refine (bears_local ids).callType (fun s header => ?_) context name arguments
      refine ⟨rfl, rfl, rfl, ⟨[], (Scope.markAll_nil _).symm⟩, fun _ _ => rfl, fun other hother => ?_⟩
      exact (header?_cons _ _ _ _).trans (if_neg fun (heq : other = n.id) => hother (heq ▸ hn))
    · refine ⟨rfl, rfl, rfl, ⟨[], (Scope.markAll_nil _).symm⟩, fun other hother => ?_, fun _ _ => rfl⟩
      exact TypeTable.get?_record_ne _ _ fun heq => hother (heq ▸ hn)
  block context _ hinside := local_block hinside context
  declareVariable context _ _ _ := local_declare (fun _ _ => depth_declare) context

lemma local_wrongReturns (context : Context) (expected : Ty) (label : String) (body : List Stmt) :
    Local ids (wrongReturns context expected label body) := by
  intro s _ s' h
  replace h := of_analysis h
  exact local_reportAll _ _ _ _ _ h

lemma local_function {f : FunctionDef} (hids : ∀ id ∈ Stmt.blockIds f.body, id ∈ ids) : Local ids (function f) :=
  (local_closed ids).function f (fun _ hs _ he _ hn => hids _ (Stmt.id_mem_blockIds hs he hn))
    fun _ _ _ => local_wrongReturns _ _ _ _

lemma local_guard (hids : ∀ id ∈ r.guard.toList.flatMap Expr.ids, id ∈ ids) (context : Context) :
    Local ids (guard context r.name r.guard) :=
  (local_closed ids).guard context r.name r.guard fun e he _ hn =>
    hids _ (List.mem_flatMap.mpr ⟨e, Option.mem_toList.mpr he, Expr.id_mem_ids_of_mem hn⟩)

lemma local_declareRule (context : Context) (name : String) (schedule : Schedule) (line : Nat) :
    Local ids (declare context fun ds => ds.defineRule name schedule line) := by
  refine local_declare (fun d d' h => ?_) context
  obtain ⟨-, rfl⟩ := Declarations.eq_of_defineRule h
  exact ⟨rfl, rfl, rfl⟩

lemma local_declaredRule (hids : ∀ id ∈ r.guard.toList.flatMap Expr.ids ++ Stmt.blockIds r.body, id ∈ ids) :
    Local ids (declaredRule r) := by
  obtain ⟨hguard, hbody⟩ := List.forall_mem_append.mp hids
  exact (local_closed ids).declaredRule r
    (fun e he _ hn => hguard _ (List.mem_flatMap.mpr ⟨e, Option.mem_toList.mpr he, Expr.id_mem_ids_of_mem hn⟩))
    (fun _ hs _ he _ hn => hbody _ (Stmt.id_mem_blockIds hs he hn)) fun _ _ _ => local_wrongReturns _ _ _ _

lemma local_rule (hids : ∀ id ∈ r.guard.toList.flatMap Expr.ids ++ Stmt.blockIds r.body, id ∈ ids) :
    Local ids (rule r) :=
  (local_reportAll _ _).bind fun _ => (local_declareRule _ _ _ _).bind fun _ => local_declaredRule hids

end Local

end Inspect

end ChessEval
