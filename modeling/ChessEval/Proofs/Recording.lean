import ChessEval.Proofs.ProgramChecking

namespace ChessEval

lemma TypeTable.get?_record_ne (t : TypeTable) {id other : Nat} (type : Ty) (h : other ≠ id) :
    (t.record id type).get? other = t.get? other := by
  unfold record
  split
  · rfl
  · rw [t.get?_resolve, if_neg h]

/-- A call whose arguments can be passed as a header asks. -/
def Expr.Passes (n : Expr) (header : Header) : Prop :=
  ∃ name arguments, n.call? = some (name, arguments) ∧
    ∀ (i : Nat) (argument : Expr), arguments[i]? = some argument → header.byReference[i]? = some true →
      ∃ m x, argument = .identifier m x

namespace Inspection

/-- A later analysis that has recorded more at some nodes. -/
structure Adds (nodes : Set Expr) (s s' : Inspection) : Prop where
  functions : s'.analysis.declarations.functions = s.analysis.declarations.functions
  types : ∀ id type, s'.analysis.types.get? id = some type →
    s.analysis.types.get? id = some type ∨ ∃ n ∈ nodes, n.id = id
  calls : ∀ id header, (id, header) ∈ s'.analysis.calls →
    (id, header) ∈ s.analysis.calls ∨ ∃ n ∈ nodes, n.id = id ∧ n.Passes header

section Adds

variable {nodes : Set Expr} {s t u : Inspection}

lemma Adds.of_eq (hfunctions : t.analysis.declarations.functions = s.analysis.declarations.functions)
    (htypes : t.analysis.types = s.analysis.types) (hcalls : t.analysis.calls = s.analysis.calls) :
    s.Adds nodes t :=
  ⟨hfunctions, fun _ _ h => .inl (htypes ▸ h), fun _ _ h => .inl (hcalls ▸ h)⟩

lemma Adds.refl (s : Inspection) : s.Adds nodes s :=
  .of_eq rfl rfl rfl

lemma Adds.trans (hst : s.Adds nodes t) (htu : t.Adds nodes u) : s.Adds nodes u := by
  refine ⟨htu.functions.trans hst.functions, fun id type h => ?_, fun id header h => ?_⟩
  · rcases htu.types id type h with h | h
    · exact hst.types id type h
    · exact .inr h
  · rcases htu.calls id header h with h | h
    · exact hst.calls id header h
    · exact .inr h

end Adds

end Inspection

namespace Inspect

variable {α β : Type} {nodes : Set Expr}

/-- A step that, if it ends clean, has only recorded more at some nodes. -/
def Records (nodes : Set Expr) (x : Inspect α) : Prop :=
  ∀ s a s', x.run s = (a, s') → s'.Clean → s.Clean ∧ s.Adds nodes s'

lemma records_report (context : Context) (issue : Issue) : Records nodes (report context issue) := by
  intro s b s' h hclean
  refine ⟨KeepsErrors.report _ _ _ _ _ h hclean, ?_⟩
  cases h
  exact .of_eq rfl rfl rfl

lemma bears_records : Bears fun s s' => s'.Clean → s.Clean ∧ s.Adds nodes s' where
  refl s hclean := ⟨hclean, .refl s⟩
  trans hst htu hclean := by
    obtain ⟨ht, hadds'⟩ := htu hclean
    obtain ⟨hs, hadds⟩ := hst ht
    exact ⟨hs, hadds.trans hadds'⟩
  report context issue _ := records_report context issue
  read hread hclean := ⟨hclean, .of_eq (Declarations.read_some hread).2.2.1 rfl rfl⟩

lemma records_declare {change : Declarations → Except Issue Declarations} (context : Context)
    (hchange : ∀ d d', change d = .ok d' → d'.functions = d.functions) :
    Records nodes (declare context change) :=
  Bears.declare (fun _ _ hd hclean => ⟨hclean, .of_eq (hchange _ _ hd) rfl rfl⟩)
    fun s issue _ => records_report context issue s

lemma identifier_of_wrongReferences {name : String} {arguments : List Expr} {byReference : List Bool}
    {position : Nat} (h : wrongReferences name position arguments byReference = []) {i : Nat}
    {argument : Expr} (hargument : arguments[i]? = some argument) (hflag : byReference[i]? = some true) :
    ∃ m x, argument = .identifier m x := by
  induction arguments generalizing byReference position i with
  | nil => simp at hargument
  | cons first arguments ih =>
    cases byReference with
    | nil => simp at hflag
    | cons flag flags =>
      rw [wrongReferences, List.append_eq_nil_iff] at h
      cases i with
      | zero =>
        simp only [List.getElem?_cons_zero, Option.some.injEq] at hargument hflag
        subst hargument hflag
        cases first with
        | identifier m x => exact ⟨m, x, rfl⟩
        | _ => simp [Expr.isIdentifier] at h
      | succ i => exact ih h.2 hargument hflag

lemma records_callType (context : Context) {n : Expr} (hn : n ∈ nodes) {name : String}
    {arguments : List Expr} (hcall : n.call? = some (name, arguments)) (types : List Ty) :
    Records nodes (callType context n.id name arguments types) := by
  intro s type s' h hclean
  refine ⟨KeepsErrors.callType _ _ _ _ _ _ _ _ h hclean, ?_⟩
  replace h := of_analysis h
  split at h
  · cases h
    exact .of_eq rfl rfl rfl
  · rename_i resolved hresolve
    obtain ⟨_, t, ht, h⟩ := runState_bind.mp h
    rw [reportEach_eq] at ht
    have hanalysis := analysis_reportAll ht
    cases h
    have hreferences := List.map_eq_nil_iff.mp (eq_nil_of_reportAll (List.forall_mem_map.mpr fun _ h =>
      (isError_wrongReferences _ h).error) ht hclean)
    refine ⟨by rw [← hanalysis], fun id found hid => .inl ?_, fun id header hid => ?_⟩
    · rw [← hanalysis]
      exact hid
    · rcases List.mem_cons.mp hid with heq | hid
      · obtain ⟨rfl, rfl⟩ := Prod.mk.inj heq
        exact .inr ⟨n, hn, rfl, name, arguments, hcall, fun i argument hargument hflag =>
          identifier_of_wrongReferences hreferences hargument hflag⟩
      · rw [← hanalysis]
        exact .inl hid

lemma adds_record {n : Expr} (hn : n ∈ nodes) (s : Inspection) (type : Ty) : s.Adds nodes
    { s with analysis := { s.analysis with types := s.analysis.types.record n.id type } } := by
  refine ⟨rfl, fun id found hid => ?_, fun id header hid => .inl hid⟩
  by_cases hsame : id = n.id
  · exact .inr ⟨n, hn, hsame.symm⟩
  · exact .inl ((s.analysis.types.get?_record_ne type hsame).symm.trans hid)

theorem records_closed (nodes : Set Expr) : Closed nodes fun _ => Records nodes where
  toClosedExpr := bears_records.closedExpr
    (fun context _ hn _ _ hcall types => records_callType context hn hcall types)
    fun _ hn s type hclean => ⟨hclean, adds_record hn s type⟩
  analysis := bears_records.analysis
  openScope s _ _ h hclean := by
    cases h
    exact ⟨hclean, .of_eq rfl rfl rfl⟩
  closeScope := bears_records.closeScope
    (fun _ _ _ hd hclean => ⟨hclean, .of_eq (Declarations.tables_closeScope hd).1 rfl rfl⟩) records_report
  declareVariable context _ _ _ := records_declare context fun _ _ h => (Declarations.declare_ok h).2.1
  declareGlobal context _ _ _ := records_declare context fun _ _ h => by
    rw [(Declarations.eq_of_defineGlobal h).2]
  declareRule context _ _ _ := records_declare context fun _ _ h => by
    rw [(Declarations.eq_of_defineRule h).2]

/-- A step that leaves the table of types alone. -/
def KeepsTypes (x : Inspect α) : Prop :=
  ∀ s, (x.run s).2.analysis.types = s.analysis.types

namespace KeepsTypes

lemma bind {x : Inspect α} {f : α → Inspect β} (hx : KeepsTypes x) (hf : ∀ a, KeepsTypes (f a)) :
    KeepsTypes (x >>= f) :=
  fun s => (hf _ _).trans (hx s)

lemma of_run {x : Inspect α} (hx : KeepsTypes x) {s s' : Inspection} {a : α} (h : x.run s = (a, s')) :
    s'.analysis.types = s.analysis.types := by
  have htypes := hx s
  rwa [h] at htypes

lemma report (context : Context) (issue : Issue) : KeepsTypes (report context issue) :=
  fun _ => rfl

lemma declare (context : Context) (change : Declarations → Except Issue Declarations) :
    KeepsTypes (declare context change) := by
  apply bind fun _ => rfl
  intro a
  split
  · exact fun _ => rfl
  · exact report _ _

lemma reportAll (context : Context) (issues : List (Issue × Nat)) : KeepsTypes (reportAll context issues) :=
  fun _ => congrArg Analysis.types (analysis_reportAll rfl)

lemma closeScope (context : Context) : KeepsTypes (closeScope context) := by
  apply bind fun _ => rfl
  intro a
  split
  · exact bind (fun _ => rfl) fun _ => reportAll _ _
  · exact report _ _

lemma nameType (context : Context) (name : String) : KeepsTypes (nameType context name) := by
  apply bind fun _ => rfl
  intro a
  split
  · exact fun _ => rfl
  · exact fun _ => rfl

lemma callType (context : Context) (id : Nat) (name : String) (arguments : List Expr) (types : List Ty) :
    KeepsTypes (callType context id name arguments types) := by
  apply bind fun _ => rfl
  intro a
  split
  · exact fun _ => rfl
  · rw [reportEach_eq]
    exact bind (reportAll _ _) fun _ _ => rfl

lemma setting (entry : ConfigEntry) : KeepsTypes (setting entry) := by
  apply bind fun _ => rfl
  intro a
  split
  · exact fun _ => rfl
  · exact report _ _

/-- No step but the one that records a type changes the table. -/
theorem closed : ClosedWithin ∅ fun _ => KeepsTypes where
  pure _ _ := rfl
  bind := .bind
  analysis _ := rfl
  report context issue _ := report context issue
  openScope _ := rfl
  closeScope := closeScope
  declareVariable context _ _ _ := declare context _
  declareGlobal context _ _ _ := declare context _
  nameType := nameType
  callType _ _ hn := absurd hn (Set.notMem_empty _)
  recorded _ hn := absurd hn (Set.notMem_empty _)

end KeepsTypes

end Inspect

/-- What an analysis of a program has recorded. -/
structure Program.Recorded (p : Program) (a : Analysis) : Prop where
  types : ∀ id type, a.types.get? id = some type → ∃ n ∈ p.nodes, n.id = id
  calls : ∀ id header, a.header? id = some header → ∃ n ∈ p.nodes, n.id = id ∧ n.Passes header
  signatures : Declarations.signatures a.declarations.functions ⊆
    Declarations.signatures (Inspect.registered p)

theorem Program.recorded_of_check {p : Program} {ds ds' : Diagnostics} {a : Analysis}
    (h : p.check ds = (a, ds')) (hclean : ds'.errors = []) : p.Recorded a := by
  obtain ⟨result, final, hrun, rfl, rfl⟩ := Program.run_of_check h
  obtain ⟨t, hprepared, hrun⟩ := Inspect.of_program hrun
  have hadds := ((Inspect.records_closed {n | n ∈ p.nodes}).definitions (fun _ hn => hn) t result final hrun
    hclean).2
  refine ⟨fun id type htype => ?_, fun id header hheader => ?_, ?_⟩
  · rcases hadds.types id type htype with hold | hnew
    · rw [hprepared.types] at hold
      exact absurd ((get?_ofSize p.exprCount id).symm.trans hold) (by simp)
    · exact hnew
  · obtain ⟨l₁, l₂, heq, -⟩ := List.lookup_eq_some_iff.mp hheader
    rcases hadds.calls id header (by rw [heq]; simp) with hold | hnew
    · rw [hprepared.calls] at hold
      cases hold
    · exact hnew
  · rw [hadds.functions]
    simpa [Analysis.initial, Declarations.signatures] using hprepared.signatures

end ChessEval
