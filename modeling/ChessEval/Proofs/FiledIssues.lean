import ChessEval.Check.Program
import ChessEval.Proofs.Nodes

namespace ChessEval

namespace Issue

/-- The issues that point to a defect of the analysis itself. -/
def isInternal (issue : Issue) : Bool :=
  issue.family == .internal

/-- The issues that neither say what a name means or that it is not used, nor point to a defect of the analysis. -/
def isOrdinary : Issue → Bool
  | .variableNotDeclared _ | .unusedVariable _ | .unusedGlobal _ => false
  | issue => !issue.isInternal

/-- An ordinary issue that keeps the program from being compiled. -/
structure IsError (issue : Issue) : Prop where
  error : issue.isWarning = false
  ordinary : issue.isOrdinary = true

lemma isInternal_of_isOrdinary {issue : Issue} (h : issue.isOrdinary = true) : issue.isInternal = false := by
  unfold isOrdinary at h
  split at h
  · rfl
  · rfl
  · rfl
  · simpa using h

end Issue

namespace Declarations

variable {d d' : Declarations} {name : String} {type : Ty} {line : Nat} {issue : Issue}

lemma of_declare_error (h : d.declare name type line = .error issue) :
    issue.isWarning = false ∧ (d.scopes ≠ [] → issue.isOrdinary = true) := by
  unfold declare at h
  split at h
  next hscopes =>
    cases h
    exact ⟨rfl, fun hopen => absurd hscopes hopen⟩
  next => split at h <;> cases h <;> exact ⟨rfl, fun _ => rfl⟩

lemma isError_resolveCall {arguments : List Ty} (h : d.resolveCall name arguments = .error issue) : issue.IsError := by
  unfold resolveCall at h
  split at h
  · cases h
    exact ⟨rfl, rfl⟩
  · split at h <;> cases h <;> exact ⟨rfl, rfl⟩

lemma isError_defineGlobal (h : d.defineGlobal name type line = .error issue) : issue.IsError := by
  unfold defineGlobal at h
  split at h <;> cases h
  exact ⟨rfl, rfl⟩

lemma isError_defineFunction {header : Header} (h : d.defineFunction name type header = .error issue) :
    issue.IsError := by
  unfold defineFunction at h
  split at h
  · cases h
  · split at h
    · cases h
      exact ⟨rfl, rfl⟩
    · split at h <;> cases h
      exact ⟨rfl, rfl⟩

lemma isError_defineRule {schedule : Schedule} (h : d.defineRule name schedule line = .error issue) :
    issue.IsError := by
  unfold defineRule at h
  split at h <;> cases h
  exact ⟨rfl, rfl⟩

lemma eq_of_closeScope {unused : List (String × Nat)} (h : d.closeScope = .ok (unused, d')) :
    ∃ scope outer, d.scopes = scope :: outer ∧ unused = scope.unused ∧ d' = { d with scopes := outer } := by
  unfold closeScope at h
  split at h <;> cases h
  exact ⟨_, _, ‹_›, rfl, rfl⟩

lemma tables_closeScope {unused : List (String × Nat)} (h : d.closeScope = .ok (unused, d')) :
    d'.functions = d.functions ∧ d'.rules = d.rules := by
  obtain ⟨_, _, -, -, rfl⟩ := eq_of_closeScope h
  exact ⟨rfl, rfl⟩

lemma eq_of_declare (h : d.declare name type line = .ok d') :
    ∃ scope outer, d.scopes = scope :: outer ∧ scope.find? name = none ∧
      d' = { d with scopes := scope.bind name type line :: outer } := by
  unfold declare at h
  split at h
  · cases h
  · split at h <;> cases h
    exact ⟨_, _, ‹_›, Option.not_isSome_iff_eq_none.mp ‹_›, rfl⟩

lemma eq_of_read (h : d.read name = some (type, d')) :
    (∃ scopes, readVariable name d.scopes = some (type, scopes) ∧ d' = { d with scopes := scopes }) ∨
      readVariable name d.scopes = none ∧ ∃ b, d.globals.find? name = some b ∧ b.type = type ∧
        d' = { d with globals := d.globals.markUsed name } := by
  unfold read at h
  split at h
  next hread =>
    cases h
    exact .inl ⟨_, hread, rfl⟩
  next hnone =>
    obtain ⟨b, hb, heq⟩ := Option.map_eq_some_iff.mp h
    cases heq
    exact .inr ⟨hnone, b, hb, rfl, rfl⟩

lemma eq_of_defineGlobal (h : d.defineGlobal name type line = .ok d') :
    d.globals.find? name = none ∧ d' = { d with globals := d.globals.bind name type line } := by
  unfold defineGlobal at h
  split at h <;> cases h
  exact ⟨Option.not_isSome_iff_eq_none.mp ‹_›, rfl⟩

lemma eq_of_defineFunction {header : Header} (h : d.defineFunction name type header = .ok d') :
    d.function? name = none ∧ d' = { d with functions := d.functions ++ [(name, ⟨type, [header]⟩)] } ∨
      ∃ f, d.function? name = some f ∧ f.returnType = type ∧ ¬(f.headers.any fun k => k.conflicts header) ∧
        d' = { d with functions := addHeader d.functions name header } := by
  unfold defineFunction at h
  split at h
  next hnone =>
    cases h
    exact .inl ⟨hnone, rfl⟩
  next f hsome =>
    split at h
    · cases h
    next htype =>
      split at h <;> cases h
      exact .inr ⟨f, hsome, Decidable.not_not.mp htype, ‹_›, rfl⟩

lemma eq_of_defineRule {schedule : Schedule} (h : d.defineRule name schedule line = .ok d') :
    d.rule? name = none ∧ d' = { d with rules := d.rules ++ [⟨name, schedule, line⟩] } := by
  unfold defineRule at h
  split at h <;> cases h
  exact ⟨Option.not_isSome_iff_eq_none.mp ‹_›, rfl⟩

end Declarations

lemma Config.isError_set {config : Config} {name : String} {value : ConfigValue} {issue : Issue}
    (h : config.set name value = .error issue) : issue.IsError := by
  unfold set at h
  split at h
  · cases h
    exact ⟨rfl, rfl⟩
  · split at h <;> cases h
    exact ⟨rfl, rfl⟩

namespace Stmt

lemma isError_blockWrongReturns {types : TypeTable} {expected : Ty} {label : String} (body : List Stmt) :
    ∀ x ∈ blockWrongReturns types expected label body, x.1.IsError := by
  induction body using block_induction (fun s => ∀ x ∈ s.wrongReturns types expected label, x.1.IsError) with
  | ifThen condition thenBody line ihthen x hx => exact ihthen x hx
  | ifElse condition thenBody elseBody line ihthen ihelse x hx =>
    exact (List.mem_append.mp hx).elim (ihthen x) (ihelse x)
  | whileDo condition body line ih x hx => exact ih x hx
  | forAll name source body line ih x hx => exact ih x hx
  | returns value line x hx =>
    simp only [wrongReturns] at hx
    split at hx
    · cases hx
    · rw [List.mem_singleton.mp hx]
      exact ⟨rfl, rfl⟩
  | declare type ds line x hx => cases hx
  | assign target value line x hx => cases hx
  | score value line x hx => cases hx
  | call site line x hx => cases hx
  | nil => simp [blockWrongReturns]
  | cons s rest ihs ihrest => exact List.forall_mem_append.mpr ⟨ihs, ihrest⟩

lemma isOrdinary_blockUnreachable (body : List Stmt) : ∀ x ∈ blockUnreachable body, x.1.isOrdinary = true := by
  induction body using block_induction (fun s => ∀ last, ∀ x ∈ s.unreachable last, x.1.isOrdinary = true) with
  | ifThen condition thenBody line ih last x hx => exact ih x hx
  | ifElse condition thenBody elseBody line ihthen ihelse last x hx =>
    rcases List.mem_append.mp hx with hx | hx
    · exact (List.mem_append.mp hx).elim (ihthen x) (ihelse x)
    · split at hx
      · rw [List.mem_singleton.mp hx]
        rfl
      · cases hx
  | whileDo condition body line ih last x hx => exact ih x hx
  | forAll name source body line ih last x hx => exact ih x hx
  | returns value line last x hx =>
    simp only [unreachable] at hx
    split at hx
    · cases hx
    · rw [List.mem_singleton.mp hx]
      rfl
  | declare type ds line last x hx => cases hx
  | assign target value line last x hx => cases hx
  | score value line last x hx => cases hx
  | call site line last x hx => cases hx
  | nil => simp [blockUnreachable]
  | cons s rest ihs ihrest => exact List.forall_mem_append.mpr ⟨ihs _, ihrest⟩

end Stmt

namespace Inspect

lemma isError_wrongReferences {name : String} {arguments : List Expr} {byReference : List Bool} {position : Nat} :
    ∀ issue ∈ wrongReferences name position arguments byReference, issue.IsError := by
  fun_induction wrongReferences name position arguments byReference with
  | case1 position argument arguments flag flags ih =>
    intro issue hissue
    rcases List.mem_append.mp hissue with hissue | hissue
    · split at hissue
      · rw [List.mem_singleton.mp hissue]
        exact ⟨rfl, rfl⟩
      · cases hissue
    · exact ih issue hissue
  | case2 => simp

lemma isError_wrongOptions (seen : List String) (options : List RuleOption) :
    ∀ x ∈ wrongOptions seen options, x.1.IsError := by
  induction options generalizing seen with
  | nil => simp [wrongOptions]
  | cons o rest ih =>
    unfold wrongOptions
    split
    · exact List.forall_mem_cons.mpr ⟨⟨rfl, rfl⟩, ih _⟩
    · split
      · exact ih _
      · exact List.forall_mem_cons.mpr ⟨⟨rfl, rfl⟩, ih _⟩

end Inspect

end ChessEval
