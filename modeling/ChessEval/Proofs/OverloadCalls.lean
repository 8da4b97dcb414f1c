import ChessEval.Proofs.Registration

/-!
# Overloads, by the history of calls

The functions that are registered can be told from the calls that were made to register them, in whatever order
and with whatever success. Headers that stand beside each other differ as lists of types, while a call of a
function compares types only as far as they are known.
-/

namespace ChessEval.OverloadCalls

open List

structure Call where
  name : String
  returnType : Ty
  header : Header
deriving DecidableEq, Repr

def Call.perform (call : Call) (d : Declarations) : Except Issue Declarations :=
  d.defineFunction call.name call.returnType call.header

/-- The declarations after some calls in their order. -/
def run (calls : List Call) : Declarations :=
  calls.foldl (fun d call => (call.perform d).toOption.getD d) {}

def first? (calls : List Call) (name : String) : Option Call :=
  calls.find? fun call => call.name = name

/-- Told from the earlier calls alone: the first call for the name has another result type, or one of the same result
type has had the same parameter types. -/
def Call.Clashes (calls : List Call) (call : Call) : Prop :=
  (∃ first, first? calls call.name = some first ∧ first.returnType ≠ call.returnType) ∨
    ∃ earlier ∈ calls, earlier.name = call.name ∧ earlier.returnType = call.returnType ∧
      earlier.header.params = call.header.params

/-- Declarations that are in step with the calls made so far. -/
structure Follows (calls : List Call) (d : Declarations) : Prop where
  returnTypes : ∀ name, d.returnType? name = (first? calls name).map Call.returnType
  heads : ∀ name, (d.headers name).head? = (first? calls name).map Call.header
  nodup : ∀ name, ((d.headers name).map Header.params).Nodup
  params : ∀ name params, params ∈ (d.headers name).map Header.params ↔
    ∃ call ∈ calls, call.name = name ∧ some call.returnType = d.returnType? name ∧ call.header.params = params

section Histories

variable {calls : List Call} {call : Call} {d d' : Declarations} {name : String}

lemma run_append (calls later : List Call) :
    run (calls ++ later) = later.foldl (fun d call => (call.perform d).toOption.getD d) (run calls) :=
  foldl_append

lemma run_snoc_ok (h : call.perform (run calls) = .ok d) : run (calls ++ [call]) = d := by
  rw [run_append, foldl_cons, foldl_nil, h]
  rfl

lemma run_of_error {issue : Issue} (h : call.perform (run calls) = .error issue) (later : List Call) :
    run (calls ++ call :: later) = run (calls ++ later) := by
  rw [run_append, run_append, foldl_cons, h]
  rfl

lemma first?_snoc (calls : List Call) (call : Call) (name : String) :
    first? (calls ++ [call]) name = (first? calls name).or (if call.name = name then some call else none) := by
  simp only [first?, find?_append, find?_singleton, decide_eq_true_eq]

lemma first?_eq_none : first? calls name = none ↔ ∀ call ∈ calls, call.name ≠ name := by
  simp [first?]

namespace Follows

variable (h : Follows calls d)
include h

lemma admits_iff : d.Admits call.name call.returnType call.header ↔ ¬call.Clashes calls := by
  constructor
  · rintro ⟨htype, hparams⟩ (⟨first, hfirst, hne⟩ | ⟨earlier, hmem, hname, hsame, heq⟩)
    · exact hne (htype _ (by rw [h.returnTypes, hfirst]; rfl))
    · -- the earlier call has the result type of the function, so its parameters are taken
      refine hparams ((h.params _ _).mpr ⟨earlier, hmem, hname, ?_, heq⟩)
      cases hknown : d.returnType? call.name with
      | some type => rw [htype type hknown, hsame]
      | none =>
        rw [h.returnTypes, Option.map_eq_none_iff, first?_eq_none] at hknown
        exact absurd hname (hknown earlier hmem)
  · intro hclash
    have htype : ∀ type ∈ d.returnType? call.name, type = call.returnType := by
      intro type hmem
      rw [h.returnTypes] at hmem
      obtain ⟨first, hfirst, rfl⟩ := Option.map_eq_some_iff.mp hmem
      by_contra hne
      exact hclash (.inl ⟨first, hfirst, hne⟩)
    refine ⟨htype, fun hmem => ?_⟩
    obtain ⟨earlier, hearlier, hname, hsame, heq⟩ := (h.params _ _).mp hmem
    exact hclash (.inr ⟨earlier, hearlier, hname, htype _ hsame.symm, heq⟩)

lemma fails_iff : (∃ issue, call.perform d = .error issue) ↔ call.Clashes calls := by
  rw [← not_iff_not, ← h.admits_iff]
  constructor
  · intro hnone
    cases hperform : call.perform d with
    | error issue => exact absurd ⟨issue, hperform⟩ hnone
    | ok d' => exact Declarations.admits_of_defineFunction hperform
  · rintro hadmits ⟨issue, hperform⟩
    obtain ⟨functions, hdefine⟩ := hadmits.defineFunction
    cases hdefine.symm.trans hperform

section Performed

variable (hperform : call.perform d = .ok d')
include hperform

/-- An earlier call for the name of one that is performed has settled on the same result type. -/
lemma returnType?_of_mem {earlier : Call} (hmem : earlier ∈ calls) (hname : earlier.name = call.name) :
    d.returnType? call.name = some call.returnType := by
  cases hknown : d.returnType? call.name with
  | none =>
    rw [h.returnTypes, Option.map_eq_none_iff, first?_eq_none] at hknown
    exact absurd hname (hknown earlier hmem)
  | some type => rw [(Declarations.admits_of_defineFunction hperform).returnType type hknown]

lemma returnTypes_perform (name : String) :
    d'.returnType? name = (first? (calls ++ [call]) name).map Call.returnType := by
  rw [Declarations.returnType?_defineFunction hperform, first?_snoc]
  by_cases hname : name = call.name
  · subst hname
    cases hfirst : first? calls call.name with
    | none => simp
    | some first =>
      have hknown := h.returnTypes call.name
      rw [hfirst] at hknown
      have hsame := (Declarations.admits_of_defineFunction hperform).returnType _ hknown
      simp [hsame]
  · simp [hname, Ne.symm hname, h.returnTypes]

lemma heads_perform (name : String) :
    (d'.headers name).head? = (first? (calls ++ [call]) name).map Call.header := by
  rw [(Declarations.headers_defineFunction hperform).2, first?_snoc]
  by_cases hname : name = call.name
  · subst hname
    rw [if_pos rfl, if_pos rfl, head?_append, h.heads]
    cases first? calls call.name <;> rfl
  · rw [if_neg hname, if_neg (Ne.symm hname), Option.or_none, h.heads]

lemma nodup_perform (name : String) : ((d'.headers name).map Header.params).Nodup := by
  obtain ⟨hnew, hheaders⟩ := Declarations.headers_defineFunction hperform
  rw [hheaders]
  by_cases hname : name = call.name
  · rw [if_pos hname, map_append, nodup_append]
    refine ⟨h.nodup _, nodup_singleton _, fun params hmem params' hlast heq => hnew ?_⟩
    rwa [← mem_singleton.mp hlast, ← heq]
  · rw [if_neg hname]
    exact h.nodup name

lemma params_perform (name : String) (params : List Ty) : params ∈ (d'.headers name).map Header.params ↔
    ∃ other ∈ calls ++ [call], other.name = name ∧ some other.returnType = d'.returnType? name ∧
      other.header.params = params := by
  rw [(Declarations.headers_defineFunction hperform).2, Declarations.returnType?_defineFunction hperform]
  by_cases hname : name = call.name
  · subst hname
    simp only [if_true, map_append, mem_append, h.params, mem_singleton, map_cons, map_nil]
    constructor
    · rintro (⟨earlier, hmem, hname, htype, heq⟩ | heq)
      · exact ⟨earlier, .inl hmem, hname, htype.trans (h.returnType?_of_mem hperform hmem hname), heq⟩
      · exact ⟨call, .inr rfl, rfl, rfl, heq.symm⟩
    · rintro ⟨other, hmem | rfl, hname, htype, heq⟩
      · exact .inl ⟨other, hmem, hname, htype.trans (h.returnType?_of_mem hperform hmem hname).symm, heq⟩
      · exact .inr heq.symm
  · simp only [if_neg hname, h.params, mem_append, mem_singleton]
    constructor
    · rintro ⟨earlier, hmem, hrest⟩
      exact ⟨earlier, .inl hmem, hrest⟩
    · rintro ⟨other, hmem | rfl, hother, hrest⟩
      · exact ⟨other, hmem, hother, hrest⟩
      · exact absurd hother.symm hname

lemma perform : Follows (calls ++ [call]) d' :=
  ⟨h.returnTypes_perform hperform, h.heads_perform hperform, h.nodup_perform hperform, h.params_perform hperform⟩

end Performed

/-- A call that clashes comes too late to be the first, and what it asks for is there or has another result type. -/
lemma fail (hclash : call.Clashes calls) : Follows (calls ++ [call]) d := by
  have hknown : ∃ first, first? calls call.name = some first := by
    rcases hclash with ⟨first, hfirst, -⟩ | ⟨earlier, hmem, hname, -⟩
    · exact ⟨first, hfirst⟩
    · refine Option.ne_none_iff_exists'.mp fun hnone => ?_
      exact first?_eq_none.mp hnone earlier hmem hname
  obtain ⟨first, hfirst⟩ := hknown
  have hsame : ∀ name, first? (calls ++ [call]) name = first? calls name := by
    intro name
    rw [first?_snoc]
    by_cases hname : call.name = name
    · rw [← hname, hfirst, Option.some_or]
    · rw [if_neg hname, Option.or_none]
  refine ⟨fun name => ?_, fun name => ?_, h.nodup, fun name params => ?_⟩
  · rw [hsame, h.returnTypes]
  · rw [hsame, h.heads]
  · rw [h.params]
    constructor
    · rintro ⟨earlier, hmem, hrest⟩
      exact ⟨earlier, mem_append_left _ hmem, hrest⟩
    · rintro ⟨other, hmem, hname, htype, heq⟩
      rcases mem_append.mp hmem with hmem | hmem
      · exact ⟨other, hmem, hname, htype, heq⟩
      · cases mem_singleton.mp hmem
        subst hname
        rw [h.returnTypes, hfirst] at htype
        rcases hclash with ⟨first', hfirst', hne⟩ | ⟨earlier, hearlier, hname, hreturn, hparams⟩
        · cases hfirst.symm.trans hfirst'
          exact absurd (Option.some.inj htype).symm hne
        · refine ⟨earlier, hearlier, hname, ?_, hparams.trans heq⟩
          rw [h.returnTypes, hfirst, hreturn]
          exact htype

end Follows

lemma follows_run (calls : List Call) : Follows calls (run calls) := by
  induction calls using List.reverseRecOn with
  | nil =>
    refine ⟨fun _ => rfl, fun _ => rfl, fun _ => nodup_nil, fun name params => ?_⟩
    simp [run, Declarations.headers, Declarations.function?]
  | append_singleton calls call ih =>
    cases hperform : call.perform (run calls) with
    | ok d =>
      rw [run_snoc_ok hperform]
      exact ih.perform hperform
    | error issue =>
      rw [run_of_error hperform, append_nil]
      exact ih.fail (ih.fails_iff.mp ⟨issue, hperform⟩)

end Histories

/-! ### Headers that accept the same arguments -/

lemma eq_of_fits {params arguments : List Ty} (hparams : ∀ t ∈ params, t.isResolved = true)
    (harguments : ∀ t ∈ arguments, t.isResolved = true) (h : Header.fits params arguments = true) :
    params = arguments := by
  induction params generalizing arguments with
  | nil =>
    cases arguments with
    | nil => rfl
    | cons argument rest => cases h
  | cons param rest ih =>
    cases arguments with
    | nil => cases h
    | cons argument others =>
      obtain ⟨hfirst, hrest⟩ := (Bool.and_eq_true _ _).mp h
      obtain ⟨hparam, hparams⟩ := forall_mem_cons.mp hparams
      obtain ⟨hargument, harguments⟩ := forall_mem_cons.mp harguments
      have hsame : param = argument := by
        rcases Ty.unifies_iff.mp hfirst with hle | hge
        · exact (Ty.eq_of_isResolved_of_le hparam hle).symm
        · exact Ty.eq_of_isResolved_of_le hargument hge
      rw [hsame, ih hparams harguments hrest]

/-- Of headers that differ in their parameter types, at most one has known types and accepts arguments of known
types. -/
lemma length_accepting_le {headers : List Header} {arguments : List Ty} (hnodup : (headers.map Header.params).Nodup)
    (harguments : ∀ t ∈ arguments, t.isResolved = true) :
    (headers.filter fun h => h.accepts arguments && h.params.all Ty.isResolved).length ≤ 1 := by
  generalize hkept : headers.filter (fun h => h.accepts arguments && h.params.all Ty.isResolved) = kept
  have hsame : ∀ params ∈ kept.map Header.params, params = arguments := by
    intro params hmem
    obtain ⟨h, hh, rfl⟩ := mem_map.mp hmem
    rw [← hkept] at hh
    obtain ⟨haccepts, hresolved⟩ := (Bool.and_eq_true _ _).mp (mem_filter.mp hh).2
    exact eq_of_fits (all_eq_true.mp hresolved) harguments haccepts
  have hsub : kept.Sublist headers := hkept ▸ filter_sublist
  have hdistinct := hnodup.sublist (hsub.map Header.params)
  rw [eq_replicate_of_mem hsame, length_map] at hdistinct
  exact nodup_replicate.mp hdistinct

lemma accepting_of_ambiguousCall {d : Declarations} {name text listing : String} {arguments : List Ty}
    (h : d.resolveCall name arguments = .error (.ambiguousCall text listing)) :
    1 < ((d.headers name).filter fun h => h.accepts arguments).length := by
  unfold Declarations.resolveCall at h
  unfold Declarations.headers
  cases hf : d.function? name with
  | none =>
    rw [hf] at h
    cases h
  | some f =>
    simp only [hf] at h
    simp only [Option.map_some, Option.getD_some]
    generalize f.headers.filter (fun h => h.accepts arguments) = candidates at h
    match candidates with
    | [] => cases h
    | [header] => cases h
    | first :: second :: rest => simp

/-- The functions after any calls are those that calls were made for, each with the result type of the first one and
with headers that differ in their parameter types, the first call's being the first. A call fails exactly if the first
call for its name has another result type or the parameter types are there, and then it changes nothing; otherwise its
header comes after those of its name. Of the headers with known types at most one accepts given arguments of known types,
so that a call of a function can only be ambiguous for them if a header with a placeholder accepts them too. -/
theorem overloads_by_history (calls : List Call) :
    (∀ name, (run calls).function? name = none ↔ ∀ call ∈ calls, call.name ≠ name) ∧
    (∀ name f, (run calls).function? name = some f →
      f.headers ≠ [] ∧ (f.headers.map Header.params).Nodup ∧
        ∃ first, first? calls name = some first ∧ f.returnType = first.returnType ∧
          f.headers.head? = some first.header) ∧
    (∀ call : Call, ((∃ issue, call.perform (run calls) = .error issue) ↔ call.Clashes calls) ∧
      (call.Clashes calls → ∀ later, run (calls ++ call :: later) = run (calls ++ later)) ∧
      (¬call.Clashes calls → (run (calls ++ [call])).headers call.name =
        (run calls).headers call.name ++ [call.header])) ∧
    ∀ name arguments, (∀ t ∈ arguments, Ty.isResolved t = true) →
      (((run calls).headers name).filter fun h => h.accepts arguments && h.params.all Ty.isResolved).length ≤ 1 ∧
      ∀ text listing, (run calls).resolveCall name arguments = .error (.ambiguousCall text listing) →
        ∃ h ∈ (run calls).headers name, h.accepts arguments = true ∧ ∃ t ∈ h.params, t.isResolved = false := by
  have hfollows := follows_run calls
  refine ⟨fun name => ?_, fun name f hf => ?_, fun call => ⟨hfollows.fails_iff, fun hclash => ?_, fun hclash => ?_⟩,
    fun name arguments harguments => ?_⟩
  · have hnone := hfollows.returnTypes name
    rw [Declarations.returnType?] at hnone
    rw [← Option.map_eq_none_iff (f := FunctionEntry.returnType), hnone, Option.map_eq_none_iff, first?_eq_none]
  · have htype := hfollows.returnTypes name
    have hhead := hfollows.heads name
    have hnodup := hfollows.nodup name
    simp only [Declarations.returnType?, Declarations.headers, hf, Option.map_some, Option.getD_some]
      at htype hhead hnodup
    obtain ⟨first, hfirst, hreturn⟩ := Option.map_eq_some_iff.mp htype.symm
    rw [hfirst, Option.map_some] at hhead
    refine ⟨?_, hnodup, first, hfirst, hreturn.symm, hhead⟩
    intro hempty
    rw [hempty] at hhead
    cases hhead
  · obtain ⟨issue, hperform⟩ := hfollows.fails_iff.mpr hclash
    exact run_of_error hperform
  · obtain ⟨functions, hdefine⟩ := (hfollows.admits_iff.mpr hclash).defineFunction
    rw [run_snoc_ok hdefine, (Declarations.headers_defineFunction hdefine).2, if_pos rfl]
  · have hone := length_accepting_le (hfollows.nodup name) harguments
    refine ⟨hone, fun text listing hambiguous => ?_⟩
    by_contra! hresolved
    have htwo := accepting_of_ambiguousCall hambiguous
    -- without a placeholder, all headers that accept the arguments count
    have hall : ((run calls).headers name).filter (fun h => h.accepts arguments) =
        ((run calls).headers name).filter fun h => h.accepts arguments && h.params.all Ty.isResolved := by
      refine filter_congr fun h hmem => ?_
      by_cases haccepts : h.accepts arguments = true
      · have hparams : h.params.all Ty.isResolved = true :=
          all_eq_true.mpr fun t ht => by simpa using hresolved h hmem haccepts t ht
        rw [haccepts, hparams, Bool.and_self]
      · rw [Bool.eq_false_of_not_eq_true haccepts, Bool.false_and]
    rw [hall] at htwo
    omega

/-- A header again and one of another result type fail. The function of any array and that of arrays of numbers both
accept the latter, which the placeholder of the first one explains. -/
theorem overloads_by_history_placeholder :
    let calls : List Call := [⟨"f", .bool, .ofParams [.num] [false]⟩, ⟨"f", .bool, .ofParams [.num] [true]⟩,
      ⟨"f", .num, .ofParams [.cell] [false]⟩, ⟨"f", .bool, .ofParams [.string] [false]⟩,
      ⟨"len", .num, .ofPredefined [.genericArray]⟩, ⟨"len", .num, .ofParams [.array .num] [false]⟩]
    ((run calls).headers "f").map Header.params = [[.num], [.string]] ∧
      (∃ f first, (run calls).function? "f" = some f ∧ first? calls "f" = some first ∧
        f.returnType = first.returnType) ∧
      (run calls).resolveCall "len" [.array .num] =
        .error (.ambiguousCall "len([NUM])" "len(GENERIC_ARRAY), len([NUM])") ∧
      ∃ h ∈ (run calls).headers "len", h.accepts [.array .num] = true ∧ ∃ t ∈ h.params, t.isResolved = false := by
  intro calls
  obtain ⟨-, hregistered, -, harguments⟩ := overloads_by_history calls
  have hambiguous : (run calls).resolveCall "len" [.array .num] =
      .error (.ambiguousCall "len([NUM])" "len(GENERIC_ARRAY), len([NUM])") := by decide
  have hf : (run calls).function? "f" =
      some ⟨.bool, [.ofParams [.num] [false], .ofParams [.string] [false]]⟩ := by decide
  obtain ⟨-, -, first, hfirst, hreturn, -⟩ := hregistered "f" _ hf
  refine ⟨by decide, ⟨_, first, hf, hfirst, hreturn⟩, hambiguous, ?_⟩
  exact (harguments "len" [.array .num] (by decide)).2 _ _ hambiguous

end ChessEval.OverloadCalls
