import ChessEval.Proofs.Filings
import ChessEval.Proofs.InferredTypes

/-!
# Registering functions

Functions can be registered if those of one name have one result type and differ in the types of their
parameters, among each other and from what is known before.
-/

namespace ChessEval

open List

def Issue.unlisted : Issue → Issue
  | .noMatchingHeader function call _ => .noMatchingHeader function call ""
  | .ambiguousCall call _ => .ambiguousCall call ""
  | issue => issue

namespace Declarations

def headers (d : Declarations) (name : String) : List Header :=
  ((d.function? name).map FunctionEntry.headers).getD []

lemma lookup_addHeader (functions : List (String × FunctionEntry)) (name other : String) (header : Header) :
    (addHeader functions name header).lookup other =
      (functions.lookup other).map fun f => if other = name then { f with headers := f.headers ++ [header] } else f := by
  induction functions with
  | nil => rfl
  | cons entry rest ih =>
    obtain ⟨n, f⟩ := entry
    by_cases hn : other = n
    · subst hn
      by_cases hname : other = name <;> simp [addHeader, hname]
    · have hbeq : (other == n) = false := beq_eq_false_iff_ne.mpr hn
      simp only [addHeader, map_cons] at ih ⊢
      split <;> simpa only [lookup_cons, hbeq] using ih

lemma function?_defineFunction {d d' : Declarations} {name : String} {returnType : Ty} {header : Header}
    (h : d.defineFunction name returnType header = .ok d') (other : String) :
    d'.function? other =
      if other = name then some ⟨returnType, d.headers name ++ [header]⟩ else d.function? other := by
  rcases eq_of_defineFunction h with ⟨hnone, rfl⟩ | ⟨f, hsome, rfl, -, rfl⟩
  · by_cases hother : other = name
    · subst hother
      rw [function?] at hnone
      simp [headers, function?, lookup_append, hnone]
    · have hbeq : (other == name) = false := beq_eq_false_iff_ne.mpr hother
      simp [function?, lookup_append, lookup_cons, hbeq, hother]
  · by_cases hother : other = name
    · subst hother
      rw [function?] at hsome
      simp [headers, function?, lookup_addHeader, hsome]
    · simp [function?, lookup_addHeader, hother]

lemma headers_defineFunction {d d' : Declarations} {name : String} {returnType : Ty} {header : Header}
    (h : d.defineFunction name returnType header = .ok d') :
    header.params ∉ (d.headers name).map Header.params ∧
      ∀ other, d'.headers other = if other = name then d.headers name ++ [header] else d.headers other := by
  constructor
  · rcases eq_of_defineFunction h with ⟨hnone, -⟩ | ⟨f, hsome, -, hconflict, -⟩
    · simp [headers, hnone]
    · simpa [headers, hsome, Header.conflicts] using hconflict
  · intro other
    rw [headers, function?_defineFunction h]
    split <;> rfl

def returnType? (d : Declarations) (name : String) : Option Ty :=
  (d.function? name).map FunctionEntry.returnType

lemma function?_eq (d : Declarations) (name : String) :
    d.function? name = (d.returnType? name).map fun type => ⟨type, d.headers name⟩ := by
  unfold returnType? headers
  cases d.function? name <;> rfl

/-- A header that can stand beside those of the same name. -/
structure Admits (d : Declarations) (name : String) (returnType : Ty) (header : Header) : Prop where
  returnType : ∀ type ∈ d.returnType? name, type = returnType
  params : header.params ∉ (d.headers name).map Header.params

variable {d d' : Declarations} {name : String} {returnType : Ty} {header : Header}

lemma returnType?_defineFunction (h : d.defineFunction name returnType header = .ok d') (other : String) :
    d'.returnType? other = if other = name then some returnType else d.returnType? other := by
  rw [returnType?, function?_defineFunction h]
  split <;> rfl

lemma admits_of_defineFunction (h : d.defineFunction name returnType header = .ok d') :
    d.Admits name returnType header := by
  refine ⟨fun type htype => ?_, (headers_defineFunction h).1⟩
  obtain ⟨f, hf, rfl⟩ := Option.map_eq_some_iff.mp htype
  rcases eq_of_defineFunction h with ⟨hnone, -⟩ | ⟨g, hg, htype, -⟩
  · rw [hnone] at hf
    cases hf
  · rw [hg] at hf
    cases hf
    exact htype

lemma Admits.defineFunction (h : d.Admits name returnType header) :
    ∃ functions, d.defineFunction name returnType header = .ok { d with functions := functions } := by
  unfold Declarations.defineFunction
  cases hf : d.function? name with
  | none => exact ⟨_, rfl⟩
  | some f =>
    have htype : f.returnType = returnType := h.returnType _ (by rw [returnType?, hf]; rfl)
    have hparams : (f.headers.any fun k => k.conflicts header) = false := by
      have hnew := h.params
      rw [Declarations.headers, hf] at hnew
      simpa [Header.conflicts] using hnew
    simp [htype, hparams]

lemma resolveCall_perm {e : Declarations} (htype : e.returnType? name = d.returnType? name)
    (hheaders : (e.headers name).Perm (d.headers name)) (types : List Ty) :
    (e.resolveCall name types).mapError Issue.unlisted = (d.resolveCall name types).mapError Issue.unlisted := by
  unfold resolveCall
  rw [function?_eq, function?_eq, htype]
  cases d.returnType? name with
  | none => rfl
  | some type =>
    have hfound := hheaders.filter fun h => h.accepts types
    simp only [Option.map_some]
    generalize (d.headers name).filter _ = found at hfound
    generalize (e.headers name).filter _ = found' at hfound
    match found, found' with
    | [], found' =>
      rw [perm_nil.mp hfound]
      rfl
    | [header], found' =>
      rw [perm_singleton.mp hfound]
    | _ :: _ :: _, [] => cases hfound.length_eq
    | _ :: _ :: _, [_] => cases hfound.length_eq
    | _ :: _ :: _, _ :: _ :: _ => rfl

end Declarations

/-- Functions that can stand beside each other. -/
def FunctionDef.Compatible (f g : FunctionDef) : Prop :=
  f.name = g.name → f.returnType = g.returnType ∧ f.params.map Param.type ≠ g.params.map Param.type

lemma FunctionDef.Compatible.symm {f g : FunctionDef} (h : f.Compatible g) : g.Compatible f :=
  fun hname => ⟨(h hname.symm).1.symm, (h hname.symm).2.symm⟩

namespace Declarations

/-- Functions that can be registered one after another. -/
structure AdmitsAll (d : Declarations) (fs : List FunctionDef) : Prop where
  each : ∀ f ∈ fs, d.Admits f.name f.returnType (Inspect.functionHeader f)
  compatible : fs.Pairwise FunctionDef.Compatible

/-- What is known after functions have been registered. -/
structure Introduces (d : Declarations) (fs : List FunctionDef) (d' : Declarations) : Prop where
  scopes : d'.scopes = d.scopes
  globals : d'.globals = d.globals
  rules : d'.rules = d.rules
  returnTypes : ∀ name, d'.returnType? name =
    (d.returnType? name).or ((fs.find? fun f => f.name = name).map FunctionDef.returnType)
  headers : ∀ name, d'.headers name =
    d.headers name ++ (fs.filter fun f => f.name = name).map Inspect.functionHeader

variable {d d' e' : Declarations} {f : FunctionDef} {fs gs : List FunctionDef}

lemma AdmitsAll.perm (h : d.AdmitsAll fs) (hperm : gs.Perm fs) : d.AdmitsAll gs :=
  ⟨fun f hf => h.each f (hperm.mem_iff.mp hf), (hperm.pairwise_iff fun h => h.symm).mpr h.compatible⟩

lemma admits_iff (h : d.defineFunction f.name f.returnType (Inspect.functionHeader f) = .ok d') (g : FunctionDef) :
    d'.Admits g.name g.returnType (Inspect.functionHeader g) ↔
      d.Admits g.name g.returnType (Inspect.functionHeader g) ∧ f.Compatible g := by
  have htypes := returnType?_defineFunction h g.name
  have hheaders := (headers_defineFunction h).2 g.name
  by_cases hname : g.name = f.name
  · rw [if_pos hname] at htypes hheaders
    have hf := admits_of_defineFunction h
    rw [← hname] at hf hheaders
    constructor
    · rintro ⟨htype, hparams⟩
      have hsame := htype f.returnType htypes
      rw [hheaders, map_append, mem_append, not_or] at hparams
      refine ⟨⟨fun type htype => (hf.returnType type htype).trans hsame, hparams.1⟩, fun _ => ⟨hsame, fun heq => ?_⟩⟩
      exact hparams.2 (mem_singleton.mpr heq.symm)
    · rintro ⟨⟨-, hparams⟩, hcompatible⟩
      obtain ⟨hsame, hother⟩ := hcompatible hname.symm
      refine ⟨fun type htype => ?_, ?_⟩
      · rw [htypes] at htype
        exact (Option.some.inj htype).symm.trans hsame
      · rw [hheaders, map_append, mem_append, not_or]
        exact ⟨hparams, fun heq => hother (mem_singleton.mp heq).symm⟩
  · rw [if_neg hname] at htypes hheaders
    have hcompatible : f.Compatible g := fun heq => absurd heq.symm hname
    constructor
    · rintro ⟨htype, hparams⟩
      exact ⟨⟨htypes ▸ htype, hheaders ▸ hparams⟩, hcompatible⟩
    · rintro ⟨⟨htype, hparams⟩, -⟩
      exact ⟨htypes ▸ htype, hheaders ▸ hparams⟩

lemma admitsAll_cons (h : d.defineFunction f.name f.returnType (Inspect.functionHeader f) = .ok d') :
    d.AdmitsAll (f :: fs) ↔ d'.AdmitsAll fs := by
  constructor
  · rintro ⟨heach, hcompatible⟩
    obtain ⟨hf, hfs⟩ := pairwise_cons.mp hcompatible
    exact ⟨fun g hg => (admits_iff h g).mpr ⟨heach g (mem_cons_of_mem _ hg), hf g hg⟩, hfs⟩
  · rintro ⟨heach, hcompatible⟩
    have hboth := fun g hg => (admits_iff h g).mp (heach g hg)
    exact ⟨forall_mem_cons.mpr ⟨admits_of_defineFunction h, fun g hg => (hboth g hg).1⟩,
      pairwise_cons.mpr ⟨fun g hg => (hboth g hg).2, hcompatible⟩⟩

lemma Introduces.cons {functions : List (String × FunctionEntry)}
    (h : d.defineFunction f.name f.returnType (Inspect.functionHeader f) = .ok { d with functions := functions })
    (hrest : { d with functions := functions }.Introduces fs d') : d.Introduces (f :: fs) d' := by
  refine ⟨hrest.scopes, hrest.globals, hrest.rules, fun name => ?_, fun name => ?_⟩
  · rw [hrest.returnTypes, returnType?_defineFunction h]
    by_cases hname : name = f.name
    · subst hname
      rw [if_pos rfl, find?_cons_of_pos (by simp), Option.some_or, Option.map_some]
      cases htype : d.returnType? f.name with
      | none => rfl
      | some type => rw [(admits_of_defineFunction h).returnType type htype, Option.some_or]
    · rw [if_neg hname, find?_cons_of_neg (by simpa using Ne.symm hname)]
  · rw [hrest.headers, (headers_defineFunction h).2]
    by_cases hname : name = f.name
    · subst hname
      rw [if_pos rfl, filter_cons_of_pos (by simp), map_cons, append_assoc]
      rfl
    · rw [if_neg hname, filter_cons_of_neg (by simpa using Ne.symm hname)]

lemma Introduces.perm (hperm : gs.Perm fs) (hcompatible : fs.Pairwise FunctionDef.Compatible)
    (hfs : d.Introduces fs d') (hgs : d.Introduces gs e') (name : String) :
    e'.returnType? name = d'.returnType? name ∧ (e'.headers name).Perm (d'.headers name) := by
  have hsame : ∀ f ∈ fs, ∀ g ∈ fs, f.name = g.name → f.returnType = g.returnType := by
    have hpairs : fs.Pairwise fun f g => f.name = g.name → f.returnType = g.returnType :=
      hcompatible.imp fun h hname => (h hname).1
    have hflipped : fs.Pairwise (flip fun f g => f.name = g.name → f.returnType = g.returnType) :=
      hpairs.imp fun h hname => (h hname.symm).symm
    exact fun f hf g hg => hpairs.forall_of_forall_of_flip (fun _ _ _ => rfl) hflipped hf hg
  constructor
  · -- another function may come first, but with the same result type
    rw [hfs.returnTypes, hgs.returnTypes]
    congr 1
    cases hf : fs.find? fun f => f.name = name with
    | none =>
      have hnone : gs.find? (fun f => f.name = name) = none :=
        find?_eq_none.mpr fun g hg => find?_eq_none.mp hf g (hperm.mem_iff.mp hg)
      rw [hnone]
    | some f =>
      cases hg : gs.find? fun f => f.name = name with
      | none =>
        have hmem := hperm.mem_iff.mpr (mem_of_find?_eq_some hf)
        exact absurd (find?_some hf) (find?_eq_none.mp hg f hmem)
      | some g =>
        have hfname : f.name = name := by simpa using find?_some hf
        have hgname : g.name = name := by simpa using find?_some hg
        have hgmem := hperm.mem_iff.mp (mem_of_find?_eq_some hg)
        exact congrArg some (hsame g hgmem f (mem_of_find?_eq_some hf) (hgname.trans hfname.symm))
  · rw [hfs.headers, hgs.headers]
    exact ((hperm.filter _).map _).append_left _

end Declarations

namespace Inspect

variable {s s' : Inspection} {result : Unit} {fs : List FunctionDef}

lemma admitsAll_of_registerFunctions (h : (each registerFunction fs).run s = (result, s')) (hclean : s'.Clean) :
    s.analysis.declarations.AdmitsAll fs := by
  induction fs generalizing s with
  | nil => exact ⟨forall_mem_nil _, List.Pairwise.nil⟩
  | cons f rest ih =>
    obtain ⟨_, t, hfirst, hrest⟩ := runState_bind.mp h
    have ht : t.Clean := KeepsErrors.each (fun _ => KeepsErrors.declare _ _) rest _ _ _ hrest hclean
    obtain ⟨d, hd, rfl⟩ := ok_of_declare (fun _ h => (Declarations.isError_defineFunction h).error) hfirst ht
    exact (Declarations.admitsAll_cons hd).mpr (ih hrest)

lemma run_declare {change : Declarations → Except Issue Declarations} {d : Declarations} (context : Context)
    (h : change s.analysis.declarations = .ok d) :
    (declare context change).run s = ((), { s with analysis := { s.analysis with declarations := d } }) := by
  have hanalysis : analysis.run s = (s.analysis, s) := rfl
  rw [declare, run_andThen, hanalysis]
  simp only [h]
  rfl

lemma run_registerFunctions (h : s.analysis.declarations.AdmitsAll fs) :
    ∃ d, s.analysis.declarations.Introduces fs d ∧
      (each registerFunction fs).run s = ((), { s with analysis := { s.analysis with declarations := d } }) := by
  induction fs generalizing s with
  | nil => exact ⟨s.analysis.declarations, ⟨rfl, rfl, rfl, by simp, by simp⟩, rfl⟩
  | cons f rest ih =>
    obtain ⟨functions, hdefine⟩ := (h.each f mem_cons_self).defineFunction
    have hfirst : (registerFunction f).run s =
        ((), { s with analysis := { s.analysis with
          declarations := { s.analysis.declarations with functions := functions } } }) :=
      run_declare _ hdefine
    have hrest := (Declarations.admitsAll_cons hdefine).mp h
    obtain ⟨d, hd, hrun⟩ := @ih { s with analysis := { s.analysis with
      declarations := { s.analysis.declarations with functions := functions } } } hrest
    refine ⟨d, .cons hdefine hd, ?_⟩
    rw [run_each_cons, hfirst]
    exact hrun

end Inspect

end ChessEval
