import ChessEval.Proofs.InferredTypes
import Mathlib.Data.List.Zip

/-!
# Overloads after inference

A call means the only header that its arguments fit. Types that say more fit fewer headers, and the
constraints of a call make its arguments say at least what the parameters ask for, so a call means the
same header after inference as before.
-/

namespace ChessEval

open List

variable {params arguments : List Ty}

namespace Header

lemma fits_cons {param argument : Ty} : fits (param :: params) (argument :: arguments) = true ↔
    param.unifies argument = true ∧ fits params arguments = true :=
  Bool.and_eq_true_iff

lemma fits_of_le {arguments' : List Ty} (hle : List.Forall₂ (· ≤ ·) arguments arguments')
    (h : fits params arguments' = true) : fits params arguments = true := by
  induction hle generalizing params with
  | nil => exact h
  | @cons s t arguments arguments' hst _ ih =>
    cases params with
    | nil => exact h
    | cons param params =>
      rw [fits_cons] at h ⊢
      refine ⟨?_, ih h.2⟩
      rcases Ty.unifies_iff.mp h.1 with hparam | hparam
      · exact Ty.unifies_of_le_of_le hparam hst
      · exact Ty.unifies_of_ge (hst.trans hparam)

lemma fits_of_params_le (h : List.Forall₂ (· ≤ ·) params arguments) : fits params arguments = true := by
  induction h with
  | nil => rfl
  | cons hle _ ih => exact fits_cons.mpr ⟨Ty.unifies_of_le hle, ih⟩

lemma length_eq_of_fits (h : fits params arguments = true) : params.length = arguments.length := by
  induction params generalizing arguments with
  | nil =>
    cases arguments with
    | nil => rfl
    | cons argument arguments => cases h
  | cons param params ih =>
    cases arguments with
    | nil => cases h
    | cons argument arguments =>
      rw [fits_cons] at h
      rw [length_cons, length_cons, ih h.2]

lemma exists_le_of_fits (h : fits params arguments = true) :
    ∃ types, List.Forall₂ (· ≤ ·) arguments types ∧ List.Forall₂ (· ≤ ·) params types := by
  induction params generalizing arguments with
  | nil =>
    cases arguments with
    | nil => exact ⟨[], .nil, .nil⟩
    | cons argument arguments => cases h
  | cons param params ih =>
    cases arguments with
    | nil => cases h
    | cons argument arguments =>
      rw [fits_cons] at h
      obtain ⟨types, harguments, hparams⟩ := ih h.2
      exact ⟨param.merge argument :: types, .cons (Ty.le_merge_right h.1) harguments,
        .cons (Ty.le_merge_left h.1) hparams⟩

end Header

namespace Declarations

variable {d : Declarations} {name : String} {arguments arguments' : List Ty} {resolved : ResolvedCall}

lemma resolveCall_eq_ok_iff :
    d.resolveCall name arguments = .ok resolved ↔
      ∃ f, d.function? name = some f ∧ resolved.returnType = f.returnType ∧
        (f.headers.filter fun h => h.accepts arguments) = [resolved.header] := by
  unfold resolveCall
  cases hf : d.function? name with
  | none => simp
  | some f =>
    simp only [Option.some.injEq, exists_eq_left']
    generalize (f.headers.filter fun h => h.accepts arguments) = candidates
    rcases candidates with _ | ⟨header, _ | ⟨second, rest⟩⟩
    · simp
    · simp only [Except.ok.injEq, List.cons.injEq, and_true]
      constructor
      · rintro rfl
        exact ⟨rfl, rfl⟩
      · rintro ⟨htype, rfl⟩
        rw [← htype]
    · simp

lemma accepts_of_resolveCall (h : d.resolveCall name arguments = .ok resolved) :
    resolved.header.accepts arguments = true := by
  obtain ⟨f, -, -, hfilter⟩ := resolveCall_eq_ok_iff.mp h
  have hmem : resolved.header ∈ f.headers.filter fun k => k.accepts arguments := by simp [hfilter]
  exact (mem_filter.mp hmem).2

/-- A call keeps its meaning when its arguments come to say more and what the parameters ask for. -/
theorem resolveCall_of_le (hle : List.Forall₂ (· ≤ ·) arguments arguments')
    (hparams : List.Forall₂ (· ≤ ·) resolved.header.params arguments')
    (h : d.resolveCall name arguments = .ok resolved) : d.resolveCall name arguments' = .ok resolved := by
  obtain ⟨f, hf, htype, hfilter⟩ := resolveCall_eq_ok_iff.mp h
  refine resolveCall_eq_ok_iff.mpr ⟨f, hf, htype, ?_⟩
  have hboth : (f.headers.filter fun k => k.accepts arguments') =
      (f.headers.filter fun k => k.accepts arguments).filter fun k => k.accepts arguments' := by
    rw [filter_filter]
    apply filter_congr
    intro k _
    by_cases hk : k.accepts arguments' = true
    · rw [hk, Bool.true_and]
      exact (Header.fits_of_le hle hk).symm
    · simp [Bool.eq_false_iff.mpr hk]
  have haccepts : resolved.header.accepts arguments' = true := Header.fits_of_params_le hparams
  rw [hboth, hfilter]
  simp [haccepts]

end Declarations

namespace Expr

variable {a : Analysis} {n : Expr} {name : String} {arguments : List Expr}

lemma own_of_call? (h : n.call? = some (name, arguments)) (scopes : LoopScopes) :
    n.own a scopes = a.argumentConstraints n.id arguments := by
  cases n <;> cases h <;> rfl

lemma holds_argumentConstraints {id : Nat} {header : Header} {τ : Nat → Ty}
    (hheader : a.header? id = some header) (hlength : header.params.length = arguments.length) :
    (∀ k ∈ a.argumentConstraints id arguments, k.Holds τ) ↔
      List.Forall₂ (· ≤ ·) header.params (arguments.map fun e => τ e.id) := by
  rw [forall₂_map_right_iff, forall₂_iff_zip, and_iff_right hlength]
  have hzip : ∀ e type, (type, e) ∈ header.params.zip arguments ↔
      (e, type) ∈ arguments.zip header.params := by
    intro e type
    rw [← zip_swap arguments header.params, mem_map]
    constructor
    · rintro ⟨x, hx, heq⟩
      rwa [← Prod.swap_swap x, heq] at hx
    · exact fun h => ⟨_, h, rfl⟩
  constructor
  · intro h type e hmem
    exact h _ (mem_argumentConstraints.mpr ⟨header, hheader, e, type, (hzip e type).mp hmem, rfl⟩)
  · intro h k hk
    obtain ⟨header', hheader', e, type, hmem, rfl⟩ := mem_argumentConstraints.mp hk
    rw [hheader] at hheader'
    cases hheader'
    exact h ((hzip e type).mpr hmem)

lemma children_of_call? (h : n.call? = some (name, arguments)) : n.children = arguments := by
  cases n <;> cases h <;> rfl

lemma Typed.resolves {Γ : NameTypes} (htyped : n.Typed a Γ) (h : n.call? = some (name, arguments)) :
    a.Resolves n.id name (arguments.map fun e => a.types.typeOf e.id) := by
  cases n <;> cases h <;> exact htyped

end Expr

namespace Program

variable {limit : Nat} {a : Analysis} {p : Program} {u : Unifier}

lemma Typed.isResolved_returnType (hwf : p.WellFormed) (htyped : p.Typed a) {name : String} {resolved : ResolvedCall}
    (h : a.declarations.resolveCall name arguments = .ok resolved) : resolved.returnType.isResolved = true := by
  obtain ⟨f, hf, htype, -⟩ := Declarations.resolveCall_eq_ok_iff.mp h
  obtain ⟨l₁, l₂, heq, -⟩ := lookup_eq_some_iff.mp hf
  have hmem : resolved.returnType ∈ a.declarations.returnTypes := by
    rw [htype, Declarations.returnTypes, heq]
    simp
  rcases mem_append.mp (htyped.returnTypes hmem) with hmem | hmem
  · have hall : ∀ type ∈ Predefined.all.map Predefined.returnType, type.isResolved = true := by decide
    exact hall _ hmem
  · obtain ⟨f, hf, hreturn⟩ := mem_map.mp hmem
    rw [← hreturn]
    exact hwf.returnType hf

lemma Solved.params_le (h : p.Solved limit a u) {n : Expr} (hn : n ∈ p.nodes) {name : String}
    {arguments : List Expr} (hcall : n.call? = some (name, arguments)) {header : Header}
    (hheader : a.header? n.id = some header)
    (hfits : header.accepts (arguments.map fun e => a.types.typeOf e.id) = true) :
    List.Forall₂ (· ≤ ·) header.params (arguments.map fun e => u.typeAt e.id) := by
  have hlength : header.params.length = arguments.length := by
    simpa using Header.length_eq_of_fits hfits
  refine (Expr.holds_argumentConstraints hheader hlength).mp fun k hk => h.holds hn ?_
  rw [Expr.own_of_call? hcall]
  exact hk

/-- After inference every call of a program that was checked without errors still means the header that
was recorded for it. -/
theorem resolveCall_inferred {tokens : List Token} {file : String} {ds ds' : Diagnostics}
    (hread : (Program.ofTokens tokens file).1 = .ok p) (hcheck : p.check ds = (a, ds'))
    (hclean : ds'.errors = []) (hsettles : a.Settles limit p u) :
    ∃ a' ds'', a.inferWithin limit p ds' = some (a', ds'') ∧
      ∀ n ∈ p.nodes, ∀ name arguments, n.call? = some (name, arguments) →
        ∃ resolved, a'.declarations.resolveCall name (arguments.map fun e => a'.types.typeOf e.id) =
            .ok resolved ∧ a.header? n.id = some resolved.header := by
  obtain ⟨ds'', hinfer⟩ := Analysis.inferWithin_of_settles hsettles ds'
  refine ⟨_, ds'', hinfer, fun n hn name arguments hcall => ?_⟩
  have hsolved := Program.solved_of_check hread hcheck hclean hsettles
  obtain ⟨Γ, htyped⟩ := hsolved.typed.node hn
  obtain ⟨resolved, hresolve, hheader, -⟩ := htyped.resolves hcall
  refine ⟨resolved, ?_, hheader⟩
  have hargument : ∀ e ∈ arguments, e ∈ p.nodes := fun e he =>
    child_mem_nodes (Expr.children_of_call? hcall ▸ he) hn
  have hfinal : (arguments.map fun e => (a.withTypes p u).types.typeOf e.id) =
      arguments.map fun e => u.typeAt e.id :=
    map_congr_left fun e he => hsolved.typeOf (hargument e he)
  have hfits := Declarations.accepts_of_resolveCall hresolve
  rw [hfinal]
  refine Declarations.resolveCall_of_le ?_ (hsolved.params_le hn hcall hheader hfits) hresolve
  rw [forall₂_map_left_iff, forall₂_map_right_iff, forall₂_same]
  exact fun e he => hsolved.initial (hargument e he)

theorem resolveCall_inferred_len :
    ∃ tokens p a ds u,
      Token.ofSource "rule r \x7b forall (x in []) \x7b x := 1; score len([x]); \x7d \x7d" "" = .ok tokens ∧
      (Program.ofTokens tokens "").1 = .ok p ∧ p.check {} = (a, ds) ∧ ds.errors = [] ∧ a.Settles 3 p u ∧
      ∃ a' ds', a.inferWithin 3 p ds = some (a', ds') ∧
        ∃ n ∈ p.nodes, ∃ arguments, n.call? = some ("len", arguments) ∧
          (arguments.map fun e => a.types.typeOf e.id) = [.array .generic] ∧
          (arguments.map fun e => a'.types.typeOf e.id) = [.array .num] ∧ ∃ resolved,
            a'.declarations.resolveCall "len" [.array .num] = .ok resolved ∧
              a.header? n.id = some resolved.header := by
  have hrun : Program.infersWith "rule r \x7b forall (x in []) \x7b x := 1; score len([x]); \x7d \x7d" 3
      (fun p a a' => decide (∃ n ∈ p.nodes, ∃ call ∈ n.call?, call.1 = "len" ∧
        (call.2.map fun e => a.types.typeOf e.id) = [.array .generic] ∧
        (call.2.map fun e => a'.types.typeOf e.id) = [.array .num])) = true := by decide +kernel
  obtain ⟨tokens, p, a, ds, a', ds', htokens, hread, hcheck, hclean, hinfer, hclean', htest⟩ :=
    Program.of_infersWith hrun
  obtain ⟨u, hsettles, -⟩ :=
    Analysis.settles_of_inferWithin (Program.wellFormed_of_ofTokens hread) hinfer hclean'
  obtain ⟨b, ds'', hinfer', hcalls⟩ := resolveCall_inferred hread hcheck hclean hsettles
  obtain ⟨rfl, rfl⟩ : a' = b ∧ ds' = ds'' := by simpa [hinfer] using hinfer'
  obtain ⟨n, hn, ⟨name, arguments⟩, hcall, rfl, htype, htype'⟩ := of_decide_eq_true htest
  have hresolved := hcalls n hn _ _ hcall
  rw [htype'] at hresolved
  exact ⟨tokens, p, a, ds, u, htokens, hread, hcheck, hclean, hsettles, a', ds', hinfer, n, hn, arguments,
    hcall, htype, htype', hresolved⟩

end Program

end ChessEval
