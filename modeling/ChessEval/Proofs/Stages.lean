import ChessEval.Proofs.Progress
import Mathlib.Data.List.Induction

/-!
# Stages of a compilation

Requests can come in any order and number. Each asks for passes, and of these only the ones that are due are made.
So the state of a compilation is that after the first passes in their order, up to a failure, and says which passes
these were.
-/

namespace ChessEval

/-- Whether a compilation has come to an end. -/
def Stage.isFinal : Stage → Bool
  | .generated | .failed => true
  | _ => false

namespace Compilation

/-- The passes over a program. -/
inductive Pass where
  | check
  | infer
  | generate
deriving DecidableEq, Repr

namespace Pass

def all : List Pass :=
  [.check, .infer, .generate]

def stage : Pass → Stage
  | .check => .parsed
  | .infer => .checked
  | .generate => .inferred

end Pass

def Request.passes : Request → List Pass
  | .check => [.check]
  | .infer => [.infer]
  | .generate => [.generate]
  | .run => Pass.all

def pass (c : Compilation) : Pass → Option Compilation
  | .check => some c.check
  | .infer => c.infer
  | .generate => some c.generate

def passes (c : Compilation) : List Pass → Option Compilation
  | [] => some c
  | x :: rest => (c.pass x).bind fun c => c.passes rest

/-- The passes that are made: those that are due when they are asked for. -/
def made (c : Compilation) : List Pass → List Pass
  | [] => []
  | x :: rest => (if c.stage = x.stage then [x] else []) ++ (c.pass x).elim [] fun c => c.made rest

/-- The states that a compilation of a program can come to, each with the passes that lead to it. -/
inductive Reaches (p : Program) : List Pass → Compilation → Prop where
  | read : Reaches p [] (ofProgram p)
  | checked {a : Analysis} {ds : Diagnostics} (hcheck : p.check {} = (a, ds)) :
    Reaches p [.check] ⟨p, some a, ds, none, stageAfter ds .checked⟩
  | inferred {a a' : Analysis} {ds ds' : Diagnostics} (hcheck : p.check {} = (a, ds)) (hclean : ds.errors = [])
    (hinfer : a.infer p ds = some (a', ds')) :
    Reaches p [.check, .infer] ⟨p, some a', ds', none, stageAfter ds' .inferred⟩
  | generated {a a' : Analysis} {ds ds' : Diagnostics} {text : String} (hcheck : p.check {} = (a, ds))
    (hclean : ds.errors = []) (hinfer : a.infer p ds = some (a', ds')) (hclean' : ds'.errors = [])
    (hcode : Code.generate p a' = .ok text) : Reaches p Pass.all ⟨p, some a', ds', some text, .generated⟩
  | refused {a a' : Analysis} {ds ds' : Diagnostics} {fault : Fault} (hcheck : p.check {} = (a, ds))
    (hclean : ds.errors = []) (hinfer : a.infer p ds = some (a', ds')) (hclean' : ds'.errors = [])
    (hcode : Code.generate p a' = .error fault) : Reaches p Pass.all ⟨p, some a', ds'.add fault none, none, .failed⟩

variable {p : Program} {c c' : Compilation} {x : Pass} {done : List Pass}

lemma stageAfter_eq (ds : Diagnostics) (stage : Stage) :
    stageAfter ds stage = .failed ∧ ds.errors ≠ [] ∨ stageAfter ds stage = stage ∧ ds.errors = [] := by
  unfold stageAfter Diagnostics.hasErrors
  cases h : ds.errors with
  | nil => exact .inr ⟨rfl, rfl⟩
  | cons issue rest => exact .inl ⟨rfl, List.cons_ne_nil _ _⟩

/-! ### Requests as passes -/

lemma passes_append (c : Compilation) (xs ys : List Pass) :
    c.passes (xs ++ ys) = (c.passes xs).bind fun c => c.passes ys := by
  induction xs generalizing c with
  | nil => rfl
  | cons x rest ih =>
    rw [List.cons_append, passes, passes, Option.bind_assoc]
    exact congrArg (c.pass x).bind (funext ih)

lemma request_eq (c : Compilation) (r : Request) : c.request r = c.passes r.passes := by
  cases r with
  | check => rfl
  | infer => exact (Option.bind_fun_some c.infer).symm
  | generate => rfl
  | run => exact Option.map_eq_bind

lemma requests_eq (c : Compilation) (rs : List Request) : c.requests rs = c.passes (rs.flatMap Request.passes) := by
  induction rs generalizing c with
  | nil => rfl
  | cons r rest ih =>
    rw [requests, List.flatMap_cons, passes_append, ← request_eq]
    cases c.request r with
    | none => rfl
    | some next => exact ih next

lemma pass_of_ne (h : c.stage ≠ x.stage) : c.pass x = some c := by
  cases x with
  | check => exact congrArg some (if_neg h)
  | infer => exact if_neg h
  | generate => exact congrArg some (if_neg h)

lemma passes_of_isFinal (h : c.stage.isFinal = true) (xs : List Pass) : c.passes xs = some c := by
  induction xs with
  | nil => rfl
  | cons x rest ih =>
    have hne : c.stage ≠ x.stage := by
      intro heq
      rw [heq] at h
      cases x <;> cases h
    rw [passes, pass_of_ne hne]
    exact ih

lemma passes_made {xs : List Pass} (h : c.passes xs = some c') : c.passes (c.made xs) = some c' := by
  induction xs generalizing c with
  | nil => exact h
  | cons x rest ih =>
    obtain ⟨next, hpass, hrest⟩ := Option.bind_eq_some_iff.mp h
    rw [made, hpass, Option.elim_some]
    by_cases hdue : c.stage = x.stage
    · rw [if_pos hdue, List.singleton_append, passes, hpass]
      exact ih hrest
    · rw [pass_of_ne hdue] at hpass
      cases hpass
      rw [if_neg hdue, List.nil_append]
      exact ih hrest

/-! ### States -/

lemma Reaches.pass (h : Reaches p done c) (hdue : c.stage = x.stage) (hpass : c.pass x = some c') :
    Reaches p (done ++ [x]) c' := by
  cases h with
  | read =>
    cases x with
    | check =>
      rcases hcheck : p.check {} with ⟨a, ds⟩
      have hnext : (ofProgram p).check = ⟨p, some a, ds, none, stageAfter ds .checked⟩ := by
        simp only [check, ofProgram, if_true, hcheck]
      rw [← Option.some.inj hpass, hnext]
      exact .checked hcheck
    | infer => cases hdue
    | generate => cases hdue
  | @checked a ds hcheck =>
    rcases stageAfter_eq ds .checked with ⟨hstage, -⟩ | ⟨hstage, hclean⟩
    · rw [hstage] at hdue
      cases x <;> cases hdue
    · rw [hstage] at hdue hpass
      cases x with
      | infer =>
        obtain ⟨⟨a', ds'⟩, hinfer, rfl⟩ := Option.map_eq_some_iff.mp hpass
        exact .inferred hcheck hclean hinfer
      | check => cases hdue
      | generate => cases hdue
  | @inferred a a' ds ds' hcheck hclean hinfer =>
    rcases stageAfter_eq ds' .inferred with ⟨hstage, -⟩ | ⟨hstage, hclean'⟩
    · rw [hstage] at hdue
      cases x <;> cases hdue
    · rw [hstage] at hdue hpass
      cases x with
      | generate =>
        have hpass := Option.some.inj hpass
        rw [← hpass, Compilation.generate, if_pos rfl]
        dsimp only
        split
        · exact .generated hcheck hclean hinfer hclean' ‹_›
        · exact .refused hcheck hclean hinfer hclean' ‹_›
      | check => cases hdue
      | infer => cases hdue
  | generated => cases x <;> cases hdue
  | refused => cases x <;> cases hdue

/-- After any passes that are asked for, a compilation is in the state after those that were due. -/
theorem Reaches.passes (h : Reaches p done c) {xs : List Pass} (hpasses : c.passes xs = some c') :
    Reaches p (done ++ c.made xs) c' := by
  induction xs generalizing c done with
  | nil =>
    cases hpasses
    rwa [made, List.append_nil]
  | cons x rest ih =>
    obtain ⟨next, hpass, hrest⟩ := Option.bind_eq_some_iff.mp hpasses
    rw [made, hpass, Option.elim_some, ← List.append_assoc]
    by_cases hdue : c.stage = x.stage
    · rw [if_pos hdue]
      exact ih (h.pass hdue hpass) hrest
    · rw [pass_of_ne hdue] at hpass
      cases hpass
      rw [if_neg hdue, List.append_nil]
      exact ih h hrest

lemma reaches_of_passes {xs : List Pass} (h : (ofProgram p).passes xs = some c) :
    Reaches p ((ofProgram p).made xs) c :=
  Reaches.read.passes h

lemma reaches_of_requests {rs : List Request} (h : (ofProgram p).requests rs = some c) :
    Reaches p ((ofProgram p).made (rs.flatMap Request.passes)) c :=
  reaches_of_passes (requests_eq _ rs ▸ h)

lemma Reaches.isPrefix (h : Reaches p done c) : done <+: Pass.all := by
  cases h <;> decide

lemma Reaches.analysis_iff (h : Reaches p done c) : c.analysis.isSome = true ↔ c.stage ≠ .parsed := by
  cases h with
  | read => simp [ofProgram]
  | @checked a ds hcheck => rcases stageAfter_eq ds .checked with ⟨hstage, -⟩ | ⟨hstage, -⟩ <;> simp [hstage]
  | @inferred a a' ds ds' => rcases stageAfter_eq ds' .inferred with ⟨hstage, -⟩ | ⟨hstage, -⟩ <;> simp [hstage]
  | generated => simp
  | refused => simp

lemma Reaches.output_iff (h : Reaches p done c) : c.output.isSome = true ↔ c.stage = .generated := by
  cases h with
  | read => simp [ofProgram]
  | @checked a ds hcheck => rcases stageAfter_eq ds .checked with ⟨hstage, -⟩ | ⟨hstage, -⟩ <;> simp [hstage]
  | @inferred a a' ds ds' => rcases stageAfter_eq ds' .inferred with ⟨hstage, -⟩ | ⟨hstage, -⟩ <;> simp [hstage]
  | generated => simp
  | refused => simp

lemma isWarning_of_generate {tokens : List Token} {file : String} {a a' : Analysis} {ds ds' : Diagnostics}
    {fault : Fault} (hread : (Program.ofTokens tokens file).1 = .ok p) (hcheck : p.check {} = (a, ds))
    (hclean : ds.errors = []) (hinfer : a.infer p ds = some (a', ds')) (hclean' : ds'.errors = [])
    (hcode : Code.generate p a' = .error fault) : fault.issue.isWarning = false := by
  obtain ⟨u, h, rfl⟩ := Program.inferred_of_infer hread hcheck hclean hinfer hclean'
  have hspells := Code.spells_generate h.ready
  rw [hcode] at hspells
  obtain ⟨-, type, hissue⟩ := hspells
  rw [hissue]
  rfl

lemma Reaches.errors_iff {tokens : List Token} {file : String} (hread : (Program.ofTokens tokens file).1 = .ok p)
    (h : Reaches p done c) : c.diagnostics.errors ≠ [] ↔ c.stage = .failed := by
  cases h with
  | read => simp [ofProgram]
  | @checked a ds hcheck => rcases stageAfter_eq ds .checked with ⟨hstage, h⟩ | ⟨hstage, h⟩ <;> simp [hstage, h]
  | @inferred a a' ds ds' => rcases stageAfter_eq ds' .inferred with ⟨hstage, h⟩ | ⟨hstage, h⟩ <;> simp [hstage, h]
  | generated hcheck hclean hinfer hclean' hcode => simp [hclean']
  | refused hcheck hclean hinfer hclean' hcode =>
    have hfault := isWarning_of_generate hread hcheck hclean hinfer hclean' hcode
    simp [Diagnostics.errors_add hfault]

lemma run_of_isFinal {xs : List Pass} (h : (ofProgram p).passes xs = some c) (hfinal : c.stage.isFinal = true) :
    (ofProgram p).run = some c := by
  obtain ⟨rest, hall⟩ := (reaches_of_passes h).isPrefix
  have hrun : (ofProgram p).run = (ofProgram p).passes Pass.all := request_eq _ .run
  rw [hrun, ← hall, passes_append, passes_made h]
  exact passes_of_isFinal hfinal rest

lemma Reaches.of_checked (h : Reaches p done c) (hstage : c.stage = .checked) : done = [.check] := by
  cases h with
  | checked => rfl
  | @inferred a a' ds ds' =>
    rcases stageAfter_eq ds' .inferred with ⟨h, -⟩ | ⟨h, -⟩
    · exact absurd (h.symm.trans hstage) (by decide)
    · exact absurd (h.symm.trans hstage) (by decide)
  | read => cases hstage
  | generated => cases hstage
  | refused => cases hstage

lemma Reaches.of_generated (h : Reaches p done c) (hstage : c.stage = .generated) :
    ∃ a a' ds ds' text, p.check {} = (a, ds) ∧ ds.errors = [] ∧ a.infer p ds = some (a', ds') ∧ ds'.errors = [] ∧
      Code.generate p a' = .ok text ∧ c = ⟨p, some a', ds', some text, .generated⟩ := by
  cases h with
  | generated hcheck hclean hinfer hclean' hcode => exact ⟨_, _, _, _, _, hcheck, hclean, hinfer, hclean', hcode, rfl⟩
  | @checked a ds =>
    rcases stageAfter_eq ds .checked with ⟨h, -⟩ | ⟨h, -⟩
    · exact absurd (h.symm.trans hstage) (by decide)
    · exact absurd (h.symm.trans hstage) (by decide)
  | @inferred a a' ds ds' =>
    rcases stageAfter_eq ds' .inferred with ⟨h, -⟩ | ⟨h, -⟩
    · exact absurd (h.symm.trans hstage) (by decide)
    · exact absurd (h.symm.trans hstage) (by decide)
  | read => cases hstage
  | refused => cases hstage

lemma isSome_passes (h : (ofProgram p).check.infer.isSome = true) (xs : List Pass) :
    ((ofProgram p).passes xs).isSome = true := by
  induction xs using List.reverseRecOn with
  | nil => rfl
  | append_singleton xs x ih =>
    obtain ⟨c, hc⟩ := Option.isSome_iff_exists.mp ih
    have hlast : (ofProgram p).passes (xs ++ [x]) = c.pass x := by
      rw [passes_append, hc]
      exact Option.bind_fun_some (c.pass x)
    rw [hlast]
    by_cases hdue : c.stage = x.stage
    · cases x with
      | check => rfl
      | generate => rfl
      | infer =>
        -- inference is only due right after the check
        have hmade := passes_made hc
        rw [(reaches_of_passes hc).of_checked hdue] at hmade
        cases hmade
        exact h
    · rw [pass_of_ne hdue]
      rfl

lemma isSome_infer (h : ((p.check {}).1.infer p (p.check {}).2).isSome = true) :
    (ofProgram p).check.infer.isSome = true := by
  rcases hcheck : p.check {} with ⟨a, ds⟩
  rw [hcheck] at h
  simp only [check, ofProgram, hcheck, if_true, infer]
  split
  · rw [Option.isSome_map]
    exact h
  · rfl

/-- The requests made of a compilation of a program that can be read give a result whatever they are, if inference
comes to an end, and they give none only if no number of sweeps is enough for it. The stage tells whether there is an
analysis, whether there are errors and whether there is code. A compilation that has been generated or has failed stays
as it is, and is the one that a single run gives. The passes that have been made are the first ones in their order, so
none is made twice, and they are all that it takes. -/
theorem stage_decides_state {source file : String} (hread : Program.ofSource source file = .ok p)
    (rs : List Request) :
    ((ofProgram p).check.infer.isSome = true → ((ofProgram p).requests rs).isSome = true) ∧
      ((ofProgram p).requests rs = none → ∀ limit, (p.check {}).1.inferWithin limit p (p.check {}).2 = none) ∧
      ∀ c, (ofProgram p).requests rs = some c →
        (c.output.isSome = true ↔ c.stage = .generated) ∧ (c.diagnostics.hasErrors = true ↔ c.stage = .failed) ∧
          (c.analysis.isSome = true ↔ c.stage ≠ .parsed) ∧
          (c.stage = .generated ∨ c.stage = .failed →
            (∀ later, c.requests later = some c) ∧ (ofProgram p).run = some c) ∧
          (ofProgram p).made (rs.flatMap Request.passes) <+: Pass.all ∧
          (ofProgram p).passes ((ofProgram p).made (rs.flatMap Request.passes)) = some c := by
  obtain ⟨tokens, htokens⟩ := Program.tokens_of_ofSource hread
  rw [requests_eq]
  refine ⟨fun h => isSome_passes h _, fun hnone limit => ?_, fun c hc => ?_⟩
  · by_contra hsome
    obtain ⟨result, hresult⟩ := Option.ne_none_iff_exists'.mp hsome
    have hinfer := (Analysis.infer_eq_some_iff (Program.wellFormed_of_ofTokens htokens)).mpr ⟨limit, hresult⟩
    have hpasses := isSome_passes (isSome_infer (Option.isSome_of_eq_some hinfer)) (rs.flatMap Request.passes)
    rw [hnone] at hpasses
    cases hpasses
  have hreach := reaches_of_passes hc
  have herrors : c.diagnostics.hasErrors = true ↔ c.diagnostics.errors ≠ [] := by
    simp [Diagnostics.hasErrors]
  refine ⟨hreach.output_iff, herrors.trans (hreach.errors_iff htokens), hreach.analysis_iff, fun hend => ?_,
    hreach.isPrefix, passes_made hc⟩
  have hfinal : c.stage.isFinal = true := by
    rcases hend with h | h <;> (rw [h]; rfl)
  exact ⟨fun later => (requests_eq c later).trans (passes_of_isFinal hfinal _), run_of_isFinal hc hfinal⟩

def leadsTo (source : String) (rs : List Request) (stage : Stage) : Bool :=
  (Program.ofSource source "").toOption.any fun p => ((ofProgram p).requests rs).any fun c => decide (c.stage = stage)

lemma of_leadsTo {source : String} {rs : List Request} {stage : Stage} (h : leadsTo source rs stage = true) :
    ∃ p c, Program.ofSource source "" = .ok p ∧ (ofProgram p).requests rs = some c ∧ c.stage = stage := by
  obtain ⟨p, hread, hrun⟩ := (Option.any_eq_true _ _).mp h
  obtain ⟨c, hreach, hend⟩ := (Option.any_eq_true _ _).mp hrun
  exact ⟨p, c, Program.of_toOption hread, hreach, of_decide_eq_true hend⟩

/-- Requests out of order, repeated ones and some after the end, for a program that compiles and one that does not. -/
theorem stage_decides_state_out_of_order :
    (∃ p c, Program.ofSource "rule r \x7b score 1; \x7d" "" = .ok p ∧
      (ofProgram p).requests [.generate, .infer, .check, .check, .infer, .run, .check] = some c ∧
      c.stage = .generated ∧ c.output.isSome = true ∧ ¬c.diagnostics.hasErrors = true ∧
      c.requests [.check, .generate, .run] = some c ∧ (ofProgram p).run = some c) ∧
    ∃ p c, Program.ofSource "rule r \x7b num a := 1; \x7d" "" = .ok p ∧
      (ofProgram p).requests [.infer, .check, .infer, .check] = some c ∧
      c.stage = .failed ∧ ¬c.output.isSome = true ∧ c.diagnostics.hasErrors = true ∧
      c.requests [.generate, .run] = some c ∧ (ofProgram p).run = some c := by
  constructor
  · have hleads : leadsTo "rule r \x7b score 1; \x7d"
        [.generate, .infer, .check, .check, .infer, .run, .check] .generated = true := by decide +kernel
    obtain ⟨p, c, hread, hreach, hstage⟩ := of_leadsTo hleads
    obtain ⟨houtput, herrors, -, hend, -⟩ := (stage_decides_state hread _).2.2 c hreach
    obtain ⟨hfixed, hrun⟩ := hend (.inl hstage)
    exact ⟨p, c, hread, hreach, hstage, houtput.mpr hstage, by simp [herrors, hstage], hfixed _, hrun⟩
  · have hleads : leadsTo "rule r \x7b num a := 1; \x7d" [.infer, .check, .infer, .check] .failed = true := by
      decide +kernel
    obtain ⟨p, c, hread, hreach, hstage⟩ := of_leadsTo hleads
    obtain ⟨houtput, herrors, -, hend, -⟩ := (stage_decides_state hread _).2.2 c hreach
    obtain ⟨hfixed, hrun⟩ := hend (.inr hstage)
    exact ⟨p, c, hread, hreach, hstage, by simp [houtput, hstage], herrors.mpr hstage, hfixed _, hrun⟩

end Compilation

end ChessEval
