import ChessEval.Proofs.LoopBlocks
import ChessEval.Proofs.Progress

/-!
# Conflicts of types

Inference reports a conflict if no types meet the constraints of a program. The uses of a variable whose
type is known cannot clash, since the analysis has compared each of them with that type. A conflict needs a
loop over a source of unknown type whose variable is used at least twice: each of its uses is accepted on
its own, and only inference brings them together.
-/

namespace ChessEval

open List

namespace Collect

open Collection

/-- What a step outside of all blocks collects can be met by changing only the types of its own nodes and
loops. -/
def AddsOutside (base : Nat → Ty) (nodes : Nat) (ids : List Nat) (loops : List Ty) (x : Collect Unit) : Prop :=
  ∀ c result c', x.run c = (result, c') → c.scopes = [] → nodes ≤ c.nextSlot →
    CarriesFrom base c.nextSlot loops → c'.scopes = [] ∧ Adds base [] ids loops (fun _ => 0) c c'

section Definitions

variable {a : Analysis} {base : Nat → Ty} {nodes : Nat} {ids ids' : List Nat} {loops loops' : List Ty}

lemma sound_globals {block : List (String × Ty)} {next : Nat} (hblock : ∀ x ∈ block, x.2.isResolved = true) :
    LoopScopes.Sound base nodes next [] [block] :=
  ⟨.globals hblock, fun _ _ _ h => nomatch h⟩

lemma usedOnce_outside {scopes : LoopScopes} (hscopes : ∀ name, scopes.slot? name = none) (uses : String → Nat) :
    UsedOnce base scopes uses := by
  intro name slot hslot
  rw [hscopes] at hslot
  cases hslot

lemma AddsOutside.bind {x y : Collect Unit} (hx : AddsOutside base nodes ids loops x)
    (hy : AddsOutside base nodes ids' loops' y) (hnodup : (ids ++ ids').Nodup)
    (hbelow : ∀ id ∈ ids ++ ids', id < nodes) :
    AddsOutside base nodes (ids ++ ids') (loops ++ loops') (x >>= fun _ => y) := by
  intro c result c' h hscopes hnext hcarries
  rw [runState_bind] at h
  obtain ⟨_, d, hd, h⟩ := h
  obtain ⟨hcarries₁, hcarries₂⟩ := carriesFrom_append.mp hcarries
  obtain ⟨hscopes₁, hadds₁⟩ := hx c _ d hd hscopes hnext hcarries₁
  have hnext₁ := hadds₁.next
  obtain ⟨hscopes₂, hadds₂⟩ := hy d _ c' h hscopes₁ (by omega) (hnext₁ ▸ hcarries₂)
  have hsound : LoopScopes.Sound base nodes c.nextSlot [] [[]] := sound_globals (by simp)
  exact ⟨hscopes₂, hadds₁.trans hadds₂ hsound hnodup hbelow hnext (usedOnce_outside (fun _ => rfl) _)⟩

lemma addsOutside_each {α : Type} {step : α → Collect Unit} {items : List α} {ids : α → List Nat}
    {loops : α → List Ty} (hstep : ∀ x ∈ items, AddsOutside base nodes (ids x) (loops x) (step x))
    (hnodup : (items.flatMap ids).Nodup) (hbelow : ∀ id ∈ items.flatMap ids, id < nodes) :
    AddsOutside base nodes (items.flatMap ids) (items.flatMap loops) (each step items) := by
  induction items with
  | nil =>
    intro c result c' h hscopes _ _
    cases h
    exact ⟨hscopes, rfl, [], (append_nil _).symm, .of_forall fun τ _ => by simp⟩
  | cons x rest ih =>
    obtain ⟨hx, hrest⟩ := forall_mem_cons.mp hstep
    rw [flatMap_cons] at hnodup hbelow ⊢
    have hbelowRest : ∀ id ∈ rest.flatMap ids, id < nodes := fun id hid => hbelow id (mem_append_right _ hid)
    exact hx.bind (ih hrest (nodup_append'.mp hnodup).2.1 hbelowRest) hnodup hbelow

lemma place_params {ps : List Param} {inner : List (String × Ty)} {Γ : NameTypes} {c c' : Collection} {result : Unit}
    (hresolved : ∀ q ∈ ps, q.type.isResolved = true) (hopen : c.scopes ≠ [])
    (hnone : ∀ name, c.scopes.slot? name = none) (hplace : Place base nodes (inner :: Γ) c)
    (h : (params ps).run c = (result, c')) :
    ∃ scopes, c' = { c with scopes := scopes } ∧ scopes ≠ [] ∧ scopes.tail = c.scopes.tail ∧
      (∀ name, scopes.slot? name = none) ∧
      Place base nodes (((ps.map fun q => (q.name, q.type)).reverse ++ inner) :: Γ) c' := by
  induction ps generalizing c inner with
  | nil =>
    cases h
    exact ⟨_, rfl, hopen, rfl, hnone, hplace⟩
  | cons q rest ih =>
    rw [params, runState_bind] at h
    obtain ⟨_, d, hbind, hrest⟩ := h
    cases hbind
    obtain ⟨hq, hresolved⟩ := forall_mem_cons.mp hresolved
    have hnone' : ∀ name, (c.scopes.bind q.name none).slot? name = none := by
      intro name
      rw [Option.eq_none_iff_forall_ne_some]
      intro slot hslot
      cases (LoopScopes.slot?_bind hslot).1.symm.trans (hnone name)
    have htail : (c.scopes.bind q.name none).tail = c.scopes.tail := by cases c.scopes <;> rfl
    have hbound : Place base nodes (((q.name, q.type) :: inner) :: Γ)
        { c with scopes := c.scopes.bind q.name none } := ⟨hplace.sound.bind hopen hq, hplace.next⟩
    obtain ⟨scopes, hc', hopen', htail', hnone'', hplace'⟩ :=
      ih hresolved (c := { c with scopes := c.scopes.bind q.name none }) (bind_ne_nil hopen) hnone' hbound hrest
    refine ⟨scopes, hc', hopen', htail'.trans htail, hnone'', ?_⟩
    rw [map_cons, reverse_cons, append_assoc]
    exact hplace'

variable (hbased : Based a base nodes) {block : List (String × Ty)}
include hbased

lemma addsOutside_global (hblock : ∀ x ∈ block, x.2.isResolved = true) {g : GlobalDef}
    (htyped : g.value.AllTyped a [block])
    (hunifies : g.type.unifies (a.types.typeOf g.value.id) = true) (hnodes : g.value.Within nodes)
    (hnodup : g.value.ids.Nodup) : AddsOutside base nodes g.value.ids [] (global a g) := by
  intro c result c' h hscopes hnext _
  have hnone : ∀ name, c.scopes.slot? name = none := by simp [hscopes, LoopScopes.slot?]
  have hplace : Place base nodes [block] c := ⟨hscopes ▸ sound_globals hblock, hnext⟩
  obtain ⟨hscopes', hadds⟩ := adds_exprOf hbased hplace htyped hunifies hnodup hnodes (usedOnce_outside hnone _) h
  exact ⟨hscopes'.trans hscopes, hadds.outside hnone⟩

/-- A body is collected from in a block of its own, in which no variable of a loop is in scope. -/
lemma adds_body {body : List Stmt} {returnType : Ty} {context : Context} {inner : List (String × Ty)}
    {c d c' : Collection} {result : Unit} (htyped : Stmt.BlockTyped a [inner, block] body)
    (hfit : ∀ s ∈ Stmt.blockParts body, s.Fit a nodes returnType)
    (hplace : Place base nodes [inner, block] c) (hopen : c.scopes ≠ []) (htail : c.scopes.tail = [])
    (hnone : ∀ name, c.scopes.slot? name = none)
    (hcarries : CarriesFrom base c.nextSlot (Stmt.loopTypes a (Stmt.blockParts body)))
    (hnodup : (Stmt.blockIds body).Nodup) (hbody : (statements a returnType context body).run c = (result, d))
    (hclose : closeScope.run d = (result, c')) :
    c'.scopes = [] ∧
      Adds base [] (Stmt.blockIds body) (Stmt.loopTypes a (Stmt.blockParts body)) (fun _ => 0) c c' := by
  obtain ⟨hscopes, hadds⟩ := adds_statements hbased body _ _ _ _ _ _ hbody htyped hfit hplace hopen hcarries hnodup
    (usedOnce_outside hnone _)
  have hadds := hadds.outside hnone
  cases hclose
  exact ⟨hscopes.trans htail, hadds.next, hadds.constraints⟩

lemma addsOutside_function {f : FunctionDef} (hblock : ∀ x ∈ block, x.2.isResolved = true)
    (hparams : ∀ q ∈ f.params, q.type.isResolved = true) (htyped : Stmt.BlockTyped a [f.names, block] f.body)
    (hfit : ∀ s ∈ Stmt.blockParts f.body, s.Fit a nodes f.returnType) (hnodup : (Stmt.blockIds f.body).Nodup) :
    AddsOutside base nodes (Stmt.blockIds f.body) (Stmt.loopTypes a (Stmt.blockParts f.body)) (function a f) := by
  intro c result c' h hscopes hnext hcarries
  simp only [function, runState_bind] at h
  obtain ⟨_, c₁, h₁, _, c₂, h₂, _, c₃, h₃, h₄⟩ := h
  cases h₁
  have hplace : Place base nodes [[], block] { c with scopes := [] :: c.scopes } :=
    ⟨(hscopes ▸ sound_globals hblock : c.scopes.Sound base nodes c.nextSlot [block]).push, hnext⟩
  have hnone : ∀ name, LoopScopes.slot? ([] :: c.scopes) name = none := by simp [hscopes, LoopScopes.slot?]
  obtain ⟨scopes, rfl, hopen, htail, hnone₂, hplace₂⟩ :=
    place_params hparams (c := { c with scopes := [] :: c.scopes }) (cons_ne_nil _ _) hnone hplace h₂
  rw [append_nil] at hplace₂
  obtain ⟨hscopes', hadds⟩ := adds_body hbased htyped hfit hplace₂ hopen (htail.trans hscopes) hnone₂ hcarries hnodup
    h₃ h₄
  exact ⟨hscopes', hadds.next, hadds.constraints⟩

lemma addsOutside_rule {r : RuleDef} (hblock : ∀ x ∈ block, x.2.isResolved = true)
    (hguard : ∀ e ∈ r.guard, e.AllTyped a [block]) (hwithin : ∀ e ∈ r.guard, e.Within nodes)
    (htyped : Stmt.BlockTyped a [[], block] r.body)
    (hfit : ∀ s ∈ Stmt.blockParts r.body, s.Fit a nodes .void)
    (hnodup : (r.guard.toList.flatMap Expr.ids ++ Stmt.blockIds r.body).Nodup) :
    AddsOutside base nodes (r.guard.toList.flatMap Expr.ids ++ Stmt.blockIds r.body)
      (Stmt.loopTypes a (Stmt.blockParts r.body)) (rule a r) := by
  intro c result c' h hscopes hnext hcarries
  rw [rule, runState_bind] at h
  obtain ⟨_, c₁, h₁, h⟩ := h
  cases h₁
  have hsound : LoopScopes.Sound base nodes c.nextSlot ([] :: c.scopes) [[], block] :=
    (hscopes ▸ sound_globals hblock : c.scopes.Sound base nodes c.nextSlot [block]).push
  have hplace : Place base nodes [[], block] { c with scopes := [] :: c.scopes } := ⟨hsound, hnext⟩
  have hnone : ∀ name, LoopScopes.slot? ([] :: c.scopes) name = none := by simp [hscopes, LoopScopes.slot?]
  cases hr : r.guard with
  | none =>
    rw [hr] at h hnodup
    simp only [runState_bind] at h
    obtain ⟨_, c₃, h₃, h₄⟩ := h
    obtain ⟨hscopes', hadds⟩ := adds_body hbased htyped hfit hplace (cons_ne_nil _ _) hscopes hnone hcarries
      hnodup h₃ h₄
    exact ⟨hscopes', hadds.next, hadds.constraints⟩
  | some e =>
    rw [hr] at h hnodup
    simp only [runState_bind] at h
    obtain ⟨_, c₂, h₂, _, c₃, h₃, h₄⟩ := h
    simp only [Option.toList_some, flatMap_singleton] at hnodup ⊢
    obtain ⟨hnodup₁, hnodup₂, -⟩ := nodup_append'.mp hnodup
    obtain ⟨hscopes₂, hadds₂⟩ := adds_expr hbased hplace (allTyped_push (hguard e hr)) hnodup₁ (hwithin e hr)
      (usedOnce_outside hnone _) h₂
    have hplace₂ := hplace.step hscopes₂ hadds₂
    have hnext₂ : c₂.nextSlot = c.nextSlot := hadds₂.next
    obtain ⟨hscopes', hadds⟩ := adds_body hbased htyped hfit hplace₂ (hscopes₂ ▸ cons_ne_nil _ _)
      (hscopes₂ ▸ hscopes) (hscopes₂ ▸ hnone) (hnext₂ ▸ hcarries) hnodup₂ h₃ h₄
    have hall := (hadds₂.outside hnone).trans hadds (sound_globals hblock) hnodup
      (within_append (hwithin e hr) hfit) hnext (usedOnce_outside (fun _ => rfl) _)
    exact ⟨hscopes', hall.next, hall.constraints⟩

end Definitions

end Collect

namespace Program

variable {a : Analysis} {p : Program}

/-- The types of the variables of all loops, in the order in which they get their slots. -/
def loopTypes (a : Analysis) (p : Program) : List Ty :=
  p.functions.flatMap (fun f => Stmt.loopTypes a (Stmt.blockParts f.body)) ++
    p.rules.flatMap fun r => Stmt.loopTypes a (Stmt.blockParts r.body)

/-- What the analysis knows about the types of nodes and of the variables of loops. -/
def baseTypes (a : Analysis) (p : Program) (slot : Nat) : Ty :=
  if slot < a.nodeCount p then a.types.typeOf slot else (p.loopTypes a)[slot - a.nodeCount p]?.getD .generic

lemma carriesFrom_baseTypes : CarriesFrom (p.baseTypes a) (a.nodeCount p) (p.loopTypes a) := by
  intro i type hi
  have hrange : ¬a.nodeCount p + i < a.nodeCount p := by omega
  rw [baseTypes, if_neg hrange, Nat.add_sub_cancel_left, hi]
  rfl

lemma WellFormed.within (hwf : p.WellFormed) {e : Expr} (he : e ∈ p.exprs) : e.Within (a.nodeCount p) := by
  intro n hn
  have hnode : n ∈ p.nodes := mem_flatMap.mpr ⟨e, he, hn⟩
  exact ⟨hwf.filled n hnode, a.lt_nodeCount hwf hnode⟩

lemma GlobalsTyped.unifies {gs : List GlobalDef} {block : List (String × Ty)} (h : GlobalsTyped a block gs) :
    ∀ g ∈ gs, g.type.unifies (a.types.typeOf g.value.id) = true := by
  induction gs generalizing block with
  | nil => simp
  | cons g rest ih => exact forall_mem_cons.mpr ⟨h.2.1, ih h.2.2⟩

section Solvable

variable (hwf : p.WellFormed) (htyped : p.Typed a) (honce : ∀ s ∈ p.stmts, s.UsesOnce a)
include hwf htyped

lemma based : Collect.Based a (p.baseTypes a) (a.nodeCount p) :=
  ⟨fun _ hid => if_pos hid, fun _ _ _ => htyped.isResolved_returnType hwf⟩

lemma addsOutside_globals (hnodup : (p.globals.flatMap fun g => g.value.ids).Nodup)
    (hbelow : ∀ id ∈ p.globals.flatMap fun g => g.value.ids, id < a.nodeCount p) :
    Collect.AddsOutside (p.baseTypes a) (a.nodeCount p) (p.globals.flatMap fun g => g.value.ids) []
      (Collect.each (Collect.global a) p.globals) := by
  have hloops : (p.globals.flatMap fun _ => ([] : List Ty)) = [] := flatMap_eq_nil_iff.mpr fun _ _ => rfl
  rw [← hloops]
  refine Collect.addsOutside_each (fun g hg => ?_) hnodup hbelow
  obtain ⟨block, hblock, hvalue⟩ := htyped.globals.value (by simp) (fun _ => hwf.global) g hg
  exact Collect.addsOutside_global (based hwf htyped) hblock hvalue (htyped.globals.unifies g hg)
    (hwf.within (mem_exprs.mpr (.inl ⟨g, hg, rfl⟩))) ((nodup_flatMap.mp hnodup).1 g hg)

include honce

lemma fit_function {f : FunctionDef} (hf : f ∈ p.functions) :
    ∀ s ∈ Stmt.blockParts f.body, s.Fit a (a.nodeCount p) f.returnType := by
  intro s hs
  have hmem : s ∈ p.stmts := mem_stmts.mpr (.inl ⟨f, hf, hs⟩)
  refine ⟨hwf.functionBody hf s hs, ?_, fun e he => hwf.within (mem_exprs.mpr (.inr (.inr ⟨s, hmem, he⟩))), honce s hmem⟩
  rintro value line rfl
  exact htyped.functionReturns f hf value line hs

lemma fit_rule {r : RuleDef} (hr : r ∈ p.rules) :
    ∀ s ∈ Stmt.blockParts r.body, s.Fit a (a.nodeCount p) .void := by
  intro s hs
  have hmem : s ∈ p.stmts := mem_stmts.mpr (.inr ⟨r, hr, hs⟩)
  refine ⟨hwf.ruleBody hr s hs, ?_, fun e he => hwf.within (mem_exprs.mpr (.inr (.inr ⟨s, hmem, he⟩))), honce s hmem⟩
  rintro value line rfl
  exact htyped.ruleReturns r hr value line hs

lemma addsOutside_functions (hnodup : (p.functions.flatMap fun f => Stmt.blockIds f.body).Nodup)
    (hbelow : ∀ id ∈ p.functions.flatMap fun f => Stmt.blockIds f.body, id < a.nodeCount p) :
    Collect.AddsOutside (p.baseTypes a) (a.nodeCount p) (p.functions.flatMap fun f => Stmt.blockIds f.body)
      (p.functions.flatMap fun f => Stmt.loopTypes a (Stmt.blockParts f.body))
      (Collect.each (Collect.function a) p.functions) := by
  refine Collect.addsOutside_each (fun f hf => ?_) hnodup hbelow
  exact Collect.addsOutside_function (based hwf htyped) hwf.globalNames (hwf.params hf) (htyped.functions f hf)
    (fit_function hwf htyped honce hf) ((nodup_flatMap.mp hnodup).1 f hf)

lemma addsOutside_rules
    (hnodup : (p.rules.flatMap fun r => r.guard.toList.flatMap Expr.ids ++ Stmt.blockIds r.body).Nodup)
    (hbelow : ∀ id ∈ p.rules.flatMap fun r => r.guard.toList.flatMap Expr.ids ++ Stmt.blockIds r.body,
      id < a.nodeCount p) :
    Collect.AddsOutside (p.baseTypes a) (a.nodeCount p)
      (p.rules.flatMap fun r => r.guard.toList.flatMap Expr.ids ++ Stmt.blockIds r.body)
      (p.rules.flatMap fun r => Stmt.loopTypes a (Stmt.blockParts r.body))
      (Collect.each (Collect.rule a) p.rules) := by
  refine Collect.addsOutside_each (fun r hr => ?_) hnodup hbelow
  exact Collect.addsOutside_rule (based hwf htyped) hwf.globalNames (fun e he => (htyped.guards r hr e he).1)
    (fun e he => hwf.within (mem_exprs.mpr (.inr (.inl ⟨r, hr, he⟩)))) (htyped.rules r hr)
    (fit_rule hwf htyped honce hr) ((nodup_flatMap.mp hnodup).1 r hr)

/-- If no variable of unknown type is used twice, then some types meet all constraints of the program. -/
theorem solvable_of_usesOnce :
    ∃ σ, Solution (a.initialTypes (a.nodeCount p) (a.collect p (a.nodeCount p)).nextSlot)
      (a.collect p (a.nodeCount p)).constraints σ := by
  have hnodup := hwf.nodup
  have hbelow : ∀ id ∈ p.nodes.map Expr.id, id < a.nodeCount p := by
    intro id hid
    obtain ⟨n, hn, rfl⟩ := mem_map.mp hid
    exact a.lt_nodeCount hwf hn
  have hperm := perm_definitions p.definitions
  rw [map_id_nodes] at hnodup hbelow
  rw [hperm.nodup_iff] at hnodup
  simp only [hperm.mem_iff] at hbelow
  change (p.globals.flatMap _ ++ (p.functions.flatMap _ ++ p.rules.flatMap _)).Nodup at hnodup
  change ∀ id ∈ p.globals.flatMap _ ++ (p.functions.flatMap _ ++ p.rules.flatMap _), _ at hbelow
  obtain ⟨hnodupGlobals, hnodupRest, -⟩ := nodup_append'.mp hnodup
  obtain ⟨hnodupFunctions, hnodupRules, -⟩ := nodup_append'.mp hnodupRest
  obtain ⟨hbelowGlobals, hbelowRest⟩ := forall_mem_append.mp hbelow
  obtain ⟨hbelowFunctions, hbelowRules⟩ := forall_mem_append.mp hbelowRest
  have hglobals := addsOutside_globals hwf htyped hnodupGlobals hbelowGlobals
  have hfunctions := addsOutside_functions hwf htyped honce hnodupFunctions hbelowFunctions
  have hrules := addsOutside_rules hwf htyped honce hnodupRules hbelowRules
  have hprogram := hglobals.bind (hfunctions.bind hrules hnodupRest hbelowRest) hnodup hbelow
  -- the types that the analysis knows are the start, and the program is one part
  have hcarries : CarriesFrom (p.baseTypes a) (a.nodeCount p) ([] ++ p.loopTypes a) := carriesFrom_baseTypes
  obtain ⟨-, hadds⟩ := hprogram ⟨[], a.nodeCount p, [], [], []⟩ _ _ rfl rfl le_rfl hcarries
  obtain ⟨new, heq, hnew⟩ := hadds.constraints
  obtain ⟨τ, hτ, -, hmet⟩ := hnew (p.baseTypes a) le_rfl
  have hconstraints : (a.collect p (a.nodeCount p)).constraints = new := heq
  refine ⟨τ, fun slot _ => ?_, hconstraints ▸ hmet τ hτ fun _ _ => rfl⟩
  by_cases hslot : slot < a.nodeCount p
  · rw [a.getD_initialTypes hslot, ← (based hwf htyped).nodes slot hslot]
    exact hτ slot
  · rw [a.getD_initialTypes_of_le (not_lt.mp hslot)]
    exact Ty.generic_le _

end Solvable

end Program

def Issue.isConflict : Issue → Bool
  | .inferenceConflict .. => true
  | _ => false

namespace Diagnostics

/-- Whether a conflict of types has been reported. -/
def hasConflict (ds : Diagnostics) : Bool :=
  ds.errors.any fun d => d.fault.issue.isConflict

lemma hasConflict_add {fault : Fault} (hfault : fault.issue.isWarning = false) (ds : Diagnostics)
    (place : Option String) : (ds.add fault place).hasConflict = (ds.hasConflict || fault.issue.isConflict) := by
  rw [hasConflict, errors_add hfault, any_append]
  simp [hasConflict]

lemma hasConflict_foldl {α : Type} {good : α → Bool} {fault : α → Fault} {place : α → Option String}
    (hfault : ∀ x, (fault x).issue.isWarning = false) (hconflict : ∀ x, (fault x).issue.isConflict = false)
    (items : List α) (ds : Diagnostics) :
    (items.foldl (fun ds x => if good x then ds else ds.add (fault x) (place x)) ds).hasConflict =
      ds.hasConflict := by
  induction items generalizing ds with
  | nil => rfl
  | cons x rest ih =>
    rw [foldl_cons, ih]
    by_cases hx : good x = true
    · rw [if_pos hx]
    · rw [if_neg hx, hasConflict_add (hfault x), hconflict x, Bool.or_false]

end Diagnostics

namespace Program

/-- Inference after a check without errors reports a conflict exactly if the constraints cannot be met. -/
lemma hasConflict_iff {a a' : Analysis} {p : Program} {limit : Nat} {ds ds' : Diagnostics} (hwf : p.WellFormed)
    (hclean : ds.errors = []) (h : a.inferWithin limit p ds = some (a', ds')) :
    ds'.hasConflict = true ↔
      ¬∃ σ, Solution (a.initialTypes (a.nodeCount p) (a.collect p (a.nodeCount p)).nextSlot)
        (a.collect p (a.nodeCount p)).constraints σ := by
  have hnone : ds.hasConflict = false := by simp [Diagnostics.hasConflict, hclean]
  unfold Analysis.inferWithin at h
  rcases hrun : (Unify.solve limit (a.collect p (a.nodeCount p)).constraints).run
    (.ofTypes (a.initialTypes (a.nodeCount p) (a.collect p (a.nodeCount p)).nextSlot)) with
    ⟨issue | settled, u⟩
  · obtain ⟨⟨expected, received, rfl⟩, hunsolvable⟩ := Unify.unsolvable_of_solve (a.slots_lt_size hwf) hrun
    simp only [hrun] at h
    cases h
    rw [Diagnostics.hasConflict_add rfl, hnone]
    exact iff_of_true rfl fun ⟨σ, hσ⟩ => hunsolvable σ hσ
  · cases settled with
    | false =>
      simp only [hrun] at h
      cases h
    | true =>
      have hsolution := Unify.solution_of_solve (a.slots_lt_size hwf) hrun
      simp only [hrun] at h
      cases h
      have hsame : (Analysis.unresolvedLists (Analysis.writeBack u (a.nodeCount p) a.types) p.file
          (a.collect p (a.nodeCount p)).emptyLists (Analysis.unresolvedSources
            (Analysis.writeBack u (a.nodeCount p) a.types) p.file (a.collect p (a.nodeCount p)).sources
            ds)).hasConflict = false :=
        (Diagnostics.hasConflict_foldl (fun _ => rfl) (fun _ => rfl) _ _).trans
          ((Diagnostics.hasConflict_foldl (fun _ => rfl) (fun _ => rfl) _ _).trans hnone)
      rw [hsame]
      exact iff_of_false (by simp) fun hnot => hnot ⟨_, hsolution⟩

/-- After a check without errors, inference reports a conflict exactly if no types meet the constraints. That
takes a loop over a source of unknown type whose variable is used at least twice in its body. -/
theorem conflict_needs_reused_variable {tokens : List Token} {file : String} {p : Program} {a a' : Analysis}
    {ds ds' ds'' : Diagnostics} {limit : Nat} (hread : (Program.ofTokens tokens file).1 = .ok p)
    (hcheck : p.check ds = (a, ds')) (hclean : ds'.errors = [])
    (hinfer : a.inferWithin limit p ds' = some (a', ds'')) :
    (ds''.hasConflict = true ↔
      ¬∃ σ, Solution (a.initialTypes (a.nodeCount p) (a.collect p (a.nodeCount p)).nextSlot)
        (a.collect p (a.nodeCount p)).constraints σ) ∧
    (ds''.hasConflict = true → ∃ name source body line, .forAll name source body line ∈ p.stmts ∧
      (a.types.typeOf source.id).isResolved = false ∧ 2 ≤ Stmt.blockUses name body) := by
  have hwf := wellFormed_of_ofTokens hread
  have htyped := p.typed_of_check hwf.nodup hcheck hclean
  have hiff := hasConflict_iff hwf hclean hinfer
  refine ⟨hiff, fun hconflict => ?_⟩
  by_contra hnot
  refine hiff.mp hconflict (solvable_of_usesOnce hwf htyped fun s hs => ?_)
  rintro name source body line rfl
  by_contra hboth
  obtain ⟨hopen, huses⟩ := not_or.mp hboth
  exact hnot ⟨name, source, body, line, hs, by simpa using hopen, by omega⟩

/-- Whether a text spells a program that is checked without errors and in which inference reports a conflict. -/
def conflictsIn (source : String) (limit : Nat) : Bool :=
  (Program.ofSource source "").toOption.any fun p => (p.check {}).2.errors.isEmpty &&
    ((p.check {}).1.inferWithin limit p (p.check {}).2).any fun result => result.2.hasConflict

lemma of_conflictsIn {source : String} {limit : Nat} (h : conflictsIn source limit = true) :
    ∃ p a ds a' ds', Program.ofSource source "" = .ok p ∧ p.check {} = (a, ds) ∧ ds.errors = [] ∧
      a.inferWithin limit p ds = some (a', ds') ∧ ds'.hasConflict = true := by
  obtain ⟨p, hread, htest⟩ := (Option.any_eq_true _ _).mp h
  obtain ⟨hclean, hinfer⟩ := (Bool.and_eq_true _ _).mp htest
  obtain ⟨⟨a', ds'⟩, hinfer, hconflict⟩ := (Option.any_eq_true _ _).mp hinfer
  rcases hcheck : p.check {} with ⟨a, ds⟩
  rw [hcheck] at hclean hinfer
  exact ⟨p, a, ds, a', ds', of_toOption hread, hcheck, List.isEmpty_iff.mp hclean, hinfer, hconflict⟩

/-- A variable of lists whose elements are unknown, used as a list of numbers and as a list of truth values. -/
theorem conflict_needs_reused_variable_lists :
    ∃ p a ds a' ds',
      Program.ofSource ("rule r \x7b forall (x in [[]]) \x7b num[] a := x; bool[] b := x; " ++
        "score len(a) + len(b); \x7d \x7d") "" = .ok p ∧
      p.check {} = (a, ds) ∧ ds.errors = [] ∧ a.inferWithin 3 p ds = some (a', ds') ∧ ds'.hasConflict = true ∧
      (¬∃ σ, Solution (a.initialTypes (a.nodeCount p) (a.collect p (a.nodeCount p)).nextSlot)
        (a.collect p (a.nodeCount p)).constraints σ) ∧
      ∃ name source body line, .forAll name source body line ∈ p.stmts ∧
        (a.types.typeOf source.id).isResolved = false ∧ 2 ≤ Stmt.blockUses name body := by
  have hrun : conflictsIn ("rule r \x7b forall (x in [[]]) \x7b num[] a := x; bool[] b := x; " ++
      "score len(a) + len(b); \x7d \x7d") 3 = true := by
    decide +kernel
  obtain ⟨p, a, ds, a', ds', hread, hcheck, hclean, hinfer, hconflict⟩ := of_conflictsIn hrun
  obtain ⟨tokens, htokens⟩ := tokens_of_ofSource hread
  obtain ⟨hiff, hreused⟩ := conflict_needs_reused_variable htokens hcheck hclean hinfer
  exact ⟨p, a, ds, a', ds', hread, hcheck, hclean, hinfer, hconflict, hiff.mp hconflict, hreused hconflict⟩

/-- A loop variable of unknown type may be assigned a number and a truth value: the check accepts both, and
inference reports a conflict. -/
theorem two_assignments_conflict :
    ∃ p a ds a' ds',
      Program.ofSource "rule r \x7b forall (x in []) \x7b x := 1; x := true; \x7d score 1; \x7d" "" = .ok p ∧
      p.check {} = (a, ds) ∧ ds.errors = [] ∧ a.inferWithin 3 p ds = some (a', ds') ∧ ds'.hasConflict = true :=
  of_conflictsIn (by decide +kernel)

end Program

end ChessEval
