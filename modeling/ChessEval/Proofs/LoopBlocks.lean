import ChessEval.Proofs.CheckedTypes
import ChessEval.Proofs.LoopVariables

namespace ChessEval

open List

variable {nodes : Nat} {a : Analysis} {returnType type : Ty} {base : Nat → Ty} {ds : List Declarator} {name : String}
  {e : Expr} {body : List Stmt}

/-- An expression whose nodes come from a program with the given number of nodes. -/
def Expr.Within (nodes : Nat) (e : Expr) : Prop :=
  ∀ n ∈ e.nodes, n.Filled ∧ n.id < nodes

lemma Expr.below_of_within {es : List Expr} (h : ∀ e ∈ es, e.Within nodes) :
    ∀ id ∈ es.flatMap Expr.ids, id < nodes := by
  intro id hid
  obtain ⟨e, he, hid⟩ := mem_flatMap.mp hid
  obtain ⟨n, hn, rfl⟩ := mem_map.mp hid
  exact (h e he n hn).2

namespace Stmt

def optionalUses (name : String) : Option Expr → Nat
  | none => 0
  | some e => e.uses name

def declaresName (name : String) : Stmt → Bool
  | .declare _ ds _ => ds.any fun d => d.name == name
  | _ => false

def declaratorUses (name : String) : List Declarator → Nat
  | [] => 0
  | d :: rest => optionalUses name d.value + if d.name = name then 0 else declaratorUses name rest

mutual

def uses (name : String) : Stmt → Nat
  | .declare _ ds _ => declaratorUses name ds
  | .assign target value _ => target.uses name + value.uses name
  | .ifThen condition thenBody none _ => condition.uses name + blockUses name thenBody
  | .ifThen condition thenBody (some elseBody) _ =>
    condition.uses name + (blockUses name thenBody + blockUses name elseBody)
  | .whileDo condition body _ => condition.uses name + blockUses name body
  | .forAll other source body _ => source.uses name + if other = name then 0 else blockUses name body
  | .returns value _ => optionalUses name value
  | .score value _ => value.uses name
  | .call site _ => site.uses name

/-- How often a block uses a name from outside of it. -/
def blockUses (name : String) : List Stmt → Nat
  | [] => 0
  | s :: rest => s.uses name + if s.declaresName name then 0 else blockUses name rest

end

def loopTypes (a : Analysis) (stmts : List Stmt) : List Ty :=
  stmts.filterMap fun
    | .forAll _ source _ _ => (a.types.typeOf source.id).element?.toOption
    | _ => none

/-- The variable of a loop has a known type or is used at most once. -/
def UsesOnce (a : Analysis) (s : Stmt) : Prop :=
  ∀ name source body line, s = .forAll name source body line →
    (a.types.typeOf source.id).isResolved = true ∨ blockUses name body ≤ 1

/-- What the typing rules leave open about a statement of a program: its declared types are known, what it
returns fits, and its nodes come from the program. -/
structure Fit (a : Analysis) (nodes : Nat) (returnType : Ty) (s : Stmt) : Prop where
  declared : ∀ type ∈ s.declared, type.isResolved = true
  returned : ∀ value line, s = .returns value line → returnType.unifies (returnedType a.types value) = true
  nodes : ∀ e ∈ s.exprs, e.Within nodes
  once : s.UsesOnce a

lemma Fit.below {parts : List Stmt} (h : ∀ s ∈ parts, s.Fit a nodes returnType) :
    ∀ id ∈ (parts.flatMap exprs).flatMap Expr.ids, id < nodes := by
  refine Expr.below_of_within fun e he => ?_
  obtain ⟨s, hs, he⟩ := mem_flatMap.mp he
  exact (h s hs).nodes e he

end Stmt

/-- Slots from `first` on have the given types. -/
def CarriesFrom (base : Nat → Ty) (first : Nat) (types : List Ty) : Prop :=
  ∀ i type, types[i]? = some type → base (first + i) = type

lemma carriesFrom_cons {first : Nat} {types : List Ty} :
    CarriesFrom base first (type :: types) ↔ base first = type ∧ CarriesFrom base (first + 1) types := by
  constructor
  · intro h
    refine ⟨h 0 type rfl, fun i other hi => ?_⟩
    have := h (i + 1) other (by simpa using hi)
    rwa [Nat.add_assoc, Nat.add_comm 1 i]
  · rintro ⟨hfirst, hrest⟩ i other hi
    cases i with
    | zero =>
      cases hi
      exact hfirst
    | succ i =>
      have := hrest i other (by simpa using hi)
      rwa [Nat.add_assoc, Nat.add_comm 1 i] at this

lemma carriesFrom_append {first : Nat} {types types' : List Ty} :
    CarriesFrom base first (types ++ types') ↔
      CarriesFrom base first types ∧ CarriesFrom base (first + types.length) types' := by
  induction types generalizing first with
  | nil => simp [CarriesFrom]
  | cons type rest ih =>
    rw [cons_append, carriesFrom_cons, carriesFrom_cons, ih, and_assoc, length_cons]
    have hlength : first + 1 + rest.length = first + (rest.length + 1) := by omega
    rw [hlength]

namespace Collection

/-- What has been collected from a part of a program can be met within its region, whatever types the rest
of the program gets. -/
structure Adds (base : Nat → Ty) (scopes : LoopScopes) (ids : List Nat) (loops : List Ty) (uses : String → Nat)
    (c c' : Collection) : Prop where
  next : c'.nextSlot = c.nextSlot + loops.length
  constraints : ∃ new, c'.constraints = c.constraints ++ new ∧
    Attainable base (Region base scopes ids c.nextSlot c'.nextSlot uses) fun τ => ∀ k ∈ new, k.Holds τ

variable {base : Nat → Ty} {nodes : Nat} {scopes : LoopScopes} {Γ : NameTypes} {ids ids' : List Nat}
  {loops loops' : List Ty} {uses uses' : String → Nat} {c d c' : Collection}

lemma Adds.congr {scopes' : LoopScopes} (h : Adds base scopes' ids loops uses' c c')
    (hregion : ∀ name slot, 0 < uses' name → scopes'.slot? name = some slot →
      0 < uses name ∧ scopes.slot? name = some slot) : Adds base scopes ids loops uses c c' := by
  obtain ⟨new, heq, hnew⟩ := h.constraints
  refine ⟨h.next, new, heq, hnew.mono ?_ fun _ _ hτ => hτ⟩
  rintro slot (hid | hrange | ⟨name, hname, hslot, hopen⟩)
  · exact .inl hid
  · exact .inr (.inl hrange)
  · obtain ⟨hname, hslot⟩ := hregion name slot hname hslot
    exact .inr (.inr ⟨name, hname, hslot, hopen⟩)

lemma Adds.outside (hscopes : ∀ name, scopes.slot? name = none) (h : Adds base scopes ids loops uses c c') :
    Adds base [] ids loops (fun _ => 0) c c' := by
  refine h.congr fun name slot _ hslot => ?_
  rw [hscopes] at hslot
  cases hslot

lemma Adds.trans (h : Adds base scopes ids loops uses c d) (h' : Adds base scopes ids' loops' uses' d c')
    (hsound : scopes.Sound base nodes c.nextSlot Γ) (hnodup : (ids ++ ids').Nodup)
    (hbelow : ∀ id ∈ ids ++ ids', id < nodes) (hnext : nodes ≤ c.nextSlot)
    (honce : UsedOnce base scopes fun name => uses name + uses' name) :
    Adds base scopes (ids ++ ids') (loops ++ loops') (fun name => uses name + uses' name) c c' := by
  obtain ⟨new, heq, hnew⟩ := h.constraints
  obtain ⟨new', heq', hnew'⟩ := h'.constraints
  have hd := h.next
  have hc' := h'.next
  refine ⟨?_, new ++ new', ?_, ?_⟩
  · rw [length_append]
    omega
  · rw [heq', heq, append_assoc]
  · refine (hnew.append hnew' hsound (nodup_append'.mp hnodup).2.2 hbelow hnext le_rfl (by omega) (by omega)
      honce).mono subset_rfl fun τ _ hτ => forall_mem_append.mpr hτ

end Collection

namespace Collect

open Collection

/-- The names in scope after some declarators, of which none is the variable of a loop. -/
def declared (scopes : LoopScopes) (ds : List Declarator) : LoopScopes :=
  ds.foldl (fun scopes d => scopes.bind d.name none) scopes

def after (scopes : LoopScopes) : Stmt → LoopScopes
  | .declare _ ds _ => declared scopes ds
  | _ => scopes

section Scopes

variable {base : Nat → Ty} {nodes next : Nat} {scopes : LoopScopes} {Γ : NameTypes}

lemma declared_ne_nil (hopen : scopes ≠ []) (ds : List Declarator) : declared scopes ds ≠ [] := by
  induction ds generalizing scopes with
  | nil => exact hopen
  | cons d rest ih => exact ih (bind_ne_nil hopen)

lemma tail_declared (ds : List Declarator) : (declared scopes ds).tail = scopes.tail := by
  induction ds generalizing scopes with
  | nil => rfl
  | cons d rest ih =>
    refine ih.trans ?_
    cases scopes <;> rfl

lemma slot?_declared {slot : Nat} (hopen : scopes ≠ []) (h : (declared scopes ds).slot? name = some slot) :
    scopes.slot? name = some slot ∧ (ds.any fun d => d.name == name) = false := by
  induction ds generalizing scopes with
  | nil => exact ⟨h, rfl⟩
  | cons d rest ih =>
    obtain ⟨hslot, hrest⟩ := ih (bind_ne_nil hopen) h
    obtain ⟨hslot, hname⟩ := LoopScopes.slot?_bind hslot
    refine ⟨hslot, ?_⟩
    rw [any_cons, hrest, Bool.or_false, beq_eq_false_iff_ne]
    exact fun heq => hname hopen heq.symm

lemma sound_declared (htype : type.isResolved = true) (hopen : scopes ≠ []) (h : scopes.Sound base nodes next Γ) :
    (declared scopes ds).Sound base nodes next (Stmt.bindAll Γ type ds) := by
  induction ds generalizing scopes Γ with
  | nil => exact h
  | cons d rest ih => exact ih (bind_ne_nil hopen) (h.bind hopen htype)

lemma follow_statement {s : Stmt} (hfit : s.Fit a nodes returnType) (hopen : scopes ≠ [])
    (h : scopes.Sound base nodes next Γ) :
    after scopes s ≠ [] ∧ (after scopes s).tail = scopes.tail ∧
      (after scopes s).Sound base nodes next (s.binds Γ) ∧
      ∀ name slot, (after scopes s).slot? name = some slot →
        scopes.slot? name = some slot ∧ s.declaresName name = false := by
  cases s with
  | declare type ds line =>
    have htype := hfit.declared type (by simp [Stmt.declared])
    exact ⟨declared_ne_nil hopen ds, tail_declared ds, sound_declared htype hopen h,
      fun _ _ => slot?_declared hopen⟩
  | _ => exact ⟨hopen, rfl, h, fun _ _ hslot => ⟨hslot, rfl⟩⟩

end Scopes

/-- The base types of a program: every node has the type that the analysis found, and calls have known
results. -/
structure Based (a : Analysis) (base : Nat → Ty) (nodes : Nat) : Prop where
  nodes : ∀ id, id < nodes → base id = a.types.typeOf id
  returns : ∀ name arguments resolved, a.declarations.resolveCall name arguments = .ok resolved →
    resolved.returnType.isResolved = true

/-- The place that collecting has reached: the names in scope, and slots that are still free. -/
structure Place (base : Nat → Ty) (nodes : Nat) (Γ : NameTypes) (c : Collection) : Prop where
  sound : c.scopes.Sound base nodes c.nextSlot Γ
  next : nodes ≤ c.nextSlot

lemma Place.step {Γ : NameTypes} {ids : List Nat} {loops : List Ty} {uses : String → Nat} {c c' : Collection}
    (h : Place base nodes Γ c) (hscopes : c'.scopes = c.scopes) (hadds : Adds base c.scopes ids loops uses c c') :
    Place base nodes Γ c' := by
  have hnext : c.nextSlot ≤ c'.nextSlot := hadds.next ▸ Nat.le_add_right _ _
  exact ⟨hscopes ▸ h.sound.mono hnext, h.next.trans hnext⟩

lemma within_append (he : e.Within nodes) (hbody : ∀ s ∈ Stmt.blockParts body, s.Fit a nodes returnType) :
    ∀ id ∈ e.ids ++ Stmt.blockIds body, id < nodes := by
  refine forall_mem_append.mpr ⟨?_, Stmt.Fit.below hbody⟩
  simpa using Expr.below_of_within (forall_mem_singleton.mpr he)

abbrev AddsBlock (a : Analysis) (base : Nat → Ty) (nodes : Nat) (block : List Stmt) : Prop :=
  ∀ Γ returnType context c result c', (statements a returnType context block).run c = (result, c') →
    Stmt.BlockTyped a Γ block → (∀ s ∈ Stmt.blockParts block, s.Fit a nodes returnType) →
    Place base nodes Γ c → c.scopes ≠ [] → CarriesFrom base c.nextSlot (Stmt.loopTypes a (Stmt.blockParts block)) →
    (Stmt.blockIds block).Nodup → UsedOnce base c.scopes (fun name => Stmt.blockUses name block) →
    c'.scopes.tail = c.scopes.tail ∧
      Adds base c.scopes (Stmt.blockIds block) (Stmt.loopTypes a (Stmt.blockParts block))
        (fun name => Stmt.blockUses name block) c c'

section Steps

variable {a : Analysis} {base : Nat → Ty} {nodes : Nat} {context : Context} {Γ : NameTypes} {c c' : Collection}
  {result : Unit}

lemma UsedOnce.mono {scopes : LoopScopes} {uses uses' : String → Nat} (h : UsedOnce base scopes uses')
    (hle : ∀ name, uses name ≤ uses' name) : UsedOnce base scopes uses :=
  fun name slot hslot hopen => (hle name).trans (h name slot hslot hopen)

lemma adds_scoped {d e : Collection} (ih : AddsBlock a base nodes body) (htyped : Stmt.BlockTyped a ([] :: Γ) body)
    (hfit : ∀ s ∈ Stmt.blockParts body, s.Fit a nodes returnType) (hplace : Place base nodes Γ c)
    (hcarries : CarriesFrom base c.nextSlot (Stmt.loopTypes a (Stmt.blockParts body)))
    (hnodup : (Stmt.blockIds body).Nodup) (honce : UsedOnce base c.scopes fun name => Stmt.blockUses name body)
    (hopen : openScope.run c = (result, d)) (hbody : (statements a returnType context body).run d = (result, e))
    (hclose : closeScope.run e = (result, c')) :
    c'.scopes = c.scopes ∧
      Adds base c.scopes (Stmt.blockIds body) (Stmt.loopTypes a (Stmt.blockParts body))
        (fun name => Stmt.blockUses name body) c c' := by
  cases hopen
  cases hclose
  obtain ⟨hscopes, hadds⟩ := ih _ _ _ _ _ _ hbody htyped hfit ⟨hplace.sound.push, hplace.next⟩
    (cons_ne_nil _ _) hcarries hnodup honce
  exact ⟨hscopes, hadds.next, hadds.constraints⟩

/-- The source of a loop gets the type of an array of whatever its variable gets from the body. -/
lemma attainable_loop {scopes : LoopScopes} {source : Expr} {ids : List Nat} {next last : Nat} {uses : String → Nat}
    {new : List Constraint} (hsound : scopes.Sound base nodes next Γ) (hnext : nodes ≤ next) (hlast : next < last)
    (hids : source.ids.Disjoint ids) (hbelow : ∀ id ∈ source.ids ++ ids, id < nodes)
    (honce : UsedOnce base scopes fun other => source.uses other + if name = other then 0 else uses other)
    (hsource : ∀ τ, base ≤ τ → source.Attains a base scopes next (.array (τ next)))
    (hbody : Attainable base (Region base ([(name, some next)] :: scopes) ids (next + 1) last uses)
      fun τ => ∀ k ∈ new, k.Holds τ) :
    Attainable base (Region base scopes (source.ids ++ ids) next last
      fun other => source.uses other + if name = other then 0 else uses other)
      fun τ => ∀ k ∈ source.constraints a scopes ++ .element source.id next :: new, k.Holds τ := by
  -- seen from outside, the body uses all names but that of the loop
  have hinside : Attainable base (Region base scopes ids next last fun other => if name = other then 0 else uses other)
      fun τ => ∀ k ∈ new, k.Holds τ := by
    refine hbody.mono ?_ fun _ _ hτ => hτ
    rintro slot (hid | ⟨hge, hlt⟩ | ⟨other, huses, hslot, hopen⟩)
    · exact .inl hid
    · exact .inr (.inl ⟨by omega, hlt⟩)
    · rw [LoopScopes.slot?_loop] at hslot
      by_cases hname : other = name
      · rw [if_pos hname] at hslot
        cases hslot
        exact .inr (.inl ⟨le_rfl, hlast⟩)
      · rw [if_neg hname] at hslot
        exact .inr (.inr ⟨other, huses.trans_eq (if_neg (Ne.symm hname)).symm, hslot, hopen⟩)
  have hdisjoint : ∀ slot ∈ Region base scopes ids next last (fun other => if name = other then 0 else uses other),
      slot ∉ Region base scopes source.ids next next fun other => source.uses other :=
    fun slot hslot hmem => disjoint_region hsound hids hbelow hnext le_rfl le_rfl honce slot hmem hslot
  have hvariable : ∀ τ τ' : Nat → Ty, (∀ slot ∈ Region base scopes ids next last
      fun other => if name = other then 0 else uses other, τ' slot = τ slot) → τ' next = τ next :=
    fun τ τ' hkept => hkept next (.inr (.inl ⟨le_rfl, hlast⟩))
  have hboth := hinside.andThen (fun (type : Ty) (τ : Nat → Ty) => τ source.id = .array type ∧
    ∀ k ∈ source.constraints a scopes, k.Holds τ) (fun τ => τ next) hvariable hsource hdisjoint
  refine hboth.mono (Set.union_subset ?_ ?_) ?_
  · exact region_subset (subset_append_right _ _) le_rfl le_rfl fun other => Nat.le_add_left _ _
  · exact region_subset (subset_append_left _ _) le_rfl hlast.le fun other => Nat.le_add_right _ _
  · rintro τ - ⟨hnew, htop, hk⟩
    exact forall_mem_append.mpr ⟨hk, forall_mem_cons.mpr ⟨htop, hnew⟩⟩

variable (hbased : Based a base nodes)
include hbased

lemma attains_of_place (hplace : Place base nodes Γ c) (htyped : e.AllTyped a Γ) (hnodup : e.ids.Nodup)
    (hnodes : e.Within nodes) (honce : UsedOnce base c.scopes fun name => e.uses name)
    (hle : a.types.typeOf e.id ≤ type) : e.Attains a base c.scopes c.nextSlot type := by
  have hbelow := Expr.below_of_within (forall_mem_singleton.mpr hnodes)
  rw [flatMap_singleton] at hbelow
  exact Expr.attains hbased.nodes hbased.returns hplace.sound hplace.next hnodup hbelow
    (fun n hn => (hnodes n hn).1) htyped honce hle

lemma adds_expr (hplace : Place base nodes Γ c) (htyped : e.AllTyped a Γ) (hnodup : e.ids.Nodup)
    (hnodes : e.Within nodes) (honce : UsedOnce base c.scopes fun name => e.uses name)
    (h : (expr a context e).run c = (result, c')) :
    c'.scopes = c.scopes ∧ Adds base c.scopes e.ids [] (fun name => e.uses name) c c' := by
  cases h
  refine ⟨rfl, rfl, e.constraints a c.scopes, rfl, ?_⟩
  exact (attains_of_place hbased hplace htyped hnodup hnodes honce le_rfl).mono subset_rfl fun τ _ hτ => hτ.2

lemma adds_exprOf (hplace : Place base nodes Γ c) (htyped : e.AllTyped a Γ)
    (hunifies : type.unifies (a.types.typeOf e.id) = true) (hnodup : e.ids.Nodup) (hnodes : e.Within nodes)
    (honce : UsedOnce base c.scopes fun name => e.uses name) (h : (exprOf a context type e).run c = (result, c')) :
    c'.scopes = c.scopes ∧ Adds base c.scopes e.ids [] (fun name => e.uses name) c c' := by
  cases h
  refine ⟨rfl, rfl, .fixed e.id type :: e.constraints a c.scopes, ?_, ?_⟩
  · change c.constraints ++ [.fixed e.id type] ++ e.constraints a c.scopes = _
    rw [append_assoc]
    rfl
  · refine (attains_of_place hbased hplace htyped hnodup hnodes honce (Ty.le_merge_right hunifies)).mono
      subset_rfl ?_
    rintro τ - ⟨htop, hk⟩
    refine forall_mem_cons.mpr ⟨?_, hk⟩
    change type ≤ τ e.id
    rw [htop]
    exact Ty.le_merge_left hunifies

lemma adds_optionalExpr {value : Option Expr} (hplace : Place base nodes Γ c)
    (htyped : ∀ e ∈ value, e.AllTyped a Γ ∧ type.unifies (a.types.typeOf e.id) = true)
    (hnodup : (value.toList.flatMap Expr.ids).Nodup) (hnodes : ∀ e ∈ value.toList, e.Within nodes)
    (honce : UsedOnce base c.scopes fun name => Stmt.optionalUses name value)
    (h : (optionalExpr a context type value).run c = (result, c')) :
    c'.scopes = c.scopes ∧
      Adds base c.scopes (value.toList.flatMap Expr.ids) [] (fun name => Stmt.optionalUses name value) c c' := by
  cases value with
  | none =>
    cases h
    exact ⟨rfl, rfl, [], (append_nil _).symm, .of_forall fun τ _ => by simp⟩
  | some e =>
    rw [Option.toList_some, flatMap_singleton] at hnodup ⊢
    obtain ⟨he, hunifies⟩ := htyped e rfl
    exact adds_exprOf hbased hplace he hunifies hnodup (hnodes e (mem_singleton_self e)) honce h

lemma adds_declarators (hresolved : type.isResolved = true) (hplace : Place base nodes Γ c) (hopen : c.scopes ≠ [])
    (htyped : Stmt.DeclaratorsTyped a type Γ ds)
    (hnodup : ((ds.flatMap fun d => d.value.toList).flatMap Expr.ids).Nodup)
    (hnodes : ∀ e ∈ ds.flatMap fun d => d.value.toList, e.Within nodes)
    (honce : UsedOnce base c.scopes fun name => Stmt.declaratorUses name ds)
    (h : (declarators a context type ds).run c = (result, c')) :
    c'.scopes = declared c.scopes ds ∧
      Adds base c.scopes ((ds.flatMap fun d => d.value.toList).flatMap Expr.ids) []
        (fun name => Stmt.declaratorUses name ds) c c' := by
  induction ds generalizing c Γ with
  | nil =>
    cases h
    exact ⟨rfl, rfl, [], (append_nil _).symm, .of_forall fun τ _ => by simp⟩
  | cons d rest ih =>
    rw [declarators, runState_bind] at h
    obtain ⟨_, c₁, hvalue, h⟩ := h
    rw [runState_bind] at h
    obtain ⟨_, c₂, hbind, h⟩ := h
    cases hbind
    rw [flatMap_cons] at hnodes hnodup ⊢
    have hbelow := Expr.below_of_within hnodes
    rw [flatMap_append] at hnodup hbelow ⊢
    obtain ⟨hd, hnodesRest⟩ := forall_mem_append.mp hnodes
    obtain ⟨hnodupValue, hnodupRest, -⟩ := nodup_append'.mp hnodup
    have honceValue : UsedOnce base c.scopes fun name => Stmt.optionalUses name d.value :=
      UsedOnce.mono honce fun name => Nat.le_add_right _ _
    obtain ⟨hscopes, hadds⟩ := adds_optionalExpr hbased hplace htyped.1 hnodupValue hd honceValue hvalue
    have hnext : c₁.nextSlot = c.nextSlot := hadds.next
    have hplaceRest : Place base nodes (Γ.bind d.name type) { c₁ with scopes := c₁.scopes.bind d.name none } := by
      refine ⟨?_, hnext ▸ hplace.next⟩
      change (c₁.scopes.bind d.name none).Sound base nodes c₁.nextSlot _
      rw [hscopes, hnext]
      exact hplace.sound.bind hopen hresolved
    have hlookup : ∀ name slot, (c₁.scopes.bind d.name none).slot? name = some slot →
        c.scopes.slot? name = some slot ∧ d.name ≠ name := by
      intro name slot hslot
      rw [hscopes] at hslot
      obtain ⟨hslot, hne⟩ := LoopScopes.slot?_bind hslot
      exact ⟨hslot, (hne hopen).symm⟩
    have honceRest : UsedOnce base (c₁.scopes.bind d.name none) fun name => Stmt.declaratorUses name rest := by
      intro name slot hslot hunknown
      obtain ⟨hslot, hne⟩ := hlookup name slot hslot
      have hall := honce name slot hslot hunknown
      simp only [Stmt.declaratorUses, if_neg hne] at hall
      exact (Nat.le_add_left _ _).trans hall
    obtain ⟨hscopesRest, haddsRest⟩ := ih hplaceRest (bind_ne_nil (hscopes ▸ hopen)) htyped.2 hnodupRest
      hnodesRest honceRest h
    have hrest : Adds base c.scopes ((rest.flatMap fun d => d.value.toList).flatMap Expr.ids) []
        (fun name => if d.name = name then 0 else Stmt.declaratorUses name rest)
        { c₁ with scopes := c₁.scopes.bind d.name none } c' := by
      refine haddsRest.congr fun name slot huses hslot => ?_
      obtain ⟨hslot, hne⟩ := hlookup name slot hslot
      exact ⟨by rwa [if_neg hne], hslot⟩
    refine ⟨by rw [hscopesRest, hscopes]; rfl, ?_⟩
    exact hadds.trans ⟨hrest.next, hrest.constraints⟩ hplace.sound hnodup hbelow hplace.next honce

lemma adds_conditional {condition : Expr} {inner : Context} {c₁ c₂ c₃ : Collection} (ih : AddsBlock a base nodes body)
    (hcondition : condition.AllTyped a Γ) (htyped : Stmt.BlockTyped a ([] :: Γ) body) (hnodes : condition.Within nodes)
    (hfit : ∀ s ∈ Stmt.blockParts body, s.Fit a nodes returnType) (hplace : Place base nodes Γ c)
    (hcarries : CarriesFrom base c.nextSlot (Stmt.loopTypes a (Stmt.blockParts body)))
    (hnodup : (condition.ids ++ Stmt.blockIds body).Nodup)
    (honce : UsedOnce base c.scopes fun name => condition.uses name + Stmt.blockUses name body)
    (h₁ : (expr a context condition).run c = (result, c₁)) (h₂ : openScope.run c₁ = (result, c₂))
    (h₃ : (statements a returnType inner body).run c₂ = (result, c₃)) (h₄ : closeScope.run c₃ = (result, c')) :
    c'.scopes = c.scopes ∧
      Adds base c.scopes (condition.ids ++ Stmt.blockIds body) (Stmt.loopTypes a (Stmt.blockParts body))
        (fun name => condition.uses name + Stmt.blockUses name body) c c' := by
  obtain ⟨hnodup₁, hnodup₂, -⟩ := nodup_append'.mp hnodup
  have honce₁ := UsedOnce.mono honce fun name => Nat.le_add_right _ _
  have honce₂ := UsedOnce.mono honce fun name => Nat.le_add_left _ _
  obtain ⟨hscopes₁, hadds₁⟩ := adds_expr hbased hplace hcondition hnodup₁ hnodes honce₁ h₁
  have hnext₁ : c₁.nextSlot = c.nextSlot := hadds₁.next
  obtain ⟨hscopes₂, hadds₂⟩ := adds_scoped ih htyped hfit (hplace.step hscopes₁ hadds₁) (hnext₁ ▸ hcarries) hnodup₂
    (hscopes₁ ▸ honce₂) h₂ h₃ h₄
  rw [hscopes₁] at hscopes₂ hadds₂
  exact ⟨hscopes₂, hadds₁.trans hadds₂ hplace.sound hnodup (within_append hnodes hfit) hplace.next honce⟩

lemma adds_forAll {source : Expr} {line : Nat} (ih : AddsBlock a base nodes body) (hsource : source.AllTyped a Γ)
    (helement : (a.types.typeOf source.id).element? = .ok type) (htyped : Stmt.BlockTyped a ([(name, type)] :: Γ) body)
    (hnodes : source.Within nodes) (hfit : ∀ s ∈ Stmt.blockParts body, s.Fit a nodes returnType)
    (hloop : (a.types.typeOf source.id).isResolved = true ∨ Stmt.blockUses name body ≤ 1)
    (hplace : Place base nodes Γ c)
    (hcarries : CarriesFrom base c.nextSlot (type :: Stmt.loopTypes a (Stmt.blockParts body)))
    (hnodup : (source.ids ++ Stmt.blockIds body).Nodup) (honce : UsedOnce base c.scopes fun other =>
      source.uses other + if name = other then 0 else Stmt.blockUses other body)
    (h : (statement a returnType context (.forAll name source body line)).run c = (result, c')) :
    c'.scopes = c.scopes ∧
      Adds base c.scopes (source.ids ++ Stmt.blockIds body) (type :: Stmt.loopTypes a (Stmt.blockParts body))
        (fun other => source.uses other + if name = other then 0 else Stmt.blockUses other body) c c' := by
  simp only [statement, runState_bind] at h
  obtain ⟨_, c₁, h₁, slot, c₂, h₂, _, c₃, h₃, _, c₄, h₄, _, c₅, h₅, _, c₆, h₆, _, c₇, h₇, h₈⟩ := h
  have hc₆ := enterLoop h₂ h₃ h₄ h₅ h₆
  cases h₁
  have hscopes₆ : c₆.scopes = [(name, some c.nextSlot)] :: c.scopes := by rw [hc₆]
  have hnext₆ : c₆.nextSlot = c.nextSlot + 1 := by rw [hc₆]
  obtain ⟨hbase, hcarries⟩ := carriesFrom_cons.mp hcarries
  obtain ⟨hnodup₁, hnodup₂, hdisjoint⟩ := nodup_append'.mp hnodup
  have hsound₆ : c₆.scopes.Sound base nodes c₆.nextSlot ([(name, type)] :: Γ) := by
    rw [hscopes₆, hnext₆, ← hbase]
    exact hplace.sound.loop hplace.next
  have honce₆ : UsedOnce base c₆.scopes fun other => Stmt.blockUses other body := by
    intro other slot hslot hopen
    rw [hscopes₆, LoopScopes.slot?_loop] at hslot
    by_cases hname : other = name
    · rw [if_pos hname] at hslot
      cases hslot
      -- the elements of a known source are known
      have hsource : (a.types.typeOf source.id).isResolved ≠ true := by
        intro hknown
        rw [Ty.eq_array_of_element? hknown helement] at hknown
        rw [hbase] at hopen
        exact absurd hknown (by simpa [Ty.isResolved] using hopen)
      exact hname ▸ hloop.resolve_left hsource
    · rw [if_neg hname] at hslot
      have hall : source.uses other + (if name = other then 0 else Stmt.blockUses other body) ≤ 1 :=
        honce other slot hslot hopen
      rw [if_neg (Ne.symm hname)] at hall
      exact (Nat.le_add_left _ _).trans hall
  have hplace₆ : Place base nodes ([(name, type)] :: Γ) c₆ := by
    refine ⟨hsound₆, ?_⟩
    have := hplace.next
    omega
  obtain ⟨hscopes₇, hadds⟩ := ih _ _ _ _ _ _ h₇ htyped hfit hplace₆ (by rw [hscopes₆]; exact cons_ne_nil _ _)
    (hnext₆ ▸ hcarries) hnodup₂ honce₆
  obtain ⟨new, heq, hnew⟩ := hadds.constraints
  have hnext₇ := hadds.next
  cases h₈
  refine ⟨by rw [hscopes₆] at hscopes₇; exact hscopes₇, ?_,
    source.constraints a c.scopes ++ .element source.id c.nextSlot :: new, ?_, ?_⟩
  · change c₇.nextSlot = _
    rw [length_cons]
    omega
  · change c₇.constraints = _
    rw [heq, hc₆]
    simp
  · rw [hscopes₆, hnext₆] at hnew
    refine attainable_loop hplace.sound hplace.next (by change _ < c₇.nextSlot; omega) hdisjoint
      (within_append hnodes hfit) honce ?_ hnew
    intro τ hτ
    have hle : type ≤ τ c.nextSlot := hbase ▸ hτ c.nextSlot
    exact attains_of_place hbased hplace hsource hnodup₁ hnodes (UsedOnce.mono honce fun _ => Nat.le_add_right _ _)
      (Ty.le_array_of_element? helement hle)

/-- Everything that is collected from a typed block can be met within its region, as long as no variable of
unknown type is used twice. -/
theorem adds_statements (block : List Stmt) : AddsBlock a base nodes block := by
  induction block using Stmt.block_induction (fun stmt =>
    ∀ Γ returnType context c result c', (statement a returnType context stmt).run c = (result, c') →
      stmt.Typed a Γ → (∀ s ∈ stmt.parts, s.Fit a nodes returnType) → Place base nodes Γ c → c.scopes ≠ [] →
      CarriesFrom base c.nextSlot (Stmt.loopTypes a stmt.parts) → stmt.ids.Nodup →
      UsedOnce base c.scopes (fun name => stmt.uses name) →
      c'.scopes = after c.scopes stmt ∧
        Adds base c.scopes stmt.ids (Stmt.loopTypes a stmt.parts) (fun name => stmt.uses name) c c') with
  | declare type ds line Γ returnType context c result c' h htyped hfit hplace hopen hcarries hnodup honce =>
    have hself := hfit (.declare type ds line) (Stmt.self_mem_parts _)
    rw [Stmt.ids_declare] at hnodup ⊢
    exact adds_declarators hbased (hself.declared type (by simp [Stmt.declared])) hplace hopen htyped hnodup
      hself.nodes honce h
  | assign target value line Γ returnType context c result c' h htyped hfit hplace hopen hcarries hnodup honce =>
    obtain ⟨htarget, hvalue, hunifies⟩ := htyped
    have hself := hfit (.assign target value line) (Stmt.self_mem_parts _)
    have hnodes₁ := hself.nodes target (by simp [Stmt.exprs])
    have hnodes₂ := hself.nodes value (by simp [Stmt.exprs])
    have hbelow := Expr.below_of_within hself.nodes
    simp only [statement, runState_bind] at h
    obtain ⟨_, c₁, h₁, _, c₂, h₂, hadd⟩ := h
    cases h₁
    cases h₂
    cases hadd
    rw [Stmt.ids_assign] at hnodup ⊢
    obtain ⟨hnodup₁, hnodup₂, hdisjoint⟩ := nodup_append'.mp hnodup
    have hattains₁ := attains_of_place hbased hplace htarget hnodup₁ hnodes₁
      (UsedOnce.mono honce fun _ => Nat.le_add_right _ _) (Ty.le_merge_left hunifies)
    have hattains₂ := attains_of_place hbased hplace hvalue hnodup₂ hnodes₂
      (UsedOnce.mono honce fun _ => Nat.le_add_left _ _) (Ty.le_merge_right hunifies)
    have hboth := Attainable.append hattains₁ hattains₂ hplace.sound hdisjoint
      (by simpa [Stmt.exprs] using hbelow) hplace.next le_rfl le_rfl le_rfl honce
    refine ⟨rfl, rfl, target.constraints a c.scopes ++ value.constraints a c.scopes ++
      [.equal target.id value.id], by simp, hboth.mono subset_rfl ?_⟩
    rintro τ - ⟨⟨htop₁, hk₁⟩, htop₂, hk₂⟩
    simp only [forall_mem_append, forall_mem_singleton]
    exact ⟨⟨hk₁, hk₂⟩, htop₁.trans htop₂.symm⟩
  | ifThen condition body line ih Γ returnType context c result c' h htyped hfit hplace hopen hcarries hnodup honce
  | whileDo condition body line ih Γ returnType context c result c' h htyped hfit hplace hopen hcarries hnodup honce =>
    obtain ⟨hcondition, -, hbody⟩ := htyped
    obtain ⟨hself, hparts⟩ := forall_mem_cons.mp hfit
    simp only [statement, runState_bind] at h
    obtain ⟨_, c₁, h₁, _, c₂, h₂, _, c₃, h₃, h₄⟩ := h
    exact adds_conditional hbased ih hcondition hbody (hself.nodes condition (by simp [Stmt.exprs])) hparts hplace
      hcarries hnodup honce h₁ h₂ h₃ h₄
  | ifElse condition thenBody elseBody line ihthen ihelse Γ returnType context c result c' h htyped hfit hplace
      hopen hcarries hnodup honce =>
    obtain ⟨hcondition, -, hthen, helse⟩ := htyped
    obtain ⟨hself, hbranches⟩ := forall_mem_cons.mp hfit
    obtain ⟨hparts, hparts'⟩ := forall_mem_append.mp hbranches
    simp only [statement, runState_bind] at h
    obtain ⟨_, c₁, h₁, _, c₂, h₂, _, c₃, h₃, _, d, h₄, _, c₅, h₅, _, c₆, h₆, h₇⟩ := h
    rw [Stmt.ids_ifElse, ← append_assoc] at hnodup ⊢
    have hloops : Stmt.loopTypes a (Stmt.ifThen condition thenBody (some elseBody) line).parts =
        Stmt.loopTypes a (Stmt.blockParts thenBody) ++ Stmt.loopTypes a (Stmt.blockParts elseBody) := by
      simp [Stmt.loopTypes, Stmt.parts]
    have huses : ∀ name, (Stmt.ifThen condition thenBody (some elseBody) line).uses name =
        condition.uses name + Stmt.blockUses name thenBody + Stmt.blockUses name elseBody := fun name => by
      rw [Stmt.uses, Nat.add_assoc]
    simp only [huses] at honce ⊢
    rw [hloops] at hcarries ⊢
    obtain ⟨hcarries₁, hcarries₂⟩ := carriesFrom_append.mp hcarries
    obtain ⟨hnodup₁, hnodup₂, -⟩ := nodup_append'.mp hnodup
    have hnodes := hself.nodes condition (by simp [Stmt.exprs])
    obtain ⟨hscopes₁, hadds₁⟩ := adds_conditional hbased ihthen hcondition hthen hnodes hparts hplace hcarries₁
      hnodup₁ (UsedOnce.mono honce fun _ => Nat.le_add_right _ _) h₁ h₂ h₃ h₄
    have hplace₁ := hplace.step hscopes₁ hadds₁
    obtain ⟨hscopes₂, hadds₂⟩ := adds_scoped ihelse helse hparts' hplace₁ (hadds₁.next ▸ hcarries₂) hnodup₂
      (hscopes₁ ▸ UsedOnce.mono honce fun _ => Nat.le_add_left _ _) h₅ h₆ h₇
    rw [hscopes₁] at hscopes₂ hadds₂
    have hbelow := forall_mem_append.mpr ⟨within_append hnodes hparts, Stmt.Fit.below hparts'⟩
    exact ⟨hscopes₂, hadds₁.trans hadds₂ hplace.sound hnodup hbelow hplace.next honce⟩
  | forAll name source body line ih Γ returnType context c result c' h htyped hfit hplace hopen hcarries hnodup
      honce =>
    obtain ⟨hsource, type, helement, hbody⟩ := htyped
    obtain ⟨hself, hparts⟩ := forall_mem_cons.mp hfit
    have hloops : Stmt.loopTypes a (Stmt.forAll name source body line).parts =
        type :: Stmt.loopTypes a (Stmt.blockParts body) := by
      simp [Stmt.loopTypes, Stmt.parts, helement, Except.toOption]
    rw [hloops] at hcarries ⊢
    exact adds_forAll hbased ih hsource helement hbody (hself.nodes source (by simp [Stmt.exprs])) hparts
      (hself.once name source body line rfl) hplace hcarries hnodup honce h
  | returns value line Γ returnType context c result c' h htyped hfit hplace hopen hcarries hnodup honce =>
    have hself := hfit (.returns value line) (Stmt.self_mem_parts _)
    rw [Stmt.ids_returns] at hnodup ⊢
    refine adds_optionalExpr hbased hplace (fun e he => ⟨htyped e he, ?_⟩) hnodup hself.nodes honce h
    have hreturned := hself.returned value line rfl
    rwa [he] at hreturned
  | score value line Γ returnType context c result c' h htyped hfit hplace hopen hcarries hnodup honce =>
    obtain ⟨hvalue, hnum⟩ := htyped
    have hself := hfit (.score value line) (Stmt.self_mem_parts _)
    have hunifies : Ty.num.unifies (a.types.typeOf value.id) = true := by
      rcases Ty.isNum_cases hnum with htype | htype <;> rw [htype] <;> rfl
    rw [Stmt.ids_score] at hnodup ⊢
    exact adds_exprOf hbased hplace hvalue hunifies hnodup (hself.nodes value (by simp [Stmt.exprs])) honce h
  | call site line Γ returnType context c result c' h htyped hfit hplace hopen hcarries hnodup honce =>
    have hself := hfit (.call site line) (Stmt.self_mem_parts _)
    rw [Stmt.ids_call] at hnodup ⊢
    exact adds_expr hbased hplace htyped hnodup (hself.nodes site (by simp [Stmt.exprs])) honce h
  | nil =>
    intro Γ returnType context c result c' h _ _ _ _ _ _ _
    cases h
    exact ⟨rfl, rfl, [], (append_nil _).symm, .of_forall fun τ _ => by simp⟩
  | cons stmt rest ihstmt ihrest =>
    intro Γ returnType context c result c' h htyped hfit hplace hopen hcarries hnodup honce
    rw [statements, runState_bind] at h
    obtain ⟨_, d, hstmt, hrest⟩ := h
    obtain ⟨hfitStmt, hfitRest⟩ := forall_mem_append.mp hfit
    have hloops : Stmt.loopTypes a (Stmt.blockParts (stmt :: rest)) =
        Stmt.loopTypes a stmt.parts ++ Stmt.loopTypes a (Stmt.blockParts rest) := filterMap_append
    rw [hloops] at hcarries ⊢
    rw [Stmt.blockIds_cons] at hnodup ⊢
    obtain ⟨hcarries₁, hcarries₂⟩ := carriesFrom_append.mp hcarries
    obtain ⟨hnodup₁, hnodup₂, -⟩ := nodup_append'.mp hnodup
    obtain ⟨hscopes₁, hadds₁⟩ := ihstmt _ _ _ _ _ _ hstmt htyped.1 hfitStmt hplace hopen hcarries₁ hnodup₁
      (UsedOnce.mono honce fun _ => Nat.le_add_right _ _)
    have hnext : c.nextSlot ≤ d.nextSlot := hadds₁.next ▸ Nat.le_add_right _ _
    obtain ⟨hopen₁, htail, hsound₁, hlookup⟩ :=
      follow_statement (hfitStmt stmt stmt.self_mem_parts) hopen (hplace.sound.mono hnext)
    rw [← hscopes₁] at hopen₁ htail hsound₁ hlookup
    have honce₁ : UsedOnce base d.scopes fun name => Stmt.blockUses name rest := by
      intro name slot hslot hunknown
      obtain ⟨hslot, hfree⟩ := hlookup name slot hslot
      have hall := honce name slot hslot hunknown
      simp only [Stmt.blockUses, hfree, Bool.false_eq_true, if_false] at hall
      exact (Nat.le_add_left _ _).trans hall
    obtain ⟨hscopes₂, hadds₂⟩ := ihrest _ _ _ _ _ _ hrest htyped.2 hfitRest ⟨hsound₁, hplace.next.trans hnext⟩ hopen₁
      (hadds₁.next ▸ hcarries₂) hnodup₂ honce₁
    have hadds₃ : Adds base c.scopes (Stmt.blockIds rest) (Stmt.loopTypes a (Stmt.blockParts rest))
        (fun name => if stmt.declaresName name then 0 else Stmt.blockUses name rest) d c' := by
      refine hadds₂.congr fun name slot huses hslot => ?_
      obtain ⟨hslot, hfree⟩ := hlookup name slot hslot
      exact ⟨by simpa [hfree] using huses, hslot⟩
    have hbelow := forall_mem_append.mpr ⟨Stmt.Fit.below hfitStmt, Stmt.Fit.below hfitRest⟩
    exact ⟨hscopes₂.trans htail, hadds₁.trans hadds₃ hplace.sound hnodup hbelow hplace.next honce⟩

end Steps

end Collect

end ChessEval
