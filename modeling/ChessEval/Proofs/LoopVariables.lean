import ChessEval.Proofs.Guards

/-!
# Uses of loop variables

What an expression asks of types concerns its own nodes and the slots of the loop variables that it names.
-/

namespace ChessEval

open List

variable {e : Expr} {type : Ty} {name : String}

namespace Expr

def isNamed (name : String) : Expr → Bool
  | .identifier _ other => other == name
  | _ => false

def uses (name : String) (e : Expr) : Nat :=
  e.nodes.countP (isNamed name)

def allUses (name : String) (es : List Expr) : Nat :=
  (es.flatMap nodes).countP (isNamed name)

lemma allUses_cons (name : String) (e : Expr) (rest : List Expr) :
    allUses name (e :: rest) = e.uses name + allUses name rest := by
  rw [allUses, flatMap_cons, countP_append]
  rfl

lemma uses_le_allUses (name : String) {es : List Expr} (h : e ∈ es) : e.uses name ≤ allUses name es := by
  induction es with
  | nil => cases h
  | cons first rest ih =>
    rw [allUses_cons]
    rcases mem_cons.mp h with rfl | h
    · exact Nat.le_add_right _ _
    · exact (ih h).trans (Nat.le_add_left _ _)

lemma uses_eq (name : String) (e : Expr) :
    e.uses name = allUses name e.children + if e.isNamed name then 1 else 0 := by
  unfold uses allUses
  rw [nodes_eq, countP_append, countP_singleton]

end Expr

/-- A demand on types that can be met by changing types in a region only, and that stays met as long as the region
keeps its types. -/
def Attainable (base : Nat → Ty) (region : Set Nat) (demand : (Nat → Ty) → Prop) : Prop :=
  ∀ σ, base ≤ σ → ∃ τ, base ≤ τ ∧ (∀ slot, slot ∉ region → τ slot = σ slot) ∧
    ∀ τ', base ≤ τ' → (∀ slot ∈ region, τ' slot = τ slot) → demand τ'

namespace Attainable

variable {base : Nat → Ty} {region region' : Set Nat} {demand demand' : (Nat → Ty) → Prop}

lemma of_forall (h : ∀ τ, base ≤ τ → demand τ) : Attainable base region demand :=
  fun σ hσ => ⟨σ, hσ, fun _ _ => rfl, fun τ hτ _ => h τ hτ⟩

lemma mono (h : Attainable base region demand) (hregion : region ⊆ region')
    (hdemand : ∀ τ, base ≤ τ → demand τ → demand' τ) : Attainable base region' demand' := by
  intro σ hσ
  obtain ⟨τ, hτ, houtside, hmet⟩ := h σ hσ
  refine ⟨τ, hτ, fun slot hslot => houtside slot fun hmem => hslot (hregion hmem), ?_⟩
  intro τ' hτ' hkept
  exact hdemand τ' hτ' (hmet τ' hτ' fun slot hslot => hkept slot (hregion hslot))

/-- Demands on regions that share no slot can be met one after the other, where the second may depend on
what the first has chosen in its region. -/
lemma andThen {α : Type} (demand' : α → (Nat → Ty) → Prop) (value : (Nat → Ty) → α)
    (hvalue : ∀ τ τ' : Nat → Ty, (∀ slot ∈ region, τ' slot = τ slot) → value τ' = value τ)
    (h : Attainable base region demand) (h' : ∀ τ, base ≤ τ → Attainable base region' (demand' (value τ)))
    (hdisjoint : ∀ slot ∈ region, slot ∉ region') :
    Attainable base (region ∪ region') fun τ => demand τ ∧ demand' (value τ) τ := by
  intro σ hσ
  obtain ⟨τ₁, hτ₁, houtside₁, hmet₁⟩ := h σ hσ
  obtain ⟨τ, hτ, houtside, hmet⟩ := h' τ₁ hτ₁ τ₁ hτ₁
  refine ⟨τ, hτ, fun slot hslot => ?_, fun τ' hτ' hkept => ?_⟩
  · rw [houtside slot fun hmem => hslot (.inr hmem), houtside₁ slot fun hmem => hslot (.inl hmem)]
  · have hfirst : ∀ slot ∈ region, τ' slot = τ₁ slot := by
      intro slot hslot
      rw [hkept slot (.inl hslot), houtside slot (hdisjoint slot hslot)]
    refine ⟨hmet₁ τ' hτ' hfirst, ?_⟩
    rw [hvalue τ₁ τ' hfirst]
    exact hmet τ' hτ' fun slot hslot => hkept slot (.inr hslot)

lemma and (h : Attainable base region demand) (h' : Attainable base region' demand')
    (hdisjoint : ∀ slot ∈ region, slot ∉ region') :
    Attainable base (region ∪ region') fun τ => demand τ ∧ demand' τ :=
  h.andThen (fun _ : Unit => demand') (fun _ => ()) (fun _ _ _ => rfl) (fun _ _ => h') hdisjoint

lemma update {slot : Nat} (h : base slot ≤ type) : Attainable base {slot} fun τ => τ slot = type := by
  intro σ hσ
  refine ⟨Function.update σ slot type, ?_, fun other hother => ?_, fun τ _ hkept => ?_⟩
  · intro other
    by_cases hslot : other = slot
    · subst hslot
      rwa [Function.update_self]
    · rw [Function.update_of_ne hslot]
      exact hσ other
  · exact Function.update_of_ne hother type σ
  · exact (hkept slot rfl).trans (Function.update_self slot type σ)

end Attainable

/-- The slots that a part of a program decides about: its nodes, the variables of the loops in it, and
the variables of unknown type that it uses. -/
def Region (base : Nat → Ty) (scopes : LoopScopes) (ids : List Nat) (first last : Nat)
    (uses : String → Nat) : Set Nat :=
  {slot | slot ∈ ids ∨ (first ≤ slot ∧ slot < last) ∨
    ∃ name, 0 < uses name ∧ scopes.slot? name = some slot ∧ (base slot).isResolved = false}

/-- The slot of a loop variable stands after those of the nodes and has the type of the variable. -/
def LoopEntry (base : Nat → Ty) (nodes next : Nat) : Option Nat → Ty → Prop
  | none, type => type.isResolved = true
  | some slot, type => (nodes ≤ slot ∧ slot < next) ∧ base slot = type

structure LoopScopes.Sound (base : Nat → Ty) (nodes next : Nat) (scopes : LoopScopes) (Γ : NameTypes) :
    Prop where
  names : InStep (LoopEntry base nodes next) (fun block => ∀ x ∈ block, x.2.isResolved = true) scopes Γ
  apart : ∀ name other slot, scopes.slot? name = some slot → scopes.slot? other = some slot → name = other

def UsedOnce (base : Nat → Ty) (scopes : LoopScopes) (uses : String → Nat) : Prop :=
  ∀ name slot, scopes.slot? name = some slot → (base slot).isResolved = false → uses name ≤ 1

namespace LoopScopes

section Lookup

variable {scopes : LoopScopes} {name other : String} {slot : Nat}

lemma slot?_loop : slot? ([(other, some slot)] :: scopes) name =
    if name = other then some slot else scopes.slot? name := by
  by_cases h : name = other
  · subst h
    simp [slot?]
  · simp [slot?, h, lookup_cons, beq_eq_false_iff_ne.mpr h]

lemma slot?_bind (hslot : slot? (scopes.bind other none) name = some slot) :
    scopes.slot? name = some slot ∧ (scopes ≠ [] → name ≠ other) := by
  cases scopes with
  | nil => cases hslot
  | cons scope outer =>
    by_cases h : name = other
    · subst h
      simp [bind, slot?] at hslot
    · have hlookup : slot? (bind (scope :: outer) other none) name = slot? (scope :: outer) name := by
        unfold bind slot?
        rw [findSome?_cons, findSome?_cons, lookup_cons, beq_eq_false_iff_ne.mpr h]
      exact ⟨hlookup ▸ hslot, fun _ => h⟩

end Lookup

namespace Sound

variable {base : Nat → Ty} {nodes next : Nat} {scopes : LoopScopes} {Γ : NameTypes}

lemma range (h : Sound base nodes next scopes Γ) {slot : Nat} (hslot : scopes.slot? name = some slot) :
    nodes ≤ slot ∧ slot < next := by
  obtain ⟨type, hrange, -⟩ := h.names.of_slot? hslot
  exact hrange

lemma mono {next' : Nat} (h : Sound base nodes next scopes Γ) (hnext : next ≤ next') :
    Sound base nodes next' scopes Γ := by
  refine ⟨h.names.imp fun slot type hentry => ?_, h.apart⟩
  cases slot with
  | none => exact hentry
  | some slot => exact ⟨⟨hentry.1.1, hentry.1.2.trans_le hnext⟩, hentry.2⟩

lemma push (h : Sound base nodes next scopes Γ) : Sound base nodes next ([] :: scopes) ([] :: Γ) :=
  ⟨h.names.push, h.apart⟩

lemma bind (h : Sound base nodes next scopes Γ) (hopen : scopes ≠ []) (htype : type.isResolved = true) :
    Sound base nodes next (scopes.bind name none) (Γ.bind name type) := by
  refine ⟨h.names.bind hopen htype, fun x y slot hx hy => ?_⟩
  exact h.apart x y slot (slot?_bind hx).1 (slot?_bind hy).1

lemma loop (h : Sound base nodes next scopes Γ) (hnext : nodes ≤ next) :
    Sound base nodes (next + 1) ([(name, some next)] :: scopes) ([(name, base next)] :: Γ) := by
  have hnames := (h.mono (Nat.le_succ next)).names
  refine ⟨.block (.cons ⟨rfl, ⟨hnext, Nat.lt_succ_self next⟩, rfl⟩ .nil) hnames, ?_⟩
  intro x y slot hx hy
  rw [slot?_loop] at hx hy
  by_cases hxn : x = name
  · by_cases hyn : y = name
    · rw [hxn, hyn]
    · rw [if_pos hxn] at hx
      rw [if_neg hyn] at hy
      have := h.range hy
      cases hx
      omega
  · rw [if_neg hxn] at hx
    by_cases hyn : y = name
    · rw [if_pos hyn] at hy
      have := h.range hx
      cases hy
      omega
    · rw [if_neg hyn] at hy
      exact h.apart x y slot hx hy

lemma find (h : Sound base nodes next scopes Γ) (hfind : Γ.find? name = some type) :
    (scopes.slot? name = none ∧ type.isResolved = true) ∨
      ∃ slot, scopes.slot? name = some slot ∧ base slot = type :=
  (h.names.find_known (fun _ hknown => hknown) hfind).imp_right fun ⟨slot, hslot, hentry⟩ =>
    ⟨slot, hslot, hentry.2⟩

end Sound

end LoopScopes

section Regions

variable {base : Nat → Ty} {nodes next : Nat} {scopes : LoopScopes} {Γ : NameTypes}
  {ids ids' : List Nat} {first middle last : Nat} {uses uses' : String → Nat}

lemma disjoint_region (hsound : scopes.Sound base nodes next Γ) (hids : ids.Disjoint ids')
    (hbelow : ∀ id ∈ ids ++ ids', id < nodes) (hnext : nodes ≤ next) (hfirst : next ≤ first)
    (hmiddle : first ≤ middle) (honce : UsedOnce base scopes fun name => uses name + uses' name) :
    ∀ slot ∈ Region base scopes ids first middle uses, slot ∉ Region base scopes ids' middle last uses' := by
  rintro slot (hid | ⟨hge, hlt⟩ | ⟨name, huses, hslot, hopen⟩) (hid' | ⟨hge', hlt'⟩ | ⟨name', huses', hslot', -⟩)
  · exact hids hid hid'
  · have := hbelow slot (mem_append_left _ hid)
    omega
  · have := hbelow slot (mem_append_left _ hid)
    have := hsound.range hslot'
    omega
  · have := hbelow slot (mem_append_right _ hid')
    omega
  · omega
  · have := hsound.range hslot'
    omega
  · have := hbelow slot (mem_append_right _ hid')
    have := hsound.range hslot
    omega
  · have := hsound.range hslot
    omega
  · -- the two parts would use one variable of unknown type
    obtain rfl := hsound.apart name name' slot hslot hslot'
    have : uses name + uses' name ≤ 1 := honce name slot hslot hopen
    omega

lemma region_subset (hids : ids ⊆ ids') {first' last' : Nat} (hfirst : first' ≤ first) (hlast : last ≤ last')
    (huses : ∀ name, uses name ≤ uses' name) :
    Region base scopes ids first last uses ⊆ Region base scopes ids' first' last' uses' := by
  rintro slot (hid | ⟨hge, hlt⟩ | ⟨name, hname, hslot⟩)
  · exact .inl (hids hid)
  · exact .inr (.inl ⟨hfirst.trans hge, hlt.trans_le hlast⟩)
  · exact .inr (.inr ⟨name, hname.trans_le (huses name), hslot⟩)

lemma Attainable.append {demand demand' : (Nat → Ty) → Prop}
    (h : Attainable base (Region base scopes ids first middle uses) demand)
    (h' : Attainable base (Region base scopes ids' middle last uses') demand')
    (hsound : scopes.Sound base nodes next Γ) (hids : ids.Disjoint ids')
    (hbelow : ∀ id ∈ ids ++ ids', id < nodes) (hnext : nodes ≤ next) (hfirst : next ≤ first)
    (hmiddle : first ≤ middle) (hlast : middle ≤ last)
    (honce : UsedOnce base scopes fun name => uses name + uses' name) :
    Attainable base (Region base scopes (ids ++ ids') first last fun name => uses name + uses' name)
      fun τ => demand τ ∧ demand' τ := by
  refine (h.and h' (disjoint_region hsound hids hbelow hnext hfirst hmiddle honce)).mono ?_ fun _ _ hτ => hτ
  apply Set.union_subset
  · exact region_subset (subset_append_left _ _) le_rfl hlast fun name => Nat.le_add_right _ _
  · exact region_subset (subset_append_right _ _) hmiddle le_rfl fun name => Nat.le_add_left _ _

end Regions

namespace Expr

variable {a : Analysis} {base : Nat → Ty} {nodes next : Nat} {scopes : LoopScopes} {Γ : NameTypes}

def Attains (a : Analysis) (base : Nat → Ty) (scopes : LoopScopes) (next : Nat) (e : Expr) (type : Ty) : Prop :=
  Attainable base (Region base scopes e.ids next next fun name => e.uses name)
    fun τ => τ e.id = type ∧ ∀ k ∈ e.constraints a scopes, k.Holds τ

lemma attains_all {es : List Expr} {targets : List Ty} (hsound : scopes.Sound base nodes next Γ)
    (hnext : nodes ≤ next) (hes : ∀ e ∈ es, ∀ type, a.types.typeOf e.id ≤ type → e.Attains a base scopes next type)
    (hle : List.Forall₂ (fun e type => a.types.typeOf e.id ≤ type) es targets)
    (hnodup : (es.flatMap ids).Nodup) (hbelow : ∀ id ∈ es.flatMap ids, id < nodes)
    (honce : UsedOnce base scopes fun name => allUses name es) :
    Attainable base (Region base scopes (es.flatMap ids) next next fun name => allUses name es)
      fun τ => es.map (fun e => τ e.id) = targets ∧ ∀ e ∈ es, ∀ k ∈ e.constraints a scopes, k.Holds τ := by
  induction hle with
  | nil => exact .of_forall fun τ _ => ⟨rfl, by simp⟩
  | @cons e type es targets hle _ ih =>
    obtain ⟨he, hes⟩ := forall_mem_cons.mp hes
    simp only [flatMap_cons, map_cons, allUses_cons] at hnodup hbelow honce ⊢
    obtain ⟨-, hrest, hdisjoint⟩ := nodup_append'.mp hnodup
    have honceRest : UsedOnce base scopes fun name => allUses name es := by
      intro name slot hslot hopen
      have : e.uses name + allUses name es ≤ 1 := honce name slot hslot hopen
      change allUses name es ≤ 1
      omega
    have htail := ih hes hrest (fun id hid => hbelow id (mem_append_right _ hid)) honceRest
    refine (Attainable.append (he type hle) htail hsound hdisjoint hbelow hnext le_rfl le_rfl le_rfl honce).mono
      subset_rfl ?_
    rintro τ - ⟨⟨htop, hk⟩, htops, hks⟩
    exact ⟨by rw [htop, htops], forall_mem_cons.mpr ⟨hk, hks⟩⟩

/-- A name can be given every type above its own: a known type has no other above it, and an unknown one
is that of a slot, which changes with the name. -/
lemma attains_identifier {m : Mark} (hbase : ∀ id, id < nodes → base id = a.types.typeOf id)
    (hsound : scopes.Sound base nodes next Γ) (hbelow : m.id < nodes) (htyped : (identifier m name).Typed a Γ)
    (hle : a.types.typeOf m.id ≤ type) : (identifier m name).Attains a base scopes next type := by
  obtain ⟨found, hfind, hfound⟩ := htyped
  have hnode : a.types.typeOf m.id = found := TypeTable.typeOf_eq hfound
  have hself : Attainable base {m.id} fun τ => τ m.id = type := .update (hbase m.id hbelow ▸ hle)
  have hmem : ∀ slot, slot = m.id →
      slot ∈ Region base scopes (identifier m name).ids next next fun other => (identifier m name).uses other := by
    rintro slot rfl
    exact .inl (identifier m name).id_mem_ids
  rcases hsound.find hfind with ⟨hnone, hknown⟩ | ⟨slot, hslot, htype⟩
  · have hown : (identifier m name).constraints a scopes = [] := by simp [constraints, hnone]
    refine hself.mono hmem fun τ _ hτ => ⟨hτ, ?_⟩
    simp [hown]
  · have hown : (identifier m name).constraints a scopes = [.equal m.id slot] := by simp [constraints, hslot]
    unfold Attains
    rw [hown]
    by_cases hknown : found.isResolved = true
    · -- nothing is above a known type
      refine hself.mono hmem fun τ hτ htop => ⟨htop, forall_mem_singleton.mpr ?_⟩
      have hslotType : τ slot = found := Ty.eq_of_isResolved_of_le hknown (htype ▸ hτ slot)
      have htarget : type = found := Ty.eq_of_isResolved_of_le hknown (hnode ▸ hle)
      change τ m.id = τ slot
      rw [htop, hslotType, htarget]
    · have hvariable : Attainable base {slot} fun τ => τ slot = type := .update (by rw [htype, ← hnode]; exact hle)
      have hdisjoint : ∀ other ∈ ({m.id} : Set Nat), other ∉ ({slot} : Set Nat) := by
        rintro _ rfl hother
        have hslotEq : m.id = slot := hother
        have := hsound.range hslot
        omega
      refine (hself.and hvariable hdisjoint).mono (Set.union_subset hmem ?_) ?_
      · rintro _ rfl
        refine .inr (.inr ⟨name, ?_, hslot, ?_⟩)
        · simp [uses, Expr.nodes, isNamed]
        · rw [htype]
          simpa using hknown
      · rintro τ - ⟨htop, hτ⟩
        exact ⟨htop, forall_mem_singleton.mpr (htop.trans hτ.symm)⟩

lemma own_of_ne_identifier (h : ∀ m name, e ≠ .identifier m name) : e.own a scopes = e.own a [] := by
  cases e with
  | identifier m name => exact absurd rfl (h m name)
  | _ => rfl

lemma Typed.of_ne_identifier {Γ' : NameTypes} (h : ∀ m name, e ≠ .identifier m name) (htyped : e.Typed a Γ) :
    e.Typed a Γ' := by
  cases e with
  | identifier m name => exact absurd rfl (h m name)
  | _ => exact htyped

/-- An expression that uses each variable of unknown type at most once can be given every type above the
one that the analysis found. -/
theorem attains (hbase : ∀ id, id < nodes → base id = a.types.typeOf id)
    (hreturns : ∀ name arguments resolved, a.declarations.resolveCall name arguments = .ok resolved →
      resolved.returnType.isResolved = true) (hsound : scopes.Sound base nodes next Γ) (hnext : nodes ≤ next)
    (hnodup : e.ids.Nodup) (hbelow : ∀ id ∈ e.ids, id < nodes) (hfilled : ∀ n ∈ e.nodes, n.Filled)
    (htyped : e.AllTyped a Γ) (honce : UsedOnce base scopes fun name => e.uses name) (hle : a.types.typeOf e.id ≤ type) :
    e.Attains a base scopes next type := by
  induction e using children_induction generalizing type with
  | step e ih =>
    by_cases hname : ∃ m name, e = .identifier m name
    · obtain ⟨m, name, rfl⟩ := hname
      exact attains_identifier hbase hsound (hbelow m.id (id_mem_ids _)) (htyped _ (self_mem_nodes _)) hle
    · have hname : ∀ m name, e ≠ .identifier m name := fun m name h => hname ⟨m, name, h⟩
      have hrule : e.Typed a [[]] := (htyped e e.self_mem_nodes).of_ne_identifier hname
      obtain ⟨targets, hspread⟩ := exists_spread (by simp) hreturns (hfilled e e.self_mem_nodes) hrule hle
      have huses : ∀ name, e.uses name = allUses name e.children := by
        intro name
        rw [uses_eq]
        cases e with
        | identifier m other => exact absurd rfl (hname m other)
        | _ => rfl
      simp only [huses] at honce
      rw [ids_eq] at hnodup hbelow
      obtain ⟨hrest, -, hdisjoint⟩ := nodup_append'.mp hnodup
      have hbelowRest : ∀ id ∈ e.children.flatMap ids, id < nodes := fun id hid =>
        hbelow id (mem_append_left _ hid)
      have hchildren : ∀ c ∈ e.children, ∀ target, a.types.typeOf c.id ≤ target →
          c.Attains a base scopes next target := by
        intro c hc target hle
        refine ih c hc ((nodup_flatMap.mp hrest).1 c hc) (fun id hid => ?_)
          (fun n hn => hfilled n (mem_nodes_of_child hc hn)) (htyped.child hc) (fun name slot hslot hopen => ?_) hle
        · exact hbelowRest id (mem_flatMap.mpr ⟨c, hc, hid⟩)
        · have hsum : allUses name e.children ≤ 1 := honce name slot hslot hopen
          exact (uses_le_allUses name hc).trans hsum
      have hself : Attainable base {e.id} fun τ => τ e.id = type :=
        .update (hbase e.id (hbelow e.id (by simp)) ▸ hle)
      have hall := attains_all hsound hnext hchildren hspread.above hrest hbelowRest honce
      refine (hall.and hself ?_).mono (Set.union_subset ?_ ?_) ?_
      · rintro _ (hid | hslot | ⟨name, -, hslot, -⟩) rfl
        · exact hdisjoint hid (mem_singleton_self _)
        · omega
        · have := hsound.range hslot
          have := hbelow e.id (by simp)
          omega
      · refine region_subset ?_ le_rfl le_rfl fun name => (huses name).ge
        rw [ids_eq]
        exact subset_append_left _ _
      · rintro _ rfl
        exact .inl e.id_mem_ids
      · rintro τ - ⟨⟨htops, hk⟩, htop⟩
        refine ⟨htop, fun k hmem => ?_⟩
        rcases mem_constraints_step.mp hmem with ⟨c, hc, hmem⟩ | hmem
        · exact hk c hc k hmem
        · rw [own_of_ne_identifier hname] at hmem
          exact hspread.own τ htop htops k hmem

end Expr

end ChessEval
