import ChessEval.Check.Program
import ChessEval.Proofs.Nodes
import Mathlib.Data.List.Infix
import Mathlib.Data.List.Induction
import Mathlib.Order.Interval.Set.Basic

/-!
# What names mean

The occurrences of names in a program in the order of the text, each with the blocks around it.
-/

namespace ChessEval

open List

/-- Where the type of a variable comes from: it is written, or it is that of the elements of a node. -/
inductive Origin where
  | written (type : Ty)
  | elements (source : Nat)
deriving DecidableEq

def Origin.type (types : TypeTable) : Origin → Ty
  | .written type => type
  | .elements source =>
    match (types.typeOf source).element? with
    | .ok type => type
    | .error _ => .generic

/-- A name is declared at an occurrence, or used at the node of the given number. -/
inductive Role where
  | declaration (origin : Origin)
  | use (id : Nat)
deriving DecidableEq

/-- A name at a place of a program. The blocks around it are listed from the innermost one outwards; each
stands for its number among the blocks directly inside the next one. -/
structure Occurrence where
  name : String
  line : Nat
  blocks : List Nat
  definition : Place
  role : Role
deriving DecidableEq

namespace Occurrence

def isUse (o : Occurrence) : Bool :=
  match o.role with
  | .declaration _ => false
  | .use _ => true

def declares (o : Occurrence) (blocks : List Nat) (name : String) : Bool :=
  !o.isUse && o.blocks == blocks && o.name == name

/-- The type of a variable at its declaration, or that of a node. -/
def type (types : TypeTable) (o : Occurrence) : Ty :=
  match o.role with
  | .declaration origin => origin.type types
  | .use id => types.typeOf id

def first? (before : List Occurrence) (blocks : List Nat) (name : String) : Option Occurrence :=
  before.find? fun o => o.declares blocks name

/-- What a name means in a block: the first declaration in the innermost block around it that has one. -/
def meaning? (before : List Occurrence) (blocks : List Nat) (name : String) : Option Occurrence :=
  blocks.tails.findSome? fun outer => first? before outer name

def placed (before : List Occurrence) : List Occurrence → List (List Occurrence × Occurrence)
  | [] => []
  | o :: rest => (before, o) :: placed (before ++ [o]) rest

/-- The declarations that take effect. -/
def declared (before os : List Occurrence) : List Occurrence :=
  ((placed before os).filter fun x => !x.2.isUse && (first? x.1 x.2.blocks x.2.name).isNone).map Prod.snd

def meant (before os : List Occurrence) : List Occurrence :=
  (placed before os).filterMap fun x => if x.2.isUse then meaning? x.1 x.2.blocks x.2.name else none

/-- The uses of names that mean nothing. -/
def undeclared (before os : List Occurrence) : List Occurrence :=
  ((placed before os).filter fun x => x.2.isUse && (meaning? x.1 x.2.blocks x.2.name).isNone).map Prod.snd

/-- The declarations that take effect and that no use means. -/
def unread (os : List Occurrence) : List Occurrence :=
  (declared [] os).filter fun d => d ∉ meant [] os

/-- The node of a use has the type of the declaration that is meant, `generic` if there is none. -/
def Typed (types : TypeTable) (before : List Occurrence) (o : Occurrence) : Prop :=
  ∀ id, o.role = .use id →
    types.get? id = some ((meaning? before o.blocks o.name).elim .generic (Occurrence.type types))

/-- The occurrence of an identifier. -/
def IsNode (o : Occurrence) (m : Mark) (name : String) : Prop :=
  o.role = .use m.id ∧ o.line = m.line ∧ o.name = name

end Occurrence

/-- The name at a node, if the node is an identifier. -/
def Expr.occurrence? (place : Place) (blocks : List Nat) : Expr → Option Occurrence
  | .identifier m name => some ⟨name, m.line, blocks, place, .use m.id⟩
  | _ => none

def Expr.occurrences (place : Place) (blocks : List Nat) (e : Expr) : List Occurrence :=
  e.nodes.filterMap (Expr.occurrence? place blocks)

namespace Stmt

/-- The names in a declaration. -/
def declaratorOccurrences (place : Place) (blocks : List Nat) (type : Ty) : List Declarator → List Occurrence
  | [] => []
  | d :: rest =>
    d.value.toList.flatMap (Expr.occurrences place blocks) ++
      ⟨d.name, d.line, blocks, place, .declaration (.written type)⟩ :: declaratorOccurrences place blocks type rest

/-- The number of blocks directly inside a statement. -/
def ownBlocks : Stmt → Nat
  | .ifThen _ _ none _ | .whileDo .. | .forAll .. => 1
  | .ifThen _ _ (some _) _ => 2
  | _ => 0

mutual

/-- The names in a statement whose own blocks are numbered from `next` on. -/
def occurrences (place : Place) (blocks : List Nat) (next : Nat) : Stmt → List Occurrence
  | .declare type ds _ => declaratorOccurrences place blocks type ds
  | .assign target value _ => target.occurrences place blocks ++ value.occurrences place blocks
  | .ifThen condition thenBody none _ =>
    condition.occurrences place blocks ++ blockOccurrences place (next :: blocks) 0 thenBody
  | .ifThen condition thenBody (some elseBody) _ =>
    condition.occurrences place blocks ++ (blockOccurrences place (next :: blocks) 0 thenBody ++
      blockOccurrences place ((next + 1) :: blocks) 0 elseBody)
  | .whileDo condition body _ =>
    condition.occurrences place blocks ++ blockOccurrences place (next :: blocks) 0 body
  | .forAll name source body line =>
    source.occurrences place blocks ++
      ⟨name, line, next :: blocks, place, .declaration (.elements source.id)⟩ ::
        blockOccurrences place (next :: blocks) 0 body
  | .returns value _ => value.toList.flatMap (Expr.occurrences place blocks)
  | .score value _ => value.occurrences place blocks
  | .call site _ => site.occurrences place blocks

def blockOccurrences (place : Place) (blocks : List Nat) (next : Nat) : List Stmt → List Occurrence
  | [] => []
  | s :: rest => s.occurrences place blocks next ++ blockOccurrences place blocks (next + s.ownBlocks) rest

end

end Stmt

namespace Program

/-- The names in a global, which is declared after its value. -/
def globalOccurrences (g : GlobalDef) : List Occurrence :=
  let place : Place := ⟨.global, g.name, g.line⟩
  g.value.occurrences place [] ++ [⟨g.name, g.line, [], place, .declaration (.written g.type)⟩]

/-- The names in a function. -/
def functionOccurrences (number : Nat) (f : FunctionDef) : List Occurrence :=
  let place : Place := ⟨.function, f.name, f.line⟩
  f.params.map (fun p => ⟨p.name, p.line, [number], place, .declaration (.written p.type)⟩) ++
    Stmt.blockOccurrences place [number] 0 f.body

/-- The names in a rule. -/
def ruleOccurrences (number : Nat) (r : RuleDef) : List Occurrence :=
  let place : Place := ⟨.rule, r.name, r.line⟩
  r.guard.toList.flatMap (Expr.occurrences place []) ++ Stmt.blockOccurrences place [number] 0 r.body

def numbered {α : Type} (names : Nat → α → List Occurrence) (next : Nat) : List α → List Occurrence
  | [] => []
  | definition :: rest => names next definition ++ numbered names (next + 1) rest

def occurrences (p : Program) : List Occurrence :=
  p.globals.flatMap globalOccurrences ++ (numbered functionOccurrences 0 p.functions ++
    numbered ruleOccurrences p.functions.length p.rules)

end Program

namespace Occurrence

variable {types : TypeTable} {before os os' : List Occurrence} {o d : Occurrence} {blocks : List Nat}
  {name : String}

lemma placed_append (before os os' : List Occurrence) :
    placed before (os ++ os') = placed before os ++ placed (before ++ os) os' := by
  induction os generalizing before with
  | nil => simp [placed]
  | cons o rest ih => simp [placed, ih]

lemma declared_append (before os os' : List Occurrence) :
    declared before (os ++ os') = declared before os ++ declared (before ++ os) os' := by
  simp [declared, placed_append]

lemma meant_append (before os os' : List Occurrence) :
    meant before (os ++ os') = meant before os ++ meant (before ++ os) os' := by
  simp [meant, placed_append]

lemma undeclared_append (before os os' : List Occurrence) :
    undeclared before (os ++ os') = undeclared before os ++ undeclared (before ++ os) os' := by
  simp [undeclared, placed_append]

lemma mem_of_mem_placed {x : List Occurrence × Occurrence} (h : x ∈ placed before os) : x.2 ∈ os := by
  induction os generalizing before with
  | nil => cases h
  | cons o rest ih =>
    rcases mem_cons.mp h with rfl | h
    · exact mem_cons_self
    · exact mem_cons_of_mem _ (ih h)

lemma mem_of_mem_declared (h : d ∈ declared before os) : d ∈ os := by
  obtain ⟨x, hx, rfl⟩ := mem_map.mp h
  exact mem_of_mem_placed (mem_filter.mp hx).1

/-! ### Declarations and meanings -/

lemma of_first? (h : first? before blocks name = some d) :
    d.isUse = false ∧ d.blocks = blocks ∧ d.name = name := by
  unfold first? at h
  have hd : d.declares blocks name = true := by simpa using find?_some h
  simpa [declares, and_assoc] using hd

lemma of_meaning? (h : meaning? before blocks name = some d) :
    first? before d.blocks d.name = some d ∧ d.name = name ∧ d.blocks <:+ blocks := by
  obtain ⟨outer, houter, hfirst⟩ := exists_of_findSome?_eq_some h
  obtain ⟨-, rfl, rfl⟩ := of_first? hfirst
  exact ⟨hfirst, rfl, (mem_tails _ _).mp houter⟩

lemma meaning?_nil : meaning? before [] name = first? before [] name := by
  simp [meaning?]

lemma meaning?_of_first? {b : Nat} (h : first? before (b :: blocks) name = some d) :
    meaning? before (b :: blocks) name = some d := by
  simp [meaning?, h]

lemma meaning?_of_not_first? {b : Nat} (h : first? before (b :: blocks) name = none) :
    meaning? before (b :: blocks) name = meaning? before blocks name := by
  simp [meaning?, h]

lemma declared_use (h : o.isUse = true) : declared before [o] = [] := by
  simp [declared, placed, h]

lemma declared_again (h : first? before o.blocks o.name = some d) : declared before [o] = [] := by
  simp [declared, placed, h]

lemma declared_new (huse : o.isUse = false) (h : first? before o.blocks o.name = none) :
    declared before [o] = [o] := by
  simp [declared, placed, huse, h]

lemma meant_declaration (h : o.isUse = false) : meant before [o] = [] := by
  simp [meant, placed, h]

lemma meant_use (h : o.isUse = true) :
    meant before [o] = (meaning? before o.blocks o.name).toList := by
  cases hmeaning : meaning? before o.blocks o.name <;> simp [meant, placed, h, hmeaning]

lemma mem_declared : d ∈ declared [] os ↔ first? os d.blocks d.name = some d := by
  induction os using List.reverseRecOn with
  | nil => simp [declared, placed, first?]
  | append_singleton os o ih =>
    have hfirst : first? (os ++ [o]) d.blocks d.name =
        (first? os d.blocks d.name).or (if o.declares d.blocks d.name then some o else none) := by
      simp [first?, find?_append, find?_singleton]
    rw [declared_append, mem_append, ih, hfirst, nil_append]
    cases hold : first? os d.blocks d.name with
    | some e =>
      -- the name is declared already, so `o` is not a new declaration of it
      have hnot : d ∈ declared os [o] → e = d := by
        intro hmem
        obtain rfl : d = o := mem_singleton.mp (mem_of_mem_declared hmem)
        rw [declared_again hold] at hmem
        cases hmem
      simpa using hnot
    | none =>
      constructor
      · rintro (h | h)
        · cases h
        · obtain rfl : d = o := mem_singleton.mp (mem_of_mem_declared h)
          have huse : d.isUse = false := by
            by_contra hne
            rw [declared_use (by simpa using hne)] at h
            cases h
          simp [declares, huse]
      · intro h
        right
        have hdeclares : o.declares d.blocks d.name = true ∧ o = d := by
          simpa using h
        obtain ⟨hdeclares, rfl⟩ := hdeclares
        have huse : o.isUse = false := by simpa [declares] using hdeclares
        rw [declared_new huse hold]
        exact mem_singleton_self o

lemma of_mem_meant (h : d ∈ meant before os) : ∃ o ∈ os, d.blocks <:+ o.blocks := by
  obtain ⟨x, hx, hd⟩ := mem_filterMap.mp h
  by_cases huse : x.2.isUse = true
  · rw [if_pos huse] at hd
    exact ⟨x.2, mem_of_mem_placed hx, (of_meaning? hd).2.2⟩
  · rw [if_neg huse] at hd
    cases hd

lemma first?_of_mem_meant (h : d ∈ meant [] os) : first? os d.blocks d.name = some d := by
  induction os using List.reverseRecOn with
  | nil => cases h
  | append_singleton os o ih =>
    have hkept : first? os d.blocks d.name = some d → first? (os ++ [o]) d.blocks d.name = some d := by
      intro hfirst
      unfold first? at hfirst ⊢
      rw [find?_append, hfirst, Option.some_or]
    rw [meant_append, nil_append, mem_append] at h
    rcases h with h | h
    · exact hkept (ih h)
    · by_cases huse : o.isUse = true
      · rw [meant_use huse, Option.mem_toList] at h
        exact hkept (of_meaning? h).1
      · rw [meant_declaration (by simpa using huse)] at h
        cases h

/-! ### Scopes -/

def binding (types : TypeTable) (before : List Occurrence) (d : Occurrence) : Binding :=
  ⟨d.type types, d.line, decide (d ∈ meant [] before)⟩

def scope (types : TypeTable) (before : List Occurrence) (blocks : List Nat) : Scope :=
  (((declared [] before).filter fun d => d.blocks = blocks).map fun d =>
    (d.name, binding types before d)).reverse

def frames (types : TypeTable) (before : List Occurrence) : List Nat → List Scope
  | [] => []
  | b :: outer => scope types before (b :: outer) :: frames types before outer

lemma mem_scope {entry : String × Binding} (h : entry ∈ scope types before blocks) :
    ∃ d, first? before blocks d.name = some d ∧ entry = (d.name, binding types before d) := by
  obtain ⟨d, hd, rfl⟩ := mem_map.mp (mem_reverse.mp h)
  obtain ⟨hdeclared, hblocks⟩ := mem_filter.mp hd
  obtain rfl : d.blocks = blocks := by simpa using hblocks
  exact ⟨d, mem_declared.mp hdeclared, rfl⟩

lemma mem_scope_of_first? (types : TypeTable) (h : first? before blocks name = some d) :
    (name, binding types before d) ∈ scope types before blocks := by
  obtain ⟨-, rfl, rfl⟩ := of_first? h
  refine mem_reverse.mpr (mem_map.mpr ⟨d, mem_filter.mpr ⟨mem_declared.mpr h, ?_⟩, rfl⟩)
  simp

lemma find?_scope : (scope types before blocks).find? name =
    (first? before blocks name).map (binding types before) := by
  unfold Scope.find?
  cases hlookup : (scope types before blocks).lookup name with
  | none =>
    cases hfirst : first? before blocks name with
    | none => rfl
    | some d =>
      have hne := lookup_eq_none_iff.mp hlookup _ (mem_scope_of_first? types hfirst)
      simp at hne
  | some b =>
    obtain ⟨l₁, l₂, hsplit, -⟩ := lookup_eq_some_iff.mp hlookup
    have hmem : (name, b) ∈ scope types before blocks := by
      rw [hsplit]
      simp
    obtain ⟨d, hfirst, hentry⟩ := mem_scope hmem
    obtain ⟨rfl, rfl⟩ := Prod.mk.inj hentry
    rw [hfirst]
    rfl

lemma scope_eq_nil (h : ∀ o ∈ before, o.blocks ≠ blocks) : scope types before blocks = [] := by
  have hnone : (declared [] before).filter (fun d => d.blocks = blocks) = [] := by
    refine filter_eq_nil_iff.mpr fun d hd => ?_
    simpa using h d (mem_of_mem_declared hd)
  simp [scope, hnone]

lemma scope_congr {before' : List Occurrence} (hdeclared : declared [] before' = declared [] before)
    (hmeant : ∀ d, d.blocks = blocks → (d ∈ meant [] before' ↔ d ∈ meant [] before)) :
    scope types before' blocks = scope types before blocks := by
  unfold scope
  rw [hdeclared]
  refine congrArg List.reverse (map_congr_left fun d hd => ?_)
  have hblocks : d.blocks = blocks := by simpa using (mem_filter.mp hd).2
  unfold binding
  rw [decide_eq_decide.mpr (hmeant d hblocks)]

lemma frames_congr {before' : List Occurrence}
    (h : ∀ outer, outer <:+ blocks → outer ≠ [] → scope types before' outer = scope types before outer) :
    frames types before' blocks = frames types before blocks := by
  induction blocks with
  | nil => rfl
  | cons b outer ih =>
    have houter := ih fun inner hinner => h inner (hinner.trans (suffix_cons b outer))
    rw [frames, frames, houter, h _ (suffix_refl _) (cons_ne_nil _ _)]

section Declaring

variable (huse : o.isUse = false)
include huse

lemma meant_snoc_declaration : meant [] (before ++ [o]) = meant [] before := by
  rw [meant_append, nil_append, meant_declaration huse, append_nil]

lemma scope_again (h : first? before o.blocks o.name = some d) :
    scope types (before ++ [o]) blocks = scope types before blocks := by
  refine scope_congr ?_ fun d _ => by rw [meant_snoc_declaration huse]
  rw [declared_append, nil_append, declared_again h, append_nil]

lemma scope_new (h : first? before o.blocks o.name = none) :
    scope types (before ++ [o]) o.blocks =
      (scope types before o.blocks).bind o.name (o.type types) o.line := by
  have hunread : o ∉ meant [] before := fun hmem => by simp [first?_of_mem_meant hmem] at h
  have hold : ∀ d, binding types (before ++ [o]) d = binding types before d := fun d => by
    rw [binding, meant_snoc_declaration huse]
    rfl
  have hnew : binding types before o = ⟨o.type types, o.line, false⟩ := by simp [binding, hunread]
  simp [scope, Scope.bind, declared_append, declared_new huse h, hold, hnew]

lemma scope_new_other (h : first? before o.blocks o.name = none) (hne : o.blocks ≠ blocks) :
    scope types (before ++ [o]) blocks = scope types before blocks := by
  have hold : ∀ d, binding types (before ++ [o]) d = binding types before d := fun d => by
    rw [binding, meant_snoc_declaration huse]
    rfl
  simp [scope, declared_append, declared_new huse h, hold, hne]

lemma frames_declaration {b : Nat} {outer : List Nat} (hblocks : o.blocks = b :: outer) :
    frames types (before ++ [o]) outer = frames types before outer := by
  refine frames_congr fun inner hinner _ => ?_
  cases h : first? before o.blocks o.name with
  | some d => exact scope_again huse h
  | none =>
    refine scope_new_other huse h fun heq => ?_
    have hlength := hinner.length_le
    rw [← heq, hblocks, length_cons] at hlength
    omega

end Declaring

section Using

variable (huse : o.isUse = true)
include huse

lemma declared_snoc_use : declared [] (before ++ [o]) = declared [] before := by
  rw [declared_append, nil_append, declared_use huse, append_nil]

lemma mem_meant_snoc_use :
    d ∈ meant [] (before ++ [o]) ↔ d ∈ meant [] before ∨ meaning? before o.blocks o.name = some d := by
  rw [meant_append, nil_append, meant_use huse, mem_append, Option.mem_toList]

lemma scope_use (types : TypeTable) (h : meaning? before o.blocks o.name = some d) :
    scope types (before ++ [o]) d.blocks = (scope types before d.blocks).markUsed o.name := by
  obtain ⟨hfirst, hname, -⟩ := of_meaning? h
  rw [scope, scope, declared_snoc_use huse, Scope.markUsed, map_reverse, map_map]
  refine congrArg List.reverse (map_congr_left fun e he => ?_)
  obtain ⟨hdeclared, hblocks⟩ := mem_filter.mp he
  have hblocks : e.blocks = d.blocks := by simpa using hblocks
  have he := mem_declared.mp hdeclared
  by_cases heq : e.name = o.name
  · -- one declaration of a name takes effect in a block
    have hsame : some e = some d := by rw [← he, ← hfirst, hblocks, heq, hname]
    obtain rfl := Option.some.inj hsame
    have hmeant : e ∈ meant [] (before ++ [o]) := (mem_meant_snoc_use huse).mpr (.inr h)
    simp [binding, heq, hmeant]
  · have hne : e ≠ d := fun h => heq (h ▸ hname)
    have hmeant : e ∈ meant [] (before ++ [o]) ↔ e ∈ meant [] before := by
      rw [mem_meant_snoc_use huse, h, Option.some.injEq, or_iff_left (Ne.symm hne)]
    simp [binding, heq, hmeant]

lemma scope_use_other (h : ∀ d, meaning? before o.blocks o.name = some d → d.blocks ≠ blocks) :
    scope types (before ++ [o]) blocks = scope types before blocks := by
  refine scope_congr (declared_snoc_use huse) fun d hd => ?_
  rw [mem_meant_snoc_use huse, or_iff_left fun hmeaning => h d hmeaning hd]

lemma readVariable_frames (h : meaning? before o.blocks o.name = some d) (hlocal : d.blocks ≠ [])
    (hblocks : meaning? before blocks o.name = some d) :
    Declarations.readVariable o.name (frames types before blocks) =
      some (d.type types, frames types (before ++ [o]) blocks) := by
  -- an outer block of a shorter length than that of `d` stays as it is
  have hother : ∀ outer, outer.length ≠ d.blocks.length →
      scope types (before ++ [o]) outer = scope types before outer := by
    intro outer hlength
    refine scope_use_other huse fun e he heq => ?_
    rw [h, Option.some.injEq] at he
    subst he
    exact hlength (congrArg List.length heq.symm)
  induction blocks with
  | nil =>
    rw [meaning?_nil] at hblocks
    exact absurd (of_first? hblocks).2.1 hlocal
  | cons b outer ih =>
    rw [frames, frames, Declarations.readVariable, find?_scope]
    cases hfirst : first? before (b :: outer) o.name with
    | some e =>
      rw [meaning?_of_first? hfirst, Option.some.injEq] at hblocks
      subst hblocks
      have hblock : e.blocks = b :: outer := (of_first? hfirst).2.1
      have hrest : frames types (before ++ [o]) outer = frames types before outer := by
        refine frames_congr fun inner hinner _ => hother inner ?_
        have hlength := hinner.length_le
        rw [hblock, length_cons]
        omega
      have hhere := scope_use huse types h
      rw [hblock] at hhere
      rw [hrest, hhere]
      rfl
    | none =>
      rw [meaning?_of_not_first? hfirst] at hblocks
      have hlength := (of_meaning? hblocks).2.2.length_le
      have hhere := hother (b :: outer) (by rw [length_cons]; omega)
      rw [ih hblocks, hhere]
      rfl

omit huse in
lemma readVariable_frames_global (types : TypeTable) (h : ∀ d, meaning? before blocks name = some d → d.blocks = []) :
    Declarations.readVariable name (frames types before blocks) = none ∧
      meaning? before blocks name = first? before [] name := by
  induction blocks with
  | nil => exact ⟨rfl, meaning?_nil⟩
  | cons b outer ih =>
    have hfirst : first? before (b :: outer) name = none := by
      by_contra hne
      obtain ⟨d, hd⟩ := Option.ne_none_iff_exists'.mp hne
      have hnil := h d (meaning?_of_first? hd)
      rw [(of_first? hd).2.1] at hnil
      cases hnil
    rw [meaning?_of_not_first? hfirst] at h ⊢
    obtain ⟨hread, hmeaning⟩ := ih h
    refine ⟨?_, hmeaning⟩
    rw [frames, Declarations.readVariable, find?_scope, hfirst, hread]
    rfl

/-- The declarations in which a name is read hold what it means, and afterwards it counts as read. -/
lemma read_frames {ds : Declarations} (hscopes : ds.scopes = frames types before o.blocks)
    (hglobals : ds.globals = scope types before []) :
    ds.read o.name = (meaning? before o.blocks o.name).map fun d => (d.type types,
      { ds with scopes := frames types (before ++ [o]) o.blocks, globals := scope types (before ++ [o]) [] }) := by
  unfold Declarations.read
  rw [hscopes, hglobals]
  by_cases hlocal : ∃ d, meaning? before o.blocks o.name = some d ∧ d.blocks ≠ []
  · obtain ⟨d, hd, hne⟩ := hlocal
    have hrest : scope types (before ++ [o]) [] = scope types before [] := by
      refine scope_use_other huse fun e he => ?_
      rw [hd, Option.some.injEq] at he
      exact he ▸ hne
    rw [readVariable_frames huse hd hne hd, hd, hrest, ← hglobals]
    rfl
  · have hglobal : ∀ d, meaning? before o.blocks o.name = some d → d.blocks = [] := by
      intro d hd
      by_contra hne
      exact hlocal ⟨d, hd, hne⟩
    obtain ⟨hread, hmeaning⟩ := readVariable_frames_global types hglobal
    rw [hread, hmeaning, find?_scope]
    cases hfirst : first? before [] o.name with
    | none => rfl
    | some d =>
      rw [hfirst] at hmeaning
      have hrest : frames types (before ++ [o]) o.blocks = frames types before o.blocks := by
        refine frames_congr fun outer _ hne => scope_use_other huse fun e he heq => ?_
        exact hne (heq ▸ hglobal e he)
      have hhere := scope_use huse types hmeaning
      rw [(of_first? hfirst).2.1] at hhere
      rw [hrest, hhere, ← hscopes]
      rfl

end Using

/-! ### Blocks apart from each other -/

/-- Names of one definition that stand directly in a block, or inside one of the blocks with the given numbers
in it. -/
def Inside (place : Place) (blocks : List Nat) (numbers : Set Nat) (os : List Occurrence) : Prop :=
  ∀ o ∈ os, o.definition = place ∧ (o.blocks = blocks ∨ ∃ k ∈ numbers, k :: blocks <:+ o.blocks)

def Unopened (os : List Occurrence) (blocks : List Nat) (numbers : Set Nat) : Prop :=
  ∀ o ∈ os, ∀ k ∈ numbers, ¬k :: blocks <:+ o.blocks

/-- No name of the second list can mean a declaration in an inner block of the first. -/
def Apart (blocks : List Nat) (os os' : List Occurrence) : Prop :=
  ∀ d ∈ os, d.blocks ≠ blocks → ∀ o ∈ os', ¬d.blocks <:+ o.blocks

section Inside

variable {place place' : Place} {numbers numbers' : Set Nat} {k : Nat}

lemma not_cons_suffix (k : Nat) (blocks : List Nat) : ¬k :: blocks <:+ blocks := by
  intro h
  have hlength := h.length_le
  rw [length_cons] at hlength
  omega

lemma eq_of_cons_suffix {j k : Nat} {inner : List Nat} (hj : j :: blocks <:+ inner) (hk : k :: blocks <:+ inner) :
    j = k := by
  have hsuffix : j :: blocks <:+ k :: blocks := suffix_of_suffix_length_le hj hk (by simp)
  exact (List.cons.inj (hsuffix.eq_of_length (by simp))).1

lemma Inside.append (h : Inside place blocks numbers os) (h' : Inside place blocks numbers os') :
    Inside place blocks numbers (os ++ os') :=
  forall_mem_append.mpr ⟨h, h'⟩

lemma Inside.mono (h : Inside place blocks numbers os) (hsub : numbers ⊆ numbers') :
    Inside place blocks numbers' os := by
  intro o ho
  obtain ⟨hplace, hblocks | ⟨k, hk, hsuffix⟩⟩ := h o ho
  · exact ⟨hplace, .inl hblocks⟩
  · exact ⟨hplace, .inr ⟨k, hsub hk, hsuffix⟩⟩

lemma inside_of_flat (h : ∀ o ∈ os, o.definition = place ∧ o.blocks = blocks) : Inside place blocks numbers os :=
  fun o ho => ⟨(h o ho).1, .inl (h o ho).2⟩

lemma Inside.suffix (h : Inside place (k :: blocks) numbers os) (ho : o ∈ os) : k :: blocks <:+ o.blocks := by
  obtain ⟨-, hblocks | ⟨j, -, hsuffix⟩⟩ := h o ho
  · rw [hblocks]
  · exact (suffix_cons j _).trans hsuffix

lemma Inside.outer (h : Inside place (k :: blocks) numbers os) (hk : k ∈ numbers') :
    Inside place blocks numbers' os :=
  fun o ho => ⟨(h o ho).1, .inr ⟨k, hk, h.suffix ho⟩⟩

lemma Inside.unopened (h : Inside place blocks numbers os) (hdisjoint : ∀ k ∈ numbers, k ∉ numbers') :
    Unopened os blocks numbers' := by
  intro o ho j hj hsuffix
  obtain ⟨-, hblocks | ⟨k, hk, hinner⟩⟩ := h o ho
  · rw [hblocks] at hsuffix
    exact not_cons_suffix j blocks hsuffix
  · exact hdisjoint k hk (eq_of_cons_suffix hinner hsuffix ▸ hj)

lemma Inside.apart (h : Inside place blocks numbers os) (hunopened : Unopened os' blocks numbers) :
    Apart blocks os os' := by
  intro d hd hne o ho hsuffix
  obtain ⟨-, hblocks | ⟨k, hk, hinner⟩⟩ := h d hd
  · exact hne hblocks
  · exact hunopened o ho k hk (hinner.trans hsuffix)

lemma apart_of_flat (h : ∀ o ∈ os, o.blocks = blocks) : Apart blocks os os' :=
  fun d hd hne => absurd (h d hd) hne

lemma unopened_of_flat (h : ∀ o ∈ os, o.blocks = blocks) : Unopened os blocks numbers := by
  intro o ho k _ hsuffix
  rw [h o ho] at hsuffix
  exact not_cons_suffix k blocks hsuffix

lemma Unopened.append (h : Unopened os blocks numbers) (h' : Unopened os' blocks numbers) :
    Unopened (os ++ os') blocks numbers :=
  forall_mem_append.mpr ⟨h, h'⟩

lemma Unopened.mono (h : Unopened os blocks numbers) (hsub : numbers' ⊆ numbers) :
    Unopened os blocks numbers' :=
  fun o ho k hk => h o ho k (hsub hk)

lemma Unopened.inner (h : Unopened os blocks numbers) (hk : k ∈ numbers) : Unopened os (k :: blocks) numbers' :=
  fun o ho j _ hsuffix => h o ho k hk ((suffix_cons j _).trans hsuffix)

end Inside

end Occurrence

lemma exists_mem_append {α : Type} {P : α → Prop} {l l' : List α} :
    (∃ a ∈ l ++ l', P a) ↔ (∃ a ∈ l, P a) ∨ ∃ a ∈ l', P a := by
  simp only [mem_append, or_and_right, exists_or]

open Occurrence

namespace Expr

variable {place : Place} {blocks : List Nat}

lemma flat_occurrences (e : Expr) :
    ∀ o ∈ e.occurrences place blocks, o.definition = place ∧ o.blocks = blocks := by
  intro o ho
  obtain ⟨n, -, hn⟩ := mem_filterMap.mp ho
  unfold occurrence? at hn
  split at hn
  · cases hn
    exact ⟨rfl, rfl⟩
  · cases hn

lemma flat_flatMap_occurrences (es : List Expr) :
    ∀ o ∈ es.flatMap (occurrences place blocks), o.definition = place ∧ o.blocks = blocks := by
  intro o ho
  obtain ⟨e, -, he⟩ := mem_flatMap.mp ho
  exact e.flat_occurrences o he

lemma exists_occurrence {e : Expr} {m : Mark} {name : String} :
    (∃ o ∈ e.occurrences place blocks, o.IsNode m name) ↔ .identifier m name ∈ e.nodes := by
  constructor
  · rintro ⟨o, ho, hid, hline, rfl⟩
    obtain ⟨n, hn, hsome⟩ := mem_filterMap.mp ho
    unfold occurrence? at hsome
    split at hsome
    · rename_i m' name'
      cases hsome
      obtain rfl : m' = m := by
        obtain ⟨id, line⟩ := m'
        simp only [Role.use.injEq] at hid
        subst hid hline
        rfl
      exact hn
    · cases hsome
  · intro h
    exact ⟨_, mem_filterMap.mpr ⟨_, h, rfl⟩, rfl, rfl, rfl⟩

lemma exists_flatMap_occurrence {m : Mark} {name : String} (es : List Expr) (blocks : List Nat) :
    (∃ o ∈ es.flatMap (occurrences place blocks), o.IsNode m name) ↔ ∃ e ∈ es, .identifier m name ∈ e.nodes := by
  have hone : ∀ e : Expr, .identifier m name ∈ e.nodes ↔ ∃ o ∈ e.occurrences place blocks, o.IsNode m name :=
    fun e => exists_occurrence.symm
  simp only [hone, mem_flatMap]
  tauto

end Expr

namespace Stmt

variable {place : Place}

lemma flat_declaratorOccurrences (blocks : List Nat) (type : Ty) (ds : List Declarator) :
    ∀ o ∈ declaratorOccurrences place blocks type ds, o.definition = place ∧ o.blocks = blocks := by
  induction ds with
  | nil => exact fun o ho => by cases ho
  | cons d rest ih =>
    exact forall_mem_append.mpr ⟨Expr.flat_flatMap_occurrences _, forall_mem_cons.mpr ⟨⟨rfl, rfl⟩, ih⟩⟩

/-- The names of a statement stand in its block or in the statement's own blocks, and those of a block in it or in
the blocks inside it, which have the numbers from `next` on. -/
theorem inside_all (block : List Stmt) :
    (∀ blocks next, Inside place blocks (Set.Ici next) (blockOccurrences place blocks next block)) ∧
      ∀ s ∈ block, ∀ blocks next,
        Inside place blocks (Set.Ico next (next + s.ownBlocks)) (s.occurrences place blocks next) := by
  induction block using Stmt.block_induction (fun s => ∀ blocks next,
    Inside place blocks (Set.Ico next (next + s.ownBlocks)) (s.occurrences place blocks next)) with
  | declare type ds line blocks next => exact inside_of_flat (flat_declaratorOccurrences blocks type ds)
  | assign target value line blocks next =>
    exact (inside_of_flat target.flat_occurrences).append (inside_of_flat value.flat_occurrences)
  | ifThen condition body line ih blocks next | whileDo condition body line ih blocks next =>
    exact (inside_of_flat condition.flat_occurrences).append ((ih.1 _ _).outer (by simp [ownBlocks]))
  | ifElse condition thenBody elseBody line ihthen ihelse blocks next =>
    exact (inside_of_flat condition.flat_occurrences).append
      (((ihthen.1 _ _).outer (by simp [ownBlocks])).append ((ihelse.1 _ _).outer (by simp [ownBlocks])))
  | forAll name source body line ih blocks next =>
    have hnext : next ∈ Set.Ico next (next + 1) := by simp
    refine (inside_of_flat source.flat_occurrences).append (forall_mem_cons.mpr ⟨?_, (ih.1 _ _).outer hnext⟩)
    exact ⟨rfl, .inr ⟨next, hnext, suffix_refl _⟩⟩
  | returns value line blocks next => exact inside_of_flat (Expr.flat_flatMap_occurrences _)
  | score value line blocks next | call value line blocks next => exact inside_of_flat value.flat_occurrences
  | nil => simp [Inside, blockOccurrences]
  | cons s rest ihs ihrest =>
    refine ⟨fun blocks next => ?_, forall_mem_cons.mpr ⟨ihs, ihrest.2⟩⟩
    refine ((ihs blocks next).mono Set.Ico_subset_Ici_self).append ((ihrest.1 _ _).mono ?_)
    exact Set.Ici_subset_Ici.mpr (Nat.le_add_right _ _)

lemma inside_blockOccurrences (block : List Stmt) (blocks : List Nat) (next : Nat) :
    Inside place blocks (Set.Ici next) (blockOccurrences place blocks next block) :=
  (inside_all block).1 blocks next

lemma inside_occurrences (s : Stmt) (blocks : List Nat) (next : Nat) :
    Inside place blocks (Set.Ico next (next + s.ownBlocks)) (s.occurrences place blocks next) :=
  (inside_all [s]).2 s (mem_singleton_self s) blocks next

section Nodes

variable {m : Mark} {name : String}

lemma exists_declaratorOccurrence (blocks : List Nat) (type : Ty) (ds : List Declarator) :
    (∃ o ∈ declaratorOccurrences place blocks type ds, o.IsNode m name) ↔
      ∃ e ∈ ds.flatMap fun d => d.value.toList, .identifier m name ∈ e.nodes := by
  induction ds with
  | nil => simp [declaratorOccurrences]
  | cons d rest ih =>
    simp only [declaratorOccurrences, flatMap_cons, exists_mem_append, exists_mem_cons_iff, ih,
      Expr.exists_flatMap_occurrence]
    simp [IsNode]

/-- The uses of names in a block are the identifiers in it. -/
theorem exists_blockOccurrence (block : List Stmt) : ∀ blocks next,
    (∃ o ∈ blockOccurrences place blocks next block, o.IsNode m name) ↔
      ∃ e ∈ (blockParts block).flatMap exprs, .identifier m name ∈ e.nodes := by
  induction block using Stmt.block_induction (fun s => ∀ blocks next,
    (∃ o ∈ s.occurrences place blocks next, o.IsNode m name) ↔
      ∃ e ∈ s.parts.flatMap exprs, .identifier m name ∈ e.nodes) with
  | declare type ds line blocks next =>
    simpa [parts, exprs, occurrences] using exists_declaratorOccurrence blocks type ds
  | assign target value line blocks next =>
    simp only [occurrences, exists_mem_append, Expr.exists_occurrence]
    simp [parts, exprs]
  | ifThen condition body line ih blocks next | whileDo condition body line ih blocks next =>
    simp only [parts, occurrences, exists_mem_append, ih, Expr.exists_occurrence, flatMap_cons]
    simp [exprs]
  | ifElse condition thenBody elseBody line ihthen ihelse blocks next =>
    simp only [parts, occurrences, exists_mem_append, ihthen, ihelse, Expr.exists_occurrence, flatMap_cons,
      flatMap_append]
    simp [exprs]
  | forAll name source body line ih blocks next =>
    simp only [parts, occurrences, exists_mem_append, exists_mem_cons_iff, ih, Expr.exists_occurrence, flatMap_cons]
    simp [exprs, IsNode]
  | returns value line blocks next =>
    simpa [parts, exprs, occurrences] using Expr.exists_flatMap_occurrence value.toList blocks
  | score value line blocks next | call value line blocks next =>
    simp [parts, exprs, occurrences, Expr.exists_occurrence]
  | nil => simp [blockOccurrences, blockParts]
  | cons s rest ihs ihrest =>
    intro blocks next
    simp only [blockOccurrences, blockParts, exists_mem_append, flatMap_append, ihs, ihrest]

end Nodes

end Stmt

namespace Program

variable {m : Mark} {name : String}

lemma exists_numbered {α : Type} {names : Nat → α → List Occurrence} {P : Occurrence → Prop} {Q : α → Prop}
    (h : ∀ number a, (∃ o ∈ names number a, P o) ↔ Q a) (items : List α) (next : Nat) :
    (∃ o ∈ numbered names next items, P o) ↔ ∃ a ∈ items, Q a := by
  induction items generalizing next with
  | nil => simp [numbered]
  | cons a rest ih => rw [numbered, exists_mem_append, h, ih, exists_mem_cons_iff]

lemma exists_globalOccurrence (g : GlobalDef) :
    (∃ o ∈ globalOccurrences g, o.IsNode m name) ↔ .identifier m name ∈ g.value.nodes := by
  simp only [globalOccurrences, exists_mem_append, Expr.exists_occurrence]
  simp [IsNode]

lemma exists_functionOccurrence (number : Nat) (f : FunctionDef) :
    (∃ o ∈ functionOccurrences number f, o.IsNode m name) ↔
      ∃ e ∈ (Stmt.blockParts f.body).flatMap Stmt.exprs, .identifier m name ∈ e.nodes := by
  simp only [functionOccurrences, exists_mem_append, Stmt.exists_blockOccurrence]
  simp [IsNode]

lemma exists_ruleOccurrence (number : Nat) (r : RuleDef) :
    (∃ o ∈ ruleOccurrences number r, o.IsNode m name) ↔
      ∃ e ∈ r.guard.toList ++ (Stmt.blockParts r.body).flatMap Stmt.exprs, .identifier m name ∈ e.nodes := by
  simp only [ruleOccurrences, exists_mem_append, Stmt.exists_blockOccurrence, Expr.exists_flatMap_occurrence]

/-- The uses of names in a program are its identifiers. -/
theorem exists_occurrence (p : Program) :
    (∃ o ∈ p.occurrences, o.IsNode m name) ↔ .identifier m name ∈ p.nodes := by
  have hglobals : (∃ o ∈ p.globals.flatMap globalOccurrences, o.IsNode m name) ↔
      ∃ g ∈ p.globals, .identifier m name ∈ g.value.nodes := by
    simp only [← exists_globalOccurrence, mem_flatMap]
    tauto
  rw [occurrences, exists_mem_append, exists_mem_append, hglobals,
    exists_numbered exists_functionOccurrence, exists_numbered exists_ruleOccurrence, nodes, mem_flatMap]
  constructor
  · rintro (⟨g, hg, hnode⟩ | ⟨f, hf, e, he, hnode⟩ | ⟨r, hr, e, he, hnode⟩)
    · exact ⟨g.value, mem_exprs.mpr (.inl ⟨g, hg, rfl⟩), hnode⟩
    · exact ⟨e, mem_flatMap.mpr ⟨_, mem_functions.mp hf, he⟩, hnode⟩
    · exact ⟨e, mem_flatMap.mpr ⟨_, mem_rules.mp hr, he⟩, hnode⟩
  · rintro ⟨e, he, hnode⟩
    obtain ⟨g | f | r, hd, he⟩ := mem_flatMap.mp he
    · obtain rfl := mem_singleton.mp he
      exact .inl ⟨g, mem_globals.mpr hd, hnode⟩
    · exact .inr (.inl ⟨f, mem_functions.mpr hd, e, he, hnode⟩)
    · exact .inr (.inr ⟨r, mem_rules.mpr hd, e, he, hnode⟩)

end Program

end ChessEval
