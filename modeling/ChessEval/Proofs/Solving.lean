import ChessEval.Proofs.Runs
import ChessEval.Proofs.Specificity
import ChessEval.Proofs.UnionFind

/-!
# Least solutions

A solution gives every slot a type that is at least as specific as the one it starts with and that
meets all constraints. No step of the solver goes beyond a solution, and when a sweep changes nothing
the types of the classes are a solution themselves. So a run that settles ends with the least
solution, and a conflict shows that there is none.
-/

namespace ChessEval

variable {σ : Nat → Ty} {u v : Unifier} {slot : Nat} {pairs : List (Nat × Nat)} {constraints : List Constraint}
  {type : Ty}

namespace Constraint

def slots : Constraint → List Nat
  | .fixed slot _ => [slot]
  | .equal left right => [left, right]
  | .element a e => [a, e]

/-- Whether an assignment of types to slots meets a constraint. -/
def Holds (σ : Nat → Ty) : Constraint → Prop
  | .fixed slot type => type ≤ σ slot
  | .equal left right => σ left = σ right
  | .element a e => σ a = .array (σ e)

lemma Holds.congr {k : Constraint} {τ : Nat → Ty} (h : k.Holds σ) (heq : ∀ slot ∈ k.slots, τ slot = σ slot) :
    k.Holds τ := by
  cases k with
  | fixed slot type =>
    change type ≤ τ slot
    rw [heq slot (by simp [slots])]
    exact h
  | equal left right =>
    change τ left = τ right
    rw [heq left (by simp [slots]), heq right (by simp [slots])]
    exact h
  | element array element =>
    change τ array = .array (τ element)
    rw [heq array (by simp [slots]), heq element (by simp [slots])]
    exact h

end Constraint

/-- An assignment of types to slots that says at least what the types at the start say and meets all
constraints. -/
structure Solution (types : Array Ty) (constraints : List Constraint) (σ : Nat → Ty) : Prop where
  initial : ∀ slot, slot < types.size → types.getD slot .generic ≤ σ slot
  meets : ∀ c ∈ constraints, c.Holds σ

namespace Unifier

/-- A unifier whose links form a forest over the given number of slots. -/
structure Valid (count : Nat) (u : Unifier) : Prop where
  parent_size : u.parent.size = count
  types_size : u.types.size = count
  forest : Forest u.parent

/-- An assignment that a unifier has not ruled out: no class says more than it does, and it gives all
slots of a class the same type. -/
structure Admits (count : Nat) (u : Unifier) (σ : Nat → Ty) : Prop where
  typeAt_le : ∀ slot, slot < count → u.typeAt slot ≤ σ slot
  eq_of_root_eq : ∀ s t, s < count → t < count → u.root s = u.root t → σ s = σ t

/-- A unifier that knows all that another one knows. -/
structure Refines (u v : Unifier) : Prop where
  typeAt_le : ∀ slot, u.typeAt slot ≤ v.typeAt slot
  root_eq : ∀ s t, u.root s = u.root t → v.root s = v.root t

lemma Refines.refl (u : Unifier) : u.Refines u :=
  ⟨fun _ => le_rfl, fun _ _ h => h⟩

lemma Refines.trans {w : Unifier} (huv : u.Refines v) (hvw : v.Refines w) : u.Refines w :=
  ⟨fun s => (huv.typeAt_le s).trans (hvw.typeAt_le s),
    fun s t h => hvw.root_eq s t (huv.root_eq s t h)⟩

lemma typeAt_eq_of_root_eq {s t : Nat} (h : u.root s = u.root t) : u.typeAt s = u.typeAt t := by
  rw [typeAt, typeAt, h]

lemma valid_ofTypes (types : Array Ty) : (ofTypes types).Valid types.size :=
  ⟨by simp [ofTypes], rfl, forest_range _⟩

lemma root_ofTypes (types : Array Ty) (slot : Nat) : (ofTypes types).root slot = slot :=
  (forest_range _).rootIn_of_link_eq (link_range _ slot)

lemma typeAt_ofTypes (types : Array Ty) (slot : Nat) :
    (ofTypes types).typeAt slot = types.getD slot .generic := by
  rw [typeAt, root_ofTypes]
  rfl

section compress

variable {count : Nat} {u : Unifier}

lemma root_compress (hu : u.Valid count) (slot other : Nat) :
    (u.compress slot).root other = u.root other :=
  (hu.forest.shorten u.parent.size slot).2.2 other

lemma typeAt_compress (hu : u.Valid count) (slot other : Nat) :
    (u.compress slot).typeAt other = u.typeAt other := by
  rw [typeAt, root_compress hu]
  rfl

lemma valid_compress (hu : u.Valid count) (slot : Nat) : (u.compress slot).Valid count :=
  ⟨(hu.forest.shorten u.parent.size slot).2.1.trans hu.parent_size, hu.types_size,
    (hu.forest.shorten u.parent.size slot).1⟩

lemma admits_congr (hroot : ∀ s, v.root s = u.root s) (htype : ∀ s, v.typeAt s = u.typeAt s) (h : u.Admits count σ) :
    v.Admits count σ :=
  ⟨fun s hs => (htype s).le.trans (h.typeAt_le s hs), fun s t hs ht he =>
    h.eq_of_root_eq s t hs ht (by rwa [hroot, hroot] at he)⟩

lemma refines_congr (hroot : ∀ s, v.root s = u.root s) (htype : ∀ s, v.typeAt s = u.typeAt s) : u.Refines v :=
  ⟨fun s => (htype s).ge, fun s t he => by rw [hroot, hroot, he]⟩

lemma root_root (hu : u.Valid count) (slot : Nat) : u.root (u.root slot) = u.root slot :=
  hu.forest.rootIn_rootIn slot

lemma root_lt (hu : u.Valid count) (hs : slot < count) : u.root slot < count := by
  have h : rootIn u.parent slot < u.parent.size := hu.forest.rootIn_lt (by rwa [hu.parent_size])
  rwa [hu.parent_size] at h

end compress

def narrow (u : Unifier) (slot : Nat) (type : Ty) : Unifier :=
  { u.compress slot with
    types := u.types.setIfInBounds (u.root slot) ((u.typeAt slot).merge type) }

section narrow

variable {count : Nat} {u : Unifier} {slot : Nat} {type : Ty}

lemma root_narrow (hu : u.Valid count) (other : Nat) :
    (u.narrow slot type).root other = u.root other :=
  root_compress hu slot other

lemma valid_narrow (hu : u.Valid count) : (u.narrow slot type).Valid count :=
  ⟨(valid_compress hu slot).parent_size, by simp [narrow, hu.types_size],
    (valid_compress hu slot).forest⟩

lemma typeAt_narrow (hu : u.Valid count) (hs : slot < count) (other : Nat) :
    (u.narrow slot type).typeAt other =
      if u.root other = u.root slot then (u.typeAt slot).merge type else u.typeAt other := by
  have hlt : u.root slot < u.types.size := by
    rw [hu.types_size]
    exact root_lt hu hs
  rw [typeAt, root_narrow hu]
  by_cases h : u.root other = u.root slot
  · simp [narrow, h, Array.getD_eq_getD_getElem?, hlt]
  · simp [narrow, h, typeAt, Array.getD_eq_getD_getElem?,
      Array.getElem?_setIfInBounds_ne (Ne.symm h)]

lemma typeAt_narrow_self (hu : u.Valid count) (hs : slot < count) :
    (u.narrow slot type).typeAt slot = (u.typeAt slot).merge type := by
  rw [typeAt_narrow hu hs, if_pos rfl]

lemma refines_narrow (hu : u.Valid count) (hs : slot < count)
    (h : (u.typeAt slot).unifies type = true) : u.Refines (u.narrow slot type) := by
  refine ⟨fun other => ?_, fun s t he => by rw [root_narrow hu, root_narrow hu, he]⟩
  rw [typeAt_narrow hu hs]
  split_ifs with he
  · rw [typeAt_eq_of_root_eq he]
    exact Ty.le_merge_left h
  · exact le_rfl

/-- Narrowing a class to a type that an assignment has anyway does not rule the assignment out. -/
lemma admits_narrow (hu : u.Valid count) (hs : slot < count) (hσ : u.Admits count σ) (h : type ≤ σ slot) :
    (u.narrow slot type).Admits count σ := by
  refine ⟨fun other ho => ?_, fun s t hs ht he => ?_⟩
  · rw [typeAt_narrow hu hs]
    split_ifs with he
    · rw [hσ.eq_of_root_eq other slot ho hs he]
      exact Ty.merge_le (hσ.typeAt_le slot hs) h
    · exact hσ.typeAt_le other ho
  · rw [root_narrow hu, root_narrow hu] at he
    exact hσ.eq_of_root_eq s t hs ht he

lemma typeAt_narrow_of_merge_eq (hu : u.Valid count) (hs : slot < count)
    (h : (u.typeAt slot).merge type = u.typeAt slot) (other : Nat) :
    (u.narrow slot type).typeAt other = u.typeAt other := by
  rw [typeAt_narrow hu hs]
  split_ifs with he
  · rw [h, typeAt_eq_of_root_eq he]
  · rfl

end narrow

/-- The unifier after the root of one class has been linked to that of another. -/
def joined (u : Unifier) (target root : Nat) : Unifier :=
  { u with parent := u.parent.setIfInBounds root target }

section joined

variable {count : Nat} {u : Unifier} {target root : Nat}

lemma link_root (hu : u.Valid count) (slot : Nat) : link u.parent (u.root slot) = u.root slot :=
  hu.forest.link_rootIn slot

lemma of_joined (hu : u.Valid count) (ht : u.root target = target) (hr : u.root root = root)
    (htlt : target < count) (hrlt : root < count) (hne : target ≠ root) :
    (u.joined target root).Valid count ∧
      (∀ s, (u.joined target root).root s = if u.root s = root then target else u.root s) ∧
      ∀ s, (u.joined target root).typeAt s = if u.root s = root then u.typeAt target else u.typeAt s := by
  obtain ⟨hforest, hroot⟩ := hu.forest.attach (hr ▸ link_root hu root) (ht ▸ link_root hu target)
    (hu.parent_size ▸ hrlt) (hu.parent_size ▸ htlt) hne
  refine ⟨⟨by simp [joined, hu.parent_size], hu.types_size, hforest⟩, hroot, fun s => ?_⟩
  rw [typeAt, typeAt, typeAt, ht]
  change u.types.getD (rootIn (u.parent.setIfInBounds root target) s) .generic = _
  rw [hroot]
  change u.types.getD (if u.root s = root then target else u.root s) .generic = _
  split_ifs <;> rfl

end joined

end Unifier

lemma Ty.element?_le {s t known : Ty} (h : t ≤ .array s) (hknown : t.element? = .ok known) :
    known ≤ s := by
  rcases le_array_iff.mp h with rfl | rfl | rfl | ⟨t, rfl, ht⟩ <;> cases hknown
  case inr.inr.inr => exact ht
  all_goals exact generic_le s

lemma Ty.exists_element? {s t : Ty} (h : s.unifies (.array t) = true) : ∃ known, s.element? = .ok known := by
  cases s <;> first | exact ⟨_, rfl⟩ | cases h

namespace Unify

open Unifier

lemma run_get (u : Unifier) : (get : Unify Unifier).run u = (.ok u, u) := rfl

lemma run_find (slot : Nat) (u : Unifier) :
    (find slot).run u = (.ok (u.root slot), u.compress slot) := rfl

lemma run_typeOf (slot : Nat) (u : Unifier) :
    (typeOf slot).run u = (.ok (u.typeAt slot), u.compress slot) := rfl

lemma run_fix (slot : Nat) (type : Ty) (u : Unifier) :
    (fix slot type).run u =
      if (u.typeAt slot).unifies type then
        (.ok ((u.typeAt slot).merge type != u.typeAt slot), u.narrow slot type)
      else
        (.error (.inferenceConflict (u.typeAt slot).name type.name), u.compress slot) := by
  have hcurrent : (u.compress slot).types.getD (u.root slot) .generic = u.typeAt slot := rfl
  by_cases h : (u.typeAt slot).unifies type = true
  · simp only [fix, run_bind, run_find, run_get, hcurrent, if_pos h]
    rfl
  · simp only [fix, run_bind, run_find, run_get, hcurrent, if_neg h]
    rfl

/-- What a step may do when assignments have to meet `P`: a success knows more than before and rules
out no assignment that meets `P`, and a failure is a conflict that leaves no such assignment. -/
def Entails (count : Nat) (P : (Nat → Ty) → Prop) (u : Unifier) {α : Type} :
    Except Issue α × Unifier → Prop
  | (.ok _, v) => v.Valid count ∧ u.Refines v ∧ ∀ σ, u.Admits count σ → P σ → v.Admits count σ
  | (.error issue, _) => (∃ expected received, issue = .inferenceConflict expected received) ∧
      ∀ σ, u.Admits count σ → ¬P σ

section Entails

variable {count : Nat} {P Q : (Nat → Ty) → Prop} {u : Unifier} {α β : Type}

lemma Entails.pure (hu : u.Valid count) (a : α) : Entails count P u ((pure a : Unify α).run u) :=
  ⟨hu, Refines.refl u, fun _ hσ _ => hσ⟩

lemma Entails.mono {result : Except Issue α × Unifier} (h : Entails count P u result)
    (hPQ : ∀ σ, u.Admits count σ → Q σ → P σ) : Entails count Q u result := by
  match result, h with
  | (.ok _, v), ⟨hv, huv, hσ⟩ => exact ⟨hv, huv, fun σ ha hq => hσ σ ha (hPQ σ ha hq)⟩
  | (.error _, v), ⟨hissue, hσ⟩ => exact ⟨hissue, fun σ ha hq => hσ σ ha (hPQ σ ha hq)⟩

lemma Entails.bind {x : Unify α} {f : α → Unify β} (hx : Entails count P u (x.run u))
    (hf : ∀ a v, x.run u = (.ok a, v) → v.Valid count → u.Refines v →
      Entails count P v ((f a).run v)) :
    Entails count P u ((x >>= f).run u) := by
  rw [run_bind]
  rcases hrun : x.run u with ⟨issue | a, v⟩
  · rw [hrun] at hx
    exact hx
  · rw [hrun] at hx
    obtain ⟨hv, huv, hσ⟩ := hx
    have hrest := hf a v hrun hv huv
    dsimp only
    rcases hrunf : (f a).run v with ⟨issue | b, w⟩
    · rw [hrunf] at hrest
      exact ⟨hrest.1, fun σ ha hp => hrest.2 σ (hσ σ ha hp) hp⟩
    · rw [hrunf] at hrest
      obtain ⟨hw, hvw, hσw⟩ := hrest
      exact ⟨hw, huv.trans hvw, fun σ ha hp => hσw σ (hσ σ ha hp) hp⟩

lemma entails_typeOf (hu : u.Valid count) (slot : Nat) :
    Entails count P u ((typeOf slot).run u) :=
  ⟨valid_compress hu slot, refines_congr (root_compress hu slot) (typeAt_compress hu slot),
    fun _ hσ _ => admits_congr (root_compress hu slot) (typeAt_compress hu slot) hσ⟩

lemma fix_cases (hu : u.Valid count) (hs : slot < count) {result : Except Issue Bool}
    (h : (fix slot type).run u = (result, v)) : v.Valid count ∧ u.Refines v ∧ ∀ s, v.root s = u.root s := by
  rw [run_fix] at h
  split_ifs at h with hunifies
  · cases h
    exact ⟨valid_narrow hu, refines_narrow hu hs hunifies, root_narrow hu⟩
  · cases h
    have hroot := root_compress hu slot
    exact ⟨valid_compress hu slot, refines_congr hroot (typeAt_compress hu slot), hroot⟩

lemma entails_fix (hu : u.Valid count) (hs : slot < count) (type : Ty) :
    Entails count (fun σ => type ≤ σ slot) u ((fix slot type).run u) := by
  rw [run_fix]
  split_ifs with h
  · exact ⟨valid_narrow hu, refines_narrow hu hs h, fun σ hσ hle => admits_narrow hu hs hσ hle⟩
  · refine ⟨⟨_, _, rfl⟩, fun σ hσ hle => h ?_⟩
    exact Ty.unifies_of_le_of_le (hσ.typeAt_le slot hs) hle

lemma run_union (hu : u.Valid count) (left right : Nat) :
    (union left right).run u =
      if u.root left = u.root right then (.ok (), (u.compress left).compress right)
      else
        match (fix (u.root left) (u.typeAt right)).run ((u.compress left).compress right) with
        | (.ok _, v) => (.ok (), v.joined (u.root left) (u.root right))
        | (.error issue, v) => (.error issue, v) := by
  have htype : ((u.compress left).compress right).types.getD (u.root right) .generic =
      u.typeAt right := rfl
  simp only [union, run_bind, run_find, root_compress hu]
  split_ifs with h
  · rfl
  · simp only [run_bind, run_get, htype]
    rcases (fix (u.root left) (u.typeAt right)).run ((u.compress left).compress right) with
      ⟨_ | _, v⟩ <;> rfl

/-- Two classes whose types unify become one with the merged type, and the root of the first one stays. If the types
do not unify, nothing changes but links. -/
lemma union_cases (hu : u.Valid count) {left right : Nat} (hl : left < count) (hr : right < count)
    {result : Except Issue Unit} (h : (union left right).run u = (result, v)) :
    v.Valid count ∧
      if (u.typeAt left).unifies (u.typeAt right) then
        result = .ok () ∧ (∀ s, v.root s = if u.root s = u.root right then u.root left else u.root s) ∧
          ∀ s, v.typeAt s = if u.root s = u.root left ∨ u.root s = u.root right
            then (u.typeAt left).merge (u.typeAt right) else u.typeAt s
      else
        (∃ expected received, result = .error (.inferenceConflict expected received)) ∧
          (∀ s, v.root s = u.root s) ∧ ∀ s, v.typeAt s = u.typeAt s := by
  have hw := valid_compress (valid_compress hu left) right
  have hroot : ∀ s, ((u.compress left).compress right).root s = u.root s := fun s => by
    rw [root_compress (valid_compress hu left), root_compress hu]
  have htype : ∀ s, ((u.compress left).compress right).typeAt s = u.typeAt s := fun s => by
    rw [typeAt_compress (valid_compress hu left), typeAt_compress hu]
  have hleft : u.typeAt (u.root left) = u.typeAt left := typeAt_eq_of_root_eq (root_root hu left)
  rw [run_union hu, run_fix, htype, hleft] at h
  generalize (u.compress left).compress right = w at hw hroot htype h
  split_ifs at h with hsame hunifies
  · cases h
    have heq := typeAt_eq_of_root_eq hsame
    rw [if_pos (Ty.unifies_of_le heq.le)]
    refine ⟨hw, rfl, fun s => ?_, fun s => ?_⟩
    · rw [hroot, hsame]
      split_ifs with hs
      · exact hs
      · rfl
    · simp only [htype, hsame, or_self, heq, Ty.merge_eq_left le_rfl]
      split_ifs with hs
      · exact typeAt_eq_of_root_eq hs
      · rfl
  · cases h
    have hll := root_lt hu hl
    have hx : (w.narrow (u.root left) (u.typeAt right)).Valid count := valid_narrow hw
    have hxroot : ∀ s, (w.narrow (u.root left) (u.typeAt right)).root s = u.root s := fun s => by
      rw [root_narrow hw, hroot]
    have hxtype : ∀ s, (w.narrow (u.root left) (u.typeAt right)).typeAt s =
        if u.root s = u.root left then (u.typeAt left).merge (u.typeAt right) else u.typeAt s := fun s => by
      rw [typeAt_narrow hw hll, hroot, hroot, root_root hu, htype, htype, hleft]
    obtain ⟨hv, hjoined, hjoinedType⟩ := of_joined hx ((hxroot _).trans (root_root hu left))
      ((hxroot _).trans (root_root hu right)) hll (root_lt hu hr) hsame
    rw [if_pos hunifies]
    refine ⟨hv, rfl, fun s => by rw [hjoined, hxroot], fun s => ?_⟩
    rw [hjoinedType, hxtype, hxtype, hxroot, root_root hu, if_pos rfl]
    by_cases hs : u.root s = u.root right
    · rw [if_pos hs, if_pos (.inr hs)]
    · simp only [hs, or_false, if_false]
  · cases h
    rw [if_neg hunifies]
    refine ⟨valid_compress hw _, ⟨_, _, rfl⟩, fun s => ?_, fun s => ?_⟩
    · rw [root_compress hw, hroot]
    · rw [typeAt_compress hw, htype]

lemma refines_union (hu : u.Valid count) {left right : Nat} (hl : left < count) (hr : right < count)
    {result : Except Issue Unit} (h : (union left right).run u = (result, v)) : u.Refines v := by
  obtain ⟨-, hcases⟩ := union_cases hu hl hr h
  split_ifs at hcases with hunifies
  · obtain ⟨-, hroot, htype⟩ := hcases
    refine ⟨fun s => ?_, fun s t he => by rw [hroot, hroot, he]⟩
    rw [htype]
    split_ifs with hs
    · rcases hs with hs | hs
      · exact (typeAt_eq_of_root_eq hs).trans_le (Ty.le_merge_left hunifies)
      · exact (typeAt_eq_of_root_eq hs).trans_le (Ty.le_merge_right hunifies)
    · exact le_rfl
  · exact refines_congr hcases.2.1 hcases.2.2

lemma entails_union (hu : u.Valid count) {left right : Nat} (hl : left < count)
    (hr : right < count) : Entails count (fun σ => σ left = σ right) u ((union left right).run u) := by
  rcases hrun : (union left right).run u with ⟨result, v⟩
  obtain ⟨hv, hcases⟩ := union_cases hu hl hr hrun
  split_ifs at hcases with hunifies
  · obtain ⟨rfl, hroot, htype⟩ := hcases
    refine ⟨hv, refines_union hu hl hr hrun, fun σ hσ he => ?_⟩
    have hmerged : ∀ s, s < count → u.root s = u.root left ∨ u.root s = u.root right → σ s = σ left := by
      rintro s hs (h | h)
      · exact hσ.eq_of_root_eq s left hs hl h
      · rw [hσ.eq_of_root_eq s right hs hr h, he]
    refine ⟨fun s hs => ?_, fun s t hs ht heq => ?_⟩
    · rw [htype]
      split_ifs with h
      · rw [hmerged s hs h]
        exact Ty.merge_le (hσ.typeAt_le left hl) (he ▸ hσ.typeAt_le right hr)
      · exact hσ.typeAt_le s hs
    · rw [hroot, hroot] at heq
      split_ifs at heq with h₁ h₂ h₂
      · rw [hmerged s hs (.inr h₁), hmerged t ht (.inr h₂)]
      · rw [hmerged s hs (.inr h₁), hmerged t ht (.inl heq.symm)]
      · rw [hmerged t ht (.inr h₂), hmerged s hs (.inl heq)]
      · exact hσ.eq_of_root_eq s t hs ht heq
  · obtain ⟨⟨expected, received, rfl⟩, -⟩ := hcases
    refine ⟨⟨_, _, rfl⟩, fun σ hσ he => hunifies ?_⟩
    exact Ty.unifies_of_le_of_le (hσ.typeAt_le left hl) (he ▸ hσ.typeAt_le right hr)

lemma entails_element (hu : u.Valid count) {a e : Nat} (ha : a < count) (he : e < count) :
    Entails count (fun σ => σ a = .array (σ e)) u ((element a e).run u) := by
  refine (entails_typeOf hu a).bind fun arrayType v hrun hv huv => ?_
  refine (entails_typeOf hv e).bind fun elementType w hrun' hw hvw => ?_
  have harray : arrayType = u.typeAt a := by
    rw [run_typeOf] at hrun
    cases hrun
    rfl
  have helement : elementType ≤ w.typeAt e := by
    rw [run_typeOf] at hrun'
    cases hrun'
    exact hvw.typeAt_le e
  refine ((entails_fix hw ha (.array elementType)).mono fun σ hσ h => ?_).bind
    fun arrayChanged x _ hx hwx => ?_
  · rw [h]
    exact helement.trans (hσ.typeAt_le e he)
  · cases hknown : arrayType.element? with
    | error _ => exact .pure hx arrayChanged
    | ok known =>
      refine ((entails_fix hx he known).mono fun σ hσ h => ?_).bind
        fun elementChanged y _ hy _ => .pure hy (arrayChanged || elementChanged)
      apply Ty.element?_le _ hknown
      rw [harray, ← h]
      exact ((huv.trans (hvw.trans hwx)).typeAt_le a).trans (hσ.typeAt_le a ha)

lemma entails_sweep (hu : u.Valid count) (hpairs : ∀ p ∈ pairs, p.1 < count ∧ p.2 < count) :
    Entails count (fun σ => ∀ p ∈ pairs, σ p.1 = .array (σ p.2)) u ((sweep pairs).run u) := by
  induction pairs generalizing u with
  | nil => exact .pure hu false
  | cons p rest ih =>
    have hp := hpairs p (by simp)
    refine ((entails_element hu hp.1 hp.2).mono fun σ _ h => h p (by simp)).bind
      fun first v _ hv _ => ?_
    refine ((ih hv fun q hq => hpairs q (by simp [hq])).mono fun σ _ h q hq => h q (by simp [hq])).bind
      fun others w _ hw _ => .pure hw (first || others)

lemma entails_settle (hu : u.Valid count) (hpairs : ∀ p ∈ pairs, p.1 < count ∧ p.2 < count) (limit : Nat) :
    Entails count (fun σ => ∀ p ∈ pairs, σ p.1 = .array (σ p.2)) u ((settle pairs limit).run u) := by
  induction limit generalizing u with
  | zero => exact .pure hu false
  | succ limit ih =>
    refine (entails_sweep hu hpairs).bind fun changed v _ hv _ => ?_
    cases changed with
    | true => exact ih hv
    | false => exact .pure hv true

lemma entails_applyAll (hu : u.Valid count) (hrange : ∀ c ∈ constraints, ∀ slot ∈ c.slots, slot < count) :
    Entails count (fun σ => ∀ c ∈ constraints, c.Holds σ) u ((applyAll constraints).run u) := by
  induction constraints generalizing u with
  | nil => exact .pure hu ()
  | cons c rest ih =>
    have hrest : ∀ v : Unifier, v.Valid count → Entails count
        (fun σ => ∀ c' ∈ c :: rest, c'.Holds σ) v ((applyAll rest).run v) := fun v hv =>
      (ih hv fun c' hc' => hrange c' (by simp [hc'])).mono fun σ _ h c' hc' => h c' (by simp [hc'])
    have hc := hrange c (by simp)
    cases c with
    | fixed slot type =>
      refine ((entails_fix hu (hc slot (by simp [Constraint.slots])) type).mono
        fun σ _ h => ?_).bind fun _ v _ hv _ => hrest v hv
      exact h (.fixed slot type) (by simp)
    | equal left right =>
      refine ((entails_union hu (hc left (by simp [Constraint.slots]))
        (hc right (by simp [Constraint.slots]))).mono fun σ _ h => ?_).bind
        fun _ v _ hv _ => hrest v hv
      exact h (.equal left right) (by simp)
    | element a e => exact hrest u hu

end Entails

section Success

variable {count : Nat} {u v : Unifier}

lemma run_fix_ok {changed : Bool} (h : (fix slot type).run u = (.ok changed, v)) :
    (u.typeAt slot).unifies type = true ∧ v = u.narrow slot type ∧
      changed = ((u.typeAt slot).merge type != u.typeAt slot) := by
  rw [run_fix] at h
  split_ifs at h with hu
  · cases h
    exact ⟨hu, rfl, rfl⟩
  · cases h

lemma le_typeAt_of_fix (hu : u.Valid count) (hs : slot < count) {changed : Bool}
    (h : (fix slot type).run u = (.ok changed, v)) : type ≤ v.typeAt slot := by
  obtain ⟨hunify, rfl, -⟩ := run_fix_ok h
  rw [typeAt_narrow_self hu hs]
  exact Ty.le_merge_right hunify

lemma of_fix_unchanged (hu : u.Valid count) (hs : slot < count) (h : (fix slot type).run u = (.ok false, v)) :
    type ≤ u.typeAt slot ∧ ∀ other, v.typeAt other = u.typeAt other := by
  obtain ⟨hunify, rfl, hchanged⟩ := run_fix_ok h
  have hmerge : (u.typeAt slot).merge type = u.typeAt slot := by simpa using hchanged.symm
  refine ⟨?_, typeAt_narrow_of_merge_eq hu hs hmerge⟩
  rw [← hmerge]
  exact Ty.le_merge_right hunify

lemma root_eq_of_union (hu : u.Valid count) {left right : Nat} (hl : left < count)
    (hr : right < count) (h : (union left right).run u = (.ok (), v)) :
    v.root left = v.root right := by
  obtain ⟨-, hcases⟩ := union_cases hu hl hr h
  split_ifs at hcases
  · rw [hcases.2.1, hcases.2.1, if_pos rfl, ite_self]
  · obtain ⟨⟨_, _, ⟨⟩⟩, -⟩ := hcases

lemma run_element_ok (hu : u.Valid count) {a e : Nat} {changed : Bool} :
    (element a e).run u = (.ok changed, v) ↔ ∃ known arrayChanged x elementChanged,
      (fix a (.array (u.typeAt e))).run ((u.compress a).compress e) = (.ok arrayChanged, x) ∧
      (u.typeAt a).element? = .ok known ∧ (fix e known).run x = (.ok elementChanged, v) ∧
      changed = (arrayChanged || elementChanged) := by
  have htype : ∀ s, ((u.compress a).compress e).typeAt s = u.typeAt s := fun s => by
    rw [typeAt_compress (valid_compress hu a), typeAt_compress hu]
  rw [element, run_bind, run_typeOf]
  dsimp only
  rw [run_bind, run_typeOf, typeAt_compress hu]
  dsimp only
  rw [run_bind_ok]
  constructor
  · rintro ⟨arrayChanged, x, hfix, h⟩
    obtain ⟨hunifies, -, -⟩ := run_fix_ok hfix
    rw [htype] at hunifies
    obtain ⟨known, hknown⟩ := Ty.exists_element? hunifies
    rw [hknown] at h
    obtain ⟨elementChanged, y, hfix', h⟩ := run_bind_ok.mp h
    cases h
    exact ⟨known, arrayChanged, x, elementChanged, hfix, hknown, hfix', rfl⟩
  · rintro ⟨known, arrayChanged, x, elementChanged, hfix, hknown, hfix', rfl⟩
    refine ⟨arrayChanged, x, hfix, ?_⟩
    rw [hknown]
    exact run_bind_ok.mpr ⟨elementChanged, v, hfix', rfl⟩

lemma of_element_unchanged (hu : u.Valid count) {a e : Nat} (ha : a < count) (he : e < count)
    (h : (element a e).run u = (.ok false, v)) :
    u.typeAt a = .array (u.typeAt e) ∧ ∀ other, v.typeAt other = u.typeAt other := by
  obtain ⟨known, arrayChanged, x, elementChanged, hfix, hknown, hfix', hchanged⟩ := (run_element_ok hu).mp h
  obtain ⟨rfl, rfl⟩ := Bool.or_eq_false_iff.mp hchanged.symm
  have hw := valid_compress (valid_compress hu a) e
  obtain ⟨hle, hxtype⟩ := of_fix_unchanged hw ha hfix
  obtain ⟨hle', hytype⟩ := of_fix_unchanged (hfix ▸ entails_fix hw ha _).1 he hfix'
  simp only [typeAt_compress (valid_compress hu a), typeAt_compress hu] at hle hxtype
  simp only [hxtype] at hle' hytype
  obtain ⟨s, hs, hes⟩ := Ty.array_le_iff.mp hle
  rw [hs] at hknown
  cases hknown
  exact ⟨by rw [hs, le_antisymm hle' hes], hytype⟩

lemma of_sweep_unchanged (hu : u.Valid count) (hpairs : ∀ p ∈ pairs, p.1 < count ∧ p.2 < count)
    (h : (sweep pairs).run u = (.ok false, v)) :
    (∀ p ∈ pairs, u.typeAt p.1 = .array (u.typeAt p.2)) ∧
      ∀ other, v.typeAt other = u.typeAt other := by
  induction pairs generalizing u with
  | nil =>
    cases h
    exact ⟨by simp, fun _ => rfl⟩
  | cons p rest ih =>
    have hp := hpairs p (by simp)
    obtain ⟨first, w, hfirst, h⟩ := run_bind_ok.mp h
    obtain ⟨others, x, hothers, h⟩ := run_bind_ok.mp h
    have hw : w.Valid count := (hfirst ▸ entails_element hu hp.1 hp.2).1
    have hor : (first || others) = false := by
      rw [run_pure] at h
      injection h with hok hv
      injection hok
    obtain ⟨rfl, rfl⟩ := Bool.or_eq_false_iff.mp hor
    cases h
    obtain ⟨hhead, hwtype⟩ := of_element_unchanged hu hp.1 hp.2 hfirst
    obtain ⟨htail, hvtype⟩ := ih hw (fun q hq => hpairs q (by simp [hq])) hothers
    simp only [hwtype] at htail hvtype
    refine ⟨fun q hq => ?_, hvtype⟩
    rcases List.mem_cons.mp hq with rfl | hq
    · exact hhead
    · exact htail q hq

lemma of_settle (hu : u.Valid count) (hpairs : ∀ p ∈ pairs, p.1 < count ∧ p.2 < count) {limit : Nat}
    (h : (settle pairs limit).run u = (.ok true, v)) : ∀ p ∈ pairs, v.typeAt p.1 = .array (v.typeAt p.2) := by
  induction limit generalizing u with
  | zero => cases h
  | succ limit ih =>
    obtain ⟨changed, w, hsweep, h⟩ := run_bind_ok.mp h
    have hw : w.Valid count := (hsweep ▸ entails_sweep hu hpairs).1
    cases changed with
    | true => exact ih hw h
    | false =>
      cases h
      obtain ⟨hmet, htype⟩ := of_sweep_unchanged hu hpairs hsweep
      intro p hp
      rw [htype, htype]
      exact hmet p hp

/-- What a unifier knows once it has applied a constraint. -/
def Applied (u : Unifier) : Constraint → Prop
  | .fixed slot type => type ≤ u.typeAt slot
  | .equal left right => u.root left = u.root right
  | .element .. => True

lemma Applied.mono {c : Constraint} (huv : u.Refines v) (h : Applied u c) : Applied v c := by
  cases c with
  | fixed slot type => exact le_trans h (huv.typeAt_le slot)
  | equal left right => exact huv.root_eq left right h
  | element a e => trivial

lemma applied_of_applyAll (hu : u.Valid count) (hrange : ∀ c ∈ constraints, ∀ slot ∈ c.slots, slot < count)
    (h : (applyAll constraints).run u = (.ok (), v)) : ∀ c ∈ constraints, Applied v c := by
  induction constraints generalizing u with
  | nil => simp
  | cons c rest ih =>
    have hrestRange : ∀ c' ∈ rest, ∀ slot ∈ c'.slots, slot < count := fun c' hc' =>
      hrange c' (by simp [hc'])
    -- after the first constraint, the run of the others keeps what has been applied
    have hrest : ∀ w : Unifier, w.Valid count → Applied w c →
        (applyAll rest).run w = (.ok (), v) → ∀ c' ∈ c :: rest, Applied v c' := by
      intro w hw hc hrun c' hc'
      rcases List.mem_cons.mp hc' with rfl | hc'
      · have hwv : w.Refines v := (hrun ▸ entails_applyAll hw hrestRange).2.1
        exact hc.mono hwv
      · exact ih hw hrestRange hrun c' hc'
    have hc := hrange c (by simp)
    cases c with
    | fixed slot type =>
      obtain ⟨changed, w, hfix, h⟩ := run_bind_ok.mp h
      have hs : slot < count := hc slot (by simp [Constraint.slots])
      exact hrest w (hfix ▸ entails_fix hu hs type).1 (le_typeAt_of_fix hu hs hfix) h
    | equal left right =>
      obtain ⟨_, w, hunion, h⟩ := run_bind_ok.mp h
      have hl : left < count := hc left (by simp [Constraint.slots])
      have hr : right < count := hc right (by simp [Constraint.slots])
      exact hrest w (hunion ▸ entails_union hu hl hr).1 (root_eq_of_union hu hl hr hunion) h
    | element a e => exact hrest u hu trivial h

lemma mem_elementPairs {p : Nat × Nat} : p ∈ elementPairs constraints ↔ .element p.1 p.2 ∈ constraints := by
  induction constraints with
  | nil => simp [elementPairs]
  | cons c rest ih => cases c <;> simp [elementPairs, ih, Prod.ext_iff]

end Success

section solve

variable {types : Array Ty} {constraints : List Constraint} {limit : Nat} {u : Unifier}

lemma elementPairs_lt {count : Nat} (hrange : ∀ c ∈ constraints, ∀ slot ∈ c.slots, slot < count) :
    ∀ p ∈ elementPairs constraints, p.1 < count ∧ p.2 < count := by
  intro p hp
  have hc := hrange _ (mem_elementPairs.mp hp)
  exact ⟨hc p.1 (by simp [Constraint.slots]), hc p.2 (by simp [Constraint.slots])⟩

lemma admits_ofTypes (h : Solution types constraints σ) : (Unifier.ofTypes types).Admits types.size σ := by
  refine ⟨fun slot hs => ?_, fun s t _ _ he => ?_⟩
  · rw [typeAt_ofTypes]
    exact h.initial slot hs
  · rw [root_ofTypes, root_ofTypes] at he
    rw [he]

lemma entails_solve (hrange : ∀ c ∈ constraints, ∀ slot ∈ c.slots, slot < types.size)
    (limit : Nat) :
    Entails types.size (fun σ => ∀ c ∈ constraints, c.Holds σ) (Unifier.ofTypes types)
      ((solve limit constraints).run (Unifier.ofTypes types)) := by
  refine (entails_applyAll (valid_ofTypes types) hrange).bind fun _ v _ hv _ => ?_
  refine (entails_settle hv (elementPairs_lt hrange) limit).mono fun σ _ h p hp => ?_
  exact h _ (mem_elementPairs.mp hp)

lemma solution_of_solve (hrange : ∀ c ∈ constraints, ∀ slot ∈ c.slots, slot < types.size)
    (h : (solve limit constraints).run (Unifier.ofTypes types) = (.ok true, u)) :
    Solution types constraints u.typeAt := by
  have hrefines : (Unifier.ofTypes types).Refines u := (h ▸ entails_solve hrange limit).2.1
  obtain ⟨_, v, happly, hsettle⟩ := run_bind_ok.mp h
  have hv : v.Valid types.size := (happly ▸ entails_applyAll (valid_ofTypes types) hrange).1
  have hvu : v.Refines u := (hsettle ▸ entails_settle hv (elementPairs_lt hrange) limit).2.1
  refine ⟨fun slot _ => ?_, fun c hc => ?_⟩
  · rw [← typeAt_ofTypes]
    exact hrefines.typeAt_le slot
  · have happlied := (applied_of_applyAll (valid_ofTypes types) hrange happly c hc).mono hvu
    cases c with
    | fixed slot type => exact happlied
    | equal left right => exact typeAt_eq_of_root_eq happlied
    | element a e =>
      exact of_settle hv (elementPairs_lt hrange) hsettle (a, e) (mem_elementPairs.mpr hc)

lemma typeAt_le_of_solve (hrange : ∀ c ∈ constraints, ∀ slot ∈ c.slots, slot < types.size) {settled : Bool}
    (h : (solve limit constraints).run (Unifier.ofTypes types) = (.ok settled, u)) (hσ : Solution types constraints σ) :
    ∀ slot, slot < types.size → u.typeAt slot ≤ σ slot := by
  have hadmits := (h ▸ entails_solve hrange limit).2.2 σ (admits_ofTypes hσ) hσ.meets
  exact hadmits.typeAt_le

lemma unsolvable_of_solve (hrange : ∀ c ∈ constraints, ∀ slot ∈ c.slots, slot < types.size)
    {issue : Issue} (h : (solve limit constraints).run (Unifier.ofTypes types) = (.error issue, u)) :
    (∃ expected received, issue = .inferenceConflict expected received) ∧
      ∀ σ, ¬Solution types constraints σ := by
  have hentails := h ▸ entails_solve hrange limit
  exact ⟨hentails.1, fun σ hσ => hentails.2 σ (admits_ofTypes hσ) hσ.meets⟩

lemma valid_of_solve (hrange : ∀ c ∈ constraints, ∀ slot ∈ c.slots, slot < types.size)
    {settled : Bool} (h : (solve limit constraints).run (Unifier.ofTypes types) = (.ok settled, u)) :
    u.Valid types.size :=
  (h ▸ entails_solve hrange limit).1

end solve

/-- Reading the types of slots one after another gives the types of their classes, however the paths
are shortened in between. -/
lemma run_mapM_typeOf {count : Nat} (hu : u.Valid count) (slots : List Nat) :
    ∃ v, (slots.mapM typeOf).run u = (.ok (slots.map u.typeAt), v) := by
  induction slots generalizing u with
  | nil => exact ⟨u, rfl⟩
  | cons slot rest ih =>
    obtain ⟨v, hv⟩ := ih (valid_compress hu slot)
    refine ⟨v, ?_⟩
    rw [List.mapM_cons, run_bind_ok]
    refine ⟨_, _, run_typeOf slot u, ?_⟩
    rw [run_bind_ok]
    refine ⟨_, _, hv, ?_⟩
    rw [run_pure, funext (typeAt_compress hu slot), List.map_cons]

/-- Solving constraints either never settles, or ends with the least solution, or ends with a conflict
when there is no solution. -/
theorem solve_least_or_unsolvable (types : Array Ty) (constraints : List Constraint) (limit : Nat)
    (hrange : ∀ c ∈ constraints, ∀ slot ∈ c.slots, slot < types.size) :
    (∀ u, (solve limit constraints).run (Unifier.ofTypes types) = (.ok true, u) →
      ∃ σ, (((List.range types.size).mapM typeOf).run u).1 = .ok ((List.range types.size).map σ) ∧
        Solution types constraints σ ∧
        ∀ τ, Solution types constraints τ → ∀ slot, slot < types.size → σ slot ≤ τ slot) ∧
      ∀ issue u, (solve limit constraints).run (Unifier.ofTypes types) = (.error issue, u) →
        (∃ expected received, issue = .inferenceConflict expected received) ∧
          ¬∃ σ, Solution types constraints σ := by
  refine ⟨fun u h => ⟨u.typeAt, ?_, solution_of_solve hrange h, ?_⟩, fun issue u h => ?_⟩
  · obtain ⟨v, hv⟩ := run_mapM_typeOf (valid_of_solve hrange h) (List.range types.size)
    rw [hv]
  · intro τ hτ
    exact typeAt_le_of_solve hrange h hτ
  · obtain ⟨hissue, hnone⟩ := unsolvable_of_solve hrange h
    exact ⟨hissue, fun ⟨σ, hσ⟩ => hnone σ hσ⟩

theorem solve_nested_arrays_least :
    (∀ c ∈ [Constraint.element 0 1, .equal 3 1, .fixed 3 .num, .element 2 0],
        ∀ slot ∈ c.slots, slot < 4) ∧
      ∃ u σ, ((solve 3 [.element 0 1, .equal 3 1, .fixed 3 .num, .element 2 0]).run
          (Unifier.ofTypes #[.emptyArray, .generic, .array .genericArray, .generic])) = (.ok true, u) ∧
        (((List.range 4).mapM typeOf).run u).1 = .ok ((List.range 4).map σ) ∧
        ∀ τ, Solution #[.emptyArray, .generic, .array .genericArray, .generic]
          [.element 0 1, .equal 3 1, .fixed 3 .num, .element 2 0] τ → ∀ slot, slot < 4 → σ slot ≤ τ slot := by
  have hrange : ∀ c ∈ [Constraint.element 0 1, .equal 3 1, .fixed 3 .num, .element 2 0],
      ∀ slot ∈ c.slots, slot < 4 := by decide
  have hok : ((solve 3 [.element 0 1, .equal 3 1, .fixed 3 .num, .element 2 0]).run
      (Unifier.ofTypes #[.emptyArray, .generic, .array .genericArray, .generic])).1.toOption = some true := by
    decide +kernel
  rcases hrun : (solve 3 [.element 0 1, .equal 3 1, .fixed 3 .num, .element 2 0]).run
    (Unifier.ofTypes #[.emptyArray, .generic, .array .genericArray, .generic]) with ⟨issue | settled, u⟩
  · rw [hrun] at hok
    cases hok
  · rw [hrun] at hok
    cases hok
    obtain ⟨σ, hread, -, hleast⟩ := (solve_least_or_unsolvable
      #[.emptyArray, .generic, .array .genericArray, .generic] _ 3 hrange).1 u hrun
    exact ⟨hrange, u, σ, rfl, hread, hleast⟩

end Unify

end ChessEval
