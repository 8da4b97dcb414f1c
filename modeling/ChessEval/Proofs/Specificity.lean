import ChessEval.Ty.Operators
import Mathlib.Order.Max
import Mathlib.Order.Preorder.Chain

/-!
# Specificity of types

Types are ordered by how much they say. A placeholder says less than every type it can stand for, an
array says as much as its elements do, and nothing else is comparable. The types below a given type
form a chain, so two types unify exactly if one is below the other, and merging them takes the upper
one.
-/

namespace ChessEval.Ty

variable {s t u : Ty}

/-- Whether the first type says nothing that the second one does not say. -/
def atMost : Ty → Ty → Bool
  | .generic, _ => true
  | .genericArray, .genericArray | .genericArray, .emptyArray | .genericArray, .array _ => true
  | .emptyArray, .emptyArray | .emptyArray, .array _ => true
  | .array s, .array t => s.atMost t
  | s, t => s == t

instance : LE Ty := ⟨fun s t => s.atMost t = true⟩

instance : DecidableLE Ty := fun s t => inferInstanceAs (Decidable (s.atMost t = true))

lemma le_def : s ≤ t ↔ s.atMost t = true := Iff.rfl

@[simp] lemma generic_le (t : Ty) : generic ≤ t := rfl

@[simp] lemma array_le_array {s t : Ty} : array s ≤ array t ↔ s ≤ t := Iff.rfl

lemma le_cases (h : s ≤ t) : s = t ∨ s = generic ∨
    (s = genericArray ∧ (t = emptyArray ∨ ∃ v, t = array v)) ∨
    (s = emptyArray ∧ ∃ v, t = array v) ∨ ∃ u v, s = array u ∧ t = array v ∧ u ≤ v := by
  rw [le_def, atMost.eq_def] at h
  split at h
  case h_8 => exact .inl (eq_of_beq h)
  case h_7 u v => exact .inr (.inr (.inr (.inr ⟨u, v, rfl, rfl, h⟩)))
  all_goals simp

lemma atMost_refl (t : Ty) : t.atMost t = true := by
  induction t with
  | array t ih => exact ih
  | _ => rfl

lemma le_generic (h : t ≤ generic) : t = generic := by
  rcases le_cases h with rfl | rfl | ⟨-, h | ⟨v, h⟩⟩ | ⟨-, v, h⟩ | ⟨u, v, -, h, -⟩
  case inl => rfl
  case inr.inl => rfl
  all_goals cases h

lemma array_le_iff : array s ≤ t ↔ ∃ u, t = array u ∧ s ≤ u := by
  constructor
  · intro h
    rcases le_cases h with rfl | h | ⟨h, -⟩ | ⟨h, -⟩ | ⟨u, v, ⟨⟩, rfl, huv⟩
    case inl => exact ⟨s, rfl, atMost_refl s⟩
    case inr.inr.inr.inr => exact ⟨v, rfl, huv⟩
    all_goals cases h
  · rintro ⟨u, rfl, h⟩
    exact h

lemma le_array_iff : t ≤ array u ↔
    t = generic ∨ t = genericArray ∨ t = emptyArray ∨ ∃ s, t = array s ∧ s ≤ u := by
  constructor
  · intro h
    rcases le_cases h with rfl | rfl | ⟨rfl, -⟩ | ⟨rfl, -⟩ | ⟨s, v, rfl, ⟨⟩, hsv⟩
    · exact .inr (.inr (.inr ⟨u, rfl, atMost_refl u⟩))
    · exact .inl rfl
    · exact .inr (.inl rfl)
    · exact .inr (.inr (.inl rfl))
    · exact .inr (.inr (.inr ⟨s, rfl, hsv⟩))
  · rintro (rfl | rfl | rfl | ⟨s, rfl, h⟩)
    case inr.inr.inr => exact h
    all_goals rfl

lemma atMost_trans (hst : s ≤ t) (htu : t ≤ u) : s ≤ u := by
  induction t generalizing s u with
  | array t ih =>
    obtain ⟨u, rfl, htu⟩ := array_le_iff.mp htu
    rcases le_array_iff.mp hst with rfl | rfl | rfl | ⟨s, rfl, hs⟩
    case inr.inr.inr => exact array_le_array.mpr (ih hs htu)
    all_goals rfl
  | emptyArray =>
    rcases le_cases hst with rfl | rfl | ⟨rfl, -⟩ | ⟨-, v, hv⟩ | ⟨-, v, -, hv, -⟩
    · exact htu
    · exact generic_le u
    · rcases le_cases htu with rfl | h | ⟨h, -⟩ | ⟨-, v, rfl⟩ | ⟨v, -, hv, -⟩
      · rfl
      · cases h
      · cases h
      · rfl
      · cases hv
    · cases hv
    · cases hv
  | _ =>
    rcases le_cases hst with rfl | rfl | ⟨-, h | ⟨v, hv⟩⟩ | ⟨-, v, hv⟩ | ⟨-, v, -, hv, -⟩
    case inl => exact htu
    case inr.inl => exact generic_le u
    all_goals first | cases h | cases hv

lemma atMost_antisymm (hst : s ≤ t) (hts : t ≤ s) : s = t := by
  induction s generalizing t with
  | array s ih =>
    obtain ⟨t, rfl, hst⟩ := array_le_iff.mp hst
    rw [ih hst hts]
  | generic => exact (le_generic hts).symm
  | _ =>
    rcases le_cases hst with h | h | ⟨h, rfl | ⟨v, rfl⟩⟩ | ⟨h, v, rfl⟩ | ⟨u, v, h, -⟩
    case inl => exact h
    all_goals first | cases h; cases hts | cases h

instance : PartialOrder Ty where
  le_refl := atMost_refl
  le_trans _ _ _ := atMost_trans
  le_antisymm _ _ := atMost_antisymm

/-- The types below a type form a chain. -/
theorem le_total_of_le (hs : s ≤ u) (ht : t ≤ u) : s ≤ t ∨ t ≤ s := by
  induction u generalizing s t with
  | array u ih =>
    rcases le_array_iff.mp hs with rfl | rfl | rfl | ⟨s, rfl, hsu⟩ <;>
      rcases le_array_iff.mp ht with rfl | rfl | rfl | ⟨t, rfl, htu⟩
    case inr.inr.inr.inr.inr.inr => simpa using ih hsu htu
    all_goals first | exact .inl rfl | exact .inr rfl
  | emptyArray =>
    rcases le_cases hs with rfl | rfl | ⟨rfl, -⟩ | ⟨-, v, h⟩ | ⟨-, v, -, h, -⟩
    case inl => exact .inr ht
    case inr.inl => exact .inl (generic_le t)
    case inr.inr.inl =>
      rcases le_cases ht with rfl | rfl | ⟨rfl, -⟩ | ⟨-, v, h⟩ | ⟨-, v, -, h, -⟩
      case inl => exact .inl hs
      case inr.inl => exact .inr rfl
      case inr.inr.inl => exact .inl rfl
      all_goals cases h
    all_goals cases h
  | _ =>
    rcases le_cases hs with rfl | rfl | ⟨-, h | ⟨v, h⟩⟩ | ⟨-, v, h⟩ | ⟨-, v, -, h, -⟩
    case inl => exact .inr ht
    case inr.inl => exact .inl (generic_le t)
    all_goals cases h

lemma unifies_of_le (h : s ≤ t) : s.unifies t = true := by
  induction s generalizing t with
  | array s ih =>
    obtain ⟨t, rfl, h⟩ := array_le_iff.mp h
    exact ih h
  | _ =>
    rcases le_cases h with rfl | h | ⟨h, rfl | ⟨v, rfl⟩⟩ | ⟨h, v, rfl⟩ | ⟨u, v, h, -⟩
    all_goals first | rfl | cases h

lemma unifies_of_ge (h : t ≤ s) : s.unifies t = true := by
  induction s generalizing t with
  | array s ih =>
    rcases le_array_iff.mp h with rfl | rfl | rfl | ⟨t, rfl, h⟩
    case inr.inr.inr => exact ih h
    all_goals rfl
  | _ =>
    rcases le_cases h with rfl | rfl | ⟨rfl, h | ⟨v, h⟩⟩ | ⟨rfl, v, h⟩ | ⟨u, v, rfl, h, -⟩
    all_goals first | rfl | cases h

lemma comparable_of_isArray (hs : s = genericArray ∨ s = emptyArray) (ht : t.isArray = true) : s ≤ t ∨ t ≤ s := by
  rcases hs with rfl | rfl
  all_goals cases t
  all_goals first | exact .inl rfl | exact .inr rfl | cases ht

lemma comparable_of_unifies (h : s.unifies t = true) : s ≤ t ∨ t ≤ s := by
  fun_induction unifies s t with
  | case1 t => exact .inl (generic_le t)
  | case2 s => exact .inr (generic_le s)
  | case3 t => exact comparable_of_isArray (.inl rfl) h
  | case4 t => exact comparable_of_isArray (.inr rfl) h
  | case5 s => exact (comparable_of_isArray (.inl rfl) h).symm
  | case6 s => exact (comparable_of_isArray (.inr rfl) h).symm
  | case7 s t ih => exact ih h
  | case8 s t => exact .inl (eq_of_beq h ▸ atMost_refl s)

/-- Types unify exactly if they are comparable. -/
theorem unifies_iff : s.unifies t = true ↔ s ≤ t ∨ t ≤ s :=
  ⟨comparable_of_unifies, fun h => h.elim unifies_of_le unifies_of_ge⟩

lemma unifies_of_le_of_le (hs : s ≤ u) (ht : t ≤ u) : s.unifies t = true :=
  unifies_iff.mpr (le_total_of_le hs ht)

lemma merge_eq_right (h : s ≤ t) : s.merge t = t := by
  induction s generalizing t with
  | array s ih =>
    obtain ⟨t, rfl, h⟩ := array_le_iff.mp h
    exact congrArg array (ih h)
  | _ =>
    rcases le_cases h with rfl | h | ⟨h, rfl | ⟨v, rfl⟩⟩ | ⟨h, v, rfl⟩ | ⟨u, v, h, -⟩
    all_goals first | rfl | cases h

lemma merge_eq_left (h : t ≤ s) : s.merge t = s := by
  induction s generalizing t with
  | array s ih =>
    rcases le_array_iff.mp h with rfl | rfl | rfl | ⟨t, rfl, h⟩
    case inr.inr.inr => exact congrArg array (ih h)
    all_goals rfl
  | _ =>
    rcases le_cases h with rfl | rfl | ⟨rfl, h | ⟨v, h⟩⟩ | ⟨rfl, v, h⟩ | ⟨u, v, rfl, h, -⟩
    all_goals first | rfl | cases h

lemma le_merge_left (h : s.unifies t = true) : s ≤ s.merge t := by
  rcases unifies_iff.mp h with h | h
  · rwa [merge_eq_right h]
  · exact (merge_eq_left h).ge

lemma le_merge_right (h : s.unifies t = true) : t ≤ s.merge t := by
  rcases unifies_iff.mp h with h | h
  · exact (merge_eq_right h).ge
  · rwa [merge_eq_left h]

lemma merge_le (hs : s ≤ u) (ht : t ≤ u) : s.merge t ≤ u := by
  rcases le_total_of_le hs ht with h | h
  · rwa [merge_eq_right h]
  · rwa [merge_eq_left h]

/-- Nothing says more than a type without placeholders. -/
theorem eq_of_isResolved_of_le (hs : s.isResolved = true) (h : s ≤ t) : t = s := by
  induction s generalizing t with
  | array s ih =>
    obtain ⟨t, rfl, h⟩ := array_le_iff.mp h
    rw [ih hs h]
  | generic | genericArray | emptyArray => cases hs
  | _ =>
    rcases le_cases h with h | h | ⟨h, -⟩ | ⟨h, -⟩ | ⟨u, v, h, -⟩
    case inl => exact h.symm
    all_goals cases h

lemma isResolved_mono (h : s ≤ t) (hs : s.isResolved = true) : t.isResolved = true := by
  rw [eq_of_isResolved_of_le hs h]
  exact hs

lemma le_iff : s ≤ t ↔ s = t ∨ s = generic ∨
    (s = genericArray ∧ (t = emptyArray ∨ ∃ v, t = array v)) ∨
    (s = emptyArray ∧ ∃ v, t = array v) ∨ ∃ u v, s = array u ∧ t = array v ∧ u ≤ v := by
  constructor
  · exact le_cases
  · rintro (rfl | rfl | ⟨rfl, rfl | ⟨v, rfl⟩⟩ | ⟨rfl, v, rfl⟩ | ⟨u, v, rfl, rfl, h⟩)
    case inl => exact le_rfl
    case inr.inr.inr.inr => exact array_le_array.mpr h
    all_goals rfl

lemma isResolved_of_isMax (h : IsMax t) : t.isResolved = true := by
  induction t with
  | generic =>
    -- each placeholder has a type right above it
    have hle : num ≤ generic := h (generic_le num)
    cases hle
  | genericArray =>
    have hle : emptyArray ≤ genericArray := h (b := emptyArray) rfl
    cases hle
  | emptyArray =>
    have hle : array num ≤ emptyArray := h (b := array num) rfl
    cases hle
  | array t ih => exact ih fun u htu => h (b := array u) htu
  | _ => rfl

lemma isResolved_iff_isMax : t.isResolved = true ↔ IsMax t :=
  ⟨fun ht _ h => (eq_of_isResolved_of_le ht h).le, isResolved_of_isMax⟩

lemma isGreatest_merge (h : s.unifies t = true) : IsGreatest {s, t} (s.merge t) := by
  rcases unifies_iff.mp h with hst | hts
  · rw [merge_eq_right hst]
    exact ⟨.inr rfl, by simp [upperBounds, hst]⟩
  · rw [merge_eq_left hts]
    exact ⟨.inl rfl, by simp [upperBounds, hts]⟩

lemma merge_comm (h : s.unifies t = true) : s.merge t = t.merge s := by
  rcases unifies_iff.mp h with hst | hts
  · rw [merge_eq_right hst, merge_eq_left hst]
  · rw [merge_eq_left hts, merge_eq_right hts]

lemma merge_assoc (hst : s.unifies t = true) (htu : t.unifies u = true) :
    (s.merge t).merge u = s.merge (t.merge u) := by
  rcases unifies_iff.mp hst with hst | hts
  · rcases unifies_iff.mp htu with htu | hut
    · rw [merge_eq_right hst, merge_eq_right htu, merge_eq_right (hst.trans htu)]
    · rw [merge_eq_right hst, merge_eq_left hut, merge_eq_right hst]
  · rcases unifies_iff.mp htu with htu | hut
    · -- both sides merge `s` and `u`, which need not unify
      rw [merge_eq_left hts, merge_eq_right htu]
    · rw [merge_eq_left hts, merge_eq_left hut, merge_eq_left hts, merge_eq_left (hut.trans hts)]

/-- Specificity makes the types a tree with `generic` at its root. Unification is comparability in the
tree, merging takes the upper type, and the types without placeholders are the leaves. -/
theorem specificity_is_tree_order :
    (∀ t : Ty, generic ≤ t) ∧
      (∀ s t : Ty, s ≤ t ↔ s = t ∨ s = generic ∨
        (s = genericArray ∧ (t = emptyArray ∨ ∃ v, t = array v)) ∨
        (s = emptyArray ∧ ∃ v, t = array v) ∨ ∃ u v, s = array u ∧ t = array v ∧ u ≤ v) ∧
      (∀ u : Ty, IsChain (· ≤ ·) (Set.Iic u)) ∧
      (∀ s t : Ty, s.unifies t = true ↔ s ≤ t ∨ t ≤ s) ∧
      (∀ s t : Ty, s.unifies t = true → IsGreatest {s, t} (s.merge t) ∧ s.merge t = t.merge s) ∧
      (∀ t : Ty, t.merge t = t) ∧
      (∀ s t u : Ty, s.unifies t = true → t.unifies u = true →
        (s.merge t).merge u = s.merge (t.merge u)) ∧
      ∀ t : Ty, t.isResolved = true ↔ IsMax t := by
  refine ⟨generic_le, fun _ _ => le_iff, ?_, fun _ _ => unifies_iff, ?_, ?_, ?_, ?_⟩
  · intro u s hs t ht _
    exact le_total_of_le hs ht
  · intro s t h
    exact ⟨isGreatest_merge h, merge_comm h⟩
  · intro t
    exact merge_eq_left le_rfl
  · intro s t u hst htu
    exact merge_assoc hst htu
  · intro t
    exact isResolved_iff_isMax

theorem specificity_is_tree_order_nested :
    (array genericArray).unifies (array (array generic)) = true ∧
      IsGreatest {array genericArray, array (array generic)}
        ((array genericArray).merge (array (array generic))) ∧
      ¬IsMax (array (array generic)) := by
  obtain ⟨-, -, -, -, hmerge, -, -, hmax⟩ := specificity_is_tree_order
  have hunify : (array genericArray).unifies (array (array generic)) = true := rfl
  refine ⟨hunify, (hmerge _ _ hunify).1, fun h => ?_⟩
  cases (hmax _).mpr h

end ChessEval.Ty
