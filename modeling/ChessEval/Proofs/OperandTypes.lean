import ChessEval.Inference.Constraint
import ChessEval.Proofs.Specificity
import ChessEval.Proofs.Typing

namespace ChessEval

namespace Ty

variable {s t r : Ty}

lemma isNumeric_cases (h : t.isNumeric = true) : t = .generic ∨ t.isResolved = true := by
  cases t <;> simp_all [isNumeric, isNum, isCoordinate, isResolved]

lemma isBool_cases (h : t.isBool = true) : t = .generic ∨ t = .bool := by
  cases t <;> simp_all [isBool]

lemma isNum_cases (h : t.isNum = true) : t = .generic ∨ t = .num := by
  cases t <;> simp_all [isNum]

lemma isArrayShape_mono (h : s ≤ t) (hs : s.isArrayShape = true) : t.isArrayShape = true := by
  rcases le_cases h with rfl | rfl | ⟨rfl, rfl | ⟨v, rfl⟩⟩ | ⟨rfl, v, rfl⟩ | ⟨u, v, rfl, rfl, -⟩
  case inr.inl => cases hs
  all_goals exact hs

lemma isResolved_of_not_isArrayShape (hgeneric : t ≠ .generic) (hshape : ¬t.isArrayShape = true) :
    t.isResolved = true := by
  cases t <;> simp_all [isArrayShape, isResolved]

lemma isArrayShape_of_unifies (hs : s ≠ .generic) (ht : t ≠ .generic) (harray : s.isArray = true)
    (h : s.unifies t = true) : s.isArrayShape = true ∧ t.isArrayShape = true := by
  have hshape : s.isArrayShape = true := by
    cases s <;> simp_all [isArray, isArrayShape]
  refine ⟨hshape, ?_⟩
  rcases unifies_iff.mp h with hle | hle
  · exact isArrayShape_mono hle hshape
  · by_contra hnot
    have heq := eq_of_isResolved_of_le (isResolved_of_not_isArrayShape ht hnot) hle
    exact hnot (heq ▸ hshape)

lemma ne_generic_mono (h : s ≤ t) (hs : s ≠ .generic) : t ≠ .generic := by
  rintro rfl
  exact hs (le_generic h)

lemma le_array_of_element? (h : t.element? = .ok r) (hr : r ≤ s) : t ≤ .array s := by
  cases t <;> cases h
  case array.refl => exact array_le_array.mpr hr
  all_goals rfl

lemma mergeAll_le {merged : Ty} {types : List Ty} (h : mergeAll merged types = some r) :
    merged ≤ r ∧ ∀ type ∈ types, type ≤ r := by
  induction types generalizing merged with
  | nil =>
    cases h
    exact ⟨le_rfl, by simp⟩
  | cons type rest ih =>
    rw [mergeAll] at h
    split at h
    · rename_i hfits
      obtain ⟨hmerge, hrest⟩ := ih h
      exact ⟨(le_merge_left hfits.2).trans hmerge,
        List.forall_mem_cons.mpr ⟨(le_merge_right hfits.2).trans hmerge, hrest⟩⟩
    · cases h

lemma arithmetic_ok (h : s.arithmetic t = .ok r) :
    s.isNumeric = true ∧ t.isNumeric = true ∧
      (r.isResolved = true ∨ (s = .generic ∧ t = .generic ∧ r = .generic)) := by
  unfold arithmetic at h
  split at h
  · cases h
  · rename_i hnumeric
    obtain ⟨hs, ht⟩ : s.isNumeric = true ∧ t.isNumeric = true := by simpa using hnumeric
    refine ⟨hs, ht, ?_⟩
    rcases isNumeric_cases hs with rfl | hs
    · cases h
      rcases isNumeric_cases ht with rfl | ht
      · exact .inr ⟨rfl, rfl, rfl⟩
      · exact .inl ht
    rcases isNumeric_cases ht with rfl | ht
    · cases s <;> cases h
      all_goals exact .inl hs
    · left
      split at h
      · cases h
        exact ht
      · cases h
        exact hs
      · cases h
        exact ht
      · cases h
        exact hs
      · split at h
        · cases h
          exact hs
        · cases h

lemma logical_ok (h : s.logical t = .ok r) : s.isBool = true ∧ t.isBool = true ∧ r = .bool := by
  unfold logical at h
  split at h
  · rename_i hbool
    cases h
    exact ⟨(Bool.and_eq_true_iff.mp hbool).1, (Bool.and_eq_true_iff.mp hbool).2, rfl⟩
  · cases h

lemma ordered_ok (h : s.ordered t = .ok r) :
    s.isNumeric = true ∧ t.isNumeric = true ∧ r = .bool := by
  unfold ordered at h
  split at h
  · rename_i hordered
    cases h
    simp only [Bool.and_eq_true] at hordered
    exact ⟨hordered.1.1, hordered.1.2, rfl⟩
  · cases h

lemma equality_ok (h : s.equality t = .ok r) : s.comparable t = true ∧ r = .bool := by
  unfold equality at h
  split at h
  · cases h
    exact ⟨‹_›, rfl⟩
  · cases h

lemma membership_ok (h : s.membership t = .ok r) :
    (∃ element, t.element? = .ok element ∧ s.unifies element = true) ∧ r = .bool := by
  unfold membership at h
  split at h
  · cases h
  · rename_i element helement
    split at h
    · cases h
      exact ⟨⟨element, helement, ‹_›⟩, rfl⟩
    · cases h

/-- Arrays are joined to an array, strings to a string, and nothing is known of what is joined to
something unknown. -/
lemma concatenation_ok (h : s.concatenation t = .ok r) :
    (r = .generic ∧ (s = .generic ∨ t = .generic)) ∨
      (r = .string ∧ s ≠ .generic ∧ t ≠ .generic ∧ (s = .string ∨ t = .string)) ∨
      (r = s.merge t ∧ s.unifies t = true ∧ s.isArrayShape = true ∧ t.isArrayShape = true) := by
  unfold concatenation at h
  split at h
  · cases h
    exact .inl ⟨rfl, .inl rfl⟩
  · cases h
    exact .inl ⟨rfl, .inr rfl⟩
  · cases h
    exact .inr (.inl ⟨rfl, by simp, by assumption, .inl rfl⟩)
  · cases h
    exact .inr (.inl ⟨rfl, by assumption, by simp, .inr rfl⟩)
  · have hs : s ≠ .generic := by assumption
    have ht : t ≠ .generic := by assumption
    split at h
    · rename_i hfits
      cases h
      obtain ⟨harray, hunifies⟩ := Bool.and_eq_true_iff.mp hfits
      exact .inr (.inr ⟨rfl, hunifies, isArrayShape_of_unifies hs ht harray hunifies⟩)
    · cases h

lemma concatenation_string_left (h : t ≠ .generic) : Ty.concatenation .string t = .ok .string := by
  cases t <;> first | rfl | exact absurd rfl h

lemma concatenation_string_right (h : t ≠ .generic) : t.concatenation .string = .ok .string := by
  cases t <;> first | rfl | exact absurd rfl h

lemma concatenation_self (h : t.isArrayShape = true) : t.concatenation t = .ok t := by
  have hunifies : t.unifies t = true := unifies_of_le le_rfl
  have hmerge : t.merge t = t := merge_eq_left le_rfl
  cases t <;> simp_all [isArrayShape, concatenation, isArray]

lemma comparable_of_isArrayShape (hs : s.isArrayShape = true) (ht : t.isArrayShape = true) :
    s.comparable t = s.unifies t := by
  cases s <;> cases ht' : t <;> simp_all [isArrayShape, comparable]

lemma isResolved_of_comparable (h : s.comparable t = true) (hs : s ≠ .generic) (ht : t ≠ .generic)
    (hshape : ¬(s.isArrayShape = true ∧ t.isArrayShape = true)) :
    s.isResolved = true ∧ t.isResolved = true := by
  cases s <;> cases t <;> simp_all [isArrayShape, comparable, unifies, isResolved, isArray]

end Ty

lemma BinaryOp.type_cases {operator : BinaryOp} {left right result : Ty}
    (h : operator.type left right = .ok result) :
    result.isResolved = true ∨ result = .generic ∨ (operator = .concat ∧ result.isArrayShape = true) := by
  cases operator with
  | or | and =>
    obtain ⟨-, -, rfl⟩ := Ty.logical_ok h
    exact .inl rfl
  | equal | notEqual =>
    obtain ⟨-, rfl⟩ := Ty.equality_ok h
    exact .inl rfl
  | less | lessEqual | greater | greaterEqual =>
    obtain ⟨-, -, rfl⟩ := Ty.ordered_ok h
    exact .inl rfl
  | elementOf =>
    obtain ⟨-, rfl⟩ := Ty.membership_ok h
    exact .inl rfl
  | add | subtract | multiply | divide =>
    obtain ⟨-, -, hknown | ⟨-, -, hgeneric⟩⟩ := Ty.arithmetic_ok h
    · exact .inl hknown
    · exact .inr (.inl hgeneric)
  | concat =>
    rcases Ty.concatenation_ok h with ⟨hgeneric, -⟩ | ⟨rfl, -⟩ | ⟨rfl, hunifies, hleft, -⟩
    · exact .inr (.inl hgeneric)
    · exact .inl rfl
    · exact .inr (.inr ⟨rfl, Ty.isArrayShape_mono (Ty.le_merge_left hunifies) hleft⟩)

lemma UnaryOp.isResolved_of_type {operator : UnaryOp} {operand result : Ty}
    (h : operator.type operand = .ok result) : result.isResolved = true := by
  cases operator <;> simp only [UnaryOp.type, Ty.negation, Ty.signed] at h <;> split at h <;> cases h <;> rfl

lemma UnaryOp.isResolved_of_ne_generic {operator : UnaryOp} {operand result : Ty}
    (h : operator.type operand = .ok result) (hoperand : operand ≠ .generic) :
    operand.isResolved = true := by
  cases operator <;> cases operand <;> simp_all [UnaryOp.type, Ty.negation, Ty.signed, Ty.isBool, Ty.isNum,
    Ty.isResolved]

lemma Literal.isResolved_type (value : Literal) : value.type.isResolved = true := by
  cases value with
  | board collection => cases collection <;> rfl
  | _ => rfl

end ChessEval
