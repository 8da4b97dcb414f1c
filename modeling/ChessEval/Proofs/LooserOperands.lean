import ChessEval.Proofs.OperandTypes

/-!
# Operators on operands of which less is known

An operator that accepts operands of some types also accepts operands of which less is known, so a placeholder
never brings up an error of its own. What becomes of the result is another matter: it says less too, except
where a number stands beside a coordinate that is no longer known.
-/

namespace ChessEval

namespace Ty

variable {s s' t t' r : Ty}

lemma unifies_anti (hs : s' ≤ s) (ht : t' ≤ t) (h : s.unifies t = true) : s'.unifies t' = true := by
  rcases unifies_iff.mp h with hle | hle
  · exact unifies_of_le_of_le (hs.trans hle) ht
  · exact unifies_of_le_of_le hs (ht.trans hle)

lemma merge_mono (hs : s' ≤ s) (ht : t' ≤ t) (h : s.unifies t = true) : s'.merge t' ≤ s.merge t :=
  merge_le (hs.trans (le_merge_left h)) (ht.trans (le_merge_right h))

lemma eq_or_eq_generic_of_le (ht : ¬t.isArrayShape = true) (h : t' ≤ t) : t' = t ∨ t' = .generic := by
  rcases le_cases h with heq | hgeneric | ⟨-, rfl | ⟨v, rfl⟩⟩ | ⟨-, v, rfl⟩ | ⟨-, v, -, rfl, -⟩
  · exact .inl heq
  · exact .inr hgeneric
  all_goals exact absurd rfl ht

lemma isNumeric_anti (ht : t.isNumeric = true) (h : t' ≤ t) : t'.isNumeric = true ∧ (t' = t ∨ t' = .generic) := by
  have hshape : ¬t.isArrayShape = true := by
    cases t <;> simp_all [isNumeric, isNum, isCoordinate, isArrayShape]
  rcases eq_or_eq_generic_of_le hshape h with rfl | rfl
  · exact ⟨ht, .inl rfl⟩
  · exact ⟨rfl, .inr rfl⟩

lemma isNum_anti (ht : t.isNum = true) (h : t' ≤ t) : t'.isNum = true := by
  rcases isNum_cases ht with rfl | rfl
  · rw [le_generic h]
    rfl
  · rcases eq_or_eq_generic_of_le (by simp [isArrayShape]) h with rfl | rfl <;> rfl

lemma isBool_anti (ht : t.isBool = true) (h : t' ≤ t) : t'.isBool = true := by
  rcases isBool_cases ht with rfl | rfl
  · rw [le_generic h]
    rfl
  · rcases eq_or_eq_generic_of_le (by simp [isArrayShape]) h with rfl | rfl <;> rfl

lemma ne_void_anti (ht : t ≠ .void) (h : t' ≤ t) : t' ≠ .void := by
  rintro rfl
  exact ht (eq_of_isResolved_of_le rfl h)

lemma element?_anti (h : t.element? = .ok r) (ht : t' ≤ t) : ∃ r' ≤ r, t'.element? = .ok r' := by
  rcases le_array_iff.mp (ht.trans (le_array_of_element? h le_rfl)) with rfl | rfl | rfl | ⟨u, rfl, hu⟩
  case inr.inr.inr => exact ⟨u, hu, rfl⟩
  all_goals exact ⟨.generic, generic_le r, rfl⟩

section Checks

/-- Where the result of arithmetic says something else, a number stands beside a coordinate that is lost. -/
lemma arithmetic_anti (h : s.arithmetic t = .ok r) (hs : s' ≤ s) (ht : t' ≤ t) :
    ∃ r', s'.arithmetic t' = .ok r' ∧ (r' ≤ r ∨ (s.isCoordinate = true ∧ s' = .generic ∧ t' = .num) ∨
      (t.isCoordinate = true ∧ t' = .generic ∧ s' = .num)) := by
  obtain ⟨hsnum, htnum, -⟩ := arithmetic_ok h
  obtain ⟨-, rfl | rfl⟩ := isNumeric_anti hsnum hs
  · obtain ⟨-, rfl | rfl⟩ := isNumeric_anti htnum ht
    · exact ⟨r, h, .inl le_rfl⟩
    · cases s' <;> cases t <;> simp_all [arithmetic, isNumeric, isNum, isCoordinate]
  · obtain ⟨-, rfl | rfl⟩ := isNumeric_anti htnum ht
    · cases s <;> cases t' <;> simp_all [arithmetic, isNumeric, isNum, isCoordinate]
    · exact ⟨.generic, rfl, .inl (generic_le r)⟩

lemma logical_anti (h : s.logical t = .ok r) (hs : s' ≤ s) (ht : t' ≤ t) : s'.logical t' = .ok r := by
  obtain ⟨hsbool, htbool, rfl⟩ := logical_ok h
  rw [logical, isBool_anti hsbool hs, isBool_anti htbool ht]
  rfl

lemma ordered_anti (h : s.ordered t = .ok r) (hs : s' ≤ s) (ht : t' ≤ t) : s'.ordered t' = .ok r := by
  obtain ⟨hsnum, htnum, rfl⟩ := ordered_ok h
  obtain ⟨hsnum', rfl | rfl⟩ := isNumeric_anti hsnum hs
  · obtain ⟨htnum', rfl | rfl⟩ := isNumeric_anti htnum ht
    · exact h
    · simp [ordered, hsnum', htnum', isNum]
  · obtain ⟨htnum', -⟩ := isNumeric_anti htnum ht
    simp [ordered, hsnum', htnum', isNum]

/-- Types that are not `void` can be compared if they unify, and otherwise only as a row and a rank. -/
lemma comparable_iff : s.comparable t = true ↔ s ≠ .void ∧ t ≠ .void ∧
    (s.unifies t = true ∨ (s = .row ∧ t = .rank) ∨ (s = .rank ∧ t = .row)) := by
  fun_cases comparable s t with
  | case1 t => simp
  | case2 s => simp
  | case3 => simp
  | case4 => simp
  | case5 s t hs ht hrow hrank =>
    constructor
    · exact fun h => ⟨hs, ht, .inl h⟩
    · rintro ⟨-, -, h | ⟨rfl, rfl⟩ | ⟨rfl, rfl⟩⟩
      · exact h
      · exact absurd rfl (hrow rfl)
      · exact absurd rfl (hrank rfl)

lemma equality_anti (h : s.equality t = .ok r) (hs : s' ≤ s) (ht : t' ≤ t) : s'.equality t' = .ok r := by
  obtain ⟨hcomparable, rfl⟩ := equality_ok h
  obtain ⟨hsvoid, htvoid, hfits⟩ := comparable_iff.mp hcomparable
  have hcomparable' : s'.comparable t' = true := by
    refine comparable_iff.mpr ⟨ne_void_anti hsvoid hs, ne_void_anti htvoid ht, ?_⟩
    rcases hfits with hunifies | ⟨rfl, rfl⟩ | ⟨rfl, rfl⟩
    · exact .inl (unifies_anti hs ht hunifies)
    all_goals
      rcases eq_or_eq_generic_of_le (by simp [isArrayShape]) hs with rfl | rfl
      · rcases eq_or_eq_generic_of_le (by simp [isArrayShape]) ht with rfl | rfl <;> simp [unifies]
      · exact .inl rfl
  rw [equality, hcomparable']
  rfl

lemma membership_anti (h : s.membership t = .ok r) (hs : s' ≤ s) (ht : t' ≤ t) : s'.membership t' = .ok r := by
  obtain ⟨⟨element, helement, hunifies⟩, rfl⟩ := membership_ok h
  obtain ⟨element', hle, helement'⟩ := element?_anti helement ht
  simp [membership, helement', unifies_anti hs hle hunifies]

lemma concatenation_generic (h : s = .generic ∨ t = .generic) : s.concatenation t = .ok .generic := by
  rcases h with rfl | rfl
  · rfl
  · cases s <;> rfl

lemma concatenation_arrays (hs : s.isArrayShape = true) (ht : t.isArrayShape = true) (h : s.unifies t = true) :
    s.concatenation t = .ok (s.merge t) := by
  cases s <;> cases t <;> simp_all [isArrayShape, concatenation, isArray]

lemma isArrayShape_anti (h : t' ≤ t) (ht : t.isArrayShape = true) (ht' : t' ≠ .generic) :
    t'.isArrayShape = true := by
  by_contra hnot
  have heq := eq_of_isResolved_of_le (isResolved_of_not_isArrayShape ht' hnot) h
  exact hnot (heq ▸ ht)

lemma concatenation_anti (h : s.concatenation t = .ok r) (hs : s' ≤ s) (ht : t' ≤ t) :
    ∃ r' ≤ r, s'.concatenation t' = .ok r' := by
  by_cases hgeneric : s' = .generic ∨ t' = .generic
  · exact ⟨.generic, generic_le r, concatenation_generic hgeneric⟩
  obtain ⟨hs', ht'⟩ := not_or.mp hgeneric
  rcases concatenation_ok h with ⟨-, rfl | rfl⟩ | ⟨rfl, -, -, rfl | rfl⟩ | ⟨rfl, hunifies, hsshape, htshape⟩
  · exact absurd (le_generic hs) hs'
  · exact absurd (le_generic ht) ht'
  · obtain rfl := (eq_or_eq_generic_of_le (by simp [isArrayShape]) hs).resolve_right hs'
    exact ⟨.string, le_rfl, concatenation_string_left ht'⟩
  · obtain rfl := (eq_or_eq_generic_of_le (by simp [isArrayShape]) ht).resolve_right ht'
    exact ⟨.string, le_rfl, concatenation_string_right hs'⟩
  · exact ⟨s'.merge t', merge_mono hs ht hunifies, concatenation_arrays (isArrayShape_anti hs hsshape hs')
      (isArrayShape_anti ht htshape ht') (unifies_anti hs ht hunifies)⟩

lemma negation_anti (h : t.negation = .ok r) (ht : t' ≤ t) : t'.negation = .ok r := by
  unfold negation at h ⊢
  split at h
  · rename_i hbool
    rw [isBool_anti hbool ht]
    exact h
  · cases h

lemma signed_anti (h : t.signed = .ok r) (ht : t' ≤ t) : t'.signed = .ok r := by
  unfold signed at h ⊢
  split at h
  · rename_i hnum
    rw [isNum_anti hnum ht]
    exact h
  · cases h

end Checks

/-- A check of operands that accepts those of which less is known. -/
def Tolerant (check : Ty → Ty → Except OperandError Ty) : Prop :=
  ∀ s t r, check s t = .ok r → ∀ s' ≤ s, ∀ t' ≤ t, ∃ r', check s' t' = .ok r'

/-- A check that gives the same type when the operands are swapped, and fails when it does not give one. -/
def Swappable (check : Ty → Ty → Except OperandError Ty) : Prop :=
  ∀ s t r, check s t = .ok r ↔ check t s = .ok r

section Swapping

lemma unifies_comm (s t : Ty) : s.unifies t = t.unifies s := by
  rw [Bool.eq_iff_iff, unifies_iff, unifies_iff, or_comm]

lemma swappable_of_imp {check : Ty → Ty → Except OperandError Ty}
    (h : ∀ s t r, check s t = .ok r → check t s = .ok r) : Swappable check :=
  fun s t r => ⟨h s t r, h t s r⟩

lemma swappable_arithmetic : Swappable arithmetic := by
  apply swappable_of_imp
  intro s t r h
  obtain ⟨hs, ht, -⟩ := arithmetic_ok h
  cases s <;> cases t <;> simp_all [arithmetic, isNumeric, isNum, isCoordinate]

lemma swappable_logical : Swappable logical := by
  apply swappable_of_imp
  intro s t r h
  obtain ⟨hs, ht, rfl⟩ := logical_ok h
  rw [logical, hs, ht]
  rfl

lemma swappable_ordered : Swappable ordered := by
  apply swappable_of_imp
  intro s t r h
  obtain ⟨hs, ht, rfl⟩ := ordered_ok h
  cases s <;> cases t <;> simp_all [ordered, isNumeric, isNum, isCoordinate]

lemma swappable_equality : Swappable equality := by
  apply swappable_of_imp
  intro s t r h
  obtain ⟨hcomparable, rfl⟩ := equality_ok h
  obtain ⟨hs, ht, hfits⟩ := comparable_iff.mp hcomparable
  have hswapped : t.comparable s = true := by
    refine comparable_iff.mpr ⟨ht, hs, ?_⟩
    rcases hfits with hunifies | ⟨rfl, rfl⟩ | ⟨rfl, rfl⟩
    · exact .inl (unifies_comm t s ▸ hunifies)
    · exact .inr (.inr ⟨rfl, rfl⟩)
    · exact .inr (.inl ⟨rfl, rfl⟩)
  rw [equality, hswapped]
  rfl

lemma swappable_concatenation : Swappable concatenation := by
  apply swappable_of_imp
  intro s t r h
  rcases concatenation_ok h with ⟨rfl, hgeneric⟩ | ⟨rfl, hs, ht, rfl | rfl⟩ | ⟨rfl, hunifies, hs, ht⟩
  · exact concatenation_generic hgeneric.symm
  · exact concatenation_string_right ht
  · exact concatenation_string_left hs
  · rw [merge_comm hunifies]
    exact concatenation_arrays ht hs (unifies_comm t s ▸ hunifies)

end Swapping

/-- Every check of operands accepts operands of which less is known, and a search apart every check of two operands
is indifferent to their order. -/
theorem checks_tolerate_unknown_operands :
    (Tolerant arithmetic ∧ Tolerant logical ∧ Tolerant ordered ∧ Tolerant equality ∧ Tolerant membership ∧
      Tolerant concatenation) ∧
    (∀ t r, negation t = .ok r → ∀ t' ≤ t, ∃ r', negation t' = .ok r') ∧
    (∀ t r, signed t = .ok r → ∀ t' ≤ t, ∃ r', signed t' = .ok r') ∧
    Swappable arithmetic ∧ Swappable logical ∧ Swappable ordered ∧ Swappable equality ∧ Swappable concatenation ∧
    ¬Swappable membership := by
  refine ⟨⟨?_, ?_, ?_, ?_, ?_, ?_⟩, ?_, ?_, swappable_arithmetic, swappable_logical, swappable_ordered,
    swappable_equality, swappable_concatenation, ?_⟩
  · intro s t r h s' hs t' ht
    obtain ⟨r', hr', -⟩ := arithmetic_anti h hs ht
    exact ⟨r', hr'⟩
  · intro s t r h s' hs t' ht
    exact ⟨r, logical_anti h hs ht⟩
  · intro s t r h s' hs t' ht
    exact ⟨r, ordered_anti h hs ht⟩
  · intro s t r h s' hs t' ht
    exact ⟨r, equality_anti h hs ht⟩
  · intro s t r h s' hs t' ht
    exact ⟨r, membership_anti h hs ht⟩
  · intro s t r h s' hs t' ht
    obtain ⟨r', -, hr'⟩ := concatenation_anti h hs ht
    exact ⟨r', hr'⟩
  · intro t r h t' ht
    exact ⟨r, negation_anti h ht⟩
  · intro t r h t' ht
    exact ⟨r, signed_anti h ht⟩
  · intro h
    -- a number is found in an array of numbers, and nothing is found in a number
    cases (h .num (.array .num) .bool).mp rfl

theorem checks_tolerate_unknown_operands_nested :
    concatenation (.array (.array .cell)) (.array .emptyArray) = .ok (.array (.array .cell)) ∧
      .array .genericArray ≤ array (.array .cell) ∧ .emptyArray ≤ array .emptyArray ∧
      (∃ r', concatenation (.array .genericArray) .emptyArray = .ok r') ∧
      concatenation (.array .emptyArray) (.array (.array .cell)) = .ok (.array (.array .cell)) := by
  obtain ⟨⟨-, -, -, -, -, htolerant⟩, -, -, -, -, -, -, hswap, -⟩ := checks_tolerate_unknown_operands
  have hjoined : concatenation (.array (.array .cell)) (.array .emptyArray) = .ok (.array (.array .cell)) := rfl
  exact ⟨hjoined, rfl, rfl, htolerant _ _ _ hjoined _ rfl _ rfl, (hswap _ _ _).mp hjoined⟩

end Ty

end ChessEval
