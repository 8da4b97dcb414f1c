import ChessEval.Inference.Unifier
import Mathlib.Data.Finset.Card
import Mathlib.Tactic.SplitIfs

/-!
# Classes of slots

The links between slots form a forest, so every path ends at a root and is no longer than there are slots.
-/

namespace ChessEval.Unifier

variable {parent : Array Nat} {slot : Nat}

/-- Links that stay among the slots and along which some rank decreases, so that none of them closes
a cycle. -/
structure Forest (parent : Array Nat) : Prop where
  closed : ∀ slot, slot < parent.size → link parent slot < parent.size
  ranked : ∃ rank : Nat → Nat,
    ∀ slot, link parent slot ≠ slot → rank (link parent slot) < rank slot

def rootIn (parent : Array Nat) (slot : Nat) : Nat :=
  follow parent parent.size slot

lemma link_of_size_le (h : parent.size ≤ slot) : link parent slot = slot := by
  simp [link, Array.getD_eq_getD_getElem?, Array.getElem?_eq_none h]

lemma lt_size_of_link_ne (h : link parent slot ≠ slot) : slot < parent.size := by
  by_contra hs
  exact h (link_of_size_le (Nat.le_of_not_lt hs))

lemma link_setIfInBounds (h : slot < parent.size) (target other : Nat) :
    link (parent.setIfInBounds slot target) other =
      if other = slot then target else link parent other := by
  by_cases ho : other = slot
  · subst ho
    simp [link, Array.getD_eq_getD_getElem?, h]
  · simp [link, Array.getD_eq_getD_getElem?, ho, Array.getElem?_setIfInBounds_ne (Ne.symm ho)]

lemma link_range (count slot : Nat) : link (Array.range count) slot = slot := by
  by_cases h : slot < count
  · simp [link, Array.getD_eq_getD_getElem?, h]
  · exact link_of_size_le (by simpa using h)

lemma forest_range (count : Nat) : Forest (Array.range count) where
  closed slot h := by rwa [link_range]
  ranked := ⟨fun _ => 0, fun slot h => absurd (link_range count slot) h⟩

namespace Forest

variable {parent : Array Nat}

lemma bounded_rank (h : Forest parent) : ∃ rank : Nat → Nat,
    (∀ slot, link parent slot ≠ slot → rank (link parent slot) < rank slot) ∧
      ∀ slot, rank slot ≤ parent.size := by
  obtain ⟨rank, hrank⟩ := h.ranked
  refine ⟨fun slot => ((Finset.range parent.size).filter fun t => rank t < rank slot).card, ?_, ?_⟩
  · intro slot hslot
    have hlt := hrank slot hslot
    have hmem : link parent slot < parent.size := h.closed slot (lt_size_of_link_ne hslot)
    apply Finset.card_lt_card
    rw [Finset.ssubset_iff_of_subset]
    · exact ⟨link parent slot, by simp [hmem, hlt], by simp⟩
    · intro t ht
      simp only [Finset.mem_filter, Finset.mem_range] at ht ⊢
      exact ⟨ht.1, ht.2.trans hlt⟩
  · intro slot
    exact (Finset.card_filter_le _ _).trans (Finset.card_range _).le

lemma follow_succ {rank : Nat → Nat} (hrank : ∀ slot, link parent slot ≠ slot → rank (link parent slot) < rank slot)
    {count : Nat} (hc : rank slot ≤ count) : follow parent (count + 1) slot = follow parent count slot := by
  induction count generalizing slot with
  | zero =>
    have hroot : link parent slot = slot := by
      by_contra hne
      have hlt := hrank slot hne
      omega
    simp [follow, hroot]
  | succ count ih =>
    by_cases hroot : link parent slot = slot
    · rw [follow, if_pos hroot, follow, if_pos hroot]
    · have hlt := hrank slot hroot
      rw [follow, if_neg hroot, ih (by omega), follow, if_neg hroot]

lemma rootIn_eq (h : Forest parent) (slot : Nat) : rootIn parent slot =
    if link parent slot = slot then slot else rootIn parent (link parent slot) := by
  obtain ⟨rank, hrank, hbound⟩ := h.bounded_rank
  rw [rootIn, ← follow_succ hrank (hbound slot), follow]
  rfl

lemma rootIn_of_link_eq (h : Forest parent) (hs : link parent slot = slot) : rootIn parent slot = slot := by
  rw [h.rootIn_eq, if_pos hs]

lemma rootIn_link (h : Forest parent) (slot : Nat) :
    rootIn parent (link parent slot) = rootIn parent slot := by
  by_cases hs : link parent slot = slot
  · rw [hs]
  · rw [h.rootIn_eq slot, if_neg hs]

lemma induction (h : Forest parent) {P : Nat → Prop}
    (root : ∀ slot, link parent slot = slot → P slot)
    (step : ∀ slot, link parent slot ≠ slot → P (link parent slot) → P slot) (slot : Nat) :
    P slot := by
  obtain ⟨rank, hrank⟩ := h.ranked
  induction hr : rank slot using Nat.strong_induction_on generalizing slot with
  | _ r ih =>
    by_cases hs : link parent slot = slot
    · exact root slot hs
    · exact step slot hs (ih _ (hr ▸ hrank slot hs) _ rfl)

lemma rootIn_unique (h : Forest parent) {f : Nat → Nat}
    (root : ∀ slot, link parent slot = slot → f slot = slot)
    (step : ∀ slot, link parent slot ≠ slot → f slot = f (link parent slot)) (slot : Nat) :
    rootIn parent slot = f slot := by
  induction slot using h.induction with
  | root slot hs => rw [h.rootIn_of_link_eq hs, root slot hs]
  | step slot hs ih => rw [← h.rootIn_link, ih, step slot hs]

lemma link_rootIn (h : Forest parent) (slot : Nat) :
    link parent (rootIn parent slot) = rootIn parent slot := by
  induction slot using h.induction with
  | root slot hs => rw [h.rootIn_of_link_eq hs, hs]
  | step slot hs ih => rwa [h.rootIn_link] at ih

lemma rootIn_rootIn (h : Forest parent) (slot : Nat) :
    rootIn parent (rootIn parent slot) = rootIn parent slot :=
  h.rootIn_of_link_eq (h.link_rootIn slot)

lemma rootIn_lt (h : Forest parent) (hs : slot < parent.size) : rootIn parent slot < parent.size := by
  induction slot using h.induction with
  | root slot hr => rwa [h.rootIn_of_link_eq hr]
  | step slot hr ih =>
    rw [← h.rootIn_link]
    exact ih (h.closed slot hs)

lemma rank_rootIn_le (h : Forest parent) {rank : Nat → Nat}
    (hrank : ∀ slot, link parent slot ≠ slot → rank (link parent slot) < rank slot) (slot : Nat) :
    rank (rootIn parent slot) ≤ rank slot := by
  induction slot using h.induction with
  | root slot hs => rw [h.rootIn_of_link_eq hs]
  | step slot hs ih =>
    rw [h.rootIn_link] at ih
    exact ih.trans (hrank slot hs).le

lemma rank_redirect (h : Forest parent) {rank : Nat → Nat}
    (hrank : ∀ slot, link parent slot ≠ slot → rank (link parent slot) < rank slot) (hs : link parent slot ≠ slot)
    (other : Nat) (ho : link (parent.setIfInBounds slot (rootIn parent slot)) other ≠ other) :
    rank (link (parent.setIfInBounds slot (rootIn parent slot)) other) < rank other := by
  rw [link_setIfInBounds (lt_size_of_link_ne hs)] at ho ⊢
  split_ifs with he
  · subst he
    have hle := h.rank_rootIn_le hrank (link parent other)
    rw [h.rootIn_link] at hle
    exact hle.trans_lt (hrank other hs)
  · rw [if_neg he] at ho
    exact hrank other ho

lemma redirect (h : Forest parent) (hs : link parent slot ≠ slot) :
    Forest (parent.setIfInBounds slot (rootIn parent slot)) ∧
      ∀ other, rootIn (parent.setIfInBounds slot (rootIn parent slot)) other =
        rootIn parent other := by
  have hlt := lt_size_of_link_ne hs
  have hlink := link_setIfInBounds hlt (rootIn parent slot)
  have hforest : Forest (parent.setIfInBounds slot (rootIn parent slot)) := by
    constructor
    · intro other ho
      rw [Array.size_setIfInBounds] at ho ⊢
      rw [hlink]
      split_ifs with he
      · exact h.rootIn_lt hlt
      · exact h.closed other ho
    · obtain ⟨rank, hrank⟩ := h.ranked
      exact ⟨rank, h.rank_redirect hrank hs⟩
  refine ⟨hforest, fun other => hforest.rootIn_unique (f := rootIn parent) ?_ ?_ other⟩
  · intro other ho
    rw [hlink] at ho
    split_ifs at ho with he
    · rw [he, ho]
      exact he ▸ rfl
    · exact h.rootIn_of_link_eq ho
  · intro other ho
    rw [hlink]
    split_ifs with he
    · rw [h.rootIn_rootIn, he]
    · rw [h.rootIn_link]

lemma attach (h : Forest parent) {root target : Nat} (hroot : link parent root = root)
    (htarget : link parent target = target) (hr : root < parent.size) (ht : target < parent.size)
    (hne : target ≠ root) :
    Forest (parent.setIfInBounds root target) ∧
      ∀ other, rootIn (parent.setIfInBounds root target) other =
        if rootIn parent other = root then target else rootIn parent other := by
  have hlink := link_setIfInBounds hr target
  have hforest : Forest (parent.setIfInBounds root target) := by
    constructor
    · intro other ho
      rw [Array.size_setIfInBounds] at ho ⊢
      rw [hlink]
      split_ifs with he
      · exact ht
      · exact h.closed other ho
    · obtain ⟨rank, hrank⟩ := h.ranked
      -- the attached class moves above everything in the class of the target
      refine ⟨fun s => if rootIn parent s = root then rank s + rank target + 1 else rank s,
        fun other ho => ?_⟩
      have hrootEq : rootIn parent root = root := h.rootIn_of_link_eq hroot
      have htargetEq : rootIn parent target = target := h.rootIn_of_link_eq htarget
      rw [hlink] at ho ⊢
      by_cases he : other = root
      · subst he
        simp only [if_true, hrootEq, htargetEq, if_neg hne]
        omega
      · rw [if_neg he] at ho
        have hlt := hrank other ho
        simp only [if_neg he, h.rootIn_link]
        split_ifs <;> omega
  refine ⟨hforest, fun other => hforest.rootIn_unique
    (f := fun s => if rootIn parent s = root then target else rootIn parent s) ?_ ?_ other⟩
  · intro other ho
    rw [hlink] at ho
    split_ifs at ho with he
    · exact absurd (ho.trans he) hne
    · simp only [h.rootIn_of_link_eq ho, if_neg he]
  · intro other ho
    rw [hlink]
    by_cases he : other = root
    · simp only [he, if_true, h.rootIn_of_link_eq hroot, h.rootIn_of_link_eq htarget, if_neg hne]
    · simp only [if_neg he, h.rootIn_link]

lemma shorten (h : Forest parent) (count slot : Nat) :
    Forest (Unifier.shorten (rootIn parent slot) count parent slot) ∧
      (Unifier.shorten (rootIn parent slot) count parent slot).size = parent.size ∧
      ∀ other, rootIn (Unifier.shorten (rootIn parent slot) count parent slot) other =
        rootIn parent other := by
  induction count generalizing parent slot with
  | zero => exact ⟨h, rfl, fun _ => rfl⟩
  | succ count ih =>
    rw [Unifier.shorten]
    by_cases hlink : link parent slot = rootIn parent slot
    · rw [if_pos hlink]
      exact ⟨h, rfl, fun _ => rfl⟩
    · rw [if_neg hlink]
      have hs : link parent slot ≠ slot := by
        intro hs
        exact hlink (hs.trans (h.rootIn_of_link_eq hs).symm)
      obtain ⟨hforest, hroots⟩ := h.redirect hs
      have hnext : rootIn (parent.setIfInBounds slot (rootIn parent slot)) (link parent slot) =
          rootIn parent slot := by
        rw [hroots, h.rootIn_link]
      have hrest := ih hforest (link parent slot)
      rw [hnext] at hrest
      refine ⟨hrest.1, hrest.2.1.trans (Array.size_setIfInBounds ..), fun other => ?_⟩
      rw [hrest.2.2, hroots]

end Forest

end ChessEval.Unifier
