import ChessEval.Proofs.Solving
import Mathlib.Data.Setoid.Basic

/-!
# Classes of slots, by the history of calls

Which slots have the same root can be told from the calls that were made to merge classes, in whatever order with
other calls and with whatever success. To find a root takes two loops: one climbs along the links, and one links
the slots on the way to the root directly. Both end, since the links form a forest at any time.
-/

namespace ChessEval

namespace Unifier

/-- Climbing along the links from a slot ends, and it ends at the given slot. -/
inductive Climbs (parent : Array Nat) : Nat → Nat → Prop where
  | done {slot} (hroot : link parent slot = slot) : Climbs parent slot slot
  | step {slot root} (hlink : link parent slot ≠ slot) (hrest : Climbs parent (link parent slot) root) :
    Climbs parent slot root

/-- Linking the slots on the way up from a slot to a root directly ends, and it ends with the given links. -/
inductive Redirects (root : Nat) : Array Nat → Nat → Array Nat → Prop where
  | done {parent slot} (hlink : link parent slot = root) : Redirects root parent slot parent
  | step {parent slot final} (hlink : link parent slot ≠ root)
    (hrest : Redirects root (parent.setIfInBounds slot root) (link parent slot) final) :
    Redirects root parent slot final

namespace Forest

variable {parent : Array Nat} {slot : Nat}

lemma climbs (h : Forest parent) (slot : Nat) : Climbs parent slot (rootIn parent slot) := by
  induction slot using h.induction with
  | root slot hroot =>
    rw [h.rootIn_of_link_eq hroot]
    exact .done hroot
  | step slot hlink ih =>
    rw [h.rootIn_link] at ih
    exact .step hlink ih

lemma redirects (h : Forest parent) {rank : Nat → Nat}
    (hrank : ∀ slot, link parent slot ≠ slot → rank (link parent slot) < rank slot) {count : Nat}
    (hc : rank slot ≤ count) :
    Redirects (rootIn parent slot) parent slot (Unifier.shorten (rootIn parent slot) count parent slot) := by
  -- the links that change go up as well, so the rank that bounds the first loop bounds the second one too
  induction count generalizing parent slot with
  | zero =>
    have hroot : link parent slot = slot := by
      by_contra hlink
      have hlt := hrank slot hlink
      omega
    exact .done (hroot.trans (h.rootIn_of_link_eq hroot).symm)
  | succ count ih =>
    rw [Unifier.shorten]
    by_cases hlink : link parent slot = rootIn parent slot
    · rw [if_pos hlink]
      exact .done hlink
    · rw [if_neg hlink]
      have hs : link parent slot ≠ slot := fun hs => hlink (hs.trans (h.rootIn_of_link_eq hs).symm)
      have hle : rank (link parent slot) ≤ count := Nat.le_of_lt_succ ((hrank slot hs).trans_le hc)
      obtain ⟨hforest, hroots⟩ := h.redirect hs
      have hrest := ih hforest (h.rank_redirect hrank hs) hle
      rw [hroots, h.rootIn_link] at hrest
      exact .step hlink hrest

end Forest

lemma loops_of_find {u : Unifier} (h : Forest u.parent) (slot : Nat) : ∃ root parent,
    Climbs u.parent slot root ∧ Redirects root u.parent slot parent ∧
      (Unify.find slot).run u = (.ok root, { u with parent }) := by
  obtain ⟨rank, hrank, hbound⟩ := h.bounded_rank
  exact ⟨_, _, h.climbs slot, h.redirects hrank (hbound slot), rfl⟩

end Unifier

namespace SlotCalls

open List Unifier

/-- The calls by which roots are found, classes made more specific and classes merged. -/
inductive Call (count : Nat) where
  | find (slot : Fin count)
  | fix (slot : Fin count) (type : Ty)
  | union (left right : Fin count)
deriving DecidableEq, Repr

/-- The unifier after a call, whether the call succeeds or fails. -/
def Call.perform {count : Nat} (u : Unifier) : Call count → Unifier
  | .find slot => ((Unify.find slot).run u).2
  | .fix slot type => ((Unify.fix slot type).run u).2
  | .union left right => ((Unify.union left right).run u).2

variable {types : Array Ty} {count : Nat}

/-- The unifier after some calls, the latest of which comes first. -/
def run (types : Array Ty) : List (Call types.size) → Unifier
  | [] => .ofTypes types
  | call :: earlier => call.perform (run types earlier)

/-- There has been a call to merge the classes of the two slots, and it has succeeded. -/
def United (calls : List (Call types.size)) (s t : Fin types.size) : Prop :=
  ∃ earlier, .union s t :: earlier <:+ calls ∧ ((Unify.union s t).run (run types earlier)).1 = .ok ()

lemma united_cons {call : Call types.size} {calls : List (Call types.size)} {s t : Fin types.size} :
    United (call :: calls) s t ↔
      United calls s t ∨ call = .union s t ∧ ((Unify.union s t).run (run types calls)).1 = .ok () := by
  constructor
  · rintro ⟨earlier, hsuffix, hok⟩
    rcases suffix_cons_iff.mp hsuffix with heq | hsuffix
    · cases heq
      exact .inr ⟨rfl, hok⟩
    · exact .inl ⟨earlier, hsuffix, hok⟩
  · rintro (⟨earlier, hsuffix, hok⟩ | ⟨rfl, hok⟩)
    · exact ⟨earlier, hsuffix.trans (suffix_cons _ _), hok⟩
    · exact ⟨calls, suffix_rfl, hok⟩

/-- Moving a class of an equivalence into another one is the same as relating a slot of each. -/
lemma eqvGen_moved {α β : Type} [DecidableEq β] {R R' : α → α → Prop} {f g : α → β} {a b : α}
    (hf : ∀ s t, f s = f t ↔ Relation.EqvGen R s t) (hg : ∀ s, g s = if f s = f b then f a else f s)
    (hR : ∀ s t, R' s t ↔ R s t ∨ s = a ∧ t = b) (s t : α) : g s = g t ↔ Relation.EqvGen R' s t := by
  have hold : ∀ {s t}, f s = f t → Relation.EqvGen R' s t := fun h =>
    ((hf _ _).mp h).mono fun s t hst => (hR s t).mpr (.inl hst)
  have hmoved : ∀ {s}, f s = f b → Relation.EqvGen R' s a := fun h =>
    (hold h).trans _ _ _ ((Relation.EqvGen.rel a b ((hR a b).mpr (.inr ⟨rfl, rfl⟩))).symm _ _)
  constructor
  · intro h
    rw [hg, hg] at h
    split_ifs at h with hs ht ht
    · exact (hmoved hs).trans _ _ _ ((hmoved ht).symm _ _)
    · exact (hmoved hs).trans _ _ _ (hold h)
    · exact (hold h).trans _ _ _ ((hmoved ht).symm _ _)
    · exact hold h
  · refine fun h => Setoid.eqvGen_le (s := Setoid.ker g) (fun s t hst => ?_) h
    rw [Setoid.ker_def, hg, hg]
    rcases (hR s t).mp hst with hst | ⟨rfl, rfl⟩
    · rw [(hf s t).mpr (.rel s t hst)]
    · rw [if_pos rfl, ite_self]

/-- A unifier in step with the calls made so far: two slots have the same root exactly if successful calls connect
them. -/
structure Follows (calls : List (Call types.size)) (u : Unifier) : Prop where
  valid : u.Valid types.size
  root_eq_iff : ∀ s t : Fin types.size, u.root s = u.root t ↔ Relation.EqvGen (United calls) s t

section Performing

variable {u v : Unifier} {call : Call types.size} {calls : List (Call types.size)}

lemma valid_perform (hu : u.Valid types.size) (call : Call types.size) :
    (call.perform u).Valid types.size ∧ u.Refines (call.perform u) := by
  cases call with
  | find slot =>
    exact ⟨valid_compress hu slot, refines_congr (root_compress hu slot) (typeAt_compress hu slot)⟩
  | fix slot type =>
    obtain ⟨hv, hrefines, -⟩ := Unify.fix_cases hu slot.isLt (rfl : (Unify.fix slot type).run u = _)
    exact ⟨hv, hrefines⟩
  | union s t =>
    have hrun : (Unify.union s t).run u = _ := rfl
    exact ⟨(Unify.union_cases hu s.isLt t.isLt hrun).1, Unify.refines_union hu s.isLt t.isLt hrun⟩

lemma Follows.skip (h : Follows calls u) (hv : v.Valid types.size) (hroot : ∀ s, v.root s = u.root s)
    (hunited : ∀ s t, ¬(call = .union s t ∧ ((Unify.union s t).run (run types calls)).1 = .ok ())) :
    Follows (call :: calls) v := by
  refine ⟨hv, fun s t => ?_⟩
  have heq : United (call :: calls) = United calls := by
    funext s t
    rw [united_cons, or_iff_left (hunited s t)]
  rw [hroot, hroot, heq, h.root_eq_iff]

/-- After any calls, a further call keeps the unifier in step. -/
lemma Follows.perform (h : Follows calls (run types calls)) (call : Call types.size) :
    Follows (call :: calls) (call.perform (run types calls)) := by
  have hv := (valid_perform h.valid call).1
  cases call with
  | find slot => exact h.skip hv (root_compress h.valid slot) (by simp)
  | fix slot type =>
    exact h.skip hv (Unify.fix_cases h.valid slot.isLt (rfl : (Unify.fix slot type).run _ = _)).2.2 (by simp)
  | union left right =>
    rcases hrun : (Unify.union left right).run (run types calls) with ⟨result, v⟩
    rw [Call.perform, hrun] at hv ⊢
    have hcases := (Unify.union_cases h.valid left.isLt right.isLt hrun).2
    split_ifs at hcases
    · obtain ⟨rfl, hroot, -⟩ := hcases
      refine ⟨hv, eqvGen_moved h.root_eq_iff (fun s => hroot s) fun s t => ?_⟩
      rw [united_cons]
      refine or_congr_right ⟨?_, ?_⟩
      · rintro ⟨heq, -⟩
        cases heq
        exact ⟨rfl, rfl⟩
      · rintro ⟨rfl, rfl⟩
        exact ⟨rfl, by rw [hrun]⟩
    · obtain ⟨⟨expected, received, rfl⟩, hroot, -⟩ := hcases
      refine h.skip hv hroot ?_
      rintro s t ⟨heq, hok⟩
      cases heq
      rw [hrun] at hok
      cases hok

lemma follows_run (calls : List (Call types.size)) : Follows calls (run types calls) := by
  induction calls with
  | nil =>
    refine ⟨valid_ofTypes types, fun s t => ?_⟩
    rw [run, root_ofTypes, root_ofTypes, Fin.val_inj]
    constructor
    · rintro rfl
      exact .refl s
    · refine fun h => Setoid.eqvGen_le (s := ⊥) (fun s t hst => ?_) h
      obtain ⟨earlier, hsuffix, -⟩ := hst
      cases suffix_nil.mp hsuffix
  | cons call earlier ih => exact ih.perform call

lemma refines_run (later calls : List (Call types.size)) : (run types calls).Refines (run types (later ++ calls)) := by
  induction later with
  | nil => exact .refl _
  | cons call later ih => exact ih.trans (valid_perform (follows_run _).valid call).2

end Performing

/-- After any calls, successful or not, the links form a forest. Both loops that find a root end, two slots have the
same root exactly if successful calls connect them, and finding a root changes no root and no type. Later calls make no
type less specific. -/
theorem classes_by_history (types : Array Ty) (calls : List (Call types.size)) :
    (run types calls).Valid types.size ∧
      (∀ slot : Fin types.size, ∃ root parent,
        Climbs (run types calls).parent slot root ∧ Redirects root (run types calls).parent slot parent ∧
          (Unify.find slot).run (run types calls) = (.ok root, { run types calls with parent })) ∧
      (∀ s t : Fin types.size, ((Unify.find s).run (run types calls)).1 = ((Unify.find t).run (run types calls)).1 ↔
        Relation.EqvGen (United calls) s t) ∧
      (∀ slot other : Fin types.size,
        ((Unify.find other).run (run types (.find slot :: calls))).1 = ((Unify.find other).run (run types calls)).1 ∧
          ((Unify.typeOf other).run (run types (.find slot :: calls))).1 =
            ((Unify.typeOf other).run (run types calls)).1) ∧
      ∀ later slot, (run types calls).typeAt slot ≤ (run types (later ++ calls)).typeAt slot := by
  obtain ⟨hvalid, hroots⟩ := follows_run calls
  refine ⟨hvalid, fun slot => loops_of_find hvalid.forest slot, fun s t => ?_, fun slot other => ?_, ?_⟩
  · rw [Unify.run_find, Unify.run_find, Except.ok.injEq, hroots]
  · rw [Unify.run_find, Unify.run_find, Unify.run_typeOf, Unify.run_typeOf]
    exact ⟨congrArg Except.ok (root_compress hvalid slot other), congrArg Except.ok (typeAt_compress hvalid slot other)⟩
  · exact fun later slot => (refines_run later calls).typeAt_le slot

end SlotCalls

end ChessEval
