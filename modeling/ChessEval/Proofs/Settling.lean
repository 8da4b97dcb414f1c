import ChessEval.Inference.Program
import ChessEval.Proofs.Solving
import Mathlib.Algebra.Order.BigOperators.Group.Finset

/-!
# Settling

A sweep that changes something makes some class more specific, and no class says more than a solution
does. So if there is a solution whose types have a bounded depth, a number of sweeps that depends on the
depth is enough.
-/

namespace ChessEval

variable {σ : Nat → Ty} {depth limit : Nat} {pairs : List (Nat × Nat)}

lemma le_foldl_max {depths : List Nat} {start depth : Nat} (h : depth ≤ start ∨ depth ∈ depths) :
    depth ≤ depths.foldl max start := by
  induction depths generalizing start with
  | nil => simpa using h
  | cons d rest ih =>
    refine ih ?_
    rcases h with h | h
    · exact .inl (h.trans (Nat.le_max_left _ _))
    · rcases List.mem_cons.mp h with rfl | h
      · exact .inl (Nat.le_max_right _ _)
      · exact .inr h

namespace Ty

def weight : Ty → Nat
  | .generic => 0
  | .emptyArray => 2
  | .array element => element.weight + 3
  | _ => 1

lemma weight_le_depth (t : Ty) : t.weight ≤ 3 * t.depth + 2 := by
  induction t with
  | array element ih =>
    simp only [weight, depth]
    omega
  | _ => simp [weight, depth]

lemma weight_strictMono : StrictMono weight := by
  intro s t h
  have hne := h.ne
  induction s generalizing t with
  | array s ih =>
    obtain ⟨t, rfl, hst⟩ := array_le_iff.mp h.le
    have hlt : s < t := lt_of_le_of_ne hst fun heq => hne (heq ▸ rfl)
    have := ih hlt hlt.ne
    simp only [weight]
    omega
  | generic => cases t <;> simp_all [weight]
  | _ =>
    rcases le_cases h.le with rfl | h | ⟨h, rfl | ⟨v, rfl⟩⟩ | ⟨h, v, rfl⟩ | ⟨u, v, h, -⟩
    case inl => exact absurd rfl hne
    all_goals first | cases h; done | exact absurd rfl hne | simp [weight]

end Ty

namespace Unifier

variable {count : Nat} {u v : Unifier}

/-- How much a unifier knows about its slots. -/
def weight (count : Nat) (u : Unifier) : Nat :=
  ∑ slot ∈ Finset.range count, (u.typeAt slot).weight

lemma weight_mono (h : u.Refines v) : u.weight count ≤ v.weight count :=
  Finset.sum_le_sum fun slot _ => Ty.weight_strictMono.monotone (h.typeAt_le slot)

lemma weight_lt (h : u.Refines v) {slot : Nat} (hslot : slot < count)
    (hne : u.typeAt slot ≠ v.typeAt slot) : u.weight count < v.weight count := by
  refine Finset.sum_lt_sum (fun other _ => Ty.weight_strictMono.monotone (h.typeAt_le other)) ?_
  exact ⟨slot, Finset.mem_range.mpr hslot, Ty.weight_strictMono (lt_of_le_of_ne (h.typeAt_le slot) hne)⟩

lemma weight_le_of_admits (h : u.Admits count σ) (hdepth : ∀ slot, slot < count → (σ slot).depth ≤ depth) :
    u.weight count ≤ count * (3 * depth + 2) := by
  have hslot : ∀ slot ∈ Finset.range count, (u.typeAt slot).weight ≤ 3 * depth + 2 := by
    intro slot hmem
    have hlt := Finset.mem_range.mp hmem
    have hle : (u.typeAt slot).weight ≤ (σ slot).weight :=
      Ty.weight_strictMono.monotone (h.typeAt_le slot hlt)
    have hbound := (σ slot).weight_le_depth
    have := hdepth slot hlt
    omega
  calc u.weight count ≤ ∑ _slot ∈ Finset.range count, (3 * depth + 2) := Finset.sum_le_sum hslot
    _ = count * (3 * depth + 2) := by simp

end Unifier

namespace Unify

open Unifier

variable {count : Nat} {u v : Unifier}

lemma weight_lt_of_fix (hu : u.Valid count) {slot : Nat} (hs : slot < count) {type : Ty}
    (h : (fix slot type).run u = (.ok true, v)) : u.weight count < v.weight count := by
  have hrefines : u.Refines v := (h ▸ entails_fix hu hs type).2.1
  obtain ⟨-, rfl, hchanged⟩ := run_fix_ok h
  apply weight_lt hrefines hs
  rw [typeAt_narrow_self hu hs]
  intro heq
  simp [← heq] at hchanged

lemma weight_lt_of_element (hu : u.Valid count) {a e : Nat} (ha : a < count) (he : e < count)
    (h : (element a e).run u = (.ok true, v)) : u.weight count < v.weight count := by
  obtain ⟨known, arrayChanged, x, elementChanged, hfix, -, hfix', hchanged⟩ := (run_element_ok hu).mp h
  have hw := valid_compress (valid_compress hu a) e
  have hsame : u.weight count = ((u.compress a).compress e).weight count := by
    simp only [weight, typeAt_compress (valid_compress hu a), typeAt_compress hu]
  obtain ⟨hx, hwx, -⟩ := hfix ▸ entails_fix hw ha _
  obtain ⟨-, hxv, -⟩ := hfix' ▸ entails_fix hx he known
  rcases (Bool.or_eq_true _ _).mp hchanged.symm with rfl | rfl
  · exact hsame ▸ (weight_lt_of_fix hw ha hfix).trans_le (weight_mono hxv)
  · exact hsame ▸ (weight_mono hwx).trans_lt (weight_lt_of_fix hx he hfix')

lemma weight_lt_of_sweep (hu : u.Valid count) (hpairs : ∀ p ∈ pairs, p.1 < count ∧ p.2 < count)
    (h : (sweep pairs).run u = (.ok true, v)) : u.weight count < v.weight count := by
  induction pairs generalizing u with
  | nil => cases h
  | cons p rest ih =>
    have hp := hpairs p (by simp)
    have hrest : ∀ q ∈ rest, q.1 < count ∧ q.2 < count := fun q hq => hpairs q (by simp [hq])
    obtain ⟨first, w, hfirst, h⟩ := run_bind_ok.mp h
    obtain ⟨others, x, hothers, h⟩ := run_bind_ok.mp h
    have hw := hfirst ▸ entails_element hu hp.1 hp.2
    have hx := hothers ▸ entails_sweep hw.1 hrest
    have huw : u.weight count ≤ w.weight count := weight_mono hw.2.1
    have hwx : w.weight count ≤ x.weight count := weight_mono hx.2.1
    injection h with hok hv
    have hor : (first || others) = true := by injection hok
    subst hv
    rcases (Bool.or_eq_true _ _).mp hor with rfl | rfl
    · have := weight_lt_of_element hu hp.1 hp.2 hfirst
      omega
    · have := ih hw.1 hrest hothers
      omega

lemma settle_of_admits (hpairs : ∀ p ∈ pairs, p.1 < count ∧ p.2 < count) (hmeets : ∀ p ∈ pairs, σ p.1 = .array (σ p.2))
    (hdepth : ∀ slot, slot < count → (σ slot).depth ≤ depth) (hu : u.Valid count) (hσ : u.Admits count σ)
    (hlimit : count * (3 * depth + 2) < u.weight count + limit) : ∃ v, (settle pairs limit).run u = (.ok true, v) := by
  induction limit generalizing u with
  | zero =>
    have := weight_le_of_admits hσ hdepth
    omega
  | succ limit ih =>
    have hentails := entails_sweep hu hpairs
    rcases hsweep : (sweep pairs).run u with ⟨issue | changed, v⟩
    · rw [hsweep] at hentails
      exact absurd hmeets (hentails.2 σ hσ)
    · rw [hsweep] at hentails
      obtain ⟨hv, -, hadmits⟩ := hentails
      cases changed with
      | true =>
        have hlt := weight_lt_of_sweep hu hpairs hsweep
        obtain ⟨w, hw⟩ := ih hv (hadmits σ hσ hmeets) (by omega)
        exact ⟨w, run_bind_ok.mpr ⟨true, v, hsweep, hw⟩⟩
      | false => exact ⟨v, run_bind_ok.mpr ⟨false, v, hsweep, rfl⟩⟩

/-- Constraints with a solution of bounded depth settle within a bounded number of sweeps. -/
theorem solve_of_solution {types : Array Ty} {constraints : List Constraint}
    (hrange : ∀ c ∈ constraints, ∀ slot ∈ c.slots, slot < types.size) (hσ : Solution types constraints σ)
    (hdepth : ∀ slot, slot < types.size → (σ slot).depth ≤ depth) (hlimit : types.size * (3 * depth + 2) < limit) :
    ∃ u, (solve limit constraints).run (Unifier.ofTypes types) = (.ok true, u) := by
  have hentails := entails_applyAll (valid_ofTypes types) hrange
  rcases happly : (applyAll constraints).run (Unifier.ofTypes types) with ⟨issue | ⟨⟩, v⟩
  · rw [happly] at hentails
    exact absurd hσ.meets (hentails.2 σ (admits_ofTypes hσ))
  · rw [happly] at hentails
    obtain ⟨hv, -, hadmits⟩ := hentails
    have hroom : types.size * (3 * depth + 2) < v.weight types.size + limit := by omega
    obtain ⟨u, hu⟩ := settle_of_admits (elementPairs_lt hrange)
      (fun p hp => hσ.meets _ (mem_elementPairs.mp hp)) hdepth hv
      (hadmits σ (admits_ofTypes hσ) hσ.meets) hroom
    exact ⟨u, run_bind_ok.mpr ⟨(), v, happly, hu⟩⟩

lemma settle_mono {limit' : Nat} (hle : limit ≤ limit') (h : (settle pairs limit).run u = (.ok true, v)) :
    (settle pairs limit').run u = (.ok true, v) := by
  induction limit generalizing limit' u with
  | zero => cases h
  | succ limit ih =>
    obtain ⟨limit', rfl⟩ : ∃ k, limit' = k + 1 := ⟨limit' - 1, by omega⟩
    obtain ⟨changed, w, hsweep, h⟩ := run_bind_ok.mp h
    refine run_bind_ok.mpr ⟨changed, w, hsweep, ?_⟩
    cases changed with
    | true => exact ih (by omega) h
    | false => exact h

lemma solve_mono {constraints : List Constraint} {limit' : Nat} (hle : limit ≤ limit')
    (h : (solve limit constraints).run u = (.ok true, v)) : (solve limit' constraints).run u = (.ok true, v) := by
  obtain ⟨_, w, happly, hsettle⟩ := run_bind_ok.mp h
  exact run_bind_ok.mpr ⟨(), w, happly, settle_mono hle hsettle⟩

/-- A sweep that changes something raises the type of a class, and no type beyond an admitted
assignment that has all arrays and elements in line. -/
lemma raises_of_sweep (hu : u.Valid count) (hpairs : ∀ p ∈ pairs, p.1 < count ∧ p.2 < count) (hσ : u.Admits count σ)
    (hmeets : ∀ p ∈ pairs, σ p.1 = .array (σ p.2)) (h : (sweep pairs).run u = (.ok true, v)) :
    (∃ slot, slot < count ∧ u.typeAt slot < v.typeAt slot) ∧
      ∀ slot, slot < count → u.typeAt slot ≤ v.typeAt slot ∧ v.typeAt slot ≤ σ slot := by
  obtain ⟨-, hrefines, hadmits⟩ := h ▸ entails_sweep hu hpairs
  have hweight : u.weight count < v.weight count := weight_lt_of_sweep hu hpairs h
  constructor
  · obtain ⟨slot, hslot, hlt⟩ := Finset.exists_lt_of_sum_lt hweight
    refine ⟨slot, Finset.mem_range.mp hslot, lt_of_le_of_ne (hrefines.typeAt_le slot) fun heq => ?_⟩
    exact absurd (congrArg Ty.weight heq) hlt.ne
  · intro slot hslot
    exact ⟨hrefines.typeAt_le slot, (hadmits σ hσ hmeets).typeAt_le slot hslot⟩

/-- Constraints with a solution are solved, in whatever order they are applied: there is a number of sweeps
after which all orders have settled. For a sweep that is not the last one makes some class more specific,
while all classes stay below the solution. -/
theorem solvable_settles (types : Array Ty) (constraints : List Constraint) (σ : Nat → Ty)
    (hrange : ∀ c ∈ constraints, ∀ slot ∈ c.slots, slot < types.size)
    (hσ : Solution types constraints σ) :
    (∃ bound, ∀ reordered, reordered.Perm constraints → ∃ u, ∀ limit, bound ≤ limit →
      (solve limit reordered).run (Unifier.ofTypes types) = (.ok true, u)) ∧
    ∀ reordered, reordered.Perm constraints → ∀ sweeps u v,
      (solve sweeps reordered).run (Unifier.ofTypes types) = (.ok false, u) →
      (sweep (elementPairs reordered)).run u = (.ok true, v) →
      (∃ slot, slot < types.size ∧ u.typeAt slot < v.typeAt slot) ∧
        ∀ slot, slot < types.size → u.typeAt slot ≤ v.typeAt slot ∧ v.typeAt slot ≤ σ slot := by
  -- a solution of the constraints in one order is a solution of them in all orders
  have hreorder : ∀ reordered : List Constraint, reordered.Perm constraints →
      (∀ c ∈ reordered, ∀ slot ∈ c.slots, slot < types.size) ∧ Solution types reordered σ := by
    intro reordered hperm
    exact ⟨fun c hc => hrange c (hperm.mem_iff.mp hc),
      hσ.initial, fun c hc => hσ.meets c (hperm.mem_iff.mp hc)⟩
  constructor
  · let depth := (Finset.range types.size).sup fun slot => (σ slot).depth
    have hdepth : ∀ slot, slot < types.size → (σ slot).depth ≤ depth := fun slot hslot =>
      Finset.le_sup (f := fun slot => (σ slot).depth) (Finset.mem_range.mpr hslot)
    refine ⟨types.size * (3 * depth + 2) + 1, fun reordered hperm => ?_⟩
    obtain ⟨hrange, hσ⟩ := hreorder reordered hperm
    obtain ⟨u, hu⟩ := solve_of_solution hrange hσ hdepth (Nat.lt_succ_self _)
    exact ⟨u, fun limit hlimit => solve_mono hlimit hu⟩
  · intro reordered hperm sweeps u v hsolve hsweep
    obtain ⟨hrange, hσ⟩ := hreorder reordered hperm
    obtain ⟨hu, -, hadmits⟩ := hsolve ▸ entails_solve hrange sweeps
    exact raises_of_sweep hu (elementPairs_lt hrange) (hadmits σ (admits_ofTypes hσ) hσ.meets)
      (fun p hp => hσ.meets _ (mem_elementPairs.mp hp)) hsweep

theorem solvable_settles_nested :
    (∀ c ∈ [Constraint.element 2 0, .element 0 1, .equal 3 1, .fixed 3 .num],
        ∀ slot ∈ c.slots, slot < 4) ∧
      Solution #[.emptyArray, .generic, .array .genericArray, .generic]
        [.element 2 0, .element 0 1, .equal 3 1, .fixed 3 .num]
        (fun slot => [.array .num, .num, .array (.array .num), .num].getD slot .generic) ∧
      ∃ bound, ∀ reordered : List Constraint,
        reordered.Perm [.element 2 0, .element 0 1, .equal 3 1, .fixed 3 .num] →
        ∃ u, ∀ limit, bound ≤ limit → (solve limit reordered).run (Unifier.ofTypes
          #[.emptyArray, .generic, .array .genericArray, .generic]) = (.ok true, u) := by
  have hrange : ∀ c ∈ [Constraint.element 2 0, .element 0 1, .equal 3 1, .fixed 3 .num],
      ∀ slot ∈ c.slots, slot < 4 := by decide
  have hσ : Solution #[.emptyArray, .generic, .array .genericArray, .generic]
      [.element 2 0, .element 0 1, .equal 3 1, .fixed 3 .num]
      fun slot => [.array .num, .num, .array (.array .num), .num].getD slot .generic := by
    refine ⟨by decide, fun c hc => ?_⟩
    simp only [List.mem_cons, List.not_mem_nil, or_false] at hc
    rcases hc with rfl | rfl | rfl | rfl <;> rfl
  exact ⟨hrange, hσ, (solvable_settles _ _ _ hrange hσ).1⟩

end Unify

end ChessEval
