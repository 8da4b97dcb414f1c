import ChessEval.Proofs.InferredTypes
import ChessEval.Proofs.Settling

/-!
# The limit on sweeps

Whatever solving comes to, it comes to within the limit that inference sets itself. Constraints that can be met at all
can be met by types that are hardly deeper than those at the start, and the sweeps stay below these. A conflict shows
even earlier: a sweep brings arrays and elements in line where a type is known, so it makes further types known or
leaves nothing that a later sweep could trip over.
-/

namespace ChessEval

variable {s t type : Ty} {σ : Nat → Ty} {count limit slot a e : Nat} {changed : Bool} {u v : Unifier} {types : Array Ty}
  {constraints : List Constraint} {pairs : List (Nat × Nat)}

namespace Ty

/-- A type up to the given number of brackets. What is further inside is left open. -/
def prune : Ty → Nat → Ty
  | .array _, 0 => .emptyArray
  | .array element, limit + 1 => .array (element.prune limit)
  | t, _ => t

lemma depth_prune_le (t : Ty) (limit : Nat) : (t.prune limit).depth ≤ limit := by
  induction t generalizing limit with
  | array element ih =>
    cases limit with
    | zero => exact le_rfl
    | succ limit => exact Nat.succ_le_succ (ih limit)
  | _ => exact Nat.zero_le _

lemma le_prune (h : s ≤ t) (hdepth : s.depth ≤ limit) : s ≤ t.prune limit := by
  induction t generalizing s limit with
  | array element ih =>
    rcases le_array_iff.mp h with rfl | rfl | rfl | ⟨s, rfl, hs⟩
    case inr.inr.inr =>
      cases limit with
      | zero => cases hdepth
      | succ limit => exact ih hs (Nat.le_of_succ_le_succ hdepth)
    all_goals cases limit <;> rfl
  | _ => exact h

/-- A type of which nothing is left open. -/
def known? (t : Ty) : Option Ty :=
  if t.isResolved then some t else none

lemma known?_eq_none : t.known? = none ↔ t.isResolved = false := by
  simp [known?]

lemma known?_eq_some : t.known? = some s ↔ t.isResolved = true ∧ t = s := by
  simp [known?]

lemma known?_array (t : Ty) : (Ty.array t).known? = t.known?.map .array := by
  cases h : t.isResolved <;> simp [known?, isResolved, h]

lemma unifies_of_open (hs : s.isResolved = false) (ht : t.isResolved = false) : s.unifies t = true := by
  induction s generalizing t with
  | array s ih =>
    cases t with
    | array t => exact ih hs ht
    | _ => first | rfl | cases ht
  | genericArray | emptyArray | generic => cases t <;> first | rfl | cases ht
  | _ => cases hs

lemma merge_of_known?_eq (h : s.known? = t.known?) : s.unifies t = true ∧ (s.merge t).known? = s.known? := by
  cases hs : s.known? with
  | some known =>
    obtain ⟨-, rfl⟩ := known?_eq_some.mp hs
    obtain ⟨-, rfl⟩ := known?_eq_some.mp (h.symm.trans hs)
    exact ⟨unifies_of_le le_rfl, by rw [merge_eq_left le_rfl, hs]⟩
  | none =>
    have hunifies := unifies_of_open (known?_eq_none.mp hs) (known?_eq_none.mp (h.symm.trans hs))
    rcases unifies_iff.mp hunifies with hle | hle
    · exact ⟨hunifies, by rw [merge_eq_right hle, ← h, hs]⟩
    · exact ⟨hunifies, by rw [merge_eq_left hle, hs]⟩

lemma exists_element?_of_known?_eq (h : s.known? = t.known?.map .array) :
    ∃ known, s.element? = .ok known ∧ known.known? = t.known? := by
  cases ht : t.known? with
  | some known =>
    rw [ht] at h
    obtain ⟨-, rfl⟩ := known?_eq_some.mp h
    obtain ⟨-, rfl⟩ := known?_eq_some.mp ht
    exact ⟨t, rfl, ht⟩
  | none =>
    rw [ht] at h
    have hs := known?_eq_none.mp h
    cases s with
    | array s => exact ⟨s, rfl, known?_eq_none.mpr hs⟩
    | genericArray | emptyArray | generic => exact ⟨.generic, rfl, rfl⟩
    | _ => cases hs

end Ty

/-- How many of the given depths are below one. -/
def depthsBelow (depths : Finset Nat) (depth : Nat) : Nat :=
  (depths.filter (· < depth)).card

lemma depthsBelow_succ {depths : Finset Nat} {depth : Nat} (h : depth ∈ depths) :
    depthsBelow depths (depth + 1) = depthsBelow depths depth + 1 := by
  have hinsert : depths.filter (· < depth + 1) = insert depth (depths.filter (· < depth)) := by
    ext d
    simp only [Finset.mem_filter, Finset.mem_insert]
    grind
  rw [depthsBelow, hinsert, Finset.card_insert_of_notMem (by simp), depthsBelow]

namespace Unify

open Unifier

lemma length_elementPairs_le (constraints : List Constraint) :
    (elementPairs constraints).length ≤ constraints.length := by
  fun_induction elementPairs constraints with
  | case1 => exact le_rfl
  | case2 array e rest ih => exact Nat.succ_le_succ ih
  | case3 c rest hnot ih => exact Nat.le_succ_of_le ih

/-- A slot of a shallow solution keeps as many brackets as there are depths of elements below its own, so that arrays
and elements stay in line. -/
theorem exists_shallow_solution {deepest : Nat} (hσ : Solution types constraints σ)
    (hstart : ∀ slot, slot < types.size → (types.getD slot .generic).depth ≤ deepest)
    (hfixed : ∀ c ∈ constraints, c.depth ≤ deepest) :
    ∃ τ, Solution types constraints τ ∧ ∀ slot, (τ slot).depth ≤ deepest + constraints.length := by
  let depths := ((elementPairs constraints).map fun p => (σ p.2).depth).toFinset
  let τ slot := (σ slot).prune (deepest + depthsBelow depths (σ slot).depth)
  have hprune : ∀ {slot : Nat} {type : Ty}, type ≤ σ slot → type.depth ≤ deepest → type ≤ τ slot :=
    fun hle hdepth => Ty.le_prune hle (hdepth.trans (Nat.le_add_right _ _))
  refine ⟨τ, ⟨fun slot hslot => hprune (hσ.initial slot hslot) (hstart slot hslot), fun c hc => ?_⟩, fun slot => ?_⟩
  · have hmet := hσ.meets c hc
    cases c with
    | fixed slot type => exact hprune hmet (hfixed _ hc)
    | equal left right => exact congrArg (fun t : Ty => t.prune (deepest + depthsBelow depths t.depth)) hmet
    | element a e =>
      have harray : σ a = .array (σ e) := hmet
      have hbelow : depthsBelow depths (σ a).depth = depthsBelow depths (σ e).depth + 1 := by
        rw [harray]
        refine depthsBelow_succ (List.mem_toFinset.mpr (List.mem_map.mpr ⟨(a, e), ?_, rfl⟩))
        exact mem_elementPairs.mpr hc
      change (σ a).prune (deepest + depthsBelow depths (σ a).depth) = _
      rw [hbelow, harray]
      rfl
  · refine (Ty.depth_prune_le _ _).trans (Nat.add_le_add_left ?_ deepest)
    calc depthsBelow depths (σ slot).depth ≤ depths.card := Finset.card_filter_le _ _
      _ ≤ (elementPairs constraints).length := (List.toFinset_card_le _).trans (List.length_map _).le
      _ ≤ constraints.length := length_elementPairs_le constraints

/-- Constraints with a solution settle within the limit. -/
theorem settles_of_solution (hrange : ∀ c ∈ constraints, ∀ slot ∈ c.slots, slot < types.size)
    (hσ : Solution types constraints σ) :
    ∃ u, (solve (Analysis.sweepLimit types constraints) constraints).run (Unifier.ofTypes types) = (.ok true, u) := by
  let deepest := (types.toList.map Ty.depth ++ constraints.map Constraint.depth).foldl max 0
  have hstart : ∀ slot, slot < types.size → (types.getD slot .generic).depth ≤ deepest := by
    intro slot hslot
    refine le_foldl_max (.inr (List.mem_append_left _ (List.mem_map_of_mem ?_)))
    simp [Array.getD_eq_getD_getElem?, hslot]
  have hfixed : ∀ c ∈ constraints, c.depth ≤ deepest := fun c hc =>
    le_foldl_max (.inr (List.mem_append_right _ (List.mem_map_of_mem hc)))
  obtain ⟨τ, hτ, hdepth⟩ := exists_shallow_solution hσ hstart hfixed
  exact solve_of_solution hrange hτ (fun slot _ => hdepth slot) (Nat.lt_succ_self _)

/-- An array and its element are in line as far as their types are known. -/
def InLine (u : Unifier) (a e : Nat) : Prop :=
  (u.typeAt a).known? = (u.typeAt e).known?.map .array

/-- Two unifiers with the same known types. -/
def KnowsSame (u v : Unifier) : Prop :=
  ∀ slot, (v.typeAt slot).known? = (u.typeAt slot).known?

lemma InLine.congr (h : InLine u a e) (hsame : KnowsSame u v) : InLine v a e := by
  rw [InLine, hsame, hsame, h]

lemma exists_fix (hu : u.Valid count) (hs : slot < count) (h : (u.typeAt slot).known? = type.known?) :
    ∃ changed v, (fix slot type).run u = (.ok changed, v) ∧ v.Valid count ∧ KnowsSame u v := by
  obtain ⟨hunifies, hmerge⟩ := Ty.merge_of_known?_eq h
  refine ⟨_, u.narrow slot type, by rw [run_fix, if_pos hunifies], valid_narrow hu, fun other => ?_⟩
  rw [typeAt_narrow hu hs]
  split_ifs with hroot
  · rw [hmerge, typeAt_eq_of_root_eq hroot]
  · rfl

lemma exists_element (hu : u.Valid count) (ha : a < count) (he : e < count) (h : InLine u a e) :
    ∃ changed v, (element a e).run u = (.ok changed, v) ∧ v.Valid count ∧ KnowsSame u v := by
  obtain ⟨known, hknown, hsame⟩ := Ty.exists_element?_of_known?_eq h
  have htype : KnowsSame u ((u.compress a).compress e) := fun slot => by
    rw [typeAt_compress (valid_compress hu a), typeAt_compress hu]
  obtain ⟨arrayChanged, x, hfix, hx, hux⟩ := exists_fix (valid_compress (valid_compress hu a) e) ha
    ((htype a).trans (h.trans (Ty.known?_array _).symm))
  obtain ⟨elementChanged, y, hfix', hy, hxy⟩ := exists_fix hx he ((hux e).trans ((htype e).trans hsame.symm))
  exact ⟨_, y, (run_element_ok hu).mpr ⟨known, arrayChanged, x, elementChanged, hfix, hknown, hfix', rfl⟩, hy,
    fun slot => (hxy slot).trans ((hux slot).trans (htype slot))⟩

lemma exists_sweep (hpairs : ∀ p ∈ pairs, p.1 < count ∧ p.2 < count) (hu : u.Valid count)
    (h : ∀ p ∈ pairs, InLine u p.1 p.2) :
    ∃ changed v, (sweep pairs).run u = (.ok changed, v) ∧ v.Valid count ∧ KnowsSame u v := by
  induction pairs generalizing u with
  | nil => exact ⟨false, u, rfl, hu, fun _ => rfl⟩
  | cons p rest ih =>
    obtain ⟨hp, hrest⟩ := List.forall_mem_cons.mp hpairs
    obtain ⟨hline, hlines⟩ := List.forall_mem_cons.mp h
    obtain ⟨first, w, hfirst, hw, huw⟩ := exists_element hu hp.1 hp.2 hline
    obtain ⟨others, v, hothers, hv, hwv⟩ := ih hrest hw fun q hq => (hlines q hq).congr huw
    exact ⟨first || others, v, run_bind_ok.mpr ⟨first, w, hfirst, run_bind_ok.mpr ⟨others, v, hothers, rfl⟩⟩, hv,
      fun slot => (hwv slot).trans (huw slot)⟩

/-- Where all known types are in line, no sweep finds a conflict. -/
lemma exists_settle (hpairs : ∀ p ∈ pairs, p.1 < count ∧ p.2 < count) (limit : Nat) (hu : u.Valid count)
    (h : ∀ p ∈ pairs, InLine u p.1 p.2) : ∃ settled v, (settle pairs limit).run u = (.ok settled, v) := by
  induction limit generalizing u with
  | zero => exact ⟨false, u, rfl⟩
  | succ limit ih =>
    obtain ⟨changed, w, hsweep, hw, huw⟩ := exists_sweep hpairs hu h
    cases changed with
    | true =>
      obtain ⟨settled, v, hv⟩ := ih hw fun p hp => (h p hp).congr huw
      exact ⟨settled, v, run_bind_ok.mpr ⟨true, w, hsweep, hv⟩⟩
    | false => exact ⟨true, w, run_bind_ok.mpr ⟨false, w, hsweep, rfl⟩⟩

lemma eq_array_of_element (hu : u.Valid count) (ha : a < count) (he : e < count)
    (h : (element a e).run u = (.ok changed, v))
    (hknown : (u.typeAt a).isResolved = true ∨ (u.typeAt e).isResolved = true) :
    v.typeAt a = .array (v.typeAt e) := by
  have huv : u.Refines v := (h ▸ entails_element hu ha he).2.1
  obtain ⟨known, _, x, _, hfix, helement, hfix', -⟩ := (run_element_ok hu).mp h
  have hw := valid_compress (valid_compress hu a) e
  obtain ⟨hx, -⟩ := hfix ▸ entails_fix hw ha _
  have hxv : x.Refines v := (hfix' ▸ entails_fix hx he known).2.1
  have harray : .array (u.typeAt e) ≤ v.typeAt a := (le_typeAt_of_fix hw ha hfix).trans (hxv.typeAt_le a)
  rcases hknown with hknown | hknown
  · rw [Ty.eq_of_isResolved_of_le hknown (huv.typeAt_le a)] at harray ⊢
    obtain ⟨s, hs, -⟩ := Ty.array_le_iff.mp harray
    rw [hs] at helement hknown ⊢
    cases helement
    have hresolved : known.isResolved = true := hknown
    rw [Ty.eq_of_isResolved_of_le hresolved (le_typeAt_of_fix hx he hfix')]
  · rw [Ty.eq_of_isResolved_of_le hknown (huv.typeAt_le e)]
    exact Ty.eq_of_isResolved_of_le hknown harray

/-- A sweep brings an array and its element in line if one of their types is known. -/
lemma eq_array_of_sweep (hu : u.Valid count) (hpairs : ∀ p ∈ pairs, p.1 < count ∧ p.2 < count)
    (h : (sweep pairs).run u = (.ok changed, v)) : ∀ p ∈ pairs,
      (u.typeAt p.1).isResolved = true ∨ (u.typeAt p.2).isResolved = true → v.typeAt p.1 = .array (v.typeAt p.2) := by
  induction pairs generalizing u changed with
  | nil => simp
  | cons p rest ih =>
    obtain ⟨hp, hrest⟩ := List.forall_mem_cons.mp hpairs
    obtain ⟨first, w, hfirst, h⟩ := run_bind_ok.mp h
    obtain ⟨others, x, hothers, h⟩ := run_bind_ok.mp h
    cases h
    obtain ⟨hw, huw, -⟩ := hfirst ▸ entails_element hu hp.1 hp.2
    have hwv : w.Refines v := (hothers ▸ entails_sweep hw hrest).2.1
    refine List.forall_mem_cons.mpr ⟨fun hknown => ?_, fun q hq hknown => ?_⟩
    · have hline := eq_array_of_element hu hp.1 hp.2 hfirst hknown
      have he : (w.typeAt p.2).isResolved = true := by
        rcases hknown with hknown | hknown
        · have harray := Ty.isResolved_mono (huw.typeAt_le p.1) hknown
          rwa [hline] at harray
        · exact Ty.isResolved_mono (huw.typeAt_le p.2) hknown
      rw [Ty.eq_of_isResolved_of_le he (hwv.typeAt_le p.2),
        Ty.eq_of_isResolved_of_le (hline ▸ he) (hwv.typeAt_le p.1), hline]
    · exact ih hw hrest hothers q hq (hknown.imp (Ty.isResolved_mono (huw.typeAt_le _))
        (Ty.isResolved_mono (huw.typeAt_le _)))

/-- The slots whose types are known. -/
def knownSlots (count : Nat) (u : Unifier) : Finset Nat :=
  (Finset.range count).filter fun slot => (u.typeAt slot).isResolved = true

/-- After a sweep all known types are in line, or there are more of them than before. -/
lemma card_knownSlots_lt (hu : u.Valid count) (hpairs : ∀ p ∈ pairs, p.1 < count ∧ p.2 < count)
    (h : (sweep pairs).run u = (.ok changed, v)) (hlines : ¬∀ p ∈ pairs, InLine v p.1 p.2) :
    (knownSlots count u).card < (knownSlots count v).card := by
  have huv : u.Refines v := (h ▸ entails_sweep hu hpairs).2.1
  have hsub : knownSlots count u ⊆ knownSlots count v :=
    Finset.monotone_filter_right _ fun slot _ => Ty.isResolved_mono (huv.typeAt_le slot)
  push Not at hlines
  obtain ⟨p, hp, hline⟩ := hlines
  have hunknown := mt (eq_array_of_sweep hu hpairs h p hp) fun heq => hline (by rw [InLine, heq, Ty.known?_array])
  obtain ⟨ha, he⟩ := not_or.mp hunknown
  obtain ⟨slot, hslot, hnew, hold⟩ : ∃ slot < count, (v.typeAt slot).isResolved = true ∧
      ¬(u.typeAt slot).isResolved = true := by
    by_contra hnone
    push Not at hnone
    have hopen : ∀ slot < count, ¬(u.typeAt slot).isResolved = true → (v.typeAt slot).known? = none :=
      fun slot hslot hold => Ty.known?_eq_none.mpr (Bool.not_eq_true _ ▸ mt (hnone slot hslot) hold)
    exact hline (by rw [InLine, hopen _ (hpairs p hp).1 ha, hopen _ (hpairs p hp).2 he]; rfl)
  apply Finset.card_lt_card
  rw [Finset.ssubset_iff_of_subset hsub]
  exact ⟨slot, by simp [knownSlots, hslot, hnew], by simp [knownSlots, hold]⟩

lemma settle_of_error (hpairs : ∀ p ∈ pairs, p.1 < count ∧ p.2 < count) (hu : u.Valid count) {issue : Issue}
    (h : (settle pairs limit).run u = (.error issue, v)) {enough : Nat}
    (henough : count < (knownSlots count u).card + enough) : (settle pairs enough).run u = (.error issue, v) := by
  induction limit generalizing u enough with
  | zero => cases h
  | succ limit ih =>
    have hcard : (knownSlots count u).card ≤ count := (Finset.card_filter_le _ _).trans (Finset.card_range _).le
    obtain ⟨enough, rfl⟩ : ∃ k, enough = k + 1 := ⟨enough - 1, by omega⟩
    rw [settle, run_bind] at h ⊢
    rcases hsweep : (sweep pairs).run u with ⟨issue | _ | _, w⟩ <;> rw [hsweep] at h
    · exact h
    · cases h
    · have hw : w.Valid count := (hsweep ▸ entails_sweep hu hpairs).1
      by_cases hlines : ∀ p ∈ pairs, InLine w p.1 p.2
      · obtain ⟨settled, x, hx⟩ := exists_settle hpairs limit hw hlines
        cases hx.symm.trans h
      · have hlt := card_knownSlots_lt hu hpairs hsweep hlines
        exact ih hw h (by omega)

/-- A conflict shows within one sweep more than there are slots. -/
theorem solve_of_error (hrange : ∀ c ∈ constraints, ∀ slot ∈ c.slots, slot < types.size) {issue : Issue}
    (h : (solve limit constraints).run (Unifier.ofTypes types) = (.error issue, u)) {enough : Nat}
    (henough : types.size < enough) : (solve enough constraints).run (Unifier.ofTypes types) = (.error issue, u) := by
  rw [solve, run_bind] at h ⊢
  rcases happly : (applyAll constraints).run (Unifier.ofTypes types) with ⟨issue | ⟨⟩, v⟩ <;> rw [happly] at h
  · exact h
  · have hv : v.Valid types.size := (happly ▸ entails_applyAll (valid_ofTypes types) hrange).1
    exact settle_of_error (elementPairs_lt hrange) hv h (by omega)

/-- Whatever the solver comes to, it comes to it within the limit. -/
theorem solve_sweepLimit (hrange : ∀ c ∈ constraints, ∀ slot ∈ c.slots, slot < types.size) {result : Except Issue Bool}
    (h : (solve limit constraints).run (Unifier.ofTypes types) = (result, u)) (hends : result ≠ .ok false) :
    (solve (Analysis.sweepLimit types constraints) constraints).run (Unifier.ofTypes types) = (result, u) := by
  rcases result with issue | _ | _
  · exact solve_of_error hrange h (Nat.lt_succ_of_le (Nat.le_mul_of_pos_right _ (Nat.succ_pos _)))
  · exact absurd rfl hends
  · obtain ⟨v, hv⟩ := settles_of_solution hrange (solution_of_solve hrange h)
    rw [hv]
    exact (solve_mono (Nat.le_max_right limit _) hv).symm.trans (solve_mono (Nat.le_max_left _ _) h)

end Unify

/-- Inference gives nothing only if no number of sweeps is enough. -/
theorem Analysis.infer_eq_some_iff {a : Analysis} {p : Program} {ds : Diagnostics} {result : Analysis × Diagnostics}
    (hwf : p.WellFormed) : a.infer p ds = some result ↔ ∃ limit, a.inferWithin limit p ds = some result := by
  refine ⟨fun h => ⟨_, h⟩, fun ⟨limit, h⟩ => ?_⟩
  unfold infer inferWithin inferenceLimit
  unfold inferWithin at h
  rcases hrun : (Unify.solve limit (a.collect p (a.nodeCount p)).constraints).run
    (.ofTypes (a.initialTypes (a.nodeCount p) (a.collect p (a.nodeCount p)).nextSlot)) with ⟨result, u⟩
  have hends : result ≠ .ok false := by
    rintro rfl
    simp only [hrun] at h
    cases h
  simp only [hrun] at h
  simp only [Unify.solve_sweepLimit (a.slots_lt_size hwf) hrun hends]
  exact h

end ChessEval
