import ChessEval.Compilation
import ChessEval.Proofs.ProgramChecking
import ChessEval.Proofs.ProgramCollecting

/-!
# Types after inference

When the solver settles on the constraints of a typed program, the types written back to its nodes are the least
solution: each node has at least the type that the analysis found, and what every node and statement says about
types holds.
-/

namespace ChessEval

variable {ds : Diagnostics} {nodes slots id limit : Nat} {a : Analysis} {p : Program} {u : Unifier}

namespace Diagnostics

lemma errors_add {fault : Fault} (hfault : fault.issue.isWarning = false) (ds : Diagnostics)
    (place : Option String) : (ds.add fault place).errors = ds.errors ++ [⟨fault, place⟩] := by
  simp [add, hfault]

/-- Filing an error for every item that is not good leaves no errors only if all items are good. -/
lemma good_of_errors_foldl {α : Type} {good : α → Bool} {fault : α → Fault} {place : α → Option String}
    (hfault : ∀ x, (fault x).issue.isWarning = false) {items : List α}
    (h : (items.foldl (fun ds x => if good x then ds else ds.add (fault x) (place x)) ds).errors = []) :
    ds.errors = [] ∧ ∀ x ∈ items, good x = true := by
  induction items generalizing ds with
  | nil => exact ⟨h, by simp⟩
  | cons x rest ih =>
    obtain ⟨hds, hrest⟩ := ih h
    dsimp only at hds
    by_cases hx : good x = true
    · rw [if_pos hx] at hds
      exact ⟨hds, List.forall_mem_cons.mpr ⟨hx, hrest⟩⟩
    · rw [if_neg hx, errors_add (hfault x)] at hds
      simp at hds

end Diagnostics

namespace Analysis

lemma size_initialTypes (a : Analysis) (h : nodes ≤ slots) : (a.initialTypes nodes slots).size = slots := by
  simp only [initialTypes, List.size_toArray, List.length_append, List.length_map, List.length_range,
    List.length_replicate]
  omega

lemma getD_initialTypes (a : Analysis) (h : id < nodes) :
    (a.initialTypes nodes slots).getD id .generic = a.types.typeOf id := by
  simp [initialTypes, Array.getD_eq_getD_getElem?, List.getElem?_append, h]

lemma getD_initialTypes_of_le (a : Analysis) {slot : Nat} (h : nodes ≤ slot) :
    (a.initialTypes nodes slots).getD slot .generic = .generic := by
  simp only [initialTypes, Array.getD_eq_getD_getElem?, List.getElem?_toArray]
  rw [List.getElem?_append_right (by simpa using h), List.getElem?_replicate]
  split <;> rfl

lemma get?_writeBack (u : Unifier) (nodes : Nat) (types : TypeTable) (id : Nat) :
    (writeBack u nodes types).get? id =
      if id < nodes ∧ (types.get? id).isSome = true then some (u.typeAt id) else types.get? id := by
  induction nodes generalizing id with
  | zero => simp [writeBack]
  | succ nodes ih =>
    have hstep : writeBack u (nodes + 1) types =
        if ((writeBack u nodes types).get? nodes).isSome then
          (writeBack u nodes types).resolve nodes (u.typeAt nodes)
        else writeBack u nodes types := by
      unfold writeBack
      rw [List.range_succ, List.foldl_append]
      rfl
    have hlast : (writeBack u nodes types).get? nodes = types.get? nodes := by
      rw [ih, if_neg (by simp)]
    rw [hstep, hlast]
    by_cases hsome : (types.get? nodes).isSome = true
    · rw [if_pos hsome, TypeTable.get?_resolve, ih]
      by_cases hid : id = nodes
      · subst hid
        rw [if_pos rfl, if_pos ⟨Nat.lt_succ_self id, hsome⟩]
      · simp only [if_neg hid, Nat.lt_succ_iff_lt_or_eq, or_iff_left hid]
    · rw [if_neg hsome, ih]
      by_cases hid : id = nodes
      · subst hid
        simp [hsome]
      · simp only [Nat.lt_succ_iff_lt_or_eq, or_iff_left hid]

def Settles (limit : Nat) (a : Analysis) (p : Program) (u : Unifier) : Prop :=
  (Unify.solve limit (a.collect p (a.nodeCount p)).constraints).run
    (.ofTypes (a.initialTypes (a.nodeCount p) (a.collect p (a.nodeCount p)).nextSlot)) = (.ok true, u)

/-- What is known about a program once its types have been written back. -/
def withTypes (a : Analysis) (p : Program) (u : Unifier) : Analysis :=
  { a with types := writeBack u (a.nodeCount p) a.types }

lemma isResolved_typeAt (h : ((a.withTypes p u).types.typeOf id).isResolved = true) :
    (u.typeAt id).isResolved = true := by
  rw [withTypes, TypeTable.typeOf, get?_writeBack] at h
  split at h
  · exact h
  · rename_i hnot
    exfalso
    have hnone : a.types.get? id = none := by
      by_contra hsome
      refine hnot ⟨?_, Option.isSome_iff_ne_none.mpr hsome⟩
      by_contra hle
      apply hsome
      have hsize : a.types.entries.size ≤ id := (Nat.le_max_right _ _).trans (not_lt.mp hle)
      simp [TypeTable.get?, Array.getD_eq_getD_getElem?, hsize]
    rw [hnone] at h
    cases h

lemma lt_nodeCount (a : Analysis) (hwf : p.WellFormed) {n : Expr} (hn : n ∈ p.nodes) : n.id < a.nodeCount p :=
  (hwf.below n hn).trans_le (Nat.le_max_left _ _)

lemma nodeCount_le_nextSlot (a : Analysis) (hwf : p.WellFormed) :
    a.nodeCount p ≤ (a.collect p (a.nodeCount p)).nextSlot :=
  (Program.slots_of_collect a fun _ => a.lt_nodeCount hwf).1

lemma slots_lt_size (a : Analysis) (hwf : p.WellFormed) :
    ∀ k ∈ (a.collect p (a.nodeCount p)).constraints, ∀ slot ∈ k.slots,
      slot < (a.initialTypes (a.nodeCount p) (a.collect p (a.nodeCount p)).nextSlot).size := by
  rw [a.size_initialTypes (a.nodeCount_le_nextSlot hwf)]
  exact (Program.slots_of_collect a fun _ => a.lt_nodeCount hwf).2

section Inference

variable {a a' : Analysis} {p : Program} {limit : Nat} {u : Unifier} {ds ds' : Diagnostics}

lemma inferWithin_of_settles (h : Settles limit a p u) (ds : Diagnostics) :
    ∃ ds', a.inferWithin limit p ds = some (a.withTypes p u, ds') := by
  unfold Settles at h
  unfold inferWithin
  simp only [h]
  exact ⟨_, rfl⟩

lemma settles_of_inferWithin (hwf : p.WellFormed) (h : a.inferWithin limit p ds = some (a', ds'))
    (hclean : ds'.errors = []) :
    ∃ u, Settles limit a p u ∧ a' = a.withTypes p u ∧
      (∀ s ∈ (a.collect p (a.nodeCount p)).sources, (a'.types.typeOf s.id).isResolved = true) ∧
      ∀ l ∈ (a.collect p (a.nodeCount p)).emptyLists, (a'.types.typeOf l.id).isResolved = true := by
  unfold inferWithin at h
  rcases hrun : (Unify.solve limit (a.collect p (a.nodeCount p)).constraints).run
    (.ofTypes (a.initialTypes (a.nodeCount p) (a.collect p (a.nodeCount p)).nextSlot)) with
    ⟨issue | settled, u⟩
  · simp only [hrun] at h
    cases h
    obtain ⟨⟨expected, received, rfl⟩, -⟩ := Unify.unsolvable_of_solve (a.slots_lt_size hwf) hrun
    rw [Diagnostics.errors_add rfl] at hclean
    simp at hclean
  · cases settled with
    | false =>
      simp only [hrun] at h
      cases h
    | true =>
      simp only [hrun] at h
      cases h
      obtain ⟨hsources, hlists⟩ := Diagnostics.good_of_errors_foldl (fun _ => rfl) hclean
      obtain ⟨-, hsources⟩ := Diagnostics.good_of_errors_foldl (fun _ => rfl) hsources
      exact ⟨u, hrun, rfl, hsources, hlists⟩

end Inference

end Analysis

structure Program.Solved (limit : Nat) (a : Analysis) (p : Program) (u : Unifier) : Prop where
  wellFormed : p.WellFormed
  typed : p.Typed a
  settles : Analysis.Settles limit a p u

/-- A program that has been read and checked without errors is solved when the solver settles. -/
theorem Program.solved_of_check {tokens : List Token} {file : String} {ds' : Diagnostics}
    (hread : (Program.ofTokens tokens file).1 = .ok p) (hcheck : p.check ds = (a, ds')) (hclean : ds'.errors = [])
    (hsettles : Analysis.Settles limit a p u) : p.Solved limit a u := by
  have hwf := Program.wellFormed_of_ofTokens hread
  exact ⟨hwf, p.typed_of_check hwf.nodup hcheck hclean, hsettles⟩

namespace Program.Solved

variable {limit : Nat} {a : Analysis} {p : Program} {u : Unifier} (h : p.Solved limit a u)
include h

lemma solution :
    Solution (a.initialTypes (a.nodeCount p) (a.collect p (a.nodeCount p)).nextSlot)
      (a.collect p (a.nodeCount p)).constraints u.typeAt :=
  Unify.solution_of_solve (a.slots_lt_size h.wellFormed) h.settles

lemma initial_of_lt (hid : id < a.nodeCount p) : a.types.typeOf id ≤ u.typeAt id := by
  rw [← a.getD_initialTypes hid]
  refine h.solution.initial id ?_
  rw [a.size_initialTypes (a.nodeCount_le_nextSlot h.wellFormed)]
  exact hid.trans_le (a.nodeCount_le_nextSlot h.wellFormed)

lemma least {τ : Nat → Ty} (hinitial : ∀ id, id < a.nodeCount p → a.types.typeOf id ≤ τ id)
    (hmeets : ∀ k ∈ (a.collect p (a.nodeCount p)).constraints, k.Holds τ) {n : Expr}
    (hn : n ∈ p.nodes) : u.typeAt n.id ≤ τ n.id := by
  have hsize := a.size_initialTypes (a.nodeCount_le_nextSlot h.wellFormed)
  have hid := a.lt_nodeCount h.wellFormed hn
  refine Unify.typeAt_le_of_solve (a.slots_lt_size h.wellFormed) h.settles ⟨fun slot hslot => ?_, hmeets⟩
    n.id (by rw [hsize]; exact hid.trans_le (a.nodeCount_le_nextSlot h.wellFormed))
  by_cases hnode : slot < a.nodeCount p
  · rw [a.getD_initialTypes hnode]
    exact hinitial slot hnode
  · rw [a.getD_initialTypes_of_le (not_lt.mp hnode)]
    exact Ty.generic_le _

section Nodes

variable {n : Expr} (hn : n ∈ p.nodes)
include hn

lemma get?_withTypes : (a.withTypes p u).types.get? n.id = some (u.typeAt n.id) := by
  obtain ⟨Γ, hΓ⟩ := h.typed.node hn
  obtain ⟨type, htype⟩ := hΓ.recorded
  rw [Analysis.withTypes, Analysis.get?_writeBack,
    if_pos ⟨a.lt_nodeCount h.wellFormed hn, by rw [htype]; rfl⟩]

lemma typeOf : (a.withTypes p u).types.typeOf n.id = u.typeAt n.id :=
  TypeTable.typeOf_eq (h.get?_withTypes hn)

lemma initial : a.types.typeOf n.id ≤ u.typeAt n.id :=
  h.initial_of_lt (a.lt_nodeCount h.wellFormed hn)

lemma eq_of_known {type : Ty} (htype : a.types.typeOf n.id = type) (hknown : type.isResolved = true) :
    u.typeAt n.id = type :=
  Ty.eq_of_isResolved_of_le hknown (htype ▸ h.initial hn)

lemma collected : n.Collected a (a.collect p (a.nodeCount p)) :=
  (Program.covered_of_collect h.wellFormed h.typed _).1 n hn

lemma holds {k : Constraint} (hk : k ∈ n.own a []) : k.Holds u.typeAt :=
  h.solution.meets k ((h.collected hn).own k hk)

end Nodes

end Program.Solved

/-- A solved program in which inference knows all types that it asks for: those of the sources of loops
and of empty lists. -/
structure Program.Inferred (limit : Nat) (a : Analysis) (p : Program) (u : Unifier) : Prop extends
    Program.Solved limit a p u where
  sources : ∀ s ∈ (a.collect p (a.nodeCount p)).sources, (u.typeAt s.id).isResolved = true
  emptyLists : ∀ l ∈ (a.collect p (a.nodeCount p)).emptyLists, (u.typeAt l.id).isResolved = true

/-- What checking and inference without errors give. -/
theorem Program.inferred_of_infer {tokens : List Token} {file : String} {a' : Analysis} {ds' ds'' : Diagnostics}
    (hread : (Program.ofTokens tokens file).1 = .ok p) (hcheck : p.check ds = (a, ds')) (hclean : ds'.errors = [])
    (hinfer : a.inferWithin limit p ds' = some (a', ds'')) (hclean' : ds''.errors = []) :
    ∃ u, p.Inferred limit a u ∧ a' = a.withTypes p u := by
  obtain ⟨u, hsettles, rfl, hsources, hlists⟩ :=
    Analysis.settles_of_inferWithin (Program.wellFormed_of_ofTokens hread) hinfer hclean'
  exact ⟨u, ⟨solved_of_check hread hcheck hclean hsettles,
    fun s hs => Analysis.isResolved_typeAt (hsources s hs),
    fun l hl => Analysis.isResolved_typeAt (hlists l hl)⟩, rfl⟩

lemma Program.Inferred.isResolved_emptyList (h : p.Inferred limit a u) {m : Mark} (hn : .emptyList m ∈ p.nodes) :
    (u.typeAt m.id).isResolved = true := by
  obtain ⟨use, huse, hid⟩ := (h.collected hn).listed m rfl
  rw [← hid]
  exact h.emptyLists use huse

/-- Whether a text spells a program that is checked and inferred without errors, and for which a test
of the analyses before and after inference succeeds. -/
def Program.infersWith (source : String) (limit : Nat) (test : Program → Analysis → Analysis → Bool) :
    Bool :=
  match Program.ofSource source "" with
  | .error _ => false
  | .ok p =>
    let (a, ds) := p.check {}
    match a.inferWithin limit p ds with
    | none => false
    | some (a', ds') => ds.errors.isEmpty && ds'.errors.isEmpty && test p a a'

lemma Program.of_infersWith {source : String} {test : Program → Analysis → Analysis → Bool}
    (h : Program.infersWith source limit test = true) :
    ∃ tokens p a ds a' ds', Token.ofSource source "" = .ok tokens ∧
      (Program.ofTokens tokens "").1 = .ok p ∧ p.check {} = (a, ds) ∧ ds.errors = [] ∧
      a.inferWithin limit p ds = some (a', ds') ∧ ds'.errors = [] ∧ test p a a' = true := by
  unfold infersWith ofSource at h
  cases htokens : Token.ofSource source "" with
  | error fault => simp [htokens] at h
  | ok tokens =>
    cases hread : (Program.ofTokens tokens "").1 with
    | error fault => simp [htokens, hread] at h
    | ok p =>
      obtain ⟨a, ds, hcheck⟩ : ∃ a ds, p.check {} = (a, ds) := ⟨_, _, rfl⟩
      simp only [htokens, hread, hcheck] at h
      cases hinfer : a.inferWithin limit p ds with
      | none => simp [hinfer] at h
      | some result =>
        obtain ⟨a', ds'⟩ := result
        simp only [hinfer, Bool.and_eq_true, List.isEmpty_iff] at h
        exact ⟨tokens, p, a, ds, a', ds', rfl, hread, hcheck, h.1.1, hinfer, h.1.2, h.2⟩

end ChessEval
