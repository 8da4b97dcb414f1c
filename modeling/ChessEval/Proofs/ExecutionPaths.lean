import ChessEval.Analysis
import ChessEval.Proofs.Nodes
import ChessEval.Stmt.Flow
import Mathlib.Logic.Relation
import Mathlib.Tactic.ByContra

/-!
# Paths through a block

An execution of a block has statements still to do. What a statement leaves to do is not decided by values here: a
condition may be true or false, and a loop may run any number of times. The analysis of returns is exact for these
executions. It looks at the statements of a block one by one, while executions go through the blocks of loops again and
again, so both are compared with the statements that can be reached as far as the nesting of blocks tells.
-/

namespace ChessEval

open List

namespace Stmt

/-- The blocks right inside a statement, numbered. -/
def blocks : Stmt → List (Nat × List Stmt)
  | .ifThen _ thenBody none _ => [(0, thenBody)]
  | .ifThen _ thenBody (some elseBody) _ => [(0, thenBody), (1, elseBody)]
  | .whileDo _ body _ | .forAll _ _ body _ => [(0, body)]
  | _ => []

lemma eq_of_mem_blocks {s : Stmt} {k : Nat} {b c : List Stmt} (hb : (k, b) ∈ s.blocks) (hc : (k, c) ∈ s.blocks) :
    b = c := by
  cases s with
  | ifThen condition thenBody elseBody line => cases elseBody <;> simp [blocks] at hb hc <;> grind
  | _ => simp_all [blocks]

/-- A fact about every block follows by induction on its statements, where a statement may use the fact for the blocks
inside it, whatever kind of statement it is. -/
@[elab_as_elim]
theorem blocks_induction {motive : List Stmt → Prop} (single : Stmt → Prop)
    (stmt : ∀ s, (∀ b ∈ s.blocks, motive b.2) → single s) (nil : motive [])
    (cons : ∀ s rest, single s → motive rest → motive (s :: rest)) (block : List Stmt) : motive block := by
  induction block using block_induction single with
  | ifThen condition thenBody line ih => exact stmt _ (by simpa [blocks] using ih)
  | ifElse condition thenBody elseBody line ihthen ihelse => exact stmt _ (by simp [blocks, ihthen, ihelse])
  | whileDo condition body line ih => exact stmt _ (by simpa [blocks] using ih)
  | forAll name source body line ih => exact stmt _ (by simpa [blocks] using ih)
  | declare | assign | returns | score | call => exact stmt _ (by simp [blocks])
  | nil => exact nil
  | cons s rest ihs ihrest => exact cons s rest ihs ihrest

/-- A statement is reported if it always returns and something follows, and so are those in its blocks. -/
lemma unreachable_eq_nil_iff {s : Stmt} {last : Bool} : s.unreachable last = [] ↔
    (∀ b ∈ s.blocks, blockUnreachable b.2 = []) ∧ (s.alwaysReturns = true → last = true) := by
  cases s with
  | ifThen condition thenBody elseBody line =>
    cases elseBody with
    | none => simp [unreachable, blocks, alwaysReturns]
    | some elseBody =>
      simp only [unreachable, blocks, alwaysReturns, append_eq_nil_iff, forall_mem_cons, not_mem_nil,
        false_implies, implies_true, and_true]
      cases last <;> simp
  | returns value line => cases last <;> simp [unreachable, blocks, alwaysReturns]
  | _ => simp [unreachable, blocks, alwaysReturns]

lemma scoreLines_eq_nil {s : Stmt} (h : s.scoreLines = []) :
    (∀ value line, s ≠ .score value line) ∧ ∀ b ∈ s.blocks, blockScoreLines b.2 = [] := by
  cases s with
  | ifThen condition thenBody elseBody line => cases elseBody <;> simp_all [scoreLines, blocks]
  | _ => simp_all [scoreLines, blocks]

end Stmt

namespace Flow

/-- Where a statement stands: its position in its block, and then where the block stands. -/
abbrev Address := List Nat

/-- A statement to do, and where it stands. -/
abbrev Task := Address × Stmt

def tasks (block : Address) (position : Nat) : List Stmt → List Task
  | [] => []
  | s :: rest => (position :: block, s) :: tasks block (position + 1) rest

/-- What can be left to do in the place of a statement. Nothing is left after a return, and a score is what a rule
returns. -/
def choices : Task → List (List Task)
  | (_, .declare ..) | (_, .assign ..) | (_, .call ..) => [[]]
  | (a, .ifThen _ thenBody none _) => [tasks (0 :: a) 0 thenBody, []]
  | (a, .ifThen _ thenBody (some elseBody) _) => [tasks (0 :: a) 0 thenBody, tasks (1 :: a) 0 elseBody]
  | (a, .whileDo condition body line) => [[], tasks (0 :: a) 0 body ++ [(a, .whileDo condition body line)]]
  | (a, .forAll name source body line) => [[], tasks (0 :: a) 0 body ++ [(a, .forAll name source body line)]]
  | (_, .returns ..) | (_, .score ..) => []

/-- A step of an execution. -/
inductive Step : List Task → List Task → Prop
  | step {task : Task} {todo rest : List Task} (h : todo ∈ choices task) : Step (task :: rest) (todo ++ rest)

/-- Some execution that has the first tasks to do comes to have the second ones to do. -/
abbrev Reaches : List Task → List Task → Prop :=
  Relation.ReflTransGen Step

mutual

def inside (a : Address) : Stmt → List Task
  | .ifThen condition thenBody none line =>
    (a, .ifThen condition thenBody none line) :: blockInside (0 :: a) 0 thenBody
  | .ifThen condition thenBody (some elseBody) line =>
    (a, .ifThen condition thenBody (some elseBody) line) ::
      (blockInside (0 :: a) 0 thenBody ++ blockInside (1 :: a) 0 elseBody)
  | .whileDo condition body line => (a, .whileDo condition body line) :: blockInside (0 :: a) 0 body
  | .forAll name source body line => (a, .forAll name source body line) :: blockInside (0 :: a) 0 body
  | s => [(a, s)]

/-- The statements of a block from a position on and those inside them, with their addresses. -/
def blockInside (block : Address) (position : Nat) : List Stmt → List Task
  | [] => []
  | s :: rest => inside (position :: block) s ++ blockInside block (position + 1) rest

end

mutual

/-- The statements inside a statement that can be reached if it can, as far as the nesting of blocks tells. -/
def reachable (a : Address) : Stmt → List Task
  | .ifThen condition thenBody none line =>
    (a, .ifThen condition thenBody none line) :: blockReachable (0 :: a) 0 thenBody
  | .ifThen condition thenBody (some elseBody) line =>
    (a, .ifThen condition thenBody (some elseBody) line) ::
      (blockReachable (0 :: a) 0 thenBody ++ blockReachable (1 :: a) 0 elseBody)
  | .whileDo condition body line => (a, .whileDo condition body line) :: blockReachable (0 :: a) 0 body
  | .forAll name source body line => (a, .forAll name source body line) :: blockReachable (0 :: a) 0 body
  | s => [(a, s)]

/-- The statements that can be reached in a block from a position on. -/
def blockReachable (block : Address) (position : Nat) : List Stmt → List Task
  | [] => []
  | s :: rest =>
    reachable (position :: block) s ++ if s.alwaysReturns then [] else blockReachable block (position + 1) rest

end

section Structure

variable {a : Address} {s : Stmt} {x : Task}

lemma inside_eq (a : Address) (s : Stmt) :
    inside a s = (a, s) :: s.blocks.flatMap fun b => blockInside (b.1 :: a) 0 b.2 := by
  cases s with
  | ifThen condition thenBody elseBody line => cases elseBody <;> simp [inside, Stmt.blocks]
  | _ => simp [inside, Stmt.blocks]

lemma mem_inside : x ∈ inside a s ↔ x = (a, s) ∨ ∃ b ∈ s.blocks, x ∈ blockInside (b.1 :: a) 0 b.2 := by
  rw [inside_eq, mem_cons, mem_flatMap]

lemma reachable_eq (a : Address) (s : Stmt) :
    reachable a s = (a, s) :: s.blocks.flatMap fun b => blockReachable (b.1 :: a) 0 b.2 := by
  cases s with
  | ifThen condition thenBody elseBody line => cases elseBody <;> simp [reachable, Stmt.blocks]
  | _ => simp [reachable, Stmt.blocks]

lemma mem_reachable : x ∈ reachable a s ↔ x = (a, s) ∨ ∃ b ∈ s.blocks, x ∈ blockReachable (b.1 :: a) 0 b.2 := by
  rw [reachable_eq, mem_cons, mem_flatMap]

lemma mem_blockReachable {block : Address} {position : Nat} {rest : List Stmt} :
    x ∈ blockReachable block position (s :: rest) ↔ x ∈ reachable (position :: block) s ∨
      (s.alwaysReturns = false ∧ x ∈ blockReachable block (position + 1) rest) := by
  cases h : s.alwaysReturns <;> simp [blockReachable, h]

lemma map_snd_blockInside (body : List Stmt) :
    ∀ block position, (blockInside block position body).map Prod.snd = Stmt.blockParts body := by
  induction body using Stmt.block_induction (fun s => ∀ a, (inside a s).map Prod.snd = s.parts) with
  | ifThen condition thenBody line ih a => simp [inside, Stmt.parts, ih]
  | ifElse condition thenBody elseBody line ihthen ihelse a => simp [inside, Stmt.parts, ihthen, ihelse]
  | whileDo condition body line ih a => simp [inside, Stmt.parts, ih]
  | forAll name source body line ih a => simp [inside, Stmt.parts, ih]
  | declare | assign | returns | score | call => rfl
  | nil => exact fun _ _ => rfl
  | cons s rest ihs ihrest =>
    intro block position
    rw [blockInside, map_append, ihs, ihrest, Stmt.blockParts]

lemma eq_of_cons_suffix {i j : Nat} {b : Address} (hi : i :: a <:+ b) (hj : j :: a <:+ b) : i = j := by
  have hsame : i :: a = j :: a := by
    rw [suffix_iff_eq_drop.mp hi, suffix_iff_eq_drop.mp hj, length_cons, length_cons]
  exact (List.cons.inj hsame).1

/-- The address of a statement inside a block ends with the address of the block and a position in it. -/
lemma suffix_of_mem_blockInside (body : List Stmt) : ∀ block position, ∀ x ∈ blockInside block position body,
    ∃ i, position ≤ i ∧ i :: block <:+ x.1 := by
  induction body using Stmt.blocks_induction (fun s => ∀ a, ∀ x ∈ inside a s, a <:+ x.1) with
  | stmt s ih a x hx =>
    rcases mem_inside.mp hx with rfl | ⟨b, hb, hx⟩
    · exact suffix_rfl
    · obtain ⟨i, -, hi⟩ := ih b hb _ _ x hx
      exact ((suffix_cons b.1 a).trans (suffix_cons i _)).trans hi
  | nil => simp [blockInside]
  | cons s rest ihs ihrest =>
    intro block position x hx
    rcases mem_append.mp hx with hx | hx
    · exact ⟨position, Nat.le_refl _, ihs _ x hx⟩
    · obtain ⟨i, hi, hsuffix⟩ := ihrest _ _ x hx
      exact ⟨i, by omega, hsuffix⟩

lemma blockReachable_subset (body : List Stmt) :
    ∀ block position, blockReachable block position body ⊆ blockInside block position body := by
  induction body using Stmt.blocks_induction (fun s => ∀ a, reachable a s ⊆ inside a s) with
  | stmt s ih a =>
    intro x hx
    rcases mem_reachable.mp hx with rfl | ⟨b, hb, hx⟩
    · exact mem_inside.mpr (.inl rfl)
    · exact mem_inside.mpr (.inr ⟨b, hb, ih b hb _ _ hx⟩)
  | nil => exact fun _ _ => List.Subset.refl _
  | cons s rest ihs ihrest =>
    intro block position x hx
    rcases mem_blockReachable.mp hx with hx | ⟨-, hx⟩
    · exact mem_append_left _ (ihs _ hx)
    · exact mem_append_right _ (ihrest _ _ hx)

lemma suffix_of_mem_inside (hx : x ∈ inside a s) : a <:+ x.1 := by
  rcases mem_inside.mp hx with rfl | ⟨b, -, hx⟩
  · exact suffix_rfl
  · obtain ⟨i, -, hi⟩ := suffix_of_mem_blockInside b.2 _ _ x hx
    exact ((suffix_cons b.1 a).trans (suffix_cons i _)).trans hi

end Structure

section Unreachable

/-- What can be reached is told apart by its addresses, so a statement inside a block of a statement that can be
reached is reached inside this block. -/
lemma mem_blockReachable_of_mem {a : Address} {s : Stmt} {x : Task} {b : Nat × List Stmt} (hb : b ∈ s.blocks)
    (hx : x ∈ blockInside (b.1 :: a) 0 b.2) (hreach : x ∈ reachable a s) : x ∈ blockReachable (b.1 :: a) 0 b.2 := by
  obtain ⟨i, -, hi⟩ := suffix_of_mem_blockInside _ _ _ x hx
  have hblock : b.1 :: a <:+ x.1 := (suffix_cons i _).trans hi
  rcases mem_reachable.mp hreach with rfl | ⟨c, hc, hx'⟩
  · exact absurd hblock.length_le (by simp)
  · obtain ⟨j, -, hj⟩ := suffix_of_mem_blockInside _ _ _ x (blockReachable_subset _ _ _ hx')
    obtain ⟨k, c⟩ := c
    obtain ⟨l, b⟩ := b
    obtain rfl : l = k := eq_of_cons_suffix hblock ((suffix_cons j _).trans hj)
    rw [Stmt.eq_of_mem_blocks hb hc]
    exact hx'

lemma blockInside_subset (body : List Stmt) : blockUnreachable body = [] →
    ∀ block position, blockInside block position body ⊆ blockReachable block position body := by
  induction body using Stmt.blocks_induction (fun s => (∀ b ∈ s.blocks, blockUnreachable b.2 = []) →
    ∀ a, inside a s ⊆ reachable a s) with
  | stmt s ih hblocks a =>
    intro x hx
    rcases mem_inside.mp hx with rfl | ⟨b, hb, hx⟩
    · exact mem_reachable.mpr (.inl rfl)
    · exact mem_reachable.mpr (.inr ⟨b, hb, ih b hb (hblocks b hb) _ _ hx⟩)
  | nil => exact fun _ _ _ => List.Subset.refl _
  | cons s rest ihs ihrest =>
    intro h block position x hx
    obtain ⟨hs, hrest⟩ := append_eq_nil_iff.mp h
    obtain ⟨hblocks, hlast⟩ := Stmt.unreachable_eq_nil_iff.mp hs
    rcases mem_append.mp hx with hx | hx
    · exact mem_blockReachable.mpr (.inl (ihs hblocks _ hx))
    · refine mem_blockReachable.mpr (.inr ⟨?_, ihrest hrest _ _ hx⟩)
      cases rest with
      | nil => cases hx
      | cons t rest => exact Bool.eq_false_iff.mpr fun hreturns => Bool.false_ne_true (hlast hreturns)

lemma blockUnreachable_eq_nil (body : List Stmt) : ∀ block position,
    blockInside block position body ⊆ blockReachable block position body → blockUnreachable body = [] := by
  induction body using Stmt.blocks_induction (fun s => ∀ a, inside a s ⊆ reachable a s →
    ∀ b ∈ s.blocks, blockUnreachable b.2 = []) with
  | stmt s ih a h b hb =>
    refine ih b hb (b.1 :: a) 0 fun x hx => ?_
    exact mem_blockReachable_of_mem hb hx (h (mem_inside.mpr (.inr ⟨b, hb, hx⟩)))
  | nil => exact fun _ _ _ => rfl
  | cons s rest ihs ihrest =>
    intro block position h
    -- the addresses inside the first statement and behind it differ in the position
    have hapart : ∀ x ∈ inside (position :: block) s, x ∉ blockInside block (position + 1) rest := by
      intro x hx hx'
      obtain ⟨i, hi, hsuffix⟩ := suffix_of_mem_blockInside rest _ _ x hx'
      have hsame := eq_of_cons_suffix (suffix_of_mem_inside hx) hsuffix
      omega
    have hfirst : inside (position :: block) s ⊆ reachable (position :: block) s := by
      intro x hx
      rcases mem_blockReachable.mp (h (mem_append_left _ hx)) with hreach | ⟨-, hreach⟩
      · exact hreach
      · exact absurd (blockReachable_subset _ _ _ hreach) (hapart x hx)
    have hbehind : ∀ x ∈ blockInside block (position + 1) rest,
        s.alwaysReturns = false ∧ x ∈ blockReachable block (position + 1) rest := by
      intro x hx
      rcases mem_blockReachable.mp (h (mem_append_right _ hx)) with hreach | hreach
      · have hinside : x ∈ blockInside block position [s] :=
          blockReachable_subset _ _ _ (mem_blockReachable.mpr (.inl hreach))
        exact absurd hx (hapart x (by simpa [blockInside] using hinside))
      · exact hreach
    refine append_eq_nil_iff.mpr ⟨Stmt.unreachable_eq_nil_iff.mpr ⟨ihs _ hfirst, fun hreturns => ?_⟩,
      ihrest _ _ fun x hx => (hbehind x hx).2⟩
    cases rest with
    | nil => rfl
    | cons t rest =>
      have hnext : ((position + 1) :: block, t) ∈ blockInside block (position + 1) (t :: rest) :=
        mem_append_left _ (mem_inside.mpr (.inl rfl))
      exact absurd hreturns (by simp [(hbehind _ hnext).1])

end Unreachable

section Executions

variable {a : Address} {s : Stmt} {todo : List Task}

/-- All that a statement can leave to do. -/
lemma choices_cases (h : todo ∈ choices (a, s)) :
    (todo = [] ∧ s.alwaysReturns = false) ∨
      (∃ b ∈ s.blocks, todo = tasks (b.1 :: a) 0 b.2 ∧ (s.alwaysReturns = true → blockReturns b.2 = true)) ∨
      (∃ b ∈ s.blocks, todo = tasks (b.1 :: a) 0 b.2 ++ [(a, s)] ∧ s.alwaysReturns = false) := by
  cases s with
  | ifThen condition thenBody elseBody line =>
    cases elseBody with
    | none =>
      simp only [choices, mem_cons, not_mem_nil, or_false] at h
      rcases h with rfl | rfl <;> simp [Stmt.blocks, Stmt.alwaysReturns]
    | some elseBody =>
      simp only [choices, mem_cons, not_mem_nil, or_false] at h
      refine .inr (.inl ?_)
      rcases h with rfl | rfl
      · exact ⟨(0, thenBody), by simp [Stmt.blocks], rfl, fun h => (Bool.and_eq_true_iff.mp h).1⟩
      · exact ⟨(1, elseBody), by simp [Stmt.blocks], rfl, fun h => (Bool.and_eq_true_iff.mp h).2⟩
  | whileDo condition body line | forAll name source body line =>
    simp only [choices, mem_cons, not_mem_nil, or_false] at h
    rcases h with rfl | rfl
    · exact .inl ⟨rfl, rfl⟩
    · exact .inr (.inr ⟨(0, body), by simp [Stmt.blocks], rfl, rfl⟩)
  | declare | assign | call => exact .inl ⟨mem_singleton.mp h, rfl⟩
  | returns | score => cases h

lemma exists_choice {b : Nat × List Stmt} (hb : b ∈ s.blocks) :
    ∃ rest, tasks (b.1 :: a) 0 b.2 ++ rest ∈ choices (a, s) := by
  cases s with
  | ifThen condition thenBody elseBody line =>
    cases elseBody with
    | none => exact ⟨[], by simp_all [Stmt.blocks, choices]⟩
    | some elseBody =>
      refine ⟨[], ?_⟩
      simp only [Stmt.blocks, mem_cons, not_mem_nil, or_false] at hb
      rcases hb with rfl | rfl <;> simp [choices]
  | whileDo condition body line => exact ⟨[(a, .whileDo condition body line)], by simp_all [Stmt.blocks, choices]⟩
  | forAll name source body line =>
    exact ⟨[(a, .forAll name source body line)], by simp_all [Stmt.blocks, choices]⟩
  | _ => simp [Stmt.blocks] at hb

lemma exists_passing_choice (hreturns : s.alwaysReturns = false) (hscore : ∀ value line, s ≠ .score value line) :
    [] ∈ choices (a, s) ∨
      ∃ b ∈ s.blocks, tasks (b.1 :: a) 0 b.2 ∈ choices (a, s) ∧ blockReturns b.2 = false := by
  cases s with
  | ifThen condition thenBody elseBody line =>
    cases elseBody with
    | none => exact .inl (by simp [choices])
    | some elseBody =>
      right
      rcases Bool.and_eq_false_iff.mp hreturns with hthen | helse
      · exact ⟨(0, thenBody), by simp [Stmt.blocks], by simp [choices], hthen⟩
      · exact ⟨(1, elseBody), by simp [Stmt.blocks], by simp [choices], helse⟩
  | returns value line => cases hreturns
  | score value line => exact absurd rfl (hscore value line)
  | _ => exact .inl (by simp [choices])

def returning (todo : List Task) : Bool :=
  todo.any fun task => task.2.alwaysReturns

lemma returning_append (todo rest : List Task) : returning (todo ++ rest) = (returning todo || returning rest) :=
  any_append

lemma returning_tasks (body : List Stmt) (block : Address) (position : Nat) :
    returning (tasks block position body) = blockReturns body := by
  induction body generalizing position with
  | nil => rfl
  | cons s rest ih =>
    rw [blockReturns, ← ih (position + 1)]
    rfl

lemma Step.returning {todo todo' : List Task} (h : Step todo todo') (hreturns : returning todo = true) :
    returning todo' = true := by
  obtain ⟨hchoice⟩ := h
  rename_i task choice rest
  obtain ⟨a, s⟩ := task
  have hparts : s.alwaysReturns = true ∨ Flow.returning rest = true := Bool.or_eq_true_iff.mp hreturns
  rw [returning_append, Bool.or_eq_true_iff]
  rcases choices_cases hchoice with ⟨-, hs⟩ | ⟨b, -, rfl, hb⟩ | ⟨b, -, -, hs⟩
  · exact hparts.imp_left fun h => absurd h (by simp [hs])
  · rw [returning_tasks]
    exact hparts.imp_left hb
  · exact hparts.imp_left fun h => absurd h (by simp [hs])

lemma Reaches.returning {todo todo' : List Task} (h : Reaches todo todo') (hreturns : returning todo = true) :
    Flow.returning todo' = true := by
  induction h with
  | refl => exact hreturns
  | tail _ hstep ih => exact hstep.returning ih

lemma reaches_rest (body : List Stmt) : blockScoreLines body = [] → blockReturns body = false →
    ∀ block position rest, Reaches (tasks block position body ++ rest) rest := by
  induction body using Stmt.blocks_induction (fun s => s.scoreLines = [] → s.alwaysReturns = false →
    ∀ a rest, Reaches ((a, s) :: rest) rest) with
  | stmt s ih hscore hreturns a rest =>
    obtain ⟨hnoscore, hblocks⟩ := Stmt.scoreLines_eq_nil hscore
    rcases exists_passing_choice hreturns hnoscore with hchoice | ⟨b, hb, hchoice, hreturns⟩
    · exact .single (.step hchoice)
    · exact .head (.step hchoice) (ih b hb (hblocks b hb) hreturns _ _ rest)
  | nil => exact fun _ _ _ _ _ => .refl
  | cons s rest ihs ihrest =>
    intro hscore hreturns block position todo
    obtain ⟨hs, hrest⟩ := append_eq_nil_iff.mp hscore
    obtain ⟨hsreturns, hrestreturns⟩ := Bool.or_eq_false_iff.mp hreturns
    exact (ihs hs hsreturns _ _).trans (ihrest hrest hrestreturns _ _ _)

theorem blockReturns_iff {body : List Stmt} (hscore : blockScoreLines body = []) (block : Address) (position : Nat) :
    blockReturns body = true ↔ ¬Reaches (tasks block position body) [] := by
  constructor
  · intro hreturns hend
    exact Bool.false_ne_true (hend.returning ((returning_tasks _ _ _).trans hreturns))
  · intro hend
    cases hreturns : blockReturns body with
    | true => rfl
    | false =>
      have hpassed := reaches_rest body hscore hreturns block position []
      rw [append_nil] at hpassed
      exact absurd hpassed hend

/-- What can be reached with some statements to do, as far as the nesting of blocks tells. -/
def reachableFrom : List Task → List Task
  | [] => []
  | task :: rest => reachable task.1 task.2 ++ if task.2.alwaysReturns then [] else reachableFrom rest

lemma mem_reachableFrom_cons {x task : Task} {rest : List Task} : x ∈ reachableFrom (task :: rest) ↔
    x ∈ reachable task.1 task.2 ∨ (task.2.alwaysReturns = false ∧ x ∈ reachableFrom rest) := by
  cases h : task.2.alwaysReturns <;> simp [reachableFrom, h]

lemma mem_reachableFrom_append {x : Task} {todo rest : List Task} :
    x ∈ reachableFrom (todo ++ rest) ↔ x ∈ reachableFrom todo ∨ (returning todo = false ∧ x ∈ reachableFrom rest) := by
  induction todo with
  | nil => simp [reachableFrom, returning]
  | cons task todo ih =>
    have hreturning : returning (task :: todo) = (task.2.alwaysReturns || returning todo) := rfl
    rw [cons_append, mem_reachableFrom_cons, mem_reachableFrom_cons, ih, hreturning, Bool.or_eq_false_iff,
      and_or_left, or_assoc, and_assoc]

lemma reachableFrom_tasks (body : List Stmt) (block : Address) (position : Nat) :
    reachableFrom (tasks block position body) = blockReachable block position body := by
  induction body generalizing position with
  | nil => rfl
  | cons s rest ih =>
    rw [blockReachable, ← ih (position + 1)]
    rfl

lemma Step.reachableFrom_subset {todo todo' : List Task} (h : Step todo todo') :
    reachableFrom todo' ⊆ reachableFrom todo := by
  obtain ⟨hchoice⟩ := h
  rename_i task choice rest
  obtain ⟨a, s⟩ := task
  have hblock : ∀ b ∈ s.blocks, ∀ x ∈ reachableFrom (tasks (b.1 :: a) 0 b.2), x ∈ reachableFrom ((a, s) :: rest) := by
    intro b hb x hx
    rw [reachableFrom_tasks] at hx
    exact mem_reachableFrom_cons.mpr (.inl (mem_reachable.mpr (.inr ⟨b, hb, hx⟩)))
  intro x hx
  rcases choices_cases hchoice with ⟨rfl, hs⟩ | ⟨b, hb, rfl, hreturns⟩ | ⟨b, hb, rfl, hs⟩
  · exact mem_reachableFrom_cons.mpr (.inr ⟨hs, hx⟩)
  · rcases mem_reachableFrom_append.mp hx with hx | ⟨hpassed, hx⟩
    · exact hblock b hb x hx
    · rw [returning_tasks] at hpassed
      have hs : s.alwaysReturns = false := Bool.eq_false_iff.mpr fun h => by simp [hreturns h] at hpassed
      exact mem_reachableFrom_cons.mpr (.inr ⟨hs, hx⟩)
  · rw [append_assoc] at hx
    rcases mem_reachableFrom_append.mp hx with hx | ⟨-, hx⟩
    · exact hblock b hb x hx
    · exact hx

lemma Reaches.reachableFrom_subset {todo todo' : List Task} (h : Reaches todo todo') :
    reachableFrom todo' ⊆ reachableFrom todo := by
  induction h with
  | refl => exact List.Subset.refl _
  | tail _ hstep ih => exact List.Subset.trans hstep.reachableFrom_subset ih

lemma reaches_of_mem (body : List Stmt) : blockScoreLines body = [] → ∀ block position rest,
    ∀ x ∈ blockReachable block position body, ∃ rest', Reaches (tasks block position body ++ rest) (x :: rest') := by
  induction body using Stmt.blocks_induction (fun s => s.scoreLines = [] → ∀ a rest, ∀ x ∈ reachable a s,
    ∃ rest', Reaches ((a, s) :: rest) (x :: rest')) with
  | stmt s ih hscore a rest x hx =>
    rcases mem_reachable.mp hx with rfl | ⟨b, hb, hx⟩
    · exact ⟨rest, .refl⟩
    · obtain ⟨todo, hchoice⟩ := exists_choice hb
      obtain ⟨rest', hreach⟩ := ih b hb ((Stmt.scoreLines_eq_nil hscore).2 b hb) _ 0 (todo ++ rest) x hx
      rw [← append_assoc] at hreach
      exact ⟨rest', .head (.step hchoice) hreach⟩
  | nil => simp [blockReachable]
  | cons s rest ihs ihrest =>
    intro hscore block position todo x hx
    obtain ⟨hs, hrest⟩ := append_eq_nil_iff.mp hscore
    rcases mem_blockReachable.mp hx with hx | ⟨hreturns, hx⟩
    · exact ihs hs _ _ x hx
    · obtain ⟨rest', hreach⟩ := ihrest hrest _ _ todo x hx
      have hpassed := reaches_rest [s] (by simp [blockScoreLines, hs]) (by simp [blockReturns, hreturns]) block position
      exact ⟨rest', (hpassed _).trans hreach⟩

lemma exists_reaches_iff {body : List Stmt} (hscore : blockScoreLines body = []) {block : Address} {position : Nat}
    {x : Task} :
    (∃ rest, Reaches (tasks block position body) (x :: rest)) ↔ x ∈ blockReachable block position body := by
  constructor
  · rintro ⟨rest, hreach⟩
    rw [← reachableFrom_tasks]
    exact hreach.reachableFrom_subset (mem_reachableFrom_cons.mpr (.inl (mem_reachable.mpr (.inl rfl))))
  · intro hx
    obtain ⟨rest, hreach⟩ := reaches_of_mem body hscore block position [] x hx
    rw [append_nil] at hreach
    exact ⟨rest, hreach⟩

end Executions

section Filing

lemma length_reportAll (context : Context) (issues : List (Issue × Nat)) (s : Inspection) :
    ((Inspect.reportAll context issues).run s).2.diagnostics.errors.length +
        ((Inspect.reportAll context issues).run s).2.diagnostics.warnings.length =
      s.diagnostics.errors.length + s.diagnostics.warnings.length + issues.length := by
  induction issues generalizing s with
  | nil => rfl
  | cons issue rest ih =>
    obtain ⟨issue, line⟩ := issue
    refine (ih ((Inspect.report (context.moveTo line) issue).run s).2).trans ?_
    have hone : ((Inspect.report (context.moveTo line) issue).run s).2.diagnostics =
        s.diagnostics.add ⟨issue, line, s.file⟩ (context.moveTo line).place := rfl
    rw [hone, Diagnostics.add]
    split <;> simp <;> omega

lemma diagnostics_reportAll {context : Context} {issues : List (Issue × Nat)} {s : Inspection} :
    ((Inspect.reportAll context issues).run s).2.diagnostics = s.diagnostics ↔ issues = [] := by
  constructor
  · intro h
    have hlength := length_reportAll context issues s
    rw [h] at hlength
    exact eq_nil_of_length_eq_zero (by omega)
  · rintro rfl
    rfl

end Filing

/-- The analysis of returns is exact. A block without scores returns on every path exactly if no execution comes to its
end, and nothing is filed about it exactly if every statement in it, at whatever level, is reached by some
execution. -/
theorem return_analysis_exact (body : List Stmt) (hscore : blockScores body = false) (context : Context)
    (s : Inspection) :
    (blockReturns body = true ↔ ¬Reaches (tasks [] 0 body) []) ∧
      (((Inspect.reportAll context (blockUnreachable body)).run s).2.diagnostics = s.diagnostics ↔
        ∀ x ∈ blockInside [] 0 body, ∃ rest, Reaches (tasks [] 0 body) (x :: rest)) ∧
      (blockInside [] 0 body).map Prod.snd = Stmt.blockParts body := by
  have hlines : blockScoreLines body = [] := by simpa [blockScores] using hscore
  refine ⟨blockReturns_iff hlines [] 0, ?_, map_snd_blockInside body [] 0⟩
  rw [diagnostics_reportAll]
  simp only [exists_reaches_iff hlines]
  exact ⟨fun h => blockInside_subset body h [] 0, fun h => blockUnreachable_eq_nil body [] 0 h⟩

/-- A loop may be left, although its body always returns and ends with a statement that is never reached. -/
theorem return_analysis_exact_loop :
    let yes : Expr := .literal ⟨0, 1⟩ (.boolean true)
    let branch : Stmt := .ifThen yes [.returns none 2] (some [.returns none 3]) 2
    let body : List Stmt := [.whileDo yes [branch, .call yes 4] 1]
    blockScores body = false ∧ Reaches (tasks [] 0 body) [] ∧
      ¬∀ x ∈ blockInside [] 0 body, ∃ rest, Reaches (tasks [] 0 body) (x :: rest) := by
  intro yes branch body
  have hscore : blockScores body = false := rfl
  obtain ⟨hreturns, hfiled, -⟩ := return_analysis_exact body hscore (.topLevel 0) ⟨"", .initial 0, {}⟩
  refine ⟨hscore, ?_, fun hall => ?_⟩
  · by_contra hend
    cases hreturns.mpr hend
  · cases hfiled.mpr hall

end Flow

end ChessEval
