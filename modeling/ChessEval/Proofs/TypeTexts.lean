import ChessEval.Code.Names
import Mathlib.Data.List.Chain

/-!
# Texts of types

The text of a type without placeholders is a word, or the text of its element type in angle brackets. The same word
stands for all scalars that are numbers in the generated program, and otherwise types of the same text are the same.
-/

namespace ChessEval

open List

/-- The spelling of a type is a word, or that of an element type in brackets. -/
inductive Code.Spelling : String → Prop where
  | word {text} (h : text ∈ ["int", "bool", "string", "void"]) : Code.Spelling text
  | array {inner} (h : Code.Spelling inner) :
    Code.Spelling ("vector<" ++ inner ++ (if inner.toList.getLast? = some '>' then " " else "") ++ ">")

variable {type s t : Ty} {text : String}

namespace Ty

lemma code_cases (type : Ty) :
    (type.isResolved = true ∧ ∃ text, type.code = .ok text) ∨
      (type.isResolved = false ∧ ∃ name, type.code = .error (.unresolvedType name)) := by
  induction type with
  | array element ih =>
    rcases ih with ⟨hknown, text, htext⟩ | ⟨hunknown, name, hname⟩
    · exact .inl ⟨hknown, by simp [code, htext]⟩
    · exact .inr ⟨hunknown, name, by simp [code, hname]⟩
  | generic => exact .inr ⟨rfl, _, rfl⟩
  | genericArray => exact .inr ⟨rfl, _, rfl⟩
  | emptyArray => exact .inr ⟨rfl, _, rfl⟩
  | _ => exact .inl ⟨rfl, _, rfl⟩

/-- A type with `num` in place of every scalar other than `void`, `bool` and `string`, at any depth. -/
def asNumbers : Ty → Ty
  | .array element => .array element.asNumbers
  | .piece | .cell | .row | .rank | .file | .player => .num
  | t => t

lemma code_asNumbers (t : Ty) : t.asNumbers.code = t.code := by
  induction t with
  | array element ih => rw [asNumbers, code, code, ih]
  | _ => rfl

/-- The words for scalars, each with the scalar that stands for all of the same word. -/
def scalarWords : List (String × Ty) :=
  [("int", .num), ("bool", .bool), ("string", .string), ("void", .void)]

lemma bracketed_notMem_scalarWords {inner space : String} :
    "vector<" ++ inner ++ space ++ ">" ∉ scalarWords.map Prod.fst := by
  intro h
  simp only [scalarWords, map_cons, map_nil, mem_cons, not_mem_nil, or_false] at h
  rcases h with h | h | h | h <;> simpa using congrArg String.toList h

lemma of_code (h : type.code = .ok text) :
    (text, type.asNumbers) ∈ scalarWords ∨ ∃ element inner, type = .array element ∧ element.code = .ok inner ∧
      text = "vector<" ++ inner ++ (if inner.toList.getLast? = some '>' then " " else "") ++ ">" := by
  cases type with
  | array element =>
    rw [code] at h
    cases hcode : element.code with
    | error issue =>
      rw [hcode] at h
      cases h
    | ok inner =>
      rw [hcode] at h
      cases h
      exact .inr ⟨element, inner, rfl, hcode, rfl⟩
  | generic => cases h
  | genericArray => cases h
  | emptyArray => cases h
  | _ => cases h; exact .inl (by decide)

end Ty

namespace Code

lemma spelling_of_code (h : type.code = .ok text) : Spelling text := by
  induction type generalizing text with
  | array element ih =>
    rcases Ty.of_code h with hword | ⟨_, inner, ⟨⟩, hcode, rfl⟩
    · exact .word (mem_map_of_mem (f := Prod.fst) hword)
    · exact .array (ih hcode)
  | _ =>
    rcases Ty.of_code h with hword | ⟨_, _, ⟨⟩, -⟩
    exact .word (mem_map_of_mem (f := Prod.fst) hword)

namespace Spelling

/-- The spelling of no type is the start of another. -/
theorem append_inj {text' : String} {rest rest' : List Char} (h : Spelling text)
    (h' : Spelling text') (heq : text.toList ++ rest = text'.toList ++ rest') : text = text' := by
  induction h generalizing text' rest rest' with
  | word hword =>
    cases h' with
    | word hword' =>
      simp only [mem_cons, not_mem_nil, or_false] at hword hword'
      rcases hword with rfl | rfl | rfl | rfl <;> rcases hword' with rfl | rfl | rfl | rfl <;> simp at heq ⊢
    | array =>
      simp only [mem_cons, not_mem_nil, or_false] at hword
      rcases hword with rfl | rfl | rfl | rfl <;> simp at heq
  | array hinner ih =>
    cases h' with
    | word hword' =>
      simp only [mem_cons, not_mem_nil, or_false] at hword'
      rcases hword' with rfl | rfl | rfl | rfl <;> simp at heq
    | array hinner' =>
      simp only [String.toList_append, append_assoc] at heq
      rw [ih hinner' (append_cancel_left heq)]

lemma start (h : Spelling text) (rest : String) :
    ∃ word ∈ ["int", "bool", "string", "void", "vector<"], word.toList <+: (text ++ rest).toList := by
  rw [String.toList_append]
  cases h with
  | word hword => exact ⟨text, mem_append_left ["vector<"] hword, prefix_append _ _⟩
  | array hinner =>
    refine ⟨"vector<", by decide, ?_⟩
    rw [String.toList_append, String.toList_append, String.toList_append, append_assoc, append_assoc,
      append_assoc]
    exact prefix_append _ _

/-- The number of angle brackets that are open after a character, unless it closes one that is not open. -/
def angles (depth : Nat) (c : Char) : Option Nat :=
  if c = '<' then some (depth + 1)
  else if c = '>' then if depth = 0 then none else some (depth - 1)
  else some depth

lemma foldlM_angles (h : Spelling text) (depth : Nat) : text.toList.foldlM angles depth = some depth := by
  induction h generalizing depth with
  | word h =>
    simp only [mem_cons, not_mem_nil, or_false] at h
    rcases h with rfl | rfl | rfl | rfl <;> rfl
  | @array inner hinner ih =>
    have hopen : "vector<".toList.foldlM angles depth = some (depth + 1) := rfl
    have hspace : (if inner.toList.getLast? = some '>' then " " else "").toList.foldlM angles (depth + 1) =
        some (depth + 1) := by
      split_ifs <;> rfl
    simp only [String.toList_append, foldlM_append, hopen, ih, hspace, Option.bind_eq_bind, Option.bind_some]
    rfl

lemma isChain (h : Spelling text) : text.toList.IsChain fun c d => ¬(c = '>' ∧ d = '>') := by
  induction h with
  | word h =>
    simp only [mem_cons, not_mem_nil, or_false] at h
    rcases h with rfl | rfl | rfl | rfl <;> decide
  | @array inner hinner ih =>
    have hvector : "vector<".toList.IsChain fun c d => ¬(c = '>' ∧ d = '>') := by decide
    have hclose : ((if inner.toList.getLast? = some '>' then " " else "") ++ ">").toList.IsChain
        fun c d => ¬(c = '>' ∧ d = '>') := by
      split_ifs <;> decide
    rw [String.append_assoc, String.append_assoc, String.toList_append, String.toList_append]
    refine isChain_append.mpr ⟨hvector, isChain_append.mpr ⟨ih, hclose, ?_⟩, ?_⟩
    · rintro c hc d hd ⟨rfl, rfl⟩
      rw [if_pos (Option.mem_def.mp hc)] at hd
      cases hd
    · rintro c hc d - ⟨rfl, -⟩
      cases hc

end Spelling

end Code

namespace Ty

open Code

lemma element_of_code {inner : String} (hinner : Spelling inner)
    (h : t.code = .ok ("vector<" ++ inner ++ (if inner.toList.getLast? = some '>' then " " else "") ++ ">")) :
    ∃ element, t = .array element ∧ element.code = .ok inner := by
  rcases of_code h with hword | ⟨element, inner', rfl, hcode, heq⟩
  · exact absurd (mem_map_of_mem (f := Prod.fst) hword) bracketed_notMem_scalarWords
  · have hlist := congrArg String.toList heq
    simp only [String.toList_append, append_assoc] at hlist
    obtain rfl := hinner.append_inj (spelling_of_code hcode) (append_cancel_left hlist)
    exact ⟨element, rfl, hcode⟩

lemma asNumbers_eq_of_code (hs : s.code = .ok text) (ht : t.code = .ok text) : s.asNumbers = t.asNumbers := by
  have hspelling := spelling_of_code hs
  induction hspelling generalizing s t with
  | @word text hword =>
    have hwords : ∀ p ∈ scalarWords, ∀ q ∈ scalarWords, p.1 = q.1 → p.2 = q.2 := by decide
    have hof : ∀ {t : Ty}, t.code = .ok text → (text, t.asNumbers) ∈ scalarWords := fun h =>
      (of_code h).resolve_right fun ⟨_, _, _, _, heq⟩ => bracketed_notMem_scalarWords (heq ▸ hword)
    exact hwords _ (hof hs) _ (hof ht) rfl
  | array hinner ih =>
    obtain ⟨s, rfl, hselement⟩ := element_of_code hinner hs
    obtain ⟨t, rfl, htelement⟩ := element_of_code hinner ht
    exact congrArg array (ih hselement htelement)

/-- A type has a text exactly if it has no placeholders. The text never has two closing angle brackets side by side,
and its angle brackets balance. Types have the same text exactly if they are the same up to which scalars are
numbers. -/
theorem texts_of_types :
    (∀ t : Ty, (∃ text, t.code = .ok text) ↔ t.isResolved = true) ∧
      (∀ (t : Ty) text, t.code = .ok text →
        ¬">>".toList <:+: text.toList ∧ text.toList.foldlM Spelling.angles 0 = some 0) ∧
      ∀ s t : Ty, s.isResolved = true → t.isResolved = true → (s.code = t.code ↔ s.asNumbers = t.asNumbers) := by
  refine ⟨fun t => ?_, fun t text h => ⟨fun hinfix => ?_, (spelling_of_code h).foldlM_angles 0⟩, fun s t hs _ => ?_⟩
  · rcases t.code_cases with ⟨hknown, htext⟩ | ⟨hunknown, name, hname⟩
    · exact iff_of_true htext hknown
    · simp [hname, hunknown]
  · have hchain := IsChain.infix (spelling_of_code h).isChain hinfix
    exact isChain_pair.mp hchain ⟨rfl, rfl⟩
  · rcases s.code_cases with ⟨-, text, htext⟩ | ⟨hunknown, -⟩
    · refine ⟨fun h => asNumbers_eq_of_code htext (h ▸ htext), fun h => ?_⟩
      rw [← code_asNumbers, h, code_asNumbers]
    · exact absurd hs (by simp [hunknown])

end Ty

end ChessEval
