import ChessEval.Proofs.Translating

/-!
# Names in code

The text of a term is made of pieces. The names of variables among them are those of the variables in the term and
of the list literals that it numbers.
-/

namespace ChessEval

open List

namespace Code

lemma toDigits_inj {n n' : Nat} (h : Nat.toDigits 10 n = Nat.toDigits 10 n') : n = n' := by
  rw [← Nat.ofDigitChars_ten_toDigits (n := n), h, Nat.ofDigitChars_ten_toDigits]

lemma literalName_inj {n n' : Nat} (h : Translate.literalName n = Translate.literalName n') : n = n' := by
  have htext : toString n = toString n' := by simpa [Translate.literalName] using h
  have hdigits := congrArg String.toList htext
  rw [Nat.toString_eq_repr, Nat.toString_eq_repr, Nat.toList_repr, Nat.toList_repr] at hdigits
  exact toDigits_inj hdigits

lemma variableName_injective : Function.Injective variableName :=
  fun _ _ h => String.append_right_inj _ |>.mp h

section Numbers

/-- A character that does not start the name of a temporary variable. -/
def isBare (c : Char) : Bool :=
  c != '_'

lemma isBare_of_isDigit {c : Char} (h : c.isDigit = true) : isBare c = true := by
  refine bne_iff_ne.mpr ?_
  rintro rfl
  revert h
  decide

lemma isBare_toString (n : Nat) : (toString n).toList.all isBare = true := by
  rw [Nat.toString_eq_repr, Nat.toList_repr, all_eq_true]
  exact fun c hc => isBare_of_isDigit (Nat.isDigit_of_mem_toDigits (by decide) (by decide) hc)

lemma isBare_zeros (n : Nat) : (Number.zeros n).toList.all isBare = true := by
  rw [Number.zeros, String.toList_ofList, all_replicate]
  cases n <;> rfl

lemma isBare_withSign {text : String} (h : text.toList.all isBare = true) (negative : Bool) :
    (Number.withSign negative text).toList.all isBare = true := by
  cases negative with
  | false => exact h
  | true =>
    rw [Number.withSign, if_pos rfl, String.toList_append, all_append, h]
    decide

lemma isBare_positional (digits : Nat) (k : Int) : (Number.positional digits k).toList.all isBare = true := by
  unfold Number.positional
  split
  · rw [String.toList_append, all_append, isBare_toString, isBare_zeros, Bool.and_self]
  · extract_lets text places padded whole rest
    have hall : padded.toList.all isBare = true := by
      unfold padded
      split
      · rw [String.toList_append, all_append, isBare_toString, isBare_zeros, Bool.and_self]
      · exact isBare_toString digits
    have hpoint : ['.'].all isBare = true := by decide
    have hwhole := all_eq_true.mp hall
    rw [String.toList_ofList, all_append, all_append, hpoint, Bool.and_true, Bool.and_eq_true]
    exact ⟨all_eq_true.mpr fun c hc => hwhole c (mem_of_mem_take hc),
      all_eq_true.mpr fun c hc => hwhole c (mem_of_mem_drop hc)⟩

lemma isBare_plain (x : Number) : x.plain.toList.all isBare = true := by
  cases x with
  | undefined => decide
  | infinite negative => exact isBare_withSign (by decide) negative
  | finite negative m e =>
    rw [Number.plain]
    split
    · exact isBare_withSign (by decide) negative
    · exact isBare_withSign (isBare_positional _ _) negative

lemma isBare_code (x : Number) : x.code.toList.all isBare = true := by
  unfold Number.code
  split
  · split
    · decide
    · split
      · exact isBare_withSign (isBare_toString _) _
      · exact isBare_plain x
  · exact isBare_plain x

end Numbers

end Code

namespace Target

mutual

/-- The pieces that the text of a term is made of. -/
def Term.atoms : Term → List String
  | .text code => [code]
  | .var _ name => [Code.variableName name]
  | .binary operator arrays left right =>
    (Code.binaryWords operator arrays).1 :: left.atoms ++ (Code.binaryWords operator arrays).2 :: right.atoms ++ [")"]
  | .unary operator operand => Code.unaryWord operator :: operand.atoms ++ [")"]
  | .call callee arguments => callee :: "(" :: Term.allAtoms arguments ++ [")"]

/-- The pieces of several terms, with commas between them. -/
def Term.allAtoms : List Term → List String
  | [] => []
  | term :: rest => term.atoms ++ (if rest.isEmpty then [] else [", "]) ++ Term.allAtoms rest

end

mutual

theorem Term.code_eq_join (term : Term) : term.code = String.join term.atoms := by
  cases term with
  | text code => simp [Term.code, Term.atoms]
  | var mark name => simp [Term.code, Term.atoms]
  | binary operator arrays left right =>
    simp [Term.code, Term.atoms, Code.binary, left.code_eq_join, right.code_eq_join, String.append_assoc]
  | unary operator operand => simp [Term.code, Term.atoms, Code.unary, operand.code_eq_join, String.append_assoc]
  | call callee arguments =>
    simp [Term.code, Term.atoms, Code.call, Term.intercalate_codes arguments, String.append_assoc]

theorem Term.intercalate_codes (terms : List Term) :
    ", ".intercalate (Term.codes terms) = String.join (Term.allAtoms terms) := by
  match terms with
  | [] => rfl
  | [term] => simp [Term.codes, Term.allAtoms, term.code_eq_join]
  | term :: other :: rest =>
    have hrest := Term.intercalate_codes (other :: rest)
    have hatoms : Term.allAtoms (term :: other :: rest) = term.atoms ++ [", "] ++ Term.allAtoms (other :: rest) := rfl
    rw [Term.codes] at hrest
    rw [Term.codes, Term.codes, String.intercalate_cons_cons, hrest, term.code_eq_join, hatoms]
    simp [String.append_assoc]

end

/-- The text of a term names the variables in it and no others. A text that ends in a bracket calls something, and no
identifier holds one. -/
def Term.NamesVars (term : Term) : Prop :=
  term.code = String.join term.atoms ∧
    ∀ name, ')' ∉ name.toList → (Code.variableName name ∈ term.atoms ↔ ∃ m, (m, name) ∈ term.vars)

end Target

namespace Translate

open Target

/-- The name of a variable: of a list literal or of the program. -/
inductive IsName : String → Prop
  | temp (n : Nat) : IsName (literalName n)
  | declared {name : String} (h : ')' ∉ name.toList) : IsName (Code.variableName name)

/-- A text that is not the name of a variable. -/
def Other (text : String) : Prop :=
  ¬IsName text

lemma head?_literalName (n : Nat) : (literalName n).toList.head? = some '_' := by
  simp [literalName]

lemma IsName.head {text : String} (h : IsName text) :
    text.toList.head? = some '_' ∨ text.toList.head? = some 'v' := by
  cases h with
  | temp n => exact .inl (head?_literalName n)
  | declared h => exact .inr (by simp [Code.variableName])

lemma IsName.underscore {text : String} (h : IsName text) : '_' ∈ text.toList := by
  cases h with
  | temp n => exact mem_of_mem_head? (head?_literalName n)
  | declared h => simp [Code.variableName]

lemma IsName.bracket {text : String} (h : IsName text) : ')' ∉ text.toList := by
  cases h with
  | declared h => simpa [Code.variableName] using h
  | temp n =>
    intro hmem
    rw [literalName, String.toList_append, Nat.toString_eq_repr, Nat.toList_repr] at hmem
    rcases mem_append.mp hmem with hmem | hmem
    · revert hmem
      decide
    · have hdigit := Nat.isDigit_of_mem_toDigits (by decide) (by decide) hmem
      revert hdigit
      decide

lemma other_of_head {text : String} (h : text.toList.head? ∉ [some '_', some 'v']) : Other text := by
  intro hname
  rcases hname.head with hhead | hhead <;> simp [hhead] at h

lemma IsName.ne {name text : String} (h : IsName name) (hother : Other text) : name ≠ text := by
  rintro rfl
  exact hother h

lemma other_of_bracket {start stop : String} (h : ')' ∈ stop.toList) : Other (start ++ stop) := by
  intro hname
  exact hname.bracket (by rw [String.toList_append]; exact mem_append_right _ h)

lemma other_literal (value : Literal) : Other (Code.literal value) := by
  cases value with
  | number value => exact fun h => absurd (all_eq_true.mp (Code.isBare_code value) '_' h.underscore) (by decide)
  | boolean value => cases value <;> exact other_of_head (by decide)
  | string value =>
    change Other (Text.literal value)
    exact other_of_head (by simp [Text.literal])
  | board collection => cases collection <;> exact other_of_head (by decide)
  | player side => cases side <;> exact other_of_head (by decide)
  | _ => exact other_of_bracket (by decide)

lemma other_callee (file : String) (a : Analysis) (m : Mark) (name : String) : Other (callee file a m name) := by
  unfold callee Code.calleeName
  split
  · simp only [Except.toOption, Option.getD_some]
    split
    · exact other_of_head (by simp [Code.predefinedName])
    · unfold Code.functionName
      split <;> exact other_of_head (by simp)
  · exact other_of_head (by simp [Except.toOption])

lemma other_binaryWords (operator : BinaryOp) (arrays : Bool) :
    Other (Code.binaryWords operator arrays).1 ∧ Other (Code.binaryWords operator arrays).2 := by
  cases operator <;> cases arrays <;> exact ⟨other_of_head (by decide), other_of_head (by decide)⟩

lemma other_comma : Other ", " :=
  other_of_head (by decide)

lemma other_unaryWord (operator : UnaryOp) : Other (Code.unaryWord operator) := by
  cases operator <;> exact other_of_head (by decide)

section Atoms

/-- The variables of list literals among the pieces of a text are numbered in a range, and those of the
program are the ones given. -/
structure Names (k k' : Nat) (atoms : List String) (vars : List (Mark × String)) : Prop where
  range : ∀ n, literalName n ∈ atoms → k ≤ n ∧ n < k'
  vars_iff : ∀ name, ')' ∉ name.toList → (Code.variableName name ∈ atoms ↔ ∃ m, (m, name) ∈ vars)

variable {k k' k₁ : Nat} {atoms atoms' : List String} {vars vars' : List (Mark × String)}

/-- Pieces that name no variable can be added or left out. -/
lemma Names.congr (h : Names k k' atoms vars) (hsame : ∀ text, IsName text → (text ∈ atoms' ↔ text ∈ atoms)) :
    Names k k' atoms' vars where
  range n hn := h.range n ((hsame _ (.temp n)).mp hn)
  vars_iff name hname := (hsame _ (.declared hname)).trans (h.vars_iff name hname)

lemma Names.append (h : Names k k' atoms vars) (h' : Names k' k₁ atoms' vars') (hle : k ≤ k') (hle' : k' ≤ k₁) :
    Names k k₁ (atoms ++ atoms') (vars ++ vars') where
  range n hn := by
    rcases mem_append.mp hn with hn | hn
    · exact ⟨(h.range n hn).1, (h.range n hn).2.trans_le hle'⟩
    · exact ⟨hle.trans (h'.range n hn).1, (h'.range n hn).2⟩
  vars_iff name hname := by
    rw [mem_append, h.vars_iff name hname, h'.vars_iff name hname, ← exists_or]
    exact exists_congr fun m => mem_append.symm

lemma names_literal (hle : k ≤ k') : Names k (k' + 1) [literalName k'] [] where
  range n hn := by
    rw [Code.literalName_inj (mem_singleton.mp hn)]
    exact ⟨hle, Nat.lt_succ_self _⟩
  vars_iff name _ := by
    have hne : Code.variableName name ≠ literalName k' := by
      intro heq
      have hhead := head?_literalName k'
      simp [← heq, Code.variableName] at hhead
    simp [hne]

lemma names_variable (m : Mark) (name : String) : Names k k [Code.variableName name] [(m, name)] where
  range n hn := by
    have hhead := head?_literalName n
    simp [mem_singleton.mp hn, Code.variableName] at hhead
  vars_iff other _ := by simp [Code.variableName_injective.eq_iff]

variable {file : String} {a : Analysis}

/-- The translation of an expression names the list literals that it numbers, and its variables. -/
def NamesOwn (file : String) (a : Analysis) (e : Expr) : Prop :=
  ∀ k, k ≤ (expr file a k e).next ∧
    Names k (expr file a k e).next (expr file a k e).value.atoms (expr file a k e).value.vars

lemma namesOwn_exprs {es : List Expr} (hes : ∀ e ∈ es, NamesOwn file a e) (k : Nat) :
    k ≤ (exprs file a k es).next ∧ Names k (exprs file a k es).next
      (Term.allAtoms (exprs file a k es).values) (Term.allVars (exprs file a k es).values) := by
  induction es generalizing k with
  | nil => exact ⟨le_rfl, by simp [exprs, Term.allAtoms], by simp [exprs, Term.allAtoms, Term.allVars]⟩
  | cons e rest ih =>
    obtain ⟨he, hrest⟩ := forall_mem_cons.mp hes
    obtain ⟨hle, hfirst⟩ := he k
    obtain ⟨hle', hothers⟩ := ih hrest (expr file a k e).next
    refine ⟨hle.trans hle', (hfirst.append hothers hle hle').congr fun text htext => ?_⟩
    simp only [exprs, Term.allAtoms]
    split <;> simp [htext.ne other_comma]

theorem namesOwn_expr (e : Expr) : NamesOwn file a e := by
  induction e using Expr.children_induction with
  | step e ih =>
    intro k
    obtain ⟨hle, hchildren⟩ := namesOwn_exprs ih k
    -- what a node adds to the pieces of its operands names no variable, unless it is one
    have hopen : Other "(" := other_of_head (by decide)
    have hclose : Other ")" := other_of_head (by decide)
    have hcall : ∀ {callee}, Other callee → ∀ name, IsName name →
        (name ∈ callee :: "(" :: Term.allAtoms (exprs file a k e.children).values ++ [")"] ↔
          name ∈ Term.allAtoms (exprs file a k e.children).values) := by
      intro callee hcallee name hname
      simp [hname.ne hcallee, hname.ne hopen, hname.ne hclose]
    cases e with
    | literal m value =>
      refine ⟨hle, hchildren.congr fun name hname => ?_⟩
      simp [expr, exprs, Expr.children, Term.atoms, Term.allAtoms, hname.ne (other_literal value)]
    | identifier m name => exact ⟨hle, names_variable m name⟩
    | binary m operator left right =>
      obtain ⟨hstart, hmiddle⟩ :=
        other_binaryWords operator (Code.hasArrayType a left.id && Code.hasArrayType a right.id)
      simp only [Expr.children, exprs, Term.allVars, append_nil] at hle hchildren
      refine ⟨hle, hchildren.congr fun name hname => ?_⟩
      simp [expr, Term.atoms, Term.allAtoms, hname.ne hstart, hname.ne hmiddle, hname.ne hclose,
        hname.ne other_comma]
    | unary m operator operand =>
      simp only [Expr.children, exprs, Term.allVars, append_nil] at hle hchildren
      refine ⟨hle, hchildren.congr fun name hname => ?_⟩
      simp [expr, Term.atoms, Term.allAtoms, hname.ne (other_unaryWord operator), hname.ne hclose]
    | call m name arguments | member m base field => exact ⟨hle, hchildren.congr (hcall (other_callee _ _ _ _))⟩
    | index m base position => exact ⟨hle, hchildren.congr (hcall (other_of_head (by decide)))⟩
    | list m elements => exact ⟨Nat.le_succ_of_le hle, names_literal hle⟩
    | emptyList m => exact ⟨Nat.le_succ k, names_literal le_rfl⟩

lemma namesVars_expr (k : Nat) (e : Expr) : (expr file a k e).value.NamesVars :=
  ⟨Term.code_eq_join _, (namesOwn_expr e k).2.vars_iff⟩

end Atoms

end Translate

end ChessEval
