import ChessEval.Proofs.Printing
import Mathlib.Tactic.IntervalCases

/-!
# Texts of places on the board

The constants that name places on the board keep only part of the text they are read from: the dollar signs go,
and a row, rank or file becomes a number.
-/

namespace ChessEval

variable {text : List Char}

open Literal

namespace Parse

lemma withoutDollars_of_head (h : text.head? ≠ some '$') : withoutDollars text = text := by
  cases text with
  | nil => rfl
  | cons c rest =>
    have hc : (c == '$') = false := by simpa using h
    simp [withoutDollars, hc]

lemma withoutDollars_place (h : text.head? ≠ some '$') : withoutDollars (place text) = text := by
  rw [place, withoutDollars, List.dropWhile_cons_of_pos rfl]
  exact withoutDollars_of_head h

lemma splitRange_cons {c : Char} (h : c = '.' → text.head? ≠ some '.') :
    splitRange? (c :: text) = (splitRange? text).map fun parts => (c :: parts.1, parts.2) := by
  cases text with
  | nil => simp [splitRange?]
  | cons d rest =>
    rw [splitRange?]
    intro _ hc hd
    cases hd
    exact h hc rfl

/-- A text splits before the two points that follow it, if no two points are in it or start in it. -/
lemma splitRange_append {first last : List Char} (hnone : splitRange? first = none)
    (hend : first.getLast? ≠ some '.') :
    splitRange? (first ++ '.' :: '.' :: last) = some (first, last) := by
  induction first with
  | nil => rfl
  | cons c text ih =>
    have hc : c = '.' → text.head? ≠ some '.' := by
      rintro rfl htext
      obtain ⟨rest, rfl⟩ := List.head?_eq_some_iff.mp htext
      cases hnone
    have hc' : c = '.' → (text ++ '.' :: '.' :: last).head? ≠ some '.' := by
      cases text with
      | nil => exact fun hpoint => absurd (congrArg some hpoint) hend
      | cons d rest => exact hc
    rw [splitRange_cons hc, Option.map_eq_none_iff] at hnone
    have hend' : text.getLast? ≠ some '.' := by
      cases text with
      | nil => nofun
      | cons d rest => exact hend
    rw [List.cons_append, splitRange_cons hc', ih hnone hend']
    rfl

/-- The first place of a range, as text without a dollar sign, must not run into the points. -/
structure PlainEnd (text : List Char) : Prop where
  head : text.head? ≠ some '$'
  unsplit : splitRange? text = none
  last : text.getLast? ≠ some '.'

lemma rangeEnds_span {first last : List Char} (hfirst : PlainEnd first)
    (hlast : last.head? ≠ some '$') : rangeEnds (span first last) = (first, last) := by
  have hsplit : splitRange? (span first last) = some (place first, place last) := by
    rw [span, place, List.cons_append, splitRange_cons (by simp),
      splitRange_append hfirst.unsplit hfirst.last]
    rfl
  rw [rangeEnds, hsplit]
  exact Prod.ext (withoutDollars_place hfirst.head) (withoutDollars_place hlast)

lemma rangeEnds_place (htext : text.head? ≠ some '$') (hnone : splitRange? text = none) :
    rangeEnds (place text) = (text, text) := by
  have hsplit : splitRange? (place text) = none := by
    rw [place, splitRange_cons (by simp), hnone]
    rfl
  rw [rangeEnds, hsplit]
  exact Prod.ext (withoutDollars_place htext) (withoutDollars_place htext)

section Places

variable {index : Nat}

lemma digitValue_digit (h : index ≤ 9) : digitValue (digit index) = index := by
  interval_cases index <;> rfl

lemma plainEnd_digit (h : index ≤ 9) : PlainEnd [digit index] := by
  constructor <;> interval_cases index <;> decide

lemma plainEnd_rank (h : index ≤ 9) : PlainEnd ['r', digit index] := by
  constructor <;> interval_cases index <;> decide

lemma toNat_letter (h : index ≤ 159) : (letter index).toNat = 96 + index := by
  have hvalid : (96 + index).isValidChar := by
    left
    omega
  unfold letter Char.ofNat
  rw [dif_pos hvalid]
  rfl

lemma fileNumber_letter (h : 1 ≤ index ∧ index ≤ 159) : fileNumber (letter index) = index := by
  have hbyte : (96 + index) % 256 = 96 + index := Nat.mod_eq_of_lt (by omega)
  have ha : 'a'.toNat = 97 := rfl
  rw [fileNumber, toNat_letter h.2, hbyte, ha]
  omega

lemma plainEnd_letter (h : 1 ≤ index ∧ index ≤ 159) : PlainEnd [letter index] := by
  have hne : ∀ c : Char, c.toNat < 96 → letter index ≠ c := by
    intro c hc heq
    have hletter := toNat_letter h.2
    rw [heq] at hletter
    omega
  refine ⟨?_, ?_, ?_⟩
  · simpa using hne '$' (by decide)
  · rw [splitRange_cons (by simp)]
    rfl
  · simpa using hne '.' (by decide)

end Places

lemma boardLiteral_token (numeral : Number → String) {value : Literal} (hvalue : value.Printable)
    (hkind : (value.token numeral).kind.operand? = some .boardLiteral) :
    boardLiteral? (value.token numeral) = some value := by
  cases value with
  | cell name => simp [boardLiteral?, token, Token.printed, withoutDollars_place hvalue]
  | row index =>
    have hplace := withoutDollars_place (plainEnd_digit hvalue).head
    simp [boardLiteral?, token, Token.printed, hplace, lastDigit, digitValue_digit hvalue]
  | rank index =>
    have hplace := withoutDollars_place (plainEnd_rank hvalue).head
    simp [boardLiteral?, token, Token.printed, hplace, lastDigit, digitValue_digit hvalue]
  | file index =>
    have hplace := withoutDollars_place (plainEnd_letter hvalue).head
    simp [boardLiteral?, token, Token.printed, hplace, firstFile, fileNumber_letter hvalue]
  | cellRange first last =>
    obtain ⟨hfirst, hlast, hnone, hsame⟩ := hvalue
    have hends : rangeEnds (cellSpan first.toList last.toList) = (first.toList, last.toList) := by
      rw [cellSpan]
      split
      next hpoint => rw [rangeEnds_place hfirst hnone, hsame hpoint]
      next hpoint => exact rangeEnds_span ⟨hfirst, hnone, hpoint⟩ hlast
    simp [boardLiteral?, token, Token.printed, hends]
  | rowRange first last =>
    have hends := rangeEnds_span (plainEnd_digit hvalue.1) (plainEnd_digit hvalue.2).head
    simp [boardLiteral?, token, Token.printed, hends, lastDigit, digitValue_digit hvalue.1,
      digitValue_digit hvalue.2]
  | rankRange first last =>
    have hends := rangeEnds_span (plainEnd_rank hvalue.1) (plainEnd_rank hvalue.2).head
    simp [boardLiteral?, token, Token.printed, hends, lastDigit, digitValue_digit hvalue.1,
      digitValue_digit hvalue.2]
  | fileRange first last =>
    have hends := rangeEnds_span (plainEnd_letter hvalue.1) (plainEnd_letter hvalue.2).head
    simp [boardLiteral?, token, Token.printed, hends, firstFile, fileNumber_letter hvalue.1,
      fileNumber_letter hvalue.2]
  | number value => cases hkind
  | boolean value => cases value <;> cases hkind
  | string value => cases hkind
  | board collection => cases collection <;> cases hkind
  | pieces name => cases hkind
  | player player => cases player <;> cases hkind

lemma digitValue_le (c : Char) : digitValue c ≤ 9 := by
  rw [digitValue]
  split
  next hdigit =>
    have hle : c.toNat ≤ 57 := (Char.isDigit_iff_toNat.mp hdigit).2
    have hzero : '0'.toNat = 48 := rfl
    omega
  next => omega

lemma fileNumber_bounds (c : Char) : 1 ≤ fileNumber c ∧ fileNumber c ≤ 159 := by
  have hbyte : c.toNat % 256 < 256 := Nat.mod_lt _ (by omega)
  have ha : 'a'.toNat = 97 := rfl
  rw [fileNumber, ha]
  omega

lemma head_withoutDollars (text : List Char) : (withoutDollars text).head? ≠ some '$' := by
  intro h
  have hnot := List.head?_dropWhile_not (fun c => c == '$') text
  rw [withoutDollars] at h
  rw [h] at hnot
  cases hnot

lemma splitRange_of_suffix {front : List Char} (h : splitRange? (front ++ text) = none) : splitRange? text = none := by
  induction front with
  | nil => exact h
  | cons c front ih =>
    apply ih
    rw [List.cons_append] at h
    by_cases hc : c = '.' → (front ++ text).head? ≠ some '.'
    · rwa [splitRange_cons hc, Option.map_eq_none_iff] at h
    · push Not at hc
      obtain ⟨rfl, hhead⟩ := hc
      obtain ⟨rest, hrest⟩ := List.head?_eq_some_iff.mp hhead
      rw [hrest] at h
      cases h

lemma plain_of_splitRange {before after : List Char} (h : splitRange? text = some (before, after)) :
    text = before ++ '.' :: '.' :: after ∧ splitRange? before = none ∧ before.getLast? ≠ some '.' := by
  induction text generalizing before with
  | nil => cases h
  | cons c rest ih =>
    by_cases hc : c = '.' → rest.head? ≠ some '.'
    · rw [splitRange_cons hc, Option.map_eq_some_iff] at h
      obtain ⟨⟨first, last⟩, hrest, heq⟩ := h
      cases heq
      obtain ⟨hsplit, hnone, hlast⟩ := ih hrest
      have hc' : c = '.' → first.head? ≠ some '.' := by
        cases first with
        | nil => nofun
        | cons d more =>
          rw [hsplit] at hc
          exact hc
      refine ⟨by rw [hsplit, List.cons_append], by rw [splitRange_cons hc', hnone]; rfl, ?_⟩
      cases first with
      | nil =>
        intro hpoint
        cases hpoint
        rw [hsplit] at hc
        exact hc rfl rfl
      | cons d more => exact hlast
    · push Not at hc
      obtain ⟨rfl, hhead⟩ := hc
      obtain ⟨more, rfl⟩ := List.head?_eq_some_iff.mp hhead
      cases h
      exact ⟨rfl, rfl, nofun⟩

lemma plainEnd_withoutDollars (hnone : splitRange? text = none) (hlast : text.getLast? ≠ some '.') :
    PlainEnd (withoutDollars text) := by
  obtain ⟨front, hfront⟩ : withoutDollars text <:+ text := List.dropWhile_suffix _
  rw [← hfront] at hnone hlast
  refine ⟨head_withoutDollars text, splitRange_of_suffix hnone, ?_⟩
  intro hpoint
  simp [List.getLast?_append, hpoint] at hlast

/-- The first end of a range has no two points in it, and it is the last end too if it ends with a
point. -/
lemma rangeEnds_spec (text : List Char) :
    (rangeEnds text).1.head? ≠ some '$' ∧ (rangeEnds text).2.head? ≠ some '$' ∧
      splitRange? (rangeEnds text).1 = none ∧
      ((rangeEnds text).1.getLast? = some '.' → (rangeEnds text).2 = (rangeEnds text).1) := by
  refine ⟨head_withoutDollars _, head_withoutDollars _, ?_⟩
  cases hsplit : splitRange? text with
  | none =>
    obtain ⟨front, hfront⟩ : withoutDollars text <:+ text := List.dropWhile_suffix _
    have hends : rangeEnds text = (withoutDollars text, withoutDollars text) := by
      rw [rangeEnds, hsplit]
      rfl
    rw [hends]
    refine ⟨?_, fun _ => rfl⟩
    rw [← hfront] at hsplit
    exact splitRange_of_suffix hsplit
  | some parts =>
    obtain ⟨before, after⟩ := parts
    obtain ⟨-, hnone, hlast⟩ := plain_of_splitRange hsplit
    have hplain := plainEnd_withoutDollars hnone hlast
    have hends : rangeEnds text = (withoutDollars before, withoutDollars after) := by
      rw [rangeEnds, hsplit]
      rfl
    rw [hends]
    exact ⟨hplain.unsplit, fun hpoint => absurd hpoint hplain.last⟩

lemma printable_of_boardLiteral {token : Token} {value : Literal}
    (h : boardLiteral? token = some value) : value.Printable := by
  unfold boardLiteral? at h
  split at h <;> cases h
  · simpa [Literal.Printable] using head_withoutDollars _
  · exact digitValue_le _
  · exact digitValue_le _
  · exact fileNumber_bounds _
  · obtain ⟨hfirst, hlast, hnone, hsame⟩ := rangeEnds_spec token.text.toList
    refine ⟨?_, ?_, ?_, fun hpoint => congrArg String.ofList (hsame ?_)⟩
    · rwa [String.toList_ofList]
    · rwa [String.toList_ofList]
    · rwa [String.toList_ofList]
    · rwa [String.toList_ofList] at hpoint
  · exact ⟨digitValue_le _, digitValue_le _⟩
  · exact ⟨digitValue_le _, digitValue_le _⟩
  · exact ⟨fileNumber_bounds _, fileNumber_bounds _⟩

end Parse

end ChessEval
