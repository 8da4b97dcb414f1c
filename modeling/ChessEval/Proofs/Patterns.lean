import ChessEval.Token.Pattern
import Mathlib.Data.List.Forall2
import Mathlib.Data.List.Infix
import Mathlib.Data.List.TakeWhile
import Mathlib.Tactic.Lemma

/-!
# What lexical patterns cover

A pattern stands for a set of texts, which is given here without the reader that looks for them.
-/

namespace ChessEval.Pattern

open List

variable {p : Pattern} {cs text : List Char} {n : Nat}

/-- The characters that can stand between the quotes of a string: a backslash takes the next character
with it, which is not a newline, and there is no other quote. -/
inductive Quotable : List Char → Prop
  | nil : Quotable []
  | plain {c : Char} {rest : List Char} : c ≠ '"' → c ≠ '\\' → Quotable rest → Quotable (c :: rest)
  | escaped {c : Char} {rest : List Char} : c ≠ '\n' → Quotable rest → Quotable ('\\' :: c :: rest)

/-- The texts that a pattern stands for. -/
def Covers : Pattern → List Char → Prop
  | .blanks, text => text ≠ [] ∧ ∀ c ∈ text, Text.isBlank c = true
  | .lineComment, text => ∃ body, text = '/' :: '/' :: body ∧ '\n' ∉ body
  | .blockComment, text =>
    ∃ body, text = '/' :: '*' :: (body ++ ['*', '/']) ∧ ¬['*', '/'] <:+: body ++ ['*']
  | .shape first rest, text => List.Forall₂ (fun p c => p.holds c = true) (first :: rest) text
  | .word, text => ∃ c rest, text = c :: rest ∧ isLetter c = true ∧
      ∀ d ∈ rest, (isLetter d || isDigit d) = true
  | .number, text => ∃ whole, whole ≠ [] ∧ (∀ c ∈ whole, isDigit c = true) ∧
      (text = whole ∨ ∃ places, places ≠ [] ∧ (∀ c ∈ places, isDigit c = true) ∧
        text = whole ++ '.' :: places)
  | .string, text => ∃ body, text = '"' :: (body ++ ['"']) ∧ Quotable body

/-- The longest text that a pattern stands for at the start of a text. -/
structure Longest (p : Pattern) (cs text : List Char) : Prop where
  start : text <+: cs
  covers : p.Covers text
  longest : ∀ other, other <+: cs → p.Covers other → other.length ≤ text.length

lemma Longest.length_eq {other : List Char} (h : p.Longest cs text) (h' : p.Longest cs other) :
    text.length = other.length :=
  Nat.le_antisymm (h'.longest text h.start h.covers) (h.longest other h'.start h'.covers)

/-- No text that a pattern stands for is at the start of a text. -/
def Absent (p : Pattern) (cs : List Char) : Prop :=
  ∀ text, text <+: cs → ¬p.Covers text

lemma Longest.not_absent (h : p.Longest cs text) : ¬p.Absent cs :=
  fun habsent => habsent text h.start h.covers

/-- A length is that of the longest text that a pattern stands for, and no length says that there is
no such text. -/
def Measures (p : Pattern) (cs : List Char) : Option Nat → Prop
  | none => p.Absent cs
  | some n => n ≤ cs.length ∧ p.Longest cs (cs.take n)

lemma measures_some (rest : List Char) (h : cs = text ++ rest) (hcovers : p.Covers text)
    (hlongest : ∀ other, other <+: cs → p.Covers other → other.length ≤ text.length) :
    p.Measures cs (some text.length) := by
  subst h
  refine ⟨by simp, ?_⟩
  rw [take_left']
  · exact ⟨prefix_append _ _, hcovers, hlongest⟩
  · rfl

section Runs

variable {p : Char → Bool} {cs : List Char}

lemma length_le_run (h : text <+: cs) (htext : ∀ c ∈ text, p c = true) : text.length ≤ run p cs := by
  obtain ⟨rest, rfl⟩ := h
  rw [run, takeWhile_append_of_pos htext, length_append]
  omega

lemma run_append {c : Char} (htext : ∀ d ∈ text, p d = true) (hc : p c = false) (rest : List Char) :
    run p (text ++ c :: rest) = text.length := by
  rw [run, takeWhile_append_of_pos htext, takeWhile_cons_of_neg (by simp [hc]), append_nil]

end Runs

lemma measures_blanks (cs : List Char) : blanks.Measures cs (blanks.length? cs) := by
  have hlongest : ∀ other, other <+: cs → blanks.Covers other → other.length ≤ run Text.isBlank cs :=
    fun other hother hcovers => length_le_run hother hcovers.2
  simp only [length?]
  split
  next hzero =>
    intro text htext hcovers
    have hlength := hlongest text htext hcovers
    exact hcovers.1 (eq_nil_of_length_eq_zero (by omega))
  next hrun =>
    refine measures_some _ takeWhile_append_dropWhile.symm ⟨?_, fun c hc => mem_takeWhile_imp hc⟩ hlongest
    intro hnil
    exact hrun (by rw [run, hnil]; rfl)

lemma measures_lineComment (cs : List Char) : lineComment.Measures cs (lineComment.length? cs) := by
  unfold length?
  split
  all_goals try contradiction
  next rest _ =>
    rw [show 2 + run (· != '\n') rest = ('/' :: '/' :: rest.takeWhile (· != '\n')).length by
      simp only [run, length_cons]; omega]
    refine measures_some (rest.dropWhile (· != '\n'))
      (by simp [takeWhile_append_dropWhile]) ⟨_, rfl, ?_⟩ ?_
    · intro hmem
      simpa using mem_takeWhile_imp hmem
    · rintro other hother ⟨body, rfl, hbody⟩
      have hstart : body <+: rest := by simpa using hother
      have hlength := length_le_run (p := (· != '\n')) hstart fun c hc => by
        simpa using fun h : c = '\n' => hbody (h ▸ hc)
      simpa [run] using hlength
  next hshape _ _ _ =>
    rintro text ⟨rest, rfl⟩ ⟨body, rfl, -⟩
    exact hshape _ rfl rfl

lemma commentEnd?_append {body : List Char} (h : ¬['*', '/'] <:+: body ++ ['*']) (rest : List Char) :
    commentEnd? (body ++ '*' :: '/' :: rest) = some (body.length + 2) := by
  induction body with
  | nil => rfl
  | cons c body ih =>
    have hbody : ¬['*', '/'] <:+: body ++ ['*'] := fun hinside => h (hinside.trans (suffix_cons _ _).isInfix)
    rw [cons_append, commentEnd?, ih hbody]
    · rfl
    · rintro tail rfl htail
      cases body with
      | nil => cases htail
      | cons d body =>
        cases htail
        exact h ⟨[], body ++ ['*'], rfl⟩

lemma of_commentEnd? (h : commentEnd? cs = some n) :
    ∃ body rest, cs = body ++ '*' :: '/' :: rest ∧ n = body.length + 2 ∧ ¬['*', '/'] <:+: body ++ ['*'] := by
  fun_induction commentEnd? cs generalizing n with
  | case1 rest =>
    cases h
    exact ⟨[], rest, rfl, rfl, by decide⟩
  | case2 c rest hshape ih =>
    obtain ⟨k, hk, rfl⟩ := Option.map_eq_some_iff.mp h
    obtain ⟨body, tail, rfl, rfl, hbody⟩ := ih hk
    refine ⟨c :: body, tail, rfl, rfl, fun hinside => ?_⟩
    rcases infix_cons_iff.mp hinside with hstart | hinside
    · obtain ⟨hc, hstart⟩ := cons_prefix_cons.mp hstart
      cases body with
      | nil => cases (cons_prefix_cons.mp hstart).1
      | cons d body =>
        cases (cons_prefix_cons.mp hstart).1
        exact hshape _ hc.symm rfl
    · exact hbody hinside
  | case3 => cases h

lemma measures_blockComment (cs : List Char) : blockComment.Measures cs (blockComment.length? cs) := by
  -- Two comments at the start of one text end at the same place.
  have hunique : ∀ {body rest other}, other <+: '/' :: '*' :: (body ++ '*' :: '/' :: rest) →
      ¬['*', '/'] <:+: body ++ ['*'] → blockComment.Covers other → other.length = body.length + 4 := by
    rintro body rest other ⟨after, hafter⟩ hbody ⟨body', rfl, hbody'⟩
    have heq : body' ++ '*' :: '/' :: after = body ++ '*' :: '/' :: rest := by simpa using hafter
    have hend := commentEnd?_append hbody' after
    rw [heq, commentEnd?_append hbody] at hend
    simp at hend ⊢
    omega
  unfold length?
  split
  all_goals try contradiction
  next rest _ =>
    cases hend : commentEnd? rest with
    | none =>
      rintro text ⟨after, hafter⟩ ⟨body, rfl, hbody⟩
      obtain rfl : body ++ '*' :: '/' :: after = rest := by simpa using hafter
      rw [commentEnd?_append hbody] at hend
      cases hend
    | some n =>
      obtain ⟨body, after, rfl, rfl, hbody⟩ := of_commentEnd? hend
      rw [Option.map_some, show 2 + (body.length + 2) = ('/' :: '*' :: (body ++ ['*', '/'])).length by simp; omega]
      refine measures_some after (by simp) ⟨body, rfl, hbody⟩ ?_
      intro other hother hcovers
      rw [hunique hother hbody hcovers]
      simp
  next hshape _ _ =>
    rintro text ⟨rest, rfl⟩ ⟨body, rfl, -⟩
    exact hshape _ rfl rfl

lemma fits_iff {classes : List CharClass} :
    fits classes cs = true ↔ ∃ text, text <+: cs ∧ List.Forall₂ (fun p c => p.holds c = true) classes text := by
  induction classes generalizing cs with
  | nil => exact ⟨fun _ => ⟨[], nil_prefix, .nil⟩, fun _ => by simp [fits]⟩
  | cons p ps ih =>
    cases cs with
    | nil =>
      constructor
      · intro h
        cases h
      · rintro ⟨text, htext, hall⟩
        rw [prefix_nil.mp htext] at hall
        cases hall
    | cons c cs =>
      rw [fits, Bool.and_eq_true, ih]
      constructor
      · rintro ⟨hc, text, htext, hall⟩
        exact ⟨c :: text, cons_prefix_cons.mpr ⟨rfl, htext⟩, .cons hc hall⟩
      · rintro ⟨text, htext, hall⟩
        cases hall with
        | cons hd hall =>
          obtain ⟨rfl, htail⟩ := cons_prefix_cons.mp htext
          exact ⟨hd, _, htail, hall⟩

lemma measures_shape (first : CharClass) (rest : List CharClass) (cs : List Char) :
    (shape first rest).Measures cs ((shape first rest).length? cs) := by
  simp only [length?]
  split
  next hfits =>
    obtain ⟨text, ⟨after, rfl⟩, hall⟩ := fits_iff.mp hfits
    rw [show rest.length + 1 = text.length from hall.length_eq]
    refine measures_some after rfl hall fun other _ hother => ?_
    rw [← List.Forall₂.length_eq hother, hall.length_eq]
  next hfits =>
    intro text htext hcovers
    exact hfits (fits_iff.mpr ⟨text, htext, hcovers⟩)

lemma measures_word (cs : List Char) : word.Measures cs (word.length? cs) := by
  cases cs with
  | nil =>
    rintro text htext ⟨c, rest, rfl, -⟩
    cases prefix_nil.mp htext
  | cons c rest =>
    simp only [length?]
    split
    next hletter =>
      let inWord (d : Char) : Bool := isLetter d || isDigit d
      rw [show 1 + run inWord rest = (c :: rest.takeWhile inWord).length by
        simp only [run, length_cons]; omega]
      refine measures_some (rest.dropWhile inWord) (by simp [takeWhile_append_dropWhile])
        ⟨c, _, rfl, hletter, fun d hd => mem_takeWhile_imp (p := inWord) hd⟩ ?_
      rintro other hother ⟨d, tail, rfl, -, htail⟩
      have hlength := length_le_run (p := inWord) (cons_prefix_cons.mp hother).2 htail
      simpa [run] using hlength
    next hletter =>
      rintro text htext ⟨d, tail, rfl, hd, -⟩
      rw [(cons_prefix_cons.mp htext).1] at hd
      exact hletter hd

lemma placesLength_cases (cs : List Char) :
    (placesLength cs = 0 ∧ ∀ places, places ≠ [] → (∀ c ∈ places, isDigit c = true) → ¬ '.' :: places <+: cs) ∨
      ∃ places rest, cs = '.' :: (places ++ rest) ∧ places ≠ [] ∧ (∀ c ∈ places, isDigit c = true) ∧
        placesLength cs = places.length + 1 ∧
        ∀ other, '.' :: other <+: cs → (∀ c ∈ other, isDigit c = true) → other.length ≤ places.length := by
  unfold placesLength
  split
  next rest =>
    have hwithin : ∀ other, '.' :: other <+: '.' :: rest → (∀ c ∈ other, isDigit c = true) →
        other.length ≤ run isDigit rest :=
      fun other hother hdigits => length_le_run (cons_prefix_cons.mp hother).2 hdigits
    split
    next hzero =>
      refine .inl ⟨rfl, fun places hplaces hdigits hstart => hplaces ?_⟩
      exact eq_nil_of_length_eq_zero (by have := hwithin places hstart hdigits; omega)
    next hrun =>
      refine .inr ⟨rest.takeWhile isDigit, rest.dropWhile isDigit, by rw [takeWhile_append_dropWhile], ?_,
        fun c hc => mem_takeWhile_imp hc, Nat.add_comm _ _, hwithin⟩
      intro hnil
      exact hrun (by rw [run, hnil]; rfl)
  next hshape =>
    refine .inl ⟨rfl, fun places _ _ hstart => ?_⟩
    obtain ⟨rest, rfl⟩ := hstart
    exact hshape _ rfl

lemma measures_number (cs : List Char) : number.Measures cs (number.length? cs) := by
  simp only [length?]
  split
  next hzero =>
    rintro text htext ⟨whole, hwhole, hdigits, hform⟩
    have hstart : whole <+: cs := by
      rcases hform with rfl | ⟨places, -, -, rfl⟩
      · exact htext
      · exact (prefix_append _ _).trans htext
    have hlength := length_le_run hstart hdigits
    exact hwhole (eq_nil_of_length_eq_zero (by omega))
  next hrun =>
    have hdigits : ∀ c ∈ cs.takeWhile isDigit, isDigit c = true := fun c hc => mem_takeWhile_imp hc
    have hne : cs.takeWhile isDigit ≠ [] := fun hnil => hrun (by rw [run, hnil]; rfl)
    have hcs : cs = cs.takeWhile isDigit ++ cs.dropWhile isDigit := takeWhile_append_dropWhile.symm
    have hdrop : cs.drop (run isDigit cs) = cs.dropWhile isDigit := by
      conv_lhs => rw [hcs]
      rw [drop_left']
      rw [run, ← hcs]
    rw [hdrop]
    -- A number with places has all digits before its point, since a point is not a digit.
    have hpoint : ∀ whole places, (∀ c ∈ whole, isDigit c = true) → whole ++ '.' :: places <+: cs →
        whole.length = run isDigit cs ∧ '.' :: places <+: cs.dropWhile isDigit := by
      rintro whole places hwhole ⟨rest, hrest⟩
      rw [append_assoc, cons_append] at hrest
      have hwhole' : run isDigit cs = whole.length := by
        rw [← hrest]
        exact run_append hwhole (by decide) _
      refine ⟨hwhole'.symm, rest, ?_⟩
      rw [← hdrop, hwhole', ← hrest, drop_left']
      · rfl
      · rfl
    rcases placesLength_cases (cs.dropWhile isDigit) with
      ⟨hzero, hnone⟩ | ⟨places, rest, htail, hplaces, hall, hlength, hmost⟩
    · rw [hzero]
      refine measures_some _ hcs ⟨_, hne, hdigits, .inl rfl⟩ ?_
      rintro other hother ⟨whole, -, hwhole, rfl | ⟨places, hplaces, hall, rfl⟩⟩
      · exact length_le_run hother hwhole
      · exact absurd (hpoint whole places hwhole hother).2 (hnone places hplaces hall)
    · have htext : run isDigit cs + placesLength (cs.dropWhile isDigit) =
          (cs.takeWhile isDigit ++ '.' :: places).length := by
        rw [hlength, length_append, length_cons, run]
      rw [htext]
      refine measures_some rest ?_ ⟨_, hne, hdigits, .inr ⟨places, hplaces, hall, rfl⟩⟩ ?_
      · rw [append_assoc, cons_append, ← htail]
        exact hcs
      · rintro other hother ⟨whole, -, hwhole, rfl | ⟨places', -, hall', rfl⟩⟩
        · have hle := length_le_run hother hwhole
          rw [← htext]
          omega
        · obtain ⟨hwhole', hstart⟩ := hpoint whole places' hwhole hother
          have hle := hmost places' hstart hall'
          rw [← htext, length_append, length_cons, hwhole', hlength]
          omega

lemma stringEnd?_append {body : List Char} (h : Quotable body) (rest : List Char) :
    stringEnd? (body ++ '"' :: rest) = some (body.length + 1) := by
  induction h with
  | nil => rfl
  | @plain c body hquote hslash _ ih =>
    rw [cons_append, stringEnd?, ih]
    · rfl
    · rintro rfl
      exact hquote rfl
    · rintro d tail rfl
      exact absurd rfl hslash
    · rintro rfl
      exact absurd rfl hslash
  | @escaped c body hc _ ih =>
    rw [cons_append, cons_append, stringEnd?, if_neg hc, ih]
    rfl

lemma of_stringEnd? (h : stringEnd? cs = some n) :
    ∃ body rest, cs = body ++ '"' :: rest ∧ n = body.length + 1 ∧ Quotable body := by
  fun_induction stringEnd? cs generalizing n with
  | case1 rest =>
    cases h
    exact ⟨[], rest, rfl, rfl, .nil⟩
  | case2 rest => cases h
  | case3 c rest hc ih =>
    obtain ⟨k, hk, rfl⟩ := Option.map_eq_some_iff.mp h
    obtain ⟨body, tail, rfl, rfl, hbody⟩ := ih hk
    exact ⟨'\\' :: c :: body, tail, rfl, rfl, .escaped hc hbody⟩
  | case4 => cases h
  | case5 c rest hquote hslash hlast ih =>
    obtain ⟨k, hk, rfl⟩ := Option.map_eq_some_iff.mp h
    obtain ⟨body, tail, rfl, rfl, hbody⟩ := ih hk
    refine ⟨c :: body, tail, rfl, rfl, .plain ?_ ?_ hbody⟩
    · exact hquote
    · rintro rfl
      cases body with
      | nil => exact hslash _ _ rfl rfl
      | cons d body => exact hslash _ _ rfl rfl
  | case6 => cases h

lemma measures_string (cs : List Char) : string.Measures cs (string.length? cs) := by
  unfold length?
  split
  all_goals try contradiction
  next rest _ =>
    cases hend : stringEnd? rest with
    | none =>
      rintro text ⟨after, hafter⟩ ⟨body, rfl, hbody⟩
      obtain rfl : body ++ '"' :: after = rest := by simpa using hafter
      rw [stringEnd?_append hbody] at hend
      cases hend
    | some n =>
      obtain ⟨body, after, rfl, rfl, hbody⟩ := of_stringEnd? hend
      rw [Option.map_some, show 1 + (body.length + 1) = ('"' :: (body ++ ['"'])).length by simp; omega]
      refine measures_some after (by simp) ⟨body, rfl, hbody⟩ ?_
      rintro other ⟨tail, htail⟩ ⟨body', rfl, hbody'⟩
      have heq : body' ++ '"' :: tail = body ++ '"' :: after := by simpa using htail
      have hend' := stringEnd?_append hbody' tail
      rw [heq, hend] at hend'
      simp at hend' ⊢
      omega
  next hshape =>
    rintro text ⟨rest, rfl⟩ ⟨body, rfl, -⟩
    exact hshape _ rfl rfl

theorem measures_length? (p : Pattern) (cs : List Char) : p.Measures cs (p.length? cs) := by
  cases p with
  | blanks => exact measures_blanks cs
  | lineComment => exact measures_lineComment cs
  | blockComment => exact measures_blockComment cs
  | shape first rest => exact measures_shape first rest cs
  | word => exact measures_word cs
  | number => exact measures_number cs
  | string => exact measures_string cs

/-- The reader finds nothing exactly if no text of the pattern is there. -/
theorem length?_eq_none_iff : p.length? cs = none ↔ p.Absent cs := by
  have hmeasures := p.measures_length? cs
  cases hlength : p.length? cs with
  | none =>
    rw [hlength] at hmeasures
    exact ⟨fun _ => hmeasures, fun _ => rfl⟩
  | some n =>
    rw [hlength] at hmeasures
    constructor
    · intro h
      cases h
    · exact fun habsent => absurd habsent hmeasures.2.not_absent

/-- The reader finds the longest text of the pattern that is there. -/
theorem length?_eq_some_iff : p.length? cs = some n ↔ n ≤ cs.length ∧ p.Longest cs (cs.take n) := by
  have hmeasures := p.measures_length? cs
  cases hlength : p.length? cs with
  | none =>
    rw [hlength] at hmeasures
    constructor
    · intro h
      cases h
    · exact fun h => absurd hmeasures h.2.not_absent
  | some k =>
    rw [hlength] at hmeasures
    constructor
    · rintro ⟨⟩
      exact hmeasures
    · rintro ⟨hn, hlongest⟩
      have hlengths := hlongest.length_eq hmeasures.2
      rw [length_take_of_le hn, length_take_of_le hmeasures.1] at hlengths
      rw [hlengths]

end ChessEval.Pattern
