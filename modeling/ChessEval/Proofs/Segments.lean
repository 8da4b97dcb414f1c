import ChessEval.Proofs.Patterns
import ChessEval.Token.Scan

/-!
# Pieces of a source text

Reading tokens cuts a source text into pieces, each the longest text of the first pattern in the
lexicon that has one at its place. The cut reaches the end of the text or the first place where no
pattern has a text. The pieces hold all characters in their order, so the lines of the tokens are
counted from what stands before them.
-/

namespace ChessEval

open List

variable {pieces : List Piece} {cs rest : List Char} {piece : Piece} {c : Char} {source : String}

namespace Lexeme

variable {table : List (Pattern × Lexeme)} {cs : List Char}

lemma firstOf?_eq_none_iff : firstOf? table cs = none ↔ ∀ entry ∈ table, entry.1.Absent cs := by
  induction table with
  | nil => simp [firstOf?]
  | cons entry rest ih =>
    obtain ⟨p, lexeme⟩ := entry
    rw [firstOf?, forall_mem_cons, ← ih]
    cases hlength : p.length? cs with
    | none => simp [Pattern.length?_eq_none_iff.mp hlength]
    | some n =>
      have hpresent : ¬p.Absent cs := (Pattern.length?_eq_some_iff.mp hlength).2.not_absent
      simp [hpresent]

lemma firstOf?_eq_some_iff {lexeme : Lexeme} {n : Nat} :
    firstOf? table cs = some (lexeme, n) ↔
      ∃ before p after, table = before ++ (p, lexeme) :: after ∧ (∀ entry ∈ before, entry.1.Absent cs) ∧
        n ≤ cs.length ∧ p.Longest cs (cs.take n) := by
  induction table with
  | nil => simp [firstOf?]
  | cons entry rest ih =>
    obtain ⟨q, other⟩ := entry
    rw [firstOf?]
    cases hlength : q.length? cs with
    | none =>
      rw [ih]
      have habsent := Pattern.length?_eq_none_iff.mp hlength
      constructor
      · rintro ⟨before, p, after, rfl, hbefore, hp⟩
        exact ⟨(q, other) :: before, p, after, rfl, forall_mem_cons.mpr ⟨habsent, hbefore⟩, hp⟩
      · rintro ⟨before, p, after, heq, hbefore, hp⟩
        cases before with
        | nil =>
          cases heq
          exact absurd habsent hp.2.not_absent
        | cons first before =>
          obtain ⟨-, rfl⟩ := List.cons.inj heq
          exact ⟨before, p, after, rfl, (forall_mem_cons.mp hbefore).2, hp⟩
    | some k =>
      have hlongest := Pattern.length?_eq_some_iff.mp hlength
      constructor
      · rintro ⟨⟩
        exact ⟨[], q, rest, rfl, by simp, hlongest⟩
      · rintro ⟨before, p, after, heq, hbefore, hp⟩
        cases before with
        | nil =>
          cases heq
          have hsame : some k = some n := hlength.symm.trans (Pattern.length?_eq_some_iff.mpr hp)
          simp [Option.some.inj hsame]
        | cons first before =>
          obtain ⟨rfl, rfl⟩ := List.cons.inj heq
          exact absurd (hbefore _ mem_cons_self) hlongest.2.not_absent

end Lexeme

/-- A piece of a source text: the pattern by which it was found, what it becomes, and its characters. -/
structure Piece where
  pattern : Pattern
  lexeme : Lexeme
  text : List Char

/-- The line on which a text goes on: one more than it has newlines, as far as the counter of lines reaches. -/
def lineAfter (text : List Char) : Nat :=
  (1 + text.count '\n') % UInt32.size

/-- The cursor of a text after another one. -/
def cursorAfter (before rest : List Char) : Text.Cursor :=
  ⟨rest, UInt32.ofNat (1 + before.count '\n')⟩

lemma toNat_line_cursorAfter (before rest : List Char) : (cursorAfter before rest).line.toNat = lineAfter before :=
  UInt32.toNat_ofNat'

lemma advance_cursorAfter (before text tail : List Char) :
    (cursorAfter before (text ++ tail)).advance (Text.byteCount text) = cursorAfter (before ++ text) tail := by
  rw [cursorAfter, Text.Cursor.advance_append, ← UInt32.ofNat_add, cursorAfter, count_append, Nat.add_assoc]

namespace Piece

/-- A piece at the start of a text: no pattern before its own in the lexicon has a text there, and its
own has none that is longer. -/
def Leads (piece : Piece) (cs : List Char) : Prop :=
  ∃ before after, Lexeme.lexicon = before ++ (piece.pattern, piece.lexeme) :: after ∧
    (∀ entry ∈ before, entry.1.Absent cs) ∧ piece.pattern.Longest cs piece.text

def texts (pieces : List Piece) : List Char :=
  pieces.flatMap Piece.text

/-- Pieces into which a text is cut from its start up to a rest. -/
inductive Cut : List Piece → List Char → List Char → Prop
  | done (rest : List Char) : Cut [] rest rest
  | next {piece : Piece} {pieces : List Piece} {tail rest : List Char} :
      piece.Leads (piece.text ++ tail) → Cut pieces tail rest → Cut (piece :: pieces) (piece.text ++ tail) rest

lemma Cut.texts_append (h : Cut pieces cs rest) : texts pieces ++ rest = cs := by
  induction h with
  | done rest => rfl
  | next _ _ ih => rw [texts, flatMap_cons, append_assoc, ← texts, ih]

/-- The token that a piece after a text spells, with the lines counted from that text. -/
def token? (before : List Char) (piece : Piece) : Option Token :=
  (piece.lexeme.token? piece.text 0 0).map fun token =>
    { token with line := lineAfter before, endLine := lineAfter (before ++ piece.text) }

def tokens (before : List Char) : List Piece → List Token
  | [] => []
  | piece :: rest => (piece.token? before).toList ++ tokens (before ++ piece.text) rest

lemma Leads.mem (h : piece.Leads cs) : (piece.pattern, piece.lexeme) ∈ Lexeme.lexicon := by
  obtain ⟨before, after, heq, -⟩ := h
  rw [heq]
  simp

lemma Leads.longest (h : piece.Leads cs) : piece.pattern.Longest cs piece.text := by
  obtain ⟨-, -, -, -, hlongest⟩ := h
  exact hlongest

lemma Leads.first? (h : piece.Leads cs) : Lexeme.first? cs = some (piece.lexeme, piece.text.length) := by
  obtain ⟨before, after, heq, hbefore, hlongest⟩ := h
  have htake : cs.take piece.text.length = piece.text := (prefix_iff_eq_take.mp hlongest.start).symm
  refine Lexeme.firstOf?_eq_some_iff.mpr ⟨before, piece.pattern, after, heq, hbefore, hlongest.start.length_le, ?_⟩
  rwa [htake]

lemma exists_leads {lexeme : Lexeme} {n : Nat} (h : Lexeme.first? cs = some (lexeme, n)) :
    ∃ piece : Piece, piece.Leads cs ∧ piece.text.length = n := by
  obtain ⟨before, p, after, heq, hbefore, hn, hlongest⟩ := Lexeme.firstOf?_eq_some_iff.mp h
  exact ⟨⟨p, lexeme, cs.take n⟩, ⟨before, after, heq, hbefore, hlongest⟩, length_take_of_le hn⟩

def visibleClass : CharClass → Bool
  | .exactly c => !Text.isBlank c
  | .fileLetter | .rowDigit => true

def visible : Pattern → Bool
  | .shape first rest => (first :: rest).all visibleClass
  | .word | .number => true
  | .blanks | .lineComment | .blockComment | .string => false

lemma isBlank_of_graphic {low high : Char} (hbang : '!' ≤ low) (htilde : high ≤ '~') (hlow : low ≤ c)
    (hhigh : c ≤ high) : Text.isBlank c = false := by
  have hmin : 33 ≤ c.toNat := Char.le_trans hbang hlow
  have hmax : c.toNat ≤ 126 := Char.le_trans hhigh htilde
  simp [Text.isBlank]
  omega

lemma isBlank_of_isDigit (h : Pattern.isDigit c = true) : Text.isBlank c = false := by
  obtain ⟨hlow, hhigh⟩ : '0' ≤ c ∧ c ≤ '9' := by simpa [Pattern.isDigit] using h
  exact isBlank_of_graphic (by decide) (by decide) hlow hhigh

lemma isBlank_of_isLetter (h : Pattern.isLetter c = true) : Text.isBlank c = false := by
  simp only [Pattern.isLetter, Bool.or_eq_true, Bool.and_eq_true, decide_eq_true_eq, beq_iff_eq] at h
  rcases h with (⟨hlow, hhigh⟩ | ⟨hlow, hhigh⟩) | rfl
  · exact isBlank_of_graphic (by decide) (by decide) hlow hhigh
  · exact isBlank_of_graphic (by decide) (by decide) hlow hhigh
  · rfl

lemma isBlank_of_visibleClass {p : CharClass} (hp : visibleClass p = true) (h : p.holds c = true) :
    Text.isBlank c = false := by
  cases p with
  | exactly d =>
    obtain rfl : d = c := by simpa [CharClass.holds] using h
    simpa [visibleClass] using hp
  | fileLetter =>
    obtain ⟨hlow, hhigh⟩ : 'a' ≤ c ∧ c ≤ 'h' := by simpa [CharClass.holds] using h
    exact isBlank_of_graphic (by decide) (by decide) hlow hhigh
  | rowDigit =>
    obtain ⟨hlow, hhigh⟩ : '1' ≤ c ∧ c ≤ '8' := by simpa [CharClass.holds] using h
    exact isBlank_of_graphic (by decide) (by decide) hlow hhigh

lemma isBlank_of_visible {p : Pattern} {text : List Char} (hp : visible p = true) (h : p.Covers text) :
    ∀ c ∈ text, Text.isBlank c = false := by
  cases p with
  | shape first rest =>
    intro c hc
    obtain ⟨i, hi, rfl⟩ := getElem_of_mem hc
    have hclass := forall₂_iff_get.mp h
    exact isBlank_of_visibleClass (all_eq_true.mp hp _ (get_mem _ ⟨i, hclass.1 ▸ hi⟩))
      (hclass.2 i (hclass.1 ▸ hi) hi)
  | word =>
    obtain ⟨c, rest, rfl, hc, hrest⟩ := h
    rw [forall_mem_cons]
    refine ⟨isBlank_of_isLetter hc, fun d hd => ?_⟩
    rcases Bool.or_eq_true_iff.mp (hrest d hd) with hletter | hdigit
    · exact isBlank_of_isLetter hletter
    · exact isBlank_of_isDigit hdigit
  | number =>
    obtain ⟨whole, -, hwhole, rfl | ⟨places, -, hplaces, rfl⟩⟩ := h
    · exact fun c hc => isBlank_of_isDigit (hwhole c hc)
    · intro c hc
      rcases mem_append.mp hc with hc | hc
      · exact isBlank_of_isDigit (hwhole c hc)
      rcases mem_cons.mp hc with rfl | hc
      · rfl
      · exact isBlank_of_isDigit (hplaces c hc)
  | blanks => cases hp
  | lineComment => cases hp
  | blockComment => cases hp
  | string => cases hp

lemma visible_of_lexicon : ∀ entry ∈ Lexeme.lexicon, entry.2 ≠ .gap → entry.2 ≠ .string → visible entry.1 = true := by
  decide

/-- Only a string can hold a newline, so all other tokens end on the line on which they start. -/
lemma Leads.token?_eq (h : piece.Leads cs) (before : List Char) :
    piece.lexeme.token? piece.text (lineAfter before) (lineAfter (before ++ piece.text)) = piece.token? before := by
  have hline : piece.lexeme ≠ .gap → piece.lexeme ≠ .string →
      lineAfter (before ++ piece.text) = lineAfter before := by
    intro hgap hstring
    have hvisible := isBlank_of_visible (visible_of_lexicon _ h.mem hgap hstring) h.longest.covers
    rw [lineAfter, count_append, count_eq_zero_of_not_mem (a := '\n') (l := piece.text), Nat.add_zero, ← lineAfter]
    exact fun hmem => absurd (hvisible _ hmem) (by decide)
  unfold token?
  cases hlexeme : piece.lexeme with
  | gap | string => rfl
  | token | word =>
    rw [hline (by simp [hlexeme]) (by simp [hlexeme])]
    rfl

end Piece

namespace Token

open Piece

lemma scan_of_leads {tail : List Char} (h : piece.Leads (piece.text ++ tail)) (before : List Char) :
    scan (cursorAfter before (piece.text ++ tail)) =
      (scan (cursorAfter (before ++ piece.text) tail)).map ((piece.token? before).toList ++ ·) := by
  have hfirst := h.first?
  have hpos := Lexeme.first?_pos hfirst
  have hend : ¬ (cursorAfter before (piece.text ++ tail)).atEnd = true := by
    simp [Text.Cursor.atEnd, cursorAfter, ne_nil_of_length_pos hpos]
  have htake : (cursorAfter before (piece.text ++ tail)).rest.take piece.text.length = piece.text := take_left
  rw [scan.eq_def, dif_neg hend]
  dsimp only
  split
  next hnone => cases hnone.symm.trans hfirst
  next lexeme n hsome =>
    cases hsome.symm.trans hfirst
    rw [htake, advance_cursorAfter, toNat_line_cursorAfter, toNat_line_cursorAfter, h.token?_eq before]
    cases scan (cursorAfter (before ++ piece.text) tail) <;> rfl

/-- Reading along a cut gives the tokens of its pieces. -/
theorem scan_of_cut (h : Cut pieces cs rest) (before : List Char) :
    scan (cursorAfter before cs) =
      (scan (cursorAfter (before ++ texts pieces) rest)).map (Piece.tokens before pieces ++ ·) := by
  induction h generalizing before with
  | done rest =>
    rw [texts, flatMap_nil, append_nil]
    cases scan (cursorAfter before rest) <;> rfl
  | @next piece pieces tail rest hlead _ ih =>
    have htexts : before ++ texts (piece :: pieces) = before ++ piece.text ++ texts pieces := by
      rw [texts, flatMap_cons, append_assoc]
      rfl
    rw [scan_of_leads hlead, ih, htexts]
    cases scan (cursorAfter (before ++ piece.text ++ texts pieces) rest) with
    | error e => rfl
    | ok found => simp [Except.map, Piece.tokens]

/-- Every text can be cut up to its end or to a place where no pattern has a text. -/
theorem exists_cut (cs : List Char) :
    ∃ pieces rest, Cut pieces cs rest ∧ ∀ entry ∈ Lexeme.lexicon, entry.1.Absent rest := by
  induction hlength : cs.length using Nat.strong_induction_on generalizing cs with
  | _ n ih =>
    cases hfirst : Lexeme.first? cs with
    | none => exact ⟨[], cs, .done cs, Lexeme.firstOf?_eq_none_iff.mp hfirst⟩
    | some found =>
      obtain ⟨lexeme, k⟩ := found
      obtain ⟨piece, hlead, rfl⟩ := exists_leads hfirst
      obtain ⟨tail, rfl⟩ := hlead.longest.start
      have hpos := Lexeme.first?_pos hfirst
      obtain ⟨pieces, rest, hcut, habsent⟩ := ih tail.length (by rw [← hlength, length_append]; omega) tail rfl
      exact ⟨piece :: pieces, rest, .next hlead hcut, habsent⟩

lemma scan_of_absent (h : ∀ entry ∈ Lexeme.lexicon, entry.1.Absent (c :: rest)) (before : List Char) :
    scan (cursorAfter before (c :: rest)) = .error (cursorAfter before (c :: rest)) := by
  have hfirst : Lexeme.first? (c :: rest) = none := Lexeme.firstOf?_eq_none_iff.mpr h
  have hend : ¬ (cursorAfter before (c :: rest)).atEnd = true := Bool.false_ne_true
  rw [scan.eq_def, dif_neg hend]
  split
  next => rfl
  next hsome => cases hsome.symm.trans hfirst

lemma scan_nil (before : List Char) : scan (cursorAfter before []) = .ok [eof (lineAfter before)] := by
  have hend : (cursorAfter before []).atEnd = true := rfl
  rw [scan.eq_def, dif_pos hend, toNat_line_cursorAfter]

lemma ofSource_of_cut (h : Cut pieces source.toList []) (file : String) :
    ofSource source file = .ok (Piece.tokens [] pieces ++ [eof (lineAfter source.toList)]) := by
  have hscan := scan_of_cut h []
  have htexts : texts pieces = source.toList := by simpa using h.texts_append
  rw [nil_append, htexts, scan_nil] at hscan
  rw [ofSource, show Text.Cursor.ofText source = cursorAfter [] source.toList from rfl, hscan]
  rfl

lemma ofSource_of_absent (h : Cut pieces source.toList (c :: rest))
    (habsent : ∀ entry ∈ Lexeme.lexicon, entry.1.Absent (c :: rest)) (file : String) : ofSource source file =
      .error ⟨.unrecognisedToken (String.singleton c), lineAfter (texts pieces), file⟩ := by
  have hscan := scan_of_cut h []
  rw [scan_of_absent habsent] at hscan
  rw [nil_append] at hscan
  rw [ofSource, show Text.Cursor.ofText source = cursorAfter [] source.toList from rfl, hscan,
    ← toNat_line_cursorAfter (texts pieces) (c :: rest)]
  rfl

lemma exists_cut_of_ofSource {file : String} {tokens : List Token} (h : ofSource source file = .ok tokens) :
    ∃ pieces, Cut pieces source.toList [] := by
  obtain ⟨pieces, rest, hcut, habsent⟩ := exists_cut source.toList
  cases rest with
  | nil => exact ⟨pieces, hcut⟩
  | cons c rest =>
    rw [ofSource_of_absent hcut habsent] at h
    cases h

end Token

end ChessEval
