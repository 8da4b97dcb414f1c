import ChessEval.Proofs.Runs
import ChessEval.Proofs.Segments

/-!
# Reading tokens again

A token can be written as the text that it was read from, or as a string literal if it is a string.
The tokens of a source text, written with single spaces between them, are read as the same tokens
again: no pattern that has a text at the start of a written token reaches beyond the token.
-/

namespace ChessEval

open List

variable {rest cs : List Char} {piece : Piece}

def Token.spelling (token : Token) : String :=
  if token.kind = .string then Text.literal token.text else token.text

def Token.content (token : Token) : TokenKind × String :=
  (token.kind, token.text)

namespace Pattern

def canStart : Pattern → Char → Bool
  | .blanks, c => Text.isBlank c
  | .lineComment, c | .blockComment, c => c == '/'
  | .shape first _, c => first.holds c
  | .word, c => isLetter c
  | .number, c => isDigit c
  | .string, c => c == '"'

lemma Covers.exists_cons {p : Pattern} {text : List Char} (h : p.Covers text) :
    ∃ c rest, text = c :: rest ∧ p.canStart c = true := by
  cases p with
  | blanks =>
    obtain ⟨c, rest, rfl⟩ := exists_cons_of_ne_nil h.1
    exact ⟨c, rest, rfl, h.2 c mem_cons_self⟩
  | lineComment | blockComment | string =>
    obtain ⟨body, rfl, -⟩ := h
    exact ⟨_, _, rfl, rfl⟩
  | shape first rest =>
    cases h with
    | cons hfirst _ => exact ⟨_, _, rfl, hfirst⟩
  | word =>
    obtain ⟨c, rest, rfl, hc, -⟩ := h
    exact ⟨c, rest, rfl, hc⟩
  | number =>
    obtain ⟨whole, hne, hwhole, rfl | ⟨places, -, -, rfl⟩⟩ := h
    · obtain ⟨c, rest, rfl⟩ := exists_cons_of_ne_nil hne
      exact ⟨c, rest, rfl, hwhole c mem_cons_self⟩
    · obtain ⟨c, rest, rfl⟩ := exists_cons_of_ne_nil hne
      exact ⟨c, rest ++ '.' :: places, rfl, hwhole c mem_cons_self⟩

lemma absent_of_not_canStart {p : Pattern} {c : Char} (h : p.canStart c = false) (rest : List Char) :
    p.Absent (c :: rest) := by
  intro text htext hcovers
  obtain ⟨d, tail, rfl, hd⟩ := hcovers.exists_cons
  rw [(cons_prefix_cons.mp htext).1, h] at hd
  cases hd

lemma quotable_append_literalChar (c : Char) (h : Quotable rest) : Quotable (Text.literalChar c ++ rest) := by
  unfold Text.literalChar
  split
  · exact .escaped (by decide) h
  · exact .escaped (by decide) h
  · exact .escaped (by decide) h
  · exact .escaped (by decide) h
  · next hquote hslash _ _ => exact .plain hquote hslash h

lemma quotable_literal (text : List Char) : Quotable (text.flatMap Text.literalChar) := by
  induction text with
  | nil => exact .nil
  | cons c rest ih => exact quotable_append_literalChar c ih

end Pattern

namespace Lexeme

lemma unescape_append_literalChar (c : Char) (rest : List Char) :
    unescape (Text.literalChar c ++ rest) = c :: unescape rest := by
  unfold Text.literalChar
  split
  · rfl
  · rfl
  · rfl
  · rfl
  · next hslash _ _ =>
    rw [singleton_append, unescape]
    all_goals
      intro _ hc
      exact absurd hc hslash

lemma unescape_literal (text : List Char) : unescape (text.flatMap Text.literalChar) = text := by
  induction text with
  | nil => rfl
  | cons c rest ih => rw [flatMap_cons, unescape_append_literalChar, ih]

end Lexeme

namespace Piece

lemma shape_of_canStart : ∀ entry ∈ Lexeme.lexicon, visible entry.1 = true →
    entry.1.canStart '"' = false ∧ (entry.1.canStart '/' = true → entry.1 = .shape (.exactly '/') []) := by
  decide

lemma pattern_of_not_visible : ∀ entry ∈ Lexeme.lexicon, visible entry.1 = false →
    entry.1 ∈ [.blanks, .lineComment, .blockComment, .string] := by
  decide

/-- The text that follows a written token: nothing, or a space. -/
def Ends (rest : List Char) : Prop :=
  ∀ c ∈ rest.head?, c = ' '

lemma text_of_slash {word : List Char} (h : piece.Leads cs) (hvisible : visible piece.pattern = true)
    (hword : piece.text = '/' :: word) : piece.text = ['/'] := by
  have hcovers := h.longest.covers
  obtain ⟨c, tail, htail, hc⟩ := hcovers.exists_cons
  obtain rfl : '/' = c := (List.cons.inj (hword.symm.trans htail)).1
  rw [show piece.pattern = .shape (.exactly '/') [] from (shape_of_canStart _ h.mem hvisible).2 hc] at hcovers
  have hlength : 1 = piece.text.length := List.Forall₂.length_eq hcovers
  rw [hword] at hlength ⊢
  rw [eq_nil_of_length_eq_zero (Nat.succ.inj hlength).symm]

lemma Leads.start_of_covers {text : List Char} (h : piece.Leads cs) (hvisible : visible piece.pattern = true)
    (hends : Ends rest) {entry : Pattern × Lexeme} (hentry : entry ∈ Lexeme.lexicon) (hcovers : entry.1.Covers text)
    (hstart : text <+: piece.text ++ rest) : text <+: piece.text := by
  have hblanks := isBlank_of_visible hvisible h.longest.covers
  obtain ⟨c, word, hword, hc⟩ := h.longest.covers.exists_cons
  by_contra hbeyond
  -- A text that goes on holds the space after the token.
  obtain ⟨more, rfl⟩ : ∃ more, text = piece.text ++ ' ' :: more := by
    rcases Nat.le_total text.length piece.text.length with hle | hle
    · exact absurd (prefix_of_prefix_length_le hstart (prefix_append _ _) hle) hbeyond
    obtain ⟨tail, rfl⟩ := prefix_of_prefix_length_le (prefix_append _ _) hstart hle
    have htail : tail <+: rest := by simpa using hstart
    cases tail with
    | nil => exact absurd (by simp) hbeyond
    | cons d more =>
      obtain ⟨after, rfl⟩ := htail
      exact ⟨more, by rw [hends d rfl]⟩
  have hspace : ' ' ∈ piece.text ++ ' ' :: more := by simp
  cases hsame : visible entry.1 with
  | true => exact absurd (isBlank_of_visible hsame hcovers ' ' hspace) (by decide)
  | false =>
    have hpattern := pattern_of_not_visible entry hentry hsame
    obtain ⟨d, tail, htail, hd⟩ := hcovers.exists_cons
    rw [hword] at htail
    obtain rfl : c = d := (List.cons.inj htail).1
    simp only [mem_cons, not_mem_nil, or_false] at hpattern
    rcases hpattern with hp | hp | hp | hp
    · have hblank : Text.isBlank c = true := by simpa [hp, Pattern.canStart] using hd
      exact absurd (hblanks c (by simp [hword])) (by simp [hblank])
    · obtain rfl : c = '/' := by simpa [hp, Pattern.canStart] using hd
      rw [hp, text_of_slash h hvisible hword] at hcovers
      obtain ⟨body, hbody, -⟩ := hcovers
      cases hbody
    · obtain rfl : c = '/' := by simpa [hp, Pattern.canStart] using hd
      rw [hp, text_of_slash h hvisible hword] at hcovers
      obtain ⟨body, hbody, -⟩ := hcovers
      cases hbody
    · obtain rfl : c = '"' := by simpa [hp, Pattern.canStart] using hd
      rw [(shape_of_canStart _ h.mem hvisible).1] at hc
      cases hc

lemma Leads.again (h : piece.Leads cs) (hvisible : visible piece.pattern = true) (hends : Ends rest) :
    piece.Leads (piece.text ++ rest) := by
  obtain ⟨before, after, hlexicon, hbefore, hlongest⟩ := id h
  refine ⟨before, after, hlexicon, fun entry hentry text htext hcovers => ?_,
    prefix_append _ _, hlongest.covers, fun other hother hcovers => ?_⟩
  · have hmem : entry ∈ Lexeme.lexicon := by simp [hlexicon, hentry]
    have hwithin := h.start_of_covers hvisible hends hmem hcovers htext
    exact hbefore entry hentry text (hwithin.trans hlongest.start) hcovers
  · exact (h.start_of_covers hvisible hends h.mem hcovers hother).length_le

def ofLiteral (text : String) : Piece :=
  ⟨.string, .string, '"' :: (text.toList.flatMap Text.literalChar ++ ['"'])⟩

lemma toList_literal (text : String) : (Text.literal text).toList = (ofLiteral text).text := by
  rw [Text.literal, String.toList_ofList, append_assoc, singleton_append, ofLiteral]

lemma leads_ofLiteral (text : String) (rest : List Char) :
    (ofLiteral text).Leads ((ofLiteral text).text ++ rest) := by
  have hcovers : Pattern.string.Covers (ofLiteral text).text :=
    ⟨_, rfl, Pattern.quotable_literal _⟩
  refine ⟨Lexeme.lexicon.take 13, Lexeme.lexicon.drop 14, rfl, ?_, prefix_append _ _, hcovers, ?_⟩
  · have hquote : ∀ entry ∈ Lexeme.lexicon.take 13, entry.1.canStart '"' = false := by decide
    intro entry hentry
    exact Pattern.absent_of_not_canStart (hquote entry hentry) _
  · have hend := Pattern.stringEnd?_append (Pattern.quotable_literal text.toList) rest
    have hlength : Pattern.string.length? ((ofLiteral text).text ++ rest) = some (ofLiteral text).text.length := by
      rw [ofLiteral, cons_append, append_assoc, singleton_append, Pattern.length?, hend]
      simp
      omega
    have hlongest := (Pattern.length?_eq_some_iff.mp hlength).2
    rw [take_left] at hlongest
    exact hlongest.longest

lemma token?_ofLiteral (text : String) (before : List Char) :
    (ofLiteral text).token? before =
      some ⟨.string, text, lineAfter before, lineAfter (before ++ (ofLiteral text).text)⟩ := by
  have hbody : ((ofLiteral text).text.drop 1).dropLast = text.toList.flatMap Text.literalChar := by
    rw [ofLiteral, drop_one, tail_cons, dropLast_concat]
  have htoken : Lexeme.string.token? (ofLiteral text).text 0 0 = some ⟨.string, text, 0, 0⟩ := by
    rw [Lexeme.token?, hbody, Lexeme.unescape_literal, String.ofList_toList]
  change (Lexeme.string.token? (ofLiteral text).text 0 0).map _ = _
  rw [htoken]
  rfl

/-- A piece that a written token is read as, whatever follows after a space. -/
structure Respells (token : Token) (piece : Piece) : Prop where
  text : piece.text = token.spelling.toList
  content : ∀ before, ((piece.token? before).map Token.content) = some token.content
  leads : ∀ rest, Ends rest → piece.Leads (piece.text ++ rest)
  visible : ∃ c rest, piece.text = c :: rest ∧ Text.isBlank c = false

lemma kind_of_lexicon : ∀ entry ∈ Lexeme.lexicon, ∀ kind, entry.2 = .token kind → kind ≠ .string := by
  have hkinds : ∀ entry ∈ Lexeme.lexicon, entry.2 ≠ .token .string := by decide
  rintro entry hentry kind hkind rfl
  exact hkinds entry hentry hkind

lemma reserved?_ne_string (word : String) : (reserved? word).getD .identifier ≠ .string := by
  have hkinds : ∀ entry ∈ reservedWords, entry.2 ≠ .string := by decide
  cases hlookup : reserved? word with
  | none => decide
  | some kind =>
    obtain ⟨l₁, l₂, heq, -⟩ := lookup_eq_some_iff.mp hlookup
    exact hkinds (word, kind) (by simp [heq])

lemma respells_ofLiteral (text : String) (line endLine : Nat) :
    Respells ⟨.string, text, line, endLine⟩ (ofLiteral text) := by
  have hspelling : Token.spelling ⟨.string, text, line, endLine⟩ = Text.literal text := if_pos rfl
  refine ⟨?_, fun before => ?_, fun rest _ => leads_ofLiteral text rest, ?_⟩
  · rw [hspelling, toList_literal]
  · rw [token?_ofLiteral, Option.map_some]
    rfl
  · exact ⟨_, _, rfl, rfl⟩

lemma Leads.exists_respells {before : List Char} {token : Token} (h : piece.Leads cs)
    (htoken : piece.token? before = some token) : ∃ piece', Respells token piece' := by
  obtain ⟨found, hfound, rfl⟩ := Option.map_eq_some_iff.mp htoken
  by_cases hstring : piece.lexeme = .string
  · -- A string may have been written in another way before.
    obtain ⟨text, rfl⟩ : ∃ text, found = ⟨.string, text, 0, 0⟩ := by
      rw [hstring] at hfound
      exact ⟨_, (Option.some.inj hfound).symm⟩
    exact ⟨ofLiteral text, respells_ofLiteral text _ _⟩
  have hgap : piece.lexeme ≠ .gap := by
    intro hgap
    rw [hgap] at hfound
    cases hfound
  have hvisible := visible_of_lexicon _ h.mem hgap hstring
  have hplain : found.kind ≠ .string ∧ found.text = String.ofList piece.text := by
    cases hlexeme : piece.lexeme with
    | gap => exact absurd hlexeme hgap
    | token kind =>
      rw [hlexeme] at hfound
      cases hfound
      exact ⟨kind_of_lexicon _ h.mem kind hlexeme, rfl⟩
    | word =>
      rw [hlexeme] at hfound
      cases hfound
      exact ⟨reserved?_ne_string _, rfl⟩
    | string => exact absurd hlexeme hstring
  refine ⟨piece, ?_, fun before => ?_, fun rest hends => h.again hvisible hends, ?_⟩
  · rw [Token.spelling, if_neg hplain.1, hplain.2, String.toList_ofList]
  · rw [token?, hfound]
    rfl
  · obtain ⟨c, rest, htext, -⟩ := h.longest.covers.exists_cons
    exact ⟨c, rest, htext, isBlank_of_visible hvisible h.longest.covers c (by simp [htext])⟩

def space : Piece :=
  ⟨.blanks, .gap, [' ']⟩

lemma isBlank_of_mem_space (c : Char) (h : c ∈ space.text) : Text.isBlank c = true := by
  rw [mem_singleton.mp h]
  rfl

lemma leads_space (h : ∀ c ∈ rest.head?, Text.isBlank c = false) : space.Leads (space.text ++ rest) := by
  refine ⟨[], Lexeme.lexicon.tail, rfl, by simp, prefix_append _ _, ⟨by simp [space], isBlank_of_mem_space⟩, ?_⟩
  rintro other hother ⟨-, hblanks⟩
  have hrun := Pattern.length_le_run hother hblanks
  cases rest with
  | nil => simpa [Pattern.run, space] using hother.length_le
  | cons c rest =>
    rwa [Pattern.run_append isBlank_of_mem_space (h c rfl)] at hrun

def spaced (words : List Token) : List Char :=
  [' '].intercalate (words.map fun token => token.spelling.toList)

/-- Written tokens with single spaces between them are read one by one. -/
theorem exists_cut_spaced {words : List Token} (h : ∀ token ∈ words, ∃ piece, Respells token piece) :
    ∃ pieces, Cut pieces (spaced words) [] ∧ (∀ c ∈ (spaced words).head?, Text.isBlank c = false) ∧
      ∀ before, (tokens before pieces).map Token.content = words.map Token.content := by
  induction words with
  | nil => exact ⟨[], .done [], by simp [spaced], fun _ => rfl⟩
  | cons token rest ih =>
    obtain ⟨⟨piece, hpiece⟩, hrest⟩ := forall_mem_cons.mp h
    obtain ⟨c, word, hword, hc⟩ := hpiece.visible
    have htokens : ∀ pieces before, (tokens before (piece :: pieces)).map Token.content =
        token.content :: (tokens (before ++ piece.text) pieces).map Token.content := by
      intro pieces before
      obtain ⟨found, hfound, hcontent⟩ := Option.map_eq_some_iff.mp (hpiece.content before)
      rw [tokens, hfound, ← hcontent]
      rfl
    cases rest with
    | nil =>
      have hspaced : spaced [token] = piece.text ++ [] := by simp [spaced, hpiece.text]
      rw [hspaced]
      refine ⟨[piece], .next (hpiece.leads [] (by simp [Ends])) (.done []), ?_, fun before => htokens [] before⟩
      simp [hword, hc]
    | cons second rest =>
      obtain ⟨pieces, hcut, hhead, hcontent⟩ := ih hrest
      have hspaced : spaced (token :: second :: rest) = piece.text ++ (space.text ++ spaced (second :: rest)) := by
        simp [spaced, hpiece.text, space]
      rw [hspaced]
      have hends : Ends (space.text ++ spaced (second :: rest)) := by simp [Ends, space]
      refine ⟨piece :: space :: pieces, .next (hpiece.leads _ hends) (.next (leads_space hhead) hcut), ?_, ?_⟩
      · simp [hword, hc]
      · intro before
        rw [htokens, map_cons, ← hcontent (before ++ piece.text ++ space.text)]
        rfl

lemma Cut.exists_respells {pieces : List Piece} (h : Cut pieces cs rest) (before : List Char) :
    ∀ token ∈ tokens before pieces, ∃ piece, Respells token piece := by
  induction h generalizing before with
  | done => simp [tokens]
  | next hlead _ ih =>
    intro token htoken
    rcases mem_append.mp htoken with htoken | htoken
    · exact hlead.exists_respells (Option.mem_toList.mp htoken)
    · exact ih _ token htoken

lemma newline_not_mem_ofLiteral (text : String) : '\n' ∉ (ofLiteral text).text := by
  have hchar : ∀ c, '\n' ∉ Text.literalChar c := by
    intro c
    unfold Text.literalChar
    split
    · decide
    · decide
    · decide
    · decide
    · next hnewline _ => simpa [eq_comm] using hnewline
  simp [ofLiteral, hchar]

end Piece

namespace Token

open Piece

lemma ofSource_literal (text file : String) :
    ofSource (Text.literal text) file = .ok [⟨.string, text, 1, 1⟩, eof 1] := by
  have hcut : Cut [ofLiteral text] (Text.literal text).toList [] := by
    rw [toList_literal, ← append_nil (ofLiteral text).text]
    exact .next (leads_ofLiteral text []) (.done [])
  have hline : lineAfter (ofLiteral text).text = 1 := by
    rw [lineAfter, count_eq_zero_of_not_mem (newline_not_mem_ofLiteral text)]
    rfl
  have htokens : Piece.tokens [] [ofLiteral text] = [⟨.string, text, 1, 1⟩] := by
    rw [Piece.tokens, token?_ofLiteral, nil_append, hline]
    rfl
  rw [ofSource_of_cut hcut, htokens, toList_literal, hline]
  rfl

/-- The tokens of a source text, written with single spaces between them, are read as tokens of the same
kinds and texts, and a string literal is read as the text that it was written for. -/
theorem reading_again {source file : String} {tokens : List Token} (h : ofSource source file = .ok tokens) :
    (∃ words line words' line', tokens = words ++ [eof line] ∧
      ofSource (" ".intercalate (words.map spelling)) file = .ok (words' ++ [eof line']) ∧
      words'.map content = words.map content) ∧
    ∀ text, ofSource (Text.literal text) file = .ok [⟨.string, text, 1, 1⟩, eof 1] := by
  refine ⟨?_, fun text => ofSource_literal text file⟩
  obtain ⟨pieces, hcut⟩ := exists_cut_of_ofSource h
  have htokens : tokens = Piece.tokens [] pieces ++ [eof (lineAfter source.toList)] := by
    rw [ofSource_of_cut hcut] at h
    exact (Except.ok.inj h).symm
  obtain ⟨pieces', hcut', -, hcontent⟩ := exists_cut_spaced (hcut.exists_respells [])
  have hspaced : (" ".intercalate ((Piece.tokens [] pieces).map spelling)).toList =
      spaced (Piece.tokens [] pieces) := by
    rw [String.toList_intercalate, map_map]
    rfl
  rw [← hspaced] at hcut'
  exact ⟨_, _, _, _, htokens, ofSource_of_cut hcut' file, hcontent []⟩

/-- Literals and ranges of the board that share their first characters, a number before a point, signs
in a row, a comment, and a string with one escape that is kept and one that is not. -/
theorem reading_again_mixed :
    ∃ tokens, ofSource "$a1..$b2 $a..$b $a9 1.5. x++ /* * */ +\n\"a\\q\\n\"" "" = .ok tokens ∧
      tokens.map Token.kind = [.cellRange, .fileRange, .fileLiteral, .number, .number, .dot, .identifier,
        .plusPlus, .plus, .string, .eof] ∧
      (∃ words line words' line', tokens = words ++ [eof line] ∧
        ofSource (" ".intercalate (words.map spelling)) "" = .ok (words' ++ [eof line']) ∧
        words'.map content = words.map content) ∧
      ∀ text, ofSource (Text.literal text) "" = .ok [⟨.string, text, 1, 1⟩, eof 1] := by
  have hrun : (ofSource "$a1..$b2 $a..$b $a9 1.5. x++ /* * */ +\n\"a\\q\\n\"" "").toOption.map (·.map Token.kind) =
      some [.cellRange, .fileRange, .fileLiteral, .number, .number, .dot, .identifier, .plusPlus, .plus, .string,
        .eof] := by
    decide +kernel
  obtain ⟨tokens, htokens, hkinds⟩ := Option.map_eq_some_iff.mp hrun
  have hread := ok_of_toOption htokens
  exact ⟨tokens, hread, hkinds, reading_again hread⟩

end Token

end ChessEval
