import ChessEval.Proofs.Bindings
import ChessEval.Proofs.RoundTrip

/-!
# Brackets and indentation of generated code

A reader of generated lines counts the blocks that are open: a line that ends in an opening bracket opens one,
and a line that is a closing bracket closes one. The lines of a generated file close no more blocks than are
open, leave none open at the end or at the start of a declaration, and are indented by four spaces for each
block around them.
-/

namespace ChessEval

open List

lemma Program.printable_stmts {tokens : List Token} {file : String} {p : Program}
    (hread : (Program.ofTokens tokens file).1 = .ok p) : ∀ part ∈ p.stmts, part.Printable := by
  obtain ⟨-, -, -, hprintable⟩ := Program.reached_of_ofTokens hread
  intro part hpart
  obtain ⟨d, hd, hmem⟩ := mem_flatMap.mp hpart
  have hdefinition := hprintable d hd
  cases d with
  | global g => cases hmem
  | function f => exact hdefinition.2.2 part hmem
  | rule r => exact hdefinition part hmem

namespace Code

variable {text : String} {k k' : Nat} {c : Char} {rest : List Char}

def indentation (line : String) : Nat :=
  (line.toList.takeWhile (· == ' ')).length

/-- Whether a line closes a block, maybe to open another one. -/
def closes (line : String) : Bool :=
  let text := line.toList.dropWhile (· == ' ')
  text == "\x7d".toList || text == "\x7d else \x7b".toList

/-- The level of a line where some blocks are open. A line that closes a block is outside of it, and there
must be one. -/
def level? (depth : Nat) (line : String) : Option Nat :=
  if closes line then if depth = 0 then none else some (depth - 1) else some depth

/-- The levels of lines where some blocks are open, and the number of blocks that are open after them. -/
def readLevels (depth : Nat) : List String → Option (List Nat × Nat)
  | [] => some ([], depth)
  | line :: rest =>
    match level? depth line with
    | none => none
    | some level =>
      match readLevels (if opens line then level + 1 else level) rest with
      | none => none
      | some (levels, final) => some (level :: levels, final)

section Reading

variable {depth depth' final level : Nat} {line : String} {lines lines' : List String} {levels levels' : List Nat}

lemma readLevels_cons (hlevel : level? depth line = some level)
    (hrest : readLevels (if opens line then level + 1 else level) lines = some (levels, final)) :
    readLevels depth (line :: lines) = some (level :: levels, final) := by
  rw [readLevels, hlevel]
  dsimp only
  rw [hrest]

lemma readLevels_append (hfirst : readLevels depth lines = some (levels, depth'))
    (hnext : readLevels depth' lines' = some (levels', final)) :
    readLevels depth (lines ++ lines') = some (levels ++ levels', final) := by
  induction lines generalizing depth levels with
  | nil =>
    cases hfirst
    exact hnext
  | cons line rest ih =>
    rw [readLevels] at hfirst
    cases hlevel : level? depth line with
    | none =>
      rw [hlevel] at hfirst
      cases hfirst
    | some level =>
      rw [hlevel] at hfirst
      dsimp only at hfirst
      rcases hrest : readLevels (if opens line then level + 1 else level) rest with _ | ⟨others, last⟩
      · rw [hrest] at hfirst
        cases hfirst
      · rw [hrest] at hfirst
        cases hfirst
        exact readLevels_cons hlevel (ih hrest)

lemma getLast?_of_closes (h : closes line = true) :
    line.toList.getLast? = some '\x7d' ∨ line.toList.getLast? = some '\x7b' := by
  have hsuffix := dropWhile_suffix (· == ' ') (l := line.toList)
  obtain ⟨spaces, hspaces⟩ := hsuffix
  unfold closes at h
  rw [← hspaces, getLast?_append]
  rcases Bool.or_eq_true_iff.mp h with h | h
  · rw [beq_iff_eq.mp h]
    exact .inl rfl
  · rw [beq_iff_eq.mp h]
    exact .inr rfl

lemma readLevels_sentence (hstops : stops line = true) (hrest : readLevels depth lines = some (levels, final)) :
    readLevels depth (line :: lines) = some (depth :: levels, final) := by
  obtain ⟨c, hc, hchar⟩ := (Option.any_eq_true _ _).mp hstops
  obtain ⟨hopen, hclose⟩ : c ≠ '\x7b' ∧ c ≠ '\x7d' := by simpa using hchar
  have hcloses : closes line = false := by
    refine Bool.eq_false_iff.mpr fun h => ?_
    rcases getLast?_of_closes h with h | h
    · exact hclose (Option.some.inj (hc.symm.trans h))
    · exact hopen (Option.some.inj (hc.symm.trans h))
  have hopens : opens line = false := by
    unfold opens
    rw [hc]
    exact beq_false_of_ne fun h => hopen (Option.some.inj h)
  refine readLevels_cons ?_ ?_
  · simp [level?, hcloses]
  · simpa [hopens] using hrest

end Reading

/-- A text that starts with a character which is not blank and closes no block. -/
def Starts (text : String) : Prop :=
  ∃ c rest, text.toList = c :: rest ∧ c ≠ ' ' ∧ c ≠ '\x7d'

section Starting

lemma Starts.append {start : String} (h : Starts start) (rest : String) : Starts (start ++ rest) := by
  obtain ⟨c, cs, hcs, hspace, hclose⟩ := h
  exact ⟨c, cs ++ rest.toList, by rw [String.toList_append, hcs, cons_append], hspace, hclose⟩

lemma starts_of_prefix {words : List String}
    (hwords : words.all (fun word => word.toList.head?.any fun c => c != ' ' && c != '\x7d') = true)
    (h : ∃ word ∈ words, word.toList <+: text.toList) : Starts text := by
  obtain ⟨word, hword, rest, hrest⟩ := h
  obtain ⟨c, hc, hchar⟩ := (Option.any_eq_true _ _).mp (all_eq_true.mp hwords word hword)
  obtain ⟨hspace, hclose⟩ := (Bool.and_eq_true _ _).mp hchar
  obtain ⟨tail, htail⟩ := head?_eq_some_iff.mp hc
  exact ⟨c, tail ++ rest, by rw [← hrest, htail, cons_append], bne_iff_ne.mp hspace, bne_iff_ne.mp hclose⟩

lemma starts_code {type : Ty} (h : type.code = .ok text) : Starts text := by
  obtain ⟨word, hword, hprefix⟩ := (spelling_of_code h).start ""
  rw [String.append_empty] at hprefix
  exact starts_of_prefix (by decide) ⟨word, hword, hprefix⟩

lemma starts_of_isPlain (h : isPlain text = true) : Starts text := by
  obtain ⟨word, hword, hstart⟩ := any_eq_true.mp h
  exact starts_of_prefix (by decide) ⟨word, hword, isPrefixOf_iff_prefix.mp hstart⟩

lemma prefix_append_text (word rest : String) : word.toList <+: (word ++ rest).toList := by
  rw [String.toList_append]
  exact prefix_append _ _

lemma start_calleeName {file name callee : String} {a : Analysis} {m : Mark}
    (h : calleeName file a m name = .ok callee) :
    "fn_".toList <+: callee.toList ∨ "func_".toList <+: callee.toList := by
  unfold calleeName at h
  split at h
  · cases h
    split
    · exact .inr (prefix_append_text _ _)
    · unfold functionName
      split
      · exact .inl (prefix_append_text _ _)
      · rw [String.append_assoc, String.append_assoc]
        exact .inl (prefix_append_text _ _)
  · cases h

lemma Written.start {e : Expr} {code : String} (h : Written e code)
    (he : e.isIdentifier = true ∨ e.isCall = true) (rest : String) :
    ∃ word ∈ ["var_", "fn_", "func_"], word.toList <+: (code ++ rest).toList := by
  have hcall : ∀ {callee : String} (codes : List String),
      "fn_".toList <+: callee.toList ∨ "func_".toList <+: callee.toList →
      ∃ word ∈ ["var_", "fn_", "func_"], word.toList <+: (call callee codes ++ rest).toList := by
    intro callee codes hcallee
    have hprefix : callee.toList <+: (call callee codes ++ rest).toList := by
      rw [call, String.append_assoc, String.append_assoc, String.append_assoc]
      exact prefix_append_text _ _
    rcases hcallee with hcallee | hcallee
    · exact ⟨"fn_", by decide, hcallee.trans hprefix⟩
    · exact ⟨"func_", by decide, hcallee.trans hprefix⟩
  obtain ⟨file, a, state, state', hrun⟩ := h
  obtain ⟨codes, u, -, hfinish⟩ := run_expr_cases hrun
  cases hfinish with
  | list hlist => cases e <;> simp_all [Expr.isList, Expr.isIdentifier, Expr.isCall]
  | node _ hcode =>
    cases hcode with
    | identifier =>
      rw [variableName, String.append_assoc]
      exact ⟨"var_", by decide, prefix_append_text _ _⟩
    | call hcallee => exact hcall _ (start_calleeName hcallee)
    | member hcallee => exact hcall _ (start_calleeName hcallee)
    | _ => simp [Expr.isIdentifier, Expr.isCall] at he

lemma Sentence.starts {P : Stmt → Prop} (hP : ∀ s, P s → s.Printable) (h : Sentence P k k' text) : Starts text := by
  cases h with
  | list htype => exact (((starts_code htype).append _).append _).append _
  | source htype => exact (((((starts_code htype).append _).append _).append _).append _).append _
  | typed htype => exact ((starts_code htype).append _).append _
  | plain hstart => exact starts_of_isPlain hstart
  | assign hstmt hcode => exact starts_of_prefix (by decide) (hcode.start (.inl (hP _ hstmt)) _)
  | call hstmt hcode => exact starts_of_prefix (by decide) (hcode.start (.inr (hP _ hstmt)) _)

lemma Opening.starts (h : Opening k k' text) : Starts text := by
  cases h with
  | loop htype =>
    have hfor : Starts "for (" := ⟨'f', _, rfl, by decide, by decide⟩
    exact ((((hfor.append _).append _).append _).append _).append _
  | typed htype => exact ((starts_code htype).append _).append _
  | plain hstart => exact starts_of_isPlain hstart

lemma Sentence.stops {P : Stmt → Prop} (h : Sentence P k k' text) : stops text = true := by
  cases h with
  | list => exact stops_append _ (by decide)
  | source => exact stops_append _ (by decide)
  | typed _ _ hstops => exact stops_append _ hstops
  | plain _ hstops => exact hstops
  | assign _ _ hstops => exact stops_append _ hstops
  | call => exact stops_append _ (by decide)

lemma Opening.opens (h : Opening k k' text) : opens text = true := by
  cases h with
  | loop _ hopens => exact opens_append _ hopens
  | typed _ _ hopens => exact opens_append _ hopens
  | plain _ hopens => exact hopens

end Starting

section Rendering

variable {level depth final : Nat} {text : String} {lines : List String} {levels : List Nat}

lemma toList_render (h : text.toList = c :: rest) (level : Nat) :
    (Line.mk level text).render.toList = List.replicate (4 * level) ' ' ++ c :: rest := by
  have hne : text.isEmpty = false := by
    refine Bool.eq_false_iff.mpr fun hempty => ?_
    rw [String.isEmpty_iff.mp hempty] at h
    cases h
  rw [Line.render, if_neg (by simp [hne]), String.toList_append, String.toList_ofList, h]

lemma indentation_render (h : text.toList = c :: rest) (hc : c ≠ ' ') (level : Nat) :
    indentation (Line.mk level text).render = 4 * level := by
  rw [indentation, toList_render h, takeWhile_append_of_pos (by simp), takeWhile_cons_of_neg (by simpa)]
  simp

lemma Starts.indentation (h : Starts text) (level : Nat) : indentation (Line.mk level text).render = 4 * level := by
  obtain ⟨c, rest, hrest, hspace, -⟩ := h
  exact indentation_render hrest hspace level

lemma dropWhile_render (h : text.toList = c :: rest) (hc : c ≠ ' ') :
    (Line.mk level text).render.toList.dropWhile (· == ' ') = c :: rest := by
  rw [toList_render h, dropWhile_append_of_pos (by simp), dropWhile_cons_of_neg (by simpa)]

lemma getLast?_render (h : text.toList = c :: rest) :
    (Line.mk level text).render.toList.getLast? = text.toList.getLast? := by
  rw [toList_render h, h, getLast?_append_of_ne_nil _ (cons_ne_nil c rest)]

lemma stops_render (h : stops text = true) : stops (Line.mk level text).render = true := by
  cases hcs : text.toList with
  | nil =>
    rw [stops, hcs] at h
    cases h
  | cons c rest =>
    rw [stops, getLast?_render hcs]
    exact h

lemma opens_render (h : opens text = true) : opens (Line.mk level text).render = true := by
  cases hcs : text.toList with
  | nil =>
    rw [opens, hcs] at h
    cases h
  | cons c rest =>
    rw [opens, getLast?_render hcs]
    exact h

lemma readLevels_opening (hopens : opens text = true) (hstarts : Starts text)
    (hrest : readLevels (level + 1) lines = some (levels, final)) :
    readLevels level ((Line.mk level text).render :: lines) = some (level :: levels, final) := by
  obtain ⟨c, rest, hcs, hspace, hclose⟩ := hstarts
  have hcloses : closes (Line.mk level text).render = false := by
    rw [closes, dropWhile_render hcs hspace]
    simp [hclose]
  refine readLevels_cons ?_ ?_
  · simp [level?, hcloses]
  · simpa [opens_render hopens] using hrest

lemma readLevels_closing (hrest : readLevels level lines = some (levels, final)) :
    readLevels (level + 1) ((Line.mk level "\x7d").render :: lines) = some (level :: levels, final) := by
  have htext : "\x7d".toList = ['\x7d'] := rfl
  have hcloses : closes (Line.mk level "\x7d").render = true := by
    rw [closes, dropWhile_render htext (by decide)]
    decide
  have hopens : opens (Line.mk level "\x7d").render = false := by
    rw [opens, getLast?_render htext]
    decide
  refine readLevels_cons ?_ ?_
  · simp [level?, hcloses]
  · simpa [hopens] using hrest

lemma readLevels_else (hrest : readLevels (level + 1) lines = some (levels, final)) :
    readLevels (level + 1) ((Line.mk level "\x7d else \x7b").render :: lines) = some (level :: levels, final) := by
  have htext : "\x7d else \x7b".toList = '\x7d' :: " else \x7b".toList := rfl
  have hcloses : closes (Line.mk level "\x7d else \x7b").render = true := by
    rw [closes, dropWhile_render htext (by decide)]
    decide
  have hopens : opens (Line.mk level "\x7d else \x7b").render = true := opens_render (by decide)
  refine readLevels_cons ?_ ?_
  · simp [level?, hcloses]
  · simpa [hopens] using hrest

end Rendering

section Emitting

variable {P : Stmt → Prop} {level k k' : Nat} {lines : List Line}

/-- A reader finds every line at the level it was generated at, and as many blocks open afterwards as
before. -/
theorem Emitted.readLevels (h : Emitted P level k lines k') :
    readLevels level (lines.map Line.render) = some (lines.map Line.level, level) := by
  induction h with
  | done => rfl
  | blank hrest ih => exact readLevels_cons rfl ih
  | row hrow hrest ih => exact readLevels_sentence (stops_render hrow.stops) ih
  | block hhead hbody hrest ihbody ihrest =>
    rw [map_cons, map_append, map_cons, map_cons, map_append, map_cons]
    exact readLevels_opening hhead.opens hhead.starts (readLevels_append ihbody (readLevels_closing ihrest))
  | choose hhead hbody hother hrest ihbody ihother ihrest =>
    simp only [map_cons, map_append]
    exact readLevels_opening hhead.opens hhead.starts
      (readLevels_append ihbody (readLevels_else (readLevels_append ihother (readLevels_closing ihrest))))

lemma Emitted.le_level (h : Emitted P level k lines k') : ∀ line ∈ lines, level ≤ line.level := by
  induction h with
  | done => simp
  | blank hrest ih => exact forall_mem_cons.mpr ⟨le_rfl, ih⟩
  | row hrow hrest ih => exact forall_mem_cons.mpr ⟨le_rfl, ih⟩
  | block hhead hbody hrest ihbody ihrest =>
    simp only [forall_mem_cons, forall_mem_append]
    exact ⟨le_rfl, fun line hline => Nat.le_of_succ_le (ihbody line hline), le_rfl, ihrest⟩
  | choose hhead hbody hother hrest ihbody ihother ihrest =>
    simp only [forall_mem_cons, forall_mem_append]
    exact ⟨le_rfl, fun line hline => Nat.le_of_succ_le (ihbody line hline), le_rfl,
      fun line hline => Nat.le_of_succ_le (ihother line hline), le_rfl, ihrest⟩

end Emitting

end Code

end ChessEval
