import ChessEval.Proofs.TokenReading

/-!
# Reading printed expressions

An expression is printed with as few parentheses as its operators allow. Reading starts with the
leftmost operand and adds operators while they hold tighter than the place of the expression. Three
facts carry the argument. The operators up to the right operand hold tighter than the place, so they
are all taken. The last operand is read under the precedence of its operator, and the token that
follows does not extend it. Each operator consumes a token, so the bound on the rounds is never met.
-/

namespace ChessEval

open List

variable {token : Token} {lowest : Nat} {es : List Expr}

open Expr

namespace Parse

variable {s : TokenStream} {rest mid : List Token} {next : Nat}

/-- Whether the first of the tokens does not extend an expression whose operators hold tighter than
`limit`. -/
def Stopped (limit : Precedence) : List Token → Prop
  | [] => False
  | token :: _ => ∀ form precedence, token.kind.operator? = some (form, precedence) →
      precedence.rank ≤ limit.rank

namespace Stopped

variable {limit : Precedence}

lemma ne_nil (h : Stopped limit rest) : rest ≠ [] := by
  rintro rfl
  exact h

lemma mono {limit' : Precedence} (h : Stopped limit rest) (hle : limit.rank ≤ limit'.rank) :
    Stopped limit' rest := by
  cases rest with
  | nil => exact h.elim
  | cons token more => exact fun form precedence hop => Nat.le_trans (h form precedence hop) hle

lemma of_none (h : token.kind.operator? = none) : Stopped limit (token :: rest) := by
  intro form precedence hop
  rw [h] at hop
  cases hop

end Stopped

section Extensions

variable {nested : Precedence → Parse Expr} {limit : Precedence} {left e e' : Expr}
  {t : TokenStream} {n : Nat}

/-- What an operand becomes by operators that hold tighter than `limit`. -/
inductive Extends (nested : Precedence → Parse Expr) (limit : Precedence) (left : Expr)
    (s : TokenStream) : Expr → TokenStream → Prop
  | start : Extends nested limit left s left s
  | step {e e' : Expr} {t t' : TokenStream} {form : OperatorForm} {precedence : Precedence} :
    Extends nested limit left s e t → t.current.kind.operator? = some (form, precedence) →
    limit.looserThan precedence = true → (extend nested form e precedence).run t = (.ok e', t') →
    t'.rest.length < t.rest.length → Extends nested limit left s e' t'

lemma run_extensions_of_extends {last : Expr} {u : TokenStream}
    (h : Extends nested limit left s e t)
    (hend : ∀ count, n ≤ count → (extensions nested limit count e).run t = (.ok last, u))
    (count : Nat) (hcount : n + s.rest.length ≤ count + t.rest.length) :
    (extensions nested limit count left).run s = (.ok last, u) := by
  induction h generalizing n count with
  | start => exact hend count (by omega)
  | @step e e' t t' form precedence _ hop hlimit hrun hshort ih =>
    apply ih (n := n + 1)
    · intro count hcount
      obtain ⟨count, rfl⟩ : ∃ k, count = k + 1 := ⟨count - 1, by omega⟩
      refine run_bind_ok.mpr ⟨t.current.kind, t, rfl, ?_⟩
      rw [hop]
      simp only [hlimit, if_true]
      exact run_bind_ok.mpr ⟨e', t', hrun, hend count (by omega)⟩
    · omega

lemma run_extensions_of_stopped (h : Stopped limit s.tokens) (count : Nat) :
    (extensions nested limit count e).run s = (.ok e, s) := by
  cases count with
  | zero => rfl
  | succ count =>
    refine run_bind_ok.mpr ⟨s.current.kind, s, rfl, ?_⟩
    cases hop : s.current.kind.operator? with
    | none => rfl
    | some operator =>
      have hle : operator.2.rank ≤ limit.rank := h operator.1 operator.2 hop
      have hlimit : limit.looserThan operator.2 = false := by
        simp only [Precedence.looserThan, decide_eq_false_iff_not]
        omega
      simp only [hlimit]
      rfl

/-- From the stream `s` an operand and the operators after it make up the expression `e`, up to its
marks. -/
def Leads (nested : Precedence → Parse Expr) (limit : Precedence) (s : TokenStream)
    (rest : List Token) (next : Nat) (e : Expr) : Prop :=
  ∃ left t e' s', (operand nested).run s = (.ok left, t) ∧ Extends nested limit left t e' s' ∧
    s'.tokens = rest ∧ s'.file = s.file ∧ s'.nextId = next ∧ e'.unmarked = e.unmarked

namespace Leads

lemma of_operand (h : Gives (operand nested) s rest next (·.unmarked = e.unmarked)) :
    Leads nested limit s rest next e := by
  obtain ⟨left, t, hrun, htokens, hfile, hnext, hleft⟩ := h
  exact ⟨left, t, left, t, hrun, .start, htokens, hfile, hnext, hleft⟩

lemma extend {form : OperatorForm} {precedence : Precedence} (h : Leads nested limit s (token :: mid) n e)
    (hop : token.kind.operator? = some (form, precedence)) (hlimit : limit.looserThan precedence = true)
    (hshort : rest.length ≤ mid.length)
    (hextend : ∀ left t, t.tokens = token :: mid → t.nextId = n → left.unmarked = e.unmarked →
      Gives (Parse.extend nested form left precedence) t rest next (·.unmarked = e'.unmarked)) :
    Leads nested limit s rest next e' := by
  obtain ⟨left, t, e₁, t₁, hrun, hext, htokens, hfile, hnext, he₁⟩ := h
  obtain ⟨e₂, t₂, hrun₂, htokens₂, hfile₂, hnext₂, he₂⟩ := hextend e₁ t₁ htokens hnext he₁
  have hlength : t₂.rest.length < t₁.rest.length := by
    have h₁ := congrArg List.length htokens
    have h₂ := congrArg List.length htokens₂
    simp only [TokenStream.tokens, length_cons] at h₁ h₂
    omega
  have hcurrent : t₁.current = token := by
    injection htokens
  exact ⟨left, t, e₂, t₂, hrun, hext.step (hcurrent ▸ hop) hlimit hrun₂ hlength, htokens₂,
    hfile₂.trans hfile, hnext₂, he₂⟩

lemma gives {depth : Nat} (h : Leads (expressionWithin depth) limit s rest next e)
    (hstop : Stopped limit rest) :
    Gives (expressionWithin (depth + 1) limit) s rest next (·.unmarked = e.unmarked) := by
  obtain ⟨left, t, e', s', hrun, hext, htokens, hfile, hnext, he'⟩ := h
  refine ⟨e', s', ?_, htokens, hfile, hnext, he'⟩
  refine run_bind_ok.mpr ⟨left, t, hrun, ?_⟩
  have hend : ∀ count, 0 ≤ count →
      (extensions (expressionWithin depth) limit count e').run s' = (.ok e', s') :=
    fun count _ => run_extensions_of_stopped (htokens ▸ hstop) count
  exact run_extensions_of_extends hext hend t.rest.length (by omega)

end Leads

end Extensions

end Parse

/-- The levels of printing and the ranks of reading, which have no place for `not` among them. -/
lemma BinaryOp.level_rank (operator : BinaryOp) :
    operator.level = operator.precedence.rank ∧ operator.level ≤ 2 ∨
      operator.level = operator.precedence.rank + 1 ∧ 4 ≤ operator.level ∧ operator.level ≤ 6 := by
  cases operator <;> decide

lemma UnaryOp.level_rank (sign : UnaryOp) :
    sign.level = 3 ∧ (Parse.sign sign.kind).2.rank = 2 ∨
      sign.level = 7 ∧ (Parse.sign sign.kind).2.rank = 6 := by
  cases sign <;> decide

lemma BinaryOp.operator_kind (operator : BinaryOp) :
    operator.kind.operator? = some (.binary, operator.precedence) := by
  cases operator <;> rfl

lemma BinaryOp.binaryOp_kind (operator : BinaryOp) : operator.kind.binaryOp? = some operator := by
  cases operator <;> rfl

namespace Expr

/-- Whether the operators of an expression hold tighter than `limit`, up to its right operand. -/
def Above (limit : Precedence) : Expr → Prop
  | .binary _ operator _ _ => limit.rank < operator.precedence.rank
  | .call .. | .member .. | .index .. => limit.rank < Precedence.call.rank
  | _ => True

/-- How tight an operator must not hold to leave the last operand of an expression alone. -/
def edge : Expr → Precedence
  | .binary _ operator _ _ => operator.precedence
  | .unary _ .not _ => .and
  | .unary .. => .unary
  | _ => .primary

section Places

variable {e : Expr} {operator : BinaryOp} {sign : UnaryOp} {limit : Precedence}

lemma above_of_binary (hlimit : limit.rank < Precedence.call.rank)
    (hbinary : ∀ operator : BinaryOp, e.level = operator.level →
      limit.rank < operator.precedence.rank) : e.Above limit := by
  cases e with
  | binary m operator left right => exact hbinary operator rfl
  | call | member | index => exact hlimit
  | _ => trivial

lemma above_left (hlevel : operator.level ≤ e.level) (hlimit : limit.rank < operator.precedence.rank) :
    e.Above limit := by
  have hcall : Precedence.call.rank = 7 := rfl
  have hoperator := operator.level_rank
  apply above_of_binary (by omega)
  intro operator' hbinary
  have hoperator' := operator'.level_rank
  omega

lemma above_right (hlevel : operator.level + 1 ≤ e.level) : e.Above operator.precedence := by
  have hcall : Precedence.call.rank = 7 := rfl
  have hoperator := operator.level_rank
  apply above_of_binary (by omega)
  intro operator' hbinary
  have hoperator' := operator'.level_rank
  omega

lemma above_signed (hlevel : sign.level ≤ e.level) : e.Above (Parse.sign sign.kind).2 := by
  have hcall : Precedence.call.rank = 7 := rfl
  have hsign := sign.level_rank
  apply above_of_binary (by omega)
  intro operator hbinary
  have hoperator := operator.level_rank
  omega

lemma above_tightest (hlevel : tightest ≤ e.level) (hlimit : limit.rank < Precedence.call.rank) :
    e.Above limit := by
  apply above_of_binary hlimit
  intro operator hbinary
  have hoperator := operator.level_rank
  unfold tightest at hlevel
  omega

lemma edge_rank (e : Expr) :
    e.level = e.edge.rank ∧ e.level ≤ 2 ∨
      e.level = e.edge.rank + 1 ∧ 3 ≤ e.level ∧ e.level ≤ 7 ∨ e.level = 8 ∧ e.edge.rank = 9 := by
  cases e with
  | binary m operator left right =>
    have hoperator := operator.level_rank
    simp only [level, edge]
    omega
  | unary m sign operand => cases sign <;> simp [level, edge, UnaryOp.level, Precedence.rank]
  | _ => exact .inr (.inr ⟨rfl, rfl⟩)

end Places

end Expr

namespace Parse

section Expressions

variable {numeral : Number → String} {depth : Nat} {limit : Precedence} {e : Expr}
  {s : TokenStream} {rest : List Token}

lemma stopped_of_rank (hlimit : limit.rank = 9) (h : rest ≠ []) : Stopped limit rest := by
  cases rest with
  | nil => exact absurd rfl h
  | cons token more =>
    intro form precedence _
    have hrank : precedence.rank ≤ 9 := by cases precedence <;> decide
    omega

/-- An expression that is read back: from its tokens, an operand and the operators after it make it up
again. -/
def Rereads (numeral : Number → String) (e : Expr) : Prop :=
  ∀ depth limit s rest, (e.print numeral).length ≤ depth + 1 → e.Above limit → Stopped e.edge rest →
    s.tokens = e.print numeral ++ rest →
    Leads (expressionWithin depth) limit s rest (s.nextId + taken [e]) e

lemma print_ne_nil (e : Expr) : e.print numeral ≠ [] := by
  cases e <;> simp [Expr.print]

namespace Rereads

lemma gives (h : Rereads numeral e) (hdepth : (e.print numeral).length ≤ depth)
    (habove : e.Above limit) (hedge : Stopped e.edge rest) (hstop : Stopped limit rest)
    (hs : s.tokens = e.print numeral ++ rest) :
    Gives (expressionWithin depth limit) s rest (s.nextId + taken [e]) (·.unmarked = e.unmarked) := by
  have hpos : 0 < (e.print numeral).length := length_pos_iff.mpr (print_ne_nil e)
  obtain ⟨depth, rfl⟩ : ∃ k, depth = k + 1 := ⟨depth - 1, by omega⟩
  exact (h depth limit s rest hdepth habove hedge hs).gives hstop

lemma gives_lowest (h : Rereads numeral e) (hdepth : (e.print numeral).length ≤ depth)
    (htoken : token.kind.operator? = none) (hs : s.tokens = e.print numeral ++ token :: rest) :
    Gives (expressionWithin depth .lowest) s (token :: rest) (s.nextId + taken [e])
      (·.unmarked = e.unmarked) := by
  have habove : e.Above .lowest := by
    apply above_of_binary (by decide)
    intro operator _
    cases operator <;> decide
  exact h.gives hdepth habove (.of_none htoken) (.of_none htoken) hs

lemma leads_operand (h : Rereads numeral e) (hdepth : (e.operandTokens numeral lowest).length ≤ depth + 1)
    (hrest : rest ≠ []) (hplace : lowest ≤ e.level → e.Above limit ∧ Stopped e.edge rest)
    (hs : s.tokens = e.operandTokens numeral lowest ++ rest) :
    Leads (expressionWithin depth) limit s rest (s.nextId + taken [e]) e := by
  unfold Expr.operandTokens Token.enclosed at hdepth hs
  by_cases hlevel : e.level < lowest
  · rw [if_pos hlevel] at hdepth hs
    simp only [cons_append, append_assoc, length_cons, length_append,
      length_nil] at hdepth hs
    apply Leads.of_operand
    apply Gives.kind hs
    apply Gives.advance hs (by simp)
    intro t ht htid
    apply (h.gives_lowest (by omega) rfl ht).bind
    intro e' u hu huid he'
    apply Gives.expect hu hrest
    intro v hv hvid
    exact .pure hv (by omega) he'
  · rw [if_neg hlevel] at hdepth hs
    obtain ⟨habove, hedge⟩ := hplace (by omega)
    exact h depth limit s rest hdepth habove hedge hs

lemma gives_operand (h : Rereads numeral e) (hdepth : (e.operandTokens numeral lowest).length ≤ depth)
    (hstop : Stopped limit rest) (hplace : lowest ≤ e.level → e.Above limit ∧ Stopped e.edge rest)
    (hs : s.tokens = e.operandTokens numeral lowest ++ rest) :
    Gives (expressionWithin depth limit) s rest (s.nextId + taken [e]) (·.unmarked = e.unmarked) := by
  have hpos : 0 < (e.operandTokens numeral lowest).length := by
    unfold Expr.operandTokens Token.enclosed
    split
    · simp
    · exact length_pos_iff.mpr (print_ne_nil e)
  obtain ⟨depth, rfl⟩ : ∃ k, depth = k + 1 := ⟨depth - 1, by omega⟩
  exact (h.leads_operand hdepth hstop.ne_nil hplace hs).gives hstop

end Rereads

/-- The nodes whose tokens stand for them, given how numbers are written. -/
def Legible (numeral : Number → String) (e : Expr) : Prop :=
  e.Printable ∧ ∀ value, e.number? = some value → Number.ofText? (numeral value) = some value

variable {mark : Mark}

lemma gives_numeral {nested : Precedence → Parse Expr} {text : String} {value : Number}
    (htext : Number.ofText? text = some value) (hs : s.tokens = .printed .number text :: rest)
    (hrest : rest ≠ []) :
    Gives (operand nested) s rest (s.nextId + 1)
      (·.unmarked = (Expr.literal mark (.number value)).unmarked) := by
  apply Gives.kind hs
  apply Gives.current hs
  simp only [Token.printed, htext, pure_bind]
  apply Gives.advance hs hrest
  intro t ht htid
  exact .node ht (by rw [htid]) fun id => rfl

lemma rereads_literal {value : Literal} (h : Legible numeral (.literal mark value)) :
    Rereads numeral (.literal mark value) := by
  intro depth limit s rest _ _ hedge hs
  rw [Expr.print, singleton_append] at hs
  apply Leads.of_operand
  by_cases hboard : (value.token numeral).kind.operand? = some .boardLiteral
  · apply Gives.kind hs
    rw [hboard]
    apply Gives.advance hs hedge.ne_nil
    intro t ht htid
    rw [boardLiteral_token numeral h.1 hboard]
    exact .node ht (by rw [htid]; rfl) fun id => rfl
  · -- the other constants are read from a single token, whose kind decides
    obtain ⟨following, more, rfl⟩ := exists_cons_of_ne_nil hedge.ne_nil
    obtain ⟨current, ahead, file, id⟩ := s
    cases hs
    cases value with
    | number value => exact gives_numeral (h.2 value rfl) rfl (by simp)
    | boolean value => cases value <;> exact ⟨_, _, rfl, rfl, rfl, rfl, rfl⟩
    | string value | pieces name => exact ⟨_, _, rfl, rfl, rfl, rfl, rfl⟩
    | board collection => cases collection <;> exact ⟨_, _, rfl, rfl, rfl, rfl, rfl⟩
    | player player => cases player <;> exact ⟨_, _, rfl, rfl, rfl, rfl, rfl⟩
    | _ => exact absurd rfl hboard

lemma rereads_identifier (name : String) : Rereads numeral (.identifier mark name) := by
  intro depth limit s rest _ _ hedge hs
  rw [Expr.print, singleton_append] at hs
  apply Leads.of_operand
  obtain ⟨following, more, rfl⟩ := exists_cons_of_ne_nil hedge.ne_nil
  obtain ⟨current, ahead, file, id⟩ := s
  cases hs
  exact ⟨_, _, rfl, rfl, rfl, rfl, rfl⟩

lemma rereads_binary {operator : BinaryOp} {left right : Expr} (hleft : Rereads numeral left)
    (hright : Rereads numeral right) : Rereads numeral (.binary mark operator left right) := by
  intro depth limit s rest hdepth habove hedge hs
  change Stopped operator.precedence rest at hedge
  change limit.rank < operator.precedence.rank at habove
  have hprint : (Expr.binary mark operator left right).print numeral =
      left.operandTokens numeral operator.level ++ .fixed operator.kind ::
        right.operandTokens numeral (operator.level + 1) := by
    rw [Expr.print]
    rfl
  rw [hprint, length_append, length_cons] at hdepth
  rw [hprint, append_assoc, cons_append] at hs
  have htaken : taken [.binary mark operator left right] = taken [left] + taken [right] + 1 := by
    rw [taken_singleton]
    exact congrArg (· + 1) (taken_append [left] [right])
  -- the operator itself does not extend the left operand any further
  have hoperand : Leads (expressionWithin depth) limit s
      (.fixed operator.kind :: (right.operandTokens numeral (operator.level + 1) ++ rest))
      (s.nextId + taken [left]) left := by
    apply hleft.leads_operand (by omega) (by simp) _ hs
    intro hlevel
    refine ⟨above_left hlevel habove, ?_⟩
    intro form precedence hop
    have hedge' := left.edge_rank
    have hoperator := operator.level_rank
    rw [Token.kind_fixed, operator.operator_kind] at hop
    cases hop
    omega
  apply hoperand.extend (operator.operator_kind) (by simpa [Precedence.looserThan] using habove)
    (by simp)
  intro left' t ht htid hleft'
  apply Gives.advance ht (by simp [hedge.ne_nil])
  intro u hu huid
  rw [Token.kind_fixed, operator.binaryOp_kind]
  have hoperand' : Gives (expressionWithin depth operator.precedence) u rest
      (u.nextId + taken [right]) (·.unmarked = right.unmarked) := by
    apply hright.gives_operand (by omega) hedge _ hu
    intro hlevel
    have hedge' := right.edge_rank
    have hoperator := operator.level_rank
    exact ⟨above_right hlevel, hedge.mono (by omega)⟩
  apply hoperand'.bind
  intro right' v hv hvid hright'
  apply Gives.node hv
  · omega
  · intro id
    rw [Expr.unmarked, Expr.unmarked, hleft', hright']

lemma rereads_unary {sign : UnaryOp} {operand : Expr} (h : Rereads numeral operand) :
    Rereads numeral (.unary mark sign operand) := by
  intro depth limit s rest hdepth _ hedge hs
  have hprint : (Expr.unary mark sign operand).print numeral =
      .fixed sign.kind :: operand.operandTokens numeral sign.level := by
    rw [Expr.print]
    rfl
  rw [hprint, length_cons] at hdepth
  rw [hprint, cons_append] at hs
  have hlimit : (Parse.sign sign.kind).2 = (Expr.unary mark sign operand).edge := by
    cases sign <;> rfl
  have hoperator : (Parse.sign sign.kind).1 = sign := by cases sign <;> rfl
  have hkind : sign.kind.operand? = some .sign := by cases sign <;> rfl
  apply Leads.of_operand
  apply Gives.kind hs
  rw [Token.kind_fixed, hkind]
  apply Gives.advance hs (by simp [hedge.ne_nil])
  intro t ht htid
  rw [← hlimit] at hedge
  have hoperand : Gives (expressionWithin depth (Parse.sign sign.kind).2) t rest
      (t.nextId + taken [operand]) (·.unmarked = operand.unmarked) := by
    apply h.gives_operand (by omega) hedge _ ht
    intro hlevel
    have hedge' := operand.edge_rank
    have hsign := sign.level_rank
    exact ⟨above_signed hlevel, hedge.mono (by omega)⟩
  apply hoperand.bind
  intro operand' u hu huid hoperand'
  apply Gives.node hu
  · have htaken : taken [.unary mark sign operand] = taken [operand] + 1 := taken_singleton _
    omega
  · intro id
    exact congrArg₂ (Expr.unary default) hoperator hoperand'

lemma rereads_emptyList : Rereads numeral (.emptyList mark) := by
  intro depth limit s rest _ _ hedge hs
  simp only [Expr.print, cons_append, nil_append] at hs
  apply Leads.of_operand
  apply Gives.kind hs
  apply Gives.advance hs (by simp)
  intro t ht htid
  apply Gives.kind ht
  rw [if_pos (Token.kind_fixed _)]
  apply Gives.advance ht hedge.ne_nil
  intro u hu huid
  exact .node hu (by rw [huid, htid]; rfl) fun id => rfl

lemma gives_elements {closing : Token} (hes : ∀ e ∈ es, Rereads numeral e) (hne : es ≠ [])
    (hclosing : closing.kind.operator? = none ∧ closing.kind ≠ .comma)
    (hdepth : (Token.separated (es.map (Expr.print numeral))).length ≤ depth)
    (hs : s.tokens = Token.separated (es.map (Expr.print numeral)) ++ closing :: rest) :
    Gives (commaSeparated (expressionWithin depth .lowest)) s (closing :: rest)
      (s.nextId + taken es) (·.map unmarked = es.map unmarked) := by
  have hread : Gives (commaSeparated (expressionWithin depth .lowest)) s (closing :: rest)
      (s.nextId + taken (es.flatMap fun e => [e])) (·.map unmarked = es.map unmarked) := by
    apply gives_commaSeparated hne hclosing.2 _ hs
    intro e he s token more htoken hs
    apply (hes e he).gives_lowest _ _ hs
    · exact Nat.le_trans (length_le_separated (mem_map_of_mem he)) hdepth
    · rcases htoken with rfl | rfl
      · rfl
      · exact hclosing.1
  rwa [flatMap_singleton'] at hread

/-- Tokens that can start an expression but no assignment. -/
def Opens (tokens : List Token) : Prop :=
  ∃ first second more, tokens = first :: second :: more ∧ first.kind.operand?.isSome = true ∧
    (first.kind.isCallable = true → second.kind = .openParen) ∧ second.kind ≠ .assignment

lemma Opens.cons {tokens : List Token} (h : Opens tokens) (htoken : token.kind.operand?.isSome = true)
    (hcall : token.kind.isCallable = false) : Opens (token :: tokens) := by
  obtain ⟨first, second, more, rfl, hfirst, -⟩ := h
  refine ⟨token, first, second :: more, rfl, htoken, by simp [hcall], ?_⟩
  intro hkind
  rw [hkind] at hfirst
  cases hfirst

lemma opens_operand (htoken : token.kind ≠ .assignment)
    (h : ∀ token rest, token.kind ≠ .assignment → Opens (e.print numeral ++ token :: rest)) :
    Opens (e.operandTokens numeral lowest ++ token :: rest) := by
  unfold Expr.operandTokens Token.enclosed
  by_cases hlevel : e.level < lowest
  · rw [if_pos hlevel, cons_append, append_assoc]
    exact (h _ _ (by decide)).cons rfl rfl
  · rw [if_neg hlevel]
    exact h token rest htoken

lemma opens_separated {closing : Token} (hne : es ≠ []) (hclosing : closing.kind ≠ .assignment)
    (hes : ∀ e ∈ es, ∀ token rest, token.kind ≠ .assignment → Opens (e.print numeral ++ token :: rest)) :
    Opens (Token.separated (es.map (Expr.print numeral)) ++ closing :: rest) := by
  obtain ⟨e, es, rfl⟩ := exists_cons_of_ne_nil hne
  obtain ⟨token, more, hmore, htoken⟩ :=
    exists_comma_or_closing (es.map (Expr.print numeral)) closing rest
  rw [map_cons, Token.separated, append_assoc, hmore]
  apply hes e (by simp)
  rcases htoken with rfl | rfl
  · decide
  · exact hclosing

lemma kind_callee (name : String) :
    (Token.callee name).kind = .identifier ∨ (Token.callee name).kind.isCallable = true := by
  cases hkind : (reserved? name).filter TokenKind.isCallable with
  | none => exact .inl (by simp [Token.callee, hkind])
  | some kind =>
    obtain ⟨-, hcallable⟩ := Option.filter_eq_some_iff.mp hkind
    exact .inr (by simpa [Token.callee, hkind] using hcallable)

lemma operand_of_isCallable {kind : TokenKind} (h : kind.isCallable = true) :
    kind.operand? = some .keywordCallee := by
  cases kind <;> first | rfl | cases h

variable (numeral) in
lemma opens_print (e : Expr) (token : Token) (rest : List Token) (htoken : token.kind ≠ .assignment) :
    Opens (e.print numeral ++ token :: rest) := by
  induction e using Expr.children_induction generalizing token rest with
  | step e ih =>
    cases e with
    | literal mark value =>
      have hvalue : (value.token numeral).kind.operand?.isSome = true ∧
          (value.token numeral).kind.isCallable = false := by
        cases value with
        | boolean value => cases value <;> exact ⟨rfl, rfl⟩
        | board collection => cases collection <;> exact ⟨rfl, rfl⟩
        | player player => cases player <;> exact ⟨rfl, rfl⟩
        | _ => exact ⟨rfl, rfl⟩
      exact ⟨_, token, rest, rfl, hvalue.1, by simp [hvalue.2], htoken⟩
    | identifier mark name => exact ⟨_, token, rest, rfl, rfl, fun h => absurd h Bool.false_ne_true, htoken⟩
    | binary mark operator left right =>
      rw [Expr.print, append_assoc]
      refine opens_operand ?_ (ih left (by simp [Expr.children]))
      cases operator <;> decide
    | unary mark sign operand =>
      rw [Expr.print, cons_append]
      apply (opens_operand htoken (ih operand (by simp [Expr.children]))).cons <;>
        (cases sign <;> rfl)
    | call mark name arguments =>
      refine ⟨_, _, _, by rw [Expr.print, cons_append, cons_append], ?_, fun _ => rfl,
        by decide⟩
      rcases kind_callee name with hkind | hkind
      · rw [hkind]
        rfl
      · rw [operand_of_isCallable hkind]
        rfl
    | member mark base field | index mark base position =>
      rw [Expr.print, append_assoc]
      exact opens_operand (by decide) (ih base (by simp [Expr.children]))
    | list mark elements =>
      rw [Expr.print, cons_append, append_assoc, Expr.printAll_eq]
      by_cases hne : elements = []
      · subst hne
        exact ⟨_, _, _, rfl, rfl, fun h => absurd h Bool.false_ne_true, by decide⟩
      · exact (opens_separated hne (by decide) ih).cons rfl rfl
    | emptyList mark => exact ⟨_, _, _, rfl, rfl, fun h => absurd h Bool.false_ne_true, by decide⟩

lemma rereads_list {elements : List Expr} (helements : ∀ e ∈ elements, Rereads numeral e)
    (hne : elements ≠ []) : Rereads numeral (.list mark elements) := by
  intro depth limit s rest hdepth _ hedge hs
  simp only [Expr.print, Expr.printAll_eq, cons_append, append_assoc, nil_append,
    length_cons, length_append, length_nil] at hs hdepth
  apply Leads.of_operand
  apply Gives.kind hs
  apply Gives.advance hs (by simp)
  intro t ht htid
  have hopens : Opens t.tokens := ht ▸ opens_separated hne (by decide) fun e _ => opens_print numeral e
  obtain ⟨first, second, more, hfirst, hoperand, -⟩ := hopens
  apply Gives.kind hfirst
  have hopen : first.kind ≠ .closeBracket := by
    intro hkind
    rw [hkind] at hoperand
    cases hoperand
  rw [if_neg hopen]
  apply (gives_elements helements hne ⟨rfl, by decide⟩ (by omega) ht).bind
  intro elements' u hu huid helements'
  apply Gives.expect hu hedge.ne_nil
  intro v hv hvid
  apply Gives.node hv
  · have htaken : taken [.list mark elements] = taken elements + 1 := taken_singleton _
    omega
  · intro id
    rw [Expr.unmarked, Expr.unmarked, allUnmarked_eq, allUnmarked_eq, helements']

lemma rereads_index {base position : Expr} (hbase : Rereads numeral base)
    (hposition : Rereads numeral position) : Rereads numeral (.index mark base position) := by
  intro depth limit s rest hdepth habove hedge hs
  have hprint : (Expr.index mark base position).print numeral =
      base.operandTokens numeral tightest ++
        .fixed .openBracket :: (position.print numeral ++ [.fixed .closeBracket]) := by
    rw [Expr.print]
    rfl
  simp only [hprint, append_assoc, cons_append, nil_append, length_append,
    length_cons, length_nil] at hdepth hs
  have hoperand : Leads (expressionWithin depth) limit s
      (.fixed .openBracket :: (position.print numeral ++ .fixed .closeBracket :: rest))
      (s.nextId + taken [base]) base := by
    apply hbase.leads_operand (by omega) (by simp) _ hs
    intro hlevel
    have hedge' := base.edge_rank
    unfold tightest at hlevel
    exact ⟨above_tightest hlevel habove, stopped_of_rank (by omega) (by simp)⟩
  apply hoperand.extend rfl (decide_eq_true habove) (by simp; omega)
  intro base' t ht htid hbase'
  apply Gives.advance ht (by simp)
  intro u hu huid
  apply (hposition.gives_lowest (by omega) rfl hu).bind
  intro position' v hv hvid hposition'
  apply Gives.expect hv hedge.ne_nil
  intro w hw hwid
  apply Gives.node hw
  · have htaken : taken [.index mark base position] = taken [base] + taken [position] + 1 := by
      rw [taken_singleton]
      exact congrArg (· + 1) (taken_append [base] [position])
    omega
  · intro id
    exact congrArg₂ (Expr.index default) hbase' hposition'

lemma rereads_member {base : Expr} {field : String} (hbase : Rereads numeral base) :
    Rereads numeral (.member mark base field) := by
  intro depth limit s rest hdepth habove hedge hs
  have hprint : (Expr.member mark base field).print numeral =
      base.operandTokens numeral tightest ++ [.fixed .dot, .callee field] := by
    rw [Expr.print]
    rfl
  simp only [hprint, append_assoc, cons_append, nil_append, length_append,
    length_cons, length_nil] at hdepth hs
  have hoperand : Leads (expressionWithin depth) limit s (.fixed .dot :: .callee field :: rest)
      (s.nextId + taken [base]) base := by
    apply hbase.leads_operand (by omega) (by simp) _ hs
    intro hlevel
    have hedge' := base.edge_rank
    unfold tightest at hlevel
    exact ⟨above_tightest hlevel habove, stopped_of_rank (by omega) (by simp)⟩
  apply hoperand.extend rfl (decide_eq_true (Nat.lt_succ_of_lt habove)) (by simp)
  intro base' t ht htid hbase'
  apply Gives.advance ht (by simp)
  intro u hu huid
  apply Gives.current hu
  rw [if_pos (kind_callee field)]
  apply Gives.advance hu hedge.ne_nil
  intro v hv hvid
  apply Gives.node hv
  · have htaken : taken [.member mark base field] = taken [base] + 1 := taken_singleton _
    omega
  · intro id
    exact congrArg (Expr.member default · field) hbase'

lemma gives_callee {nested : Precedence → Parse Expr} {name : String}
    (hs : s.tokens = .callee name :: .fixed .openParen :: rest) :
    Gives (operand nested) s (.fixed .openParen :: rest) (s.nextId + 1)
      (·.unmarked = (Expr.identifier mark name).unmarked) := by
  apply Gives.kind hs
  rcases kind_callee name with hkind | hkind
  · rw [hkind]
    apply Gives.current hs
    simp only [hkind, pure_bind]
    apply Gives.advance hs (by simp)
    intro t ht htid
    exact .node ht (by rw [htid]) fun id => rfl
  · rw [operand_of_isCallable hkind]
    apply Gives.peekKind hs
    rw [if_neg (by simp)]
    apply Gives.advance hs (by simp)
    intro t ht htid
    exact .node ht (by rw [htid]) fun id => rfl

lemma gives_arguments (hes : ∀ e ∈ es, Rereads numeral e)
    (hdepth : (Token.separated (es.map (Expr.print numeral))).length ≤ depth)
    (hs : s.tokens = Token.separated (es.map (Expr.print numeral)) ++ .fixed .closeParen :: rest) :
    Gives (arguments (expressionWithin depth)) s (.fixed .closeParen :: rest) (s.nextId + taken es)
      (·.map unmarked = es.map unmarked) := by
  unfold arguments
  by_cases hne : es = []
  · subst hne
    apply Gives.kind hs
    rw [if_pos (Token.kind_fixed _)]
    exact .pure hs rfl rfl
  · have hopens : Opens s.tokens := hs ▸ opens_separated hne (by decide) fun e _ => opens_print numeral e
    obtain ⟨first, second, more, hfirst, hoperand, -⟩ := hopens
    apply Gives.kind hfirst
    have hopen : first.kind ≠ .closeParen := by
      intro hkind
      rw [hkind] at hoperand
      cases hoperand
    rw [if_neg hopen]
    exact gives_elements hes hne ⟨rfl, by decide⟩ hdepth hs

lemma rereads_call {name : String} (hes : ∀ e ∈ es, Rereads numeral e) : Rereads numeral (.call mark name es) := by
  intro depth limit s rest hdepth habove hedge hs
  simp only [Expr.print, Expr.printAll_eq, append_assoc, cons_append, nil_append,
    length_append, length_cons, length_nil] at hdepth hs
  have hcallee : Leads (expressionWithin depth) limit s
      (.fixed .openParen ::
        (Token.separated (es.map (Expr.print numeral)) ++ .fixed .closeParen :: rest))
      (s.nextId + 1) (.identifier mark name) := .of_operand (gives_callee hs)
  apply hcallee.extend rfl (decide_eq_true habove) (by simp; omega)
  intro left t ht htid hleft
  cases left with
  | identifier mark' name' =>
    obtain rfl : name' = name := by injection hleft
    apply Gives.advance ht (by simp)
    intro u hu huid
    apply (gives_arguments hes (by omega) hu).bind
    intro es' v hv hvid hes'
    apply Gives.expect hv hedge.ne_nil
    intro w hw hwid
    apply Gives.node hw
    · have htaken : taken [.call mark name' es] = taken es + 1 + 1 := taken_singleton _
      omega
    · intro id
      rw [Expr.unmarked, Expr.unmarked, allUnmarked_eq, allUnmarked_eq, hes']
  | _ => cases hleft

/-- Every expression whose nodes can be printed is read back. -/
theorem rereads (e : Expr) (h : ∀ n ∈ e.nodes, Legible numeral n) : Rereads numeral e := by
  induction e using Expr.children_induction with
  | step e ih =>
    have hchild : ∀ c ∈ e.children, Rereads numeral c :=
      fun c hc => ih c hc fun n hn => h n (Expr.mem_nodes_of_child hc hn)
    have hself := h e e.self_mem_nodes
    cases e with
    | literal mark value => exact rereads_literal hself
    | identifier mark name => exact rereads_identifier name
    | binary mark operator left right =>
      exact rereads_binary (hchild left (by simp [Expr.children]))
        (hchild right (by simp [Expr.children]))
    | unary mark sign operand => exact rereads_unary (hchild operand (by simp [Expr.children]))
    | call mark name es => exact rereads_call hchild
    | member mark base field => exact rereads_member (hchild base (by simp [Expr.children]))
    | index mark base position =>
      exact rereads_index (hchild base (by simp [Expr.children]))
        (hchild position (by simp [Expr.children]))
    | list mark elements => exact rereads_list hchild hself.1
    | emptyList mark => exact rereads_emptyList

lemma gives_expression (h : ∀ n ∈ e.nodes, Legible numeral n) (htoken : token.kind.operator? = none)
    (hs : s.tokens = e.print numeral ++ token :: rest) :
    Gives (expression .lowest) s (token :: rest) (s.nextId + taken [e]) (·.unmarked = e.unmarked) := by
  have hlength := congrArg List.length hs
  simp only [TokenStream.tokens, length_cons, length_append] at hlength
  apply Gives.get
  exact (rereads e h).gives_lowest (by omega) htoken hs

end Expressions

end Parse

end ChessEval
