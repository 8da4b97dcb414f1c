import ChessEval.Proofs.BoardTexts
import ChessEval.Proofs.Runs

/-!
# What the readers of the grammar build

The expressions read so far are followed through every reader of the grammar.
-/

namespace ChessEval

/-- Whether a node is a call, whose function is read as a name of its own. -/
def Expr.hasCallee : Expr → Bool
  | .call .. => true
  | _ => false

/-- What holds of the nodes of operands and of a new node holds when the node takes their place. -/
lemma Expr.forall_nodes_of_children {P : Expr → Prop} {before : List Expr} {e : Expr}
    (h : ∀ e' ∈ before ++ e.children, ∀ n ∈ e'.nodes, P n) (he : P e) :
    ∀ e' ∈ before ++ [e], ∀ n ∈ e'.nodes, P n := by
  intro e' he' n hn
  rcases List.mem_append.mp he' with he' | he'
  · exact h e' (List.mem_append_left _ he') n hn
  · rw [List.mem_singleton.mp he'] at hn
    rcases mem_nodes.mp hn with rfl | ⟨c, hc, hnc⟩
    · exact he
    · exact h c (List.mem_append_right _ hc) n hnc

def TokenStream.numbered (s : TokenStream) : TokenStream :=
  { s with nextId := s.nextId + 1 }

/-- A fact about a stream and the expressions read so far that the readers carry along: it is about
the numbers that are still free, and a new node takes the place of its operands. The name before the
arguments of a call is an operand that leaves no node. -/
class Carried (inv : TokenStream → List Expr → Prop) : Prop where
  steady : ∀ {s s' : TokenStream} {es : List Expr}, s'.file = s.file → s'.nextId = s.nextId →
    inv s es → inv s' es
  node : ∀ {s : TokenStream} {before : List Expr} {e : Expr}, e.id = s.nextId → e.Printable →
    e.hasCallee = false → inv s (before ++ e.children) → inv s.numbered (before ++ [e])
  call : ∀ {s : TokenStream} {before es : List Expr} {callee mark : Mark} {name : String},
    mark.id = s.nextId → inv s (before ++ .identifier callee name :: es) →
    inv s.numbered (before ++ [.call mark name es])

namespace Parse

variable {α β : Type} {inv : TokenStream → List Expr → Prop}

/-- Whenever a reader succeeds after the expressions `before` have been read, the expressions
`after a` have been read, and its result `a` is good. -/
def Reads (inv : TokenStream → List Expr → Prop) (before : List Expr) (reader : Parse α)
    (after : α → List Expr) (good : α → Prop) : Prop :=
  ∀ s a s', inv s before → reader.run s = (.ok a, s') → inv s' (after a) ∧ good a

/-- A reader that builds no nodes. -/
def Steady (reader : Parse α) : Prop :=
  ∀ s a s', reader.run s = (.ok a, s') → s'.file = s.file ∧ s'.nextId = s.nextId

namespace Reads

variable {before : List Expr} {x : Parse α} {f : α → Parse β} {mid : α → List Expr}
  {after : β → List Expr} {P : α → Prop} {Q : β → Prop}

lemma bind (hx : Reads inv before x mid P) (hf : ∀ a, P a → Reads inv (mid a) (f a) after Q) :
    Reads inv before (x >>= f) after Q := by
  intro s b s' hs h
  obtain ⟨a, t, ha, hb⟩ := run_bind_ok.mp h
  obtain ⟨ht, hP⟩ := hx s a t hs ha
  exact hf a hP t b s' ht hb

lemma pure {b : β} (hafter : after b = before) (hb : Q b) :
    Reads inv before (Pure.pure b) after Q := by
  intro s b' s' hs h
  cases h
  exact ⟨hafter ▸ hs, hb⟩

lemma throw (fault : Fault) : Reads inv before (throw fault : Parse β) after Q := by
  intro s b s' hs h
  cases h

lemma failed (hx : ∀ s a s', x.run s ≠ (.ok a, s')) : Reads inv before (x >>= f) after Q := by
  intro s b s' hs h
  obtain ⟨a, t, ha, -⟩ := run_bind_ok.mp h
  exact absurd ha (hx s a t)

lemma mono {mid' : α → List Expr} {P' : α → Prop} (hx : Reads inv before x mid P)
    (h : ∀ a, P a → mid a = mid' a ∧ P' a) : Reads inv before x mid' P' := by
  intro s a s' hs ha
  obtain ⟨ht, hP⟩ := hx s a s' hs ha
  obtain ⟨hmid, hP'⟩ := h a hP
  exact ⟨hmid ▸ ht, hP'⟩

variable [Carried inv]

lemma skip (hx : Steady x) (hf : ∀ a, Reads inv before (f a) after Q) :
    Reads inv before (x >>= f) after Q := by
  intro s b s' hs h
  obtain ⟨a, t, ha, hb⟩ := run_bind_ok.mp h
  obtain ⟨hfile, hid⟩ := hx s a t ha
  exact hf a t b s' (Carried.steady hfile hid hs) hb

lemma node {operands : List Expr} {build : Nat → Expr}
    (hid : ∀ id, (build id).id = id) (hchildren : ∀ id, (build id).children = operands)
    (hcallee : ∀ id, (build id).hasCallee = false) (hprintable : ∀ id, (build id).Printable) :
    Reads inv (before ++ operands) (freshId >>= fun id => Pure.pure (build id))
      (fun e => before ++ [e]) fun _ => True := by
  intro s e s' hs h
  cases h
  rw [← hchildren s.nextId] at hs
  exact ⟨Carried.node (hid _) (hprintable _) (hcallee _) hs, trivial⟩

lemma call {es : List Expr} {callee : Mark} {name : String} {line : Nat} :
    Reads inv (before ++ ([.identifier callee name] ++ es))
      (freshId >>= fun id => Pure.pure (.call ⟨id, line⟩ name es)) (fun e => before ++ [e])
      fun _ => True := by
  intro s e s' hs h
  cases h
  exact ⟨Carried.call rfl hs, trivial⟩

lemma leaf {build : Nat → Expr} (hid : ∀ id, (build id).id = id)
    (hchildren : ∀ id, (build id).children = []) (hcallee : ∀ id, (build id).hasCallee = false)
    (hprintable : ∀ id, (build id).Printable) :
    Reads inv before (freshId >>= fun id => Pure.pure (build id)) (fun e => before ++ [e])
      fun _ => True := by
  simpa using node hid hchildren hcallee hprintable

end Reads

lemma steady_get : Steady (get : Parse TokenStream) := by
  intro s a s' h
  cases h
  exact ⟨rfl, rfl⟩

lemma steady_current : Steady current := by
  intro s a s' h
  cases h
  exact ⟨rfl, rfl⟩

lemma steady_currentKind : Steady currentKind := by
  intro s a s' h
  cases h
  exact ⟨rfl, rfl⟩

lemma steady_peekKind : Steady peekKind := by
  intro s a s' h
  cases h
  exact ⟨rfl, rfl⟩

lemma steady_advance : Steady advance := by
  intro s a s' h
  cases h
  unfold TokenStream.next
  split <;> exact ⟨rfl, rfl⟩

lemma steady_pure (a : α) : Steady (pure a : Parse α) := by
  intro s b s' h
  cases h
  exact ⟨rfl, rfl⟩

lemma steady_throw (fault : Fault) : Steady (throw fault : Parse α) := by
  intro s a s' h
  cases h

lemma Steady.bind {x : Parse α} {f : α → Parse β} (hx : Steady x) (hf : ∀ a, Steady (f a)) :
    Steady (x >>= f) := by
  intro s b s' h
  obtain ⟨a, t, ha, hb⟩ := run_bind_ok.mp h
  obtain ⟨hfile, hid⟩ := hx s a t ha
  obtain ⟨hfile', hid'⟩ := hf a t b s' hb
  exact ⟨hfile'.trans hfile, hid'.trans hid⟩

lemma steady_expectOr (kind : TokenKind) (fault : Fault) : Steady (expectOr kind fault) := by
  apply steady_currentKind.bind
  intro current
  split
  · exact steady_advance
  · exact steady_throw fault

lemma steady_expect (kind : TokenKind) : Steady (expect kind) :=
  steady_get.bind fun _ => steady_expectOr kind _

lemma steady_expectFor (kind : TokenKind) (message : String) : Steady (expectFor kind message) :=
  steady_get.bind fun _ => steady_expectOr kind _

section Steps

variable [Carried inv] {before : List Expr} {after : α → List Expr} {good : α → Prop} {f : Token → Parse α}

lemma Reads.expect {kind : TokenKind} (hf : ∀ token, Reads inv before (f token) after good) :
    Reads inv before (expect kind >>= f) after good :=
  .skip (steady_expect kind) hf

lemma Reads.next (hf : ∀ token, Reads inv before (f token) after good) : Reads inv before (advance >>= f) after good :=
  .skip steady_advance hf

lemma Reads.kind {f : TokenKind → Parse α} (hf : ∀ kind, Reads inv before (f kind) after good) :
    Reads inv before (currentKind >>= f) after good :=
  .skip steady_currentKind hf

lemma reads_unexpected (message : String) : Reads inv before (unexpected message) after good :=
  .skip steady_get fun _ => .throw _

lemma reads_unexpectedToken : Reads inv before unexpectedToken after good :=
  .skip steady_get fun _ => .throw _

lemma reads_consumedToken (token : Token) : Reads inv before (consumedToken token) after good :=
  .skip steady_get fun _ => .throw _

end Steps

/-- A reader adds the expressions of its result to those read before. -/
def Adds (inv : TokenStream → List Expr → Prop) (reader : Parse α) (exprs : α → List Expr)
    (good : α → Prop) : Prop :=
  ∀ before, Reads inv before reader (fun a => before ++ exprs a) good

section Sequences

variable [Carried inv] {item : Parse α} {exprs : α → List Expr} {good : α → Prop}

lemma adds_commaTail (hitem : Adds inv item exprs good) (count : Nat) :
    Adds inv (commaTail item count) (·.flatMap exprs) (∀ a ∈ ·, good a) := by
  intro before
  induction count generalizing before with
  | zero => exact .pure (by simp) (by simp)
  | succ count ih =>
    unfold commaTail
    apply Reads.kind
    intro kind
    split
    · apply Reads.next
      intro _
      apply (hitem before).bind
      intro first hfirst
      apply (ih _).bind
      intro rest hrest
      exact .pure (by simp) (List.forall_mem_cons.mpr ⟨hfirst, hrest⟩)
    · exact .pure (by simp) (by simp)

lemma adds_commaSeparated (hitem : Adds inv item exprs good) :
    Adds inv (commaSeparated item) (·.flatMap exprs) fun items => items ≠ [] ∧ ∀ a ∈ items, good a := by
  intro before
  apply (hitem before).bind
  intro first hfirst
  apply Reads.skip steady_get
  intro s
  apply (adds_commaTail hitem _ _).bind
  intro rest hrest
  exact .pure (by simp) ⟨by simp, List.forall_mem_cons.mpr ⟨hfirst, hrest⟩⟩

lemma adds_itemsWithin (hitem : Adds inv item exprs good) (count : Nat) :
    Adds inv (itemsWithin item count) (·.flatMap exprs) (∀ a ∈ ·, good a) := by
  intro before
  induction count generalizing before with
  | zero => exact .pure (by simp) (by simp)
  | succ count ih =>
    unfold itemsWithin
    apply Reads.kind
    intro kind
    split
    · exact .pure (by simp) (by simp)
    · apply (hitem before).bind
      intro first hfirst
      apply (ih _).bind
      intro rest hrest
      exact .pure (by simp) (List.forall_mem_cons.mpr ⟨hfirst, hrest⟩)

lemma adds_braced (hitem : Adds inv item exprs good) :
    Adds inv (braced item) (·.flatMap exprs) (∀ a ∈ ·, good a) := by
  intro before
  apply Reads.expect
  intro _
  apply Reads.skip steady_get
  intro s
  apply (adds_itemsWithin hitem _ before).bind
  intro items hitems
  apply Reads.expect
  intro _
  exact .pure rfl hitems

end Sequences

/-- A reader of expressions adds the one that it gives. -/
abbrev AddsExpr (inv : TokenStream → List Expr → Prop) (reader : Parse Expr) : Prop :=
  Adds inv reader (fun e => [e]) fun _ => True

section Expressions

variable [Carried inv] {nested : Precedence → Parse Expr} {before : List Expr} {left : Expr}

lemma adds_primary : AddsExpr inv primary := by
  intro before
  unfold primary
  apply Reads.skip steady_current
  intro token
  have hliteral : ∀ value : Literal, value.Printable →
      Reads inv before
        (advance >>= fun _ => freshId >>= fun id => pure (.literal ⟨id, token.line⟩ value))
        (fun e => before ++ [e]) fun _ => True := fun _ hvalue =>
    .next fun _ => .leaf (fun _ => rfl) (fun _ => rfl) (fun _ => rfl) (fun _ => hvalue)
  simp only [pure_bind]
  split
  · split
    · exact hliteral _ trivial
    · apply Reads.skip steady_get
      intro s
      exact .failed fun _ _ _ h => by cases h
  · exact hliteral _ trivial
  · exact hliteral _ trivial
  · exact hliteral _ trivial
  · exact hliteral _ trivial
  · exact hliteral _ trivial
  · exact hliteral _ trivial
  · exact hliteral _ trivial
  · exact .next fun _ => .leaf (fun _ => rfl) (fun _ => rfl) (fun _ => rfl) (fun _ => trivial)
  · exact .failed fun _ _ _ h => by cases h

lemma adds_boardLiteral : AddsExpr inv boardLiteral := by
  intro before
  unfold boardLiteral
  apply Reads.next
  intro token
  split
  next value hvalue =>
    exact .leaf (fun _ => rfl) (fun _ => rfl) (fun _ => rfl) (fun _ => printable_of_boardLiteral hvalue)
  next => exact reads_consumedToken token

lemma adds_keywordCallee : AddsExpr inv keywordCallee := by
  intro before
  unfold keywordCallee
  apply Reads.skip steady_peekKind
  intro kind
  split
  · exact reads_unexpected _
  · apply Reads.next
    intro token
    exact .leaf (fun _ => rfl) (fun _ => rfl) (fun _ => rfl) (fun _ => trivial)

lemma adds_signed (hnested : ∀ limit, AddsExpr inv (nested limit)) : AddsExpr inv (signed nested) := by
  intro before
  unfold signed
  apply Reads.next
  intro token
  apply (hnested _ before).bind
  intro operand _
  exact .node (fun _ => rfl) (fun _ => rfl) (fun _ => rfl) (fun _ => trivial)

lemma adds_grouping (hnested : ∀ limit, AddsExpr inv (nested limit)) :
    AddsExpr inv (grouping nested) := by
  intro before
  unfold grouping
  apply Reads.next
  intro _
  apply (hnested _ before).bind
  intro e _
  apply Reads.expect
  intro _
  exact .pure rfl trivial

lemma adds_list (hnested : ∀ limit, AddsExpr inv (nested limit)) : AddsExpr inv (list nested) := by
  intro before
  unfold list
  apply Reads.next
  intro token
  apply Reads.kind
  intro kind
  split
  · apply Reads.next
    intro _
    exact .leaf (fun _ => rfl) (fun _ => rfl) (fun _ => rfl) (fun _ => trivial)
  · apply (adds_commaSeparated (hnested _) before).bind
    rintro elements ⟨hne, -⟩
    apply Reads.expect
    intro _
    simp only [List.flatMap_singleton']
    exact .node (fun _ => rfl) (fun _ => rfl) (fun _ => rfl) (fun _ => hne)

lemma reads_binary (hnested : ∀ limit, AddsExpr inv (nested limit)) (limit : Precedence) :
    Reads inv (before ++ [left]) (binary nested left limit) (fun e => before ++ [e])
      fun _ => True := by
  unfold binary
  apply Reads.next
  intro token
  split
  · exact reads_consumedToken token
  · apply (hnested limit _).bind
    intro right _
    rw [List.append_assoc]
    exact .node (fun _ => rfl) (fun _ => rfl) (fun _ => rfl) (fun _ => trivial)

lemma adds_arguments (hnested : ∀ limit, AddsExpr inv (nested limit)) :
    Adds inv (arguments nested) (fun es => es) fun _ => True := by
  intro before
  unfold arguments
  apply Reads.kind
  intro kind
  split
  · exact .pure (by simp) trivial
  · apply (adds_commaSeparated (hnested _) before).mono
    intro es _
    exact ⟨by simp, trivial⟩

lemma reads_call (hnested : ∀ limit, AddsExpr inv (nested limit)) :
    Reads inv (before ++ [left]) (call nested left) (fun e => before ++ [e]) fun _ => True := by
  unfold call
  split
  next mark name =>
    apply Reads.next
    intro _
    apply (adds_arguments hnested _).bind
    intro es _
    apply Reads.expect
    intro _
    rw [List.append_assoc]
    exact .call
  next => exact reads_unexpected _

lemma reads_index (hnested : ∀ limit, AddsExpr inv (nested limit)) :
    Reads inv (before ++ [left]) (index nested left) (fun e => before ++ [e]) fun _ => True := by
  unfold index
  apply Reads.next
  intro _
  apply (hnested _ _).bind
  intro position _
  apply Reads.expect
  intro _
  rw [List.append_assoc]
  exact .node (fun _ => rfl) (fun _ => rfl) (fun _ => rfl) (fun _ => trivial)

lemma reads_member :
    Reads inv (before ++ [left]) (member left) (fun e => before ++ [e]) fun _ => True := by
  unfold member
  apply Reads.next
  intro _
  apply Reads.skip steady_current
  intro token
  split
  · apply Reads.next
    intro _
    exact .node (fun _ => rfl) (fun _ => rfl) (fun _ => rfl) (fun _ => trivial)
  · exact reads_unexpected _

lemma adds_operand (hnested : ∀ limit, AddsExpr inv (nested limit)) : AddsExpr inv (operand nested) := by
  intro before
  unfold operand
  apply Reads.kind
  intro kind
  split
  · exact adds_primary before
  · exact adds_boardLiteral before
  · exact adds_keywordCallee before
  · exact adds_signed hnested before
  · exact adds_grouping hnested before
  · exact adds_list hnested before
  · exact reads_unexpectedToken

lemma reads_extend (hnested : ∀ limit, AddsExpr inv (nested limit)) (form : OperatorForm)
    (limit : Precedence) :
    Reads inv (before ++ [left]) (extend nested form left limit) (fun e => before ++ [e])
      fun _ => True := by
  cases form with
  | binary => exact reads_binary hnested limit
  | call => exact reads_call hnested
  | index => exact reads_index hnested
  | member => exact reads_member

lemma reads_extensions (hnested : ∀ limit, AddsExpr inv (nested limit)) (limit : Precedence)
    (count : Nat) :
    Reads inv (before ++ [left]) (extensions nested limit count left) (fun e => before ++ [e])
      fun _ => True := by
  induction count generalizing left with
  | zero => exact .pure rfl trivial
  | succ count ih =>
    unfold extensions
    apply Reads.kind
    intro kind
    split
    · split
      · apply (reads_extend hnested _ _).bind
        intro extended _
        exact ih
      · exact .pure rfl trivial
    · exact .pure rfl trivial

lemma adds_expressionWithin (depth : Nat) (limit : Precedence) :
    AddsExpr inv (expressionWithin depth limit) := by
  induction depth generalizing limit with
  | zero => exact fun before => reads_unexpectedToken
  | succ depth ih =>
    intro before
    unfold expressionWithin
    apply (adds_operand ih before).bind
    intro left _
    apply Reads.skip steady_get
    intro s
    exact reads_extensions ih limit _

lemma adds_expression (limit : Precedence) : AddsExpr inv (expression limit) := by
  intro before
  apply Reads.skip steady_get
  intro s
  exact adds_expressionWithin _ limit before

end Expressions

lemma eq_of_extensions_primary {nested : Precedence → Parse Expr} {count : Nat} {left e : Expr}
    {s s' : TokenStream} (h : (extensions nested .primary count left).run s = (.ok e, s')) :
    e = left := by
  cases count with
  | zero =>
    cases h
    rfl
  | succ count =>
    obtain ⟨kind, t, -, h⟩ := run_bind_ok.mp h
    split at h
    next form precedence hform =>
      have hlimit : Precedence.primary.looserThan precedence = false := by cases precedence <;> rfl
      rw [hlimit] at h
      cases h
      rfl
    next =>
      cases h
      rfl

lemma isIdentifier_of_primary {s s' : TokenStream} {e : Expr} (hkind : s.current.kind = .identifier)
    (h : (expression .primary).run s = (.ok e, s')) : e.isIdentifier = true := by
  obtain ⟨_, _, hget, h⟩ := run_bind_ok.mp h
  cases hget
  obtain ⟨left, t, hleft, h⟩ := run_bind_ok.mp h
  obtain ⟨_, _, hget, h⟩ := run_bind_ok.mp h
  rw [eq_of_extensions_primary h]
  obtain ⟨⟨kind, text, line, endLine⟩, ahead, file, id⟩ := s
  cases hkind
  cases hleft
  rfl

end Parse

end ChessEval
