import ChessEval.Proofs.Rereading
import Mathlib.Data.List.Basic

/-!
# Progress of the readers

A reader never leaves the tokens of its stream, and one that succeeds has consumed a token. So a reader that
calls itself nests less deep than there are tokens, a loop of a reader comes to its own end before the bound on
its rounds, and the bounds that the readers carry decide nothing.
-/

namespace ChessEval

namespace TokenStream

/-- A stream whose last token is an end token. -/
def Ended (s : TokenStream) : Prop :=
  ∃ last, s.tokens.getLast? = some last ∧ last.kind = .eof

variable {s t : TokenStream}

lemma Ended.of_suffix (hs : s.Ended) (h : t.tokens <:+ s.tokens) : t.Ended := by
  obtain ⟨last, hlast, hkind⟩ := hs
  obtain ⟨before, hbefore⟩ := h
  have hne : t.tokens ≠ [] := List.cons_ne_nil _ _
  rw [← hbefore, List.getLast?_append_of_ne_nil _ hne] at hlast
  exact ⟨last, hlast, hkind⟩

lemma Ended.kind_eq (hs : s.Ended) (h : s.rest = []) : s.current.kind = .eof := by
  obtain ⟨last, hlast, hkind⟩ := hs
  rw [tokens, h] at hlast
  cases hlast
  exact hkind

lemma tokens_next_suffix (s : TokenStream) : s.next.tokens <:+ s.tokens := by
  obtain ⟨current, _ | ⟨token, rest⟩, file, id⟩ := s
  · exact List.suffix_rfl
  · exact List.suffix_cons _ _

lemma Ended.length_next_lt (hs : s.Ended) (hkind : s.current.kind ≠ .eof) : s.next.rest.length < s.rest.length := by
  rcases hrest : s.rest with _ | ⟨token, rest⟩
  · exact absurd (hs.kind_eq hrest) hkind
  · rw [next, hrest]
    exact Nat.lt_succ_self _

lemma terminated_ended (tokens : List Token) :
    ∃ last, (terminated tokens).getLast? = some last ∧ last.kind = .eof := by
  unfold terminated
  split
  next last hlast =>
    split
    next hkind => exact ⟨last, hlast, hkind⟩
    next => exact ⟨Token.eof last.line, List.getLast?_concat, rfl⟩
  next => exact ⟨Token.eof 1, rfl, rfl⟩

lemma tokens_ofTokens (tokens : List Token) (file : String) : (ofTokens tokens file).tokens = terminated tokens := by
  obtain ⟨last, hlast, -⟩ := terminated_ended tokens
  unfold ofTokens
  split
  next first rest hterminated => exact hterminated.symm
  next hterminated =>
    rw [hterminated] at hlast
    cases hlast

lemma ended_ofTokens (tokens : List Token) (file : String) : (ofTokens tokens file).Ended := by
  rw [Ended, tokens_ofTokens]
  exact terminated_ended tokens

end TokenStream

namespace Parse

open TokenStream

variable {α β γ : Type} {n m : Nat}

/-- Fewer than `n` tokens are ahead. -/
def Below (n : Nat) (s : TokenStream) : Prop :=
  s.rest.length < n

/-- Fewer than `n` tokens are ahead, and the current one is no end token. -/
def Live (n : Nat) (s : TokenStream) : Prop :=
  Below n s ∧ s.current.kind ≠ .eof

/-- A token at which the grammar may find fault. -/
def Allows (F : Fault → Prop) (token : Token) : Prop :=
  ∀ fault : Fault, fault.line = token.line → (∀ text, fault.issue ≠ .unrecognisedToken text) → F fault

/-- A stream that ends with an end token, and that may have faults at all its tokens. -/
structure Ready (F : Fault → Prop) (s : TokenStream) : Prop where
  ended : s.Ended
  allows : ∀ token ∈ s.tokens, Allows F token

/-- Where a reader fails the fault is one of `F`, and where it succeeds `Q` holds. -/
def Meets (F : Fault → Prop) (Q : TokenStream → Prop) : Except Fault α × TokenStream → Prop
  | (.error fault, _) => F fault
  | (.ok _, s) => Q s

/-- Two readers do the same wherever `P` holds: they stay in the stream, their faults are at tokens of it, and `Q`
holds where they succeed. -/
def Alike (F : Fault → Prop) (P : TokenStream → Prop) (x x' : Parse α) (Q : TokenStream → Prop) : Prop :=
  ∀ s, Ready F s → P s → x.run s = x'.run s ∧ (x.run s).2.tokens <:+ s.tokens ∧ Meets F Q (x.run s)

/-- Two readers do the same where fewer than `n` tokens are ahead, and consume a token if they succeed. -/
def Agree (F : Fault → Prop) (n : Nat) (x x' : Parse α) : Prop :=
  ∀ m < n, Alike F (Below (m + 1)) x x' (Below m)

/-- A reader that consumes a token if it succeeds. -/
def Advances (F : Fault → Prop) (x : Parse α) : Prop :=
  ∀ n, Alike F (Below (n + 1)) x x (Below n)

section Conditions

variable {F : Fault → Prop} {Q Q' : TokenStream → Prop} {s t : TokenStream} {result : Except Fault α × TokenStream}

lemma Ready.of_suffix (hs : Ready F s) (h : t.tokens <:+ s.tokens) : Ready F t :=
  ⟨hs.ended.of_suffix h, fun token htoken => hs.allows token (h.subset htoken)⟩

lemma Ready.fault {issue : Issue} (hs : Ready F s) (h : ∀ text, issue ≠ .unrecognisedToken text) : F (s.fault issue) :=
  hs.allows s.current List.mem_cons_self _ rfl h

lemma Ready.unexpected (hs : Ready F s) (message : String) : F (s.unexpected message) :=
  hs.fault (by simp)

lemma Meets.mono (h : Meets F Q result) (hQ : ∀ s, Q s → Q' s) : Meets F Q' result := by
  obtain ⟨_ | a, s⟩ := result
  · exact h
  · exact hQ s h

lemma Meets.ok {a : α} (h : Meets F Q result) (hresult : result = (.ok a, s)) : Q s := by
  subst hresult
  exact h

lemma Meets.error {fault : Fault} (h : Meets F Q result) (hresult : result = (.error fault, s)) : F fault := by
  subst hresult
  exact h

end Conditions

variable {F : Fault → Prop}

namespace Alike

variable {P P' M Q Q' : TokenStream → Prop} {x x' : Parse α} {f f' : α → Parse β} {y : Parse γ}
  {g g' : γ → Parse β}

lemma bind (hx : Alike F P x x' M) (hf : ∀ a, Alike F M (f a) (f' a) Q) : Alike F P (x >>= f) (x' >>= f') Q := by
  intro s hs hP
  obtain ⟨hsame, hsuffix, hmeets⟩ := hx s hs hP
  rw [run_bind, run_bind, ← hsame]
  rcases hrun : x.run s with ⟨fault | a, t⟩
  · rw [hrun] at hsuffix hmeets
    exact ⟨rfl, hsuffix, hmeets⟩
  · rw [hrun] at hsuffix hmeets
    obtain ⟨hsame', hsuffix', hmeets'⟩ := hf a t (hs.of_suffix hsuffix) hmeets
    exact ⟨hsame', hsuffix'.trans hsuffix, hmeets'⟩

lemma pure {a : α} (h : ∀ s, s.Ended → P s → Q s) : Alike F P (Pure.pure a) (Pure.pure a) Q :=
  fun s hs hP => ⟨rfl, List.suffix_rfl, h s hs.ended hP⟩

lemma mono (h : Alike F P x x' Q) (hP : ∀ s, P' s → P s) (hQ : ∀ s, Q s → Q' s) : Alike F P' x x' Q' := by
  intro s hs hP'
  obtain ⟨hsame, hsuffix, hmeets⟩ := h s hs (hP s hP')
  exact ⟨hsame, hsuffix, hmeets.mono hQ⟩

lemma done {a : α} : Alike F P (Pure.pure a) (Pure.pure a) P :=
  .pure fun _ _ hs => hs

lemma weaken {R : TokenStream → Prop} (h : Alike F P x x' Q) : Alike F (fun s => P s ∧ R s) x x' Q :=
  h.mono (fun _ hs => hs.1) fun _ hs => hs

lemma here {t : TokenStream} (h : Alike F P x x' Q) (ht : P t) : Alike F (· = t) x x' Q :=
  h.mono (fun _ hs => hs ▸ ht) fun _ hs => hs

lemma left (h : Alike F P x x' Q) : Alike F P x x Q :=
  fun s hs hP => ⟨rfl, (h s hs hP).2⟩

lemma fails (h : ∀ s, Ready F s → ∃ fault, x.run s = (.error fault, s) ∧ F fault) : Alike F P x x Q := by
  intro s hs hP
  obtain ⟨fault, hrun, hfault⟩ := h s hs
  rw [hrun]
  exact ⟨rfl, List.suffix_rfl, hfault⟩

lemma look {R : TokenStream → γ → Prop} (hy : ∀ s, ∃ c, y.run s = (.ok c, s) ∧ R s c)
    (hg : ∀ c, Alike F (fun s => P s ∧ R s c) (g c) (g' c) Q) : Alike F P (y >>= g) (y >>= g') Q := by
  intro s hs hP
  obtain ⟨c, hrun, hR⟩ := hy s
  rw [run_bind, run_bind, hrun]
  exact hg c s hs ⟨hP, hR⟩

lemma skip (hy : ∀ s, ∃ c, y.run s = (.ok c, s)) (hg : ∀ c, Alike F P (g c) (g' c) Q) :
    Alike F P (y >>= g) (y >>= g') Q := by
  apply look (R := fun _ _ => True)
  · intro s
    obtain ⟨c, hrun⟩ := hy s
    exact ⟨c, hrun, trivial⟩
  · exact fun c => (hg c).weaken

lemma get {g g' : TokenStream → Parse β} (hg : ∀ c, Ready F c → P c → Alike F (· = c) (g c) (g' c) Q) :
    Alike F P (MonadState.get >>= g) (MonadState.get >>= g') Q :=
  fun s hs hP => hg s hs hP s hs rfl

lemma kind {g g' : TokenKind → Parse β}
    (hg : ∀ kind, Alike F (fun s => P s ∧ s.current.kind = kind) (g kind) (g' kind) Q) :
    Alike F P (currentKind >>= g) (currentKind >>= g') Q :=
  fun s hs hP => hg s.current.kind s hs ⟨hP, rfl⟩

lemma live {kind : TokenKind} (h : Alike F (Live n) x x' Q) (hkind : kind ≠ .eof) :
    Alike F (fun s => Below n s ∧ s.current.kind = kind) x x' Q :=
  h.mono (fun _ hs => ⟨hs.1, hs.2 ▸ hkind⟩) fun _ hs => hs

lemma round (hx : Alike F P x x' (Below m)) (hf : ∀ k, m = k + 1 → ∀ a, Alike F (Below (k + 1)) (f a) (f' a) Q) :
    Alike F P (x >>= f) (x' >>= f') Q := by
  -- a round consumes a token, so it cannot succeed where none is ahead
  cases m with
  | zero => exact hx.bind fun a s hs hP => absurd hP (Nat.not_lt_zero _)
  | succ k => exact hx.bind (hf k rfl)

lemma node {build : Nat → β} : Alike F (Below n) (freshId >>= fun id => Pure.pure (build id))
    (freshId >>= fun id => Pure.pure (build id)) (Below n) :=
  fun _ _ hP => ⟨rfl, List.suffix_rfl, hP⟩

end Alike

section Steps

lemma run_get_bind (g : TokenStream → Parse β) (s : TokenStream) : (get >>= g).run s = (g s).run s := rfl

variable {P Q : TokenStream → Prop} {x x' : Parse α} {kind : TokenKind}

lemma Agree.keeps (h : Agree F n x x') : Alike F (Below n) x x' (Below n) := by
  intro s hs hP
  obtain ⟨hsame, hsuffix, hmeets⟩ := h s.rest.length hP s hs (Nat.lt_succ_self _)
  exact ⟨hsame, hsuffix, hmeets.mono fun t ht => ht.trans hP⟩

lemma Advances.agree (h : Advances F x) (n : Nat) : Agree F n x x :=
  fun m _ => h m

lemma Advances.keeps (h : Advances F x) : Alike F (Below n) x x (Below n) :=
  (h.agree n).keeps

lemma alike_consume {g g' : Token → Parse β}
    (hg : ∀ token, Allows F token → Alike F (Below n) (g token) (g' token) Q) :
    Alike F (Live (n + 1)) (advance >>= g) (advance >>= g') Q := by
  intro s hs hP
  have hbelow : Below n s.next := (hs.ended.length_next_lt hP.2).trans_le (Nat.le_of_lt_succ hP.1)
  obtain ⟨hsame, hsuffix, hmeets⟩ := hg s.current (hs.allows _ List.mem_cons_self) s.next
    (hs.of_suffix s.tokens_next_suffix) hbelow
  exact ⟨hsame, hsuffix.trans s.tokens_next_suffix, hmeets⟩

lemma alike_advance : Alike F (Live (n + 1)) advance advance (Below n) :=
  fun s hs hP => ⟨rfl, s.tokens_next_suffix, (hs.ended.length_next_lt hP.2).trans_le (Nat.le_of_lt_succ hP.1)⟩

lemma alike_throw {fault : Fault} (h : F fault) : Alike F P (throw fault : Parse α) (throw fault) Q :=
  .fails fun _ _ => ⟨fault, rfl, h⟩

lemma alike_unexpected (message : String) : Alike F P (unexpected message : Parse α) (unexpected message) Q :=
  .fails fun _ hs => ⟨_, rfl, hs.unexpected message⟩

lemma alike_unexpectedToken : Alike F P (unexpectedToken : Parse α) unexpectedToken Q :=
  .fails fun _ hs => ⟨_, rfl, hs.fault (by simp)⟩

lemma alike_consumedToken {token : Token} (h : Allows F token) :
    Alike F P (consumedToken token : Parse α) (consumedToken token) Q :=
  .fails fun _ _ => ⟨_, rfl, h _ rfl (by simp)⟩

lemma advances_expectOr {fault : Fault} (h : F fault) (hkind : kind ≠ .eof) : Advances F (expectOr kind fault) := by
  intro n
  apply Alike.kind
  intro current
  split
  next hcurrent => exact alike_advance.live (hcurrent ▸ hkind)
  next => exact alike_throw h

lemma advances_expect (hkind : kind ≠ .eof) : Advances F (expect kind) :=
  fun n => .get fun _ hs hP => (advances_expectOr (hs.unexpected _) hkind n).here hP

lemma advances_expectFor (message : String) (hkind : kind ≠ .eof) : Advances F (expectFor kind message) :=
  fun n => .get fun _ hs hP => (advances_expectOr (hs.unexpected _) hkind n).here hP

lemma Below.next {s : TokenStream} (h : Below n s) : Below n s.next := by
  have hlength := s.tokens_next_suffix.length_le
  simp only [tokens, List.length_cons] at hlength
  exact (Nat.le_of_succ_le_succ hlength).trans_lt h

lemma alike_advance_keeps : Alike F (Below n) advance advance (Below n) :=
  fun s _ hP => ⟨rfl, s.tokens_next_suffix, hP.next⟩

lemma alike_expects {g g' : Token → Parse β} (hkind : kind ≠ .eof)
    (hg : ∀ token, Allows F token → Alike F (Below n) (g token) (g' token) Q) :
    Alike F (Below n) (expect kind >>= g) (expect kind >>= g') Q := by
  have hrun : ∀ (g : Token → Parse β) (s : TokenStream), (expect kind >>= g).run s =
      (if s.current.kind = kind then advance >>= g else throw (s.unexpected ("expected " ++ kind.name))).run s := by
    intro g s
    change ((if s.current.kind = kind then advance else throw _ : Parse Token) >>= g).run s = _
    split <;> rfl
  intro s hs hP
  rw [hrun, hrun]
  split
  next hcurrent =>
    have hlive : Live (n + 1) s := ⟨Nat.lt_succ_of_lt hP, hcurrent ▸ hkind⟩
    exact alike_consume hg s hs hlive
  next => exact ⟨rfl, List.suffix_rfl, hs.unexpected _⟩

lemma Below.kind_eq {s : TokenStream} (h : Below 1 s) (hs : s.Ended) : s.current.kind = .eof :=
  hs.kind_eq (List.length_eq_zero_iff.mp (Nat.lt_one_iff.mp h))

end Steps

section Loops

variable {item item' : Parse α} {count : Nat}

lemma alike_commaTail (hitem : Agree F n item item') (hm : m < n) (hcount : m ≤ count) :
    Alike F (Below (m + 1)) (commaTail item count) (commaTail item' count)
      fun s => Below (m + 1) s ∧ s.current.kind ≠ .comma := by
  induction count generalizing m with
  | zero =>
    -- the bound on the rounds is reached at the end token only, where the loop ends anyway
    obtain rfl : m = 0 := Nat.le_zero.mp hcount
    refine .pure fun s hs hP => ⟨hP, ?_⟩
    rw [hP.kind_eq hs]
    decide
  | succ count ih =>
    apply Alike.kind
    intro kind
    split
    next hcomma =>
      apply (alike_advance.live (by rw [hcomma]; decide)).bind
      intro _
      apply (Agree.keeps fun k hk => hitem k (hk.trans hm)).round
      rintro k rfl first
      apply (ih (Nat.lt_of_succ_lt hm) (Nat.le_of_succ_le_succ hcount)).bind
      intro rest
      exact .pure fun s _ hs => ⟨Nat.lt_succ_of_lt hs.1, hs.2⟩
    next hcomma => exact .pure fun s _ hs => ⟨hs.1, hs.2 ▸ hcomma⟩

lemma alike_commaSeparated (hitem : Agree F n item item') (hm : m < n) :
    Alike F (Below (m + 1)) (commaSeparated item) (commaSeparated item')
      fun s => Below m s ∧ s.current.kind ≠ .comma := by
  apply (hitem m hm).bind
  intro first
  apply Alike.get
  intro t _ ht
  have htail := alike_commaTail hitem (ht.trans hm) (le_refl t.rest.length)
  apply (htail.here (Nat.lt_succ_self _)).bind
  intro rest
  exact .pure fun s _ hs => ⟨(Nat.le_of_lt_succ hs.1).trans_lt ht, hs.2⟩

lemma agree_commaSeparated (hitem : Agree F n item item') : Agree F n (commaSeparated item) (commaSeparated item') :=
  fun _ hm => (alike_commaSeparated hitem hm).mono (fun _ hs => hs) fun _ hs => hs.1

lemma alike_itemsWithin (hitem : Agree F n item item') (hm : m < n) (hcount : m ≤ count) :
    Alike F (Below (m + 1)) (itemsWithin item count) (itemsWithin item' count)
      fun s => Below (m + 1) s ∧ (s.current.kind = .eof ∨ s.current.kind = .closeCurly) := by
  induction count generalizing m with
  | zero =>
    obtain rfl : m = 0 := Nat.le_zero.mp hcount
    exact .pure fun s hs hP => ⟨hP, .inl (hP.kind_eq hs)⟩
  | succ count ih =>
    apply Alike.kind
    intro kind
    split
    next hend => exact .pure fun s _ hs => ⟨hs.1, hs.2 ▸ hend⟩
    next =>
      apply ((hitem m hm).mono (fun s hs => hs.1) fun s hs => hs).round
      rintro k rfl first
      apply (ih (Nat.lt_of_succ_lt hm) (Nat.le_of_succ_le_succ hcount)).bind
      intro rest
      exact .pure fun s _ hs => ⟨Nat.lt_succ_of_lt hs.1, hs.2⟩

lemma alike_braced (hitem : Agree F n item item') :
    Alike F (Below (n + 1)) (braced item) (braced item') (Below n) := by
  apply (advances_expect (by decide) n).bind
  intro _
  apply Alike.get
  intro t _ ht
  have hitems := alike_itemsWithin hitem ht (le_refl t.rest.length)
  apply ((hitems.here (Nat.lt_succ_self _)).mono (fun _ hs => hs) fun s hs => (Nat.le_of_lt_succ hs.1).trans_lt ht).bind
  intro items
  apply (advances_expect (by decide)).keeps.bind
  intro _
  exact .done

end Loops

section Types

variable {limit : Precedence} {count : Nat}

lemma advances_scalarType : Advances F scalarType := by
  intro n
  apply Alike.kind
  intro kind
  split
  next type htype =>
    have hkind : kind ≠ .eof := by
      rintro rfl
      cases htype
    exact (alike_advance.live hkind).bind fun _ => .done
  next => exact alike_unexpected _

lemma alike_arraySuffixes {type : Ty} (hcount : m ≤ count) :
    Alike F (Below (m + 1)) (arraySuffixes limit count type) (arraySuffixes limit count type)
      fun s => Below (m + 1) s ∧ ¬ (s.current.kind.continuesType ∧ limit.looserThan .call) := by
  induction count generalizing m type with
  | zero =>
    obtain rfl : m = 0 := Nat.le_zero.mp hcount
    refine .pure fun s hs hP => ⟨hP, ?_⟩
    rw [hP.kind_eq hs]
    rintro ⟨h, -⟩
    cases h
  | succ count ih =>
    apply Alike.kind
    intro kind
    split
    next =>
      apply ((advances_expect (by decide) m).mono (fun s hs => hs.1) fun s hs => hs).bind
      intro _
      apply (advances_expect (by decide)).keeps.round
      rintro k rfl _
      exact (ih (Nat.le_of_succ_le_succ hcount)).mono (fun s hs => hs) fun s hs => ⟨Nat.lt_succ_of_lt hs.1, hs.2⟩
    next hend =>
      refine .pure fun s _ hs => ⟨hs.1, fun hopen => hend ?_⟩
      rw [hs.2] at hopen
      rwa [TokenKind.typePrecedence?, if_pos hopen.1]

lemma alike_type : Alike F (Below (n + 1)) (type limit) (type limit)
    fun s => Below n s ∧ ¬ (s.current.kind.continuesType ∧ limit.looserThan .call) := by
  apply (advances_scalarType n).bind
  intro scalar
  apply Alike.get
  intro t _ ht
  exact (alike_arraySuffixes le_rfl).mono (fun s hs => hs ▸ Nat.lt_succ_self _)
    fun s hs => ⟨(Nat.le_of_lt_succ hs.1).trans_lt ht, hs.2⟩

lemma advances_type : Advances F (type limit) :=
  fun _ => alike_type.mono (fun _ hs => hs) fun _ hs => hs.1

lemma advances_valueType : Advances F valueType := by
  intro n
  apply Alike.get
  intro start hready hstart
  apply ((advances_type n).here hstart).bind
  intro type
  split
  · exact alike_throw (hready.fault (by simp))
  · exact .done

end Types

section Expressions

variable {nested nested' : Precedence → Parse Expr} {limit : Precedence} {left : Expr}

lemma alike_primary : Alike F (Live (n + 1)) primary primary (Below n) := by
  unfold primary
  apply Alike.skip fun s => ⟨s.current, rfl⟩
  intro token
  have hend : ∀ build : Nat → Expr, Alike F (Live (n + 1))
      (advance >>= fun _ => freshId >>= fun id => pure (build id))
      (advance >>= fun _ => freshId >>= fun id => pure (build id)) (Below n) :=
    fun build => alike_advance.bind fun _ => .node
  simp only [pure_bind]
  split
  · split
    · exact hend _
    · exact .fails fun s hs => ⟨_, rfl, hs.fault (by simp)⟩
  · exact hend _
  · exact hend _
  · exact hend _
  · exact hend _
  · exact hend _
  · exact hend _
  · exact hend _
  · exact hend _
  · exact .fails fun s hs => ⟨_, rfl, hs.fault (by simp)⟩

lemma alike_boardLiteral : Alike F (Live (n + 1)) boardLiteral boardLiteral (Below n) := by
  apply alike_consume
  intro token htoken
  split
  · exact .node
  · exact alike_consumedToken htoken

lemma alike_keywordCallee : Alike F (Live (n + 1)) keywordCallee keywordCallee (Below n) := by
  apply Alike.skip fun s => ⟨s.peekKind, rfl⟩
  intro kind
  split
  · exact alike_unexpected _
  · exact alike_advance.bind fun _ => .node

variable (hnested : ∀ limit, Agree F n (nested limit) (nested' limit))
include hnested

lemma alike_signed : Alike F (Live (n + 1)) (signed nested) (signed nested') (Below n) := by
  apply alike_advance.bind
  intro token
  exact (hnested _).keeps.bind fun _ => .node

lemma alike_grouping : Alike F (Live (n + 1)) (grouping nested) (grouping nested') (Below n) := by
  apply alike_advance.bind
  intro _
  apply (hnested _).keeps.bind
  intro e
  apply (advances_expect (by decide)).keeps.bind
  intro _
  exact .done

lemma alike_list : Alike F (Live (n + 1)) (list nested) (list nested') (Below n) := by
  apply alike_advance.bind
  intro token
  apply Alike.kind
  intro kind
  split
  · exact alike_advance_keeps.weaken.bind fun _ => .node
  · apply (agree_commaSeparated (hnested _)).keeps.weaken.bind
    intro elements
    exact (advances_expect (by decide)).keeps.bind fun _ => .node

lemma alike_binary : Alike F (Live (n + 1)) (binary nested left limit) (binary nested' left limit) (Below n) := by
  apply alike_consume
  intro token htoken
  split
  · exact alike_consumedToken htoken
  · exact (hnested _).keeps.bind fun _ => .node

lemma alike_arguments : Alike F (Below n) (arguments nested) (arguments nested') (Below n) := by
  apply Alike.kind
  intro kind
  split
  · exact .pure fun _ _ hs => hs.1
  · exact (agree_commaSeparated (hnested _)).keeps.weaken

lemma alike_call : Alike F (Live (n + 1)) (call nested left) (call nested' left) (Below n) := by
  unfold call
  split
  · apply alike_advance.bind
    intro _
    apply (alike_arguments hnested).bind
    intro arguments
    exact (advances_expect (by decide)).keeps.bind fun _ => .node
  · exact alike_unexpected _

lemma alike_index : Alike F (Live (n + 1)) (index nested left) (index nested' left) (Below n) := by
  apply alike_advance.bind
  intro _
  apply (hnested _).keeps.bind
  intro position
  exact (advances_expect (by decide)).keeps.bind fun _ => .node

omit hnested in
lemma alike_member : Alike F (Live (n + 1)) (member left) (member left) (Below n) := by
  apply alike_advance.bind
  intro _
  apply Alike.skip fun s => ⟨s.current, rfl⟩
  intro token
  split
  · exact alike_advance_keeps.bind fun _ => .node
  · exact alike_unexpected _

lemma alike_operand : Alike F (Below (n + 1)) (operand nested) (operand nested') (Below n) := by
  apply Alike.kind
  intro kind
  have hkind : ∀ {form}, kind.operand? = some form → kind ≠ .eof := by
    rintro form h rfl
    cases h
  split
  next h => exact alike_primary.live (hkind h)
  next h => exact alike_boardLiteral.live (hkind h)
  next h => exact alike_keywordCallee.live (hkind h)
  next h => exact (alike_signed hnested).live (hkind h)
  next h => exact (alike_grouping hnested).live (hkind h)
  next h => exact (alike_list hnested).live (hkind h)
  next => exact alike_unexpectedToken

lemma alike_extend (form : OperatorForm) (left : Expr) (limit : Precedence) :
    Alike F (Live (n + 1)) (extend nested form left limit) (extend nested' form left limit) (Below n) := by
  cases form with
  | binary => exact alike_binary hnested
  | call => exact alike_call hnested
  | index => exact alike_index hnested
  | member => exact alike_member

lemma alike_extensions {count : Nat} (hm : m < n) (hcount : m ≤ count) :
    Alike F (Below (m + 1)) (extensions nested limit count left) (extensions nested' limit count left)
      fun s => Below (m + 1) s ∧ Stopped limit s.tokens := by
  induction count generalizing m left with
  | zero =>
    obtain rfl : m = 0 := Nat.le_zero.mp hcount
    refine .pure fun s hs hP => ⟨hP, .of_none ?_⟩
    rw [hP.kind_eq hs]
    rfl
  | succ count ih =>
    apply Alike.kind
    intro kind
    split
    next form precedence hoperator =>
      split
      next =>
        have hkind : kind ≠ .eof := by
          rintro rfl
          cases hoperator
        have hextend := alike_extend (fun limit k hk => hnested limit k (hk.trans hm)) form left precedence
        apply (hextend.live hkind).round
        rintro k rfl left
        exact (ih (Nat.lt_of_succ_lt hm) (Nat.le_of_succ_le_succ hcount)).mono (fun s hs => hs)
          fun s hs => ⟨Nat.lt_succ_of_lt hs.1, hs.2⟩
      next hlooser =>
        refine .pure fun s _ hs => ⟨hs.1, fun form' precedence' h => ?_⟩
        rw [hs.2, hoperator] at h
        cases h
        simpa [Precedence.looserThan] using hlooser
    next hoperator => exact .pure fun s _ hs => ⟨hs.1, .of_none (hs.2 ▸ hoperator)⟩

omit hnested in
def expressionStep (nested : Precedence → Parse Expr) (limit : Precedence) : Parse Expr := do
  let left ← operand nested
  extensions nested limit (← get).rest.length left

lemma alike_expressionStep : Alike F (Below (n + 1)) (expressionStep nested limit) (expressionStep nested' limit)
    fun s => Below n s ∧ Stopped limit s.tokens := by
  apply (alike_operand hnested).bind
  intro left
  apply Alike.get
  intro t _ ht
  exact ((alike_extensions hnested ht le_rfl).here (Nat.lt_succ_self _)).mono (fun s hs => hs)
    fun s hs => ⟨(Nat.le_of_lt_succ hs.1).trans_lt ht, hs.2⟩

omit hnested

lemma expressionWithin_eq (depth : Nat) : expressionWithin depth = expressionStep^[depth] fun _ => unexpectedToken := by
  induction depth with
  | zero => rfl
  | succ depth ih =>
    rw [Function.iterate_succ_apply', ← ih]
    rfl

/-- Where expressions nest deeper than there are tokens ahead is never reached. -/
theorem alike_expressions {depth depth' : Nat} (hdepth : n < depth) (hdepth' : n < depth')
    (stuck stuck' : Precedence → Parse Expr) (limit : Precedence) :
    Alike F (Below (n + 1)) (expressionStep^[depth] stuck limit) (expressionStep^[depth'] stuck' limit)
      fun s => Below n s ∧ Stopped limit s.tokens := by
  induction depth generalizing n depth' limit with
  | zero => exact absurd hdepth (Nat.not_lt_zero n)
  | succ depth ih =>
    obtain ⟨depth', rfl⟩ := Nat.exists_eq_add_one_of_ne_zero (Nat.ne_zero_of_lt hdepth')
    rw [Function.iterate_succ_apply', Function.iterate_succ_apply']
    -- parts are read where fewer tokens are ahead, so one level less is enough for them
    refine alike_expressionStep fun limit m hm => ?_
    exact (ih (by omega) (by omega) limit).mono (fun _ hs => hs) fun _ hs => hs.1

lemma alike_expression {depth : Nat} (hdepth : n < depth) (stuck : Precedence → Parse Expr) :
    Alike F (Below (n + 1)) (expression limit) (expressionStep^[depth] stuck limit)
      fun s => Below n s ∧ Stopped limit s.tokens := by
  intro s hs hP
  have hle : s.rest.length ≤ n := Nat.le_of_lt_succ hP
  have halike := alike_expressions (F := F) (Nat.lt_succ_self s.rest.length) (hle.trans_lt hdepth) (fun _ => unexpectedToken)
    stuck limit
  have hrun : (expression limit).run s = (expressionWithin (s.rest.length + 1) limit).run s := run_get_bind _ s
  rw [← expressionWithin_eq] at halike
  rw [hrun]
  exact (halike.mono (fun s hs => hs) fun t ht => ⟨ht.1.trans_le hle, ht.2⟩) s hs (Nat.lt_succ_self _)

lemma advances_expression : Advances F (expression limit) :=
  fun n => (alike_expression (Nat.lt_succ_self n) fun _ => unexpectedToken).left.mono (fun _ hs => hs) fun _ hs => hs.1

end Expressions

section Statements

variable {nested nested' : Parse Stmt}

lemma advances_assignment : Advances F assignment := by
  intro n
  apply (advances_expression n).bind
  intro target
  apply (advances_expect (by decide)).keeps.bind
  intro _
  apply advances_expression.keeps.bind
  intro value
  exact (advances_expect (by decide)).keeps.bind fun _ => .done

lemma advances_declarator : Advances F declarator := by
  intro n
  apply (advances_expectFor _ (by decide) n).bind
  intro token
  apply Alike.kind
  intro kind
  split
  · apply alike_advance_keeps.weaken.bind
    intro _
    exact advances_expression.keeps.bind fun _ => .done
  · exact .pure fun _ _ hs => hs.1

lemma advances_declaration : Advances F declaration := by
  intro n
  apply Alike.skip fun s => ⟨s.current, rfl⟩
  intro token
  apply (advances_valueType n).bind
  intro type
  apply (agree_commaSeparated (advances_declarator.agree n)).keeps.bind
  intro declarators
  exact (advances_expect (by decide)).keeps.bind fun _ => .done

lemma alike_returnStmt : Alike F (Live (n + 1)) returnStmt returnStmt (Below n) := by
  apply alike_advance.bind
  intro token
  apply Alike.kind
  intro kind
  have hend : ∀ value, Alike F (Below n) (expect .semicolon >>= fun _ => pure (Stmt.returns value token.line))
      (expect .semicolon >>= fun _ => pure (Stmt.returns value token.line)) (Below n) :=
    fun value => (advances_expect (by decide)).keeps.bind fun _ => .done
  simp only [pure_bind, map_eq_pure_bind, bind_assoc]
  split
  · exact (hend none).weaken
  · exact advances_expression.keeps.weaken.bind fun value => hend (some value)

lemma alike_scoreStmt : Alike F (Live (n + 1)) scoreStmt scoreStmt (Below n) := by
  apply alike_advance.bind
  intro token
  apply advances_expression.keeps.bind
  intro value
  exact (advances_expect (by decide)).keeps.bind fun _ => .done

lemma advances_callStmt : Advances F callStmt := by
  intro n
  apply (advances_expression n).bind
  intro site
  split
  · exact (advances_expect (by decide)).keeps.bind fun _ => .done
  · exact alike_unexpected _

variable (hnested : Agree F n nested nested')
include hnested

lemma keeps_blockOf : Alike F (Below n) (blockOf nested) (blockOf nested') (Below n) :=
  Agree.keeps fun _ hm => alike_braced fun k hk => hnested k (hk.trans hm)

lemma alike_elseBranch : Alike F (Below n) (elseBranch nested) (elseBranch nested') (Below n) := by
  apply Alike.kind
  intro kind
  split
  · apply alike_advance_keeps.weaken.bind
    intro _
    apply Alike.kind
    intro next
    split
    · apply hnested.keeps.weaken.bind
      exact fun _ => .done
    · apply (keeps_blockOf hnested).weaken.bind
      exact fun _ => .done
  · exact .pure fun _ _ hs => hs.1

lemma alike_conditional : Alike F (Live (n + 1)) (conditional nested) (conditional nested') (Below n) := by
  apply alike_advance.bind
  intro token
  apply advances_expression.keeps.bind
  intro condition
  apply (keeps_blockOf hnested).bind
  intro body
  exact (alike_elseBranch hnested).bind fun _ => .done

lemma alike_whileLoop : Alike F (Live (n + 1)) (whileLoop nested) (whileLoop nested') (Below n) := by
  apply alike_advance.bind
  intro token
  apply advances_expression.keeps.bind
  intro condition
  exact (keeps_blockOf hnested).bind fun _ => .done

lemma alike_forallLoop : Alike F (Live (n + 1)) (forallLoop nested) (forallLoop nested') (Below n) := by
  apply alike_advance.bind
  intro token
  apply (advances_expect (by decide)).keeps.bind
  intro _
  apply (advances_expect (by decide)).keeps.bind
  intro name
  apply (advances_expect (by decide)).keeps.bind
  intro _
  apply advances_expression.keeps.bind
  intro source
  apply (advances_expect (by decide)).keeps.bind
  intro _
  exact (keeps_blockOf hnested).bind fun _ => .done

omit hnested in
lemma run_statementForm (s : TokenStream) :
    ∃ form, statementForm?.run s = (.ok form, s) ∧ (form.isSome → s.current.kind ≠ .eof) := by
  by_cases hcall : s.current.kind.isCallable ∧ s.peekKind = .openParen
  · refine ⟨none, ?_, by simp⟩
    change (if s.current.kind.isCallable ∧ s.peekKind = .openParen then pure none
      else pure s.current.kind.statement? : Parse (Option StmtForm)).run s = _
    rw [if_pos hcall]
    rfl
  · refine ⟨s.current.kind.statement?, ?_, ?_⟩
    · change (if s.current.kind.isCallable ∧ s.peekKind = .openParen then pure none
        else pure s.current.kind.statement? : Parse (Option StmtForm)).run s = _
      rw [if_neg hcall]
      rfl
    · intro h heof
      rw [heof] at h
      cases h

lemma alike_statementOf : Alike F (Below (n + 1)) (statementOf nested) (statementOf nested') (Below n) := by
  apply Alike.look run_statementForm
  intro form
  have hlive : ∀ {x x' : Parse Stmt} {form : StmtForm}, Alike F (Live (n + 1)) x x' (Below n) →
      Alike F (fun s => Below (n + 1) s ∧ ((some form).isSome → s.current.kind ≠ .eof)) x x' (Below n) :=
    fun h => h.mono (fun _ hs => ⟨hs.1, hs.2 rfl⟩) fun _ hs => hs
  split
  · exact hlive (alike_conditional hnested)
  · exact hlive (alike_whileLoop hnested)
  · exact hlive (alike_forallLoop hnested)
  · exact hlive alike_returnStmt
  · exact hlive alike_scoreStmt
  · exact (advances_declaration n).weaken
  · refine Alike.mono (P := Below (n + 1)) (Q := Below n) ?_ (fun _ hs => hs.1) fun _ hs => hs
    apply Alike.skip fun s => ⟨s.current.kind, rfl⟩
    intro kind
    apply Alike.skip fun s => ⟨s.peekKind, rfl⟩
    intro next
    split
    · exact advances_assignment n
    · exact advances_callStmt n

omit hnested

lemma statementWithin_eq (depth : Nat) : statementWithin depth = statementOf^[depth] unexpectedToken := by
  induction depth with
  | zero => rfl
  | succ depth ih =>
    rw [Function.iterate_succ_apply', ← ih]
    rfl

/-- Where statements nest deeper than there are tokens ahead is never reached. -/
theorem alike_statements {depth depth' : Nat} (hdepth : n < depth) (hdepth' : n < depth') (stuck stuck' : Parse Stmt) :
    Alike F (Below (n + 1)) (statementOf^[depth] stuck) (statementOf^[depth'] stuck') (Below n) := by
  induction depth generalizing n depth' with
  | zero => exact absurd hdepth (Nat.not_lt_zero n)
  | succ depth ih =>
    obtain ⟨depth', rfl⟩ := Nat.exists_eq_add_one_of_ne_zero (Nat.ne_zero_of_lt hdepth')
    rw [Function.iterate_succ_apply', Function.iterate_succ_apply']
    exact alike_statementOf fun m hm => ih (by omega) (by omega)

lemma alike_statement {depth : Nat} (hdepth : n < depth) (stuck : Parse Stmt) :
    Alike F (Below (n + 1)) statement (statementOf^[depth] stuck) (Below n) := by
  intro s hs hP
  have hle : s.rest.length ≤ n := Nat.le_of_lt_succ hP
  have halike := alike_statements (F := F) (Nat.lt_succ_self s.rest.length) (hle.trans_lt hdepth) unexpectedToken stuck
  have hrun : statement.run s = (statementWithin (s.rest.length + 1)).run s := run_get_bind _ s
  rw [← statementWithin_eq] at halike
  rw [hrun]
  exact (halike.mono (fun s hs => hs) fun t ht => ht.trans_le hle) s hs (Nat.lt_succ_self _)

lemma advances_statement : Advances F statement :=
  fun n => (alike_statement (Nat.lt_succ_self n) unexpectedToken).left

end Statements

section Programs

lemma keeps_block : Alike F (Below n) block block (Below n) :=
  keeps_blockOf (advances_statement.agree n)

lemma alike_configNumber : Alike F (Below n) configNumber configNumber (Below n) := by
  apply Alike.skip fun s => ⟨s.current.kind, rfl⟩
  intro kind
  dsimp only
  split
  on_goal 1 => refine alike_advance_keeps.bind fun _ => ?_
  all_goals
    apply alike_expects (by decide)
    intro token htoken
    split
    · exact .done
    · exact .fails fun s _ => ⟨_, rfl, htoken _ rfl (by simp)⟩

lemma alike_configValue : Alike F (Below n) configValue configValue (Below n) := by
  apply Alike.skip fun s => ⟨s.current.kind, rfl⟩
  intro kind
  split
  · exact alike_advance_keeps.bind fun _ => .done
  · exact alike_advance_keeps.bind fun _ => .done
  · exact alike_configNumber
  · exact alike_configNumber
  · exact alike_unexpected _

lemma advances_configEntry : Advances F configEntry := by
  intro n
  apply (advances_expect (by decide) n).bind
  intro name
  apply (advances_expect (by decide)).keeps.bind
  intro _
  apply alike_configValue.bind
  intro value
  exact (advances_expect (by decide)).keeps.bind fun _ => .done

lemma advances_configBlock : Advances F configBlock := by
  intro n
  apply (advances_expect (by decide) n).bind
  intro _
  exact Agree.keeps fun m _ => alike_braced (advances_configEntry.agree m)

lemma alike_ampersand : Alike F (Below n) ampersand ampersand (Below n) := by
  apply Alike.skip fun s => ⟨s.current.kind, rfl⟩
  intro kind
  split
  · exact alike_advance_keeps.bind fun _ => .done
  · exact .done

lemma advances_param : Advances F param := by
  intro n
  apply Alike.skip fun s => ⟨s.current, rfl⟩
  intro token
  apply alike_ampersand.bind
  intro before
  apply (advances_valueType n).bind
  intro type
  apply alike_ampersand.bind
  intro after
  exact (advances_expect (by decide)).keeps.bind fun _ => .done

lemma keeps_function (returnType : Ty) (name : String) (line : Nat) :
    Alike F (Below n) (function returnType name line) (function returnType name line) (Below n) := by
  apply (advances_expect (by decide)).keeps.bind
  intro _
  apply Alike.skip fun s => ⟨s.current.kind, rfl⟩
  intro kind
  dsimp only
  split
  on_goal 1 => refine Alike.done.bind fun params => ?_
  on_goal 2 => refine (agree_commaSeparated (advances_param.agree n)).keeps.bind fun params => ?_
  all_goals
    apply (advances_expect (by decide)).keeps.bind
    intro _
    exact keeps_block.bind fun _ => .done

lemma advances_ruleOption : Advances F ruleOption :=
  fun n => (advances_expect (by decide) n).bind fun _ => .done

lemma keeps_ruleOptions : Alike F (Below n) ruleOptions ruleOptions (Below n) := by
  apply Alike.skip fun s => ⟨s.current.kind, rfl⟩
  intro kind
  split
  · apply alike_advance_keeps.bind
    intro _
    apply (agree_commaSeparated (advances_ruleOption.agree n)).keeps.bind
    intro options
    exact (advances_expect (by decide)).keeps.bind fun _ => .done
  · exact .done

lemma keeps_ruleGuard : Alike F (Below n) ruleGuard ruleGuard (Below n) := by
  apply Alike.skip fun s => ⟨s.current.kind, rfl⟩
  intro kind
  split
  · apply alike_advance_keeps.bind
    intro _
    exact advances_expression.keeps.bind fun _ => .done
  · exact .done

lemma alike_rule : Alike F (Live (n + 1)) rule rule (Below n) := by
  apply alike_advance.bind
  intro token
  apply (advances_expect (by decide)).keeps.bind
  intro name
  apply keeps_ruleOptions.bind
  intro options
  apply keeps_ruleGuard.bind
  intro guard
  exact keeps_block.bind fun _ => .done

lemma advances_globalOrFunction : Advances F globalOrFunction := by
  intro n
  apply Alike.get
  intro start hready hstart
  apply ((advances_type n).here hstart).bind
  intro type
  apply (advances_expectFor _ (by decide)).keeps.bind
  intro name
  apply Alike.skip fun s => ⟨s.current.kind, rfl⟩
  intro kind
  split
  · exact keeps_function _ _ _
  · split
    · exact alike_throw (hready.fault (by simp))
    · apply (advances_expect (by decide)).keeps.bind
      intro _
      apply advances_expression.keeps.bind
      intro value
      exact (advances_expect (by decide)).keeps.bind fun _ => .done

lemma advances_definition : Advances F definition := by
  intro n
  apply Alike.kind
  intro kind
  split
  next hrule => exact alike_rule.live (by rw [hrule]; decide)
  next => exact (advances_globalOrFunction n).weaken

lemma alike_definitionsWithin {count : Nat} (hcount : m ≤ count) :
    Alike F (Below (m + 1)) (definitionsWithin count) (definitionsWithin count) (·.current.kind = .eof) := by
  induction count generalizing m with
  | zero =>
    obtain rfl : m = 0 := Nat.le_zero.mp hcount
    exact .pure fun s hs hP => hP.kind_eq hs
  | succ count ih =>
    apply Alike.get
    intro t _ ht
    split
    next =>
      apply ((advances_definition m).here ht).round
      rintro k rfl first
      exact (ih (Nat.le_of_succ_le_succ hcount)).bind fun _ => .done
    next hend =>
      refine .pure fun s _ hs => ?_
      rw [hs]
      simpa [hasTokens] using hend

lemma alike_program : Alike F (Below n) program program (·.current.kind = .eof) := by
  apply Alike.skip fun s => ⟨s.current.kind, rfl⟩
  intro kind
  dsimp only
  split
  on_goal 1 => refine advances_configBlock.keeps.bind fun config => ?_
  on_goal 2 => refine Alike.done.bind fun config => ?_
  all_goals
    apply Alike.get
    intro t _ ht
    apply ((alike_definitionsWithin le_rfl).here (Nat.lt_succ_self t.rest.length)).bind
    intro definitions
    exact .skip (fun s => ⟨s, rfl⟩) fun _ => .done

end Programs

section Progress

/-- A reader that stays in its stream, and has moved on if it succeeds. -/
def Progresses (reader : Parse α) : Prop :=
  ∀ s, s.Ended → (reader.run s).2.tokens <:+ s.tokens ∧
    ∀ a s', reader.run s = (.ok a, s') → s'.rest.length < s.rest.length

variable {reader : Parse α}

lemma ready_of_ended {s : TokenStream} (hs : s.Ended) : Ready (fun _ => True) s :=
  ⟨hs, fun _ _ _ _ _ => trivial⟩

lemma Advances.progresses (h : Advances (fun _ => True) reader) : Progresses reader := by
  intro s hs
  obtain ⟨-, hsuffix, hmeets⟩ := h s.rest.length s (ready_of_ended hs) (Nat.lt_succ_self _)
  exact ⟨hsuffix, fun a s' hrun => hmeets.ok hrun⟩

lemma Progresses.advances (h : Progresses reader) : Advances (fun _ => True) reader := by
  intro n s hs hP
  obtain ⟨hsuffix, hless⟩ := h s hs.ended
  refine ⟨rfl, hsuffix, ?_⟩
  rcases hrun : reader.run s with ⟨fault | a, s'⟩
  · trivial
  · exact (hless a s' hrun).trans_le (Nat.le_of_lt_succ hP)

/-- Reading a list of tokens stays in the list and comes to its end: a program has been read where an end token
is current. All readers that are called again and again consume a token. What would happen where expressions or
statements nest deeper than there are tokens ahead does not matter, and every loop stops where its own condition
says so, not at its bound. -/
theorem reading_ends_with_progress :
    (∀ tokens file, (ofTokens tokens file).Ended ∧ (ofTokens tokens file).tokens = terminated tokens ∧
      (Program.ofTokens tokens file).2.tokens <:+ terminated tokens ∧
      ∀ p, (Program.ofTokens tokens file).1 = .ok p → (Program.ofTokens tokens file).2.current.kind = .eof) ∧
    ((∀ limit, Progresses (expression limit)) ∧ (∀ limit, Progresses (type limit)) ∧ Progresses statement ∧
      Progresses definition ∧ Progresses declarator ∧ Progresses param ∧ Progresses ruleOption ∧
      Progresses configEntry) ∧
    (∀ s : TokenStream, s.Ended → ∀ depth, s.rest.length < depth →
      (∀ stuck limit, (expressionStep^[depth] stuck limit).run s = (expression limit).run s) ∧
      ∀ stuck, (statementOf^[depth] stuck).run s = statement.run s) ∧
    ∀ s s' : TokenStream, s.Ended →
      (∀ limit e, (expression limit).run s = (.ok e, s') → Stopped limit s'.tokens) ∧
      (∀ limit t, (type limit).run s = (.ok t, s') →
        ¬ (s'.current.kind.continuesType ∧ limit.looserThan .call)) ∧
      (∀ definitions, (definitionsWithin s.rest.length).run s = (.ok definitions, s') → s'.current.kind = .eof) ∧
      ∀ (α : Type) (item : Parse α) items, Progresses item →
        ((commaSeparated item).run s = (.ok items, s') → s'.current.kind ≠ .comma) ∧
        ((itemsWithin item s.rest.length).run s = (.ok items, s') →
          s'.current.kind = .eof ∨ s'.current.kind = .closeCurly) := by
  refine ⟨fun tokens file => ?_, ?_, fun s hs depth hdepth => ?_, fun s s' hs => ?_⟩
  · have hended := ended_ofTokens tokens file
    obtain ⟨-, hsuffix, hmeets⟩ := alike_program _ (ready_of_ended hended) (Nat.lt_succ_self _)
    rw [tokens_ofTokens] at hsuffix
    exact ⟨hended, tokens_ofTokens tokens file, hsuffix, fun p hp => hmeets.ok (Prod.ext hp rfl)⟩
  · exact ⟨fun _ => advances_expression.progresses, fun _ => advances_type.progresses, advances_statement.progresses,
      advances_definition.progresses, advances_declarator.progresses, advances_param.progresses,
      advances_ruleOption.progresses, advances_configEntry.progresses⟩
  · refine ⟨fun stuck limit => ?_, fun stuck => ?_⟩
    · exact (alike_expression hdepth stuck s (ready_of_ended hs) (Nat.lt_succ_self _)).1.symm
    · exact (alike_statement hdepth stuck s (ready_of_ended hs) (Nat.lt_succ_self _)).1.symm
  · have hready := ready_of_ended hs
    have hbelow : Below (s.rest.length + 1) s := Nat.lt_succ_self _
    refine ⟨fun limit e hrun => ?_, fun limit t hrun => ?_, fun definitions hrun => ?_, ?_⟩
    · exact ((alike_expression (Nat.lt_succ_self _) (fun _ => unexpectedToken) s hready hbelow).2.2.ok hrun).2
    · exact ((alike_type s hready hbelow).2.2.ok hrun).2
    · exact (alike_definitionsWithin le_rfl s hready hbelow).2.2.ok hrun
    · intro α item items hitem
      have hagree := hitem.advances.agree (s.rest.length + 1)
      exact ⟨fun hrun => ((alike_commaSeparated hagree (Nat.lt_succ_self _) s hready hbelow).2.2.ok hrun).2,
        fun hrun => ((alike_itemsWithin hagree (Nat.lt_succ_self _) le_rfl s hready hbelow).2.2.ok hrun).2⟩

lemma exists_run {s : TokenStream} (h : (reader.run s).1.toOption.isSome = true) :
    ∃ a t, reader.run s = (.ok a, t) := by
  obtain ⟨a, ha⟩ := Option.isSome_iff_exists.mp h
  exact ⟨a, (reader.run s).2, Prod.ext (ok_of_toOption ha) rfl⟩

/-- Tokens after an end token are not read. A sum is read up to the comma after it, and a list of expressions goes
on after the comma. -/
theorem reading_ends_with_progress_early :
    ∃ program last s sum t list u,
      Program.ofTokens [.fixed .ruleWord, .printed .identifier "r", .fixed .openCurly, .fixed .closeCurly, .eof 1,
        .printed .identifier "x"] "" = (.ok program, last) ∧
      last.current.kind = .eof ∧
      s = ofTokens [.printed .number "1", .fixed .plus, .printed .number "2", .fixed .comma, .printed .number "3"] "" ∧
      (expression .lowest).run s = (.ok sum, t) ∧ t.rest.length < s.rest.length ∧ Stopped .lowest t.tokens ∧
      (commaSeparated (expression .lowest)).run s = (.ok list, u) ∧ u.current.kind ≠ .comma ∧
      ∀ stuck, (expressionStep^[6] stuck .lowest).run s = (.ok sum, t) := by
  obtain ⟨hparse, ⟨hexpression, -⟩, hnested, hloops⟩ := reading_ends_with_progress
  obtain ⟨program, last, hread⟩ : ∃ program last, Program.ofTokens [.fixed .ruleWord, .printed .identifier "r",
      .fixed .openCurly, .fixed .closeCurly, .eof 1, .printed .identifier "x"] "" = (.ok program, last) :=
    exists_run (by decide +kernel)
  obtain ⟨-, -, -, heof⟩ := hparse [.fixed .ruleWord, .printed .identifier "r", .fixed .openCurly,
    .fixed .closeCurly, .eof 1, .printed .identifier "x"] ""
  rw [hread] at heof
  have hended := (hparse [.printed .number "1", .fixed .plus, .printed .number "2", .fixed .comma,
    .printed .number "3"] "").1
  obtain ⟨sum, t, hsum⟩ : ∃ sum t, (expression .lowest).run (ofTokens [.printed .number "1", .fixed .plus,
      .printed .number "2", .fixed .comma, .printed .number "3"] "") = (.ok sum, t) := exists_run (by decide +kernel)
  obtain ⟨list, u, hlist⟩ : ∃ list u, (commaSeparated (expression .lowest)).run (ofTokens [.printed .number "1",
      .fixed .plus, .printed .number "2", .fixed .comma, .printed .number "3"] "") = (.ok list, u) :=
    exists_run (by decide +kernel)
  refine ⟨program, last, _, sum, t, list, u, hread, heof program rfl, rfl, hsum, ?_, ?_, hlist, ?_, ?_⟩
  · exact (hexpression .lowest _ hended).2 sum t hsum
  · exact (hloops _ t hended).1 .lowest sum hsum
  · exact ((hloops _ u hended).2.2.2 Expr (expression .lowest) list (hexpression .lowest)).1 hlist
  · exact fun stuck => ((hnested _ hended 6 (by decide)).1 stuck .lowest).trans hsum

end Progress

end Parse

end ChessEval
