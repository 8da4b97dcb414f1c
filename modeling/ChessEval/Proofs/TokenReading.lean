import ChessEval.Proofs.Grammar

namespace ChessEval

open List

variable {token : Token}

def TokenStream.tokens (s : TokenStream) : List Token :=
  s.current :: s.rest

lemma TokenStream.hasTokens_eq {s : TokenStream} {more : List Token} (hs : s.tokens = token :: more) :
    s.hasTokens = (token.kind != .eof) := by
  have hcurrent : s.current = token := by injection hs
  rw [hasTokens, hcurrent]

/-- The numbers that reading expressions takes: one for each node, and one for the name of each
function in front of its arguments. -/
def Expr.taken (es : List Expr) : Nat :=
  (es.flatMap Expr.nodes).length + (es.flatMap Expr.nodes).countP Expr.hasCallee

@[simp]
lemma Token.kind_fixed (kind : TokenKind) : (Token.fixed kind).kind = kind := rfl

@[simp]
lemma Token.kind_printed (kind : TokenKind) (text : String) : (Token.printed kind text).kind = kind :=
  rfl

namespace Expr

@[simp]
lemma taken_append (es es' : List Expr) : taken (es ++ es') = taken es + taken es' := by
  simp only [taken, flatMap_append, length_append, countP_append]
  omega

lemma taken_cons (e : Expr) (es : List Expr) : taken (e :: es) = taken [e] + taken es :=
  taken_append [e] es

lemma taken_singleton (e : Expr) :
    taken [e] = taken e.children + 1 + if e.hasCallee then 1 else 0 := by
  simp only [taken, flatMap_singleton, nodes_eq e, length_append, countP_append,
    countP_singleton, length_singleton]
  omega

lemma taken_flatMap_nil {α : Type} (xs : List α) : taken (xs.flatMap fun _ => []) = 0 := by
  rw [flatMap_eq_nil_iff.mpr fun _ _ => rfl]
  rfl

end Expr

open Expr

namespace Parse

variable {α β : Type} {s : TokenStream} {rest mid : List Token} {next : Nat}

/-- From the stream `s` a reader succeeds with a good result. It leaves the tokens `rest`, and `next`
is the next free number. -/
def Gives (reader : Parse α) (s : TokenStream) (rest : List Token) (next : Nat) (good : α → Prop) :
    Prop :=
  ∃ a s', reader.run s = (.ok a, s') ∧ s'.tokens = rest ∧ s'.file = s.file ∧ s'.nextId = next ∧ good a

namespace Gives

variable {x : Parse α} {f : α → Parse β} {P : α → Prop} {Q : β → Prop} {n : Nat}

lemma bind_file (hx : Gives x s mid n P)
    (hf : ∀ a t, t.tokens = mid → t.file = s.file → t.nextId = n → P a → Gives (f a) t rest next Q) :
    Gives (x >>= f) s rest next Q := by
  obtain ⟨a, t, hrun, htokens, hfile, hnext, ha⟩ := hx
  obtain ⟨b, t', hrun', htokens', hfile', hnext', hb⟩ := hf a t htokens hfile hnext ha
  exact ⟨b, t', run_bind_ok.mpr ⟨a, t, hrun, hrun'⟩, htokens', hfile'.trans hfile, hnext', hb⟩

lemma bind (hx : Gives x s mid n P)
    (hf : ∀ a t, t.tokens = mid → t.nextId = n → P a → Gives (f a) t rest next Q) :
    Gives (x >>= f) s rest next Q :=
  hx.bind_file fun a t htokens _ hnext ha => hf a t htokens hnext ha

lemma pure {b : β} (htokens : s.tokens = rest) (hnext : s.nextId = next) (hb : Q b) :
    Gives (Pure.pure b) s rest next Q :=
  ⟨b, s, rfl, htokens, rfl, hnext, hb⟩

lemma mono {P' : α → Prop} (hx : Gives x s rest n P) (hn : n = next) (h : ∀ a, P a → P' a) :
    Gives x s rest next P' := by
  obtain ⟨a, t, hrun, htokens, hfile, hnext, ha⟩ := hx
  exact ⟨a, t, hrun, htokens, hfile, hnext.trans hn, h a ha⟩

lemma advance {f : Token → Parse β} (hs : s.tokens = token :: mid) (hmid : mid ≠ [])
    (hf : ∀ t, t.tokens = mid → t.nextId = s.nextId → Gives (f token) t rest next Q) :
    Gives (Parse.advance >>= f) s rest next Q := by
  obtain ⟨following, more, rfl⟩ := exists_cons_of_ne_nil hmid
  obtain ⟨current, ahead, file, id⟩ := s
  cases hs
  have hx : Gives Parse.advance ⟨current, following :: more, file, id⟩ (following :: more) id
      (· = current) := ⟨current, ⟨following, more, file, id⟩, rfl, rfl, rfl, rfl, rfl⟩
  apply hx.bind
  rintro _ t ht hid rfl
  exact hf t ht hid

lemma get {f : TokenStream → Parse β} (hf : Gives (f s) s rest next Q) :
    Gives (MonadState.get >>= f) s rest next Q :=
  hf

lemma current {f : Token → Parse β} (hs : s.tokens = token :: mid) (hf : Gives (f token) s rest next Q) :
    Gives (Parse.current >>= f) s rest next Q := by
  cases hs
  exact hf

lemma kind {f : TokenKind → Parse β} (hs : s.tokens = token :: mid) (hf : Gives (f token.kind) s rest next Q) :
    Gives (currentKind >>= f) s rest next Q := by
  cases hs
  exact hf

lemma peekKind {f : TokenKind → Parse β} {following : Token} (hs : s.tokens = token :: following :: mid)
    (hf : Gives (f following.kind) s rest next Q) : Gives (Parse.peekKind >>= f) s rest next Q := by
  obtain ⟨current, ahead, file, id⟩ := s
  cases hs
  exact hf

lemma expectOr {f : Token → Parse β} {fault : Fault} (hs : s.tokens = token :: mid) (hmid : mid ≠ [])
    (hf : ∀ t, t.tokens = mid → t.nextId = s.nextId → Gives (f token) t rest next Q) :
    Gives (Parse.expectOr token.kind fault >>= f) s rest next Q := by
  unfold Parse.expectOr
  rw [bind_assoc]
  apply kind hs
  rw [if_pos rfl]
  exact advance hs hmid hf

lemma expect {f : Token → Parse β} (hs : s.tokens = token :: mid) (hmid : mid ≠ [])
    (hf : ∀ t, t.tokens = mid → t.nextId = s.nextId → Gives (f token) t rest next Q) :
    Gives (Parse.expect token.kind >>= f) s rest next Q :=
  expectOr hs hmid hf

lemma expectFor {f : Token → Parse β} {message : String} (hs : s.tokens = token :: mid) (hmid : mid ≠ [])
    (hf : ∀ t, t.tokens = mid → t.nextId = s.nextId → Gives (f token) t rest next Q) :
    Gives (Parse.expectFor token.kind message >>= f) s rest next Q :=
  expectOr hs hmid hf

lemma node {build : Nat → β} (hs : s.tokens = rest) (hnext : s.nextId + 1 = next)
    (hbuild : ∀ id, Q (build id)) :
    Gives (freshId >>= fun id => Pure.pure (build id)) s rest next Q :=
  ⟨build s.nextId, { s with nextId := s.nextId + 1 }, rfl, hs, rfl, hnext, hbuild s.nextId⟩

end Gives

section Sequences

variable {item : Parse α} {print : α → List Token} {exprs : α → List Expr} {view : α → β}
  {xs : List α} {closing : Token} {count : Nat}

lemma exists_comma_or_closing (tails : List (List Token)) (closing : Token) (rest : List Token) :
    ∃ token more, tails.flatMap (.fixed .comma :: ·) ++ closing :: rest = token :: more ∧
      (token = .fixed .comma ∨ token = closing) := by
  cases tails with
  | nil => exact ⟨closing, rest, rfl, .inr rfl⟩
  | cons first others => exact ⟨_, _, rfl, .inl rfl⟩

lemma length_le_commas (tails : List (List Token)) :
    tails.length ≤ (tails.flatMap (Token.fixed .comma :: ·)).length := by
  induction tails with
  | nil => simp
  | cons first others ih =>
    simp only [flatMap_cons, length_append, length_cons]
    omega

lemma length_le_separated {tokens : List Token} {lists : List (List Token)} (h : tokens ∈ lists) :
    tokens.length ≤ (Token.separated lists).length := by
  have htails : ∀ tails : List (List Token), tokens ∈ tails →
      tokens.length ≤ (tails.flatMap (Token.fixed .comma :: ·)).length := by
    intro tails hmem
    induction tails with
    | nil => simp at hmem
    | cons first others ih =>
      simp only [flatMap_cons, length_append, length_cons]
      rcases mem_cons.mp hmem with rfl | hmem
      · omega
      · have := ih hmem
        omega
  cases lists with
  | nil => simp at h
  | cons first others =>
    rw [Token.separated, length_append]
    rcases mem_cons.mp h with rfl | hmem
    · omega
    · have := htails others hmem
      omega

lemma gives_commaTail (hclosing : closing.kind ≠ .comma)
    (hitem : ∀ x ∈ xs, ∀ s token more, token = .fixed .comma ∨ token = closing →
      s.tokens = print x ++ token :: more →
      Gives item s (token :: more) (s.nextId + taken (exprs x)) (view · = view x))
    (hcount : xs.length ≤ count)
    (hs : s.tokens = (xs.map print).flatMap (.fixed .comma :: ·) ++ closing :: rest) :
    Gives (commaTail item count) s (closing :: rest) (s.nextId + taken (xs.flatMap exprs))
      (·.map view = xs.map view) := by
  induction xs generalizing s count with
  | nil =>
    cases count with
    | zero => exact .pure hs rfl rfl
    | succ count =>
      apply Gives.kind hs
      rw [if_neg hclosing]
      exact .pure hs rfl rfl
  | cons x xs ih =>
    obtain ⟨count, rfl⟩ : ∃ k, count = k + 1 := ⟨count - 1, by simp at hcount; omega⟩
    simp only [map_cons, flatMap_cons, cons_append, append_assoc] at hs
    apply Gives.kind hs
    rw [if_pos (Token.kind_fixed _)]
    apply Gives.advance hs (by simp)
    intro t ht htid
    obtain ⟨token, more, hmore, htoken⟩ := exists_comma_or_closing (xs.map print) closing rest
    rw [hmore] at ht
    apply (hitem x (by simp) t token more htoken ht).bind
    intro first u hu huid hfirst
    rw [← hmore] at hu
    have htail := ih (fun y hy => hitem y (by simp [hy])) (Nat.le_of_succ_le_succ hcount) hu
    apply htail.bind
    intro others v hv hvid hothers
    apply Gives.pure hv
    · rw [hvid, huid, htid, flatMap_cons, taken_append]
      omega
    · rw [map_cons, map_cons, hfirst, hothers]

lemma gives_commaSeparated (hne : xs ≠ []) (hclosing : closing.kind ≠ .comma)
    (hitem : ∀ x ∈ xs, ∀ s token more, token = .fixed .comma ∨ token = closing →
      s.tokens = print x ++ token :: more →
      Gives item s (token :: more) (s.nextId + taken (exprs x)) (view · = view x))
    (hs : s.tokens = Token.separated (xs.map print) ++ closing :: rest) :
    Gives (commaSeparated item) s (closing :: rest) (s.nextId + taken (xs.flatMap exprs))
      (·.map view = xs.map view) := by
  obtain ⟨x, xs, rfl⟩ := exists_cons_of_ne_nil hne
  rw [map_cons, Token.separated, append_assoc] at hs
  obtain ⟨token, more, hmore, htoken⟩ := exists_comma_or_closing (xs.map print) closing rest
  rw [hmore] at hs
  apply (hitem x (by simp) s token more htoken hs).bind
  intro first t ht htid hfirst
  rw [← hmore] at ht
  have hcount : xs.length ≤ t.rest.length := by
    have hcommas := length_le_commas (xs.map print)
    have hlength := congrArg List.length ht
    simp only [TokenStream.tokens, length_cons, length_append, length_map]
      at hcommas hlength
    omega
  have htail : Gives (commaTail item t.rest.length) t (closing :: rest)
      (t.nextId + taken (xs.flatMap exprs)) (·.map view = xs.map view) :=
    gives_commaTail hclosing (fun y hy => hitem y (by simp [hy])) hcount ht
  apply htail.bind
  intro others u hu huid hothers
  apply Gives.pure hu
  · rw [huid, htid, flatMap_cons, taken_append]
    omega
  · rw [map_cons, map_cons, hfirst, hothers]

/-- Tokens that start an item of a block: they do not end the block, and do not go on with the item
before. -/
def Begins (tokens : List Token) : Prop :=
  ∃ token more, tokens = token :: more ∧ token.kind ≠ .eof ∧ token.kind ≠ .closeCurly ∧
    token.kind ≠ .elseWord

lemma Begins.ne_nil {tokens : List Token} (h : Begins tokens) : tokens ≠ [] := by
  obtain ⟨token, more, rfl, -⟩ := h
  simp

lemma length_le_items (hne : ∀ x ∈ xs, print x ≠ []) : xs.length ≤ (xs.flatMap print).length := by
  induction xs with
  | nil => simp
  | cons x xs ih =>
    have hx : 0 < (print x).length := length_pos_iff.mpr (hne x (by simp))
    have hxs := ih fun y hy => hne y (by simp [hy])
    simp only [flatMap_cons, length_append, length_cons]
    omega

lemma length_le_of_mem {x : α} (hx : x ∈ xs) : (print x).length ≤ (xs.flatMap print).length := by
  induction xs with
  | nil => simp at hx
  | cons y ys ih =>
    rw [flatMap_cons, length_append]
    rcases mem_cons.mp hx with rfl | hx
    · omega
    · have := ih hx
      omega

lemma gives_itemsWithin
    (hitem : ∀ x ∈ xs, ∀ s token more, token.kind ≠ .elseWord → s.tokens = print x ++ token :: more →
      Gives item s (token :: more) (s.nextId + taken (exprs x)) (view · = view x))
    (hbegins : ∀ x ∈ xs, Begins (print x)) (hcount : xs.length ≤ count)
    (hs : s.tokens = xs.flatMap print ++ .fixed .closeCurly :: rest) :
    Gives (itemsWithin item count) s (.fixed .closeCurly :: rest)
      (s.nextId + taken (xs.flatMap exprs)) (·.map view = xs.map view) := by
  induction xs generalizing s count with
  | nil =>
    cases count with
    | zero => exact .pure hs rfl rfl
    | succ count =>
      apply Gives.kind hs
      rw [if_pos (.inr (Token.kind_fixed _))]
      exact .pure hs rfl rfl
  | cons x xs ih =>
    obtain ⟨count, rfl⟩ : ∃ k, count = k + 1 := ⟨count - 1, by simp at hcount; omega⟩
    obtain ⟨first, more, hfirst, heof, hcurly, -⟩ := hbegins x (by simp)
    rw [flatMap_cons, append_assoc] at hs
    have hhead := hs
    rw [hfirst, cons_append] at hhead
    apply Gives.kind hhead
    rw [if_neg (by simp [heof, hcurly])]
    -- the next item or the end of the block follows
    obtain ⟨token, after, hafter, htoken⟩ : ∃ token after,
        xs.flatMap print ++ .fixed .closeCurly :: rest = token :: after ∧ token.kind ≠ .elseWord := by
      cases xs with
      | nil => exact ⟨_, rest, rfl, by decide⟩
      | cons y ys =>
        obtain ⟨token, after, hy, -, -, htoken⟩ := hbegins y (by simp)
        exact ⟨token, _, by rw [flatMap_cons, hy, cons_append, cons_append], htoken⟩
    rw [hafter] at hs
    apply (hitem x (by simp) s token after htoken hs).bind
    intro y t ht htid hy
    rw [← hafter] at ht
    have htail := ih (fun z hz => hitem z (by simp [hz])) (fun z hz => hbegins z (by simp [hz]))
      (Nat.le_of_succ_le_succ hcount) ht
    apply htail.bind
    intro ys u hu huid hys
    apply Gives.pure hu
    · rw [huid, htid, flatMap_cons, taken_append]
      omega
    · rw [map_cons, map_cons, hy, hys]

lemma gives_braced (hrest : rest ≠ [])
    (hitem : ∀ x ∈ xs, ∀ s token more, token.kind ≠ .elseWord → s.tokens = print x ++ token :: more →
      Gives item s (token :: more) (s.nextId + taken (exprs x)) (view · = view x))
    (hbegins : ∀ x ∈ xs, Begins (print x))
    (hs : s.tokens =
      .fixed .openCurly :: (xs.flatMap print ++ .fixed .closeCurly :: rest)) :
    Gives (braced item) s rest (s.nextId + taken (xs.flatMap exprs)) (·.map view = xs.map view) := by
  apply Gives.expect hs (by simp)
  intro t ht htid
  have hcount : xs.length ≤ t.rest.length := by
    have hitems := length_le_items fun x hx => (hbegins x hx).ne_nil
    have hlength := congrArg List.length ht
    simp only [TokenStream.tokens, length_cons, length_append] at hlength
    omega
  have hitems : Gives (itemsWithin item t.rest.length) t (.fixed .closeCurly :: rest)
      (t.nextId + taken (xs.flatMap exprs)) (·.map view = xs.map view) :=
    gives_itemsWithin hitem hbegins hcount ht
  apply hitems.bind
  intro items u hu huid hitems
  apply Gives.expect hu hrest
  intro v hv hvid
  exact .pure hv (by omega) hitems

end Sequences

end Parse

end ChessEval
