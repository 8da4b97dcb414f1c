import ChessEval.Proofs.Rereading
import Mathlib.Logic.Function.Iterate

namespace ChessEval

open List

variable {kind : TokenKind} {block body : List Stmt} {condition : Expr}

open Expr

def Token.brackets : Nat → List Token
  | 0 => []
  | n + 1 => .fixed .openBracket :: .fixed .closeBracket :: brackets n

lemma Token.brackets_succ (n : Nat) :
    brackets (n + 1) = brackets n ++ [.fixed .openBracket, .fixed .closeBracket] := by
  induction n with
  | zero => rfl
  | succ n ih =>
    exact congrArg (fun tokens => .fixed .openBracket :: .fixed .closeBracket :: tokens) ih

lemma Token.length_brackets (n : Nat) : (brackets n).length = 2 * n := by
  induction n with
  | zero => rfl
  | succ n ih =>
    rw [brackets, length_cons, length_cons, ih]
    omega

lemma Ty.exists_print {type : Ty} (h : type.isResolved = true) :
    ∃ kind scalar n, kind.scalar? = some scalar ∧ type = Nat.iterate Ty.array n scalar ∧
      type.print = .fixed kind :: Token.brackets n := by
  induction type with
  | array element ih =>
    obtain ⟨kind, scalar, n, hkind, helement, hprint⟩ := ih h
    refine ⟨kind, scalar, n + 1, hkind, ?_, ?_⟩
    · rw [Function.iterate_succ_apply', helement]
    · rw [Ty.print, hprint, Token.brackets_succ, cons_append]
  | void => exact ⟨.voidType, _, 0, rfl, rfl, rfl⟩
  | bool => exact ⟨.boolType, _, 0, rfl, rfl, rfl⟩
  | num => exact ⟨.numType, _, 0, rfl, rfl, rfl⟩
  | string => exact ⟨.stringType, _, 0, rfl, rfl, rfl⟩
  | piece => exact ⟨.pieceType, _, 0, rfl, rfl, rfl⟩
  | cell => exact ⟨.cellType, _, 0, rfl, rfl, rfl⟩
  | row => exact ⟨.rowType, _, 0, rfl, rfl, rfl⟩
  | rank => exact ⟨.rankType, _, 0, rfl, rfl, rfl⟩
  | file => exact ⟨.fileType, _, 0, rfl, rfl, rfl⟩
  | player => exact ⟨.playerType, _, 0, rfl, rfl, rfl⟩
  | genericArray | emptyArray | generic => cases h

lemma Ty.containsVoid_iterate (n : Nat) (scalar : Ty) :
    (Nat.iterate Ty.array n scalar).containsVoid = scalar.containsVoid := by
  induction n with
  | zero => rfl
  | succ n ih => rw [Function.iterate_succ_apply', Ty.containsVoid, ih]

lemma Expr.isCall_unmarked (e : Expr) : e.unmarked.isCall = e.isCall := by
  cases e <;> rfl

namespace Parse

variable {numeral : Number → String} {s : TokenStream} {token : Token} {rest : List Token}

section Types

variable {type : Ty}

lemma gives_arraySuffixes {n count : Nat} (hcount : n ≤ count) (htoken : token.kind ≠ .openBracket)
    (hs : s.tokens = Token.brackets n ++ token :: rest) :
    Gives (arraySuffixes .lowest count type) s (token :: rest) s.nextId
      (· = Nat.iterate Ty.array n type) := by
  induction n generalizing s type count with
  | zero =>
    cases count with
    | zero => exact .pure hs rfl rfl
    | succ count =>
      apply Gives.kind hs
      rw [if_neg (by simp [TokenKind.continuesType, htoken])]
      exact .pure hs rfl rfl
  | succ n ih =>
    obtain ⟨count, rfl⟩ : ∃ k, count = k + 1 := ⟨count - 1, by omega⟩
    rw [Token.brackets, cons_append, cons_append] at hs
    apply Gives.kind hs
    rw [if_pos ⟨rfl, rfl⟩]
    apply Gives.expect hs (by simp)
    intro t ht htid
    apply Gives.expect ht (by simp)
    intro u hu huid
    exact (ih (by omega) hu).mono (by omega) fun _ h => h

lemma gives_type (h : type.isResolved = true) (htoken : token.kind ≠ .openBracket)
    (hs : s.tokens = type.print ++ token :: rest) :
    Gives (Parse.type .lowest) s (token :: rest) s.nextId (· = type) := by
  obtain ⟨kind, scalar, n, hkind, htype, hprint⟩ := Ty.exists_print h
  rw [hprint, cons_append] at hs
  have hscalar : Gives scalarType s (Token.brackets n ++ token :: rest) s.nextId (· = scalar) := by
    apply Gives.kind hs
    rw [Token.kind_fixed, hkind]
    apply Gives.advance hs (by simp)
    intro t ht htid
    exact .pure ht htid rfl
  apply hscalar.bind
  rintro _ t ht htid rfl
  have hcount : n ≤ t.rest.length := by
    have hlength := congrArg List.length ht
    simp only [TokenStream.tokens, length_cons, length_append, Token.length_brackets]
      at hlength
    omega
  apply Gives.get
  exact (gives_arraySuffixes hcount htoken ht).mono htid fun _ h => h.trans htype.symm

lemma gives_valueType (h : type.Printable) (htoken : token.kind ≠ .openBracket)
    (hs : s.tokens = type.print ++ token :: rest) :
    Gives valueType s (token :: rest) s.nextId (· = type) := by
  apply Gives.get
  apply (gives_type h.1 htoken hs).bind
  rintro _ t ht htid rfl
  rw [if_neg (by simp [h.2])]
  exact .pure ht htid rfl

end Types

/-- The statements whose tokens stand for them, given how numbers are written. -/
def LegibleStmt (numeral : Number → String) (st : Stmt) : Prop :=
  st.Printable ∧ ∀ e ∈ st.exprs, ∀ n ∈ e.nodes, Legible numeral n

/-- A statement that is read back from its tokens, before any token but `else`. -/
structure RereadsStmt (numeral : Number → String) (st : Stmt) : Prop where
  gives : ∀ depth s token rest, (st.print numeral).length ≤ depth → token.kind ≠ .elseWord →
    s.tokens = st.print numeral ++ token :: rest →
    Gives (statementWithin depth) s (token :: rest)
      (s.nextId + taken (st.parts.flatMap Stmt.exprs)) (·.unmarked = st.unmarked)

section Statements

variable {line : Nat} {e : Expr} {β : Type} {next : Nat} {Q : β → Prop}

lemma Gives.statementForm {f : Option StmtForm → Parse β} {first second : Token}
    {mid : List Token} (hs : s.tokens = first :: second :: mid)
    (hf : Gives (f (if first.kind.isCallable = true ∧ second.kind = .openParen then none
      else first.kind.statement?)) s rest next Q) :
    Gives (statementForm? >>= f) s rest next Q := by
  unfold statementForm?
  rw [bind_assoc]
  apply Gives.kind hs
  rw [bind_assoc]
  apply Gives.peekKind hs
  split
  next h => rwa [if_pos h] at hf
  next h => rwa [if_neg h] at hf

lemma Gives.keyword {f : Option StmtForm → Parse β} {mid : List Token} (hs : s.tokens = .fixed kind :: mid)
    (hmid : mid ≠ []) (hcall : kind.isCallable = false) (hf : Gives (f kind.statement?) s rest next Q) :
    Gives (statementForm? >>= f) s rest next Q := by
  obtain ⟨second, more, rfl⟩ := exists_cons_of_ne_nil hmid
  apply Gives.statementForm hs
  rwa [Token.kind_fixed, if_neg (by simp [hcall])]

lemma begins_print {st : Stmt} (h : st.Printable) : Begins (st.print numeral) := by
  cases st with
  | declare type declarators line =>
    obtain ⟨kind, scalar, n, hkind, -, hprint⟩ := Ty.exists_print h.1.1
    refine ⟨.fixed kind, _, by rw [Stmt.print, hprint, cons_append, cons_append], ?_⟩
    rw [Token.kind_fixed]
    refine ⟨?_, ?_, ?_⟩ <;> (rintro rfl; cases hkind)
  | assign target value line =>
    cases target with
    | identifier mark name => exact ⟨_, _, rfl, by simp, by simp, by simp⟩
    | _ => cases h
  | ifThen condition thenBody elseBody line =>
    cases elseBody <;> exact ⟨_, _, rfl, by decide, by decide, by decide⟩
  | whileDo condition body line | forAll name source body line | score value line =>
    exact ⟨_, _, rfl, by decide, by decide, by decide⟩
  | returns value line => cases value <;> exact ⟨_, _, rfl, by decide, by decide, by decide⟩
  | call site line =>
    obtain ⟨first, second, more, hprint, hfirst, -⟩ :=
      opens_print numeral site (.fixed .semicolon) [] (by decide)
    refine ⟨first, second :: more, by rw [Stmt.print, hprint], ?_⟩
    refine ⟨?_, ?_, ?_⟩ <;> (intro hkind; rw [hkind] at hfirst; cases hfirst)

lemma gives_blockOf {nested : Parse Stmt} (hprintable : ∀ st ∈ block, st.Printable)
    (hnested : ∀ st ∈ block, ∀ s token more, token.kind ≠ .elseWord →
      s.tokens = st.print numeral ++ token :: more →
      Gives nested s (token :: more) (s.nextId + taken (st.parts.flatMap Stmt.exprs))
        (·.unmarked = st.unmarked)) (hrest : rest ≠ [])
    (hs : s.tokens = .fixed .openCurly :: (Stmt.printBlock numeral block ++ .fixed .closeCurly :: rest)) :
    Gives (blockOf nested) s rest (s.nextId + taken ((Stmt.blockParts block).flatMap Stmt.exprs))
      (Stmt.blockUnmarked · = Stmt.blockUnmarked block) := by
  rw [Stmt.printBlock_eq] at hs
  rw [Stmt.blockParts_eq, flatMap_assoc]
  simp only [Stmt.blockUnmarked_eq]
  exact gives_braced hrest hnested (fun st hst => begins_print (hprintable st hst)) hs

lemma gives_nestedBlock {depth : Nat} (hblock : ∀ st ∈ block, st.Printable ∧ RereadsStmt numeral st)
    (hdepth : (Stmt.printBlock numeral block).length ≤ depth) (hrest : rest ≠ [])
    (hs : s.tokens = .fixed .openCurly :: (Stmt.printBlock numeral block ++ .fixed .closeCurly :: rest)) :
    Gives (blockOf (statementWithin depth)) s rest
      (s.nextId + taken ((Stmt.blockParts block).flatMap Stmt.exprs))
      (Stmt.blockUnmarked · = Stmt.blockUnmarked block) := by
  apply gives_blockOf (fun st hst => (hblock st hst).1) _ hrest hs
  intro st hst s token more htoken hs
  have hlength : (st.print numeral).length ≤ (Stmt.printBlock numeral block).length := by
    rw [Stmt.printBlock_eq]
    exact length_le_of_mem hst
  exact (hblock st hst).2.gives depth s token more (by omega) htoken hs

lemma rereads_score {value : Expr} (h : LegibleStmt numeral (.score value line)) :
    RereadsStmt numeral (.score value line) := by
  constructor
  intro depth s token rest hdepth _ hs
  simp only [Stmt.print, cons_append, append_assoc, nil_append, length_cons]
    at hs hdepth
  obtain ⟨depth, rfl⟩ : ∃ k, depth = k + 1 := ⟨depth - 1, by omega⟩
  apply Gives.keyword hs (by simp) rfl
  change Gives scoreStmt _ _ _ _
  apply Gives.advance hs (by simp)
  intro t ht htid
  apply (gives_expression (h.2 value (by simp [Stmt.exprs])) rfl ht).bind
  intro value' u hu huid hvalue'
  apply Gives.expect hu (by simp)
  intro v hv hvid
  apply Gives.pure hv
  · simp only [Stmt.parts, Stmt.exprs, flatMap_cons, flatMap_nil, append_nil]
    omega
  · rw [Stmt.unmarked, Stmt.unmarked, hvalue']

lemma rereads_returns {value : Option Expr} (h : LegibleStmt numeral (.returns value line)) :
    RereadsStmt numeral (.returns value line) := by
  constructor
  intro depth s token rest hdepth _ hs
  simp only [Stmt.print_returns, cons_append, append_assoc, nil_append, length_cons] at hs hdepth
  obtain ⟨depth, rfl⟩ : ∃ k, depth = k + 1 := ⟨depth - 1, by omega⟩
  apply Gives.keyword hs (by simp) rfl
  change Gives returnStmt _ _ _ _
  apply Gives.advance hs (by simp)
  intro t ht htid
  cases value with
  | none =>
    rw [Option.toList_none, flatMap_nil, nil_append] at ht
    apply Gives.kind ht
    simp only [Token.kind_fixed, if_true, pure_bind]
    apply Gives.expect ht (by simp)
    intro u hu huid
    exact .pure hu (by rw [huid, htid]; rfl) rfl
  | some value =>
    rw [Option.toList_some, flatMap_singleton] at ht
    have hopens : Opens t.tokens := ht ▸ opens_print numeral value _ _ (by decide)
    obtain ⟨first, second, more, hfirst, hoperand, -⟩ := hopens
    apply Gives.kind hfirst
    have hvalue : first.kind ≠ .semicolon := by
      intro hkind
      rw [hkind] at hoperand
      cases hoperand
    simp only [if_neg hvalue, map_eq_pure_bind, bind_assoc, pure_bind]
    apply (gives_expression (h.2 value (by simp [Stmt.exprs])) rfl ht).bind
    intro value' u hu huid hvalue'
    apply Gives.expect hu (by simp)
    intro v hv hvid
    apply Gives.pure hv
    · simp only [Stmt.parts, Stmt.exprs, flatMap_cons, flatMap_nil, append_nil,
        Option.toList_some]
      omega
    · simp only [Stmt.unmarked, Option.map_some, hvalue']

lemma rereads_whileDo (h : LegibleStmt numeral (.whileDo condition body line))
    (hbody : ∀ st ∈ body, st.Printable ∧ RereadsStmt numeral st) :
    RereadsStmt numeral (.whileDo condition body line) := by
  constructor
  intro depth s token rest hdepth _ hs
  simp only [Stmt.print, Token.braces, cons_append, append_assoc, nil_append,
    length_cons, length_append, length_nil] at hs hdepth
  obtain ⟨depth, rfl⟩ : ∃ k, depth = k + 1 := ⟨depth - 1, by omega⟩
  apply Gives.keyword hs (by simp) rfl
  change Gives (whileLoop (statementWithin depth)) _ _ _ _
  apply Gives.advance hs (by simp)
  intro t ht htid
  apply (gives_expression (h.2 condition (by simp [Stmt.exprs])) rfl ht).bind
  intro condition' u hu huid hcondition'
  apply (gives_nestedBlock hbody (by omega) (by simp) hu).bind
  intro body' v hv hvid hbody'
  apply Gives.pure hv
  · simp only [Stmt.parts, Stmt.exprs, flatMap_cons, taken_append]
    omega
  · rw [Stmt.unmarked, Stmt.unmarked, hcondition', hbody']

lemma rereads_forAll {name : String} {source : Expr} (h : LegibleStmt numeral (.forAll name source body line))
    (hbody : ∀ st ∈ body, st.Printable ∧ RereadsStmt numeral st) :
    RereadsStmt numeral (.forAll name source body line) := by
  constructor
  intro depth s token rest hdepth _ hs
  simp only [Stmt.print, Token.braces, cons_append, append_assoc, nil_append,
    length_cons, length_append, length_nil] at hs hdepth
  obtain ⟨depth, rfl⟩ : ∃ k, depth = k + 1 := ⟨depth - 1, by omega⟩
  apply Gives.keyword hs (by simp) rfl
  change Gives (forallLoop (statementWithin depth)) _ _ _ _
  apply Gives.advance hs (by simp)
  intro t₁ ht₁ hid₁
  apply Gives.expect ht₁ (by simp)
  intro t₂ ht₂ hid₂
  apply Gives.expect ht₂ (by simp)
  intro t₃ ht₃ hid₃
  apply Gives.expect ht₃ (by simp)
  intro t₄ ht₄ hid₄
  apply (gives_expression (h.2 source (by simp [Stmt.exprs])) rfl ht₄).bind
  intro source' t₅ ht₅ hid₅ hsource'
  apply Gives.expect ht₅ (by simp)
  intro t₆ ht₆ hid₆
  apply (gives_nestedBlock hbody (by omega) (by simp) ht₆).bind
  intro body' t₇ ht₇ hid₇ hbody'
  apply Gives.pure ht₇
  · simp only [Stmt.parts, Stmt.exprs, flatMap_cons, taken_append]
    omega
  · rw [Stmt.unmarked, Stmt.unmarked, hsource', hbody']
    rfl

lemma exists_of_chains (h : Stmt.chains body = true) :
    ∃ condition thenBody last line, body = [.ifThen condition thenBody last line] := by
  unfold Stmt.chains at h
  split at h
  · exact ⟨_, _, _, _, rfl⟩
  · cases h

lemma gives_elseBranch {elseBody : List Stmt} {depth : Nat}
    (helse : ∀ st ∈ elseBody, st.Printable ∧ RereadsStmt numeral st)
    (hdepth : (Stmt.printBlock numeral elseBody).length ≤ depth) (htoken : token.kind ≠ .elseWord)
    (hs : s.tokens = .fixed .elseWord ::
      ((if Stmt.chains elseBody then Stmt.printBlock numeral elseBody
        else Token.braces (Stmt.printBlock numeral elseBody)) ++ token :: rest)) :
    Gives (elseBranch (statementWithin depth)) s (token :: rest)
      (s.nextId + taken ((Stmt.blockParts elseBody).flatMap Stmt.exprs))
      (fun body => body.map Stmt.blockUnmarked = some (Stmt.blockUnmarked elseBody)) := by
  apply Gives.kind hs
  rw [if_pos (Token.kind_fixed _)]
  apply Gives.advance hs (by simp)
  intro t ht htid
  by_cases hchain : Stmt.chains elseBody = true
  · rw [if_pos hchain] at ht
    obtain ⟨condition, thenBody, last, line, rfl⟩ := exists_of_chains hchain
    rw [Stmt.printBlock, Stmt.printBlock, append_nil] at ht hdepth
    obtain ⟨more, hfirst⟩ : ∃ more, t.tokens = .fixed .ifWord :: more := by
      cases last <;> exact ⟨_, ht⟩
    apply Gives.kind hfirst
    rw [if_pos (Token.kind_fixed _)]
    apply ((helse _ (by simp)).2.gives depth t token rest hdepth htoken ht).bind
    intro last' u hu huid hlast'
    apply Gives.pure hu
    · rw [Stmt.blockParts, Stmt.blockParts, append_nil]
      omega
    · simp only [Option.map_some, Stmt.blockUnmarked, hlast']
  · rw [if_neg hchain] at ht
    simp only [Token.braces, cons_append, append_assoc, nil_append] at ht
    apply Gives.kind ht
    rw [if_neg (by simp)]
    apply (gives_nestedBlock helse hdepth (by simp) ht).bind
    intro body' u hu huid hbody'
    exact .pure hu (by omega) (congrArg some hbody')

lemma rereads_ifThen {thenBody : List Stmt} (h : LegibleStmt numeral (.ifThen condition thenBody none line))
    (hthen : ∀ st ∈ thenBody, st.Printable ∧ RereadsStmt numeral st) :
    RereadsStmt numeral (.ifThen condition thenBody none line) := by
  constructor
  intro depth s token rest hdepth htoken hs
  simp only [Stmt.print, Token.braces, cons_append, append_assoc, nil_append,
    length_cons, length_append, length_nil] at hs hdepth
  obtain ⟨depth, rfl⟩ : ∃ k, depth = k + 1 := ⟨depth - 1, by omega⟩
  apply Gives.keyword hs (by simp) rfl
  change Gives (conditional (statementWithin depth)) _ _ _ _
  apply Gives.advance hs (by simp)
  intro t ht htid
  apply (gives_expression (h.2 condition (by simp [Stmt.exprs])) rfl ht).bind
  intro condition' u hu huid hcondition'
  apply (gives_nestedBlock hthen (by omega) (by simp) hu).bind
  intro thenBody' v hv hvid hthen'
  -- the token after the block is no `else`, so there is no other branch
  have helse : Gives (elseBranch (statementWithin depth)) v (token :: rest) v.nextId (· = none) := by
    apply Gives.kind hv
    rw [if_neg htoken]
    exact .pure hv rfl rfl
  apply helse.bind
  rintro _ w hw hwid rfl
  apply Gives.pure hw
  · simp only [Stmt.parts, Stmt.exprs, flatMap_cons, taken_append]
    omega
  · rw [Stmt.unmarked_ifThen, Stmt.unmarked_ifThen, hcondition', hthen']

lemma rereads_ifElse {thenBody elseBody : List Stmt}
    (h : LegibleStmt numeral (.ifThen condition thenBody (some elseBody) line))
    (hthen : ∀ st ∈ thenBody, st.Printable ∧ RereadsStmt numeral st)
    (helse : ∀ st ∈ elseBody, st.Printable ∧ RereadsStmt numeral st) :
    RereadsStmt numeral (.ifThen condition thenBody (some elseBody) line) := by
  constructor
  intro depth s token rest hdepth htoken hs
  rw [Stmt.print] at hs hdepth
  have hbranch : (Stmt.printBlock numeral elseBody).length ≤
      (if Stmt.chains elseBody then Stmt.printBlock numeral elseBody
        else Token.braces (Stmt.printBlock numeral elseBody)).length := by
    split
    · exact Nat.le_refl _
    · simp only [Token.braces, length_cons, length_append]
      omega
  rw [Token.braces] at hs hdepth
  simp only [cons_append, append_assoc, nil_append, length_cons,
    length_append] at hs hdepth
  obtain ⟨depth, rfl⟩ : ∃ k, depth = k + 1 := ⟨depth - 1, by omega⟩
  apply Gives.keyword hs (by simp) rfl
  change Gives (conditional (statementWithin depth)) _ _ _ _
  apply Gives.advance hs (by simp)
  intro t ht htid
  apply (gives_expression (h.2 condition (by simp [Stmt.exprs])) rfl ht).bind
  intro condition' u hu huid hcondition'
  apply (gives_nestedBlock hthen (by omega) (by simp) hu).bind
  intro thenBody' v hv hvid hthen'
  apply (gives_elseBranch helse (by omega) htoken hv).bind
  intro elseBody' w hw hwid helse'
  apply Gives.pure hw
  · simp only [Stmt.parts, Stmt.exprs, flatMap_cons, flatMap_append, taken_append]
    omega
  · rw [Stmt.unmarked_ifThen, Stmt.unmarked_ifThen, hcondition', hthen', helse', Option.map_some]

lemma rereads_assign {target value : Expr} (h : LegibleStmt numeral (.assign target value line)) :
    RereadsStmt numeral (.assign target value line) := by
  constructor
  intro depth s token rest hdepth _ hs
  cases target with
  | identifier mark name =>
    simp only [Stmt.print, Expr.print, cons_append, append_assoc, nil_append,
      length_cons] at hs hdepth
    obtain ⟨depth, rfl⟩ : ∃ k, depth = k + 1 := ⟨depth - 1, by omega⟩
    apply Gives.statementForm hs
    apply Gives.kind hs
    apply Gives.peekKind hs
    change Gives assignment _ _ _ _
    have htarget : Gives (expression .primary) s
        (.fixed .assignment :: (value.print numeral ++ .fixed .semicolon :: token :: rest))
        (s.nextId + 1) (·.unmarked = (Expr.identifier mark name).unmarked) := by
      have hidentifier : Rereads numeral (.identifier mark name) := rereads_identifier name
      apply Gives.get
      have hedge : Stopped .primary
          (.fixed .assignment :: (value.print numeral ++ .fixed .semicolon :: token :: rest)) :=
        .of_none rfl
      exact hidentifier.gives (by simp [Expr.print]) trivial hedge hedge hs
    apply htarget.bind
    intro target' t ht htid htarget'
    apply Gives.expect ht (by simp)
    intro u hu huid
    apply (gives_expression (h.2 value (by simp [Stmt.exprs])) rfl hu).bind
    intro value' v hv hvid hvalue'
    apply Gives.expect hv (by simp)
    intro w hw hwid
    apply Gives.pure hw
    · have htaken : taken [.identifier mark name, value] = 1 + taken [value] :=
        taken_append [.identifier mark name] [value]
      simp only [Stmt.parts, Stmt.exprs, flatMap_cons, flatMap_nil, append_nil]
      omega
    · rw [Stmt.unmarked, Stmt.unmarked, htarget', hvalue']
  | _ => cases h.1

lemma statement_of_operand (hoperand : kind.operand?.isSome = true) (hcallable : kind.isCallable = false) :
    kind.statement? = none := by
  revert hoperand hcallable
  cases kind <;> decide

lemma rereads_callStmt {site : Expr} (h : LegibleStmt numeral (.call site line)) :
    RereadsStmt numeral (.call site line) := by
  constructor
  intro depth s token rest hdepth _ hs
  simp only [Stmt.print, append_assoc, cons_append, nil_append, length_append,
    length_cons] at hs hdepth
  obtain ⟨depth, rfl⟩ : ∃ k, depth = k + 1 := ⟨depth - 1, by omega⟩
  have hopens : Opens s.tokens := hs ▸ opens_print numeral site _ _ (by decide)
  obtain ⟨first, second, more, hfirst, hoperand, hcall, hassign⟩ := hopens
  apply Gives.statementForm hfirst
  have hform : (if first.kind.isCallable = true ∧ second.kind = .openParen then none
      else first.kind.statement?) = none := by
    by_cases hcallable : first.kind.isCallable = true
    · rw [if_pos ⟨hcallable, hcall hcallable⟩]
    · rw [if_neg fun hboth => hcallable hboth.1]
      exact statement_of_operand hoperand (by simpa using hcallable)
  rw [hform]
  apply Gives.kind hfirst
  apply Gives.peekKind hfirst
  rw [if_neg fun hboth => hassign hboth.2]
  apply (gives_expression (h.2 site (by simp [Stmt.exprs])) rfl hs).bind
  intro site' t ht htid hsite'
  have hcall' : site'.isCall = true := by
    rw [← Expr.isCall_unmarked, hsite', Expr.isCall_unmarked]
    exact h.1
  rw [if_pos hcall']
  apply Gives.expect ht (by simp)
  intro u hu huid
  apply Gives.pure hu
  · simp only [Stmt.parts, Stmt.exprs, flatMap_cons, flatMap_nil, append_nil]
    omega
  · rw [Stmt.unmarked, Stmt.unmarked, hsite']

lemma gives_declarator {d : Declarator} (h : ∀ e ∈ d.value.toList, ∀ n ∈ e.nodes, Legible numeral n)
    (htoken : token.kind.operator? = none ∧ token.kind ≠ .assignment)
    (hs : s.tokens = d.print numeral ++ token :: rest) :
    Gives declarator s (token :: rest) (s.nextId + taken d.value.toList)
      (·.unmarked = d.unmarked) := by
  obtain ⟨name, value, line⟩ := d
  rw [Declarator.print, cons_append] at hs
  apply Gives.expectFor hs (by simp)
  intro t ht htid
  cases value with
  | none =>
    apply Gives.kind ht
    rw [if_neg htoken.2]
    exact .pure ht htid rfl
  | some value =>
    simp only [Option.toList_some, flatMap_cons, flatMap_nil, append_nil,
      cons_append] at ht
    apply Gives.kind ht
    rw [if_pos (Token.kind_fixed _)]
    apply Gives.advance ht (by simp)
    intro u hu huid
    apply (gives_expression (h value (by simp)) htoken.1 hu).bind
    intro value' v hv hvid hvalue'
    apply Gives.pure hv
    · simp only [Option.toList_some]
      omega
    · simp only [Declarator.unmarked, Option.map_some, hvalue']
      rfl

lemma statement_of_scalar {scalar : Ty} (hkind : kind.scalar? = some scalar) (hvoid : scalar.containsVoid = false) :
    kind.statement? = some .declare := by
  cases kind with
  | voidType =>
    cases hkind
    cases hvoid
  | numType | boolType | stringType | pieceType | cellType | rowType | rankType | fileType
  | playerType => rfl
  | _ => cases hkind

lemma rereads_declare {type : Ty} {declarators : List Declarator}
    (h : LegibleStmt numeral (.declare type declarators line)) :
    RereadsStmt numeral (.declare type declarators line) := by
  constructor
  intro depth s token rest hdepth _ hs
  obtain ⟨⟨htype, hne⟩, hexprs⟩ := h
  obtain ⟨kind, scalar, n, hkind, hscalar, hprint⟩ := Ty.exists_print htype.1
  simp only [Stmt.print, append_assoc, cons_append, nil_append, length_append,
    length_cons] at hs hdepth
  obtain ⟨depth, rfl⟩ : ∃ k, depth = k + 1 := ⟨depth - 1, by omega⟩
  -- the first declarator starts with its name
  obtain ⟨name, more, hname⟩ : ∃ name more,
      Token.separated (declarators.map (Declarator.print numeral)) ++
        .fixed .semicolon :: token :: rest = .printed .identifier name :: more := by
    obtain ⟨d, ds, rfl⟩ := exists_cons_of_ne_nil hne
    exact ⟨d.name, _, rfl⟩
  rw [hname] at hs
  have hvoid : scalar.containsVoid = false := by
    rw [← Ty.containsVoid_iterate n scalar, ← hscalar]
    exact htype.2
  have hform : kind.statement? = some .declare := statement_of_scalar hkind hvoid
  obtain ⟨second, after, hsecond, hparen⟩ : ∃ second after,
      s.tokens = .fixed kind :: second :: after ∧ second.kind ≠ .openParen := by
    rw [hprint, cons_append] at hs
    cases n with
    | zero => exact ⟨_, _, hs, by simp⟩
    | succ n => exact ⟨_, _, hs, by decide⟩
  apply Gives.statementForm hsecond
  rw [if_neg fun hboth => hparen hboth.2, Token.kind_fixed, hform]
  apply Gives.current hsecond
  apply (gives_valueType htype (by simp) hs).bind
  intro type' t ht htid htype'
  rw [← hname] at ht
  have hdeclarators : Gives (commaSeparated declarator) t (.fixed .semicolon :: token :: rest)
      (t.nextId + taken (declarators.flatMap fun d => d.value.toList))
      (·.map Declarator.unmarked = declarators.map Declarator.unmarked) := by
    apply gives_commaSeparated hne (by decide) _ ht
    intro d hd s token more htoken hs
    apply gives_declarator _ _ hs
    · intro e he
      exact hexprs e (mem_flatMap.mpr ⟨d, hd, he⟩)
    · rcases htoken with rfl | rfl <;> exact ⟨rfl, by decide⟩
  apply hdeclarators.bind
  intro declarators' u hu huid hdeclarators'
  apply Gives.expect hu (by simp)
  intro v hv hvid
  apply Gives.pure hv
  · simp only [Stmt.parts, Stmt.exprs, flatMap_cons, flatMap_nil, append_nil]
    omega
  · rw [Stmt.unmarked, Stmt.unmarked, hdeclarators', htype']

/-- Every statement whose parts can be printed is read back. -/
theorem rereads_block (block : List Stmt)
    (h : ∀ st ∈ Stmt.blockParts block, LegibleStmt numeral st) :
    ∀ st ∈ block, st.Printable ∧ RereadsStmt numeral st := by
  induction block using Stmt.block_induction (fun st =>
    (∀ part ∈ st.parts, LegibleStmt numeral part) → RereadsStmt numeral st) with
  | declare type declarators line h => exact rereads_declare (h _ (by simp [Stmt.parts]))
  | assign target value line h => exact rereads_assign (h _ (by simp [Stmt.parts]))
  | ifThen condition thenBody line hthen h =>
    apply rereads_ifThen (h _ (by simp [Stmt.parts]))
    exact hthen fun st hst => h st (by simp [Stmt.parts, hst])
  | ifElse condition thenBody elseBody line hthen helse h =>
    apply rereads_ifElse (h _ (by simp [Stmt.parts]))
    · exact hthen fun st hst => h st (by simp [Stmt.parts, hst])
    · exact helse fun st hst => h st (by simp [Stmt.parts, hst])
  | whileDo condition body line hbody h =>
    apply rereads_whileDo (h _ (by simp [Stmt.parts]))
    exact hbody fun st hst => h st (by simp [Stmt.parts, hst])
  | forAll name source body line hbody h =>
    apply rereads_forAll (h _ (by simp [Stmt.parts]))
    exact hbody fun st hst => h st (by simp [Stmt.parts, hst])
  | returns value line h => exact rereads_returns (h _ (by simp [Stmt.parts]))
  | score value line h => exact rereads_score (h _ (by simp [Stmt.parts]))
  | call site line h => exact rereads_callStmt (h _ (by simp [Stmt.parts]))
  | nil => simp
  | cons st rest hst hrest =>
    rw [Stmt.blockParts] at h
    have hparts : ∀ part ∈ st.parts, LegibleStmt numeral part :=
      fun part hpart => h part (mem_append_left _ hpart)
    intro st' hst'
    rcases mem_cons.mp hst' with rfl | hst'
    · exact ⟨(hparts st' st'.self_mem_parts).1, hst hparts⟩
    · exact hrest (fun part hpart => h part (mem_append_right _ hpart)) st' hst'

lemma gives_block (h : ∀ st ∈ Stmt.blockParts block, LegibleStmt numeral st) (hrest : rest ≠ [])
    (hs : s.tokens = .fixed .openCurly :: (Stmt.printBlock numeral block ++ .fixed .closeCurly :: rest)) :
    Gives Parse.block s rest (s.nextId + taken ((Stmt.blockParts block).flatMap Stmt.exprs))
      (Stmt.blockUnmarked · = Stmt.blockUnmarked block) := by
  have hblock := rereads_block block h
  apply gives_blockOf (fun st hst => (hblock st hst).1) _ hrest hs
  intro st hst s token more htoken hs
  have hlength := congrArg List.length hs
  simp only [TokenStream.tokens, length_cons, length_append] at hlength
  apply Gives.get
  exact (hblock st hst).2.gives _ s token more (by omega) htoken hs

end Statements

end Parse

end ChessEval
