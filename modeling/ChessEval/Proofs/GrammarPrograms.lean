import ChessEval.Proofs.Grammar

namespace ChessEval

namespace Parse

variable {inv : TokenStream → List Expr → Prop}

section Types

variable [Carried inv] {before : List Expr}

lemma isResolved_of_scalar {kind : TokenKind} {type : Ty} (h : kind.scalar? = some type) :
    type.isResolved = true := by
  cases kind <;> simp only [TokenKind.scalar?, Option.some.injEq, reduceCtorEq] at h <;>
    (subst h; rfl)

lemma reads_scalarType : Reads inv before scalarType (fun _ => before) (·.isResolved = true) := by
  unfold scalarType
  apply Reads.kind
  intro kind
  split
  case h_1 type htype =>
    apply Reads.next
    intro _
    exact .pure rfl (isResolved_of_scalar htype)
  case h_2 => exact reads_unexpected _

lemma reads_arraySuffixes (limit : Precedence) (count : Nat) {type : Ty}
    (htype : type.isResolved = true) :
    Reads inv before (arraySuffixes limit count type) (fun _ => before) (·.isResolved = true) := by
  induction count generalizing type with
  | zero => exact .pure rfl htype
  | succ count ih =>
    unfold arraySuffixes
    apply Reads.kind
    intro kind
    split
    · apply Reads.expect
      intro _
      apply Reads.expect
      intro _
      exact ih htype
    · exact .pure rfl htype

lemma reads_type (limit : Precedence) :
    Reads inv before (type limit) (fun _ => before) (·.isResolved = true) := by
  apply reads_scalarType.bind
  intro scalar hscalar
  apply Reads.skip steady_get
  intro s
  exact reads_arraySuffixes limit _ hscalar

lemma reads_valueType : Reads inv before valueType (fun _ => before) Ty.Printable := by
  unfold valueType
  apply Reads.skip steady_get
  intro start
  apply (reads_type _).bind
  intro type htype
  split
  next => exact .throw _
  next hvoid => exact .pure rfl ⟨htype, by simpa using hvoid⟩

end Types

/-- A reader of statements adds their expressions, and gives statements that can be printed. -/
abbrev AddsStmt (inv : TokenStream → List Expr → Prop) (reader : Parse Stmt) : Prop :=
  Adds inv reader (fun s => s.parts.flatMap Stmt.exprs) fun s => ∀ part ∈ s.parts, part.Printable

/-- A reader of blocks does what a reader of statements does for each statement. -/
abbrev AddsBlock (inv : TokenStream → List Expr → Prop) (reader : Parse (List Stmt)) : Prop :=
  Adds inv reader (fun block => (Stmt.blockParts block).flatMap Stmt.exprs)
    fun block => ∀ part ∈ Stmt.blockParts block, part.Printable

section Statements

variable [Carried inv] {nested : Parse Stmt}

lemma adds_blockOf (hnested : AddsStmt inv nested) : AddsBlock inv (blockOf nested) := by
  intro before
  apply (adds_braced hnested before).mono
  intro block hblock
  simp only [Stmt.blockParts_eq, List.flatMap_assoc, List.mem_flatMap, true_and]
  rintro part ⟨s, hs, hpart⟩
  exact hblock s hs part hpart

lemma reads_assignment {before : List Expr} {s s' : TokenStream} {st : Stmt} (hs : inv s before)
    (hkind : s.current.kind = .identifier) (h : assignment.run s = (.ok st, s')) :
    inv s' (before ++ st.parts.flatMap Stmt.exprs) ∧ ∀ part ∈ st.parts, part.Printable := by
  obtain ⟨target, t, htarget, h⟩ := run_bind_ok.mp h
  have hname := isIdentifier_of_primary hkind htarget
  have ht := (adds_expression .primary before s target t hs htarget).1
  have hrest : Reads inv (before ++ [target]) (do
      let _ ← expect .assignment
      let value ← expression .lowest
      let _ ← expect .semicolon
      return Stmt.assign target value target.line) (fun st => before ++ st.parts.flatMap Stmt.exprs)
      fun st => ∀ part ∈ st.parts, part.Printable := by
    apply Reads.expect
    intro _
    apply (adds_expression _ _).bind
    intro value _
    apply Reads.expect
    intro _
    exact .pure (by simp [Stmt.parts, Stmt.exprs]) (by simpa [Stmt.parts, Stmt.Printable] using hname)
  exact hrest t st s' ht h

lemma adds_declarator :
    Adds inv declarator (fun d => d.value.toList) fun _ => True := by
  intro before
  unfold declarator
  apply Reads.skip (steady_expectFor _ _)
  intro token
  apply Reads.kind
  intro kind
  split
  · apply Reads.next
    intro _
    apply (adds_expression _ before).bind
    intro value _
    exact .pure rfl trivial
  · exact .pure (by simp) trivial

lemma adds_declaration : AddsStmt inv declaration := by
  intro before
  unfold declaration
  apply Reads.skip steady_current
  intro token
  apply reads_valueType.bind
  intro type htype
  apply (adds_commaSeparated adds_declarator before).bind
  rintro declarators ⟨hne, -⟩
  apply Reads.expect
  intro _
  have hprintable : (Stmt.declare type declarators token.line).Printable := ⟨htype, hne⟩
  exact .pure (by simp [Stmt.parts, Stmt.exprs]) (by simpa [Stmt.parts] using hprintable)

lemma adds_elseBranch (hnested : AddsStmt inv nested) :
    Adds inv (elseBranch nested)
      (fun block => (block.toList.flatMap Stmt.blockParts).flatMap Stmt.exprs)
      fun block => ∀ part ∈ block.toList.flatMap Stmt.blockParts, part.Printable := by
  intro before
  unfold elseBranch
  apply Reads.kind
  intro kind
  split
  · apply Reads.next
    intro _
    apply Reads.kind
    intro kind
    split
    · apply (hnested before).bind
      intro s hs
      exact .pure (by simp [Stmt.blockParts]) (by simpa [Stmt.blockParts] using hs)
    · apply (adds_blockOf hnested before).bind
      intro block hblock
      exact .pure (by simp) (by simpa using hblock)
  · exact .pure (by simp) (by simp)

lemma adds_conditional (hnested : AddsStmt inv nested) : AddsStmt inv (conditional nested) := by
  intro before
  unfold conditional
  apply Reads.next
  intro token
  apply (adds_expression _ before).bind
  intro condition _
  apply (adds_blockOf hnested _).bind
  intro thenBody hthen
  apply (adds_elseBranch hnested _).bind
  intro elseBody helse
  apply Reads.pure
  · simp [Stmt.parts_ifThen, Stmt.exprs]
  · intro part hpart
    rw [Stmt.parts_ifThen] at hpart
    rcases List.mem_cons.mp hpart with rfl | hpart
    · trivial
    · rcases List.mem_append.mp hpart with hpart | hpart
      · exact hthen part hpart
      · exact helse part hpart

lemma adds_whileLoop (hnested : AddsStmt inv nested) : AddsStmt inv (whileLoop nested) := by
  intro before
  unfold whileLoop
  apply Reads.next
  intro token
  apply (adds_expression _ before).bind
  intro condition _
  apply (adds_blockOf hnested _).bind
  intro body hbody
  exact .pure (by simp [Stmt.parts, Stmt.exprs])
    (List.forall_mem_cons.mpr ⟨trivial, hbody⟩)

lemma adds_forallLoop (hnested : AddsStmt inv nested) : AddsStmt inv (forallLoop nested) := by
  intro before
  unfold forallLoop
  apply Reads.next
  intro token
  apply Reads.expect
  intro _
  apply Reads.expect
  intro name
  apply Reads.expect
  intro _
  apply (adds_expression _ before).bind
  intro source _
  apply Reads.expect
  intro _
  apply (adds_blockOf hnested _).bind
  intro body hbody
  exact .pure (by simp [Stmt.parts, Stmt.exprs])
    (List.forall_mem_cons.mpr ⟨trivial, hbody⟩)

lemma adds_returnStmt : AddsStmt inv returnStmt := by
  intro before
  unfold returnStmt
  apply Reads.next
  intro token
  apply Reads.kind
  intro kind
  have hend : ∀ value : Option Expr,
      Reads inv (before ++ value.toList)
        (expect .semicolon >>= fun _ => pure (Stmt.returns value token.line))
        (fun s => before ++ s.parts.flatMap Stmt.exprs)
        fun s => ∀ part ∈ s.parts, part.Printable := fun value =>
    .expect fun _ =>
      .pure (by simp [Stmt.parts, Stmt.exprs]) (by simp [Stmt.parts, Stmt.Printable])
  simp only [pure_bind, map_eq_pure_bind, bind_assoc]
  split
  · simpa using hend none
  · apply (adds_expression _ before).bind
    intro value _
    exact hend (some value)

lemma adds_scoreStmt : AddsStmt inv scoreStmt := by
  intro before
  unfold scoreStmt
  apply Reads.next
  intro token
  apply (adds_expression _ before).bind
  intro value _
  apply Reads.expect
  intro _
  exact .pure (by simp [Stmt.parts, Stmt.exprs]) (by simp [Stmt.parts, Stmt.Printable])

lemma adds_callStmt : AddsStmt inv callStmt := by
  intro before
  unfold callStmt
  apply (adds_expression _ before).bind
  intro site _
  split
  next hcall =>
    apply Reads.expect
    intro _
    exact .pure (by simp [Stmt.parts, Stmt.exprs]) (by simpa [Stmt.parts, Stmt.Printable] using hcall)
  next => exact reads_unexpected _

lemma steady_statementForm : Steady statementForm? := by
  apply steady_currentKind.bind
  intro kind
  apply steady_peekKind.bind
  intro peeked s form s' h
  split at h <;> (cases h; exact ⟨rfl, rfl⟩)

lemma adds_statementOf (hnested : AddsStmt inv nested) : AddsStmt inv (statementOf nested) := by
  intro before
  unfold statementOf
  apply Reads.skip steady_statementForm
  intro form
  split
  · exact adds_conditional hnested before
  · exact adds_whileLoop hnested before
  · exact adds_forallLoop hnested before
  · exact adds_returnStmt before
  · exact adds_scoreStmt before
  · exact adds_declaration before
  · intro s st s' hs h
    obtain ⟨_, _, hkind, h⟩ := run_bind_ok.mp h
    cases hkind
    obtain ⟨_, _, hpeek, h⟩ := run_bind_ok.mp h
    cases hpeek
    split at h
    next hboth => exact reads_assignment hs hboth.1 h
    next => exact adds_callStmt before s st s' hs h

lemma adds_statementWithin (depth : Nat) : AddsStmt inv (statementWithin depth) := by
  induction depth with
  | zero => exact fun before => reads_unexpectedToken
  | succ depth ih => exact adds_statementOf ih

lemma adds_statement : AddsStmt inv statement := by
  intro before
  apply Reads.skip steady_get
  intro s
  exact adds_statementWithin _ before

lemma adds_block : AddsBlock inv block :=
  adds_blockOf adds_statement

end Statements

section Definitions

variable [Carried inv]

/-- A reader of definitions adds their expressions, and gives definitions that can be printed. -/
abbrev AddsDefinition (inv : TokenStream → List Expr → Prop) (reader : Parse Definition) : Prop :=
  Adds inv reader Definition.exprs Definition.Printable

lemma steady_ampersand : Steady ampersand := by
  apply steady_currentKind.bind
  intro kind
  split
  · exact steady_advance.bind fun _ => steady_pure true
  · exact steady_pure false

lemma adds_param : Adds inv param (fun _ => []) (·.type.Printable) := by
  intro before
  unfold param
  apply Reads.skip steady_current
  intro token
  apply Reads.skip steady_ampersand
  intro first
  apply reads_valueType.bind
  intro type htype
  apply Reads.skip steady_ampersand
  intro second
  apply Reads.expect
  intro name
  exact .pure (by simp) htype

lemma adds_function {returnType : Ty} (hreturn : returnType.isResolved = true) (name : String)
    (line : Nat) : AddsDefinition inv (function returnType name line) := by
  intro before
  unfold function
  apply Reads.expect
  intro _
  apply Reads.kind
  intro kind
  have hend : ∀ params : List Param, (∀ p ∈ params, p.type.Printable) →
      Reads inv before
        (expect .closeParen >>= fun _ => block >>= fun body =>
          pure (Definition.function ⟨returnType, name, params, body, line⟩))
        (fun d => before ++ d.exprs) Definition.Printable := by
    intro params hparams
    apply Reads.expect
    intro _
    apply (adds_block before).bind
    intro body hbody
    exact .pure rfl ⟨hreturn, hparams, hbody⟩
  simp only [pure_bind]
  split
  · exact hend [] (by simp)
  · apply (adds_commaSeparated adds_param before).bind
    rintro params ⟨-, hparams⟩
    have hnone : before ++ params.flatMap (fun _ => []) = before := by simp
    rw [hnone]
    exact hend params hparams

lemma adds_ruleOption : Adds inv ruleOption (fun _ => []) fun _ => True := by
  intro before
  apply Reads.expect
  intro token
  exact .pure (by simp) trivial

lemma reads_ruleOptions {before : List Expr} :
    Reads inv before ruleOptions (fun _ => before) fun _ => True := by
  unfold ruleOptions
  apply Reads.kind
  intro kind
  split
  · apply Reads.next
    intro _
    apply (adds_commaSeparated adds_ruleOption before).bind
    intro options _
    apply Reads.expect
    intro _
    exact .pure (by simp) trivial
  · exact .pure rfl trivial

lemma adds_ruleGuard : Adds inv ruleGuard Option.toList fun _ => True := by
  intro before
  unfold ruleGuard
  apply Reads.kind
  intro kind
  split
  · apply Reads.next
    intro _
    apply (adds_expression _ before).bind
    intro e _
    exact .pure rfl trivial
  · exact .pure (by simp) trivial

lemma adds_rule : AddsDefinition inv rule := by
  intro before
  unfold rule
  apply Reads.next
  intro token
  apply Reads.expect
  intro name
  apply reads_ruleOptions.bind
  intro options _
  apply (adds_ruleGuard before).bind
  intro guard _
  apply (adds_block _).bind
  intro body hbody
  exact .pure (by simp [Definition.exprs]) hbody

lemma adds_globalOrFunction : AddsDefinition inv globalOrFunction := by
  intro before
  unfold globalOrFunction
  apply Reads.skip steady_get
  intro start
  apply (reads_type _).bind
  intro type htype
  apply Reads.skip (steady_expectFor _ _)
  intro name
  apply Reads.kind
  intro kind
  by_cases hkind : kind = .openParen
  · rw [if_pos hkind]
    exact adds_function htype _ _ before
  · rw [if_neg hkind]
    split
    next => exact .throw _
    next hvoid =>
      apply Reads.expect
      intro _
      apply (adds_expression _ before).bind
      intro value _
      apply Reads.expect
      intro _
      have hprintable : type.Printable := ⟨htype, by simpa using hvoid⟩
      exact .pure rfl hprintable

lemma adds_definition : AddsDefinition inv definition := by
  intro before
  unfold definition
  apply Reads.kind
  intro kind
  split
  · exact adds_rule before
  · exact adds_globalOrFunction before

lemma adds_definitionsWithin (count : Nat) :
    Adds inv (definitionsWithin count) (·.flatMap Definition.exprs) (∀ d ∈ ·, d.Printable) := by
  intro before
  induction count generalizing before with
  | zero => exact .pure (by simp) (by simp)
  | succ count ih =>
    unfold definitionsWithin
    apply Reads.skip steady_get
    intro s
    split
    · apply (adds_definition before).bind
      intro first hfirst
      apply (ih _).bind
      intro rest hrest
      exact .pure (by simp) (List.forall_mem_cons.mpr ⟨hfirst, hrest⟩)
    · exact .pure (by simp) (by simp)

end Definitions

section Programs

variable [Carried inv] {before : List Expr}

lemma steady_configNumber : Steady configNumber := by
  unfold configNumber
  apply steady_currentKind.bind
  intro kind
  dsimp only
  split
  · apply steady_advance.bind
    intro _
    apply (steady_expect _).bind
    intro token
    split
    · exact steady_pure _
    · exact steady_get.bind fun _ => steady_throw _
  · apply (steady_expect _).bind
    intro token
    split
    · exact steady_pure _
    · exact steady_get.bind fun _ => steady_throw _

lemma steady_configValue : Steady configValue := by
  unfold configValue
  apply steady_currentKind.bind
  intro kind
  split
  · exact steady_advance.bind fun _ => steady_pure _
  · exact steady_advance.bind fun _ => steady_pure _
  · exact steady_configNumber
  · exact steady_configNumber
  · exact steady_get.bind fun _ => steady_throw _

lemma adds_configEntry : Adds inv configEntry (fun _ => []) fun _ => True := by
  intro before
  unfold configEntry
  apply Reads.expect
  intro name
  apply Reads.expect
  intro _
  apply Reads.skip steady_configValue
  intro value
  apply Reads.expect
  intro _
  exact .pure (by simp) trivial

lemma adds_configBlock : Adds inv configBlock (fun _ => []) fun _ => True := by
  intro before
  apply Reads.expect
  intro _
  apply (adds_braced adds_configEntry before).mono
  intro entries _
  simp

variable (inv) in
/-- A program has the expressions that have been read, and a form that can be printed. -/
lemma reads_program {p : Program} {s s' : TokenStream} (hs : inv s [])
    (h : program.run s = (.ok p, s')) :
    inv s' p.exprs ∧ p.file = s'.file ∧ p.exprCount = s'.nextId ∧
      ∀ d ∈ p.definitions, d.Printable := by
  have hend : ∀ config : List ConfigEntry, ∀ t : TokenStream, inv t [] →
      (do
        let definitions ← definitionsWithin (← get).rest.length
        let u ← get
        return ⟨u.file, config, definitions, u.nextId⟩ : Parse Program).run t = (.ok p, s') →
      inv s' p.exprs ∧ p.file = s'.file ∧ p.exprCount = s'.nextId ∧
        ∀ d ∈ p.definitions, d.Printable := by
    intro config t hinv ht
    obtain ⟨_, _, hget, ht⟩ := run_bind_ok.mp ht
    cases hget
    obtain ⟨definitions, u, hdefinitions, ht⟩ := run_bind_ok.mp ht
    have hread := adds_definitionsWithin _ [] _ _ _ hinv hdefinitions
    cases ht
    exact ⟨hread.1, rfl, rfl, hread.2⟩
  obtain ⟨kind, t, hkind, h⟩ := run_bind_ok.mp h
  cases hkind
  dsimp only at h
  split at h
  · obtain ⟨config, t, hconfig, h⟩ := run_bind_ok.mp h
    exact hend config t (adds_configBlock [] _ _ _ hs hconfig).1 h
  · obtain ⟨config, t, hconfig, h⟩ := run_bind_ok.mp h
    cases hconfig
    exact hend _ _ hs h

end Programs

end Parse

end ChessEval
