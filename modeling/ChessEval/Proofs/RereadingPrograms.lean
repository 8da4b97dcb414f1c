import ChessEval.Proofs.RereadingStatements

namespace ChessEval

open List

open Expr

lemma Number.opposite_opposite (value : Number) : value.opposite.opposite = value := by
  cases value <;> simp [opposite]

namespace Parse

variable {numeral : Number → String} {s : TokenStream} {token : Token} {rest : List Token}

section Settings

def LegibleSetting (numeral : Number → String) (value : ConfigValue) : Prop :=
  ∀ size, value.magnitude? = some size → Number.ofText? (numeral size) = some size

lemma gives_configNumber {value : Number} (h : LegibleSetting numeral (.number value))
    (hs : s.tokens = (ConfigValue.number value).print numeral ++ token :: rest) :
    Gives configNumber s (token :: rest) s.nextId (· = .number value) := by
  have htext : Number.ofText? (numeral value.magnitude) = some value.magnitude := h _ rfl
  rw [ConfigValue.print] at hs
  by_cases hsign : value.isNegative = true
  · have hmagnitude : value.magnitude.opposite = value := by
      rw [Number.magnitude, if_pos hsign, Number.opposite_opposite]
    rw [if_pos hsign] at hs
    simp only [cons_append, nil_append] at hs
    apply Gives.kind hs
    apply Gives.advance hs (by simp)
    intro t ht htid
    apply Gives.expect ht (by simp)
    intro u hu huid
    simp only [Token.printed, htext]
    exact .pure hu (by omega) (congrArg ConfigValue.number hmagnitude)
  · have hmagnitude : value.magnitude = value := by rw [Number.magnitude, if_neg hsign]
    rw [if_neg hsign] at hs
    simp only [cons_append, nil_append] at hs
    apply Gives.kind hs
    apply Gives.expect hs (by simp)
    intro t ht htid
    simp only [Token.printed, htext]
    exact .pure ht htid (congrArg ConfigValue.number hmagnitude)

lemma gives_configEntry {entry : ConfigEntry} (h : LegibleSetting numeral entry.value)
    (hs : s.tokens = entry.print numeral ++ token :: rest) :
    Gives configEntry s (token :: rest) s.nextId (·.unmarked = entry.unmarked) := by
  obtain ⟨name, value, line⟩ := entry
  simp only [ConfigEntry.print, cons_append, append_assoc, nil_append] at hs
  apply Gives.expect hs (by simp)
  intro t ht htid
  apply Gives.expect ht (by simp)
  intro u hu huid
  have hvalue : Gives configValue u (.fixed .semicolon :: token :: rest) u.nextId (· = value) := by
    cases value with
    | boolean value =>
      cases value with
      | true | false =>
        apply Gives.kind hu
        apply Gives.advance hu (by simp)
        intro v hv hvid
        exact .pure hv hvid rfl
    | number value =>
      have hnumber := gives_configNumber h hu
      rw [ConfigValue.print] at hu
      by_cases hsign : value.isNegative = true
      · rw [if_pos hsign] at hu
        exact Gives.kind hu hnumber
      · rw [if_neg hsign] at hu
        exact Gives.kind hu hnumber
  apply hvalue.bind
  rintro _ v hv hvid rfl
  apply Gives.expect hv (by simp)
  intro w hw hwid
  exact .pure hw (by omega) rfl

lemma gives_configBlock {config : List ConfigEntry}
    (h : ∀ entry ∈ config, LegibleSetting numeral entry.value) (hrest : rest ≠ [])
    (hs : s.tokens = .fixed .configWord ::
      (Token.braces (config.flatMap (ConfigEntry.print numeral)) ++ rest)) :
    Gives configBlock s rest s.nextId
      (·.map ConfigEntry.unmarked = config.map ConfigEntry.unmarked) := by
  apply Gives.expect hs (by simp [Token.braces])
  intro t ht htid
  rw [Token.braces, cons_append, append_assoc, singleton_append] at ht
  have hentries : Gives (braced configEntry) t rest (t.nextId + taken (config.flatMap fun _ => []))
      (·.map ConfigEntry.unmarked = config.map ConfigEntry.unmarked) := by
    apply gives_braced hrest _ _ ht
    · intro entry hentry s token more _ hs
      exact gives_configEntry (h entry hentry) hs
    · intro entry _
      exact ⟨_, _, rfl, by simp, by simp, by simp⟩
  exact hentries.mono (by rw [taken_flatMap_nil, htid]; rfl) fun _ h => h

end Settings

section Definitions

lemma gives_ampersand (byReference : Bool) (htoken : token.kind ≠ .ampersand)
    (hs : s.tokens = (if byReference then [.fixed .ampersand] else []) ++ token :: rest) :
    Gives ampersand s (token :: rest) s.nextId (· = byReference) := by
  cases byReference with
  | true =>
    apply Gives.kind hs
    rw [if_pos (Token.kind_fixed _)]
    apply Gives.advance hs (by simp)
    intro t ht htid
    exact .pure ht htid rfl
  | false =>
    apply Gives.kind hs
    rw [if_neg htoken]
    exact .pure hs rfl rfl

lemma gives_param {param : Param} (h : param.type.Printable)
    (hs : s.tokens = param.print ++ token :: rest) :
    Gives Parse.param s (token :: rest) s.nextId (·.unmarked = param.unmarked) := by
  obtain ⟨type, name, byReference, line⟩ := param
  obtain ⟨kind, scalar, n, hkind, -, hprint⟩ := Ty.exists_print h.1
  simp only [Param.print, append_assoc, cons_append, nil_append] at hs
  obtain ⟨more, hfirst⟩ : ∃ more, s.tokens = .fixed kind :: more := by
    rw [hs, hprint]
    exact ⟨_, rfl⟩
  have hkind' : (Token.fixed kind).kind ≠ .ampersand := by
    rw [Token.kind_fixed]
    rintro rfl
    cases hkind
  apply Gives.current hfirst
  apply (gives_ampersand false hkind' hfirst).bind
  rintro _ t ht htid rfl
  rw [← hfirst, hs] at ht
  -- neither the ampersand nor the name goes on with the type
  obtain ⟨following, after, hfollowing, hbracket⟩ : ∃ following after,
      (if byReference then [Token.fixed .ampersand] else []) ++
        .printed .identifier name :: token :: rest = following :: after ∧
      following.kind ≠ .openBracket := by
    cases byReference
    · exact ⟨_, _, rfl, nofun⟩
    · exact ⟨_, _, rfl, by decide⟩
  rw [hfollowing] at ht
  apply (gives_valueType h hbracket ht).bind
  rintro _ u hu huid rfl
  rw [← hfollowing] at hu
  apply (gives_ampersand byReference (by simp) hu).bind
  rintro _ v hv hvid rfl
  apply Gives.expect hv (by simp)
  intro w hw hwid
  exact .pure hw (by omega) rfl

lemma legibleStmt_of_body {body : List Stmt} (h : ∀ st ∈ Stmt.blockParts body, st.Printable)
    (hexprs : ∀ e ∈ (Stmt.blockParts body).flatMap Stmt.exprs, ∀ n ∈ e.nodes, Legible numeral n) :
    ∀ st ∈ Stmt.blockParts body, LegibleStmt numeral st :=
  fun st hst => ⟨h st hst, fun e he => hexprs e (mem_flatMap.mpr ⟨st, hst, he⟩)⟩

lemma gives_function {f : FunctionDef} {line : Nat} (h : (Definition.function f).Printable)
    (hexprs : ∀ e ∈ (Definition.function f).exprs, ∀ n ∈ e.nodes, Legible numeral n)
    (hrest : rest ≠ [])
    (hs : s.tokens = .fixed .openParen :: (Token.separated (f.params.map Param.print) ++
      .fixed .closeParen :: (Token.braces (Stmt.printBlock numeral f.body) ++ rest))) :
    Gives (function f.returnType f.name line) s rest
      (s.nextId + taken (Definition.function f).exprs)
      (·.unmarked = (Definition.function f).unmarked) := by
  obtain ⟨-, hparams, hbody⟩ := h
  apply Gives.expect hs (by simp)
  intro t ht htid
  have hend : ∀ params : List Param, params.map Param.unmarked = f.params.map Param.unmarked →
      ∀ u : TokenStream, u.nextId = t.nextId → u.tokens = .fixed .closeParen ::
        (Token.braces (Stmt.printBlock numeral f.body) ++ rest) →
      Gives (expect .closeParen >>= fun _ => block >>= fun body =>
          pure (Definition.function ⟨f.returnType, f.name, params, body, line⟩)) u rest
        (s.nextId + taken (Definition.function f).exprs)
        (·.unmarked = (Definition.function f).unmarked) := by
    intro params hparams' u huid hu
    apply Gives.expect hu (by simp [hrest])
    intro v hv hvid
    rw [Token.braces, cons_append, append_assoc, singleton_append] at hv
    apply (gives_block (legibleStmt_of_body hbody hexprs) hrest hv).bind
    intro body w hw hwid hbody'
    apply Gives.pure hw
    · simp only [Definition.exprs]
      omega
    · simp only [Definition.unmarked, hparams', hbody']
  by_cases hne : f.params = []
  · rw [hne] at ht
    apply Gives.kind ht
    simp only [Token.kind_fixed, if_true, pure_bind]
    exact hend [] (by rw [hne]) t rfl ht
  · -- the first parameter starts with a type word
    obtain ⟨kind, more, hfirst, hkind⟩ : ∃ kind more,
        t.tokens = .fixed kind :: more ∧ kind ≠ .closeParen := by
      obtain ⟨param, params, hlist⟩ := exists_cons_of_ne_nil hne
      obtain ⟨kind, scalar, n, hkind, -, hprint⟩ :=
        Ty.exists_print (hparams param (by rw [hlist]; exact mem_cons_self)).1
      rw [hlist, map_cons, Token.separated, Param.print, hprint] at ht
      refine ⟨kind, _, ht, ?_⟩
      rintro rfl
      cases hkind
    have hread : Gives (commaSeparated param) t (.fixed .closeParen ::
          (Token.braces (Stmt.printBlock numeral f.body) ++ rest))
        (t.nextId + taken (f.params.flatMap fun _ => []))
        (·.map Param.unmarked = f.params.map Param.unmarked) := by
      apply gives_commaSeparated hne (by decide) _ ht
      intro param hparam s token more _ hs
      exact gives_param (hparams param hparam) hs
    apply Gives.kind hfirst
    rw [Token.kind_fixed, if_neg hkind]
    apply hread.bind
    intro params u hu huid hparams'
    rw [taken_flatMap_nil] at huid
    exact hend params hparams' u huid hu

lemma gives_ruleOptions {options : List RuleOption} (htoken : token.kind ≠ .openParen)
    (hs : s.tokens = RuleOption.printAll options ++ token :: rest) :
    Gives ruleOptions s (token :: rest) s.nextId
      (·.map RuleOption.unmarked = options.map RuleOption.unmarked) := by
  unfold RuleOption.printAll at hs
  by_cases hne : options = []
  · rw [if_pos hne] at hs
    apply Gives.kind hs
    rw [if_neg htoken]
    exact .pure hs rfl (by rw [hne])
  · rw [if_neg hne] at hs
    simp only [cons_append, append_assoc, nil_append] at hs
    apply Gives.kind hs
    rw [if_pos (Token.kind_fixed _)]
    apply Gives.advance hs (by simp)
    intro t ht htid
    have hread : Gives (commaSeparated ruleOption) t (.fixed .closeParen :: token :: rest)
        (t.nextId + taken (options.flatMap fun _ => []))
        (·.map RuleOption.unmarked = options.map RuleOption.unmarked) := by
      apply gives_commaSeparated hne (by decide) _ ht
      intro option _ s token more _ hs
      apply Gives.expect hs (by simp)
      intro u hu huid
      exact .pure hu huid rfl
    apply hread.bind
    intro options' u hu huid hoptions'
    rw [taken_flatMap_nil] at huid
    apply Gives.expect hu (by simp)
    intro v hv hvid
    exact .pure hv (by omega) hoptions'

lemma gives_ruleGuard {guard : Option Expr}
    (h : ∀ e ∈ guard.toList, ∀ n ∈ e.nodes, Legible numeral n)
    (htoken : token.kind.operator? = none ∧ token.kind ≠ .doifWord)
    (hs : s.tokens = (guard.toList.flatMap fun e => .fixed .doifWord :: e.print numeral) ++
      token :: rest) :
    Gives ruleGuard s (token :: rest) (s.nextId + taken guard.toList)
      (·.map unmarked = guard.map unmarked) := by
  cases guard with
  | none =>
    apply Gives.kind hs
    rw [if_neg htoken.2]
    exact .pure hs rfl rfl
  | some guard =>
    simp only [Option.toList_some, flatMap_cons, flatMap_nil, append_nil,
      cons_append] at hs
    apply Gives.kind hs
    rw [if_pos (Token.kind_fixed _)]
    apply Gives.advance hs (by simp)
    intro t ht htid
    apply (gives_expression (h guard (by simp)) htoken.1 ht).bind
    intro guard' u hu huid hguard'
    exact .pure hu (by rw [huid, htid]; rfl) (congrArg some hguard')

lemma gives_rule {r : RuleDef} (h : (Definition.rule r).Printable)
    (hexprs : ∀ e ∈ (Definition.rule r).exprs, ∀ n ∈ e.nodes, Legible numeral n)
    (hrest : rest ≠ []) (hs : s.tokens = (Definition.rule r).print numeral ++ rest) :
    Gives rule s rest (s.nextId + taken (Definition.rule r).exprs)
      (·.unmarked = (Definition.rule r).unmarked) := by
  simp only [Definition.print, Token.braces, cons_append, append_assoc, nil_append]
    at hs
  simp only [Definition.exprs, forall_mem_append] at hexprs
  obtain ⟨hguard, hbody⟩ := hexprs
  apply Gives.advance hs (by simp)
  intro t ht htid
  apply Gives.expect ht (by simp)
  intro u hu huid
  -- after the options comes the guard or the body
  obtain ⟨token, more, hmore, htoken⟩ : ∃ token more,
      (r.guard.toList.flatMap fun e => .fixed .doifWord :: e.print numeral) ++
        .fixed .openCurly :: (Stmt.printBlock numeral r.body ++ .fixed .closeCurly :: rest) =
          token :: more ∧ token.kind ≠ .openParen := by
    cases r.guard with
    | none => exact ⟨_, _, rfl, by decide⟩
    | some guard => exact ⟨_, _, rfl, by decide⟩
  rw [hmore] at hu
  apply (gives_ruleOptions htoken hu).bind
  intro options v hv hvid hoptions
  rw [← hmore] at hv
  apply (gives_ruleGuard hguard ⟨rfl, by decide⟩ hv).bind
  intro guard w hw hwid hguard'
  apply (gives_block (legibleStmt_of_body h hbody) hrest hw).bind
  intro body x hx hxid hbody'
  apply Gives.pure hx
  · simp only [Definition.exprs, taken_append]
    omega
  · simp only [Definition.unmarked, hoptions, hguard', hbody']
    rfl

lemma gives_global {g : GlobalDef} (h : g.type.Printable) (hvalue : ∀ n ∈ g.value.nodes, Legible numeral n)
    (hrest : rest ≠ []) (hs : s.tokens = (Definition.global g).print numeral ++ rest) :
    Gives globalOrFunction s rest (s.nextId + taken [g.value])
      (·.unmarked = (Definition.global g).unmarked) := by
  simp only [Definition.print, append_assoc, cons_append, nil_append] at hs
  apply Gives.get
  apply (gives_type h.1 (by simp) hs).bind
  rintro _ t ht htid rfl
  apply Gives.expectFor ht (by simp)
  intro u hu huid
  apply Gives.kind hu
  rw [if_neg (by simp), if_neg (by simp [h.2])]
  apply Gives.expect hu (by simp)
  intro v hv hvid
  apply (gives_expression hvalue rfl hv).bind
  intro value w hw hwid hvalue'
  apply Gives.expect hw hrest
  intro x hx hxid
  apply Gives.pure hx
  · omega
  · simp only [Definition.unmarked, hvalue']
    rfl

lemma gives_definition {d : Definition} (h : d.Printable)
    (hexprs : ∀ e ∈ d.exprs, ∀ n ∈ e.nodes, Legible numeral n) (hrest : rest ≠ [])
    (hs : s.tokens = d.print numeral ++ rest) :
    Gives definition s rest (s.nextId + taken d.exprs) (·.unmarked = d.unmarked) := by
  have htype : ∀ type : Ty, type.isResolved = true → ∀ more, s.tokens = type.print ++ more →
      Gives globalOrFunction s rest (s.nextId + taken d.exprs) (·.unmarked = d.unmarked) →
      Gives definition s rest (s.nextId + taken d.exprs) (·.unmarked = d.unmarked) := by
    intro type hresolved more hmore hread
    obtain ⟨kind, scalar, n, hkind, -, hprint⟩ := Ty.exists_print hresolved
    rw [hprint, cons_append] at hmore
    apply Gives.kind hmore
    have hrule : kind ≠ .ruleWord := by
      rintro rfl
      cases hkind
    rw [Token.kind_fixed, if_neg hrule]
    exact hread
  cases d with
  | global g =>
    apply htype g.type h.1 _ (by rw [hs, Definition.print, append_assoc])
    exact gives_global h (hexprs g.value (by simp [Definition.exprs])) hrest hs
  | function f =>
    have hs' := hs
    simp only [Definition.print, append_assoc, cons_append] at hs'
    apply htype f.returnType h.1 _ hs'
    apply Gives.get
    apply (gives_type h.1 (by simp) hs').bind
    rintro _ t ht htid rfl
    apply Gives.expectFor ht (by simp)
    intro u hu huid
    apply Gives.kind hu
    rw [if_pos (Token.kind_fixed _)]
    exact (gives_function h hexprs hrest hu).mono (by omega) fun _ h => h
  | rule r =>
    have hs' := hs
    simp only [Definition.print, cons_append] at hs'
    apply Gives.kind hs'
    rw [if_pos (Token.kind_fixed _)]
    exact gives_rule h hexprs hrest hs

lemma definition_begins (numeral : Number → String) {d : Definition} (h : d.Printable) :
    ∃ token more, d.print numeral = token :: more ∧ token.kind ≠ .eof ∧ token.kind ≠ .configWord := by
  have htype : ∀ type : Ty, type.isResolved = true → ∀ more, d.print numeral = type.print ++ more →
      ∃ token more, d.print numeral = token :: more ∧ token.kind ≠ .eof ∧
        token.kind ≠ .configWord := by
    intro type hresolved more hmore
    obtain ⟨kind, scalar, n, hkind, -, hprint⟩ := Ty.exists_print hresolved
    rw [hprint, cons_append] at hmore
    refine ⟨_, _, hmore, ?_, ?_⟩ <;> (rw [Token.kind_fixed]; rintro rfl; cases hkind)
  cases d with
  | global g => exact htype g.type h.1 _ rfl
  | function f => exact htype f.returnType h.1 _ rfl
  | rule r => exact ⟨_, _, rfl, by decide, by decide⟩

lemma gives_definitionsWithin {ds : List Definition} {count : Nat} {line : Nat}
    (h : ∀ d ∈ ds, d.Printable)
    (hexprs : ∀ d ∈ ds, ∀ e ∈ d.exprs, ∀ n ∈ e.nodes, Legible numeral n) (hcount : ds.length ≤ count)
    (hs : s.tokens = ds.flatMap (Definition.print numeral) ++ [Token.eof line]) :
    Gives (definitionsWithin count) s [Token.eof line]
      (s.nextId + taken (ds.flatMap Definition.exprs))
      (·.map Definition.unmarked = ds.map Definition.unmarked) := by
  induction ds generalizing s count with
  | nil =>
    cases count with
    | zero => exact .pure hs rfl rfl
    | succ count =>
      apply Gives.get
      rw [if_neg (by rw [TokenStream.hasTokens_eq hs]; simp [Token.eof])]
      exact .pure hs rfl rfl
  | cons d ds ih =>
    obtain ⟨count, rfl⟩ : ∃ k, count = k + 1 := ⟨count - 1, by simp at hcount; omega⟩
    obtain ⟨token, more, hfirst, heof, -⟩ := definition_begins numeral (h d (by simp))
    rw [flatMap_cons, append_assoc] at hs
    have hbegin : s.hasTokens = true := by
      rw [hfirst, cons_append] at hs
      rw [TokenStream.hasTokens_eq hs]
      exact bne_iff_ne.mpr heof
    apply Gives.get
    rw [if_pos hbegin]
    apply (gives_definition (h d (by simp)) (hexprs d (by simp)) (by simp) hs).bind
    intro first t ht htid hfirst'
    apply (ih (fun d' hd' => h d' (by simp [hd'])) (fun d' hd' => hexprs d' (by simp [hd']))
      (Nat.le_of_succ_le_succ hcount) ht).bind
    intro others u hu huid hothers
    apply Gives.pure hu
    · rw [huid, htid, flatMap_cons, taken_append]
      omega
    · rw [map_cons, map_cons, hfirst', hothers]

end Definitions

lemma gives_program {p : Program} (hconfig : ∀ entry ∈ p.config, LegibleSetting numeral entry.value)
    (h : ∀ d ∈ p.definitions, d.Printable) (hnodes : ∀ n ∈ p.nodes, Legible numeral n)
    (hs : s.tokens = p.print numeral) :
    Gives program s [Token.eof 1] (s.nextId + taken p.exprs) fun q =>
      q.unmarked = { p.unmarked with file := s.file, exprCount := s.nextId + taken p.exprs } := by
  have hexprs : ∀ d ∈ p.definitions, ∀ e ∈ d.exprs, ∀ n ∈ e.nodes, Legible numeral n := by
    intro d hd e he n hn
    exact hnodes n (mem_flatMap.mpr ⟨e, mem_flatMap.mpr ⟨d, hd, he⟩, hn⟩)
  have hend : ∀ config : List ConfigEntry,
      config.map ConfigEntry.unmarked = p.config.map ConfigEntry.unmarked → ∀ t : TokenStream,
      t.file = s.file → t.nextId = s.nextId →
      t.tokens = p.definitions.flatMap (Definition.print numeral) ++ [Token.eof 1] →
      Gives (do
        let definitions ← definitionsWithin (← get).rest.length
        let u ← get
        return ⟨u.file, config, definitions, u.nextId⟩ : Parse Program) t [Token.eof 1]
        (s.nextId + taken p.exprs) fun q =>
          q.unmarked = { p.unmarked with file := s.file, exprCount := s.nextId + taken p.exprs } := by
    intro config hconfig' t htfile htid ht
    have hcount : p.definitions.length ≤ t.rest.length := by
      have hitems : p.definitions.length ≤
          (p.definitions.flatMap (Definition.print numeral)).length := by
        apply length_le_items
        intro d hd
        obtain ⟨token, more, hfirst, -⟩ := definition_begins numeral (h d hd)
        simp [hfirst]
      have hlength := congrArg List.length ht
      simp only [TokenStream.tokens, length_cons, length_append, length_nil] at hlength
      omega
    apply Gives.get
    apply (gives_definitionsWithin h hexprs hcount ht).bind_file
    intro definitions u hu hufile huid hdefinitions
    apply Gives.get
    apply Gives.pure hu
    · rw [huid, htid]
      rfl
    · simp only [Program.unmarked, hconfig', hdefinitions, huid, hufile, htfile, htid]
      rfl
  unfold Program.print at hs
  by_cases hne : p.config = []
  · rw [if_pos hne, nil_append] at hs
    obtain ⟨token, more, hfirst, htoken⟩ : ∃ token more,
        p.definitions.flatMap (Definition.print numeral) ++ [Token.eof 1] = token :: more ∧
          token.kind ≠ .configWord := by
      cases hds : p.definitions with
      | nil => exact ⟨_, _, rfl, by decide⟩
      | cons d ds =>
        obtain ⟨token, more, hfirst, -, htoken⟩ := definition_begins numeral (h d (by simp [hds]))
        exact ⟨token, _, by rw [flatMap_cons, hfirst, cons_append, cons_append], htoken⟩
    apply Gives.kind (hs.trans hfirst)
    simp only [if_neg htoken, pure_bind]
    exact hend [] (by rw [hne]) s rfl rfl hs
  · rw [if_neg hne] at hs
    simp only [cons_append, append_assoc] at hs
    apply Gives.kind hs
    rw [if_pos (Token.kind_fixed _)]
    apply (gives_configBlock hconfig (by simp) hs).bind_file
    intro config t ht htfile htid hconfig'
    exact hend config hconfig' t htfile htid ht

end Parse

lemma TokenStream.ofTokens_of_eof (tokens : List Token) (line : Nat) (file : String) :
    (ofTokens (tokens ++ [Token.eof line]) file).tokens = tokens ++ [Token.eof line] ∧
      (ofTokens (tokens ++ [Token.eof line]) file).file = file ∧
      (ofTokens (tokens ++ [Token.eof line]) file).nextId = 0 := by
  have hterminated : terminated (tokens ++ [Token.eof line]) = tokens ++ [Token.eof line] := by
    simp [terminated, Token.eof]
  rw [ofTokens, hterminated]
  cases tokens <;> exact ⟨rfl, rfl, rfl⟩

lemma Program.exists_ofTokens_print {numeral : Number → String} {p : Program} (file : String)
    (hconfig : ∀ entry ∈ p.config, Parse.LegibleSetting numeral entry.value)
    (h : ∀ d ∈ p.definitions, d.Printable) (hnodes : ∀ n ∈ p.nodes, Parse.Legible numeral n) :
    ∃ q, (Program.ofTokens (p.print numeral) file).1 = .ok q ∧
      q.unmarked = { p.unmarked with file := file, exprCount := taken p.exprs } := by
  obtain ⟨htokens, hfile, hid⟩ : (TokenStream.ofTokens (p.print numeral) file).tokens =
        p.print numeral ∧ (TokenStream.ofTokens (p.print numeral) file).file = file ∧
        (TokenStream.ofTokens (p.print numeral) file).nextId = 0 :=
    TokenStream.ofTokens_of_eof _ 1 file
  obtain ⟨q, t, hrun, -, -, -, hq⟩ := Parse.gives_program hconfig h hnodes htokens
  rw [hfile, hid, Nat.zero_add] at hq
  exact ⟨q, congrArg Prod.fst hrun, hq⟩

end ChessEval
