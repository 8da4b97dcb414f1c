import ChessEval.Proofs.Registration

/-!
# Names of functions in code

The name that a function has in code can be read back. Between underscores stand first the pieces of the
function's own name, then nothing, and then the words of its parameter types, each of which has letters. So
the last empty piece tells where the types start, and the words tell what they are.
-/

namespace ChessEval

open List

namespace Ty

/-- The words that spell a type in the name of a function. -/
def words : Ty → List String
  | .array element => "vec" :: element.words
  | t => [t.mangled]

lemma words_ne_nil (t : Ty) : t.words ≠ [] := by
  cases t <;> simp [words]

lemma mangled_eq (t : Ty) : t.mangled = "_".intercalate t.words := by
  induction t with
  | array element ih =>
    rw [words, String.intercalate_cons_of_ne_nil element.words_ne_nil, ← ih]
    rfl
  | _ => rfl

lemma word_of_mem {t : Ty} {word : String} (h : word ∈ t.words) : word ≠ "" ∧ '_' ∉ word.toList := by
  induction t with
  | array element ih =>
    rcases mem_cons.mp h with rfl | h
    · decide
    · exact ih h
  | _ =>
    rw [mem_singleton.mp h]
    decide

/-- No type is spelled by the first words of another, so types that follow each other can be told apart. -/
lemma words_append_inj {t u : Ty} {rest others : List String} (ht : t.isResolved = true)
    (hu : u.isResolved = true) (h : t.words ++ rest = u.words ++ others) : t = u ∧ rest = others := by
  induction t generalizing u with
  | array element ih =>
    cases u with
    | array element' =>
      obtain ⟨rfl, hrest⟩ := ih (u := element') ht hu (List.cons.inj h).2
      exact ⟨rfl, hrest⟩
    | _ => simp [words, mangled] at h
  | _ => cases u <;> simp_all [words, mangled, isResolved]

lemma flatMap_words_inj {ts us : List Ty} (hts : ∀ t ∈ ts, t.isResolved = true)
    (hus : ∀ u ∈ us, u.isResolved = true) (h : ts.flatMap words = us.flatMap words) : ts = us := by
  induction ts generalizing us with
  | nil =>
    cases us with
    | nil => rfl
    | cons u us => simp [u.words_ne_nil] at h
  | cons t ts ih =>
    cases us with
    | nil => simp [t.words_ne_nil] at h
    | cons u us =>
      rw [forall_mem_cons] at hts hus
      rw [flatMap_cons, flatMap_cons] at h
      obtain ⟨rfl, hrest⟩ := words_append_inj hts.1 hus.1 h
      rw [ih hts.2 hus.2 hrest]

end Ty

namespace Code

lemma intercalate_mangled {params : List Ty} :
    "_".intercalate (params.map Ty.mangled) = "_".intercalate (params.flatMap Ty.words) := by
  induction params with
  | nil => rfl
  | cons t rest ih =>
    by_cases hrest : rest = []
    · simp [hrest, t.mangled_eq]
    · have hwords : rest.flatMap Ty.words ≠ [] := by
        obtain ⟨u, hu⟩ := exists_mem_of_ne_nil rest hrest
        intro h
        exact u.words_ne_nil (flatMap_eq_nil_iff.mp h u hu)
      rw [map_cons, String.intercalate_cons_of_ne_nil (by simpa using hrest), ih, flatMap_cons,
        String.intercalate_append_of_ne_nil t.words_ne_nil hwords, t.mangled_eq]

lemma splitOn_functionName (name : String) {params : List Ty} (hparams : params ≠ []) :
    (functionName name params).toList.splitOn '_' =
      ['f', 'n'] :: (name.toList.splitOn '_' ++ [] :: (params.flatMap Ty.words).map String.toList) := by
  have hwords : (params.flatMap Ty.words).map String.toList ≠ [] := by
    obtain ⟨u, hu⟩ := exists_mem_of_ne_nil params hparams
    intro h
    exact u.words_ne_nil (flatMap_eq_nil_iff.mp (map_eq_nil_iff.mp h) u hu)
  have hfree : ∀ piece ∈ (params.flatMap Ty.words).map String.toList, '_' ∉ piece := by
    intro piece hpiece
    obtain ⟨word, hword, rfl⟩ := mem_map.mp hpiece
    obtain ⟨t, -, ht⟩ := mem_flatMap.mp hword
    exact (Ty.word_of_mem ht).2
  have htext : (functionName name params).toList = ['f', 'n'] ++ '_' :: (name.toList ++ '_' :: ([] ++ '_' ::
      ['_'].intercalate ((params.flatMap Ty.words).map String.toList))) := by
    rw [functionName, if_neg (by simpa using hparams), intercalate_mangled]
    simp [String.toList_intercalate]
  rw [htext, splitOn_append_cons_self, splitOn_append_cons_self, splitOn_append_cons_self,
    splitOn_intercalate '_' hfree hwords]
  rfl

lemma append_cons_inj_last {α : Type} [DecidableEq α] {x : α} {front front' back back' : List α} (hback : x ∉ back)
    (hback' : x ∉ back') (h : front ++ x :: back = front' ++ x :: back') : front = front' ∧ back = back' := by
  have hlength : back.length = back'.length := by
    have hidx := congrArg (fun l => l.reverse.idxOf x) h
    simpa [idxOf_append, hback, hback'] using hidx
  obtain ⟨hfront, hrest⟩ := append_inj' h (by simp [hlength])
  exact ⟨hfront, (List.cons.inj hrest).2⟩

/-- The name in code tells a function's own name and its parameter types, if it has parameters. -/
lemma functionName_inj {name name' : String} {params params' : List Ty} (hne : params ≠ []) (hne' : params' ≠ [])
    (hresolved : ∀ t ∈ params, t.isResolved = true) (hresolved' : ∀ t ∈ params', t.isResolved = true)
    (h : functionName name params = functionName name' params') : name = name' ∧ params = params' := by
  have hfilled : ∀ ts : List Ty, [] ∉ (ts.flatMap Ty.words).map String.toList := by
    intro ts hmem
    obtain ⟨word, hword, hempty⟩ := mem_map.mp hmem
    obtain ⟨t, -, ht⟩ := mem_flatMap.mp hword
    exact (Ty.word_of_mem ht).1 (String.toList_eq_nil_iff.mp hempty)
  have hpieces := congrArg (fun text => text.toList.splitOn '_') h
  rw [splitOn_functionName name hne, splitOn_functionName name' hne', List.cons.injEq] at hpieces
  obtain ⟨hname, hwords⟩ := append_cons_inj_last (hfilled params) (hfilled params') hpieces.2
  refine ⟨?_, Ty.flatMap_words_inj hresolved hresolved' ?_⟩
  · have hjoined := congrArg ['_'].intercalate hname
    rw [intercalate_splitOn, intercalate_splitOn] at hjoined
    exact String.toList_inj.mp hjoined
  · exact map_injective_iff.mpr (fun _ _ => String.toList_inj.mp) hwords

end Code

namespace Program

variable {p : Program} {a : Analysis} {ds ds' : Diagnostics}

lemma functions_of_check (hcheck : p.check ds = (a, ds')) (hclean : ds'.errors = []) :
    p.functions.Pairwise fun f g => f.name = g.name → f.params.map Param.type ≠ g.params.map Param.type := by
  obtain ⟨result, final, hrun, rfl, rfl⟩ := run_of_check hcheck
  simp only [Inspect.program, runState_bind] at hrun
  obtain ⟨_, _, -, _, _, -, _, t, hregister, hrest⟩ := hrun
  have ht : t.Clean := Inspect.KeepsErrors.closed.definitions (p := p) (fun _ _ => trivial) t result final
    (by simpa only [Inspect.definitions, runState_bind] using hrest) hclean
  exact (Inspect.admitsAll_of_registerFunctions hregister ht).compatible.imp fun h hname => (h hname).2

/-- The name of a function in code tells its own name and its parameter types, if it has parameters and their types are
known. The functions of a program that is checked without errors differ in their names in code or in the number of their
parameters. -/
theorem functionNames_distinct {tokens : List Token} {file : String}
    (hread : (Program.ofTokens tokens file).1 = .ok p) (hcheck : p.check ds = (a, ds')) (hclean : ds'.errors = []) :
    (Function.Injective fun f : String × { params : List Ty // params ≠ [] ∧ ∀ t ∈ params, t.isResolved = true } =>
      Code.functionName f.1 f.2.1) ∧
    p.functions.Pairwise fun f g =>
      Code.functionName f.name (f.params.map Param.type) ≠ Code.functionName g.name (g.params.map Param.type) ∨
        f.params.length ≠ g.params.length := by
  constructor
  · rintro ⟨name, params, hne, hresolved⟩ ⟨name', params', hne', hresolved'⟩ h
    obtain ⟨rfl, rfl⟩ := Code.functionName_inj hne hne' hresolved hresolved' h
    rfl
  · have hwf := wellFormed_of_ofTokens hread
    refine (functions_of_check hcheck hclean).imp_of_mem fun {f g} hf hg hdiffer => ?_
    by_contra! hsame
    obtain ⟨hname, hlength⟩ := hsame
    by_cases hempty : f.params = []
    · have hempty' : g.params = [] := length_eq_zero_iff.mp (by rw [← hlength, hempty, length_nil])
      have hown : f.name = g.name := by
        rw [hempty, hempty'] at hname
        exact (String.append_right_inj "fn_").mp hname
      exact hdiffer hown (by rw [hempty, hempty'])
    · have hempty' : g.params ≠ [] := fun h => hempty (length_eq_zero_iff.mp (by rw [hlength, h, length_nil]))
      obtain ⟨hown, hparams⟩ := Code.functionName_inj (by simpa using hempty) (by simpa using hempty')
        (forall_mem_map.mpr (hwf.params hf)) (forall_mem_map.mpr (hwf.params hg)) hname
      exact hdiffer hown hparams

/-- Names with underscores. Without parameters a function can have the name of another that has one. -/
theorem functionNames_distinct_underscores :
    ∃ tokens p a ds,
      Token.ofSource ("num f(num x) \x7b return x; \x7d num f__num() \x7b return 1; \x7d " ++
        "num f__num(num x) \x7b return x; \x7d num f(num x, num[] y) \x7b return x; \x7d") "" = .ok tokens ∧
      (Program.ofTokens tokens "").1 = .ok p ∧ p.check {} = (a, ds) ∧ ds.errors = [] ∧
      p.functions.map (fun f => Code.functionName f.name (f.params.map Param.type)) =
        ["fn_f__num", "fn_f__num", "fn_f__num__num", "fn_f__num_vec_num"] ∧
      p.functions.Pairwise fun f g =>
        Code.functionName f.name (f.params.map Param.type) ≠ Code.functionName g.name (g.params.map Param.type) ∨
          f.params.length ≠ g.params.length := by
  have hrun : infersWith ("num f(num x) \x7b return x; \x7d num f__num() \x7b return 1; \x7d " ++
        "num f__num(num x) \x7b return x; \x7d num f(num x, num[] y) \x7b return x; \x7d") 3
      (fun p _ _ => decide (p.functions.map (fun f => Code.functionName f.name (f.params.map Param.type)) =
        ["fn_f__num", "fn_f__num", "fn_f__num__num", "fn_f__num_vec_num"])) = true := by
    decide +kernel
  obtain ⟨tokens, p, a, ds, b, ds', htokens, hread, hcheck, hclean, -, -, htest⟩ := of_infersWith hrun
  exact ⟨tokens, p, a, ds, htokens, hread, hcheck, hclean, of_decide_eq_true htest,
    (functionNames_distinct hread hcheck hclean).2⟩

end Program

end ChessEval
