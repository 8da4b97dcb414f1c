import ChessEval.Command.FileTree
import ChessEval.Proofs.Runs
import Mathlib.Logic.Function.Basic

/-!
# What a run does to the output file

Every operation on files can fail, and a failed write can leave anything at the path that it writes. The output is
written under a name that no output file has, and then moved. So a run that fails leaves the output file as it was,
and a run that succeeds leaves the generated code there. Which paths lead to one place is left open, as long as they
name one file, and in a file tree they do.
-/

namespace ChessEval

open List

variable {path contents : String} {answer : Except FileError Unit}

lemma Compilation.output_of_run {p : Program} {c : Compilation} (h : (ofProgram p).run = some c) :
    c.stage = .failed ∨ ∃ text, c.output = some text := by
  obtain ⟨c', hinfer, rfl⟩ := Option.map_eq_some_iff.mp h
  have hready : c'.stage = .failed ∨ c'.stage = .inferred ∧ c'.analysis.isSome = true := by
    rcases hcheck : p.check {} with ⟨a, ds⟩
    simp only [check, ofProgram, hcheck, if_true, stageAfter] at hinfer
    cases herrors : ds.hasErrors with
    | true =>
      simp only [infer, herrors, if_true, reduceCtorEq, if_false, Option.some.injEq] at hinfer
      exact .inl (hinfer ▸ rfl)
    | false =>
      simp only [infer, herrors, Bool.false_eq_true, if_false, if_true, Option.map_eq_some_iff] at hinfer
      obtain ⟨⟨a', ds'⟩, -, rfl⟩ := hinfer
      simp only [stageAfter]
      split
      · exact .inl rfl
      · exact .inr ⟨rfl, rfl⟩
  unfold generate
  rcases hready with hfailed | ⟨hinferred, hanalysis⟩
  · rw [if_neg (by rw [hfailed]; decide)]
    exact .inl hfailed
  · obtain ⟨a, ha⟩ := Option.isSome_iff_exists.mp hanalysis
    rw [if_pos hinferred, ha]
    dsimp only
    split
    · exact .inr ⟨_, rfl⟩
    · exact .inl rfl

namespace Command

namespace Path

variable {ending : List Char}

lemma splitFrom_of_not_mem (hslash : '/' ∉ ending) (current : List Char) :
    splitFrom current ending = [current.reverse ++ ending] := by
  induction ending generalizing current with
  | nil => rw [splitFrom, append_nil]
  | cons c rest ih =>
    obtain ⟨hc, hrest⟩ := not_or.mp (mt mem_cons.mpr hslash)
    rw [splitFrom.eq_3 _ _ _ (Ne.symm hc), ih hrest, reverse_cons, append_assoc, singleton_append]

lemma getLast?_splitFrom (hslash : '/' ∉ ending) (before current : List Char) :
    ∃ name, (splitFrom current (before ++ ending)).getLast? = some (name ++ ending) := by
  fun_induction splitFrom current before with
  | case1 current => exact ⟨current.reverse, by rw [nil_append, splitFrom_of_not_mem hslash]; rfl⟩
  | case2 current rest ih =>
    obtain ⟨name, hname⟩ := ih
    refine ⟨name, ?_⟩
    rw [cons_append, splitFrom, getLast?_cons, hname]
    rfl
  | case3 current c rest hc ih =>
    rw [cons_append, splitFrom.eq_3 _ _ _ hc]
    exact ih

lemma getLast?_trimEnd {segments : List String} {name : String} (h : segments.getLast? = some name)
    (hname : isIdle name = false) : (trimEnd segments).getLast? = some name := by
  obtain ⟨before, rfl⟩ := getLast?_eq_some_iff.mp h
  cases before with
  | nil => rfl
  | cons first rest =>
    rw [cons_append, trimEnd, reverse_concat, dropWhile_cons_of_neg (by simp [hname]), reverse_cons,
      reverse_reverse, ← cons_append, getLast?_concat]

/-- The name of a file ends as the path to it does. -/
lemma fileName?_of_suffix (h : ending <:+ path.toList) (hslash : '/' ∉ ending) (hlength : 2 < ending.length) :
    ∃ name, fileName? path = some name ∧ ending <:+ name.toList := by
  obtain ⟨before, hpath⟩ := h
  obtain ⟨name, hname⟩ := getLast?_splitFrom hslash before []
  have hlast : (segments path).getLast? = some (String.ofList (name ++ ending)) := by
    rw [segments, getLast?_map, ← hpath, hname]
    rfl
  have hne : ∀ short : String, short.length ≤ 2 → (String.ofList (name ++ ending) == short) = false := by
    intro short hshort
    refine beq_false_of_ne fun heq => ?_
    rw [← heq, String.length_ofList, length_append] at hshort
    omega
  have hidle : isIdle (String.ofList (name ++ ending)) = false := by
    rw [isIdle, hne "" (by decide), hne "." (by decide)]
    rfl
  refine ⟨String.ofList (name ++ ending), ?_, by simp⟩
  rw [fileName?, getLast?_trimEnd hlast hidle]
  dsimp only
  rw [hidle, hne ".." (by decide)]
  rfl

end Path

/-- Which paths lead to the same place. Where they do, the file has one name. -/
structure Places (κ : Type) where
  place : String → κ
  fileName_eq : ∀ {a b : String}, place a = place b → ∀ n ∈ Path.fileName? a, ∀ m ∈ Path.fileName? b, n = m

/-- A failure of an operation on files, with what a write leaves where it fails. -/
structure Mishap where
  error : FileError
  left : Option ByteArray

/-- The files at all places, and which of the operations to come fail. -/
structure Disk (κ : Type) where
  files : κ → Option ByteArray
  mishaps : Nat → Option Mishap

namespace Disk

variable {κ α : Type}

/-- The disk after an operation with the given result, or after its failure, which leaves the disk spoilt. -/
def attempt (d : Disk κ) (spoilt : Option ByteArray → κ → Option ByteArray)
    (result : Except FileError (α × (κ → Option ByteArray))) : Except FileError α × Disk κ :=
  let mishaps n := d.mishaps (n + 1)
  match d.mishaps 0, result with
  | some mishap, _ => (.error mishap.error, ⟨spoilt mishap.left, mishaps⟩)
  | none, .error e => (.error e, ⟨d.files, mishaps⟩)
  | none, .ok (a, files) => (.ok a, ⟨files, mishaps⟩)

lemma attempt_cases {d d' : Disk κ} {spoilt : Option ByteArray → κ → Option ByteArray}
    {result : Except FileError (α × (κ → Option ByteArray))} {answer : Except FileError α}
    (h : d.attempt spoilt result = (answer, d')) :
    (∃ e left, answer = .error e ∧ d'.files = spoilt left) ∨ (∃ e, answer = .error e ∧ d'.files = d.files) ∨
      ∃ a, answer = .ok a ∧ result = .ok (a, d'.files) := by
  unfold attempt at h
  split at h <;> cases h
  · exact .inl ⟨_, _, rfl, rfl⟩
  · exact .inr (.inl ⟨_, rfl, rfl⟩)
  · exact .inr (.inr ⟨_, rfl, rfl⟩)

lemma of_elim_ok {β γ : Type} {o : Option γ} {e : FileError} {f : γ → Except FileError β} {b : β}
    (h : o.elim (.error e) f = .ok b) : ∃ c, o = some c ∧ f c = .ok b := by
  cases o with
  | none => cases h
  | some c => exact ⟨c, rfl, h⟩

lemma toUTF8_of_fromUTF8? {bytes : ByteArray} {text : String} (h : String.fromUTF8? bytes = some text) :
    text.toUTF8 = bytes := by
  unfold String.fromUTF8? at h
  split at h
  · cases h
    rfl
  · cases h

variable [DecidableEq κ]

def access (places : Places κ) : FileAccess (StateM (Disk κ)) where
  read path d := d.attempt (fun _ => d.files) <|
    (d.files (places.place path)).elim (.error .notFound) fun bytes =>
      (String.fromUTF8? bytes).elim (.error .invalidText) fun text => .ok (text, d.files)
  write path contents d := d.attempt (Function.update d.files (places.place path)) <|
    .ok ((), Function.update d.files (places.place path) (some contents.toUTF8))
  rename source target d := d.attempt (fun _ => d.files) <|
    (d.files (places.place source)).elim (.error .notFound) fun bytes => .ok ((), Function.update
      (Function.update d.files (places.place source) none) (places.place target) (some bytes))
  remove path d := d.attempt (fun _ => d.files) <|
    (d.files (places.place path)).elim (.error .notFound) fun _ =>
      .ok ((), Function.update d.files (places.place path) none)

variable {places : Places κ} {d d' : Disk κ}

lemma files_read {answer : Except FileError String} (h : ((access places).read path).run d = (answer, d')) :
    d'.files = d.files ∧ ∀ text, answer = .ok text → d.files (places.place path) = some text.toUTF8 := by
  change d.attempt (fun _ => d.files) _ = _ at h
  rcases attempt_cases h with ⟨e, left, rfl, hfiles⟩ | ⟨e, rfl, hfiles⟩ | ⟨text, rfl, hread⟩
  · exact ⟨hfiles, by simp⟩
  · exact ⟨hfiles, by simp⟩
  · obtain ⟨bytes, hbytes, hread⟩ := of_elim_ok hread
    obtain ⟨decoded, hdecoded, hread⟩ := of_elim_ok hread
    obtain ⟨rfl, hfiles⟩ := Prod.mk.inj (Except.ok.inj hread)
    refine ⟨hfiles.symm, fun text htext => ?_⟩
    cases htext
    rw [hbytes, toUTF8_of_fromUTF8? hdecoded]

lemma files_write (h : ((access places).write path contents).run d = (answer, d')) :
    (∀ k ≠ places.place path, d'.files k = d.files k) ∧
      (answer = .ok () → d'.files (places.place path) = some contents.toUTF8) := by
  rcases attempt_cases h with ⟨e, left, rfl, hfiles⟩ | ⟨e, rfl, hfiles⟩ | ⟨_, rfl, hwrite⟩
  · exact ⟨fun k hk => by rw [hfiles, Function.update_of_ne hk], by simp⟩
  · exact ⟨fun k hk => by rw [hfiles], by simp⟩
  · have hfiles := (Prod.mk.inj (Except.ok.inj hwrite)).2
    rw [← hfiles]
    exact ⟨fun k hk => Function.update_of_ne hk _ _, fun _ => Function.update_self _ _ _⟩

lemma files_rename {source target : String} (h : ((access places).rename source target).run d = (answer, d')) :
    (∀ e, answer = .error e → d'.files = d.files) ∧ (answer = .ok () →
      d'.files (places.place target) = d.files (places.place source) ∧
        ∀ k ≠ places.place source, k ≠ places.place target → d'.files k = d.files k) := by
  change d.attempt (fun _ => d.files) _ = _ at h
  rcases attempt_cases h with ⟨e, left, rfl, hfiles⟩ | ⟨e, rfl, hfiles⟩ | ⟨_, rfl, hrename⟩
  · exact ⟨fun _ _ => hfiles, by simp⟩
  · exact ⟨fun _ _ => hfiles, by simp⟩
  · refine ⟨by simp, fun _ => ?_⟩
    obtain ⟨bytes, hbytes, hrename⟩ := of_elim_ok hrename
    have hfiles := (Prod.mk.inj (Except.ok.inj hrename)).2
    rw [← hfiles, hbytes]
    refine ⟨Function.update_self _ _ _, fun k hsource htarget => ?_⟩
    rw [Function.update_of_ne htarget, Function.update_of_ne hsource]

lemma files_remove (h : ((access places).remove path).run d = (answer, d')) :
    ∀ k ≠ places.place path, d'.files k = d.files k := by
  change d.attempt (fun _ => d.files) _ = _ at h
  rcases attempt_cases h with ⟨e, left, rfl, hfiles⟩ | ⟨e, rfl, hfiles⟩ | ⟨_, rfl, hremove⟩
  · exact fun k _ => by rw [hfiles]
  · exact fun k _ => by rw [hfiles]
  · obtain ⟨bytes, -, hremove⟩ := of_elim_ok hremove
    have hfiles := (Prod.mk.inj (Except.ok.inj hremove)).2
    exact fun k hk => by rw [← hfiles, Function.update_of_ne hk]

lemma files_abandon {temporary : String} {e : FileError}
    (h : (abandon (access places) temporary e).run d = (answer, d')) :
    answer = .error e ∧ ∀ k ≠ places.place temporary, d'.files k = d.files k := by
  obtain ⟨_, t, hremove, hreturn⟩ := runState_bind.mp h
  cases hreturn
  exact ⟨rfl, files_remove hremove⟩

/-- Writing a file changes nothing but the file and its temporary file, and the file itself only if it succeeds. -/
lemma files_writeOutput (h : (writeOutput (access places) path contents).run d = (answer, d')) :
    (∀ k ≠ places.place (Path.temporary path), k ≠ places.place path ∨ answer ≠ .ok () → d'.files k = d.files k) ∧
      (answer = .ok () → d'.files (places.place path) = some contents.toUTF8) := by
  obtain ⟨written, t, hwrite, h⟩ := runState_bind.mp h
  obtain ⟨hkept, hcontents⟩ := files_write hwrite
  cases written with
  | error e =>
    obtain ⟨rfl, hremoved⟩ := files_abandon h
    exact ⟨fun k hk _ => (hremoved k hk).trans (hkept k hk), by simp⟩
  | ok _ =>
    obtain ⟨moved, u, hrename, h⟩ := runState_bind.mp h
    obtain ⟨hfailed, hmoved⟩ := files_rename hrename
    cases moved with
    | error e =>
      obtain ⟨rfl, hremoved⟩ := files_abandon h
      exact ⟨fun k hk _ => (hremoved k hk).trans (by rw [hfailed e rfl, hkept k hk]), by simp⟩
    | ok _ =>
      cases h
      obtain ⟨htarget, hothers⟩ := hmoved rfl
      refine ⟨fun k hk hpath => ?_, fun _ => htarget.trans (hcontents rfl)⟩
      have hpath := hpath.resolve_right fun hne => hne rfl
      exact (hothers k hk hpath).trans (hkept k hk)

end Disk

lemma Options.extension_suffix_addAll {o o' : Options} {args : List String} (h : o.addAll args = .ok o')
    (ho : extension.toList <:+ o.output.toList) : extension.toList <:+ o'.output.toList := by
  fun_induction addAll o args with
  | case1 => cases h; exact ho
  | case4 o name rest ih =>
    refine ih h ?_
    dsimp only
    unfold withExtension
    split
    next hsuffix => exact isSuffixOf_iff_suffix.mp hsuffix
    next => simp
  | _ => simp_all

lemma Path.temporary_suffix (path : String) : ".tmp".toList <:+ (temporary path).toList := by
  simp only [temporary, beside, String.toList_append]
  exact (suffix_append _ _).trans (suffix_append _ _)

/-- No temporary file is where the output goes, since their names end differently. -/
lemma Places.temporary_ne {κ : Type} (places : Places κ) {args : List String} {o : Options}
    (h : Options.ofArgs args = .ok o) (path : String) : places.place o.output ≠ places.place (Path.temporary path) := by
  intro heq
  obtain ⟨n, hn, hcode⟩ := Path.fileName?_of_suffix (Options.extension_suffix_addAll h (by decide)) (by decide)
    (by decide)
  obtain ⟨m, hm, htemporary⟩ := Path.fileName?_of_suffix (Path.temporary_suffix path) (by decide) (by decide)
  obtain rfl := places.fileName_eq heq n hn m hm
  have hsame := (suffix_of_suffix_length_le hcode htemporary (by decide)).eq_of_length (by decide)
  exact absurd hsame (by decide)

section Runs

variable {κ : Type} [DecidableEq κ] {places : Places κ} {d d' : Disk κ} {o : Options} {outcome : Outcome}

/-- The code that a source with a file name is compiled to. -/
def Generates (source file text : String) : Prop :=
  ∃ p c, Program.ofSource source file = .ok p ∧ (Compilation.ofProgram p).run = some c ∧ c.output = some text

lemma run_writeOr {reported : String} {next : StateM (Disk κ) (Option Outcome)}
    (h : (writeOr (Disk.access places) reported path contents next).run d = (some outcome, d')) :
    (∃ e, (writeOutput (Disk.access places) path contents).run d = (.error e, d') ∧ outcome.exit = 1) ∨
      ∃ t, (writeOutput (Disk.access places) path contents).run d = (.ok (), t) ∧ next.run t = (some outcome, d') := by
  obtain ⟨answer, t, hwrite, h⟩ := runState_bind.mp h
  cases answer with
  | error e =>
    cases h
    exact .inl ⟨e, hwrite, rfl⟩
  | ok _ => exact .inr ⟨t, hwrite, h⟩

lemma files_compile {p : Program} (hne : ∀ path, places.place o.output ≠ places.place (Path.temporary path))
    (h : (compile (Disk.access places) o p).run d = (some outcome, d')) :
    outcome.exit = 1 ∧ d'.files (places.place o.output) = d.files (places.place o.output) ∨
      outcome.exit = 0 ∧ (o.checkOnly = false → ∃ c text, (Compilation.ofProgram p).run = some c ∧
        c.output = some text ∧ d'.files (places.place o.output) = some text.toUTF8) := by
  unfold compile at h
  dsimp only at h
  split at h
  next => cases h
  next c hc =>
    have hrun : o.checkOnly = false → (Compilation.ofProgram p).run = some c := fun hcheck => by
      rw [← hc, hcheck, if_neg Bool.false_ne_true]
    unfold finish at h
    dsimp only at h
    split at h
    next =>
      cases h
      exact .inl ⟨rfl, rfl⟩
    next hstage =>
      split at h
      next hnone =>
        cases h
        refine .inr ⟨rfl, fun hcheck => ?_⟩
        rcases Compilation.output_of_run (hrun hcheck) with hfailed | ⟨text, htext⟩
        · exact absurd hfailed hstage
        · rw [hnone] at htext
          cases htext
      next text htext =>
        rcases run_writeOr h with ⟨e, hwrite, hexit⟩ | ⟨t, hwrite, hreturn⟩
        · exact .inl ⟨hexit, (Disk.files_writeOutput hwrite).1 _ (hne _) (.inr (by simp))⟩
        · cases hreturn
          exact .inr ⟨rfl, fun hcheck => ⟨c, text, hrun hcheck, htext, (Disk.files_writeOutput hwrite).2 rfl⟩⟩

lemma files_compileFile {input : String} (hne : ∀ path, places.place o.output ≠ places.place (Path.temporary path))
    (h : (compileFile (Disk.access places) o input).run d = (some outcome, d')) :
    outcome.exit = 1 ∧ ((∀ tree ∈ o.treeFile, places.place o.output ≠ places.place tree) →
        d'.files (places.place o.output) = d.files (places.place o.output)) ∨
      outcome.exit = 0 ∧ (o.checkOnly = false → ∃ source text, d.files (places.place input) = some source.toUTF8 ∧
        Generates source ((Path.fileName? input).getD input) text ∧
        d'.files (places.place o.output) = some text.toUTF8) := by
  obtain ⟨answer, t, hread, h⟩ := runState_bind.mp h
  obtain ⟨hkept, hsource⟩ := Disk.files_read hread
  cases answer with
  | error e =>
    cases h
    exact .inl ⟨rfl, fun _ => by rw [hkept]⟩
  | ok source =>
    dsimp only at h
    split at h
    next fault _ =>
      cases h
      exact .inl ⟨rfl, fun _ => by rw [hkept]⟩
    next p hp =>
      have hreached : outcome.exit = 1 ∧ ((∀ tree ∈ o.treeFile, places.place o.output ≠ places.place tree) →
          d'.files (places.place o.output) = d.files (places.place o.output)) ∨
          ∃ u, ((∀ tree ∈ o.treeFile, places.place o.output ≠ places.place tree) →
            u.files (places.place o.output) = d.files (places.place o.output)) ∧
            (compile (Disk.access places) o p).run u = (some outcome, d') := by
        split at h
        next => exact .inr ⟨t, fun _ => by rw [hkept], h⟩
        next tree htree =>
          rcases run_writeOr h with ⟨e, hwrite, hexit⟩ | ⟨u, hwrite, h⟩
          · refine .inl ⟨hexit, fun hapart => ?_⟩
            rw [(Disk.files_writeOutput hwrite).1 _ (hne _) (.inl (hapart tree htree)), hkept]
          · refine .inr ⟨u, fun hapart => ?_, h⟩
            rw [(Disk.files_writeOutput hwrite).1 _ (hne _) (.inl (hapart tree htree)), hkept]
      rcases hreached with hfailed | ⟨u, hu, h⟩
      · exact .inl hfailed
      rcases files_compile hne h with ⟨hexit, hfiles⟩ | ⟨hexit, hcode⟩
      · exact .inl ⟨hexit, fun hapart => hfiles.trans (hu hapart)⟩
      · refine .inr ⟨hexit, fun hcheck => ?_⟩
        obtain ⟨c, text, hrun, htext, hfiles⟩ := hcode hcheck
        exact ⟨source, text, hsource source rfl, ⟨p, c, hp, hrun, htext⟩, hfiles⟩

/-- A run that fails leaves the output file as it was, unless the tree of the program was to be written there, and a
run whose arguments are wrong changes no file. A run that succeeds, and was asked for code, leaves the code of the
program there. -/
theorem failed_run_keeps_output (places : Places κ) (args : List String)
    (h : (run (Disk.access places) args).run d = (some outcome, d')) :
    (∀ e, Options.ofArgs args = .error e → outcome.exit = 1 ∧ d'.files = d.files) ∧
      ∀ o, Options.ofArgs args = .ok o →
        (outcome.exit = 1 → (∀ tree ∈ o.treeFile, places.place tree ≠ places.place o.output) →
          d'.files (places.place o.output) = d.files (places.place o.output)) ∧
        (outcome.exit = 0 → o.help = false → o.checkOnly = false → ∃ input source text, o.input = some input ∧
          d.files (places.place input) = some source.toUTF8 ∧
          Generates source ((Path.fileName? input).getD input) text ∧
          d'.files (places.place o.output) = some text.toUTF8) := by
  unfold run at h
  split at h
  next e hargs =>
    cases h
    refine ⟨fun _ _ => ⟨rfl, rfl⟩, fun o ho => ?_⟩
    rw [hargs] at ho
    cases ho
  next o hargs =>
    refine ⟨fun e he => ?_, fun o' ho => ?_⟩
    · rw [hargs] at he
      cases he
    obtain rfl : o = o' := Except.ok.inj (hargs.symm.trans ho)
    split at h
    next hhelp =>
      cases h
      refine ⟨fun hexit => ?_, fun _ hnone => ?_⟩
      · cases hexit
      · rw [hhelp] at hnone
        cases hnone
    next =>
      split at h
      next =>
        cases h
        refine ⟨fun _ _ => rfl, fun hexit => ?_⟩
        cases hexit
      next input hinput =>
        rcases files_compileFile (places.temporary_ne hargs) h with ⟨hexit, hfiles⟩ | ⟨hexit, hcode⟩
        · refine ⟨fun _ hapart => hfiles fun tree htree => (hapart tree htree).symm, fun hzero => ?_⟩
          rw [hexit] at hzero
          cases hzero
        · refine ⟨fun hone => ?_, fun _ _ hcheck => ?_⟩
          · rw [hexit] at hone
            cases hone
          · obtain ⟨source, text, hsource, hgenerates, hfiles⟩ := hcode hcheck
            exact ⟨input, source, text, hinput, hsource, hgenerates, hfiles⟩

end Runs

lemma Path.exists_idle_end (segments : List String) :
    ∃ ending, segments = trimEnd segments ++ ending ∧ ∀ s ∈ ending, isIdle s = true := by
  cases segments with
  | nil => exact ⟨[], rfl, by simp⟩
  | cons first rest =>
    refine ⟨(rest.reverse.takeWhile isIdle).reverse, ?_, fun s hs => ?_⟩
    · rw [trimEnd, cons_append, ← reverse_append, takeWhile_append_dropWhile, reverse_reverse]
    · exact all_eq_true.mp all_takeWhile s (mem_reverse.mp hs)

namespace FileTree

variable {t : FileTree} {names : List String} {slash : Bool}

lemma of_locate (h : t.locate path = .ok (.name names slash)) :
    ∃ last directory, ((Path.segments path).filter (· ≠ "")).getLast? = some last ∧ last ≠ "." ∧
      names = directory ++ [last] := by
  unfold locate at h
  dsimp only at h
  split at h
  · cases h
  split at h
  · split at h <;> cases h
  next last hlast =>
    cases hwalk : t.walk [] ((Path.segments path).filter (· ≠ "")).dropLast with
    | error e =>
      rw [hwalk] at h
      cases h
    | ok directory =>
      rw [hwalk] at h
      change (if _ then _ else _) = _ at h
      split at h
      · cases h
      next hpoints =>
        split at h
        · cases h
        · cases h
          exact ⟨last, directory, hlast, fun h => hpoints (.inl h), rfl⟩

/-- A path leads to the file that it names. -/
lemma getLast?_of_locate (h : t.locate path = .ok (.name names slash)) :
    ∀ n ∈ Path.fileName? path, names.getLast? = some n := by
  intro n hn
  obtain ⟨last, directory, hlast, hpoint, rfl⟩ := of_locate h
  obtain ⟨ending, hsegments, hidle⟩ := Path.exists_idle_end (Path.segments path)
  unfold Path.fileName? at hn
  split at hn
  next name hname =>
    split at hn
    · cases hn
    next hplain =>
      cases hn
      obtain ⟨before, hbefore⟩ := getLast?_eq_some_iff.mp hname
      simp only [Path.isIdle, Bool.or_eq_true, beq_iff_eq, not_or] at hplain hidle
      have hkept : (before ++ [n]).filter (· ≠ "") = before.filter (· ≠ "") ++ [n] := by simp [hplain.1.1]
      rw [hsegments, hbefore, filter_append, hkept, getLast?_append] at hlast
      rw [getLast?_concat, ← hlast]
      -- what follows the name are empty names, since the path does not end in a point
      cases hend : (ending.filter (· ≠ "")).getLast? with
      | none => simp
      | some other =>
        rw [hend] at hlast
        obtain ⟨hmem, hother⟩ := mem_filter.mp (mem_of_getLast? hend)
        cases hlast
        exact absurd ((hidle _ hmem).resolve_left (of_decide_eq_true hother)) hpoint
  next => cases hn

/-- Where a path leads in a tree. A path that leads to no name is a place of its own. -/
def place (t : FileTree) (path : String) : String ⊕ List String :=
  match t.locate path with
  | .ok (.name names _) => .inr names
  | _ => .inl path

def places (t : FileTree) : Places (String ⊕ List String) where
  place := t.place
  fileName_eq {a b} h n hn m hm := by
    unfold place at h
    split at h
    next names _ ha =>
      split at h
      next names' _ hb =>
        cases h
        exact Option.some.inj ((getLast?_of_locate ha n hn).symm.trans (getLast?_of_locate hb m hm))
      next => cases h
    next =>
      split at h <;> cases h
      exact Option.some.inj (hn.symm.trans hm)

end FileTree

/-- The tree has been written when the write of the output fails and leaves a part of it. -/
theorem failed_run_keeps_output_spoilt :
    ∃ (t : FileTree) (d d' : Disk (String ⊕ List String)) (outcome : Outcome),
      d.mishaps 3 = some ⟨.busy, some "new".toUTF8⟩ ∧ d.files (t.place "out.cpp") = some "old".toUTF8 ∧
      (run (Disk.access t.places) ["-ast", "tree", "-o", "./out", "in"]).run d = (some outcome, d') ∧
      outcome.exit = 1 ∧ (d'.files (t.place "tree")).isSome = true ∧
      d'.files (t.place "out.cpp") = d.files (t.place "out.cpp") := by
  let d : Disk (String ⊕ List String) :=
    ⟨fun place => [(.inr ["in"], "rule r \x7b score 1; \x7d".toUTF8), (.inr ["out.cpp"], "old".toUTF8)].lookup place,
      fun n => if n = 3 then some ⟨.busy, some "new".toUTF8⟩ else none⟩
  have htest : ((run (Disk.access (FileTree.places [])) ["-ast", "tree", "-o", "./out", "in"]).run d).1.map
        Outcome.exit = some 1 ∧
      (((run (Disk.access (FileTree.places [])) ["-ast", "tree", "-o", "./out", "in"]).run d).2.files
        (.inr ["tree"])).isSome = true := by
    decide +kernel
  rcases hrun : (run (Disk.access (FileTree.places [])) ["-ast", "tree", "-o", "./out", "in"]).run d with ⟨answer, d'⟩
  rw [hrun] at htest
  obtain ⟨outcome, rfl, hexit⟩ := Option.map_eq_some_iff.mp htest.1
  have hargs : Options.ofArgs ["-ast", "tree", "-o", "./out", "in"] =
      .ok ⟨some "in", "./out.cpp", some "tree", false, false⟩ := ok_of_toOption (by decide +kernel)
  have hkept := ((failed_run_keeps_output (FileTree.places []) _ hrun).2 _ hargs).1 hexit (by decide +kernel)
  exact ⟨[], d, d', outcome, rfl, by decide +kernel, hrun, hexit, htest.2, hkept⟩

end Command

end ChessEval
