import ChessEval.Declarations
import Mathlib.Data.List.Forall2
import Mathlib.Data.List.Nodup
import Mathlib.Data.String.Basic

/-!
# Names that are not read, by the history of calls

Declarations keep a flag with every name, which is set when the name is read, and they forget the names of a
scope when it is closed.
-/

namespace ChessEval.ScopeCalls

open List

variable {type : Ty} {line : Nat} {level : Level} {d d' : Declarations}

/-- The calls by which scopes are opened and closed, and names declared and read. -/
inductive Call where
  | openScope
  | closeScope
  | declare (name : String) (type : Ty) (line : Nat)
  | read (name : String)
  | defineGlobal (name : String) (type : Ty) (line : Nat)
deriving DecidableEq, Repr

/-- What a call gives back and the declarations after it, or why it fails. -/
def Call.perform (d : Declarations) : Call → Except Issue (List (String × Nat) × Declarations)
  | .openScope => .ok ([], d.openScope)
  | .closeScope => d.closeScope
  | .declare name type line => (d.declare name type line).map ([], ·)
  | .read name => .ok ([], ((d.read name).map Prod.snd).getD d)
  | .defineGlobal name type line => (d.defineGlobal name type line).map ([], ·)

/-- The declarations after some calls, the latest of which comes first. -/
def run : List Call → Declarations
  | [] => {}
  | call :: earlier =>
    match call.perform (run earlier) with
    | .ok (_, d) => d
    | .error _ => run earlier

section History

-- What follows looks at the calls only, and not at the declarations after them. A scope is known by the number of
-- calls before it was opened.

def openScopes : List Call → List Nat
  | [] => []
  | .openScope :: earlier => earlier.length :: openScopes earlier
  | .closeScope :: earlier => (openScopes earlier).tail
  | _ :: earlier => openScopes earlier

/-- Where a name can be bound: with the globals or in a scope. -/
inductive Level where
  | globals
  | scope (opened : Nat)
deriving DecidableEq, Repr

/-- The scope is further inside than the level. -/
def Level.Around (inner : Nat) : Level → Prop
  | .globals => True
  | .scope opened => opened < inner

/-- The call is one to bind a name at the level. A declaration is for the innermost scope. -/
def Call.Binds (earlier : List Call) (level : Level) (name : String) (type : Ty) (line : Nat) (call : Call) : Prop :=
  match level with
  | .globals => call = .defineGlobal name type line
  | .scope opened => call = .declare name type line ∧ (openScopes earlier).head? = some opened

/-- There has been a call to bind the name at the level. -/
def Bound (calls : List Call) (level : Level) (name : String) : Prop :=
  ∃ call earlier type line, call :: earlier <:+ calls ∧ call.Binds earlier level name type line

/-- The call after the earlier ones has bound the name at the level, which had no such name. -/
def DeclaredAfter (earlier calls : List Call) (level : Level) (name : String) (type : Ty) (line : Nat) : Prop :=
  ∃ call, call :: earlier <:+ calls ∧ call.Binds earlier level name type line ∧ ¬Bound earlier level name

/-- An open scope further inside than the level has the name. -/
def Hidden (calls : List Call) (level : Level) (name : String) : Prop :=
  ∃ inner ∈ openScopes calls, level.Around inner ∧ Bound calls (.scope inner) name

/-- Since the call after the earlier ones the name has been looked up where no scope further inside had it. -/
def ReadAfter (earlier calls : List Call) (level : Level) (name : String) : Prop :=
  ∃ before, .read name :: before <:+ calls ∧ earlier.length < before.length ∧ ¬Hidden before level name

/-- The name was declared at the level, on the line, and has not been read there since. -/
def Unread (calls : List Call) (level : Level) (name : String) (line : Nat) : Prop :=
  ∃ earlier type, DeclaredAfter earlier calls level name type line ∧ ¬ReadAfter earlier calls level name

/-- The call cannot be made: there is no scope to close or to declare a name in, or the name is bound there. -/
def Call.Fails (earlier : List Call) : Call → Prop
  | .openScope | .read _ => False
  | .closeScope => openScopes earlier = []
  | .declare name _ _ => ∀ opened, (openScopes earlier).head? = some opened → Bound earlier (.scope opened) name
  | .defineGlobal name _ _ => Bound earlier .globals name

variable {call : Call} {calls earlier : List Call} {level : Level} {name : String} {type : Ty} {line : Nat}

lemma bound_cons : Bound (call :: calls) level name ↔
    Bound calls level name ∨ ∃ type line, call.Binds calls level name type line := by
  constructor
  · rintro ⟨c, earlier, type, line, hsuffix, hbinds⟩
    rcases suffix_cons_iff.mp hsuffix with heq | hsuffix
    · cases heq
      exact .inr ⟨type, line, hbinds⟩
    · exact .inl ⟨c, earlier, type, line, hsuffix, hbinds⟩
  · rintro (⟨c, earlier, type, line, hsuffix, hbinds⟩ | ⟨type, line, hbinds⟩)
    · exact ⟨c, earlier, type, line, hsuffix.trans (suffix_cons _ _), hbinds⟩
    · exact ⟨call, calls, type, line, suffix_rfl, hbinds⟩

lemma DeclaredAfter.cons (h : DeclaredAfter earlier calls level name type line) :
    DeclaredAfter earlier (call :: calls) level name type line := by
  obtain ⟨c, hsuffix, hbinds, hnew⟩ := h
  exact ⟨c, hsuffix.trans (suffix_cons _ _), hbinds, hnew⟩

lemma DeclaredAfter.bound (h : DeclaredAfter earlier calls level name type line) : Bound calls level name := by
  obtain ⟨c, hsuffix, hbinds, -⟩ := h
  exact ⟨c, earlier, type, line, hsuffix, hbinds⟩

lemma DeclaredAfter.length_lt (h : DeclaredAfter earlier calls level name type line) :
    earlier.length < calls.length := by
  obtain ⟨c, hsuffix, -⟩ := h
  exact hsuffix.length_le

lemma Call.Binds.unique {name' : String} {type' : Ty} {line' : Nat} (h : call.Binds calls level name type line)
    (h' : call.Binds calls level name' type' line') : name' = name ∧ type' = type ∧ line' = line := by
  cases level with
  | globals =>
    cases h.symm.trans h'
    exact ⟨rfl, rfl, rfl⟩
  | scope opened =>
    cases h.1.symm.trans h'.1
    exact ⟨rfl, rfl, rfl⟩

lemma not_binds_read {read : String} : ¬Call.Binds calls level name type line (.read read) := by
  intro h
  cases level with
  | globals => cases h
  | scope opened => cases h.1

lemma DeclaredAfter.bound_of_lt {later : List Call} (h : DeclaredAfter earlier calls level name type line)
    (hsuffix : later <:+ calls) (hlt : earlier.length < later.length) : Bound later level name := by
  obtain ⟨c, hdeclared, hbinds, -⟩ := h
  exact ⟨c, earlier, type, line, suffix_of_suffix_length_le hdeclared hsuffix hlt, hbinds⟩

lemma DeclaredAfter.unique {earlier' : List Call} {type' : Ty} {line' : Nat}
    (h : DeclaredAfter earlier calls level name type line) (h' : DeclaredAfter earlier' calls level name type' line') :
    earlier' = earlier ∧ type' = type ∧ line' = line := by
  obtain ⟨c, hsuffix, hbinds, hnew⟩ := id h
  obtain ⟨c', hsuffix', hbinds', hnew'⟩ := id h'
  -- of two calls the later one would find the name bound
  have hlength : earlier'.length = earlier.length := by
    rcases Nat.lt_trichotomy earlier'.length earlier.length with hlt | heq | hlt
    · exact absurd (h'.bound_of_lt ((suffix_cons c _).trans hsuffix) hlt) hnew
    · exact heq
    · exact absurd (h.bound_of_lt ((suffix_cons c' _).trans hsuffix') hlt) hnew'
  have hsame : c' :: earlier' = c :: earlier := by
    rw [suffix_iff_eq_drop.mp hsuffix, suffix_iff_eq_drop.mp hsuffix', length_cons, length_cons,
      hlength]
  cases hsame
  exact ⟨rfl, (hbinds.unique hbinds').2⟩

lemma readAfter_cons : ReadAfter earlier (call :: calls) level name ↔ ReadAfter earlier calls level name ∨
    (call = .read name ∧ earlier.length < calls.length ∧ ¬Hidden calls level name) := by
  constructor
  · rintro ⟨before, hsuffix, hlength, hvisible⟩
    rcases suffix_cons_iff.mp hsuffix with heq | hsuffix
    · cases heq
      exact .inr ⟨rfl, hlength, hvisible⟩
    · exact .inl ⟨before, hsuffix, hlength, hvisible⟩
  · rintro (⟨before, hsuffix, hlength, hvisible⟩ | ⟨rfl, hlength, hvisible⟩)
    · exact ⟨before, hsuffix.trans (suffix_cons _ _), hlength, hvisible⟩
    · exact ⟨calls, suffix_rfl, hlength, hvisible⟩

lemma lt_of_mem_openScopes {opened : Nat} (h : opened ∈ openScopes calls) : opened < calls.length := by
  induction calls with
  | nil => cases h
  | cons call calls ih =>
    rw [length_cons]
    cases call with
    | openScope =>
      rcases mem_cons.mp h with rfl | h
      · omega
      · exact Nat.lt_succ_of_lt (ih h)
    | closeScope => exact Nat.lt_succ_of_lt (ih (mem_of_mem_tail h))
    | _ => exact Nat.lt_succ_of_lt (ih h)

lemma pairwise_openScopes (calls : List Call) : (openScopes calls).Pairwise (· > ·) := by
  induction calls with
  | nil => exact .nil
  | cons call calls ih =>
    cases call with
    | openScope => exact .cons (fun opened h => lt_of_mem_openScopes h) ih
    | closeScope => exact ih.tail
    | _ => exact ih

lemma Bound.lt {opened : Nat} (h : Bound calls (.scope opened) name) : opened < calls.length := by
  obtain ⟨c, earlier, type, line, hsuffix, -, hhead⟩ := h
  have hopened := lt_of_mem_openScopes (mem_of_mem_head? hhead)
  have hlength := hsuffix.length_le
  rw [length_cons] at hlength
  omega

end History

section Tracking

variable {call : Call} {calls : List Call} {level : Level} {s : Scope} {name : String}

/-- A block of names holds what the calls have bound at a level, and its flags say what has been read since. -/
structure Tracks (calls : List Call) (level : Level) (s : Scope) : Prop where
  nodup : (s.map Prod.fst).Nodup
  bound : ∀ name, (s.find? name).isSome = true ↔ Bound calls level name
  entry : ∀ name b, (name, b) ∈ s → ∃ earlier, DeclaredAfter earlier calls level name b.type b.line ∧
    (b.used = true ↔ ReadAfter earlier calls level name)

lemma isSome_find? {name : String} : (s.find? name).isSome = true ↔ ∃ b, (name, b) ∈ s := by
  rw [Scope.find?, lookup_isSome_iff]
  constructor
  · rintro ⟨⟨n, b⟩, hmem, heq⟩
    rw [eq_of_beq heq]
    exact ⟨b, hmem⟩
  · rintro ⟨b, hmem⟩
    exact ⟨(name, b), hmem, beq_self_eq_true name⟩

lemma Tracks.skip (h : Tracks calls level s)
    (hbinds : ∀ name type line, call.Binds calls level name type line → Bound calls level name)
    (hreads : ∀ name, call = .read name → Bound calls level name → Hidden calls level name) :
    Tracks (call :: calls) level s := by
  refine ⟨h.nodup, fun name => ?_, fun name b hmem => ?_⟩
  · rw [h.bound, bound_cons]
    constructor
    · exact .inl
    · rintro (hbound | ⟨type, line, hnew⟩)
      · exact hbound
      · exact hbinds name type line hnew
  · obtain ⟨earlier, hdeclared, hused⟩ := h.entry name b hmem
    refine ⟨earlier, hdeclared.cons, ?_⟩
    rw [hused, readAfter_cons]
    constructor
    · exact .inl
    · rintro (hread | ⟨hcall, -, hvisible⟩)
      · exact hread
      · exact absurd (hreads name hcall hdeclared.bound) hvisible

lemma Tracks.bind (h : Tracks calls level s) (hbinds : call.Binds calls level name type line)
    (hnew : (s.find? name).isSome = false) : Tracks (call :: calls) level (s.bind name type line) := by
  have hfree : ∀ b, (name, b) ∉ s := fun b hmem => by simp [isSome_find?.mpr ⟨b, hmem⟩] at hnew
  refine ⟨?_, fun n => ?_, fun n b hmem => ?_⟩
  · refine nodup_cons.mpr ⟨fun hmem => ?_, h.nodup⟩
    obtain ⟨⟨n, b⟩, hentry, rfl⟩ := mem_map.mp hmem
    exact hfree b hentry
  · have hcons : ((s.bind name type line).find? n).isSome = true ↔ n = name ∨ (s.find? n).isSome = true := by
      simp [isSome_find?, Scope.bind, exists_or]
    rw [hcons, h.bound, bound_cons, or_comm]
    refine or_congr_right ⟨?_, ?_⟩
    · rintro rfl
      exact ⟨type, line, hbinds⟩
    · rintro ⟨type', line', hbinds'⟩
      exact (hbinds.unique hbinds').1
  · have hkept : ∀ earlier, ReadAfter earlier (call :: calls) level n ↔ ReadAfter earlier calls level n := by
      intro earlier
      rw [readAfter_cons]
      refine or_iff_left fun hread => ?_
      cases hread.1
      exact not_binds_read hbinds
    rcases mem_cons.mp hmem with heq | hmem
    · cases heq
      have hunbound : ¬Bound calls level name := fun hbound => by simp [(h.bound name).mpr hbound] at hnew
      refine ⟨calls, ⟨call, suffix_rfl, hbinds, hunbound⟩, ?_⟩
      rw [hkept]
      -- no call is later than the declaration itself
      have hnone : ¬ReadAfter calls calls level name := by
        rintro ⟨before, hsuffix, hlength, -⟩
        have hle := hsuffix.length_le
        rw [length_cons] at hle
        omega
      exact iff_of_false Bool.false_ne_true hnone
    · obtain ⟨earlier, hdeclared, hused⟩ := h.entry n b hmem
      exact ⟨earlier, hdeclared.cons, hused.trans (hkept earlier).symm⟩

lemma mem_markUsed {n : String} {b : Binding} : (n, b) ∈ s.markUsed name ↔
    ∃ old, (n, old) ∈ s ∧ (if n = name then { old with used := true } else old) = b := by
  rw [Scope.markUsed, mem_map]
  constructor
  · rintro ⟨⟨m, old⟩, hmem, heq⟩
    dsimp only at heq
    split at heq <;> cases heq
    · exact ⟨old, hmem, if_pos ‹_›⟩
    · exact ⟨_, hmem, if_neg ‹_›⟩
  · rintro ⟨old, hmem, rfl⟩
    refine ⟨(n, old), hmem, ?_⟩
    dsimp only
    split <;> rfl

lemma map_fst_markUsed : (s.markUsed name).map Prod.fst = s.map Prod.fst := by
  rw [Scope.markUsed, map_map]
  refine map_congr_left fun entry _ => ?_
  dsimp only [Function.comp_apply]
  split <;> rfl

lemma Tracks.read (h : Tracks calls level s) (hvisible : ¬Hidden calls level name) :
    Tracks (.read name :: calls) level (s.markUsed name) := by
  refine ⟨map_fst_markUsed.symm ▸ h.nodup, fun n => ?_, fun n b hmem => ?_⟩
  · have hsame : ((s.markUsed name).find? n).isSome = true ↔ (s.find? n).isSome = true := by
      simp only [isSome_find?, mem_markUsed]
      exact ⟨fun ⟨_, old, hmem, _⟩ => ⟨old, hmem⟩, fun ⟨old, hmem⟩ => ⟨_, old, hmem, rfl⟩⟩
    rw [hsame, h.bound, bound_cons]
    exact (or_iff_left fun ⟨type, line, hbinds⟩ => not_binds_read hbinds).symm
  · obtain ⟨old, hold, rfl⟩ := mem_markUsed.mp hmem
    obtain ⟨earlier, hdeclared, hused⟩ := h.entry n old hold
    refine ⟨earlier, ?_, ?_⟩
    · split <;> exact hdeclared.cons
    · rw [readAfter_cons]
      split
      · rename_i heq
        subst heq
        exact iff_of_true rfl (.inr ⟨rfl, hdeclared.length_lt, hvisible⟩)
      · rename_i hne
        rw [hused]
        refine (or_iff_left fun hread => hne ?_).symm
        cases hread.1
        rfl

end Tracking

section Runs

variable {call : Call} {calls : List Call} {name : String}

/-- Declarations hold what the calls have bound in the open scopes and with the globals. -/
structure Follows (calls : List Call) (d : Declarations) : Prop where
  scopes : List.Forall₂ (fun opened s => Tracks calls (.scope opened) s) (openScopes calls) d.scopes
  globals : Tracks calls .globals d.globals

lemma Tracks.skip_read {s : Scope} (h : Tracks calls level s)
    (hreads : Bound calls level name → Hidden calls level name) : Tracks (.read name :: calls) level s := by
  refine h.skip (fun n type line hbinds => absurd hbinds not_binds_read) fun n hcall => ?_
  cases hcall
  exact hreads

/-- A name is read in the innermost scope that has it. -/
lemma forall₂_readVariable {inner opened : List Nat} {scopes : List Scope} (hopen : openScopes calls = inner ++ opened)
    (hinner : ∀ k ∈ inner, ¬Bound calls (.scope k) name)
    (h : List.Forall₂ (fun k s => Tracks calls (.scope k) s) opened scopes) :
    (∀ type scopes', Declarations.readVariable name scopes = some (type, scopes') →
      List.Forall₂ (fun k s => Tracks (.read name :: calls) (.scope k) s) opened scopes' ∧
        ∃ k ∈ opened, Bound calls (.scope k) name) ∧
    (Declarations.readVariable name scopes = none →
      List.Forall₂ (fun k s => Tracks (.read name :: calls) (.scope k) s) opened scopes ∧
        ∀ k ∈ opened, ¬Bound calls (.scope k) name) := by
  induction h generalizing inner with
  | nil => exact ⟨fun type scopes' h => (by cases h), fun _ => ⟨.nil, fun k hk => absurd hk not_mem_nil⟩⟩
  | @cons k s opened outer hs houter ih =>
    have horder := pairwise_openScopes calls
    rw [hopen, pairwise_append, pairwise_cons] at horder
    obtain ⟨-, ⟨hsmaller, -⟩, -⟩ := horder
    have hbound := hs.bound name
    cases hfind : s.find? name with
    | some b =>
      replace hbound := hbound.mp (by rw [hfind]; rfl)
      have hvisible : ¬Hidden calls (.scope k) name := by
        rintro ⟨j, hj, hlt, hboundj⟩
        rw [hopen, mem_append, mem_cons] at hj
        rcases hj with hj | rfl | hj
        · exact hinner j hj hboundj
        · exact Nat.lt_irrefl j hlt
        · exact Nat.lt_asymm (hsmaller j hj) hlt
      have hread : Declarations.readVariable name (s :: outer) = some (b.type, s.markUsed name :: outer) := by
        rw [Declarations.readVariable, hfind]
      rw [hread]
      refine ⟨fun type scopes' heq => ?_, fun heq => by cases heq⟩
      cases heq
      refine ⟨.cons (hs.read hvisible) ?_, k, mem_cons_self, hbound⟩
      have hall := (forall₂_and_left _ _).mpr ⟨hsmaller, houter⟩
      exact hall.imp fun j s' hj => hj.2.skip_read fun _ =>
        ⟨k, hopen ▸ mem_append_right inner mem_cons_self, hj.1, hbound⟩
    | none =>
      have hfree : ¬Bound calls (.scope k) name := by
        rw [← hbound, hfind]
        exact Bool.false_ne_true
      have hread : Declarations.readVariable name (s :: outer) =
          (Declarations.readVariable name outer).map fun found => (found.1, s :: found.2) := by
        rw [Declarations.readVariable, hfind]
      have hs' : Tracks (.read name :: calls) (.scope k) s := hs.skip_read fun h => absurd h hfree
      have hinner' : ∀ j ∈ inner ++ [k], ¬Bound calls (.scope j) name := by
        intro j hj
        rcases mem_append.mp hj with hj | hj
        · exact hinner j hj
        · cases mem_singleton.mp hj
          exact hfree
      obtain ⟨hsome, hnone⟩ := ih (by rw [hopen, append_assoc]; rfl) hinner'
      rw [hread]
      refine ⟨fun type scopes' heq => ?_, fun heq => ?_⟩
      · obtain ⟨⟨type', scopes''⟩, hfound, heq⟩ := Option.map_eq_some_iff.mp heq
        cases heq
        obtain ⟨htracks, j, hj, hboundj⟩ := hsome _ _ hfound
        exact ⟨.cons hs' htracks, j, mem_cons_of_mem k hj, hboundj⟩
      · obtain ⟨htracks, hfree'⟩ := hnone (Option.map_eq_none_iff.mp heq)
        exact ⟨.cons hs' htracks, forall_mem_cons.mpr ⟨hfree, hfree'⟩⟩

lemma Follows.read (h : Follows calls d) : Follows (.read name :: calls) (((d.read name).map Prod.snd).getD d) := by
  obtain ⟨hsome, hnone⟩ :=
    forall₂_readVariable (nil_append _).symm (fun k hk => absurd hk not_mem_nil) h.scopes
  rw [Declarations.read]
  split
  · rename_i type scopes hfound
    obtain ⟨hscopes, k, hk, hbound⟩ := hsome type scopes hfound
    exact ⟨hscopes, h.globals.skip_read fun _ => ⟨k, hk, trivial, hbound⟩⟩
  · rename_i hfound
    obtain ⟨hscopes, hfree⟩ := hnone hfound
    have hvisible : ¬Hidden calls .globals name := fun ⟨k, hk, _, hbound⟩ => hfree k hk hbound
    have hbound := h.globals.bound name
    cases hfind : d.globals.find? name with
    | some b => exact ⟨hscopes, h.globals.read hvisible⟩
    | none =>
      rw [hfind] at hbound
      exact ⟨hscopes, h.globals.skip_read fun hb => absurd (hbound.mpr hb) Bool.false_ne_true⟩

lemma tracks_nil (hfree : ∀ name, ¬Bound calls level name) : Tracks calls level [] :=
  ⟨nodup_nil, fun name => iff_of_false Bool.false_ne_true (hfree name),
    fun _ _ hmem => absurd hmem not_mem_nil⟩

lemma not_binds_scope (hcall : call = .openScope ∨ call = .closeScope) : ¬call.Binds calls level name type line := by
  intro h
  cases level with
  | globals => rcases hcall with rfl | rfl <;> cases h
  | scope opened => rcases hcall with rfl | rfl <;> cases h.1

lemma Tracks.skip_scope {s : Scope} (h : Tracks calls level s) (hcall : call = .openScope ∨ call = .closeScope) :
    Tracks (call :: calls) level s := by
  refine h.skip (fun name type line hbinds => absurd hbinds (not_binds_scope hcall)) ?_
  rintro name rfl
  rcases hcall with hcall | hcall <;> cases hcall

lemma Follows.openScope (h : Follows calls d) : Follows (.openScope :: calls) d.openScope := by
  refine ⟨.cons (tracks_nil fun name hbound => ?_) (h.scopes.imp fun k s hs => hs.skip_scope (.inl rfl)),
    h.globals.skip_scope (.inl rfl)⟩
  -- the number of a new scope is too large for a name to be bound in it
  rcases bound_cons.mp hbound with hbound | ⟨type, line, hbinds⟩
  · exact Nat.lt_irrefl _ hbound.lt
  · exact not_binds_scope (.inl rfl) hbinds

lemma Follows.closeScope {unread : List (String × Nat)} (h : Follows calls d)
    (hclose : d.closeScope = .ok (unread, d')) : Follows (.closeScope :: calls) d' := by
  have hscopes := h.scopes
  rw [Declarations.closeScope] at hclose
  split at hclose
  · cases hclose
  · rename_i s outer hd
    cases hclose
    rw [hd] at hscopes
    obtain ⟨k, ks, -, houter, hopen⟩ := forall₂_cons_right_iff.mp hscopes
    refine ⟨?_, h.globals.skip_scope (.inr rfl)⟩
    rw [openScopes, hopen]
    exact houter.imp fun k s hs => hs.skip_scope (.inr rfl)

lemma Follows.declare (h : Follows calls d) (hdeclare : d.declare name type line = .ok d') :
    Follows (.declare name type line :: calls) d' := by
  have hscopes := h.scopes
  rw [Declarations.declare] at hdeclare
  split at hdeclare
  · cases hdeclare
  · rename_i s outer hd
    split at hdeclare
    · cases hdeclare
    · rename_i hnew
      cases hdeclare
      rw [hd] at hscopes
      obtain ⟨k, ks, hs, houter, hopen⟩ := forall₂_cons_right_iff.mp hscopes
      have horder := pairwise_openScopes calls
      rw [hopen, pairwise_cons] at horder
      refine ⟨?_, h.globals.skip (fun n t l hbinds => (by cases hbinds)) fun n heq => (by cases heq)⟩
      change List.Forall₂ _ (openScopes calls) _
      rw [hopen]
      refine .cons (hs.bind ⟨rfl, by rw [hopen]; rfl⟩ (Bool.eq_false_of_not_eq_true hnew)) ?_
      have hall := (forall₂_and_left _ _).mpr ⟨horder.1, houter⟩
      refine hall.imp fun j s' hj => hj.2.skip (fun n t l hbinds => ?_) fun n heq => (by cases heq)
      obtain ⟨-, hhead⟩ := hbinds
      rw [hopen] at hhead
      cases hhead
      exact absurd hj.1 (Nat.lt_irrefl _)

lemma Follows.defineGlobal (h : Follows calls d) (hdefine : d.defineGlobal name type line = .ok d') :
    Follows (.defineGlobal name type line :: calls) d' := by
  rw [Declarations.defineGlobal] at hdefine
  split at hdefine
  · cases hdefine
  · rename_i hnew
    cases hdefine
    exact ⟨h.scopes.imp fun k s hs => hs.skip (fun n t l hbinds => (by cases hbinds.1)) fun n heq => (by cases heq),
      h.globals.bind rfl (Bool.eq_false_of_not_eq_true hnew)⟩

lemma Follows.perform {unread : List (String × Nat)} (h : Follows calls d)
    (hperform : call.perform d = .ok (unread, d')) : Follows (call :: calls) d' := by
  cases call with
  | openScope =>
    cases hperform
    exact h.openScope
  | closeScope => exact h.closeScope hperform
  | declare name type line =>
    rw [Call.perform] at hperform
    cases hdeclare : d.declare name type line with
    | error issue => rw [hdeclare] at hperform; cases hperform
    | ok d' =>
      rw [hdeclare] at hperform
      cases hperform
      exact h.declare hdeclare
  | read name =>
    cases hperform
    exact h.read
  | defineGlobal name type line =>
    rw [Call.perform] at hperform
    cases hdefine : d.defineGlobal name type line with
    | error issue => rw [hdefine] at hperform; cases hperform
    | ok d' =>
      rw [hdefine] at hperform
      cases hperform
      exact h.defineGlobal hdefine

lemma Call.Fails.bound (h : call.Fails calls) (hbinds : call.Binds calls level name type line) :
    Bound calls level name := by
  cases level with
  | globals =>
    cases hbinds
    exact h
  | scope opened =>
    obtain ⟨rfl, hhead⟩ := hbinds
    exact h opened hhead

lemma Follows.fails_iff (h : Follows calls d) : (∃ issue, call.perform d = .error issue) ↔ call.Fails calls := by
  have hscopes := h.scopes
  cases call with
  | openScope => exact iff_of_false (fun ⟨_, h⟩ => by cases h) id
  | closeScope =>
    rw [Call.perform, Declarations.closeScope, Call.Fails]
    split
    · rename_i hd
      rw [hd, forall₂_nil_right_iff] at hscopes
      exact iff_of_true ⟨_, rfl⟩ hscopes
    · rename_i s outer hd
      rw [hd] at hscopes
      obtain ⟨k, ks, -, -, hopen⟩ := forall₂_cons_right_iff.mp hscopes
      exact iff_of_false (fun ⟨_, h⟩ => by cases h) (by rw [hopen]; exact cons_ne_nil k ks)
  | declare name type line =>
    rw [Call.perform, Declarations.declare, Call.Fails]
    split
    · rename_i hd
      rw [hd, forall₂_nil_right_iff] at hscopes
      exact iff_of_true ⟨_, rfl⟩ fun opened hhead => by rw [hscopes] at hhead; cases hhead
    · rename_i s outer hd
      rw [hd] at hscopes
      obtain ⟨k, ks, hs, -, hopen⟩ := forall₂_cons_right_iff.mp hscopes
      have hinner : (∀ opened, (openScopes calls).head? = some opened → Bound calls (.scope opened) name) ↔
          (s.find? name).isSome = true := by
        rw [hs.bound, hopen]
        simp
      rw [hinner]
      split
      · exact iff_of_true ⟨_, rfl⟩ ‹_›
      · exact iff_of_false (fun ⟨_, h⟩ => by cases h) ‹_›
  | read name => exact iff_of_false (fun ⟨_, h⟩ => by cases h) id
  | defineGlobal name type line =>
    rw [Call.perform, Declarations.defineGlobal, Call.Fails, ← h.globals.bound]
    split
    · exact iff_of_true ⟨_, rfl⟩ ‹_›
    · exact iff_of_false (fun ⟨_, h⟩ => by cases h) ‹_›

lemma Follows.fail (h : Follows calls d) (hfails : call.Fails calls) : Follows (call :: calls) d := by
  have hopen : openScopes (call :: calls) = openScopes calls := by
    cases call with
    | openScope => exact hfails.elim
    | closeScope =>
      change openScopes calls = [] at hfails
      rw [openScopes, hfails]
      rfl
    | _ => rfl
  have hskip : ∀ {level : Level} {s : Scope}, Tracks calls level s → Tracks (call :: calls) level s := by
    intro level s hs
    refine hs.skip (fun name type line => hfails.bound) ?_
    rintro name rfl
    exact hfails.elim
  exact ⟨hopen.symm ▸ h.scopes.imp fun k s hs => hskip hs, hskip h.globals⟩

lemma follows_run (calls : List Call) : Follows calls (run calls) := by
  induction calls with
  | nil =>
    refine ⟨.nil, tracks_nil ?_⟩
    rintro name ⟨call, earlier, type, line, hsuffix, -⟩
    exact absurd (suffix_nil.mp hsuffix) (cons_ne_nil call earlier)
  | cons call calls ih =>
    rw [run]
    split
    · rename_i unread d hperform
      exact ih.perform hperform
    · rename_i issue hperform
      exact ih.fail (ih.fails_iff.mp ⟨issue, hperform⟩)

lemma run_append_of_fails (later : List Call) (hfails : call.Fails calls) :
    run (later ++ call :: calls) = run (later ++ calls) := by
  induction later with
  | nil =>
    obtain ⟨issue, hperform⟩ := (follows_run calls).fails_iff.mpr hfails
    rw [nil_append, nil_append, run, hperform]
  | cons next later ih => rw [cons_append, cons_append, run, run, ih]

end Runs

section Listing

variable {calls : List Call} {level : Level} {s : Scope}

/-- The order in which unread names are listed: by line, and by name on one line. -/
def Before (a b : String × Nat) : Prop :=
  a.2 < b.2 ∨ (a.2 = b.2 ∧ a.1 < b.1)

lemma earlier_iff {a b : String × Nat} : Scope.earlier a b = true ↔ a.2 < b.2 ∨ (a.2 = b.2 ∧ a.1 ≤ b.1) := by
  simp [Scope.earlier]

lemma pairwise_earlier (s : Scope) : s.unused.Pairwise fun a b => Scope.earlier a b = true := by
  refine pairwise_mergeSort (fun a b c hab hbc => ?_) (fun a b => ?_) _
  · rw [earlier_iff] at hab hbc ⊢
    rcases hab with hab | ⟨hab, hab'⟩ <;> rcases hbc with hbc | ⟨hbc, hbc'⟩
    · exact .inl (Nat.lt_trans hab hbc)
    · exact .inl (hbc ▸ hab)
    · exact .inl (hab ▸ hbc)
    · exact .inr ⟨hab.trans hbc, String.le_trans hab' hbc'⟩
  · rw [Bool.or_eq_true, earlier_iff, earlier_iff]
    rcases Nat.lt_trichotomy a.2 b.2 with h | h | h
    · exact .inl (.inl h)
    · rcases String.le_total a.1 b.1 with h' | h'
      · exact .inl (.inr ⟨h, h'⟩)
      · exact .inr (.inr ⟨h.symm, h'⟩)
    · exact .inr (.inl h)

lemma mem_unused {name : String} : (name, line) ∈ s.unused ↔ ∃ b, (name, b) ∈ s ∧ b.used = false ∧ b.line = line := by
  rw [Scope.unused, mem_mergeSort, mem_map]
  constructor
  · rintro ⟨⟨n, b⟩, hmem, heq⟩
    cases heq
    obtain ⟨hmem, hused⟩ := mem_filter.mp hmem
    exact ⟨b, hmem, by simpa using hused, rfl⟩
  · rintro ⟨b, hmem, hused, rfl⟩
    exact ⟨(name, b), mem_filter.mpr ⟨hmem, by simp [hused]⟩, rfl⟩

lemma Tracks.pairwise_unused (h : Tracks calls level s) : s.unused.Pairwise Before := by
  have hnodup : s.unused.Nodup := by
    rw [Scope.unused, (mergeSort_perm _ _).nodup_iff]
    have hnames : ((s.filter fun entry => !entry.2.used).map Prod.fst).Nodup :=
      h.nodup.sublist (filter_sublist.map _)
    refine pairwise_map.mpr ((pairwise_map.mp hnames).imp fun {a b} hne heq => hne ?_)
    have hpairs : (a.1, a.2.line) = (b.1, b.2.line) := heq
    exact (Prod.mk.inj hpairs).1
  refine ((pairwise_earlier s).and hnodup).imp fun {a b} hab => ?_
  obtain ⟨hle, hne⟩ := hab
  rcases earlier_iff.mp hle with hlt | ⟨heq, hle⟩
  · exact .inl hlt
  · exact .inr ⟨heq, lt_of_le_of_ne hle fun hname => hne (Prod.ext hname heq)⟩

lemma Tracks.mem_unused_iff (h : Tracks calls level s) (name : String) (line : Nat) :
    (name, line) ∈ s.unused ↔ Unread calls level name line := by
  rw [mem_unused]
  constructor
  · rintro ⟨b, hmem, hused, rfl⟩
    obtain ⟨earlier, hdeclared, hread⟩ := h.entry name b hmem
    exact ⟨earlier, b.type, hdeclared, fun hr => by simp [hread.mpr hr] at hused⟩
  · rintro ⟨earlier, type, hdeclared, hunread⟩
    obtain ⟨b, hmem⟩ := isSome_find?.mp ((h.bound name).mpr hdeclared.bound)
    obtain ⟨earlier', hdeclared', hread⟩ := h.entry name b hmem
    obtain ⟨rfl, -, hline⟩ := hdeclared.unique hdeclared'
    exact ⟨b, hmem, Bool.eq_false_of_not_eq_true (mt hread.mp hunread), hline⟩

/-- What is left unread is told by the history. A scope that is closed gives the names declared in it that have not been
looked up since where no scope further inside had them, in the order of their lines and names, and so do the globals.
The calls that cannot be made are those without a scope to work on and those for a name that is there, and such a call
changes nothing. -/
theorem unused_by_history (calls : List Call) :
    (∀ unread d, (run calls).closeScope = .ok (unread, d) →
      ∃ opened, (openScopes calls).head? = some opened ∧ unread.Pairwise Before ∧
        ∀ name line, (name, line) ∈ unread ↔ Unread calls (.scope opened) name line) ∧
    ((run calls).unusedGlobals.Pairwise Before ∧
      ∀ name line, (name, line) ∈ (run calls).unusedGlobals ↔ Unread calls .globals name line) ∧
    ∀ call : Call, ((∃ issue, call.perform (run calls) = .error issue) ↔ call.Fails calls) ∧
      (call.Fails calls → ∀ later, run (later ++ call :: calls) = run (later ++ calls)) := by
  have h := follows_run calls
  refine ⟨fun unread d hclose => ?_, ⟨h.globals.pairwise_unused, h.globals.mem_unused_iff⟩,
    fun call => ⟨h.fails_iff, fun hfails later => run_append_of_fails later hfails⟩⟩
  have hscopes := h.scopes
  rw [Declarations.closeScope] at hclose
  split at hclose
  · cases hclose
  · rename_i s outer hd
    cases hclose
    rw [hd] at hscopes
    obtain ⟨opened, _, hs, -, hopen⟩ := forall₂_cons_right_iff.mp hscopes
    exact ⟨opened, by rw [hopen]; rfl, hs.pairwise_unused, hs.mem_unused_iff⟩

/-- A lookup in a scope that has the name itself does not count for the variable around it. -/
theorem unused_by_history_shadowed :
    let calls := [.closeScope, .read "x", .declare "x" .num 2, .openScope, .declare "x" .num 1, .openScope]
    (∃ d, (run calls).closeScope = .ok ([("x", 1)], d)) ∧ Unread calls (.scope 0) "x" 1 ∧
      ∀ line, ¬Unread calls .globals "x" line := by
  intro calls
  have hclose : (run calls).closeScope = .ok ([("x", 1)], {}) := by decide +kernel
  obtain ⟨hscope, ⟨-, hglobals⟩, -⟩ := unused_by_history calls
  obtain ⟨opened, hhead, -, hunread⟩ := hscope _ _ hclose
  cases hhead
  refine ⟨⟨_, hclose⟩, (hunread "x" 1).mp mem_cons_self, fun line hline => ?_⟩
  have hempty : (run calls).unusedGlobals = [] := by decide +kernel
  exact absurd ((hglobals "x" line).mpr hline) (hempty ▸ not_mem_nil)

end Listing

end ChessEval.ScopeCalls
