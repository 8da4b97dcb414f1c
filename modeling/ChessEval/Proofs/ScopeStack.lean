import ChessEval.Proofs.Occurrences
import ChessEval.Proofs.Recording

/-!
# Scopes of an analysis

The analysis goes through the occurrences of names in a program in their order.
-/

namespace ChessEval

open List

namespace Diagnostic

def isUndeclared (d : Diagnostic) : Bool :=
  match d.fault.issue with
  | .variableNotDeclared _ => true
  | _ => false

def isUnused (d : Diagnostic) : Bool :=
  match d.fault.issue with
  | .unusedVariable _ | .unusedGlobal _ => true
  | _ => false

end Diagnostic

namespace Diagnostics

/-- The errors about names without a meaning. -/
def undeclared (ds : Diagnostics) : List Diagnostic :=
  ds.errors.filter Diagnostic.isUndeclared

/-- The warnings about variables that are never read. -/
def unused (ds : Diagnostics) : List Diagnostic :=
  ds.warnings.filter Diagnostic.isUnused

variable {place : Option String}

lemma add_of_isOrdinary (fault : Fault) (h : fault.issue.isOrdinary = true) (ds : Diagnostics) :
    (ds.add fault place).undeclared = ds.undeclared ∧ (ds.add fault place).unused = ds.unused := by
  have hundeclared : Diagnostic.isUndeclared ⟨fault, place⟩ = false := by
    unfold Diagnostic.isUndeclared
    split
    · simp_all [Issue.isOrdinary]
    · rfl
  have hunused : Diagnostic.isUnused ⟨fault, place⟩ = false := by
    unfold Diagnostic.isUnused
    split
    · simp_all [Issue.isOrdinary]
    · simp_all [Issue.isOrdinary]
    · rfl
  unfold add
  split
  · exact ⟨rfl, by simp [unused, hunused]⟩
  · exact ⟨by simp [undeclared, hundeclared], rfl⟩

lemma add_of_isUndeclared (fault : Fault) (h : Diagnostic.isUndeclared ⟨fault, place⟩ = true) (ds : Diagnostics) :
    (ds.add fault place).undeclared = ds.undeclared ++ [⟨fault, place⟩] ∧ (ds.add fault place).unused = ds.unused := by
  have hwarning : fault.issue.isWarning = false := by
    unfold Diagnostic.isUndeclared at h
    split at h <;> simp_all [Issue.isWarning]
  unfold add
  rw [if_neg (by simp [hwarning])]
  exact ⟨by simp [undeclared, h], rfl⟩

lemma add_of_isUnused (fault : Fault) (h : Diagnostic.isUnused ⟨fault, place⟩ = true) (ds : Diagnostics) :
    (ds.add fault place).undeclared = ds.undeclared ∧ (ds.add fault place).unused = ds.unused ++ [⟨fault, place⟩] := by
  have hwarning : fault.issue.isWarning = true := by
    unfold Diagnostic.isUnused at h
    split at h <;> simp_all [Issue.isWarning]
  unfold add
  rw [if_pos hwarning]
  exact ⟨rfl, by simp [unused, h]⟩

end Diagnostics

namespace Occurrence

/-- The error about a use of a name without a meaning. -/
def undeclaredError (file : String) (o : Occurrence) : Diagnostic :=
  ⟨⟨.variableNotDeclared o.name, o.line, file⟩, some o.definition.text⟩

/-- The warning about a variable or a global that is never read. -/
def unusedWarning (file : String) (o : Occurrence) : Diagnostic :=
  if o.blocks = [] then ⟨⟨.unusedGlobal o.name, o.line, file⟩, none⟩
  else ⟨⟨.unusedVariable o.name, o.line, file⟩, some o.definition.text⟩

/-- The declarations in inner blocks of a block that are never read. -/
def closed (before : List Occurrence) (blocks : List Nat) (os : List Occurrence) : List Occurrence :=
  (declared before os).filter fun d => d.blocks ≠ blocks ∧ d ∉ meant [] (before ++ os)

variable {before os os' : List Occurrence} {blocks : List Nat}

lemma closed_of_flat (h : ∀ o ∈ os, o.blocks = blocks) : closed before blocks os = [] := by
  refine filter_eq_nil_iff.mpr fun d hd => ?_
  simp [h d (mem_of_mem_declared hd)]

lemma closed_append (hapart : Apart blocks os os') :
    closed before blocks (os ++ os') = closed before blocks os ++ closed (before ++ os) blocks os' := by
  unfold closed
  rw [declared_append, filter_append, ← append_assoc]
  congr 1
  refine filter_congr fun d hd => ?_
  have hlater : d.blocks ≠ blocks → d ∉ meant (before ++ os) os' := by
    intro hne hmeant
    obtain ⟨o, ho, hsuffix⟩ := of_mem_meant hmeant
    exact hapart d (mem_of_mem_declared hd) hne o ho hsuffix
  rw [meant_append]
  simp only [nil_append, mem_append, decide_eq_decide]
  tauto

/-- When a block is closed, the variables of its scope that were not read are those that nothing means. -/
lemma perm_unused (types : TypeTable) (before : List Occurrence) (blocks : List Nat) :
    (scope types before blocks).unused.Perm
      (((declared [] before).filter fun d => d.blocks = blocks ∧ d ∉ meant [] before).map fun d =>
        (d.name, d.line)) := by
  refine (mergeSort_perm _ _).trans ?_
  rw [scope, filter_reverse, map_reverse]
  refine (reverse_perm _).trans (.of_eq ?_)
  rw [filter_map, map_map, filter_filter]
  have hfilter : (fun d => (!(binding types before d).used) && decide (d.blocks = blocks)) =
      fun d => decide (d.blocks = blocks ∧ d ∉ meant [] before) := by
    funext d
    simp [binding, Bool.and_comm]
  exact congrArg (fun p => ((declared [] before).filter p).map fun d => (d.name, d.line)) hfilter

lemma closed_close {number : Nat} (hnew : ∀ o ∈ before, o.blocks ≠ number :: blocks)
    (hinner : ∀ o ∈ os, number :: blocks <:+ o.blocks) :
    (closed before (number :: blocks) os ++ (declared [] (before ++ os)).filter fun d =>
      d.blocks = number :: blocks ∧ d ∉ meant [] (before ++ os)).Perm (closed before blocks os) := by
  have hnone : (declared [] before).filter (fun d => d.blocks = number :: blocks ∧ d ∉ meant [] (before ++ os)) = [] := by
    refine filter_eq_nil_iff.mpr fun d hd => ?_
    simp [hnew d (mem_of_mem_declared hd)]
  have hall : closed before blocks os = (declared before os).filter fun d => d ∉ meant [] (before ++ os) := by
    refine filter_congr fun d hd => ?_
    have hne : d.blocks ≠ blocks := by
      intro heq
      have hsuffix := hinner d (mem_of_mem_declared hd)
      rw [heq] at hsuffix
      exact not_cons_suffix number blocks hsuffix
    simp [hne]
  have hsplit := filter_append_perm (fun d => decide (d.blocks ≠ number :: blocks))
    ((declared before os).filter fun d => d ∉ meant [] (before ++ os))
  rw [declared_append, nil_append, filter_append, hnone, nil_append, hall, closed]
  simpa [filter_filter] using hsplit

end Occurrence

lemma Expr.occurrences_eq {place : Place} {blocks : List Nat} {e : Expr} (h : ∀ m name, e ≠ .identifier m name) :
    e.occurrences place blocks = e.children.flatMap (occurrences place blocks) := by
  have hself : e.occurrence? place blocks = none := by
    cases e with
    | identifier m name => exact absurd rfl (h m name)
    | _ => rfl
  have hnodes : e.occurrences place blocks =
      e.children.flatMap (occurrences place blocks) ++ [e].filterMap (occurrence? place blocks) := by
    rw [occurrences, nodes_eq, filterMap_append, filterMap_flatMap]
    rfl
  rw [hnodes, filterMap_cons_none hself, filterMap_nil, append_nil]

namespace TypeTable

lemma get?_record_of_some {t : TypeTable} {id other : Nat} {type found : Ty} (h : t.get? other = some found) :
    (t.record id type).get? other = some found := by
  cases hid : t.get? id with
  | some _ => rwa [record, hid]
  | none =>
    have hne : other ≠ id := fun heq => by simp [heq, hid] at h
    rwa [get?_record _ _ _ _ hid, if_neg hne]

end TypeTable

open Occurrence

namespace Inspection

/-- Two states of an analysis that say the same about names and types. -/
structure Alike (s s' : Inspection) : Prop where
  file : s'.file = s.file
  types : s'.analysis.types = s.analysis.types
  scopes : s'.analysis.declarations.scopes = s.analysis.declarations.scopes
  globals : s'.analysis.declarations.globals = s.analysis.declarations.globals
  undeclared : s'.diagnostics.undeclared = s.diagnostics.undeclared
  unused : s'.diagnostics.unused = s.diagnostics.unused

/-- A later analysis, which has recorded types at some nodes. -/
structure Grows (ids : List Nat) (s s' : Inspection) : Prop where
  kept : ∀ id type, s.analysis.types.get? id = some type → s'.analysis.types.get? id = some type
  frame : ∀ id, id ∉ ids → s'.analysis.types.get? id = s.analysis.types.get? id

/-- The types recorded so far are those of a table. -/
def Within (types : TypeTable) (s : Inspection) : Prop :=
  ∀ id type, s.analysis.types.get? id = some type → types.get? id = some type

structure At (types : TypeTable) (file : String) (before : List Occurrence) (blocks : List Nat)
    (s : Inspection) : Prop where
  file : s.file = file
  scopes : s.analysis.declarations.scopes = frames types before blocks
  globals : s.analysis.declarations.globals = scope types before []

structure Passes (types : TypeTable) (file : String) (before os : List Occurrence) (blocks : List Nat)
    (s s' : Inspection) : Prop where
  reached : s'.At types file (before ++ os) blocks
  typed : ∀ x ∈ placed before os, x.2.Typed types x.1
  undeclared : s'.diagnostics.undeclared =
    s.diagnostics.undeclared ++ (Occurrence.undeclared before os).map (undeclaredError file)
  unused : s'.diagnostics.unused.Perm
    (s.diagnostics.unused ++ (closed before blocks os).map (unusedWarning file))

variable {types : TypeTable} {file : String} {before os os' : List Occurrence} {blocks : List Nat}
  {ids ids' : List Nat} {s t u : Inspection}

lemma Alike.trans (h : s.Alike t) (h' : t.Alike u) : s.Alike u where
  file := h'.file.trans h.file
  types := h'.types.trans h.types
  scopes := h'.scopes.trans h.scopes
  globals := h'.globals.trans h.globals
  undeclared := h'.undeclared.trans h.undeclared
  unused := h'.unused.trans h.unused

lemma Alike.grows (h : s.Alike t) : s.Grows ids t :=
  ⟨fun id type hid => by rwa [h.types], fun id _ => by rw [h.types]⟩

lemma Grows.append (h : s.Grows ids t) (h' : t.Grows ids' u) : s.Grows (ids ++ ids') u := by
  refine ⟨fun id type hid => h'.kept id type (h.kept id type hid), fun id hid => ?_⟩
  rw [mem_append, not_or] at hid
  rw [h'.frame id hid.2, h.frame id hid.1]

lemma Grows.within (h : s.Grows ids t) (ht : t.Within types) : s.Within types :=
  fun id type hid => ht id type (h.kept id type hid)

lemma Grows.fresh (h : s.Grows ids t) (hfresh : s.Fresh (ids ++ ids')) : t.Fresh ids' := by
  refine ⟨(nodup_append.mp hfresh.1).2.1, fun id hid => ?_⟩
  rw [h.frame id fun hmem => hfresh.disjoint hmem hid]
  exact hfresh.2 id (mem_append_right _ hid)

lemma Alike.passes (h : s.Alike t) (hs : s.At types file before blocks) :
    s.Passes types file before [] blocks t where
  reached := by
    rw [append_nil]
    exact ⟨h.file.trans hs.file, h.scopes.trans hs.scopes, h.globals.trans hs.globals⟩
  typed x hx := by cases hx
  undeclared := by simpa [Occurrence.undeclared, placed] using h.undeclared
  unused := by simp [closed, declared, placed, h.unused]

lemma Passes.append (h : s.Passes types file before os blocks t)
    (h' : t.Passes types file (before ++ os) os' blocks u) (hapart : Apart blocks os os') :
    s.Passes types file before (os ++ os') blocks u where
  reached := by
    rw [← append_assoc]
    exact h'.reached
  typed := by
    rw [placed_append]
    exact forall_mem_append.mpr ⟨h.typed, h'.typed⟩
  undeclared := by
    rw [h'.undeclared, h.undeclared, undeclared_append, map_append, append_assoc]
  unused := by
    rw [closed_append hapart, map_append, ← append_assoc]
    exact h'.unused.trans (h.unused.append_right _)

end Inspection

namespace Inspect

variable {α β : Type}

/-- A step that changes nothing about names and types. -/
def Silent (x : Inspect α) : Prop :=
  ∀ s a s', x.run s = (a, s') → s.Alike s'

namespace Silent

lemma pure (a : α) : Silent (Pure.pure a) := by
  intro s b s' h
  cases h
  exact ⟨rfl, rfl, rfl, rfl, rfl, rfl⟩

lemma bind {x : Inspect α} {f : α → Inspect β} (hx : Silent x) (hf : ∀ a, Silent (f a)) : Silent (x >>= f) := by
  intro s b s' h
  obtain ⟨a, t, ha, hb⟩ := runState_bind.mp h
  exact (hx s a t ha).trans (hf a t b s' hb)

lemma analysis : Silent Inspect.analysis := by
  intro s a s' h
  cases h
  exact ⟨rfl, rfl, rfl, rfl, rfl, rfl⟩

lemma report {context : Context} {issue : Issue} (hissue : issue.isOrdinary = true) :
    Silent (report context issue) := by
  intro s a s' h
  cases h
  obtain ⟨hundeclared, hunused⟩ := Diagnostics.add_of_isOrdinary
    ⟨issue, context.line, s.file⟩ hissue s.diagnostics
  exact ⟨rfl, rfl, rfl, rfl, hundeclared, hunused⟩

lemma reportUnless {context : Context} {issue : Issue} (condition : Bool) (hissue : issue.isOrdinary = true) :
    Silent (if !condition then Inspect.report context issue else Pure.pure ()) := by
  split
  · exact report hissue
  · exact pure ()

lemma reportAll {context : Context} {issues : List (Issue × Nat)} (h : ∀ x ∈ issues, x.1.isOrdinary = true) :
    Silent (reportAll context issues) := by
  induction issues with
  | nil => exact pure ()
  | cons issue rest ih =>
    obtain ⟨hissue, hrest⟩ := forall_mem_cons.mp h
    exact (report hissue).bind fun _ => ih hrest

lemma operatorResult (context : Context) (result : Except OperandError Ty) :
    Silent (operatorResult context result) := by
  cases result with
  | ok type => exact pure type
  | error e => exact (report rfl).bind fun _ => pure _

lemma mergeElement (context : Context) (merged element : Ty) : Silent (mergeElement context merged element) := by
  unfold Inspect.mergeElement
  split
  · exact (report rfl).bind fun _ => pure _
  · split
    · exact pure _
    · exact (report rfl).bind fun _ => pure _

lemma callType (context : Context) (id : Nat) (name : String) (arguments : List Expr) (types : List Ty) :
    Silent (callType context id name arguments types) := by
  intro s a s' h
  obtain ⟨analysis, t, ht, h⟩ := runState_bind.mp h
  cases ht
  split at h
  · rename_i issue hresolve
    exact (report (Declarations.isError_resolveCall hresolve).ordinary).bind (fun _ => pure _) s a s' h
  · obtain ⟨_, t, ht, h⟩ := runState_bind.mp h
    rw [reportEach_eq] at ht
    have hreports : s.Alike t :=
      reportAll (forall_mem_map.mpr fun _ h => (isError_wrongReferences _ h).ordinary) s _ t ht
    cases h
    exact ⟨hreports.file, hreports.types, hreports.scopes, hreports.globals, hreports.undeclared, hreports.unused⟩

end Silent

/-- A step in a block that goes through further occurrences and records types at some nodes. -/
def Follows (types : TypeTable) (file : String) (blocks : List Nat) (before os : List Occurrence) (ids : List Nat)
    (pre : Prop) (post : α → Prop) (x : Inspect α) : Prop :=
  ∀ s a s', x.run s = (a, s') → s.Grows ids s' ∧
    (pre → s.Fresh ids → s'.Within types → s.At types file before blocks →
      post a ∧ s.Passes types file before os blocks s')

section Follows

variable {types : TypeTable} {file : String} {blocks : List Nat} {before os os' : List Occurrence}
  {ids ids' : List Nat} {pre : Prop} {post : α → Prop} {result : β → Prop} {x : Inspect α} {f : α → Inspect β}

lemma Silent.follows (h : Silent x) : Follows types file blocks before [] [] pre (fun _ => True) x := by
  intro s a s' hrun
  have halike := h s a s' hrun
  exact ⟨halike.grows, fun _ _ _ hs => ⟨trivial, halike.passes hs⟩⟩

lemma Follows.bind (hx : Follows types file blocks before os ids pre post x)
    (hf : ∀ a, Follows types file blocks (before ++ os) os' ids' (post a) result (f a))
    (hapart : Apart blocks os os') :
    Follows types file blocks before (os ++ os') (ids ++ ids') pre result (x >>= f) := by
  intro s b s' hrun
  obtain ⟨a, t, ha, hb⟩ := runState_bind.mp hrun
  obtain ⟨hgrows, hpass⟩ := hx s a t ha
  obtain ⟨hgrows', hpass'⟩ := hf a t b s' hb
  refine ⟨hgrows.append hgrows', fun hpre hfresh hwithin hs => ?_⟩
  obtain ⟨hpost, hst⟩ := hpass hpre hfresh.left (hgrows'.within hwithin) hs
  obtain ⟨hresult, hts⟩ := hpass' hpost (hgrows.fresh hfresh) hwithin hst.reached
  exact ⟨hresult, hst.append hts hapart⟩

lemma Follows.weaken {pre' : Prop} {post' : α → Prop} (h : Follows types file blocks before os ids pre post x)
    (hpre : pre' → pre) (hpost : ∀ a, post a → post' a) :
    Follows types file blocks before os ids pre' post' x := by
  intro s a s' hrun
  obtain ⟨hgrows, hpass⟩ := h s a s' hrun
  refine ⟨hgrows, fun hpre' hfresh hwithin hs => ?_⟩
  obtain ⟨ha, hst⟩ := hpass (hpre hpre') hfresh hwithin hs
  exact ⟨hpost a ha, hst⟩

lemma Follows.andThen (hx : Follows types file blocks before os ids pre post x)
    (hf : ∀ a, Follows types file blocks (before ++ os) os' ids' True result (f a))
    (hapart : Apart blocks os os') :
    Follows types file blocks before (os ++ os') (ids ++ ids') pre result (x >>= f) :=
  hx.bind (fun a => (hf a).weaken (fun _ => trivial) fun _ h => h) hapart

lemma Follows.andSilent (hx : Follows types file blocks before os ids pre post x) (hf : ∀ a, Silent (f a)) :
    Follows types file blocks before os ids pre (fun _ => True) (x >>= f) := by
  have hapart : Apart blocks os [] := fun d _ _ o ho => by cases ho
  have hboth := hx.bind (fun a => (hf a).follows) hapart
  rwa [append_nil, append_nil] at hboth

lemma Silent.andFollows (hx : Silent x) (hf : ∀ a, Follows types file blocks before os ids True result (f a)) :
    Follows types file blocks before os ids pre result (x >>= f) := by
  have hapart : Apart blocks [] os := fun d hd => by cases hd
  have hfirst : Follows types file blocks before [] [] pre (fun _ => True) x := hx.follows
  have hboth := hfirst.bind (fun a => (append_nil before).symm ▸ hf a) hapart
  rwa [nil_append, nil_append] at hboth

lemma follows_recorded {m : Mark} {compute : Inspect Ty}
    (h : ∀ s type t, compute.run s = (type, t) → s.Grows ids t ∧
      (pre → s.Fresh ids → t.Within types → s.At types file before blocks → types.get? m.id = some type →
        s.Passes types file before os blocks t)) :
    Follows types file blocks before os (ids ++ [m.id]) pre (fun type => types.get? m.id = some type)
      (recorded m compute) := by
  intro s type s' hrun
  replace hrun := of_analysis hrun
  cases hid : s.analysis.types.get? m.id with
  | some found =>
    rw [hid] at hrun
    cases hrun
    refine ⟨⟨fun _ _ h => h, fun _ _ => rfl⟩, fun _ hfresh => ?_⟩
    have hnone := hfresh.2 m.id (mem_append_right _ (mem_singleton_self _))
    rw [hid] at hnone
    cases hnone
  | none =>
    rw [hid] at hrun
    obtain ⟨computed, t, ht, hrun⟩ := runState_bind.mp hrun
    cases hrun
    obtain ⟨hgrows, hpass⟩ := h s type t ht
    have hrecord : t.Grows [m.id] { t with analysis :=
        { t.analysis with types := t.analysis.types.record m.id type } } := by
      refine ⟨fun id found hfound => TypeTable.get?_record_of_some hfound, fun id hne => ?_⟩
      exact TypeTable.get?_record_ne _ type (by simpa using hne)
    refine ⟨hgrows.append hrecord, fun hpre hfresh hwithin hs => ?_⟩
    have hempty : t.analysis.types.get? m.id = none := (hgrows.fresh hfresh).2 m.id (mem_singleton_self _)
    have htype : types.get? m.id = some type :=
      hwithin m.id type ((TypeTable.get?_record _ _ _ _ hempty).trans (if_pos rfl))
    have hst := hpass hpre hfresh.left (hrecord.within hwithin) hs htype
    exact ⟨htype, ⟨hst.reached.file, hst.reached.scopes, hst.reached.globals⟩, hst.typed, hst.undeclared,
      hst.unused⟩

lemma Follows.recorded {m : Mark} {compute : Inspect Ty} {post : Ty → Prop}
    (h : Follows types file blocks before os ids pre post compute) :
    Follows types file blocks before os (ids ++ [m.id]) pre (fun type => types.get? m.id = some type)
      (recorded m compute) := by
  refine follows_recorded fun s type t hrun => ?_
  obtain ⟨hgrows, hpass⟩ := h s type t hrun
  exact ⟨hgrows, fun hpre hfresh hwithin hs _ => (hpass hpre hfresh hwithin hs).2⟩

end Follows

section Expressions

variable {types : TypeTable} {file : String} {blocks : List Nat} {before : List Occurrence} {context : Context}
  {place : Place}

lemma follows_exprTypes {es : List Expr}
    (hes : ∀ e ∈ es, ∀ before, Follows types file blocks before (e.occurrences place blocks) e.ids True
      (fun type => types.get? e.id = some type) (exprType context e)) (before : List Occurrence) :
    Follows types file blocks before (es.flatMap (Expr.occurrences place blocks)) (es.flatMap Expr.ids) True
      (fun _ => True) (exprTypes context es) := by
  induction es generalizing before with
  | nil => exact (Silent.pure _).follows
  | cons e rest ih =>
    obtain ⟨he, hrest⟩ := forall_mem_cons.mp hes
    refine (he before).andThen (fun _ => ?_) (apart_of_flat fun o ho => (e.flat_occurrences o ho).2)
    exact (ih hrest _).andSilent fun _ => .pure _

lemma follows_elementsType {list : Context} {es : List Expr}
    (hes : ∀ e ∈ es, ∀ before, Follows types file blocks before (e.occurrences place blocks) e.ids True
      (fun type => types.get? e.id = some type) (exprType context e)) (merged : Ty) (before : List Occurrence) :
    Follows types file blocks before (es.flatMap (Expr.occurrences place blocks)) (es.flatMap Expr.ids) True
      (fun _ => True) (elementsType context list merged es) := by
  induction es generalizing merged before with
  | nil => exact (Silent.pure _).follows
  | cons e rest ih =>
    obtain ⟨he, hrest⟩ := forall_mem_cons.mp hes
    refine (he before).andThen (fun _ => ?_) (apart_of_flat fun o ho => (e.flat_occurrences o ho).2)
    exact (Silent.mergeElement _ _ _).andFollows fun merged => ih hrest merged _

variable (hplace : context.definition = some place)
include hplace

lemma follows_identifier (m : Mark) (name : String) :
    Follows types file blocks before [⟨name, m.line, blocks, place, .use m.id⟩] [m.id] True
      (fun type => types.get? m.id = some type) (recorded m (nameType (context.moveTo m.line) name)) := by
  have hids : [m.id] = [] ++ [m.id] := rfl
  rw [hids]
  refine follows_recorded fun s type t hrun => ?_
  replace hrun := of_analysis hrun
  set o : Occurrence := ⟨name, m.line, blocks, place, .use m.id⟩ with ho
  have huse : o.isUse = true := rfl
  have hclosed : closed before blocks [o] = [] := closed_of_flat fun o' ho' => by
    rw [mem_singleton.mp ho']
  have hgrows : t.analysis.types = s.analysis.types := by
    split at hrun <;> (cases hrun; rfl)
  refine ⟨⟨fun id found hfound => by rwa [hgrows], fun id _ => by rw [hgrows]⟩, fun _ _ _ hs htype => ?_⟩
  have hread : s.analysis.declarations.read name = _ := read_frames (o := o) huse hs.scopes hs.globals
  cases hmeaning : meaning? before o.blocks o.name with
  | some d =>
    rw [hread, hmeaning] at hrun
    cases hrun
    refine ⟨⟨hs.file, rfl, rfl⟩, ?_, ?_, ?_⟩
    · simp only [placed, forall_mem_singleton]
      rintro id ⟨⟩
      rw [htype, hmeaning]
      rfl
    · simp [Occurrence.undeclared, placed, hmeaning]
    · simp [hclosed]
  | none =>
    rw [hread, hmeaning] at hrun
    cases hrun
    have hsame : ∀ outer, scope types (before ++ [o]) outer = scope types before outer := fun outer =>
      scope_use_other huse fun d hd => by simp [hmeaning] at hd
    refine ⟨⟨hs.file, ?_, ?_⟩, ?_, ?_, ?_⟩
    · rw [frames_congr fun outer _ _ => hsame outer]
      exact hs.scopes
    · rw [hsame]
      exact hs.globals
    · simp only [placed, forall_mem_singleton]
      rintro id ⟨⟩
      rw [htype, hmeaning]
      rfl
    · have hundeclared : Occurrence.undeclared before [o] = [o] := by
        simp [Occurrence.undeclared, placed, hmeaning, huse]
      refine (Diagnostics.add_of_isUndeclared _ rfl _).1.trans ?_
      rw [hundeclared]
      simp [undeclaredError, ho, Context.moveTo, Context.place, hplace, hs.file]
    · rw [hclosed, map_nil, append_nil]
      exact .of_eq (Diagnostics.add_of_isUndeclared _ rfl _).2

/-- The analysis of an expression goes through its identifiers. -/
theorem follows_exprType (e : Expr) (before : List Occurrence) :
    Follows types file blocks before (e.occurrences place blocks) e.ids True
      (fun type => types.get? e.id = some type) (exprType context e) := by
  induction e using Expr.children_induction generalizing before with
  | step e ih =>
    have hnode : (∀ m name, e ≠ .identifier m name) → ∀ {compute : Inspect Ty} {post : Ty → Prop},
        Follows types file blocks before (e.children.flatMap (Expr.occurrences place blocks))
          (e.children.flatMap Expr.ids) True post compute →
        Follows types file blocks before (e.occurrences place blocks) e.ids True
          (fun type => types.get? e.id = some type) (recorded e.mark compute) := by
      intro hne compute post hcompute
      rw [Expr.ids_eq, Expr.occurrences_eq hne]
      exact hcompute.recorded
    have hpair : ∀ {left right : Expr} {f : Ty → Ty → Inspect Ty}, e.children = [left, right] →
        (∀ a b, Silent (f a b)) → Follows types file blocks before
          (e.children.flatMap (Expr.occurrences place blocks)) (e.children.flatMap Expr.ids) True (fun _ => True)
          (exprType context left >>= fun a => exprType context right >>= fun b => f a b) := by
      intro left right f hchildren hf
      have hleft := ih left (by simp [hchildren]) before
      have hright := ih right (by simp [hchildren]) (before ++ left.occurrences place blocks)
      have hboth := hleft.andThen (fun a => hright.andSilent (hf a))
        (apart_of_flat fun o ho => (left.flat_occurrences o ho).2)
      simpa [hchildren] using hboth
    have hsingle : ∀ {base : Expr} {f : Ty → Inspect Ty}, e.children = [base] → (∀ a, Silent (f a)) →
        Follows types file blocks before
          (e.children.flatMap (Expr.occurrences place blocks)) (e.children.flatMap Expr.ids) True (fun _ => True)
          (exprType context base >>= f) := by
      intro base f hchildren hf
      simpa [hchildren] using (ih base (by simp [hchildren]) before).andSilent hf
    cases e with
    | literal m value | emptyList m => exact hnode (by simp) (Silent.pure _).follows
    | identifier m name => exact follows_identifier hplace m name
    | binary m operator left right => exact hnode (by simp) (hpair rfl fun _ _ => .operatorResult _ _)
    | unary m operator operand => exact hnode (by simp) (hsingle rfl fun _ => .operatorResult _ _)
    | call m name arguments =>
      exact hnode (by simp) ((follows_exprTypes ih before).andSilent fun _ => .callType _ _ _ _ _)
    | member m base field => exact hnode (by simp) (hsingle rfl fun _ => .callType _ _ _ _ _)
    | index m base position =>
      refine hnode (by simp) (hpair rfl fun _ positionType => ?_)
      split
      · exact (Silent.report rfl).bind fun _ => .operatorResult _ _
      · exact .operatorResult _ _
    | list m elements =>
      exact hnode (by simp) ((follows_elementsType ih .generic before).andSilent fun _ => .pure _)

lemma follows_condition (statement : String) (e : Expr) (before : List Occurrence) :
    Follows types file blocks before (e.occurrences place blocks) e.ids True (fun _ => True)
      (condition context statement e) :=
  (follows_exprType hplace e before).andSilent fun _ => .reportUnless _ rfl

lemma follows_initialValue (type : Ty) (value : Option Expr) (before : List Occurrence) :
    Follows types file blocks before (value.toList.flatMap (Expr.occurrences place blocks))
      (value.toList.flatMap Expr.ids) True (fun _ => True) (initialValue context type value) := by
  cases value with
  | none => exact (Silent.pure _).follows
  | some e =>
    simp only [Option.toList_some, flatMap_singleton]
    exact (follows_exprType hplace e before).andSilent fun _ => .reportUnless _ rfl

end Expressions

section Blocks

variable {types : TypeTable} {file : String} {blocks : List Nat} {before os : List Occurrence} {context : Context}
  {place : Place} {ids : List Nat} {pre : Prop} {s s' : Inspection} {number : Nat}

/-- A declaration in the current block takes effect unless the block declares the name already. -/
lemma follows_change {o : Occurrence} {change : Declarations → Except Issue Declarations}
    (huse : o.isUse = false) (hblocks : o.blocks = blocks)
    (hagain : ∀ ds d, ds.scopes = frames types before blocks → ds.globals = scope types before [] →
      first? before o.blocks o.name = some d → ∃ issue, change ds = .error issue ∧ issue.isOrdinary = true)
    (hnew : ∀ ds, pre → ds.scopes = frames types before blocks → ds.globals = scope types before [] →
      first? before o.blocks o.name = none → ∃ ds', change ds = .ok ds' ∧
        ds'.scopes = frames types (before ++ [o]) blocks ∧ ds'.globals = scope types (before ++ [o]) []) :
    Follows types file blocks before [o] [] pre (fun _ => True) (declare context change) := by
  intro s result s' hrun
  have htypes := (KeepsTypes.declare _ _).of_run hrun
  refine ⟨⟨fun id found hfound => by rwa [htypes], fun id _ => by rw [htypes]⟩, fun hpre _ _ hs => ⟨trivial, ?_⟩⟩
  have hclosed : closed before blocks [o] = [] := closed_of_flat fun o' ho' => by
    rw [mem_singleton.mp ho', hblocks]
  have hundeclared : Occurrence.undeclared before [o] = [] := by simp [Occurrence.undeclared, placed, huse]
  have htyped : ∀ x ∈ placed before [o], x.2.Typed types x.1 := by
    simp only [placed, forall_mem_singleton]
    intro id hid
    simp [isUse, hid] at huse
  replace hrun := of_analysis hrun
  cases hfirst : first? before o.blocks o.name with
  | some d =>
    obtain ⟨issue, herror, hissue⟩ := hagain _ d hs.scopes hs.globals hfirst
    rw [herror] at hrun
    have hsame : ∀ outer, scope types (before ++ [o]) outer = scope types before outer :=
      fun outer => scope_again huse hfirst
    have halike : s.Alike s' := Silent.report hissue _ _ _ hrun
    refine ⟨⟨halike.file.trans hs.file, ?_, ?_⟩, htyped, ?_, ?_⟩
    · rw [halike.scopes, hs.scopes]
      exact (frames_congr fun outer _ _ => hsame outer).symm
    · rw [halike.globals, hs.globals, hsame]
    · rw [hundeclared, halike.undeclared, map_nil, append_nil]
    · rw [hclosed, halike.unused, map_nil, append_nil]
  | none =>
    obtain ⟨ds', hok, hscopes, hglobals⟩ := hnew _ hpre hs.scopes hs.globals hfirst
    rw [hok] at hrun
    cases hrun
    refine ⟨⟨hs.file, hscopes, hglobals⟩, htyped, ?_, ?_⟩
    · rw [hundeclared, map_nil, append_nil]
    · rw [hclosed, map_nil, append_nil]

lemma follows_declare (origin : Origin) (name : String) (type : Ty) (line : Nat) :
    Follows types file (number :: blocks) before
      [⟨name, line, number :: blocks, place, .declaration origin⟩] [] (type = origin.type types) (fun _ => True)
      (declare context fun ds => ds.declare name type line) := by
  refine follows_change rfl rfl (fun ds d hscopes _ hfirst => ?_) fun ds htype hscopes hglobals hfirst => ?_
  · refine ⟨.variableRedeclared name, ?_, rfl⟩
    have hfound : ((scope types before (number :: blocks)).find? name).isSome = true := by
      rw [find?_scope, hfirst]
      rfl
    rw [Declarations.declare, hscopes, frames]
    exact if_pos hfound
  · have hfound : ¬((scope types before (number :: blocks)).find? name).isSome = true := by
      rw [find?_scope, hfirst]
      simp
    set inner := (scope types before (number :: blocks)).bind name type line with hinner
    refine ⟨{ ds with scopes := inner :: frames types before blocks }, ?_, ?_, ?_⟩
    · rw [Declarations.declare, hscopes, frames]
      exact if_neg hfound
    · rw [frames, frames_declaration rfl rfl, hinner, htype]
      exact congrArg (· :: frames types before blocks) (scope_new rfl hfirst).symm
    · exact hglobals.trans (scope_new_other rfl hfirst (cons_ne_nil _ _)).symm

lemma follows_defineGlobal (name : String) (type : Ty) (line : Nat) :
    Follows types file [] before [⟨name, line, [], place, .declaration (.written type)⟩] [] True (fun _ => True)
      (declare context fun ds => ds.defineGlobal name type line) := by
  refine follows_change rfl rfl (fun ds d _ hglobals hfirst => ?_) fun ds _ hscopes hglobals hfirst => ?_
  · refine ⟨.globalRedeclared name, if_pos ?_, rfl⟩
    rw [hglobals, find?_scope, hfirst]
    rfl
  · refine ⟨{ ds with globals := (scope types before []).bind name type line }, ?_, hscopes, ?_⟩
    · rw [Declarations.defineGlobal, if_neg, hglobals]
      rw [hglobals, find?_scope, hfirst]
      simp
    · exact (scope_new rfl hfirst).symm

lemma of_each_report {names : List (String × Nat)} {context : String × Nat → Context} {issue : String × Nat → Issue}
    {result : Unit} (hissue : ∀ x file place, Diagnostic.isUnused ⟨⟨issue x, (context x).line, file⟩, place⟩ = true)
    (h : (each (fun x => report (context x) (issue x)) names).run s = (result, s')) :
    s'.file = s.file ∧ s'.analysis = s.analysis ∧ s'.diagnostics.undeclared = s.diagnostics.undeclared ∧
      s'.diagnostics.unused = s.diagnostics.unused ++ names.map fun x =>
        ⟨⟨issue x, (context x).line, s.file⟩, (context x).place⟩ := by
  induction names generalizing s with
  | nil =>
    cases h
    exact ⟨rfl, rfl, rfl, (append_nil _).symm⟩
  | cons x rest ih =>
    obtain ⟨_, t, ht, h⟩ := runState_bind.mp h
    cases ht
    obtain ⟨hfile, hanalysis, hundeclared, hunused⟩ := ih h
    obtain ⟨hundeclared', hunused'⟩ := Diagnostics.add_of_isUnused _ (hissue x s.file (context x).place) s.diagnostics
    refine ⟨hfile, hanalysis, hundeclared.trans hundeclared', hunused.trans ?_⟩
    refine (congrArg (· ++ _) hunused').trans ?_
    rw [append_assoc]
    rfl

lemma reportAll_eq_each (context : Context) (names : List (String × Nat)) :
    reportAll context (names.map fun (name, line) => (.unusedVariable name, line)) =
      each (fun x => report (context.moveTo x.2) (.unusedVariable x.1)) names := by
  induction names with
  | nil => rfl
  | cons x rest ih =>
    rw [map_cons, reportAll, ih]
    rfl

lemma map_unusedWarning {numbers : Set Nat} {found : String} (hplace : context.definition = some place)
    (hfile : found = file) (hnew : ∀ o ∈ before, o.blocks ≠ number :: blocks)
    (hinside : Inside place (number :: blocks) numbers os) :
    (((declared [] (before ++ os)).filter fun d =>
        d.blocks = number :: blocks ∧ d ∉ meant [] (before ++ os)).map fun d => (d.name, d.line)).map
          (fun (name, line) => (⟨⟨.unusedVariable name, line, found⟩, context.place⟩ : Diagnostic)) =
      ((declared [] (before ++ os)).filter fun d =>
        d.blocks = number :: blocks ∧ d ∉ meant [] (before ++ os)).map (unusedWarning file) := by
  rw [map_map, hfile]
  refine map_congr_left fun d hd => ?_
  obtain ⟨hdeclared, hblocks⟩ := mem_filter.mp hd
  have hblocks : d.blocks = number :: blocks := (of_decide_eq_true hblocks).1
  have hdefinition : d.definition = place := by
    rcases mem_append.mp (mem_of_mem_declared hdeclared) with hmem | hmem
    · exact absurd hblocks (hnew d hmem)
    · exact (hinside d hmem).1
  simp [unusedWarning, hblocks, hdefinition, Context.place, hplace]

/-- A block has a scope of its own. -/
lemma Follows.block {numbers : Set Nat} {x : Inspect Unit} (hplace : context.definition = some place)
    (hx : Follows types file (number :: blocks) before os ids pre (fun _ => True) x)
    (hnew : Unopened before blocks {number}) (hinside : Inside place (number :: blocks) numbers os) :
    Follows types file blocks before os ids pre (fun _ => True)
      (openScope >>= fun _ => x >>= fun _ => closeScope context) := by
  intro s result s' hrun
  obtain ⟨_, t, hopen, hrun⟩ := runState_bind.mp hrun
  cases hopen
  obtain ⟨_, u, hbody, hclose⟩ := runState_bind.mp hrun
  obtain ⟨hgrows, hpass⟩ := hx _ _ u hbody
  have htypes := (KeepsTypes.closeScope _).of_run hclose
  refine ⟨⟨fun id type hid => ?_, fun id hid => ?_⟩, fun hpre hfresh hwithin hs => ⟨trivial, ?_⟩⟩
  · rw [htypes]
    exact hgrows.kept id type hid
  · rw [htypes]
    exact hgrows.frame id hid
  have hfirst : ∀ o ∈ before, o.blocks ≠ number :: blocks := fun o ho heq =>
    hnew o ho number rfl (heq ▸ suffix_refl _)
  have hopened : Inspection.At types file before (number :: blocks)
      { s with analysis := { s.analysis with declarations := s.analysis.declarations.openScope } } := by
    refine ⟨hs.file, ?_, hs.globals⟩
    rw [frames, scope_eq_nil hfirst]
    exact congrArg ([] :: ·) hs.scopes
  have hu : u.Within types := fun id type hid => hwithin id type (by rwa [htypes])
  obtain ⟨-, hst⟩ := hpass hpre hfresh hu hopened
  replace hclose := of_analysis hclose
  rw [Declarations.closeScope, hst.reached.scopes, frames] at hclose
  dsimp only at hclose
  obtain ⟨_, v, hv, hclose⟩ := runState_bind.mp hclose
  cases hv
  rw [reportAll_eq_each] at hclose
  obtain ⟨hfile, hanalysis, hundeclared, hunused⟩ := of_each_report (fun _ _ _ => rfl) hclose
  refine ⟨⟨hfile.trans hst.reached.file, ?_, ?_⟩, hst.typed, hundeclared.trans hst.undeclared, ?_⟩
  · rw [hanalysis]
  · rw [hanalysis]
    exact hst.reached.globals
  · rw [hunused]
    have hwarnings := ((perm_unused types (before ++ os) (number :: blocks)).map
      fun (name, line) => (⟨⟨.unusedVariable name, line, u.file⟩, context.place⟩ : Diagnostic)).trans
        (.of_eq (map_unusedWarning hplace hst.reached.file hfirst hinside))
    refine (hst.unused.append hwarnings).trans ?_
    rw [append_assoc, ← map_append]
    exact ((closed_close hfirst fun o ho => hinside.suffix ho).map _).append_left _

end Blocks

end Inspect

end ChessEval
