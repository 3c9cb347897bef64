import GraphQuery.Proofs.CompileErrors
import GraphQuery.Proofs.RenamedReads
import Mathlib.Data.List.GetD
import Mathlib.Logic.Equiv.Basic

/-!
# Renamed queries

The ids of sources are replaced by an injective function, everywhere in a query. The compiled query stays the same but
for the ids in what is left to the client, and a query that is not compiled still is not, for the same cause
(`Compiler.compile_rename`). The tables of sources are kept in the order of their ids, so they are related by what is
found in them and not as lists.
-/

namespace GraphQuery

variable {f : SourceId → SourceId}

/-! ## What contains ids -/

def Query.rename (f : SourceId → SourceId) (q : Query) : Query :=
  q.rewrite (.ofIds f)

def CompileError.rename (f : SourceId → SourceId) : CompileError → CompileError
  | .unknownSource id => .unknownSource (f id)
  | cause => cause

def ClientPart.rename (f : SourceId → SourceId) (part : ClientPart) : ClientPart :=
  { part with expr := part.expr.rename f }

/-- Only what is left to the client has ids in it. -/
def CompiledQuery.rename (f : SourceId → SourceId) (compiled : CompiledQuery) : CompiledQuery :=
  { compiled with clientParts := compiled.clientParts.map (ClientPart.rename f) }

def Progress.rename (f : SourceId → SourceId) (p : Progress) : Progress :=
  { p with read := p.read.rewrite (.ofIds f), clientParts := p.clientParts.map (ClientPart.rename f) }

def Plan.rename (f : SourceId → SourceId) (plan : Plan) : Plan where
  read := plan.read.rewrite (.ofIds f)
  clientParts := plan.clientParts.map (ClientPart.rename f)

/-- A pass that does not look at the ids of sources. -/
def ReadPass.Uniform (f : SourceId → SourceId) (pass : ReadPass) : Prop :=
  ∀ r : Read, pass (r.rewrite (.ofIds f)) = (pass r).map (Read.rewrite (.ofIds f))

/-- Two runs that fail for the same cause up to renaming, or give related results. -/
inductive RenamedRun (f : SourceId → SourceId) {α β : Type} (R : α → β → Prop) :
    Except CompileError α → Except CompileError β → Prop
  | error (cause : CompileError) : RenamedRun f R (.error cause) (.error (cause.rename f))
  | ok {a : α} {b : β} (h : R a b) : RenamedRun f R (.ok a) (.ok b)

namespace RenamedRun

variable {α β γ δ ι : Type} {R : α → β → Prop} {S : γ → δ → Prop}
variable {x : Except CompileError α} {y : Except CompileError β}

theorem bind {k : α → Except CompileError γ} {k' : β → Except CompileError δ} (h : RenamedRun f R x y)
    (hk : ∀ a b, R a b → RenamedRun f S (k a) (k' b)) : RenamedRun f S (x >>= k) (y >>= k') := by
  cases h with
  | error cause => exact .error cause
  | ok hab => exact hk _ _ hab

theorem foldlM {step : α → ι → Except CompileError α} {step' : β → ι → Except CompileError β} {g : ι → ι}
    (hstep : ∀ i a b, R a b → RenamedRun f R (step a i) (step' b (g i))) :
    ∀ (is : List ι) (a : α) (b : β), R a b → RenamedRun f R (is.foldlM step a) ((is.map g).foldlM step' b) := by
  intro is
  induction is with
  | nil =>
    intro a b hab
    exact .ok hab
  | cons i is ih =>
    intro a b hab
    rw [List.map_cons, List.foldlM_cons, List.foldlM_cons]
    exact (hstep i a b hab).bind ih

/-- Causes without ids stay the same. -/
theorem ofCause {ε : Type} {cause : ε → CompileError} {g : α → β} (hcause : ∀ e, (cause e).rename f = cause e)
    {x : Except ε α} {y : Except ε β} (h : y = x.map g) :
    RenamedRun f (fun a b => b = g a) (x.mapError cause) (y.mapError cause) := by
  subst h
  cases x with
  | error e =>
    have herror : RenamedRun f (fun a b => b = g a) (.error (cause e)) (.error ((cause e).rename f)) := .error (cause e)
    rw [hcause] at herror
    exact herror
  | ok a => exact .ok rfl

/-- Where a result determines the renamed one, so does the run. -/
theorem eq_map {g : α → β} (h : RenamedRun f (fun a b => b = g a) x y) :
    y = (x.map g).mapError (CompileError.rename f) := by
  cases h with
  | error cause => rfl
  | ok hab =>
    subst hab
    rfl

end RenamedRun

theorem foldl_rename {σ ι : Type} {step step' : σ → ι → σ} {change : σ → σ} {g : ι → ι}
    (hstep : ∀ s i, step' (change s) (g i) = change (step s i)) (is : List ι) (s : σ) :
    (is.map g).foldl step' (change s) = change (is.foldl step s) := by
  induction is generalizing s with
  | nil => rfl
  | cons i is ih => rw [List.map_cons, List.foldl_cons, List.foldl_cons, hstep, ih]

theorem option_bind_map {α β γ : Type} {x : Option α} {k : α → Option β} {k' : α → Option γ} {g : β → γ}
    (hk : ∀ a, k' a = (k a).map g) : x.bind k' = (x.bind k).map g := by
  cases x with
  | none => rfl
  | some a => exact hk a

/-! ## Sources -/

/-- Two tables in which the same is known of each source and its renamed one. -/
def SourceTable.Renames (f : SourceId → SourceId) (sources sources' : SourceTable) : Prop :=
  ∀ id, Table.find? (f id) sources' = Table.find? id sources

structure Layout.Renames (f : SourceId → SourceId) (l l' : Layout) : Prop where
  read : l'.read = l.read.rewrite (.ofIds f)
  sources : SourceTable.Renames f l.sources l'.sources

namespace Layout

variable {schema : Schema} {l l' : Layout}

theorem nodeOf_renames (source : Source) :
    RenamedRun f Eq (schema.nodeOf source) (schema.nodeOf (source.rewrite (.ofIds f))) := by
  obtain ⟨id, itemName, kind⟩ := source
  cases kind with
  | subquery q => exact .error (.unsupported (.nestedSource itemName))
  | entitySet name =>
    change RenamedRun f Eq (schema.nodeOf ⟨id, itemName, .entitySet name⟩)
      (schema.nodeOf ⟨f id, itemName, .entitySet name⟩)
    simp only [Schema.nodeOf]
    cases schema.find? name with
    | none => exact .error (.unknownEntity name)
    | some entity => exact .ok rfl

theorem addSource_renames (hf : f.Injective) (h : l.Renames f l') (source : Source) (role : SourceRole)
    (pattern : Pattern) :
    (l.addSource source role pattern).Renames f (l'.addSource (source.rewrite (.ofIds f)) role pattern) := by
  obtain ⟨id, itemName, kind⟩ := source
  refine ⟨?_, ?_⟩
  · exact (congrArg _ h.read).trans (l.read.addClause_rename (.pattern (.ofSource id pattern)))
  · intro other
    have htype : (Source.rewrite (.ofIds f) ⟨id, itemName, kind⟩).itemType = Source.itemType ⟨id, itemName, kind⟩ := by
      cases kind <;> rfl
    simp only [addSource, htype]
    by_cases hid : other = id
    · subst hid
      rw [Table.find?_insert_self]
      exact Table.find?_insert_self (f other) _ l'.sources
    · have hid' : f other ≠ f id := fun heq => hid (hf heq)
      rw [Table.find?_insert_of_ne _ _ hid]
      exact (Table.find?_insert_of_ne _ _ hid').trans (h.sources other)

theorem addEntity_renames (hf : f.Injective) (h : l.Renames f l') (source : Source) (role : SourceRole) :
    RenamedRun f (Renames f) (l.addEntity schema source role)
      (l'.addEntity schema (source.rewrite (.ofIds f)) role) := by
  refine (nodeOf_renames source).bind ?_
  rintro node _ rfl
  exact .ok (addSource_renames hf h source role ⟨node, []⟩)

theorem addJoin_renames (hf : f.Injective) (h : l.Renames f l') (join : Join) :
    RenamedRun f (Renames f) (l.addJoin schema join) (l'.addJoin schema (join.rewrite (.ofIds f))) := by
  obtain ⟨source, outer, relationship, outerKey, innerKey⟩ := join
  cases relationship with
  | none => exact addEntity_renames hf h source .join
  | some path =>
    simp only [addJoin, Join.rewrite]
    rw [show (Rewriting.ofIds f).source outer = f outer from rfl, h.sources outer]
    cases Table.find? outer l.sources with
    | none => exact .error (.unknownSource outer)
    | some entry =>
      refine (nodeOf_renames source).bind ?_
      rintro node _ rfl
      exact .ok (addSource_renames hf h source .join _)

theorem addClause_renames (hf : f.Injective) (clause : QueryClause) (l l' : Layout) (h : l.Renames f l') :
    RenamedRun f (Renames f) (l.addClause schema clause) (l'.addClause schema (clause.rewrite (.ofIds f))) := by
  cases clause with
  | additional source => exact addEntity_renames hf h source .additional
  | join join => exact addJoin_renames hf h join
  | filter _ => exact .ok h
  | orderBy _ => exact .ok h
  | take _ => exact .ok h
  | skip _ => exact .ok h

theorem ofQuery_renames (hf : f.Injective) (aliasPrefix : String) (main : Source) (clauses : List QueryClause)
    (selector : Expr) :
    RenamedRun f (Renames f) (ofQuery schema aliasPrefix ⟨main, clauses, selector⟩)
      (ofQuery schema aliasPrefix (Query.rename f ⟨main, clauses, selector⟩)) := by
  have hstart : Renames f ⟨Read.empty aliasPrefix, []⟩ ⟨Read.empty aliasPrefix, []⟩ := ⟨rfl, fun _ => rfl⟩
  refine (addEntity_renames hf hstart main .main).bind fun l l' h => ?_
  rw [show (Query.rename f ⟨main, clauses, selector⟩).clauses = clauses.map (QueryClause.rewrite (.ofIds f)) from
    QueryClause.rewriteList_eq_map _ clauses]
  exact RenamedRun.foldlM (addClause_renames hf) clauses l l' h

end Layout

/-! ## Lowering -/

namespace Outcome

variable {α α' β β' : Type} {g : α → α'} {g' : β → β'}

theorem result_bind_map {x : Outcome α} {x' : Outcome α'} {k : α → Outcome β} {k' : α' → Outcome β'}
    (hx : x'.result = x.result.map g) (hk : ∀ a, (k' (g a)).result = (k a).result.map g') :
    (x' >>= k').result = (x >>= k).result.map g' := by
  rw [result_bind, result_bind, hx]
  cases x.result with
  | none => rfl
  | some a => exact hk a

theorem result_traverse_map {k : α → Outcome β} {k' : α → Outcome β'} (hk : ∀ a, (k' a).result = (k a).result.map g') :
    ∀ as : List α, (traverse k' as).result = (traverse k as).result.map (List.map g')
  | [] => rfl
  | a :: as => result_bind_map (hk a) fun _ => result_bind_map (result_traverse_map hk as) fun _ => rfl

end Outcome

/-- Two scopes in which the same can be said of each source and its renamed one. Neither has an enclosing query. -/
structure Scope.Renames (f : SourceId → SourceId) (s s' : Scope) : Prop where
  schema : s'.schema = s.schema
  styles : s'.styles = s.styles
  reads : s'.workspace.reads = s.workspace.reads.map (Read.rewrite (.ofIds f))
  sources : SourceTable.Renames f s.workspace.sources s'.workspace.sources
  outer : s.outer = .absent
  outer' : s'.outer = .absent

namespace Scope

variable {s s' : Scope}

theorem Renames.readOf (h : s.Renames f s') (id : SourceId) : s'.workspace.readOf? (f id) = s.workspace.readOf? id :=
  congrArg (Option.map SourceEntry.read) (h.sources id)

theorem Renames.isJoin (h : s.Renames f s') (id : SourceId) : s'.workspace.isJoin (f id) = s.workspace.isJoin id := by
  rw [Workspace.isJoin, Workspace.isJoin, Workspace.source?, Workspace.source?, h.sources id]

theorem Renames.read (h : s.Renames f s') (position : ReadId) :
    s'.workspace.read? position = (s.workspace.read? position).map (Read.rewrite (.ofIds f)) := by
  rw [Workspace.read?, Workspace.read?, h.reads, List.getElem?_map]

theorem storedMember_rename (hf : f.Injective) (h : s.Renames f s') (target : Expr) (m : Member) :
    s'.storedMember? (target.rename f) m = (s.storedMember? target m).map (Prod.map id (Expr.rename f)) := by
  rw [storedMember?, storedMember?, Expr.bare_rename, h.schema]
  cases target.bare with
  | source id type =>
    simp only [Expr.rename_source, h.readOf, h.read]
    refine option_bind_map fun entity => option_bind_map fun declared => option_bind_map fun position => ?_
    cases s.workspace.read? position with
    | none => rfl
    | some r =>
      simp only [Option.map_some, Option.bind_eq_bind, Option.bind_some, r.storedProperty_rename hf]
      cases r.storedProperty? declared id <;> rfl
  | _ => rfl

theorem projectedMember_rename (h : s.Renames f s') (target : Expr) (m : Member) :
    s'.projectedMember? (target.rename f) m = (s.projectedMember? target m).map (Expr.rename f) := by
  rw [projectedMember?, projectedMember?, Expr.bare_rename]
  cases target.bare with
  | source id type =>
    simp only [Expr.rename_source, h.readOf, h.read]
    refine option_bind_map fun position => ?_
    cases s.workspace.read? position with
    | none => rfl
    | some r => exact r.memberItem_rename m.key
  | _ => rfl

theorem lowerMember_rename (hf : f.Injective) (h : s.Renames f s') (target : Expr) (m : Member) :
    (s'.lowerMember (target.rename f) m).result = (s.lowerMember target m).result.map (Expr.rename f) := by
  rw [lowerMember, lowerMember, storedMember_rename hf h]
  cases s.storedMember? target m with
  | some found => rfl
  | none =>
    simp only [Option.map_none, Outcome.ofOption, projectedMember_rename h, h.outer, h.outer', OuterQuery.absent,
      Option.or_none]

theorem lowerSource_rename (hf : f.Injective) (h : s.Renames f s') (mode : Mode) (id : SourceId) (type : ValueType) :
    (s'.lowerSource mode (f id) type).result = (s.lowerSource mode id type).result.map (Expr.rename f) := by
  rw [lowerSource, lowerSource, h.isJoin, h.schema]
  split
  · cases s.schema.entityOf? type with
    | none => rfl
    | some entity =>
      have hkey : ∀ key : Property,
          (s'.lowerMember (.source (f id) type) ⟨entity.name, key.name, key.type⟩).result =
            (s.lowerMember (.source id type) ⟨entity.name, key.name, key.type⟩).result.map (Expr.rename f) := by
        intro key
        exact lowerMember_rename hf h (.source id type) _
      rcases hkeys : entity.primaryKey with _ | ⟨key, _ | ⟨key', keys⟩⟩
      · simp only [hkeys]
        rfl
      · simp only [hkeys]
        exact hkey key
      · simp only [hkeys]
        refine Outcome.result_bind_map (Outcome.result_traverse_map hkey _) fun items => ?_
        exact congrArg some (Expr.rename_sequence items).symm
  · rfl

theorem lowerConstant_rename (h : s.Renames f s') (value : Value) (type : ValueType) :
    (s'.lowerConstant value type).result = (s.lowerConstant value type).result.map (Expr.rename f) := by
  rw [lowerConstant, lowerConstant, h.styles]
  split <;> rfl

theorem conditionalTest_rename (test : Expr) : conditionalTest (test.rename f) = (conditionalTest test).rename f := by
  rw [conditionalTest, conditionalTest, Expr.isOneValue_rename]
  split <;> rfl

mutual

/-- The lowering of a renamed expression is the renamed lowering. -/
theorem lower_rename (hf : f.Injective) (h : s.Renames f s') (mode : Mode) : ∀ e : Expr,
    (s'.lower mode (e.rename f)).result = (s.lower mode e).result.map (Expr.rename f)
  | .binary op l r x => by
    simp only [Expr.rename_binary, lower]
    refine Outcome.result_bind_map (lower_rename hf h mode l) fun l => ?_
    exact Outcome.result_bind_map (lower_rename hf h mode r) fun r => Expr.combine_rename op l r x
  | .conditional test ifTrue ifFalse type => by
    simp only [Expr.rename_conditional, lower, Expr.guardedBranch_rename hf]
    have htrue := lower_rename hf h mode ifTrue
    have hfalse := lower_rename hf h mode ifFalse
    cases Expr.guardedBranch? test ifTrue ifFalse with
    | some branch =>
      cases branch with
      | ifTrue => exact htrue
      | ifFalse => exact hfalse
    | none =>
      refine Outcome.result_bind_map (lower_rename hf h mode test) fun test => ?_
      refine Outcome.result_bind_map htrue fun ifTrue => Outcome.result_bind_map hfalse fun ifFalse => ?_
      simp only [Outcome.result_pure, conditionalTest_rename, Option.map_some, Expr.rename_conditional]
  | .member target m => lowerMember_rename hf h target m
  | .source id type => lowerSource_rename hf h mode id type
  | .constant value type => lowerConstant_rename h value type
  | .convert operand type => Outcome.result_bind_map (lower_rename hf h mode operand) fun _ => rfl
  | .not operand => Outcome.result_bind_map (lower_rename hf h mode operand) fun _ => rfl
  | .isNull operand => Outcome.result_bind_map (lower_rename hf h mode operand) fun _ => rfl
  | .sequence items => by
    simp only [Expr.rename_sequence, lower]
    refine Outcome.result_bind_map (lowerAll_rename hf h mode items) fun items => ?_
    exact congrArg some (Expr.rename_sequence items).symm
  | .storage _ => rfl
  | .aliased _ _ => rfl
  | .negate _ | .call .. | .parameter .. | .construct .. | .subquery _ | .extension .. | .read _ => rfl
termination_by structural x => x

theorem lowerAll_rename (hf : f.Injective) (h : s.Renames f s') (mode : Mode) : ∀ es : List Expr,
    (s'.lowerAll mode (es.map (Expr.rename f))).result = (s.lowerAll mode es).result.map (List.map (Expr.rename f))
  | [] => rfl
  | e :: es => by
    simp only [List.map_cons, lowerAll]
    refine Outcome.result_bind_map (lower_rename hf h mode e) fun e => ?_
    exact Outcome.result_bind_map (lowerAll_rename hf h mode es) fun es => rfl
termination_by structural x => x

end

end Scope

/-! ## Plans -/

namespace Progress

variable (p : Progress) (e : Expr) (lowered : Option Expr)

@[simp] theorem rename_read : (p.rename f).read = p.read.rewrite (.ofIds f) := rfl

@[simp] theorem rename_clientRows : (p.rename f).clientRows = p.clientRows := rfl

@[simp] theorem rename_limited : (p.rename f).limited = p.limited := rfl

@[simp] theorem rename_needsEntity : (p.rename f).needsEntity = p.needsEntity := rfl

theorem leave_rename (kind : PartKind) : (p.rename f).leave kind (e.rename f) = (p.leave kind e).rename f := by
  simp only [leave, rename, List.map_append, List.map_singleton, ClientPart.rename]

theorem leaveRows_rename (kind : PartKind) :
    (p.rename f).leaveRows kind (e.rename f) = (p.leaveRows kind e).rename f := by
  rw [leaveRows, leaveRows, leave_rename]
  rfl

theorem leaveEntity_rename (kind : PartKind) :
    (p.rename f).leaveEntity kind (e.rename f) = (p.leaveEntity kind e).rename f := by
  rw [leaveEntity, leaveEntity, leave_rename]
  rfl

theorem filter_renames (kind : PartKind) :
    RenamedRun f (fun p p' => p' = p.rename f) (p.filter kind e lowered)
      ((p.rename f).filter kind (e.rename f) (lowered.map (Expr.rename f))) := by
  unfold filter
  rw [rename_limited]
  split
  · exact .ok (p.leaveRows_rename e kind)
  · cases lowered with
    | none => exact .ok (p.leaveRows_rename e kind)
    | some condition =>
      simp only [Option.map_some, rename_read, Read.restrict_rename]
      cases p.read.restrict? condition with
      | none => exact .error (.unsupported .unattachedPredicate)
      | some read => exact .ok rfl

theorem order_rename (term : SortTerm) :
    (p.rename f).order (term.rewrite (.ofIds f)) (lowered.map (Expr.rename f)) = (p.order term lowered).rename f := by
  obtain ⟨e, descending⟩ := term
  unfold order
  rw [rename_clientRows, rename_limited, SortTerm.rewrite]
  split
  · exact p.leave_rename e .ordering
  · cases lowered with
    | none => exact p.leaveRows_rename e .ordering
    | some bound =>
      have hterm := p.read.addSortTerm_rename (f := f) ⟨bound, descending⟩
      exact congrArg (fun read => ({ p.rename f with read } : Progress)) hterm

theorem take_rename (count : Expr) :
    (p.rename f).take (count.rename f) (lowered.map (Expr.rename f)) = (p.take count lowered).rename f := by
  unfold take
  rw [rename_clientRows]
  split
  · exact p.leave_rename count .limit
  · cases lowered with
    | none => exact p.leaveRows_rename count .limit
    | some bound => simp only [Option.map_some, rename, Read.rename_eq]

theorem skip_rename (count : Expr) :
    (p.rename f).skip (count.rename f) (lowered.map (Expr.rename f)) = (p.skip count lowered).rename f := by
  unfold skip
  rw [rename_clientRows, rename_limited]
  split
  · rw [leave_rename]
    rfl
  · cases lowered with
    | none => exact p.leaveRows_rename count .skip
    | some bound => simp only [Option.map_some, rename, Read.rename_eq]

end Progress

namespace Compiler

variable {c : Compiler} {sources sources' : SourceTable} (p : Progress)

theorem lower_rename (hf : f.Injective) (houter : c.outer = .absent) (h : SourceTable.Renames f sources sources')
    (mode : Mode) (e : Expr) :
    c.lower? sources' (p.rename f) mode (e.rename f) = (c.lower? sources p mode e).map (Expr.rename f) := by
  have hscope : (c.scope sources p.read).Renames f (c.scope sources' (p.rename f).read) :=
    { schema := rfl, styles := rfl, reads := rfl, sources := h, outer := houter, outer' := houter }
  exact Scope.lower_rename hf hscope mode e

theorem returnProperty_rename (hf : f.Injective) (entity : Entity) (source : SourceId) (read : Read)
    (property : Property) :
    returnProperty entity (f source) (read.rewrite (.ofIds f)) property =
      (returnProperty entity source read property).rewrite (.ofIds f) := by
  rw [returnProperty, returnProperty, read.storedProperty_rename hf]
  cases read.storedProperty? ⟨entity.name, property⟩ source with
  | none => rfl
  | some bound => simp only [Option.map_some, read.addItem_rename bound hf]

theorem returnEntity_renames (hf : f.Injective) (main : SourceId) :
    RenamedRun f (fun r r' => r' = r.rewrite (.ofIds f)) (returnEntity main p)
      (returnEntity (f main) (p.rename f)) := by
  simp only [returnEntity, Progress.rename_needsEntity, Progress.rename_read, p.read.nodeOf_rename hf]
  split
  · cases p.read.nodeOf? main with
    | none => exact .error (.unknownSource main)
    | some node => exact .ok (by simp only [Read.rename_eq])
  · exact .ok rfl

/-- A selector that is no reference and constructs no object is returned by the server, or left to the client. -/
theorem select_lowered {e : Expr} (hsource : e.kind ≠ .source) (hconstruct : e.kind ≠ .construct) :
    c.select sources p e = .ok ((c.lower? sources p .result e).elim (p.leaveEntity .projection e)
      fun bound => { p with read := (p.read.addItem bound true).2 }) := by
  cases e with
  | source _ _ => exact absurd rfl hsource
  | construct _ _ => exact absurd rfl hconstruct
  | _ =>
    simp only [select]
    split <;> simp [*]

section Step

variable (hf : f.Injective) (houter : c.outer = .absent) (h : SourceTable.Renames f sources sources')
include hf houter h

theorem bindTerm_rename (term : SortTerm) :
    c.bindTerm sources' (p.rename f) (term.rewrite (.ofIds f)) = (c.bindTerm sources p term).rename f := by
  have hlowered := lower_rename p hf houter h .condition term.expr
  rw [bindTerm, bindTerm, ← p.order_rename, ← hlowered]
  cases term
  rfl

theorem bindClause_renames (clause : QueryClause) :
    RenamedRun f (fun p p' => p' = p.rename f) (c.bindClause sources p clause)
      (c.bindClause sources' (p.rename f) (clause.rewrite (.ofIds f))) := by
  have hlower := lower_rename p hf houter h .condition
  cases clause with
  | filter e =>
    have hfilter := p.filter_renames (f := f) e (c.lower? sources p .condition e) .predicate
    rw [← hlower e] at hfilter
    exact hfilter
  | additional source => exact .ok rfl
  | join join =>
    obtain ⟨source, outer, relationship, outerKey, innerKey⟩ := join
    have hkeyless : RenamedRun f (fun p p' : Progress => p' = p.rename f)
        (.error (.unsupported (.keylessJoin source.itemName)))
        (.error (.unsupported (.keylessJoin (source.rewrite (.ofIds f)).itemName))) := by
      cases source
      exact .error _
    cases relationship with
    | some path => exact .ok rfl
    | none =>
      cases outerKey with
      | none => exact hkeyless
      | some outerKey =>
        cases innerKey with
        | none => exact hkeyless
        | some innerKey =>
          have hfilter := p.filter_renames (f := f) (.plain .equal outerKey innerKey)
            (c.lower? sources p .condition (.plain .equal outerKey innerKey)) .joinCondition
          rw [← hlower] at hfilter
          exact hfilter
  | orderBy terms =>
    refine .ok ?_
    rw [SortTerm.rewriteList_eq_map]
    exact foldl_rename (fun p term => bindTerm_rename p hf houter h term) terms p
  | take count =>
    refine .ok ?_
    rw [← p.take_rename, ← hlower]
    rfl
  | skip count =>
    refine .ok ?_
    rw [← p.skip_rename, ← hlower]
    rfl

theorem selectMember_rename (typeName : String) (m : String × Expr) :
    c.selectMember sources' typeName (p.rename f) (Prod.map id (Expr.rename f) m) =
      (c.selectMember sources typeName p m).rename f := by
  obtain ⟨name, e⟩ := m
  simp only [selectMember, Prod.map, id, Expr.isConstant_rename, lower_rename p hf houter h]
  split
  · exact p.leave_rename e _
  · cases c.lower? sources p .result e with
    | none => exact p.leaveEntity_rename e _
    | some bound =>
      simp only [Option.map_some, Progress.rename, Read.addItem_rename _ _ hf, Read.rename_items, List.getD_map,
        Read.nameMember_rename _ _ hf]

theorem select_renames (e : Expr) :
    RenamedRun f (fun p p' => p' = p.rename f) (c.select sources p e)
      (c.select sources' (p.rename f) (e.rename f)) := by
  have hlowered : e.kind ≠ .source → e.kind ≠ .construct → RenamedRun f (fun p p' => p' = p.rename f)
      (c.select sources p e) (c.select sources' (p.rename f) (e.rename f)) := by
    intro hsource hconstruct
    rw [select_lowered p hsource hconstruct, select_lowered _ (e.kind_rename ▸ hsource) (e.kind_rename ▸ hconstruct),
      lower_rename p hf houter h]
    cases c.lower? sources p .result e with
    | none => exact .ok (p.leaveEntity_rename e .projection)
    | some bound => exact .ok (by simp [Progress.rename, p.read.addItem_rename bound hf])
  cases e with
  | source source type =>
    simp only [Expr.rename_source, select, h source]
    cases Table.find? source sources with
    | none => exact .error (.unknownSource source)
    | some entry =>
      cases c.schema.entityOf? type with
      | none => exact .ok (p.leaveEntity_rename (.source source type) .projection)
      | some entity =>
        refine .ok ?_
        have hread := foldl_rename (g := id) (returnProperty_rename hf entity source) entity.properties p.read
        rw [List.map_id] at hread
        exact congrArg (fun read => ({ p.rename f with read } : Progress)) hread
  | construct typeName members =>
    refine .ok ?_
    rw [Expr.rewriteMembers_eq_map]
    exact foldl_rename (fun p m => selectMember_rename p hf houter h typeName m) members p
  | _ => exact hlowered (by rintro ⟨⟩) (by rintro ⟨⟩)

end Step

theorem plan_renames (hf : f.Injective) (houter : c.outer = .absent) (q : Query) :
    RenamedRun f (fun plan plan' => plan' = plan.rename f) (c.plan q) (c.plan (q.rename f)) := by
  obtain ⟨main, clauses, selector⟩ := q
  have hclauses : (Query.rename f ⟨main, clauses, selector⟩).clauses = clauses.map (QueryClause.rewrite (.ofIds f)) :=
    QueryClause.rewriteList_eq_map _ clauses
  have hmain : (Query.rename f ⟨main, clauses, selector⟩).main.id = f main.id := by cases main; rfl
  rw [plan, plan, hclauses, hmain]
  refine (Layout.ofQuery_renames hf _ main clauses selector).bind fun l l' hl => ?_
  have hbound : RenamedRun f (fun p p' => p' = p.rename f) (clauses.foldlM (c.bindClause l.sources) { read := l.read })
      ((clauses.map (QueryClause.rewrite (.ofIds f))).foldlM (c.bindClause l'.sources) { read := l'.read }) := by
    refine RenamedRun.foldlM ?_ clauses _ _ (congrArg (fun read => ({ read } : Progress)) hl.read)
    rintro clause p _ rfl
    exact bindClause_renames p hf houter hl.sources clause
  refine hbound.bind ?_
  rintro p _ rfl
  refine (select_renames p hf houter hl.sources selector).bind ?_
  rintro selected _ rfl
  refine (returnEntity_renames selected hf main.id).bind ?_
  rintro read _ rfl
  exact .ok rfl

theorem passes_rename (passes : List ReadPass) (huniform : ∀ pass ∈ passes, ReadPass.Uniform f pass) (r : Read) :
    passes.foldlM (fun (r : Read) (pass : ReadPass) => pass r) (r.rewrite (.ofIds f)) =
      (passes.foldlM (fun (r : Read) (pass : ReadPass) => pass r) r).map (Read.rewrite (.ofIds f)) := by
  induction passes generalizing r with
  | nil => rfl
  | cons pass passes ih =>
    rw [List.foldlM_cons, List.foldlM_cons, huniform pass List.mem_cons_self r]
    cases pass r with
    | error cause => rfl
    | ok changed => exact ih (fun other hother => huniform other (List.mem_cons_of_mem pass hother)) changed

theorem finish_rename (hpasses : ∀ pass ∈ c.passes, ReadPass.Uniform f pass) (r : Read) :
    c.finish (r.rewrite (.ofIds f)) = (c.finish r).map (Read.rewrite (.ofIds f)) := by
  rw [finish, finish, Read.check_rename]
  cases r.check with
  | error cause => rfl
  | ok _ => exact passes_rename c.passes hpasses r

/-- Injective renaming of the sources changes nothing but the ids: the renamed query fails if and only if the query
does, for the renamed cause, and else has the same text, parameters and columns, and the renamed expressions are left
to the client. -/
theorem compile_rename (hf : f.Injective) (houter : c.outer = .absent)
    (hpasses : ∀ pass ∈ c.passes, ReadPass.Uniform f pass) (q : Query) :
    c.compile (q.rename f) = ((c.compile q).map (CompiledQuery.rename f)).mapError (CompileError.rename f) := by
  refine RenamedRun.eq_map ?_
  rw [compile, compile]
  have hsettings : RenamedRun f (fun a b => b = id a) (c.settings.check.mapError CompileError.invalidSettings)
      (c.settings.check.mapError CompileError.invalidSettings) := by
    exact .ofCause (fun _ => rfl) (congrFun Except.map_id c.settings.check).symm
  refine hsettings.bind fun _ _ _ => (plan_renames hf houter q).bind ?_
  rintro plan _ rfl
  have hfinished : RenamedRun f (fun r r' => r' = r.rewrite (.ofIds f)) ((c.finish plan.read).mapError .invalidRead)
      ((c.finish (plan.rename f).read).mapError .invalidRead) :=
    .ofCause (fun _ => rfl) (finish_rename hpasses plan.read)
  refine hfinished.bind ?_
  rintro read _ rfl
  have hrendered : RenamedRun f (fun a b => b = id a) ((c.generator.render read).mapError .render)
      ((c.generator.render (read.rewrite (.ofIds f))).mapError .render) := by
    refine .ofCause (fun _ => rfl) ?_
    rw [Generator.render_rename]
    exact (congrFun Except.map_id _).symm
  refine hrendered.bind ?_
  rintro rendered _ rfl
  refine .ok ?_
  rw [Read.columnTypes_rename]
  rfl

/-- The pass that gives up the order of the rows. -/
def unordered : ReadPass := fun r =>
  .ok { r with orderings := [] }

theorem unordered_uniform : ReadPass.Uniform f unordered := by
  intro r
  simp only [unordered, Read.rename_eq, Except.map, List.map_nil]

/-- The bays of the shelves whose row is the size of a warehouse, in the order of that size, with a condition that only
the client can test. -/
def baysBySize : Query :=
  let warehouse : Source := ⟨⟨0⟩, "w", .entitySet "Warehouse"⟩
  let shelf : Source := ⟨⟨1⟩, "v", .entitySet "Shelf"⟩
  { main := warehouse
    clauses := [
      .join ⟨shelf, warehouse.id, none, some (warehouse.member "Size" .int32), some (shelf.member "Row" .int32)⟩,
      .orderBy [⟨warehouse.member "Size" .int32, false⟩],
      .filter (.plain .lessThan (.negate (shelf.member "Bay" .int32)) (warehouse.member "Size" .int32))]
    selector := shelf.member "Bay" .int32 }

/-- The two sources exchange their ids, so their order by id is not the one in which they come. -/
theorem compile_rename_of_baysBySize :
    let c : Compiler := { schema := storeSchema, passes := [unordered] }
    let f := Equiv.swap (⟨0⟩ : SourceId) ⟨1⟩
    unordered ∈ c.passes ∧ ReadPass.Uniform f unordered ∧ (baysBySize.rename f).main.id = ⟨1⟩ ∧
      ∃ compiled, c.compile baysBySize = .ok compiled ∧ compiled.clientParts.length = 1 ∧
        c.compile (baysBySize.rename f) = .ok (compiled.rename f) := by
  intro c f
  have hparts : (c.compile baysBySize).toOption.map (fun compiled => compiled.clientParts.length) = some 1 := by
    decide +kernel
  have hpasses : ∀ pass ∈ c.passes, ReadPass.Uniform f pass := by
    intro pass hpass
    rw [List.mem_singleton.1 hpass]
    exact unordered_uniform
  have hrename := compile_rename f.injective rfl hpasses baysBySize
  refine ⟨List.mem_singleton_self unordered, unordered_uniform, rfl, ?_⟩
  cases hcompiled : c.compile baysBySize with
  | error cause =>
    rw [hcompiled] at hparts
    cases hparts
  | ok compiled =>
    rw [hcompiled] at hparts hrename
    exact ⟨compiled, rfl, Option.some.inj hparts, hrename⟩

end Compiler

end GraphQuery
