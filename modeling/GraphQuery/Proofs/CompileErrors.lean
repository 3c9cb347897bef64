import GraphQuery.Compile.Compiled
import GraphQuery.Proofs.Binding
import GraphQuery.Proofs.ServerRead

/-!
# The errors of compilation

A front-end expression holds no stored property, no output name and no read: those belong to what a query is compiled
to. Front-end expressions are lowered to expressions for the server, so the read of a plan is one for the server at
every stage. Compiled without an enclosing query, with the standard styles and without further passes, such a query
therefore never yields an ill-formed read, and of the errors of rendering only a name that is no identifier and a tuple
remain (`Compiler.compile_fails`).
-/

namespace GraphQuery

/-- A node that a front end may use. -/
def Expr.isFrontEnd : Expr → Bool
  | .storage _ | .aliased _ _ | .read _ => false
  | _ => true

/-- The errors that remain when the read of a query is for the server: none about the form of the read, and few about
its text. -/
def CompileError.Remains (tuples : Bool) : CompileError → Prop
  | .invalidRead _ => False
  | .render cause => cause.Remains tuples
  | _ => True

theorem CompileError.IsShape.remains {e : CompileError} (h : e.IsShape) {tuples : Bool} : e.Remains tuples := by
  cases e with
  | invalidRead _ => exact h.elim
  | render _ => exact h.elim
  | _ => trivial

/-- All expressions of a query are front-end expressions. -/
def Query.IsFrontEnd (q : Query) : Prop :=
  ∀ n ∈ q.nodes, n.isFrontEnd = true

namespace Compiler

variable {c : Compiler} {sources : SourceTable} {tuples : Bool} {p p' : Progress}

/-! ## Lowering against a read for the server -/

/-- A node that is lowered within the expressions for the server, whatever the state of the read. -/
def Admits (c : Compiler) (sources : SourceTable) (tuples : Bool) (n : Expr) : Prop :=
  ∀ r, (c.scope sources r).Admits (Expr.IsServerNode tuples) n

theorem scope_read {r r' : Read} {id : ReadId} (h : (c.scope sources r).workspace.read? id = some r') : r' = r := by
  have hmem : r' ∈ [r] := List.mem_of_getElem? h
  exact List.mem_singleton.1 hmem

/-- What a read gives for member accesses is what it stores and what it returns, if there is no enclosing query. -/
theorem scope_within_of (houter : c.outer = .absent) {v : Expr → Prop} {r : Read}
    (hstored : ∀ {declared source e}, r.storedProperty? declared source = some e → e.AllNodes v)
    (hprojected : ∀ {key e}, Table.find? key r.projections = some e → e.AllNodes v) :
    (c.scope sources r).Within v :=
  .of_reads houter (fun hr h => hstored (scope_read hr ▸ h)) fun hr h => hprojected (scope_read hr ▸ h)

theorem scope_within (houter : c.outer = .absent) {r : Read} (hr : r.IsServer tuples) :
    (c.scope sources r).Within (Expr.IsServerNode tuples) :=
  scope_within_of houter hr.storedProperty hr.projections

/-- Within a read for the server, an admitted expression is lowered to one for the server. -/
theorem lower_server (houter : c.outer = .absent) (hp : p.read.IsServer tuples) {mode : Mode} {e e' : Expr}
    (he : e.AllNodes (c.Admits sources tuples)) (h : c.lower? sources p mode e = some e') : e'.IsServer tuples :=
  Scope.lower_allNodes (Vocabulary.server tuples) (scope_within houter hp) mode e
    (Expr.AllNodes.imp he fun _ hn => hn p.read) h

end Compiler

/-! ## Steps of a plan -/

namespace Progress

variable {tuples : Bool} {p p' : Progress} {e : Expr} {lowered : Option Expr}

theorem filter_server (hp : p.read.IsServer tuples) (hlowered : ∀ e' ∈ lowered, e'.IsServer tuples)
    {kind : PartKind} (h : p.filter kind e lowered = .ok p') : p'.read.IsServer tuples := by
  obtain ⟨-, rfl⟩ | ⟨condition, read, -, hcondition, hread, rfl⟩ := filter_cases h
  · exact hp
  · exact hp.restrict (hlowered condition hcondition) hread

theorem order_server (hp : p.read.IsServer tuples) (hlowered : ∀ e' ∈ lowered, e'.IsServer tuples)
    (term : SortTerm) : (p.order term lowered).read.IsServer tuples := by
  obtain ⟨-, h⟩ | ⟨-, h⟩ | ⟨e', ⟨-, -, he'⟩, h⟩ := p.order_cases term lowered
  · rw [h]; exact hp
  · rw [h]; exact hp
  · rw [h]; exact hp.addSortTerm (hlowered e' he')

theorem take_server (hp : p.read.IsServer tuples) (hlowered : ∀ e' ∈ lowered, e'.IsServer tuples) (count : Expr) :
    (p.take count lowered).read.IsServer tuples := by
  obtain ⟨-, h⟩ | ⟨-, e', he', h⟩ := p.take_cases count lowered
  · rw [h.read]; exact hp
  · rw [h]; exact hp.withLimit (hlowered e' he')

theorem skip_server (hp : p.read.IsServer tuples) (hlowered : ∀ e' ∈ lowered, e'.IsServer tuples) (count : Expr) :
    (p.skip count lowered).read.IsServer tuples := by
  obtain ⟨-, h⟩ | ⟨-, -, e', he', h⟩ := p.skip_cases count lowered
  · rw [h.read]; exact hp
  · rw [h]; exact hp.withSkip (hlowered e' he')

end Progress

namespace Compiler

section Server

variable {c : Compiler} {sources : SourceTable} {tuples : Bool} {p p' : Progress} (houter : c.outer = .absent)

include houter

theorem bindTerm_server (hp : p.read.IsServer tuples) {term : SortTerm}
    (h : term.expr.AllNodes (c.Admits sources tuples)) : (c.bindTerm sources p term).read.IsServer tuples :=
  p.order_server hp (fun _ he => lower_server houter hp h he) term

theorem bindClause_server (hp : p.read.IsServer tuples) {clause : QueryClause}
    (h : ∀ n ∈ clause.nodes, c.Admits sources tuples n) (hbind : c.bindClause sources p clause = .ok p') :
    p'.read.IsServer tuples := by
  cases clause with
  | filter e => exact p.filter_server hp (fun _ he => lower_server houter hp (fun n hn => h n hn) he) hbind
  | additional _ => cases hbind; exact hp
  | join join =>
    obtain ⟨source, outer, relationship, outerKey, innerKey⟩ := join
    simp only [QueryClause.nodes, Join.nodes, List.mem_append] at h
    simp only [bindClause] at hbind
    split at hbind
    · cases hbind; exact hp
    · rename_i outerKey innerKey
      have hkeys : (Expr.plain .equal outerKey innerKey).AllNodes (c.Admits sources tuples) :=
        Expr.allNodes_binary.2 ⟨fun _ => trivial, fun n hn => h n (.inr (.inl hn)), fun n hn => h n (.inr (.inr hn))⟩
      exact p.filter_server hp (fun _ he => lower_server houter hp hkeys he) hbind
    · cases hbind
  | orderBy terms =>
    cases hbind
    refine List.foldlRecOn (motive := fun p : Progress => p.read.IsServer tuples) terms _ hp fun p hp t ht => ?_
    exact bindTerm_server houter hp fun n hn => h n (SortTerm.mem_nodesOfList.2 ⟨t, ht, hn⟩)
  | take count =>
    cases hbind
    exact p.take_server hp (fun _ he => lower_server houter hp (fun n hn => h n hn) he) count
  | skip count =>
    cases hbind
    exact p.skip_server hp (fun _ he => lower_server houter hp (fun n hn => h n hn) he) count

theorem selectMember_server (hp : p.read.IsServer tuples) (typeName : String) {m : String × Expr}
    (h : m.2.AllNodes (c.Admits sources tuples)) : (c.selectMember sources typeName p m).read.IsServer tuples := by
  unfold selectMember
  split
  · exact hp
  · split
    · rename_i bound hbound
      have hbound := lower_server houter hp h hbound
      have hread := hp.addItem hbound true
      refine hread.nameMember ?_ _
      -- The named item is one of the read, or the expression itself.
      rw [List.getD_eq_getElem?_getD]
      cases hitem : (p.read.addItem bound true).2.items[(p.read.addItem bound true).1]? with
      | none => exact Read.IsServer.unaliased hbound
      | some item => exact hread.items item (List.mem_of_getElem? hitem)
    · exact hp

omit houter in
theorem returnProperty_server (entity : Entity) (source : SourceId) (property : Property) {r : Read}
    (hr : r.IsServer tuples) : (returnProperty entity source r property).IsServer tuples := by
  unfold returnProperty
  split
  · rename_i bound hbound
    exact hr.addItem (hr.storedProperty hbound) true
  · exact hr

theorem select_server (hp : p.read.IsServer tuples) {selector : Expr}
    (h : selector.AllNodes (c.Admits sources tuples)) (hselect : c.select sources p selector = .ok p') :
    p'.read.IsServer tuples := by
  unfold select at hselect
  split at hselect
  · split at hselect
    · cases hselect
    · split at hselect
      · cases hselect; exact hp
      · cases hselect
        exact List.foldlRecOn (motive := Read.IsServer tuples) _ _ hp fun r hr property _ =>
          returnProperty_server _ _ property hr
  · rename_i typeName members
    cases hselect
    refine List.foldlRecOn (motive := fun p : Progress => p.read.IsServer tuples) members _ hp fun p hp m hm => ?_
    refine selectMember_server houter hp typeName fun n hn => h n ?_
    rw [Expr.nodes]
    exact List.mem_cons_of_mem _ (Expr.mem_nodesOfMembers.2 ⟨m, hm, hn⟩)
  · split at hselect
    · rename_i bound hbound
      cases hselect
      exact hp.addItem (lower_server houter hp h hbound) true
    · cases hselect; exact hp

omit houter in
theorem returnEntity_server (hp : p.read.IsServer tuples) {main : SourceId} {r : Read}
    (h : returnEntity main p = .ok r) : r.IsServer tuples := by
  unfold returnEntity at h
  split at h
  · split at h
    · rename_i node hnode
      cases h
      exact hp.withStar (hp.nodeOf_named hnode)
    · cases h
  · cases h; exact hp

end Server

/-- The read of a layout is for the server. -/
theorem layout_server {aliasPrefix : String} {q : Query} {l : Layout} (h : l.WF aliasPrefix q) (tuples : Bool) :
    l.read.IsServer tuples := by
  rw [h.read]
  exact {
    clauses := by
      intro c hc
      obtain ⟨source, pattern, rfl, hp⟩ := h.clauses c hc
      exact ⟨hp, fun e he => nomatch he⟩
    items := fun e he => nomatch he
    names := List.nodup_nil
    orderings := fun t ht => nomatch ht
    limit := fun e he => nomatch he
    skip := fun e he => nomatch he
    projections := fun hfind => nomatch hfind
    starNode := fun node hnode => nomatch hnode
    star := fun hstar => nomatch hstar }

/-- Binding clauses whose nodes are admitted makes a read for the server. -/
theorem bindClauses_server {c : Compiler} (houter : c.outer = .absent) {tuples : Bool} {aliasPrefix : String}
    {q : Query} {l : Layout} {p : Progress} (hl : l.WF aliasPrefix q) (hq : ∀ n ∈ q.nodes, c.Admits l.sources tuples n)
    (h : q.clauses.foldlM (c.bindClause l.sources) { read := l.read } = .ok p) : p.read.IsServer tuples :=
  Run.foldlM_keeps (fun p : Progress => p.read.IsServer tuples)
    (fun _ hc _ _ hp hbind => bindClause_server houter hp (fun n hn => hq n (Query.mem_nodes_of_clause hc hn)) hbind)
    (layout_server hl tuples) h

/-- The read of a plan is for the server when the nodes of the query are admitted. -/
theorem plan_server {c : Compiler} (houter : c.outer = .absent) {tuples : Bool} {q : Query} {plan : Plan}
    (hq : ∀ l, Layout.ofQuery c.schema c.settings.binding.defaultAliasPrefix q = .ok l →
      ∀ n ∈ q.nodes, c.Admits l.sources tuples n)
    (h : c.plan q = .ok plan) : plan.read.IsServer tuples := by
  obtain ⟨l, hl, h⟩ := Run.bind_eq_ok.1 h
  obtain ⟨bound, hbound, h⟩ := Run.bind_eq_ok.1 h
  obtain ⟨selected, hselected, h⟩ := Run.bind_eq_ok.1 h
  obtain ⟨r, hr, h⟩ := Run.bind_eq_ok.1 h
  cases h
  have hnodes := hq l hl
  have hbound' : bound.read.IsServer tuples := bindClauses_server houter (Layout.ofQuery_wf hl) hnodes hbound
  have hselected' : selected.read.IsServer tuples :=
    select_server houter hbound' (fun n hn => hnodes n (Query.mem_nodes_of_selector hn)) hselected
  exact returnEntity_server hselected' hr

/-! ## Errors -/

theorem filter_fails (p : Progress) (kind : PartKind) (e : Expr) (lowered : Option Expr) :
    Run.FailsOnly CompileError.IsShape (p.filter kind e lowered) := by
  unfold Progress.filter
  split
  · exact .ok _
  · split
    · split
      · exact .ok _
      · exact .error trivial
    · exact .ok _

theorem bindClause_fails (c : Compiler) (sources : SourceTable) (p : Progress) (clause : QueryClause) :
    Run.FailsOnly CompileError.IsShape (c.bindClause sources p clause) := by
  cases clause with
  | filter e => exact filter_fails p _ _ _
  | join join =>
    simp only [bindClause]
    split
    · exact .ok _
    · exact filter_fails p _ _ _
    · exact .error trivial
  | _ => exact .ok _

theorem select_fails (c : Compiler) (sources : SourceTable) (p : Progress) (selector : Expr) :
    Run.FailsOnly CompileError.IsShape (c.select sources p selector) := by
  unfold select
  split
  · split
    · exact .error trivial
    · split
      · exact .ok _
      · exact .ok _
  · exact .ok _
  · split
    · exact .ok _
    · exact .ok _

theorem returnEntity_fails (main : SourceId) (p : Progress) :
    Run.FailsOnly CompileError.IsShape (returnEntity main p) := by
  unfold returnEntity
  split
  · split
    · exact .ok _
    · exact .error trivial
  · exact .ok _

/-- A plan fails only for the shape of the query. -/
theorem plan_fails (c : Compiler) (q : Query) : Run.FailsOnly CompileError.IsShape (c.plan q) :=
  (Layout.ofQuery_fails _ _ q).bind fun _ _ =>
    (Run.FailsOnly.foldlM fun clause _ p => bindClause_fails c _ p clause).bind fun bound _ =>
      (select_fails c _ bound _).bind fun selected _ => (returnEntity_fails _ selected).bind fun _ _ => .pure _

/-- When the read of every plan is for the server, compilation without passes never fails for an ill-formed read, and
fails to write it only with an error that remains. -/
theorem compile_fails {c : Compiler} (hstyles : c.styles = .standard) (hpasses : c.passes = []) {tuples : Bool}
    {q : Query} (hplan : ∀ plan, c.plan q = .ok plan → plan.read.IsServer tuples) :
    Run.FailsOnly (CompileError.Remains tuples) (c.compile q) := by
  intro e he
  rcases Run.bind_eq_error.1 he with he | ⟨_, _, he⟩
  · obtain ⟨cause, _, rfl⟩ := Run.mapError_eq_error.1 he
    trivial
  rcases Run.bind_eq_error.1 he with he | ⟨plan, hok, he⟩
  · exact (plan_fails c q e he).remains
  have hserver := hplan plan hok
  have hfinish : c.finish plan.read = .ok plan.read := by
    rw [finish, hserver.check, hpasses]
    rfl
  rcases Run.bind_eq_error.1 he with he | ⟨read, hread, he⟩
  · obtain ⟨cause, hcause, -⟩ := Run.mapError_eq_error.1 he
    rw [hfinish] at hcause
    cases hcause
  rw [Run.mapError_eq_ok, hfinish] at hread
  cases hread
  rcases Run.bind_eq_error.1 he with he | ⟨_, _, he⟩
  · obtain ⟨cause, hcause, rfl⟩ := Run.mapError_eq_error.1 he
    have hgenerator : c.generator.styles = .standard := hstyles
    exact Generator.render_fails hgenerator hserver cause hcause
  · exact absurd he Run.pure_ne_error

/-! ## Front-end queries -/

theorem scope_admits_of_frontEnd {s : Scope} {v : Expr → Prop} (htuple : ∀ items, v (.sequence items)) {n : Expr}
    (h : n.isFrontEnd = true) : s.Admits v n := by
  cases n with
  | storage _ => cases h
  | aliased _ _ => cases h
  | read _ => cases h
  | sequence _ => exact htuple
  | source _ _ => exact fun _ _ _ => .inr htuple
  | _ => trivial

theorem admits_of_frontEnd (c : Compiler) (sources : SourceTable) {n : Expr} (h : n.isFrontEnd = true) :
    c.Admits sources true n :=
  fun _ => scope_admits_of_frontEnd (fun _ => rfl) h

/-- A node that gives no tuple: it is none, and a reference to a joined item names an entity with at most one key. -/
theorem admits_of_no_tuple {c : Compiler} {aliasPrefix : String} {q : Query} {l : Layout} (hl : l.WF aliasPrefix q)
    {n : Expr} (h : n.isFrontEnd = true) (hseq : n.kind ≠ .sequence)
    (hkeys : ∀ id type entity, n = .source id type → q.Joins id → c.schema.entityOf? type = some entity →
      entity.primaryKey.length ≤ 1) : c.Admits l.sources false n := by
  intro r
  cases n with
  | storage _ => cases h
  | aliased _ _ => cases h
  | read _ => cases h
  | sequence _ => exact absurd rfl hseq
  | source id type =>
    intro hjoin entity hentity
    have hjoins : q.Joins id := by
      unfold Workspace.isJoin at hjoin
      split at hjoin
      · rename_i entry hfind
        exact (hl.sources hfind).2 (of_decide_eq_true hjoin)
      · cases hjoin
    exact .inl (hkeys id type entity rfl hjoins hentity)
  | _ => trivial

/-- Compiling a query of front-end expressions with the standard styles, no enclosing query and no further passes
never finds the read ill formed, and fails to write it only for a name that is no identifier or for a tuple. The
tuple is excluded when the query holds none and no reference to a joined item has the type of an entity with several
keys. -/
theorem compile_error_of_frontEnd (c : Compiler) (hstyles : c.styles = .standard) (houter : c.outer = .absent)
    (hpasses : c.passes = []) (q : Query) (hq : q.IsFrontEnd) :
    (∀ cause, c.compile q ≠ .error (.invalidRead cause)) ∧
    (∀ cause, c.compile q = .error (.render cause) →
      (∃ name, cause = .invalidIdentifier name) ∨ cause = .unsupportedExpression .sequence) ∧
    ((∀ n ∈ q.nodes, n.kind ≠ .sequence) →
      (∀ id type entity, .source id type ∈ q.nodes → q.Joins id → c.schema.entityOf? type = some entity →
        entity.primaryKey.length ≤ 1) →
      ∀ cause, c.compile q = .error (.render cause) → ∃ name, cause = .invalidIdentifier name) := by
  have hfails := compile_fails hstyles hpasses fun plan hplan =>
    plan_server houter (fun l _ n hn => admits_of_frontEnd c l.sources (hq n hn)) hplan
  refine ⟨fun cause he => hfails (.invalidRead cause) he, fun cause he => ?_, fun hseq hkeys cause he => ?_⟩
  · have hremains : cause.Remains true := hfails (.render cause) he
    exact hremains.cases.imp_right And.right
  · -- Without tuples the read of the plan holds none either.
    have hplain := compile_fails hstyles hpasses fun plan hplan =>
      plan_server houter (fun l hl n hn => admits_of_no_tuple (Layout.ofQuery_wf hl) (hq n hn) (hseq n hn)
        fun id type entity h => hkeys id type entity (h ▸ hn)) hplan
    have hremains : cause.Remains false := hplain (.render cause) he
    rcases hremains.cases with hname | ⟨hfalse, -⟩
    · exact hname
    · cases hfalse

/-! ## Two queries -/

/-- Warehouses with one key and shelves with two. -/
def storeSchema : Schema where
  entities := [
    { name := "Warehouse"
      properties := [⟨"Id", .int64, none, none⟩, ⟨"Size", .int32, none, none⟩]
      keyNames := ["Id"] },
    { name := "Shelf"
      properties := [⟨"Row", .int32, none, none⟩, ⟨"Bay", .int32, none, none⟩]
      keyNames := ["Row", "Bay"] }]

/-- Warehouses joined with themselves on their keys and ordered by the joined item, which is referred to as an item of
the given entity. -/
def joinedWarehouses (joinedName joinedEntity : String) : Query :=
  let first : Source := ⟨⟨0⟩, "w", .entitySet "Warehouse"⟩
  let second : Source := ⟨⟨1⟩, joinedName, .entitySet "Warehouse"⟩
  { main := first
    clauses := [
      .join ⟨second, first.id, none, some (first.member "Id" .int64), some (second.member "Id" .int64)⟩,
      .orderBy [⟨.source second.id (.entity joinedEntity), false⟩]]
    selector := first.reference }

/-- The joined warehouses under a name that is no identifier fail for that name. -/
theorem compile_error_of_joinedWarehouses :
    (Compiler.mk storeSchema {} .standard .absent [] []).compile (joinedWarehouses "2nd" "Warehouse") =
      .error (.render (.invalidIdentifier "2nd")) ∧
    ∀ cause, (Compiler.mk storeSchema {} .standard .absent [] []).compile (joinedWarehouses "2nd" "Warehouse") =
      .error (.render cause) → ∃ name, cause = .invalidIdentifier name := by
  refine ⟨rfl, (compile_error_of_frontEnd _ rfl rfl rfl _ ?_).2.2 (by decide) ?_⟩
  · unfold Query.IsFrontEnd
    decide
  · intro id type entity hn _ hentity
    have htype : ∀ n ∈ (joinedWarehouses "2nd" "Warehouse").nodes, n.kind = .source →
        n.type = .entity "Warehouse" := by decide
    cases htype _ hn rfl
    cases hentity
    decide

/-- A reference to a joined item by the type of another entity gives the tuple of that entity's keys, although the
joined entity has one key and the query holds no tuple. -/
theorem joined_reference_by_other_type :
    (joinedWarehouses "v" "Shelf").IsFrontEnd ∧
    (∀ n ∈ (joinedWarehouses "v" "Shelf").nodes, n.kind ≠ .sequence) ∧
    (∀ join, .join join ∈ (joinedWarehouses "v" "Shelf").clauses →
      ∀ entity, storeSchema.entityOf? join.source.itemType = some entity → entity.primaryKey.length ≤ 1) ∧
    Settings.check {} = .ok () ∧
    (Compiler.mk storeSchema {} .standard .absent [] []).compile (joinedWarehouses "v" "Shelf") =
      .error (.render (.unsupportedExpression .sequence)) := by
  refine ⟨?_, by decide, ?_, rfl, rfl⟩
  · unfold Query.IsFrontEnd
    decide
  · intro join hjoin entity hentity
    simp only [joinedWarehouses, List.mem_cons, QueryClause.join.injEq, reduceCtorEq, List.not_mem_nil,
      or_false] at hjoin
    subst hjoin
    cases hentity
    decide

end Compiler

end GraphQuery
