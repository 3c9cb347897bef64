import GraphQuery.Lowering.Layout
import GraphQuery.Proofs.Runs

/-!
# What a layout holds

The read of a layout has one pattern for each source, without a condition and with aliases at both ends, and nothing
else yet. The clause of the main source comes first. Every source is read there, and a source counts as joined only if
a join of the query introduces it.
-/

namespace GraphQuery

/-- Whether a join of a query introduces the source. -/
def Query.Joins (q : Query) (id : SourceId) : Prop :=
  ∃ join, QueryClause.join join ∈ q.clauses ∧ join.source.id = id

/-- Both ends of a pattern have an alias. -/
def Pattern.IsNamed (p : Pattern) : Prop :=
  p.start.name.isSome = true ∧ p.terminal.name.isSome = true

/-- The errors that the shape of a query causes, whatever becomes of its read. -/
def CompileError.IsShape : CompileError → Prop
  | .unknownEntity _ | .unknownSource _ | .unsupported _ => True
  | _ => False

namespace Layout

/-- What holds of the layout of a query at every stage. -/
structure WF (aliasPrefix : String) (q : Query) (l : Layout) : Prop where
  read : l.read = { Read.empty aliasPrefix with clauses := l.read.clauses }
  clauses : ∀ c ∈ l.read.clauses, ∃ source pattern, c = .pattern (.ofSource source pattern) ∧ pattern.IsNamed
  main : ∃ c rest, l.read.clauses = c :: rest ∧ c.source? = some q.main.id
  sources : ∀ {id entry}, Table.find? id l.sources = some entry →
    entry.read = mainRead ∧ (entry.role = .join → q.Joins id)

variable {schema : Schema} {aliasPrefix : String} {q : Query} {l l' : Layout} {source : Source} {role : SourceRole}

/-- The node of a source is named after its items. -/
theorem nodeOf_named {node : Node} (h : schema.nodeOf source = .ok node) : node.name.isSome = true := by
  unfold Schema.nodeOf at h
  split at h
  · split at h
    · cases h; rfl
    · cases h
  · cases h

theorem find?_addSource {id : SourceId} {entry : SourceEntry} {pattern : Pattern}
    (h : Table.find? id (l.addSource source role pattern).sources = some entry) :
    (id = source.id ∧ entry = ⟨mainRead, role, source.itemName, source.itemType⟩) ∨
      Table.find? id l.sources = some entry := by
  by_cases hid : id = source.id
  · subst hid
    rw [addSource, Table.find?_insert_self] at h
    cases h
    exact Or.inl ⟨rfl, rfl⟩
  · rw [addSource, Table.find?_insert_of_ne _ _ hid] at h
    exact Or.inr h

theorem WF.addSource (h : l.WF aliasPrefix q) {pattern : Pattern} (hp : pattern.IsNamed)
    (hj : role = .join → q.Joins source.id) : (l.addSource source role pattern).WF aliasPrefix q := by
  obtain ⟨c, rest, hmain, hc⟩ := h.main
  refine ⟨?_, ?_, ⟨c, rest ++ [.pattern (.ofSource source.id pattern)], ?_, hc⟩, ?_⟩
  · simp only [Layout.addSource, Read.addClause]
    rw [h.read]
  · intro c hc
    rcases List.mem_append.1 hc with hc | hc
    · exact h.clauses c hc
    · exact ⟨source.id, pattern, List.mem_singleton.1 hc, hp⟩
  · simp [Layout.addSource, Read.addClause, hmain]
  · intro id entry hfind
    rcases find?_addSource hfind with ⟨rfl, rfl⟩ | hfind
    · exact ⟨rfl, hj⟩
    · exact h.sources hfind

theorem WF.addEntity (h : l.WF aliasPrefix q) (hj : role = .join → q.Joins source.id)
    (hadd : l.addEntity schema source role = .ok l') : l'.WF aliasPrefix q := by
  obtain ⟨node, hnode, hadd⟩ := Run.bind_eq_ok.1 hadd
  cases hadd
  exact h.addSource ⟨nodeOf_named hnode, nodeOf_named hnode⟩ hj

theorem WF.addJoin (h : l.WF aliasPrefix q) {join : Join} (hj : q.Joins join.source.id)
    (hadd : l.addJoin schema join = .ok l') : l'.WF aliasPrefix q := by
  unfold Layout.addJoin at hadd
  split at hadd
  · exact h.addEntity (fun _ => hj) hadd
  · split at hadd
    · cases hadd
    · obtain ⟨node, hnode, hadd⟩ := Run.bind_eq_ok.1 hadd
      cases hadd
      exact h.addSource ⟨rfl, nodeOf_named hnode⟩ fun _ => hj

theorem WF.addClause (h : l.WF aliasPrefix q) {clause : QueryClause} (hc : clause ∈ q.clauses)
    (hadd : l.addClause schema clause = .ok l') : l'.WF aliasPrefix q := by
  cases clause with
  | additional source =>
    have hrole : SourceRole.additional = .join → q.Joins source.id := fun hrole => nomatch hrole
    exact h.addEntity hrole hadd
  | join join => exact h.addJoin ⟨join, hc, rfl⟩ hadd
  | filter _ => cases hadd; exact h
  | orderBy _ => cases hadd; exact h
  | take _ => cases hadd; exact h
  | skip _ => cases hadd; exact h

/-- The layout of a query is well formed. -/
theorem ofQuery_wf (h : ofQuery schema aliasPrefix q = .ok l) : l.WF aliasPrefix q := by
  obtain ⟨first, hfirst, h⟩ := Run.bind_eq_ok.1 h
  obtain ⟨node, hnode, hfirst⟩ := Run.bind_eq_ok.1 hfirst
  cases hfirst
  refine Run.foldlM_keeps (WF aliasPrefix q) (fun c hc l l' hl => hl.addClause hc) ?_ h
  -- The clause of the main source alone.
  refine ⟨rfl, ?_, ⟨_, [], rfl, rfl⟩, ?_⟩
  · intro c hc
    exact ⟨q.main.id, ⟨node, []⟩, List.mem_singleton.1 hc, nodeOf_named hnode, nodeOf_named hnode⟩
  · intro id entry hfind
    rcases find?_addSource hfind with ⟨rfl, rfl⟩ | hfind
    · exact ⟨rfl, fun hrole => nomatch hrole⟩
    · cases hfind

/-! ## Errors -/

theorem nodeOf_fails (source : Source) : Run.FailsOnly CompileError.IsShape (schema.nodeOf source) := by
  unfold Schema.nodeOf
  split
  · split
    · exact .ok _
    · exact .error trivial
  · exact .error trivial

theorem addEntity_fails (source : Source) (role : SourceRole) (l : Layout) :
    Run.FailsOnly CompileError.IsShape (l.addEntity schema source role) :=
  (nodeOf_fails source).bind fun _ _ => .pure _

theorem addJoin_fails (join : Join) (l : Layout) : Run.FailsOnly CompileError.IsShape (l.addJoin schema join) := by
  unfold addJoin
  split
  · exact addEntity_fails _ _ _
  · split
    · exact .error trivial
    · exact (nodeOf_fails _).bind fun _ _ => .pure _

theorem addClause_fails (clause : QueryClause) (l : Layout) :
    Run.FailsOnly CompileError.IsShape (l.addClause schema clause) := by
  cases clause with
  | additional source => exact addEntity_fails source .additional l
  | join join => exact addJoin_fails join l
  | filter _ => exact .ok _
  | orderBy _ => exact .ok _
  | take _ => exact .ok _
  | skip _ => exact .ok _

theorem ofQuery_fails (schema : Schema) (aliasPrefix : String) (q : Query) :
    Run.FailsOnly CompileError.IsShape (ofQuery schema aliasPrefix q) :=
  (addEntity_fails _ _ _).bind fun _ _ => .foldlM fun clause _ l => addClause_fails clause l

end Layout

end GraphQuery
