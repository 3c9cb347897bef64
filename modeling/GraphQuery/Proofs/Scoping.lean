import GraphQuery.Proofs.CompileErrors
import GraphQuery.Proofs.Demands

/-!
# Scoping

The clauses of a read introduce nodes, and all else in the read may only refer to these. A stored property in the read
of a compiled query is one of an introduced node, and a relationship starts at a node that an earlier clause introduces
(`Compiler.compile_wellScoped`). When the sources of the query differ, each has a node of its own, and member accesses
go to the node of their source, unless a constructed object offers the member.
-/

namespace GraphQuery

/-! ## Conditions on all nodes of a read -/

/-- Every node of every expression of a read satisfies `v`. -/
structure Read.AllNodes (v : Expr → Prop) (r : Read) : Prop where
  clauses : ∀ c ∈ r.clauses, ∀ n ∈ c.nodes, v n
  items : ∀ e ∈ r.items, e.AllNodes v
  orderings : ∀ term ∈ r.orderings, term.expr.AllNodes v
  limit : ∀ e ∈ r.limit, e.AllNodes v
  skip : ∀ e ∈ r.skip, e.AllNodes v
  projections : ∀ {key e}, Table.find? key r.projections = some e → e.AllNodes v

namespace Read.AllNodes

variable {v : Expr → Prop} {r r' : Read} {e : Expr}

theorem restrictMatch (hv : Vocabulary v) {m : PatternMatch} (hm : ∀ n ∈ m.nodes, v n) (he : e.AllNodes v) :
    ∀ n ∈ (m.restrict e).nodes, v n := by
  obtain ⟨pattern, predicate, optional, source⟩ := m
  cases predicate with
  | none => exact he
  | some existing => exact hv.plain hm he

theorem demand (hv : Vocabulary v) (h : r.AllNodes v) (he : e.AllNodes v) {d : Demand}
    (hread : r.demand? e d = some r') : r'.AllNodes v := by
  cases d with
  | condition _ _ =>
    obtain ⟨changed, hchanged, rfl⟩ := Option.map_eq_some_iff.1 hread
    obtain ⟨before, m, after, hclauses, rfl⟩ := restrictLast_cases hchanged
    have hnodes := h.clauses
    simp only [hclauses, List.forall_mem_append, List.forall_mem_cons] at hnodes
    refine { h with clauses := ?_ }
    simp only [List.forall_mem_append, List.forall_mem_cons]
    exact ⟨hnodes.1, restrictMatch hv hnodes.2.1 he, hnodes.2.2⟩
  | order term =>
    cases hread
    refine { h with orderings := ?_ }
    simp only [Read.addSortTerm, List.forall_mem_append, List.forall_mem_singleton]
    exact ⟨h.orderings, he⟩
  | limit _ =>
    cases hread
    refine { h with limit := ?_ }
    rintro _ ⟨⟩
    exact he
  | skip _ =>
    cases hread
    refine { h with skip := ?_ }
    rintro _ ⟨⟩
    exact he

theorem addItem (h : r.AllNodes v) (he : e.AllNodes v) (resetStar : Bool) : (r.addItem e resetStar).2.AllNodes v := by
  have hwidening : e.withoutWidening.AllNodes v := by
    unfold Expr.withoutWidening
    split
    · split
      · exact (Expr.allNodes_convert.1 he).2
      · exact he
    · exact he
  simp only [Read.addItem]
  split
  · exact h
  · refine { h with items := ?_ }
    simp only [List.forall_mem_append, List.forall_mem_singleton]
    exact ⟨h.items, hwidening⟩

theorem unaliased (he : e.AllNodes v) : e.unaliased.AllNodes v := by
  unfold Expr.unaliased
  split
  · exact (Expr.allNodes_aliased.1 he).2
  · exact he

theorem nameMember (hnames : ∀ name e, v (.aliased name e)) (h : r.AllNodes v) (he : e.AllNodes v) (key : MemberName) :
    (r.nameMember key e).2.AllNodes v := by
  have hnamed : ∀ name, (e.withName name).AllNodes v := by
    intro name
    rcases e.withName_cases name with hname | hname
    · rw [hname]; exact he
    · rw [hname]; exact Expr.allNodes_aliased.2 ⟨hnames _ _, unaliased he⟩
  -- The named expression may stand among the items, and it is remembered without its name.
  have hremembered : ∀ {named : Expr} {items : List Expr}, named.AllNodes v → (∀ e ∈ items, e.AllNodes v) →
      Read.AllNodes v { r with items, projections := Table.insert key named.unaliased r.projections } := by
    intro named items hn hitems
    refine { h with items := hitems, projections := ?_ }
    intro k x hfind
    by_cases hk : k = key
    · subst hk
      rw [Table.find?_insert_self] at hfind
      cases hfind
      exact unaliased hn
    · rw [Table.find?_insert_of_ne _ _ hk] at hfind
      exact h.projections hfind
  simp only [Read.nameMember, Read.nameUniquely]
  split
  · refine hremembered (hnamed _) ?_
    intro x hx
    rcases List.mem_or_eq_of_mem_set hx with hx | rfl
    · exact h.items x hx
    · exact hnamed _
  · exact hremembered (hnamed _) h.items

end Read.AllNodes

/-! ## What clauses introduce -/

namespace ReadingClause

def pattern? : ReadingClause → Option Pattern
  | .pattern m => some m.pattern
  | .nested _ _ => none

/-- A clause apart from its condition. -/
def traversal (c : ReadingClause) : Option SourceId × Option Pattern :=
  (c.source?, c.pattern?)

theorem outline_eq_traversal (c : ReadingClause) : c.outline = (c.traversal.1, c.traversal.2.map Pattern.terminal) := by
  cases c <;> rfl

end ReadingClause

namespace Read

variable {start r r' : Read}

/-- The patterns of a read in the order of traversal. -/
def patterns (r : Read) : List Pattern :=
  r.clauses.filterMap ReadingClause.pattern?

/-- The nodes that stand for items: the ends of the patterns. -/
def terminals (r : Read) : List Node :=
  r.patterns.map Pattern.terminal

/-- A node of an expression that may stand in a read: a stored property is one of a node that the read introduces. -/
def Binds (r : Read) : Expr → Prop
  | .storage p => p.node ∈ r.terminals
  | _ => True

/-- What a read refers to is introduced by its clauses, and what a clause starts from by the clauses before it. -/
structure WellScoped (r : Read) : Prop where
  nodes : r.AllNodes r.Binds
  starts : ∀ before p after, r.patterns = before ++ p :: after → p.steps ≠ [] →
    ∃ p' ∈ before, p'.terminal.name.isSome = true ∧ p.start.name = p'.terminal.name

theorem vocabulary_binds (r : Read) : Vocabulary r.Binds :=
  ⟨fun _ _ => trivial, fun _ _ _ _ => trivial, fun _ _ _ _ => trivial, fun _ _ => trivial, fun _ => trivial,
    fun _ => trivial⟩

theorem node_mem_terminals {c : ReadingClause} {node : Node} (hc : c ∈ r.clauses) (h : c.node? = some node) :
    node ∈ r.terminals := by
  cases c with
  | nested _ _ => cases h
  | pattern m =>
    cases h
    exact List.mem_map.2 ⟨m.pattern, List.mem_filterMap.2 ⟨_, hc, rfl⟩, rfl⟩

theorem nodeOf_mem_terminals (hstar : r.starNode = none) {source : SourceId} {node : Node}
    (h : r.nodeOf? source = some node) : node ∈ r.terminals := by
  unfold nodeOf? at h
  split at h
  · rename_i c hc
    exact node_mem_terminals (List.mem_of_find?_eq_some hc) h
  · simp only [returnedNode?, hstar] at h
    split at h
    · rename_i c hc
      exact node_mem_terminals (hc ▸ List.mem_singleton_self c) h
    · cases h

/-- What binding keeps of the read with which it starts: the traversal of the graph, and that nothing else is referred
to than what it introduces. -/
structure Scoped (start r : Read) : Prop where
  traversals : r.clauses.map ReadingClause.traversal = start.clauses.map ReadingClause.traversal
  starNode : r.starNode = none
  nodes : r.AllNodes start.Binds

namespace Scoped

theorem patterns_eq (h : r.clauses.map ReadingClause.traversal = start.clauses.map ReadingClause.traversal) :
    r.patterns = start.patterns := by
  have hpatterns : ∀ cs : List ReadingClause,
      cs.filterMap ReadingClause.pattern? = (cs.map ReadingClause.traversal).filterMap Prod.snd := by
    intro cs
    rw [List.filterMap_map]
    rfl
  rw [patterns, patterns, hpatterns, hpatterns, h]

theorem binds_eq (h : r.clauses.map ReadingClause.traversal = start.clauses.map ReadingClause.traversal) :
    r.Binds = start.Binds := by
  funext n
  cases n with
  | storage p => simp only [Binds, terminals, patterns_eq h]
  | _ => rfl

theorem outlines_eq (h : r.clauses.map ReadingClause.traversal = start.clauses.map ReadingClause.traversal) :
    r.clauses.map ReadingClause.outline = start.clauses.map ReadingClause.outline := by
  have houtlines : ∀ cs : List ReadingClause, cs.map ReadingClause.outline =
      (cs.map ReadingClause.traversal).map fun t => (t.1, t.2.map Pattern.terminal) := by
    intro cs
    rw [List.map_map]
    exact List.map_congr_left fun c _ => c.outline_eq_traversal
  rw [houtlines, houtlines, h]

theorem stored (h : start.Scoped r) {declared : DeclaredProperty} {source : SourceId} {e : Expr}
    (he : r.storedProperty? declared source = some e) : e.AllNodes start.Binds := by
  obtain ⟨node, hnode, rfl⟩ := Option.map_eq_some_iff.1 he
  have hmem := nodeOf_mem_terminals h.starNode hnode
  rw [terminals, patterns_eq h.traversals] at hmem
  exact Expr.allNodes_storage.2 hmem

theorem addItem (h : start.Scoped r) {e : Expr} (he : e.AllNodes start.Binds) (resetStar : Bool) :
    start.Scoped (r.addItem e resetStar).2 := by
  have hnodes := h.nodes.addItem he resetStar
  unfold Read.addItem at hnodes ⊢
  simp only at hnodes ⊢
  split
  · exact h
  · rename_i hnone
    rw [hnone] at hnodes
    exact ⟨h.traversals, h.starNode, hnodes⟩

theorem demand (h : start.Scoped r) {e : Expr} {d : Demand} (he : e.AllNodes start.Binds)
    (hread : r.demand? e d = some r') : start.Scoped r' := by
  refine ⟨?_, ?_, h.nodes.demand start.vocabulary_binds he hread⟩
  · rw [← h.traversals]
    cases d with
    | condition _ _ =>
      obtain ⟨changed, hchanged, rfl⟩ := Option.map_eq_some_iff.1 hread
      obtain ⟨before, m, after, hclauses, rfl⟩ := restrictLast_cases hchanged
      simp only [hclauses, List.map_append, List.map_cons]
      rfl
    | _ => cases hread; rfl
  · rw [(Resolves.demand hread).starNode, h.starNode]

end Scoped

end Read

/-! ## Scoped runs -/

namespace Compiler

variable {c : Compiler} {sources : SourceTable} {start : Read} {p p' : Progress} (houter : c.outer = .absent)

/-- A state in which binding lowers expressions: it has met some of the demands of the query, or all of them and bound
some members of the object that the query constructs. -/
inductive Visits (c : Compiler) (q : Query) (l : Layout) : Progress → Prop
  | demand {before after : List Demand} {p : Progress}
    (hdemands : q.clauses.flatMap QueryClause.demands = before ++ after)
    (hrun : before.foldlM (c.meet l.sources) { read := l.read } = .ok p) : Visits c q l p
  | member {typeName : String} {before after : List (String × Expr)} {p : Progress}
    (hbound : q.clauses.foldlM (c.bindClause l.sources) { read := l.read } = .ok p)
    (hselector : q.selector = .construct typeName (before ++ after)) :
    Visits c q l (before.foldl (c.selectMember l.sources typeName) p)

include houter

theorem lower_scoped (hp : start.Scoped p.read) {mode : Mode} {e e' : Expr}
    (he : e.AllNodes fun n => n.isFrontEnd = true) (h : c.lower? sources p mode e = some e') :
    e'.AllNodes start.Binds := by
  have hwithin : (c.scope sources p.read).Within start.Binds := scope_within_of houter hp.stored hp.nodes.projections
  refine Scope.lower_allNodes start.vocabulary_binds hwithin mode e ?_ h
  exact he.imp fun n hn => scope_admits_of_frontEnd (fun _ => trivial) hn

theorem meet_scoped (hp : start.Scoped p.read) {d : Demand} (hd : d.expr.AllNodes fun n => n.isFrontEnd = true)
    (h : c.meet sources p d = .ok p') : start.Scoped p'.read := by
  obtain ⟨hread, -⟩ | ⟨e, he, hread, -⟩ := Progress.meet_cases h
  · rw [hread]; exact hp
  · exact hp.demand (lower_scoped houter hp hd he) hread

theorem selectMember_scoped (hp : start.Scoped p.read) (typeName : String) {m : String × Expr}
    (hm : m.2.AllNodes fun n => n.isFrontEnd = true) : start.Scoped (c.selectMember sources typeName p m).read := by
  unfold selectMember
  split
  · exact hp
  · split
    · rename_i bound hbound
      have hbound := lower_scoped houter hp hm hbound
      have hread := hp.addItem hbound true
      -- The named item is one of the read, or the expression itself.
      have hitem :
          ((p.read.addItem bound true).2.items.getD (p.read.addItem bound true).1 bound).AllNodes start.Binds := by
        rw [List.getD_eq_getElem?_getD]
        cases hget : (p.read.addItem bound true).2.items[(p.read.addItem bound true).1]? with
        | none => exact hbound
        | some item => exact hread.nodes.items item (List.mem_of_getElem? hget)
      have hnodes := hread.nodes.nameMember (fun _ _ => trivial) hitem ⟨typeName, m.1⟩
      refine ⟨?_, ?_, hnodes⟩
      · rw [← hread.traversals, (Read.SameRows.nameMember _ _ _).clauses]
      · rw [← hread.starNode]
        simp only [Read.nameMember, Read.nameUniquely]
        split <;> rfl
    · exact hp

omit houter in
theorem returnProperty_scoped (entity : Entity) (source : SourceId) (property : Property) {r : Read}
    (hr : start.Scoped r) : start.Scoped (returnProperty entity source r property) := by
  unfold returnProperty
  split
  · rename_i bound hbound
    exact hr.addItem (hr.stored hbound) true
  · exact hr

theorem selectMembers_scoped (hp : start.Scoped p.read) (typeName : String) {members : List (String × Expr)}
    (h : ∀ m ∈ members, m.2.AllNodes fun n => n.isFrontEnd = true) :
    start.Scoped (members.foldl (c.selectMember sources typeName) p).read :=
  List.foldlRecOn (motive := fun p : Progress => start.Scoped p.read) members _ hp fun _ hp m hm =>
    selectMember_scoped houter hp typeName (h m hm)

theorem select_scoped (hp : start.Scoped p.read) {selector : Expr}
    (hselector : selector.AllNodes fun n => n.isFrontEnd = true) (h : c.select sources p selector = .ok p') :
    start.Scoped p'.read := by
  unfold select at h
  split at h
  · split at h
    · cases h
    · split at h
      · cases h
        exact hp
      · cases h
        exact List.foldlRecOn (motive := start.Scoped) _ _ hp fun r hr property _ =>
          returnProperty_scoped _ _ property hr
  · rename_i typeName members
    cases h
    refine selectMembers_scoped houter hp typeName fun m hm n hn => hselector n ?_
    rw [Expr.nodes]
    exact List.mem_cons_of_mem _ (Expr.mem_nodesOfMembers.2 ⟨m, hm, hn⟩)
  · split at h
    · rename_i bound hbound
      cases h
      exact hp.addItem (lower_scoped houter hp hselector hbound) true
    · cases h
      exact hp

omit houter in
/-- The expression that a clause demands something about is made of the clause's own, under a comparison of keys. -/
theorem demand_frontEnd {clause : QueryClause} (h : ∀ n ∈ clause.nodes, n.isFrontEnd = true) {d : Demand}
    (hd : d ∈ clause.demands) : d.expr.AllNodes fun n => n.isFrontEnd = true := by
  cases clause with
  | filter e => cases List.mem_singleton.1 hd; exact h
  | additional _ => cases hd
  | join join =>
    obtain ⟨source, outer, relationship, outerKey, innerKey⟩ := join
    simp only [QueryClause.nodes, Join.nodes, List.mem_append] at h
    simp only [QueryClause.demands] at hd
    split at hd
    · cases List.mem_singleton.1 hd
      exact Expr.allNodes_binary.2 ⟨rfl, fun n hn => h n (.inr (.inl hn)), fun n hn => h n (.inr (.inr hn))⟩
    · cases hd
  | orderBy terms =>
    obtain ⟨term, hterm, rfl⟩ := List.mem_map.1 hd
    exact fun n hn => h n (SortTerm.mem_nodesOfList.2 ⟨term, hterm, hn⟩)
  | take count => cases List.mem_singleton.1 hd; exact h
  | skip count => cases List.mem_singleton.1 hd; exact h

variable {q : Query} {l : Layout}

omit houter in
theorem returnEntity_allNodes {main : SourceId} {v : Expr → Prop} {r : Read} (hp : p.read.AllNodes v)
    (h : returnEntity main p = .ok r) : r.AllNodes v := by
  unfold returnEntity at h
  split at h
  · split at h
    · cases h
      exact { hp with }
    · cases h
  · cases h
    exact hp

omit houter in
theorem layout_scoped {aliasPrefix : String} (h : l.WF aliasPrefix q) : l.read.Scoped l.read := by
  refine ⟨rfl, by rw [h.read]; rfl, ?_⟩
  have hclauses : ∀ c ∈ l.read.clauses, ∀ n ∈ c.nodes, l.read.Binds n := by
    intro c hc n hn
    obtain ⟨source, pattern, rfl, -⟩ := h.clauses c hc
    cases hn
  generalize l.read.Binds = v at hclauses ⊢
  rw [h.read]
  exact {
    clauses := hclauses
    items := fun e he => nomatch he
    orderings := fun t ht => nomatch ht
    limit := fun e he => nomatch he
    skip := fun e he => nomatch he
    projections := fun hfind => nomatch hfind }

theorem meets_scoped (hq : q.IsFrontEnd) (hp : start.Scoped p.read) {ds : List Demand}
    (hds : ∀ d ∈ ds, d ∈ q.clauses.flatMap QueryClause.demands) (h : ds.foldlM (c.meet sources) p = .ok p') :
    start.Scoped p'.read := by
  refine Run.foldlM_keeps (fun p : Progress => start.Scoped p.read) ?_ hp h
  intro d hd p p' hp hmeet
  obtain ⟨clause, hclause, hd⟩ := List.mem_flatMap.1 (hds d hd)
  exact meet_scoped houter hp (demand_frontEnd (fun n hn => hq n (Query.mem_nodes_of_clause hclause hn)) hd) hmeet

theorem bindClauses_scoped {aliasPrefix : String} (hl : l.WF aliasPrefix q) (hq : q.IsFrontEnd)
    (h : q.clauses.foldlM (c.bindClause l.sources) { read := l.read } = .ok p) : l.read.Scoped p.read :=
  meets_scoped houter hq (layout_scoped hl) (fun _ hd => hd) (meet_all_demands h)

/-- Whatever binding visits keeps to the nodes of the layout. -/
theorem Visits.scoped {aliasPrefix : String} (hl : l.WF aliasPrefix q) (hq : q.IsFrontEnd) (h : c.Visits q l p) :
    l.read.Scoped p.read := by
  cases h with
  | demand hdemands hrun =>
    exact meets_scoped houter hq (layout_scoped hl) (fun d hd => hdemands ▸ List.mem_append_left _ hd) hrun
  | member hbound hselector =>
    refine selectMembers_scoped houter (bindClauses_scoped houter hl hq hbound) _ fun m hm n hn => hq n ?_
    apply Query.mem_nodes_of_selector
    rw [hselector, Expr.nodes]
    exact List.mem_cons_of_mem _ (Expr.mem_nodesOfMembers.2 ⟨m, List.mem_append_left _ hm, hn⟩)

end Compiler

/-! ## The nodes of sources -/

namespace Layout

variable {schema : Schema} {aliasPrefix : String} {q : Query} {done : List Source} {l l' : Layout} {source : Source}
  {role : SourceRole}

/-- What a layout of some sources says about them: their nodes in order, where relationships start, and that the table
knows them by the names of their nodes. -/
structure Places (schema : Schema) (done : List Source) (l : Layout) : Prop where
  outlines : l.read.clauses.map ReadingClause.outline = done.map fun s => (some s.id, (schema.nodeOf s).toOption)
  nodes : ∀ s ∈ done, ∃ node, schema.nodeOf s = .ok node
  starts : ∀ before p after, l.read.patterns = before ++ p :: after → p.steps ≠ [] →
    ∃ p' ∈ before, p'.terminal.name.isSome = true ∧ p.start.name = p'.terminal.name
  known : ∀ s ∈ done, ∃ entry, Table.find? s.id l.sources = some entry
  names : ∀ {id entry}, Table.find? id l.sources = some entry →
    ∃ p ∈ l.read.patterns, p.terminal.name = some entry.itemName

theorem nodeOf_entity {node : Node} (h : schema.nodeOf source = .ok node) :
    ∃ entity, schema.entityOf? source.itemType = some entity ∧ node = ⟨some source.itemName, entity.labels⟩ := by
  unfold Schema.nodeOf at h
  split at h
  · rename_i name hkind
    split at h
    · rename_i entity hentity
      cases h
      refine ⟨entity, ?_, rfl⟩
      rw [Source.itemType, hkind]
      exact hentity
    · cases h
  · cases h

theorem Places.addSource (h : l.Places schema done) {pattern : Pattern}
    (hnode : schema.nodeOf source = .ok pattern.terminal)
    (hstart : pattern.steps ≠ [] →
      ∃ p ∈ l.read.patterns, p.terminal.name.isSome = true ∧ pattern.start.name = p.terminal.name) :
    (l.addSource source role pattern).Places schema (done ++ [source]) := by
  have hpatterns : (l.addSource source role pattern).read.patterns = l.read.patterns ++ [pattern] :=
    List.filterMap_append
  refine ⟨?_, ?_, ?_, ?_, ?_⟩
  · simp only [Layout.addSource, Read.addClause, List.map_append, h.outlines, List.map_cons, List.map_nil, hnode]
    rfl
  · simp only [List.forall_mem_append, List.forall_mem_singleton]
    exact ⟨h.nodes, _, hnode⟩
  · intro before p after hsplit hsteps
    rw [hpatterns] at hsplit
    -- The pattern in question is the new one, or one of those that were there.
    rcases List.eq_nil_or_concat after with rfl | ⟨after', last, rfl⟩
    · obtain ⟨hbefore, hp⟩ := List.append_inj' hsplit rfl
      cases hp
      subst hbefore
      exact hstart hsteps
    · rw [List.concat_eq_append, ← List.cons_append, ← List.append_assoc] at hsplit
      exact h.starts before p after' (List.append_inj' hsplit rfl).1 hsteps
  · intro s hs
    by_cases hid : s.id = source.id
    · exact ⟨_, by rw [hid, Layout.addSource, Table.find?_insert_self]⟩
    · rw [Layout.addSource, Table.find?_insert_of_ne _ _ hid]
      rcases List.mem_append.1 hs with hs | hs
      · exact h.known s hs
      · exact absurd (List.mem_singleton.1 hs ▸ rfl) hid
  · intro id entry hfind
    rw [hpatterns]
    rcases find?_addSource hfind with ⟨-, rfl⟩ | hfind
    · obtain ⟨entity, -, hterminal⟩ := nodeOf_entity hnode
      exact ⟨pattern, List.mem_append_right _ (List.mem_singleton_self _), by rw [hterminal]⟩
    · obtain ⟨p, hp, hname⟩ := h.names hfind
      exact ⟨p, List.mem_append_left _ hp, hname⟩

theorem Places.addEntity (h : l.Places schema done) (hadd : l.addEntity schema source role = .ok l') :
    l'.Places schema (done ++ [source]) := by
  obtain ⟨node, hnode, hadd⟩ := Run.bind_eq_ok.1 hadd
  cases hadd
  exact h.addSource hnode fun hsteps => absurd rfl hsteps

theorem Places.addJoin (h : l.Places schema done) {join : Join} (hadd : l.addJoin schema join = .ok l') :
    l'.Places schema (done ++ [join.source]) := by
  unfold Layout.addJoin at hadd
  split at hadd
  · exact h.addEntity hadd
  · split at hadd
    · cases hadd
    · rename_i outer houter
      obtain ⟨node, hnode, hadd⟩ := Run.bind_eq_ok.1 hadd
      cases hadd
      obtain ⟨p, hp, hname⟩ := h.names houter
      exact h.addSource hnode fun _ => ⟨p, hp, by rw [hname]; rfl, hname.symm⟩

theorem Places.addClauses {clauses : List QueryClause} (h : l.Places schema done)
    (hadd : clauses.foldlM (Layout.addClause schema) l = .ok l') :
    l'.Places schema (done ++ clauses.filterMap QueryClause.source?) := by
  induction clauses generalizing l done with
  | nil =>
    cases hadd
    simpa using h
  | cons clause clauses ih =>
    obtain ⟨next, hnext, hrest⟩ := Run.bind_eq_ok.1 ((List.foldlM_cons ..).symm.trans hadd)
    cases clause with
    | additional source => simpa [QueryClause.source?] using ih (h.addEntity hnext) hrest
    | join join => simpa [QueryClause.source?] using ih (h.addJoin hnext) hrest
    | _ => cases hnext; exact ih h hrest

theorem ofQuery_places (h : ofQuery schema aliasPrefix q = .ok l) : l.Places schema q.sources := by
  obtain ⟨first, hfirst, h⟩ := Run.bind_eq_ok.1 h
  have hempty : Places schema [] ⟨Read.empty aliasPrefix, []⟩ := by
    refine ⟨rfl, by simp, ?_, by simp, fun hfind => nomatch hfind⟩
    intro before p after hsplit
    cases before <;> cases hsplit
  exact (hempty.addEntity hfirst).addClauses h

end Layout

theorem find_source {sources : List Source} (hdistinct : (sources.map Source.id).Nodup) {source : Source}
    (hsource : source ∈ sources) (f : Source → Option Node) :
    (sources.map fun s => (some s.id, f s)).find? (fun o => o.1 == some source.id) =
      some (some source.id, f source) := by
  induction sources with
  | nil => cases hsource
  | cons first rest ih =>
    obtain ⟨hfirst, hrest⟩ := List.nodup_cons.1 hdistinct
    rcases List.mem_cons.1 hsource with rfl | hmem
    · simp
    · have hne : first.id ≠ source.id := fun heq => hfirst (heq ▸ List.mem_map_of_mem hmem)
      rw [List.map_cons, List.find?_cons_of_neg (by simpa using hne)]
      exact ih hrest hmem

namespace Compiler

variable {c : Compiler} {q : Query} {l : Layout} {p : Progress} {compiled : CompiledQuery}

/-- A member access on a source is a property of its node, if the type of the reference declares one, and else what a
constructed object returns for the member. -/
theorem lower_member_of_source (houter : c.outer = .absent) {source : Source} {node : Node} {entry : SourceEntry}
    (hentry : Table.find? source.id l.sources = some entry) (hread : entry.read = Layout.mainRead)
    (hnode : p.read.nodeOf? source.id = some node) {mode : Mode} {target : Expr} {type : ValueType} {m : Member}
    (htarget : target.bare = .source source.id type) :
    c.lower? l.sources p mode (.member target m) =
      match (c.schema.entityOf? type).bind fun entity => entity.declaredProperty? m.name with
      | some declared => some (.storage ⟨declared.property.storedAs, declared, node⟩)
      | none => p.read.memberItem? m.key := by
  have hreadOf : (c.scope l.sources p.read).workspace.readOf? source.id = some Layout.mainRead := by
    rw [Workspace.readOf?, ← hread,
      show (c.scope l.sources p.read).workspace.source? source.id = some entry from hentry]
    rfl
  have hprojected : (c.scope l.sources p.read).projectedMember? target m = p.read.memberItem? m.key := by
    simp only [Scope.projectedMember?, htarget, hreadOf]
    rfl
  have hstored : (c.scope l.sources p.read).storedMember? target m =
      ((c.schema.entityOf? type).bind fun entity => entity.declaredProperty? m.name).map fun declared =>
        (Layout.mainRead, .storage ⟨declared.property.storedAs, declared, node⟩) := by
    simp only [Scope.storedMember?, htarget, hreadOf]
    show ((c.schema.entityOf? type).bind fun entity => (entity.declaredProperty? m.name).bind fun declared =>
      (p.read.storedProperty? declared source.id).bind fun bound => some (Layout.mainRead, bound)) = _
    simp only [Read.storedProperty?, hnode]
    cases c.schema.entityOf? type with
    | none => rfl
    | some entity =>
      cases hdeclared : entity.declaredProperty? m.name with
      | none => simp [hdeclared]
      | some declared => simp [hdeclared]
  rw [lower?, Scope.lower, Scope.lowerMember, hstored]
  cases (c.schema.entityOf? type).bind fun entity => entity.declaredProperty? m.name with
  | some declared => rfl
  | none =>
    have hnone : (c.scope l.sources p.read).outer target m = none := by
      rw [show (c.scope l.sources p.read).outer = c.outer from rfl, houter]
      rfl
    simp only [Option.map_none, Outcome.ofOption, hprojected, hnone, Option.or_none]

/-- The read of a compiled query is well scoped. When its sources differ, a member access on one of them is lowered to a
property of a node that is named after the source and labelled like its entity, unless no property of that name is
declared. It then becomes what the constructed object has for the member so far. -/
theorem compile_wellScoped (houter : c.outer = .absent) (hpasses : c.passes = []) (hq : q.IsFrontEnd)
    (h : c.compile q = .ok compiled) :
    ∃ l plan, Layout.ofQuery c.schema c.settings.binding.defaultAliasPrefix q = .ok l ∧ c.plan q = .ok plan ∧
      c.generator.render plan.read = .ok ⟨compiled.text, compiled.parameters⟩ ∧ plan.read.WellScoped ∧
      ((q.sources.map Source.id).Nodup → ∀ source ∈ q.sources,
        ∃ entity, c.schema.entityOf? source.itemType = some entity ∧
          ∀ p, c.Visits q l p → ∀ mode target type m, target.bare = .source source.id type →
            c.lower? l.sources p mode (.member target m) =
              match (c.schema.entityOf? type).bind fun entity => entity.declaredProperty? m.name with
              | some declared =>
                some (.storage ⟨declared.property.storedAs, declared, ⟨some source.itemName, entity.labels⟩⟩)
              | none => p.read.memberItem? m.key) := by
  obtain ⟨plan, read, hplan, hfinish, hrender, -⟩ := compile_stages h
  cases finish_no_passes hpasses hfinish
  obtain ⟨l, p, selected, hl, hp, hselected, hreturned, -⟩ := plan_stages hplan
  have hwf := Layout.ofQuery_wf hl
  have hplaces := Layout.ofQuery_places hl
  refine ⟨l, plan, hl, hplan, hrender, ?_, ?_⟩
  · have hscoped : l.read.Scoped selected.read :=
      select_scoped houter (bindClauses_scoped houter hwf hq hp) (fun n hn => hq n (Query.mem_nodes_of_selector hn))
        hselected
    have hclauses : plan.read.clauses.map ReadingClause.traversal = l.read.clauses.map ReadingClause.traversal := by
      rw [(returnEntity_sameRows hreturned).clauses, hscoped.traversals]
    have hnodes : plan.read.AllNodes l.read.Binds := returnEntity_allNodes hscoped.nodes hreturned
    refine ⟨Read.Scoped.binds_eq hclauses ▸ hnodes, ?_⟩
    rw [Read.Scoped.patterns_eq hclauses]
    exact hplaces.starts
  · intro hdistinct source hsource
    obtain ⟨node, hnode⟩ := hplaces.nodes source hsource
    obtain ⟨entry, hentry⟩ := hplaces.known source hsource
    obtain ⟨entity, hentity, rfl⟩ := Layout.nodeOf_entity hnode
    refine ⟨entity, hentity, fun p hvisits mode target type m htarget => ?_⟩
    have houtlines := Read.Scoped.outlines_eq (hvisits.scoped houter hwf hq).traversals
    have hnodeOf : p.read.nodeOf? source.id = some ⟨some source.itemName, entity.labels⟩ := by
      rw [Read.nodeOf_eq_outline, houtlines, hplaces.outlines, find_source hdistinct hsource, hnode]
      rfl
    exact lower_member_of_source houter hentry (hwf.sources hentry).1 hnodeOf htarget

/-! ## A summary of warehouses and shelves -/

def storeCompiler : Compiler :=
  { schema := storeSchema }

/-- The rows of the shelves that warehouses hold, in an object whose second member refers to the first as if it were a
member of the warehouse. -/
def shelfSummary : Query :=
  let warehouse : Source := ⟨⟨0⟩, "w", .entitySet "Warehouse"⟩
  let shelf : Source := ⟨⟨1⟩, "v", .entitySet "Shelf"⟩
  { main := warehouse
    clauses := [.join ⟨shelf, warehouse.id, some { direction := .right, detail := { kinds := ["HOLDS"] } }, none, none⟩]
    selector := .construct "Summary" [
      ("Place", shelf.member "Row" .int32),
      ("Next", .plain .add (.member warehouse.reference ⟨"Summary", "Place", .int32⟩) (.ofValue (.int32 1)))] }

theorem shelfSummary_frontEnd : shelfSummary.IsFrontEnd := by
  unfold Query.IsFrontEnd
  decide

/-- The relationship to the shelf starts at the node of the warehouse, and a declared property of the warehouse is one
of that node. -/
theorem compile_wellScoped_of_shelfSummary :
    ∃ compiled l plan, storeCompiler.compile shelfSummary = .ok compiled ∧
      Layout.ofQuery storeSchema "s" shelfSummary = .ok l ∧ storeCompiler.plan shelfSummary = .ok plan ∧
      plan.read.WellScoped ∧
      storeCompiler.lower? l.sources { read := l.read } .result (shelfSummary.main.member "Size" .int32) =
        some (.storage ⟨"Size", ⟨"Warehouse", ⟨"Size", .int32, none, none⟩⟩, ⟨some "w", ["Warehouse"]⟩⟩) := by
  have hok : (storeCompiler.compile shelfSummary).isOk = true := by decide +kernel
  cases hcompiled : storeCompiler.compile shelfSummary with
  | error e => rw [hcompiled] at hok; cases hok
  | ok compiled =>
    obtain ⟨l, plan, hl, hplan, -, hscoped, hmembers⟩ := compile_wellScoped rfl rfl shelfSummary_frontEnd hcompiled
    have hl' : Layout.ofQuery storeSchema "s" shelfSummary = .ok _ := rfl
    cases hl.symm.trans hl'
    obtain ⟨entity, hentity, hlower⟩ := hmembers (by decide) shelfSummary.main List.mem_cons_self
    cases hentity
    have hdemands : shelfSummary.clauses.flatMap QueryClause.demands = [] ++ [] := rfl
    have hsize :=
      hlower _ (.demand hdemands rfl) .result shelfSummary.main.reference _ ⟨"Warehouse", "Size", .int32⟩ rfl
    exact ⟨compiled, _, plan, rfl, hl', hplan, hscoped, hsize⟩

/-- The node whose property an expression is. -/
def storedNode? : Expr → Option Node
  | .storage p => some p.node
  | _ => none

/-- A member that no entity declares is taken from the constructed object: here an access to the warehouse becomes a
property of the shelf. -/
theorem member_of_other_node :
    shelfSummary.IsFrontEnd ∧ (shelfSummary.sources.map Source.id).Nodup ∧
    (storeCompiler.compile shelfSummary).toOption.map CompiledQuery.text = some
      ("MATCH (w:Warehouse)\nMATCH (w)-[:\"HOLDS\"]->(v:Shelf) " ++
        "RETURN \"v\".\"Row\" AS \"Place\", \"v\".\"Row\" + 1 AS \"Next\"") ∧
    ∃ l p, Layout.ofQuery storeSchema "s" shelfSummary = .ok l ∧ storeCompiler.Visits shelfSummary l p ∧
      (storeCompiler.lower? l.sources p .result (.member shelfSummary.main.reference ⟨"Summary", "Place", .int32⟩)).bind
        storedNode? = some ⟨some "v", ["Shelf"]⟩ ∧
      shelfSummary.main.itemName = "w" := by
  have hselector : shelfSummary.selector = .construct "Summary" ([("Place", _)] ++ [("Next", _)]) := rfl
  refine ⟨shelfSummary_frontEnd, by decide, by decide +kernel, _, _, rfl, .member rfl hselector, ?_, rfl⟩
  decide +kernel

end Compiler

end GraphQuery
