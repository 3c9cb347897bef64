import GraphQuery.Proofs.Scoping
import Mathlib.Data.List.Forall2

/-!
# Which queries can be laid out

A source can be laid out when it is the set of an entity of the schema, and a join along a relationship only when its
outer source stands before it. The faults of a query are listed in the order of its clauses (`Query.faults`). Each step of
a layout fails exactly when its clause has a fault behind the sources that are known by then (`Layout.addClause_fault`), so
the layout of a query fails with its first fault. A query without faults gets a read with one pattern for each source
and nothing else (`Workspace.ofQuery_layout`).
-/

namespace GraphQuery

/-- What is wrong with a source: the schema lacks its entity, or it takes its items from another query. -/
def Schema.fault? (schema : Schema) (source : Source) : Option CompileError :=
  match source.kind with
  | .entitySet name => if (schema.find? name).isSome then none else some (.unknownEntity name)
  | .subquery _ => some (.unsupported (.nestedSource source.itemName))

/-- What is wrong with a join behind known sources. When it goes along a relationship its outer source is looked at
first. -/
def Join.fault? (schema : Schema) (known : List SourceId) (join : Join) : Option CompileError :=
  if join.relationship.isSome = true ∧ join.outer ∉ known then some (.unknownSource join.outer)
  else schema.fault? join.source

namespace QueryClause

/-- What is wrong with a clause behind known sources. -/
def fault? (schema : Schema) (known : List SourceId) : QueryClause → Option CompileError
  | .additional source => schema.fault? source
  | .join j => j.fault? schema known
  | .filter _ | .orderBy _ | .take _ | .skip _ => none

/-- The numbers of the sources that clauses introduce. -/
def sourceIds (clauses : List QueryClause) : List SourceId :=
  (clauses.filterMap source?).map Source.id

/-- What is wrong with clauses behind known sources, in the order of the clauses. -/
def faults (schema : Schema) (known : List SourceId) : List QueryClause → List CompileError
  | [] => []
  | clause :: rest => (clause.fault? schema known).toList ++ faults schema (known ++ sourceIds [clause]) rest

end QueryClause

namespace Query

/-- What is wrong with the sources of a query, the main one first. -/
def faults (schema : Schema) (q : Query) : List CompileError :=
  (schema.fault? q.main).toList ++ QueryClause.faults schema [q.main.id] q.clauses

/-- Each source of a query is the set of an entity of the schema, and each join along a relationship starts at the main
source or at one that an earlier clause introduces. -/
structure HasSources (schema : Schema) (q : Query) : Prop where
  entities : ∀ source ∈ q.sources, ∃ name entity, source.kind = .entitySet name ∧ schema.find? name = some entity
  outers : ∀ before join after, q.clauses = before ++ .join join :: after → join.relationship.isSome = true →
    ∃ source ∈ q.main :: before.filterMap QueryClause.source?, source.id = join.outer

end Query

/-- A clause matches a pattern for the items of a source, without a condition. The pattern ends at a node that is named
after the source and labelled like its entity. -/
def ReadingClause.Produces (schema : Schema) (clause : ReadingClause) (source : Source) : Prop :=
  ∃ pattern name entity, clause = .pattern ⟨pattern, none, false, some source.id⟩ ∧ source.kind = .entitySet name ∧
    schema.find? name = some entity ∧ pattern.terminal = ⟨some source.itemName, entity.labels⟩

/-! ## Queries without faults -/

theorem Schema.fault_eq_none {schema : Schema} {source : Source} :
    schema.fault? source = none ↔ ∃ name entity, source.kind = .entitySet name ∧ schema.find? name = some entity := by
  unfold Schema.fault?
  cases source.kind with
  | entitySet name => simp [Option.isSome_iff_exists]
  | subquery q => simp

/-- What holds at every place of a list holds at its head and, behind the head, at every place of its tail. -/
theorem forall_places_cons {α : Type} {P : List α → α → Prop} {a : α} {l : List α} :
    (∀ before x after, a :: l = before ++ x :: after → P before x) ↔
      P [] a ∧ ∀ before x after, l = before ++ x :: after → P (a :: before) x := by
  constructor
  · intro h
    exact ⟨h [] a l rfl, fun before x after hl => h (a :: before) x after (by rw [hl]; rfl)⟩
  · rintro ⟨hhead, htail⟩ before x after hl
    cases before with
    | nil =>
      obtain ⟨rfl, -⟩ := List.cons.inj hl
      exact hhead
    | cons b before =>
      obtain ⟨rfl, htails⟩ := List.cons.inj hl
      exact htail before x after htails

namespace QueryClause

variable {schema : Schema} {known : List SourceId}

theorem append_sourceIds (known : List SourceId) (clause : QueryClause) (clauses : List QueryClause) :
    known ++ sourceIds [clause] ++ sourceIds clauses = known ++ sourceIds (clause :: clauses) := by
  rw [List.append_assoc, sourceIds, sourceIds, ← List.map_append, ← List.filterMap_append]
  rfl

/-- The outer source of a join along a relationship is known. -/
def StartsAt (known : List SourceId) (clause : QueryClause) : Prop :=
  ∀ join, clause = .join join → join.relationship.isSome = true → join.outer ∈ known

theorem fault_eq_none {clause : QueryClause} :
    clause.fault? schema known = none ↔
      (∀ source ∈ clause.source?, schema.fault? source = none) ∧ clause.StartsAt known := by
  cases clause with
  | additional source => simp [fault?, source?, StartsAt]
  | join join =>
    by_cases hstart : join.relationship.isSome = true ∧ join.outer ∉ known
    · simp [fault?, Join.fault?, source?, StartsAt, hstart]
    · have hknown : join.relationship.isSome = true → join.outer ∈ known := by
        intro hrelationship
        by_contra houter
        exact hstart ⟨hrelationship, houter⟩
      rw [fault?, Join.fault?, if_neg hstart]
      simpa [source?, StartsAt] using fun _ => hknown
  | _ => simp [fault?, source?, StartsAt]

/-- Clauses have no faults when their sources have none and all their joins start at sources that are known by then. -/
theorem faults_eq_nil {clauses : List QueryClause} :
    faults schema known clauses = [] ↔
      (∀ source ∈ clauses.filterMap source?, schema.fault? source = none) ∧
        ∀ before clause after, clauses = before ++ clause :: after → clause.StartsAt (known ++ sourceIds before) := by
  induction clauses generalizing known with
  | nil => simp [faults]
  | cons clause clauses ih =>
    rw [faults, List.append_eq_nil_iff, Option.toList_eq_nil_iff, ih, fault_eq_none, forall_places_cons]
    have hsources : (∀ source ∈ (clause :: clauses).filterMap source?, schema.fault? source = none) ↔
        (∀ source ∈ clause.source?, schema.fault? source = none) ∧
          ∀ source ∈ clauses.filterMap source?, schema.fault? source = none := by
      cases hsource : clause.source? with
      | none => simp [List.filterMap_cons_none hsource]
      | some source => simp [List.filterMap_cons_some hsource]
    have hnone : known ++ sourceIds [] = known := by simp [sourceIds]
    simp only [append_sourceIds, hsources, hnone]
    tauto

end QueryClause

theorem Query.faults_eq_nil {schema : Schema} {q : Query} : q.faults schema = [] ↔ q.HasSources schema := by
  rw [Query.faults, List.append_eq_nil_iff, Option.toList_eq_nil_iff, QueryClause.faults_eq_nil]
  constructor
  · rintro ⟨hmain, hsources, houters⟩
    refine ⟨?_, ?_⟩
    · intro source hsource
      rcases List.mem_cons.1 hsource with rfl | hsource
      · exact Schema.fault_eq_none.1 hmain
      · exact Schema.fault_eq_none.1 (hsources source hsource)
    · intro before join after hclauses hrelationship
      exact List.mem_map.1 (houters before (.join join) after hclauses join rfl hrelationship)
  · rintro ⟨hsources, houters⟩
    refine ⟨Schema.fault_eq_none.2 (hsources q.main List.mem_cons_self), ?_, ?_⟩
    · exact fun source hsource => Schema.fault_eq_none.2 (hsources source (List.mem_cons_of_mem q.main hsource))
    · rintro before - after hclauses join rfl hrelationship
      exact List.mem_map.2 (houters before join after hclauses hrelationship)

/-! ## Steps of a layout -/

namespace Layout

variable {schema : Schema} {aliasPrefix : String} {q : Query} {known : List SourceId} {l l' : Layout} {source : Source}
  {role : SourceRole}

/-- The table of a layout has entries for the given sources and no others. -/
def Knows (known : List SourceId) (l : Layout) : Prop :=
  ∀ id, (Table.find? id l.sources).isSome = true ↔ id ∈ known

theorem Knows.addSource (h : l.Knows known) (pattern : Pattern) :
    (l.addSource source role pattern).Knows (known ++ [source.id]) := by
  intro id
  by_cases hid : id = source.id
  · simp [Layout.addSource, hid]
  · rw [Layout.addSource, Table.find?_insert_of_ne _ _ hid, h id]
    simp [hid]

/-- A source has a node unless something is wrong with it. -/
theorem nodeOf_fault (source : Source) : Run.FailsWith (schema.fault? source) (fun _ => True) (schema.nodeOf source) := by
  unfold Schema.fault? Schema.nodeOf
  cases source.kind with
  | entitySet name =>
    simp only
    cases schema.find? name with
    | none => exact .error _
    | some entity => exact .ok trivial
  | subquery q => exact .error _

theorem addEntity_fault (h : l.Knows known) (source : Source) (role : SourceRole) :
    Run.FailsWith (schema.fault? source) (Knows (known ++ [source.id])) (l.addEntity schema source role) :=
  (nodeOf_fault source).map fun _ _ => h.addSource _

theorem addJoin_fault (h : l.Knows known) (join : Join) :
    Run.FailsWith (join.fault? schema known) (Knows (known ++ [join.source.id])) (l.addJoin schema join) := by
  unfold Join.fault? addJoin
  cases hrelationship : join.relationship with
  | none =>
    rw [if_neg (by simp)]
    exact addEntity_fault h join.source .join
  | some path =>
    cases houter : Table.find? join.outer l.sources with
    | none =>
      have hunknown : join.outer ∉ known := by simp [← h join.outer, houter]
      rw [if_pos ⟨rfl, hunknown⟩]
      exact .error _
    | some outer =>
      have hknown : join.outer ∈ known := by simp [← h join.outer, houter]
      rw [if_neg (by simp [hknown])]
      exact (nodeOf_fault join.source).map fun _ _ => h.addSource _

/-- A step of a layout fails with the fault of its clause behind the sources that are known. -/
theorem addClause_fault (h : l.Knows known) (clause : QueryClause) :
    Run.FailsWith (clause.fault? schema known) (Knows (known ++ QueryClause.sourceIds [clause]))
      (l.addClause schema clause) := by
  have hsame : l.Knows (known ++ []) := by rwa [List.append_nil]
  cases clause with
  | additional source => exact addEntity_fault h source .additional
  | join join => exact addJoin_fault h join
  | filter _ => exact .ok hsame
  | orderBy _ => exact .ok hsame
  | take _ => exact .ok hsame
  | skip _ => exact .ok hsame

theorem addClauses_fault (h : l.Knows known) (clauses : List QueryClause) :
    Run.FailsWith (QueryClause.faults schema known clauses).head? (Knows (known ++ QueryClause.sourceIds clauses))
      (clauses.foldlM (addClause schema) l) := by
  induction clauses generalizing l known with
  | nil =>
    rw [List.foldlM_nil]
    exact .ok (by rwa [QueryClause.sourceIds, List.filterMap_nil, List.map_nil, List.append_nil])
  | cons clause clauses ih =>
    rw [List.foldlM_cons, QueryClause.faults, List.head?_append, Option.head?_toList]
    refine (addClause_fault h clause).bind fun next hnext => ?_
    rw [← QueryClause.append_sourceIds known clause clauses]
    exact ih hnext

/-- The layout of a query fails with the first fault of the query, and knows all its sources otherwise. -/
theorem ofQuery_fault (schema : Schema) (aliasPrefix : String) (q : Query) :
    Run.FailsWith (q.faults schema).head? (Knows (q.sources.map Source.id)) (ofQuery schema aliasPrefix q) := by
  have hempty : Knows [] ⟨Read.empty aliasPrefix, []⟩ := by
    intro id
    simp
  rw [Query.faults, List.head?_append, Option.head?_toList]
  exact (addEntity_fault hempty q.main .main).bind fun first hfirst => addClauses_fault hfirst q.clauses

/-! ## The clauses of a layout -/

/-- A pattern that produces the items of a source ends at the node of that source. -/
theorem produces_of_outline {clause : ReadingClause}
    (hclause : ∃ source pattern, clause = .pattern (.ofSource source pattern) ∧ pattern.IsNamed)
    (houtline : clause.outline = (some source.id, (schema.nodeOf source).toOption)) : clause.Produces schema source := by
  obtain ⟨id, pattern, rfl, -⟩ := hclause
  obtain ⟨hid, hnode⟩ := Prod.mk.inj houtline
  cases hid
  cases hfault : schema.nodeOf source with
  | error e =>
    rw [hfault] at hnode
    cases hnode
  | ok node =>
    rw [hfault] at hnode
    obtain rfl : pattern.terminal = node := Option.some.inj hnode
    obtain ⟨name, entity, hkind, hentity⟩ := Schema.fault_eq_none.1 ((nodeOf_fault source).exists_ok_iff.1 ⟨_, hfault⟩)
    refine ⟨pattern, name, entity, rfl, hkind, hentity, ?_⟩
    rw [Schema.nodeOf, hkind] at hfault
    simp only [hentity] at hfault
    exact (Except.ok.inj hfault).symm

theorem ofQuery_produces (h : ofQuery schema aliasPrefix q = .ok l) :
    List.Forall₂ (ReadingClause.Produces schema) l.read.clauses q.sources := by
  have houtlines := (ofQuery_places h).outlines
  rw [← List.forall₂_eq_eq_eq, List.forall₂_map_left_iff, List.forall₂_map_right_iff] at houtlines
  have hboth := (List.forall₂_and_left _ _).2 ⟨(ofQuery_wf h).clauses, houtlines⟩
  exact hboth.imp fun _ _ hclause => produces_of_outline hclause.1 hclause.2

end Layout

/-! ## Workspaces of queries -/

namespace Workspace

/-- The workspace of a query exists exactly when the schema has the entities of all its sources and its joins start at
sources before them. Its only read then has one pattern for each source in order and is empty otherwise, and all
sources are read there. If there is no such workspace, the reason is the first fault of the query. -/
theorem ofQuery_layout (schema : Schema) (aliasPrefix : String) (q : Query) :
    ((∃ w, ofQuery schema aliasPrefix q = .ok w) ↔ q.HasSources schema) ∧
    (∀ w, ofQuery schema aliasPrefix q = .ok w →
      ∃ clauses, w.reads = [{ Read.empty aliasPrefix with clauses }] ∧
        List.Forall₂ (ReadingClause.Produces schema) clauses q.sources ∧
        ∀ id, w.readOf? id = if id ∈ q.sources.map Source.id then some Layout.mainRead else none) ∧
    ∀ e, ofQuery schema aliasPrefix q = .error e ↔ (q.faults schema).head? = some e := by
  have hlayout := Layout.ofQuery_fault schema aliasPrefix q
  have hworkspace : Run.FailsWith (q.faults schema).head? (fun _ => True) (ofQuery schema aliasPrefix q) :=
    hlayout.map fun _ _ => trivial
  refine ⟨?_, ?_, fun e => hworkspace.eq_error_iff⟩
  · rw [hworkspace.exists_ok_iff, List.head?_eq_none_iff, Query.faults_eq_nil]
  · intro w hw
    obtain ⟨l, hl, hw⟩ := Run.bind_eq_ok.1 hw
    cases hw
    have hwf := Layout.ofQuery_wf hl
    refine ⟨l.read.clauses, congrArg (fun r => [r]) hwf.read, Layout.ofQuery_produces hl, fun id => ?_⟩
    have hknown := hlayout.of_eq_ok hl id
    rw [readOf?, source?]
    cases hfind : Table.find? id l.sources with
    | none =>
      rw [hfind] at hknown
      rw [if_neg fun hid => by simpa using hknown.2 hid]
      rfl
    | some entry =>
      rw [hfind] at hknown
      rw [if_pos (hknown.1 rfl), Option.map_some, (hwf.sources hfind).1]

/-- A shelf that hangs from no source, of an entity that the schema lacks: the outer source is missed first. -/
example :
    ofQuery ⟨[{ name := "Warehouse" }]⟩ "s"
      ⟨⟨⟨0⟩, "w", .entitySet "Warehouse"⟩,
        [.join ⟨⟨⟨1⟩, "v", .entitySet "Shelf"⟩, ⟨1⟩, some {}, none, none⟩], .truth⟩ = .error (.unknownSource ⟨1⟩) :=
  rfl

end Workspace

end GraphQuery
