import GraphQuery.Error
import GraphQuery.Read.Clauses
import GraphQuery.Source

/-!
# Layout of sources

Before any expression is lowered, each source of a query gets a clause in the main read. The table of sources
says which read produces the items of a source.
-/

namespace GraphQuery

/-- How a source came into a query. -/
inductive SourceRole where
  | main
  | additional
  | join
  deriving DecidableEq

/-- The position of a read among those under construction. -/
abbrev ReadId := Nat

/-- What is known of a source. -/
structure SourceEntry where
  read : ReadId
  role : SourceRole
  itemName : String
  itemType : ValueType
  deriving DecidableEq

instance : KeyOrder SourceId := ⟨fun a b => Nat.blt a.index b.index⟩

/-- The sources that are known. -/
abbrev SourceTable := Table SourceId SourceEntry

/-- The node of a pattern that stands for the items of a source. -/
def Schema.nodeOf (schema : Schema) (source : Source) : Except CompileError Node :=
  match source.kind with
  | .entitySet name =>
    match schema.find? name with
    | some entity => .ok ⟨some source.itemName, entity.labels⟩
    | none => .error (.unknownEntity name)
  | .subquery _ => .error (.unsupported (.nestedSource source.itemName))

/-- The main read of a query with the table of its sources. -/
structure Layout where
  read : Read
  sources : SourceTable

namespace Layout

/-- The position of the main read. -/
def mainRead : ReadId := 0

/-- Adds a pattern that produces the items of a source. -/
def addSource (source : Source) (role : SourceRole) (pattern : Pattern) (l : Layout) : Layout where
  read := l.read.addClause (.pattern (.ofSource source.id pattern))
  sources := Table.insert source.id ⟨mainRead, role, source.itemName, source.itemType⟩ l.sources

/-- Adds a pattern with one node for the items of an entity. -/
def addEntity (schema : Schema) (source : Source) (role : SourceRole) (l : Layout) :
    Except CompileError Layout := do
  let node ← schema.nodeOf source
  return l.addSource source role ⟨node, []⟩

/-- Adds the source that a join introduces. A join along a relationship starts at the node of its outer source,
which has to be known by then. -/
def addJoin (schema : Schema) (join : Join) (l : Layout) : Except CompileError Layout :=
  match join.relationship with
  | none => l.addEntity schema join.source .join
  | some path =>
    match Table.find? join.outer l.sources with
    | none => .error (.unknownSource join.outer)
    | some outer => do
      let node ← schema.nodeOf join.source
      return l.addSource join.source .join
        ⟨⟨some outer.itemName, []⟩, [(⟨path.direction, some path.detail⟩, node)]⟩

/-- Adds the source that a query clause introduces. -/
def addClause (schema : Schema) (l : Layout) : QueryClause → Except CompileError Layout
  | .additional source => l.addEntity schema source .additional
  | .join join => l.addJoin schema join
  | .filter _ | .orderBy _ | .take _ | .skip _ => .ok l

/-- The main read of a query, with one pattern for each source in the order of introduction. -/
def ofQuery (schema : Schema) (aliasPrefix : String) (query : Query) :
    Except CompileError Layout := do
  let start : Layout := ⟨Read.empty aliasPrefix, []⟩
  query.clauses.foldlM (addClause schema) (← start.addEntity schema query.main .main)

end Layout

end GraphQuery
