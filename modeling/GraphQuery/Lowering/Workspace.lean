import GraphQuery.Lowering.Outcome
import GraphQuery.Read.Items

/-!
# Workspaces

Reads under construction with the table of their sources. The main read of a query comes first; further reads
may stand behind it, and members of their items can be promoted to their return items.
-/

namespace GraphQuery

/-- Reads under construction, and the sources whose items they produce. -/
structure Workspace where
  reads : List Read := []
  sources : SourceTable := []

namespace Workspace

/-- The workspace of a query. -/
def ofQuery (schema : Schema) (aliasPrefix : String) (query : Query) :
    Except CompileError Workspace := do
  let layout ← Layout.ofQuery schema aliasPrefix query
  return ⟨[layout.read], layout.sources⟩

/-- Adds a read, and gives its position. -/
def addRead (r : Read) (workspace : Workspace) : ReadId × Workspace :=
  (workspace.reads.length, { workspace with reads := workspace.reads ++ [r] })

/-- Says where the items of a source are read. -/
def setSource (source : SourceId) (entry : SourceEntry) (workspace : Workspace) : Workspace :=
  { workspace with sources := Table.insert source entry workspace.sources }

/-- What is known of a source. -/
def source? (workspace : Workspace) (source : SourceId) : Option SourceEntry :=
  Table.find? source workspace.sources

/-- The position of the read that produces the items of a source. -/
def readOf? (workspace : Workspace) (source : SourceId) : Option ReadId :=
  (workspace.source? source).map SourceEntry.read

/-- Whether a source came in by a join. -/
def isJoin (workspace : Workspace) (source : SourceId) : Bool :=
  match workspace.source? source with
  | some entry => entry.role = .join
  | none => false

/-- The read at a position. -/
def read? (workspace : Workspace) (id : ReadId) : Option Read :=
  workspace.reads[id]?

/-- Changes the read at a position. -/
def modify (id : ReadId) (f : Read → Read) (workspace : Workspace) : Workspace :=
  { workspace with reads := workspace.reads.modify id f }

/-- Adds a promoted member to the return items of its read. -/
def promote (workspace : Workspace) (p : Promotion) : Workspace :=
  workspace.modify p.read fun r => (r.addItem p.item true).2

/-- Adds all promoted members to the return items of their reads. -/
def promoteAll (workspace : Workspace) (ps : List Promotion) : Workspace :=
  ps.foldl promote workspace

end Workspace

end GraphQuery
