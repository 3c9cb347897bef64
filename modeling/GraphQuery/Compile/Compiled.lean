import GraphQuery.Compile.Plan
import GraphQuery.Read.WellFormed
import GraphQuery.Render.Generator

/-!
# Compiled queries

A query is compiled in three steps: its plan is made, the read of the plan is checked, and its text is written.
-/

namespace GraphQuery

/-- A compiled query. -/
structure CompiledQuery where
  text : String
  parameters : Table String Json
  /-- The types of the returned columns. -/
  columnTypes : List ValueType
  clientParts : List ClientPart

/-- Whether the server runs the whole query. -/
def CompiledQuery.runsOnServer (q : CompiledQuery) : Bool :=
  q.clientParts.isEmpty

namespace Compiler

/-- Checks a read and runs the passes over it. -/
def finish (c : Compiler) (read : Read) : Except ReadError Read := do
  read.check
  c.passes.foldlM (fun r pass => pass r) read

/-- The generator that writes the text of a compiled read. -/
def generator (c : Compiler) : Generator where
  settings := c.settings.text
  styles := c.styles
  parameters := c.parameters

/-- Compiles a query. -/
def compile (c : Compiler) (query : Query) : Except CompileError CompiledQuery := do
  c.settings.check.mapError .invalidSettings
  let plan ← c.plan query
  let read ← (c.finish plan.read).mapError .invalidRead
  let rendered ← (c.generator.render read).mapError .render
  return ⟨rendered.text, rendered.parameters, read.columnTypes, plan.clientParts⟩

end Compiler

end GraphQuery
