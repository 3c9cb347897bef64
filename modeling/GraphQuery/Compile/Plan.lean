import GraphQuery.Compile.Progress
import GraphQuery.Lowering.Lower
import GraphQuery.Settings.Basic

/-!
# Plans

The plan of a query is its read and what is left to the client. The sources of the query are laid out as patterns
of one read, and the query clauses and the selector are then added to that read as far as the server can run them.
-/

namespace GraphQuery

/-- A pass over a finished read, which may change it or reject it. -/
abbrev ReadPass := Read → Except ReadError Read

/-- A read with what is left to the client. -/
structure Plan where
  read : Read
  clientParts : List ClientPart

/-- All that the compilation of a query depends on besides the query. -/
structure Compiler where
  schema : Schema
  settings : Settings := {}
  styles : StyleChoice := .standard
  outer : OuterQuery := .absent
  /-- Passes over the read once it has been checked. -/
  passes : List ReadPass := []
  /-- The values of the parameters that a read may refer to. -/
  parameters : Table String Json := []

namespace Compiler

/-- What expressions can refer to while a query is bound: its main read, for which they are lowered. -/
def scope (c : Compiler) (sources : SourceTable) (read : Read) : Scope where
  workspace := ⟨[read], sources⟩
  schema := c.schema
  styles := c.styles
  outer := c.outer
  target := some Layout.mainRead

/-- The form in which an expression runs on the server. All sources are in the main read, so nothing is promoted. -/
def lower? (c : Compiler) (sources : SourceTable) (p : Progress) (mode : Mode) (e : Expr) :
    Option Expr :=
  ((c.scope sources p.read).lower mode e).result

/-- Binds the terms of an ordering. -/
def bindTerm (c : Compiler) (sources : SourceTable) (p : Progress) (term : SortTerm) : Progress :=
  p.order term (c.lower? sources p .condition term.expr)

/-- Binds a query clause. -/
def bindClause (c : Compiler) (sources : SourceTable) (p : Progress) :
    QueryClause → Except CompileError Progress
  | .filter e => p.filter .predicate e (c.lower? sources p .condition e)
  | .additional _ => .ok p
  | .join join =>
    match join.relationship, join.outerKey, join.innerKey with
    | some _, _, _ => .ok p
    | none, some outer, some inner =>
      let condition := Expr.plain .equal outer inner
      p.filter .joinCondition condition (c.lower? sources p .condition condition)
    | none, _, _ => .error (.unsupported (.keylessJoin join.source.itemName))
  | .orderBy terms => .ok (terms.foldl (c.bindTerm sources) p)
  | .take count => .ok (p.take count (c.lower? sources p .condition count))
  | .skip count => .ok (p.skip count (c.lower? sources p .condition count))

/-- Binds one member of a constructed object. A constant is the client's unless it is to be sent to the server. -/
def selectMember (c : Compiler) (sources : SourceTable) (typeName : String) (p : Progress)
    (m : String × Expr) : Progress :=
  if m.2.isConstant && !c.settings.binding.projectConstants then
    p.leave (.projectionMember m.1) m.2
  else
    match c.lower? sources p .result m.2 with
    | some bound =>
      let (index, read) := p.read.addItem bound true
      let item := read.items.getD index bound
      { p with read := (read.nameMember ⟨typeName, m.1⟩ item).2 }
    | none => p.leaveEntity (.projectionMember m.1) m.2

/-- Returns a property of the items of a source. -/
def returnProperty (entity : Entity) (source : SourceId) (read : Read) (property : Property) : Read :=
  match read.storedProperty? ⟨entity.name, property⟩ source with
  | some bound => (read.addItem bound true).2
  | none => read

/-- Binds the selector. A reference to a source returns all properties of its entity, in the order of declaration. -/
def select (c : Compiler) (sources : SourceTable) (p : Progress) :
    Expr → Except CompileError Progress
  | .source id type =>
    match Table.find? id sources with
    | none => .error (.unknownSource id)
    | some _ =>
      match c.schema.entityOf? type with
      | none => .ok (p.leaveEntity .projection (.source id type))
      | some entity => .ok { p with read := entity.properties.foldl (returnProperty entity id) p.read }
  | .construct typeName members => .ok (members.foldl (c.selectMember sources typeName) p)
  | e =>
    match c.lower? sources p .result e with
    | some bound => .ok { p with read := (p.read.addItem bound true).2 }
    | none => .ok (p.leaveEntity .projection e)

/-- Returns the whole entity of the main source when the client needs it. -/
def returnEntity (main : SourceId) (p : Progress) : Except CompileError Read :=
  if p.needsEntity then
    match p.read.nodeOf? main with
    | some node => .ok { p.read with starNode := some node, star := true }
    | none => .error (.unknownSource main)
  else .ok p.read

/-- The read of a query with what is left to the client. -/
def plan (c : Compiler) (query : Query) : Except CompileError Plan := do
  let layout ← Layout.ofQuery c.schema c.settings.binding.defaultAliasPrefix query
  let bound ← query.clauses.foldlM (c.bindClause layout.sources) { read := layout.read }
  let selected ← c.select layout.sources bound query.selector
  return ⟨← returnEntity query.main.id selected, selected.clientParts⟩

end Compiler

end GraphQuery
