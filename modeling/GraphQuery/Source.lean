import GraphQuery.Expr.Basic

/-!
# Sources of a query
-/

namespace GraphQuery

namespace Source

/-- The type of the items of a source. -/
def itemType (s : Source) : ValueType :=
  match s.kind with
  | .entitySet entity => .entity entity
  | .subquery _ => .object

/-- The current item of a source. -/
def reference (s : Source) : Expr :=
  .source s.id s.itemType

/-- The owner of the members of a source's items: the entity, or the item's own name. -/
def memberOwner (s : Source) : String :=
  match s.kind with
  | .entitySet entity => entity
  | .subquery _ => s.itemName

/-- A member of the current item of a source. -/
def member (s : Source) (name : String) (type : ValueType) : Expr :=
  .member s.reference ⟨s.memberOwner, name, type⟩

end Source

/-- The source that a query clause introduces. -/
def QueryClause.source? : QueryClause → Option Source
  | .additional s => some s
  | .join j => some j.source
  | _ => none

namespace Query

/-- The query that returns the items of a source. -/
def ofSource (s : Source) : Query :=
  ⟨s, [], s.reference⟩

/-- All sources of a query, the main one first. -/
def sources (q : Query) : List Source :=
  q.main :: q.clauses.filterMap QueryClause.source?

end Query

end GraphQuery
