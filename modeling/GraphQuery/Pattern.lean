/-!
# Graph patterns

A pattern is a chain of nodes joined by relationships.
-/

namespace GraphQuery

/-- A node of a pattern, with the alias by which the query refers to it. -/
structure Node where
  name : Option String := none
  labels : List String := []
  deriving DecidableEq

/-- The side or sides to which a relationship points. -/
inductive Direction where
  | both
  | left
  | right
  | undirected
  deriving DecidableEq

/-- How many relationships a step may pass; a missing bound is open. -/
structure Hops where
  lower : Option Nat := none
  upper : Option Nat := none
  deriving DecidableEq

/-- The bracketed part of a relationship. -/
structure RelationshipBody where
  name : Option String := none
  kinds : List String := []
  range : Option Hops := none
  deriving DecidableEq

/-- A relationship between two neighbouring nodes of a pattern. -/
structure Relationship where
  direction : Direction := .undirected
  detail : Option RelationshipBody := none
  deriving DecidableEq

/-- A node followed by steps along relationships. -/
structure Pattern where
  start : Node
  steps : List (Relationship × Node) := []
  deriving DecidableEq

namespace Pattern

/-- The node at the end of the chain, which stands for the items of the pattern's source. -/
def terminal (p : Pattern) : Node :=
  match p.steps.getLast? with
  | some (_, node) => node
  | none => p.start

end Pattern

end GraphQuery
