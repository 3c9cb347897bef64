import GraphQuery.Expr.Operator
import GraphQuery.Pattern
import GraphQuery.Schema
import GraphQuery.Table
import GraphQuery.Value.Basic

/-!
# Expressions, reads and queries

One family of types carries a query from its front end to its text. A query is a main source with clauses and a
selector, all over front-end expressions such as source references, member accesses and method calls. A read is the
query as the graph store runs it: reading clauses and what they return. Its expressions speak of stored properties
and output names. Constants, operators and conditionals belong to both sides, which is why there is one type of
expressions.

The family is mutual because an expression may hold a nested query or a nested read.
-/

namespace GraphQuery

/-- The identity of one data source of a query. -/
structure SourceId where
  index : Nat
  deriving DecidableEq

/-- The name of a source in messages. -/
def SourceId.text (s : SourceId) : String :=
  "source#" ++ toString s.index

/-- A member, named by its owner and its own name. -/
structure MemberName where
  owner : String
  name : String
  deriving DecidableEq

instance : KeyOrder MemberName where
  before a b :=
    if a.owner = b.owner then KeyOrder.before a.name b.name else KeyOrder.before a.owner b.owner

/-- A member with the type that an access to it has. -/
structure Member where
  owner : String
  name : String
  type : ValueType
  deriving DecidableEq

/-- The key of a member. -/
def Member.key (m : Member) : MemberName :=
  ⟨m.owner, m.name⟩

/-- A property of a node of a pattern, under the name with which it is stored. -/
structure StoredProperty where
  name : String
  declared : DeclaredProperty
  node : Node
  deriving DecidableEq

/-- The relationship along which a join goes from its outer source. -/
structure JoinPath where
  direction : Direction := .undirected
  detail : RelationshipBody := {}
  deriving DecidableEq

mutual

/-- An expression of a query or of a read. -/
inductive Expr where
  | constant (value : Value) (type : ValueType)
  | parameter (name : String) (type : ValueType)
  /-- The current item of a data source. -/
  | source (id : SourceId) (type : ValueType)
  | member (target : Expr) (member : Member)
  | binary (op : Operator) (left right : Expr) (detail : OperatorDetail)
  | conditional (test ifTrue ifFalse : Expr) (type : ValueType)
  | convert (operand : Expr) (type : ValueType)
  | not (operand : Expr)
  | negate (operand : Expr)
  | isNull (operand : Expr)
  | call (target : Option Expr) (method : String) (arguments : List Expr) (type : ValueType)
  /-- The construction of an object from named members. -/
  | construct (typeName : String) (members : List (String × Expr))
  | subquery (query : Query)
  /-- A node of a front end's own. -/
  | extension (name : String) (type : ValueType)
  /-- A tuple of members that are compared one by one. -/
  | sequence (items : List Expr)
  | storage (property : StoredProperty)
  /-- An expression with an output name. -/
  | aliased (name : Option String) (expr : Expr)
  | read (read : Read)

/-- A read: reading clauses in the order of traversal, and what they return. -/
structure Read where
  clauses : List ReadingClause
  items : List Expr
  orderings : List SortTerm
  limit : Option Expr
  skip : Option Expr
  /-- Whether all properties of a node are returned in front of the items. -/
  star : Bool
  /-- The node whose properties are returned, when one is chosen. -/
  starNode : Option Node
  /-- The returned expressions that stand for members of a constructed object. -/
  projections : List (MemberName × Expr)
  /-- The output name of an item that has no name of its own. -/
  aliasPrefix : String

/-- A pattern to match, with a condition on what matches. -/
structure PatternMatch where
  pattern : Pattern
  predicate : Option Expr
  optional : Bool
  /-- The source whose items the clause produces. -/
  source : Option SourceId

/-- A clause of a read. -/
inductive ReadingClause where
  | pattern (clause : PatternMatch)
  /-- A read that stands as a clause of another read. -/
  | nested (source : Option SourceId) (read : Read)

/-- One term of an ordering. -/
structure SortTerm where
  expr : Expr
  descending : Bool

/-- Where the items of a source come from. -/
inductive SourceKind where
  | entitySet (entity : String)
  | subquery (query : Query)

/-- A named data source of a query. -/
structure Source where
  id : SourceId
  itemName : String
  kind : SourceKind

/-- A join with a further source, along a relationship or on equal keys. -/
structure Join where
  source : Source
  /-- The source from which the join starts. -/
  outer : SourceId
  relationship : Option JoinPath
  outerKey : Option Expr
  innerKey : Option Expr

/-- A clause of a query. -/
inductive QueryClause where
  | filter (predicate : Expr)
  | additional (source : Source)
  | join (join : Join)
  | orderBy (terms : List SortTerm)
  | take (count : Expr)
  | skip (count : Expr)

/-- A query as its front end hands it over. -/
structure Query where
  main : Source
  clauses : List QueryClause
  selector : Expr

end

namespace Expr

/-- A constant with the type that its value has at run time. -/
def ofValue (v : Value) : Expr :=
  .constant v (v.naturalType.getD .object)

/-- The truth value `true`, as a constant. -/
def truth : Expr :=
  .constant (.bool true) .bool

/-- A binary expression about whose operator nothing more is known. -/
def plain (op : Operator) (left right : Expr) : Expr :=
  .binary op left right {}

/-- Both conditions. -/
def andAlso (left right : Expr) : Expr :=
  plain .andAlso left right

/-- One of two conditions. -/
def orElse (left right : Expr) : Expr :=
  plain .orElse left right

end Expr

end GraphQuery
