import GraphQuery.Expr.Shape

/-!
# Reading clauses

The clauses of a read in the order of traversal, the node that stands for the items of a source, and the
condition of the last pattern.
-/

namespace GraphQuery

namespace PatternMatch

/-- A pattern that produces the items of a source, without a condition. -/
def ofSource (source : SourceId) (pattern : Pattern) : PatternMatch :=
  ⟨pattern, none, false, some source⟩

/-- Adds a condition to the ones that are there. -/
def restrict (condition : Expr) (c : PatternMatch) : PatternMatch :=
  { c with
    predicate := some (match c.predicate with
      | some existing => Expr.andAlso existing condition
      | none => condition) }

end PatternMatch

namespace ReadingClause

/-- The source whose items a clause produces. -/
def source? : ReadingClause → Option SourceId
  | .pattern c => c.source
  | .nested source _ => source

/-- The node that stands for the items of a clause; a nested read has none. -/
def node? : ReadingClause → Option Node
  | .pattern c => some c.pattern.terminal
  | .nested _ _ => none

/-- The last pattern of a list of clauses. -/
def lastMatch? : List ReadingClause → Option PatternMatch
  | [] => none
  | c :: rest =>
    match lastMatch? rest with
    | some found => some found
    | none =>
      match c with
      | .pattern m => some m
      | .nested _ _ => none

/-- Adds a condition to the last pattern of a list of clauses. -/
def restrictLast? (condition : Expr) : List ReadingClause → Option (List ReadingClause)
  | [] => none
  | c :: rest =>
    match restrictLast? condition rest with
    | some changed => some (c :: changed)
    | none =>
      match c with
      | .pattern m => some (.pattern (m.restrict condition) :: rest)
      | .nested _ _ => none

end ReadingClause

namespace Read

/-- The output name given to items without a name, unless another is chosen. -/
def defaultAliasPrefix : String := "s"

/-- A read without clauses that returns nothing. -/
def empty (aliasPrefix : String) : Read :=
  ⟨[], [], [], none, none, false, none, [], aliasPrefix⟩

/-- Appends a clause. -/
def addClause (c : ReadingClause) (r : Read) : Read :=
  { r with clauses := r.clauses ++ [c] }

/-- The last pattern, to which conditions are added. -/
def lastMatch? (r : Read) : Option PatternMatch :=
  ReadingClause.lastMatch? r.clauses

/-- Adds a condition to the last pattern; a read without patterns takes none. -/
def restrict? (condition : Expr) (r : Read) : Option Read :=
  (ReadingClause.restrictLast? condition r.clauses).map fun clauses => { r with clauses }

/-- The node whose properties are all returned: the chosen one, or the node of the only clause. -/
def returnedNode? (r : Read) : Option Node :=
  match r.starNode with
  | some node => some node
  | none =>
    match r.clauses with
    | [c] => c.node?
    | _ => none

/-- The node that stands for the items of a source. The first clause of the source decides; without one it is
the returned node. -/
def nodeOf? (r : Read) (source : SourceId) : Option Node :=
  match r.clauses.find? fun c => c.source? == some source with
  | some c => c.node?
  | none => r.returnedNode?

/-- A property of the items of a source, as it is stored. -/
def storedProperty? (r : Read) (declared : DeclaredProperty) (source : SourceId) : Option Expr :=
  (r.nodeOf? source).map fun node => .storage ⟨declared.property.storedAs, declared, node⟩

/-- Appends a term to the ordering. -/
def addSortTerm (term : SortTerm) (r : Read) : Read :=
  { r with orderings := r.orderings ++ [term] }

end Read

end GraphQuery
