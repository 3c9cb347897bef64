import GraphQuery.Error
import GraphQuery.Read.Clauses

/-!
# Well-formed reads

A read is checked before it is written: each pattern says something, no output name is given twice, and stored
properties belong to nodes with an alias.
-/

namespace GraphQuery

/-- The aliases of return items that are given explicitly. -/
def Expr.explicitName? : Expr → Option String
  | .aliased name _ => name
  | _ => none

mutual

/-- Checks that the stored properties of an expression belong to nodes with an alias. -/
def Expr.checkStored : Expr → Except ReadError Unit
  | .storage p =>
    if p.node.name.isNone then .error (.unaliasedStorage p.declared.property.name) else .ok ()
  | .binary _ left right _ => do
    left.checkStored
    right.checkStored
  | .conditional test ifTrue ifFalse _ => do
    test.checkStored
    ifTrue.checkStored
    ifFalse.checkStored
  | .convert operand _ => operand.checkStored
  | .not operand => operand.checkStored
  | .negate operand => operand.checkStored
  | .isNull operand => operand.checkStored
  | .aliased _ e => e.checkStored
  | .sequence items => Expr.checkStoredAll items
  | .constant .. | .parameter .. | .source .. | .member .. | .call .. | .construct .. | .subquery _
  | .extension .. | .read _ => .ok ()

/-- Checks the stored properties of a list of expressions. -/
def Expr.checkStoredAll : List Expr → Except ReadError Unit
  | [] => .ok ()
  | e :: rest => do
    e.checkStored
    Expr.checkStoredAll rest

end

/-- Whether a pattern says nothing: one node with neither alias nor labels. -/
def Pattern.isVacuous (p : Pattern) : Bool :=
  p.steps.isEmpty && p.start.name.isNone && p.start.labels.isEmpty

namespace Read

/-- Checks reading clauses, of which the first has the given position. -/
def checkClauses : Nat → List ReadingClause → Except ReadError Unit
  | _, [] => .ok ()
  | index, .pattern c :: rest => do
    if c.pattern.isVacuous then .error (.emptyPattern index)
    Expr.checkStoredAll c.predicate.toList
    checkClauses (index + 1) rest
  | index, .nested _ _ :: rest => checkClauses (index + 1) rest

/-- Checks return items, with the output names given before them. -/
def checkItems : List String → List Expr → Except ReadError Unit
  | _, [] => .ok ()
  | taken, item :: rest => do
    match item.explicitName? with
    | some name =>
      if name ∈ taken then .error (.duplicateAlias name)
      item.checkStored
      checkItems (name :: taken) rest
    | none =>
      item.checkStored
      checkItems taken rest

/-- Checks that a read is well formed. -/
def check (r : Read) : Except ReadError Unit := do
  checkClauses 0 r.clauses
  checkItems [] r.items
  Expr.checkStoredAll (r.orderings.map SortTerm.expr)

end Read

end GraphQuery
