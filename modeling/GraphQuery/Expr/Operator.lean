/-!
# Binary operators
-/

namespace GraphQuery

/-- A binary operator. `and` and `or` work on all operands, `andAlso` and `orElse` stop at the first that
decides; a query writes both pairs in the same way. -/
inductive Operator where
  | coalesce
  | equal
  | notEqual
  | greaterThan
  | greaterThanOrEqual
  | lessThan
  | lessThanOrEqual
  | add
  | subtract
  | multiply
  | divide
  | modulo
  | exclusiveOr
  | and
  | or
  | andAlso
  | orElse
  deriving DecidableEq

namespace Operator

/-- Whether an operator compares its operands. -/
def isComparison : Operator → Bool
  | equal | notEqual | greaterThan | greaterThanOrEqual | lessThan | lessThanOrEqual => true
  | _ => false

/-- The symbol between the operands; `coalesce` is written as a function and has none. -/
def symbol? : Operator → Option String
  | coalesce => none
  | equal => some " = "
  | notEqual => some " <> "
  | greaterThan => some " > "
  | greaterThanOrEqual => some " >= "
  | lessThan => some " < "
  | lessThanOrEqual => some " <= "
  | add => some " + "
  | subtract => some " - "
  | multiply => some " * "
  | divide => some " / "
  | modulo => some " % "
  | exclusiveOr => some " ^ "
  | and | andAlso => some " AND "
  | or | orElse => some " OR "

end Operator

/-- What a front end may say about an operator beyond its kind. -/
structure OperatorDetail where
  /-- The result is null when an operand is. -/
  lifted : Bool := false
  /-- The method that implements the operator. -/
  method : Option String := none
  /-- The conversion applied to the left operand of a `coalesce`. -/
  conversion : Option String := none
  deriving DecidableEq

end GraphQuery
