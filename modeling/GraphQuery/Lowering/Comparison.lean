import GraphQuery.Expr.Shape

/-!
# Comparisons

How a binary expression with lowered operands is written for the server. A comparison with null becomes a
null test, operands that differ only in being nullable are widened, and equality of tuples becomes equality of
their members.
-/

namespace GraphQuery

namespace Expr

/-- Removes a conversion to a nullable type. -/
def withoutNullableConvert : Expr → Expr
  | .convert e (.nullable _) => e
  | e => e

/-- A comparison with the constant null, as a null test. Only equality and inequality have one. -/
def nullTest? (op : Operator) (left right : Expr) : Option Expr :=
  let operand? :=
    if right.isNullConstant then some left
    else if left.isNullConstant then some right
    else none
  match operand?, op with
  | some operand, .equal => some (.isNull operand.withoutNullableConvert)
  | some operand, .notEqual => some (.not (.isNull operand.withoutNullableConvert))
  | _, _ => none

/-- Converts the operand that is not nullable when the types differ only in that. -/
def widen (left right : Expr) : Expr × Expr :=
  if left.type = right.type ∨ left.type.withoutNullable ≠ right.type.withoutNullable then
    (left, right)
  else if left.type.isNullable then (left, .convert right left.type)
  else (.convert left right.type, right)

/-- A comparison of two lowered operands. Tuples know only equality and inequality; all other operands have to
be of one type once widened. -/
def comparison? (op : Operator) (left right : Expr) (detail : OperatorDetail) : Option Expr :=
  if left.isSequence || right.isSequence then
    match op with
    | .equal | .notEqual => some (.binary op left right detail)
    | _ => none
  else
    match nullTest? op left right with
    | some test => some test
    | none =>
      let (left, right) := widen left right
      if left.type = right.type then some (.binary op left right detail) else none

/-- The comparison of one pair of members. -/
def pairComparison (op : Operator) (left right : Expr) : Expr :=
  (nullTest? op left right).getD (.plain op left right)

/-- The conjunction of pair comparisons for equality, and their disjunction for inequality. -/
def joinPairs (op : Operator) (first : Expr) (rest : List Expr) : Expr :=
  rest.foldl (fun acc pair => if op = .notEqual then orElse acc pair else andAlso acc pair) first

/-- The comparison of two tuples member by member. Tuples of different lengths and empty ones are not compared. The
equality of tuples with one member is followed by `true`. -/
def unfoldPairs? (op : Operator) (left right : List Expr) : Option Expr :=
  if left.length = right.length then
    match List.zipWith (pairComparison op) left right with
    | [] => none
    | first :: rest =>
      let joined := joinPairs op first rest
      if rest.isEmpty && op = .equal then some (andAlso joined truth) else some joined
  else none

/-- Writes a comparison of tuples as comparisons of their members. A null stands for a tuple of nulls; any other
operand cannot be compared with a tuple. Other expressions are kept. -/
def unfoldSequences? : Expr → Option Expr
  | .binary op left right detail =>
    match left.bare, right.bare with
    | .sequence ls, .sequence rs => unfoldPairs? op ls rs
    | .sequence ls, other =>
      if other.isNullConstant then unfoldPairs? op ls (List.replicate ls.length other) else none
    | other, .sequence rs =>
      if other.isNullConstant then unfoldPairs? op (List.replicate rs.length other) rs else none
    | _, _ => some (.binary op left right detail)
  | e => some e

/-- A binary expression with lowered operands, as it is written for the server. -/
def combine? (op : Operator) (left right : Expr) (detail : OperatorDetail) : Option Expr :=
  match op with
  | .coalesce =>
    if left.isSequence || right.isSequence then none else some (.binary op left right detail)
  | .equal | .notEqual => (comparison? op left right detail).bind unfoldSequences?
  | .greaterThan | .greaterThanOrEqual | .lessThan | .lessThanOrEqual =>
    comparison? op left right detail
  | .add | .subtract | .multiply | .divide | .modulo | .exclusiveOr | .and | .or | .andAlso
  | .orElse => some (.binary op left right detail)

end Expr

end GraphQuery
