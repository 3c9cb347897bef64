import GraphQuery.Expr.Shape

/-!
# Null guards

A conditional such as `x != null ? x.a.b : null` only keeps a chain of member accesses from being applied to null.
A stored property that is missing reads as null anyway, so the guard can be dropped.
-/

namespace GraphQuery

/-- A branch of a conditional. -/
inductive Branch where
  | ifTrue
  | ifFalse
  deriving DecidableEq

namespace Expr

/-- Whether a chain of member accesses passes through `root`. Conversions along the chain are ignored. -/
def reachesFrom : Expr → Expr → Bool
  | .convert e _, root => e.reachesFrom root
  | .member target m, root => .member target m == root || target.reachesFrom root
  | e, root => e == root

/-- The operand that a comparison tests against null. -/
def testedForNull? (left right : Expr) : Option Expr :=
  if right.isNullConstant then some left.bare
  else if left.isNullConstant then some right.bare
  else none

/-- Whether `result` is a chain of at least one member access from `guarded`, and `other` is null. -/
def guards (guarded result other : Expr) : Bool :=
  other.isNullConstant && !(result.bare == guarded) && result.reachesFrom guarded

/-- The branch that a conditional protects from null, when that is all it does. -/
def guardedBranch? (test ifTrue ifFalse : Expr) : Option Branch :=
  match test.bare with
  | .binary op left right _ =>
    match testedForNull? left right with
    | none => none
    | some guarded =>
      match op with
      | .notEqual => if guards guarded ifTrue ifFalse then some .ifTrue else none
      | .equal => if guards guarded ifFalse ifTrue then some .ifFalse else none
      | _ => none
  | _ => none

/-- The branch that a conditional protects from null, as an expression. -/
def guarded? : Expr → Option Expr
  | .conditional test ifTrue ifFalse _ =>
    match guardedBranch? test ifTrue ifFalse with
    | some .ifTrue => some ifTrue
    | some .ifFalse => some ifFalse
    | none => none
  | _ => none

end Expr

end GraphQuery
