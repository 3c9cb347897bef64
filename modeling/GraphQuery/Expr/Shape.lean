import GraphQuery.Expr.Equality

/-!
# What an expression is

The kind of an expression, its type, its output name, and its form without conversions. A conversion changes
the type of an expression and never its value, so most questions look through it.
-/

namespace GraphQuery

/-- The kinds of expressions. -/
inductive ExprKind where
  | constant
  | parameter
  | source
  | member
  | binary
  | conditional
  | convert
  | not
  | negate
  | isNull
  | call
  | construct
  | subquery
  | extension
  | sequence
  | storage
  | aliased
  | read
  deriving DecidableEq

/-- The name of a kind in messages. -/
def ExprKind.text : ExprKind → String
  | constant => "constant"
  | parameter => "parameter"
  | source => "source reference"
  | member => "member access"
  | binary => "binary"
  | conditional => "conditional"
  | convert => "convert"
  | not => "not"
  | negate => "negate"
  | isNull => "is null"
  | call => "method call"
  | construct => "new object"
  | subquery => "subquery"
  | extension => "extension"
  | sequence => "member sequence"
  | storage => "storage"
  | aliased => "alias"
  | read => "nested read"

namespace Expr

/-- The kind of an expression. -/
def kind : Expr → ExprKind
  | .constant .. => .constant
  | .parameter .. => .parameter
  | .source .. => .source
  | .member .. => .member
  | .binary .. => .binary
  | .conditional .. => .conditional
  | .convert .. => .convert
  | .not _ => .not
  | .negate _ => .negate
  | .isNull _ => .isNull
  | .call .. => .call
  | .construct .. => .construct
  | .subquery _ => .subquery
  | .extension .. => .extension
  | .sequence _ => .sequence
  | .storage _ => .storage
  | .aliased .. => .aliased
  | .read _ => .read

end Expr

/-- The type of a binary expression with operands of the given types. -/
def Operator.resultType (op : Operator) (detail : OperatorDetail) (left right : ValueType) :
    ValueType :=
  if op.isComparison then
    if detail.lifted then .nullable .bool else .bool
  else
    match op with
    | .andAlso | .orElse => .bool
    | .coalesce => right
    | _ => left

mutual

/-- The semantic type of an expression. -/
def Expr.type : Expr → ValueType
  | .constant _ t => t
  | .parameter _ t => t
  | .source _ t => t
  | .member _ m => m.type
  | .binary op l r detail => op.resultType detail l.type r.type
  | .conditional _ _ _ t => t
  | .convert _ t => t
  | .not e => e.type
  | .negate e => e.type
  | .isNull _ => .bool
  | .call _ _ _ t => t
  | .construct _ _ => .object
  | .subquery _ => .object
  | .extension _ t => t
  | .sequence _ => .memberSequence
  | .storage p => p.declared.property.type
  | .aliased _ e => e.type
  | .read r => r.valueType

/-- The type of a read as a value: that of its only return item. -/
def Read.valueType : Read → ValueType
  | ⟨_, items, _, _, _, _, _, _, _⟩ => Expr.soleType items

/-- The type of the only expression of a list. -/
def Expr.soleType : List Expr → ValueType
  | [] => .object
  | e :: rest => if rest.isEmpty then e.type else .object

end

namespace Expr

/-- The expression under all conversions around it. -/
def bare : Expr → Expr
  | .convert e _ => e.bare
  | e => e

/-- Whether an expression is the constant null, perhaps converted. -/
def isNullConstant (e : Expr) : Bool :=
  match e.bare with
  | .constant .null _ => true
  | _ => false

/-- Whether an expression is a tuple of members, perhaps converted. -/
def isSequence (e : Expr) : Bool :=
  match e.bare with
  | .sequence _ => true
  | _ => false

/-- Whether an expression is a constant, perhaps converted. -/
def isConstant (e : Expr) : Bool :=
  match e.bare with
  | .constant _ _ => true
  | _ => false

/-- Whether an expression is one value rather than a combination of values. -/
def isOneValue : Expr → Bool
  | .constant _ _ => true
  | .parameter _ _ => true
  | .storage _ => true
  | .convert e _ => e.isOneValue
  | .aliased _ e => e.isOneValue
  | _ => false

/-- The name that a return item has in the result: its alias, or the name of the stored property. -/
def outputName (e : Expr) : Option String :=
  match e.bare with
  | .aliased name _ => name
  | .storage p => some p.name
  | _ => none

/-- The expression under an output name. -/
def unaliased : Expr → Expr
  | .aliased _ e => e
  | e => e

end Expr

end GraphQuery
