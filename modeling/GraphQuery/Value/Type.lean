/-!
# Semantic types

Every expression has a semantic type. Comparisons ask for equal types, so a type and its nullable form are
different, and so are two enumerations with the same underlying type.
-/

namespace GraphQuery

/-- The semantic type of an expression. -/
inductive ValueType where
  | bool
  | int32
  | int64
  | float64
  | string
  | dateTime
  /-- A named enumeration, stored as its underlying type. -/
  | enum (name : String) (underlying : ValueType)
  | nullable (inner : ValueType)
  /-- A mapped node type. -/
  | entity (name : String)
  /-- A value whose type is not known. -/
  | object
  /-- A tuple of members that are compared one by one. -/
  | memberSequence
  deriving DecidableEq

namespace ValueType

/-- The nullable form of a type; a nullable type is its own nullable form. -/
def toNullable : ValueType → ValueType
  | nullable inner => nullable inner
  | t => nullable t

/-- Whether the outermost layer of a type is nullable. -/
def isNullable : ValueType → Bool
  | nullable _ => true
  | _ => false

/-- The type without its outermost nullable layer. -/
def withoutNullable : ValueType → ValueType
  | nullable inner => inner
  | t => t

/-- The underlying type of an enumeration; any other type is kept. -/
def withoutEnum : ValueType → ValueType
  | enum _ underlying => underlying
  | t => t

/-- The type by which the literal form of a value is looked up. -/
def storage (t : ValueType) : ValueType :=
  t.withoutNullable.withoutEnum

/-- Whether a type is the truth values, or their nullable form. -/
def isBool (t : ValueType) : Bool :=
  t.withoutNullable = bool

/-- The underlying type, when a type is an enumeration or the nullable form of one. -/
def underlying? (t : ValueType) : Option ValueType :=
  match t.withoutNullable with
  | enum _ underlying => some underlying
  | _ => none

/-- The name of a type in messages. -/
def text : ValueType → String
  | bool => "bool"
  | int32 => "int32"
  | int64 => "int64"
  | float64 => "float64"
  | string => "string"
  | dateTime => "datetime"
  | enum name _ => name
  | nullable inner => inner.text ++ "?"
  | entity name => name
  | object => "object"
  | memberSequence => "member[]"

end ValueType

end GraphQuery
