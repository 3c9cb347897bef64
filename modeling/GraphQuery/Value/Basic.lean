import GraphQuery.Number.Binary64
import GraphQuery.Time.Instant
import GraphQuery.Value.Type

/-!
# Constants

The values that a query can hold as constants, with the type that each has at run time and the JSON form in
which it is sent as a parameter.
-/

namespace GraphQuery

/-- A JSON value. Integers are kept apart from floating-point numbers. -/
inductive Json where
  | null
  | bool (value : Bool)
  | int (value : Int)
  | float (value : Binary64)
  | string (value : String)
  | array (items : List Json)
  | object (fields : List (String × Json))

/-- A constant value. -/
inductive Value where
  | null
  | bool (value : Bool)
  | int32 (value : Int32)
  | int64 (value : Int64)
  | float64 (value : Binary64)
  | string (value : String)
  | dateTime (value : Instant)
  /-- A member of an enumeration, as its underlying integer. -/
  | enum (typeName : String) (value : Int64)

namespace Value

/-- Equality of values of one kind; floating-point numbers are compared as numbers. -/
protected def beq : Value → Value → Bool
  | null, null => true
  | bool a, bool b => a == b
  | int32 a, int32 b => a == b
  | int64 a, int64 b => a == b
  | float64 a, float64 b => a == b
  | string a, string b => a == b
  | dateTime a, dateTime b => a == b
  | enum n a, enum m b => n == m && a == b
  | _, _ => false

instance : BEq Value := ⟨Value.beq⟩

/-- Whether a value is null. -/
def isNull : Value → Bool
  | null => true
  | _ => false

/-- The type of a value at run time; null has none. -/
def naturalType : Value → Option ValueType
  | null => none
  | bool _ => some .bool
  | int32 _ => some .int32
  | int64 _ => some .int64
  | float64 _ => some .float64
  | string _ => some .string
  | dateTime _ => some .dateTime
  | enum typeName _ => some (.enum typeName .int64)

/-- The 32-bit integer equal to a 64-bit one, when there is one. -/
def narrow? (n : Int64) : Option Int32 :=
  if n.toInt32.toInt64 = n then some n.toInt32 else none

/-- The integer behind a member of an enumeration. It has 32 bits when the underlying type has and the integer
fits, and 64 bits otherwise. Any other value is kept. -/
def withoutEnum (underlying : Option ValueType) : Value → Value
  | enum _ n =>
    if underlying = some .int32 then
      match narrow? n with
      | some small => int32 small
      | none => int64 n
    else int64 n
  | v => v

/-- The form in which a value is sent as a parameter. A number that is not finite has no JSON form and is sent as
null. -/
def toJson : Value → Json
  | null => .null
  | bool b => .bool b
  | int32 n => .int n.toInt
  | int64 n => .int n.toInt
  | float64 x => if x.isFinite then .float x else .null
  | string s => .string s
  | dateTime t => .string t.text
  | enum _ n => .int n.toInt

end Value

end GraphQuery
