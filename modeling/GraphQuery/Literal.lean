import GraphQuery.Number.Shortest
import GraphQuery.Schema
import GraphQuery.Text
import GraphQuery.Value.Basic

/-!
# Literals

How values are written into a query. A literal style belongs to a store type and writes the values of one form; a
choice of styles gives the style for a type, a value or a property.
-/

namespace GraphQuery

/-- The forms of literals. -/
inductive LiteralForm where
  | boolean
  | integer
  | float
  | string
  /-- A text passed to a constructor function. -/
  | temporal (function : String)
  deriving DecidableEq

/-- The way in which the values of a store type are written. -/
structure LiteralStyle where
  storeType : String
  form : LiteralForm
  deriving DecidableEq

namespace LiteralStyle

/-- Truth values. -/
def boolean : LiteralStyle := ⟨"BOOLEAN", .boolean⟩

/-- Integers of any width. -/
def integer : LiteralStyle := ⟨"INTEGER", .integer⟩

/-- Floating-point numbers. -/
def float : LiteralStyle := ⟨"FLOAT", .float⟩

/-- Texts. -/
def string : LiteralStyle := ⟨"STRING", .string⟩

/-- Points in time. -/
def dateTime : LiteralStyle := ⟨"DATETIME", .temporal "datetime"⟩

/-- Points in time without a zone. -/
def localDateTime : LiteralStyle := ⟨"LOCALDATETIME", .temporal "localdatetime"⟩

/-- Days. -/
def date : LiteralStyle := ⟨"DATE", .temporal "date"⟩

/-- All styles that are provided. -/
def all : List LiteralStyle :=
  [boolean, integer, float, string, dateTime, localDateTime, date]

/-- Whether a style can write a value. -/
def accepts (style : LiteralStyle) (v : Value) : Bool :=
  match style.form, v with
  | _, .null => true
  | .boolean, .bool _ => true
  | .integer, .int32 _ => true
  | .integer, .int64 _ => true
  | .float, .float64 _ => true
  | .string, .string _ => true
  | .temporal _, .dateTime _ => true
  | .temporal _, .string _ => true
  | _, _ => false

end LiteralStyle

/-- The literal of a floating-point number: its shortest decimal text, with a fraction in every case. -/
def Binary64.literal (x : Binary64) : String :=
  if x.isFinite && !x.text.toList.contains '.' then x.text ++ ".0" else x.text

namespace LiteralStyle

/-- The literal of a value, when the style can write it. -/
def literal? (style : LiteralStyle) (v : Value) : Option String :=
  match style.form, v with
  | _, .null => some "null"
  | .boolean, .bool b => some (if b then "true" else "false")
  | .integer, .int32 n => some (toString n.toInt)
  | .integer, .int64 n => some (toString n.toInt)
  | .float, .float64 x => some x.literal
  | .string, .string s => some (Text.quote s)
  | .temporal function, .dateTime t => some (function ++ "(" ++ Text.quote t.text ++ ")")
  | .temporal function, .string s => some (function ++ "(" ++ Text.quote s ++ ")")
  | _, _ => none

/-- The style for the values of a type. -/
def ofType? (t : ValueType) : Option LiteralStyle :=
  match t.storage with
  | .bool => some boolean
  | .int32 => some integer
  | .int64 => some integer
  | .float64 => some float
  | .string => some string
  | .dateTime => some dateTime
  | _ => none

/-- The style for a property: its store type decides when it names a temporal one, and its semantic type
otherwise. -/
def ofProperty? (declared : DeclaredProperty) : Option LiteralStyle :=
  match declared.property.storeType with
  | some store =>
    if Text.sameLetters store "date" then some date
    else if Text.sameLetters store "datetime" then some dateTime
    else if Text.sameLetters store "localdatetime" then some localDateTime
    else ofType? declared.property.type
  | none => ofType? declared.property.type

end LiteralStyle

/-- The choice of styles for types, properties and values. -/
structure StyleChoice where
  forType : ValueType → Option LiteralStyle
  forProperty : DeclaredProperty → Option LiteralStyle
  /-- The style for a value, by its type at run time unless said otherwise. -/
  forValue : Value → Option LiteralStyle := fun v => v.naturalType.bind fun t => forType t.storage

namespace StyleChoice

/-- The styles for the types that come with the library. -/
def standard : StyleChoice where
  forType := LiteralStyle.ofType?
  forProperty := LiteralStyle.ofProperty?

/-- The choice that follows the given entries, the first one for a type or a property name, and another choice in
all other cases. -/
def overriding (types : List (ValueType × Option LiteralStyle))
    (properties : List (String × Option LiteralStyle)) (base : StyleChoice) : StyleChoice where
  forType t := (types.lookup t).getD (base.forType t)
  forProperty declared := (properties.lookup declared.property.name).getD (base.forProperty declared)

end StyleChoice

end GraphQuery
