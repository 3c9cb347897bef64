import GraphQuery.Number.Shortest
import GraphQuery.Table

/-!
# Tables of a document

A document is a tree of tables. How a table came about decides whether it may be extended: an inline table never, a
table with a header not by a dotted path, and a table made by a dotted path not by a header of its own.
-/

namespace GraphQuery.Toml

/-- How a table came about. -/
inductive Origin where
  /-- It is written in braces. -/
  | inline
  /-- It has a header, or is the document itself. -/
  | header
  /-- It stands in front of the last key of a header. -/
  | implied
  /-- It stands in front of the last key of a dotted path. -/
  | dotted
  deriving DecidableEq

mutual

/-- A value of a document. -/
inductive Item where
  | string (value : String)
  | integer (value : Int)
  /-- A floating-point number; infinities and NaN have no decimal form. -/
  | float (magnitude : Option Decimal)
  | boolean (value : Bool)
  | dateTime
  | array (items : List Item)
  /-- Tables under one repeated header, with the last one apart. -/
  | tables (earlier : List ItemTable) (last : ItemTable)
  | table (entries : ItemTable)

/-- A table of a document. -/
structure ItemTable where
  origin : Origin
  entries : List (String × Item)

end

namespace ItemTable

/-- A table without entries. -/
def empty (origin : Origin) : ItemTable :=
  ⟨origin, []⟩

/-- The value of a key. -/
def find? (t : ItemTable) (key : String) : Option Item :=
  Table.find? key t.entries

/-- Sets the value of a key. -/
def set (t : ItemTable) (key : String) (value : Item) : ItemTable :=
  { t with entries := Table.insert key value t.entries }

/-- Changes the table at the end of a path and makes the tables on the way that are missing. A path through repeated
tables goes to the last of them. -/
def descend (made : Origin) (change : ItemTable → Option ItemTable) :
    List String → ItemTable → Option ItemTable
  | [], t => change t
  | key :: rest, t =>
    match t.find? key with
    | none => do
      let child ← descend made change rest (empty made)
      return t.set key (.table child)
    | some (.tables earlier last) => do
      let last ← descend made change rest last
      return t.set key (.tables earlier last)
    | some (.table child) =>
      if child.origin = .inline ∨ (made = .dotted ∧ child.origin = .header) then none
      else do
        let child ← descend made change rest child
        return t.set key (.table child)
    | some _ => none

/-- Adds a value under a path of keys. The table that holds it has to have come about by the same kind of path. -/
def addValue (front : List String) (last : String) (value : Item) (t : ItemTable) :
    Option ItemTable :=
  t.descend .dotted (fun parent =>
    if decide (parent.origin = .dotted) = front.isEmpty then none
    else
      match parent.find? last with
      | some _ => none
      | none => some (parent.set last value)) front

/-- Opens the table of a header. -/
def openTable (front : List String) (last : String) (t : ItemTable) : Option ItemTable :=
  t.descend .implied (fun parent =>
    match parent.find? last with
    | none => some (parent.set last (.table (empty .header)))
    | some (.table child) =>
      if child.origin = .implied then some (parent.set last (.table { child with origin := .header }))
      else none
    | some _ => none) front

/-- Opens a further table of a repeated header. -/
def openRepeated (front : List String) (last : String) (t : ItemTable) : Option ItemTable :=
  t.descend .implied (fun parent =>
    match parent.find? last with
    | none => some (parent.set last (.tables [] (empty .header)))
    | some (.tables earlier current) =>
      some (parent.set last (.tables (earlier ++ [current]) (empty .header)))
    | some _ => none) front

end ItemTable

end GraphQuery.Toml
