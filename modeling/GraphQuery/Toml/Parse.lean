import GraphQuery.Toml.Scalar

/-!
# Documents

A document is a list of statements, one to a line: a value under a path of keys, or the header of a table to which the
following values belong.
-/

namespace GraphQuery.Toml

/-- How deep arrays and inline tables may be nested. -/
def nestingLimit : Nat := 80

/-- Reads what stands between a path of keys and its value. -/
def equalSign : Scan Unit := do
  skipSpaces
  Scan.expect '='
  skipSpaces

/-- A failing scanner where there is no value. -/
def orFail {α : Type} : Option α → Scan α
  | some a => return a
  | none => failure

mutual

/-- Reads a value. The first number bounds the steps of reading, the second the nesting that is left. -/
def value : Nat → Nat → Scan Item
  | 0, _ => failure
  | steps + 1, depth => do
    match ← Scan.peek? with
    | some '\x22' => return .string (← anyString doubleQuote)
    | some '\x27' => return .string (← anyString singleQuote)
    | some '[' =>
      Scan.expect '['
      if depth = 0 then failure
      return .array (← elements steps (depth - 1))
    | some '\x7b' =>
      Scan.expect '\x7b'
      if depth = 0 then failure
      skipSpaces
      if ← Scan.accept '\x7d' then return .table (.empty .inline)
      return .table (← entries steps (depth - 1) (.empty .inline))
    | _ => scalar

/-- Reads the elements of an array up to its closing bracket. A comma may stand behind the last one. -/
def elements : Nat → Nat → Scan (List Item)
  | 0, _ => failure
  | steps + 1, depth => do
    skipAllBlanks
    if ← Scan.accept ']' then return []
    let item ← value steps depth
    skipAllBlanks
    if ← Scan.accept ',' then return item :: (← elements steps depth)
    Scan.expect ']'
    return [item]

/-- Reads the entries of an inline table behind the ones read so far, up to its closing brace. -/
def entries : Nat → Nat → ItemTable → Scan ItemTable
  | 0, _, _ => failure
  | steps + 1, depth, table => do
    skipSpaces
    let (front, last) ← path
    equalSign
    let item ← value steps depth
    let table ← orFail (table.addValue front last item)
    skipSpaces
    if ← Scan.accept ',' then entries steps depth table
    else
      Scan.expect '\x7d'
      return table

end

/-- A document read so far, with the path of the table to which values belong. -/
structure Draft where
  root : ItemTable := .empty .header
  current : List String := []

namespace Draft

/-- Reads the header of a table, whose opening bracket has been read. -/
def header (d : Draft) : Scan Draft := do
  let repeated ← Scan.accept '['
  skipSpaces
  let (front, last) ← path
  skipSpaces
  Scan.expect ']'
  if repeated then Scan.expect ']'
  let root ← orFail (if repeated then d.root.openRepeated front last else d.root.openTable front last)
  return ⟨root, front ++ [last]⟩

/-- Reads a value under a path of keys. -/
def entry (d : Draft) : Scan Draft := do
  let (front, last) ← path
  equalSign
  let steps := 2 * (← get).length + 2
  let item ← value steps nestingLimit
  let root ← orFail (d.root.descend .implied (ItemTable.addValue front last item) d.current)
  return { d with root }

/-- Reads statements, at most as many as the given number. -/
def statements : Nat → Draft → Scan Draft
  | 0, _ => failure
  | count + 1, d => do
    skipAllBlanks
    if ← Scan.atEnd then return d
    let d ← if ← Scan.accept '[' then d.header else d.entry
    endStatement
    statements count d

end Draft

/-- The text without a byte order mark in front. -/
def withoutMark : List Char → List Char
  | c :: rest => if c = '\uFEFF' then rest else c :: rest
  | [] => []

/-- Reads a document. -/
def parse? (text : String) : Option ItemTable :=
  let cs := withoutMark text.toList
  match (Draft.statements (cs.length + 1) {}).run cs with
  | some (d, _) => some d.root
  | none => none

end GraphQuery.Toml
