import GraphQuery.Render.IndentedText
import GraphQuery.Table
import GraphQuery.Value.Basic

/-!
# Pieces of a query text

A query is rendered as a list of pieces: texts, line breaks, changes of the indent, and placeholders with the values
that they stand for. Writing them gives a text and a table of the values. Placeholders for constants are numbered
in the order in which they come.
-/

namespace GraphQuery

/-- A piece of a query text. -/
inductive Piece where
  | text (content : String)
  | newLine
  | indent
  | dedent
  /-- A numbered placeholder for a constant. -/
  | slot (value : Json)
  /-- A placeholder with a name given by the query. -/
  | parameter (name : String) (value : Json)

/-- What has been written of a query text. -/
structure Output where
  out : IndentedText
  parameters : Table String Json := []
  /-- The number of the next placeholder for a constant. -/
  nextSlot : Nat := 0

namespace Output

/-- Writes a placeholder and records its value. -/
def placeholder (name : String) (value : Json) (w : Output) : Output :=
  { w with
    out := w.out.append ("$" ++ name)
    parameters := Table.insert name value w.parameters }

/-- Writes a piece; `slotPrefix` stands in front of the numbers of placeholders for constants. -/
def write (slotPrefix : String) (w : Output) : Piece → Output
  | .text content => { w with out := w.out.append content }
  | .newLine => { w with out := w.out.newLine }
  | .indent => { w with out := w.out.indent }
  | .dedent => { w with out := w.out.dedent }
  | .slot value =>
    { w.placeholder (slotPrefix ++ toString w.nextSlot) value with nextSlot := w.nextSlot + 1 }
  | .parameter name value => w.placeholder name value

/-- Writes pieces one after another. -/
def writeAll (slotPrefix : String) (w : Output) (pieces : List Piece) : Output :=
  pieces.foldl (write slotPrefix) w

end Output

end GraphQuery
