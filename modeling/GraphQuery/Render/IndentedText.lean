/-!
# Indented text

A text that grows at its end. The indent of a line is written when the first text of the line comes, so an empty
line carries none.
-/

namespace GraphQuery

/-- A text under construction. -/
structure IndentedText where
  text : String := ""
  /-- One level of indent. -/
  unit : String := "    "
  level : Nat := 0
  atLineStart : Bool := true

namespace IndentedText

/-- The indent of the current level. -/
def indentation (t : IndentedText) : String :=
  String.join (List.replicate t.level t.unit)

/-- Appends a text, after the indent when it is the first of its line. An empty text changes nothing. -/
def append (s : String) (t : IndentedText) : IndentedText :=
  if s.isEmpty then t
  else
    { t with
      text := t.text ++ (if t.atLineStart then t.indentation else "") ++ s
      atLineStart := false }

/-- Ends the current line. -/
def newLine (t : IndentedText) : IndentedText :=
  { t with text := t.text ++ "\n", atLineStart := true }

/-- Indents the following lines by one more level. -/
def indent (t : IndentedText) : IndentedText :=
  { t with level := t.level + 1 }

/-- Takes back one level of indent, if there is one. -/
def dedent (t : IndentedText) : IndentedText :=
  { t with level := t.level - 1 }

end IndentedText

end GraphQuery
