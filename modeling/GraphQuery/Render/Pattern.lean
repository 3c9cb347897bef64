import GraphQuery.Error
import GraphQuery.Text

/-!
# The text of patterns

Node aliases, labels and relationship aliases are plain identifiers; the kinds of a relationship are delimited and
may be any text. A node without an alias is written without its labels.
-/

namespace GraphQuery

/-- A way to set a name apart as an identifier. -/
abbrev Delimiter := String → String

namespace Delimiter

/-- Names between two marks, with each mark inside a name doubled. -/
def quoting (mark : Char) : Delimiter :=
  Text.delimit mark

/-- Names between an opening and a closing text, as they are. -/
def enclosing (opening closing : String) : Delimiter :=
  fun name => opening ++ name ++ closing

end Delimiter

/-- A name that is written without quotes. -/
def plainName (name : String) : Except RenderError String :=
  if Text.isIdentifier name then .ok name else .error (.invalidIdentifier name)

/-- The text of a node. -/
def Node.render (node : Node) : Except RenderError String :=
  match node.name with
  | none => .ok "()"
  | some name => do
    let name ← plainName name
    let labels ← node.labels.mapM plainName
    return "(" ++ name ++ String.join (labels.map (":" ++ ·)) ++ ")"

/-- The text of the bounds on the number of hops. -/
def Hops.render (range : Hops) : String :=
  let bound (n : Option Nat) : String := (n.map toString).getD ""
  "*" ++ bound range.lower ++ ".." ++ bound range.upper

/-- The kinds of a relationship, with a colon in front of each and bars between them. -/
def renderKinds (delimit : Delimiter) (kinds : List String) : String :=
  if kinds.isEmpty then "" else ":" ++ String.intercalate "|:" (kinds.map delimit)

/-- The bracketed part of a relationship. -/
def RelationshipBody.render (delimit : Delimiter) (detail : RelationshipBody) :
    Except RenderError String := do
  let name ← match detail.name with
    | some name => plainName name
    | none => pure ""
  let range := (detail.range.map Hops.render).getD ""
  return "[" ++ name ++ renderKinds delimit detail.kinds ++ range ++ "]"

/-- The text at the start of a relationship. -/
def Direction.opening : Direction → String
  | both | left => "<-"
  | right | undirected => "-"

/-- The text at the end of a relationship. -/
def Direction.closing : Direction → String
  | both | right => "->"
  | left | undirected => "-"

/-- The text of a relationship. -/
def Relationship.render (delimit : Delimiter) (r : Relationship) : Except RenderError String := do
  let detail ← match r.detail with
    | some detail => detail.render delimit
    | none => pure ""
  return r.direction.opening ++ detail ++ r.direction.closing

/-- The text of a step along a relationship to the next node. -/
def renderStep (delimit : Delimiter) (step : Relationship × Node) : Except RenderError String := do
  let relationship ← step.1.render delimit
  let node ← step.2.render
  return relationship ++ node

/-- The text of a pattern. -/
def Pattern.render (delimit : Delimiter) (p : Pattern) : Except RenderError String := do
  let start ← p.start.render
  let steps ← p.steps.mapM (renderStep delimit)
  return start ++ String.join steps

end GraphQuery
