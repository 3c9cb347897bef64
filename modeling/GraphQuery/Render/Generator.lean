import GraphQuery.Literal
import GraphQuery.Read.Clauses
import GraphQuery.Render.Pattern
import GraphQuery.Render.Piece
import GraphQuery.Settings.Basic

/-!
# The text of reads

A read is written as its reading clauses, what it returns, and the ordering, skip and limit behind. Conversions leave
no trace. The type of a stored property decides how the literals are written with which it is compared.

Both operands of an operator are grouped, or neither is: the left operand decides.
-/

namespace GraphQuery

/-- All that the text of a read depends on besides the read. -/
structure Generator where
  settings : TextSettings := {}
  delimit : Delimiter := .quoting settings.identifierQuote
  styles : StyleChoice := .standard
  /-- The text in place of the reading clauses when there are none. -/
  pseudoMatch : Option String := none
  /-- The values of the parameters that a read may refer to. -/
  parameters : Table String Json := []

/-- Whether an operand stands in parentheses: it is an infix expression, perhaps converted. -/
def Expr.isInfix (e : Expr) : Bool :=
  match e.bare with
  | .binary op _ _ _ => op.symbol?.isSome
  | _ => false

/-- Whether the operands of an operator share the store type of a stored property among them. -/
def Operator.sharesStoreType (op : Operator) : Bool :=
  op.isComparison || op = .add

/-- Pieces in parentheses when they are to be grouped. -/
def group (grouped : Bool) (pieces : List Piece) : List Piece :=
  if grouped then .text "(" :: (pieces ++ [.text ")"]) else pieces

namespace Generator

/-- The style of a stored property, perhaps converted and under an output name. -/
def storedStyle? (g : Generator) : Expr → Option LiteralStyle
  | .convert e _ => g.storedStyle? e
  | .aliased _ e => g.storedStyle? e
  | .storage p => g.styles.forProperty p.declared
  | _ => none

/-- The style for literals among the operands of an operator: that of a stored property on the left, else on the
right, else the one in force around. -/
def operandHint (g : Generator) (hint : Option LiteralStyle) (op : Operator) (left right : Expr) :
    Option LiteralStyle :=
  if op.sharesStoreType then ((g.storedStyle? left).or (g.storedStyle? right)).or hint else hint

/-- The style for the literal of a value: the one in force when it can write the value, else the one for the type
of the value. -/
def literalStyle? (g : Generator) (hint : Option LiteralStyle) (value : Value) :
    Option LiteralStyle :=
  match hint with
  | some style => if style.accepts value then some style else g.styles.forValue value
  | none => g.styles.forValue value

/-- The pieces of a constant: a literal or a placeholder. Null is always written out. -/
def constant (g : Generator) (hint : Option LiteralStyle) (value : Value) (type : ValueType) :
    Except RenderError (List Piece) :=
  if value.isNull then .ok [.text "null"]
  else
    let value := value.withoutEnum type.underlying?
    if g.settings.parameterizeLiterals then .ok [.slot value.toJson]
    else
      match (g.literalStyle? hint value).bind fun style => style.literal? value with
      | some literal => .ok [.text literal]
      | none => .error (.noLiteral type)

/-- The pieces of a parameter, whose value has to be known. -/
def parameter (g : Generator) (name : String) : Except RenderError (List Piece) :=
  match Table.find? name g.parameters with
  | some value => .ok [.parameter name value]
  | none => .error (.missingParameter name)

/-- The pieces of a stored property. -/
def storage (g : Generator) (p : StoredProperty) : Except RenderError (List Piece) :=
  match p.node.name with
  | some name => .ok [.text (g.delimit name ++ "." ++ g.delimit p.name)]
  | none => .error (.unaliasedNode p.declared.property.name)

/-- The pieces of an output name behind an expression. -/
def outputName (g : Generator) : Option String → List Piece
  | some name => [.text (g.settings.aliasSeparator ++ g.delimit name)]
  | none => []

/-- The text of a branch that is a truth value, perhaps converted. -/
def branchToken? (g : Generator) (branch : Expr) : Option String :=
  match branch.bare with
  | .constant (.bool b) _ => some (if b then g.settings.trueLiteral else g.settings.falseLiteral)
  | _ => none

/-- The pieces of an expression, with `hint` as the style in force for its literals. -/
def expr (g : Generator) (hint : Option LiteralStyle) : Expr → Except RenderError (List Piece)
  | .binary op left right _ =>
    match op.symbol? with
    | none => do
      let l ← g.expr hint left
      let r ← g.expr hint right
      return .text "coalesce(" :: (l ++ .text ", " :: (r ++ [.text ")"]))
    | some symbol => do
      let inner := g.operandHint hint op left right
      let l ← g.expr inner left
      let r ← g.expr inner right
      return group left.isInfix l ++ .text symbol :: group left.isInfix r
  | .conditional test ifTrue ifFalse type =>
    if type.isBool then g.expr hint test
    else do
      let c ← g.expr hint test
      let t ← match g.branchToken? ifTrue with
        | some token => pure [.text token]
        | none => g.expr hint ifTrue
      let f ← match g.branchToken? ifFalse with
        | some token => pure [.text token]
        | none => g.expr hint ifFalse
      return .text "CASE" :: .newLine :: .indent :: .text "WHEN " :: (c ++
        .newLine :: .text "THEN " :: (t ++ .text " ELSE " :: (f ++
        [.dedent, .newLine, .text "END"])))
  | .constant value type => g.constant hint value type
  | .parameter name _ => g.parameter name
  | .convert operand _ => g.expr hint operand
  | .isNull operand => return (← g.expr hint operand) ++ [.text " IS NULL"]
  | .not (.isNull operand) => return (← g.expr hint operand) ++ [.text " IS NOT NULL"]
  | .not operand => return .text "NOT (" :: ((← g.expr hint operand) ++ [.text ")"])
  | .storage p => g.storage p
  | .aliased name e => return (← g.expr hint e) ++ g.outputName name
  | .read _ => .error .nestedRead
  | .source _ _ => .error (.unsupportedExpression .source)
  | .member _ _ => .error (.unsupportedExpression .member)
  | .negate _ => .error (.unsupportedExpression .negate)
  | .call .. => .error (.unsupportedExpression .call)
  | .construct _ _ => .error (.unsupportedExpression .construct)
  | .subquery _ => .error (.unsupportedExpression .subquery)
  | .extension _ _ => .error (.unsupportedExpression .extension)
  | .sequence _ => .error (.unsupportedExpression .sequence)

/-- The pieces of a list of expressions, with commas between them. -/
def exprs (g : Generator) : List Expr → Except RenderError (List Piece)
  | [] => .ok []
  | [e] => g.expr none e
  | e :: rest => do
    let first ← g.expr none e
    let others ← g.exprs rest
    return first ++ .text ", " :: others

/-- The pieces of a term of an ordering. -/
def sortTerm (g : Generator) (term : SortTerm) : Except RenderError (List Piece) := do
  let pieces ← g.expr none term.expr
  return if term.descending then pieces ++ [.text " DESC"] else pieces

/-- The pieces of the terms of an ordering, with commas between them. -/
def sortTerms (g : Generator) : List SortTerm → Except RenderError (List Piece)
  | [] => .ok []
  | [term] => g.sortTerm term
  | term :: rest => do
    let first ← g.sortTerm term
    let others ← g.sortTerms rest
    return first ++ .text ", " :: others

/-- The pieces of a pattern to match. The condition stands on a line of its own. -/
def patternMatch (g : Generator) (c : PatternMatch) : Except RenderError (List Piece) := do
  let pattern ← c.pattern.render g.delimit
  let condition ← match c.predicate with
    | some predicate => do
      let pieces ← g.expr none predicate
      pure (.newLine :: .text "WHERE " :: pieces)
    | none => pure []
  return .text (if c.optional then "OPTIONAL MATCH " else "MATCH ") :: .text pattern :: condition

/-- The pieces of a reading clause. -/
def clause (g : Generator) : ReadingClause → Except RenderError (List Piece)
  | .pattern c => g.patternMatch c
  | .nested _ _ => .error .nestedRead

/-- The pieces of reading clauses, one to a line. -/
def clauses (g : Generator) : List ReadingClause → Except RenderError (List Piece)
  | [] => .ok []
  | [c] => g.clause c
  | c :: rest => do
    let first ← g.clause c
    let others ← g.clauses rest
    return first ++ .newLine :: others

/-- The pieces in front of what a read returns. -/
def opening (g : Generator) (r : Read) : Except RenderError (List Piece) := do
  let pieces ←
    if r.clauses.isEmpty then
      match g.pseudoMatch with
      | some text => pure (if text.isEmpty then [] else [.text text])
      | none => pure []
    else g.clauses r.clauses
  return if pieces.isEmpty then [] else pieces ++ [.text " "]

/-- The pieces for all properties of a node. -/
def star (g : Generator) (r : Read) : Except RenderError (List Piece) :=
  if r.star then
    match r.returnedNode?.bind Node.name with
    | some name => .ok [.text (g.delimit name ++ ".*")]
    | none => .error .noStarNode
  else .ok []

/-- The pieces of what a read returns. A read that returns nothing returns the number one. -/
def returned (g : Generator) (r : Read) : Except RenderError (List Piece) := do
  let star ← g.star r
  let items ← g.exprs r.items
  return if r.items.isEmpty then (if r.star then star else [.text "1"])
    else if r.star then star ++ .text ", " :: items
    else items

/-- The pieces of an optional expression behind a keyword. -/
def option (g : Generator) (keyword : String) : Option Expr → Except RenderError (List Piece)
  | some e => return .text keyword :: (← g.expr none e)
  | none => .ok []

/-- The pieces of a read. -/
def read (g : Generator) (r : Read) : Except RenderError (List Piece) := do
  let opening ← g.opening r
  let returned ← g.returned r
  let orderings ← g.sortTerms r.orderings
  let skip ← g.option " SKIP " r.skip
  let limit ← g.option " LIMIT " r.limit
  let orderBy := if r.orderings.isEmpty then [] else .text " ORDER BY " :: orderings
  return opening ++ .text "RETURN " :: (returned ++ orderBy ++ skip ++ limit)

end Generator

/-- A query text with the values of its placeholders. -/
structure Rendered where
  text : String
  parameters : Table String Json

namespace Generator

/-- The output at the start of a text. -/
def start (g : Generator) : Output :=
  ⟨{ unit := g.settings.indent }, [], 0⟩

/-- Writes pieces as a query text. -/
def write (g : Generator) (pieces : List Piece) : Rendered :=
  let w := g.start.writeAll g.settings.parameterPrefix pieces
  ⟨w.out.text, w.parameters⟩

/-- The text of a read with the values of its placeholders. -/
def render (g : Generator) (r : Read) : Except RenderError Rendered := do
  let pieces ← g.read r
  return g.write pieces

end Generator

end GraphQuery
