import GraphQuery.Read.Clauses
import GraphQuery.Text

/-!
# Return items

What a read returns. An item that is there already is not added again, not even under another output name.
Output names are made unique by a number behind them, and the items that stand for members of a constructed
object are remembered.
-/

namespace GraphQuery

namespace Expr

/-- Removes a conversion to the nullable form of the operand's own type, which changes nothing that is
returned. -/
def withoutWidening : Expr → Expr
  | .convert e (.nullable t) => if e.type = t then e else .convert e (.nullable t)
  | e => e

/-- Whether a return item is the given expression under an output name. -/
def isNamed (item e : Expr) : Bool :=
  match item with
  | .aliased _ inner => inner == e
  | _ => false

/-- Whether a return item already returns the given expression. -/
def returns (item e : Expr) : Bool :=
  item == e || item.isNamed e

/-- The expression under an output name. It is kept as it is when it has that name up to the case of ASCII
letters, and otherwise takes the name in place of an alias of its own. -/
def withName (e : Expr) (name : String) : Expr :=
  match e.outputName with
  | some current =>
    if Text.sameLetters current name then e else .aliased (some name) e.unaliased
  | none => .aliased (some name) e.unaliased

/-- The type of a column; a conversion to an unknown type is looked through. -/
def columnType (e : Expr) : ValueType :=
  match e.unaliased with
  | .convert operand .object => operand.type
  | other => other.type

end Expr

/-- The base name when it is not taken, and otherwise the base name with the least number behind it that makes a
name not taken. One of the first `taken.length` numbers does, since the base name is taken as well. -/
def freshName (taken : List String) (base : String) : String :=
  if base ∈ taken then
    match (List.range taken.length).find? fun n => decide (base ++ toString n ∉ taken) with
    | some n => base ++ toString n
    | none => base
  else base

namespace Read

/-- Adds a return item, and gives its position. Nothing changes when an item already returns the expression. A new
item ends the return of all properties of a node, unless `resetStar` is false. -/
def addItem (e : Expr) (resetStar : Bool) (r : Read) : Nat × Read :=
  let e := e.withoutWidening
  match r.items.findIdx? fun item => item.returns e with
  | some index => (index, r)
  | none => (r.items.length, { r with items := r.items ++ [e], star := r.star && !resetStar })

/-- Keeps the first items only. -/
def truncateItems (count : Nat) (r : Read) : Read :=
  { r with items := r.items.take count }

/-- The base of the output name of an expression: the wanted name, its own name, or the alias prefix. -/
def baseName (r : Read) (e : Expr) (hint : Option String) : String :=
  (hint.or e.outputName).getD r.aliasPrefix

/-- Gives an expression an output name that no other return item has. When the expression is a return item it
takes the place of that item. -/
def nameUniquely (e : Expr) (hint : Option String) (r : Read) : Expr × Read :=
  match r.items.findIdx? fun item => item == e with
  | some index =>
    let taken := (r.items.eraseIdx index).filterMap Expr.outputName
    let named := e.withName (freshName taken (r.baseName e hint))
    (named, { r with items := r.items.set index named })
  | none =>
    (e.withName (freshName (r.items.filterMap Expr.outputName) (r.baseName e hint)), r)

/-- The returned expression that stands for a member, without its output name. -/
def memberItem? (r : Read) (key : MemberName) : Option Expr :=
  Table.find? key r.projections

/-- Names a return item after the member for which it stands, and remembers it. -/
def nameMember (key : MemberName) (e : Expr) (r : Read) : Expr × Read :=
  let (named, r) := r.nameUniquely e (some key.name)
  (named, { r with projections := Table.insert key named.unaliased r.projections })

end Read

mutual

/-- The types of the columns of a read. When only all properties of a node are returned, they are those of the
nested reads among the clauses. -/
def Read.columnTypes : Read → List ValueType
  | ⟨clauses, items, _, _, _, star, _, _, _⟩ =>
    if !items.isEmpty || !star then items.map Expr.columnType
    else ReadingClause.columnTypes clauses

/-- The types of the columns of the nested reads among some clauses. -/
def ReadingClause.columnTypes : List ReadingClause → List ValueType
  | [] => []
  | .pattern _ :: rest => ReadingClause.columnTypes rest
  | .nested _ read :: rest => read.columnTypes ++ ReadingClause.columnTypes rest

end

end GraphQuery
