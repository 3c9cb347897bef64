import GraphQuery.Error
import GraphQuery.Expr.Shape
import GraphQuery.Read.Items

/-!
# The split between server and client

Query clauses are taken one after another. Each is added to the read when it can run on the server, and otherwise
becomes a client part. The server filters, then orders, then skips, then limits; a clause that would
have to cross one of these steps, or one that the client does, stays with the client.
-/

namespace GraphQuery

/-! ## Client parts -/

/-- Where in a query a client part comes from. -/
inductive PartKind where
  | predicate
  | joinCondition
  | ordering
  | limit
  | skip
  | projection
  /-- One member of a constructed object. -/
  | projectionMember (name : String)
  deriving DecidableEq

/-- The name of a kind of client part in descriptions. -/
def PartKind.text : PartKind → String
  | predicate => "predicate"
  | joinCondition => "joincondition"
  | ordering => "ordering"
  | limit => "limit"
  | skip => "skip"
  | projection => "projection"
  | projectionMember name => "projection member '" ++ name ++ "'"

/-- A part of a query that the client evaluates. -/
structure ClientPart where
  kind : PartKind
  expr : Expr

/-- What is left to the client, in words. -/
def ClientPart.description (f : ClientPart) : String :=
  f.expr.kind.text ++ " in " ++ f.kind.text

/-! ## Clauses one by one -/

/-- The read and the client parts made so far. -/
structure Progress where
  read : Read
  clientParts : List ClientPart := []
  /-- The client filters or orders rows, so paging is the client's as well. -/
  clientRows : Bool := false
  /-- The server limits the rows. -/
  limited : Bool := false
  /-- The client needs whole entities for its parts. -/
  needsEntity : Bool := false

namespace Progress

/-- Leaves an expression to the client. -/
def leave (kind : PartKind) (e : Expr) (p : Progress) : Progress :=
  { p with clientParts := p.clientParts ++ [⟨kind, e⟩] }

/-- Leaves to the client an expression that decides about rows. -/
def leaveRows (kind : PartKind) (e : Expr) (p : Progress) : Progress :=
  { p.leave kind e with clientRows := true, needsEntity := true }

/-- Leaves to the client an expression for which it needs whole entities. -/
def leaveEntity (kind : PartKind) (e : Expr) (p : Progress) : Progress :=
  { p.leave kind e with needsEntity := true }

/-- Takes a condition on rows with its lowering. Behind a limit it is the client's. -/
def filter (kind : PartKind) (e : Expr) (lowered : Option Expr) (p : Progress) :
    Except CompileError Progress :=
  if p.limited then .ok (p.leaveRows kind e)
  else
    match lowered with
    | some condition =>
      match p.read.restrict? condition with
      | some read => .ok { p with read }
      | none => .error (.unsupported .unattachedPredicate)
    | none => .ok (p.leaveRows kind e)

/-- Takes a term of an ordering with its lowering. Behind a limit, or when the client decides about rows, it is
the client's. -/
def order (term : SortTerm) (lowered : Option Expr) (p : Progress) : Progress :=
  if p.clientRows || p.limited then p.leave .ordering term.expr
  else
    match lowered with
    | some e => { p with read := p.read.addSortTerm ⟨e, term.descending⟩ }
    | none => p.leaveRows .ordering term.expr

/-- Takes a limit with its lowering. When the client decides about rows it is the client's. -/
def take (count : Expr) (lowered : Option Expr) (p : Progress) : Progress :=
  if p.clientRows then p.leave .limit count
  else
    match lowered with
    | some e => { p with read := { p.read with limit := some e }, limited := true }
    | none => p.leaveRows .limit count

/-- Takes a skip with its lowering. Behind a limit, or when the client decides about rows, it is the client's,
and so is all paging behind it. -/
def skip (count : Expr) (lowered : Option Expr) (p : Progress) : Progress :=
  if p.clientRows || p.limited then { p.leave .skip count with clientRows := true }
  else
    match lowered with
    | some e => { p with read := { p.read with skip := some e } }
    | none => p.leaveRows .skip count

end Progress

end GraphQuery
