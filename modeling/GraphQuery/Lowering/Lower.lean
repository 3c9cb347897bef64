import GraphQuery.Expr.NullGuard
import GraphQuery.Literal
import GraphQuery.Lowering.Comparison
import GraphQuery.Lowering.OuterQuery
import GraphQuery.Lowering.Workspace

/-!
# Lowering

Front-end expressions are lowered to expressions over stored properties, which the server can evaluate. What has no such
form is not an error: it gives no result, and its caller leaves it to the client.
-/

namespace GraphQuery

/-- What a lowered expression is for. -/
inductive Mode where
  /-- A condition on rows. A reference to a joined item stands for its primary key. -/
  | condition
  /-- A value to be returned. -/
  | result
  deriving DecidableEq

/-- What a lowering can refer to. -/
structure Scope where
  workspace : Workspace
  schema : Schema
  styles : StyleChoice := .standard
  outer : OuterQuery := .absent
  /-- The read for which expressions are lowered. -/
  target : Option ReadId := none

namespace Scope

/-- A member of a source's items as a stored property, with the read that produces the items. -/
def storedMember? (s : Scope) (target : Expr) (m : Member) : Option (ReadId × Expr) :=
  match target.bare with
  | .source id type => do
    let entity ← s.schema.entityOf? type
    let declared ← entity.declaredProperty? m.name
    let read ← s.workspace.readOf? id
    let bound ← (← s.workspace.read? read).storedProperty? declared id
    return (read, bound)
  | _ => none

/-- A member of a constructed object that the read of a source returns. -/
def projectedMember? (s : Scope) (target : Expr) (m : Member) : Option Expr :=
  match target.bare with
  | .source id _ => do
    let read ← s.workspace.readOf? id
    (← s.workspace.read? read).memberItem? m.key
  | _ => none

/-- A stored member is a stored property of its source, in the read that produces the items of the source. -/
theorem storedMember?_eq_some {s : Scope} {target : Expr} {m : Member} {read : ReadId} {bound : Expr}
    (h : s.storedMember? target m = some (read, bound)) :
    ∃ id declared r, s.workspace.readOf? id = some read ∧ s.workspace.read? read = some r ∧
      r.storedProperty? declared id = some bound := by
  unfold storedMember? at h
  split at h
  · rename_i id type _
    simp only [Option.bind_eq_bind, Option.bind_eq_some_iff, Option.pure_def, Option.some.injEq, Prod.mk.injEq] at h
    obtain ⟨entity, -, declared, -, read', hread, r, hr, bound', hbound, rfl, rfl⟩ := h
    exact ⟨id, declared, r, hread, hr, hbound⟩
  · cases h

theorem projectedMember?_eq_some {s : Scope} {target : Expr} {m : Member} {e : Expr}
    (h : s.projectedMember? target m = some e) :
    ∃ read r, s.workspace.read? read = some r ∧ r.memberItem? m.key = some e := by
  unfold projectedMember? at h
  split at h
  · simp only [Option.bind_eq_bind, Option.bind_eq_some_iff] at h
    obtain ⟨read, -, r, hr, hitem⟩ := h
    exact ⟨read, r, hr, hitem⟩
  · cases h

/-- Lowers a member access: to a stored property, else to a returned member, else to a member of the enclosing
query. A property of another read than the target is promoted there. -/
def lowerMember (s : Scope) (target : Expr) (m : Member) : Outcome Expr :=
  match s.storedMember? target m with
  | some (read, bound) =>
    ⟨some bound, if s.target.any (· != read) then [⟨read, bound⟩] else []⟩
  | none => .ofOption ((s.projectedMember? target m).or (s.outer target m))

/-- Lowers a reference to the current item of a source. In a condition a joined item stands for its primary key:
one member, or the tuple of several. -/
def lowerSource (s : Scope) (mode : Mode) (id : SourceId) (type : ValueType) : Outcome Expr :=
  if mode = .condition ∧ s.workspace.isJoin id then
    match s.schema.entityOf? type with
    | none => .fail
    | some entity =>
      let member (key : Property) := s.lowerMember (.source id type) ⟨entity.name, key.name, key.type⟩
      match entity.primaryKey with
      | [] => .fail
      | [key] => member key
      | keys => return .sequence (← Outcome.traverse member keys)
  else .fail

/-- Lowers a constant. A value other than null needs a literal form. -/
def lowerConstant (s : Scope) (value : Value) (type : ValueType) : Outcome Expr :=
  if value.isNull || (s.styles.forType type.storage).isSome then pure (.constant value type)
  else .fail

/-- The test of a conditional; a test that is one value is compared with `true`. -/
def conditionalTest (test : Expr) : Expr :=
  if test.isOneValue then .plain .equal test .truth else test

mutual

/-- Lowers an expression. Operands are lowered from left to right. -/
def lower (s : Scope) (mode : Mode) : Expr → Outcome Expr
  | .binary op left right detail => do
    let left ← s.lower mode left
    let right ← s.lower mode right
    .ofOption (Expr.combine? op left right detail)
  | .conditional test ifTrue ifFalse type =>
    match Expr.guardedBranch? test ifTrue ifFalse with
    | some .ifTrue => s.lower mode ifTrue
    | some .ifFalse => s.lower mode ifFalse
    | none => do
      let test ← s.lower mode test
      let ifTrue ← s.lower mode ifTrue
      let ifFalse ← s.lower mode ifFalse
      return .conditional (conditionalTest test) ifTrue ifFalse type
  | .member target m => s.lowerMember target m
  | .source id type => s.lowerSource mode id type
  | .constant value type => s.lowerConstant value type
  | .convert operand type => return .convert (← s.lower mode operand) type
  | .not operand => return .not (← s.lower mode operand)
  | .isNull operand => return .isNull (← s.lower mode operand)
  | .sequence items => return .sequence (← s.lowerAll mode items)
  | .storage property => pure (.storage property)
  | .aliased name e => pure (.aliased name e)
  | .negate _ | .call .. | .parameter .. | .construct .. | .subquery _ | .extension .. | .read _ => .fail

/-- Lowers a list of expressions, up to the first that fails. -/
def lowerAll (s : Scope) (mode : Mode) : List Expr → Outcome (List Expr)
  | [] => pure []
  | e :: rest => do
    let e ← s.lower mode e
    let rest ← s.lowerAll mode rest
    return e :: rest

end

/-- Lowers an expression and adds the promoted members to their reads. -/
def lowerAndPromote (s : Scope) (mode : Mode) (e : Expr) : Option Expr × Workspace :=
  let outcome := s.lower mode e
  (outcome.result, s.workspace.promoteAll outcome.promoted)

end Scope

end GraphQuery
