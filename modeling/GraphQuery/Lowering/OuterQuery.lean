import GraphQuery.Expr.Basic

/-!
# Enclosing queries

A query may stand inside another one and refer to members of its sources. What such a member becomes is the affair of
the enclosing query, which may answer by rules.
-/

namespace GraphQuery

/-- The members of an enclosing query, by the target and the member of an access. -/
abbrev OuterQuery := Expr → Member → Option Expr

namespace OuterQuery

/-- There is no enclosing query. -/
def absent : OuterQuery := fun _ _ => none

/-- A rule for members of an enclosing query. -/
structure Rule where
  /-- The source to whose members the rule applies; without one it applies to every target. -/
  source : Option SourceId := none
  /-- The member name to which the rule applies; without one it applies to every member. -/
  name : Option String := none
  /-- The member becomes a parameter whose name is this text and the member name. -/
  parameterPrefix : Option String := none
  /-- The expression for the member when it becomes no parameter. -/
  expr : Option Expr := none

namespace Rule

/-- Whether a rule applies to a member access. -/
def applies (rule : Rule) (target : Expr) (m : Member) : Bool :=
  (match rule.source, target with
    | none, _ => true
    | some id, .source id' _ => id = id'
    | some _, _ => false)
  && rule.name.all (· == m.name)

/-- What a rule makes of a member. -/
def apply (rule : Rule) (m : Member) : Option Expr :=
  match rule.parameterPrefix with
  | some start => some (.parameter (start ++ m.name) m.type)
  | none => rule.expr

end Rule

/-- The enclosing query in which the first rule that applies decides. -/
def ofRules (rules : List Rule) : OuterQuery := fun target m =>
  (rules.find? fun rule => rule.applies target m).bind fun rule => rule.apply m

end OuterQuery

end GraphQuery
