import GraphQuery.Proofs.FailedLowering

/-!
# Conditions and results

An expression is lowered as a condition on rows or as a value to be returned. The two differ at one kind of leaf only: in
a condition a reference to a joined item stands for its primary key, while in a result it has no lowered form. A member
access does not ask for the item itself. So an expression that refers to joined items for their members alone is
lowered alike in both modes, and promotes the same members (`Scope.lowerAndPromote_modes`).
-/

namespace GraphQuery

mutual

/-- The sources to whose items an expression refers as a whole, which is otherwise than as the target of a member access,
with or without conversions. Nested queries and reads have sources of their own. -/
def Expr.itemReferences : Expr → List SourceId
  | .source id _ => [id]
  | .member target _ =>
    match target.bare with
    | .source _ _ => []
    | _ => target.itemReferences
  | .binary _ left right _ => left.itemReferences ++ right.itemReferences
  | .conditional test ifTrue ifFalse _ => test.itemReferences ++ (ifTrue.itemReferences ++ ifFalse.itemReferences)
  | .convert operand _ | .not operand | .negate operand | .isNull operand | .aliased _ operand =>
    operand.itemReferences
  | .call target _ arguments _ => Expr.itemReferencesOfOption target ++ Expr.itemReferencesOfList arguments
  | .construct _ members => Expr.itemReferencesOfMembers members
  | .sequence items => Expr.itemReferencesOfList items
  | .constant .. | .parameter .. | .subquery _ | .extension .. | .storage _ | .read _ => []

def Expr.itemReferencesOfOption : Option Expr → List SourceId
  | none => []
  | some e => e.itemReferences

def Expr.itemReferencesOfList : List Expr → List SourceId
  | [] => []
  | e :: es => e.itemReferences ++ Expr.itemReferencesOfList es

def Expr.itemReferencesOfMembers : List (String × Expr) → List SourceId
  | [] => []
  | (_, e) :: ms => e.itemReferences ++ Expr.itemReferencesOfMembers ms

end

namespace Scope

variable {s : Scope} {mode mode' : Mode}

/-- The mode matters for references to joined items alone. -/
theorem lowerSource_of_not_join {id : SourceId} (h : s.workspace.isJoin id = false) (mode : Mode) (type : ValueType) :
    s.lowerSource mode id type = .fail := by
  rw [lowerSource, if_neg]
  rintro ⟨-, hjoin⟩
  rw [h] at hjoin
  cases hjoin

mutual

/-- Two modes in which the referenced items are lowered alike lower the whole expression alike. -/
theorem lower_modes : ∀ e : Expr,
    (∀ id ∈ e.itemReferences, ∀ type, s.lowerSource mode id type = s.lowerSource mode' id type) →
      s.lower mode e = s.lower mode' e
  | .source id type, h => h id (List.mem_singleton_self id) type
  | .member _ _, _ => rfl
  | .constant _ _, _ => rfl
  | .binary op left right detail, h => by
    have hleft := lower_modes left fun id hid => h id (List.mem_append_left _ hid)
    have hright := lower_modes right fun id hid => h id (List.mem_append_right _ hid)
    simp only [lower, hleft, hright]
  | .conditional test ifTrue ifFalse type, h => by
    have htest := lower_modes test fun id hid => h id (List.mem_append_left _ hid)
    have htrue := lower_modes ifTrue fun id hid =>
      h id (List.mem_append_right _ (List.mem_append_left _ hid))
    have hfalse := lower_modes ifFalse fun id hid =>
      h id (List.mem_append_right _ (List.mem_append_right _ hid))
    simp only [lower, htest, htrue, hfalse]
  | .convert operand type, h => by
    simp only [lower, lower_modes operand h]
  | .not operand, h => by
    simp only [lower, lower_modes operand h]
  | .isNull operand, h => by
    simp only [lower, lower_modes operand h]
  | .sequence items, h => by
    simp only [lower, lowerAll_modes items h]
  | .storage _, _ | .aliased _ _, _ | .negate _, _ | .call .., _ | .parameter .., _ | .construct .., _ | .subquery _, _
  | .extension .., _ | .read _, _ => rfl

theorem lowerAll_modes : ∀ es : List Expr,
    (∀ id ∈ Expr.itemReferencesOfList es, ∀ type, s.lowerSource mode id type = s.lowerSource mode' id type) →
      s.lowerAll mode es = s.lowerAll mode' es
  | [], _ => rfl
  | e :: es, h => by
    have hfirst := lower_modes e fun id hid => h id (List.mem_append_left _ hid)
    have hrest := lowerAll_modes es fun id hid => h id (List.mem_append_right _ hid)
    simp only [lowerAll, hfirst, hrest]

end

/-- An expression that refers to joined items only to access their members has the same lowered form as a condition and
as a result, or none in either case, and leaves the same workspace behind. -/
theorem lowerAndPromote_modes (s : Scope) (e : Expr) (h : ∀ id ∈ e.itemReferences, s.workspace.isJoin id = false) :
    s.lowerAndPromote .condition e = s.lowerAndPromote .result e := by
  have hlower : s.lower .condition e = s.lower .result e := by
    refine lower_modes e fun id hid type => ?_
    rw [lowerSource_of_not_join (h id hid), lowerSource_of_not_join (h id hid)]
  rw [lowerAndPromote, lowerAndPromote, hlower]

/-! ## Things joined with warehouses -/

/-- Warehouses and, in a second read, the things that are joined with them by their owners. -/
def joinedThings : Scope :=
  { warehousesAndThings with
    workspace := warehousesAndThings.workspace.setSource ⟨1⟩ ⟨1, .join, "t", .entity "Thing"⟩
    schema := warehousesAndThings.schema.add
      { name := "Thing", properties := [⟨"OwnerId", .int32, none, none⟩], keyNames := ["OwnerId"] } }

/-- The owner of a joined thing, behind a conversion, plus a warehouse that is not joined: in both modes the sum has no
lowered form, and the owner is promoted. -/
theorem lowerAndPromote_modes_of_owner :
    let thing : Source := ⟨⟨1⟩, "t", .entitySet "Thing"⟩
    let owner := Expr.member (.convert thing.reference (.nullable thing.itemType)) ⟨"Thing", "OwnerId", .int32⟩
    let sum := Expr.plain .add owner (.source ⟨0⟩ (.entity "Warehouse"))
    sum.itemReferences = [⟨0⟩] ∧ joinedThings.workspace.isJoin ⟨0⟩ = false ∧ joinedThings.workspace.isJoin ⟨1⟩ = true ∧
      joinedThings.lowerAndPromote .condition sum = joinedThings.lowerAndPromote .result sum ∧
      ((joinedThings.lowerAndPromote .condition sum).2.reads.map fun r => r.items.length) = [0, 1] := by
  intro thing owner sum
  have hmain : joinedThings.workspace.isJoin ⟨0⟩ = false := by decide
  have hreferences : ∀ id ∈ sum.itemReferences, joinedThings.workspace.isJoin id = false := by
    intro id hid
    rw [show id = ⟨0⟩ from List.mem_singleton.1 hid]
    exact hmain
  exact ⟨rfl, hmain, by decide, lowerAndPromote_modes joinedThings sum hreferences, by decide +kernel⟩

/-- A joined thing itself is its key in a condition, and has no form as a result. -/
example :
    (joinedThings.lower .condition (.source ⟨1⟩ (.entity "Thing"))).result.isSome = true ∧
      (joinedThings.lower .result (.source ⟨1⟩ (.entity "Thing"))).result.isSome = false := by
  decide +kernel

end Scope

end GraphQuery
