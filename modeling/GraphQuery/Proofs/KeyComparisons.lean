import GraphQuery.Proofs.Comparisons
import GraphQuery.Proofs.SelectedItems

/-!
# Joined items compared by their keys

A condition may compare two joined items as such. It is lowered to a comparison of their primary keys: with one key to
the comparison of that key, with several to the comparisons of all keys in order, joined from the left. Without a key
there is nothing to compare, and the condition has no lowered form (`Scope.lower_joined_items`).

Lowering goes through the form of an item in a condition, which is its key or the tuple of its keys
(`Entity.keyForm?`), and an equality of two such tuples is unfolded pair by pair.
-/

namespace GraphQuery

/-- The operator between the comparisons of several keys: items are equal when all keys are, and differ when one
does. -/
def Operator.betweenKeys : Operator → Operator
  | .notEqual => .orElse
  | _ => .andAlso

/-! ## Comparisons of keys -/

namespace Entity

variable {entity : Entity} {key : Property}

/-- The comparison of one property of two nodes. -/
def comparedOn (entity : Entity) (op : Operator) (detail : OperatorDetail) (left right : Node) (key : Property) :
    Expr :=
  .binary op (.storage (entity.storedOn left key)) (.storage (entity.storedOn right key)) detail

/-- The comparison of two nodes by their primary key. -/
def keyComparison? (entity : Entity) (op : Operator) (detail : OperatorDetail) (left right : Node) : Option Expr :=
  match entity.primaryKey with
  | [] => none
  | [key] => some (entity.comparedOn op detail left right key)
  | first :: rest =>
    some (rest.foldl (fun joined key => .plain op.betweenKeys joined (entity.comparedOn op {} left right key))
      (entity.comparedOn op {} left right first))

/-- What stands for the item on a node in a condition: its key, or the tuple of its keys. -/
def keyForm? (entity : Entity) (node : Node) : Option Expr :=
  match entity.primaryKey with
  | [] => none
  | [key] => some (.storage (entity.storedOn node key))
  | keys => some (.sequence (keys.map fun key => .storage (entity.storedOn node key)))

/-- A key is the property that is found by its name. -/
theorem property?_of_mem_primaryKey (h : key ∈ entity.primaryKey) : entity.property? key.name = some key := by
  obtain ⟨name, -, hkey⟩ := List.mem_filterMap.1 h
  have hname : key.name = name := by simpa using List.find?_some hkey
  rw [hname, hkey]

end Entity

namespace Expr

variable {op : Operator} {entity : Entity}

/-- A comparison of one property of two nodes stays as it is, since both sides have its type. -/
theorem combine?_storages (hop : op.isEquality = true) (left right : Node) (key : Property) (detail : OperatorDetail) :
    combine? op (.storage (entity.storedOn left key)) (.storage (entity.storedOn right key)) detail =
      some (entity.comparedOn op detail left right key) := by
  have htypes : (storage (entity.storedOn left key)).type = (storage (entity.storedOn right key)).type := rfl
  have hcompared : comparison? op (.storage (entity.storedOn left key)) (.storage (entity.storedOn right key)) detail =
      some (entity.comparedOn op detail left right key) := by
    simp [comparison?, isSequence, nullTest?, isNullConstant, bare, widen, htypes, Entity.comparedOn]
  cases op with
  | equal | notEqual =>
    show (comparison? _ _ _ _).bind unfoldSequences? = _
    rw [hcompared]
    rfl
  | _ => cases hop

/-- An equality of tuples is unfolded. -/
theorem combine?_sequences (hop : op.isEquality = true) (ls rs : List Expr) (detail : OperatorDetail) :
    combine? op (.sequence ls) (.sequence rs) detail = unfoldPairs? op ls rs := by
  cases op with
  | equal | notEqual => rfl
  | _ => cases hop

/-- Pairs of comparisons are joined from the left. -/
theorem joinPairs_eq (hop : op.isEquality = true) (first : Expr) (rest : List Expr) :
    joinPairs op first rest = rest.foldl (.plain op.betweenKeys) first := by
  cases op with
  | equal | notEqual => rfl
  | _ => cases hop

/-- The tuples of the same two or more properties of two nodes, unfolded. -/
theorem unfoldPairs?_storages (hop : op.isEquality = true) (left right : Node) (first second : Property)
    (rest : List Property) :
    unfoldPairs? op ((first :: second :: rest).map fun key => .storage (entity.storedOn left key))
        ((first :: second :: rest).map fun key => .storage (entity.storedOn right key)) =
      some ((second :: rest).foldl
        (fun joined key => .plain op.betweenKeys joined (entity.comparedOn op {} left right key))
        (entity.comparedOn op {} left right first)) := by
  have hpairs : ∀ keys : List Property, List.zipWith (pairComparison op)
      (keys.map fun key => .storage (entity.storedOn left key))
      (keys.map fun key => .storage (entity.storedOn right key)) =
        keys.map (entity.comparedOn op {} left right) := by
    intro keys
    rw [List.zipWith_map, List.zipWith_self]
    rfl
  unfold unfoldPairs?
  rw [if_pos (by rw [List.length_map, List.length_map]), hpairs]
  show some (joinPairs op _ ((second :: rest).map _)) = _
  rw [joinPairs_eq hop, List.foldl_map]

end Expr

/-- The forms of two items of one entity are compared by their keys. -/
theorem Entity.combine?_keyForms {op : Operator} (entity : Entity) (hop : op.isEquality = true) (left right : Node)
    (detail : OperatorDetail) :
    ((entity.keyForm? left).bind fun l => (entity.keyForm? right).bind fun r => Expr.combine? op l r detail) =
      entity.keyComparison? op detail left right := by
  unfold keyForm? keyComparison?
  rcases entity.primaryKey with _ | ⟨first, _ | ⟨second, rest⟩⟩
  · rfl
  · exact Expr.combine?_storages hop left right first detail
  · exact (Expr.combine?_sequences hop _ _ detail).trans (Expr.unfoldPairs?_storages hop left right first second rest)

/-! ## References to joined items -/

theorem Outcome.result_traverse {α β : Type} {f : α → Outcome β} {g : α → β} {as : List α}
    (h : ∀ a ∈ as, (f a).result = some (g a)) : (traverse f as).result = some (as.map g) := by
  induction as with
  | nil => rfl
  | cons a as ih =>
    have hrest := ih fun a' ha' => h a' (List.mem_cons_of_mem a ha')
    rw [traverse, result_bind, h a List.mem_cons_self, Option.bind_some, result_bind, hrest]
    rfl

/-- The node on which the items of a source are found. -/
def Workspace.nodeOf? (workspace : Workspace) (source : SourceId) : Option Node := do
  (← workspace.read? (← workspace.readOf? source)).nodeOf? source

theorem Workspace.source_of_isJoin {workspace : Workspace} {id : SourceId} (h : workspace.isJoin id = true) :
    ∃ entry, workspace.source? id = some entry := by
  unfold isJoin at h
  split at h
  · exact ⟨_, ‹_›⟩
  · cases h

/-- In the workspace of a query there is a node for every source that is known. -/
theorem Workspace.nodeOf_ofQuery {schema : Schema} {aliasPrefix : String} {q : Query} {workspace : Workspace}
    {id : SourceId} {entry : SourceEntry} (h : ofQuery schema aliasPrefix q = .ok workspace)
    (hentry : workspace.source? id = some entry) :
    workspace.readOf? id = some Layout.mainRead ∧ ∃ node, workspace.nodeOf? id = some node := by
  obtain ⟨l, hl, hworkspace⟩ := Run.bind_eq_ok.1 h
  cases hworkspace
  have hread : (Workspace.mk [l.read] l.sources).readOf? id = some Layout.mainRead := by
    rw [readOf?, hentry, Option.map_some, ((Layout.ofQuery_wf hl).sources hentry).1]
  obtain ⟨source, entity, -, -, hnode⟩ := Compiler.nodeOf_known hl rfl hentry
  refine ⟨hread, ⟨some source.itemName, entity.labels⟩, ?_⟩
  rw [nodeOf?, hread]
  exact hnode

namespace Scope

variable {s : Scope} {id : SourceId} {type : ValueType} {entity : Entity} {node : Node}

/-- A key of an item is lowered to the property that is stored on the node of the item. -/
theorem lowerMember_key {key : Property} (hnode : s.workspace.nodeOf? id = some node)
    (hentity : s.schema.entityOf? type = some entity) (hkey : key ∈ entity.primaryKey) :
    (s.lowerMember (.source id type) ⟨entity.name, key.name, key.type⟩).result =
      some (.storage (entity.storedOn node key)) := by
  have hdeclared : entity.declaredProperty? key.name = some ⟨entity.name, key⟩ := by
    rw [Entity.declaredProperty?, Entity.property?_of_mem_primaryKey hkey]
    rfl
  obtain ⟨read, hread, hr⟩ := Option.bind_eq_some_iff.1 hnode
  obtain ⟨r, hr, hnode⟩ := Option.bind_eq_some_iff.1 hr
  have hstored : s.storedMember? (.source id type) ⟨entity.name, key.name, key.type⟩ =
      some (read, .storage (entity.storedOn node key)) := by
    show (s.schema.entityOf? type).bind _ = _
    rw [hentity, Option.bind_some, hdeclared, Option.bind_eq_bind, Option.bind_some, hread, Option.bind_eq_bind,
      Option.bind_some, hr, Option.bind_eq_bind, Option.bind_some, Read.storedProperty?, hnode]
    rfl
  rw [lowerMember, hstored]

/-- A reference to a joined item in a condition is lowered to what stands for the item. -/
theorem lowerSource_keyForm (hjoin : s.workspace.isJoin id = true) (hnode : s.workspace.nodeOf? id = some node)
    (hentity : s.schema.entityOf? type = some entity) :
    (s.lowerSource .condition id type).result = entity.keyForm? node := by
  have hmember := fun key => @lowerMember_key s id type entity node key hnode hentity
  unfold lowerSource Entity.keyForm?
  rw [if_pos ⟨rfl, hjoin⟩, hentity]
  dsimp only
  rcases hkeys : entity.primaryKey with _ | ⟨first, _ | ⟨second, rest⟩⟩
  · rfl
  · exact hmember first (by simp [hkeys])
  · show (_ >>= _ : Outcome Expr).result = _
    rw [Outcome.result_bind, Outcome.result_traverse fun key hkey => hmember key (hkeys ▸ hkey)]
    rfl

/-- Nothing is promoted when all known sources are read where the lowered expression is to stand. -/
theorem lower_promotes_nothing (mode : Mode) (e : Expr)
    (h : ∀ target ∈ s.target, ∀ id read, s.workspace.readOf? id = some read → read = target) :
    (s.lower mode e).promoted = [] := by
  refine List.eq_nil_iff_forall_not_mem.2 fun p hp => ?_
  obtain ⟨⟨target, htarget, hother⟩, ⟨id, _, _, hread, -⟩⟩ := lower_promotes mode e p hp
  exact hother (h target htarget id p.read hread).symm

/-- A comparison of two joined items of one entity is lowered to the comparison of their nodes by the primary key of
that entity. The workspace of the query stays as it is, so its read returns nothing more for it, when this read is the
target. -/
theorem lower_joined_items {aliasPrefix : String} {q : Query} {a b : SourceId} {typeA typeB : ValueType}
    {op : Operator} (s : Scope) (h : Workspace.ofQuery s.schema aliasPrefix q = .ok s.workspace)
    (ha : s.workspace.isJoin a = true) (hb : s.workspace.isJoin b = true)
    (htypeA : s.schema.entityOf? typeA = some entity) (htypeB : s.schema.entityOf? typeB = some entity)
    (hop : op.isEquality = true) (detail : OperatorDetail) :
    ∃ nodeA nodeB, s.workspace.nodeOf? a = some nodeA ∧ s.workspace.nodeOf? b = some nodeB ∧
      let lowered := s.lowerAndPromote .condition (.binary op (.source a typeA) (.source b typeB) detail)
      lowered.1 = entity.keyComparison? op detail nodeA nodeB ∧
        ((∀ target ∈ s.target, target = Layout.mainRead) → lowered.2 = s.workspace) := by
  obtain ⟨_, hentryA⟩ := Workspace.source_of_isJoin ha
  obtain ⟨_, hentryB⟩ := Workspace.source_of_isJoin hb
  obtain ⟨-, nodeA, hnodeA⟩ := Workspace.nodeOf_ofQuery h hentryA
  obtain ⟨-, nodeB, hnodeB⟩ := Workspace.nodeOf_ofQuery h hentryB
  refine ⟨nodeA, nodeB, hnodeA, hnodeB, ?_, fun htarget => ?_⟩
  · show (s.lower .condition (.binary op (.source a typeA) (.source b typeB) detail)).result = _
    rw [lower, Outcome.result_bind, lower, lowerSource_keyForm ha hnodeA htypeA, ← entity.combine?_keyForms hop]
    refine congrArg _ (funext fun l => ?_)
    rw [Outcome.result_bind, lower, lowerSource_keyForm hb hnodeB htypeB]
    rfl
  · have hnothing : (s.lower .condition (.binary op (.source a typeA) (.source b typeB) detail)).promoted = [] := by
      refine lower_promotes_nothing .condition _ fun target hmem id read hread => ?_
      obtain ⟨entry, hentry, -⟩ := Option.map_eq_some_iff.1 hread
      rw [(Workspace.nodeOf_ofQuery h hentry).1] at hread
      cases hread
      exact (htarget target hmem).symm
    show s.workspace.promoteAll _ = _
    rw [hnothing]
    rfl

/-- Shelves with two keys, one of which is stored under another name. -/
def numberedShelves : Schema where
  entities := [
    { name := "Warehouse", properties := [⟨"Size", .int32, none, none⟩] },
    { name := "Shelf"
      properties := [⟨"Row", .int32, none, none⟩, ⟨"Bay", .int32, some "Place", none⟩]
      keyNames := ["Row", "Bay"] }]

/-- Warehouses, each with the shelves that it holds and the shelves in the row that its size gives. -/
def neighbouringShelves : Query :=
  let warehouse : Source := ⟨⟨0⟩, "w", .entitySet "Warehouse"⟩
  let held : Source := ⟨⟨1⟩, "held", .entitySet "Shelf"⟩
  let near : Source := ⟨⟨2⟩, "near", .entitySet "Shelf"⟩
  { main := warehouse
    clauses := [
      .join ⟨held, warehouse.id, some { direction := .right, detail := { kinds := ["HOLDS"] } }, none, none⟩,
      .join ⟨near, warehouse.id, none, some (warehouse.member "Size" .int32), some (near.member "Row" .int32)⟩]
    selector := warehouse.reference }

/-- Two shelves differ when they stand in different rows or in different bays. One of them may be missing. -/
theorem lower_joined_items_of_neighbouringShelves :
    ∃ s : Scope, s.schema = numberedShelves ∧ s.target = some Layout.mainRead ∧
      Workspace.ofQuery s.schema "s" neighbouringShelves = .ok s.workspace ∧
      let row (shelf : String) : Expr :=
        .storage ⟨"Row", ⟨"Shelf", ⟨"Row", .int32, none, none⟩⟩, ⟨some shelf, ["Shelf"]⟩⟩
      let bay (shelf : String) : Expr :=
        .storage ⟨"Place", ⟨"Shelf", ⟨"Bay", .int32, some "Place", none⟩⟩, ⟨some shelf, ["Shelf"]⟩⟩
      let lowered := s.lowerAndPromote .condition
        (.binary .notEqual (.source ⟨1⟩ (.entity "Shelf")) (.source ⟨2⟩ (.nullable (.entity "Shelf"))) {})
      lowered.1 = some (.binary .orElse (.binary .notEqual (row "held") (row "near") {})
        (.binary .notEqual (bay "held") (bay "near") {}) {}) ∧ lowered.2 = s.workspace := by
  have hok : Workspace.ofQuery numberedShelves "s" neighbouringShelves = .ok _ := rfl
  have hshelf : numberedShelves.entityOf? (.entity "Shelf") = some _ := rfl
  have hmissing : numberedShelves.entityOf? (.nullable (.entity "Shelf")) = some _ := hshelf
  have hop : Operator.notEqual.isEquality = true := rfl
  obtain ⟨nodeA, nodeB, hnodeA, hnodeB, hlowered, hkept⟩ :=
    lower_joined_items (a := ⟨1⟩) (b := ⟨2⟩) ⟨_, numberedShelves, .standard, .absent, some Layout.mainRead⟩ hok
      (by decide) (by decide) hshelf hmissing hop {}
  cases hnodeA
  cases hnodeB
  exact ⟨_, rfl, rfl, hok, hlowered, hkept fun _ h => (Option.some.inj h).symm⟩

end Scope

end GraphQuery
