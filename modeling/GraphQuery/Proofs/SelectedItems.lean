import GraphQuery.Proofs.CompileErrors
import GraphQuery.Proofs.FailedLowering
import GraphQuery.Proofs.ReturnedEntity
import GraphQuery.Proofs.SourceFaults
import Mathlib.Data.List.GetD

/-!
# What a selector returns

The items of a read are the selector's alone: no clause of a query changes them (`Compiler.bindClauses_items`). A
reference to a source returns the properties of its entity, each once.

A constructed object returns its members one after the other, except for those that are the client's. An expression that
is returned already is not returned again, only named again, so members may share an item. Which forms the members take
is recorded on the way (`Compiler.servedMembers`). Naming changes no more than a name, because no two items are equal, and
so the items are the forms of the members without those that were there already (`Compiler.selectMembers_items`).
-/

namespace GraphQuery

/-- A property that an entity declares, as it is stored on a node. -/
def Entity.storedOn (entity : Entity) (node : Node) (property : Property) : StoredProperty :=
  ⟨property.storedAs, ⟨entity.name, property⟩, node⟩

/-! ## Items and columns of a read -/

namespace Read

variable {r r' : Read}

/-- All clauses of a read match patterns. -/
def OnlyPatterns (r : Read) : Prop :=
  ∀ clause ∈ r.clauses, ∃ m, clause = .pattern m

/-- A demand on rows changes no item, and nests no read. -/
theorem demand_items {e : Expr} {d : Demand} (h : r.demand? e d = some r') :
    r'.items = r.items ∧ (r.OnlyPatterns → r'.OnlyPatterns) := by
  cases d with
  | condition _ _ =>
    obtain ⟨changed, hchanged, rfl⟩ := Option.map_eq_some_iff.1 h
    refine ⟨rfl, fun hr clause hclause => ?_⟩
    obtain ⟨before, m, after, hclauses, rfl⟩ := restrictLast_cases hchanged
    have hothers : ∀ clause ∈ before ++ after, ∃ m, clause = .pattern m := by
      intro clause hother
      refine hr clause ?_
      rw [hclauses]
      simp only [List.mem_append, List.mem_cons] at hother ⊢
      exact hother.imp_right Or.inr
    rcases List.mem_append.1 hclause with hbefore | hrest
    · exact hothers clause (List.mem_append_left after hbefore)
    · rcases List.mem_cons.1 hrest with rfl | hafter
      · exact ⟨_, rfl⟩
      · exact hothers clause (List.mem_append_right before hafter)
  | order _ => cases h; exact ⟨rfl, id⟩
  | limit _ => cases h; exact ⟨rfl, id⟩
  | skip _ => cases h; exact ⟨rfl, id⟩

theorem columnTypes_of_patterns (h : r.OnlyPatterns) : r.columnTypes = r.items.map Expr.columnType := by
  have hnested : ∀ clauses : List ReadingClause, (∀ clause ∈ clauses, ∃ m, clause = .pattern m) →
      ReadingClause.columnTypes clauses = [] := by
    intro clauses hclauses
    induction clauses with
    | nil => rfl
    | cons clause clauses ih =>
      obtain ⟨m, rfl⟩ := hclauses clause List.mem_cons_self
      exact ih fun clause hclause => hclauses clause (List.mem_cons_of_mem _ hclause)
  obtain ⟨clauses, items, orderings, skip, limit, star, starNode, aliasPrefix, projections⟩ := r
  rw [columnTypes]
  split
  · rfl
  · rename_i hempty
    have hitems : items = [] := by
      cases items with
      | nil => rfl
      | cons item items => exact absurd rfl hempty
    rw [hnested clauses h, hitems]
    rfl

theorem addItem_nodeOf (r : Read) (e : Expr) (resetStar : Bool) (id : SourceId) :
    (r.addItem e resetStar).2.nodeOf? id = r.nodeOf? id := by
  rcases r.addItem_cases e resetStar with ⟨i, -, heq⟩ | ⟨-, heq⟩
  · rw [heq]
  · rw [heq, nodeOf_eq_outline, nodeOf_eq_outline]

theorem offering_items (h : r.items = []) (ps : List StoredProperty) :
    (r.offering ps).items = ps.eraseDups.map .storage := by
  have hnew : ps.filter (fun p => !r.items.any fun item => item.returns (.storage p)) = ps := by
    simp [h]
  rw [offering, hnew, h]
  rfl

end Read

namespace Compiler

variable {c : Compiler} {sources : SourceTable} {start : Read} {p p' : Progress} {q : Query} {l : Layout} {plan : Plan}
  {compiled : CompiledQuery}

theorem meet_items {d : Demand} (h : c.meet sources p d = .ok p') :
    p'.read.items = p.read.items ∧ (p.read.OnlyPatterns → p'.read.OnlyPatterns) := by
  obtain ⟨hread, -⟩ | ⟨e, -, hread, -⟩ := Progress.meet_cases h
  · rw [hread]
    exact ⟨rfl, id⟩
  · exact Read.demand_items hread

/-- No clause of a query decides about what is returned, and none nests a read. -/
theorem bindClauses_items {clauses : List QueryClause}
    (h : clauses.foldlM (c.bindClause sources) { read := start } = .ok p) :
    p.read.items = start.items ∧ (start.OnlyPatterns → p.read.OnlyPatterns) := by
  refine Run.foldlM_keeps
    (fun p : Progress => p.read.items = start.items ∧ (start.OnlyPatterns → p.read.OnlyPatterns))
    (fun d _ p p' hp hmeet => ?_) ⟨rfl, id⟩ (meet_all_demands h)
  obtain ⟨hitems, hpatterns⟩ := meet_items hmeet
  exact ⟨hitems.trans hp.1, hpatterns ∘ hp.2⟩

theorem returnEntity_items {main : SourceId} {read : Read} (h : returnEntity main p = .ok read) :
    read.items = p.read.items := by
  unfold returnEntity at h
  split at h
  · split at h
    · cases h; rfl
    · cases h
  · cases h; rfl

/-- What a plan returns is what the selector adds to a read without items. All clauses of the read match patterns, so
its columns are its items. -/
theorem plan_items (h : c.plan q = .ok plan) :
    ∃ l p selected, Layout.ofQuery c.schema c.settings.binding.defaultAliasPrefix q = .ok l ∧
      q.clauses.foldlM (c.bindClause l.sources) { read := l.read } = .ok p ∧ p.read.items = [] ∧
      c.select l.sources p q.selector = .ok selected ∧ plan.clientParts = selected.clientParts ∧
      plan.read.items = selected.read.items ∧ plan.read.columnTypes = plan.read.items.map Expr.columnType := by
  obtain ⟨l, p, selected, hl, hp, hselected, hreturned, hparts⟩ := plan_stages h
  have hwf := Layout.ofQuery_wf hl
  obtain ⟨hitems, hpatterns⟩ := bindClauses_items hp
  have hstart : l.read.OnlyPatterns := by
    intro clause hclause
    obtain ⟨source, pattern, rfl, -⟩ := hwf.clauses clause hclause
    exact ⟨_, rfl⟩
  have hclauses : plan.read.clauses = p.read.clauses :=
    ((select_selected hselected).read.trans (returnEntity_sameRows hreturned)).clauses
  have hplan : plan.read.OnlyPatterns := by
    intro clause hclause
    exact hpatterns hstart clause (hclauses ▸ hclause)
  refine ⟨l, p, selected, hl, hp, ?_, hselected, hparts, returnEntity_items hreturned,
    Read.columnTypes_of_patterns hplan⟩
  rw [hitems, hwf.read]
  rfl

/-! ## A reference to a source -/

/-- The properties that are returned for a source are stored on its node. -/
theorem foldl_returnProperty {entity : Entity} {id : SourceId} {node : Node} (properties : List Property) {r : Read}
    (hnode : r.nodeOf? id = some node) :
    properties.foldl (returnProperty entity id) r = r.offering (properties.map (entity.storedOn node)) := by
  rw [← Read.foldl_addItem, List.foldl_map]
  induction properties generalizing r with
  | nil => rfl
  | cons property properties ih =>
    have hfirst : returnProperty entity id r property =
        (r.addItem (.storage (entity.storedOn node property)) true).2 := by
      rw [returnProperty, Read.storedProperty?, hnode]
      rfl
    have hkept : (returnProperty entity id r property).nodeOf? id = some node := by
      rw [hfirst, Read.addItem_nodeOf, hnode]
    rw [List.foldl_cons, List.foldl_cons, ih hkept, hfirst]

/-- A source that a layout knows is one of the query, and the first with its number decides about its node. -/
theorem nodeOf_known {schema : Schema} {aliasPrefix : String} {id : SourceId} {entry : SourceEntry} {r : Read}
    (hl : Layout.ofQuery schema aliasPrefix q = .ok l)
    (hr : r.clauses.map ReadingClause.outline = l.read.clauses.map ReadingClause.outline)
    (hentry : Table.find? id l.sources = some entry) :
    ∃ source entity, q.sources.find? (fun s => s.id == id) = some source ∧
      schema.entityOf? source.itemType = some entity ∧
      r.nodeOf? id = some ⟨some source.itemName, entity.labels⟩ := by
  have hknown : id ∈ q.sources.map Source.id := by
    have hknows := (Layout.ofQuery_fault schema aliasPrefix q).of_eq_ok hl
    exact (hknows id).1 (by rw [hentry]; rfl)
  obtain ⟨source, hsource⟩ : ∃ source, q.sources.find? (fun s => s.id == id) = some source := by
    obtain ⟨source, hmem, hid⟩ := List.mem_map.1 hknown
    exact Option.isSome_iff_exists.1 (List.find?_isSome.2 ⟨source, hmem, by simp [hid]⟩)
  obtain ⟨entity, hentity, hnode⟩ := nodeOf_source hl hr hsource
  exact ⟨source, entity, hsource, hentity, hnode⟩

/-- A query whose selector refers to a source returns the properties of the entity to which the reference is typed, as
they are stored on the node of that source: in the order of declaration, each once, and whatever its clauses are. The
columns have the types of these properties. -/
theorem compile_returns_properties {id : SourceId} {type : ValueType} {entity : Entity}
    (h : c.compile q = .ok compiled) (hselector : q.selector = .source id type)
    (hentity : c.schema.entityOf? type = some entity) :
    ∃ plan read source sourceEntity, c.plan q = .ok plan ∧ c.finish plan.read = .ok read ∧
      (c.passes = [] → read = plan.read) ∧ c.generator.render read = .ok ⟨compiled.text, compiled.parameters⟩ ∧
      compiled.columnTypes = read.columnTypes ∧
      q.sources.find? (fun s => s.id == id) = some source ∧
      c.schema.entityOf? source.itemType = some sourceEntity ∧
      let stored := (entity.properties.map (entity.storedOn ⟨some source.itemName, sourceEntity.labels⟩)).eraseDups
      plan.read.items = stored.map .storage ∧
        plan.read.columnTypes = stored.map fun p => p.declared.property.type := by
  obtain ⟨plan, read, hplan, hfinish, hrender, -⟩ := compile_stages h
  obtain ⟨l, p, selected, hl, hp, hempty, hselected, -, hitems, htypes⟩ := plan_items hplan
  rw [hselector, select] at hselected
  cases hentry : Table.find? id l.sources with
  | none =>
    simp only [hentry] at hselected
    cases hselected
  | some entry =>
    simp only [hentry, hentity] at hselected
    cases hselected
    obtain ⟨source, sourceEntity, hsource, hsourceEntity, hnode⟩ :=
      nodeOf_known hl (bindClauses_resolves hp).outlines hentry
    rw [foldl_returnProperty entity.properties hnode, Read.offering_items hempty] at hitems
    refine ⟨plan, read, source, sourceEntity, hplan, hfinish, fun hpasses => finish_no_passes hpasses hfinish, hrender,
      compile_columnTypes h hplan hfinish, hsource, hsourceEntity, hitems, ?_⟩
    rw [htypes, hitems, List.map_map]
    rfl

/-- Warehouses, and shelves that declare one property twice and store another one under its name. -/
def shelvingCompiler : Compiler where
  schema := ⟨[
    { name := "Warehouse", properties := [⟨"Size", .int32, none, none⟩] },
    { name := "Shelf", labels := ["Shelf", "Rack"]
      properties := [⟨"Row", .int32, none, none⟩, ⟨"Code", .string, some "Row", none⟩, ⟨"Row", .int32, none, none⟩] }]⟩

/-- The shelves in as many rows as their warehouse is large. They are paged by the client, which orders them. -/
def pagedShelves : Query :=
  let warehouse : Source := ⟨⟨0⟩, "w", .entitySet "Warehouse"⟩
  let shelf : Source := ⟨⟨1⟩, "s", .entitySet "Shelf"⟩
  { main := warehouse
    clauses := [
      .join ⟨shelf, warehouse.id, none, some warehouseSize, some (shelf.member "Row" .int32)⟩,
      .filter (sizeIs 1), .orderBy [⟨pageSize, true⟩], .skip (rowCount 2), .take (rowCount 3)]
    selector := shelf.reference }

/-- Both properties that are stored under one name are returned, and the one that is declared twice only once. -/
theorem compile_returns_properties_of_pagedShelves :
    ∃ compiled plan, shelvingCompiler.compile pagedShelves = .ok compiled ∧ compiled.clientParts.length = 3 ∧
      shelvingCompiler.plan pagedShelves = .ok plan ∧
      plan.read.items = [
        .storage ⟨"Row", ⟨"Shelf", ⟨"Row", .int32, none, none⟩⟩, ⟨some "s", ["Shelf", "Rack"]⟩⟩,
        .storage ⟨"Row", ⟨"Shelf", ⟨"Code", .string, some "Row", none⟩⟩, ⟨some "s", ["Shelf", "Rack"]⟩⟩] ∧
      compiled.columnTypes = [.int32, .string] := by
  have hcompiled : ∃ compiled, shelvingCompiler.compile pagedShelves = .ok compiled ∧ compiled.clientParts.length = 3 :=
    ⟨_, rfl, rfl⟩
  obtain ⟨compiled, hcompiled, hparts⟩ := hcompiled
  obtain ⟨plan, read, source, sourceEntity, hplan, -, hread, -, hcolumns, hsource, hsourceEntity, hitems, htypes⟩ :=
    compile_returns_properties hcompiled rfl rfl
  cases hsource
  cases hsourceEntity
  rw [hread rfl, htypes] at hcolumns
  exact ⟨compiled, plan, hcompiled, hparts, hplan, hitems, hcolumns⟩

end Compiler

/-! ## Items under their names -/

namespace Expr

theorem unaliased_of_kind {e : Expr} (h : e.kind ≠ .aliased) : e.unaliased = e := by
  cases e with
  | aliased _ _ => exact absurd rfl h
  | _ => rfl

theorem length_eraseDups_le (es : List Expr) : es.eraseDups.length ≤ es.length := by
  -- What is left behind the head is shorter, but not the tail, so the induction is on the length.
  induction hn : es.length using Nat.strong_induction_on generalizing es with
  | _ n ih =>
    cases es with
    | nil => simp
    | cons e es =>
      have hfilter := List.length_filter_le (fun e' => !e' == e) es
      rw [List.length_cons] at hn
      have hrest := ih _ (by omega) (es.filter fun e' => !e' == e) rfl
      rw [List.eraseDups_cons, List.length_cons]
      omega

/-- Nothing is removed from a list exactly when its elements differ. -/
theorem length_eraseDups_iff (es : List Expr) :
    es.eraseDups.length = es.length ↔ es.Pairwise fun a b => (a == b) = false := by
  induction es with
  | nil => simp
  | cons e es ih =>
    have hkept : es.filter (fun e' => !e' == e) = es ↔ ∀ e' ∈ es, (e == e') = false := by
      rw [List.filter_eq_self]
      refine forall₂_congr fun e' _ => ?_
      rw [beq_comm, Bool.not_eq_true']
    rw [List.eraseDups_cons, List.length_cons, List.length_cons, Nat.add_right_cancel_iff, List.pairwise_cons, ← ih,
      ← hkept]
    constructor
    · intro h
      have hrest := length_eraseDups_le (es.filter fun e' => !e' == e)
      have hfilter := List.length_filter_le (fun e' => !e' == e) es
      have hall : es.filter (fun e' => !e' == e) = es :=
        List.filter_sublist.eq_of_length (by omega)
      exact ⟨hall, by rwa [hall] at h⟩
    · rintro ⟨hall, h⟩
      rwa [hall]

/-- Of the expressions in a list, those that equal neither one that is there nor one before them. -/
def newBehind (there es : List Expr) : List Expr :=
  (es.filter fun e => !there.any (· == e)).eraseDups

theorem newBehind_nil (es : List Expr) : newBehind [] es = es.eraseDups := by
  simp [newBehind]

theorem newBehind_cons (there : List Expr) (e : Expr) (es : List Expr) :
    newBehind there (e :: es) =
      if there.any (· == e) then newBehind there es else e :: newBehind (there ++ [e]) es := by
  unfold newBehind
  cases hany : there.any (· == e) with
  | true => rw [List.filter_cons_of_neg (by simp [hany]), if_pos rfl]
  | false =>
    have hrest : ∀ e', (!(there ++ [e]).any (· == e')) = ((!e' == e) && !there.any (· == e')) := by
      intro e'
      rw [List.any_append, List.any_cons, List.any_nil, Bool.or_false, Bool.not_or, Bool.and_comm, beq_comm]
    rw [List.filter_cons_of_pos (by simp [hany]), List.eraseDups_cons, List.filter_filter,
      if_neg Bool.false_ne_true]
    simp only [hrest]

end Expr

namespace Read

variable {r : Read}

theorem addItem_mem (r : Read) (e : Expr) (resetStar : Bool) (default : Expr) :
    (r.addItem e resetStar).2.items.getD (r.addItem e resetStar).1 default ∈ (r.addItem e resetStar).2.items := by
  rcases r.addItem_cases e resetStar with ⟨i, hfind, heq⟩ | ⟨-, heq⟩
  · obtain ⟨hi, -⟩ := List.findIdx?_eq_some_iff_getElem.1 hfind
    rw [heq, List.getD_eq_getElem _ _ hi]
    exact List.getElem_mem hi
  · rw [heq]
    simp

/-- Up to their names, items are added behind the ones that are there. -/
theorem addItem_unaliased (r : Read) (e : Expr) (resetStar : Bool) :
    (r.addItem e resetStar).2.items.map Expr.unaliased = r.items.map Expr.unaliased ++
      if r.items.any (·.returns e.withoutWidening) then [] else [e.withoutWidening.unaliased] := by
  have hany : (r.items.findIdx? (·.returns e.withoutWidening)).isSome = r.items.any (·.returns e.withoutWidening) :=
    List.findIdx?_isSome
  rcases r.addItem_cases e resetStar with ⟨i, hfind, heq⟩ | ⟨hnone, heq⟩
  · rw [heq, ← hany, hfind]
    simp
  · rw [heq, ← hany, hnone]
    simp

/-- Naming an item changes it in its name alone. It is found in its own place, since no other item equals it. -/
theorem nameUniquely_unaliased (h : r.Distinct) {e : Expr} (he : e ∈ r.items) (hint : Option String) :
    (r.nameUniquely e hint).2.items.map Expr.unaliased = r.items.map Expr.unaliased := by
  rcases r.nameUniquely_cases e hint with hsame | ⟨before, item, after, named, hitems, hbeq, hread, hnamed⟩
  · rw [hsame]
  · -- The first item that equals the expression need not be the expression, unless the items differ.
    have hitem : e = item := by
      rw [Distinct, hitems, List.pairwise_middle fun {a b} hab => by rwa [Expr.beq_comm], List.pairwise_cons] at h
      have hmem : e = item ∨ e ∈ before ++ after := by
        rw [hitems] at he
        simpa [or_left_comm] using he
      by_contra hne
      rw [h.1 e (hmem.resolve_left hne)] at hbeq
      cases hbeq
    subst hitem
    have hbare : named.unaliased = e.unaliased := by
      rcases hnamed with rfl | ⟨name, -, rfl⟩
      · rfl
      · rfl
    rw [hread, hitems]
    simp only [List.map_append, List.map_cons, hbare]

end Read

/-! ## A constructed object -/

/-- Whether a member of a constructed object is among the client parts. -/
def ClientPart.leavesMember (parts : List ClientPart) (name : String) : Bool :=
  parts.any fun part => part.kind == .projectionMember name

/-- A member of a constructed object that the server returns, in the form in which it runs there. -/
structure ServedMember where
  member : String × Expr
  form : Expr
  /-- An item returns that form already when the member is bound. -/
  returned : Bool

namespace Compiler

variable {c : Compiler} {sources : SourceTable} {typeName : String} {p : Progress} {m : String × Expr}
  {members : List (String × Expr)}

/-- The form in which a member is returned, unless it is left to the client. -/
def memberForm? (c : Compiler) (sources : SourceTable) (p : Progress) (m : String × Expr) : Option Expr :=
  if m.2.isConstant && !c.settings.binding.projectConstants then none
  else (c.lower? sources p .result m.2).map Expr.withoutWidening

def servedMember? (c : Compiler) (sources : SourceTable) (p : Progress) (m : String × Expr) : Option ServedMember :=
  (c.memberForm? sources p m).map fun form => ⟨m, form, p.read.items.any (·.returns form)⟩

/-- The members that the server returns, when members are bound one after the other. -/
def servedMembers (c : Compiler) (sources : SourceTable) (typeName : String) :
    Progress → List (String × Expr) → List ServedMember
  | _, [] => []
  | p, m :: members =>
    (c.servedMember? sources p m).toList ++
      c.servedMembers sources typeName (c.selectMember sources typeName p m) members

/-- A member is left to the client, or its form is added to the items and the item that returns it is named. -/
theorem selectMember_cases (c : Compiler) (sources : SourceTable) (typeName : String) (p : Progress)
    (m : String × Expr) :
    (c.servedMember? sources p m = none ∧ (c.selectMember sources typeName p m).read = p.read ∧
      (c.selectMember sources typeName p m).clientParts = p.clientParts ++ [⟨.projectionMember m.1, m.2⟩]) ∨
    ∃ bound item, c.servedMember? sources p m =
        some ⟨m, bound.withoutWidening, p.read.items.any (·.returns bound.withoutWidening)⟩ ∧
      item ∈ (p.read.addItem bound true).2.items ∧ c.selectMember sources typeName p m =
        { p with read := ((p.read.addItem bound true).2.nameMember ⟨typeName, m.1⟩ item).2 } := by
  unfold servedMember? memberForm? selectMember
  by_cases hconstant : (m.2.isConstant && !c.settings.binding.projectConstants) = true
  · rw [if_pos hconstant, if_pos hconstant]
    exact Or.inl ⟨rfl, rfl, rfl⟩
  · rw [if_neg hconstant, if_neg hconstant]
    cases c.lower? sources p .result m.2 with
    | none => exact Or.inl ⟨rfl, rfl, rfl⟩
    | some bound => exact Or.inr ⟨bound, _, rfl, p.read.addItem_mem bound true bound, rfl⟩

/-- Binding a member adds its form behind the items when nothing returns it yet, and otherwise adds nothing. -/
theorem selectMember_items (c : Compiler) (sources : SourceTable) (h : p.read.Distinct) (typeName : String)
    (m : String × Expr) :
    (c.selectMember sources typeName p m).read.Distinct ∧
      (c.selectMember sources typeName p m).read.items.map Expr.unaliased = p.read.items.map Expr.unaliased ++
        ((c.servedMember? sources p m).toList.filter fun s => !s.returned).map fun s => s.form.unaliased := by
  obtain ⟨hserved, hread, -⟩ | ⟨bound, item, hserved, hitem, heq⟩ := selectMember_cases c sources typeName p m
  · rw [hserved, hread]
    exact ⟨h, (List.append_nil _).symm⟩
  · have hadded := Read.addItem_distinct h bound true
    rw [heq]
    refine ⟨Read.nameUniquely_distinct hadded item (some m.1), ?_⟩
    refine (Read.nameUniquely_unaliased hadded hitem (some m.1)).trans ?_
    rw [Read.addItem_unaliased, hserved]
    cases p.read.items.any (·.returns bound.withoutWidening) with
    | true => rfl
    | false => rfl

/-- Up to their names, the items are the forms of the served members that no earlier item returned, in order. -/
theorem selectMembers_items (h : p.read.Distinct) (typeName : String) (members : List (String × Expr)) :
    (members.foldl (c.selectMember sources typeName) p).read.items.map Expr.unaliased =
      p.read.items.map Expr.unaliased ++
        ((c.servedMembers sources typeName p members).filter fun s => !s.returned).map fun s => s.form.unaliased := by
  induction members generalizing p with
  | nil => exact (List.append_nil _).symm
  | cons m members ih =>
    obtain ⟨hdistinct, hitems⟩ := selectMember_items c sources h typeName m
    rw [List.foldl_cons, ih hdistinct, hitems, servedMembers, List.filter_append, List.map_append, List.append_assoc]

theorem returned_eq {served : ServedMember} (h : c.servedMember? sources p m = some served)
    (hbare : served.form.kind ≠ .aliased) :
    served.returned = (p.read.items.map Expr.unaliased).any (· == served.form) := by
  obtain ⟨form, -, rfl⟩ := Option.map_eq_some_iff.1 h
  rw [List.any_map]
  exact congrArg p.read.items.any (funext fun item => Expr.returns_eq item hbare)

/-- As long as forms carry no names of their own, each is an item once, in the place of its first member. -/
theorem selectMembers_forms (h : p.read.Distinct) (members : List (String × Expr))
    (hbare : ∀ s ∈ c.servedMembers sources typeName p members, s.form.kind ≠ .aliased) :
    (members.foldl (c.selectMember sources typeName) p).read.items.map Expr.unaliased =
      p.read.items.map Expr.unaliased ++ Expr.newBehind (p.read.items.map Expr.unaliased)
        ((c.servedMembers sources typeName p members).map ServedMember.form) := by
  induction members generalizing p with
  | nil => simp [servedMembers, Expr.newBehind]
  | cons m members ih =>
    obtain ⟨hdistinct, hitems⟩ := selectMember_items c sources h typeName m
    rw [servedMembers, List.forall_mem_append] at hbare
    rw [List.foldl_cons, ih hdistinct hbare.2, servedMembers, hitems]
    cases hserved : c.servedMember? sources p m with
    | none =>
      rw [Option.toList_none, List.filter_nil, List.map_nil, List.append_nil, List.nil_append]
    | some served =>
      have hkind : served.form.kind ≠ .aliased := hbare.1 served (by rw [hserved]; exact List.mem_singleton_self _)
      have hreturned := returned_eq hserved hkind
      rw [Option.toList_some, List.singleton_append, List.map_cons, Expr.newBehind_cons, ← hreturned]
      cases hnew : served.returned with
      | true => simp [hnew]
      | false => simp [hnew, Expr.unaliased_of_kind hkind]

/-! ## Members of the client -/

theorem demand_leavesMember (parts : List ClientPart) (d : Demand) (name : String) :
    ClientPart.leavesMember (parts ++ [d.part]) name = ClientPart.leavesMember parts name := by
  have hkind : (d.part.kind == .projectionMember name) = false := by
    cases d with
    | condition joins e => cases joins <;> rfl
    | _ => rfl
  rw [ClientPart.leavesMember, List.any_append, List.any_cons, hkind]
  exact Bool.or_false _

/-- No clause of a query leaves a member of an object to the client. -/
theorem bindClauses_leavesMember {clauses : List QueryClause} {start : Read}
    (h : clauses.foldlM (c.bindClause sources) { read := start } = .ok p) (name : String) :
    ClientPart.leavesMember p.clientParts name = false := by
  refine Run.foldlM_keeps (fun p : Progress => ClientPart.leavesMember p.clientParts name = false)
    (fun d _ p p' hp hmeet => ?_) rfl (meet_all_demands h)
  obtain ⟨-, hparts⟩ | ⟨e, -, -, hparts⟩ := Progress.meet_cases hmeet
  · rw [hparts, demand_leavesMember, hp]
  · rw [hparts, hp]

theorem selectMember_leavesMember (typeName : String) (p : Progress) (m : String × Expr) (name : String) :
    ClientPart.leavesMember (c.selectMember sources typeName p m).clientParts name =
      (ClientPart.leavesMember p.clientParts name || ((c.servedMember? sources p m).isNone && m.1 == name)) := by
  obtain ⟨hserved, -, hparts⟩ | ⟨bound, item, hserved, -, hread⟩ := selectMember_cases c sources typeName p m
  · have hkind : (PartKind.projectionMember m.1 == .projectionMember name) = (m.1 == name) := by
      by_cases hname : m.1 = name
      · simp [hname]
      · simp [hname]
    rw [hparts, hserved, ClientPart.leavesMember, List.any_append, List.any_cons, hkind]
    simp [ClientPart.leavesMember]
  · rw [hread, hserved]
    simp

/-- Members of other names do not make a member the client's. -/
theorem selectMembers_leavesMember {name : String} (h : name ∉ members.map Prod.fst) :
    ClientPart.leavesMember (members.foldl (c.selectMember sources typeName) p).clientParts name =
      ClientPart.leavesMember p.clientParts name := by
  induction members generalizing p with
  | nil => rfl
  | cons m members ih =>
    rw [List.map_cons, List.mem_cons, not_or] at h
    have hname : (m.1 == name) = false := by simpa using Ne.symm h.1
    rw [List.foldl_cons, ih h.2, selectMember_leavesMember, hname, Bool.and_false, Bool.or_false]

/-- When the names of members differ, the server returns the members that are not left to the client. -/
theorem servedMembers_eq (hnames : (members.map Prod.fst).Nodup)
    (hfree : ∀ m ∈ members, ClientPart.leavesMember p.clientParts m.1 = false) :
    (c.servedMembers sources typeName p members).map ServedMember.member = members.filter fun m =>
      !ClientPart.leavesMember (members.foldl (c.selectMember sources typeName) p).clientParts m.1 := by
  induction members generalizing p with
  | nil => rfl
  | cons m members ih =>
    obtain ⟨hm, hnames⟩ := List.nodup_cons.1 hnames
    have hothers : ∀ m' ∈ members,
        ClientPart.leavesMember (c.selectMember sources typeName p m).clientParts m'.1 = false := by
      intro m' hm'
      have hname : (m.1 == m'.1) = false := beq_eq_false_iff_ne.2 fun heq => hm (heq ▸ List.mem_map_of_mem hm')
      rw [selectMember_leavesMember, hfree m' (List.mem_cons_of_mem _ hm'), hname, Bool.and_false, Bool.or_false]
    have hhead : ClientPart.leavesMember
        (members.foldl (c.selectMember sources typeName) (c.selectMember sources typeName p m)).clientParts m.1 =
          (c.servedMember? sources p m).isNone := by
      rw [selectMembers_leavesMember hm, selectMember_leavesMember, hfree m List.mem_cons_self, beq_self_eq_true,
        Bool.and_true, Bool.false_or]
    rw [servedMembers, List.map_append, List.foldl_cons, ih hnames hothers]
    cases hserved : c.servedMember? sources p m with
    | none =>
      rw [List.filter_cons_of_neg (by simp [hhead, hserved])]
      rfl
    | some served =>
      obtain ⟨form, -, rfl⟩ := Option.map_eq_some_iff.1 hserved
      rw [List.filter_cons_of_pos (by simp [hhead, hserved])]
      rfl

/-! ## Members of front-end queries -/

/-- Without an enclosing query, the form of a member that is admitted carries no name. -/
theorem memberForm_bare (houter : c.outer = .absent) {tuples : Bool} (hp : p.read.IsServer tuples)
    (hm : m.2.AllNodes (c.Admits sources tuples)) {form : Expr} (h : c.memberForm? sources p m = some form) :
    form.kind ≠ .aliased := by
  unfold memberForm? at h
  split at h
  · cases h
  · obtain ⟨bound, hbound, rfl⟩ := Option.map_eq_some_iff.1 h
    have hserver := Read.IsServer.withoutWidening (lower_server houter hp hm hbound)
    intro hkind
    cases hform : bound.withoutWidening with
    | aliased n e =>
      rw [hform] at hserver
      exact Expr.AllNodes.self hserver
    | _ =>
      rw [hform] at hkind
      cases hkind

theorem servedMembers_bare (houter : c.outer = .absent) {tuples : Bool} (hp : p.read.IsServer tuples)
    (hmembers : ∀ m ∈ members, m.2.AllNodes (c.Admits sources tuples)) :
    ∀ s ∈ c.servedMembers sources typeName p members, s.form.kind ≠ .aliased := by
  induction members generalizing p with
  | nil => intro s hs; cases hs
  | cons m members ih =>
    have hm := hmembers m List.mem_cons_self
    rw [servedMembers, List.forall_mem_append]
    refine ⟨fun s hs => ?_, ih (selectMember_server houter hp typeName hm)
      fun m' hm' => hmembers m' (List.mem_cons_of_mem _ hm')⟩
    obtain ⟨form, hform, rfl⟩ := Option.map_eq_some_iff.1 (Option.mem_toList.1 hs)
    exact memberForm_bare houter hp hm hform

/-- A query that constructs an object with differently named members returns those that are not left to the client,
unless an earlier item returns the form of a member already. Up to their names the items are the remaining forms, in the
order of the members. For front-end expressions without an enclosing query that is each form once, so there is an
item for each member that is not the client's exactly when the forms differ. -/
theorem compile_returns_members {q : Query} {compiled : CompiledQuery} {typeName : String}
    {members : List (String × Expr)} (h : c.compile q = .ok compiled)
    (hselector : q.selector = .construct typeName members) (hnames : (members.map Prod.fst).Nodup) :
    ∃ l p plan read, Layout.ofQuery c.schema c.settings.binding.defaultAliasPrefix q = .ok l ∧
      q.clauses.foldlM (c.bindClause l.sources) { read := l.read } = .ok p ∧ c.plan q = .ok plan ∧
      c.finish plan.read = .ok read ∧ (c.passes = [] → read = plan.read) ∧
      c.generator.render read = .ok ⟨compiled.text, compiled.parameters⟩ ∧
      let served := c.servedMembers l.sources typeName p members
      served.map ServedMember.member = members.filter (fun m => !ClientPart.leavesMember compiled.clientParts m.1) ∧
        plan.read.items.map Expr.unaliased =
          (served.filter fun s => !s.returned).map (fun s => s.form.unaliased) ∧
        (q.IsFrontEnd → c.outer = .absent →
          plan.read.items.map Expr.unaliased = (served.map ServedMember.form).eraseDups ∧
          (plan.read.items.length = served.length ↔
            (served.map ServedMember.form).Pairwise fun a b => (a == b) = false)) := by
  obtain ⟨plan, read, hplan, hfinish, hrender, hclient⟩ := compile_stages h
  obtain ⟨l, p, selected, hl, hp, hempty, hselected, hparts, hitems, -⟩ := plan_items hplan
  rw [hselector] at hselected
  cases hselected
  have hdistinct : p.read.Distinct := by
    rw [Read.Distinct, hempty]
    exact List.Pairwise.nil
  refine ⟨l, p, plan, read, hl, hp, hplan, hfinish, fun hpasses => finish_no_passes hpasses hfinish, hrender, ?_, ?_,
    ?_⟩
  · rw [hclient, hparts]
    exact servedMembers_eq hnames fun m _ => bindClauses_leavesMember hp m.1
  · rw [hitems, selectMembers_items hdistinct typeName members, hempty]
    rfl
  · intro hq houter
    have hadmits : ∀ n ∈ q.nodes, c.Admits l.sources true n := fun n hn => admits_of_frontEnd c l.sources (hq n hn)
    have hmembers : ∀ m ∈ members, m.2.AllNodes (c.Admits l.sources true) := by
      intro m hm n hn
      refine hadmits n (Query.mem_nodes_of_selector ?_)
      rw [hselector, Expr.nodes]
      exact List.mem_cons_of_mem _ (Expr.mem_nodesOfMembers.2 ⟨m, hm, hn⟩)
    have hserver := bindClauses_server houter (Layout.ofQuery_wf hl) hadmits hp
    have hforms : plan.read.items.map Expr.unaliased =
        ((c.servedMembers l.sources typeName p members).map ServedMember.form).eraseDups := by
      rw [hitems, selectMembers_forms hdistinct members (servedMembers_bare houter hserver hmembers), hempty]
      exact Expr.newBehind_nil _
    refine ⟨hforms, ?_⟩
    rw [← Expr.length_eraseDups_iff, ← hforms, List.length_map, List.length_map]

/-- A summary of the first three warehouses of one size. -/
def warehouseSummary (members : List (String × Expr)) : Query where
  main := ⟨⟨0⟩, "w", .entitySet "Warehouse"⟩
  clauses := [.filter (sizeIs 1), .take (rowCount 3)]
  selector := .construct "Summary" members

/-- The size of a warehouse, a number of the client's, and the size once more, as a nullable one. -/
def repeatedSizes : List (String × Expr) :=
  [("Size", warehouseSize), ("Page", pageSize), ("Extent", .convert warehouseSize (.nullable .int32))]

theorem compile_returns_members_of_repeatedSizes :
    ∃ (compiled : CompiledQuery) (plan : Plan) (served : List ServedMember),
      warehouseCompiler.compile (warehouseSummary repeatedSizes) = .ok compiled ∧
      warehouseCompiler.plan (warehouseSummary repeatedSizes) = .ok plan ∧
      served.map ServedMember.member =
        [("Size", warehouseSize), ("Extent", .convert warehouseSize (.nullable .int32))] ∧
      plan.read.items.map Expr.unaliased = (served.map ServedMember.form).eraseDups ∧ plan.read.items.length = 1 := by
  have hcompiled : ∃ compiled, warehouseCompiler.compile (warehouseSummary repeatedSizes) = .ok compiled ∧
      compiled.clientParts = [⟨.projectionMember "Page", pageSize⟩] := ⟨_, rfl, rfl⟩
  have hplanned : ∃ plan, warehouseCompiler.plan (warehouseSummary repeatedSizes) = .ok plan ∧
      plan.read.items.length = 1 := ⟨_, rfl, rfl⟩
  obtain ⟨compiled, hcompiled, hparts⟩ := hcompiled
  obtain ⟨plan, hplanned, hlength⟩ := hplanned
  obtain ⟨l, p, plan', -, -, -, hplan, -, -, -, hserved, -, hfrontEnd⟩ :=
    compile_returns_members hcompiled rfl (by decide)
  cases hplanned.symm.trans hplan
  have hq : (warehouseSummary repeatedSizes).IsFrontEnd := by
    unfold Query.IsFrontEnd
    decide
  refine ⟨compiled, plan, _, hcompiled, hplan, hserved.trans ?_, (hfrontEnd hq rfl).1, hlength⟩
  rw [hparts]
  rfl

/-- Two members of one form share an item, which has the name of the second, although the client has none of them. -/
theorem two_members_one_item :
    (warehouseSummary [("Least", warehouseSize), ("Most", warehouseSize)]).IsFrontEnd ∧
      ∃ compiled plan,
        warehouseCompiler.compile (warehouseSummary [("Least", warehouseSize), ("Most", warehouseSize)]) =
          .ok compiled ∧
        compiled.clientParts = [] ∧
        compiled.text = "MATCH (w:Warehouse)\nWHERE \"w\".\"Size\" = 1 RETURN \"w\".\"Size\" AS \"Most\" LIMIT 3" ∧
        warehouseCompiler.plan (warehouseSummary [("Least", warehouseSize), ("Most", warehouseSize)]) = .ok plan ∧
        plan.read.items.map Expr.outputName = [some "Most"] := by
  refine ⟨?_, _, _, rfl, rfl, by decide +kernel, rfl, rfl⟩
  unfold Query.IsFrontEnd
  decide

end Compiler

end GraphQuery
