import GraphQuery.Proofs.ClientPaging
import GraphQuery.Proofs.ReturnItems
import GraphQuery.Proofs.Scoping

/-!
# When the whole entity is returned

The client needs whole entities for most of its parts, and a read then returns all properties of the node of the main
source. Which parts ask for that can be read off the list of client parts and the limit of the server
(`Compiler.asksForEntity`). Conditions and projections always ask. Orderings, limits and skips ask as long as the server
sets no limit; behind a limit of the server orderings and skips do not, and a limit does only if no skip stands before
it.
-/

namespace GraphQuery

/-- Whether a client part orders or pages rows. -/
def PartKind.pages : PartKind → Bool
  | .ordering | .limit | .skip => true
  | _ => false

namespace Compiler

variable {c : Compiler} {part : ClientPart}

/-- Whether a client part asks for whole entities wherever it stands. A constant member does not, unless constants are
to be sent to the server. -/
def asksAlone (c : Compiler) (part : ClientPart) : Bool :=
  match part.kind with
  | .predicate | .joinCondition | .projection => true
  | .projectionMember _ => !part.expr.isConstant || c.settings.binding.projectConstants
  | .ordering | .limit | .skip => false

/-- Whether client parts ask for whole entities, when the server limits the rows or does not. -/
def asksForEntity (c : Compiler) (limited : Bool) (parts : List ClientPart) : Bool :=
  parts.any c.asksAlone ||
    if limited then (parts.find? fun part => part.kind != .ordering).any fun part => part.kind == .limit
    else parts.any fun part => part.kind.pages

theorem asksForEntity_concat (c : Compiler) (limited : Bool) (parts : List ClientPart) (part : ClientPart) :
    c.asksForEntity limited (parts ++ [part]) = (c.asksForEntity limited parts || (c.asksAlone part ||
      if limited then (parts.all fun part => part.kind == .ordering) && part.kind == .limit
      else part.kind.pages)) := by
  cases limited with
  | false =>
    simp only [asksForEntity, List.any_append, List.any_cons, List.any_nil, Bool.or_false, Bool.false_eq_true, if_false]
    ac_rfl
  | true =>
    have hfirst : ((parts ++ [part]).find? fun part => part.kind != .ordering).any (fun part => part.kind == .limit) =
        ((parts.find? fun part => part.kind != .ordering).any (fun part => part.kind == .limit) ||
          ((parts.all fun part => part.kind == .ordering) && part.kind == .limit)) := by
      rw [List.find?_append]
      cases hfind : parts.find? fun part => part.kind != .ordering with
      | none =>
        have hall : (parts.all fun part => part.kind == .ordering) = true := by
          simpa using hfind
        by_cases hkind : part.kind = .ordering
        · simp [hkind]
        · simp [hkind, hall]
      | some first =>
        have hall : (parts.all fun part => part.kind == .ordering) = false := by
          have hne := List.find?_some hfind
          exact List.all_eq_false.2 ⟨first, List.mem_of_find?_eq_some hfind, by simpa using hne⟩
        simp [hall]
    simp only [asksForEntity, List.any_append, List.any_cons, List.any_nil, Bool.or_false, if_true, hfirst]
    ac_rfl

theorem asksForEntity_projection (limited : Bool) (parts : List ClientPart) (h : part.kind.isProjection = true) :
    c.asksForEntity limited (parts ++ [part]) = (c.asksForEntity limited parts || c.asksAlone part) := by
  obtain ⟨kind, e⟩ := part
  have hkind : (kind == .limit) = false ∧ kind.pages = false := by
    cases kind with
    | projection => exact ⟨rfl, rfl⟩
    | projectionMember name => exact ⟨rfl, rfl⟩
    | _ => cases h
  simp [asksForEntity_concat, hkind]

end Compiler

/-! ## Clauses -/

namespace Progress

variable {c : Compiler} {p p' : Progress} {d : Demand} {lowered : Option Expr} {limited : Bool}

/-- The client needs whole entities when its parts ask for them, and so far no node is returned whole. -/
structure Asks (c : Compiler) (limited : Bool) (p : Progress) : Prop where
  needsEntity : p.needsEntity = c.asksForEntity limited p.clientParts
  star : p.read.star = false

/-- What holds while clauses are bound. As long as the server sets no limit, the client decides about rows only by parts
for which it needs whole entities. -/
structure Asking (c : Compiler) (p : Progress) : Prop where
  marked : p.Marked
  unlimited : p.limited = false → p.clientRows = true → p.needsEntity = true
  asks : p.Asks c p.limited

namespace Asking

variable {kind : PartKind} {e : Expr}

/-- A part that is left without the entity does not ask for it: the client decides about rows already, or the part is no
limit and stands behind one of the server. -/
theorem leave (h : p.Asking c) (halone : c.asksAlone ⟨kind, e⟩ = false)
    (hrows : p.limited = false ∨ kind = .limit → p.clientRows = true) :
    p.needsEntity = c.asksForEntity p.limited (p.clientParts ++ [⟨kind, e⟩]) := by
  rw [Compiler.asksForEntity_concat, ← h.asks.needsEntity, halone, Bool.false_or]
  cases hlimited : p.limited with
  | false => rw [h.unlimited hlimited (hrows (Or.inl hlimited)), Bool.true_or]
  | true =>
    have hlimit : ((p.clientParts.all fun part => part.kind == .ordering) && kind == .limit) = false := by
      by_cases hkind : kind = .limit
      · have hclient := hrows (Or.inr hkind)
        refine Bool.and_eq_false_imp.2 fun hall => ?_
        have hfalse := h.marked.clientRows.2 (Or.inr ⟨hlimited, by simpa using hall⟩)
        exact absurd hclient (by simp [hfalse])
      · simp [hkind]
    simp only [if_true, hlimit, Bool.or_false]

/-- A part that makes the client decide about rows asks for the entity, unless it stands behind a limit of the server
and is no limit itself. -/
theorem leaveRows (h : p.Asking c)
    (hpart : c.asksAlone ⟨kind, e⟩ = true ∨ (p.clientRows = false ∧ kind = .limit) ∨
      (p.limited = false ∧ kind.pages = true)) :
    true = c.asksForEntity p.limited (p.clientParts ++ [⟨kind, e⟩]) := by
  rw [Compiler.asksForEntity_concat]
  rcases hpart with halone | ⟨hrows, rfl⟩ | ⟨hlimited, hpages⟩
  · simp [halone]
  · cases hlimited : p.limited with
    | false => simp [PartKind.pages]
    | true =>
      have hall : (p.clientParts.all fun part => part.kind == .ordering) = true := by
        rcases h.marked.clientRows.1 hrows with hnil | ⟨-, hall⟩
        · simp [hnil]
        · simpa using hall
      simp [hall]
  · simp [hlimited, hpages]

theorem filter (h : p.Asking c) (hkind : kind ≠ .ordering) (halone : c.asksAlone ⟨kind, e⟩ = true)
    (hp : p.filter kind e lowered = .ok p') : p'.Asking c := by
  have hmarked := h.marked.filter hkind hp
  obtain ⟨-, rfl⟩ | ⟨condition, read, -, -, hread, rfl⟩ := filter_cases hp
  · exact ⟨hmarked, fun _ _ => rfl, h.leaveRows (Or.inl halone), h.asks.star⟩
  · obtain ⟨changed, -, rfl⟩ := Option.map_eq_some_iff.1 hread
    exact ⟨hmarked, h.unlimited, h.asks.needsEntity, h.asks.star⟩

theorem order (h : p.Asking c) (term : SortTerm) (lowered : Option Expr) : (p.order term lowered).Asking c := by
  have hmarked := h.marked.order term lowered
  obtain ⟨hmarks, hp⟩ | ⟨⟨-, hlimited, -⟩, hp⟩ | ⟨e, -, hp⟩ := p.order_cases term lowered
  · have hrows : p.limited = false ∨ PartKind.ordering = .limit → p.clientRows = true := by
      rintro (hlimited | ⟨⟨⟩⟩)
      exact hmarks.resolve_right (by simp [hlimited])
    rw [hp] at hmarked ⊢
    exact ⟨hmarked, h.unlimited, h.leave rfl hrows, h.asks.star⟩
  · rw [hp] at hmarked ⊢
    exact ⟨hmarked, fun _ _ => rfl, h.leaveRows (Or.inr (Or.inr ⟨hlimited, rfl⟩)), h.asks.star⟩
  · rw [hp] at hmarked ⊢
    exact ⟨hmarked, h.unlimited, h.asks.needsEntity, h.asks.star⟩

theorem take (h : p.Asking c) (count : Expr) (lowered : Option Expr) : (p.take count lowered).Asking c := by
  have hmarked := h.marked.take count lowered
  revert hmarked
  unfold Progress.take
  split
  · rename_i hrows
    intro hmarked
    exact ⟨hmarked, h.unlimited, h.leave rfl fun _ => hrows, h.asks.star⟩
  · rename_i hrows
    have hfree : p.clientRows = false := by simpa using hrows
    split
    · intro hmarked
      refine ⟨hmarked, by rintro ⟨⟩, ?_, h.asks.star⟩
      have hneeds := h.asks.needsEntity
      -- By then the client has no parts, or the server has a limit already.
      rcases h.marked.clientRows.1 hfree with hnil | ⟨hlimited, -⟩
      · rw [hnil] at hneeds
        simp only [hneeds, hnil]
        cases p.limited <;> rfl
      · rwa [hlimited] at hneeds
    · intro hmarked
      exact ⟨hmarked, fun _ _ => rfl, h.leaveRows (Or.inr (Or.inl ⟨hfree, rfl⟩)), h.asks.star⟩

theorem skip (h : p.Asking c) (count : Expr) (lowered : Option Expr) : (p.skip count lowered).Asking c := by
  have hmarked := h.marked.skip count lowered
  revert hmarked
  unfold Progress.skip
  split
  · rename_i hmarks
    intro hmarked
    rw [Bool.or_eq_true] at hmarks
    have hrows : p.limited = false → p.clientRows = true := fun hlimited => hmarks.resolve_right (by simp [hlimited])
    refine ⟨hmarked, fun hlimited _ => h.unlimited hlimited (hrows hlimited), h.leave rfl ?_, h.asks.star⟩
    rintro (hlimited | ⟨⟨⟩⟩)
    exact hrows hlimited
  · rename_i hmarks
    rw [Bool.or_eq_true, not_or, Bool.not_eq_true, Bool.not_eq_true] at hmarks
    split
    · intro hmarked
      exact ⟨hmarked, h.unlimited, h.asks.needsEntity, h.asks.star⟩
    · intro hmarked
      exact ⟨hmarked, fun _ _ => rfl, h.leaveRows (Or.inr (Or.inr ⟨hmarks.2, rfl⟩)), h.asks.star⟩

theorem meet (h : p.Asking c) (hmeet : p.meet lowered d = .ok p') : p'.Asking c := by
  cases d with
  | condition joins e =>
    have hkind : (Demand.condition joins e).part.kind ≠ .ordering := by cases joins <;> rintro ⟨⟩
    exact h.filter hkind (by cases joins <;> rfl) hmeet
  | order term => cases hmeet; exact h.order term lowered
  | limit count => cases hmeet; exact h.take count lowered
  | skip count => cases hmeet; exact h.skip count lowered

end Asking

end Progress

/-! ## The selector -/

theorem Read.addItem_star {r : Read} (h : r.star = false) (e : Expr) (resetStar : Bool) :
    (r.addItem e resetStar).2.star = false := by
  rcases r.addItem_cases e resetStar with ⟨i, -, heq⟩ | ⟨-, heq⟩
  · rw [heq]
    exact h
  · rw [heq]
    simp only [h, Bool.false_and]

theorem Read.nameMember_star {r : Read} (h : r.star = false) (key : MemberName) (e : Expr) :
    (r.nameMember key e).2.star = false := by
  change (r.nameUniquely e (some key.name)).2.star = false
  rcases r.nameUniquely_cases e (some key.name) with hsame | ⟨_, _, _, _, -, -, hread, -⟩
  · rw [hsame]
    exact h
  · rw [hread]
    exact h

namespace Compiler

variable {c : Compiler} {sources : SourceTable} {p p' : Progress} {limited : Bool}

theorem leaveEntity_asks (h : p.Asks c limited) {kind : PartKind} {e : Expr} (hkind : kind.isProjection = true)
    (halone : c.asksAlone ⟨kind, e⟩ = true) : (p.leaveEntity kind e).Asks c limited := by
  refine ⟨?_, h.star⟩
  change true = c.asksForEntity limited (p.clientParts ++ [⟨kind, e⟩])
  rw [asksForEntity_projection limited _ hkind, halone, Bool.or_true]

theorem selectMember_asks (h : p.Asks c limited) (typeName : String) (m : String × Expr) :
    (c.selectMember sources typeName p m).Asks c limited := by
  unfold selectMember
  split
  · rename_i hconstant
    refine ⟨?_, h.star⟩
    have halone : c.asksAlone ⟨.projectionMember m.1, m.2⟩ = false := by
      rw [Bool.and_eq_true, Bool.not_eq_true'] at hconstant
      simp [asksAlone, hconstant]
    change p.needsEntity = c.asksForEntity limited (p.clientParts ++ [⟨.projectionMember m.1, m.2⟩])
    rw [asksForEntity_projection limited _ rfl, halone, Bool.or_false]
    exact h.needsEntity
  · rename_i hconstant
    split
    · exact ⟨h.needsEntity, Read.nameMember_star (Read.addItem_star h.star _ _) _ _⟩
    · refine leaveEntity_asks h rfl ?_
      cases hexpr : m.2.isConstant with
      | false => simp [asksAlone, hexpr]
      | true =>
        have hproject : c.settings.binding.projectConstants = true := by simpa [hexpr] using hconstant
        simp [asksAlone, hproject]

theorem select_asks (h : p.Asks c limited) {selector : Expr} (hselect : c.select sources p selector = .ok p') :
    p'.Asks c limited := by
  unfold select at hselect
  split at hselect
  · split at hselect
    · cases hselect
    · split at hselect
      · cases hselect
        exact leaveEntity_asks h rfl rfl
      · cases hselect
        refine ⟨h.needsEntity, ?_⟩
        refine List.foldlRecOn (motive := fun r : Read => r.star = false) _ _ h.star fun r hr property _ => ?_
        unfold returnProperty
        split
        · exact Read.addItem_star hr _ _
        · exact hr
  · cases hselect
    exact List.foldlRecOn (motive := Progress.Asks c limited) _ _ h fun p hp m _ => selectMember_asks hp _ m
  · split at hselect
    · cases hselect
      exact ⟨h.needsEntity, Read.addItem_star h.star _ _⟩
    · cases hselect
      exact leaveEntity_asks h rfl rfl

/-! ## Compiled queries -/

variable {q : Query} {l : Layout} {compiled : CompiledQuery}

theorem returnEntity_star {main : SourceId} {read : Read} (hstar : p.read.star = false)
    (h : returnEntity main p = .ok read) :
    read.star = p.needsEntity ∧ (read.star = true → read.returnedNode? = p.read.nodeOf? main) := by
  unfold returnEntity at h
  split at h
  · rename_i hneeds
    split at h
    · rename_i node hnode
      cases h
      exact ⟨hneeds.symm, fun _ => hnode.symm⟩
    · cases h
  · rename_i hneeds
    cases h
    refine ⟨by simpa [hstar] using hneeds, fun htrue => ?_⟩
    rw [hstar] at htrue
    cases htrue

/-- The first source with a number decides about the node that is found by it. -/
theorem nodeOf_source {schema : Schema} {aliasPrefix : String} {r : Read} {id : SourceId} {source : Source}
    (hl : Layout.ofQuery schema aliasPrefix q = .ok l)
    (hr : r.clauses.map ReadingClause.outline = l.read.clauses.map ReadingClause.outline)
    (hsource : q.sources.find? (fun s => s.id == id) = some source) :
    ∃ entity, schema.entityOf? source.itemType = some entity ∧
      r.nodeOf? id = some ⟨some source.itemName, entity.labels⟩ := by
  have hplaces := Layout.ofQuery_places hl
  obtain ⟨node, hnode⟩ := hplaces.nodes source (List.mem_of_find?_eq_some hsource)
  obtain ⟨entity, hentity, rfl⟩ := Layout.nodeOf_entity hnode
  refine ⟨entity, hentity, ?_⟩
  have hfind : (q.sources.map fun s => (some s.id, (schema.nodeOf s).toOption)).find? (fun o => o.1 == some id) =
      some (some source.id, (schema.nodeOf source).toOption) := by
    rw [List.find?_map]
    exact congrArg (Option.map _) hsource
  rw [Read.nodeOf_eq_outline, hr, hplaces.outlines, hfind, hnode]
  rfl

/-- The main source comes first, so its node is found by its number, whatever the other sources are. -/
theorem nodeOf_main {schema : Schema} {aliasPrefix : String} {r : Read}
    (hl : Layout.ofQuery schema aliasPrefix q = .ok l)
    (hr : r.clauses.map ReadingClause.outline = l.read.clauses.map ReadingClause.outline) :
    ∃ entity, schema.entityOf? q.main.itemType = some entity ∧
      r.nodeOf? q.main.id = some ⟨some q.main.itemName, entity.labels⟩ :=
  nodeOf_source hl hr (List.find?_cons_of_pos (beq_self_eq_true q.main.id))

/-- The read of a compiled query returns all properties of a node exactly when the client parts ask for whole entities.
That node is named after the main source and labelled like its entity. -/
theorem compile_returnsEntity (h : c.compile q = .ok compiled) :
    ∃ plan read entity, c.plan q = .ok plan ∧ c.finish plan.read = .ok read ∧ (c.passes = [] → read = plan.read) ∧
      c.generator.render read = .ok ⟨compiled.text, compiled.parameters⟩ ∧
      c.schema.entityOf? q.main.itemType = some entity ∧
      plan.read.star = c.asksForEntity plan.read.limit.isSome compiled.clientParts ∧
      (plan.read.star = true → plan.read.returnedNode? = some ⟨some q.main.itemName, entity.labels⟩) := by
  obtain ⟨plan, read, hplan, hfinish, hrender, hclient⟩ := compile_stages h
  obtain ⟨l, p, selected, hl, hp, hselected, hreturned, hparts⟩ := plan_stages hplan
  have hwf := Layout.ofQuery_wf hl
  have hstart : Progress.Asking c { read := l.read } := by
    refine ⟨⟨by rw [hwf.read]; rfl, by simp⟩, ?_, rfl, by rw [hwf.read]; rfl⟩
    intro _ hrows
    cases hrows
  have hasking : p.Asking c :=
    Run.foldlM_keeps (Progress.Asking c) (fun _ _ _ _ hp hmeet => hp.meet hmeet) hstart (meet_all_demands hp)
  have hasks := select_asks hasking.asks hselected
  obtain ⟨hstar, hnode⟩ := returnEntity_star hasks.star hreturned
  have hrows := select_selected hselected
  have hresolves : l.read.Resolves p.read :=
    Run.foldlM_keeps (fun p : Progress => l.read.Resolves p.read) (fun _ _ _ _ h hbind => bindClause_resolves h hbind)
      (.refl l.read) hp
  have houtlines : selected.read.clauses.map ReadingClause.outline = l.read.clauses.map ReadingClause.outline := by
    rw [hrows.read.clauses, hresolves.outlines]
  obtain ⟨entity, hentity, hmain⟩ := nodeOf_main hl houtlines
  refine ⟨plan, read, entity, hplan, hfinish, fun hpasses => finish_no_passes hpasses hfinish, hrender, hentity, ?_,
    fun htrue => (hnode htrue).trans hmain⟩
  have hlimit := (hrows.read.trans (returnEntity_sameRows hreturned)).limit
  rw [hstar, hasks.needsEntity, hasking.marked.limited, hlimit, hclient, hparts]

/-- The first three warehouses in the order of their sizes, and what follows; only their numbers are selected. -/
def warehouseIds (clauses : List QueryClause) : Query :=
  let warehouse : Source := ⟨⟨0⟩, "w", .entitySet "Warehouse"⟩
  { main := warehouse
    clauses := .take (rowCount 3) :: .orderBy [⟨warehouseSize, false⟩] :: clauses
    selector := warehouse.member "Id" .int64 }

/-- A condition behind the limit asks for the warehouse. -/
theorem compile_returnsEntity_of_condition :
    ∃ compiled plan, storeCompiler.compile (warehouseIds [.skip (rowCount 1), .filter (sizeIs 2)]) = .ok compiled ∧
      compiled.clientParts = [⟨.ordering, warehouseSize⟩, ⟨.skip, rowCount 1⟩, ⟨.predicate, sizeIs 2⟩] ∧
      storeCompiler.plan (warehouseIds [.skip (rowCount 1), .filter (sizeIs 2)]) = .ok plan ∧ plan.read.star = true ∧
      plan.read.returnedNode? = some ⟨some "w", ["Warehouse"]⟩ := by
  have hcompiled : ∃ compiled,
      storeCompiler.compile (warehouseIds [.skip (rowCount 1), .filter (sizeIs 2)]) = .ok compiled ∧
      compiled.clientParts = [⟨.ordering, warehouseSize⟩, ⟨.skip, rowCount 1⟩, ⟨.predicate, sizeIs 2⟩] := ⟨_, rfl, rfl⟩
  obtain ⟨compiled, hcompiled, hparts⟩ := hcompiled
  obtain ⟨plan, -, entity, hplan, -, -, -, hentity, hstar, hnode⟩ := compile_returnsEntity hcompiled
  have htrue : plan.read.star = true := by
    rw [hstar, hparts]
    rfl
  cases hentity
  exact ⟨compiled, plan, hcompiled, hparts, hplan, htrue, hnode htrue⟩

/-- An ordering behind a limit of the server is the client's, but what it orders by is not returned. -/
theorem ordering_without_entity :
    ∃ compiled plan, storeCompiler.compile (warehouseIds []) = .ok compiled ∧
      compiled.clientParts = [⟨.ordering, warehouseSize⟩] ∧
      compiled.text = "MATCH (w:Warehouse) RETURN \"w\".\"Id\" LIMIT 3" ∧
      storeCompiler.plan (warehouseIds []) = .ok plan ∧ plan.read.star = false :=
  ⟨_, _, rfl, rfl, by decide +kernel, rfl, rfl⟩

end Compiler

end GraphQuery
