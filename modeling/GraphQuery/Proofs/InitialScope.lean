import GraphQuery.Proofs.CompileErrors

/-!
# Lowering in the scope of a layout

Before anything is selected, the only read of a query holds the patterns of its sources and nothing else. Every member
that is bound in it is then a stored property, and a reference to a joined item is one such property or the tuple of
several. Front-end expressions are lowered to expressions for the server.
-/

namespace GraphQuery

/-- An expression as a front end may write it. -/
def Expr.IsFrontEnd (e : Expr) : Prop :=
  e.AllNodes fun n => n.isFrontEnd = true

/-- Whether the items of a type are identified by several properties. -/
def Schema.hasTupleKey (schema : Schema) (type : ValueType) : Bool :=
  (schema.entityOf? type).any fun entity => 1 < entity.primaryKey.length

namespace Scope

/-- The scope of a query that is laid out, without an enclosing query. -/
structure IsInitial (s : Scope) (q : Query) : Prop where
  layout : ∃ aliasPrefix, Workspace.ofQuery s.schema aliasPrefix q = .ok s.workspace
  outer : s.outer = .absent

namespace IsInitial

variable {s : Scope} {q : Query} (hs : s.IsInitial q) {mode : Mode} {e t : Expr}

include hs

theorem read {id : ReadId} {r : Read} (h : s.workspace.read? id = some r) (tuples : Bool) :
    r.IsServer tuples ∧ r.projections = [] := by
  obtain ⟨aliasPrefix, hlayout⟩ := hs.layout
  obtain ⟨l, hl, hworkspace⟩ := Run.bind_eq_ok.1 hlayout
  rw [Run.pure_eq_ok] at hworkspace
  rw [← hworkspace] at h
  have hwf := Layout.ofQuery_wf hl
  cases List.mem_singleton.1 (List.mem_of_getElem? h)
  exact ⟨Compiler.layout_server hwf tuples, by rw [hwf.read]; rfl⟩

/-- A bound member is a stored property. -/
theorem lowerMember {target : Expr} {m : Member} (h : (s.lowerMember target m).result = some t) :
    ∃ p, t = .storage p := by
  unfold Scope.lowerMember at h
  split at h
  · rename_i read bound hstored
    cases h
    obtain ⟨source, declared, r, -, -, hbound⟩ := storedMember?_eq_some hstored
    obtain ⟨node, -, rfl⟩ := Option.map_eq_some_iff.1 hbound
    exact ⟨_, rfl⟩
  · simp only [Outcome.ofOption, Option.or_eq_some_iff] at h
    rcases h with h | ⟨-, h⟩
    · obtain ⟨read, r, hr, hitem⟩ := projectedMember?_eq_some h
      rw [Read.memberItem?, (hs.read hr true).2] at hitem
      cases hitem
    · rw [hs.outer] at h
      cases h

/-- A reference to a joined item is a stored property, or the tuple of several. -/
theorem lowerSource {id : SourceId} {type : ValueType} (h : (s.lowerSource mode id type).result = some t) :
    (s.schema.hasTupleKey type = false ∧ ∃ p, t = .storage p) ∨
      (s.schema.hasTupleKey type = true ∧ ∃ items, t = .sequence items ∧ ∀ x ∈ items, ∃ p, x = .storage p) := by
  unfold Scope.lowerSource at h
  split at h
  · split at h
    · cases h
    · rename_i entity hentity
      rw [Schema.hasTupleKey, hentity, Option.any_some]
      simp only at h
      split at h
      · cases h
      · rename_i key hkey
        exact .inl ⟨by rw [hkey]; rfl, hs.lowerMember h⟩
      · rename_i keys hnone hone
        simp only [Outcome.result_bind, Option.bind_eq_some_iff] at h
        obtain ⟨items, hitems, h⟩ := h
        cases h
        refine .inr ⟨?_, items, rfl, traverse_mem (fun _ _ hx => hs.lowerMember hx) hitems⟩
        rcases hkeys : entity.primaryKey with _ | ⟨first, _ | ⟨second, rest⟩⟩
        · exact (hnone hkeys).elim
        · exact (hone first hkeys).elim
        · simp
  · cases h

theorem within (tuples : Bool) : s.Within (Expr.IsServerNode tuples) :=
  .of_reads hs.outer (fun hr h => (hs.read hr tuples).1.storedProperty h) fun hr h => (hs.read hr tuples).1.projections h

/-- A front-end expression is lowered to one for the server. -/
theorem lower_server (he : e.IsFrontEnd) (h : (s.lower mode e).result = some t) : t.IsServer true :=
  lower_allNodes (Vocabulary.server true) (hs.within true) mode e
    (Expr.AllNodes.imp he fun _ hn => Compiler.scope_admits_of_frontEnd (fun _ => rfl) hn) h

end IsInitial

/-! ## The scope of warehouses -/

def warehouses : Source :=
  ⟨⟨0⟩, "w", .entitySet "Warehouse"⟩

def warehouseScope : Scope where
  workspace :=
    (Workspace.ofQuery Compiler.storeSchema Read.defaultAliasPrefix (.ofSource warehouses)).toOption.getD {}
  schema := Compiler.storeSchema

theorem warehouseScope_isInitial : warehouseScope.IsInitial (.ofSource warehouses) :=
  ⟨⟨Read.defaultAliasPrefix, rfl⟩, rfl⟩

end Scope

end GraphQuery
