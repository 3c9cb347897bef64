import GraphQuery.Proofs.Binding
import GraphQuery.Proofs.OutputNames
import GraphQuery.Proofs.WrittenExprs

/-!
# Reads of expressions for the server

A read is for the server when all its expressions are, its patterns have aliases at both ends, its explicit output
names differ and the node whose properties it returns has an alias. Such a read is well formed (`Read.IsServer.check`),
and only a name that is no identifier or a tuple keeps it from being written (`Generator.render_fails`). Every change
that a plan makes to a read keeps it for the server.
-/

namespace GraphQuery

variable {tuples : Bool}

/-- A pattern with aliases at both ends and a condition for the server. -/
def ReadingClause.IsServer (tuples : Bool) : ReadingClause → Prop
  | .pattern m => m.pattern.IsNamed ∧ ∀ e ∈ m.predicate, e.IsServer tuples
  | .nested _ _ => False

/-- A read of expressions for the server. -/
structure Read.IsServer (tuples : Bool) (r : Read) : Prop where
  clauses : ∀ c ∈ r.clauses, c.IsServer tuples
  items : ∀ e ∈ r.items, e.unaliased.IsServer tuples
  names : r.explicitNames.Nodup
  orderings : ∀ term ∈ r.orderings, term.expr.IsServer tuples
  limit : ∀ e ∈ r.limit, e.IsServer tuples
  skip : ∀ e ∈ r.skip, e.IsServer tuples
  projections : ∀ {key e}, Table.find? key r.projections = some e → e.IsServer tuples
  starNode : ∀ node ∈ r.starNode, node.name.isSome = true
  star : r.star = true → r.starNode.isSome = true

/-! ## Nodes -/

namespace Read.IsServer

variable {r r' : Read}

theorem node_named {c : ReadingClause} {node : Node} (hc : c.IsServer tuples) (h : c.node? = some node) :
    node.name.isSome = true := by
  cases c with
  | pattern m => cases h; exact hc.1.2
  | nested _ _ => exact hc.elim

theorem returnedNode_named (hr : r.IsServer tuples) {node : Node} (h : r.returnedNode? = some node) :
    node.name.isSome = true := by
  unfold returnedNode? at h
  split at h
  · rename_i found hfound
    cases h
    exact hr.starNode _ hfound
  · split at h
    · rename_i c hc
      exact node_named (hr.clauses c (hc ▸ List.mem_singleton_self c)) h
    · cases h

/-- The node of a source has an alias. -/
theorem nodeOf_named (hr : r.IsServer tuples) {source : SourceId} {node : Node} (h : r.nodeOf? source = some node) :
    node.name.isSome = true := by
  unfold nodeOf? at h
  split at h
  · rename_i c hc
    exact node_named (hr.clauses c (List.mem_of_find?_eq_some hc)) h
  · exact hr.returnedNode_named h

/-- A stored property of the items of a source is for the server. -/
theorem storedProperty (hr : r.IsServer tuples) {declared : DeclaredProperty} {source : SourceId} {e : Expr}
    (h : r.storedProperty? declared source = some e) : e.IsServer tuples := by
  unfold storedProperty? at h
  obtain ⟨node, hnode, rfl⟩ := Option.map_eq_some_iff.1 h
  exact Expr.allNodes_storage.2 (hr.nodeOf_named hnode)

/-! ## Well-formedness -/

theorem checkClauses (clauses : List ReadingClause) (h : ∀ c ∈ clauses, c.IsServer tuples) :
    ∀ index, Read.checkClauses index clauses = .ok () := by
  induction clauses with
  | nil => intro index; rw [Read.checkClauses]
  | cons c clauses ih =>
    intro index
    have hc := h c List.mem_cons_self
    cases c with
    | nested _ _ => exact hc.elim
    | pattern m =>
      have hvacuous : m.pattern.isVacuous = false := by
        obtain ⟨name, hname⟩ := Option.isSome_iff_exists.1 hc.1.1
        simp [Pattern.isVacuous, hname]
      have hstored : Expr.checkStoredAll m.predicate.toList = .ok () :=
        Expr.checkStoredAll_server _ fun e he => hc.2 e (Option.mem_toList.1 he)
      rw [Read.checkClauses, hvacuous, hstored]
      exact ih (fun x hx => h x (List.mem_cons_of_mem _ hx)) (index + 1)

theorem checkStored_item {e : Expr} (h : e.unaliased.IsServer tuples) : e.checkStored = .ok () := by
  cases e with
  | aliased name inner =>
    rw [Expr.checkStored]
    exact Expr.checkStored_server inner h
  | _ => exact Expr.checkStored_server _ h

/-- Items with different explicit names pass the check, when no name is taken already. -/
theorem checkItems (items : List Expr) (hitems : ∀ e ∈ items, e.unaliased.IsServer tuples) :
    ∀ taken, (items.filterMap Expr.explicitName?).Nodup →
      (∀ name ∈ items.filterMap Expr.explicitName?, name ∉ taken) → Read.checkItems taken items = .ok () := by
  induction items with
  | nil => intro taken _ _; rw [Read.checkItems]
  | cons e items ih =>
    intro taken hnodup hfree
    have hstored := checkStored_item (hitems e List.mem_cons_self)
    have hrest : ∀ x ∈ items, x.unaliased.IsServer tuples := fun x hx => hitems x (List.mem_cons_of_mem e hx)
    cases hname : e.explicitName? with
    | none =>
      simp only [List.filterMap_cons, hname] at hnodup hfree
      simp only [Read.checkItems, hname, hstored]
      exact ih hrest taken hnodup hfree
    | some name =>
      simp only [List.filterMap_cons, hname, List.nodup_cons, List.mem_cons, forall_eq_or_imp] at hnodup hfree
      simp only [Read.checkItems, hname, hstored, hfree.1, ↓reduceIte]
      refine ih hrest (name :: taken) hnodup.2 fun x hx hmem => ?_
      rcases List.mem_cons.1 hmem with rfl | hmem
      · exact hnodup.1 hx
      · exact hfree.2 x hx hmem

/-- A read for the server is well formed. -/
theorem check (hr : r.IsServer tuples) : r.check = .ok () := by
  have horderings : ∀ e ∈ r.orderings.map SortTerm.expr, e.IsServer tuples := by
    intro e he
    obtain ⟨term, hterm, rfl⟩ := List.mem_map.1 he
    exact hr.orderings term hterm
  rw [Read.check, checkClauses r.clauses hr.clauses 0,
    checkItems r.items hr.items [] hr.names fun _ _ hmem => nomatch hmem]
  exact Expr.checkStoredAll_server _ horderings

/-! ## Changes to a read -/

theorem addSortTerm (hr : r.IsServer tuples) {term : SortTerm} (h : term.expr.IsServer tuples) :
    (r.addSortTerm term).IsServer tuples := by
  refine { hr with orderings := fun t ht => ?_ }
  rcases List.mem_append.1 ht with ht | ht
  · exact hr.orderings t ht
  · rw [List.mem_singleton.1 ht]; exact h

theorem withLimit (hr : r.IsServer tuples) {e : Expr} (h : e.IsServer tuples) :
    Read.IsServer tuples { r with limit := some e } := by
  refine { hr with limit := fun x hx => ?_ }
  cases hx
  exact h

theorem withSkip (hr : r.IsServer tuples) {e : Expr} (h : e.IsServer tuples) :
    Read.IsServer tuples { r with skip := some e } := by
  refine { hr with skip := fun x hx => ?_ }
  cases hx
  exact h

theorem withStar (hr : r.IsServer tuples) {node : Node} (h : node.name.isSome = true) :
    Read.IsServer tuples { r with starNode := some node, star := true } := by
  refine { hr with starNode := fun x hx => ?_, star := fun _ => rfl }
  cases hx
  exact h

theorem restrictMatch {condition : Expr} {m : PatternMatch} (h : condition.IsServer tuples)
    (hm : (ReadingClause.pattern m).IsServer tuples) :
    (ReadingClause.pattern (m.restrict condition)).IsServer tuples := by
  refine ⟨hm.1, fun e he => ?_⟩
  -- The condition stands alone or behind the one that was there.
  cases hp : m.predicate with
  | none =>
    simp only [PatternMatch.restrict, hp, Option.mem_def, Option.some.injEq] at he
    exact he ▸ h
  | some existing =>
    simp only [PatternMatch.restrict, hp, Option.mem_def, Option.some.injEq] at he
    exact he ▸ (Vocabulary.server tuples).plain (hm.2 existing hp) h

theorem restrict (hr : r.IsServer tuples) {condition : Expr} (h : condition.IsServer tuples)
    (hrestrict : r.restrict? condition = some r') : r'.IsServer tuples := by
  obtain ⟨changed, hchanged, rfl⟩ := Option.map_eq_some_iff.1 hrestrict
  obtain ⟨before, m, after, hclauses, rfl⟩ := restrictLast_cases hchanged
  have hserver := hr.clauses
  simp only [hclauses, List.forall_mem_append, List.forall_mem_cons] at hserver
  refine { hr with clauses := ?_ }
  simp only [List.forall_mem_append, List.forall_mem_cons]
  exact ⟨hserver.1, restrictMatch h hserver.2.1, hserver.2.2⟩

theorem withoutWidening {e : Expr} (h : e.IsServer tuples) : e.withoutWidening.IsServer tuples := by
  unfold Expr.withoutWidening
  split
  · split
    · exact (Expr.allNodes_convert.1 h).2
    · exact h
  · exact h

theorem unaliased {e : Expr} (h : e.IsServer tuples) : e.unaliased.IsServer tuples := by
  cases e with
  | aliased _ _ => exact (Expr.AllNodes.self h).elim
  | _ => exact h

theorem addItem (hr : r.IsServer tuples) {e : Expr} (h : e.IsServer tuples) (resetStar : Bool) :
    (r.addItem e resetStar).2.IsServer tuples := by
  have he := withoutWidening h
  unfold Read.addItem
  simp only
  split
  · exact hr
  · refine { hr with items := fun x hx => ?_, names := ?_, star := fun hstar => hr.star ?_ }
    · rcases List.mem_append.1 hx with hx | hx
      · exact hr.items x hx
      · rw [List.mem_singleton.1 hx]; exact unaliased he
    · simpa [explicitNames, he.explicitName] using hr.names
    · simp only [Bool.and_eq_true] at hstar
      exact hstar.1

theorem nameUniquely (hr : r.IsServer tuples) {e : Expr} (h : e.unaliased.IsServer tuples) (hint : Option String) :
    (r.nameUniquely e hint).2.IsServer tuples ∧ (r.nameUniquely e hint).1.unaliased.IsServer tuples := by
  have hnamed : ∀ name, (e.withName name).unaliased.IsServer tuples := by
    intro name
    rcases e.withName_cases name with hname | hname
    · rw [hname]; exact h
    · rw [hname]; exact h
  have hnames := nameUniquely_nodup e hint hr.names
  unfold Read.nameUniquely at hnames ⊢
  split
  · rename_i index hidx
    rw [hidx] at hnames
    refine ⟨{ hr with items := fun x hx => ?_, names := hnames }, hnamed _⟩
    rcases List.mem_or_eq_of_mem_set hx with hx | rfl
    · exact hr.items x hx
    · exact hnamed _
  · exact ⟨hr, hnamed _⟩

theorem nameMember (hr : r.IsServer tuples) {e : Expr} (h : e.unaliased.IsServer tuples) (key : MemberName) :
    (r.nameMember key e).2.IsServer tuples := by
  obtain ⟨hread, hnamed⟩ := hr.nameUniquely h (some key.name)
  refine { hread with projections := fun {k x} hfind => ?_ }
  by_cases hk : k = key
  · subst hk
    simp only [Read.nameMember, Table.find?_insert_self, Option.some.injEq] at hfind
    exact hfind ▸ hnamed
  · simp only [Read.nameMember, Table.find?_insert_of_ne _ _ hk] at hfind
    exact hread.projections hfind

end Read.IsServer

/-! ## Rendering -/

namespace Generator

variable {g : Generator} {r : Read}

theorem star_server {Q : RenderError → Prop} (hr : r.IsServer tuples) : Run.FailsOnly Q (g.star r) := by
  unfold star
  split
  · rename_i hstar
    obtain ⟨node, hnode⟩ := Option.isSome_iff_exists.1 (hr.star hstar)
    obtain ⟨name, hname⟩ := Option.isSome_iff_exists.1 (hr.starNode node hnode)
    have hfound : r.returnedNode?.bind Node.name = some name := by
      rw [Read.returnedNode?, hnode]
      exact hname
    simp only [hfound]
    exact .ok _
  · exact .ok _

/-- With the standard styles a read for the server fails at a name that is no identifier or at a tuple. -/
theorem render_fails (hg : g.styles = .standard) (hr : r.IsServer tuples) :
    Run.FailsOnly (RenderError.Remains tuples) (g.render r) := by
  have hitem : ∀ e ∈ r.items, Run.FailsOnly (RenderError.Remains tuples) (g.expr none e) := by
    intro e he
    have hinner := hr.items e he
    cases e with
    | aliased name inner => exact (expr_fails hg none inner hinner).bind fun _ _ => .pure _
    | _ => exact expr_fails hg none _ hinner
  have hwritten : ∀ e ∈ r.written, Run.FailsOnly (RenderError.Remains tuples) (g.expr none e) :=
    Read.forall_written.2 ⟨fun m hm e he => expr_fails hg none e ((hr.clauses _ hm).2 e he), hitem,
      fun term hterm => expr_fails hg none _ (hr.orderings term hterm), fun e he => expr_fails hg none e (hr.skip e he),
      fun e he => expr_fails hg none e (hr.limit e he)⟩
  have hread : g.Writes (RenderError.Remains tuples) r.written (g.read r) :=
    read_writes (fun _ => trivial) (fun source r' hc => (hr.clauses _ hc).elim) (star_server hr)
  exact (hread.fails hwritten).bind fun _ _ => .pure _

end Generator

end GraphQuery
