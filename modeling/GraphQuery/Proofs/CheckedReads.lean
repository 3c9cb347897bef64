import GraphQuery.Proofs.ServerRead

/-!
# The text of checked reads

The check of a read looks for stored properties of nodes without an alias where the text would need the alias: in
conditions, return items and orderings. A checked read is therefore never refused for such a node by what stands in
front of its skip and its limit (`Generator.unpaged_aliased`).

The check does not look at the skip and the limit, and these are written as well. `Generator.render_checked` says what
follows: a checked read fails for want of an alias exactly when all of it can be written up to one of these two counts,
and that count cannot.
-/

namespace GraphQuery

/-! ## What the check looks at -/

namespace Expr

variable {e l r : Expr} {op : Operator} {d : OperatorDetail}

theorem checkStored_binary (h : (Expr.binary op l r d).checkStored = .ok ()) :
    l.checkStored = .ok () ∧ r.checkStored = .ok () := by
  rw [checkStored] at h
  obtain ⟨⟨⟩, hl, hr⟩ := Run.bind_eq_ok.1 h
  exact ⟨hl, hr⟩

theorem checkStored_conditional {c a b : Expr} {t : ValueType} (h : (Expr.conditional c a b t).checkStored = .ok ()) :
    c.checkStored = .ok () ∧ a.checkStored = .ok () ∧ b.checkStored = .ok () := by
  rw [checkStored] at h
  obtain ⟨⟨⟩, hc, h⟩ := Run.bind_eq_ok.1 h
  obtain ⟨⟨⟩, ha, hb⟩ := Run.bind_eq_ok.1 h
  exact ⟨hc, ha, hb⟩

theorem checkStoredAll_eq_ok : ∀ {es : List Expr}, checkStoredAll es = .ok () → ∀ e ∈ es, e.checkStored = .ok () := by
  intro es
  induction es with
  | nil => intro _ e he; cases he
  | cons e es ih =>
    intro h
    rw [checkStoredAll] at h
    obtain ⟨⟨⟩, hfirst, hrest⟩ := Run.bind_eq_ok.1 h
    exact List.forall_mem_cons.2 ⟨hfirst, ih hrest⟩

end Expr

namespace Read

theorem checkClauses_eq_ok : ∀ {clauses : List ReadingClause} {index : Nat}, checkClauses index clauses = .ok () →
    ∀ m, .pattern m ∈ clauses → ∀ e ∈ m.predicate, e.checkStored = .ok () := by
  intro clauses
  induction clauses with
  | nil => intro index _ m hm; cases hm
  | cons c clauses ih =>
    intro index h m hm
    cases c with
    | nested source read =>
      rw [checkClauses] at h
      rcases List.mem_cons.1 hm with hm | hm
      · cases hm
      · exact ih h m hm
    | pattern first =>
      rw [checkClauses] at h
      split at h
      · cases h
      · obtain ⟨⟨⟩, hfirst, hrest⟩ := Run.bind_eq_ok.1 h
        rcases List.mem_cons.1 hm with hm | hm
        · cases hm
          exact fun e he => Expr.checkStoredAll_eq_ok hfirst e (Option.mem_toList.2 he)
        · exact ih hrest m hm

theorem checkItems_eq_ok : ∀ {items : List Expr} {taken : List String}, checkItems taken items = .ok () →
    ∀ e ∈ items, e.checkStored = .ok () := by
  intro items
  induction items with
  | nil => intro taken _ e he; cases he
  | cons item items ih =>
    intro taken h
    rw [checkItems] at h
    split at h
    · simp only at h
      split at h
      · cases h
      · obtain ⟨⟨⟩, hitem, hrest⟩ := Run.bind_eq_ok.1 h
        exact List.forall_mem_cons.2 ⟨hitem, ih hrest⟩
    · obtain ⟨⟨⟩, hitem, hrest⟩ := Run.bind_eq_ok.1 h
      exact List.forall_mem_cons.2 ⟨hitem, ih hrest⟩

/-- The expressions that the check looks at. -/
structure Checked (r : Read) : Prop where
  conditions : ∀ m, .pattern m ∈ r.clauses → ∀ e ∈ m.predicate, e.checkStored = .ok ()
  items : ∀ e ∈ r.items, e.checkStored = .ok ()
  orderings : ∀ term ∈ r.orderings, term.expr.checkStored = .ok ()

theorem checked_of_check {r : Read} (h : r.check = .ok ()) : r.Checked := by
  obtain ⟨⟨⟩, hclauses, h⟩ := Run.bind_eq_ok.1 h
  obtain ⟨⟨⟩, hitems, horderings⟩ := Run.bind_eq_ok.1 h
  exact ⟨checkClauses_eq_ok hclauses, checkItems_eq_ok hitems, fun term hterm =>
    Expr.checkStoredAll_eq_ok horderings term.expr (List.mem_map_of_mem hterm)⟩

/-- A read without its skip and its limit. -/
def unpaged (r : Read) : Read :=
  { r with limit := none, skip := none }

/-- The counts of a read, in the order in which they are written. -/
def counts (r : Read) : List Expr :=
  r.skip.toList ++ r.limit.toList

end Read

/-! ## Aliases in the text -/

/-- An error for another reason than a node without an alias. -/
def RenderError.IsAliased : RenderError → Prop
  | .unaliasedNode _ => False
  | _ => True

namespace Generator

variable {g : Generator} {r : Read}

theorem constant_aliased (hint : Option LiteralStyle) (value : Value) (type : ValueType) :
    Run.FailsOnly RenderError.IsAliased (g.constant hint value type) := by
  unfold constant
  split
  · exact .ok _
  · simp only
    split
    · exact .ok _
    · split
      · exact .ok _
      · exact .error trivial

theorem parameter_aliased (name : String) : Run.FailsOnly RenderError.IsAliased (g.parameter name) := by
  unfold parameter
  split
  · exact .ok _
  · exact .error trivial

/-- A checked expression is not refused for want of an alias: what is written of it, the check has seen. -/
theorem expr_aliased (hint : Option LiteralStyle) (e : Expr) (he : e.checkStored = .ok ()) :
    Run.FailsOnly RenderError.IsAliased (g.expr hint e) := by
  fun_induction Generator.expr g hint e
  case case1 ihl ihr | case2 ihl ihr =>
    obtain ⟨hl, hr⟩ := Expr.checkStored_binary he
    exact (ihl hl).bind fun _ _ => (ihr hr).bind fun _ _ => .pure _
  case case3 ih => exact ih (Expr.checkStored_conditional he).1
  case case4 iht ihb iha =>
    obtain ⟨ht, ha, hb⟩ := Expr.checkStored_conditional he
    refine (iht ht).bind fun _ _ => ?_
    exact branch_fails (iha ha) fun _ => branch_fails (ihb hb) fun _ => .pure _
  case case5 => exact constant_aliased _ _ _
  case case6 => exact parameter_aliased _
  case case7 ih =>
    rw [Expr.checkStored] at he
    exact ih he
  case case8 ih | case10 ih =>
    rw [Expr.checkStored] at he
    exact (ih he).bind fun _ _ => .pure _
  case case9 ih =>
    rw [Expr.checkStored, Expr.checkStored] at he
    exact (ih he).bind fun _ _ => .pure _
  case case11 p =>
    rw [Expr.checkStored] at he
    unfold storage
    split
    · exact .ok _
    · rename_i hname
      rw [hname] at he
      cases he
  case case12 ih =>
    rw [Expr.checkStored] at he
    exact (ih he).bind fun _ _ => .pure _
  all_goals exact .error trivial

/-- Nothing in front of the skip and the limit keeps a checked read from being written for want of an alias. -/
theorem unpaged_aliased (h : r.check = .ok ()) : Run.FailsOnly RenderError.IsAliased (g.render r.unpaged) := by
  have hr := Read.checked_of_check h
  have hwritten : ∀ e ∈ r.unpaged.written, Run.FailsOnly RenderError.IsAliased (g.expr none e) :=
    Read.forall_written.2 ⟨fun m hm e he => expr_aliased none e (hr.conditions m hm e he),
      fun e he => expr_aliased none e (hr.items e he), fun term hterm => expr_aliased none _ (hr.orderings term hterm),
      fun _ he => (Option.not_mem_none _ he).elim, fun _ he => (Option.not_mem_none _ he).elim⟩
  have hread : g.Writes RenderError.IsAliased r.unpaged.written (g.read r.unpaged) :=
    read_writes (fun _ => trivial) (fun _ _ _ => trivial) (star_fails trivial _)
  exact (hread.fails hwritten).bind fun _ _ => .pure _

/-- The skip and the limit are written behind the rest. -/
theorem read_unpaged (g : Generator) (r : Read) :
    g.read r = g.read r.unpaged >>= fun front => g.option " SKIP " r.skip >>= fun skip =>
      g.option " LIMIT " r.limit >>= fun limit => pure (front ++ (skip ++ limit)) := by
  have hopening : g.opening r.unpaged = g.opening r := rfl
  have hreturned : g.returned r.unpaged = g.returned r := rfl
  simp only [read, hopening, hreturned, bind_assoc]
  refine bind_congr fun opening => bind_congr fun returned => bind_congr fun orderings => ?_
  show _ = g.option " SKIP " r.skip >>= _
  simp [Read.unpaged, option]

theorem option_cases (keyword : String) (e : Option Expr) :
    (∃ err, g.option keyword e = .error err ∧ e.toList.mapM (g.expr none) = .error err) ∨
      ∃ ps qs, g.option keyword e = .ok ps ∧ e.toList.mapM (g.expr none) = .ok qs := by
  cases e with
  | none => exact .inr ⟨[], [], rfl, rfl⟩
  | some x =>
    cases hx : g.expr none x with
    | error err => exact .inl ⟨err, by rw [option, hx]; rfl, by simp [hx]⟩
    | ok ps => exact .inr ⟨.text keyword :: ps, [ps], by rw [option, hx]; rfl, by simp [hx]⟩

theorem render_eq_error_iff {err : RenderError} :
    g.render r = .error err ↔ g.render r.unpaged = .error err ∨
      (∃ x, g.render r.unpaged = .ok x) ∧ r.counts.mapM (g.expr none) = .error err := by
  rw [render, render, read_unpaged, Read.counts, List.mapM_append]
  cases g.read r.unpaged with
  | error err => simp [bind, Except.bind]
  | ok front =>
    obtain ⟨e, hskip, hskip'⟩ | ⟨ps, qs, hskip, hskip'⟩ := g.option_cases " SKIP " r.skip
    · simp [hskip, hskip', bind, Except.bind, pure, Except.pure]
    · obtain ⟨e, hlimit, hlimit'⟩ | ⟨ps', qs', hlimit, hlimit'⟩ := g.option_cases " LIMIT " r.limit
      · simp [hskip, hskip', hlimit, hlimit', bind, Except.bind, pure, Except.pure]
      · simp [hskip, hskip', hlimit, hlimit', bind, Except.bind, pure, Except.pure]

/-- A checked read fails for want of an alias only at its skip or its limit, when all in front of them can be written. With
the skip and the limit checked as well, it never does. -/
theorem render_checked (g : Generator) {r : Read} (h : r.check = .ok ()) :
    (∀ property, g.render r = .error (.unaliasedNode property) ↔
      (∃ x, g.render r.unpaged = .ok x) ∧ r.counts.mapM (g.expr none) = .error (.unaliasedNode property)) ∧
    ((∀ e ∈ r.counts, e.checkStored = .ok ()) → ∀ property, g.render r ≠ .error (.unaliasedNode property)) := by
  have hiff : ∀ property, g.render r = .error (.unaliasedNode property) ↔
      (∃ x, g.render r.unpaged = .ok x) ∧ r.counts.mapM (g.expr none) = .error (.unaliasedNode property) := by
    intro property
    refine render_eq_error_iff.trans (or_iff_right fun hfront => ?_)
    exact unpaged_aliased h _ hfront
  refine ⟨hiff, fun hcounts property herror => ?_⟩
  have hfails : Run.FailsOnly RenderError.IsAliased (r.counts.mapM (g.expr none)) :=
    .mapM fun e he => expr_aliased none e (hcounts e he)
  exact hfails _ ((hiff property).1 herror).2

/-! ## Two reads -/

/-- A read of warehouses through a node without an alias, up to a limit. -/
def warehousesUpTo (limit : Expr) : Read :=
  { Read.empty Read.defaultAliasPrefix with
    clauses := [.pattern (.ofSource ⟨0⟩ ⟨⟨none, ["Warehouse"]⟩, []⟩)]
    limit := some limit }

theorem render_checked_of_number :
    (warehousesUpTo (.constant (.int32 10) .int32)).check = .ok () ∧
    ∀ property, ({} : Generator).render (warehousesUpTo (.constant (.int32 10) .int32)) ≠
      .error (.unaliasedNode property) := by
  have hcheck : (warehousesUpTo (.constant (.int32 10) .int32)).check = .ok () := rfl
  refine ⟨hcheck, (render_checked {} hcheck).2 fun e he => ?_⟩
  cases List.mem_singleton.1 he
  rfl

/-- A limit that is a property of the node without an alias passes the check, and cannot be written. -/
theorem unaliased_limit_passes :
    let size : Expr := .storage ⟨"Size", ⟨"Warehouse", { name := "Size", type := .int32 }⟩, ⟨none, ["Warehouse"]⟩⟩
    (warehousesUpTo size).check = .ok () ∧
      ({} : Generator).render (warehousesUpTo size) = .error (.unaliasedNode "Size") :=
  ⟨rfl, rfl⟩

end Generator

end GraphQuery
