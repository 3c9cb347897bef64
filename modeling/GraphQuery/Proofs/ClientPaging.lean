import GraphQuery.Proofs.Demands

/-!
# Behind client parts

When a demand on rows is left to the client, the client decides about rows, and the orderings, the skip and the limit of
the read are final. There is one exception. An ordering behind a limit of the server is left to the client without that
consequence, so limits that follow still take the place of the server's, until a demand other than an ordering is left
to the client (`Compiler.plan_behind_client_parts`).
-/

namespace GraphQuery

/-- Two reads with the same orderings, skip and limit. -/
structure Read.SamePaging (r r' : Read) : Prop where
  orderings : r'.orderings = r.orderings
  skip : r'.skip = r.skip
  limit : r'.limit = r.limit

namespace Read.SamePaging

variable {r r' r'' : Read}

theorem refl (r : Read) : r.SamePaging r :=
  ⟨rfl, rfl, rfl⟩

theorem trans (h : r.SamePaging r') (h' : r'.SamePaging r'') : r.SamePaging r'' :=
  ⟨h'.orderings.trans h.orderings, h'.skip.trans h.skip, h'.limit.trans h.limit⟩

theorem ofEq (h : r' = r) : r.SamePaging r' :=
  h ▸ refl r

theorem restrict {e : Expr} (h : r.restrict? e = some r') : r.SamePaging r' := by
  obtain ⟨changed, -, rfl⟩ := Option.map_eq_some_iff.1 h
  exact ⟨rfl, rfl, rfl⟩

end Read.SamePaging

/-- What becomes of the limit of the server behind some demands, as long as nothing but orderings is left to the client:
the next limit takes its place. -/
def Demand.limitBehind (translation : Expr → Option Expr) (current : Option Expr) : List Demand → Option Expr
  | .order _ :: ds => limitBehind translation current ds
  | .limit count :: ds =>
    match translation count with
    | some e => limitBehind translation (some e) ds
    | none => current
  | _ => current

/-! ## What the marks of a plan in progress say -/

namespace Progress

variable {p p' : Progress} {d : Demand} {lowered : Option Expr} {part : ClientPart}

/-- The server limits the rows when the read has a limit. The client does not decide about rows as long as it has no
parts, or only orderings behind that limit. -/
structure Marked (p : Progress) : Prop where
  limited : p.limited = p.read.limit.isSome
  clientRows : p.clientRows = false ↔
    p.clientParts = [] ∨ (p.limited = true ∧ ∀ part ∈ p.clientParts, part.kind = .ordering)

namespace Marked

theorem leaves (h : p.Marked) (hp : p.Leaves part p') (hkind : part.kind ≠ .ordering) : p'.Marked := by
  refine ⟨?_, ?_⟩
  · rw [hp.limited, hp.read]
    exact h.limited
  · rw [hp.clientRows, hp.parts]
    constructor
    · intro hfalse
      cases hfalse
    · rintro (hnil | ⟨-, hall⟩)
      · simp at hnil
      · exact absurd (hall part (by simp)) hkind

theorem filter {kind : PartKind} {e : Expr} (h : p.Marked) (hkind : kind ≠ .ordering)
    (hp : p.filter kind e lowered = .ok p') : p'.Marked := by
  obtain ⟨-, rfl⟩ | ⟨condition, read, -, -, hread, rfl⟩ := filter_cases hp
  · have hleaves : p.Leaves ⟨kind, e⟩ (p.leaveRows kind e) := ⟨rfl, rfl, rfl, rfl⟩
    exact h.leaves hleaves hkind
  · refine ⟨?_, h.clientRows⟩
    rw [(Read.SamePaging.restrict hread).limit]
    exact h.limited

theorem order (h : p.Marked) (term : SortTerm) (lowered : Option Expr) : (p.order term lowered).Marked := by
  obtain ⟨hmarks, hp⟩ | ⟨⟨-, hlimited, -⟩, hp⟩ | ⟨e, -, hp⟩ := p.order_cases term lowered
  · rw [hp]
    refine ⟨h.limited, ?_, ?_⟩
    · intro hrows
      have hlimited : p.limited = true := hmarks.resolve_left (by simp [show p.clientRows = false from hrows])
      refine Or.inr ⟨hlimited, fun part hpart => ?_⟩
      rcases List.mem_append.1 hpart with hpart | hpart
      · rcases h.clientRows.1 hrows with hnil | ⟨-, hall⟩
        · simp [hnil] at hpart
        · exact hall part hpart
      · rw [List.mem_singleton.1 hpart]
    · rintro (hnil | ⟨hlimited, hall⟩)
      · simp [leave] at hnil
      · exact h.clientRows.2 (Or.inr ⟨hlimited, fun part hpart => hall part (List.mem_append_left _ hpart)⟩)
  · rw [hp]
    refine ⟨h.limited, ?_, ?_⟩
    · intro hrows
      cases hrows
    · rintro (hnil | ⟨hlimited', -⟩)
      · simp [leaveRows, leave] at hnil
      · exact absurd hlimited' (by simp [leaveRows, leave, hlimited])
  · rw [hp]
    exact ⟨h.limited, h.clientRows⟩

theorem take (h : p.Marked) (count : Expr) (lowered : Option Expr) : (p.take count lowered).Marked := by
  obtain ⟨-, hleaves⟩ | ⟨hrows, e, -, hp⟩ := p.take_cases count lowered
  · exact h.leaves hleaves (fun hkind => nomatch hkind)
  · rw [hp]
    refine ⟨rfl, ?_, fun _ => hrows⟩
    intro _
    exact (h.clientRows.1 hrows).imp_right fun hold => ⟨rfl, hold.2⟩

theorem skip (h : p.Marked) (count : Expr) (lowered : Option Expr) : (p.skip count lowered).Marked := by
  obtain ⟨-, hleaves⟩ | ⟨-, -, e, -, hp⟩ := p.skip_cases count lowered
  · exact h.leaves hleaves (fun hkind => nomatch hkind)
  · rw [hp]
    exact ⟨h.limited, h.clientRows⟩

theorem meet (h : p.Marked) (hmeet : p.meet lowered d = .ok p') : p'.Marked := by
  cases d with
  | condition joins e => exact h.filter (by cases joins <;> exact fun hkind => nomatch hkind) hmeet
  | order term => cases hmeet; exact h.order term lowered
  | limit count => cases hmeet; exact h.take count lowered
  | skip count => cases hmeet; exact h.skip count lowered

end Marked

/-- Once the client decides about rows it does so for good, and the server orders and pages as it did. -/
theorem meet_clientRows (hrows : p.clientRows = true) (h : p.meet lowered d = .ok p') :
    p'.clientRows = true ∧ p.read.SamePaging p'.read := by
  have hfree : p.clientRows ≠ false := by simp [hrows]
  cases d with
  | condition joins e =>
    obtain ⟨-, rfl⟩ | ⟨condition, read, -, -, hread, rfl⟩ := filter_cases h
    · exact ⟨rfl, .refl p.read⟩
    · exact ⟨hrows, .restrict hread⟩
  | order term =>
    cases h
    obtain ⟨-, hp⟩ | ⟨⟨hfalse, -⟩, -⟩ | ⟨e, ⟨hfalse, -⟩, -⟩ := p.order_cases term lowered
    · rw [hp]; exact ⟨hrows, .refl p.read⟩
    · exact absurd hfalse hfree
    · exact absurd hfalse hfree
  | limit count =>
    cases h
    obtain ⟨-, hleaves⟩ | ⟨hfalse, -⟩ := p.take_cases count lowered
    · exact ⟨hleaves.clientRows, .ofEq hleaves.read⟩
    · exact absurd hfalse hfree
  | skip count =>
    cases h
    obtain ⟨-, hleaves⟩ | ⟨hfalse, -⟩ := p.skip_cases count lowered
    · exact ⟨hleaves.clientRows, .ofEq hleaves.read⟩
    · exact absurd hfalse hfree

end Progress

/-! ## Runs -/

namespace Compiler

variable {c : Compiler} {sources : SourceTable} {start : Read} {p p' : Progress} {ds : List Demand}

theorem marked_run (h : p.Marked) (hrun : ds.foldlM (c.meet sources) p = .ok p') : p'.Marked :=
  Run.foldlM_keeps Progress.Marked (fun _ _ _ _ hp hmeet => hp.meet hmeet) h hrun

theorem clientRows_run (hrows : p.clientRows = true) (hrun : ds.foldlM (c.meet sources) p = .ok p') :
    p.read.SamePaging p'.read := by
  have hkeeps := Run.foldlM_keeps (fun m : Progress => m.clientRows = true ∧ p.read.SamePaging m.read)
    (fun d _ m m' hm hmeet => ?_) ⟨hrows, .refl p.read⟩ hrun
  · exact hkeeps.2
  · obtain ⟨hrows', hpaging⟩ := Progress.meet_clientRows hm.1 hmeet
    exact ⟨hrows', hm.2.trans hpaging⟩

/-- As long as the client does not decide about rows, demands behind a limit of the server change no more than that
limit. -/
theorem limited_paging_run (hp : start.Resolves p.read) (hrows : p.clientRows = false) (hlimited : p.limited = true)
    (hrun : ds.foldlM (c.meet sources) p = .ok p') :
    p'.read.orderings = p.read.orderings ∧ p'.read.skip = p.read.skip ∧
      p'.read.limit = Demand.limitBehind (c.translationFrom? sources start) p.read.limit ds := by
  induction ds generalizing p with
  | nil =>
    cases hrun
    exact ⟨rfl, rfl, rfl⟩
  | cons d ds ih =>
    obtain ⟨next, hnext, hrun⟩ := Run.bind_eq_ok.1 ((List.foldlM_cons ..).symm.trans hrun)
    have hresolves := meet_resolves hp hnext
    have hfree : p.limited ≠ false := by simp [hlimited]
    rw [meet_eq hp] at hnext
    -- A demand that makes the client decide about rows ends the matter.
    have hstop : next.read = p.read → next.clientRows = true →
        p'.read.orderings = p.read.orderings ∧ p'.read.skip = p.read.skip ∧ p'.read.limit = p.read.limit := by
      intro hread hclient
      have hpaging := clientRows_run hclient hrun
      rw [hread] at hpaging
      exact ⟨hpaging.orderings, hpaging.skip, hpaging.limit⟩
    cases d with
    | condition joins e =>
      obtain ⟨-, rfl⟩ | ⟨condition, read, hfalse, -⟩ := Progress.filter_cases hnext
      · exact hstop rfl rfl
      · exact absurd hfalse hfree
    | order term =>
      cases hnext
      obtain ⟨-, hleft⟩ | ⟨⟨-, hfalse, -⟩, -⟩ | ⟨e, ⟨-, hfalse, -⟩, -⟩ :=
        p.order_cases term (c.translationFrom? sources start (Demand.order term).expr)
      · rw [hleft] at hrun hresolves
        exact ih (p := p.leave .ordering term.expr) hresolves hrows hlimited hrun
      · exact absurd hfalse hfree
      · exact absurd hfalse hfree
    | limit count =>
      cases hnext
      obtain ⟨hleft, hleaves⟩ | ⟨-, e, htaken, hset⟩ :=
        p.take_cases count (c.translationFrom? sources start (Demand.limit count).expr)
      · have hnone : c.translationFrom? sources start count = none := hleft.resolve_left (by simp [hrows])
        simp only [Demand.limitBehind, hnone]
        exact hstop hleaves.read hleaves.clientRows
      · have hsome : c.translationFrom? sources start count = some e := htaken
        rw [hset] at hrun hresolves
        simp only [Demand.limitBehind, hsome]
        exact ih hresolves hrows rfl hrun
    | skip count =>
      cases hnext
      obtain ⟨-, hleaves⟩ | ⟨-, hfalse, -⟩ := p.skip_cases count (c.translationFrom? sources start count)
      · exact hstop hleaves.read hleaves.clientRows
      · exact absurd hfalse hfree

/-! ## Plans -/

variable {q : Query} {plan : Plan} {before after : List QueryClause}

/-- The plan of a query in progress, behind some of its clauses. -/
def progress (c : Compiler) (q : Query) (clauses : List QueryClause) : Except CompileError Progress := do
  let l ← Layout.ofQuery c.schema c.settings.binding.defaultAliasPrefix q
  clauses.foldlM (c.bindClause l.sources) { read := l.read }

/-- Behind a part on rows that is left to the client, the orderings and the skip of the read are final. Its limit is too,
unless the server limits the rows and all client parts by then are orderings: then limits go on taking the place of the
server's. -/
theorem plan_behind_client_parts (hq : q.clauses = before ++ after) (hplan : c.plan q = .ok plan)
    (hp : c.progress q before = .ok p) (hparts : p.clientParts ≠ []) :
    plan.read.orderings = p.read.orderings ∧ plan.read.skip = p.read.skip ∧
    plan.read.limit =
      if p.read.limit.isSome ∧ ∀ part ∈ p.clientParts, part.kind = .ordering then
        Demand.limitBehind (c.translation? q) p.read.limit (after.flatMap QueryClause.demands)
      else p.read.limit := by
  obtain ⟨l, bound, selected, hl, hbound, hselected, hreturned, -⟩ := plan_stages hplan
  obtain ⟨l', hl', hp⟩ := Run.bind_eq_ok.1 hp
  cases hl.symm.trans hl'
  have hrows := (select_selected hselected).read.trans (returnEntity_sameRows hreturned)
  rw [hq] at hbound
  obtain ⟨p', hp', hafter⟩ := Run.foldlM_append_eq_ok.1 hbound
  cases hp.symm.trans hp'
  have hafter := meet_all_demands hafter
  have hmarked : p.Marked := marked_run ⟨by rw [(Layout.ofQuery_wf hl).read]; rfl, by simp⟩ (meet_all_demands hp)
  rw [hrows.orderings, hrows.skip, hrows.limit]
  cases hclient : p.clientRows with
  | true =>
    have hpaging := clientRows_run hclient hafter
    refine ⟨hpaging.orderings, hpaging.skip, ?_⟩
    rw [if_neg, hpaging.limit]
    rintro ⟨hlimit, hall⟩
    have hfalse := hmarked.clientRows.2 (Or.inr ⟨hmarked.limited.trans hlimit, hall⟩)
    exact absurd hclient (by simp [hfalse])
  | false =>
    have hresolves : l.read.Resolves p.read :=
      Run.foldlM_keeps (fun p : Progress => l.read.Resolves p.read) (fun _ _ _ _ h hbind => bindClause_resolves h hbind)
        (.refl l.read) hp
    obtain ⟨hlimited, hall⟩ := (hmarked.clientRows.1 hclient).resolve_left hparts
    obtain ⟨horderings, hskip, hlimit⟩ := limited_paging_run hresolves hclient hlimited hafter
    rw [if_pos ⟨hmarked.limited ▸ hlimited, hall⟩, translation_layout hl]
    exact ⟨horderings, hskip, hlimit⟩

/-- Clauses on both sides of a skip, behind a limit and an ordering. -/
theorem plan_behind_client_ordering :
    let before : List QueryClause := [.take (rowCount 3), .orderBy [⟨warehouseSize, false⟩]]
    let after : List QueryClause :=
      [.orderBy [⟨warehouseSize, true⟩], .take (rowCount 2), .skip (rowCount 1), .take (rowCount 5)]
    ∃ p plan, warehouseCompiler.progress (warehouses (before ++ after)) before = .ok p ∧
      p.clientParts = [⟨.ordering, warehouseSize⟩] ∧ warehouseCompiler.plan (warehouses (before ++ after)) = .ok plan ∧
      plan.read.orderings.length = 0 ∧ plan.read.skip = none ∧ plan.read.limit = some (rowCount 2) := by
  intro before after
  have hprogress : ∃ p, warehouseCompiler.progress (warehouses (before ++ after)) before = .ok p ∧
      p.clientParts = [⟨.ordering, warehouseSize⟩] ∧ p.read.orderings.length = 0 ∧ p.read.skip = none ∧
      p.read.limit = some (rowCount 3) := ⟨_, rfl, rfl, rfl, rfl, rfl⟩
  have hplan : ∃ plan, warehouseCompiler.plan (warehouses (before ++ after)) = .ok plan := ⟨_, rfl⟩
  obtain ⟨p, hp, hparts, horderings, hskip, hlimit⟩ := hprogress
  obtain ⟨plan, hplan⟩ := hplan
  obtain ⟨horderings', hskip', hlimit'⟩ := plan_behind_client_parts rfl hplan hp (by simp [hparts])
  refine ⟨p, plan, hp, hparts, hplan, by rw [horderings', horderings], by rw [hskip', hskip], ?_⟩
  rw [hlimit', if_pos ⟨by rw [hlimit]; rfl, by simp [hparts]⟩, hlimit]
  rfl

/-- A limit behind an ordering of the client takes the place of the server's, which the ordering was to follow. -/
theorem limit_replaced_behind_ordering :
    let before : List QueryClause := [.take (rowCount 3), .orderBy [⟨warehouseSize, false⟩]]
    let q := warehouses (before ++ [.take (rowCount 2)])
    ∃ p plan, warehouseCompiler.progress q before = .ok p ∧ p.clientParts = [⟨.ordering, warehouseSize⟩] ∧
      p.read.limit = some (rowCount 3) ∧ warehouseCompiler.plan q = .ok plan ∧
      plan.read.limit = some (rowCount 2) ∧ plan.clientParts = [⟨.ordering, warehouseSize⟩] :=
  ⟨_, _, rfl, rfl, rfl, rfl, rfl, rfl⟩

end Compiler

end GraphQuery
