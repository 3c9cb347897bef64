import GraphQuery.Proofs.Conditions

/-!
# Rows

What a plan does to rows, for any meaning of the expressions in it. The server filters the rows, skips and limits them,
and the client applies its parts to what comes back. A step of the plan is right when its clause can go behind all that
the server and the client do already (`Progress.Agrees.filter`, `Progress.Agrees.skip`, `Progress.Agrees.take`), and so
is the plan of a query whose filters, skips and limits stand in the order in which the server applies them
(`Compiler.plan_rows`).
-/

namespace GraphQuery

/-- What expressions mean: a condition says which rows it holds of, and a count is a number. -/
structure Meaning (Row : Type) where
  holds : Expr → Row → Bool
  count : Expr → Nat

variable {Row : Type}

/-! ## Clauses that decide about rows -/

/-- A clause that keeps a stretch of the rows. -/
inductive Page where
  | skip (count : Expr)
  | take (count : Expr)

/-- A clause that keeps some of the rows in their order. -/
inductive RowClause where
  | filter (condition : Expr)
  | page (page : Page)

namespace Page

def count : Page → Expr
  | .skip n | .take n => n

def clause : Page → QueryClause
  | .skip n => .skip n
  | .take n => .take n

def rows (m : Meaning Row) : Page → List Row → List Row
  | .skip n, rows => rows.drop (m.count n)
  | .take n, rows => rows.take (m.count n)

end Page

namespace RowClause

def expr : RowClause → Expr
  | .filter e => e
  | .page p => p.count

def clause : RowClause → QueryClause
  | .filter e => .filter e
  | .page p => p.clause

def rows (m : Meaning Row) : RowClause → List Row → List Row
  | .filter e, rows => rows.filter (m.holds e)
  | .page p, rows => p.rows m rows

/-- The rows that clauses keep, one after the other. -/
def rowsOf (m : Meaning Row) (clauses : List RowClause) (rows : List Row) : List Row :=
  clauses.foldl (fun rows clause => clause.rows m rows) rows

theorem rowsOf_append (m : Meaning Row) (clauses clauses' : List RowClause) (rows : List Row) :
    rowsOf m (clauses ++ clauses') rows = rowsOf m clauses' (rowsOf m clauses rows) :=
  List.foldl_append

/-- Filters, and behind them at most one skip. -/
def opening (filters : List Expr) (skip : Option Expr) : List RowClause :=
  filters.map .filter ++ skip.toList.map fun n => .page (.skip n)

/-- Clauses in the order in which the server applies them. Behind a limit there may be other clauses when all up to the
limit have translations and no limit follows at once. -/
inductive InOrder (translation : Expr → Option Expr) : List RowClause → Prop where
  | upToLimit (filters : List Expr) (skip limit : Option Expr) :
    InOrder translation (opening filters skip ++ limit.toList.map fun n => .page (.take n))
  | behindLimit (filters : List Expr) (skip : Option Expr) (limit : Expr) (rest : List RowClause)
    (translates : ∀ clause ∈ opening filters skip ++ [.page (.take limit)], (translation clause.expr).isSome = true)
    (distinct : ∀ n, rest.head? ≠ some (.page (.take n))) :
    InOrder translation (opening filters skip ++ .page (.take limit) :: rest)

theorem runs_clause (translation : Expr → Option Expr) (clause : RowClause) :
    clause.clause.runs translation = (translation clause.expr).isSome := by
  match clause with
  | .filter e => rfl
  | .page (.skip n) => rfl
  | .page (.take n) => rfl

end RowClause

/-! ## The rows of a plan -/

/-- The rows that the server sends back for a read without orderings: those that satisfy its conditions, without the
skipped ones, up to the limit. -/
def Read.rows (m : Meaning Row) (r : Read) (rows : List Row) : List Row :=
  let found := (rows.filter fun row => r.conditions.all fun e => m.holds e row).drop (r.skip.elim 0 m.count)
  r.limit.elim found fun n => found.take (m.count n)

/-- The rows that a client part keeps. Orderings and projections keep them all. -/
def ClientPart.rows (m : Meaning Row) (part : ClientPart) (rows : List Row) : List Row :=
  match part.kind with
  | .predicate | .joinCondition => rows.filter (m.holds part.expr)
  | .limit => rows.take (m.count part.expr)
  | .skip => rows.drop (m.count part.expr)
  | .ordering | .projection | .projectionMember _ => rows

def ClientPart.rowsOf (m : Meaning Row) (parts : List ClientPart) (rows : List Row) : List Row :=
  parts.foldl (fun rows part => part.rows m rows) rows

/-- The rows that a plan keeps: the client parts are applied to what the server sends back. -/
def Plan.rows (server client : Meaning Row) (plan : Plan) (rows : List Row) : List Row :=
  ClientPart.rowsOf client plan.clientParts (plan.read.rows server rows)

def Progress.rows (server client : Meaning Row) (p : Progress) (rows : List Row) : List Row :=
  ClientPart.rowsOf client p.clientParts (p.read.rows server rows)

/-- A conjunction means that both conditions hold. -/
def Meaning.Conjoins (m : Meaning Row) : Prop :=
  ∀ a b row, m.holds (.binary .andAlso a b {}) row = (m.holds a row && m.holds b row)

/-- The server means by the translations of the expressions of some clauses what the client means by the expressions,
and it knows conjunctions. -/
structure Meaning.Translates (translation : Expr → Option Expr) (server client : Meaning Row)
    (clauses : List RowClause) : Prop where
  conjoins : server.Conjoins
  holds : ∀ e e', .filter e ∈ clauses → translation e = some e' → server.holds e' = client.holds e
  count : ∀ page e', .page page ∈ clauses → translation page.count = some e' →
    server.count e' = client.count page.count

/-! ## Conditions and rows -/

section Conditions

variable {m : Meaning Row}

theorem ClientPart.rowsOf_append (parts parts' : List ClientPart) (rows : List Row) :
    rowsOf m (parts ++ parts') rows = rowsOf m parts' (rowsOf m parts rows) :=
  List.foldl_append

theorem ClientPart.rows_condition {part : ClientPart} (h : part.isCondition = true) (rows : List Row) :
    part.rows m rows = rows.filter (m.holds part.expr) := by
  obtain ⟨kind, e⟩ := part
  cases kind with
  | predicate => rfl
  | joinCondition => rfl
  | _ => cases h

/-- Conditions can be applied in any order. -/
theorem ClientPart.rowsOf_filter {parts : List ClientPart} (h : ∀ part ∈ parts, part.isCondition = true)
    (f : Row → Bool) (rows : List Row) : rowsOf m parts (rows.filter f) = (rowsOf m parts rows).filter f := by
  induction parts generalizing rows with
  | nil => rfl
  | cons part parts ih =>
    have hrows := rows_condition (m := m) (h part List.mem_cons_self)
    simp only [rowsOf, List.foldl_cons] at ih ⊢
    rw [← ih (fun part' hpart' => h part' (List.mem_cons_of_mem part hpart')), hrows, hrows, List.filter_comm]

theorem Meaning.Conjoins.holds_foldl (hm : m.Conjoins) (e : Expr) (es : List Expr) (row : Row) :
    m.holds (es.foldl (fun joined e => .binary .andAlso joined e {}) e) row =
      (m.holds e row && es.all fun e' => m.holds e' row) := by
  induction es generalizing e with
  | nil => simp
  | cons e' es ih => rw [List.foldl_cons, ih, hm, List.all_cons, Bool.and_assoc]

/-- The conditions of a read hold of a row when those do that were joined in it. -/
theorem Read.RestrictedBy.holds (hm : m.Conjoins) {es : List Expr} {r : Read} (h : r.RestrictedBy es) (row : Row) :
    (r.conditions.all fun e => m.holds e row) = es.all fun e => m.holds e row := by
  rw [h.conditions]
  cases es with
  | nil => rfl
  | cons e es => simp [Expr.conjunction?, hm.holds_foldl]

theorem Read.restrict_paging {e : Expr} {r r' : Read} (h : r.restrict? e = some r') :
    r'.skip = r.skip ∧ r'.limit = r.limit := by
  obtain ⟨changed, -, rfl⟩ := Option.map_eq_some_iff.1 h
  exact ⟨rfl, rfl⟩

/-- A condition that is added to a read without paging filters its rows. -/
theorem Read.rows_restrict (hm : m.Conjoins) {es : List Expr} {e : Expr} {r r' : Read} (h : r.RestrictedBy es)
    (hr : r.restrict? e = some r') (hskip : r.skip = none) (hlimit : r.limit = none) (rows : List Row) :
    r'.rows m rows = (r.rows m rows).filter (m.holds e) := by
  have hholds := h.holds hm
  have hholds' := (h.restrict hr).holds hm
  obtain ⟨hskip', hlimit'⟩ := Read.restrict_paging hr
  simp only [Read.rows, hholds, hholds', hskip', hlimit', hskip, hlimit, Option.elim_none, List.drop_zero,
    List.filter_filter]
  simp [Bool.and_comm]

end Conditions

/-! ## Steps -/

namespace Progress

variable {server client : Meaning Row} {translation : Expr → Option Expr} {clauses body : List RowClause}
  {p p' : Progress} {part : ClientPart} {lowered : Option Expr}

/-- What holds of a plan in progress as long as all its clauses are clauses on rows. -/
structure Coherent (p : Progress) : Prop where
  restricted : ∃ es, p.read.RestrictedBy es
  limit : p.limited = false → p.read.limit = none
  parts : p.clientRows = false → p.clientParts = []

/-- A plan in progress keeps the rows that some clauses keep. -/
structure Agrees (server client : Meaning Row) (clauses : List RowClause) (p : Progress) : Prop where
  coherent : p.Coherent
  rows : ∀ rows, p.rows server client rows = RowClause.rowsOf client clauses rows

namespace Agrees

/-- What the client does comes last, so a clause that is left to it goes behind all others. -/
theorem leaves (h : p.Agrees server client clauses) (hp : p.Leaves part p') {clause : RowClause}
    (hpart : ∀ rows, part.rows client rows = clause.rows client rows) :
    p'.Agrees server client (clauses ++ [clause]) := by
  refine ⟨⟨?_, ?_, ?_⟩, fun rows => ?_⟩
  · rw [hp.read]; exact h.coherent.restricted
  · rw [hp.limited, hp.read]; exact h.coherent.limit
  · rw [hp.clientRows]; intro hfalse; cases hfalse
  · rw [Progress.rows, hp.parts, hp.read, ClientPart.rowsOf_append, RowClause.rowsOf_append, ← h.rows rows]
    exact hpart _

/-- A filter is right behind other filters, and behind a limit of the server. -/
theorem filter (hm : Meaning.Translates translation server client body) (h : p.Agrees server client clauses)
    (hopen : p.limited = true ∨ p.read.skip = none ∧ ∀ part ∈ p.clientParts, part.isCondition = true)
    {e : Expr} (he : .filter e ∈ body) (hbind : p.filter .predicate e (translation e) = .ok p') :
    p'.Agrees server client (clauses ++ [.filter e]) := by
  obtain ⟨-, rfl⟩ | ⟨condition, read, hfree, htranslation, hread, rfl⟩ := filter_cases hbind
  · have hleaves : p.Leaves ⟨.predicate, e⟩ (p.leaveRows .predicate e) := ⟨rfl, rfl, rfl, rfl⟩
    exact h.leaves hleaves fun _ => rfl
  · obtain ⟨hskip, hconditions⟩ := hopen.resolve_left (by simp [hfree])
    obtain ⟨es, hes⟩ := h.coherent.restricted
    have hlimit := h.coherent.limit hfree
    refine ⟨⟨⟨_, hes.restrict hread⟩, fun _ => (Read.restrict_paging hread).2.trans hlimit, h.coherent.parts⟩,
      fun rows => ?_⟩
    simp only [Progress.rows]
    rw [Read.rows_restrict hm.conjoins hes hread hskip hlimit, ClientPart.rowsOf_filter hconditions,
      RowClause.rowsOf_append, ← h.rows rows, hm.holds e condition he htranslation]
    rfl

/-- A skip is right when the read has none, and behind a limit of the server. -/
theorem skip (hm : Meaning.Translates translation server client body) (h : p.Agrees server client clauses)
    (hopen : p.limited = true ∨ p.read.skip = none) {n : Expr} (hn : .page (.skip n) ∈ body) :
    (p.skip n (translation n)).Agrees server client (clauses ++ [.page (.skip n)]) := by
  obtain ⟨-, hleaves⟩ | ⟨hrows, hfree, e, htranslation, hskip⟩ := skip_cases n (translation n) p
  · exact h.leaves hleaves fun _ => rfl
  · have hnone := hopen.resolve_left (by simp [hfree])
    have hlimit := h.coherent.limit hfree
    have hparts := h.coherent.parts hrows
    rw [hskip]
    refine ⟨⟨h.coherent.restricted, fun _ => hlimit, fun _ => hparts⟩, fun rows => ?_⟩
    have hcount : server.count e = client.count n := hm.count _ e hn htranslation
    have hagree := h.rows rows
    rw [RowClause.rowsOf_append, ← hagree]
    simp [Progress.rows, hparts, ClientPart.rowsOf, Read.rows, Read.conditions, hnone, hlimit, hcount,
      RowClause.rowsOf, RowClause.rows, Page.rows]

/-- A limit is right when the read has none, and when the client decides about rows. -/
theorem take (hm : Meaning.Translates translation server client body) (h : p.Agrees server client clauses)
    (hopen : p.limited = false ∨ p.clientRows = true) {n : Expr} (hn : .page (.take n) ∈ body) :
    (p.take n (translation n)).Agrees server client (clauses ++ [.page (.take n)]) := by
  obtain ⟨-, hleaves⟩ | ⟨hrows, e, htranslation, htake⟩ := take_cases n (translation n) p
  · exact h.leaves hleaves fun _ => rfl
  · have hfree : p.limited = false := hopen.resolve_right (by simp [hrows])
    have hlimit := h.coherent.limit hfree
    have hparts := h.coherent.parts hrows
    rw [htake]
    refine ⟨⟨h.coherent.restricted, (nomatch ·), fun _ => hparts⟩, fun rows => ?_⟩
    have hcount : server.count e = client.count n := hm.count _ e hn htranslation
    have hagree := h.rows rows
    rw [RowClause.rowsOf_append, ← hagree]
    simp [Progress.rows, hparts, ClientPart.rowsOf, Read.rows, Read.conditions, hlimit, hcount,
      RowClause.rowsOf, RowClause.rows, Page.rows]

end Agrees

/-! ## Runs -/

/-- The read of a layout keeps all rows. -/
theorem Agrees.layout {aliasPrefix : String} {q : Query} {l : Layout} (h : l.WF aliasPrefix q) :
    ({ read := l.read } : Progress).Agrees server client [] := by
  have hrestricted := Read.RestrictedBy.layout h
  have hskip : l.read.skip = none := by rw [h.read]; rfl
  have hlimit : l.read.limit = none := by rw [h.read]; rfl
  refine ⟨⟨⟨[], hrestricted⟩, fun _ => hlimit, fun _ => rfl⟩, fun rows => ?_⟩
  simp [Progress.rows, ClientPart.rowsOf, Read.rows, hrestricted.conditions, Expr.conjunction?, hskip, hlimit,
    RowClause.rowsOf]

/-- Nothing but filters so far. -/
structure Filtering (p : Progress) : Prop where
  limited : p.limited = false
  skip : p.read.skip = none
  parts : ∀ part ∈ p.clientParts, part.isCondition = true

theorem Filtering.filter (h : p.Filtering) {e : Expr} (hbind : p.filter .predicate e lowered = .ok p') :
    p'.Filtering := by
  obtain ⟨-, rfl⟩ | ⟨condition, read, -, -, hread, rfl⟩ := filter_cases hbind
  · refine ⟨h.limited, h.skip, fun part hpart => ?_⟩
    rcases List.mem_append.1 hpart with hpart | hpart
    · exact h.parts part hpart
    · rw [List.mem_singleton.1 hpart]; rfl
  · exact ⟨h.limited, (Read.restrict_paging hread).1.trans h.skip, h.parts⟩

theorem filters_run (hm : Meaning.Translates translation server client body) {filters : List Expr}
    (hfilters : ∀ e ∈ filters, .filter e ∈ body) (h : p.Agrees server client clauses) (hp : p.Filtering)
    (hrun : (filters.map QueryClause.filter).foldlM (bindBy translation) p = .ok p') :
    p'.Agrees server client (clauses ++ filters.map .filter) ∧ p'.Filtering := by
  induction filters generalizing p clauses with
  | nil =>
    cases hrun
    exact ⟨by simpa using h, hp⟩
  | cons e filters ih =>
    obtain ⟨next, hnext, hrun⟩ := Run.bind_eq_ok.1 ((List.foldlM_cons ..).symm.trans hrun)
    have hagrees := h.filter hm (Or.inr ⟨hp.skip, hp.parts⟩) (hfilters e List.mem_cons_self) hnext
    simpa using ih (fun e' he' => hfilters e' (List.mem_cons_of_mem e he')) hagrees (hp.filter hnext) hrun

/-- Behind a limit of the server all clauses are the client's, except a limit that follows at once. -/
theorem limited_rows_run (hm : Meaning.Translates translation server client body) {rest : List RowClause}
    (hrest : ∀ clause ∈ rest, clause ∈ body) (h : p.Agrees server client clauses) (hlimited : p.limited = true)
    (hopen : p.clientRows = true ∨ ∀ n, rest.head? ≠ some (.page (.take n)))
    (hrun : (rest.map RowClause.clause).foldlM (bindBy translation) p = .ok p') :
    p'.Agrees server client (clauses ++ rest) := by
  induction rest generalizing p clauses with
  | nil =>
    cases hrun
    simpa using h
  | cons clause rest ih =>
    obtain ⟨next, hnext, hrun⟩ := Run.bind_eq_ok.1 ((List.foldlM_cons ..).symm.trans hrun)
    have hbody := hrest clause List.mem_cons_self
    have hstep : next.Agrees server client (clauses ++ [clause]) ∧ next.limited = true ∧ next.clientRows = true := by
      match clause with
      | .filter e =>
        refine ⟨h.filter hm (Or.inl hlimited) hbody hnext, ?_⟩
        obtain ⟨-, rfl⟩ | ⟨condition, read, hfree, -⟩ := filter_cases hnext
        · exact ⟨hlimited, rfl⟩
        · exact absurd hlimited (by simp [hfree])
      | .page (.skip n) =>
        cases hnext
        refine ⟨h.skip hm (Or.inl hlimited) hbody, ?_⟩
        obtain ⟨-, hleaves⟩ | ⟨-, hfree, -⟩ := skip_cases n (translation n) p
        · exact ⟨hleaves.limited.trans hlimited, hleaves.clientRows⟩
        · exact absurd hlimited (by simp [hfree])
      | .page (.take n) =>
        cases hnext
        -- A limit that follows at once would take the place of the server's.
        have hrows : p.clientRows = true := hopen.resolve_right fun hhead => hhead n rfl
        refine ⟨h.take hm (Or.inr hrows) hbody, ?_⟩
        obtain ⟨-, hleaves⟩ | ⟨hfree, -⟩ := take_cases n (translation n) p
        · exact ⟨hleaves.limited.trans hlimited, hleaves.clientRows⟩
        · exact absurd hrows (by simp [hfree])
    obtain ⟨hagrees, hlimited', hrows⟩ := hstep
    simpa using ih (fun c hc => hrest c (List.mem_cons_of_mem clause hc)) hagrees hlimited' (Or.inl hrows) hrun

theorem Filtering.layout {aliasPrefix : String} {q : Query} {l : Layout} (h : l.WF aliasPrefix q) :
    ({ read := l.read } : Progress).Filtering :=
  ⟨rfl, by rw [h.read]; rfl, fun _ hpart => nomatch hpart⟩

theorem opening_run (hm : Meaning.Translates translation server client body) {filters : List Expr}
    {skip : Option Expr} (hbody : ∀ clause ∈ RowClause.opening filters skip, clause ∈ body)
    (h : p.Agrees server client []) (hp : p.Filtering)
    (hrun : ((RowClause.opening filters skip).map RowClause.clause).foldlM (bindBy translation) p = .ok p') :
    p'.Agrees server client (RowClause.opening filters skip) ∧ p'.limited = false := by
  rw [RowClause.opening, List.map_append, List.map_map] at hrun
  obtain ⟨next, hfilters, hrun⟩ := Run.foldlM_append_eq_ok.1 hrun
  have hmem : ∀ e ∈ filters, .filter e ∈ body := fun e he => hbody _ (by simp [RowClause.opening, he])
  obtain ⟨hagrees, hnext⟩ := filters_run hm hmem h hp hfilters
  cases skip with
  | none =>
    cases hrun
    exact ⟨by simpa [RowClause.opening] using hagrees, hnext.limited⟩
  | some n =>
    cases hrun
    refine ⟨hagrees.skip hm (Or.inr hnext.skip) (hbody _ (by simp [RowClause.opening])), ?_⟩
    obtain ⟨-, hleaves⟩ | ⟨-, -, e, -, hskip⟩ := skip_cases n (translation n) next
    · exact hleaves.limited.trans hnext.limited
    · rw [hskip]; exact hnext.limited

/-- Clauses in the server's order are split so that the same rows are kept. -/
theorem inOrder_run (hm : Meaning.Translates translation server client body)
    (horder : RowClause.InOrder translation body) (hp : p.Filtering) (hclient : p.clientRows = false)
    (h : p.Agrees server client [])
    (hrun : (body.map RowClause.clause).foldlM (bindBy translation) p = .ok p') : p'.Agrees server client body := by
  cases horder with
  | upToLimit filters skip limit =>
    rw [List.map_append] at hrun
    obtain ⟨next, hopening, hrun⟩ := Run.foldlM_append_eq_ok.1 hrun
    obtain ⟨hagrees, hlimited⟩ := opening_run hm (fun c hc => List.mem_append_left _ hc) h hp hopening
    cases limit with
    | none =>
      cases hrun
      simpa using hagrees
    | some n =>
      cases hrun
      exact hagrees.take hm (Or.inl hlimited) (List.mem_append_right _ (by simp))
  | behindLimit filters skip limit rest translates distinct =>
    rw [List.append_cons] at hrun ⊢
    rw [List.map_append] at hrun
    obtain ⟨limited, hlimited, hrun⟩ := Run.foldlM_append_eq_ok.1 hrun
    -- All up to the limit run on the server, so the limit is the server's.
    have hserver : limited.limited = true := by
      rw [limited_run hlimited, hp.limited, hclient, List.map_append]
      have hlimit : (translation limit).isSome = true := translates (.page (.take limit)) (by simp)
      refine QueryClause.limitsOnServer_take translation (fun c hc => ?_) hlimit
      obtain ⟨clause, hclause, rfl⟩ := List.mem_map.1 hc
      rw [RowClause.runs_clause]
      exact translates clause (List.mem_append_left _ hclause)
    rw [List.map_append] at hlimited
    obtain ⟨next, hopening, htake⟩ := Run.foldlM_append_eq_ok.1 hlimited
    cases htake
    obtain ⟨hagrees, hfree⟩ := opening_run hm (fun c hc => List.mem_append_left _ hc) h hp hopening
    exact limited_rows_run hm (fun c hc => by simp [hc]) (hagrees.take hm (Or.inl hfree) (by simp)) hserver
      (Or.inr distinct) hrun

end Progress

/-! ## Plans -/

namespace Compiler

variable {c : Compiler} {q : Query} {plan : Plan}

/-- A plan keeps the rows that are kept once all clauses are bound. -/
theorem plan_rows_bound (server client : Meaning Row) (h : c.plan q = .ok plan) :
    ∃ (l : Layout) (p : Progress), l.WF c.settings.binding.defaultAliasPrefix q ∧
      q.clauses.foldlM (Progress.bindBy (c.translation? q)) { read := l.read } = .ok p ∧
        ∀ rows, plan.rows server client rows = p.rows server client rows := by
  obtain ⟨l, p, hl, hp, hread, parts, hparts, hkinds⟩ := plan_bound h
  refine ⟨l, p, Layout.ofQuery_wf hl, hp, fun rows => ?_⟩
  have hprojections : ∀ rows : List Row, ClientPart.rowsOf client parts rows = rows := by
    intro rows
    refine List.foldlRecOn (motive := (· = rows)) parts _ rfl fun rows' hrows' part hpart => ?_
    obtain ⟨kind, e⟩ := part
    have hkind : kind.isProjection = true := hkinds _ hpart
    cases kind with
    | projection => exact hrows'
    | projectionMember name => exact hrows'
    | _ => cases hkind
  rw [Plan.rows, hparts, ClientPart.rowsOf_append, hprojections]
  simp only [Progress.rows, Read.rows, Read.conditions, hread.clauses, hread.skip, hread.limit]

/-- When the clauses of a query are filters, skips and limits in the order in which the server applies them, its plan
keeps the rows that the clauses keep one after the other, whatever part of them has translations. -/
theorem plan_rows (server client : Meaning Row) {body : List RowClause} (hq : q.clauses = body.map RowClause.clause)
    (horder : RowClause.InOrder (c.translation? q) body)
    (hm : Meaning.Translates (c.translation? q) server client body) (h : c.plan q = .ok plan) (rows : List Row) :
    plan.rows server client rows = RowClause.rowsOf client body rows := by
  obtain ⟨l, p, hl, hp, hrows⟩ := plan_rows_bound server client h
  rw [hq] at hp
  rw [hrows rows]
  exact (Progress.inOrder_run hm horder (.layout hl) rfl (.layout hl) hp).rows rows

/-- What conditions on the size of warehouses and numbers of rows mean, where a row is a size and the client's pages
have two rows. -/
def sizeMeaning : Meaning Int32 where
  holds := holds
  count
    | .constant (.int32 n) _ => n.toInt.toNat
    | _ => 2
where
  holds : Expr → Int32 → Bool
    | .binary .andAlso left right _, row => holds left row && holds right row
    | .binary _ _ (.constant (.int32 n) _) _, row => row == n
    | _, _ => true

/-- Clauses behind a limit, one of which has no translation. -/
theorem plan_rows_behind_limit :
    let body : List RowClause := [.filter (sizeIs 1), .filter (sizeIs 1), .page (.skip (rowCount 1)),
      .page (.take (rowCount 3)), .page (.skip (rowCount 1)), .page (.take pageSize)]
    ∃ plan, warehouseCompiler.plan (warehouses (body.map RowClause.clause)) = .ok plan ∧
      plan.rows sizeMeaning sizeMeaning [1, 2, 1, 1, 2, 1, 1] = [1, 1] := by
  intro body
  have hplan : ∃ plan, warehouseCompiler.plan (warehouses (body.map RowClause.clause)) = .ok plan := ⟨_, rfl⟩
  obtain ⟨plan, hplan⟩ := hplan
  refine ⟨plan, hplan, plan_rows sizeMeaning sizeMeaning rfl ?_ ⟨fun _ _ _ => rfl, ?_, ?_⟩ hplan _⟩
  · exact .behindLimit [sizeIs 1, sizeIs 1] (some (rowCount 1)) (rowCount 3) _ (by decide) (fun n h => nomatch h)
  · intro e e' he htranslation
    have he : e = sizeIs 1 := by simpa [body] using he
    subst he
    cases htranslation
    rfl
  · intro page e' hpage htranslation
    have hpage : page = .skip (rowCount 1) ∨ page = .take (rowCount 3) ∨ page = .skip (rowCount 1) ∨
        page = .take pageSize := by simpa [body] using hpage
    rcases hpage with rfl | rfl | rfl | rfl
    · cases htranslation; rfl
    · cases htranslation; rfl
    · cases htranslation; rfl
    · cases htranslation

end Compiler

end GraphQuery
