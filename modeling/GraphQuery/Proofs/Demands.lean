import GraphQuery.Compile.Compiled
import GraphQuery.Proofs.Conditions

/-!
# Demands on rows

The clauses of a query make demands on its rows: conditions, terms of an ordering, limits and skips. Binding meets them
one after the other, and each is either taken into the read in its translation or left to the client as it stands
(`Progress.meet_cases`). So the read of a plan and its client parts are the two halves of the demands, each in the order
of the query, and nothing is lost, repeated or changed (`Compiler.compile_splits`).
-/

namespace GraphQuery

/-- One thing that a query clause asks about rows. -/
inductive Demand where
  /-- A condition; `joins` says that it compares the keys of a join. -/
  | condition (joins : Bool) (e : Expr)
  | order (term : SortTerm)
  | limit (count : Expr)
  | skip (count : Expr)

namespace Demand

def expr : Demand → Expr
  | .condition _ e => e
  | .order term => term.expr
  | .limit count | .skip count => count

/-- The client part that a demand becomes when it is left to the client. -/
def part : Demand → ClientPart
  | .condition joins e => ⟨if joins then .joinCondition else .predicate, e⟩
  | .order term => ⟨.ordering, term.expr⟩
  | .limit count => ⟨.limit, count⟩
  | .skip count => ⟨.skip, count⟩

def condition? : Demand → Option Expr
  | .condition _ e => some e
  | _ => none

def term? : Demand → Option SortTerm
  | .order term => some term
  | _ => none

def limit? : Demand → Option Expr
  | .limit count => some count
  | _ => none

def skip? : Demand → Option Expr
  | .skip count => some count
  | _ => none

end Demand

/-- The demands that a clause makes, in order. -/
def QueryClause.demands : QueryClause → List Demand
  | .filter e => [.condition false e]
  | .additional _ => []
  | .join j =>
    match j.relationship, j.outerKey, j.innerKey with
    | none, some outer, some inner => [.condition true (.plain .equal outer inner)]
    | _, _, _ => []
  | .orderBy terms => terms.map .order
  | .take count => [.limit count]
  | .skip count => [.skip count]

/-- A read that takes a demand in the given form. -/
def Read.demand? (r : Read) (e : Expr) : Demand → Option Read
  | .condition _ _ => r.restrict? e
  | .order term => some (r.addSortTerm ⟨e, term.descending⟩)
  | .limit _ => some { r with limit := some e }
  | .skip _ => some { r with skip := some e }

/-! ## One demand after the other -/

namespace Progress

variable {p p' : Progress} {d : Demand} {lowered : Option Expr}

/-- Meets a demand with its lowering. -/
def meet (p : Progress) (lowered : Option Expr) (d : Demand) : Except CompileError Progress :=
  match d with
  | .condition _ e => p.filter d.part.kind e lowered
  | .order term => .ok (p.order term lowered)
  | .limit count => .ok (p.take count lowered)
  | .skip count => .ok (p.skip count lowered)

/-- A demand is left to the client, and the read stays as it is, or the read takes its lowering. -/
theorem meet_cases (h : p.meet lowered d = .ok p') :
    (p'.read = p.read ∧ p'.clientParts = p.clientParts ++ [d.part]) ∨
      ∃ e, lowered = some e ∧ p.read.demand? e d = some p'.read ∧ p'.clientParts = p.clientParts := by
  cases d with
  | condition joins _ =>
    obtain ⟨-, rfl⟩ | ⟨e, read, -, hlowered, hread, rfl⟩ := filter_cases h
    · exact Or.inl ⟨rfl, rfl⟩
    · exact Or.inr ⟨e, hlowered, hread, rfl⟩
  | order term =>
    cases h
    obtain ⟨-, h⟩ | ⟨-, h⟩ | ⟨e, ⟨-, -, hlowered⟩, h⟩ := p.order_cases term lowered
    · rw [h]; exact Or.inl ⟨rfl, rfl⟩
    · rw [h]; exact Or.inl ⟨rfl, rfl⟩
    · rw [h]; exact Or.inr ⟨e, hlowered, rfl, rfl⟩
  | limit count =>
    cases h
    obtain ⟨-, hleaves⟩ | ⟨-, e, hlowered, h⟩ := p.take_cases count lowered
    · exact Or.inl ⟨hleaves.read, hleaves.parts⟩
    · rw [h]; exact Or.inr ⟨e, hlowered, rfl, rfl⟩
  | skip count =>
    cases h
    obtain ⟨-, hleaves⟩ | ⟨-, -, e, hlowered, h⟩ := p.skip_cases count lowered
    · exact Or.inl ⟨hleaves.read, hleaves.parts⟩
    · rw [h]; exact Or.inr ⟨e, hlowered, rfl, rfl⟩

end Progress

theorem Read.Resolves.demand {r r' : Read} {e : Expr} {d : Demand} (h : r.demand? e d = some r') : r.Resolves r' := by
  cases d with
  | condition _ _ => exact .restrict h
  | order term => cases h; exact ⟨rfl, rfl, rfl⟩
  | limit count => cases h; exact ⟨rfl, rfl, rfl⟩
  | skip count => cases h; exact ⟨rfl, rfl, rfl⟩

namespace Compiler

variable {c : Compiler} {sources : SourceTable} {start : Read} {p p' : Progress} {d : Demand}

/-- Meets a demand as binding does, with the form in which it runs on the server by then. -/
def meet (c : Compiler) (sources : SourceTable) (p : Progress) (d : Demand) : Except CompileError Progress :=
  p.meet (c.lower? sources p .condition d.expr) d

theorem meet_eq (h : start.Resolves p.read) (d : Demand) :
    c.meet sources p d = p.meet (c.translationFrom? sources start d.expr) d := by
  rw [meet, lower_eq_translation h]

theorem meet_resolves (h : start.Resolves p.read) (hmeet : c.meet sources p d = .ok p') : start.Resolves p'.read := by
  obtain ⟨hread, -⟩ | ⟨e, -, hread, -⟩ := Progress.meet_cases hmeet
  · rw [hread]; exact h
  · exact h.trans (.demand hread)

theorem meet_terms (terms : List SortTerm) (p : Progress) :
    (terms.map .order).foldlM (c.meet sources) p = .ok (terms.foldl (c.bindTerm sources) p) := by
  induction terms generalizing p with
  | nil => rfl
  | cons term terms ih => exact ih (c.bindTerm sources p term)

/-- Binding a clause meets its demands. -/
theorem meet_demands {clause : QueryClause} (h : c.bindClause sources p clause = .ok p') :
    clause.demands.foldlM (c.meet sources) p = .ok p' := by
  have hone : ∀ d, c.meet sources p d = .ok p' → [d].foldlM (c.meet sources) p = .ok p' := by
    intro d hd
    rw [List.foldlM_cons, hd]
    rfl
  cases clause with
  | filter e => exact hone (.condition false e) h
  | additional _ => exact h
  | join join =>
    simp only [bindClause] at h
    split at h
    · rename_i hrelationship
      simpa [QueryClause.demands, hrelationship] using h
    · rename_i outer inner hrelationship houter hinner
      simp only [QueryClause.demands, hrelationship, houter, hinner]
      exact hone (.condition true (.plain .equal outer inner)) h
    · cases h
  | orderBy terms =>
    cases h
    exact meet_terms terms p
  | take count => exact hone (.limit count) h
  | skip count => exact hone (.skip count) h

/-- Binding clauses meets their demands one after the other. -/
theorem meet_all_demands {clauses : List QueryClause} (h : clauses.foldlM (c.bindClause sources) p = .ok p') :
    (clauses.flatMap QueryClause.demands).foldlM (c.meet sources) p = .ok p' := by
  induction clauses generalizing p with
  | nil => exact h
  | cons clause clauses ih =>
    obtain ⟨next, hnext, h⟩ := Run.bind_eq_ok.1 ((List.foldlM_cons ..).symm.trans h)
    exact Run.foldlM_append_eq_ok.2 ⟨next, meet_demands hnext, ih h⟩

/-- Demands that are met one after the other, each with whether a client part is added for it. -/
def verdicts (c : Compiler) (sources : SourceTable) : Progress → List Demand → List (Demand × Bool)
  | _, [] => []
  | p, d :: ds =>
    match c.meet sources p d with
    | .ok p' => (d, decide (p.clientParts.length < p'.clientParts.length)) :: c.verdicts sources p' ds
    | .error _ => []

end Compiler

/-! ## The two halves of the demands -/

namespace Demand

/-- The demands that the server takes. -/
def taken (verdicts : List (Demand × Bool)) : List Demand :=
  (verdicts.filter fun v => !v.2).map Prod.fst

/-- The demands that are left to the client. -/
def left (verdicts : List (Demand × Bool)) : List Demand :=
  (verdicts.filter fun v => v.2).map Prod.fst

variable (verdicts : List (Demand × Bool)) (d : Demand)

@[simp] theorem taken_concat_left : taken (verdicts ++ [(d, true)]) = taken verdicts := by
  simp [taken]

@[simp] theorem filterMap_taken_concat {α : Type} (f : Demand → Option α) :
    (taken (verdicts ++ [(d, false)])).filterMap f = (taken verdicts).filterMap f ++ (f d).toList := by
  cases h : f d <;> simp [taken, h]

@[simp] theorem left_concat_left : left (verdicts ++ [(d, true)]) = left verdicts ++ [d] := by
  simp [left]

@[simp] theorem left_concat_taken : left (verdicts ++ [(d, false)]) = left verdicts := by
  simp [left]

end Demand

/-- The clauses of a read are those of another, whose last one is a pattern, with the conjunction of the given
conditions as the condition of that pattern. -/
def Read.Restricts (start : Read) (es : List Expr) (r : Read) : Prop :=
  ∃ others last, start.clauses = others ++ [.pattern last] ∧
    r.clauses = others ++ [.pattern { last with predicate := Expr.conjunction? es }]

/-- A read and client parts are made of demands, as far as the server takes them and as far as they are left to the
client. -/
structure Split (translation : Expr → Option Expr) (start : Read) (verdicts : List (Demand × Bool)) (read : Read)
    (parts : List ClientPart) : Prop where
  conditions : ∃ es, es.map some = ((Demand.taken verdicts).filterMap Demand.condition?).map translation ∧
    start.Restricts es read
  orderings : read.orderings.map (fun term => (some term.expr, term.descending)) =
    ((Demand.taken verdicts).filterMap Demand.term?).map fun term => (translation term.expr, term.descending)
  skip : read.skip.map some = ((Demand.taken verdicts).filterMap Demand.skip?).getLast?.map translation
  limit : read.limit.map some = ((Demand.taken verdicts).filterMap Demand.limit?).getLast?.map translation
  parts : parts = (Demand.left verdicts).map Demand.part

namespace Split

variable {translation : Expr → Option Expr} {start read read' : Read} {verdicts : List (Demand × Bool)}
  {parts : List ClientPart} {d : Demand} {e : Expr}

theorem leave (h : Split translation start verdicts read parts) (d : Demand) :
    Split translation start (verdicts ++ [(d, true)]) read (parts ++ [d.part]) := by
  refine ⟨?_, ?_, ?_, ?_, ?_⟩
  · simpa using h.conditions
  · simpa using h.orderings
  · simpa using h.skip
  · simpa using h.limit
  · simp [h.parts]

theorem restricts_concat {es : List Expr} (h : start.Restricts es read) (hread : read.restrict? e = some read') :
    start.Restricts (es ++ [e]) read' := by
  obtain ⟨others, last, hstart, hclauses⟩ := h
  rw [Read.restrict?, hclauses, ReadingClause.restrictLast_concat] at hread
  cases hread
  refine ⟨others, last, hstart, ?_⟩
  have hpredicate := PatternMatch.restrict_conjunction
    (m := { last with predicate := Expr.conjunction? es }) rfl e
  simp only [PatternMatch.restrict] at hpredicate ⊢
  rw [hpredicate]

theorem take (h : Split translation start verdicts read parts) (he : translation d.expr = some e)
    (hread : read.demand? e d = some read') : Split translation start (verdicts ++ [(d, false)]) read' parts := by
  obtain ⟨es, hes, hrestricts⟩ := h.conditions
  have horderings := h.orderings
  have hskip := h.skip
  have hlimit := h.limit
  -- A demand goes into one part of the read, and the other parts stay.
  cases d with
  | condition joins condition =>
    obtain ⟨changed, hchanged, rfl⟩ := Option.map_eq_some_iff.1 hread
    refine ⟨⟨es ++ [e], ?_, restricts_concat hrestricts hread⟩, ?_, ?_, ?_, ?_⟩
    · have he' : translation condition = some e := he
      simp [Demand.condition?, hes, he']
    · simpa [Demand.term?] using horderings
    · simpa [Demand.skip?] using hskip
    · simpa [Demand.limit?] using hlimit
    · simpa using h.parts
  | order term =>
    cases hread
    refine ⟨⟨es, ?_, hrestricts⟩, ?_, ?_, ?_, ?_⟩
    · simpa [Demand.condition?] using hes
    · have he' : translation term.expr = some e := he
      simp [Read.addSortTerm, Demand.term?, horderings, he']
    · simpa [Read.addSortTerm, Demand.skip?] using hskip
    · simpa [Read.addSortTerm, Demand.limit?] using hlimit
    · simpa using h.parts
  | limit count =>
    cases hread
    refine ⟨⟨es, ?_, hrestricts⟩, ?_, ?_, ?_, ?_⟩
    · simpa [Demand.condition?] using hes
    · simpa [Demand.term?] using horderings
    · simpa [Demand.skip?] using hskip
    · have he' : translation count = some e := he
      simp [Demand.limit?, he']
    · simpa using h.parts
  | skip count =>
    cases hread
    refine ⟨⟨es, ?_, hrestricts⟩, ?_, ?_, ?_, ?_⟩
    · simpa [Demand.condition?] using hes
    · simpa [Demand.term?] using horderings
    · have he' : translation count = some e := he
      simp [Demand.skip?, he']
    · simpa [Demand.limit?] using hlimit
    · simpa using h.parts

/-- The read of a layout and no client parts come from no demands. -/
theorem layout {aliasPrefix : String} {q : Query} {l : Layout} (h : l.WF aliasPrefix q) :
    Split translation l.read [] l.read [] := by
  obtain ⟨others, last, hclauses, -, hlast⟩ := Read.RestrictedBy.layout h
  -- No pattern of a layout has a condition yet.
  have hlast' : { last with predicate := Expr.conjunction? [] } = last := by
    cases last
    cases hlast
    rfl
  refine ⟨⟨[], rfl, others, last, hclauses, by rw [hlast', hclauses]⟩, ?_, ?_, ?_, rfl⟩
  · rw [h.read]; rfl
  · rw [h.read]; rfl
  · rw [h.read]; rfl

/-- Only the rows of a read matter, not what it returns. -/
theorem congr (h : Split translation start verdicts read parts) (hread : read.SameRows read') :
    Split translation start verdicts read' parts := by
  obtain ⟨es, hes, others, last, hstart, hclauses⟩ := h.conditions
  refine ⟨⟨es, hes, others, last, hstart, hread.clauses.trans hclauses⟩, ?_, ?_, ?_, h.parts⟩
  · rw [hread.orderings]; exact h.orderings
  · rw [hread.skip]; exact h.skip
  · rw [hread.limit]; exact h.limit

end Split

/-! ## Runs -/

namespace Compiler

variable {c : Compiler} {sources : SourceTable} {start : Read} {p p' : Progress} {d : Demand} {ds : List Demand}
  {verdicts : List (Demand × Bool)}

/-- Meeting a demand puts it into one of the two halves. -/
theorem meet_splits (hp : start.Resolves p.read)
    (h : Split (c.translationFrom? sources start) start verdicts p.read p.clientParts)
    (hmeet : c.meet sources p d = .ok p') :
    Split (c.translationFrom? sources start) start
      (verdicts ++ [(d, decide (p.clientParts.length < p'.clientParts.length))]) p'.read p'.clientParts := by
  rw [meet_eq hp] at hmeet
  obtain ⟨hread, hparts⟩ | ⟨e, he, hread, hparts⟩ := Progress.meet_cases hmeet
  · have hlt : p.clientParts.length < p'.clientParts.length := by simp [hparts]
    rw [decide_eq_true hlt, hread, hparts]
    exact h.leave d
  · have hge : ¬ p.clientParts.length < p'.clientParts.length := by simp [hparts]
    rw [decide_eq_false hge, hparts]
    exact h.take he hread

theorem meets_split (hp : start.Resolves p.read)
    (h : Split (c.translationFrom? sources start) start verdicts p.read p.clientParts)
    (hmeets : ds.foldlM (c.meet sources) p = .ok p') :
    Split (c.translationFrom? sources start) start (verdicts ++ c.verdicts sources p ds) p'.read p'.clientParts := by
  induction ds generalizing p verdicts with
  | nil =>
    cases hmeets
    simpa [Compiler.verdicts] using h
  | cons d ds ih =>
    obtain ⟨next, hnext, hmeets⟩ := Run.bind_eq_ok.1 ((List.foldlM_cons ..).symm.trans hmeets)
    have hstep := ih (meet_resolves hp hnext) (meet_splits hp h hnext) hmeets
    simpa [Compiler.verdicts, hnext] using hstep

/-- Each demand of a run has its verdict. -/
theorem verdicts_demands (h : ds.foldlM (c.meet sources) p = .ok p') :
    (c.verdicts sources p ds).map Prod.fst = ds := by
  induction ds generalizing p with
  | nil => rfl
  | cons d ds ih =>
    obtain ⟨next, hnext, h⟩ := Run.bind_eq_ok.1 ((List.foldlM_cons ..).symm.trans h)
    simp only [Compiler.verdicts, hnext, List.map_cons, ih h]

/-! ## The selector -/

/-- The client parts that a selector may become. -/
def selectorParts : Expr → List ClientPart
  | .construct _ members => members.map fun m => ⟨.projectionMember m.1, m.2⟩
  | e => [⟨.projection, e⟩]

/-- A member of a constructed object that is left to the client is left as it stands. -/
theorem selectMember_parts (c : Compiler) (sources : SourceTable) (typeName : String) (p : Progress)
    (m : String × Expr) :
    (c.selectMember sources typeName p m).clientParts = p.clientParts ∨
      (c.selectMember sources typeName p m).clientParts = p.clientParts ++ [⟨.projectionMember m.1, m.2⟩] := by
  unfold selectMember
  split
  · exact Or.inr rfl
  · split
    · exact Or.inl rfl
    · exact Or.inr rfl

theorem selectMembers_parts (typeName : String) (members : List (String × Expr)) (p : Progress) :
    ∃ parts, (members.foldl (c.selectMember sources typeName) p).clientParts = p.clientParts ++ parts ∧
      parts.Sublist (members.map fun m => ⟨.projectionMember m.1, m.2⟩) := by
  induction members generalizing p with
  | nil => exact ⟨[], by simp, List.Sublist.refl []⟩
  | cons m members ih =>
    obtain ⟨parts, hparts, hsub⟩ := ih (c.selectMember sources typeName p m)
    rcases selectMember_parts c sources typeName p m with hm | hm
    · exact ⟨parts, by rw [List.foldl_cons, hparts, hm], hsub.cons _⟩
    · refine ⟨⟨.projectionMember m.1, m.2⟩ :: parts, ?_, hsub.cons_cons _⟩
      rw [List.foldl_cons, hparts, hm, List.append_assoc]
      rfl

/-- What a selector leaves to the client is its own expression, or members of the object that it constructs in their
order. -/
theorem select_parts {selector : Expr} (h : c.select sources p selector = .ok p') :
    ∃ parts, p'.clientParts = p.clientParts ++ parts ∧ parts.Sublist (selectorParts selector) := by
  unfold select at h
  split at h
  · rename_i id type
    split at h
    · cases h
    · split at h
      · cases h
        exact ⟨[⟨.projection, .source id type⟩], rfl, List.Sublist.refl _⟩
      · cases h
        exact ⟨[], by simp, List.nil_sublist _⟩
  · rename_i typeName members
    cases h
    exact selectMembers_parts typeName members p
  · rename_i hconstruct
    split at h
    · cases h
      exact ⟨[], by simp, List.nil_sublist _⟩
    · cases h
      refine ⟨[⟨.projection, selector⟩], rfl, ?_⟩
      unfold selectorParts
      split
      · exact absurd rfl (hconstruct _ _)
      · exact List.Sublist.refl _

/-! ## Compiled queries -/

variable {q : Query} {plan : Plan} {compiled : CompiledQuery}

/-- The stages of a compilation: the plan, the finished read and its text. -/
theorem compile_stages (h : c.compile q = .ok compiled) :
    ∃ plan read, c.plan q = .ok plan ∧ c.finish plan.read = .ok read ∧
      c.generator.render read = .ok ⟨compiled.text, compiled.parameters⟩ ∧
      compiled.clientParts = plan.clientParts := by
  obtain ⟨-, -, h⟩ := Run.bind_eq_ok.1 h
  obtain ⟨plan, hplan, h⟩ := Run.bind_eq_ok.1 h
  obtain ⟨read, hread, h⟩ := Run.bind_eq_ok.1 h
  obtain ⟨rendered, hrendered, h⟩ := Run.bind_eq_ok.1 h
  cases h
  exact ⟨plan, read, hplan, Run.mapError_eq_ok.1 hread, Run.mapError_eq_ok.1 hrendered, rfl⟩

theorem compile_columnTypes {plan : Plan} {read : Read} (h : c.compile q = .ok compiled) (hplan : c.plan q = .ok plan)
    (hfinish : c.finish plan.read = .ok read) : compiled.columnTypes = read.columnTypes := by
  obtain ⟨-, -, h⟩ := Run.bind_eq_ok.1 h
  obtain ⟨plan', hplan', h⟩ := Run.bind_eq_ok.1 h
  cases hplan.symm.trans hplan'
  obtain ⟨read', hread', h⟩ := Run.bind_eq_ok.1 h
  cases hfinish.symm.trans (Run.mapError_eq_ok.1 hread')
  obtain ⟨rendered, -, h⟩ := Run.bind_eq_ok.1 h
  cases h
  rfl

theorem finish_no_passes {r r' : Read} (hpasses : c.passes = []) (h : c.finish r = .ok r') : r' = r := by
  obtain ⟨-, -, h⟩ := Run.bind_eq_ok.1 h
  rw [hpasses] at h
  cases h
  rfl

/-- A run of demands passes through a state before each of them. A demand for which a client part is added leaves the
read of that state as it is. -/
theorem meets_at {before after : List Demand} (h : (before ++ d :: after).foldlM (c.meet sources) p = .ok p') :
    ∃ m m', before.foldlM (c.meet sources) p = .ok m ∧ c.meet sources m d = .ok m' ∧
      (m.clientParts.length < m'.clientParts.length → m'.read = m.read) := by
  obtain ⟨m, hm, h⟩ := Run.foldlM_append_eq_ok.1 h
  obtain ⟨m', hm', -⟩ := Run.bind_eq_ok.1 ((List.foldlM_cons ..).symm.trans h)
  refine ⟨m, m', hm, hm', fun hlt => ?_⟩
  obtain ⟨hread, -⟩ | ⟨e, -, -, hparts⟩ := Progress.meet_cases hm'
  · exact hread
  · exact absurd hlt (by simp [hparts])

/-- The read that is written for a compiled query has the patterns of the layout. The demands of the query, one after
the other, are taken into it in their translations or left to the client as they stand; what the selector leaves comes
behind them. -/
theorem compile_splits (h : c.compile q = .ok compiled) :
    ∃ l plan read,
      Layout.ofQuery c.schema c.settings.binding.defaultAliasPrefix q = .ok l ∧ c.plan q = .ok plan ∧
      c.finish plan.read = .ok read ∧ (c.passes = [] → read = plan.read) ∧
      c.generator.render read = .ok ⟨compiled.text, compiled.parameters⟩ ∧
      (∀ clause ∈ l.read.clauses, clause.predicate? = none) ∧
      let demands := q.clauses.flatMap QueryClause.demands
      let verdicts := c.verdicts l.sources { read := l.read } demands
      verdicts.map Prod.fst = demands ∧
      (∃ parts selected, Split (c.translation? q) l.read verdicts plan.read parts ∧
        compiled.clientParts = parts ++ selected ∧ selected.Sublist (selectorParts q.selector)) ∧
      ∀ before d after, demands = before ++ d :: after →
        ∃ p p', before.foldlM (c.meet l.sources) { read := l.read } = .ok p ∧ c.meet l.sources p d = .ok p' ∧
          (p.clientParts.length < p'.clientParts.length → p'.read = p.read) := by
  obtain ⟨plan, read, hplan, hfinish, hrender, hclient⟩ := compile_stages h
  obtain ⟨l, p, selected, hl, hp, hselected, hreturned, hparts⟩ := plan_stages hplan
  have hwf := Layout.ofQuery_wf hl
  have hrun := meet_all_demands hp
  refine ⟨l, plan, read, hl, hplan, hfinish, fun hpasses => finish_no_passes hpasses hfinish, hrender, ?_,
    verdicts_demands hrun, ?_, fun before d after hdemands => meets_at (hdemands ▸ hrun)⟩
  · intro clause hclause
    obtain ⟨source, pattern, rfl, -⟩ := hwf.clauses clause hclause
    rfl
  · obtain ⟨parts, hselect, hsub⟩ := select_parts hselected
    have hsplit := meets_split (.refl l.read) (.layout hwf) hrun
    rw [List.nil_append, ← translation_layout hl] at hsplit
    have hrows : p.read.SameRows plan.read := (select_selected hselected).read.trans (returnEntity_sameRows hreturned)
    exact ⟨p.clientParts, parts, hsplit.congr hrows, by rw [hclient, hparts, hselect], hsub⟩

/-! ## A query for warehouses -/

def warehouseSize : Expr :=
  Source.member ⟨⟨0⟩, "w", .entitySet "Warehouse"⟩ "Size" .int32

/-- A condition that only the client knows, between conditions and orderings. -/
def mixedWarehouses : Query :=
  warehouses [.filter (sizeIs 1), .orderBy [⟨warehouseSize, true⟩], .filter pageSize, .filter (sizeIs 2),
    .orderBy [⟨warehouseSize, false⟩], .skip (rowCount 3)]

/-- The ordering and the skip behind the client's condition are the client's. The conditions around it are not, and they
stand joined at the pattern. -/
theorem compile_splits_of_mixed :
    ∃ compiled plan, warehouseCompiler.compile mixedWarehouses = .ok compiled ∧
      warehouseCompiler.plan mixedWarehouses = .ok plan ∧
      plan.read.clauses = [.pattern
        { pattern := { start := ⟨some "w", ["Warehouse"]⟩ }
          predicate := some (.binary .andAlso (storedSizeIs 1) (storedSizeIs 2) {})
          optional := false
          source := some ⟨0⟩ }] ∧
      plan.read.orderings.map SortTerm.descending = [true] ∧ plan.read.skip = none ∧
      compiled.clientParts.take 3 = [⟨.predicate, pageSize⟩, ⟨.ordering, warehouseSize⟩, ⟨.skip, rowCount 3⟩] := by
  have hok : (warehouseCompiler.compile mixedWarehouses).isOk = true := by rfl
  cases hcompiled : warehouseCompiler.compile mixedWarehouses with
  | error e => rw [hcompiled] at hok; cases hok
  | ok compiled =>
    obtain ⟨l, plan, read, hl, hplan, -, -, -, -, -, ⟨parts, selected, hsplit, hclient, -⟩, -⟩ :=
      compile_splits hcompiled
    have hl' : Layout.ofQuery warehouseCompiler.schema "s" mixedWarehouses = .ok _ := rfl
    cases hl.symm.trans hl'
    refine ⟨compiled, plan, rfl, hplan, ?_, ?_, ?_, ?_⟩
    · obtain ⟨es, hes, others, last, hstart, hclauses⟩ := hsplit.conditions
      have hes' : es = [storedSizeIs 1, storedSizeIs 2] := (List.map_inj_right fun _ _ => Option.some.inj).1 hes
      -- The layout of one source has one pattern, which is the last.
      have hpattern : [] ++ [_] = others ++ [.pattern last] := hstart
      obtain ⟨hothers, hlast⟩ := List.append_inj' hpattern rfl
      cases hothers
      cases hlast
      rw [hclauses, hes']
      rfl
    · have horderings := congrArg (List.map Prod.snd) hsplit.orderings
      rw [List.map_map] at horderings
      exact horderings
    · exact Option.map_eq_none_iff.1 hsplit.skip
    · rw [hclient, hsplit.parts]
      rfl

end Compiler

end GraphQuery
