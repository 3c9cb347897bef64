import GraphQuery.Proofs.Indentation
import GraphQuery.Proofs.Lines
import GraphQuery.Proofs.Orderings

/-!
# Directions of orderings

Two queries that differ in the direction of one term of an ordering are compiled side by side. Binding looks at terms
only to add them behind the others, so it commutes with terms in front (`Compiler.meet_orderedFirstBy`), and what
follows the term is the same for both queries. If the term is the server's, the two reads differ in its direction, and
so the text of one has the word for a descending order where the other has nothing. If the term is the client's, its
client part says nothing about the direction: the queries cannot be told apart by what they are compiled to.
-/

namespace GraphQuery

/-! ## Terms in front -/

/-- A read with terms in front of its orderings. -/
def Read.orderedFirstBy (terms : List SortTerm) (r : Read) : Read :=
  { r with orderings := terms ++ r.orderings }

def Progress.orderedFirstBy (terms : List SortTerm) (p : Progress) : Progress :=
  { p with read := p.read.orderedFirstBy terms }

def Plan.orderedFirstBy (terms : List SortTerm) (plan : Plan) : Plan :=
  { plan with read := plan.read.orderedFirstBy terms }

namespace Read

variable (terms : List SortTerm) (r : Read)

theorem orderedFirstBy_resolves : r.Resolves (r.orderedFirstBy terms) :=
  ⟨rfl, rfl, rfl⟩

theorem addSortTerm_orderedFirstBy (term : SortTerm) :
    (r.orderedFirstBy terms).addSortTerm term = (r.addSortTerm term).orderedFirstBy terms :=
  congrArg (fun orderings => { r with orderings }) (List.append_assoc terms r.orderings [term])

theorem restrict_orderedFirstBy (condition : Expr) :
    (r.orderedFirstBy terms).restrict? condition = (r.restrict? condition).map (orderedFirstBy terms) := by
  rw [restrict?, restrict?, Option.map_map]
  rfl

@[simp] theorem orderedFirstBy_items : (r.orderedFirstBy terms).items = r.items :=
  rfl

theorem addItem_orderedFirstBy (e : Expr) (resetStar : Bool) :
    (r.orderedFirstBy terms).addItem e resetStar =
      ((r.addItem e resetStar).1, (r.addItem e resetStar).2.orderedFirstBy terms) := by
  cases hfind : r.items.findIdx? fun item => item.returns e.withoutWidening with
  | none =>
    simp only [addItem, orderedFirstBy_items, hfind]
    rfl
  | some index => simp only [addItem, orderedFirstBy_items, hfind]

theorem nameMember_orderedFirstBy (key : MemberName) (e : Expr) :
    ((r.orderedFirstBy terms).nameMember key e).2 = (r.nameMember key e).2.orderedFirstBy terms := by
  cases hfind : r.items.findIdx? fun item => item == e with
  | none =>
    simp only [nameMember, nameUniquely, orderedFirstBy_items, hfind]
    rfl
  | some index =>
    simp only [nameMember, nameUniquely, orderedFirstBy_items, hfind]
    rfl

theorem columnTypes_orderedFirstBy : (r.orderedFirstBy terms).columnTypes = r.columnTypes := by
  cases r
  rfl

end Read

namespace Progress

variable (terms : List SortTerm) (p : Progress)

@[simp] theorem orderedFirstBy_read : (p.orderedFirstBy terms).read = p.read.orderedFirstBy terms :=
  rfl

@[simp] theorem orderedFirstBy_clientRows : (p.orderedFirstBy terms).clientRows = p.clientRows :=
  rfl

@[simp] theorem orderedFirstBy_limited : (p.orderedFirstBy terms).limited = p.limited :=
  rfl

@[simp] theorem orderedFirstBy_needsEntity : (p.orderedFirstBy terms).needsEntity = p.needsEntity :=
  rfl

theorem filter_orderedFirstBy (kind : PartKind) (e : Expr) (lowered : Option Expr) :
    (p.orderedFirstBy terms).filter kind e lowered = (p.filter kind e lowered).map (orderedFirstBy terms) := by
  unfold filter
  rw [orderedFirstBy_limited]
  split
  · rfl
  · cases lowered with
    | none => rfl
    | some condition =>
      simp only [orderedFirstBy_read, Read.restrict_orderedFirstBy]
      cases p.read.restrict? condition with
      | none => rfl
      | some read => rfl

theorem order_orderedFirstBy (term : SortTerm) (lowered : Option Expr) :
    (p.orderedFirstBy terms).order term lowered = (p.order term lowered).orderedFirstBy terms := by
  unfold order
  rw [orderedFirstBy_clientRows, orderedFirstBy_limited]
  split
  · rfl
  · cases lowered with
    | none => rfl
    | some e =>
      simp only [orderedFirstBy_read, Read.addSortTerm_orderedFirstBy]
      rfl

theorem take_orderedFirstBy (count : Expr) (lowered : Option Expr) :
    (p.orderedFirstBy terms).take count lowered = (p.take count lowered).orderedFirstBy terms := by
  unfold take
  rw [orderedFirstBy_clientRows]
  split
  · rfl
  · cases lowered with
    | none => rfl
    | some e => rfl

theorem skip_orderedFirstBy (count : Expr) (lowered : Option Expr) :
    (p.orderedFirstBy terms).skip count lowered = (p.skip count lowered).orderedFirstBy terms := by
  unfold skip
  rw [orderedFirstBy_clientRows, orderedFirstBy_limited]
  split
  · rfl
  · cases lowered with
    | none => rfl
    | some e => rfl

theorem meet_orderedFirstBy (lowered : Option Expr) (d : Demand) :
    (p.orderedFirstBy terms).meet lowered d = (p.meet lowered d).map (orderedFirstBy terms) := by
  cases d with
  | condition joins e => exact p.filter_orderedFirstBy terms _ e lowered
  | order term => exact congrArg Except.ok (p.order_orderedFirstBy terms term lowered)
  | limit count => exact congrArg Except.ok (p.take_orderedFirstBy terms count lowered)
  | skip count => exact congrArg Except.ok (p.skip_orderedFirstBy terms count lowered)

end Progress

namespace Compiler

variable {c : Compiler} {sources : SourceTable} (terms : List SortTerm) (p : Progress)

theorem lower_orderedFirstBy (mode : Mode) (e : Expr) :
    c.lower? sources (p.orderedFirstBy terms) mode e = c.lower? sources p mode e :=
  lower_resolves (p.read.orderedFirstBy_resolves terms) mode e

/-- To meet a demand takes no notice of terms in front. -/
theorem meet_orderedFirstBy (d : Demand) :
    c.meet sources (p.orderedFirstBy terms) d = (c.meet sources p d).map (Progress.orderedFirstBy terms) := by
  rw [meet, meet, lower_orderedFirstBy, Progress.meet_orderedFirstBy]

theorem selectMember_orderedFirstBy (typeName : String) (m : String × Expr) :
    c.selectMember sources typeName (p.orderedFirstBy terms) m =
      (c.selectMember sources typeName p m).orderedFirstBy terms := by
  unfold selectMember
  rw [lower_orderedFirstBy]
  split
  · rfl
  · cases c.lower? sources p .result m.2 with
    | none => rfl
    | some bound =>
      simp only [Progress.orderedFirstBy_read, Read.addItem_orderedFirstBy, Read.nameMember_orderedFirstBy]
      rfl

theorem returnProperty_orderedFirstBy (entity : Entity) (id : SourceId) (r : Read) (property : Property) :
    returnProperty entity id (r.orderedFirstBy terms) property =
      (returnProperty entity id r property).orderedFirstBy terms := by
  have hstored : (r.orderedFirstBy terms).storedProperty? ⟨entity.name, property⟩ id =
      r.storedProperty? ⟨entity.name, property⟩ id := by
    rw [Read.storedProperty?, Read.storedProperty?, (r.orderedFirstBy_resolves terms).nodeOf]
  unfold returnProperty
  rw [hstored]
  cases r.storedProperty? ⟨entity.name, property⟩ id with
  | none => rfl
  | some bound => exact congrArg Prod.snd (r.addItem_orderedFirstBy terms bound true)

/-- A selector takes no notice of terms either. -/
theorem select_orderedFirstBy (selector : Expr) :
    c.select sources (p.orderedFirstBy terms) selector =
      (c.select sources p selector).map (Progress.orderedFirstBy terms) := by
  have hlowered : ∀ e : Expr, (∀ id type, e ≠ .source id type) → (∀ name members, e ≠ .construct name members) →
      c.select sources (p.orderedFirstBy terms) e = (c.select sources p e).map (Progress.orderedFirstBy terms) := by
    intro e hsource hconstruct
    rw [select, select, lower_orderedFirstBy]
    cases c.lower? sources p .result e with
    | none => rfl
    | some bound =>
      simp only [Progress.orderedFirstBy_read, Read.addItem_orderedFirstBy]
      rfl
    all_goals assumption
  cases selector with
  | source id type =>
    rw [select, select]
    cases Table.find? id sources with
    | none => rfl
    | some entry =>
      simp only
      cases c.schema.entityOf? type with
      | none => rfl
      | some entity =>
        simp only [Progress.orderedFirstBy_read]
        rw [List.foldl_hom (Read.orderedFirstBy terms) fun r property =>
          (returnProperty_orderedFirstBy terms entity id r property)]
        rfl
  | construct name members =>
    rw [select, select, List.foldl_hom (Progress.orderedFirstBy terms) fun p m =>
      (selectMember_orderedFirstBy terms p name m)]
    rfl
  | _ => exact hlowered _ (fun _ _ => by rintro ⟨⟩) (fun _ _ => by rintro ⟨⟩)

theorem returnEntity_orderedFirstBy (main : SourceId) :
    returnEntity main (p.orderedFirstBy terms) = (returnEntity main p).map (Read.orderedFirstBy terms) := by
  unfold returnEntity
  rw [Progress.orderedFirstBy_needsEntity, Progress.orderedFirstBy_read,
    (p.read.orderedFirstBy_resolves terms).nodeOf main]
  split
  · cases p.read.nodeOf? main with
    | none => rfl
    | some node => rfl
  · rfl

end Compiler

/-! ## Two plans -/

/-- A query with a term of an ordering whose direction is left open. -/
structure UndirectedQuery where
  main : Source
  before : List QueryClause
  /-- The terms in front of the term, in the same clause. -/
  first : List SortTerm
  expr : Expr
  /-- The terms behind the term, in the same clause. -/
  last : List SortTerm
  after : List QueryClause
  selector : Expr

namespace UndirectedQuery

variable (u : UndirectedQuery)

def directed (descending : Bool) : Query where
  main := u.main
  clauses := u.before ++ .orderBy (u.first ++ ⟨u.expr, descending⟩ :: u.last) :: u.after
  selector := u.selector

/-- The demands in front of the term. -/
def earlier : List Demand :=
  u.before.flatMap QueryClause.demands ++ u.first.map .order

/-- The demands behind the term. -/
def later : List Demand :=
  u.last.map .order ++ u.after.flatMap QueryClause.demands

theorem demands_directed (descending : Bool) :
    (u.directed descending).clauses.flatMap QueryClause.demands =
      u.earlier ++ .order ⟨u.expr, descending⟩ :: u.later := by
  simp [directed, earlier, later, QueryClause.demands]

theorem layout_directed (schema : Schema) (aliasPrefix : String) (descending : Bool) :
    Layout.ofQuery schema aliasPrefix (u.directed descending) =
      Layout.ofQuery schema aliasPrefix (u.directed false) := by
  simp only [Layout.ofQuery, directed, List.foldlM_append, List.foldlM_cons, Layout.addClause]

/-- The form in which an expression of the query runs on the server, whatever the direction of the term. -/
def translation? (u : UndirectedQuery) (c : Compiler) : Expr → Option Expr :=
  c.translation? (u.directed false)

/-- Whether the server orders by the term: it has a translation, and all demands in front let it through. -/
def isServed (u : UndirectedQuery) (c : Compiler) : Bool :=
  u.earlier.all (Demand.letsOrder (u.translation? c)) && (u.translation? c u.expr).isSome

end UndirectedQuery

namespace Progress

/-- The plan in progress without its orderings. -/
def unordered (p : Progress) : Progress :=
  { p with read := { p.read with orderings := [] } }

/-- The direction of a term that is the client's does not matter. -/
theorem order_left {p : Progress} {e : Expr} {lowered : Option Expr}
    (h : p.ordersAtClient = true ∨ lowered = none) (descending : Bool) :
    p.order ⟨e, descending⟩ lowered = p.order ⟨e, false⟩ lowered := by
  unfold order
  cases hmark : p.clientRows || p.limited with
  | true => rfl
  | false =>
    cases lowered with
    | none => rfl
    | some e' => exact absurd (h.resolve_right (Option.some_ne_none e')) (by simp [ordersAtClient, hmark])

/-- A term that is the server's is added behind the terms that are there. -/
theorem order_served {p : Progress} {e' : Expr} (h : p.ordersAtClient = false) (e : Expr) (descending : Bool) :
    p.order ⟨e, descending⟩ (some e') =
      p.unordered.orderedFirstBy (p.read.orderings ++ [⟨e', descending⟩]) := by
  have hmark : (p.clientRows || p.limited) = false := h
  simp only [order, hmark, Bool.false_eq_true, if_false, unordered, orderedFirstBy, Read.orderedFirstBy,
    Read.addSortTerm, List.append_nil]

end Progress

namespace Compiler

variable {c : Compiler} {u : UndirectedQuery}

/-- The stages of the plan of a directed query. Only the step that orders by the term depends on the direction. -/
theorem plan_directed {plan : Plan} {descending : Bool} (h : c.plan (u.directed descending) = .ok plan) :
    ∃ l p bound selected, Layout.ofQuery c.schema c.settings.binding.defaultAliasPrefix (u.directed false) = .ok l ∧
      u.earlier.foldlM (c.meet l.sources) { read := l.read } = .ok p ∧
      p.ordersAtClient = !u.earlier.all (Demand.letsOrder (u.translation? c)) ∧
      u.later.foldlM (c.meet l.sources) (p.order ⟨u.expr, descending⟩ (u.translation? c u.expr)) = .ok bound ∧
      c.select l.sources bound u.selector = .ok selected ∧ returnEntity u.main.id selected = .ok plan.read ∧
      plan.clientParts = selected.clientParts := by
  obtain ⟨l, bound, selected, hl, hbound, hselected, hreturned, hparts⟩ := plan_stages h
  rw [u.layout_directed] at hl
  have htranslation : u.translation? c = c.translationFrom? l.sources l.read := translation_layout hl
  have hrun := meet_all_demands hbound
  rw [u.demands_directed] at hrun
  obtain ⟨p, hp, hrun⟩ := Run.foldlM_append_eq_ok.1 hrun
  obtain ⟨next, hnext, hrun⟩ := Run.bind_eq_ok.1 ((List.foldlM_cons ..).symm.trans hrun)
  have hresolves : l.read.Resolves p.read :=
    Run.foldlM_keeps (fun p : Progress => l.read.Resolves p.read) (fun _ _ _ _ h hmeet => meet_resolves h hmeet)
      (.refl l.read) hp
  rw [meet_eq hresolves, ← htranslation] at hnext
  cases hnext
  have hclient := ordersAtClient_run (.refl l.read) hp
  rw [← htranslation] at hclient
  exact ⟨l, p, bound, selected, hl, hp, hclient, hrun, hselected, hreturned, hparts⟩

/-- The plans of a query and of the one with a term in the other direction. When the term is the server's, they differ
in its direction alone, and otherwise they do not differ. -/
theorem plan_directions {ascending descending : Plan} (hasc : c.plan (u.directed false) = .ok ascending)
    (hdesc : c.plan (u.directed true) = .ok descending) :
    (u.isServed c = false → descending = ascending) ∧
    (u.isServed c = true → ∃ (plan : Plan) (before : List SortTerm) (e : Expr), u.translation? c u.expr = some e ∧
      ascending = plan.orderedFirstBy (before ++ [⟨e, false⟩]) ∧
      descending = plan.orderedFirstBy (before ++ [⟨e, true⟩])) := by
  obtain ⟨l, p, bound, selected, hl, hp, hclient, hbound, hselected, hreturned, hparts⟩ := plan_directed hasc
  obtain ⟨l', p', bound', selected', hl', hp', -, hbound', hselected', hreturned', hparts'⟩ := plan_directed hdesc
  cases hl.symm.trans hl'
  cases hp.symm.trans hp'
  obtain ⟨read, parts⟩ := ascending
  obtain ⟨read', parts'⟩ := descending
  cases hparts
  cases hparts'
  refine ⟨fun hserved => ?_, fun hserved => ?_⟩
  · have hleft : p.ordersAtClient = true ∨ u.translation? c u.expr = none := by
      rw [UndirectedQuery.isServed, Bool.and_eq_false_iff] at hserved
      exact hserved.imp (fun hall => by rw [hclient, hall]; rfl) (fun hnone => by simpa using hnone)
    rw [Progress.order_left hleft] at hbound'
    cases hbound.symm.trans hbound'
    cases hselected.symm.trans hselected'
    cases hreturned.symm.trans hreturned'
    rfl
  · rw [UndirectedQuery.isServed, Bool.and_eq_true, Option.isSome_iff_exists] at hserved
    obtain ⟨hall, e, he⟩ := hserved
    rw [hall] at hclient
    rw [he, Progress.order_served hclient, Run.foldlM_map fun p d => meet_orderedFirstBy _ p d] at hbound hbound'
    -- From here on both runs are the one without terms, with different terms put in front of it.
    obtain ⟨rest, hrest, rfl⟩ := Run.map_eq_ok.1 hbound
    obtain ⟨rest', hrest', rfl⟩ := Run.map_eq_ok.1 hbound'
    cases hrest.symm.trans hrest'
    rw [select_orderedFirstBy] at hselected hselected'
    obtain ⟨chosen, hchosen, rfl⟩ := Run.map_eq_ok.1 hselected
    obtain ⟨chosen', hchosen', rfl⟩ := Run.map_eq_ok.1 hselected'
    cases hchosen.symm.trans hchosen'
    rw [returnEntity_orderedFirstBy] at hreturned hreturned'
    obtain ⟨whole, hwhole, rfl⟩ := Run.map_eq_ok.1 hreturned
    obtain ⟨whole', hwhole', rfl⟩ := Run.map_eq_ok.1 hreturned'
    cases hwhole.symm.trans hwhole'
    exact ⟨⟨whole, chosen.clientParts⟩, p.read.orderings, e, he, rfl, rfl⟩

end Compiler

/-! ## The word for a descending order -/

namespace Generator

variable {g : Generator} {ps : List Piece}

/-- The last of some terms is written in descending order like in ascending order, with a word behind. -/
theorem sortTerms_last (terms : List SortTerm) (e : Expr) :
    g.sortTerms (terms ++ [⟨e, true⟩]) = (g.sortTerms (terms ++ [⟨e, false⟩])).map (· ++ [.text " DESC"]) := by
  have hone : g.sortTerm ⟨e, true⟩ = (g.sortTerm ⟨e, false⟩).map (· ++ [.text " DESC"]) := by
    unfold sortTerm
    cases g.expr none e with
    | error cause => rfl
    | ok ps => rfl
  cases terms with
  | nil => exact hone
  | cons term terms =>
    have hsplit : ∀ last, g.sortTerms (term :: terms ++ [last]) =
        g.sortTerms (term :: terms) >>= fun first => g.sortTerms [last] >>= fun others =>
          pure (first ++ .text ", " :: others) :=
      fun last => g.sortTerms_separated.append (List.cons_ne_nil term terms) (List.cons_ne_nil last [])
    rw [hsplit, hsplit, g.sortTerms_separated.single, g.sortTerms_separated.single, hone]
    cases g.sortTerms (term :: terms) with
    | error cause => rfl
    | ok first =>
      cases g.sortTerm ⟨e, false⟩ with
      | error cause => rfl
      | ok last => exact congrArg Except.ok (by simp)

/-- What is written behind a term does not depend on its direction. -/
theorem sortTerms_directions {before after : List SortTerm} {e : Expr}
    (h : g.sortTerms (before ++ [⟨e, false⟩] ++ after) = .ok ps) :
    ∃ front back, Piece.KeepsInLine front ∧ ps = front ++ back ∧
      g.sortTerms (before ++ [⟨e, true⟩] ++ after) = .ok (front ++ .text " DESC" :: back) := by
  cases after with
  | nil =>
    rw [List.append_nil] at h
    refine ⟨ps, [], (sortTerms_spans h).keepsInLine, (List.append_nil ps).symm, ?_⟩
    rw [List.append_nil, sortTerms_last, h]
    rfl
  | cons next after =>
    have hsplit : ∀ last, g.sortTerms (before ++ [last] ++ next :: after) =
        g.sortTerms (before ++ [last]) >>= fun first => g.sortTerms (next :: after) >>= fun others =>
          pure (first ++ .text ", " :: others) :=
      fun last => g.sortTerms_separated.append (by simp) (List.cons_ne_nil next after)
    rw [hsplit] at h
    obtain ⟨front, hfront, h⟩ := Run.bind_eq_ok.1 h
    obtain ⟨others, hothers, h⟩ := Run.bind_eq_ok.1 h
    cases h
    refine ⟨front, .text ", " :: others, (sortTerms_spans hfront).keepsInLine, rfl, ?_⟩
    rw [hsplit, sortTerms_last, hfront, hothers]
    exact congrArg Except.ok (by simp)

/-- Two reads that differ in the direction of a term have the same pieces, except for one word behind the term. -/
theorem read_directions {r : Read} {before : List SortTerm} {e : Expr}
    (h : g.read (r.orderedFirstBy (before ++ [⟨e, false⟩])) = .ok ps) :
    ∃ front back, (∀ start, front.foldl Piece.lineStart start = false) ∧ ps = front ++ back ∧
      g.read (r.orderedFirstBy (before ++ [⟨e, true⟩])) = .ok (front ++ .text " DESC" :: back) := by
  have hterms : ∀ descending : Bool,
      (r.orderedFirstBy (before ++ [⟨e, descending⟩])).orderings.isEmpty = false := by
    intro descending
    simp [Read.orderedFirstBy]
  obtain ⟨opening, hopening, h⟩ := Run.bind_eq_ok.1 h
  obtain ⟨returned, hreturned, h⟩ := Run.bind_eq_ok.1 h
  obtain ⟨orderings, horderings, h⟩ := Run.bind_eq_ok.1 h
  obtain ⟨skip, hskip, h⟩ := Run.bind_eq_ok.1 h
  obtain ⟨limit, hlimit, h⟩ := Run.bind_eq_ok.1 h
  obtain ⟨front, back, hline, rfl, hdesc⟩ := sortTerms_directions horderings
  simp only [hterms, Bool.false_eq_true, if_false] at h
  cases h
  refine ⟨opening ++ .text "RETURN " :: (returned ++ .text " ORDER BY " :: front), back ++ skip ++ limit, ?_, ?_, ?_⟩
  · -- The keyword in front of the terms is no empty text, so the terms are begun within a line.
    intro start
    rw [List.foldl_append, List.foldl_cons, List.foldl_append, List.foldl_cons]
    exact hline
  · simp
  · refine Run.bind_eq_ok.2 ⟨opening, hopening, Run.bind_eq_ok.2 ⟨returned, hreturned,
      Run.bind_eq_ok.2 ⟨_, hdesc, Run.bind_eq_ok.2 ⟨skip, hskip, Run.bind_eq_ok.2 ⟨limit, hlimit, ?_⟩⟩⟩⟩⟩
    simp only [hterms, Bool.false_eq_true, if_false]
    exact congrArg Except.ok (by simp)

end Generator

theorem Generator.render_directions {g : Generator} {r : Read} {before : List SortTerm} {e : Expr}
    {ascending descending : Rendered} (hasc : g.render (r.orderedFirstBy (before ++ [⟨e, false⟩])) = .ok ascending)
    (hdesc : g.render (r.orderedFirstBy (before ++ [⟨e, true⟩])) = .ok descending) :
    descending.parameters = ascending.parameters ∧ ∃ front back, ascending.text = front ++ back ∧
      descending.text = front ++ " DESC" ++ back := by
  obtain ⟨ps, hps, hasc⟩ := Run.bind_eq_ok.1 hasc
  cases hasc
  obtain ⟨front, back, hline, rfl, hread⟩ := read_directions hps
  obtain ⟨ps', hps', hdesc⟩ := Run.bind_eq_ok.1 hdesc
  cases hread.symm.trans hps'
  cases hdesc
  obtain ⟨text, text', htext, htext', hparameters⟩ :=
    g.start.writeAll_inserted g.settings.parameterPrefix " DESC" front back (hline _)
  exact ⟨hparameters, text, text', htext, htext'⟩

/-- Two compiled queries of which the second has one word more in its text, and no other difference. -/
structure CompiledQuery.DifferByWord (word : String) (a b : CompiledQuery) : Prop where
  parameters : b.parameters = a.parameters
  columnTypes : b.columnTypes = a.columnTypes
  clientParts : b.clientParts = a.clientParts
  text : ∃ front back, a.text = front ++ back ∧ b.text = front ++ word ++ back

theorem CompiledQuery.DifferByWord.ne {word : String} {a b : CompiledQuery} (h : a.DifferByWord word b)
    (hword : 0 < word.length) : a ≠ b := by
  rintro rfl
  obtain ⟨front, back, htext, htext'⟩ := h.text
  have hlength := congrArg String.length (htext.symm.trans htext')
  simp only [String.length_append] at hlength
  omega

namespace Compiler

variable {c : Compiler} {u : UndirectedQuery} {ascending descending : CompiledQuery}

/-- What a query is compiled to depends on its plan alone. -/
theorem compile_eq_of_plan {q q' : Query} (h : c.plan q = c.plan q') : c.compile q = c.compile q' := by
  rw [compile, compile, h]

/-- Plans that differ in the direction of a term are written alike, except for one word. -/
theorem compile_served {q q' : Query} {plan : Plan} {before : List SortTerm} {e : Expr} (hpasses : c.passes = [])
    (hplan : c.plan q = .ok (plan.orderedFirstBy (before ++ [⟨e, false⟩])))
    (hplan' : c.plan q' = .ok (plan.orderedFirstBy (before ++ [⟨e, true⟩])))
    (hasc : c.compile q = .ok ascending) (hdesc : c.compile q' = .ok descending) :
    ascending.DifferByWord " DESC" descending := by
  obtain ⟨plan₁, read₁, hplan₁, hfinish₁, hrender₁, hclient₁⟩ := compile_stages hasc
  obtain ⟨plan₂, read₂, hplan₂, hfinish₂, hrender₂, hclient₂⟩ := compile_stages hdesc
  have hcolumns₁ := compile_columnTypes hasc hplan₁ hfinish₁
  have hcolumns₂ := compile_columnTypes hdesc hplan₂ hfinish₂
  cases hplan.symm.trans hplan₁
  cases hplan'.symm.trans hplan₂
  cases finish_no_passes hpasses hfinish₁
  cases finish_no_passes hpasses hfinish₂
  obtain ⟨hparameters, htext⟩ := Generator.render_directions hrender₁ hrender₂
  refine ⟨hparameters, ?_, ?_, htext⟩
  · rw [hcolumns₁, hcolumns₂]
    exact (plan.read.columnTypes_orderedFirstBy _).trans (plan.read.columnTypes_orderedFirstBy _).symm
  · rw [hclient₁, hclient₂]
    rfl

/-- Two queries that differ in the direction of one term of an ordering. When the server orders by the term, their reads
differ in its direction alone, and the text of the descending query has one word that the text of the ascending one
lacks. When the client orders by the term, the queries are compiled to the same. -/
theorem compile_directions (hasc : c.compile (u.directed false) = .ok ascending)
    (hdesc : c.compile (u.directed true) = .ok descending) :
    (u.isServed c = false → ascending = descending) ∧
    (u.isServed c = true → ∃ (plan : Plan) (before : List SortTerm) (e : Expr), u.translation? c u.expr = some e ∧
      c.plan (u.directed false) = .ok (plan.orderedFirstBy (before ++ [⟨e, false⟩])) ∧
      c.plan (u.directed true) = .ok (plan.orderedFirstBy (before ++ [⟨e, true⟩]))) ∧
    (c.passes = [] → (u.isServed c = true → ascending.DifferByWord " DESC" descending) ∧
      (ascending = descending ↔ u.isServed c = false)) := by
  obtain ⟨plan, -, hplan, -⟩ := compile_stages hasc
  obtain ⟨plan', -, hplan', -⟩ := compile_stages hdesc
  obtain ⟨hleft, hserved⟩ := plan_directions hplan hplan'
  have hequal : u.isServed c = false → ascending = descending := by
    intro hclient
    rw [← hleft hclient] at hplan
    have hsame := compile_eq_of_plan (hplan.trans hplan'.symm)
    rw [hasc, hdesc] at hsame
    exact Except.ok.inj hsame
  refine ⟨hequal, ?_, fun hpasses => ?_⟩
  · intro hserver
    obtain ⟨rest, before, e, he, rfl, rfl⟩ := hserved hserver
    exact ⟨rest, before, e, he, hplan, hplan'⟩
  · have hdiffer : u.isServed c = true → ascending.DifferByWord " DESC" descending := by
      intro hserver
      obtain ⟨rest, before, e, -, rfl, rfl⟩ := hserved hserver
      exact compile_served hpasses hplan hplan' hasc hdesc
    refine ⟨hdiffer, fun hsame => ?_, hequal⟩
    by_contra hserver
    exact (hdiffer (Bool.not_eq_false _ ▸ hserver)).ne (by decide) hsame

/-- Warehouses in the order of a number that only the client knows, but first in the order of their sizes. -/
def sizesFirst : UndirectedQuery where
  main := ⟨⟨0⟩, "w", .entitySet "Warehouse"⟩
  before := [.filter (sizeIs 1), .skip (rowCount 2)]
  first := []
  expr := warehouseSize
  last := [⟨pageSize, true⟩]
  after := [.take (rowCount 3)]
  selector := warehouseSize

/-- The server orders by the sizes, and the text tells their direction. -/
theorem compile_directions_of_sizesFirst :
    ∃ ascending descending, warehouseCompiler.compile (sizesFirst.directed false) = .ok ascending ∧
      warehouseCompiler.compile (sizesFirst.directed true) = .ok descending ∧
      sizesFirst.isServed warehouseCompiler = true ∧ ascending.DifferByWord " DESC" descending ∧
      ascending ≠ descending := by
  have hserved : sizesFirst.isServed warehouseCompiler = true := by decide +kernel
  have hcompiled : ∀ descending,
      ∃ compiled, warehouseCompiler.compile (sizesFirst.directed descending) = .ok compiled := by
    intro descending
    cases descending with
    | false => exact ⟨_, rfl⟩
    | true => exact ⟨_, rfl⟩
  obtain ⟨ascending, hasc⟩ := hcompiled false
  obtain ⟨descending, hdesc⟩ := hcompiled true
  obtain ⟨-, -, hwritten⟩ := compile_directions hasc hdesc
  obtain ⟨hdiffer, hsame⟩ := hwritten rfl
  refine ⟨ascending, descending, hasc, hdesc, hserved, hdiffer hserved, fun heq => ?_⟩
  exact Bool.false_ne_true ((hsame.1 heq).symm.trans hserved)

/-- An ordering by a number that only the client knows is compiled to the same in both directions. -/
theorem client_ordering_undirected :
    ∃ compiled, warehouseCompiler.compile (warehouses [.orderBy [⟨pageSize, false⟩]]) = .ok compiled ∧
      warehouseCompiler.compile (warehouses [.orderBy [⟨pageSize, true⟩]]) = .ok compiled ∧
      compiled.clientParts = [⟨.ordering, pageSize⟩] :=
  ⟨_, rfl, rfl, rfl⟩

end Compiler

end GraphQuery
