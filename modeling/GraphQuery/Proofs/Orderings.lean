import GraphQuery.Proofs.ClientPaging
import Mathlib.Data.List.TakeWhile

/-!
# Orderings

Terms of orderings go to the server one by one. The first limit of a query, or the first demand without a translation,
ends that: all terms behind it are the client's, and all terms before it are the server's (`Compiler.compile_orderings`).
A skip that the server does ends nothing, so a term behind it is applied before it. Nor are the terms of one clause kept
together: when the first of them have translations and a later one has none, the server orders by the first and the
client by the rest (`Compiler.compile_orderBy`).
-/

namespace GraphQuery

namespace SortTerm

/-- A term as the server takes it. -/
def translate? (translation : Expr → Option Expr) (term : SortTerm) : Option SortTerm :=
  (translation term.expr).map fun e => ⟨e, term.descending⟩

/-- A term as it is left to the client. -/
def part (term : SortTerm) : ClientPart :=
  ⟨.ordering, term.expr⟩

end SortTerm

def ClientPart.isOrdering (part : ClientPart) : Bool :=
  part.kind == .ordering

/-- Whether terms behind a demand may still be the server's: the demand has a translation and is no limit. -/
def Demand.letsOrder (translation : Expr → Option Expr) (d : Demand) : Bool :=
  d.limit?.isNone && (translation d.expr).isSome

/-! ## What is added to the orderings -/

/-- A plan has the orderings of another and behind them, in translation, the terms `served`; its client parts that order
rows are those of the other and behind them the terms `left`. -/
structure Plan.Orders (translation : Expr → Option Expr) (served left : List SortTerm) (a b : Plan) : Prop where
  orderings : ∃ added, added.map some = served.map (SortTerm.translate? translation) ∧
    b.read.orderings = a.read.orderings ++ added
  parts : b.clientParts.filter ClientPart.isOrdering =
    a.clientParts.filter ClientPart.isOrdering ++ left.map SortTerm.part

namespace Plan.Orders

variable {translation : Expr → Option Expr} {served served' left left' : List SortTerm} {a b d : Plan}

theorem none (horderings : b.read.orderings = a.read.orderings)
    (hparts : b.clientParts.filter ClientPart.isOrdering = a.clientParts.filter ClientPart.isOrdering) :
    a.Orders translation [] [] b :=
  ⟨⟨[], rfl, by rw [horderings, List.append_nil]⟩, by rw [hparts, List.map_nil, List.append_nil]⟩

theorem trans (h : a.Orders translation served left b) (h' : b.Orders translation served' left' d) :
    a.Orders translation (served ++ served') (left ++ left') d := by
  obtain ⟨added, hadded, horderings⟩ := h.orderings
  obtain ⟨added', hadded', horderings'⟩ := h'.orderings
  refine ⟨⟨added ++ added', ?_, ?_⟩, ?_⟩
  · rw [List.map_append, List.map_append, hadded, hadded']
  · rw [horderings', horderings, List.append_assoc]
  · rw [h'.parts, h.parts, List.map_append, List.append_assoc]

end Plan.Orders

/-! ## Steps -/

namespace Progress

variable {translation : Expr → Option Expr} {p p' : Progress} {d : Demand} {lowered : Option Expr}

/-- What would be the plan if nothing followed. -/
def plan (p : Progress) : Plan :=
  ⟨p.read, p.clientParts⟩

/-- Whether terms of orderings are the client's from now on. -/
def ordersAtClient (p : Progress) : Bool :=
  p.clientRows || p.limited

/-- Once terms are the client's they stay so. Otherwise the next demand decides. -/
theorem meet_ordersAtClient (h : p.meet lowered d = .ok p') :
    p'.ordersAtClient = (p.ordersAtClient || !(d.limit?.isNone && lowered.isSome)) := by
  cases d with
  | condition joins e =>
    obtain ⟨hlimited | rfl, rfl⟩ | ⟨condition, read, -, rfl, -, rfl⟩ := filter_cases h
    · simp [ordersAtClient, leaveRows, leave, hlimited]
    · simp [ordersAtClient, leaveRows]
    · simp [ordersAtClient, Demand.limit?]
  | order term =>
    cases h
    obtain ⟨hmarks, hp⟩ | ⟨⟨-, -, rfl⟩, hp⟩ | ⟨e, ⟨-, -, rfl⟩, hp⟩ := p.order_cases term lowered
    · have hclient : p.ordersAtClient = true := by simpa [ordersAtClient] using hmarks
      rw [hp, hclient, Bool.true_or]
      exact hclient
    · rw [hp]
      simp [ordersAtClient, leaveRows]
    · rw [hp]
      simp [ordersAtClient, Demand.limit?]
  | limit count =>
    cases h
    obtain ⟨-, hleaves⟩ | ⟨-, e, -, hp⟩ := p.take_cases count lowered
    · simp [ordersAtClient, Demand.limit?, hleaves.clientRows]
    · simp [ordersAtClient, Demand.limit?, hp]
  | skip count =>
    cases h
    obtain ⟨hrows | hlimited | rfl, hleaves⟩ | ⟨-, -, e, rfl, hp⟩ := p.skip_cases count lowered
    · simp [ordersAtClient, hleaves.clientRows, hrows]
    · simp [ordersAtClient, hleaves.clientRows, hlimited]
    · simp [ordersAtClient, hleaves.clientRows]
    · rw [hp]
      simp [ordersAtClient, Demand.limit?]

/-- A demand that is no term of an ordering changes no orderings, whoever takes it. -/
theorem meet_no_term (hd : d.term? = none) (h : p.meet lowered d = .ok p') :
    p.plan.Orders translation [] [] p'.plan := by
  have hpart : d.part.isOrdering = false := by
    cases d with
    | condition joins e => cases joins <;> rfl
    | order term => cases hd
    | limit count => rfl
    | skip count => rfl
  obtain ⟨hread, hparts⟩ | ⟨e, -, hread, hparts⟩ := meet_cases h
  · refine .none (by rw [plan, plan, hread]) ?_
    simp [plan, hparts, hpart]
  · refine .none ?_ (by rw [plan, plan, hparts])
    show p'.read.orderings = p.read.orderings
    cases d with
    | condition joins condition => exact (Read.SamePaging.restrict hread).orderings
    | order term => cases hd
    | limit count => rw [← Option.some.inj hread]
    | skip count => rw [← Option.some.inj hread]

/-- A term that leaves terms to the client is the client's itself. -/
theorem meet_orders_client (h : p.meet lowered d = .ok p') (hclient : p'.ordersAtClient = true) :
    p.plan.Orders translation [] d.term?.toList p'.plan := by
  cases d with
  | order term =>
    cases h
    have hleft : ∀ left : Progress, left.read = p.read → left.clientParts = p.clientParts ++ [term.part] →
        p.plan.Orders translation [] [term] left.plan := by
      intro left hread hparts
      exact ⟨⟨[], rfl, by simp [plan, hread]⟩, by simp [plan, hparts, SortTerm.part, ClientPart.isOrdering]⟩
    obtain ⟨-, hp⟩ | ⟨-, hp⟩ | ⟨e, ⟨hrows, hlimited, -⟩, hp⟩ := p.order_cases term lowered
    · exact hleft _ (by rw [hp]; rfl) (by rw [hp]; rfl)
    · exact hleft _ (by rw [hp]; rfl) (by rw [hp]; rfl)
    · rw [hp] at hclient
      simp [ordersAtClient, hrows, hlimited] at hclient
  | _ => exact meet_no_term rfl h

/-- A term that lets further terms go to the server goes there itself. -/
theorem meet_orders_server (h : p.meet (translation d.expr) d = .ok p') (hserver : p'.ordersAtClient = false) :
    p.plan.Orders translation d.term?.toList [] p'.plan := by
  cases d with
  | order term =>
    cases h
    obtain ⟨hmarks, hp⟩ | ⟨-, hp⟩ | ⟨e, ⟨-, -, hsome⟩, hp⟩ := p.order_cases term (translation (Demand.order term).expr)
    · rw [hp, ordersAtClient, Bool.or_eq_false_iff] at hserver
      rcases hmarks with hrows | hlimited
      · exact absurd (hserver.1.symm.trans hrows) Bool.false_ne_true
      · exact absurd (hserver.2.symm.trans hlimited) Bool.false_ne_true
    · rw [hp] at hserver
      cases hserver
    · rw [hp]
      refine ⟨⟨[⟨e, term.descending⟩], ?_, rfl⟩, by simp [plan]⟩
      have hterm : translation term.expr = some e := hsome
      simp [SortTerm.translate?, Demand.term?, hterm]
  | _ => exact meet_no_term rfl h

end Progress

/-! ## Runs -/

namespace Compiler

variable {c : Compiler} {sources : SourceTable} {start : Read} {p p' : Progress} {d : Demand} {ds : List Demand}

theorem meet_letsOrder (hp : start.Resolves p.read) (h : c.meet sources p d = .ok p') :
    p'.ordersAtClient = (p.ordersAtClient || !d.letsOrder (c.translationFrom? sources start)) := by
  rw [meet_eq hp] at h
  exact Progress.meet_ordersAtClient h

theorem ordersAtClient_run (hp : start.Resolves p.read) (hrun : ds.foldlM (c.meet sources) p = .ok p') :
    p'.ordersAtClient = (p.ordersAtClient || !ds.all (Demand.letsOrder (c.translationFrom? sources start))) := by
  induction ds generalizing p with
  | nil =>
    cases hrun
    simp
  | cons d ds ih =>
    obtain ⟨next, hnext, hrun⟩ := Run.bind_eq_ok.1 ((List.foldlM_cons ..).symm.trans hrun)
    rw [ih (meet_resolves hp hnext) hrun, meet_letsOrder hp hnext, List.all_cons, Bool.not_and, Bool.or_assoc]

theorem filterMap_term_cons (d : Demand) (ds : List Demand) :
    (d :: ds).filterMap Demand.term? = d.term?.toList ++ ds.filterMap Demand.term? := by
  cases hd : d.term? with
  | none => simp [List.filterMap_cons_none hd]
  | some term => simp [List.filterMap_cons_some hd]

/-- Once terms are the client's, all that follow are. -/
theorem orders_run_client (hp : start.Resolves p.read) (hclient : p.ordersAtClient = true)
    (hrun : ds.foldlM (c.meet sources) p = .ok p') :
    p.plan.Orders (c.translationFrom? sources start) [] (ds.filterMap Demand.term?) p'.plan := by
  induction ds generalizing p with
  | nil =>
    cases hrun
    exact .none rfl rfl
  | cons d ds ih =>
    obtain ⟨next, hnext, hrun⟩ := Run.bind_eq_ok.1 ((List.foldlM_cons ..).symm.trans hrun)
    have hclient' : next.ordersAtClient = true := by rw [meet_letsOrder hp hnext, hclient, Bool.true_or]
    rw [filterMap_term_cons]
    exact (Progress.meet_orders_client hnext hclient').trans (ih (meet_resolves hp hnext) hclient' hrun)

/-- As long as every demand lets terms through they are the server's. All other terms are the client's. -/
theorem orders_run (hp : start.Resolves p.read) (hserver : p.ordersAtClient = false)
    (hrun : ds.foldlM (c.meet sources) p = .ok p') :
    p.plan.Orders (c.translationFrom? sources start)
      ((ds.takeWhile (Demand.letsOrder (c.translationFrom? sources start))).filterMap Demand.term?)
      ((ds.dropWhile (Demand.letsOrder (c.translationFrom? sources start))).filterMap Demand.term?) p'.plan := by
  induction ds generalizing p with
  | nil =>
    cases hrun
    exact .none rfl rfl
  | cons d ds ih =>
    obtain ⟨next, hnext, hrun⟩ := Run.bind_eq_ok.1 ((List.foldlM_cons ..).symm.trans hrun)
    have hresolves := meet_resolves hp hnext
    have hmark : next.ordersAtClient = !d.letsOrder (c.translationFrom? sources start) := by
      rw [meet_letsOrder hp hnext, hserver, Bool.false_or]
    rw [meet_eq hp] at hnext
    cases hd : d.letsOrder (c.translationFrom? sources start) with
    | true =>
      rw [hd] at hmark
      rw [List.takeWhile_cons_of_pos hd, List.dropWhile_cons_of_pos hd, filterMap_term_cons]
      exact (Progress.meet_orders_server hnext hmark).trans (ih hresolves hmark hrun)
    | false =>
      rw [hd] at hmark
      rw [List.takeWhile_cons_of_neg (by simp [hd]), List.dropWhile_cons_of_neg (by simp [hd]), filterMap_term_cons]
      exact (Progress.meet_orders_client hnext hmark).trans (orders_run_client hresolves hmark hrun)

/-! ## Plans -/

variable {q : Query} {plan : Plan} {compiled : CompiledQuery}

/-- The selector and the entity for the client change no orderings. -/
theorem select_orders {translation : Expr → Option Expr} {selected : Progress}
    (hselected : c.select sources p q.selector = .ok selected)
    (hreturned : returnEntity q.main.id selected = .ok plan.read) (hparts : plan.clientParts = selected.clientParts) :
    p.plan.Orders translation [] [] plan := by
  have hselect := select_selected hselected
  obtain ⟨parts, hselectedParts, hkinds⟩ := hselect.parts
  have hnone : parts.filter ClientPart.isOrdering = [] := by
    refine List.filter_eq_nil_iff.2 fun part hpart hordering => ?_
    have hkind := hkinds part hpart
    rw [ClientPart.isOrdering, beq_iff_eq] at hordering
    rw [hordering] at hkind
    cases hkind
  refine .none (hselect.read.trans (returnEntity_sameRows hreturned)).orderings ?_
  rw [hparts, hselectedParts, List.filter_append, hnone, List.append_nil]
  rfl

/-- A place of a list is in its longest first part with some property when all elements up to it have the property. -/
theorem length_lt_takeWhile {α : Type} (f : α → Bool) (before after : List α) (a : α) :
    before.length < ((before ++ a :: after).takeWhile f).length ↔ (∀ b ∈ before, f b = true) ∧ f a = true := by
  induction before with
  | nil =>
    cases hf : f a with
    | true => simp [List.takeWhile_cons_of_pos hf]
    | false => simp [hf]
  | cons b before ih =>
    cases hf : f b with
    | true => simp [List.takeWhile_cons_of_pos hf, hf, ih]
    | false => simp [hf]

/-- The terms of a query are the server's up to the first limit or demand without a translation, and the client's from
there on. So a term is the server's exactly when it and all demands before it have translations and none of these
limits the rows, whether or not one of them skips rows. -/
theorem compile_orderings (h : c.compile q = .ok compiled) :
    ∃ plan read, c.plan q = .ok plan ∧ c.finish plan.read = .ok read ∧ (c.passes = [] → read = plan.read) ∧
      c.generator.render read = .ok ⟨compiled.text, compiled.parameters⟩ ∧
      let translation := c.translation? q
      let demands := q.clauses.flatMap QueryClause.demands
      let served := demands.takeWhile (Demand.letsOrder translation)
      let left := demands.dropWhile (Demand.letsOrder translation)
      plan.read.orderings.map some = (served.filterMap Demand.term?).map (SortTerm.translate? translation) ∧
      compiled.clientParts.filter ClientPart.isOrdering = (left.filterMap Demand.term?).map SortTerm.part ∧
      ∀ before term after, demands = before ++ .order term :: after →
        (before.length < served.length ↔
          (∀ d ∈ before, d.limit? = none ∧ (translation d.expr).isSome = true) ∧
            (translation term.expr).isSome = true) := by
  obtain ⟨plan, read, hplan, hfinish, hrender, hclient⟩ := compile_stages h
  obtain ⟨l, p, selected, hl, hp, hselected, hreturned, hparts⟩ := plan_stages hplan
  refine ⟨plan, read, hplan, hfinish, fun hpasses => finish_no_passes hpasses hfinish, hrender, ?_⟩
  intro translation demands served left
  have horders := (orders_run (.refl l.read) rfl (meet_all_demands hp)).trans (select_orders hselected hreturned hparts)
  rw [← translation_layout hl, List.append_nil, List.append_nil] at horders
  obtain ⟨added, hadded, horderings⟩ := horders.orderings
  have hread : plan.read.orderings = added := by
    rw [horderings]
    show l.read.orderings ++ added = added
    rw [(Layout.ofQuery_wf hl).read]
    rfl
  refine ⟨by rw [hread, hadded], by rw [hclient, horders.parts]; rfl, ?_⟩
  intro before term after hdemands
  have hplace := length_lt_takeWhile (Demand.letsOrder translation) before after (.order term)
  rw [← hdemands] at hplace
  refine hplace.trans (and_congr (forall₂_congr fun d _ => ?_) ?_)
  · simp [Demand.letsOrder]
  · simp [Demand.letsOrder, Demand.limit?, Demand.expr]

/-- Warehouses in decreasing order of size, and orderings behind a skip and behind a limit. -/
def warehousePages : Query :=
  warehouses [.orderBy [⟨warehouseSize, true⟩], .skip (rowCount 3), .orderBy [⟨warehouseSize, false⟩],
    .take (rowCount 2), .orderBy [⟨warehouseSize, false⟩]]

/-- The limit holds the ordering behind it back, and the skip does not. -/
theorem compile_orderings_of_pages :
    ∃ compiled plan, warehouseCompiler.compile warehousePages = .ok compiled ∧
      warehouseCompiler.plan warehousePages = .ok plan ∧ plan.read.orderings.length = 2 ∧
      compiled.clientParts.filter ClientPart.isOrdering = [⟨.ordering, warehouseSize⟩] := by
  have hok : (warehouseCompiler.compile warehousePages).isOk = true := by decide +kernel
  cases hcompiled : warehouseCompiler.compile warehousePages with
  | error e => rw [hcompiled] at hok; cases hok
  | ok compiled =>
    obtain ⟨plan, -, hplan, -, -, -, horderings, hparts, -⟩ := compile_orderings hcompiled
    have hlength := congrArg List.length horderings
    rw [List.length_map] at hlength
    exact ⟨compiled, plan, rfl, hplan, hlength, hparts⟩

/-- An ordering behind a skip is the server's, which orders all rows before it skips some. -/
theorem ordering_crosses_skip :
    ∃ compiled, warehouseCompiler.compile
        (warehouses [.skip (rowCount 3), .orderBy [⟨warehouseSize, false⟩]]) = .ok compiled ∧
      compiled.text = "MATCH (w:Warehouse) RETURN \"w\".\"Size\" ORDER BY \"w\".\"Size\" SKIP 3" ∧
      compiled.clientParts = [] :=
  ⟨_, rfl, by decide +kernel, rfl⟩

/-- The terms that one clause adds, when terms may be the server's in front of it or are the client's. -/
theorem orders_clause (hp : start.Resolves p.read) {terms : List SortTerm}
    (h : c.bindClause sources p (.orderBy terms) = .ok p') :
    p.plan.Orders (c.translationFrom? sources start)
      (if p.ordersAtClient then [] else terms.takeWhile fun term => (c.translationFrom? sources start term.expr).isSome)
      (if p.ordersAtClient then terms else terms.dropWhile fun term => (c.translationFrom? sources start term.expr).isSome)
      p'.plan := by
  have hterms : ∀ terms : List SortTerm, (terms.map Demand.order).filterMap Demand.term? = terms := by
    intro terms
    rw [List.filterMap_map]
    exact List.filterMap_some
  have hlets : Demand.letsOrder (c.translationFrom? sources start) ∘ Demand.order =
      fun term => (c.translationFrom? sources start term.expr).isSome := by
    funext term
    simp [Demand.letsOrder, Demand.limit?, Demand.expr]
  have hrun : (terms.map Demand.order).foldlM (c.meet sources) p = .ok p' := meet_demands h
  cases hclient : p.ordersAtClient with
  | true =>
    have horders := orders_run_client hp hclient hrun
    rwa [hterms] at horders
  | false =>
    have horders := orders_run hp hclient hrun
    rwa [List.takeWhile_map, List.dropWhile_map, hterms, hterms, hlets] at horders

/-- Whatever demands follow, they add terms behind those that are there. -/
theorem orders_rest (hp : start.Resolves p.read) (hrun : ds.foldlM (c.meet sources) p = .ok p') :
    ∃ served left, p.plan.Orders (c.translationFrom? sources start) served left p'.plan := by
  cases hclient : p.ordersAtClient with
  | true => exact ⟨_, _, orders_run_client hp hclient hrun⟩
  | false => exact ⟨_, _, orders_run hp hclient hrun⟩

/-- One more clause takes the plan in progress one step further. -/
theorem progress_concat {l : Layout} {before : List QueryClause} {clause : QueryClause}
    (hl : Layout.ofQuery c.schema c.settings.binding.defaultAliasPrefix q = .ok l)
    (hp : before.foldlM (c.bindClause l.sources) { read := l.read } = .ok p)
    (hp' : c.bindClause l.sources p clause = .ok p') : c.progress q (before ++ [clause]) = .ok p' := by
  refine Run.bind_eq_ok.2 ⟨l, hl, Run.foldlM_append_eq_ok.2 ⟨p, hp, ?_⟩⟩
  rw [List.foldlM_cons, hp']
  rfl

/-- A list is cut in two by its longest first part with some property, when its first element has the property and
another one does not. -/
theorem takeWhile_cuts {α : Type} (f : α → Bool) (l : List α) :
    (l.takeWhile f ≠ [] ∧ l.dropWhile f ≠ []) ↔ (∃ a ∈ l.head?, f a = true) ∧ ∃ a ∈ l, f a = false := by
  refine and_congr ?_ ?_
  · cases l with
    | nil => simp
    | cons a l => cases hf : f a <;> simp [hf]
  · simp [List.dropWhile_eq_nil_iff]

/-- Of one ordering, the terms up to the first without a translation are added to the orderings of the read and the
others become client parts, unless a limit or a demand without a translation stands before the clause; then all of them
become client parts. What follows adds to both. So an ordering is split between server and client exactly when
nothing before it holds it back, its first term has a translation and another one has none. -/
theorem compile_orderBy {before after : List QueryClause} {terms : List SortTerm} (h : c.compile q = .ok compiled)
    (hq : q.clauses = before ++ .orderBy terms :: after) :
    let translation := c.translation? q
    let free := (before.flatMap QueryClause.demands).all (Demand.letsOrder translation)
    let served := if free then terms.takeWhile fun term => (translation term.expr).isSome else []
    let left := if free then terms.dropWhile fun term => (translation term.expr).isSome else terms
    served ++ left = terms ∧
    (∃ plan read p p' servedLater leftLater, c.plan q = .ok plan ∧ c.finish plan.read = .ok read ∧
      (c.passes = [] → read = plan.read) ∧ c.generator.render read = .ok ⟨compiled.text, compiled.parameters⟩ ∧
      compiled.clientParts = plan.clientParts ∧
      c.progress q before = .ok p ∧ c.progress q (before ++ [.orderBy terms]) = .ok p' ∧
      p.plan.Orders translation served left p'.plan ∧ p'.plan.Orders translation servedLater leftLater plan) ∧
    ((served ≠ [] ∧ left ≠ []) ↔
      free = true ∧ (∃ term ∈ terms.head?, (translation term.expr).isSome = true) ∧
        ∃ term ∈ terms, (translation term.expr).isSome = false) := by
  intro translation free served left
  obtain ⟨plan, read, hplan, hfinish, hrender, hclient⟩ := compile_stages h
  obtain ⟨l, bound, selected, hl, hbound, hselected, hreturned, hparts⟩ := plan_stages hplan
  rw [hq] at hbound
  obtain ⟨p, hp, hbound⟩ := Run.foldlM_append_eq_ok.1 hbound
  obtain ⟨p', hp', hafter⟩ := Run.bind_eq_ok.1 ((List.foldlM_cons ..).symm.trans hbound)
  have hresolves := bindClauses_resolves hp
  have hresolves' := bindClause_resolves hresolves hp'
  have htranslation : translation = c.translationFrom? l.sources l.read := translation_layout hl
  have hfree : p.ordersAtClient = !free := by
    have hmark := ordersAtClient_run (.refl l.read) (meet_all_demands hp)
    rw [← htranslation] at hmark
    exact hmark
  refine ⟨?_, ?_, ?_⟩
  · cases hcase : free with
    | true => simp only [served, left, hcase, if_true, List.takeWhile_append_dropWhile]
    | false => simp [served, left, hcase]
  · have horders := orders_clause hresolves hp'
    obtain ⟨servedLater, leftLater, hlater⟩ := orders_rest hresolves' (meet_all_demands hafter)
    have hlater := hlater.trans (select_orders hselected hreturned hparts)
    rw [← htranslation, hfree] at horders
    rw [← htranslation] at hlater
    refine ⟨plan, read, p, p', _, _, hplan, hfinish, fun hpasses => finish_no_passes hpasses hfinish, hrender, hclient,
      Run.bind_eq_ok.2 ⟨l, hl, hp⟩, progress_concat hl hp hp', ?_, hlater⟩
    cases hcase : free with
    | true => simpa [served, left, hcase] using horders
    | false => simpa [served, left, hcase] using horders
  · cases hcase : free with
    | true => simpa only [served, left, hcase, if_true, true_and] using takeWhile_cuts _ terms
    | false => simp [served, hcase]

/-- An ordering whose second term only the client knows. -/
def mixedTerms : List SortTerm :=
  [⟨warehouseSize, false⟩, ⟨pageSize, false⟩, ⟨warehouseSize, true⟩]

/-- Behind a condition of the server, the first of these terms is the server's and the others are the client's. -/
theorem compile_orderBy_of_mixed :
    let q := warehouses ([.filter (sizeIs 1)] ++ .orderBy mixedTerms :: [.take (rowCount 2)])
    ∃ compiled plan p p', warehouseCompiler.compile q = .ok compiled ∧ warehouseCompiler.plan q = .ok plan ∧
      warehouseCompiler.progress q [.filter (sizeIs 1)] = .ok p ∧
      warehouseCompiler.progress q ([.filter (sizeIs 1)] ++ [.orderBy mixedTerms]) = .ok p' ∧
      p.plan.Orders (warehouseCompiler.translation? q) (mixedTerms.take 1) (mixedTerms.drop 1) p'.plan := by
  intro q
  have hok : (warehouseCompiler.compile
      (warehouses ([.filter (sizeIs 1)] ++ .orderBy mixedTerms :: [.take (rowCount 2)]))).isOk = true := by
    decide +kernel
  cases hcompiled : warehouseCompiler.compile q with
  | error e => rw [hcompiled] at hok; cases hok
  | ok compiled =>
    obtain ⟨-, ⟨plan, -, p, p', -, -, hplan, -, -, -, -, hp, hp', horders, -⟩, -⟩ := compile_orderBy hcompiled rfl
    exact ⟨compiled, plan, p, p', rfl, hplan, hp, hp', horders⟩

/-- An ordering by a size and by a number that only the client knows is split: the server orders by the size, and the
client by the number. -/
theorem ordering_split :
    ∃ compiled, warehouseCompiler.compile
        (warehouses [.orderBy [⟨warehouseSize, false⟩, ⟨pageSize, false⟩]]) = .ok compiled ∧
      compiled.text = "MATCH (w:Warehouse) RETURN \"w\".*, \"w\".\"Size\" ORDER BY \"w\".\"Size\"" ∧
      compiled.clientParts = [⟨.ordering, pageSize⟩] :=
  ⟨_, rfl, by decide +kernel, rfl⟩

end Compiler

end GraphQuery
