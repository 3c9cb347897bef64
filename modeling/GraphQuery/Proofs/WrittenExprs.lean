import GraphQuery.Proofs.Separated

/-!
# The expressions in a text

A read writes its expressions in one order: the conditions of its clauses, the returned items, the terms of the
ordering, the skip and the limit (`Read.written`). What it writes around them fails for few causes: a name that is no
identifier, a nested read, or a star without a node. A read therefore fails as the first of its expressions that fails,
unless it fails for one of these (`Generator.read_writes`). What can be said of the errors of expressions is lifted to
reads by this alone.
-/

namespace GraphQuery

/-- The conditions that a clause writes. -/
def ReadingClause.conditions : ReadingClause → List Expr
  | .pattern c => c.predicate.toList
  | .nested _ _ => []

/-- The expressions of a read in the order in which they are written. -/
def Read.written (r : Read) : List Expr :=
  r.clauses.flatMap ReadingClause.conditions ++
    (r.items ++ (r.orderings.map SortTerm.expr ++ (r.skip.toList ++ r.limit.toList)))

/-- What is said of all that a read writes is said of its conditions, items, terms and counts. -/
theorem Read.forall_written {r : Read} {P : Expr → Prop} :
    (∀ e ∈ r.written, P e) ↔
      (∀ m, .pattern m ∈ r.clauses → ∀ e ∈ m.predicate, P e) ∧ (∀ e ∈ r.items, P e) ∧
        (∀ term ∈ r.orderings, P term.expr) ∧ (∀ e ∈ r.skip, P e) ∧ ∀ e ∈ r.limit, P e := by
  simp only [written, List.forall_mem_append, List.forall_mem_map, Option.mem_toList]
  refine and_congr_left fun _ => ⟨fun h m hm e he => ?_, fun h e he => ?_⟩
  · exact h e (List.mem_flatMap.2 ⟨.pattern m, hm, Option.mem_toList.2 he⟩)
  · obtain ⟨c, hc, he⟩ := List.mem_flatMap.1 he
    cases c with
    | pattern m => exact h m hc e (Option.mem_toList.1 he)
    | nested source r => cases he

/-- The causes for which a read fails at something else than an expression. -/
def RenderError.IsAround : RenderError → Prop
  | .invalidIdentifier _ | .nestedRead | .noStarNode => True
  | _ => False

/-! ## Patterns

The errors are left open, as long as a name that is no identifier is among them.
-/

section Patterns

variable {Q : RenderError → Prop} (hname : ∀ name, Q (.invalidIdentifier name))

include hname

theorem plainName_fails (name : String) : Run.FailsOnly Q (plainName name) := by
  unfold plainName
  split
  · exact .ok _
  · exact .error (hname name)

theorem Node.render_fails (node : Node) : Run.FailsOnly Q node.render := by
  unfold Node.render
  split
  · exact .ok _
  · exact (plainName_fails hname _).bind fun _ _ =>
      (Run.FailsOnly.mapM fun label _ => plainName_fails hname label).bind fun _ _ => .pure _

theorem RelationshipBody.render_fails (delimit : Delimiter) (detail : RelationshipBody) :
    Run.FailsOnly Q (detail.render delimit) := by
  unfold RelationshipBody.render
  cases detail.name with
  | none => exact .pure _
  | some name => exact (plainName_fails hname name).bind fun _ _ => .pure _

theorem Relationship.render_fails (delimit : Delimiter) (r : Relationship) :
    Run.FailsOnly Q (r.render delimit) := by
  unfold Relationship.render
  cases r.detail with
  | none => exact .pure _
  | some detail => exact (detail.render_fails hname delimit).bind fun _ _ => .pure _

/-- A pattern fails at a name that is no identifier. -/
theorem Pattern.render_fails (delimit : Delimiter) (p : Pattern) : Run.FailsOnly Q (p.render delimit) := by
  have step : ∀ s ∈ p.steps, Run.FailsOnly Q (renderStep delimit s) :=
    fun s _ => (s.1.render_fails hname delimit).bind fun _ _ => (s.2.render_fails hname).bind fun _ _ => .pure _
  exact (p.start.render_fails hname).bind fun _ _ => (Run.FailsOnly.mapM step).bind fun _ _ => .pure _

end Patterns

/-! ## Runs that write expressions -/

namespace Generator

variable {g : Generator} {A : RenderError → Prop}

/-- A run that writes expressions one behind the other. It succeeds only if all of them can be written. It fails as the
first that cannot, or at something around them, with an error that satisfies `A`. -/
structure Writes (g : Generator) (A : RenderError → Prop) (es : List Expr) (x : Except RenderError (List Piece)) :
    Prop where
  ok : ∀ ps, x = .ok ps → ∃ pss, es.mapM (g.expr none) = .ok pss
  error : ∀ err, x = .error err → A err ∨ es.mapM (g.expr none) = .error err

namespace Writes

variable {es es' : List Expr} {x : Except RenderError (List Piece)} {f : List Piece → Except RenderError (List Piece)}

theorem nothing (h : Run.FailsOnly A x) : g.Writes A [] x where
  ok _ _ := ⟨[], rfl⟩
  error err herr := .inl (h err herr)

theorem around {err : RenderError} (h : A err) (es : List Expr) : g.Writes A es (.error err) where
  ok ps h := by cases h
  error err' h' := by
    cases h'
    exact .inl h

theorem expr (e : Expr) : g.Writes A [e] (g.expr none e) where
  ok ps h := ⟨[ps], by rw [List.mapM_cons, h]; rfl⟩
  error err h := .inr (by rw [List.mapM_cons, h]; rfl)

theorem bind (hx : g.Writes A es x) (hf : ∀ ps, g.Writes A es' (f ps)) : g.Writes A (es ++ es') (x >>= f) where
  ok ps h := by
    obtain ⟨qs, hqs, h⟩ := Run.bind_eq_ok.1 h
    obtain ⟨pss, hpss⟩ := hx.ok qs hqs
    obtain ⟨pss', hpss'⟩ := (hf qs).ok ps h
    exact ⟨pss ++ pss', by rw [List.mapM_append, hpss, hpss']; rfl⟩
  error err h := by
    rw [List.mapM_append]
    rcases Run.bind_eq_error.1 h with h | ⟨qs, hqs, h⟩
    · refine (hx.error err h).imp_right fun herr => ?_
      rw [herr]
      rfl
    · obtain ⟨pss, hpss⟩ := hx.ok qs hqs
      refine ((hf qs).error err h).imp_right fun herr => ?_
      rw [hpss, herr]
      rfl

/-- What is done with the pieces behind makes no difference. -/
theorem map (hx : g.Writes A es x) (h : List Piece → List Piece) :
    g.Writes A es (x >>= fun ps => pure (h ps)) := by
  rw [← List.append_nil es]
  exact hx.bind fun ps => .nothing (.pure (h ps))

/-- A list writes the expressions of its elements in order. -/
theorem separated {α : Type} {one : α → Except RenderError (List Piece)} {separator : Piece}
    {all : List α → Except RenderError (List Piece)} (hs : Separated one separator all) {parts : α → List Expr} :
    ∀ {l : List α}, (∀ a ∈ l, g.Writes A (parts a) (one a)) → g.Writes A (l.flatMap parts) (all l)
  | [], _ => by
    rw [hs.nil]
    exact .nothing (.ok [])
  | [a], h => by
    rw [hs.single, List.flatMap_singleton]
    exact h a List.mem_cons_self
  | a :: b :: rest, h => by
    rw [hs.more, List.flatMap_cons]
    have hrest := separated hs (l := b :: rest) fun x hx => h x (List.mem_cons_of_mem a hx)
    exact (h a List.mem_cons_self).bind fun first => hrest.map fun others => first ++ separator :: others

/-- A run fails as its expressions do and as what stands around them. -/
theorem fails (h : g.Writes A es x) (hes : ∀ e ∈ es, Run.FailsOnly A (g.expr none e)) : Run.FailsOnly A x :=
  fun err herr => (h.error err herr).elim id (Run.FailsOnly.mapM hes err)

end Writes

/-! ## Reads -/

theorem clause_writes (hname : ∀ name, A (.invalidIdentifier name)) {c : ReadingClause}
    (hnested : ∀ source r, c = .nested source r → A .nestedRead) : g.Writes A c.conditions (g.clause c) := by
  cases c with
  | nested source r => exact .around (hnested source r rfl) _
  | pattern c =>
    have hfails : Run.FailsOnly A (c.pattern.render g.delimit) := c.pattern.render_fails hname g.delimit
    change g.Writes A c.predicate.toList (g.patternMatch c)
    unfold patternMatch
    cases htext : c.pattern.render g.delimit with
    | error err => exact .around (hfails err htext) _
    | ok text =>
      cases c.predicate with
      | none => exact .nothing (.pure _)
      | some predicate => exact (Writes.expr predicate).map _

theorem opening_writes (hname : ∀ name, A (.invalidIdentifier name)) {r : Read}
    (hnested : ∀ source r', .nested source r' ∈ r.clauses → A .nestedRead) :
    g.Writes A (r.clauses.flatMap ReadingClause.conditions) (g.opening r) := by
  unfold opening
  split
  · rename_i hempty
    rw [List.isEmpty_iff.1 hempty]
    split <;> exact .nothing (.pure _)
  · refine (Writes.separated g.clauses_separated fun c hc => ?_).map _
    exact clause_writes hname fun source r' hc' => hnested source r' (hc' ▸ hc)

theorem star_fails (hstar : A .noStarNode) (r : Read) : Run.FailsOnly A (g.star r) := by
  unfold star
  split
  · split
    · exact .ok _
    · exact .error hstar
  · exact .ok _

theorem returned_writes {r : Read} (hstar : Run.FailsOnly A (g.star r)) : g.Writes A r.items (g.returned r) := by
  have hitems : g.Writes A (r.items.flatMap fun e => [e]) (g.exprs r.items) :=
    .separated g.exprs_separated fun e _ => .expr e
  rw [List.flatMap_singleton'] at hitems
  exact (Writes.nothing hstar).bind fun star => hitems.map _

theorem sortTerms_writes (terms : List SortTerm) : g.Writes A (terms.map SortTerm.expr) (g.sortTerms terms) := by
  rw [List.map_eq_flatMap]
  exact .separated g.sortTerms_separated fun term _ => (Writes.expr term.expr).map _

theorem option_writes (keyword : String) (e : Option Expr) : g.Writes A e.toList (g.option keyword e) := by
  cases e with
  | none => exact .nothing (.ok [])
  | some e => exact (Writes.expr e).map _

/-- A read writes its expressions in order. What fails around them is a name that is no identifier, a nested read or the
star. -/
theorem read_writes {r : Read} (hname : ∀ name, A (.invalidIdentifier name))
    (hnested : ∀ source r', .nested source r' ∈ r.clauses → A .nestedRead) (hstar : Run.FailsOnly A (g.star r)) :
    g.Writes A r.written (g.read r) :=
  (opening_writes hname hnested).bind fun _ => (returned_writes hstar).bind fun _ =>
    (sortTerms_writes r.orderings).bind fun _ => (option_writes " SKIP " r.skip).bind fun _ =>
      (option_writes " LIMIT " r.limit).map _

/-- Every read writes its expressions in order. -/
theorem read_writes_around (g : Generator) (r : Read) : g.Writes RenderError.IsAround r.written (g.read r) :=
  read_writes (fun _ => trivial) (fun _ _ _ => trivial) (star_fails trivial r)

end Generator

end GraphQuery
