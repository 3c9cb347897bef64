import GraphQuery.Proofs.Rewriting
import GraphQuery.Proofs.WrittenExprs

/-!
# The text of rewritten reads

A rewriting that changes the ids of sources, and the values of constants only in ways that do not show, does not show
in the text of an expression (`Generator.expr_rewrite`). A rewriting that does not show in the expressions of a read
does not show in the read: the rewritten read fails alike or has the same pieces (`Generator.read_rewrite`). What shows
of a piece is left open by a view of pieces.
-/

namespace GraphQuery

/-- Two ways to write something that fail alike or give the same pieces, as far as `view` shows them. -/
def SameUnder (view : Piece → Piece) (x y : Except RenderError (List Piece)) : Prop :=
  x.map (List.map view) = y.map (List.map view)

namespace SameUnder

variable {view : Piece → Piece} {x y : Except RenderError (List Piece)}
  {f g : List Piece → Except RenderError (List Piece)} {ps qs : List Piece}

theorem refl (x : Except RenderError (List Piece)) : SameUnder view x x :=
  rfl

theorem ok (h : ps.map view = qs.map view) : SameUnder view (.ok ps) (.ok qs) :=
  congrArg Except.ok h

theorem cases (h : SameUnder view x y) :
    (∃ e, x = .error e ∧ y = .error e) ∨ ∃ ps qs, x = .ok ps ∧ y = .ok qs ∧ ps.map view = qs.map view := by
  match x, y with
  | .error e, .error e' =>
    cases h
    exact Or.inl ⟨e, rfl, rfl⟩
  | .ok ps, .ok qs => exact Or.inr ⟨ps, qs, rfl, rfl, Except.ok.inj h⟩
  | .error e, .ok qs => cases h
  | .ok ps, .error e => cases h

theorem bind (h : SameUnder view x y) (hf : ∀ ps qs, ps.map view = qs.map view → SameUnder view (f ps) (g qs)) :
    SameUnder view (x >>= f) (y >>= g) := by
  obtain ⟨e, rfl, rfl⟩ | ⟨ps, qs, rfl, rfl, hps⟩ := h.cases
  · exact refl _
  · exact hf ps qs hps

theorem separated {α : Type} {one : α → Except RenderError (List Piece)} {separator : Piece}
    {all : List α → Except RenderError (List Piece)} (hs : Separated one separator all) {f : α → α} :
    ∀ {l : List α}, (∀ a ∈ l, SameUnder view (one (f a)) (one a)) → SameUnder view (all (l.map f)) (all l)
  | [], _ => refl _
  | [a], h => by
    rw [List.map_singleton, hs.single, hs.single]
    exact h a List.mem_cons_self
  | a :: b :: rest, h => by
    rw [List.map_cons, List.map_cons, hs.more, hs.more]
    refine (h a List.mem_cons_self).bind fun ps qs hps => ?_
    have hrest := separated hs (l := b :: rest) fun x hx => h x (List.mem_cons_of_mem a hx)
    refine hrest.bind fun ps' qs' hps' => .ok ?_
    simp [hps, hps']

/-- What is seen whole is the same. -/
theorem eq_of_id (h : SameUnder id x y) : x = y := by
  obtain ⟨e, rfl, rfl⟩ | ⟨ps, qs, rfl, rfl, hps⟩ := h.cases
  · rfl
  · rw [List.map_id, List.map_id] at hps
    rw [hps]

end SameUnder

/-- The rewriting that changes the values of constants and the ids of sources. -/
def Rewriting.ofValues (value : Bool → Value → Value) (source : SourceId → SourceId) : Rewriting where
  node branch
    | .constant v t => .constant (value branch v) t
    | e => e
  source := source

/-- A change of values that does not show: the pieces of a constant stay the same as far as `view` shows them, and so do
the truth values that stand as branches. -/
structure Unseen (g : Generator) (view : Piece → Piece) (value : Bool → Value → Value) : Prop where
  constant : ∀ hint branch v t, SameUnder view (g.constant hint (value branch v) t) (g.constant hint v t)
  truth : ∀ v b, value true v = .bool b ↔ v = .bool b

/-! ## Expressions -/

namespace Generator

variable {g : Generator} {view : Piece → Piece} {value : Bool → Value → Value} (source : SourceId → SourceId)

theorem isInfix_rewrite (branch : Bool) : ∀ e : Expr, (e.rewrite (.ofValues value source) branch).isInfix = e.isInfix
  | .convert e _ => isInfix_rewrite branch e
  | .constant .. | .parameter .. | .source .. | .member .. | .binary .. | .conditional .. | .not _ | .negate _
  | .isNull _ | .call .. | .construct .. | .subquery _ | .extension .. | .sequence _ | .storage _ | .aliased ..
  | .read _ => rfl

theorem storedStyle_rewrite (branch : Bool) :
    ∀ e : Expr, g.storedStyle? (e.rewrite (.ofValues value source) branch) = g.storedStyle? e
  | .convert e _ => storedStyle_rewrite branch e
  | .aliased _ e => storedStyle_rewrite false e
  | .constant .. | .parameter .. | .source .. | .member .. | .binary .. | .conditional .. | .not _ | .negate _
  | .isNull _ | .call .. | .construct .. | .subquery _ | .extension .. | .sequence _ | .storage _ | .read _ => rfl

theorem operandHint_rewrite (hint : Option LiteralStyle) (op : Operator) (l r : Expr) :
    g.operandHint hint op (l.rewrite (.ofValues value source) false) (r.rewrite (.ofValues value source) false) =
      g.operandHint hint op l r := by
  rw [operandHint, operandHint, storedStyle_rewrite, storedStyle_rewrite]

theorem group_view (grouped : Bool) {ps qs : List Piece} (h : ps.map view = qs.map view) :
    (group grouped ps).map view = (group grouped qs).map view := by
  cases grouped <;> simp [group, h]

variable (hvalue : Unseen g view value)

include hvalue

theorem branchToken_rewrite : ∀ e : Expr, g.branchToken? (e.rewrite (.ofValues value source) true) = g.branchToken? e
  | .convert e _ => branchToken_rewrite e
  | .constant v t => by
    have htruth := hvalue.truth v
    change g.branchToken? (.constant (value true v) t) = _
    cases v with
    | bool b => rw [(htruth b).2 rfl]
    | _ =>
      cases hv : value true _ with
      | bool b => cases (htruth b).1 hv
      | _ => rfl
  | .parameter .. | .source .. | .member .. | .binary .. | .conditional .. | .not _ | .negate _ | .isNull _ | .call ..
  | .construct .. | .subquery _ | .extension .. | .sequence _ | .storage _ | .aliased .. | .read _ => rfl

theorem branch_rewrite {hint : Option LiteralStyle} {e : Expr} {f f' : List Piece → Except RenderError (List Piece)}
    (he : SameUnder view (g.expr hint (e.rewrite (.ofValues value source) true)) (g.expr hint e))
    (hf : ∀ ps qs, ps.map view = qs.map view → SameUnder view (f ps) (f' qs)) :
    SameUnder view
      (match g.branchToken? (e.rewrite (.ofValues value source) true) with
        | some token => pure [.text token] >>= f
        | none => g.expr hint (e.rewrite (.ofValues value source) true) >>= f)
      (match g.branchToken? e with
        | some token => pure [.text token] >>= f'
        | none => g.expr hint e >>= f') := by
  rw [branchToken_rewrite source hvalue]
  split
  · exact hf _ _ rfl
  · exact he.bind hf

theorem expr_rewrite (hint : Option LiteralStyle) (branch : Bool) (e : Expr) :
    SameUnder view (g.expr hint (e.rewrite (.ofValues value source) branch)) (g.expr hint e) := by
  fun_induction Generator.expr g hint e generalizing branch with
  | case1 hint op left right detail hop ihl ihr =>
    change SameUnder view (g.expr hint (.binary op (left.rewrite _ false) (right.rewrite _ false) detail)) _
    simp only [Generator.expr, hop]
    refine (ihl false).bind fun l l' hl => (ihr false).bind fun r r' hr => .ok ?_
    simp [hl, hr]
  | case2 hint op left right detail symbol hop inner ihl ihr =>
    change SameUnder view (g.expr hint (.binary op (left.rewrite _ false) (right.rewrite _ false) detail)) _
    simp only [Generator.expr, hop, operandHint_rewrite, isInfix_rewrite]
    refine (ihl false).bind fun l l' hl => (ihr false).bind fun r r' hr => .ok ?_
    simp only [List.map_append, List.map_cons, group_view _ hl, group_view _ hr]
  | case3 hint test ifTrue ifFalse type hbool ih =>
    change SameUnder view (g.expr hint (.conditional (test.rewrite _ false) _ _ type)) _
    simp only [Generator.expr, hbool, if_true]
    exact ih false
  | case4 hint test ifTrue ifFalse type hbool iht ihb iha =>
    change SameUnder view
      (g.expr hint (.conditional (test.rewrite _ false) (ifTrue.rewrite _ true) (ifFalse.rewrite _ true) type)) _
    simp only [Generator.expr, hbool]
    -- Branches are rewritten as branches, so that the words for truth values stay.
    refine (iht false).bind fun c c' hc => ?_
    refine branch_rewrite source hvalue (iha true) fun a a' ha => ?_
    refine branch_rewrite source hvalue (ihb true) fun b b' hb => .ok ?_
    simp [hc, ha, hb]
  | case5 hint v type =>
    exact hvalue.constant hint branch v type
  | case7 hint operand type ih =>
    exact ih branch
  | case8 hint operand ih =>
    refine (ih false).bind fun ps qs h => .ok ?_
    simp [h]
  | case9 hint operand ih =>
    refine (ih false).bind fun ps qs h => .ok ?_
    simp [h]
  | case10 hint operand hnull ih =>
    -- Rewriting makes no null test out of an operand that is none.
    have hoperand : ∀ inner, operand.rewrite (.ofValues value source) false = .isNull inner → False := by
      intro inner hinner
      cases operand with
      | isNull inner' => exact hnull inner' rfl
      | _ => cases hinner
    change SameUnder view (g.expr hint (.not (operand.rewrite _ false))) _
    rw [Generator.expr]
    · refine (ih false).bind fun ps qs h => .ok ?_
      simp [h]
    · exact hoperand
  | case12 hint name e ih =>
    refine (ih false).bind fun ps qs h => .ok ?_
    simp [h]
  | _ =>
    exact .refl _

end Generator

/-! ## Reads

A rewriting that does not show in the expressions of a read does not show in the read.
-/

namespace Generator

variable {g : Generator} {view : Piece → Piece} {w : Rewriting}

theorem sortTerm_rewrite : ∀ {term : SortTerm},
    SameUnder view (g.expr none (term.expr.rewrite w false)) (g.expr none term.expr) →
      SameUnder view (g.sortTerm (term.rewrite w)) (g.sortTerm term)
  | ⟨e, descending⟩, he => by
    refine he.bind fun ps qs h => .ok ?_
    cases descending
    · exact h
    · change (ps ++ [Piece.text " DESC"]).map view = (qs ++ [Piece.text " DESC"]).map view
      simp [h]

theorem patternMatch_rewrite {c : PatternMatch}
    (he : ∀ e ∈ c.predicate, SameUnder view (g.expr none (e.rewrite w false)) (g.expr none e)) :
    SameUnder view (g.patternMatch (c.rewrite w)) (g.patternMatch c) := by
  unfold patternMatch
  rw [PatternMatch.rewrite_pattern, PatternMatch.rewrite_predicate, PatternMatch.rewrite_optional]
  cases c.pattern.render g.delimit with
  | error e => exact .refl _
  | ok text =>
    cases hpredicate : c.predicate with
    | none => exact .refl _
    | some predicate =>
      refine (he predicate hpredicate).bind fun ps qs h => .ok ?_
      simp [h]

theorem option_rewrite (keyword : String) {e : Option Expr}
    (he : ∀ x ∈ e, SameUnder view (g.expr none (x.rewrite w false)) (g.expr none x)) :
    SameUnder view (g.option keyword (Expr.rewriteOption w e)) (g.option keyword e) := by
  cases e with
  | none => exact .refl _
  | some e =>
    refine (he e rfl).bind fun ps qs h => .ok ?_
    simp [h]

theorem opening_rewrite {r : Read}
    (he : ∀ m, .pattern m ∈ r.clauses → ∀ e ∈ m.predicate,
      SameUnder view (g.expr none (e.rewrite w false)) (g.expr none e)) :
    SameUnder view (g.opening (r.rewrite w)) (g.opening r) := by
  have hclause : ∀ c ∈ r.clauses, SameUnder view (g.clause (c.rewrite w)) (g.clause c) := by
    intro c hc
    cases c with
    | pattern m => exact patternMatch_rewrite (he m hc)
    | nested source read => exact .refl _
  unfold opening
  rw [Read.rewrite_clauses, List.isEmpty_map]
  cases r.clauses.isEmpty with
  | true => exact .refl _
  | false =>
    refine (SameUnder.separated g.clauses_separated hclause).bind fun ps qs h => .ok ?_
    have hempty : ps.isEmpty = qs.isEmpty := by
      rw [← List.isEmpty_map (f := view), h, List.isEmpty_map]
    rw [hempty]
    split
    · rfl
    · simp [h]

theorem star_rewrite (w : Rewriting) (r : Read) : g.star (r.rewrite w) = g.star r := by
  rw [star, star, Read.rewrite_star, Read.returnedNode_rewrite]

theorem returned_rewrite {r : Read}
    (he : ∀ e ∈ r.items, SameUnder view (g.expr none (e.rewrite w false)) (g.expr none e)) :
    SameUnder view (g.returned (r.rewrite w)) (g.returned r) := by
  unfold returned
  rw [star_rewrite, Read.rewrite_items, Read.rewrite_star, List.isEmpty_map]
  cases g.star r with
  | error e => exact .refl _
  | ok star =>
    refine (SameUnder.separated g.exprs_separated he).bind fun ps qs h => .ok ?_
    split
    · rfl
    · split <;> simp [h]

/-- A read shows a rewriting only where one of its expressions does. -/
theorem read_rewrite {r : Read}
    (he : ∀ e ∈ r.written, SameUnder view (g.expr none (e.rewrite w false)) (g.expr none e)) :
    SameUnder view (g.read (r.rewrite w)) (g.read r) := by
  obtain ⟨hclauses, hitems, hterms, hskip, hlimit⟩ := Read.forall_written.1 he
  unfold Generator.read
  rw [Read.rewrite_orderings, Read.rewrite_skip, Read.rewrite_limit, List.isEmpty_map]
  refine (opening_rewrite hclauses).bind fun o o' ho => (returned_rewrite hitems).bind fun a a' ha => ?_
  have horderings := SameUnder.separated g.sortTerms_separated fun term hterm => sortTerm_rewrite (hterms term hterm)
  refine horderings.bind fun t t' ht => ?_
  refine (option_rewrite " SKIP " hskip).bind fun s s' hs => ?_
  refine (option_rewrite " LIMIT " hlimit).bind fun l l' hl => .ok ?_
  split <;> simp [ho, ha, ht, hs, hl]

/-- A rewriting that no expression of a read shows at all leaves the text and the parameters as they are. -/
theorem render_rewrite {r : Read} (he : ∀ e ∈ r.written, g.expr none (e.rewrite w false) = g.expr none e) :
    g.render (r.rewrite w) = g.render r := by
  have hread : SameUnder id (g.read (r.rewrite w)) (g.read r) := read_rewrite fun e h => by
    rw [he e h]
    exact .refl _
  rw [render, render, hread.eq_of_id]

end Generator

end GraphQuery
