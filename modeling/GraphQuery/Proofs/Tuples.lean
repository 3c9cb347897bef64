import GraphQuery.Proofs.InitialScope
import GraphQuery.Proofs.OperatorTrees

/-!
# Tuples that lowering leaves behind

An equality of tuples is lowered to equalities of their members, and only these are written. Everywhere else a tuple
stays as it is and cannot be written: on its own, as a member of another tuple, as an operand of arithmetic or of a
negation, or in a conditional. Such an expression is lowered all the same. `Schema.leavesTuple` tells these expressions
from the others, and they are the ones that cannot be written (`Scope.lower_written`).
-/

namespace GraphQuery

namespace Expr

/-- Whether an expression has a tuple to write, as an operand of an equality if `compared` holds. -/
def TupleWritten (compared : Bool) (e : Expr) : Prop :=
  if compared then e.OfMembers fun x => x.writesTuple = true else e.writesTuple = true

variable {op : Operator} {l r e t : Expr} {d : OperatorDetail} {compared : Bool}

theorem tupleWritten_of_not_sequence (h : e.isSequence = false) : e.TupleWritten compared ↔ e.writesTuple = true := by
  unfold TupleWritten
  split
  · exact ofMembers_of_not_sequence h
  · rfl

theorem tupleWritten_convert {type : ValueType} : (convert e type).TupleWritten compared ↔ e.TupleWritten compared := by
  cases compared with
  | false => exact writesTuple_inherited.convert
  | true =>
    show OfMembers _ _ ↔ OfMembers _ _
    unfold OfMembers
    rw [bare]
    split
    · rfl
    · exact writesTuple_inherited.convert

theorem tupleWritten_sequence {items : List Expr} :
    (sequence items).TupleWritten compared ↔ compared = false ∨ ∃ x ∈ items, x.writesTuple = true := by
  cases compared with
  | false => simp [TupleWritten, writesTuple]
  | true => simp [TupleWritten, OfMembers, bare]

theorem combine?_tupleWritten (h : combine? op l r d = some t) :
    t.TupleWritten compared ↔ l.TupleWritten op.isEquality ∨ r.TupleWritten op.isEquality := by
  rw [tupleWritten_of_not_sequence (combine?_isSequence h), writesTuple_inherited.combine h]
  unfold TupleWritten
  split
  · simp
  · rfl

end Expr

namespace Schema

mutual

/-- Whether the lowered form of an expression has a tuple to write. The operands of an equality are `compared`: of a
tuple there, and of a reference to an item with several keys, only the members are written. -/
def leavesTuple (schema : Schema) (compared : Bool) : Expr → Bool
  | .binary op left right _ => schema.leavesTuple op.isEquality left || schema.leavesTuple op.isEquality right
  | .conditional test ifTrue ifFalse type =>
    match Expr.guardedBranch? test ifTrue ifFalse with
    | some .ifTrue => schema.leavesTuple compared ifTrue
    | some .ifFalse => schema.leavesTuple compared ifFalse
    | none =>
      schema.leavesTuple false test ||
        !type.isBool && (schema.leavesTuple false ifTrue || schema.leavesTuple false ifFalse)
  | .source _ type => !compared && schema.hasTupleKey type
  | .convert operand _ => schema.leavesTuple compared operand
  | .not operand | .isNull operand => schema.leavesTuple false operand
  | .sequence items => !compared || schema.anyLeavesTuple items
  | .constant .. | .member .. | .storage _ | .aliased .. | .negate _ | .call .. | .parameter .. | .construct ..
  | .subquery _ | .extension .. | .read _ => false

def anyLeavesTuple (schema : Schema) : List Expr → Bool
  | [] => false
  | e :: rest => schema.leavesTuple false e || schema.anyLeavesTuple rest

end

end Schema

namespace Scope

variable {s : Scope} {q : Query} {mode : Mode}

theorem conditionalTest_writesTuple (test : Expr) : (conditionalTest test).writesTuple = test.writesTuple := by
  unfold conditionalTest
  split
  · simp [Expr.plain, Expr.truth, Expr.writesTuple]
  · rfl

mutual

/-- A lowered expression has a tuple to write exactly if the front-end expression leaves one. -/
theorem lower_tupleWritten (hs : s.IsInitial q) (mode : Mode) (compared : Bool) : ∀ (e : Expr) {t : Expr},
    e.IsFrontEnd → (s.lower mode e).result = some t →
      (t.TupleWritten compared ↔ s.schema.leavesTuple compared e = true)
  | .binary op left right detail, t, he, h => by
    obtain ⟨-, hl, hr⟩ := Expr.allNodes_binary.1 he
    simp only [lower, Outcome.result_bind, Option.bind_eq_some_iff] at h
    obtain ⟨l, hl', r, hr', h⟩ := h
    rw [Expr.combine?_tupleWritten h, lower_tupleWritten hs mode op.isEquality left hl hl',
      lower_tupleWritten hs mode op.isEquality right hr hr', Schema.leavesTuple, Bool.or_eq_true]
  | .conditional test ifTrue ifFalse type, t, he, h => by
    obtain ⟨-, hc, ha, hb⟩ := Expr.allNodes_conditional.1 he
    rw [lower] at h
    rw [Schema.leavesTuple]
    generalize Expr.guardedBranch? test ifTrue ifFalse = branch at h ⊢
    rcases branch with _ | _ | _
    · simp only [Outcome.result_bind, Option.bind_eq_some_iff] at h
      obtain ⟨c, hc', a, ha', b, hb', h⟩ := h
      cases h
      have htest : c.writesTuple = true ↔ _ := lower_tupleWritten hs mode false test hc hc'
      have hifTrue : a.writesTuple = true ↔ _ := lower_tupleWritten hs mode false ifTrue ha ha'
      have hifFalse : b.writesTuple = true ↔ _ := lower_tupleWritten hs mode false ifFalse hb hb'
      rw [Expr.tupleWritten_of_not_sequence rfl, Expr.writesTuple, conditionalTest_writesTuple]
      simp only [Bool.or_eq_true, Bool.and_eq_true, htest, hifTrue, hifFalse]
    · exact lower_tupleWritten hs mode compared ifTrue ha h
    · exact lower_tupleWritten hs mode compared ifFalse hb h
  | .member target m, t, _, h => by
    rw [lower] at h
    obtain ⟨p, rfl⟩ := hs.lowerMember h
    rw [Expr.tupleWritten_of_not_sequence rfl, Expr.writesTuple, Schema.leavesTuple]
  | .source id type, t, _, h => by
    rw [lower] at h
    rw [Schema.leavesTuple]
    obtain ⟨hkey, p, rfl⟩ | ⟨hkey, items, rfl, hitems⟩ := hs.lowerSource h
    · rw [Expr.tupleWritten_of_not_sequence rfl, Expr.writesTuple, hkey, Bool.and_false]
    · -- The members of a key are stored properties, so nothing remains once the tuple is compared.
      have hmembers : ¬∃ x ∈ items, x.writesTuple = true := by
        rintro ⟨x, hx, hwritten⟩
        obtain ⟨p, rfl⟩ := hitems x hx
        cases hwritten
      rw [Expr.tupleWritten_sequence, or_iff_left hmembers, hkey]
      simp
  | .constant value type, t, _, h => by
    rw [lower, lowerConstant] at h
    split at h
    · cases h
      rw [Expr.tupleWritten_of_not_sequence rfl, Expr.writesTuple, Schema.leavesTuple]
    · cases h
  | .convert operand type, t, he, h => by
    simp only [lower, Outcome.result_bind, Option.bind_eq_some_iff] at h
    obtain ⟨o, ho, h⟩ := h
    cases h
    rw [Expr.tupleWritten_convert, Schema.leavesTuple]
    exact lower_tupleWritten hs mode compared operand (Expr.allNodes_convert.1 he).2 ho
  | .not operand, t, he, h => by
    simp only [lower, Outcome.result_bind, Option.bind_eq_some_iff] at h
    obtain ⟨o, ho, h⟩ := h
    cases h
    rw [Expr.tupleWritten_of_not_sequence rfl, Expr.writesTuple, Schema.leavesTuple]
    exact lower_tupleWritten hs mode false operand (Expr.allNodes_not.1 he).2 ho
  | .isNull operand, t, he, h => by
    simp only [lower, Outcome.result_bind, Option.bind_eq_some_iff] at h
    obtain ⟨o, ho, h⟩ := h
    cases h
    rw [Expr.tupleWritten_of_not_sequence rfl, Expr.writesTuple, Schema.leavesTuple]
    exact lower_tupleWritten hs mode false operand (Expr.allNodes_isNull.1 he).2 ho
  | .sequence items, t, he, h => by
    simp only [lower, Outcome.result_bind, Option.bind_eq_some_iff] at h
    obtain ⟨xs, hxs, h⟩ := h
    cases h
    have hany := lowerAll_tupleWritten hs mode items (Expr.allNodes_sequence.1 he).2 hxs
    rw [Expr.tupleWritten_sequence, hany, Schema.leavesTuple]
    simp
  | .storage _, _, he, _ | .aliased .., _, he, _ => by
    cases he.self
  | .negate _, _, _, h | .call .., _, _, h | .parameter .., _, _, h | .construct .., _, _, h
  | .subquery _, _, _, h | .extension .., _, _, h | .read _, _, _, h => by
    rw [lower] at h
    cases h

theorem lowerAll_tupleWritten (hs : s.IsInitial q) (mode : Mode) : ∀ (es : List Expr) {ts : List Expr},
    (∀ e ∈ es, e.IsFrontEnd) → (s.lowerAll mode es).result = some ts →
      ((∃ t ∈ ts, t.writesTuple = true) ↔ s.schema.anyLeavesTuple es = true)
  | [], ts, _, h => by
    rw [lowerAll] at h
    cases h
    rw [Schema.anyLeavesTuple]
    simp
  | e :: es, ts, hes, h => by
    simp only [lowerAll, Outcome.result_bind, Option.bind_eq_some_iff] at h
    obtain ⟨t, ht, ts', hts, h⟩ := h
    cases h
    have hfirst : t.writesTuple = true ↔ _ := lower_tupleWritten hs mode false e (hes e List.mem_cons_self) ht
    rw [Schema.anyLeavesTuple, Bool.or_eq_true, ← hfirst,
      ← lowerAll_tupleWritten hs mode es (fun e he => hes e (List.mem_cons_of_mem _ he)) hts]
    simp

end

end Scope

/-! ## Writing lowered expressions -/

theorem Generator.render_returning_eq_error_iff (g : Generator) (e : Expr) (err : RenderError) :
    g.render (.returning e) = .error err ↔ g.expr none e = .error err := by
  obtain ⟨opening, hopening⟩ := g.opening_returning
  rw [render, Generator.read, hopening]
  cases h : g.expr none e with
  | error err' => simp [returned, star, exprs, Read.returning, Read.empty, h, bind, Except.bind]
  | ok pieces =>
    simp [returned, star, exprs, sortTerms, option, Read.returning, Read.empty, h, bind, Except.bind, pure, Except.pure]

namespace Scope

variable {s : Scope} {q : Query} {mode : Mode}

/-- What a front-end expression is lowered to can be written with the standard styles, unless the expression leaves a
tuple. Then it fails for the tuple, although it has a lowered form. -/
theorem lower_written (hs : s.IsInitial q) {e t : Expr} (he : e.IsFrontEnd) (h : (s.lower mode e).result = some t)
    (g : Generator) (hg : g.styles = .standard) :
    (∀ hint err, g.expr hint t = .error err ↔
      err = .unsupportedExpression .sequence ∧ s.schema.leavesTuple false e = true) ∧
    ∀ err, g.render (.returning t) = .error err ↔
      err = .unsupportedExpression .sequence ∧ s.schema.leavesTuple false e = true := by
  have hleaves : t.writesTuple = true ↔ s.schema.leavesTuple false e = true := lower_tupleWritten hs mode false e he h
  have hexpr : ∀ hint err, g.expr hint t = .error err ↔
      err = .unsupportedExpression .sequence ∧ s.schema.leavesTuple false e = true := by
    intro hint err
    rw [(Generator.expr_failsIf hg hint t (hs.lower_server he h)).eq_error_iff, hleaves]
  exact ⟨hexpr, fun err => (g.render_returning_eq_error_iff t err).trans (hexpr none err)⟩

theorem lower_written_of_equal_tuples :
    let keys := Expr.sequence [warehouses.member "Id" .int64, warehouses.member "Size" .int32]
    ∃ t, (warehouseScope.lower .condition (.plain .equal keys keys)).result = some t ∧
      ∀ err, ({} : Generator).render (.returning t) ≠ .error err := by
  intro keys
  have hfrontEnd : (Expr.plain .equal keys keys).IsFrontEnd := by
    unfold Expr.IsFrontEnd Expr.AllNodes
    decide
  have hlower : (warehouseScope.lower .condition (.plain .equal keys keys)).result = some _ := rfl
  refine ⟨_, hlower, fun err herr => ?_⟩
  have hleaves := ((lower_written warehouseScope_isInitial hfrontEnd hlower {} rfl).2 err).1 herr
  exact absurd hleaves.2 (by decide)

/-- The sum of a tuple and a number has a lowered form that cannot be written. -/
theorem sum_of_tuple_unwritten :
    let sum := Expr.plain .add (.sequence [warehouses.member "Size" .int32]) (.ofValue (.int32 1))
    ∃ t, (warehouseScope.lower .result sum).result = some t ∧
      ({} : Generator).render (.returning t) = .error (.unsupportedExpression .sequence) :=
  ⟨_, rfl, rfl⟩

end Scope

end GraphQuery
