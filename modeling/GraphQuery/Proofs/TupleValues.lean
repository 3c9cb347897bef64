import GraphQuery.Proofs.Comparisons
import GraphQuery.Proofs.PredicateTexts
import GraphQuery.Proofs.Renaming

/-!
# The values of comparisons of tuples

An equality of tuples is written as the conjunction of tests of their members, pair by pair. A pair with the constant
null is a null test of the other member, since an equality with null would be null and never true. All other pairs are
equalities. An inequality is written as a disjunction of the opposite tests, and in three-valued logic its value is the
negation of that of the equality (`Expr.unfoldSequences_value`).

Both follow from one induction over the pairs: what has been joined so far has the value of the conjunction of tests,
or the negation of this value, and by De Morgan's law one more pair keeps it so.
-/

namespace GraphQuery

/-! ## Three-valued conjunctions -/

namespace Datum

variable {α : Type}

/-- Whether a value is null or a truth value. -/
def IsLogical : Datum α → Prop
  | .other _ => False
  | _ => True

/-- The conjunction of any number of values. -/
def all (xs : List (Datum α)) : Datum α :=
  xs.foldr and (.truth true)

/-- Equality in three-valued logic, from equality of values other than null. -/
def equal (same : Datum α → Datum α → Bool) : Datum α → Datum α → Datum α
  | .null, _ => .null
  | _, .null => .null
  | x, y => .truth (same x y)

theorem and_isLogical (x y : Datum α) : (x.and y).IsLogical := by
  fun_cases and x y <;> trivial

theorem isNull_isLogical (x : Datum α) : x.isNull.IsLogical := by
  cases x <;> trivial

theorem equal_isLogical (same : Datum α → Datum α → Bool) (x y : Datum α) : (equal same x y).IsLogical := by
  fun_cases equal same x y <;> trivial

theorem and_truth {x : Datum α} (h : x.IsLogical) : x.and (.truth true) = x := by
  rcases x with _ | (_ | _) | _ <;> first | rfl | exact h.elim

-- A value that is no truth value counts as null here, so both laws hold of all values.
theorem and_assoc (x y z : Datum α) : (x.and y).and z = x.and (y.and z) := by
  rcases x with _ | (_ | _) | _ <;> rcases y with _ | (_ | _) | _ <;> rcases z with _ | (_ | _) | _ <;> rfl

theorem not_and (x y : Datum α) : (x.and y).not = x.not.or y.not := by
  rcases x with _ | (_ | _) | _ <;> rcases y with _ | (_ | _) | _ <;> rfl

end Datum

/-- The value of a comparison by the value of the equality of its operands. -/
def Operator.ofEquality {α : Type} : Operator → Datum α → Datum α
  | .notEqual, x => x.not
  | _, x => x

theorem Operator.ofEquality_eq {α : Type} {op : Operator} (h : op ≠ .notEqual) (x : Datum α) : op.ofEquality x = x := by
  cases op <;> first | rfl | exact absurd rfl h

/-! ## Conditions -/

/-- The values of the operands of conditions, and which values other than null are the same. -/
structure Valuation (α : Type) where
  operand : Expr → Datum α
  same : Datum α → Datum α → Bool

namespace Expr

section

variable {α : Type} (v : Valuation α)

/-- The value of an operand. The constant null is null, and conversions change no value. -/
def operandValue (e : Expr) : Datum α :=
  if e.isNullConstant then .null else v.operand e.bare

/-- The value of a condition in three-valued logic. -/
def conditionValue : Expr → Datum α
  | .constant (.bool b) _ => .truth b
  | .convert e _ => e.conditionValue
  | .isNull e => (e.operandValue v).isNull
  | .not e => e.conditionValue.not
  | .binary op l r d =>
    match op with
    | .and | .andAlso => l.conditionValue.and r.conditionValue
    | .or | .orElse => l.conditionValue.or r.conditionValue
    | .equal => .equal v.same (l.operandValue v) (r.operandValue v)
    | .notEqual => (Datum.equal v.same (l.operandValue v) (r.operandValue v)).not
    | _ => operandValue v (.binary op l r d)
  | e => e.operandValue v

/-- The test of a pair of members: whether the other member is null where one is the constant null, and otherwise
equality. -/
def pairTest (l r : Expr) : Datum α :=
  if r.isNullConstant then (l.operandValue v).isNull
  else if l.isNullConstant then (r.operandValue v).isNull
  else .equal v.same (l.operandValue v) (r.operandValue v)

/-- The tests of all pairs of members. -/
def pairTests (ls rs : List Expr) : List (Datum α) :=
  List.zipWith (pairTest v) ls rs

theorem operandValue_withoutNullableConvert (e : Expr) :
    e.withoutNullableConvert.operandValue v = e.operandValue v := by
  unfold withoutNullableConvert
  split
  · rfl
  · rfl

theorem pairTest_isLogical (l r : Expr) : (pairTest v l r).IsLogical := by
  unfold pairTest
  split
  · exact Datum.isNull_isLogical _
  · split
    · exact Datum.isNull_isLogical _
    · exact Datum.equal_isLogical _ _ _

/-! ## One pair -/

theorem pairComparison_value {op : Operator} (hop : op.isEquality = true) (l r : Expr) :
    (pairComparison op l r).conditionValue v = op.ofEquality (pairTest v l r) := by
  have hnullTest : ∀ x : Expr, (isNull x.withoutNullableConvert).conditionValue v = (x.operandValue v).isNull := by
    intro x
    rw [conditionValue, operandValue_withoutNullableConvert]
  unfold pairComparison nullTest? pairTest
  cases op with
  | equal =>
    cases r.isNullConstant with
    | true => exact hnullTest l
    | false =>
      cases l.isNullConstant with
      | true => exact hnullTest r
      | false => rfl
  | notEqual =>
    cases r.isNullConstant with
    | true => exact congrArg Datum.not (hnullTest l)
    | false =>
      cases l.isNullConstant with
      | true => exact congrArg Datum.not (hnullTest r)
      | false => rfl
  | _ => cases hop

/-- One more pair is joined by the conjunction of an equality, and by the disjunction of an inequality. -/
theorem joined_value (op : Operator) {joined pair : Expr} {x y : Datum α}
    (hjoined : joined.conditionValue v = op.ofEquality x) (hpair : pair.conditionValue v = op.ofEquality y) :
    (if op = .notEqual then orElse joined pair else andAlso joined pair).conditionValue v =
      op.ofEquality (x.and y) := by
  by_cases hop : op = .notEqual
  · subst hop
    calc (orElse joined pair).conditionValue v = (joined.conditionValue v).or (pair.conditionValue v) := rfl
      _ = x.not.or y.not := by rw [hjoined, hpair]; rfl
      _ = (x.and y).not := (Datum.not_and x y).symm
  · rw [if_neg hop]
    calc (andAlso joined pair).conditionValue v = (joined.conditionValue v).and (pair.conditionValue v) := rfl
      _ = x.and y := by rw [hjoined, hpair, op.ofEquality_eq hop, op.ofEquality_eq hop]
      _ = op.ofEquality (x.and y) := (op.ofEquality_eq hop _).symm

/-! ## All pairs -/

theorem joinPairs_value {op : Operator} (hop : op.isEquality = true) :
    ∀ (ls rs : List Expr) {first : Expr} {x : Datum α}, first.conditionValue v = op.ofEquality x → x.IsLogical →
      (joinPairs op first (List.zipWith (pairComparison op) ls rs)).conditionValue v =
        op.ofEquality (x.and (.all (pairTests v ls rs)))
  | [], _, _, x, hfirst, hx => by
    rw [pairTests, List.zipWith_nil_left]
    exact hfirst.trans (congrArg op.ofEquality (Datum.and_truth hx).symm)
  | _ :: _, [], _, x, hfirst, hx => hfirst.trans (congrArg op.ofEquality (Datum.and_truth hx).symm)
  | l :: ls, r :: rs, first, x, hfirst, _ => by
    have hnext := joined_value v op hfirst (pairComparison_value v hop l r)
    have hrest := joinPairs_value hop ls rs hnext (Datum.and_isLogical _ _)
    exact hrest.trans (congrArg op.ofEquality (Datum.and_assoc _ _ _))

end

variable {ls rs : List Expr} {l r : Expr} {op : Operator} {d : OperatorDetail}

/-- Tuples of one length, other than empty ones, are compared by the tests of all their pairs. -/
theorem unfoldPairs?_value (op : Operator) (hop : op.isEquality = true) (hlength : ls.length = rs.length)
    (hne : ls ≠ []) :
    ∃ t, unfoldPairs? op ls rs = some t ∧
      ∀ (α : Type) (v : Valuation α), t.conditionValue v = op.ofEquality (.all (pairTests v ls rs)) := by
  cases ls with
  | nil => exact absurd rfl hne
  | cons l ls =>
    cases rs with
    | nil => cases hlength
    | cons r rs =>
      have hjoined : ∀ (α : Type) (v : Valuation α),
          (joinPairs op (pairComparison op l r) (List.zipWith (pairComparison op) ls rs)).conditionValue v =
            op.ofEquality (.all (pairTests v (l :: ls) (r :: rs))) :=
        fun α v => joinPairs_value v hop ls rs (pairComparison_value v hop l r) (pairTest_isLogical v l r)
      rw [unfoldPairs?, if_pos hlength, List.zipWith_cons_cons]
      simp only
      split
      · rename_i hsingle
        have hequal : op = .equal := by
          rw [Bool.and_eq_true, decide_eq_true_eq] at hsingle
          exact hsingle.2
        subst hequal
        refine ⟨_, rfl, fun α v => ?_⟩
        -- The truth value that follows the only test changes nothing.
        calc (andAlso _ truth).conditionValue v = (Datum.all (pairTests v (l :: ls) (r :: rs))).and (.truth true) :=
              congrArg (Datum.and · (.truth true)) (hjoined α v)
          _ = .all (pairTests v (l :: ls) (r :: rs)) := Datum.and_truth (Datum.and_isLogical _ _)
      · exact ⟨_, rfl, hjoined⟩

theorem unfoldPairs?_eq_none (h : ls.length ≠ rs.length ∨ ls = []) : unfoldPairs? op ls rs = none := by
  unfold unfoldPairs?
  rcases h with hlength | rfl
  · rw [if_neg hlength]
  · split
    · rfl
    · rfl

/-! ## Tuples -/

/-- The members by which two operands are compared, at least one of which is a tuple. The constant null stands for as
many nulls as the other operand has members. -/
def ComparedBy (l r : Expr) (ls rs : List Expr) : Prop :=
  (l.bare = .sequence ls ∧ r.bare = .sequence rs) ∨
    (l.bare = .sequence ls ∧ r.isNullConstant = true ∧ rs = List.replicate ls.length r.bare) ∨
    (l.isNullConstant = true ∧ ls = List.replicate rs.length l.bare ∧ r.bare = .sequence rs)

theorem items?_of_not_sequence {e : Expr} (h : e.isSequence = false) : e.bare.items? = none := by
  cases hitems : e.bare with
  | sequence items =>
    rw [isSequence_iff.2 ⟨items, hitems⟩] at h
    cases h
  | _ => rfl

theorem unfoldSequences?_of_comparedBy (h : ComparedBy l r ls rs) :
    unfoldSequences? (.binary op l r d) = unfoldPairs? op ls rs := by
  rw [unfoldSequences_eq]
  rcases h with ⟨hl, hr⟩ | ⟨hl, hnull, rfl⟩ | ⟨hnull, rfl, hr⟩
  · rw [hl, hr]
    rfl
  · rw [hl, items?_of_not_sequence (not_sequence_of_isNullConstant hnull), isNullConstant_bare, hnull]
    rfl
  · rw [hr, items?_of_not_sequence (not_sequence_of_isNullConstant hnull), isNullConstant_bare, hnull]
    rfl

/-- A tuple is not compared with an operand that is neither a tuple nor null. -/
theorem unfoldSequences?_of_one_tuple (h : l.isSequence ≠ r.isSequence) (hl : l.isNullConstant = false)
    (hr : r.isNullConstant = false) : unfoldSequences? (.binary op l r d) = none := by
  rw [unfoldSequences_eq, isNullConstant_bare, isNullConstant_bare, hl, hr]
  cases hleft : l.isSequence with
  | true =>
    obtain ⟨ls, hls⟩ := isSequence_iff.1 hleft
    have hright : r.isSequence = false := by
      rw [hleft] at h
      exact Bool.eq_false_iff.2 h.symm
    rw [hls, items?_of_not_sequence hright]
    rfl
  | false =>
    have hright : r.isSequence = true := by
      rw [hleft] at h
      exact eq_true_of_ne_false h.symm
    obtain ⟨rs, hrs⟩ := isSequence_iff.1 hright
    rw [hrs, items?_of_not_sequence hleft]
    rfl

/-- The value of the equality of two tuples of one length is the conjunction of the tests of their pairs, and the value
of their inequality is its negation, whatever the values of the members are. Tuples of different lengths and empty
tuples are not compared, nor is a tuple with any other operand than a tuple or null. -/
theorem unfoldSequences_value (l r : Expr) (d d' : OperatorDetail) :
    (∀ ls rs, ComparedBy l r ls rs → ls.length = rs.length → ls ≠ [] →
      ∃ equal differ, unfoldSequences? (.binary .equal l r d) = some equal ∧
        unfoldSequences? (.binary .notEqual l r d') = some differ ∧
        ∀ (α : Type) (v : Valuation α), equal.conditionValue v = .all (pairTests v ls rs) ∧
          differ.conditionValue v = (equal.conditionValue v).not) ∧
    (∀ ls rs, ComparedBy l r ls rs → ls.length ≠ rs.length ∨ ls = [] →
      unfoldSequences? (.binary .equal l r d) = none ∧ unfoldSequences? (.binary .notEqual l r d') = none) ∧
    (l.isSequence ≠ r.isSequence → l.isNullConstant = false → r.isNullConstant = false →
      unfoldSequences? (.binary .equal l r d) = none ∧ unfoldSequences? (.binary .notEqual l r d') = none) := by
  refine ⟨?_, ?_, ?_⟩
  · intro ls rs hcompared hlength hne
    obtain ⟨equal, hequal, hvalue⟩ := unfoldPairs?_value .equal rfl hlength hne
    obtain ⟨differ, hdiffer, hvalue'⟩ := unfoldPairs?_value .notEqual rfl hlength hne
    refine ⟨equal, differ, ?_, ?_, fun α v => ⟨hvalue α v, ?_⟩⟩
    · rw [unfoldSequences?_of_comparedBy hcompared, hequal]
    · rw [unfoldSequences?_of_comparedBy hcompared, hdiffer]
    · rw [hvalue' α v, hvalue α v]
      rfl
  · intro ls rs hcompared hnone
    rw [unfoldSequences?_of_comparedBy hcompared, unfoldSequences?_of_comparedBy hcompared, unfoldPairs?_eq_none hnone,
      unfoldPairs?_eq_none hnone]
    exact ⟨rfl, rfl⟩
  · intro h hl hr
    exact ⟨unfoldSequences?_of_one_tuple h hl hr, unfoldSequences?_of_one_tuple h hl hr⟩

/-- A tuple of a size and a null, compared with null: the second pair has nulls on both sides. -/
theorem unfoldSequences_value_of_nulls :
    let null := Expr.constant .null .object
    let ls := [Expr.parameter "size" .int32, null]
    ComparedBy (.sequence ls) (.convert null .memberSequence) ls [null, null] ∧
      ∃ equal differ, unfoldSequences? (.binary .equal (.sequence ls) (.convert null .memberSequence) {}) = some equal ∧
        unfoldSequences? (.binary .notEqual (.sequence ls) (.convert null .memberSequence) {}) = some differ ∧
        ∀ (α : Type) (v : Valuation α), equal.conditionValue v = .all (pairTests v ls [null, null]) ∧
          differ.conditionValue v = (equal.conditionValue v).not := by
  intro null ls
  have hcompared : ComparedBy (.sequence ls) (.convert null .memberSequence) ls [null, null] :=
    .inr (.inl ⟨rfl, rfl, rfl⟩)
  exact ⟨hcompared, (unfoldSequences_value _ _ {} {}).1 ls [null, null] hcompared rfl (List.cons_ne_nil _ _)⟩

end Expr

end GraphQuery
