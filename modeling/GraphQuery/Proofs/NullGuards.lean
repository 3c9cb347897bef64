import GraphQuery.Expr.NullGuard
import GraphQuery.Proofs.StructuralEquality
import GraphQuery.Proofs.TupleValues

/-!
# Null guards can be dropped

A conditional that only protects a chain of member accesses from null has the value of the chain
(`Expr.guarded_value`). If the guarded operand is not null the test chooses the chain. If it is null the test chooses
the other branch, which is the constant null, and then the chain is null as well: it passes through an operand equal to
the guarded one, and an access to a member of null is null.

This holds of every evaluation with a few laws (`Evaluation`). One with all of them gives each source a current item and
each item its members (`Evaluation.ofObjects`).
-/

namespace GraphQuery

/-! ## Evaluations -/

theorem Datum.isNull_of_ne {α : Type} {x : Datum α} (h : x ≠ .null) : x.isNull = .truth false := by
  cases x with
  | null => exact absurd rfl h
  | _ => rfl

theorem Datum.truth_eq_null {α : Type} [DecidableEq α] (x : Datum α) : .truth (decide (x = .null)) = x.isNull := by
  cases x <;> rfl

theorem Datum.truth_ne_null {α : Type} [DecidableEq α] (x : Datum α) : .truth (decide (x ≠ .null)) = x.isNull.not := by
  cases x <;> rfl

section

variable {α : Type} {value : Expr → Datum α} (hconvert : ∀ e t, value (.convert e t) = value e)

include hconvert

theorem Expr.value_bare (e : Expr) : value e.bare = value e := by
  fun_induction Expr.bare e with
  | case1 e t ih => rw [ih, hconvert]
  | case2 e h => rfl

theorem Expr.value_of_isNullConstant (hnull : ∀ t, value (.constant .null t) = .null) {e : Expr}
    (h : e.isNullConstant = true) : value e = .null := by
  unfold Expr.isNullConstant at h
  split at h
  · rename_i t hbare
    rw [← Expr.value_bare hconvert, hbare, hnull]
  · cases h

end

/-- Values of expressions. Conversions change no value, null is null, and so is each member of it. Equal expressions
have equal values. A comparison with the constant null, on either side, is a null test, and a test chooses a branch. -/
structure Evaluation (α : Type) where
  value : Expr → Datum α
  convert : ∀ e t, value (.convert e t) = value e
  null : ∀ t, value (.constant .null t) = .null
  member : ∀ e m, value e = .null → value (.member e m) = .null
  congr : ∀ {a b : Expr}, (a == b) = true → value a = value b
  nullTest : ∀ {op : Operator} {n : Expr} (e : Expr) (d : OperatorDetail), op.isEquality = true →
    n.isNullConstant = true → value (.binary op e n d) = op.ofEquality (value e).isNull ∧
      value (.binary op n e d) = op.ofEquality (value e).isNull
  ifTrue : ∀ {c : Expr} (a b : Expr) (t : ValueType), value c = .truth true → value (.conditional c a b t) = value a
  ifFalse : ∀ {c : Expr} (a b : Expr) (t : ValueType), value c = .truth false → value (.conditional c a b t) = value b

namespace Evaluation

variable {α : Type} (v : Evaluation α)

theorem value_bare (e : Expr) : v.value e.bare = v.value e :=
  Expr.value_bare v.convert e

theorem value_of_isNullConstant {e : Expr} (h : e.isNullConstant = true) : v.value e = .null :=
  Expr.value_of_isNullConstant v.convert v.null h

end Evaluation

namespace Expr

/-! ## Chains of member accesses -/

/-- A chain of `n` member accesses from an expression that equals `root`. Conversions along the chain are ignored. -/
inductive MemberChain (root : Expr) : Nat → Expr → Prop where
  | start {e : Expr} (h : (e == root) = true) : MemberChain root 0 e
  | access {n : Nat} {target : Expr} (m : Member) (h : MemberChain root n target.bare) :
    MemberChain root (n + 1) (.member target m)

theorem memberChain_of_reachesFrom {e root : Expr} (h : e.reachesFrom root = true) :
    ∃ n, MemberChain root n e.bare := by
  fun_induction reachesFrom e root with
  | case1 e t root ih => exact ih h
  | case2 target m root ih =>
    rcases (Bool.or_eq_true _ _).mp h with hself | htarget
    · exact ⟨0, .start hself⟩
    · obtain ⟨n, hchain⟩ := ih htarget
      exact ⟨n + 1, .access m hchain⟩
  | case3 e root hconvert hmember =>
    have hbare : e.bare = e := by
      cases e with
      | convert e t => exact (hconvert e t rfl).elim
      | _ => rfl
    rw [hbare]
    exact ⟨0, .start h⟩

/-- A chain from null is null, however long it is. -/
theorem MemberChain.value_null {α : Type} (v : Evaluation α) {root e : Expr} {n : Nat} (h : MemberChain root n e)
    (hroot : v.value root = .null) : v.value e = .null := by
  induction h with
  | start hequal => rw [v.congr hequal, hroot]
  | @access n target m _ ih => exact v.member target m (by rw [← v.value_bare, ih])

/-! ## Guards -/

/-- Whether an expression compares an operand with the constant null, on one of the sides. -/
def ComparesWithNull (test : Expr) (op : Operator) (operand : Expr) : Prop :=
  ∃ left right d, test.bare = .binary op left right d ∧
    ((right.isNullConstant = true ∧ operand = left.bare) ∨
      (right.isNullConstant = false ∧ left.isNullConstant = true ∧ operand = right.bare))

theorem testedForNull?_cases {left right operand : Expr} (h : testedForNull? left right = some operand) :
    (right.isNullConstant = true ∧ operand = left.bare) ∨
      (right.isNullConstant = false ∧ left.isNullConstant = true ∧ operand = right.bare) := by
  unfold testedForNull? at h
  by_cases hright : right.isNullConstant = true
  · rw [if_pos hright] at h
    cases h
    exact .inl ⟨hright, rfl⟩
  · rw [if_neg hright] at h
    by_cases hleft : left.isNullConstant = true
    · rw [if_pos hleft] at h
      cases h
      exact .inr ⟨Bool.eq_false_iff.2 hright, hleft, rfl⟩
    · rw [if_neg hleft] at h
      cases h

/-- The chain behind a guard has at least one member access, since the operand itself is not guarded. -/
theorem memberChain_of_guards {operand result other : Expr} (h : guards operand result other = true) :
    other.isNullConstant = true ∧ ∃ n, 1 ≤ n ∧ MemberChain operand n result.bare := by
  unfold guards at h
  rw [Bool.and_eq_true, Bool.and_eq_true, Bool.not_eq_true'] at h
  obtain ⟨⟨hother, hproper⟩, hreaches⟩ := h
  obtain ⟨n, hchain⟩ := memberChain_of_reachesFrom hreaches
  refine ⟨hother, n, ?_, hchain⟩
  generalize result.bare = chain at hproper hchain
  cases hchain with
  | start hequal =>
    rw [hequal] at hproper
    cases hproper
  | access m _ => omega

/-- What a null guard consists of: a test of an operand, a branch that it protects, and null as the other branch. -/
theorem guarded_cases {test ifTrue ifFalse r : Expr} {t : ValueType}
    (h : (conditional test ifTrue ifFalse t).guarded? = some r) :
    ∃ op operand, test.ComparesWithNull op operand ∧
      ((op = .notEqual ∧ r = ifTrue ∧ guards operand ifTrue ifFalse = true) ∨
        (op = .equal ∧ r = ifFalse ∧ guards operand ifFalse ifTrue = true)) := by
  unfold guarded? guardedBranch? at h
  cases hbare : test.bare with
  | binary op left right d =>
    simp only [hbare] at h
    cases htested : testedForNull? left right with
    | none => simp [htested] at h
    | some operand =>
      have hcompares : test.ComparesWithNull op operand := ⟨left, right, d, hbare, testedForNull?_cases htested⟩
      refine ⟨op, operand, hcompares, ?_⟩
      simp only [htested] at h
      cases op with
      | notEqual =>
        by_cases hguards : guards operand ifTrue ifFalse = true
        · simp only [hguards] at h
          cases h
          exact .inl ⟨rfl, rfl, hguards⟩
        · simp [hguards] at h
      | equal =>
        by_cases hguards : guards operand ifFalse ifTrue = true
        · simp only [hguards] at h
          cases h
          exact .inr ⟨rfl, rfl, hguards⟩
        · simp [hguards] at h
      | _ => cases h
  | _ => simp [hbare] at h

/-! ## Values -/

section

variable {α : Type} (v : Evaluation α) {test operand result other : Expr}

theorem value_of_comparesWithNull {op : Operator} (hop : op.isEquality = true) (h : test.ComparesWithNull op operand) :
    v.value test = op.ofEquality (v.value operand).isNull := by
  obtain ⟨left, right, d, hbare, hoperand⟩ := h
  rw [← v.value_bare, hbare]
  rcases hoperand with ⟨hright, rfl⟩ | ⟨-, hleft, rfl⟩
  · rw [v.value_bare]
    exact (v.nullTest left d hop hright).1
  · rw [v.value_bare]
    exact (v.nullTest right d hop hleft).2

/-- When the guarded operand is null, both branches are. -/
theorem value_of_guards (h : guards operand result other = true) (hoperand : v.value operand = .null) :
    v.value other = v.value result := by
  obtain ⟨hother, n, -, hchain⟩ := memberChain_of_guards h
  rw [v.value_of_isNullConstant hother, ← v.value_bare result, hchain.value_null v hoperand]

/-- A null guard has the value of the branch that it protects. This branch is a chain of at least one member access from
an expression that equals the operand of the test. -/
theorem guarded_value {ifTrue ifFalse r : Expr} {t : ValueType}
    (h : (conditional test ifTrue ifFalse t).guarded? = some r) :
    v.value (.conditional test ifTrue ifFalse t) = v.value r ∧
      ∃ op operand n, test.ComparesWithNull op operand ∧ 1 ≤ n ∧ MemberChain operand n r.bare := by
  obtain ⟨op, operand, hcompares, hbranch⟩ := guarded_cases h
  rcases hbranch with ⟨rfl, rfl, hguards⟩ | ⟨rfl, rfl, hguards⟩
  · obtain ⟨-, n, hn, hchain⟩ := memberChain_of_guards hguards
    refine ⟨?_, .notEqual, operand, n, hcompares, hn, hchain⟩
    have htest : v.value test = (v.value operand).isNull.not := value_of_comparesWithNull v rfl hcompares
    by_cases hoperand : v.value operand = .null
    · rw [hoperand] at htest
      exact (v.ifFalse r ifFalse t htest).trans (value_of_guards v hguards hoperand)
    · rw [Datum.isNull_of_ne hoperand] at htest
      exact v.ifTrue r ifFalse t htest
  · obtain ⟨-, n, hn, hchain⟩ := memberChain_of_guards hguards
    refine ⟨?_, .equal, operand, n, hcompares, hn, hchain⟩
    have htest : v.value test = (v.value operand).isNull := value_of_comparesWithNull v rfl hcompares
    by_cases hoperand : v.value operand = .null
    · rw [hoperand] at htest
      exact (v.ifTrue ifTrue r t htest).trans (value_of_guards v hguards hoperand)
    · rw [Datum.isNull_of_ne hoperand] at htest
      exact v.ifFalse ifTrue r t htest

end

end Expr

/-! ## Objects -/

/-- What the sources, members and constants of a front end stand for. -/
structure Objects (α : Type) where
  /-- The current item of a source. -/
  item : SourceId → Datum α
  /-- The value of a member of an object. -/
  field : Member → α → Datum α
  /-- The object that a constant is, other than null and the truth values. -/
  literal : Value → α

namespace Objects

variable {α : Type} [DecidableEq α]

/-- The value of an expression. What is neither an object nor a test has none. -/
def value (o : Objects α) : Expr → Datum α
  | .constant c _ =>
    match c.unsigned with
    | .null => .null
    | .bool b => .truth b
    | other => .other (o.literal other)
  | .source id _ => o.item id
  | .member e m =>
    match o.value e with
    | .other a => o.field m a
    | _ => .null
  | .convert e _ => o.value e
  | .binary op l r _ =>
    match op with
    | .equal => .truth (decide (o.value l = o.value r))
    | .notEqual => .truth (decide (o.value l ≠ o.value r))
    | _ => .null
  | .conditional c a b _ => (o.value c).choose (o.value a) (o.value b)
  | _ => .null

variable (o : Objects α)

/-- The signs of zeros make no difference to a value. -/
theorem value_unsigning : ∀ (e : Expr) (b : Bool), o.value (e.rewrite unsigning b) = o.value e
  | .constant c t, _ => by
    have hunsigned : c.unsigned.unsigned = c.unsigned := by
      cases c with
      | float64 x => exact congrArg Value.float64 (Binary64.unsigned_unsigned x)
      | _ => rfl
    simp only [Expr.rewrite, unsigning_node, Expr.unsigned, value, hunsigned]
  | .member e m, _ => by
    simp only [Expr.rewrite, unsigning_node, Expr.unsigned, value, value_unsigning e]
  | .convert e t, b => value_unsigning e b
  | .binary op l r d, _ => by
    simp only [Expr.rewrite, unsigning_node, Expr.unsigned, value, value_unsigning l, value_unsigning r]
  | .conditional c a b t, _ => by
    simp only [Expr.rewrite, unsigning_node, Expr.unsigned, value, value_unsigning c, value_unsigning a,
      value_unsigning b]
  | .parameter .., _ | .source .., _ | .not _, _ | .negate _, _ | .isNull _, _ | .call .., _ | .construct .., _
  | .subquery _, _ | .extension .., _ | .sequence _, _ | .storage _, _ | .aliased .., _ | .read _, _ => rfl

/-- Equality of objects is a null test where one of the operands is the constant null. -/
theorem value_nullTest {op : Operator} {n : Expr} (e : Expr) (d : OperatorDetail) (hop : op.isEquality = true)
    (h : n.isNullConstant = true) : o.value (.binary op e n d) = op.ofEquality (o.value e).isNull ∧
      o.value (.binary op n e d) = op.ofEquality (o.value e).isNull := by
  have hn : o.value n = .null := Expr.value_of_isNullConstant (fun _ _ => rfl) (fun _ => rfl) h
  cases op with
  | equal =>
    simp only [value, hn, eq_comm (a := Datum.null)]
    exact ⟨Datum.truth_eq_null _, Datum.truth_eq_null _⟩
  | notEqual =>
    simp only [value, hn, ne_comm (a := Datum.null)]
    exact ⟨Datum.truth_ne_null _, Datum.truth_ne_null _⟩
  | _ => cases hop

end Objects

def Evaluation.ofObjects {α : Type} [DecidableEq α] (o : Objects α) : Evaluation α where
  value := o.value
  convert _ _ := rfl
  null _ := rfl
  member e m h := by simp only [Objects.value, h]
  congr {a b} h := by
    have hsame := ((Expr.beq_iff a b false false).1 h).2
    rw [← o.value_unsigning a false, hsame, o.value_unsigning b false]
  nullTest := o.value_nullTest
  ifTrue a b t h := by simp only [Objects.value, h, Datum.choose]
  ifFalse a b t h := by simp only [Objects.value, h, Datum.choose]

namespace Expr

def customer : Expr :=
  .source ⟨0⟩ (.entity "Customer")

/-- The city of the address of a customer, with conversions along the way. -/
def customerCity : Expr :=
  .convert (.member (.convert (.member customer ⟨"Customer", "Address", .entity "Address"⟩) .object)
    ⟨"Address", "City", .string⟩) (.nullable .string)

def customerIsNull : Expr :=
  .convert (.binary .equal (.constant .null .object) (.convert customer .object) {}) .bool

/-- A world in which whoever the customer is lives in Oslo. -/
def inOslo (customer : Datum String) : Objects String where
  item _ := customer
  field m a := .other (if m.name = "City" then "Oslo" else a)
  literal _ := ""

theorem guarded_value_of_city :
    let guard := Expr.conditional customerIsNull (.constant .null .string) customerCity (.nullable .string)
    let value := fun item => (Evaluation.ofObjects (inOslo item)).value
    guard.guarded? = some customerCity ∧
      (∀ item, value item guard = value item customerCity) ∧
      value .null customerCity = .null ∧ value (.other "Ann") customerCity = .other "Oslo" ∧
      ∃ op operand n, customerIsNull.ComparesWithNull op operand ∧ 1 ≤ n ∧ MemberChain operand n customerCity.bare := by
  intro guard value
  have hguard : guard.guarded? = some customerCity := rfl
  refine ⟨hguard, fun item => ?_, rfl, rfl, ?_⟩
  · exact (guarded_value (Evaluation.ofObjects (inOslo item)) hguard).1
  · exact (guarded_value (Evaluation.ofObjects (inOslo .null)) hguard).2

end Expr

end GraphQuery
