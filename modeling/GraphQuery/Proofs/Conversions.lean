import GraphQuery.Proofs.Rewritten

/-!
# Conversions

A conversion leaves no trace in the text. What is asked of an operand looks through it: whether it is grouped, which
style it gives to literals, and whether a branch is a truth value. The one question that does not is whether a negation
stands in front of a test for null, since only a bare test takes the words of the negation into its own. Apart from
such negations of converted tests, a read and the read without its conversions fail alike or have the same text and the
same parameters (`Generator.render_unconverted`).
-/

namespace GraphQuery

/-- Puts the operand in the place of every conversion. -/
def unconverting : Rewriting where
  node _
    | .convert e _ => e
    | e => e

namespace Expr

/-- Whether an expression is a test for null. -/
def isNullTest : Expr → Bool
  | .isNull _ => true
  | _ => false

/-- Whether an expression is the negation of a test for null under a conversion. -/
def negatesConvertedTest : Expr → Bool
  | .not (.convert e _) => e.bare.isNullTest
  | _ => false

/-! ## What looks through conversions -/

variable (branch : Bool)

theorem isInfix_unconverting : ∀ e : Expr, (e.rewrite unconverting branch).isInfix = e.isInfix
  | .convert e _ => isInfix_unconverting e
  | .constant .. | .parameter .. | .source .. | .member .. | .binary .. | .conditional .. | .not _ | .negate _
  | .isNull _ | .call .. | .construct .. | .subquery _ | .extension .. | .sequence _ | .storage _ | .aliased ..
  | .read _ => rfl

/-- What becomes a test for null was one, perhaps converted. -/
theorem isNullTest_unconverting : ∀ e : Expr, (e.rewrite unconverting branch).isNullTest = e.bare.isNullTest
  | .convert e _ => isNullTest_unconverting e
  | .constant .. | .parameter .. | .source .. | .member .. | .binary .. | .conditional .. | .not _ | .negate _
  | .isNull _ | .call .. | .construct .. | .subquery _ | .extension .. | .sequence _ | .storage _ | .aliased ..
  | .read _ => rfl

/-- An operand that is no test for null becomes none, unless its negation negates a converted test. -/
theorem unconverting_ne_isNull {e : Expr} (hnull : ∀ inner, e ≠ .isNull inner)
    (h : (Expr.not e).negatesConvertedTest = false) (inner : Expr) : e.rewrite unconverting branch ≠ .isNull inner := by
  intro heq
  have htest : e.bare.isNullTest = true := by rw [← isNullTest_unconverting branch e, heq, isNullTest]
  cases e with
  | isNull x => exact hnull x rfl
  | convert e t =>
    rw [negatesConvertedTest] at h
    rw [bare, h] at htest
    cases htest
  | _ => cases htest

end Expr

namespace Generator

variable {g : Generator}

theorem storedStyle?_unconverting (branch : Bool) :
    ∀ e : Expr, g.storedStyle? (e.rewrite unconverting branch) = g.storedStyle? e
  | .convert e _ => storedStyle?_unconverting branch e
  | .aliased _ e => storedStyle?_unconverting false e
  | .constant .. | .parameter .. | .source .. | .member .. | .binary .. | .conditional .. | .not _ | .negate _
  | .isNull _ | .call .. | .construct .. | .subquery _ | .extension .. | .sequence _ | .storage _ | .read _ => rfl

theorem branchToken?_unconverting (branch : Bool) :
    ∀ e : Expr, g.branchToken? (e.rewrite unconverting branch) = g.branchToken? e
  | .convert e _ => branchToken?_unconverting branch e
  | .constant .. | .parameter .. | .source .. | .member .. | .binary .. | .conditional .. | .not _ | .negate _
  | .isNull _ | .call .. | .construct .. | .subquery _ | .extension .. | .sequence _ | .storage _ | .aliased ..
  | .read _ => rfl

/-! ## Expressions and reads -/

/-- An expression is written like the one without its conversions, if no converted test for null is negated. -/
theorem expr_unconverting (hint : Option LiteralStyle) (branch : Bool) {e : Expr}
    (he : e.AllNodes fun n => n.negatesConvertedTest = false) :
    g.expr hint (e.rewrite unconverting branch) = g.expr hint e := by
  fun_induction Generator.expr g hint e generalizing branch with
  | case1 hint op left right detail hop ihl ihr =>
    obtain ⟨-, hl, hr⟩ := Expr.allNodes_binary.1 he
    change g.expr hint (.binary op (left.rewrite _ false) (right.rewrite _ false) detail) = _
    simp only [Generator.expr, hop, ihl false hl, ihr false hr]
  | case2 hint op left right detail symbol hop inner ihl ihr =>
    obtain ⟨-, hl, hr⟩ := Expr.allNodes_binary.1 he
    change g.expr hint (.binary op (left.rewrite _ false) (right.rewrite _ false) detail) = _
    have hinner : g.operandHint hint op (left.rewrite unconverting false) (right.rewrite unconverting false) =
        inner := by
      rw [operandHint, storedStyle?_unconverting, storedStyle?_unconverting]
      rfl
    simp only [Generator.expr, hop, hinner, ihl false hl, ihr false hr, Expr.isInfix_unconverting]
  | case3 hint test ifTrue ifFalse type hbool ih =>
    change g.expr hint (.conditional (test.rewrite _ false) _ _ type) = _
    simp only [Generator.expr, hbool, if_true]
    exact ih false (Expr.allNodes_conditional.1 he).2.1
  | case4 hint test ifTrue ifFalse type hbool iht ihb iha =>
    obtain ⟨-, ht, ha, hb⟩ := Expr.allNodes_conditional.1 he
    change g.expr hint
      (.conditional (test.rewrite _ false) (ifTrue.rewrite _ true) (ifFalse.rewrite _ true) type) = _
    simp only [Generator.expr, hbool, iht false ht, iha true ha, ihb true hb, branchToken?_unconverting,
      Bool.false_eq_true, ↓reduceIte]
  | case7 hint operand type ih => exact ih branch (Expr.allNodes_convert.1 he).2
  | case8 hint operand ih =>
    change g.expr hint (.isNull (operand.rewrite _ false)) = _
    simp only [Generator.expr, ih false (Expr.allNodes_isNull.1 he).2]
  | case9 hint operand ih =>
    change g.expr hint (.not (.isNull (operand.rewrite _ false))) = _
    simp only [Generator.expr, ih false (Expr.allNodes_isNull.1 (Expr.allNodes_not.1 he).2).2]
  | case10 hint operand hnull ih =>
    obtain ⟨hself, hoperand⟩ := Expr.allNodes_not.1 he
    change g.expr hint (.not (operand.rewrite _ false)) = _
    rw [Generator.expr, ih false hoperand]
    -- The operand without its conversions is still no test for null, so the negation stays in front.
    exact fun inner => Expr.unconverting_ne_isNull false hnull hself inner
  | case12 hint name e ih =>
    change g.expr hint (.aliased name (e.rewrite _ false)) = _
    simp only [Generator.expr, ih false (Expr.allNodes_aliased.1 he).2]
  | _ => rfl

/-- A read that negates no converted test for null and the read without its conversions fail alike, or have the same
text and the same parameters. -/
theorem render_unconverted (g : Generator) {r : Read}
    (hr : ∀ e ∈ r.written, e.AllNodes fun n => n.negatesConvertedTest = false) :
    g.render (r.rewrite unconverting) = g.render r :=
  render_rewrite fun e he => expr_unconverting none false (hr e he)

/-- A negation takes the words of a test for null into its own, and those of a converted test it does not. -/
example :
    let test : Expr := .isNull (.constant .null .object)
    Generator.expr {} none (.not test) = .ok [.text "null", .text " IS NOT NULL"] ∧
      Generator.expr {} none (.not (.convert test .bool)) =
        .ok [.text "NOT (", .text "null", .text " IS NULL", .text ")"] :=
  ⟨rfl, rfl⟩

/-- A read of warehouses that passes a compared property, a branch and an operand through a function. -/
def openedWarehouses (through : Expr → Expr) : Read :=
  let node : Node := ⟨some "w", ["Warehouse"]⟩
  let opened : Expr :=
    .storage ⟨"Opened", ⟨"Warehouse", { name := "Opened", type := .string, storeType := some "date" }⟩, node⟩
  let size : Expr := .storage ⟨"Size", ⟨"Warehouse", { name := "Size", type := .int64 }⟩, node⟩
  let number (n : Int64) : Expr := .constant (.int64 n) .int64
  ⟨[.pattern ⟨{ start := node }, none, false, none⟩],
    [.conditional (.plain .lessThan (through opened) (.constant (.string "2020-01-01") .string))
      (through (.constant (.bool true) .bool)) (.plain .multiply (through (.plain .add size (number 1))) (number 2))
      .object],
    [], none, none, false, none, [], "s"⟩

/-- Conversions show neither in the literal of a day, nor in a branch, nor in the grouping of operands. -/
theorem render_unconverted_of_opened :
    let g : Generator := {}
    let r := openedWarehouses fun e => .convert e .object
    (∀ e ∈ r.written, e.AllNodes fun n => n.negatesConvertedTest = false) ∧
      r.rewrite unconverting = openedWarehouses id ∧ g.render (openedWarehouses id) = g.render r ∧
      (g.render r).toOption.map Rendered.text = some
        ("MATCH (w:Warehouse) RETURN CASE\n    WHEN \x22w\x22.\x22Opened\x22 < date('2020-01-01')\n" ++
          "    THEN true ELSE (\x22w\x22.\x22Size\x22 + 1) * (2)\nEND") := by
  intro g r
  have hr : ∀ e ∈ r.written, ∀ n ∈ e.nodes, n.negatesConvertedTest = false := by decide +kernel
  exact ⟨hr, rfl, g.render_unconverted hr, by decide +kernel⟩

end Generator

end GraphQuery
