import GraphQuery.Proofs.Separated

/-!
# Settings of the layout

Two settings count only when pieces are written: the indent, and the text in front of the numbers of placeholders. The
pieces of a read are the same whatever is chosen for them, and so is the error of a read that has none
(`Generator.read_laidOut`).
-/

namespace GraphQuery.Generator

variable {g : Generator}

/-- The generator with another indent and another text in front of the numbers of placeholders. -/
def laidOut (g : Generator) (indent slotPrefix : String) : Generator :=
  { g with settings := { g.settings with indent, parameterPrefix := slotPrefix } }

variable (indent slotPrefix : String)

theorem storedStyle?_laidOut (e : Expr) : (g.laidOut indent slotPrefix).storedStyle? e = g.storedStyle? e := by
  fun_induction Generator.storedStyle? g e
  case case1 ih | case2 ih => exact ih
  case case3 => rfl
  case case4 hconvert haliased hstorage => exact storedStyle?.eq_4 _ _ hconvert haliased hstorage

theorem operandHint_laidOut (hint : Option LiteralStyle) (op : Operator) (left right : Expr) :
    (g.laidOut indent slotPrefix).operandHint hint op left right = g.operandHint hint op left right := by
  simp only [operandHint, storedStyle?_laidOut]

theorem expr_laidOut (hint : Option LiteralStyle) (e : Expr) :
    (g.laidOut indent slotPrefix).expr hint e = g.expr hint e := by
  fun_induction Generator.expr g hint e
  case case1 hop ihl ihr => simp only [expr, hop, ihl, ihr]
  case case2 hop inner ihl ihr => simp only [expr, hop, operandHint_laidOut, inner, ihl, ihr]
  case case3 hbool ih => simp only [expr, hbool, ih, ↓reduceIte]
  case case4 hbool iht ihb iha => simp only [expr, hbool, iht, ihb, iha]; rfl
  case case7 ih => exact ih
  case case8 ih => simp only [expr, ih]
  case case9 ih => simp only [expr, ih]
  case case10 hnull ih => simp only [expr, ih]
  case case12 ih => simp only [expr, ih]; rfl
  all_goals rfl

theorem sortTerm_laidOut (term : SortTerm) : (g.laidOut indent slotPrefix).sortTerm term = g.sortTerm term := by
  simp only [sortTerm, expr_laidOut]

theorem clause_laidOut (c : ReadingClause) : (g.laidOut indent slotPrefix).clause c = g.clause c := by
  cases c with
  | pattern c =>
    simp only [clause, patternMatch, expr_laidOut]
    rfl
  | nested source r => rfl

theorem option_laidOut (keyword : String) (e : Option Expr) :
    (g.laidOut indent slotPrefix).option keyword e = g.option keyword e := by
  cases e with
  | none => rfl
  | some e => simp only [option, expr_laidOut]

/-- The pieces of a read depend neither on the indent nor on what stands in front of the numbers. -/
theorem read_laidOut (r : Read) : (g.laidOut indent slotPrefix).read r = g.read r := by
  have hexprs := (g.laidOut indent slotPrefix).exprs_separated.eq_of_one g.exprs_separated
    (expr_laidOut indent slotPrefix none)
  have hterms := (g.laidOut indent slotPrefix).sortTerms_separated.eq_of_one g.sortTerms_separated
    (sortTerm_laidOut indent slotPrefix)
  have hclauses := (g.laidOut indent slotPrefix).clauses_separated.eq_of_one g.clauses_separated
    (clause_laidOut indent slotPrefix)
  simp only [read, opening, returned, hexprs, hterms, hclauses, option_laidOut]
  rfl

end GraphQuery.Generator
