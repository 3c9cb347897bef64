import GraphQuery.Proofs.WrittenExprs
import Mathlib

/-!
# Literals of constants

With the standard styles every constant can be written, so no read fails for want of a literal. The style in force for
a constant comes from the stored property with which it is compared, and it counts only where it accepts the value. A
truth value, a number and a member of an enumeration are accepted by styles of one form alone, which is also the form
for their own type. Their literals are therefore the same under every style (`Generator.render_literals`), and so is
the text of an expression that holds no other constants (`Generator.expr_hint`).
-/

namespace GraphQuery

/-! ## Values with one literal -/

namespace Value

/-- The integer that a value stores, as a number or as a member of an enumeration. -/
def integer? : Value → Option Int
  | .int32 n => some n.toInt
  | .int64 n => some n.toInt
  | .enum _ n => some n.toInt
  | _ => none

/-- The literal of a value for which there is only one: a truth value, a number or a member of an enumeration. -/
def fixedLiteral? : Value → Option String
  | .bool b => some (if b then "true" else "false")
  | .float64 x => some x.literal
  | v => v.integer?.map toString

/-- An integer that has a 32-bit form is kept by it. -/
theorem narrow?_toInt {n : Int64} {small : Int32} (h : narrow? n = some small) : small.toInt = n.toInt := by
  unfold narrow? at h
  split at h
  · rename_i hfits
    cases h
    rw [← Int32.toInt_toInt64, hfits]
  · cases h

/-- A member of an enumeration becomes a number of 32 or of 64 bits, and its integer stays the same. -/
theorem withoutEnum_enum (underlying : Option ValueType) (name : String) (n : Int64) :
    (∃ small : Int32, small.toInt = n.toInt ∧ (enum name n).withoutEnum underlying = .int32 small) ∨
      (enum name n).withoutEnum underlying = .int64 n := by
  by_cases hunderlying : underlying = some .int32
  · cases hsmall : narrow? n with
    | none =>
      right
      simp only [withoutEnum, hunderlying, ↓reduceIte, hsmall]
    | some small =>
      left
      refine ⟨small, narrow?_toInt hsmall, ?_⟩
      simp only [withoutEnum, hunderlying, ↓reduceIte, hsmall]
  · right
    simp only [withoutEnum, hunderlying, ↓reduceIte]

/-- A member of an enumeration has the literal of its integer, whether that fits the underlying type or not. -/
theorem fixedLiteral?_withoutEnum (underlying : Option ValueType) (v : Value) :
    (v.withoutEnum underlying).fixedLiteral? = v.fixedLiteral? := by
  cases v with
  | enum name n =>
    rcases withoutEnum_enum underlying name n with ⟨small, hsmall, hvalue⟩ | hvalue
    · rw [hvalue]
      exact congrArg (fun k : Int => some (toString k)) hsmall
    · rw [hvalue]
      rfl
  | _ => rfl

theorem isNull_of_fixedLiteral {v : Value} {literal : String} (h : v.fixedLiteral? = some literal) :
    v.isNull = false := by
  cases v with
  | null => cases h
  | _ => rfl

end Value

/-- A style that accepts a value with only one literal writes that one. -/
theorem LiteralStyle.literal?_fixed {style : LiteralStyle} {v : Value} {literal : String}
    (hv : v.fixedLiteral? = some literal) (henum : ∀ name n, v ≠ .enum name n) (h : style.accepts v = true) :
    style.literal? v = some literal := by
  obtain ⟨store, form⟩ := style
  cases v with
  | enum name n => exact absurd rfl (henum name n)
  | bool b =>
    cases form with
    | boolean => exact hv
    | _ => cases h
  | int32 n =>
    cases form with
    | integer => exact hv
    | _ => cases h
  | int64 n =>
    cases form with
    | integer => exact hv
    | _ => cases h
  | float64 x =>
    cases form with
    | float => exact hv
    | _ => cases h
  | _ => cases hv

/-- A constant that is null or has only one literal, or an expression of another kind. -/
def Expr.IsFixed : Expr → Prop
  | .constant v _ => v.isNull = true ∨ ∃ literal, v.fixedLiteral? = some literal
  | _ => True

/-- An error for another reason than a missing literal. -/
def RenderError.HasLiteral : RenderError → Prop
  | .noLiteral _ => False
  | _ => True

/-! ## Constants -/

namespace Generator

variable {g : Generator}

/-- A value with only one literal is written by it, whatever the declared type and the style in force. -/
theorem constant_fixed (hg : g.styles = .standard) (hmode : g.settings.parameterizeLiterals = false) {v : Value}
    {literal : String} (hv : v.fixedLiteral? = some literal) (hint : Option LiteralStyle) (type : ValueType) :
    g.constant hint v type = .ok [.text literal] := by
  have hnull := Value.isNull_of_fixedLiteral hv
  obtain ⟨hnull', henum⟩ := Value.withoutEnum_cases hnull type.underlying?
  obtain ⟨style, hstyle, haccepts⟩ := literalStyle?_accepts hg hint hnull' henum
  rw [← Value.fixedLiteral?_withoutEnum type.underlying?] at hv
  have hliteral := style.literal?_fixed hv henum haccepts
  unfold constant
  rw [hnull, hmode]
  simp only [Bool.false_eq_true, ↓reduceIte, hstyle, Option.bind_some, hliteral]

/-! ## Expressions -/

theorem branch_hint {hint hint' : Option LiteralStyle} {e : Expr} {f f' : List Piece → Except RenderError (List Piece)}
    (he : g.expr hint e = g.expr hint' e) (hf : ∀ ps, f ps = f' ps) :
    (match g.branchToken? e with
      | some token => pure [Piece.text token] >>= f
      | none => g.expr hint e >>= f) =
      match g.branchToken? e with
      | some token => pure [Piece.text token] >>= f'
      | none => g.expr hint' e >>= f' := by
  rw [he, funext hf]

/-- An expression whose constants have only one literal each is the same text under every style. -/
theorem expr_hint (hg : g.styles = .standard) (hmode : g.settings.parameterizeLiterals = false)
    (hint hint' : Option LiteralStyle) {e : Expr} (he : e.AllNodes Expr.IsFixed) : g.expr hint e = g.expr hint' e := by
  fun_induction Generator.expr g hint e generalizing hint' with
  | case1 hint op left right detail hop ihl ihr =>
    obtain ⟨-, hl, hr⟩ := Expr.allNodes_binary.1 he
    simp only [Generator.expr, hop, ihl hint' hl, ihr hint' hr]
  | case2 hint op left right detail symbol hop inner ihl ihr =>
    obtain ⟨-, hl, hr⟩ := Expr.allNodes_binary.1 he
    simp only [Generator.expr, hop]
    rw [ihl (g.operandHint hint' op left right) hl, ihr (g.operandHint hint' op left right) hr]
  | case3 hint test ifTrue ifFalse type hbool ih =>
    simp only [Generator.expr, hbool, if_true]
    exact ih hint' (Expr.allNodes_conditional.1 he).2.1
  | case4 hint test ifTrue ifFalse type hbool iht ihb iha =>
    obtain ⟨-, ht, ha, hb⟩ := Expr.allNodes_conditional.1 he
    simp only [Generator.expr, hbool]
    rw [iht hint' ht]
    exact bind_congr fun c => branch_hint (iha hint' ha) fun a => branch_hint (ihb hint' hb) fun b => rfl
  | case5 hint v type =>
    rcases Expr.allNodes_constant.1 he with hnull | ⟨literal, hliteral⟩
    · simp only [Generator.expr, constant, hnull, if_true]
    · rw [Generator.expr, constant_fixed hg hmode hliteral, constant_fixed hg hmode hliteral]
  | case7 hint operand type ih => exact ih hint' (Expr.allNodes_convert.1 he).2
  | case8 hint operand ih =>
    simp only [Generator.expr, ih hint' (Expr.allNodes_isNull.1 he).2]
  | case9 hint operand ih =>
    simp only [Generator.expr, ih hint' (Expr.allNodes_isNull.1 (Expr.allNodes_not.1 he).2).2]
  | case10 hint operand hnull ih =>
    rw [Generator.expr, ih hint' (Expr.allNodes_not.1 he).2]
    exact hnull
  | case12 hint name e ih =>
    simp only [Generator.expr, ih hint' (Expr.allNodes_aliased.1 he).2]
  | _ => rfl

theorem expr_hasLiteral (hg : g.styles = .standard) (hint : Option LiteralStyle) (e : Expr) :
    Run.FailsOnly RenderError.HasLiteral (g.expr hint e) := by
  fun_induction Generator.expr g hint e
  case case1 ihl ihr | case2 ihl ihr => exact ihl.bind fun _ _ => ihr.bind fun _ _ => .pure _
  case case3 ih | case7 ih => exact ih
  case case4 iht ihb iha =>
    exact iht.bind fun _ _ => branch_fails iha fun _ => branch_fails ihb fun _ => .pure _
  case case5 hint v type =>
    obtain ⟨pieces, hpieces⟩ := constant_ok hg hint v type
    rw [hpieces]
    exact .ok pieces
  case case6 =>
    unfold parameter
    split
    · exact .ok _
    · exact .error trivial
  case case8 ih | case9 ih | case10 ih | case12 ih => exact ih.bind fun _ _ => .pure _
  case case11 =>
    unfold storage
    split
    · exact .ok _
    · exact .error trivial
  all_goals exact .error trivial

theorem read_hasLiteral (hg : g.styles = .standard) (r : Read) : Run.FailsOnly RenderError.HasLiteral (g.read r) := by
  have hread : g.Writes RenderError.HasLiteral r.written (g.read r) :=
    read_writes (fun _ => trivial) (fun _ _ _ => trivial) (star_fails trivial r)
  exact hread.fails fun e _ => expr_hasLiteral hg none e

/-- With the standard styles no read fails for want of a literal. Where constants are written out, a truth value, a
number and a member of an enumeration have one literal under every declared type and every style in force, and an
expression with no other constants is the same text under every style. The literal of an integer reads as the integer
that is stored. -/
theorem render_literals (hg : g.styles = .standard) :
    (∀ r type, g.render r ≠ .error (.noLiteral type)) ∧
    (g.settings.parameterizeLiterals = false → ∀ v literal, v.fixedLiteral? = some literal →
      ∀ hint type, g.expr hint (.constant v type) = .ok [.text literal]) ∧
    (g.settings.parameterizeLiterals = false → ∀ e : Expr, e.AllNodes Expr.IsFixed →
      ∀ hint hint', g.expr hint e = g.expr hint' e) ∧
    ∀ (v : Value) (n : Int), v.integer? = some n →
      ∃ literal, v.fixedLiteral? = some literal ∧ literal.toInt? = some n := by
  refine ⟨fun r type h => ?_, ?_, ?_, ?_⟩
  · have hrender : Run.FailsOnly RenderError.HasLiteral (g.render r) := (read_hasLiteral hg r).bind fun _ _ => .pure _
    exact hrender _ h
  · intro hmode v literal hv hint type
    exact constant_fixed hg hmode hv hint type
  · intro hmode e he hint hint'
    exact expr_hint hg hmode hint hint' he
  · intro v n hn
    -- That the text of an integer reads as the integer comes with the whole library only, not with a file of it.
    refine ⟨toString n, ?_, Int.toInt?_repr n⟩
    cases v with
    | int32 k | int64 k | enum name k =>
      cases hn
      rfl
    | _ => cases hn

/-- A member that does not fit the 32 bits of its enumeration is written in full, also where a day is expected. -/
theorem render_literals_of_large_member :
    let g : Generator := {}
    let type : ValueType := .enum "Status" .int32
    g.styles = .standard ∧ Value.narrow? 5000000000 = none ∧
      (∀ r type, g.render r ≠ .error (.noLiteral type)) ∧
      g.expr (some .date) (.constant (.enum "Status" 5000000000) type) = .ok [.text "5000000000"] := by
  intro g type
  obtain ⟨hliteral, hfixed, -⟩ := render_literals (g := g) rfl
  have hmember : Value.fixedLiteral? (.enum "Status" 5000000000) = some "5000000000" := by decide +kernel
  exact ⟨rfl, by decide +kernel, hliteral, hfixed rfl _ _ hmember _ _⟩

end Generator

end GraphQuery
