import GraphQuery.Proofs.Runs
import GraphQuery.Proofs.Vocabulary
import GraphQuery.Read.WellFormed
import GraphQuery.Render.Generator

/-!
# Expressions that the server can run

An expression for the server is built from constants, stored properties of nodes with an alias, and the operators of
a query. Whether it may hold tuples is left open: a tuple is the only node of such an expression that cannot be
written. All its stored properties pass the check of a read, and with the standard literal styles its text fails exactly
if a tuple stands where it would be written (`Generator.expr_failsIf`).
-/

namespace GraphQuery

/-- A node of an expression for the server, which may be a tuple only if `tuples` holds. -/
def Expr.IsServerNode (tuples : Bool) : Expr → Prop
  | .constant .. | .binary .. | .conditional .. | .convert .. | .not _ | .isNull _ => True
  | .sequence _ => tuples = true
  | .storage p => p.node.name.isSome = true
  | _ => False

/-- An expression that the server can run. -/
def Expr.IsServer (tuples : Bool) (e : Expr) : Prop :=
  e.AllNodes (IsServerNode tuples)

theorem Vocabulary.server (tuples : Bool) : Vocabulary (Expr.IsServerNode tuples) :=
  ⟨fun _ _ => trivial, fun _ _ _ _ => trivial, fun _ _ _ _ => trivial, fun _ _ => trivial, fun _ => trivial,
    fun _ => trivial⟩

variable {tuples : Bool}

/-- An expression for the server carries no output name. -/
theorem Expr.IsServer.explicitName {e : Expr} (he : e.IsServer tuples) : e.explicitName? = none := by
  have hself := AllNodes.self he
  cases e with
  | aliased n e => exact hself.elim
  | _ => rfl

/-! ## The check of stored properties -/

mutual

theorem Expr.checkStored_server : ∀ (e : Expr), e.IsServer tuples → e.checkStored = .ok ()
  | .storage p, he => by
    obtain ⟨name, hname⟩ := Option.isSome_iff_exists.1 (AllNodes.self he)
    simp [Expr.checkStored, hname]
  | .binary op left right detail, he => by
    obtain ⟨-, hl, hr⟩ := Expr.allNodes_binary.1 he
    rw [Expr.checkStored, Expr.checkStored_server left hl, Expr.checkStored_server right hr]
    rfl
  | .conditional test ifTrue ifFalse type, he => by
    obtain ⟨-, ht, ha, hb⟩ := Expr.allNodes_conditional.1 he
    rw [Expr.checkStored, Expr.checkStored_server test ht, Expr.checkStored_server ifTrue ha,
      Expr.checkStored_server ifFalse hb]
    rfl
  | .convert operand type, he => by
    rw [Expr.checkStored]
    exact Expr.checkStored_server operand (Expr.allNodes_convert.1 he).2
  | .not operand, he => by
    rw [Expr.checkStored]
    exact Expr.checkStored_server operand (Expr.allNodes_not.1 he).2
  | .isNull operand, he => by
    rw [Expr.checkStored]
    exact Expr.checkStored_server operand (Expr.allNodes_isNull.1 he).2
  | .sequence items, he => by
    rw [Expr.checkStored]
    exact Expr.checkStoredAll_server items (Expr.allNodes_sequence.1 he).2
  | .negate operand, he => (AllNodes.self he).elim
  | .aliased name e, he => (AllNodes.self he).elim
  | .constant .., _ | .parameter .., _ | .source .., _ | .member .., _ | .call .., _ | .construct .., _
  | .subquery _, _ | .extension .., _ | .read _, _ => by
    rw [Expr.checkStored]

theorem Expr.checkStoredAll_server : ∀ (es : List Expr), (∀ e ∈ es, e.IsServer tuples) →
    Expr.checkStoredAll es = .ok ()
  | [], _ => by rw [Expr.checkStoredAll]
  | e :: es, hes => by
    rw [Expr.checkStoredAll, Expr.checkStored_server e (hes e List.mem_cons_self)]
    exact Expr.checkStoredAll_server es fun x hx => hes x (List.mem_cons_of_mem e hx)

end

/-! ## Tuples that would be written -/

/-- Whether a tuple stands where an expression is written. The branches of a conditional truth value are not written. -/
def Expr.writesTuple : Expr → Bool
  | .sequence _ => true
  | .binary _ left right _ => left.writesTuple || right.writesTuple
  | .conditional test ifTrue ifFalse type =>
    test.writesTuple || !type.isBool && (ifTrue.writesTuple || ifFalse.writesTuple)
  | .convert e _ | .not e | .isNull e | .aliased _ e => e.writesTuple
  | .constant .. | .parameter .. | .source .. | .member .. | .negate _ | .call .. | .construct .. | .subquery _
  | .extension .. | .storage _ | .read _ => false

theorem Expr.writesTuple_inherited : Inherited (fun e => e.writesTuple = true) fun _ _ _ => False where
  constant _ _ := by simp [writesTuple]
  convert := by simp [writesTuple]
  not := by simp [writesTuple]
  isNull := by simp [writesTuple]
  binary := by simp [writesTuple]
  own_comparison := False.elim

theorem Expr.IsServer.of_writesTuple {e : Expr} (he : e.IsServer tuples) (h : e.writesTuple = true) :
    tuples = true := by
  fun_induction Expr.writesTuple e with
  | case1 items => exact AllNodes.self he
  | case2 op left right detail ihl ihr =>
    obtain ⟨-, hl, hr⟩ := allNodes_binary.1 he
    rcases Bool.or_eq_true_iff.1 h with h | h
    · exact ihl hl h
    · exact ihr hr h
  | case3 test ifTrue ifFalse type iht iha ihb =>
    obtain ⟨-, ht, ha, hb⟩ := allNodes_conditional.1 he
    rcases Bool.or_eq_true_iff.1 h with h | h
    · exact iht ht h
    · rcases Bool.or_eq_true_iff.1 (Bool.and_eq_true_iff.1 h).2 with h | h
      · exact iha ha h
      · exact ihb hb h
  | case4 e type ih => exact ih (allNodes_convert.1 he).2 h
  | case5 e ih => exact ih (allNodes_not.1 he).2 h
  | case6 e ih => exact ih (allNodes_isNull.1 he).2 h
  | case7 name e ih => exact (AllNodes.self he).elim
  | _ => cases h

/-! ## Rendering -/

/-- The errors that remain when a read of expressions for the server is written: a name that is no identifier, and a
tuple. -/
def RenderError.Remains (tuples : Bool) : RenderError → Prop
  | .invalidIdentifier _ => True
  | .unsupportedExpression .sequence => tuples = true
  | _ => False

theorem RenderError.Remains.cases {err : RenderError} (h : err.Remains tuples) :
    (∃ name, err = .invalidIdentifier name) ∨ (tuples = true ∧ err = .unsupportedExpression .sequence) := by
  cases err with
  | invalidIdentifier name => exact .inl ⟨name, rfl⟩
  | unsupportedExpression kind =>
    cases kind with
    | sequence => exact .inr ⟨h, rfl⟩
    | _ => exact h.elim
  | _ => exact h.elim

/-- A style writes every value that it accepts. -/
theorem LiteralStyle.literal_of_accepts {style : LiteralStyle} {v : Value} (h : style.accepts v = true) :
    ∃ text, style.literal? v = some text := by
  obtain ⟨store, form⟩ := style
  cases form <;> cases v <;> simp_all [accepts, literal?]

/-- A value without its enumeration is null only if it was, and is no member of an enumeration. -/
theorem Value.withoutEnum_cases {v : Value} (h : v.isNull = false) (underlying : Option ValueType) :
    (v.withoutEnum underlying).isNull = false ∧ ∀ name n, v.withoutEnum underlying ≠ .enum name n := by
  cases v with
  | null => cases h
  | enum name n =>
    simp only [withoutEnum]
    split
    · split <;> exact ⟨rfl, fun _ _ h => by cases h⟩
    · exact ⟨rfl, fun _ _ h => by cases h⟩
  | _ => exact ⟨rfl, fun _ _ h => by cases h⟩

/-- The standard styles write every value at run time, null and enumerations apart. -/
theorem StyleChoice.standard_forValue {v : Value} (hnull : v.isNull = false) (henum : ∀ name n, v ≠ .enum name n) :
    ∃ style, StyleChoice.standard.forValue v = some style ∧ style.accepts v = true := by
  cases v with
  | null => cases hnull
  | enum name n => exact absurd rfl (henum name n)
  | _ => exact ⟨_, rfl, rfl⟩

namespace Generator

variable {g : Generator}

/-- The style for the literal of a value accepts the value: the one in force is passed over where it does not. -/
theorem literalStyle?_accepts (hg : g.styles = .standard) (hint : Option LiteralStyle) {v : Value}
    (hnull : v.isNull = false) (henum : ∀ name n, v ≠ .enum name n) :
    ∃ style, g.literalStyle? hint v = some style ∧ style.accepts v = true := by
  have hown := StyleChoice.standard_forValue hnull henum
  rw [← hg] at hown
  cases hint with
  | none => exact hown
  | some style =>
    by_cases haccepts : style.accepts v = true
    · exact ⟨style, by simp [literalStyle?, haccepts], haccepts⟩
    · obtain ⟨own, hfound, hown⟩ := hown
      exact ⟨own, by simp [literalStyle?, haccepts, hfound], hown⟩

/-- With the standard styles every constant can be written. -/
theorem constant_ok (hg : g.styles = .standard) (hint : Option LiteralStyle) (value : Value) (type : ValueType) :
    ∃ pieces, g.constant hint value type = .ok pieces := by
  unfold constant
  split
  · exact ⟨_, rfl⟩
  · rename_i hnull
    obtain ⟨hnull', henum⟩ := Value.withoutEnum_cases (by simpa using hnull) type.underlying?
    obtain ⟨style, hstyle, haccepts⟩ := literalStyle?_accepts hg hint hnull' henum
    obtain ⟨text, htext⟩ := LiteralStyle.literal_of_accepts haccepts
    simp only [hstyle, Option.bind_some, htext]
    split
    · exact ⟨_, rfl⟩
    · exact ⟨_, rfl⟩

/-- A branch of a conditional and what is written behind it: a truth value is written as its token. -/
theorem branch_fails {Q : RenderError → Prop} {hint : Option LiteralStyle} {branch : Expr}
    {next : List Piece → Except RenderError (List Piece)} (h : Run.FailsOnly Q (g.expr hint branch))
    (hnext : ∀ pieces, Run.FailsOnly Q (next pieces)) :
    Run.FailsOnly Q (match g.branchToken? branch with
      | some token => pure [.text token] >>= next
      | none => g.expr hint branch >>= next) := by
  split
  · exact hnext _
  · exact h.bind fun pieces _ => hnext pieces

theorem branchToken_writes {branch : Expr} {token : String} (h : g.branchToken? branch = some token) :
    branch.writesTuple = false := by
  unfold branchToken? at h
  split at h
  · rename_i b type hbare
    rw [← Bool.not_eq_true, ← Expr.writesTuple_inherited.bare, hbare]
    exact Expr.writesTuple_inherited.constant _ _
  · cases h

theorem branch_failsIf {err : RenderError} {rest : Bool} {hint : Option LiteralStyle} {branch : Expr}
    {next : List Piece → Except RenderError (List Piece)} (h : Run.FailsIf err branch.writesTuple (g.expr hint branch))
    (hnext : ∀ pieces, Run.FailsIf err rest (next pieces)) :
    Run.FailsIf err (branch.writesTuple || rest) (match g.branchToken? branch with
      | some token => pure [.text token] >>= next
      | none => g.expr hint branch >>= next) := by
  split
  · rename_i token htoken
    rw [branchToken_writes htoken]
    exact hnext _
  · exact h.bind hnext

/-- With the standard styles an expression for the server can be written, unless a tuple would be. -/
theorem expr_failsIf (hg : g.styles = .standard) (hint : Option LiteralStyle) (e : Expr) (he : e.IsServer tuples) :
    Run.FailsIf (.unsupportedExpression .sequence) e.writesTuple (g.expr hint e) := by
  fun_induction Generator.expr g hint e with
  | case1 hint op left right detail hop ihl ihr =>
    obtain ⟨-, hl, hr⟩ := Expr.allNodes_binary.1 he
    exact (ihl hl).bind fun _ => (ihr hr).map
  | case2 hint op left right detail symbol hop inner ihl ihr =>
    obtain ⟨-, hl, hr⟩ := Expr.allNodes_binary.1 he
    exact (ihl hl).bind fun _ => (ihr hr).map
  | case3 hint test ifTrue ifFalse type hbool ih =>
    rw [Expr.writesTuple, hbool, Bool.not_true, Bool.false_and, Bool.or_false]
    exact ih (Expr.allNodes_conditional.1 he).2.1
  | case4 hint test ifTrue ifFalse type hbool iht ihb iha =>
    obtain ⟨-, ht, ha, hb⟩ := Expr.allNodes_conditional.1 he
    have hwritten : (Expr.conditional test ifTrue ifFalse type).writesTuple =
        (test.writesTuple || (ifTrue.writesTuple || (ifFalse.writesTuple || false))) := by
      simp [Expr.writesTuple, hbool]
    rw [hwritten]
    refine (iht ht).bind fun _ => ?_
    exact branch_failsIf (iha ha) fun _ => branch_failsIf (ihb hb) fun _ => .ok _
  | case5 hint value type => exact constant_ok hg hint value type
  | case7 hint operand type ih => exact ih (Expr.allNodes_convert.1 he).2
  | case8 hint operand ih => exact (ih (Expr.allNodes_isNull.1 he).2).map
  | case9 hint operand ih => exact (ih (Expr.allNodes_isNull.1 (Expr.allNodes_not.1 he).2).2).map
  | case10 hint operand _ ih => exact (ih (Expr.allNodes_not.1 he).2).map
  | case11 hint p =>
    obtain ⟨name, hname⟩ := Option.isSome_iff_exists.1 (Expr.AllNodes.self he)
    simp only [storage, hname]
    exact .ok _
  | case21 hint items => exact .error
  | _ => exact (Expr.AllNodes.self he).elim

theorem expr_fails (hg : g.styles = .standard) (hint : Option LiteralStyle) (e : Expr) (he : e.IsServer tuples) :
    Run.FailsOnly (RenderError.Remains tuples) (g.expr hint e) := by
  intro err herr
  obtain ⟨rfl, htuple⟩ := (expr_failsIf hg hint e he).eq_error_iff.1 herr
  exact he.of_writesTuple htuple

end Generator

end GraphQuery
