import GraphQuery.Proofs.OperatorTrees

/-!
# The texts of predicates

Predicates are built from stored properties, truth values and null by infix operators, negations, null tests and
conditionals with truth values as branches. Of such a conditional only the test is written, and nothing sets off a
conditional or the operand of a null test. So `IsNull(a OR b)` and `a OR IsNull(b)` have one text, and a conditional has
that of its test. Apart from these cases predicates with the same text have the same value in three-valued logic
(`Generator.render_predicate_value`).

A text is read as a chain: an operand with null tests, operators and further operands behind it. A chain is determined
by its text, and has a value of its own. A predicate that keeps its grouping has the value of the chain as which it is
written.
-/

namespace GraphQuery

/-! ## Three-valued logic -/

/-- A value of an expression: null, a truth value, or a datum of another kind. -/
inductive Datum (α : Type) where
  | null
  | truth (b : Bool)
  | other (a : α)
  deriving DecidableEq

namespace Datum

variable {α : Type}

def and : Datum α → Datum α → Datum α
  | .truth false, _ => .truth false
  | _, .truth false => .truth false
  | .truth true, .truth true => .truth true
  | _, _ => .null

def or : Datum α → Datum α → Datum α
  | .truth true, _ => .truth true
  | _, .truth true => .truth true
  | .truth false, .truth false => .truth false
  | _, _ => .null

def not : Datum α → Datum α
  | .truth b => .truth !b
  | _ => .null

/-- A null test has a truth value in every case. -/
def isNull : Datum α → Datum α
  | .null => .truth true
  | _ => .truth false

/-- The second or third value, as the first one is true or not. -/
def choose : Datum α → Datum α → Datum α → Datum α
  | .truth true, x, _ => x
  | _, _, y => y

end Datum

/-- What stored properties and operators stand for. -/
structure Interpretation (α : Type) where
  /-- The value of a stored property, by the alias of its node and its stored name. -/
  stored : String → String → Datum α
  /-- Comparisons and arithmetic on operands that are not null. -/
  apply : Operator → Datum α → Datum α → Datum α

/-- The value of an operator. All operators but the logical ones give null when an operand is null. -/
def Operator.value {α : Type} (i : Interpretation α) : Operator → Datum α → Datum α → Datum α
  | .and, x, y => x.and y
  | .andAlso, x, y => x.and y
  | .or, x, y => x.or y
  | .orElse, x, y => x.or y
  | _, .null, _ => .null
  | _, _, .null => .null
  | op, x, y => i.apply op x y

@[simp] theorem Operator.value_spelled {α : Type} (i : Interpretation α) (op : Operator) :
    op.spelled.value i = op.value i := by
  cases op <;> rfl

namespace Expr

/-- Whether an expression is a predicate in the sense of this module. -/
def isPredicate : Expr → Bool
  | .storage p => p.node.name.isSome
  | .constant (.bool _) _ => true
  | .constant .null _ => true
  | .binary op left right _ => op.symbol?.isSome && left.isPredicate && right.isPredicate
  | .not operand => operand.isPredicate
  | .isNull operand => operand.isPredicate
  | .conditional test ifTrue ifFalse type =>
    type.isBool && test.isPredicate && ifTrue.isPredicate && ifFalse.isPredicate
  | _ => false

/-- The value of a predicate. -/
def value {α : Type} (i : Interpretation α) : Expr → Datum α
  | .storage p => i.stored (p.node.name.getD "") p.name
  | .constant (.bool b) _ => .truth b
  | .binary op left right _ => op.value i (left.value i) (right.value i)
  | .not operand => (operand.value i).not
  | .isNull operand => (operand.value i).isNull
  | .conditional test ifTrue ifFalse _ => (test.value i).choose (ifTrue.value i) (ifFalse.value i)
  | _ => .null

/-- A predicate with each conditional replaced by its test, which is all that is written of it. -/
def onlyTests : Expr → Expr
  | .binary op left right detail => .binary op left.onlyTests right.onlyTests detail
  | .not operand => .not operand.onlyTests
  | .isNull operand => .isNull operand.onlyTests
  | .conditional test _ _ _ => test.onlyTests
  | e => e

/-- Whether a predicate is written as an operator between operands without parentheses. -/
def isUngrouped : Expr → Bool
  | .binary _ left _ _ => !left.isInfix
  | .conditional test _ _ _ => test.isUngrouped
  | _ => false

/-- Whether no operand of a null test, and no conditional on the left of an operator, is written as an operator between
operands without parentheses. -/
def keepsGrouping : Expr → Bool
  | .binary _ left right _ => (left.isInfix || !left.isUngrouped) && left.keepsGrouping && right.keepsGrouping
  | .not operand => operand.keepsGrouping
  | .isNull operand => !operand.isUngrouped && operand.keepsGrouping
  | .conditional test _ _ _ => test.keepsGrouping
  | _ => true

end Expr

/-! ## Chains -/

/-- An operator with its symbol. -/
structure InfixOperator where
  op : Operator.Spelling
  symbol : String
  written : op.val.symbol? = some symbol

def Operator.infix? (op : Operator) : Option InfixOperator :=
  match h : op.symbol? with
  | some symbol => some ⟨op.spelling, symbol, by rw [spelling, symbol_spelled, h]⟩
  | none => none

theorem Operator.infix_eq {op : Operator} {symbol : String} (h : op.symbol? = some symbol) :
    op.infix? = some ⟨op.spelling, symbol, by rw [spelling, symbol_spelled, h]⟩ := by
  unfold infix?
  split
  · rename_i symbol' h'
    cases h.symm.trans h'
    rfl
  · rename_i h'
    cases h.symm.trans h'

mutual

/-- What stands at the start of a chain or behind an operator. -/
inductive Chain.Operand where
  | property (node name : String)
  | truth (b : Bool)
  | null
  | negated (first : Chain.Operand) (rest : Chain.Rest)
  | group (first : Chain.Operand) (rest : Chain.Rest)

/-- What stands behind an operand. -/
inductive Chain.Rest where
  | done
  | nullTest (holds : Bool) (rest : Chain.Rest)
  | operator (op : InfixOperator) (operand : Chain.Operand) (rest : Chain.Rest)

end

/-- An operand and what stands behind it. -/
structure Chain where
  first : Chain.Operand
  rest : Chain.Rest

namespace Chain

mutual

def Operand.text : Operand → String
  | .property node name => Text.delimit '\x22' node ++ "." ++ Text.delimit '\x22' name
  | .truth b => if b then "true" else "false"
  | .null => "null"
  | .negated first rest => "NOT (" ++ first.text ++ rest.text ++ ")"
  | .group first rest => "(" ++ first.text ++ rest.text ++ ")"

def Rest.text : Rest → String
  | .done => ""
  | .nullTest holds rest => (if holds then " IS NULL" else " IS NOT NULL") ++ rest.text
  | .operator op operand rest => op.symbol ++ operand.text ++ rest.text

end

def text (c : Chain) : String :=
  c.first.text ++ c.rest.text

def Rest.append : Rest → Rest → Rest
  | .done, more => more
  | .nullTest holds rest, more => .nullTest holds (rest.append more)
  | .operator op operand rest, more => .operator op operand (rest.append more)

def extend (c : Chain) (more : Rest) : Chain :=
  ⟨c.first, c.rest.append more⟩

def Operand.isGroup : Operand → Bool
  | .group _ _ => true
  | _ => false

mutual

def Operand.value {α : Type} (i : Interpretation α) : Operand → Datum α
  | .property node name => i.stored node name
  | .truth b => .truth b
  | .null => .null
  | .negated first rest => (rest.value i first.isGroup (first.value i)).not
  | .group first rest => rest.value i first.isGroup (first.value i)

/-- The value of what has been read, `x`, with what stands behind it. An operator behind a group has a group on its
right as well and nothing more. Everywhere else its right operand goes on to the end. -/
def Rest.value {α : Type} (i : Interpretation α) : Rest → Bool → Datum α → Datum α
  | .done, _, x => x
  | .nullTest holds rest, _, x => rest.value i false (if holds then x.isNull else x.isNull.not)
  | .operator op operand rest, grouped, x =>
    if grouped then rest.value i false (op.op.val.value i x (operand.value i))
    else op.op.val.value i x (rest.value i operand.isGroup (operand.value i))

end

def value {α : Type} (i : Interpretation α) (c : Chain) : Datum α :=
  c.rest.value i c.first.isGroup (c.first.value i)

end Chain

/-- The chain as which a predicate is written. -/
def Expr.chain : Expr → Chain
  | .storage p => ⟨.property (p.node.name.getD "") p.name, .done⟩
  | .constant (.bool b) _ => ⟨.truth b, .done⟩
  | .binary op left right _ =>
    match op.infix? with
    | none => ⟨.null, .done⟩
    | some symbol =>
      if left.isInfix then
        ⟨.group left.chain.first left.chain.rest,
          .operator symbol (.group right.chain.first right.chain.rest) .done⟩
      else left.chain.extend (.operator symbol right.chain.first right.chain.rest)
  | .conditional test _ _ _ => test.chain
  | .isNull operand => operand.chain.extend (.nullTest true .done)
  | .not (.isNull operand) => operand.chain.extend (.nullTest false .done)
  | .not operand => ⟨.negated operand.chain.first operand.chain.rest, .done⟩
  | _ => ⟨.null, .done⟩

/-! ## Writing a predicate -/

theorem Chain.Rest.text_append : ∀ r more : Chain.Rest, (r.append more).text = r.text ++ more.text
  | .done, more => by simp [append, text]
  | .nullTest holds rest, more => by simp [append, text, text_append rest more, String.append_assoc]
  | .operator op operand rest, more => by simp [append, text, text_append rest more, String.append_assoc]
termination_by structural r => r

theorem Chain.text_extend (c : Chain) (more : Chain.Rest) : (c.extend more).text = c.text ++ more.text := by
  rw [text, extend, Rest.text_append, ← String.append_assoc]
  rfl

/-- The operands of a predicate are grouped as the left one says. -/
theorem Expr.text_chain_binary {op : Operator} {symbol : String} (h : op.symbol? = some symbol) (left right : Expr)
    (detail : OperatorDetail) :
    (Expr.binary op left right detail).chain.text = OperatorTree.grouped left.isInfix left.chain.text ++ symbol ++
      OperatorTree.grouped left.isInfix right.chain.text := by
  rw [chain, Operator.infix_eq h]
  cases hleft : left.isInfix with
  | true =>
    simp [Chain.text, Chain.Operand.text, Chain.Rest.text, OperatorTree.grouped, String.append_assoc]
  | false =>
    simp only [Bool.false_eq_true, if_false, Chain.text_extend, OperatorTree.grouped]
    simp [Chain.text, Chain.Rest.text, String.append_assoc]

namespace Generator

/-- Truth values are written alike, whatever they are compared with. -/
theorem constant_bool (hint : Option LiteralStyle) (b : Bool) (type : ValueType) :
    ({} : Generator).constant hint (.bool b) type = .ok [.text (if b then "true" else "false")] := by
  have hstyle : ∃ store, ({} : Generator).literalStyle? hint (.bool b) = some ⟨store, .boolean⟩ := by
    have hvalue : ({} : Generator).styles.forValue (.bool b) = some .boolean := rfl
    cases hint with
    | none => exact ⟨_, hvalue⟩
    | some style =>
      obtain ⟨store, form⟩ := style
      cases form with
      | boolean => exact ⟨store, rfl⟩
      | _ => exact ⟨_, hvalue⟩
  obtain ⟨store, hstyle⟩ := hstyle
  simp [constant, Value.isNull, Value.withoutEnum, hstyle, LiteralStyle.literal?]

/-- A predicate is written as texts, which make the text of its chain. -/
theorem expr_chain (hint : Option LiteralStyle) {e : Expr} (h : e.isPredicate = true) :
    ∃ texts : List String, ({} : Generator).expr hint e = .ok (texts.map .text) ∧ String.join texts = e.chain.text := by
  -- The generator's cases: operators (1, 2), conditionals (3, 4), constants (5), null tests (8, 9), negations (10) and
  -- stored properties (11). No other expression is a predicate.
  fun_induction Generator.expr ({} : Generator) hint e
  case case1 hop _ _ =>
    rw [Expr.isPredicate, hop] at h
    cases h
  case case2 left right _ symbol hop _ ihl ihr =>
    rw [Expr.isPredicate, Bool.and_eq_true, Bool.and_eq_true] at h
    obtain ⟨ls, hls, hl⟩ := ihl h.1.2
    obtain ⟨rs, hrs, hr⟩ := ihr h.2
    obtain ⟨all, hall, htext⟩ := operands_texts left.isInfix ls symbol rs
    refine ⟨all, ?_, ?_⟩
    · rw [hls, hrs]
      simp [bind, Except.bind, pure, Except.pure, hall]
    · rw [htext, hl, hr, Expr.text_chain_binary hop]
  case case3 ih =>
    rw [Expr.isPredicate, Bool.and_eq_true, Bool.and_eq_true, Bool.and_eq_true] at h
    exact ih h.1.1.2
  case case4 hbool _ _ _ =>
    simp [Expr.isPredicate, hbool] at h
  case case5 value type =>
    cases value with
    | null => exact ⟨["null"], rfl, rfl⟩
    | bool b =>
      refine ⟨[if b then "true" else "false"], constant_bool _ b type, ?_⟩
      simp [Expr.chain, Chain.text, Chain.Operand.text, Chain.Rest.text]
    | _ => cases h
  case case8 ih =>
    obtain ⟨texts, htexts, htext⟩ := ih h
    refine ⟨texts ++ [" IS NULL"], ?_, ?_⟩
    · rw [htexts]
      simp [bind, Except.bind, pure, Except.pure]
    · simp [Expr.chain, Chain.text_extend, Chain.Rest.text, htext]
  case case9 ih =>
    obtain ⟨texts, htexts, htext⟩ := ih h
    refine ⟨texts ++ [" IS NOT NULL"], ?_, ?_⟩
    · rw [htexts]
      simp [bind, Except.bind, pure, Except.pure]
    · simp [Expr.chain, Chain.text_extend, Chain.Rest.text, htext]
  case case10 operand hoperand ih =>
    obtain ⟨texts, htexts, htext⟩ := ih h
    refine ⟨"NOT (" :: (texts ++ [")"]), ?_, ?_⟩
    · rw [htexts]
      simp [bind, Except.bind, pure, Except.pure]
    · simp [Expr.chain, Chain.text, Chain.Operand.text, Chain.Rest.text, htext, String.append_assoc]
  case case11 p =>
    obtain ⟨node, hnode⟩ := Option.isSome_iff_exists.1 h
    refine ⟨[Text.delimit '\x22' node ++ "." ++ Text.delimit '\x22' p.name], ?_, ?_⟩
    · simp [storage, hnode, Delimiter.quoting]
    · simp [Expr.chain, Chain.text, Chain.Operand.text, Chain.Rest.text, hnode]
  all_goals cases h

end Generator

/-! ## Texts that determine their chains -/

theorem InfixOperator.append_inj {op op' : InfixOperator} {rest rest' : List Char}
    (h : op.symbol.toList ++ rest = op'.symbol.toList ++ rest') : op = op' ∧ rest = rest' := by
  obtain ⟨hop, hrest⟩ := Operator.symbol_append_inj op.written op'.written h
  obtain ⟨op, symbol, hwritten⟩ := op
  obtain ⟨op', symbol', hwritten'⟩ := op'
  cases hop
  cases hwritten.symm.trans hwritten'
  exact ⟨rfl, hrest⟩

/-- No symbol begins like a null test. -/
theorem InfixOperator.no_test (op : InfixOperator) (rest rest' : List Char) :
    op.symbol.toList ++ rest ≠ ' ' :: 'I' :: rest' := by
  intro h
  have hread := Operator.read_symbol op.written rest
  rw [h] at hread
  cases hread

namespace Chain

open OperatorTree (Closes closes_paren)

/-- The character with which the text of an operand begins. It tells the kinds of operands apart. -/
def Operand.mark : Operand → Char
  | .property _ _ => '\x22'
  | .truth true => 't'
  | .truth false => 'f'
  | .null => 'n'
  | .negated _ _ => 'N'
  | .group _ _ => '('

theorem Operand.text_head (x : Operand) (after : List Char) : (x.text.toList ++ after).head? = some x.mark := by
  cases x with
  | property node name => simp [text, Text.delimit, mark]
  | truth b => cases b <;> rfl
  | null => rfl
  | negated first rest => simp [text, mark]
  | group first rest => simp [text, mark]

theorem Rest.text_head (r : Rest) : r = .done ∨ ∀ after, (r.text.toList ++ after).head? = some ' ' := by
  cases r with
  | done => exact Or.inl rfl
  | nullTest holds rest => cases holds <;> simp [text]
  | operator op operand rest =>
    refine Or.inr fun after => ?_
    rw [text, String.append_assoc, String.toList_append, List.append_assoc]
    exact Operator.symbol_head op.written _

theorem Rest.no_quote (r : Rest) {after : List Char} (h : Closes after) :
    (r.text.toList ++ after).head? ≠ some '\x22' := by
  rcases r.text_head with rfl | hspace
  · exact h.no_quote
  · simp [hspace]

/-- The text of an operand determines it, whatever follows but a quote. -/
def Operand.Inj (x : Operand) : Prop :=
  ∀ ⦃x' : Operand⦄ ⦃after after' : List Char⦄, after.head? ≠ some '\x22' → after'.head? ≠ some '\x22' →
    x.text.toList ++ after = x'.text.toList ++ after' → x = x' ∧ after = after'

/-- The text behind an operand determines what stands there when it ends there. -/
def Rest.Inj (r : Rest) : Prop :=
  ∀ ⦃r' : Rest⦄ ⦃after after' : List Char⦄, Closes after → Closes after' →
    r.text.toList ++ after = r'.text.toList ++ after' → r = r' ∧ after = after'

variable {first first' x x' : Operand} {rest rest' : Rest} {after after' : List Char}

theorem Operand.mark_eq (h : x.text.toList ++ after = x'.text.toList ++ after') : x.mark = x'.mark := by
  have hhead := congrArg List.head? h
  rw [text_head, text_head] at hhead
  exact Option.some.inj hhead

theorem Operand.inj_property (node name : String) : (property node name).Inj := by
  intro x' after after' hafter hafter' h
  cases x' with
  | property node' name' =>
    simp only [text, String.toList_append, List.append_assoc] at h
    obtain ⟨rfl, hname⟩ := Text.delimit_append_inj (by simp) (by simp) h
    obtain ⟨rfl, hend⟩ := Text.delimit_append_inj hafter hafter' (List.append_cancel_left hname)
    exact ⟨rfl, hend⟩
  | truth b => cases b <;> exact absurd (mark_eq h) (by simp [mark])
  | _ => exact absurd (mark_eq h) (by simp [mark])

theorem Operand.inj_truth (b : Bool) : (truth b).Inj := by
  intro x' after after' _ _ h
  cases x' with
  | truth b' =>
    have hb : b = b' := by
      have hmark := mark_eq h
      cases b <;> cases b' <;> first | rfl | exact absurd hmark (by decide)
    subst hb
    exact ⟨rfl, List.append_cancel_left h⟩
  | _ => cases b <;> exact absurd (mark_eq h) (by simp [mark])

theorem Operand.inj_null : null.Inj := by
  intro x' after after' _ _ h
  cases x' with
  | null => exact ⟨rfl, List.append_cancel_left h⟩
  | truth b => cases b <;> exact absurd (mark_eq h) (by simp [mark])
  | _ => exact absurd (mark_eq h) (by simp [mark])

/-- A chain in parentheses ends at its own parenthesis. -/
theorem inj_paren (hfirst : first.Inj) (hrest : rest.Inj)
    (h : first.text.toList ++ (rest.text.toList ++ ')' :: after) =
      first'.text.toList ++ (rest'.text.toList ++ ')' :: after')) : first = first' ∧ rest = rest' ∧ after = after' := by
  obtain ⟨rfl, hbehind⟩ := hfirst (rest.no_quote (closes_paren _)) (rest'.no_quote (closes_paren _)) h
  obtain ⟨rfl, hend⟩ := hrest (closes_paren _) (closes_paren _) hbehind
  exact ⟨rfl, rfl, (List.cons.inj hend).2⟩

theorem Operand.inj_negated (hfirst : first.Inj) (hrest : rest.Inj) : (negated first rest).Inj := by
  intro x' after after' _ _ h
  cases x' with
  | negated first' rest' =>
    simp only [text, String.toList_append, List.append_assoc, List.append_cancel_left_eq] at h
    obtain ⟨rfl, rfl, hend⟩ := inj_paren hfirst hrest h
    exact ⟨rfl, hend⟩
  | truth b => cases b <;> exact absurd (mark_eq h) (by simp [mark])
  | _ => exact absurd (mark_eq h) (by simp [mark])

theorem Operand.inj_group (hfirst : first.Inj) (hrest : rest.Inj) : (group first rest).Inj := by
  intro x' after after' _ _ h
  cases x' with
  | group first' rest' =>
    simp only [text, String.toList_append, List.append_assoc, List.append_cancel_left_eq] at h
    obtain ⟨rfl, rfl, hend⟩ := inj_paren hfirst hrest h
    exact ⟨rfl, hend⟩
  | truth b => cases b <;> exact absurd (mark_eq h) (by simp [mark])
  | _ => exact absurd (mark_eq h) (by simp [mark])

/-- No operator reads like a null test. -/
theorem Rest.operator_ne_nullTest (op : InfixOperator) (holds : Bool) :
    (operator op x rest).text.toList ++ after ≠ (nullTest holds rest').text.toList ++ after' := by
  have htest : ∃ behind, (nullTest holds rest').text.toList ++ after' = ' ' :: 'I' :: behind := by
    cases holds <;> simp [text]
  obtain ⟨behind, htest⟩ := htest
  rw [htest, text, String.append_assoc, String.toList_append, List.append_assoc]
  exact op.no_test _ _

theorem Rest.inj_done : done.Inj := by
  intro r' after after' hafter _ h
  rcases r'.text_head with rfl | hspace
  · exact ⟨rfl, h⟩
  · have hafter_eq : after = r'.text.toList ++ after' := h
    exact absurd (hafter_eq ▸ hspace after') hafter.no_space

theorem Rest.inj_nullTest (holds : Bool) (hrest : rest.Inj) : (nullTest holds rest).Inj := by
  intro r' after after' hafter hafter' h
  cases r' with
  | done => exact (inj_done hafter' hafter h.symm).imp Eq.symm Eq.symm
  | nullTest holds' rest' =>
    have hholds : holds = holds' := by
      cases holds <;> cases holds' <;> simp [text] at h ⊢
    subst hholds
    simp only [text, String.toList_append, List.append_assoc, List.append_cancel_left_eq] at h
    obtain ⟨rfl, hend⟩ := hrest hafter hafter' h
    exact ⟨rfl, hend⟩
  | operator op operand rest' => exact absurd h.symm (operator_ne_nullTest op holds)

theorem Rest.inj_operator (op : InfixOperator) (hx : x.Inj) (hrest : rest.Inj) : (operator op x rest).Inj := by
  intro r' after after' hafter hafter' h
  cases r' with
  | done => exact (inj_done hafter' hafter h.symm).imp Eq.symm Eq.symm
  | nullTest holds rest' => exact absurd h (operator_ne_nullTest op holds)
  | operator op' x' rest' =>
    simp only [text, String.toList_append, List.append_assoc] at h
    obtain ⟨rfl, hoperand⟩ := InfixOperator.append_inj h
    obtain ⟨rfl, hbehind⟩ := hx (rest.no_quote hafter) (rest'.no_quote hafter') hoperand
    obtain ⟨rfl, hend⟩ := hrest hafter hafter' hbehind
    exact ⟨rfl, hend⟩

mutual

theorem Operand.inj : ∀ x : Operand, x.Inj
  | .property node name => Operand.inj_property node name
  | .truth b => Operand.inj_truth b
  | .null => Operand.inj_null
  | .negated first rest => Operand.inj_negated first.inj rest.inj
  | .group first rest => Operand.inj_group first.inj rest.inj
termination_by structural x => x

theorem Rest.inj : ∀ r : Rest, r.Inj
  | .done => Rest.inj_done
  | .nullTest holds rest => Rest.inj_nullTest holds rest.inj
  | .operator op x rest => Rest.inj_operator op x.inj rest.inj
termination_by structural r => r

end

/-- The text of a chain determines the chain. -/
theorem text_inj {c c' : Chain} (h : c.text = c'.text) : c = c' := by
  obtain ⟨first, rest⟩ := c
  obtain ⟨first', rest'⟩ := c'
  have hnil : Closes [] := fun _ hc => nomatch hc
  have hchars : first.text.toList ++ (rest.text.toList ++ []) = first'.text.toList ++ (rest'.text.toList ++ []) := by
    simpa [text] using congrArg String.toList h
  obtain ⟨rfl, hbehind⟩ := first.inj (rest.no_quote hnil) (rest'.no_quote hnil) hchars
  obtain ⟨rfl, -⟩ := rest.inj hnil hnil hbehind
  rfl

end Chain

/-! ## The values of chains -/

namespace Chain

theorem Rest.append_done : ∀ r : Rest, r.append .done = r
  | .done => rfl
  | .nullTest holds rest => by rw [append, append_done rest]
  | .operator op operand rest => by rw [append, append_done rest]
termination_by structural r => r

theorem Rest.append_assoc : ∀ r more more' : Rest, (r.append more).append more' = r.append (more.append more')
  | .done, _, _ => rfl
  | .nullTest holds rest, more, more' => by rw [append, append, append, append_assoc rest]
  | .operator op operand rest, more, more' => by rw [append, append, append, append_assoc rest]
termination_by structural r => r

theorem extend_done (c : Chain) : c.extend .done = c := by
  rw [extend, Rest.append_done]

theorem extend_extend (c : Chain) (more more' : Rest) :
    (c.extend more).extend more' = c.extend (more.append more') := by
  rw [extend, extend, extend, Rest.append_assoc]

end Chain

namespace Expr

variable {α : Type} {i : Interpretation α} {e left right : Expr}

/-- Whatever stands behind the chain of a predicate applies to the value of the whole predicate. -/
def Stands (i : Interpretation α) (e : Expr) : Prop :=
  ∀ more, (e.chain.extend more).value i = more.value i false (e.onlyTests.value i)

/-- A predicate has the value of its chain. -/
def Reads (i : Interpretation α) (e : Expr) : Prop :=
  e.chain.value i = e.onlyTests.value i

theorem Stands.reads (h : e.Stands i) : e.Reads i := by
  have hdone := h .done
  rwa [Chain.extend_done] at hdone

/-- Operands in parentheses. -/
theorem stands_grouped {op : Operator} {symbol : String} (hop : op.symbol? = some symbol)
    (hgroup : left.isInfix = true) (hleft : left.Reads i) (hright : right.Reads i) (detail : OperatorDetail) :
    (binary op left right detail).Stands i := by
  intro more
  rw [chain, Operator.infix_eq hop]
  simp only [hgroup, if_true]
  change more.value i false (op.spelled.value i (left.chain.value i) (right.chain.value i)) = _
  rw [hleft, hright, Operator.value_spelled]
  rfl

/-- Operands without parentheses: the right one goes on to the end. -/
theorem reads_ungrouped {op : Operator} {symbol : String} (hop : op.symbol? = some symbol)
    (hgroup : left.isInfix = false) (hleft : left.Stands i) (hright : right.Reads i) (detail : OperatorDetail) :
    (binary op left right detail).Reads i := by
  rw [Reads, chain, Operator.infix_eq hop]
  simp only [hgroup, Bool.false_eq_true, if_false]
  rw [hleft]
  change op.spelled.value i (left.onlyTests.value i) (right.chain.value i) = _
  rw [hright, Operator.value_spelled]
  rfl

theorem Stands.isNull (h : e.Stands i) : (Expr.isNull e).Stands i := by
  intro more
  rw [chain, Chain.extend_extend, h]
  rfl

theorem Stands.isNotNull (h : e.Stands i) : (Expr.not (.isNull e)).Stands i := by
  intro more
  rw [chain, Chain.extend_extend, h]
  rfl

theorem Reads.not (h : e.Reads i) (he : ∀ operand, e ≠ .isNull operand) : (Expr.not e).Stands i := by
  intro more
  rw [chain]
  · change more.value i false (e.chain.value i).not = _
    rw [h]
    rfl
  · exact he

/-- A predicate that keeps its grouping has the value of its chain, and stands for itself in front of anything unless it
is written without parentheses. -/
theorem chain_value (i : Interpretation α) (h : e.isPredicate = true) (hkeeps : e.keepsGrouping = true) :
    (e.isUngrouped = false → e.Stands i) ∧ e.Reads i := by
  -- A predicate that stands for itself has the value of its chain.
  have hstands {e : Expr} (h : e.Stands i) : (e.isUngrouped = false → e.Stands i) ∧ e.Reads i := ⟨fun _ => h, h.reads⟩
  fun_induction Expr.chain e
  case case1 p => exact hstands fun _ => rfl
  case case2 b type => exact hstands fun _ => rfl
  case case3 op _ _ _ hop =>
    rw [isPredicate, Bool.and_eq_true, Bool.and_eq_true] at h
    obtain ⟨symbol, hsymbol⟩ := Option.isSome_iff_exists.1 h.1.1
    cases hop.symm.trans (Operator.infix_eq hsymbol)
  case case4 op _ _ detail _ _ hgroup ihl ihr =>
    rw [isPredicate, Bool.and_eq_true, Bool.and_eq_true] at h
    rw [keepsGrouping, Bool.and_eq_true, Bool.and_eq_true] at hkeeps
    obtain ⟨symbol, hsymbol⟩ := Option.isSome_iff_exists.1 h.1.1
    exact hstands (stands_grouped hsymbol hgroup (ihl h.1.2 hkeeps.1.2).2 (ihr h.2 hkeeps.2).2 detail)
  case case5 op _ _ detail _ _ hgroup ihl ihr =>
    rw [isPredicate, Bool.and_eq_true, Bool.and_eq_true] at h
    rw [keepsGrouping, Bool.and_eq_true, Bool.and_eq_true] at hkeeps
    rw [Bool.not_eq_true] at hgroup
    obtain ⟨symbol, hsymbol⟩ := Option.isSome_iff_exists.1 h.1.1
    have hleft := (ihl h.1.2 hkeeps.1.2).1 (by simpa [hgroup] using hkeeps.1.1)
    refine ⟨fun hungrouped => ?_, reads_ungrouped hsymbol hgroup hleft (ihr h.2 hkeeps.2).2 detail⟩
    simp [isUngrouped, hgroup] at hungrouped
  case case6 ih =>
    rw [isPredicate, Bool.and_eq_true, Bool.and_eq_true, Bool.and_eq_true] at h
    exact ih h.1.1.2 hkeeps
  case case7 ih =>
    rw [keepsGrouping, Bool.and_eq_true, Bool.not_eq_true'] at hkeeps
    exact hstands ((ih h hkeeps.2).1 hkeeps.1).isNull
  case case8 ih =>
    rw [keepsGrouping, keepsGrouping, Bool.and_eq_true, Bool.not_eq_true'] at hkeeps
    exact hstands ((ih h hkeeps.2).1 hkeeps.1).isNotNull
  case case9 hoperand ih => exact hstands ((ih h hkeeps).2.not hoperand)
  case case10 t hstorage hbool hbinary hconditional hisNull _ hnot =>
    cases t with
    | constant v type =>
      cases v with
      | null => exact hstands fun _ => rfl
      | bool b => exact absurd rfl (hbool b type)
      | _ => cases h
    | storage p => exact absurd rfl (hstorage p)
    | binary op left right detail => exact absurd rfl (hbinary op left right detail)
    | conditional test ifTrue ifFalse type => exact absurd rfl (hconditional test ifTrue ifFalse type)
    | isNull operand => exact absurd rfl (hisNull operand)
    | not operand => exact absurd rfl (hnot operand)
    | _ => cases h

end Expr

/-! ## Predicates with the same text -/

namespace Generator

/-- Predicates can be written. Two predicates that keep their grouping and have the same text have the same value in
three-valued logic, whatever the stored properties and the operators stand for, when each conditional stands for its
test. -/
theorem render_predicate_value {p q : Expr} (hp : p.isPredicate = true) (hq : q.isPredicate = true)
    (hkeeps : p.keepsGrouping = true) (hkeeps' : q.keepsGrouping = true) :
    ∃ x x', ({} : Generator).render (.returning p) = .ok x ∧ ({} : Generator).render (.returning q) = .ok x' ∧
      (x.text = x'.text → ∀ (α : Type) (i : Interpretation α), p.onlyTests.value i = q.onlyTests.value i) := by
  obtain ⟨before, hbefore⟩ := ({} : Generator).render_returning_texts
  obtain ⟨texts, htexts, htext⟩ := expr_chain none hp
  obtain ⟨texts', htexts', htext'⟩ := expr_chain none hq
  obtain ⟨x, hx, hxtext⟩ := hbefore p texts htexts
  obtain ⟨x', hx', hxtext'⟩ := hbefore q texts' htexts'
  refine ⟨x, x', hx, hx', fun heq α i => ?_⟩
  rw [hxtext, hxtext', String.append_right_inj, htext, htext'] at heq
  have hchain := Chain.text_inj heq
  have hreads := (Expr.chain_value i hp hkeeps).2
  have hreads' := (Expr.chain_value i hq hkeeps').2
  rw [← hreads, ← hreads', hchain]

def storedFlag (name : String) : Expr :=
  .storage ⟨name, ⟨"Warehouse", { name, type := .bool }⟩, ⟨some "w", []⟩⟩

def truth (b : Bool) : Expr :=
  .ofValue (.bool b)

/-- The text of a read that returns an expression. -/
def textOf? (e : Expr) : Option String :=
  (({} : Generator).render (.returning e)).toOption.map Rendered.text

/-- A conditional around a conjunction and one inside it. -/
theorem render_predicate_value_of_conditionals :
    let whole : Expr :=
      .conditional (.plain .and (storedFlag "Active") (.not (.isNull (storedFlag "Open")))) (truth true) (truth false)
        .bool
    let part : Expr :=
      .plain .andAlso (storedFlag "Active")
        (.conditional (.not (.isNull (storedFlag "Open"))) (truth false) (truth true) .bool)
    textOf? whole = some "RETURN \"w\".\"Active\" AND \"w\".\"Open\" IS NOT NULL" ∧ textOf? part = textOf? whole ∧
      ∀ (α : Type) (i : Interpretation α), whole.onlyTests.value i = part.onlyTests.value i := by
  intro whole part
  have hwhole : textOf? whole = some "RETURN \"w\".\"Active\" AND \"w\".\"Open\" IS NOT NULL" := by decide +kernel
  have hpart : textOf? part = some "RETURN \"w\".\"Active\" AND \"w\".\"Open\" IS NOT NULL" := by decide +kernel
  obtain ⟨x, x', hx, hx', hvalue⟩ := render_predicate_value (p := whole) (q := part) rfl rfl rfl rfl
  refine ⟨hwhole, hpart.trans hwhole.symm, hvalue ?_⟩
  rw [textOf?, hx] at hwhole
  rw [textOf?, hx'] at hpart
  exact Option.some.inj (hwhole.trans hpart.symm)

/-- A conditional and its test, a null test of a disjunction and of its last part, and a conjunction with a disjunction
in a conditional and without: each two have one text, and not the same value. -/
theorem one_text_two_values :
    let active := storedFlag "Active"
    let opened := storedFlag "Open"
    let full := storedFlag "Full"
    let pairs : List (Expr × Expr) := [
      (.conditional active (truth false) (truth true) .bool, active),
      (.isNull (.plain .or active opened), .plain .or active (.isNull opened)),
      (.plain .and (.conditional (.plain .or active opened) (truth true) (truth false) .bool) full,
        .plain .or active (.plain .and opened full))]
    ∃ i : Interpretation Unit, ∀ p ∈ pairs, p.1.isPredicate = true ∧ p.2.isPredicate = true ∧
      (textOf? p.1).isSome = true ∧ textOf? p.1 = textOf? p.2 ∧ p.1.value i ≠ p.2.value i := by
  intro active opened full pairs
  refine ⟨⟨fun _ name => if name = "Active" then .truth true else if name = "Open" then .null else .truth false,
    fun _ _ _ => .null⟩, ?_⟩
  decide +kernel

end Generator

end GraphQuery
