import GraphQuery.Proofs.QuotedTexts
import GraphQuery.Proofs.Separated

/-!
# Operator trees

Grouping follows the left operand alone, so `a = b + c` carries no parentheses. The text of stored properties under
operators and negations nevertheless shows which operator combines which operands: two such expressions have the same
text exactly when they have the same tree (`Generator.render_operatorTree`). A tree forgets conversions and what a
front end says about an operator beyond its kind, and the two spellings of "and" and of "or" are one.

The text of a tree is injective up to what follows it. What can follow a whole tree is nothing, a comma or a closing
parenthesis; a tree that is no infix expression can be followed by anything but a quote.
-/

namespace GraphQuery

namespace Operator

/-- The operator as which an operator is written. -/
def spelled : Operator → Operator
  | andAlso => and
  | orElse => or
  | op => op

@[simp] theorem spelled_spelled (op : Operator) : op.spelled.spelled = op.spelled := by
  cases op <;> rfl

@[simp] theorem symbol_spelled (op : Operator) : op.spelled.symbol? = op.symbol? := by
  cases op <;> rfl

/-- Operators that are written as themselves. -/
def Spelling : Type := { op : Operator // op.spelled = op }
  deriving DecidableEq

def spelling (op : Operator) : Spelling :=
  ⟨op.spelled, op.spelled_spelled⟩

end Operator

/-- Stored properties, by the alias of their node and their stored name, under operators and negations. -/
inductive OperatorTree where
  | property (node name : String)
  | binary (op : Operator.Spelling) (left right : OperatorTree)
  | not (operand : OperatorTree)
  deriving DecidableEq

/-- The tree of an expression that is built from stored properties of nodes with an alias by operators, conversions and
negations. -/
def Expr.operatorTree? : Expr → Option OperatorTree
  | .storage p => p.node.name.map fun node => .property node p.name
  | .binary op left right _ =>
    match left.operatorTree?, right.operatorTree? with
    | some l, some r => some (.binary op.spelling l r)
    | _, _ => none
  | .convert operand _ => operand.operatorTree?
  | .not operand => operand.operatorTree?.map .not
  | _ => none

namespace OperatorTree

/-- Whether a symbol stands between the operands of a tree. -/
def isInfix : OperatorTree → Bool
  | .binary op _ _ => op.val.symbol?.isSome
  | _ => false

/-- A text in parentheses when it is to be grouped. -/
def grouped (group : Bool) (text : String) : String :=
  if group then "(" ++ text ++ ")" else text

/-- The text of a tree, with names between double quotes. -/
def text : OperatorTree → String
  | .property node name => Text.delimit '\x22' node ++ "." ++ Text.delimit '\x22' name
  | .binary op left right =>
    match op.val.symbol? with
    | none => "coalesce(" ++ left.text ++ ", " ++ right.text ++ ")"
    | some symbol => grouped left.isInfix left.text ++ symbol ++ grouped left.isInfix right.text
  | .not operand => "NOT (" ++ operand.text ++ ")"

end OperatorTree

/-! ## Writing a tree -/

/-- The tree of an expression is infix when the expression is. -/
theorem Expr.isInfix_operatorTree : ∀ {e : Expr} {t : OperatorTree}, e.operatorTree? = some t → t.isInfix = e.isInfix
  | .storage p, t, h => by
    obtain ⟨node, -, rfl⟩ := Option.map_eq_some_iff.1 h
    rfl
  | .binary op left right detail, t, h => by
    rw [operatorTree?] at h
    split at h
    · cases h
      simp [OperatorTree.isInfix, isInfix, bare, Operator.spelling]
    · cases h
  | .convert operand type, t, h => isInfix_operatorTree (e := operand) h
  | .not operand, t, h => by
    obtain ⟨operand', -, rfl⟩ := Option.map_eq_some_iff.1 h
    rfl

/-- Texts are written one behind the other when no line is indented. -/
theorem Output.writeAll_texts (slotPrefix : String) (texts : List String) {w : Output} (h : w.out.level = 0) :
    (w.writeAll slotPrefix (texts.map .text)).out.text = w.out.text ++ String.join texts := by
  induction texts generalizing w with
  | nil => simp [writeAll]
  | cons s texts ih =>
    have hstep : (w.write slotPrefix (.text s)).out.level = 0 ∧
        (w.write slotPrefix (.text s)).out.text = w.out.text ++ s := by
      simp only [write, IndentedText.append]
      split
      · rename_i hempty
        simp [h, String.isEmpty_iff.1 hempty]
      · simp [h, IndentedText.indentation]
    have hrest := ih hstep.1
    rw [hstep.2, String.append_assoc] at hrest
    rw [String.join_cons]
    exact hrest

namespace Generator

variable {g : Generator}

theorem group_texts (grouped : Bool) (texts : List String) :
    ∃ all : List String, group grouped (texts.map .text) = all.map .text ∧
      String.join all = OperatorTree.grouped grouped (String.join texts) := by
  cases grouped with
  | false => exact ⟨texts, rfl, rfl⟩
  | true => exact ⟨"(" :: (texts ++ [")"]), by simp [group], by simp [OperatorTree.grouped, String.append_assoc]⟩

/-- Operands that are written as texts are so with a symbol between them. -/
theorem operands_texts (grouped : Bool) (ls : List String) (symbol : String) (rs : List String) :
    ∃ all : List String,
      group grouped (ls.map .text) ++ .text symbol :: group grouped (rs.map .text) = all.map .text ∧
      String.join all =
        OperatorTree.grouped grouped (String.join ls) ++ symbol ++ OperatorTree.grouped grouped (String.join rs) := by
  obtain ⟨ls', hls, hl⟩ := group_texts grouped ls
  obtain ⟨rs', hrs, hr⟩ := group_texts grouped rs
  exact ⟨ls' ++ symbol :: rs', by simp [hls, hrs], by simp [hl, hr, String.append_assoc]⟩

/-- An expression with a tree is written as texts, which make the text of the tree. -/
theorem expr_operatorTree (hg : g.delimit = .quoting '\x22') (hint : Option LiteralStyle) {e : Expr} {t : OperatorTree}
    (h : e.operatorTree? = some t) :
    ∃ texts : List String, g.expr hint e = .ok (texts.map .text) ∧ String.join texts = t.text := by
  fun_induction Generator.expr g hint e generalizing t
  case case1 hop ihl ihr =>
    rw [Expr.operatorTree?] at h
    split at h
    · rename_i l r hl hr
      cases h
      obtain ⟨ls, hls, hl⟩ := ihl hl
      obtain ⟨rs, hrs, hr⟩ := ihr hr
      refine ⟨"coalesce(" :: (ls ++ ", " :: (rs ++ [")"])), ?_, ?_⟩
      · rw [hls, hrs]
        simp [bind, Except.bind, pure, Except.pure]
      · simp [OperatorTree.text, Operator.spelling, hop, ← hl, ← hr, String.append_assoc]
    · cases h
  case case2 left _ _ symbol hop _ ihl ihr =>
    rw [Expr.operatorTree?] at h
    split at h
    · rename_i l r hl hr
      cases h
      have hsymbol := Expr.isInfix_operatorTree hl
      obtain ⟨ls, hls, hl⟩ := ihl hl
      obtain ⟨rs, hrs, hr⟩ := ihr hr
      obtain ⟨all, hall, htext⟩ := operands_texts left.isInfix ls symbol rs
      refine ⟨all, ?_, ?_⟩
      · rw [hls, hrs]
        simp [bind, Except.bind, pure, Except.pure, hall]
      · simp [OperatorTree.text, Operator.spelling, hop, hsymbol, htext, hl, hr]
    · cases h
  case case7 ih => exact ih h
  case case10 ih =>
    obtain ⟨t, ht, rfl⟩ := Option.map_eq_some_iff.1 h
    obtain ⟨texts, htexts, htext⟩ := ih ht
    refine ⟨"NOT (" :: (texts ++ [")"]), ?_, ?_⟩
    · rw [htexts]
      simp [bind, Except.bind, pure, Except.pure]
    · simp [OperatorTree.text, htext, String.append_assoc]
  case case11 p =>
    obtain ⟨node, hnode, rfl⟩ := Option.map_eq_some_iff.1 h
    refine ⟨[g.delimit node ++ "." ++ g.delimit p.name], ?_, ?_⟩
    · simp [storage, hnode]
    · simp [hg, Delimiter.quoting, OperatorTree.text]
  all_goals cases h

end Generator

/-! ## Symbols -/

namespace Operator

/-- The operator whose symbol stands at the start of a text, with what follows. -/
def read? : List Char → Option (Operator × List Char)
  | ' ' :: '=' :: ' ' :: rest => some (equal, rest)
  | ' ' :: '<' :: '>' :: ' ' :: rest => some (notEqual, rest)
  | ' ' :: '>' :: ' ' :: rest => some (greaterThan, rest)
  | ' ' :: '>' :: '=' :: ' ' :: rest => some (greaterThanOrEqual, rest)
  | ' ' :: '<' :: ' ' :: rest => some (lessThan, rest)
  | ' ' :: '<' :: '=' :: ' ' :: rest => some (lessThanOrEqual, rest)
  | ' ' :: '+' :: ' ' :: rest => some (add, rest)
  | ' ' :: '-' :: ' ' :: rest => some (subtract, rest)
  | ' ' :: '*' :: ' ' :: rest => some (multiply, rest)
  | ' ' :: '/' :: ' ' :: rest => some (divide, rest)
  | ' ' :: '%' :: ' ' :: rest => some (modulo, rest)
  | ' ' :: '^' :: ' ' :: rest => some (exclusiveOr, rest)
  | ' ' :: 'A' :: 'N' :: 'D' :: ' ' :: rest => some (and, rest)
  | ' ' :: 'O' :: 'R' :: ' ' :: rest => some (or, rest)
  | _ => none

theorem read_symbol {op : Operator} {symbol : String} (h : op.symbol? = some symbol) (rest : List Char) :
    read? (symbol.toList ++ rest) = some (op.spelled, rest) := by
  cases op <;> cases h <;> rfl

theorem symbol_head {op : Operator} {symbol : String} (h : op.symbol? = some symbol) (rest : List Char) :
    (symbol.toList ++ rest).head? = some ' ' := by
  cases op <;> cases h <;> rfl

theorem symbol_eq_none {op : Operator} (h : op.symbol? = none) : op = coalesce := by
  cases op <;> cases h
  rfl

/-- No symbol starts another one, and a symbol belongs to one operator up to spelling. -/
theorem symbol_append_inj {op op' : Spelling} {symbol symbol' : String} (h : op.val.symbol? = some symbol)
    (h' : op'.val.symbol? = some symbol') {rest rest' : List Char}
    (heq : symbol.toList ++ rest = symbol'.toList ++ rest') : op = op' ∧ rest = rest' := by
  have hread := read_symbol h rest
  rw [heq, read_symbol h', op.property, op'.property, Option.some.injEq, Prod.mk.injEq] at hread
  exact ⟨Subtype.ext hread.1.symm, hread.2.symm⟩

end Operator

/-! ## Texts that determine their trees -/

namespace OperatorTree

variable {t l r operand : OperatorTree} {op : Operator.Spelling} {symbol : String}

theorem text_coalesce (hop : op.val.symbol? = none) (l r : OperatorTree) :
    (binary op l r).text = "coalesce(" ++ l.text ++ ", " ++ r.text ++ ")" := by
  simp only [text, hop]

theorem text_symbol (hop : op.val.symbol? = some symbol) (l r : OperatorTree) :
    (binary op l r).text = grouped l.isInfix l.text ++ symbol ++ grouped l.isInfix r.text := by
  simp only [text, hop]

theorem isInfix_cases (h : t.isInfix = true) :
    ∃ op l r symbol, t = binary op l r ∧ op.val.symbol? = some symbol := by
  cases t with
  | property node name => cases h
  | not operand => cases h
  | binary op l r =>
    obtain ⟨symbol, hop⟩ := Option.isSome_iff_exists.1 h
    exact ⟨op, l, r, symbol, rfl, hop⟩

/-- Only an infix tree with grouped operands starts with a parenthesis. -/
theorem text_head (h : t.isInfix = false) (rest : List Char) : (t.text.toList ++ rest).head? ≠ some '(' := by
  cases t with
  | property node name => simp [text, Text.delimit]
  | not operand => simp [text]
  | binary op l r =>
    rw [text_coalesce (by simpa [isInfix] using h)]
    simp

/-- What can follow a whole tree. -/
def Closes (rest : List Char) : Prop :=
  ∀ c ∈ rest.head?, c = ',' ∨ c = ')'

theorem Closes.no_quote {rest : List Char} (h : Closes rest) : rest.head? ≠ some '\x22' := by
  intro hquote
  rcases h _ hquote with hc | hc <;> cases hc

theorem Closes.no_space {rest : List Char} (h : Closes rest) : rest.head? ≠ some ' ' := by
  intro hspace
  rcases h _ hspace with hc | hc <;> cases hc

theorem closes_paren (rest : List Char) : Closes (')' :: rest) := by
  intro c hc
  cases hc
  exact Or.inr rfl

theorem closes_comma (rest : List Char) : Closes (',' :: rest) := by
  intro c hc
  cases hc
  exact Or.inl rfl

/-- The text of a tree that is not infix determines the tree among those that are not, whatever follows but a quote. -/
def OneInj (t : OperatorTree) : Prop :=
  ∀ ⦃t' : OperatorTree⦄ ⦃rest rest' : List Char⦄, t'.isInfix = false → rest.head? ≠ some '\x22' →
    rest'.head? ≠ some '\x22' → t.text.toList ++ rest = t'.text.toList ++ rest' → t = t' ∧ rest = rest'

/-- The text of a tree determines the tree when it ends there. -/
def Inj (t : OperatorTree) : Prop :=
  ∀ ⦃t' : OperatorTree⦄ ⦃rest rest' : List Char⦄, Closes rest → Closes rest' →
    t.text.toList ++ rest = t'.text.toList ++ rest' → t = t' ∧ rest = rest'

theorem oneInj_property (node name : String) : (property node name).OneInj := by
  intro t' rest rest' ht' hrest hrest' h
  cases t' with
  | property node' name' =>
    simp only [text, String.toList_append, List.append_assoc] at h
    obtain ⟨rfl, hname⟩ := Text.delimit_append_inj (by simp) (by simp) h
    obtain ⟨rfl, hend⟩ := Text.delimit_append_inj hrest hrest' (List.append_cancel_left hname)
    exact ⟨rfl, hend⟩
  | binary op l r =>
    rw [text_coalesce (by simpa [isInfix] using ht')] at h
    simp [text, Text.delimit] at h
  | not operand => simp [text, Text.delimit] at h

theorem Inj.not (h : operand.Inj) : (not operand).OneInj := by
  intro t' rest rest' ht' _ _ heq
  cases t' with
  | property node name => simp [text, Text.delimit] at heq
  | binary op l r =>
    rw [text_coalesce (by simpa [isInfix] using ht')] at heq
    simp [text] at heq
  | not operand' =>
    simp only [text, String.toList_append, List.append_assoc, List.append_cancel_left_eq] at heq
    obtain ⟨rfl, hend⟩ := h (closes_paren rest) (closes_paren rest') heq
    exact ⟨rfl, (List.cons.inj hend).2⟩

theorem Inj.coalesce (hop : op.val.symbol? = none) (hl : l.Inj) (hr : r.Inj) : (binary op l r).OneInj := by
  intro t' rest rest' ht' _ _ heq
  rw [text_coalesce hop] at heq
  cases t' with
  | property node name => simp [text, Text.delimit] at heq
  | not operand => simp [text] at heq
  | binary op' l' r' =>
    have hop' : op'.val.symbol? = none := by simpa [isInfix] using ht'
    rw [text_coalesce hop'] at heq
    simp only [String.toList_append, List.append_assoc, List.append_cancel_left_eq] at heq
    obtain ⟨rfl, hright⟩ := hl (closes_comma _) (closes_comma _) heq
    simp only [List.cons.injEq, true_and] at hright
    obtain ⟨rfl, hend⟩ := hr (closes_paren rest) (closes_paren rest') (List.cons.inj hright).2
    have hsame : op = op' := Subtype.ext ((Operator.symbol_eq_none hop).trans (Operator.symbol_eq_none hop').symm)
    rw [hsame]
    exact ⟨rfl, (List.cons.inj hend).2⟩

/-- A tree that is not infix is no beginning of an infix one: a symbol would follow. -/
theorem OneInj.inj (ht : t.isInfix = false) (h : t.OneInj) : t.Inj := by
  intro t' rest rest' hrest hrest' heq
  cases ht' : t'.isInfix with
  | false => exact h ht' hrest.no_quote hrest'.no_quote heq
  | true =>
    obtain ⟨op, l, r, symbol, rfl, hop⟩ := isInfix_cases ht'
    rw [text_symbol hop] at heq
    cases hl : l.isInfix with
    | true =>
      have hhead := text_head ht rest
      rw [heq, hl] at hhead
      simp [grouped] at hhead
    | false =>
      simp only [hl, grouped, Bool.false_eq_true, if_false, String.toList_append, List.append_assoc] at heq
      have hspace := Operator.symbol_head hop (r.text.toList ++ rest')
      obtain ⟨-, hsymbol⟩ := h hl hrest.no_quote (by simp [hspace]) heq
      exact absurd (hsymbol ▸ hspace) hrest.no_space

/-- An infix tree whose left operand is not infix is written without parentheses, and the right operand goes on to the
end. -/
theorem OneInj.binary (hop : op.val.symbol? = some symbol) (hl : l.isInfix = false) (hone : l.OneInj) (hr : r.Inj) :
    (binary op l r).Inj := by
  intro t' rest rest' hrest hrest' heq
  simp only [text_symbol hop, hl, grouped, Bool.false_eq_true, if_false, String.toList_append, List.append_assoc] at heq
  have hspace := Operator.symbol_head hop (r.text.toList ++ rest)
  cases ht' : t'.isInfix with
  | false =>
    obtain ⟨-, hsymbol⟩ := hone ht' (by simp [hspace]) hrest'.no_quote heq
    exact absurd (hsymbol ▸ hspace) hrest'.no_space
  | true =>
    obtain ⟨op', l', r', symbol', rfl, hop'⟩ := isInfix_cases ht'
    rw [text_symbol hop'] at heq
    cases hl' : l'.isInfix with
    | true =>
      have hhead := text_head hl (symbol.toList ++ (r.text.toList ++ rest))
      rw [heq, hl'] at hhead
      simp [grouped] at hhead
    | false =>
      simp only [hl', grouped, Bool.false_eq_true, if_false, String.toList_append, List.append_assoc] at heq
      have hspace' := Operator.symbol_head hop' (r'.text.toList ++ rest')
      obtain ⟨rfl, hright⟩ := hone hl' (by simp [hspace]) (by simp [hspace']) heq
      obtain ⟨rfl, hright⟩ := Operator.symbol_append_inj hop hop' hright
      obtain ⟨rfl, hend⟩ := hr hrest hrest' hright
      exact ⟨rfl, hend⟩

/-- An infix tree whose left operand is infix has both operands in parentheses. -/
theorem Inj.binary (hop : op.val.symbol? = some symbol) (hsymbol : l.isInfix = true) (hl : l.Inj) (hr : r.Inj) :
    (binary op l r).Inj := by
  intro t' rest rest' hrest hrest' heq
  cases ht' : t'.isInfix with
  | false =>
    have hhead := text_head ht' rest'
    rw [← heq, text_symbol hop, hsymbol] at hhead
    simp [grouped] at hhead
  | true =>
    obtain ⟨op', l', r', symbol', rfl, hop'⟩ := isInfix_cases ht'
    cases hl' : l'.isInfix with
    | false =>
      have hhead := text_head hl' (symbol'.toList ++ (r'.text.toList ++ rest'))
      simp only [text_symbol hop, text_symbol hop', hsymbol, hl', grouped, if_true, Bool.false_eq_true, if_false,
        String.toList_append, List.append_assoc] at heq
      rw [← heq] at hhead
      simp at hhead
    | true =>
      simp only [text_symbol hop, text_symbol hop', hsymbol, hl', grouped, if_true, String.toList_append,
        List.append_assoc, List.append_cancel_left_eq] at heq
      obtain ⟨rfl, hright⟩ := hl (closes_paren _) (closes_paren _) heq
      obtain ⟨rfl, hright⟩ := Operator.symbol_append_inj hop hop' (List.cons.inj hright).2
      obtain ⟨rfl, hend⟩ := hr (closes_paren _) (closes_paren _) (List.cons.inj hright).2
      exact ⟨rfl, (List.cons.inj hend).2⟩

/-- The text of a tree determines the tree. -/
theorem text_inj (t : OperatorTree) : (t.isInfix = false → t.OneInj) ∧ t.Inj := by
  induction t with
  | property node name =>
    have hone := oneInj_property node name
    exact ⟨fun _ => hone, hone.inj rfl⟩
  | not operand ih =>
    have hone := ih.2.not
    exact ⟨fun _ => hone, hone.inj rfl⟩
  | binary op l r ihl ihr =>
    cases hop : op.val.symbol? with
    | none =>
      have hone := Inj.coalesce hop ihl.2 ihr.2
      exact ⟨fun _ => hone, hone.inj (by simp [isInfix, hop])⟩
    | some symbol =>
      refine ⟨fun h => ?_, ?_⟩
      · simp [isInfix, hop] at h
      · cases hl : l.isInfix with
        | false => exact (ihl.1 hl).binary hop hl ihr.2
        | true => exact ihl.2.binary hop hl ihr.2

end OperatorTree

/-! ## Reads that return a tree -/

/-- A read without clauses that returns an expression. -/
def Read.returning (e : Expr) : Read :=
  { Read.empty Read.defaultAliasPrefix with items := [e] }

namespace Generator

variable {g : Generator}

/-- What stands in front of a returned expression when there are no clauses. -/
theorem opening_returning (g : Generator) :
    ∃ texts : List String, ∀ e, g.opening (.returning e) = .ok (texts.map .text) := by
  cases hpseudo : g.pseudoMatch with
  | none => exact ⟨[], fun e => by simp only [opening, hpseudo]; rfl⟩
  | some text =>
    by_cases htext : text.isEmpty
    · exact ⟨[], fun e => by simp only [opening, hpseudo, htext]; rfl⟩
    · exact ⟨[text, " "], fun e => by simp only [opening, hpseudo, htext]; rfl⟩

/-- The text of a read that returns an expression is that of the expression, behind a text that does not depend on
it. -/
theorem render_returning_texts (g : Generator) :
    ∃ before : String, ∀ e texts, g.expr none e = .ok (texts.map .text) →
      ∃ rendered, g.render (.returning e) = .ok rendered ∧ rendered.text = before ++ String.join texts := by
  obtain ⟨opening, hopening⟩ := g.opening_returning
  refine ⟨String.join opening ++ "RETURN ", fun e texts htexts => ?_⟩
  have hread : g.read (.returning e) = .ok ((opening ++ "RETURN " :: texts).map .text) := by
    rw [Generator.read, hopening]
    simp [returned, star, exprs, sortTerms, option, Read.returning, Read.empty, htexts, bind, Except.bind, pure,
      Except.pure]
  refine ⟨_, by rw [render, hread]; rfl, ?_⟩
  have hwritten := Output.writeAll_texts g.settings.parameterPrefix (opening ++ "RETURN " :: texts) (w := g.start) rfl
  simpa [write, start, String.append_assoc] using hwritten

theorem render_returning (hg : g.delimit = .quoting '\x22') :
    ∃ before : String, ∀ e t, e.operatorTree? = some t →
      ∃ rendered, g.render (.returning e) = .ok rendered ∧ rendered.text = before ++ t.text := by
  obtain ⟨before, hbefore⟩ := g.render_returning_texts
  refine ⟨before, fun e t ht => ?_⟩
  obtain ⟨texts, htexts, htext⟩ := expr_operatorTree hg none ht
  rw [← htext]
  exact hbefore e texts htexts

/-- Expressions of stored properties under operators, conversions and negations can be written, and two of them have the
same text exactly when they have the same tree. -/
theorem render_operatorTree (hg : g.delimit = .quoting '\x22') {e e' : Expr} {t t' : OperatorTree}
    (h : e.operatorTree? = some t) (h' : e'.operatorTree? = some t') :
    ∃ x x', g.render (.returning e) = .ok x ∧ g.render (.returning e') = .ok x' ∧ (x.text = x'.text ↔ t = t') := by
  obtain ⟨before, hbefore⟩ := render_returning hg
  obtain ⟨x, hx, htext⟩ := hbefore e t h
  obtain ⟨x', hx', htext'⟩ := hbefore e' t' h'
  refine ⟨x, x', hx, hx', fun heq => ?_, fun heq => ?_⟩
  · rw [htext, htext', String.append_right_inj] at heq
    have hnil : OperatorTree.Closes [] := fun _ hc => nomatch hc
    exact (t.text_inj.2 hnil hnil (by rw [heq])).1
  · rw [htext, htext', heq]

def storedNumber (node name : String) : Expr :=
  .storage ⟨name, ⟨"Warehouse", { name, type := .int32 }⟩, ⟨some node, []⟩⟩

/-- A sum on the right of an equation and an equation on the left of a sum have different texts, also when the name of
a property reads like two names with an operator between them. -/
theorem render_operatorTree_of_sums :
    let a := storedNumber "w" "Size"
    let b := storedNumber "w" "a\" + \"b"
    let c := storedNumber "v" "Size"
    let sum : Expr := .binary .equal a (.convert (.binary .add b c {}) .int64) {}
    let equation : Expr := .binary .add (.binary .equal a b {}) c {}
    sum.operatorTree?.isSome = true ∧ equation.operatorTree?.isSome = true ∧
      ∃ x x', ({} : Generator).render (.returning sum) = .ok x ∧
        ({} : Generator).render (.returning equation) = .ok x' ∧ x.text ≠ x'.text := by
  intro a b c sum equation
  have hsum : sum.operatorTree? = some _ := rfl
  have hequation : equation.operatorTree? = some _ := rfl
  obtain ⟨x, x', hx, hx', htext⟩ := render_operatorTree (g := {}) rfl hsum hequation
  exact ⟨rfl, rfl, x, x', hx, hx', fun heq => absurd (htext.1 heq) (by decide)⟩

end Generator

end GraphQuery
