import GraphQuery.Proofs.Indentation
import GraphQuery.Proofs.Lines
import GraphQuery.Proofs.Placeholders

/-!
# Writing step by step

The pieces of an expression are found first and written behind. A writer that writes each piece as soon as it is known
has to keep more in its state: the style in force for literals, which an operator changes in front of its operands and
takes back behind them (`Generator.writeExpr`). It gives the same text or the same error, since a run of it writes the
pieces of its expression and changes nothing else (`Generator.writeExpr_emits`).

An expression therefore leaves the style in force and the indent as they were. Where constants are written out, nothing
else is handed on from one return item to the next, so each item has the text that it has on its own
(`Generator.writeExpr_leaves`).
-/

namespace GraphQuery

/-! ## Writers -/

/-- A writer at work: what it has written, and the style in force for literals. -/
structure Writer where
  output : Output
  hint : Option LiteralStyle := none

/-- The writer with pieces behind what it has written. -/
def Writer.emit (slotPrefix : String) (ps : List Piece) (w : Writer) : Writer :=
  { w with output := w.output.writeAll slotPrefix ps }

theorem Writer.emit_append (slotPrefix : String) (ps qs : List Piece) (w : Writer) :
    w.emit slotPrefix (ps ++ qs) = (w.emit slotPrefix ps).emit slotPrefix qs := by
  simp only [emit, Output.writeAll_append]

/-- A step of a writer, which may fail. -/
abbrev Writing := StateT Writer (Except RenderError) Unit

/-- Takes a step with another style in force, and goes back to the one of before. -/
def Writing.withHint (change : Option LiteralStyle → Option LiteralStyle) (x : Writing) : Writing := do
  let saved := (← get).hint
  modify fun w => { w with hint := change saved }
  x
  modify fun w => { w with hint := saved }

namespace Generator

/-- Writes pieces. -/
def put (g : Generator) (ps : List Piece) : Writing :=
  modify (Writer.emit g.settings.parameterPrefix ps)

/-- Writes pieces that depend on the style in force. -/
def putFound (g : Generator) (find : Option LiteralStyle → Except RenderError (List Piece)) : Writing := do
  let ps ← find (← get).hint
  g.put ps

/-- Takes a step in parentheses when it is to be grouped. -/
def writeGrouped (g : Generator) (grouped : Bool) (x : Writing) : Writing :=
  if grouped then do
    g.put [.text "("]
    x
    g.put [.text ")"]
  else x

/-- Writes the word for a truth value, or takes the step for any other branch. -/
def writeBranch (g : Generator) (branch : Expr) (x : Writing) : Writing :=
  match g.branchToken? branch with
  | some token => g.put [.text token]
  | none => x

/-- Writes an expression step by step. -/
def writeExpr (g : Generator) : Expr → Writing
  | .binary op left right _ =>
    match op.symbol? with
    | none => do
      g.put [.text "coalesce("]
      g.writeExpr left
      g.put [.text ", "]
      g.writeExpr right
      g.put [.text ")"]
    | some symbol =>
      .withHint (fun hint => g.operandHint hint op left right) do
        g.writeGrouped left.isInfix (g.writeExpr left)
        g.put [.text symbol]
        g.writeGrouped left.isInfix (g.writeExpr right)
  | .conditional test ifTrue ifFalse type =>
    if type.isBool then g.writeExpr test
    else do
      g.put [.text "CASE", .newLine, .indent, .text "WHEN "]
      g.writeExpr test
      g.put [.newLine, .text "THEN "]
      g.writeBranch ifTrue (g.writeExpr ifTrue)
      g.put [.text " ELSE "]
      g.writeBranch ifFalse (g.writeExpr ifFalse)
      g.put [.dedent, .newLine, .text "END"]
  | .constant value type => g.putFound fun hint => g.constant hint value type
  | .parameter name _ => g.putFound fun _ => g.parameter name
  | .convert operand _ => g.writeExpr operand
  | .isNull operand => do
    g.writeExpr operand
    g.put [.text " IS NULL"]
  | .not (.isNull operand) => do
    g.writeExpr operand
    g.put [.text " IS NOT NULL"]
  | .not operand => do
    g.put [.text "NOT ("]
    g.writeExpr operand
    g.put [.text ")"]
  | .storage p => g.putFound fun _ => g.storage p
  | .aliased name e => do
    g.writeExpr e
    g.put (g.outputName name)
  | .read _ => throw .nestedRead
  | .source _ _ => throw (.unsupportedExpression .source)
  | .member _ _ => throw (.unsupportedExpression .member)
  | .negate _ => throw (.unsupportedExpression .negate)
  | .call .. => throw (.unsupportedExpression .call)
  | .construct _ _ => throw (.unsupportedExpression .construct)
  | .subquery _ => throw (.unsupportedExpression .subquery)
  | .extension _ _ => throw (.unsupportedExpression .extension)
  | .sequence _ => throw (.unsupportedExpression .sequence)

/-- Writes expressions step by step, with commas between them. -/
def writeExprs (g : Generator) : List Expr → Writing
  | [] => pure ()
  | [e] => g.writeExpr e
  | e :: rest => do
    g.writeExpr e
    g.put [.text ", "]
    g.writeExprs rest

/-! ## Steps that write pieces -/

/-- A step that writes what is found, where `hint` is the style in force, and changes nothing else. -/
def Emits (g : Generator) (hint : Option LiteralStyle) (x : Writing) (found : Except RenderError (List Piece)) : Prop :=
  ∀ w : Writer, w.hint = hint → x.run w = found.map fun ps => ((), w.emit g.settings.parameterPrefix ps)

namespace Emits

variable {g : Generator} {hint : Option LiteralStyle} {x y : Writing} {found found' : Except RenderError (List Piece)}

theorem nothing (g : Generator) (hint : Option LiteralStyle) : g.Emits hint (pure ()) (pure []) :=
  fun _ _ => rfl

theorem put (g : Generator) (hint : Option LiteralStyle) (ps : List Piece) : g.Emits hint (g.put ps) (pure ps) :=
  fun _ _ => rfl

theorem putFound (g : Generator) (hint : Option LiteralStyle)
    (find : Option LiteralStyle → Except RenderError (List Piece)) : g.Emits hint (g.putFound find) (find hint) := by
  intro w hw
  have hrun : (g.putFound find).run w =
      (find w.hint >>= fun ps => pure (ps, w)) >>= fun result => (g.put result.1).run result.2 := rfl
  rw [hrun, hw]
  cases find hint <;> rfl

theorem error (g : Generator) (hint : Option LiteralStyle) (err : RenderError) :
    g.Emits hint (throw err) (.error err) :=
  fun _ _ => rfl

theorem congr (h : g.Emits hint x found) (heq : found = found') : g.Emits hint x found' :=
  heq ▸ h

/-- Steps in a row write their pieces one behind the other. The first leaves the style in force to the second. -/
theorem seq (hx : g.Emits hint x found) (hy : g.Emits hint y found') :
    g.Emits hint (x >>= fun _ => y) (do
      let ps ← found
      let qs ← found'
      return ps ++ qs) := by
  intro w hw
  rw [StateT.run_bind, hx w hw]
  cases found with
  | error err => rfl
  | ok ps =>
    change y.run (w.emit g.settings.parameterPrefix ps) = (found' >>= fun qs => pure (ps ++ qs)).map _
    rw [hy (w.emit g.settings.parameterPrefix ps) hw]
    cases found' with
    | error err => rfl
    | ok qs => exact congrArg (fun w => Except.ok ((), w)) (w.emit_append g.settings.parameterPrefix ps qs).symm

/-- A step under another style gives back the one of before. -/
theorem withHint (change : Option LiteralStyle → Option LiteralStyle) (hx : g.Emits (change hint) x found) :
    g.Emits hint (.withHint change x) found := by
  intro w hw
  have hrun : (Writing.withHint change x).run w =
      x.run { w with hint := change w.hint } >>= fun result => pure ((), { result.2 with hint := w.hint }) := rfl
  rw [hrun, hx _ (congrArg change hw)]
  cases found <;> rfl

theorem grouped (grouped : Bool) (hx : g.Emits hint x found) :
    g.Emits hint (g.writeGrouped grouped x) (return group grouped (← found)) := by
  cases grouped with
  | false => exact hx.congr (bind_pure found).symm
  | true =>
    refine ((put g hint [.text "("]).seq (hx.seq (put g hint [.text ")"]))).congr ?_
    simp [group]

theorem branch (e : Expr) (hx : g.Emits hint x found) :
    g.Emits hint (g.writeBranch e x)
      (match g.branchToken? e with
      | some token => pure [.text token]
      | none => found) := by
  unfold writeBranch
  cases g.branchToken? e with
  | some token => exact put g hint [.text token]
  | none => exact hx

end Emits

variable {g : Generator}

/-- Writing an expression step by step writes its pieces. -/
theorem writeExpr_emits (hint : Option LiteralStyle) (e : Expr) : g.Emits hint (g.writeExpr e) (g.expr hint e) := by
  fun_induction Generator.writeExpr g e generalizing hint
  case case1 hop ihl ihr =>
    refine ((Emits.put g hint _).seq ((ihl hint).seq ((Emits.put g hint _).seq
      ((ihr hint).seq (.put g hint _))))).congr ?_
    simp [Generator.expr, hop]
  case case2 op left right _ symbol hop ihl ihr =>
    -- The operands are written under the style that the operator chooses.
    have hinner := ((ihl (g.operandHint hint op left right)).grouped left.isInfix).seq
      ((Emits.put g _ [.text symbol]).seq ((ihr (g.operandHint hint op left right)).grouped left.isInfix))
    refine (Emits.withHint (fun hint => g.operandHint hint op left right) hinner).congr ?_
    simp [Generator.expr, hop]
  case case3 hbool ih =>
    rw [Generator.expr, if_pos hbool]
    exact ih hint
  case case4 test ifTrue ifFalse type hbool iht iha ihb =>
    refine ((Emits.put g hint _).seq ((iht hint).seq ((Emits.put g hint _).seq (((iha hint).branch ifTrue).seq
      ((Emits.put g hint _).seq (((ihb hint).branch ifFalse).seq (.put g hint _))))))).congr ?_
    rw [Generator.expr, if_neg hbool]
    cases g.branchToken? ifTrue <;> cases g.branchToken? ifFalse <;> simp
  case case5 => exact .putFound g hint _
  case case6 => exact .putFound g hint _
  case case7 ih => exact ih hint
  case case8 ih | case9 ih | case12 ih =>
    refine ((ih hint).seq (.put g hint _)).congr ?_
    simp [Generator.expr]
  case case10 ih =>
    refine ((Emits.put g hint _).seq ((ih hint).seq (.put g hint _))).congr ?_
    simp [Generator.expr]
  case case11 => exact .putFound g hint _
  all_goals exact .error g hint _

/-- Writing a list step by step writes its pieces: no expression changes the style for those behind it. -/
theorem writeExprs_emits (es : List Expr) : g.Emits none (g.writeExprs es) (g.exprs es) := by
  induction es with
  | nil => exact .nothing g none
  | cons e rest ih =>
    cases rest with
    | nil => exact writeExpr_emits none e
    | cons e' rest =>
      refine ((writeExpr_emits none e).seq ((Emits.put g none _).seq ih)).congr ?_
      simp [Generator.exprs]

end Generator

/-! ## What pieces leave as it was -/

/-- What has been written stays in front. -/
theorem Output.writeAll_text (slotPrefix : String) (w : Output) (ps : List Piece) :
    (w.writeAll slotPrefix ps).out.text = w.out.text ++ (w.withoutText.writeAll slotPrefix ps).out.text := by
  have hbehind := writeAll_behind slotPrefix w.out.text w.withoutText ps
  rw [withoutText_behind] at hbehind
  rw [hbehind]
  rfl

/-! ## Pieces that stand on their own -/

/-- Pieces that are written alike behind any text: no case distinction is around them, and they take no numbers. -/
structure Piece.Apart (ps : List Piece) : Prop where
  spans : ∃ heads, Spans 0 heads ps
  unnumbered : ∀ p ∈ ps, p.isSlot = false

namespace Piece.Apart

variable {ps qs : List Piece}

theorem append (h : Apart ps) (h' : Apart qs) : Apart (ps ++ qs) where
  spans := by
    obtain ⟨heads, hps⟩ := h.spans
    obtain ⟨heads', hqs⟩ := h'.spans
    exact ⟨heads ++ heads', hps.append hqs⟩
  unnumbered p hp := (List.mem_append.1 hp).elim (h.unnumbered p) (h'.unnumbered p)

theorem nil : Apart [] :=
  ⟨⟨[], .nil 0⟩, by simp⟩

theorem text (content : String) : Apart [.text content] :=
  ⟨⟨[], .text 0 content⟩, by simp [isSlot]⟩

end Piece.Apart

namespace Generator

variable {g : Generator} {ps qs : List Piece}

open Piece (Spans Apart)

/-- Pieces that stand on their own have the texts in a row that they have alone. -/
theorem write_append (h : Apart ps) (h' : Apart qs) :
    (g.write (ps ++ qs)).text = (g.write ps).text ++ (g.write qs).text := by
  obtain ⟨heads, hps⟩ := h.spans
  obtain ⟨heads', hqs⟩ := h'.spans
  obtain ⟨lines, -, hlines⟩ := hps.growsBy g.settings.parameterPrefix 0
  obtain ⟨lines', -, hlines'⟩ := hqs.growsBy g.settings.parameterPrefix 0
  have hfirst := hlines g.start rfl (fun _ => rfl) rfl
  have hslot : (g.start.writeAll g.settings.parameterPrefix ps).nextSlot = 0 := by
    rw [Output.writeAll_nextSlot, List.countP_eq_zero.2 (by simpa using h.unnumbered)]
    rfl
  have hbehind := hlines' _ hfirst.level hfirst.settled hslot
  have halone := hlines' g.start rfl (fun _ => rfl) rfl
  calc (g.write (ps ++ qs)).text
      = ((g.start.writeAll g.settings.parameterPrefix ps).writeAll g.settings.parameterPrefix qs).out.text :=
        congrArg (fun w : Output => w.out.text) (Output.writeAll_append g.settings.parameterPrefix g.start ps qs)
    _ = (g.write ps).text ++ lines'.text g.settings.indent := by
      rw [hbehind.text, hfirst.unit]
      rfl
    _ = (g.write ps).text ++ (g.write qs).text := by
      have htext : (g.write qs).text = "" ++ lines'.text g.settings.indent := halone.text
      rw [htext, String.empty_append]

theorem write_behindText (content : String) (h : Apart ps) :
    (g.write (.text content :: ps)).text = content ++ (g.write ps).text := by
  have hcontent : (g.write [.text content]).text = "" ++ content :=
    IndentedText.Settled.append_text (fun _ => rfl) content
  calc (g.write ([.text content] ++ ps)).text
      = (g.write [.text content]).text ++ (g.write ps).text := write_append (.text content) h
    _ = content ++ (g.write ps).text := by rw [hcontent, String.empty_append]

/-- Where constants are written out, only parameters become placeholders, and these bear names. -/
theorem apart_of_marks (hmode : g.settings.parameterizeLiterals = false) {heads : List LineHead}
    {refs : List Referent} (hspans : Spans 0 heads ps) (hmarks : Piece.marks ps = g.marks refs) : Apart ps where
  spans := ⟨heads, hspans⟩
  unnumbered p hp := by
    cases p with
    | slot value =>
      have hmark : (none, some value) ∈ Piece.marks ps := List.mem_filterMap.2 ⟨_, hp, rfl⟩
      rw [hmarks] at hmark
      obtain ⟨x, hx, hname⟩ := List.mem_map.1 hmark
      cases x with
      | constant v t =>
        have hsends : g.settings.parameterizeLiterals = true := (List.mem_filter.1 hx).2
        rw [hmode] at hsends
        cases hsends
      | parameter name => cases hname
    | _ => rfl

theorem expr_apart (hmode : g.settings.parameterizeLiterals = false) {e : Expr} (h : g.expr none e = .ok ps) :
    Apart ps :=
  apart_of_marks hmode (expr_spans h) (expr_marks h)

theorem exprs_apart (hmode : g.settings.parameterizeLiterals = false) {es : List Expr} (h : g.exprs es = .ok ps) :
    Apart ps :=
  apart_of_marks hmode (separated_spans g.exprs_separated (fun _ _ => expr_spans) h)
    (separated_marks g.exprs_separated rfl (fun _ _ => expr_marks) h)

/-! ## Return items -/

/-- A writer at the start of a text. -/
def writer (g : Generator) : Writer :=
  ⟨g.start, none⟩

/-- The text that a step gives on its own. -/
def textOf (g : Generator) (x : Writing) : Except RenderError String :=
  (x.run g.writer).map fun result => result.2.output.out.text

theorem Emits.textOf {x : Writing} {found : Except RenderError (List Piece)} (h : g.Emits none x found) :
    g.textOf x = found.map fun ps => (g.write ps).text := by
  rw [Generator.textOf, h g.writer rfl]
  cases found <;> rfl

/-- A list of expressions is written like each of them on its own, with commas between them. -/
theorem exprs_text (hmode : g.settings.parameterizeLiterals = false) (e : Expr) (rest : List Expr) :
    (g.exprs (e :: rest)).map (fun ps => (g.write ps).text) =
      ((e :: rest).mapM fun e => g.textOf (g.writeExpr e)).map (String.intercalate ", ") := by
  induction rest generalizing e with
  | nil =>
    rw [List.mapM_cons, List.mapM_nil, (writeExpr_emits none e).textOf]
    change (g.expr none e).map _ = _
    cases g.expr none e with
    | error err => rfl
    | ok ps => exact congrArg Except.ok String.intercalate_singleton.symm
  | cons e' rest ih =>
    have hrest := ih e'
    rw [g.exprs_separated.more, List.mapM_cons, (writeExpr_emits none e).textOf]
    cases hfirst : g.expr none e with
    | error err => rfl
    | ok first =>
      cases hothers : g.exprs (e' :: rest) with
      | error err =>
        rw [hothers] at hrest
        rw [Run.map_eq_error.1 hrest.symm]
        rfl
      | ok others =>
        rw [hothers] at hrest
        obtain ⟨texts, htexts, htext⟩ := Run.map_eq_ok.1 hrest.symm
        rw [htexts]
        -- There is a text behind the comma, since there is an expression.
        rw [List.mapM_cons] at htexts
        obtain ⟨text, -, htexts⟩ := Run.bind_eq_ok.1 htexts
        obtain ⟨texts, -, htexts⟩ := Run.bind_eq_ok.1 htexts
        cases htexts
        refine congrArg Except.ok ?_
        have hapart := exprs_apart hmode hothers
        calc (g.write (first ++ .text ", " :: others)).text
            = (g.write first).text ++ (g.write (.text ", " :: others)).text :=
              write_append (expr_apart hmode hfirst) ((Apart.text ", ").append hapart)
          _ = (g.write first).text ++ (", " ++ (g.write others).text) := by rw [write_behindText ", " hapart]
          _ = String.intercalate ", " ((g.write first).text :: text :: texts) := by
            rw [String.intercalate_cons_cons, ← htext, String.append_assoc]

/-- The pieces of a read are those of its return items between others, which do not depend on the items. -/
theorem read_around (hmode : g.settings.parameterizeLiterals = false) {r : Read} (h : g.read r = .ok ps) :
    ∃ front back, Apart front ∧ Apart back ∧ ∀ e rest,
      g.read { r with items := e :: rest } = (g.exprs (e :: rest)).map fun items => front ++ (items ++ back) := by
  obtain ⟨opening, hopening, h⟩ := Run.bind_eq_ok.1 h
  obtain ⟨returned, hreturned, h⟩ := Run.bind_eq_ok.1 h
  obtain ⟨star, hstar, -⟩ := Run.bind_eq_ok.1 hreturned
  obtain ⟨orderings, horderings, h⟩ := Run.bind_eq_ok.1 h
  obtain ⟨skip, hskip, h⟩ := Run.bind_eq_ok.1 h
  obtain ⟨limit, hlimit, -⟩ := Run.bind_eq_ok.1 h
  have hopeningApart : Apart opening := apart_of_marks hmode (opening_spans hopening) (opening_marks hopening)
  have hstarApart : Apart (if r.star then star ++ [.text ", "] else []) := by
    split
    · have hmarks : Piece.marks star = g.marks [] := star_marks hstar
      exact (apart_of_marks hmode (star_spans hstar) hmarks).append (.text ", ")
    · exact .nil
  have hterms : Apart (if r.orderings.isEmpty then [] else .text " ORDER BY " :: orderings) := by
    split
    · exact .nil
    · exact (Apart.text " ORDER BY ").append (apart_of_marks hmode (sortTerms_spans horderings)
        (separated_marks g.sortTerms_separated rfl (fun _ _ => sortTerm_marks) horderings))
  have hskipApart : Apart skip := apart_of_marks hmode (option_spans hskip) (option_marks hskip)
  have hlimitApart : Apart limit := apart_of_marks hmode (option_spans hlimit) (option_marks hlimit)
  refine ⟨_, _, hopeningApart.append ((Apart.text "RETURN ").append hstarApart),
    hterms.append (hskipApart.append hlimitApart), fun e rest => ?_⟩
  have hopening' : g.opening { r with items := e :: rest } = .ok opening := hopening
  have hstar' : g.star { r with items := e :: rest } = .ok star := hstar
  rw [Generator.read, hopening', Generator.returned, hstar']
  cases g.exprs (e :: rest) with
  | error err => rfl
  | ok items =>
    change (g.sortTerms r.orderings >>= fun orderings => g.option " SKIP " r.skip >>= fun skip =>
      g.option " LIMIT " r.limit >>= fun limit => _) = _
    rw [horderings, hskip, hlimit]
    refine congrArg Except.ok ?_
    cases r.star <;> simp

/-- The text of a read is that of its return items on their own between two texts, which do not depend on the items. -/
theorem render_items (hmode : g.settings.parameterizeLiterals = false) {r : Read} {x : Rendered}
    (h : g.render r = .ok x) :
    ∃ front back, ∀ e rest, (g.render { r with items := e :: rest }).map Rendered.text =
      ((e :: rest).mapM fun e => g.textOf (g.writeExpr e)).map fun texts =>
        front ++ String.intercalate ", " texts ++ back := by
  obtain ⟨ps, hps, -⟩ := Run.bind_eq_ok.1 h
  obtain ⟨front, back, hfront, hback, hread⟩ := read_around hmode hps
  refine ⟨(g.write front).text, (g.write back).text, fun e rest => ?_⟩
  have hitems : (g.render { r with items := e :: rest }).map Rendered.text =
      ((g.exprs (e :: rest)).map fun ps => (g.write ps).text).map fun text =>
        (g.write front).text ++ text ++ (g.write back).text := by
    rw [render, hread]
    cases hok : g.exprs (e :: rest) with
    | error err => rfl
    | ok items =>
      have hapart := exprs_apart hmode hok
      refine congrArg Except.ok ?_
      change (g.write (front ++ (items ++ back))).text =
        (g.write front).text ++ (g.write items).text ++ (g.write back).text
      rw [write_append hfront (hapart.append hback), write_append hapart hback, String.append_assoc]
  rw [hitems, exprs_text hmode]
  cases (e :: rest).mapM fun e => g.textOf (g.writeExpr e) <;> rfl

/-- A writer writes the pieces of an expression as it goes, and those of a list. An expression leaves the style in force
and the level of indent as they were, and what was written in front stays there. Where constants are written out, a list
has the texts of its elements on their own with commas between them, and so have the return items of a read, whatever
stands around them. -/
theorem writeExpr_leaves (g : Generator) :
    ((∀ hint e, g.Emits hint (g.writeExpr e) (g.expr hint e)) ∧ ∀ es, g.Emits none (g.writeExprs es) (g.exprs es)) ∧
    (∀ e w w', (g.writeExpr e).run w = .ok ((), w') →
      w'.hint = w.hint ∧ w'.output.out.level = w.output.out.level ∧
        ∃ added, w'.output.out.text = w.output.out.text ++ added) ∧
    (g.settings.parameterizeLiterals = false →
      (∀ e rest, g.textOf (g.writeExprs (e :: rest)) =
        ((e :: rest).mapM fun e => g.textOf (g.writeExpr e)).map (String.intercalate ", ")) ∧
      ∀ r x, g.render r = .ok x → ∃ front back, ∀ e rest,
        (g.render { r with items := e :: rest }).map Rendered.text =
          ((e :: rest).mapM fun e => g.textOf (g.writeExpr e)).map fun texts =>
            front ++ String.intercalate ", " texts ++ back) := by
  refine ⟨⟨writeExpr_emits, writeExprs_emits⟩, fun e w w' h => ?_, fun hmode => ⟨fun e rest => ?_, fun r x h => ?_⟩⟩
  · rw [writeExpr_emits w.hint e w rfl] at h
    obtain ⟨ps, hps, hw'⟩ := Run.map_eq_ok.1 h
    cases hw'
    exact ⟨rfl, (expr_spans hps).level g.settings.parameterPrefix w.output rfl,
      _, w.output.writeAll_text g.settings.parameterPrefix ps⟩
  · rw [(writeExprs_emits (e :: rest)).textOf]
    exact exprs_text hmode e rest
  · exact render_items hmode h

/-- A comparison with a day, as which its constant is written. -/
def openedOn (day : Expr) : Expr :=
  let property : DeclaredProperty := ⟨"Warehouse", { name := "Opened", type := .string, storeType := some "date" }⟩
  .binary .equal (.storage ⟨"Opened", property, ⟨some "w", ["Warehouse"]⟩⟩) day {}

/-- Warehouses with a comparison and, behind it, the constant with which they are compared. -/
def datedWarehouses : Read :=
  let day : Expr := .constant (.string "2020-01-01") .string
  ⟨[.pattern ⟨{ start := ⟨some "w", ["Warehouse"]⟩ }, none, false, none⟩], [openedOn day, day], [], none, none, false,
    none, [], "s"⟩

/-- The comparison is left with the style of before and at the level of before, and the constant behind it is a text
again. -/
theorem writeExpr_leaves_of_opened :
    let g : Generator := {}
    let day : Expr := .constant (.string "2020-01-01") .string
    let w : Writer := ⟨⟨{ text := "THEN", level := 2, atLineStart := false }, [], 0⟩, some .dateTime⟩
    (∃ w', (g.writeExpr (openedOn day)).run w = .ok ((), w') ∧ w'.hint = some .dateTime ∧ w'.output.out.level = 2 ∧
      ∃ added, w'.output.out.text = "THEN" ++ added) ∧
    g.settings.parameterizeLiterals = false ∧ (∃ x, g.render datedWarehouses = .ok x) ∧
    ∃ front back, (g.render datedWarehouses).map Rendered.text =
      .ok (front ++ "\"w\".\"Opened\" = date('2020-01-01'), '2020-01-01'" ++ back) := by
  intro g day w
  obtain ⟨-, hframe, hlist⟩ := writeExpr_leaves g
  have hrun : ∃ w', (g.writeExpr (openedOn day)).run w = .ok ((), w') := ⟨_, rfl⟩
  obtain ⟨w', hw'⟩ := hrun
  have hrender : ∃ x, g.render datedWarehouses = .ok x := ⟨_, rfl⟩
  obtain ⟨x, hx⟩ := hrender
  obtain ⟨front, back, hitems⟩ := (hlist rfl).2 datedWarehouses x hx
  refine ⟨⟨w', hw', hframe _ _ _ hw'⟩, rfl, ⟨x, hx⟩, front, back, ?_⟩
  have htext := hitems (openedOn day) [day]
  have htexts : ([openedOn day, day].mapM fun e => g.textOf (g.writeExpr e)) =
      .ok ["\"w\".\"Opened\" = date('2020-01-01')", "'2020-01-01'"] := rfl
  rw [htexts] at htext
  exact htext

end Generator

end GraphQuery
