import GraphQuery.Proofs.LayoutSettings
import GraphQuery.Proofs.LineTexts

/-!
# Indentation

A line is broken in front of a reading clause and its condition, and inside a case distinction. Each line starts with a
word of the language, and it is indented by one level for each case distinction around it (`Read.lineHeads`). All else
is text of a line, whatever characters it holds. The indent can therefore be left open until the lines are known: a read
has the same lines and the same parameters under every indent, or fails alike (`Generator.render_lines`).
-/

namespace GraphQuery

/-! ## The lines of a read -/

/-- The heads of the lines of an expression, where `depth` case distinctions are around. A case distinction begins
within a line and ends on the last of its own. -/
def Expr.lineHeads (depth : Nat) : Expr → List LineHead
  | .binary _ left right _ => left.lineHeads depth ++ right.lineHeads depth
  | .conditional test ifTrue ifFalse type =>
    -- A conditional between truth values is written as its test alone.
    if type.isBool then test.lineHeads depth
    else
      ⟨"WHEN ", depth + 1⟩ :: (test.lineHeads (depth + 1) ++ ⟨"THEN ", depth + 1⟩ ::
        (ifTrue.lineHeads (depth + 1) ++ ifFalse.lineHeads (depth + 1)) ++ [⟨"END", depth⟩])
  | .convert e _ | .not e | .isNull e | .aliased _ e => e.lineHeads depth
  | _ => []

/-- The heads of the lines of a clause, its own line among them. -/
def ReadingClause.lineHeads : ReadingClause → List LineHead
  | .pattern c =>
    ⟨if c.optional then "OPTIONAL MATCH " else "MATCH ", 0⟩ ::
      c.predicate.toList.flatMap fun e => ⟨"WHERE ", 0⟩ :: e.lineHeads 0
  | .nested _ _ => []

/-- The heads of the lines of a read behind the first line, on which the first clause stands. -/
def Read.lineHeads (r : Read) : List LineHead :=
  (r.clauses.flatMap ReadingClause.lineHeads).tail ++ (r.items.flatMap (Expr.lineHeads 0) ++
    ((r.orderings.flatMap fun term => term.expr.lineHeads 0) ++
      (r.skip.toList.flatMap (Expr.lineHeads 0) ++ r.limit.toList.flatMap (Expr.lineHeads 0))))

theorem Expr.lineHeads_bare (depth : Nat) : ∀ e : Expr, e.bare.lineHeads depth = e.lineHeads depth
  | .convert e _ => lineHeads_bare depth e
  | .constant .. | .parameter .. | .source .. | .member .. | .binary .. | .conditional .. | .not _ | .negate _
  | .isNull _ | .call .. | .construct .. | .subquery _ | .extension .. | .sequence _ | .storage _ | .aliased ..
  | .read _ => rfl

namespace Generator

variable {g : Generator} {hint : Option LiteralStyle} {depth : Nat} {ps : List Piece}

open Piece (Spans)

theorem constant_spans {value : Value} {type : ValueType} (h : g.constant hint value type = .ok ps) :
    Spans depth [] ps := by
  unfold constant at h
  split at h
  · cases h
    exact .text depth "null"
  · simp only at h
    split at h
    · cases h
      exact .slot depth _
    · split at h
      · cases h
        exact .text depth _
      · cases h

/-- A branch takes the lines of its expression: a truth value takes none. -/
theorem branch_spans {e : Expr} {f : List Piece → Except RenderError (List Piece)}
    (he : ∀ {qs}, g.expr hint e = .ok qs → Spans depth (e.lineHeads depth) qs)
    (h : (match g.branchToken? e with
      | some token => pure [Piece.text token] >>= f
      | none => g.expr hint e >>= f) = .ok ps) : ∃ qs, Spans depth (e.lineHeads depth) qs ∧ f qs = .ok ps := by
  split at h
  · rename_i token htoken
    refine ⟨[.text token], ?_, h⟩
    unfold branchToken? at htoken
    split at htoken
    · rename_i b type hbare
      rw [← Expr.lineHeads_bare, hbare]
      exact .text depth token
    · cases htoken
  · obtain ⟨qs, hqs, h⟩ := Run.bind_eq_ok.1 h
    exact ⟨qs, he hqs, h⟩

/-- An expression spans its lines at any depth. -/
theorem expr_spans {e : Expr} (h : g.expr hint e = .ok ps) : Spans depth (e.lineHeads depth) ps := by
  fun_induction Generator.expr g hint e generalizing ps depth
  case case1 ihl ihr =>
    obtain ⟨l, hl, h⟩ := Run.bind_eq_ok.1 h
    obtain ⟨r, hr, h⟩ := Run.bind_eq_ok.1 h
    cases h
    exact .behindText _ ((ihl hl).append (.behindText _ ((ihr hr).withText _)))
  case case2 ihl ihr =>
    obtain ⟨l, hl, h⟩ := Run.bind_eq_ok.1 h
    obtain ⟨r, hr, h⟩ := Run.bind_eq_ok.1 h
    cases h
    exact ((ihl hl).group _).append (.behindText _ ((ihr hr).group _))
  case case3 hbool ih =>
    rw [Expr.lineHeads, if_pos hbool]
    exact ih h
  case case4 hbool iht ihb iha =>
    obtain ⟨c, hc, h⟩ := Run.bind_eq_ok.1 h
    obtain ⟨a, ha, h⟩ := branch_spans iha h
    obtain ⟨b, hb, h⟩ := branch_spans ihb h
    cases h
    have hthen := (Spans.line (depth + 1) "THEN " rfl).append (ha.append (hb.behindText " ELSE "))
    have hcase := (Spans.block "WHEN " "END" rfl rfl ((iht hc).append hthen)).behindText "CASE"
    rw [Expr.lineHeads, if_neg hbool]
    simpa using hcase
  case case5 => exact constant_spans h
  case case6 =>
    unfold parameter at h
    split at h
    · cases h
      exact .parameter depth _ _
    · cases h
  case case7 ih => exact ih h
  case case8 ih | case9 ih =>
    obtain ⟨qs, hqs, h⟩ := Run.bind_eq_ok.1 h
    cases h
    exact (ih hqs).withText _
  case case10 ih =>
    obtain ⟨qs, hqs, h⟩ := Run.bind_eq_ok.1 h
    cases h
    exact .behindText _ ((ih hqs).withText _)
  case case11 =>
    unfold storage at h
    split at h
    · cases h
      exact .text depth _
    · cases h
  case case12 name e ih =>
    obtain ⟨qs, hqs, h⟩ := Run.bind_eq_ok.1 h
    cases h
    cases name with
    | none =>
      rw [outputName, List.append_nil]
      exact ih hqs
    | some name => exact (ih hqs).withText _
  all_goals cases h

/-! ### Lists and clauses -/

/-- A list of elements within a line spans the lines of its elements. -/
theorem separated_spans {α : Type} {one : α → Except RenderError (List Piece)} {separator : String}
    {all : List α → Except RenderError (List Piece)} (hs : Separated one (.text separator) all)
    {heads : α → List LineHead} (hone : ∀ a ps, one a = .ok ps → Spans depth (heads a) ps) :
    ∀ {l : List α} {ps : List Piece}, all l = .ok ps → Spans depth (l.flatMap heads) ps
  | [], ps, h => by
    rw [hs.nil] at h
    cases h
    exact .nil depth
  | [a], ps, h => by
    rw [hs.single] at h
    rw [List.flatMap_singleton]
    exact hone a ps h
  | a :: b :: rest, ps, h => by
    rw [hs.more] at h
    obtain ⟨first, hfirst, h⟩ := Run.bind_eq_ok.1 h
    obtain ⟨others, hothers, h⟩ := Run.bind_eq_ok.1 h
    cases h
    rw [List.flatMap_cons]
    exact (hone a first hfirst).append (.behindText separator (separated_spans hs hone hothers))

end Generator

namespace Piece

/-- Pieces that begin with a word and span lines behind it. Their first head is that of the line which they begin. -/
inductive Begins : List LineHead → List Piece → Prop
  | intro {heads : List LineHead} {ps : List Piece} (word : String) (hword : word.isEmpty = false) :
    Spans 0 heads ps → Begins (⟨word, 0⟩ :: heads) (.text word :: ps)

namespace Begins

variable {heads heads' : List LineHead} {ps qs : List Piece}

theorem append (h : Begins heads ps) (h' : Spans 0 heads' qs) : Begins (heads ++ heads') (ps ++ qs) := by
  cases h with
  | intro word hword h => exact .intro word hword (h.append h')

/-- Behind a break they span the line that they begin as well. -/
theorem behindBreak (h : Begins heads ps) : Spans 0 heads (.newLine :: ps) := by
  cases h with
  | intro word hword h => exact (Spans.line 0 word hword).append h

theorem spans (h : Begins heads ps) : Spans 0 heads.tail ps := by
  cases h with
  | intro word hword h => exact h.behindText word

end Begins

end Piece

namespace Generator

variable {g : Generator} {ps : List Piece}

open Piece (Spans Begins)

theorem clause_begins {c : ReadingClause} (h : g.clause c = .ok ps) : Begins c.lineHeads ps := by
  cases c with
  | nested source r => cases h
  | pattern c =>
    obtain ⟨text, -, h⟩ := Run.bind_eq_ok.1 h
    obtain ⟨pattern, predicate, optional, source⟩ := c
    have hword : (if optional then "OPTIONAL MATCH " else "MATCH ").isEmpty = false := by
      cases optional <;> rfl
    cases predicate with
    | none =>
      cases h
      exact .intro _ hword (.text 0 text)
    | some predicate =>
      obtain ⟨qs, hqs, h⟩ := Run.bind_eq_ok.1 h
      cases h
      have hwhere := (Spans.line 0 "WHERE " rfl).append (expr_spans hqs)
      refine .intro _ hword ?_
      rw [Option.toList_some, List.flatMap_singleton]
      exact hwhere.behindText text

/-- Clauses begin with the first of them and break the line in front of each other one. -/
theorem clauses_begin (c : ReadingClause) (rest : List ReadingClause) (h : g.clauses (c :: rest) = .ok ps) :
    Begins ((c :: rest).flatMap ReadingClause.lineHeads) ps := by
  induction rest generalizing c ps with
  | nil =>
    rw [List.flatMap_singleton]
    exact clause_begins h
  | cons c' rest ih =>
    obtain ⟨first, hfirst, h⟩ := Run.bind_eq_ok.1 h
    obtain ⟨others, hothers, h⟩ := Run.bind_eq_ok.1 h
    cases h
    exact (clause_begins hfirst).append (ih c' hothers).behindBreak

/-! ### Reads -/

theorem opening_spans {r : Read} (h : g.opening r = .ok ps) :
    Spans 0 (r.clauses.flatMap ReadingClause.lineHeads).tail ps := by
  have hblank : ∀ {heads : List LineHead} {qs : List Piece}, Spans 0 heads qs →
      Spans 0 heads (if qs.isEmpty then [] else qs ++ [.text " "]) := by
    intro heads qs hqs
    split
    · rename_i hempty
      rwa [List.isEmpty_iff.1 hempty] at hqs
    · exact hqs.withText " "
  unfold opening at h
  cases hclauses : r.clauses with
  | nil =>
    rw [hclauses] at h
    cases hpseudo : g.pseudoMatch with
    | none =>
      rw [hpseudo] at h
      cases h
      exact .nil 0
    | some text =>
      rw [hpseudo] at h
      cases h
      refine hblank ?_
      split
      · exact .nil 0
      · exact .text 0 text
  | cons c rest =>
    rw [hclauses] at h
    obtain ⟨qs, hqs, h⟩ := Run.bind_eq_ok.1 h
    cases h
    exact hblank (clauses_begin c rest hqs).spans

theorem star_spans {r : Read} (h : g.star r = .ok ps) : Spans 0 [] ps := by
  unfold star at h
  split at h
  · split at h
    · cases h
      exact .text 0 _
    · cases h
  · cases h
    exact .nil 0

theorem returned_spans {r : Read} (h : g.returned r = .ok ps) : Spans 0 (r.items.flatMap (Expr.lineHeads 0)) ps := by
  obtain ⟨star, hstar, h⟩ := Run.bind_eq_ok.1 h
  obtain ⟨items, hitems, h⟩ := Run.bind_eq_ok.1 h
  cases h
  have hspans : Spans 0 (r.items.flatMap (Expr.lineHeads 0)) items :=
    separated_spans g.exprs_separated (fun _ _ => expr_spans) hitems
  split
  · rename_i hempty
    rw [List.isEmpty_iff.1 hempty]
    split
    · exact star_spans hstar
    · exact .text 0 "1"
  · split
    · exact (star_spans hstar).append (hspans.behindText ", ")
    · exact hspans

theorem sortTerm_spans {term : SortTerm} (h : g.sortTerm term = .ok ps) : Spans 0 (term.expr.lineHeads 0) ps := by
  obtain ⟨qs, hqs, h⟩ := Run.bind_eq_ok.1 h
  cases h
  split
  · exact (expr_spans hqs).withText " DESC"
  · exact expr_spans hqs

theorem sortTerms_spans {terms : List SortTerm} (h : g.sortTerms terms = .ok ps) :
    Spans 0 (terms.flatMap fun term => term.expr.lineHeads 0) ps :=
  separated_spans g.sortTerms_separated (fun _ _ => sortTerm_spans) h

theorem orderBy_spans {terms : List SortTerm} (h : g.sortTerms terms = .ok ps) :
    Spans 0 (terms.flatMap fun term => term.expr.lineHeads 0)
      (if terms.isEmpty then [] else .text " ORDER BY " :: ps) := by
  split
  · rename_i hempty
    rw [List.isEmpty_iff.1 hempty]
    exact .nil 0
  · exact (sortTerms_spans h).behindText " ORDER BY "

theorem option_spans {keyword : String} {e : Option Expr} (h : g.option keyword e = .ok ps) :
    Spans 0 (e.toList.flatMap (Expr.lineHeads 0)) ps := by
  cases e with
  | none =>
    cases h
    exact .nil 0
  | some e =>
    obtain ⟨qs, hqs, h⟩ := Run.bind_eq_ok.1 h
    cases h
    rw [Option.toList_some, List.flatMap_singleton]
    exact (expr_spans hqs).behindText keyword

/-- A read spans its lines, with no case distinction around. -/
theorem read_spans {r : Read} (h : g.read r = .ok ps) : Spans 0 r.lineHeads ps := by
  obtain ⟨opening, hopening, h⟩ := Run.bind_eq_ok.1 h
  obtain ⟨returned, hreturned, h⟩ := Run.bind_eq_ok.1 h
  obtain ⟨orderings, horderings, h⟩ := Run.bind_eq_ok.1 h
  obtain ⟨skip, hskip, h⟩ := Run.bind_eq_ok.1 h
  obtain ⟨limit, hlimit, h⟩ := Run.bind_eq_ok.1 h
  cases h
  rw [Read.lineHeads, List.append_assoc, List.append_assoc]
  exact (opening_spans hopening).append (.behindText "RETURN " ((returned_spans hreturned).append
    ((orderBy_spans horderings).append ((option_spans hskip).append (option_spans hlimit)))))

end Generator

/-! ## Depths by counting -/

namespace LineHead

/-- The depth of a line follows from its word and the depth in front: `WHEN` opens a case distinction, and `END` closes
one. -/
def Follows (depth : Nat) (head : LineHead) : Prop :=
  if head.word = "WHEN " then head.depth = depth + 1
  else if head.word = "END" then head.depth + 1 = depth
  else head.depth = depth

/-- Lines whose depths count the case distinctions that are open, from one depth to another. -/
def Count : Nat → List LineHead → Nat → Prop
  | depth, [], last => depth = last
  | depth, head :: rest, last => head.Follows depth ∧ Count head.depth rest last

theorem Count.append {depth middle last : Nat} {heads heads' : List LineHead} (h : Count depth heads middle)
    (h' : Count middle heads' last) : Count depth (heads ++ heads') last := by
  induction heads generalizing depth with
  | nil =>
    cases h
    exact h'
  | cons head heads ih => exact ⟨h.1, ih h.2⟩

theorem Count.flatMap {α : Type} {heads : α → List LineHead} {depth : Nat} {l : List α}
    (h : ∀ a ∈ l, Count depth (heads a) depth) : Count depth (l.flatMap heads) depth := by
  induction l with
  | nil => rfl
  | cons a l ih =>
    rw [List.flatMap_cons]
    exact (h a List.mem_cons_self).append (ih fun b hb => h b (List.mem_cons_of_mem a hb))

end LineHead

open LineHead in
/-- The depths of the lines of an expression are those of the case distinctions that are open. -/
theorem Expr.lineHeads_count (depth : Nat) (e : Expr) : Count depth (e.lineHeads depth) depth := by
  fun_induction Expr.lineHeads depth e with
  | case1 depth op left right detail ihl ihr => exact ihl.append ihr
  | case2 depth test ifTrue ifFalse type hbool ih => exact ih
  | case3 depth test ifTrue ifFalse type hbool iht iha ihb =>
    have hthen : Count (depth + 1) (⟨"THEN ", depth + 1⟩ :: (ifTrue.lineHeads (depth + 1) ++
        ifFalse.lineHeads (depth + 1))) (depth + 1) := ⟨by simp [Follows], iha.append ihb⟩
    have hend : Count (depth + 1) [⟨"END", depth⟩] depth := ⟨by simp [Follows], rfl⟩
    exact ⟨by simp [Follows], (iht.append hthen).append hend⟩
  | case4 depth e type ih | case5 depth e ih | case6 depth e ih | case7 depth name e ih => exact ih
  | _ => rfl

open LineHead in
theorem ReadingClause.lineHeads_count (c : ReadingClause) : Count 0 c.lineHeads 0 := by
  cases c with
  | nested source r => rfl
  | pattern c =>
    refine ⟨?_, Count.flatMap fun e _ => ⟨by simp [Follows], e.lineHeads_count 0⟩⟩
    cases c.optional <;> simp [Follows]

open LineHead in
/-- The depths of the lines of a read are those of the case distinctions that are open, and none is left open. -/
theorem Read.lineHeads_count (r : Read) : Count 0 r.lineHeads 0 := by
  have hclauses : ∀ clauses : List ReadingClause, Count 0 (clauses.flatMap ReadingClause.lineHeads).tail 0 := by
    intro clauses
    induction clauses with
    | nil => rfl
    | cons c clauses ih =>
      cases c with
      | nested source r => exact ih
      | pattern c =>
        have hrest : Count 0 (clauses.flatMap ReadingClause.lineHeads) 0 := .flatMap fun c _ => c.lineHeads_count
        exact ((ReadingClause.pattern c).lineHeads_count.append hrest).2
  have hexprs : ∀ es : List Expr, Count 0 (es.flatMap (Expr.lineHeads 0)) 0 :=
    fun es => .flatMap fun e _ => e.lineHeads_count 0
  have hterms : Count 0 (r.orderings.flatMap fun term => term.expr.lineHeads 0) 0 :=
    .flatMap fun term _ => term.expr.lineHeads_count 0
  exact (hclauses r.clauses).append ((hexprs r.items).append (hterms.append
    ((hexprs r.skip.toList).append (hexprs r.limit.toList))))

/-! ## Every indent -/

namespace Generator

/-- The generator with another indent. -/
def withIndent (g : Generator) (unit : String) : Generator :=
  { g with settings := { g.settings with indent := unit } }

/-- A read has the same lines and the same parameters under every indent, or fails with the same error. Each line behind
the first is indented by one unit for each case distinction that is open around it. -/
theorem render_lines (g : Generator) (r : Read) :
    (∃ err, ∀ unit, (g.withIndent unit).render r = .error err) ∨
      ∃ (lines : Lines) (parameters : Table String Json),
        lines.heads = r.lineHeads ∧ LineHead.Count 0 lines.heads 0 ∧
          ∀ unit, (g.withIndent unit).render r = .ok ⟨lines.text unit, parameters⟩ := by
  have hread : ∀ unit, (g.withIndent unit).read r = g.read r :=
    fun unit => read_laidOut unit g.settings.parameterPrefix r
  cases h : g.read r with
  | error err =>
    refine .inl ⟨err, fun unit => ?_⟩
    rw [render, hread, h]
    rfl
  | ok ps =>
    obtain ⟨lines, hheads, hlines⟩ := (read_spans h).growsBy g.settings.parameterPrefix 0
    refine .inr ⟨lines, (g.write ps).parameters, hheads, ?_, fun unit => ?_⟩
    · rw [hheads]
      exact r.lineHeads_count
    · have hgrows := hlines (g.withIndent unit).start rfl (fun _ => rfl) rfl
      have htext : ((g.withIndent unit).write ps).text = lines.text unit :=
        hgrows.text.trans (String.empty_append ..)
      have hparameters : ((g.withIndent unit).write ps).parameters = (g.write ps).parameters :=
        Output.writeAll_parameters g.settings.parameterPrefix ps rfl rfl
      rw [render, hread, h, ← htext, ← hparameters]
      rfl

/-- A case distinction whose first branch is another one, with a text of two lines in its test. -/
def nestedCases : Read :=
  let inner : Expr :=
    .conditional (.isNull (.constant (.string "a\nb") .string)) (.constant (.int32 1) .int32)
      (.constant (.int32 2) .int32) .int32
  ⟨[], [.conditional (.isNull (.constant .null .string)) inner (.constant (.int32 3) .int32) .int32],
    [], none, none, false, none, [], "s"⟩

/-- The line break inside the text is not followed by an indent. -/
example :
    nestedCases.lineHeads =
        [⟨"WHEN ", 1⟩, ⟨"THEN ", 1⟩, ⟨"WHEN ", 2⟩, ⟨"THEN ", 2⟩, ⟨"END", 1⟩, ⟨"END", 0⟩] ∧
      (((({} : Generator).withIndent "\t").render nestedCases).toOption.map Rendered.text) =
        some ("RETURN CASE\n\tWHEN null IS NULL\n\tTHEN CASE\n\t\tWHEN 'a\nb' IS NULL\n\t\tTHEN 1 ELSE 2" ++
          "\n\tEND ELSE 3\nEND") := by
  decide +kernel

end Generator

end GraphQuery
