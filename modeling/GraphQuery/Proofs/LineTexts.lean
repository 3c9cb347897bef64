import GraphQuery.Render.Generator

/-!
# Texts of lines

Pieces break lines and change the level of indent. Those of a read keep to a discipline: a line starts with a word, and
whatever raises the level lowers it again behind (`Piece.Spans`). Such pieces come back to the level from which they
began (`Piece.Spans.level`), and the lines that they write are known before the indent is: which unit of indent is used
shows only in front of the first word of a line (`Piece.Spans.growsBy`).
-/

namespace GraphQuery

/-! ## Texts of lines -/

/-- The start of a line behind the first: its first word, and the number of case distinctions around it. -/
structure LineHead where
  word : String
  depth : Nat
  deriving DecidableEq

/-- A line behind the first. -/
structure Line extends LineHead where
  /-- What stands behind the first word. -/
  tail : String

/-- A line with its break and its indent in front. -/
def Line.text (unit : String) (line : Line) : String :=
  "\n" ++ String.join (List.replicate line.depth unit) ++ (line.word ++ line.tail)

/-- A text of lines whose indent is left open. -/
structure Lines where
  first : String
  rest : List Line

namespace Lines

def heads (l : Lines) : List LineHead :=
  l.rest.map Line.toLineHead

/-- The text with a unit of indent. -/
def text (unit : String) (l : Lines) : String :=
  l.first ++ String.join (l.rest.map (Line.text unit))

/-- Lines that go on with further lines: the first of those stands on the last of these. -/
def join (first : String) : List Line → Lines → Lines
  | [], m => ⟨first ++ m.first, m.rest⟩
  | line :: rest, m =>
    let behind := join line.tail rest m
    ⟨first, { line with tail := behind.first } :: behind.rest⟩

instance : Append Lines where
  append l m := join l.first l.rest m

theorem text_join (unit first : String) (rest : List Line) (m : Lines) :
    (join first rest m).text unit = (⟨first, rest⟩ : Lines).text unit ++ m.text unit := by
  induction rest generalizing first with
  | nil => simp [join, text, String.append_assoc]
  | cons line rest ih =>
    have hbehind := ih line.tail
    simp only [text] at hbehind
    simp only [join, text, List.map_cons, String.join_cons, Line.text, String.append_assoc]
    rw [hbehind]
    simp only [String.append_assoc]

theorem heads_join (first : String) (rest : List Line) (m : Lines) :
    (join first rest m).heads = rest.map Line.toLineHead ++ m.heads := by
  induction rest generalizing first with
  | nil => rfl
  | cons line rest ih => exact congrArg (List.cons line.toLineHead) (ih line.tail)

@[simp] theorem text_append (unit : String) (l m : Lines) : (l ++ m).text unit = l.text unit ++ m.text unit :=
  text_join unit l.first l.rest m

@[simp] theorem heads_append (l m : Lines) : (l ++ m).heads = l.heads ++ m.heads :=
  heads_join l.first l.rest m

/-- A part of a line. -/
def part (content : String) : Lines :=
  ⟨content, []⟩

/-- The break of a line and the head of the next. -/
def head (h : LineHead) : Lines :=
  ⟨"", [⟨h, ""⟩]⟩

@[simp] theorem heads_part (content : String) : (part content).heads = [] := rfl

@[simp] theorem heads_head (h : LineHead) : (head h).heads = [h] := rfl

@[simp] theorem text_part (unit content : String) : (part content).text unit = content := by
  simp [part, text]

@[simp] theorem text_head (unit : String) (h : LineHead) :
    (head h).text unit = "\n" ++ String.join (List.replicate h.depth unit) ++ h.word := by
  simp [head, text, Line.text, String.append_assoc]

end Lines

/-! ## Growing by lines -/

namespace IndentedText

/-- A text that takes what comes next without an indent: it is within a line, or no case distinction is around. -/
def Settled (t : IndentedText) : Prop :=
  t.atLineStart = true → t.level = 0

/-- A text goes on by lines and comes back to its level. -/
structure GrowsBy (lines : Lines) (t t' : IndentedText) : Prop where
  text : t'.text = t.text ++ lines.text t.unit
  unit : t'.unit = t.unit
  level : t'.level = t.level
  settled : t'.Settled

@[simp] theorem append_level (s : String) (t : IndentedText) : (t.append s).level = t.level := by
  unfold append
  split <;> rfl

@[simp] theorem append_unit (s : String) (t : IndentedText) : (t.append s).unit = t.unit := by
  unfold append
  split <;> rfl

theorem Settled.append {t : IndentedText} (h : t.Settled) (s : String) : (t.append s).Settled := by
  unfold IndentedText.append
  split
  · exact h
  · intro hstart
    cases hstart

theorem Settled.append_text {t : IndentedText} (h : t.Settled) (s : String) : (t.append s).text = t.text ++ s := by
  unfold IndentedText.append
  split
  · rename_i hempty
    rw [String.isEmpty_iff.1 hempty, String.append_empty]
  · by_cases hstart : t.atLineStart = true
    · simp [indentation, h hstart]
    · simp [hstart]

namespace GrowsBy

variable {t t' t'' : IndentedText} {lines lines' : Lines}

theorem refl (h : t.Settled) : GrowsBy (.part "") t t :=
  ⟨by simp, rfl, rfl, h⟩

theorem trans (h : GrowsBy lines t t') (h' : GrowsBy lines' t' t'') : GrowsBy (lines ++ lines') t t'' where
  text := by rw [h'.text, h.text, h.unit, Lines.text_append, String.append_assoc]
  unit := h'.unit.trans h.unit
  level := h'.level.trans h.level
  settled := h'.settled

theorem part (h : t.Settled) (s : String) : GrowsBy (.part s) t (t.append s) where
  text := by rw [h.append_text, Lines.text_part]
  unit := append_unit s t
  level := append_level s t
  settled := h.append s

/-- The first word of a line stands behind the indent. -/
theorem head (t : IndentedText) {word : String} (hword : word.isEmpty = false) :
    GrowsBy (.head ⟨word, t.level⟩) t (t.newLine.append word) where
  text := by simp [append, hword, newLine, indentation, String.append_assoc]
  unit := append_unit word t.newLine
  level := append_level word t.newLine
  settled := by simp [append, hword, Settled]

/-- Lines at one level more between a first and a last word. -/
theorem block {first last : String} (hfirst : first.isEmpty = false) (hlast : last.isEmpty = false)
    (h : GrowsBy lines (t.newLine.indent.append first) t') :
    GrowsBy (.head ⟨first, t.level + 1⟩ ++ lines ++ .head ⟨last, t.level⟩) t (t'.dedent.newLine.append last) := by
  -- The level may be raised before or after the break, since the indent is written with the word.
  have hinner : GrowsBy (.head ⟨first, t.level + 1⟩ ++ lines) t.indent t' := (head t.indent hfirst).trans h
  have hlevel : t'.dedent.level = t.level := by
    change t'.level - 1 = t.level
    rw [hinner.level]
    exact Nat.add_sub_cancel t.level 1
  have hend := head t'.dedent hlast
  rw [hlevel] at hend
  refine ⟨?_, hend.unit.trans hinner.unit, hend.level.trans hlevel, hend.settled⟩
  calc (t'.dedent.newLine.append last).text
      = t'.text ++ (Lines.head ⟨last, t.level⟩).text t'.unit := hend.text
    _ = t.text ++ (Lines.head ⟨first, t.level + 1⟩ ++ lines).text t.unit ++
          (Lines.head ⟨last, t.level⟩).text t.unit := by rw [hinner.text, hinner.unit]; rfl
    _ = t.text ++ (Lines.head ⟨first, t.level + 1⟩ ++ lines ++ Lines.head ⟨last, t.level⟩).text t.unit := by
      rw [Lines.text_append t.unit (_ ++ lines), String.append_assoc]

end GrowsBy

end IndentedText

/-! ## Pieces that span lines -/

namespace Piece

/-- Pieces that span lines with these heads where `depth` case distinctions are around. They come back to the level
from which they began, and no line among them is without a word. -/
inductive Spans : Nat → List LineHead → List Piece → Prop
  | nil (depth : Nat) : Spans depth [] []
  | text (depth : Nat) (content : String) : Spans depth [] [.text content]
  | slot (depth : Nat) (value : Json) : Spans depth [] [.slot value]
  | parameter (depth : Nat) (name : String) (value : Json) : Spans depth [] [.parameter name value]
  | append {depth : Nat} {heads heads' : List LineHead} {ps qs : List Piece} :
    Spans depth heads ps → Spans depth heads' qs → Spans depth (heads ++ heads') (ps ++ qs)
  | line (depth : Nat) (word : String) (hword : word.isEmpty = false) :
    Spans depth [⟨word, depth⟩] [.newLine, .text word]
  | block {depth : Nat} {heads : List LineHead} {ps : List Piece} (first last : String)
      (hfirst : first.isEmpty = false) (hlast : last.isEmpty = false) :
    Spans (depth + 1) heads ps →
      Spans depth (⟨first, depth + 1⟩ :: (heads ++ [⟨last, depth⟩]))
        (.newLine :: .indent :: .text first :: (ps ++ [.dedent, .newLine, .text last]))

/-- Whether a piece is a numbered placeholder. -/
def isSlot : Piece → Bool
  | .slot _ => true
  | _ => false

end Piece

namespace Output

theorem writeAll_append (slotPrefix : String) (w : Output) (ps qs : List Piece) :
    w.writeAll slotPrefix (ps ++ qs) = (w.writeAll slotPrefix ps).writeAll slotPrefix qs :=
  List.foldl_append

theorem writeAll_nextSlot (slotPrefix : String) (w : Output) (ps : List Piece) :
    (w.writeAll slotPrefix ps).nextSlot = w.nextSlot + ps.countP Piece.isSlot := by
  induction ps generalizing w with
  | nil => rfl
  | cons piece ps ih =>
    have hrest := ih (w.write slotPrefix piece)
    cases piece with
    | slot value =>
      rw [List.countP_cons_of_pos rfl, Nat.add_comm _ 1, ← Nat.add_assoc]
      exact hrest
    | _ => exact hrest

/-- The values of placeholders and their numbers do not depend on the text in front. -/
theorem writeAll_parameters (slotPrefix : String) (ps : List Piece) {w w' : Output}
    (hparameters : w.parameters = w'.parameters) (hslot : w.nextSlot = w'.nextSlot) :
    (w.writeAll slotPrefix ps).parameters = (w'.writeAll slotPrefix ps).parameters := by
  induction ps generalizing w w' with
  | nil => exact hparameters
  | cons piece ps ih =>
    refine ih ?_ ?_
    · cases piece with
      | slot value => simp only [write, placeholder, hparameters, hslot]
      | parameter name value => simp only [write, placeholder, hparameters]
      | _ => exact hparameters
    · cases piece with
      | slot value => exact congrArg (· + 1) hslot
      | _ => exact hslot

/-- An output inside a block: the first word of the block stands on a line of its own, at one level more. -/
def inside (first : String) (w : Output) : Output :=
  { w with out := w.out.newLine.indent.append first }

theorem inside_level (first : String) (w : Output) : (w.inside first).out.level = w.out.level + 1 :=
  IndentedText.append_level first w.out.newLine.indent

/-- A block is written inside and closed behind. -/
theorem writeAll_block (slotPrefix first last : String) (w : Output) (ps : List Piece) :
    (w.writeAll slotPrefix (.newLine :: .indent :: .text first :: (ps ++ [.dedent, .newLine, .text last]))).out =
      ((w.inside first).writeAll slotPrefix ps).out.dedent.newLine.append last := by
  have hwrite := writeAll_append slotPrefix (w.inside first) ps [.dedent, .newLine, .text last]
  exact congrArg Output.out hwrite

end Output

namespace Piece.Spans

variable {depth : Nat} {heads : List LineHead} {ps : List Piece}

theorem behindText (content : String) (h : Spans depth heads ps) : Spans depth heads (.text content :: ps) :=
  (Spans.text depth content).append h

theorem withText (h : Spans depth heads ps) (content : String) : Spans depth heads (ps ++ [.text content]) := by
  rw [← List.append_nil heads]
  exact h.append (.text depth content)

theorem group (grouped : Bool) (h : Spans depth heads ps) : Spans depth heads (GraphQuery.group grouped ps) := by
  cases grouped with
  | false => exact h
  | true => exact (h.withText ")").behindText "("

/-- Pieces that span lines come back to the level of before, also from the start of a line. -/
theorem level (h : Spans depth heads ps) (slotPrefix : String) (w : Output) (hw : w.out.level = depth) :
    (w.writeAll slotPrefix ps).out.level = depth := by
  induction h generalizing w with
  | nil depth => exact hw
  | text depth content => exact (IndentedText.append_level content w.out).trans hw
  | slot depth value => exact (IndentedText.append_level _ w.out).trans hw
  | parameter depth name value => exact (IndentedText.append_level _ w.out).trans hw
  | append hps hqs ihps ihqs =>
    rw [Output.writeAll_append]
    exact ihqs _ (ihps w hw)
  | line depth word hword => exact (IndentedText.append_level word w.out.newLine).trans hw
  | block first last hfirst hlast hps ih =>
    rename_i depth heads ps
    have hinside := ih (w.inside first) (by rw [Output.inside_level, hw])
    rw [Output.writeAll_block, IndentedText.append_level]
    change ((w.inside first).writeAll slotPrefix ps).out.level - 1 = depth
    rw [hinside, Nat.add_sub_cancel]

/-- Pieces that span lines write them, and what they write is known up to the indent. -/
theorem growsBy (h : Spans depth heads ps) (slotPrefix : String) (n : Nat) :
    ∃ lines : Lines, lines.heads = heads ∧ ∀ w : Output, w.out.level = depth → w.out.Settled → w.nextSlot = n →
      w.out.GrowsBy lines (w.writeAll slotPrefix ps).out := by
  induction h generalizing n with
  | nil depth => exact ⟨.part "", rfl, fun w _ hw _ => .refl hw⟩
  | text depth content => exact ⟨.part content, rfl, fun w _ hw _ => .part hw content⟩
  | slot depth value =>
    refine ⟨.part ("$" ++ (slotPrefix ++ toString n)), rfl, fun w _ hw hn => ?_⟩
    rw [← hn]
    exact .part hw _
  | parameter depth name value => exact ⟨.part ("$" ++ name), rfl, fun w _ hw _ => .part hw _⟩
  | append hps hqs ihps ihqs =>
    rename_i depth heads heads' ps qs
    obtain ⟨lines, hheads, hlines⟩ := ihps n
    obtain ⟨lines', hheads', hlines'⟩ := ihqs (n + ps.countP isSlot)
    refine ⟨lines ++ lines', by rw [Lines.heads_append, hheads, hheads'], fun w hdepth hw hn => ?_⟩
    have hgrows := hlines w hdepth hw hn
    rw [Output.writeAll_append]
    refine hgrows.trans (hlines' _ (hgrows.level.trans hdepth) hgrows.settled ?_)
    rw [Output.writeAll_nextSlot, hn]
  | line depth word hword =>
    refine ⟨.head ⟨word, depth⟩, rfl, fun w hdepth _ _ => ?_⟩
    rw [← hdepth]
    exact .head w.out hword
  | block first last hfirst hlast hps ih =>
    rename_i depth heads ps
    obtain ⟨lines, hheads, hlines⟩ := ih n
    refine ⟨.head ⟨first, depth + 1⟩ ++ lines ++ .head ⟨last, depth⟩, by simp [hheads], fun w hdepth _ hn => ?_⟩
    have hsettled : (w.inside first).out.Settled := (IndentedText.GrowsBy.head w.out.indent hfirst).settled
    have hinside := hlines (w.inside first) (by rw [Output.inside_level, hdepth]) hsettled hn
    rw [Output.writeAll_block, ← hdepth]
    exact .block hfirst hlast hinside

end Piece.Spans

end GraphQuery
