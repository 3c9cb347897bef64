import GraphQuery.Proofs.LineTexts

/-!
# Lines of a text

The first text of a line is written behind the indent, and any other text as it stands. Whether pieces end within a line
can be seen without writing them (`Piece.lineStart`), and those that span lines do (`Piece.Spans.keepsInLine`). Writing
goes on in the same way behind any text, so a text that is inserted within a line shows there and nowhere else
(`Output.writeAll_inserted`).
-/

namespace GraphQuery

/-! ## Pieces within a line -/

namespace Piece

/-- Whether a line is at its start behind a piece. -/
def lineStart (atStart : Bool) : Piece → Bool
  | .text content => content.isEmpty && atStart
  | .newLine => true
  | .indent | .dedent => atStart
  | .slot _ | .parameter _ _ => false

/-- Pieces that are begun within a line end within a line. -/
def KeepsInLine (ps : List Piece) : Prop :=
  ps.foldl lineStart false = false

/-- Whatever lines pieces span, they end within the last of them, since each line has a word. -/
theorem Spans.keepsInLine {depth : Nat} {heads : List LineHead} {ps : List Piece} (h : Spans depth heads ps) :
    KeepsInLine ps := by
  induction h with
  | nil depth => rfl
  | text depth content => simp [KeepsInLine, lineStart]
  | slot depth value => rfl
  | parameter depth name value => rfl
  | append hps hqs ihps ihqs =>
    rw [KeepsInLine, List.foldl_append, ihps]
    exact ihqs
  | line depth word hword => simp [KeepsInLine, lineStart, hword]
  | block first last hfirst hlast hps ih => simp [KeepsInLine, lineStart, List.foldl_append, hlast]

end Piece

/-! ## Writing behind a text -/

namespace Output

/-- An output with a text in front of its own. -/
def behind (front : String) (w : Output) : Output :=
  { w with out := { w.out with text := front ++ w.out.text } }

theorem write_behind (slotPrefix front : String) (w : Output) (piece : Piece) :
    (w.behind front).write slotPrefix piece = (w.write slotPrefix piece).behind front := by
  have happend : ∀ content, (w.behind front).out.append content =
      { w.out.append content with text := front ++ (w.out.append content).text } := by
    intro content
    unfold IndentedText.append
    split
    · rfl
    · simp only [behind, String.append_assoc]
      rfl
  cases piece with
  | text content => simp only [write, happend]; rfl
  | newLine => simp only [write, behind, IndentedText.newLine, String.append_assoc]
  | indent => rfl
  | dedent => rfl
  | slot value => simp only [write, placeholder, happend]; rfl
  | parameter name value => simp only [write, placeholder, happend]; rfl

theorem writeAll_behind (slotPrefix front : String) (w : Output) (ps : List Piece) :
    (w.behind front).writeAll slotPrefix ps = (w.writeAll slotPrefix ps).behind front :=
  List.foldl_hom (behind front) fun w piece => write_behind slotPrefix front w piece

theorem append_atLineStart (content : String) (t : IndentedText) :
    (t.append content).atLineStart = (content.isEmpty && t.atLineStart) := by
  unfold IndentedText.append
  split
  · rename_i hempty
    rw [hempty, Bool.true_and]
  · rename_i hempty
    rw [Bool.not_eq_true] at hempty
    rw [hempty, Bool.false_and]

theorem write_atLineStart (slotPrefix : String) (w : Output) (piece : Piece) :
    (w.write slotPrefix piece).out.atLineStart = Piece.lineStart w.out.atLineStart piece := by
  have hplaceholder : ∀ name value, (w.placeholder name value).out.atLineStart = false := by
    intro name value
    have hmark : ("$" ++ name).isEmpty = false := by simp
    rw [placeholder, append_atLineStart, hmark, Bool.false_and]
  cases piece with
  | text content => exact append_atLineStart content w.out
  | newLine => rfl
  | indent => rfl
  | dedent => rfl
  | slot value => exact hplaceholder _ value
  | parameter name value => exact hplaceholder name value

theorem writeAll_atLineStart (slotPrefix : String) (w : Output) (ps : List Piece) :
    (w.writeAll slotPrefix ps).out.atLineStart = ps.foldl Piece.lineStart w.out.atLineStart :=
  (List.foldl_hom (fun w : Output => w.out.atLineStart) fun w piece =>
    (write_atLineStart slotPrefix w piece).symm).symm

/-- What has been written, without its text. -/
def withoutText (w : Output) : Output :=
  { w with out := { w.out with text := "" } }

theorem withoutText_behind (w : Output) : w.withoutText.behind w.out.text = w := by
  simp only [withoutText, behind, String.append_empty]

/-- Within a line a text is written as it stands. -/
theorem write_text (slotPrefix content : String) {w : Output} (hline : w.out.atLineStart = false) :
    w.write slotPrefix (.text content) = w.withoutText.behind (w.out.text ++ content) := by
  obtain ⟨⟨text, unit, level, atLineStart⟩, parameters, nextSlot⟩ := w
  cases hline
  simp only [write, withoutText, behind, IndentedText.append, String.append_empty]
  split
  · rename_i hempty
    rw [String.isEmpty_iff.1 hempty, String.append_empty]
  · simp

/-- A text that is inserted within a line changes nothing else. -/
theorem writeAll_inserted (slotPrefix content : String) (w : Output) (front back : List Piece)
    (hline : front.foldl Piece.lineStart w.out.atLineStart = false) :
    ∃ before after, (w.writeAll slotPrefix (front ++ back)).out.text = before ++ after ∧
      (w.writeAll slotPrefix (front ++ .text content :: back)).out.text = before ++ content ++ after ∧
      (w.writeAll slotPrefix (front ++ .text content :: back)).parameters =
        (w.writeAll slotPrefix (front ++ back)).parameters := by
  rw [← writeAll_atLineStart slotPrefix] at hline
  rw [writeAll_append, writeAll_append]
  generalize w.writeAll slotPrefix front = written at hline ⊢
  -- Behind the front both outputs go on from one without a text, which stands behind different texts.
  have hasc : written.writeAll slotPrefix back =
      (written.withoutText.writeAll slotPrefix back).behind written.out.text := by
    rw [← writeAll_behind, withoutText_behind]
  have hdesc : written.writeAll slotPrefix (.text content :: back) =
      (written.withoutText.writeAll slotPrefix back).behind (written.out.text ++ content) := by
    rw [← writeAll_behind, ← write_text slotPrefix content hline]
    rfl
  rw [hasc, hdesc]
  exact ⟨written.out.text, (written.withoutText.writeAll slotPrefix back).out.text, rfl, rfl, rfl⟩

end Output

end GraphQuery
