import GraphQuery.Literal

/-!
# Reading quoted texts

A string literal escapes with a backslash, and a delimited identifier doubles its mark. Both can be read back by a
reader that goes from the opening quote to the first one that closes, whatever stands in between.

A string literal ends at its closing quote whatever follows it, so no string closes its own literal
(`LiteralStyle.literal_reads`). A delimited identifier merges with a mark that follows it, and with nothing else
(`Text.delimit_reads`).
-/

namespace GraphQuery.Text

/-- A reader takes a text from its start, and gives what it reads with the text behind. -/
abbrev Reader := List Char → Option (List Char × List Char)

/-! ## Readers -/

/-- Reads the rest of a string literal behind its opening quote. A backslash takes the next character as it stands, and
a single quote without a backslash closes the literal. -/
def readEscaped : Reader
  | [] => none
  | c :: rest =>
    if c = apostrophe then some ([], rest)
    else if c = '\\' then
      match rest with
      | [] => none
      | d :: rest => (readEscaped rest).map (Prod.map (d :: ·) id)
    else (readEscaped rest).map (Prod.map (c :: ·) id)

/-- Reads the rest of a delimited identifier behind its opening mark. A doubled mark stands for one mark, and a single
one closes the identifier. -/
def readDoubled (mark : Char) : Reader
  | [] => none
  | c :: rest =>
    if c = mark then
      match rest with
      | [] => some ([], [])
      | d :: rest =>
        if d = mark then (readDoubled mark rest).map (Prod.map (mark :: ·) id) else some ([], d :: rest)
    else (readDoubled mark rest).map (Prod.map (c :: ·) id)

theorem readEscaped_quote (rest : List Char) : readEscaped (apostrophe :: rest) = some ([], rest) := by
  rw [readEscaped.eq_def]
  exact if_pos rfl

theorem readEscaped_escaped (c : Char) (rest : List Char) :
    readEscaped ('\\' :: c :: rest) = (readEscaped rest).map (Prod.map (c :: ·) id) := by
  have hquote : '\\' ≠ apostrophe := by decide
  rw [readEscaped, if_neg hquote, if_pos rfl]

theorem readEscaped_other {c : Char} (hquote : c ≠ apostrophe) (hescape : c ≠ '\\') (rest : List Char) :
    readEscaped (c :: rest) = (readEscaped rest).map (Prod.map (c :: ·) id) := by
  rw [readEscaped.eq_def (c :: rest)]
  exact (if_neg hquote).trans (if_neg hescape)

theorem readDoubled_mark (mark : Char) (rest : List Char) :
    readDoubled mark (mark :: mark :: rest) = (readDoubled mark rest).map (Prod.map (mark :: ·) id) := by
  rw [readDoubled, if_pos rfl, if_pos rfl]

theorem readDoubled_other {mark c : Char} (hc : c ≠ mark) (rest : List Char) :
    readDoubled mark (c :: rest) = (readDoubled mark rest).map (Prod.map (c :: ·) id) := by
  rw [readDoubled.eq_def mark (c :: rest)]
  exact if_neg hc

/-- The text behind a start that it has. -/
def dropStart? : List Char → List Char → Option (List Char)
  | [], text => some text
  | c :: start, d :: text => if c = d then dropStart? start text else none
  | _ :: _, [] => none

/-- Reads what stands between two fixed texts. -/
def between (opening closing : String) (read : Reader) : Reader := fun text => do
  let inner ← dropStart? opening.toList text
  let (s, after) ← read inner
  let rest ← dropStart? closing.toList after
  return (s, rest)

/-- Reads a string literal. -/
def readQuoted : Reader
  | [] => none
  | c :: rest => if c = apostrophe then readEscaped rest else none

/-- Reads an identifier between two marks. -/
def readDelimited (mark : Char) : Reader
  | [] => none
  | c :: rest => if c = mark then readDoubled mark rest else none

theorem dropStart?_append (start text : List Char) : dropStart? start (start ++ text) = some text := by
  induction start with
  | nil => rfl
  | cons c start ih => simp [dropStart?, ih]

theorem dropStart?_eq_some {start text rest : List Char} (h : dropStart? start text = some rest) :
    text = start ++ rest := by
  fun_induction dropStart? start text with
  | case1 text => cases h; rfl
  | case2 start d text ih => rw [ih h, List.cons_append]
  | case3 => cases h
  | case4 => cases h

/-! ## What more text changes -/

/-- More text behind what a reader takes is left as it is. -/
def Reader.Stops (read : Reader) : Prop :=
  ∀ ⦃text s after⦄ (more : List Char), read text = some (s, after) → read (text ++ more) = some (s, after ++ more)

/-- Where a whole text is read, no text that stops short of it is. -/
theorem Reader.Stops.eq_none {read : Reader} (h : read.Stops) {before after s : List Char}
    (hread : read (before ++ after) = some (s, [])) (hafter : after ≠ []) : read before = none := by
  cases hbefore : read before with
  | none => rfl
  | some found =>
    obtain ⟨s', rest⟩ := found
    have hmore := h after hbefore
    rw [hread, Option.some.injEq, Prod.mk.injEq] at hmore
    exact absurd (List.append_eq_nil_iff.1 hmore.2.symm).2 hafter

theorem readEscaped_stops : Reader.Stops readEscaped := by
  intro text s after more h
  fun_induction readEscaped text generalizing s after with
  | case1 => cases h
  | case2 rest =>
    cases h
    exact readEscaped_quote (rest ++ more)
  | case3 => cases h
  | case4 c rest _ ih =>
    obtain ⟨⟨s', after'⟩, hrest, hs⟩ := Option.map_eq_some_iff.1 h
    cases hs
    rw [List.cons_append, List.cons_append, readEscaped_escaped, ih hrest]
    rfl
  | case5 c rest hquote hescape ih =>
    obtain ⟨⟨s', after'⟩, hrest, hs⟩ := Option.map_eq_some_iff.1 h
    cases hs
    rw [List.cons_append, readEscaped_other hquote hescape, ih hrest]
    rfl

theorem readQuoted_stops : Reader.Stops readQuoted := by
  intro text s after more h
  cases text with
  | nil => cases h
  | cons c text =>
    by_cases hc : c = apostrophe
    · simp only [readQuoted, if_pos hc] at h
      simpa [readQuoted, hc] using readEscaped_stops more h
    · simp [readQuoted, hc] at h

theorem Reader.Stops.between {read : Reader} (h : read.Stops) (opening closing : String) :
    Reader.Stops (between opening closing read) := by
  intro text s after more hread
  simp only [Text.between, Option.bind_eq_bind, Option.bind_eq_some_iff, Option.pure_def, Option.some.injEq,
    Prod.mk.injEq, Prod.exists] at hread
  obtain ⟨inner, hopening, s', after', hinner, rest, hclosing, rfl, rfl⟩ := hread
  rw [dropStart?_eq_some hclosing] at hinner
  rw [dropStart?_eq_some hopening, List.append_assoc]
  simp [Text.between, dropStart?_append, h more hinner]

/-! ## String literals -/

theorem readEscaped_escape (s rest : List Char) :
    readEscaped (escape s ++ apostrophe :: rest) = some (s, rest) := by
  induction s with
  | nil => exact readEscaped_quote rest
  | cons c s ih =>
    by_cases hc : c = '\\' ∨ c = apostrophe
    · rw [escape, if_pos hc, List.cons_append, List.cons_append, readEscaped_escaped, ih]
      rfl
    · obtain ⟨hescape, hquote⟩ := not_or.1 hc
      rw [escape, if_neg hc, List.cons_append, readEscaped_other hquote hescape, ih]
      rfl

/-- A string literal reads as its string, whatever text follows. -/
theorem readQuoted_quote (s : String) (rest : List Char) :
    readQuoted ((quote s).toList ++ rest) = some (s.toList, rest) := by
  simp [quote, readQuoted, readEscaped_escape]

/-! ## Delimited identifiers -/

variable {mark : Char}

theorem readDoubled_double {name rest : List Char} (hrest : rest.head? ≠ some mark) :
    readDoubled mark (double mark name ++ mark :: rest) = some (name, rest) := by
  induction name with
  | nil =>
    cases rest with
    | nil => simp [double, readDoubled]
    | cons d rest =>
      have hd : d ≠ mark := fun hd => hrest (by rw [hd]; rfl)
      simp [double, readDoubled, hd]
  | cons c name ih =>
    by_cases hc : c = mark
    · rw [double, if_pos hc, hc, List.cons_append, List.cons_append, readDoubled_mark, ih]
      rfl
    · rw [double, if_neg hc, List.cons_append, readDoubled_other hc, ih]
      rfl

theorem double_of_readDoubled {text name rest : List Char} (h : readDoubled mark text = some (name, rest)) :
    text = double mark name ++ mark :: rest ∧ rest.head? ≠ some mark := by
  fun_induction readDoubled mark text generalizing name rest with
  | case1 => cases h
  | case2 => cases h; simp [double]
  | case3 rest' ih =>
    obtain ⟨⟨name', after⟩, hrest, hname⟩ := Option.map_eq_some_iff.1 h
    cases hname
    obtain ⟨rfl, hafter⟩ := ih hrest
    exact ⟨by simp [double], hafter⟩
  | case4 d rest' hd =>
    cases h
    exact ⟨by simp [double], by simpa using hd⟩
  | case5 c rest' hc ih =>
    obtain ⟨⟨name', after⟩, hrest, hname⟩ := Option.map_eq_some_iff.1 h
    cases hname
    obtain ⟨rfl, hafter⟩ := ih hrest
    exact ⟨by simp [double, hc], hafter⟩

/-- What is read as an identifier is an identifier between marks, and no other mark follows. -/
theorem readDelimited_eq_some {text rest : List Char} {name : String} :
    readDelimited mark text = some (name.toList, rest) ↔
      text = (delimit mark name).toList ++ rest ∧ rest.head? ≠ some mark := by
  constructor
  · intro h
    cases text with
    | nil => cases h
    | cons c text =>
      by_cases hc : c = mark
      · rw [readDelimited, if_pos hc] at h
        obtain ⟨rfl, hrest⟩ := double_of_readDoubled h
        exact ⟨by simp [delimit, hc], hrest⟩
      · rw [readDelimited, if_neg hc] at h
        cases h
  · rintro ⟨rfl, hrest⟩
    simp [delimit, readDelimited, readDoubled_double hrest]

/-- A delimited name determines the name, unless another mark follows. -/
theorem delimit_append_inj {name name' : String} {rest rest' : List Char} (hrest : rest.head? ≠ some mark)
    (hrest' : rest'.head? ≠ some mark)
    (h : (delimit mark name).toList ++ rest = (delimit mark name').toList ++ rest') : name = name' ∧ rest = rest' := by
  have hread := readDelimited_eq_some.2 ⟨h, hrest'⟩
  rw [readDelimited_eq_some.2 ⟨rfl, hrest⟩, Option.some.injEq, Prod.mk.injEq] at hread
  exact ⟨String.toList_inj.1 hread.1, hread.2⟩

/-- What is read as an identifier is a name between marks with no other mark behind it, and every such text is read as
its name. So the marks around a name determine it. Where an identifier seems to end within a delimited name, another
mark follows. -/
theorem delimit_reads (mark : Char) :
    (∀ (text rest : List Char) (name : String), readDelimited mark text = some (name.toList, rest) ↔
      text = (delimit mark name).toList ++ rest ∧ rest.head? ≠ some mark) ∧
    Function.Injective (delimit mark) ∧
    ∀ (name shorter : String) (rest : List Char), (delimit mark name).toList = (delimit mark shorter).toList ++ rest →
      rest = [] ∨ rest.head? = some mark := by
  have hnil : ([] : List Char).head? ≠ some mark := by simp
  refine ⟨fun text rest name => readDelimited_eq_some, ?_, ?_⟩
  · intro name name' h
    exact (delimit_append_inj hnil hnil (by rw [h])).1
  · intro name shorter rest h
    by_cases hrest : rest.head? = some mark
    · exact .inr hrest
    · rw [← List.append_nil (delimit mark name).toList] at h
      exact .inl (delimit_append_inj hnil hrest h).2.symm

/-- A name of two marks, before a full stop: three marks stand at each end, and the name is read all the same. -/
theorem delimit_reads_of_marks :
    ['.', '\x22'].head? ≠ some '\x22' ∧
      readDelimited '\x22' ((delimit '\x22' "\x22\x22").toList ++ ['.', '\x22']) =
        some ("\x22\x22".toList, ['.', '\x22']) := by
  have hrest : ['.', '\x22'].head? ≠ some '\x22' := by decide
  exact ⟨hrest, ((delimit_reads '\x22').1 _ _ "\x22\x22").2 ⟨rfl, hrest⟩⟩

end GraphQuery.Text

namespace GraphQuery

/-! ## Literals that quote a text -/

/-- The text that a literal of a value quotes. -/
def Value.quotedText? : Value → Option String
  | .string s => some s
  | .dateTime t => some t.text
  | _ => none

namespace LiteralStyle

/-- Reads a literal of a style that quotes texts. -/
def reader (style : LiteralStyle) : Text.Reader :=
  match style.form with
  | .string => Text.readQuoted
  | .temporal function => Text.between (function ++ "(") ")" Text.readQuoted
  | .boolean | .integer | .float => fun _ => none

theorem reader_stops (style : LiteralStyle) : style.reader.Stops := by
  unfold reader
  cases style.form with
  | string => exact Text.readQuoted_stops
  | temporal function => exact Text.readQuoted_stops.between _ _
  | boolean => exact fun _ _ _ _ h => by cases h
  | integer => exact fun _ _ _ _ h => by cases h
  | float => exact fun _ _ _ _ h => by cases h

/-- A literal that quotes a text is the quoted text, or an application of a function to it. -/
theorem literal_of_quotedText {style : LiteralStyle} {v : Value} {s literal : String} (hv : v.quotedText? = some s)
    (h : style.literal? v = some literal) :
    (style.form = .string ∧ literal = Text.quote s) ∨
      ∃ function, style.form = .temporal function ∧ literal = function ++ "(" ++ Text.quote s ++ ")" := by
  obtain ⟨storeType, form⟩ := style
  cases v with
  | string text =>
    cases hv
    cases form with
    | string => exact .inl ⟨rfl, (Option.some.inj h).symm⟩
    | temporal function => exact .inr ⟨function, rfl, (Option.some.inj h).symm⟩
    | _ => cases h
  | dateTime t =>
    obtain rfl : t.text = s := Option.some.inj hv
    cases form with
    | temporal function => exact .inr ⟨function, rfl, (Option.some.inj h).symm⟩
    | _ => cases h
  | _ => cases hv

theorem reader_literal {style : LiteralStyle} {v : Value} {s literal : String} (hv : v.quotedText? = some s)
    (h : style.literal? v = some literal) (rest : List Char) :
    style.reader (literal.toList ++ rest) = some (s.toList, rest) := by
  unfold reader
  rcases literal_of_quotedText hv h with ⟨hform, rfl⟩ | ⟨function, hform, rfl⟩
  · rw [hform]
    exact Text.readQuoted_quote s rest
  · have htext : (function ++ "(" ++ Text.quote s ++ ")").toList ++ rest =
        (function ++ "(").toList ++ ((Text.quote s).toList ++ (")".toList ++ rest)) := by
      simp
    rw [hform, htext]
    simp only [Text.between, Text.dropStart?_append, Text.readQuoted_quote, Option.bind_eq_bind, Option.bind_some,
      Option.pure_def]

/-- A quoted string reads as the string, whatever text follows, and so does a literal that quotes a text. No text that
stops short of the literal reads as one, and the literal determines the text that it quotes. -/
theorem literal_reads :
    (∀ (s : String) (rest : List Char), Text.readQuoted ((Text.quote s).toList ++ rest) = some (s.toList, rest)) ∧
    ∀ (style : LiteralStyle) (v : Value) (s literal : String), v.quotedText? = some s →
      style.literal? v = some literal →
      (∀ rest, style.reader (literal.toList ++ rest) = some (s.toList, rest)) ∧
      (∀ before after, literal.toList = before ++ after → after ≠ [] → style.reader before = none) ∧
      ∀ (w : Value) (t : String), w.quotedText? = some t → style.literal? w = some literal → t = s := by
  refine ⟨Text.readQuoted_quote, fun style v s literal hv h => ⟨reader_literal hv h, ?_, ?_⟩⟩
  · intro before after hsplit hafter
    have hwhole := reader_literal hv h []
    rw [List.append_nil, hsplit] at hwhole
    exact style.reader_stops.eq_none hwhole hafter
  · intro w t hw ht
    have hread := reader_literal hw ht []
    rw [reader_literal hv h [], Option.some.injEq, Prod.mk.injEq] at hread
    exact String.toList_inj.1 hread.1.symm

/-- A day that tries to leave its literal, with a quote and with a backslash at the end. -/
theorem literal_reads_of_day :
    let day := "1' OR '1' = '1\\"
    let rest := ") OR '1'".toList
    ∃ literal, Value.quotedText? (.string day) = some day ∧ date.literal? (.string day) = some literal ∧
      date.reader (literal.toList ++ rest) = some (day.toList, rest) := by
  intro day rest
  have hliteral : date.literal? (.string day) = some ("date" ++ "(" ++ Text.quote day ++ ")") := rfl
  exact ⟨_, rfl, hliteral, (literal_reads.2 date _ day _ rfl hliteral).1 rest⟩

end LiteralStyle

end GraphQuery
