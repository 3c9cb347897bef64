import GraphQuery.Proofs.LayoutSettings
import GraphQuery.Proofs.Lines
import GraphQuery.Proofs.SuppliedValues

/-!
# Numbered constants

A generator may send the constants of a read as values of numbered placeholders. Its pieces do not depend on the text
in front of the numbers (`Generator.read_withSlotPrefix`), and written with any such text they fill the gaps of one
template (`Output.writeAll_template`). A read without parameters therefore has as many placeholders as it has constants
that are written: they stand in the text in the order of their numbers, and the table holds the constants' values under
them (`Generator.render_numbered`).
-/

namespace GraphQuery

/-! ## Templates -/

/-- A text with gaps for the names of placeholders. -/
structure Template where
  /-- The text in front of the first gap. -/
  first : String
  /-- The texts behind each gap. -/
  rest : List String

namespace Template

/-- The text with placeholders of these names in its gaps. -/
def fill (t : Template) (names : List String) : String :=
  t.first ++ String.join (List.zipWith (fun name text => "$" ++ name ++ text) names t.rest)

/-- The template with a text and a gap in front. -/
def behindGap (front : String) (t : Template) : Template :=
  ⟨front, t.first :: t.rest⟩

theorem fill_behindGap (front : String) (t : Template) (name : String) (names : List String) :
    (t.behindGap front).fill (name :: names) = front ++ ("$" ++ name) ++ t.fill names := by
  simp [fill, behindGap, String.join_cons, String.append_assoc]

end Template

namespace Output

/-- Behind a placeholder writing goes on within the line. -/
theorem writeAll_placeholder (slotPrefix : String) (w : Output) (name : String) (value : Json) (ps : List Piece) :
    ((w.placeholder name value).writeAll slotPrefix ps).out.text =
      w.out.text ++ (if w.out.atLineStart then w.out.indentation else "") ++ ("$" ++ name) ++
        ((⟨{ w.out with text := "", atLineStart := false }, Table.insert name value w.parameters, w.nextSlot⟩ :
          Output).writeAll slotPrefix ps).out.text := by
  have hfilled : ¬("$" ++ name).isEmpty = true := by simp
  have hbehind : w.placeholder name value =
      (⟨{ w.out with text := "", atLineStart := false }, Table.insert name value w.parameters, w.nextSlot⟩ :
        Output).behind (w.out.text ++ (if w.out.atLineStart then w.out.indentation else "") ++ ("$" ++ name)) := by
    simp only [placeholder, behind, IndentedText.append, if_neg hfilled, String.append_empty]
  rw [hbehind, writeAll_behind]
  rfl

/-- Pieces fill the gaps of one template, whatever stands in front of the numbers. -/
theorem writeAll_template (ps : List Piece) (out : IndentedText) (n : Nat) :
    ∃ t : Template, t.rest.length = (Piece.marks ps).length ∧ ∀ slotPrefix parameters,
      ((⟨out, parameters, n⟩ : Output).writeAll slotPrefix ps).out.text =
        t.fill ((number slotPrefix n (Piece.marks ps)).map Prod.fst) := by
  induction ps generalizing out n with
  | nil => exact ⟨⟨out.text, []⟩, rfl, fun slotPrefix parameters => by simp [writeAll, Template.fill]⟩
  | cons piece ps ih =>
    cases piece with
    | text content => exact ih (out.append content) n
    | newLine => exact ih out.newLine n
    | indent => exact ih out.indent n
    | dedent => exact ih out.dedent n
    | slot value =>
      obtain ⟨t, hlength, ht⟩ := ih { out with text := "", atLineStart := false } (n + 1)
      refine ⟨t.behindGap (out.text ++ if out.atLineStart then out.indentation else ""), congrArg (· + 1) hlength, ?_⟩
      intro slotPrefix parameters
      have hrest := writeAll_placeholder slotPrefix ⟨out, parameters, n + 1⟩ (slotPrefix ++ toString n) value ps
      rw [ht] at hrest
      exact hrest.trans (t.fill_behindGap _ _ _).symm
    | parameter name value =>
      obtain ⟨t, hlength, ht⟩ := ih { out with text := "", atLineStart := false } n
      refine ⟨t.behindGap (out.text ++ if out.atLineStart then out.indentation else ""), congrArg (· + 1) hlength, ?_⟩
      intro slotPrefix parameters
      have hrest := writeAll_placeholder slotPrefix ⟨out, parameters, n⟩ name value ps
      rw [ht] at hrest
      exact hrest.trans (t.fill_behindGap _ _ _).symm

end Output

/-! ## The text in front of numbers -/

namespace Generator

variable {g : Generator}

/-- The generator with another text in front of the numbers of placeholders. -/
def withSlotPrefix (g : Generator) (slotPrefix : String) : Generator :=
  { g with settings := { g.settings with parameterPrefix := slotPrefix } }

/-- The pieces of a read do not depend on what stands in front of the numbers. -/
theorem read_withSlotPrefix (slotPrefix : String) (r : Read) : (g.withSlotPrefix slotPrefix).read r = g.read r :=
  read_laidOut g.settings.indent slotPrefix r

end Generator

/-! ## Constants under their numbers -/

def Referent.constant? : Referent → Option (Value × ValueType)
  | .constant v t => some (v, t)
  | .parameter _ => none

/-- The constants of a read other than null, with their declared types, in the order in which they are written. -/
def Read.constants (r : Read) : List (Value × ValueType) :=
  r.referents.filterMap Referent.constant?

/-- A read without parameters refers to its constants only. -/
theorem Read.referents_eq_constants {r : Read} (hr : r.parameterNames = []) :
    r.referents = r.constants.map fun c => .constant c.1 c.2 := by
  unfold parameterNames at hr
  unfold constants
  generalize r.referents = refs at hr ⊢
  induction refs with
  | nil => rfl
  | cons x refs ih =>
    cases x with
    | constant v t => exact congrArg (List.cons (Referent.constant v t)) (ih hr)
    | parameter name => cases hr

/-- The names of the first placeholders for constants. -/
def slotNames (slotPrefix : String) (count : Nat) : List String :=
  (List.range count).map fun i => slotPrefix ++ toString i

theorem slotNames_nodup (slotPrefix : String) (count : Nat) : (slotNames slotPrefix count).Nodup :=
  List.nodup_range.map fun _ _ h => numbered_injective h

/-- The values that are sent for constants, under their numbers. -/
def slotValues (slotPrefix : String) (constants : List (Value × ValueType)) : List (String × Json) :=
  constants.mapIdx fun i c => (slotPrefix ++ toString i, (c.1.withoutEnum c.2.underlying?).toJson)

theorem slotValues_names (slotPrefix : String) (constants : List (Value × ValueType)) :
    (slotValues slotPrefix constants).map Prod.fst = slotNames slotPrefix constants.length := by
  refine List.ext_getElem (by simp [slotNames, slotValues]) fun i _ _ => ?_
  simp [slotNames, slotValues]

/-- What has no name is numbered in order. -/
theorem number_unnamed {α : Type} (slotPrefix : String) (l : List α) (n : Nat) :
    number slotPrefix n (l.map fun a => (none, a)) = l.mapIdx fun i a => (slotPrefix ++ toString (n + i), a) := by
  induction l generalizing n with
  | nil => rfl
  | cons a l ih =>
    rw [List.mapIdx_cons]
    refine congrArg (List.cons (slotPrefix ++ toString n, a)) ((ih (n + 1)).trans ?_)
    simp only [Nat.add_assoc, Nat.add_comm 1]

/-- Constants are numbered in order. -/
theorem number_constants (slotPrefix : String) (constants : List (Value × ValueType)) :
    number slotPrefix 0 (constants.map fun c => (none, some (c.1.withoutEnum c.2.underlying?).toJson)) =
      (slotValues slotPrefix constants).map (Prod.map id some) := by
  have hunnamed := number_unnamed slotPrefix (constants.map fun c => some (c.1.withoutEnum c.2.underlying?).toJson) 0
  rw [List.map_map] at hunnamed
  refine hunnamed.trans (List.ext_getElem (by simp [slotValues]) fun i _ _ => ?_)
  simp [slotValues]

/-- Placeholders that were written under distinct names are the entries of the table. -/
theorem Output.Records.perm {w : Output} {entries : List (String × Json)}
    (h : w.Records (entries.map (Prod.map id some))) (hkeys : (w.parameters.map Prod.fst).Nodup)
    (hnames : (entries.map Prod.fst).Nodup) : w.parameters.Perm entries := by
  refine Table.perm_of_find? hkeys hnames (fun name value hmem => ?_) fun name hnot => ?_
  · refine h.find?_of_mem (List.mem_map.2 ⟨_, hmem, rfl⟩) fun other hother => ?_
    obtain ⟨entry, hentry, heq⟩ := List.mem_map.1 hother
    have hname : entry.1 = name := congrArg Prod.fst heq
    rw [List.inj_on_of_nodup_map hnames hentry hmem hname] at heq
    exact (congrArg Prod.snd heq).symm
  · refine h.find?_of_not_mem ?_
    rwa [List.map_map]

namespace Generator

variable {g : Generator}

/-- Where constants are sent, a read without parameters has placeholders for its constants only, without names. -/
theorem marks_constants (hmode : g.settings.parameterizeLiterals = true) {r : Read} (hr : r.parameterNames = []) :
    g.marks r.referents = r.constants.map fun c => (none, some (c.1.withoutEnum c.2.underlying?).toJson) := by
  rw [r.referents_eq_constants hr, marks, List.filter_eq_self.2, List.map_map]
  · rfl
  · intro x hx
    obtain ⟨c, -, rfl⟩ := List.mem_map.1 hx
    exact hmode

/-- Where constants are sent, a read without parameters has one placeholder for each constant that is written. They
stand in the text in the order of their numbers, and with another text in front of the numbers nothing else changes.
The table holds the values of the constants under these numbers, and nothing else. -/
theorem render_numbered (hmode : g.settings.parameterizeLiterals = true) {r : Read} (hr : r.parameterNames = [])
    {x : Rendered} (h : g.render r = .ok x) :
    ∃ template : Template, template.rest.length = r.constants.length ∧ ∀ slotPrefix, ∃ rendered,
      (g.withSlotPrefix slotPrefix).render r = .ok rendered ∧
      rendered.text = template.fill (slotNames slotPrefix r.constants.length) ∧
      rendered.parameters.Perm (slotValues slotPrefix r.constants) := by
  obtain ⟨ps, hps, -⟩ := Run.bind_eq_ok.1 h
  have hmarks := (read_marks hps).trans (marks_constants hmode hr)
  obtain ⟨template, hlength, htext⟩ := Output.writeAll_template ps g.start.out 0
  rw [hmarks, List.length_map] at hlength
  refine ⟨template, hlength, fun slotPrefix => ?_⟩
  have hrender : (g.withSlotPrefix slotPrefix).render r = .ok ((g.withSlotPrefix slotPrefix).write ps) := by
    rw [render, read_withSlotPrefix, hps]
    rfl
  have hnumber := number_constants slotPrefix r.constants
  refine ⟨_, hrender, ?_, ?_⟩
  · have hnames : (number slotPrefix 0 (Piece.marks ps)).map Prod.fst = slotNames slotPrefix r.constants.length := by
      rw [hmarks, hnumber, List.map_map, ← slotValues_names]
      rfl
    rw [← hnames]
    exact htext slotPrefix []
  · obtain ⟨w, hw, hrendered⟩ := render_records hrender
    rw [placeholders_value, marks_constants (g := g.withSlotPrefix slotPrefix) hmode hr] at hw
    have hkeys := (render_ordered hrender).nodup
    have hnames : ((slotValues slotPrefix r.constants).map Prod.fst).Nodup := by
      rw [slotValues_names]
      exact slotNames_nodup slotPrefix r.constants.length
    rw [hrendered] at hkeys ⊢
    refine Output.Records.perm ?_ hkeys hnames
    rw [← hnumber]
    exact hw

/-- A read with constants in branches that are not written or are words, and with a limit and a skip. -/
def scatteredConstants : Read :=
  let number (n : Int32) : Expr := .constant (.int32 n) .int32
  ⟨[], [.conditional (.isNull (number 1)) (number 2) (number 3) .bool,
      .conditional (.isNull (.constant (.enum "Status" 1) (.enum "Status" .int32))) (.constant (.bool true) .bool)
        (number 4) .int32,
      .constant .null .int32],
    [], some (number 5), some (number 6), false, none, [], "s"⟩

/-- Of a conditional between truth values the test alone is numbered, a truth value as a branch and a null are not, and
the skip is numbered before the limit. -/
theorem render_numbered_of_scattered :
    let g : Generator := { settings := { parameterizeLiterals := true } }
    scatteredConstants.constants.length = 5 ∧ ∃ template : Template, template.rest.length = 5 ∧ ∃ rendered,
      (g.withSlotPrefix "v").render scatteredConstants = .ok rendered ∧
      rendered.text = template.fill ["v0", "v1", "v2", "v3", "v4"] ∧
      rendered.parameters.Perm [("v0", .int 1), ("v1", .int 1), ("v2", .int 4), ("v3", .int 6), ("v4", .int 5)] := by
  intro g
  have hrender : ∃ x, g.render scatteredConstants = .ok x := ⟨_, rfl⟩
  obtain ⟨x, hx⟩ := hrender
  obtain ⟨template, hlength, hall⟩ := render_numbered (g := g) rfl (r := scatteredConstants) rfl hx
  have hnames : slotNames "v" scatteredConstants.constants.length = ["v0", "v1", "v2", "v3", "v4"] := by
    decide +kernel
  have hvalues : slotValues "v" scatteredConstants.constants =
      [("v0", .int 1), ("v1", .int 1), ("v2", .int 4), ("v3", .int 6), ("v4", .int 5)] := by
    rfl
  have hv := hall "v"
  rw [hnames, hvalues] at hv
  exact ⟨rfl, template, hlength, hv⟩

end Generator

end GraphQuery
